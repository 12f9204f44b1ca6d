import TronlinkCore.Keystore.Retry

namespace TronlinkCore.Keystore

open Throwing Io

variable {Document : Type}

theorem retryDirectoryBackupExclusion_run {s : Session Document} (hf : s.faults = []) :
    KeyStore.retryDirectoryBackupExclusion s = (.ok (), s.withStore (KeyStore.setBackupPending false)) := by
  rw [KeyStore.retryDirectoryBackupExclusion, bind_run, attempt_run, excludeFromBackup, access_run hf]
  rfl

theorem listDirectory_run {s : Session Document} (hf : s.faults = []) : (KeyStore.listDirectory : Io Document _) s =
    (.ok (s.disk.keys.filter (·.ShownIn s.store.keyDirectory)), s.withStore (KeyStore.setBackupPending false)) := by
  rw [KeyStore.listDirectory, createDirectory, bind_of_ok (access_run hf _),
    bind_of_ok (retryDirectoryBackupExclusion_run hf), contentsOfDirectory,
    bind_of_ok (access_run (s := s.withStore (KeyStore.setBackupPending false)) hf _)]
  rfl

structure Calm (s : Session Document) : Prop where
  faults : s.faults = []
  pending : s.store.pendingAccountURLs = []

theorem loadKey_calm {s : Session Document} (h : Calm s) (url : URL) (key : Option KeystoreKey) :
    Calm (KeyStore.loadKey url key s).2 := by
  cases key with
  | none => exact h
  | some key =>
    have hprotect : (KeyStore.protectFile url : Io Document Unit) s = (.ok (), s) := by
      rw [KeyStore.protectFile, bind_run, attempt_run, setAttributes, bind_of_ok (access_run h.faults _),
        excludeFromBackup, access_run h.faults]
      rfl
    rw [KeyStore.loadKey, bind_of_ok hprotect]
    refine ⟨h.faults, ?_⟩
    change (KeyStore.register url key s.store).pendingAccountURLs = []
    rw [(register_rest url key s.store).2.2.1, h.pending]

variable [JsonCoder Document] [Graphemes]

def unopened (directory : Text) (disk : Dictionary URL (Entry Document)) : Session Document :=
  ⟨KeyStore.closed directory, disk, []⟩

structure Loading (directory : Text) (files s : Session Document) : Prop where
  disk : s.disk = files.disk
  keyDirectory : s.store.keyDirectory = directory
  accounts : ∀ address account, s.store.accountsByAddress.lookup address = some account →
    FileAccount (·.ShownIn directory) files address account
  keys : ∀ address key, s.store.keysByAddress.lookup address = some key → FileKey (·.ShownIn directory) files address key
  paired : ∀ address, (s.store.accountsByAddress.lookup address).isSome → (s.store.keysByAddress.lookup address).isSome
  pending : ∀ url ∈ s.store.pendingAccountURLs, url.ShownIn directory
  progress : ∀ url key, url.ShownIn directory → Holds files url key → Unread s url ∨ Entered s key.address

theorem Loading.unread_shown {directory : Text} {files s : Session Document} (h : Loading directory files s) {url : URL}
    (hurl : Unread s url) : url.ShownIn directory := by
  rcases hurl.2 with hp | hl
  · exact h.pending url hp
  · exact h.keyDirectory ▸ hl.2

theorem Loading.reads {directory : Text} {files s t : Session Document} (h : Loading directory files s)
    (hr : Reads s t) : Loading directory files t where
  disk := hr.extended.disk.trans h.disk
  keyDirectory := hr.extended.directory.trans h.keyDirectory
  accounts address account ha := by
    rcases (hr.extended.accounts address).origin ha with hs | hfile
    · exact h.accounts address account hs
    · exact hfile.mono h.disk fun url hurl => h.unread_shown hurl
  keys address key hk := by
    rcases (hr.extended.keys address).origin hk with hs | hfile
    · exact h.keys address key hs
    · exact hfile.mono h.disk fun url hurl => h.unread_shown hurl
  paired address ha := by
    rcases hr.extended.paired address ha with hs | hk
    · exact (hr.extended.keys address).isSome (h.paired address hs)
    · exact hk
  pending url hurl := by
    rcases hr.pending url hurl with hp | hs
    · exact h.pending url hp
    · exact h.keyDirectory ▸ hs
  progress url key hurl hk := by
    rcases h.progress url key hurl hk with hunread | hentered
    · exact hr.progress url key (h.keyDirectory ▸ hurl) hunread (hk.of_lookup (by rw [h.disk]))
    · exact .inr (hr.extended.entered hentered)

theorem opened_loading (directory : Text) (disk : Dictionary URL (Entry Document)) (faults : List Bool) :
    Loading directory (unopened directory disk) (KeyStore.opened directory disk faults) := by
  let closed : Session Document := ⟨KeyStore.closed directory, disk, faults⟩
  have hclosed : Loading directory (unopened directory disk) (closed.withStore (KeyStore.setListingPending true)) := by
    refine ⟨rfl, rfl, ?_, ?_, ?_, ?_, ?_⟩
    · intro address account ha
      cases ha
    · intro address key hk
      cases hk
    · intro address ha
      cases ha
    · intro url hurl
      cases hurl
    · exact fun url key hurl _ => .inl ⟨Finset.notMem_empty url, .inr ⟨rfl, hurl⟩⟩
  exact hclosed.reads (load_reads closed)

theorem loadAccount_calm {s : Session Document} (h : Calm s) (url : URL) : Calm (KeyStore.loadAccount url s).2 := by
  have hcontents : contents url s = (Entry.contents (s.disk.lookup url), s) := by
    rw [contents, bind_of_ok (access_run h.faults _), bind_of_ok (entry_run url s)]
    rfl
  rw [KeyStore.loadAccount, bind_of_ok (isDirectory_run url s)]
  split
  · exact h
  · rename_i hdir
    have hsame : s.withStore (KeyStore.noteUnread url (Entry.contents (s.disk.lookup url))) = s := by
      cases he : s.disk.lookup url with
      | none => rfl
      | some entry =>
        cases entry with
        | file json => rfl
        | directory =>
          rw [he] at hdir
          exact absurd rfl hdir
    have hread : KeyStore.readKey url s = (.ok (KeyStore.keyIn (Entry.contents (s.disk.lookup url))), s) := by
      rw [KeyStore.readKey, bind_run, attempt_run, hcontents]
      exact congrArg _ hsame
    rw [bind_of_ok hread]
    exact loadKey_calm h url _

theorem loadEach_calm {s : Session Document} (h : Calm s) (urls : List URL) : Calm (KeyStore.loadEach urls s).2 := by
  induction urls generalizing s with
  | nil => exact h
  | cons url urls ih =>
    rw [KeyStore.loadEach, bind_of_ok ((loadAccount_neverThrows url).run s)]
    exact ih (loadAccount_calm h url)

theorem opened_readable (directory : Text) (disk : Dictionary URL (Entry Document)) :
    (KeyStore.opened directory disk []).store.hasUnreadableAccounts = false := by
  let urls := disk.keys.filter (·.ShownIn directory)
  let listed : Session Document := (((unopened directory disk).withStore (KeyStore.setBackupPending false)).withStore
    (KeyStore.setListingPending false)).withStore KeyStore.clearPending
  have hrun : KeyStore.opened directory disk [] = (KeyStore.loadEach urls listed).2 := by
    have hlist := listDirectory_run (s := unopened directory disk) rfl
    rw [unopened] at hlist
    rw [KeyStore.opened, KeyStore.load, bind_run, attempt_run, hlist]
    rfl
  have hlisting := (loadEach_picks (U := Set.univ) urls (fun _ _ => Set.mem_univ _) listed).listing
  rw [hrun, KeyStore.hasUnreadableAccounts, (loadEach_calm (s := listed) ⟨rfl, rfl⟩ urls).pending, hlisting]
  rfl

structure Finds (s t : Session Document) : Prop where
  directory : t.store.keyDirectory = s.store.keyDirectory
  disk : ∀ url, t.disk.lookup url = s.disk.lookup url
  readable : t.store.hasUnreadableAccounts = false
  accounts : ∀ address account, t.store.accountsByAddress.lookup address = some account →
    FileAccount (·.ShownIn s.store.keyDirectory) s address account
  keys : ∀ address key, t.store.keysByAddress.lookup address = some key →
    FileKey (·.ShownIn s.store.keyDirectory) s address key
  found : ∀ url key, url.ShownIn s.store.keyDirectory → Holds s url key →
    (t.store.accountsByAddress.lookup key.address).isSome ∧ (t.store.keysByAddress.lookup key.address).isSome

theorem opened_found {s : Session Document} {disk : Dictionary URL (Entry Document)}
    (hd : ∀ url, disk.lookup url = s.disk.lookup url) : Finds s (KeyStore.opened s.store.keyDirectory disk []) := by
  have hholds : ∀ url key, Holds (unopened s.store.keyDirectory disk) url key ↔ Holds s url key :=
    fun url _ => ⟨fun hk => hk.of_lookup (hd url), fun hk => hk.of_lookup (hd url).symm⟩
  have hload := opened_loading s.store.keyDirectory disk []
  have hreadable := opened_readable s.store.keyDirectory disk
  refine ⟨hload.keyDirectory, fun url => ?_, hreadable, ?_, ?_, ?_⟩
  · rw [hload.disk]
    exact hd url
  · intro address account ha
    obtain ⟨url, key, hurl, hk, hrest⟩ := hload.accounts address account ha
    exact ⟨url, key, hurl, (hholds url key).mp hk, hrest⟩
  · intro address key hk
    obtain ⟨url, hurl, hk', haddr⟩ := hload.keys address key hk
    exact ⟨url, hurl, (hholds url key).mp hk', haddr⟩
  · intro url key hurl hk
    exact (hload.progress url key hurl ((hholds url key).mpr hk)).resolve_left (not_unread hreadable url)

end TronlinkCore.Keystore
