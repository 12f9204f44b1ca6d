import TronlinkCore.Keystore.KeyStore

/-!
The retry under the lock: it adds entries of files that could not be read
before, and changes nothing else.
-/

namespace TronlinkCore.Keystore

open Exceptions Throwing Io

def Gains {α : Type} (P : α → Prop) (before after : Option α) : Prop :=
  after = before ∨ before = none ∧ ∃ a, P a ∧ after = some a

theorem Gains.mono {α : Type} {P Q : α → Prop} {before after : Option α} (h : Gains P before after)
    (hPQ : ∀ a, P a → Q a) : Gains Q before after :=
  h.imp_right fun ⟨hn, a, ha, hafter⟩ => ⟨hn, a, hPQ a ha, hafter⟩

theorem Gains.trans {α : Type} {P : α → Prop} {x y z : Option α} (h₁ : Gains P x y) (h₂ : Gains P y z) :
    Gains P x z := by
  rcases h₂ with h₂ | ⟨hy, hz⟩
  · rwa [h₂]
  · rcases h₁ with h₁ | ⟨_, a, _, ha⟩
    · exact .inr ⟨h₁ ▸ hy, hz⟩
    · rw [ha] at hy
      cases hy

theorem Gains.of_some {α : Type} {P : α → Prop} {before after : Option α} {a : α} (h : Gains P before after)
    (hb : before = some a) : after = some a := by
  rcases h with rfl | ⟨hn, _⟩
  · exact hb
  · rw [hb] at hn
    cases hn

theorem Gains.origin {α : Type} {P : α → Prop} {before after : Option α} {a : α} (h : Gains P before after)
    (ha : after = some a) : before = some a ∨ P a := by
  rcases h with rfl | ⟨_, b, hb, hafter⟩
  · exact .inl ha
  · rw [ha, Option.some.injEq] at hafter
    exact .inr (hafter ▸ hb)

theorem Gains.isSome {α : Type} {P : α → Prop} {before after : Option α} (h : Gains P before after)
    (hb : before.isSome) : after.isSome := by
  rcases h with rfl | ⟨_, a, _, rfl⟩
  · exact hb
  · rfl

variable {Document : Type} {url : URL}

theorem register_accounts (key : KeystoreKey) {store : KeyStore} (h : url ∉ store.loadedAccountURLs) :
    (KeyStore.register url key store).accountsByAddress =
      if (store.accountsByAddress.lookup key.address).isNone then
        store.accountsByAddress.insert key.address ⟨key.address, key.type, url⟩
      else store.accountsByAddress := by
  rw [KeyStore.register, if_neg h]

theorem register_keys (key : KeystoreKey) {store : KeyStore} (h : url ∉ store.loadedAccountURLs) :
    (KeyStore.register url key store).keysByAddress =
      if (store.keysByAddress.lookup key.address).isNone then store.keysByAddress.insert key.address key
      else store.keysByAddress := by
  rw [KeyStore.register, if_neg h]

theorem register_isSome {store : KeyStore} (key : KeystoreKey) (h : url ∉ store.loadedAccountURLs) :
    ((KeyStore.register url key store).accountsByAddress.lookup key.address).isSome ∧
      ((KeyStore.register url key store).keysByAddress.lookup key.address).isSome := by
  rw [register_accounts key h, register_keys key h]
  constructor
  · split
    · rw [AList.lookup_insert]
      rfl
    · exact Option.isSome_iff_ne_none.mpr (mt Option.isNone_iff_eq_none.mpr ‹_›)
  · split
    · rw [AList.lookup_insert]
      rfl
    · exact Option.isSome_iff_ne_none.mpr (mt Option.isNone_iff_eq_none.mpr ‹_›)

theorem register_rest (url : URL) (key : KeystoreKey) (store : KeyStore) :
    (KeyStore.register url key store).keyDirectory = store.keyDirectory ∧
      (KeyStore.register url key store).loadedAccountURLs = insert url store.loadedAccountURLs ∧
      (KeyStore.register url key store).pendingAccountURLs = store.pendingAccountURLs ∧
      (KeyStore.register url key store).directoryListingPending = store.directoryListingPending := by
  rw [KeyStore.register]
  split
  · rw [Finset.insert_eq_of_mem ‹_›]
    exact ⟨rfl, rfl, rfl, rfl⟩
  · exact ⟨rfl, rfl, rfl, rfl⟩

structure Quiet (s t : Session Document) : Prop where
  store : ∃ b, t.store = s.store.setBackupPending b
  disk : t.disk = s.disk

instance : IsPreorder (Session Document) Quiet where
  refl s := ⟨⟨s.store.backupExclusionPending, rfl⟩, rfl⟩
  trans _ _ _ h₁ h₂ := by
    obtain ⟨b₁, hs₁⟩ := h₁.store
    obtain ⟨b₂, hs₂⟩ := h₂.store
    exact ⟨⟨b₂, by rw [hs₂, hs₁]; rfl⟩, h₂.disk.trans h₁.disk⟩

theorem Idle.quiet {s t : Session Document} (h : Idle s t) : Quiet s t where
  store := ⟨s.store.backupExclusionPending, h.store⟩
  disk := h.disk

theorem setBackupPending_quiet (b : Bool) : Keeps Quiet (modifyStore (KeyStore.setBackupPending b) : Io Document Unit) :=
  fun _ => ⟨⟨b, rfl⟩, rfl⟩

theorem access_quiet (failure : Failure) : Keeps Quiet (access failure : Io Document Unit) :=
  fun s => (access_idle failure s).quiet

theorem retryDirectoryBackupExclusion_quiet :
    Keeps Quiet (KeyStore.retryDirectoryBackupExclusion : Io Document Unit) := by
  apply Keeps.bind (access_quiet _).attempt
  intro _
  exact setBackupPending_quiet _

theorem listDirectory_quiet : Keeps Quiet (KeyStore.listDirectory : Io Document _) := by
  apply Keeps.bind (access_quiet _)
  intro _
  apply Keeps.bind retryDirectoryBackupExclusion_quiet
  intro _ s
  exact (contentsOfDirectory_idle s).quiet

theorem listDirectory_eq_ok {s t : Session Document} {urls : List URL}
    (h : KeyStore.listDirectory s = (.ok urls, t)) :
    urls = s.disk.keys.filter (·.ShownIn s.store.keyDirectory) := by
  rw [KeyStore.listDirectory, bind_eq_ok] at h
  obtain ⟨_, s₁, h₁, h⟩ := h
  rw [bind_eq_ok] at h
  obtain ⟨_, s₂, h₂, h⟩ := h
  have hq₁ := access_quiet (.cocoa .fileWriteUnknown) s
  have hq₂ := retryDirectoryBackupExclusion_quiet s₁
  rw [show access _ s = _ from h₁] at hq₁
  rw [h₂] at hq₂
  obtain ⟨⟨b, hstore⟩, hdisk⟩ : Quiet s s₂ := IsTrans.trans _ _ _ hq₁ hq₂
  rw [contentsOfDirectory_eq_ok h, hdisk, hstore]
  rfl

def Unread (s : Session Document) (url : URL) : Prop :=
  url ∉ s.store.loadedAccountURLs ∧ (url ∈ s.store.pendingAccountURLs ∨
    s.store.directoryListingPending = true ∧ url.ShownIn s.store.keyDirectory)

theorem not_unread {s : Session Document} (h : s.store.hasUnreadableAccounts = false) (url : URL) : ¬ Unread s url := by
  rw [KeyStore.hasUnreadableAccounts, Bool.or_eq_false_iff, List.any_eq_false] at h
  rintro ⟨hloaded, hpending | ⟨hlisting, _⟩⟩
  · exact absurd hloaded (by simpa using h.2 url hpending)
  · rw [h.1] at hlisting
    cases hlisting

variable [JsonCoder Document] [Graphemes]

def Holds (s : Session Document) (url : URL) (key : KeystoreKey) : Prop :=
  ∃ json, s.disk.lookup url = some (.file json) ∧ KeystoreKey.decode json = .ok key

theorem Holds.of_lookup {s t : Session Document} {key : KeystoreKey} (h : Holds t url key)
    (hd : t.disk.lookup url = s.disk.lookup url) : Holds s url key := by
  obtain ⟨json, hj, hkey⟩ := h
  exact ⟨json, hd ▸ hj, hkey⟩

theorem Holds.unique {s : Session Document} {url : URL} {key key' : KeystoreKey} (h : Holds s url key)
    (h' : Holds s url key') : key = key' := by
  obtain ⟨json, hj, hkey⟩ := h
  obtain ⟨json', hj', hkey'⟩ := h'
  rw [hj, Option.some.injEq, Entry.file.injEq] at hj'
  rw [← hj', hkey, Except.ok.injEq] at hkey'
  exact hkey'

def FileAccount (P : URL → Prop) (s : Session Document) (address : Address) (account : Account) : Prop :=
  ∃ url key, P url ∧ Holds s url key ∧ key.address = address ∧ account = ⟨address, key.type, url⟩

def FileKey (P : URL → Prop) (s : Session Document) (address : Address) (key : KeystoreKey) : Prop :=
  ∃ url, P url ∧ Holds s url key ∧ key.address = address

/-- `t` has the entries of `s`, and new ones only from files that satisfy `P`. -/
structure Extends (P : URL → Prop) (s t : Session Document) : Prop where
  disk : t.disk = s.disk
  directory : t.store.keyDirectory = s.store.keyDirectory
  accounts : ∀ address, Gains (FileAccount P s address) (s.store.accountsByAddress.lookup address)
    (t.store.accountsByAddress.lookup address)
  keys : ∀ address, Gains (FileKey P s address) (s.store.keysByAddress.lookup address)
    (t.store.keysByAddress.lookup address)
  paired : ∀ address, (t.store.accountsByAddress.lookup address).isSome →
    (s.store.accountsByAddress.lookup address).isSome ∨ (t.store.keysByAddress.lookup address).isSome

theorem Extends.of_same {P : URL → Prop} {s t : Session Document} (hd : t.disk = s.disk)
    (hdir : t.store.keyDirectory = s.store.keyDirectory)
    (ha : t.store.accountsByAddress = s.store.accountsByAddress)
    (hk : t.store.keysByAddress = s.store.keysByAddress) : Extends P s t where
  disk := hd
  directory := hdir
  accounts _ := .inl (by rw [ha])
  keys _ := .inl (by rw [hk])
  paired _ h := .inl (ha ▸ h)

theorem FileAccount.mono {P Q : URL → Prop} {s t : Session Document} {address : Address} {account : Account}
    (h : FileAccount P t address account) (hd : t.disk = s.disk) (hPQ : ∀ url, P url → Q url) :
    FileAccount Q s address account := by
  obtain ⟨url, key, hP, hk, hrest⟩ := h
  exact ⟨url, key, hPQ url hP, hk.of_lookup (by rw [hd]), hrest⟩

theorem FileKey.mono {P Q : URL → Prop} {s t : Session Document} {address : Address} {key : KeystoreKey}
    (h : FileKey P t address key) (hd : t.disk = s.disk) (hPQ : ∀ url, P url → Q url) : FileKey Q s address key := by
  obtain ⟨url, hP, hk, haddr⟩ := h
  exact ⟨url, hPQ url hP, hk.of_lookup (by rw [hd]), haddr⟩

theorem Extends.mono {P Q : URL → Prop} {s t : Session Document} (h : Extends P s t) (hPQ : ∀ url, P url → Q url) :
    Extends Q s t where
  disk := h.disk
  directory := h.directory
  accounts address := (h.accounts address).mono fun _ hf => hf.mono rfl hPQ
  keys address := (h.keys address).mono fun _ hf => hf.mono rfl hPQ
  paired := h.paired

theorem Extends.trans {P : URL → Prop} {s t u : Session Document} (h₁ : Extends P s t) (h₂ : Extends P t u) :
    Extends P s u where
  disk := h₂.disk.trans h₁.disk
  directory := h₂.directory.trans h₁.directory
  accounts address := (h₁.accounts address).trans ((h₂.accounts address).mono fun _ hf => hf.mono h₁.disk fun _ => id)
  keys address := (h₁.keys address).trans ((h₂.keys address).mono fun _ hf => hf.mono h₁.disk fun _ => id)
  paired address hu := by
    rcases h₂.paired address hu with ht | hk
    · exact (h₁.paired address ht).imp_right (h₂.keys address).isSome
    · exact .inr hk

def Entered (s : Session Document) (address : Address) : Prop :=
  (s.store.accountsByAddress.lookup address).isSome ∧ (s.store.keysByAddress.lookup address).isSome

theorem Extends.entered {P : URL → Prop} {s t : Session Document} (h : Extends P s t) {address : Address}
    (he : Entered s address) : Entered t address :=
  ⟨(h.accounts address).isSome he.1, (h.keys address).isSome he.2⟩

structure Picks (U : Set URL) (s t : Session Document) : Prop where
  extended : Extends (fun url => url ∈ U ∧ url ∉ s.store.loadedAccountURLs) s t
  loaded : s.store.loadedAccountURLs ⊆ t.store.loadedAccountURLs
  pending : ∀ url ∈ t.store.pendingAccountURLs, url ∈ s.store.pendingAccountURLs ∨ url ∈ U
  kept : s.store.pendingAccountURLs ⊆ t.store.pendingAccountURLs
  listing : t.store.directoryListingPending = s.store.directoryListingPending
  registered : ∀ url ∈ t.store.loadedAccountURLs, url ∉ s.store.loadedAccountURLs → ∀ key, Holds s url key →
    Entered t key.address

instance (U : Set URL) : IsPreorder (Session Document) (Picks U) where
  refl _ := ⟨.of_same rfl rfl rfl rfl, Finset.Subset.refl _, fun _ h => .inl h, List.Subset.refl _, rfl,
    fun _ h hn => absurd h hn⟩
  trans s t _ h₁ h₂ := by
    refine ⟨h₁.extended.trans (h₂.extended.mono fun _ h => ⟨h.1, fun hl => h.2 (h₁.loaded hl)⟩),
      Finset.Subset.trans h₁.loaded h₂.loaded, fun url h => (h₂.pending url h).elim (h₁.pending url) .inr,
      List.Subset.trans h₁.kept h₂.kept, h₂.listing.trans h₁.listing, ?_⟩
    intro url hu hs key hk
    by_cases ht : url ∈ t.store.loadedAccountURLs
    · exact h₂.extended.entered (h₁.registered url ht hs key hk)
    · exact h₂.registered url hu ht key (hk.of_lookup (by rw [h₁.extended.disk]))

variable {U : Set URL}

theorem Idle.picks {s t : Session Document} (h : Idle s t) : Picks U s t where
  extended := by
    apply Extends.of_same h.disk
    · rw [h.store]
    · rw [h.store]
    · rw [h.store]
  loaded := by rw [h.store]
  pending url hurl := by
    rw [h.store] at hurl
    exact .inl hurl
  kept := by rw [h.store]; exact List.Subset.refl _
  listing := by rw [h.store]
  registered url hurl hn := by
    rw [h.store] at hurl
    exact absurd hurl hn

theorem addPending_picks (hU : url ∈ U) (s : Session Document) : Picks U s (s.withStore (KeyStore.addPending url)) where
  extended := .of_same rfl rfl rfl rfl
  loaded := Finset.Subset.refl _
  pending x hx := by
    rcases List.mem_append.mp hx with hx | hx
    · exact .inl hx
    · rw [List.mem_singleton.mp hx]
      exact .inr hU
  kept := List.subset_append_left _ _
  listing := rfl
  registered _ h hn := absurd h hn

theorem register_picks {key : KeystoreKey} (hU : url ∈ U) {s : Session Document} (hk : Holds s url key) :
    Picks U s (s.withStore (KeyStore.register url key)) := by
  obtain ⟨hdir, hloaded, hpending, hlisting⟩ := register_rest url key s.store
  by_cases hl : url ∈ s.store.loadedAccountURLs
  · have hsame : KeyStore.register url key s.store = s.store := if_pos hl
    rw [Session.withStore, hsame]
    exact refl s
  · refine ⟨⟨rfl, hdir, ?_, ?_, ?_⟩, ?_, ?_, ?_, hlisting, ?_⟩
    · intro address
      change Gains _ _ ((KeyStore.register url key s.store).accountsByAddress.lookup address)
      rw [register_accounts key hl]
      split
      · rename_i hnone
        by_cases ha : address = key.address
        · subst ha
          right
          exact ⟨Option.isNone_iff_eq_none.mp hnone, _, ⟨url, key, ⟨hU, hl⟩, hk, rfl, rfl⟩, AList.lookup_insert _⟩
        · left
          rw [AList.lookup_insert_ne ha]
      · exact .inl rfl
    · intro address
      change Gains _ _ ((KeyStore.register url key s.store).keysByAddress.lookup address)
      rw [register_keys key hl]
      split
      · rename_i hnone
        by_cases ha : address = key.address
        · subst ha
          right
          exact ⟨Option.isNone_iff_eq_none.mp hnone, _, ⟨url, ⟨hU, hl⟩, hk, rfl⟩, AList.lookup_insert _⟩
        · left
          rw [AList.lookup_insert_ne ha]
      · exact .inl rfl
    · intro address hsome
      by_cases ha : address = key.address
      · subst ha
        exact .inr (register_isSome key hl).2
      · left
        change ((KeyStore.register url key s.store).accountsByAddress.lookup address).isSome at hsome
        rw [register_accounts key hl] at hsome
        split at hsome
        · rwa [AList.lookup_insert_ne ha] at hsome
        · exact hsome
    · change s.store.loadedAccountURLs ⊆ (KeyStore.register url key s.store).loadedAccountURLs
      rw [hloaded]
      exact Finset.subset_insert _ _
    · intro x hx
      change x ∈ (KeyStore.register url key s.store).pendingAccountURLs at hx
      rw [hpending] at hx
      exact .inl hx
    · change s.store.pendingAccountURLs ⊆ (KeyStore.register url key s.store).pendingAccountURLs
      rw [hpending]
      exact List.Subset.refl _
    · intro x hx hn key' hk'
      change x ∈ (KeyStore.register url key s.store).loadedAccountURLs at hx
      rw [hloaded, Finset.mem_insert] at hx
      obtain rfl := hx.resolve_right hn
      obtain rfl := hk.unique hk'
      exact register_isSome key hl

theorem readKey_picks (hU : url ∈ U) : Keeps (Picks U) (KeyStore.readKey url : Io Document _) := by
  intro s
  have hidle := contents_idle url s
  apply IsTrans.trans _ _ _ hidle.picks
  change Picks U _ (((contents url s).2).withStore (KeyStore.noteUnread url (contents url s).1))
  cases (contents url s).1 with
  | ok json => exact refl _
  | error failure =>
    rw [KeyStore.noteUnread]
    split
    · exact refl _
    · exact addPending_picks hU _

theorem readKey_holds {s t : Session Document} {key : KeystoreKey}
    (h : KeyStore.readKey url s = (.ok (some key), t)) : Holds s url key := by
  have hkey : KeyStore.keyIn (contents url s).1 = some key := by
    have h1 := congrArg Prod.fst h
    exact Except.ok.inj h1
  cases hc : (contents url s).1 with
  | ok json =>
    rw [hc, KeyStore.keyIn] at hkey
    refine ⟨json, contents_eq_ok (Prod.ext hc rfl), ?_⟩
    cases hd : KeystoreKey.decode json with
    | ok k =>
      rw [hd] at hkey
      cases hkey
      rfl
    | error e =>
      rw [hd] at hkey
      cases hkey
  | error failure =>
    rw [hc] at hkey
    cases hkey

theorem protectFile_picks (hU : url ∈ U) : Keeps (Picks U) (KeyStore.protectFile url : Io Document _) := by
  intro s
  have hidle : Keeps Idle (do setAttributes; excludeFromBackup : Io Document Unit) :=
    (access_idle _).bind fun _ => access_idle _
  apply IsTrans.trans _ _ _ (hidle s).picks
  change Picks U _ (Session.withStore _ _)
  split
  · exact addPending_picks hU _
  · exact refl _

theorem loadAccount_picks (hU : url ∈ U) : Keeps (Picks U) (KeyStore.loadAccount url : Io Document _) := by
  intro s
  rw [KeyStore.loadAccount, bind_of_ok (isDirectory_run url s)]
  split
  · exact refl s
  · have hread := readKey_picks hU s
    rw [bind_run]
    split
    · rename_i key t ht
      rw [ht] at hread
      cases key with
      | none => exact hread
      | some key =>
        obtain ⟨json, hj, hkey⟩ := readKey_holds ht
        have hprotect := protectFile_picks hU t
        have hdisk := (IsTrans.trans _ _ _ hread hprotect).extended.disk
        apply IsTrans.trans _ _ _ (IsTrans.trans _ _ _ hread hprotect)
        exact register_picks hU ⟨json, hdisk ▸ hj, hkey⟩
    · rename_i e t ht
      rw [ht] at hread
      exact hread

theorem loadEach_picks (urls : List URL) (hU : ∀ url ∈ urls, url ∈ U) :
    Keeps (Picks U) (KeyStore.loadEach urls : Io Document _) := by
  induction urls with
  | nil => exact keeps_pure ()
  | cons url urls ih =>
    apply Keeps.bind (loadAccount_picks (hU url (by simp)))
    intro _
    exact ih fun x hx => hU x (List.mem_cons_of_mem _ hx)

theorem loadAccount_identifies {s : Session Document} {key : KeystoreKey} (h : Holds s url key) :
    url ∈ (KeyStore.loadAccount url s).2.store.loadedAccountURLs ∨
      url ∈ (KeyStore.loadAccount url s).2.store.pendingAccountURLs := by
  obtain ⟨json, hj, hkey⟩ := h
  rw [KeyStore.loadAccount, bind_of_ok (isDirectory_run url s), hj]
  change url ∈ ((KeyStore.readKey url >>= KeyStore.loadKey url) s).2.store.loadedAccountURLs ∨
    url ∈ ((KeyStore.readKey url >>= KeyStore.loadKey url) s).2.store.pendingAccountURLs
  rw [bind_of_ok (show KeyStore.readKey url s = (.ok (KeyStore.keyIn (contents url s).1),
    (contents url s).2.withStore (KeyStore.noteUnread url (contents url s).1)) from rfl)]
  rcases contents_of_file hj with hc | hc
  · left
    rw [hc, KeyStore.keyIn, hkey]
    change url ∈ (KeyStore.register url key _).loadedAccountURLs
    rw [(register_rest url key _).2.1]
    exact Finset.mem_insert_self _ _
  · right
    rw [hc]
    change url ∈ (contents url s).2.store.pendingAccountURLs ++ [url]
    exact List.mem_append_right _ (List.mem_singleton.mpr rfl)

theorem loadAccount_neverThrows (url : URL) : NeverThrows (KeyStore.loadAccount url : Io Document Unit) := by
  intro s
  rw [KeyStore.loadAccount, bind_of_ok (isDirectory_run url s)]
  split
  · exact pure_neverThrows () s
  · have hread : NeverThrows (KeyStore.readKey url : Io Document _) := by
      apply NeverThrows.bind (attempt_neverThrows _)
      intro _
      apply NeverThrows.bind (update_neverThrows _)
      exact fun _ => pure_neverThrows _
    apply NeverThrows.bind hread
    rintro (_ | key)
    · exact pure_neverThrows ()
    · apply NeverThrows.bind
      · apply NeverThrows.bind (attempt_neverThrows _)
        exact fun _ => update_neverThrows _
      · exact fun _ => update_neverThrows _

theorem loadEach_identifies {urls : List URL} {s : Session Document} {key : KeystoreKey} (hurl : url ∈ urls)
    (h : Holds s url key) : url ∈ (KeyStore.loadEach urls s).2.store.loadedAccountURLs ∨
      url ∈ (KeyStore.loadEach urls s).2.store.pendingAccountURLs := by
  induction urls generalizing s with
  | nil => cases hurl
  | cons x urls ih =>
    have hfirst := loadAccount_picks (U := Set.univ) (Set.mem_univ x) s
    have hrest := loadEach_picks (U := Set.univ) urls (fun _ _ => Set.mem_univ _) (KeyStore.loadAccount x s).2
    have hrun : (KeyStore.loadEach (x :: urls) s).2 = (KeyStore.loadEach urls (KeyStore.loadAccount x s).2).2 := by
      rw [KeyStore.loadEach, bind_of_ok ((loadAccount_neverThrows x).run s)]
    rw [hrun]
    rcases List.mem_cons.mp hurl with rfl | hurl
    · exact (loadAccount_identifies h).imp (fun hl => hrest.loaded hl) fun hp => hrest.kept hp
    · exact ih hurl (h.of_lookup (by rw [hfirst.extended.disk]))

structure Loads (urls : List URL) (s t : Session Document) : Prop where
  extended : Extends (fun url => url ∈ urls ∧ url ∉ s.store.loadedAccountURLs) s t
  loaded : s.store.loadedAccountURLs ⊆ t.store.loadedAccountURLs
  pending : ∀ url ∈ t.store.pendingAccountURLs, url ∈ urls
  listing : t.store.directoryListingPending = s.store.directoryListingPending
  registered : ∀ url ∈ t.store.loadedAccountURLs, url ∉ s.store.loadedAccountURLs → ∀ key, Holds s url key →
    Entered t key.address
  identified : ∀ url ∈ urls, ∀ key, Holds s url key →
    url ∈ t.store.loadedAccountURLs ∨ url ∈ t.store.pendingAccountURLs

theorem loadAccounts_loads (urls : List URL) (s : Session Document) :
    Loads urls s (KeyStore.loadAccounts urls s).2 := by
  have h := loadEach_picks (U := { url | url ∈ urls }) urls (fun _ h => h) (s.withStore KeyStore.clearPending)
  refine ⟨?_, h.loaded, ?_, h.listing, h.registered, ?_⟩
  · have hclear : Extends (fun url => url ∈ urls ∧ url ∉ s.store.loadedAccountURLs) s
        (s.withStore KeyStore.clearPending) := .of_same rfl rfl rfl rfl
    exact hclear.trans h.extended
  · intro url hurl
    rcases h.pending url hurl with hp | hU
    · cases hp
    · exact hU
  · exact fun url hurl key hk => loadEach_identifies (s := s.withStore KeyStore.clearPending) hurl hk

structure Reads (s t : Session Document) : Prop where
  extended : Extends (Unread s) s t
  unread : ∀ url, Unread t url → Unread s url
  pending : ∀ url ∈ t.store.pendingAccountURLs, url ∈ s.store.pendingAccountURLs ∨ url.ShownIn s.store.keyDirectory
  progress : ∀ url key, url.ShownIn s.store.keyDirectory → Unread s url → Holds s url key →
    Unread t url ∨ Entered t key.address

instance : IsPreorder (Session Document) Reads where
  refl _ := ⟨.of_same rfl rfl rfl rfl, fun _ h => h, fun _ h => .inl h, fun _ _ _ h _ => .inl h⟩
  trans _ _ _ h₁ h₂ := by
    refine ⟨h₁.extended.trans (h₂.extended.mono h₁.unread), fun url h => h₁.unread url (h₂.unread url h), ?_, ?_⟩
    · intro url hurl
      rcases h₂.pending url hurl with hp | hs
      · exact h₁.pending url hp
      · exact .inr (h₁.extended.directory ▸ hs)
    · intro url key hshown hunread hk
      rcases h₁.progress url key hshown hunread hk with ht | he
      · exact h₂.progress url key (h₁.extended.directory ▸ hshown) ht (hk.of_lookup (by rw [h₁.extended.disk]))
      · exact .inr (h₂.extended.entered he)

theorem Quiet.reads {s t : Session Document} (h : Quiet s t) : Reads s t := by
  obtain ⟨⟨b, hs⟩, hd⟩ := h
  refine ⟨.of_same hd ?_ ?_ ?_, ?_, ?_, ?_⟩
  · rw [hs]
    rfl
  · rw [hs]
    rfl
  · rw [hs]
    rfl
  · intro url hurl
    rw [Unread, hs] at hurl
    exact hurl
  · intro url hurl
    rw [hs] at hurl
    exact .inl hurl
  · intro url key _ hurl _
    rw [Unread, hs]
    exact .inl hurl

theorem withFaults_reads (faults : List Bool) (s : Session Document) : Reads s (s.withFaults faults) :=
  Quiet.reads ⟨⟨s.store.backupExclusionPending, rfl⟩, rfl⟩

theorem Loads.reads {urls : List URL} {s t u : Session Document} (h : Loads urls t u) (hdisk : t.disk = s.disk)
    (hstore : ∃ b, t.store = (s.store.setBackupPending b).setListingPending false)
    (hsub : ∀ url ∈ urls, url ∈ s.store.pendingAccountURLs ∨
      s.store.directoryListingPending = true ∧ url.ShownIn s.store.keyDirectory)
    (hsup : ∀ url : URL, url.ShownIn s.store.keyDirectory → (s.disk.lookup url).isSome →
      url ∈ s.store.pendingAccountURLs ∨ s.store.directoryListingPending = true → url ∈ urls) : Reads s u := by
  obtain ⟨b, hstore⟩ := hstore
  have hsame : Extends (Unread s) s t := by
    refine .of_same hdisk ?_ ?_ ?_
    · rw [hstore]
      rfl
    · rw [hstore]
      rfl
    · rw [hstore]
      rfl
  have hloaded : t.store.loadedAccountURLs = s.store.loadedAccountURLs := by
    rw [hstore]
    rfl
  have hlisting : u.store.directoryListingPending = false := by
    rw [h.listing, hstore]
    rfl
  have hold : ∀ url ∈ urls, url ∉ u.store.loadedAccountURLs → Unread s url := by
    intro url hurl hn
    exact ⟨fun hl => hn (h.loaded (hloaded ▸ hl)), hsub url hurl⟩
  refine ⟨hsame.trans (h.extended.mono fun url hurl => ⟨hloaded ▸ hurl.2, hsub url hurl.1⟩), ?_, ?_, ?_⟩
  · rintro url ⟨hn, hp | hl⟩
    · exact hold url (h.pending url hp) hn
    · rw [hlisting] at hl
      cases hl.1
  · exact fun url hurl => (hsub url (h.pending url hurl)).imp_right And.right
  · rintro url key hshown ⟨hn, hunread⟩ hk
    have hsome : (s.disk.lookup url).isSome := by
      obtain ⟨json, hj, _⟩ := hk
      rw [hj]
      rfl
    have hkt : Holds t url key := hk.of_lookup (by rw [hdisk])
    have hurl := hsup url hshown hsome (hunread.imp_right And.left)
    by_cases hu : url ∈ u.store.loadedAccountURLs
    · exact .inr (h.registered url hu (hloaded ▸ hn) key hkt)
    · exact .inl ⟨hu, .inl ((h.identified url hurl key hkt).resolve_left hu)⟩

theorem load_reads (s : Session Document) :
    Reads (s.withStore (KeyStore.setListingPending true)) (KeyStore.load s).2 := by
  have hquiet := listDirectory_quiet s
  change Reads _ (KeyStore.loadListing (KeyStore.listDirectory s).1 (KeyStore.listDirectory s).2).2
  obtain ⟨⟨b, hstore⟩, hdisk⟩ := hquiet
  cases hr : (KeyStore.listDirectory s).1 with
  | error failure =>
    change Reads _ ((KeyStore.listDirectory s).2.withStore (KeyStore.setListingPending true))
    refine Quiet.reads ⟨⟨b, ?_⟩, hdisk⟩
    rw [Session.withStore, hstore]
    rfl
  | ok urls =>
    have hurls := listDirectory_eq_ok (run_of_fst hr)
    change Reads _ (KeyStore.loadAccounts urls
      ((KeyStore.listDirectory s).2.withStore (KeyStore.setListingPending false))).2
    refine (loadAccounts_loads urls _).reads ?_ ?_ ?_ ?_
    · exact hdisk
    · refine ⟨b, ?_⟩
      rw [Session.withStore, hstore]
      rfl
    · intro url hurl
      rw [hurls] at hurl
      exact .inr ⟨rfl, of_decide_eq_true (List.mem_filter.mp hurl).2⟩
    · intro url hshown hsome _
      rw [hurls]
      exact List.mem_filter.mpr ⟨AList.lookup_isSome.mp hsome, decide_eq_true hshown⟩

theorem loadAccounts_reads {s : Session Document} (h : s.store.directoryListingPending = false) :
    Reads s (KeyStore.loadAccounts s.store.pendingAccountURLs s).2 := by
  apply (loadAccounts_loads s.store.pendingAccountURLs s).reads rfl
  · refine ⟨s.store.backupExclusionPending, ?_⟩
    rw [KeyStore.setListingPending, ← h]
    rfl
  · exact fun url hurl => .inl hurl
  · intro url _ _ hurl
    rw [h] at hurl
    exact hurl.resolve_right Bool.false_ne_true

theorem retryPending_reads : Keeps Reads (KeyStore.retryPending : Io Document Unit) := by
  apply Keeps.bind
  · intro s
    rw [KeyStore.retryBackup, state_bind]
    split
    · exact (retryDirectoryBackupExclusion_quiet s).reads
    · exact refl s
  · intro _ s
    rw [KeyStore.retryFiles, state_bind]
    split
    · have hsame : s.withStore (KeyStore.setListingPending true) = s := by
        rw [Session.withStore, KeyStore.setListingPending, ← ‹s.store.directoryListingPending = true›]
      have hreads := load_reads s
      rwa [hsame] at hreads
    · split
      · exact loadAccounts_reads (Bool.eq_false_iff.mpr ‹_›)
      · exact refl s

theorem withStateLock_reads {α : Type} {body : Io Document α} (h : Keeps Quiet body) :
    Keeps Reads (KeyStore.withStateLock body) := by
  apply Keeps.bind retryPending_reads
  intro _ s
  exact (h s).reads

theorem loadAccounts_neverThrows (urls : List URL) : NeverThrows (KeyStore.loadAccounts urls : Io Document Unit) := by
  apply NeverThrows.bind (update_neverThrows _)
  intro _
  induction urls with
  | nil => exact pure_neverThrows ()
  | cons url urls ih =>
    apply NeverThrows.bind (loadAccount_neverThrows url)
    exact fun _ => ih

theorem load_neverThrows : NeverThrows (KeyStore.load : Io Document Unit) := by
  apply NeverThrows.bind (attempt_neverThrows _)
  rintro (_ | urls)
  · exact update_neverThrows _
  · apply NeverThrows.bind (update_neverThrows _)
    exact fun _ => loadAccounts_neverThrows urls

theorem retryPending_neverThrows : NeverThrows (KeyStore.retryPending : Io Document Unit) := by
  apply NeverThrows.bind
  · apply NeverThrows.bind state_neverThrows
    intro s
    split
    · apply NeverThrows.bind (attempt_neverThrows _)
      exact fun _ => update_neverThrows _
    · exact pure_neverThrows ()
  · intro _
    apply NeverThrows.bind state_neverThrows
    intro s
    split
    · exact load_neverThrows
    · split
      · exact loadAccounts_neverThrows _
      · exact pure_neverThrows ()

def retried (s : Session Document) : Session Document := (KeyStore.retryPending s).2

theorem retried_reads (s : Session Document) : Reads s (retried s) := retryPending_reads s

theorem withStateLock_run {α : Type} (body : Io Document α) (s : Session Document) :
    KeyStore.withStateLock body s = body (retried s) := bind_of_ok (retryPending_neverThrows.run s)

theorem account_run (address : Address) (s : Session Document) :
    KeyStore.account address s = (.ok ((retried s).store.accountsByAddress.lookup address), retried s) :=
  withStateLock_run _ s

theorem key_run (address : Address) (s : Session Document) :
    KeyStore.key address s = (.ok ((retried s).store.keysByAddress.lookup address), retried s) :=
  withStateLock_run _ s

theorem accounts_run (s : Session Document) :
    KeyStore.accounts s = (.ok ((retried s).store.accountsByAddress.entries.map (·.snd)), retried s) :=
  withStateLock_run _ s

theorem storedKey_run (address : Address) (s : Session Document) :
    KeyStore.storedKey address s =
      (unlessNone (.decrypt .missingAccountKey) ((retried s).store.keysByAddress.lookup address), retried s) :=
  withStateLock_run _ s

end TronlinkCore.Keystore
