import TronlinkCore.Keystore.Calls
import TronlinkCore.Keystore.Opening

namespace TronlinkCore.Keystore

open Throwing Io

variable {Document : Type}

inductive Reading where
  | accounts
  | account (address : Address)
  | key (address : Address)

structure Cautious (s t : Session Document) : Prop where
  unread : ∀ url, Unread t url → Unread s url
  disk : (∃ url, Unread t url) → t.disk = s.disk

instance : IsPreorder (Session Document) Cautious where
  refl _ := ⟨fun _ => id, fun _ => rfl⟩
  trans _ _ _ h₁ h₂ := by
    refine ⟨fun url h => h₁.unread url (h₂.unread url h), ?_⟩
    rintro ⟨url, hurl⟩
    exact (h₂.disk ⟨url, hurl⟩).trans (h₁.disk ⟨url, h₂.unread url hurl⟩)

theorem cautious_of_readable {s t : Session Document} (h : s.store.hasUnreadableAccounts = false)
    (hstore : ∃ b, t.store = s.store.setBackupPending b) : Cautious s t := by
  obtain ⟨b, hs⟩ := hstore
  have hnone : ∀ url, ¬ Unread t url := by
    intro url
    rw [Unread, hs]
    exact not_unread h url
  constructor
  · intro url hurl
    exact absurd hurl (hnone url)
  · rintro ⟨url, hurl⟩
    exact absurd hurl (hnone url)

theorem removeItem_cautious {s : Session Document} (h : s.store.hasUnreadableAccounts = false) (url : URL) :
    Cautious s (removeItem url s).2 := by
  apply cautious_of_readable h
  cases hr : (removeItem url s).1 with
  | ok u => exact ⟨s.store.backupExclusionPending, (removeItem_eq_ok (run_of_fst hr)).1⟩
  | error failure => exact (removeItem_atomic url s failure _ (run_of_fst hr)).store

theorem cache_cautious (key : KeystoreKey) : Keeps Cautious (modifyStore (KeyStore.cache key) : Io Document Unit) :=
  fun _ => ⟨fun _ => id, fun _ => rfl⟩

theorem list_cautious (account : Account) (address : Address) :
    Keeps Cautious (modifyStore (KeyStore.list account address) : Io Document Unit) :=
  fun _ => ⟨fun _ => id, fun _ => rfl⟩

theorem forget_cautious (address : Address) : Keeps Cautious (modifyStore (KeyStore.forget address) : Io Document Unit) :=
  fun _ => ⟨fun _ => id, fun _ => rfl⟩

section

variable [JsonCoder Document] [Crypto]

theorem save_cautious (draws : Draws) (key : KeystoreKey) (url : URL) :
    Keeps Cautious (KeyStore.save draws key url : Io Document Unit) := by
  intro s
  by_cases h : s.store.hasUnreadableAccounts = false
  · apply cautious_of_readable h
    cases hr : (KeyStore.save draws key url s).1 with
    | ok u => exact (save_writes (run_of_fst hr)).2.store
    | error failure => exact (save_atomic draws key url s failure _ (run_of_fst hr)).store
  · have hrun : KeyStore.save draws key url s = (.error (.cocoa .fileReadUnknown), s) := by
      rw [KeyStore.save, state_bind, require, if_neg h]
      rfl
    rw [hrun]
    exact refl s

theorem install_cautious (draws : Draws) (key : KeystoreKey) (account : Account) :
    Keeps Cautious (KeyStore.install draws key account : Io Document Unit) := by
  apply Keeps.bind (save_cautious draws key account.url)
  intro _
  apply Keeps.bind (cache_cautious key)
  exact fun _ => list_cautious account key.address

end

section

variable [JsonCoder Document] [Graphemes]

def Reading.after : Reading → Session Document → Session Document
  | .accounts, s => (KeyStore.accounts s).2
  | .account address, s => (KeyStore.account address s).2
  | .key address, s => (KeyStore.key address s).2

theorem Reading.after_eq (call : Reading) (s : Session Document) : call.after s = retried s := by
  cases call with
  | accounts => exact congrArg Prod.snd (accounts_run s)
  | account address => exact congrArg Prod.snd (account_run address s)
  | key address => exact congrArg Prod.snd (key_run address s)

inductive ReadRun (directory : Text) (disk : Dictionary URL (Entry Document)) : Session Document → Prop where
  | opened (faults : List Bool) : ReadRun directory disk (KeyStore.opened directory disk faults)
  | read {s : Session Document} (faults : List Bool) (call : Reading) :
    ReadRun directory disk s → ReadRun directory disk (call.after (s.withFaults faults))

def OneKeyPerAddress (directory : Text) (s : Session Document) : Prop :=
  ∀ url url' key key', url.ShownIn directory → url'.ShownIn directory → Holds s url key → Holds s url' key' →
    key.address = key'.address → url = url'

theorem ReadRun.loading {directory : Text} {disk : Dictionary URL (Entry Document)} {s : Session Document}
    (h : ReadRun directory disk s) : Loading directory (unopened directory disk) s := by
  induction h with
  | opened faults => exact opened_loading directory disk faults
  | read faults call _ ih =>
    rw [call.after_eq]
    exact (ih.reads (withFaults_reads faults _)).reads (retried_reads _)

section

variable {directory : Text} {files s t : Session Document} {address : Address}

theorem FileAccount.unique (hone : OneKeyPerAddress directory files) {account account' : Account}
    (h : FileAccount (·.ShownIn directory) files address account)
    (h' : FileAccount (·.ShownIn directory) files address account') : account = account' := by
  obtain ⟨url, key, hurl, hk, rfl, rfl⟩ := h
  obtain ⟨url', key', hurl', hk', haddr, rfl⟩ := h'
  obtain rfl := hone url url' key key' hurl hurl' hk hk' haddr.symm
  rw [hk.unique hk']

theorem FileKey.unique (hone : OneKeyPerAddress directory files) {key key' : KeystoreKey}
    (h : FileKey (·.ShownIn directory) files address key) (h' : FileKey (·.ShownIn directory) files address key') :
    key = key' := by
  obtain ⟨url, hurl, hk, rfl⟩ := h
  obtain ⟨url', hurl', hk', haddr⟩ := h'
  obtain rfl := hone url url' key key' hurl hurl' hk hk' haddr.symm
  exact hk.unique hk'

theorem Loading.account_of_settled (hone : OneKeyPerAddress directory files) (hs : Loading directory files s)
    (ht : Loading directory files t) (hread : ∀ url, ¬ Unread t url) {account : Account}
    (ha : s.store.accountsByAddress.lookup address = some account) :
    t.store.accountsByAddress.lookup address = some account := by
  have hfile := hs.accounts address account ha
  obtain ⟨url, key, hurl, hk, rfl, _⟩ := id hfile
  obtain ⟨hsome, _⟩ := (ht.progress url key hurl hk).resolve_left (hread url)
  obtain ⟨account', ha'⟩ := Option.isSome_iff_exists.mp hsome
  rw [ha', hfile.unique hone (ht.accounts key.address account' ha')]

theorem Loading.key_of_settled (hone : OneKeyPerAddress directory files) (hs : Loading directory files s)
    (ht : Loading directory files t) (hread : ∀ url, ¬ Unread t url) {key : KeystoreKey}
    (hk : s.store.keysByAddress.lookup address = some key) : t.store.keysByAddress.lookup address = some key := by
  have hfile := hs.keys address key hk
  obtain ⟨url, hurl, hh, rfl⟩ := id hfile
  obtain ⟨_, hsome⟩ := (ht.progress url key hurl hh).resolve_left (hread url)
  obtain ⟨key', hk'⟩ := Option.isSome_iff_exists.mp hsome
  rw [hk', hfile.unique hone (ht.keys key.address key' hk')]

end

theorem Reads.cautious {s t : Session Document} (h : Reads s t) : Cautious s t := ⟨h.unread, fun _ => h.extended.disk⟩

theorem retryPending_cautious : Keeps Cautious (KeyStore.retryPending : Io Document Unit) :=
  retryPending_reads.mono fun _ _ => Reads.cautious

theorem withStateLock_cautious {α : Type} {body : Io Document α} (h : Keeps Cautious body) :
    Keeps Cautious (KeyStore.withStateLock body) := by
  apply Keeps.bind retryPending_cautious
  exact fun _ => h

theorem account_cautious (address : Address) : Keeps Cautious (KeyStore.account address : Io Document _) :=
  (account_reads address).mono fun _ _ => Reads.cautious

variable [Crypto]

theorem installNew_cautious (draws : Draws) (newKey : KeystoreKey) (account : Account) :
    Keeps Cautious (KeyStore.installNew draws newKey account : Io Document Unit) := by
  apply withStateLock_cautious
  refine .bind keeps_state fun s => ?_
  apply Keeps.bind
  · exact keeps_require _ _
  · exact fun _ => install_cautious draws newKey account

theorem importJson_cautious (draws : Draws) (json : Document) (password newPassword : Text) :
    Keeps Cautious (KeyStore.importJson draws json password newPassword) := by
  refine .bind (keeps_ofExcept _) fun key => ?_
  apply Keeps.bind (account_cautious key.address)
  intro existing
  apply Keeps.bind
  · exact keeps_require _ _
  intro _
  refine .bind (keeps_ofExcept _) fun newKey => ?_
  apply Keeps.bind
  · exact keeps_require _ _
  intro _
  apply Keeps.bind ((makeAccountURL_reads draws newKey.address).mono fun _ _ => Reads.cautious)
  intro url
  apply Keeps.bind (installNew_cautious draws newKey _)
  exact fun _ => keeps_pure _

theorem importMnemonic_cautious (draws : Draws) (mnemonic passphrase derivationPath encryptPassword : Text)
    (normalization : Normalization) :
    Keeps Cautious (KeyStore.importMnemonic draws mnemonic passphrase derivationPath encryptPassword normalization :
      Io Document Account) := by
  apply Keeps.bind
  · exact keeps_require _ _
  intro _
  refine .bind (keeps_ofExcept _) fun sk => ?_
  refine .bind (keeps_ofExcept _) fun address => ?_
  apply Keeps.bind (account_cautious address)
  intro existing
  apply Keeps.bind
  · exact keeps_require _ _
  intro _
  refine .bind (keeps_ofExcept _) fun newKey => ?_
  apply Keeps.bind ((makeAccountURL_reads draws address).mono fun _ _ => Reads.cautious)
  intro url
  apply Keeps.bind (installNew_cautious draws newKey _)
  exact fun _ => keeps_pure _

theorem createAccount_cautious (draws : Draws) (password : Text) (type : AccountType) :
    Keeps Cautious (KeyStore.createAccount draws password type : Io Document Account) := by
  refine .bind (keeps_ofExcept _) fun key => ?_
  apply Keeps.bind ((makeAccountURL_reads draws key.address).mono fun _ _ => Reads.cautious)
  intro url
  apply Keeps.bind (withStateLock_cautious (install_cautious draws key _))
  exact fun _ => keeps_pure _

theorem addAccount_cautious (draws : Draws) (account : Account) :
    Keeps Cautious (KeyStore.addAccount draws account : Io Document Unit) := by
  apply withStateLock_cautious
  refine .bind keeps_state fun s => ?_
  refine .bind (keeps_ofExcept _) fun key => ?_
  apply Keeps.bind (save_cautious draws key account.url)
  exact fun _ => list_cautious account account.address

theorem update_cautious (draws : Draws) (account : Account) (password newPassword : Text)
    (derivationPath : Option Text) :
    Keeps Cautious (KeyStore.update draws account password newPassword derivationPath : Io Document Unit) := by
  apply Keeps.bind ((storedKey_reads account.address).mono fun _ _ => Reads.cautious)
  intro key
  refine .bind (keeps_ofExcept _) fun newKey => ?_
  apply Keeps.bind
  · exact keeps_require _ _
  intro _
  apply withStateLock_cautious
  apply Keeps.bind (save_cautious draws newKey account.url)
  exact fun _ => cache_cautious newKey

theorem delete_cautious (account : Account) (password : Text) :
    Keeps Cautious (KeyStore.delete account password : Io Document Unit) := by
  apply Keeps.bind ((storedAccount_reads account.address).mono fun _ _ => Reads.cautious)
  rintro ⟨key, storedAccount⟩
  refine .bind (keeps_ofExcept _) fun _ => ?_
  apply withStateLock_cautious
  intro s
  rw [state_bind]
  by_cases h : s.store.hasUnreadableAccounts = false
  · rw [bind_of_ok (require_run h)]
    exact bind_keeps (removeItem_cautious h storedAccount.url) fun _ => forget_cautious account.address
  · rw [require, if_neg h]
    exact refl s

theorem perform_cautious (draws : Draws) (call : Mutation Document) : Keeps Cautious (call.perform draws) := by
  cases call with
  | createAccount password type =>
    exact Keeps.bind (createAccount_cautious draws password type) fun _ => keeps_pure _
  | addAccount account => exact Keeps.bind (addAccount_cautious draws account) fun _ => keeps_pure _
  | importJson json password newPassword =>
    exact Keeps.bind (importJson_cautious draws json password newPassword) fun _ => keeps_pure _
  | importMnemonic mnemonic passphrase derivationPath encryptPassword normalization =>
    exact Keeps.bind (importMnemonic_cautious draws mnemonic passphrase derivationPath encryptPassword normalization)
      fun _ => keeps_pure _
  | update account password newPassword derivationPath =>
    exact Keeps.bind (update_cautious draws account password newPassword derivationPath) fun _ => keeps_pure _
  | delete account password => exact Keeps.bind (delete_cautious account password) fun _ => keeps_pure _

/-- A store that is still loading `disk`, beside one that has loaded it at once -/
structure Converges (directory : Text) (disk : Dictionary URL (Entry Document)) (s : Session Document) : Prop where
  listed : ∀ address account, s.store.accountsByAddress.lookup address = some account →
    (KeyStore.opened directory disk []).store.accountsByAddress.lookup address = some account ∧
      ∃ key, s.store.keysByAddress.lookup address = some key ∧
        (KeyStore.opened directory disk []).store.keysByAddress.lookup address = some key
  complete : s.store.hasUnreadableAccounts = false → ∀ address,
    s.store.accountsByAddress.lookup address =
      (KeyStore.opened directory disk []).store.accountsByAddress.lookup address ∧
    s.store.keysByAddress.lookup address = (KeyStore.opened directory disk []).store.keysByAddress.lookup address
  guarded : ∀ (draws : Draws) (faults : List Bool) (call : Mutation Document),
    (∃ url, Unread (call.perform draws (s.withFaults faults)).2 url) →
      (call.perform draws (s.withFaults faults)).2.disk = s.disk

theorem loading_converges {directory : Text} {disk : Dictionary URL (Entry Document)} {s : Session Document}
    (hone : OneKeyPerAddress directory (unopened directory disk)) (h : ReadRun directory disk s) :
    Converges directory disk s := by
  have hs := h.loading
  have ht := opened_loading directory disk []
  have hread := not_unread (opened_readable directory disk)
  refine ⟨?_, ?_, fun draws faults call => (perform_cautious draws call (s.withFaults faults)).disk⟩
  · intro address account ha
    obtain ⟨key, hk⟩ := Option.isSome_iff_exists.mp (hs.paired address (by rw [ha]; rfl))
    exact ⟨hs.account_of_settled hone ht hread ha, key, hk, hs.key_of_settled hone ht hread hk⟩
  · intro hreadable address
    have hsettled := not_unread hreadable
    constructor
    · apply Option.ext
      intro account
      exact ⟨hs.account_of_settled hone ht hread, ht.account_of_settled hone hs hsettled⟩
    · apply Option.ext
      intro key
      exact ⟨hs.key_of_settled hone ht hread, ht.key_of_settled hone hs hsettled⟩

end

section

attribute [local instance] knownAnswers plainFiles plainText

theorem loading_converges_sample :
    Converges "keystore".toList sampleDisk (Reading.accounts.after
      ((KeyStore.opened "keystore".toList sampleDisk [false, false, false, true]).withFaults [])) := by
  have hone : OneKeyPerAddress "keystore".toList (unopened "keystore".toList sampleDisk) := by
    have honly : ∀ url key, Holds (unopened "keystore".toList sampleDisk) url key → url = sampleURL := by
      rintro url key ⟨json, hj, _⟩
      have hmem : url ∈ sampleDisk := AList.lookup_isSome.mp (by
        rw [show sampleDisk.lookup url = some (.file json) from hj]
        rfl)
      exact List.mem_singleton.mp hmem
    intro url url' key key' _ _ hk hk' _
    rw [honly url key hk, honly url' key' hk']
  exact loading_converges hone (.read [] .accounts (.opened [false, false, false, true]))

end

end TronlinkCore.Keystore
