import TronlinkCore.Keystore.Retry

/-!
A call that throws leaves the store and its key files as they were, but for
entries of files that could not be read before.
-/

namespace TronlinkCore.Keystore

open Throwing Io

variable {Document : Type} {url : URL}

/-- Hidden files and the backup flag aside, nothing has changed. -/
structure Discards (s t : Session Document) : Prop where
  store : ∃ b, t.store = s.store.setBackupPending b
  files : ∀ url : URL, url.isHidden = false → t.disk.lookup url = s.disk.lookup url

instance : IsPreorder (Session Document) Discards where
  refl s := ⟨⟨s.store.backupExclusionPending, rfl⟩, fun _ _ => rfl⟩
  trans _ _ _ h₁ h₂ := by
    obtain ⟨b₁, hs₁⟩ := h₁.store
    obtain ⟨b₂, hs₂⟩ := h₂.store
    exact ⟨⟨b₂, by rw [hs₂, hs₁]; rfl⟩, fun url h => (h₂.files url h).trans (h₁.files url h)⟩

theorem Quiet.discards {s t : Session Document} (h : Quiet s t) : Discards s t := ⟨h.store, fun _ _ => by rw [h.disk]⟩

theorem access_discards (failure : Failure) : Keeps Discards (access failure : Io Document Unit) :=
  fun s => (access_quiet failure s).discards

theorem setBackupPending_discards (b : Bool) :
    Keeps Discards (modifyStore (KeyStore.setBackupPending b) : Io Document Unit) :=
  fun s => (setBackupPending_quiet b s).discards

theorem entry_discards (url : URL) : Keeps Discards (entry url : Io Document _) :=
  fun s => refl s

theorem isDirectory_discards (url : URL) : Keeps Discards (isDirectory url : Io Document _) :=
  fun s => refl s

theorem insert_discards (h : url.isHidden = true) (e : Entry Document) :
    Keeps Discards (modifyDisk (·.insert url e) : Io Document Unit) := by
  refine fun s => ⟨⟨s.store.backupExclusionPending, rfl⟩, ?_⟩
  intro x hx
  apply AList.lookup_insert_ne
  rintro rfl
  rw [h] at hx
  cases hx

theorem erase_discards (h : url.isHidden = true) : Keeps Discards (modifyDisk (·.erase url) : Io Document Unit) := by
  refine fun s => ⟨⟨s.store.backupExclusionPending, rfl⟩, ?_⟩
  intro x hx
  apply AList.lookup_erase_ne
  rintro rfl
  rw [h] at hx
  cases hx

theorem removeItem_discards (h : url.isHidden = true) : Keeps Discards (removeItem url : Io Document Unit) := by
  apply Keeps.bind (access_discards _)
  intro _
  apply Keeps.bind (entry_discards url)
  intro _
  apply Keeps.bind
  · exact keeps_require _ _
  · intro _
    exact erase_discards h

theorem removeItem_atomic (url : URL) : Atomic Discards (removeItem url : Io Document Unit) := by
  apply Atomic.bind (access_discards _)
  intro _
  apply Atomic.bind (entry_discards url)
  intro _
  apply Atomic.bind
  · exact keeps_require _ _
  · intro _
    exact (update_neverThrows _).atomic

/-- The only step of `rename` that changes a file is its last. -/
theorem rename_atomic (source target : URL) : Atomic Discards (rename source target : Io Document Unit) := by
  apply Atomic.bind (access_discards _)
  intro _
  apply Atomic.bind (isDirectory_discards target)
  intro _
  apply Atomic.bind
  · exact keeps_require _ _
  · intro _
    apply Atomic.bind (entry_discards source)
    intro moved
    cases moved with
    | some entry => exact (update_neverThrows _).atomic
    | none => exact (keeps_fail _).atomic

theorem writeHandle_discards (h : url.isHidden = true) (json : Document) : Keeps Discards (writeHandle url json) := by
  apply Keeps.bind (access_discards _)
  intro _
  apply Keeps.bind (access_discards _)
  intro _
  apply Keeps.bind (insert_discards h _)
  intro _
  apply Keeps.bind (access_discards _)
  intro _
  exact access_discards _

section

variable [JsonCoder Document]

theorem writeEmpty_discards (h : url.isHidden = true) : Keeps Discards (writeEmpty url : Io Document Unit) := by
  apply Keeps.bind (access_discards _)
  intro _
  apply Keeps.bind (entry_discards url)
  intro _
  apply Keeps.bind
  · exact keeps_require _ _
  · intro _
    exact insert_discards h _

theorem replaceFile_atomic (draws : Draws) (url : URL) (json : Document) :
    Atomic Discards (KeyStore.replaceFile draws url json) := by
  have hhidden : (⟨url.directory, ".keystore-".toList ++ draws.temporaryName⟩ : URL).isHidden = true := rfl
  apply Atomic.deferring (removeItem_discards hhidden)
  apply Atomic.bind (writeEmpty_discards hhidden)
  intro _
  apply Atomic.bind (access_discards _)
  intro _
  apply Atomic.bind (writeHandle_discards hhidden json)
  intro _
  exact rename_atomic _ url

section Saving

variable [Crypto]

theorem save_atomic (draws : Draws) (key : KeystoreKey) (url : URL) :
    Atomic Discards (KeyStore.save draws key url : Io Document Unit) := by
  refine .bind keeps_state fun s => ?_
  apply Atomic.bind
  · exact keeps_require _ _
  · intro _
    apply Atomic.bind (setBackupPending_discards true)
    intro _
    apply Atomic.bind (access_discards _)
    intro _
    apply Atomic.bind (setBackupPending_discards false)
    intro _
    exact replaceFile_atomic draws url _

theorem install_atomic (draws : Draws) (key : KeystoreKey) (account : Account) :
    Atomic Discards (KeyStore.install draws key account : Io Document Unit) := by
  apply Atomic.andThen (save_atomic draws key account.url)
  intro _
  apply NeverThrows.bind (update_neverThrows _)
  intro _
  exact update_neverThrows _

end Saving

variable [Graphemes]

/-- What was there before is still there, and nothing is new but the entries of
files that could not be read. -/
structure Unchanged (s t : Session Document) : Prop where
  directory : t.store.keyDirectory = s.store.keyDirectory
  files : ∀ url : URL, url.isHidden = false → t.disk.lookup url = s.disk.lookup url
  accounts : ∀ address, Gains (FileAccount (Unread s) s address) (s.store.accountsByAddress.lookup address)
    (t.store.accountsByAddress.lookup address)
  keys : ∀ address, Gains (FileKey (Unread s) s address) (s.store.keysByAddress.lookup address)
    (t.store.keysByAddress.lookup address)
  unread : ∀ url, Unread t url → Unread s url

theorem Reads.unchanged {s t : Session Document} (h : Reads s t) : Unchanged s t where
  directory := h.extended.directory
  files _ _ := by rw [h.extended.disk]
  accounts := h.extended.accounts
  keys := h.extended.keys
  unread := h.unread

theorem Discards.unchanged {s t : Session Document} (h : Discards s t) : Unchanged s t := by
  obtain ⟨⟨b, hs⟩, hfiles⟩ := h
  refine ⟨?_, hfiles, fun _ => .inl ?_, fun _ => .inl ?_, fun url hurl => ?_⟩
  · rw [hs]
    rfl
  · rw [hs]
    rfl
  · rw [hs]
    rfl
  · rw [Unread, hs] at hurl
    exact hurl

theorem Reads.unchanged_trans {s t u : Session Document} (h₁ : Reads s t) (h₂ : Unchanged t u) : Unchanged s u where
  directory := h₂.directory.trans h₁.extended.directory
  files url hurl := by rw [h₂.files url hurl, h₁.extended.disk]
  accounts address := (h₁.extended.accounts address).trans
    ((h₂.accounts address).mono fun _ hf => hf.mono h₁.extended.disk h₁.unread)
  keys address := (h₁.extended.keys address).trans
    ((h₂.keys address).mono fun _ hf => hf.mono h₁.extended.disk h₁.unread)
  unread url hurl := h₁.unread url (h₂.unread url hurl)

def RolledBack (s t : Session Document) : Prop := ∃ u, Reads s u ∧ Discards u t

theorem RolledBack.unchanged {s t : Session Document} (h : RolledBack s t) : Unchanged s t := by
  obtain ⟨u, hr, hd⟩ := h
  exact hr.unchanged_trans hd.unchanged

theorem Reads.rolledBack {s t : Session Document} (h : Reads s t) : RolledBack s t := ⟨t, h, refl t⟩

theorem Reads.rolledBack_trans {s t u : Session Document} (h₁ : Reads s t) (h₂ : RolledBack t u) : RolledBack s u := by
  obtain ⟨v, hr, hd⟩ := h₂
  exact ⟨v, IsTrans.trans _ _ _ h₁ hr, hd⟩

variable {α β : Type}

theorem makeAccountURL_reads (draws : Draws) (address : Address) :
    Keeps Reads (KeyStore.makeAccountURL draws address : Io Document _) :=
  keeps_state.bind fun _ => keeps_pure _

theorem account_reads (address : Address) : Keeps Reads (KeyStore.account address : Io Document _) :=
  withStateLock_reads (keeps_state.bind fun _ => keeps_pure _)

theorem storedKey_reads (address : Address) : Keeps Reads (KeyStore.storedKey address : Io Document _) :=
  withStateLock_reads (keeps_state.bind fun _ => keeps_ofExcept _)

theorem storedAccount_reads (address : Address) : Keeps Reads (KeyStore.storedAccount address : Io Document _) := by
  apply withStateLock_reads
  refine .bind keeps_state fun s => ?_
  refine .bind (keeps_ofExcept _) fun key => ?_
  refine .bind (keeps_ofExcept _) fun account => ?_
  exact keeps_pure _

theorem Reads.then {x : Io Document α} {f : α → Io Document β} (hx : Keeps Reads x) (hf : ∀ a, Atomic RolledBack (f a)) :
    Atomic RolledBack (x >>= f) :=
  .after (fun _ _ _ => Reads.rolledBack_trans) (fun _ _ => Reads.rolledBack) hx hf

theorem withStateLock_atomic {body : Io Document α} (h : Atomic Discards body) :
    Atomic RolledBack (KeyStore.withStateLock body) :=
  .after (fun _ _ _ h₁ h₂ => h₁.rolledBack_trans h₂) (fun _ _ => Reads.rolledBack) retryPending_reads fun _ =>
    h.mono fun _ _ h => ⟨_, refl _, h⟩

variable [Crypto]

theorem installNew_atomic (draws : Draws) (newKey : KeystoreKey) (account : Account) :
    Atomic RolledBack (KeyStore.installNew draws newKey account : Io Document Unit) := by
  apply withStateLock_atomic
  refine .bind keeps_state fun s => ?_
  apply Atomic.bind
  · exact keeps_require _ _
  · intro _
    exact install_atomic draws newKey account

theorem createAccount_atomic (draws : Draws) (password : Text) (type : AccountType) :
    Atomic RolledBack (KeyStore.createAccount draws password type : Io Document Account) := by
  apply Reads.then (keeps_ofExcept _)
  intro key
  apply Reads.then (makeAccountURL_reads draws key.address)
  intro url
  apply Atomic.andThen (withStateLock_atomic (install_atomic draws key _))
  intro _
  exact pure_neverThrows _

theorem addAccount_atomic (draws : Draws) (account : Account) :
    Atomic RolledBack (KeyStore.addAccount draws account : Io Document Unit) := by
  apply withStateLock_atomic
  refine .bind keeps_state fun s => ?_
  refine .bind (keeps_ofExcept _) fun key => ?_
  apply Atomic.andThen (save_atomic draws key account.url)
  intro _
  exact update_neverThrows _

theorem importJson_atomic (draws : Draws) (json : Document) (password newPassword : Text) :
    Atomic RolledBack (KeyStore.importJson draws json password newPassword) := by
  apply Reads.then (keeps_ofExcept _)
  intro key
  apply Reads.then (account_reads key.address)
  intro existing
  apply Reads.then
  · exact keeps_require _ _
  intro _
  apply Reads.then (keeps_ofExcept _)
  intro newKey
  apply Reads.then
  · exact keeps_require _ _
  intro _
  apply Reads.then (makeAccountURL_reads draws newKey.address)
  intro url
  apply Atomic.andThen (installNew_atomic draws newKey _)
  intro _
  exact pure_neverThrows _

theorem importMnemonic_atomic (draws : Draws) (mnemonic passphrase derivationPath encryptPassword : Text)
    (normalization : Normalization) :
    Atomic RolledBack (KeyStore.importMnemonic draws mnemonic passphrase derivationPath encryptPassword normalization :
      Io Document Account) := by
  apply Reads.then
  · exact keeps_require _ _
  intro _
  apply Reads.then (keeps_ofExcept _)
  intro privateKey
  apply Reads.then (keeps_ofExcept _)
  intro address
  apply Reads.then (account_reads address)
  intro existing
  apply Reads.then
  · exact keeps_require _ _
  intro _
  apply Reads.then (keeps_ofExcept _)
  intro newKey
  apply Reads.then (makeAccountURL_reads draws address)
  intro url
  apply Atomic.andThen (installNew_atomic draws newKey _)
  intro _
  exact pure_neverThrows _

theorem update_atomic (draws : Draws) (account : Account) (password newPassword : Text) (derivationPath : Option Text) :
    Atomic RolledBack (KeyStore.update draws account password newPassword derivationPath : Io Document Unit) := by
  apply Reads.then (storedKey_reads account.address)
  intro key
  apply Reads.then (keeps_ofExcept _)
  intro newKey
  apply Reads.then
  · exact keeps_require _ _
  intro _
  apply withStateLock_atomic
  apply Atomic.andThen (save_atomic draws newKey account.url)
  intro _
  exact update_neverThrows _

theorem delete_atomic (account : Account) (password : Text) :
    Atomic RolledBack (KeyStore.delete account password : Io Document Unit) := by
  apply Reads.then (storedAccount_reads account.address)
  rintro ⟨key, storedAccount⟩
  apply Reads.then (keeps_ofExcept _)
  intro _
  apply withStateLock_atomic
  refine .bind keeps_state fun s => ?_
  apply Atomic.bind
  · exact keeps_require _ _
  intro _
  apply Atomic.andThen (removeItem_atomic storedAccount.url)
  intro _
  exact update_neverThrows _

theorem perform_atomic (draws : Draws) (call : Mutation Document) : Atomic RolledBack (call.perform draws) := by
  cases call with
  | createAccount password type =>
    apply Atomic.andThen (createAccount_atomic draws password type)
    exact fun _ => pure_neverThrows _
  | addAccount account =>
    apply Atomic.andThen (addAccount_atomic draws account)
    exact fun _ => pure_neverThrows _
  | importJson json password newPassword =>
    apply Atomic.andThen (importJson_atomic draws json password newPassword)
    exact fun _ => pure_neverThrows _
  | importMnemonic mnemonic passphrase derivationPath encryptPassword normalization =>
    apply Atomic.andThen
      (importMnemonic_atomic draws mnemonic passphrase derivationPath encryptPassword normalization)
    exact fun _ => pure_neverThrows _
  | update account password newPassword derivationPath =>
    apply Atomic.andThen (update_atomic draws account password newPassword derivationPath)
    exact fun _ => pure_neverThrows _
  | delete account password =>
    apply Atomic.andThen (delete_atomic account password)
    exact fun _ => pure_neverThrows _

theorem thrown_unchanged {s t : Session Document} {draws : Draws} {call : Mutation Document} {failure : Failure}
    (h : call.perform draws s = (.error failure, t)) : Unchanged s t :=
  (perform_atomic draws call s failure t h).unchanged

end

section

attribute [local instance] knownAnswers plainFiles plainText

def sampleURL : URL := ⟨"keystore".toList, "key".toList⟩

def sampleAccount : Account := ⟨sampleKey.address, .encryptedKey, sampleURL⟩

def sampleDisk : Dictionary URL (Entry (Option Json)) := AList.singleton sampleURL (.file sampleKey.encode)

def failedRename : Session (Option Json) :=
  { KeyStore.opened "keystore".toList sampleDisk [] with
    faults := [false, false, false, false, false, false, false, true] }

def passwordChange : Mutation (Option Json) := .update sampleAccount "p".toList "q".toList none

theorem thrown_unchanged_sample :
    Unchanged failedRename (passwordChange.perform (sampleDraws []) failedRename).2 :=
  thrown_unchanged (run_of_fst (r := .error .posix) (by decide +kernel))

end

end TronlinkCore.Keystore
