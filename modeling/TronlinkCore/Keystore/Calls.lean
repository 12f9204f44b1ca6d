import TronlinkCore.Keystore.Atomicity

namespace TronlinkCore.Keystore

open Exceptions Throwing Io

variable {Document : Type} {url : URL}

theorem access_eq_ok {failure : Failure} {s t : Session Document} {u : Unit} (h : access failure s = (.ok u, t)) :
    t.store = s.store ∧ t.disk = s.disk := by
  have hidle := (access_idle failure).of_run h
  exact ⟨hidle.store, hidle.disk⟩

theorem writeHandle_eq_ok {json : Document} {s t : Session Document} {u : Unit}
    (h : writeHandle url json s = (.ok u, t)) : t.disk.lookup url = some (.file json) := by
  simp only [writeHandle, bind_eq_ok, modifyDisk, update_run, Prod.mk.injEq] at h
  obtain ⟨_, s₁, _, _, s₂, _, _, s₃, ⟨_, rfl⟩, _, s₄, h₄, h₅⟩ := h
  rw [(access_eq_ok h₅).2, (access_eq_ok h₄).2]
  exact AList.lookup_insert _

theorem rename_eq_ok {source target : URL} {s t : Session Document} {u : Unit}
    (h : rename source target s = (.ok u, t)) : ∃ entry, s.disk.lookup source = some entry ∧ t.store = s.store ∧
      t.disk = (s.disk.erase source).insert target entry := by
  rw [rename, bind_eq_ok] at h
  obtain ⟨_, s₁, h₁, h⟩ := h
  obtain ⟨hs, hd⟩ := access_eq_ok h₁
  rw [bind_of_ok (isDirectory_run target s₁), require_bind_eq_ok] at h
  obtain ⟨_, h⟩ := h
  rw [bind_of_ok (entry_run source s₁), hd] at h
  cases hsource : s.disk.lookup source with
  | none =>
    rw [hsource] at h
    cases h
  | some entry =>
    rw [hsource] at h
    cases h
    refine ⟨entry, rfl, hs, ?_⟩
    rw [← hd]
    rfl

structure Writes (url : URL) (json : Document) (s t : Session Document) : Prop where
  store : ∃ b, t.store = s.store.setBackupPending b
  file : url.isHidden = false → t.disk.lookup url = some (.file json)
  others : ∀ x : URL, x.isHidden = false → x ≠ url → t.disk.lookup x = s.disk.lookup x

theorem Discards.writes {s t u : Session Document} {json : Document} (h₁ : Discards s t) (h₂ : Writes url json t u) :
    Writes url json s u where
  store := by
    obtain ⟨b₁, hs₁⟩ := h₁.store
    obtain ⟨b₂, hs₂⟩ := h₂.store
    exact ⟨b₂, by rw [hs₂, hs₁]; rfl⟩
  file := h₂.file
  others x hx hne := (h₂.others x hx hne).trans (h₁.files x hx)

theorem Writes.discards {s t u : Session Document} {json : Document} (h₁ : Writes url json s t) (h₂ : Discards t u) :
    Writes url json s u where
  store := by
    obtain ⟨b₁, hs₁⟩ := h₁.store
    obtain ⟨b₂, hs₂⟩ := h₂.store
    exact ⟨b₂, by rw [hs₂, hs₁]; rfl⟩
  file hurl := (h₂.files url hurl).trans (h₁.file hurl)
  others x hx hne := (h₂.files x hx).trans (h₁.others x hx hne)

theorem rename_writes {source : URL} (hsource : source.isHidden = true) {json : Document} {s t : Session Document}
    {u : Unit} (hjson : s.disk.lookup source = some (.file json)) (h : rename source url s = (.ok u, t)) :
    Writes url json s t := by
  obtain ⟨entry, hentry, hs, hd⟩ := rename_eq_ok h
  rw [hjson, Option.some.injEq] at hentry
  refine ⟨⟨s.store.backupExclusionPending, hs⟩, ?_, ?_⟩
  · intro _
    rw [hd, AList.lookup_insert, hentry]
  · intro x hx hne
    have hxs : x ≠ source := by
      rintro rfl
      rw [hsource] at hx
      cases hx
    rw [hd, AList.lookup_insert_ne hne, AList.lookup_erase_ne hxs]

section

variable [JsonCoder Document]

theorem replaceFile_writes {draws : Draws} {json : Document} {s t : Session Document} {u : Unit}
    (h : KeyStore.replaceFile draws url json s = (.ok u, t)) : Writes url json s t := by
  have hhidden : (⟨url.directory, ".keystore-".toList ++ draws.temporaryName⟩ : URL).isHidden = true := rfl
  simp only [KeyStore.replaceFile, deferring, Prod.mk.injEq] at h
  obtain ⟨hbody, rfl⟩ := h
  refine Writes.discards ?_ (removeItem_discards hhidden _)
  have hrun := run_of_fst hbody
  rw [bind_eq_ok] at hrun
  obtain ⟨_, s₁, h₁, hrun⟩ := hrun
  rw [bind_eq_ok] at hrun
  obtain ⟨_, s₂, h₂, hrun⟩ := hrun
  rw [bind_eq_ok] at hrun
  obtain ⟨_, s₃, h₃, h₄⟩ := hrun
  apply ((writeEmpty_discards hhidden).of_run h₁).writes
  apply ((access_discards _).of_run h₂).writes
  apply ((writeHandle_discards hhidden json).of_run h₃).writes
  exact rename_writes hhidden (writeHandle_eq_ok h₃) h₄

variable [Crypto]

theorem save_writes {draws : Draws} {key : KeystoreKey} {s t : Session Document} {u : Unit}
    (h : KeyStore.save draws key url s = (.ok u, t)) :
    s.store.hasUnreadableAccounts = false ∧ Writes url key.encode s t := by
  rw [KeyStore.save, state_bind, require_bind_eq_ok] at h
  obtain ⟨hreadable, h⟩ := h
  refine ⟨hreadable, ?_⟩
  rw [bind_eq_ok] at h
  obtain ⟨_, s₂, h₂, h⟩ := h
  rw [bind_eq_ok] at h
  obtain ⟨_, s₃, h₃, h⟩ := h
  rw [bind_eq_ok] at h
  obtain ⟨_, s₄, h₄, h⟩ := h
  apply ((setBackupPending_discards true).of_run h₂).writes
  apply ((access_discards _).of_run h₃).writes
  apply ((setBackupPending_discards false).of_run h₄).writes
  exact replaceFile_writes h

theorem install_eq_ok {draws : Draws} {key : KeystoreKey} {account : Account} {s t : Session Document} {u : Unit}
    (h : KeyStore.install draws key account s = (.ok u, t)) :
    s.store.hasUnreadableAccounts = false ∧ ∃ v, Writes account.url key.encode s v ∧
      t = (v.withStore (KeyStore.cache key)).withStore (KeyStore.list account key.address) := by
  rw [KeyStore.install, bind_eq_ok] at h
  obtain ⟨_, v, hsave, h⟩ := h
  obtain ⟨hreadable, hwrites⟩ := save_writes hsave
  cases h
  exact ⟨hreadable, v, hwrites, rfl⟩

end

theorem removeItem_eq_ok {s t : Session Document} {u : Unit} (h : removeItem url s = (.ok u, t)) :
    t.store = s.store ∧ t.disk = s.disk.erase url := by
  rw [removeItem, bind_eq_ok] at h
  obtain ⟨_, s₁, h₁, h⟩ := h
  obtain ⟨hs, hd⟩ := access_eq_ok h₁
  rw [bind_of_ok (entry_run url s₁), require_bind_eq_ok] at h
  cases h.2
  exact ⟨hs, by rw [← hd]; rfl⟩

theorem makeAccountURL_run (draws : Draws) (address : Address) (s : Session Document) :
    KeyStore.makeAccountURL draws address s =
      (.ok ⟨s.store.keyDirectory, KeyStore.generateFileName address draws.timestamp⟩, s) := rfl

variable [JsonCoder Document] [Graphemes]

theorem storedAccount_eq_ok {address : Address} {key : KeystoreKey} {account : Account} {s t : Session Document}
    (h : KeyStore.storedAccount address s = (.ok (key, account), t)) :
    (retried s).store.accountsByAddress.lookup address = some account ∧ t = retried s := by
  rw [KeyStore.storedAccount, withStateLock_run, state_bind, ofExcept_bind_eq_ok] at h
  obtain ⟨_, _, h⟩ := h
  rw [ofExcept_bind_eq_ok] at h
  obtain ⟨_, haccount, h⟩ := h
  rw [unlessNone_eq_ok] at haccount
  cases h
  exact ⟨haccount, rfl⟩

variable [Crypto]

theorem createAccount_eq_ok {draws : Draws} {password : Text} {type : AccountType} {account : Account}
    {s t : Session Document} (h : KeyStore.createAccount draws password type s = (.ok account, t)) :
    ∃ key, KeystoreKey.generate draws password type = .ok key ∧
      account = ⟨key.address, type, s.store.keyDirectory, KeyStore.generateFileName key.address draws.timestamp⟩ ∧
        KeyStore.install draws key account (retried s) = (.ok (), t) := by
  rw [KeyStore.createAccount, ofExcept_bind_eq_ok] at h
  obtain ⟨key, hkey, h⟩ := h
  rw [bind_of_ok (makeAccountURL_run draws key.address s), bind_eq_ok] at h
  obtain ⟨_, v, hinstall, h⟩ := h
  cases h
  rw [withStateLock_run] at hinstall
  exact ⟨key, hkey, rfl, hinstall⟩

theorem addAccount_eq_ok {draws : Draws} {account : Account} {s t : Session Document} {u : Unit}
    (h : KeyStore.addAccount draws account s = (.ok u, t)) :
    ∃ key v, (retried s).store.keysByAddress.lookup account.address = some key ∧
      Writes account.url key.encode (retried s) v ∧ t = v.withStore (KeyStore.list account account.address) := by
  rw [KeyStore.addAccount, withStateLock_run, state_bind, ofExcept_bind_eq_ok] at h
  obtain ⟨key, hkey, h⟩ := h
  rw [unlessNone_eq_ok] at hkey
  rw [bind_eq_ok] at h
  obtain ⟨_, v, hsave, h⟩ := h
  cases h
  exact ⟨key, v, hkey, (save_writes hsave).2, rfl⟩

theorem installNew_eq_ok {draws : Draws} {newKey : KeystoreKey} {account : Account} {s t : Session Document} {u : Unit}
    (h : KeyStore.installNew draws newKey account s = (.ok u, t)) :
    (retried s).store.accountsByAddress.lookup newKey.address = none ∧
      KeyStore.install draws newKey account (retried s) = (.ok (), t) := by
  rw [KeyStore.installNew, withStateLock_run, state_bind, require_bind_eq_ok] at h
  exact ⟨Option.isNone_iff_eq_none.mp h.1, h.2⟩

theorem importJson_eq_ok {draws : Draws} {json : Document} {password newPassword : Text} {account : Account}
    {s t : Session Document} (h : KeyStore.importJson draws json password newPassword s = (.ok account, t)) :
    ∃ key newKey, KeystoreKey.decode json = .ok key ∧ KeystoreKey.reimport draws key password newPassword = .ok newKey ∧
      account = ⟨newKey.address, key.type, (retried s).store.keyDirectory,
        KeyStore.generateFileName newKey.address draws.timestamp⟩ ∧
      KeyStore.installNew draws newKey account (retried s) = (.ok (), t) := by
  rw [KeyStore.importJson, ofExcept_bind_eq_ok] at h
  obtain ⟨key, hkey, h⟩ := h
  rw [bind_of_ok (account_run key.address s), require_bind_eq_ok] at h
  obtain ⟨_, h⟩ := h
  rw [ofExcept_bind_eq_ok] at h
  obtain ⟨newKey, hnew, h⟩ := h
  rw [require_bind_eq_ok] at h
  obtain ⟨_, h⟩ := h
  rw [bind_of_ok (makeAccountURL_run draws newKey.address _), bind_eq_ok] at h
  obtain ⟨_, v, hinstall, h⟩ := h
  cases h
  exact ⟨key, newKey, hkey, hnew, rfl, hinstall⟩

theorem importMnemonic_eq_ok {draws : Draws} {mnemonic passphrase derivationPath encryptPassword : Text}
    {normalization : Normalization} {account : Account} {s t : Session Document}
    (h : KeyStore.importMnemonic draws mnemonic passphrase derivationPath encryptPassword normalization s =
      (.ok account, t)) :
    ∃ sk address newKey, Wallet.privateKey mnemonic passphrase derivationPath normalization = .ok sk ∧
      decodeAddress (Crypto.publicKey65 sk) = .ok address ∧
      KeystoreKey.ofMnemonic draws encryptPassword mnemonic passphrase derivationPath normalization = .ok newKey ∧
      account = ⟨address, .hierarchicalDeterministicWallet, (retried s).store.keyDirectory,
        KeyStore.generateFileName address draws.timestamp⟩ ∧
      KeyStore.installNew draws newKey account (retried s) = (.ok (), t) := by
  rw [KeyStore.importMnemonic, require_bind_eq_ok] at h
  obtain ⟨_, h⟩ := h
  rw [ofExcept_bind_eq_ok] at h
  obtain ⟨sk, hsk, h⟩ := h
  rw [ofExcept_bind_eq_ok] at h
  obtain ⟨address, haddress, h⟩ := h
  rw [bind_of_ok (account_run address s), require_bind_eq_ok] at h
  obtain ⟨_, h⟩ := h
  rw [ofExcept_bind_eq_ok] at h
  obtain ⟨newKey, hnew, h⟩ := h
  rw [bind_of_ok (makeAccountURL_run draws address _), bind_eq_ok] at h
  obtain ⟨_, v, hinstall, h⟩ := h
  cases h
  exact ⟨sk, address, newKey, hsk, haddress, hnew, rfl, hinstall⟩

theorem update_eq_ok {draws : Draws} {account : Account} {password newPassword : Text} {derivationPath : Option Text}
    {s t : Session Document} {u : Unit}
    (h : KeyStore.update draws account password newPassword derivationPath s = (.ok u, t)) :
    ∃ key newKey v, (retried s).store.keysByAddress.lookup account.address = some key ∧
      KeystoreKey.rekey draws key password newPassword (derivationPath.getD key.derivationPath) = .ok newKey ∧
      newKey.address = key.address ∧ (retried (retried s)).store.hasUnreadableAccounts = false ∧
      Writes account.url newKey.encode (retried (retried s)) v ∧ t = v.withStore (KeyStore.cache newKey) := by
  rw [KeyStore.update, bind_eq_ok] at h
  obtain ⟨key, s₁, h₁, h⟩ := h
  rw [storedKey_run, Prod.mk.injEq, unlessNone_eq_ok] at h₁
  obtain ⟨hkey, rfl⟩ := h₁
  rw [ofExcept_bind_eq_ok] at h
  obtain ⟨newKey, hnew, h⟩ := h
  rw [require_bind_eq_ok] at h
  obtain ⟨haddress, h⟩ := h
  rw [withStateLock_run, bind_eq_ok] at h
  obtain ⟨_, v, hsave, h⟩ := h
  obtain ⟨hreadable, hwrites⟩ := save_writes hsave
  cases h
  exact ⟨key, newKey, v, hkey, hnew, haddress, hreadable, hwrites, rfl⟩

theorem delete_eq_ok {account : Account} {password : Text} {s t : Session Document} {u : Unit}
    (h : KeyStore.delete account password s = (.ok u, t)) :
    ∃ (stored : Account) (v : Session Document),
      (retried s).store.accountsByAddress.lookup account.address = some stored ∧
      (retried (retried s)).store.hasUnreadableAccounts = false ∧ v.store = (retried (retried s)).store ∧
      v.disk = (retried (retried s)).disk.erase stored.url ∧ t = v.withStore (KeyStore.forget account.address) := by
  rw [KeyStore.delete, bind_eq_ok] at h
  obtain ⟨⟨key, stored⟩, s₁, h₁, h⟩ := h
  obtain ⟨haccount, rfl⟩ := storedAccount_eq_ok h₁
  rw [ofExcept_bind_eq_ok] at h
  obtain ⟨_, _, h⟩ := h
  rw [withStateLock_run, state_bind, require_bind_eq_ok] at h
  obtain ⟨hreadable, h⟩ := h
  rw [bind_eq_ok] at h
  obtain ⟨_, v, hremove, h⟩ := h
  obtain ⟨hs, hd⟩ := removeItem_eq_ok hremove
  cases h
  exact ⟨stored, v, haccount, hreadable, hs, hd, rfl⟩

end TronlinkCore.Keystore
