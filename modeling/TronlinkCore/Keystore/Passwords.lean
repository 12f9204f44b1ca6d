import TronlinkCore.Keystore.Imports

namespace TronlinkCore.Keystore

open Text BigEndian Throwing Io

def Failure.OfFiles : Failure → Prop
  | .cocoa _ | .posix => True
  | _ => False

section

variable {Document : Type} {s t : Session Document} {url : URL}

theorem access_throwsOnly {failure : Failure} (h : failure.OfFiles) :
    ThrowsOnly Failure.OfFiles (access failure : Io Document Unit) := by
  intro s error he
  rcases access_result failure s with hr | hr
  · rw [hr] at he
    cases he
  · rw [hr] at he
    cases he
    exact h

theorem modifyStore_throwsOnly (f : KeyStore → KeyStore) :
    ThrowsOnly Failure.OfFiles (modifyStore f : Io Document Unit) := (update_neverThrows _).throwsOnly

theorem entry_throwsOnly (url : URL) : ThrowsOnly Failure.OfFiles (entry url : Io Document _) :=
  NeverThrows.throwsOnly fun s => ⟨s.disk.lookup url, rfl⟩

theorem rename_throwsOnly (source target : URL) : ThrowsOnly Failure.OfFiles (rename source target : Io Document Unit) := by
  apply ThrowsOnly.bind
  · exact access_throwsOnly trivial
  intro _
  apply ThrowsOnly.bind
  · exact NeverThrows.throwsOnly fun s => ⟨Entry.isDirectory (s.disk.lookup target), rfl⟩
  intro _
  apply ThrowsOnly.bind
  · exact throwsOnly_require trivial
  intro _
  apply ThrowsOnly.bind (entry_throwsOnly source)
  intro moved
  cases moved with
  | none => exact throwsOnly_fail trivial
  | some entry => exact (update_neverThrows _).throwsOnly

theorem writeHandle_throwsOnly (url : URL) (json : Document) : ThrowsOnly Failure.OfFiles (writeHandle url json) := by
  apply ThrowsOnly.bind
  · exact access_throwsOnly trivial
  intro _
  apply ThrowsOnly.bind
  · exact access_throwsOnly trivial
  intro _
  apply ThrowsOnly.bind
  · exact (update_neverThrows _).throwsOnly
  intro _
  apply ThrowsOnly.bind
  · exact access_throwsOnly trivial
  exact fun _ => access_throwsOnly trivial

section

variable [JsonCoder Document]

theorem writeEmpty_throwsOnly (url : URL) : ThrowsOnly Failure.OfFiles (writeEmpty url : Io Document Unit) := by
  apply ThrowsOnly.bind
  · exact access_throwsOnly trivial
  intro _
  apply ThrowsOnly.bind (entry_throwsOnly url)
  intro _
  apply ThrowsOnly.bind
  · exact throwsOnly_require trivial
  exact fun _ => (update_neverThrows _).throwsOnly

theorem replaceFile_throwsOnly (draws : Draws) (url : URL) (json : Document) :
    ThrowsOnly Failure.OfFiles (KeyStore.replaceFile draws url json) := by
  apply ThrowsOnly.deferring
  apply ThrowsOnly.bind (writeEmpty_throwsOnly _)
  intro _
  apply ThrowsOnly.bind
  · exact access_throwsOnly trivial
  intro _
  apply ThrowsOnly.bind (writeHandle_throwsOnly _ json)
  exact fun _ => rename_throwsOnly _ url

variable [Crypto]

theorem save_throwsOnly (draws : Draws) (key : KeystoreKey) (url : URL) :
    ThrowsOnly Failure.OfFiles (KeyStore.save draws key url : Io Document Unit) := by
  apply ThrowsOnly.bind
  · exact state_neverThrows.throwsOnly
  intro s
  apply ThrowsOnly.bind
  · exact throwsOnly_require trivial
  intro _
  apply ThrowsOnly.bind (modifyStore_throwsOnly _)
  intro _
  apply ThrowsOnly.bind
  · exact access_throwsOnly trivial
  intro _
  apply ThrowsOnly.bind (modifyStore_throwsOnly _)
  exact fun _ => replaceFile_throwsOnly draws url key.encode

end

theorem writeHandle_run (h : s.faults = []) (url : URL) (json : Document) :
    writeHandle url json s = (.ok (), s.withDisk (·.insert url (.file json))) := by
  have h' : (s.withDisk (·.insert url (.file json))).faults = [] := h
  rw [writeHandle, bind_of_ok (access_run h _), bind_of_ok (access_run h _), modifyDisk, update_bind,
    bind_of_ok (access_run h' _), access_run h']

theorem rename_run (h : s.faults = []) {source target : URL} {entry : Entry Document}
    (hsource : s.disk.lookup source = some entry) (htarget : Entry.isDirectory (s.disk.lookup target) = false) :
    rename source target s = (.ok (), s.withDisk fun disk => (disk.erase source).insert target entry) := by
  rw [rename, bind_of_ok (access_run h _), bind_of_ok (isDirectory_run target s),
    bind_of_ok (require_run htarget), bind_of_ok (entry_run source s), hsource]
  rfl

/-- Nothing is waiting, the name of the new file is free, and no access is going to fail. -/
structure Ready (draws : Draws) (url : URL) (s : Session Document) : Prop where
  faults : s.faults = []
  pending : s.store.pendingAccountURLs = []
  listing : s.store.directoryListingPending = false
  temporary : s.disk.lookup ⟨url.directory, ".keystore-".toList ++ draws.temporaryName⟩ = none
  target : Entry.isDirectory (s.disk.lookup url) = false

theorem Ready.readable {draws : Draws} (h : Ready draws url s) : s.store.hasUnreadableAccounts = false := by
  rw [KeyStore.hasUnreadableAccounts, h.listing, h.pending]
  rfl

section

variable [JsonCoder Document]

theorem writeEmpty_run (h : s.faults = []) (hnone : s.disk.lookup url = none) :
    writeEmpty url s = (.ok (), s.withDisk (·.insert url (.file JsonCoder.empty))) := by
  rw [writeEmpty, bind_of_ok (access_run h _), bind_of_ok (entry_run url s), hnone]
  rfl

theorem replaceFile_run {draws : Draws} (h : Ready draws url s) (json : Document) :
    (KeyStore.replaceFile draws url json s).1 = .ok () := by
  let temporaryURL : URL := ⟨url.directory, ".keystore-".toList ++ draws.temporaryName⟩
  let emptied := s.withDisk (·.insert temporaryURL (.file JsonCoder.empty))
  let written := emptied.withDisk (·.insert temporaryURL (.file json))
  have hempty : writeEmpty temporaryURL s = (.ok (), emptied) := writeEmpty_run h.faults h.temporary
  have hwritten : writeHandle temporaryURL json emptied = (.ok (), written) :=
    writeHandle_run (s := emptied) h.faults temporaryURL json
  have hsource : written.disk.lookup temporaryURL = some (.file json) := AList.lookup_insert _
  have htarget : Entry.isDirectory (written.disk.lookup url) = false := by
    by_cases hsame : url = temporaryURL
    · rw [hsame, hsource]
      rfl
    · change Entry.isDirectory (((s.disk.insert temporaryURL _).insert temporaryURL _).lookup url) = false
      rw [AList.lookup_insert_ne hsame, AList.lookup_insert_ne hsame]
      exact h.target
  change ((do
    writeEmpty temporaryURL
    excludeFromBackup
    writeHandle temporaryURL json
    rename temporaryURL url : Io Document Unit) s).1 = _
  rw [bind_of_ok hempty, excludeFromBackup, bind_of_ok (access_run (s := emptied) h.faults _), bind_of_ok hwritten,
    rename_run (s := written) h.faults hsource htarget]

theorem save_run [Crypto] {draws : Draws} (h : Ready draws url s) (key : KeystoreKey) :
    (KeyStore.save draws key url s).1 = .ok () := by
  let excluded := (s.withStore (KeyStore.setBackupPending true)).withStore (KeyStore.setBackupPending false)
  have hready : Ready draws url excluded := ⟨h.faults, h.pending, h.listing, h.temporary, h.target⟩
  rw [KeyStore.save, state_bind, bind_of_ok (require_run h.readable), modifyStore, update_bind, excludeFromBackup,
    bind_of_ok (access_run (s := s.withStore (KeyStore.setBackupPending true)) h.faults _), modifyStore, update_bind]
  exact replaceFile_run hready key.encode

/-- What a call that gives the store a key comes to: only the files can stop it. -/
structure Stores [Crypto] {α : Type} (draws : Draws) (newKey : KeystoreKey) (url : URL) (call : Io Document α)
    (s : Session Document) : Prop where
  stored : ∀ a t, call s = (.ok a, t) → t.store.keysByAddress.lookup newKey.address = some newKey ∧
    (url.isHidden = false → t.disk.lookup url = some (.file newKey.encode))
  throws : ∀ failure, (call s).1 = .error failure → failure.OfFiles
  returns : Ready draws url s → ∃ a, (call s).1 = .ok a

theorem stores_of_run [Crypto] {α : Type} {draws : Draws} {newKey : KeystoreKey} {call : Io Document α}
    (u : Session Document) (note : KeyStore → KeyStore) (a : α)
    (hrun : call s = (KeyStore.save draws newKey url >>= fun _ => modifyStore note >>= fun _ => pure a) u)
    (hready : Ready draws url s → Ready draws url u)
    (hnote : ∀ store, (note store).keysByAddress.lookup newKey.address = some newKey) : Stores draws newKey url call s where
  stored b t h := by
    rw [hrun, bind_eq_ok] at h
    obtain ⟨_, v, hsave, h⟩ := h
    cases h
    exact ⟨hnote v.store, (save_writes hsave).2.file⟩
  throws failure h := by
    rw [hrun, bind_run] at h
    split at h
    · cases h
    · rename_i v hsave
      cases h
      exact save_throwsOnly draws newKey url u failure (by rw [hsave])
  returns h := by
    rw [hrun, bind_of_ok (run_of_fst (save_run (hready h) newKey))]
    exact ⟨a, rfl⟩

variable [Graphemes]

theorem Ready.retried {draws : Draws} (h : Ready draws url s) : Ready draws url (retried s) := by
  have hfiles : ∀ b, KeyStore.retryFiles (s.withStore (KeyStore.setBackupPending b)) =
      (.ok (), s.withStore (KeyStore.setBackupPending b)) := by
    intro b
    rw [KeyStore.retryFiles, state_bind]
    change (if s.store.directoryListingPending then _ else if s.store.pendingAccountURLs ≠ [] then _ else _ :
      Io Document Unit) _ = _
    rw [h.listing, h.pending]
    rfl
  have hretried : ∃ b, Keystore.retried s = s.withStore (KeyStore.setBackupPending b) := by
    rw [Keystore.retried, KeyStore.retryPending]
    by_cases hbackup : s.store.backupExclusionPending = true
    · have hrun : KeyStore.retryBackup s = (.ok (), s.withStore (KeyStore.setBackupPending false)) := by
        rw [KeyStore.retryBackup, state_bind, if_pos hbackup, retryDirectoryBackupExclusion_run h.faults]
      rw [bind_of_ok hrun, hfiles]
      exact ⟨false, rfl⟩
    · have hrun : KeyStore.retryBackup s = (.ok (), s.withStore (KeyStore.setBackupPending s.store.backupExclusionPending)) := by
        rw [KeyStore.retryBackup, state_bind, if_neg hbackup]
        rfl
      rw [bind_of_ok hrun, hfiles]
      exact ⟨_, rfl⟩
  obtain ⟨b, hb⟩ := hretried
  rw [hb]
  exact ⟨h.faults, h.pending, h.listing, h.temporary, h.target⟩

theorem storedKey_of_lookup {address : Address} {key : KeystoreKey}
    (h : s.store.keysByAddress.lookup address = some key) : KeyStore.storedKey address s = (.ok key, retried s) := by
  rw [storedKey_run, ((retried_reads s).extended.keys address).of_some h]
  rfl

/-- No account is listed under the address, and no unread file holds a key of it. -/
structure Absent (s : Session Document) (address : Address) : Prop where
  unlisted : s.store.accountsByAddress.lookup address = none
  unheld : ∀ url held, Unread s url → Holds s url held → held.address ≠ address

theorem Absent.retried {address : Address} (h : Absent s address) : Absent (retried s) address where
  unlisted := by
    obtain hsame | ⟨_, _, ⟨url, held, hunread, hk, haddress, _⟩, _⟩ := (retried_reads s).extended.accounts address
    · exact hsame.trans h.unlisted
    · exact absurd haddress (h.unheld url held hunread hk)
  unheld url held hunread hk :=
    h.unheld url held ((retried_reads s).unread url hunread) (hk.of_lookup (by rw [(retried_reads s).extended.disk]))

variable [Crypto]

section

variable {draws : Draws} {key newKey : KeystoreKey} {password newPassword : Text} {sk : List UInt8}

theorem exportAccount_run {account : Account} (hk : s.store.keysByAddress.lookup account.address = some key)
    (hn : KeystoreKey.rekey draws key password newPassword key.derivationPath = .ok newKey) :
    (KeyStore.exportAccount draws account password newPassword s).1 = .ok newKey.encode := by
  rw [KeyStore.exportAccount, bind_of_ok (storedKey_of_lookup hk), hn]
  rfl

theorem update_stores {account : Account} (hk : s.store.keysByAddress.lookup account.address = some key)
    (hn : KeystoreKey.rekey draws key password newPassword key.derivationPath = .ok newKey)
    (ha : newKey.address = key.address) :
    Stores draws newKey account.url (KeyStore.update draws account password newPassword none) s := by
  have hrekey : (ofExcept (KeystoreKey.rekey draws key password newPassword ((none : Option Text).getD key.derivationPath)) :
      Io Document KeystoreKey) (retried s) = (.ok newKey, retried s) := congrArg (·, retried s) hn
  apply stores_of_run (retried (retried s)) (KeyStore.cache newKey) ()
  · rw [KeyStore.update, bind_of_ok (storedKey_of_lookup hk), bind_of_ok hrekey, bind_of_ok (require_run ha), withStateLock_run]
    rfl
  · exact fun h => h.retried.retried
  · exact fun store => AList.lookup_insert _

theorem importJson_stores {json : Document} (hdecode : KeystoreKey.decode json = .ok key) (habsent : Absent s key.address)
    (hn : KeystoreKey.reimport draws key password newPassword = .ok newKey) (ha : newKey.address = key.address) :
    Stores draws newKey ⟨s.store.keyDirectory, KeyStore.generateFileName key.address draws.timestamp⟩
      (KeyStore.importJson draws json password newPassword) s := by
  let account : Account :=
    ⟨newKey.address, key.type, (retried s).store.keyDirectory, KeyStore.generateFileName newKey.address draws.timestamp⟩
  have hurl : account.url = ⟨s.store.keyDirectory, KeyStore.generateFileName key.address draws.timestamp⟩ := by
    rw [← (retried_reads s).extended.directory, ← ha]
  have hdecoded : (ofExcept (KeystoreKey.decode json) : Io Document KeystoreKey) s = (.ok key, s) :=
    congrArg (·, s) hdecode
  have hreimport : (ofExcept (KeystoreKey.reimport draws key password newPassword) : Io Document KeystoreKey) (retried s) =
      (.ok newKey, retried s) := congrArg (·, retried s) hn
  have hnone : ((retried s).store.accountsByAddress.lookup key.address).isNone := by
    rw [habsent.retried.unlisted]
    rfl
  have hnone' : ((retried (retried s)).store.accountsByAddress.lookup newKey.address).isNone := by
    rw [ha, habsent.retried.retried.unlisted]
    rfl
  rw [← hurl]
  apply stores_of_run (retried (retried s)) (KeyStore.list account newKey.address ∘ KeyStore.cache newKey) account
  · rw [KeyStore.importJson, bind_of_ok hdecoded, bind_of_ok (account_run key.address s), bind_of_ok (require_run hnone),
      bind_of_ok hreimport, bind_of_ok (require_run ha), bind_of_ok (makeAccountURL_run draws newKey.address _)]
    change (KeyStore.installNew draws newKey account >>= fun _ => pure account) (retried s) = _
    rw [bind_run, KeyStore.installNew, withStateLock_run, state_bind, bind_of_ok (require_run hnone'), ← bind_run,
      KeyStore.install, bind_bind]
    rfl
  · exact fun h => hurl ▸ (h.retried.retried)
  · exact fun store => AList.lookup_insert _

theorem passwords_preserve (draws importDraws : Draws) (newPassword lastPassword : Text) (h : Opens key password sk)
    (hc : ∀ payload, key.rekeyPayload password = .ok payload →
      draws.cipherParams.HasCTRCapacity payload.length ∧ importDraws.cipherParams.HasCTRCapacity payload.length) :
    ∃ newKey, SameWallet key password newKey newPassword sk ∧
      (∀ (s : Session Document) (account : Account), s.store.keysByAddress.lookup account.address = some key →
        (KeyStore.exportAccount draws account password newPassword s).1 = .ok newKey.encode ∧
          Stores draws newKey account.url (KeyStore.update draws account password newPassword none) s) ∧
      (ValidMnemonic key password → ∃ importedKey, SameWallet key password importedKey lastPassword sk ∧
        ∀ s : Session Document, Absent s key.address →
          Stores importDraws importedKey
            ⟨s.store.keyDirectory, KeyStore.generateFileName key.address importDraws.timestamp⟩
            (KeyStore.importJson importDraws newKey.encode newPassword lastPassword) s) := by
  obtain ⟨newKey, hn, hst, hsame⟩ := rekey_preserves newPassword h fun payload hp => (hc payload hp).1
  refine ⟨newKey, hsame, fun s account hk => ⟨exportAccount_run hk hn, update_stores hk hn hsame.address⟩, ?_⟩
  intro hvalid
  have hopens := hsame.opens h
  obtain ⟨importedKey, hi, _, hsame'⟩ := rekey_preserves lastPassword hopens
    fun payload hp => (hc payload (hsame.rekeyPayload h ▸ hp)).2
  rw [← reimport_eq_rekey hopens (hsame.validMnemonic hvalid)] at hi
  refine ⟨importedKey, hsame.trans hsame', fun s habsent => ?_⟩
  rw [← hsame.address] at habsent ⊢
  exact importJson_stores (KeystoreKey.decode_encoded hst) habsent hi hsame'.address

end

end

end

section

attribute [local instance] phraseAnswers plainFiles plainText

-- The one evaluation of the key.
theorem phraseKey_evaluated :
    (phraseKey.privateKey "p".toList = .ok (toBytes 32 KnownAnswers.phrasePrivateKey) ∧
      EthereumCrypto.isValidPrivateKey (toBytes 32 KnownAnswers.phrasePrivateKey) = true ∧
      decodeAddress (EthereumCrypto.getPublicKey (toBytes 32 KnownAnswers.phrasePrivateKey)) = .ok phraseKey.address) ∧
    (phraseKey.decrypt "p".toList = .ok (utf8 KnownAnswers.phrase ++ [0]) ∧
      phraseKey.rekeyPayload "p".toList = .ok (utf8 KnownAnswers.phrase ++ [0])) ∧
    (KeyStore.opened sampleDirectory phraseDisk []).store.keysByAddress.lookup phraseKey.address = some phraseKey ∧
    (KeyStore.opened sampleDirectory ∅ [] : Session (Option Json)).store.accountsByAddress.lookup phraseKey.address =
      none := by
  decide +kernel

theorem phraseKey_opens : Opens phraseKey "p".toList (toBytes 32 KnownAnswers.phrasePrivateKey) :=
  have ⟨hprivate, hvalid, haddress⟩ := phraseKey_evaluated.1
  ⟨hprivate, hvalid, haddress⟩

theorem phraseKey_validMnemonic : ValidMnemonic phraseKey "p".toList := by
  intro _ secret mnemonic passphrase hd hs
  have hsplit : splitMnemonicPayload (utf8 KnownAnswers.phrase ++ [0]) = .ok (KnownAnswers.phrase, []) := by
    decide +kernel
  rw [phraseKey_evaluated.2.1.1] at hd
  cases hd
  rw [hsplit] at hs
  cases hs
  decide +kernel

theorem passwords_preserve_sample : ∃ newKey : KeystoreKey, newKey.address = phraseKey.address ∧
    (KeyStore.exportAccount (phraseDraws []) ⟨phraseKey.address, .hierarchicalDeterministicWallet, phraseURL⟩ "p".toList
      "p".toList (KeyStore.opened sampleDirectory phraseDisk [])).1 = .ok newKey.encode ∧
    ∃ account, (KeyStore.importJson (phraseDraws []) newKey.encode "p".toList "p".toList
      (KeyStore.opened sampleDirectory ∅ [] : Session (Option Json))).1 = .ok account := by
  obtain ⟨_, ⟨_, hpayload⟩, hlisted, habsent⟩ := phraseKey_evaluated
  have hcapacity : (phraseDraws []).cipherParams.HasCTRCapacity (utf8 KnownAnswers.phrase ++ [0]).length := by
    decide +kernel
  obtain ⟨newKey, hsame, hstore, himport⟩ := @passwords_preserve (Option Json) _ _ _ _ _ _ (phraseDraws [])
    (phraseDraws []) "p".toList "p".toList phraseKey_opens (by
      intro payload hp
      rw [hpayload] at hp
      cases hp
      exact ⟨hcapacity, hcapacity⟩)
  obtain ⟨_, _, hstores⟩ := himport phraseKey_validMnemonic
  refine ⟨newKey, hsame.address, (hstore _ ⟨_, _, phraseURL⟩ hlisted).1, ?_⟩
  apply (hstores _ ⟨habsent, fun url held hunread => absurd hunread (not_unread (opened_readable _ _) url)⟩).returns
  exact ⟨rfl, rfl, rfl, rfl, rfl⟩

def lastDraws : Draws := { sampleDraws [] with iv := List.replicate 16 0xff, iv_length := rfl }

theorem export_may_throw : ¬ ∀ (draws : Draws) (key : KeystoreKey) (password newPassword : Text) (sk : List UInt8)
    (s : Session (Option Json)) (account : Account), Opens key password sk →
    s.store.keysByAddress.lookup account.address = some key →
    ∃ json, (KeyStore.exportAccount draws account password newPassword s).1 = .ok json := by
  intro h
  obtain ⟨json, hjson⟩ := h lastDraws phraseKey "p".toList "p".toList _ (KeyStore.opened sampleDirectory phraseDisk [])
    ⟨phraseKey.address, .hierarchicalDeterministicWallet, phraseURL⟩ phraseKey_opens phraseKey_evaluated.2.2.1
  have herror : KeyStore.failed (KeyStore.exportAccount lastDraws ⟨phraseKey.address, .hierarchicalDeterministicWallet, phraseURL⟩
      "p".toList "p".toList (KeyStore.opened sampleDirectory phraseDisk [])).1 = true := by decide +kernel
  rw [hjson] at herror
  cases herror

end

end TronlinkCore.Keystore
