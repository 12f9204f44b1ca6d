import TronlinkCore.Keystore.KeyFile

namespace TronlinkCore.Keystore

open Exceptions Text BigEndian

theorem ofAscii?_eq_some {bytes : List UInt8} {string : Text} (h : ofAscii? bytes = some string) :
    utf8 string = bytes ∧ isAscii string = true := by
  unfold ofAscii? at h
  split at h
  · rename_i hall
    have hlt : ∀ b ∈ bytes, b < 128 := by
      intro b hb
      exact of_decide_eq_true (List.all_eq_true.mp hall b hb)
    cases h
    exact ⟨utf8_ofAscii hlt, isAscii_ofAscii hlt⟩
  · cases h

theorem utf8_lt_of_isAscii {string : Text} (h : isAscii string = true) : ∀ b ∈ utf8 string, b < 128 := by
  induction string with
  | nil => simp [utf8]
  | cons c cs ih =>
    obtain ⟨hc, hcs⟩ : c.toNat < 128 ∧ isAscii cs = true := by simpa using h
    rw [utf8_cons_ascii hc]
    intro b hb
    rcases List.mem_cons.mp hb with rfl | hb
    · rw [UInt8.lt_iff_toNat_lt, UInt8.toNat_ofNat_of_lt' (Nat.lt_trans hc (by decide))]
      exact hc
    · exact ih hcs b hb

theorem ofAscii?_utf8 {string : Text} (h : isAscii string = true) : ofAscii? (utf8 string) = some string := by
  have hlt := utf8_lt_of_isAscii h
  have hall : (utf8 string).all (· < 128) = true := List.all_eq_true.mpr fun b hb => decide_eq_true (hlt b hb)
  rw [ofAscii?, if_pos hall, Option.some.injEq]
  exact utf8_injective (utf8_ofAscii hlt)

theorem makeMnemonicPayload_of_split {data : List UInt8} {mnemonic passphrase : Text}
    (h : splitMnemonicPayload data = .ok (mnemonic, passphrase)) :
    mnemonic ≠ [] ∧ makeMnemonicPayload mnemonic passphrase = .ok (utf8 mnemonic ++ 0 :: utf8 passphrase) := by
  simp only [splitMnemonicPayload, except_bind_eq_ok, unlessNone_eq_ok, guardThat_eq_ok] at h
  obtain ⟨m, hm, _, hne, h⟩ := h
  obtain ⟨hbytes, hascii⟩ := ofAscii?_eq_some hm
  have hmn : m = mnemonic := by
    split at h
    · cases h
      rfl
    · simp only [except_bind_eq_ok, unlessNone_eq_ok] at h
      obtain ⟨p, _, h⟩ := h
      cases h
      rfl
  subst hmn
  have hzero : (utf8 m).contains 0 = false := by
    rw [hbytes, List.contains_eq_mem, decide_eq_false_iff_not]
    intro hmem
    have h0 := List.all_eq_true.mp List.all_takeWhile 0 hmem
    simp at h0
  refine ⟨hne, ?_⟩
  rw [makeMnemonicPayload, guardThat_of hzero, except_ok_bind, Mnemonic.asciiCString, if_pos hascii]
  rfl

theorem split_of_makeMnemonicPayload {data : List UInt8} {mnemonic passphrase : Text} (hne : mnemonic ≠ [])
    (h : makeMnemonicPayload mnemonic passphrase = .ok data) :
    splitMnemonicPayload data = .ok (mnemonic, passphrase) := by
  simp only [makeMnemonicPayload, Mnemonic.asciiCString, except_bind_eq_ok, guardThat_eq_ok, unlessNone_eq_ok] at h
  obtain ⟨_, hzero, cstring, hc, h⟩ := h
  split at hc
  · rename_i hascii
    cases hc
    cases h
    have hnot : ∀ b ∈ utf8 mnemonic, (decide (b ≠ 0)) = true := by
      intro b hb
      rw [List.contains_eq_mem, decide_eq_false_iff_not] at hzero
      exact decide_eq_true (fun h0 => hzero (h0 ▸ hb))
    have htake : (utf8 mnemonic ++ 0 :: utf8 passphrase).takeWhile (· ≠ 0) = utf8 mnemonic := by
      rw [List.takeWhile_append_of_pos hnot]
      exact List.append_nil _
    have hdrop : (utf8 mnemonic ++ 0 :: utf8 passphrase).dropWhile (· ≠ 0) = 0 :: utf8 passphrase := by
      rw [List.dropWhile_append_of_pos hnot]
      rfl
    rw [splitMnemonicPayload, htake, hdrop, ofAscii?_utf8 hascii]
    change (do
      guardThat (mnemonic ≠ []) _
      let passphrase ← unlessNone _ (ofUtf8? (utf8 passphrase))
      Except.ok (mnemonic, passphrase)) = _
    rw [guardThat_of hne, except_ok_bind, ofUtf8?_utf8]
    rfl
  · cases hc

theorem zero_not_mem_utf8 {string : Text} (hascii : isAscii string = true) (hnul : Char.ofNat 0 ∉ string) :
    0 ∉ utf8 string := by
  induction string with
  | nil => exact List.not_mem_nil
  | cons c cs ih =>
    obtain ⟨hc, hcs⟩ : c.toNat < 128 ∧ isAscii cs = true := by simpa using hascii
    obtain ⟨hne, hrest⟩ := not_or.mp (List.mem_cons.not.mp hnul)
    rw [utf8_cons_ascii hc, List.mem_cons, not_or]
    refine ⟨?_, ih hcs hrest⟩
    intro hzero
    have hnat := congrArg UInt8.toNat hzero
    rw [UInt8.toNat_ofNat_of_lt' (Nat.lt_trans hc (by decide))] at hnat
    apply hne
    rw [← Char.ofNat_toNat c, ← hnat]
    rfl

theorem bytes_of_split {data : List UInt8} {mnemonic passphrase : Text}
    (h : splitMnemonicPayload data = .ok (mnemonic, passphrase)) :
    utf8 mnemonic ++ 0 :: utf8 passphrase = if 0 ∈ data then data else data ++ [0] := by
  simp only [splitMnemonicPayload, except_bind_eq_ok, unlessNone_eq_ok, guardThat_eq_ok] at h
  obtain ⟨m, hm, _, _, h⟩ := h
  have hfirst := (ofAscii?_eq_some hm).1
  have hwhole := List.takeWhile_append_dropWhile (p := fun b : UInt8 => decide (b ≠ 0)) (l := data)
  cases hrest : data.dropWhile (· ≠ 0) with
  | nil =>
    rw [hrest] at h hwhole
    cases h
    rw [List.append_nil] at hwhole
    have hnot : 0 ∉ data := by
      intro hmem
      rw [← hwhole] at hmem
      have hzero := List.all_eq_true.mp List.all_takeWhile 0 hmem
      simp at hzero
    rw [if_neg hnot, hfirst, hwhole]
    rfl
  | cons terminator rest =>
    rw [hrest] at h hwhole
    simp only [except_bind_eq_ok, unlessNone_eq_ok] at h
    obtain ⟨p, hp, h⟩ := h
    cases h
    have hterminator : terminator = 0 := by
      have hne : data.dropWhile (fun b : UInt8 => decide (b ≠ 0)) ≠ [] := hrest ▸ List.cons_ne_nil terminator rest
      have hhead := List.head_dropWhile_not _ hne
      simp only [hrest, List.head_cons] at hhead
      simpa using hhead
    have hmem : 0 ∈ data := by
      rw [← hwhole, hterminator]
      simp
    rw [if_pos hmem, hfirst, utf8_of_ofUtf8? hp]
    rwa [hterminator] at hwhole

theorem payloads_survive :
    (∀ mnemonic passphrase, mnemonic ≠ [] → isAscii mnemonic → Char.ofNat 0 ∉ mnemonic →
      ∃ data, makeMnemonicPayload mnemonic passphrase = .ok data ∧
        splitMnemonicPayload data = .ok (mnemonic, passphrase)) ∧
    ∀ data mnemonic passphrase, splitMnemonicPayload data = .ok (mnemonic, passphrase) →
      makeMnemonicPayload mnemonic passphrase = .ok (if 0 ∈ data then data else data ++ [0]) := by
  constructor
  · intro mnemonic passphrase hne hascii hnul
    have hzero : (utf8 mnemonic).contains 0 = false := by
      rw [List.contains_eq_mem, decide_eq_false_iff_not]
      exact zero_not_mem_utf8 hascii hnul
    have hmade : makeMnemonicPayload mnemonic passphrase = .ok (utf8 mnemonic ++ 0 :: utf8 passphrase) := by
      rw [makeMnemonicPayload, guardThat_of hzero, except_ok_bind, Mnemonic.asciiCString, if_pos hascii]
      rfl
    exact ⟨_, hmade, split_of_makeMnemonicPayload hne hmade⟩
  · intro data mnemonic passphrase h
    rw [(makeMnemonicPayload_of_split h).2, bytes_of_split h]

section

variable [Crypto]

theorem encrypting_of_capacity {draws : Draws} {data : List UInt8} (password : Text)
    (h : draws.cipherParams.HasCTRCapacity data.length) :
    ∃ crypto, KeystoreKeyHeader.encrypting draws password data = .ok crypto := by
  rw [KeystoreKeyHeader.encrypting, CipherParams.validateCTRCapacity, guardThat_of h, except_ok_bind, calculate,
    draws.validate_kdfParams]
  exact ⟨_, rfl⟩

theorem decrypt_encrypting {draws : Draws} {password : Text} {data : List UInt8} {key : KeystoreKey}
    (h : KeystoreKeyHeader.encrypting draws password data = .ok key.crypto) : key.decrypt password = .ok data := by
  simp only [KeystoreKeyHeader.encrypting, CipherParams.validateCTRCapacity, except_bind_eq_ok, guardThat_eq_ok,
    Except.ok.injEq] at h
  obtain ⟨_, hcap, derivedKey, hd, h⟩ := h
  have hderived : key.derivedKey password = .ok derivedKey := by
    rw [KeystoreKey.derivedKey, ← h]
    exact hd
  have hcap' : key.crypto.cipherParams.HasCTRCapacity key.crypto.cipherText.length := by
    rw [← h, Crypto.encryptCTR_length]
    exact hcap
  have hmac : computeMAC derivedKey key.crypto.cipherText = key.crypto.mac := by rw [← h]
  have hcipher : key.crypto.cipher = "aes-128-ctr".toList := by rw [← h]
  rw [KeystoreKey.decrypt, hderived, except_ok_bind, guardThat_of hmac, except_ok_bind, KeystoreKey.decipher,
    if_pos hcipher, CipherParams.validateCTRCapacity, guardThat_of hcap', except_ok_bind, ← h]
  exact congrArg Except.ok (Crypto.decryptCTR_encryptCTR _ _ _)

theorem decodeAddress_length {publicKey : List UInt8} {address : Address}
    (h : decodeAddress publicKey = .ok address) : address.data.length = 21 := by
  simp only [decodeAddress, except_bind_eq_ok, guardThat_eq_ok, Except.ok.injEq] at h
  obtain ⟨_, _, rfl⟩ := h
  simp [Crypto.keccak256_length]

def KeystoreKey.rekeyPayload (key : KeystoreKey) (password : Text) : Except Failure (List UInt8) :=
  match key.type with
  | .encryptedKey => key.privateKey password
  | .hierarchicalDeterministicWallet => do
    let secret ← key.decrypt password
    let (mnemonic, passphrase) ← splitMnemonicPayload secret
    makeMnemonicPayload mnemonic passphrase

structure Opens (key : KeystoreKey) (password : Text) (sk : List UInt8) : Prop where
  privateKey : key.privateKey password = .ok sk
  valid : EthereumCrypto.isValidPrivateKey sk = true
  address : decodeAddress (EthereumCrypto.getPublicKey sk) = .ok key.address

structure SameWallet (key : KeystoreKey) (password : Text) (newKey : KeystoreKey) (newPassword : Text)
    (sk : List UInt8) : Prop where
  type : newKey.type = key.type
  address : newKey.address = key.address
  privateKey : newKey.privateKey newPassword = .ok sk
  derivationPath : key.type = .hierarchicalDeterministicWallet → newKey.derivationPath = key.derivationPath
  payload : key.type = .hierarchicalDeterministicWallet → ∃ secret newSecret mnemonic passphrase,
    key.decrypt password = .ok secret ∧ splitMnemonicPayload secret = .ok (mnemonic, passphrase) ∧
      newKey.decrypt newPassword = .ok newSecret ∧ splitMnemonicPayload newSecret = .ok (mnemonic, passphrase)

theorem Opens.getPublicKey {key : KeystoreKey} {password : Text} {sk : List UInt8} (h : Opens key password sk) :
    decodeAddress (Crypto.publicKey65 sk) = .ok key.address := by
  have ha := h.address
  rwa [EthereumCrypto.getPublicKey, if_pos h.valid] at ha

theorem SameWallet.opens {key newKey : KeystoreKey} {password newPassword : Text} {sk : List UInt8}
    (h : SameWallet key password newKey newPassword sk) (ho : Opens key password sk) :
    Opens newKey newPassword sk where
  privateKey := h.privateKey
  valid := ho.valid
  address := by rw [h.address, ho.address]

theorem SameWallet.trans {key key₁ key₂ : KeystoreKey} {password password₁ password₂ : Text} {sk : List UInt8}
    (h₁ : SameWallet key password key₁ password₁ sk) (h₂ : SameWallet key₁ password₁ key₂ password₂ sk) :
    SameWallet key password key₂ password₂ sk where
  type := h₂.type.trans h₁.type
  address := h₂.address.trans h₁.address
  privateKey := h₂.privateKey
  derivationPath ht := (h₂.derivationPath (h₁.type.trans ht)).trans (h₁.derivationPath ht)
  payload ht := by
    obtain ⟨secret, s₁, mnemonic, passphrase, hd, hs, hd₁, hs₁⟩ := h₁.payload ht
    obtain ⟨s₁', s₂, m, p, hd₁', hs₁', hd₂, hs₂⟩ := h₂.payload (h₁.type.trans ht)
    rw [hd₁, Except.ok.injEq] at hd₁'
    rw [← hd₁', hs₁, Except.ok.injEq, Prod.mk.injEq] at hs₁'
    obtain ⟨rfl, rfl⟩ := hs₁'
    exact ⟨secret, s₂, mnemonic, passphrase, hd, hs, hd₂, hs₂⟩

theorem ofPrivateKey_opens {draws : Draws} {sk : List UInt8} {address : Address} (newPassword : Text)
    (hv : EthereumCrypto.isValidPrivateKey sk = true)
    (ha : decodeAddress (EthereumCrypto.getPublicKey sk) = .ok address)
    (hc : draws.cipherParams.HasCTRCapacity sk.length) :
    ∃ newKey, KeystoreKey.ofPrivateKey draws newPassword sk = .ok newKey ∧ newKey.Storable ∧
      newKey.type = .encryptedKey ∧ newKey.address = address ∧ newKey.privateKey newPassword = .ok sk := by
  obtain ⟨crypto, hcrypto⟩ := encrypting_of_capacity newPassword hc
  have hlen : sk.length = 32 := by
    simp only [EthereumCrypto.isValidPrivateKey, Bool.and_eq_true, decide_eq_true_eq] at hv
    exact hv.1.1
  have hl := decodeAddress_length ha
  let newKey : KeystoreKey :=
    { address, type := .encryptedKey, id := some draws.id, crypto, derivationPath := Wallet.defaultPath, version := 3 }
  have hdec : newKey.decrypt newPassword = .ok sk := decrypt_encrypting hcrypto
  refine ⟨newKey, ?_, ⟨?_, ?_, ?_⟩, rfl, rfl, ?_⟩
  · rw [KeystoreKey.ofPrivateKey, guardThat_of ⟨hlen, hv⟩, except_ok_bind, hcrypto, except_ok_bind, ha]
    rfl
  · simp [newKey]
  · change address.data.length ≤ 32
    omega
  · intro _
    rfl
  · rw [KeystoreKey.privateKey, hdec, except_ok_bind, KeystoreKey.privateKeyIn]
    change Except.ok (sk.take 32) = _
    rw [List.take_of_length_le (Nat.le_of_eq hlen)]

theorem preserving_opens {draws : Draws} {mnemonic passphrase path : Text} {data sk : List UInt8}
    {address : Address} (newPassword : Text) (hne : mnemonic ≠ [])
    (hm : makeMnemonicPayload mnemonic passphrase = .ok data)
    (hk : Wallet.privateKey mnemonic passphrase path .legacy = .ok sk)
    (ha : decodeAddress (Crypto.publicKey65 sk) = .ok address)
    (hc : draws.cipherParams.HasCTRCapacity data.length) :
    ∃ newKey, KeystoreKey.preservingStoredMnemonic draws newPassword mnemonic passphrase path = .ok newKey ∧
      newKey.Storable ∧ newKey.type = .hierarchicalDeterministicWallet ∧ newKey.address = address ∧
        newKey.derivationPath = path ∧ newKey.decrypt newPassword = .ok data ∧
          newKey.privateKey newPassword = .ok sk := by
  obtain ⟨crypto, hcrypto⟩ := encrypting_of_capacity newPassword hc
  have hl := decodeAddress_length ha
  have hpass : Mnemonic.validatePassphrase passphrase .legacy = .ok () := by
    simp only [Wallet.privateKey, Mnemonic.deriveSeed, except_bind_eq_ok] at hk
    obtain ⟨_, ⟨_, _, _, hv, _⟩, _⟩ := hk
    exact hv
  let newKey : KeystoreKey :=
    { address, type := .hierarchicalDeterministicWallet, id := some draws.id, crypto, derivationPath := path, version := 3 }
  have hdec : newKey.decrypt newPassword = .ok data := decrypt_encrypting hcrypto
  refine ⟨newKey, ?_, ⟨?_, ?_, ?_⟩, rfl, rfl, rfl, hdec, ?_⟩
  · rw [KeystoreKey.preservingStoredMnemonic, hpass, except_ok_bind, hm, except_ok_bind, hcrypto, except_ok_bind, hk,
      except_ok_bind, ha]
    rfl
  · simp [newKey]
  · change address.data.length ≤ 32
    omega
  · simp [newKey]
  · rw [KeystoreKey.privateKey, hdec, except_ok_bind, KeystoreKey.privateKeyIn]
    change (do
      let (mnemonic, passphrase) ← splitMnemonicPayload data
      Wallet.privateKey mnemonic passphrase path .legacy) = _
    rw [split_of_makeMnemonicPayload hne hm]
    exact hk

theorem Opens.mnemonic {key : KeystoreKey} {password : Text} {sk : List UInt8} (h : Opens key password sk)
    (ht : key.type = .hierarchicalDeterministicWallet) : ∃ secret mnemonic passphrase,
      key.decrypt password = .ok secret ∧ splitMnemonicPayload secret = .ok (mnemonic, passphrase) ∧
        Wallet.privateKey mnemonic passphrase key.derivationPath .legacy = .ok sk := by
  have hk := h.privateKey
  simp only [KeystoreKey.privateKey, KeystoreKey.privateKeyIn, ht, except_bind_eq_ok, Prod.exists] at hk
  obtain ⟨secret, hd, mnemonic, passphrase, hs, hw⟩ := hk
  exact ⟨secret, mnemonic, passphrase, hd, hs, hw⟩

theorem rekey_preserves {draws : Draws} {key : KeystoreKey} {password : Text} {sk : List UInt8} (newPassword : Text)
    (h : Opens key password sk)
    (hc : ∀ payload, key.rekeyPayload password = .ok payload → draws.cipherParams.HasCTRCapacity payload.length) :
    ∃ newKey, KeystoreKey.rekey draws key password newPassword key.derivationPath = .ok newKey ∧ newKey.Storable ∧
      SameWallet key password newKey newPassword sk := by
  cases ht : key.type with
  | encryptedKey =>
    rw [KeystoreKey.rekeyPayload, ht] at hc
    obtain ⟨newKey, hn, hst, htype, haddr, hopen⟩ := ofPrivateKey_opens newPassword h.valid h.address (hc sk h.privateKey)
    refine ⟨newKey, ?_, hst, htype.trans ht.symm, haddr, hopen, ?_, ?_⟩
    · rw [KeystoreKey.rekey, ht]
      change (key.privateKey password >>= _) = _
      rw [h.privateKey]
      exact hn
    · intro hd
      rw [ht] at hd
      cases hd
    · intro hd
      rw [ht] at hd
      cases hd
  | hierarchicalDeterministicWallet =>
    obtain ⟨secret, mnemonic, passphrase, hd, hs, hw⟩ := h.mnemonic ht
    obtain ⟨hne, hm⟩ := makeMnemonicPayload_of_split hs
    have hcap := hc _ (by rw [KeystoreKey.rekeyPayload, ht]; change (key.decrypt password >>= _) = _; rw [hd, except_ok_bind, hs]; exact hm)
    obtain ⟨newKey, hn, hst, htype, haddr, hpath, hdec, hopen⟩ :=
      preserving_opens newPassword hne hm hw h.getPublicKey hcap
    refine ⟨newKey, ?_, hst, htype.trans ht.symm, haddr, hopen, fun _ => hpath, fun _ => ?_⟩
    · rw [KeystoreKey.rekey, ht]
      change (key.decrypt password >>= _) = _
      rw [hd, except_ok_bind, hs]
      exact hn
    · exact ⟨secret, _, mnemonic, passphrase, hd, hs, hdec, split_of_makeMnemonicPayload hne hm⟩

theorem SameWallet.rekeyPayload {key newKey : KeystoreKey} {password newPassword : Text} {sk : List UInt8}
    (h : SameWallet key password newKey newPassword sk) (ho : Opens key password sk) :
    newKey.rekeyPayload newPassword = key.rekeyPayload password := by
  have htype := h.type
  cases ht : key.type with
  | encryptedKey =>
    rw [KeystoreKey.rekeyPayload, KeystoreKey.rekeyPayload, htype, ht]
    exact h.privateKey.trans ho.privateKey.symm
  | hierarchicalDeterministicWallet =>
    obtain ⟨secret, newSecret, mnemonic, passphrase, hd, hs, hd', hs'⟩ := h.payload ht
    rw [KeystoreKey.rekeyPayload, KeystoreKey.rekeyPayload, htype, ht]
    dsimp only
    rw [hd, hd', except_ok_bind, except_ok_bind, hs, hs']

def ValidMnemonic (key : KeystoreKey) (password : Text) : Prop :=
  key.type = .hierarchicalDeterministicWallet → ∀ secret mnemonic passphrase, key.decrypt password = .ok secret →
    splitMnemonicPayload secret = .ok (mnemonic, passphrase) → Mnemonic.isValid mnemonic = true

theorem SameWallet.validMnemonic {key newKey : KeystoreKey} {password newPassword : Text} {sk : List UInt8}
    (h : SameWallet key password newKey newPassword sk) (hv : ValidMnemonic key password) :
    ValidMnemonic newKey newPassword := by
  intro ht secret mnemonic passphrase hd hs
  have ht' := h.type.symm.trans ht
  obtain ⟨s, s', m, p, hd₁, hs₁, hd₂, hs₂⟩ := h.payload ht'
  rw [hd, Except.ok.injEq] at hd₂
  rw [← hd₂, hs, Except.ok.injEq, Prod.mk.injEq] at hs₂
  rw [hs₂.1]
  exact hv ht' s m p hd₁ hs₁

theorem reimport_eq_rekey {draws : Draws} {key : KeystoreKey} {password newPassword : Text} {sk : List UInt8}
    (h : Opens key password sk) (hv : ValidMnemonic key password) :
    KeystoreKey.reimport draws key password newPassword =
      KeystoreKey.rekey draws key password newPassword key.derivationPath := by
  cases ht : key.type with
  | encryptedKey => rw [KeystoreKey.reimport, KeystoreKey.rekey, ht]
  | hierarchicalDeterministicWallet =>
    obtain ⟨secret, mnemonic, passphrase, hd, hs, _⟩ := h.mnemonic ht
    have hvalid := hv ht secret mnemonic passphrase hd hs
    rw [KeystoreKey.reimport, KeystoreKey.rekey, ht]
    dsimp only
    rw [hd, except_ok_bind, except_ok_bind, hs, except_ok_bind, except_ok_bind]
    dsimp only
    rw [guardThat_of hvalid, except_ok_bind, KeystoreKey.ofMnemonic]
    change (do
      guardThat (Mnemonic.isValid mnemonic = true) (Failure.encrypt .invalidMnemonic)
      Mnemonic.validatePassphrase passphrase .legacy
      KeystoreKey.preservingStoredMnemonic draws newPassword mnemonic passphrase key.derivationPath) = _
    rw [guardThat_of hvalid, except_ok_bind, KeystoreKey.preservingStoredMnemonic]
    cases Mnemonic.validatePassphrase passphrase .legacy with
    | error e => rfl
    | ok u => rfl

theorem ofPrivateKey_storable {draws : Draws} {password : Text} {sk : List UInt8} {key : KeystoreKey}
    (h : KeystoreKey.ofPrivateKey draws password sk = .ok key) : key.Storable := by
  simp only [KeystoreKey.ofPrivateKey, except_bind_eq_ok, Except.ok.injEq] at h
  obtain ⟨_, _, crypto, _, address, ha, rfl⟩ := h
  have hl := decodeAddress_length ha
  refine ⟨by simp, ?_, fun _ => rfl⟩
  change address.data.length ≤ 32
  omega

theorem preserving_eq_ok {draws : Draws} {password mnemonic passphrase path : Text} {key : KeystoreKey}
    (h : KeystoreKey.preservingStoredMnemonic draws password mnemonic passphrase path = .ok key) :
    key.Storable ∧ ∃ sk, Wallet.privateKey mnemonic passphrase path .legacy = .ok sk ∧
      decodeAddress (Crypto.publicKey65 sk) = .ok key.address := by
  simp only [KeystoreKey.preservingStoredMnemonic, except_bind_eq_ok, Except.ok.injEq] at h
  obtain ⟨_, _, data, _, crypto, _, sk, hsk, address, ha, rfl⟩ := h
  have hl := decodeAddress_length ha
  refine ⟨⟨by simp, ?_, by simp⟩, sk, hsk, ha⟩
  change address.data.length ≤ 32
  omega

theorem ofMnemonic_eq_ok {draws : Draws} {password mnemonic passphrase path : Text} {normalization : Normalization}
    {key : KeystoreKey} (h : KeystoreKey.ofMnemonic draws password mnemonic passphrase path normalization = .ok key) :
    KeystoreKey.preservingStoredMnemonic draws password (Mnemonic.normalize mnemonic normalization)
      (Mnemonic.normalize passphrase normalization) path = .ok key := by
  simp only [KeystoreKey.ofMnemonic, except_bind_eq_ok] at h
  obtain ⟨_, _, _, _, h⟩ := h
  exact h

theorem generate_storable {draws : Draws} {password : Text} {type : AccountType} {key : KeystoreKey}
    (h : KeystoreKey.generate draws password type = .ok key) : key.Storable := by
  cases type with
  | encryptedKey => cases h
  | hierarchicalDeterministicWallet =>
    simp only [KeystoreKey.generate, except_bind_eq_ok] at h
    obtain ⟨_, _, h⟩ := h
    exact (preserving_eq_ok (ofMnemonic_eq_ok h)).1

theorem rekey_storable {draws : Draws} {key newKey : KeystoreKey} {password newPassword path : Text}
    (h : KeystoreKey.rekey draws key password newPassword path = .ok newKey) : newKey.Storable := by
  unfold KeystoreKey.rekey at h
  split at h
  · rw [except_bind_eq_ok] at h
    obtain ⟨_, _, h⟩ := h
    exact ofPrivateKey_storable h
  · simp only [except_bind_eq_ok, Prod.exists] at h
    obtain ⟨_, _, _, _, _, h⟩ := h
    exact (preserving_eq_ok h).1

theorem reimport_storable {draws : Draws} {key newKey : KeystoreKey} {password newPassword : Text}
    (h : KeystoreKey.reimport draws key password newPassword = .ok newKey) : newKey.Storable := by
  unfold KeystoreKey.reimport at h
  split at h
  · rw [except_bind_eq_ok] at h
    obtain ⟨_, _, h⟩ := h
    exact ofPrivateKey_storable h
  · simp only [except_bind_eq_ok, Prod.exists] at h
    obtain ⟨_, _, _, _, _, _, _, h⟩ := h
    exact (preserving_eq_ok (ofMnemonic_eq_ok h)).1

theorem privateKey_normalize {mnemonic passphrase path : Text} {normalization : Normalization} {sk sk' : List UInt8}
    (h : Wallet.privateKey mnemonic passphrase path normalization = .ok sk)
    (h' : Wallet.privateKey (Mnemonic.normalize mnemonic normalization) (Mnemonic.normalize passphrase normalization)
      path .legacy = .ok sk') : sk = sk' := by
  simp only [Wallet.privateKey, Mnemonic.deriveSeed, except_bind_eq_ok, unlessNone_eq_ok] at h h'
  obtain ⟨seed, ⟨_, _, _, _, hseed⟩, hsk⟩ := h
  obtain ⟨seed', ⟨_, _, _, _, hseed'⟩, hsk'⟩ := h'
  -- `normalize` leaves its own results alone under `.legacy`.
  have hseeds : some seed = some seed' := hseed.symm.trans hseed'
  rw [Option.some.inj hseeds, hsk', Option.some.injEq] at hsk
  exact hsk.symm

theorem ofMnemonic_address {draws : Draws} {password mnemonic passphrase path : Text} {normalization : Normalization}
    {sk : List UInt8} {address : Address} {key : KeystoreKey}
    (hsk : Wallet.privateKey mnemonic passphrase path normalization = .ok sk)
    (ha : decodeAddress (Crypto.publicKey65 sk) = .ok address)
    (h : KeystoreKey.ofMnemonic draws password mnemonic passphrase path normalization = .ok key) :
    key.address = address := by
  obtain ⟨_, sk', hsk', ha'⟩ := preserving_eq_ok (ofMnemonic_eq_ok h)
  rw [← privateKey_normalize hsk hsk', ha, Except.ok.injEq] at ha'
  exact ha'.symm

end

end TronlinkCore.Keystore
