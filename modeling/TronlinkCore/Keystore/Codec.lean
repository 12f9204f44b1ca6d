import TronlinkCore.Keystore.Rekeying

namespace TronlinkCore.Keystore

open Exceptions Text BigEndian Container

variable {Document : Type}

theorem decodeType_eq_ok {values : Container} {type : AccountType} {derivationPath : Text}
    (h : decodeType values = .ok (type, derivationPath)) : type = .encryptedKey → derivationPath = Wallet.defaultPath := by
  rw [decodeType, except_bind_eq_ok] at h
  obtain ⟨text, _, h⟩ := h
  split at h
  · rw [except_bind_eq_ok] at h
    obtain ⟨_, _, h⟩ := h
    cases h
    intro ht
    cases ht
  · cases h
    exact fun _ => rfl

theorem decode_eq_ok [JsonCoder Document] [Graphemes] {data : Document} {key : KeystoreKey} (h : KeystoreKey.decode data = .ok key) :
    key.id ≠ none ∧ (key.type = .encryptedKey → key.derivationPath = Wallet.defaultPath) := by
  unfold KeystoreKey.decode at h
  split at h
  · simp only [KeystoreKey.decodeFields, except_bind_eq_ok, Prod.exists, Except.ok.injEq] at h
    obtain ⟨_, _, type, derivationPath, ht, id, _, _, _, _, _, rfl⟩ := h
    exact ⟨by simp, decodeType_eq_ok ht⟩
  · cases h

section

variable [JsonCoder Document] [Crypto] [Graphemes]

inductive KeystoreKey.Built (Document : Type) [JsonCoder Document] [Crypto] [Graphemes] : KeystoreKey → Prop where
  | generate {draws : Draws} {password : Text} {type : AccountType} {key : KeystoreKey} :
    KeystoreKey.generate draws password type = .ok key → Built Document key
  | ofPrivateKey {draws : Draws} {password : Text} {privateKey : List UInt8} {key : KeystoreKey} :
    KeystoreKey.ofPrivateKey draws password privateKey = .ok key → Built Document key
  | ofMnemonic {draws : Draws} {password mnemonic passphrase derivationPath : Text} {normalization : Normalization}
    {key : KeystoreKey} :
    KeystoreKey.ofMnemonic draws password mnemonic passphrase derivationPath normalization = .ok key →
    Built Document key
  | preservingStoredMnemonic {draws : Draws} {password mnemonic passphrase derivationPath : Text} {key : KeystoreKey} :
    KeystoreKey.preservingStoredMnemonic draws password mnemonic passphrase derivationPath = .ok key →
    Built Document key
  | decode {data : Document} {key : KeystoreKey} : KeystoreKey.decode data = .ok key → Built Document key

/-- Only the length of the address is not checked. -/
theorem KeystoreKey.Built.storable {key : KeystoreKey} (h : key.Built Document) (ha : key.address.data.length ≤ 32) :
    key.Storable := by
  cases h with
  | generate hkey => exact generate_storable hkey
  | ofPrivateKey hkey => exact ofPrivateKey_storable hkey
  | ofMnemonic hkey => exact (preserving_eq_ok (ofMnemonic_eq_ok hkey)).1
  | preservingStoredMnemonic hkey => exact (preserving_eq_ok hkey).1
  | decode hkey =>
    obtain ⟨hid, hpath⟩ := decode_eq_ok hkey
    exact ⟨hid, ha, hpath⟩

theorem length_of_dataOfHexString_eip55 {address : Address} {bytes : List UInt8}
    (h : Abi.dataOfHexString (drop0x address.eip55String) = some bytes) : bytes.length ≤ 32 := by
  let digits := List.zipWith eip55Digit (hex address.data) (hex (Crypto.keccak256 (utf8 (hex address.data))))
  have hdigits : digits.length ≤ 64 := by
    rw [List.length_zipWith, hex_length, hex_length, Crypto.keccak256_length]
    exact Nat.min_le_right _ _
  have hstring : (drop0x address.eip55String).length ≤ 64 := by
    rw [show address.eip55String = '0' :: 'x' :: digits from rfl, drop0x]
    split
    · exact hdigits
    · rename_i hshort
      have hempty : ¬ 2 < ('0' :: 'x' :: digits).length := fun hlong => hshort ⟨hlong, rfl⟩
      omega
  have hlength := ofHexPairs_length h
  split at hlength
  · rw [List.length_drop] at hlength
    omega
  · omega

theorem address_length_of_decode_encode {key key' : KeystoreKey}
    (h : KeystoreKey.decode (key.encode : Document) = .ok key') : key'.address.data.length ≤ 32 := by
  rw [KeystoreKey.decode, KeystoreKey.encode, JsonCoder.decode_encoded] at h
  simp only [KeystoreKey.decodeFields, except_bind_eq_ok, Prod.exists, Except.ok.injEq] at h
  obtain ⟨bytes, hbytes, _, _, _, _, _, _, _, _, _, rfl⟩ := h
  rw [decodeHexString, decodeString_of rfl, except_ok_bind, unlessNone_eq_ok] at hbytes
  exact length_of_dataOfHexString_eip55 hbytes

theorem decode_encode_iff {key : KeystoreKey} (h : key.Built Document) :
    KeystoreKey.decode (key.encode : Document) = .ok key ↔ key.address.data.length ≤ 32 :=
  ⟨address_length_of_decode_encode, fun ha => KeystoreKey.decode_encoded (h.storable ha)⟩

end

section

attribute [local instance] knownAnswers plainFiles plainText

theorem decode_encode_iff_sample :
    KeystoreKey.decode (sampleKey.encode : Option Json) = .ok sampleKey ↔ sampleKey.address.data.length ≤ 32 :=
  decode_encode_iff (.ofPrivateKey (show KeystoreKey.ofPrivateKey (sampleDraws []) "p".toList (toBytes 32 1) = .ok sampleKey by
    decide +kernel))

def longAddressFile : Option Json :=
  some (.object (("address".toList, .string (List.replicate 66 '0')) :: sampleKey.encodeFields.tail))

theorem long_address_is_cut :
    ¬ ∀ key : KeystoreKey, key.Built (Option Json) → KeystoreKey.decode (key.encode : Option Json) = .ok key := by
  intro h
  let key := { sampleKey with address := ⟨List.replicate 33 0⟩ }
  have hkey : KeystoreKey.decode longAddressFile = .ok key := by decide +kernel
  exact absurd (h key (.decode hkey)) (by decide +kernel)

end

end TronlinkCore.Keystore
