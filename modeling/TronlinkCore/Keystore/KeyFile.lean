import TronlinkCore.Abi.Values
import TronlinkCore.Keystore.KeystoreKey

namespace TronlinkCore.Keystore

open Exceptions Text

inductive Json where
  | null
  | string (value : Text)
  /-- A number that is an `Int` -/
  | int (value : Int64)
  | object (fields : List (Text × Json))
  | other

/-- The bytes of files: `JSONDecoder` reads back what `JSONEncoder` wrote. -/
class JsonCoder (Document : Type) where
  empty : Document
  encode : Json → Document
  decode : Document → Option Json
  decode_encoded : ∀ json, decode (encode json) = some json

@[reducible]
def plainFiles : JsonCoder (Option Json) := ⟨none, some, id, fun _ => rfl⟩

abbrev Container := List (Text × Json)

namespace Container

variable (values : Container)

def field (key : Text) : Option Json := values.lookup key

def decodeString (key : Text) : Except Failure Text :=
  match field values key with
  | some (.string value) => .ok value
  | _ => .error .decoding

def decodeStringIfPresent (key : Text) : Except Failure (Option Text) :=
  match field values key with
  | none | some .null => .ok none
  | some (.string value) => .ok (some value)
  | some _ => .error .decoding

def decodeInt (key : Text) : Except Failure Int64 :=
  match field values key with
  | some (.int value) => .ok value
  | _ => .error .decoding

def decodeObject (key : Text) : Except Failure Container :=
  match field values key with
  | some (.object fields) => .ok fields
  | _ => .error .decoding

def decodeHexString [Graphemes] (key : Text) : Except Failure (List UInt8) := do
  let hexString ← decodeString values key
  unlessNone .decoding (Abi.dataOfHexString hexString)

end Container

open Container

section

variable [Graphemes]

def CipherParams.decode (values : Container) : Except Failure CipherParams := do
  let iv ← decodeHexString values "iv".toList
  .ok ⟨iv⟩

def ScryptParams.decode (values : Container) : Except Failure ScryptParams := do
  let salt ← decodeHexString values "salt".toList
  let desiredKeyLength ← decodeInt values "dklen".toList
  let n ← decodeInt values "n".toList
  let p ← decodeInt values "p".toList
  let r ← decodeInt values "r".toList
  .ok { salt, desiredKeyLength, n, p, r }

def KeystoreKeyHeader.decode (values : Container) : Except Failure KeystoreKeyHeader := do
  let cipherText ← decodeHexString values "ciphertext".toList
  let cipher ← decodeString values "cipher".toList
  let cipherParams ← decodeObject values "cipherparams".toList
  let cipherParams ← CipherParams.decode cipherParams
  let kdf ← decodeString values "kdf".toList
  let kdfParams ← decodeObject values "kdfparams".toList
  let kdfParams ← ScryptParams.decode kdfParams
  let mac ← decodeHexString values "mac".toList
  .ok { cipherText, cipher, cipherParams, kdf, kdfParams, mac }

def decodeHeader (values : Container) (key : Text) : Except Failure KeystoreKeyHeader := do
  let fields ← decodeObject values key
  KeystoreKeyHeader.decode fields

/-- `try?` on the usual field, then the field of MyEtherWallet files -/
def decodeCrypto (values : Container) : Except Failure KeystoreKeyHeader :=
  match decodeHeader values "crypto".toList with
  | .ok crypto => .ok crypto
  | .error _ => decodeHeader values "Crypto".toList

def decodeType (values : Container) : Except Failure (AccountType × Text) := do
  let type ← decodeStringIfPresent values "type".toList
  if type = some "mnemonic".toList then do
    let derivationPath ← decodeStringIfPresent values "derivationPath".toList
    .ok (.hierarchicalDeterministicWallet, derivationPath.getD Wallet.defaultPath)
  else .ok (.encryptedKey, Wallet.defaultPath)

def KeystoreKey.decodeFields (values : Container) : Except Failure KeystoreKey := do
  let address ← decodeHexString values "address".toList
  let (type, derivationPath) ← decodeType values
  let id ← decodeString values "id".toList
  let crypto ← decodeCrypto values
  let version ← decodeInt values "version".toList
  .ok { address := ⟨address⟩, type, id := some id, crypto, derivationPath, version }

def KeystoreKey.decode {Document : Type} [JsonCoder Document] (data : Document) : Except Failure KeystoreKey :=
  match JsonCoder.decode data with
  | some (.object values) => KeystoreKey.decodeFields values
  | _ => .error .decoding

end

def CipherParams.encode (params : CipherParams) : Json := .object [("iv".toList, .string (hex params.iv))]

def ScryptParams.encode (params : ScryptParams) : Json :=
  .object [("salt".toList, .string (hex params.salt)), ("dklen".toList, .int params.desiredKeyLength),
    ("n".toList, .int params.n), ("p".toList, .int params.p), ("r".toList, .int params.r)]

def KeystoreKeyHeader.encode (header : KeystoreKeyHeader) : Json :=
  .object [("ciphertext".toList, .string (hex header.cipherText)), ("cipher".toList, .string header.cipher),
    ("cipherparams".toList, header.cipherParams.encode), ("kdf".toList, .string header.kdf),
    ("kdfparams".toList, header.kdfParams.encode), ("mac".toList, .string (hex header.mac))]

def eip55Digit (a h : Char) : Char :=
  if '0' ≤ a ∧ a ≤ '9' then a else if h = '8' ∨ h = '9' ∨ ('a' ≤ h ∧ h ≤ 'f') then a.toUpper else a.toLower

def Address.eip55String [Crypto] (address : Address) : Text :=
  let addressString := hex address.data
  let hash := hex (Crypto.keccak256 (utf8 addressString))
  "0x".toList ++ List.zipWith eip55Digit addressString hash

def Address.ofEip55 [Graphemes] [Crypto] (string : Text) : Option Address := do
  let data ← Abi.dataOfHexString string
  guard (data.length = 20)
  let address : Address := { data }
  if address.eip55String ≠ string then none else some address

def drop0x (string : Text) : Text :=
  if 2 < string.length ∧ string.take 2 = "0x".toList then string.drop 2 else string

namespace KeystoreKey

variable [Crypto]

def encodeFields (key : KeystoreKey) : Container :=
  ("address".toList, .string (drop0x key.address.eip55String)) ::
    (match key.type with
      | .encryptedKey => [("type".toList, .string "private-key".toList)]
      | .hierarchicalDeterministicWallet =>
        [("type".toList, .string "mnemonic".toList), ("derivationPath".toList, .string key.derivationPath)]) ++
    [("id".toList, match key.id with | some id => .string id | none => .null), ("crypto".toList, key.crypto.encode),
      ("version".toList, .int key.version)]

def encode {Document : Type} [JsonCoder Document] (key : KeystoreKey) : Document :=
  JsonCoder.encode (.object key.encodeFields)

end KeystoreKey

theorem decodeString_of {values : Container} {key string : Text} (h : field values key = some (.string string)) :
    decodeString values key = .ok string := by rw [decodeString, h]

theorem decodeObject_of {values fields : Container} {key : Text} (h : field values key = some (.object fields)) :
    decodeObject values key = .ok fields := by rw [decodeObject, h]

theorem digitValue_eip55Digit {n : ℕ} (hn : n < 16) (h : Char) : digitValue (eip55Digit (hexDigit n) h) = some n := by
  have hall : ∀ n < 16, digitValue (hexDigit n) = some n ∧ digitValue (hexDigit n).toUpper = some n ∧
      digitValue (hexDigit n).toLower = some n := by decide
  obtain ⟨h1, h2, h3⟩ := hall n hn
  unfold eip55Digit
  split
  · exact h1
  · split
    · exact h2
    · exact h3

theorem ofHexPairs_eip55 (bytes : List UInt8) (hash : Text) (h : 2 * bytes.length ≤ hash.length) :
    ofHexPairs (List.zipWith eip55Digit (hex bytes) hash) = some bytes := by
  induction bytes generalizing hash with
  | nil => rfl
  | cons b bs ih =>
    match hash, h with
    | h1 :: h2 :: rest, h =>
      have hb : b.toNat < 256 := b.toNat_lt
      have hsum : b.toNat / 16 * 16 + b.toNat % 16 = b.toNat := by omega
      have hrest := ih rest (by simp only [List.length_cons] at h; omega)
      rw [hex] at hrest
      rw [hex, List.flatMap_cons, List.cons_append, List.cons_append, List.nil_append, List.zipWith_cons_cons,
        List.zipWith_cons_cons, ofHexPairs, digitValue_eip55Digit (by omega), digitValue_eip55Digit (by omega), hrest]
      change some (UInt8.ofNat (b.toNat / 16 * 16 + b.toNat % 16) :: bs) = some (b :: bs)
      rw [hsum, UInt8.ofNat_toNat]
    | [_], h => simp only [List.length_cons, List.length_nil] at h; omega
    | [], h => simp only [List.length_cons, List.length_nil] at h; omega

section

variable [Graphemes]

theorem dataOfHexString_hex (bytes : List UInt8) : Abi.dataOfHexString (hex bytes) = some bytes := by
  have h : hasPrefix (hex bytes) "0x".toList = false := Abi.hex_not_hasPrefix bytes (.inl rfl)
  rw [Abi.dataOfHexString, h]
  exact ofHexPairs_hex bytes

theorem decodeHexString_of {values : Container} {key string : Text} {bytes : List UInt8}
    (h : field values key = some (.string string)) (hs : Abi.dataOfHexString string = some bytes) :
    decodeHexString values key = .ok bytes := by
  rw [decodeHexString, decodeString_of h, except_ok_bind, hs]
  rfl

theorem decodeHexString_hex {values : Container} {key : Text} {bytes : List UInt8}
    (h : field values key = some (.string (hex bytes))) : decodeHexString values key = .ok bytes :=
  decodeHexString_of h (dataOfHexString_hex bytes)

theorem cipherParams_decode (params : CipherParams) (fields : Container) (h : params.encode = .object fields) :
    CipherParams.decode fields = .ok params := by
  cases h
  rw [CipherParams.decode, decodeHexString_hex rfl]
  rfl

theorem scryptParams_decode (params : ScryptParams) (fields : Container) (h : params.encode = .object fields) :
    ScryptParams.decode fields = .ok params := by
  cases h
  rw [ScryptParams.decode, decodeHexString_hex rfl]
  rfl

theorem header_decode (header : KeystoreKeyHeader) (fields : Container) (h : header.encode = .object fields) :
    KeystoreKeyHeader.decode fields = .ok header := by
  cases h
  rw [KeystoreKeyHeader.decode, decodeHexString_hex rfl, except_ok_bind, decodeString_of rfl, except_ok_bind,
    decodeObject_of rfl, except_ok_bind, cipherParams_decode _ _ rfl, except_ok_bind, decodeString_of rfl,
    except_ok_bind, decodeObject_of rfl, except_ok_bind, scryptParams_decode _ _ rfl, except_ok_bind,
    decodeHexString_hex rfl]
  rfl

theorem dataOfHexString_of_pairs {string : Text} {bytes : List UInt8} (h : ofHexPairs string = some bytes) :
    Abi.dataOfHexString string = some bytes := by
  have hp : hasPrefix string "0x".toList = false := by
    match string, h with
    | [], _ => rfl
    | [_], h => simp [ofHexPairs] at h
    | a :: b :: rest, h =>
      have hb : b ≠ 'x' := by
        rintro rfl
        simp [ofHexPairs, digitValue] at h
      simp [hasPrefix, hb.symm]
  rw [Abi.dataOfHexString, hp]
  exact h

theorem dataOfHexString_eip55 [Crypto] {address : Address} (h : address.data.length ≤ 32) :
    Abi.dataOfHexString (drop0x address.eip55String) = some address.data := by
  have hpairs : ofHexPairs (List.zipWith eip55Digit (hex address.data)
      (hex (Crypto.keccak256 (utf8 (hex address.data))))) = some address.data := by
    apply ofHexPairs_eip55
    rw [hex_length, Crypto.keccak256_length]
    omega
  have hread := dataOfHexString_of_pairs hpairs
  rw [Address.eip55String, drop0x]
  split
  · exact hread
  · rename_i hshort
    cases hz : List.zipWith eip55Digit (hex address.data) (hex (Crypto.keccak256 (utf8 (hex address.data)))) with
    | nil =>
      rw [hz] at hread
      exact hread
    | cons c cs =>
      rw [hz] at hshort
      exact absurd ⟨by simp, rfl⟩ hshort

/-- What holds of every key that the store makes itself. -/
structure KeystoreKey.Storable (key : KeystoreKey) : Prop where
  id : key.id ≠ none
  address : key.address.data.length ≤ 32
  derivationPath : key.type = .encryptedKey → key.derivationPath = Wallet.defaultPath

theorem KeystoreKey.decode_encoded [Crypto] {Document : Type} [JsonCoder Document] {key : KeystoreKey}
    (h : key.Storable) : KeystoreKey.decode (key.encode : Document) = .ok key := by
  obtain ⟨address, type, id, crypto, derivationPath, version⟩ := key
  obtain ⟨hid, haddress, hpath⟩ := h
  have haddress := dataOfHexString_eip55 haddress
  have hcrypto := header_decode crypto _ rfl
  cases id with
  | none => exact absurd rfl hid
  | some id =>
    rw [KeystoreKey.decode, KeystoreKey.encode, JsonCoder.decode_encoded]
    cases type with
    | encryptedKey =>
      obtain rfl : derivationPath = Wallet.defaultPath := hpath rfl
      change KeystoreKey.decodeFields _ = _
      rw [KeystoreKey.decodeFields, decodeHexString_of rfl haddress, except_ok_bind,
        show decodeType _ = .ok (.encryptedKey, Wallet.defaultPath) from rfl, except_ok_bind]
      dsimp only
      rw [decodeString_of rfl, except_ok_bind, decodeCrypto, decodeHeader, decodeObject_of rfl, except_ok_bind, hcrypto]
      rfl
    | hierarchicalDeterministicWallet =>
      change KeystoreKey.decodeFields _ = _
      rw [KeystoreKey.decodeFields, decodeHexString_of rfl haddress, except_ok_bind,
        show decodeType _ = .ok (.hierarchicalDeterministicWallet, derivationPath) from rfl, except_ok_bind]
      dsimp only
      rw [decodeString_of rfl, except_ok_bind, decodeCrypto, decodeHeader, decodeObject_of rfl, except_ok_bind, hcrypto]
      rfl

end

end TronlinkCore.Keystore
