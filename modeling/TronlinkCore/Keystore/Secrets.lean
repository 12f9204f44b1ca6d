import TronlinkCore.Library.BigEndian
import TronlinkCore.Library.Exceptions
import TronlinkCore.Library.Text
import Mathlib.Tactic.NormNum

namespace TronlinkCore.Keystore

open Exceptions Text BigEndian

inductive ValidationError where
  | desiredKeyLengthTooLarge
  | blockSizeTooLarge
  | invalidCostFactor
  | overflow
  | nonPositiveParameter
  | desiredKeyLengthTooSmall
  | emptySalt
  deriving DecidableEq

inductive DecryptError where
  | unsupportedKDF
  | unsupportedCipher
  | invalidCipher
  | invalidPassword
  | missingAccountKey
  | invalidPublicKey
  | invalidSignature
  deriving DecidableEq

inductive EncryptError where
  | invalidMnemonic
  | generateKeyPairFail
  | extractPrivateKeyFail
  | invalidPrivateKey
  deriving DecidableEq

inductive MnemonicError where
  | invalidStrength
  | generationFailed
  | passphraseTooLong
  | seedDerivationFailed
  deriving DecidableEq

inductive KeyStoreError where
  | accountAlreadyExists
  | accountNotFound
  | invalidMnemonic
  | invalidKey
  deriving DecidableEq

inductive CocoaError where
  | fileNoSuchFile
  | fileReadNoSuchFile
  | fileReadUnknown
  | fileWriteUnknown
  deriving DecidableEq

inductive Failure where
  | scrypt (error : ValidationError)
  | decrypt (error : DecryptError)
  | encrypt (error : EncryptError)
  | mnemonic (error : MnemonicError)
  | keyStore (error : KeyStoreError)
  | cocoa (error : CocoaError)
  | posix
  | decoding
  | invalidInitializationVector
  | aes
  /-- An error of `Wallet` below the seed -/
  | wallet
  deriving DecidableEq

structure CipherParams where
  iv : List UInt8
  deriving DecidableEq

namespace CipherParams

def blockSize : ℕ := 16

def HasCTRCapacity (params : CipherParams) (byteCount : ℕ) : Prop :=
  params.iv.length = blockSize ∧
    (0 < byteCount → (byteCount - 1) / blockSize ≤ 2 ^ 64 - 1 - ofBytes (params.iv.drop 8))

instance (params : CipherParams) (byteCount : ℕ) : Decidable (params.HasCTRCapacity byteCount) :=
  inferInstanceAs (Decidable (_ ∧ _))

def validateCTRCapacity (params : CipherParams) (byteCount : ℕ) : Except Failure Unit :=
  guardThat (params.HasCTRCapacity byteCount) .invalidInitializationVector

end CipherParams

structure ScryptParams where
  salt : List UInt8
  desiredKeyLength : Int64
  n : Int64
  p : Int64
  r : Int64
  deriving DecidableEq

namespace ScryptParams

def maxMemoryBytes : Int64 := 512 * 1024 * 1024

def maxN : Int64 := 1048576

def maxR : Int64 := 64

def maxP : Int64 := 16

def minDesiredKeyLength : Int64 := 32

def maxDesiredKeyLength : Int64 := 1024

def balanced (salt : List UInt8) : ScryptParams where
  salt := salt
  desiredKeyLength := 32
  n := 65536
  p := 1
  r := 8

def validate (params : ScryptParams) : Option ValidationError :=
  if ¬ (1 < params.n ∧ 0 < params.r ∧ 0 < params.p) then some .nonPositiveParameter
  else if params.salt = [] then some .emptySalt
  else if params.desiredKeyLength < minDesiredKeyLength then some .desiredKeyLengthTooSmall
  else if maxDesiredKeyLength < params.desiredKeyLength then some .desiredKeyLengthTooLarge
  else if params.n &&& (params.n - 1) ≠ 0 ∨ maxN < params.n then some .invalidCostFactor
  else if maxR < params.r ∨ maxP < params.p then some .blockSizeTooLarge
  else if maxMemoryBytes / 128 / params.r < params.n then some .overflow
  else none

end ScryptParams

class Crypto where
  scrypt : List UInt8 → ScryptParams → List UInt8
  /-- `AES` in counter mode, with key and initialization vector -/
  encryptCTR : List UInt8 → List UInt8 → List UInt8 → List UInt8
  decryptCTR : List UInt8 → List UInt8 → List UInt8 → List UInt8
  decryptCBC : List UInt8 → List UInt8 → List UInt8 → Option (List UInt8)
  keccak256 : List UInt8 → List UInt8
  /-- `ecdsa_get_public_key65` -/
  publicKey65 : List UInt8 → List UInt8
  mnemonicCheck : List UInt8 → Bool
  /-- `mnemonic_to_seed` of two C strings -/
  mnemonicToSeed : List UInt8 → List UInt8 → Option (List UInt8)
  /-- The private key below a seed at a derivation path -/
  derivedKey : List UInt8 → Text → Option (List UInt8)
  decomposed : Text → Text
  decryptCTR_encryptCTR : ∀ key iv bytes, decryptCTR key iv (encryptCTR key iv bytes) = bytes
  encryptCTR_length : ∀ key iv bytes, (encryptCTR key iv bytes).length = bytes.length
  keccak256_length : ∀ bytes, (keccak256 bytes).length = 32

def masked (mask : List UInt8) : List UInt8 → List UInt8
  | [] => []
  | b :: bs => (b ^^^ mask.headD 0) :: masked mask.tail bs

theorem masked_masked (mask bytes : List UInt8) : masked mask (masked mask bytes) = bytes := by
  induction bytes generalizing mask with
  | nil => rfl
  | cons b bs ih => rw [masked, masked, ih, UInt8.xor_assoc, UInt8.xor_self, UInt8.xor_zero]

theorem masked_length (mask bytes : List UInt8) : (masked mask bytes).length = bytes.length := by
  induction bytes generalizing mask with
  | nil => rfl
  | cons b bs ih => rw [masked, List.length_cons, List.length_cons, ih]

def answer (table : List (ℕ × ℕ)) (question : List UInt8) : List UInt8 :=
  toBytes 32 ((table.lookup (ofBytes question)).getD 0)

namespace KnownAnswers

-- The passwords are "p" and "q", the salt counts from 1 to 32.
def scrypts : List (ℕ × ℕ) :=
  [(0x70, 0x4f05d5dc888d3ca610009254b8765b77e69a79313356a3cb6fb1f3bb353d5496),
    (0x71, 0xa52187195babe3e0835e81f89eb74d97c61a1e56622d45946a16c329ab6d9178)]

-- Two blocks of each key, counted from 0
def keystreams : List (ℕ × ℕ) :=
  [(0x4f05d5dc888d3ca610009254b8765b77, 0x95558f22b2d577f54d849a32c24a2aa1e871fde16afe7a92a5ed78d6a099ccf3),
    (0xa52187195babe3e0835e81f89eb74d97, 0xbe12d96bed2526da61f716eed4d815d7849b15c352d144aca198d02151586270)]

def generator : ℕ :=
  0x79be667ef9dcbbac55a06295ce870b07029bfcdb2dce28d959f2815b16f81798483ada7726a3c4655da4fbfc0e1108a8fd17b448a68554199c47d08ffb10d4b8

-- Of the public key, of its address in hexadecimal, of the two encrypted keys, and
-- of 33 zero bytes in hexadecimal
def hashes : List (ℕ × ℕ) :=
  [(generator, 0xc0a6c424ac7157ae408398df7e5f4552091a69125d5dfcb7b8c2659029395bdf),
    (ofBytes (utf8 "417e5f4552091a69125d5dfcb7b8c2659029395bdf".toList),
      0x841b00a2003fee04429420237c433ccf2e2c2d883bbae7fbc57735fe49cf4e7d),
    (0xe69a79313356a3cb6fb1f3bb353d549695558f22b2d577f54d849a32c24a2aa1e871fde16afe7a92a5ed78d6a099ccf2,
      0xb25b62a3cc4618cb47a72829c07684f9e30de27ef4cbe809aba1a48193f0daca),
    (0xc61a1e56622d45946a16c329ab6d9178be12d96bed2526da61f716eed4d815d7849b15c352d144aca198d02151586271,
      0x0b2058b02bba6a36a12b57ef090f30dc6298d8f91fe70e80ebe67128bc3b6adf),
    (ofBytes (List.replicate 66 0x30), 0x5494a5748468500b3f04a46a036bd497baa92a28b14a07391efd8cf41e52e8ab)]

end KnownAnswers

@[reducible]
def knownAnswers : Crypto where
  scrypt password _ := answer KnownAnswers.scrypts password
  encryptCTR key _ := masked (answer KnownAnswers.keystreams key)
  decryptCTR key _ := masked (answer KnownAnswers.keystreams key)
  decryptCBC _ _ _ := none
  keccak256 := answer KnownAnswers.hashes
  publicKey65 privateKey := if ofBytes privateKey = 1 then 4 :: toBytes 64 KnownAnswers.generator else []
  mnemonicCheck _ := false
  mnemonicToSeed _ _ := none
  derivedKey _ _ := none
  decomposed := id
  decryptCTR_encryptCTR _ _ _ := masked_masked _ _
  encryptCTR_length _ _ _ := masked_length _ _
  keccak256_length _ := toBytes_length _ _

structure Address where
  data : List UInt8
  deriving DecidableEq

section

variable [Crypto]

def calculate (params : ScryptParams) (password : Text) : Except Failure (List UInt8) :=
  match params.validate with
  | some error => .error (.scrypt error)
  | none => .ok (Crypto.scrypt (utf8 password) params)

namespace EthereumCrypto

def curveOrder : ℕ := 0xFFFFFFFFFFFFFFFFFFFFFFFFFFFFFFFEBAAEDCE6AF48A03BBFD25E8CD0364141

def isValidPrivateKey (privateKey : List UInt8) : Bool :=
  privateKey.length = 32 && ofBytes privateKey ≠ 0 && ofBytes privateKey < curveOrder

def getPublicKey (privateKey : List UInt8) : List UInt8 :=
  if isValidPrivateKey privateKey then Crypto.publicKey65 privateKey else []

end EthereumCrypto

inductive Normalization where
  | bip39
  | legacy

namespace Mnemonic

def maxPassphraseByteCount : ℕ := 256

def asciiCString (string : Text) : Option (List UInt8) :=
  if isAscii string then some (utf8 string) else none

def isValid (string : Text) : Bool :=
  if (utf8 string).contains 0 then false
  else
    match asciiCString string with
    | some cString => Crypto.mnemonicCheck cString
    | none => false

def normalize (string : Text) : Normalization → Text
  | .bip39 => Crypto.decomposed string
  | .legacy => string

def validatePassphrase (passphrase : Text) (normalization : Normalization) : Except Failure Unit := do
  guardThat ((utf8 passphrase).length ≤ maxPassphraseByteCount) (.mnemonic .passphraseTooLong)
  match normalization with
  | .bip39 => guardThat ((utf8 passphrase).contains 0 = false) (.mnemonic .seedDerivationFailed)
  | .legacy => .ok ()

def cString (bytes : List UInt8) : List UInt8 := bytes.takeWhile (· ≠ 0)

def deriveSeed (mnemonic passphrase : Text) (normalization : Normalization) : Except Failure (List UInt8) := do
  let mnemonic := normalize mnemonic normalization
  let passphrase := normalize passphrase normalization
  guardThat ((utf8 mnemonic).contains 0 = false) (.mnemonic .seedDerivationFailed)
  validatePassphrase passphrase normalization
  unlessNone (.mnemonic .seedDerivationFailed)
    (Crypto.mnemonicToSeed (cString (utf8 mnemonic)) (cString (utf8 passphrase)))

end Mnemonic

namespace Wallet

def defaultPath : Text := "m/44'/195'/0'/0/0".toList

def privateKey (mnemonic passphrase path : Text) (normalization : Normalization) :
    Except Failure (List UInt8) := do
  let seed ← Mnemonic.deriveSeed mnemonic passphrase normalization
  unlessNone .wallet (Crypto.derivedKey seed path)

end Wallet

def decodeAddress (publicKey : List UInt8) : Except Failure Address := do
  guardThat (publicKey.length = 65 ∧ publicKey.head? = some 4) (.decrypt .invalidPublicKey)
  let sha3 := Crypto.keccak256 (publicKey.drop 1)
  .ok ⟨0x41 :: (sha3.drop 12).take 20⟩

end

namespace ScryptParams

theorem validate_balanced {salt : List UInt8} (h : salt ≠ []) : (balanced salt).validate = none := by
  have costs : ((1 : Int64) < 65536 ∧ (0 : Int64) < 8 ∧ (0 : Int64) < 1) ∧ ¬ (32 : Int64) < minDesiredKeyLength ∧
      ¬ maxDesiredKeyLength < 32 ∧ ¬ ((65536 : Int64) &&& (65536 - 1) ≠ 0 ∨ maxN < 65536) ∧
      ¬ (maxR < 8 ∨ maxP < 1) ∧ ¬ maxMemoryBytes / 128 / 8 < 65536 := by decide
  obtain ⟨h1, h2, h3, h4, h5, h6⟩ := costs
  rw [validate, balanced, if_neg (not_not.mpr h1), if_neg h, if_neg h2, if_neg h3, if_neg h4, if_neg h5, if_neg h6]

end ScryptParams

namespace KnownAnswers

def phrase : Text :=
  "abandon abandon abandon abandon abandon abandon abandon abandon abandon abandon abandon about".toList

def seed : List UInt8 :=
  toBytes 64 0x5eb00bbddcf069084889a8ab9155568165f5c453ccb85e70811aaed6f6da5fc19a5ac40b389cd370d086206dec8aa6c43daea6690f20ad3d8d48b2d2ce9e38e4

def phrasePrivateKey : ℕ := 0xb5a4cea271ff424d7c31dc12a3e43e401df7a40d7412a15750f3f0b6b5449a28

def phrasePublicKey : ℕ :=
  0xff21f8e64d3a3c0198edfbb7afdc79be959432e92e2f8a1984bb436a414b8edcec0345aad0c1bf7da04fd036dd7f9f617e30669224283d950fab9dd84831dc83

-- Six blocks under the password "p"
def phraseKeystream : List UInt8 :=
  toBytes 96 0x95558f22b2d577f54d849a32c24a2aa1e871fde16afe7a92a5ed78d6a099ccf3e3693dc1859703ff2cd377a8fd22defa29d7d7415576ac8075d4d78937742eb7c446930c58205609ef3706bcaa05b39e0e2d6d521f244ef7eea50c82a07a8f23

def phraseHashes : List (ℕ × ℕ) :=
  [(phrasePublicKey, 0x16030ddba3ad8871035229b3c8599111f29c1e1e061265b4af93ea1f274ad78a),
    (ofBytes (utf8 "41c8599111f29c1e1e061265b4af93ea1f274ad78a".toList),
      0x757a731e3a3706175886f9fc8b3a7399b43f5520252150ad29ba727700138fb6),
    (0xe69a79313356a3cb6fb1f3bb353d5496f437ee4cd6ba19d52ce6fb5ca625448189139c8f0e9114b2c48f19b8c4f6a2d3820b5cafe1f86ddf4db116c6994db0da48b5b62f3119c2a014b6b6e7531b4097a524f2623c4f38298e5567d2ce6addbe6f4f0c3c7b4b20d78fc763f7d47a,
      0xb8f0806069d7318d077d6bf3ba9fdcf76f88b136a9bed388932ea2beeffad66b)]

end KnownAnswers

@[reducible]
def phraseAnswers : Crypto where
  scrypt := knownAnswers.scrypt
  encryptCTR _ _ := masked KnownAnswers.phraseKeystream
  decryptCTR _ _ := masked KnownAnswers.phraseKeystream
  decryptCBC := knownAnswers.decryptCBC
  keccak256 := answer (KnownAnswers.hashes ++ KnownAnswers.phraseHashes)
  publicKey65 privateKey :=
    if ofBytes privateKey = KnownAnswers.phrasePrivateKey then 4 :: toBytes 64 KnownAnswers.phrasePublicKey
    else knownAnswers.publicKey65 privateKey
  mnemonicCheck cString := cString = utf8 KnownAnswers.phrase
  mnemonicToSeed cString passphrase :=
    if cString = utf8 KnownAnswers.phrase ∧ passphrase = [] then some KnownAnswers.seed else none
  derivedKey seed path :=
    if seed = KnownAnswers.seed ∧ path = Wallet.defaultPath then some (toBytes 32 KnownAnswers.phrasePrivateKey) else none
  decomposed := id
  decryptCTR_encryptCTR _ _ _ := masked_masked _ _
  encryptCTR_length _ _ _ := masked_length _ _
  keccak256_length _ := toBytes_length _ _

end TronlinkCore.Keystore
