import TronlinkCore.Keystore.Secrets

namespace TronlinkCore.Keystore

open Exceptions Text BigEndian

/-- What a call draws at random. -/
structure Draws where
  iv : List UInt8
  salt : List UInt8
  id : Text
  mnemonic : Text
  timestamp : Text
  temporaryName : Text
  iv_length : iv.length = CipherParams.blockSize
  salt_length : salt.length = 32

namespace Draws

variable (draws : Draws)

def cipherParams : CipherParams := ⟨draws.iv⟩

def kdfParams : ScryptParams := ScryptParams.balanced draws.salt

theorem validate_kdfParams : draws.kdfParams.validate = none := by
  apply ScryptParams.validate_balanced
  intro h
  have hlen := draws.salt_length
  rw [h] at hlen
  cases hlen

end Draws

def sampleDraws (timestamp : Text) : Draws where
  iv := toBytes 16 0
  salt := toBytes 32 0x0102030405060708090a0b0c0d0e0f101112131415161718191a1b1c1d1e1f20
  id := "e621e1f8-c36c-495a-93fc-0c247a3e6e5f".toList
  mnemonic := []
  timestamp := timestamp
  temporaryName := "6BA7B810-9DAD-41D1-80B4-00C04FD430C8".toList
  iv_length := toBytes_length _ _
  salt_length := toBytes_length _ _

def phraseDraws (timestamp : Text) : Draws := { sampleDraws timestamp with mnemonic := KnownAnswers.phrase }

structure KeystoreKeyHeader where
  cipherText : List UInt8
  cipher : Text
  cipherParams : CipherParams
  kdf : Text
  kdfParams : ScryptParams
  mac : List UInt8
  deriving DecidableEq

inductive AccountType where
  | encryptedKey
  | hierarchicalDeterministicWallet
  deriving DecidableEq

structure KeystoreKey where
  address : Address
  type : AccountType
  id : Option Text
  crypto : KeystoreKeyHeader
  derivationPath : Text
  version : Int64
  deriving DecidableEq

def makeMnemonicPayload (mnemonic passphrase : Text) : Except Failure (List UInt8) := do
  guardThat ((utf8 mnemonic).contains 0 = false) (.encrypt .invalidMnemonic)
  let cstring ← unlessNone (.encrypt .invalidMnemonic) (Mnemonic.asciiCString mnemonic)
  .ok (cstring ++ 0 :: utf8 passphrase)

def ofAscii? (bytes : List UInt8) : Option Text := if bytes.all (· < 128) then some (ofAscii bytes) else none

-- Without a zero byte there is only one part.
def splitMnemonicPayload (data : List UInt8) : Except Failure (Text × Text) := do
  let mnemonic ← unlessNone (.encrypt .invalidMnemonic) (ofAscii? (data.takeWhile (· ≠ 0)))
  guardThat (mnemonic ≠ []) (.encrypt .invalidMnemonic)
  match data.dropWhile (· ≠ 0) with
  | [] => .ok (mnemonic, [])
  | _ :: passphrase => do
    let passphrase ← unlessNone (.encrypt .invalidMnemonic) (ofUtf8? passphrase)
    .ok (mnemonic, passphrase)

section

variable [Crypto]

def computeMAC (derivedKey key : List UInt8) : List UInt8 :=
  Crypto.keccak256 (derivedKey.drop (derivedKey.length - 16) ++ key)

/-- `KeystoreKeyHeader(password:data:)` -/
def KeystoreKeyHeader.encrypting (draws : Draws) (password : Text) (data : List UInt8) :
    Except Failure KeystoreKeyHeader := do
  draws.cipherParams.validateCTRCapacity data.length
  let derivedKey ← calculate draws.kdfParams password
  let encryptedKey := Crypto.encryptCTR (derivedKey.take 16) draws.iv data
  .ok { cipherText := encryptedKey
        cipher := "aes-128-ctr".toList
        cipherParams := draws.cipherParams
        kdf := "scrypt".toList
        kdfParams := draws.kdfParams
        mac := computeMAC derivedKey encryptedKey }

namespace KeystoreKey

/-- `KeystoreKey(password:key:)` -/
def ofPrivateKey (draws : Draws) (password : Text) (key : List UInt8) : Except Failure KeystoreKey := do
  guardThat (key.length = 32 ∧ EthereumCrypto.isValidPrivateKey key) (.encrypt .invalidPrivateKey)
  let crypto ← KeystoreKeyHeader.encrypting draws password key
  let address ← decodeAddress (EthereumCrypto.getPublicKey key)
  .ok { address, type := .encryptedKey, id := some draws.id, crypto, derivationPath := Wallet.defaultPath, version := 3 }

/-- `KeystoreKey(password:preservingStoredMnemonic:passphrase:derivationPath:)` -/
def preservingStoredMnemonic (draws : Draws) (password mnemonic passphrase derivationPath : Text) :
    Except Failure KeystoreKey := do
  Mnemonic.validatePassphrase passphrase .legacy
  let data ← makeMnemonicPayload mnemonic passphrase
  let crypto ← KeystoreKeyHeader.encrypting draws password data
  let key ← Wallet.privateKey mnemonic passphrase derivationPath .legacy
  let address ← decodeAddress (Crypto.publicKey65 key)
  .ok { address, type := .hierarchicalDeterministicWallet, id := some draws.id, crypto, derivationPath, version := 3 }

/-- `KeystoreKey(password:mnemonic:passphrase:derivationPath:normalization:)` -/
def ofMnemonic (draws : Draws) (password mnemonic passphrase derivationPath : Text)
    (normalization : Normalization) : Except Failure KeystoreKey := do
  let seedMnemonic := Mnemonic.normalize mnemonic normalization
  let seedPassphrase := Mnemonic.normalize passphrase normalization
  guardThat (Mnemonic.isValid seedMnemonic) (.encrypt .invalidMnemonic)
  Mnemonic.validatePassphrase seedPassphrase normalization
  preservingStoredMnemonic draws password seedMnemonic seedPassphrase derivationPath

/-- `KeystoreKey(password:type:)` -/
def generate (draws : Draws) (password : Text) : AccountType → Except Failure KeystoreKey
  | .encryptedKey => .error (.encrypt .generateKeyPairFail)
  | .hierarchicalDeterministicWallet => do
    guardThat (draws.mnemonic ≠ []) (.mnemonic .generationFailed)
    ofMnemonic draws password draws.mnemonic [] Wallet.defaultPath .bip39

def derivedKey (key : KeystoreKey) (password : Text) : Except Failure (List UInt8) :=
  if key.crypto.kdf = "scrypt".toList then calculate key.crypto.kdfParams password
  else .error (.decrypt .unsupportedKDF)

def decipher (key : KeystoreKey) (decryptionKey : List UInt8) : Except Failure (List UInt8) :=
  if key.crypto.cipher = "aes-128-ctr".toList then do
    key.crypto.cipherParams.validateCTRCapacity key.crypto.cipherText.length
    .ok (Crypto.decryptCTR decryptionKey key.crypto.cipherParams.iv key.crypto.cipherText)
  else if key.crypto.cipher = "aes-128-cbc".toList then
    unlessNone .aes (Crypto.decryptCBC decryptionKey key.crypto.cipherParams.iv key.crypto.cipherText)
  else .error (.decrypt .unsupportedCipher)

def decrypt (key : KeystoreKey) (password : Text) : Except Failure (List UInt8) := do
  let derivedKey ← key.derivedKey password
  guardThat (computeMAC derivedKey key.crypto.cipherText = key.crypto.mac) (.decrypt .invalidPassword)
  key.decipher (derivedKey.take 16)

def privateKeyIn (key : KeystoreKey) (secret : List UInt8) : Except Failure (List UInt8) :=
  match key.type with
  -- An older release stored a whole mnemonic and used its first 32 bytes.
  | .encryptedKey => .ok (secret.take 32)
  | .hierarchicalDeterministicWallet => do
    let (mnemonic, passphrase) ← splitMnemonicPayload secret
    Wallet.privateKey mnemonic passphrase key.derivationPath .legacy

def privateKey (key : KeystoreKey) (password : Text) : Except Failure (List UInt8) := do
  let secret ← key.decrypt password
  key.privateKeyIn secret

def rekey (draws : Draws) (key : KeystoreKey) (password newPassword derivationPath : Text) :
    Except Failure KeystoreKey :=
  match key.type with
  | .encryptedKey => do
    let privateKey ← key.privateKey password
    ofPrivateKey draws newPassword privateKey
  | .hierarchicalDeterministicWallet => do
    let secret ← key.decrypt password
    let (mnemonic, passphrase) ← splitMnemonicPayload secret
    preservingStoredMnemonic draws newPassword mnemonic passphrase derivationPath

def reimport (draws : Draws) (key : KeystoreKey) (password newPassword : Text) : Except Failure KeystoreKey :=
  match key.type with
  | .encryptedKey => do
    let privateKey ← key.privateKey password
    ofPrivateKey draws newPassword privateKey
  | .hierarchicalDeterministicWallet => do
    let secret ← key.decrypt password
    let (mnemonic, passphrase) ← splitMnemonicPayload secret
    guardThat (Mnemonic.isValid mnemonic) (.keyStore .invalidMnemonic)
    ofMnemonic draws newPassword mnemonic passphrase key.derivationPath .legacy

end KeystoreKey

end

def sampleKey : KeystoreKey where
  address := ⟨toBytes 21 0x417e5f4552091a69125d5dfcb7b8c2659029395bdf⟩
  type := .encryptedKey
  id := some "e621e1f8-c36c-495a-93fc-0c247a3e6e5f".toList
  crypto :=
    { cipherText := toBytes 32 0x95558f22b2d577f54d849a32c24a2aa1e871fde16afe7a92a5ed78d6a099ccf2
      cipher := "aes-128-ctr".toList
      cipherParams := ⟨toBytes 16 0⟩
      kdf := "scrypt".toList
      kdfParams :=
        ScryptParams.balanced (toBytes 32 0x0102030405060708090a0b0c0d0e0f101112131415161718191a1b1c1d1e1f20)
      mac := toBytes 32 0xb25b62a3cc4618cb47a72829c07684f9e30de27ef4cbe809aba1a48193f0daca }
  derivationPath := Wallet.defaultPath
  version := 3

end TronlinkCore.Keystore
