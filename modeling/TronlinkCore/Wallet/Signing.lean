import TronlinkCore.Keystore.Calls
import TronlinkCore.Library.Firsts
import TronlinkCore.Wallet.Base58
import TronlinkCore.Wallet.Recovery

namespace TronlinkCore.Wallet

open Exceptions Text Keystore Throwing

inductive Object where
  | data (bytes : List UInt8)
  | other
  deriving DecidableEq

namespace Object

def asData : Object → Option (List UInt8)
  | .data bytes => some bytes
  | .other => none

end Object

/-- `Transaction_raw`: its serialized bytes and how many contracts it has -/
structure TransactionRaw where
  data : Option (List UInt8)
  contractCount : Option ℕ

structure TronTransaction where
  rawData : TransactionRaw
  signatureArray : List Object

inductive KeystoreError where
  | failedToSignTransaction
  | failedToParseJSON
  deriving DecidableEq

section

variable [Secp256k1]

namespace KeystoreKey

def checkedSignature (signature : List UInt8) : Except Failure (List UInt8) := do
  guardThat (signature.length = 65) (.decrypt .invalidSignature)
  .ok signature

def sign [Crypto] (key : Keystore.KeystoreKey) (hash : List UInt8) (password : Text) : Except Failure (List UInt8) := do
  let privateKey ← key.privateKey password
  checkedSignature (EthereumCrypto.sign hash privateKey)

end KeystoreKey

variable {Document : Type} [JsonCoder Document] [Crypto] [Graphemes]

def signHash (data : List UInt8) (account : Account) (password : Text) : Io Document (List UInt8) := do
  let stored ← KeyStore.key account.address
  let key ← ofExcept (unlessNone (.keyStore .accountNotFound) stored)
  ofExcept (KeystoreKey.sign key data password)

theorem signHash_eq_ok {hash : List UInt8} {account : Account} {password : Text} {keyStore : Session Document}
    {signature : List UInt8} (h : (signHash hash account password keyStore).1 = .ok signature) :
    ∃ key privateKey, (retried keyStore).store.keysByAddress.lookup account.address = some key ∧
      key.privateKey password = .ok privateKey ∧ EthereumCrypto.sign hash privateKey = signature ∧
      signature.length = 65 := by
  have hrun := run_of_fst h
  rw [signHash, bind_of_ok (key_run account.address keyStore), ofExcept_bind_eq_ok] at hrun
  obtain ⟨key, hkey, hrun⟩ := hrun
  rw [unlessNone_eq_ok] at hkey
  have hsign : KeystoreKey.sign key hash password = .ok signature := congrArg Prod.fst hrun
  simp only [KeystoreKey.sign, KeystoreKey.checkedSignature, except_bind_eq_ok, guardThat_eq_ok, Except.ok.injEq] at hsign
  obtain ⟨privateKey, hprivateKey, _, hlength, hsignature⟩ := hsign
  exact ⟨key, privateKey, hkey, hprivateKey, hsignature, by rw [← hsignature]; exact hlength⟩

end

structure Inspection where
  seenSigners : Finset (List UInt8)
  duplicateIndexes : List ℕ
  alreadySigned : Bool

namespace Inspection

def empty : Inspection := ⟨∅, [], false⟩

def note (accountSigner signer : List UInt8) (index : ℕ) (inspection : Inspection) : Inspection where
  seenSigners := insert signer inspection.seenSigners
  duplicateIndexes :=
    if signer ∈ inspection.seenSigners then inspection.duplicateIndexes ++ [index] else inspection.duplicateIndexes
  alreadySigned := inspection.alreadySigned || signer = accountSigner

end Inspection

section

variable [Secp256k1] [Crypto] [Graphemes]

def signerOf (hash : List UInt8) (value : Object) : Option (List UInt8) := do
  let signature ← value.asData
  let address ← Web3Utils.hashECRecover hash signature
  some address.addressData

/-- The pass over the signatures from `index` on: none, if one of them is invalid -/
def inspect (hash accountSigner : List UInt8) : Inspection → ℕ → List Object → Option Inspection
  | inspection, _, [] => some inspection
  | inspection, index, value :: values => do
    let signer ← signerOf hash value
    inspect hash accountSigner (inspection.note accountSigner signer index) (index + 1) values

variable [Digest]

def signingHash (rawData : TransactionRaw) (dappChainId : Text) : Except KeystoreError (List UInt8) := do
  let data ← unlessNone .failedToParseJSON rawData.data
  let count ← unlessNone .failedToParseJSON rawData.contractCount
  if count = 0 then .error .failedToParseJSON
  else
    let hash := Digest.sha256 data
    if dappChainId = [] then .ok hash
    else do
      let mainGateData ← unlessNone .failedToSignTransaction (Abi.dataOfHexString dappChainId)
      if mainGateData = [] then .error .failedToSignTransaction
      else .ok (Digest.sha256 (hash ++ mainGateData))

def accountSigner (account : Account) : List UInt8 := account.address.data.drop (account.address.data.length - 20)

def prepare (accounts : List Account) (transaction : TronTransaction) (address dappChainId : Text) :
    Except KeystoreError (Account × List UInt8 × Inspection) :=
  if 5 < transaction.signatureArray.length then .error .failedToSignTransaction
  else do
    let account ← unlessNone .failedToSignTransaction (accounts.find? fun account =>
      addressString account.address.data = address)
    let hash ← signingHash transaction.rawData dappChainId
    let inspection ← unlessNone .failedToSignTransaction
      (inspect hash (accountSigner account) .empty 0 transaction.signatureArray)
    .ok (account, hash, inspection)

/-- What `signHash` gives, with a recovery ID that counts from 0 -/
def newSignature : Except Failure (List UInt8) → Except KeystoreError (List UInt8)
  | .ok data => if 65 ≤ data.length then .ok (withoutOffset data) else .error .failedToSignTransaction
  -- Nothing that `signHash` throws is a `KeystoreError`.
  | .error _ => .error .failedToSignTransaction

variable {Document : Type} [JsonCoder Document]

def listedAccounts (keyStore : Session Document) : List Account :=
  (retried keyStore).store.accountsByAddress.entries.map (·.snd)

def signTranscation (keyStore : Session Document) (transaction : TronTransaction) (password address dappChainId : Text) :
    Outcome (Except KeystoreError Unit × TronTransaction) :=
  match prepare (listedAccounts keyStore) transaction address dappChainId with
  | .error error => .ok (.error error, transaction)
  | .ok (account, hash, inspection) =>
    if inspection.alreadySigned then do
      let signatures ← removeEach inspection.duplicateIndexes transaction.signatureArray
      .ok (.ok (), { transaction with signatureArray := signatures })
    else if transaction.signatureArray.length - inspection.duplicateIndexes.length < 5 then
      match newSignature (signHash hash account password (retried keyStore)).1 with
      | .error error => .ok (.error error, transaction)
      | .ok data => do
        let signatures ← removeEach inspection.duplicateIndexes transaction.signatureArray
        .ok (.ok (), { transaction with signatureArray := signatures ++ [.data data] })
    else .ok (.error .failedToSignTransaction, transaction)

end

end TronlinkCore.Wallet
