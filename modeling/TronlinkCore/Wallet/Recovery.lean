import TronlinkCore.Keystore.Secrets
import TronlinkCore.Abi.Values
import Mathlib.Data.List.GetD

namespace TronlinkCore.Wallet

open Text Keystore

namespace SECP256K1

def normalizedRecoveryID (value : UInt8) : Option UInt8 :=
  if value ≤ 3 then some value
  else if 27 ≤ value ∧ value ≤ 30 then some (value - 27)
  else none

def marshalSignature (v : UInt8) (r s : List UInt8) : Option (List UInt8) :=
  if r.length = 32 ∧ s.length = 32 then some (r ++ s ++ [v]) else none

end SECP256K1

theorem normalizedRecoveryID_offset {value recoveryID : UInt8} (h : SECP256K1.normalizedRecoveryID value = some recoveryID)
    (hv : 27 ≤ value) : SECP256K1.normalizedRecoveryID (value - 27) = some recoveryID := by
  have hn := UInt8.le_iff_toNat_le.mp hv
  have h3 : ¬ value ≤ 3 := by
    rw [UInt8.le_iff_toNat_le]
    change ¬ value.toNat ≤ 3
    change 27 ≤ value.toNat at hn
    omega
  rw [SECP256K1.normalizedRecoveryID, if_neg h3] at h
  split at h
  · rename_i h30
    have hsub : value - 27 ≤ 3 := by
      rw [UInt8.le_iff_toNat_le, UInt8.toNat_sub_of_le _ _ hv]
      have hle := UInt8.le_iff_toNat_le.mp h30.2
      change value.toNat ≤ 30 at hle
      change value.toNat - 27 ≤ 3
      omega
    rw [SECP256K1.normalizedRecoveryID, if_pos hsub]
    exact h
  · cases h

class Secp256k1 where
  /-- `ecdsa_sign_digest` with private key and hash: R || S and the recovery ID -/
  signDigest : List UInt8 → List UInt8 → Option (List UInt8 × UInt8)
  /-- `ecdsa_recover_pub_from_sig` with R || S, hash and recovery ID -/
  recoverPubFromSig : List UInt8 → List UInt8 → UInt8 → Option (List UInt8)
  /-- `ecdsa_uncompress_pubkey` -/
  uncompressPubkey : List UInt8 → Option (List UInt8)

variable [Secp256k1]

namespace EthereumCrypto

/-- `sign(hash:privateKey:)`, empty when it fails -/
def sign (hash privateKey : List UInt8) : List UInt8 :=
  if hash.length ≠ 32 ∨ Keystore.EthereumCrypto.isValidPrivateKey privateKey = false then []
  else
    match Secp256k1.signDigest privateKey hash with
    | some (signature, recoveryID) => signature ++ [recoveryID]
    | none => []

/-- `recoverPublicKey(hash:signature:recoveryID:compressed: false)`, empty when it fails -/
def recoverPublicKey (hash signature : List UInt8) (recoveryID : UInt8) : List UInt8 :=
  if hash.length ≠ 32 ∨ signature.length ≠ 64 ∨ 3 < recoveryID then []
  else (Secp256k1.recoverPubFromSig signature hash recoveryID).getD []

def uncompressPublicKey (publicKey : List UInt8) : List UInt8 :=
  if publicKey.length ≠ 33 ∨ publicKey.head? ≠ some 2 ∧ publicKey.head? ≠ some 3 then []
  else (Secp256k1.uncompressPubkey publicKey).getD []

end EthereumCrypto

namespace TrezorSecp256k1Backend

def recover (hash signature : List UInt8) (recoveryID : UInt8) : Option (List UInt8) :=
  let publicKey := EthereumCrypto.recoverPublicKey hash signature recoveryID
  if publicKey.length = 65 then some publicKey else none

def uncompressPublicKey (publicKey : List UInt8) : Option (List UInt8) :=
  let uncompressed := EthereumCrypto.uncompressPublicKey publicKey
  if uncompressed.length = 65 then some uncompressed else none

end TrezorSecp256k1Backend

namespace SECP256K1

def recoverPublicKey (hash signature : List UInt8) : Option (List UInt8) :=
  if hash.length = 32 ∧ signature.length = 65 then do
    let recoveryID ← normalizedRecoveryID (signature.getD 64 0)
    TrezorSecp256k1Backend.recover hash (signature.take 64) recoveryID
  else none

end SECP256K1

namespace Web3Utils

variable [Crypto] [Graphemes]

def uncompressedToAddressData (publicKey : List UInt8) : Option (List UInt8) :=
  if publicKey.length = 65 ∧ publicKey.head? ≠ some 4 then none
  else
    let stripped := if publicKey.length = 65 then publicKey.drop 1 else publicKey
    if stripped.length = 64 then some ((Crypto.keccak256 stripped).drop 12) else none

def publicToAddressData (publicKey : List UInt8) : Option (List UInt8) :=
  if publicKey.length = 33 then do
    let decompressedKey ← TrezorSecp256k1Backend.uncompressPublicKey publicKey
    uncompressedToAddressData decompressedKey
  else uncompressedToAddressData publicKey

def publicToAddress (publicKey : List UInt8) : Option Abi.Web3Address := do
  let addressData ← publicToAddressData publicKey
  some (.ofString (hex addressData))

def hashECRecover (hash signature : List UInt8) : Option Abi.Web3Address :=
  if signature.length = 65 then do
    let rData := signature.take 32
    let sData := (signature.drop 32).take 32
    let vData := signature.getD 64 0
    let signatureData ← SECP256K1.marshalSignature vData rData sData
    let publicKey ← SECP256K1.recoverPublicKey hash signatureData
    publicToAddress publicKey
  else none

end Web3Utils

def withoutOffset (data : List UInt8) : List UInt8 := if 27 ≤ data.getD 64 0 then data.modify 64 (· - 27) else data

theorem hashECRecover_of_length [Crypto] [Graphemes] {signature : List UInt8} (h : signature.length = 65)
    (hash : List UInt8) : Web3Utils.hashECRecover hash signature =
      if hash.length = 32 then do
        let recoveryID ← SECP256K1.normalizedRecoveryID (signature.getD 64 0)
        let publicKey ← TrezorSecp256k1Backend.recover hash (signature.take 64) recoveryID
        Web3Utils.publicToAddress publicKey
      else none := by
  have hlengths : (signature.take 32).length = 32 ∧ ((signature.drop 32).take 32).length = 32 := by
    simp only [List.length_take, List.length_drop]
    omega
  have hbytes : signature.take 32 ++ (signature.drop 32).take 32 ++ [signature.getD 64 0] = signature := by
    rw [← List.take_add, List.getD_eq_getElem _ _ (by omega), List.take_append_getElem,
      List.take_of_length_le (by omega)]
  rw [Web3Utils.hashECRecover, if_pos h]
  change (SECP256K1.marshalSignature (signature.getD 64 0) (signature.take 32) ((signature.drop 32).take 32) >>=
    fun signatureData => SECP256K1.recoverPublicKey hash signatureData >>= Web3Utils.publicToAddress) = _
  rw [SECP256K1.marshalSignature, if_pos hlengths, hbytes]
  change (SECP256K1.recoverPublicKey hash signature >>= Web3Utils.publicToAddress) = _
  rw [SECP256K1.recoverPublicKey]
  by_cases hh : hash.length = 32
  · rw [if_pos ⟨hh, h⟩, if_pos hh]
    simp only [Option.bind_eq_bind, Option.bind_assoc]
  · rw [if_neg (fun hc => hh hc.1), if_neg hh]
    rfl

theorem hashECRecover_withoutOffset [Crypto] [Graphemes] {hash data : List UInt8} {address : Abi.Web3Address}
    (h : Web3Utils.hashECRecover hash data = some address) :
    Web3Utils.hashECRecover hash (withoutOffset data) = some address := by
  unfold withoutOffset
  split
  · rename_i hv
    have hlength : data.length = 65 := by
      by_contra hne
      rw [Web3Utils.hashECRecover, if_neg hne] at h
      cases h
    have hmodified : (data.modify 64 (· - 27)).getD 64 0 = data.getD 64 0 - 27 := by
      rw [List.getD_eq_getElem _ _ (by rw [List.length_modify]; omega), List.getElem_modify_eq,
        List.getD_eq_getElem _ _ (by omega)]
    have htake : (data.modify 64 (· - 27)).take 64 = data.take 64 := by
      rw [List.take_modify, List.modify_eq_self]
      rw [List.length_take]
      omega
    rw [hashECRecover_of_length hlength] at h
    rw [hashECRecover_of_length (by rw [List.length_modify, hlength]), hmodified, htake]
    split at h
    · rename_i hh
      rw [if_pos hh]
      simp only [Option.bind_eq_bind, Option.bind_eq_some_iff] at h ⊢
      obtain ⟨recoveryID, hid, hrest⟩ := h
      exact ⟨recoveryID, normalizedRecoveryID_offset hid hv, hrest⟩
    · cases h
  · exact h

end TronlinkCore.Wallet
