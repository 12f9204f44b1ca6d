import TronlinkCore.TrezorCrypto.Bip39English
import TronlinkCore.TrezorCrypto.Hmac
import TronlinkCore.TrezorCrypto.SecRandom
import TronlinkCore.Library.Outcome

/-!
`bip39.c`. A function that returns zero fails here, and a write past the end of
an array stops the program.
-/

namespace TronlinkCore.TrezorCrypto

open Windows Outcome

structure CString where
  chars : List UInt8
  terminated : 0 ∉ chars
  deriving DecidableEq

def maxWords : ℕ := 24

def maxWordLength : ℕ := 9

def maxPassphraseLength : ℕ := 256

/-- `bits` after the checksum and the data. No byte is read that neither of them has written. -/
def checksummed (data : List UInt8) : List UInt8 :=
  let bits := overwrite (List.replicate 33 0) 0 (sha256Raw data)
  let bits := bits.set data.length (bits.getD 0 0)
  overwrite bits 0 data

def wordIndex (bits : List UInt8) (i : ℕ) : ℕ :=
  (List.range 11).foldl (fun idx j =>
    (idx <<< 1) + if bits.getD ((i * 11 + j) / 8) 0 &&& (1 <<< UInt8.ofNat (7 - (i * 11 + j) % 8)) ≠ 0 then 1 else 0) 0

def mnemonicFromDataIndexes (data : List UInt8) (count : ℤ) : Outcome (List ℕ) := do
  ensure (data.length % 4 = 0 ∧ 16 ≤ data.length ∧ data.length ≤ 32)
  ensure (maxWords ≤ count)
  return (List.range (data.length * 3 / 4)).map (wordIndex (checksummed data))

/-- The characters that are written in front of the terminating zero -/
def mnemonicFromData (data : List UInt8) (buflen : ℤ) : Outcome (List UInt8) := do
  ensure (data.length % 4 = 0 ∧ 16 ≤ data.length ∧ data.length ≤ 32)
  ensure (maxWords * (maxWordLength + 1) ≤ buflen)
  let mlen := data.length * 3 / 4
  return (List.range mlen).foldl (fun p i =>
    p ++ wordlist.getD (wordIndex (checksummed data) i) [] ++ if i < mlen - 1 then [0x20] else []) []

def mnemonicGenerate (source : Source) (strength buflen : ℤ) : Throwing RandomState Unit (List UInt8) := do
  Throwing.require (strength % 32 = 0 ∧ 128 ≤ strength ∧ strength ≤ 256) ()
  Throwing.require (maxWords * (maxWordLength + 1) ≤ buflen) ()
  let data ← randomBufferChecked source (strength / 8).toNat
  match mnemonicFromData data buflen with
  | ok r => return r
  | _ => Throwing.fail ()

def readWord (current : List UInt8) : List UInt8 → Outcome (List UInt8 × List UInt8)
  | [] => ok (current, [])
  | c :: mnemonic =>
    if c = 0x20 then ok (current, mnemonic)
    else if 9 ≤ current.length then fail
    else readWord (current ++ [c]) mnemonic

theorem readWord_length {current word mnemonic rest : List UInt8} (h : readWord current mnemonic = ok (word, rest)) :
    rest.length ≤ mnemonic.length - 1 := by
  induction mnemonic generalizing current with
  | nil =>
    cases h
    exact Nat.le_refl 0
  | cons c mnemonic ih =>
    rw [readWord] at h
    split at h
    · cases h
      exact Nat.le_refl _
    · split at h
      · cases h
      · have hle := ih h
        rw [List.length_cons]
        omega

def setBit (bits : List UInt8) (bi : ℕ) : Outcome (List UInt8) := do
  let b ← element bits (bi / 8)
  return bits.set (bi / 8) (b ||| 1 <<< UInt8.ofNat (7 - bi % 8))

def writeIndex (bits : List UInt8) (bi k : ℕ) : Outcome (List UInt8) :=
  (List.range 11).foldlM (fun bits ki => if k &&& (1 <<< (10 - ki)) ≠ 0 then setBit bits (bi + ki) else ok bits) bits

def readWords (mnemonic bits : List UInt8) (bi : ℕ) : Outcome (List UInt8 × ℕ) :=
  if _hne : mnemonic = [] then ok (bits, bi)
  else
    match _hword : readWord [] mnemonic with
    | ok (word, rest) =>
      match wordlist.findIdx? (· = word) with
      | some k => do
        let bits ← writeIndex bits bi k
        readWords rest bits (bi + 11)
      | none => fail
    | fail => fail
    | exhausted => exhausted
    | trap => trap
termination_by mnemonic.length
decreasing_by
  have hle := readWord_length _hword
  have hpos := List.length_pos_iff.mpr _hne
  omega

def mnemonicToEntropy (mnemonic : CString) : Outcome (List UInt8 × ℕ) := do
  let n := mnemonic.chars.count 0x20 + 1
  ensure (12 ≤ n ∧ n ≤ 24 ∧ n % 3 = 0)
  let (bits, bi) ← readWords mnemonic.chars (List.replicate 33 0) 0
  ensure (bi = n * 11)
  return (bits, n * 11)

def mnemonicCheck (mnemonic : CString) : Outcome Bool :=
  match mnemonicToEntropy mnemonic with
  | ok (bits, seedLen) => do
    let words := seedLen / 11
    let checksum ← element bits (words * 4 / 3)
    let digest ← element (sha256Raw (bits.take (words * 4 / 3))) 0
    let checksumBits := words / 3
    return digest.toNat >>> (8 - checksumBits) = checksum.toNat >>> (8 - checksumBits)
  | fail => ok false
  | exhausted => exhausted
  | trap => trap

/-- The rounds are made in sixteen updates. The callback that tells of them is left out. -/
def mnemonicToSeed (stack : ℕ → UInt8) (mnemonic passphrase : CString) : Outcome (List UInt8) := do
  ensure (passphrase.chars.length ≤ maxPassphraseLength)
  let salt := "mnemonic".toList.map (fun c => UInt8.ofNat c.toNat) ++ passphrase.chars
  let pctx := pbkdf2HmacSha512Init stack mnemonic.chars salt 1
  let pctx := (List.range 16).foldl (fun pctx _ => pbkdf2HmacSha512Update pctx (2048 / 16)) pctx
  return pbkdf2HmacSha512Final pctx

end TronlinkCore.TrezorCrypto
