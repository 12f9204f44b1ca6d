import TronlinkCore.Library.MachineInt
import TronlinkCore.Library.Memory
import TronlinkCore.Library.Rfc7914
import TronlinkCore.Keystore.Secrets

/-!
`Scrypt`: the derivation of a key through buffers of raw memory. The clearing
of the buffers at the end of a call is left out, since nothing reads them after it.
-/

namespace TronlinkCore.Keystore

open Outcome MachineInt Memory Text

abbrev Fallible (α : Type) := ExceptT Failure Outcome α

inductive Allocation where
  | b
  | xy
  | v
  | salsaBlock
  deriving DecidableEq

def Allocation.size (bByteCount xyByteCount vByteCount : ℕ) : Allocation → ℕ
  | b => bByteCount
  | xy => xyByteCount
  | v => vByteCount
  | salsaBlock => 64

class ScryptHost where
  /-- `PKCS5.PBKDF2(password:salt:iterations:keyLength:variant:).calculate()` with one iteration of SHA-256 -/
  pbkdf2 : List UInt8 → List UInt8 → ℤ → Fallible (List UInt8)
  /-- PBKDF2-HMAC-SHA256 with one iteration -/
  derived : List UInt8 → List UInt8 → ℕ → List UInt8
  /-- The bytes of an allocation before anything is stored there -/
  uninitialized : (size : Allocation → ℕ) → Memory size
  derived_length : ∀ password salt keyLength, (derived password salt keyLength).length = keyLength
  pbkdf2_eq : ∀ (password salt : List UInt8) (keyLength : ℕ), salt ≠ [] → 0 < keyLength →
    keyLength ≤ (2 ^ 32 - 1) * 32 → pbkdf2 password salt keyLength = pure (derived password salt keyLength)

namespace ScryptParams

def validating (params : ScryptParams) : Outcome (Option ValidationError) :=
  if ¬ (1 < params.n ∧ 0 < params.r ∧ 0 < params.p) then ok (some .nonPositiveParameter)
  else if params.salt = [] then ok (some .emptySalt)
  else if params.desiredKeyLength < minDesiredKeyLength then ok (some .desiredKeyLengthTooSmall)
  else if maxDesiredKeyLength < params.desiredKeyLength then ok (some .desiredKeyLengthTooLarge)
  else do
    let mask ← subInt64 params.n 1
    if params.n &&& mask ≠ 0 ∨ maxN < params.n then ok (some .invalidCostFactor)
    else if maxR < params.r ∨ maxP < params.p then ok (some .blockSizeTooLarge)
    else do
      let blocks ← divInt64 maxMemoryBytes 128
      let bound ← divInt64 blocks params.r
      if bound < params.n then ok (some .overflow) else ok none

end ScryptParams

namespace Scrypt

variable {size : Allocation → ℕ}

def B : Pointer Allocation := ⟨.b, 0⟩

def XY : Pointer Allocation := ⟨.xy, 0⟩

def V : Pointer Allocation := ⟨.v, 0⟩

def salsaBlock : Pointer Allocation := ⟨.salsaBlock, 0⟩

/-- `salsaBlock[target] ^= R(salsaBlock[left] &+ salsaBlock[right], shift)` -/
structure Assignment where
  target : ℕ
  left : ℕ
  right : ℕ
  shift : UInt32
  deriving DecidableEq

def R (a b : UInt32) : UInt32 := (a <<< b) ||| (a >>> (32 - b))

def columns : List Assignment :=
  [⟨4, 0, 12, 7⟩, ⟨8, 4, 0, 9⟩, ⟨12, 8, 4, 13⟩, ⟨0, 12, 8, 18⟩,
    ⟨9, 5, 1, 7⟩, ⟨13, 9, 5, 9⟩, ⟨1, 13, 9, 13⟩, ⟨5, 1, 13, 18⟩,
    ⟨14, 10, 6, 7⟩, ⟨2, 14, 10, 9⟩, ⟨6, 2, 14, 13⟩, ⟨10, 6, 2, 18⟩,
    ⟨3, 15, 11, 7⟩, ⟨7, 3, 15, 9⟩, ⟨11, 7, 3, 13⟩, ⟨15, 11, 7, 18⟩]

def rows : List Assignment :=
  [⟨1, 0, 3, 7⟩, ⟨2, 1, 0, 9⟩, ⟨3, 2, 1, 13⟩, ⟨0, 3, 2, 18⟩,
    ⟨6, 5, 4, 7⟩, ⟨7, 6, 5, 9⟩, ⟨4, 7, 6, 13⟩, ⟨5, 4, 7, 18⟩,
    ⟨11, 10, 9, 7⟩, ⟨8, 11, 10, 9⟩, ⟨9, 8, 11, 13⟩, ⟨10, 9, 8, 18⟩,
    ⟨12, 15, 14, 7⟩, ⟨13, 12, 15, 9⟩, ⟨14, 13, 12, 13⟩, ⟨15, 14, 13, 18⟩]

def assign (assignment : Assignment) : Program size Unit := do
  let left ← loadUInt32 (salsaBlock.words assignment.left)
  let right ← loadUInt32 (salsaBlock.words assignment.right)
  let target ← loadUInt32 (salsaBlock.words assignment.target)
  storeUInt32 (salsaBlock.words assignment.target) (target ^^^ R (left + right) assignment.shift)

def salsa20_8 (block : Pointer Allocation) : Program size Unit := do
  copyMemory salsaBlock block 64
  (stride 8 2).forM fun _ => (columns ++ rows).forM assign
  (List.range 16).forM fun i => do
    let word ← loadUInt32 (block.words i)
    let mixed ← loadUInt32 (salsaBlock.words i)
    storeUInt32 (block.words i) (word + mixed)

def blockXor (dest src : Pointer Allocation) (len : ℕ) : Program size Unit :=
  (List.range (len / 8)).forM fun i => do
    let d ← loadUInt64 (dest.longs i)
    let s ← loadUInt64 (src.longs i)
    storeUInt64 (dest.longs i) (d ^^^ s)

section

variable (r : ℕ)

def integerify (block : Pointer Allocation) : Program size UInt64 := do
  let parts ← mulInt 2 r
  let last ← subInt parts 1
  let offset ← mulInt last 64
  loadUInt64 (block.bytes offset)

def blockMixSalsa8 (bin bout x : Pointer Allocation) : Program size Unit := do
  let parts ← mulInt 2 r
  let last ← subInt parts 1
  let offset ← mulInt last 16
  copyMemory x (bin.words offset) 64
  (stride parts 2).forM fun i => do
    let even ← mulInt i 16
    blockXor x (bin.words even) 64
    salsa20_8 x
    let position ← mulInt i 8
    copyMemory (bout.words position) x 64
    let odd ← addInt even 16
    blockXor x (bin.words odd) 64
    salsa20_8 x
    let half ← mulInt r 16
    copyMemory ((bout.words position).words half) x 64

def tabulate (v bin bout z : Pointer Allocation) (i : ℕ) : Program size Unit := do
  let wordCount ← mulInt 32 r
  let offset ← mulInt i wordCount
  let byteCount ← mulInt 128 r
  copyMemory (v.words offset) bin byteCount
  blockMixSalsa8 r bin bout z

variable (n : ℕ)

def index (block : Pointer Allocation) : Program size ℕ := do
  let j ← integerify r block
  let mask ← subInt n 1
  toInt (j &&& UInt64.ofNat mask).toNat

def lookUp (v bin bout z : Pointer Allocation) : Program size Unit := do
  let j ← index r n bin
  let row ← mulInt j 32
  let offset ← mulInt row r
  let byteCount ← mulInt 128 r
  blockXor bin (v.words offset) byteCount
  blockMixSalsa8 r bin bout z

def smix (block v xy : Pointer Allocation) : Program size Unit := do
  let wordCount ← mulInt 32 r
  let twice ← mulInt 64 r
  let X := xy
  let Y := xy.words wordCount
  let Z := xy.words twice
  (List.range wordCount).forM fun k => do
    let offset ← mulInt 4 k
    let word ← loadUInt32 (block.bytes offset)
    storeUInt32 (X.words k) word
  (stride n 2).forM fun i => do
    tabulate r v X Y Z i
    let next ← addInt i 1
    tabulate r v Y X Z next
  (stride n 2).forM fun _ => do
    lookUp r n v X Y Z
    lookUp r n v Y X Z
  (List.range wordCount).forM fun k => do
    let offset ← mulInt 4 k
    let word ← loadUInt32 (X.words k)
    storeUInt32 (block.bytes offset) word

variable (p : ℕ)

def mixing (barray : List UInt8) : Program size (List UInt8) := do
  store B barray
  (List.range p).forM fun i => do
    let row ← mulInt i 128
    let offset ← mulInt row r
    smix r n (B.bytes offset) V XY
  let row ← mulInt p 128
  let count ← mulInt row r
  load B count

end

-- A negative parameter would make an allocation or a range fail.
def natural (parameter : Int64) : Outcome ℕ := if 0 ≤ parameter.toInt then ok parameter.toInt.toNat else trap

variable [ScryptHost]

def scrypt (params : ScryptParams) (password salt : List UInt8) : Fallible (List UInt8) := do
  let r ← natural params.r
  let p ← natural params.p
  let n ← natural params.n
  let blockSize ← mulInt 128 r
  let bByteCount ← mulInt blockSize p
  let xySize ← mulInt 256 r
  let xyByteCount ← addInt xySize 64
  let vByteCount ← mulInt blockSize n
  let row ← mulInt p 128
  let keyLength ← mulInt row r
  let barray ← ScryptHost.pbkdf2 password salt keyLength
  -- The base address of an empty array is nil.
  check (barray ≠ [])
  let (block, _) ← mixing r n p barray (ScryptHost.uninitialized (Allocation.size bByteCount xyByteCount vByteCount))
  ScryptHost.pbkdf2 password block params.desiredKeyLength.toInt

def calculate (params : ScryptParams) (password : Text) : Fallible (List UInt8) := do
  match ← params.validating with
  | some error => throw (.scrypt error)
  | none => scrypt params (utf8 password) params.salt

end Scrypt

end TronlinkCore.Keystore
