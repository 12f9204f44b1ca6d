import TronlinkCore.Library.Limbs
import TronlinkCore.Library.Outcome
import TronlinkCore.Library.Windows

/-!
`bignum.c`: numbers as nine limbs of thirty bits in words of 32 bits. An
assertion that fails stops the program. Buffers are not cleared at the end.
-/

namespace TronlinkCore.TrezorCrypto

open Outcome Limbs Windows

structure Bignum256 where
  val : List (BitVec 32)
  length_val : val.length = 9
  deriving DecidableEq

namespace Bignum256

def limb (x : Bignum256) (i : ℕ) : BitVec 32 := x.val.getD i 0

def pairs (x y : Bignum256) : List (BitVec 32 × BitVec 32) := x.val.zip y.val

@[simp] theorem pairs_length (x y : Bignum256) : (x.pairs y).length = 9 := by
  rw [pairs, List.length_zip, x.length_val, y.length_val, Nat.min_self]

end Bignum256

def u64 (x : BitVec 32) : BitVec 64 := x.setWidth 64

def byteAt (data : List UInt8) (i : ℕ) : BitVec 32 := (data.getD i 0).toBitVec.setWidth 32

def readBe (data : List UInt8) : BitVec 32 :=
  (byteAt data 0 <<< 24) ||| (byteAt data 1 <<< 16) ||| (byteAt data 2 <<< 8) ||| byteAt data 3

def readLe (data : List UInt8) : BitVec 32 :=
  (byteAt data 3 <<< 24) ||| (byteAt data 2 <<< 16) ||| (byteAt data 1 <<< 8) ||| byteAt data 0

def writeBe (x : BitVec 32) : List UInt8 :=
  [x >>> 24, x >>> 16, x >>> 8, x].map fun byte => UInt8.ofBitVec (byte.setWidth 8)

def writeLe (x : BitVec 32) : List UInt8 :=
  [x, x >>> 8, x >>> 16, x >>> 24].map fun byte => UInt8.ofBitVec (byte.setWidth 8)

/-- The loop of the readers from round `i` on, over words of 32 bits -/
def readLimbs (i : ℕ) (temp : BitVec 32) : List (BitVec 32) → List (BitVec 32)
  | [] => [temp]
  | limb :: limbs =>
    let temp := temp ||| (limb <<< (2 * i))
    (temp &&& 0x3FFFFFFF) :: readLimbs (i + 1) (limb >>> (30 - 2 * i)) limbs

@[simp] theorem readLimbs_length (i : ℕ) (temp : BitVec 32) (limbs : List (BitVec 32)) :
    (readLimbs i temp limbs).length = limbs.length + 1 := by
  induction limbs generalizing i temp with
  | nil => rfl
  | cons limb limbs ih => rw [readLimbs, List.length_cons, List.length_cons, ih]

def bnReadBe (in_number : List UInt8) : Bignum256 where
  val := readLimbs 0 0 ((List.range 8).map fun i => readBe (in_number.drop ((7 - i) * 4)))
  length_val := by simp

def bnReadLe (in_number : List UInt8) : Bignum256 where
  val := readLimbs 0 0 ((List.range 8).map fun i => readLe (in_number.drop (i * 4)))
  length_val := by simp

/-- The loop of the writers from round `i` on, over the limbs from the highest -/
def writeWords (i : ℕ) (temp : BitVec 32) : List (BitVec 32) → List (BitVec 32)
  | [] => []
  | limb :: limbs => ((temp <<< (16 + 2 * i)) ||| (limb >>> (14 - 2 * i))) :: writeWords (i + 1) limb limbs

def bnWriteBe (in_number : Bignum256) : List UInt8 :=
  (writeWords 0 (in_number.limb 8) (in_number.val.take 8).reverse).flatMap writeBe

def bnWriteLe (in_number : Bignum256) : List UInt8 :=
  (writeWords 0 (in_number.limb 8) (in_number.val.take 8).reverse).reverse.flatMap writeLe

def bnZero : Bignum256 := ⟨List.replicate 9 0, rfl⟩
def bnOne : Bignum256 := ⟨1 :: List.replicate 8 0, rfl⟩

def bnIsLess (a b : Bignum256) : Bool :=
  let res : BitVec 32 × BitVec 32 := (a.pairs b).foldr (fun limbs res =>
    ((res.1 <<< 1) ||| (if limbs.1 < limbs.2 then 1 else 0), (res.2 <<< 1) ||| (if limbs.2 < limbs.1 then 1 else 0))) (0, 0)
  res.2 < res.1

def bnIsEqual (a b : Bignum256) : Bool := (a.pairs b).foldl (fun result limbs => result ||| (limbs.1 ^^^ limbs.2)) 0 = 0

def bnCmov (cond : Bool) (truecase falsecase : Bignum256) : Bignum256 where
  val :=
    let tmask : BitVec 32 := if cond then -1 else 0
    (truecase.pairs falsecase).map fun limbs => (limbs.1 &&& tmask) ||| (limbs.2 &&& ~~~tmask)
  length_val := by simp

def bnLshift (a : Bignum256) : Bignum256 where
  val := (a.val.zip (0 :: a.val)).map fun (limbs : BitVec 32 × BitVec 32) =>
    ((limbs.1 <<< 1) &&& 0x3FFFFFFF) ||| ((limbs.2 &&& 0x20000000) >>> 29)
  length_val := by simp [a.length_val]

def bnRshift (a : Bignum256) : Bignum256 where
  val := (a.val.zip (a.val.tail ++ [0])).map fun (limbs : BitVec 32 × BitVec 32) => (limbs.1 >>> 1) ||| ((limbs.2 &&& 1) <<< 29)
  length_val := by simp [a.length_val]

/-- The loop of `bn_mult_half` over the sums of the limbs above -/
def halves (tmp1 : BitVec 32) : List (BitVec 32) → List (BitVec 32)
  | [] => [tmp1]
  | tmp2 :: sums =>
    let tmp1 := tmp1 + ((tmp2 &&& 1) <<< 29)
    (tmp1 &&& 0x3FFFFFFF) :: halves ((tmp1 >>> 30) + (tmp2 >>> 1)) sums

@[simp] theorem halves_length (tmp1 : BitVec 32) (sums : List (BitVec 32)) : (halves tmp1 sums).length = sums.length + 1 := by
  induction sums generalizing tmp1 with
  | nil => rfl
  | cons tmp2 sums ih => rw [halves, List.length_cons, List.length_cons, ih]

def bnMultHalf (x prime : Bignum256) : Bignum256 where
  val :=
    let xodd := -(x.limb 0 &&& 1)
    let sums := (x.pairs prime).map fun limbs => limbs.1 + (limbs.2 &&& xodd)
    halves (sums.getD 0 0 >>> 1) sums.tail
  length_val := by simp

def bnAdd (a b : Bignum256) : Bignum256 where
  val := (carries 30 0 ((a.pairs b).map fun limbs => limbs.1 + limbs.2)).1
  length_val := by simp

def bnAddi (a : Bignum256) (b : BitVec 32) : Bignum256 where
  val := (carries 30 b a.val).1
  length_val := by simp [a.length_val]

def bnSubtract (a b : Bignum256) : Bignum256 where
  val := (carries 30 1 ((a.pairs b).map fun limbs => 0x3FFFFFFF + limbs.1 - limbs.2)).1
  length_val := by simp

def bnSubtractmod (a b prime : Bignum256) : Bignum256 where
  val := (carries 30 1 (((a.pairs prime).zip b.val).map fun limbs => 0x3FFFFFFF + limbs.1.1 + 2 * limbs.1.2 - limbs.2)).1
  length_val := by simp [b.length_val]

def bnSubi (a : Bignum256) (b : BitVec 32) (prime : Bignum256) : Outcome Bignum256 := do
  check (b ≤ prime.limb 0)
  let a : Bignum256 := ⟨a.val.set 0 (a.limb 0 - b), by rw [List.length_set, a.length_val]⟩
  return bnAdd a prime

def reduced (coef : BitVec 32) : List (BitVec 32 × BitVec 32) → List (BitVec 64)
  | [] => []
  | limbs :: rest =>
    (0x2000000000000000 + u64 limbs.1 - u64 limbs.2 * u64 coef) ::
      rest.map fun limbs => 0x1FFFFFFF80000000 + u64 limbs.1 - u64 limbs.2 * u64 coef

@[simp] theorem reduced_length (coef : BitVec 32) (limbs : List (BitVec 32 × BitVec 32)) :
    (reduced coef limbs).length = limbs.length := by
  cases limbs <;> simp [reduced]

def bnFastMod (x prime : Bignum256) : Bignum256 where
  val := (carries 30 0 (reduced (x.limb 8 >>> 16) (x.pairs prime))).1.map (BitVec.setWidth 32)
  length_val := by simp

def bnMod (x prime : Bignum256) : Bignum256 := bnCmov (bnIsLess x prime) x (bnSubtract x prime)

def bnMultK (x : Bignum256) (k : BitVec 8) (prime : Bignum256) : Bignum256 :=
  bnFastMod ⟨x.val.map (k.setWidth 32 * ·), by rw [List.length_map, x.length_val]⟩ prime

def products (k x : Bignum256) (i : ℕ) (js : List ℕ) : BitVec 64 := (js.map fun j => u64 (k.limb j) * u64 (x.limb (i - j))).sum

def bnMultiplyLong (k x : Bignum256) : List (BitVec 32) :=
  let lower := (List.range 9).map fun i => products k x i (List.range (i + 1))
  let upper := (List.range' 9 8).map fun i => products k x i (List.range' (i - 8) (17 - i))
  let res := carries 30 0 (lower ++ upper)
  (res.1 ++ [res.2]).map (BitVec.setWidth 32)

def bnMultiplyReduceStep (res : List (BitVec 32)) (prime : Bignum256) (i : ℕ) : Outcome (List (BitVec 32)) := do
  let coef := (res.getD i 0 >>> 16) + (res.getD (i + 1) 0 <<< 14)
  check (coef < 0x80000000)
  let temps := reduced coef ((window res (i - 8) 9).zip prime.val) ++ [0x1FFFFFFF80000000 + u64 (res.getD (i + 1) 0)]
  return overwrite res (i - 8) ((carries 30 0 temps).1.map (BitVec.setWidth 32))

/-- The rounds of `bn_multiply_reduce` -/
def reduceAll (prime : Bignum256) (res : List (BitVec 32)) : Outcome (List (BitVec 32)) :=
  [16, 15, 14, 13, 12, 11, 10, 9, 8].foldlM (fun res i => do
    let res ← bnMultiplyReduceStep res prime i
    check (res.getD (i + 1) 0 = 0)
    return res) res

def bnMultiplyReduce (res : List (BitVec 32)) (prime : Bignum256) : Outcome Bignum256 := do
  let res ← reduceAll prime res
  return ⟨(List.range 9).map (res.getD · 0), by simp⟩

def bnMultiply (k x prime : Bignum256) : Outcome Bignum256 := bnMultiplyReduce (bnMultiplyLong k x) prime

/-- The rounds for one limb of the exponent, on a base and a power. The last limb ends the loop as soon as it is zero. -/
def sqrtRounds (prime : Bignum256) (last : Bool) : ℕ → BitVec 32 → Bignum256 × Bignum256 → Outcome (Bignum256 × Bignum256)
  | 0, _, s => ok s
  | n + 1, limb, (x, res) =>
    if last ∧ limb = 0 then ok (x, res)
    else do
      let res ← (if limb &&& 1 ≠ 0 then bnMultiply x res prime else ok res)
      let x ← bnMultiply x x prime
      sqrtRounds prime last n (limb >>> 1) (x, res)

def bnSqrt (x prime : Bignum256) : Outcome Bignum256 := do
  let p := bnRshift (bnRshift (bnAddi prime 1))
  let s ← (List.range 9).foldlM (fun s i => sqrtRounds prime (i = 8) 30 (p.limb i) s) (x, bnOne)
  return bnMod s.2 prime

def divmodLimbs (d q r : BitVec 32) (rem : BitVec 32) : List (BitVec 32) → List (BitVec 32) × BitVec 32
  | [] => ([], rem)
  | limb :: limbs =>
    let tmp := rem * r + limb
    let rest := divmodLimbs d q r (tmp % d) limbs
    ((rem * q + tmp / d) :: rest.1, rest.2)

@[simp] theorem divmodLimbs_length (d q r rem : BitVec 32) (limbs : List (BitVec 32)) :
    (divmodLimbs d q r rem limbs).1.length = limbs.length := by
  induction limbs generalizing rem with
  | nil => rfl
  | cons limb limbs ih => rw [divmodLimbs, List.length_cons, List.length_cons, ih]

def divmod (d q r : BitVec 32) (a : Bignum256) : Bignum256 × BitVec 32 :=
  let res := divmodLimbs d q r (a.limb 8 % d) (a.val.take 8).reverse
  (⟨((a.limb 8 / d) :: res.1).reverse, by simp [res, a.length_val]⟩, res.2)

def bnDivmod58 (a : Bignum256) : Bignum256 × BitVec 32 := divmod 58 18512790 4 a
def bnDivmod1000 (a : Bignum256) : Bignum256 × BitVec 32 := divmod 1000 1073741 824 a

end TronlinkCore.TrezorCrypto
