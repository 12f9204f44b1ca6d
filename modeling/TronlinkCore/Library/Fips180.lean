import TronlinkCore.Library.BigEndian
import TronlinkCore.Library.Blocks
import Mathlib.Data.Nat.NthRoot.Defs
import Mathlib.Data.Nat.Nth
import Mathlib.Data.Nat.Prime.Defs

/-!
The secure hash algorithms of FIPS 180-4 over messages of whole bytes: SHA-256
with words of 32 bits, and SHA-512 with words of 64 bits. Of a length that does
not fit in the two last words of the padding, they hold the lower bits.
-/

namespace TronlinkCore.Fips180

open Blocks Windows

structure Registers (α : Type) where
  a : α
  b : α
  c : α
  d : α
  e : α
  f : α
  g : α
  h : α
  deriving DecidableEq

namespace Registers

variable {α β γ : Type}

def ofFn (f : ℕ → α) : Registers α := ⟨f 0, f 1, f 2, f 3, f 4, f 5, f 6, f 7⟩

def toList (x : Registers α) : List α := [x.a, x.b, x.c, x.d, x.e, x.f, x.g, x.h]

def map (f : α → β) (x : Registers α) : Registers β := ⟨f x.a, f x.b, f x.c, f x.d, f x.e, f x.f, f x.g, f x.h⟩

def zipWith (f : α → β → γ) (x : Registers α) (y : Registers β) : Registers γ where
  a := f x.a y.a
  b := f x.b y.b
  c := f x.c y.c
  d := f x.d y.d
  e := f x.e y.e
  f := f x.f y.f
  g := f x.g y.g
  h := f x.h y.h

theorem toList_map (f : α → β) (x : Registers α) : (x.map f).toList = x.toList.map f := rfl

end Registers

section

variable {w : ℕ}

def choose (x y z : BitVec w) : BitVec w := (x &&& y) ^^^ (~~~x &&& z)

def majority (x y z : BitVec w) : BitVec w := (x &&& y) ^^^ (x &&& z) ^^^ (y &&& z)

def rotations (i j k : ℕ) (x : BitVec w) : BitVec w := x.rotateRight i ^^^ x.rotateRight j ^^^ x.rotateRight k

def rotationsShift (i j k : ℕ) (x : BitVec w) : BitVec w := x.rotateRight i ^^^ x.rotateRight j ^^^ (x >>> k)

end

structure Algorithm (w : ℕ) where
  rounds : ℕ
  constant : ℕ → BitVec w
  initial : Registers (BitVec w)
  upperSigma0 : BitVec w → BitVec w
  upperSigma1 : BitVec w → BitVec w
  lowerSigma0 : BitVec w → BitVec w
  lowerSigma1 : BitVec w → BitVec w

namespace Algorithm

variable {w : ℕ} (A : Algorithm w)

def schedule (block : ℕ → BitVec w) (t : ℕ) : BitVec w :=
  if t < 16 then block t
  else A.lowerSigma1 (schedule block (t - 2)) + schedule block (t - 7) + A.lowerSigma0 (schedule block (t - 15)) +
    schedule block (t - 16)
termination_by t

def round (x : Registers (BitVec w)) (t : ℕ) (word : BitVec w) : Registers (BitVec w) :=
  let t1 := x.h + A.upperSigma1 x.e + choose x.e x.f x.g + A.constant t + word
  let t2 := A.upperSigma0 x.a + majority x.a x.b x.c
  ⟨t1 + t2, x.a, x.b, x.c, x.d + t1, x.e, x.f, x.g⟩

def working (block : ℕ → BitVec w) (hash : Registers (BitVec w)) (t : ℕ) : Registers (BitVec w) :=
  (List.range t).foldl (fun x t => A.round x t (A.schedule block t)) hash

def compress (hash : Registers (BitVec w)) (block : ℕ → BitVec w) : Registers (BitVec w) :=
  hash.zipWith (· + ·) (A.working block hash A.rounds)

theorem schedule_of_lt {block : ℕ → BitVec w} {t : ℕ} (h : t < 16) : A.schedule block t = block t := by
  rw [schedule, if_pos h]

theorem schedule_of_ge (block : ℕ → BitVec w) (t : ℕ) :
    A.schedule block (t + 16) = A.lowerSigma1 (A.schedule block (t + 14)) + A.schedule block (t + 9) +
      A.lowerSigma0 (A.schedule block (t + 1)) + A.schedule block t := by
  rw [schedule, if_neg (by omega)]
  rfl

theorem working_succ (block : ℕ → BitVec w) (hash : Registers (BitVec w)) (t : ℕ) :
    A.working block hash (t + 1) = A.round (A.working block hash t) t (A.schedule block t) := by
  rw [working, List.range_succ, List.foldl_append]
  rfl

theorem schedule_congr {block block' : ℕ → BitVec w} (h : ∀ t, t < 16 → block t = block' t) (t : ℕ) :
    A.schedule block t = A.schedule block' t := by
  induction t using Nat.strongRecOn with
  | ind t ih =>
    rcases Nat.lt_or_ge t 16 with ht | ht
    · rw [schedule_of_lt A ht, schedule_of_lt A ht, h t ht]
    · obtain ⟨k, rfl⟩ := Nat.exists_eq_add_of_le' ht
      rw [schedule_of_ge, schedule_of_ge, ih (k + 14) (by omega), ih (k + 9) (by omega), ih (k + 1) (by omega),
        ih k (by omega)]

theorem compress_congr {block block' : ℕ → BitVec w} (hash : Registers (BitVec w))
    (h : ∀ t, t < 16 → block t = block' t) : A.compress hash block = A.compress hash block' := by
  have hs : A.schedule block = A.schedule block' := funext (A.schedule_congr h)
  rw [compress, compress, working, working, hs]

end Algorithm

section

variable (w : ℕ)

def wordOf (block : List UInt8) (t : ℕ) : BitVec w := BitVec.ofNat w (BigEndian.ofBytes (window block (w / 8 * t) (w / 8)))

def bytesOf (word : BitVec w) : List UInt8 := BigEndian.toBytes (w / 8) word.toNat

theorem wordOf_flatMap {w : ℕ} (hw : 8 ∣ w) (words : List (BitVec w)) {t : ℕ} (ht : t < words.length) :
    wordOf w (words.flatMap (bytesOf w)) t = words.getD t 0 := by
  have hlen (word : BitVec w) : (bytesOf w word).length = w / 8 := BigEndian.toBytes_length _ _
  have hpow : (256 : ℕ) ^ (w / 8) = 2 ^ w := by
    rw [show (256 : ℕ) = 2 ^ 8 from rfl, ← pow_mul, Nat.mul_div_cancel' hw]
  induction words generalizing t with
  | nil => exact absurd ht (Nat.not_lt_zero t)
  | cons word words ih =>
    rw [List.flatMap_cons, wordOf]
    cases t with
    | zero =>
      rw [Nat.mul_zero, window_append_left _ (by rw [hlen, Nat.zero_add]), window, List.drop_zero,
        List.take_of_length_le (hlen word).le, bytesOf, BigEndian.ofBytes_toBytes, hpow, Nat.mod_eq_of_lt word.isLt,
        BitVec.ofNat_toNat, BitVec.setWidth_eq]
      rfl
    | succ t =>
      have hstart : w / 8 * (t + 1) - w / 8 = w / 8 * t := by rw [Nat.mul_succ, Nat.add_sub_cancel]
      have hle : w / 8 ≤ w / 8 * (t + 1) := by
        rw [Nat.mul_succ]
        exact Nat.le_add_left _ _
      rw [window_append_right _ _ (by rwa [hlen]), hlen, hstart]
      exact ih (Nat.lt_of_succ_lt_succ ht)

theorem bytesOf_flatMap_length {w : ℕ} (words : List (BitVec w)) : (words.flatMap (bytesOf w)).length = w / 8 * words.length := by
  induction words with
  | nil => rfl
  | cons word words ih =>
    rw [List.flatMap_cons, List.length_append, ih, List.length_cons, bytesOf, BigEndian.toBytes_length, Nat.mul_succ, Nat.add_comm]

def blockLength : ℕ := 16 * (w / 8)

def zeros (length : ℕ) : ℕ := (blockLength w - (length + 1 + 2 * (w / 8)) % blockLength w) % blockLength w

def padding (length : ℕ) : List UInt8 :=
  0x80 :: List.replicate (zeros w length) 0 ++ BigEndian.toBytes (2 * (w / 8)) (8 * length)

variable {w} in
theorem zeros_of_le {length : ℕ} (h : length % blockLength w + 1 + 2 * (w / 8) ≤ blockLength w) :
    zeros w length = blockLength w - (length % blockLength w + 1 + 2 * (w / 8)) := by
  rw [zeros, Nat.add_assoc, ← Nat.mod_add_mod, ← Nat.add_assoc]
  rcases Nat.lt_or_eq_of_le h with hlt | heq
  · rw [Nat.mod_eq_of_lt hlt, Nat.mod_eq_of_lt (by omega)]
  · rw [heq, Nat.mod_self, Nat.sub_zero, Nat.mod_self, Nat.sub_self]

variable {w} in
theorem zeros_of_gt {length : ℕ} (h : blockLength w < length % blockLength w + 1 + 2 * (w / 8))
    (hw : 2 * (w / 8) < blockLength w) :
    zeros w length = 2 * blockLength w - (length % blockLength w + 1 + 2 * (w / 8)) := by
  have hmod : length % blockLength w < blockLength w := Nat.mod_lt _ (by omega)
  rw [zeros, Nat.add_assoc length, ← Nat.mod_add_mod, ← Nat.add_assoc]
  generalize length % blockLength w = u at h hmod ⊢
  have hwrap : (u + 1 + 2 * (w / 8)) % blockLength w = u + 1 + 2 * (w / 8) - blockLength w := by
    rw [Nat.mod_eq_sub_mod h.le, Nat.mod_eq_of_lt (by omega)]
  rw [hwrap, Nat.mod_eq_of_lt (by omega)]
  omega

end

section

variable {w : ℕ} (A : Algorithm w)

def digest (x : Registers (BitVec w)) : List UInt8 := x.toList.flatMap (bytesOf w)

theorem digest_length (x : Registers (BitVec w)) : (digest x).length = 8 * (w / 8) := by
  rw [digest, bytesOf_flatMap_length, Nat.mul_comm]
  rfl

def takeBlock (hash : Registers (BitVec w)) (block : List UInt8) : Registers (BitVec w) :=
  A.compress hash (wordOf w block)

def hash (message : List UInt8) : List UInt8 :=
  digest (absorbAll (takeBlock A) (blockLength w) A.initial (message ++ padding w message.length))

theorem takeBlock_words (hw : 8 ∣ w) (state : Registers (BitVec w)) {words : List (BitVec w)} (h : words.length = 16) :
    takeBlock A state (words.flatMap (bytesOf w)) = A.compress state (fun t => words.getD t 0) := by
  apply A.compress_congr
  intro t ht
  exact wordOf_flatMap hw words (by rwa [h])

end

/-- The first `w` bits of the fractional part of the `k`-th root of `n` -/
def fraction (k w n : ℕ) : BitVec w := BitVec.ofNat w (Nat.nthRoot k (n * 2 ^ (k * w)))

def primes (n : ℕ) : List ℕ := (List.range n).filter fun k => decide k.Prime

theorem primes_succ (n : ℕ) : primes (n + 1) = if n.Prime then primes n ++ [n] else primes n := by
  rw [primes, List.range_succ, List.filter_append, List.filter_singleton]
  by_cases hn : n.Prime
  · simp [hn, primes]
  · simp [hn, primes]

theorem getElem?_primes {n t : ℕ} (ht : t < (primes n).length) : (primes n)[t]? = some (Nat.nth Nat.Prime t) := by
  have hcount (m : ℕ) : (primes m).length = Nat.count Nat.Prime m := by
    induction m with
    | zero => rfl
    | succ m ih =>
      rw [primes_succ, Nat.count_succ, ← ih]
      split <;> simp
  induction n with
  | zero => exact absurd ht (Nat.not_lt_zero t)
  | succ n ih =>
    rw [primes_succ] at ht ⊢
    split at ht
    · rename_i hn
      rw [if_pos hn]
      rcases Nat.lt_or_ge t (primes n).length with hlt | hge
      · rw [List.getElem?_append_left hlt, ih hlt]
      · have hlast : t = (primes n).length := by
          rw [List.length_append, List.length_singleton] at ht
          omega
        rw [hlast, List.getElem?_append_right le_rfl, Nat.sub_self, hcount, Nat.nth_count hn]
        rfl
    · rename_i hn
      rw [if_neg hn]
      exact ih ht

theorem getD_map_primes {k w n m t : ℕ} (ht : t < (primes n).length) (hm : t < m) :
    (((primes n).take m).map (fraction k w)).getD t 0 = fraction k w (Nat.nth Nat.Prime t) := by
  rw [List.getD_eq_getElem?_getD, List.getElem?_map, List.getElem?_take_of_lt hm, getElem?_primes ht]
  rfl

noncomputable def sha256 : Algorithm 32 where
  rounds := 64
  constant t := fraction 3 32 (Nat.nth Nat.Prime t)
  initial := .ofFn fun i => fraction 2 32 (Nat.nth Nat.Prime i)
  upperSigma0 := rotations 2 13 22
  upperSigma1 := rotations 6 11 25
  lowerSigma0 := rotationsShift 7 18 3
  lowerSigma1 := rotationsShift 17 19 10

noncomputable def sha512 : Algorithm 64 where
  rounds := 80
  constant t := fraction 3 64 (Nat.nth Nat.Prime t)
  initial := .ofFn fun i => fraction 2 64 (Nat.nth Nat.Prime i)
  upperSigma0 := rotations 28 34 39
  upperSigma1 := rotations 14 18 41
  lowerSigma0 := rotationsShift 1 8 7
  lowerSigma1 := rotationsShift 19 61 6

end TronlinkCore.Fips180
