import Mathlib.Data.Nat.Log
import Mathlib.Data.List.Induction
import Mathlib.Tactic.Linarith
import Mathlib.Tactic.Positivity
import Mathlib.Tactic.Ring

/-!
Big-endian bytes of natural numbers: reading, writing at a fixed width, the
shortest form, and two's complement at a fixed width.
-/

namespace TronlinkCore.BigEndian

def ofBytes (bs : List UInt8) : ℕ := bs.foldl (fun n b => n * 256 + b.toNat) 0

def toBytes : ℕ → ℕ → List UInt8
  | 0, _ => []
  | w + 1, n => toBytes w (n / 256) ++ [UInt8.ofNat (n % 256)]

theorem ofBytes_append (as bs : List UInt8) :
    ofBytes (as ++ bs) = ofBytes as * 256 ^ bs.length + ofBytes bs := by
  have fold (n : ℕ) : bs.foldl (fun n b => n * 256 + b.toNat) n = n * 256 ^ bs.length + ofBytes bs := by
    unfold ofBytes
    induction bs generalizing n with
    | nil => simp
    | cons b bs ih =>
      rw [List.foldl_cons, ih, List.foldl_cons, ih (0 * 256 + b.toNat), List.length_cons, pow_succ]
      ring
  rw [ofBytes, List.foldl_append]
  exact fold _

@[simp] theorem ofBytes_nil : ofBytes [] = 0 := rfl

@[simp] theorem ofBytes_singleton (b : UInt8) : ofBytes [b] = b.toNat := by simp [ofBytes]

theorem ofBytes_cons (b : UInt8) (bs : List UInt8) :
    ofBytes (b :: bs) = b.toNat * 256 ^ bs.length + ofBytes bs := by
  simpa using ofBytes_append [b] bs

@[simp] theorem ofBytes_replicate_zero (k : ℕ) : ofBytes (List.replicate k 0) = 0 := by
  induction k with
  | zero => rfl
  | succ k ih => rw [List.replicate_succ, ofBytes_cons, ih]; simp

theorem ofBytes_lt (bs : List UInt8) : ofBytes bs < 256 ^ bs.length := by
  induction bs with
  | nil => simp
  | cons b bs ih =>
    have hb : b.toNat + 1 ≤ 256 := b.toNat_lt
    have hm := Nat.mul_le_mul_right (256 ^ bs.length) hb
    rw [ofBytes_cons, List.length_cons, pow_succ]
    linarith

@[simp] theorem toBytes_length (w n : ℕ) : (toBytes w n).length = w := by
  induction w generalizing n with
  | zero => rfl
  | succ w ih => simp [toBytes, ih]

theorem ofBytes_toBytes (w n : ℕ) : ofBytes (toBytes w n) = n % 256 ^ w := by
  induction w generalizing n with
  | zero => simp [toBytes, Nat.mod_one]
  | succ w ih =>
    have hb : (UInt8.ofNat (n % 256)).toNat = n % 256 := by
      simp
    rw [toBytes, ofBytes_append, ih, ofBytes_singleton, hb, pow_succ', Nat.mod_mul]
    simp only [List.length_singleton, pow_one]
    ring

theorem ofBytes_toBytes_of_lt {w n : ℕ} (h : n < 256 ^ w) : ofBytes (toBytes w n) = n := by
  rw [ofBytes_toBytes, Nat.mod_eq_of_lt h]

theorem toBytes_ofBytes (bs : List UInt8) : toBytes bs.length (ofBytes bs) = bs := by
  induction bs using List.reverseRecOn with
  | nil => rfl
  | append_singleton bs b ih =>
    have hb : b.toNat < 256 := b.toNat_lt
    have hdiv : (ofBytes bs * 256 + b.toNat) / 256 = ofBytes bs := by omega
    have hmod : (ofBytes bs * 256 + b.toNat) % 256 = b.toNat := by omega
    rw [List.length_append, List.length_singleton, toBytes, ofBytes_append, ofBytes_singleton,
      List.length_singleton, pow_one, hdiv, hmod, ih, UInt8.ofNat_toNat]

theorem toBytes_mod (w n : ℕ) : toBytes w (n % 256 ^ w) = toBytes w n := by
  have h := toBytes_ofBytes (toBytes w n)
  rwa [toBytes_length, ofBytes_toBytes] at h

theorem toBytes_of_length {w : ℕ} {bs : List UInt8} (h : bs.length = w) : toBytes w (ofBytes bs) = bs := by
  subst h
  exact toBytes_ofBytes bs

theorem toBytes_add (k w n : ℕ) : toBytes (k + w) n = toBytes k (n / 256 ^ w) ++ toBytes w n := by
  induction w generalizing n with
  | zero => simp [toBytes]
  | succ w ih =>
    rw [← Nat.add_assoc, toBytes, ih, toBytes, Nat.div_div_eq_div_mul, pow_succ', List.append_assoc]

theorem toBytes_zero (w : ℕ) : toBytes w 0 = List.replicate w 0 := by
  induction w with
  | zero => rfl
  | succ w ih => rw [toBytes, Nat.zero_div, ih, List.replicate_succ']; rfl

theorem toBytes_padded {k w n : ℕ} (h : n < 256 ^ w) :
    toBytes (k + w) n = List.replicate k 0 ++ toBytes w n := by
  rw [toBytes_add, Nat.div_eq_of_lt h, toBytes_zero]

def bitWidth (n : ℕ) : ℕ := if n = 0 then 0 else Nat.log2 n + 1

theorem bitWidth_le_iff {n k : ℕ} : bitWidth n ≤ k ↔ n < 2 ^ k := by
  by_cases h : n = 0
  · simp [bitWidth, h]
  · rw [bitWidth, if_neg h, Nat.succ_le_iff, Nat.log2_lt h]

def byteWidth (n : ℕ) : ℕ := (bitWidth n + 7) / 8

theorem byteWidth_le_iff {n w : ℕ} : byteWidth n ≤ w ↔ n < 256 ^ w := by
  have hp : (256 : ℕ) ^ w = 2 ^ (8 * w) := by rw [pow_mul]; norm_num
  rw [hp, ← bitWidth_le_iff, byteWidth]
  omega

theorem byteWidth_pos {n : ℕ} (h : 0 < n) : 0 < byteWidth n := by
  by_contra hzero
  have hle : byteWidth n ≤ 0 := Nat.le_of_not_lt hzero
  have hlt := byteWidth_le_iff.mp hle
  omega

def serialize (n : ℕ) : List UInt8 := toBytes (byteWidth n) n

@[simp] theorem serialize_length (n : ℕ) : (serialize n).length = byteWidth n := toBytes_length _ _

theorem ofBytes_serialize (n : ℕ) : ofBytes (serialize n) = n := ofBytes_toBytes_of_lt (byteWidth_le_iff.mp (le_refl _))

theorem serialize_of_between {w n : ℕ} (hl : 256 ^ w ≤ n) (hu : n < 256 ^ (w + 1)) :
    serialize n = toBytes (w + 1) n := by
  have hle : byteWidth n ≤ w + 1 := byteWidth_le_iff.mpr hu
  have hgt : ¬ byteWidth n ≤ w := fun h => absurd (byteWidth_le_iff.mp h) (Nat.not_lt.mpr hl)
  have hw : byteWidth n = w + 1 := by omega
  rw [serialize, hw]

theorem replicate_serialize {n w : ℕ} (h : n < 256 ^ w) :
    List.replicate (w - byteWidth n) 0 ++ serialize n = toBytes w n := by
  have hw : byteWidth n ≤ w := byteWidth_le_iff.mpr h
  have hn : n < 256 ^ byteWidth n := byteWidth_le_iff.mp (le_refl _)
  rw [serialize, ← toBytes_padded hn, Nat.sub_add_cancel hw]

def ofInt (w : ℕ) (i : ℤ) : ℕ := (i % (256 ^ w : ℤ)).toNat

def toInt (w : ℕ) (n : ℕ) : ℤ := if 2 * n < 256 ^ w then n else n - 256 ^ w

theorem signBit_iff (b : UInt8) : (b &&& 0x80 = 0 ↔ b.toNat < 128) ∧ ((b &&& 0x80) >>> 7 = 0 ↔ b.toNat < 128) := by
  have h : ∀ n : Fin 256, (UInt8.ofFin n &&& 0x80 = 0 ↔ (UInt8.ofFin n).toNat < 128) ∧
      ((UInt8.ofFin n &&& 0x80) >>> 7 = 0 ↔ (UInt8.ofFin n).toNat < 128) := by decide +kernel
  exact h b.toFin

theorem ofInt_lt (w : ℕ) (i : ℤ) : ofInt w i < 256 ^ w := by
  have hp : (0 : ℤ) < 256 ^ w := by positivity
  have hl := Int.emod_lt_of_pos i hp
  have hg := Int.emod_nonneg i hp.ne'
  rw [ofInt, Int.toNat_lt hg]
  exact_mod_cast hl

theorem ofInt_of_nonneg {w : ℕ} {i : ℤ} (h0 : 0 ≤ i) (h : i < 256 ^ w) : ofInt w i = i.natAbs := by
  rw [ofInt, Int.emod_eq_of_lt h0 h]
  omega

theorem ofInt_of_neg {w : ℕ} {i : ℤ} (h0 : i < 0) (h : -(256 ^ w : ℤ) ≤ i) :
    ofInt w i = 256 ^ w - i.natAbs := by
  have he : i % (256 ^ w : ℤ) = i + 256 ^ w := by
    rw [← Int.add_emod_right, Int.emod_eq_of_lt (by omega) (by omega)]
  have hc : ((256 ^ w : ℕ) : ℤ) = (256 : ℤ) ^ w := by push_cast; rfl
  rw [ofInt, he]
  omega

theorem toInt_ofInt {w : ℕ} {i : ℤ} (hl : -(256 ^ w : ℤ) ≤ 2 * i) (hu : 2 * i < 256 ^ w) :
    toInt w (ofInt w i) = i := by
  have hc : ((256 ^ w : ℕ) : ℤ) = (256 : ℤ) ^ w := by push_cast; rfl
  by_cases h0 : 0 ≤ i
  · rw [ofInt_of_nonneg h0 (by omega), toInt, if_pos (by omega)]
    omega
  · rw [ofInt_of_neg (by omega) (by omega), toInt, if_neg (by omega)]
    omega

theorem ofInt_toInt {w n : ℕ} (h : n < 256 ^ w) : ofInt w (toInt w n) = n := by
  have hc : ((256 ^ w : ℕ) : ℤ) = (256 : ℤ) ^ w := by push_cast; rfl
  by_cases hn : 2 * n < 256 ^ w
  · rw [toInt, if_pos hn, ofInt_of_nonneg (by omega) (by omega)]
    omega
  · rw [toInt, if_neg hn, ofInt_of_neg (by omega) (by omega)]
    omega

end TronlinkCore.BigEndian
