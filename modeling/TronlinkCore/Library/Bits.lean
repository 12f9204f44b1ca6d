import TronlinkCore.Library.Windows
import Mathlib.Data.Nat.Bitwise
import Mathlib.Tactic.Ring

/-!
Bits with the highest one first: those of a number at a fixed width, the number
that bits stand for, and the bits of bytes in a row.
-/

namespace TronlinkCore.Bits

open Windows

def ofNat (w n : ℕ) : List Bool := (List.range w).map fun i => n.testBit (w - 1 - i)

def value (bs : List Bool) : ℕ := bs.foldl (fun n b => 2 * n + b.toNat) 0

def ofBytes (bs : List UInt8) : List Bool := bs.flatMap fun b => ofNat 8 b.toNat

@[simp] theorem ofNat_length (w n : ℕ) : (ofNat w n).length = w := by rw [ofNat, List.length_map, List.length_range]

theorem getElem?_ofNat (w n i : ℕ) : (ofNat w n)[i]? = if i < w then some (n.testBit (w - 1 - i)) else none := by
  rw [ofNat, List.getElem?_map]
  by_cases hi : i < w
  · rw [List.getElem?_range hi, if_pos hi]
    rfl
  · rw [List.getElem?_eq_none (by rw [List.length_range]; omega), if_neg hi]
    rfl

theorem value_append (as bs : List Bool) : value (as ++ bs) = value as * 2 ^ bs.length + value bs := by
  have fold (n : ℕ) : bs.foldl (fun n b => 2 * n + b.toNat) n = n * 2 ^ bs.length + value bs := by
    unfold value
    induction bs generalizing n with
    | nil => simp
    | cons b bs ih =>
      rw [List.foldl_cons, ih, List.foldl_cons, ih (2 * 0 + b.toNat), List.length_cons, pow_succ]
      ring
  rw [value, List.foldl_append]
  exact fold _

theorem value_cons (b : Bool) (bs : List Bool) : value (b :: bs) = b.toNat * 2 ^ bs.length + value bs := by
  have h := value_append [b] bs
  simpa [value] using h

theorem value_lt (bs : List Bool) : value bs < 2 ^ bs.length := by
  induction bs with
  | nil => exact Nat.one_pos
  | cons b bs ih =>
    have hb : b.toNat ≤ 1 := Bool.toNat_le b
    have hm := Nat.mul_le_mul_right (2 ^ bs.length) hb
    rw [value_cons, List.length_cons, pow_succ]
    omega

theorem ofNat_succ (w n : ℕ) : ofNat (w + 1) n = n.testBit w :: ofNat w n := by
  rw [ofNat, List.range_succ_eq_map, List.map_cons, List.map_map, ofNat]
  congr 1
  apply List.map_congr_left
  intro i _
  rw [Function.comp_apply]
  congr 1
  omega

theorem value_ofNat (w n : ℕ) : value (ofNat w n) = n % 2 ^ w := by
  induction w with
  | zero => exact (Nat.mod_one n).symm
  | succ w ih =>
    have hbit : (n.testBit w).toNat = n / 2 ^ w % 2 := Nat.toNat_testBit n w
    rw [ofNat_succ, value_cons, ofNat_length, ih, hbit, pow_succ, Nat.mod_mul, Nat.mul_comm, Nat.add_comm]

theorem value_injective {as bs : List Bool} (h : as.length = bs.length) (hv : value as = value bs) : as = bs := by
  induction as generalizing bs with
  | nil => exact (List.eq_nil_of_length_eq_zero h.symm).symm
  | cons a as ih =>
    cases bs with
    | nil => cases h
    | cons b bs =>
      have hlen : as.length = bs.length := Nat.succ.inj h
      have ha := value_lt as
      have hb := value_lt bs
      rw [value_cons, value_cons, hlen] at hv
      rw [hlen] at ha
      generalize 2 ^ bs.length = p at hv ha hb
      cases a <;> cases b <;> simp only [Bool.toNat_true, Bool.toNat_false, Nat.one_mul, Nat.zero_mul, Nat.zero_add] at hv
      · rw [ih hlen hv]
      · omega
      · omega
      · rw [ih hlen (Nat.add_left_cancel hv)]

theorem ofNat_value (bs : List Bool) : ofNat bs.length (value bs) = bs := by
  apply value_injective (ofNat_length _ _)
  rw [value_ofNat, Nat.mod_eq_of_lt (value_lt bs)]

theorem ofNat_take {w k : ℕ} (n : ℕ) (hk : k ≤ w) : (ofNat w n).take k = ofNat k (n / 2 ^ (w - k)) := by
  apply List.ext_getElem?
  intro i
  rw [List.getElem?_take, getElem?_ofNat, getElem?_ofNat]
  by_cases hi : i < k
  · rw [if_pos hi, if_pos (by omega), if_pos hi, Nat.testBit_div_two_pow]
    congr 2
    omega
  · rw [if_neg hi, if_neg hi]

theorem ofNat_injective {w a b : ℕ} (ha : a < 2 ^ w) (hb : b < 2 ^ w) (h : ofNat w a = ofNat w b) : a = b := by
  have hv := congrArg value h
  rwa [value_ofNat, value_ofNat, Nat.mod_eq_of_lt ha, Nat.mod_eq_of_lt hb] at hv

theorem flatMap_ofNat_length (w : ℕ) (ns : List ℕ) : (ns.flatMap (ofNat w)).length = w * ns.length := by
  induction ns with
  | nil => rfl
  | cons n ns ih => rw [List.flatMap_cons, List.length_append, ih, ofNat_length, List.length_cons, Nat.mul_succ, Nat.add_comm]

theorem flatMap_ofNat_injective {w : ℕ} {as bs : List ℕ} (hlen : as.length = bs.length) (ha : ∀ a ∈ as, a < 2 ^ w)
    (hb : ∀ b ∈ bs, b < 2 ^ w) (h : as.flatMap (ofNat w) = bs.flatMap (ofNat w)) : as = bs := by
  induction as generalizing bs with
  | nil => exact (List.eq_nil_of_length_eq_zero hlen.symm).symm
  | cons a as ih =>
    cases bs with
    | nil => cases hlen
    | cons b bs =>
      rw [List.flatMap_cons, List.flatMap_cons] at h
      obtain ⟨hab, hrest⟩ := List.append_inj h (by rw [ofNat_length, ofNat_length])
      rw [ofNat_injective (ha a List.mem_cons_self) (hb b List.mem_cons_self) hab,
        ih (Nat.succ.inj hlen) (fun a h => ha a (List.mem_cons_of_mem _ h)) (fun b h => hb b (List.mem_cons_of_mem _ h)) hrest]

@[simp] theorem ofBytes_nil : ofBytes [] = [] := rfl

theorem ofBytes_append (as bs : List UInt8) : ofBytes (as ++ bs) = ofBytes as ++ ofBytes bs := List.flatMap_append

@[simp] theorem ofBytes_length (bs : List UInt8) : (ofBytes bs).length = 8 * bs.length := by
  induction bs with
  | nil => rfl
  | cons b bs ih =>
    rw [ofBytes, List.flatMap_cons, List.length_append, ofNat_length]
    rw [ofBytes] at ih
    rw [ih, List.length_cons, Nat.mul_succ, Nat.add_comm]

theorem ofBytes_replicate_zero (k : ℕ) : ofBytes (List.replicate k 0) = List.replicate (8 * k) false := by
  induction k with
  | zero => rfl
  | succ k ih =>
    have hzero : ofNat 8 (0 : UInt8).toNat = List.replicate 8 false := by decide
    have hcons : ofBytes (List.replicate (k + 1) 0) = ofNat 8 (0 : UInt8).toNat ++ ofBytes (List.replicate k 0) := rfl
    rw [hcons, hzero, ih, List.replicate_append_replicate, Nat.mul_succ, Nat.add_comm]

theorem ofBytes_take (bs : List UInt8) (k : ℕ) : (ofBytes bs).take (8 * k) = ofBytes (bs.take k) := by
  have hsplit : ofBytes bs = ofBytes (bs.take k) ++ ofBytes (bs.drop k) := by rw [← ofBytes_append, List.take_append_drop]
  rcases Nat.le_total k bs.length with hk | hk
  · rw [hsplit, List.take_left' (by rw [ofBytes_length, List.length_take_of_le hk])]
  · rw [List.take_of_length_le (by rw [ofBytes_length]; omega), List.take_of_length_le hk]

theorem getElem?_ofBytes (bs : List UInt8) (i : ℕ) :
    (ofBytes bs)[i]? = bs[i / 8]?.map fun b => b.toNat.testBit (7 - i % 8) := by
  induction bs generalizing i with
  | nil => simp
  | cons b bs ih =>
    have hcons : ofBytes (b :: bs) = ofNat 8 b.toNat ++ ofBytes bs := rfl
    rw [hcons]
    rcases Nat.lt_or_ge i 8 with hi | hi
    · rw [List.getElem?_append_left (by rwa [ofNat_length]), getElem?_ofNat, if_pos hi, Nat.div_eq_of_lt hi,
        Nat.mod_eq_of_lt hi]
      rfl
    · have hdiv : i / 8 = (i - 8) / 8 + 1 := by omega
      have hmod : i % 8 = (i - 8) % 8 := by omega
      rw [List.getElem?_append_right (by rwa [ofNat_length]), ofNat_length, ih, hdiv, hmod, List.getElem?_cons_succ]

theorem ofBytes_injective {as bs : List UInt8} (h : ofBytes as = ofBytes bs) : as = bs := by
  have hlen := congrArg List.length h
  rw [ofBytes_length, ofBytes_length] at hlen
  induction as generalizing bs with
  | nil => exact (List.eq_nil_of_length_eq_zero (by simpa using hlen.symm)).symm
  | cons a as ih =>
    cases bs with
    | nil => simp at hlen
    | cons b bs =>
      obtain ⟨hab, hrest⟩ := List.append_inj h (by rw [ofNat_length, ofNat_length])
      have hv := congrArg value hab
      rw [value_ofNat, value_ofNat, Nat.mod_eq_of_lt a.toNat_lt, Nat.mod_eq_of_lt b.toNat_lt] at hv
      rw [UInt8.toNat_inj.mp hv, ih hrest (by rw [List.length_cons, List.length_cons] at hlen; omega)]

theorem testBit_setBit (b : UInt8) {m : ℕ} (hm : m < 8) (j : ℕ) :
    (b ||| 1 <<< UInt8.ofNat m).toNat.testBit j = (b.toNat.testBit j || decide (m = j)) := by
  have hpow : 2 ^ m < 2 ^ 8 := Nat.pow_lt_pow_right (by omega) hm
  have hshift : (1 <<< UInt8.ofNat m : UInt8).toNat = 2 ^ m := by
    rw [UInt8.toNat_shiftLeft, UInt8.toNat_ofNat', Nat.mod_eq_of_lt (show m < 2 ^ 8 by omega), Nat.mod_eq_of_lt hm,
      show (1 : UInt8).toNat = 1 from rfl, Nat.one_shiftLeft, Nat.mod_eq_of_lt hpow]
  rw [UInt8.toNat_or, hshift, Nat.testBit_or, Nat.testBit_two_pow]

theorem ofBytes_set {bs : List UInt8} {i : ℕ} {b : UInt8} (hb : bs[i / 8]? = some b) :
    ofBytes (bs.set (i / 8) (b ||| 1 <<< UInt8.ofNat (7 - i % 8))) = (ofBytes bs).set i true := by
  obtain ⟨hlt, hget⟩ := List.getElem?_eq_some_iff.mp hb
  apply List.ext_getElem?
  intro k
  rw [getElem?_ofBytes, List.getElem?_set, List.getElem?_set, ofBytes_length, getElem?_ofBytes]
  by_cases hbyte : i / 8 = k / 8
  · rw [if_pos hbyte, if_pos hlt, Option.map_some, testBit_setBit b (by omega), ← hbyte, hb, Option.map_some]
    by_cases hik : i = k
    · subst hik
      rw [if_pos rfl, if_pos (by omega), decide_eq_true rfl, Bool.or_true]
    · have hne : ¬ 7 - i % 8 = 7 - k % 8 := by omega
      rw [if_neg hik, decide_eq_false hne, Bool.or_false]
  · have hik : i ≠ k := by
      rintro rfl
      exact hbyte rfl
    rw [if_neg hbyte, if_neg hik]

end TronlinkCore.Bits
