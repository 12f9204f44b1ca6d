import Mathlib.Algebra.Order.Field.Basic
import Mathlib.Algebra.Order.Field.Rat
import Mathlib.Tactic.Linarith
import Mathlib.Tactic.Positivity
import TronlinkCore.Library.DecimalTexts

/-!
The spelling of a decimal without superfluous zeros: one text for each number.
-/

namespace TronlinkCore.Text

theorem eq_of_decimalValue {s t : Text} (hs : IsDigits s) (ht : IsDigits t) (hlength : s.length = t.length)
    (h : decimalValue s = decimalValue t) : s = t := by
  induction s generalizing t with
  | nil => exact (List.length_eq_zero_iff.mp hlength.symm).symm
  | cons c s ih =>
    cases t with
    | nil => cases hlength
    | cons d t =>
      have hlength := Nat.succ.inj hlength
      have hsrest : IsDigits s := fun e he => hs e (List.mem_cons_of_mem c he)
      have htrest : IsDigits t := fun e he => ht e (List.mem_cons_of_mem d he)
      have hslt := decimalValue_lt hsrest
      have htlt := decimalValue_lt htrest
      have hpos : 0 < 10 ^ t.length := Nat.pow_pos (by decide)
      rw [decimalValue_cons, decimalValue_cons, hlength] at h
      rw [hlength] at hslt
      have hhead : c.toNat - 48 = d.toNat - 48 := by
        have hdiv : ((c.toNat - 48) * 10 ^ t.length + decimalValue s) / 10 ^ t.length =
            ((d.toNat - 48) * 10 ^ t.length + decimalValue t) / 10 ^ t.length := by rw [h]
        rwa [Nat.mul_comm (c.toNat - 48), Nat.mul_add_div hpos, Nat.div_eq_of_lt hslt, Nat.mul_comm (d.toNat - 48),
          Nat.mul_add_div hpos, Nat.div_eq_of_lt htlt, Nat.add_zero, Nat.add_zero] at hdiv
      have hc : 48 ≤ c.toNat := (Char.isDigit_iff_toNat.mp (hs c List.mem_cons_self)).1
      have hd : 48 ≤ d.toNat := (Char.isDigit_iff_toNat.mp (ht d List.mem_cons_self)).1
      have hcd : c = d := Char.toNat_inj.mp (by omega)
      rw [hcd] at h
      rw [hcd, ih hsrest htrest hlength (Nat.add_left_cancel h)]

theorem decimalValue_dropWhile (s : Text) : decimalValue (s.dropWhile (· == '0')) = decimalValue s := by
  induction s with
  | nil => rfl
  | cons c s ih =>
    by_cases hc : c = '0'
    · have hzero : '0'.toNat - 48 = 0 := rfl
      rw [hc, List.dropWhile_cons_of_pos rfl, ih, decimalValue_cons, hzero, Nat.zero_mul, Nat.zero_add]
    · rw [List.dropWhile_cons_of_neg (by simpa using hc)]

theorem toDigits_decimalValue {s : Text} (h : IsDigits s) : Nat.toDigits 10 (decimalValue s) =
    if s.dropWhile (· == '0') = [] then ['0'] else s.dropWhile (· == '0') := by
  rw [← decimalValue_dropWhile]
  split
  · rename_i hnil
    rw [hnil]
    rfl
  · rename_i hne
    apply Decimal.toDigits_ofDigitChars _ hne
    · right
      intro hhead
      have hnot := List.head?_dropWhile_not (· == '0') s
      rw [hhead] at hnot
      exact absurd hnot (by decide)
    · exact fun c hc => h c ((List.dropWhile_suffix _).subset hc)

def shortest (integer fraction : Text) : Text :=
  if fraction.rdropWhile (· == '0') = [] then Nat.toDigits 10 (decimalValue integer)
  else Nat.toDigits 10 (decimalValue integer) ++ '.' :: fraction.rdropWhile (· == '0')

section

variable {integer fraction integer' fraction' : Text}

theorem IsDigits.rdropWhile {s : Text} (h : IsDigits s) (p : Char → Bool) : IsDigits (s.rdropWhile p) :=
  fun c hc => h c ((List.rdropWhile_prefix p s).subset hc)

theorem writesDigits_shortest (integer : Text) (h : IsDigits fraction) : WritesDigits (shortest integer fraction)
    (Nat.toDigits 10 (decimalValue integer)) (fraction.rdropWhile (· == '0')) where
  text_eq := by
    unfold shortest
    split
    · rename_i hnil
      exact .inl ⟨rfl, hnil⟩
    · rename_i hne
      exact .inr ⟨rfl, hne⟩
  integer_ne := Nat.toDigits_ne_nil
  integer_digits := isDigits_toDigits _
  fraction_digits := h.rdropWhile _

theorem denoted_shortest (negative : Bool) : denoted negative (Nat.toDigits 10 (decimalValue integer))
    (fraction.rdropWhile (· == '0')) = denoted negative integer fraction := by
  rw [denoted, denoted, decimalValue_toDigits, rdropWhile_value]

theorem fraction_lt_one (h : IsDigits fraction) : (decimalValue fraction : ℚ) / 10 ^ fraction.length < 1 := by
  rw [div_lt_one (by positivity)]
  exact_mod_cast decimalValue_lt h

theorem fraction_unique (h : IsDigits fraction) (h' : IsDigits fraction') (hlast' : fraction'.getLast? ≠ some '0')
    (hle : fraction.length ≤ fraction'.length)
    (hvalue : (decimalValue fraction : ℚ) / 10 ^ fraction.length = decimalValue fraction' / 10 ^ fraction'.length) :
    fraction = fraction' := by
  obtain ⟨k, hk⟩ := Nat.exists_eq_add_of_le hle
  have hscaled : decimalValue (fraction ++ List.replicate k '0') = decimalValue fraction' := by
    rw [decimalValue_append, decimalValue_zeros, Nat.add_zero, List.length_replicate]
    rw [hk, pow_add, div_eq_div_iff (by positivity) (by positivity)] at hvalue
    have hpow : (10 : ℚ) ^ fraction.length ≠ 0 := by positivity
    have hcancel : (decimalValue fraction : ℚ) * 10 ^ k = decimalValue fraction' := by
      apply mul_right_cancel₀ hpow
      linarith
    exact_mod_cast hcancel
  have heq := eq_of_decimalValue (isDigits_append.mpr ⟨h, isDigits_zeros k⟩) h'
    (by rw [List.length_append, List.length_replicate, hk]) hscaled
  cases k with
  | zero => rwa [List.replicate_zero, List.append_nil] at heq
  | succ k =>
    rw [List.replicate_succ', ← List.append_assoc] at heq
    rw [← heq, List.getLast?_concat] at hlast'
    exact absurd rfl hlast'

theorem shortest_injective (h : IsDigits fraction) (h' : IsDigits fraction')
    (hvalue : denoted false integer fraction = denoted false integer' fraction') :
    shortest integer fraction = shortest integer' fraction' := by
  simp only [denoted, Bool.false_eq_true, if_false, one_mul] at hvalue
  have hlt := fraction_lt_one h
  have hlt' := fraction_lt_one h'
  have hpos : (0 : ℚ) ≤ decimalValue fraction / 10 ^ fraction.length := by positivity
  have hpos' : (0 : ℚ) ≤ decimalValue fraction' / 10 ^ fraction'.length := by positivity
  have hinteger : decimalValue integer = decimalValue integer' := by
    have hle : (decimalValue integer : ℚ) < decimalValue integer' + 1 := by linarith
    have hge : (decimalValue integer' : ℚ) < decimalValue integer + 1 := by linarith
    have hle : decimalValue integer < decimalValue integer' + 1 := by exact_mod_cast hle
    have hge : decimalValue integer' < decimalValue integer + 1 := by exact_mod_cast hge
    omega
  rw [hinteger] at hvalue
  have hfraction := add_left_cancel hvalue
  rw [← rdropWhile_value fraction, ← rdropWhile_value fraction'] at hfraction
  have hsame : fraction.rdropWhile (· == '0') = fraction'.rdropWhile (· == '0') := by
    rcases Nat.le_total (fraction.rdropWhile (· == '0')).length (fraction'.rdropWhile (· == '0')).length with hle | hle
    · exact fraction_unique (h.rdropWhile _) (h'.rdropWhile _) (rdropWhile_getLast? _) hle hfraction
    · exact (fraction_unique (h'.rdropWhile _) (h.rdropWhile _) (rdropWhile_getLast? _) hle hfraction.symm).symm
  rw [shortest, shortest, hinteger, hsame]

end

end TronlinkCore.Text
