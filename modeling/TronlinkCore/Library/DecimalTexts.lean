import Mathlib.Data.List.DropRight
import Mathlib.Data.Rat.Lemmas
import Mathlib.Tactic.FieldSimp
import TronlinkCore.Library.Decimal
import TronlinkCore.Library.Numerals

namespace TronlinkCore.Text

structure WritesDigits (text integer fraction : Text) : Prop where
  text_eq : text = integer ∧ fraction = [] ∨ text = integer ++ '.' :: fraction ∧ fraction ≠ []
  integer_ne : integer ≠ []
  integer_digits : IsDigits integer
  fraction_digits : IsDigits fraction

inductive WritesDecimal : Text → Bool → Text → Text → Prop where
  | unsigned {text integer fraction : Text} (h : WritesDigits text integer fraction) :
      WritesDecimal text false integer fraction
  | plus {text integer fraction : Text} (h : WritesDigits text integer fraction) :
      WritesDecimal ('+' :: text) false integer fraction
  | minus {text integer fraction : Text} (h : WritesDigits text integer fraction) :
      WritesDecimal ('-' :: text) true integer fraction

def denoted (negative : Bool) (integer fraction : Text) : ℚ :=
  (if negative then -1 else 1) * (decimalValue integer + decimalValue fraction / 10 ^ fraction.length)

theorem isDigits_zeros (k : ℕ) : IsDigits (List.replicate k '0') := by
  intro c hc
  rw [List.eq_of_mem_replicate hc]
  rfl

theorem decimalValue_zeros (k : ℕ) : decimalValue (List.replicate k '0') = 0 := by
  induction k with
  | zero => rfl
  | succ k ih =>
    have hzero : ('0' : Char).toNat - 48 = 0 := rfl
    rw [List.replicate_succ, decimalValue_cons, hzero, ih, Nat.zero_mul]

theorem IsDigits.take {s : Text} (h : IsDigits s) (k : ℕ) : IsDigits (s.take k) := fun c hc => h c (List.mem_of_mem_take hc)

theorem IsDigits.drop {s : Text} (h : IsDigits s) (k : ℕ) : IsDigits (s.drop k) := fun c hc => h c (List.mem_of_mem_drop hc)

theorem decimalValue_take {s : Text} (h : IsDigits s) (k : ℕ) :
    decimalValue (s.take k) = decimalValue s / 10 ^ (s.length - k) := by
  have happend := decimalValue_append (s.take k) (s.drop k)
  have hlt := decimalValue_lt (h.drop k)
  rw [List.take_append_drop, List.length_drop] at happend
  rw [List.length_drop] at hlt
  have hpos : 0 < 10 ^ (s.length - k) := Nat.pow_pos (by decide)
  rw [happend, Nat.mul_comm, Nat.mul_add_div hpos, Nat.div_eq_of_lt hlt, Nat.add_zero]

theorem decimalValue_eq_zero {s : Text} (h : IsDigits s) : decimalValue s = 0 ↔ ∀ c ∈ s, c = '0' := by
  constructor
  · intro hzero
    induction s with
    | nil => nofun
    | cons c s ih =>
      rw [decimalValue_cons] at hzero
      obtain ⟨hfirst, hrest⟩ := Nat.add_eq_zero_iff.mp hzero
      have hpow : 10 ^ s.length ≠ 0 := pow_ne_zero _ (by decide)
      have hdigit : c.toNat - 48 = 0 := (Nat.mul_eq_zero.mp hfirst).resolve_right hpow
      have hlow : 48 ≤ c.toNat := (Char.isDigit_iff_toNat.mp (h c List.mem_cons_self)).1
      have h48 : ('0' : Char).toNat = 48 := rfl
      have hc : c.toNat = ('0' : Char).toNat := by omega
      rw [List.forall_mem_cons]
      exact ⟨Char.toNat_inj.mp hc, ih (fun d hd => h d (List.mem_cons_of_mem c hd)) hrest⟩
  · intro hall
    rw [List.eq_replicate_of_mem hall]
    exact decimalValue_zeros _

theorem rdropWhile_getLast? (s : Text) : (s.rdropWhile (· == '0')).getLast? ≠ some '0' := by
  intro h
  have hne : s.rdropWhile (· == '0') ≠ [] := by
    intro hnil
    rw [hnil] at h
    cases h
  have hlast := List.rdropWhile_last_not (· == '0') s hne
  rw [List.getLast?_eq_some_getLast hne, Option.some.injEq] at h
  rw [h] at hlast
  exact hlast rfl

theorem rdropWhile_value (s : Text) :
    (decimalValue (s.rdropWhile (· == '0')) : ℚ) / 10 ^ (s.rdropWhile (· == '0')).length =
      decimalValue s / 10 ^ s.length := by
  have hzeros : s.rtakeWhile (· == '0') = List.replicate (s.rtakeWhile (· == '0')).length '0' := by
    apply List.eq_replicate_of_mem
    intro c hc
    simpa using List.mem_rtakeWhile_imp hc
  have hsplit : s.rdropWhile (· == '0') ++ s.rtakeWhile (· == '0') = s := List.rdropWhile_append_rtakeWhile
  have hvalue : decimalValue s = decimalValue (s.rdropWhile (· == '0')) * 10 ^ (s.rtakeWhile (· == '0')).length := by
    have happend := decimalValue_append (s.rdropWhile (· == '0')) (s.rtakeWhile (· == '0'))
    rw [hsplit] at happend
    rw [happend, hzeros, decimalValue_zeros, List.length_replicate, Nat.add_zero]
  have hlength : s.length = (s.rdropWhile (· == '0')).length + (s.rtakeWhile (· == '0')).length := by
    rw [← List.length_append, hsplit]
  rw [hvalue, hlength, pow_add]
  push_cast
  field_simp

theorem point_not_mem {s : Text} (h : IsDigits s) : '.' ∉ s := fun hc => absurd (h '.' hc) (by decide)

theorem chars_of_writes {text integer fraction : Text} (h : WritesDigits text integer fraction) :
    ∀ c ∈ text, c = '.' ∨ c.isDigit := by
  intro c hc
  rcases h.text_eq with ⟨rfl, _⟩ | ⟨rfl, _⟩
  · exact .inr (h.integer_digits c hc)
  · rcases List.mem_append.mp hc with hc | hc
    · exact .inr (h.integer_digits c hc)
    · exact (List.mem_cons.mp hc).imp id (h.fraction_digits c)

theorem digit_of_writes {text integer fraction : Text} (h : WritesDigits text integer fraction) :
    ∃ c rest, text = c :: rest ∧ c.isDigit := by
  cases hinteger : integer with
  | nil => exact absurd hinteger h.integer_ne
  | cons c rest =>
    have hc := h.integer_digits c (by rw [hinteger]; exact List.mem_cons_self)
    rcases h.text_eq with ⟨htext, _⟩ | ⟨htext, _⟩
    · exact ⟨c, rest, by rw [htext, hinteger], hc⟩
    · exact ⟨c, _, by rw [htext, hinteger]; rfl, hc⟩

theorem not_writesDigits {c : Char} (hc : c = '+' ∨ c = '-') {rest : Text} (integer fraction : Text) :
    ¬ WritesDigits (c :: rest) integer fraction := by
  intro hwrites
  obtain ⟨d, rest', htext, hd⟩ := digit_of_writes hwrites
  cases htext
  rcases hc with rfl | rfl
  · exact ne_of_isDigit hd rfl rfl
  · exact ne_of_isDigit hd rfl rfl

end TronlinkCore.Text
