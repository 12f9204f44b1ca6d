import Mathlib.Data.Nat.Factorization.Basic
import TronlinkCore.Library.Rounding
import TronlinkCore.Metrics.Normalization
import TronlinkCore.Metrics.Reports
import TronlinkCore.Web3.AmountsSpec
import TronlinkCore.Web3.FormattingSpec

namespace TronlinkCore.Metrics

open Outcome Text Web3 Rounding

/-- A number in the range of `NSDecimalNumber`, of as many digits as it keeps -/
structure Held (q : ℚ) : Prop where
  nonneg : 0 ≤ q
  digits : Significant 38 q
  lt : q < 10 ^ 128

/-- `NSDecimalNumber` is exact as far as 38 significant digits go. -/
class ExactReports [ReportNumbers] : Prop where
  value_exact : ∀ {s : Text}, isPureNumber s = true → Held (decimalNumber s) →
    DecimalNumbers.value s = some (decimalNumber s)
  multiplying_exact : ∀ {a b : ℚ}, Held a → Held b → Held (a * b) → ReportNumbers.multiplying a b = some (a * b)
  dividing_exact : ∀ {a b : ℚ}, b ≠ 0 → Held a → Held b → Held (a / b) → ReportNumbers.dividing a b = some (a / b)
  rounding_exact : ∀ {scale : ℕ} {a : ℚ}, Held a → ReportNumbers.rounding scale a = ⌊a * 10 ^ scale⌋ / 10 ^ scale
  stringValue_exact : ∀ {a : ℚ}, Held a → ∃ integer fraction,
    WritesDigits (DecimalNumbers.stringValue a) integer fraction ∧ denoted false integer fraction = a

namespace Significant

variable {digits : ℕ} {q : ℚ}

theorem mul_zpow (h : Significant digits q) (k : ℤ) : Significant digits (q * 10 ^ k) := by
  obtain ⟨m, e, hm, rfl⟩ := h
  refine ⟨m, e + k, hm, ?_⟩
  rw [zpow_add₀ (by norm_num), mul_assoc]

theorem tenth_of_pow (h : 0 < digits) (k : ℕ) : Significant digits ((10 : ℚ) ^ k / 10) := by
  refine ⟨1, k - 1, ?_, ?_⟩
  · rw [abs_one]
    exact one_lt_pow₀ (by norm_num) h.ne'
  · rw [zpow_sub_one₀ (by norm_num), zpow_natCast, Int.cast_one, one_mul, div_eq_mul_inv]

theorem pow (h : 0 < digits) (k : ℕ) : Significant digits ((10 : ℚ) ^ k) := by
  refine ⟨1, k, ?_, ?_⟩
  · rw [abs_one]
    exact one_lt_pow₀ (by norm_num) h.ne'
  · rw [zpow_natCast, Int.cast_one, one_mul]

theorem floor (hq : 0 ≤ q) (h : Significant digits q) : Significant digits (⌊q⌋ : ℚ) := by
  obtain ⟨m, e, hm, rfl⟩ := h
  rcases Int.le_total 0 e with he | he
  · obtain ⟨k, rfl⟩ := Int.eq_ofNat_of_zero_le he
    refine ⟨m, k, hm, ?_⟩
    have hinteger : (m : ℚ) * 10 ^ (k : ℤ) = ((m * 10 ^ k : ℤ) : ℚ) := by
      rw [zpow_natCast]
      push_cast
      rfl
    rw [hinteger, Int.floor_intCast]
  · obtain ⟨k, hk⟩ := Int.eq_ofNat_of_zero_le (Int.neg_nonneg_of_nonpos he)
    have hquotient : (m : ℚ) * 10 ^ e = (m : ℚ) / ((10 ^ k : ℕ) : ℚ) := by
      rw [← neg_neg e, hk, zpow_neg, zpow_natCast, div_eq_mul_inv]
      push_cast
      rfl
    have hpos : (0 : ℚ) < ((10 ^ k : ℕ) : ℚ) := by positivity
    rw [hquotient] at hq ⊢
    have hm0 : 0 ≤ m := by
      have hcast : (0 : ℚ) ≤ m := by
        rwa [le_div_iff₀ hpos, zero_mul] at hq
      exact_mod_cast hcast
    refine ⟨m / (10 ^ k : ℕ), 0, ?_, ?_⟩
    · rw [abs_of_nonneg (Int.ediv_nonneg hm0 (by positivity))]
      rw [abs_of_nonneg hm0] at hm
      exact (Int.ediv_le_self _ hm0).trans_lt hm
    · rw [Rat.floor_intCast_div_natCast, zpow_zero, mul_one]

theorem div_unit (h : Significant digits q) (k : ℕ) : Significant digits (q / (10 ^ k / 10)) := by
  have hscaled : q / (10 ^ k / 10) = q * 10 ^ (1 - (k : ℤ)) := by
    rw [zpow_sub₀ (by norm_num), zpow_one, zpow_natCast]
    field_simp
  rw [hscaled]
  exact h.mul_zpow _

theorem roundedDown (hq : 0 ≤ q) (h : Significant digits q) (k : ℕ) :
    Significant digits (roundedDown (10 ^ k / 10) q) := by
  have hscaled : Rounding.roundedDown (10 ^ k / 10) q = ⌊q / (10 ^ k / 10)⌋ * 10 ^ ((k : ℤ) - 1) := by
    rw [Rounding.roundedDown, zpow_sub_one₀ (by norm_num), zpow_natCast, div_eq_mul_inv (10 ^ k : ℚ)]
  rw [hscaled]
  exact (floor (div_nonneg hq (Scale.unit_pos k).le) (h.div_unit k)).mul_zpow _

end Significant

namespace Held

variable {q : ℚ} {k : ℕ}

theorem pow (hk : k < 128) : Held ((10 : ℚ) ^ k) where
  nonneg := by positivity
  digits := Significant.pow (by decide) k
  lt := pow_lt_pow_right₀ (by norm_num) hk

theorem unit (hk : k < 128) : Held ((10 : ℚ) ^ k / 10) where
  nonneg := (Scale.unit_pos k).le
  digits := Significant.tenth_of_pow (by decide) k
  lt := (div_le_self (by positivity) (by norm_num)).trans_lt (pow_lt_pow_right₀ (by norm_num) hk)

theorem floor (h : Held q) : Held (⌊q⌋ : ℚ) where
  nonneg := by exact_mod_cast Int.floor_nonneg.mpr h.nonneg
  digits := Significant.floor h.nonneg h.digits
  lt := (Int.floor_le q).trans_lt h.lt

theorem div_unit (h : Held q) (hk : Scale q k) : Held (q / (10 ^ k / 10)) where
  nonneg := div_nonneg h.nonneg (Scale.unit_pos k).le
  digits := h.digits.div_unit k
  lt := by
    rw [div_lt_iff₀ (Scale.unit_pos k)]
    refine hk.lt.trans_le ?_
    have hle : (1000 : ℚ) * (10 ^ k / 10) ≤ 10 ^ 128 * (10 ^ k / 10) :=
      mul_le_mul_of_nonneg_right (by norm_num) (Scale.unit_pos k).le
    calc (10 : ℚ) ^ (k + 2) = 1000 * (10 ^ k / 10) := by
          rw [pow_add]
          ring
      _ ≤ 10 ^ 128 * (10 ^ k / 10) := hle

theorem roundedDown (h : Held q) (k : ℕ) : Held (roundedDown (10 ^ k / 10) q) where
  nonneg := roundedDown_nonneg (Scale.unit_pos k) h.nonneg
  digits := Significant.roundedDown h.nonneg h.digits k
  lt := (roundedDown_le (Scale.unit_pos k)).trans_lt h.lt

end Held

section

variable [ReportNumbers] [ExactReports]

theorem precisionLoop_eq {v : ℚ} {k : ℕ} (h : Scale v k) (hk : k < 126) {fuel j : ℕ} (hj : j ≤ k)
    (hfuel : k < fuel + j) : precisionLoop v fuel (10 ^ (j + 2)) (10 ^ j / 10) = ok (10 ^ k / 10) := by
  induction fuel generalizing j with
  | zero => omega
  | succ fuel ih =>
    rw [precisionLoop]
    by_cases hstop : j = k
    · rw [hstop, if_neg (not_le.mpr h.lt)]
    · have hle : (10 : ℚ) ^ (j + 2) ≤ v := by
        have hk := h.le.resolve_left (by omega)
        exact (pow_le_pow_right₀ (by norm_num) (by omega)).trans hk
      have hten : Held (10 : ℚ) := by
        have hpow := Held.pow (by decide : 1 < 128)
        rwa [pow_one] at hpow
      have hbound : (10 : ℚ) ^ (j + 2) * 10 = 10 ^ (j + 1 + 2) := by rw [← pow_succ, Nat.add_right_comm]
      have hunit : (10 : ℚ) ^ j / 10 * 10 = 10 ^ (j + 1) / 10 := by
        rw [pow_succ]
        ring
      have hmultiplied : ReportNumbers.multiplying ((10 : ℚ) ^ (j + 2)) 10 = some (10 ^ (j + 1 + 2)) := by
        rw [← hbound]
        apply ExactReports.multiplying_exact (Held.pow (by omega)) hten
        rw [hbound]
        exact Held.pow (by omega)
      have hscaled : ReportNumbers.multiplying ((10 : ℚ) ^ j / 10) 10 = some (10 ^ (j + 1) / 10) := by
        rw [← hunit]
        apply ExactReports.multiplying_exact (Held.unit (by omega)) hten
        rw [hunit]
        exact Held.unit (by omega)
      rw [if_pos hle, hmultiplied, hscaled]
      exact ih (by omega) (by omega)

theorem reportNumberPrecision_eq {v : ℚ} {k : ℕ} (h : Scale v k) (hk : k < 126) :
    reportNumberPrecision v = ok (10 ^ k / 10) := by
  have hloop := precisionLoop_eq h hk (Nat.zero_le k) (by omega : k < 256 + 0)
  have hbound : (10 : ℚ) ^ (0 + 2) = 100 := by norm_num
  rwa [hbound, pow_zero] at hloop

theorem report_eq {v : ℚ} {k : ℕ} (h : Scale v k) (hk : k < 126) (hv : Held v) :
    (do
      let precision ← reportNumberPrecision v
      let quotient ← raising (ReportNumbers.dividing v precision)
      let floored := ReportNumbers.rounding 0 quotient
      let product ← raising (ReportNumbers.multiplying floored precision)
      ok (ReportNumbers.rounding 1 product)) = ok (roundedDown (10 ^ k / 10) v) := by
  have hunit : Held ((10 : ℚ) ^ k / 10) := Held.unit (by omega)
  have hpos := Scale.unit_pos k
  have hquotient := hv.div_unit h
  have hproduct := hv.roundedDown k
  have hrounded : ReportNumbers.rounding 0 (v / (10 ^ k / 10)) = ⌊v / (10 ^ k / 10)⌋ := by
    rw [ExactReports.rounding_exact hquotient, pow_zero, mul_one, div_one]
  have htenths : roundedDown (10 ^ k / 10) v * 10 ^ 1 = ((⌊v / (10 ^ k / 10)⌋ * 10 ^ k : ℤ) : ℚ) := by
    rw [roundedDown]
    push_cast
    ring
  rw [reportNumberPrecision_eq h hk, ok_bind, ExactReports.dividing_exact hpos.ne' hv hunit hquotient]
  change raising (ReportNumbers.multiplying (ReportNumbers.rounding 0 (v / (10 ^ k / 10))) (10 ^ k / 10)) >>= _ = _
  rw [hrounded, ExactReports.multiplying_exact hquotient.floor hunit hproduct]
  change ok (ReportNumbers.rounding 1 (roundedDown (10 ^ k / 10) v)) = _
  rw [ExactReports.rounding_exact hproduct, htenths, Int.floor_intCast, ← htenths, pow_one,
    mul_div_cancel_right₀ _ (by norm_num)]

end

theorem denoted_tenths (n : ℕ) : denoted false (Nat.toDigits 10 (n / 10)) (Nat.toDigits 10 (n % 10)) = n / 10 := by
  have hlength : (Nat.toDigits 10 (n % 10)).length = 1 := by
    rw [Nat.toDigits_of_lt_base (Nat.mod_lt n (by decide))]
    rfl
  have hsplit : (n : ℚ) = 10 * (n / 10 : ℕ) + (n % 10 : ℕ) := by
    exact_mod_cast (Nat.div_add_mod n 10).symm
  rw [denoted, if_neg (by decide), one_mul, decimalValue_toDigits, decimalValue_toDigits, hlength, hsplit]
  ring

theorem length_takeWhile_le {α : Type} {p q : α → Bool} (h : ∀ a, p a = true → q a = true) (as : List α) :
    (as.takeWhile p).length ≤ (as.takeWhile q).length := by
  induction as with
  | nil => exact Nat.le_refl 0
  | cons a as ih =>
    by_cases hp : p a = true
    · rw [List.takeWhile_cons_of_pos hp, List.takeWhile_cons_of_pos (h a hp)]
      exact Nat.succ_le_succ ih
    · rw [List.takeWhile_cons_of_neg hp]
      exact Nat.zero_le _

theorem scale_lt {v : ℚ} {k : ℕ} (h : Scale v k) (hv : v < 10 ^ 127) : k < 126 := by
  rcases h.le with rfl | hle
  · decide
  · have hexponents := (pow_lt_pow_iff_right₀ (by norm_num : (1 : ℚ) < 10)).mp (hle.trans_lt hv)
    omega

section

variable [ReportNumbers] [Segmentation] [Whitespace]

theorem reportNumber?_eq_some {value : Text} {number : ℚ} (h : reportNumber? (some value) = some number) :
    isPureNumber (trimming value) = true ∧
      ((unsigned (trimming value)).takeWhile Char.isDigit).length ≤ 127 ∧
      DecimalNumbers.value (trimming value) = some number := by
  simp only [reportNumber?, Option.map_some, Option.bind_eq_bind, Option.bind_some] at h
  split at h
  · rename_i hguard
    split at h
    · rename_i hlength
      refine ⟨hguard.2.2, le_trans (length_takeWhile_le ?_ _) hlength, h⟩
      intro c hc
      exact decide_eq_true (ne_of_isDigit hc rfl)
    · cases h
  · cases h

omit [ReportNumbers] [Segmentation] in
theorem trimming_of_writes {text integer fraction : Text} (h : WritesDigits text integer fraction) :
    trimming text = text := by
  apply trimming_of_visible
  intro c hc
  rcases chars_of_writes h c hc with rfl | hdigit
  · exact Whitespace.visible '.' (by decide) (by decide)
  · exact digit_not_whitespace hdigit

theorem reportNumber?_of_writes {text integer fraction : Text} (h : WritesDigits text integer fraction)
    (hinteger : integer.length ≤ 127) (hfraction : fraction.length ≤ 128) :
    reportNumber? (some text) = DecimalNumbers.value text := by
  have hplain := plain_of_writes h
  have htrimming := trimming_of_writes h
  have hlength : 0 < text.length ∧ text.length ≤ 257 := by
    have hpos := List.length_pos_iff.mpr h.integer_ne
    rcases h.text_eq with ⟨rfl, _⟩ | ⟨rfl, _⟩
    · omega
    · rw [List.length_append, List.length_cons]
      omega
  have hdigits : (text.takeWhile (· ≠ '.')).length ≤ 127 := by
    have hpoint : ∀ c ∈ integer, decide (c ≠ '.') = true := by
      intro c hc
      exact decide_eq_true (ne_of_isDigit (h.integer_digits c hc) rfl)
    rcases h.text_eq with ⟨rfl, _⟩ | ⟨rfl, _⟩
    · exact (List.takeWhile_prefix _).length_le.trans hinteger
    · rw [List.takeWhile_append_of_pos hpoint, List.takeWhile_cons_of_neg (by decide), List.append_nil]
      exact hinteger
  simp only [reportNumber?, Option.map_some, Option.bind_eq_bind, Option.bind_some, htrimming, count_of_plain hplain,
    unsigned_of_writes h]
  rw [if_pos ⟨hlength.1, hlength.2, isPureNumber_of_writes h⟩, if_pos hdigits]

/-- A text of a number that is reported: not negative, of at most 38 significant digits -/
structure Reportable (value : Text) : Prop where
  accepted : (reportNumber? (some value)).isSome
  nonneg : 0 ≤ decimalNumber (trimming value)
  digits : Significant 38 (decimalNumber (trimming value))

theorem Reportable.lt {value : Text} (h : Reportable value) : decimalNumber (trimming value) < 10 ^ 127 := by
  obtain ⟨number, hnumber⟩ := Option.isSome_iff_exists.mp h.accepted
  obtain ⟨hpure, hlength, _⟩ := reportNumber?_eq_some hnumber
  exact (decimalNumber_lt hpure).trans_le (pow_le_pow_right₀ (by norm_num) hlength)

theorem Reportable.held {value : Text} (h : Reportable value) : Held (decimalNumber (trimming value)) where
  nonneg := h.nonneg
  digits := h.digits
  lt := h.lt.trans (by norm_num)

def reportText (r : ℚ) : Text := removeFloatSuffixZero (DecimalNumbers.stringValue r)

variable [ExactReports]

theorem formatReportNumber_of_number {value : Text} {v : ℚ} {k : ℕ} (hnumber : reportNumber? (some value) = some v)
    (h : Scale v k) (hlt : v < 10 ^ 127) (hv : Held v) :
    formatReportNumber (some value) = ok (reportText (roundedDown (10 ^ k / 10) v)) := by
  have hformat : formatReportNumber (some value) = (do
      let precision ← reportNumberPrecision v
      let quotient ← raising (ReportNumbers.dividing v precision)
      let floored := ReportNumbers.rounding 0 quotient
      let product ← raising (ReportNumbers.multiplying floored precision)
      ok (ReportNumbers.rounding 1 product)) >>= fun r => ok (reportText r) := by
    rw [formatReportNumber, hnumber]
    simp only [Outcome.bind_assoc, ok_bind]
    rfl
  rw [hformat, report_eq h (scale_lt h hlt) hv, ok_bind]

theorem Reportable.reportNumber {value : Text} (h : Reportable value) :
    reportNumber? (some value) = some (decimalNumber (trimming value)) := by
  obtain ⟨number, hnumber⟩ := Option.isSome_iff_exists.mp h.accepted
  obtain ⟨hpure, _, hvalue⟩ := reportNumber?_eq_some hnumber
  rw [ExactReports.value_exact hpure h.held] at hvalue
  rw [hnumber, ← hvalue]

omit [Whitespace] in
theorem reportText_writes {r : ℚ} (hr : Held r) : ∃ integer fraction,
    IsDigits fraction ∧ reportText r = shortest integer fraction ∧ denoted false integer fraction = r := by
  obtain ⟨integer, fraction, hwrites, hvalue⟩ := ExactReports.stringValue_exact hr
  exact ⟨integer, fraction, hwrites.fraction_digits, removeFloatSuffixZero_eq hwrites, hvalue⟩

omit [Whitespace] in
theorem decimalNumber_reportText {r : ℚ} (hr : Held r) : decimalNumber (reportText r) = r := by
  obtain ⟨integer, fraction, hfraction, htext, hvalue⟩ := reportText_writes hr
  rw [htext, decimalNumber_of_writes (writesDigits_shortest integer hfraction), denoted_shortest, hvalue]

omit [Whitespace] in
theorem reportText_tenths {n : ℕ} (hn : Held ((n : ℚ) / 10)) (hlt : (n : ℚ) / 10 < 10 ^ 127) :
    ∃ integer fraction, WritesDigits (reportText (n / 10)) integer fraction ∧ integer.length ≤ 127 ∧
      fraction.length ≤ 128 := by
  obtain ⟨integer, fraction, hfraction, htext, hvalue⟩ := reportText_writes hn
  rw [← denoted_tenths n] at hvalue
  rw [htext, shortest_injective hfraction (isDigits_toDigits _) hvalue]
  refine ⟨_, _, writesDigits_shortest _ (isDigits_toDigits _), ?_, ?_⟩
  · rw [decimalValue_toDigits, Nat.length_toDigits_le_iff (by decide) (by decide)]
    have hn : (n : ℚ) < 10 * 10 ^ 127 := by
      rwa [div_lt_iff₀ (by norm_num), mul_comm] at hlt
    have hn : n < 10 * 10 ^ 127 := by exact_mod_cast hn
    exact Nat.div_lt_of_lt_mul hn
  · refine (List.rdropWhile_prefix _ _).length_le.trans ?_
    rw [Nat.toDigits_of_lt_base (Nat.mod_lt n (by decide)), List.length_singleton]
    decide

theorem report_again {v : ℚ} {k : ℕ} (h : Scale v k) (hlt : v < 10 ^ 127) (hv : Held v) :
    formatReportNumber (some (reportText (roundedDown (10 ^ k / 10) v))) =
      ok (reportText (roundedDown (10 ^ k / 10) v)) := by
  have hpos := Scale.unit_pos k
  have hr := hv.roundedDown k
  have hrlt := (roundedDown_le hpos).trans_lt hlt
  obtain ⟨m, hm⟩ := Int.eq_ofNat_of_zero_le (Int.floor_nonneg.mpr (div_nonneg hv.nonneg hpos.le))
  have htenths : roundedDown (10 ^ k / 10) v = ((m * 10 ^ k : ℕ) : ℚ) / 10 := by
    rw [roundedDown, hm]
    push_cast
    ring
  have hagain : roundedDown (10 ^ k / 10) (roundedDown (10 ^ k / 10) v) = roundedDown (10 ^ k / 10) v :=
    roundedDown_multiple hpos _
  have hwrites : ∃ integer fraction, WritesDigits (reportText (roundedDown (10 ^ k / 10) v)) integer fraction ∧
      integer.length ≤ 127 ∧ fraction.length ≤ 128 := by
    rw [htenths] at hr hrlt ⊢
    exact reportText_tenths hr hrlt
  obtain ⟨integer, fraction, hwrites, hinteger, hfraction⟩ := hwrites
  have hnumber : reportNumber? (some (reportText (roundedDown (10 ^ k / 10) v))) =
      some (roundedDown (10 ^ k / 10) v) := by
    have hvalue := decimalNumber_reportText hr
    rw [reportNumber?_of_writes hwrites hinteger hfraction, ExactReports.value_exact (isPureNumber_of_writes hwrites),
      hvalue]
    rw [hvalue]
    exact hr
  rw [formatReportNumber_of_number hnumber h.rounded hrlt hr, hagain]

theorem formatReportNumber_eq {value : Text} (h : Reportable value) {k : ℕ}
    (hk : Scale (decimalNumber (trimming value)) k) :
    formatReportNumber (some value) = ok (reportText (roundedDown (10 ^ k / 10) (decimalNumber (trimming value)))) :=
  formatReportNumber_of_number h.reportNumber hk h.lt h.held

theorem reports_reveal_three_digits :
    (∀ value, Reportable value → ∃ text, formatReportNumber (some value) = ok text ∧ isPureNumber text = true ∧
      decimalNumber text ≤ decimalNumber (trimming value) ∧
      decimalNumber (trimming value) < decimalNumber text + leadingUnit (decimalNumber (trimming value)) ∧
      (∃ n : ℕ, decimalNumber text = n * leadingUnit (decimalNumber (trimming value))) ∧
      formatReportNumber (some text) = ok text) ∧
    ∀ value value' text text', Reportable value → Reportable value' →
      decimalNumber (trimming value) ≤ decimalNumber (trimming value') → formatReportNumber (some value) = ok text →
      formatReportNumber (some value') = ok text' → decimalNumber text ≤ decimalNumber text' := by
  constructor
  · intro value h
    obtain ⟨k, hk⟩ := exists_scale (decimalNumber (trimming value))
    have hpos := Scale.unit_pos k
    have hr := h.held.roundedDown k
    obtain ⟨integer, fraction, hfraction, htext, _⟩ := reportText_writes hr
    obtain ⟨m, hm⟩ := Int.eq_ofNat_of_zero_le (Int.floor_nonneg.mpr (div_nonneg h.nonneg hpos.le))
    refine ⟨_, formatReportNumber_eq h hk, ?_, ?_⟩
    · rw [htext]
      exact isPureNumber_of_writes (writesDigits_shortest integer hfraction)
    rw [decimalNumber_reportText hr, hk.leadingUnit_eq h.nonneg]
    refine ⟨roundedDown_le hpos, lt_roundedDown_add hpos, ⟨m, ?_⟩, report_again hk h.lt h.held⟩
    rw [roundedDown, hm]
    rfl
  · intro value value' text text' h h' hle htext htext'
    obtain ⟨k, hk⟩ := exists_scale (decimalNumber (trimming value))
    obtain ⟨j, hj⟩ := exists_scale (decimalNumber (trimming value'))
    rw [formatReportNumber_eq h hk] at htext
    rw [formatReportNumber_eq h' hj] at htext'
    cases htext
    cases htext'
    rw [decimalNumber_reportText (h.held.roundedDown k), decimalNumber_reportText (h'.held.roundedDown j)]
    exact hk.rounded_mono hj hle

end

theorem dvd_ten_pow_self {d k : ℕ} (h : d ∣ 10 ^ k) : d ∣ 10 ^ d := by
  have hd : d ≠ 0 := by
    rintro rfl
    exact absurd (Nat.eq_zero_of_zero_dvd h) (by positivity)
  apply (Nat.factorization_le_iff_dvd hd (by positivity)).mp
  intro p
  have hle : d.factorization p ≤ (10 ^ k).factorization p :=
    (Nat.factorization_le_iff_dvd hd (by positivity)).mpr h p
  rw [Nat.factorization_pow, Finsupp.smul_apply, smul_eq_mul] at hle ⊢
  rcases Nat.eq_zero_or_pos (Nat.factorization 10 p) with hzero | hpos
  · rw [hzero, Nat.mul_zero] at hle
    exact hle.trans (Nat.zero_le _)
  · exact (Nat.factorization_lt p hd).le.trans (Nat.le_mul_of_pos_right d hpos)

def printed (q : ℚ) : Text :=
  let fraction := q.num.natAbs % q.den * 10 ^ q.den / q.den
  let text := shortest (Nat.toDigits 10 (q.num.natAbs / q.den)) (leftPadding (Nat.toDigits 10 fraction) q.den '0')
  if q.num < 0 then '-' :: text else text

theorem padded_fraction (q : ℚ) : Padded (q.num.natAbs % q.den * 10 ^ q.den / q.den) q.den
    (leftPadding (Nat.toDigits 10 (q.num.natAbs % q.den * 10 ^ q.den / q.den)) q.den '0') := by
  apply padded_leftPadding
  rw [Nat.div_lt_iff_lt_mul q.den_pos, Nat.mul_comm]
  exact Nat.mul_lt_mul_of_pos_left (Nat.mod_lt _ q.den_pos) (by positivity)

theorem den_dvd_of_significant {digits : ℕ} {q : ℚ} (h : Significant digits q) : q.den ∣ 10 ^ q.den := by
  obtain ⟨m, e, _, hq⟩ := h
  have hdvd : q.den ∣ 10 ^ (-e).toNat := by
    rcases Int.le_total 0 e with he | he
    · obtain ⟨k, rfl⟩ := Int.eq_ofNat_of_zero_le he
      have hinteger : q = ((m * 10 ^ k : ℤ) : ℚ) := by
        rw [hq, zpow_natCast]
        push_cast
        rfl
      rw [hinteger, Rat.den_intCast]
      exact one_dvd _
    · obtain ⟨k, hk⟩ := Int.eq_ofNat_of_zero_le (Int.neg_nonneg_of_nonpos he)
      have hquotient : q = (m : ℚ) / ((10 ^ k : ℤ) : ℚ) := by
        rw [hq, ← neg_neg e, hk, zpow_neg, zpow_natCast, div_eq_mul_inv]
        push_cast
        rfl
      have hden := Rat.den_dvd m (10 ^ k)
      rw [Rat.divInt_eq_div, ← hquotient] at hden
      rw [hk, Int.toNat_natCast]
      exact_mod_cast hden
  exact dvd_ten_pow_self hdvd

theorem printed_writes {q : ℚ} (h : Held q) : ∃ integer fraction,
    WritesDigits (printed q) integer fraction ∧ denoted false integer fraction = q := by
  have hpadded := padded_fraction q
  have hnum := Rat.num_nonneg.mpr h.nonneg
  have hwrites := writesDigits_shortest (Nat.toDigits 10 (q.num.natAbs / q.den)) hpadded.digits
  refine ⟨Nat.toDigits 10 (decimalValue (Nat.toDigits 10 (q.num.natAbs / q.den))),
    (leftPadding (Nat.toDigits 10 (q.num.natAbs % q.den * 10 ^ q.den / q.den)) q.den '0').rdropWhile (· == '0'), ?_, ?_⟩
  · rw [printed, if_neg (not_lt.mpr hnum)]
    exact hwrites
  · obtain ⟨n, hn⟩ := Int.eq_ofNat_of_zero_le hnum
    obtain ⟨c, hc⟩ := den_dvd_of_significant h.digits
    have hden : (q.den : ℚ) ≠ 0 := by exact_mod_cast q.den_nz
    have hexact : n % q.den * 10 ^ q.den / q.den = n % q.den * c := by
      rw [hc, Nat.mul_left_comm]
      exact Nat.mul_div_cancel_left _ q.den_pos
    have hpow : (10 : ℚ) ^ q.den = q.den * c := by exact_mod_cast hc
    have hc0 : (c : ℚ) ≠ 0 := by
      intro hzero
      rw [hzero, mul_zero] at hpow
      exact absurd hpow (by positivity)
    have hsplit : (n : ℚ) = q.den * (n / q.den : ℕ) + (n % q.den : ℕ) := by
      exact_mod_cast (Nat.div_add_mod n q.den).symm
    have hvalue : q = n / q.den := by
      conv_lhs => rw [← Rat.num_div_den q, hn]
      rfl
    rw [denoted_shortest, denoted, if_neg (by decide), one_mul, decimalValue_toDigits, hpadded.value_eq,
      hpadded.length_eq, hn, Int.natAbs_natCast, hexact, hpow]
    conv_rhs => rw [hvalue, hsplit]
    push_cast
    field_simp

@[reducible]
def rationalReports : ReportNumbers where
  value s := if isPureNumber s then some (decimalNumber s) else none
  add a b := some (a + b)
  stringValue := printed
  multiplying a b := some (a * b)
  dividing a b := if b = 0 then none else some (a / b)
  rounding scale a := ⌊a * 10 ^ scale⌋ / 10 ^ scale

attribute [local instance] rationalReports in
theorem exactReports_rational : ExactReports where
  value_exact h _ := if_pos h
  multiplying_exact _ _ _ := rfl
  dividing_exact h _ _ _ := if_neg h
  rounding_exact _ := rfl
  stringValue_exact := printed_writes

theorem writes_sample : WritesDigits "12345.67".toList "12345".toList "67".toList where
  text_eq := .inr ⟨rfl, List.cons_ne_nil _ _⟩
  integer_ne := List.cons_ne_nil _ _
  integer_digits := isDigits_toDigits 12345
  fraction_digits := isDigits_toDigits 67

theorem sample_value : decimalNumber "12345.67".toList = 1234567 / 100 := by
  have hinteger : decimalValue "12345".toList = 12345 := by rfl
  have hfraction : decimalValue "67".toList = 67 := by rfl
  have hlength : "67".toList.length = 2 := by rfl
  rw [decimalNumber_of_writes writes_sample, denoted, if_neg (by decide), hinteger, hfraction, hlength]
  norm_num

attribute [local instance] rationalReports exactReports_rational scalarCharacters asciiWhitespace in
theorem report_of_sample : ∃ text, formatReportNumber (some "12345.67".toList) = ok text ∧
    decimalNumber text ≤ 1234567 / 100 ∧ 1234567 / 100 < decimalNumber text + 100 := by
  have htrimming := trimming_of_writes writes_sample
  have hvalue := sample_value
  have hreportable : Reportable "12345.67".toList := by
    constructor
    · rw [reportNumber?_of_writes writes_sample (by decide) (by decide)]
      rfl
    · rw [htrimming, hvalue]
      norm_num
    · rw [htrimming, hvalue]
      refine ⟨1234567, -2, by decide, ?_⟩
      norm_num
  have hscale : Scale (1234567 / 100) 3 := ⟨by norm_num, .inr (by norm_num)⟩
  have hunit := hscale.leadingUnit_eq (by norm_num)
  obtain ⟨text, htext, _, hle, hlt, _⟩ := reports_reveal_three_digits.1 _ hreportable
  rw [htrimming, hvalue] at hle hlt
  rw [hunit] at hlt
  refine ⟨text, htext, hle, ?_⟩
  norm_num at hlt ⊢
  exact hlt

end TronlinkCore.Metrics
