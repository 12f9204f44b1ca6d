import Mathlib.Data.Rat.Lemmas
import Mathlib.Algebra.Order.Ring.Rat
import Mathlib.Tactic.FieldSimp
import TronlinkCore.Abi.IntegerTexts
import TronlinkCore.Library.DecimalTexts

namespace TronlinkCore.Abi

open Text BigEndian

def Exact (precision : ℕ) (fraction : Text) : Prop := ∀ c ∈ fraction.drop precision, c = '0'

namespace FixedPoint

/-- What `init?(_:decimals:)` reads behind the sign -/
def unsignedDecimal (precision : ℕ) (text : Text) : Option ℕ := do
  let parts := text.splitOn '.'
  guard ((parts.length = 1 ∨ parts.length = 2) ∧
    parts.all fun part => !part.isEmpty && (utf8 part).all isDigitByte)
  let fraction := (parts.drop 1).headD []
  guard ((fraction.drop precision).all (· == '0'))
  let digits := parts.headD [] ++ fraction.take precision ++ List.replicate (precision - fraction.length) '0'
  let significant := digits.dropWhile (· == '0')
  guard (significant.length ≤ 78)
  numeral 10 (if significant.isEmpty then "0".toList else significant)

def description (f : FixedPoint) : Text :=
  let digits := Nat.toDigits 10 f.scaledValue.natAbs
  let precision := f.decimals.toNat
  let padded := List.replicate (precision + 1 - digits.length) '0' ++ digits
  let split := padded.length - precision
  let sign := if f.scaledValue < 0 then "-".toList else []
  sign ++ padded.take split ++ ".".toList ++ padded.drop split

/-- What `init?(_:decimals:)` does once the sign is taken off -/
def ofUnsigned (negative : Bool) (text : Text) (decimals : UInt64) : Option FixedPoint := do
  guard (1 ≤ decimals ∧ decimals ≤ 80)
  let magnitude ← unsignedDecimal decimals.toNat text
  ofScaled (if negative then -(magnitude : ℤ) else magnitude) decimals

theorem ofDecimal_eq [Graphemes] (decimal : Text) (decimals : UInt64) :
    ofDecimal decimal decimals = ofUnsigned (hasPrefix decimal "-".toList)
      (if hasPrefix decimal "-".toList || hasPrefix decimal "+".toList then decimal.drop 1 else decimal) decimals := by
  simp only [ofDecimal, ofUnsigned, unsignedDecimal, Option.bind_eq_bind, Option.bind_assoc]

def IsParts (parts : List Text) : Prop :=
  (parts.length = 1 ∨ parts.length = 2) ∧ (parts.all fun part => !part.isEmpty && (utf8 part).all isDigitByte) = true

theorem isPart_iff {part : Text} : (!part.isEmpty && (utf8 part).all isDigitByte) = true ↔ part ≠ [] ∧ IsDigits part := by
  rw [Bool.and_eq_true, Bool.not_eq_true', List.isEmpty_eq_false_iff, all_isDigitByte_utf8]

theorem writes_of_parts {text : Text} (h : IsParts (text.splitOn '.')) :
    WritesDigits text ((text.splitOn '.').headD []) (((text.splitOn '.').drop 1).headD []) := by
  obtain ⟨hlength, hall⟩ := h
  have hback : ['.'].intercalate (text.splitOn '.') = text := List.intercalate_splitOn '.'
  cases hparts : text.splitOn '.' with
  | nil => exact absurd hparts (List.splitOn_ne_nil _ _)
  | cons integer rest =>
    rw [hparts] at hlength hall hback
    obtain ⟨hne, hdigits⟩ := isPart_iff.mp (List.all_eq_true.mp hall integer (by simp))
    cases rest with
    | nil => exact ⟨.inl ⟨by simpa using hback.symm, rfl⟩, hne, hdigits, nofun⟩
    | cons fraction rest =>
      have hnil : rest = [] := by
        simp only [List.length_cons] at hlength
        apply List.length_eq_zero_iff.mp
        omega
      subst hnil
      obtain ⟨hne', hdigits'⟩ := isPart_iff.mp (List.all_eq_true.mp hall fraction (by simp))
      exact ⟨.inr ⟨by simpa using hback.symm, hne'⟩, hne, hdigits, hdigits'⟩

theorem parts_of_writes {text integer fraction : Text} (h : WritesDigits text integer fraction) :
    IsParts (text.splitOn '.') ∧ (text.splitOn '.').headD [] = integer ∧ ((text.splitOn '.').drop 1).headD [] = fraction := by
  obtain ⟨hform, hne, hdigits, hdigits'⟩ := h
  have hinteger := isPart_iff.mpr ⟨hne, hdigits⟩
  rcases hform with ⟨rfl, rfl⟩ | ⟨rfl, hne'⟩
  · rw [List.splitOn_eq_singleton (point_not_mem hdigits)]
    refine ⟨⟨.inl rfl, ?_⟩, rfl, rfl⟩
    simp only [List.all_cons, List.all_nil, hinteger, Bool.and_self]
  · have hfraction := isPart_iff.mpr ⟨hne', hdigits'⟩
    rw [List.splitOn_append_cons_self_of_not_mem (point_not_mem hdigits),
      List.splitOn_eq_singleton (point_not_mem hdigits')]
    refine ⟨⟨.inr rfl, ?_⟩, rfl, rfl⟩
    simp only [List.all_cons, List.all_nil, hinteger, hfraction, Bool.and_self]

def scaledDigits (precision : ℕ) (integer fraction : Text) : Text :=
  integer ++ fraction.take precision ++ List.replicate (precision - fraction.length) '0'

theorem isDigits_scaledDigits {text integer fraction : Text} (h : WritesDigits text integer fraction) (precision : ℕ) :
    IsDigits (scaledDigits precision integer fraction) := by
  rw [scaledDigits, isDigits_append, isDigits_append]
  exact ⟨⟨h.integer_digits, fun c hc => h.fraction_digits c (List.mem_of_mem_take hc)⟩, isDigits_zeros _⟩

theorem unsignedDecimal_eq_some {precision n : ℕ} {text : Text} :
    unsignedDecimal precision text = some n ↔ ∃ integer fraction, WritesDigits text integer fraction ∧
      Exact precision fraction ∧ n = decimalValue (scaledDigits precision integer fraction) ∧
      ((scaledDigits precision integer fraction).dropWhile (· == '0')).length ≤ 78 := by
  have hexact (fraction : Text) : (fraction.drop precision).all (· == '0') = true ↔ Exact precision fraction := by
    rw [List.all_eq_true, Exact]
    simp
  simp only [unsignedDecimal, Option.bind_eq_bind, Option.bind_eq_some_iff, Option.guard_eq_some', exists_const, hexact,
    numeral_significant (show 0 < 10 by decide)]
  constructor
  · rintro ⟨hparts, hzeros, hlimit, h⟩
    have hwrites := writes_of_parts hparts
    refine ⟨_, _, hwrites, hzeros, ?_, hlimit⟩
    have hnumeral := numeral_ten (isDigits_scaledDigits hwrites precision)
    rw [scaledDigits] at hnumeral
    rw [h] at hnumeral
    exact Option.some.inj hnumeral
  · rintro ⟨integer, fraction, hwrites, hzeros, rfl, hlimit⟩
    obtain ⟨hparts, hinteger, hfraction⟩ := parts_of_writes hwrites
    rw [hinteger, hfraction]
    exact ⟨hparts, hzeros, hlimit, numeral_ten (isDigits_scaledDigits hwrites precision)⟩

theorem decimalValue_scaledDigits {precision : ℕ} {integer fraction : Text} (h : Exact precision fraction) :
    (decimalValue (scaledDigits precision integer fraction) : ℚ) =
      (decimalValue integer + decimalValue fraction / 10 ^ fraction.length) * 10 ^ precision := by
  rw [scaledDigits, decimalValue_append, decimalValue_append, decimalValue_zeros, List.length_replicate]
  rcases Nat.le_total fraction.length precision with hle | hle
  · have hpow : (10 : ℚ) ^ precision = 10 ^ fraction.length * 10 ^ (precision - fraction.length) := by
      rw [← pow_add, Nat.add_sub_cancel' hle]
    rw [List.take_of_length_le hle, hpow]
    push_cast
    field_simp
    ring
  · have hdrop : fraction.drop precision = List.replicate (fraction.length - precision) '0' := by
      rw [← List.length_drop]
      exact List.eq_replicate_of_mem h
    have hsplit : decimalValue fraction = decimalValue (fraction.take precision) * 10 ^ (fraction.length - precision) := by
      have happend := decimalValue_append (fraction.take precision) (fraction.drop precision)
      rw [List.take_append_drop, hdrop, decimalValue_zeros, List.length_replicate, Nat.add_zero] at happend
      exact happend
    have hpow : (10 : ℚ) ^ fraction.length = 10 ^ precision * 10 ^ (fraction.length - precision) := by
      rw [← pow_add, Nat.add_sub_cancel' hle]
    rw [List.length_take, Nat.min_eq_left hle, Nat.sub_eq_zero_of_le hle, hsplit, hpow]
    push_cast
    field_simp
    ring

theorem denoted_scaled {precision : ℕ} {negative : Bool} {integer fraction : Text} (h : Exact precision fraction) :
    denoted negative integer fraction * 10 ^ precision =
      ((if negative then -(decimalValue (scaledDigits precision integer fraction) : ℤ)
        else decimalValue (scaledDigits precision integer fraction) : ℤ) : ℚ) := by
  rw [denoted, mul_assoc, ← decimalValue_scaledDigits h]
  cases negative with
  | false => simp
  | true => simp

theorem abs_denoted_scaled {precision : ℕ} {negative : Bool} {integer fraction : Text} (h : Exact precision fraction) :
    |denoted negative integer fraction| * 10 ^ precision = decimalValue (scaledDigits precision integer fraction) := by
  have hpow : (0 : ℚ) ≤ 10 ^ precision := by positivity
  rw [← abs_of_nonneg hpow, ← abs_mul, denoted_scaled h]
  cases negative with
  | false => simp
  | true => simp

theorem significant_le {precision : ℕ} {text integer fraction : Text} (h : WritesDigits text integer fraction)
    (hfits : decimalValue (scaledDigits precision integer fraction) < 2 ^ 256) :
    ((scaledDigits precision integer fraction).dropWhile (· == '0')).length ≤ 78 :=
  length_le_of_fits (.inl rfl) (numeral_ten (isDigits_scaledDigits h precision)) hfits

theorem ofUnsigned_eq_some {negative : Bool} {text : Text} {decimals : UInt64} {f : FixedPoint} :
    ofUnsigned negative text decimals = some f ↔ f.decimals = decimals ∧ ∃ integer fraction,
      WritesDigits text integer fraction ∧ Exact decimals.toNat fraction ∧
        (f.scaledValue : ℚ) = denoted negative integer fraction * 10 ^ decimals.toNat := by
  simp only [ofUnsigned, Option.bind_eq_bind, Option.bind_eq_some_iff, Option.guard_eq_some', exists_const,
    ofScaled_eq_some, unsignedDecimal_eq_some]
  constructor
  · rintro ⟨_, _, ⟨integer, fraction, hwrites, hexact, rfl, _⟩, hvalue, hdecimals⟩
    refine ⟨hdecimals, integer, fraction, hwrites, hexact, ?_⟩
    rw [denoted_scaled hexact, hvalue]
  · rintro ⟨rfl, integer, fraction, hwrites, hexact, hvalue⟩
    have hscaled : f.scaledValue = if negative then -(decimalValue (scaledDigits f.decimals.toNat integer fraction) : ℤ)
        else decimalValue (scaledDigits f.decimals.toNat integer fraction) := by
      rw [denoted_scaled hexact] at hvalue
      exact_mod_cast hvalue
    have hfits : decimalValue (scaledDigits f.decimals.toNat integer fraction) < 2 ^ 256 := by
      have hwidth := bitWidth_le_iff.mp f.bitWidth_le
      have habs : f.scaledValue.natAbs = decimalValue (scaledDigits f.decimals.toNat integer fraction) := by
        rw [hscaled]
        split <;> omega
      rwa [habs] at hwidth
    exact ⟨f.decimals_range, _, ⟨integer, fraction, hwrites, hexact, rfl, significant_le hwrites hfits⟩, hscaled, rfl⟩

theorem ofUnsigned_eq_none {negative : Bool} {text : Text} {decimals : UInt64}
    (h : ∀ integer fraction, ¬ WritesDigits text integer fraction) : ofUnsigned negative text decimals = none := by
  rw [Option.eq_none_iff_forall_ne_some]
  intro f hf
  obtain ⟨_, integer, fraction, hwrites, _⟩ := ofUnsigned_eq_some.mp hf
  exact h integer fraction hwrites

section

variable [Graphemes]

theorem ofDecimal_signed {c : Char} (hc : c = '+' ∨ c = '-') (rest : Text) (decimals : UInt64) :
    ofDecimal (c :: rest) decimals = ofUnsigned (c = '-') rest decimals := by
  rw [ofDecimal_eq]
  by_cases hjoins : ∀ d ∈ rest.head?, Graphemes.joins d = false
  · obtain ⟨hminus, hsign⟩ := hasPrefix_sign hc hjoins
    rw [hsign, hminus]
    rfl
  · -- neither the text nor what is behind the sign begins with a digit
    have hrest (integer fraction : Text) : ¬ WritesDigits rest integer fraction := by
      intro hwrites
      obtain ⟨d, rest', rfl, hd⟩ := digit_of_writes hwrites
      apply hjoins
      rintro _ ⟨⟩
      apply Graphemes.joins_ascii
      have hhigh : d.toNat ≤ 57 := (Char.isDigit_iff_toNat.mp hd).2
      omega
    rw [ofUnsigned_eq_none hrest]
    apply ofUnsigned_eq_none
    split
    · exact hrest
    · exact not_writesDigits hc

theorem ofDecimal_unsigned {decimal : Text} (hplus : ∀ rest, decimal ≠ '+' :: rest)
    (hminus : ∀ rest, decimal ≠ '-' :: rest) (decimals : UInt64) :
    ofDecimal decimal decimals = ofUnsigned false decimal decimals := by
  have hp : hasPrefix decimal "+".toList = false := not_hasPrefix_singleton hplus
  have hm : hasPrefix decimal "-".toList = false := not_hasPrefix_singleton hminus
  rw [ofDecimal_eq, hp, hm]
  rfl

theorem ofDecimal_eq_some {decimal : Text} {decimals : UInt64} {f : FixedPoint} :
    ofDecimal decimal decimals = some f ↔ f.decimals = decimals ∧ ∃ negative integer fraction,
      WritesDecimal decimal negative integer fraction ∧ Exact decimals.toNat fraction ∧
        (f.scaledValue : ℚ) = denoted negative integer fraction * 10 ^ decimals.toNat := by
  rcases sign decimal with ⟨hplus, hminus⟩ | ⟨c, rest, hc, rfl⟩
  · rw [ofDecimal_unsigned hplus hminus, ofUnsigned_eq_some]
    apply and_congr_right
    intro _
    constructor
    · rintro ⟨integer, fraction, hwrites, hrest⟩
      exact ⟨false, integer, fraction, .unsigned hwrites, hrest⟩
    · rintro ⟨negative, integer, fraction, hwrites, hrest⟩
      cases hwrites with
      | unsigned h => exact ⟨integer, fraction, h, hrest⟩
      | plus _ => exact absurd rfl (hplus _)
      | minus _ => exact absurd rfl (hminus _)
  · rw [ofDecimal_signed hc, ofUnsigned_eq_some]
    apply and_congr_right
    intro _
    constructor
    · rintro ⟨integer, fraction, hwrites, hrest⟩
      rcases hc with rfl | rfl
      · exact ⟨false, integer, fraction, .plus hwrites, hrest⟩
      · exact ⟨true, integer, fraction, .minus hwrites, hrest⟩
    · rintro ⟨negative, integer, fraction, hwrites, hrest⟩
      cases hwrites with
      | unsigned h => exact absurd h (not_writesDigits hc _ _)
      | plus h => exact ⟨integer, fraction, h, hrest⟩
      | minus h => exact ⟨integer, fraction, h, hrest⟩

theorem isSome_ofDecimal {decimal : Text} {decimals : UInt64} (hrange : 1 ≤ decimals ∧ decimals ≤ 80) :
    (ofDecimal decimal decimals).isSome ↔ ∃ negative integer fraction, WritesDecimal decimal negative integer fraction ∧
      Exact decimals.toNat fraction ∧ |denoted negative integer fraction| * 10 ^ decimals.toNat < 2 ^ 256 := by
  rw [Option.isSome_iff_exists]
  constructor
  · rintro ⟨f, hf⟩
    obtain ⟨_, negative, integer, fraction, hwrites, hexact, hvalue⟩ := ofDecimal_eq_some.mp hf
    refine ⟨negative, integer, fraction, hwrites, hexact, ?_⟩
    rw [denoted_scaled hexact] at hvalue
    have hscaled : f.scaledValue = _ := Int.cast_injective hvalue
    have habs : f.scaledValue.natAbs = decimalValue (scaledDigits decimals.toNat integer fraction) := by
      rw [hscaled]
      split <;> omega
    have hfits := bitWidth_le_iff.mp f.bitWidth_le
    rw [abs_denoted_scaled hexact, ← habs]
    exact_mod_cast hfits
  · rintro ⟨negative, integer, fraction, hwrites, hexact, hfits⟩
    rw [abs_denoted_scaled hexact] at hfits
    have hfits : decimalValue (scaledDigits decimals.toNat integer fraction) < 2 ^ 256 := by exact_mod_cast hfits
    have hwidth : bitWidth (if negative then -(decimalValue (scaledDigits decimals.toNat integer fraction) : ℤ)
        else decimalValue (scaledDigits decimals.toNat integer fraction)).natAbs ≤ 256 := by
      rw [bitWidth_le_iff]
      split <;> omega
    exact ⟨⟨_, decimals, hrange, hwidth⟩,
      ofDecimal_eq_some.mpr ⟨rfl, negative, integer, fraction, hwrites, hexact, (denoted_scaled hexact).symm⟩⟩

end

theorem writesDigits_unique {text integer integer' fraction fraction' : Text} (h : WritesDigits text integer fraction)
    (h' : WritesDigits text integer' fraction') : integer = integer' ∧ fraction = fraction' := by
  obtain ⟨_, hinteger, hfraction⟩ := parts_of_writes h
  obtain ⟨_, hinteger', hfraction'⟩ := parts_of_writes h'
  exact ⟨hinteger.symm.trans hinteger', hfraction.symm.trans hfraction'⟩

theorem denoted_unique {text integer integer' fraction fraction' : Text} {negative negative' : Bool}
    (h : WritesDecimal text negative integer fraction) (h' : WritesDecimal text negative' integer' fraction') :
    denoted negative integer fraction = denoted negative' integer' fraction' := by
  cases h with
  | unsigned h =>
    cases h' with
    | unsigned h' =>
      obtain ⟨rfl, rfl⟩ := writesDigits_unique h h'
      rfl
    | plus _ => exact absurd h (not_writesDigits (.inl rfl) _ _)
    | minus _ => exact absurd h (not_writesDigits (.inr rfl) _ _)
  | plus h =>
    cases h' with
    | unsigned h' => exact absurd h' (not_writesDigits (.inl rfl) _ _)
    | plus h' =>
      obtain ⟨rfl, rfl⟩ := writesDigits_unique h h'
      rfl
  | minus h =>
    cases h' with
    | unsigned h' => exact absurd h' (not_writesDigits (.inr rfl) _ _)
    | minus h' =>
      obtain ⟨rfl, rfl⟩ := writesDigits_unique h h'
      rfl

section

variable (f : FixedPoint)

def paddedDigits : Text :=
  List.replicate (f.decimals.toNat + 1 - (Nat.toDigits 10 f.scaledValue.natAbs).length) '0' ++
    Nat.toDigits 10 f.scaledValue.natAbs

def printedInteger : Text := f.paddedDigits.take (f.paddedDigits.length - f.decimals.toNat)

def printedFraction : Text := f.paddedDigits.drop (f.paddedDigits.length - f.decimals.toNat)

theorem description_eq : f.description =
    (if f.scaledValue < 0 then "-".toList else []) ++ (f.printedInteger ++ '.' :: f.printedFraction) := by
  rw [description]
  simp only [List.append_assoc]
  rfl

theorem isDigits_paddedDigits : IsDigits f.paddedDigits := by
  rw [paddedDigits, isDigits_append]
  exact ⟨isDigits_zeros _, isDigits_toDigits _⟩

theorem lt_length_paddedDigits : f.decimals.toNat < f.paddedDigits.length := by
  rw [paddedDigits, List.length_append, List.length_replicate]
  omega

theorem length_printedFraction : f.printedFraction.length = f.decimals.toNat := by
  have hlt := f.lt_length_paddedDigits
  rw [printedFraction, List.length_drop]
  omega

theorem writesDigits_printed : WritesDigits (f.printedInteger ++ '.' :: f.printedFraction) f.printedInteger f.printedFraction where
  text_eq := by
    right
    refine ⟨rfl, ?_⟩
    have hpos : 1 ≤ f.decimals.toNat := UInt64.le_iff_toNat_le.mp f.decimals_range.1
    rw [← List.length_pos_iff, length_printedFraction]
    omega
  integer_ne := by
    have hlt := f.lt_length_paddedDigits
    rw [← List.length_pos_iff, printedInteger, List.length_take]
    omega
  integer_digits := fun c hc => f.isDigits_paddedDigits c (List.mem_of_mem_take hc)
  fraction_digits := fun c hc => f.isDigits_paddedDigits c (List.mem_of_mem_drop hc)

theorem exact_printed : Exact f.decimals.toNat f.printedFraction := by
  rw [Exact, List.drop_of_length_le f.length_printedFraction.le]
  nofun

theorem decimalValue_printed :
    decimalValue (scaledDigits f.decimals.toNat f.printedInteger f.printedFraction) = f.scaledValue.natAbs := by
  have hpadded : scaledDigits f.decimals.toNat f.printedInteger f.printedFraction = f.paddedDigits := by
    rw [scaledDigits, f.length_printedFraction, Nat.sub_self, List.take_of_length_le f.length_printedFraction.le,
      printedInteger, printedFraction, List.take_append_drop]
    exact List.append_nil _
  rw [hpadded, paddedDigits, decimalValue_append, decimalValue_zeros, Nat.zero_mul, Nat.zero_add]
  exact decimalValue_toDigits _

theorem writesDecimal_description :
    WritesDecimal f.description (decide (f.scaledValue < 0)) f.printedInteger f.printedFraction := by
  rw [description_eq]
  by_cases hneg : f.scaledValue < 0
  · rw [if_pos hneg, decide_eq_true hneg]
    exact .minus f.writesDigits_printed
  · rw [if_neg hneg, decide_eq_false hneg]
    exact .unsigned f.writesDigits_printed

theorem ofDecimal_description [Graphemes] : ofDecimal f.description f.decimals = some f := by
  rw [ofDecimal_eq_some]
  refine ⟨rfl, _, _, _, f.writesDecimal_description, f.exact_printed, ?_⟩
  rw [denoted_scaled f.exact_printed, decimalValue_printed]
  by_cases hneg : f.scaledValue < 0
  · rw [decide_eq_true hneg, if_pos rfl, Int.ofNat_natAbs_of_nonpos hneg.le, Int.neg_neg]
  · rw [decide_eq_false hneg, if_neg (by decide), Int.natAbs_of_nonneg (Int.not_lt.mp hneg)]

end

end FixedPoint

theorem fixedPoint_exact [Graphemes] :
    (∀ (text : Text) (N : UInt64), 1 ≤ N ∧ N ≤ 80 →
      ((FixedPoint.ofDecimal text N).isSome ↔ ∃ negative integer fraction, WritesDecimal text negative integer fraction ∧
        Exact N.toNat fraction ∧ |denoted negative integer fraction| * 10 ^ N.toNat < 2 ^ 256)) ∧
    (∀ (text : Text) (N : UInt64) (f : FixedPoint), FixedPoint.ofDecimal text N = some f →
      f.decimals = N ∧ ∀ negative integer fraction, WritesDecimal text negative integer fraction →
        (f.scaledValue : ℚ) = denoted negative integer fraction * 10 ^ N.toNat) ∧
    ∀ f : FixedPoint, FixedPoint.ofDecimal f.description f.decimals = some f := by
  refine ⟨fun text N hrange => FixedPoint.isSome_ofDecimal hrange, ?_, fun f => f.ofDecimal_description⟩
  intro text N f hf
  obtain ⟨hdecimals, negative, integer, fraction, hwrites, _, hvalue⟩ := FixedPoint.ofDecimal_eq_some.mp hf
  refine ⟨hdecimals, ?_⟩
  intro negative' integer' fraction' hwrites'
  rw [hvalue, FixedPoint.denoted_unique hwrites hwrites']

end TronlinkCore.Abi
