import Mathlib.Algebra.Field.Rat
import Mathlib.Data.List.DropRight
import Mathlib.Tactic.FieldSimp
import TronlinkCore.Library.Numerals

/-!
Amounts as texts. The integer parser of the number package takes a sign in
front of each of its words, so an amount may be read that has a sign inside.
-/

namespace TronlinkCore.Web3

open Text MachineInt

/-- `CharacterSet.whitespacesAndNewlines`, in which no visible ASCII is -/
class Whitespace where
  isMember : Char → Bool
  visible : ∀ c : Char, 33 ≤ c.toNat → c.toNat < 127 → isMember c = false

@[reducible]
def asciiWhitespace : Whitespace where
  isMember c := c.toNat ≤ 32
  visible c h _ := by
    rw [decide_eq_false_iff_not]
    omega

def trimming [Whitespace] (s : Text) : Text := (s.dropWhile Whitespace.isMember).rdropWhile Whitespace.isMember

def isSeparator (c : Char) : Bool := c = '.' || c = ','

section

variable [Segmentation]

/-- `BigUInt(_:radix: 10)` of the package: words of 19 Characters, each read by `UInt(_:radix:)` -/
def bigUInt? (text : Text) : Option ℕ := do
  let ds ← (words 19 (Segmentation.characters text)).mapM fun word => unsigned? 10 uint64Size word.flatten
  some (ds.foldr (fun d n => n * 10 ^ 19 + d) 0)

/-- `BigUInt(_:decimals:)` -/
def amount? [Whitespace] (string : Text) (decimals : ℤ) : Option ℕ :=
  if 0 ≤ decimals ∧ (utf8 string).any (fun b => 48 ≤ b && b ≤ 57) then
    let unitDecimals := decimals.toNat
    match (trimming string).splitOnP isSeparator with
    | [component] => do
      let mainPart ← bigUInt? component
      some (mainPart * 10 ^ unitDecimals)
    | [component, fraction] => do
      let mainPart ← bigUInt? component
      let numDigits := count fraction
      if numDigits ≤ unitDecimals then
        let afterDecPoint ← bigUInt? fraction
        some (mainPart * 10 ^ unitDecimals + afterDecPoint * 10 ^ (unitDecimals - numDigits))
      else none
    | _ => none
  else none

inductive ConversionError where
  | cannotConvert (string : Text)

/-- A text that is an amount at 18 decimals -/
structure NaturalUnits [Whitespace] where
  string : Text
  isAmount : (amount? string 18).isSome

namespace NaturalUnits

variable [Whitespace]

def ofString (string : Text) : Except ConversionError NaturalUnits :=
  if h : (amount? string 18).isSome then .ok ⟨string, h⟩ else .error (.cannotConvert string)

def number (units : NaturalUnits) (decimals : ℤ) : Except ConversionError ℕ :=
  if 0 ≤ decimals then
    match amount? units.string decimals with
    | some number => .ok number
    | none => .error (.cannotConvert units.string)
  else .error (.cannotConvert units.string)

end NaturalUnits

end

def Written (text integer fraction : Text) : Prop :=
  (text = integer ∧ fraction = []) ∨ ∃ separator, isSeparator separator ∧ text = integer ++ separator :: fraction

/-- The value of a text of digits with at most so many behind the separator, in base units -/
def Denotes [Whitespace] (string : Text) (decimals : ℕ) (value : ℕ) : Prop :=
  ∃ integer fraction, Written (trimming string) integer fraction ∧ IsDigits integer ∧ IsDigits fraction ∧
    integer ++ fraction ≠ [] ∧ fraction.length ≤ decimals ∧
    (value : ℚ) = (decimalValue integer + decimalValue fraction / 10 ^ fraction.length) * 10 ^ decimals

def SignedWord (word : Text) : Prop :=
  ∃ digits, digits ≠ [] ∧ IsDigits digits ∧
    (word = '+' :: digits ∨ (word = '-' :: digits ∧ decimalValue digits = 0))

def Readable (s : Text) : Prop := ∀ word ∈ words 19 s, IsDigits word ∨ SignedWord word

def SignFree [Whitespace] (string : Text) (decimals : ℕ) : Prop :=
  ∀ integer fraction, Written (trimming string) integer fraction → Readable integer → Readable fraction →
    fraction.length ≤ decimals → IsDigits (integer ++ fraction)

theorem pow_le_uint64Size {k : ℕ} (h : k ≤ 19) : 10 ^ k ≤ uint64Size :=
  (Nat.pow_le_pow_right (by decide) h).trans (by decide)

theorem unsigned?_of_isDigits {s : Text} (hne : s ≠ []) (hlen : s.length ≤ 19) (h : IsDigits s) :
    unsigned? 10 uint64Size s = some (decimalValue s) := by
  cases s with
  | nil => exact absurd rfl hne
  | cons c s =>
    have hc := h c List.mem_cons_self
    have hplus : c ≠ '+' := ne_of_isDigit hc rfl
    have hminus : c ≠ '-' := ne_of_isDigit hc rfl
    rw [unsigned?, if_neg hplus, if_neg hminus]
    exact (magnitude_ten (pow_le_uint64Size hlen)).mpr ⟨hne, h, rfl⟩

theorem unsigned?_isSome {s : Text} (hne : s ≠ []) (hlen : s.length ≤ 19) :
    (unsigned? 10 uint64Size s).isSome ↔ IsDigits s ∨ SignedWord s := by
  cases s with
  | nil => exact absurd rfl hne
  | cons c s =>
    have htail : 10 ^ s.length ≤ uint64Size := pow_le_uint64Size (by simp only [List.length_cons] at hlen; omega)
    constructor
    · intro h
      obtain ⟨n, hn⟩ := Option.isSome_iff_exists.mp h
      rw [unsigned?] at hn
      split at hn
      · rename_i hsign
        obtain ⟨hs, hdigits, _⟩ := (magnitude_ten htail).mp hn
        exact .inr ⟨s, hs, hdigits, .inl (by rw [hsign])⟩
      · split at hn
        · rename_i hsign
          rw [Option.filter_eq_some_iff, magnitude_ten htail, decide_eq_true_eq] at hn
          obtain ⟨⟨hs, hdigits, rfl⟩, hzero⟩ := hn
          exact .inr ⟨s, hs, hdigits, .inr ⟨by rw [hsign], hzero⟩⟩
        · exact .inl ((magnitude_ten (pow_le_uint64Size hlen)).mp hn).2.1
    · rintro (h | ⟨digits, hs, hdigits, h | ⟨h, hzero⟩⟩)
      · rw [unsigned?_of_isDigits hne hlen h]
        rfl
      · cases h
        rw [unsigned?, if_pos rfl, (magnitude_ten htail).mpr ⟨hs, hdigits, rfl⟩]
        rfl
      · cases h
        rw [unsigned?, if_neg (by decide), if_pos rfl, (magnitude_ten htail).mpr ⟨hs, hdigits, rfl⟩, hzero]
        rfl

theorem words_bound {s word : Text} (h : word ∈ words 19 s) : word ≠ [] ∧ word.length ≤ 19 :=
  (cutWords_spec s.reverse [] (by decide)).2 word h

theorem mem_words {s word : Text} (h : word ∈ words 19 s) {c : Char} (hc : c ∈ word) : c ∈ s := by
  have hflat := words_flatten (k := 19) (by decide) s
  rw [← hflat, List.mem_flatten]
  exact ⟨word, List.mem_reverse.mpr h, hc⟩

theorem isDigits_iff_words {s : Text} : IsDigits s ↔ ∀ word ∈ words 19 s, IsDigits word := by
  constructor
  · intro h word hword c hc
    exact h c (mem_words hword hc)
  · intro h c hc
    have hflat := words_flatten (k := 19) (by decide) s
    rw [← hflat, List.mem_flatten] at hc
    obtain ⟨word, hword, hc⟩ := hc
    exact h word (List.mem_reverse.mp hword) c hc

theorem chars_of_readable {s : Text} (h : Readable s) : ∀ c ∈ s, c.isDigit ∨ c = '+' ∨ c = '-' := by
  intro c hc
  have hflat := words_flatten (k := 19) (by decide) s
  rw [← hflat, List.mem_flatten] at hc
  obtain ⟨word, hword, hc⟩ := hc
  rcases h word (List.mem_reverse.mp hword) with hdigits | ⟨digits, _, hdigits, rfl | ⟨rfl, _⟩⟩
  · exact .inl (hdigits c hc)
  · obtain rfl | hc := List.mem_cons.mp hc
    · exact .inr (.inl rfl)
    · exact .inl (hdigits c hc)
  · obtain rfl | hc := List.mem_cons.mp hc
    · exact .inr (.inr rfl)
    · exact .inl (hdigits c hc)

theorem plain_of_readable {s : Text} (h : Readable s) : ∀ c ∈ s, Plain c := by
  intro c hc
  rcases chars_of_readable h c hc with hd | rfl | rfl
  · exact plain_of_digitValue (digitValue_of_isDigit hd)
  · exact ⟨by decide, by decide⟩
  · exact ⟨by decide, by decide⟩

section

variable [Segmentation]

theorem plain_of_bigUInt? {s : Text} (h : (bigUInt? s).isSome) : ∀ c ∈ s, Plain c := by
  have hwords : ∀ word ∈ words 19 (Segmentation.characters s), (unsigned? 10 uint64Size word.flatten).isSome := by
    rw [← isSome_mapM]
    cases hm : (words 19 (Segmentation.characters s)).mapM fun word => unsigned? 10 uint64Size word.flatten with
    | none =>
      rw [bigUInt?, hm] at h
      cases h
    | some ds => rfl
  intro c hc
  rw [← Segmentation.flatten_characters s, ← words_flatten (k := 19) (by decide) (Segmentation.characters s)] at hc
  obtain ⟨character, hcharacter, hc⟩ := List.mem_flatten.mp hc
  obtain ⟨word, hword, hcharacter⟩ := List.mem_flatten.mp hcharacter
  obtain ⟨n, hn⟩ := Option.isSome_iff_exists.mp (hwords word (List.mem_reverse.mp hword))
  exact plain_of_unsigned? hn c (List.mem_flatten.mpr ⟨character, hcharacter, hc⟩)

theorem bigUInt?_of_plain {s : Text} (h : ∀ c ∈ s, Plain c) :
    bigUInt? s = ((words 19 s).mapM (unsigned? 10 uint64Size)).map fun ds => ds.foldr (fun d n => n * 10 ^ 19 + d) 0 := by
  have hsingle (word : Text) : (word.map fun c => [c]).flatten = word := by
    induction word with
    | nil => rfl
    | cons c word ih => exact congrArg (c :: ·) ih
  have hwords : words 19 (s.map fun c => [c]) = (words 19 s).map (List.map fun c => [c]) := by
    rw [words, ← List.map_reverse]
    exact cutWords_map _ 19 s.reverse []
  rw [bigUInt?, characters_of_plain h, hwords, List.mapM_map]
  simp only [Function.comp_def, hsingle]
  cases (words 19 s).mapM fun word => unsigned? 10 uint64Size word with
  | none => rfl
  | some ds => rfl

theorem bigUInt?_isSome {s : Text} : (bigUInt? s).isSome ↔ Readable s := by
  have hwords : ((words 19 s).mapM (unsigned? 10 uint64Size)).isSome ↔ Readable s := by
    rw [isSome_mapM, Readable]
    apply forall₂_congr
    intro word hword
    have hbound := words_bound hword
    exact unsigned?_isSome hbound.1 hbound.2
  constructor
  · intro h
    rw [bigUInt?_of_plain (plain_of_bigUInt? h), Option.isSome_map] at h
    exact hwords.mp h
  · intro h
    rw [bigUInt?_of_plain (plain_of_readable h), Option.isSome_map]
    exact hwords.mpr h

theorem bigUInt?_of_isDigits {s : Text} (h : IsDigits s) : bigUInt? s = some (decimalValue s) := by
  have hreadable : Readable s := fun word hword => .inl (isDigits_iff_words.mp h word hword)
  have hm : (words 19 s).mapM (unsigned? 10 uint64Size) = some ((words 19 s).map decimalValue) := by
    apply mapM_eq_map
    intro word hword
    have hbound := words_bound hword
    exact unsigned?_of_isDigits hbound.1 hbound.2 (isDigits_iff_words.mp h word hword)
  have hvalue := cutWords_value (k := 19) s.reverse [] (by decide)
  rw [List.reverse_reverse, List.append_nil] at hvalue
  rw [bigUInt?_of_plain (plain_of_readable hreadable), hm, Option.map_some, List.foldr_map, ← hvalue]
  rfl

end

end TronlinkCore.Web3
