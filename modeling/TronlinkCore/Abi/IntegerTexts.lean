import TronlinkCore.Abi.Encoding
import TronlinkCore.Library.Radix

namespace TronlinkCore.Abi

open Outcome MachineInt Text BigEndian

/-- Digits behind `0x` or `0X`, decimal digits, or digits not all of which are decimal -/
inductive SpellsMagnitude : Text → ℕ → Prop where
  | prefixed {c : Char} {digits : Text} {n : ℕ} (hc : c = 'x' ∨ c = 'X') (hne : digits ≠ [])
      (h : numeral 16 digits = some n) : SpellsMagnitude ('0' :: c :: digits) n
  | decimal {digits : Text} {n : ℕ} (hne : digits ≠ []) (h : numeral 10 digits = some n) : SpellsMagnitude digits n
  | hexadecimal {digits : Text} {n : ℕ} (hnot : ¬ IsDigits digits) (h : numeral 16 digits = some n) :
      SpellsMagnitude digits n

inductive Spells : Text → ℤ → Prop where
  | unsigned {text : Text} {n : ℕ} (h : SpellsMagnitude text n) : Spells text n
  | plus {text : Text} {n : ℕ} (h : SpellsMagnitude text n) : Spells ('+' :: text) n
  | minus {text : Text} {n : ℕ} (h : SpellsMagnitude text n) : Spells ('-' :: text) (-(n : ℤ))

def convertToBigUInt [Graphemes] : AnyObject → Option ℕ
  | .bigUInt v => some v
  | .bigInt v => if v < 0 then none else some v.natAbs
  | .string v => do
    let integer ← integerString v false
    guard (¬ integer < 0)
    some integer.natAbs
  | .number v => if 0 ≤ v ∧ v < 2 ^ 64 then some v.natAbs else none
  | _ => none

theorem all_isDigitByte_utf8 {s : Text} : (utf8 s).all isDigitByte = true ↔ IsDigits s := by
  have hbyte (b : UInt8) : isDigitByte b = true ↔ 48 ≤ b.toNat ∧ b.toNat ≤ 57 := by
    rw [isDigitByte, Bool.and_eq_true, decide_eq_true_eq, decide_eq_true_eq, UInt8.le_iff_toNat_le,
      UInt8.le_iff_toNat_le]
    rfl
  rw [all_utf8_iff, IsDigits]
  · apply forall_congr'
    intro c
    apply imp_congr_right
    intro _
    rw [hbyte, UInt8.toNat_ofNat', Char.isDigit_iff_toNat]
    have h48 : ('0' : Char).toNat = 48 := rfl
    have h57 : ('9' : Char).toNat = 57 := rfl
    omega
  · intro b hb
    have hrange := (hbyte b).mp hb
    omega

theorem all_isHexByte_utf8 {s : Text} : (utf8 s).all isHexByte = true ↔ ∀ c ∈ s, (digitValue c).isSome := by
  have hbyte (b : UInt8) : isHexByte b = true ↔
      (48 ≤ b.toNat ∧ b.toNat ≤ 57) ∨ (97 ≤ b.toNat ∧ b.toNat ≤ 102) ∨ (65 ≤ b.toNat ∧ b.toNat ≤ 70) := by
    simp only [isHexByte, isDigitByte, Bool.or_eq_true, Bool.and_eq_true, decide_eq_true_eq, UInt8.le_iff_toNat_le]
    have h48 : (48 : UInt8).toNat = 48 := rfl
    have h57 : (57 : UInt8).toNat = 57 := rfl
    have h65 : (65 : UInt8).toNat = 65 := rfl
    have h70 : (70 : UInt8).toNat = 70 := rfl
    have h97 : (97 : UInt8).toNat = 97 := rfl
    have h102 : (102 : UInt8).toNat = 102 := rfl
    omega
  rw [all_utf8_iff]
  · apply forall_congr'
    intro c
    apply imp_congr_right
    intro _
    rw [hbyte, UInt8.toNat_ofNat', isSome_digitValue]
    omega
  · intro b hb
    have hrange := (hbyte b).mp hb
    omega

def digitLimit (radix : ℕ) : ℕ := if radix = 16 then 64 else 78

def digitsValue (radix : ℕ) (limitToABIWord : Bool) (digits : Text) : Option ℕ := do
  guard (!digits.isEmpty && (utf8 digits).all fun b => if radix = 16 then isHexByte b else isDigitByte b)
  let significant := digits.dropWhile (· == '0')
  guard (limitToABIWord = true → significant.length ≤ digitLimit radix)
  numeral radix (if significant.isEmpty then "0".toList else significant)

theorem digitsValue_map {α : Type} (radix : ℕ) (limit : Bool) (digits : Text) (f : ℕ → α) :
    (digitsValue radix limit digits).map f = (do
      guard (!digits.isEmpty && (utf8 digits).all fun b => if radix = 16 then isHexByte b else isDigitByte b)
      let significant := digits.dropWhile (· == '0')
      guard (limit = true → significant.length ≤ digitLimit radix)
      let magnitude ← numeral radix (if significant.isEmpty then "0".toList else significant)
      some (f magnitude)) := by
  simp only [digitsValue, Option.bind_eq_bind, Option.map_eq_bind, Option.bind_assoc, Function.comp_def]

def IsRadix (radix : ℕ) : Prop := radix = 10 ∨ radix = 16

theorem digits_iff_numeral {radix : ℕ} (hr : IsRadix radix) {digits : Text} :
    ((utf8 digits).all fun b => if radix = 16 then isHexByte b else isDigitByte b) = true ↔
      (numeral radix digits).isSome := by
  rcases hr with rfl | rfl
  · rw [isSome_numeral_ten, ← all_isDigitByte_utf8]
    rfl
  · rw [isSome_numeral_sixteen, ← all_isHexByte_utf8]
    rfl

theorem digitsValue_eq_some {radix : ℕ} (hr : IsRadix radix) {limit : Bool} {digits : Text} {n : ℕ} :
    digitsValue radix limit digits = some n ↔ digits ≠ [] ∧ numeral radix digits = some n ∧
      (limit = true → (digits.dropWhile (· == '0')).length ≤ digitLimit radix) := by
  have hpos : 0 < radix := by
    rcases hr with rfl | rfl <;> decide
  simp only [digitsValue, Option.bind_eq_bind, Option.bind_eq_some_iff, Option.guard_eq_some', exists_const,
    numeral_significant hpos, Bool.and_eq_true, Bool.not_eq_true', List.isEmpty_eq_false_iff, digits_iff_numeral hr]
  constructor
  · rintro ⟨⟨hne, _⟩, hlimit, h⟩
    exact ⟨hne, h, hlimit⟩
  · rintro ⟨hne, h, hlimit⟩
    rw [h]
    exact ⟨⟨hne, rfl⟩, hlimit, rfl⟩

theorem digitLimit_pow {radix : ℕ} (hr : IsRadix radix) : 2 ^ 256 ≤ radix ^ digitLimit radix := by
  rcases hr with rfl | rfl
  · rw [digitLimit, if_neg (by decide)]
    norm_num
  · rw [digitLimit, if_pos rfl]
    norm_num

theorem length_le_of_fits {radix : ℕ} (hr : IsRadix radix) {digits : Text} {n : ℕ}
    (h : numeral radix digits = some n) (hn : n < 2 ^ 256) :
    (digits.dropWhile (· == '0')).length ≤ digitLimit radix := by
  have hpos : 0 < radix := by
    rcases hr with rfl | rfl <;> decide
  have hsignificant := numeral_significant hpos digits
  by_contra hlong
  have hne : digits.dropWhile (· == '0') ≠ [] := by
    intro hnil
    rw [hnil] at hlong
    exact hlong (Nat.zero_le _)
  rw [if_neg (by simpa using hne), h] at hsignificant
  have hle := le_of_numeral hne (dropWhile_zero_head digits) hsignificant
  have hpow := Nat.pow_le_pow_right hpos (show digitLimit radix ≤ (digits.dropWhile (· == '0')).length - 1 by omega)
  have hword := digitLimit_pow hr
  omega

theorem digitsValue_of_limit {radix : ℕ} (hr : IsRadix radix) {digits : Text} {n : ℕ}
    (h : digitsValue radix true digits = some n) : digitsValue radix false digits = some n := by
  rw [digitsValue_eq_some hr] at h ⊢
  exact ⟨h.1, h.2.1, nofun⟩

theorem digitsValue_of_fits {radix : ℕ} (hr : IsRadix radix) {digits : Text} {n : ℕ}
    (h : digitsValue radix false digits = some n) (hn : n < 2 ^ 256) : digitsValue radix true digits = some n := by
  rw [digitsValue_eq_some hr] at h ⊢
  exact ⟨h.1, h.2.1, fun _ => length_le_of_fits hr h.2.1 hn⟩

section

variable [Graphemes]

def hasHexPrefix (digits : Text) : Bool := hasPrefix digits "0x".toList || hasPrefix digits "0X".toList

def radixOf (digits : Text) : ℕ :=
  if hasHexPrefix digits then 16 else if (utf8 digits).all isDigitByte then 10 else 16

def magnitudeValue (limitToABIWord : Bool) (digits : Text) : Option ℕ :=
  digitsValue (radixOf digits) limitToABIWord (if hasHexPrefix digits then digits.drop 2 else digits)

theorem radixOf_isRadix (digits : Text) : IsRadix (radixOf digits) := by
  unfold radixOf
  split
  · exact .inr rfl
  · split
    · exact .inl rfl
    · exact .inr rfl

theorem integerString_eq (value : Text) (limit : Bool) :
    integerString value limit =
      (magnitudeValue limit (if hasPrefix value "-".toList || hasPrefix value "+".toList then value.drop 1 else value)).map
        fun n : ℕ => if hasPrefix value "-".toList then -(n : ℤ) else (n : ℤ) := by
  rw [magnitudeValue, digitsValue_map]
  rfl

theorem not_hasPrefix_singleton {c : Char} {s : Text} (h : ∀ rest, s ≠ c :: rest) : hasPrefix s [c] = false := by
  apply hasPrefix_eq_false
  rintro ⟨rest, hrest⟩
  exact h rest hrest.symm

theorem hasHexPrefix_cases {digits : Text} (h : hasHexPrefix digits = true) :
    ∃ c rest, (c = 'x' ∨ c = 'X') ∧ digits = '0' :: c :: rest := by
  rw [hasHexPrefix, Bool.or_eq_true, hasPrefix, hasPrefix, Bool.and_eq_true, Bool.and_eq_true,
    List.isPrefixOf_iff_prefix, List.isPrefixOf_iff_prefix] at h
  rcases h with ⟨⟨rest, rfl⟩, _⟩ | ⟨⟨rest, rfl⟩, _⟩
  · exact ⟨'x', rest, .inl rfl, rfl⟩
  · exact ⟨'X', rest, .inr rfl, rfl⟩

omit [Graphemes] in
theorem digits_of_numeral_sixteen {digits : Text} {n : ℕ} (h : numeral 16 digits = some n) :
    ∀ c ∈ digits, (digitValue c).isSome := by
  apply isSome_numeral_sixteen.mp
  rw [h]
  rfl

omit [Graphemes] in
theorem digitValue_x {c : Char} (hc : c = 'x' ∨ c = 'X') : digitValue c = none := by
  rcases hc with rfl | rfl <;> rfl

omit [Graphemes] in
theorem numeral_prefixed {radix n : ℕ} {c : Char} (hc : c = 'x' ∨ c = 'X') {rest : Text} :
    numeral radix ('0' :: c :: rest) ≠ some n := by
  intro h
  obtain ⟨d, _, hd⟩ := digit_of_numeral h c (by simp)
  rw [digitValue_x hc] at hd
  cases hd

theorem hasHexPrefix_of_digits {c : Char} (hc : c = 'x' ∨ c = 'X') {rest : Text}
    (h : ∀ d ∈ rest, (digitValue d).isSome) : hasHexPrefix ('0' :: c :: rest) = true := by
  have hjoins : ∀ d ∈ rest.head?, Graphemes.joins d = false := by
    intro d hd
    obtain ⟨e, he⟩ := Option.isSome_iff_exists.mp (h d (List.mem_of_mem_head? hd))
    exact Graphemes.joins_ascii d (plain_of_digitValue he).1
  rw [hasHexPrefix, Bool.or_eq_true]
  rcases hc with rfl | rfl
  · exact .inl (hasPrefix_pair.mpr hjoins)
  · exact .inr (hasPrefix_pair.mpr hjoins)

theorem magnitudeValue_eq_some {digits : Text} {n : ℕ} :
    magnitudeValue false digits = some n ↔ SpellsMagnitude digits n := by
  have hsplit : magnitudeValue false digits = some n ↔
      (if hasHexPrefix digits then digits.drop 2 else digits) ≠ [] ∧
        numeral (radixOf digits) (if hasHexPrefix digits then digits.drop 2 else digits) = some n := by
    rw [magnitudeValue, digitsValue_eq_some (radixOf_isRadix digits)]
    simp
  rw [hsplit]
  by_cases hhex : hasHexPrefix digits = true
  · obtain ⟨c, rest, hc, rfl⟩ := hasHexPrefix_cases hhex
    rw [if_pos hhex, radixOf, if_pos hhex]
    constructor
    · rintro ⟨hne, h⟩
      exact .prefixed hc hne h
    · intro h
      cases h with
      | prefixed _ hne h => exact ⟨hne, h⟩
      | decimal _ h => exact absurd h (numeral_prefixed hc)
      | hexadecimal _ h => exact absurd h (numeral_prefixed hc)
  · rw [if_neg hhex, radixOf, if_neg hhex]
    by_cases hdigits : IsDigits digits
    · rw [if_pos (all_isDigitByte_utf8.mpr hdigits)]
      constructor
      · rintro ⟨hne, h⟩
        exact .decimal hne h
      · intro h
        cases h with
        | prefixed hc _ h => exact absurd (hasHexPrefix_of_digits hc (digits_of_numeral_sixteen h)) hhex
        | decimal hne h => exact ⟨hne, h⟩
        | hexadecimal hnot _ => exact absurd hdigits hnot
    · rw [if_neg fun h => hdigits (all_isDigitByte_utf8.mp h)]
      constructor
      · rintro ⟨_, h⟩
        exact .hexadecimal hdigits h
      · intro h
        cases h with
        | prefixed hc _ h => exact absurd (hasHexPrefix_of_digits hc (digits_of_numeral_sixteen h)) hhex
        | decimal _ h => exact absurd (isDigits_of_numeral h) hdigits
        | hexadecimal hnot h =>
          refine ⟨?_, h⟩
          rintro rfl
          exact hnot fun c hc => absurd hc List.not_mem_nil

omit [Graphemes] in
theorem scalars_of_spellsMagnitude {digits : Text} {n : ℕ} (h : SpellsMagnitude digits n) :
    ∀ c ∈ digits, (digitValue c).isSome ∨ c = 'x' ∨ c = 'X' := by
  cases h with
  | prefixed hc _ h =>
    simp only [List.forall_mem_cons]
    exact ⟨.inl rfl, .inr hc, fun d hd => .inl (digits_of_numeral_sixteen h d hd)⟩
  | decimal _ h =>
    intro c hc
    obtain ⟨d, _, hd⟩ := digit_of_numeral h c hc
    exact .inl (by rw [hd]; rfl)
  | hexadecimal _ h => exact fun c hc => .inl (digits_of_numeral_sixteen h c hc)

omit [Graphemes] in
theorem not_spellsMagnitude {c : Char} (hc : c = '+' ∨ c = '-') {rest : Text} {n : ℕ} :
    ¬ SpellsMagnitude (c :: rest) n := by
  intro h
  have hscalar := scalars_of_spellsMagnitude h c List.mem_cons_self
  rcases hc with rfl | rfl
  · exact absurd hscalar (by decide)
  · exact absurd hscalar (by decide)

theorem joins_of_spellsMagnitude {digits : Text} {n : ℕ} (h : SpellsMagnitude digits n) :
    ∀ d ∈ digits.head?, Graphemes.joins d = false := by
  intro d hd
  apply Graphemes.joins_ascii
  rcases scalars_of_spellsMagnitude h d (List.mem_of_mem_head? hd) with hdigit | rfl | rfl
  · obtain ⟨e, he⟩ := Option.isSome_iff_exists.mp hdigit
    exact (plain_of_digitValue he).1
  · decide
  · decide

theorem magnitudeValue_of_limit {digits : Text} {n : ℕ} (h : magnitudeValue true digits = some n) :
    magnitudeValue false digits = some n := digitsValue_of_limit (radixOf_isRadix digits) h

theorem magnitudeValue_eq_none {limit : Bool} {digits : Text} (h : ∀ n, ¬ SpellsMagnitude digits n) :
    magnitudeValue limit digits = none := by
  rw [Option.eq_none_iff_forall_ne_some]
  intro n hn
  cases limit with
  | false => exact h n (magnitudeValue_eq_some.mp hn)
  | true => exact h n (magnitudeValue_eq_some.mp (magnitudeValue_of_limit hn))

theorem hasPrefix_sign {c : Char} (hc : c = '+' ∨ c = '-') {rest : Text}
    (hjoins : ∀ d ∈ rest.head?, Graphemes.joins d = false) :
    hasPrefix (c :: rest) "-".toList = decide (c = '-') ∧
      (hasPrefix (c :: rest) "-".toList || hasPrefix (c :: rest) "+".toList) = true := by
  have hself : hasPrefix (c :: rest) [c] = true := hasPrefix_singleton.mpr hjoins
  rcases hc with rfl | rfl
  · have hminus : hasPrefix ('+' :: rest) "-".toList = false := rfl
    exact ⟨hminus, by rw [hminus, Bool.false_or]; exact hself⟩
  · have hminus : hasPrefix ('-' :: rest) "-".toList = true := hself
    exact ⟨hminus, by rw [hminus, Bool.true_or]⟩

theorem integerString_signed {c : Char} (hc : c = '+' ∨ c = '-') (rest : Text) (limit : Bool) :
    integerString (c :: rest) limit = (magnitudeValue limit rest).map fun n : ℕ => if c = '-' then -(n : ℤ) else (n : ℤ) := by
  rw [integerString_eq]
  by_cases hjoins : ∀ d ∈ rest.head?, Graphemes.joins d = false
  · obtain ⟨hminus, hsign⟩ := hasPrefix_sign hc hjoins
    rw [hsign, hminus]
    simp only [decide_eq_true_eq]
    rfl
  · have hrest (n : ℕ) : ¬ SpellsMagnitude rest n := fun h => hjoins (joins_of_spellsMagnitude h)
    have hnone : magnitudeValue limit (if hasPrefix (c :: rest) "-".toList || hasPrefix (c :: rest) "+".toList then
        (c :: rest).drop 1 else c :: rest) = none := by
      apply magnitudeValue_eq_none
      split
      · exact hrest
      · exact fun n => not_spellsMagnitude hc
    rw [hnone, magnitudeValue_eq_none hrest]
    rfl

theorem integerString_unsigned {value : Text} (hplus : ∀ rest, value ≠ '+' :: rest) (hminus : ∀ rest, value ≠ '-' :: rest)
    (limit : Bool) : integerString value limit = (magnitudeValue limit value).map Int.ofNat := by
  rw [integerString_eq]
  have hp : hasPrefix value "+".toList = false := not_hasPrefix_singleton hplus
  have hm : hasPrefix value "-".toList = false := not_hasPrefix_singleton hminus
  simp only [hp, hm, Bool.or_self, Bool.false_eq_true, if_false]
  rfl

/-- The text without its sign, and whether the sign is a minus -/
inductive Sign (value : Text) : Prop where
  | unsigned (hplus : ∀ rest, value ≠ '+' :: rest) (hminus : ∀ rest, value ≠ '-' :: rest)
  | signed (c : Char) (rest : Text) (hc : c = '+' ∨ c = '-') (hvalue : value = c :: rest)

omit [Graphemes] in
theorem sign (value : Text) : Sign value := by
  cases value with
  | nil => exact .unsigned nofun nofun
  | cons c rest =>
    by_cases hc : c = '+' ∨ c = '-'
    · exact .signed c rest hc rfl
    · rw [not_or] at hc
      refine .unsigned ?_ ?_
      · rintro rest' h
        exact hc.1 (List.cons.inj h).1
      · rintro rest' h
        exact hc.2 (List.cons.inj h).1

theorem integerString_eq_some {value : Text} {integer : ℤ} :
    integerString value false = some integer ↔ Spells value integer := by
  rcases sign value with ⟨hplus, hminus⟩ | ⟨c, rest, hc, rfl⟩
  · rw [integerString_unsigned hplus hminus, Option.map_eq_some_iff]
    constructor
    · rintro ⟨n, hn, rfl⟩
      exact .unsigned (magnitudeValue_eq_some.mp hn)
    · intro h
      cases h with
      | unsigned h => exact ⟨_, magnitudeValue_eq_some.mpr h, rfl⟩
      | plus h => exact absurd rfl (hplus _)
      | minus h => exact absurd rfl (hminus _)
  · rw [integerString_signed hc, Option.map_eq_some_iff]
    constructor
    · rintro ⟨n, hn, rfl⟩
      have hspells := magnitudeValue_eq_some.mp hn
      rcases hc with rfl | rfl
      · exact .plus hspells
      · exact .minus hspells
    · intro h
      cases h with
      | unsigned h => exact absurd h (not_spellsMagnitude hc)
      | plus h => exact ⟨_, magnitudeValue_eq_some.mpr h, rfl⟩
      | minus h => exact ⟨_, magnitudeValue_eq_some.mpr h, rfl⟩

theorem integerString_of_limit {value : Text} {integer : ℤ} (h : integerString value true = some integer) :
    integerString value false = some integer := by
  rw [integerString_eq, Option.map_eq_some_iff] at h ⊢
  obtain ⟨n, hn, hinteger⟩ := h
  exact ⟨n, magnitudeValue_of_limit hn, hinteger⟩

theorem integerString_of_fits {value : Text} {integer : ℤ} (h : integerString value false = some integer)
    (hfits : bitWidth integer.natAbs ≤ 256) : integerString value true = some integer := by
  rw [integerString_eq, Option.map_eq_some_iff] at h ⊢
  obtain ⟨n, hn, hinteger⟩ := h
  have habs : integer.natAbs = n := by
    rw [← hinteger]
    split <;> omega
  rw [habs, bitWidth_le_iff] at hfits
  exact ⟨n, digitsValue_of_fits (radixOf_isRadix _) hn hfits, hinteger⟩

omit [Graphemes] in
theorem fitting_eq_some {result : Option ℤ} {integer : ℤ} :
    (do let integer ← result
        guard (bitWidth integer.natAbs ≤ 256)
        some integer) = some integer ↔ result = some integer ∧ bitWidth integer.natAbs ≤ 256 := by
  simp only [Option.bind_eq_bind, Option.bind_eq_some_iff, Option.guard_eq_some', exists_const, Option.some.injEq]
  constructor
  · rintro ⟨_, h, hfits, rfl⟩
    exact ⟨h, hfits⟩
  · rintro ⟨h, hfits⟩
    exact ⟨integer, h, hfits, rfl⟩

theorem integerForEncoding_eq_some {value : AnyObject} {integer : ℤ} :
    integerForEncoding value = some integer ↔ convertToBigInt value = some integer ∧ bitWidth integer.natAbs ≤ 256 := by
  cases value with
  | string value =>
    have hstring : integerForEncoding (.string value) = some integer ↔
        integerString value true = some integer ∧ bitWidth integer.natAbs ≤ 256 := fitting_eq_some
    rw [hstring]
    constructor
    · rintro ⟨h, hfits⟩
      exact ⟨integerString_of_limit h, hfits⟩
    · rintro ⟨h, hfits⟩
      exact ⟨integerString_of_fits h hfits, hfits⟩
  | bigUInt | bigInt | number | data | web3Address | fixedPoint | array | other => exact fitting_eq_some

omit [Graphemes] in
def IsInteger (type : ParameterType) : Prop := ∃ bits, type = .uint bits ∨ type = .int bits

theorem encodeSingleType_congr {type : ParameterType} (ht : IsInteger type) {value value' : AnyObject}
    (h : integerForEncoding value = integerForEncoding value') :
    encodeSingleType type value = encodeSingleType type value' := by
  have hlevels : encodeValue 0 = encodeLevels (63 + 1) 0 := rfl
  have hword : encodeWord type value = encodeWord type value' := by
    obtain ⟨bits, rfl | rfl⟩ := ht
    · rw [encodeWord, encodeWord, h]
    · rw [encodeWord, encodeWord, h]
  obtain ⟨bits, rfl | rfl⟩ := ht
  · simp only [encodeSingleType, hlevels, encodeLevels, encodeOf, hword]
  · simp only [encodeSingleType, hlevels, encodeLevels, encodeOf, hword]

theorem encodeSingleType_fails {type : ParameterType} (ht : IsInteger type) (hvalid : type.ValidScalar)
    {value : AnyObject} (h : integerForEncoding value = none) : encodeSingleType type value = fail := by
  have hlevels : encodeValue 0 = encodeLevels (63 + 1) 0 := rfl
  have hword : encodeWord type value = none := by
    obtain ⟨bits, rfl | rfl⟩ := ht
    · rw [encodeWord, h]
      rfl
    · rw [encodeWord, h]
      rfl
  have hsized : type.WellSized ∧ 0 + type.height ≤ maxDepth := by
    obtain ⟨bits, rfl | rfl⟩ := ht
    · exact ⟨hvalid, (by decide : 0 + 1 ≤ maxDepth)⟩
    · exact ⟨hvalid, (by decide : 0 + 1 ≤ maxDepth)⟩
  have hsize : type.typeSize = 1 := by
    obtain ⟨bits, rfl | rfl⟩ := ht <;> rfl
  have hlayout := Budget.layout_spend ⟨hsized.1, hsized.2⟩ .full
  rw [hsize, spend_of_le _ (by decide)] at hlayout
  rw [encodeSingleType, hlevels, encodeLevels, afford_true (by decide), ok_bind, hlayout, ok_bind]
  obtain ⟨bits, rfl | rfl⟩ := ht
  · simp only [encodeOf, hword]
    rfl
  · simp only [encodeOf, hword]
    rfl

theorem convertToBigUInt_eq_some {value : Text} {n : ℕ} :
    convertToBigUInt (.string value) = some n ↔ convertToBigInt (.string value) = some (n : ℤ) := by
  have hstring : convertToBigUInt (.string value) = some n ↔
      ∃ integer, integerString value false = some integer ∧ ¬ integer < 0 ∧ integer.natAbs = n := by
    simp only [convertToBigUInt, Option.bind_eq_bind, Option.bind_eq_some_iff, Option.guard_eq_some', exists_const,
      Option.some.injEq]
  rw [hstring]
  constructor
  · rintro ⟨integer, h, hnonneg, rfl⟩
    have habs : (integer.natAbs : ℤ) = integer := by omega
    rw [habs]
    exact h
  · intro h
    exact ⟨n, h, by omega, rfl⟩

theorem integer_texts_encode :
    (∀ s integer, convertToBigInt (.string s) = some integer ↔ Spells s integer) ∧
      (∀ s n, convertToBigUInt (.string s) = some n ↔ convertToBigInt (.string s) = some (n : ℤ)) ∧
      ∀ s type, IsInteger type → type.ValidScalar → encodeSingleType type (.string s) =
        match convertToBigInt (.string s) with
        | some integer => encodeSingleType type (.bigInt integer)
        | none => fail := by
  refine ⟨fun _ _ => integerString_eq_some, fun _ _ => convertToBigUInt_eq_some, ?_⟩
  intro s type ht hvalid
  cases h : convertToBigInt (.string s) with
  | some integer =>
    apply encodeSingleType_congr ht
    apply Option.ext
    intro i
    rw [integerForEncoding_eq_some, integerForEncoding_eq_some, h]
    rfl
  | none =>
    apply encodeSingleType_fails ht hvalid
    rw [Option.eq_none_iff_forall_ne_some]
    intro i hi
    rw [integerForEncoding_eq_some, h] at hi
    cases hi.1

end

end TronlinkCore.Abi
