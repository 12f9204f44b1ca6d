import TronlinkCore.Abi.TypeParserSpec

namespace TronlinkCore.Abi

open Outcome MachineInt ParameterType

def Ends (bytes : List UInt8) : Prop := ∀ b, bytes.head? = some b → isLetter b = false ∧ isDigitByte b = false

theorem ends_cons {b : UInt8} {bytes : List UInt8} (hl : isLetter b = false) (hd : isDigitByte b = false) :
    Ends (b :: bytes) := by
  intro c hc
  cases hc
  exact ⟨hl, hd⟩

theorem span_append {p : UInt8 → Bool} {xs : List UInt8} (rest : List UInt8) (hx : ∀ b ∈ xs, p b)
    (hr : ∀ b, rest.head? = some b → p b = false) :
    (xs ++ rest).takeWhile p = xs ∧ (xs ++ rest).dropWhile p = rest := by
  rw [List.takeWhile_append_of_pos hx, List.dropWhile_append_of_pos hx]
  cases rest with
  | nil => simp
  | cons b rest => simp [hr b rfl]

theorem utf8_decimal_digits (n : UInt64) : ∀ b ∈ Text.utf8 (decimal n), isDigitByte b := by
  intro b hb
  obtain ⟨c, hc, hb⟩ := List.mem_flatMap.mp hb
  obtain ⟨d, hd, hc⟩ := Decimal.digit_cases (isDigit_of_mem_decimal hc)
  have hdigit : ∀ d < 10, (String.utf8EncodeChar (Nat.digitChar d)).all isDigitByte = true := by decide +kernel
  rw [hc] at hb
  exact List.all_eq_true.mp (hdigit d hd) b hb

theorem utf8_decimal_ne_nil (n : UInt64) : Text.utf8 (decimal n) ≠ [] := by
  intro h
  exact decimal_ne_nil n (Text.utf8_injective h)

theorem utf8_decimal_head {n : UInt64} (h : n ≠ 0) : (Text.utf8 (decimal n)).head? ≠ some 48 := by
  have hd := decimal_head h
  have hdigit : ∀ c ∈ decimal n, c.isDigit := fun _ => isDigit_of_mem_decimal
  generalize decimal n = ds at hd hdigit
  cases ds with
  | nil => simp [Text.utf8]
  | cons c ds =>
    obtain ⟨d, hlt, rfl⟩ := Decimal.digit_cases (hdigit c List.mem_cons_self)
    have hc : (Nat.digitChar d).toNat = 48 + d := Nat.toNat_digitChar_of_lt_ten hlt
    rw [Text.utf8_cons_ascii (by omega), hc]
    intro h48
    apply hd
    have hz : (UInt8.ofNat (48 + d)).toNat = 48 := congrArg UInt8.toNat (Option.some.inj h48)
    rw [UInt8.toNat_ofNat', Nat.mod_eq_of_lt (by omega)] at hz
    have hd0 : d = 0 := by omega
    rw [hd0]
    rfl

theorem parseDigits_decimal (n : UInt64) : parseDigits (Text.utf8 (decimal n)) = ok n := by
  rw [parseDigits, Text.ofUtf8?_utf8, ofOption_some, ok_bind, uint64?_decimal, ofOption_some]

theorem parseWidth_decimal {n : UInt64} (h : n ≠ 0) : parseWidth (Text.utf8 (decimal n)) = ok (some n) := by
  rw [parseWidth, if_neg (utf8_decimal_ne_nil n), ensure_true (utf8_decimal_head h), ok_bind, parseDigits_decimal]
  rfl

theorem parseLength_decimal (n : UInt64) (rest : List UInt8) :
    parseLength (Text.utf8 (decimal n) ++ 93 :: rest) = ok (n, rest) := by
  have hspan := span_append (93 :: rest) (utf8_decimal_digits n) (by rintro b ⟨⟩; rfl)
  have hhead : (Text.utf8 (decimal n)).length = 1 ∨ (Text.utf8 (decimal n)).head? ≠ some 48 := by
    by_cases h0 : n = 0
    · rw [h0]
      exact .inl rfl
    · exact .inr (utf8_decimal_head h0)
  rw [parseLength, hspan.1, hspan.2, ensure_true ⟨utf8_decimal_ne_nil n, hhead⟩, ok_bind, parseDigits_decimal, ok_bind]
  rfl

theorem parseName_bare (name : Text) (hutf : Text.utf8 name = (Text.utf8 name).takeWhile isLetter) {rest : List UInt8}
    (hr : Ends rest) (depth : ℕ) : parseName depth (Text.utf8 name ++ rest) = namedType name none depth rest := by
  have hl : ∀ b ∈ Text.utf8 name, isLetter b := by
    rw [hutf]
    exact takeWhile_all _
  have hspan := span_append rest hl fun b hb => (hr b hb).1
  have hdig := @span_append isDigitByte [] rest (by simp) fun b hb => (hr b hb).2
  rw [List.nil_append] at hdig
  rw [parseName, hspan.1, hspan.2, Text.ofUtf8?_utf8, ofOption_some, ok_bind]
  dsimp only
  rw [hdig.1, hdig.2]
  rfl

theorem parseName_sized (name : Text) (hutf : Text.utf8 name = (Text.utf8 name).takeWhile isLetter) {n : UInt64}
    (hn : n ≠ 0) {rest : List UInt8} (hr : ∀ b, rest.head? = some b → isDigitByte b = false) (depth : ℕ) :
    parseName depth (Text.utf8 (name ++ decimal n) ++ rest) = namedType name (some n) depth rest := by
  have hl : ∀ b ∈ Text.utf8 name, isLetter b := by
    rw [hutf]
    exact takeWhile_all _
  have hdigits := utf8_decimal_digits n
  have hfirst : ∀ b, (Text.utf8 (decimal n) ++ rest).head? = some b → isLetter b = false := by
    intro b hb
    rw [List.head?_append_of_ne_nil _ (utf8_decimal_ne_nil n)] at hb
    have hd := hdigits b (List.mem_of_mem_head? hb)
    rw [isDigitByte, Bool.and_eq_true, decide_eq_true_eq, decide_eq_true_eq] at hd
    rw [isLetter, Bool.and_eq_false_iff]
    left
    have hlt : b < 97 := UInt8.lt_of_le_of_lt hd.2 (by decide)
    exact decide_eq_false (UInt8.not_le.mpr hlt)
  have hspan := span_append (Text.utf8 (decimal n) ++ rest) hl hfirst
  have hdig := span_append rest hdigits hr
  rw [Text.utf8_append, List.append_assoc, parseName, hspan.1, hspan.2, Text.ofUtf8?_utf8, ofOption_some, ok_bind]
  dsimp only
  rw [hdig.1, hdig.2, parseWidth_decimal hn, ok_bind]

theorem parseFixed_decimal {m n : UInt64} (hn : n ≠ 0) {rest : List UInt8} (hr : Ends rest) :
    parseFixed (some m) (120 :: (Text.utf8 (decimal n) ++ rest)) = ok (m, n, rest) := by
  have hspan := span_append rest (utf8_decimal_digits n) fun b hb => (hr b hb).2
  rw [parseFixed, consume, if_pos rfl, ofOption_some, ok_bind, hspan.1, hspan.2]
  dsimp only
  rw [ensure_true ⟨utf8_decimal_ne_nil n, utf8_decimal_head hn⟩, ok_bind, parseDigits_decimal]
  rfl

theorem parseName_scalar {t : ParameterType} (h : t.IsWord ∨ t.IsPayload) (hv : t.ValidScalar) {rest : List UInt8}
    (hr : Ends rest) (depth : ℕ) : parseName depth (Text.utf8 t.abiRepresentation ++ rest) = ok (t, rest) := by
  have hdigit : ∀ b, rest.head? = some b → isDigitByte b = false := fun b hb => (hr b hb).2
  have hx (n : UInt64) : ∀ b, (Text.utf8 ('x' :: decimal n) ++ rest).head? = some b → isDigitByte b = false := by
    intro b hb
    rw [Text.utf8_cons_ascii (by decide), List.cons_append] at hb
    cases hb
    rfl
  have hcons (n : UInt64) : Text.utf8 ('x' :: decimal n) ++ rest = 120 :: (Text.utf8 (decimal n) ++ rest) := by
    rw [Text.utf8_cons_ascii (by decide)]
    rfl
  cases t with
  | array t n => simp [IsWord, IsPayload] at h
  | fixedArray t n => simp [IsWord, IsPayload] at h
  | tuple ts => simp [IsWord, IsPayload] at h
  | uint n => exact parseName_sized "uint".toList (by decide) (UInt64.pos_iff_ne_zero.mp hv.1) hdigit depth
  | int n => exact parseName_sized "int".toList (by decide) (UInt64.pos_iff_ne_zero.mp hv.1) hdigit depth
  | bytes n => exact parseName_sized "bytes".toList (by decide) (UInt64.pos_iff_ne_zero.mp hv.1) hdigit depth
  | fixed m n =>
    have hm : m ≠ 0 := by
      rintro rfl
      exact absurd hv.1 (by decide)
    have hn : n ≠ 0 := by
      rintro rfl
      exact absurd hv.2.2.2.1 (by decide)
    have hp := parseName_sized "fixed".toList (by decide) hm (hx n) depth
    rw [← List.append_assoc, ← Text.utf8_append] at hp
    refine hp.trans ?_
    rw [hcons]
    change (do
      let sizes ← parseFixed (some m) (120 :: (Text.utf8 (decimal n) ++ rest))
      ok (ParameterType.fixed sizes.1 sizes.2.1, sizes.2.2)) = _
    rw [parseFixed_decimal hn hr]
    rfl
  | ufixed m n =>
    have hm : m ≠ 0 := by
      rintro rfl
      exact absurd hv.1 (by decide)
    have hn : n ≠ 0 := by
      rintro rfl
      exact absurd hv.2.2.2.1 (by decide)
    have hp := parseName_sized "ufixed".toList (by decide) hm (hx n) depth
    rw [← List.append_assoc, ← Text.utf8_append] at hp
    refine hp.trans ?_
    rw [hcons]
    change (do
      let sizes ← parseFixed (some m) (120 :: (Text.utf8 (decimal n) ++ rest))
      ok (ParameterType.ufixed sizes.1 sizes.2.1, sizes.2.2)) = _
    rw [parseFixed_decimal hn hr]
    rfl
  | address => exact parseName_bare "address".toList (by decide) hr depth
  | function => exact parseName_bare "function".toList (by decide) hr depth
  | bool => exact parseName_bare "bool".toList (by decide) hr depth
  | dynamicBytes => exact parseName_bare "bytes".toList (by decide) hr depth
  | string => exact parseName_bare "string".toList (by decide) hr depth

theorem parseArrays_stop {t : ParameterType} {depth : ℕ} (ha : Admitted depth t) (hs : t.typeSize ≤ maxNodes)
    {bytes : List UInt8} (hb : consume 91 bytes = none) : parseArrays t depth bytes = ok (t, bytes) := by
  rw [parseArrays, layout_eq_ok.mpr ⟨ha, hs, rfl, rfl⟩, ok_bind, hb]

theorem parseArrays_step {t u : ParameterType} {depth : ℕ} (ha : Admitted depth t) (hs : t.typeSize ≤ maxNodes)
    {bytes rest : List UInt8} (h : parseSuffix t bytes = ok (u, rest)) :
    parseArrays t depth (91 :: bytes) = parseArrays u depth rest := by
  have hlt := parseSuffix_length h
  have hopen : consume 91 (91 :: bytes) = some bytes := rfl
  rw [parseArrays, layout_eq_ok.mpr ⟨ha, hs, rfl, rfl⟩, ok_bind, hopen]
  dsimp only
  rw [h, ok_bind]
  dsimp only
  rw [dif_pos]
  rw [List.length_cons]
  omega

theorem parseSuffix_length_text (t : ParameterType) (n : UInt64) (rest : List UInt8) :
    parseSuffix t (Text.utf8 (decimal n) ++ 93 :: rest) =
      ok (if n = 0 then .fixedArray t 0 else .array t n, rest) := by
  have hclose : consume 93 (Text.utf8 (decimal n) ++ 93 :: rest) = none := by
    have hd := utf8_decimal_digits n
    have hne := utf8_decimal_ne_nil n
    generalize Text.utf8 (decimal n) = ds at hd hne
    cases ds with
    | nil => exact absurd rfl hne
    | cons d ds =>
      rw [List.cons_append, consume, if_neg]
      rintro rfl
      exact absurd (hd 93 List.mem_cons_self) (by decide)
  rw [parseSuffix, hclose]
  dsimp only
  rw [parseLength_decimal, ok_bind]

theorem scalar_head {t : ParameterType} (h : t.IsWord ∨ t.IsPayload) :
    ∃ b bytes, Text.utf8 t.abiRepresentation = b :: bytes ∧ isLetter b := by
  cases t with
  | array t n => simp [IsWord, IsPayload] at h
  | fixedArray t n => simp [IsWord, IsPayload] at h
  | tuple ts => simp [IsWord, IsPayload] at h
  | _ => exact ⟨_, _, rfl, rfl⟩

theorem abiRepresentation_head (t : ParameterType) :
    ∃ b bytes, Text.utf8 t.abiRepresentation = b :: bytes ∧ b ≠ 41 := by
  have scalar {t : ParameterType} (h : t.IsWord ∨ t.IsPayload) :
      ∃ b bytes, Text.utf8 t.abiRepresentation = b :: bytes ∧ b ≠ 41 := by
    obtain ⟨b, bytes, hb, hl⟩ := scalar_head h
    refine ⟨b, bytes, hb, ?_⟩
    rintro rfl
    exact absurd hl (by decide)
  induction t using nesting with
  | word t h => exact scalar (.inl h)
  | payload t h => exact scalar (.inr h)
  | array t n ih =>
    obtain ⟨b, bytes, hb, hne⟩ := ih
    by_cases h0 : n = 0
    · rw [abiRepresentation, if_pos h0, Text.utf8_append, hb]
      exact ⟨b, _, rfl, hne⟩
    · rw [abiRepresentation, if_neg h0, Text.utf8_append, Text.utf8_append, hb]
      exact ⟨b, _, rfl, hne⟩
  | fixedArray t n ih =>
    obtain ⟨b, bytes, hb, hne⟩ := ih
    rw [abiRepresentation, Text.utf8_append, Text.utf8_append, hb]
    exact ⟨b, _, rfl, hne⟩
  | tuple ts ih =>
    rw [abiRepresentation, List.cons_append, Text.utf8_cons_ascii (by decide)]
    exact ⟨_, _, rfl, by decide⟩

theorem parseComponents_of_texts {parse : List UInt8 → Outcome (ParameterType × List UInt8)}
    {ts : List ParameterType} (hne : ts ≠ [])
    (hp : ∀ t ∈ ts, ∀ rest, Ends rest → consume 91 rest = none →
      parse (Text.utf8 t.abiRepresentation ++ rest) = ok (t, rest)) (rest : List UInt8) :
    parseComponents parse (Text.utf8 (joined (representations ts)) ++ 41 :: rest) = ok (ts, rest) := by
  induction ts with
  | nil => exact absurd rfl hne
  | cons t ts ih =>
    cases ts with
    | nil =>
      have ht := hp t List.mem_cons_self (41 :: rest) (ends_cons rfl rfl) rfl
      rw [parseComponents]
      change (parse (Text.utf8 t.abiRepresentation ++ 41 :: rest)) >>= _ = _
      rw [ht]
      rfl
    | cons s ts =>
      have hs := ih (by simp) fun u hu => hp u (List.mem_cons_of_mem t hu)
      have ht := hp t List.mem_cons_self (44 :: (Text.utf8 (joined (representations (s :: ts))) ++ 41 :: rest))
        (ends_cons rfl rfl) rfl
      have htext : Text.utf8 (joined (representations (t :: s :: ts))) ++ 41 :: rest =
          Text.utf8 t.abiRepresentation ++ 44 :: (Text.utf8 (joined (representations (s :: ts))) ++ 41 :: rest) := by
        have hj : joined (representations (t :: s :: ts)) =
            t.abiRepresentation ++ ',' :: joined (representations (s :: ts)) := rfl
        rw [hj, Text.utf8_append, Text.utf8_cons_ascii (by decide), List.append_assoc]
        rfl
      have hclose (bytes : List UInt8) : consume 41 (44 :: bytes) = none := rfl
      have hcomma (bytes : List UInt8) : consume 44 (44 :: bytes) = some bytes := rfl
      rw [htext, parseComponents, ht, ok_bind]
      dsimp only
      rw [hclose, hcomma]
      dsimp only
      rw [ofOption_some, ok_bind, dif_pos, hs, ok_bind]
      simp only [List.length_append, List.length_cons]
      omega

theorem typeSize_le_typeSizes {t : ParameterType} {ts : List ParameterType} (h : t ∈ ts) :
    t.typeSize ≤ typeSizes ts := by
  induction ts with
  | nil => cases h
  | cons s ts ih =>
    rw [typeSizes]
    rcases List.mem_cons.mp h with rfl | h
    · exact Nat.le_add_right _ _
    · exact Nat.le_trans (ih h) (Nat.le_add_left _ _)

theorem Admitted.outer {depth : ℕ} {t : ParameterType} (h : Admitted (depth + 1) t) : Admitted depth t :=
  ⟨h.wellSized, by have := h.height_le; omega⟩

theorem parseLevels_abiRepresentation {levels depth : ℕ} {t : ParameterType} (hn : t.normalised = t)
    (ha : Admitted depth t) (hs : t.typeSize ≤ maxNodes) (hl : t.height ≤ levels) {rest : List UInt8}
    (hr : Ends rest) :
    parseLevels levels depth (Text.utf8 t.abiRepresentation ++ rest) = parseArrays t depth rest := by
  have scalar {t : ParameterType} {levels depth : ℕ} {rest : List UInt8} (h : t.IsWord ∨ t.IsPayload)
      (ha : Admitted depth t) (hl : t.height ≤ levels) (hr : Ends rest) :
      parseLevels levels depth (Text.utf8 t.abiRepresentation ++ rest) = parseArrays t depth rest := by
    obtain ⟨hheight, _, hv⟩ := scalar_facts h
    have hle := ha.height_le
    obtain ⟨levels, rfl⟩ := Nat.exists_eq_add_of_lt (by omega : 0 < levels)
    obtain ⟨b, bytes, hb, hletter⟩ := scalar_head h
    have hopen : consume 40 (Text.utf8 t.abiRepresentation ++ rest) = none := by
      rw [hb, List.cons_append, consume, if_neg]
      rintro rfl
      exact absurd hletter (by decide)
    rw [parseLevels, ensure_true (by omega), ok_bind, parseBase, hopen]
    dsimp only
    rw [parseName_scalar h (hv.mp ha.wellSized) hr, ok_bind]
  induction t using nesting generalizing levels depth rest with
  | word t h => exact scalar (.inl h) ha hl hr
  | payload t h => exact scalar (.inr h) ha hl hr
  | array t n ih =>
    have hat := (ha.element (.inl ⟨n, rfl⟩)).outer
    rw [normalised, array.injEq] at hn
    rw [typeSize] at hs
    rw [height] at hl
    by_cases h0 : n = 0
    · have htext : Text.utf8 (ParameterType.array t n).abiRepresentation ++ rest =
          Text.utf8 t.abiRepresentation ++ 91 :: 93 :: rest := by
        rw [abiRepresentation, if_pos h0, Text.utf8_append, List.append_assoc]
        rfl
      have hsuffix : parseSuffix t (93 :: rest) = ok (.array t 0, rest) := rfl
      rw [htext, ih hn.1 hat (by omega) (by omega) (ends_cons rfl rfl), parseArrays_step hat (by omega) hsuffix, h0]
    · have htext : Text.utf8 (ParameterType.array t n).abiRepresentation ++ rest =
          Text.utf8 t.abiRepresentation ++ 91 :: (Text.utf8 (decimal n) ++ 93 :: rest) := by
        rw [abiRepresentation, if_neg h0, Text.utf8_append, Text.utf8_append, Text.utf8_cons_ascii (by decide)]
        simp only [List.append_assoc, List.cons_append]
        rfl
      have hsuffix := parseSuffix_length_text t n rest
      rw [if_neg h0] at hsuffix
      rw [htext, ih hn.1 hat (by omega) (by omega) (ends_cons rfl rfl), parseArrays_step hat (by omega) hsuffix]
  | fixedArray t n ih =>
    have hat := (ha.element (.inr ⟨n, rfl⟩)).outer
    have h0 : n = 0 := by
      by_contra h0
      rw [normalised, if_neg h0] at hn
      cases hn
    rw [normalised, if_pos h0, fixedArray.injEq] at hn
    rw [typeSize] at hs
    rw [height] at hl
    have htext : Text.utf8 (ParameterType.fixedArray t n).abiRepresentation ++ rest =
        Text.utf8 t.abiRepresentation ++ 91 :: (Text.utf8 (decimal n) ++ 93 :: rest) := by
      rw [abiRepresentation, Text.utf8_append, Text.utf8_append, Text.utf8_cons_ascii (by decide)]
      simp only [List.append_assoc, List.cons_append]
      rfl
    have hsuffix := parseSuffix_length_text t n rest
    rw [if_pos h0] at hsuffix
    rw [htext, ih hn.1 hat (by omega) (by omega) (ends_cons rfl rfl), parseArrays_step hat (by omega) hsuffix, h0]
  | tuple ts ih =>
    have hm : maxDepth ≤ intMax := by decide
    have hle := ha.height_le
    rw [normalised, normalisedAll_eq_map, tuple.injEq] at hn
    rw [typeSize] at hs
    rw [height] at hl hle
    obtain ⟨levels, rfl⟩ := Nat.exists_eq_add_of_lt (by omega : 0 < levels)
    rw [Nat.zero_add] at hl ⊢
    have hcomponents : ∀ t ∈ ts, ∀ rest, Ends rest → consume 91 rest = none → (do
        let depth ← addInt depth 1
        parseLevels levels depth (Text.utf8 t.abiRepresentation ++ rest)) = ok (t, rest) := by
      intro t ht rest hr hstop
      have hat := ha.member ht
      have hst : t.typeSize ≤ maxNodes := Nat.le_trans (typeSize_le_typeSizes ht) (by omega)
      have hnt := List.map_inj_left.mp (hn.trans (List.map_id ts).symm) t ht
      have hht := heights_le_iff.mp (Nat.le_of_succ_le_succ hl) t ht
      rw [addInt_of_le (by omega), ok_bind, ih t ht hnt hat hst hht hr, parseArrays_stop hat hst hstop]
    have htext : Text.utf8 (ParameterType.tuple ts).abiRepresentation ++ rest =
        40 :: (Text.utf8 (joined (representations ts)) ++ 41 :: rest) := by
      rw [abiRepresentation, Text.utf8_append, Text.utf8_cons_ascii (by decide), List.append_assoc]
      rfl
    have hopen (bytes : List UInt8) : consume 40 (40 :: bytes) = some bytes := rfl
    rw [htext, parseLevels, ensure_true (by omega), ok_bind, parseBase, hopen]
    dsimp only
    by_cases hts : ts = []
    · rw [hts]
      rfl
    · have hclose : consume 41 (Text.utf8 (joined (representations ts)) ++ 41 :: rest) = none := by
        obtain ⟨t, us, rfl⟩ := List.exists_cons_of_ne_nil hts
        obtain ⟨b, bytes, hb, hne⟩ := abiRepresentation_head t
        have hj : ∃ more, joined (representations (t :: us)) = t.abiRepresentation ++ more := by
          cases us with
          | nil => exact ⟨[], (List.append_nil _).symm⟩
          | cons u us => exact ⟨_, rfl⟩
        obtain ⟨more, hj⟩ := hj
        rw [hj, Text.utf8_append, hb, List.cons_append, List.cons_append, consume, if_neg hne]
      rw [parseTuple, hclose]
      dsimp only
      rw [parseComponents_of_texts hts hcomponents]
      rfl

def ParameterType.isValid (t : ParameterType) : Bool := (layout t 0 maxNodes).toOption.isSome

theorem isValid_iff {t : ParameterType} : t.isValid = true ↔ Admitted 0 t ∧ t.typeSize ≤ maxNodes := by
  rw [isValid, Option.isSome_iff_exists]
  constructor
  · rintro ⟨⟨l, nodes⟩, h⟩
    obtain ⟨ha, hs, _⟩ := layout_eq_ok.mp (toOption_eq_some.mp h)
    exact ⟨ha, hs⟩
  · rintro ⟨ha, hs⟩
    exact ⟨_, toOption_eq_some.mpr (layout_eq_ok.mpr ⟨ha, hs, rfl, rfl⟩)⟩

theorem parseType_abiRepresentation {t : ParameterType} (h : t.isValid = true) {rest : List UInt8} (hr : Ends rest)
    (hstop : consume 91 rest = none) : parseType 0 (Text.utf8 t.abiRepresentation ++ rest) = ok (t.normalised, rest) := by
  obtain ⟨ha, hs⟩ := isValid_iff.mp h
  have hle := ha.height_le
  have hs' : t.normalised.typeSize ≤ maxNodes := by rwa [typeSize_normalised]
  have hh : t.normalised.height ≤ maxDepth + 1 := by
    rw [height_normalised]
    omega
  rw [← abiRepresentation_normalised, parseType,
    parseLevels_abiRepresentation (normalised_normalised t) ha.normalised hs' hh hr,
    parseArrays_stop ha.normalised hs' hstop]

theorem parseTypeString_abiRepresentation {t : ParameterType} (h : t.isValid = true) :
    parseTypeString t.abiRepresentation = ok t.normalised := by
  have hp := @parseType_abiRepresentation t h [] (by simp [Ends]) rfl
  rw [List.append_nil] at hp
  rw [parseTypeString, hp]
  rfl

theorem signature_injective {name : Text} {ts us : List ParameterType} (ht : ∀ t ∈ ts, t.isValid = true)
    (hu : ∀ u ∈ us, u.isValid = true) (h : signature name ts = signature name us) :
    normalisedAll ts = normalisedAll us := by
  have hnil {ts : List ParameterType} (h : joined (representations ts) = []) : ts = [] := by
    cases ts with
    | nil => rfl
    | cons t ts =>
      obtain ⟨b, bytes, hb, _⟩ := abiRepresentation_head t
      cases ts with
      | nil =>
        have he : t.abiRepresentation = [] := h
        rw [he] at hb
        cases hb
      | cons u us => exact absurd h (by simp [representations, joined])
  have hparse {ts : List ParameterType} (hv : ∀ t ∈ ts, t.isValid = true) (hne : ts ≠ []) :
      parseComponents (parseType 0) (Text.utf8 (joined (representations ts)) ++ [41]) = ok (normalisedAll ts, []) := by
    have hr : representations ts = representations (normalisedAll ts) := by
      simp [representations_eq_map, normalisedAll_eq_map]
    rw [hr]
    apply parseComponents_of_texts
    · rw [normalisedAll_eq_map]
      exact fun h => hne (List.map_eq_nil_iff.mp h)
    · rw [normalisedAll_eq_map]
      intro t hm rest hr hstop
      obtain ⟨s, hs, rfl⟩ := List.mem_map.mp hm
      rw [abiRepresentation_normalised, parseType_abiRepresentation (hv s hs) hr hstop]
  have hjoined : joined (representations ts) = joined (representations us) := by
    rw [signature, signature, List.append_assoc, List.append_assoc, ← representations_eq_map,
      ← representations_eq_map] at h
    exact List.append_cancel_right (List.cons.inj (List.append_cancel_left h)).2
  by_cases hts : ts = []
  · rw [hts] at hjoined ⊢
    rw [hnil hjoined.symm]
  · have hus : us ≠ [] := by
      rintro rfl
      exact hts (hnil hjoined)
    have he := hparse ht hts
    rw [hjoined, hparse hu hus] at he
    exact (Prod.mk.inj (ok.inj he)).1.symm

theorem type_names_one_to_one :
    (∀ t : ParameterType, t.isValid = true →
      ∃ u, parseTypeString t.abiRepresentation = ok u ∧ equal u t = true) ∧
    (∀ t u : ParameterType, t.isValid = true → u.isValid = true → equal t u = false →
      t.abiRepresentation ≠ u.abiRepresentation) ∧
    (∀ (name : Text) (ts us : List ParameterType), (∀ t ∈ ts, t.isValid = true) → (∀ u ∈ us, u.isValid = true) →
      equals ts us = false → signature name ts ≠ signature name us) ∧
    ∀ (s : Text) (t : ParameterType), parseTypeString s = ok t → parseTypeString t.abiRepresentation = ok t := by
  refine ⟨?_, ?_, ?_, ?_⟩
  · intro t h
    exact ⟨t.normalised, parseTypeString_abiRepresentation h, (equal_iff _ _).mpr (normalised_normalised t)⟩
  · intro t u ht hu hne h
    have he := parseTypeString_abiRepresentation ht
    rw [h, parseTypeString_abiRepresentation hu] at he
    rw [(equal_iff t u).mpr (ok.inj he).symm] at hne
    cases hne
  · intro name ts us ht hu hne h
    have he := signature_injective ht hu h
    rw [(equals_iff (fun t _ => equal_iff t) us).mpr he] at hne
    cases hne
  · intro s t h
    obtain ⟨ha, hs, hn⟩ := parseTypeString_eq_ok h
    have hnormal : t.normalised = t := by
      obtain hn | ⟨s', _, hsuffix⟩ := hn
      · exact hn.normal
      · have htuple : Names ['(', ')'] (.tuple []) := .tuple .nil
        exact (htuple.suffix hsuffix).normal
    rw [parseTypeString_abiRepresentation (isValid_iff.mpr ⟨ha, hs⟩), hnormal]

theorem type_names_one_to_one_sample :
    (∃ u, parseTypeString "(uint8,bool[2])[0]".toList = ok u ∧
      equal u (.fixedArray (.tuple [.uint 8, .fixedArray .bool 2]) 0) = true) ∧
    "int8[]".toList ≠ "int8[0]".toList ∧
    signature "f".toList [.uint 8, .bool] ≠ signature "f".toList [.tuple [.uint 8, .bool]] ∧
    parseTypeString "bytes3[4]".toList = ok (.array (.bytes 3) 4) := by
  have hvalid : (ParameterType.array (.bytes 3) 4).isValid = true := by decide +kernel
  refine ⟨?_, ?_, ?_, ?_⟩
  · exact type_names_one_to_one.1 (.fixedArray (.tuple [.uint 8, .fixedArray .bool 2]) 0) (by decide +kernel)
  · exact type_names_one_to_one.2.1 (.array (.int 8) 0) (.fixedArray (.int 8) 0) (by decide +kernel) (by decide +kernel)
      (by decide)
  · exact type_names_one_to_one.2.2.1 _ _ _ (by decide +kernel) (by decide +kernel) (by decide)
  · exact type_names_one_to_one.2.2.2 "bytes3[4]".toList _ (parseTypeString_abiRepresentation hvalid)

end TronlinkCore.Abi
