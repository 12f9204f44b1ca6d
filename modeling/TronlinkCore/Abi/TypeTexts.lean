import TronlinkCore.Abi.NormalTypes

/-!
What the texts of types look like: a type name with its aliases written out is
the canonical text, and array suffixes are copied.
-/

namespace TronlinkCore.Abi

open ParameterType

def aliasSizes (word : Text) : Text :=
  if word = "uint".toList ∨ word = "int".toList then "256".toList
  else if word = "fixed".toList ∨ word = "ufixed".toList then "128x18".toList
  else []

-- `word` is the run of letters just before the rest of the text.
def expandFrom (word : Text) : Text → Text
  | [] => aliasSizes word
  | c :: cs =>
    if c.isLower then c :: expandFrom (word ++ [c]) cs
    else (if c.isDigit then [] else aliasSizes word) ++ c :: expandFrom [] cs

def expandAliases (text : Text) : Text := expandFrom [] text

theorem expandFrom_separator {c : Char} (hl : c.isLower = false) (hd : c.isDigit = false) (word xs ys : Text) :
    expandFrom word (xs ++ c :: ys) = expandFrom word xs ++ c :: expandAliases ys := by
  induction xs generalizing word with
  | nil => simp [expandFrom, hl, hd, expandAliases]
  | cons x xs ih =>
    rw [List.cons_append, expandFrom, expandFrom]
    split
    · rw [ih, List.cons_append]
    · rw [ih, List.append_assoc, List.cons_append]

theorem expandAliases_separator {c : Char} (hl : c.isLower = false) (hd : c.isDigit = false) (xs ys : Text) :
    expandAliases (xs ++ c :: ys) = expandAliases xs ++ c :: expandAliases ys :=
  expandFrom_separator hl hd [] xs ys

theorem expandAliases_cons {c : Char} (hl : c.isLower = false) (hd : c.isDigit = false) (ys : Text) :
    expandAliases (c :: ys) = c :: expandAliases ys := by
  have h := expandAliases_separator hl hd [] ys
  rwa [List.nil_append] at h

theorem not_lower_of_digit {c : Char} (h : c.isDigit) : c.isLower = false := by
  obtain ⟨d, hd, rfl⟩ := Decimal.digit_cases h
  revert d
  decide

theorem expandFrom_digits_append {ds : Text} (h : ∀ c ∈ ds, c.isDigit) (rest : Text) :
    expandFrom [] (ds ++ rest) = ds ++ expandFrom [] rest := by
  induction ds with
  | nil => rfl
  | cons c ds ih =>
    have hc := h c List.mem_cons_self
    rw [List.cons_append, expandFrom, if_neg (by simp [not_lower_of_digit hc]), if_pos hc,
      ih fun d hd => h d (List.mem_cons_of_mem c hd)]
    rfl

theorem expandFrom_digits {ds : Text} (h : ∀ c ∈ ds, c.isDigit) : expandFrom [] ds = ds := by
  have he := expandFrom_digits_append h []
  have h0 : expandFrom [] [] = [] := rfl
  rwa [h0, List.append_nil] at he

theorem expandFrom_lower {w : Text} (h : ∀ c ∈ w, c.isLower) (word rest : Text) :
    expandFrom word (w ++ rest) = w ++ expandFrom (word ++ w) rest := by
  induction w generalizing word with
  | nil => rw [List.nil_append, List.nil_append, List.append_nil]
  | cons c w ih =>
    rw [List.cons_append, expandFrom, if_pos (h c List.mem_cons_self),
      ih (fun d hd => h d (List.mem_cons_of_mem c hd)), List.append_assoc]
    rfl

theorem expandFrom_digit {ds : Text} (h : ∀ c ∈ ds, c.isDigit) (hne : ds ≠ []) (word rest : Text) :
    expandFrom word (ds ++ rest) = expandFrom [] (ds ++ rest) := by
  cases ds with
  | nil => exact absurd rfl hne
  | cons c ds =>
    have hc := h c List.mem_cons_self
    have hl := not_lower_of_digit hc
    simp only [List.cons_append, expandFrom, hl, hc, Bool.false_eq_true, ↓reduceIte]

theorem expandAliases_bare {w : Text} (h : ∀ c ∈ w, c.isLower) : expandAliases w = w ++ aliasSizes w := by
  have he := expandFrom_lower h [] []
  rwa [List.append_nil, List.nil_append] at he

theorem expandAliases_sized {w ds : Text} (h : ∀ c ∈ w, c.isLower) (hd : ∀ c ∈ ds, c.isDigit) (hne : ds ≠ []) :
    expandAliases (w ++ ds) = w ++ ds := by
  have he := expandFrom_digit hd hne w []
  rw [List.append_nil] at he
  rw [expandAliases, expandFrom_lower h, List.nil_append, he, expandFrom_digits hd]

theorem expandAliases_fixed {w ds es : Text} (h : ∀ c ∈ w, c.isLower) (hd : ∀ c ∈ ds, c.isDigit) (hne : ds ≠ [])
    (he : ∀ c ∈ es, c.isDigit) (hne' : es ≠ []) : expandAliases (w ++ ds ++ 'x' :: es) = w ++ ds ++ 'x' :: es := by
  have hx : expandFrom [] ('x' :: es) = 'x' :: es := by
    have hs := expandFrom_digit he hne' ['x'] []
    rw [List.append_nil] at hs
    rw [expandFrom, if_pos (by decide), List.nil_append, hs, expandFrom_digits he]
  rw [List.append_assoc, expandAliases, expandFrom_lower h, List.nil_append, expandFrom_digit hd hne,
    expandFrom_digits_append hd, hx]

structure Names (w : Text) (t : ParameterType) : Prop where
  ascii : w.isAscii
  canonical : expandAliases w = t.abiRepresentation
  normal : t.normalised = t

theorem isAscii_of_isDigit {ds : Text} (h : ∀ c ∈ ds, c.isDigit) : ds.isAscii := by
  rw [Text.isAscii, List.all_eq_true]
  intro c hc
  obtain ⟨_, hle⟩ := Char.isDigit_iff_toNat.mp (h c hc)
  have hle : c.toNat ≤ 57 := hle
  exact decide_eq_true (by omega)

theorem isAscii_of_isLower {w : Text} (h : ∀ c ∈ w, c.isLower) : w.isAscii := by
  rw [Text.isAscii, List.all_eq_true]
  intro c hc
  have hl := Bool.and_eq_true_iff.mp (h c hc)
  have hle : c.val.toNat ≤ 122 := of_decide_eq_true hl.2
  have hle : c.toNat ≤ 122 := hle
  exact decide_eq_true (by omega)

theorem isAscii_decimal (n : UInt64) : (decimal n).isAscii := isAscii_of_isDigit fun _ => isDigit_of_mem_decimal

theorem Names.bare {w : Text} {t : ParameterType} (h : ∀ c ∈ w, c.isLower)
    (ht : t.abiRepresentation = w ++ aliasSizes w) (hn : t.normalised = t) : Names w t :=
  ⟨isAscii_of_isLower h, by rw [expandAliases_bare h, ht], hn⟩

theorem Names.sized {w : Text} {t : ParameterType} (n : UInt64) (h : ∀ c ∈ w, c.isLower)
    (ht : t.abiRepresentation = w ++ decimal n) (hn : t.normalised = t) : Names (w ++ decimal n) t := by
  refine ⟨?_, ?_, hn⟩
  · rw [Text.isAscii_append, isAscii_of_isLower h, isAscii_decimal]
    rfl
  · rw [expandAliases_sized h (fun _ => isDigit_of_mem_decimal) (decimal_ne_nil n), ht]

theorem Names.fixed {w : Text} {t : ParameterType} (m n : UInt64) (h : ∀ c ∈ w, c.isLower)
    (ht : t.abiRepresentation = w ++ decimal m ++ 'x' :: decimal n) (hn : t.normalised = t) :
    Names (w ++ decimal m ++ 'x' :: decimal n) t := by
  refine ⟨?_, ?_, hn⟩
  · rw [Text.isAscii_append, Text.isAscii_append, Text.isAscii_cons, isAscii_of_isLower h, isAscii_decimal,
      isAscii_decimal]
    rfl
  · rw [expandAliases_fixed h (fun _ => isDigit_of_mem_decimal) (decimal_ne_nil m)
      (fun _ => isDigit_of_mem_decimal) (decimal_ne_nil n), ht]

theorem expandAliases_joined {ws : List Text} {ts : List ParameterType} (h : List.Forall₂ Names ws ts) (rest : Text) :
    expandAliases (joined ws ++ ')' :: rest) = joined (representations ts) ++ ')' :: expandAliases rest := by
  induction h with
  | nil =>
    rw [joined, List.nil_append, expandAliases_cons (by decide) (by decide)]
    rfl
  | @cons w t ws ts hw hs ih =>
    cases hs with
    | nil =>
      rw [joined, expandAliases_separator (by decide) (by decide), hw.canonical]
      rfl
    | @cons w' t' ws ts hw' hs =>
      have hj : joined (w :: w' :: ws) = w ++ ',' :: joined (w' :: ws) := rfl
      have hr : joined (representations (t :: t' :: ts)) =
          t.abiRepresentation ++ ',' :: joined (representations (t' :: ts)) := rfl
      rw [hj, hr, List.append_assoc, List.cons_append, expandAliases_separator (by decide) (by decide), ih,
        hw.canonical, List.append_assoc, List.cons_append]

theorem isAscii_joined {ws : List Text} (h : ∀ w ∈ ws, w.isAscii) : (joined ws).isAscii := by
  induction ws with
  | nil => rfl
  | cons w ws ih =>
    have hw := h w List.mem_cons_self
    have hws := ih fun v hv => h v (List.mem_cons_of_mem w hv)
    cases ws with
    | nil => exact hw
    | cons v ws =>
      have hj : joined (w :: v :: ws) = w ++ ',' :: joined (v :: ws) := rfl
      rw [hj, Text.isAscii_append, Text.isAscii_cons, hw, hws]
      rfl

theorem normalisedAll_of_names {ws : List Text} {ts : List ParameterType} (h : List.Forall₂ Names ws ts) :
    normalisedAll ts = ts := by
  induction h with
  | nil => rfl
  | cons hw _ ih => rw [normalisedAll, hw.normal, ih]

theorem Names.tuple {ws : List Text} {ts : List ParameterType} (h : List.Forall₂ Names ws ts) :
    Names ('(' :: joined ws ++ [')']) (.tuple ts) := by
  refine ⟨?_, ?_, ?_⟩
  · have hw : ∀ w ∈ ws, w.isAscii := by
      intro w hw
      obtain ⟨i, hi, rfl⟩ := List.mem_iff_getElem.mp hw
      exact (h.get hi (h.length_eq ▸ hi)).ascii
    rw [List.cons_append, Text.isAscii_cons, Text.isAscii_append, isAscii_joined hw]
    rfl
  · rw [List.cons_append, expandAliases_cons (by decide) (by decide), expandAliases_joined h, abiRepresentation]
    rfl
  · rw [normalised, normalisedAll_of_names h]

/-- `s` takes the element type `t` to the array type `u`. -/
inductive Suffix : Text → ParameterType → ParameterType → Prop
  | none (t : ParameterType) : Suffix [] t t
  | dynamic {s : Text} {t u : ParameterType} (h : Suffix s (.array t 0) u) : Suffix ('[' :: ']' :: s) t u
  | length {s : Text} {t u : ParameterType} (n : UInt64)
      (h : Suffix s (if n = 0 then .fixedArray t 0 else .array t n) u) : Suffix ('[' :: decimal n ++ ']' :: s) t u

theorem abiRepresentation_length (t : ParameterType) (n : UInt64) :
    (if n = 0 then ParameterType.fixedArray t 0 else .array t n).abiRepresentation =
      t.abiRepresentation ++ '[' :: decimal n ++ [']'] := by
  by_cases h : n = 0
  · rw [if_pos h, h, abiRepresentation]
  · rw [if_neg h, abiRepresentation, if_neg h]

theorem normalised_length {t : ParameterType} (h : t.normalised = t) (n : UInt64) :
    (if n = 0 then ParameterType.fixedArray t 0 else .array t n).normalised =
      if n = 0 then ParameterType.fixedArray t 0 else .array t n := by
  by_cases h0 : n = 0
  · rw [if_pos h0, normalised, if_pos rfl, h]
  · rw [if_neg h0, normalised, h]

theorem Names.suffix {w s : Text} {t u : ParameterType} (hs : Suffix s t u) (h : Names w t) : Names (w ++ s) u := by
  induction hs generalizing w with
  | none t => rwa [List.append_nil]
  | @dynamic s t u _ ih =>
    have hw : Names (w ++ ['[', ']']) (.array t 0) := by
      refine ⟨?_, ?_, by rw [normalised, h.normal]⟩
      · rw [Text.isAscii_append, h.ascii]
        rfl
      · rw [expandAliases_separator (by decide) (by decide), expandAliases_cons (by decide) (by decide), h.canonical,
          abiRepresentation, if_pos rfl]
        rfl
    have hu := ih hw
    rwa [List.append_assoc] at hu
  | @length s t u n _ ih =>
    have hw : Names (w ++ '[' :: decimal n ++ [']']) (if n = 0 then .fixedArray t 0 else .array t n) := by
      refine ⟨?_, ?_, normalised_length h.normal n⟩
      · rw [Text.isAscii_append, Text.isAscii_append, Text.isAscii_cons, h.ascii, isAscii_decimal]
        rfl
      · have hd : expandAliases (decimal n) = decimal n := expandFrom_digits fun _ => isDigit_of_mem_decimal
        rw [List.append_assoc, List.cons_append, expandAliases_separator (by decide) (by decide),
          expandAliases_separator (by decide) (by decide), h.canonical, hd, abiRepresentation_length,
          List.append_assoc, List.cons_append]
        rfl
    have hu := ih hw
    rwa [List.append_assoc, List.append_assoc] at hu

end TronlinkCore.Abi
