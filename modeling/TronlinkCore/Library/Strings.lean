import TronlinkCore.Library.Text

/-!
Strings as their Characters, and the numerals that integer initializers read.
-/

namespace TronlinkCore

def Plain (c : Char) : Prop := c.toNat < 128 ∧ c ≠ Char.ofNat 13

/-- The Characters of a string, and what they are around ASCII -/
class Segmentation extends Graphemes where
  characters : Text → List Text
  flatten_characters : ∀ s, (characters s).flatten = s
  characters_cons : ∀ c s, Plain c → (∀ d ∈ s.head?, joins d = false) → characters (c :: s) = [c] :: characters s
  characters_plain : ∀ s, ∀ character ∈ characters s, (∀ c ∈ character, Plain c) → character.length = 1

@[reducible]
def scalarCharacters : Segmentation where
  toGraphemes := plainText
  characters s := s.map fun c => [c]
  flatten_characters s := by
    induction s with
    | nil => rfl
    | cons c s ih => exact congrArg (c :: ·) ih
  characters_cons _ _ _ _ := rfl
  characters_plain s character h _ := by
    obtain ⟨c, _, rfl⟩ := List.mem_map.mp h
    rfl

namespace Text

theorem plain_pair {b c : Char} (hb : Plain b) (hc : Plain c) : ∀ d ∈ [b, c], Plain d := by
  simp only [List.forall_mem_cons]
  exact ⟨hb, hc, nofun⟩

theorem isAscii_of_plain {s : Text} (h : ∀ c ∈ s, Plain c) : isAscii s = true := by
  rw [isAscii, List.all_eq_true]
  exact fun c hc => decide_eq_true (h c hc).1

theorem hasPrefix_of_plain [Graphemes] {p s : Text} (h : ∀ c ∈ s, Plain c) : hasPrefix s p = true ↔ p <+: s := by
  rw [hasPrefix, Bool.and_eq_true, List.isPrefixOf_iff_prefix]
  constructor
  · intro hp
    exact hp.1
  · rintro ⟨rest, rfl⟩
    refine ⟨List.prefix_append p rest, ?_⟩
    rw [List.drop_left]
    cases rest with
    | nil => rfl
    | cons c rest =>
      have hc := h c (by simp)
      simp [Graphemes.joins_ascii c hc.1]

section

variable [Segmentation]

def count (s : Text) : ℕ := (Segmentation.characters s).length

/-- `String(dropFirst(k))` -/
def dropFirst (k : ℕ) (s : Text) : Text := ((Segmentation.characters s).drop k).flatten

theorem characters_nil : Segmentation.characters [] = [] := by
  have hflat := Segmentation.flatten_characters []
  cases h : Segmentation.characters [] with
  | nil => rfl
  | cons character rest =>
    rw [h, List.flatten_cons] at hflat
    have hnil : character = [] := (List.append_eq_nil_iff.mp hflat).1
    have hmem : character ∈ Segmentation.characters [] := by
      rw [h]
      exact List.mem_cons_self
    have hlen := Segmentation.characters_plain [] character hmem (by simp [hnil])
    rw [hnil] at hlen
    cases hlen

theorem characters_of_plain {s : Text} (h : ∀ c ∈ s, Plain c) : Segmentation.characters s = s.map fun c => [c] := by
  induction s with
  | nil => exact characters_nil
  | cons c s ih =>
    have hs : ∀ d ∈ s, Plain d := fun d hd => h d (List.mem_cons_of_mem c hd)
    rw [Segmentation.characters_cons c s (h c List.mem_cons_self), ih hs, List.map_cons]
    intro d hd
    exact Graphemes.joins_ascii d (hs d (List.mem_of_mem_head? hd)).1

theorem count_of_plain {s : Text} (h : ∀ c ∈ s, Plain c) : count s = s.length := by
  rw [count, characters_of_plain h, List.length_map]

theorem dropFirst_of_plain {s : Text} (h : ∀ c ∈ s, Plain c) (k : ℕ) : dropFirst k s = s.drop k := by
  rw [dropFirst, characters_of_plain h, ← List.map_drop]
  induction s.drop k with
  | nil => rfl
  | cons c t ih => exact congrArg (c :: ·) ih

theorem dropFirst_prefix {a b : Char} {s : Text} (ha : Plain a) (hb : Plain b)
    (h : hasPrefix (a :: b :: s) [a, b]) : dropFirst 2 (a :: b :: s) = s := by
  have hs : ∀ d ∈ s.head?, Graphemes.joins d = false := by
    intro d hd
    simp only [hasPrefix, Bool.and_eq_true] at h
    have hj := h.2
    simp only [List.length_cons, List.length_nil, List.drop_succ_cons, List.drop_zero] at hj
    cases s with
    | nil => cases hd
    | cons e s =>
      cases hd
      simpa using hj
  have hfirst : ∀ d ∈ (b :: s).head?, Graphemes.joins d = false := by
    intro d hd
    cases hd
    exact Graphemes.joins_ascii b hb.1
  rw [dropFirst, Segmentation.characters_cons a (b :: s) ha hfirst, Segmentation.characters_cons b s hb hs]
  exact Segmentation.flatten_characters s

end

def magnitude (radix size : ℕ) (digits : Text) : Option ℕ :=
  if digits = [] then none else (numeral radix digits).filter (· < size)

def unsigned? (radix size : ℕ) : Text → Option ℕ
  | [] => none
  | c :: digits =>
    if c = '+' then magnitude radix size digits
    else if c = '-' then (magnitude radix size digits).filter (· = 0)
    else magnitude radix size (c :: digits)

theorem digitValue_lt {c : Char} {d : ℕ} (h : digitValue c = some d) : d < 16 := by
  unfold digitValue at h
  split at h
  · rename_i hc
    cases h
    have hhigh : c.toNat ≤ 57 := hc.2
    omega
  · split at h
    · rename_i hc
      cases h
      have hhigh : c.toNat ≤ 102 := hc.2
      omega
    · split at h
      · rename_i hc
        cases h
        have hhigh : c.toNat ≤ 70 := hc.2
        omega
      · cases h

theorem eq_of_digitValue {c : Char} {d : ℕ} (h : digitValue c = some d) (hd : d < 10) : c = Char.ofNat (48 + d) := by
  have hc : c.toNat = 48 + d := by
    unfold digitValue at h
    split at h
    · rename_i hrange
      have hlow : 48 ≤ c.toNat := hrange.1
      cases h
      omega
    · split at h
      · rename_i hrange
        have hlow : 97 ≤ c.toNat := hrange.1
        cases h
        omega
      · split at h
        · rename_i hrange
          have hlow : 65 ≤ c.toNat := hrange.1
          cases h
          omega
        · cases h
  rw [← hc, Char.ofNat_toNat]

theorem plain_of_digitValue {c : Char} {d : ℕ} (h : digitValue c = some d) : Plain c := by
  have hrange : 48 ≤ c.toNat ∧ c.toNat ≤ 102 := by
    unfold digitValue at h
    split at h
    · rename_i hc
      have hlow : 48 ≤ c.toNat := hc.1
      have hhigh : c.toNat ≤ 57 := hc.2
      omega
    · split at h
      · rename_i hc
        have hlow : 97 ≤ c.toNat := hc.1
        have hhigh : c.toNat ≤ 102 := hc.2
        omega
      · split at h
        · rename_i hc
          have hlow : 65 ≤ c.toNat := hc.1
          have hhigh : c.toNat ≤ 70 := hc.2
          omega
        · cases h
  constructor
  · omega
  · rintro rfl
    exact absurd hrange.1 (by decide)

theorem ofHexPairs_eq_cons {s : Text} {b : UInt8} {bs : List UInt8} (h : ofHexPairs s = some (b :: bs)) :
    ∃ high low rest d e, s = high :: low :: rest ∧ digitValue high = some d ∧ digitValue low = some e ∧
      b.toNat = d * 16 + e ∧ ofHexPairs rest = some bs := by
  match s with
  | [] => cases h
  | [c] => cases h
  | high :: low :: rest =>
    simp only [ofHexPairs, Option.bind_eq_bind, Option.bind_eq_some_iff, Option.some.injEq, List.cons.injEq] at h
    obtain ⟨d, hd, e, he, tail, htail, rfl, rfl⟩ := h
    have hdlt := digitValue_lt hd
    have helt := digitValue_lt he
    refine ⟨high, low, rest, d, e, rfl, hd, he, ?_, htail⟩
    apply UInt8.toNat_ofNat_of_lt'
    change d * 16 + e < 256
    omega

theorem ofHexPairs_eq_nil {s : Text} (h : ofHexPairs s = some []) : s = [] :=
  List.length_eq_zero_iff.mp (ofHexPairs_length h)

theorem plain_of_ofHexPairs {s : Text} {data : List UInt8} (h : ofHexPairs s = some data) :
    ∀ c ∈ s, (digitValue c).isSome ∧ Plain c := by
  induction data generalizing s with
  | nil =>
    rw [ofHexPairs_eq_nil h]
    nofun
  | cons b bs ih =>
    obtain ⟨high, low, rest, d, e, rfl, hd, he, _, hrest⟩ := ofHexPairs_eq_cons h
    simp only [List.forall_mem_cons, hd, he, Option.isSome_some, true_and]
    exact ⟨plain_of_digitValue hd, plain_of_digitValue he, ih hrest⟩

theorem plain_of_mem_hex (bs : List UInt8) : ∀ c ∈ hex bs, Plain c :=
  fun c hc => (plain_of_ofHexPairs (ofHexPairs_hex bs) c hc).2

theorem numeral_cons (radix : ℕ) (c : Char) (s : Text) (n : ℕ) :
    (c :: s).foldlM (fun n c => do
        let d ← digitValue c
        if d < radix then some (n * radix + d) else none) n =
      (digitValue c).bind fun d =>
        if d < radix then
          s.foldlM (fun n c => do
            let d ← digitValue c
            if d < radix then some (n * radix + d) else none) (n * radix + d)
        else none := by
  rw [List.foldlM_cons]
  cases digitValue c with
  | none => rfl
  | some d =>
    by_cases hd : d < radix
    · simp [hd]
    · simp [hd]

theorem digit_of_numeral {radix n : ℕ} {s : Text} (h : numeral radix s = some n) :
    ∀ c ∈ s, ∃ d < radix, digitValue c = some d := by
  unfold numeral at h
  generalize 0 = start at h
  induction s generalizing start with
  | nil => simp
  | cons c s ih =>
    rw [numeral_cons, Option.bind_eq_some_iff] at h
    obtain ⟨d, hc, h⟩ := h
    split at h
    · rename_i hd
      intro e he
      obtain rfl | he := List.mem_cons.mp he
      · exact ⟨d, hd, hc⟩
      · exact ih _ h e he
    · cases h

theorem plain_of_magnitude {radix size n : ℕ} {s : Text} (h : magnitude radix size s = some n) : ∀ c ∈ s, Plain c := by
  intro c hc
  unfold magnitude at h
  split at h
  · cases h
  · obtain ⟨d, _, hd⟩ := digit_of_numeral (Option.filter_eq_some_iff.mp h).1 c hc
    exact plain_of_digitValue hd

theorem plain_of_unsigned? {radix size n : ℕ} {s : Text} (h : unsigned? radix size s = some n) : ∀ c ∈ s, Plain c := by
  cases s with
  | nil => cases h
  | cons sign s =>
    simp only [unsigned?] at h
    split at h
    · rename_i hsign
      intro c hc
      obtain rfl | hc := List.mem_cons.mp hc
      · rw [hsign]
        exact ⟨by decide, by decide⟩
      · exact plain_of_magnitude h c hc
    · split at h
      · rename_i hsign
        intro c hc
        obtain rfl | hc := List.mem_cons.mp hc
        · rw [hsign]
          exact ⟨by decide, by decide⟩
        · exact plain_of_magnitude (Option.filter_eq_some_iff.mp h).1 c hc
      · exact plain_of_magnitude h

end Text

end TronlinkCore
