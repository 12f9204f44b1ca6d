import Mathlib.Data.List.Basic

/-!
Text as Unicode scalars, its UTF-8 bytes, numerals, and bytes written as pairs
of hexadecimal digits. Whether a scalar attaches to the one before it is left
open: it is never the case for ASCII.
-/

namespace TronlinkCore

abbrev Text := List Char

class Graphemes where
  joins : Char → Bool
  joins_ascii : ∀ c, c.toNat < 128 → joins c = false

abbrev plainText : Graphemes := ⟨fun _ => false, fun _ _ => rfl⟩

def joined : List Text → Text
  | [] => []
  | [text] => text
  | text :: texts => text ++ ',' :: joined texts

namespace Text

def utf8 (s : Text) : List UInt8 := s.flatMap String.utf8EncodeChar

def ofUtf8? (bs : List UInt8) : Option Text := (ByteArray.utf8Decode? bs.toByteArray).map Array.toList

theorem ofUtf8?_utf8 (s : Text) : ofUtf8? (utf8 s) = some s := by
  have h : (utf8 s).toByteArray = List.utf8Encode s := rfl
  rw [ofUtf8?, h, List.utf8Decode?_utf8Encode]
  rfl

theorem utf8_of_ofUtf8? {bs : List UInt8} {s : Text} (h : ofUtf8? bs = some s) : utf8 s = bs := by
  obtain ⟨cs, hc, rfl⟩ := Option.map_eq_some_iff.mp h
  have hs : (ByteArray.utf8Decode? bs.toByteArray).isSome := by simp [hc]
  have he := ByteArray.utf8Encode_get_utf8Decode? (b := bs.toByteArray) (h := hs)
  simp only [hc, Option.get_some] at he
  have hb : (utf8 cs.toList).toByteArray = bs.toByteArray := he
  simpa using congrArg (fun b => b.data.toList) hb

def isAscii (s : Text) : Bool := s.all fun c => c.toNat < 128

theorem utf8_length_of_isAscii {s : Text} (h : s.isAscii) : (utf8 s).length = s.length := by
  induction s with
  | nil => rfl
  | cons c s ih =>
    simp only [isAscii, List.all_cons, Bool.and_eq_true, decide_eq_true_eq] at h
    have h1 : (String.utf8EncodeChar c).length = 1 := by
      rw [String.length_utf8EncodeChar, Char.utf8Size_eq_one_iff, UInt32.le_iff_toNat_le]
      exact Nat.le_of_lt_succ h.1
    rw [utf8, List.flatMap_cons, List.length_append, h1, List.length_cons, Nat.add_comm]
    exact congrArg (· + 1) (ih h.2)

@[simp] theorem utf8_append (s t : Text) : utf8 (s ++ t) = utf8 s ++ utf8 t := List.flatMap_append

theorem utf8_injective {s t : Text} (h : utf8 s = utf8 t) : s = t := by
  have hs := ofUtf8?_utf8 s
  rw [h, ofUtf8?_utf8 t] at hs
  exact (Option.some.inj hs).symm

@[simp] theorem isAscii_append (s t : Text) : isAscii (s ++ t) = (isAscii s && isAscii t) := List.all_append

@[simp] theorem isAscii_cons (c : Char) (s : Text) : isAscii (c :: s) = (decide (c.toNat < 128) && isAscii s) := rfl

theorem utf8EncodeChar_of_ascii {c : Char} (h : c.toNat < 128) : String.utf8EncodeChar c = [UInt8.ofNat c.toNat] := by
  have hc : c.val.toNat ≤ 127 := Nat.le_of_lt_succ h
  rw [String.utf8EncodeChar, if_pos hc]
  rfl

theorem utf8EncodeChar_ge {c : Char} (h : 128 ≤ c.toNat) : ∀ b ∈ String.utf8EncodeChar c, 128 ≤ b.toNat := by
  have h7 : ¬ c.val.toNat ≤ 0x7f := by
    have : c.val.toNat = c.toNat := rfl
    omega
  intro b hb
  rw [String.utf8EncodeChar, if_neg h7] at hb
  split at hb
  · simp only [List.mem_cons, List.not_mem_nil, or_false] at hb
    rcases hb with rfl | rfl
    · rw [UInt8.toNat_ofNat']
      omega
    · rw [UInt8.toNat_ofNat']
      omega
  · split at hb
    · simp only [List.mem_cons, List.not_mem_nil, or_false] at hb
      rcases hb with rfl | rfl | rfl
      · rw [UInt8.toNat_ofNat']
        omega
      · rw [UInt8.toNat_ofNat']
        omega
      · rw [UInt8.toNat_ofNat']
        omega
    · simp only [List.mem_cons, List.not_mem_nil, or_false] at hb
      rcases hb with rfl | rfl | rfl | rfl
      · rw [UInt8.toNat_ofNat']
        omega
      · rw [UInt8.toNat_ofNat']
        omega
      · rw [UInt8.toNat_ofNat']
        omega
      · rw [UInt8.toNat_ofNat']
        omega

theorem utf8_cons_ascii {c : Char} (h : c.toNat < 128) (s : Text) : utf8 (c :: s) = UInt8.ofNat c.toNat :: utf8 s := by
  rw [utf8, List.flatMap_cons, utf8EncodeChar_of_ascii h]
  rfl

def ofAscii (bs : List UInt8) : Text := bs.map fun b => Char.ofNat b.toNat

theorem toNat_ofAscii {b : UInt8} (h : b < 128) : (Char.ofNat b.toNat).toNat = b.toNat := by
  have hb : b.toNat < 128 := h
  rw [Char.ofNat, dif_pos (.inl (by omega))]
  rfl

theorem isAscii_ofAscii {bs : List UInt8} (h : ∀ b ∈ bs, b < 128) : (ofAscii bs).isAscii := by
  rw [isAscii, ofAscii, List.all_map, List.all_eq_true]
  intro b hb
  rw [Function.comp_apply, toNat_ofAscii (h b hb)]
  exact decide_eq_true (h b hb)

theorem utf8_ofAscii {bs : List UInt8} (h : ∀ b ∈ bs, b < 128) : utf8 (ofAscii bs) = bs := by
  induction bs with
  | nil => rfl
  | cons b bs ih =>
    have hb := h b List.mem_cons_self
    have hc : (Char.ofNat b.toNat).toNat < 128 := by
      rw [toNat_ofAscii hb]
      exact hb
    have hbs := ih fun c hc => h c (List.mem_cons_of_mem b hc)
    rw [ofAscii, List.map_cons, utf8_cons_ascii hc, toNat_ofAscii hb, UInt8.ofNat_toNat]
    exact congrArg (b :: ·) hbs

/-- A prefix ends where a grapheme cluster ends. -/
def hasPrefix [Graphemes] (s p : Text) : Bool :=
  p.isPrefixOf s && ((s.drop p.length).head?.all fun c => !Graphemes.joins c)

theorem hasPrefix_eq_false [Graphemes] {s p : Text} (h : ¬ p <+: s) : hasPrefix s p = false := by
  rw [hasPrefix, Bool.and_eq_false_iff]
  left
  rw [Bool.eq_false_iff]
  exact fun hbegins => h (List.isPrefixOf_iff_prefix.mp hbegins)

theorem hasPrefix_singleton [Graphemes] {c : Char} {s : Text} :
    hasPrefix (c :: s) [c] = true ↔ ∀ d ∈ s.head?, Graphemes.joins d = false := by
  cases s with
  | nil => simp [hasPrefix]
  | cons d s => simp [hasPrefix]

theorem hasPrefix_pair [Graphemes] {b c : Char} {s : Text} :
    hasPrefix (b :: c :: s) [b, c] = true ↔ ∀ d ∈ s.head?, Graphemes.joins d = false := by
  cases s with
  | nil => simp [hasPrefix]
  | cons d s => simp [hasPrefix]

def digitValue (c : Char) : Option ℕ :=
  if '0' ≤ c ∧ c ≤ '9' then some (c.toNat - 48)
  else if 'a' ≤ c ∧ c ≤ 'f' then some (c.toNat - 87)
  else if 'A' ≤ c ∧ c ≤ 'F' then some (c.toNat - 55)
  else none

def numeral (radix : ℕ) (s : Text) : Option ℕ :=
  s.foldlM (fun n c => do
    let d ← digitValue c
    if d < radix then some (n * radix + d) else none) 0

def hexDigit (n : ℕ) : Char := if n < 10 then Char.ofNat (48 + n) else Char.ofNat (87 + n)

def hex (bs : List UInt8) : Text :=
  bs.flatMap fun b => [hexDigit (b.toNat / 16), hexDigit (b.toNat % 16)]

def ofHexPairs : Text → Option (List UInt8)
  | [] => some []
  | high :: low :: rest => do
    let h ← digitValue high
    let l ← digitValue low
    let bs ← ofHexPairs rest
    some (UInt8.ofNat (h * 16 + l) :: bs)
  | [_] => none

theorem digitValue_hexDigit {n : ℕ} (h : n < 16) : digitValue (hexDigit n) = some n := by
  revert n
  decide

theorem ofHexPairs_hex (bs : List UInt8) : ofHexPairs (hex bs) = some bs := by
  induction bs with
  | nil => rfl
  | cons b bs ih =>
    have hb : b.toNat < 256 := b.toNat_lt
    have hsum : b.toNat / 16 * 16 + b.toNat % 16 = b.toNat := by omega
    rw [hex] at ih
    rw [hex, List.flatMap_cons, List.cons_append, List.cons_append, List.nil_append, ofHexPairs,
      digitValue_hexDigit (by omega), digitValue_hexDigit (by omega), ih]
    change some (UInt8.ofNat (b.toNat / 16 * 16 + b.toNat % 16) :: bs) = some (b :: bs)
    rw [hsum, UInt8.ofNat_toNat]

theorem ofHexPairs_length {s : Text} {bs : List UInt8} (h : ofHexPairs s = some bs) : s.length = 2 * bs.length := by
  induction s using ofHexPairs.induct generalizing bs with
  | case1 =>
    cases h
    rfl
  | case2 high low rest ih =>
    simp only [ofHexPairs, Option.bind_eq_bind, Option.bind_eq_some_iff, Option.some.injEq] at h
    obtain ⟨_, _, _, _, tail, htail, rfl⟩ := h
    simp only [List.length_cons, ih htail]
    omega
  | case3 _ => cases h

@[simp] theorem hex_length (bs : List UInt8) : (hex bs).length = 2 * bs.length := by
  induction bs with
  | nil => rfl
  | cons b bs ih =>
    rw [hex] at ih
    rw [hex, List.flatMap_cons, List.length_append, ih, List.length_cons]
    simp
    omega

end Text

end TronlinkCore
