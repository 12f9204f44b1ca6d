import TronlinkCore.Abi.Values
import TronlinkCore.Library.Strings

namespace TronlinkCore.Abi

open Text

def marks : List Text := [[], "0x".toList, "0X".toList]

theorem marks_cases {mark : Text} (h : mark ∈ marks) : mark = [] ∨ mark = "0x".toList ∨ mark = "0X".toList := by
  simpa [marks] using h

theorem toLower_of_digitValue {c : Char} {d : ℕ} (h : digitValue c = some d) : c.toLower = hexDigit d := by
  have hall : ∀ n < 128, ∀ d < 16, digitValue (Char.ofNat n) = some d → (Char.ofNat n).toLower = hexDigit d := by
    decide +kernel
  have hc := hall c.toNat (plain_of_digitValue h).1 d (digitValue_lt h)
  rw [Char.ofNat_toNat] at hc
  exact hc h

theorem lowercased_of_ofHexPairs {s : Text} {data : List UInt8} (h : ofHexPairs s = some data) :
    lowercased s = hex data := by
  induction data generalizing s with
  | nil =>
    rw [ofHexPairs_eq_nil h]
    rfl
  | cons b bs ih =>
    obtain ⟨high, low, rest, d, e, rfl, hd, he, hbyte, hrest⟩ := ofHexPairs_eq_cons h
    have helt := digitValue_lt he
    have hhigh : b.toNat / 16 = d := by omega
    have hlow : b.toNat % 16 = e := by omega
    have htail := ih hrest
    rw [lowercased, hex] at htail
    rw [lowercased, List.map_cons, List.map_cons, htail, toLower_of_digitValue hd, toLower_of_digitValue he, hex,
      List.flatMap_cons, hhigh, hlow]
    rfl

theorem plain_of_spelling {mark digits : Text} {data : List UInt8} (hmark : mark ∈ marks)
    (h : ofHexPairs digits = some data) : ∀ c ∈ mark ++ digits, Plain c := by
  have hplain : ∀ c ∈ mark, Plain c := by
    rcases marks_cases hmark with rfl | rfl | rfl
    · nofun
    · exact plain_pair ⟨by decide, by decide⟩ ⟨by decide, by decide⟩
    · exact plain_pair ⟨by decide, by decide⟩ ⟨by decide, by decide⟩
  intro c hc
  rcases List.mem_append.mp hc with hc | hc
  · exact hplain c hc
  · exact (plain_of_ofHexPairs h c hc).2

theorem unmarked {digits : Text} {data : List UInt8} (h : ofHexPairs digits = some data) {c : Char}
    (hc : digitValue c = none) {b : Char} {rest : Text} : ¬ b :: c :: rest <+: digits := by
  rintro ⟨_, rfl⟩
  have hd := (plain_of_ofHexPairs h c (by simp)).1
  rw [hc] at hd
  cases hd

section

variable [Segmentation]

theorem hasPrefix_spelling {mark digits p : Text} {data : List UInt8} (hmark : mark ∈ marks)
    (h : ofHexPairs digits = some data) : hasPrefix (mark ++ digits) p = true ↔ p <+: mark ++ digits :=
  hasPrefix_of_plain (plain_of_spelling hmark h)

theorem hasPrefix_digits {digits : Text} {data : List UInt8} (h : ofHexPairs digits = some data) {b c : Char}
    (hc : digitValue c = none) {p : Text} : hasPrefix digits (b :: c :: p) = false := by
  rw [Bool.eq_false_iff, Ne, ← List.nil_append digits, hasPrefix_spelling (by decide) h]
  exact unmarked h hc

theorem dropFirst_mark {b c : Char} {digits : Text} {data : List UInt8} (hmark : [b, c] ∈ marks)
    (h : ofHexPairs digits = some data) : dropFirst 2 ([b, c] ++ digits) = digits := by
  rw [dropFirst_of_plain (plain_of_spelling hmark h)]
  rfl

theorem unmark {mark digits : Text} {data : List UInt8} (hmark : mark ∈ marks) (h : ofHexPairs digits = some data) :
    (if hasPrefix (mark ++ digits) "0x".toList || hasPrefix (mark ++ digits) "0X".toList then dropFirst 2 (mark ++ digits)
      else mark ++ digits) = digits := by
  rcases marks_cases hmark with rfl | rfl | rfl
  · have hx : hasPrefix digits "0x".toList = false := hasPrefix_digits h rfl
    have hX : hasPrefix digits "0X".toList = false := hasPrefix_digits h rfl
    rw [List.nil_append, hx, hX]
    rfl
  · have hx : hasPrefix ("0x".toList ++ digits) "0x".toList = true :=
      (hasPrefix_spelling hmark h).mpr (List.prefix_append _ _)
    rw [hx]
    exact dropFirst_mark hmark h
  · have hX : hasPrefix ("0X".toList ++ digits) "0X".toList = true :=
      (hasPrefix_spelling hmark h).mpr (List.prefix_append _ _)
    rw [hX, Bool.or_true]
    exact dropFirst_mark hmark h

end

end TronlinkCore.Abi
