import Mathlib.Order.Monotone.Basic
import TronlinkCore.Library.Decimal

/-!
Bytes behind their count in decimal digits. Nothing separates the two, yet the
count and its digits grow together.
-/

namespace TronlinkCore

open Text

def countDigits (bytes : List UInt8) : List UInt8 := utf8 (Nat.toDigits 10 bytes.length)

def counted (bytes : List UInt8) : List UInt8 := countDigits bytes ++ bytes

theorem isAscii_toDigits (n : ℕ) : isAscii (Nat.toDigits 10 n) := by
  rw [isAscii, List.all_eq_true]
  intro c hc
  obtain ⟨_, hhigh⟩ := Char.isDigit_iff_toNat.mp (Nat.isDigit_of_mem_toDigits (by decide) (by decide) hc)
  have hhigh : c.toNat ≤ 57 := hhigh
  exact decide_eq_true (by omega)

theorem toDigits_injective {m n : ℕ} (h : Nat.toDigits 10 m = Nat.toDigits 10 n) : m = n := by
  rw [← Nat.ofDigitChars_ten_toDigits (n := m), h, Nat.ofDigitChars_ten_toDigits]

theorem countDigits_length (bytes : List UInt8) :
    (countDigits bytes).length = (Nat.toDigits 10 bytes.length).length :=
  utf8_length_of_isAscii (isAscii_toDigits _)

theorem length_toDigits_mono {m n : ℕ} (h : m ≤ n) : (Nat.toDigits 10 m).length ≤ (Nat.toDigits 10 n).length := by
  have hpos : 0 < (Nat.toDigits 10 n).length := Nat.length_toDigits_pos
  have hlt : n < 10 ^ (Nat.toDigits 10 n).length := (Nat.length_toDigits_le_iff (by decide) hpos).mp (Nat.le_refl _)
  exact (Nat.length_toDigits_le_iff (by decide) hpos).mpr (h.trans_lt hlt)

theorem counted_length_strictMono : StrictMono fun n : ℕ => (Nat.toDigits 10 n).length + n := by
  intro m n h
  have hdigits := length_toDigits_mono h.le
  dsimp only
  omega

theorem counted_injective : Function.Injective counted := by
  intro p q h
  have hlength : (counted p).length = (counted q).length := by rw [h]
  rw [counted, counted, List.length_append, List.length_append, countDigits_length, countDigits_length] at hlength
  have hcount : p.length = q.length := counted_length_strictMono.injective hlength
  have hdigits : countDigits p = countDigits q := by rw [countDigits, hcount, countDigits]
  rw [counted, counted, hdigits] at h
  exact List.append_cancel_left h

theorem countDigits_ne_nil (bytes : List UInt8) : countDigits bytes ≠ [] := by
  intro h
  have hpos : 0 < (Nat.toDigits 10 bytes.length).length := Nat.length_toDigits_pos
  rw [← countDigits_length, h] at hpos
  cases hpos

theorem append_eq_counted_iff {mark p q : List UInt8} :
    mark ++ p = counted q ↔
      (∃ more, countDigits q = mark ++ more ∧ p = more ++ q) ∨
        ∃ more, more ≠ [] ∧ mark = countDigits q ++ more ∧ q = more ++ p := by
  rw [counted, List.append_eq_append_iff]
  constructor
  · rintro (⟨more, hdigits, hp⟩ | ⟨more, hmark, hq⟩)
    · exact .inl ⟨more, hdigits, hp⟩
    · by_cases hnil : more = []
      · subst hnil
        refine .inl ⟨[], ?_, ?_⟩
        · rw [hmark, List.append_nil, List.append_nil]
        · exact hq.symm
      · exact .inr ⟨more, hnil, hmark, hq⟩
  · rintro (⟨more, hdigits, hp⟩ | ⟨more, _, hmark, hq⟩)
    · exact .inl ⟨more, hdigits, hp⟩
    · exact .inr ⟨more, hmark, hq⟩

end TronlinkCore
