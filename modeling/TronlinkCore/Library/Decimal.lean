import Mathlib.Data.List.Induction
import TronlinkCore.Library.MachineInt
import TronlinkCore.Library.Text

namespace TronlinkCore

open MachineInt

def decimal (n : UInt64) : Text := Nat.toDigits 10 n.toNat

def uint64? (digits : Text) : Option UInt64 :=
  let n := Nat.ofDigitChars 10 digits 0
  if n < uint64Size then some (UInt64.ofNat n) else none

theorem isDigit_of_mem_decimal {n : UInt64} {c : Char} (h : c ∈ decimal n) : c.isDigit :=
  Nat.isDigit_of_mem_toDigits (by decide) (by decide) h

theorem decimal_ne_nil (n : UInt64) : decimal n ≠ [] := Nat.toDigits_ne_nil

theorem uint64?_decimal (n : UInt64) : uint64? (decimal n) = some n := by
  have hn : n.toNat < uint64Size := n.toNat_lt
  rw [uint64?, decimal, Nat.ofDigitChars_ten_toDigits, if_pos hn, UInt64.ofNat_toNat]

namespace Decimal

theorem digit_cases {c : Char} (h : c.isDigit) : ∃ d, d < 10 ∧ c = Nat.digitChar d := by
  obtain ⟨hlow, hhigh⟩ := Char.isDigit_iff_toNat.mp h
  have hlow : 48 ≤ c.toNat := hlow
  have hhigh : c.toNat ≤ 57 := hhigh
  have hd : c.toNat - 48 < 10 := by omega
  refine ⟨c.toNat - 48, hd, Char.toNat_inj.mp ?_⟩
  rw [Nat.toNat_digitChar_of_lt_ten hd]
  omega

theorem toDigits_head {n : ℕ} (h : 0 < n) : (Nat.toDigits 10 n).head? ≠ some '0' := by
  induction n using Nat.strongRecOn with
  | _ n ih =>
    rcases Nat.lt_or_ge n 10 with hlt | hge
    · rw [Nat.toDigits_of_lt_base hlt]
      intro he
      have hc : n.digitChar.toNat = ('0' : Char).toNat := congrArg Char.toNat (Option.some.inj he)
      rw [Nat.toNat_digitChar_of_lt_ten hlt] at hc
      have hz : ('0' : Char).toNat = 48 := rfl
      omega
    · rw [Nat.toDigits_of_base_le (by decide) hge, List.head?_append_of_ne_nil _ Nat.toDigits_ne_nil]
      exact ih (n / 10) (by omega) (by omega)

theorem toDigits_cons {n : ℕ} (h : 0 < n) : ∃ c rest, Nat.toDigits 10 n = c :: rest ∧ c ≠ '0' := by
  have hhead := toDigits_head h
  cases hdigits : Nat.toDigits 10 n with
  | nil => exact absurd hdigits Nat.toDigits_ne_nil
  | cons c rest =>
    refine ⟨c, rest, rfl, ?_⟩
    rintro rfl
    rw [hdigits] at hhead
    exact hhead rfl

theorem ofDigitChars_pos {cs : List Char} (hd : ∀ c ∈ cs, c.isDigit) (hne : cs ≠ []) (h0 : cs.head? ≠ some '0') :
    0 < Nat.ofDigitChars 10 cs 0 := by
  induction cs using List.reverseRecOn with
  | nil => exact absurd rfl hne
  | append_singleton cs c ih =>
    rw [Nat.ofDigitChars_append]
    obtain ⟨d, hlt, hc⟩ := digit_cases (hd c (by simp))
    rw [hc, Nat.ofDigitChars_cons_digitChar_of_lt_ten hlt, Nat.ofDigitChars_nil]
    by_cases hcs : cs = []
    · rcases Nat.eq_zero_or_pos d with rfl | hpos
      · rw [hcs, hc] at h0
        exact absurd rfl h0
      · omega
    · have := ih (fun c hc => hd c (by simp [hc])) hcs (by rwa [List.head?_append_of_ne_nil _ hcs] at h0)
      omega

theorem toDigits_ofDigitChars {cs : List Char} (hd : ∀ c ∈ cs, c.isDigit) (hne : cs ≠ [])
    (h0 : cs.length = 1 ∨ cs.head? ≠ some '0') : Nat.toDigits 10 (Nat.ofDigitChars 10 cs 0) = cs := by
  induction cs using List.reverseRecOn with
  | nil => exact absurd rfl hne
  | append_singleton cs c ih =>
    obtain ⟨d, hlt, hc⟩ := digit_cases (hd c (by simp))
    rw [Nat.ofDigitChars_append, hc, Nat.ofDigitChars_cons_digitChar_of_lt_ten hlt, Nat.ofDigitChars_nil]
    by_cases hcs : cs = []
    · rw [hcs, Nat.ofDigitChars_nil, Nat.mul_zero, Nat.zero_add, Nat.toDigits_of_lt_base hlt, List.nil_append]
    · have h0 : cs.head? ≠ some '0' := by
        rcases h0 with h1 | h0
        · have := List.length_pos_iff.mpr hcs
          rw [List.length_append, List.length_singleton] at h1
          omega
        · rwa [List.head?_append_of_ne_nil _ hcs] at h0
      have hdigits : ∀ c ∈ cs, c.isDigit := fun c hc => hd c (by simp [hc])
      rw [← Nat.toDigits_append_toDigits (by decide) (ofDigitChars_pos hdigits hcs h0) hlt, ih hdigits hcs (.inr h0),
        Nat.toDigits_of_lt_base hlt]

end Decimal

theorem decimal_head {n : UInt64} (h : n ≠ 0) : (decimal n).head? ≠ some '0' := by
  apply Decimal.toDigits_head
  apply Nat.pos_of_ne_zero
  intro h0
  exact h (UInt64.toNat_inj.mp h0)

theorem decimal_of_uint64? {cs : Text} {n : UInt64} (h : uint64? cs = some n) (hd : ∀ c ∈ cs, c.isDigit)
    (hne : cs ≠ []) (h0 : cs.length = 1 ∨ cs.head? ≠ some '0') : decimal n = cs := by
  unfold uint64? at h
  dsimp only at h
  split at h
  · rename_i hlt
    cases h
    rw [decimal, UInt64.toNat_ofNat_of_lt' hlt, Decimal.toDigits_ofDigitChars hd hne h0]
  · cases h

end TronlinkCore
