import TronlinkCore.Library.Numerals

/-!
Numerals in a radix: zeros in front do not count, and a numeral without them is
as large as its length says. Digits are told by their bytes.
-/

namespace TronlinkCore.Text

def numeralFrom (radix start : ℕ) (s : Text) : Option ℕ :=
  s.foldlM (fun n c => do
    let d ← digitValue c
    if d < radix then some (n * radix + d) else none) start

theorem numeral_eq_from (radix : ℕ) (s : Text) : numeral radix s = numeralFrom radix 0 s := rfl

theorem numeralFrom_cons (radix n : ℕ) (c : Char) (s : Text) :
    numeralFrom radix n (c :: s) =
      (digitValue c).bind fun d => if d < radix then numeralFrom radix (n * radix + d) s else none :=
  numeral_cons radix c s n

theorem numeralFrom_cons_eq_some {radix start n : ℕ} {c : Char} {s : Text} :
    numeralFrom radix start (c :: s) = some n ↔
      ∃ d, digitValue c = some d ∧ d < radix ∧ numeralFrom radix (start * radix + d) s = some n := by
  rw [numeralFrom_cons, Option.bind_eq_some_iff]
  constructor
  · rintro ⟨d, hd, h⟩
    split at h
    · rename_i hlt
      exact ⟨d, hd, hlt, h⟩
    · cases h
  · rintro ⟨d, hd, hlt, h⟩
    exact ⟨d, hd, by rw [if_pos hlt, h]⟩

theorem le_of_numeralFrom {radix start n : ℕ} {s : Text} (h : numeralFrom radix start s = some n) :
    start * radix ^ s.length ≤ n := by
  induction s generalizing start with
  | nil =>
    cases h
    simp
  | cons c s ih =>
    obtain ⟨d, _, _, h⟩ := numeralFrom_cons_eq_some.mp h
    have hle := ih h
    calc start * radix ^ (s.length + 1) = start * radix * radix ^ s.length := by ring
      _ ≤ (start * radix + d) * radix ^ s.length := Nat.mul_le_mul_right _ (Nat.le_add_right _ _)
      _ ≤ n := hle

theorem le_of_numeral {radix n : ℕ} {s : Text} (hne : s ≠ []) (hzero : s.head? ≠ some '0')
    (h : numeral radix s = some n) : radix ^ (s.length - 1) ≤ n := by
  cases s with
  | nil => exact absurd rfl hne
  | cons c s =>
    obtain ⟨d, hd, _, h⟩ := numeralFrom_cons_eq_some.mp h
    have hpos : 1 ≤ d := by
      by_contra hlt
      have hd0 : d = 0 := by omega
      subst hd0
      exact hzero (congrArg some (eq_of_digitValue hd (by decide)))
    have hle := le_of_numeralFrom h
    rw [Nat.zero_mul, Nat.zero_add] at hle
    rw [List.length_cons, Nat.add_sub_cancel]
    calc radix ^ s.length = 1 * radix ^ s.length := (Nat.one_mul _).symm
      _ ≤ d * radix ^ s.length := Nat.mul_le_mul_right _ hpos
      _ ≤ n := hle

theorem numeral_zero_cons {radix : ℕ} (hr : 0 < radix) (s : Text) : numeral radix ('0' :: s) = numeral radix s := by
  have hd : digitValue '0' = some 0 := rfl
  rw [numeral_eq_from, numeralFrom_cons, hd, Option.bind_some, if_pos hr]
  simp only [Nat.zero_mul, Nat.zero_add]
  rfl

theorem numeral_significant {radix : ℕ} (hr : 0 < radix) (s : Text) :
    numeral radix (if (s.dropWhile (· == '0')).isEmpty then "0".toList else s.dropWhile (· == '0')) =
      numeral radix s := by
  have hdrop : numeral radix (s.dropWhile (· == '0')) = numeral radix s := by
    induction s with
    | nil => rfl
    | cons c s ih =>
      by_cases hc : c = '0'
      · subst hc
        rw [numeral_zero_cons hr, ← ih]
        rfl
      · rw [List.dropWhile_cons_of_neg]
        simpa using hc
  split
  · rename_i hempty
    rw [List.isEmpty_iff] at hempty
    rw [← hdrop, hempty]
    exact numeral_zero_cons hr []
  · exact hdrop

theorem dropWhile_zero_head (s : Text) : (s.dropWhile (· == '0')).head? ≠ some '0' := by
  intro h
  have hnot := List.head?_dropWhile_not (· == '0') s
  rw [h] at hnot
  simp at hnot

theorem all_utf8_iff {p : UInt8 → Bool} (hp : ∀ b, p b = true → b.toNat < 128) {s : Text} :
    (utf8 s).all p = true ↔ ∀ c ∈ s, c.toNat < 128 ∧ p (UInt8.ofNat c.toNat) = true := by
  have hchar (c : Char) : (∀ b ∈ String.utf8EncodeChar c, p b = true) ↔
      c.toNat < 128 ∧ p (UInt8.ofNat c.toNat) = true := by
    by_cases hc : c.toNat < 128
    · rw [utf8EncodeChar_of_ascii hc]
      simp [hc]
    · constructor
      · intro h
        have hne : String.utf8EncodeChar c ≠ [] := by
          rw [← List.length_pos_iff, String.length_utf8EncodeChar]
          exact Char.utf8Size_pos c
        obtain ⟨b, hb⟩ := List.exists_mem_of_ne_nil _ hne
        have hlt := hp b (h b hb)
        have hge := utf8EncodeChar_ge (Nat.le_of_not_lt hc) b hb
        omega
      · rintro ⟨hlt, _⟩
        exact absurd hlt hc
  rw [List.all_eq_true, utf8]
  simp only [List.mem_flatMap, ← hchar]
  constructor
  · intro h c hc b hb
    exact h b ⟨c, hc, hb⟩
  · rintro h b ⟨c, hc, hb⟩
    exact h c hc b hb

theorem isSome_digitValue {c : Char} : (digitValue c).isSome ↔
    (48 ≤ c.toNat ∧ c.toNat ≤ 57) ∨ (97 ≤ c.toNat ∧ c.toNat ≤ 102) ∨ (65 ≤ c.toNat ∧ c.toNat ≤ 70) := by
  unfold digitValue
  by_cases hdigit : 48 ≤ c.toNat ∧ c.toNat ≤ 57
  · have hrange : '0' ≤ c ∧ c ≤ '9' := hdigit
    simp [hrange, hdigit]
  · have hrange : ¬ ('0' ≤ c ∧ c ≤ '9') := hdigit
    rw [if_neg hrange]
    by_cases hlower : 97 ≤ c.toNat ∧ c.toNat ≤ 102
    · have hrange : 'a' ≤ c ∧ c ≤ 'f' := hlower
      simp [hrange, hlower]
    · have hrange : ¬ ('a' ≤ c ∧ c ≤ 'f') := hlower
      rw [if_neg hrange]
      by_cases hupper : 65 ≤ c.toNat ∧ c.toNat ≤ 70
      · have hrange : 'A' ≤ c ∧ c ≤ 'F' := hupper
        simp [hrange, hupper]
      · have hrange : ¬ ('A' ≤ c ∧ c ≤ 'F') := hupper
        rw [if_neg hrange]
        simp [hdigit, hlower, hupper]

theorem isSome_numeral_sixteen {s : Text} : (numeral 16 s).isSome ↔ ∀ c ∈ s, (digitValue c).isSome := by
  rw [numeral_eq_from]
  generalize 0 = start
  induction s generalizing start with
  | nil => simp [numeralFrom]
  | cons c s ih =>
    rw [numeralFrom_cons, List.forall_mem_cons]
    cases hd : digitValue c with
    | none => simp
    | some d =>
      rw [Option.bind_some, if_pos (digitValue_lt hd), ih]
      simp

theorem isSome_numeral_ten {s : Text} : (numeral 10 s).isSome ↔ IsDigits s := by
  constructor
  · intro h
    obtain ⟨n, hn⟩ := Option.isSome_iff_exists.mp h
    exact isDigits_of_numeral hn
  · intro h
    rw [numeral_ten h]
    rfl

end TronlinkCore.Text
