import TronlinkCore.Library.MachineInt
import TronlinkCore.Library.Strings
import Mathlib.Algebra.BigOperators.Group.List.Basic
import Mathlib.Tactic.Ring

/-!
Decimal numerals of any length, read word by word from the end, and texts cut
at separators.
-/

namespace TronlinkCore

open MachineInt

namespace Text

def IsDigits (s : Text) : Prop := ∀ c ∈ s, c.isDigit

instance (s : Text) : Decidable (IsDigits s) := inferInstanceAs (Decidable (∀ c ∈ s, _))

def decimalValue (digits : Text) : ℕ := Nat.ofDigitChars 10 digits 0

theorem isDigits_toDigits (n : ℕ) : IsDigits (Nat.toDigits 10 n) :=
  fun _ hc => Nat.isDigit_of_mem_toDigits (by decide) (by decide) hc

theorem decimalValue_toDigits (n : ℕ) : decimalValue (Nat.toDigits 10 n) = n := Nat.ofDigitChars_ten_toDigits

theorem ne_of_isDigit {c mark : Char} (hc : c.isDigit) (hmark : mark.isDigit = false) : c ≠ mark := by
  rintro rfl
  rw [hmark] at hc
  cases hc

theorem isDigits_append {s t : Text} : IsDigits (s ++ t) ↔ IsDigits s ∧ IsDigits t := by
  rw [IsDigits, List.forall_mem_append]
  rfl

theorem decimalValue_append (s t : Text) :
    decimalValue (s ++ t) = decimalValue s * 10 ^ t.length + decimalValue t := by
  rw [decimalValue, Nat.ofDigitChars_append, Nat.ofDigitChars_eq_ofDigitChars_zero]
  rw [decimalValue, decimalValue]
  ring

theorem decimalValue_cons (c : Char) (s : Text) :
    decimalValue (c :: s) = (c.toNat - 48) * 10 ^ s.length + decimalValue s := by
  have hone : decimalValue [c] = c.toNat - 48 := by simp [decimalValue, Nat.ofDigitChars_cons]
  rw [← hone]
  exact decimalValue_append [c] s

theorem digitValue_of_isDigit {c : Char} (h : c.isDigit) : digitValue c = some (c.toNat - 48) := by
  obtain ⟨hlow, hhigh⟩ := Char.isDigit_iff_toNat.mp h
  exact if_pos ⟨hlow, hhigh⟩

theorem isDigit_of_digitValue {c : Char} {d : ℕ} (h : digitValue c = some d) (hd : d < 10) : c.isDigit := by
  rw [Char.isDigit_iff_toNat]
  unfold digitValue at h
  split at h
  · rename_i hc
    exact hc
  · split at h
    · rename_i hc
      have hlow : 97 ≤ c.toNat := hc.1
      cases h
      omega
    · split at h
      · rename_i hc
        have hlow : 65 ≤ c.toNat := hc.1
        cases h
        omega
      · cases h

theorem numeral_ten {s : Text} (h : IsDigits s) : numeral 10 s = some (decimalValue s) := by
  have fold (n : ℕ) : s.foldlM (fun n c => do
      let d ← digitValue c
      if d < 10 then some (n * 10 + d) else none) n = some (Nat.ofDigitChars 10 s n) := by
    induction s generalizing n with
    | nil => rfl
    | cons c s ih =>
      have hc := h c List.mem_cons_self
      have hd := digitValue_of_isDigit hc
      have hlt : c.toNat - 48 < 10 := by
        have hhigh : c.toNat ≤ 57 := (Char.isDigit_iff_toNat.mp hc).2
        omega
      rw [numeral_cons, hd, Option.bind_some, if_pos hlt, ih fun e he => h e (List.mem_cons_of_mem c he),
        Nat.ofDigitChars_cons, Nat.mul_comm n 10]
      rfl
  exact fold 0

theorem isDigits_of_numeral {s : Text} {n : ℕ} (h : numeral 10 s = some n) : IsDigits s := by
  intro c hc
  obtain ⟨d, hd, hvalue⟩ := digit_of_numeral h c hc
  exact isDigit_of_digitValue hvalue hd

theorem decimalValue_lt {s : Text} (h : IsDigits s) : decimalValue s < 10 ^ s.length := by
  induction s with
  | nil => decide
  | cons c s ih =>
    have hc : c.toNat ≤ 57 := (Char.isDigit_iff_toNat.mp (h c List.mem_cons_self)).2
    have hs := ih fun d hd => h d (List.mem_cons_of_mem c hd)
    have hd : c.toNat - 48 + 1 ≤ 10 := by omega
    have hmul := Nat.mul_le_mul_right (10 ^ s.length) hd
    rw [List.length_cons, Nat.pow_succ, decimalValue_cons]
    rw [Nat.add_mul, Nat.one_mul] at hmul
    omega

theorem magnitude_ten {size n : ℕ} {s : Text} (hsize : 10 ^ s.length ≤ size) :
    magnitude 10 size s = some n ↔ s ≠ [] ∧ IsDigits s ∧ n = decimalValue s := by
  unfold magnitude
  by_cases hs : s = []
  · rw [if_pos hs]
    simp [hs]
  · rw [if_neg hs, Option.filter_eq_some_iff]
    constructor
    · rintro ⟨hn, _⟩
      have hdigits := isDigits_of_numeral hn
      rw [numeral_ten hdigits] at hn
      exact ⟨hs, hdigits, (Option.some.inj hn).symm⟩
    · rintro ⟨_, hdigits, rfl⟩
      have hlt := decimalValue_lt hdigits
      exact ⟨numeral_ten hdigits, decide_eq_true (by omega)⟩

end Text

def cutWords {α : Type} (k : ℕ) : List α → List α → List (List α)
  | [], word => if word = [] then [] else [word]
  | a :: rest, word =>
    if (a :: word).length = k then (a :: word) :: cutWords k rest [] else cutWords k rest (a :: word)

def words {α : Type} (k : ℕ) (as : List α) : List (List α) := cutWords k as.reverse []

section

variable {α : Type} {k : ℕ}

theorem cutWords_spec (rest word : List α) (hword : word.length < k) :
    (cutWords k rest word).reverse.flatten = rest.reverse ++ word ∧
      ∀ w ∈ cutWords k rest word, w ≠ [] ∧ w.length ≤ k := by
  induction rest generalizing word with
  | nil =>
    unfold cutWords
    by_cases hnil : word = []
    · simp [hnil]
    · rw [if_neg hnil]
      constructor
      · simp
      · intro w hw
        rw [List.mem_singleton] at hw
        subst hw
        exact ⟨hnil, hword.le⟩
  | cons a rest ih =>
    unfold cutWords
    by_cases hfull : (a :: word).length = k
    · rw [if_pos hfull]
      obtain ⟨hflat, hall⟩ := ih [] (by simp only [List.length_nil]; omega)
      constructor
      · rw [List.reverse_cons, List.flatten_append, hflat]
        simp
      · intro w hw
        obtain rfl | hw := List.mem_cons.mp hw
        · exact ⟨List.cons_ne_nil a word, hfull.le⟩
        · exact hall w hw
    · rw [if_neg hfull]
      have hlt : (a :: word).length < k := by
        simp only [List.length_cons] at hfull ⊢
        omega
      obtain ⟨hflat, hall⟩ := ih (a :: word) hlt
      refine ⟨?_, hall⟩
      rw [hflat]
      simp

theorem words_flatten (hk : 0 < k) (as : List α) : (words k as).reverse.flatten = as := by
  have h := (cutWords_spec as.reverse [] hk).1
  rwa [List.reverse_reverse, List.append_nil] at h

theorem cutWords_map {β : Type} (f : α → β) (k : ℕ) (rest word : List α) :
    cutWords k (rest.map f) (word.map f) = (cutWords k rest word).map (List.map f) := by
  induction rest generalizing word with
  | nil =>
    unfold cutWords
    cases word with
    | nil => rfl
    | cons a word => rfl
  | cons a rest ih =>
    have hlen : (f a :: word.map f).length = (a :: word).length := by simp
    rw [List.map_cons]
    unfold cutWords
    rw [hlen]
    split
    · rw [List.map_cons, ← ih []]
      rfl
    · exact ih (a :: word)

theorem cutWords_value {k : ℕ} (rest word : Text) (hword : word.length < k) :
    (cutWords k rest word).foldr (fun w n => n * 10 ^ k + Text.decimalValue w) 0 = Text.decimalValue (rest.reverse ++ word) := by
  induction rest generalizing word with
  | nil =>
    unfold cutWords
    by_cases hnil : word = []
    · rw [if_pos hnil, hnil]
      rfl
    · rw [if_neg hnil]
      simp
  | cons c rest ih =>
    unfold cutWords
    by_cases hfull : (c :: word).length = k
    · have hrest := ih [] (by simp only [List.length_nil]; omega)
      rw [List.append_nil] at hrest
      rw [if_pos hfull, List.foldr_cons, hrest, List.reverse_cons, List.append_assoc, List.singleton_append,
        Text.decimalValue_append, hfull]
    · have hlt : (c :: word).length < k := by
        simp only [List.length_cons] at hfull ⊢
        omega
      rw [if_neg hfull, ih (c :: word) hlt, List.reverse_cons, List.append_assoc, List.singleton_append]

end

theorem isSome_mapM {α β : Type} {f : α → Option β} {as : List α} : (as.mapM f).isSome ↔ ∀ a ∈ as, (f a).isSome := by
  induction as with
  | nil => simp
  | cons a as ih =>
    rw [List.mapM_cons, List.forall_mem_cons, ← ih]
    cases f a with
    | none => simp
    | some b =>
      cases as.mapM f with
      | none => simp
      | some bs => simp

theorem mapM_eq_map {α β : Type} {f : α → Option β} {g : α → β} {as : List α} (h : ∀ a ∈ as, f a = some (g a)) :
    as.mapM f = some (as.map g) := by
  induction as with
  | nil => rfl
  | cons a as ih =>
    rw [List.mapM_cons, h a List.mem_cons_self, ih fun b hb => h b (List.mem_cons_of_mem a hb)]
    rfl

end TronlinkCore
