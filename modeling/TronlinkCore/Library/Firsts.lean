import TronlinkCore.Library.Outcome
import Mathlib.Data.Finset.Insert

/-!
The elements of a list that are the first with their key, and the removal of all
others by their positions.
-/

namespace TronlinkCore

variable {α κ : Type} [DecidableEq κ]

def firsts (key : α → κ) : Finset κ → List α → List α
  | _, [] => []
  | seen, a :: as => if key a ∈ seen then firsts key seen as else a :: firsts key (insert (key a) seen) as

def repeats (key : α → κ) : Finset κ → ℕ → List α → List ℕ
  | _, _, [] => []
  | seen, index, a :: as =>
    if key a ∈ seen then index :: repeats key seen (index + 1) as
    else repeats key (insert (key a) seen) (index + 1) as

def removeEach : List ℕ → List α → Outcome (List α)
  | [], as => .ok as
  | index :: indexes, as => do
    let as ← removeEach indexes as
    Outcome.check (index < as.length)
    .ok (as.eraseIdx index)

variable (key : α → κ)

theorem firsts_sublist (seen : Finset κ) (as : List α) : (firsts key seen as).Sublist as := by
  induction as generalizing seen with
  | nil => exact List.Sublist.slnil
  | cons a as ih =>
    rw [firsts]
    split
    · exact (ih seen).cons a
    · exact (ih _).cons_cons a

theorem mem_map_firsts (seen : Finset κ) (as : List α) (k : κ) :
    k ∈ (firsts key seen as).map key ↔ k ∈ as.map key ∧ k ∉ seen := by
  induction as generalizing seen with
  | nil => simp [firsts]
  | cons a as ih =>
    rw [firsts]
    split
    · rename_i ha
      rw [ih, List.map_cons, List.mem_cons]
      constructor
      · exact fun ⟨hk, hn⟩ => ⟨.inr hk, hn⟩
      · rintro ⟨rfl | hk, hn⟩
        · exact absurd ha hn
        · exact ⟨hk, hn⟩
    · rename_i ha
      rw [List.map_cons, List.mem_cons, ih, List.map_cons, List.mem_cons, Finset.mem_insert]
      by_cases hka : k = key a
      · subst hka
        simp [ha]
      · simp [hka]

theorem nodup_map_firsts (seen : Finset κ) (as : List α) : ((firsts key seen as).map key).Nodup := by
  induction as generalizing seen with
  | nil => exact List.nodup_nil
  | cons a as ih =>
    rw [firsts]
    split
    · exact ih seen
    · rw [List.map_cons, List.nodup_cons, mem_map_firsts]
      exact ⟨fun h => h.2 (Finset.mem_insert_self _ _), ih _⟩

theorem length_firsts_add_repeats (seen : Finset κ) (index : ℕ) (as : List α) :
    (firsts key seen as).length + (repeats key seen index as).length = as.length := by
  induction as generalizing seen index with
  | nil => rfl
  | cons a as ih =>
    rw [firsts, repeats]
    split
    · rw [List.length_cons, List.length_cons, ← ih seen (index + 1)]
      omega
    · rw [List.length_cons, List.length_cons, ← ih (insert (key a) seen) (index + 1)]
      omega

theorem firsts_of_nodup {seen : Finset κ} {as : List α} (h : (as.map key).Nodup) (hn : ∀ a ∈ as, key a ∉ seen) :
    firsts key seen as = as := by
  apply (firsts_sublist key seen as).eq_of_length_le
  induction as generalizing seen with
  | nil => exact Nat.le_refl _
  | cons a as ih =>
    rw [List.map_cons, List.nodup_cons] at h
    rw [firsts, if_neg (hn a List.mem_cons_self), List.length_cons, List.length_cons]
    apply Nat.succ_le_succ
    apply ih h.2
    intro b hb
    rw [Finset.mem_insert]
    rintro (hba | hbs)
    · exact h.1 (hba ▸ List.mem_map_of_mem hb)
    · exact hn b (List.mem_cons_of_mem a hb) hbs

theorem removeEach_repeats (seen : Finset κ) (before as : List α) :
    removeEach (repeats key seen before.length as) (before ++ as) = .ok (before ++ firsts key seen as) := by
  induction as generalizing seen before with
  | nil => rfl
  | cons a as ih =>
    have hrest := fun seen => ih seen (before ++ [a])
    simp only [List.length_append, List.length_singleton, List.append_assoc, List.singleton_append] at hrest
    rw [firsts, repeats]
    split
    · rw [removeEach, hrest, Outcome.ok_bind, Outcome.check_true, Outcome.ok_bind,
        List.eraseIdx_append_of_length_le (Nat.le_refl _), Nat.sub_self, List.eraseIdx_zero, List.tail_cons]
      rw [List.length_append, List.length_cons]
      omega
    · exact hrest _

end TronlinkCore
