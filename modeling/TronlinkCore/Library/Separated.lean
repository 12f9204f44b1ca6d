import Mathlib.Data.List.Basic

/-!
Fields in a row, each ended by a separator that none of them contains.
-/

namespace TronlinkCore.Separated

variable {α : Type} {separator : α}

def ended (separator : α) (fields : List (List α)) : List α := fields.flatMap (· ++ [separator])

theorem ended_append (fields more : List (List α)) :
    ended separator (fields ++ more) = ended separator fields ++ ended separator more := List.flatMap_append

theorem ended_eq_intercalate (fields : List (List α)) :
    ended separator fields = [separator].intercalate (fields ++ [[]]) := by
  induction fields with
  | nil => rfl
  | cons field fields ih =>
    rw [ended, List.flatMap_cons]
    change field ++ [separator] ++ ended separator fields = _
    rw [ih]
    cases fields with
    | nil => simp [List.intercalate]
    | cons next fields => simp [List.intercalate]

theorem intercalate_ended {fields : List (List α)} (h : fields ≠ []) :
    [separator].intercalate fields ++ [separator] = ended separator fields := by
  induction fields with
  | nil => exact absurd rfl h
  | cons field fields ih =>
    cases fields with
    | nil => simp [List.intercalate, ended]
    | cons next fields =>
      have hrest := ih (List.cons_ne_nil _ _)
      rw [ended, List.flatMap_cons]
      change _ = field ++ [separator] ++ ended separator (next :: fields)
      rw [← hrest]
      simp [List.intercalate]

theorem ended_injective [DecidableEq α] {fields fields' : List (List α)} (h : ∀ field ∈ fields, separator ∉ field)
    (h' : ∀ field ∈ fields', separator ∉ field) (heq : ended separator fields = ended separator fields') :
    fields = fields' := by
  have split {fields : List (List α)} (h : ∀ field ∈ fields, separator ∉ field) :
      (ended separator fields).splitOn separator = fields ++ [[]] := by
    rw [ended_eq_intercalate]
    apply List.splitOn_intercalate
    · intro field hfield
      rcases List.mem_append.mp hfield with hfield | hfield
      · exact h field hfield
      · rw [List.mem_singleton.mp hfield]
        exact List.not_mem_nil
    · exact List.append_ne_nil_of_right_ne_nil _ (List.cons_ne_nil _ _)
  have hsplit := split h
  rw [heq, split h'] at hsplit
  exact (List.append_cancel_right hsplit).symm

theorem mem_of_mem_intercalate {fields : List (List α)} {a : α} (h : a ∈ [separator].intercalate fields) :
    a = separator ∨ ∃ field ∈ fields, a ∈ field := by
  have hended : a ∈ ended separator fields ∨ fields = [] := by
    by_cases hnil : fields = []
    · exact .inr hnil
    · rw [← intercalate_ended hnil]
      exact .inl (List.mem_append_left _ h)
  rcases hended with hended | rfl
  · obtain ⟨field, hfield, ha⟩ := List.mem_flatMap.mp hended
    rcases List.mem_append.mp ha with ha | ha
    · exact .inr ⟨field, hfield, ha⟩
    · exact .inl (List.mem_singleton.mp ha)
  · cases h

theorem intercalate_injective [DecidableEq α] {fields fields' : List (List α)} (hne : fields ≠ []) (hne' : fields' ≠ [])
    (h : ∀ field ∈ fields, separator ∉ field) (h' : ∀ field ∈ fields', separator ∉ field)
    (heq : [separator].intercalate fields = [separator].intercalate fields') : fields = fields' := by
  have hsplit := List.splitOn_intercalate separator h hne
  rw [heq, List.splitOn_intercalate separator h' hne'] at hsplit
  exact hsplit.symm

theorem count_ended [DecidableEq α] {fields : List (List α)} (h : ∀ field ∈ fields, separator ∉ field) :
    (ended separator fields).count separator = fields.length := by
  induction fields with
  | nil => rfl
  | cons field fields ih =>
    have hfield := List.count_eq_zero_of_not_mem (h field List.mem_cons_self)
    have hrest := ih fun field hfield => h field (List.mem_cons_of_mem _ hfield)
    rw [ended] at hrest
    rw [ended, List.flatMap_cons, List.count_append, List.count_append, hrest, hfield, List.count_singleton_self,
      List.length_cons, Nat.zero_add, Nat.add_comm]

theorem count_intercalate [DecidableEq α] {fields : List (List α)} (hne : fields ≠ []) (h : ∀ field ∈ fields, separator ∉ field) :
    ([separator].intercalate fields).count separator + 1 = fields.length := by
  have hended := count_ended h
  rwa [← intercalate_ended hne, List.count_append, List.count_singleton_self] at hended

end TronlinkCore.Separated
