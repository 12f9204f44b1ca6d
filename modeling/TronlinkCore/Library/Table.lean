import Mathlib.Data.List.Pairwise

/-!
A table with a unique key that may be missing: a row without a key is never
found by a key and never clashes with another row. Rows keep their positions
except when rows before them are deleted.
-/

namespace TronlinkCore

structure Table {ρ κ : Type} (keyOf : ρ → Option κ) where
  rows : List ρ
  unique : rows.Pairwise fun row later => ∀ key, keyOf row = some key → keyOf later ≠ some key

namespace Table

variable {ρ κ : Type} {keyOf : ρ → Option κ}

def empty : Table keyOf := ⟨[], .nil⟩

def delete (t : Table keyOf) (p : ρ → Bool) : Table keyOf :=
  ⟨t.rows.filter fun row => !p row, t.unique.filter _⟩

variable [DecidableEq κ]

def find? (t : Table keyOf) (key : κ) : Option ρ := t.rows.find? fun row => keyOf row = some key

/-- No row is added where one with the same key is stored. -/
def insert? (t : Table keyOf) (row : ρ) : Option (Table keyOf) :=
  if clash : ∃ key ∈ keyOf row, ∃ stored ∈ t.rows, keyOf stored = some key then none
  else some ⟨t.rows ++ [row], List.pairwise_append.mpr ⟨t.unique, List.pairwise_singleton _ _, by
    intro stored hs later hl key hk hlk
    cases List.mem_singleton.mp hl
    exact clash ⟨key, hlk, stored, hs, hk⟩⟩⟩

def update (t : Table keyOf) (key : κ) (f : ρ → ρ) (keeps : ∀ row, keyOf (f row) = keyOf row) : Table keyOf :=
  ⟨t.rows.map fun row => if keyOf row = some key then f row else row, by
    have hkey (row : ρ) : keyOf (if keyOf row = some key then f row else row) = keyOf row := by
      split
      · exact keeps row
      · rfl
    rw [List.pairwise_map]
    refine t.unique.imp ?_
    intro row later h key' hrow
    rw [hkey] at hrow ⊢
    exact h key' hrow⟩

theorem find?_eq_some {t : Table keyOf} {key : κ} {row : ρ} :
    t.find? key = some row ↔ row ∈ t.rows ∧ keyOf row = some key := by
  obtain ⟨rows, unique⟩ := t
  change rows.find? (fun row => keyOf row = some key) = some row ↔ row ∈ rows ∧ keyOf row = some key
  induction rows with
  | nil => simp
  | cons first rows ih =>
    have hrest := List.pairwise_cons.mp unique
    by_cases hfirst : keyOf first = some key
    · rw [List.find?_cons_of_pos (by simpa using hfirst)]
      constructor
      · intro h
        cases h
        exact ⟨List.mem_cons_self, hfirst⟩
      · rintro ⟨hm, hk⟩
        obtain rfl | hm := List.mem_cons.mp hm
        · rfl
        · exact absurd hk (hrest.1 row hm key hfirst)
    · rw [List.find?_cons_of_neg (by simpa using hfirst), ih hrest.2, List.mem_cons]
      constructor
      · rintro ⟨hm, hk⟩
        exact ⟨.inr hm, hk⟩
      · rintro ⟨rfl | hm, hk⟩
        · exact absurd hk hfirst
        · exact ⟨hm, hk⟩

theorem find?_eq_none {t : Table keyOf} {key : κ} :
    t.find? key = none ↔ ∀ row ∈ t.rows, keyOf row ≠ some key := by
  rw [find?, List.find?_eq_none]
  simp

theorem find?_congr {t t' : Table keyOf} {key key' : κ}
    (h : ∀ row, row ∈ t.rows ∧ keyOf row = some key ↔ row ∈ t'.rows ∧ keyOf row = some key') :
    t.find? key = t'.find? key' := by
  ext row
  rw [find?_eq_some, find?_eq_some, h]

@[simp] theorem find?_empty (key : κ) : (empty : Table keyOf).find? key = none := rfl

theorem insert?_eq_some {t t' : Table keyOf} {row : ρ} (h : t.insert? row = some t') :
    t'.rows = t.rows ++ [row] ∧ ∀ key, keyOf row = some key → t.find? key = none := by
  unfold insert? at h
  split at h
  · cases h
  · rename_i clash
    cases h
    refine ⟨rfl, ?_⟩
    intro key hk
    rw [find?_eq_none]
    intro stored hs hstored
    exact clash ⟨key, hk, stored, hs, hstored⟩

theorem insert?_of_absent {t : Table keyOf} {row : ρ} (h : ∀ key, keyOf row = some key → t.find? key = none) :
    ∃ t', t.insert? row = some t' := by
  refine ⟨_, dif_neg ?_⟩
  rintro ⟨key, hk, stored, hs, hstored⟩
  exact find?_eq_none.mp (h key hk) stored hs hstored

theorem find?_insert {t t' : Table keyOf} {row : ρ} (h : t.insert? row = some t') (key : κ) :
    t'.find? key = if keyOf row = some key then some row else t.find? key := by
  obtain ⟨hrows, hnone⟩ := insert?_eq_some h
  split
  · rename_i hk
    rw [find?_eq_some, hrows]
    exact ⟨List.mem_append_right _ List.mem_cons_self, hk⟩
  · rename_i hk
    apply find?_congr
    intro other
    rw [hrows, List.mem_append, List.mem_singleton]
    constructor
    · rintro ⟨hm | rfl, ho⟩
      · exact ⟨hm, ho⟩
      · exact absurd ho hk
    · rintro ⟨hm, ho⟩
      exact ⟨.inl hm, ho⟩

theorem find?_update_self {t : Table keyOf} {key : κ} {f : ρ → ρ} {keeps : ∀ row, keyOf (f row) = keyOf row} :
    (t.update key f keeps).find? key = (t.find? key).map f := by
  ext row
  rw [find?_eq_some, Option.map_eq_some_iff, update]
  simp only [List.mem_map]
  constructor
  · rintro ⟨⟨old, hm, rfl⟩, hk⟩
    split at hk
    · rename_i hold
      exact ⟨old, find?_eq_some.mpr ⟨hm, hold⟩, (if_pos hold).symm⟩
    · rename_i hold
      exact absurd hk hold
  · rintro ⟨old, ho, rfl⟩
    obtain ⟨hm, hold⟩ := find?_eq_some.mp ho
    exact ⟨⟨old, hm, if_pos hold⟩, (keeps old).trans hold⟩

theorem find?_update_of_ne {t : Table keyOf} {key other : κ} {f : ρ → ρ}
    {keeps : ∀ row, keyOf (f row) = keyOf row} (h : other ≠ key) :
    (t.update key f keeps).find? other = t.find? other := by
  have hne (row : ρ) (hk : keyOf row = some other) : keyOf row ≠ some key := by
    intro hrow
    exact h (Option.some.inj (hk.symm.trans hrow))
  apply find?_congr
  intro row
  rw [update]
  simp only [List.mem_map]
  constructor
  · rintro ⟨⟨old, hm, rfl⟩, hk⟩
    split at hk
    · rename_i hold
      exact absurd hold (hne old ((keeps old).symm.trans hk))
    · rename_i hold
      rw [if_neg hold]
      exact ⟨hm, hk⟩
  · rintro ⟨hm, hk⟩
    exact ⟨⟨row, hm, if_neg (hne row hk)⟩, hk⟩

theorem update_eq_self {t : Table keyOf} {key : κ} {f : ρ → ρ} {keeps : ∀ row, keyOf (f row) = keyOf row}
    (h : ∀ row ∈ t.rows, keyOf row = some key → f row = row) : t.update key f keeps = t := by
  obtain ⟨rows, unique⟩ := t
  simp only [update, mk.injEq]
  have hid : ∀ row ∈ rows, (if keyOf row = some key then f row else row) = id row := by
    intro row hrow
    split
    · exact h row hrow ‹_›
    · rfl
  rw [List.map_congr_left hid, List.map_id]

theorem find?_delete {t : Table keyOf} {p : ρ → Bool} {key : κ} :
    (t.delete p).find? key = (t.find? key).filter fun row => !p row := by
  ext row
  rw [find?_eq_some, Option.filter_eq_some_iff, find?_eq_some, delete, List.mem_filter,
    and_right_comm]

end Table

end TronlinkCore
