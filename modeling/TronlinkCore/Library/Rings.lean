import Mathlib.Data.List.Basic

/-!
A ring of cells in which the next value replaces the oldest one. It stands for
the list of the last values, the newest one first.
-/

namespace TronlinkCore

structure Ring (α : Type) where
  cells : List α
  count : ℕ
  next : ℕ
  deriving DecidableEq

namespace Ring

variable {α : Type} {capacity : ℕ} {ring : Ring α} {recent : List α}

def push (ring : Ring α) (x : α) : Ring α where
  cells := ring.cells.set ring.next x
  count := if ring.count < ring.cells.length then ring.count + 1 else ring.count
  next := (ring.next + 1) % ring.cells.length

structure Holds (capacity : ℕ) (ring : Ring α) (recent : List α) : Prop where
  cells : ring.cells.length = capacity
  next : ring.next < capacity
  count : ring.count = ring.next ∨ ring.count = capacity
  recent : recent = (ring.cells.take ring.next).reverse ++ ((ring.cells.take ring.count).drop ring.next).reverse

theorem holds_nil (h : 0 < capacity) (x : α) : Holds capacity ⟨List.replicate capacity x, 0, 0⟩ [] :=
  ⟨List.length_replicate, h, .inl rfl, by rw [List.take_zero, List.drop_nil, List.reverse_nil, List.append_nil]⟩

theorem Holds.mem_iff (h : Holds capacity ring recent) (x : α) : x ∈ ring.cells.take ring.count ↔ x ∈ recent := by
  have hnext := h.next
  have hle : ring.next ≤ ring.count := by
    rcases h.count with hcount | hcount <;> omega
  have htake : ring.cells.take ring.next = (ring.cells.take ring.count).take ring.next := by
    rw [List.take_take, Nat.min_eq_left hle]
  rw [h.recent, List.mem_append, List.mem_reverse, List.mem_reverse, htake, ← List.mem_append, List.take_append_drop]

theorem Holds.push (h : Holds capacity ring recent) (x : α) : Holds capacity (ring.push x) ((x :: recent).take capacity) := by
  have hcells := h.cells
  have hnext := h.next
  have hset : (ring.cells.set ring.next x).take (ring.next + 1) = ring.cells.take ring.next ++ [x] := by
    rw [List.take_add_one, List.take_set_of_le (Nat.le_refl _), List.getElem?_set_self (by omega)]
    rfl
  have hlen : (ring.cells.take ring.next).reverse.length = ring.next := by
    rw [List.length_reverse, List.length_take_of_le (by omega)]
  have hlast : (x :: recent).take capacity = x :: (ring.cells.take ring.next).reverse ++
      (((ring.cells.take ring.count).drop ring.next).reverse.take (capacity - (ring.next + 1))) := by
    rw [h.recent, ← List.cons_append, List.take_append, List.length_cons, hlen, List.take_of_length_le]
    rw [List.length_cons, hlen]
    exact hnext
  rw [hlast]
  by_cases hwrap : ring.next + 1 = capacity
  · have hzero : (ring.next + 1) % ring.cells.length = 0 := by rw [hcells, hwrap, Nat.mod_self]
    have hfull : (if ring.count < ring.cells.length then ring.count + 1 else ring.count) = capacity := by
      rcases h.count with hcount | hcount
      · rw [if_pos (by omega)]
        omega
      · rw [if_neg (by omega)]
        exact hcount
    refine ⟨?_, ?_, ?_, ?_⟩
    · rw [Ring.push, List.length_set, hcells]
    · rw [Ring.push, hzero]
      exact Nat.zero_lt_of_lt hnext
    · rw [Ring.push, hfull]
      exact .inr rfl
    · rw [Ring.push, hzero, hfull, ← hwrap, hset, Nat.sub_self, List.take_zero, List.take_zero, List.drop_zero, List.append_nil,
        List.reverse_append]
      rfl
  · have hmod : (ring.next + 1) % ring.cells.length = ring.next + 1 := by
      rw [hcells, Nat.mod_eq_of_lt (by omega)]
    have hrest : ((ring.cells.take ring.count).drop ring.next).reverse.take (capacity - (ring.next + 1)) =
        (((ring.cells.set ring.next x).take (if ring.count < ring.cells.length then ring.count + 1 else ring.count)).drop
          (ring.next + 1)).reverse := by
      rcases h.count with hcount | hcount
      · rw [if_pos (by omega), hcount, List.drop_take_self, List.reverse_nil, List.take_nil, List.drop_take_self, List.reverse_nil]
      · have hset : (ring.cells.set ring.next x).length = capacity := by rw [List.length_set, hcells]
        rw [if_neg (by omega), hcount, ← hcells, List.take_length, hcells, ← hset, List.take_length, hset,
          List.drop_set_of_lt (Nat.lt_succ_self _), List.take_reverse, List.length_drop, List.drop_drop]
        congr 2
        omega
    refine ⟨?_, ?_, ?_, ?_⟩
    · rw [Ring.push, List.length_set, hcells]
    · rw [Ring.push, hmod]
      exact Nat.lt_of_le_of_ne hnext hwrap
    · rw [Ring.push, hmod]
      rcases h.count with hcount | hcount
      · rw [if_pos (by omega), hcount]
        exact .inl rfl
      · rw [if_neg (by omega), hcount]
        exact .inr rfl
    · rw [hrest, Ring.push, hmod, hset, List.reverse_append]
      rfl

end Ring

end TronlinkCore
