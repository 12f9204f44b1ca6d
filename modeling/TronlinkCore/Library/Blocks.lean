import TronlinkCore.Library.Windows

/-!
A message that is taken in block by block: the whole blocks of a list, and what
a buffer that is filled in pieces of any length holds of it.
-/

namespace TronlinkCore.Blocks

open Windows

variable {α σ : Type} {n : ℕ}

/-- What does not fill a block at the end is left out. -/
def blocks (n : ℕ) (xs : List α) : List (List α) := (List.range (xs.length / n)).map fun i => window xs (n * i) n

theorem blocks_append {xs ys : List α} (hn : 0 < n) (hx : xs.length = n) : blocks n (xs ++ ys) = xs :: blocks n ys := by
  have hcount : (xs ++ ys).length / n = ys.length / n + 1 := by
    rw [List.length_append, hx, Nat.add_comm, Nat.add_div_right _ hn]
  rw [blocks, hcount, List.range_succ_eq_map, List.map_cons, List.map_map]
  congr 1
  · rw [window, Nat.mul_zero, List.drop_zero, ← hx, List.take_left]
  · apply List.map_congr_left
    intro i _
    have hstart : n * (i + 1) = xs.length + n * i := by rw [hx, Nat.mul_succ, Nat.add_comm]
    rw [Function.comp_apply, window, window, hstart, ← List.drop_drop, List.drop_left]

theorem blocks_of_lt {xs : List α} (h : xs.length < n) : blocks n xs = [] := by
  rw [blocks, Nat.div_eq_of_lt h]
  rfl

theorem blocks_flatten_append {bs : List (List α)} (ys : List α) (hn : 0 < n) (h : ∀ b ∈ bs, b.length = n) :
    blocks n (bs.flatten ++ ys) = bs ++ blocks n ys := by
  induction bs with
  | nil => rfl
  | cons b bs ih =>
    rw [List.flatten_cons, List.append_assoc, blocks_append hn (h b List.mem_cons_self),
      ih fun b' hb' => h b' (List.mem_cons_of_mem b hb'), List.cons_append]

theorem length_flatten {bs : List (List α)} (h : ∀ b ∈ bs, b.length = n) : bs.flatten.length = n * bs.length := by
  induction bs with
  | nil => rfl
  | cons b bs ih =>
    rw [List.flatten_cons, List.length_append, h b List.mem_cons_self, ih fun b' hb' => h b' (List.mem_cons_of_mem b hb'),
      List.length_cons, Nat.mul_succ, Nat.add_comm]

theorem flatMap_range_length {f : ℕ → List α} (h : ∀ i, (f i).length = n) (k : ℕ) : ((List.range k).flatMap f).length = n * k := by
  have hblocks : ∀ b ∈ (List.range k).map f, b.length = n := by
    intro b hb
    obtain ⟨i, -, rfl⟩ := List.mem_map.mp hb
    exact h i
  rw [List.flatMap_def, length_flatten hblocks, List.length_map, List.length_range]

theorem foldl_overwrite {f : ℕ → List α} (h : ∀ i, (f i).length = n) {xs : List α} {k : ℕ} (hk : ∀ i, i < k → n * i ≤ xs.length)
    (hall : xs.length ≤ n * k) :
    (List.range k).foldl (fun ys i => overwrite ys (n * i) ((f i).take (xs.length - n * i))) xs =
      ((List.range k).flatMap f).take xs.length := by
  have hrun (j : ℕ) (hj : j ≤ k) :
      (List.range j).foldl (fun ys i => overwrite ys (n * i) ((f i).take (xs.length - n * i))) xs =
        ((List.range j).flatMap f).take xs.length ++ xs.drop (n * j) := by
    induction j with
    | zero => simp
    | succ j ih =>
      have hlen := flatMap_range_length h j
      have hle := hk j hj
      have hnext := overwrite_next ((List.range j).flatMap f) ((f j).take (xs.length - n * j)) xs
        (by rw [hlen, List.length_take, h]; omega)
      rw [hlen] at hnext
      rw [List.range_succ, List.foldl_append, ih (by omega), List.take_of_length_le (by rw [hlen]; exact hle), List.foldl_cons,
        List.foldl_nil, hnext, List.flatMap_append, List.flatMap_singleton, List.take_append, hlen,
        List.take_of_length_le (show ((List.range j).flatMap f).length ≤ xs.length by rw [hlen]; exact hle), Nat.mul_succ]
      congr 1
      rw [List.length_take, h]
      rcases Nat.le_total n (xs.length - n * j) with hn | hn
      · rw [Nat.min_eq_right hn]
      · rw [List.drop_of_length_le (by omega), List.drop_of_length_le (by omega)]
  rw [hrun k (Nat.le_refl k), List.drop_of_length_le hall, List.append_nil]

theorem length_of_mem_blocks {xs b : List α} (h : b ∈ blocks n xs) : b.length = n := by
  obtain ⟨i, hi, rfl⟩ := List.mem_map.mp h
  apply window_length
  have hmul : n * (i + 1) ≤ n * (xs.length / n) := Nat.mul_le_mul_left n (List.mem_range.mp hi)
  have hdiv : n * (xs.length / n) ≤ xs.length := Nat.mul_div_le _ _
  rw [Nat.mul_succ] at hmul
  omega

variable (absorb : σ → List α → σ)

def absorbAll (n : ℕ) (start : σ) (xs : List α) : σ := (blocks n xs).foldl absorb start

theorem absorbAll_append {xs : List α} (start : σ) (ys : List α) (hn : 0 < n) (hx : xs.length = n) :
    absorbAll absorb n start (xs ++ ys) = absorbAll absorb n (absorb start xs) ys := by
  rw [absorbAll, blocks_append hn hx, List.foldl_cons, absorbAll]

theorem absorbAll_block {xs : List α} (start : σ) (hn : 0 < n) (hx : xs.length = n) :
    absorbAll absorb n start xs = absorb start xs := by
  have hnil : absorbAll absorb n (absorb start xs) [] = absorb start xs := by
    rw [absorbAll, blocks_of_lt (show ([] : List α).length < n from hn)]
    rfl
  have happend := absorbAll_append absorb start [] hn hx
  rwa [List.append_nil, hnil] at happend

/-- After the message, `state` has taken in its whole blocks, and the `pending` rest is not a block yet. -/
structure Buffers (n : ℕ) (start : σ) (message : List α) (state : σ) (pending : List α) : Prop where
  pending_lt : pending.length < n
  split : ∃ bs : List (List α), (∀ b ∈ bs, b.length = n) ∧ message = bs.flatten ++ pending ∧ state = bs.foldl absorb start

namespace Buffers

variable {absorb} {start state : σ} {message pending data : List α}

theorem nil (hn : 0 < n) : Buffers absorb n start [] start [] where
  pending_lt := hn
  split := ⟨[], List.forall_mem_nil _, rfl, rfl⟩

theorem short (h : Buffers absorb n start message state pending) (hd : pending.length + data.length < n) :
    Buffers absorb n start (message ++ data) state (pending ++ data) where
  pending_lt := by rwa [List.length_append]
  split := by
    obtain ⟨bs, hbs, rfl, hstate⟩ := h.split
    exact ⟨bs, hbs, List.append_assoc _ _ _, hstate⟩

theorem full (h : Buffers absorb n start message state pending) (hn : 0 < n) (hd : (pending ++ data).length = n) :
    Buffers absorb n start (message ++ data) (absorb state (pending ++ data)) [] where
  pending_lt := hn
  split := by
    obtain ⟨bs, hbs, rfl, rfl⟩ := h.split
    refine ⟨bs ++ [pending ++ data], ?_, ?_, ?_⟩
    · intro b hb
      rcases List.mem_append.mp hb with hb | hb
      · exact hbs b hb
      · rw [List.mem_singleton.mp hb, hd]
    · simp
    · simp

theorem run (h : Buffers absorb n start message state []) (hn : 0 < n) (k : ℕ) (hk : n * k ≤ data.length) :
    Buffers absorb n start (message ++ data.take (n * k))
      ((List.range k).foldl (fun s i => absorb s (window data (n * i) n)) state) [] := by
  induction k with
  | zero => simpa using h
  | succ k ih =>
    rw [Nat.mul_succ] at hk
    have hw : (window data (n * k) n).length = n := window_length hk
    have hstep : Buffers absorb n start (message ++ data.take (n * k) ++ window data (n * k) n) _ [] :=
      (ih (by omega)).full hn hw
    rw [List.range_succ, List.foldl_append, Nat.mul_succ, List.take_add, ← List.append_assoc]
    exact hstep

theorem length_mod (h : Buffers absorb n start message state pending) : message.length % n = pending.length := by
  obtain ⟨bs, hbs, rfl, -⟩ := h.split
  rw [List.length_append, length_flatten hbs, Nat.mul_add_mod, Nat.mod_eq_of_lt h.pending_lt]

theorem absorbAll_eq (h : Buffers absorb n start message state pending) (rest : List α) :
    absorbAll absorb n start (message ++ rest) = absorbAll absorb n state (pending ++ rest) := by
  obtain ⟨bs, hbs, rfl, rfl⟩ := h.split
  rw [absorbAll, List.append_assoc, blocks_flatten_append _ (by have := h.pending_lt; omega) hbs, List.foldl_append, absorbAll]

end Buffers

end TronlinkCore.Blocks
