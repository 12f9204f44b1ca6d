import Mathlib.Data.List.Basic

/-!
Stretches of a list: reading one, and writing one in place.
-/

namespace TronlinkCore.Windows

variable {α : Type}

def window (xs : List α) (i n : ℕ) : List α := (xs.drop i).take n

/-- What does not fit in is cut off. -/
def overwrite (xs : List α) (i : ℕ) (ys : List α) : List α :=
  (xs.take i ++ ys ++ xs.drop (i + ys.length)).take xs.length

theorem window_length {xs : List α} {i n : ℕ} (h : i + n ≤ xs.length) : (window xs i n).length = n := by
  rw [window, List.length_take, List.length_drop]
  omega

theorem getElem?_window (xs : List α) (i n k : ℕ) : (window xs i n)[k]? = if k < n then xs[i + k]? else none := by
  rw [window, List.getElem?_take, List.getElem?_drop]

@[simp] theorem overwrite_length (xs : List α) (i : ℕ) (ys : List α) : (overwrite xs i ys).length = xs.length := by
  simp only [overwrite, List.length_take, List.length_append, List.length_drop]
  omega

theorem getElem?_overwrite {xs ys : List α} {i : ℕ} (h : i + ys.length ≤ xs.length) (k : ℕ) :
    (overwrite xs i ys)[k]? = if i ≤ k ∧ k < i + ys.length then ys[k - i]? else xs[k]? := by
  have hi : (xs.take i).length = i := List.length_take_of_le (by omega)
  rw [overwrite, List.getElem?_take]
  rcases Nat.lt_or_ge k i with hk | hk
  · rw [if_pos (by omega), if_neg (by omega), List.append_assoc, List.getElem?_append_left (by omega),
      List.getElem?_take, if_pos hk]
  · rcases Nat.lt_or_ge k (i + ys.length) with hky | hky
    · rw [if_pos (by omega), if_pos ⟨hk, hky⟩, List.append_assoc, List.getElem?_append_right (by omega),
        List.getElem?_append_left (by omega), hi]
    · have hsplit : (xs.take i ++ ys).length = i + ys.length := by rw [List.length_append, hi]
      rw [if_neg (by omega : ¬ (i ≤ k ∧ k < i + ys.length)), List.getElem?_append_right (by omega), hsplit,
        List.getElem?_drop, Nat.add_sub_cancel' hky]
      rcases Nat.lt_or_ge k xs.length with hx | hx
      · rw [if_pos hx]
      · rw [if_neg (by omega), List.getElem?_eq_none hx]

@[simp] theorem window_zero (xs : List α) (i : ℕ) : window xs i 0 = [] := List.take_zero

theorem window_add (xs : List α) (i m n : ℕ) : window xs i (m + n) = window xs i m ++ window xs (i + m) n := by
  rw [window, window, window, List.take_add, List.drop_drop]

theorem window_take {xs : List α} {i n m : ℕ} (h : i + n ≤ m) : window (xs.take m) i n = window xs i n := by
  apply List.ext_getElem?
  intro k
  rw [getElem?_window, getElem?_window]
  by_cases hk : k < n
  · rw [if_pos hk, if_pos hk, List.getElem?_take_of_lt (by omega)]
  · rw [if_neg hk, if_neg hk]

theorem window_append_left {xs : List α} {i n : ℕ} (ys : List α) (h : i + n ≤ xs.length) :
    window (xs ++ ys) i n = window xs i n := by
  rw [window, window, List.drop_append_of_le_length (by omega), List.take_append_of_le_length]
  rw [List.length_drop]
  omega

theorem window_append_right {xs : List α} {i : ℕ} (ys : List α) (n : ℕ) (h : xs.length ≤ i) :
    window (xs ++ ys) i n = window ys (i - xs.length) n := by
  obtain ⟨k, rfl⟩ := Nat.exists_eq_add_of_le h
  rw [window, window, ← List.drop_drop, List.drop_left, Nat.add_sub_cancel_left]

theorem window_window {xs : List α} {i n j m : ℕ} (h : j + m ≤ n) : window (window xs i n) j m = window xs (i + j) m := by
  apply List.ext_getElem?
  intro k
  simp only [getElem?_window]
  rcases Nat.lt_or_ge k m with hk | hk
  · rw [if_pos hk, if_pos hk, if_pos (by omega), Nat.add_assoc]
  · rw [if_neg (by omega), if_neg (by omega)]

theorem window_overwrite_self {xs ys : List α} {i : ℕ} (h : i + ys.length ≤ xs.length) :
    window (overwrite xs i ys) i ys.length = ys := by
  apply List.ext_getElem?
  intro k
  rw [getElem?_window, getElem?_overwrite h]
  rcases Nat.lt_or_ge k ys.length with hk | hk
  · rw [if_pos hk, if_pos (by omega), Nat.add_sub_cancel_left]
  · rw [if_neg (by omega), List.getElem?_eq_none hk]

theorem window_overwrite_of_apart {xs ys : List α} {i j n : ℕ} (h : i + ys.length ≤ xs.length)
    (ha : j + n ≤ i ∨ i + ys.length ≤ j) : window (overwrite xs i ys) j n = window xs j n := by
  apply List.ext_getElem?
  intro k
  rw [getElem?_window, getElem?_window, getElem?_overwrite h]
  rcases Nat.lt_or_ge k n with hk | hk
  · rw [if_pos hk, if_pos hk, if_neg (by omega)]
  · rw [if_neg (by omega), if_neg (by omega)]

@[simp] theorem overwrite_nil (xs : List α) (i : ℕ) : overwrite xs i [] = xs := by
  rw [overwrite, List.append_nil, List.length_nil, Nat.add_zero, List.take_append_drop, List.take_length]

theorem overwrite_append {xs ys zs : List α} {i : ℕ} (h : i + ys.length + zs.length ≤ xs.length) :
    overwrite (overwrite xs i ys) (i + ys.length) zs = overwrite xs i (ys ++ zs) := by
  have hy : i + ys.length ≤ xs.length := by omega
  have hz : i + ys.length + zs.length ≤ (overwrite xs i ys).length := by rwa [overwrite_length]
  have hyz : i + (ys ++ zs).length ≤ xs.length := by rw [List.length_append]; omega
  apply List.ext_getElem?
  intro k
  rw [getElem?_overwrite hz, getElem?_overwrite hy, getElem?_overwrite hyz, List.length_append]
  rcases Nat.lt_or_ge k (i + ys.length) with hk | hk
  · rw [if_neg (by omega)]
    rcases Nat.lt_or_ge k i with hi | hi
    · rw [if_neg (by omega), if_neg (by omega)]
    · rw [if_pos ⟨hi, hk⟩, if_pos (by omega), List.getElem?_append_left (by omega)]
  · rcases Nat.lt_or_ge k (i + ys.length + zs.length) with hz | hz
    · rw [if_pos ⟨hk, hz⟩, if_pos (by omega), List.getElem?_append_right (by omega), Nat.sub_add_eq]
    · rw [if_neg (by omega), if_neg (by omega), if_neg (by omega)]

theorem overwrite_next (xs ys zs : List α) (h : xs.length + ys.length ≤ zs.length) :
    overwrite (xs ++ zs.drop xs.length) xs.length ys = xs ++ ys ++ zs.drop (xs.length + ys.length) := by
  have hlen : (xs ++ zs.drop xs.length).length = zs.length := by
    rw [List.length_append, List.length_drop]
    omega
  rw [overwrite, hlen, List.take_left, ← List.drop_drop, List.drop_left, List.drop_drop, List.take_of_length_le]
  rw [List.length_append, List.length_append, List.length_drop]
  omega

theorem take_overwrite {xs ys : List α} {i : ℕ} (h : i + ys.length ≤ xs.length) :
    (overwrite xs i ys).take (i + ys.length) = xs.take i ++ ys := by
  have hlen : (xs.take i ++ ys).length = i + ys.length := by
    rw [List.length_append, List.length_take_of_le (by omega)]
  rw [overwrite, List.take_take, Nat.min_eq_left h, ← hlen, List.take_left]

end TronlinkCore.Windows
