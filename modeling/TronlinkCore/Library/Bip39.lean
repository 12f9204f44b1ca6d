import TronlinkCore.Library.Bits

/-!
The sentence of BIP 39 for an entropy, over a hash function and a list of `2 ^ 11`
words: the entropy is followed by one bit of its hash value for every 32 bits,
and every eleven bits are the place of a word in the list.
-/

namespace TronlinkCore.Bip39

open Windows

structure Valid (entropy : List UInt8) : Prop where
  whole : entropy.length % 4 = 0
  lower : 16 ≤ entropy.length
  upper : entropy.length ≤ 32

variable (hash : List UInt8 → List UInt8) (entropy : List UInt8)

def checked : List Bool := Bits.ofBytes entropy ++ (Bits.ofBytes (hash entropy)).take (entropy.length / 4)

def places : List ℕ := (List.range (entropy.length * 3 / 4)).map fun i => Bits.value (window (checked hash entropy) (11 * i) 11)

def sentence {α : Type} (words : List (List α)) (space : α) : List α :=
  [space].intercalate ((places hash entropy).map fun place => words.getD place [])

variable {hash entropy}

theorem checked_length (hash_length : ∀ message, (hash message).length = 32) (h : Valid entropy) :
    (checked hash entropy).length = 11 * (entropy.length * 3 / 4) := by
  have hwhole := h.whole
  have hupper := h.upper
  rw [checked, List.length_append, Bits.ofBytes_length, List.length_take, Bits.ofBytes_length, hash_length]
  omega

theorem place_lt {place : ℕ} (h : place ∈ places hash entropy) : place < 2 ^ 11 := by
  obtain ⟨i, -, rfl⟩ := List.mem_map.mp h
  have hlt := Bits.value_lt (window (checked hash entropy) (11 * i) 11)
  have hlen : (window (checked hash entropy) (11 * i) 11).length ≤ 11 := by
    rw [window, List.length_take]
    exact Nat.min_le_left _ _
  exact Nat.lt_of_lt_of_le hlt (Nat.pow_le_pow_right (by decide) hlen)

theorem windows_flatMap {xs : List Bool} {n k : ℕ} (h : xs.length = n * k) :
    (List.range k).flatMap (fun i => Bits.ofNat n (Bits.value (window xs (n * i) n))) = xs := by
  have hrun (j : ℕ) (hj : j ≤ k) : (List.range j).flatMap (fun i => Bits.ofNat n (Bits.value (window xs (n * i) n))) = xs.take (n * j) := by
    induction j with
    | zero => simp
    | succ j ih =>
      have hfits : n * j + n ≤ xs.length := by
        rw [h, ← Nat.mul_succ]
        exact Nat.mul_le_mul_left n hj
      have hbits := Bits.ofNat_value (window xs (n * j) n)
      rw [window_length hfits] at hbits
      rw [List.range_succ, List.flatMap_append, ih (by omega), List.flatMap_singleton, hbits, Nat.mul_succ, List.take_add, window]
  rw [hrun k (Nat.le_refl k), List.take_of_length_le h.le]

theorem places_flatMap (hash_length : ∀ message, (hash message).length = 32) (h : Valid entropy) :
    (places hash entropy).flatMap (Bits.ofNat 11) = checked hash entropy := by
  rw [places, List.flatMap_map]
  exact windows_flatMap (checked_length hash_length h)

end TronlinkCore.Bip39
