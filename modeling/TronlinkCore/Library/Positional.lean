import Mathlib.Data.List.TakeWhile
import Mathlib.Data.Nat.Digits.Lemmas
import TronlinkCore.Library.BigEndian

/-!
Positional notation with the highest digit first. Zeros in front are no part of
the number; `rebase` keeps them as zeros of the other base.
-/

namespace TronlinkCore.Positional

def digits (b n : ℕ) : List ℕ := (Nat.digits b n).reverse

def value (b : ℕ) (ds : List ℕ) : ℕ := Nat.ofDigits b ds.reverse

def zeros (ds : List ℕ) : ℕ := (ds.takeWhile (· = 0)).length

def rebase (b c : ℕ) (ds : List ℕ) : List ℕ := List.replicate (zeros ds) 0 ++ digits c (value b ds)

theorem value_append (b : ℕ) (ds es : List ℕ) : value b (ds ++ es) = value b ds * b ^ es.length + value b es := by
  rw [value, List.reverse_append, Nat.ofDigits_append, List.length_reverse, value, value]
  ring

theorem value_cons (b d : ℕ) (ds : List ℕ) : value b (d :: ds) = d * b ^ ds.length + value b ds := by
  have h := value_append b [d] ds
  simpa [value] using h

theorem value_replicate_zero_append (b k : ℕ) (ds : List ℕ) : value b (List.replicate k 0 ++ ds) = value b ds := by
  rw [value, List.reverse_append, List.reverse_replicate, Nat.ofDigits_append_replicate_zero, value]

theorem value_digits (b n : ℕ) : value b (digits b n) = n := by
  rw [value, digits, List.reverse_reverse, Nat.ofDigits_digits]

theorem lt_of_mem_digits {b n d : ℕ} (hb : 1 < b) (h : d ∈ digits b n) : d < b :=
  Nat.digits_lt_base hb (List.mem_reverse.mp h)

theorem digits_head (b n : ℕ) : (digits b n).head? ≠ some 0 := by
  rw [digits, List.head?_reverse]
  intro h
  have hne : Nat.digits b n ≠ [] := by
    intro hnil
    rw [hnil] at h
    cases h
  have hn : n ≠ 0 := Nat.digits_ne_nil_iff_ne_zero.mp hne
  rw [List.getLast?_eq_some_getLast hne] at h
  exact Nat.getLast_digit_ne_zero b hn (Option.some.inj h)

theorem digits_value {b : ℕ} {ds : List ℕ} (hb : 1 < b) (hd : ∀ d ∈ ds, d < b) (hhead : ds.head? ≠ some 0) :
    digits b (value b ds) = ds := by
  rw [digits, value, Nat.digits_ofDigits b hb, List.reverse_reverse]
  · intro d hmem
    exact hd d (List.mem_reverse.mp hmem)
  · intro hne hlast
    apply hhead
    rw [List.getLast_reverse] at hlast
    rw [List.head?_eq_some_head (by simpa using hne), hlast]

theorem zeros_replicate_append (k : ℕ) {ds : List ℕ} (h : ds.head? ≠ some 0) :
    zeros (List.replicate k 0 ++ ds) = k := by
  rw [zeros, List.takeWhile_append_of_pos (by simp)]
  have hnil : ds.takeWhile (· = 0) = [] := by
    cases ds with
    | nil => rfl
    | cons d ds =>
      have hd : d ≠ 0 := fun hd => h (congrArg some hd)
      simp [hd]
  rw [hnil, List.append_nil, List.length_replicate]

theorem eq_replicate_append (ds : List ℕ) :
    ∃ es, ds = List.replicate (zeros ds) 0 ++ es ∧ es.head? ≠ some 0 := by
  refine ⟨ds.dropWhile (· = 0), ?_, ?_⟩
  · have hz : ds.takeWhile (· = 0) = List.replicate (zeros ds) 0 := by
      apply List.eq_replicate_of_mem
      intro d hd
      simpa using List.mem_takeWhile_imp hd
    rw [← hz, List.takeWhile_append_dropWhile]
  · intro h
    have hhead := List.head?_dropWhile_not (· = 0) ds
    rw [h] at hhead
    simp at hhead

theorem lt_of_mem_rebase {b c d : ℕ} {ds : List ℕ} (hc : 1 < c) (h : d ∈ rebase b c ds) : d < c := by
  rcases List.mem_append.mp h with h | h
  · rw [List.eq_of_mem_replicate h]
    omega
  · exact lt_of_mem_digits hc h

@[simp] theorem value_rebase (b c : ℕ) (ds : List ℕ) : value c (rebase b c ds) = value b ds := by
  rw [rebase, value_replicate_zero_append, value_digits]

@[simp] theorem zeros_rebase (b c : ℕ) (ds : List ℕ) : zeros (rebase b c ds) = zeros ds :=
  zeros_replicate_append _ (digits_head c _)

theorem rebase_rebase {b c : ℕ} {ds : List ℕ} (hb : 1 < b) (hd : ∀ d ∈ ds, d < b) : rebase c b (rebase b c ds) = ds := by
  rw [rebase, zeros_rebase, value_rebase]
  obtain ⟨es, hds, hes⟩ := eq_replicate_append ds
  have hvalue : value b ds = value b es := by
    rw [hds, value_replicate_zero_append]
  have hlt : ∀ e ∈ es, e < b := by
    intro e he
    apply hd
    rw [hds]
    exact List.mem_append_right _ he
  rw [hvalue, digits_value hb hlt hes]
  exact hds.symm

theorem digits_of_between {b k d n : ℕ} (hb : 1 < b) (hd : 0 < d) (hdb : d < b) (hlow : d * b ^ k ≤ n)
    (hhigh : n < (d + 1) * b ^ k) : (digits b n).length = k + 1 ∧ (digits b n).head? = some d := by
  have hsplit : n = d * b ^ k + (n - d * b ^ k) := by omega
  have hrest : n - d * b ^ k < b ^ k := by
    rw [Nat.add_mul, Nat.one_mul] at hhigh
    omega
  have hlen : (digits b (n - d * b ^ k)).length ≤ k := by
    rw [digits, List.length_reverse]
    exact (Nat.digits_length_le_iff hb _).mpr hrest
  -- The remainder is padded to full width, so that the number reads `d` and then its digits.
  let rest := List.replicate (k - (digits b (n - d * b ^ k)).length) 0 ++ digits b (n - d * b ^ k)
  have hwidth : rest.length = k := by
    simp only [rest, List.length_append, List.length_replicate]
    omega
  have hvalue : value b (d :: rest) = n := by
    rw [value_cons, hwidth, value_replicate_zero_append, value_digits]
    exact hsplit.symm
  have hdigits : digits b n = d :: rest := by
    rw [← hvalue]
    apply digits_value hb
    · intro e he
      obtain rfl | he := List.mem_cons.mp he
      · exact hdb
      · rcases List.mem_append.mp he with he | he
        · rw [List.eq_of_mem_replicate he]
          omega
        · exact lt_of_mem_digits hb he
    · intro h0
      cases h0
      exact absurd hd (lt_irrefl 0)
  rw [hdigits]
  exact ⟨by rw [List.length_cons, hwidth], rfl⟩

theorem ofBytes_eq_value (bs : List UInt8) : BigEndian.ofBytes bs = value 256 (bs.map UInt8.toNat) := by
  induction bs with
  | nil => rfl
  | cons b bs ih => rw [BigEndian.ofBytes_cons, ih, List.map_cons, value_cons, List.length_map]

theorem digits_length_eq_byteWidth (n : ℕ) : (digits 256 n).length = BigEndian.byteWidth n := by
  apply le_antisymm
  · rw [digits, List.length_reverse, Nat.digits_length_le_iff (by decide)]
    exact BigEndian.byteWidth_le_iff.mp le_rfl
  · rw [BigEndian.byteWidth_le_iff]
    have h := Nat.lt_base_pow_length_digits (b := 256) (m := n) (by decide)
    rwa [digits, List.length_reverse]

theorem serialize_eq_digits (n : ℕ) : BigEndian.serialize n = (digits 256 n).map UInt8.ofNat := by
  have hbytes : ((digits 256 n).map UInt8.ofNat).map UInt8.toNat = digits 256 n := by
    rw [List.map_map]
    conv_rhs => rw [← List.map_id (digits 256 n)]
    apply List.map_congr_left
    intro d hd
    exact UInt8.toNat_ofNat_of_lt' (lt_of_mem_digits (by decide) hd)
  have hvalue : BigEndian.ofBytes ((digits 256 n).map UInt8.ofNat) = n := by
    rw [ofBytes_eq_value, hbytes, value_digits]
  have hlen : ((digits 256 n).map UInt8.ofNat).length = BigEndian.byteWidth n := by
    rw [List.length_map, digits_length_eq_byteWidth]
  rw [BigEndian.serialize, ← BigEndian.toBytes_of_length hlen, hvalue]

end TronlinkCore.Positional
