import Mathlib

/-!
Natural numbers as lists of limbs, the lowest first. A limb has `w` bits and
lies in a word of `m` bits, which leaves room for sums of limbs before their
carries are passed on.
-/

namespace TronlinkCore.Limbs

theorem map_zip_fst {α β γ : Type} (f : α → γ) {xs : List α} {ys : List β} (h : xs.length = ys.length) :
    (xs.zip ys).map (fun p => f p.1) = xs.map f := by
  have hfst := List.map_fst_zip h.le
  conv_rhs => rw [← hfst, List.map_map]
  rfl

theorem map_zip_snd {α β γ : Type} (f : β → γ) {xs : List α} {ys : List β} (h : xs.length = ys.length) :
    (xs.zip ys).map (fun p => f p.2) = ys.map f := by
  have hsnd := List.map_snd_zip h.ge
  conv_rhs => rw [← hsnd, List.map_map]
  rfl

section

variable {ι : Type} (b : ℕ)

theorem ofDigits_map_add (l : List ι) (f g : ι → ℕ) :
    Nat.ofDigits b (l.map fun i => f i + g i) = Nat.ofDigits b (l.map f) + Nat.ofDigits b (l.map g) := by
  induction l with
  | nil => rfl
  | cons i l ih =>
    simp only [List.map_cons, Nat.ofDigits_cons, ih]
    ring

theorem ofDigits_map_mul (l : List ι) (c : ℕ) (f : ι → ℕ) :
    Nat.ofDigits b (l.map fun i => c * f i) = c * Nat.ofDigits b (l.map f) := by
  induction l with
  | nil => simp
  | cons i l ih =>
    simp only [List.map_cons, Nat.ofDigits_cons, ih]
    ring

theorem ofDigits_map_const (l : List ι) (c : ℕ) :
    b * Nat.ofDigits b (l.map fun _ => c) + c = Nat.ofDigits b (l.map fun _ => c) + c * b ^ l.length := by
  induction l with
  | nil => simp
  | cons i l ih =>
    simp only [List.map_cons, Nat.ofDigits_cons, List.length_cons, pow_succ']
    linear_combination b * ih

end

variable {m : ℕ} (w : ℕ)

def value (xs : List (BitVec m)) : ℕ := Nat.ofDigits (2 ^ w) (xs.map BitVec.toNat)

def Normalized (xs : List (BitVec m)) : Prop := ∀ x ∈ xs, x.toNat < 2 ^ w

@[simp] theorem value_nil : value w ([] : List (BitVec m)) = 0 := rfl

@[simp] theorem value_cons (x : BitVec m) (xs : List (BitVec m)) : value w (x :: xs) = x.toNat + 2 ^ w * value w xs :=
  Nat.ofDigits_cons

theorem value_append (xs ys : List (BitVec m)) : value w (xs ++ ys) = value w xs + (2 ^ w) ^ xs.length * value w ys := by
  rw [value, List.map_append, Nat.ofDigits_append, List.length_map]
  rfl

variable {w}

theorem Normalized.nil : Normalized w ([] : List (BitVec m)) := fun _ h => absurd h List.not_mem_nil

@[simp] theorem normalized_cons {x : BitVec m} {xs : List (BitVec m)} : Normalized w (x :: xs) ↔ x.toNat < 2 ^ w ∧ Normalized w xs :=
  List.forall_mem_cons

theorem normalized_append {xs ys : List (BitVec m)} : Normalized w (xs ++ ys) ↔ Normalized w xs ∧ Normalized w ys := List.forall_mem_append

theorem normalized_full (xs : List (BitVec m)) : Normalized m xs := fun x _ => x.isLt

theorem Normalized.value_lt {xs : List (BitVec m)} (h : Normalized w xs) : value w xs < (2 ^ w) ^ xs.length := by
  induction xs with
  | nil => simp
  | cons x xs ih =>
    obtain ⟨hx, hxs⟩ := normalized_cons.mp h
    have htail := ih hxs
    rw [value_cons, List.length_cons, pow_succ']
    calc x.toNat + 2 ^ w * value w xs < 2 ^ w * (value w xs + 1) := by rw [Nat.mul_add, Nat.mul_one]; omega
      _ ≤ 2 ^ w * (2 ^ w) ^ xs.length := Nat.mul_le_mul_left _ htail

theorem value_mul_le (xs : List (BitVec m)) : value w xs * (2 ^ w - 1) + 2 ^ m ≤ 2 ^ m * (2 ^ w) ^ xs.length := by
  obtain ⟨b, hb⟩ : ∃ b, 2 ^ w = b + 1 := ⟨2 ^ w - 1, (Nat.succ_pred_eq_of_pos (Nat.two_pow_pos w)).symm⟩
  rw [hb, Nat.add_sub_cancel]
  induction xs with
  | nil => simp
  | cons x xs ih =>
    have hx : x.toNat * b ≤ 2 ^ m * b := Nat.mul_le_mul_right b x.isLt.le
    rw [value_cons, hb, List.length_cons, pow_succ']
    calc (x.toNat + (b + 1) * value w xs) * b + 2 ^ m = x.toNat * b + 2 ^ m + (b + 1) * (value w xs * b) := by ring
      _ ≤ 2 ^ m * b + 2 ^ m + (b + 1) * (value w xs * b) := by omega
      _ = (b + 1) * (value w xs * b + 2 ^ m) := by ring
      _ ≤ (b + 1) * (2 ^ m * (b + 1) ^ xs.length) := Nat.mul_le_mul_left _ ih
      _ = 2 ^ m * ((b + 1) * (b + 1) ^ xs.length) := by ring

theorem Normalized.head {x : BitVec m} {xs : List (BitVec m)} (h : Normalized w (x :: xs)) : value w (x :: xs) % 2 ^ w = x.toNat := by
  rw [value_cons, Nat.add_mul_mod_self_left, Nat.mod_eq_of_lt (normalized_cons.mp h).1]

theorem Normalized.tail {x : BitVec m} {xs : List (BitVec m)} (h : Normalized w (x :: xs)) : value w (x :: xs) / 2 ^ w = value w xs := by
  rw [value_cons, Nat.add_mul_div_left _ _ (Nat.two_pow_pos w), Nat.div_eq_of_lt (normalized_cons.mp h).1, Nat.zero_add]

theorem value_injective {xs ys : List (BitVec m)} (hlen : xs.length = ys.length) (hx : Normalized w xs) (hy : Normalized w ys)
    (h : value w xs = value w ys) : xs = ys := by
  induction xs generalizing ys with
  | nil => exact (List.eq_nil_of_length_eq_zero hlen.symm).symm
  | cons x xs ih =>
    cases ys with
    | nil => simp at hlen
    | cons y ys =>
      have hhead : x = y := BitVec.eq_of_toNat_eq (by rw [← hx.head, ← hy.head, h])
      have htail : value w xs = value w ys := by rw [← hx.tail, ← hy.tail, h]
      rw [hhead, ih (by simpa using hlen) (normalized_cons.mp hx).2 (normalized_cons.mp hy).2 htail]

theorem value_eq_zero_iff {xs : List (BitVec m)} : value w xs = 0 ↔ ∀ x ∈ xs, x = 0 := by
  induction xs with
  | nil => simp
  | cons x xs ih =>
    have hzero : x = 0 ↔ x.toNat = 0 := by rw [← BitVec.toNat_inj]; rfl
    rw [value_cons, List.forall_mem_cons, ← ih, hzero, Nat.add_eq_zero_iff, Nat.mul_eq_zero]
    simp

theorem toNat_shiftLeft_or {x y : BitVec m} {k : ℕ} (hx : 2 ^ k * x.toNat < 2 ^ m) (hy : y.toNat < 2 ^ k) :
    ((x <<< k) ||| y).toNat = 2 ^ k * x.toNat + y.toNat := by
  rw [BitVec.toNat_or, BitVec.toNat_shiftLeft, Nat.shiftLeft_eq, Nat.mul_comm, Nat.mod_eq_of_lt hx, Nat.mul_comm,
    ← Nat.shiftLeft_eq, ← Nat.shiftLeft_add_eq_or_of_lt hy, Nat.shiftLeft_eq, Nat.mul_comm]

theorem toNat_or_shiftLeft {x y : BitVec m} {k : ℕ} (hy : y.toNat < 2 ^ k) : (y ||| (x <<< k)).toNat = (y.toNat + 2 ^ k * x.toNat) % 2 ^ m := by
  have hdisjoint : y &&& (x <<< k) = 0 := by
    apply BitVec.eq_of_getLsbD_eq
    intro j hj
    rcases Nat.lt_or_ge j k with h | h
    · simp [h]
    · have hbit : y.getLsbD j = false := Nat.testBit_lt_two_pow (hy.trans_le (Nat.pow_le_pow_right (by decide) h))
      simp [hbit]
  rw [← BitVec.add_eq_or_of_and_eq_zero _ _ hdisjoint, BitVec.toNat_add, BitVec.toNat_shiftLeft, Nat.shiftLeft_eq, Nat.add_mod_mod,
    Nat.mul_comm]

section

variable (w)

def carries (tmp : BitVec m) : List (BitVec m) → List (BitVec m) × BitVec m
  | [] => ([], tmp)
  | d :: ds =>
    let sum := tmp + d
    let rest := carries (sum >>> w) ds
    ((sum &&& BitVec.ofNat m (2 ^ w - 1)) :: rest.1, rest.2)

variable {w}

@[simp] theorem carries_length (tmp : BitVec m) (ds : List (BitVec m)) : (carries w tmp ds).1.length = ds.length := by
  induction ds generalizing tmp with
  | nil => rfl
  | cons d ds ih => simp [carries, ih]

theorem toNat_low (hw : w ≤ m) (x : BitVec m) : (x &&& BitVec.ofNat m (2 ^ w - 1)).toNat = x.toNat % 2 ^ w := by
  have hmask : 2 ^ w - 1 < 2 ^ m := by
    have := Nat.pow_le_pow_right (n := 2) (by decide) hw
    have := Nat.two_pow_pos w
    omega
  rw [BitVec.toNat_and, BitVec.toNat_ofNat, Nat.mod_eq_of_lt hmask, Nat.and_two_pow_sub_one_eq_mod]

theorem toNat_shift_lt (hw : w ≤ m) (x : BitVec m) : (x >>> w).toNat < 2 ^ (m - w) := by
  rw [BitVec.toNat_ushiftRight, Nat.shiftRight_eq_div_pow]
  apply Nat.div_lt_of_lt_mul
  rw [← pow_add, Nat.add_sub_cancel' hw]
  exact x.isLt

theorem carries_normalized (hw : w ≤ m) (tmp : BitVec m) (ds : List (BitVec m)) : Normalized w (carries w tmp ds).1 := by
  induction ds generalizing tmp with
  | nil => exact .nil
  | cons d ds ih =>
    refine normalized_cons.mpr ⟨?_, ih _⟩
    rw [toNat_low hw]
    exact Nat.mod_lt _ (Nat.two_pow_pos w)

theorem carries_value (hw : w ≤ m) {tmp : BitVec m} {ds : List (BitVec m)} (htmp : tmp.toNat < 2 ^ (m - w)) (hds : ∀ d ∈ ds, d.toNat + 2 ^ (m - w) ≤ 2 ^ m) :
    value w (carries w tmp ds).1 + (2 ^ w) ^ ds.length * (carries w tmp ds).2.toNat = tmp.toNat + value w ds := by
  induction ds generalizing tmp with
  | nil => simp [carries]
  | cons d ds ih =>
    obtain ⟨hd, hds⟩ := List.forall_mem_cons.mp hds
    have hsum : (tmp + d).toNat = tmp.toNat + d.toNat := by
      rw [BitVec.toNat_add, Nat.mod_eq_of_lt]
      omega
    have hrest := ih (toNat_shift_lt hw (tmp + d)) hds
    have hcarry : ((tmp + d) >>> w).toNat = (tmp.toNat + d.toNat) / 2 ^ w := by
      rw [BitVec.toNat_ushiftRight, Nat.shiftRight_eq_div_pow, hsum]
    have hsplit := Nat.mod_add_div (tmp.toNat + d.toNat) (2 ^ w)
    simp only [carries, value_cons, toNat_low hw, hsum, List.length_cons, pow_succ']
    rw [hcarry] at hrest
    linear_combination 2 ^ w * hrest + hsplit

theorem carries_mod (hw : w ≤ m) {tmp : BitVec m} (htmp : tmp.toNat < 2 ^ (m - w)) (ds : List (BitVec m))
    (hds : ∀ d ∈ ds, d.toNat + 2 ^ (m - w) ≤ 2 ^ m) :
    value w (carries w tmp ds).1 = (tmp.toNat + value w ds) % (2 ^ w) ^ ds.length := by
  have hlt := (carries_normalized hw tmp ds).value_lt
  rw [carries_length] at hlt
  rw [← carries_value hw htmp hds, Nat.add_mul_mod_self_left, Nat.mod_eq_of_lt hlt]

end

section

variable {ι : Type} {l : List ι} {f : ι → BitVec m} {g h : ι → ℕ}

theorem value_map (hf : ∀ i ∈ l, (f i).toNat = h i) : value w (l.map f) = Nat.ofDigits (2 ^ w) (l.map h) := by
  rw [value, List.map_map]
  congr 1
  exact List.map_congr_left hf

theorem value_map_add (hf : ∀ i ∈ l, (f i).toNat + g i = h i) :
    value w (l.map f) + Nat.ofDigits (2 ^ w) (l.map g) = Nat.ofDigits (2 ^ w) (l.map h) := by
  rw [value_map fun _ _ => rfl, ← ofDigits_map_add]
  congr 1
  exact List.map_congr_left hf

end

theorem value_map_setWidth {k : ℕ} {xs : List (BitVec m)} (hk : w ≤ k) (h : Normalized w xs) :
    value w (xs.map (BitVec.setWidth k)) = value w xs ∧ Normalized w (xs.map (BitVec.setWidth k)) := by
  have hsame : ∀ x ∈ xs, (x.setWidth k).toNat = x.toNat := by
    intro x hx
    rw [BitVec.toNat_setWidth, Nat.mod_eq_of_lt]
    exact (h x hx).trans_le (Nat.pow_le_pow_right (by decide) hk)
  constructor
  · rw [value, List.map_map]
    congr 1
    exact List.map_congr_left hsame
  · rw [Normalized, List.forall_mem_map]
    intro x hx
    rw [hsame x hx]
    exact h x hx

theorem toNat_sum (xs : List (BitVec m)) : xs.sum.toNat = (xs.map BitVec.toNat).sum % 2 ^ m := by
  induction xs with
  | nil => simp
  | cons x xs ih => rw [List.sum_cons, BitVec.toNat_add, ih, List.map_cons, List.sum_cons, Nat.add_mod_mod]

theorem value_split (xs : List (BitVec m)) {k : ℕ} (hk : k ≤ xs.length) :
    value w xs = value w (xs.take k) + (2 ^ w) ^ k * value w (xs.drop k) := by
  have hlen : (xs.take k).length = k := by rw [List.length_take, Nat.min_eq_left hk]
  conv_lhs => rw [← List.take_append_drop k xs, value_append, hlen]

theorem Normalized.take {xs : List (BitVec m)} (h : Normalized w xs) (k : ℕ) : Normalized w (xs.take k) :=
  fun x hx => h x (List.mem_of_mem_take hx)

theorem Normalized.drop {xs : List (BitVec m)} (h : Normalized w xs) (k : ℕ) : Normalized w (xs.drop k) :=
  fun x hx => h x (List.mem_of_mem_drop hx)

theorem value_drop_eq_zero {xs : List (BitVec m)} {k : ℕ} (hk : k ≤ xs.length) (hlt : value w xs < (2 ^ w) ^ k) :
    value w (xs.drop k) = 0 := by
  rw [value_split xs hk] at hlt
  by_contra hne
  have hle := Nat.mul_le_mul_left ((2 ^ w) ^ k) (Nat.one_le_iff_ne_zero.mpr hne)
  omega

theorem value_lt_cons_iff {x y : BitVec m} {xs ys : List (BitVec m)} (hx : x.toNat < 2 ^ w) (hy : y.toNat < 2 ^ w) :
    value w (x :: xs) < value w (y :: ys) ↔ value w xs < value w ys ∨ value w xs = value w ys ∧ x.toNat < y.toNat := by
  rw [value_cons, value_cons]
  rcases lt_trichotomy (value w xs) (value w ys) with h | h | h
  · have := Nat.mul_le_mul_left (2 ^ w) h
    rw [Nat.mul_succ] at this
    constructor
    · intro _
      exact .inl h
    · intro _
      omega
  · rw [h]
    simp
  · have := Nat.mul_le_mul_left (2 ^ w) h
    rw [Nat.mul_succ] at this
    constructor
    · intro hlt
      omega
    · rintro (hlt | ⟨heq, -⟩)
      · exact absurd hlt h.asymm
      · exact absurd heq h.ne'

end TronlinkCore.Limbs
