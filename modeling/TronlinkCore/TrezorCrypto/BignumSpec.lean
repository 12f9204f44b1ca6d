import TronlinkCore.TrezorCrypto.Bignum
import TronlinkCore.Library.ByteOrder

namespace TronlinkCore.TrezorCrypto

open Outcome Limbs Windows

namespace Bignum256

variable {x y : Bignum256}

def value (x : Bignum256) : ℕ := Limbs.value 30 x.val

def Normalized (x : Bignum256) : Prop := Limbs.Normalized 30 x.val

theorem Normalized.value_lt (h : x.Normalized) : x.value < (2 ^ 30) ^ 9 := by
  have hlt := Limbs.Normalized.value_lt h
  rwa [x.length_val] at hlt

theorem ext_of_value (hx : x.Normalized) (hy : y.Normalized) (h : x.value = y.value) : x = y := by
  obtain ⟨xs, hxs⟩ := x
  obtain ⟨ys, hys⟩ := y
  obtain rfl : xs = ys := value_injective (hxs.trans hys.symm) hx hy h
  rfl

theorem limb_of_lt {i : ℕ} (hi : i < 9) : ∃ limb ∈ x.val, x.limb i = limb := by
  obtain ⟨limb, hlimb⟩ : ∃ limb, x.val[i]? = some limb := ⟨_, List.getElem?_eq_getElem (x.length_val ▸ hi)⟩
  refine ⟨limb, List.mem_of_getElem? hlimb, ?_⟩
  rw [Bignum256.limb, List.getD_eq_getElem?_getD, hlimb]
  rfl

theorem Normalized.limb_lt (h : x.Normalized) {i : ℕ} (hi : i < 9) : (x.limb i).toNat < 2 ^ 30 := by
  obtain ⟨limb, hmem, heq⟩ := x.limb_of_lt hi
  rw [heq]
  exact h limb hmem

theorem val_eq (x : Bignum256) : x.val = (x.val.take 8) ++ [x.limb 8] := by
  obtain ⟨limb, hlimb⟩ : ∃ limb, x.val[8]? = some limb := ⟨_, List.getElem?_eq_getElem (by rw [x.length_val]; decide)⟩
  have hdrop : x.val.drop 8 = [limb] := by
    rw [List.drop_eq_getElem?_toList_append, hlimb, List.drop_of_length_le (by rw [x.length_val])]
    rfl
  have hlimb8 : x.limb 8 = limb := by
    rw [Bignum256.limb, List.getD_eq_getElem?_getD, hlimb]
    rfl
  rw [hlimb8, ← hdrop, List.take_append_drop]

theorem value_split (x : Bignum256) : x.value = Limbs.value 30 (x.val.take 8) + (2 ^ 30) ^ 8 * (x.limb 8).toNat := by
  have hlen : (x.val.take 8).length = 8 := by rw [List.length_take, x.length_val]; rfl
  have hsplit : x.value = Limbs.value 30 (x.val.take 8 ++ [x.limb 8]) := by rw [← x.val_eq, value]
  rw [hsplit, value_append, hlen]
  simp

theorem mem_pairs {limbs : BitVec 32 × BitVec 32} (h : limbs ∈ x.pairs y) : limbs.1 ∈ x.val ∧ limbs.2 ∈ y.val :=
  List.of_mem_zip h

theorem ofDigits_pairs_fst (x y : Bignum256) : Nat.ofDigits (2 ^ 30) ((x.pairs y).map fun limbs => limbs.1.toNat) = x.value := by
  rw [pairs, map_zip_fst _ (x.length_val.trans y.length_val.symm)]
  rfl

theorem ofDigits_pairs_snd (x y : Bignum256) : Nat.ofDigits (2 ^ 30) ((x.pairs y).map fun limbs => limbs.2.toNat) = y.value := by
  rw [pairs, map_zip_snd _ (x.length_val.trans y.length_val.symm)]
  rfl

end Bignum256

open Bignum256 (mem_pairs ofDigits_pairs_fst ofDigits_pairs_snd)

variable {a b x y prime : Bignum256}

theorem bnOne_value : bnOne.value = 1 := by decide

theorem bnOne_normalized : bnOne.Normalized := by
  intro limb hlimb
  obtain rfl | ⟨-, rfl⟩ := (List.mem_cons.mp hlimb).imp_right List.mem_replicate.mp <;> decide

theorem foldl_or_eq_zero {ι : Type} (f : ι → BitVec 32) (l : List ι) (result : BitVec 32) :
    l.foldl (fun result i => result ||| f i) result = 0 ↔ result = 0 ∧ ∀ i ∈ l, f i = 0 := by
  induction l generalizing result with
  | nil => simp
  | cons i l ih =>
    rw [List.foldl_cons, ih, List.forall_mem_cons, ← and_assoc]
    apply and_congr_left
    intro _
    exact BitVec.or_eq_zero_iff

theorem bnIsEqual_iff : bnIsEqual a b ↔ a = b := by
  obtain ⟨xs, hxs⟩ := a
  obtain ⟨ys, hys⟩ := b
  have hfold := foldl_or_eq_zero (fun limbs : BitVec 32 × BitVec 32 => limbs.1 ^^^ limbs.2) (xs.zip ys) 0
  have hpairs (xs ys : List (BitVec 32)) (h : xs.length = ys.length) : (∀ limbs ∈ xs.zip ys, limbs.1 ^^^ limbs.2 = 0) ↔ xs = ys := by
    induction xs generalizing ys with
    | nil => simp [List.eq_nil_of_length_eq_zero h.symm]
    | cons x xs ih =>
      cases ys with
      | nil => simp at h
      | cons y ys =>
        rw [List.zip_cons_cons, List.forall_mem_cons, ih ys (by simpa using h), List.cons.injEq]
        exact and_congr_left fun _ => BitVec.xor_eq_zero_iff
  rw [bnIsEqual, decide_eq_true_iff, Bignum256.pairs, hfold, hpairs _ _ (hxs.trans hys.symm)]
  simp

theorem bnIsLess_iff (ha : a.Normalized) (hb : b.Normalized) : bnIsLess a b ↔ a.value < b.value := by
  obtain ⟨xs, hxs⟩ := a
  obtain ⟨ys, hys⟩ := b
  let step (limbs : BitVec 32 × BitVec 32) (res : BitVec 32 × BitVec 32) : BitVec 32 × BitVec 32 :=
    ((res.1 <<< 1) ||| (if limbs.1 < limbs.2 then 1 else 0), (res.2 <<< 1) ||| (if limbs.2 < limbs.1 then 1 else 0))
  have hbit (res : BitVec 32) (p : Prop) [Decidable p] (hres : res.toNat < 2 ^ 31) :
      ((res <<< 1) ||| (if p then 1 else 0)).toNat = 2 * res.toNat + if p then 1 else 0 := by
    rw [toNat_shiftLeft_or (by omega) (by split <;> decide)]
    split <;> rfl
  have hrun (xs ys : List (BitVec 32)) (hlen : xs.length = ys.length) (hx : Limbs.Normalized 30 xs) (hy : Limbs.Normalized 30 ys) (hn : xs.length < 32) :
      let res := (xs.zip ys).foldr step (0, 0)
      res.1.toNat < 2 ^ xs.length ∧ res.2.toNat < 2 ^ xs.length ∧
        (res.2.toNat < res.1.toNat ↔ Limbs.value 30 xs < Limbs.value 30 ys) ∧
        (res.2.toNat = res.1.toNat ↔ Limbs.value 30 xs = Limbs.value 30 ys) := by
    induction xs generalizing ys with
    | nil =>
      rw [List.eq_nil_of_length_eq_zero hlen.symm]
      simp
    | cons x xs ih =>
      cases ys with
      | nil => simp at hlen
      | cons y ys =>
        obtain ⟨hx0, hx⟩ := normalized_cons.mp hx
        obtain ⟨hy0, hy⟩ := normalized_cons.mp hy
        obtain ⟨hlt1, hlt2, hless, heq⟩ := ih ys (by simpa using hlen) hx hy (by rw [List.length_cons] at hn; omega)
        have hpow : 2 ^ xs.length ≤ 2 ^ 30 := Nat.pow_le_pow_right (by decide) (by rw [List.length_cons] at hn; omega)
        have hcons : ((x :: xs).zip (y :: ys)).foldr step (0, 0) = step (x, y) ((xs.zip ys).foldr step (0, 0)) := rfl
        dsimp only
        rw [hcons, hbit _ _ (by omega), hbit _ _ (by omega), value_lt_cons_iff hx0 hy0, ← hless, ← heq, List.length_cons, pow_succ']
        have hvalue : Limbs.value 30 (x :: xs) = Limbs.value 30 (y :: ys) ↔ Limbs.value 30 xs = Limbs.value 30 ys ∧ x.toNat = y.toNat := by
          rw [value_cons, value_cons]
          omega
        rw [hvalue, ← heq]
        simp only [BitVec.lt_def]
        split <;> split <;> omega
  have h := hrun xs ys (hxs.trans hys.symm) ha hb (by omega)
  rw [bnIsLess, decide_eq_true_iff]
  exact h.2.2.1

theorem bnCmov_eq (cond : Bool) (x y : Bignum256) : bnCmov cond x y = if cond then x else y := by
  obtain ⟨xs, hxs⟩ := x
  obtain ⟨ys, hys⟩ := y
  have hlen : xs.length = ys.length := hxs.trans hys.symm
  have hones (z : BitVec 32) : z &&& -1 = z := BitVec.and_allOnes
  simp only [bnCmov, Bignum256.pairs]
  cases cond with
  | true =>
    have hmap : (xs.zip ys).map (fun limbs => (limbs.1 &&& (-1 : BitVec 32)) ||| (limbs.2 &&& ~~~(-1 : BitVec 32))) = xs := by
      refine (List.map_congr_left ?_).trans (List.map_fst_zip hlen.le)
      intro limbs _
      change (limbs.1 &&& -1) ||| (limbs.2 &&& 0) = limbs.1
      rw [hones]
      simp
    simpa using hmap
  | false =>
    have hmap : (xs.zip ys).map (fun limbs => (limbs.1 &&& (0 : BitVec 32)) ||| (limbs.2 &&& ~~~(0 : BitVec 32))) = ys := by
      refine (List.map_congr_left ?_).trans (List.map_snd_zip hlen.ge)
      intro limbs _
      change (limbs.1 &&& 0) ||| (limbs.2 &&& -1) = limbs.2
      rw [hones]
      simp
    simpa using hmap

theorem bnAdd_normalized (a b : Bignum256) : (bnAdd a b).Normalized := carries_normalized (by decide) _ _

theorem bnAddi_normalized (a : Bignum256) (b : BitVec 32) : (bnAddi a b).Normalized := carries_normalized (by decide) _ _

theorem bnSubtract_normalized (a b : Bignum256) : (bnSubtract a b).Normalized := carries_normalized (by decide) _ _

theorem bnSubtractmod_normalized (a b prime : Bignum256) : (bnSubtractmod a b prime).Normalized :=
  carries_normalized (by decide) _ _

theorem bnAdd_value (ha : a.Normalized) (hb : b.Normalized) : (bnAdd a b).value = (a.value + b.value) % (2 ^ 30) ^ 9 := by
  have hlimbs : ∀ limbs ∈ a.pairs b, (limbs.1 + limbs.2).toNat = limbs.1.toNat + limbs.2.toNat ∧ limbs.1.toNat + limbs.2.toNat < 2 ^ 31 := by
    intro limbs hmem
    have h1 := ha _ (mem_pairs hmem).1
    have h2 := hb _ (mem_pairs hmem).2
    rw [BitVec.toNat_add]
    omega
  have hvalue := value_map (w := 30) fun limbs hmem => (hlimbs limbs hmem).1
  have hmod := carries_mod (w := 30) (by decide) (by decide : (0 : BitVec 32).toNat < 2 ^ 2) ((a.pairs b).map fun limbs => limbs.1 + limbs.2)
    (by
      intro d hd
      obtain ⟨limbs, hmem, rfl⟩ := List.mem_map.mp hd
      have := hlimbs limbs hmem
      omega)
  rw [ofDigits_map_add, ofDigits_pairs_fst, ofDigits_pairs_snd] at hvalue
  rw [hvalue, List.length_map, Bignum256.pairs_length] at hmod
  exact hmod.trans (congrArg (· % (2 ^ 30) ^ 9) (Nat.zero_add _))

theorem bnAddi_value {b : BitVec 32} (ha : a.Normalized) (hb : b.toNat < 4) : (bnAddi a b).value = (b.toNat + a.value) % (2 ^ 30) ^ 9 := by
  have hmod := carries_mod (w := 30) (by decide) hb a.val (by
    intro d hd
    have := ha d hd
    omega)
  rwa [a.length_val] at hmod

/-- What is added to each of nine limbs, and the one that is carried, sum up to the power that is dropped. -/
theorem carries_borrow {ι : Type} {l : List ι} {f : ι → BitVec 32} {g h : ι → ℕ} (hl : l.length = 9)
    (hf : ∀ i ∈ l, (f i).toNat + g i = 0x3FFFFFFF + h i) (hlt : ∀ i ∈ l, (f i).toNat + 4 ≤ 2 ^ 32) :
    Limbs.value 30 (carries 30 1 (l.map f)).1 =
      ((2 ^ 30) ^ 9 + Nat.ofDigits (2 ^ 30) (l.map h) - Nat.ofDigits (2 ^ 30) (l.map g)) % (2 ^ 30) ^ 9 := by
  have hvalue := value_map_add (w := 30) hf
  have hconst := ofDigits_map_const (2 ^ 30) l 0x3FFFFFFF
  have hmod := carries_mod (w := 30) (by decide) (by decide : (1 : BitVec 32).toNat < 2 ^ 2) (l.map f) (by
    rw [List.forall_mem_map]
    exact hlt)
  rw [ofDigits_map_add] at hvalue
  rw [hl] at hconst
  rw [hmod, List.length_map, hl]
  congr 1
  change 1 + Limbs.value 30 (l.map f) = _
  omega

theorem bnSubtract_value (ha : a.Normalized) (hb : b.Normalized) :
    (bnSubtract a b).value = ((2 ^ 30) ^ 9 + a.value - b.value) % (2 ^ 30) ^ 9 := by
  have hlimbs : ∀ limbs ∈ a.pairs b, (0x3FFFFFFF + limbs.1 - limbs.2).toNat + limbs.2.toNat = 0x3FFFFFFF + limbs.1.toNat ∧
      (0x3FFFFFFF + limbs.1 - limbs.2).toNat + 4 ≤ 2 ^ 32 := by
    intro limbs hmem
    have h1 := ha _ (mem_pairs hmem).1
    have h2 := hb _ (mem_pairs hmem).2
    have hterm : (0x3FFFFFFF + limbs.1 - limbs.2).toNat = 0x3FFFFFFF + limbs.1.toNat - limbs.2.toNat := by
      rw [BitVec.toNat_sub, BitVec.toNat_add]
      change (2 ^ 32 - limbs.2.toNat + (0x3FFFFFFF + limbs.1.toNat) % 2 ^ 32) % 2 ^ 32 = _
      omega
    omega
  have h := carries_borrow (a.pairs_length b) (fun limbs hmem => (hlimbs limbs hmem).1) fun limbs hmem => (hlimbs limbs hmem).2
  rwa [ofDigits_pairs_fst, ofDigits_pairs_snd] at h

theorem bnSubtractmod_value (ha : a.Normalized) (hb : b.Normalized) (hprime : prime.Normalized) :
    (bnSubtractmod a b prime).value = ((2 ^ 30) ^ 9 + (a.value + 2 * prime.value) - b.value) % (2 ^ 30) ^ 9 := by
  have hlimbs : ∀ limbs ∈ (a.pairs prime).zip b.val,
      (0x3FFFFFFF + limbs.1.1 + 2 * limbs.1.2 - limbs.2).toNat + limbs.2.toNat =
        0x3FFFFFFF + (limbs.1.1.toNat + 2 * limbs.1.2.toNat) ∧
      (0x3FFFFFFF + limbs.1.1 + 2 * limbs.1.2 - limbs.2).toNat + 4 ≤ 2 ^ 32 := by
    intro limbs hmem
    have hmem := List.of_mem_zip hmem
    have h1 := ha _ (mem_pairs hmem.1).1
    have h2 := hprime _ (mem_pairs hmem.1).2
    have h3 := hb _ hmem.2
    have hterm : (0x3FFFFFFF + limbs.1.1 + 2 * limbs.1.2 - limbs.2).toNat =
        0x3FFFFFFF + limbs.1.1.toNat + 2 * limbs.1.2.toNat - limbs.2.toNat := by
      rw [BitVec.toNat_sub, BitVec.toNat_add, BitVec.toNat_add, BitVec.toNat_mul]
      change (2 ^ 32 - limbs.2.toNat + ((0x3FFFFFFF + limbs.1.1.toNat) % 2 ^ 32 + (2 * limbs.1.2.toNat) % 2 ^ 32) % 2 ^ 32) % 2 ^ 32 = _
      omega
    omega
  have hlen : (a.pairs prime).length = b.val.length := by rw [Bignum256.pairs_length, b.length_val]
  have h := carries_borrow (by rw [List.length_zip, ← hlen, Bignum256.pairs_length, Nat.min_self])
    (fun limbs hmem => (hlimbs limbs hmem).1) fun limbs hmem => (hlimbs limbs hmem).2
  rw [map_zip_snd _ hlen, map_zip_fst (fun limbs => limbs.1.toNat + 2 * limbs.2.toNat) hlen, ofDigits_map_add, ofDigits_map_mul, ofDigits_pairs_fst,
    ofDigits_pairs_snd] at h
  exact h

theorem bnMod_value (hx : x.Normalized) (hprime : prime.Normalized) (hlt : x.value < 2 * prime.value) :
    (bnMod x prime).Normalized ∧ (bnMod x prime).value = x.value % prime.value := by
  have hbound := hprime.value_lt
  rw [bnMod, bnCmov_eq]
  by_cases h : x.value < prime.value
  · rw [if_pos ((bnIsLess_iff hx hprime).mpr h), Nat.mod_eq_of_lt h]
    exact ⟨hx, rfl⟩
  · rw [if_neg fun hless => h ((bnIsLess_iff hx hprime).mp hless), bnSubtract_value hx hprime, Nat.mod_eq_sub_mod (Nat.le_of_not_lt h),
      Nat.mod_eq_of_lt (by omega : x.value - prime.value < prime.value)]
    exact ⟨bnSubtract_normalized x prime, by omega⟩

theorem toNat_and_one (x : BitVec 32) : (x &&& 1).toNat = x.toNat % 2 := by
  rw [BitVec.toNat_and]
  exact Nat.and_one_is_mod _

theorem toNat_half (x : BitVec 32) : (x >>> 1).toNat = x.toNat / 2 := by rw [BitVec.toNat_ushiftRight, Nat.shiftRight_eq_div_pow, pow_one]

theorem toNat_u64 (x : BitVec 32) : (u64 x).toNat = x.toNat := by
  rw [u64, BitVec.toNat_setWidth]
  omega

section

variable {coef : BitVec 32} (hcoef : coef.toNat < 2 ^ 31)

include hcoef

theorem product_le {p : BitVec 32} (hp : p.toNat < 2 ^ 30) : p.toNat * coef.toNat ≤ 2 ^ 61 - 2 ^ 31 := by
  calc p.toNat * coef.toNat ≤ (2 ^ 30 - 1) * (2 ^ 31 - 1) := Nat.mul_le_mul (by omega) (by omega)
    _ ≤ 2 ^ 61 - 2 ^ 31 := by decide

theorem toNat_term {c : BitVec 64} (hc : 2 ^ 61 - 2 ^ 31 ≤ c.toNat) (hc' : c.toNat ≤ 2 ^ 61) (x : BitVec 32) {p : BitVec 32}
    (hp : p.toNat < 2 ^ 30) :
    (c + u64 x - u64 p * u64 coef).toNat + coef.toNat * p.toNat = c.toNat + x.toNat := by
  have hle := product_le hcoef hp
  have hx := x.isLt
  rw [BitVec.toNat_sub, BitVec.toNat_add, BitVec.toNat_mul, toNat_u64, toNat_u64, toNat_u64, Nat.mul_comm coef.toNat]
  generalize p.toNat * coef.toNat = product at hle
  omega

theorem value_terms {l : List (BitVec 32 × BitVec 32)} (hl : ∀ limbs ∈ l, limbs.2.toNat < 2 ^ 30) :
    Limbs.value 30 (l.map fun limbs => 0x1FFFFFFF80000000 + u64 limbs.1 - u64 limbs.2 * u64 coef) +
        coef.toNat * Nat.ofDigits (2 ^ 30) (l.map fun limbs => limbs.2.toNat) + 2 ^ 31 =
      Nat.ofDigits (2 ^ 30) (l.map fun limbs => limbs.1.toNat) + 2 ^ 31 * (2 ^ 30) ^ l.length := by
  induction l with
  | nil => simp
  | cons limbs l ih =>
    obtain ⟨hp, hl⟩ := List.forall_mem_cons.mp hl
    have hterm := toNat_term hcoef (c := 0x1FFFFFFF80000000) (by decide) (by decide) limbs.1 hp
    have hc : (0x1FFFFFFF80000000 : BitVec 64).toNat = 2 ^ 61 - 2 ^ 31 := rfl
    rw [hc] at hterm
    have := ih hl
    simp only [List.map_cons, value_cons, Nat.ofDigits_cons, List.length_cons, pow_succ']
    linear_combination hterm + 2 ^ 30 * ih hl

theorem value_reduced {l : List (BitVec 32 × BitVec 32)} (hl : ∀ limbs ∈ l, limbs.2.toNat < 2 ^ 30) (hne : l ≠ []) :
    Limbs.value 30 (reduced coef l) + coef.toNat * Nat.ofDigits (2 ^ 30) (l.map fun limbs => limbs.2.toNat) =
      Nat.ofDigits (2 ^ 30) (l.map fun limbs => limbs.1.toNat) + 2 ^ 31 * (2 ^ 30) ^ l.length := by
  cases l with
  | nil => exact absurd rfl hne
  | cons limbs l =>
    obtain ⟨hp, hl⟩ := List.forall_mem_cons.mp hl
    have hterm := toNat_term hcoef (c := 0x2000000000000000) (by decide) (by decide) limbs.1 hp
    have hc : (0x2000000000000000 : BitVec 64).toNat = 2 ^ 61 := rfl
    rw [hc] at hterm
    simp only [reduced, List.map_cons, value_cons, Nat.ofDigits_cons, List.length_cons, pow_succ']
    linear_combination hterm + 2 ^ 30 * value_terms hcoef hl

theorem reduced_le {l : List (BitVec 32 × BitVec 32)} (hl : ∀ limbs ∈ l, limbs.2.toNat < 2 ^ 30) :
    ∀ d ∈ reduced coef l, d.toNat + 2 ^ 34 ≤ 2 ^ 64 := by
  have hterm (c : BitVec 64) (hc : 2 ^ 61 - 2 ^ 31 ≤ c.toNat) (hc' : c.toNat ≤ 2 ^ 61) {limbs : BitVec 32 × BitVec 32}
      (hp : limbs.2.toNat < 2 ^ 30) : (c + u64 limbs.1 - u64 limbs.2 * u64 coef).toNat + 2 ^ 34 ≤ 2 ^ 64 := by
    have := toNat_term hcoef hc hc' limbs.1 hp
    have := limbs.1.isLt
    omega
  cases l with
  | nil => exact fun _ h => absurd h List.not_mem_nil
  | cons limbs l =>
    obtain ⟨hp, hl⟩ := List.forall_mem_cons.mp hl
    have hfirst := hterm 0x2000000000000000 (by decide) (by decide) hp
    have hrest := fun limbs hmem => hterm 0x1FFFFFFF80000000 (by decide) (by decide) (hl limbs hmem)
    rw [reduced, List.forall_mem_cons, List.forall_mem_map]
    constructor
    · exact hfirst
    · exact hrest

end

/-- The primes that the reductions are made for -/
structure Modulus (prime : Bignum256) : Prop where
  normalized : prime.Normalized
  lower : 2 ^ 256 - 2 ^ 224 < prime.value
  upper : prime.value < 2 ^ 256

theorem Modulus.pos (h : Modulus prime) : 0 < prime.value := Nat.zero_lt_of_lt h.lower

theorem bnFastMod_value (h : Modulus prime) (x : Bignum256) : (bnFastMod x prime).Normalized ∧
    (bnFastMod x prime).value < 2 * prime.value ∧
      (bnFastMod x prime).value + (x.limb 8).toNat / 2 ^ 16 * prime.value = x.value := by
  have hcoef : (x.limb 8 >>> 16).toNat = (x.limb 8).toNat / 2 ^ 16 := by
    rw [BitVec.toNat_ushiftRight, Nat.shiftRight_eq_div_pow]
  have hx8 := (x.limb 8).isLt
  have hlimbs : ∀ limbs ∈ x.pairs prime, limbs.2.toNat < 2 ^ 30 := fun limbs hmem => h.normalized _ (mem_pairs hmem).2
  have hne : x.pairs prime ≠ [] := List.ne_nil_of_length_pos (by rw [Bignum256.pairs_length]; decide)
  have hcarries := carries_normalized (w := 30) (by decide) 0 (reduced (x.limb 8 >>> 16) (x.pairs prime))
  have hwidth := value_map_setWidth (by decide : 30 ≤ 32) hcarries
  have hlt : (x.limb 8 >>> 16).toNat < 2 ^ 31 := by omega
  have hreduced := value_reduced hlt hlimbs hne
  have hmod := carries_mod (w := 30) (by decide) (by decide : (0 : BitVec 64).toNat < 2 ^ 34) _ (reduced_le hlt hlimbs)
  rw [hcoef, ofDigits_pairs_fst, ofDigits_pairs_snd, Bignum256.pairs_length] at hreduced
  have hzero : (0 : BitVec 64).toNat = 0 := rfl
  have hmin : min 8 9 = 8 := rfl
  rw [reduced_length, Bignum256.pairs_length, hzero, Nat.zero_add] at hmod
  have hlower := value_mul_le (w := 30) (x.val.take 8)
  rw [List.length_take, x.length_val, hmin] at hlower
  have hsplit := x.value_split
  have hexcess : (x.limb 8).toNat / 2 ^ 16 * (2 ^ 256 - prime.value) ≤ 2 ^ 16 * 2 ^ 224 :=
    Nat.mul_le_mul (by omega) (by have := h.lower; omega)
  have hmul : (x.limb 8).toNat / 2 ^ 16 * prime.value + (x.limb 8).toNat / 2 ^ 16 * (2 ^ 256 - prime.value) =
      (x.limb 8).toNat / 2 ^ 16 * 2 ^ 256 := by rw [← Nat.mul_add, Nat.add_sub_cancel' h.upper.le]
  have hlower' := h.lower
  have hvalue : (bnFastMod x prime).value + (x.limb 8).toNat / 2 ^ 16 * prime.value = x.value := by
    rw [Bignum256.value, bnFastMod, hwidth.1, hmod]
    generalize (x.limb 8).toNat / 2 ^ 16 * prime.value = multiple at *
    generalize (x.limb 8).toNat / 2 ^ 16 * (2 ^ 256 - prime.value) = excess at *
    omega
  refine ⟨hwidth.2, ?_, hvalue⟩
  generalize (x.limb 8).toNat / 2 ^ 16 * prime.value = multiple at *
  generalize (x.limb 8).toNat / 2 ^ 16 * (2 ^ 256 - prime.value) = excess at *
  omega

end TronlinkCore.TrezorCrypto
