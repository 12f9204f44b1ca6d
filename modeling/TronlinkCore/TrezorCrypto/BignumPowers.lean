import TronlinkCore.TrezorCrypto.BignumProducts

namespace TronlinkCore.TrezorCrypto

open Outcome Limbs

variable {x prime : Bignum256}

theorem bnRshift_value {a : Bignum256} (ha : a.Normalized) : (bnRshift a).Normalized ∧ (bnRshift a).value = a.value / 2 := by
  let shift (limbs : BitVec 32 × BitVec 32) : BitVec 32 := (limbs.1 >>> 1) ||| ((limbs.2 &&& 1) <<< 29)
  have hshift (limb next : BitVec 32) (hlimb : limb.toNat < 2 ^ 30) : (shift (limb, next)).toNat = limb.toNat / 2 + 2 ^ 29 * (next.toNat % 2) := by
    have hbit := toNat_and_one next
    have hhalf := toNat_half limb
    change ((limb >>> 1) ||| ((next &&& 1) <<< 29)).toNat = _
    rw [BitVec.or_comm, toNat_shiftLeft_or (by omega) (by omega), hbit, hhalf]
    omega
  have hrun (x : BitVec 32) (xs : List (BitVec 32)) (h : Limbs.Normalized 30 (x :: xs)) :
      Limbs.Normalized 30 (((x :: xs).zip (xs ++ [0])).map shift) ∧
        Limbs.value 30 (((x :: xs).zip (xs ++ [0])).map shift) = Limbs.value 30 (x :: xs) / 2 := by
    induction xs generalizing x with
    | nil =>
      have hx := (normalized_cons.mp h).1
      have hlast := hshift x 0 hx
      have hzero : (0 : BitVec 32).toNat % 2 = 0 := rfl
      rw [hzero, Nat.mul_zero, Nat.add_zero] at hlast
      constructor
      · exact normalized_cons.mpr ⟨by rw [hlast]; omega, .nil⟩
      · simp only [List.nil_append, List.zip_cons_cons, List.zip_nil_right, List.map_cons, List.map_nil, value_cons, value_nil,
          Nat.mul_zero, Nat.add_zero, hlast]
    | cons y ys ih =>
      obtain ⟨hx, hxs⟩ := normalized_cons.mp h
      obtain ⟨hnormalized, hvalue⟩ := ih y hxs
      have hfirst := hshift x y hx
      rw [List.cons_append, List.zip_cons_cons, List.map_cons]
      constructor
      · exact normalized_cons.mpr ⟨by rw [hfirst]; omega, hnormalized⟩
      · rw [value_cons, hvalue, hfirst, value_cons, value_cons, value_cons]
        omega
  obtain ⟨val, hlen⟩ := a
  cases val with
  | nil => simp at hlen
  | cons x xs => exact hrun x xs ha

theorem exponent_value (h : Modulus prime) : (bnRshift (bnRshift (bnAddi prime 1))).Normalized ∧
    (bnRshift (bnRshift (bnAddi prime 1))).value = (prime.value + 1) / 4 := by
  have hupper := h.upper
  have hadd := bnAddi_value h.normalized (by decide : (1 : BitVec 32).toNat < 4)
  have hone : (1 : BitVec 32).toNat = 1 := rfl
  obtain ⟨hhalf, hhalfvalue⟩ := bnRshift_value (bnAddi_normalized prime 1)
  obtain ⟨hquarter, hvalue⟩ := bnRshift_value hhalf
  refine ⟨hquarter, ?_⟩
  rw [hvalue, hhalfvalue, hadd, hone, Nat.mod_eq_of_lt (by omega), Nat.div_div_eq_div_mul, Nat.add_comm]

variable {a r : ZMod prime.value}

theorem sqrtRounds_value (h : Modulus prime) (last : Bool) {n : ℕ} {limb : BitVec 32} (hlimb : limb.toNat < 2 ^ n) {res : Bignum256}
    (hx : Residue prime 180 a x) (hres : Residue prime 2 r res) :
    ∃ x' res', sqrtRounds prime last n limb (x, res) = ok (x', res') ∧ Residue prime 2 (r * a ^ limb.toNat) res' ∧
      (last = false → Residue prime 180 (a ^ 2 ^ n) x') := by
  induction n generalizing limb x res a r with
  | zero =>
    have hzero : limb.toNat = 0 := by omega
    refine ⟨x, res, rfl, ?_, ?_⟩
    · rwa [hzero, pow_zero, mul_one]
    · intro _
      rwa [pow_zero, pow_one]
  | succ n ih =>
    rw [sqrtRounds]
    by_cases hend : last = true ∧ limb = 0
    · obtain ⟨hlast, rfl⟩ := hend
      have hzero : (0 : BitVec 32).toNat = 0 := rfl
      rw [if_pos ⟨hlast, rfl⟩]
      refine ⟨x, res, rfl, ?_, ?_⟩
      · rwa [hzero, pow_zero, mul_one]
      · intro hnot
        rw [hlast] at hnot
        exact absurd hnot (by decide)
    · rw [if_neg hend]
      -- The lowest bit of what is left of the limb
      have hbit := toNat_and_one limb
      have hshift := toNat_half limb
      obtain ⟨res₁, hmultiply, hres₁⟩ : ∃ res₁, (if limb &&& 1 ≠ 0 then bnMultiply x res prime else ok res) = ok res₁ ∧
          Residue prime 2 (r * a ^ (limb.toNat % 2)) res₁ := by
        by_cases hodd : limb &&& 1 = 0
        · have hmod : limb.toNat % 2 = 0 := by rw [← hbit, hodd]; rfl
          rw [if_neg (not_not.mpr hodd)]
          refine ⟨res, rfl, ?_⟩
          rwa [hmod, pow_zero, mul_one]
        · have hmod : limb.toNat % 2 = 1 := by
            have hne : (limb &&& 1).toNat ≠ 0 := fun hzero => hodd (BitVec.eq_of_toNat_eq hzero)
            omega
          obtain ⟨y, hrun, hy⟩ := hx.multiply h hres le_rfl (by decide)
          rw [if_pos hodd]
          refine ⟨y, hrun, ?_⟩
          rwa [hmod, pow_one, mul_comm]
      obtain ⟨x₁, hsquare, hx₁⟩ := hx.multiply h hx le_rfl le_rfl
      have hx₁' : Residue prime 180 (a * a) x₁ := ⟨hx₁.normalized, hx₁.lt.trans_le (Nat.mul_le_mul_right _ (by decide)), hx₁.cast⟩
      obtain ⟨x', res', hrun, hres', hx'⟩ := ih (by rw [hshift]; omega) hx₁' hres₁
      refine ⟨x', res', ?_, ?_, ?_⟩
      · rw [hmultiply, ok_bind, hsquare, ok_bind]
        exact hrun
      · have hpower : r * a ^ limb.toNat = r * a ^ (limb.toNat % 2) * (a * a) ^ (limb >>> 1).toNat := by
          have hsplit : limb.toNat = limb.toNat % 2 + 2 * (limb.toNat / 2) := (Nat.mod_add_div _ _).symm
          rw [hshift, ← pow_two, ← pow_mul, mul_assoc, ← pow_add, ← hsplit]
        rwa [hpower]
      · intro hlast
        have hpower : a ^ 2 ^ (n + 1) = (a * a) ^ 2 ^ n := by rw [← pow_two, ← pow_mul, ← pow_succ']
        rw [hpower]
        exact hx' hlast

theorem sqrtLimbs_value (h : Modulus prime) {p : Bignum256} (hp : p.Normalized) (hx : Residue prime 180 a x) {n : ℕ} (hn : n ≤ 8) :
    ∃ x' res', (List.range n).foldlM (fun s i => sqrtRounds prime (i = 8) 30 (p.limb i) s) (x, bnOne) = ok (x', res') ∧
      Residue prime 2 (a ^ Limbs.value 30 (p.val.take n)) res' ∧ Residue prime 180 (a ^ (2 ^ 30) ^ n) x' := by
  induction n with
  | zero =>
    have hlower := h.lower
    refine ⟨x, bnOne, rfl, ⟨bnOne_normalized, by rw [bnOne_value]; omega, ?_⟩, ?_⟩
    · rw [bnOne_value, List.take_zero, value_nil, pow_zero, Nat.cast_one]
    · rwa [pow_zero, pow_one]
  | succ n ih =>
    obtain ⟨x₁, res₁, hrun, hres₁, hx₁⟩ := ih (by omega)
    obtain ⟨x₂, res₂, hlimb, hres₂, hx₂⟩ := sqrtRounds_value h (decide (n = 8)) (hp.limb_lt (by omega : n < 9)) hx₁ hres₁
    obtain ⟨limb, hget⟩ : ∃ limb, p.val[n]? = some limb := ⟨_, List.getElem?_eq_getElem (by rw [p.length_val]; omega)⟩
    have hlimbn : p.limb n = limb := by
      rw [Bignum256.limb, List.getD_eq_getElem?_getD, hget]
      rfl
    have hvalue : Limbs.value 30 (p.val.take (n + 1)) = Limbs.value 30 (p.val.take n) + (2 ^ 30) ^ n * (p.limb n).toNat := by
      have hlen : (p.val.take n).length = n := by rw [List.length_take, p.length_val, Nat.min_eq_left (by omega)]
      rw [List.take_add_one, hget, value_append, hlen, hlimbn]
      simp
    refine ⟨x₂, res₂, ?_, ?_, ?_⟩
    · rw [List.range_succ, List.foldlM_append, hrun, ok_bind, List.foldlM_cons, hlimb, ok_bind]
      rfl
    · rw [hvalue, pow_add, pow_mul]
      exact hres₂
    · rw [pow_succ, pow_mul]
      exact hx₂ (decide_eq_false (by omega))

theorem bnSqrt_power (h : Modulus prime) (hx : Residue prime 180 a x) :
    ∃ y, bnSqrt x prime = ok y ∧ y.Normalized ∧ y.value < prime.value ∧
      (y.value : ZMod prime.value) = a ^ ((prime.value + 1) / 4) := by
  obtain ⟨hp, hpvalue⟩ := exponent_value h
  obtain ⟨x₁, res₁, hrun, hres₁, hx₁⟩ := sqrtLimbs_value h hp hx le_rfl
  obtain ⟨x₂, res₂, hlast, hres₂, -⟩ := sqrtRounds_value h (decide (8 = 8)) (hp.limb_lt (by decide : 8 < 9)) hx₁ hres₁
  have hpower : a ^ Limbs.value 30 ((bnRshift (bnRshift (bnAddi prime 1))).val.take 8) *
      (a ^ (2 ^ 30) ^ 8) ^ ((bnRshift (bnRshift (bnAddi prime 1))).limb 8).toNat = a ^ ((prime.value + 1) / 4) := by
    rw [← pow_mul, ← pow_add, ← Bignum256.value_split, hpvalue]
  rw [hpower] at hres₂
  obtain ⟨hnormalized, hlt, hcast⟩ := hres₂.mod h
  refine ⟨bnMod res₂ prime, ?_, hnormalized, hlt, hcast⟩
  have hrange : List.range 9 = List.range 8 ++ [8] := List.range_succ
  rw [bnSqrt, hrange, List.foldlM_append, hrun, ok_bind, List.foldlM_cons, hlast]
  rfl

theorem bnSqrt_root (h : Modulus prime) (hx : x.Normalized) (hlt : x.value < 180 * prime.value) :
    ∃ y, bnSqrt x prime = ok y ∧ y.Normalized ∧ y.value = x.value ^ ((prime.value + 1) / 4) % prime.value ∧
      (prime.value.Prime → prime.value % 4 = 3 →
        (y.value ^ 2 ≡ x.value [MOD prime.value] ↔ IsSquare (x.value : ZMod prime.value))) := by
  obtain ⟨y, hrun, hy, hylt, hcast⟩ := bnSqrt_power h ⟨hx, hlt, rfl⟩
  refine ⟨y, hrun, hy, ?_, ?_⟩
  · have hmod : y.value ≡ x.value ^ ((prime.value + 1) / 4) [MOD prime.value] := by
      apply (ZMod.natCast_eq_natCast_iff _ _ _).mp
      rw [hcast, Nat.cast_pow]
    rw [← hmod, Nat.mod_eq_of_lt hylt]
  · intro hprime hfour
    have : Fact prime.value.Prime := ⟨hprime⟩
    rw [← ZMod.natCast_eq_natCast_iff, Nat.cast_pow, hcast]
    constructor
    · intro hsquare
      exact ⟨_, (pow_two ((x.value : ZMod prime.value) ^ ((prime.value + 1) / 4)) ▸ hsquare).symm⟩
    · intro hsquare
      by_cases hzero : (x.value : ZMod prime.value) = 0
      · have hexponent : (prime.value + 1) / 4 ≠ 0 := by omega
        rw [hzero, zero_pow hexponent, zero_pow two_ne_zero]
      · have hcriterion := (ZMod.euler_criterion prime.value hzero).mp hsquare
        have hexponent : (prime.value + 1) / 4 * 2 = prime.value / 2 + 1 := by omega
        rw [← pow_mul, hexponent, pow_succ, hcriterion, one_mul]

theorem bnSqrt_root_generator :
    ∃ y, bnSqrt secp256k1G.x secp256k1Prime = ok y ∧ y.Normalized ∧
      y.value = secp256k1G.x.value ^ ((secp256k1Prime.value + 1) / 4) % secp256k1Prime.value ∧
      (y.value ^ 2 ≡ secp256k1G.x.value [MOD secp256k1Prime.value] ↔ IsSquare (secp256k1G.x.value : ZMod secp256k1Prime.value)) := by
  obtain ⟨y, hrun, hy, hvalue, hroot⟩ := bnSqrt_root secp256k1Prime_modulus secp256k1G_normalized.1
    (secp256k1G_lt.1.trans_le (Nat.le_mul_of_pos_left _ (by decide)))
  exact ⟨y, hrun, hy, hvalue, hroot secp256k1Prime_prime secp256k1Prime_mod_four⟩

end TronlinkCore.TrezorCrypto
