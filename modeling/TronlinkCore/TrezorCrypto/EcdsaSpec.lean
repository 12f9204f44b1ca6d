import Mathlib.AlgebraicGeometry.EllipticCurve.Jacobian.Point
import TronlinkCore.TrezorCrypto.BignumResidues
import TronlinkCore.TrezorCrypto.Ecdsa

namespace TronlinkCore.TrezorCrypto

open Outcome WeierstrassCurve Jacobian

variable {curve : EcdsaCurve} {p p2 : JacobianCurvePoint} {p1 : CurvePoint} {X Y Z X1 Y1 : ZMod curve.prime.value}

/-- What the steps assume of a curve -/
structure EcdsaCurve.Supported (curve : EcdsaCurve) : Prop where
  modulus : Modulus curve.prime
  odd : curve.prime.value % 2 = 1
  a : -3 ≤ curve.a ∧ curve.a ≤ 0

theorem EcdsaCurve.Supported.negA_toNat (h : curve.Supported) : curve.negA.toNat ≤ 4 ∧ (curve.negA.toNat : ℤ) = -curve.a := by
  obtain ⟨hlower, hupper⟩ := h.a
  rw [EcdsaCurve.negA]
  interval_cases curve.a <;> decide

theorem EcdsaCurve.Supported.negA_cast (h : curve.Supported) : (curve.negA.toNat : ZMod curve.prime.value) = -(curve.a : ZMod curve.prime.value) := by
  have hcast := congrArg (Int.cast : ℤ → ZMod curve.prime.value) h.negA_toNat.2
  rwa [Int.cast_natCast, Int.cast_neg] at hcast

/-- The coordinates as residues, partly reduced -/
structure JacobianCurvePoint.Represents (curve : EcdsaCurve) (P : Fin 3 → ZMod curve.prime.value) (p : JacobianCurvePoint) : Prop where
  x : Residue curve.prime 2 (P 0) p.x
  y : Residue curve.prime 2 (P 1) p.y
  z : Residue curve.prime 2 (P 2) p.z

theorem bnOne_residue (h : Modulus curve.prime) : Residue curve.prime 2 1 bnOne := by
  have hlower := h.lower
  refine ⟨bnOne_normalized, ?_, ?_⟩
  · rw [bnOne_value]
    omega
  · rw [bnOne_value, Nat.cast_one]

theorem half_mul_two (h : curve.Supported) (a : ZMod curve.prime.value) : 2 * (a * 2⁻¹) = a := by
  have hinverse := ZMod.coe_mul_inv_eq_one (n := curve.prime.value) 2 (Nat.coprime_two_left.mpr (Nat.odd_iff.mpr h.odd))
  rw [Nat.cast_ofNat] at hinverse
  rw [mul_left_comm, hinverse, mul_one]

theorem pointJacobianDouble_residues (h : curve.Supported) (hp : p.Represents curve ![X, Y, Z]) :
    ∃ q M, 2 * M = 3 * X ^ 2 + curve.a * Z ^ 4 ∧ pointJacobianDouble p curve = ok q ∧
      q.Represents curve ![M ^ 2 - 2 * (X * Y ^ 2), M * (X * Y ^ 2 - (M ^ 2 - 2 * (X * Y ^ 2))) - Y ^ 4, Y * Z] := by
  have hx : Residue curve.prime 2 X p.x := hp.x
  have hy : Residue curve.prime 2 Y p.y := hp.y
  have hz : Residue curve.prime 2 Z p.z := hp.z
  have hnegA := h.negA_toNat.1
  have hcast := h.negA_cast
  have hhalf := half_mul_two h
  obtain ⟨hmodulus, hodd, ha⟩ := h
  obtain ⟨xsq, hxsq, hxsq'⟩ := hx.multiply hmodulus hx (by decide) (by decide)
  obtain ⟨zsq, hzsq, hzsq'⟩ := hz.multiply hmodulus hz (by decide) (by decide)
  obtain ⟨z4, hz4, hz4'⟩ := hzsq'.multiply hmodulus hzsq' (by decide) (by decide)
  have hm := ((hxsq'.multK hmodulus (k := 3) (by decide)).subtractmod hmodulus (by decide) (hz4'.multK hmodulus hnegA)).multHalf hmodulus hodd
    (by decide)
  obtain ⟨msq, hmsq, hmsq'⟩ := hm.multiply hmodulus hm (by decide) (by decide)
  obtain ⟨ysq, hysq, hysq'⟩ := hy.multiply hmodulus hy (by decide) (by decide)
  obtain ⟨xysq, hxysq, hxysq'⟩ := hysq'.multiply hmodulus hx (by decide) (by decide)
  obtain ⟨yz, hyz, hyz'⟩ := hy.multiply hmodulus hz (by decide) (by decide)
  have hx3 := (hmsq'.subtractmod hmodulus (by decide) ((hxysq'.lshift hmodulus (by decide)).reduce hmodulus)).reduce hmodulus
  obtain ⟨my, hmy, hmy'⟩ := hm.multiply hmodulus (hxysq'.subtractmod hmodulus (by decide) hx3) (by decide) (by decide)
  obtain ⟨y4, hy4, hy4'⟩ := hysq'.multiply hmodulus hysq' (by decide) (by decide)
  have hy3 := (hmy'.subtractmod hmodulus (by decide) hy4').reduce hmodulus
  have hthree : (((3 : BitVec 8).toNat : ℕ) : ZMod curve.prime.value) = 3 := rfl
  have hm2 := hhalf (3 * (X * X) - -↑curve.a * (Z * Z * (Z * Z)))
  rw [hthree, hcast] at hx3 hy3
  generalize (3 * (X * X) - -↑curve.a * (Z * Z * (Z * Z))) * 2⁻¹ = M at hx3 hy3 hm2
  have hx3eq : M * M - 2 * (Y * Y * X) = M ^ 2 - 2 * (X * Y ^ 2) := by ring
  have hy3eq : M * (Y * Y * X - (M * M - 2 * (Y * Y * X))) - Y * Y * (Y * Y) = M * (X * Y ^ 2 - (M ^ 2 - 2 * (X * Y ^ 2))) - Y ^ 4 := by ring
  rw [hx3eq] at hx3
  rw [hy3eq] at hy3
  refine ⟨⟨_, _, _⟩, M, ?_, ?_, hx3, hy3, hyz'⟩
  · rw [hm2]
    ring
  · rw [pointJacobianDouble]
    simp only [check, if_pos ha, ok_bind, hxsq, hzsq, hz4, hmsq, hysq, hxysq, hyz, hmy, hy4]
    rfl

theorem bind_eq_of_ok {α β : Type} {m : Outcome α} {a : α} {f : α → Outcome β} {o : Outcome β} (hm : m = ok a) (hf : f a = o) : m >>= f = o := by
  rw [hm]
  exact hf

/-- The slope is a quotient by the last coordinate: `R` over `H * Z`. -/
theorem pointJacobianAdd_residues (h : curve.Supported) (hp1x : Residue curve.prime 2 X1 p1.x) (hp1y : Residue curve.prime 2 Y1 p1.y)
    (hp2 : p2.Represents curve ![X, Y, Z]) {R H : ZMod curve.prime.value}
    (hR : R = if X1 * Z ^ 2 = X then 3 * X ^ 2 + curve.a * Z ^ 4 else Y1 * Z ^ 3 - Y)
    (hH : H = if X1 * Z ^ 2 = X then Y1 * Z ^ 3 + Y else X1 * Z ^ 2 - X) :
    ∃ q T, 2 * T = R * (H ^ 2 * (X1 * Z ^ 2 + X) - 2 * (R ^ 2 - H ^ 2 * (X1 * Z ^ 2 + X))) - H ^ 3 * (Y1 * Z ^ 3 + Y) ∧
      pointJacobianAdd p1 p2 curve = ok q ∧ q.Represents curve ![R ^ 2 - H ^ 2 * (X1 * Z ^ 2 + X), T, H * Z] := by
  have hx : Residue curve.prime 2 X p2.x := hp2.x
  have hy : Residue curve.prime 2 Y p2.y := hp2.y
  have hz : Residue curve.prime 2 Z p2.z := hp2.z
  have hnegA := h.negA_toNat.1
  have hcast := h.negA_cast
  have hhalf := half_mul_two h
  obtain ⟨hmodulus, hodd, ha⟩ := h
  obtain ⟨zsq, hzsq, hzsq'⟩ := hz.multiply hmodulus hz (by decide) (by decide)
  obtain ⟨z3, hz3, hz3'⟩ := hzsq'.multiply hmodulus hz (by decide) (by decide)
  obtain ⟨az, haz, haz'⟩ : ∃ az, (if curve.a ≠ 0 then (do
        let az ← bnMultiply zsq zsq curve.prime
        return bnMultK az curve.negA curve.prime)
      else return bnZero) = ok az ∧ (curve.a ≠ 0 → Residue curve.prime 2 (-curve.a * (Z * Z * (Z * Z))) az) := by
    by_cases hzero : curve.a = 0
    · exact ⟨bnZero, if_neg (not_not.mpr hzero), fun hne => absurd hzero hne⟩
    · obtain ⟨z4, hz4, hz4'⟩ := hzsq'.multiply hmodulus hzsq' (by decide) (by decide)
      rw [if_pos hzero, hz4, ok_bind]
      exact ⟨_, rfl, fun _ => hcast ▸ hz4'.multK hmodulus hnegA⟩
  obtain ⟨xz, hxz, hxz'⟩ := hp1x.multiply hmodulus hzsq' (by decide) (by decide)
  obtain ⟨yz, hyz, hyz'⟩ := hp1y.multiply hmodulus hz3' (by decide) (by decide)
  obtain ⟨xsq, hxsq, hxsq'⟩ := hx.multiply hmodulus hx (by decide) (by decide)
  have hdifference := hxz'.subtractmod hmodulus (by decide) hx
  have hxsum := hxz'.add hmodulus (by decide) (by decide) hx
  have hysum := hyz'.add hmodulus (by decide) (by decide) hy
  -- The difference of the first coordinates is zero exactly if its reduced form is the prime.
  have hdoubling : bnIsEqual (bnFastMod (bnSubtractmod xz p2.x curve.prime) curve.prime) curve.prime = true ↔ X1 * Z ^ 2 = X := by
    have hvalue := hxz'.subtractmod_value hmodulus (by decide) hx
    have hylt := hx.lt
    have hpow : X1 * Z ^ 2 = X1 * (Z * Z) := by ring
    rw [bnIsEqual_iff, bnFastMod_eq_prime_iff hmodulus (by omega), hdifference.cast, sub_eq_zero, hpow]
  have hr2 : Residue curve.prime 4 (3 * X ^ 2 + curve.a * Z ^ 4) (if curve.a ≠ 0 then bnSubtractmod (bnMultK xsq 3 curve.prime) az curve.prime
      else bnMultK xsq 3 curve.prime) := by
    have hthree := hxsq'.multK hmodulus (k := 3) (by decide)
    have hcast3 : (((3 : BitVec 8).toNat : ℕ) : ZMod curve.prime.value) = 3 := rfl
    rw [hcast3] at hthree
    by_cases hzero : curve.a = 0
    · have hterm : 3 * X ^ 2 + (curve.a : ZMod curve.prime.value) * Z ^ 4 = 3 * (X * X) := by
        rw [hzero, Int.cast_zero]
        ring
      rw [if_neg (not_not.mpr hzero), hterm]
      exact hthree.mono (by decide)
    · have hterm : 3 * X ^ 2 + (curve.a : ZMod curve.prime.value) * Z ^ 4 = 3 * (X * X) - -curve.a * (Z * Z * (Z * Z)) := by ring
      rw [if_pos hzero, hterm]
      exact hthree.subtractmod hmodulus (by decide) (haz' hzero)
  have hr : Residue curve.prime 4 R (bnCmov (bnIsEqual (bnFastMod (bnSubtractmod xz p2.x curve.prime) curve.prime) curve.prime)
      (if curve.a ≠ 0 then bnSubtractmod (bnMultK xsq 3 curve.prime) az curve.prime else bnMultK xsq 3 curve.prime)
      (bnSubtractmod yz p2.y curve.prime)) := by
    rw [bnCmov_eq, hR]
    by_cases hd : X1 * Z ^ 2 = X
    · rw [if_pos hd, if_pos (hdoubling.mpr hd)]
      exact hr2
    · have hterm : Y1 * Z ^ 3 - Y = Y1 * (Z * Z * Z) - Y := by ring
      rw [if_neg hd, if_neg fun hnot => hd (hdoubling.mp hnot), hterm]
      exact hyz'.subtractmod hmodulus (by decide) hy
  have hh : Residue curve.prime 4 H (bnCmov (bnIsEqual (bnFastMod (bnSubtractmod xz p2.x curve.prime) curve.prime) curve.prime)
      (bnAdd yz p2.y) (bnFastMod (bnSubtractmod xz p2.x curve.prime) curve.prime)) := by
    rw [bnCmov_eq, hH]
    by_cases hd : X1 * Z ^ 2 = X
    · have hterm : Y1 * Z ^ 3 + Y = Y1 * (Z * Z * Z) + Y := by ring
      rw [if_pos hd, if_pos (hdoubling.mpr hd), hterm]
      exact hysum
    · have hterm : X1 * Z ^ 2 - X = X1 * (Z * Z) - X := by ring
      rw [if_neg hd, if_neg fun hnot => hd (hdoubling.mp hnot), hterm]
      exact (hdifference.reduce hmodulus).mono (by decide)
  obtain ⟨hsq, hhsq, hhsq'⟩ := hh.multiply hmodulus hh (by decide) (by decide)
  obtain ⟨hcb, hhcb, hhcb'⟩ := hhsq'.multiply hmodulus hh (by decide) (by decide)
  obtain ⟨hsqx, hhsqx, hhsqx'⟩ := hxsum.multiply hmodulus hhsq' (by decide) (by decide)
  obtain ⟨hcby, hhcby, hhcby'⟩ := hysum.multiply hmodulus hhcb' (by decide) (by decide)
  obtain ⟨z', hz', hz''⟩ := hh.multiply hmodulus hz (by decide) (by decide)
  obtain ⟨rsq, hrsq, hrsq'⟩ := hr.multiply hmodulus hr (by decide) (by decide)
  have hx3 := (hrsq'.subtractmod hmodulus (by decide) hhsqx').reduce hmodulus
  obtain ⟨ry, hry, hry'⟩ := hr.multiply hmodulus ((hhsqx'.subtractmod hmodulus (by decide) hx3).subtractmod hmodulus (by decide) hx3)
    (by decide) (by decide)
  have hy3 := ((hry'.subtractmod hmodulus (by decide) hhcby').multHalf hmodulus hodd (by decide)).reduce hmodulus
  have hx3eq : R * R - (X1 * (Z * Z) + X) * (H * H) = R ^ 2 - H ^ 2 * (X1 * Z ^ 2 + X) := by ring
  rw [hx3eq] at hx3
  refine ⟨⟨_, _, _⟩, _, ?_, ?_, hx3, hy3, hz''⟩
  · rw [hhalf]
    ring
  · unfold pointJacobianAdd
    refine bind_eq_of_ok (check_true ha) ?_
    refine bind_eq_of_ok hzsq ?_
    refine bind_eq_of_ok hz3 ?_
    refine bind_eq_of_ok haz ?_
    refine bind_eq_of_ok hxz ?_
    refine bind_eq_of_ok hyz ?_
    refine bind_eq_of_ok hxsq ?_
    refine bind_eq_of_ok hhsq ?_
    refine bind_eq_of_ok hhcb ?_
    refine bind_eq_of_ok hhsqx ?_
    refine bind_eq_of_ok hhcby ?_
    refine bind_eq_of_ok hz' ?_
    refine bind_eq_of_ok hrsq ?_
    refine bind_eq_of_ok hry ?_
    rfl

/-- The curve over the residues, for any coefficient `b` -/
def EcdsaCurve.weierstrass (curve : EcdsaCurve) (b : ZMod curve.prime.value) : Jacobian (ZMod curve.prime.value) where
  a₁ := 0
  a₂ := 0
  a₃ := 0
  a₄ := curve.a
  a₆ := b

variable {b : ZMod curve.prime.value}

theorem weierstrass_negY (P : Fin 3 → ZMod curve.prime.value) : (curve.weierstrass b).negY P = -P 1 := by
  rw [negY]
  simp [EcdsaCurve.weierstrass]

theorem weierstrass_dblU (P : Fin 3 → ZMod curve.prime.value) : (curve.weierstrass b).dblU P = -(3 * P 0 ^ 2 + curve.a * P 2 ^ 4) := by
  rw [dblU_eq]
  simp [EcdsaCurve.weierstrass]

theorem weierstrass_dblXYZ {M : ZMod curve.prime.value} (hM : 2 * M = 3 * X ^ 2 + curve.a * Z ^ 4) :
    (curve.weierstrass b).dblXYZ ![X, Y, Z] =
      (2 : ZMod curve.prime.value) • ![M ^ 2 - 2 * (X * Y ^ 2), M * (X * Y ^ 2 - (M ^ 2 - 2 * (X * Y ^ 2))) - Y ^ 4, Y * Z] := by
  have hU : (curve.weierstrass b).dblU ![X, Y, Z] = -(2 * M) := by
    rw [weierstrass_dblU, hM]
    rfl
  have hX : (curve.weierstrass b).dblX ![X, Y, Z] = 2 ^ 2 * (M ^ 2 - 2 * (X * Y ^ 2)) := by
    rw [dblX, hU, weierstrass_negY]
    simp [EcdsaCurve.weierstrass]
    ring
  have hY : (curve.weierstrass b).dblY ![X, Y, Z] = 2 ^ 3 * (M * (X * Y ^ 2 - (M ^ 2 - 2 * (X * Y ^ 2))) - Y ^ 4) := by
    rw [dblY, weierstrass_negY]
    simp only [Matrix.cons_val_one, Matrix.cons_val_zero]
    rw [negDblY, hX, hU, weierstrass_negY]
    simp
    ring
  have hZ : (curve.weierstrass b).dblZ ![X, Y, Z] = 2 * (Y * Z) := by
    rw [dblZ, weierstrass_negY]
    simp
    ring
  rw [dblXYZ, hX, hY, hZ, smul_fin3]
  simp

theorem two_isUnit (h : curve.Supported) : IsUnit (2 : ZMod curve.prime.value) :=
  .of_mul_eq_one _ (by rw [← half_mul_two h 1, one_mul])

theorem pointJacobianDouble_doubles (h : curve.Supported) (hp : p.Represents curve ![X, Y, Z]) (b : ZMod curve.prime.value) :
    ∃ q Q, pointJacobianDouble p curve = ok q ∧ q.Represents curve Q ∧
      (curve.weierstrass b).dblXYZ ![X, Y, Z] = (2 : ZMod curve.prime.value) • Q ∧
      ∀ [Fact curve.prime.value.Prime], (curve.weierstrass b).Nonsingular ![X, Y, Z] → (curve.weierstrass b).Nonsingular Q ∧
        Point.toAffine (curve.weierstrass b) Q =
          Point.toAffine (curve.weierstrass b) ![X, Y, Z] + Point.toAffine (curve.weierstrass b) ![X, Y, Z] := by
  obtain ⟨q, M, hM, hrun, hq⟩ := pointJacobianDouble_residues h hp
  have hdouble := weierstrass_dblXYZ (b := b) (Y := Y) hM
  refine ⟨q, _, hrun, hq, hdouble, ?_⟩
  intro _ hP
  have hadd := nonsingular_add hP hP
  have hgroup := Point.toAffine_add hP hP
  rw [add_self, hdouble] at hadd hgroup
  rw [Point.toAffine_smul _ (two_isUnit h)] at hgroup
  exact ⟨(nonsingular_smul _ (two_isUnit h)).mp hadd, hgroup⟩

theorem secp256k1_supported : secp256k1.Supported where
  modulus := secp256k1Prime_modulus
  odd := by
    change secp256k1Prime.value % 2 = 1
    rw [secp256k1Prime_value]
    norm_num
  a := by decide

theorem secp256k1G_x : Residue secp256k1.prime 2 secp256k1G.x.value secp256k1G.x :=
  ⟨secp256k1G_normalized.1, secp256k1G_lt.1.trans_le (Nat.le_mul_of_pos_left _ (by decide)), rfl⟩

theorem secp256k1G_y : Residue secp256k1.prime 2 secp256k1G.y.value secp256k1G.y :=
  ⟨secp256k1G_normalized.2, secp256k1G_lt.2.trans_le (Nat.le_mul_of_pos_left _ (by decide)), rfl⟩

theorem secp256k1G_represents :
    JacobianCurvePoint.Represents secp256k1 ![secp256k1G.x.value, secp256k1G.y.value, 1] ⟨secp256k1G.x, secp256k1G.y, bnOne⟩ :=
  ⟨secp256k1G_x, secp256k1G_y, bnOne_residue secp256k1Prime_modulus⟩

theorem secp256k1G_nonsingular : (secp256k1.weierstrass 7).Nonsingular ![secp256k1G.x.value, secp256k1G.y.value, 1] := by
  have hequation : ((secp256k1G.y.value ^ 2 : ℕ) : ZMod secp256k1.prime.value) = (secp256k1G.x.value ^ 3 + 7 : ℕ) :=
    (ZMod.natCast_eq_natCast_iff _ _ _).mpr secp256k1G_equation
  have hdouble : 2 * (secp256k1G.y.value : ZMod secp256k1.prime.value) ≠ 0 := by
    intro hzero
    have hy := (two_isUnit secp256k1_supported).mul_right_eq_zero.mp hzero
    rw [ZMod.natCast_eq_zero_iff] at hy
    have hlt := Nat.le_of_dvd (by rw [secp256k1G_y_value]; decide) hy
    exact absurd secp256k1G_lt.2 (Nat.not_lt_of_le hlt)
  have ha : (secp256k1.a : ZMod secp256k1.prime.value) = 0 := Int.cast_zero
  push_cast at hequation
  rw [nonsingular_some, Affine.nonsingular_iff', Affine.equation_iff]
  simp only [EcdsaCurve.weierstrass, ha]
  refine ⟨?_, .inr ?_⟩
  · rw [hequation]
    ring
  · rwa [zero_mul, add_zero, add_zero]

theorem pointJacobianDouble_doubles_generator :
    ∃ q Q, pointJacobianDouble ⟨secp256k1G.x, secp256k1G.y, bnOne⟩ secp256k1 = ok q ∧ q.Represents secp256k1 Q ∧
      (secp256k1.weierstrass 7).dblXYZ ![secp256k1G.x.value, secp256k1G.y.value, 1] = (2 : ZMod secp256k1.prime.value) • Q ∧
      (secp256k1.weierstrass 7).Nonsingular Q ∧ Point.toAffine (secp256k1.weierstrass 7) Q =
        Point.toAffine (secp256k1.weierstrass 7) ![secp256k1G.x.value, secp256k1G.y.value, 1] +
          Point.toAffine (secp256k1.weierstrass 7) ![secp256k1G.x.value, secp256k1G.y.value, 1] := by
  obtain ⟨q, Q, hrun, hq, hdouble, hgroup⟩ := pointJacobianDouble_doubles secp256k1_supported secp256k1G_represents 7
  exact ⟨q, Q, hrun, hq, hdouble, hgroup secp256k1G_nonsingular⟩

theorem weierstrass_addXYZ (h : curve.Supported) (hP : (curve.weierstrass b).Equation ![X1, Y1, 1]) (hQ : (curve.weierstrass b).Equation ![X, Y, Z])
    {R H T : ZMod curve.prime.value} (hR : R = Y1 * Z ^ 3 - Y) (hH : H = X1 * Z ^ 2 - X)
    (hT : 2 * T = R * (H ^ 2 * (X1 * Z ^ 2 + X) - 2 * (R ^ 2 - H ^ 2 * (X1 * Z ^ 2 + X))) - H ^ 3 * (Y1 * Z ^ 3 + Y)) :
    Z • (curve.weierstrass b).addXYZ ![X1, Y1, 1] ![X, Y, Z] = ![R ^ 2 - H ^ 2 * (X1 * Z ^ 2 + X), T, H * Z] := by
  have hZ : addZ ![X1, Y1, 1] ![X, Y, Z] = H := by
    rw [addZ, hH]
    simp
  have hX : Z ^ 2 * (curve.weierstrass b).addX ![X1, Y1, 1] ![X, Y, Z] = R ^ 2 - H ^ 2 * (X1 * Z ^ 2 + X) := by
    have hgeneral := addX_eq' hP hQ
    rw [hZ] at hgeneral
    simp [EcdsaCurve.weierstrass] at hgeneral ⊢
    rw [hR]
    linear_combination hgeneral
  have hnegY : Z ^ 3 * (curve.weierstrass b).negAddY ![X1, Y1, 1] ![X, Y, Z] =
      R * (R ^ 2 - H ^ 2 * (X1 * Z ^ 2 + X) - X1 * Z ^ 2 * H ^ 2) + Y1 * Z ^ 3 * H ^ 3 := by
    have hgeneral : (curve.weierstrass b).negAddY ![X1, Y1, 1] ![X, Y, Z] * _ = _ := negAddY_eq' _ _
    rw [hZ] at hgeneral
    simp at hgeneral
    rw [← hX, hR]
    linear_combination hgeneral
  have hY : Z ^ 3 * (curve.weierstrass b).addY ![X1, Y1, 1] ![X, Y, Z] = T := by
    apply (two_isUnit h).mul_left_cancel
    rw [addY, weierstrass_negY, hT]
    simp only [Matrix.cons_val_one, Matrix.cons_val_zero]
    have hdifference : R * H ^ 2 * (X1 * Z ^ 2 - X) = H ^ 3 * (Y1 * Z ^ 3 - Y) := by
      rw [← hR, ← hH]
      ring
    linear_combination (-2) * hnegY + hdifference
  rw [addXYZ, smul_fin3, ← hX, ← hY, hZ, mul_comm H Z]
  rfl

/-- Addition of an affine point that is not the negative is doubling where the first coordinates agree. -/
theorem weierstrass_double_added (h : curve.Supported) {R H T : ZMod curve.prime.value} (hx : X1 * Z ^ 2 = X) (hy : Y1 * Z ^ 3 = Y)
    (hR : R = 3 * X ^ 2 + curve.a * Z ^ 4) (hH : H = Y1 * Z ^ 3 + Y)
    (hT : 2 * T = R * (H ^ 2 * (X1 * Z ^ 2 + X) - 2 * (R ^ 2 - H ^ 2 * (X1 * Z ^ 2 + X))) - H ^ 3 * (Y1 * Z ^ 3 + Y)) :
    (curve.weierstrass b).dblXYZ ![X, Y, Z] = ![R ^ 2 - H ^ 2 * (X1 * Z ^ 2 + X), T, H * Z] := by
  have hM := half_mul_two h R
  generalize R * 2⁻¹ = M at hM
  have hHY : H = 2 * Y := by
    rw [hH, hy]
    ring
  rw [hx, hy, hHY, ← hM] at hT
  have hTM : T = 2 ^ 3 * (M * (X * Y ^ 2 - (M ^ 2 - 2 * (X * Y ^ 2))) - Y ^ 4) := by
    apply (two_isUnit h).mul_left_cancel
    linear_combination hT
  have hXM : R ^ 2 - H ^ 2 * (X1 * Z ^ 2 + X) = 2 ^ 2 * (M ^ 2 - 2 * (X * Y ^ 2)) := by
    rw [hx, hHY, ← hM]
    ring
  rw [weierstrass_dblXYZ (hM.trans hR), smul_fin3, hXM, hTM, hHY, mul_assoc]
  rfl

theorem toAffine_eq_zero_iff [Fact curve.prime.value.Prime] {Q : Fin 3 → ZMod curve.prime.value}
    (h : Q 2 ≠ 0 → (curve.weierstrass b).Nonsingular Q) : Point.toAffine (curve.weierstrass b) Q = 0 ↔ Q 2 = 0 := by
  constructor
  · intro hzero
    by_contra hne
    rw [Point.toAffine_of_Z_ne_zero (h hne) hne] at hzero
    exact Affine.Point.some_ne_zero _ hzero
  · exact Point.toAffine_of_Z_eq_zero

theorem pointJacobianAdd_group (h : curve.Supported) (hp1x : Residue curve.prime 2 X1 p1.x) (hp1y : Residue curve.prime 2 Y1 p1.y)
    (hp2 : p2.Represents curve ![X, Y, Z]) (b : ZMod curve.prime.value) :
    ∃ q Q, pointJacobianAdd p1 p2 curve = ok q ∧ q.Represents curve Q ∧
      ∀ [Fact curve.prime.value.Prime], (curve.weierstrass b).Nonsingular ![X1, Y1, 1] → (curve.weierstrass b).Nonsingular ![X, Y, Z] →
        Z ≠ 0 → (Q 2 ≠ 0 → (curve.weierstrass b).Nonsingular Q) ∧ Point.toAffine (curve.weierstrass b) Q =
          Point.toAffine (curve.weierstrass b) ![X1, Y1, 1] + Point.toAffine (curve.weierstrass b) ![X, Y, Z] := by
  obtain ⟨q, T, hT, hrun, hq⟩ := pointJacobianAdd_residues h hp1x hp1y hp2 rfl rfl
  refine ⟨q, _, hrun, hq, ?_⟩
  intro _ hP hQ hZ
  by_cases hx : X1 * Z ^ 2 = X
  · simp only [if_pos hx] at hT ⊢
    by_cases hy : Y1 * Z ^ 3 = Y
    · have hequiv : (![X1, Y1, 1] : Fin 3 → ZMod curve.prime.value) ≈ ![X, Y, Z] :=
        equiv_of_X_eq_of_Y_eq one_ne_zero hZ (by simpa using hx) (by simpa using hy)
      rw [← weierstrass_double_added (b := b) h hx hy rfl rfl hT, ← add_self]
      refine ⟨fun _ => nonsingular_add hQ hQ, ?_⟩
      rw [Point.toAffine_add hQ hQ, Point.toAffine_of_equiv hequiv]
    · have hzero := Y_sub_Y_mul_Y_sub_negY hP.left hQ.left (by simpa using hx)
      rw [weierstrass_negY] at hzero
      have hneg : Y1 * Z ^ 3 = -Y := by
        have hfactor : (Y1 * Z ^ 3 - Y) * (Y1 * Z ^ 3 + Y) = 0 := by simpa using hzero
        exact eq_neg_of_add_eq_zero_left ((mul_eq_zero.mp hfactor).resolve_left (sub_ne_zero.mpr hy))
      have hequiv : (![X1, Y1, 1] : Fin 3 → ZMod curve.prime.value) ≈ (curve.weierstrass b).neg ![X, Y, Z] := by
        apply equiv_of_X_eq_of_Y_eq one_ne_zero hZ
        · simpa [neg] using hx
        · simpa [neg, weierstrass_negY] using hneg
      have hinfinity : (Y1 * Z ^ 3 + Y) * Z = 0 := by rw [hneg, neg_add_cancel, zero_mul]
      rw [Point.toAffine_of_equiv hequiv, Point.toAffine_neg hQ, neg_add_cancel]
      exact ⟨fun hne => absurd hinfinity hne, Point.toAffine_of_Z_eq_zero hinfinity⟩
  · simp only [if_neg hx] at hT ⊢
    have hequiv : ¬ (![X1, Y1, 1] : Fin 3 → ZMod curve.prime.value) ≈ ![X, Y, Z] := fun hequiv => hx (by simpa using X_eq_of_equiv hequiv)
    rw [← weierstrass_addXYZ h hP.left hQ.left rfl rfl hT, ← add_of_not_equiv hequiv, nonsingular_smul _ hZ.isUnit,
      Point.toAffine_smul _ hZ.isUnit, Point.toAffine_add hP hQ]
    exact ⟨fun _ => nonsingular_add hP hQ, rfl⟩

theorem pointJacobianAdd_adds (h : curve.Supported) (hp1x : Residue curve.prime 2 X1 p1.x) (hp1y : Residue curve.prime 2 Y1 p1.y)
    (hp2 : p2.Represents curve ![X, Y, Z]) (b : ZMod curve.prime.value) :
    ∃ q Q, pointJacobianAdd p1 p2 curve = ok q ∧ q.Represents curve Q ∧
      ∀ [Fact curve.prime.value.Prime], (curve.weierstrass b).Nonsingular ![X1, Y1, 1] → (curve.weierstrass b).Nonsingular ![X, Y, Z] →
        Z ≠ 0 → (Q 2 ≠ 0 → (curve.weierstrass b).Nonsingular Q) ∧
          (Q 2 = 0 ↔ Point.toAffine (curve.weierstrass b) ![X1, Y1, 1] + Point.toAffine (curve.weierstrass b) ![X, Y, Z] = 0) ∧
          Point.toAffine (curve.weierstrass b) Q =
            Point.toAffine (curve.weierstrass b) ![X1, Y1, 1] + Point.toAffine (curve.weierstrass b) ![X, Y, Z] := by
  obtain ⟨q, Q, hrun, hq, hgroup⟩ := pointJacobianAdd_group h hp1x hp1y hp2 b
  refine ⟨q, Q, hrun, hq, ?_⟩
  intro _ hP hQ hZ
  obtain ⟨hnonsingular, hsum⟩ := hgroup hP hQ hZ
  refine ⟨hnonsingular, ?_, hsum⟩
  rw [← hsum]
  exact (toAffine_eq_zero_iff hnonsingular).symm

theorem secp256k1G_negative :
    Residue secp256k1.prime 2 (-secp256k1G.y.value) (bnSubtract secp256k1Prime secp256k1G.y) := by
  have hvalue := bnSubtract_value secp256k1Prime_modulus.normalized secp256k1G_normalized.2
  have hlt := secp256k1G_lt.2
  have hprime := secp256k1Prime_modulus.normalized.value_lt
  rw [Nat.add_sub_assoc hlt.le, Nat.add_mod_left, Nat.mod_eq_of_lt (by omega)] at hvalue
  refine ⟨bnSubtract_normalized _ _, ?_, ?_⟩
  · change _ < 2 * secp256k1Prime.value
    omega
  · change ((bnSubtract secp256k1Prime secp256k1G.y).value : ZMod secp256k1Prime.value) = _
    rw [hvalue, Nat.cast_sub hlt.le, ZMod.natCast_self, zero_sub]
    rfl

/-- The generator added to itself and to its negative -/
theorem pointJacobianAdd_adds_generator :
    (∃ q Q, pointJacobianAdd secp256k1G ⟨secp256k1G.x, secp256k1G.y, bnOne⟩ secp256k1 = ok q ∧ q.Represents secp256k1 Q ∧
      Point.toAffine (secp256k1.weierstrass 7) Q =
        Point.toAffine (secp256k1.weierstrass 7) ![secp256k1G.x.value, secp256k1G.y.value, 1] +
          Point.toAffine (secp256k1.weierstrass 7) ![secp256k1G.x.value, secp256k1G.y.value, 1]) ∧
    ∃ q Q, pointJacobianAdd secp256k1G ⟨secp256k1G.x, bnSubtract secp256k1Prime secp256k1G.y, bnOne⟩ secp256k1 = ok q ∧
      q.Represents secp256k1 Q ∧ Q 2 = 0 := by
  have hone : (1 : ZMod secp256k1.prime.value) ≠ 0 := one_ne_zero
  have hnegative : (secp256k1.weierstrass 7).neg ![secp256k1G.x.value, secp256k1G.y.value, 1] =
      ![(secp256k1G.x.value : ZMod secp256k1.prime.value), -secp256k1G.y.value, 1] := by
    rw [Jacobian.neg, weierstrass_negY]
    rfl
  have hrepresents : JacobianCurvePoint.Represents secp256k1 ![secp256k1G.x.value, -secp256k1G.y.value, 1]
      ⟨secp256k1G.x, bnSubtract secp256k1Prime secp256k1G.y, bnOne⟩ :=
    ⟨secp256k1G_x, secp256k1G_negative, bnOne_residue secp256k1Prime_modulus⟩
  constructor
  · obtain ⟨q, Q, hrun, hq, hgroup⟩ := pointJacobianAdd_adds secp256k1_supported secp256k1G_x secp256k1G_y secp256k1G_represents 7
    exact ⟨q, Q, hrun, hq, (hgroup secp256k1G_nonsingular secp256k1G_nonsingular hone).2.2⟩
  · obtain ⟨q, Q, hrun, hq, hgroup⟩ := pointJacobianAdd_adds secp256k1_supported secp256k1G_x secp256k1G_y hrepresents 7
    have hnonsingular := nonsingular_neg secp256k1G_nonsingular
    have hzero := Point.toAffine_neg secp256k1G_nonsingular
    rw [hnegative] at hnonsingular hzero
    refine ⟨q, Q, hrun, hq, (hgroup secp256k1G_nonsingular hnonsingular hone).2.1.mpr ?_⟩
    rw [hzero, add_neg_cancel]

end TronlinkCore.TrezorCrypto
