import Mathlib.Algebra.Order.Archimedean.Basic
import Mathlib.Algebra.Order.Field.Basic
import Mathlib.Data.Int.Log
import Mathlib.Data.Rat.Floor
import Mathlib.Tactic.FieldSimp
import Mathlib.Tactic.Linarith
import Mathlib.Tactic.NormNum
import Mathlib.Tactic.Positivity

/-!
Rounding down to a multiple of a unit, and the unit that keeps the three
leading digits of a number, but at most one digit after the point.
-/

namespace TronlinkCore.Rounding

def roundedDown (u v : ℚ) : ℚ := ⌊v / u⌋ * u

section

variable {u v w : ℚ} (hu : 0 < u)

include hu

theorem roundedDown_le : roundedDown u v ≤ v := (le_div_iff₀ hu).mp (Int.floor_le (v / u))

theorem lt_roundedDown_add : v < roundedDown u v + u := by
  have hlt := (div_lt_iff₀ hu).mp (Int.lt_floor_add_one (v / u))
  rwa [add_mul, one_mul] at hlt

theorem roundedDown_mono (h : v ≤ w) : roundedDown u v ≤ roundedDown u w := by
  have hfloor : ⌊v / u⌋ ≤ ⌊w / u⌋ := Int.floor_le_floor (div_le_div_of_nonneg_right h hu.le)
  exact mul_le_mul_of_nonneg_right (Int.cast_le.mpr hfloor) hu.le

theorem roundedDown_multiple (n : ℤ) : roundedDown u (n * u) = n * u := by
  rw [roundedDown, mul_div_cancel_right₀ _ hu.ne', Int.floor_intCast]

theorem roundedDown_nonneg (h : 0 ≤ v) : 0 ≤ roundedDown u v := by
  have hfloor : 0 ≤ ⌊v / u⌋ := Int.floor_nonneg.mpr (div_nonneg h hu.le)
  exact mul_nonneg (by exact_mod_cast hfloor) hu.le

theorem le_roundedDown {n : ℤ} (h : n * u ≤ v) : n * u ≤ roundedDown u v := by
  rw [← roundedDown_multiple hu n]
  exact roundedDown_mono hu h

end

/-- The power of ten two places below the leading digit, but at least a tenth -/
def leadingUnit (v : ℚ) : ℚ := max (1 / 10) (10 ^ (Int.log 10 v - 2))

/-- The number has `k` digits more than two before the point, or at most two. -/
structure Scale (v : ℚ) (k : ℕ) : Prop where
  lt : v < 10 ^ (k + 2)
  le : k = 0 ∨ 10 ^ (k + 1) ≤ v

theorem exists_scale (v : ℚ) : ∃ k, Scale v k := by
  have hlarge : ∃ k : ℕ, v < 10 ^ (k + 2) := by
    obtain ⟨k, hk⟩ := pow_unbounded_of_one_lt v (by norm_num : (1 : ℚ) < 10)
    exact ⟨k, hk.trans_le (pow_le_pow_right₀ (by norm_num) (Nat.le_add_right k 2))⟩
  refine ⟨Nat.find hlarge, Nat.find_spec hlarge, ?_⟩
  rcases Nat.eq_zero_or_pos (Nat.find hlarge) with hzero | hpos
  · exact .inl hzero
  · right
    have hmin := Nat.find_min hlarge (Nat.pred_lt hpos.ne')
    have hpred : (Nat.find hlarge).pred + 2 = Nat.find hlarge + 1 := by
      have hsucc := Nat.succ_pred_eq_of_pos hpos
      omega
    rw [hpred] at hmin
    exact not_lt.mp hmin

namespace Scale

variable {v w : ℚ} {k j : ℕ}

theorem mono (hv : Scale v k) (hw : Scale w j) (h : v ≤ w) : k ≤ j := by
  rcases hv.le with rfl | hle
  · exact Nat.zero_le j
  · have hlt : (10 : ℚ) ^ (k + 1) < 10 ^ (j + 2) := hle.trans_lt (h.trans_lt hw.lt)
    have hexponents := (pow_lt_pow_iff_right₀ (by norm_num : (1 : ℚ) < 10)).mp hlt
    omega

theorem leadingUnit_eq (h : Scale v k) (hv : 0 ≤ v) : leadingUnit v = 10 ^ k / 10 := by
  rcases hv.eq_or_lt with rfl | hpos
  · have hk : k = 0 := by
      rcases h.le with hk | hle
      · exact hk
      · have hpow : (0 : ℚ) < 10 ^ (k + 1) := by positivity
        exact absurd hle (not_le.mpr hpow)
    rw [leadingUnit, Int.log_zero_right, hk]
    norm_num
  · rcases h.le with rfl | hle
    · have hlog : Int.log 10 v < 2 := by
        apply (Int.lt_zpow_iff_log_lt (by norm_num) hpos).mp
        exact_mod_cast h.lt
      have hpow : (10 : ℚ) ^ (Int.log 10 v - 2) ≤ 10 ^ (-1 : ℤ) := zpow_le_zpow_right₀ (by norm_num) (by omega)
      rw [leadingUnit, max_eq_left (hpow.trans (by norm_num))]
      norm_num
    · have hlow : (k : ℤ) + 1 ≤ Int.log 10 v := by
        apply (Int.zpow_le_iff_le_log (by norm_num) hpos).mp
        exact_mod_cast hle
      have hhigh : Int.log 10 v < k + 2 := by
        apply (Int.lt_zpow_iff_log_lt (by norm_num) hpos).mp
        exact_mod_cast h.lt
      have hlog : Int.log 10 v - 2 = (k : ℤ) - 1 := by omega
      have hpow : (10 : ℚ) ^ ((k : ℤ) - 1) = 10 ^ k / 10 := by
        rw [zpow_sub_one₀ (by norm_num), zpow_natCast, div_eq_mul_inv]
      rw [leadingUnit, hlog, hpow, max_eq_right]
      exact div_le_div_of_nonneg_right (one_le_pow₀ (by norm_num)) (by norm_num)

theorem unit_pos (k : ℕ) : (0 : ℚ) < 10 ^ k / 10 := by positivity

theorem rounded (h : Scale v k) : Scale (roundedDown (10 ^ k / 10) v) k where
  lt := (roundedDown_le (unit_pos k)).trans_lt h.lt
  le := by
    refine h.le.imp id ?_
    intro hle
    have hmultiple : ((100 : ℤ) : ℚ) * (10 ^ k / 10) = 10 ^ (k + 1) := by
      rw [pow_succ]
      norm_num
      ring
    rw [← hmultiple] at hle ⊢
    exact le_roundedDown (unit_pos k) hle

theorem rounded_mono (hv : Scale v k) (hw : Scale w j) (h : v ≤ w) :
    roundedDown (10 ^ k / 10) v ≤ roundedDown (10 ^ j / 10) w := by
  rcases (hv.mono hw h).eq_or_lt with rfl | hlt
  · exact roundedDown_mono (unit_pos k) h
  · have hj := hw.rounded.le.resolve_left (by omega)
    have hpow : (10 : ℚ) ^ (k + 2) ≤ 10 ^ (j + 1) := pow_le_pow_right₀ (by norm_num) (by omega)
    exact (hv.rounded.lt.le.trans hpow).trans hj

end Scale

end TronlinkCore.Rounding
