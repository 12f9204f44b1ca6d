import TronlinkCore.TrezorCrypto.Secp256k1

namespace TronlinkCore.TrezorCrypto

open Outcome Limbs Windows

variable {k x prime : Bignum256}

theorem Bignum256.val_eq_limbs (x : Bignum256) : x.val = (List.range 9).map x.limb := by
  obtain ⟨val, hlen⟩ := x
  apply List.ext_getElem?
  intro i
  rw [List.getElem?_map]
  rcases Nat.lt_or_ge i 9 with hi | hi
  · obtain ⟨limb, hlimb⟩ : ∃ limb, val[i]? = some limb := ⟨_, List.getElem?_eq_getElem (hlen ▸ hi)⟩
    rw [List.getElem?_range hi, hlimb]
    simp [Bignum256.limb, hlimb]
  · rw [List.getElem?_eq_none (hlen ▸ hi), List.getElem?_eq_none (by rw [List.length_range]; exact hi)]
    rfl

theorem Bignum256.value_eq_limbs (x : Bignum256) : x.value = Nat.ofDigits (2 ^ 30) ((List.range 9).map fun i => (x.limb i).toNat) := by
  rw [Bignum256.value, x.val_eq_limbs, Limbs.value, List.map_map]
  rfl

theorem Bignum256.Normalized.limb_le (h : x.Normalized) (i : ℕ) : (x.limb i).toNat ≤ 2 ^ 30 - 1 := by
  rcases Nat.lt_or_ge i 9 with hi | hi
  · exact Nat.le_sub_one_of_lt (h.limb_lt hi)
  · rw [Bignum256.limb, List.getD_eq_default _ _ (x.length_val ▸ hi)]
    decide

theorem products_toNat (hk : k.Normalized) (hx : x.Normalized) (i : ℕ) {js : List ℕ} (hjs : js.length ≤ 9) :
    (products k x i js).toNat = (js.map fun j => (k.limb j).toNat * (x.limb (i - j)).toNat).sum ∧
      (products k x i js).toNat + 2 ^ 34 ≤ 2 ^ 64 := by
  have hproduct (j : ℕ) : (k.limb j).toNat * (x.limb (i - j)).toNat ≤ (2 ^ 30 - 1) * (2 ^ 30 - 1) :=
    Nat.mul_le_mul (hk.limb_le j) (hx.limb_le (i - j))
  have hterm (j : ℕ) : (u64 (k.limb j) * u64 (x.limb (i - j))).toNat = (k.limb j).toNat * (x.limb (i - j)).toNat := by
    have := hproduct j
    rw [BitVec.toNat_mul, toNat_u64, toNat_u64, Nat.mod_eq_of_lt (by omega)]
  have hsum : (js.map fun j => (k.limb j).toNat * (x.limb (i - j)).toNat).sum ≤ js.length * ((2 ^ 30 - 1) * (2 ^ 30 - 1)) := by
    have h := List.sum_le_card_nsmul (js.map fun j => (k.limb j).toNat * (x.limb (i - j)).toNat) ((2 ^ 30 - 1) * (2 ^ 30 - 1)) (by
      rw [List.forall_mem_map]
      exact fun j _ => hproduct j)
    rwa [List.length_map, smul_eq_mul] at h
  have hle := hsum.trans (Nat.mul_le_mul_right _ hjs)
  have hvalue : (products k x i js).toNat = (js.map fun j => (k.limb j).toNat * (x.limb (i - j)).toNat).sum := by
    rw [products, toNat_sum, List.map_map]
    have hmap : js.map (BitVec.toNat ∘ fun j => u64 (k.limb j) * u64 (x.limb (i - j))) =
        js.map fun j => (k.limb j).toNat * (x.limb (i - j)).toNat := List.map_congr_left fun j _ => hterm j
    rw [hmap, Nat.mod_eq_of_lt (by omega)]
  exact ⟨hvalue, by omega⟩

theorem ofDigits_columns (b : ℕ) (k x : ℕ → ℕ) :
    Nat.ofDigits b (((List.range 9).map fun i => ((List.range (i + 1)).map fun j => k j * x (i - j)).sum) ++
        (List.range' 9 8).map fun i => ((List.range' (i - 8) (17 - i)).map fun j => k j * x (i - j)).sum) =
      Nat.ofDigits b ((List.range 9).map k) * Nat.ofDigits b ((List.range 9).map x) := by
  simp only [List.range, List.range.loop, List.range', List.map_cons, List.map_nil, List.cons_append, List.nil_append, List.sum_cons,
    List.sum_nil, Nat.ofDigits_cons, Nat.ofDigits_nil, Nat.reduceAdd, Nat.reduceSub]
  ring

theorem bnMultiplyLong_value (hk : k.Normalized) (hx : x.Normalized) : (bnMultiplyLong k x).length = 18 ∧
    Limbs.Normalized 30 (bnMultiplyLong k x) ∧ Limbs.value 30 (bnMultiplyLong k x) = k.value * x.value := by
  let lower := (List.range 9).map fun i => products k x i (List.range (i + 1))
  let upper := (List.range' 9 8).map fun i => products k x i (List.range' (i - 8) (17 - i))
  have hlower : ∀ i ∈ List.range 9, (List.range (i + 1)).length ≤ 9 := by
    intro i hi
    rw [List.length_range]
    exact List.mem_range.mp hi
  have hupper : ∀ i ∈ List.range' 9 8, (List.range' (i - 8) (17 - i)).length ≤ 9 := by
    intro i hi
    have := List.mem_range'_1.mp hi
    rw [List.length_range']
    omega
  have hbound : ∀ d ∈ lower ++ upper, d.toNat + 2 ^ 34 ≤ 2 ^ 64 := by
    rw [List.forall_mem_append, List.forall_mem_map, List.forall_mem_map]
    exact ⟨fun i hi => (products_toNat hk hx i (hlower i hi)).2, fun i hi => (products_toNat hk hx i (hupper i hi)).2⟩
  have hcolumns : Limbs.value 30 (lower ++ upper) = k.value * x.value := by
    rw [Limbs.value, List.map_append, List.map_map, List.map_map, k.value_eq_limbs, x.value_eq_limbs, ← ofDigits_columns]
    congr 2
    · exact List.map_congr_left fun i hi => (products_toNat hk hx i (hlower i hi)).1
    · exact List.map_congr_left fun i hi => (products_toNat hk hx i (hupper i hi)).1
  have hlen : (lower ++ upper).length = 17 := by simp [lower, upper]
  have hcarries := carries_value (w := 30) (by decide) (by decide : (0 : BitVec 64).toNat < 2 ^ 34) hbound
  have hzero : (0 : BitVec 64).toNat = 0 := rfl
  rw [hlen, hzero, Nat.zero_add, hcolumns] at hcarries
  have hkx : k.value * x.value < (2 ^ 30) ^ 9 * (2 ^ 30) ^ 9 := Nat.mul_lt_mul'' hk.value_lt hx.value_lt
  have hnormalized := carries_normalized (w := 30) (by decide) 0 (lower ++ upper)
  have hlimbs : Limbs.Normalized 30 ((carries 30 0 (lower ++ upper)).1 ++ [(carries 30 0 (lower ++ upper)).2]) := by
    rw [normalized_append, normalized_cons]
    exact ⟨hnormalized, by omega, .nil⟩
  have hwidth := value_map_setWidth (by decide : 30 ≤ 32) hlimbs
  refine ⟨by simp [bnMultiplyLong], hwidth.2, hwidth.1.trans ?_⟩
  rw [value_append, carries_length, hlen, value_cons, value_nil, Nat.mul_zero, Nat.add_zero]
  exact hcarries

theorem exists_limbs {res : List (BitVec 32)} {k : ℕ} (hk : k ≤ 8) (hlen : res.length = 18) :
    ∃ low mid : List (BitVec 32), ∃ top above : BitVec 32, ∃ high,
      res = low ++ (mid ++ [top, above] ++ high) ∧ low.length = k ∧ mid.length = 8 ∧ high.length = 8 - k := by
  obtain ⟨top, htop⟩ : ∃ top, res[k + 8]? = some top := ⟨_, List.getElem?_eq_getElem (by omega)⟩
  obtain ⟨above, habove⟩ : ∃ above, res[k + 9]? = some above := ⟨_, List.getElem?_eq_getElem (by omega)⟩
  refine ⟨res.take k, (res.drop k).take 8, top, above, res.drop (k + 10), ?_, ?_, ?_, ?_⟩
  · have h8 : res.drop (k + 8) = top :: above :: res.drop (k + 10) := by
      rw [List.drop_eq_getElem?_toList_append, htop, List.drop_eq_getElem?_toList_append, habove]
      rfl
    have hmid : res.drop k = (res.drop k).take 8 ++ res.drop (k + 8) := by
      rw [← List.drop_drop, List.take_append_drop]
    conv_lhs => rw [← List.take_append_drop k res, hmid, h8]
    simp
  · rw [List.length_take]
    omega
  · rw [List.length_take, List.length_drop]
    omega
  · rw [List.length_drop]
    omega

theorem coef_toNat {top above : BitVec 32} (htop : top.toNat < 2 ^ 30) (habove : above.toNat < 2 ^ 17) :
    ((top >>> 16) + (above <<< 14)).toNat = (top.toNat + 2 ^ 30 * above.toNat) / 2 ^ 16 ∧
      ((top >>> 16) + (above <<< 14)).toNat < 2 ^ 31 := by
  have hshift : (above <<< 14).toNat = 2 ^ 14 * above.toNat := by
    rw [BitVec.toNat_shiftLeft, Nat.shiftLeft_eq]
    omega
  rw [BitVec.toNat_add, hshift, BitVec.toNat_ushiftRight, Nat.shiftRight_eq_div_pow]
  omega

theorem value_reduceTerms (hprime : prime.Normalized) {coef above : BitVec 32} (hcoef : coef.toNat < 2 ^ 31) {xs : List (BitVec 32)}
    (hxs : xs.length = 9) (hle : coef.toNat * prime.value ≤ Limbs.value 30 xs + (2 ^ 30) ^ 9 * above.toNat)
    (hlt : Limbs.value 30 xs + (2 ^ 30) ^ 9 * above.toNat - coef.toNat * prime.value < (2 ^ 30) ^ 10) :
    let out := (carries 30 0 (reduced coef (xs.zip prime.val) ++ [0x1FFFFFFF80000000 + u64 above])).1.map (BitVec.setWidth 32)
    out.length = 10 ∧ Limbs.Normalized 30 out ∧
      Limbs.value 30 out + coef.toNat * prime.value = Limbs.value 30 xs + (2 ^ 30) ^ 9 * above.toNat := by
  have hlen : xs.length = prime.val.length := hxs.trans prime.length_val.symm
  have hlimbs : ∀ limbs ∈ xs.zip prime.val, limbs.2.toNat < 2 ^ 30 := fun limbs hmem => hprime _ (List.of_mem_zip hmem).2
  have hzip : (xs.zip prime.val).length = 9 := by rw [List.length_zip, ← hlen, hxs, Nat.min_self]
  have hne : xs.zip prime.val ≠ [] := List.ne_nil_of_length_pos (by rw [hzip]; decide)
  have hreduced := value_reduced hcoef hlimbs hne
  have hfst : Nat.ofDigits (2 ^ 30) ((xs.zip prime.val).map fun limbs => limbs.1.toNat) = Limbs.value 30 xs := by
    rw [map_zip_fst _ hlen]
    rfl
  have hsnd : Nat.ofDigits (2 ^ 30) ((xs.zip prime.val).map fun limbs => limbs.2.toNat) = prime.value := by
    rw [map_zip_snd _ hlen]
    rfl
  rw [hfst, hsnd, hzip] at hreduced
  have hlast : (0x1FFFFFFF80000000 + u64 above).toNat = 2 ^ 61 - 2 ^ 31 + above.toNat := by
    have habove := above.isLt
    rw [BitVec.toNat_add, toNat_u64]
    change (2 ^ 61 - 2 ^ 31 + above.toNat) % 2 ^ 64 = _
    omega
  have hbound : ∀ d ∈ reduced coef (xs.zip prime.val) ++ [0x1FFFFFFF80000000 + u64 above], d.toNat + 2 ^ 34 ≤ 2 ^ 64 := by
    rw [List.forall_mem_append, List.forall_mem_singleton, hlast]
    have habove := above.isLt
    exact ⟨reduced_le hcoef hlimbs, by omega⟩
  have hmod := carries_mod (w := 30) (by decide) (by decide : (0 : BitVec 64).toNat < 2 ^ 34) _ hbound
  have hnormalized := carries_normalized (w := 30) (by decide) 0 (reduced coef (xs.zip prime.val) ++ [0x1FFFFFFF80000000 + u64 above])
  have hwidth := value_map_setWidth (by decide : 30 ≤ 32) hnormalized
  have hzero : (0 : BitVec 64).toNat = 0 := rfl
  have hten : (reduced coef (xs.zip prime.val) ++ [0x1FFFFFFF80000000 + u64 above]).length = 10 := by
    rw [List.length_append, reduced_length, hzip]
    rfl
  rw [hten, value_append, reduced_length, hzip, value_cons, value_nil, hlast, hzero, Nat.zero_add, Nat.mul_zero, Nat.add_zero] at hmod
  refine ⟨by rw [List.length_map, carries_length, hten], hwidth.2, ?_⟩
  rw [hwidth.1, hmod]
  generalize coef.toNat * prime.value = multiple at *
  omega

theorem bnMultiplyReduceStep_value (h : Modulus prime) {res : List (BitVec 32)} {k : ℕ} (hk : k ≤ 8) (hlen : res.length = 18)
    (hres : Limbs.Normalized 30 res) (hlt : Limbs.value 30 res < (2 ^ 30) ^ k * (2 ^ 30 * (2 * prime.value))) :
    ∃ res' coef, bnMultiplyReduceStep res prime (k + 8) = ok res' ∧ res'.length = 18 ∧ Limbs.Normalized 30 res' ∧
      Limbs.value 30 res' + (2 ^ 30) ^ k * (coef * prime.value) = Limbs.value 30 res ∧
      Limbs.value 30 res' < (2 ^ 30) ^ k * (2 * prime.value) := by
  obtain ⟨low, mid, top, above, high, rfl, hlow, hmid, hhigh⟩ := exists_limbs hk hlen
  obtain ⟨hnlow, hnrest⟩ := normalized_append.mp hres
  obtain ⟨hnten, hnhigh⟩ := normalized_append.mp hnrest
  obtain ⟨hnmid, hntop⟩ := normalized_append.mp hnten
  obtain ⟨htop, hnabove⟩ := normalized_cons.mp hntop
  have habove := (normalized_cons.mp hnabove).1
  have hlowlt := hnlow.value_lt
  have hmidlt := hnmid.value_lt
  rw [hlow] at hlowlt
  rw [hmid] at hmidlt
  have hlower := h.lower
  have hupper := h.upper
  -- The ten limbs and those above them
  have hten : (mid ++ [top, above]).length = 10 := by rw [List.length_append, hmid]; rfl
  have hvalue : Limbs.value 30 (low ++ (mid ++ [top, above] ++ high)) =
      Limbs.value 30 low + (2 ^ 30) ^ k * (Limbs.value 30 mid + (2 ^ 30) ^ 8 * (top.toNat + 2 ^ 30 * above.toNat) +
        (2 ^ 30) ^ 10 * Limbs.value 30 high) := by
    rw [value_append, value_append, value_append, hlow, hmid, hten]
    simp
  rw [hvalue] at hlt
  have hrest : Limbs.value 30 mid + (2 ^ 30) ^ 8 * (top.toNat + 2 ^ 30 * above.toNat) + (2 ^ 30) ^ 10 * Limbs.value 30 high <
      2 ^ 30 * (2 * prime.value) := Nat.lt_of_mul_lt_mul_left (Nat.lt_of_le_of_lt (Nat.le_add_left _ _) hlt)
  have hhighzero : Limbs.value 30 high = 0 := by omega
  rw [hhighzero, Nat.mul_zero, Nat.add_zero] at hrest
  obtain ⟨hcoef, hcoeflt⟩ := coef_toNat htop (by omega : above.toNat < 2 ^ 17)
  -- The multiple is not larger than the number, and what is left is below twice the prime.
  have hexcess : ((top >>> 16) + (above <<< 14)).toNat * (2 ^ 256 - prime.value) ≤ 2 ^ 31 * 2 ^ 224 :=
    Nat.mul_le_mul hcoeflt.le (by omega)
  have hsplit : ((top >>> 16) + (above <<< 14)).toNat * prime.value +
      ((top >>> 16) + (above <<< 14)).toNat * (2 ^ 256 - prime.value) = ((top >>> 16) + (above <<< 14)).toNat * 2 ^ 256 := by
    rw [← Nat.mul_add, Nat.add_sub_cancel' hupper.le]
  have hnine : Limbs.value 30 (mid ++ [top]) = Limbs.value 30 mid + (2 ^ 30) ^ 8 * top.toNat := by
    rw [value_append, hmid]
    simp
  have hnineLength : (mid ++ [top]).length = 9 := by rw [List.length_append, hmid]; rfl
  have hle : ((top >>> 16) + (above <<< 14)).toNat * prime.value ≤ Limbs.value 30 (mid ++ [top]) + (2 ^ 30) ^ 9 * above.toNat := by
    rw [hnine]
    omega
  obtain ⟨hout, hnout, hvalout⟩ := value_reduceTerms h.normalized hcoeflt hnineLength hle (by rw [hnine]; omega)
  -- What the round computes, on the parts of the number
  have hget8 : (low ++ (mid ++ [top, above] ++ high)).getD (k + 8) 0 = top := by
    rw [List.getD_append_right _ _ _ _ (by omega), hlow, Nat.add_sub_cancel_left, List.getD_append _ _ _ _ (by omega),
      List.getD_append_right _ _ _ _ (by omega), hmid]
    rfl
  have hget9 : (low ++ (mid ++ [top, above] ++ high)).getD (k + 8 + 1) 0 = above := by
    have hsub : k + 8 + 1 - k = 9 := by omega
    rw [List.getD_append_right _ _ _ _ (by omega), hlow, hsub, List.getD_append _ _ _ _ (by omega),
      List.getD_append_right _ _ _ _ (by omega), hmid]
    rfl
  have hwindow : window (low ++ (mid ++ [top, above] ++ high)) k 9 = mid ++ [top] := by
    rw [window, List.drop_append_of_le_length hlow.ge, List.drop_of_length_le hlow.le, List.nil_append,
      List.take_append_of_le_length (by omega), List.take_append, hmid, List.take_of_length_le (by omega)]
    rfl
  generalize hcarried : (carries 30 0 (reduced ((top >>> 16) + (above <<< 14)) ((mid ++ [top]).zip prime.val) ++
    [0x1FFFFFFF80000000 + u64 above])).1.map (BitVec.setWidth 32) = out at hout hnout hvalout
  have hoverwrite : overwrite (low ++ (mid ++ [top, above] ++ high)) k out = low ++ (out ++ high) := by
    have htake : (low ++ (mid ++ [top, above] ++ high)).take k = low := by
      rw [List.take_append_of_le_length hlow.ge, List.take_of_length_le hlow.le]
    have hdrop : (low ++ (mid ++ [top, above] ++ high)).drop (k + out.length) = high := by
      rw [← List.append_assoc, hout]
      exact List.drop_left' (by rw [List.length_append, hlow, hten])
    have hfit : (low ++ out ++ high).length ≤ (low ++ (mid ++ [top, above] ++ high)).length := by
      rw [hlen, List.length_append, List.length_append, hlow, hout, hhigh]
      omega
    rw [overwrite, htake, hdrop, List.take_of_length_le hfit, List.append_assoc]
  have hresult : Limbs.value 30 (low ++ (out ++ high)) = Limbs.value 30 low + (2 ^ 30) ^ k * Limbs.value 30 out := by
    rw [value_append, value_append, hlow, hhighzero, Nat.mul_zero, Nat.add_zero]
  rw [hnine] at hvalout
  refine ⟨low ++ (out ++ high), ((top >>> 16) + (above <<< 14)).toNat, ?_, ?_, ?_, ?_, ?_⟩
  · have hcheck : (top >>> 16) + (above <<< 14) < (0x80000000 : BitVec 32) := BitVec.lt_def.mpr hcoeflt
    rw [bnMultiplyReduceStep, hget8, hget9, Nat.add_sub_cancel, hwindow, check_true hcheck, ok_bind]
    dsimp only
    rw [hcarried, hoverwrite]
    rfl
  · rw [List.length_append, List.length_append, hlow, hout, hhigh]
    omega
  · exact normalized_append.mpr ⟨hnlow, normalized_append.mpr ⟨hnout, hnhigh⟩⟩
  · rw [hresult, hvalue, hhighzero, Nat.mul_zero, Nat.add_zero, Nat.add_assoc, ← Nat.mul_add, hvalout]
    ring
  · have hfits : Limbs.value 30 out + 1 ≤ 2 * prime.value := by omega
    calc Limbs.value 30 (low ++ (out ++ high)) < (2 ^ 30) ^ k * (Limbs.value 30 out + 1) := by
          rw [hresult, Nat.mul_add, Nat.mul_one]
          omega
      _ ≤ (2 ^ 30) ^ k * (2 * prime.value) := Nat.mul_le_mul_left _ hfits

theorem getD_eq_zero {res : List (BitVec 32)} {i : ℕ} (hi : i < res.length) (hlt : Limbs.value 30 res < (2 ^ 30) ^ i) :
    res.getD i 0 = 0 := by
  have hzero := value_eq_zero_iff.mp (value_drop_eq_zero hi.le hlt)
  obtain ⟨limb, hlimb⟩ : ∃ limb, res[i]? = some limb := ⟨_, List.getElem?_eq_getElem hi⟩
  have hmem : limb ∈ res.drop i := by
    rw [List.drop_eq_getElem?_toList_append, hlimb]
    exact List.mem_cons_self
  rw [List.getD_eq_getElem?_getD, hlimb]
  exact hzero limb hmem

theorem reduceRounds_value (h : Modulus prime) {n : ℕ} (hn : n ≤ 9) {res : List (BitVec 32)} (hlen : res.length = 18)
    (hres : Limbs.Normalized 30 res) (hlt : Limbs.value 30 res < (2 ^ 30) ^ n * (2 * prime.value)) :
    ∃ res' q, ((List.range n).reverse.map (· + 8)).foldlM (fun res i => do
        let res ← bnMultiplyReduceStep res prime i
        check (res.getD (i + 1) 0 = 0)
        return res) res = ok res' ∧
      res'.length = 18 ∧ Limbs.Normalized 30 res' ∧ Limbs.value 30 res' < 2 * prime.value ∧
        Limbs.value 30 res' + q * prime.value = Limbs.value 30 res := by
  induction n generalizing res with
  | zero => exact ⟨res, 0, rfl, hlen, hres, by simpa using hlt, by simp⟩
  | succ n ih =>
    rw [pow_succ, Nat.mul_assoc] at hlt
    obtain ⟨res₁, coef, hstep, hlen₁, hres₁, hvalue₁, hlt₁⟩ := bnMultiplyReduceStep_value h (by omega : n ≤ 8) hlen hres hlt
    have hpower : (2 ^ 30) ^ n * (2 * prime.value) ≤ (2 ^ 30) ^ (n + 8 + 1) := by
      have hupper := h.upper
      rw [Nat.add_assoc, pow_add]
      exact Nat.mul_le_mul_left _ (by omega)
    have hzero : res₁.getD (n + 8 + 1) 0 = 0 := getD_eq_zero (by omega) (hlt₁.trans_le hpower)
    obtain ⟨res₂, q, hrun, hlen₂, hres₂, hlt₂, hvalue₂⟩ := ih (by omega) hlen₁ hres₁ hlt₁
    refine ⟨res₂, q + (2 ^ 30) ^ n * coef, ?_, hlen₂, hres₂, hlt₂, ?_⟩
    · rw [List.range_succ, List.reverse_append, List.reverse_singleton, List.singleton_append, List.map_cons, List.foldlM_cons, hstep,
        ok_bind, check_true hzero, ok_bind]
      exact hrun
    · rw [← hvalue₁, ← hvalue₂]
      ring

theorem bnMultiply_value (h : Modulus prime) (hk : k.Normalized) (hx : x.Normalized)
    (hlt : k.value * x.value < (2 ^ 30) ^ 9 * (2 * prime.value)) :
    ∃ y q, bnMultiply k x prime = ok y ∧ y.Normalized ∧ y.value < 2 * prime.value ∧ y.value + q * prime.value = k.value * x.value := by
  obtain ⟨hlen, hlong, hvalue⟩ := bnMultiplyLong_value hk hx
  rw [← hvalue] at hlt
  obtain ⟨res, q, hrun, hlen', hres, hlt', hvalue'⟩ := reduceRounds_value h le_rfl hlen hlong hlt
  have hlist : (List.range 9).map (res.getD · 0) = res.take 9 := by
    apply List.ext_getElem?
    intro i
    rw [List.getElem?_map, List.getElem?_take]
    rcases Nat.lt_or_ge i 9 with hi | hi
    · obtain ⟨limb, hlimb⟩ : ∃ limb, res[i]? = some limb := ⟨_, List.getElem?_eq_getElem (by omega)⟩
      rw [List.getElem?_range hi, if_pos hi, Option.map_some, List.getD_eq_getElem?_getD, hlimb]
      rfl
    · rw [if_neg (by omega), List.getElem?_eq_none (by rw [List.length_range]; exact hi)]
      rfl
  have hupper := h.upper
  have hfits : Limbs.value 30 res < (2 ^ 30) ^ 9 := by omega
  have htake : Limbs.value 30 (res.take 9) = Limbs.value 30 res := by
    rw [Limbs.value_split res (by omega : 9 ≤ res.length), value_drop_eq_zero (by omega) hfits, Nat.mul_zero, Nat.add_zero]
  have hlen9 : (res.take 9).length = 9 := by
    rw [List.length_take, hlen']
    rfl
  have hstore : (⟨(List.range 9).map (res.getD · 0), by simp⟩ : Bignum256) = ⟨res.take 9, hlen9⟩ := by
    rw [Bignum256.mk.injEq]
    exact hlist
  have hrounds : (List.range 9).reverse.map (· + 8) = [16, 15, 14, 13, 12, 11, 10, 9, 8] := rfl
  rw [hrounds] at hrun
  have hrun' : bnMultiply k x prime = ok ⟨res.take 9, hlen9⟩ := by
    rw [bnMultiply, bnMultiplyReduce, reduceAll, hrun, ok_bind]
    exact congrArg ok hstore
  refine ⟨_, q, hrun', hres.take 9, ?_, ?_⟩
  · rw [Bignum256.value, htake]
    exact hlt'
  · rw [Bignum256.value, htake, hvalue', hvalue]

/-- Numbers below `c` times the prime, for a residue -/
structure Residue (prime : Bignum256) (c : ℕ) (a : ZMod prime.value) (x : Bignum256) : Prop where
  normalized : x.Normalized
  lt : x.value < c * prime.value
  cast : (x.value : ZMod prime.value) = a

section

variable {a b : ZMod prime.value}

theorem Residue.multiply (h : Modulus prime) {c d : ℕ} (hk : Residue prime c a k) (hx : Residue prime d b x) (hc : c ≤ 180) (hd : d ≤ 180) :
    ∃ y, bnMultiply k x prime = ok y ∧ Residue prime 2 (a * b) y := by
  have hupper := h.upper
  have hk180 : k.value < 180 * prime.value := hk.lt.trans_le (Nat.mul_le_mul_right _ hc)
  have hx180 : x.value < 180 * prime.value := hx.lt.trans_le (Nat.mul_le_mul_right _ hd)
  have hlt : k.value * x.value < (2 ^ 30) ^ 9 * (2 * prime.value) := by
    calc k.value * x.value < 180 * prime.value * (180 * prime.value) := Nat.mul_lt_mul'' hk180 hx180
      _ = 180 * 180 * prime.value * prime.value := by ring
      _ ≤ 2 * (2 ^ 30) ^ 9 * prime.value := Nat.mul_le_mul_right _ (by omega)
      _ = (2 ^ 30) ^ 9 * (2 * prime.value) := by ring
  obtain ⟨y, q, hrun, hy, hylt, hvalue⟩ := bnMultiply_value h hk.normalized hx.normalized hlt
  refine ⟨y, hrun, hy, hylt, ?_⟩
  have hcast := congrArg (Nat.cast : ℕ → ZMod prime.value) hvalue
  rw [Nat.cast_add, Nat.cast_mul, Nat.cast_mul, ZMod.natCast_self, mul_zero, add_zero, hk.cast, hx.cast] at hcast
  exact hcast

theorem Residue.mod (h : Modulus prime) (hx : Residue prime 2 a x) :
    (bnMod x prime).Normalized ∧ (bnMod x prime).value < prime.value ∧ ((bnMod x prime).value : ZMod prime.value) = a := by
  obtain ⟨hnormalized, hvalue⟩ := bnMod_value hx.normalized h.normalized hx.lt
  refine ⟨hnormalized, ?_, ?_⟩
  · rw [hvalue]
    exact Nat.mod_lt _ h.pos
  · rw [hvalue, ZMod.natCast_mod]
    exact hx.cast

end

theorem bnMultiply_residues (h : Modulus prime) (hk : k.Normalized) (hx : x.Normalized) (hklt : k.value < 180 * prime.value)
    (hxlt : x.value < 180 * prime.value) :
    ∃ y, bnMultiply k x prime = ok y ∧ y.Normalized ∧ y.value < 2 * prime.value ∧ y.value ≡ k.value * x.value [MOD prime.value] ∧
      (bnMod y prime).Normalized ∧ (bnMod y prime).value = k.value * x.value % prime.value := by
  obtain ⟨y, hrun, hy⟩ := Residue.multiply h ⟨hk, hklt, rfl⟩ ⟨hx, hxlt, rfl⟩ le_rfl le_rfl
  obtain ⟨hnormalized, hlt, hcast⟩ := hy.mod h
  have hcongr : y.value ≡ k.value * x.value [MOD prime.value] := by
    apply (ZMod.natCast_eq_natCast_iff _ _ _).mp
    rw [hy.cast, Nat.cast_mul]
  have hmod : (bnMod y prime).value ≡ k.value * x.value [MOD prime.value] := by
    apply (ZMod.natCast_eq_natCast_iff _ _ _).mp
    rw [hcast, Nat.cast_mul]
  refine ⟨y, hrun, hy.normalized, hy.lt, hcongr, hnormalized, ?_⟩
  rw [← hmod, Nat.mod_eq_of_lt hlt]

theorem bnMultiply_residues_generator :
    ∃ y, bnMultiply secp256k1G.x secp256k1G.y secp256k1Prime = ok y ∧ y.Normalized ∧ y.value < 2 * secp256k1Prime.value ∧
      y.value ≡ secp256k1G.x.value * secp256k1G.y.value [MOD secp256k1Prime.value] ∧ (bnMod y secp256k1Prime).Normalized ∧
      (bnMod y secp256k1Prime).value = secp256k1G.x.value * secp256k1G.y.value % secp256k1Prime.value :=
  bnMultiply_residues secp256k1Prime_modulus secp256k1G_normalized.1 secp256k1G_normalized.2
    (secp256k1G_lt.1.trans_le (Nat.le_mul_of_pos_left _ (by decide))) (secp256k1G_lt.2.trans_le (Nat.le_mul_of_pos_left _ (by decide)))

end TronlinkCore.TrezorCrypto
