import TronlinkCore.TrezorCrypto.BignumProducts

namespace TronlinkCore.TrezorCrypto

open Limbs Bignum256

variable {x y prime : Bignum256} {a b : ZMod prime.value} {c : ℕ}

theorem Residue.fastMod (h : Modulus prime) (x : Bignum256) : Residue prime 2 x.value (bnFastMod x prime) := by
  obtain ⟨hnormalized, hlt, hvalue⟩ := bnFastMod_value h x
  refine ⟨hnormalized, hlt, ?_⟩
  rw [← hvalue, Nat.cast_add, Nat.cast_mul, ZMod.natCast_self, mul_zero, add_zero]

theorem Residue.reduce (h : Modulus prime) (hx : Residue prime c a x) : Residue prime 2 a (bnFastMod x prime) :=
  hx.cast ▸ Residue.fastMod h x

theorem Residue.multK (h : Modulus prime) (hx : Residue prime c a x) {k : BitVec 8} (hk : k.toNat ≤ 4) :
    Residue prime 2 (k.toNat * a) (bnMultK x k prime) := by
  have hlimbs : ∀ limb ∈ x.val, (k.setWidth 32 * limb).toNat = k.toNat * limb.toNat := by
    intro limb hmem
    have hlimb := hx.normalized _ hmem
    have hmul : k.toNat * limb.toNat ≤ 4 * limb.toNat := Nat.mul_le_mul_right _ hk
    rw [BitVec.toNat_mul, BitVec.toNat_setWidth, Nat.mod_eq_of_lt (by omega : k.toNat < 2 ^ 32), Nat.mod_eq_of_lt (by omega)]
  have hvalue := value_map (w := 30) hlimbs
  rw [ofDigits_map_mul] at hvalue
  have hmod := Residue.fastMod h ⟨x.val.map (k.setWidth 32 * ·), by rw [List.length_map, x.length_val]⟩
  change Residue prime 2 (Limbs.value 30 (x.val.map (k.setWidth 32 * ·)) : ℕ) _ at hmod
  rw [hvalue, Nat.cast_mul] at hmod
  change Residue prime 2 (k.toNat * (x.value : ZMod prime.value)) _ at hmod
  rwa [hx.cast] at hmod

theorem Residue.mono {d : ℕ} (hx : Residue prime c a x) (hcd : c ≤ d) : Residue prime d a x :=
  ⟨hx.normalized, hx.lt.trans_le (Nat.mul_le_mul_right _ hcd), hx.cast⟩

theorem Residue.value_lt (h : Modulus prime) (hc : c ≤ 2 ^ 10) (hx : Residue prime c a x) : x.value < 2 ^ 10 * 2 ^ 256 := by
  have hupper := h.upper
  have hcp : c * prime.value ≤ 2 ^ 10 * 2 ^ 256 := Nat.mul_le_mul hc hupper.le
  exact hx.lt.trans_le hcp

theorem Residue.add (h : Modulus prime) {d : ℕ} (hc : c ≤ 2 ^ 10) (hd : d ≤ 2 ^ 10) (hx : Residue prime c a x) (hy : Residue prime d b y) :
    Residue prime (c + d) (a + b) (bnAdd x y) := by
  have hxlt := hx.value_lt h hc
  have hylt := hy.value_lt h hd
  have hvalue : (bnAdd x y).value = x.value + y.value := by
    rw [bnAdd_value hx.normalized hy.normalized, Nat.mod_eq_of_lt (by omega)]
  refine ⟨bnAdd_normalized x y, ?_, ?_⟩
  · rw [hvalue, Nat.add_mul]
    exact Nat.add_lt_add hx.lt hy.lt
  · rw [hvalue, Nat.cast_add, hx.cast, hy.cast]

theorem Residue.subtractmod_value (h : Modulus prime) (hc : c ≤ 2 ^ 10) (hx : Residue prime c a x) (hy : Residue prime 2 b y) :
    (bnSubtractmod x y prime).value + y.value = x.value + 2 * prime.value := by
  have hupper := h.upper
  have hxlt := hx.value_lt h hc
  have hylt := hy.lt
  rw [bnSubtractmod_value hx.normalized hy.normalized h.normalized]
  omega

theorem Residue.subtractmod (h : Modulus prime) (hc : c ≤ 2 ^ 10) (hx : Residue prime c a x) (hy : Residue prime 2 b y) :
    Residue prime (c + 2) (a - b) (bnSubtractmod x y prime) := by
  have hvalue := hx.subtractmod_value h hc hy
  have hxlt := hx.lt
  refine ⟨bnSubtractmod_normalized x y prime, ?_, ?_⟩
  · rw [Nat.add_mul]
    omega
  · have hcast := congrArg (Nat.cast : ℕ → ZMod prime.value) hvalue
    rw [Nat.cast_add, Nat.cast_add, Nat.cast_mul, ZMod.natCast_self, mul_zero, add_zero, hx.cast, hy.cast] at hcast
    exact eq_sub_of_add_eq hcast

/-- A difference that is reduced is the prime itself where the residue is zero, never the number zero. -/
theorem bnFastMod_eq_prime_iff (h : Modulus prime) (hpos : 0 < x.value) : bnFastMod x prime = prime ↔ (x.value : ZMod prime.value) = 0 := by
  obtain ⟨hnormalized, hlt, hvalue⟩ := bnFastMod_value h x
  have hcast := (Residue.fastMod h x).cast
  constructor
  · intro heq
    rw [← hcast, heq, ZMod.natCast_self]
  · intro hzero
    rw [hzero, ZMod.natCast_eq_zero_iff] at hcast
    obtain ⟨k, hk⟩ := hcast
    have hsplit := x.value_split
    have hupper := h.upper
    have hk2 : k < 2 := by
      rw [hk, Nat.mul_comm] at hlt
      exact Nat.lt_of_mul_lt_mul_right hlt
    have hk0 : k ≠ 0 := by
      rintro rfl
      rw [Nat.mul_zero] at hk
      rw [hk, Nat.zero_add] at hvalue
      have hle : (x.limb 8).toNat / 2 ^ 16 * (prime.value + 1) ≤ (x.limb 8).toNat / 2 ^ 16 * 2 ^ 256 := Nat.mul_le_mul_left _ hupper
      rw [Nat.mul_add, Nat.mul_one] at hle
      generalize (x.limb 8).toNat / 2 ^ 16 * prime.value = multiple at *
      omega
    have hone : k = 1 := by omega
    rw [hone, Nat.mul_one] at hk
    exact Bignum256.ext_of_value hnormalized h.normalized hk

theorem bnLshift_value (hx : x.Normalized) : (bnLshift x).Normalized ∧ (bnLshift x).value = 2 * x.value % (2 ^ 30) ^ 9 := by
  let shift (limbs : BitVec 32 × BitVec 32) : BitVec 32 := ((limbs.1 <<< 1) &&& (0x3FFFFFFF : BitVec 32)) ||| ((limbs.2 &&& 0x20000000) >>> 29)
  have hshift (limb prev : BitVec 32) (hlimb : limb.toNat < 2 ^ 30) (hprev : prev.toNat < 2 ^ 30) :
      (shift (limb, prev)).toNat = 2 * limb.toNat % 2 ^ 30 + prev.toNat / 2 ^ 29 := by
    have hlow : (limb &&& 0x1FFFFFFF).toNat = limb.toNat % 2 ^ 29 := toNat_low (by decide : 29 ≤ 32) limb
    have hmask : (limb <<< 1) &&& (0x3FFFFFFF : BitVec 32) = (limb &&& 0x1FFFFFFF) <<< 1 := by
      apply BitVec.eq_of_toNat_eq
      have hwide : ((limb <<< 1) &&& 0x3FFFFFFF).toNat = (limb <<< 1).toNat % 2 ^ 30 := toNat_low (by decide : 30 ≤ 32) _
      rw [hwide, BitVec.toNat_shiftLeft, BitVec.toNat_shiftLeft, hlow, Nat.shiftLeft_eq, Nat.shiftLeft_eq]
      omega
    have htop : ((prev &&& 0x20000000) >>> 29).toNat = prev.toNat / 2 ^ 29 := by
      have hand : (prev &&& 0x20000000) >>> 29 = (prev >>> 29) &&& BitVec.ofNat 32 (2 ^ 1 - 1) := by
        rw [BitVec.ushiftRight_and_distrib]
        rfl
      rw [hand, toNat_low (by decide : 1 ≤ 32), BitVec.toNat_ushiftRight, Nat.shiftRight_eq_div_pow]
      omega
    change (((limb <<< 1) &&& (0x3FFFFFFF : BitVec 32)) ||| ((prev &&& 0x20000000) >>> 29)).toNat = _
    rw [hmask, toNat_shiftLeft_or (by rw [hlow]; omega) (by rw [htop]; omega), hlow, htop]
    omega
  have hrun (prev : BitVec 32) (hprev : prev.toNat < 2 ^ 30) (xs : List (BitVec 32)) (h : Limbs.Normalized 30 xs) :
      Limbs.Normalized 30 ((xs.zip (prev :: xs)).map shift) ∧
        Limbs.value 30 ((xs.zip (prev :: xs)).map shift) = (2 * Limbs.value 30 xs + prev.toNat / 2 ^ 29) % (2 ^ 30) ^ xs.length := by
    induction xs generalizing prev with
    | nil => exact ⟨.nil, by simp [Nat.mod_one]⟩
    | cons x xs ih =>
      obtain ⟨hx, hxs⟩ := normalized_cons.mp h
      obtain ⟨hnormalized, hvalue⟩ := ih x hx hxs
      have hfirst := hshift x prev hx hprev
      rw [List.zip_cons_cons, List.map_cons]
      constructor
      · exact normalized_cons.mpr ⟨by rw [hfirst]; omega, hnormalized⟩
      · have hlow : (2 * (x.toNat + 2 ^ 30 * Limbs.value 30 xs) + prev.toNat / 2 ^ 29) % 2 ^ 30 =
            2 * x.toNat % 2 ^ 30 + prev.toNat / 2 ^ 29 := by omega
        have hhigh : (2 * (x.toNat + 2 ^ 30 * Limbs.value 30 xs) + prev.toNat / 2 ^ 29) / 2 ^ 30 =
            2 * Limbs.value 30 xs + x.toNat / 2 ^ 29 := by omega
        rw [value_cons, hvalue, hfirst, value_cons, List.length_cons, pow_succ' (2 ^ 30) xs.length, Nat.mod_mul, hlow, hhigh]
  have hvalue := hrun 0 (by decide) x.val hx
  have hzero : (0 : BitVec 32).toNat / 2 ^ 29 = 0 := rfl
  rwa [hzero, Nat.add_zero, x.length_val] at hvalue

theorem Residue.lshift (h : Modulus prime) (hc : c ≤ 2 ^ 10) (hx : Residue prime c a x) : Residue prime (2 * c) (2 * a) (bnLshift x) := by
  obtain ⟨hnormalized, hvalue⟩ := bnLshift_value hx.normalized
  have hxlt := hx.value_lt h hc
  rw [Nat.mod_eq_of_lt (by omega)] at hvalue
  refine ⟨hnormalized, ?_, ?_⟩
  · rw [hvalue, Nat.mul_assoc]
    exact Nat.mul_lt_mul_of_pos_left hx.lt (by decide)
  · rw [hvalue, Nat.cast_mul, hx.cast, Nat.cast_ofNat]

theorem halves_value {tmp1 : BitVec 32} {sums : List (BitVec 32)} (htmp : tmp1.toNat < 2 ^ 31) (hsums : ∀ sum ∈ sums, sum.toNat < 2 ^ 31) :
    2 * Limbs.value 30 (halves tmp1 sums) = 2 * tmp1.toNat + 2 ^ 30 * Limbs.value 30 sums ∧
      (Limbs.value 30 (halves tmp1 sums) < (2 ^ 30) ^ (sums.length + 1) → Limbs.Normalized 30 (halves tmp1 sums)) := by
  induction sums generalizing tmp1 with
  | nil =>
    refine ⟨by simp [halves], ?_⟩
    intro hlt
    rw [halves, value_cons, value_nil, List.length_nil] at hlt
    exact normalized_cons.mpr ⟨by omega, .nil⟩
  | cons tmp2 sums ih =>
    obtain ⟨htmp2, hsums⟩ := List.forall_mem_cons.mp hsums
    have hbit := toNat_and_one tmp2
    have hcarry : (tmp1 + ((tmp2 &&& 1) <<< 29)).toNat = tmp1.toNat + 2 ^ 29 * (tmp2.toNat % 2) := by
      rw [BitVec.toNat_add, BitVec.toNat_shiftLeft, hbit, Nat.shiftLeft_eq]
      omega
    have hlow : ((tmp1 + ((tmp2 &&& 1) <<< 29)) &&& 0x3FFFFFFF).toNat = (tmp1.toNat + 2 ^ 29 * (tmp2.toNat % 2)) % 2 ^ 30 := by
      rw [← hcarry]
      exact toNat_low (by decide : 30 ≤ 32) _
    have hnext : (((tmp1 + ((tmp2 &&& 1) <<< 29)) >>> 30) + (tmp2 >>> 1)).toNat =
        (tmp1.toNat + 2 ^ 29 * (tmp2.toNat % 2)) / 2 ^ 30 + tmp2.toNat / 2 := by
      rw [BitVec.toNat_add, BitVec.toNat_ushiftRight, BitVec.toNat_ushiftRight, hcarry, Nat.shiftRight_eq_div_pow, Nat.shiftRight_eq_div_pow,
        pow_one]
      omega
    have hbound : (((tmp1 + ((tmp2 &&& 1) <<< 29)) >>> 30) + (tmp2 >>> 1)).toNat < 2 ^ 31 := by
      rw [hnext]
      omega
    obtain ⟨hvalue, hnormalized⟩ := ih hbound hsums
    rw [halves, value_cons, hlow]
    rw [hnext] at hvalue
    constructor
    · rw [value_cons]
      omega
    · intro hlt
      apply normalized_cons.mpr
      rw [hlow]
      refine ⟨Nat.mod_lt _ (by decide), hnormalized ?_⟩
      rw [List.length_cons, pow_succ' (2 ^ 30) (sums.length + 1)] at hlt
      exact Nat.lt_of_mul_lt_mul_left ((Nat.le_add_left _ _).trans_lt hlt)

theorem bnMultHalf_value (hx : x.Normalized) (hprime : prime.Normalized) (hodd : prime.value % 2 = 1) :
    2 * (bnMultHalf x prime).value = x.value + x.value % 2 * prime.value ∧
      ((bnMultHalf x prime).value < (2 ^ 30) ^ 9 → (bnMultHalf x prime).Normalized) := by
  let xodd := -(x.limb 0 &&& 1)
  have hbit := toNat_and_one (x.limb 0)
  have hlow (z : Bignum256) : z.value % 2 = (z.limb 0).toNat % 2 := by
    obtain ⟨val, hlen⟩ := z
    cases val with
    | nil => simp at hlen
    | cons limb limbs =>
      change Limbs.value 30 (limb :: limbs) % 2 = limb.toNat % 2
      rw [value_cons]
      omega
  -- The mask takes the whole prime or nothing of it.
  have hmask (limb : BitVec 32) : (limb &&& xodd).toNat = x.value % 2 * limb.toNat := by
    rw [hlow x]
    rcases Nat.mod_two_eq_zero_or_one (x.limb 0).toNat with heven | hone
    · have hzero : x.limb 0 &&& 1 = 0 := BitVec.eq_of_toNat_eq (by rw [hbit, heven]; rfl)
      simp only [xodd, hzero, heven, Nat.zero_mul]
      simp
    · have hset : x.limb 0 &&& 1 = 1 := BitVec.eq_of_toNat_eq (by rw [hbit, hone]; rfl)
      have hones : -(1 : BitVec 32) = BitVec.allOnes 32 := by decide
      simp only [xodd, hset, hone, Nat.one_mul, hones, BitVec.and_allOnes]
  have hsum : ∀ limbs ∈ x.pairs prime, (limbs.1 + (limbs.2 &&& xodd)).toNat = limbs.1.toNat + x.value % 2 * limbs.2.toNat ∧
      limbs.1.toNat + x.value % 2 * limbs.2.toNat < 2 ^ 31 := by
    intro limbs hmem
    have h1 := hx _ (mem_pairs hmem).1
    have h2 := hprime _ (mem_pairs hmem).2
    have hle : x.value % 2 * limbs.2.toNat ≤ 1 * limbs.2.toNat := Nat.mul_le_mul_right _ (by omega)
    rw [BitVec.toNat_add, hmask]
    omega
  have hvalue := value_map (w := 30) fun limbs hmem => (hsum limbs hmem).1
  rw [ofDigits_map_add, ofDigits_map_mul, ofDigits_pairs_fst, ofDigits_pairs_snd] at hvalue
  have hbound : ∀ sum ∈ (x.pairs prime).map fun limbs => limbs.1 + (limbs.2 &&& xodd), sum.toNat < 2 ^ 31 := by
    rw [List.forall_mem_map]
    intro limbs hmem
    rw [(hsum limbs hmem).1]
    exact (hsum limbs hmem).2
  have hlen : ((x.pairs prime).map fun limbs => limbs.1 + (limbs.2 &&& xodd)).length = 9 := by simp
  change 2 * Limbs.value 30 (halves (((x.pairs prime).map fun limbs => limbs.1 + (limbs.2 &&& xodd)).getD 0 0 >>> 1)
    ((x.pairs prime).map fun limbs => limbs.1 + (limbs.2 &&& xodd)).tail) = _ ∧ (Limbs.value 30 (halves _ _) < _ → Limbs.Normalized 30 (halves _ _))
  generalize (x.pairs prime).map (fun limbs => limbs.1 + (limbs.2 &&& xodd)) = sums at *
  cases sums with
  | nil => simp at hlen
  | cons sum sums =>
    obtain ⟨hsum0, hsums⟩ := List.forall_mem_cons.mp hbound
    have hlength : sums.length = 8 := by simpa using hlen
    have hhalf := toNat_half sum
    have hfirst : (sum >>> 1).toNat < 2 ^ 31 := by
      rw [hhalf]
      omega
    obtain ⟨hhalves, hnormalized⟩ := halves_value hfirst hsums
    rw [hlength] at hnormalized
    refine ⟨?_, hnormalized⟩
    have heven : (x.value + x.value % 2 * prime.value) % 2 = 0 := by
      rcases Nat.mod_two_eq_zero_or_one x.value with h | h
      · rw [h]
        omega
      · rw [h]
        omega
    rw [value_cons] at hvalue
    change 2 * Limbs.value 30 (halves (sum >>> 1) sums) = _
    rw [hhalves, hhalf, ← hvalue]
    rw [← hvalue] at heven
    omega

theorem Residue.multHalf (h : Modulus prime) (hodd : prime.value % 2 = 1) (hc : c ≤ 2 ^ 10) (hx : Residue prime c a x) :
    Residue prime c (a * 2⁻¹) (bnMultHalf x prime) := by
  obtain ⟨hvalue, hnormalized⟩ := bnMultHalf_value hx.normalized h.normalized hodd
  have hupper := h.upper
  have hxlt := hx.lt
  have hpos : 1 ≤ c := Nat.one_le_iff_ne_zero.mpr fun hzero => by
    rw [hzero, Nat.zero_mul] at hxlt
    exact Nat.not_lt_zero _ hxlt
  have hcp : c * prime.value ≤ 2 ^ 10 * 2 ^ 256 := Nat.mul_le_mul hc hupper.le
  have hle : 1 * prime.value ≤ c * prime.value := Nat.mul_le_mul_right _ hpos
  have hbit : x.value % 2 * prime.value ≤ 1 * prime.value := Nat.mul_le_mul_right _ (by omega)
  have hlt : (bnMultHalf x prime).value < c * prime.value := by omega
  refine ⟨hnormalized (by omega), hlt, ?_⟩
  have hcast := congrArg (Nat.cast : ℕ → ZMod prime.value) hvalue
  rw [Nat.cast_add, Nat.cast_mul, Nat.cast_mul, ZMod.natCast_self, mul_zero, add_zero, hx.cast, Nat.cast_ofNat] at hcast
  have hinverse : ((2 : ℕ) * (2 : ZMod prime.value)⁻¹ : ZMod prime.value) = 1 :=
    ZMod.coe_mul_inv_eq_one 2 (Nat.coprime_two_left.mpr (Nat.odd_iff.mpr hodd))
  rw [← hcast, mul_comm (2 : ZMod prime.value), mul_assoc]
  rw [Nat.cast_ofNat] at hinverse
  rw [hinverse, mul_one]

end TronlinkCore.TrezorCrypto
