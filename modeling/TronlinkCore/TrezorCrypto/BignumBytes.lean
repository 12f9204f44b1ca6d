import TronlinkCore.Library.ByteOrder
import TronlinkCore.TrezorCrypto.BignumSpec

namespace TronlinkCore.TrezorCrypto

open Limbs

variable {x : Bignum256} {data : List UInt8}

theorem byteAt_toNat (data : List UInt8) (i : ℕ) : (byteAt data i).toNat = (data.getD i 0).toNat ∧ (byteAt data i).toNat < 2 ^ 8 := by
  have hbyte := (data.getD i 0).toNat_lt
  have hwidth : (byteAt data i).toNat = (data.getD i 0).toNat := by
    rw [byteAt, BitVec.toNat_setWidth, UInt8.toNat_toBitVec, Nat.mod_eq_of_lt (by omega)]
  exact ⟨hwidth, hwidth ▸ hbyte⟩

theorem four_toNat {a b c d : BitVec 32} (ha : a.toNat < 2 ^ 8) (hb : b.toNat < 2 ^ 8) (hc : c.toNat < 2 ^ 8) (hd : d.toNat < 2 ^ 8) :
    ((a <<< 24) ||| (b <<< 16) ||| (c <<< 8) ||| d).toNat = 2 ^ 24 * a.toNat + 2 ^ 16 * b.toNat + 2 ^ 8 * c.toNat + d.toNat := by
  have hlow := toNat_shiftLeft_or (x := c) (y := d) (k := 8) (by omega) hd
  have hmid := toNat_shiftLeft_or (x := b) (y := (c <<< 8) ||| d) (k := 16) (by omega) (by rw [hlow]; omega)
  have hall := toNat_shiftLeft_or (x := a) (y := (b <<< 16) ||| ((c <<< 8) ||| d)) (k := 24) (by omega) (by rw [hmid, hlow]; omega)
  rw [BitVec.or_assoc, BitVec.or_assoc, hall, hmid, hlow]
  omega

theorem exists_four (h : 4 ≤ data.length) : ∃ a b c d, data = a :: b :: c :: d :: data.drop 4 := by
  rcases data with _ | ⟨a, _ | ⟨b, _ | ⟨c, _ | ⟨d, rest⟩⟩⟩⟩
  case cons.cons.cons.cons => exact ⟨a, b, c, d, rfl⟩
  all_goals simp at h

theorem readBe_toNat (a b c d : UInt8) (rest : List UInt8) :
    (readBe (a :: b :: c :: d :: rest)).toNat = BigEndian.ofBytes [a, b, c, d] := by
  have hfour (i : ℕ) := byteAt_toNat (a :: b :: c :: d :: rest) i
  rw [readBe, four_toNat (hfour 0).2 (hfour 1).2 (hfour 2).2 (hfour 3).2, (hfour 0).1, (hfour 1).1, (hfour 2).1, (hfour 3).1]
  simp [BigEndian.ofBytes]
  omega

theorem readLe_toNat (a b c d : UInt8) (rest : List UInt8) :
    (readLe (a :: b :: c :: d :: rest)).toNat = LittleEndian.ofBytes [a, b, c, d] := by
  have hfour (i : ℕ) := byteAt_toNat (a :: b :: c :: d :: rest) i
  rw [readLe, four_toNat (hfour 3).2 (hfour 2).2 (hfour 1).2 (hfour 0).2, (hfour 0).1, (hfour 1).1, (hfour 2).1, (hfour 3).1]
  simp
  omega

theorem writeBe_eq (x : BitVec 32) : writeBe x = BigEndian.toBytes 4 x.toNat := by
  have hbyte (k : ℕ) : UInt8.ofBitVec ((x >>> k).setWidth 8) = UInt8.ofNat (x.toNat / 2 ^ k % 256) := by
    apply UInt8.toNat_inj.mp
    rw [UInt8.toNat_ofBitVec, BitVec.toNat_setWidth, BitVec.toNat_ushiftRight, Nat.shiftRight_eq_div_pow, UInt8.toNat_ofNat']
    omega
  have h0 := hbyte 0
  rw [BitVec.ushiftRight_zero, pow_zero, Nat.div_one] at h0
  simp only [writeBe, List.map_cons, List.map_nil, hbyte, h0, BigEndian.toBytes, List.nil_append, List.cons_append, Nat.div_div_eq_div_mul]
  norm_num

theorem value_readBe {n : ℕ} (hdata : data.length = 4 * n) :
    Limbs.value 32 ((List.range n).map fun i => readBe (data.drop ((n - 1 - i) * 4))) = BigEndian.ofBytes data := by
  induction n generalizing data with
  | zero =>
    rw [List.eq_nil_of_length_eq_zero hdata]
    rfl
  | succ n ih =>
    have hrest : (data.drop 4).length = 4 * n := by rw [List.length_drop]; omega
    obtain ⟨a, b, c, d, hfour⟩ := exists_four (by omega : 4 ≤ data.length)
    have hfirst : (readBe (data.drop ((n + 1 - 1 - n) * 4))).toNat = BigEndian.ofBytes [a, b, c, d] := by
      rw [Nat.add_sub_cancel, Nat.sub_self, Nat.zero_mul, List.drop_zero, hfour, readBe_toNat]
    have hinit : ((List.range n).map fun i => readBe (data.drop ((n + 1 - 1 - i) * 4))) =
        (List.range n).map fun i => readBe ((data.drop 4).drop ((n - 1 - i) * 4)) := by
      apply List.map_congr_left
      intro i hi
      have hi := List.mem_range.mp hi
      have hindex : (n + 1 - 1 - i) * 4 = 4 + (n - 1 - i) * 4 := by omega
      rw [hindex, List.drop_drop]
    have hpow : (256 : ℕ) ^ (4 * n) = (2 ^ 32) ^ n := by rw [pow_mul]; norm_num
    rw [List.range_succ, List.map_append, value_append, hinit, ih hrest, List.length_map, List.length_range, List.map_singleton,
      value_cons, value_nil, Nat.mul_zero, Nat.add_zero, hfirst]
    have happend := BigEndian.ofBytes_append [a, b, c, d] (data.drop 4)
    rw [hrest, hpow] at happend
    conv_rhs => rw [hfour]
    change BigEndian.ofBytes (data.drop 4) + _ = BigEndian.ofBytes ([a, b, c, d] ++ data.drop 4)
    rw [happend]
    ring

theorem value_readLe {n : ℕ} (hdata : data.length = 4 * n) :
    Limbs.value 32 ((List.range n).map fun i => readLe (data.drop (i * 4))) = LittleEndian.ofBytes data := by
  induction n generalizing data with
  | zero =>
    rw [List.eq_nil_of_length_eq_zero hdata]
    rfl
  | succ n ih =>
    have hrest : (data.drop 4).length = 4 * n := by rw [List.length_drop]; omega
    obtain ⟨a, b, c, d, hfour⟩ := exists_four (by omega : 4 ≤ data.length)
    have htail : ((List.range n).map Nat.succ).map (fun i => readLe (data.drop (i * 4))) =
        (List.range n).map fun i => readLe ((data.drop 4).drop (i * 4)) := by
      rw [List.map_map]
      apply List.map_congr_left
      intro i _
      have hindex : i.succ * 4 = 4 + i * 4 := by omega
      rw [Function.comp_apply, hindex, List.drop_drop]
    have hfirst : (readLe data).toNat = LittleEndian.ofBytes [a, b, c, d] := by rw [hfour, readLe_toNat]
    have happend := LittleEndian.ofBytes_append [a, b, c, d] (data.drop 4)
    have hpow : (256 : ℕ) ^ [a, b, c, d].length = 2 ^ 32 := by norm_num
    rw [List.range_succ_eq_map, List.map_cons, value_cons, htail, ih hrest, Nat.zero_mul, List.drop_zero, hfirst]
    conv_rhs => rw [hfour]
    change _ = LittleEndian.ofBytes ([a, b, c, d] ++ data.drop 4)
    rw [happend, hpow]

theorem readLimbs_value {i : ℕ} {temp : BitVec 32} {limbs : List (BitVec 32)} (htemp : temp.toNat < 2 ^ (2 * i)) (hi : i + limbs.length ≤ 8) :
    Limbs.Normalized 30 (readLimbs i temp limbs) ∧
      Limbs.value 30 (readLimbs i temp limbs) = temp.toNat + 2 ^ (2 * i) * Limbs.value 32 limbs := by
  induction limbs generalizing i temp with
  | nil =>
    have hpow : 2 ^ (2 * i) ≤ 2 ^ 30 := Nat.pow_le_pow_right (by decide) (by rw [List.length_nil] at hi; omega)
    exact ⟨normalized_cons.mpr ⟨htemp.trans_le hpow, .nil⟩, rfl⟩
  | cons limb limbs ih =>
    rw [List.length_cons] at hi
    have hlimb := limb.isLt
    have hsplit : 2 ^ (2 * i) * 2 ^ (30 - 2 * i) = 2 ^ 30 := by rw [← pow_add]; congr 1; omega
    have hnext : (limb >>> (30 - 2 * i)).toNat = (temp.toNat + 2 ^ (2 * i) * limb.toNat) / 2 ^ 30 := by
      rw [BitVec.toNat_ushiftRight, Nat.shiftRight_eq_div_pow, ← hsplit, ← Nat.div_div_eq_div_mul,
        Nat.add_mul_div_left _ _ (Nat.two_pow_pos _), Nat.div_eq_of_lt htemp, Nat.zero_add]
    have hbound : (limb >>> (30 - 2 * i)).toNat < 2 ^ (2 * (i + 1)) := by
      rw [BitVec.toNat_ushiftRight, Nat.shiftRight_eq_div_pow]
      apply Nat.div_lt_of_lt_mul
      rw [← pow_add]
      convert hlimb using 2
      omega
    have hlow : ((temp ||| (limb <<< (2 * i))) &&& 0x3FFFFFFF).toNat = (temp.toNat + 2 ^ (2 * i) * limb.toNat) % 2 ^ 30 := by
      change ((temp ||| (limb <<< (2 * i))) &&& BitVec.ofNat 32 (2 ^ 30 - 1)).toNat = _
      rw [toNat_low (by decide), toNat_or_shiftLeft htemp, Nat.mod_mod_of_dvd _ (by norm_num)]
    obtain ⟨hnormalized, hvalue⟩ := ih hbound (by omega)
    rw [readLimbs]
    constructor
    · apply normalized_cons.mpr
      rw [hlow]
      exact ⟨Nat.mod_lt _ (by decide), hnormalized⟩
    · have hpow : 2 ^ 30 * 2 ^ (2 * (i + 1)) = 2 ^ (2 * i) * 2 ^ 32 := by rw [← pow_add, ← pow_add]; congr 1; omega
      rw [value_cons, hlow, hvalue, hnext, value_cons, Nat.mul_add, ← Nat.add_assoc, Nat.mod_add_div, ← Nat.mul_assoc, hpow]
      ring

theorem bnReadBe_value (hdata : data.length = 32) : (bnReadBe data).Normalized ∧ (bnReadBe data).value = BigEndian.ofBytes data := by
  have htemp : (0 : BitVec 32).toNat < 2 ^ (2 * 0) := by decide
  have hlimbs : 0 + ((List.range 8).map fun i => readBe (data.drop ((7 - i) * 4))).length ≤ 8 := by simp
  have h := readLimbs_value htemp hlimbs
  have hwords := value_readBe (n := 8) hdata
  refine ⟨h.1, h.2.trans ?_⟩
  rw [hwords]
  simp

theorem bnReadLe_value (hdata : data.length = 32) : (bnReadLe data).Normalized ∧ (bnReadLe data).value = LittleEndian.ofBytes data := by
  have htemp : (0 : BitVec 32).toNat < 2 ^ (2 * 0) := by decide
  have hlimbs : 0 + ((List.range 8).map fun i => readLe (data.drop (i * 4))).length ≤ 8 := by simp
  have h := readLimbs_value htemp hlimbs
  have hwords := value_readLe (n := 8) hdata
  refine ⟨h.1, h.2.trans ?_⟩
  rw [hwords]
  simp

theorem writeWords_length (i : ℕ) (temp : BitVec 32) (limbs : List (BitVec 32)) : (writeWords i temp limbs).length = limbs.length := by
  induction limbs generalizing i temp with
  | nil => rfl
  | cons limb limbs ih => rw [writeWords, List.length_cons, List.length_cons, ih]

/-- Of the limb before, the bits are left that no word holds yet. -/
theorem writeWords_value {i : ℕ} {temp : BitVec 32} {limbs : List (BitVec 32)} (hi : i + limbs.length = 8) (hlimbs : Limbs.Normalized 30 limbs) :
    Limbs.value 32 (writeWords i temp limbs).reverse =
      Limbs.value 30 limbs.reverse + (2 ^ 30) ^ limbs.length * (temp.toNat % 2 ^ (16 - 2 * i)) := by
  induction limbs generalizing i temp with
  | nil =>
    have hzero : 16 - 2 * i = 0 := by rw [List.length_nil] at hi; omega
    rw [hzero, pow_zero, Nat.mod_one]
    rfl
  | cons limb limbs ih =>
    rw [List.length_cons] at hi
    obtain ⟨hlimb, hlimbs⟩ := normalized_cons.mp hlimbs
    have hshift : 2 ^ (14 - 2 * i) * 2 ^ (16 + 2 * i) = 2 ^ 30 := by rw [← pow_add]; congr 1; omega
    have hfull : 2 ^ (16 + 2 * i) * 2 ^ (16 - 2 * i) = 2 ^ 32 := by rw [← pow_add]; congr 1; omega
    have hhigh : limb.toNat / 2 ^ (14 - 2 * i) < 2 ^ (16 + 2 * i) := Nat.div_lt_of_lt_mul (by rw [hshift]; exact hlimb)
    have hword : ((temp <<< (16 + 2 * i)) ||| (limb >>> (14 - 2 * i))).toNat =
        limb.toNat / 2 ^ (14 - 2 * i) + 2 ^ (16 + 2 * i) * (temp.toNat % 2 ^ (16 - 2 * i)) := by
      have hshifted : (limb >>> (14 - 2 * i)).toNat = limb.toNat / 2 ^ (14 - 2 * i) := by
        rw [BitVec.toNat_ushiftRight, Nat.shiftRight_eq_div_pow]
      rw [BitVec.or_comm, toNat_or_shiftLeft (by rw [hshifted]; exact hhigh), hshifted, ← hfull, Nat.mod_mul, Nat.add_mul_mod_self_left,
        Nat.mod_eq_of_lt hhigh, Nat.add_mul_div_left _ _ (Nat.two_pow_pos _), Nat.div_eq_of_lt hhigh, Nat.zero_add]
    have hleft : 16 - 2 * (i + 1) = 14 - 2 * i := by omega
    have hwords : (2 ^ 32) ^ limbs.length = (2 ^ 30) ^ limbs.length * 2 ^ (14 - 2 * i) := by
      rw [← pow_mul, ← pow_mul, ← pow_add]
      congr 1
      omega
    have hdivmod := Nat.mod_add_div limb.toNat (2 ^ (14 - 2 * i))
    rw [writeWords, List.reverse_cons, value_append, List.length_reverse, writeWords_length, ih (by omega) hlimbs, hleft, value_cons,
      value_nil, Nat.mul_zero, Nat.add_zero, hword, List.reverse_cons, value_append, List.length_reverse, value_cons, value_nil,
      Nat.mul_zero, Nat.add_zero, List.length_cons, hwords, pow_succ (2 ^ 30) limbs.length]
    conv_rhs => rw [← hdivmod]
    have hcombine := congrArg (fun n => (2 ^ 30) ^ limbs.length * n * (temp.toNat % 2 ^ (16 - 2 * i))) hshift
    linarith

theorem flatMap_writeBe (words : List (BitVec 32)) :
    words.flatMap writeBe = BigEndian.toBytes (4 * words.length) (Limbs.value 32 words.reverse) := by
  induction words with
  | nil => rfl
  | cons word words ih =>
    have hlen : 4 * (word :: words).length = 4 + 4 * words.length := by rw [List.length_cons]; omega
    have hpow : (2 ^ 32) ^ words.length = 256 ^ (4 * words.length) := by rw [pow_mul]; norm_num
    have hlt := (normalized_full words.reverse).value_lt
    rw [List.length_reverse, hpow] at hlt
    rw [List.flatMap_cons, ih, writeBe_eq, hlen, BigEndian.toBytes_add, List.reverse_cons, value_append, List.length_reverse, hpow, value_cons,
      value_nil, Nat.mul_zero, Nat.add_zero, Nat.add_mul_div_left _ _ (Nat.pos_of_neZero _), Nat.div_eq_of_lt hlt, Nat.zero_add,
      ← BigEndian.toBytes_mod _ (_ + _), Nat.add_mul_mod_self_left, BigEndian.toBytes_mod]

theorem bnWriteBe_eq (hx : x.Normalized) : bnWriteBe x = BigEndian.toBytes 32 x.value := by
  have hlen : (x.val.take 8).length = 8 := by rw [List.length_take, x.length_val]; rfl
  have hlimbs : Limbs.Normalized 30 (x.val.take 8).reverse := fun limb hmem => hx limb (List.mem_of_mem_take (List.mem_reverse.mp hmem))
  have hwords : Limbs.value 32 (writeWords 0 (x.limb 8) (x.val.take 8).reverse).reverse = _ :=
    writeWords_value (by rw [List.length_reverse, hlen]) hlimbs
  have hsplit := x.value_split
  rw [List.reverse_reverse, List.length_reverse, hlen] at hwords
  rw [bnWriteBe, flatMap_writeBe, writeWords_length, List.length_reverse, hlen, hwords, ← BigEndian.toBytes_mod]
  conv_rhs => rw [← BigEndian.toBytes_mod, hsplit]
  congr 1
  omega

theorem bnWriteLe_eq (hx : x.Normalized) : bnWriteLe x = LittleEndian.toBytes 32 x.value := by
  have hreverse : bnWriteLe x = (bnWriteBe x).reverse := by
    rw [bnWriteLe, bnWriteBe, List.reverse_flatMap]
    rfl
  rw [hreverse, bnWriteBe_eq hx, ← ByteOrder.toBytes_reverse, List.reverse_reverse]

theorem bignum_bytes (hdata : data.length = 32) (hx : x.Normalized) :
    ((bnReadBe data).Normalized ∧ (bnReadBe data).value = BigEndian.ofBytes data ∧ bnWriteBe (bnReadBe data) = data) ∧
      ((bnReadLe data).Normalized ∧ (bnReadLe data).value = LittleEndian.ofBytes data ∧ bnWriteLe (bnReadLe data) = data) ∧
      (bnWriteBe x = BigEndian.toBytes 32 x.value ∧ (bnReadBe (bnWriteBe x)).value = x.value % 2 ^ 256) ∧
      (bnWriteLe x = LittleEndian.toBytes 32 x.value ∧ (bnReadLe (bnWriteLe x)).value = x.value % 2 ^ 256) ∧
      (bnReadBe (bnWriteBe x) = x ↔ x.value < 2 ^ 256) ∧ (bnReadLe (bnWriteLe x) = x ↔ x.value < 2 ^ 256) := by
  obtain ⟨hbe, hbevalue⟩ := bnReadBe_value hdata
  obtain ⟨hle, hlevalue⟩ := bnReadLe_value hdata
  have hpow : (256 : ℕ) ^ 32 = 2 ^ 256 := by norm_num
  have hbelength : (bnWriteBe x).length = 32 := by rw [bnWriteBe_eq hx, BigEndian.toBytes_length]
  have hlelength : (bnWriteLe x).length = 32 := by rw [bnWriteLe_eq hx, LittleEndian.toBytes_length]
  obtain ⟨hbe', hbevalue'⟩ := bnReadBe_value hbelength
  obtain ⟨hle', hlevalue'⟩ := bnReadLe_value hlelength
  rw [bnWriteBe_eq hx, BigEndian.ofBytes_toBytes, hpow, ← bnWriteBe_eq hx] at hbevalue'
  rw [bnWriteLe_eq hx, LittleEndian.ofBytes_toBytes, hpow, ← bnWriteLe_eq hx] at hlevalue'
  have hfits {y : Bignum256} (hy : y.Normalized) (hvalue : y.value = x.value % 2 ^ 256) : y = x ↔ x.value < 2 ^ 256 := by
    constructor
    · intro heq
      rw [← heq, hvalue]
      exact Nat.mod_lt _ (Nat.two_pow_pos _)
    · intro hlt
      exact Bignum256.ext_of_value hy hx (hvalue.trans (Nat.mod_eq_of_lt hlt))
  refine ⟨⟨hbe, hbevalue, ?_⟩, ⟨hle, hlevalue, ?_⟩, ⟨bnWriteBe_eq hx, hbevalue'⟩, ⟨bnWriteLe_eq hx, hlevalue'⟩, hfits hbe' hbevalue',
    hfits hle' hlevalue'⟩
  · rw [bnWriteBe_eq hbe, hbevalue, BigEndian.toBytes_of_length hdata]
  · rw [bnWriteLe_eq hle, hlevalue, LittleEndian.toBytes_of_length hdata]

theorem bignum_bytes_one :
    ((bnReadBe (List.replicate 32 1)).Normalized ∧
        (bnReadBe (List.replicate 32 1)).value = BigEndian.ofBytes (List.replicate 32 1) ∧
        bnWriteBe (bnReadBe (List.replicate 32 1)) = List.replicate 32 1) ∧
      ((bnReadLe (List.replicate 32 1)).Normalized ∧
        (bnReadLe (List.replicate 32 1)).value = LittleEndian.ofBytes (List.replicate 32 1) ∧
        bnWriteLe (bnReadLe (List.replicate 32 1)) = List.replicate 32 1) ∧
      (bnWriteBe bnOne = BigEndian.toBytes 32 bnOne.value ∧ (bnReadBe (bnWriteBe bnOne)).value = bnOne.value % 2 ^ 256) ∧
      (bnWriteLe bnOne = LittleEndian.toBytes 32 bnOne.value ∧ (bnReadLe (bnWriteLe bnOne)).value = bnOne.value % 2 ^ 256) ∧
      (bnReadBe (bnWriteBe bnOne) = bnOne ↔ bnOne.value < 2 ^ 256) ∧ (bnReadLe (bnWriteLe bnOne) = bnOne ↔ bnOne.value < 2 ^ 256) :=
  bignum_bytes List.length_replicate bnOne_normalized

end TronlinkCore.TrezorCrypto
