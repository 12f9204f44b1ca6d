import TronlinkCore.Library.SignedBytes
import TronlinkCore.Solidity.Encoder

/-!
Signed integers as bytes: in as few as possible, or at a width.
-/

namespace TronlinkCore.Web3

open Outcome MachineInt BigEndian Solidity

def toTwosComplement (x : ℤ) : List UInt8 :=
  let serialized := serialize x.natAbs
  match serialized with
  | [] => serialized
  | firstByte :: _ =>
    if 0 ≤ x then
      if firstByte &&& 0x80 = 0 then serialized else 0 :: serialized
    else
      let magnitudeBits := serialized.length * 8
      let signedLimit := 1 <<< (magnitudeBits - 1)
      let bitCount := if signedLimit < x.natAbs then magnitudeBits + 8 else magnitudeBits
      serialize (1 <<< bitCount - x.natAbs)

def abiEncode (x : ℤ) (bits : UInt64) : Outcome (List UInt8) := do
  ensure (bits ≤ 256)
  ABIValue.validateSignedInteger x (Int64.ofNat bits.toNat)
  let encoded := if x < 0 then 1 <<< bits.toNat - x.natAbs else x.natAbs
  ofOption (setLengthLeft (serialize encoded) (bits.toNat / 8))

def fromTwosComplement : List UInt8 → ℤ
  | [] => 0
  | firstByte :: rest =>
    let data := firstByte :: rest
    if (firstByte &&& 128) >>> 7 = 0 then ofBytes data
    else
      let max := 1 <<< (data.length * 8)
      let magnitude := max - ofBytes data
      0 - (magnitude : ℤ)

theorem shiftLeft_bytes (w : ℕ) : 1 <<< (w * 8) = 256 ^ w := by
  rw [Nat.one_shiftLeft, Nat.mul_comm, Nat.pow_mul]

theorem fromTwosComplement_eq (data : List UInt8) : fromTwosComplement data = signed data := by
  cases data with
  | nil => rfl
  | cons firstByte rest =>
    have hlt := ofBytes_lt (firstByte :: rest)
    have hc : ((256 ^ (firstByte :: rest).length : ℕ) : ℤ) = (256 : ℤ) ^ (firstByte :: rest).length := by
      push_cast
      rfl
    unfold fromTwosComplement signed BigEndian.toInt
    simp only [(signBit_iff firstByte).2, @first_lt_iff firstByte rest, shiftLeft_bytes]
    split
    · rfl
    · omega

theorem serialize_cons {n : ℕ} (h : 0 < n) :
    ∃ b rest, serialize n = b :: rest ∧ (b.toNat < 128 ↔ 2 * n < 256 ^ byteWidth n) := by
  have hlength := serialize_length n
  have hvalue := ofBytes_serialize n
  cases hs : serialize n with
  | nil =>
    rw [hs] at hvalue
    cases hvalue
    cases h
  | cons b rest =>
    refine ⟨b, rest, rfl, ?_⟩
    rw [hs] at hlength hvalue
    rw [first_lt_iff, hvalue, hlength]

theorem toTwosComplement_of_pos {x : ℤ} (h : 0 < x) :
    toTwosComplement x =
      if 2 * x.natAbs < 256 ^ byteWidth x.natAbs then toBytes (byteWidth x.natAbs) x.natAbs
      else toBytes (byteWidth x.natAbs + 1) x.natAbs := by
  obtain ⟨b, rest, hs, htop⟩ := serialize_cons (show 0 < x.natAbs by omega)
  have hfits : x.natAbs < 256 ^ byteWidth x.natAbs := byteWidth_le_iff.mp (le_refl _)
  have hwide : toBytes (byteWidth x.natAbs + 1) x.natAbs = 0 :: serialize x.natAbs := by
    rw [Nat.add_comm, toBytes_padded hfits]
    rfl
  unfold toTwosComplement
  simp only [hs, if_pos h.le, (signBit_iff _).1, htop]
  rw [hwide, ← hs]
  rfl

theorem two_mul_signedLimit {w : ℕ} (h : 0 < w) : 2 * (1 <<< (w * 8 - 1)) = 256 ^ w := by
  have hbits : (w * 8 - 1).succ = w * 8 := by omega
  rw [← shiftLeft_bytes, Nat.one_shiftLeft, Nat.one_shiftLeft, ← Nat.pow_succ', hbits]

theorem toTwosComplement_of_neg {x : ℤ} (h : x < 0) :
    toTwosComplement x =
      if 256 ^ byteWidth x.natAbs < 2 * x.natAbs then
        toBytes (byteWidth x.natAbs + 1) (256 ^ (byteWidth x.natAbs + 1) - x.natAbs)
      else toBytes (byteWidth x.natAbs) (256 ^ byteWidth x.natAbs - x.natAbs) := by
  have hpos : 0 < x.natAbs := by omega
  have hwidth := byteWidth_pos hpos
  have hlimit := two_mul_signedLimit hwidth
  have hfits : x.natAbs < 256 ^ byteWidth x.natAbs := byteWidth_le_iff.mp (le_refl _)
  have hbits : byteWidth x.natAbs * 8 + 8 = (byteWidth x.natAbs + 1) * 8 := by omega
  obtain ⟨b, rest, hs, _⟩ := serialize_cons hpos
  have hlength := serialize_length x.natAbs
  unfold toTwosComplement
  rw [hs] at hlength
  simp only [hs, if_neg (Int.not_le.mpr h), hlength]
  by_cases hlarge : 256 ^ byteWidth x.natAbs < 2 * x.natAbs
  · have hover : 1 <<< (byteWidth x.natAbs * 8 - 1) < x.natAbs := by omega
    rw [if_pos hover, if_pos hlarge, hbits, shiftLeft_bytes]
    apply serialize_of_between
    · rw [pow_succ]
      omega
    · omega
  · have hover : ¬ 1 <<< (byteWidth x.natAbs * 8 - 1) < x.natAbs := by omega
    obtain ⟨w, hw⟩ := Nat.exists_eq_succ_of_ne_zero hwidth.ne'
    rw [if_neg hover, if_neg hlarge, shiftLeft_bytes]
    rw [hw, Nat.succ_eq_add_one] at hlarge hfits ⊢
    rw [pow_succ] at hlarge hfits
    apply serialize_of_between
    · rw [pow_succ]
      omega
    · omega

theorem byteWidth_le_of_inRange {w : ℕ} {x : ℤ} (h : InRange w x) : byteWidth x.natAbs ≤ w := by
  apply byteWidth_le_iff.mpr
  rw [inRange_iff_natAbs] at h
  split at h
  · omega
  · omega

theorem lt_of_pow_lt {v w : ℕ} (h : 256 ^ v < 256 ^ w) : v < w := (Nat.pow_lt_pow_iff_right (by decide)).mp h

theorem toTwosComplement_shortest (x : ℤ) : Shortest x (toTwosComplement x) := by
  have hfits : x.natAbs < 256 ^ byteWidth x.natAbs := byteWidth_le_iff.mp (le_refl _)
  rcases lt_trichotomy x 0 with hneg | rfl | hpos
  · have hnot : ¬ 0 ≤ x := Int.not_le.mpr hneg
    rw [toTwosComplement_of_neg hneg]
    split
    · rename_i hlarge
      have hrange : InRange (byteWidth x.natAbs + 1) x := by
        rw [inRange_iff_natAbs, if_neg hnot, pow_succ]
        omega
      rw [← ofSigned_of_neg hneg hrange]
      apply Shortest.of_ofSigned hrange
      intro v hv
      rw [inRange_iff_natAbs, if_neg hnot] at hv
      exact lt_of_pow_lt (hlarge.trans_le hv)
    · rename_i hsmall
      have hrange : InRange (byteWidth x.natAbs) x := by
        rw [inRange_iff_natAbs, if_neg hnot]
        omega
      rw [← ofSigned_of_neg hneg hrange]
      apply Shortest.of_ofSigned hrange
      intro v hv
      exact byteWidth_le_of_inRange hv
  · exact ⟨rfl, fun _ _ => Nat.zero_le _⟩
  · rw [toTwosComplement_of_pos hpos]
    split
    · rename_i hsmall
      have hrange : InRange (byteWidth x.natAbs) x := by
        rw [inRange_iff_natAbs, if_pos hpos.le]
        exact hsmall
      rw [← ofSigned_of_nonneg hpos.le hrange]
      apply Shortest.of_ofSigned hrange
      intro v hv
      exact byteWidth_le_of_inRange hv
    · rename_i hlarge
      have hrange : InRange (byteWidth x.natAbs + 1) x := by
        rw [inRange_iff_natAbs, if_pos hpos.le, pow_succ]
        omega
      rw [← ofSigned_of_nonneg hpos.le hrange]
      apply Shortest.of_ofSigned hrange
      intro v hv
      rw [inRange_iff_natAbs, if_pos hpos.le] at hv
      exact lt_of_pow_lt ((Nat.le_of_not_lt hlarge).trans_lt hv)

def IsWidth (bits : UInt64) : Prop := 8 ≤ bits.toNat ∧ bits.toNat ≤ 256 ∧ bits.toNat % 8 = 0

theorem width_table : ∀ n : Fin 257,
    (8 ≤ Int64.ofNat n ∧ Int64.ofNat n ≤ 256 ∧ Int64.ofNat n % 8 = 0) ↔ 8 ≤ n.val ∧ n.val % 8 = 0 := by
  decide +kernel

theorem validate_width {bits : UInt64} (h : bits.toNat ≤ 256) :
    ABIType.validate (.int (Int64.ofNat bits.toNat)) = ok () ↔ IsWidth bits := by
  have htable := width_table ⟨bits.toNat, Nat.lt_succ_of_le h⟩
  rw [ABIType.validate, ensure_eq_ok, htable, IsWidth]
  constructor
  · rintro ⟨hlow, hmod⟩
    exact ⟨hlow, h, hmod⟩
  · rintro ⟨hlow, _, hmod⟩
    exact ⟨hlow, hmod⟩

def InSignedRange (bits : ℕ) (x : ℤ) : Prop := -(2 ^ (bits - 1) : ℤ) ≤ x ∧ x < 2 ^ (bits - 1)

theorem pow_bits {bits : UInt64} (h : IsWidth bits) : (256 : ℤ) ^ (bits.toNat / 8) = 2 * 2 ^ (bits.toNat - 1) := by
  obtain ⟨hlow, _, hmod⟩ := h
  have hbits : 8 * (bits.toNat / 8) = bits.toNat - 1 + 1 := by omega
  have hbase : (256 : ℤ) = 2 ^ 8 := by norm_num
  rw [hbase, ← pow_mul, hbits, pow_succ']

theorem inSignedRange_iff {bits : UInt64} (h : IsWidth bits) {x : ℤ} :
    InSignedRange bits.toNat x ↔ InRange (bits.toNat / 8) x := by
  rw [InSignedRange, InRange, pow_bits h]
  omega

theorem validateSignedInteger_eq_ok {bits : UInt64} (h : IsWidth bits) {x : ℤ} :
    ABIValue.validateSignedInteger x (Int64.ofNat bits.toNat) = ok () ↔ InSignedRange bits.toNat x := by
  have hle := h.2.1
  have hclamp : (Int64.ofNat bits.toNat).toNatClampNeg = bits.toNat := Int64.toNatClampNeg_ofNat_of_lt (by omega)
  have hc : ((2 ^ (bits.toNat - 1) : ℕ) : ℤ) = (2 : ℤ) ^ (bits.toNat - 1) := by push_cast; rfl
  rw [ABIValue.validateSignedInteger, (validate_width hle).mpr h, ok_bind, hclamp, ensure_eq_ok, InSignedRange]
  split
  · omega
  · omega

theorem abiEncode_of_inRange {bits : UInt64} (h : IsWidth bits) {x : ℤ} (hx : InSignedRange bits.toNat x) :
    abiEncode x bits = ok (ofSigned (bits.toNat / 8) x) := by
  have hle : bits ≤ 256 := h.2.1
  have hrange := (inSignedRange_iff h).mp hx
  have hbits : bits.toNat = bits.toNat / 8 * 8 := by
    have hmod := h.2.2
    omega
  have hencoded : (if x < 0 then 1 <<< bits.toNat - x.natAbs else x.natAbs) = ofInt (bits.toNat / 8) x := by
    have hc : ((256 ^ (bits.toNat / 8) : ℕ) : ℤ) = (256 : ℤ) ^ (bits.toNat / 8) := by push_cast; rfl
    obtain ⟨hlow, hhigh⟩ := hrange
    split
    · rename_i hneg
      rw [hbits, shiftLeft_bytes, Nat.mul_div_cancel _ (by decide), ofInt_of_neg hneg (by omega)]
    · rename_i hnonneg
      rw [ofInt_of_nonneg (by omega) (by omega)]
  have hlt := ofInt_lt (bits.toNat / 8) x
  have hlength : (serialize (ofInt (bits.toNat / 8) x)).length ≤ bits.toNat / 8 := by
    rw [serialize_length]
    exact byteWidth_le_iff.mpr hlt
  have hpadded : setLengthLeft (serialize (ofInt (bits.toNat / 8) x)) (bits.toNat / 8) =
      some (ofSigned (bits.toNat / 8) x) := by
    rw [setLengthLeft, if_pos hlength, serialize_length, replicate_serialize hlt, ofSigned]
  rw [abiEncode, ensure_true hle, ok_bind, (validateSignedInteger_eq_ok h).mpr hx, ok_bind, hencoded]
  dsimp only
  rw [hpadded]
  rfl

theorem ensure_cases (p : Prop) [Decidable p] : ensure p = ok () ∨ ensure p = fail := by
  by_cases h : p
  · exact .inl (if_pos h)
  · exact .inr (if_neg h)

theorem validateSignedInteger_cases (x : ℤ) (bits : Int64) :
    ABIValue.validateSignedInteger x bits = ok () ∨ ABIValue.validateSignedInteger x bits = fail := by
  unfold ABIValue.validateSignedInteger ABIType.validate
  rcases ensure_cases (8 ≤ bits ∧ bits ≤ 256 ∧ bits % 8 = 0) with hwidth | hwidth
  · rw [hwidth]
    exact ensure_cases _
  · rw [hwidth]
    exact .inr rfl

theorem abiEncode_fails {x : ℤ} {bits : UInt64} (h : ¬ (IsWidth bits ∧ InSignedRange bits.toNat x)) :
    abiEncode x bits = fail := by
  unfold abiEncode
  by_cases hle : bits ≤ 256
  · rw [ensure_true hle, ok_bind]
    rcases validateSignedInteger_cases x (Int64.ofNat bits.toNat) with hok | hfail
    · have hvalid := hok
      rw [ABIValue.validateSignedInteger, bind_eq_ok] at hvalid
      obtain ⟨_, htype, _⟩ := hvalid
      have hwidth := (validate_width hle).mp htype
      exact absurd ⟨hwidth, (validateSignedInteger_eq_ok hwidth).mp hok⟩ h
    · rw [hfail]
      rfl
  · rw [ensure, if_neg hle]
    rfl

theorem twosComplement_exact :
    (∀ x, fromTwosComplement (toTwosComplement x) = x) ∧
      (∀ x data, fromTwosComplement data = x → (toTwosComplement x).length ≤ data.length ∧
        (data.length = (toTwosComplement x).length → data = toTwosComplement x)) ∧
      (∀ data, fromTwosComplement data = signed data) ∧
      (∀ x bits, IsWidth bits → InSignedRange bits.toNat x → ∃ data, abiEncode x bits = ok data ∧
        ∀ data', data' = data ↔ data'.length = bits.toNat / 8 ∧ fromTwosComplement data' = x) ∧
      ∀ x bits, ¬ (IsWidth bits ∧ InSignedRange bits.toNat x) → abiEncode x bits = fail := by
  refine ⟨?_, ?_, fromTwosComplement_eq, ?_, fun _ _ => abiEncode_fails⟩
  · intro x
    rw [fromTwosComplement_eq, (toTwosComplement_shortest x).signed_eq]
  · intro x data hdata
    rw [fromTwosComplement_eq] at hdata
    have hshortest := toTwosComplement_shortest x
    refine ⟨hshortest.length_le_of_signed hdata, ?_⟩
    intro hlength
    rw [← ofSigned_signed data, hdata, hlength, ← ofSigned_signed (toTwosComplement x), ofSigned_length,
      hshortest.signed_eq]
  · intro x bits hbits hx
    refine ⟨_, abiEncode_of_inRange hbits hx, ?_⟩
    intro data'
    rw [fromTwosComplement_eq]
    constructor
    · rintro rfl
      exact ⟨ofSigned_length _ _, signed_ofSigned ((inSignedRange_iff hbits).mp hx)⟩
    · rintro ⟨hlength, hdata⟩
      rw [← ofSigned_signed data', hlength, hdata]

theorem twosComplement_sample :
    fromTwosComplement (toTwosComplement (-65535)) = -65535 ∧ toTwosComplement (-65535) = [0xff, 0x00, 0x01] ∧
      abiEncode (-65535) 24 = ok [0xff, 0x00, 0x01] ∧ abiEncode (-65535) 16 = fail := by
  refine ⟨twosComplement_exact.1 (-65535), by decide +kernel, by decide +kernel, ?_⟩
  exact twosComplement_exact.2.2.2.2 (-65535) 16 fun h => absurd h.2.1 (by decide)

end TronlinkCore.Web3
