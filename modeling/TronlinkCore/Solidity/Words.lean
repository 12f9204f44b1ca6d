import TronlinkCore.Abi.Words
import TronlinkCore.Library.HeadTail
import TronlinkCore.Solidity.Encoder

namespace TronlinkCore.Solidity

open Outcome MachineInt BigEndian HeadTail

theorem append_eq_ok {data out : Data} {bytes : List UInt8} (h : append data bytes = ok out) :
    out.bytes = data.bytes ++ bytes := Data.ofBytes_eq_ok.mp h

theorem encodeBool_eq_ok {value : Bool} {data out : Data} (h : encodeBool value data = ok out) :
    out.bytes = data.bytes ++ wordOf (if value then 1 else 0) := by
  simp only [encodeBool, bind_eq_ok] at h
  obtain ⟨d, hd, h⟩ := h
  rw [append_eq_ok h, append_eq_ok hd, List.append_assoc]
  cases value <;> rfl

theorem encodeBigUInt_eq_ok {value : ℕ} {data out : Data} (h : encodeBigUInt value data = ok out) :
    value < 2 ^ 256 ∧ out.bytes = data.bytes ++ wordOf value := by
  simp only [encodeBigUInt, bind_eq_ok, ensure_eq_ok, exists_const] at h
  obtain ⟨hlen, d, hd, h⟩ := h
  rw [serialize_length, byteWidth_le_iff] at hlen
  rw [← Abi.word_bound]
  refine ⟨hlen, ?_⟩
  rw [append_eq_ok h, append_eq_ok hd, List.append_assoc, serialize_length, replicate_serialize hlen]
  rfl

theorem validateSignedInteger_eq_ok {value : ℤ} {bits : Int64}
    (h : ABIValue.validateSignedInteger value bits = ok ()) : Abi.InRange bits.toUInt64 value := by
  simp only [ABIValue.validateSignedInteger, ABIType.validate, bind_eq_ok, ensure_eq_ok, exists_const] at h
  obtain ⟨⟨h8, _, _⟩, hfits⟩ := h
  have hnat : bits.toUInt64.toNat = bits.toNatClampNeg :=
    Int64.toNat_toUInt64_of_le (Int64.le_trans (by decide) h8)
  have hpow : ((2 ^ (bits.toNatClampNeg - 1) : ℕ) : ℤ) = 2 ^ (bits.toNatClampNeg - 1) := by push_cast; rfl
  rw [Abi.InRange, hnat]
  split at hfits
  · constructor <;> omega
  · constructor <;> omega

theorem encodeBigInt_eq_ok {value : ℤ} {data out : Data} (h : encodeBigInt value data = ok out) :
    out.bytes = data.bytes ++ wordOf (ofInt 32 value) := by
  simp only [encodeBigInt, abiEncode, bind_eq_ok, ofOption_eq_ok] at h
  obtain ⟨w, ⟨u, hu, hw⟩, h⟩ := h
  have hr : Abi.InRange 256 value := validateSignedInteger_eq_ok hu
  obtain ⟨hl, hh⟩ := hr.half (by decide)
  have he : (if value < 0 then 2 ^ 256 - value.natAbs else value.natAbs) = ofInt 32 value := by
    split
    · rw [ofInt_of_neg (by omega) (by omega), Abi.word_bound]
    · rw [ofInt_of_nonneg (by omega) (by omega)]
  have hlt := ofInt_lt 32 value
  rw [he, setLengthLeft, serialize_length, if_pos (byteWidth_le_iff.mpr hlt), Option.some.injEq,
    replicate_serialize hlt] at hw
  rw [append_eq_ok h, ← hw]
  rfl

theorem encodeInt_eq_ok {n : ℕ} {data out : Data} (h : encodeInt n data = ok out) (hn : n < 2 ^ 256) :
    out.bytes = data.bytes ++ wordOf n := by
  have hlt : (n : ℤ) < 256 ^ 32 := by
    rw [← Abi.word_bound] at hn
    exact_mod_cast hn
  rw [encodeBigInt_eq_ok h, ofInt_of_nonneg (Int.natCast_nonneg n) hlt]
  rfl

theorem paddedCount_eq_ok {n padded : ℕ} (h : ABIValue.paddedCount n = ok padded) : padded = n + padding n := by
  simp only [ABIValue.paddedCount, bind_eq_ok, addInt_eq_ok, ok.injEq] at h
  obtain ⟨_, ⟨_, rfl⟩, rfl⟩ := h
  unfold padding
  omega

theorem encodeBytes_static_eq_ok {bytes : Data} {data out : Data} (h : encodeBytes bytes true data = ok out) :
    (0 < bytes.bytes.length ∧ bytes.bytes.length ≤ 32) ∧
      out.bytes = data.bytes ++ (bytes.bytes ++ List.replicate (32 - bytes.bytes.length) 0) := by
  simp only [encodeBytes, ↓reduceIte, ABIType.validate, bind_eq_ok, ensure_eq_ok, exists_const, ok.injEq,
    exists_eq_left', subInt_eq_ok] at h
  obtain ⟨⟨h1, h32⟩, padded, hpadded, pad, ⟨_, rfl⟩, d, hd, h⟩ := h
  have hmax := bytes.count_le
  have hcount : (Int64.ofNat bytes.bytes.length).toInt = bytes.bytes.length :=
    Int64.toInt_ofNat_of_lt (by unfold intMax at hmax; omega)
  rw [Int64.le_iff_toInt_le, hcount] at h1 h32
  have h1 : (1 : ℤ) ≤ bytes.bytes.length := h1
  have h32 : (bytes.bytes.length : ℤ) ≤ 32 := h32
  have hp := paddedCount_eq_ok hpadded
  have hpad : padded - bytes.bytes.length = 32 - bytes.bytes.length := by
    unfold padding at hp
    omega
  rw [hpad] at h
  refine ⟨⟨by omega, by omega⟩, ?_⟩
  rw [append_eq_ok h, append_eq_ok hd, List.append_assoc]

theorem encodeBytes_dynamic_eq_ok {bytes : Data} {data out : Data} (h : encodeBytes bytes false data = ok out) :
    out.bytes = data.bytes ++ (wordOf bytes.bytes.length ++ HeadTail.padded bytes.bytes) := by
  simp only [encodeBytes, Bool.false_eq_true, ↓reduceIte, ok_bind, bind_eq_ok, subInt_eq_ok] at h
  obtain ⟨d1, h1, padded, hpadded, pad, ⟨_, rfl⟩, d, hd, h⟩ := h
  have hmax := bytes.count_le
  have hp := paddedCount_eq_ok hpadded
  have hpad : padded - bytes.bytes.length = padding bytes.bytes.length := by omega
  rw [hpad] at h
  have hn : bytes.bytes.length < 2 ^ 256 := Nat.lt_of_le_of_lt hmax (by norm_num [intMax])
  rw [append_eq_ok h, append_eq_ok hd, encodeInt_eq_ok h1 hn, HeadTail.padded]
  simp only [List.append_assoc]

theorem encodeAddress_eq_ok {address : Data} {data out : Data} (h : encodeAddress address data = ok out) :
    ∃ a, Abi.evmAddress20 address.bytes = some a ∧ out.bytes = data.bytes ++ (List.replicate 12 0 ++ a) := by
  simp only [encodeAddress, bind_eq_ok, ofOption_eq_ok, subInt_eq_ok] at h
  obtain ⟨a, ha, pad, ⟨_, rfl⟩, d, hd, h⟩ := h
  refine ⟨a, ha, ?_⟩
  rw [append_eq_ok h, append_eq_ok hd, List.append_assoc, Abi.evmAddress20_length ha]

theorem encodeString_eq_ok {string : Text} {data out : Data} (h : encodeString string data = ok out) :
    out.bytes = data.bytes ++ (wordOf (Text.utf8 string).length ++ HeadTail.padded (Text.utf8 string)) := by
  simp only [encodeString, bind_eq_ok, Data.ofBytes_eq_ok] at h
  obtain ⟨bytes, hb, h⟩ := h
  rw [encodeBytes_dynamic_eq_ok h, hb]

end TronlinkCore.Solidity
