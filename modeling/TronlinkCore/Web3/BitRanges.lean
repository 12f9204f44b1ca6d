import TronlinkCore.Library.BitFields
import TronlinkCore.Library.MachineInt
import Mathlib.Tactic.NormNum

/-!
Ranges of bits in `Data`, whose indices need not start at zero.
-/

namespace TronlinkCore.Web3

open Outcome MachineInt BigEndian

structure DataSlice where
  storage : List UInt8
  startIndex : ℕ
  endIndex : ℕ
  start_le : startIndex ≤ endIndex
  end_le : endIndex ≤ storage.length
  storage_le : storage.length ≤ intMax

namespace DataSlice

variable (data : DataSlice)

def count : ℕ := data.endIndex - data.startIndex

def bytes : List UInt8 := (data.storage.drop data.startIndex).take data.count

/-- `self[index]` -/
def byteAt (index : ℕ) : Outcome UInt8 := do
  check (data.startIndex ≤ index ∧ index < data.endIndex)
  element data.storage index

def nextBit (firstByte bitOffset : ℕ) (value : UInt64) (offset : ℕ) : Outcome UInt64 := do
  let bit ← addInt bitOffset offset
  let distance ← addInt firstByte (bit / 8)
  let byteIndex ← addInt data.startIndex distance
  let byte ← data.byteAt byteIndex
  let shift ← subInt 7 (bit % 8)
  let nextBit := (byte >>> UInt8.ofNat shift) &&& 1
  ok ((value <<< 1) ||| nextBit.toUInt64)

/-- What follows the guards, where no operand is negative -/
def readBits (startingBit length : ℕ) : Outcome (Option UInt64) :=
  let firstByte := startingBit / 8
  let bitOffset := startingBit % 8
  if firstByte ≤ data.count then
    if length = 0 then ok (if firstByte < data.count ∨ bitOffset = 0 then some 0 else none)
    else do
      let bits ← addInt bitOffset length
      let bits ← addInt bits 7
      let requiredBytes := bits / 8
      let available ← subInt data.count firstByte
      if requiredBytes ≤ available then do
        let value ← (List.range length).foldlM (data.nextBit firstByte bitOffset) 0
        ok (some value)
      else ok none
  else ok none

def bitsInRangeIfValid (startingBit length : Int64) : Outcome (Option UInt64) :=
  if 0 ≤ startingBit ∧ 0 ≤ length ∧ length ≤ 64 then data.readBits startingBit.toNatClampNeg length.toNatClampNeg
  else ok none

def bitsInRange (startingBit length : Int64) : Outcome UInt64 := do
  match ← data.bitsInRangeIfValid startingBit length with
  | some value => ok value
  | none => trap

theorem bytes_length : data.bytes.length = data.count := by
  have hend := data.end_le
  rw [bytes, List.length_take, List.length_drop, Nat.min_eq_left]
  exact Nat.sub_le_sub_right hend _

theorem count_le : data.count ≤ intMax := by
  have hend := data.end_le
  have hstorage := data.storage_le
  unfold count
  omega

theorem byteAt_of_lt {distance : ℕ} (h : distance < data.count) :
    ∃ byte, data.bytes[distance]? = some byte ∧ data.byteAt (data.startIndex + distance) = ok byte := by
  have hend := data.end_le
  unfold count at h
  have hindex : data.startIndex + distance < data.storage.length := by omega
  refine ⟨data.storage[data.startIndex + distance], ?_, ?_⟩
  · rw [bytes, List.getElem?_take_of_lt (by unfold count; omega), List.getElem?_drop, List.getElem?_eq_getElem hindex]
  · have hrange : data.startIndex ≤ data.startIndex + distance ∧ data.startIndex + distance < data.endIndex :=
      ⟨Nat.le_add_right _ _, by omega⟩
    rw [byteAt, check_true hrange, ok_bind, element_eq_ok, List.getElem?_eq_getElem hindex]

def field (start length : ℕ) : ℕ := bitField (8 * data.count) (ofBytes data.bytes) start length

theorem toNat_bit {byte : UInt8} {position : ℕ} (h : position < 8) :
    ((byte >>> UInt8.ofNat (7 - position)) &&& 1).toUInt64.toNat = bitField 8 byte.toNat position 1 := by
  have hshift : (UInt8.ofNat (7 - position)).toNat % 8 = 7 - position := by
    have hsize : 7 - position < 256 := by omega
    rw [UInt8.toNat_ofNat_of_lt' hsize]
    omega
  have hone : (1 : UInt8).toNat = 1 := rfl
  rw [UInt8.toNat_toUInt64, UInt8.toNat_and, UInt8.toNat_shiftRight, hshift, hone, Nat.and_one_is_mod,
    Nat.shiftRight_eq_div_pow, bitField, pow_one, show 8 - (position + 1) = 7 - position by omega]

theorem toNat_appended {value bit : UInt64} (hvalue : value.toNat < 2 ^ 63) (hbit : bit.toNat < 2) :
    ((value <<< 1) ||| bit).toNat = 2 * value.toNat + bit.toNat := by
  have hone : (1 : UInt64).toNat % 64 = 1 := rfl
  have hsmall : 2 ^ 1 * value.toNat < 2 ^ 64 := by omega
  have hor := Nat.two_pow_add_eq_or_of_lt (show bit.toNat < 2 ^ 1 from hbit) value.toNat
  rw [UInt64.toNat_or, UInt64.toNat_shiftLeft, hone, Nat.shiftLeft_eq, Nat.mul_comm, Nat.mod_eq_of_lt hsmall, ← hor]

theorem nextBit_eq {start offset : ℕ} {value : UInt64} (hoffset : offset < 64) (hrange : start + offset < 8 * data.count)
    (hvalue : value.toNat = data.field start offset) :
    ∃ later, data.nextBit (start / 8) (start % 8) value offset = ok later ∧
      later.toNat = data.field start (offset + 1) := by
  have hcount := data.count_le
  have hend := data.end_le
  have hstorage := data.storage_le
  have hdistance : (start + offset) / 8 < data.count := by omega
  have hindex : data.startIndex + (start + offset) / 8 ≤ intMax := by
    unfold count at hdistance
    omega
  have hbit : start % 8 + offset ≤ intMax := by
    unfold intMax
    omega
  have hsum : start / 8 + (start % 8 + offset) / 8 = (start + offset) / 8 := by omega
  have hrest : (start % 8 + offset) % 8 = (start + offset) % 8 := by omega
  obtain ⟨byte, hget, hbyte⟩ := data.byteAt_of_lt hdistance
  refine ⟨(value <<< 1) ||| ((byte >>> UInt8.ofNat (7 - (start + offset) % 8)) &&& 1).toUInt64, ?_, ?_⟩
  · have hadd := addInt_of_le (show start / 8 + (start % 8 + offset) / 8 ≤ intMax by omega)
    rw [nextBit, addInt_of_le hbit, ok_bind, hadd, ok_bind, hsum, addInt_of_le hindex, ok_bind, hbyte, ok_bind,
      subInt_of_le (by omega), ok_bind, hrest]
  · have hposition : (start + offset) % 8 < 8 := Nat.mod_lt _ (by decide)
    have hsame : bitField 8 byte.toNat ((start + offset) % 8) 1 = data.field (start + offset) 1 := by
      rw [bitField_byte hget, data.bytes_length, bitField_bitField _ (by omega) (by omega), Nat.div_add_mod]
      rfl
    have hsmall : value.toNat < 2 ^ 63 := by
      rw [hvalue]
      exact Nat.lt_of_lt_of_le (bitField_lt _ _ _ _) (Nat.pow_le_pow_right (by decide) (by omega))
    have hone := @toNat_bit byte _ hposition
    rw [toNat_appended hsmall (by rw [hone]; exact bitField_lt 8 _ _ 1), hone, hsame, hvalue]
    exact (bitField_succ _ hrange).symm

theorem foldlM_nextBit {start length : ℕ} (hlength : length ≤ 64) (hrange : start + length ≤ 8 * data.count) :
    ∃ value, (List.range length).foldlM (data.nextBit (start / 8) (start % 8)) 0 = ok value ∧
      value.toNat = data.field start length := by
  induction length with
  | zero => exact ⟨0, rfl, (bitField_zero _ _ _).symm⟩
  | succ length ih =>
    obtain ⟨value, hfold, hvalue⟩ := ih (by omega) (by omega)
    obtain ⟨later, hnext, hlater⟩ := data.nextBit_eq (by omega) (by omega) hvalue
    refine ⟨later, ?_, hlater⟩
    rw [List.range_succ, List.foldlM_append, hfold, ok_bind, List.foldlM_cons, hnext, ok_bind]
    rfl

def ValidRange (startingBit length : Int64) : Prop :=
  0 ≤ startingBit.toInt ∧ 0 ≤ length.toInt ∧ length.toInt ≤ 64 ∧ startingBit.toInt + length.toInt ≤ 8 * data.count

theorem readBits_eq {start length : ℕ} (hlength : length ≤ 64) :
    ∃ result, data.readBits start length = ok result ∧ (result.isSome ↔ start + length ≤ 8 * data.count) ∧
      ∀ value ∈ result, value.toNat = data.field start length := by
  by_cases hfirst : start / 8 ≤ data.count
  · by_cases hzero : length = 0
    · refine ⟨if start / 8 < data.count ∨ start % 8 = 0 then some 0 else none, ?_, ?_, ?_⟩
      · rw [readBits, if_pos hfirst, if_pos hzero]
      · split
        · simp only [Option.isSome_some, true_iff]
          omega
        · simp only [Option.isSome_none, Bool.false_eq_true, false_iff]
          omega
      · intro value hvalue
        rw [hzero, field, bitField_zero]
        split at hvalue
        · cases hvalue
          rfl
        · cases hvalue
    · have hsum : start % 8 + length ≤ intMax := by
        unfold intMax
        omega
      have hup : start % 8 + length + 7 ≤ intMax := by
        unfold intMax
        omega
      have hread : data.readBits start length = (if (start % 8 + length + 7) / 8 ≤ data.count - start / 8 then do
          let value ← (List.range length).foldlM (data.nextBit (start / 8) (start % 8)) 0
          ok (some value)
        else ok none) := by
        rw [readBits, if_pos hfirst, if_neg hzero, addInt_of_le hsum, ok_bind, addInt_of_le hup, ok_bind,
          subInt_of_le hfirst, ok_bind]
      rw [hread]
      by_cases hrange : start + length ≤ 8 * data.count
      · obtain ⟨value, hfold, hvalue⟩ := data.foldlM_nextBit hlength hrange
        refine ⟨some value, ?_, by simp [hrange], ?_⟩
        · rw [if_pos (by omega), hfold, ok_bind]
        · intro read hsome
          cases hsome
          exact hvalue
      · refine ⟨none, if_neg (by omega), by simp [hrange], ?_⟩
        nofun
  · refine ⟨none, if_neg hfirst, ?_, nofun⟩
    simp only [Option.isSome_none, Bool.false_eq_true, false_iff]
    omega

theorem bitsInRange_exact (startingBit length : Int64) :
    ∃ result, data.bitsInRangeIfValid startingBit length = ok result ∧
      (result.isSome ↔ data.ValidRange startingBit length) ∧
      ∀ value ∈ result, value.toNat = data.field startingBit.toInt.toNat length.toInt.toNat := by
  unfold bitsInRangeIfValid ValidRange
  by_cases hguard : 0 ≤ startingBit ∧ 0 ≤ length ∧ length ≤ 64
  · have hstart : 0 ≤ startingBit.toInt := Int64.le_iff_toInt_le.mp hguard.1
    have hlow : 0 ≤ length.toInt := Int64.le_iff_toInt_le.mp hguard.2.1
    have hhigh : length.toInt ≤ 64 := Int64.le_iff_toInt_le.mp hguard.2.2
    obtain ⟨result, hread, hvalid, hvalue⟩ := @readBits_eq data startingBit.toNatClampNeg length.toNatClampNeg (by
      unfold Int64.toNatClampNeg
      omega)
    refine ⟨result, ?_, hvalid.trans ?_, hvalue⟩
    · rw [if_pos hguard, hread]
    · unfold Int64.toNatClampNeg
      omega
  · refine ⟨none, if_neg hguard, ?_, nofun⟩
    rw [Int64.le_iff_toInt_le, Int64.le_iff_toInt_le, Int64.le_iff_toInt_le] at hguard
    have hzero : (0 : Int64).toInt = 0 := rfl
    have hmost : (64 : Int64).toInt = 64 := rfl
    rw [hzero, hmost] at hguard
    simp only [Option.isSome_none, Bool.false_eq_true, false_iff]
    omega

end DataSlice

def sampleSlice : DataSlice where
  storage := [0xff, 0xd6, 0x39, 0xa5, 0xff]
  startIndex := 1
  endIndex := 4
  start_le := by decide
  end_le := by decide
  storage_le := by decide

example : sampleSlice.bitsInRangeIfValid 6 5 = ok (some 0x11) ∧ sampleSlice.bitsInRangeIfValid 24 0 = ok (some 0) ∧
    sampleSlice.bitsInRangeIfValid Int64.maxValue 64 = ok none := by decide

end TronlinkCore.Web3
