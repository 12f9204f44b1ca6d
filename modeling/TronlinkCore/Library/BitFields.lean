import TronlinkCore.Library.BigEndian

/-!
Fields of consecutive bits in big-endian numbers; the bits count from the
highest one.
-/

namespace TronlinkCore.BigEndian

def bitField (width n start length : ℕ) : ℕ := n / 2 ^ (width - (start + length)) % 2 ^ length

theorem bitField_zero (width n start : ℕ) : bitField width n start 0 = 0 := Nat.mod_one _

theorem bitField_lt (width n start length : ℕ) : bitField width n start length < 2 ^ length :=
  Nat.mod_lt _ (by positivity)

theorem bitField_succ {width start length : ℕ} (n : ℕ) (h : start + length < width) :
    bitField width n start (length + 1) = 2 * bitField width n start length + bitField width n (start + length) 1 := by
  have hlow : width - (start + length) = width - (start + (length + 1)) + 1 := by omega
  have hbit : width - (start + length + 1) = width - (start + (length + 1)) := by omega
  rw [bitField, bitField, bitField, hlow, hbit, pow_succ 2 (width - _), ← Nat.div_div_eq_div_mul, pow_succ' 2 length,
    pow_one, Nat.mod_mul, Nat.add_comm]

theorem bitField_bitField {width start count first length : ℕ} (n : ℕ) (h : start + count ≤ width)
    (hfirst : first + length ≤ count) :
    bitField count (bitField width n start count) first length = bitField width n (start + first) length := by
  have hcount : 2 ^ count = 2 ^ (count - (first + length)) * 2 ^ (first + length) := by
    rw [← pow_add, Nat.sub_add_cancel hfirst]
  have hwidth : width - (start + first + length) = width - (start + count) + (count - (first + length)) := by omega
  have hdvd : 2 ^ length ∣ 2 ^ (first + length) := pow_dvd_pow 2 (Nat.le_add_left length first)
  rw [bitField, bitField, bitField, hcount, Nat.mod_mul_right_div_self, Nat.div_div_eq_div_mul, ← pow_add, ← hwidth,
    Nat.mod_mod_of_dvd _ hdvd]

theorem ofBytes_take (bs : List UInt8) (k : ℕ) : ofBytes (bs.take k) = ofBytes bs / 256 ^ (bs.length - k) := by
  have happend := ofBytes_append (bs.take k) (bs.drop k)
  have hbelow := ofBytes_lt (bs.drop k)
  have hpos : 0 < 256 ^ (bs.length - k) := by positivity
  rw [List.length_drop] at hbelow
  rw [List.take_append_drop, List.length_drop] at happend
  rw [happend, Nat.add_comm, Nat.add_mul_div_right _ _ hpos, Nat.div_eq_of_lt hbelow, Nat.zero_add]

theorem bitField_byte {bs : List UInt8} {i : ℕ} {b : UInt8} (h : bs[i]? = some b) :
    b.toNat = bitField (8 * bs.length) (ofBytes bs) (8 * i) 8 := by
  obtain ⟨hi, rfl⟩ := List.getElem?_eq_some_iff.mp h
  have hpow : 2 ^ (8 * bs.length - (8 * i + 8)) = 256 ^ (bs.length - (i + 1)) := by
    rw [show (256 : ℕ) = 2 ^ 8 by norm_num, ← pow_mul]
    congr 1
    omega
  have hlast : ofBytes (bs.take (i + 1)) = ofBytes (bs.take i) * 256 + bs[i].toNat := by
    rw [List.take_succ_eq_append_getElem hi, ofBytes_append, ofBytes_singleton, List.length_singleton, pow_one]
  have hbyte : bs[i].toNat < 256 := bs[i].toNat_lt
  rw [bitField, hpow, ← ofBytes_take, hlast]
  omega

end TronlinkCore.BigEndian
