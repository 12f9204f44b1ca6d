import TronlinkCore.Library.BigEndian

/-!
Big-endian bytes with a sign, and the integers that a number of bytes has room for.
-/

namespace TronlinkCore.BigEndian

def signed (bs : List UInt8) : ℤ := toInt bs.length (ofBytes bs)

def InRange (w : ℕ) (i : ℤ) : Prop := -(256 ^ w : ℤ) ≤ 2 * i ∧ 2 * i < 256 ^ w

def ofSigned (w : ℕ) (i : ℤ) : List UInt8 := toBytes w (ofInt w i)

@[simp] theorem ofSigned_length (w : ℕ) (i : ℤ) : (ofSigned w i).length = w := toBytes_length _ _

theorem toInt_inRange {w n : ℕ} (h : n < 256 ^ w) : InRange w (toInt w n) := by
  have hc : ((256 ^ w : ℕ) : ℤ) = (256 : ℤ) ^ w := by push_cast; rfl
  unfold toInt
  split
  · constructor <;> omega
  · constructor <;> omega

theorem signed_inRange (bs : List UInt8) : InRange bs.length (signed bs) := toInt_inRange (ofBytes_lt bs)

theorem signed_ofSigned {w : ℕ} {i : ℤ} (h : InRange w i) : signed (ofSigned w i) = i := by
  rw [signed, ofSigned_length, ofSigned, ofBytes_toBytes_of_lt (ofInt_lt w i), toInt_ofInt h.1 h.2]

theorem ofSigned_signed (bs : List UInt8) : ofSigned bs.length (signed bs) = bs := by
  rw [ofSigned, signed, ofInt_toInt (ofBytes_lt bs), toBytes_ofBytes]

theorem ofSigned_of_nonneg {w : ℕ} {i : ℤ} (h0 : 0 ≤ i) (h : InRange w i) : ofSigned w i = toBytes w i.natAbs := by
  rw [ofSigned, ofInt_of_nonneg h0 (by have := h.2; omega)]

theorem ofSigned_of_neg {w : ℕ} {i : ℤ} (h0 : i < 0) (h : InRange w i) :
    ofSigned w i = toBytes w (256 ^ w - i.natAbs) := by
  rw [ofSigned, ofInt_of_neg h0 (by have := h.1; omega)]

theorem inRange_iff_natAbs {w : ℕ} {i : ℤ} :
    InRange w i ↔ if 0 ≤ i then 2 * i.natAbs < 256 ^ w else 2 * i.natAbs ≤ 256 ^ w := by
  have hc : ((256 ^ w : ℕ) : ℤ) = (256 : ℤ) ^ w := by push_cast; rfl
  unfold InRange
  split
  · omega
  · omega

structure Shortest (i : ℤ) (bs : List UInt8) : Prop where
  signed_eq : signed bs = i
  length_le : ∀ w, InRange w i → bs.length ≤ w

theorem Shortest.of_ofSigned {w : ℕ} {i : ℤ} (h : InRange w i) (hle : ∀ v, InRange v i → w ≤ v) :
    Shortest i (ofSigned w i) := by
  constructor
  · exact signed_ofSigned h
  · intro v hv
    rw [ofSigned_length]
    exact hle v hv

theorem Shortest.length_le_of_signed {i : ℤ} {bs cs : List UInt8} (h : Shortest i bs) (hcs : signed cs = i) :
    bs.length ≤ cs.length := by
  apply h.length_le
  rw [← hcs]
  exact signed_inRange cs

theorem first_lt_iff {b : UInt8} {bs : List UInt8} :
    b.toNat < 128 ↔ 2 * ofBytes (b :: bs) < 256 ^ (b :: bs).length := by
  have hbs := ofBytes_lt bs
  rw [ofBytes_cons, List.length_cons, pow_succ]
  constructor
  · intro hb
    have hle : b.toNat + 1 ≤ 128 := hb
    have hmul := Nat.mul_le_mul_right (256 ^ bs.length) hle
    linarith
  · intro hlt
    by_contra hb
    have hge : 128 ≤ b.toNat := Nat.le_of_not_lt hb
    have hmul := Nat.mul_le_mul_right (256 ^ bs.length) hge
    linarith

end TronlinkCore.BigEndian
