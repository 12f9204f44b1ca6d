import TronlinkCore.Library.BigEndian
import TronlinkCore.Library.LittleEndian

/-!
The two orders of the bytes of a word: one is the other read backwards, and the
bits of a word are those of its bytes.
-/

namespace TronlinkCore.ByteOrder

open LittleEndian (xorBytes)

theorem ofBytes_reverse (bs : List UInt8) : BigEndian.ofBytes bs.reverse = LittleEndian.ofBytes bs := by
  induction bs with
  | nil => rfl
  | cons b bs ih =>
    rw [List.reverse_cons, BigEndian.ofBytes_append, ih, BigEndian.ofBytes_singleton, LittleEndian.ofBytes_cons,
      List.length_singleton, pow_one]
    ring

theorem toBytes_reverse (k n : ℕ) : (LittleEndian.toBytes k n).reverse = BigEndian.toBytes k n := by
  induction k generalizing n with
  | zero => rfl
  | succ k ih =>
    rw [LittleEndian.toBytes, List.reverse_cons, ih, BigEndian.toBytes]
    congr 2
    apply UInt8.toNat_inj.mp
    rw [UInt8.toNat_ofNat', UInt8.toNat_ofNat', Nat.mod_mod]

theorem testBit_ofBytes (bs : List UInt8) (i : ℕ) :
    (LittleEndian.ofBytes bs).testBit i = (bs.getD (i / 8) 0).toNat.testBit (i % 8) := by
  induction bs generalizing i with
  | nil => simp
  | cons b bs ih =>
    have hb : b.toNat < 2 ^ 8 := b.toNat_lt
    have hsum : b.toNat + 256 * LittleEndian.ofBytes bs = 2 ^ 8 * LittleEndian.ofBytes bs + b.toNat := by omega
    rw [LittleEndian.ofBytes_cons, hsum, Nat.testBit_two_pow_mul_add _ hb]
    rcases Nat.lt_or_ge i 8 with hi | hi
    · rw [if_pos hi, Nat.div_eq_of_lt hi, Nat.mod_eq_of_lt hi, List.getD_cons_zero]
    · have hdiv : i / 8 = (i - 8) / 8 + 1 := by omega
      have hmod : i % 8 = (i - 8) % 8 := by omega
      rw [if_neg (by omega), ih, hdiv, hmod, List.getD_cons_succ]

theorem toBytes_xor (k a b : ℕ) :
    BigEndian.toBytes k (a ^^^ b) = xorBytes (BigEndian.toBytes k a) (BigEndian.toBytes k b) := by
  have hlen : (LittleEndian.toBytes k a).length = (LittleEndian.toBytes k b).length := by
    rw [LittleEndian.toBytes_length, LittleEndian.toBytes_length]
  rw [← toBytes_reverse, ← toBytes_reverse, ← toBytes_reverse, LittleEndian.toBytes_xor, xorBytes, xorBytes,
    List.reverse_zipWith hlen]

theorem ofBytes_xorBytes {as bs : List UInt8} (h : as.length = bs.length) :
    BigEndian.ofBytes (xorBytes as bs) = BigEndian.ofBytes as ^^^ BigEndian.ofBytes bs := by
  have hpow (k : ℕ) : (256 : ℕ) ^ k = 2 ^ (8 * k) := by rw [pow_mul]; rfl
  have ha := BigEndian.ofBytes_lt as
  have hb := BigEndian.ofBytes_lt bs
  rw [hpow] at ha hb
  rw [← h] at hb
  have hbytes := toBytes_xor as.length (BigEndian.ofBytes as) (BigEndian.ofBytes bs)
  rw [BigEndian.toBytes_ofBytes, h, BigEndian.toBytes_ofBytes, ← h] at hbytes
  rw [← hbytes, BigEndian.ofBytes_toBytes, hpow, Nat.mod_eq_of_lt (Nat.xor_lt_two_pow ha hb)]

def Swaps (k : ℕ) {w : ℕ} (swap : BitVec w → BitVec w) : Prop :=
  ∀ x i, i < w → (swap x).getLsbD i = x.getLsbD (8 * (k - 1 - i / 8) + i % 8)

variable {k w : ℕ} {swap : BitVec w → BitVec w}

theorem Swaps.ofBytes (h : Swaps k swap) (hw : w = 8 * k) {bs : List UInt8} (hbs : bs.length = k) :
    swap (BitVec.ofNat w (LittleEndian.ofBytes bs)) = BitVec.ofNat w (BigEndian.ofBytes bs) := by
  subst hw hbs
  apply BitVec.eq_of_getLsbD_eq
  intro i hi
  have hj : 8 * (bs.length - 1 - i / 8) + i % 8 < 8 * bs.length := by omega
  have hdiv : (8 * (bs.length - 1 - i / 8) + i % 8) / 8 = bs.length - 1 - i / 8 := by omega
  have hmod : (8 * (bs.length - 1 - i / 8) + i % 8) % 8 = i % 8 := by omega
  have hget : bs.reverse.getD (i / 8) 0 = bs.getD (bs.length - 1 - i / 8) 0 := by
    rw [List.getD_eq_getElem?_getD, List.getD_eq_getElem?_getD, List.getElem?_reverse (by omega)]
  rw [h _ _ hi, BitVec.getLsbD_ofNat, BitVec.getLsbD_ofNat, ← bs.reverse_reverse, ofBytes_reverse, testBit_ofBytes,
    testBit_ofBytes, List.reverse_reverse, hdiv, hmod, hget]
  simp [hi, hj]

theorem Swaps.toBytes (h : Swaps k swap) (hw : w = 8 * k) (x : BitVec w) :
    LittleEndian.toBytes k (swap x).toNat = BigEndian.toBytes k x.toNat := by
  have hpow : (256 : ℕ) ^ k = 2 ^ w := by rw [hw, pow_mul]; rfl
  have hlt : x.toNat < 256 ^ k := hpow ▸ x.isLt
  have hx : x = BitVec.ofNat w (LittleEndian.ofBytes (LittleEndian.toBytes k x.toNat)) := by
    rw [LittleEndian.ofBytes_toBytes, Nat.mod_eq_of_lt hlt, BitVec.ofNat_toNat, BitVec.setWidth_eq]
  have hswap := h.ofBytes hw (LittleEndian.toBytes_length k x.toNat)
  have hbe := BigEndian.ofBytes_lt (LittleEndian.toBytes k x.toNat)
  rw [LittleEndian.toBytes_length] at hbe
  rw [← hx] at hswap
  rw [hswap, BitVec.toNat_ofNat, Nat.mod_eq_of_lt (hpow ▸ hbe), ← toBytes_reverse k x.toNat,
    ← (LittleEndian.toBytes k x.toNat).reverse_reverse, ofBytes_reverse, LittleEndian.toBytes_of_length]
  · rw [List.reverse_reverse]
  · rw [List.length_reverse, LittleEndian.toBytes_length]

end TronlinkCore.ByteOrder
