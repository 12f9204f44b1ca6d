import Mathlib.Data.Nat.Digits.Defs

/-!
Little-endian bytes of natural numbers, and how they pass through exclusive or.
-/

namespace TronlinkCore.LittleEndian

def ofBytes (bs : List UInt8) : ℕ := Nat.ofDigits 256 (bs.map UInt8.toNat)

def toBytes : ℕ → ℕ → List UInt8
  | 0, _ => []
  | w + 1, n => UInt8.ofNat n :: toBytes w (n / 256)

def xorBytes (as bs : List UInt8) : List UInt8 := List.zipWith (· ^^^ ·) as bs

@[simp] theorem ofBytes_nil : ofBytes [] = 0 := rfl

@[simp] theorem ofBytes_cons (b : UInt8) (bs : List UInt8) : ofBytes (b :: bs) = b.toNat + 256 * ofBytes bs := by
  simp [ofBytes, Nat.ofDigits_cons]

theorem ofBytes_append (as bs : List UInt8) : ofBytes (as ++ bs) = ofBytes as + 256 ^ as.length * ofBytes bs := by
  rw [ofBytes, List.map_append, Nat.ofDigits_append, List.length_map]
  rfl

theorem ofBytes_lt (bs : List UInt8) : ofBytes bs < 256 ^ bs.length := by
  rw [ofBytes, ← List.length_map UInt8.toNat]
  apply Nat.ofDigits_lt_base_pow_length (by decide)
  intro x hx
  obtain ⟨b, -, rfl⟩ := List.mem_map.mp hx
  exact b.toNat_lt

@[simp] theorem toBytes_length (w n : ℕ) : (toBytes w n).length = w := by
  induction w generalizing n with
  | zero => rfl
  | succ w ih => rw [toBytes, List.length_cons, ih]

theorem ofBytes_toBytes (w n : ℕ) : ofBytes (toBytes w n) = n % 256 ^ w := by
  induction w generalizing n with
  | zero => simp [toBytes, Nat.mod_one]
  | succ w ih =>
    have hb : (UInt8.ofNat n).toNat = n % 256 := by simp
    rw [toBytes, ofBytes_cons, ih, hb, pow_succ', Nat.mod_mul]

theorem toBytes_ofBytes (bs : List UInt8) : toBytes bs.length (ofBytes bs) = bs := by
  induction bs with
  | nil => rfl
  | cons b bs ih =>
    have hb : b.toNat < 256 := b.toNat_lt
    have hhead : UInt8.ofNat (b.toNat + 256 * ofBytes bs) = b := by
      apply UInt8.toNat_inj.mp
      rw [UInt8.toNat_ofNat']
      omega
    have htail : (b.toNat + 256 * ofBytes bs) / 256 = ofBytes bs := by omega
    rw [List.length_cons, ofBytes_cons, toBytes, hhead, htail, ih]

theorem toBytes_of_length {w : ℕ} {bs : List UInt8} (h : bs.length = w) : toBytes w (ofBytes bs) = bs := by
  subst h
  exact toBytes_ofBytes bs

@[simp] theorem xorBytes_length (as bs : List UInt8) : (xorBytes as bs).length = min as.length bs.length :=
  List.length_zipWith

theorem toBytes_xor (w a b : ℕ) : toBytes w (a ^^^ b) = xorBytes (toBytes w a) (toBytes w b) := by
  induction w generalizing a b with
  | zero => rfl
  | succ w ih =>
    have hhead : UInt8.ofNat (a ^^^ b) = UInt8.ofNat a ^^^ UInt8.ofNat b := by
      apply UInt8.toNat_inj.mp
      rw [UInt8.toNat_xor, UInt8.toNat_ofNat', UInt8.toNat_ofNat', UInt8.toNat_ofNat', Nat.xor_mod_two_pow]
    have htail : (a ^^^ b) / 256 = a / 256 ^^^ b / 256 := Nat.xor_div_two_pow (n := 8)
    rw [toBytes, hhead, htail, ih]
    rfl

theorem toBytes_uint64_xor {as bs : List UInt8} (ha : as.length = 8) (hb : bs.length = 8) :
    toBytes 8 (UInt64.ofNat (ofBytes as) ^^^ UInt64.ofNat (ofBytes bs)).toNat = xorBytes as bs := by
  have hlt (cs : List UInt8) (hc : cs.length = 8) : (UInt64.ofNat (ofBytes cs)).toNat = ofBytes cs := by
    have hcs : ofBytes cs < 2 ^ 64 := by simpa [hc] using ofBytes_lt cs
    rw [UInt64.toNat_ofNat', Nat.mod_eq_of_lt hcs]
  rw [UInt64.toNat_xor, hlt as ha, hlt bs hb, toBytes_xor, toBytes_of_length ha, toBytes_of_length hb]

theorem toBytes_uint32 {bs : List UInt8} (hb : bs.length = 4) : toBytes 4 (UInt32.ofNat (ofBytes bs)).toNat = bs := by
  have hbs : ofBytes bs < 2 ^ 32 := by simpa [hb] using ofBytes_lt bs
  rw [UInt32.toNat_ofNat', Nat.mod_eq_of_lt hbs, toBytes_of_length hb]

theorem ofBytes_uint32 (word : UInt32) : UInt32.ofNat (ofBytes (toBytes 4 word.toNat)) = word := by
  have hword : word.toNat < 256 ^ 4 := word.toNat_lt
  rw [ofBytes_toBytes, Nat.mod_eq_of_lt hword, UInt32.ofNat_toNat]

theorem xorBytes_append {as as' bs bs' : List UInt8} (h : as.length = bs.length) :
    xorBytes (as ++ as') (bs ++ bs') = xorBytes as bs ++ xorBytes as' bs' := List.zipWith_append h

theorem flatMap_xorBytes {f g : ℕ → List UInt8} {n : ℕ} (h : ∀ i, i < n → (f i).length = (g i).length) :
    ((List.range n).flatMap fun i => xorBytes (f i) (g i)) = xorBytes ((List.range n).flatMap f) ((List.range n).flatMap g) := by
  have hlen (k : ℕ) (hk : k ≤ n) : ((List.range k).flatMap f).length = ((List.range k).flatMap g).length := by
    rw [List.length_flatMap, List.length_flatMap]
    congr 1
    apply List.map_congr_left
    intro i hi
    exact h i (Nat.lt_of_lt_of_le (List.mem_range.mp hi) hk)
  have hxor (k : ℕ) (hk : k ≤ n) : ((List.range k).flatMap fun i => xorBytes (f i) (g i)) =
      xorBytes ((List.range k).flatMap f) ((List.range k).flatMap g) := by
    induction k with
    | zero => rfl
    | succ k ih =>
      rw [List.range_succ, List.flatMap_append, List.flatMap_append, List.flatMap_append, ih (by omega),
        xorBytes_append (hlen k (by omega)), List.flatMap_singleton, List.flatMap_singleton, List.flatMap_singleton]
  exact hxor n le_rfl

end TronlinkCore.LittleEndian
