import TronlinkCore.Library.Numerals

namespace TronlinkCore.Text

/-- `String(value)` -/
def ofInt64 (value : Int64) : Text :=
  if value.toInt < 0 then '-' :: Nat.toDigits 10 value.toInt.natAbs else Nat.toDigits 10 value.toInt.natAbs

/-- `Int(text)` -/
def int64? : Text → Option Int64
  | [] => none
  | c :: digits =>
    if c = '+' then (magnitude 10 (2 ^ 63) digits).map Int64.ofNat
    else if c = '-' then (magnitude 10 (2 ^ 63 + 1) digits).map fun n : ℕ => Int64.ofInt (-(n : ℤ))
    else (magnitude 10 (2 ^ 63) (c :: digits)).map Int64.ofNat

theorem magnitude_toDigits {size n : ℕ} (h : n < size) : magnitude 10 size (Nat.toDigits 10 n) = some n := by
  rw [magnitude, if_neg Nat.toDigits_ne_nil, numeral_ten (isDigits_toDigits n), decimalValue_toDigits]
  exact Option.filter_eq_some_iff.mpr ⟨rfl, decide_eq_true h⟩

theorem int64?_ofInt64 (value : Int64) : int64? (ofInt64 value) = some value := by
  have hlow := value.le_toInt
  have hhigh := value.toInt_lt
  unfold ofInt64
  split
  · rename_i hneg
    have hmagnitude : -(value.toInt.natAbs : ℤ) = value.toInt := by omega
    rw [int64?, if_neg (by decide), if_pos rfl, magnitude_toDigits (by omega), Option.map_some, hmagnitude,
      Int64.ofInt_toInt]
  · rename_i hnonneg
    have hmagnitude : Int64.ofNat value.toInt.natAbs = value := by
      rw [← Int64.ofInt_eq_ofNat, Int.natAbs_of_nonneg (by omega), Int64.ofInt_toInt]
    cases hdigits : Nat.toDigits 10 value.toInt.natAbs with
    | nil => exact absurd hdigits Nat.toDigits_ne_nil
    | cons c digits =>
      have hc : c.isDigit := isDigits_toDigits value.toInt.natAbs c (by rw [hdigits]; exact List.mem_cons_self)
      have hplus : c ≠ '+' := ne_of_isDigit hc rfl
      have hminus : c ≠ '-' := ne_of_isDigit hc rfl
      rw [int64?, if_neg hplus, if_neg hminus, ← hdigits, magnitude_toDigits (by omega), Option.map_some, hmagnitude]

theorem ofInt64_injective {a b : Int64} (h : ofInt64 a = ofInt64 b) : a = b := by
  have ha := int64?_ofInt64 a
  rw [h, int64?_ofInt64 b] at ha
  exact (Option.some.inj ha).symm

theorem mem_ofInt64 {value : Int64} {c : Char} (h : c ∈ ofInt64 value) : c = '-' ∨ c.isDigit := by
  unfold ofInt64 at h
  split at h
  · rcases List.mem_cons.mp h with rfl | h
    · exact .inl rfl
    · exact .inr (isDigits_toDigits _ c h)
  · exact .inr (isDigits_toDigits _ c h)

theorem ofInt64_ne_nil (value : Int64) : ofInt64 value ≠ [] := by
  unfold ofInt64
  split
  · exact List.cons_ne_nil _ _
  · exact Nat.toDigits_ne_nil

end TronlinkCore.Text
