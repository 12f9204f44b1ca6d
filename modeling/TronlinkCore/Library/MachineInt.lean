import TronlinkCore.Library.Outcome

/-!
64-bit integers as natural numbers. Positions and counts are never negative
here, so a difference below zero is a trap like a sum that does not fit.
-/

namespace TronlinkCore

open Outcome

namespace MachineInt

/-- `Int.max` -/
def intMax : ℕ := 9223372036854775807

/-- `UInt64.max + 1` -/
def uint64Size : ℕ := 18446744073709551616

def addInt (a b : ℕ) : Outcome ℕ := if a + b ≤ intMax then ok (a + b) else trap

def subInt (a b : ℕ) : Outcome ℕ := if b ≤ a then ok (a - b) else trap

def mulInt (a b : ℕ) : Outcome ℕ := if a * b ≤ intMax then ok (a * b) else trap

def subInt64 (a b : Int64) : Outcome Int64 := if (a - b).toInt = a.toInt - b.toInt then ok (a - b) else trap

def divInt64 (a b : Int64) : Outcome Int64 := if b = 0 ∨ a = Int64.minValue ∧ b = -1 then trap else ok (a / b)

def addUInt64 (a b : ℕ) : Outcome ℕ := if a + b < uint64Size then ok (a + b) else trap

def toInt (value : ℕ) : Outcome ℕ := if value ≤ intMax then ok value else trap

def addingReportingOverflow (a b : ℕ) : ℕ × Bool := ((a + b) % uint64Size, decide (uint64Size ≤ a + b))

def multipliedReportingOverflow (a b : ℕ) : ℕ × Bool := ((a * b) % uint64Size, decide (uint64Size ≤ a * b))

@[simp] theorem addInt_eq_ok {a b c : ℕ} : addInt a b = ok c ↔ a + b ≤ intMax ∧ a + b = c := by
  by_cases h : a + b ≤ intMax <;> simp [addInt, h]

@[simp] theorem subInt_eq_ok {a b c : ℕ} : subInt a b = ok c ↔ b ≤ a ∧ a - b = c := by
  by_cases h : b ≤ a <;> simp [subInt, h]

@[simp] theorem toInt_eq_ok {a c : ℕ} : toInt a = ok c ↔ a ≤ intMax ∧ a = c := by
  by_cases h : a ≤ intMax <;> simp [toInt, h]

theorem intMax_lt : intMax < uint64Size := by decide

theorem addInt_of_le {a b : ℕ} (h : a + b ≤ intMax) : addInt a b = ok (a + b) := if_pos h

theorem subInt_of_le {a b : ℕ} (h : b ≤ a) : subInt a b = ok (a - b) := if_pos h

theorem mulInt_of_le {a b : ℕ} (h : a * b ≤ intMax) : mulInt a b = ok (a * b) := if_pos h

theorem toInt_of_le {a : ℕ} (h : a ≤ intMax) : toInt a = ok a := if_pos h

theorem addUInt64_of_lt {a b : ℕ} (h : a + b < uint64Size) : addUInt64 a b = ok (a + b) := if_pos h

theorem adding_le_iff {a b : ℕ} :
    (addingReportingOverflow a b).2 = false ∧ (addingReportingOverflow a b).1 ≤ intMax ↔ a + b ≤ intMax := by
  simp only [addingReportingOverflow, decide_eq_false_iff_not, Nat.not_le]
  constructor
  · rintro ⟨hlt, hle⟩
    rwa [Nat.mod_eq_of_lt hlt] at hle
  · intro h
    have hlt : a + b < uint64Size := Nat.lt_of_le_of_lt h intMax_lt
    exact ⟨hlt, by rwa [Nat.mod_eq_of_lt hlt]⟩

theorem multiplied_le_iff {a b : ℕ} :
    (multipliedReportingOverflow a b).2 = false ∧ (multipliedReportingOverflow a b).1 ≤ intMax ↔
      a * b ≤ intMax := by
  simp only [multipliedReportingOverflow, decide_eq_false_iff_not, Nat.not_le]
  constructor
  · rintro ⟨hlt, hle⟩
    rwa [Nat.mod_eq_of_lt hlt] at hle
  · intro h
    have hlt : a * b < uint64Size := Nat.lt_of_le_of_lt h intMax_lt
    exact ⟨hlt, by rwa [Nat.mod_eq_of_lt hlt]⟩

theorem adding_fst {a b : ℕ} (h : a + b ≤ intMax) : (addingReportingOverflow a b).1 = a + b :=
  Nat.mod_eq_of_lt (Nat.lt_of_le_of_lt h intMax_lt)

theorem multiplied_fst {a b : ℕ} (h : a * b ≤ intMax) : (multipliedReportingOverflow a b).1 = a * b :=
  Nat.mod_eq_of_lt (Nat.lt_of_le_of_lt h intMax_lt)

end MachineInt

/-- Bytes whose count is an `Int`. -/
structure Data where
  bytes : List UInt8
  count_le : bytes.length ≤ MachineInt.intMax
  deriving DecidableEq

namespace Data

def ofBytes (bytes : List UInt8) : Outcome Data :=
  if h : bytes.length ≤ MachineInt.intMax then ok ⟨bytes, h⟩ else trap

theorem ofBytes_eq_ok {bs : List UInt8} {d : Data} : ofBytes bs = ok d ↔ d.bytes = bs := by
  unfold ofBytes
  constructor
  · intro h
    split at h
    · cases h
      rfl
    · cases h
  · rintro rfl
    exact dif_pos d.count_le

theorem eq_of_bytes {d e : Data} (h : d.bytes = e.bytes) : d = e := by
  cases d
  cases e
  cases h
  rfl

end Data

end TronlinkCore
