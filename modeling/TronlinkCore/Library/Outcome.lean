import Mathlib.Algebra.BigOperators.Group.List.Basic
import Mathlib.Algebra.GroupWithZero.Nat

/-!
Results of a metered computation: a value, an ordinary failure, a failure
because a resource ledger ran short, or a run-time trap. The ledger is passed
along explicitly; `spend` is the computation that only charges for its result.
-/

namespace TronlinkCore

inductive Outcome (α : Type) where
  | ok (a : α)
  | fail
  | exhausted
  | trap
  deriving DecidableEq, Repr

namespace Outcome

variable {α β γ : Type}

protected def bind : Outcome α → (α → Outcome β) → Outcome β
  | ok a, f => f a
  | fail, _ => fail
  | exhausted, _ => exhausted
  | trap, _ => trap

instance : Monad Outcome where
  pure := ok
  bind := Outcome.bind

def ensure (p : Prop) [Decidable p] : Outcome Unit := if p then ok () else fail

def afford (p : Prop) [Decidable p] : Outcome Unit := if p then ok () else exhausted

def check (p : Prop) [Decidable p] : Outcome Unit := if p then ok () else trap

def ofOption : Option α → Outcome α
  | some a => ok a
  | none => fail

def failAsExhausted : Outcome α → Outcome α
  | fail => exhausted
  | x => x

def element (xs : List α) (i : ℕ) : Outcome α :=
  match xs[i]? with
  | some a => ok a
  | none => trap

def toOption : Outcome α → Option α
  | ok a => some a
  | _ => none

def Rejected (x : Outcome α) : Prop := x = fail ∨ x = exhausted

theorem rejected_of {x : Outcome α} (ht : x ≠ trap) (ho : ∀ a, x ≠ ok a) : Rejected x := by
  cases x with
  | ok a => exact absurd rfl (ho a)
  | fail => exact .inl rfl
  | exhausted => exact .inr rfl
  | trap => exact absurd rfl ht

@[simp] theorem pure_eq (a : α) : (pure a : Outcome α) = ok a := rfl
@[simp] theorem ok_bind (a : α) (f : α → Outcome β) : ok a >>= f = f a := rfl
@[simp] theorem fail_bind (f : α → Outcome β) : (fail : Outcome α) >>= f = fail := rfl
@[simp] theorem exhausted_bind (f : α → Outcome β) : (exhausted : Outcome α) >>= f = exhausted := rfl
@[simp] theorem trap_bind (f : α → Outcome β) : (trap : Outcome α) >>= f = trap := rfl

theorem bind_assoc (x : Outcome α) (f : α → Outcome β) (g : β → Outcome γ) :
    x >>= f >>= g = x >>= fun a => f a >>= g := by
  cases x <;> rfl

instance : LawfulMonad Outcome := .mk' Outcome (fun x => by cases x <;> rfl) (fun _ _ => rfl) bind_assoc

theorem bind_congr_ok {x : Outcome α} {f g : α → Outcome β} (h : ∀ a, x = ok a → f a = g a) : x >>= f = x >>= g := by
  cases x with
  | ok a => exact h a rfl
  | fail | exhausted | trap => rfl

theorem bind_eq_ok {x : Outcome α} {f : α → Outcome β} {b : β} :
    x >>= f = ok b ↔ ∃ a, x = ok a ∧ f a = ok b := by
  cases x <;> simp

theorem bind_ne_trap {x : Outcome α} {f : α → Outcome β} (hx : x ≠ trap)
    (hf : ∀ a, x = ok a → f a ≠ trap) : x >>= f ≠ trap := by
  cases x with
  | ok a => exact hf a rfl
  | fail => simp
  | exhausted => simp
  | trap => exact absurd rfl hx

theorem rejected_bind {x : Outcome α} (h : Rejected x) (f : α → Outcome β) : Rejected (x >>= f) := by
  rcases h with h | h
  · rw [h]
    exact .inl rfl
  · rw [h]
    exact .inr rfl

theorem ite_ne_trap {p : Prop} [Decidable p] {x y : Outcome α} (hx : x ≠ trap) (hy : y ≠ trap) :
    (if p then x else y) ≠ trap := by
  split
  · exact hx
  · exact hy

@[simp] theorem ensure_true {p : Prop} [Decidable p] (h : p) : ensure p = ok () := if_pos h
@[simp] theorem afford_true {p : Prop} [Decidable p] (h : p) : afford p = ok () := if_pos h
@[simp] theorem check_true {p : Prop} [Decidable p] (h : p) : check p = ok () := if_pos h

@[simp] theorem ensure_eq_ok {p : Prop} [Decidable p] {u : Unit} : ensure p = ok u ↔ p := by
  by_cases h : p <;> simp [ensure, h]

@[simp] theorem afford_eq_ok {p : Prop} [Decidable p] {u : Unit} : afford p = ok u ↔ p := by
  by_cases h : p <;> simp [afford, h]

@[simp] theorem check_eq_ok {p : Prop} [Decidable p] {u : Unit} : check p = ok u ↔ p := by
  by_cases h : p <;> simp [check, h]

@[simp] theorem ensure_ne_trap (p : Prop) [Decidable p] : ensure p ≠ trap := by
  by_cases h : p <;> simp [ensure, h]

@[simp] theorem afford_ne_trap (p : Prop) [Decidable p] : afford p ≠ trap := by
  by_cases h : p <;> simp [afford, h]

@[simp] theorem ofOption_some (a : α) : ofOption (some a) = ok a := rfl

@[simp] theorem ofOption_eq_ok {o : Option α} {a : α} : ofOption o = ok a ↔ o = some a := by
  cases o <;> simp [ofOption]

@[simp] theorem ofOption_ne_trap (o : Option α) : ofOption o ≠ trap := by
  cases o <;> simp [ofOption]

@[simp] theorem failAsExhausted_ok (a : α) : failAsExhausted (ok a) = ok a := rfl
@[simp] theorem failAsExhausted_fail : failAsExhausted (fail : Outcome α) = exhausted := rfl

@[simp] theorem failAsExhausted_eq_ok {x : Outcome α} {a : α} :
    failAsExhausted x = ok a ↔ x = ok a := by
  cases x <;> simp [failAsExhausted]

@[simp] theorem failAsExhausted_eq_trap {x : Outcome α} : failAsExhausted x = trap ↔ x = trap := by
  cases x <;> simp [failAsExhausted]

@[simp] theorem element_eq_ok {xs : List α} {i : ℕ} {a : α} : element xs i = ok a ↔ xs[i]? = some a := by
  unfold element
  split <;> simp_all

theorem element_ne_trap {xs : List α} {i : ℕ} (h : i < xs.length) : element xs i ≠ trap := by
  rw [element, List.getElem?_eq_getElem h]
  simp

@[simp] theorem toOption_eq_some {x : Outcome α} {a : α} : x.toOption = some a ↔ x = ok a := by
  cases x <;> simp [toOption]

end Outcome

open Outcome

/-- Amounts that can be charged against a balance, one after another or at once. -/
class Ledger (β : Type) extends Add β, Sub β, Zero β, LE β where
  zero_le (b : β) : 0 ≤ b
  sub_zero (b : β) : b - 0 = b
  add_le_iff (a b c : β) : a + b ≤ c ↔ a ≤ c ∧ b ≤ c - a
  sub_add (a b c : β) : c - (a + b) = c - a - b

instance : Ledger ℕ where
  zero_le := Nat.zero_le
  sub_zero := Nat.sub_zero
  add_le_iff a b c := by omega
  sub_add a b c := by omega

section

variable {α β γ : Type} [Ledger β] [DecidableLE β]

def spend (cost : β) (a : α) (balance : β) : Outcome (α × β) :=
  if cost ≤ balance then ok (a, balance - cost) else exhausted

theorem spend_eq_ok {cost balance rest : β} {a x : α} :
    spend cost a balance = ok (x, rest) ↔ cost ≤ balance ∧ x = a ∧ rest = balance - cost := by
  by_cases h : cost ≤ balance
  · simp [spend, h, eq_comm]
  · simp [spend, h]

theorem spend_of_le {cost balance : β} (a : α) (h : cost ≤ balance) :
    spend cost a balance = ok (a, balance - cost) := if_pos h

theorem spend_zero (a : α) (balance : β) : spend 0 a balance = ok (a, balance) := by
  simp [spend, Ledger.zero_le, Ledger.sub_zero]

theorem afford_spend {p : Prop} [Decidable p] {cost balance : β} {a : α} {f : Outcome (α × β)}
    (h : cost ≤ balance → p) (hf : p → f = spend cost a balance) :
    (do afford p; f) = spend cost a balance := by
  by_cases hp : p
  · rw [afford_true hp, ok_bind, hf hp]
  · have hn : ¬ cost ≤ balance := fun hc => hp (h hc)
    rw [afford, if_neg hp, spend, if_neg hn]
    rfl

theorem spend_bind (c : β) (a : α) (balance : β) (f : α × β → Outcome (γ × β)) (d : β) (x : γ)
    (hf : c ≤ balance → f (a, balance - c) = spend d x (balance - c)) :
    spend c a balance >>= f = spend (c + d) x balance := by
  by_cases hc : c ≤ balance
  · rw [spend_of_le a hc, ok_bind, hf hc]
    simp only [spend, Ledger.add_le_iff, hc, true_and, Ledger.sub_add]
  · have hcd : ¬ c + d ≤ balance := fun h => hc ((Ledger.add_le_iff c d balance).mp h).1
    simp [spend, hc, hcd]

end

end TronlinkCore
