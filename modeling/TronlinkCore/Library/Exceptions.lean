/-!
Failures of computations without a state: a missing value, and a check that
does not hold.
-/

namespace TronlinkCore.Exceptions

variable {ε α β : Type}

def unlessNone (error : ε) : Option α → Except ε α
  | some a => .ok a
  | none => .error error

def guardThat (p : Prop) [Decidable p] (error : ε) : Except ε Unit := if p then .ok () else .error error

@[simp] theorem unlessNone_eq_ok {error : ε} {o : Option α} {a : α} : unlessNone error o = .ok a ↔ o = some a := by
  cases o with
  | none => simp [unlessNone]
  | some b => simp [unlessNone]

@[simp] theorem guardThat_eq_ok {p : Prop} [Decidable p] {error : ε} {u : Unit} :
    guardThat p error = .ok u ↔ p := by
  by_cases h : p
  · simp [guardThat, h]
  · simp [guardThat, h]

theorem guardThat_of {p : Prop} [Decidable p] {error : ε} (h : p) : guardThat p error = .ok () := if_pos h

theorem except_bind_eq_ok {x : Except ε α} {f : α → Except ε β} {b : β} :
    x >>= f = .ok b ↔ ∃ a, x = .ok a ∧ f a = .ok b := by
  cases x with
  | error e => simp [bind, Except.bind]
  | ok a => simp [bind, Except.bind]

@[simp] theorem except_ok_bind (a : α) (f : α → Except ε β) : (Except.ok a >>= f : Except ε β) = f a := rfl

end TronlinkCore.Exceptions
