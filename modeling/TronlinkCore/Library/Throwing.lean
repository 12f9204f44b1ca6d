import Mathlib.Order.Defs.Unbundled

/-!
Computations on a state that may throw. A thrown error does not undo what was
done to the state before it.
-/

namespace TronlinkCore

def Throwing (σ ε α : Type) : Type := σ → Except ε α × σ

namespace Throwing

variable {σ ε α β : Type}

protected def pure (a : α) : Throwing σ ε α := fun s => (.ok a, s)

protected def bind (x : Throwing σ ε α) (f : α → Throwing σ ε β) : Throwing σ ε β := fun s =>
  match x s with
  | (.ok a, s) => f a s
  | (.error e, s) => (.error e, s)

instance : Monad (Throwing σ ε) where
  pure := Throwing.pure
  bind := Throwing.bind

def fail (e : ε) : Throwing σ ε α := fun s => (.error e, s)

def state : Throwing σ ε σ := fun s => (.ok s, s)

def update (f : σ → σ) : Throwing σ ε Unit := fun s => (.ok (), f s)

def ofExcept (x : Except ε α) : Throwing σ ε α := fun s => (x, s)

def require (p : Prop) [Decidable p] (e : ε) : Throwing σ ε Unit := if p then pure () else fail e

/-- `do { … } catch`: the error becomes a value. -/
def attempt (x : Throwing σ ε α) : Throwing σ ε (Except ε α) := fun s => (.ok (x s).1, (x s).2)

def optional {δ : Type} (x : Throwing σ δ α) : Throwing σ ε (Option α) := fun s => (.ok (x s).1.toOption, (x s).2)

/-- `cleanup` runs after `x` however `x` ends, and its own error is dropped. -/
def deferring (cleanup : Throwing σ ε Unit) (x : Throwing σ ε α) : Throwing σ ε α := fun s =>
  ((x s).1, (cleanup (x s).2).2)

variable {x : Throwing σ ε α} {f : α → Throwing σ ε β} {s t : σ} {a : α} {b : β} {e : ε}

@[simp] theorem pure_run (a : α) (s : σ) : (pure a : Throwing σ ε α) s = (.ok a, s) := rfl
@[simp] theorem fail_run (e : ε) (s : σ) : (fail e : Throwing σ ε α) s = (.error e, s) := rfl
@[simp] theorem state_run (s : σ) : (state : Throwing σ ε σ) s = (.ok s, s) := rfl
@[simp] theorem update_run (f : σ → σ) (s : σ) : (update f : Throwing σ ε Unit) s = (.ok (), f s) := rfl
@[simp] theorem ofExcept_run (x : Except ε α) (s : σ) : (ofExcept x : Throwing σ ε α) s = (x, s) := rfl
@[simp] theorem attempt_run (s : σ) : attempt x s = (.ok (x s).1, (x s).2) := rfl

theorem bind_run (x : Throwing σ ε α) (f : α → Throwing σ ε β) (s : σ) : (x >>= f) s =
    match x s with
    | (.ok a, t) => f a t
    | (.error e, t) => (.error e, t) := rfl

theorem run_of_fst {r : Except ε α} (h : (x s).1 = r) : x s = (r, (x s).2) := Prod.ext h rfl

theorem bind_of_ok (h : x s = (.ok a, t)) : (x >>= f) s = f a t := by rw [bind_run, h]

theorem bind_of_error (h : x s = (.error e, t)) : (x >>= f) s = (.error e, t) := by rw [bind_run, h]

@[simp] theorem state_bind (f : σ → Throwing σ ε β) (s : σ) : (state >>= f) s = f s s := rfl

@[simp] theorem update_bind (g : σ → σ) (f : Unit → Throwing σ ε β) (s : σ) : (update g >>= f) s = f () (g s) := rfl

theorem bind_bind {γ : Type} (x : Throwing σ ε α) (f : α → Throwing σ ε β) (g : β → Throwing σ ε γ) (s : σ) :
    ((x >>= f) >>= g) s = (x >>= fun a => f a >>= g) s := by
  rcases hx : x s with ⟨_ | a, t⟩
  · rw [bind_of_error hx, bind_of_error (bind_of_error hx)]
  · rw [bind_of_ok hx, bind_run, bind_of_ok hx]
    rfl

theorem bind_eq_ok : (x >>= f) s = (.ok b, t) ↔ ∃ a u, x s = (.ok a, u) ∧ f a u = (.ok b, t) := by
  rw [bind_run]
  constructor
  · intro h
    split at h
    · exact ⟨_, _, ‹_›, h⟩
    · simp at h
  · rintro ⟨a, u, hx, hf⟩
    rw [hx]
    exact hf

@[simp] theorem require_eq_ok {p : Prop} [Decidable p] {u : Unit} :
    (require p e : Throwing σ ε Unit) s = (.ok u, t) ↔ p ∧ s = t := by
  by_cases h : p
  · simp [require, h]
  · simp [require, h]

theorem ofExcept_bind_eq_ok {x : Except ε α} : (ofExcept x >>= f) s = (.ok b, t) ↔ ∃ a, x = .ok a ∧ f a s = (.ok b, t) := by
  rw [bind_eq_ok]
  constructor
  · rintro ⟨a, u, h, hf⟩
    obtain ⟨hx, rfl⟩ := Prod.mk.inj h
    exact ⟨a, hx, hf⟩
  · rintro ⟨a, hx, hf⟩
    exact ⟨a, s, by rw [ofExcept_run, hx], hf⟩

theorem require_bind_eq_ok {p : Prop} [Decidable p] {f : Unit → Throwing σ ε β} :
    (require p e >>= f) s = (.ok b, t) ↔ p ∧ f () s = (.ok b, t) := by
  rw [bind_eq_ok]
  constructor
  · rintro ⟨u, v, h, hf⟩
    obtain ⟨hp, rfl⟩ := require_eq_ok.mp h
    exact ⟨hp, hf⟩
  · rintro ⟨hp, hf⟩
    exact ⟨(), s, require_eq_ok.mpr ⟨hp, rfl⟩, hf⟩

theorem require_run {p : Prop} [Decidable p] (h : p) : (require p e : Throwing σ ε Unit) s = (.ok (), s) :=
  require_eq_ok.mpr ⟨h, rfl⟩

variable (R : σ → σ → Prop)

def Keeps (x : Throwing σ ε α) : Prop := ∀ s, R s (x s).2

def Atomic (x : Throwing σ ε α) : Prop := ∀ s e t, x s = (.error e, t) → R s t

def NeverThrows (x : Throwing σ ε α) : Prop := ∀ s, ∃ a, (x s).1 = .ok a

def ThrowsOnly (P : ε → Prop) (x : Throwing σ ε α) : Prop := ∀ s e, (x s).1 = .error e → P e

variable {R}

theorem Keeps.atomic (h : Keeps R x) : Atomic R x := by
  intro s e t hx
  have := h s
  rwa [hx] at this

theorem NeverThrows.atomic (h : NeverThrows x) : Atomic R x := by
  intro s e t hx
  obtain ⟨a, ha⟩ := h s
  rw [hx] at ha
  cases ha

theorem update_neverThrows (f : σ → σ) : NeverThrows (update f : Throwing σ ε Unit) := fun _ => ⟨(), rfl⟩

theorem state_neverThrows : NeverThrows (state : Throwing σ ε σ) := fun s => ⟨s, rfl⟩

theorem attempt_neverThrows (x : Throwing σ ε α) : NeverThrows (attempt x) := fun s => ⟨(x s).1, rfl⟩

theorem pure_neverThrows (a : α) : NeverThrows (pure a : Throwing σ ε α) := fun _ => ⟨a, rfl⟩

theorem NeverThrows.bind (hx : NeverThrows x) (hf : ∀ a, NeverThrows (f a)) : NeverThrows (x >>= f) := by
  intro s
  obtain ⟨a, ha⟩ := hx s
  rw [bind_of_ok (Prod.ext ha rfl)]
  exact hf a _

theorem Atomic.andThen (hx : Atomic R x) (hf : ∀ a, NeverThrows (f a)) : Atomic R (x >>= f) := by
  intro s e t h
  rw [bind_run] at h
  split at h
  · obtain ⟨b, hb⟩ := hf _ _
    rw [h] at hb
    cases hb
  · cases h
    exact hx s _ _ ‹_›

theorem NeverThrows.run {x : Throwing σ ε Unit} (h : NeverThrows x) (s : σ) : x s = (.ok (), (x s).2) := by
  obtain ⟨u, hu⟩ := h s
  exact run_of_fst hu

theorem Keeps.of_run {r : Except ε α} (h : Keeps R x) (hx : x s = (r, t)) : R s t := by
  have := h s
  rwa [hx] at this

theorem Keeps.attempt (h : Keeps R x) : Keeps R (attempt x) := h

theorem Atomic.after {S : σ → σ → Prop} (hRS : ∀ s t u, R s t → S t u → S s u) (hR : ∀ s t, R s t → S s t)
    (hx : Keeps R x) (hf : ∀ a, Atomic S (f a)) : Atomic S (x >>= f) := by
  intro s e t h
  have hs := hx s
  rw [bind_run] at h
  split at h
  · rw [‹x s = _›] at hs
    exact hRS _ _ _ hs (hf _ _ _ _ h)
  · rw [‹x s = _›] at hs
    cases h
    exact hR _ _ hs

theorem Atomic.mono {S : σ → σ → Prop} (hRS : ∀ s t, R s t → S s t) (hx : Atomic R x) : Atomic S x :=
  fun s e t h => hRS s t (hx s e t h)

theorem Keeps.mono {S : σ → σ → Prop} (hRS : ∀ s t, R s t → S s t) (hx : Keeps R x) : Keeps S x :=
  fun s => hRS s _ (hx s)

section

variable {P : ε → Prop}

theorem NeverThrows.throwsOnly (h : NeverThrows x) : ThrowsOnly P x := by
  intro s e he
  obtain ⟨a, ha⟩ := h s
  rw [ha] at he
  cases he

theorem throwsOnly_fail (he : P e) : ThrowsOnly P (fail e : Throwing σ ε α) := by
  intro s e' h
  cases h
  exact he

theorem throwsOnly_require {p : Prop} [Decidable p] (he : P e) : ThrowsOnly P (require p e : Throwing σ ε Unit) := by
  unfold require
  split
  · exact (pure_neverThrows ()).throwsOnly
  · exact throwsOnly_fail he

theorem ThrowsOnly.bind (hx : ThrowsOnly P x) (hf : ∀ a, ThrowsOnly P (f a)) : ThrowsOnly P (x >>= f) := by
  intro s e h
  rw [bind_run] at h
  split at h
  · exact hf _ _ _ h
  · cases h
    exact hx s _ (by rw [‹x s = _›])

theorem ThrowsOnly.deferring {cleanup : Throwing σ ε Unit} (hx : ThrowsOnly P x) : ThrowsOnly P (deferring cleanup x) :=
  fun s e h => hx s e h

end

variable [IsPreorder σ R]

theorem keeps_pure (a : α) : Keeps R (pure a : Throwing σ ε α) := fun s => refl s

theorem keeps_fail (e : ε) : Keeps R (fail e : Throwing σ ε α) := fun s => refl s

theorem keeps_state : Keeps R (state : Throwing σ ε σ) := fun s => refl s

theorem keeps_ofExcept (x : Except ε α) : Keeps R (ofExcept x : Throwing σ ε α) := fun s => refl s

theorem keeps_require (p : Prop) [Decidable p] (e : ε) : Keeps R (require p e : Throwing σ ε Unit) := by
  unfold require
  split
  · exact keeps_pure ()
  · exact keeps_fail e

theorem bind_keeps (hx : R s (x s).2) (hf : ∀ a, Keeps R (f a)) : R s ((x >>= f) s).2 := by
  rw [bind_run]
  split
  · rw [‹x s = _›] at hx
    exact IsTrans.trans _ _ _ hx (hf _ _)
  · rw [‹x s = _›] at hx
    exact hx

theorem Keeps.bind (hx : Keeps R x) (hf : ∀ a, Keeps R (f a)) : Keeps R (x >>= f) := fun s => bind_keeps (hx s) hf

theorem Atomic.bind (hx : Keeps R x) (hf : ∀ a, Atomic R (f a)) : Atomic R (x >>= f) :=
  .after (fun _ _ _ => IsTrans.trans _ _ _) (fun _ _ => id) hx hf

theorem Keeps.deferring {cleanup : Throwing σ ε Unit} (hc : Keeps R cleanup) (hx : Keeps R x) :
    Keeps R (deferring cleanup x) := fun s => IsTrans.trans _ _ _ (hx s) (hc _)

theorem Atomic.deferring {cleanup : Throwing σ ε Unit} (hc : Keeps R cleanup) (hx : Atomic R x) :
    Atomic R (deferring cleanup x) := by
  intro s e t h
  simp only [Throwing.deferring, Prod.mk.injEq] at h
  obtain ⟨h, rfl⟩ := h
  exact IsTrans.trans _ _ _ (hx s e _ (Prod.ext h rfl)) (hc _)

end Throwing

end TronlinkCore
