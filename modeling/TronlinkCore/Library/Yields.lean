import TronlinkCore.Library.Outcome

/-!
Total correctness of computations on a state: from a state, a computation ends
with a value, and value and state satisfy a condition. Loops run through a list
of indexes, as ranges and strides of machine integers do.
-/

namespace TronlinkCore

open Outcome

variable {σ α β : Type}

def Yields (x : StateT σ Outcome α) (s : σ) (Q : α → σ → Prop) : Prop := ∃ a t, x s = ok (a, t) ∧ Q a t

/-- `stride(from: 0, to:by:)` -/
def stride (bound step : ℕ) : List ℕ := (List.range ((bound + step - 1) / step)).map (step * ·)

namespace Yields

variable {x : StateT σ Outcome α} {f : α → StateT σ Outcome β} {s : σ} {P Q : α → σ → Prop} {R : β → σ → Prop}

theorem pure {a : α} (h : Q a s) : Yields (Pure.pure a) s Q := ⟨a, s, rfl, h⟩

theorem mono (hx : Yields x s P) (h : ∀ a t, P a t → Q a t) : Yields x s Q := by
  obtain ⟨a, t, hrun, hp⟩ := hx
  exact ⟨a, t, hrun, h a t hp⟩

theorem bind (hx : Yields x s P) (hf : ∀ a t, P a t → Yields (f a) t R) : Yields (x >>= f) s R := by
  obtain ⟨a, t, hrun, hp⟩ := hx
  obtain ⟨b, u, hrun', hr⟩ := hf a t hp
  refine ⟨b, u, ?_, hr⟩
  change x s >>= (fun p => f p.1 p.2) = ok (b, u)
  rw [hrun, ok_bind]
  exact hrun'

theorem lift {o : Outcome α} {a : α} (ho : o = ok a) (h : Q a s) :
    Yields (liftM o : StateT σ Outcome α) s Q := by
  subst ho
  exact ⟨a, s, rfl, h⟩

theorem lift_bind {o : Outcome α} {a : α} (ho : o = ok a) (h : Yields (f a) s R) :
    Yields ((liftM o : StateT σ Outcome α) >>= f) s R := by
  apply bind (P := fun b t => b = a ∧ t = s) (lift ho ⟨rfl, rfl⟩)
  rintro b t ⟨rfl, rfl⟩
  exact h

theorem forM {body : β → StateT σ Outcome Unit} (I : ℕ → σ → Prop) {indexes : List β}
    (hstep : ∀ k b t, indexes[k]? = some b → I k t → Yields (body b) t fun _ u => I (k + 1) u) (h : I 0 s) :
    Yields (indexes.forM body) s fun _ t => I indexes.length t := by
  induction indexes generalizing s I with
  | nil => exact pure h
  | cons b indexes ih =>
    rw [List.forM_eq_forM, List.forM_cons]
    apply bind (hstep 0 b s rfl h)
    intro _ t ht
    exact ih (fun k => I (k + 1)) (fun k c u hk => hstep (k + 1) c u hk) ht

theorem range {body : ℕ → StateT σ Outcome Unit} (I : ℕ → σ → Prop) {n : ℕ}
    (hstep : ∀ k t, k < n → I k t → Yields (body k) t fun _ u => I (k + 1) u) (h : I 0 s) :
    Yields ((List.range n).forM body) s fun _ t => I n t := by
  have hloop : Yields ((List.range n).forM body) s fun _ t => I (List.range n).length t := by
    apply forM I _ h
    intro k b t hk
    obtain ⟨hlt, rfl⟩ := List.getElem?_eq_some_iff.mp hk
    rw [List.getElem_range]
    exact hstep k t (by simpa using hlt)
  rwa [List.length_range] at hloop

theorem stride {body : ℕ → StateT σ Outcome Unit} (I : ℕ → σ → Prop) {step n : ℕ} (hpos : 0 < step)
    (hstep : ∀ k t, k < n → I k t → Yields (body (step * k)) t fun _ u => I (k + 1) u) (h : I 0 s) :
    Yields ((TronlinkCore.stride (step * n) step).forM body) s fun _ t => I n t := by
  have hlen : (step * n + step - 1) / step = n := by
    rw [Nat.add_sub_assoc hpos, Nat.mul_add_div hpos, Nat.div_eq_of_lt (by omega), Nat.add_zero]
  have hstride : TronlinkCore.stride (step * n) step = (List.range n).map (step * ·) := by
    rw [TronlinkCore.stride, hlen]
  have hloop : Yields (((List.range n).map (step * ·)).forM body) s
      fun _ t => I ((List.range n).map (step * ·)).length t := by
    apply forM I _ h
    intro k b t hk
    obtain ⟨hlt, rfl⟩ := List.getElem?_eq_some_iff.mp hk
    rw [List.getElem_map, List.getElem_range]
    exact hstep k t (by simpa using hlt)
  rw [List.length_map, List.length_range] at hloop
  rwa [hstride]

end Yields

end TronlinkCore
