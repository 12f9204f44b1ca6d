import TronlinkCore.Abi.Trees

/-!
What it costs to go through a tree. The encoder and the decoder differ only in
how often they compute the layout of a component.
-/

namespace TronlinkCore.Abi

open Outcome MachineInt HeadTail ParameterType

def visit (t : ParameterType) : Budget := ⟨1, t.typeSize, 0⟩

theorem sub_visit (t : ParameterType) (b : Budget) :
    (⟨b.nodes - 1, (b - Budget.ofType t.typeSize).typeNodes, (b - Budget.ofType t.typeSize).payloadBytes⟩ : Budget) =
      b - visit t := by
  simp [Budget.ext_iff, visit]

theorem visit_spend {α : Type} {t : ParameterType} {depth : ℕ} (ha : Admitted depth t) {b rest : Budget}
    {f : Layout × Budget → Outcome (α × Budget)} {a : α}
    (hf : 0 < b.nodes → f (t.shape, b - Budget.ofType t.typeSize) = spend rest a (b - visit t)) :
    (do afford (0 < b.nodes); let r ← Budget.layout t depth b; f r) = spend (visit t + rest) a b := by
  by_cases hv : visit t ≤ b
  · have hn : 0 < b.nodes := (Budget.le_iff.mp hv).1
    have ht := (Budget.le_iff.mp hv).2.1
    have hle : Budget.ofType t.typeSize ≤ b := by simpa [Budget.le_iff, visit] using ht
    rw [afford_true hn, ok_bind, Budget.layout_spend ha, spend_of_le _ hle, ok_bind, hf hn]
    simp only [spend, Ledger.add_le_iff, hv, true_and, Ledger.sub_add]
  · have hnot : ¬ visit t + rest ≤ b := fun h => hv ((Ledger.add_le_iff _ _ _).mp h).1
    rw [spend, if_neg hnot]
    by_cases hn : 0 < b.nodes
    · have hle : ¬ Budget.ofType t.typeSize ≤ b := by
        intro h
        apply hv
        simp only [Budget.le_iff, visit, Budget.ofType_typeNodes] at h ⊢
        omega
      rw [afford_true hn, ok_bind, Budget.layout_spend ha, spend, if_neg hle]
      rfl
    · rw [afford, if_neg hn]
      rfl

section

variable (perArray : ℕ → ℕ) (perMember : ℕ)

mutual
def work : ParameterType → WordTree → Budget
  | .array t n, .node xs =>
    visit (.array t n) + (Budget.ofType (perArray xs.length * t.typeSize) + (xs.map (work t)).sum)
  | .fixedArray t n, .node xs =>
    visit (.fixedArray t n) + (Budget.ofType (perArray xs.length * t.typeSize) + (xs.map (work t)).sum)
  | .tuple ts, .node xs => visit (.tuple ts) + (Budget.ofType (typeSizes ts) + works ts xs)
  | t, .payload bs => visit t + ⟨0, 0, bs.length⟩
  | t, _ => visit t

def works : List ParameterType → List WordTree → Budget
  | t :: ts, x :: xs => Budget.ofType (perMember * t.typeSize) + work t x + works ts xs
  | _, _ => 0
end

variable {perArray perMember}

theorem work_of_isWord {t : ParameterType} (h : t.IsWord) (w : List UInt8) :
    work perArray perMember t (.word w) = visit t := by
  cases t <;> rfl

theorem work_of_isPayload {t : ParameterType} (h : t.IsPayload) (bs : List UInt8) :
    work perArray perMember t (.payload bs) = visit t + ⟨0, 0, bs.length⟩ := by
  cases t <;> rfl

theorem work_nodes_pos (t : ParameterType) (x : WordTree) : 0 < (work perArray perMember t x).nodes := by
  cases t <;> cases x <;> simp [work, visit]

theorem length_le_sum (t : ParameterType) (xs : List WordTree) :
    xs.length ≤ ((xs.map (work perArray perMember t)).sum).nodes := by
  induction xs with
  | nil => exact Nat.le_refl 0
  | cons x xs ih =>
    have := @work_nodes_pos perArray perMember t x
    simp only [List.map_cons, List.sum_cons, List.length_cons, Budget.add_nodes]
    omega

theorem length_le_works {ts : List ParameterType} {xs : List WordTree} (h : ts.length = xs.length) :
    ts.length ≤ (works perArray perMember ts xs).nodes := by
  induction ts generalizing xs with
  | nil => exact Nat.zero_le _
  | cons t ts ih =>
    cases xs with
    | nil => simp at h
    | cons x xs =>
      have hpos := @work_nodes_pos perArray perMember t x
      have hle := ih (by simpa using h)
      simp only [works, List.length_cons, Budget.add_nodes]
      omega

def Bounded (perArray : ℕ → ℕ) (perMember : ℕ) (t : ParameterType) (x : WordTree) : Prop :=
  (wire t.skeleton x).length + 32 ≤
    128 * (work perArray perMember t x).nodes + (work perArray perMember t x).payloadBytes

theorem assemble_le (ps : List (Bool × List UInt8)) :
    (assemble ps).length ≤ (ps.map fun p => p.2.length + 32).sum := by
  rw [assemble_length]
  induction ps with
  | nil => simp [headLength, tails]
  | cons p ps ih =>
    obtain ⟨static, bs⟩ := p
    cases static with
    | true =>
      simp only [headLength, tails, if_true, List.map_cons, List.sum_cons]
      omega
    | false =>
      simp only [headLength, tails, Bool.false_eq_true, if_false, List.map_cons, List.sum_cons, List.length_append]
      omega

theorem assemble_works_le {ts : List ParameterType} {xs : List WordTree}
    (ih : ∀ t ∈ ts, ∀ x, Fits t.skeleton x → Bounded perArray perMember t x)
    (hf : FitsAll (skeletons ts) xs) :
    (assemble (components (skeletons ts) xs)).length ≤
      128 * (works perArray perMember ts xs).nodes + (works perArray perMember ts xs).payloadBytes := by
  apply Nat.le_trans (assemble_le _)
  induction ts generalizing xs with
  | nil => simp [skeletons, components]
  | cons t ts ihs =>
    cases xs with
    | nil => simp [skeletons, components]
    | cons x xs =>
      have hx := ih t (by simp) x hf.1
      have hxs := ihs (fun s hs => ih s (List.mem_cons_of_mem _ hs)) hf.2
      simp only [skeletons, components, List.map_cons, List.sum_cons, works, Budget.add_nodes,
        Budget.add_payloadBytes, Budget.ofType_nodes, Budget.ofType_payloadBytes, Bounded] at hx hxs ⊢
      omega

theorem works_replicate (t : ParameterType) (xs : List WordTree) :
    works perArray 0 (List.replicate xs.length t) xs = (xs.map (work perArray 0 t)).sum := by
  induction xs with
  | nil => rfl
  | cons x xs ih =>
    rw [List.length_cons, List.replicate_succ, works, ih, List.map_cons, List.sum_cons]
    simp [Budget.ext_iff]

theorem typeSizes_replicate (t : ParameterType) (n : ℕ) : typeSizes (List.replicate n t) = n * t.typeSize := by
  induction n with
  | zero => simp [typeSizes]
  | succ n ih => rw [List.replicate_succ, typeSizes, ih, Nat.succ_mul, Nat.add_comm]

theorem elements_le {t : ParameterType} {xs : List WordTree}
    (ih : ∀ x, Fits t.skeleton x → Bounded perArray perMember t x) (hf : ∀ x ∈ xs, Fits t.skeleton x) :
    (assemble (xs.map fun x => (isStatic t.skeleton, wire t.skeleton x))).length ≤
      128 * ((xs.map (work perArray perMember t)).sum).nodes +
        ((xs.map (work perArray perMember t)).sum).payloadBytes := by
  apply Nat.le_trans (assemble_le _)
  induction xs with
  | nil => simp
  | cons x xs ihs =>
    have hx := ih x (hf x (by simp))
    have hxs := ihs (fun y hy => hf y (List.mem_cons_of_mem _ hy))
    simp only [List.map_cons, List.sum_cons, Budget.add_nodes, Budget.add_payloadBytes, Bounded] at hx hxs ⊢
    omega

theorem wire_le_work {t : ParameterType} {x : WordTree} (hf : Fits t.skeleton x) :
    Bounded perArray perMember t x := by
  induction t using ParameterType.nesting generalizing x with
  | word t ht =>
    cases x with
    | word w =>
      rw [skeleton_of_isWord ht] at hf
      have hlen : w.length = 32 := hf
      rw [Bounded, work_of_isWord ht, skeleton_of_isWord ht]
      simp [wire, hlen, visit]
    | payload bs => rw [skeleton_of_isWord ht] at hf; exact hf.elim
    | node xs => rw [skeleton_of_isWord ht] at hf; exact hf.elim
  | payload t ht =>
    cases x with
    | payload bs =>
      have hp := padding_lt bs.length
      rw [Bounded, work_of_isPayload ht, skeleton_of_isPayload ht]
      simp [wire, visit]
      omega
    | word w => rw [skeleton_of_isPayload ht] at hf; exact hf.elim
    | node xs => rw [skeleton_of_isPayload ht] at hf; exact hf.elim
  | array t n ih =>
    obtain ⟨xs, rfl, hall, _⟩ := fits_array hf
    have hle := elements_le (fun x hx => ih hx) hall
    have hw : (wire (ParameterType.array t n).skeleton (.node xs)).length ≤
        32 + (assemble (xs.map fun x => (isStatic t.skeleton, wire t.skeleton x))).length := by
      by_cases h0 : n = 0
      · rw [skeleton, if_pos h0, wire, List.length_append, wordOf_length]
      · rw [skeleton, if_neg h0, wire]
        omega
    simp only [Bounded, work, visit, Budget.add_nodes, Budget.add_payloadBytes, Budget.ofType_nodes,
      Budget.ofType_payloadBytes]
    omega
  | fixedArray t n ih =>
    cases x with
    | node xs =>
      rw [skeleton] at hf
      have hle := elements_le (fun x hx => ih hx) hf.2
      simp only [Bounded, skeleton, wire, work, visit, Budget.add_nodes, Budget.add_payloadBytes,
        Budget.ofType_nodes, Budget.ofType_payloadBytes]
      omega
    | word w => exact hf.elim
    | payload bs => exact hf.elim
  | tuple ts ih =>
    cases x with
    | node xs =>
      have hle := assemble_works_le (fun t ht x hx => ih t ht hx) hf
      simp only [Bounded, skeleton, wire, work, visit, Budget.add_nodes, Budget.add_payloadBytes,
        Budget.ofType_nodes, Budget.ofType_payloadBytes]
      omega
    | word w => exact hf.elim
    | payload bs => exact hf.elim

end

end TronlinkCore.Abi
