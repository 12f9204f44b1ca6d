import TronlinkCore.Abi.Layout

namespace TronlinkCore.Abi

open Outcome

@[ext]
structure Budget where
  nodes : ℕ
  typeNodes : ℕ
  payloadBytes : ℕ
  deriving DecidableEq, Repr

namespace Budget

def full : Budget := ⟨1000000, 1000000, 64 * 1024 * 1024⟩

instance : Add Budget where
  add a b := ⟨a.nodes + b.nodes, a.typeNodes + b.typeNodes, a.payloadBytes + b.payloadBytes⟩

instance : Sub Budget where
  sub a b := ⟨a.nodes - b.nodes, a.typeNodes - b.typeNodes, a.payloadBytes - b.payloadBytes⟩

instance : Zero Budget := ⟨⟨0, 0, 0⟩⟩

instance : LE Budget where
  le a b := a.nodes ≤ b.nodes ∧ a.typeNodes ≤ b.typeNodes ∧ a.payloadBytes ≤ b.payloadBytes

instance : DecidableLE Budget := fun a b =>
  inferInstanceAs (Decidable (a.nodes ≤ b.nodes ∧ a.typeNodes ≤ b.typeNodes ∧ a.payloadBytes ≤ b.payloadBytes))

@[simp] theorem add_nodes (a b : Budget) : (a + b).nodes = a.nodes + b.nodes := rfl
@[simp] theorem add_typeNodes (a b : Budget) : (a + b).typeNodes = a.typeNodes + b.typeNodes := rfl
@[simp] theorem add_payloadBytes (a b : Budget) : (a + b).payloadBytes = a.payloadBytes + b.payloadBytes := rfl
@[simp] theorem sub_nodes (a b : Budget) : (a - b).nodes = a.nodes - b.nodes := rfl
@[simp] theorem sub_typeNodes (a b : Budget) : (a - b).typeNodes = a.typeNodes - b.typeNodes := rfl
@[simp] theorem sub_payloadBytes (a b : Budget) : (a - b).payloadBytes = a.payloadBytes - b.payloadBytes := rfl
@[simp] theorem zero_nodes : (0 : Budget).nodes = 0 := rfl
@[simp] theorem zero_typeNodes : (0 : Budget).typeNodes = 0 := rfl
@[simp] theorem zero_payloadBytes : (0 : Budget).payloadBytes = 0 := rfl

theorem le_iff {a b : Budget} :
    a ≤ b ↔ a.nodes ≤ b.nodes ∧ a.typeNodes ≤ b.typeNodes ∧ a.payloadBytes ≤ b.payloadBytes := Iff.rfl

instance : Ledger Budget where
  zero_le b := by simp [le_iff]
  sub_zero b := by simp [Budget.ext_iff]
  add_le_iff a b c := by
    simp only [le_iff, add_nodes, add_typeNodes, add_payloadBytes, sub_nodes, sub_typeNodes, sub_payloadBytes]
    omega
  sub_add a b c := by
    simp only [Budget.ext_iff, add_nodes, add_typeNodes, add_payloadBytes, sub_nodes, sub_typeNodes,
      sub_payloadBytes]
    omega

theorem le_full_of_all {charged : Option Budget} {cost : Budget} (hcost : charged = some cost)
    (h : charged.all fun cost => decide (cost ≤ full)) : cost ≤ full :=
  of_decide_eq_true ((Option.all_eq_true _ _).mp h cost hcost)

/-- `ABIv2Layout.layout(of:depth:nodes:)` charged to `typeNodes` -/
def layout (t : ParameterType) (depth : ℕ) (budget : Budget) : Outcome (Layout × Budget) := do
  let (layout, typeNodes) ← Abi.layout t depth budget.typeNodes
  ok (layout, { budget with typeNodes })

def ofType (n : ℕ) : Budget := ⟨0, n, 0⟩

@[simp] theorem ofType_nodes (n : ℕ) : (ofType n).nodes = 0 := rfl
@[simp] theorem ofType_typeNodes (n : ℕ) : (ofType n).typeNodes = n := rfl
@[simp] theorem ofType_payloadBytes (n : ℕ) : (ofType n).payloadBytes = 0 := rfl

theorem layout_spend {t : ParameterType} {depth : ℕ} (h : Admitted depth t) (b : Budget) :
    layout t depth b = spend (ofType t.typeSize) t.shape b := by
  rw [layout, Abi.layout_spend h]
  by_cases hb : t.typeSize ≤ b.typeNodes
  · have hle : ofType t.typeSize ≤ b := by simpa [le_iff] using hb
    rw [spend_of_le _ hb, spend_of_le _ hle]
    simp [Budget.ext_iff]
  · have hle : ¬ ofType t.typeSize ≤ b := by simpa [le_iff] using hb
    rw [spend, if_neg hb, spend, if_neg hle]
    rfl

theorem layout_eq_ok {t : ParameterType} {depth : ℕ} {b b' : Budget} {l : Layout}
    (h : layout t depth b = ok (l, b')) :
    Admitted depth t ∧ l = t.shape ∧ b'.nodes = b.nodes ∧ b'.payloadBytes = b.payloadBytes := by
  simp only [layout, bind_eq_ok, Prod.exists, ok.injEq, Prod.mk.injEq, Abi.layout_eq_ok] at h
  obtain ⟨l', n, ⟨ha, _, hl, _⟩, rfl, rfl⟩ := h
  exact ⟨ha, hl, rfl, rfl⟩

theorem layout_ne_trap (t : ParameterType) (depth : ℕ) (b : Budget) : layout t depth b ≠ trap := by
  apply bind_ne_trap (Abi.layout_ne_trap t depth b.typeNodes)
  intro _ _
  simp

end Budget

end TronlinkCore.Abi
