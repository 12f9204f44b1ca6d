import TronlinkCore.Abi.ParameterType
import TronlinkCore.Library.MachineInt

/-!
`ABIv2Layout`: validity of a type and the width of its head slot, under a
depth limit and a budget of visited type nodes.
-/

namespace TronlinkCore.Abi

open Outcome MachineInt

structure Layout where
  isStatic : Bool
  headSize : ℕ

def maxDepth : ℕ := 64

def maxNodes : ℕ := 1000000

def scalarLayout : ParameterType → Outcome Layout
  | .uint bits | .int bits => do
    ensure (0 < bits ∧ bits ≤ 256 ∧ bits % 8 = 0)
    ok ⟨true, 32⟩
  | .fixed bits decimals | .ufixed bits decimals => do
    ensure (8 ≤ bits ∧ bits ≤ 256 ∧ bits % 8 = 0 ∧ 1 ≤ decimals ∧ decimals ≤ 80)
    ok ⟨true, 32⟩
  | .bytes length => do
    ensure (0 < length ∧ length ≤ 32)
    ok ⟨true, 32⟩
  | .address | .function | .bool => ok ⟨true, 32⟩
  | _ => ok ⟨false, 32⟩

def sizedArrayLayout (element : Layout) (length : UInt64) : Outcome Layout :=
  let (size, overflow) := multipliedReportingOverflow element.headSize length.toNat
  do
    ensure (overflow = false ∧ size ≤ intMax)
    ok ⟨element.isStatic, if element.isStatic then size else 32⟩

def membersLayout (layout : ParameterType → ℕ → Outcome (Layout × ℕ)) :
    List ParameterType → Bool → ℕ → ℕ → Outcome (Layout × ℕ)
  | [], isStatic, size, nodes => ok (⟨isStatic, if isStatic then size else 32⟩, nodes)
  | subtype :: types, isStatic, size, nodes => do
    let (element, nodes) ← layout subtype nodes
    let (nextSize, overflow) := addingReportingOverflow size element.headSize
    ensure (overflow = false ∧ nextSize ≤ intMax)
    membersLayout layout types (isStatic && element.isStatic) nextSize nodes

def layoutOf (below : ParameterType → ℕ → Outcome (Layout × ℕ)) :
    ParameterType → ℕ → Outcome (Layout × ℕ)
  | .array subtype length, nodes => do
    let (element, nodes) ← below subtype nodes
    ensure (length.toNat ≤ intMax)
    if length = 0 then ok (⟨false, 32⟩, nodes)
    else do
      let layout ← sizedArrayLayout element length
      ok (layout, nodes)
  | .fixedArray subtype length, nodes => do
    let (element, nodes) ← below subtype nodes
    ensure (length.toNat ≤ intMax)
    let layout ← sizedArrayLayout element length
    ok (layout, nodes)
  | .tuple types, nodes => membersLayout below types true 0 nodes
  | type, nodes => do
    let layout ← scalarLayout type
    ok (layout, nodes)

-- `levels` bounds the nesting of the calls: a call beyond it is a trap.
def layoutLevels : ℕ → ParameterType → ℕ → ℕ → Outcome (Layout × ℕ)
  | 0, _, _, _ => trap
  | levels + 1, type, depth, nodes => do
    ensure (depth < maxDepth)
    afford (0 < nodes)
    let nodes ← subInt nodes 1
    layoutOf (fun subtype nodes => do
      let depth ← addInt depth 1
      layoutLevels levels subtype depth nodes) type nodes

def layout (type : ParameterType) (depth nodes : ℕ) : Outcome (Layout × ℕ) :=
  layoutLevels (maxDepth + 1) type depth nodes

namespace ParameterType

def shape (t : ParameterType) : Layout := ⟨HeadTail.isStatic t.skeleton, HeadTail.headSize t.skeleton⟩

@[simp] theorem shape_isStatic (t : ParameterType) : t.shape.isStatic = HeadTail.isStatic t.skeleton := rfl
@[simp] theorem shape_headSize (t : ParameterType) : t.shape.headSize = HeadTail.headSize t.skeleton := rfl

theorem allStatic_skeletons {ts : List ParameterType} :
    HeadTail.allStatic (skeletons ts) = true ↔ ∀ t ∈ ts, t.shape.isStatic = true := by
  induction ts with
  | nil => simp [skeletons, HeadTail.allStatic]
  | cons t ts ih => simp [skeletons, HeadTail.allStatic, ih]

theorem headSizes_skeletons (ts : List ParameterType) :
    HeadTail.headSizes (skeletons ts) = (ts.map fun t => t.shape.headSize).sum := by
  induction ts with
  | nil => rfl
  | cons t ts ih => simp [skeletons, HeadTail.headSizes, ih]

def ValidScalar : ParameterType → Prop
  | .uint bits | .int bits => 0 < bits ∧ bits ≤ 256 ∧ bits % 8 = 0
  | .fixed bits decimals | .ufixed bits decimals =>
    8 ≤ bits ∧ bits ≤ 256 ∧ bits % 8 = 0 ∧ 1 ≤ decimals ∧ decimals ≤ 80
  | .bytes length => 0 < length ∧ length ≤ 32
  | _ => True

mutual
def WellSized : ParameterType → Prop
  | .array t n => t.WellSized ∧ n.toNat ≤ intMax ∧ (n ≠ 0 → HeadTail.headSize t.skeleton * n.toNat ≤ intMax)
  | .fixedArray t n => t.WellSized ∧ n.toNat ≤ intMax ∧ HeadTail.headSize t.skeleton * n.toNat ≤ intMax
  | .tuple ts => AllWellSized ts ∧ HeadTail.headSizes (skeletons ts) ≤ intMax
  | t => t.ValidScalar

def AllWellSized : List ParameterType → Prop
  | [] => True
  | t :: ts => t.WellSized ∧ AllWellSized ts
end

mutual
def height : ParameterType → ℕ
  | .array t _ => t.height + 1
  | .fixedArray t _ => t.height + 1
  | .tuple ts => heights ts + 1
  | _ => 1

def heights : List ParameterType → ℕ
  | [] => 0
  | t :: ts => max t.height (heights ts)
end

mutual
def typeSize : ParameterType → ℕ
  | .array t _ => t.typeSize + 1
  | .fixedArray t _ => t.typeSize + 1
  | .tuple ts => typeSizes ts + 1
  | _ => 1

def typeSizes : List ParameterType → ℕ
  | [] => 0
  | t :: ts => t.typeSize + typeSizes ts
end

theorem height_pos (t : ParameterType) : 0 < t.height := by
  cases t <;> simp [height]

theorem typeSize_pos (t : ParameterType) : 0 < t.typeSize := by
  cases t <;> simp [typeSize]

theorem allWellSized_iff {ts : List ParameterType} : AllWellSized ts ↔ ∀ t ∈ ts, t.WellSized := by
  induction ts with
  | nil => simp [AllWellSized]
  | cons t ts ih => simp [AllWellSized, ih]

theorem heights_le_iff {ts : List ParameterType} {n : ℕ} : heights ts ≤ n ↔ ∀ t ∈ ts, t.height ≤ n := by
  induction ts with
  | nil => simp [heights]
  | cons t ts ih => simp [heights, ih]

theorem scalar_facts {t : ParameterType} (h : t.IsWord ∨ t.IsPayload) :
    t.height = 1 ∧ t.typeSize = 1 ∧ (t.WellSized ↔ t.ValidScalar) := by
  cases t with
  | array t n => simp [IsWord, IsPayload] at h
  | fixedArray t n => simp [IsWord, IsPayload] at h
  | tuple ts => simp [IsWord, IsPayload] at h
  | uint | int | fixed | ufixed | address | function | bool | bytes | dynamicBytes | string =>
    simp [height, typeSize, WellSized]

end ParameterType

theorem scalarLayout_eq_ok {t : ParameterType} (h : t.IsWord ∨ t.IsPayload) {l : Layout} :
    scalarLayout t = ok l ↔ t.ValidScalar ∧ l = t.shape := by
  cases t with
  | array t n => simp [ParameterType.IsWord, ParameterType.IsPayload] at h
  | fixedArray t n => simp [ParameterType.IsWord, ParameterType.IsPayload] at h
  | tuple ts => simp [ParameterType.IsWord, ParameterType.IsPayload] at h
  | uint | int | fixed | ufixed | bytes =>
    simp [scalarLayout, bind_eq_ok, ParameterType.ValidScalar, ParameterType.shape, ParameterType.skeleton,
      HeadTail.isStatic, HeadTail.headSize, @eq_comm _ l]
  | address | function | bool | dynamicBytes | string =>
    simp [scalarLayout, ParameterType.ValidScalar, ParameterType.shape, ParameterType.skeleton,
      HeadTail.isStatic, HeadTail.headSize, @eq_comm _ l]

theorem scalarLayout_ne_trap (t : ParameterType) : scalarLayout t ≠ trap := by
  cases t <;> simp [scalarLayout, ensure] <;> split <;> simp

theorem sizedArrayLayout_eq_ok {element l : Layout} {n : UInt64} :
    sizedArrayLayout element n = ok l ↔ element.headSize * n.toNat ≤ intMax ∧
      l = ⟨element.isStatic, if element.isStatic then element.headSize * n.toNat else 32⟩ := by
  simp only [sizedArrayLayout, bind_eq_ok, ensure_eq_ok, multiplied_le_iff, exists_const]
  constructor
  · rintro ⟨h, hl⟩
    rw [multiplied_fst h] at hl
    exact ⟨h, by cases hl; rfl⟩
  · rintro ⟨h, rfl⟩
    rw [multiplied_fst h]
    exact ⟨h, rfl⟩

theorem sizedArrayLayout_ne_trap (element : Layout) (n : UInt64) : sizedArrayLayout element n ≠ trap := by
  apply bind_ne_trap (ensure_ne_trap _)
  intro _ _
  simp

section

open ParameterType HeadTail

variable {below : ParameterType → ℕ → Outcome (Layout × ℕ)}

theorem membersLayout_eq_ok {P : ParameterType → Prop}
    (hb : ∀ s n l r, below s n = ok (l, r) → P s ∧ l = s.shape) {ts : List ParameterType} {static : Bool}
    {size nodes rest : ℕ} {l : Layout} (h : membersLayout below ts static size nodes = ok (l, rest))
    (hs : size ≤ intMax) :
    (∀ t ∈ ts, P t) ∧ size + headSizes (skeletons ts) ≤ intMax ∧
      l = ⟨static && allStatic (skeletons ts),
        if static && allStatic (skeletons ts) then size + headSizes (skeletons ts) else 32⟩ := by
  induction ts generalizing static size nodes with
  | nil =>
    simp only [membersLayout, ok.injEq, Prod.mk.injEq] at h
    obtain ⟨rfl, rfl⟩ := h
    simp [skeletons, headSizes, allStatic, hs]
  | cons t ts ih =>
    simp only [membersLayout, bind_eq_ok, ensure_eq_ok, adding_le_iff, Prod.exists] at h
    obtain ⟨element, nodes', hel, _, hsum, h⟩ := h
    obtain ⟨hP, rfl⟩ := hb t nodes element nodes' hel
    rw [adding_fst hsum] at h
    obtain ⟨hall, hle, rfl⟩ := ih h hsum
    simp only [shape_headSize] at hle
    refine ⟨?_, ?_, ?_⟩
    · simp only [List.forall_mem_cons]
      exact ⟨hP, hall⟩
    · rw [skeletons, headSizes]
      omega
    · simp only [skeletons, allStatic, headSizes, shape_headSize, shape_isStatic, Bool.and_assoc, Nat.add_assoc]

theorem sizedArray_shape {t : ParameterType} {n : ℕ} :
    (⟨t.shape.isStatic, if t.shape.isStatic then t.shape.headSize * n else 32⟩ : Layout) =
      ⟨isStatic (.array t.skeleton (some n)), headSize (.array t.skeleton (some n))⟩ := by
  rw [isStatic, headSize]
  rfl

theorem layoutOf_eq_ok {m : ℕ}
    (hb : ∀ s n l r, below s n = ok (l, r) → (s.WellSized ∧ s.height ≤ m) ∧ l = s.shape)
    {t : ParameterType} {nodes rest : ℕ} {l : Layout} (h : layoutOf below t nodes = ok (l, rest)) :
    (t.WellSized ∧ t.height ≤ m + 1) ∧ l = t.shape := by
  have scalar (ht : t.IsWord ∨ t.IsPayload)
      (h : (do let layout ← scalarLayout t; ok (layout, nodes) : Outcome (Layout × ℕ)) = ok (l, rest)) :
      (t.WellSized ∧ t.height ≤ m + 1) ∧ l = t.shape := by
    obtain ⟨h1, _, hw⟩ := scalar_facts ht
    simp only [bind_eq_ok, scalarLayout_eq_ok ht, ok.injEq, Prod.mk.injEq] at h
    obtain ⟨l', ⟨hv, rfl⟩, rfl, _⟩ := h
    exact ⟨⟨hw.mpr hv, by omega⟩, rfl⟩
  cases t with
  | array t n =>
    simp only [layoutOf, bind_eq_ok, Prod.exists, ensure_eq_ok] at h
    obtain ⟨element, nodes', hel, _, hn, h⟩ := h
    obtain ⟨⟨hw, hh⟩, rfl⟩ := hb t nodes element nodes' hel
    by_cases h0 : n = 0
    · simp only [h0, if_true, ok.injEq, Prod.mk.injEq] at h
      obtain ⟨rfl, _⟩ := h
      subst h0
      refine ⟨⟨?_, by simpa [height] using hh⟩, ?_⟩
      · exact ⟨hw, hn, fun h => absurd rfl h⟩
      · simp [shape, skeleton, isStatic, headSize]
    · simp only [h0, if_false, bind_eq_ok, sizedArrayLayout_eq_ok, ok.injEq, Prod.mk.injEq] at h
      obtain ⟨l', ⟨hle, rfl⟩, rfl, _⟩ := h
      refine ⟨⟨⟨hw, hn, fun _ => hle⟩, by simpa [height] using hh⟩, ?_⟩
      rw [sizedArray_shape, shape, skeleton, if_neg h0]
  | fixedArray t n =>
    simp only [layoutOf, bind_eq_ok, Prod.exists, ensure_eq_ok, sizedArrayLayout_eq_ok, ok.injEq,
      Prod.mk.injEq] at h
    obtain ⟨element, nodes', hel, _, hn, l', ⟨hle, rfl⟩, rfl, _⟩ := h
    obtain ⟨⟨hw, hh⟩, rfl⟩ := hb t nodes element nodes' hel
    refine ⟨⟨⟨hw, hn, hle⟩, by simpa [height] using hh⟩, ?_⟩
    rw [sizedArray_shape, shape, skeleton]
  | tuple ts =>
    simp only [layoutOf] at h
    obtain ⟨hall, hle, rfl⟩ := membersLayout_eq_ok hb h (Nat.zero_le _)
    rw [Nat.zero_add] at hle
    refine ⟨⟨⟨?_, hle⟩, ?_⟩, ?_⟩
    · exact allWellSized_iff.mpr fun t ht => (hall t ht).1
    · rw [height]
      exact Nat.succ_le_succ (heights_le_iff.mpr fun t ht => (hall t ht).2)
    · simp [shape, skeleton, isStatic, headSize]
  | dynamicBytes => exact scalar (.inr trivial) h
  | string => exact scalar (.inr trivial) h
  | uint | int | fixed | ufixed | address | function | bool | bytes => exact scalar (.inl trivial) h

theorem layoutLevels_eq_ok {levels : ℕ} {t : ParameterType} {depth nodes rest : ℕ} {l : Layout}
    (h : layoutLevels levels t depth nodes = ok (l, rest)) :
    (t.WellSized ∧ t.height ≤ maxDepth - depth) ∧ l = t.shape := by
  induction levels generalizing t depth nodes rest l with
  | zero => simp [layoutLevels] at h
  | succ levels ih =>
    simp only [layoutLevels, bind_eq_ok, ensure_eq_ok, afford_eq_ok, exists_const, subInt_eq_ok] at h
    obtain ⟨hd, hn, nodes', ⟨_, rfl⟩, h⟩ := h
    have hm : maxDepth - depth = maxDepth - (depth + 1) + 1 := by omega
    rw [hm]
    apply layoutOf_eq_ok _ h
    intro s n l r hs
    simp only [bind_eq_ok, addInt_eq_ok] at hs
    obtain ⟨_, ⟨_, rfl⟩, hs⟩ := hs
    exact ih hs

theorem visit_eq {α : Type} (nodes : ℕ) (f : ℕ → Outcome α) :
    (do afford (0 < nodes); let nodes ← subInt nodes 1; f nodes) = spend 1 () nodes >>= fun r => f r.2 := by
  by_cases h : 0 < nodes
  · rw [afford_true h, spend_of_le () h, ok_bind, ok_bind, subInt_of_le h, ok_bind]
  · rw [afford, if_neg h, spend, if_neg (by omega)]
    rfl

theorem membersLayout_spend {ts : List ParameterType}
    (hb : ∀ s ∈ ts, ∀ n, below s n = spend s.typeSize s.shape n) {size : ℕ} (static : Bool) (nodes : ℕ)
    (hs : size + headSizes (skeletons ts) ≤ intMax) :
    membersLayout below ts static size nodes = spend (typeSizes ts) ⟨static && allStatic (skeletons ts),
      if static && allStatic (skeletons ts) then size + headSizes (skeletons ts) else 32⟩ nodes := by
  induction ts generalizing static size nodes with
  | nil => simp [membersLayout, skeletons, headSizes, allStatic, typeSizes, spend]
  | cons t ts ih =>
    simp only [skeletons, headSizes, ← Nat.add_assoc] at hs
    have hsum : size + t.shape.headSize ≤ intMax := by
      rw [shape_headSize]
      omega
    rw [membersLayout, hb t (by simp), typeSizes]
    apply spend_bind
    intro _
    dsimp only
    rw [ensure_true (adding_le_iff.mpr hsum), ok_bind, adding_fst hsum, shape_headSize, shape_isStatic, ih (fun s h => hb s (List.mem_cons_of_mem _ h)) _ _ hs]
    simp only [skeletons, allStatic, headSizes, Bool.and_assoc, Nat.add_assoc]

theorem layoutOf_spend {m : ℕ}
    (hb : ∀ s n, s.WellSized → s.height ≤ m → below s n = spend s.typeSize s.shape n)
    {t : ParameterType} (hw : t.WellSized) (hh : t.height ≤ m + 1) (nodes : ℕ) :
    layoutOf below t nodes = spend (t.typeSize - 1) t.shape nodes := by
  have scalar (ht : t.IsWord ∨ t.IsPayload) :
      (do let layout ← scalarLayout t; ok (layout, nodes) : Outcome (Layout × ℕ)) =
        spend (t.typeSize - 1) t.shape nodes := by
    obtain ⟨_, h1, hv⟩ := scalar_facts ht
    rw [(scalarLayout_eq_ok ht).mpr ⟨hv.mp hw, rfl⟩, h1]
    simp [spend]
  cases t with
  | array t n =>
    obtain ⟨hw, hn, hle⟩ := hw
    rw [height] at hh
    rw [layoutOf, hb t nodes hw (by omega), typeSize, Nat.add_sub_cancel]
    conv_rhs => rw [← Nat.add_zero t.typeSize]
    apply spend_bind
    intro _
    simp only [ensure_true hn, ok_bind]
    by_cases h0 : n = 0
    · subst h0
      simp [shape, skeleton, isStatic, headSize, spend]
    · rw [if_neg h0, sizedArrayLayout_eq_ok.mpr ⟨hle h0, rfl⟩, sizedArray_shape, shape, skeleton, if_neg h0]
      simp [spend]
  | fixedArray t n =>
    obtain ⟨hw, hn, hle⟩ := hw
    rw [height] at hh
    rw [layoutOf, hb t nodes hw (by omega), typeSize, Nat.add_sub_cancel]
    conv_rhs => rw [← Nat.add_zero t.typeSize]
    apply spend_bind
    intro _
    simp only [ensure_true hn, ok_bind]
    rw [sizedArrayLayout_eq_ok.mpr ⟨hle, rfl⟩, sizedArray_shape, shape, skeleton]
    simp [spend]
  | tuple ts =>
    obtain ⟨hw, hle⟩ := hw
    rw [height] at hh
    have hts : ∀ s ∈ ts, s.height ≤ m := heights_le_iff.mp (by omega)
    rw [layoutOf, membersLayout_spend (fun s h n => hb s n (allWellSized_iff.mp hw s h) (hts s h)) true nodes
      (by omega)]
    simp [typeSize, shape, skeleton, isStatic, headSize]
  | dynamicBytes => exact scalar (.inr trivial)
  | string => exact scalar (.inr trivial)
  | uint | int | fixed | ufixed | address | function | bool | bytes => exact scalar (.inl trivial)

theorem layoutLevels_spend {levels : ℕ} {t : ParameterType} {depth : ℕ} (hw : t.WellSized)
    (hh : depth + t.height ≤ maxDepth) (hl : t.height ≤ levels) (nodes : ℕ) :
    layoutLevels levels t depth nodes = spend t.typeSize t.shape nodes := by
  have hm : maxDepth ≤ intMax := by decide
  induction levels generalizing t depth nodes with
  | zero =>
    have := t.height_pos
    omega
  | succ levels ih =>
    have hpos := t.height_pos
    have hsize : t.typeSize = 1 + (t.typeSize - 1) := by
      have := t.typeSize_pos
      omega
    rw [layoutLevels, ensure_true (by omega), ok_bind, hsize, visit_eq]
    apply spend_bind
    intro _
    apply layoutOf_spend (m := min (maxDepth - (depth + 1)) levels) _ hw (by omega)
    intro s n hs hle
    rw [addInt_of_le (by omega), ok_bind]
    exact ih hs (by omega) (by omega) n

theorem membersLayout_ne_trap (hb : ∀ s n, below s n ≠ trap) (ts : List ParameterType) (static : Bool)
    (size nodes : ℕ) : membersLayout below ts static size nodes ≠ trap := by
  induction ts generalizing static size nodes with
  | nil => simp [membersLayout]
  | cons t ts ih =>
    apply bind_ne_trap (hb t nodes)
    intro _ _
    apply bind_ne_trap (ensure_ne_trap _)
    intro _ _
    exact ih _ _ _

theorem layoutOf_ne_trap (hb : ∀ s n, below s n ≠ trap) (t : ParameterType) (nodes : ℕ) :
    layoutOf below t nodes ≠ trap := by
  have sized (element : Layout) (n : UInt64) (nodes : ℕ) :
      (do let layout ← sizedArrayLayout element n; ok (layout, nodes) : Outcome (Layout × ℕ)) ≠ trap := by
    apply bind_ne_trap (sizedArrayLayout_ne_trap _ _)
    simp
  have scalar : (do let layout ← scalarLayout t; ok (layout, nodes) : Outcome (Layout × ℕ)) ≠ trap := by
    apply bind_ne_trap (scalarLayout_ne_trap t)
    simp
  cases t with
  | array t n =>
    apply bind_ne_trap (hb t nodes)
    intro _ _
    apply bind_ne_trap (ensure_ne_trap _)
    intro _ _
    by_cases h0 : n = 0
    · simp [h0]
    · rw [if_neg h0]
      exact sized _ _ _
  | fixedArray t n =>
    apply bind_ne_trap (hb t nodes)
    intro _ _
    apply bind_ne_trap (ensure_ne_trap _)
    intro _ _
    exact sized _ _ _
  | tuple ts => exact membersLayout_ne_trap hb ts _ _ _
  | uint | int | fixed | ufixed | address | function | bool | bytes | dynamicBytes | string => exact scalar

theorem layoutLevels_ne_trap {levels : ℕ} (t : ParameterType) {depth : ℕ} (nodes : ℕ) (hl : 0 < levels)
    (hd : maxDepth < depth + levels) : layoutLevels levels t depth nodes ≠ trap := by
  have hm : maxDepth ≤ intMax := by decide
  induction levels generalizing t depth nodes with
  | zero => omega
  | succ levels ih =>
    rw [layoutLevels]
    apply bind_ne_trap (ensure_ne_trap _)
    intro _ hlt
    have hlt := ensure_eq_ok.mp hlt
    rw [visit_eq]
    apply bind_ne_trap
    · simp [spend]
      split <;> simp
    · intro _ _
      apply layoutOf_ne_trap
      intro s n
      rw [addInt_of_le (by omega), ok_bind]
      exact ih s n (by omega) (by omega)

end

/-- What a type must satisfy where `depth` types enclose it. -/
structure Admitted (depth : ℕ) (t : ParameterType) : Prop where
  wellSized : t.WellSized
  height_le : depth + t.height ≤ maxDepth

theorem Admitted.element {depth : ℕ} {t s : ParameterType} (h : Admitted depth t)
    (ht : (∃ n, t = .array s n) ∨ ∃ n, t = .fixedArray s n) : Admitted (depth + 1) s := by
  have hle := h.height_le
  have hw := h.wellSized
  rcases ht with ⟨n, rfl⟩ | ⟨n, rfl⟩
  · rw [ParameterType.height] at hle
    exact ⟨hw.1, by omega⟩
  · rw [ParameterType.height] at hle
    exact ⟨hw.1, by omega⟩

theorem Admitted.member {depth : ℕ} {ts : List ParameterType} {s : ParameterType}
    (h : Admitted depth (.tuple ts)) (hs : s ∈ ts) : Admitted (depth + 1) s := by
  have hle := h.height_le
  rw [ParameterType.height] at hle
  have hm := (ParameterType.heights_le_iff.mp (le_refl _)) s hs
  exact ⟨ParameterType.allWellSized_iff.mp h.wellSized.1 s hs, by omega⟩

theorem layout_spend {t : ParameterType} {depth : ℕ} (h : Admitted depth t) (nodes : ℕ) :
    layout t depth nodes = spend t.typeSize t.shape nodes :=
  layoutLevels_spend h.wellSized h.height_le (by have := h.height_le; omega) nodes

theorem admitted_of_layout {t : ParameterType} {depth nodes : ℕ} {r : Layout × ℕ}
    (h : layout t depth nodes = ok r) : Admitted depth t := by
  obtain ⟨⟨hw, hh⟩, _⟩ := layoutLevels_eq_ok h
  have := t.height_pos
  exact ⟨hw, by omega⟩

theorem layout_eq_ok {t : ParameterType} {depth nodes rest : ℕ} {l : Layout} :
    layout t depth nodes = ok (l, rest) ↔
      Admitted depth t ∧ t.typeSize ≤ nodes ∧ l = t.shape ∧ rest = nodes - t.typeSize := by
  constructor
  · intro h
    have ha := admitted_of_layout h
    rw [layout_spend ha, spend_eq_ok] at h
    exact ⟨ha, h⟩
  · rintro ⟨ha, h⟩
    rw [layout_spend ha]
    exact spend_eq_ok.mpr h

theorem layout_ne_trap (t : ParameterType) (depth nodes : ℕ) : layout t depth nodes ≠ trap :=
  layoutLevels_ne_trap t nodes (by decide) (by omega)

end TronlinkCore.Abi
