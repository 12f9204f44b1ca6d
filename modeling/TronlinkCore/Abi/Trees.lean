import TronlinkCore.Library.HeadTailReading
import TronlinkCore.Abi.Budget
import TronlinkCore.Abi.Words

namespace TronlinkCore.Abi

open Outcome HeadTail ParameterType

section

variable [Graphemes]

mutual
def treeOf : ParameterType → AnyObject → Option WordTree
  | .array t n, .array vs =>
    if (if n = 0 then FitsWord vs.length else n.toNat = vs.length) then (vs.mapM (treeOf t)).map .node
    else none
  | .fixedArray t n, .array vs => if n.toNat = vs.length then (vs.mapM (treeOf t)).map .node else none
  | .tuple ts, .array vs => (treesOf ts vs).map .node
  | .array _ _, _ | .fixedArray _ _, _ | .tuple _, _ => none
  | .string, v => (payloadBytes .string v).map .payload
  | .dynamicBytes, v => (payloadBytes .dynamicBytes v).map .payload
  | t, v => (encodeWord t v).map .word

def treesOf : List ParameterType → List AnyObject → Option (List WordTree)
  | [], [] => some []
  | t :: ts, v :: vs => do
    let x ← treeOf t v
    let xs ← treesOf ts vs
    some (x :: xs)
  | _, _ => none
end

mutual
def valueOf : ParameterType → WordTree → Option AnyObject
  | .array t _, .node xs => (xs.mapM (valueOf t)).map .array
  | .fixedArray t _, .node xs => (xs.mapM (valueOf t)).map .array
  | .tuple ts, .node xs => (valuesOf ts xs).map .array
  | .string, .payload bs => payloadValue .string bs
  | .dynamicBytes, .payload bs => payloadValue .dynamicBytes bs
  | t, .word w => (decodeWord t w).toOption
  | _, _ => none

def valuesOf : List ParameterType → List WordTree → Option (List AnyObject)
  | [], [] => some []
  | t :: ts, x :: xs => do
    let v ← valueOf t x
    let vs ← valuesOf ts xs
    some (v :: vs)
  | _, _ => none
end

mutual
/-- The value itself, in the representation that the decoder returns. -/
def canonical : ParameterType → AnyObject → Option AnyObject
  | .array t _, .array vs => (vs.mapM (canonical t)).map .array
  | .fixedArray t _, .array vs => (vs.mapM (canonical t)).map .array
  | .tuple ts, .array vs => (canonicals ts vs).map .array
  | .array _ _, _ | .fixedArray _ _, _ | .tuple _, _ => none
  | .string, v => canonicalPayload .string v
  | .dynamicBytes, v => canonicalPayload .dynamicBytes v
  | t, v => canonicalWord t v

def canonicals : List ParameterType → List AnyObject → Option (List AnyObject)
  | [], [] => some []
  | t :: ts, v :: vs => do
    let c ← canonical t v
    let cs ← canonicals ts vs
    some (c :: cs)
  | _, _ => none
end

theorem treeOf_of_isWord {t : ParameterType} (h : t.IsWord) (v : AnyObject) :
    treeOf t v = (encodeWord t v).map .word := by
  cases t <;> first | rfl | exact h.elim

theorem treeOf_of_isPayload {t : ParameterType} (h : t.IsPayload) (v : AnyObject) :
    treeOf t v = (payloadBytes t v).map .payload := by
  cases t <;> first | rfl | exact h.elim

theorem valueOf_of_isWord {t : ParameterType} (h : t.IsWord) (w : List UInt8) :
    valueOf t (.word w) = (decodeWord t w).toOption := by
  cases t <;> rfl

theorem valueOf_of_isPayload {t : ParameterType} (h : t.IsPayload) (bs : List UInt8) :
    valueOf t (.payload bs) = payloadValue t bs := by
  cases t <;> first | rfl | exact h.elim

theorem canonical_of_isWord {t : ParameterType} (h : t.IsWord) (v : AnyObject) :
    canonical t v = canonicalWord t v := by
  cases t <;> first | rfl | exact h.elim

theorem canonical_of_isPayload {t : ParameterType} (h : t.IsPayload) (v : AnyObject) :
    canonical t v = canonicalPayload t v := by
  cases t <;> first | rfl | exact h.elim

theorem treesOf_replicate (t : ParameterType) (vs : List AnyObject) :
    treesOf (List.replicate vs.length t) vs = vs.mapM (treeOf t) := by
  induction vs with
  | nil => rfl
  | cons v vs ih => simp [List.replicate_succ, treesOf, ih]

theorem valuesOf_replicate (t : ParameterType) (xs : List WordTree) :
    valuesOf (List.replicate xs.length t) xs = xs.mapM (valueOf t) := by
  induction xs with
  | nil => rfl
  | cons x xs ih => simp [List.replicate_succ, valuesOf, ih]

theorem canonicals_replicate (t : ParameterType) (vs : List AnyObject) :
    canonicals (List.replicate vs.length t) vs = vs.mapM (canonical t) := by
  induction vs with
  | nil => rfl
  | cons v vs ih => simp [List.replicate_succ, canonicals, ih]

theorem treesOf_cons_eq_some {t : ParameterType} {ts : List ParameterType} {vs : List AnyObject} {ys : List WordTree} :
    treesOf (t :: ts) vs = some ys ↔ ∃ v vs' x xs, vs = v :: vs' ∧ ys = x :: xs ∧ treeOf t v = some x ∧
      treesOf ts vs' = some xs := by
  cases vs with
  | nil => simp [treesOf]
  | cons v vs =>
    simp only [treesOf, Option.bind_eq_bind, Option.bind_eq_some_iff, Option.some.injEq, List.cons.injEq]
    constructor
    · rintro ⟨x, hx, xs, hxs, rfl⟩
      exact ⟨v, vs, x, xs, ⟨rfl, rfl⟩, rfl, hx, hxs⟩
    · rintro ⟨v', vs', x, xs, ⟨rfl, rfl⟩, rfl, hx, hxs⟩
      exact ⟨x, hx, xs, hxs, rfl⟩

theorem valuesOf_cons_eq_some {t : ParameterType} {ts : List ParameterType} {xs : List WordTree} {cs : List AnyObject} :
    valuesOf (t :: ts) xs = some cs ↔ ∃ x xs' c cs', xs = x :: xs' ∧ cs = c :: cs' ∧ valueOf t x = some c ∧
      valuesOf ts xs' = some cs' := by
  cases xs with
  | nil => simp [valuesOf]
  | cons x xs =>
    simp only [valuesOf, Option.bind_eq_bind, Option.bind_eq_some_iff, Option.some.injEq, List.cons.injEq]
    constructor
    · rintro ⟨c, hc, cs', hcs, rfl⟩
      exact ⟨x, xs, c, cs', ⟨rfl, rfl⟩, rfl, hc, hcs⟩
    · rintro ⟨x', xs', c, cs', ⟨rfl, rfl⟩, rfl, hc, hcs⟩
      exact ⟨c, hc, cs', hcs, rfl⟩

theorem treesOf_length {ts : List ParameterType} {vs : List AnyObject} {xs : List WordTree}
    (h : treesOf ts vs = some xs) : ts.length = vs.length ∧ vs.length = xs.length := by
  induction ts generalizing vs xs with
  | nil =>
    cases vs with
    | nil => simp_all [treesOf]
    | cons v vs => simp [treesOf] at h
  | cons t ts ih =>
    obtain ⟨v, vs', x, xs', rfl, rfl, _, h⟩ := treesOf_cons_eq_some.mp h
    have := ih h
    simp [this]

theorem valuesOf_length {ts : List ParameterType} {xs : List WordTree} {cs : List AnyObject}
    (h : valuesOf ts xs = some cs) : ts.length = xs.length ∧ xs.length = cs.length := by
  induction ts generalizing xs cs with
  | nil =>
    cases xs with
    | nil => simp_all [valuesOf]
    | cons x xs => simp [valuesOf] at h
  | cons t ts ih =>
    obtain ⟨x, xs', c, cs', rfl, rfl, _, h⟩ := valuesOf_cons_eq_some.mp h
    have := ih h
    simp [this]

theorem canonicals_of_treesOf {ts : List ParameterType} {vs : List AnyObject} {xs : List WordTree}
    (ih : ∀ t ∈ ts, ∀ v x, treeOf t v = some x →
      Fits t.skeleton x ∧ ∃ c, canonical t v = some c ∧ valueOf t x = some c)
    (h : treesOf ts vs = some xs) :
    FitsAll (skeletons ts) xs ∧ ∃ cs, canonicals ts vs = some cs ∧ valuesOf ts xs = some cs := by
  induction ts generalizing vs xs with
  | nil =>
    cases vs with
    | nil =>
      obtain rfl : [] = xs := by simpa [treesOf] using h
      simp [skeletons, FitsAll, canonicals, valuesOf]
    | cons v vs => simp [treesOf] at h
  | cons t ts ihs =>
    obtain ⟨v, vs', x, xs', rfl, rfl, hx, hxs⟩ := treesOf_cons_eq_some.mp h
    obtain ⟨hf, c, hc, hv⟩ := ih t (by simp) v x hx
    obtain ⟨hfs, cs, hcs, hvs⟩ := ihs (fun s hs => ih s (List.mem_cons_of_mem _ hs)) hxs
    refine ⟨⟨hf, hfs⟩, c :: cs, ?_, ?_⟩
    · simp [canonicals, hc, hcs]
    · simp [valuesOf, hv, hvs]

theorem arrayTree_eq_some {t : ParameterType} {vs : List AnyObject} {x : WordTree} :
    (vs.mapM (treeOf t)).map HeadTail.WordTree.node = some x ↔
      ∃ xs, treesOf (List.replicate vs.length t) vs = some xs ∧ x = .node xs := by
  rw [treesOf_replicate, Option.map_eq_some_iff]
  simp only [eq_comm]

theorem canonical_elements {t : ParameterType} {vs : List AnyObject} {xs : List WordTree}
    (ih : ∀ v x, treeOf t v = some x →
      Fits t.skeleton x ∧ ∃ c, canonical t v = some c ∧ valueOf t x = some c)
    (h : treesOf (List.replicate vs.length t) vs = some xs) :
    (∀ x ∈ xs, Fits t.skeleton x) ∧
      ∃ cs, vs.mapM (canonical t) = some cs ∧ xs.mapM (valueOf t) = some cs := by
  obtain ⟨hf, cs, hc, hv⟩ := canonicals_of_treesOf
    (fun s hs => by rw [List.eq_of_mem_replicate hs]; exact ih) h
  have hlen := (treesOf_length h).2
  rw [canonicals_replicate] at hc
  rw [hlen, valuesOf_replicate] at hv
  rw [hlen, skeletons_eq_map, List.map_replicate, fitsAll_replicate] at hf
  exact ⟨hf, cs, hc, hv⟩

theorem canonical_of_treeOf {t : ParameterType} {v : AnyObject} {x : WordTree} (hw : t.WellSized)
    (h : treeOf t v = some x) : Fits t.skeleton x ∧ ∃ c, canonical t v = some c ∧ valueOf t x = some c := by
  induction t using ParameterType.nesting generalizing v x with
  | word t ht =>
    rw [treeOf_of_isWord ht] at h
    obtain ⟨w, he, rfl⟩ := Option.map_eq_some_iff.mp h
    obtain ⟨hlen, c, hc, hd⟩ := decodeWord_of_encodeWord ((scalar_facts (.inl ht)).2.2.mp hw) he
    rw [skeleton_of_isWord ht, canonical_of_isWord ht, valueOf_of_isWord ht, hd]
    exact ⟨hlen, c, hc, rfl⟩
  | payload t ht =>
    rw [treeOf_of_isPayload ht] at h
    obtain ⟨bs, hb, rfl⟩ := Option.map_eq_some_iff.mp h
    rw [skeleton_of_isPayload ht, canonical_of_isPayload ht, valueOf_of_isPayload ht]
    exact ⟨trivial, payloadValue_of_payloadBytes hb⟩
  | array t n ih =>
    cases v with
    | array vs =>
      simp only [treeOf, Option.ite_none_right_eq_some, arrayTree_eq_some] at h
      obtain ⟨hn, xs, hxs, rfl⟩ := h
      obtain ⟨hf, cs, hc, hv⟩ := canonical_elements (fun v x => ih hw.1) hxs
      refine ⟨?_, .array cs, by simp [canonical, hc], by simp [valueOf, hv]⟩
      have hlen := (treesOf_length hxs).2
      by_cases h0 : n = 0
      · rw [if_pos h0, hlen] at hn
        rw [skeleton, if_pos h0]
        exact ⟨hn, hf⟩
      · rw [if_neg h0, hlen] at hn
        rw [skeleton, if_neg h0]
        exact ⟨hn.symm, hf⟩
    | bigUInt | bigInt | number | string | data | web3Address | fixedPoint | other => simp [treeOf] at h
  | fixedArray t n ih =>
    cases v with
    | array vs =>
      simp only [treeOf, Option.ite_none_right_eq_some, arrayTree_eq_some] at h
      obtain ⟨hn, xs, hxs, rfl⟩ := h
      obtain ⟨hf, cs, hc, hv⟩ := canonical_elements (fun v x => ih hw.1) hxs
      refine ⟨?_, .array cs, by simp [canonical, hc], by simp [valueOf, hv]⟩
      rw [skeleton]
      exact ⟨by rw [← (treesOf_length hxs).2, hn], hf⟩
    | bigUInt | bigInt | number | string | data | web3Address | fixedPoint | other => simp [treeOf] at h
  | tuple ts ih =>
    cases v with
    | array vs =>
      simp only [treeOf, Option.map_eq_some_iff] at h
      obtain ⟨xs, hxs, rfl⟩ := h
      have hall := allWellSized_iff.mp hw.1
      obtain ⟨hf, cs, hc, hv⟩ := canonicals_of_treesOf (fun t ht v x => ih t ht (hall t ht)) hxs
      refine ⟨?_, .array cs, by simp [canonical, hc], by simp [valueOf, hv]⟩
      rw [skeleton]
      exact hf
    | bigUInt | bigInt | number | string | data | web3Address | fixedPoint | other => simp [treeOf] at h

theorem treesOf_of_valuesOf {ts : List ParameterType} {xs : List WordTree} {cs : List AnyObject}
    (ih : ∀ t ∈ ts, ∀ x c, Fits t.skeleton x → valueOf t x = some c → treeOf t c = some x)
    (hf : FitsAll (skeletons ts) xs) (h : valuesOf ts xs = some cs) : treesOf ts cs = some xs := by
  induction ts generalizing xs cs with
  | nil =>
    cases xs with
    | nil =>
      obtain rfl : [] = cs := by simpa [valuesOf] using h
      rfl
    | cons x xs => simp [valuesOf] at h
  | cons t ts ihs =>
    obtain ⟨x, xs', c, cs', rfl, rfl, hc, hcs⟩ := valuesOf_cons_eq_some.mp h
    obtain ⟨hfx, hfs⟩ : Fits t.skeleton x ∧ FitsAll (skeletons ts) xs' := hf
    exact treesOf_cons_eq_some.mpr ⟨c, cs', x, xs', rfl, rfl, ih t (by simp) x c hfx hc,
      ihs (fun s hs => ih s (List.mem_cons_of_mem _ hs)) hfs hcs⟩

theorem trees_of_elements {t : ParameterType} {xs : List WordTree} {cs : List AnyObject}
    (ih : ∀ x c, Fits t.skeleton x → valueOf t x = some c → treeOf t c = some x)
    (hf : ∀ x ∈ xs, Fits t.skeleton x) (h : xs.mapM (valueOf t) = some cs) :
    xs.length = cs.length ∧ cs.mapM (treeOf t) = some xs := by
  rw [← valuesOf_replicate] at h
  have hfs : FitsAll (skeletons (List.replicate xs.length t)) xs := by
    rw [skeletons_eq_map, List.map_replicate]
    exact fitsAll_replicate.mpr hf
  have hx := treesOf_of_valuesOf (fun s hs => by rw [List.eq_of_mem_replicate hs]; exact ih) hfs h
  have hlen : xs.length = cs.length := (treesOf_length hx).2.symm
  rw [hlen, treesOf_replicate] at hx
  exact ⟨hlen, hx⟩

theorem treeOf_of_valueOf {t : ParameterType} {x : WordTree} {c : AnyObject} (hw : t.WellSized)
    (hf : Fits t.skeleton x) (h : valueOf t x = some c) : treeOf t c = some x := by
  induction t using ParameterType.nesting generalizing x c with
  | word t ht =>
    rw [skeleton_of_isWord ht] at hf
    cases x with
    | word w =>
      rw [valueOf_of_isWord ht, toOption_eq_some] at h
      rw [treeOf_of_isWord ht, encodeWord_of_decodeWord ((scalar_facts (.inl ht)).2.2.mp hw) hf h]
      rfl
    | payload bs => exact hf.elim
    | node xs => exact hf.elim
  | payload t ht =>
    rw [skeleton_of_isPayload ht] at hf
    cases x with
    | payload bs =>
      rw [valueOf_of_isPayload ht] at h
      rw [treeOf_of_isPayload ht, payloadBytes_of_payloadValue ht h]
      rfl
    | word w => exact hf.elim
    | node xs => exact hf.elim
  | array t n ih =>
    obtain ⟨xs, rfl, hall, hcount⟩ := fits_array hf
    simp only [valueOf, Option.map_eq_some_iff] at h
    obtain ⟨cs, hc, rfl⟩ := h
    obtain ⟨hlen, hx⟩ := trees_of_elements (fun x c => ih hw.1) hall hc
    by_cases h0 : n = 0
    · rw [if_pos h0] at hcount
      simp [treeOf, h0, ← hlen, hcount, hx]
    · rw [if_neg h0] at hcount
      simp [treeOf, h0, ← hlen, hcount, hx]
  | fixedArray t n ih =>
    cases x with
    | node xs =>
      simp only [valueOf, Option.map_eq_some_iff] at h
      obtain ⟨cs, hc, rfl⟩ := h
      rw [skeleton] at hf
      obtain ⟨hlen, hx⟩ := trees_of_elements (fun x c => ih hw.1) hf.2 hc
      simp [treeOf, ← hlen, hf.1, hx]
    | word w => exact hf.elim
    | payload bs => exact hf.elim
  | tuple ts ih =>
    cases x with
    | node xs =>
      simp only [valueOf, Option.map_eq_some_iff] at h
      obtain ⟨cs, hc, rfl⟩ := h
      have hall := allWellSized_iff.mp hw.1
      have hx := treesOf_of_valuesOf (fun t ht x c => ih t ht (hall t ht)) hf hc
      simp [treeOf, hx]
    | word w => exact hf.elim
    | payload bs => exact hf.elim

end

end TronlinkCore.Abi
