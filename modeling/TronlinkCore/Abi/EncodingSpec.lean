import TronlinkCore.Abi.Encoding
import TronlinkCore.Abi.Work

/-!
The encoder writes the wire form of the tree of its value, and charges for one
visit of every component.
-/

namespace TronlinkCore.Abi

open Outcome MachineInt HeadTail ParameterType

abbrev encodingWork : ParameterType → WordTree → Budget := work id 0

abbrev encodingWorks : List ParameterType → List WordTree → Budget := works id 0

theorem headLayouts_spend {depth : ℕ} {ts : List ParameterType} (ha : ∀ t ∈ ts, Admitted depth t) {size : ℕ}
    (hs : size + headSizes (skeletons ts) ≤ intMax) (b : Budget) :
    headLayouts depth ts size b =
      spend (Budget.ofType (typeSizes ts)) (ts.map shape, size + headSizes (skeletons ts)) b := by
  induction ts generalizing size b with
  | nil => exact (spend_zero _ b).symm
  | cons t ts ih =>
    simp only [skeletons, headSizes, ← Nat.add_assoc] at hs
    have hsum : size + t.shape.headSize ≤ intMax := by
      rw [shape_headSize]
      omega
    have hsplit : Budget.ofType (typeSizes (t :: ts)) =
        Budget.ofType t.typeSize + (Budget.ofType (typeSizes ts) + 0) := by
      simp [Budget.ext_iff, typeSizes]
    rw [headLayouts, Budget.layout_spend (ha t (by simp)), hsplit]
    apply spend_bind
    intro _
    dsimp only
    rw [ensure_true (adding_le_iff.mpr hsum), ok_bind, adding_fst hsum, shape_headSize,
      ih (fun s h => ha s (List.mem_cons_of_mem _ h)) hs]
    apply spend_bind
    intro _
    simp only [List.map_cons, skeletons, headSizes, ← Nat.add_assoc, spend_zero]

theorem headLayouts_eq_ok {depth : ℕ} {ts : List ParameterType} {size total : ℕ} {ls : List Layout} {b b' : Budget}
    (h : headLayouts depth ts size b = ok ((ls, total), b')) :
    (∀ t ∈ ts, Admitted depth t) ∧ ls = ts.map shape ∧ total = size + headSizes (skeletons ts) := by
  induction ts generalizing size ls b with
  | nil =>
    simp only [headLayouts, ok.injEq, Prod.mk.injEq] at h
    obtain ⟨⟨rfl, rfl⟩, _⟩ := h
    simp [skeletons, headSizes]
  | cons t ts ih =>
    simp only [headLayouts, bind_eq_ok, Prod.exists, ensure_eq_ok, adding_le_iff, exists_const, ok.injEq,
      Prod.mk.injEq] at h
    obtain ⟨l, b1, hl, hsum, ls', total', b2, hrest, ⟨rfl, rfl⟩, rfl⟩ := h
    obtain ⟨ha, rfl, _, _⟩ := Budget.layout_eq_ok hl
    rw [adding_fst hsum] at hrest
    obtain ⟨hall, rfl, rfl⟩ := ih hrest
    refine ⟨?_, rfl, ?_⟩
    · simp only [List.forall_mem_cons]
      exact ⟨ha, hall⟩
    · rw [skeletons, headSizes, shape_headSize, Nat.add_assoc]

section

variable [Graphemes]

def EncodesWire (encodeValue : ValueEncoder) (t : ParameterType) : Prop :=
  ∀ v x b, treeOf t v = some x → (wire t.skeleton x).length ≤ intMax →
    encodeValue t v b = spend (encodingWork t x) (wire t.skeleton x) b

theorem encodeMembers_spend {enc : ValueEncoder} {ts : List ParameterType} {vs : List AnyObject}
    {xs : List WordTree} (henc : ∀ t ∈ ts, EncodesWire enc t) (hx : treesOf ts vs = some xs)
    (hf : FitsAll (skeletons ts) xs) (size : ℕ) (head tail : List UInt8) (b : Budget)
    (hh : headLength (components (skeletons ts) xs) ≤ intMax)
    (ht : size + (tail ++ tails (components (skeletons ts) xs)).length ≤ intMax) :
    encodeMembers enc size ts vs (ts.map shape) head tail b =
      spend (encodingWorks ts xs) (head ++ heads (size + tail.length) (components (skeletons ts) xs),
        tail ++ tails (components (skeletons ts) xs)) b := by
  induction ts generalizing vs xs head tail b with
  | nil =>
    cases vs with
    | nil =>
      obtain rfl : [] = xs := by simpa [treesOf] using hx
      simp only [skeletons, components, heads, tails, List.append_nil, encodeMembers]
      exact (spend_zero _ b).symm
    | cons v vs => simp [treesOf] at hx
  | cons t ts ih =>
    obtain ⟨v, vs', x, xs', rfl, rfl, htx, hxs⟩ := treesOf_cons_eq_some.mp hx
    obtain ⟨hfx, hfs⟩ : Fits t.skeleton x ∧ FitsAll (skeletons ts) xs' := hf
    have hrest := ih (fun s h => henc s (List.mem_cons_of_mem _ h)) hxs hfs
    have hcost : encodingWorks (t :: ts) (x :: xs') = encodingWork t x + encodingWorks ts xs' := by
      simp [encodingWorks, works, Budget.ext_iff]
    rw [List.map_cons, encodeMembers, hcost]
    cases hst : isStatic t.skeleton with
    | true =>
      have hlen := (aligned t.skeleton x hfx).2 hst
      simp only [skeletons, components, headLength, heads, tails, hst, if_true] at hh ht ⊢
      rw [henc t (by simp) v x b htx (by omega)]
      apply spend_bind
      intro _
      have hs : (t.shape.isStatic = true) = True := by simp [hst]
      simp only [hs, if_true]
      rw [ensure_true (by rw [hlen, shape_headSize]), ok_bind, hrest _ _ _ (by omega) ht, List.append_assoc]
    | false =>
      simp only [skeletons, components, headLength, heads, tails, hst, Bool.false_eq_true, if_false,
        List.length_append] at hh ht ⊢
      rw [henc t (by simp) v x b htx (by omega)]
      apply spend_bind
      intro _
      have hs : (t.shape.isStatic = true) = False := by simp [hst]
      have hoff : size + tail.length ≤ intMax := by omega
      have hword : unsignedWord (size + tail.length) = some (wordOf (size + tail.length)) :=
        unsignedWord_eq_some.mpr ⟨Nat.lt_of_le_of_lt hoff (by norm_num [intMax]), rfl⟩
      simp only [hs, if_false]
      rw [ensure_true (adding_le_iff.mpr hoff), ok_bind, adding_fst hoff, subInt_of_le hoff, ok_bind,
        ensure_true (by omega), ok_bind, hword, ofOption_some, ok_bind,
        hrest _ _ _ (by omega) (by simp only [List.length_append]; omega)]
      simp only [List.append_assoc, List.length_append, Nat.add_assoc]

theorem encodeSequence_spend {enc : ValueEncoder} {ts : List ParameterType} {vs : List AnyObject}
    {xs : List WordTree} {depth : ℕ} (henc : ∀ t ∈ ts, EncodesWire enc t) (hx : treesOf ts vs = some xs)
    (hf : FitsAll (skeletons ts) xs) (ha : ∀ t ∈ ts, Admitted depth t) (hd : depth ≤ maxDepth)
    (hle : (assemble (components (skeletons ts) xs)).length ≤ intMax) (b : Budget) :
    encodeSequence enc ts vs depth b =
      spend (Budget.ofType (typeSizes ts) + encodingWorks ts xs) (assemble (components (skeletons ts) xs)) b := by
  obtain ⟨hlen, hlen'⟩ := treesOf_length hx
  have hhead := headLength_components hf
  rw [assemble_length] at hle
  rw [encodeSequence, ensure_true hlen, ok_bind]
  apply afford_spend
  · intro hc
    have hn := (Budget.le_iff.mp hc).1
    have hw : ts.length ≤ (encodingWorks ts xs).nodes := length_le_works (by omega)
    simp only [Budget.add_nodes, Budget.ofType_nodes] at hn
    omega
  · intro _
    rw [ensure_true hd, ok_bind, headLayouts_spend ha (by omega), Nat.zero_add]
    apply spend_bind
    intro _
    dsimp only
    rw [encodeMembers_spend henc hx hf _ [] [] _ (by omega) (by rw [List.nil_append]; omega),
      show encodingWorks ts xs = encodingWorks ts xs + 0 by simp [Budget.ext_iff]]
    apply spend_bind
    intro _
    simp only [List.nil_append, List.length_nil, Nat.add_zero, ← hhead]
    rw [ensure_true (heads_length _ _), ok_bind, heads_length, subInt_of_le (by omega), ok_bind,
      ensure_true (by omega), ok_bind]
    exact (spend_zero _ _).symm

theorem encodePayload_spend {t : ParameterType} {v : AnyObject} {bs : List UInt8} (h : payloadBytes t v = some bs)
    (hle : (wordOf bs.length ++ padded bs).length ≤ intMax) (b : Budget) :
    encodePayload t v b = spend ⟨0, 0, bs.length⟩ (wordOf bs.length ++ padded bs) b := by
  rw [encodePayload, h, ofOption_some, ok_bind]
  apply afford_spend
  · intro hb
    exact (Budget.le_iff.mp hb).2.2
  · intro hb
    rw [subInt_of_le hb, ok_bind, encodeDynamicBytes_eq_some.mpr ⟨hle, rfl⟩, ofOption_some, ok_bind,
      spend_of_le _ (Budget.le_iff.mpr ⟨Nat.zero_le _, Nat.zero_le _, hb⟩)]
    simp [Budget.ext_iff]

def EncodesSequences (sequence : List ParameterType → List AnyObject → Budget → Outcome (List UInt8 × Budget))
    (depth : ℕ) : Prop :=
  ∀ ts vs xs b, treesOf ts vs = some xs → FitsAll (skeletons ts) xs → (∀ t ∈ ts, Admitted depth t) →
    (assemble (components (skeletons ts) xs)).length ≤ intMax →
    sequence ts vs b =
      spend (Budget.ofType (typeSizes ts) + encodingWorks ts xs) (assemble (components (skeletons ts) xs)) b

variable {sequence : List ParameterType → List AnyObject → Budget → Outcome (List UInt8 × Budget)} {depth : ℕ}

def elements (t : ParameterType) (xs : List WordTree) : List UInt8 :=
  assemble (xs.map fun x => (isStatic t.skeleton, wire t.skeleton x))

def lengthWord (hasLengthWord : Bool) (n : ℕ) : List UInt8 := if hasLengthWord then wordOf n else []

theorem encodeArray_spend (hseq : EncodesSequences sequence depth) {t : ParameterType} {vs : List AnyObject}
    {xs : List WordTree} {hasLengthWord : Bool} {n : UInt64} (hx : vs.mapM (treeOf t) = some xs)
    (hf : ∀ x ∈ xs, Fits t.skeleton x) (ha : Admitted depth t)
    (hn : if hasLengthWord then FitsWord vs.length else n.toNat = vs.length)
    (hle : (lengthWord hasLengthWord xs.length ++ elements t xs).length ≤ intMax) (b : Budget) :
    encodeArray sequence hasLengthWord t n (.array vs) b =
      spend (Budget.ofType (xs.length * t.typeSize) + (xs.map (encodingWork t)).sum)
        (lengthWord hasLengthWord xs.length ++ elements t xs) b := by
  rw [← treesOf_replicate] at hx
  have hlen : vs.length = xs.length := (treesOf_length hx).2
  have hskel : skeletons (List.replicate xs.length t) = List.replicate xs.length t.skeleton := by
    rw [skeletons_eq_map, List.map_replicate]
  have hbody := hseq (List.replicate vs.length t) vs xs b hx
  rw [hlen, hskel, components_replicate, typeSizes_replicate, encodingWorks, works_replicate] at hbody
  have hbody := hbody (fitsAll_replicate.mpr hf) (fun s hs => by rw [List.eq_of_mem_replicate hs]; exact ha)
    (by rw [List.length_append, elements] at hle; omega)
  rw [encodeArray]
  apply afford_spend
  · intro hc
    have hnodes := (Budget.le_iff.mp hc).1
    have hw : xs.length ≤ ((xs.map (encodingWork t)).sum).nodes := length_le_sum t xs
    simp only [Budget.add_nodes, Budget.ofType_nodes] at hnodes
    omega
  · intro hnodes
    have hn' : hasLengthWord = true ∨ n.toNat = vs.length := by
      cases hasLengthWord with
      | true => exact .inl rfl
      | false => exact .inr hn
    rw [ensure_true hn', ok_bind, hlen, hbody]
    conv_rhs => rw [show Budget.ofType (xs.length * t.typeSize) + (xs.map (encodingWork t)).sum =
      (Budget.ofType (xs.length * t.typeSize) + (xs.map (encodingWork t)).sum) + 0 by simp [Budget.ext_iff]]
    apply spend_bind
    intro _
    cases hasLengthWord with
    | true =>
      have hword : unsignedWord xs.length = some (wordOf xs.length) :=
        unsignedWord_eq_some.mpr ⟨fitsWord_iff.mp (hlen ▸ hn), rfl⟩
      simp only [lengthWord, if_true, List.length_append, wordOf_length, elements] at hle ⊢
      rw [ensure_true (by omega), ok_bind, hword, ofOption_some, ok_bind]
      exact (spend_zero _ _).symm
    | false => exact (spend_zero _ _).symm

theorem encodeOf_spend (hseq : EncodesSequences sequence (depth + 1)) {t : ParameterType} {v : AnyObject}
    {x : WordTree} (ha : Admitted depth t) (hx : treeOf t v = some x)
    (hle : (wire t.skeleton x).length ≤ intMax) (b : Budget) :
    ∃ rest, encodingWork t x = visit t + rest ∧ encodeOf sequence t v b = spend rest (wire t.skeleton x) b := by
  have hfit := (canonical_of_treeOf ha.wellSized hx).1
  have word (ht : t.IsWord) (he : encodeOf sequence t v b =
      (do let word ← ofOption (encodeWord t v); ok (word, b) : Outcome (List UInt8 × Budget))) :
      ∃ rest, encodingWork t x = visit t + rest ∧
        encodeOf sequence t v b = spend rest (wire t.skeleton x) b := by
    rw [treeOf_of_isWord ht] at hx
    obtain ⟨w, hw, rfl⟩ := Option.map_eq_some_iff.mp hx
    refine ⟨0, ?_, ?_⟩
    · rw [encodingWork, work_of_isWord ht]
      simp [Budget.ext_iff]
    · rw [he, hw, ofOption_some, ok_bind, skeleton_of_isWord ht, wire]
      exact (spend_zero _ _).symm
  have payload (ht : t.IsPayload) (he : encodeOf sequence t v b = encodePayload t v b) :
      ∃ rest, encodingWork t x = visit t + rest ∧
        encodeOf sequence t v b = spend rest (wire t.skeleton x) b := by
    rw [treeOf_of_isPayload ht] at hx
    obtain ⟨bs, hbs, rfl⟩ := Option.map_eq_some_iff.mp hx
    rw [skeleton_of_isPayload ht, wire] at hle ⊢
    refine ⟨⟨0, 0, bs.length⟩, work_of_isPayload ht bs, ?_⟩
    rw [he, encodePayload_spend hbs hle]
  cases t with
  | string => exact payload trivial rfl
  | dynamicBytes => exact payload trivial rfl
  | array t n =>
    cases v with
    | array vs =>
      simp only [treeOf, Option.ite_none_right_eq_some, Option.map_eq_some_iff] at hx
      obtain ⟨hn, xs, hxs, rfl⟩ := hx
      have hw : wire (ParameterType.array t n).skeleton (.node xs) =
          lengthWord (decide (n = 0)) xs.length ++ elements t xs := by
        by_cases h0 : n = 0
        · simp [skeleton, h0, wire, lengthWord, elements]
        · simp [skeleton, h0, wire, lengthWord, elements]
      have hf : ∀ x ∈ xs, Fits t.skeleton x := (canonical_elements (fun v x => canonical_of_treeOf ha.wellSized.1)
        (by rwa [treesOf_replicate])).1
      rw [hw] at hle ⊢
      refine ⟨Budget.ofType (xs.length * t.typeSize) + (xs.map (encodingWork t)).sum, by rw [encodingWork, work]; rfl, ?_⟩
      exact encodeArray_spend hseq hxs hf (ha.element (.inl ⟨n, rfl⟩)) (by simpa using hn) hle b
    | bigUInt | bigInt | number | string | data | web3Address | fixedPoint | other => simp [treeOf] at hx
  | fixedArray t n =>
    cases v with
    | array vs =>
      simp only [treeOf, Option.ite_none_right_eq_some, Option.map_eq_some_iff] at hx
      obtain ⟨hn, xs, hxs, rfl⟩ := hx
      have hw : wire (ParameterType.fixedArray t n).skeleton (.node xs) =
          lengthWord false xs.length ++ elements t xs := by
        simp [skeleton, wire, lengthWord, elements]
      have hf : ∀ x ∈ xs, Fits t.skeleton x := (canonical_elements (fun v x => canonical_of_treeOf ha.wellSized.1)
        (by rwa [treesOf_replicate])).1
      rw [hw] at hle ⊢
      refine ⟨Budget.ofType (xs.length * t.typeSize) + (xs.map (encodingWork t)).sum, by rw [encodingWork, work]; rfl, ?_⟩
      exact encodeArray_spend hseq hxs hf (ha.element (.inr ⟨n, rfl⟩)) (by simpa using hn) hle b
    | bigUInt | bigInt | number | string | data | web3Address | fixedPoint | other => simp [treeOf] at hx
  | tuple ts =>
    cases v with
    | array vs =>
      simp only [treeOf, Option.map_eq_some_iff] at hx
      obtain ⟨xs, hxs, rfl⟩ := hx
      rw [skeleton, wire] at hle ⊢
      refine ⟨Budget.ofType (typeSizes ts) + encodingWorks ts xs, by rw [encodingWork, work], ?_⟩
      exact hseq ts vs xs b hxs hfit (fun t ht => ha.member ht) hle
    | bigUInt | bigInt | number | string | data | web3Address | fixedPoint | other => simp [treeOf] at hx
  | uint | int | fixed | ufixed | address | function | bool | bytes => exact word trivial rfl

theorem encodeLevels_spend {levels depth : ℕ} {t : ParameterType} (hl : maxDepth ≤ depth + levels)
    (ha : Admitted depth t) : EncodesWire (encodeLevels levels depth) t := by
  have hm : maxDepth ≤ intMax := by decide
  induction levels generalizing depth t with
  | zero =>
    have hpos := t.height_pos
    have hle := ha.height_le
    omega
  | succ levels ih =>
    intro v x b hx hle
    have hpos := t.height_pos
    have hh := ha.height_le
    have hseq : EncodesSequences (fun types values budget => do
        let depth ← addInt depth 1
        encodeSequence (encodeLevels levels depth) types values depth budget) (depth + 1) := by
      intro ts vs xs b hxs hf hall hle
      dsimp only
      rw [addInt_of_le (by omega), ok_bind]
      apply encodeSequence_spend _ hxs hf hall (by omega) hle
      intro s hs
      exact ih (by omega) (hall s hs)
    obtain ⟨rest, hcost, hspend⟩ := encodeOf_spend hseq ha hx hle (b - visit t)
    rw [hcost]
    apply visit_spend ha
    intro hn
    dsimp only
    rw [Budget.sub_nodes, Budget.ofType_nodes, Nat.sub_zero, subInt_of_le hn, ok_bind, sub_visit]
    exact hspend

def WritesWire (encodeValue : ValueEncoder) : Prop :=
  ∀ t v b w b', encodeValue t v b = ok (w, b') →
    t.WellSized ∧ ∃ x, treeOf t v = some x ∧ w = wire t.skeleton x ∧ w.length ≤ intMax

theorem encodeMembers_eq_ok {enc : ValueEncoder} (henc : WritesWire enc) {ts : List ParameterType}
    {vs : List AnyObject} {size : ℕ} {head tail : List UInt8} {r : List UInt8 × List UInt8} {b b' : Budget}
    (hlen : ts.length = vs.length)
    (h : encodeMembers enc size ts vs (ts.map shape) head tail b = ok (r, b')) :
    ∃ xs, treesOf ts vs = some xs ∧ r.1 = head ++ heads (size + tail.length) (components (skeletons ts) xs) ∧
      r.2 = tail ++ tails (components (skeletons ts) xs) := by
  induction ts generalizing vs head tail b with
  | nil =>
    obtain rfl : [] = vs := (List.length_eq_zero_iff.mp hlen.symm).symm
    simp only [encodeMembers, ok.injEq, Prod.mk.injEq] at h
    exact ⟨[], rfl, by simp [← h.1, skeletons, components, heads], by simp [← h.1, skeletons, components, tails]⟩
  | cons t ts ih =>
    cases vs with
    | nil => simp at hlen
    | cons v vs =>
      have hlen : ts.length = vs.length := by simpa using hlen
      simp only [List.map_cons, encodeMembers, bind_eq_ok, Prod.exists] at h
      obtain ⟨w, b1, he, h⟩ := h
      obtain ⟨hw, x, hx, rfl, hle⟩ := henc t v b w b1 he
      have hcons (xs : List WordTree) (hxs : treesOf ts vs = some xs) : treesOf (t :: ts) (v :: vs) = some (x :: xs) :=
        treesOf_cons_eq_some.mpr ⟨v, vs, x, xs, rfl, rfl, hx, hxs⟩
      rw [shape_isStatic] at h
      cases hst : isStatic t.skeleton with
      | true =>
        simp only [hst, if_true, bind_eq_ok, ensure_eq_ok, exists_const] at h
        obtain ⟨xs, hxs, hr1, hr2⟩ := ih hlen h.2
        refine ⟨x :: xs, hcons xs hxs, ?_, ?_⟩
        · rw [hr1]
          simp [skeletons, components, heads, hst]
        · rw [hr2]
          simp [skeletons, components, tails, hst]
      | false =>
        simp only [hst, Bool.false_eq_true, if_false, bind_eq_ok, ensure_eq_ok, adding_le_iff, exists_const,
          ofOption_eq_ok] at h
        obtain ⟨hoff, room, _, _, word, hword, h⟩ := h
        rw [adding_fst hoff] at hword
        have hword := (unsignedWord_eq_some.mp hword).2
        obtain ⟨xs, hxs, hr1, hr2⟩ := ih hlen h
        refine ⟨x :: xs, hcons xs hxs, ?_, ?_⟩
        · rw [hr1, hword]
          simp [skeletons, components, heads, hst, Nat.add_assoc]
        · rw [hr2]
          simp [skeletons, components, tails, hst]

theorem encodeSequence_eq_ok {enc : ValueEncoder} (henc : WritesWire enc) {ts : List ParameterType}
    {vs : List AnyObject} {w : List UInt8} {b b' : Budget} (h : encodeSequence enc ts vs depth b = ok (w, b')) :
    (∀ t ∈ ts, Admitted depth t) ∧ ∃ xs, treesOf ts vs = some xs ∧ FitsAll (skeletons ts) xs ∧
      w = assemble (components (skeletons ts) xs) ∧ w.length ≤ intMax := by
  simp only [encodeSequence, bind_eq_ok, ensure_eq_ok, afford_eq_ok, exists_const, Prod.exists, subInt_eq_ok,
    ok.injEq, Prod.mk.injEq] at h
  obtain ⟨hlen, _, _, ls, size, b1, hl, head, tail, b2, hm, hhead, room, ⟨hroom, rfl⟩, htail, rfl, rfl⟩ := h
  obtain ⟨hall, rfl, rfl⟩ := headLayouts_eq_ok hl
  obtain ⟨xs, hxs, h1, h2⟩ := encodeMembers_eq_ok henc hlen hm
  simp only [List.nil_append, List.length_nil, Nat.add_zero, Nat.zero_add] at h1 h2 hhead
  have hf : FitsAll (skeletons ts) xs :=
    (canonicals_of_treesOf (fun t ht v x => canonical_of_treeOf (hall t ht).wellSized) hxs).1
  refine ⟨hall, xs, hxs, hf, ?_, ?_⟩
  · rw [h1, h2, assemble, headLength_components hf]
  · rw [List.length_append]
    omega

theorem encodePayload_eq_ok {t : ParameterType} {v : AnyObject} {w : List UInt8} {b b' : Budget}
    (h : encodePayload t v b = ok (w, b')) : ∃ bs, payloadBytes t v = some bs ∧
      w = wordOf bs.length ++ padded bs ∧ w.length ≤ intMax := by
  simp only [encodePayload, bind_eq_ok, ofOption_eq_ok, afford_eq_ok, exists_const, ok.injEq, Prod.mk.injEq] at h
  obtain ⟨bs, hbs, _, n, _, encoded, he, rfl, _⟩ := h
  have hw := encodeDynamicBytes_eq_some.mp he
  refine ⟨bs, hbs, hw.2, ?_⟩
  rw [hw.2]
  exact hw.1

def WritesSequences (sequence : List ParameterType → List AnyObject → Budget → Outcome (List UInt8 × Budget)) :
    Prop :=
  ∀ ts vs b w b', sequence ts vs b = ok (w, b') →
    ∃ xs, treesOf ts vs = some xs ∧ w = assemble (components (skeletons ts) xs) ∧ w.length ≤ intMax

theorem encodeArray_eq_ok (hseq : WritesSequences sequence) {t : ParameterType} {v : AnyObject}
    {hasLengthWord : Bool} {n : UInt64} {w : List UInt8} {b b' : Budget}
    (h : encodeArray sequence hasLengthWord t n v b = ok (w, b')) :
    ∃ vs xs, v = .array vs ∧ vs.mapM (treeOf t) = some xs ∧ (if hasLengthWord then FitsWord vs.length else n.toNat = vs.length) ∧
      w = lengthWord hasLengthWord xs.length ++ elements t xs ∧ w.length ≤ intMax := by
  cases v with
  | array vs =>
    simp only [encodeArray, bind_eq_ok, afford_eq_ok, ensure_eq_ok, exists_const, Prod.exists] at h
    obtain ⟨_, hn, body, b1, hb, h⟩ := h
    obtain ⟨xs, hxs, hbody, hle⟩ := hseq _ _ _ _ _ hb
    have hlen : vs.length = xs.length := (treesOf_length hxs).2
    have hbody : body = elements t xs := by
      rw [hbody, hlen, skeletons_eq_map, List.map_replicate, components_replicate, elements]
    rw [treesOf_replicate] at hxs
    refine ⟨vs, xs, rfl, hxs, ?_⟩
    cases hasLengthWord with
    | true =>
      simp only [if_true, bind_eq_ok, ensure_eq_ok, exists_const, ofOption_eq_ok, ok.injEq, Prod.mk.injEq] at h
      obtain ⟨hroom, count, hcount, rfl, _⟩ := h
      have hcount := unsignedWord_eq_some.mp hcount
      rw [hcount.2, hbody, hlen]
      refine ⟨fitsWord_iff.mpr (hlen ▸ hcount.1), rfl, ?_⟩
      have : 32 ≤ intMax := by decide
      rw [← hbody, List.length_append, wordOf_length]
      omega
    | false =>
      simp only [Bool.false_eq_true, if_false, ok.injEq, Prod.mk.injEq] at h
      obtain ⟨rfl, _⟩ := h
      exact ⟨by simpa using hn, hbody, hle⟩
  | bigUInt | bigInt | number | string | data | web3Address | fixedPoint | other => simp [encodeArray] at h

theorem encodeOf_eq_ok (hseq : WritesSequences sequence) {t : ParameterType} {v : AnyObject} {w : List UInt8}
    {b b' : Budget} (hv : t.WellSized) (h : encodeOf sequence t v b = ok (w, b')) :
    ∃ x, treeOf t v = some x ∧ w = wire t.skeleton x ∧ w.length ≤ intMax := by
  have word (ht : t.IsWord)
      (h : (do let word ← ofOption (encodeWord t v); ok (word, b) : Outcome (List UInt8 × Budget)) = ok (w, b')) :
      ∃ x, treeOf t v = some x ∧ w = wire t.skeleton x ∧ w.length ≤ intMax := by
    simp only [bind_eq_ok, ofOption_eq_ok, ok.injEq, Prod.mk.injEq] at h
    obtain ⟨w', hw, rfl, _⟩ := h
    have hlen := (decodeWord_of_encodeWord ((scalar_facts (.inl ht)).2.2.mp hv) hw).1
    refine ⟨.word w', by rw [treeOf_of_isWord ht, hw]; rfl, by rw [skeleton_of_isWord ht, wire], ?_⟩
    rw [hlen]
    decide
  have payload (ht : t.IsPayload) (h : encodePayload t v b = ok (w, b')) :
      ∃ x, treeOf t v = some x ∧ w = wire t.skeleton x ∧ w.length ≤ intMax := by
    obtain ⟨bs, hbs, hw, hle⟩ := encodePayload_eq_ok h
    refine ⟨.payload bs, by rw [treeOf_of_isPayload ht, hbs]; rfl, ?_, hle⟩
    rw [skeleton_of_isPayload ht, wire]
    exact hw
  cases t with
  | string => exact payload trivial h
  | dynamicBytes => exact payload trivial h
  | array t n =>
    obtain ⟨vs, xs, rfl, hxs, hn, hw, hle⟩ := encodeArray_eq_ok hseq h
    refine ⟨.node xs, ?_, ?_, hle⟩
    · have hn : if n = 0 then FitsWord vs.length else n.toNat = vs.length := by simpa using hn
      simp [treeOf, hn, hxs]
    · by_cases h0 : n = 0
      · simpa [skeleton, h0, wire, lengthWord, elements] using hw
      · simpa [skeleton, h0, wire, lengthWord, elements] using hw
  | fixedArray t n =>
    obtain ⟨vs, xs, rfl, hxs, hn, hw, hle⟩ := encodeArray_eq_ok hseq h
    refine ⟨.node xs, ?_, ?_, hle⟩
    · have hn : n.toNat = vs.length := by simpa using hn
      simp [treeOf, hn, hxs]
    · simpa [skeleton, wire, lengthWord, elements] using hw
  | tuple ts =>
    cases v with
    | array vs =>
      obtain ⟨xs, hxs, hw, hle⟩ := hseq ts vs b w b' h
      exact ⟨.node xs, by simp [treeOf, hxs], by rw [skeleton, wire]; exact hw, hle⟩
    | bigUInt | bigInt | number | string | data | web3Address | fixedPoint | other => simp [encodeOf] at h
  | uint | int | fixed | ufixed | address | function | bool | bytes => exact word trivial h

theorem encodeLevels_eq_ok (levels depth : ℕ) : WritesWire (encodeLevels levels depth) := by
  induction levels generalizing depth with
  | zero =>
    intro t v b w b' h
    simp [encodeLevels] at h
  | succ levels ih =>
    intro t v b w b' h
    simp only [encodeLevels, bind_eq_ok, afford_eq_ok, exists_const, Prod.exists] at h
    obtain ⟨_, l, b1, hl, n, _, h⟩ := h
    have ha := (Budget.layout_eq_ok hl).1
    refine ⟨ha.wellSized, encodeOf_eq_ok ?_ ha.wellSized h⟩
    intro ts vs b w b' h
    simp only [bind_eq_ok, addInt_eq_ok] at h
    obtain ⟨_, ⟨_, rfl⟩, h⟩ := h
    obtain ⟨_, xs, hxs, _, hw, hle⟩ := encodeSequence_eq_ok (ih (depth + 1)) h
    exact ⟨xs, hxs, hw, hle⟩

theorem encode_eq_ok {ts : List ParameterType} {vs : List AnyObject} {d : Data} (h : encode ts vs = ok d) :
    (∀ t ∈ ts, Admitted 0 t) ∧ ∃ xs, treesOf ts vs = some xs ∧ FitsAll (skeletons ts) xs ∧
      d.bytes = assemble (components (skeletons ts) xs) := by
  simp only [encode, bind_eq_ok, Prod.exists, Data.ofBytes_eq_ok] at h
  obtain ⟨w, b', h, rfl⟩ := h
  obtain ⟨ha, xs, hx, hf, hw, _⟩ := encodeSequence_eq_ok (encodeLevels_eq_ok maxDepth 0) h
  exact ⟨ha, xs, hx, hf, hw⟩

def encodingCost (ts : List ParameterType) (vs : List AnyObject) : Option Budget :=
  (treesOf ts vs).map fun xs => Budget.ofType (typeSizes ts) + encodingWorks ts xs

theorem encodingCost_of_trees {ts : List ParameterType} {vs : List AnyObject} {xs : List WordTree}
    (hx : treesOf ts vs = some xs) :
    encodingCost ts vs = some (Budget.ofType (typeSizes ts) + encodingWorks ts xs) := by
  rw [encodingCost, hx, Option.map_some]

theorem encode_of_trees {ts : List ParameterType} {vs : List AnyObject} {xs : List WordTree}
    (ha : ∀ t ∈ ts, Admitted 0 t) (hx : treesOf ts vs = some xs) (hf : FitsAll (skeletons ts) xs)
    (hle : (assemble (components (skeletons ts) xs)).length ≤ intMax) :
    encode ts vs = if Budget.ofType (typeSizes ts) + encodingWorks ts xs ≤ Budget.full then
      ok ⟨assemble (components (skeletons ts) xs), hle⟩ else exhausted := by
  have hs := encodeSequence_spend (fun t ht => encodeLevels_spend (Nat.le_add_left maxDepth 0) (ha t ht)) hx hf ha
    (Nat.zero_le _) hle Budget.full
  have hd : Data.ofBytes (assemble (components (skeletons ts) xs)) = ok ⟨_, hle⟩ := Data.ofBytes_eq_ok.mpr rfl
  rw [encode, encodeValue, hs, spend]
  split
  · exact hd
  · rfl

end

end TronlinkCore.Abi
