import TronlinkCore.Abi.JsonTypes

namespace TronlinkCore.Abi

open Outcome MachineInt ParameterType

namespace TypeTree

def isTuple (type : Text) : Bool := "tuple".toList.isPrefixOf type

def suffixes (type : Text) : Text := type.drop "tuple".toList.length

mutual
/-- Components of a tuple, aliases of other types, and the array suffixes as they stand. -/
def canonicalText : TypeTree → Text
  | .node type components =>
    if isTuple type then '(' :: joined (optionalTexts components) ++ [')'] ++ suffixes type else expandAliases type

def optionalTexts : Option (List TypeTree) → List Text
  | none => []
  | some components => canonicalTexts components

def canonicalTexts : List TypeTree → List Text
  | [] => []
  | component :: components => component.canonicalText :: canonicalTexts components
end

def textHeight (type : Text) : ℕ :=
  match parseTypeString type with
  | ok t => t.height
  | _ => 0

mutual
def nesting : TypeTree → ℕ
  | .node type components =>
    if isTuple type then optionalNesting components + 1 + (suffixes type).count '[' else textHeight type

def optionalNesting : Option (List TypeTree) → ℕ
  | none => 0
  | some components => nestings components

def nestings : List TypeTree → ℕ
  | [] => 0
  | component :: components => max component.nesting (nestings components)
end

mutual
def Complete : TypeTree → Prop
  | .node type components => isTuple type = true → OptionalComplete components

def OptionalComplete : Option (List TypeTree) → Prop
  | none => False
  | some components => AllComplete components

def AllComplete : List TypeTree → Prop
  | [] => True
  | component :: components => component.Complete ∧ AllComplete components
end

end TypeTree

theorem Suffix.abiRepresentation {s : Text} {t u : ParameterType} (h : Suffix s t u) :
    u.abiRepresentation = t.abiRepresentation ++ s := by
  induction h with
  | none t => rw [List.append_nil]
  | @dynamic s t u _ ih =>
    rw [ih, ParameterType.abiRepresentation, if_pos rfl, List.append_assoc]
    rfl
  | @length s t u n _ ih =>
    rw [ih, abiRepresentation_length, List.append_assoc, List.append_assoc]
    rfl

theorem Suffix.height {s : Text} {t u : ParameterType} (h : Suffix s t u) : u.height = t.height + s.count '[' := by
  induction h with
  | none t => rfl
  | @dynamic s t u _ ih =>
    have hc : ('[' :: ']' :: s).count '[' = s.count '[' + 1 := by simp
    rw [ih, hc, ParameterType.height]
    omega
  | @length s t u n _ ih =>
    have hd : (decimal n).count '[' = 0 := by
      apply List.count_eq_zero_of_not_mem
      intro hm
      exact absurd (isDigit_of_mem_decimal hm) (by decide)
    have hc : ('[' :: decimal n ++ ']' :: s).count '[' = s.count '[' + 1 := by simp [List.count_append, hd]
    have hh : (if n = 0 then ParameterType.fixedArray t 0 else .array t n).height = t.height + 1 := by
      split <;> rfl
    rw [ih, hc, hh]
    omega

theorem Suffix.isAscii {s : Text} {t u : ParameterType} (h : Suffix s t u) :
    s.isAscii ∧ ∀ c, s.head? = some c → c = '[' := by
  induction h with
  | none t => exact ⟨rfl, by simp⟩
  | dynamic _ ih =>
    refine ⟨?_, by rintro c ⟨⟩; rfl⟩
    rw [Text.isAscii_cons, Text.isAscii_cons, ih.1]
    rfl
  | length n _ ih =>
    refine ⟨?_, by rintro c ⟨⟩; rfl⟩
    rw [List.cons_append, Text.isAscii_cons, Text.isAscii_append, Text.isAscii_cons, isAscii_decimal, ih.1]
    rfl

theorem resolve_suffix {components : ℕ → Outcome (Option (List ParameterType))} {s : Text} {t u r : ParameterType}
    (h : Suffix s t u) {depth : ℕ} (hr : resolveTupleComponents components u depth = ok r) :
    ∃ t' depth', resolveTupleComponents components t depth' = ok t' ∧ Suffix s t' r := by
  induction h with
  | none t => exact ⟨r, depth, hr, .none r⟩
  | @dynamic s t u _ ih =>
    obtain ⟨t', d, ht, hs⟩ := ih hr
    simp only [resolveTupleComponents, bind_eq_ok, ensure_eq_ok, exists_const, addInt_eq_ok, ok.injEq] at ht
    obtain ⟨_, _, ⟨_, rfl⟩, t'', ht, rfl⟩ := ht
    exact ⟨t'', _, ht, .dynamic hs⟩
  | @length s t u n _ ih =>
    obtain ⟨t', d, ht, hs⟩ := ih hr
    by_cases h0 : n = 0
    · rw [if_pos h0] at ht
      simp only [resolveTupleComponents, bind_eq_ok, ensure_eq_ok, exists_const, addInt_eq_ok, ok.injEq] at ht
      obtain ⟨_, _, ⟨_, rfl⟩, t'', ht, rfl⟩ := ht
      refine ⟨t'', _, ht, .length n ?_⟩
      rwa [if_pos h0]
    · rw [if_neg h0] at ht
      simp only [resolveTupleComponents, bind_eq_ok, ensure_eq_ok, exists_const, addInt_eq_ok, ok.injEq] at ht
      obtain ⟨_, _, ⟨_, rfl⟩, t'', ht, rfl⟩ := ht
      refine ⟨t'', _, ht, .length n ?_⟩
      rwa [if_neg h0]

theorem resolve_tuple {components : ℕ → Outcome (Option (List ParameterType))} {s : Text} {u r : ParameterType}
    (h : Suffix s (.tuple []) u) {depth : ℕ} (hr : resolveTupleComponents components u depth = ok r) :
    ∃ types depth', components depth' = ok (some types) ∧ Suffix s (.tuple types) r := by
  obtain ⟨t', d, ht, hs⟩ := resolve_suffix h hr
  simp only [resolveTupleComponents, bind_eq_ok, ensure_eq_ok, exists_const, addInt_eq_ok, ofOption_eq_ok,
    ok.injEq] at ht
  obtain ⟨_, _, ⟨_, rfl⟩, o, ho, types, rfl, rfl⟩ := ht
  exact ⟨types, _, ho, hs⟩

theorem abiRepresentation_ne_nil (t : ParameterType) : t.abiRepresentation ≠ [] := by
  obtain ⟨b, bytes, hb, _⟩ := abiRepresentation_head t
  intro he
  rw [he] at hb
  cases hb

theorem abiRepresentation_first (t : ParameterType) : t.abiRepresentation.head? ≠ some 't' := by
  induction t using nesting with
  | word t h =>
    cases t with
    | uint | int | fixed | ufixed | address | function | bool | bytes =>
      intro he
      cases he
    | array | fixedArray | dynamicBytes | string | tuple => exact absurd h id
  | payload t h =>
    cases t with
    | dynamicBytes | string =>
      intro he
      cases he
    | _ => exact absurd h id
  | array t n ih =>
    have hne := abiRepresentation_ne_nil t
    rw [abiRepresentation]
    split
    · rwa [List.head?_append_of_ne_nil _ hne]
    · rwa [List.append_assoc, List.head?_append_of_ne_nil _ hne]
  | fixedArray t n ih =>
    rwa [abiRepresentation, List.append_assoc, List.head?_append_of_ne_nil _ (abiRepresentation_ne_nil t)]
  | tuple ts _ =>
    intro he
    cases he

theorem Names.not_tuple {w : Text} {t : ParameterType} (h : Names w t) : TypeTree.isTuple w = false := by
  apply Bool.eq_false_iff.mpr
  intro hp
  obtain ⟨rest, hw⟩ := List.isPrefixOf_iff_prefix.mp hp
  apply abiRepresentation_first t
  rw [← h.canonical, ← hw]
  rfl

theorem resolveTupleComponents_ne_trap {components : ℕ → Outcome (Option (List ParameterType))}
    (hc : ∀ depth, components depth ≠ trap) (t : ParameterType) (depth : ℕ) :
    resolveTupleComponents components t depth ≠ trap := by
  have hm : maxDepth ≤ intMax := by decide
  induction t using induct generalizing depth with
  | array t n ih =>
    apply bind_ne_trap (ensure_ne_trap _)
    intro _ hlt
    have hlt := ensure_eq_ok.mp hlt
    rw [addInt_of_le (by omega), ok_bind]
    apply bind_ne_trap (ih (depth + 1))
    simp
  | fixedArray t n ih =>
    apply bind_ne_trap (ensure_ne_trap _)
    intro _ hlt
    have hlt := ensure_eq_ok.mp hlt
    rw [addInt_of_le (by omega), ok_bind]
    apply bind_ne_trap (ih (depth + 1))
    simp
  | tuple ts _ =>
    apply bind_ne_trap (ensure_ne_trap _)
    intro _ hlt
    have hlt := ensure_eq_ok.mp hlt
    rw [addInt_of_le (by omega), ok_bind]
    apply bind_ne_trap (hc (depth + 1))
    intro o _
    apply bind_ne_trap (ofOption_ne_trap o)
    simp
  | _ => simp [resolveTupleComponents]

section

variable [Graphemes]

theorem hasPrefix_of_suffix {s : Text} {t u : ParameterType} (h : Suffix s t u) :
    Text.hasPrefix ("tuple".toList ++ s) "tuple".toList = true := by
  have hp : "tuple".toList.isPrefixOf ("tuple".toList ++ s) = true :=
    List.isPrefixOf_iff_prefix.mpr (List.prefix_append _ _)
  rw [Text.hasPrefix, hp, List.drop_left, Bool.true_and, Option.all_eq_true]
  intro c hc
  rw [h.isAscii.2 c hc, Graphemes.joins_ascii _ (by decide)]
  rfl

theorem parseABIParameterType_eq_ok {string : Text} {depth : ℕ}
    {components : ℕ → Outcome (Option (List ParameterType))} {t : ParameterType}
    (h : parseABIParameterType string depth components = ok t) :
    Admitted depth t ∧
      (TypeTree.isTuple string = false ∧ parseTypeString string = ok t ∧ Names string t ∨
        TypeTree.isTuple string = true ∧ ∃ types depth', components depth' = ok (some types) ∧
          Suffix (TypeTree.suffixes string) (.tuple types) t) := by
  simp only [parseABIParameterType, bind_eq_ok, ensure_eq_ok, exists_const, ok.injEq, Prod.exists] at h
  obtain ⟨_, parsed, hparsed, u, hu, l, nodes, hl, rfl⟩ := h
  refine ⟨admitted_of_layout hl, ?_⟩
  obtain ⟨_, _, hn | ⟨s, hs, hsuffix⟩⟩ := parseTypeString_eq_ok hparsed
  · have hno := hn.not_tuple
    rw [TypeTree.isTuple] at hno
    rw [resolved, Text.hasPrefix, hno, Bool.false_and, if_neg (by simp), ok.injEq] at hu
    subst hu
    exact .inl ⟨hno, hparsed, hn⟩
  · rw [resolved, hs, hasPrefix_of_suffix hsuffix, if_pos rfl] at hu
    obtain ⟨types, d, hc, hr⟩ := resolve_tuple hsuffix hu
    rw [TypeTree.isTuple, TypeTree.suffixes, hs, List.drop_left]
    exact .inr ⟨List.isPrefixOf_iff_prefix.mpr (List.prefix_append _ _), types, d, hc, hr⟩

theorem parameterTypes_eq_ok {cs : List TypeTree} {depth : ℕ} {ts : List ParameterType}
    (ih : ∀ c ∈ cs, ∀ depth t, c.parameterType depth = ok t →
      c.Complete ∧ t.abiRepresentation = c.canonicalText ∧ t.height = c.nesting)
    (h : TypeTree.parameterTypes cs depth = ok ts) :
    TypeTree.AllComplete cs ∧ representations ts = TypeTree.canonicalTexts cs ∧ heights ts = TypeTree.nestings cs := by
  induction cs generalizing ts with
  | nil =>
    cases h
    exact ⟨trivial, rfl, rfl⟩
  | cons c cs ihcs =>
    simp only [TypeTree.parameterTypes, bind_eq_ok, ok.injEq] at h
    obtain ⟨t, ht, us, hus, rfl⟩ := h
    obtain ⟨hc, htext, hheight⟩ := ih c List.mem_cons_self depth t ht
    obtain ⟨hcs, htexts, hheights⟩ := ihcs (fun c hc => ih c (List.mem_cons_of_mem _ hc)) hus
    refine ⟨⟨hc, hcs⟩, ?_, ?_⟩
    · rw [representations, htext, htexts, TypeTree.canonicalTexts]
    · rw [heights, hheight, hheights, TypeTree.nestings]

theorem parameterType_eq_ok (tree : TypeTree) {depth : ℕ} {t : ParameterType} (h : tree.parameterType depth = ok t) :
    tree.Complete ∧ t.abiRepresentation = tree.canonicalText ∧ t.height = tree.nesting := by
  induction tree using TypeTree.induct generalizing depth t with
  | node type components ih =>
    rw [TypeTree.parameterType] at h
    obtain ⟨_, ⟨hno, hp, hn⟩ | ⟨hyes, types, d, hc, hs⟩⟩ := parseABIParameterType_eq_ok h
    · refine ⟨?_, ?_, ?_⟩
      · intro hyes
        rw [hno] at hyes
        cases hyes
      · rw [TypeTree.canonicalText, hno, if_neg (by simp), hn.canonical]
      · rw [TypeTree.nesting, hno, if_neg (by simp), TypeTree.textHeight, hp]
    · cases components with
      | none => cases hc
      | some cs =>
        simp only [TypeTree.optionalTypes, bind_eq_ok, ok.injEq, Option.some.injEq] at hc
        obtain ⟨ts, hts, rfl⟩ := hc
        obtain ⟨hall, htexts, hheights⟩ := parameterTypes_eq_ok (fun c hc _ _ => ih cs rfl c hc) hts
        refine ⟨fun _ => hall, ?_, ?_⟩
        · rw [hs.abiRepresentation, TypeTree.canonicalText, if_pos hyes, abiRepresentation, htexts]
          rfl
        · rw [hs.height, TypeTree.nesting, if_pos hyes, height, hheights]
          rfl

theorem parseABIParameterType_ne_trap {components : ℕ → Outcome (Option (List ParameterType))}
    (hc : ∀ depth, components depth ≠ trap) (string : Text) (depth : ℕ) :
    parseABIParameterType string depth components ≠ trap := by
  apply bind_ne_trap (ensure_ne_trap _)
  intro _ _
  apply bind_ne_trap (parseTypeString_ne_trap string)
  intro parsed _
  apply bind_ne_trap
  · apply ite_ne_trap (resolveTupleComponents_ne_trap hc parsed depth)
    simp
  · intro u _
    apply bind_ne_trap (layout_ne_trap u depth maxNodes)
    simp

theorem parameterType_ne_trap (tree : TypeTree) (depth : ℕ) : tree.parameterType depth ≠ trap := by
  induction tree using TypeTree.induct generalizing depth with
  | node type components ih =>
    rw [TypeTree.parameterType]
    apply parseABIParameterType_ne_trap
    intro d
    cases components with
    | none => simp [TypeTree.optionalTypes]
    | some cs =>
      have htypes : TypeTree.parameterTypes cs d ≠ trap := by
        have ihcs := ih cs rfl
        clear ih
        induction cs with
        | nil => simp [TypeTree.parameterTypes]
        | cons c cs ihl =>
          apply bind_ne_trap (ihcs c List.mem_cons_self d)
          intro t _
          apply bind_ne_trap (ihl fun c hc => ihcs c (List.mem_cons_of_mem _ hc))
          simp
      apply bind_ne_trap htypes
      simp

theorem parameterType_rejected {tree : TypeTree} (h : ¬ tree.Complete ∨ maxDepth < tree.nesting) :
    Rejected (tree.parameterType 0) := by
  apply rejected_of (parameterType_ne_trap tree 0)
  intro t ht
  obtain ⟨hc, _, hheight⟩ := parameterType_eq_ok tree ht
  rcases h with h | h
  · exact h hc
  · cases tree with
    | node type components =>
      rw [TypeTree.parameterType] at ht
      have hle := (parseABIParameterType_eq_ok ht).1.height_le
      omega

theorem parse_canonical :
    (∀ (input : Input) (parsed : InOut), input.parse = ok parsed →
      parsed.type.abiRepresentation = input.tree.canonicalText) ∧
    (∀ (input : Input) (parsed : EventInput), input.parseForEvent = ok parsed →
      parsed.type.abiRepresentation = input.tree.canonicalText) ∧
    (∀ (output : Output) (parsed : InOut), output.parse = ok parsed →
      parsed.type.abiRepresentation = output.tree.canonicalText) ∧
    (∀ input : Input, ¬ input.tree.Complete ∨ maxDepth < input.tree.nesting →
      Rejected input.parse ∧ Rejected input.parseForEvent) ∧
    ∀ output : Output, ¬ output.tree.Complete ∨ maxDepth < output.tree.nesting → Rejected output.parse := by
  refine ⟨?_, ?_, ?_, ?_, ?_⟩
  · rintro ⟨name, type, indexed, components⟩ parsed h
    simp only [Input.parse, bind_eq_ok, ok.injEq] at h
    obtain ⟨t, ht, rfl⟩ := h
    exact (parameterType_eq_ok _ ht).2.1
  · rintro ⟨name, type, indexed, components⟩ parsed h
    simp only [Input.parseForEvent, bind_eq_ok, ok.injEq] at h
    obtain ⟨t, ht, rfl⟩ := h
    exact (parameterType_eq_ok _ ht).2.1
  · rintro ⟨name, type, components⟩ parsed h
    simp only [Output.parse, bind_eq_ok, ok.injEq] at h
    obtain ⟨t, ht, rfl⟩ := h
    exact (parameterType_eq_ok _ ht).2.1
  · rintro ⟨name, type, indexed, components⟩ h
    exact ⟨rejected_bind (parameterType_rejected h) _, rejected_bind (parameterType_rejected h) _⟩
  · rintro ⟨name, type, components⟩ h
    exact rejected_bind (parameterType_rejected h) _

end

def sampleInput : Input :=
  .mk none "tuple[2][]".toList none (some [.mk none "uint".toList none none, .mk none "tuple".toList none (some [])])

theorem parse_canonical_sample :
    "(uint256,())[2][]".toList = sampleInput.tree.canonicalText ∧
      Rejected (@Input.parse plainText (.mk none "tuple".toList none none)) := by
  constructor
  · exact (@parse_canonical plainText).1 sampleInput
      ⟨[], .array (.array (.tuple [.uint 256, .tuple []]) 2) 0⟩ (by with_unfolding_all rfl)
  · exact ((@parse_canonical plainText).2.2.2.1 (.mk none "tuple".toList none none) (.inl (fun h => h rfl))).1

mutual
def TypeTree.depth : TypeTree → ℕ
  | .node _ components => optionalDepth components + 1

def optionalDepth : Option (List TypeTree) → ℕ
  | none => 0
  | some components => depths components

def depths : List TypeTree → ℕ
  | [] => 0
  | component :: components => max component.depth (depths components)
end

def nestedInput : ℕ → Input
  | 0 => .mk none "bool".toList none none
  | n + 1 => .mk none "tuple".toList none (some [nestedInput n])

theorem deep_input_parses : ¬ ∀ input : Input, maxDepth < input.tree.depth → Rejected (@Input.parse plainText input) := by
  intro h
  have hdeep : maxDepth < (Input.mk none "uint256".toList none (some [nestedInput maxDepth])).tree.depth := by
    decide +kernel
  have hok : @Input.parse plainText (.mk none "uint256".toList none (some [nestedInput maxDepth])) =
      ok ⟨[], .uint 256⟩ := by
    with_unfolding_all rfl
  rcases h _ hdeep with hf | hf
  · rw [hok] at hf
    cases hf
  · rw [hok] at hf
    cases hf

end TronlinkCore.Abi
