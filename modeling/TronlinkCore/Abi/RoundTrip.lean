import TronlinkCore.Abi.EncodingSpec
import TronlinkCore.Abi.DecodingSpec

namespace TronlinkCore.Abi

open Outcome MachineInt HeadTail ParameterType

theorem decodeTuple_assemble [Graphemes] {types : List ParameterType} {xs : List WordTree} {cs : List AnyObject}
    {d : Data} (ha : ∀ t ∈ types, Admitted 0 t) (hf : FitsAll (skeletons types) xs)
    (hd : d.bytes = assemble (components (skeletons types) xs)) (hv : valuesOf types xs = some cs) {b : Budget}
    (hb : b.nodes ≤ intMax) :
    decodeTuple (decodeValue d.bytes) d.bytes types 0 0 b =
      spend (Budget.ofType (typeSizes types) + decodingWorks types xs) cs b := by
  have hat : At d.bytes 0 (assemble (components (skeletons types) xs)) := ⟨[], [], by simp [hd], rfl⟩
  obtain ⟨hle, hm⟩ := members_of_assemble hf (fun t _ x start hf h => body_of_at t x start hf h) hat
  rw [decodeValue]
  exact decodeTuple_spend (fun t ht => decodeLevels_spend (Nat.le_add_left maxDepth 0) (ha t ht) d.count_le) ha
    d.count_le (Nat.zero_le _) hb hle hm hv

theorem decodeTuple_encode [Graphemes] {types : List ParameterType} {values : List AnyObject} {d : Data}
    (h : encode types values = ok d) :
    ∃ cs cost, canonicals types values = some cs ∧ cs.length = types.length ∧ decodingCost types values = some cost ∧
      ∀ b : Budget, b.nodes ≤ intMax →
        decodeTuple (decodeValue d.bytes) d.bytes types 0 0 b = spend cost cs b := by
  obtain ⟨ha, xs, hx, hf, hd⟩ := encode_eq_ok h
  have hw (t : ParameterType) (ht : t ∈ types) := (ha t ht).wellSized
  obtain ⟨_, cs, hc, hv⟩ := canonicals_of_treesOf (fun t ht v x => canonical_of_treeOf (hw t ht)) hx
  obtain ⟨htypes, hvalues⟩ := valuesOf_length hv
  refine ⟨cs, _, hc, by omega, ?_, fun b hb => decodeTuple_assemble ha hf hd hv hb⟩
  rw [decodingCost, hx, Option.map_some]

theorem decodingCost_typeNodes [Graphemes] {types : List ParameterType} {values : List AnyObject} {cost : Budget}
    (h : decodingCost types values = some cost) : typeSizes types ≤ cost.typeNodes := by
  obtain ⟨xs, _, rfl⟩ := Option.map_eq_some_iff.mp h
  rw [Budget.add_typeNodes, Budget.ofType_typeNodes]
  exact Nat.le_add_right _ _

theorem decodingCost_nodes [Graphemes] {types : List ParameterType} {values : List AnyObject} {cost : Budget}
    (h : decodingCost types values = some cost) : types.length ≤ cost.nodes := by
  obtain ⟨xs, hx, rfl⟩ := Option.map_eq_some_iff.mp h
  obtain ⟨htypes, hvalues⟩ := treesOf_length hx
  have hle : types.length ≤ (decodingWorks types xs).nodes := length_le_works (htypes.trans hvalues)
  rw [Budget.add_nodes]
  omega

theorem decode_of_spend [Graphemes] {types : List ParameterType} {d : Data} {cs : List AnyObject} {cost : Budget}
    (h : decodeTuple (decodeValue d.bytes) d.bytes types 0 0 .full = spend cost cs .full) :
    decode types d false = if cost ≤ Budget.full then ok cs else exhausted := by
  rw [decode_strict, h, spend]
  split <;> rfl

theorem dvd_of_encode [Graphemes] {types : List ParameterType} {values : List AnyObject} {d : Data}
    (h : encode types values = ok d) : 32 ∣ d.bytes.length := by
  obtain ⟨_, xs, _, hf, hd⟩ := encode_eq_ok h
  rw [hd]
  exact (aligned_assemble hf (fun t _ x => aligned t x)).1

theorem decode_encode [Graphemes] {types : List ParameterType} {values : List AnyObject} {d : Data}
    (h : encode types values = ok d) :
    32 ∣ d.bytes.length ∧ ∃ cs cost, canonicals types values = some cs ∧ cs.length = types.length ∧
      decodingCost types values = some cost ∧
      decode types d false = if cost ≤ Budget.full then ok cs else exhausted := by
  obtain ⟨cs, cost, hc, hlen, hcost, hdecode⟩ := decodeTuple_encode h
  exact ⟨dvd_of_encode h, cs, cost, hc, hlen, hcost, decode_of_spend (hdecode _ (by decide))⟩

-- `(0x2a, [true])` as two heads and a tail
def sampleTypes : List ParameterType := [.uint 8, .array .bool 0]

def sampleValues : List AnyObject := [.string "0x2a".toList, .array [.number 1]]

def sampleData : Data := ⟨wordOf 42 ++ wordOf 64 ++ wordOf 1 ++ wordOf 1, by decide +kernel⟩

set_option maxRecDepth 20000 in
theorem decode_encode_sample : 32 ∣ sampleData.bytes.length ∧
    @canonicals plainText sampleTypes sampleValues = some [.bigUInt 42, .array [.number 1]] ∧
      @decode plainText sampleTypes sampleData false = ok [.bigUInt 42, .array [.number 1]] := by
  obtain ⟨hdvd, cs, cost, hcs, _, hcost, hdecode⟩ :=
    @decode_encode plainText sampleTypes sampleValues sampleData (by decide +kernel)
  have hcanonicals : @canonicals plainText sampleTypes sampleValues = some [.bigUInt 42, .array [.number 1]] := by rfl
  have hfull : cost ≤ Budget.full := Budget.le_full_of_all hcost (by decide +kernel)
  rw [hcanonicals, Option.some.injEq] at hcs
  rw [if_pos hfull, ← hcs] at hdecode
  exact ⟨hdvd, hcanonicals, hdecode⟩

theorem encode_decode [Graphemes] {types : List ParameterType} {d : Data} {cs : List AnyObject}
    (h : decode types d false = ok cs) :
    ∃ cost, encodingCost types cs = some cost ∧ (¬ cost ≤ Budget.full → encode types cs = exhausted) ∧
      (cost ≤ Budget.full → ∃ e, encode types cs = ok e ∧ decode types e false = ok cs ∧
        ((∀ t ∈ types, t.shape.isStatic = true) →
          e.bytes = d.bytes.take (types.map fun t => t.shape.headSize).sum)) := by
  obtain ⟨ha, hle, xs, hm, hv, hcost⟩ := decode_eq_ok h
  obtain ⟨hf, hstatic⟩ := members_fits hm (fun t _ x start hb => body_fits t x start hb) (by omega)
  have hw (t : ParameterType) (ht : t ∈ types) := (ha t ht).wellSized
  have hx := treesOf_of_valuesOf (fun t ht x c => treeOf_of_valueOf (hw t ht)) hf hv
  have hbound : (assemble (components (skeletons types) xs)).length ≤ intMax := by
    have hlen := assemble_works_le (fun t _ x hf => @wire_le_work (fun _ => 1) 1 t x hf) hf
    obtain ⟨hn, _, hp⟩ := Budget.le_iff.mp hcost
    simp only [Budget.add_nodes, Budget.add_payloadBytes, Budget.ofType_nodes, Budget.ofType_payloadBytes,
      Budget.full, decodingWorks] at hn hp
    have hmax : 128 * 1000000 + 64 * 1024 * 1024 ≤ intMax := by decide
    omega
  have hencode := encode_of_trees ha hx hf hbound
  refine ⟨_, encodingCost_of_trees hx, ?_, ?_⟩
  · intro hover
    rw [hencode, if_neg hover]
  · intro hfull
    rw [if_pos hfull] at hencode
    refine ⟨_, hencode, ?_, ?_⟩
    · rw [decode_of_spend (decodeTuple_assemble ha hf rfl hv (by decide)), if_pos hcost]
    · intro hall
      have hst : allStatic (skeletons types) = true := allStatic_skeletons.mpr hall
      have htails := (aligned_components hf (fun t _ x => aligned t x)).2.2 hst
      have hat := (hstatic hst (headLength (components (skeletons types) xs))).slice
      rw [List.drop_zero, heads_length, headLength_components hf] at hat
      rw [headSizes_skeletons] at hat
      change assemble (components (skeletons types) xs) = _
      rw [assemble, htails, List.append_nil, headLength_components hf, headSizes_skeletons]
      exact hat.symm

set_option maxRecDepth 20000 in
theorem encode_decode_sample :
    ∃ e, @encode plainText sampleTypes [.bigUInt 42, .array [.number 1]] = ok e ∧
      @decode plainText sampleTypes e false = ok [.bigUInt 42, .array [.number 1]] ∧
        ((∀ t ∈ sampleTypes, t.shape.isStatic = true) →
          e.bytes = sampleData.bytes.take (sampleTypes.map fun t => t.shape.headSize).sum) := by
  obtain ⟨cost, hcost, _, hencode⟩ :=
    @encode_decode plainText sampleTypes sampleData [.bigUInt 42, .array [.number 1]] (by rfl)
  have hfull : cost ≤ Budget.full := Budget.le_full_of_all hcost (by decide +kernel)
  exact hencode hfull

end TronlinkCore.Abi
