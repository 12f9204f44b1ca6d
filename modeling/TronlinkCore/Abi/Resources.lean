import TronlinkCore.Abi.Emitted
import TronlinkCore.Abi.LegacyMetadata

/-!
The size of what the decoder returns. Every value of the result has used a node
of the budget, and every byte of a `string` or `bytes` a byte of it.
-/

namespace TronlinkCore.Abi

open Outcome MachineInt HeadTail ParameterType

mutual
def AnyObject.nodes : AnyObject → ℕ
  | .array elements => nodesOf elements + 1
  | _ => 1

def nodesOf : List AnyObject → ℕ
  | [] => 0
  | value :: values => value.nodes + nodesOf values
end

mutual
def AnyObject.octets : AnyObject → ℕ
  | .array elements => octetsOf elements
  | .string value => (Text.utf8 value).length
  | .data value => value.length
  | _ => 0

def octetsOf : List AnyObject → ℕ
  | [] => 0
  | value :: values => value.octets + octetsOf values
end

mutual
def payload : ParameterType → AnyObject → ℕ
  | .array t _, .array elements => (elements.map (payload t)).sum
  | .fixedArray t _, .array elements => (elements.map (payload t)).sum
  | .tuple ts, .array elements => payloads ts elements
  | .string, .string value => (Text.utf8 value).length
  | .dynamicBytes, .data value => value.length
  | _, _ => 0

def payloads : List ParameterType → List AnyObject → ℕ
  | t :: ts, value :: values => payload t value + payloads ts values
  | _, _ => 0
end

theorem payload_of_isWord {t : ParameterType} (h : t.IsWord) (value : AnyObject) : payload t value = 0 := by
  cases t <;> cases value <;> first | rfl | exact h.elim

theorem payloadValue_size {t : ParameterType} (ht : t.IsPayload) {bs : List UInt8} {c : AnyObject}
    (h : payloadValue t bs = some c) : c.nodes = 1 ∧ payload t c = bs.length ∧ c.octets = bs.length := by
  cases t with
  | string =>
    simp only [payloadValue, Option.map_eq_some_iff] at h
    obtain ⟨text, htext, rfl⟩ := h
    have hutf8 := congrArg List.length (Text.utf8_of_ofUtf8? htext)
    exact ⟨rfl, hutf8, hutf8⟩
  | dynamicBytes =>
    cases h
    exact ⟨rfl, rfl, rfl⟩
  | _ => exact ht.elim

def Paid (nodes payload : ℕ) (b b' : Budget) : Prop :=
  nodes + b'.nodes ≤ b.nodes ∧ payload + b'.payloadBytes ≤ b.payloadBytes

theorem Paid.trans {n p m q : ℕ} {a b c : Budget} (h : Paid n p a b) (h' : Paid m q b c) : Paid (n + m) (p + q) a c := by
  obtain ⟨hn, hp⟩ := h
  obtain ⟨hn', hp'⟩ := h'
  constructor <;> omega

theorem Paid.of_spend {α : Type} {cost b b' : Budget} {a c : α} (h : spend cost a b = ok (c, b')) :
    Paid cost.nodes cost.payloadBytes b b' := by
  obtain ⟨hle, _, rfl⟩ := spend_eq_ok.mp h
  obtain ⟨hn, _, hp⟩ := Budget.le_iff.mp hle
  constructor
  · rw [Budget.sub_nodes]
    omega
  · rw [Budget.sub_payloadBytes]
    omega

theorem Paid.of_layout {t : ParameterType} {depth : ℕ} {b b' : Budget} {l : Layout}
    (h : Budget.layout t depth b = ok (l, b')) : Paid 0 0 b b' := by
  obtain ⟨_, _, hn, hp⟩ := Budget.layout_eq_ok h
  constructor <;> omega

theorem inputLayouts_paid {inputs : List EventInput} {b b' : Budget} (h : inputLayouts inputs b = ok b') :
    Paid 0 0 b b' := by
  induction inputs generalizing b with
  | nil =>
    cases h
    constructor <;> omega
  | cons input inputs ih =>
    simp only [inputLayouts, bind_eq_ok, Prod.exists] at h
    obtain ⟨l, b1, hl, h⟩ := h
    exact (Paid.of_layout hl).trans (ih h)

theorem Arranges.nodes {inputs : List EventInput} {indexed nonIndexed values : List AnyObject}
    (h : Arranges inputs indexed nonIndexed values) : nodesOf values = nodesOf indexed + nodesOf nonIndexed := by
  induction h with
  | nil => rfl
  | indexed value hb h ih => rw [nodesOf, nodesOf, ih, Nat.add_assoc]
  | nonIndexed value hb h ih =>
    rw [nodesOf, nodesOf, ih]
    omega

theorem decodeLegacyMetadata_eq_some {t : ParameterType} {data : List UInt8} {c : AnyObject}
    (h : decodeLegacyMetadata t data = some c) : c.nodes = 1 ∧ c.octets ≤ 32 ∧ payload t c ≤ 32 := by
  obtain ⟨rfl, text, hnames, rfl⟩ := decodeLegacyMetadata_eq_some_iff.mp h
  obtain ⟨zeros, hword⟩ := hnames.padded
  have hlength := hnames.length_eq
  rw [hword, List.length_append] at hlength
  have hle : (Text.utf8 text).length ≤ 32 := by omega
  exact ⟨rfl, hle, hle⟩

section

variable [Graphemes]

theorem decodeWord_size {t : ParameterType} {w : List UInt8} {c : AnyObject} (h : decodeWord t w = ok c) :
    c.nodes = 1 ∧ c.octets ≤ w.length := by
  cases t with
  | uint | int | fixed | ufixed | address | bool | bytes | function =>
    simp only [decodeWord, bind_eq_ok, ensure_eq_ok, exists_const, toInt_eq_ok, ok.injEq] at h
    grind [AnyObject.nodes, AnyObject.octets, List.length_take]
  | _ => simp [decodeWord] at h

/-- A value is as large as the work of reading it. -/
structure Sized (t : ParameterType) (x : WordTree) (c : AnyObject) : Prop where
  nodes : c.nodes = (decodingWork t x).nodes
  payload : payload t c = (decodingWork t x).payloadBytes
  octets : c.octets ≤ Abi.payload t c + 32 * c.nodes

structure AllSized (ts : List ParameterType) (xs : List WordTree) (cs : List AnyObject) : Prop where
  nodes : nodesOf cs = (decodingWorks ts xs).nodes
  payloads : payloads ts cs = (decodingWorks ts xs).payloadBytes
  octets : octetsOf cs ≤ Abi.payloads ts cs + 32 * nodesOf cs

theorem allSized {ts : List ParameterType} {xs : List WordTree} {cs : List AnyObject}
    (ih : ∀ t ∈ ts, ∀ x c, Fits t.skeleton x → valueOf t x = some c → Sized t x c)
    (hf : FitsAll (skeletons ts) xs) (h : valuesOf ts xs = some cs) : AllSized ts xs cs := by
  induction ts generalizing xs cs with
  | nil =>
    cases xs with
    | nil =>
      obtain rfl : [] = cs := by simpa [valuesOf] using h
      exact ⟨rfl, rfl, Nat.le_refl 0⟩
    | cons x xs => simp [valuesOf] at h
  | cons t ts ihs =>
    obtain ⟨x, xs', c, cs', rfl, rfl, hc, hcs⟩ := valuesOf_cons_eq_some.mp h
    obtain ⟨hfx, hfs⟩ : Fits t.skeleton x ∧ FitsAll (skeletons ts) xs' := hf
    have hx := ih t (by simp) x c hfx hc
    have hxs := ihs (fun s hs => ih s (List.mem_cons_of_mem _ hs)) hfs hcs
    constructor
    · simp only [nodesOf, works, Budget.add_nodes, Budget.ofType_nodes, hx.nodes, hxs.nodes, Nat.zero_add]
    · simp only [payloads, works, Budget.add_payloadBytes, Budget.ofType_payloadBytes, hx.payload, hxs.payloads,
        Nat.zero_add]
    · have := hx.octets
      have := hxs.octets
      simp only [octetsOf, payloads, nodesOf]
      omega

theorem elements_sized {t : ParameterType} {xs : List WordTree} {cs : List AnyObject}
    (ih : ∀ x c, Fits t.skeleton x → valueOf t x = some c → Sized t x c) (hf : ∀ x ∈ xs, Fits t.skeleton x)
    (h : xs.mapM (valueOf t) = some cs) :
    nodesOf cs = ((xs.map (decodingWork t)).sum).nodes ∧
      (cs.map (payload t)).sum = ((xs.map (decodingWork t)).sum).payloadBytes ∧
      octetsOf cs ≤ (cs.map (payload t)).sum + 32 * nodesOf cs := by
  induction xs generalizing cs with
  | nil =>
    obtain rfl : [] = cs := by simpa using h
    exact ⟨rfl, rfl, Nat.le_refl 0⟩
  | cons x xs ihs =>
    simp only [List.mapM_cons, Option.bind_eq_bind, Option.bind_eq_some_iff, Option.pure_def, Option.some.injEq] at h
    obtain ⟨c, hc, cs', hcs, rfl⟩ := h
    have hx := ih x c (hf x (by simp)) hc
    obtain ⟨hnodes, hpayload, hoctets⟩ := ihs (fun y hy => hf y (List.mem_cons_of_mem _ hy)) hcs
    refine ⟨?_, ?_, ?_⟩
    · simp only [nodesOf, List.map_cons, List.sum_cons, Budget.add_nodes, hx.nodes, hnodes]
    · simp only [List.map_cons, List.sum_cons, Budget.add_payloadBytes, hx.payload, hpayload]
    · have := hx.octets
      simp only [octetsOf, List.map_cons, List.sum_cons, nodesOf]
      omega

theorem sized {t : ParameterType} {x : WordTree} {c : AnyObject} (hf : Fits t.skeleton x)
    (h : valueOf t x = some c) : Sized t x c := by
  induction t using ParameterType.nesting generalizing x c with
  | word t ht =>
    rw [skeleton_of_isWord ht] at hf
    cases x with
    | word w =>
      rw [valueOf_of_isWord ht, toOption_eq_some] at h
      obtain ⟨hnodes, hoctets⟩ := decodeWord_size h
      have hlen : w.length = 32 := hf
      constructor
      · rw [hnodes, decodingWork, work_of_isWord ht]
        rfl
      · rw [payload_of_isWord ht, decodingWork, work_of_isWord ht]
        rfl
      · omega
    | payload bs => exact hf.elim
    | node xs => exact hf.elim
  | payload t ht =>
    rw [skeleton_of_isPayload ht] at hf
    cases x with
    | payload bs =>
      rw [valueOf_of_isPayload ht] at h
      obtain ⟨hnodes, hpayload, hoctets⟩ := payloadValue_size ht h
      constructor
      · rw [hnodes, decodingWork, work_of_isPayload ht]
        rfl
      · rw [hpayload, decodingWork, work_of_isPayload ht, Budget.add_payloadBytes]
        exact (Nat.zero_add _).symm
      · omega
    | word w => exact hf.elim
    | node xs => exact hf.elim
  | array t n ih =>
    obtain ⟨xs, rfl, hall, _⟩ := fits_array hf
    simp only [valueOf, Option.map_eq_some_iff] at h
    obtain ⟨cs, hc, rfl⟩ := h
    obtain ⟨hnodes, hpayload, hoctets⟩ := elements_sized (fun x c => ih) hall hc
    constructor
    · simp only [AnyObject.nodes, decodingWork, work, visit, Budget.add_nodes, Budget.ofType_nodes, hnodes]
      omega
    · simp only [payload, work, visit, Budget.add_payloadBytes, Budget.ofType_payloadBytes, hpayload, Nat.zero_add]
    · simp only [AnyObject.octets, payload, AnyObject.nodes]
      omega
  | fixedArray t n ih =>
    cases x with
    | node xs =>
      simp only [valueOf, Option.map_eq_some_iff] at h
      obtain ⟨cs, hc, rfl⟩ := h
      rw [skeleton] at hf
      obtain ⟨hnodes, hpayload, hoctets⟩ := elements_sized (fun x c => ih) hf.2 hc
      constructor
      · simp only [AnyObject.nodes, decodingWork, work, visit, Budget.add_nodes, Budget.ofType_nodes, hnodes]
        omega
      · simp only [payload, work, visit, Budget.add_payloadBytes, Budget.ofType_payloadBytes, hpayload, Nat.zero_add]
      · simp only [AnyObject.octets, payload, AnyObject.nodes]
        omega
    | word w => exact hf.elim
    | payload bs => exact hf.elim
  | tuple ts ih =>
    cases x with
    | node xs =>
      simp only [valueOf, Option.map_eq_some_iff] at h
      obtain ⟨cs, hc, rfl⟩ := h
      have hall := allSized (fun t ht x c => ih t ht) hf hc
      constructor
      · simp only [AnyObject.nodes, decodingWorks, work, visit, Budget.add_nodes, Budget.ofType_nodes, hall.nodes]
        omega
      · simp only [payload, work, visit, Budget.add_payloadBytes, Budget.ofType_payloadBytes, hall.payloads, Nat.zero_add]
      · have := hall.octets
        simp only [AnyObject.octets, payload, AnyObject.nodes]
        omega
    | word w => exact hf.elim
    | payload bs => exact hf.elim

theorem decodeValue_paid {data : Data} {t : ParameterType} {base head floor : ℕ} {c : AnyObject} {b b' : Budget}
    (hb : b.nodes ≤ intMax) (h : decodeValue data.bytes t base head floor 0 b = ok (c, b')) :
    Paid c.nodes (payload t c) b b' ∧ c.octets ≤ payload t c + 32 * c.nodes := by
  obtain ⟨_, ha, x, hx, hv⟩ := decodeValue_finds data t base head floor b c b' hb h
  obtain ⟨levels, hlevels⟩ : ∃ levels, maxDepth = levels + 1 := ⟨63, rfl⟩
  have hguards := h
  rw [decodeValue, hlevels, decodeLevels] at hguards
  simp only [bind_eq_ok, ensure_eq_ok, afford_eq_ok, exists_const, Prod.exists,
    subInt_eq_ok] at hguards
  obtain ⟨_, _, ⟨hbase, hhead⟩, l, b1, hl, room, ⟨_, rfl⟩, hroom, _⟩ := hguards
  obtain ⟨_, rfl, _⟩ := Budget.layout_eq_ok hl
  rw [shape_headSize] at hroom
  have hsized := sized hx.fits hv
  rw [decodeValue, decodeLevels_spend (Nat.le_add_left maxDepth 0) ha data.count_le base head floor x c b hb hbase
    (by omega) hx hv] at h
  refine ⟨?_, hsized.octets⟩
  rw [hsized.nodes, hsized.payload]
  exact .of_spend h

theorem decodeTuple_paid {data : Data} {ts : List ParameterType} {cs : List AnyObject} {b b' : Budget}
    (hb : b.nodes ≤ intMax) (h : decodeTuple (decodeValue data.bytes) data.bytes ts 0 0 b = ok (cs, b')) :
    Paid (nodesOf cs) (payloads ts cs) b b' ∧ octetsOf cs ≤ payloads ts cs + 32 * nodesOf cs := by
  obtain ⟨_, ha, hle, xs, hm, hv⟩ := decodeTuple_eq_ok (decodeValue_finds data) hb h
  obtain ⟨hf, _⟩ := members_fits hm (fun t _ x start hb => body_fits t x start hb) hle
  have hsized := allSized (fun t _ x c => sized) hf hv
  rw [decodeValue, decodeTuple_spend (fun t ht => decodeLevels_spend (Nat.le_add_left maxDepth 0) (ha t ht)
    data.count_le) ha data.count_le (Nat.zero_le _) hb hle hm hv] at h
  have hpaid := Paid.of_spend h
  rw [Budget.add_nodes, Budget.add_payloadBytes, Budget.ofType_nodes, Budget.ofType_payloadBytes, Nat.zero_add,
    Nat.zero_add, ← hsized.nodes, ← hsized.payloads] at hpaid
  exact ⟨hpaid, hsized.octets⟩

theorem indexedValue_paid {topic : Data} {t : ParameterType} {b b' : Budget} {c : AnyObject} (hb : b.nodes ≤ intMax)
    (h : indexedValue topic.bytes t b = ok (c, b')) : Paid c.nodes 0 b b' := by
  have hash (h : (do
      let nodes ← subInt b.nodes 1
      ok (.data topic.bytes, { b with nodes }) : Outcome (AnyObject × Budget)) = ok (c, b')) : Paid c.nodes 0 b b' := by
    simp only [bind_eq_ok, subInt_eq_ok, ok.injEq, Prod.mk.injEq] at h
    obtain ⟨nodes, ⟨_, rfl⟩, rfl, rfl⟩ := h
    constructor
    · simp only [AnyObject.nodes]
      omega
    · exact (Nat.zero_add _).le
  have word (h : decodeValue topic.bytes t 0 0 32 0 b = ok (c, b')) : Paid c.nodes 0 b b' := by
    obtain ⟨hn, hp⟩ := (decodeValue_paid hb h).1
    constructor <;> omega
  cases t with
  | array | fixedArray | tuple | string | dynamicBytes => exact hash h
  | uint | int | fixed | ufixed | address | function | bool | bytes => exact word h

theorem decodeIndexed_paid {topics : List Data} {signatureCount index : ℕ} {inputs : List EventInput}
    {values : List AnyObject} {b b' : Budget} (hb : b.nodes ≤ intMax)
    (h : decodeIndexed topics signatureCount inputs index b = ok (values, b')) : Paid (nodesOf values) 0 b b' := by
  induction inputs generalizing index values b with
  | nil =>
    cases h
    constructor <;> simp [nodesOf]
  | cons input inputs ih =>
    simp only [decodeIndexed, bind_eq_ok, afford_eq_ok, exists_const, Prod.exists, addInt_eq_ok, element_eq_ok,
      ok.injEq, Prod.mk.injEq] at h
    obtain ⟨_, l, b1, hl, position, _, topic, _, c, b2, hc, index', _, values', b3, h, rfl, rfl⟩ := h
    have hn1 := (Budget.layout_eq_ok hl).2.2.1
    have hpaid := indexedValue_paid (by omega) hc
    have hn2 := hpaid.1
    have hrest := ih (by omega) h
    simpa [nodesOf] using (Paid.of_layout hl).trans (hpaid.trans hrest)

theorem logValues_paid {keccak256 : List UInt8 → List UInt8} {event : Event} {eventLog : EventLog}
    {indexedValues nonIndexedValues : List AnyObject}
    (h : logValues keccak256 event eventLog = ok (indexedValues, nonIndexedValues)) :
    nodesOf (arranged event.inputs indexedValues nonIndexedValues) ≤ Budget.full.nodes ∧
      payloads (nonIndexedTypes event) nonIndexedValues ≤ Budget.full.payloadBytes ∧
      octetsOf nonIndexedValues ≤ payloads (nonIndexedTypes event) nonIndexedValues + 32 * nodesOf nonIndexedValues := by
  have hcounts := logValues_length h
  simp only [logValues, bind_eq_ok, ensure_eq_ok, afford_eq_ok, exists_const, Prod.exists, ok.injEq, Prod.mk.injEq] at h
  obtain ⟨expected, _, _, _, b, hb, _, is, b1, hindexed, ns, b2, hothers, rfl, rfl⟩ := h
  have hfull : b.nodes ≤ intMax := by
    rw [inputLayouts_nodes hb]
    decide
  have hlayouts := inputLayouts_paid hb
  have hpaid := decodeIndexed_paid hfull hindexed
  have hn := (decodeIndexed_eq_ok hfull hindexed).2
  obtain ⟨hrest, hoctets⟩ := decodeTuple_paid (by omega) hothers
  have hall := hlayouts.trans (hpaid.trans hrest)
  rw [(arranges_arranged hcounts.1 hcounts.2).nodes]
  refine ⟨?_, ?_, hoctets⟩
  · have := hall.1
    omega
  · have := hall.2
    omega

theorem decode_bounded {types : List ParameterType} {data : Data} {legacy : Bool} {values : List AnyObject}
    (h : decode types data legacy = ok values) :
    nodesOf values ≤ 1000000 ∧ payloads types values ≤ 64 * 1024 * 1024 ∧
      octetsOf values ≤ 64 * 1024 * 1024 + 32 * nodesOf values := by
  unfold decode at h
  dsimp only at h
  split at h
  · rename_i value hlegacy
    cases h
    split at hlegacy
    · rename_i type
      split at hlegacy
      · obtain ⟨hnodes, hoctets, hpayload⟩ := decodeLegacyMetadata_eq_some hlegacy
        simp only [nodesOf, payloads, octetsOf]
        omega
      · cases hlegacy
    · cases hlegacy
  · simp only [bind_eq_ok, Prod.exists, ok.injEq] at h
    obtain ⟨cs, b, h, rfl⟩ := h
    obtain ⟨⟨hn, hp⟩, hoctets⟩ := decodeTuple_paid (by decide) h
    have hfull : Budget.full.nodes = 1000000 ∧ Budget.full.payloadBytes = 64 * 1024 * 1024 := ⟨rfl, rfl⟩
    omega

theorem decodeSignleType_bounded {type : ParameterType} {data : Data} {pointer : UInt64} {legacy : Bool}
    {minimumTail : Option UInt64} {value : AnyObject} {bytesConsumed : ℕ}
    (h : decodeSignleType type data pointer legacy minimumTail = ok (value, bytesConsumed)) :
    value.nodes ≤ 1000000 ∧ payload type value ≤ 64 * 1024 * 1024 ∧
      value.octets ≤ 64 * 1024 * 1024 + 32 * value.nodes := by
  simp only [decodeSignleType, bind_eq_ok, Prod.exists] at h
  obtain ⟨l, b, hl, _, _, _, _, _, _, head, _, headSize, _, floor, _, h⟩ := h
  obtain ⟨_, _, hn, hp⟩ := Budget.layout_eq_ok hl
  have hfull : Budget.full.nodes = 1000000 ∧ Budget.full.payloadBytes = 64 * 1024 * 1024 := ⟨rfl, rfl⟩
  split at h
  · rename_i legacyValue hlegacy
    cases h
    split at hlegacy
    · obtain ⟨hnodes, hoctets, hpayload⟩ := decodeLegacyMetadata_eq_some hlegacy
      omega
    · cases hlegacy
  · simp only [bind_eq_ok, Prod.exists, ok.injEq, Prod.mk.injEq] at h
    obtain ⟨c, b1, h, rfl, rfl⟩ := h
    have hb : b.nodes ≤ intMax := by
      rw [hn]
      decide
    obtain ⟨⟨hnodes, hpayload⟩, hoctets⟩ := decodeValue_paid hb h
    omega

theorem decoding_bounded (keccak256 : List UInt8 → List UInt8) :
    (∀ types data legacy values, decode types data legacy = ok values →
      nodesOf values ≤ 1000000 ∧ payloads types values ≤ 64 * 1024 * 1024 ∧
        octetsOf values ≤ 64 * 1024 * 1024 + 32 * nodesOf values) ∧
    (∀ type data pointer legacy minimumTail value bytesConsumed,
      decodeSignleType type data pointer legacy minimumTail = ok (value, bytesConsumed) →
        value.nodes ≤ 1000000 ∧ payload type value ≤ 64 * 1024 * 1024 ∧
          value.octets ≤ 64 * 1024 * 1024 + 32 * value.nodes) ∧
    ∀ event eventLog content, decodeLog keccak256 event eventLog = ok content →
      ∃ indexedValues nonIndexedValues,
        logValues keccak256 event eventLog = ok (indexedValues, nonIndexedValues) ∧
          content = entries (logNames event) (arranged event.inputs indexedValues nonIndexedValues) 0 (namedLog event) ∧
          nodesOf (arranged event.inputs indexedValues nonIndexedValues) ≤ 1000000 ∧
          payloads (nonIndexedTypes event) nonIndexedValues ≤ 64 * 1024 * 1024 ∧
          octetsOf nonIndexedValues ≤ 64 * 1024 * 1024 + 32 * nodesOf nonIndexedValues := by
  refine ⟨fun _ _ _ _ => decode_bounded, fun _ _ _ _ _ _ _ => decodeSignleType_bounded, ?_⟩
  intro event eventLog content h
  rw [decodeLog_eq] at h
  simp only [bind_eq_ok, Prod.exists, ok.injEq] at h
  obtain ⟨is, ns, hvalues, rfl⟩ := h
  obtain ⟨hnodes, hpayload, hoctets⟩ := logValues_paid hvalues
  have hfull : Budget.full.payloadBytes = 64 * 1024 * 1024 := rfl
  exact ⟨is, ns, hvalues, rfl, hnodes, hpayload, by omega⟩

end

section

attribute [local instance] plainText

theorem decoding_bounded_sample :
    (∃ values, decode sampleTypes sampleData false = ok values ∧ nodesOf values ≤ 1000000 ∧
      payloads sampleTypes values ≤ 64 * 1024 * 1024 ∧ octetsOf values ≤ 64 * 1024 * 1024 + 32 * nodesOf values) ∧
    (∃ value bytesConsumed, decodeSignleType (.uint 8) (wordData 42) 0 false none = ok (value, bytesConsumed) ∧
      value.nodes ≤ 1000000 ∧ payload (.uint 8) value ≤ 64 * 1024 * 1024 ∧
        value.octets ≤ 64 * 1024 * 1024 + 32 * value.nodes) ∧
    ∃ indexedValues nonIndexedValues,
      logValues knownHash sampleEvent sampleLog = ok (indexedValues, nonIndexedValues) ∧
        nodesOf (arranged sampleEvent.inputs indexedValues nonIndexedValues) ≤ 1000000 ∧
        payloads (nonIndexedTypes sampleEvent) nonIndexedValues ≤ 64 * 1024 * 1024 := by
  obtain ⟨hdecode, hsingle, hlog⟩ := decoding_bounded knownHash
  obtain ⟨values, hvalues⟩ : ∃ values, (decode sampleTypes sampleData false).toOption = some values :=
    Option.isSome_iff_exists.mp (by decide +kernel)
  obtain ⟨⟨value, bytesConsumed⟩, hvalue⟩ :
      ∃ r, (decodeSignleType (.uint 8) (wordData 42) 0 false none).toOption = some r :=
    Option.isSome_iff_exists.mp (by decide +kernel)
  obtain ⟨content, hcontent⟩ : ∃ content, (decodeLog knownHash sampleEvent sampleLog).toOption = some content :=
    Option.isSome_iff_exists.mp (by decide +kernel)
  rw [toOption_eq_some] at hvalues hvalue hcontent
  obtain ⟨is, ns, h, _, hnodes, hpayload, _⟩ := hlog sampleEvent sampleLog content hcontent
  exact ⟨⟨values, hvalues, hdecode _ _ _ _ hvalues⟩, ⟨value, bytesConsumed, hvalue, hsingle _ _ _ _ _ _ _ hvalue⟩,
    is, ns, h, hnodes, hpayload⟩

end

section

variable [Graphemes]

def longTypes : List ParameterType := [.dynamicBytes, .bytes 32]

def longTrees (bs : List UInt8) : List WordTree := [.payload bs, .word (wordOf 0)]

theorem decode_long {bs : List UInt8} (hlen : bs.length ≤ 64 * 1024 * 1024) {d : Data}
    (hd : d.bytes = wordOf 64 ++ wordOf 0 ++ wordOf bs.length ++ padded bs) :
    decode longTypes d false = ok [.data bs, .data (wordOf 0)] := by
  have ha : ∀ t ∈ longTypes, Admitted 0 t := by
    intro t ht
    have hvalid : ∀ t ∈ longTypes, t.isValid = true := by decide +kernel
    exact (isValid_iff.mp (hvalid t ht)).1
  have hf : FitsAll (skeletons longTypes) (longTrees bs) := ⟨trivial, wordOf_length 0, trivial⟩
  have hbytes : d.bytes = assemble (components (skeletons longTypes) (longTrees bs)) := by
    rw [hd]
    simp [longTypes, longTrees, skeletons, skeleton, components, isStatic, wire, assemble, headLength, heads, tails,
      List.append_assoc]
  have hv : valuesOf longTypes (longTrees bs) = some [.data bs, .data (wordOf 0)] := by
    have hword : decodeWord (.bytes 32) (wordOf 0) = ok (.data (wordOf 0)) := by
      have hdrop : (wordOf 0).drop 32 = [] := by simp
      have htake : (wordOf 0).take 32 = wordOf 0 := List.take_of_length_le (by simp)
      rw [decodeWord, toInt_of_le (by decide), ok_bind]
      simp [hdrop, htake]
    simp [longTypes, longTrees, valuesOf, hword, valueOf, payloadValue, toOption]
  have hcost : Budget.ofType (typeSizes longTypes) + decodingWorks longTypes (longTrees bs) ≤ Budget.full := by
    simp [longTypes, longTrees, typeSizes, typeSize, works, work, visit, Budget.le_iff, Budget.full]
    omega
  rw [decode_strict, decodeTuple_assemble ha hf hbytes hv (by decide), spend_of_le _ hcost]
  rfl

end

theorem octetsOf_pair (bs cs : List UInt8) : octetsOf [.data bs, .data cs] = bs.length + cs.length := by
  simp [octetsOf, AnyObject.octets]

def longBytes : List UInt8 := List.replicate (64 * 1024 * 1024) 0

theorem longBytes_length : longBytes.length = 64 * 1024 * 1024 := List.length_replicate

theorem longData_count_le :
    (wordOf 64 ++ wordOf 0 ++ wordOf (64 * 1024 * 1024) ++ padded longBytes).length ≤ intMax := by
  have hpad := padding_lt longBytes.length
  simp only [List.length_append, wordOf_length, padded_length, longBytes_length, intMax] at hpad ⊢
  omega

def longData : Data where
  bytes := wordOf 64 ++ wordOf 0 ++ wordOf (64 * 1024 * 1024) ++ padded longBytes
  count_le := longData_count_le

theorem longData_bytes : longData.bytes = wordOf 64 ++ wordOf 0 ++ wordOf longBytes.length ++ padded longBytes := by
  rw [longBytes_length, longData]

section

attribute [local instance] plainText

theorem fixed_bytes_exceed :
    decode longTypes longData false = ok [.data longBytes, .data (wordOf 0)] ∧
      ¬ octetsOf [.data longBytes, .data (wordOf 0)] ≤ 64 * 1024 * 1024 := by
  constructor
  · have hle : longBytes.length ≤ 64 * 1024 * 1024 := longBytes_length.le
    exact decode_long hle longData_bytes
  · rw [octetsOf_pair, longBytes_length, wordOf_length]
    omega

end

end TronlinkCore.Abi
