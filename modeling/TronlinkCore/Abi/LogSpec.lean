import TronlinkCore.Abi.Entries
import TronlinkCore.Abi.Safety
import TronlinkCore.Abi.RoundTrip
import TronlinkCore.Abi.TypeNaming

/-!
What `decodeLog` returns: the values of the two streams, put back in the order
of the inputs.
-/

namespace TronlinkCore.Abi

open Outcome MachineInt HeadTail ParameterType

def arranged {α : Type} : List EventInput → List α → List α → List α
  | [], _, _ => []
  | input :: inputs, indexed, nonIndexed =>
    if input.indexed then
      match indexed with
      | [] => []
      | value :: indexed => value :: arranged inputs indexed nonIndexed
    else
      match nonIndexed with
      | [] => []
      | value :: nonIndexed => value :: arranged inputs indexed nonIndexed

theorem arranged_of_indexed {α : Type} {input : EventInput} (h : input.indexed = true) (inputs : List EventInput)
    (value : α) (indexed nonIndexed : List α) :
    arranged (input :: inputs) (value :: indexed) nonIndexed = value :: arranged inputs indexed nonIndexed := by
  simp [arranged, h]

theorem arranged_of_nonIndexed {α : Type} {input : EventInput} (h : input.indexed = false)
    (inputs : List EventInput) (value : α) (indexed nonIndexed : List α) :
    arranged (input :: inputs) indexed (value :: nonIndexed) = value :: arranged inputs indexed nonIndexed := by
  simp [arranged, h]

theorem logContent_eq {indexedValues nonIndexedValues : List AnyObject} (inputs : List EventInput)
    {index i j : ℕ} (content : Content) (hcount : index + inputs.length ≤ intMax) (hi : i ≤ index) (hj : j ≤ index)
    (hindexed : i + (inputs.filter (·.indexed)).length = indexedValues.length)
    (hnonIndexed : j + (inputs.filter fun input => !input.indexed).length = nonIndexedValues.length) :
    logContent indexedValues nonIndexedValues inputs index i j content =
      ok (entries (inputs.map (·.name)) (arranged inputs (indexedValues.drop i) (nonIndexedValues.drop j)) index
        content) := by
  induction inputs generalizing index i j content with
  | nil => rfl
  | cons input inputs ih =>
    rw [List.length_cons] at hcount
    rw [logContent, List.map_cons]
    cases hb : input.indexed with
    | true =>
      simp only [List.filter_cons, hb, Bool.not_true, Bool.false_eq_true, ↓reduceIte, List.length_cons] at hindexed hnonIndexed
      have hlt : i < indexedValues.length := by omega
      simp only [↓reduceIte]
      rw [element_eq_ok.mpr (List.getElem?_eq_getElem hlt), ok_bind, addInt_of_le (by omega), ok_bind,
        addInt_of_le (by omega), ok_bind, addInt_of_le (by omega), ok_bind, List.drop_eq_getElem_cons hlt, arranged_of_indexed hb]
      exact ih _ (by omega) (by omega) (by omega) (by omega) hnonIndexed
    | false =>
      simp only [List.filter_cons, hb, Bool.not_false, Bool.false_eq_true, ↓reduceIte, List.length_cons] at hindexed hnonIndexed
      have hlt : j < nonIndexedValues.length := by omega
      simp only [Bool.false_eq_true, ↓reduceIte]
      rw [element_eq_ok.mpr (List.getElem?_eq_getElem hlt), ok_bind, addInt_of_le (by omega), ok_bind,
        addInt_of_le (by omega), ok_bind, addInt_of_le (by omega), ok_bind, List.drop_eq_getElem_cons hlt, arranged_of_nonIndexed hb]
      exact ih _ (by omega) (by omega) (by omega) hindexed (by omega)

def logNames (event : Event) : List Text := event.inputs.map (·.name)

def namedLog (event : Event) : Content :=
  Function.update (fun _ => none) "name".toList (some (.string event.name))

def nonIndexedTypes (event : Event) : List ParameterType :=
  (event.inputs.filter fun input => !input.indexed).map (·.type)

section

variable [Graphemes]

def logValues (keccak256 : List UInt8 → List UInt8) (event : Event) (eventLog : EventLog) :
    Outcome (List AnyObject × List AnyObject) := do
  let indexedInputs := event.inputs.filter (·.indexed)
  let signatureCount := if event.anonymous then 0 else 1
  let logs := eventLog.topics
  let expected ← addInt indexedInputs.length signatureCount
  ensure (logs.length = expected ∧ logs.all fun topic => topic.bytes.length = 32)
  afford (event.inputs.length ≤ Budget.full.nodes)
  let budget ← inputLayouts event.inputs .full
  ensure (event.anonymous ∨ logs.head?.map (·.bytes) = some (event.topic keccak256))
  let (indexedValues, budget) ← decodeIndexed logs signatureCount indexedInputs 0 budget
  let (nonIndexedValues, _) ←
    decodeTuple (decodeValue eventLog.data.bytes) eventLog.data.bytes (nonIndexedTypes event) 0 0 budget
  ok (indexedValues, nonIndexedValues)

theorem logValues_length {keccak256 : List UInt8 → List UInt8} {event : Event} {eventLog : EventLog}
    {indexedValues nonIndexedValues : List AnyObject}
    (h : logValues keccak256 event eventLog = ok (indexedValues, nonIndexedValues)) :
    (event.inputs.filter (·.indexed)).length = indexedValues.length ∧
      (event.inputs.filter fun input => !input.indexed).length = nonIndexedValues.length := by
  simp only [logValues, bind_eq_ok, ensure_eq_ok, afford_eq_ok, exists_const, Prod.exists, ok.injEq, Prod.mk.injEq] at h
  obtain ⟨expected, _, _, _, b, hb, _, is, b1, hindexed, ns, b2, hothers, rfl, rfl⟩ := h
  have hfull : b.nodes ≤ intMax := by
    rw [inputLayouts_nodes hb]
    decide
  have hlength := decodeTuple_length hothers
  rw [nonIndexedTypes, List.length_map] at hlength
  exact ⟨(decodeIndexed_eq_ok hfull hindexed).1.symm, hlength.symm⟩

theorem decodeLog_eq (keccak256 : List UInt8 → List UInt8) (event : Event) (eventLog : EventLog) :
    decodeLog keccak256 event eventLog = (do
      let (indexedValues, nonIndexedValues) ← logValues keccak256 event eventLog
      ok (entries (logNames event) (arranged event.inputs indexedValues nonIndexedValues) 0 (namedLog event))) := by
  have hinputs := event.inputs_count
  unfold decodeLog logValues
  simp only [bind_assoc]
  apply bind_congr_ok
  intro expected _
  apply bind_congr_ok
  intro _ _
  apply bind_congr_ok
  intro _ _
  apply bind_congr_ok
  intro b hb
  apply bind_congr_ok
  intro _ _
  apply bind_congr_ok
  rintro ⟨indexedValues, b1⟩ hindexed
  have hb1 : b.nodes ≤ intMax := by
    rw [inputLayouts_nodes hb]
    decide
  have hlen := (decodeIndexed_eq_ok hb1 hindexed).1
  apply bind_congr_ok
  rintro ⟨nonIndexedValues, b2⟩ hothers
  have hothers := decodeTuple_length hothers
  rw [List.length_map] at hothers
  dsimp only
  exact logContent_eq _ _ (by omega) (Nat.le_refl 0) (Nat.le_refl 0) (by omega) (by omega)

def topicValue (t : ParameterType) (topic : List UInt8) : Option AnyObject :=
  match t with
  | .array _ _ | .fixedArray _ _ | .tuple _ | .string | .dynamicBytes => some (.data topic)
  | t => valueOf t (.word topic)

/-- The layout of an indexed word is computed twice. -/
def topicWork (t : ParameterType) : Budget :=
  match t with
  | .array _ _ | .fixedArray _ _ | .tuple _ | .string | .dynamicBytes => visit t
  | t => Budget.ofType t.typeSize + visit t

theorem topicValue_of_isWord {t : ParameterType} (h : t.IsWord) (topic : List UInt8) :
    topicValue t topic = valueOf t (.word topic) := by
  cases t <;> first | rfl | exact h.elim

theorem topicValue_of_not_isWord {t : ParameterType} (h : ¬ t.IsWord) (topic : List UInt8) :
    topicValue t topic = some (.data topic) := by
  cases t <;> first | rfl | exact absurd trivial h

theorem topic_spend {t : ParameterType} {topic : Data} (ha : Admitted 0 t) (hlen : topic.bytes.length = 32)
    {c : AnyObject} (hv : topicValue t topic.bytes = some c) {b : Budget} (hb : b.nodes ≤ intMax) :
    (do afford (0 < b.nodes); let (_, b) ← Budget.layout t 0 b; indexedValue topic.bytes t b) =
      spend (topicWork t) c b := by
  have hash (hc : c = .data topic.bytes) (hw : topicWork t = visit t)
      (hi : ∀ b, indexedValue topic.bytes t b = (do
        let nodes ← subInt b.nodes 1
        ok (.data topic.bytes, { b with nodes }))) :
      (do afford (0 < b.nodes); let (_, b) ← Budget.layout t 0 b; indexedValue topic.bytes t b) =
        spend (topicWork t) c b := by
    rw [hw, show visit t = visit t + 0 by simp [Budget.ext_iff], hc]
    apply visit_spend ha
    intro hn
    dsimp only
    rw [hi, Budget.sub_nodes, Budget.ofType_nodes, Nat.sub_zero, subInt_of_le hn, ok_bind, sub_visit, spend_zero]
  have word (ht : t.IsWord) (hw : topicWork t = Budget.ofType t.typeSize + visit t)
      (hi : ∀ b, indexedValue topic.bytes t b = decodeValue topic.bytes t 0 0 32 0 b) :
      (do afford (0 < b.nodes); let (_, b) ← Budget.layout t 0 b; indexedValue topic.bytes t b) =
        spend (topicWork t) c b := by
    rw [topicValue_of_isWord ht] at hv
    have hhead : 0 + headSize t.skeleton ≤ topic.bytes.length := by
      rw [skeleton_of_isWord ht, hlen]
      exact Nat.le_refl 32
    have hat : Holds topic.bytes t.skeleton 0 0 32 (.word topic.bytes) := by
      rw [skeleton_of_isWord ht]
      exact ⟨hlen, [], [], by simp, rfl⟩
    rw [hw]
    apply afford_spend
    · intro hc
      exact (Budget.le_iff.mp hc).1
    · intro _
      rw [Budget.layout_spend ha]
      apply spend_bind
      intro _
      dsimp only
      rw [hi, decodeValue, decodeLevels_spend (Nat.le_add_left maxDepth 0) ha topic.count_le 0 0 32 _ c _
        (Nat.le_trans (Nat.sub_le _ _) hb) (Nat.le_refl 0) hhead hat hv, decodingWork, work_of_isWord ht]
  cases t with
  | array | fixedArray | tuple | string | dynamicBytes => exact hash (by cases hv; rfl) rfl fun _ => rfl
  | uint | int | fixed | ufixed | address | function | bool | bytes => exact word trivial rfl fun _ => rfl

inductive TopicValues : List EventInput → List Data → List AnyObject → Prop where
  | nil : TopicValues [] [] []
  | cons {input : EventInput} {inputs : List EventInput} {topic : Data} {topics : List Data} {value : AnyObject}
      {values : List AnyObject} (admitted : Admitted 0 input.type) (count : topic.bytes.length = 32)
      (head : topicValue input.type topic.bytes = some value) (tail : TopicValues inputs topics values) :
      TopicValues (input :: inputs) (topic :: topics) (value :: values)

theorem decodeIndexed_cons {input : EventInput} {inputs : List EventInput} {topics : List Data} {topic : Data}
    {signatureCount index : ℕ} {b : Budget} (hposition : index + signatureCount ≤ intMax) (hindex : index + 1 ≤ intMax)
    (htopic : element topics (index + signatureCount) = ok topic) :
    decodeIndexed topics signatureCount (input :: inputs) index b = (do
      let (value, budget) ← (do
        afford (0 < b.nodes)
        let (_, b) ← Budget.layout input.type 0 b
        indexedValue topic.bytes input.type b)
      let (values, budget) ← decodeIndexed topics signatureCount inputs (index + 1) budget
      ok (value :: values, budget)) := by
  rw [decodeIndexed]
  simp only [bind_assoc, addInt_of_le hposition, htopic, ok_bind, addInt_of_le hindex]

theorem decodeIndexed_spend {inputs : List EventInput} {topics before : List Data} {values : List AnyObject}
    (h : TopicValues inputs topics values) {signatureCount index : ℕ}
    (hbefore : index + signatureCount = before.length) (hmax : (before ++ topics).length ≤ intMax) {b : Budget}
    (hb : b.nodes ≤ intMax) :
    decodeIndexed (before ++ topics) signatureCount inputs index b =
      spend (inputs.map fun input => topicWork input.type).sum values b := by
  induction h generalizing before index b with
  | nil => exact (spend_zero _ b).symm
  | @cons input inputs topic topics value values admitted count head tail ih =>
    have hlen : before.length < (before ++ topic :: topics).length := by simp
    have htopic : element (before ++ topic :: topics) (index + signatureCount) = ok topic := by
      rw [element_eq_ok, hbefore]
      simp
    rw [decodeIndexed_cons (by omega) (by omega) htopic, topic_spend admitted count head hb, List.map_cons, List.sum_cons]
    apply spend_bind
    intro _
    have hnext := ih (show index + 1 + signatureCount = (before ++ [topic]).length by
      rw [List.length_append, List.length_singleton]
      omega) (by simpa using hmax) (Nat.le_trans (Nat.sub_le _ _) hb : (b - topicWork input.type).nodes ≤ intMax)
    rw [List.append_assoc, List.singleton_append] at hnext
    dsimp only
    rw [hnext, show (inputs.map fun input => topicWork input.type).sum =
      (inputs.map fun input => topicWork input.type).sum + 0 by simp [Budget.ext_iff]]
    apply spend_bind
    intro _
    exact (spend_zero _ _).symm

end

end TronlinkCore.Abi
