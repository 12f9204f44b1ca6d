import TronlinkCore.Abi.LogSpec
import TronlinkCore.Abi.JsonTypes

namespace TronlinkCore.Abi

open Outcome MachineInt HeadTail ParameterType

theorem getElem?_filter_countP {α : Type} {p : α → Bool} {xs : List α} {i : ℕ} {x : α} (h : xs[i]? = some x)
    (hp : p x = true) : (xs.filter p)[(xs.take i).countP p]? = some x := by
  induction xs generalizing i with
  | nil => simp at h
  | cons y ys ih =>
    cases i with
    | zero =>
      obtain rfl : y = x := by simpa using h
      simp [hp]
    | succ i =>
      have ih := ih (by simpa using h)
      cases hy : p y with
      | true => simpa [hy] using ih
      | false => simpa [hy] using ih

inductive Arranges {α : Type} : List EventInput → List α → List α → List α → Prop where
  | nil : Arranges [] [] [] []
  | indexed {input : EventInput} {inputs : List EventInput} {indexed nonIndexed values : List α} (value : α)
      (hb : input.indexed = true) (h : Arranges inputs indexed nonIndexed values) :
      Arranges (input :: inputs) (value :: indexed) nonIndexed (value :: values)
  | nonIndexed {input : EventInput} {inputs : List EventInput} {indexed nonIndexed values : List α} (value : α)
      (hb : input.indexed = false) (h : Arranges inputs indexed nonIndexed values) :
      Arranges (input :: inputs) indexed (value :: nonIndexed) (value :: values)

theorem arranges_arranged {α : Type} {inputs : List EventInput} {indexed nonIndexed : List α}
    (hindexed : (inputs.filter (·.indexed)).length = indexed.length)
    (hnonIndexed : (inputs.filter fun input => !input.indexed).length = nonIndexed.length) :
    Arranges inputs indexed nonIndexed (arranged inputs indexed nonIndexed) := by
  induction inputs generalizing indexed nonIndexed with
  | nil =>
    obtain rfl : indexed = [] := List.eq_nil_of_length_eq_zero hindexed.symm
    obtain rfl : nonIndexed = [] := List.eq_nil_of_length_eq_zero hnonIndexed.symm
    exact .nil
  | cons first inputs ih =>
    cases hb : first.indexed with
    | true =>
      simp only [List.filter_cons, hb, Bool.not_true, Bool.false_eq_true, ↓reduceIte, List.length_cons] at hindexed hnonIndexed
      cases indexed with
      | nil => simp at hindexed
      | cons value indexed =>
        rw [arranged_of_indexed hb]
        exact .indexed value hb (ih (by simpa using hindexed) hnonIndexed)
    | false =>
      simp only [List.filter_cons, hb, Bool.not_false, Bool.false_eq_true, ↓reduceIte, List.length_cons] at hindexed hnonIndexed
      cases nonIndexed with
      | nil => simp at hnonIndexed
      | cons value nonIndexed =>
        rw [arranged_of_nonIndexed hb]
        exact .nonIndexed value hb (ih hindexed (by simpa using hnonIndexed))

theorem Arranges.getElem? {α : Type} {inputs : List EventInput} {indexed nonIndexed values : List α}
    (h : Arranges inputs indexed nonIndexed values) {i : ℕ} {input : EventInput} (hi : inputs[i]? = some input) :
    values[i]? = if input.indexed then indexed[(inputs.take i).countP (·.indexed)]?
      else nonIndexed[(inputs.take i).countP fun input => !input.indexed]? := by
  induction h generalizing i with
  | nil => simp at hi
  | @indexed first inputs indexed nonIndexed values value hb h ih =>
    cases i with
    | zero =>
      obtain rfl : first = input := by simpa using hi
      simp [hb]
    | succ i =>
      have htail := ih (i := i) (by simpa using hi)
      simpa [hb] using htail
  | @nonIndexed first inputs indexed nonIndexed values value hb h ih =>
    cases i with
    | zero =>
      obtain rfl : first = input := by simpa using hi
      simp [hb]
    | succ i =>
      have htail := ih (i := i) (by simpa using hi)
      simpa [hb] using htail

theorem Arranges.length_eq {α : Type} {inputs : List EventInput} {indexed nonIndexed values : List α}
    (h : Arranges inputs indexed nonIndexed values) : values.length = inputs.length := by
  induction h with
  | nil => rfl
  | indexed value hb h ih => rw [List.length_cons, List.length_cons, ih]
  | nonIndexed value hb h ih => rw [List.length_cons, List.length_cons, ih]

theorem inputLayouts_eq {inputs : List EventInput} (ha : ∀ input ∈ inputs, Admitted 0 input.type) (b : Budget) :
    inputLayouts inputs b =
      if Budget.ofType (ParameterType.typeSizes (inputs.map (·.type))) ≤ b then
        ok (b - Budget.ofType (ParameterType.typeSizes (inputs.map (·.type)))) else exhausted := by
  induction inputs generalizing b with
  | nil =>
    have hcost : Budget.ofType (ParameterType.typeSizes (([] : List EventInput).map (·.type))) = 0 := rfl
    rw [hcost, if_pos (Ledger.zero_le b), Ledger.sub_zero]
    rfl
  | cons input inputs ih =>
    have hcost : Budget.ofType (ParameterType.typeSizes ((input :: inputs).map (·.type))) =
        Budget.ofType input.type.typeSize + Budget.ofType (ParameterType.typeSizes (inputs.map (·.type))) := rfl
    rw [inputLayouts, Budget.layout_spend (ha input (by simp)), hcost]
    simp only [Ledger.add_le_iff, Ledger.sub_add]
    by_cases h : Budget.ofType input.type.typeSize ≤ b
    · simp only [h, true_and]
      rw [spend_of_le _ h, ok_bind]
      exact ih (fun i hi => ha i (List.mem_cons_of_mem _ hi)) _
    · rw [spend, if_neg h, if_neg fun hc => h hc.1]
      rfl

theorem length_le_topicWorks (inputs : List EventInput) :
    inputs.length ≤ ((inputs.map fun input => topicWork input.type).sum).nodes := by
  induction inputs with
  | nil => exact Nat.le_refl 0
  | cons input inputs ih =>
    have hpos : 1 ≤ (topicWork input.type).nodes := by cases input.type <;> simp [topicWork, visit]
    rw [List.map_cons, List.sum_cons, Budget.add_nodes, List.length_cons]
    omega

theorem arguments_fst {event : Event} {values : List AnyObject} (h : values.length = event.inputs.length)
    (p : EventInput → Bool) :
    (((event.inputs.zip values).filter fun a => p a.1).map (·.1)) = event.inputs.filter p := by
  have hzip : (event.inputs.zip values).map Prod.fst = event.inputs := List.map_fst_zip (by omega)
  conv_rhs => rw [← hzip]
  rw [List.filter_map]
  rfl

theorem arguments_countP {event : Event} {values : List AnyObject} (h : values.length = event.inputs.length)
    (p : EventInput → Bool) (i : ℕ) :
    ((event.inputs.zip values).take i).countP (fun a => p a.1) = (event.inputs.take i).countP p := by
  have hzip : (event.inputs.zip values).map Prod.fst = event.inputs := List.map_fst_zip (by omega)
  conv_rhs => rw [← hzip, ← List.map_take]
  rw [List.countP_map]
  rfl

section

variable [Graphemes]

/-- An indexed word is its own topic, any other indexed argument is hashed. -/
inductive IsTopic : EventInput × AnyObject → Data → Prop where
  | word {input : EventInput} {value : AnyObject} {topic : Data} (type : input.type.IsWord)
      (encoded : encode [input.type] [value] = ok topic) : IsTopic (input, value) topic
  | hash {input : EventInput} {value : AnyObject} {topic : Data} (type : ¬ input.type.IsWord)
      (count : topic.bytes.length = 32) : IsTopic (input, value) topic

def indexedArguments (event : Event) (values : List AnyObject) : List (EventInput × AnyObject) :=
  (event.inputs.zip values).filter (·.1.indexed)

def nonIndexedArguments (event : Event) (values : List AnyObject) : List (EventInput × AnyObject) :=
  (event.inputs.zip values).filter (!·.1.indexed)

def logCost (event : Event) (values : List AnyObject) : Option Budget :=
  (decodingCost (nonIndexedTypes event) ((nonIndexedArguments event values).map (·.2))).map fun cost =>
    Budget.ofType (ParameterType.typeSizes (event.inputs.map (·.type))) +
      (((event.inputs.filter (·.indexed)).map fun input => topicWork input.type).sum + cost)

theorem logCost_of_decodingCost {event : Event} {values : List AnyObject} {cost : Budget}
    (h : decodingCost (nonIndexedTypes event) ((nonIndexedArguments event values).map (·.2)) = some cost) :
    logCost event values = some (Budget.ofType (ParameterType.typeSizes (event.inputs.map (·.type))) +
      (((event.inputs.filter (·.indexed)).map fun input => topicWork input.type).sum + cost)) := by
  rw [logCost, h, Option.map_some]

/-- The log of an event with these arguments, where `topics` are those of the indexed arguments. -/
structure Emitted (keccak256 : List UInt8 → List UInt8) (event : Event) (values : List AnyObject)
    (topics : List Data) (eventLog : EventLog) : Prop where
  values_count : values.length = event.inputs.length
  indexed : List.Forall₂ IsTopic (indexedArguments event values) topics
  signed : if event.anonymous then eventLog.topics = topics
    else ∃ signature : Data, signature.bytes = event.topic keccak256 ∧ eventLog.topics = signature :: topics
  data : encode ((nonIndexedArguments event values).map (·.1.type)) ((nonIndexedArguments event values).map (·.2)) =
    ok eventLog.data

/-- What a log shows for an argument: the topic of the indexed input at its place, or the canonical value. -/
inductive Shown (event : Event) (topics : List Data) (i : ℕ) (input : EventInput) (value : AnyObject) :
    AnyObject → Prop where
  | hash {topic : Data} (indexed : input.indexed = true) (type : ¬ input.type.IsWord)
      (place : topics[(event.inputs.take i).countP (·.indexed)]? = some topic) :
      Shown event topics i input value (.data topic.bytes)
  | value {c : AnyObject} (reference : input.indexed = true → input.type.IsWord)
      (canonical : canonical input.type value = some c) : Shown event topics i input value c

theorem word_of_encode {t : ParameterType} (ht : t.IsWord) {value : AnyObject} {topic : Data}
    (h : encode [t] [value] = ok topic) :
    Admitted 0 t ∧ topic.bytes.length = 32 ∧
      ∃ c, canonical t value = some c ∧ topicValue t topic.bytes = some c := by
  obtain ⟨ha, xs, hx, hf, hd⟩ := encode_eq_ok h
  have ha := ha t (by simp)
  obtain ⟨v, vs, x, xs', hvs, rfl, htree, hxs⟩ := treesOf_cons_eq_some.mp hx
  obtain ⟨rfl, rfl⟩ : value = v ∧ [] = vs := by simpa using hvs
  obtain rfl : [] = xs' := by simpa [treesOf] using hxs
  obtain ⟨hfit, c, hc, hv⟩ := canonical_of_treeOf ha.wellSized htree
  rw [treeOf_of_isWord ht, Option.map_eq_some_iff] at htree
  obtain ⟨w, _, rfl⟩ := htree
  rw [skeleton_of_isWord ht] at hfit
  have hbytes : topic.bytes = w := by
    rw [hd, skeletons, skeletons, skeleton_of_isWord ht]
    simp [components, assemble, wire, isStatic, heads, tails]
  refine ⟨ha, by rw [hbytes]; exact hfit, c, hc, ?_⟩
  rw [topicValue_of_isWord ht, hbytes, hv]

theorem topicValues_of_topics {event : Event} (hvalid : ∀ input ∈ event.inputs, input.type.isValid = true)
    {arguments : List (EventInput × AnyObject)} {topics : List Data} (h : List.Forall₂ IsTopic arguments topics)
    (hmem : ∀ argument ∈ arguments, argument.1 ∈ event.inputs) :
    ∃ cs, TopicValues (arguments.map (·.1)) topics cs ∧
      ∀ (k : ℕ) (input : EventInput) (value : AnyObject), arguments[k]? = some (input, value) →
        ∃ topic c, topics[k]? = some topic ∧ cs[k]? = some c ∧
        (input.type.IsWord ∧ canonical input.type value = some c ∨ ¬ input.type.IsWord ∧ c = .data topic.bytes) := by
  induction h with
  | nil => exact ⟨[], .nil, by simp⟩
  | @cons argument topic arguments topics hhead _ ih =>
    obtain ⟨cs, htail, hall⟩ := ih fun a ha => hmem a (List.mem_cons_of_mem _ ha)
    obtain ⟨c, ha, hlen, hvalue, hc⟩ : ∃ c, Admitted 0 argument.1.type ∧ topic.bytes.length = 32 ∧
        topicValue argument.1.type topic.bytes = some c ∧
          (argument.1.type.IsWord ∧ canonical argument.1.type argument.2 = some c ∨
            ¬ argument.1.type.IsWord ∧ c = .data topic.bytes) := by
      cases hhead with
      | word type encoded =>
        obtain ⟨ha, hlen, c, hc, hvalue⟩ := word_of_encode type encoded
        exact ⟨c, ha, hlen, hvalue, .inl ⟨type, hc⟩⟩
      | hash type count =>
        have ha := (isValid_iff.mp (hvalid _ (hmem _ List.mem_cons_self))).1
        exact ⟨.data topic.bytes, ha, count, topicValue_of_not_isWord type _, .inr ⟨type, rfl⟩⟩
    refine ⟨c :: cs, .cons ha hlen hvalue htail, ?_⟩
    intro k input value hk
    cases k with
    | zero =>
      obtain rfl : argument = (input, value) := by simpa using hk
      exact ⟨topic, c, rfl, rfl, hc⟩
    | succ k => exact hall k input value (by simpa using hk)

theorem canonicals_getElem? {ts : List ParameterType} {vs cs : List AnyObject} (h : canonicals ts vs = some cs)
    {k : ℕ} {t : ParameterType} {v : AnyObject} (ht : ts[k]? = some t) (hv : vs[k]? = some v) :
    ∃ c, canonical t v = some c ∧ cs[k]? = some c := by
  induction ts generalizing vs cs k with
  | nil => simp at ht
  | cons t' ts ih =>
    cases vs with
    | nil => simp at hv
    | cons v' vs =>
      simp only [canonicals, Option.bind_eq_bind, Option.bind_eq_some_iff, Option.some.injEq] at h
      obtain ⟨c', hc', cs', hcs', rfl⟩ := h
      cases k with
      | zero =>
        obtain rfl : t' = t := by simpa using ht
        obtain rfl : v' = v := by simpa using hv
        exact ⟨c', hc', rfl⟩
      | succ k => exact ih hcs' (by simpa using ht) (by simpa using hv)

theorem Emitted.signature {keccak256 : List UInt8 → List UInt8} {event : Event} {values : List AnyObject}
    {topics : List Data} {eventLog : EventLog} (hkeccak : ∀ message, (keccak256 message).length = 32)
    (h : Emitted keccak256 event values topics eventLog) :
    ∃ before, eventLog.topics = before ++ topics ∧ before.length = (if event.anonymous then 0 else 1) ∧
      (∀ topic ∈ before, topic.bytes.length = 32) ∧
      (event.anonymous ∨ eventLog.topics.head?.map (·.bytes) = some (event.topic keccak256)) := by
  have hsigned := h.signed
  cases ha : event.anonymous with
  | true =>
    rw [ha, if_pos rfl] at hsigned
    exact ⟨[], by simpa using hsigned, rfl, by simp, .inl rfl⟩
  | false =>
    rw [ha, if_neg (by simp)] at hsigned
    obtain ⟨signature, hbytes, htopics⟩ := hsigned
    refine ⟨[signature], htopics, rfl, ?_, .inr ?_⟩
    · intro topic htopic
      obtain rfl : topic = signature := by simpa using htopic
      rw [hbytes, Event.topic, hkeccak]
    · rw [htopics, List.head?_cons, Option.map_some, hbytes]

theorem TopicValues.length {inputs : List EventInput} {topics : List Data} {values : List AnyObject}
    (h : TopicValues inputs topics values) : inputs.length = topics.length ∧ inputs.length = values.length := by
  induction h with
  | nil => exact ⟨rfl, rfl⟩
  | cons _ _ _ _ ih =>
    simp only [List.length_cons]
    omega

theorem TopicValues.count {inputs : List EventInput} {topics : List Data} {values : List AnyObject}
    (h : TopicValues inputs topics values) : ∀ topic ∈ topics, topic.bytes.length = 32 := by
  induction h with
  | nil => simp
  | cons _ count _ _ ih =>
    intro topic ht
    rcases List.mem_cons.mp ht with rfl | ht
    · exact count
    · exact ih topic ht

theorem logValues_of_emitted {keccak256 : List UInt8 → List UInt8} {event : Event} {values : List AnyObject}
    {topics : List Data} {eventLog : EventLog} (hkeccak : ∀ message, (keccak256 message).length = 32)
    (hvalid : ∀ input ∈ event.inputs, input.type.isValid = true)
    (h : Emitted keccak256 event values topics eventLog) {indexedValues nonIndexedValues : List AnyObject}
    (hindexed : TopicValues (event.inputs.filter (·.indexed)) topics indexedValues) {cost : Budget}
    (hcost : (nonIndexedTypes event).length ≤ cost.nodes)
    (hothers : ∀ b : Budget, b.nodes ≤ intMax →
      decodeTuple (decodeValue eventLog.data.bytes) eventLog.data.bytes (nonIndexedTypes event) 0 0 b =
        spend cost nonIndexedValues b) :
    logValues keccak256 event eventLog =
      if Budget.ofType (ParameterType.typeSizes (event.inputs.map (·.type))) +
          (((event.inputs.filter (·.indexed)).map fun input => topicWork input.type).sum + cost) ≤ Budget.full then
        ok (indexedValues, nonIndexedValues) else exhausted := by
  have hinputs := event.inputs_count
  have hfilter := List.length_filter_le (·.indexed) event.inputs
  have hcount : (if event.anonymous then 0 else 1) ≤ 1 := by split <;> omega
  obtain ⟨before, htopics, hbefore, hsignature, hsigned⟩ := h.signature hkeccak
  have hlen := hindexed.length.1
  have hall : eventLog.topics.all (fun topic => topic.bytes.length = 32) = true := by
    rw [htopics, List.all_append, Bool.and_eq_true, List.all_eq_true, List.all_eq_true]
    exact ⟨fun topic ht => decide_eq_true (hsignature topic ht), fun topic ht => decide_eq_true (hindexed.count topic ht)⟩
  have hlogs : eventLog.topics.length = (event.inputs.filter (·.indexed)).length + (if event.anonymous then 0 else 1) := by
    rw [htopics, List.length_append]
    omega
  unfold logValues
  dsimp only
  rw [addInt_of_le (by omega), ok_bind, ensure_true ⟨hlogs, hall⟩, ok_bind]
  simp only [Ledger.add_le_iff]
  by_cases hnodes : event.inputs.length ≤ Budget.full.nodes
  · rw [afford_true hnodes, ok_bind, inputLayouts_eq fun input hi => (isValid_iff.mp (hvalid input hi)).1]
    by_cases htypes : Budget.ofType (ParameterType.typeSizes (event.inputs.map (·.type))) ≤ Budget.full
    · have hb : (Budget.full - Budget.ofType (ParameterType.typeSizes (event.inputs.map (·.type)))).nodes ≤ intMax :=
        Nat.le_trans (Nat.sub_le _ _) (by decide)
      rw [if_pos htypes, ok_bind, ensure_true hsigned, ok_bind, htopics, decodeIndexed_spend hindexed (by omega)
        (by rw [← htopics]; omega) hb]
      by_cases hwork : ((event.inputs.filter (·.indexed)).map fun input => topicWork input.type).sum ≤
          Budget.full - Budget.ofType (ParameterType.typeSizes (event.inputs.map (·.type)))
      · rw [spend_of_le _ hwork, ok_bind]
        dsimp only
        rw [hothers _ (Nat.le_trans (Nat.sub_le _ _) hb), spend]
        simp only [htypes, hwork, true_and]
        split <;> rfl
      · rw [spend, if_neg hwork]
        exact (if_neg fun h => hwork h.2.1).symm
    · rw [if_neg htypes]
      exact (if_neg fun h => htypes h.1).symm
  · rw [afford, if_neg hnodes]
    symm
    apply if_neg
    -- A visit of every input is in the cost.
    rintro ⟨_, hwork, hrest⟩
    have htopicWorks := length_le_topicWorks (event.inputs.filter (·.indexed))
    have hsplit := event.inputs.length_eq_countP_add_countP (·.indexed)
    rw [List.countP_eq_length_filter, List.countP_eq_length_filter] at hsplit
    rw [nonIndexedTypes, List.length_map] at hcost
    have hw := (Budget.le_iff.mp hwork).1
    have hr := (Budget.le_iff.mp hrest).1
    simp only [Budget.sub_nodes, Budget.ofType_nodes] at hw hr
    simp only [decide_not, Bool.decide_eq_true] at hsplit
    omega

theorem not_decodeLog {keccak256 : List UInt8 → List UInt8} {event : Event} {eventLog : EventLog}
    (h : eventLog.topics.length ≠
        (event.inputs.filter (·.indexed)).length + (if event.anonymous then 0 else 1) ∨
      (∃ topic ∈ eventLog.topics, topic.bytes.length ≠ 32) ∨
      (event.anonymous = false ∧ eventLog.topics.head?.map (·.bytes) ≠ some (event.topic keccak256))) :
    Rejected (decodeLog keccak256 event eventLog) := by
  apply rejected_of (decodeLog_ne_trap keccak256 event eventLog)
  intro content hok
  rw [decodeLog_eq] at hok
  simp only [logValues, bind_eq_ok, addInt_eq_ok, ensure_eq_ok, afford_eq_ok, exists_const] at hok
  obtain ⟨_, ⟨expected, ⟨_, rfl⟩, ⟨hcount, hall⟩, _, b, _, hsigned, _⟩, _⟩ := hok
  rcases h with h | ⟨topic, ht, h⟩ | ⟨ha, h⟩
  · exact h hcount
  · exact h (of_decide_eq_true (List.all_eq_true.mp hall topic ht))
  · rcases hsigned with hs | hs
    · rw [ha] at hs
      cases hs
    · exact h hs

theorem decodeLog_of_emitted (keccak256 : List UInt8 → List UInt8)
    (hkeccak : ∀ message, (keccak256 message).length = 32) (event : Event)
    (hnames : ∀ input ∈ event.inputs, input.name = [])
    (hvalid : ∀ input ∈ event.inputs, input.type.isValid = true) :
    (∀ values topics eventLog, Emitted keccak256 event values topics eventLog →
      ∃ cost content, logCost event values = some cost ∧
        decodeLog keccak256 event eventLog = (if cost ≤ Budget.full then ok content else exhausted) ∧
        ∀ (i : ℕ) (input : EventInput) (value : AnyObject), event.inputs[i]? = some input → values[i]? = some value →
          ∃ c, Shown event topics i input value c ∧ content (position i) = some c) ∧
    ∀ eventLog : EventLog,
      (eventLog.topics.length ≠ (event.inputs.filter (·.indexed)).length + (if event.anonymous then 0 else 1) ∨
        (∃ topic ∈ eventLog.topics, topic.bytes.length ≠ 32) ∨
        (event.anonymous = false ∧ eventLog.topics.head?.map (·.bytes) ≠ some (event.topic keccak256))) →
      Rejected (decodeLog keccak256 event eventLog) := by
  refine ⟨?_, fun eventLog => not_decodeLog⟩
  intro values topics eventLog h
  have hfst := arguments_fst h.values_count
  obtain ⟨is, hindexed, hshown⟩ := topicValues_of_topics hvalid h.indexed (by
    intro argument ha
    have hmem := List.mem_map_of_mem (f := (·.1)) ha
    rw [indexedArguments, hfst] at hmem
    exact List.mem_of_mem_filter hmem)
  rw [indexedArguments, hfst] at hindexed
  obtain ⟨ns, cost, hns, hlen, hcost, hothers⟩ := decodeTuple_encode h.data
  have htypes : (nonIndexedArguments event values).map (·.1.type) = nonIndexedTypes event := by
    rw [nonIndexedTypes, ← hfst, List.map_map]
    rfl
  rw [htypes] at hothers hns hlen hcost
  have hlogs := logValues_of_emitted hkeccak hvalid h hindexed (decodingCost_nodes hcost) hothers
  refine ⟨_, entries (logNames event) (arranged event.inputs is ns) 0 (namedLog event),
    logCost_of_decodingCost hcost, ?_, ?_⟩
  · rw [decodeLog_eq, hlogs]
    split <;> rfl
  · intro i input value hi hv
    have hcounts := hindexed.length.2
    have hothersCount : (event.inputs.filter fun input => !input.indexed).length = ns.length := by
      rw [hlen, nonIndexedTypes, List.length_map]
    have hnone : ∀ j, i < j → (logNames event)[j]? ≠ some (position i) := by
      intro j _ hj
      rw [logNames, List.getElem?_map, Option.map_eq_some_iff] at hj
      obtain ⟨other, hother, hname⟩ := hj
      rw [hnames other (List.mem_of_getElem? hother)] at hname
      exact Nat.toDigits_ne_nil hname.symm
    have harranges := arranges_arranged hcounts hothersCount
    have hlength := harranges.length_eq
    have hlt : i < event.inputs.length := (List.getElem?_eq_some_iff.mp hi).1
    rw [entries_of_unnamed (by rw [logNames, List.length_map, hlength]) (by omega) hnone,
      harranges.getElem? hi]
    have hpair : (event.inputs.zip values)[i]? = some (input, value) := by
      rw [List.getElem?_zip_eq_some]
      exact ⟨hi, hv⟩
    cases hb : input.indexed with
    | true =>
      have hplace := getElem?_filter_countP (p := fun a => a.1.indexed) hpair hb
      rw [arguments_countP h.values_count] at hplace
      obtain ⟨topic, c, htopic, hc, hcase⟩ := hshown _ _ _ hplace
      refine ⟨c, ?_, by rw [if_pos rfl, hc]⟩
      rcases hcase with ⟨_, hcanonical⟩ | ⟨hword, rfl⟩
      · exact .value (fun _ => by assumption) hcanonical
      · exact .hash hb hword htopic
    | false =>
      have hplace := getElem?_filter_countP (p := fun a => !a.1.indexed) hpair (by rw [hb]; rfl)
      rw [arguments_countP h.values_count fun input => !input.indexed] at hplace
      have ht := congrArg (Option.map (·.1.type)) hplace
      have hw := congrArg (Option.map (·.2)) hplace
      rw [← List.getElem?_map, Option.map_some] at ht hw
      obtain ⟨c, hcanonical, hc⟩ := canonicals_getElem? hns (by rw [← htypes]; exact ht) hw
      exact ⟨c, .value (by rw [hb]; exact fun h => absurd h (by decide)) hcanonical, by rw [if_neg (by decide), hc]⟩

end

-- `event Note(uint8 indexed, bool, string indexed)`
def sampleEvent : Event where
  name := "Note".toList
  inputs := [⟨[], .uint 8, true⟩, ⟨[], .bool, false⟩, ⟨[], .string, true⟩]
  anonymous := false
  inputs_count := by decide

def wordData (n : ℕ) : Data := ⟨wordOf n, by rw [wordOf_length]; decide⟩

def sampleArguments : List AnyObject := [.number 7, .number 1, .string "hello".toList]

def sampleLog : EventLog where
  data := wordData 1
  topics := [⟨sampleEvent.topic knownHash, by rw [Event.topic, knownHash_length]; decide⟩, wordData 7, wordData 5]

section

attribute [local instance] plainText

theorem sampleLog_emitted :
    Emitted knownHash sampleEvent sampleArguments [wordData 7, wordData 5] sampleLog where
  values_count := rfl
  indexed := .cons (.word trivial (by decide +kernel)) (.cons (.hash (fun h => h) (wordOf_length 5)) .nil)
  signed := ⟨_, rfl, rfl⟩
  data := by decide +kernel

theorem decodeLog_of_emitted_sample :
    (∃ content, decodeLog knownHash sampleEvent sampleLog = ok content ∧
      ∀ (i : ℕ) (input : EventInput) (value : AnyObject), sampleEvent.inputs[i]? = some input →
        sampleArguments[i]? = some value →
        ∃ c, Shown sampleEvent [wordData 7, wordData 5] i input value c ∧ content (position i) = some c) ∧
    Rejected (decodeLog knownHash sampleEvent ⟨wordData 1, []⟩) := by
  have hvalid : ∀ input ∈ sampleEvent.inputs, input.type.isValid = true := by decide +kernel
  have h := decodeLog_of_emitted knownHash knownHash_length sampleEvent (by decide) hvalid
  obtain ⟨cost, content, hcost, hdecode, hshown⟩ := h.1 sampleArguments _ sampleLog sampleLog_emitted
  have hfull : cost ≤ Budget.full := Budget.le_full_of_all hcost (by decide +kernel)
  rw [if_pos hfull] at hdecode
  exact ⟨⟨content, hdecode, hshown⟩, h.2 _ (.inl (by decide))⟩

end

end TronlinkCore.Abi
