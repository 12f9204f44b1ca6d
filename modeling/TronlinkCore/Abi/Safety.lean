import TronlinkCore.Abi.DecodingSpec
import TronlinkCore.Abi.Logs

/-!
No input makes the decoder trap: every difference it takes has been compared
before, every slice lies in the data, and no call is nested beyond 64 types.
-/

namespace TronlinkCore.Abi

open Outcome MachineInt HeadTail ParameterType

section

variable {data : List UInt8} (hd : data.length ≤ intMax)

include hd

theorem read_ne_trap (offset count : ℕ) : read data offset count ≠ trap := by
  apply bind_ne_trap (ensure_ne_trap _)
  intro _ ho
  have ho := ensure_eq_ok.mp ho
  rw [subInt_of_le ho, ok_bind]
  apply bind_ne_trap (ensure_ne_trap _)
  intro _ hc
  have hc := ensure_eq_ok.mp hc
  rw [addInt_of_le (by omega), ok_bind, check_true (by omega), ok_bind]
  simp

theorem boundedWord_ne_trap (offset : ℕ) {maximum : ℕ} (hm : maximum ≤ intMax) :
    boundedWord data offset maximum ≠ trap := by
  apply bind_ne_trap (read_ne_trap hd offset 32)
  intro word _
  apply bind_ne_trap (ensure_ne_trap _)
  intro _ hle
  have hle := ensure_eq_ok.mp hle
  rw [toInt_of_le (by omega)]
  simp

theorem valueStart_ne_trap (static : Bool) {containerBase head : ℕ} (minimumTail : ℕ)
    (hbase : containerBase ≤ data.length) : valueStart data static containerBase head minimumTail ≠ trap := by
  unfold valueStart
  cases static with
  | true => simp
  | false =>
    rw [if_neg (by simp), subInt_of_le hbase, ok_bind]
    apply bind_ne_trap (boundedWord_ne_trap hd head (by omega))
    intro offset hoff
    have hle := ((boundedWord_eq_ok hd (by omega)).mp hoff).2
    apply bind_ne_trap (ensure_ne_trap _)
    intro _ _
    rw [addInt_of_le (by omega)]
    simp

theorem decodePayload_ne_trap (t : ParameterType) (start : ℕ) (b : Budget) : decodePayload data t start b ≠ trap := by
  apply bind_ne_trap (ensure_ne_trap _)
  intro _ hs
  have hs := ensure_eq_ok.mp hs
  rw [subInt_of_le hs, ok_bind]
  apply bind_ne_trap (ensure_ne_trap _)
  intro _ h32
  have h32 := ensure_eq_ok.mp h32
  rw [subInt_of_le h32, ok_bind]
  apply bind_ne_trap (boundedWord_ne_trap hd start (by omega))
  intro length hlen
  have hlen := ((boundedWord_eq_ok hd (by omega)).mp hlen).2
  dsimp only
  rw [subInt_of_le hlen, ok_bind]
  apply bind_ne_trap (ensure_ne_trap _)
  intro _ _
  apply bind_ne_trap (afford_ne_trap _)
  intro _ hp
  have hp := afford_eq_ok.mp hp
  have hzero : zeroPadding data start length ((32 - length % 32) % 32) ≠ trap := by
    unfold zeroPadding
    split
    · rw [addInt_of_le (by omega), ok_bind, addInt_of_le (by omega), ok_bind]
      apply bind_ne_trap (read_ne_trap hd _ _)
      intro _ _
      exact ensure_ne_trap _
    · simp
  apply bind_ne_trap hzero
  intro _ _
  rw [subInt_of_le hp, ok_bind, addInt_of_le (by omega), ok_bind]
  apply bind_ne_trap (read_ne_trap hd _ _)
  intro _ _
  apply bind_ne_trap (ofOption_ne_trap _)
  simp

end

theorem tupleHeads_ne_trap {dataCount base depth size : ℕ} (ts : List ParameterType) (b : Budget)
    (hd : dataCount ≤ intMax) (hs : base + size ≤ dataCount) :
    tupleHeads dataCount base depth ts size b ≠ trap := by
  induction ts generalizing size b with
  | nil => simp [tupleHeads]
  | cons t ts ih =>
    apply bind_ne_trap (Budget.layout_ne_trap t depth b)
    rintro ⟨l, b'⟩ hl
    dsimp only
    rw [subInt_of_le (by omega), ok_bind, subInt_of_le (by omega), ok_bind]
    apply bind_ne_trap (ensure_ne_trap _)
    intro _ hroom
    have hroom := ensure_eq_ok.mp hroom
    rw [toInt_of_le (by omega), ok_bind, addInt_of_le (by omega), ok_bind]
    exact ih b' (by omega)

section

variable [Graphemes] {data : List UInt8} {decodeValue : ValueDecoder} {depth : ℕ}

def Safe (decodeValue : ValueDecoder) (depth : ℕ) : Prop :=
  ∀ t base head floor b, Admitted depth t → b.nodes ≤ intMax → decodeValue t base head floor depth b ≠ trap

theorem decodeMembers_ne_trap (hdec : FindsTree data decodeValue depth) (hsafe : Safe decodeValue depth)
    (hd : data.length ≤ intMax) (ts : List ParameterType) {base floor head : ℕ} {b : Budget}
    (hb : b.nodes ≤ intMax) (hle : head + headSizes (skeletons ts) ≤ data.length) :
    decodeMembers decodeValue base floor depth ts head b ≠ trap := by
  induction ts generalizing head b with
  | nil => simp [decodeMembers]
  | cons t ts ih =>
    simp only [skeletons, headSizes] at hle
    apply bind_ne_trap (Budget.layout_ne_trap t depth b)
    rintro ⟨l, b1⟩ hl
    obtain ⟨ha, rfl, hn1, _⟩ := Budget.layout_eq_ok hl
    apply bind_ne_trap (hsafe t base head floor b1 ha (by omega))
    rintro ⟨c, b2⟩ hc
    obtain ⟨hn2, _⟩ := hdec t base head floor b1 c b2 (by omega) hc
    dsimp only
    rw [shape_headSize, toInt_of_le (by omega), ok_bind, addInt_of_le (by omega), ok_bind]
    apply bind_ne_trap (ih (by omega) (by omega))
    simp

theorem decodeTuple_ne_trap (hdec : FindsTree data decodeValue depth) (hsafe : Safe decodeValue depth)
    (hd : data.length ≤ intMax) (ts : List ParameterType) (base : ℕ) {b : Budget} (hb : b.nodes ≤ intMax) :
    decodeTuple decodeValue data ts base depth b ≠ trap := by
  apply bind_ne_trap (ensure_ne_trap _)
  intro _ hbase
  have hbase := (ensure_eq_ok.mp hbase).2
  apply bind_ne_trap (afford_ne_trap _)
  intro _ _
  apply bind_ne_trap (tupleHeads_ne_trap ts b hd (by omega))
  rintro ⟨size, b1⟩ hs
  obtain ⟨hn, _, rfl, hle⟩ := tupleHeads_eq_ok (by omega) hs
  exact decodeMembers_ne_trap hdec hsafe hd ts (by omega) (by omega)

theorem decodeElements_ne_trap (hdec : FindsTree data decodeValue depth) (hsafe : Safe decodeValue depth)
    (hd : data.length ≤ intMax) {t : ParameterType} (ha : Admitted depth t) (count : ℕ) {base floor head : ℕ}
    {b : Budget} (hb : b.nodes ≤ intMax) (hle : head + count * headSize t.skeleton ≤ data.length) :
    decodeElements decodeValue t (headSize t.skeleton) base floor depth count head b ≠ trap := by
  induction count generalizing head b with
  | zero => simp [decodeElements]
  | succ count ih =>
    rw [Nat.succ_mul] at hle
    apply bind_ne_trap (hsafe t base head floor b ha hb)
    rintro ⟨c, b1⟩ hc
    obtain ⟨hn, _⟩ := hdec t base head floor b c b1 hb hc
    dsimp only
    rw [toInt_of_le (by omega), ok_bind, addInt_of_le (by omega), ok_bind]
    apply bind_ne_trap (ih (by omega) (by omega))
    simp

theorem decodeArray_ne_trap (hdec : FindsTree data decodeValue depth) (hsafe : Safe decodeValue depth)
    (hd : data.length ≤ intMax) (t : ParameterType) (count base : ℕ) {b : Budget} (hb : b.nodes ≤ intMax) :
    decodeArray decodeValue data t count base depth b ≠ trap := by
  apply bind_ne_trap (ensure_ne_trap _)
  intro _ hbase
  have hbase := (ensure_eq_ok.mp hbase).2
  apply bind_ne_trap (afford_ne_trap _)
  intro _ hcount
  have hcount := afford_eq_ok.mp hcount
  apply bind_ne_trap (Budget.layout_ne_trap t depth b)
  rintro ⟨l, b1⟩ hl
  obtain ⟨ha, rfl, hn1, _⟩ := Budget.layout_eq_ok hl
  dsimp only
  rw [subInt_of_le hbase, ok_bind]
  apply bind_ne_trap (ensure_ne_trap _)
  intro _ hroom
  obtain ⟨hover, hroom⟩ := ensure_eq_ok.mp hroom
  have hmul := multiplied_le_iff.mp ⟨hover, by omega⟩
  rw [multiplied_fst hmul] at hroom ⊢
  rw [toInt_of_le (by omega), ok_bind, toInt_of_le hmul, ok_bind]
  apply decodeElements_ne_trap hdec hsafe hd ha count (by omega)
  rw [shape_headSize, Nat.mul_comm] at hroom
  omega

theorem arrayValue_ne_trap (hdec : FindsTree data decodeValue depth) (hsafe : Safe decodeValue depth)
    (hd : data.length ≤ intMax) (t : ParameterType) (count base : ℕ) {b : Budget} (hb : b.nodes ≤ intMax) :
    (do let (values, budget) ← decodeArray decodeValue data t count base depth b
        ok (.array values, budget) : Outcome (AnyObject × Budget)) ≠ trap := by
  apply bind_ne_trap (decodeArray_ne_trap hdec hsafe hd t count base hb)
  simp

theorem decodeOf_ne_trap (hdec : FindsTree data decodeValue (depth + 1)) (hsafe : Safe decodeValue (depth + 1))
    (hd : data.length ≤ intMax) {t : ParameterType} (ha : Admitted depth t) (start : ℕ) {b : Budget}
    (hb : b.nodes ≤ intMax) : decodeOf decodeValue data depth t start b ≠ trap := by
  have hm : maxDepth ≤ intMax := by decide
  have hpos := t.height_pos
  have hh := ha.height_le
  have below : addInt depth 1 = ok (depth + 1) := addInt_of_le (by omega)
  have word (hv : t.ValidScalar) : (do
      let word ← read data start 32
      let value ← decodeWord t word
      ok (value, b) : Outcome (AnyObject × Budget)) ≠ trap := by
    apply bind_ne_trap (read_ne_trap hd start 32)
    intro w _
    apply bind_ne_trap (decodeWord_ne_trap hv)
    simp
  have scalar (ht : t.IsWord) : t.ValidScalar := (scalar_facts (.inl ht)).2.2.mp ha.wellSized
  cases t with
  | string => exact decodePayload_ne_trap hd _ start b
  | dynamicBytes => exact decodePayload_ne_trap hd _ start b
  | array s n =>
    rw [decodeOf]
    split
    · apply bind_ne_trap (ensure_ne_trap _)
      intro _ hs
      have hs := ensure_eq_ok.mp hs
      rw [subInt_of_le hs, ok_bind]
      apply bind_ne_trap (ensure_ne_trap _)
      intro _ h32
      have h32 := ensure_eq_ok.mp h32
      apply bind_ne_trap
      · intro h
        exact boundedWord_ne_trap hd start hb (failAsExhausted_eq_trap.mp h)
      · intro count _
        rw [addInt_of_le (by omega), ok_bind, below, ok_bind]
        exact arrayValue_ne_trap hdec hsafe hd s count (start + 32) hb
    · rw [below, ok_bind]
      exact arrayValue_ne_trap hdec hsafe hd s n.toNat start hb
  | fixedArray s n =>
    rw [decodeOf, below, ok_bind]
    exact arrayValue_ne_trap hdec hsafe hd s n.toNat start hb
  | tuple ts =>
    rw [decodeOf, below, ok_bind]
    apply bind_ne_trap (decodeTuple_ne_trap hdec hsafe hd ts start hb)
    simp
  | uint | int | fixed | ufixed | address | function | bool | bytes =>
    exact word (scalar trivial)

theorem decodeLevels_ne_trap (hd : data.length ≤ intMax) {levels depth : ℕ} (hl : maxDepth ≤ depth + levels) :
    Safe (decodeLevels data levels) depth := by
  induction levels generalizing depth with
  | zero =>
    intro t base head floor b ha
    have hpos := t.height_pos
    have hh := ha.height_le
    omega
  | succ levels ih =>
    intro t base head floor b ha hb
    rw [decodeLevels]
    apply bind_ne_trap (ensure_ne_trap _)
    intro _ _
    apply bind_ne_trap (afford_ne_trap _)
    intro _ hn
    have hn := afford_eq_ok.mp hn
    apply bind_ne_trap (ensure_ne_trap _)
    intro _ hrange
    obtain ⟨hbase, hhead⟩ := ensure_eq_ok.mp hrange
    apply bind_ne_trap (Budget.layout_ne_trap t depth b)
    rintro ⟨l, b1⟩ hlay
    obtain ⟨_, rfl, hn1, _⟩ := Budget.layout_eq_ok hlay
    dsimp only
    rw [subInt_of_le hhead, ok_bind]
    apply bind_ne_trap (ensure_ne_trap _)
    intro _ _
    rw [subInt_of_le (by omega), ok_bind]
    apply bind_ne_trap (valueStart_ne_trap hd _ floor (by omega))
    intro start _
    apply decodeOf_ne_trap (decodeLevels_eq_ok hd levels (depth + 1)) (ih (by omega)) hd ha start
    dsimp only
    omega

end

theorem tailFloor_ne_trap (data : Data) (pointer : UInt64) (t : ParameterType) (minimumTail : Option UInt64)
    (hle : pointer.toNat + headSize t.skeleton ≤ data.bytes.length) :
    tailFloor data pointer t.shape minimumTail pointer.toNat (headSize t.skeleton) ≠ trap := by
  have hd := data.count_le
  have hmax := intMax_lt
  unfold tailFloor
  cases minimumTail with
  | none =>
    dsimp only
    rw [addInt_of_le (by omega)]
    simp
  | some minimumTail =>
    dsimp only
    rw [shape_headSize, addUInt64_of_lt (by omega), ok_bind]
    apply bind_ne_trap (ensure_ne_trap _)
    intro _ hfloor
    have hfloor := (ensure_eq_ok.mp hfloor).2
    rw [toInt_of_le (by omega)]
    simp

theorem inputLayouts_ne_trap (inputs : List EventInput) (b : Budget) : inputLayouts inputs b ≠ trap := by
  induction inputs generalizing b with
  | nil => simp [inputLayouts]
  | cons input inputs ih =>
    apply bind_ne_trap (Budget.layout_ne_trap input.type 0 b)
    rintro ⟨l, b'⟩ _
    exact ih b'

theorem inputLayouts_nodes {inputs : List EventInput} {b b' : Budget} (h : inputLayouts inputs b = ok b') :
    b'.nodes = b.nodes := by
  induction inputs generalizing b with
  | nil =>
    cases h
    rfl
  | cons input inputs ih =>
    simp only [inputLayouts, bind_eq_ok, Prod.exists] at h
    obtain ⟨l, b1, hl, h⟩ := h
    rw [ih h, (Budget.layout_eq_ok hl).2.2.1]

theorem decodeMembers_length {decode : ValueDecoder} {base floor depth head : ℕ} {ts : List ParameterType}
    {values : List AnyObject} {b b' : Budget}
    (h : decodeMembers decode base floor depth ts head b = ok (values, b')) : values.length = ts.length := by
  induction ts generalizing head values b with
  | nil =>
    cases h
    rfl
  | cons t ts ih =>
    simp only [decodeMembers, bind_eq_ok, Prod.exists, ok.injEq, Prod.mk.injEq] at h
    obtain ⟨l, b1, _, c, b2, _, width, _, head', _, values', b3, h, rfl, rfl⟩ := h
    rw [List.length_cons, List.length_cons, ih h]

theorem decodeTuple_length {decode : ValueDecoder} {data : List UInt8} {base depth : ℕ} {ts : List ParameterType}
    {values : List AnyObject} {b b' : Budget} (h : decodeTuple decode data ts base depth b = ok (values, b')) :
    values.length = ts.length := by
  simp only [decodeTuple, bind_eq_ok, ensure_eq_ok, afford_eq_ok, exists_const, Prod.exists] at h
  obtain ⟨_, _, size, b1, _, h⟩ := h
  exact decodeMembers_length h

section

variable [Graphemes]

theorem decodeValue_safe (data : Data) : Safe (decodeValue data.bytes) 0 :=
  decodeLevels_ne_trap data.count_le (Nat.le_add_left maxDepth 0)

theorem decodeValue_finds (data : Data) : FindsTree data.bytes (decodeValue data.bytes) 0 :=
  decodeLevels_eq_ok data.count_le maxDepth 0

theorem decode_ne_trap (types : List ParameterType) (data : Data) (legacy : Bool) :
    decode types data legacy ≠ trap := by
  unfold decode
  dsimp only
  split
  · simp
  · apply bind_ne_trap
    · exact decodeTuple_ne_trap (decodeValue_finds data) (decodeValue_safe data) data.count_le types 0 (by decide)
    · simp

theorem decodeSignleType_ne_trap (type : ParameterType) (data : Data) (pointer : UInt64) (legacy : Bool)
    (minimumTail : Option UInt64) : decodeSignleType type data pointer legacy minimumTail ≠ trap := by
  have hd := data.count_le
  apply bind_ne_trap (Budget.layout_ne_trap type 0 .full)
  rintro ⟨l, b⟩ hl
  obtain ⟨ha, rfl, hn, _⟩ := Budget.layout_eq_ok hl
  apply bind_ne_trap (ensure_ne_trap _)
  intro _ hp
  have hp := ensure_eq_ok.mp hp
  rw [subInt_of_le hp, ok_bind]
  apply bind_ne_trap (ensure_ne_trap _)
  intro _ hroom
  have hroom := ensure_eq_ok.mp hroom
  dsimp only
  rw [shape_headSize] at hroom ⊢
  rw [toInt_of_le (by omega), ok_bind, toInt_of_le (by omega), ok_bind]
  apply bind_ne_trap (tailFloor_ne_trap data pointer type minimumTail (by omega))
  intro floor _
  split
  · simp
  · apply bind_ne_trap
    · apply decodeValue_safe data type 0 pointer.toNat floor b ha
      rw [hn]
      decide
    · simp

theorem indexedValue_ne_trap (topic : Data) {t : ParameterType} {b : Budget} (ha : Admitted 0 t)
    (hpos : 0 < b.nodes) (hb : b.nodes ≤ intMax) : indexedValue topic.bytes t b ≠ trap := by
  have hash : (do
      let nodes ← subInt b.nodes 1
      ok (.data topic.bytes, { b with nodes }) : Outcome (AnyObject × Budget)) ≠ trap := by
    rw [subInt_of_le hpos]
    simp
  have word := decodeValue_safe topic t 0 0 32 b ha hb
  cases t with
  | array | fixedArray | tuple | string | dynamicBytes => exact hash
  | uint | int | fixed | ufixed | address | function | bool | bytes => exact word

theorem indexedValue_nodes {topic : Data} {t : ParameterType} {b b' : Budget} {c : AnyObject}
    (hb : b.nodes ≤ intMax) (h : indexedValue topic.bytes t b = ok (c, b')) : b'.nodes ≤ b.nodes := by
  have hash (h : (do
      let nodes ← subInt b.nodes 1
      ok (.data topic.bytes, { b with nodes }) : Outcome (AnyObject × Budget)) = ok (c, b')) :
      b'.nodes ≤ b.nodes := by
    simp only [bind_eq_ok, subInt_eq_ok, ok.injEq, Prod.mk.injEq] at h
    obtain ⟨nodes, ⟨_, rfl⟩, _, rfl⟩ := h
    exact Nat.sub_le _ _
  have word (h : decodeValue topic.bytes t 0 0 32 0 b = ok (c, b')) : b'.nodes ≤ b.nodes :=
    (decodeValue_finds topic t 0 0 32 b c b' hb h).1
  cases t with
  | array | fixedArray | tuple | string | dynamicBytes => exact hash h
  | uint | int | fixed | ufixed | address | function | bool | bytes => exact word h

theorem decodeIndexed_ne_trap {topics : List Data} {signatureCount : ℕ} (inputs : List EventInput) {index : ℕ}
    {b : Budget} (hb : b.nodes ≤ intMax) (hcount : topics.length ≤ intMax)
    (hlen : index + signatureCount + inputs.length = topics.length) :
    decodeIndexed topics signatureCount inputs index b ≠ trap := by
  induction inputs generalizing index b with
  | nil => simp [decodeIndexed]
  | cons input inputs ih =>
    rw [List.length_cons] at hlen
    apply bind_ne_trap (afford_ne_trap _)
    intro _ hpos
    have hpos := afford_eq_ok.mp hpos
    apply bind_ne_trap (Budget.layout_ne_trap input.type 0 b)
    rintro ⟨l, b1⟩ hl
    obtain ⟨ha, _, hn1, _⟩ := Budget.layout_eq_ok hl
    dsimp only
    rw [addInt_of_le (by omega), ok_bind]
    apply bind_ne_trap (element_ne_trap (by omega))
    intro topic _
    apply bind_ne_trap (indexedValue_ne_trap topic ha (by omega) (by omega))
    rintro ⟨c, b2⟩ hc
    have hn2 := indexedValue_nodes (by omega) hc
    dsimp only
    rw [addInt_of_le (by omega), ok_bind]
    apply bind_ne_trap (ih (by omega) (by omega))
    simp

theorem decodeIndexed_eq_ok {topics : List Data} {signatureCount index : ℕ} {inputs : List EventInput}
    {values : List AnyObject} {b b' : Budget} (hb : b.nodes ≤ intMax)
    (h : decodeIndexed topics signatureCount inputs index b = ok (values, b')) :
    values.length = inputs.length ∧ b'.nodes ≤ b.nodes := by
  induction inputs generalizing index values b with
  | nil =>
    cases h
    exact ⟨rfl, Nat.le_refl _⟩
  | cons input inputs ih =>
    simp only [decodeIndexed, bind_eq_ok, afford_eq_ok, exists_const, Prod.exists, addInt_eq_ok, element_eq_ok,
      ok.injEq, Prod.mk.injEq] at h
    obtain ⟨_, l, b1, hl, position, _, topic, _, c, b2, hc, index', _, values', b3, h, rfl, rfl⟩ := h
    have hn1 := (Budget.layout_eq_ok hl).2.2.1
    have hn2 := indexedValue_nodes (by omega) hc
    obtain ⟨hlen, hn3⟩ := ih (by omega) h
    exact ⟨by rw [List.length_cons, List.length_cons, hlen], by omega⟩

end

theorem logContent_ne_trap {indexedValues nonIndexedValues : List AnyObject} (inputs : List EventInput)
    {index i j : ℕ} (content : Content) (hcount : index + inputs.length ≤ intMax) (hi : i ≤ index) (hj : j ≤ index)
    (hindexed : i + (inputs.filter (·.indexed)).length = indexedValues.length)
    (hnonIndexed : j + (inputs.filter fun input => !input.indexed).length = nonIndexedValues.length) :
    logContent indexedValues nonIndexedValues inputs index i j content ≠ trap := by
  induction inputs generalizing index i j content with
  | nil => simp [logContent]
  | cons input inputs ih =>
    rw [List.length_cons] at hcount
    rw [logContent]
    cases hb : input.indexed with
    | true =>
      simp only [List.filter_cons, hb, Bool.not_true, Bool.false_eq_true, ↓reduceIte, List.length_cons] at hindexed hnonIndexed
      simp only [↓reduceIte]
      apply bind_ne_trap (element_ne_trap (by omega))
      intro value _
      rw [addInt_of_le (by omega), ok_bind, addInt_of_le (by omega), ok_bind, addInt_of_le (by omega), ok_bind]
      exact ih _ (by omega) (by omega) (by omega) (by omega) hnonIndexed
    | false =>
      simp only [List.filter_cons, hb, Bool.not_false, Bool.false_eq_true, ↓reduceIte, List.length_cons] at hindexed hnonIndexed
      simp only [Bool.false_eq_true, ↓reduceIte]
      apply bind_ne_trap (element_ne_trap (by omega))
      intro value _
      rw [addInt_of_le (by omega), ok_bind, addInt_of_le (by omega), ok_bind, addInt_of_le (by omega), ok_bind]
      exact ih _ (by omega) (by omega) (by omega) hindexed (by omega)

theorem decodeLog_ne_trap [Graphemes] (keccak256 : List UInt8 → List UInt8) (event : Event) (eventLog : EventLog) :
    decodeLog keccak256 event eventLog ≠ trap := by
  have hinputs := event.inputs_count
  have hindexed := List.length_filter_le (·.indexed) event.inputs
  have hcount : (if event.anonymous then 0 else 1) ≤ 1 := by split <;> omega
  unfold decodeLog
  dsimp only
  rw [addInt_of_le (by omega), ok_bind]
  apply bind_ne_trap (ensure_ne_trap _)
  intro _ htopics
  have htopics := (ensure_eq_ok.mp htopics).1
  apply bind_ne_trap (afford_ne_trap _)
  intro _ _
  apply bind_ne_trap (inputLayouts_ne_trap event.inputs .full)
  intro b1 hb1
  have hb1 : b1.nodes ≤ intMax := by
    rw [inputLayouts_nodes hb1]
    decide
  apply bind_ne_trap (ensure_ne_trap _)
  intro _ _
  apply bind_ne_trap (decodeIndexed_ne_trap _ hb1 (by omega) (by omega))
  rintro ⟨indexedValues, b2⟩ hvalues
  obtain ⟨hlen, hb2⟩ := decodeIndexed_eq_ok hb1 hvalues
  dsimp only
  apply bind_ne_trap
  · exact decodeTuple_ne_trap (decodeValue_finds eventLog.data) (decodeValue_safe eventLog.data)
      eventLog.data.count_le _ 0 (by omega)
  · rintro ⟨nonIndexedValues, b3⟩ hothers
    have hothers := decodeTuple_length hothers
    dsimp only
    rw [List.length_map] at hothers
    apply logContent_ne_trap _ _ (by omega) (Nat.le_refl 0) (Nat.le_refl 0)
    · omega
    · omega

theorem decoding_never_traps [Graphemes] (keccak256 : List UInt8 → List UInt8) :
    (∀ types data legacy, decode types data legacy ≠ trap) ∧
      (∀ type data pointer legacy minimumTail, decodeSignleType type data pointer legacy minimumTail ≠ trap) ∧
      ∀ event eventLog, decodeLog keccak256 event eventLog ≠ trap :=
  ⟨decode_ne_trap, decodeSignleType_ne_trap, decodeLog_ne_trap keccak256⟩

end TronlinkCore.Abi
