import TronlinkCore.Abi.JsonTypes
import TronlinkCore.Abi.Emitted

/-!
`ABIv2.Element`: call data are a selector and the arguments, and what is decoded
is a dictionary of the values by position and by name.
-/

namespace TronlinkCore.Abi

open Outcome MachineInt

namespace Element

structure Function where
  name : Option Text
  inputs : List InOut
  outputs : List InOut

structure Constructor where
  inputs : List InOut

structure CustomError where
  name : Text
  inputs : List InOut

def Function.signature (function : Function) : Text :=
  Abi.signature (function.name.getD []) (function.inputs.map (·.type))

def CustomError.signature (error : CustomError) : Text := Abi.signature error.name (error.inputs.map (·.type))

def selectorOf (keccak256 : List UInt8 → List UInt8) (signature : Text) : Outcome (List UInt8) := do
  let hash := keccak256 (Text.utf8 signature)
  check (4 ≤ hash.length)
  ok (hash.take 4)

def Function.methodEncoding (keccak256 : List UInt8 → List UInt8) (function : Function) : Outcome (List UInt8) :=
  selectorOf keccak256 function.signature

def CustomError.methodEncoding (keccak256 : List UInt8 → List UInt8) (error : CustomError) : Outcome (List UInt8) :=
  selectorOf keccak256 error.signature

end Element

inductive Element where
  | function (function : Element.Function)
  | constructor (constructor : Element.Constructor)
  | fallback
  | event (event : Event)
  | receive
  | error (error : Element.CustomError)

namespace Element

section

variable [Graphemes] (keccak256 : List UInt8 → List UInt8)

def encodeParameters (element : Element) (parameters : List AnyObject) : Outcome Data :=
  match element with
  | .constructor c => encode (c.inputs.map (·.type)) parameters
  | .function f => do
    let data ← encode (f.inputs.map (·.type)) parameters
    let methodEncoding ← f.methodEncoding keccak256
    Data.ofBytes (methodEncoding ++ data.bytes)
  | .error e => do
    let data ← encode (e.inputs.map (·.type)) parameters
    let methodEncoding ← e.methodEncoding keccak256
    Data.ofBytes (methodEncoding ++ data.bytes)
  | .receive => if parameters.isEmpty then Data.ofBytes [] else fail
  | .event _ | .fallback => fail

def validParameterTypes : List InOut → ℕ → Outcome Unit
  | [], _ => ok ()
  | parameter :: parameters, nodes => do
    let (_, nodes) ← layout parameter.type 0 nodes
    validParameterTypes parameters nodes

def decodeValues (parameters : List InOut) (data : Data) (allowLegacyBytes32 : Bool) : Outcome Content := do
  let values ← decode (parameters.map (·.type)) data allowLegacyBytes32
  ensure (values.length = parameters.length)
  ok (entries (parameters.map (·.name)) values 0 fun _ => none)

def framed (rawData : Data) : Outcome (Option (List UInt8) × Data) :=
  if rawData.bytes.length % 32 = 0 then ok (none, rawData)
  else if rawData.bytes.length % 32 = 4 then do
    let data ← Data.ofBytes (rawData.bytes.drop 4)
    ok (some (rawData.bytes.take 4), data)
  else fail

def selected (selector : Option (List UInt8)) (methodEncoding : Outcome (List UInt8)) : Outcome Unit :=
  match selector with
  | none => ok ()
  | some selector => do
    let methodEncoding ← methodEncoding
    ensure (selector = methodEncoding)

def decodeInputData (element : Element) (rawData : Data) : Outcome Content := do
  let (selector, data) ← framed rawData
  match element with
  | .constructor c =>
    ensure (selector = none)
    decodeValues c.inputs data false
  | .function f =>
    validParameterTypes f.inputs maxNodes
    selected selector (f.methodEncoding keccak256)
    decodeValues f.inputs data false
  | .error e =>
    validParameterTypes e.inputs maxNodes
    selected selector (e.methodEncoding keccak256)
    decodeValues e.inputs data false
  | .receive => if rawData.bytes.isEmpty then ok fun _ => none else fail
  | .event _ | .fallback => fail

def decodeReturnData (element : Element) (data : Data) (allowLegacyBytes32 : Bool) : Outcome Content :=
  match element with
  | .function f => do
    ensure (data.bytes.length % 32 = 0)
    decodeValues f.outputs data allowLegacyBytes32
  | .error _ => decodeInputData keccak256 element data
  | .constructor _ | .event _ | .fallback | .receive => fail

end

def called : Element → Option (Text × List InOut)
  | .function f => some (f.signature, f.inputs)
  | .error e => some (e.signature, e.inputs)
  | _ => none

section

variable [Graphemes] {keccak256 : List UInt8 → List UInt8} {element : Element} {signature : Text}
  {inputs : List InOut}

theorem encodeParameters_of_called (h : element.called = some (signature, inputs)) (parameters : List AnyObject) :
    encodeParameters keccak256 element parameters = (do
      let data ← encode (inputs.map (·.type)) parameters
      let methodEncoding ← selectorOf keccak256 signature
      Data.ofBytes (methodEncoding ++ data.bytes)) := by
  cases element <;> cases h <;> rfl

theorem decodeInputData_of_called (h : element.called = some (signature, inputs)) (rawData : Data) :
    decodeInputData keccak256 element rawData = (do
      let (selector, data) ← framed rawData
      validParameterTypes inputs maxNodes
      selected selector (selectorOf keccak256 signature)
      decodeValues inputs data false) := by
  cases element <;> cases h <;> rfl

end

theorem selectorOf_eq {keccak256 : List UInt8 → List UInt8} (hkeccak : ∀ message, (keccak256 message).length = 32)
    (signature : Text) : selectorOf keccak256 signature = ok ((keccak256 (Text.utf8 signature)).take 4) := by
  rw [selectorOf, check_true (by rw [hkeccak]; decide)]
  rfl

theorem validParameterTypes_eq {parameters : List InOut} (ha : ∀ p ∈ parameters, Admitted 0 p.type) (nodes : ℕ) :
    validParameterTypes parameters nodes =
      if ParameterType.typeSizes (parameters.map (·.type)) ≤ nodes then ok () else exhausted := by
  induction parameters generalizing nodes with
  | nil => exact (if_pos (Nat.zero_le nodes)).symm
  | cons parameter parameters ih =>
    rw [validParameterTypes, layout_spend (ha parameter (by simp)), List.map_cons, ParameterType.typeSizes]
    by_cases h : parameter.type.typeSize ≤ nodes
    · have hrest : ParameterType.typeSizes (parameters.map (·.type)) ≤ nodes - parameter.type.typeSize ↔
          parameter.type.typeSize + ParameterType.typeSizes (parameters.map (·.type)) ≤ nodes := by omega
      rw [spend_of_le _ h, ok_bind]
      dsimp only
      rw [ih fun p hp => ha p (List.mem_cons_of_mem _ hp)]
      simp only [hrest]
    · rw [spend, if_neg h, if_neg (by omega)]
      rfl

theorem validParameterTypes_ne_trap (parameters : List InOut) (nodes : ℕ) :
    validParameterTypes parameters nodes ≠ trap := by
  induction parameters generalizing nodes with
  | nil => simp [validParameterTypes]
  | cons parameter parameters ih =>
    apply bind_ne_trap (layout_ne_trap parameter.type 0 nodes)
    rintro ⟨l, rest⟩ _
    exact ih rest

theorem framed_zero {d : Data} (h : d.bytes.length % 32 = 0) : framed d = ok (none, d) := if_pos h

theorem framed_four {d args : Data} (h : d.bytes.length % 32 = 4) (hargs : args.bytes = d.bytes.drop 4) :
    framed d = ok (some (d.bytes.take 4), args) := by
  rw [framed, if_neg (by omega), if_pos h, Data.ofBytes_eq_ok.mpr hargs]
  rfl

def Positional (content : Content) (values : List AnyObject) : Prop :=
  Faithful content values ∧ ∀ key, (∀ i < values.length, key ≠ position i) → content key = none

theorem entries_positional {names : List Text} {values : List AnyObject} (hlen : names.length = values.length)
    (hnames : ∀ name ∈ names, name = []) : Positional (entries names values 0 fun _ => none) values := by
  constructor
  · apply (entries_faithful_iff hlen).mpr
    intro i j _ hlast
    have hempty := hnames _ (List.mem_of_getElem? hlast.1)
    exact absurd hempty Nat.toDigits_ne_nil
  · intro key hkey
    apply entries_of_unwritten
    rintro j hj (rfl | ⟨hname, hne⟩)
    · exact hkey j hj (by rw [Nat.zero_add])
    · exact hne (hnames key (List.mem_of_getElem? hname))

theorem decodeInputData_encodeParameters [Graphemes] (keccak256 : List UInt8 → List UInt8)
    (hkeccak : ∀ message, (keccak256 message).length = 32) {element : Element} {signature : Text}
    {inputs : List InOut} (helement : element.called = some (signature, inputs))
    (hnames : ∀ parameter ∈ inputs, parameter.name = []) :
    (∀ values c, encodeParameters keccak256 element values = ok c →
      c.bytes.length % 32 = 4 ∧ c.bytes.take 4 = (keccak256 (Text.utf8 signature)).take 4 ∧
      ∃ cs cost content, canonicals (inputs.map (·.type)) values = some cs ∧ cs.length = inputs.length ∧
        decodingCost (inputs.map (·.type)) values = some cost ∧ Positional content cs ∧
        decodeInputData keccak256 element c = (if cost ≤ Budget.full then ok content else exhausted) ∧
        ∀ arguments : Data, arguments.bytes = c.bytes.drop 4 →
          decodeInputData keccak256 element arguments = decodeInputData keccak256 element c) ∧
    ∀ data : Data, data.bytes.length % 32 = 4 → data.bytes.take 4 ≠ (keccak256 (Text.utf8 signature)).take 4 →
      Rejected (decodeInputData keccak256 element data) := by
  constructor
  · intro values c h
    rw [encodeParameters_of_called helement, selectorOf_eq hkeccak] at h
    simp only [bind_eq_ok, ok_bind, Data.ofBytes_eq_ok] at h
    obtain ⟨d, hd, hc⟩ := h
    have hselector : ((keccak256 (Text.utf8 signature)).take 4).length = 4 := by rw [List.length_take, hkeccak]; rfl
    have htake : c.bytes.take 4 = (keccak256 (Text.utf8 signature)).take 4 := by
      rw [hc, List.take_left' hselector]
    have hdrop : c.bytes.drop 4 = d.bytes := by rw [hc, List.drop_left' hselector]
    obtain ⟨cs, cost, hcanonicals, hlen, hcost, hspend⟩ := decodeTuple_encode hd
    have hdecode := decode_of_spend (hspend Budget.full (by decide))
    have hd0 : d.bytes.length % 32 = 0 := Nat.mod_eq_zero_of_dvd (dvd_of_encode hd)
    have hc4 : c.bytes.length % 32 = 4 := by
      rw [hc, List.length_append, hselector]
      omega
    have hargs : ∀ arguments : Data, arguments.bytes = d.bytes →
        decodeInputData keccak256 element arguments = (do
          validParameterTypes inputs maxNodes
          decodeValues inputs d false) := by
      intro arguments hbytes
      obtain rfl : arguments = d := by
        cases arguments
        cases d
        cases hbytes
        rfl
      rw [decodeInputData_of_called helement, framed_zero hd0]
      rfl
    have hcall : decodeInputData keccak256 element c = (do
        validParameterTypes inputs maxNodes
        decodeValues inputs d false) := by
      rw [decodeInputData_of_called helement, framed_four hc4 hdrop.symm, selectorOf_eq hkeccak, htake]
      simp only [ok_bind, selected, ensure_true]
    rw [List.length_map] at hlen
    have hcount : (inputs.map (·.name)).length = cs.length := by rw [List.length_map, hlen]
    have hempty : ∀ name ∈ inputs.map (·.name), name = [] := by
      intro name hname
      obtain ⟨p, hp, rfl⟩ := List.mem_map.mp hname
      exact hnames p hp
    refine ⟨hc4, htake, cs, cost, _, hcanonicals, hlen, hcost, entries_positional hcount hempty, ?_, ?_⟩
    · have ha : ∀ p ∈ inputs, Admitted 0 p.type := by
        intro p hp
        exact (encode_eq_ok hd).1 p.type (List.mem_map_of_mem hp)
      rw [hcall, validParameterTypes_eq ha]
      by_cases hfull : cost ≤ Budget.full
      · have htypes : ParameterType.typeSizes (inputs.map (·.type)) ≤ maxNodes :=
          (decodingCost_typeNodes hcost).trans (Budget.le_iff.mp hfull).2.1
        rw [if_pos htypes, ok_bind, decodeValues, hdecode, if_pos hfull, if_pos hfull, ok_bind, ensure_true hlen]
        rfl
      · rw [if_neg hfull]
        split
        · rw [ok_bind, decodeValues, hdecode, if_neg hfull]
          rfl
        · rfl
    · intro arguments hbytes
      rw [hcall, hargs arguments (hbytes.trans hdrop)]
  · intro data h4 hne
    have hlen : (data.bytes.drop 4).length ≤ intMax := by
      rw [List.length_drop]
      have := data.count_le
      omega
    have hframed : framed data = ok (some (data.bytes.take 4), ⟨data.bytes.drop 4, hlen⟩) := framed_four h4 rfl
    rw [decodeInputData_of_called helement, hframed, ok_bind, selectorOf_eq hkeccak]
    apply rejected_of
    · apply bind_ne_trap (validParameterTypes_ne_trap inputs maxNodes)
      intro _ _
      simp [selected, ensure, hne]
    · intro content hok
      simp only [bind_eq_ok, selected, ok_bind, ensure_eq_ok] at hok
      obtain ⟨_, _, _, heq, _⟩ := hok
      exact hne heq

-- `f(uint8,bool[])`
def sampleFunction : Element := .function ⟨some "f".toList, [⟨[], .uint 8⟩, ⟨[], .array .bool 0⟩], []⟩

section

attribute [local instance] plainText

def sampleCall : Data where
  bytes := (knownHash (Text.utf8 "f(uint8,bool[])".toList)).take 4 ++ sampleData.bytes
  count_le := by decide +kernel

theorem decodeInputData_encodeParameters_sample :
    sampleCall.bytes.length % 32 = 4 ∧
      (∃ content, decodeInputData knownHash sampleFunction sampleCall = ok content ∧
        Positional content [.bigUInt 42, .array [.number 1]]) ∧
      decodeInputData knownHash sampleFunction sampleData = decodeInputData knownHash sampleFunction sampleCall ∧
      Rejected (decodeInputData knownHash sampleFunction ⟨List.replicate 4 0, by decide⟩) := by
  have hnames : ∀ parameter ∈ ([⟨[], .uint 8⟩, ⟨[], .array .bool 0⟩] : List InOut), parameter.name = [] := by simp
  have hcalled : sampleFunction.called = some ("f(uint8,bool[])".toList, [⟨[], .uint 8⟩, ⟨[], .array .bool 0⟩]) := rfl
  obtain ⟨h, hother⟩ := decodeInputData_encodeParameters knownHash knownHash_length hcalled hnames
  obtain ⟨hlen, _, cs, cost, content, hcs, _, hcost, hpositional, hdecode, hargs⟩ :=
    h sampleValues sampleCall (by decide +kernel)
  have hcanonicals : canonicals sampleTypes sampleValues = some [.bigUInt 42, .array [.number 1]] := by rfl
  have hfull : cost ≤ Budget.full := Budget.le_full_of_all hcost (by decide +kernel)
  change canonicals sampleTypes sampleValues = some cs at hcs
  rw [hcanonicals, Option.some.injEq] at hcs
  rw [if_pos hfull] at hdecode
  exact ⟨hlen, ⟨content, hdecode, hcs ▸ hpositional⟩, hargs sampleData (by decide +kernel),
    hother _ rfl (by decide +kernel)⟩

end

def parameters : Element → Option (List InOut)
  | .function f => some f.inputs
  | .constructor c => some c.inputs
  | .error e => some e.inputs
  | _ => none

theorem decodeValues_eq_ok [Graphemes] {parameters : List InOut} {data : Data} {legacy : Bool} {content : Content}
    (h : decodeValues parameters data legacy = ok content) :
    ∃ values, decode (parameters.map (·.type)) data legacy = ok values ∧ parameters.length = values.length ∧
      content = entries (parameters.map (·.name)) values 0 fun _ => none := by
  simp only [decodeValues, bind_eq_ok, ensure_eq_ok, exists_const, ok.injEq] at h
  obtain ⟨values, hvalues, hlen, rfl⟩ := h
  exact ⟨values, hvalues, hlen.symm, rfl⟩

theorem decodeInputData_eq_ok [Graphemes] {keccak256 : List UInt8 → List UInt8} {element : Element}
    {inputs : List InOut} (hinputs : element.parameters = some inputs) {rawData : Data} {content : Content}
    (h : decodeInputData keccak256 element rawData = ok content) :
    ∃ selector data, framed rawData = ok (selector, data) ∧ decodeValues inputs data false = ok content := by
  simp only [decodeInputData, bind_eq_ok, Prod.exists] at h
  obtain ⟨selector, data, hframed, h⟩ := h
  refine ⟨selector, data, hframed, ?_⟩
  cases element with
  | function f =>
    cases hinputs
    simp only [bind_eq_ok] at h
    obtain ⟨_, _, _, _, h⟩ := h
    exact h
  | constructor c =>
    cases hinputs
    simp only [bind_eq_ok] at h
    obtain ⟨_, _, h⟩ := h
    exact h
  | error e =>
    cases hinputs
    simp only [bind_eq_ok] at h
    obtain ⟨_, _, _, _, h⟩ := h
    exact h
  | fallback | event | receive => cases hinputs

theorem decodeValues_faithful_iff [Graphemes] {parameters : List InOut} {data : Data} {legacy : Bool}
    {content : Content} (h : decodeValues parameters data legacy = ok content) :
    ∃ values, decode (parameters.map (·.type)) data legacy = ok values ∧
      (Faithful content values ↔ Unshadowed (parameters.map (·.name)) values) := by
  obtain ⟨values, hvalues, hlen, rfl⟩ := decodeValues_eq_ok h
  exact ⟨values, hvalues, entries_faithful_iff (by rw [List.length_map, hlen])⟩

theorem decodeLog_faithful_iff [Graphemes] {keccak256 : List UInt8 → List UInt8} {event : Event} {eventLog : EventLog}
    {content : Content} (h : decodeLog keccak256 event eventLog = ok content) :
    ∃ indexedValues nonIndexedValues,
      logValues keccak256 event eventLog = ok (indexedValues, nonIndexedValues) ∧
      let values := arranged event.inputs indexedValues nonIndexedValues
      (Faithful content values ∧ content "name".toList = some (.string event.name) ↔
        Unshadowed (logNames event) values ∧
          ∀ j, LastNamed (logNames event) "name".toList j → values[j]? = some (.string event.name)) := by
  rw [decodeLog_eq] at h
  simp only [bind_eq_ok, Prod.exists, ok.injEq] at h
  obtain ⟨is, ns, hvalues, rfl⟩ := h
  refine ⟨is, ns, hvalues, ?_⟩
  have hlen : (logNames event).length = (arranged event.inputs is ns).length := by
    obtain ⟨his, hns⟩ := logValues_length hvalues
    rw [logNames, List.length_map, (arranges_arranged his hns).length_eq]
  dsimp only
  rw [entries_faithful_iff hlen, entries_name_iff hlen (by simp [namedLog])]

theorem dictionaries_faithful_iff [Graphemes] (keccak256 : List UInt8 → List UInt8) :
    (∀ element inputs rawData content, element.parameters = some inputs →
      decodeInputData keccak256 element rawData = ok content →
        ∃ selector data values, framed rawData = ok (selector, data) ∧
          decode (inputs.map (·.type)) data false = ok values ∧
          (Faithful content values ↔ Unshadowed (inputs.map (·.name)) values)) ∧
    (∀ f data legacy content, decodeReturnData keccak256 (.function f) data legacy = ok content →
      ∃ values, decode (f.outputs.map (·.type)) data legacy = ok values ∧
        (Faithful content values ↔ Unshadowed (f.outputs.map (·.name)) values)) ∧
    (∀ e data legacy, decodeReturnData keccak256 (.error e) data legacy = decodeInputData keccak256 (.error e) data) ∧
    ∀ event eventLog content, decodeLog keccak256 event eventLog = ok content →
      ∃ indexedValues nonIndexedValues,
        logValues keccak256 event eventLog = ok (indexedValues, nonIndexedValues) ∧
        let values := arranged event.inputs indexedValues nonIndexedValues
        (Faithful content values ∧ content "name".toList = some (.string event.name) ↔
          Unshadowed (logNames event) values ∧
            ∀ j, LastNamed (logNames event) "name".toList j → values[j]? = some (.string event.name)) := by
  refine ⟨?_, ?_, fun _ _ _ => rfl, fun _ _ _ => decodeLog_faithful_iff⟩
  · intro element inputs rawData content hinputs h
    obtain ⟨selector, data, hframed, hvalues⟩ := decodeInputData_eq_ok hinputs h
    obtain ⟨values, hdecode, hiff⟩ := decodeValues_faithful_iff hvalues
    exact ⟨selector, data, values, hframed, hdecode, hiff⟩
  · intro f data legacy content h
    simp only [decodeReturnData, bind_eq_ok, ensure_eq_ok, exists_const] at h
    exact decodeValues_faithful_iff h.2

-- `event Registered(string name)`
def registeredEvent : Event where
  name := "Registered".toList
  inputs := [⟨"name".toList, .string, false⟩]
  anonymous := false
  inputs_count := by decide

theorem registered_count_le : (HeadTail.wordOf 32 ++ HeadTail.wordOf 0).length ≤ intMax := by decide +kernel

def registeredLog : EventLog where
  data := ⟨HeadTail.wordOf 32 ++ HeadTail.wordOf 0, registered_count_le⟩
  topics := [⟨registeredEvent.topic knownHash, by rw [Event.topic, knownHash_length]; decide⟩]

-- The second parameter is named like the first position.
def renumberedFunction : Element := .function ⟨some "f".toList, [⟨[], .uint 8⟩, ⟨"0".toList, .uint 8⟩], []⟩

def renumberedData : Data := ⟨HeadTail.wordOf 1 ++ HeadTail.wordOf 2, by decide +kernel⟩

section

attribute [local instance] plainText

theorem dictionaries_faithful_iff_sample :
    (∃ content selector data values, decodeInputData knownHash sampleFunction sampleCall = ok content ∧
      framed sampleCall = ok (selector, data) ∧ decode sampleTypes data false = ok values ∧
        (Faithful content values ↔ Unshadowed [[], []] values)) ∧
    ∃ content indexedValues nonIndexedValues, decodeLog knownHash registeredEvent registeredLog = ok content ∧
      logValues knownHash registeredEvent registeredLog = ok (indexedValues, nonIndexedValues) ∧
      (Faithful content (arranged registeredEvent.inputs indexedValues nonIndexedValues) ∧
          content "name".toList = some (.string "Registered".toList) ↔
        Unshadowed (logNames registeredEvent) (arranged registeredEvent.inputs indexedValues nonIndexedValues) ∧
          ∀ j, LastNamed (logNames registeredEvent) "name".toList j →
            (arranged registeredEvent.inputs indexedValues nonIndexedValues)[j]? =
              some (.string "Registered".toList)) := by
  obtain ⟨called, hcalled⟩ : ∃ content, (decodeInputData knownHash sampleFunction sampleCall).toOption = some content :=
    Option.isSome_iff_exists.mp (by decide +kernel)
  obtain ⟨logged, hlogged⟩ : ∃ content, (decodeLog knownHash registeredEvent registeredLog).toOption = some content :=
    Option.isSome_iff_exists.mp (by decide +kernel)
  rw [toOption_eq_some] at hcalled hlogged
  obtain ⟨hinput, _, _, hlog⟩ := dictionaries_faithful_iff knownHash
  obtain ⟨selector, data, values, hframed, hdecode, hiff⟩ := hinput sampleFunction _ sampleCall called rfl hcalled
  obtain ⟨is, ns, hvalues, hlogIff⟩ := hlog registeredEvent registeredLog logged hlogged
  exact ⟨⟨called, selector, data, values, hcalled, hframed, hdecode, hiff⟩, logged, is, ns, hlogged, hvalues, hlogIff⟩

def isText (text : Text) : AnyObject → Bool
  | .string value => value = text
  | _ => false

def isNumber (n : ℕ) : AnyObject → Bool
  | .bigUInt value => value = n
  | _ => false

theorem names_take_keys :
    (∃ content, decodeLog knownHash registeredEvent registeredLog = ok content ∧
      content "name".toList ≠ some (.string registeredEvent.name)) ∧
    ∃ content values, decodeInputData knownHash renumberedFunction renumberedData = ok content ∧
      decode [.uint 8, .uint 8] renumberedData false = ok values ∧ ¬ Faithful content values := by
  constructor
  · have hname : (decodeLog knownHash registeredEvent registeredLog).toOption.any
        (fun content => (content "name".toList).any (isText [])) = true := by decide +kernel
    obtain ⟨content, hcontent, hname⟩ := (Option.any_eq_true _ _).mp hname
    rw [toOption_eq_some] at hcontent
    refine ⟨content, hcontent, ?_⟩
    intro h
    rw [h] at hname
    exact absurd hname (by decide)
  · have hsecond : (decodeInputData knownHash renumberedFunction renumberedData).toOption.any
        (fun content => (content (position 0)).any (isNumber 2)) = true := by decide +kernel
    obtain ⟨content, hcontent, hsecond⟩ := (Option.any_eq_true _ _).mp hsecond
    have hfirst : (decode [.uint 8, .uint 8] renumberedData false).toOption.any
        (fun values => values[0]?.any (isNumber 1)) = true := by decide +kernel
    obtain ⟨values, hvalues, hfirst⟩ := (Option.any_eq_true _ _).mp hfirst
    obtain ⟨value, hvalue, hone⟩ := (Option.any_eq_true _ _).mp hfirst
    rw [toOption_eq_some] at hcontent hvalues
    refine ⟨content, values, hcontent, hvalues, ?_⟩
    intro h
    have hlt : 0 < values.length := (List.getElem?_eq_some_iff.mp hvalue).1
    rw [h 0 hlt, hvalue] at hsecond
    cases value with
    | bigUInt n =>
      have h1 : n = 1 := of_decide_eq_true hone
      have h2 : n = 2 := of_decide_eq_true hsecond
      omega
    | _ => cases hone

end

end Element

end TronlinkCore.Abi
