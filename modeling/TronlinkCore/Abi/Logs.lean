import TronlinkCore.Abi.Decoding
import TronlinkCore.Abi.TypeNames

/-!
`ABIv2Decoder.decodeLog`: topics hold the indexed inputs of an event, the data
hold the others.
-/

namespace TronlinkCore.Abi

open Outcome MachineInt

structure EventInput where
  name : Text
  type : ParameterType
  indexed : Bool

structure Event where
  name : Text
  inputs : List EventInput
  anonymous : Bool
  -- an array of records of several bytes has fewer than `Int.max` of them
  inputs_count : inputs.length < intMax

structure EventLog where
  data : Data
  topics : List Data

def Event.topic (keccak256 : List UInt8 → List UInt8) (event : Event) : List UInt8 :=
  keccak256 (Text.utf8 (signature event.name (event.inputs.map (·.type))))

abbrev Content := Text → Option AnyObject

section

variable [Graphemes]

def inputLayouts : List EventInput → Budget → Outcome Budget
  | [], budget => ok budget
  | input :: inputs, budget => do
    let (_, budget) ← Budget.layout input.type 0 budget
    inputLayouts inputs budget

def indexedValue (topic : List UInt8) (type : ParameterType) (budget : Budget) : Outcome (AnyObject × Budget) :=
  match type with
  -- the topic is a hash
  | .array _ _ | .fixedArray _ _ | .tuple _ | .string | .dynamicBytes => do
    let nodes ← subInt budget.nodes 1
    ok (.data topic, { budget with nodes })
  | type => decodeValue topic type 0 0 32 0 budget

def decodeIndexed (topics : List Data) (signatureCount : ℕ) :
    List EventInput → ℕ → Budget → Outcome (List AnyObject × Budget)
  | [], _, budget => ok ([], budget)
  | input :: inputs, index, budget => do
    afford (0 < budget.nodes)
    let (_, budget) ← Budget.layout input.type 0 budget
    let position ← addInt index signatureCount
    let topic ← element topics position
    let (value, budget) ← indexedValue topic.bytes input.type budget
    let index ← addInt index 1
    let (values, budget) ← decodeIndexed topics signatureCount inputs index budget
    ok (value :: values, budget)

def logContent (indexedValues nonIndexedValues : List AnyObject) :
    List EventInput → ℕ → ℕ → ℕ → Content → Outcome Content
  | [], _, _, _, content => ok content
  | input :: inputs, index, indexedIndex, nonIndexedIndex, content => do
    let value ← if input.indexed then element indexedValues indexedIndex
      else element nonIndexedValues nonIndexedIndex
    let indexedIndex ← addInt indexedIndex (if input.indexed then 1 else 0)
    let nonIndexedIndex ← addInt nonIndexedIndex (if input.indexed then 0 else 1)
    let content := Function.update content (Nat.toDigits 10 index) (some value)
    let content := if input.name.isEmpty then content else Function.update content input.name (some value)
    let index ← addInt index 1
    logContent indexedValues nonIndexedValues inputs index indexedIndex nonIndexedIndex content

def decodeLog (keccak256 : List UInt8 → List UInt8) (event : Event) (eventLog : EventLog) : Outcome Content := do
  let indexedInputs := event.inputs.filter (·.indexed)
  let signatureCount := if event.anonymous then 0 else 1
  let logs := eventLog.topics
  let expected ← addInt indexedInputs.length signatureCount
  ensure (logs.length = expected ∧ logs.all fun topic => topic.bytes.length = 32)
  afford (event.inputs.length ≤ Budget.full.nodes)
  let budget ← inputLayouts event.inputs .full
  ensure (event.anonymous ∨ logs.head?.map (·.bytes) = some (event.topic keccak256))
  let (indexedValues, budget) ← decodeIndexed logs signatureCount indexedInputs 0 budget
  let nonIndexedTypes := (event.inputs.filter fun input => !input.indexed).map (·.type)
  let (nonIndexedValues, _) ←
    decodeTuple (decodeValue eventLog.data.bytes) eventLog.data.bytes nonIndexedTypes 0 0 budget
  logContent indexedValues nonIndexedValues event.inputs 0 0 0
    (Function.update (fun _ => none) "name".toList (some (.string event.name)))

end

end TronlinkCore.Abi
