import TronlinkCore.Abi.Budget
import TronlinkCore.Abi.Words

/-!
`ABIv2Encoder`: values and sequences of values in the head/tail form.
-/

namespace TronlinkCore.Abi

open Outcome MachineInt

variable [Graphemes]

abbrev ValueEncoder := ParameterType → AnyObject → Budget → Outcome (List UInt8 × Budget)

def headLayouts (depth : ℕ) : List ParameterType → ℕ → Budget → Outcome ((List Layout × ℕ) × Budget)
  | [], headSize, budget => ok (([], headSize), budget)
  | type :: types, headSize, budget => do
    let (layout, budget) ← Budget.layout type depth budget
    let (sum, overflow) := addingReportingOverflow headSize layout.headSize
    ensure (overflow = false ∧ sum ≤ intMax)
    let ((layouts, headSize), budget) ← headLayouts depth types sum budget
    ok ((layout :: layouts, headSize), budget)

def encodeMembers (encodeValue : ValueEncoder) (headSize : ℕ) :
    List ParameterType → List AnyObject → List Layout → List UInt8 → List UInt8 → Budget →
      Outcome ((List UInt8 × List UInt8) × Budget)
  | [], _, _, head, tail, budget => ok ((head, tail), budget)
  | type :: types, value :: values, layout :: layouts, head, tail, budget => do
    let (encoded, budget) ← encodeValue type value budget
    if layout.isStatic then do
      ensure (encoded.length = layout.headSize)
      encodeMembers encodeValue headSize types values layouts (head ++ encoded) tail budget
    else do
      let (offset, overflow) := addingReportingOverflow headSize tail.length
      ensure (overflow = false ∧ offset ≤ intMax)
      let room ← subInt intMax offset
      ensure (encoded.length ≤ room)
      let word ← ofOption (unsignedWord offset)
      encodeMembers encodeValue headSize types values layouts (head ++ word) (tail ++ encoded) budget
  -- `values[index]` or `layouts[index]` out of range
  | _ :: _, _, _, _, _, _ => trap

def encodeSequence (encodeValue : ValueEncoder) (types : List ParameterType) (values : List AnyObject)
    (depth : ℕ) (budget : Budget) : Outcome (List UInt8 × Budget) := do
  ensure (types.length = values.length)
  afford (types.length ≤ budget.nodes)
  ensure (depth ≤ maxDepth)
  let ((layouts, headSize), budget) ← headLayouts depth types 0 budget
  let ((head, tail), budget) ← encodeMembers encodeValue headSize types values layouts [] [] budget
  ensure (head.length = headSize)
  let room ← subInt intMax head.length
  ensure (tail.length ≤ room)
  ok (head ++ tail, budget)

def encodePayload (type : ParameterType) (value : AnyObject) (budget : Budget) :
    Outcome (List UInt8 × Budget) := do
  let bytes ← ofOption (payloadBytes type value)
  afford (bytes.length ≤ budget.payloadBytes)
  let payloadBytes ← subInt budget.payloadBytes bytes.length
  let encoded ← ofOption (encodeDynamicBytes bytes)
  ok (encoded, { budget with payloadBytes })

def encodeArray (sequence : List ParameterType → List AnyObject → Budget → Outcome (List UInt8 × Budget))
    (hasLengthWord : Bool) (subtype : ParameterType) (length : UInt64) (value : AnyObject) (budget : Budget) :
    Outcome (List UInt8 × Budget) :=
  match value with
  | .array elements => do
    afford (elements.length ≤ budget.nodes)
    ensure (hasLengthWord = true ∨ length.toNat = elements.length)
    let (body, budget) ← sequence (List.replicate elements.length subtype) elements budget
    if hasLengthWord then do
      ensure (body.length ≤ intMax - 32)
      let count ← ofOption (unsignedWord elements.length)
      ok (count ++ body, budget)
    else ok (body, budget)
  | _ => fail

def encodeOf (sequence : List ParameterType → List AnyObject → Budget → Outcome (List UInt8 × Budget)) :
    ParameterType → AnyObject → Budget → Outcome (List UInt8 × Budget)
  | .string, value, budget => encodePayload .string value budget
  | .dynamicBytes, value, budget => encodePayload .dynamicBytes value budget
  | .array subtype length, value, budget =>
    encodeArray sequence (decide (length = 0)) subtype length value budget
  | .fixedArray subtype length, value, budget => encodeArray sequence false subtype length value budget
  | .tuple types, .array elements, budget => sequence types elements budget
  | .tuple _, _, _ => fail
  | type, value, budget => do
    let word ← ofOption (encodeWord type value)
    ok (word, budget)

def encodeLevels : ℕ → ℕ → ValueEncoder
  | 0, _, _, _, _ => trap
  | levels + 1, depth, type, value, budget => do
    afford (0 < budget.nodes)
    let (_, budget) ← Budget.layout type depth budget
    let nodes ← subInt budget.nodes 1
    encodeOf (fun types values budget => do
      let depth ← addInt depth 1
      encodeSequence (encodeLevels levels depth) types values depth budget) type value { budget with nodes }

def encodeValue (depth : ℕ) : ValueEncoder := encodeLevels maxDepth depth

def encode (types : List ParameterType) (values : List AnyObject) : Outcome Data := do
  let (data, _) ← encodeSequence (encodeValue 0) types values 0 .full
  Data.ofBytes data

def encodeSingleType (type : ParameterType) (value : AnyObject) : Outcome Data := do
  let (data, _) ← encodeValue 0 type value .full
  Data.ofBytes data

end TronlinkCore.Abi
