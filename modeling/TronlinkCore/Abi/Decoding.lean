import TronlinkCore.Abi.Budget
import TronlinkCore.Abi.Words

/-!
`ABIv2Decoder`. Positions count from the first byte of the data; a slice that
is not inside the data is a trap.
-/

namespace TronlinkCore.Abi

open Outcome MachineInt BigEndian

variable [Graphemes]

def read (data : List UInt8) (offset count : ℕ) : Outcome (List UInt8) := do
  ensure (offset ≤ data.length)
  let room ← subInt data.length offset
  ensure (count ≤ room)
  let upper ← addInt offset count
  check (upper ≤ data.length)
  ok ((data.drop offset).take count)

def boundedWord (data : List UInt8) (offset maximum : ℕ) : Outcome ℕ := do
  let word ← read data offset 32
  ensure (ofBytes word ≤ maximum)
  toInt (ofBytes word)

/-- `decodeValue(type:data:containerBase:head:minimumTail:depth:budget:)` -/
abbrev ValueDecoder := ParameterType → ℕ → ℕ → ℕ → ℕ → Budget → Outcome (AnyObject × Budget)

def tupleHeads (dataCount base depth : ℕ) : List ParameterType → ℕ → Budget → Outcome (ℕ × Budget)
  | [], headSize, budget => ok (headSize, budget)
  | type :: types, headSize, budget => do
    let (layout, budget) ← Budget.layout type depth budget
    let room ← subInt dataCount base
    let room ← subInt room headSize
    ensure (layout.headSize ≤ room)
    let width ← toInt layout.headSize
    let headSize ← addInt headSize width
    tupleHeads dataCount base depth types headSize budget

def decodeMembers (decodeValue : ValueDecoder) (base headSize depth : ℕ) :
    List ParameterType → ℕ → Budget → Outcome (List AnyObject × Budget)
  | [], _, budget => ok ([], budget)
  | type :: types, head, budget => do
    let (layout, budget) ← Budget.layout type depth budget
    let (value, budget) ← decodeValue type base head headSize depth budget
    let width ← toInt layout.headSize
    let head ← addInt head width
    let (values, budget) ← decodeMembers decodeValue base headSize depth types head budget
    ok (value :: values, budget)

def decodeTuple (decodeValue : ValueDecoder) (data : List UInt8) (types : List ParameterType) (base depth : ℕ)
    (budget : Budget) : Outcome (List AnyObject × Budget) := do
  ensure (depth ≤ maxDepth ∧ base ≤ data.length)
  afford (types.length ≤ budget.nodes)
  let (headSize, budget) ← tupleHeads data.length base depth types 0 budget
  decodeMembers decodeValue base headSize depth types base budget

def decodeElements (decodeValue : ValueDecoder) (type : ParameterType) (width base headSize depth : ℕ) :
    ℕ → ℕ → Budget → Outcome (List AnyObject × Budget)
  | 0, _, budget => ok ([], budget)
  | count + 1, head, budget => do
    let (value, budget) ← decodeValue type base head headSize depth budget
    let width' ← toInt width
    let head ← addInt head width'
    let (values, budget) ← decodeElements decodeValue type width base headSize depth count head budget
    ok (value :: values, budget)

def decodeArray (decodeValue : ValueDecoder) (data : List UInt8) (type : ParameterType) (count base depth : ℕ)
    (budget : Budget) : Outcome (List AnyObject × Budget) := do
  ensure (depth ≤ maxDepth ∧ base ≤ data.length)
  afford (count ≤ budget.nodes)
  let (layout, budget) ← Budget.layout type depth budget
  let (totalHead, overflow) := multipliedReportingOverflow layout.headSize count
  let room ← subInt data.length base
  ensure (overflow = false ∧ totalHead ≤ room)
  let length ← toInt count
  let headSize ← toInt totalHead
  decodeElements decodeValue type layout.headSize base headSize depth length base budget

def zeroPadding (data : List UInt8) (start length padding : ℕ) : Outcome Unit :=
  if 0 < padding then do
    let offset ← addInt start 32
    let offset ← addInt offset length
    let pad ← read data offset padding
    ensure (pad.all (· == 0))
  else ok ()

def decodePayload (data : List UInt8) (type : ParameterType) (start : ℕ) (budget : Budget) :
    Outcome (AnyObject × Budget) := do
  ensure (start ≤ data.length)
  let room ← subInt data.length start
  ensure (32 ≤ room)
  let room ← subInt room 32
  let length ← boundedWord data start room
  let padding := (32 - length % 32) % 32
  let rest ← subInt room length
  ensure (padding ≤ rest)
  afford (length ≤ budget.payloadBytes)
  zeroPadding data start length padding
  let payloadBytes ← subInt budget.payloadBytes length
  let offset ← addInt start 32
  let bytes ← read data offset length
  let value ← ofOption (payloadValue type bytes)
  ok (value, { budget with payloadBytes })

/-- The part of `decodeValue` behind the start of the value. -/
def decodeOf (decodeValue : ValueDecoder) (data : List UInt8) (depth : ℕ) :
    ParameterType → ℕ → Budget → Outcome (AnyObject × Budget)
  | .string, start, budget => decodePayload data .string start budget
  | .dynamicBytes, start, budget => decodePayload data .dynamicBytes start budget
  | .array subtype length, start, budget =>
    if length = 0 then do
      ensure (start ≤ data.length)
      let room ← subInt data.length start
      ensure (32 ≤ room)
      -- the length word is there: only a count beyond the budget fails
      let count ← failAsExhausted (boundedWord data start budget.nodes)
      let base ← addInt start 32
      let depth ← addInt depth 1
      let (values, budget) ← decodeArray decodeValue data subtype count base depth budget
      ok (.array values, budget)
    else do
      let depth ← addInt depth 1
      let (values, budget) ← decodeArray decodeValue data subtype length.toNat start depth budget
      ok (.array values, budget)
  | .fixedArray subtype length, start, budget => do
    let depth ← addInt depth 1
    let (values, budget) ← decodeArray decodeValue data subtype length.toNat start depth budget
    ok (.array values, budget)
  | .tuple types, start, budget => do
    let depth ← addInt depth 1
    let (values, budget) ← decodeTuple decodeValue data types start depth budget
    ok (.array values, budget)
  | type, start, budget => do
    let word ← read data start 32
    let value ← decodeWord type word
    ok (value, budget)

def valueStart (data : List UInt8) (isStatic : Bool) (containerBase head minimumTail : ℕ) : Outcome ℕ :=
  if isStatic then ok head
  else do
    let maximum ← subInt data.length containerBase
    let offset ← boundedWord data head maximum
    ensure (minimumTail ≤ offset ∧ offset % 32 = 0)
    addInt containerBase offset

-- `levels` bounds the nesting of the calls: a call beyond it is a trap.
def decodeLevels (data : List UInt8) : ℕ → ValueDecoder
  | 0, _, _, _, _, _, _ => trap
  | levels + 1, type, containerBase, head, minimumTail, depth, budget => do
    ensure (depth ≤ maxDepth)
    afford (0 < budget.nodes)
    ensure (containerBase ≤ head ∧ head ≤ data.length)
    let (layout, budget) ← Budget.layout type depth budget
    let room ← subInt data.length head
    ensure (layout.headSize ≤ room)
    let nodes ← subInt budget.nodes 1
    let start ← valueStart data layout.isStatic containerBase head minimumTail
    decodeOf (decodeLevels data levels) data depth type start { budget with nodes }

def decodeValue (data : List UInt8) : ValueDecoder := decodeLevels data maxDepth

def trimTrailingZeros (bytes : List UInt8) : List UInt8 := (bytes.reverse.dropWhile (· == 0)).reverse

def decodeLegacyMetadata (type : ParameterType) (data : List UInt8) : Option AnyObject :=
  match type, data with
  | .string, first :: _ =>
    if data.length = 32 ∧ (first ≠ 0 ∨ data.all (· == 0)) then
      (Text.ofUtf8? (if first = 0 then [] else trimTrailingZeros data)).map .string
    else none
  | _, _ => none

def decode (types : List ParameterType) (data : Data) (allowLegacyBytes32 : Bool) :
    Outcome (List AnyObject) :=
  let legacy := match types with
    | [type] => if allowLegacyBytes32 && data.bytes.length = 32 then decodeLegacyMetadata type data.bytes else none
    | _ => none
  match legacy with
  | some value => ok [value]
  | none => do
    let (values, _) ← decodeTuple (decodeValue data.bytes) data.bytes types 0 0 .full
    ok values

def tailFloor (data : Data) (pointer : UInt64) (layout : Layout) (minimumTail : Option UInt64)
    (head headSize : ℕ) : Outcome ℕ :=
  match minimumTail with
  | some minimumTail => do
    let floor ← addUInt64 pointer.toNat layout.headSize
    ensure (floor ≤ minimumTail.toNat ∧ minimumTail.toNat ≤ data.bytes.length)
    toInt minimumTail.toNat
  | none => addInt head headSize

def decodeSignleType (type : ParameterType) (data : Data) (pointer : UInt64) (allowLegacyBytes32 : Bool)
    (minimumTail : Option UInt64) : Outcome (AnyObject × ℕ) := do
  let (layout, budget) ← Budget.layout type 0 .full
  ensure (pointer.toNat ≤ data.bytes.length)
  let room ← subInt data.bytes.length pointer.toNat
  ensure (layout.headSize ≤ room)
  let head ← toInt pointer.toNat
  let headSize ← toInt layout.headSize
  let tailFloor ← tailFloor data pointer layout minimumTail head headSize
  let legacy := if allowLegacyBytes32 && pointer = 0 && data.bytes.length = 32 then decodeLegacyMetadata type data.bytes
    else none
  match legacy with
  | some value => ok (value, layout.headSize)
  | none => do
    let (value, _) ← decodeValue data.bytes type 0 head tailFloor 0 budget
    ok (value, layout.headSize)

end TronlinkCore.Abi
