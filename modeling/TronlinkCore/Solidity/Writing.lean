import TronlinkCore.Library.Throwing
import TronlinkCore.Solidity.Encoder

/-!
`ABIEncoder` with the bytes that it leaves in `data` when it throws.
-/

namespace TronlinkCore.Solidity

open Outcome MachineInt BigEndian

/-- An encoder ends with its bytes, or is interrupted as an outcome without a value says. -/
abbrev Writing := Throwing Data (Outcome Empty)

namespace ABIEncoder

def call {α : Type} : Outcome α → Writing α
  | .ok a => pure a
  | .fail => Throwing.fail .fail
  | .exhausted => Throwing.fail .exhausted
  | .trap => Throwing.fail .trap

def append (bytes : List UInt8) : Writing Unit := fun data =>
  match Data.ofBytes (data.bytes ++ bytes) with
  | .ok data => (.ok (), data)
  | _ => (.error .trap, data)

def encodeBool (value : Bool) : Writing Unit := do
  append (List.replicate 31 0)
  append [if value then 1 else 0]

def encodeBigUInt (value : ℕ) : Writing Unit := do
  let valueData := serialize value
  call (ensure (valueData.length ≤ 32))
  append (List.replicate (32 - valueData.length) 0)
  append valueData

def encodeBigInt (value : ℤ) : Writing Unit := do
  let valueData ← call (abiEncode value)
  append valueData

def encodeInt (value : ℕ) : Writing Unit := encodeBigInt value

def encodeBytes (bytes : Data) (isStatic : Bool) : Writing Unit := do
  if isStatic then call (ABIType.validate (.bytes (Int64.ofNat bytes.bytes.length)))
  if !isStatic then encodeInt bytes.bytes.length
  let padded ← call (ABIValue.paddedCount bytes.bytes.length)
  let padding ← call (subInt padded bytes.bytes.length)
  append bytes.bytes
  append (List.replicate padding 0)

def encodeAddress (address : Data) : Writing Unit := do
  let addressData ← call (ofOption (Abi.evmAddress20 address.bytes))
  let padding ← call (subInt 32 addressData.length)
  append (List.replicate padding 0)
  append addressData

def encodeString (string : Text) : Writing Unit := do
  let bytes ← call (Data.ofBytes (Text.utf8 string))
  encodeBytes bytes false

variable [Host]

def encodeSignature (signature : Text) : Writing Unit := do
  let bytes ← call (Data.ofBytes (Text.utf8 signature))
  let hash := Host.hash bytes.bytes
  call (check (4 ≤ hash.length))
  append (hash.take 4)

def encodeLoops (heads : ℕ → Writing Unit) (tails : Writing Unit) (tuple : List ABIValue) : Writing Unit := do
  let headSize ← call (headSize tuple 0)
  heads headSize
  tails

mutual
def encodeOf : ABIValue → Writing Unit
  | .uint _ value => encodeBigUInt value
  | .int _ value => encodeBigInt value
  | .address address => encodeAddress address
  | .bool value => encodeBool value
  | .fixed _ _ value => encodeBigInt value
  | .ufixed _ _ value => encodeBigUInt value
  | .bytes bytes => encodeBytes bytes true
  | .function name parameters values => do
    encodeSignature (ABIType.description (.function name parameters))
    encodeLoops (fun headSize => encodeHeads headSize values 0) (encodeTails values) values
  | .array _ values => encodeLoops (fun headSize => encodeHeads headSize values 0) (encodeTails values) values
  | .dynamicBytes bytes => encodeBytes bytes false
  | .string string => encodeString string
  | .dynamicArray _ values => do
    encodeInt values.length
    encodeLoops (fun headSize => encodeHeads headSize values 0) (encodeTails values) values
  | .tuple values => encodeLoops (fun headSize => encodeHeads headSize values 0) (encodeTails values) values

def encodeHeads (headSize : ℕ) : List ABIValue → ℕ → Writing Unit
  | [], _ => pure ()
  | value :: values, dynamicOffset =>
    if value.isDynamic then do
      let offset ← call (addInt headSize dynamicOffset)
      encodeInt offset
      let length ← call value.length
      let dynamicOffset ← call (addInt dynamicOffset length)
      encodeHeads headSize values dynamicOffset
    else do
      call value.validate
      encodeOf value
      encodeHeads headSize values dynamicOffset

def encodeTails : List ABIValue → Writing Unit
  | [] => pure ()
  | value :: values =>
    if value.isDynamic then do
      call value.validate
      encodeOf value
      encodeTails values
    else encodeTails values
end

def encode (value : ABIValue) : Writing Unit := do
  call value.validate
  encodeOf value

def encodeTuple (tuple : List ABIValue) : Writing Unit :=
  encodeLoops (fun headSize => encodeHeads headSize tuple 0) (encodeTails tuple) tuple

end ABIEncoder

def outcome : Except (Outcome Empty) Unit × Data → Outcome Data
  | (.ok (), data) => ok data
  | (.error .fail, _) => fail
  | (.error .exhausted, _) => exhausted
  | (.error .trap, _) => trap

def Passes (x : Writing Unit) (f : Data → Outcome Data) : Prop := ∀ data, f data = outcome (x data)

namespace Passes

open ABIEncoder

theorem of_run {x : Writing Unit} {f : Data → Outcome Data} (h : Passes x f) {data out : Data}
    (hrun : x data = (.ok (), out)) : f data = ok out := by
  rw [h data, hrun]
  rfl

theorem pure : Passes (pure ()) ok := fun _ => rfl

theorem call_bind {α : Type} {a : Outcome α} {x : α → Writing Unit} {f : α → Data → Outcome Data}
    (h : ∀ b, a = ok b → Passes (x b) (f b)) : Passes (call a >>= x) fun data => a >>= fun b => f b data := by
  intro data
  cases a with
  | ok b => exact h b rfl data
  | fail | exhausted | trap => rfl

theorem bind {x y : Writing Unit} {f g : Data → Outcome Data} (hx : Passes x f) (hy : Passes y g) :
    Passes (x >>= fun _ => y) fun data => f data >>= g := by
  intro data
  have hresult : f data = outcome (x data) := hx data
  change f data >>= g = outcome ((x >>= fun _ => y) data)
  rw [hresult, Throwing.bind_run]
  match x data with
  | (.ok (), later) => exact hy later
  | (.error .fail, later) => rfl
  | (.error .exhausted, later) => rfl
  | (.error .trap, later) => rfl

theorem append (bytes : List UInt8) : Passes (ABIEncoder.append bytes) (Solidity.append · bytes) := by
  intro data
  change Data.ofBytes (data.bytes ++ bytes) = outcome (ABIEncoder.append bytes data)
  unfold ABIEncoder.append Data.ofBytes
  by_cases h : (data.bytes ++ bytes).length ≤ intMax
  · rw [dif_pos h]
    rfl
  · rw [dif_neg h]
    rfl

theorem encodeBool (value : Bool) : Passes (ABIEncoder.encodeBool value) (Solidity.encodeBool value) :=
  (append _).bind (append _)

theorem encodeBigUInt (value : ℕ) : Passes (ABIEncoder.encodeBigUInt value) (Solidity.encodeBigUInt value) :=
  call_bind fun _ _ => (append _).bind (append _)

theorem encodeBigInt (value : ℤ) : Passes (ABIEncoder.encodeBigInt value) (Solidity.encodeBigInt value) :=
  call_bind fun _ _ => append _

theorem encodeInt (value : ℕ) : Passes (ABIEncoder.encodeInt value) (Solidity.encodeInt value) := encodeBigInt value

theorem encodeBytes (bytes : Data) (isStatic : Bool) :
    Passes (ABIEncoder.encodeBytes bytes isStatic) (Solidity.encodeBytes bytes isStatic) := by
  have body : Passes (do
      let padded ← call (ABIValue.paddedCount bytes.bytes.length)
      let padding ← call (subInt padded bytes.bytes.length)
      ABIEncoder.append bytes.bytes
      ABIEncoder.append (List.replicate padding 0)) _ :=
    call_bind fun _ _ => call_bind fun _ _ => (append _).bind (append _)
  cases isStatic with
  | false => exact (encodeInt _).bind body
  | true => exact call_bind fun _ _ => body

theorem encodeAddress (address : Data) : Passes (ABIEncoder.encodeAddress address) (Solidity.encodeAddress address) :=
  call_bind fun _ _ => call_bind fun _ _ => (append _).bind (append _)

theorem encodeString (string : Text) : Passes (ABIEncoder.encodeString string) (Solidity.encodeString string) :=
  call_bind fun _ _ => encodeBytes _ false

variable [Host]

theorem encodeSignature (signature : Text) :
    Passes (ABIEncoder.encodeSignature signature) (Solidity.encodeSignature signature) :=
  call_bind fun _ _ => call_bind fun _ _ => append _

theorem encodeHeads {headSize : ℕ} {values : List ABIValue} {dynamicOffset : ℕ}
    (h : ∀ value ∈ values, Passes (ABIEncoder.encodeOf value) (Solidity.encodeOf value)) :
    Passes (ABIEncoder.encodeHeads headSize values dynamicOffset)
      (Solidity.encodeHeads headSize values dynamicOffset) := by
  induction values generalizing dynamicOffset with
  | nil => exact pure
  | cons value values ih =>
    obtain ⟨hvalue, hvalues⟩ := List.forall_mem_cons.mp h
    simp only [Passes, ABIEncoder.encodeHeads, Solidity.encodeHeads]
    cases value.isDynamic with
    | true => exact call_bind fun _ _ => (encodeInt _).bind (call_bind fun _ _ => call_bind fun _ _ => ih hvalues)
    | false => exact call_bind fun _ _ => hvalue.bind (ih hvalues)

theorem encodeTails {values : List ABIValue}
    (h : ∀ value ∈ values, Passes (ABIEncoder.encodeOf value) (Solidity.encodeOf value)) :
    Passes (ABIEncoder.encodeTails values) (Solidity.encodeTails values) := by
  induction values with
  | nil => exact pure
  | cons value values ih =>
    obtain ⟨hvalue, hvalues⟩ := List.forall_mem_cons.mp h
    simp only [Passes, ABIEncoder.encodeTails, Solidity.encodeTails]
    cases value.isDynamic with
    | true => exact call_bind fun _ _ => hvalue.bind (ih hvalues)
    | false => exact ih hvalues

theorem loops {values : List ABIValue}
    (h : ∀ value ∈ values, Passes (ABIEncoder.encodeOf value) (Solidity.encodeOf value)) :
    Passes (ABIEncoder.encodeTuple values) (Solidity.encodeTuple values) :=
  call_bind fun _ _ => (encodeHeads h).bind (encodeTails h)

theorem encodeOf (value : ABIValue) : Passes (ABIEncoder.encodeOf value) (Solidity.encodeOf value) := by
  induction value using ABIValue.induct with
  | uint _ value => exact encodeBigUInt value
  | int _ value => exact encodeBigInt value
  | address address => exact encodeAddress address
  | bool value => exact encodeBool value
  | fixed _ _ value => exact encodeBigInt value
  | ufixed _ _ value => exact encodeBigUInt value
  | bytes bytes => exact encodeBytes bytes true
  | function name parameters values ih => exact (encodeSignature _).bind (loops ih)
  | array _ values ih => exact loops ih
  | dynamicBytes bytes => exact encodeBytes bytes false
  | string string => exact encodeString string
  | dynamicArray _ values ih => exact (encodeInt _).bind (loops ih)
  | tuple values ih => exact loops ih

end Passes

variable [Host]

theorem encode_passes (value : ABIValue) : Passes (ABIEncoder.encode value) (encode value) :=
  Passes.call_bind fun _ _ => .encodeOf value

theorem encodeTuple_passes (tuple : List ABIValue) : Passes (ABIEncoder.encodeTuple tuple) (encodeTuple tuple) :=
  .loops fun value _ => .encodeOf value

end TronlinkCore.Solidity
