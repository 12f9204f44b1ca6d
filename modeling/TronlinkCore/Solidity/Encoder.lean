import TronlinkCore.Abi.Values
import TronlinkCore.Solidity.Values

/-!
`ABIEncoder`: every offset is computed in advance from the lengths of the
values, and the bytes are appended to `data` one after another.
-/

namespace TronlinkCore.Solidity

open Outcome MachineInt BigEndian

def noData : Data := ⟨[], by decide⟩

def append (data : Data) (bytes : List UInt8) : Outcome Data := Data.ofBytes (data.bytes ++ bytes)

def encodeBool (value : Bool) (data : Data) : Outcome Data := do
  let data ← append data (List.replicate 31 0)
  append data [if value then 1 else 0]

def encodeBigUInt (value : ℕ) (data : Data) : Outcome Data := do
  let valueData := serialize value
  ensure (valueData.length ≤ 32)
  let data ← append data (List.replicate (32 - valueData.length) 0)
  append data valueData

def setLengthLeft (bytes : List UInt8) (toBytes : ℕ) : Option (List UInt8) :=
  if bytes.length ≤ toBytes then some (List.replicate (toBytes - bytes.length) 0 ++ bytes) else none

/-- `abiEncode(bits: 256)` -/
def abiEncode (value : ℤ) : Outcome (List UInt8) := do
  ABIValue.validateSignedInteger value 256
  let encoded := if value < 0 then 2 ^ 256 - value.natAbs else value.natAbs
  ofOption (setLengthLeft (serialize encoded) 32)

def encodeBigInt (value : ℤ) (data : Data) : Outcome Data := do
  let valueData ← abiEncode value
  append data valueData

def encodeInt (value : ℕ) (data : Data) : Outcome Data := encodeBigInt value data

def encodeBytes (bytes : Data) (isStatic : Bool) (data : Data) : Outcome Data := do
  if isStatic then ABIType.validate (.bytes (Int64.ofNat bytes.bytes.length)) else ok ()
  let data ← if isStatic then ok data else encodeInt bytes.bytes.length data
  let padded ← ABIValue.paddedCount bytes.bytes.length
  let padding ← subInt padded bytes.bytes.length
  let data ← append data bytes.bytes
  append data (List.replicate padding 0)

def encodeAddress (address : Data) (data : Data) : Outcome Data := do
  let addressData ← ofOption (Abi.evmAddress20 address.bytes)
  let padding ← subInt 32 addressData.length
  let data ← append data (List.replicate padding 0)
  append data addressData

def encodeString (string : Text) (data : Data) : Outcome Data := do
  let bytes ← Data.ofBytes (Text.utf8 string)
  encodeBytes bytes false data

variable [Host]

def encodeSignature (signature : Text) (data : Data) : Outcome Data := do
  let bytes ← Data.ofBytes (Text.utf8 signature)
  let hash := Host.hash bytes.bytes
  check (4 ≤ hash.length)
  append data (hash.take 4)

def headSize : List ABIValue → ℕ → Outcome ℕ
  | [], size => ok size
  | value :: values, size => do
    value.validate
    let width ← (if value.isDynamic then ok 32 else value.length)
    let size ← addInt size width
    headSize values size

/-- `encode(tuple:)` with its two loops over the encoded members -/
def encodeLoops (heads : ℕ → Data → Outcome Data) (tails : Data → Outcome Data)
    (tuple : List ABIValue) (data : Data) : Outcome Data := do
  let headSize ← headSize tuple 0
  let data ← heads headSize data
  tails data

mutual
def encodeOf : ABIValue → Data → Outcome Data
  | .uint _ value, data => encodeBigUInt value data
  | .int _ value, data => encodeBigInt value data
  | .address address, data => encodeAddress address data
  | .bool value, data => encodeBool value data
  | .fixed _ _ value, data => encodeBigInt value data
  | .ufixed _ _ value, data => encodeBigUInt value data
  | .bytes bytes, data => encodeBytes bytes true data
  | .function name parameters values, data => do
    let data ← encodeSignature (ABIType.description (.function name parameters)) data
    encodeLoops (fun headSize => encodeHeads headSize values 0) (encodeTails values) values data
  | .array _ values, data =>
    encodeLoops (fun headSize => encodeHeads headSize values 0) (encodeTails values) values data
  | .dynamicBytes bytes, data => encodeBytes bytes false data
  | .string string, data => encodeString string data
  | .dynamicArray _ values, data => do
    let data ← encodeInt values.length data
    encodeLoops (fun headSize => encodeHeads headSize values 0) (encodeTails values) values data
  | .tuple values, data =>
    encodeLoops (fun headSize => encodeHeads headSize values 0) (encodeTails values) values data

def encodeHeads (headSize : ℕ) : List ABIValue → ℕ → Data → Outcome Data
  | [], _, data => ok data
  | value :: values, dynamicOffset, data =>
    if value.isDynamic then do
      let offset ← addInt headSize dynamicOffset
      let data ← encodeInt offset data
      let length ← value.length
      let dynamicOffset ← addInt dynamicOffset length
      encodeHeads headSize values dynamicOffset data
    else do
      value.validate
      let data ← encodeOf value data
      encodeHeads headSize values dynamicOffset data

def encodeTails : List ABIValue → Data → Outcome Data
  | [], data => ok data
  | value :: values, data =>
    if value.isDynamic then do
      value.validate
      let data ← encodeOf value data
      encodeTails values data
    else encodeTails values data
end

def encode (value : ABIValue) (data : Data) : Outcome Data := do
  value.validate
  encodeOf value data

def encodeTuple (tuple : List ABIValue) (data : Data) : Outcome Data :=
  encodeLoops (fun headSize => encodeHeads headSize tuple 0) (encodeTails tuple) tuple data

end TronlinkCore.Solidity
