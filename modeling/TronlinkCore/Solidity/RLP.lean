import TronlinkCore.Library.MachineInt
import TronlinkCore.Library.Rlp
import TronlinkCore.Library.Text
import TronlinkCore.Solidity.Encoder

namespace TronlinkCore.Solidity.RLP

open Outcome MachineInt BigEndian

inductive Element where
  | string (string : Text)
  | list (elements : List Element)
  | int (number : Int64)
  | int64 (number : Int64)
  | bigInt (bigint : ℤ)
  | bigUInt (biguint : ℕ)
  | data (data : Data)
  | other

def byte (value : UInt64) : Outcome UInt8 := if value.toNat < 256 then ok value.toUInt8 else trap

def addUInt8 (a b : UInt8) : Outcome UInt8 := if a.toNat + b.toNat < 256 then ok (a + b) else trap

def putint (i : UInt64) : Outcome (List UInt8) :=
  if i.toNat < 2 ^ 8 then do
    let first ← byte i
    ok [first]
  else if i.toNat < 2 ^ 16 then do
    let first ← byte (i >>> 8)
    ok [first, i.toUInt8]
  else if i.toNat < 2 ^ 24 then do
    let first ← byte (i >>> 16)
    ok [first, (i >>> 8).toUInt8, i.toUInt8]
  else if i.toNat < 2 ^ 32 then do
    let first ← byte (i >>> 24)
    ok [first, (i >>> 16).toUInt8, (i >>> 8).toUInt8, i.toUInt8]
  else if i.toNat < 2 ^ 40 then do
    let first ← byte (i >>> 32)
    ok [first, (i >>> 24).toUInt8, (i >>> 16).toUInt8, (i >>> 8).toUInt8, i.toUInt8]
  else if i.toNat < 2 ^ 48 then do
    let first ← byte (i >>> 40)
    ok [first, (i >>> 32).toUInt8, (i >>> 24).toUInt8, (i >>> 16).toUInt8, (i >>> 8).toUInt8, i.toUInt8]
  else if i.toNat < 2 ^ 56 then do
    let first ← byte (i >>> 48)
    ok [first, (i >>> 40).toUInt8, (i >>> 32).toUInt8, (i >>> 24).toUInt8, (i >>> 16).toUInt8, (i >>> 8).toUInt8,
      i.toUInt8]
  else do
    let first ← byte (i >>> 56)
    ok [first, (i >>> 48).toUInt8, (i >>> 40).toUInt8, (i >>> 32).toUInt8, (i >>> 24).toUInt8, (i >>> 16).toUInt8,
      (i >>> 8).toUInt8, i.toUInt8]

def encodeHeader (size : UInt64) (smallTag largeTag : UInt8) : Outcome (List UInt8) :=
  if size < 56 then do
    let size ← byte size
    let tag ← addUInt8 smallTag size
    ok [tag]
  else do
    let sizeData ← putint size
    let count ← byte (UInt64.ofNat sizeData.length)
    let tag ← addUInt8 largeTag count
    ok (tag :: sizeData)

def encodeData (data : Data) : Outcome Data :=
  if data.bytes.length = 1 ∧ data.bytes.headD 0 ≤ 0x7f then ok data
  else do
    let encoded ← encodeHeader (UInt64.ofNat data.bytes.length) 0x80 0xb7
    Data.ofBytes (encoded ++ data.bytes)

def encodeString (string : Text) : Outcome Data := do
  let data ← Data.ofBytes (Text.utf8 string)
  encodeData data

def encodeBigUInt (number : ℕ) : Outcome Data := do
  let encoded ← Data.ofBytes (serialize number)
  if encoded.bytes = [] then Data.ofBytes [0x80] else encodeData encoded

def encodeBigInt (number : ℤ) : Outcome Data := do
  ensure (0 ≤ number)
  encodeBigUInt number.natAbs

def encodeUInt64 (number : UInt64) : Outcome Data := encodeBigUInt number.toNat

def encodeInt64 (number : Int64) : Outcome Data := do
  ensure (0 ≤ number)
  encodeUInt64 number.toUInt64

-- `UInt` and `Int` have 64 bits.
def encodeUInt (number : UInt64) : Outcome Data := encodeBigUInt number.toNat

def encodeInt (number : Int64) : Outcome Data := do
  ensure (0 ≤ number)
  encodeUInt number.toUInt64

def encodeSequence (encodedData : Data) : Outcome Data := do
  let encoded ← encodeHeader (UInt64.ofNat encodedData.bytes.length) 0xc0 0xf7
  Data.ofBytes (encoded ++ encodedData.bytes)

mutual

def encode : Element → Outcome Data
  | .string string => encodeString string
  | .list elements => do
    let encodedData ← encodeElements elements ⟨[], Nat.zero_le _⟩
    encodeSequence encodedData
  | .int number => encodeInt number
  | .int64 number => encodeInt64 number
  | .bigInt bigint => encodeBigInt bigint
  | .bigUInt biguint => encodeBigUInt biguint
  | .data data => encodeData data
  | .other => fail

def encodeElements : List Element → Data → Outcome Data
  | [], encodedData => ok encodedData
  | element :: elements, encodedData => do
    let encoded ← encode element
    let encodedData ← append encodedData encoded.bytes
    encodeElements elements encodedData

end

end TronlinkCore.Solidity.RLP
