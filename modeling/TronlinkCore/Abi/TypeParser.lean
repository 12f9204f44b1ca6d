import TronlinkCore.Abi.TypeNames
import TronlinkCore.Abi.Values

/-!
`ABIv2TypeParser`: recursive descent over the UTF-8 bytes of a type name. The
parser's position is the list of bytes that are left.
-/

namespace TronlinkCore.Abi

open Outcome MachineInt

def isLetter (b : UInt8) : Bool := 97 ≤ b && b ≤ 122

def consume (byte : UInt8) : List UInt8 → Option (List UInt8)
  | b :: rest => if b = byte then some rest else none
  | [] => none

theorem consume_eq_some {byte : UInt8} {bytes rest : List UInt8} :
    consume byte bytes = some rest ↔ bytes = byte :: rest := by
  cases bytes with
  | nil => simp [consume]
  | cons b bytes =>
    rw [consume, List.cons.injEq]
    split
    · rename_i h
      simp [h]
    · rename_i h
      simp [h]

def parseDigits (digits : List UInt8) : Outcome UInt64 := do
  let digits ← ofOption (Text.ofUtf8? digits)
  ofOption (uint64? digits)

def parseWidth (digits : List UInt8) : Outcome (Option UInt64) :=
  if digits = [] then ok none
  else do
    ensure (digits.head? ≠ some 48)
    let parsed ← parseDigits digits
    ok (some parsed)

def parseFixed (width : Option UInt64) (bytes : List UInt8) : Outcome (UInt64 × UInt64 × List UInt8) :=
  match width with
  | some width => do
    let bytes ← ofOption (consume 120 bytes)
    let digits := bytes.takeWhile isDigitByte
    ensure (digits ≠ [] ∧ digits.head? ≠ some 48)
    let parsed ← parseDigits digits
    ok (width, parsed, bytes.dropWhile isDigitByte)
  | none => ok (128, 18, bytes)

def namedType (name : Text) (width : Option UInt64) (depth : ℕ) (bytes : List UInt8) :
    Outcome (ParameterType × List UInt8) :=
  if name = "uint".toList then ok (.uint (width.getD 256), bytes)
  else if name = "int".toList then ok (.int (width.getD 256), bytes)
  else if name = "fixed".toList ∨ name = "ufixed".toList then do
    let (bits, decimals, bytes) ← parseFixed width bytes
    ok (if name = "fixed".toList then .fixed bits decimals else .ufixed bits decimals, bytes)
  else if name = "bytes".toList then
    match width with
    | some width => ok (.bytes width, bytes)
    | none => ok (.dynamicBytes, bytes)
  else if name = "address".toList ∧ width = none then ok (.address, bytes)
  else if name = "bool".toList ∧ width = none then ok (.bool, bytes)
  else if name = "function".toList ∧ width = none then ok (.function, bytes)
  else if name = "string".toList ∧ width = none then ok (.string, bytes)
  -- components of a JSON ABI are resolved by its reader
  else if name = "tuple".toList ∧ width = none ∧ depth = 0 then ok (.tuple [], bytes)
  else fail

def parseName (depth : ℕ) (bytes : List UInt8) : Outcome (ParameterType × List UInt8) := do
  let name ← ofOption (Text.ofUtf8? (bytes.takeWhile isLetter))
  let bytes := bytes.dropWhile isLetter
  let width ← parseWidth (bytes.takeWhile isDigitByte)
  namedType name width depth (bytes.dropWhile isDigitByte)

def parseLength (bytes : List UInt8) : Outcome (UInt64 × List UInt8) := do
  let digits := bytes.takeWhile isDigitByte
  ensure (digits ≠ [] ∧ (digits.length = 1 ∨ digits.head? ≠ some 48))
  let parsed ← parseDigits digits
  let bytes ← ofOption (consume 93 (bytes.dropWhile isDigitByte))
  ok (parsed, bytes)

def parseSuffix (type : ParameterType) (bytes : List UInt8) : Outcome (ParameterType × List UInt8) :=
  match consume 93 bytes with
  | some bytes => ok (.array type 0, bytes)
  | none => do
    let (parsed, bytes) ← parseLength bytes
    ok (if parsed = 0 then .fixedArray type 0 else .array type parsed, bytes)

-- A loop that does not advance is a trap, here and in the list of components.
def parseArrays (type : ParameterType) (depth : ℕ) (bytes : List UInt8) : Outcome (ParameterType × List UInt8) := do
  let _ ← layout type depth maxNodes
  match consume 91 bytes with
  | none => ok (type, bytes)
  | some rest => do
    let (type, rest) ← parseSuffix type rest
    if _ : rest.length < bytes.length then parseArrays type depth rest else trap
termination_by bytes.length

def parseComponents (parseType : List UInt8 → Outcome (ParameterType × List UInt8)) (bytes : List UInt8) :
    Outcome (List ParameterType × List UInt8) := do
  let (component, rest) ← parseType bytes
  match consume 41 rest with
  | some rest => ok ([component], rest)
  | none => do
    let rest ← ofOption (consume 44 rest)
    if _ : rest.length < bytes.length then do
      let (components, rest) ← parseComponents parseType rest
      ok (component :: components, rest)
    else trap
termination_by bytes.length

def parseTuple (parseType : List UInt8 → Outcome (ParameterType × List UInt8)) (bytes : List UInt8) :
    Outcome (ParameterType × List UInt8) :=
  match consume 41 bytes with
  | some bytes => ok (.tuple [], bytes)
  | none => do
    let (components, bytes) ← parseComponents parseType bytes
    ok (.tuple components, bytes)

def parseBase (parseType : List UInt8 → Outcome (ParameterType × List UInt8)) (depth : ℕ) (bytes : List UInt8) :
    Outcome (ParameterType × List UInt8) :=
  match consume 40 bytes with
  | some bytes => parseTuple parseType bytes
  | none => parseName depth bytes

-- `levels` bounds the nesting of the calls: a call beyond it is a trap.
def parseLevels : ℕ → ℕ → List UInt8 → Outcome (ParameterType × List UInt8)
  | 0, _, _ => trap
  | levels + 1, depth, bytes => do
    ensure (depth < maxDepth)
    let (baseType, bytes) ← parseBase (fun bytes => do
      let depth ← addInt depth 1
      parseLevels levels depth bytes) depth bytes
    parseArrays baseType depth bytes

def parseType (depth : ℕ) (bytes : List UInt8) : Outcome (ParameterType × List UInt8) :=
  parseLevels (maxDepth + 1) depth bytes

def parseTypeString (string : Text) : Outcome ParameterType := do
  let (type, rest) ← parseType 0 (Text.utf8 string)
  ensure (rest = [])
  ok type

namespace ParameterType

mutual
def equal : ParameterType → ParameterType → Bool
  | .uint length1, .uint length2 => length1 = length2
  | .int length1, .int length2 => length1 = length2
  | .fixed bits1 decimals1, .fixed bits2 decimals2 => bits1 = bits2 && decimals1 = decimals2
  | .ufixed bits1 decimals1, .ufixed bits2 decimals2 => bits1 = bits2 && decimals1 = decimals2
  | .address, .address => true
  | .bool, .bool => true
  | .bytes length1, .bytes length2 => length1 = length2
  | .function, .function => true
  | .array type1 length1, .array type2 length2 => equal type1 type2 && length1 = length2
  | .fixedArray type1 length1, .fixedArray type2 length2 => equal type1 type2 && length1 = length2
  | .array type1 length1, .fixedArray type2 length2 => 0 < length1 && length1 = length2 && equal type1 type2
  | .fixedArray type1 length1, .array type2 length2 => 0 < length1 && length1 = length2 && equal type1 type2
  | .tuple types1, .tuple types2 => equals types1 types2
  | .dynamicBytes, .dynamicBytes => true
  | .string, .string => true
  | _, _ => false

def equals : List ParameterType → List ParameterType → Bool
  | [], [] => true
  | type1 :: types1, type2 :: types2 => equal type1 type2 && equals types1 types2
  | _, _ => false
end

end ParameterType

end TronlinkCore.Abi
