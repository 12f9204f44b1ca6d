import TronlinkCore.Library.MachineInt
import TronlinkCore.Library.BigEndian
import TronlinkCore.Library.Text

namespace TronlinkCore.Solidity

open Outcome MachineInt BigEndian

class Host where
  /-- `EthereumCrypto.hash` -/
  hash : List UInt8 → List UInt8
  /-- `==` on strings -/
  sameText : Text → Text → Bool

@[reducible]
def plainHost : Host := ⟨id, fun f g => f == g⟩

inductive ABIType where
  | uint (bits : Int64)
  | int (bits : Int64)
  | address
  | bool
  | fixed (bits scale : Int64)
  | ufixed (bits scale : Int64)
  | bytes (count : Int64)
  /-- A `Function` is its name and its parameters. -/
  | function (name : Text) (parameters : List ABIType)
  | array (type : ABIType) (count : Int64)
  | dynamicBytes
  | string
  | dynamicArray (type : ABIType)
  | tuple (types : List ABIType)

inductive ABIValue where
  | uint (bits : Int64) (value : ℕ)
  | int (bits : Int64) (value : ℤ)
  | address (data : Data)
  | bool (value : Bool)
  | fixed (bits scale : Int64) (value : ℤ)
  | ufixed (bits scale : Int64) (value : ℕ)
  | bytes (data : Data)
  | function (name : Text) (parameters : List ABIType) (arguments : List ABIValue)
  | array (type : ABIType) (values : List ABIValue)
  | dynamicBytes (data : Data)
  | string (string : Text)
  | dynamicArray (type : ABIType) (values : List ABIValue)
  | tuple (values : List ABIValue)

namespace ABIType

@[elab_as_elim]
theorem induct {P : ABIType → Prop} (uint : ∀ b, P (.uint b)) (int : ∀ b, P (.int b)) (address : P .address)
    (bool : P .bool) (fixed : ∀ b s, P (.fixed b s)) (ufixed : ∀ b s, P (.ufixed b s)) (bytes : ∀ n, P (.bytes n))
    (function : ∀ f ts, (∀ t ∈ ts, P t) → P (.function f ts)) (array : ∀ t n, P t → P (.array t n))
    (dynamicBytes : P .dynamicBytes) (string : P .string) (dynamicArray : ∀ t, P t → P (.dynamicArray t))
    (tuple : ∀ ts, (∀ t ∈ ts, P t) → P (.tuple ts)) (t : ABIType) : P t :=
  @ABIType.rec P (fun ts => ∀ t ∈ ts, P t) uint int address bool fixed ufixed bytes function array dynamicBytes
    string dynamicArray tuple (by simp) (fun _ _ ht hts => by simp [ht]; exact hts) t

variable [Host]

mutual
def equal : ABIType → ABIType → Bool
  | .uint a, .uint b => a = b
  | .int a, .int b => a = b
  | .address, .address => true
  | .bool, .bool => true
  | .fixed a m, .fixed b n => a = b && m = n
  | .ufixed a m, .ufixed b n => a = b && m = n
  | .bytes a, .bytes b => a = b
  | .function f ts, .function g us => Host.sameText f g && equals ts us
  | .array t a, .array u b => equal t u && a = b
  | .dynamicBytes, .dynamicBytes => true
  | .string, .string => true
  | .dynamicArray t, .dynamicArray u => equal t u
  | .tuple ts, .tuple us => equals ts us
  | _, _ => false

def equals : List ABIType → List ABIType → Bool
  | [], [] => true
  | t :: ts, u :: us => equal t u && equals ts us
  | _, _ => false
end

omit [Host]

mutual
def validate : ABIType → Outcome Unit
  | .uint bits => ensure (8 ≤ bits ∧ bits ≤ 256 ∧ bits % 8 = 0)
  | .int bits => ensure (8 ≤ bits ∧ bits ≤ 256 ∧ bits % 8 = 0)
  | .fixed bits scale => ensure (8 ≤ bits ∧ bits ≤ 256 ∧ bits % 8 = 0 ∧ 1 ≤ scale ∧ scale ≤ 80)
  | .ufixed bits scale => ensure (8 ≤ bits ∧ bits ≤ 256 ∧ bits % 8 = 0 ∧ 1 ≤ scale ∧ scale ≤ 80)
  | .bytes count => ensure (1 ≤ count ∧ count ≤ 32)
  | .array type count => do
    ensure (0 ≤ count)
    type.validate
  | .dynamicArray type => type.validate
  | .tuple types => validateAll types
  | .function _ parameters => validateAll parameters
  | .address | .bool | .dynamicBytes | .string => ok ()

def validateAll : List ABIType → Outcome Unit
  | [] => ok ()
  | type :: types => do
    type.validate
    validateAll types
end

mutual
def isDynamic : ABIType → Bool
  | .uint _ | .int _ | .address | .bool | .fixed _ _ | .ufixed _ _ | .bytes _ => false
  | .dynamicBytes | .string | .dynamicArray _ => true
  | .array type _ => type.isDynamic
  | .tuple types => anyDynamic types
  | .function _ parameters => anyDynamic parameters

def anyDynamic : List ABIType → Bool
  | [] => false
  | type :: types => type.isDynamic || anyDynamic types
end

def functionDescription (name : Text) (parameters : List Text) : Text :=
  let string := name ++ '(' :: parameters.flatMap (· ++ [','])
  (if string.getLast? = some ',' then string.dropLast else string) ++ [')']

def number (n : Int64) : Text := n.toInt.repr.toList

mutual
def description : ABIType → Text
  | .uint bits => "uint".toList ++ number bits
  | .int bits => "int".toList ++ number bits
  | .address => "address".toList
  | .bool => "bool".toList
  | .fixed m n => "fixed".toList ++ number m ++ 'x' :: number n
  | .ufixed m n => "ufixed".toList ++ number m ++ 'x' :: number n
  | .bytes size => "bytes".toList ++ number size
  | .function name parameters => functionDescription name (descriptions parameters)
  | .array type size => type.description ++ '[' :: number size ++ [']']
  | .dynamicBytes => "bytes".toList
  | .string => "string".toList
  | .dynamicArray type => type.description ++ ['[', ']']
  | .tuple types => '(' :: joined (descriptions types) ++ [')']

def descriptions : List ABIType → List Text
  | [] => []
  | type :: types => type.description :: descriptions types
end

end ABIType

namespace ABIValue

@[elab_as_elim]
theorem induct {P : ABIValue → Prop} (uint : ∀ b v, P (.uint b v)) (int : ∀ b v, P (.int b v))
    (address : ∀ d, P (.address d)) (bool : ∀ b, P (.bool b)) (fixed : ∀ b s v, P (.fixed b s v))
    (ufixed : ∀ b s v, P (.ufixed b s v)) (bytes : ∀ d, P (.bytes d))
    (function : ∀ f ts vs, (∀ v ∈ vs, P v) → P (.function f ts vs))
    (array : ∀ t vs, (∀ v ∈ vs, P v) → P (.array t vs)) (dynamicBytes : ∀ d, P (.dynamicBytes d))
    (string : ∀ s, P (.string s)) (dynamicArray : ∀ t vs, (∀ v ∈ vs, P v) → P (.dynamicArray t vs))
    (tuple : ∀ vs, (∀ v ∈ vs, P v) → P (.tuple vs)) (v : ABIValue) : P v :=
  @ABIValue.rec P (fun vs => ∀ v ∈ vs, P v) uint int address bool fixed ufixed bytes function array dynamicBytes
    string dynamicArray tuple (by simp) (fun _ _ hv hvs => by simp [hv]; exact hvs) v

mutual
def type : ABIValue → ABIType
  | .uint bits _ => .uint bits
  | .int bits _ => .int bits
  | .address _ => .address
  | .bool _ => .bool
  | .fixed bits scale _ => .fixed bits scale
  | .ufixed bits scale _ => .ufixed bits scale
  | .bytes data => .bytes (Int64.ofNat data.bytes.length)
  | .function name parameters _ => .function name parameters
  | .array type values => .array type (Int64.ofNat values.length)
  | .dynamicBytes _ => .dynamicBytes
  | .string _ => .string
  | .dynamicArray type _ => .dynamicArray type
  | .tuple values => .tuple (types values)

def types : List ABIValue → List ABIType
  | [] => []
  | value :: values => value.type :: types values
end

mutual
def isDynamic : ABIValue → Bool
  | .uint _ _ | .int _ _ | .address _ | .bool _ | .fixed _ _ _ | .ufixed _ _ _ | .bytes _ => false
  | .dynamicBytes _ | .string _ | .dynamicArray _ _ => true
  | .array type _ => type.isDynamic
  | .function _ _ values => anyDynamic values
  | .tuple values => anyDynamic values

def anyDynamic : List ABIValue → Bool
  | [] => false
  | value :: values => value.isDynamic || anyDynamic values
end

def paddedCount (count : ℕ) : Outcome ℕ := do
  let sum ← addInt count 31
  ok (sum / 32 * 32)

mutual
def length : ABIValue → Outcome ℕ
  | .uint _ _ | .int _ _ | .address _ | .bool _ | .fixed _ _ _ | .ufixed _ _ _ => ok 32
  | .bytes data => paddedCount data.bytes.length
  | .function _ _ values => do
    let length ← tupleLength values 0
    addInt 4 length
  | .array _ values => tupleLength values 0
  | .dynamicBytes data => do
    let padded ← paddedCount data.bytes.length
    addInt 32 padded
  | .string text => do
    let data ← Data.ofBytes (Text.utf8 text)
    let padded ← paddedCount data.bytes.length
    addInt 32 padded
  | .dynamicArray _ values => do
    let length ← tupleLength values 0
    addInt 32 length
  | .tuple values => tupleLength values 0

-- Dynamic members contribute both a head offset and their encoded tail.
def tupleLength : List ABIValue → ℕ → Outcome ℕ
  | [], sum => ok sum
  | value :: values, sum => do
    let sum ← addInt sum (if value.isDynamic then 32 else 0)
    let length ← value.length
    let sum ← addInt sum length
    tupleLength values sum
end

def validateSignedInteger (value : ℤ) (bits : Int64) : Outcome Unit := do
  ABIType.validate (.int bits)
  let limit := 2 ^ (bits.toNatClampNeg - 1)
  ensure (if value < 0 then value.natAbs ≤ limit else value.natAbs < limit)

variable [Host]

mutual
def validate : ABIValue → Outcome Unit
  | .uint bits value => do
    ABIType.validate (.uint bits)
    ensure ((bitWidth value : ℤ) ≤ bits.toInt)
  | .ufixed bits scale value => do
    ABIType.validate (.ufixed bits scale)
    ensure ((bitWidth value : ℤ) ≤ bits.toInt)
  | .int bits value => do
    ABIType.validate (.int bits)
    validateSignedInteger value bits
  | .fixed bits scale value => do
    ABIType.validate (.fixed bits scale)
    validateSignedInteger value bits
  -- an array has an `Int` count
  | .array type values => do
    check (values.length ≤ intMax)
    ABIType.validate (.array type (Int64.ofNat values.length))
    ensure ((types values).all (ABIType.equal · type))
    validateAll values
  | .dynamicArray type values => do
    check (values.length ≤ intMax)
    ABIType.validate (.dynamicArray type)
    ensure ((types values).all (ABIType.equal · type))
    validateAll values
  | .tuple values => do
    ABIType.validate (.tuple (types values))
    validateAll values
  | .function name parameters values => do
    ABIType.validate (.function name parameters)
    ensure (values.length = parameters.length)
    validateArguments values parameters
  | .bytes data => ABIType.validate (.bytes (Int64.ofNat data.bytes.length))
  | .address _ | .bool _ | .dynamicBytes _ | .string _ => ok ()

def validateAll : List ABIValue → Outcome Unit
  | [] => ok ()
  | value :: values => do
    value.validate
    validateAll values

def validateArguments : List ABIValue → List ABIType → Outcome Unit
  | value :: values, type :: types => do
    ensure (ABIType.equal value.type type)
    value.validate
    validateArguments values types
  | _, _ => ok ()
end

end ABIValue

end TronlinkCore.Solidity
