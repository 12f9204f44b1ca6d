import TronlinkCore.Solidity.Writing

namespace TronlinkCore.Solidity

open Outcome MachineInt

/-- The casts of an `Any` that `ABIValue.init(_:type:)` tries -/
class DynamicCasts (Any : Type) where
  asInt : Any → Option Int64
  asUInt : Any → Option UInt64
  asBigUInt : Any → Option ℕ
  asBigInt : Any → Option ℤ
  asAddress : Any → Option Data
  asBool : Any → Option Bool
  asData : Any → Option Data
  asString : Any → Option Text
  asArray : Any → Option (List Any)

namespace ABIValue

open DynamicCasts

variable [Host]

def checked (type : ABIType) (create : Outcome ABIValue) : Outcome ABIValue := do
  type.validate
  let value ← create
  value.validate
  ok value

variable {Any : Type} [DynamicCasts Any]

mutual
def ofAny : ABIType → Any → Outcome ABIValue
  | .uint bits, value => checked (.uint bits) <|
    match asInt value, asUInt value, asBigUInt value with
    | some n, _, _ => do
      ensure (0 ≤ n)
      ok (.uint bits n.toNatClampNeg)
    | none, some n, _ => ok (.uint bits n.toNat)
    | none, none, some n => ok (.uint bits n)
    | none, none, none => fail
  | .int bits, value => checked (.int bits) <|
    match asInt value, asBigInt value with
    | some n, _ => ok (.int bits n.toInt)
    | none, some n => ok (.int bits n)
    | none, none => fail
  | .address, value => checked .address ((ofOption (asAddress value)).bind fun address => ok (.address address))
  | .bool, value => checked .bool ((ofOption (asBool value)).bind fun value => ok (.bool value))
  | .fixed bits scale, value => checked (.fixed bits scale) <|
    (ofOption (asBigInt value)).bind fun n => ok (.fixed bits scale n)
  | .ufixed bits scale, value => checked (.ufixed bits scale) <|
    (ofOption (asBigUInt value)).bind fun n => ok (.ufixed bits scale n)
  | .bytes count, value => checked (.bytes count) do
    let data ← ofOption (asData value)
    ensure (data.bytes.length ≤ count.toInt)
    let padded ← Data.ofBytes (data.bytes ++ List.replicate (count.toNatClampNeg - data.bytes.length) 0)
    ok (.bytes padded)
  | .function name parameters, value => checked (.function name parameters) do
    let arguments ← ofOption (asArray value)
    ensure (arguments.length = parameters.length)
    let values ← ofAnys parameters arguments
    ok (.function name parameters values)
  | .array type count, value => checked (.array type count) do
    let array ← ofOption (asArray value)
    ensure (array.length = count.toInt)
    let values ← array.mapM fun value => ofAny type value
    ok (.array type values)
  | .dynamicBytes, value => checked .dynamicBytes <|
    match asData value, asString value with
    | some data, _ => ok (.dynamicBytes data)
    | none, some text => (Data.ofBytes (Text.utf8 text)).bind fun data => ok (.dynamicBytes data)
    | none, none => fail
  | .string, value => checked .string ((ofOption (asString value)).bind fun text => ok (.string text))
  | .dynamicArray type, value => checked (.dynamicArray type) do
    let array ← ofOption (asArray value)
    let values ← array.mapM fun value => ofAny type value
    ok (.dynamicArray type values)
  | .tuple types, value => checked (.tuple types) do
    let array ← ofOption (asArray value)
    ensure (array.length = types.length)
    let values ← ofAnys types array
    ok (.tuple values)

def ofAnys : List ABIType → List Any → Outcome (List ABIValue)
  | type :: types, value :: values => do
    let first ← ofAny type value
    let rest ← ofAnys types values
    ok (first :: rest)
  | _, _ => ok []
end

end ABIValue

variable [Host] {Any : Type} [DynamicCasts Any]

def castArguments (parameters : List ABIType) (values : List Any) : Outcome (List ABIValue) := do
  ensure (values.length = parameters.length)
  ABIValue.ofAnys parameters values

def ABIEncoder.encodeFunction (name : Text) (parameters : List ABIType) (arguments : List Any) : Writing Unit := do
  let values ← call (castArguments parameters arguments)
  encodeSignature (ABIType.description (.function name parameters))
  encodeTuple values

theorem ABIValue.validate_of_ofAny {type : ABIType} {any : Any} {value : ABIValue} (h : ofAny type any = ok value) :
    value.validate = ok () := by
  have validated {create : Outcome ABIValue} (h : checked type create = ok value) : value.validate = ok () := by
    obtain ⟨_, _, h⟩ := bind_eq_ok.mp h
    obtain ⟨created, _, h⟩ := bind_eq_ok.mp h
    obtain ⟨_, hvalidate, h⟩ := bind_eq_ok.mp h
    cases h
    exact hvalidate
  cases type with
  | _ =>
    rw [ofAny] at h
    exact validated h

theorem ABIValue.validate_of_ofAnys {types : List ABIType} {anys : List Any} {values : List ABIValue}
    (h : ofAnys types anys = ok values) : ∀ value ∈ values, value.validate = ok () := by
  induction types generalizing anys values with
  | nil =>
    rw [ofAnys.eq_2 _ _ (by simp)] at h
    cases h
    simp
  | cons type types ih =>
    cases anys with
    | nil =>
      rw [ofAnys.eq_2 _ _ (by simp)] at h
      cases h
      simp
    | cons any anys =>
      rw [ofAnys] at h
      obtain ⟨first, hfirst, h⟩ := bind_eq_ok.mp h
      obtain ⟨rest, hrest, h⟩ := bind_eq_ok.mp h
      cases h
      exact List.forall_mem_cons.mpr ⟨validate_of_ofAny hfirst, ih hrest⟩

theorem validate_of_castArguments {parameters : List ABIType} {arguments : List Any} {values : List ABIValue}
    (h : castArguments parameters arguments = ok values) : ∀ value ∈ values, value.validate = ok () := by
  obtain ⟨_, _, h⟩ := bind_eq_ok.mp h
  exact ABIValue.validate_of_ofAnys h

end TronlinkCore.Solidity
