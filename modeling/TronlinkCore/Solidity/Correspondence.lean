import TronlinkCore.Abi.Trees
import TronlinkCore.Solidity.Values

namespace TronlinkCore.Solidity

open Outcome MachineInt HeadTail
open Abi (ParameterType AnyObject FixedPoint)
open Abi.ParameterType (skeletons)

namespace ABIType

mutual
def parameterType : ABIType → ParameterType
  | .uint bits => .uint bits.toUInt64
  | .int bits => .int bits.toUInt64
  | .address => .address
  | .bool => .bool
  | .fixed bits scale => .fixed bits.toUInt64 scale.toUInt64
  | .ufixed bits scale => .ufixed bits.toUInt64 scale.toUInt64
  | .bytes count => .bytes count.toUInt64
  | .function _ _ => .function
  | .array type count => .fixedArray type.parameterType count.toUInt64
  | .dynamicBytes => .dynamicBytes
  | .string => .string
  | .dynamicArray type => .array type.parameterType 0
  | .tuple types => .tuple (parameterTypes types)

def parameterTypes : List ABIType → List ParameterType
  | [] => []
  | type :: types => type.parameterType :: parameterTypes types
end

mutual
def hasDynamicFunction : ABIType → Bool
  | .function _ parameters => anyDynamic parameters
  | .array type _ => type.hasDynamicFunction
  | .tuple types => anyDynamicFunction types
  | _ => false

def anyDynamicFunction : List ABIType → Bool
  | [] => false
  | type :: types => type.hasDynamicFunction || anyDynamicFunction types
end

@[simp] theorem parameterTypes_length (types : List ABIType) : (parameterTypes types).length = types.length := by
  induction types with
  | nil => rfl
  | cons t ts ih => rw [parameterTypes, List.length_cons, ih, List.length_cons]

theorem isDynamic_eq (t : ABIType) (h : t.hasDynamicFunction = false) :
    t.isDynamic = !isStatic t.parameterType.skeleton := by
  induction t using ABIType.induct with
  | tuple ts ih =>
    rw [isDynamic, parameterType, ParameterType.skeleton, isStatic]
    rw [hasDynamicFunction] at h
    induction ts with
    | nil => rfl
    | cons t ts ihs =>
      obtain ⟨ht, hts⟩ : t.hasDynamicFunction = false ∧ anyDynamicFunction ts = false := by
        simpa [anyDynamicFunction] using h
      rw [anyDynamic, parameterTypes, skeletons, allStatic, Bool.not_and, ih t (by simp) ht,
        ihs (fun s hs => ih s (List.mem_cons_of_mem _ hs)) hts]
  | array t n ih =>
    rw [hasDynamicFunction] at h
    rw [isDynamic, parameterType, ParameterType.skeleton, isStatic, ih h]
  | function f ts ih => exact h
  | dynamicArray t ih => rfl
  | uint | int | address | bool | fixed | ufixed | bytes | dynamicBytes | string => rfl

theorem parameterType_of_equal [Host] {a b : ABIType} (h : equal a b = true) : a.parameterType = b.parameterType := by
  induction a using ABIType.induct generalizing b with
  | tuple ts ih =>
    cases b with
    | tuple us =>
      rw [equal] at h
      rw [parameterType, parameterType]
      congr 1
      induction ts generalizing us with
      | nil =>
        cases us with
        | nil => rfl
        | cons u us => simp [equals] at h
      | cons t ts ihs =>
        cases us with
        | nil => simp [equals] at h
        | cons u us =>
          obtain ⟨ht, hts⟩ : equal t u = true ∧ equals ts us = true := by simpa [equals] using h
          rw [parameterTypes, parameterTypes, ih t (by simp) ht,
            ihs (fun s hs => ih s (List.mem_cons_of_mem _ hs)) us hts]
    | _ => simp [equal] at h
  | array t n ih =>
    cases b with
    | array u m =>
      obtain ⟨ht, rfl⟩ : equal t u = true ∧ n = m := by simpa [equal] using h
      rw [parameterType, parameterType, ih ht]
    | _ => simp [equal] at h
  | dynamicArray t ih =>
    cases b with
    | dynamicArray u =>
      rw [equal] at h
      rw [parameterType, parameterType, ih h]
    | _ => simp [equal] at h
  | function f ts ih =>
    cases b with
    | function g us => rfl
    | _ => simp [equal] at h
  | uint | int | address | bool | fixed | ufixed | bytes | dynamicBytes | string =>
    cases b <;> simp_all [equal, parameterType]

end ABIType

def fixedPointObject (value : ℤ) (scale : Int64) : AnyObject :=
  match FixedPoint.ofScaled value scale.toUInt64 with
  | some exact => .fixedPoint exact
  | none => .other

namespace ABIValue

mutual
def object : ABIValue → AnyObject
  | .uint _ value => .bigUInt value
  | .int _ value => .bigInt value
  | .address data => .data data.bytes
  | .bool value => .number (if value then 1 else 0)
  | .fixed _ scale value => fixedPointObject value scale
  | .ufixed _ scale value => fixedPointObject value scale
  | .bytes data => .data data.bytes
  | .function _ _ _ => .other
  | .array _ values => .array (objects values)
  | .dynamicBytes data => .data data.bytes
  | .string text => .string text
  | .dynamicArray _ values => .array (objects values)
  | .tuple values => .array (objects values)

def objects : List ABIValue → List AnyObject
  | [] => []
  | value :: values => value.object :: objects values
end

mutual
def hasFunction : ABIValue → Bool
  | .function _ _ _ => true
  | .array type values => type.hasDynamicFunction || anyFunction values
  | .dynamicArray _ values => anyFunction values
  | .tuple values => anyFunction values
  | _ => false

def anyFunction : List ABIValue → Bool
  | [] => false
  | value :: values => value.hasFunction || anyFunction values
end

theorem hasFunction_of_mem {vs : List ABIValue} {v : ABIValue} (h : anyFunction vs = false) (hv : v ∈ vs) :
    v.hasFunction = false := by
  induction vs with
  | nil => simp at hv
  | cons w vs ih =>
    obtain ⟨hw, hvs⟩ : w.hasFunction = false ∧ anyFunction vs = false := by simpa [anyFunction] using h
    rcases List.mem_cons.mp hv with rfl | hv
    · exact hw
    · exact ih hvs hv

theorem types_eq_map (vs : List ABIValue) : types vs = vs.map type := by
  induction vs with
  | nil => rfl
  | cons v vs ih => rw [types, ih, List.map_cons]

@[simp] theorem types_length (vs : List ABIValue) : (types vs).length = vs.length := by
  rw [types_eq_map, List.length_map]

@[simp] theorem objects_length (vs : List ABIValue) : (objects vs).length = vs.length := by
  induction vs with
  | nil => rfl
  | cons v vs ih => rw [objects, List.length_cons, ih, List.length_cons]

theorem isDynamic_eq (v : ABIValue) (h : v.hasFunction = false) :
    v.isDynamic = !isStatic v.type.parameterType.skeleton := by
  induction v using ABIValue.induct with
  | tuple vs ih =>
    rw [isDynamic, type, ABIType.parameterType, ParameterType.skeleton, isStatic]
    rw [hasFunction] at h
    induction vs with
    | nil => rfl
    | cons v vs ihs =>
      obtain ⟨hv, hvs⟩ : v.hasFunction = false ∧ anyFunction vs = false := by simpa [anyFunction] using h
      rw [anyDynamic, types, ABIType.parameterTypes, skeletons, allStatic, Bool.not_and, ih v (by simp) hv,
        ihs (fun w hw => ih w (List.mem_cons_of_mem _ hw)) hvs]
  | array t vs ih =>
    obtain ⟨ht, _⟩ : t.hasDynamicFunction = false ∧ anyFunction vs = false := by simpa [hasFunction] using h
    rw [isDynamic, type, ABIType.parameterType, ParameterType.skeleton, isStatic, t.isDynamic_eq ht]
  | function f ts vs ih => simp [hasFunction] at h
  | dynamicArray t vs ih => rfl
  | uint | int | address | bool | fixed | ufixed | bytes | dynamicBytes | string => rfl

variable [Host]

theorem parameterTypes_of_equal {t : ABIType} {vs : List ABIValue}
    (h : (types vs).all (ABIType.equal · t) = true) :
    ABIType.parameterTypes (types vs) = List.replicate vs.length t.parameterType := by
  induction vs with
  | nil => rfl
  | cons v vs ih =>
    obtain ⟨hv, hvs⟩ : ABIType.equal v.type t = true ∧ (types vs).all (ABIType.equal · t) = true := by
      simpa [types] using h
    rw [types, ABIType.parameterTypes, ABIType.parameterType_of_equal hv, ih hvs, List.length_cons,
      List.replicate_succ]

end ABIValue

end TronlinkCore.Solidity
