import TronlinkCore.Abi.Logs
import TronlinkCore.Abi.TypeNaming

namespace TronlinkCore.Abi

open Outcome MachineInt

inductive Input where
  | mk (name : Option Text) (type : Text) (indexed : Option Bool) (components : Option (List Input))

inductive Output where
  | mk (name : Option Text) (type : Text) (components : Option (List Output))

inductive TypeTree where
  | node (type : Text) (components : Option (List TypeTree))

namespace TypeTree

@[elab_as_elim]
theorem induct {P : TypeTree → Prop}
    (node : ∀ type components, (∀ cs, components = some cs → ∀ c ∈ cs, P c) → P (.node type components))
    (tree : TypeTree) : P tree :=
  @TypeTree.rec P (fun components => ∀ cs, components = some cs → ∀ c ∈ cs, P c) (fun cs => ∀ c ∈ cs, P c)
    node (by simp) (by rintro cs h _ ⟨⟩; exact h) (by simp) (fun _ _ hc hcs => by simp [hc]; exact hcs) tree

end TypeTree

mutual
def Input.tree : Input → TypeTree
  | .mk _ type _ components => .node type (inputComponents components)

def inputComponents : Option (List Input) → Option (List TypeTree)
  | none => none
  | some inputs => some (inputTrees inputs)

def inputTrees : List Input → List TypeTree
  | [] => []
  | input :: inputs => input.tree :: inputTrees inputs
end

mutual
def Output.tree : Output → TypeTree
  | .mk _ type components => .node type (outputComponents components)

def outputComponents : Option (List Output) → Option (List TypeTree)
  | none => none
  | some outputs => some (outputTrees outputs)

def outputTrees : List Output → List TypeTree
  | [] => []
  | output :: outputs => output.tree :: outputTrees outputs
end

def resolveTupleComponents (components : ℕ → Outcome (Option (List ParameterType))) :
    ParameterType → ℕ → Outcome ParameterType
  | .array subtype length, depth => do
    ensure (depth < maxDepth)
    let depth ← addInt depth 1
    let type ← resolveTupleComponents components subtype depth
    ok (.array type length)
  | .fixedArray subtype length, depth => do
    ensure (depth < maxDepth)
    let depth ← addInt depth 1
    let type ← resolveTupleComponents components subtype depth
    ok (.fixedArray type length)
  | .tuple _, depth => do
    ensure (depth < maxDepth)
    let depth ← addInt depth 1
    let types ← components depth
    let types ← ofOption types
    ok (.tuple types)
  | _, _ => fail

variable [Graphemes]

def resolved (string : Text) (parsed : ParameterType) (depth : ℕ)
    (components : ℕ → Outcome (Option (List ParameterType))) : Outcome ParameterType :=
  if Text.hasPrefix string "tuple".toList then resolveTupleComponents components parsed depth else ok parsed

def parseABIParameterType (string : Text) (depth : ℕ) (components : ℕ → Outcome (Option (List ParameterType))) :
    Outcome ParameterType := do
  ensure (depth < maxDepth)
  let parsed ← parseTypeString string
  let resolved ← resolved string parsed depth components
  let _ ← layout resolved depth maxNodes
  ok resolved

namespace TypeTree

mutual
def parameterType : TypeTree → ℕ → Outcome ParameterType
  | .node type components, depth => parseABIParameterType type depth fun componentDepth =>
    optionalTypes components componentDepth

def optionalTypes : Option (List TypeTree) → ℕ → Outcome (Option (List ParameterType))
  | none, _ => ok none
  | some components, depth => do
    let types ← parameterTypes components depth
    ok (some types)

def parameterTypes : List TypeTree → ℕ → Outcome (List ParameterType)
  | [], _ => ok []
  | component :: components, depth => do
    let type ← component.parameterType depth
    let types ← parameterTypes components depth
    ok (type :: types)
end

end TypeTree

structure InOut where
  name : Text
  type : ParameterType

def Input.parameterType (input : Input) (depth : ℕ) : Outcome ParameterType := input.tree.parameterType depth

def Output.parameterType (output : Output) (depth : ℕ) : Outcome ParameterType := output.tree.parameterType depth

def Input.parse : Input → Outcome InOut
  | .mk name type indexed components => do
    let parsed ← Input.parameterType (.mk name type indexed components) 0
    ok ⟨name.getD [], parsed⟩

def Input.parseForEvent : Input → Outcome EventInput
  | .mk name type indexed components => do
    let parsed ← Input.parameterType (.mk name type indexed components) 0
    ok ⟨name.getD [], parsed, indexed = some true⟩

def Output.parse : Output → Outcome InOut
  | .mk name type components => do
    let parsed ← Output.parameterType (.mk name type components) 0
    ok ⟨name.getD [], parsed⟩

end TronlinkCore.Abi
