import TronlinkCore.Library.Exceptions
import TronlinkCore.Library.IntTexts

namespace TronlinkCore.Keystore

open Exceptions Outcome Text

namespace DerivationPath

structure Index where
  value : Int64
  hardened : Bool
  deriving DecidableEq

namespace Index

def exactly? (value : Int64) : Option UInt32 :=
  if 0 ≤ value.toInt ∧ value.toInt < 2 ^ 32 then some (UInt32.ofNat value.toInt.toNat) else none

def derivationIndex (index : Index) : Option UInt32 := do
  let number ← exactly? index.value
  some (if index.hardened then number ||| 0x80000000 else number)

def description (index : Index) : Text :=
  if index.hardened then ofInt64 index.value ++ ['\''] else ofInt64 index.value

end Index

end DerivationPath

structure DerivationPath where
  indices : List DerivationPath.Index
  deriving DecidableEq

namespace DerivationPath

section

variable [Segmentation]

/-- `split(separator:)`: the parts are lists of Characters, and empty ones are left out. -/
def split (string : Text) (separator : Char) : List (List Text) :=
  ((Segmentation.characters string).splitOnP fun character => character = [separator]).filter (· ≠ [])

def index? (text : Text) (hardened : Bool) : Option Index := do
  let index ← int64? text
  let _ ← Index.exactly? index
  some ⟨index, hardened⟩

def component? (component : List Text) : Option Index :=
  if component.getLast? = some ['\''] then index? component.dropLast.flatten true
  else index? component.flatten false

def indices? : List (List Text) → Option (List Index)
  | [] => some []
  | component :: components =>
    if component.flatten = ['m'] then indices? components
    else do
      let index ← component? component
      let indices ← indices? components
      some (index :: indices)

def ofString (string : Text) : Option DerivationPath := (indices? (split string '/')).map DerivationPath.mk

end

def description (path : DerivationPath) : Text :=
  "m/".toList ++ ['/'].intercalate (path.indices.map Index.description)

def next (path : DerivationPath) : Outcome DerivationPath :=
  match path.indices.getLast? with
  | none => trap
  | some last => do
    let value ← (if last.value = Int64.maxValue then trap else ok (last.value + 1))
    ok ⟨path.indices.dropLast ++ [{ last with value }]⟩

def increment (path : DerivationPath) : Outcome DerivationPath := path.next

def incremented (path : DerivationPath) : Outcome DerivationPath := path.next

end DerivationPath

inductive WalletError where
  | invalidDerivationPath
  | invalidSeed
  | keyDerivationFailed
  | cleared
  deriving DecidableEq

/-- `hdnode_from_seed` and `hdnode_private_ckd` -/
class HDNodes where
  Node : Type
  fromSeed : List UInt8 → Option Node
  privateCkd : Node → UInt32 → Option Node

structure HDWallet where
  /-- Cleared with `clear()` -/
  seed : Option (List UInt8)
  path : Text

namespace HDWallet

variable (wallet : HDWallet)

def getDerivationPath [Segmentation] (index : Int64) : Except WalletError DerivationPath :=
  match DerivationPath.ofString (wallet.path.flatMap fun c => if c = 'x' then ofInt64 index else [c]) with
  | some path => .ok path
  | none => .error .invalidDerivationPath

section

variable [HDNodes]

def derive (node : HDNodes.Node) (index : DerivationPath.Index) : Except WalletError HDNodes.Node := do
  let derivationIndex ← unlessNone .invalidDerivationPath index.derivationIndex
  unlessNone .keyDerivationFailed (HDNodes.privateCkd node derivationIndex)

def getKeyFor (derivationPath : DerivationPath) : Except WalletError HDNodes.Node := do
  let seed ← unlessNone .cleared wallet.seed
  let node ← unlessNone .invalidSeed (HDNodes.fromSeed seed)
  derivationPath.indices.foldlM derive node

def getKey [Segmentation] (index : Int64) : Except WalletError HDNodes.Node := do
  let path ← wallet.getDerivationPath index
  wallet.getKeyFor path

end

end HDWallet

end TronlinkCore.Keystore
