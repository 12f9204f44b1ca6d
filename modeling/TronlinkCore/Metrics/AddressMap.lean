import Mathlib.Data.Finset.Basic
import Mathlib.Data.List.AList
import TronlinkCore.Metrics.Database
import TronlinkCore.Web3.Amounts

/-!
`TRXAddressMapManager`: the ids under which the statistics of addresses are
kept, in memory and in `AddressMapTable`. A call of `id(for:)` reads, generates
and checks again in three steps, between which other calls take theirs.
-/

namespace TronlinkCore.Metrics

open Web3 (Whitespace trimming)

abbrev Dictionary := AList fun _ : Text => Text

namespace Dictionary

def values (d : Dictionary) : Finset Text := (d.entries.map Sigma.snd).toFinset

end Dictionary

structure MappingStore where
  mappings : Dictionary
  assets : AssetSyncTable
  transactions : TransactionSyncTable

namespace MappingStore

/-- `saveAddressMappings(_:deletingMetricsFor:)`, which is one database transaction -/
def saveAddressMappings (mapping : Dictionary) (removedIds : Finset Text) (works : Bool) (store : MappingStore) :
    MappingStore :=
  if works then
    let deleted := removedIds \ Dictionary.values mapping
    { mappings := mapping
      assets := store.assets.delete fun row => ∃ uId ∈ row.uId, uId ∈ deleted
      transactions := store.transactions.delete fun row => ∃ uId ∈ row.uId, uId ∈ deleted }
  else store

def upsertAddressMapping (address uuid : Text) (works : Bool) (store : MappingStore) : MappingStore :=
  if works then { store with mappings := store.mappings.insert address uuid } else store

/-- A query that is not prepared gives nothing; a reading that stops early gives the rows before. -/
def loadAllAddressMappings (prepares : Bool) (stops : Option ℕ) (store : MappingStore) : Option Dictionary :=
  if prepares then
    some ⟨fetched stops store.mappings.entries, store.mappings.nodupKeys.sublist (fetched_sublist _ _)⟩
  else none

end MappingStore

inductive PendingCall where
  | missed (address : Text)
  | generated (address result : Text)
  deriving DecidableEq

structure AddressMapManager where
  mapping : Dictionary
  usedIds : Finset Text
  persistenceDisabled : Bool
  calls : List PendingCall
  store : MappingStore
  /-- No code reads it: which writes to the store have succeeded. -/
  writes : List Bool

/-- What `init(store:defaults:)` finds, and which of its calls succeed -/
structure Launch where
  /-- `TRXAddressRandomIdMapping`, where it is a dictionary of strings -/
  legacy : Option Dictionary
  isPending : Bool
  removedIds : Finset Text
  store : MappingStore
  migrates : Bool
  prepares : Bool
  stops : Option ℕ

namespace Launch

def snapshot (launch : Launch) : Option Dictionary :=
  launch.legacy.filter fun legacy => launch.isPending || !legacy.entries.isEmpty

def loaded (launch : Launch) : Option Dictionary :=
  launch.store.loadAllAddressMappings launch.prepares launch.stops

end Launch

namespace AddressMapManager

def initial (launch : Launch) : AddressMapManager :=
  match launch.snapshot with
  | some legacy =>
    let store := launch.store.saveAddressMappings legacy launch.removedIds launch.migrates
    if launch.migrates then ⟨legacy, Dictionary.values legacy, false, [], store, [true]⟩
    else ⟨∅, ∅, false, [], store, [false]⟩
  | none =>
    match launch.loaded with
    | some stored => ⟨stored, Dictionary.values stored, false, [], launch.store, []⟩
    | none => ⟨∅, ∅, true, [], launch.store, []⟩

def persistNewMapping (works : Text → Bool) (s : AddressMapManager) (added : Text × Text) : AddressMapManager :=
  { s with
    store := s.store.upsertAddressMapping added.1 added.2 (works added.1)
    writes := s.writes ++ [works added.1] }

def persistNewMappings (added : List (Text × Text)) (works : Text → Bool) (s : AddressMapManager) :
    AddressMapManager :=
  if s.persistenceDisabled then s else added.foldl (persistNewMapping works) s

def persistMapping (removedIds : Finset Text) (works : Bool) (s : AddressMapManager) : AddressMapManager :=
  if s.persistenceDisabled then s
  else { s with
    store := s.store.saveAddressMappings s.mapping removedIds works
    writes := s.writes ++ [works] }

def unused (usedIds : Finset Text) (drawn : List Text) : Option Text := drawn.find? fun id => id ∉ usedIds

/-- The loop of `generateMappings`; `draws` are the results of `UUID()` for an address. -/
def generated (draws : Text → List Text) : List Text → Dictionary → Finset Text →
    Option (Dictionary × Finset Text × List (Text × Text))
  | [], mapping, usedIds => some (mapping, usedIds, [])
  | address :: addresses, mapping, usedIds =>
    if address ∈ mapping then generated draws addresses mapping usedIds
    else do
      let newId ← unused usedIds (draws address)
      let (mapping, usedIds, added) ← generated draws addresses (mapping.insert address newId) (insert newId usedIds)
      some (mapping, usedIds, (address, newId) :: added)

end AddressMapManager

inductive AddressMapAction where
  | read (address : Text)
  | generate (call : ℕ) (uuid : Text)
  /-- The barrier of a call of `id(for:)` -/
  | recheck (call : ℕ) (draws : List Text) (works : Bool)
  | generateMappings (addresses : List Text) (draws : Text → List Text) (works : Text → Bool)
  | removeMapping (address : Text) (works : Bool)
  | resetAllMappings (works : Bool)
  /-- Others change the statistics. -/
  | collect (assets : AssetSyncTable) (transactions : TransactionSyncTable)

namespace AddressMapManager

variable [Whitespace]

def normalizeAddress (address : Text) : Text := trimming address

def step (s : AddressMapManager) : AddressMapAction → AddressMapManager
  | .read address =>
    match s.mapping.lookup (normalizeAddress address) with
    | some _ => s
    | none => { s with calls := s.calls ++ [.missed (normalizeAddress address)] }
  | .generate call uuid =>
    match s.calls[call]? with
    | some (.missed address) => { s with calls := s.calls.set call (.generated address uuid) }
    | _ => s
  | .recheck call draws works =>
    match s.calls[call]? with
    | some (.generated address result) =>
      match s.mapping.lookup address with
      | some _ => { s with calls := s.calls.eraseIdx call }
      | none =>
        match unused s.usedIds (result :: draws) with
        | some id =>
          persistNewMappings [(address, id)] (fun _ => works) { s with
            mapping := s.mapping.insert address id
            usedIds := insert id s.usedIds
            calls := s.calls.eraseIdx call }
        | none => s
    | _ => s
  | .generateMappings addresses draws works =>
    match generated draws (addresses.map normalizeAddress).dedup s.mapping s.usedIds with
    | some (mapping, usedIds, added) => persistNewMappings added works { s with mapping, usedIds }
    | none => s
  | .removeMapping address works =>
    match s.mapping.lookup (normalizeAddress address) with
    | some id =>
      persistMapping {id} works { s with
        mapping := s.mapping.erase (normalizeAddress address)
        usedIds := s.usedIds.erase id }
    | none => s
  | .resetAllMappings works => persistMapping s.usedIds works { s with mapping := ∅, usedIds := ∅ }
  | .collect assets transactions => { s with store := { s.store with assets, transactions } }

def returns (s : AddressMapManager) : AddressMapAction → Option (Text × Text)
  | .read address => (s.mapping.lookup (normalizeAddress address)).map fun id => (normalizeAddress address, id)
  | .recheck call draws _ =>
    match s.calls[call]? with
    | some (.generated address result) =>
      ((s.mapping.lookup address).or (unused s.usedIds (result :: draws))).map fun id => (address, id)
    | _ => none
  | _ => none

def clears (address : Text) : AddressMapAction → Bool
  | .removeMapping removed _ => normalizeAddress removed = address
  | .resetAllMappings _ => true
  | _ => false

def run (s : AddressMapManager) (actions : List AddressMapAction) : AddressMapManager := actions.foldl step s

end AddressMapManager

end TronlinkCore.Metrics
