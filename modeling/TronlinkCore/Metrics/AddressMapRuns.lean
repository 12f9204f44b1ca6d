import TronlinkCore.Metrics.AddressMap

namespace TronlinkCore.Metrics

open Web3 (Whitespace)

namespace Dictionary

def DistinctIds (d : Dictionary) : Prop := ∀ a b id, d.lookup a = some id → d.lookup b = some id → a = b

def Same (d d' : Dictionary) : Prop := ∀ address, d.lookup address = d'.lookup address

def inserting (d : Dictionary) (added : List (Text × Text)) : Dictionary :=
  added.foldl (fun d new => d.insert new.1 new.2) d

theorem Same.insert {d d' : Dictionary} (h : Same d d') (address id : Text) :
    Same (d.insert address id) (d'.insert address id) := by
  intro other
  by_cases hother : other = address
  · rw [hother, AList.lookup_insert, AList.lookup_insert]
  · rw [AList.lookup_insert_ne hother, AList.lookup_insert_ne hother, h other]

theorem Same.inserting {d d' : Dictionary} (h : Same d d') (added : List (Text × Text)) :
    Same (d.inserting added) (d'.inserting added) := by
  induction added generalizing d d' with
  | nil => exact h
  | cons new added ih => exact ih (h.insert new.1 new.2)

end Dictionary

open Dictionary

/-- `usedIds` are the ids of the mapping, and no id is given twice. -/
structure Consistent (mapping : Dictionary) (usedIds : Finset Text) : Prop where
  used : ∀ id, id ∈ usedIds ↔ ∃ address, mapping.lookup address = some id
  distinct : DistinctIds mapping

theorem consistent_empty : Consistent ∅ ∅ where
  used id := by simp
  distinct a b id ha := by
    rw [AList.lookup_empty] at ha
    cases ha

theorem Consistent.insert {mapping : Dictionary} {usedIds : Finset Text} {address id : Text}
    (h : Consistent mapping usedIds) (haddress : mapping.lookup address = none) (hid : id ∉ usedIds) :
    Consistent (mapping.insert address id) (insert id usedIds) := by
  have hfresh (other : Text) : mapping.lookup other ≠ some id := fun hother => hid ((h.used id).mpr ⟨other, hother⟩)
  have hlookup (other : Text) :
      (mapping.insert address id).lookup other = if other = address then some id else mapping.lookup other := by
    split
    · rename_i heq
      rw [heq, AList.lookup_insert]
    · rename_i hne
      exact AList.lookup_insert_ne hne
  constructor
  case used =>
    intro other
    rw [Finset.mem_insert, h.used other]
    constructor
    · rintro (rfl | ⟨a, ha⟩)
      · exact ⟨address, AList.lookup_insert _⟩
      · refine ⟨a, ?_⟩
        rw [hlookup, if_neg, ha]
        rintro rfl
        rw [haddress] at ha
        cases ha
    · rintro ⟨a, ha⟩
      rw [hlookup] at ha
      split at ha
      · exact .inl (Option.some.inj ha).symm
      · exact .inr ⟨a, ha⟩
  case distinct =>
    intro a b other ha hb
    rw [hlookup] at ha hb
    split at ha <;> split at hb
    · rename_i hea heb
      rw [hea, heb]
    · cases ha
      exact absurd hb (hfresh b)
    · cases hb
      exact absurd ha (hfresh a)
    · exact h.distinct a b other ha hb

theorem Consistent.erase {mapping : Dictionary} {usedIds : Finset Text} {address id : Text}
    (h : Consistent mapping usedIds) (haddress : mapping.lookup address = some id) :
    Consistent (mapping.erase address) (usedIds.erase id) := by
  have hlookup {other found : Text} (hother : (mapping.erase address).lookup other = some found) :
      other ≠ address ∧ mapping.lookup other = some found := by
    by_cases heq : other = address
    · rw [heq, AList.lookup_erase] at hother
      cases hother
    · rw [AList.lookup_erase_ne heq] at hother
      exact ⟨heq, hother⟩
  constructor
  case used =>
    intro other
    rw [Finset.mem_erase, h.used other]
    constructor
    · rintro ⟨hne, a, ha⟩
      refine ⟨a, ?_⟩
      rw [AList.lookup_erase_ne, ha]
      rintro rfl
      rw [haddress] at ha
      exact hne (Option.some.inj ha).symm
    · rintro ⟨a, ha⟩
      obtain ⟨hne, ha⟩ := hlookup ha
      refine ⟨?_, a, ha⟩
      rintro rfl
      exact hne (h.distinct a address other ha haddress)
  case distinct =>
    intro a b other ha hb
    exact h.distinct a b other (hlookup ha).2 (hlookup hb).2

namespace AddressMapManager

theorem not_used {usedIds : Finset Text} {drawn : List Text} {id : Text} (h : unused usedIds drawn = some id) :
    id ∉ usedIds := by
  have hfound := List.find?_some h
  simpa using hfound

theorem generated_eq_some {draws : Text → List Text} {addresses : List Text} {mapping mapping' : Dictionary}
    {usedIds usedIds' : Finset Text} {added : List (Text × Text)}
    (h : generated draws addresses mapping usedIds = some (mapping', usedIds', added)) :
    mapping' = mapping.inserting added ∧ (Consistent mapping usedIds → Consistent mapping' usedIds') ∧
      ∀ address id, mapping.lookup address = some id → mapping'.lookup address = some id := by
  induction addresses generalizing mapping usedIds added with
  | nil =>
    cases h
    exact ⟨rfl, id, fun _ _ => id⟩
  | cons address addresses ih =>
    unfold generated at h
    split at h
    · exact ih h
    · rename_i habsent
      simp only [Option.bind_eq_bind, Option.bind_eq_some_iff] at h
      obtain ⟨newId, hnew, ⟨m, u, rest⟩, hrest, h⟩ := h
      cases h
      have hlookup : mapping.lookup address = none := AList.lookup_eq_none.mpr habsent
      obtain ⟨heq, hconsistent, hkept⟩ := ih hrest
      refine ⟨heq, fun hmapping => hconsistent (hmapping.insert hlookup (not_used hnew)), ?_⟩
      intro other id hother
      apply hkept
      rw [AList.lookup_insert_ne, hother]
      rintro rfl
      rw [hlookup] at hother
      cases hother

section

variable (added : List (Text × Text)) (works : Text → Bool) (removedIds : Finset Text) (write : Bool)
  (s : AddressMapManager)

theorem foldl_persistNewMapping :
    (added.foldl (persistNewMapping works) s).mapping = s.mapping ∧
      (added.foldl (persistNewMapping works) s).usedIds = s.usedIds ∧
      (added.foldl (persistNewMapping works) s).persistenceDisabled = s.persistenceDisabled := by
  induction added generalizing s with
  | nil => exact ⟨rfl, rfl, rfl⟩
  | cons new added ih => exact ih _

@[simp] theorem persistNewMappings_mapping : (persistNewMappings added works s).mapping = s.mapping := by
  unfold persistNewMappings
  split
  · rfl
  · exact (foldl_persistNewMapping added works s).1

@[simp] theorem persistNewMappings_usedIds : (persistNewMappings added works s).usedIds = s.usedIds := by
  unfold persistNewMappings
  split
  · rfl
  · exact (foldl_persistNewMapping added works s).2.1

@[simp] theorem persistNewMappings_disabled :
    (persistNewMappings added works s).persistenceDisabled = s.persistenceDisabled := by
  unfold persistNewMappings
  split
  · rfl
  · exact (foldl_persistNewMapping added works s).2.2

@[simp] theorem persistMapping_mapping : (persistMapping removedIds write s).mapping = s.mapping := by
  unfold persistMapping
  split <;> rfl

@[simp] theorem persistMapping_usedIds : (persistMapping removedIds write s).usedIds = s.usedIds := by
  unfold persistMapping
  split <;> rfl

@[simp] theorem persistMapping_disabled :
    (persistMapping removedIds write s).persistenceDisabled = s.persistenceDisabled := by
  unfold persistMapping
  split <;> rfl

theorem foldl_persistNewMapping_store
    (h : ∀ write ∈ (added.foldl (persistNewMapping works) s).writes, write = true) :
    (∀ write ∈ s.writes, write = true) ∧
      (added.foldl (persistNewMapping works) s).store.mappings = s.store.mappings.inserting added := by
  induction added generalizing s with
  | nil => exact ⟨h, rfl⟩
  | cons new added ih =>
    obtain ⟨hwrites, hstore⟩ := ih _ h
    have hnew : works new.1 = true := hwrites _ (List.mem_append_right _ List.mem_cons_self)
    refine ⟨fun write hwrite => hwrites write (List.mem_append_left _ hwrite), hstore.trans ?_⟩
    rw [persistNewMapping, MappingStore.upsertAddressMapping, hnew, if_pos rfl]
    rfl

end

variable [Whitespace]

inductive Change (s : AddressMapManager) (a : AddressMapAction) : AddressMapManager → Prop where
  | kept {t : AddressMapManager} (mapping : t.mapping = s.mapping) (usedIds : t.usedIds = s.usedIds)
      (disabled : t.persistenceDisabled = s.persistenceDisabled) (table : t.store.mappings = s.store.mappings)
      (writes : t.writes = s.writes) : Change s a t
  | added {usedIds : Finset Text} {calls : List PendingCall} (added : List (Text × Text)) (works : Text → Bool)
      (consistent : Consistent s.mapping s.usedIds → Consistent (s.mapping.inserting added) usedIds)
      (keeps : ∀ address id, s.mapping.lookup address = some id →
        (s.mapping.inserting added).lookup address = some id) :
      Change s a (persistNewMappings added works { s with mapping := s.mapping.inserting added, usedIds, calls })
  | removed {mapping : Dictionary} {usedIds : Finset Text} (removedIds : Finset Text) (works : Bool)
      (consistent : Consistent s.mapping s.usedIds → Consistent mapping usedIds)
      (keeps : ∀ address, clears address a = false → mapping.lookup address = s.mapping.lookup address) :
      Change s a (persistMapping removedIds works { s with mapping, usedIds })

theorem step_change (s : AddressMapManager) (a : AddressMapAction) : Change s a (s.step a) := by
  cases a with
  | read address =>
    rw [step]
    split
    · exact .kept rfl rfl rfl rfl rfl
    · exact .kept rfl rfl rfl rfl rfl
  | generate call uuid =>
    rw [step]
    split
    · exact .kept rfl rfl rfl rfl rfl
    · exact .kept rfl rfl rfl rfl rfl
  | recheck call draws works =>
    rw [step]
    split
    · split
      · exact .kept rfl rfl rfl rfl rfl
      · rename_i address result _ _ hnone
        split
        · rename_i id hid
          refine .added [(address, id)] (fun _ => works) (fun h => h.insert hnone (not_used hid)) ?_
          intro other found hother
          change (s.mapping.insert address id).lookup other = some found
          rw [AList.lookup_insert_ne, hother]
          rintro rfl
          rw [hnone] at hother
          cases hother
        · exact .kept rfl rfl rfl rfl rfl
    · exact .kept rfl rfl rfl rfl rfl
  | generateMappings addresses draws works =>
    rw [step]
    split
    · rename_i mapping usedIds added hgenerated
      obtain ⟨rfl, hconsistent, hkept⟩ := generated_eq_some hgenerated
      exact .added added works hconsistent hkept
    · exact .kept rfl rfl rfl rfl rfl
  | removeMapping address works =>
    rw [step]
    split
    · rename_i id hid
      refine .removed {id} works (fun h => h.erase hid) ?_
      intro other hother
      apply AList.lookup_erase_ne
      rintro rfl
      simp [clears] at hother
    · exact .kept rfl rfl rfl rfl rfl
  | resetAllMappings works =>
    refine .removed s.usedIds works (fun _ => consistent_empty) ?_
    intro other hother
    cases hother
  | collect assets transactions => exact .kept rfl rfl rfl rfl rfl

def Stored (s : AddressMapManager) : Prop :=
  s.persistenceDisabled = false ∧ ((∀ write ∈ s.writes, write = true) → Same s.store.mappings s.mapping)

variable {s t : AddressMapManager} {a : AddressMapAction}

theorem Change.consistent (h : Change s a t) (hs : Consistent s.mapping s.usedIds) :
    Consistent t.mapping t.usedIds := by
  cases h with
  | kept mapping usedIds => rwa [mapping, usedIds]
  | added added works consistent =>
    rw [persistNewMappings_mapping, persistNewMappings_usedIds]
    exact consistent hs
  | removed removedIds works consistent =>
    rw [persistMapping_mapping, persistMapping_usedIds]
    exact consistent hs

theorem Change.lookup (h : Change s a t) {address id : Text} (hclears : clears address a = false)
    (hs : s.mapping.lookup address = some id) : t.mapping.lookup address = some id := by
  cases h with
  | kept mapping => rwa [mapping]
  | added added works _ keeps =>
    rw [persistNewMappings_mapping]
    exact keeps address id hs
  | removed removedIds works _ keeps =>
    rw [persistMapping_mapping]
    exact (keeps address hclears).trans hs

theorem Change.stored (h : Change s a t) (hs : Stored s) : Stored t := by
  obtain ⟨henabled, hsame⟩ := hs
  cases h with
  | kept mapping _ disabled table writes =>
    refine ⟨disabled.trans henabled, ?_⟩
    rwa [writes, table, mapping]
  | added added works =>
    refine ⟨(persistNewMappings_disabled _ _ _).trans henabled, ?_⟩
    intro hwrites
    rw [persistNewMappings_mapping]
    rw [persistNewMappings, if_neg (by rw [henabled]; decide)] at hwrites ⊢
    obtain ⟨hbefore, hstore⟩ := foldl_persistNewMapping_store _ _ _ hwrites
    rw [hstore]
    exact (hsame hbefore).inserting added
  | removed removedIds works =>
    refine ⟨(persistMapping_disabled _ _ _).trans henabled, ?_⟩
    intro hwrites
    rw [persistMapping, if_neg (by rw [henabled]; decide)] at hwrites ⊢
    have hworks : works = true := hwrites works (List.mem_append_right _ List.mem_cons_self)
    intro address
    rw [MappingStore.saveAddressMappings, if_pos hworks]

end AddressMapManager

namespace Launch

variable {launch : Launch}

end Launch

open AddressMapManager

section

attribute [local instance] Web3.asciiWhitespace

end

end TronlinkCore.Metrics
