import TronlinkCore.Metrics.Ledger

/-!
A migration takes nothing away from the statistics, unless it writes a record
over a row that counts an event or is above the record.
-/

namespace TronlinkCore.Metrics

def total [DecimalNumbers] (column : Option Text) : ℚ := (metricsDecimalNumber (column.getD [])).getD 0

structure TransactionRow.NoLess [DecimalNumbers] (row later : TransactionRow) : Prop where
  counter : row.counter ≤ later.counter
  tokenAmount : total row.tokenAmount ≤ total later.tokenAmount
  energy : total row.energy ≤ total later.energy
  bandwidth : total row.bandwidth ≤ total later.bandwidth
  burn : total row.burn ≤ total later.burn
  bucket : ∀ i, ((row.bucket i).getD 0).toInt ≤ ((later.bucket i).getD 0).toInt

theorem TransactionRow.NoLess.refl [DecimalNumbers] (row : TransactionRow) : row.NoLess row :=
  ⟨le_rfl, le_rfl, le_rfl, le_rfl, le_rfl, fun _ => le_rfl⟩

def TransactionSyncModel.Covers [DecimalNumbers] (model : TransactionSyncModel) (row : TransactionRow) : Prop :=
  (∀ count ∈ model.count, row.counter ≤ count.toInt) ∧
    (∀ amount ∈ model.tokenAmount, total row.tokenAmount ≤ total (some amount)) ∧
    (∀ energy ∈ model.energy, total row.energy ≤ total (some energy)) ∧
    (∀ bandwidth ∈ model.bandwidth, total row.bandwidth ≤ total (some bandwidth)) ∧
    (∀ burn ∈ model.burn, total row.burn ≤ total (some burn)) ∧
    ∀ i, ∀ bucket ∈ model.bucket i, ((row.bucket i).getD 0).toInt ≤ bucket.toInt

instance [DecimalNumbers] (model : TransactionSyncModel) (row : TransactionRow) : Decidable (model.Covers row) :=
  inferInstanceAs (Decidable (_ ∧ _))

theorem le_or {α β : Type} [Preorder β] (f : Option α → β) {new old : Option α}
    (h : ∀ a ∈ new, f old ≤ f (some a)) : f old ≤ f (new.or old) := by
  cases new with
  | none => exact le_rfl
  | some a => exact h a rfl

theorem TransactionSyncModel.Covers.noLess [DecimalNumbers] {model : TransactionSyncModel} {row : TransactionRow}
    (h : model.Covers row) : row.NoLess (TransactionRow.set model row) := by
  obtain ⟨hcount, hamount, henergy, hbandwidth, hburn, hbucket⟩ := h
  constructor
  · exact le_or (fun count : Option Int64 => (count.getD 0).toInt) hcount
  · exact le_or total hamount
  · exact le_or total henergy
  · exact le_or total hbandwidth
  · exact le_or total hburn
  · intro i
    exact le_or (fun bucket : Option Int64 => (bucket.getD 0).toInt) (hbucket i)

theorem upsertTransactionSync_noLess [DecimalNumbers] {model : TransactionSyncModel} {works : Bool}
    {table table' : TransactionSyncTable} (h : upsertTransactionSync model works table = some table')
    (hcovers : ∀ row, table.find? model.key = some row → model.Covers row) {i : ℕ} {row : TransactionRow}
    (hi : table.rows[i]? = some row) : ∃ later, table'.rows[i]? = some later ∧ row.NoLess later := by
  obtain ⟨old, written, hold, htransform, rfl⟩ | ⟨written, hnone, htransform, hinsert⟩ :=
    mutateTransactionSync_eq_some h
  · cases htransform
    rw [Table.update, List.getElem?_map, hi]
    refine ⟨_, rfl, ?_⟩
    simp only
    split
    · rename_i hkey
      exact (hcovers row (Table.find?_eq_some.mpr ⟨List.mem_of_getElem? hi, hkey⟩)).noLess
    · exact .refl row
  · have hlt : i < table.rows.length := (List.getElem?_eq_some_iff.mp hi).1
    rw [(Table.insert?_eq_some hinsert).1, List.getElem?_append_left hlt]
    exact ⟨row, hi, .refl row⟩

namespace System

def inMigration (s : System) : Bool := s.queue.head? matches some (.migrating _ _ _ _)

/-- No row is deleted, and a legacy record is written only where no event is counted and over a row it covers. -/
def Undisturbed [DecimalNumbers] (s : System) : Action → Prop
  | .proceed around => s.deleting = false ∧ (around.works = true →
      ∀ model ∈ s.migrating, s.ledger.held model.key = [] ∧
        ∀ row ∈ s.transactions.find? model.key, model.Covers row)
  | _ => True

instance [DecimalNumbers] (s : System) : (a : Action) → Decidable (s.Undisturbed a)
  | .proceed _ => inferInstanceAs (Decidable (_ ∧ _))
  | .upsertTransactionsData _ _ _ _ _ | .upsertAssetData _ _ _ | .uploadStatisticalData _ | .process _ | .answer _ _ =>
    inferInstanceAs (Decidable True)

structure Preserved (s : System) : Prop where
  tallies : s.ledger.Tallies s.transactions
  kept : ∀ id < s.ledger.events, ∃ key, id ∈ s.ledger.held key

theorem Preserved.of_initial {s : System} (h : s.Initial) : s.Preserved where
  tallies := Ledger.tallies_of_initial h
  kept id hid := by
    rw [h.events] at hid
    cases hid

section

variable [CanonicalText] [Graphemes] [DecimalNumbers]

theorem Preserved.kept_step {s : System} {a : Action} (h : s.Preserved) (ha : s.Undisturbed a) {id : ℕ}
    (hid : id < (s.step a).ledger.events) : ∃ key, id ∈ (s.step a).ledger.held key := by
  have hchange := step_change s a
  generalize (s.step a).transactions = table at hchange
  generalize (s.step a).ledger = l at hchange hid ⊢
  cases hchange with
  | kept => exact h.kept id hid
  | @saved event config uId date works table hsave =>
    obtain hid | rfl := Nat.lt_succ_iff_lt_or_eq.mp hid
    · obtain ⟨key, hmem⟩ := h.kept id hid
      exact ⟨key, s.ledger.mem_held_save hmem⟩
    · exact ⟨event.key config uId date, s.ledger.mem_held_save_self _⟩
  | @migrated around written table hm hwrite =>
    obtain ⟨key, hmem⟩ := h.kept id hid
    refine ⟨key, ?_⟩
    by_cases hne : key = written.key
    · subst hne
      rw [(ha.2 (works_of_mutateTransactionSync hwrite) written hm).1] at hmem
      cases hmem
    · rwa [s.ledger.held_migrate_of_ne hne]
  | cleared => exact h.kept id hid
  | deleted hd =>
    rw [ha.1] at hd
    cases hd

theorem preserved {s : System} (h : Run Undisturbed s) : s.Preserved :=
  h.invariant (fun _ hs => .of_initial hs) fun s a ha hp =>
    ⟨(step_change s a).tallies hp.tallies, fun _ hid => hp.kept_step ha hid⟩

theorem migration_preserves {s : System} (h : Run Undisturbed s) :
    (∀ around, s.inMigration → s.Undisturbed (.proceed around) →
      ∀ (i : ℕ) (row : TransactionRow), s.transactions.rows[i]? = some row →
        ∃ later, (s.step (.proceed around)).transactions.rows[i]? = some later ∧ row.NoLess later) ∧
    ∀ id < s.ledger.events, ∃ key row, s.transactions.find? key = some row ∧ id ∈ s.ledger.held key ∧
      (s.ledger.held key).Nodup ∧ (s.ledger.held key).length ≤ row.counter := by
  have hp := preserved h
  constructor
  · intro around hin ha i row hi
    have hchange := step_change s (.proceed around)
    generalize (s.step (.proceed around)).transactions = table at hchange ⊢
    generalize (s.step (.proceed around)).ledger = l at hchange
    cases hchange with
    | kept => exact ⟨row, hi, .refl row⟩
    | migrated hm hwrite =>
      exact upsertTransactionSync_noLess hwrite (ha.2 (works_of_mutateTransactionSync hwrite) _ hm).2 hi
    | cleared ht _ =>
      obtain ⟨_, _, _, _, hack⟩ := ht
      rw [inMigration, hack] at hin
      cases hin
    | deleted hd =>
      rw [ha.1] at hd
      cases hd
  · intro id hid
    obtain ⟨key, hmem⟩ := hp.kept id hid
    cases hrow : s.transactions.find? key with
    | none =>
      rw [hp.tallies.absent key hrow] at hmem
      cases hmem
    | some row =>
      obtain hnil | hcounter := hp.tallies.counter key row hrow
      · rw [hnil] at hmem
        cases hmem
      · exact ⟨key, row, hrow, hmem, hp.tallies.nodup key, hcounter⟩

end

section

attribute [local instance] plainText precomposedText wholeNumbers

def sampleLegacy (tokenAddress : Text) : TransactionSyncModel where
  uId := some sampleUId
  idType := some 1
  actionType := some 1
  count := some 1
  tokenAddress := some tokenAddress
  tokenAmount := some "7".toList
  energy := some []
  bandwidth := some []
  burn := some []
  date := some sampleDay
  bucket := fun i => if i = 1 then some 1 else none
  chain := some sampleSource.environmentKey
  updated := some true

def sampleMigration (tokenAddress : Text) (works : Bool) : Action :=
  .proceed ⟨some sampleSource, [], [sampleLegacy tokenAddress], sampleUId, sampleDay, works, none⟩

def migratedActions : List Action :=
  [sampleSave, .uploadStatisticalData (some sampleSource), sampleMigration "U".toList true,
    sampleMigration "U".toList false, sampleSave, sampleMigration "U".toList true,
    .proceed ⟨none, [], [], sampleUId, sampleDay, true, none⟩, .uploadStatisticalData (some sampleSource),
    sampleMigration "U".toList true]

def unmigrated : System := { sampleSystem with migrated := fun _ => false }

theorem unmigrated_initial : unmigrated.Initial := ⟨rfl, rfl, rfl, rfl, rfl⟩

theorem migration_preserves_sample :
    ∃ later, ((migratedActions.foldl step unmigrated).step (sampleMigration "U".toList true)).transactions.rows[0]? =
      some later ∧ 2 ≤ later.counter := by
  have hallowed (s : System) (a : Action) (h : decide (s.Undisturbed a)) : s.Undisturbed a := of_decide_eq_true h
  have hrun : Run Undisturbed (migratedActions.foldl step unmigrated) :=
    .foldl hallowed (.start unmigrated_initial) (by decide +kernel)
  have hstored : ((migratedActions.foldl step unmigrated).transactions.rows[0]?).any
      fun row : TransactionRow => 2 ≤ row.counter := by decide +kernel
  obtain ⟨row, hrow, hcounter⟩ := (Option.any_eq_true _ _).mp hstored
  obtain ⟨later, hlater, hless⟩ := (migration_preserves hrun).1
    ⟨some sampleSource, [], [sampleLegacy "U".toList], sampleUId, sampleDay, true, none⟩ (by decide +kernel)
    (by decide +kernel) 0 row hrow
  exact ⟨later, hlater, (of_decide_eq_true hcounter).trans hless.counter⟩

def overwrittenActions : List Action :=
  [sampleSave, sampleSave, .uploadStatisticalData (some sampleSource), sampleMigration "_".toList true]

theorem migration_may_lose :
    ∃ s a row later, Run (fun s _ => s.deleting = false) s ∧ s.inMigration ∧ s.transactions.rows[0]? = some row ∧
      (s.step a).transactions.rows[0]? = some later ∧ row.counter = 2 ∧ later.counter = 1 := by
  have hallowed (s : System) (a : Action) (h : !s.deleting) : s.deleting = false := by simpa using h
  have hrun : Run (fun s _ => s.deleting = false) (overwrittenActions.foldl step unmigrated) :=
    .foldl hallowed (.start unmigrated_initial) (by decide +kernel)
  have hbefore : ((overwrittenActions.foldl step unmigrated).transactions.rows[0]?).any
      fun row : TransactionRow => row.counter = 2 := by decide +kernel
  have hafter :
      (((overwrittenActions.foldl step unmigrated).step (sampleMigration "_".toList true)).transactions.rows[0]?).any
        fun row : TransactionRow => row.counter = 1 := by decide +kernel
  obtain ⟨row, hrow, hcounter⟩ := (Option.any_eq_true _ _).mp hbefore
  obtain ⟨later, hlater, hless⟩ := (Option.any_eq_true _ _).mp hafter
  exact ⟨_, _, row, later, hrun, by decide +kernel, hrow, hlater,
    of_decide_eq_true hcounter, of_decide_eq_true hless⟩

end

end System

end TronlinkCore.Metrics
