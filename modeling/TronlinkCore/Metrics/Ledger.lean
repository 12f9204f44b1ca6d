import TronlinkCore.Metrics.System

namespace TronlinkCore.Metrics

def TransactionRow.counter (row : TransactionRow) : ℤ := (row.count.getD 0).toInt

def counterOf (row : Option TransactionRow) : ℤ := (row.map TransactionRow.counter).getD 0

theorem not_overflow {a b : Int64} (h : (addingReportingOverflow a b).2 = false) :
    (addingReportingOverflow a b).1.toInt = a.toInt + b.toInt := by
  simpa [addingReportingOverflow] using h

theorem insertedTransaction_key {model : TransactionSyncModel} {key : TransactionKey}
    (h : (insertedTransaction model).key = some key) : key = model.key := by
  cases ha : model.actionType with
  | none => simp [TransactionRow.key, insertedTransaction, ha] at h
  | some actionType =>
    simp only [TransactionRow.key, insertedTransaction, ha, Option.bind_eq_bind, Option.bind_some,
      Option.some.injEq] at h
    rw [← h, TransactionSyncModel.key, ha]
    rfl

theorem mutateTransactionSync_eq_some {key : TransactionKey}
    {transform : Option TransactionSyncModel → Option TransactionSyncModel} {works : Bool}
    {table table' : TransactionSyncTable} (h : mutateTransactionSync key transform works table = some table') :
    (∃ row model, table.find? key = some row ∧ transform (some (makeTransactionSync row)) = some model ∧
      table' = table.update key (TransactionRow.set model) (TransactionRow.set_key model)) ∨
    (∃ model, table.find? key = none ∧ transform none = some model ∧
      table.insert? (insertedTransaction model) = some table') := by
  simp only [mutateTransactionSync, Option.bind_eq_bind, Option.bind_eq_some_iff] at h
  obtain ⟨model, hmodel, h⟩ := h
  split at h
  · cases hrow : table.find? key with
    | none =>
      rw [hrow] at hmodel h
      exact .inr ⟨model, rfl, hmodel, h⟩
    | some row =>
      rw [hrow] at hmodel h
      simp only [Option.map_some, Option.isSome_some, if_true, updateTransactionSync_internal] at h
      split at h
      · cases h
      · cases h
        exact .inl ⟨row, model, rfl, hmodel, rfl⟩
  · cases h

theorem works_of_mutateTransactionSync {key : TransactionKey}
    {transform : Option TransactionSyncModel → Option TransactionSyncModel} {works : Bool}
    {table table' : TransactionSyncTable} (h : mutateTransactionSync key transform works table = some table') :
    works = true := by
  cases works with
  | true => rfl
  | false => simp [mutateTransactionSync] at h

theorem upsertTransactionSync_of_ne {model : TransactionSyncModel} {works : Bool}
    {table table' : TransactionSyncTable} (h : upsertTransactionSync model works table = some table')
    {key : TransactionKey} (hne : key ≠ model.key) : table'.find? key = table.find? key := by
  obtain ⟨row, written, hrow, htransform, rfl⟩ | ⟨written, hrow, htransform, hinsert⟩ :=
    mutateTransactionSync_eq_some h
  · exact Table.find?_update_of_ne hne
  · cases htransform
    rw [Table.find?_insert hinsert, if_neg]
    intro hkey
    exact hne (insertedTransaction_key hkey)

theorem acknowledgeUploadedTransaction_eq_some [CanonicalText] {uploaded : TransactionSyncModel} {works : Bool}
    {table table' : TransactionSyncTable}
    (h : acknowledgeUploadedTransaction uploaded works table = some table') :
    ∃ key row, uploaded.storedKey = some key ∧ table.find? key = some row ∧ row.updated = some 1 ∧
      sameTransaction (makeTransactionSync row) uploaded ∧
      table' = table.update key TransactionRow.clear TransactionRow.clear_key := by
  simp only [acknowledgeUploadedTransaction, Option.bind_eq_bind, Option.bind_eq_some_iff] at h
  obtain ⟨chain, hchain, uId, huId, actionType, ha, tokenAddress, ht, date, hd, row, hrow, h⟩ := h
  split at h
  · rename_i hguard
    cases h
    refine ⟨_, row, ?_, hrow, ?_, hguard.2.1, rfl⟩
    · simp [TransactionSyncModel.storedKey, hchain, huId, ha, ht, hd]
    · simpa [makeTransactionSync] using hguard.1
  · cases h

theorem sameTransaction_count [CanonicalText] {current uploaded : TransactionSyncModel}
    (h : sameTransaction current uploaded) : current.count = uploaded.count := by
  simp only [sameTransaction, Bool.and_eq_true, beq_iff_eq] at h
  tauto

theorem deleteTransactionSyncBeforeToday_find? {chain uId today : Text} {works : Bool} {table : TransactionSyncTable}
    {key : TransactionKey} :
    (deleteTransactionSyncBeforeToday chain uId today works table).find? key = table.find? key ∨
      (deleteTransactionSyncBeforeToday chain uId today works table).find? key = none ∧
        ∃ row, table.find? key = some row ∧ row.updated = some 0 := by
  unfold deleteTransactionSyncBeforeToday
  split
  · rw [Table.find?_delete]
    cases hrow : table.find? key with
    | none => exact .inl rfl
    | some row =>
      rw [Option.filter_some]
      split
      · exact .inl rfl
      · rename_i hp
        refine .inr ⟨rfl, row, rfl, ?_⟩
        rw [Bool.not_eq_true', decide_eq_false_iff_not, not_not] at hp
        exact hp.2.2.2
  · exact .inl rfl

/-- The ledger tells how the rows are counted: a row that holds events counts at least these. -/
structure Ledger.Tallies (l : Ledger) (table : TransactionSyncTable) : Prop where
  absent : ∀ key, table.find? key = none → l.held key = []
  counter : ∀ key row, table.find? key = some row → l.held key = [] ∨ (l.held key).length ≤ row.counter
  earlier : ∀ key, ∀ id ∈ l.held key, id < l.events
  nodup : ∀ key, (l.held key).Nodup

theorem TransactionRow.clear_counter (row : TransactionRow) : row.clear.counter = row.counter := by
  unfold clear
  split <;> rfl

namespace Ledger

theorem tallies_of_initial {s : System} (h : s.Initial) : s.ledger.Tallies s.transactions where
  absent key _ := by rw [h.held]
  counter key row _ := by
    rw [h.held]
    exact .inl rfl
  earlier key id hid := by
    rw [h.held] at hid
    cases hid
  nodup key := by
    rw [h.held]
    exact List.nodup_nil

theorem Tallies.of_find? {l : Ledger} {table table' : TransactionSyncTable} (h : l.Tallies table)
    (hnone : ∀ key, table'.find? key = none → table.find? key = none)
    (hsome : ∀ key row, table'.find? key = some row → ∃ old, table.find? key = some old ∧ row.counter = old.counter) :
    l.Tallies table' where
  absent key hkey := h.absent key (hnone key hkey)
  counter key row hrow := by
    obtain ⟨old, hold, hcounter⟩ := hsome key row hrow
    rw [hcounter]
    exact h.counter key old hold
  earlier := h.earlier
  nodup := h.nodup

theorem Tallies.save {l : Ledger} {table table' : TransactionSyncTable} {key : TransactionKey} {row : TransactionRow}
    (h : l.Tallies table) (hrow : table'.find? key = some row)
    (hcounter : row.counter = counterOf (table.find? key) + 1) (hold : 0 ≤ counterOf (table.find? key))
    (hother : ∀ other, other ≠ key → table'.find? other = table.find? other) : (l.save key).Tallies table' where
  absent other hnone := by
    have hne : other ≠ key := by
      rintro rfl
      rw [hrow] at hnone
      cases hnone
    rw [hother other hne] at hnone
    rw [l.held_save_of_ne hne]
    exact h.absent other hnone
  counter other found hfound := by
    by_cases hne : other = key
    · subst hne
      cases hrow.symm.trans hfound
      right
      rw [l.held_save_self, List.length_append, List.length_singleton, hcounter]
      have hle : ((l.held other).length : ℤ) ≤ counterOf (table.find? other) := by
        cases hf : table.find? other with
        | none => simp [h.absent other hf, counterOf]
        | some old =>
          rw [hf] at hold
          obtain hnil | hle := h.counter other old hf
          · rw [hnil]
            exact hold
          · exact hle
      omega
    · rw [hother other hne] at hfound
      rw [l.held_save_of_ne hne]
      exact h.counter other found hfound
  earlier other id hid := by
    by_cases hne : other = key
    · subst hne
      rw [l.held_save_self, List.mem_append, List.mem_singleton] at hid
      obtain hid | rfl := hid
      · exact Nat.lt_succ_of_lt (h.earlier other id hid)
      · exact Nat.lt_succ_self _
    · rw [l.held_save_of_ne hne] at hid
      exact Nat.lt_succ_of_lt (h.earlier other id hid)
  nodup other := by
    by_cases hne : other = key
    · subst hne
      rw [l.held_save_self]
      refine List.nodup_append.mpr ⟨h.nodup other, List.nodup_singleton _, ?_⟩
      intro id hid new hnew
      rw [List.mem_singleton.mp hnew]
      exact (h.earlier other id hid).ne
    · rw [l.held_save_of_ne hne]
      exact h.nodup other

theorem Tallies.forget {l l' : Ledger} {table table' : TransactionSyncTable} (h : l.Tallies table)
    (hevents : l'.events = l.events)
    (hheld : ∀ key, l'.held key = [] ∨ l'.held key = l.held key ∧ table'.find? key = table.find? key) :
    l'.Tallies table' := by
  constructor
  · intro key hnone
    obtain hnil | ⟨heq, hfind⟩ := hheld key
    · exact hnil
    · rw [heq]
      exact h.absent key (hfind ▸ hnone)
  · intro key row hrow
    obtain hnil | ⟨heq, hfind⟩ := hheld key
    · exact .inl hnil
    · rw [heq]
      exact h.counter key row (hfind ▸ hrow)
  · intro key id hid
    rw [hevents]
    obtain hnil | ⟨heq, _⟩ := hheld key
    · rw [hnil] at hid
      cases hid
    · exact h.earlier key id (heq ▸ hid)
  · intro key
    obtain hnil | ⟨heq, _⟩ := hheld key
    · rw [hnil]
      exact List.nodup_nil
    · rw [heq]
      exact h.nodup key

theorem Tallies.migrate {l : Ledger} {table table' : TransactionSyncTable} {model : TransactionSyncModel}
    (h : l.Tallies table) (hother : ∀ key, key ≠ model.key → table'.find? key = table.find? key) :
    (l.migrate model).Tallies table' := by
  refine h.forget rfl fun key => ?_
  by_cases hne : key = model.key
  · rw [hne]
    exact .inl (l.held_migrate_self model)
  · exact .inr ⟨l.held_migrate_of_ne hne, hother key hne⟩

theorem Tallies.prune {l : Ledger} {table table' : TransactionSyncTable} (h : l.Tallies table)
    (hfind : ∀ key row, table'.find? key = some row → table.find? key = some row) :
    (l.prune table').Tallies table' := by
  refine h.forget rfl fun key => ?_
  cases hrow : table'.find? key with
  | none => exact .inl (l.held_prune_of_none hrow)
  | some row => exact .inr ⟨l.held_prune_of_some hrow, (hfind key row hrow).symm⟩

end Ledger

theorem System.begin_transactions (s : System) (around : Surroundings) :
    (s.begin around).transactions = s.transactions ∧ (s.begin around).ledger = s.ledger := by
  unfold begin
  split
  · exact ⟨rfl, rfl⟩
  · split
    · exact ⟨rfl, rfl⟩
    · split <;> exact ⟨rfl, rfl⟩

section

variable [DecimalNumbers]

theorem extendTransaction_some {event : TransactionEvent} {model current written : TransactionSyncModel}
    (h : extendTransaction event model (some current) = some written) :
    0 ≤ (current.count.getD 0).toInt ∧ written.updated = model.updated ∧
      ∃ count, written.count = some count ∧ count.toInt = (current.count.getD 0).toInt + 1 := by
  simp only [extendTransaction, Option.bind_eq_bind] at h
  split at h
  · rename_i hcount
    simp only [Option.bind_eq_some_iff, Option.some.injEq] at h
    obtain ⟨_, _, _, _, _, _, _, _, _, _, rfl⟩ := h
    exact ⟨Int64.le_iff_toInt_le.mp hcount.1, rfl, _, rfl, not_overflow hcount.2⟩
  · cases h

variable [CanonicalText]

theorem upsertTransactionsData_eq_some {event : TransactionEvent} {config : DataSource} {uId date : Text}
    {works : Bool} {table table' : TransactionSyncTable}
    (h : upsertTransactionsData event config uId date works table = some table') :
    (∃ row, table'.find? (event.key config uId date) = some row ∧ row.updated = some 1 ∧
      row.counter = counterOf (table.find? (event.key config uId date)) + 1) ∧
    0 ≤ counterOf (table.find? (event.key config uId date)) ∧
    ∀ key, key ≠ event.key config uId date → table'.find? key = table.find? key := by
  unfold upsertTransactionsData at h
  split at h
  · cases h
  split at h
  · obtain ⟨row, written, hrow, htransform, rfl⟩ | ⟨written, hrow, htransform, hinsert⟩ :=
      mutateTransactionSync_eq_some h
    · obtain ⟨hle, hupdated, count, hwritten, hcount⟩ := extendTransaction_some htransform
      rw [Table.find?_update_self, hrow]
      refine ⟨⟨_, rfl, ?_, ?_⟩, hle, fun key hne => Table.find?_update_of_ne hne⟩
      · rw [TransactionRow.set, hupdated]
        rfl
      · rw [TransactionRow.counter, TransactionRow.set, hwritten]
        exact hcount
    · cases htransform
      rw [hrow]
      have hkey : (insertedTransaction (makeTransactionSyncModel event config uId date)).key =
        some (event.key config uId date) := rfl
      refine ⟨⟨insertedTransaction (makeTransactionSyncModel event config uId date), ?_, rfl, rfl⟩, le_rfl,
        fun key hne => ?_⟩
      · rw [Table.find?_insert hinsert, if_pos hkey]
      · rw [Table.find?_insert hinsert, if_neg]
        rw [hkey]
        exact fun he => hne (Option.some.inj he).symm
  · cases h

namespace System

def migrating (s : System) : Option TransactionSyncModel :=
  match s.queue with
  | .migrating _ [] (model :: _) _ :: _ => some model
  | _ => none

def Acknowledging (s : System) (t : Snapshot) : Prop :=
  ∃ chain uId transactions queue, s.queue = .acknowledging chain uId [] (t :: transactions) :: queue

def deleting (s : System) : Bool := s.queue.head? matches some (.deletingTransactions _ _)

inductive Change (s : System) : Action → TransactionSyncTable → Ledger → Prop where
  | kept (a : Action) : Change s a s.transactions s.ledger
  | saved {event : TransactionEvent} {config : DataSource} {uId date : Text} {works : Bool}
      {table : TransactionSyncTable}
      (h : upsertTransactionsData event config uId date works s.transactions = some table) :
      Change s (.upsertTransactionsData event (some config) uId date works) table
        (s.ledger.save (event.key config uId date))
  | migrated {around : Surroundings} {model : TransactionSyncModel} {table : TransactionSyncTable}
      (hm : s.migrating = some model) (h : upsertTransactionSync model around.works s.transactions = some table) :
      Change s (.proceed around) table (s.ledger.migrate model)
  | cleared {around : Surroundings} {t : Snapshot} {table : TransactionSyncTable} (ht : s.Acknowledging t)
      (h : acknowledgeUploadedTransaction t.model around.works s.transactions = some table) :
      Change s (.proceed around) table s.ledger
  | deleted {around : Surroundings} {chain uId : Text} (hd : s.deleting) :
      Change s (.proceed around)
        (deleteTransactionSyncBeforeToday chain uId around.today around.works s.transactions)
        (s.ledger.prune (deleteTransactionSyncBeforeToday chain uId around.today around.works s.transactions))

variable [Graphemes]

theorem proceed_change (s : System) (around : Surroundings) :
    s.Change (.proceed around) (s.step (.proceed around)).transactions (s.step (.proceed around)).ledger := by
  cases hq : s.queue with
  | nil =>
    simp only [step, hq]
    exact .kept _
  | cons block queue =>
    simp only [step, hq]
    cases block with
    | uploading =>
      obtain ⟨ht, hl⟩ := begin_transactions { s with queue } around
      rw [perform, ht, hl]
      exact .kept _
    | migrating config assets transactions allSucceeded =>
      cases assets with
      | cons model assets =>
        rw [perform]
        split <;> exact .kept _
      | nil =>
        cases transactions with
        | nil => exact .kept _
        | cons model transactions =>
          have hm : s.migrating = some model := by rw [migrating, hq]
          rw [perform, migrateTransaction]
          split
          · rename_i table h
            exact .migrated hm h
          · exact .kept _
    | readingAssets config =>
      rw [perform]
      split <;> exact .kept _
    | readingTransactions config uId assets =>
      simp only [perform]
      split <;> exact .kept _
    | acknowledging chain uId assets transactions =>
      cases assets with
      | cons model assets => exact .kept _
      | nil =>
        cases transactions with
        | nil => exact .kept _
        | cons t transactions =>
          have ht : s.Acknowledging t := ⟨chain, uId, transactions, queue, hq⟩
          rw [perform, acknowledgeTransaction]
          cases h : acknowledgeUploadedTransaction t.model around.works s.transactions with
          | none =>
            simp only
            exact .kept _
          | some table =>
            simp only
            exact .cleared ht h
    | deletingTransactions chain uId =>
      refine .deleted ?_
      rw [deleting, hq]
      rfl

theorem step_change (s : System) (a : Action) : s.Change a (s.step a).transactions (s.step a).ledger := by
  cases a with
  | upsertTransactionsData event dataConfig uId date works =>
    cases dataConfig with
    | none => exact .kept _
    | some config =>
      simp only [step, saveTransaction]
      split
      · rename_i table h
        exact .saved h
      · exact .kept _
  | upsertAssetData model dataConfig works =>
    rw [step]
    split <;> exact .kept _
  | uploadStatisticalData dataConfig =>
    rw [step]
    split <;> exact .kept _
  | proceed around => exact proceed_change s around
  | process i =>
    rw [step, process]
    split
    · split <;> exact .kept _
    · exact .kept _
  | answer i isUploadSuccess =>
    rw [step, answer]
    split
    · split <;> exact .kept _
    · exact .kept _

end System

theorem System.Change.tallies {s : System} {a : Action} {table : TransactionSyncTable} {l : Ledger}
    (h : s.Change a table l) (ht : s.ledger.Tallies s.transactions) : l.Tallies table := by
  cases h with
  | kept => exact ht
  | saved h =>
    obtain ⟨⟨row, hrow, _, hcounter⟩, hold, hother⟩ := upsertTransactionsData_eq_some h
    exact ht.save hrow hcounter hold hother
  | migrated _ h => exact ht.migrate fun key hne => upsertTransactionSync_of_ne h hne
  | cleared _ h =>
    obtain ⟨key, row, _, hrow, _, _, rfl⟩ := acknowledgeUploadedTransaction_eq_some h
    refine ht.of_find? ?_ ?_
    · intro other hnone
      by_cases hne : other = key
      · subst hne
        rw [Table.find?_update_self, hrow] at hnone
        cases hnone
      · rwa [Table.find?_update_of_ne hne] at hnone
    · intro other found hfound
      by_cases hne : other = key
      · subst hne
        rw [Table.find?_update_self, hrow] at hfound
        cases hfound
        exact ⟨row, hrow, row.clear_counter⟩
      · rw [Table.find?_update_of_ne hne] at hfound
        exact ⟨found, hfound, rfl⟩
  | deleted =>
    apply ht.prune
    intro key row hrow
    obtain hsame | ⟨hnone, _⟩ := deleteTransactionSyncBeforeToday_find?
    · exact hsame.symm.trans hrow
    · rw [hrow] at hnone
      cases hnone

end

end TronlinkCore.Metrics
