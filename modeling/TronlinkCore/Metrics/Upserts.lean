import TronlinkCore.Metrics.Ledger

/-!
Runs of `upsertTransactionSync`. A record without an action type is looked up
under -1 and inserted under `NULL`, so that nothing finds its row again.
-/

namespace TronlinkCore.Metrics

structure TransactionColumns where
  chain : Option Text
  uId : Option Text
  actionType : Option Int64
  tokenAddress : Option Text
  date : Option Text
  deriving DecidableEq

/-- The key of a row, where a missing column is a value like any other -/
def TransactionRow.columns (row : TransactionRow) : TransactionColumns :=
  ⟨row.chain, row.uId, row.actionType, row.tokenAddress, row.date⟩

def TransactionSyncTable.OneRowPerKey (table : TransactionSyncTable) : Prop :=
  table.rows.Pairwise fun row later => row.columns ≠ later.columns

def TransactionSyncTable.Clearable [CanonicalText] (table : TransactionSyncTable) : Prop :=
  ∀ (i : ℕ) (row : TransactionRow), table.rows[i]? = some row → row.updated = some 1 →
    ∃ cleared, acknowledgeUploadedTransaction (makeTransactionSync row) true table = some cleared ∧
      cleared.rows[i]? = some { row with updated := some 0 }

def TransactionSyncTable.afterUpsert (table : TransactionSyncTable) (model : TransactionSyncModel) :
    TransactionSyncTable := (upsertTransactionSync model true table).getD table

def Keyed (model : TransactionSyncModel) (table : TransactionSyncTable) : Prop :=
  model.actionType ≠ none ∨ ∃ row ∈ table.rows, row.key = some model.key

instance (model : TransactionSyncModel) (table : TransactionSyncTable) : Decidable (Keyed model table) :=
  inferInstanceAs (Decidable (_ ∨ _))

inductive UpsertRun : TransactionSyncTable → Prop where
  | start : UpsertRun .empty
  | step {table later : TransactionSyncTable} (model : TransactionSyncModel) (before : UpsertRun table)
      (keyed : Keyed model table) (saved : upsertTransactionSync model true table = some later) : UpsertRun later

theorem key_of_columns {row later : TransactionRow} (h : row.columns = later.columns) : row.key = later.key := by
  simp only [TransactionRow.columns, TransactionColumns.mk.injEq] at h
  obtain ⟨hchain, huId, haction, htoken, hdate⟩ := h
  simp only [TransactionRow.key, hchain, huId, haction, htoken, hdate]

def TransactionSyncTable.Complete (table : TransactionSyncTable) : Prop := ∀ row ∈ table.rows, row.key.isSome

theorem insertedTransaction_key_of_some {model : TransactionSyncModel} (h : model.actionType ≠ none) :
    (insertedTransaction model).key = some model.key := by
  cases ha : model.actionType with
  | none => exact absurd ha h
  | some actionType => simp [TransactionRow.key, insertedTransaction, TransactionSyncModel.key, ha]

theorem insertedTransaction_key_of_none {model : TransactionSyncModel} (h : model.actionType = none) :
    (insertedTransaction model).key = none := by
  simp [TransactionRow.key, insertedTransaction, h]

theorem Keyed.found {model : TransactionSyncModel} {table : TransactionSyncTable} (h : Keyed model table)
    (hnone : table.find? model.key = none) : model.actionType ≠ none := by
  rcases h with h | ⟨row, hrow, hkey⟩
  · exact h
  · exact absurd hkey (Table.find?_eq_none.mp hnone row hrow)

theorem complete_of_upsert {model : TransactionSyncModel} {table later : TransactionSyncTable}
    (h : table.Complete) (hkeyed : Keyed model table) (hsaved : upsertTransactionSync model true table = some later) :
    later.Complete := by
  obtain ⟨row, written, _, htransform, rfl⟩ | ⟨written, hnone, htransform, hinsert⟩ :=
    mutateTransactionSync_eq_some hsaved
  · intro stored hstored
    obtain ⟨old, hold, rfl⟩ := List.mem_map.mp hstored
    split
    · rw [TransactionRow.set_key]
      exact h old hold
    · exact h old hold
  · cases htransform
    intro stored hstored
    rw [(Table.insert?_eq_some hinsert).1, List.mem_append, List.mem_singleton] at hstored
    rcases hstored with hold | rfl
    · exact h stored hold
    · rw [insertedTransaction_key_of_some (hkeyed.found hnone)]
      rfl

theorem UpsertRun.complete {table : TransactionSyncTable} (h : UpsertRun table) : table.Complete := by
  induction h with
  | start =>
    intro row hrow
    cases hrow
  | step model _ keyed saved ih => exact complete_of_upsert ih keyed saved

theorem oneRowPerKey_of_complete {table : TransactionSyncTable} (h : table.Complete) : table.OneRowPerKey := by
  have hunique := table.unique
  rw [TransactionSyncTable.OneRowPerKey]
  refine hunique.imp_of_mem ?_
  intro row later hrow _ hne hcolumns
  obtain ⟨key, hkey⟩ := Option.isSome_iff_exists.mp (h row hrow)
  apply hne key hkey
  rw [← key_of_columns hcolumns]
  exact hkey

section

variable [CanonicalText]

theorem sameText_refl (s : Option Text) : sameText s s = true := by
  cases s with
  | none => rfl
  | some s => exact CanonicalText.same_refl s

theorem sameTransaction_refl (model : TransactionSyncModel) : sameTransaction model model = true := by
  simp [sameTransaction, sameText_refl]

theorem acknowledge_own_snapshot {table : TransactionSyncTable} {row : TransactionRow} {key : TransactionKey}
    (hrow : row ∈ table.rows) (hkey : row.key = some key) (hupdated : row.updated = some 1) :
    acknowledgeUploadedTransaction (makeTransactionSync row) true table =
      some (table.update key TransactionRow.clear TransactionRow.clear_key) := by
  have hfind : table.find? key = some row := Table.find?_eq_some.mpr ⟨hrow, hkey⟩
  have hcurrent : (makeTransactionSync row).updated = some true := by
    rw [makeTransactionSync, hupdated]
    rfl
  simp only [TransactionRow.key, Option.bind_eq_bind, Option.bind_eq_some_iff, Option.some.injEq] at hkey
  obtain ⟨chain, hchain, uId, huId, actionType, haction, tokenAddress, htoken, date, hdate, rfl⟩ := hkey
  have hfields : (makeTransactionSync row).chain = some chain ∧ (makeTransactionSync row).uId = some uId ∧
      (makeTransactionSync row).actionType = some actionType ∧
      (makeTransactionSync row).tokenAddress = some tokenAddress ∧ (makeTransactionSync row).date = some date :=
    ⟨hchain, huId, haction, htoken, hdate⟩
  obtain ⟨hchain, huId, haction, htoken, hdate⟩ := hfields
  simp only [acknowledgeUploadedTransaction, hchain, huId, haction, htoken, hdate, Option.bind_eq_bind,
    Option.bind_some, hfind]
  apply if_pos
  exact ⟨hcurrent, sameTransaction_refl _, trivial⟩

theorem clearable_of_complete {table : TransactionSyncTable} (h : table.Complete) : table.Clearable := by
  intro i row hi hupdated
  have hrow := List.mem_of_getElem? hi
  obtain ⟨key, hkey⟩ := Option.isSome_iff_exists.mp (h row hrow)
  refine ⟨_, acknowledge_own_snapshot hrow hkey hupdated, ?_⟩
  rw [Table.update, List.getElem?_map, hi, Option.map_some, if_pos hkey, TransactionRow.clear, if_pos hupdated]

end

theorem TransactionRow.set_set (model : TransactionSyncModel) (row : TransactionRow) :
    (row.set model).set model = row.set model := by
  simp only [TransactionRow.set, ← Option.or_assoc, Option.or_self]

theorem TransactionRow.set_inserted (model : TransactionSyncModel) :
    (insertedTransaction model).set model = insertedTransaction model := by
  have hor {α : Type} (o : Option α) (d : α) : o.or (some (o.getD d)) = some (o.getD d) := by cases o <;> rfl
  have hflag : (model.updated.map flag).or (some (flag (model.updated.getD false))) =
      some (flag (model.updated.getD false)) := by cases model.updated <;> rfl
  simp only [TransactionRow.set, insertedTransaction, Option.or_self, hor, hflag]

theorem afterUpsert_of_found {model : TransactionSyncModel} {table : TransactionSyncTable} {row : TransactionRow}
    (hfind : table.find? model.key = some row) (hset : row.set model = row) : table.afterUpsert model = table := by
  have hupdate : table.update model.key (TransactionRow.set model) (TransactionRow.set_key model) = table := by
    apply Table.update_eq_self
    intro other hother hkey
    have hfind' : table.find? model.key = some other := Table.find?_eq_some.mpr ⟨hother, hkey⟩
    rw [hfind] at hfind'
    cases hfind'
    exact hset
  simp only [TransactionSyncTable.afterUpsert, upsertTransactionSync, mutateTransactionSync, hfind, Option.map_some,
    Option.bind_eq_bind, Option.bind_some, if_true, Option.isSome_some, updateTransactionSync_internal]
  split
  · rfl
  · exact hupdate

theorem again_iff {model : TransactionSyncModel} {table later : TransactionSyncTable}
    (hsaved : upsertTransactionSync model true table = some later) :
    later.afterUpsert model = later ↔ Keyed model table := by
  obtain ⟨row, written, hrow, htransform, rfl⟩ | ⟨written, hnone, htransform, hinsert⟩ :=
    mutateTransactionSync_eq_some hsaved
  · cases htransform
    obtain ⟨hmem, hkey⟩ := Table.find?_eq_some.mp hrow
    constructor
    · intro _
      exact .inr ⟨row, hmem, hkey⟩
    · intro _
      apply afterUpsert_of_found
      · rw [Table.find?_update_self, hrow]
        rfl
      · exact TransactionRow.set_set model row
  · cases htransform
    obtain ⟨hrows, _⟩ := Table.insert?_eq_some hinsert
    by_cases haction : model.actionType = none
    -- The new row has no key, so the next lookup finds as little as this one and inserts again.
    · have hkeyless := insertedTransaction_key_of_none haction
      have hfind : later.find? model.key = none := by
        rw [Table.find?_insert hinsert, hkeyless, if_neg (by simp)]
        exact hnone
      obtain ⟨longer, hlonger⟩ : ∃ longer, later.insert? (insertedTransaction model) = some longer := by
        apply Table.insert?_of_absent
        intro key hkey
        rw [hkeyless] at hkey
        cases hkey
      constructor
      · intro h
        have hlength := congrArg (fun t : TransactionSyncTable => t.rows.length) h
        simp [TransactionSyncTable.afterUpsert, upsertTransactionSync, mutateTransactionSync, hfind,
          insertTransactionSync_internal, hlonger, (Table.insert?_eq_some hlonger).1] at hlength
      · intro h
        exact absurd haction (h.found hnone)
    · constructor
      · intro _
        exact .inl haction
      · intro _
        apply afterUpsert_of_found
        · rw [Table.find?_insert hinsert, if_pos (insertedTransaction_key_of_some haction)]
        · exact TransactionRow.set_inserted model

theorem upserts_keep_one_row [CanonicalText] {table : TransactionSyncTable} (h : UpsertRun table) :
    table.OneRowPerKey ∧ table.Clearable ∧
      ∀ model later, upsertTransactionSync model true table = some later →
        ((later.OneRowPerKey ∧ later.Clearable ∧ later.afterUpsert model = later) ↔ Keyed model table) := by
  have hcomplete := h.complete
  refine ⟨oneRowPerKey_of_complete hcomplete, clearable_of_complete hcomplete, ?_⟩
  intro model later hsaved
  constructor
  · rintro ⟨_, _, hagain⟩
    exact (again_iff hsaved).mp hagain
  · intro hkeyed
    have hlater := complete_of_upsert hcomplete hkeyed hsaved
    exact ⟨oneRowPerKey_of_complete hlater, clearable_of_complete hlater, (again_iff hsaved).mpr hkeyed⟩

def swapRecord (actionType : Option Int64) : TransactionSyncModel where
  uId := some ['u']
  idType := some 1
  actionType := actionType
  count := some 1
  tokenAddress := some ['_']
  tokenAmount := some ['5']
  energy := none
  bandwidth := none
  burn := none
  date := some ['d']
  bucket := fun _ => none
  chain := some ['c']
  updated := some true

-- The second call repeats the record, the third has a key of its own.
theorem upserts_keep_one_row_sample :
    ∃ first second third : TransactionSyncTable, upsertTransactionSync (swapRecord (some 2)) true .empty = some first ∧
      upsertTransactionSync (swapRecord (some 2)) true first = some second ∧
      upsertTransactionSync (swapRecord (some 3)) true second = some third ∧
      third.rows.length = 2 ∧ third.OneRowPerKey ∧ @TransactionSyncTable.Clearable precomposedText third ∧
      third.afterUpsert (swapRecord (some 3)) = third := by
  refine ⟨_, _, _, rfl, rfl, rfl, rfl, ?_⟩
  have hfirst := UpsertRun.step (swapRecord (some 2)) .start (.inl (by decide)) rfl
  have hsecond := UpsertRun.step (swapRecord (some 2)) hfirst (.inl (by decide)) rfl
  obtain ⟨_, _, hnext⟩ := @upserts_keep_one_row precomposedText _ hsecond
  exact (hnext (swapRecord (some 3)) _ rfl).mpr (.inl (by decide))

theorem unclassified_record_is_stored_twice :
    ∃ table later : TransactionSyncTable, upsertTransactionSync (swapRecord none) true .empty = some table ∧
      upsertTransactionSync (swapRecord none) true table = some later ∧ ¬ later.OneRowPerKey ∧
      later.rows ≠ table.rows ∧ ¬ @TransactionSyncTable.Clearable precomposedText table := by
  refine ⟨_, _, rfl, rfl, ?_, ?_, ?_⟩
  · intro h
    exact List.rel_of_pairwise_cons h List.mem_cons_self rfl
  · decide
  · intro h
    obtain ⟨cleared, hcleared, _⟩ := h 0 _ rfl rfl
    cases hcleared

end TronlinkCore.Metrics
