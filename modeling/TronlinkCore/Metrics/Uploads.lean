import TronlinkCore.Metrics.Requests

/-!
Uploading loses no event, unless a row is written again while a request still
holds a record of the row that was there before.
-/

namespace TronlinkCore.Metrics

namespace System

def Pending (s : System) (t : Snapshot) : Prop :=
  (∃ r ∈ s.requests, r.answered = false ∧ t ∈ r.transactions) ∨
    ∃ assets transactions, s.Draining assets transactions ∧ t ∈ transactions

def Accepted (s : System) (t : Snapshot) : Prop := ∃ r ∈ s.requests, r.processed ∧ t ∈ r.transactions

/-- The row has gone on from the record: every event since is one more on its counter. -/
def Agrees (s : System) (t : Snapshot) (key : TransactionKey) (row : TransactionRow) : Prop :=
  t.counted <+: s.ledger.held key ∧
    row.counter + t.counted.length = (t.model.count.getD 0).toInt + (s.ledger.held key).length

structure Recorded (s : System) : Prop where
  tallies : s.ledger.Tallies s.transactions
  accepted : ∀ assets transactions, s.Draining assets transactions → ∀ t ∈ transactions, s.Accepted t
  agrees : ∀ t key row, s.Pending t → t.model.storedKey = some key → s.transactions.find? key = some row →
    s.Agrees t key row
  uploaded : ∀ key row, s.transactions.find? key = some row → row.updated ≠ some 1 →
    ∀ id ∈ s.ledger.held key, ∃ t, s.Accepted t ∧ id ∈ t.counted
  kept : ∀ id < s.ledger.events, (∃ key, id ∈ s.ledger.held key) ∨ ∃ t, s.Accepted t ∧ id ∈ t.counted

theorem Recorded.of_initial {s : System} (h : s.Initial) : s.Recorded := by
  constructor
  · exact Ledger.tallies_of_initial h
  · rintro assets transactions ⟨chain, uId, hb⟩
    rw [h.queue] at hb
    cases hb
  · rintro t key row (⟨r, hr, _⟩ | ⟨assets, transactions, ⟨chain, uId, hb⟩, _⟩)
    · rw [h.requests] at hr
      cases hr
    · rw [h.queue] at hb
      cases hb
  · intro key row _ _ id hid
    rw [h.held] at hid
    cases hid
  · intro id hid
    rw [h.events] at hid
    cases hid

theorem mem_snapshots {s : System} {chain uId : Text} {stops : Option ℕ} {t : Snapshot}
    (h : t ∈ s.snapshots chain uId stops) {key : TransactionKey} (hkey : t.model.storedKey = some key) :
    ∃ row, s.transactions.find? key = some row ∧ t = ⟨makeTransactionSync row, s.ledger.held key⟩ := by
  obtain ⟨model, hmodel, rfl⟩ := List.mem_map.mp h
  obtain ⟨row, hrow, rfl⟩ := List.mem_map.mp hmodel
  have hrow : row ∈ s.transactions.rows := List.mem_of_mem_filter ((fetched_sublist _ _).subset hrow)
  refine ⟨row, Table.find?_eq_some.mpr ⟨hrow, hkey⟩, ?_⟩
  simp only at hkey ⊢
  rw [hkey]
  rfl

theorem acknowledging_pending {s : System} {t : Snapshot} (h : s.Acknowledging t) :
    s.Pending t ∧ ∃ assets transactions, s.Draining assets transactions ∧ t ∈ transactions := by
  obtain ⟨chain, uId, transactions, queue, hq⟩ := h
  have hd : s.Draining [] (t :: transactions) := ⟨chain, uId, hq ▸ List.mem_cons_self⟩
  exact ⟨.inr ⟨_, _, hd, List.mem_cons_self⟩, _, _, hd, List.mem_cons_self⟩

theorem Recorded.held_eq_counted [CanonicalText] {s : System} (h : s.Recorded) {t : Snapshot} (ht : s.Pending t)
    {works : Bool} {table : TransactionSyncTable}
    (hack : acknowledgeUploadedTransaction t.model works s.transactions = some table)
    {key : TransactionKey} (hkey : t.model.storedKey = some key) : s.ledger.held key = t.counted := by
  obtain ⟨key', row, hkey', hrow, _, hsame, _⟩ := acknowledgeUploadedTransaction_eq_some hack
  cases hkey.symm.trans hkey'
  obtain ⟨hstart, hcounter⟩ := h.agrees t key row ht hkey hrow
  have hcount : row.count = t.model.count := sameTransaction_count hsame
  rw [TransactionRow.counter, hcount] at hcounter
  exact (hstart.eq_of_length (by omega)).symm

section

variable [CanonicalText] [Graphemes] [DecimalNumbers]

theorem accepted_step {s : System} {t : Snapshot} (a : Action) (h : s.Accepted t) : (s.step a).Accepted t := by
  obtain ⟨r, hr, hp, ht⟩ := h
  obtain ⟨later, hlater, hgoes⟩ := (step_requests s a).2 r hr
  exact ⟨later, hlater, hgoes.processed hp, hgoes.transactions ▸ ht⟩

theorem draining_step {s : System} {a : Action} {assets : List AssetSyncModel} {transactions : List Snapshot}
    (h : (s.step a).Draining assets transactions) :
    (∃ more moreTransactions, s.Draining more moreTransactions ∧ assets <:+ more ∧
        transactions <:+ moreTransactions) ∨
      ∃ r ∈ s.requests, r.processed ∧ r.answered = false ∧ assets = r.assets ∧ transactions = r.transactions := by
  obtain ⟨chain, uId, hb⟩ := h
  obtain hold | hnew := step_queue s a _ hb
  · exact .inl ⟨assets, transactions, ⟨chain, uId, hold⟩, List.suffix_refl _, List.suffix_refl _⟩
  · exact hnew

theorem pending_step {s : System} {a : Action} {t : Snapshot} (h : (s.step a).Pending t) :
    s.Pending t ∨ (∃ chain uId stops, t ∈ s.snapshots chain uId stops) ∧
      (s.step a).transactions = s.transactions ∧ (s.step a).ledger = s.ledger := by
  obtain ⟨r, hr, ha, ht⟩ | ⟨assets, transactions, hd, ht⟩ := h
  · obtain ⟨old, hold, hgoes⟩ | ⟨⟨_, _, chain, uId, stops, hsent⟩, hsame⟩ := (step_requests s a).1 r hr
    · refine .inl (.inl ⟨old, hold, ?_, hgoes.transactions ▸ ht⟩)
      by_contra hne
      rw [hgoes.answered (by simpa using hne)] at ha
      cases ha
    · exact .inr ⟨⟨chain, uId, stops, hsent ▸ ht⟩, hsame⟩
  · obtain ⟨more, moreTransactions, hd, _, hsuffix⟩ | ⟨r, hr, _, ha, _, rfl⟩ := draining_step hd
    · exact .inl (.inr ⟨more, moreTransactions, hd, hsuffix.subset ht⟩)
    · exact .inl (.inl ⟨r, hr, ha, ht⟩)

/-- No legacy record is written, and no event is saved without a row while a record of its row may still be
acknowledged: such a row has been deleted since. -/
def Uploading (s : System) : Action → Prop
  | .upsertTransactionsData event (some config) uId date works =>
    (upsertTransactionsData event config uId date works s.transactions).isSome →
      s.transactions.find? (event.key config uId date) = none →
        ∀ t, s.Pending t → t.model.storedKey ≠ some (event.key config uId date)
  | .proceed _ => s.migrating = none
  | _ => True

theorem Recorded.agrees_step {s : System} {a : Action} (h : s.Recorded) (ha : s.Uploading a) {t : Snapshot}
    {key : TransactionKey} {row : TransactionRow} (ht : (s.step a).Pending t) (hkey : t.model.storedKey = some key)
    (hrow : (s.step a).transactions.find? key = some row) : (s.step a).Agrees t key row := by
  unfold Agrees
  have hchange := step_change s a
  obtain hp | ⟨⟨chain, uId, stops, hread⟩, htable, hledger⟩ := pending_step ht
  · generalize (s.step a).transactions = table at hchange hrow
    generalize (s.step a).ledger = l at hchange
    cases hchange with
    | kept => exact h.agrees t key row hp hkey hrow
    | @saved event config uId date works table hsave =>
      obtain ⟨⟨new, hnew, _, hcounter⟩, _, hother⟩ := upsertTransactionsData_eq_some hsave
      by_cases hne : key = event.key config uId date
      · subst hne
        cases hnew.symm.trans hrow
        cases hold : s.transactions.find? (event.key config uId date) with
        | none => exact absurd hkey (ha (by rw [hsave]; rfl) hold t hp)
        | some old =>
          obtain ⟨hstart, hagree⟩ := h.agrees t _ old hp hkey hold
          rw [hold] at hcounter
          have hcounter : row.counter = old.counter + 1 := hcounter
          rw [s.ledger.held_save_self, List.length_append, List.length_singleton]
          exact ⟨hstart.trans (List.prefix_append _ _), by push_cast; omega⟩
      · rw [hother key hne] at hrow
        rw [s.ledger.held_save_of_ne hne]
        exact h.agrees t key row hp hkey hrow
    | migrated hm _ =>
      rw [show s.migrating = none from ha] at hm
      cases hm
    | cleared _ hack =>
      obtain ⟨cleared, old, _, hold, _, _, rfl⟩ := acknowledgeUploadedTransaction_eq_some hack
      by_cases hne : key = cleared
      · subst hne
        rw [Table.find?_update_self, hold] at hrow
        cases hrow
        rw [old.clear_counter]
        exact h.agrees t key old hp hkey hold
      · rw [Table.find?_update_of_ne hne] at hrow
        exact h.agrees t key row hp hkey hrow
    | deleted =>
      rw [s.ledger.held_prune_of_some hrow]
      obtain hsame | ⟨hnone, _⟩ := deleteTransactionSyncBeforeToday_find?
      · exact h.agrees t key row hp hkey (hsame.symm.trans hrow)
      · rw [hrow] at hnone
        cases hnone
  · rw [htable] at hrow
    rw [hledger]
    obtain ⟨old, hold, rfl⟩ := mem_snapshots hread hkey
    cases hold.symm.trans hrow
    exact ⟨List.prefix_refl _, rfl⟩

theorem Recorded.uploaded_step {s : System} {a : Action} (h : s.Recorded) (ha : s.Uploading a) {key : TransactionKey}
    {row : TransactionRow} (hrow : (s.step a).transactions.find? key = some row) (hclean : row.updated ≠ some 1)
    {id : ℕ} (hid : id ∈ (s.step a).ledger.held key) : ∃ t, s.Accepted t ∧ id ∈ t.counted := by
  have hchange := step_change s a
  generalize (s.step a).transactions = table at hchange hrow
  generalize (s.step a).ledger = l at hchange hid
  cases hchange with
  | kept => exact h.uploaded key row hrow hclean id hid
  | @saved event config uId date works table hsave =>
    obtain ⟨⟨new, hnew, hupdated, _⟩, _, hother⟩ := upsertTransactionsData_eq_some hsave
    by_cases hne : key = event.key config uId date
    · subst hne
      cases hnew.symm.trans hrow
      exact absurd hupdated hclean
    · rw [hother key hne] at hrow
      rw [s.ledger.held_save_of_ne hne] at hid
      exact h.uploaded key row hrow hclean id hid
  | migrated hm _ =>
    rw [show s.migrating = none from ha] at hm
    cases hm
  | @cleared around t table ht hack =>
    obtain ⟨hpending, assets, transactions, hd, hmem⟩ := acknowledging_pending ht
    obtain ⟨cleared, old, hkey, _, _, _, rfl⟩ := acknowledgeUploadedTransaction_eq_some hack
    by_cases hne : key = cleared
    · subst hne
      rw [h.held_eq_counted hpending hack hkey] at hid
      exact ⟨t, h.accepted assets transactions hd t hmem, hid⟩
    · rw [Table.find?_update_of_ne hne] at hrow
      exact h.uploaded key row hrow hclean id hid
  | deleted =>
    rw [s.ledger.held_prune_of_some hrow] at hid
    obtain hsame | ⟨hnone, _⟩ := deleteTransactionSyncBeforeToday_find?
    · exact h.uploaded key row (hsame.symm.trans hrow) hclean id hid
    · rw [hrow] at hnone
      cases hnone

theorem Recorded.kept_step {s : System} {a : Action} (h : s.Recorded) (ha : s.Uploading a) {id : ℕ}
    (hid : id < (s.step a).ledger.events) :
    (∃ key, id ∈ (s.step a).ledger.held key) ∨ ∃ t, s.Accepted t ∧ id ∈ t.counted := by
  have hchange := step_change s a
  generalize (s.step a).transactions = table at hchange
  generalize (s.step a).ledger = l at hchange hid ⊢
  cases hchange with
  | kept => exact h.kept id hid
  | @saved event config uId date works table hsave =>
    obtain hid | rfl := Nat.lt_succ_iff_lt_or_eq.mp hid
    · refine (h.kept id hid).imp ?_ fun haccepted => haccepted
      rintro ⟨key, hmem⟩
      exact ⟨key, s.ledger.mem_held_save hmem⟩
    · exact .inl ⟨event.key config uId date, s.ledger.mem_held_save_self _⟩
  | migrated hm _ =>
    rw [show s.migrating = none from ha] at hm
    cases hm
  | cleared => exact h.kept id hid
  | @deleted around chain uId =>
    obtain ⟨key, hmem⟩ | haccepted := h.kept id hid
    · obtain hsame | ⟨hnone, row, hrow, hupdated⟩ :=
        @deleteTransactionSyncBeforeToday_find? chain uId around.today around.works s.transactions key
      · cases hrow : s.transactions.find? key with
        | none =>
          rw [h.tallies.absent key hrow] at hmem
          cases hmem
        | some row =>
          left
          refine ⟨key, ?_⟩
          rwa [s.ledger.held_prune_of_some (hsame.trans hrow)]
      · right
        refine h.uploaded key row hrow ?_ id hmem
        rw [hupdated]
        decide
    · exact .inr haccepted

theorem Recorded.step {s : System} {a : Action} (h : s.Recorded) (ha : s.Uploading a) : (s.step a).Recorded where
  tallies := (step_change s a).tallies h.tallies
  accepted assets transactions hd t ht := by
    obtain ⟨more, moreTransactions, hd, _, hsuffix⟩ | ⟨r, hr, hp, _, _, rfl⟩ := draining_step hd
    · exact accepted_step a (h.accepted more moreTransactions hd t (hsuffix.subset ht))
    · exact accepted_step a ⟨r, hr, hp, ht⟩
  agrees t key row ht hkey hrow := h.agrees_step ha ht hkey hrow
  uploaded key row hrow hclean id hid := by
    obtain ⟨t, ht, hmem⟩ := h.uploaded_step ha hrow hclean hid
    exact ⟨t, accepted_step a ht, hmem⟩
  kept id hid := (h.kept_step ha hid).imp (fun hmem => hmem) fun ⟨t, ht, hmem⟩ => ⟨t, accepted_step a ht, hmem⟩

theorem recorded {s : System} (h : Run Uploading s) : s.Recorded :=
  h.invariant (fun _ hs => .of_initial hs) fun _ _ ha hr => hr.step ha

theorem uploads_lose_nothing {s : System} (h : Run Uploading s) :
    (∀ id < s.ledger.events,
      (∃ key row, s.transactions.find? key = some row ∧ row.updated = some 1 ∧ id ∈ s.ledger.held key ∧
        (s.ledger.held key).Nodup ∧ (s.ledger.held key).length ≤ row.counter) ∨
      ∃ t, s.Accepted t ∧ id ∈ t.counted) ∧
    (∀ t works table, s.Acknowledging t →
      acknowledgeUploadedTransaction t.model works s.transactions = some table →
        ∀ key, t.model.storedKey = some key → s.ledger.held key = t.counted) ∧
    ∀ chain uId today works, ∀ row ∈ s.transactions.rows, row.updated = some 1 →
      row ∈ (deleteTransactionSyncBeforeToday chain uId today works s.transactions).rows := by
  have hr := recorded h
  refine ⟨?_, ?_, ?_⟩
  · intro id hid
    obtain ⟨key, hmem⟩ | haccepted := hr.kept id hid
    · cases hrow : s.transactions.find? key with
      | none =>
        rw [hr.tallies.absent key hrow] at hmem
        cases hmem
      | some row =>
        by_cases hupdated : row.updated = some 1
        · obtain hnil | hcounter := hr.tallies.counter key row hrow
          · rw [hnil] at hmem
            cases hmem
          · exact .inl ⟨key, row, hrow, hupdated, hmem, hr.tallies.nodup key, hcounter⟩
        · exact .inr (hr.uploaded key row hrow hupdated id hmem)
    · exact .inr haccepted
  · intro t works table ht hack key hkey
    exact hr.held_eq_counted (acknowledging_pending ht).1 hack hkey
  · intro chain uId today works row hrow hupdated
    unfold deleteTransactionSyncBeforeToday
    split
    · refine List.mem_filter.mpr ⟨hrow, ?_⟩
      simp [hupdated]
    · exact hrow

end

section

variable [CanonicalText] [DecimalNumbers]

def calm (s : System) (a : Action) : Bool :=
  s.migrating.isNone &&
    match a with
    | .upsertTransactionsData event (some config) uId date _ =>
      (s.transactions.find? (event.key config uId date)).isSome || (s.requests.isEmpty && s.queue.isEmpty)
    | _ => true

theorem uploading_of_calm (s : System) (a : Action) (h : s.calm a) : s.Uploading a := by
  unfold calm at h
  obtain ⟨hm, h⟩ := Bool.and_eq_true_iff.mp h
  have hm : s.migrating = none := Option.isNone_iff_eq_none.mp hm
  cases a with
  | upsertTransactionsData event dataConfig uId date works =>
    cases dataConfig with
    | none => trivial
    | some config =>
      intro _ hnone t ht
      simp only [hnone, Option.isSome_none, Bool.false_or, Bool.and_eq_true, List.isEmpty_iff] at h
      obtain ⟨r, hr, _⟩ | ⟨assets, transactions, ⟨chain, uId, hb⟩, _⟩ := ht
      · rw [h.1] at hr
        cases hr
      · rw [h.2] at hb
        cases hb
  | proceed around => exact hm
  | _ => trivial

end

section

attribute [local instance] plainText precomposedText wholeNumbers

def keptActions : List Action :=
  sampleSave :: sampleUpload ++
    [.process 0, sampleSave, .answer 0 (some true), sampleProceed sampleNextDay, sampleProceed sampleNextDay]

theorem uploads_lose_nothing_sample :
    (∃ key row, (keptActions.foldl step sampleSystem).transactions.find? key = some row ∧ row.updated = some 1 ∧
      1 ∈ (keptActions.foldl step sampleSystem).ledger.held key ∧
      ((keptActions.foldl step sampleSystem).ledger.held key).Nodup ∧
      ((keptActions.foldl step sampleSystem).ledger.held key).length ≤ row.counter) ∨
    ∃ t, (keptActions.foldl step sampleSystem).Accepted t ∧ 1 ∈ t.counted := by
  have hrun : Run Uploading (keptActions.foldl step sampleSystem) :=
    .foldl uploading_of_calm (.start sampleSystem_initial) (by decide +kernel)
  exact (uploads_lose_nothing hrun).1 1 (by decide +kernel)

/-- Two requests hold one record, and the row is deleted and written again before the second is acknowledged. -/
def lostActions : List Action :=
  sampleSave :: sampleUpload ++ sampleUpload ++
    [.process 0, .process 1, .answer 0 (some true), sampleProceed sampleNextDay, sampleProceed sampleNextDay,
      sampleProceed sampleNextDay, sampleSave, .answer 1 (some true), sampleProceed sampleNextDay]

theorem uploads_may_lose :
    ∃ s, Run (fun s _ => s.migrating = none) s ∧ ∃ id < s.ledger.events,
      ¬ ((∃ key row, s.transactions.find? key = some row ∧ row.updated = some 1 ∧ id ∈ s.ledger.held key) ∨
        ∃ t, s.Accepted t ∧ id ∈ t.counted) := by
  refine ⟨lostActions.foldl step sampleSystem, ?_, 1, by decide +kernel, ?_⟩
  · have hallowed (s : System) (a : Action) (h : s.migrating.isNone) : s.migrating = none :=
      Option.isNone_iff_eq_none.mp h
    exact .foldl hallowed (.start sampleSystem_initial) (by decide +kernel)
  · have hrows : (lostActions.foldl step sampleSystem).transactions.rows.all fun row => row.updated ≠ some 1 := by
      decide +kernel
    have hcounted : (lostActions.foldl step sampleSystem).requests.all fun r =>
        r.transactions.all fun t => 1 ∉ t.counted := by
      decide +kernel
    rintro (⟨key, row, hrow, hupdated, _⟩ | ⟨t, ⟨r, hr, _, ht⟩, hid⟩)
    · have hne := List.all_eq_true.mp hrows row (Table.find?_eq_some.mp hrow).1
      exact absurd hupdated (by simpa using hne)
    · have hnot := List.all_eq_true.mp (List.all_eq_true.mp hcounted r hr) t ht
      exact absurd hid (by simpa using hnot)

end

end System

end TronlinkCore.Metrics
