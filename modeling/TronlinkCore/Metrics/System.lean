import TronlinkCore.Metrics.Statistics

/-!
The statistics as a whole: the tables, the serial queue of the upload manager,
the requests in flight and the server. Events are saved and balances are written
at any time between two steps of the queue.
-/

namespace TronlinkCore.Metrics

def AssetSyncModel.storedKey (model : AssetSyncModel) : Option AssetKey := do
  let chain ← model.chain
  let uId ← model.uId
  let date ← model.date
  some ⟨chain, uId, date⟩

def TransactionSyncModel.storedKey (model : TransactionSyncModel) : Option TransactionKey := do
  let chain ← model.chain
  let uId ← model.uId
  let actionType ← model.actionType
  let tokenAddress ← model.tokenAddress
  let date ← model.date
  some ⟨chain, uId, actionType, tokenAddress, date⟩

structure Snapshot where
  model : TransactionSyncModel
  counted : List ℕ

structure Request where
  chain : Text
  uId : Text
  assets : List AssetSyncModel
  transactions : List Snapshot
  processed : Bool
  answered : Bool

inductive Block where
  | uploading
  | migrating (config : DataSource) (assets : List AssetSyncModel) (transactions : List TransactionSyncModel)
      (allSucceeded : Bool)
  | readingAssets (config : DataSource)
  | readingTransactions (config : DataSource) (uId : Text) (assets : List AssetSyncModel)
  | acknowledging (chain uId : Text) (assets : List AssetSyncModel) (transactions : List Snapshot)
  | deletingTransactions (chain uId : Text)

/-- No code reads it: how many events have been saved, and which of them the row of a key counts. -/
structure Ledger where
  events : ℕ
  held : TransactionKey → List ℕ

structure System where
  assets : AssetSyncTable
  transactions : TransactionSyncTable
  migrated : Text → Bool
  queue : List Block
  requests : List Request
  /-- The last processed record of each key -/
  server : AssetKey → Option AssetSyncModel
  ledger : Ledger

structure Surroundings where
  dataConfig : Option DataSource
  legacyAssets : List AssetSyncModel
  legacyTransactions : List TransactionSyncModel
  uId : Text
  today : Text
  works : Bool
  stops : Option ℕ

inductive Action where
  | upsertTransactionsData (event : TransactionEvent) (dataConfig : Option DataSource) (uId date : Text) (works : Bool)
  | upsertAssetData (model : AssetSyncModel) (dataConfig : Option DataSource) (works : Bool)
  | uploadStatisticalData (dataConfig : Option DataSource)
  /-- The first block of the queue takes its next step. -/
  | proceed (around : Surroundings)
  | process (request : ℕ)
  /-- `isUploadSuccess`, or the failure callback -/
  | answer (request : ℕ) (isUploadSuccess : Option Bool)

def isCurrentUploadConfig [CanonicalText] (config : DataSource) (dataConfig : Option DataSource) : Bool :=
  match dataConfig with
  | none => false
  | some current =>
    current.reference = config.reference && !isCollectionDisabled (some current) &&
      (current.isOnlineEnvironment || current.isPreReleaseEnvironment) &&
      CanonicalText.same current.environmentKey config.environmentKey &&
      CanonicalText.same current.walletAddress config.walletAddress

namespace Ledger

def save (l : Ledger) (key : TransactionKey) : Ledger where
  events := l.events + 1
  held := Function.update l.held key (l.held key ++ [l.events])

def migrate (l : Ledger) (model : TransactionSyncModel) : Ledger where
  events := l.events
  held := Function.update l.held model.key []

theorem held_save_self (l : Ledger) (key : TransactionKey) : (l.save key).held key = l.held key ++ [l.events] :=
  Function.update_self _ _ _

theorem held_save_of_ne (l : Ledger) {key other : TransactionKey} (h : other ≠ key) :
    (l.save key).held other = l.held other := Function.update_of_ne h _ _

theorem mem_held_save_self (l : Ledger) (key : TransactionKey) : l.events ∈ (l.save key).held key := by
  rw [l.held_save_self]
  exact List.mem_append_right _ List.mem_cons_self

theorem mem_held_save (l : Ledger) {key other : TransactionKey} {id : ℕ} (h : id ∈ l.held other) :
    id ∈ (l.save key).held other := by
  by_cases hne : other = key
  · subst hne
    rw [l.held_save_self]
    exact List.mem_append_left _ h
  · rwa [l.held_save_of_ne hne]

theorem held_migrate_self (l : Ledger) (model : TransactionSyncModel) : (l.migrate model).held model.key = [] :=
  Function.update_self _ _ _

theorem held_migrate_of_ne (l : Ledger) {model : TransactionSyncModel} {key : TransactionKey} (h : key ≠ model.key) :
    (l.migrate model).held key = l.held key := Function.update_of_ne h _ _

def prune (l : Ledger) (table : TransactionSyncTable) : Ledger where
  events := l.events
  held := fun key => if (table.find? key).isSome then l.held key else []

theorem held_prune_of_some (l : Ledger) {table : TransactionSyncTable} {key : TransactionKey} {row : TransactionRow}
    (h : table.find? key = some row) : (l.prune table).held key = l.held key := by
  simp [prune, h]

theorem held_prune_of_none (l : Ledger) {table : TransactionSyncTable} {key : TransactionKey}
    (h : table.find? key = none) : (l.prune table).held key = [] := by
  simp [prune, h]

end Ledger

def received (server : AssetKey → Option AssetSyncModel) (model : AssetSyncModel) : AssetKey → Option AssetSyncModel :=
  match model.storedKey with
  | some key => Function.update server key (some model)
  | none => server

namespace System

variable [CanonicalText]

def snapshots (s : System) (chain uId : Text) (stops : Option ℕ) : List Snapshot :=
  (getUpdatedTransactionSyncModels chain uId stops s.transactions).map fun model =>
    ⟨model, (model.storedKey.map s.ledger.held).getD []⟩

def push (s : System) (block : Block) : System := { s with queue := block :: s.queue }

def acknowledgeAsset (s : System) (uploaded : AssetSyncModel) (works : Bool) : System :=
  { s with assets := (acknowledgeUploadedAsset uploaded works s.assets).getD s.assets }

def acknowledgeTransaction (s : System) (uploaded : TransactionSyncModel) (works : Bool) : System :=
  { s with transactions := (acknowledgeUploadedTransaction uploaded works s.transactions).getD s.transactions }

def deleteTransactions (s : System) (chain uId today : Text) (works : Bool) : System :=
  let transactions := deleteTransactionSyncBeforeToday chain uId today works s.transactions
  { s with transactions, ledger := s.ledger.prune transactions }

def migrateTransaction (s : System) (model : TransactionSyncModel) (works : Bool) : System :=
  match upsertTransactionSync model works s.transactions with
  | some transactions => { s with transactions, ledger := s.ledger.migrate model }
  | none => s

def saveTransaction [DecimalNumbers] (s : System) (event : TransactionEvent) (config : DataSource) (uId date : Text)
    (works : Bool) : System :=
  match upsertTransactionsData event config uId date works s.transactions with
  | some transactions => { s with transactions, ledger := s.ledger.save (event.key config uId date) }
  | none => s

/-- The start of a block of `uploadStatisticalData`, up to the first record to migrate -/
def begin (s : System) (around : Surroundings) : System :=
  match around.dataConfig with
  | none => s
  | some config =>
    if isCollectionDisabled config then s
    else if config.environmentKey.isEmpty || s.migrated config.environmentKey then s.push (.readingAssets config)
    else s.push (.migrating config around.legacyAssets around.legacyTransactions true)

def perform (s : System) (around : Surroundings) : Block → System
  | .uploading => s.begin around
  | .migrating config (model :: assets) transactions allSucceeded =>
    match upsertAssetSync model around.works s.assets with
    | some table => { s with assets := table }.push (.migrating config assets transactions allSucceeded)
    | none => s.push (.migrating config assets transactions false)
  | .migrating config [] (model :: transactions) allSucceeded =>
    (s.migrateTransaction model around.works).push (.migrating config [] transactions
      (allSucceeded && (upsertTransactionSync model around.works s.transactions).isSome))
  | .migrating config [] [] allSucceeded =>
    { s with migrated := if allSucceeded then Function.update s.migrated config.environmentKey true else s.migrated
      }.push (.readingAssets config)
  | .readingAssets config =>
    if isCurrentUploadConfig config around.dataConfig then
      s.push (.readingTransactions config around.uId
        (getUpdatedAssetSyncModels config.environmentKey around.uId around.stops s.assets))
    else s
  | .readingTransactions config uId assets =>
    let transactions := s.snapshots config.environmentKey uId around.stops
    if (assets.isEmpty && transactions.isEmpty) || !isCurrentUploadConfig config around.dataConfig then s
    else { s with requests := s.requests ++ [⟨config.environmentKey, uId, assets, transactions, false, false⟩] }
  | .acknowledging chain uId (model :: assets) transactions =>
    (s.acknowledgeAsset model around.works).push (.acknowledging chain uId assets transactions)
  | .acknowledging chain uId [] (snapshot :: transactions) =>
    (s.acknowledgeTransaction snapshot.model around.works).push (.acknowledging chain uId [] transactions)
  | .acknowledging chain uId [] [] =>
    { s with assets := deleteAssetsBeforeToday chain uId around.today around.works s.assets
      }.push (.deletingTransactions chain uId)
  | .deletingTransactions chain uId => s.deleteTransactions chain uId around.today around.works

def process (s : System) (i : ℕ) : System :=
  match s.requests[i]? with
  | some request =>
    if request.processed then s
    else { s with
      requests := s.requests.set i { request with processed := true }
      server := request.assets.foldl received s.server }
  | none => s

/-- A success means that the server has processed the request. -/
def answer (s : System) (i : ℕ) (isUploadSuccess : Option Bool) : System :=
  match s.requests[i]? with
  | some request =>
    if request.answered ∨ (isUploadSuccess = some true ∧ ¬ request.processed) then s
    else { s with
      requests := s.requests.set i { request with answered := true }
      queue :=
        if isUploadSuccess = some true then
          s.queue ++ [.acknowledging request.chain request.uId request.assets request.transactions]
        else s.queue }
  | none => s

variable [Graphemes] [DecimalNumbers]

def step (s : System) : Action → System
  | .upsertTransactionsData event dataConfig uId date works =>
    match dataConfig with
    | some config => s.saveTransaction event config uId date works
    | none => s
  | .upsertAssetData model dataConfig works =>
    if isCollectionDisabled dataConfig then s
    else { s with assets := (upsertAssetSync_compareAndUpsert model works s.assets).getD s.assets }
  | .uploadStatisticalData dataConfig =>
    if isCollectionDisabled dataConfig then s else { s with queue := s.queue ++ [.uploading] }
  | .proceed around =>
    match s.queue with
    | [] => s
    | block :: queue => { s with queue }.perform around block
  | .process i => s.process i
  | .answer i isUploadSuccess => s.answer i isUploadSuccess

structure Initial (s : System) : Prop where
  queue : s.queue = []
  requests : s.requests = []
  server : s.server = fun _ => none
  events : s.ledger.events = 0
  held : s.ledger.held = fun _ => []

/-- The states of the runs whose actions are all allowed in the states they are taken in -/
inductive Run (Allowed : System → Action → Prop) : System → Prop where
  | start {s : System} (initial : s.Initial) : Run Allowed s
  | step {s : System} (a : Action) (before : Run Allowed s) (allowed : Allowed s a) : Run Allowed (s.step a)

theorem Run.invariant {Allowed : System → Action → Prop} {P : System → Prop}
    (hstart : ∀ s : System, s.Initial → P s) (hstep : ∀ (s : System) a, Allowed s a → P s → P (s.step a))
    {s : System} (h : Run Allowed s) : P s := by
  induction h with
  | start initial => exact hstart _ initial
  | step a _ allowed ih => exact hstep _ a allowed ih

def allows (allowed : System → Action → Bool) (s : System) : List Action → Bool
  | [] => true
  | a :: actions => allowed s a && allows allowed (s.step a) actions

theorem Run.foldl {Allowed : System → Action → Prop} {allowed : System → Action → Bool}
    (hallowed : ∀ s a, allowed s a → Allowed s a) {s : System} (h : Run Allowed s) {actions : List Action}
    (hactions : s.allows allowed actions) : Run Allowed (actions.foldl System.step s) := by
  induction actions generalizing s with
  | nil => exact h
  | cons a actions ih =>
    rw [allows, Bool.and_eq_true] at hactions
    exact ih (h.step a (hallowed s a hactions.1)) hactions.2

end System

abbrev wholeNumbers : DecimalNumbers where
  value s := if !s.isEmpty && s.all Char.isDigit then some (Nat.ofDigitChars 10 s 0) else none
  add a b := some (a + b)
  stringValue a := Nat.toDigits 10 a.num.toNat

def sampleSource : DataSource where
  reference := 0
  environmentKey := "MainNet".toList
  isShastaEnvironment := false
  isWatchWallet := false
  isBasicFunctionOpen := false
  isTokenCloudSyncClose := false
  walletAddress := "T9yD14Nj9j7xAB4dbGeiX9h8unkKHxuWwb".toList
  uploadWalletType := 1
  usdtContractAddress := "TR7NHqjeKQxGTCi8q8ZY4pL8otSzgjLj6t".toList
  isOnlineEnvironment := true
  isPreReleaseEnvironment := false

def sampleEvent : TransactionEvent where
  actionType := 1
  tokenAddress := "_".toList
  tokenAmount := "5".toList
  energy := []
  bandwidth := "270".toList
  burn := []

def sampleUId : Text := "a1b2".toList

def sampleSystem : System where
  assets := .empty
  transactions := .empty
  migrated := fun _ => true
  queue := []
  requests := []
  server := fun _ => none
  ledger := ⟨0, fun _ => []⟩

theorem sampleSystem_initial : sampleSystem.Initial := ⟨rfl, rfl, rfl, rfl, rfl⟩

def sampleDay : Text := "2026-01-31".toList

def sampleNextDay : Text := "2026-02-01".toList

def sampleSave : Action := .upsertTransactionsData sampleEvent (some sampleSource) sampleUId sampleDay true

def sampleProceed (today : Text) : Action := .proceed ⟨some sampleSource, [], [], sampleUId, today, true, none⟩

def sampleUpload : List Action :=
  [.uploadStatisticalData (some sampleSource), sampleProceed sampleDay, sampleProceed sampleDay,
    sampleProceed sampleDay]

end TronlinkCore.Metrics
