import TronlinkCore.Library.Table
import TronlinkCore.Metrics.Models

/-!
The tables of the statistics. A write either is committed or leaves its table as
it was; `works` says whether its statements and its commit succeed.
-/

namespace TronlinkCore.Metrics

structure AssetRow where
  uId : Option Text
  idType : Option Int64
  trxBalance : Option Text
  usdtBalance : Option Text
  usdBalance : Option Text
  date : Option Text
  chain : Option Text
  updated : Option Int64
  deriving DecidableEq

structure AssetKey where
  chain : Text
  uId : Text
  date : Text
  deriving DecidableEq

/-- `UNIQUE(chain, uId, date)`: `NULL` is distinct from everything. -/
def AssetRow.key (row : AssetRow) : Option AssetKey := do
  let chain ← row.chain
  let uId ← row.uId
  let date ← row.date
  some ⟨chain, uId, date⟩

structure TransactionRow where
  uId : Option Text
  idType : Option Int64
  actionType : Option Int64
  count : Option Int64
  tokenAddress : Option Text
  tokenAmount : Option Text
  energy : Option Text
  bandwidth : Option Text
  burn : Option Text
  date : Option Text
  bucket : Fin 9 → Option Int64
  chain : Option Text
  updated : Option Int64
  deriving DecidableEq

structure TransactionKey where
  chain : Text
  uId : Text
  actionType : Int64
  tokenAddress : Text
  date : Text
  deriving DecidableEq

/-- `UNIQUE(chain, uId, actionType, tokenAddress, date)` -/
def TransactionRow.key (row : TransactionRow) : Option TransactionKey := do
  let chain ← row.chain
  let uId ← row.uId
  let actionType ← row.actionType
  let tokenAddress ← row.tokenAddress
  let date ← row.date
  some ⟨chain, uId, actionType, tokenAddress, date⟩

abbrev AssetSyncTable := Table AssetRow.key

abbrev TransactionSyncTable := Table TransactionRow.key

def flag (updated : Bool) : Int64 := if updated then 1 else 0

def fetched {α : Type} (stops : Option ℕ) (rows : List α) : List α :=
  match stops with
  | some count => rows.take count
  | none => rows

theorem fetched_sublist {α : Type} (stops : Option ℕ) (rows : List α) : (fetched stops rows).Sublist rows := by
  cases stops with
  | none => exact .refl _
  | some count => exact List.take_sublist count rows

def makeAssetSync (row : AssetRow) : AssetSyncModel where
  uId := row.uId
  idType := row.idType
  trxBalance := row.trxBalance
  usdtBalance := row.usdtBalance
  usdBalance := row.usdBalance
  date := row.date
  chain := row.chain
  updated := some (row.updated.getD 0 != 0)

def copyAssetSyncModel (model : AssetSyncModel) (updated : Bool) : AssetSyncModel :=
  { model with updated := some updated }

def insertAssetSyncTable_internal (model : AssetSyncModel) (table : AssetSyncTable) : Option AssetSyncTable :=
  table.insert? {
    uId := some (model.uId.getD [])
    idType := model.idType
    trxBalance := some (model.trxBalance.getD [])
    usdtBalance := some (model.usdtBalance.getD [])
    usdBalance := some (model.usdBalance.getD [])
    date := some (model.date.getD [])
    chain := some (model.chain.getD [])
    updated := some (flag (model.updated.getD false)) }

/-- The columns of an update; a missing field keeps its column. -/
def AssetRow.set (idType : Int64) (model : AssetSyncModel) (row : AssetRow) : AssetRow :=
  { row with
    idType := some idType
    trxBalance := model.trxBalance.or row.trxBalance
    usdtBalance := model.usdtBalance.or row.usdtBalance
    usdBalance := model.usdBalance.or row.usdBalance
    updated := (model.updated.map flag).or row.updated }

theorem AssetRow.set_key (idType : Int64) (model : AssetSyncModel) (row : AssetRow) :
    (AssetRow.set idType model row).key = row.key := rfl

def updateAssetSync_internal (key : AssetKey) (idType : Int64) (model : AssetSyncModel) (table : AssetSyncTable) :
    Option AssetSyncTable :=
  if model.trxBalance = none ∧ model.usdtBalance = none ∧ model.usdBalance = none ∧ model.updated = none then none
  else some (table.update key (AssetRow.set idType model) (AssetRow.set_key idType model))

def deleteAssetsBeforeToday (chain uId today : Text) (works : Bool) (table : AssetSyncTable) : AssetSyncTable :=
  if works then
    table.delete fun row =>
      row.chain = some chain ∧ row.uId = some uId ∧ (∃ date ∈ row.date, date < today) ∧ row.updated = some 0
  else table

def getUpdatedAssetSyncModels (chain uId : Text) (stops : Option ℕ) (table : AssetSyncTable) : List AssetSyncModel :=
  (fetched stops (table.rows.filter fun row =>
    row.chain = some chain ∧ row.uId = some uId ∧ row.updated = some 1)).map makeAssetSync

def AssetSyncModel.key (model : AssetSyncModel) : AssetKey :=
  ⟨model.chain.getD [], model.uId.getD [], model.date.getD []⟩

def AssetRow.clear (row : AssetRow) : AssetRow :=
  if row.updated = some 1 then { row with updated := some 0 } else row

theorem AssetRow.clear_key (row : AssetRow) : row.clear.key = row.key := by
  unfold clear
  split <;> rfl

section

variable [CanonicalText]

def sameAsset (current uploaded : AssetSyncModel) : Bool :=
  sameText current.uId uploaded.uId && current.idType == uploaded.idType &&
    sameText current.trxBalance uploaded.trxBalance && sameText current.usdtBalance uploaded.usdtBalance &&
    sameText current.usdBalance uploaded.usdBalance && sameText current.date uploaded.date &&
    sameText current.chain uploaded.chain

/-- No table comes back where nothing is acknowledged. -/
def acknowledgeUploadedAsset (uploaded : AssetSyncModel) (works : Bool) (table : AssetSyncTable) :
    Option AssetSyncTable := do
  let chain ← uploaded.chain
  let uId ← uploaded.uId
  let date ← uploaded.date
  let row ← table.find? ⟨chain, uId, date⟩
  let current := makeAssetSync row
  if current.updated = some true ∧ sameAsset current uploaded ∧ works then
    some (table.update ⟨chain, uId, date⟩ AssetRow.clear AssetRow.clear_key)
  else none

end

def balancesDiffer [CanonicalText] [Graphemes] (row : AssetRow) (model : AssetSyncModel) : Bool :=
  let oldTrxClean := removeFloatSuffixZero (row.trxBalance.getD [])
  let oldUsdtClean := removeFloatSuffixZero (row.usdtBalance.getD [])
  let oldUsdClean := removeFloatSuffixZero (row.usdBalance.getD [])
  let newTrxClean := removeFloatSuffixZero (model.trxBalance.getD [])
  let newUsdtClean := removeFloatSuffixZero (model.usdtBalance.getD [])
  let newUsdClean := removeFloatSuffixZero (model.usdBalance.getD [])
  (!oldTrxClean.isEmpty && !newTrxClean.isEmpty && !CanonicalText.same oldTrxClean newTrxClean) ||
    (!oldUsdtClean.isEmpty && !newUsdtClean.isEmpty && !CanonicalText.same oldUsdtClean newUsdtClean) ||
    (!newUsdClean.isEmpty && !CanonicalText.same oldUsdClean newUsdClean)

def upsertAssetSync_compareAndUpsert [CanonicalText] [Graphemes] (model : AssetSyncModel) (works : Bool)
    (table : AssetSyncTable) : Option AssetSyncTable :=
  let written :=
    match table.find? model.key with
    | some row =>
      if balancesDiffer row model then
        updateAssetSync_internal model.key (model.idType.getD 0) (copyAssetSyncModel model true) table
      else none
    | none => insertAssetSyncTable_internal (copyAssetSyncModel model true) table
  if works then written else none

def upsertAssetSync (model : AssetSyncModel) (works : Bool) (table : AssetSyncTable) : Option AssetSyncTable :=
  let written :=
    match table.find? model.key with
    | some _ => updateAssetSync_internal model.key (model.idType.getD 0) model table
    | none => insertAssetSyncTable_internal model table
  if works then written else none

def makeTransactionSync (row : TransactionRow) : TransactionSyncModel where
  uId := row.uId
  idType := row.idType
  actionType := row.actionType
  count := row.count
  tokenAddress := row.tokenAddress
  tokenAmount := row.tokenAmount
  energy := row.energy
  bandwidth := row.bandwidth
  burn := row.burn
  date := row.date
  bucket := fun i => some ((row.bucket i).getD 0)
  chain := row.chain
  updated := some (row.updated == some 1)

def insertedTransaction (model : TransactionSyncModel) : TransactionRow where
  uId := some (model.uId.getD [])
  idType := model.idType
  actionType := model.actionType
  count := model.count
  tokenAddress := some (model.tokenAddress.getD [])
  tokenAmount := some (model.tokenAmount.getD [])
  energy := some (model.energy.getD [])
  bandwidth := some (model.bandwidth.getD [])
  burn := some (model.burn.getD [])
  date := some (model.date.getD [])
  bucket := fun i => some ((model.bucket i).getD 0)
  chain := some (model.chain.getD [])
  updated := some (flag (model.updated.getD false))

def insertTransactionSync_internal (model : TransactionSyncModel) (table : TransactionSyncTable) :
    Option TransactionSyncTable := table.insert? (insertedTransaction model)

def TransactionRow.set (model : TransactionSyncModel) (row : TransactionRow) : TransactionRow :=
  { row with
    idType := model.idType.or row.idType
    count := model.count.or row.count
    tokenAmount := model.tokenAmount.or row.tokenAmount
    energy := model.energy.or row.energy
    bandwidth := model.bandwidth.or row.bandwidth
    burn := model.burn.or row.burn
    updated := (model.updated.map flag).or row.updated
    bucket := fun i => (model.bucket i).or (row.bucket i) }

theorem TransactionRow.set_key (model : TransactionSyncModel) (row : TransactionRow) :
    (TransactionRow.set model row).key = row.key := rfl

def updateTransactionSync_internal (key : TransactionKey) (model : TransactionSyncModel)
    (table : TransactionSyncTable) : Option TransactionSyncTable :=
  if model.idType = none ∧ model.count = none ∧ model.tokenAmount = none ∧ model.energy = none ∧
      model.bandwidth = none ∧ model.burn = none ∧ model.updated = none ∧ ∀ i, model.bucket i = none then none
  else some (table.update key (TransactionRow.set model) (TransactionRow.set_key model))

def deleteTransactionSyncBeforeToday (chain uId today : Text) (works : Bool) (table : TransactionSyncTable) :
    TransactionSyncTable :=
  if works then
    table.delete fun row =>
      row.chain = some chain ∧ row.uId = some uId ∧ (∃ date ∈ row.date, date < today) ∧ row.updated = some 0
  else table

def getUpdatedTransactionSyncModels (chain uId : Text) (stops : Option ℕ) (table : TransactionSyncTable) :
    List TransactionSyncModel :=
  (fetched stops (table.rows.filter fun row =>
    row.chain = some chain ∧ row.uId = some uId ∧ row.updated = some 1)).map makeTransactionSync

def TransactionRow.clear (row : TransactionRow) : TransactionRow :=
  if row.updated = some 1 then { row with updated := some 0 } else row

theorem TransactionRow.clear_key (row : TransactionRow) : row.clear.key = row.key := by
  unfold clear
  split <;> rfl

section

variable [CanonicalText]

def sameTransaction (current uploaded : TransactionSyncModel) : Bool :=
  sameText current.uId uploaded.uId && current.idType == uploaded.idType &&
    current.actionType == uploaded.actionType && current.count == uploaded.count &&
    sameText current.tokenAddress uploaded.tokenAddress && sameText current.tokenAmount uploaded.tokenAmount &&
    sameText current.energy uploaded.energy && sameText current.bandwidth uploaded.bandwidth &&
    sameText current.burn uploaded.burn && sameText current.date uploaded.date &&
    sameText current.chain uploaded.chain && current.bucket == uploaded.bucket

def acknowledgeUploadedTransaction (uploaded : TransactionSyncModel) (works : Bool) (table : TransactionSyncTable) :
    Option TransactionSyncTable := do
  let chain ← uploaded.chain
  let uId ← uploaded.uId
  let actionType ← uploaded.actionType
  let tokenAddress ← uploaded.tokenAddress
  let date ← uploaded.date
  let row ← table.find? ⟨chain, uId, actionType, tokenAddress, date⟩
  let current := makeTransactionSync row
  if current.updated = some true ∧ sameTransaction current uploaded ∧ works then
    some (table.update ⟨chain, uId, actionType, tokenAddress, date⟩ TransactionRow.clear TransactionRow.clear_key)
  else none

end

def mutateTransactionSync (key : TransactionKey)
    (transform : Option TransactionSyncModel → Option TransactionSyncModel) (works : Bool)
    (table : TransactionSyncTable) : Option TransactionSyncTable := do
  let current := (table.find? key).map makeTransactionSync
  let model ← transform current
  if works then
    if current.isSome then updateTransactionSync_internal key model table
    else insertTransactionSync_internal model table
  else none

/-- A model without an action type is looked up under -1. -/
def TransactionSyncModel.key (model : TransactionSyncModel) : TransactionKey :=
  ⟨model.chain.getD [], model.uId.getD [], model.actionType.getD (-1), model.tokenAddress.getD [],
    model.date.getD []⟩

def upsertTransactionSync (model : TransactionSyncModel) (works : Bool) (table : TransactionSyncTable) :
    Option TransactionSyncTable := mutateTransactionSync model.key (fun _ => some model) works table

end TronlinkCore.Metrics
