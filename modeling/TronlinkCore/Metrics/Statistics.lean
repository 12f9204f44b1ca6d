import TronlinkCore.Metrics.Database

namespace TronlinkCore.Metrics

structure TransactionEvent where
  actionType : Int64
  tokenAddress : Text
  tokenAmount : Text
  energy : Text
  bandwidth : Text
  burn : Text
  deriving DecidableEq

def addingReportingOverflow (a b : Int64) : Int64 × Bool := (a + b, (a + b).toInt != a.toInt + b.toInt)

-- Stated at the zero that the numerals of `Fin 9` ask for.
instance neZero_buckets : @NeZero ℕ Zero.ofOfNat0 9 := ⟨by decide⟩

def amountBuckets : List (ℚ × Fin 9) :=
  [(1, 0), (10, 1), (100, 2), (1000, 3), (10000, 4), (100000, 5), (1000000, 6), (10000000, 7)]

section

variable [DecimalNumbers]

def distributionTokenAmount (tokenAmount : Text) (localHierarchy : Fin 9 → Int64) : Fin 9 → Int64 :=
  match DecimalNumbers.value tokenAmount with
  | none => localHierarchy
  | some amount =>
    if 0 < amount then
      let idx := ((amountBuckets.find? fun bucket => amount ≤ bucket.1).map Prod.snd).getD 8
      Function.update localHierarchy idx (localHierarchy idx + 1)
    else localHierarchy

variable [CanonicalText]

/-- The record of one event; `uId` stands for the wallet address, and `date` is the day of the call. -/
def makeTransactionSyncModel (event : TransactionEvent) (config : DataSource) (uId date : Text) :
    TransactionSyncModel where
  uId := some uId
  idType := some config.uploadWalletType
  actionType := some event.actionType
  count := some 1
  tokenAddress := some event.tokenAddress
  tokenAmount := some event.tokenAmount
  energy := some event.energy
  bandwidth := some event.bandwidth
  burn := some event.burn
  date := some date
  chain := some config.environmentKey
  updated := some true
  bucket :=
    if CanonicalText.same event.tokenAddress ['_'] || CanonicalText.same event.tokenAddress config.usdtContractAddress
    then fun i => some (distributionTokenAmount event.tokenAmount (fun _ => 0) i)
    else fun _ => none

def extendedBucket (increment previous : Option Int64) : Option (Option Int64) :=
  match increment with
  | none => some none
  | some increment =>
    let bucket := addingReportingOverflow (previous.getD 0) increment
    if 0 ≤ previous.getD 0 ∧ bucket.2 = false then some (some bucket.1) else none

def gathered {α : Type} {n : ℕ} (f : Fin n → Option α) : Option (Fin n → α) :=
  if h : ∀ i, (f i).isSome then some fun i => (f i).get (h i) else none

def extendTransaction (event : TransactionEvent) (model : TransactionSyncModel) :
    Option TransactionSyncModel → Option TransactionSyncModel
  | none => some model
  | some current => do
    let count := addingReportingOverflow (current.count.getD 0) 1
    if 0 ≤ current.count.getD 0 ∧ count.2 = false then
      let totalAmount ← decimalNumberByAdding (current.tokenAmount.getD []) event.tokenAmount
      let totalEnergy ← decimalNumberByAdding (current.energy.getD []) event.energy
      let totalBandwidth ← decimalNumberByAdding (current.bandwidth.getD []) event.bandwidth
      let totalBurn ← decimalNumberByAdding (current.burn.getD []) event.burn
      let bucket ← gathered fun i => extendedBucket (model.bucket i) (current.bucket i)
      some { model with
        count := some count.1
        tokenAmount := some (DecimalNumbers.stringValue totalAmount)
        energy := some (DecimalNumbers.stringValue totalEnergy)
        bandwidth := some (DecimalNumbers.stringValue totalBandwidth)
        burn := some (DecimalNumbers.stringValue totalBurn)
        bucket }
    else none

def TransactionEvent.key (event : TransactionEvent) (config : DataSource) (uId date : Text) : TransactionKey :=
  ⟨config.environmentKey, uId, event.actionType, event.tokenAddress, date⟩

/-- No table comes back where nothing is saved. -/
def upsertTransactionsData (event : TransactionEvent) (config : DataSource) (uId date : Text) (works : Bool)
    (table : TransactionSyncTable) : Option TransactionSyncTable :=
  if isCollectionDisabled config then none
  else if [event.tokenAmount, event.energy, event.bandwidth, event.burn].all
      fun number => (metricsDecimalNumber number).isSome then
    let model := makeTransactionSyncModel event config uId date
    mutateTransactionSync (event.key config uId date) (extendTransaction event model) works table
  else none

end

end TronlinkCore.Metrics
