import TronlinkCore.Library.IntTexts
import TronlinkCore.Library.Outcome
import TronlinkCore.Metrics.Database
import TronlinkCore.Web3.Amounts

namespace TronlinkCore.Metrics

open Outcome Text Web3

/-- `NSDecimalNumber` as reports use it; an operation without a result raises. -/
class ReportNumbers extends DecimalNumbers where
  multiplying : ℚ → ℚ → Option ℚ
  dividing : ℚ → ℚ → Option ℚ
  /-- `.down`, to so many digits after the point, with a handler that never raises -/
  rounding : ℕ → ℚ → ℚ

def raising {α : Type} : Option α → Outcome α
  | some a => ok a
  | none => trap

def fmt (s : Option Text) : Text := s.getD []

def fmtInt : Option Int64 → Text
  | some v => ofInt64 v
  | none => []

section

variable [ReportNumbers]

/-- The loop of `reportNumberPrecision`; the numbers overflow before the fuel runs out. -/
def precisionLoop (number : ℚ) : ℕ → ℚ → ℚ → Outcome ℚ
  | 0, _, _ => exhausted
  | fuel + 1, upperBound, precision =>
    if upperBound ≤ number then do
      let upperBound ← raising (ReportNumbers.multiplying upperBound 10)
      let precision ← raising (ReportNumbers.multiplying precision 10)
      precisionLoop number fuel upperBound precision
    else ok precision

def reportNumberPrecision (number : ℚ) : Outcome ℚ := precisionLoop number 256 100 (1 / 10)

variable [Segmentation] [Whitespace]

def reportNumber? (value : Option Text) : Option ℚ := do
  let value ← value.map trimming
  if 0 < count value ∧ count value ≤ 257 ∧ isPureNumber value then
    let integerDigits := ((unsigned value).takeWhile (· ≠ '.')).length
    if integerDigits ≤ 127 then DecimalNumbers.value value else none
  else none

def formatReportNumber (value : Option Text) : Outcome Text :=
  match reportNumber? value with
  | none => ok ['0']
  | some number => do
    let precision ← reportNumberPrecision number
    let quotient ← raising (ReportNumbers.dividing number precision)
    let floored := ReportNumbers.rounding 0 quotient
    let product ← raising (ReportNumbers.multiplying floored precision)
    ok (removeFloatSuffixZero (DecimalNumbers.stringValue (ReportNumbers.rounding 1 product)))

def assetRecord (m : AssetSyncModel) : Outcome Text := do
  let trxBalance ← formatReportNumber m.trxBalance
  let usdtBalance ← formatReportNumber m.usdtBalance
  let usdBalance ← formatReportNumber m.usdBalance
  let fields := ["V1X".toList, fmt m.uId, fmtInt m.idType, trxBalance, usdtBalance, usdBalance, fmt m.date]
  ok (['|'].intercalate fields ++ ['|'])

def buildAssetParameter (models : List AssetSyncModel) : Outcome Text := do
  let parts ← models.mapM assetRecord
  ok parts.flatten

end

def bucketText (i : Fin 9) (v : Int64) : Text := 'A' :: Nat.toDigits 10 (i.val + 1) ++ ':' :: ofInt64 v

def aParts (m : TransactionSyncModel) : List Text :=
  (List.finRange 9).filterMap fun i => ((m.bucket i).filter (0 < ·)).map (bucketText i)

def recordFields (m : TransactionSyncModel) : List Text :=
  let recordFields := ["V1Y".toList, fmt m.uId, fmtInt m.idType, fmtInt m.actionType, fmtInt m.count,
    fmt m.tokenAddress, fmt m.tokenAmount, fmt m.energy, fmt m.bandwidth, fmt m.burn, fmt m.date]
  let aField := [','].intercalate (aParts m)
  if aField.isEmpty then recordFields else recordFields ++ [aField]

def buildTransactionsParameter (models : List TransactionSyncModel) : Text :=
  (models.map fun m => ['|'].intercalate (recordFields m) ++ ['|']).flatten

end TronlinkCore.Metrics
