import Mathlib.Algebra.Order.Field.Rat
import Mathlib.Data.Fintype.Pi
import Mathlib.Data.List.DropRight
import TronlinkCore.Library.Text

namespace TronlinkCore.Metrics

structure AssetSyncModel where
  uId : Option Text
  idType : Option Int64
  trxBalance : Option Text
  usdtBalance : Option Text
  usdBalance : Option Text
  date : Option Text
  chain : Option Text
  updated : Option Bool
  deriving DecidableEq

structure TransactionSyncModel where
  uId : Option Text
  idType : Option Int64
  actionType : Option Int64
  count : Option Int64
  tokenAddress : Option Text
  tokenAmount : Option Text
  energy : Option Text
  bandwidth : Option Text
  burn : Option Text
  date : Option Text
  /-- `A1`, …, `A9` -/
  bucket : Fin 9 → Option Int64
  chain : Option Text
  updated : Option Bool
  deriving DecidableEq

structure DataSource where
  /-- The object, for `===` -/
  reference : ℕ
  environmentKey : Text
  isShastaEnvironment : Bool
  isWatchWallet : Bool
  isBasicFunctionOpen : Bool
  isTokenCloudSyncClose : Bool
  walletAddress : Text
  uploadWalletType : Int64
  usdtContractAddress : Text
  isOnlineEnvironment : Bool
  isPreReleaseEnvironment : Bool
  deriving DecidableEq

def isCollectionDisabled : Option DataSource → Bool
  | none => true
  | some config =>
    config.isShastaEnvironment || config.isWatchWallet || config.isBasicFunctionOpen ||
      config.isTokenCloudSyncClose || config.environmentKey.isEmpty || config.walletAddress.isEmpty

/-- `==` of strings, which looks through canonical equivalence -/
class CanonicalText where
  same : Text → Text → Bool
  same_refl : ∀ s, same s s

def sameText [CanonicalText] : Option Text → Option Text → Bool
  | some s, some t => CanonicalText.same s t
  | none, none => true
  | _, _ => false

abbrev precomposedText : CanonicalText := ⟨fun s t => decide (s = t), fun _ => decide_eq_true rfl⟩

/-- `NSDecimalNumber`: a text that is not a number has no value, and an addition may fail. -/
class DecimalNumbers where
  value : Text → Option ℚ
  add : ℚ → ℚ → Option ℚ
  stringValue : ℚ → Text

def unsigned : Text → Text
  | '-' :: s => s
  | s => s

/-- `^[-]?[0-9]+(\.[0-9]+)?$` -/
def isPureNumber (s : Text) : Bool :=
  match (unsigned s).span Char.isDigit with
  | ([], _) => false
  | (_, []) => true
  | (_, point :: fraction) => point = '.' && !fraction.isEmpty && fraction.all Char.isDigit

section

variable [DecimalNumbers]

def metricsDecimalNumber (s : Text) : Option ℚ :=
  if s.isEmpty then some 0
  else if 257 < (Text.utf8 s).length ∨ ¬ isPureNumber s then none
  else
    match (unsigned s).splitOn '.' with
    | [integerPart] => if integerPart.length ≤ 127 then DecimalNumbers.value s else none
    | integerPart :: fraction :: _ =>
      if integerPart.length ≤ 127 ∧ fraction.length ≤ 128 then DecimalNumbers.value s else none
    | [] => none

def decimalNumberByAdding (s numberString : Text) : Option ℚ := do
  let left ← metricsDecimalNumber s
  let right ← metricsDecimalNumber numberString
  let result ← DecimalNumbers.add left right
  let _ ← metricsDecimalNumber (DecimalNumbers.stringValue result)
  some result

end

section

variable [Graphemes]

def removeLeadingZeros : Text → Text
  | [] => []
  | c :: s => if Text.hasPrefix (c :: s) ['0'] then removeLeadingZeros s else c :: s

def removeFloatSuffixZero (s : Text) : Text :=
  let returnString := if s.tails.any (Text.hasPrefix · ['.']) then s.rdropWhile (· = '0') else s
  let returnString := if returnString.getLast? = some '.' then returnString.dropLast else returnString
  let returnString := removeLeadingZeros returnString
  let returnString := if Text.hasPrefix returnString ['.'] then '0' :: returnString else returnString
  if returnString.isEmpty then ['0'] else returnString

end

end TronlinkCore.Metrics
