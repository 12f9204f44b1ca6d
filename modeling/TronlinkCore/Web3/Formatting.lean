import TronlinkCore.Library.DecimalTexts
import TronlinkCore.Web3.AmountsSpec

/-!
Amounts printed with so many decimals: the digits that do not fit are cut off,
or the first ones are written with an exponent.
-/

namespace TronlinkCore.Web3

open Text

structure StringOptions where
  fallbackToScientific : Bool
  stripZeroes : Bool

-- The texts here are digits, each a Character.

def leftPadding (s : Text) (toLength : ℕ) (character : Char) : Text :=
  if s.length < toLength then List.replicate (toLength - s.length) character ++ s else s.drop (s.length - toLength)

def slice (s : Text) (lower upper : ℕ) : Text := (s.take upper).drop lower

def offset (s : Text) : Option ℕ := (s.reverse.findIdx? (· ≠ '0')).map (s.length - ·)

/-- The loop over the digits, `firstDigit` of which are behind it: the new `fullRemainder` and `firstDigit` -/
def scientific (fullPaddedRemainder : Text) (decimals : ℕ) (decimalSeparator fullRemainder : Text) :
    ℕ → Text → Text × ℕ
  | firstDigit, [] => (fullRemainder, firstDigit)
  | firstDigit, char :: rest =>
    if char = '0' then scientific fullPaddedRemainder decimals decimalSeparator fullRemainder (firstDigit + 1) rest
    else
      let firstDecimalUnit := slice fullPaddedRemainder firstDigit (firstDigit + 1)
      let numOfRemainingDecimals : ℤ := fullPaddedRemainder.length - firstDigit - 1
      let remainingDigits :=
        if numOfRemainingDecimals ≤ 0 then []
        else if decimals < numOfRemainingDecimals then
          slice fullPaddedRemainder (firstDigit + 1)
            (if fullPaddedRemainder.length < firstDigit + 1 + decimals then fullPaddedRemainder.length
              else firstDigit + 1 + decimals)
        else slice fullPaddedRemainder (firstDigit + 1) fullPaddedRemainder.length
      (firstDecimalUnit ++ if remainingDigits.isEmpty then [] else decimalSeparator ++ remainingDigits, firstDigit + 1)

/-- `BigUInt.string(unitDecimals:decimals:decimalSeparator:options:)` -/
def BigUInt.string (x : ℕ) (unitDecimals decimals : ℤ) (decimalSeparator : Text) (options : StringOptions) : Text :=
  if 0 ≤ unitDecimals ∧ 0 ≤ decimals then
    if x = 0 then "0".toList
    else
      let toDecimals := (if unitDecimals < decimals then unitDecimals else decimals).toNat
      let divisor := 10 ^ unitDecimals.toNat
      let quotient := x / divisor
      let fullRemainder := Nat.toDigits 10 (x % divisor)
      let fullPaddedRemainder := leftPadding fullRemainder unitDecimals.toNat '0'
      let remainderPadded := slice fullPaddedRemainder 0 toDecimals
      match offset remainderPadded with
      | some offset =>
        if toDecimals = 0 then Nat.toDigits 10 quotient
        else if options.stripZeroes then Nat.toDigits 10 quotient ++ decimalSeparator ++ remainderPadded.take offset
        else Nat.toDigits 10 quotient ++ decimalSeparator ++ remainderPadded
      | none =>
        if quotient ≠ 0 ∨ options.fallbackToScientific = false then Nat.toDigits 10 quotient
        else
          let (fullRemainder, firstDigit) :=
            scientific fullPaddedRemainder decimals.toNat decimalSeparator fullRemainder 0 fullPaddedRemainder
          fullRemainder ++ "e-".toList ++ Nat.toDigits 10 firstDigit
  else []

end TronlinkCore.Web3
