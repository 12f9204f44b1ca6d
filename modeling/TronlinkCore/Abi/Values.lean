import TronlinkCore.Library.BigEndian
import TronlinkCore.Library.Text
import Mathlib.Data.List.Basic

namespace TronlinkCore.Abi

open Text BigEndian

section

variable [Graphemes]

def isDigitByte (b : UInt8) : Bool := 48 ≤ b && b ≤ 57

def isHexByte (b : UInt8) : Bool := isDigitByte b || (65 ≤ b && b ≤ 70) || (97 ≤ b && b ≤ 102)

def isHex (s : Text) : Bool := hasPrefix s "0x".toList

def withHex (s : Text) : Text := if isHex s then s else "0x".toList ++ s

def withoutHex (s : Text) : Text := if isHex s then s.drop 2 else s

-- Letters outside ASCII are kept: no case mapping of theirs is a hexadecimal digit.
def lowercased (s : Text) : Text := s.map Char.toLower

/-- `Data(hexString:)` -/
def dataOfHexString (s : Text) : Option (List UInt8) :=
  ofHexPairs (if hasPrefix s "0x".toList then s.drop 2 else s)

def fromHex (s : Text) : Option (List UInt8) := do
  let string := withoutHex (lowercased s)
  let data ← dataOfHexString string
  if data.length = 0 then if string = [] then some [] else none else some data

inductive AddressType where
  | normal
  | contractDeployment
  deriving DecidableEq

structure Web3Address where
  _address : Text
  type : AddressType
  deriving DecidableEq

namespace Web3Address

def ofString (addressString : Text) : Web3Address where
  _address := if hasPrefix addressString "0X".toList then "0x".toList ++ addressString.drop 2
    else withHex addressString
  type := .normal

def ofData (addressData : List UInt8) : Web3Address := ⟨withHex (hex addressData), .normal⟩

def addressData (a : Web3Address) : List UInt8 :=
  match a.type with
  | .normal => (fromHex a._address).getD []
  | .contractDeployment => []

def isValid (a : Web3Address) : Bool :=
  match a.type with
  | .normal => a.addressData.length = 20
  | .contractDeployment => true

end Web3Address

def evmAddress20 (raw : List UInt8) : Option (List UInt8) :=
  if raw.length = 20 then some raw
  else if raw.length = 21 ∧ (raw.head? = some 0x41 ∨ raw.head? = some 0) then some (raw.drop 1)
  else if raw.length = 32 ∧ (raw.take 12).all (· == 0) then some (raw.drop 12)
  else none

/-- `scaledValue / 10^decimals` -/
structure FixedPoint where
  scaledValue : ℤ
  decimals : UInt64
  decimals_range : 1 ≤ decimals ∧ decimals ≤ 80
  bitWidth_le : bitWidth scaledValue.natAbs ≤ 256
  deriving DecidableEq

namespace FixedPoint

def ofScaled (scaledValue : ℤ) (decimals : UInt64) : Option FixedPoint :=
  if h : (1 ≤ decimals ∧ decimals ≤ 80) ∧ bitWidth scaledValue.natAbs ≤ 256 then
    some ⟨scaledValue, decimals, h.1, h.2⟩
  else none

def ofDecimal (decimal : Text) (decimals : UInt64) : Option FixedPoint := do
  guard (1 ≤ decimals ∧ decimals ≤ 80)
  let negative := hasPrefix decimal "-".toList
  let text := if negative || hasPrefix decimal "+".toList then decimal.drop 1 else decimal
  let parts := text.splitOn '.'
  guard ((parts.length = 1 ∨ parts.length = 2) ∧
    parts.all fun part => !part.isEmpty && (utf8 part).all isDigitByte)
  let precision := decimals.toNat
  let fraction := (parts.drop 1).headD []
  guard ((fraction.drop precision).all (· == '0'))
  let digits := parts.headD [] ++ fraction.take precision ++ List.replicate (precision - fraction.length) '0'
  let significant := digits.dropWhile (· == '0')
  guard (significant.length ≤ 78)
  let magnitude ← numeral 10 (if significant.isEmpty then "0".toList else significant)
  ofScaled (if negative then -(magnitude : ℤ) else magnitude) decimals

end FixedPoint

inductive AnyObject where
  | bigUInt (value : ℕ)
  | bigInt (value : ℤ)
  /-- A whole `NSNumber`, the form of every fixed-width integer and of `Bool`. -/
  | number (value : ℤ)
  | string (value : Text)
  | data (value : List UInt8)
  | web3Address (value : Web3Address)
  | fixedPoint (value : FixedPoint)
  | array (elements : List AnyObject)
  | other

def integerString (value : Text) (limitToABIWord : Bool) : Option ℤ := do
  let negative := hasPrefix value "-".toList
  let digits := if negative || hasPrefix value "+".toList then value.drop 1 else value
  let prefixed := hasPrefix digits "0x".toList || hasPrefix digits "0X".toList
  let radix := if prefixed then 16 else if (utf8 digits).all isDigitByte then 10 else 16
  let digits := if prefixed then digits.drop 2 else digits
  guard (!digits.isEmpty && (utf8 digits).all fun b => if radix = 16 then isHexByte b else isDigitByte b)
  let significant := digits.dropWhile (· == '0')
  guard (limitToABIWord = true → significant.length ≤ if radix = 16 then 64 else 78)
  let magnitude ← numeral radix (if significant.isEmpty then "0".toList else significant)
  some (if negative then -(magnitude : ℤ) else magnitude)

def convertToBigInt : AnyObject → Option ℤ
  | .bigUInt v => some v
  | .bigInt v => some v
  | .string v => integerString v false
  -- one of the ten integer types holds it
  | .number v => if -(2 ^ 63) ≤ v ∧ v < 2 ^ 64 then some v else none
  | _ => none

def validatedHexData (value : Text) : Option (List UInt8) := do
  let prefixed := hasPrefix value "0x".toList || hasPrefix value "0X".toList
  let digits := if prefixed then value.drop 2 else value
  guard ((utf8 digits).all isHexByte)
  fromHex (if (utf8 digits).length % 2 ≠ 0 then '0' :: digits else digits)

def validatedAddressData (address : Web3Address) : Option (List UInt8) := do
  guard (address.type = .normal)
  guard ((utf8 (withoutHex address._address)).length = 40)
  let bytes ← validatedHexData address._address
  guard address.isValid
  some bytes

/-- `value as? UInt8` -/
def asByte : AnyObject → Option UInt8
  | .number v => if 0 ≤ v ∧ v ≤ 255 then some (UInt8.ofNat v.toNat) else none
  | _ => none

-- An array with an element outside 0...255 fails as [UInt8] and again as [Int].
def convertToData : AnyObject → Option (List UInt8)
  | .data d => some d
  | .string d => if isHex d || hasPrefix d "0X".toList then validatedHexData d else some (utf8 d)
  | .array d => d.mapM asByte
  | .web3Address d => validatedAddressData d
  | _ => none

def integerForEncoding (value : AnyObject) : Option ℤ := do
  let result ← match value with
    | .string string => integerString string true
    | value => convertToBigInt value
  guard (bitWidth result.natAbs ≤ 256)
  some result

def fixedPoint (value : AnyObject) (decimals : UInt64) : Option FixedPoint :=
  match value with
  | .fixedPoint exact => if exact.decimals = decimals then some exact else none
  | .string decimal => FixedPoint.ofDecimal decimal decimals
  | _ => none

/-- `value as? Bool` -/
def asBool : AnyObject → Option Bool
  | .number v => if v = 0 then some false else if v = 1 then some true else none
  | _ => none

def rawAddress : AnyObject → Option (List UInt8)
  | .web3Address address => validatedAddressData address
  | .string string => validatedAddressData (Web3Address.ofString string)
  | .data data => some data
  | _ => none

end

theorem FixedPoint.ofScaled_eq_some {i : ℤ} {d : UInt64} {p : FixedPoint} :
    ofScaled i d = some p ↔ p.scaledValue = i ∧ p.decimals = d := by
  constructor
  · intro h
    unfold ofScaled at h
    split at h
    · cases h
      exact ⟨rfl, rfl⟩
    · cases h
  · rintro ⟨rfl, rfl⟩
    exact dif_pos ⟨p.decimals_range, p.bitWidth_le⟩

theorem hexDigit_plain {n : ℕ} (h : n < 16) :
    (hexDigit n).toNat < 128 ∧ (hexDigit n).toLower = hexDigit n ∧ hexDigit n ≠ 'x' ∧ hexDigit n ≠ 'X' ∧
      (String.utf8EncodeChar (hexDigit n)).all isHexByte = true := by
  revert n
  decide

theorem mem_hex {bs : List UInt8} {c : Char} (h : c ∈ hex bs) : ∃ n < 16, c = hexDigit n := by
  simp only [hex, List.mem_flatMap, List.mem_cons, List.not_mem_nil, or_false] at h
  obtain ⟨b, _, rfl | rfl⟩ := h
  · have := b.toNat_lt
    exact ⟨b.toNat / 16, by omega, rfl⟩
  · exact ⟨b.toNat % 16, by omega, rfl⟩

theorem lowercased_hex (bs : List UInt8) : lowercased (hex bs) = hex bs := by
  have hid : ∀ c ∈ hex bs, c.toLower = id c := by
    intro c hc
    obtain ⟨n, hn, rfl⟩ := mem_hex hc
    exact (hexDigit_plain hn).2.1
  rw [lowercased, List.map_congr_left hid, List.map_id]

theorem lowercased_prefixed (bs : List UInt8) : lowercased ("0x".toList ++ hex bs) = "0x".toList ++ hex bs := by
  rw [lowercased, List.map_append]
  exact congrArg ("0x".toList ++ ·) (lowercased_hex bs)

theorem hex_isAscii (bs : List UInt8) : isAscii (hex bs) = true := by
  apply List.all_eq_true.mpr
  intro c hc
  obtain ⟨n, hn, rfl⟩ := mem_hex hc
  exact decide_eq_true (hexDigit_plain hn).1

theorem all_isHexByte_hex (bs : List UInt8) : (utf8 (hex bs)).all isHexByte = true := by
  apply List.all_eq_true.mpr
  intro b hb
  obtain ⟨c, hc, hb⟩ := List.mem_flatMap.mp hb
  obtain ⟨n, hn, rfl⟩ := mem_hex hc
  exact List.all_eq_true.mp (hexDigit_plain hn).2.2.2.2 b hb

theorem evmAddress20_length {raw bs : List UInt8} (h : evmAddress20 raw = some bs) : bs.length = 20 := by
  unfold evmAddress20 at h
  split at h
  · cases h
    assumption
  · split at h
    · cases h
      simp [(‹raw.length = 21 ∧ _›).1]
    · split at h
      · cases h
        simp [(‹raw.length = 32 ∧ _›).1]
      · cases h

variable [Graphemes]

theorem hex_not_hasPrefix (bs : List UInt8) {c : Char} (hc : c = 'x' ∨ c = 'X') :
    hasPrefix (hex bs) ['0', c] = false := by
  cases bs with
  | nil => rfl
  | cons b bs =>
    have hd := hexDigit_plain (n := b.toNat % 16) (by omega)
    have hne : c ≠ hexDigit (b.toNat % 16) := by
      rintro rfl
      rcases hc with hc | hc
      · exact hd.2.2.1 hc
      · exact hd.2.2.2.1 hc
    simp [hasPrefix, hex, hne]

theorem hasPrefix_append {p s : Text} (h : isAscii s = true) : hasPrefix (p ++ s) p = true := by
  have hp : p.isPrefixOf (p ++ s) = true := List.isPrefixOf_iff_prefix.mpr (List.prefix_append p s)
  rw [hasPrefix, hp, List.drop_left]
  cases s with
  | nil => rfl
  | cons c s =>
    have hc : c.toNat < 128 := of_decide_eq_true (List.all_eq_true.mp h c (by simp))
    simp [Graphemes.joins_ascii c hc]

theorem withoutHex_hex (bs : List UInt8) : withoutHex (hex bs) = hex bs := by
  have hh : isHex (hex bs) = false := hex_not_hasPrefix bs (.inl rfl)
  rw [withoutHex, hh]
  rfl

theorem fromHex_hex (bs : List UInt8) : fromHex (hex bs) = some bs := by
  have hx := hex_not_hasPrefix bs (.inl rfl)
  have hd : dataOfHexString (hex bs) = some bs := by
    change ofHexPairs (if hasPrefix (hex bs) ['0', 'x'] then _ else _) = _
    rw [hx]
    exact ofHexPairs_hex bs
  rw [fromHex, lowercased_hex, withoutHex_hex]
  change (dataOfHexString (hex bs) >>= fun data =>
    if data.length = 0 then if hex bs = [] then some [] else none else some data) = some bs
  rw [hd]
  cases bs with
  | nil => rfl
  | cons b bs => rfl

theorem withoutHex_prefixed (bs : List UInt8) : withoutHex ("0x".toList ++ hex bs) = hex bs := by
  rw [withoutHex, isHex, hasPrefix_append (hex_isAscii bs)]
  rfl

theorem fromHex_prefixed (bs : List UInt8) : fromHex ("0x".toList ++ hex bs) = some bs := by
  have h := fromHex_hex bs
  rw [fromHex, lowercased_hex, withoutHex_hex] at h
  rw [fromHex, lowercased_prefixed, withoutHex_prefixed]
  exact h

theorem ofData_address (bs : List UInt8) : (Web3Address.ofData bs)._address = "0x".toList ++ hex bs := by
  have hh : isHex (hex bs) = false := hex_not_hasPrefix bs (.inl rfl)
  simp [Web3Address.ofData, withHex, hh]

theorem validatedAddressData_ofData {bs : List UInt8} (h : bs.length = 20) :
    validatedAddressData (Web3Address.ofData bs) = some bs := by
  have hp : hasPrefix ("0x".toList ++ hex bs) "0x".toList = true := hasPrefix_append (hex_isAscii bs)
  have h40 : (utf8 (hex bs)).length = 40 := by
    rw [utf8_length_of_isAscii (hex_isAscii bs), hex_length, h]
  have hd : validatedHexData ("0x".toList ++ hex bs) = some bs := by
    simp only [validatedHexData, hp, Bool.true_or, if_true]
    change (do guard ((utf8 (hex bs)).all isHexByte = true)
               fromHex (if (utf8 (hex bs)).length % 2 ≠ 0 then '0' :: hex bs else hex bs)) = some bs
    rw [all_isHexByte_hex, h40]
    exact fromHex_hex bs
  have hv : (Web3Address.ofData bs).isValid = true := by
    have ha : (Web3Address.ofData bs).addressData = bs := by
      change (fromHex (Web3Address.ofData bs)._address).getD [] = bs
      rw [ofData_address, fromHex_prefixed]
      rfl
    change decide ((Web3Address.ofData bs).addressData.length = 20) = true
    rw [ha, h]
    rfl
  have ht : (Web3Address.ofData bs).type = .normal := rfl
  rw [validatedAddressData, ht, ofData_address, withoutHex_prefixed, h40, hd, hv]
  rfl

end TronlinkCore.Abi
