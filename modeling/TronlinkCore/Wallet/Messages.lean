import Mathlib.Data.Set.Function
import TronlinkCore.Keystore.Secrets
import TronlinkCore.Library.Counted
import TronlinkCore.Wallet.AddressText

/-!
Signed messages: what is read from a text, and the bytes that are hashed under
the headers of the three schemes.
-/

namespace TronlinkCore.Wallet

open Exceptions Text Keystore

inductive TLMessageSignV2Type where
  | string
  | hashString
  | array
  deriving DecidableEq

inductive SignInputError where
  | invalidSignInput
  deriving DecidableEq

inductive Web3UtilsError where
  | cannotConvertDataToAscii
  deriving DecidableEq

/-- `Data(hex:)` of a package: the bytes of pairs of digits -/
class HexInitializer where
  dataOfHex : Text → List UInt8
  dataOfHex_of_pairs : ∀ s bytes, ofHexPairs s = some bytes → dataOfHex s = bytes

/-- `utf16.count` -/
def utf16Count (s : Text) : ℕ := (s.map fun c => if c.toNat < 2 ^ 16 then 1 else 2).sum

def MatchesHexOnlyRegex (s : Text) : Prop := s ≠ [] ∧ ∀ c ∈ s, (digitValue c).isSome

instance (s : Text) : Decidable (MatchesHexOnlyRegex s) := inferInstanceAs (Decidable (_ ∧ _))

def throwing {ε α : Type} (error : ε) : Option α → Except ε α
  | some a => .ok a
  | none => .error error

/-- `data(using: .ascii)` -/
def asciiData (s : Text) : Option (List UInt8) := if isAscii s then some (utf8 s) else none

def apendData {ε : Type} (error : ε) (header : Text) (data : List UInt8) : Except ε (List UInt8) := do
  let prefixData ← throwing error (asciiData header)
  .ok (prefixData ++ data)

def legacyEnvelope (persondata : List UInt8) : Except SignInputError (List UInt8) :=
  apendData .invalidSignInput "\x19TRON Signed Message:\n32".toList persondata

def envelopeV2 (persondata : List UInt8) : Except SignInputError (List UInt8) :=
  apendData .invalidSignInput ("\x19TRON Signed Message:\n".toList ++ Nat.toDigits 10 persondata.length) persondata

def personalEnvelope (personalMessage : List UInt8) : Except Web3UtilsError (List UInt8) :=
  apendData .cannotConvertDataToAscii ("\x19Ethereum Signed Message:\n".toList ++ Nat.toDigits 10 personalMessage.length)
    personalMessage

section

variable [Segmentation]

def drop0x (s : Text) : Text := if 2 < count s ∧ hasPrefix s "0x".toList then dropFirst 2 s else s

def hexEncoded (s : Text) : Text := "0x".toList ++ hex (utf8 s)

def signStringHexEncoded (s : Text) : Except SignInputError Text :=
  if hasPrefix s "0x".toList then
    let judgeString := dropFirst 2 s
    if judgeString ≠ [] ∧ utf16Count judgeString % 2 = 0 ∧ MatchesHexOnlyRegex judgeString then .ok judgeString
    else .error .invalidSignInput
  else if s = [] ∨ utf16Count s % 2 ≠ 0 ∨ ¬ MatchesHexOnlyRegex s then .ok (drop0x (hexEncoded s))
  else .ok s

def isSignStringHexEncoded (s : Text) : Bool :=
  if hasPrefix s "0x".toList then
    let judgeString := dropFirst 2 s
    !decide (judgeString = [] ∨ utf16Count judgeString % 2 ≠ 0 ∨ ¬ MatchesHexOnlyRegex judgeString)
  else !decide (s = [] ∨ utf16Count s % 2 ≠ 0 ∨ ¬ MatchesHexOnlyRegex s)

variable [HexInitializer]

def parseBytes (string : Text) : TLMessageSignV2Type → Except SignInputError (List UInt8)
  -- A separator with a mark on it leaves a part that no number is read from, split or not.
  | .array => do
    let values ← throwing .invalidSignInput ((string.splitOn ',').mapM (unsigned? 10 256))
    .ok (values.map UInt8.ofNat)
  | .hashString =>
    if isSignStringHexEncoded string then
      let data := HexInitializer.dataOfHex string
      if data = [] then .error .invalidSignInput else .ok data
    else .error .invalidSignInput
  | .string => if string = [] then .error .invalidSignInput else .ok (utf8 string)

variable [Crypto]

def convertSignStringToSha3Data (unSignedString : Text) : Except SignInputError (List UInt8) := do
  let signString ← signStringHexEncoded unSignedString
  let persondata := HexInitializer.dataOfHex signString
  if persondata = [] then .error .invalidSignInput
  else do
    let apendData ← legacyEnvelope persondata
    .ok (Crypto.keccak256 apendData)

def convertSignStringV2ToSha3Data (unSignedString : Text) (messageType : TLMessageSignV2Type) :
    Except SignInputError (List UInt8) := do
  let persondata ← parseBytes unSignedString messageType
  let apendData ← envelopeV2 persondata
  .ok (Crypto.keccak256 apendData)

omit [Segmentation] [HexInitializer] in
def hashPersonalMessage (personalMessage : List UInt8) : Except Web3UtilsError (List UInt8) := do
  let data ← personalEnvelope personalMessage
  .ok (Crypto.keccak256 data)

end

theorem apendData_eq {ε : Type} (error : ε) {header : Text} (h : isAscii header) (data : List UInt8) :
    apendData error header data = .ok (utf8 header ++ data) := by
  rw [apendData, asciiData, if_pos h]
  rfl

def tronHeader : List UInt8 := utf8 "\x19TRON Signed Message:\n".toList

def personalHeader : List UInt8 := utf8 "\x19Ethereum Signed Message:\n".toList

def legacyMark : List UInt8 := [0x33, 0x32]

theorem legacyHeader_eq : utf8 "\x19TRON Signed Message:\n32".toList = tronHeader ++ legacyMark := by decide +kernel

theorem legacyEnvelope_eq (p : List UInt8) : legacyEnvelope p = .ok (tronHeader ++ (legacyMark ++ p)) := by
  rw [legacyEnvelope, apendData_eq _ (by decide), legacyHeader_eq, List.append_assoc]

theorem envelopeV2_eq (p : List UInt8) : envelopeV2 p = .ok (tronHeader ++ counted p) := by
  have hascii : isAscii ("\x19TRON Signed Message:\n".toList ++ Nat.toDigits 10 p.length) := by
    rw [isAscii_append, isAscii_toDigits]
    decide
  rw [envelopeV2, apendData_eq _ hascii, utf8_append, List.append_assoc]
  rfl

theorem personalEnvelope_eq (p : List UInt8) : personalEnvelope p = .ok (personalHeader ++ counted p) := by
  have hascii : isAscii ("\x19Ethereum Signed Message:\n".toList ++ Nat.toDigits 10 p.length) := by
    rw [isAscii_append, isAscii_toDigits]
    decide
  rw [personalEnvelope, apendData_eq _ hascii, utf8_append, List.append_assoc]
  rfl

theorem envelopeV2_injective : Function.Injective envelopeV2 := by
  intro p q h
  rw [envelopeV2_eq, envelopeV2_eq, Except.ok.injEq] at h
  exact counted_injective (List.append_cancel_left h)

theorem personalEnvelope_injective : Function.Injective personalEnvelope := by
  intro p q h
  rw [personalEnvelope_eq, personalEnvelope_eq, Except.ok.injEq] at h
  exact counted_injective (List.append_cancel_left h)

theorem envelopeV2_ne_personalEnvelope {p q bytes bytes' : List UInt8} (h : envelopeV2 p = .ok bytes)
    (h' : personalEnvelope q = .ok bytes') : bytes ≠ bytes' := by
  rw [envelopeV2_eq, Except.ok.injEq] at h
  rw [personalEnvelope_eq, Except.ok.injEq] at h'
  intro heq
  have hsecond : bytes[1]? = bytes'[1]? := by rw [heq]
  rw [← h, ← h'] at hsecond
  have htron : (tronHeader ++ counted p)[1]? = some 0x54 := rfl
  have hpersonal : (personalHeader ++ counted q)[1]? = some 0x45 := rfl
  rw [htron, hpersonal] at hsecond
  cases hsecond

section

variable [Segmentation] [HexInitializer] [Crypto]

theorem convertSignStringV2ToSha3Data_eq_ok {text : Text} {type : TLMessageSignV2Type} {digest : List UInt8} :
    convertSignStringV2ToSha3Data text type = .ok digest ↔
      ∃ p, parseBytes text type = .ok p ∧ ∃ bytes, envelopeV2 p = .ok bytes ∧ Crypto.keccak256 bytes = digest := by
  simp only [convertSignStringV2ToSha3Data, except_bind_eq_ok, Except.ok.injEq]

def legacyPayload (text : Text) : Except SignInputError (List UInt8) := do
  let signString ← signStringHexEncoded text
  if HexInitializer.dataOfHex signString = [] then .error .invalidSignInput
  else .ok (HexInitializer.dataOfHex signString)

theorem convertSignStringToSha3Data_eq_ok {text : Text} {digest : List UInt8} :
    convertSignStringToSha3Data text = .ok digest ↔
      ∃ p, legacyPayload text = .ok p ∧ ∃ bytes, legacyEnvelope p = .ok bytes ∧ Crypto.keccak256 bytes = digest := by
  unfold convertSignStringToSha3Data legacyPayload
  cases signStringHexEncoded text with
  | error error => simp [except_bind_eq_ok]
  | ok signString =>
    by_cases hempty : HexInitializer.dataOfHex signString = []
    · simp [hempty]
    · simp [except_bind_eq_ok, hempty]

end

theorem hashPersonalMessage_eq_ok [Crypto] {personalMessage digest : List UInt8} :
    hashPersonalMessage personalMessage = .ok digest ↔
      ∃ bytes, personalEnvelope personalMessage = .ok bytes ∧ Crypto.keccak256 bytes = digest := by
  simp only [hashPersonalMessage, except_bind_eq_ok, Except.ok.injEq]

inductive Message where
  | v2 (persondata : List UInt8)
  | personal (personalMessage : List UInt8)

section

variable [Segmentation] [HexInitializer] [Crypto]

/-- A digest that was made for a message, with the byte string that was hashed -/
inductive HashedAs : Message → List UInt8 → List UInt8 → Prop where
  | v2 {text : Text} {type : TLMessageSignV2Type} {persondata bytes digest : List UInt8}
      (hparse : parseBytes text type = .ok persondata) (hbytes : envelopeV2 persondata = .ok bytes)
      (hdigest : convertSignStringV2ToSha3Data text type = .ok digest) : HashedAs (.v2 persondata) bytes digest
  | personal {personalMessage bytes digest : List UInt8} (hbytes : personalEnvelope personalMessage = .ok bytes)
      (hdigest : hashPersonalMessage personalMessage = .ok digest) : HashedAs (.personal personalMessage) bytes digest

theorem HashedAs.digest_eq {message : Message} {bytes digest : List UInt8} (h : HashedAs message bytes digest) :
    Crypto.keccak256 bytes = digest := by
  cases h with
  | v2 hparse hbytes hdigest =>
    obtain ⟨p, hp, bytes', hbytes', hdigest⟩ := convertSignStringV2ToSha3Data_eq_ok.mp hdigest
    rw [hparse] at hp
    cases hp
    rw [hbytes] at hbytes'
    cases hbytes'
    exact hdigest
  | personal hbytes hdigest =>
    obtain ⟨bytes', hbytes', hdigest⟩ := hashPersonalMessage_eq_ok.mp hdigest
    rw [hbytes] at hbytes'
    cases hbytes'
    exact hdigest

theorem HashedAs.message_eq {m m' : Message} {bytes digest digest' : List UInt8} (h : HashedAs m bytes digest)
    (h' : HashedAs m' bytes digest') : m = m' := by
  cases h with
  | v2 _ hbytes _ =>
    cases h' with
    | v2 _ hbytes' _ => rw [envelopeV2_injective (hbytes.trans hbytes'.symm)]
    | personal hbytes' _ => exact absurd rfl (envelopeV2_ne_personalEnvelope hbytes hbytes')
  | personal hbytes _ =>
    cases h' with
    | v2 _ hbytes' _ => exact absurd rfl (envelopeV2_ne_personalEnvelope hbytes' hbytes)
    | personal hbytes' _ => rw [personalEnvelope_injective (hbytes.trans hbytes'.symm)]

theorem envelopes_injective :
    (∀ p q, envelopeV2 p = envelopeV2 q → p = q) ∧ (∀ p q, personalEnvelope p = personalEnvelope q → p = q) ∧
      (∀ p q bytes bytes', envelopeV2 p = .ok bytes → personalEnvelope q = .ok bytes' → bytes ≠ bytes') ∧
      ∀ hashed : Set (List UInt8), Set.InjOn Crypto.keccak256 hashed → ∀ m m' bytes bytes' digest,
        HashedAs m bytes digest → HashedAs m' bytes' digest → bytes ∈ hashed → bytes' ∈ hashed → m = m' := by
  refine ⟨fun _ _ h => envelopeV2_injective h, fun _ _ h => personalEnvelope_injective h,
    fun _ _ _ _ => envelopeV2_ne_personalEnvelope, ?_⟩
  intro hashed hfree m m' bytes bytes' digest h h' hmem hmem'
  have hsame : bytes = bytes' := hfree hmem hmem' (h.digest_eq.trans h'.digest_eq.symm)
  subst hsame
  exact h.message_eq h'

end

/-- The count of `q` is 32 and more digits, which `p` begins with; or a 2 in front of two more bytes is taken for the
end of the count. -/
def StandsFor (p q : List UInt8) : Prop :=
  (∃ more, countDigits q = legacyMark ++ more ∧ p = more ++ q) ∨ q.length = 3 ∧ q = 0x32 :: p

theorem countDigits_eq_singleton {q : List UInt8} : countDigits q = [0x33] ↔ q.length = 3 := by
  have hthree : utf8 (Nat.toDigits 10 3) = [0x33] := by decide +kernel
  rw [countDigits]
  constructor
  · intro h
    exact toDigits_injective (utf8_injective (h.trans hthree.symm))
  · intro h
    rw [h, hthree]

theorem legacyMark_split {q more : List UInt8} (hne : more ≠ []) :
    legacyMark = countDigits q ++ more ↔ q.length = 3 ∧ more = [0x32] := by
  rw [← countDigits_eq_singleton, legacyMark]
  constructor
  · intro h
    have hdigits := countDigits_ne_nil q
    cases hcount : countDigits q with
    | nil => exact absurd hcount hdigits
    | cons first rest =>
      rw [hcount, List.cons_append, List.cons.injEq] at h
      obtain ⟨rfl, h⟩ := h
      cases rest with
      | nil => exact ⟨rfl, h.symm⟩
      | cons second rest =>
        rw [List.cons_append, List.cons.injEq] at h
        exact absurd (List.append_eq_nil_iff.mp h.2.symm).2 hne
  · rintro ⟨h, rfl⟩
    rw [h]
    rfl

theorem legacyEnvelope_eq_envelopeV2_iff {p q : List UInt8} : legacyEnvelope p = envelopeV2 q ↔ StandsFor p q := by
  rw [legacyEnvelope_eq, envelopeV2_eq, Except.ok.injEq, List.append_cancel_left_eq, append_eq_counted_iff, StandsFor]
  apply or_congr_right
  constructor
  · rintro ⟨more, hne, hmark, hq⟩
    obtain ⟨hlength, rfl⟩ := (legacyMark_split hne).mp hmark
    exact ⟨hlength, hq⟩
  · rintro ⟨hlength, hq⟩
    have hne : ([0x32] : List UInt8) ≠ [] := List.cons_ne_nil _ _
    exact ⟨[0x32], hne, (legacyMark_split hne).mpr ⟨hlength, rfl⟩, hq⟩

theorem drop0x_hexEncoded [Segmentation] {s : Text} (h : s ≠ []) : drop0x (hexEncoded s) = hex (utf8 s) := by
  have hplain : ∀ d ∈ hexEncoded s, Plain d := by
    intro d hd
    rcases List.mem_append.mp hd with hd | hd
    · exact plain_pair ⟨by decide, by decide⟩ ⟨by decide, by decide⟩ d hd
    · exact plain_of_mem_hex _ d hd
  have hbegins : hasPrefix (hexEncoded s) "0x".toList = true := (hasPrefix_of_plain hplain).mpr (List.prefix_append _ _)
  have hlength : 2 < count (hexEncoded s) := by
    have hbytes : 0 < (utf8 s).length := by
      apply List.length_pos_of_ne_nil
      intro hnil
      exact h (utf8_injective (t := []) hnil)
    have hx : "0x".toList.length = 2 := rfl
    rw [count_of_plain hplain, hexEncoded, List.length_append, hx, hex_length]
    omega
  rw [drop0x, if_pos ⟨hlength, hbegins⟩]
  exact dropFirst_prefix ⟨by decide, by decide⟩ ⟨by decide, by decide⟩ hbegins

section

variable [Segmentation] [HexInitializer]

theorem legacyPayload_of_text {s : Text} (hne : s ≠ []) (hbegins : hasPrefix s "0x".toList = false)
    (hdigits : ¬ MatchesHexOnlyRegex s) : legacyPayload s = .ok (utf8 s) := by
  have hbytes : utf8 s ≠ [] := fun h => hne (utf8_injective (t := []) h)
  have hsign : signStringHexEncoded s = .ok (hex (utf8 s)) := by
    unfold signStringHexEncoded
    simp only [hbegins, Bool.false_eq_true, if_false]
    rw [if_pos (.inr (.inr hdigits)), drop0x_hexEncoded hne]
  rw [legacyPayload, hsign, except_ok_bind, HexInitializer.dataOfHex_of_pairs _ _ (ofHexPairs_hex _), if_neg hbytes]

variable [Crypto]

theorem legacy_stands_for :
    (∀ p q, legacyEnvelope p = envelopeV2 q ↔ StandsFor p q) ∧
      ∀ hashed : Set (List UInt8), Set.InjOn Crypto.keccak256 hashed → ∀ s t type p q bytes bytes',
        legacyPayload s = .ok p → parseBytes t type = .ok q → legacyEnvelope p = .ok bytes →
        envelopeV2 q = .ok bytes' → bytes ∈ hashed → bytes' ∈ hashed →
        (convertSignStringToSha3Data s = convertSignStringV2ToSha3Data t type ↔ StandsFor p q) := by
  refine ⟨fun _ _ => legacyEnvelope_eq_envelopeV2_iff, ?_⟩
  intro hashed hfree s t type p q bytes bytes' hp hq hbytes hbytes' hmem hmem'
  have hlegacy : convertSignStringToSha3Data s = .ok (Crypto.keccak256 bytes) :=
    convertSignStringToSha3Data_eq_ok.mpr ⟨p, hp, bytes, hbytes, rfl⟩
  have hv2 : convertSignStringV2ToSha3Data t type = .ok (Crypto.keccak256 bytes') :=
    convertSignStringV2ToSha3Data_eq_ok.mpr ⟨q, hq, bytes', hbytes', rfl⟩
  rw [hlegacy, hv2, Except.ok.injEq, ← legacyEnvelope_eq_envelopeV2_iff, hbytes, hbytes', Except.ok.injEq]
  constructor
  · intro h
    exact hfree hmem hmem' h
  · rintro rfl
    rfl

end

theorem other_message_signed :
    legacyEnvelope (utf8 "xy".toList) = envelopeV2 (utf8 "2xy".toList) ∧ utf8 "xy".toList ≠ utf8 "2xy".toList := by
  constructor
  · apply legacyEnvelope_eq_envelopeV2_iff.mpr
    exact .inr ⟨by decide +kernel, by decide +kernel⟩
  · decide +kernel

example [Segmentation] [HexInitializer] [Crypto] :
    convertSignStringToSha3Data "xy".toList = convertSignStringV2ToSha3Data "2xy".toList .string := by
  have hdigits : ¬ MatchesHexOnlyRegex "xy".toList := fun h => absurd (h.2 'x' (.head _)) (by decide)
  have hp : legacyPayload "xy".toList = .ok (utf8 "xy".toList) := legacyPayload_of_text (by decide) rfl hdigits
  have hstands : StandsFor (utf8 "xy".toList) (utf8 "2xy".toList) := .inr ⟨by decide +kernel, by decide +kernel⟩
  have hbytes := legacyEnvelope_eq (utf8 "xy".toList)
  rw [convertSignStringToSha3Data_eq_ok.mpr ⟨_, hp, _, hbytes, rfl⟩]
  rw [legacyEnvelope_eq_envelopeV2_iff.mpr hstands] at hbytes
  exact (convertSignStringV2ToSha3Data_eq_ok.mpr ⟨_, rfl, _, hbytes, rfl⟩).symm

end TronlinkCore.Wallet
