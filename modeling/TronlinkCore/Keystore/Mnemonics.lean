import TronlinkCore.TrezorCrypto.Bip39Spec
import TronlinkCore.Keystore.Secrets
import Mathlib.Data.List.TakeWhile

namespace TronlinkCore.Keystore

open Exceptions Text Outcome TronlinkCore.TrezorCrypto
open Bip39 (Valid sentence)

theorem zero_not_mem_cString (bytes : List UInt8) : 0 ∉ Mnemonic.cString bytes := by
  intro h
  have hne := List.mem_takeWhile_imp h
  exact absurd rfl (of_decide_eq_true hne)

def cStringOf (bytes : List UInt8) : CString := ⟨Mnemonic.cString bytes, zero_not_mem_cString bytes⟩

theorem cString_eq {bytes : List UInt8} (h : 0 ∉ bytes) : Mnemonic.cString bytes = bytes := by
  apply List.takeWhile_eq_self_iff.mpr
  intro b hb
  rw [decide_eq_true_eq]
  rintro rfl
  exact h hb

theorem cStringOf_chars {bytes : List UInt8} (h : 0 ∉ bytes) : (cStringOf bytes).chars = bytes := cString_eq h

/-- The libraries with the functions of `bip39.c`, whose contexts lie on `stack` -/
@[reducible]
def linked (stack : ℕ → UInt8) (libraries : Crypto) : Crypto :=
  { libraries with
    mnemonicCheck := fun bytes => mnemonicCheck (cStringOf bytes) = ok true
    mnemonicToSeed := fun mnemonic passphrase => (mnemonicToSeed stack (cStringOf mnemonic) (cStringOf passphrase)).toOption }

/-- The check gives an answer for every string: it leaves no array. -/
theorem linked_mnemonicCheck (stack : ℕ → UInt8) (libraries : Crypto) (bytes : List UInt8) :
    mnemonicCheck (cStringOf bytes) = ok ((linked stack libraries).mnemonicCheck bytes) := by
  change _ = ok (decide (mnemonicCheck (cStringOf bytes) = ok true))
  rcases (mnemonicCheck_iff (cStringOf bytes)).1 with h | h
  · rw [h]
    rfl
  · rw [h]
    rfl

namespace Mnemonic

def bufferLength : ℤ := 240

/-- `String(cString:)`. The words are ASCII, so that nothing has to be repaired. -/
def ofCString (result : Option (List UInt8)) : Except Failure Text := do
  let mnemonic ← unlessNone (.mnemonic .generationFailed) (result.bind ofUtf8?)
  guardThat (mnemonic ≠ []) (.mnemonic .generationFailed)
  return mnemonic

def generateFrom (data : List UInt8) : Except Failure Text := do
  guardThat (data.length % 4 = 0 ∧ 16 ≤ data.length ∧ data.length ≤ 32) (.mnemonic .invalidStrength)
  ofCString (mnemonicFromData data bufferLength).toOption

def generate (source : Source) (strength : ℤ) : Throwing RandomState Failure Text := do
  Throwing.require (strength % 32 = 0 ∧ 128 ≤ strength ∧ strength ≤ 256) (.mnemonic .invalidStrength)
  let result ← (mnemonicGenerate source strength bufferLength).optional
  Throwing.ofExcept (ofCString result)

variable {data : List UInt8} {text : Text}

theorem lt_of_mem_sentence {c : UInt8} (h : c ∈ sentence sha256Raw data wordlist 0x20) : c < 128 := by
  rcases mem_sentence h with rfl | ⟨-, hupper⟩
  · decide
  · exact UInt8.lt_of_le_of_lt hupper (by decide)

theorem ofUtf8?_sentence (data : List UInt8) : ofUtf8? (sentence sha256Raw data wordlist 0x20) =
    some (ofAscii (sentence sha256Raw data wordlist 0x20)) := by
  have hutf8 := ofUtf8?_utf8 (ofAscii (sentence sha256Raw data wordlist 0x20))
  rwa [utf8_ofAscii fun _ => lt_of_mem_sentence] at hutf8

theorem generateFrom_of_written {chars : List UInt8} (h : mnemonicFromData data bufferLength = ok chars) :
    generateFrom data = ofCString (some chars) := by
  obtain ⟨hvalid, -⟩ := valid_of_mnemonicFromData h
  have hguard : guardThat (data.length % 4 = 0 ∧ 16 ≤ data.length ∧ data.length ≤ 32)
      (Failure.mnemonic .invalidStrength) = .ok () :=
    guardThat_eq_ok.mpr ⟨hvalid.whole, hvalid.lower, hvalid.upper⟩
  rw [generateFrom, hguard, h]
  rfl

theorem ofCString_eq_ok {result : Option (List UInt8)} (h : ofCString result = .ok text) : result = some (utf8 text) := by
  obtain ⟨mnemonic, hmnemonic, h⟩ := except_bind_eq_ok.mp h
  obtain ⟨⟨⟩, -, h⟩ := except_bind_eq_ok.mp h
  cases h
  rw [unlessNone_eq_ok, Option.bind_eq_some_iff] at hmnemonic
  obtain ⟨chars, hchars, htext⟩ := hmnemonic
  rw [utf8_of_ofUtf8? htext, hchars]

theorem ofCString_of_written (h : mnemonicFromData data bufferLength = ok (utf8 text)) : ofCString (some (utf8 text)) = .ok text := by
  obtain ⟨hvalid, htext⟩ := valid_of_mnemonicFromData h
  have hne : text ≠ [] := by
    rintro rfl
    have hcount := count_sentence hvalid
    have hlower := hvalid.lower
    rw [← htext, utf8, List.flatMap_nil, List.count_nil] at hcount
    omega
  have hdecoded : (some (utf8 text)).bind ofUtf8? = some text := ofUtf8?_utf8 text
  rw [ofCString, hdecoded]
  exact except_bind_eq_ok.mpr ⟨text, rfl, except_bind_eq_ok.mpr ⟨(), guardThat_eq_ok.mpr hne, rfl⟩⟩

theorem generateFrom_eq_ok : generateFrom data = .ok text ↔ mnemonicFromData data bufferLength = ok (utf8 text) := by
  constructor
  · intro h
    obtain ⟨⟨⟩, -, h⟩ := except_bind_eq_ok.mp h
    exact toOption_eq_some.mp (ofCString_eq_ok h)
  · intro h
    rw [generateFrom_of_written h, ofCString_of_written h]

theorem isValid_eq (stack : ℕ → UInt8) (libraries : Crypto) (string : Text) : @isValid (linked stack libraries) string = true ↔
    isAscii string = true ∧ 0 ∉ utf8 string ∧ mnemonicCheck (cStringOf (utf8 string)) = ok true := by
  unfold isValid asciiCString
  by_cases hzero : 0 ∈ utf8 string
  · simp [hzero]
  · by_cases hascii : isAscii string = true
    · rw [if_neg (by simpa using hzero), if_pos hascii, and_iff_right hascii, and_iff_right hzero]
      exact decide_eq_true_iff
    · simp [hzero, hascii]

theorem isValid_of_generated (stack : ℕ → UInt8) (libraries : Crypto) (h : generateFrom data = .ok text) :
    @isValid (linked stack libraries) text = true := by
  have hwritten := generateFrom_eq_ok.mp h
  obtain ⟨-, htext⟩ := valid_of_mnemonicFromData hwritten
  have hzero : 0 ∉ utf8 text := by
    rw [htext]
    exact zero_not_mem_sentence
  rw [isValid_eq]
  refine ⟨?_, hzero, ?_⟩
  · have hdecoded := ofUtf8?_sentence data
    rw [← htext, ofUtf8?_utf8, htext] at hdecoded
    rw [Option.some.inj hdecoded]
    exact isAscii_ofAscii fun _ => lt_of_mem_sentence
  · apply (mnemonicCheck_iff _).2.mpr
    rw [cStringOf_chars hzero]
    exact ⟨data, hwritten⟩

theorem isValid_iff_generated (stack : ℕ → UInt8) (libraries : Crypto) (string : Text) :
    (∀ mnemonic : CString, mnemonicCheck mnemonic = ok true ∨ mnemonicCheck mnemonic = ok false) ∧
      mnemonicCheck (cStringOf (utf8 string)) = ok ((linked stack libraries).mnemonicCheck (utf8 string)) ∧
      (@isValid (linked stack libraries) string = true ↔ ∃ data, generateFrom data = .ok string) := by
  refine ⟨fun mnemonic => (mnemonicCheck_iff mnemonic).1, linked_mnemonicCheck stack libraries (utf8 string), ?_⟩
  constructor
  · intro h
    obtain ⟨-, hzero, hcheck⟩ := (isValid_eq stack libraries string).mp h
    obtain ⟨data, hdata⟩ := (mnemonicCheck_iff _).2.mp hcheck
    rw [cStringOf_chars hzero] at hdata
    exact ⟨data, generateFrom_eq_ok.mpr hdata⟩
  · rintro ⟨data, hdata⟩
    exact isValid_of_generated stack libraries hdata

theorem mnemonicToSeed_eq (stack : ℕ → UInt8) (mnemonic passphrase : CString) : mnemonicToSeed stack mnemonic passphrase =
    if passphrase.chars.length ≤ maxPassphraseLength then
      ok (Rfc8018.pbkdf2 hmac512 mnemonic.chars ("mnemonic".toList.map (fun c => UInt8.ofNat c.toNat) ++ passphrase.chars) 64 2048 64)
    else fail := by
  rw [mnemonicToSeed]
  by_cases h : passphrase.chars.length ≤ maxPassphraseLength
  · rw [ensure_true h, if_pos h, ok_bind]
    exact congrArg ok (pbkdf2HmacSha512_updates stack _ _)
  · rw [ensure, if_neg h, if_neg h]
    rfl

theorem validatePassphrase_cases (passphrase : Text) (normalization : Normalization) :
    maxPassphraseByteCount < (utf8 passphrase).length ∧
        validatePassphrase passphrase normalization = .error (.mnemonic .passphraseTooLong) ∨
      (utf8 passphrase).length ≤ maxPassphraseByteCount ∧ (normalization = .bip39 ∧ 0 ∈ utf8 passphrase) ∧
        validatePassphrase passphrase normalization = .error (.mnemonic .seedDerivationFailed) ∨
      (utf8 passphrase).length ≤ maxPassphraseByteCount ∧ (normalization = .bip39 → 0 ∉ utf8 passphrase) ∧
        validatePassphrase passphrase normalization = .ok () := by
  by_cases hlen : (utf8 passphrase).length ≤ maxPassphraseByteCount
  · have hshort : guardThat ((utf8 passphrase).length ≤ maxPassphraseByteCount) (Failure.mnemonic .passphraseTooLong) = .ok () :=
      guardThat_eq_ok.mpr hlen
    right
    cases normalization with
    | legacy =>
      refine .inr ⟨hlen, nofun, ?_⟩
      rw [validatePassphrase, hshort]
      rfl
    | bip39 =>
      have hrun : validatePassphrase passphrase .bip39 =
          guardThat ((utf8 passphrase).contains 0 = false) (.mnemonic .seedDerivationFailed) := by
        rw [validatePassphrase, hshort]
        rfl
      by_cases hzero : 0 ∈ utf8 passphrase
      · refine .inl ⟨hlen, ⟨rfl, hzero⟩, ?_⟩
        rw [hrun, guardThat, if_neg (by simpa using hzero)]
      · refine .inr ⟨hlen, fun _ => hzero, ?_⟩
        rw [hrun, guardThat_eq_ok]
        simpa using hzero
  · refine .inl ⟨Nat.lt_of_not_le hlen, ?_⟩
    cases normalization with
    | legacy =>
      rw [validatePassphrase, guardThat, if_neg hlen]
      rfl
    | bip39 =>
      rw [validatePassphrase, guardThat, if_neg hlen]
      rfl

theorem deriveSeed_eq (stack : ℕ → UInt8) (libraries : Crypto) (mnemonic passphrase : Text) (normalization : Normalization) :
    @deriveSeed (linked stack libraries) mnemonic passphrase normalization =
      if 0 ∈ utf8 (@normalize libraries mnemonic normalization) then .error (.mnemonic .seedDerivationFailed)
      else validatePassphrase (@normalize libraries passphrase normalization) normalization >>= fun _ =>
        .ok (Rfc8018.pbkdf2 hmac512 (utf8 (@normalize libraries mnemonic normalization))
          (utf8 "mnemonic".toList ++ cString (utf8 (@normalize libraries passphrase normalization))) 64 2048 64) := by
  unfold deriveSeed
  change guardThat ((utf8 (@normalize libraries mnemonic normalization)).contains 0 = false) _ >>= _ = _
  by_cases hzero : 0 ∈ utf8 (@normalize libraries mnemonic normalization)
  · rw [guardThat, if_neg (by simpa using hzero), if_pos hzero]
    rfl
  · have hguard : guardThat ((utf8 (@normalize libraries mnemonic normalization)).contains 0 = false)
        (Failure.mnemonic .seedDerivationFailed) = .ok () := guardThat_eq_ok.mpr (by simpa using hzero)
    rw [if_neg hzero, hguard]
    change (validatePassphrase (@normalize libraries passphrase normalization) normalization >>= fun _ =>
      unlessNone _ (mnemonicToSeed stack (cStringOf (cString (utf8 (@normalize libraries mnemonic normalization))))
        (cStringOf (cString (utf8 (@normalize libraries passphrase normalization))))).toOption) = _
    rcases validatePassphrase_cases (@normalize libraries passphrase normalization) normalization with
      ⟨hlen, hrun⟩ | ⟨hlen, -, hrun⟩ | ⟨hlen, -, hrun⟩
    · rw [hrun]
      rfl
    · rw [hrun]
      rfl
    · have hshort : (cString (utf8 (@normalize libraries passphrase normalization))).length ≤ maxPassphraseLength :=
        Nat.le_trans (List.takeWhile_prefix _).length_le hlen
      have hsalt : "mnemonic".toList.map (fun c => UInt8.ofNat c.toNat) = utf8 "mnemonic".toList := by decide
      rw [hrun, mnemonicToSeed_eq, cStringOf_chars (zero_not_mem_cString _), cStringOf_chars (zero_not_mem_cString _), if_pos hshort,
        cString_eq hzero, hsalt]
      rfl

/-- Seeds are those of BIP 39. Only an old wallet's passphrase may contain a zero, and what comes after it is ignored. -/
theorem deriveSeed_iff (stack : ℕ → UInt8) (libraries : Crypto) (mnemonic passphrase : Text) (normalization : Normalization) :
    let m := utf8 (@normalize libraries mnemonic normalization)
    let p := utf8 (@normalize libraries passphrase normalization)
    (∀ seed, @deriveSeed (linked stack libraries) mnemonic passphrase normalization = .ok seed ↔
      0 ∉ m ∧ p.length ≤ maxPassphraseByteCount ∧ (normalization = .bip39 → 0 ∉ p) ∧
        seed = Rfc8018.pbkdf2 hmac512 m (utf8 "mnemonic".toList ++ cString p) 64 2048 64) ∧
    (@deriveSeed (linked stack libraries) mnemonic passphrase normalization = .error (.mnemonic .passphraseTooLong) ↔
      0 ∉ m ∧ maxPassphraseByteCount < p.length) ∧
    (∀ failure, @deriveSeed (linked stack libraries) mnemonic passphrase normalization = .error failure →
      failure = .mnemonic .passphraseTooLong ∨ failure = .mnemonic .seedDerivationFailed) := by
  intro m p
  rw [deriveSeed_eq]
  by_cases hm : 0 ∈ m
  · rw [if_pos hm]
    exact ⟨fun _ => ⟨nofun, fun h => absurd hm h.1⟩, ⟨nofun, fun h => absurd hm h.1⟩, fun _ h => .inr (Except.error.inj h).symm⟩
  · rw [if_neg hm]
    rcases validatePassphrase_cases (@normalize libraries passphrase normalization) normalization with
      ⟨hlen, hrun⟩ | ⟨hlen, ⟨hbip39, hzero⟩, hrun⟩ | ⟨hlen, hzero, hrun⟩
    · rw [hrun]
      exact ⟨fun _ => ⟨nofun, fun h => absurd h.2.1 (Nat.not_le_of_lt hlen)⟩, ⟨fun _ => ⟨hm, hlen⟩, fun _ => rfl⟩,
        fun _ h => .inl (Except.error.inj h).symm⟩
    · rw [hrun]
      exact ⟨fun _ => ⟨nofun, fun h => absurd hzero (h.2.2.1 hbip39)⟩, ⟨nofun, fun h => absurd hlen (Nat.not_le_of_lt h.2)⟩,
        fun _ h => .inr (Except.error.inj h).symm⟩
    · rw [hrun]
      exact ⟨fun _ => ⟨fun h => ⟨hm, hlen, hzero, (Except.ok.inj h).symm⟩, fun h => h.2.2.2 ▸ rfl⟩,
        ⟨nofun, fun h => absurd hlen (Nat.not_le_of_lt h.2)⟩, nofun⟩

theorem generateFrom_injective {data' : List UInt8} (h : generateFrom data = .ok text) (h' : generateFrom data' = .ok text) :
    data = data' := by
  obtain ⟨hvalid, htext⟩ := valid_of_mnemonicFromData (generateFrom_eq_ok.mp h)
  obtain ⟨hvalid', htext'⟩ := valid_of_mnemonicFromData (generateFrom_eq_ok.mp h')
  have hzero : 0 ∉ utf8 text := htext ▸ zero_not_mem_sentence
  have hchars := cStringOf_chars hzero
  obtain ⟨bits, hok, -, htake⟩ := entropy_of_sentence hvalid (hchars.trans htext)
  obtain ⟨bits', hok', -, htake'⟩ := entropy_of_sentence hvalid' (hchars.trans htext')
  rw [hok'] at hok
  obtain ⟨rfl, hlen⟩ := Prod.mk.inj (Outcome.ok.inj hok)
  have hwhole := hvalid.whole
  have hwhole' := hvalid'.whole
  have hsame : data.length = data'.length := by omega
  rw [← htake, ← htake', hsame]

def Strength (strength : ℤ) : Prop := strength % 32 = 0 ∧ 128 ≤ strength ∧ strength ≤ 256

theorem mnemonicGenerate_eq_ok {source : Source} {strength : ℤ} {chars : List UInt8} {s t : RandomState} :
    mnemonicGenerate source strength bufferLength s = (.ok chars, t) ↔ Strength strength ∧
      ∃ data, randomBufferChecked source (strength / 8).toNat s = (.ok data, t) ∧ mnemonicFromData data bufferLength = ok chars := by
  rw [mnemonicGenerate, Throwing.require_bind_eq_ok, Throwing.require_bind_eq_ok, Throwing.bind_eq_ok]
  apply and_congr_right
  intro _
  constructor
  · rintro ⟨-, data, u, hdata, h⟩
    rcases hchars : mnemonicFromData data bufferLength with r | _ | _ | _
    all_goals
      rw [hchars] at h
      cases h
    exact ⟨data, hdata, hchars⟩
  · rintro ⟨data, hdata, hchars⟩
    refine ⟨by decide, data, t, hdata, ?_⟩
    rw [hchars]
    rfl

theorem generate_eq_ok {source : Source} {strength : ℤ} {s : RandomState} :
    (∃ t, generate source strength s = (.ok text, t)) ↔ Strength strength ∧
      ∃ data, (∃ t, randomBufferChecked source (strength / 8).toNat s = (.ok data, t)) ∧ generateFrom data = .ok text := by
  have hgenerate (t : RandomState) : generate source strength s = (.ok text, t) ↔ Strength strength ∧
      (mnemonicGenerate source strength bufferLength s).2 = t ∧
        ofCString (mnemonicGenerate source strength bufferLength s).1.toOption = .ok text := by
    rw [generate, Throwing.require_bind_eq_ok]
    apply and_congr_right
    intro _
    rw [Throwing.bind_run]
    change (_, _) = (_, _) ↔ _
    rw [Prod.mk.injEq, and_comm]
  constructor
  · rintro ⟨t, h⟩
    obtain ⟨-, rfl, htext⟩ := (hgenerate t).mp h
    have hchars := ofCString_eq_ok htext
    rcases hrun : mnemonicGenerate source strength bufferLength s with ⟨_ | chars, t⟩
    · rw [hrun] at hchars
      cases hchars
    · rw [hrun] at hchars
      obtain rfl := Option.some.inj hchars
      obtain ⟨hstrength, data, hdata, hwritten⟩ := mnemonicGenerate_eq_ok.mp hrun
      exact ⟨hstrength, data, ⟨t, hdata⟩, generateFrom_eq_ok.mpr hwritten⟩
  · rintro ⟨hstrength, data, ⟨t, hdata⟩, h⟩
    have hwritten := generateFrom_eq_ok.mp h
    have hrun := mnemonicGenerate_eq_ok.mpr ⟨hstrength, data, hdata, hwritten⟩
    refine ⟨t, (hgenerate t).mpr ⟨hstrength, ?_, ?_⟩⟩
    · rw [hrun]
    · rw [hrun]
      exact ofCString_of_written hwritten

/-- In every state that the program can reach, a new mnemonic is valid and is not one of the last three of its length. -/
theorem generated_mnemonics (stack : ℕ → UInt8) (libraries : Crypto) (source : Source) (requests : List ℕ) (strength : ℤ) (text : Text) :
    let run := handedOut source requests
    ((∃ s, generate source strength run.1 = (.ok text, s)) ↔ Strength strength ∧
      ∃ data, Accepts source run.2 (strength / 8).toNat data run.1.calls ∧ generateFrom data = .ok text) ∧
    ((∃ s, generate source strength run.1 = (.ok text, s)) → @isValid (linked stack libraries) text = true ∧
      ((utf8 text).count 0x20 + 1 : ℤ) = strength / 32 * 3 ∧
      ∀ old ∈ lastOf (strength / 8).toNat run.2, generateFrom old ≠ .ok text) := by
  intro run
  have hiff : (∃ s, generate source strength run.1 = (.ok text, s)) ↔ Strength strength ∧
      ∃ data, Accepts source run.2 (strength / 8).toNat data run.1.calls ∧ generateFrom data = .ok text := by
    rw [generate_eq_ok]
    exact and_congr_right fun _ => exists_congr fun data => and_congr_left fun _ => accepts_iff (remembers_handedOut requests)
  refine ⟨hiff, ?_⟩
  rw [hiff]
  rintro ⟨⟨hwhole, hlower, hupper⟩, data, haccepts, hdata⟩
  obtain ⟨hvalid, htext⟩ := valid_of_mnemonicFromData (generateFrom_eq_ok.mp hdata)
  have hlen := haccepts.length
  refine ⟨isValid_of_generated stack libraries hdata, ?_, ?_⟩
  · have hcount := count_sentence hvalid
    rw [← htext] at hcount
    omega
  · intro old hold heq
    obtain rfl := generateFrom_injective heq hdata
    refine haccepts.not_mem ⟨?_, ?_⟩ hold
    · rw [entropyHealthMinLength]
      omega
    · rw [entropyHealthMaxLength]
      omega

end Mnemonic

end TronlinkCore.Keystore
