import TronlinkCore.Abi.Layout
import TronlinkCore.Abi.Values

namespace TronlinkCore.Abi

open Outcome MachineInt Text BigEndian

section

variable [Graphemes]

def unsignedWord (value : ℕ) : Option (List UInt8) := do
  let bytes := serialize value
  guard (bytes.length ≤ 32)
  some (List.replicate (32 - bytes.length) 0 ++ bytes)

def signedWord (value : ℤ) (bits : UInt64) : Option (List UInt8) := do
  let limit := 2 ^ (bits.toNat - 1)
  if value < 0 then do
    guard (value.natAbs ≤ limit)
    unsignedWord (2 ^ 256 - value.natAbs)
  else do
    guard (value.natAbs < limit)
    unsignedWord value.natAbs

def rightPaddedWord (bytes : List UInt8) : Option (List UInt8) := do
  guard (bytes.length ≤ 32)
  some (bytes ++ List.replicate (32 - bytes.length) 0)

def encodeWord : ParameterType → AnyObject → Option (List UInt8)
  | .uint bits, value => do
    let integer ← integerForEncoding value
    guard (0 ≤ integer ∧ integer.natAbs < 2 ^ bits.toNat)
    unsignedWord integer.natAbs
  | .int bits, value => do
    let integer ← integerForEncoding value
    signedWord integer bits
  | .fixed bits decimals, value => do
    let exact ← fixedPoint value decimals
    signedWord exact.scaledValue bits
  | .ufixed bits decimals, value => do
    let exact ← fixedPoint value decimals
    guard (0 ≤ exact.scaledValue ∧ exact.scaledValue.natAbs < 2 ^ bits.toNat)
    unsignedWord exact.scaledValue.natAbs
  | .address, value => do
    let raw ← rawAddress value
    let address ← evmAddress20 raw
    some (List.replicate 12 0 ++ address)
  | .bool, value => do
    let boolean ← asBool value
    unsignedWord (if boolean then 1 else 0)
  | .bytes length, value => do
    let bytes ← convertToData value
    guard (bytes.length ≤ length.toNat)
    rightPaddedWord bytes
  | .function, .data bytes => do
    guard (bytes.length = 24)
    rightPaddedWord bytes
  | _, _ => none

def decodeWord : ParameterType → List UInt8 → Outcome AnyObject
  | .uint bits, word => do
    let bits ← toInt bits.toNat
    ensure (bitWidth (ofBytes word) ≤ bits)
    ok (.bigUInt (ofBytes word))
  | .ufixed bits decimals, word => do
    let bits ← toInt bits.toNat
    ensure (bitWidth (ofBytes word) ≤ bits)
    let exact ← ofOption (FixedPoint.ofScaled (ofBytes word) decimals)
    ok (.fixedPoint exact)
  | .int bits, word => do
    let value ← decodeSigned bits word
    ok (.bigInt value)
  | .fixed bits decimals, word => do
    let value ← decodeSigned bits word
    let exact ← ofOption (FixedPoint.ofScaled value decimals)
    ok (.fixedPoint exact)
  | .address, word => do
    ensure ((word.take 12).all (· == 0))
    ok (.web3Address (Web3Address.ofData (word.drop (word.length - 20))))
  | .bool, word => do
    ensure (ofBytes word = 0 ∨ ofBytes word = 1)
    ok (.number (ofBytes word))
  | .bytes length, word => do
    let length ← toInt length.toNat
    ensure ((word.drop length).all (· == 0))
    ok (.data (word.take length))
  | .function, word => do
    ensure ((word.drop 24).all (· == 0))
    ok (.data (word.take 24))
  | _, _ => fail
where
  decodeSigned (bits : UInt64) (word : List UInt8) : Outcome ℤ := do
    let first ← ofOption word.head?
    let unsigned : ℤ := ofBytes word
    let value := if first &&& 0x80 = 0 then unsigned else unsigned - 2 ^ 256
    let shift ← subInt bits.toNat 1
    let shift ← toInt shift
    ensure (-(2 ^ shift) ≤ value ∧ value < 2 ^ shift)
    ok value

def encodeDynamicBytes (bytes : List UInt8) : Option (List UInt8) := do
  let padding := (32 - bytes.length % 32) % 32
  guard (bytes.length ≤ intMax - 32 - padding)
  let length ← unsignedWord bytes.length
  some (length ++ bytes ++ List.replicate padding 0)

def payloadBytes : ParameterType → AnyObject → Option (List UInt8)
  | .string, .string string => some (utf8 string)
  | .dynamicBytes, value => convertToData value
  | _, _ => none

def payloadValue : ParameterType → List UInt8 → Option AnyObject
  | .string, bytes => (ofUtf8? bytes).map .string
  | _, bytes => some (.data bytes)

def canonicalWord : ParameterType → AnyObject → Option AnyObject
  | .uint _, value => (integerForEncoding value).map fun integer => .bigUInt integer.natAbs
  | .int _, value => (integerForEncoding value).map .bigInt
  | .fixed _ decimals, value => (fixedPoint value decimals).map .fixedPoint
  | .ufixed _ decimals, value => (fixedPoint value decimals).map .fixedPoint
  | .address, value =>
    (rawAddress value >>= evmAddress20).map fun address => .web3Address (Web3Address.ofData address)
  | .bool, value => (asBool value).map fun boolean => .number (if boolean then 1 else 0)
  | .bytes length, value => (convertToData value).map fun bytes =>
    .data (bytes ++ List.replicate (length.toNat - bytes.length) 0)
  | .function, value => some value
  | _, _ => none

def canonicalPayload : ParameterType → AnyObject → Option AnyObject
  | .string, value => some value
  | _, value => (convertToData value).map .data

end

theorem word_bound : (256 : ℕ) ^ 32 = 2 ^ 256 := by norm_num

theorem unsignedWord_eq_some {n : ℕ} {w : List UInt8} :
    unsignedWord n = some w ↔ n < 2 ^ 256 ∧ w = HeadTail.wordOf n := by
  have hw : (serialize n).length ≤ 32 ↔ n < 2 ^ 256 := by
    rw [serialize_length, byteWidth_le_iff, word_bound]
  have hr (h : n < 2 ^ 256) : List.replicate (32 - (serialize n).length) 0 ++ serialize n = HeadTail.wordOf n := by
    rw [← word_bound] at h
    rw [serialize_length, replicate_serialize h, HeadTail.wordOf]
  constructor
  · intro h
    simp only [unsignedWord, Option.bind_eq_bind, Option.bind_eq_some_iff, Option.guard_eq_some', exists_const,
      Option.some.injEq] at h
    obtain ⟨h1, rfl⟩ := h
    have hlt := hw.mp h1
    exact ⟨hlt, hr hlt⟩
  · intro h
    rw [h.2, ← hr h.1]
    simp only [unsignedWord, guard, hw.mpr h.1, if_true]
    rfl

theorem ofBytes_word_lt {w : List UInt8} (h : w.length = 32) : ofBytes w < 2 ^ 256 := by
  have hlt := HeadTail.fitsWord_ofBytes h
  rwa [HeadTail.FitsWord, word_bound] at hlt

theorem fitsWord_iff {n : ℕ} : HeadTail.FitsWord n ↔ n < 2 ^ 256 := by rw [HeadTail.FitsWord, word_bound]

def InRange (bits : UInt64) (i : ℤ) : Prop := -(2 ^ (bits.toNat - 1)) ≤ i ∧ i < 2 ^ (bits.toNat - 1)

theorem signed_limit {bits : UInt64} (hb : 0 < bits ∧ bits ≤ 256) : 0 < bits.toNat ∧ bits.toNat ≤ 256 :=
  ⟨UInt64.lt_iff_toNat_lt.mp hb.1, UInt64.le_iff_toNat_le.mp hb.2⟩

theorem decodeSigned_eq_ok {bits : UInt64} {w : List UInt8} {i : ℤ} (hw : w.length = 32)
    (hb : 0 < bits ∧ bits ≤ 256) :
    decodeWord.decodeSigned bits w = ok i ↔
      i = toInt 32 (ofBytes w) ∧ InRange bits i := by
  obtain ⟨hpos, hle⟩ := signed_limit hb
  have hshift : bits.toNat - 1 ≤ intMax := by
    have : 256 ≤ intMax := by decide
    omega
  cases w with
  | nil => simp at hw
  | cons first rest =>
    have hlen : rest.length = 31 := by simpa using hw
    have hof := ofBytes_cons first rest
    have hrest := ofBytes_lt rest
    rw [hlen] at hof hrest
    have hsign : first &&& 0x80 = 0 ↔ 2 * ofBytes (first :: rest) < 256 ^ 32 := by
      rw [(signBit_iff _).1, hof]
      constructor
      · intro h
        have := Nat.mul_le_mul_right (256 ^ 31) (Nat.succ_le_of_lt h)
        omega
      · intro h
        by_contra hn
        have := Nat.mul_le_mul_right (256 ^ 31) (Nat.le_of_not_lt hn)
        omega
    have hval : (if first &&& 0x80 = 0 then (ofBytes (first :: rest) : ℤ) else ofBytes (first :: rest) - 2 ^ 256) =
        toInt 32 (ofBytes (first :: rest)) := by
      by_cases h : first &&& 0x80 = 0
      · rw [if_pos h, BigEndian.toInt, if_pos (hsign.mp h)]
      · rw [if_neg h, BigEndian.toInt, if_neg (fun hn => h (hsign.mpr hn))]
        norm_num
    simp only [decodeWord.decodeSigned, List.head?_cons, ofOption_some, ok_bind, hval, subInt_of_le hpos,
      toInt_of_le hshift, bind_eq_ok, ensure_eq_ok, exists_const, ok.injEq]
    constructor
    · rintro ⟨h, rfl⟩
      exact ⟨rfl, h⟩
    · rintro ⟨rfl, h⟩
      exact ⟨h, rfl⟩

theorem InRange.half {bits : UInt64} {i : ℤ} (hb : 0 < bits ∧ bits ≤ 256) (h : InRange bits i) :
    -(256 ^ 32 : ℤ) ≤ 2 * i ∧ 2 * i < 256 ^ 32 := by
  obtain ⟨hpos, hle⟩ := signed_limit hb
  obtain ⟨hl, hu⟩ := h
  have hp : (2 : ℤ) ^ (bits.toNat - 1) ≤ 2 ^ 255 := pow_le_pow_right₀ (by norm_num) (by omega)
  have he : (256 : ℤ) ^ 32 = 2 * 2 ^ 255 := by norm_num
  rw [he]
  constructor <;> linarith

theorem InRange.bitWidth_le {bits : UInt64} {i : ℤ} (hb : 0 < bits ∧ bits ≤ 256) (h : InRange bits i) :
    bitWidth i.natAbs ≤ 256 := by
  obtain ⟨hl, hu⟩ := h.half hb
  have he : (256 : ℤ) ^ 32 = 2 ^ 256 := by norm_num
  rw [he] at hl hu
  apply bitWidth_le_iff.mpr
  zify
  rw [abs_lt]
  constructor <;> linarith

theorem signedWord_eq_some {bits : UInt64} {i : ℤ} {w : List UInt8} (hb : 0 < bits ∧ bits ≤ 256) :
    signedWord i bits = some w ↔ InRange bits i ∧ w = HeadTail.wordOf (ofInt 32 i) := by
  have hz : (256 : ℤ) ^ 32 = 2 ^ 256 := by norm_num
  have hlim : ((2 ^ (bits.toNat - 1) : ℕ) : ℤ) = 2 ^ (bits.toNat - 1) := by push_cast; rfl
  have hof (h : InRange bits i) :
      unsignedWord (ofInt 32 i) = some (HeadTail.wordOf (ofInt 32 i)) := by
    have hlt := ofInt_lt 32 i
    rw [word_bound] at hlt
    exact unsignedWord_eq_some.mpr ⟨hlt, rfl⟩
  have hword (h : InRange bits i) : signedWord i bits = some (HeadTail.wordOf (ofInt 32 i)) := by
    obtain ⟨hl, hu⟩ := h.half hb
    rw [← hof h]
    by_cases h0 : i < 0
    · have hn : i.natAbs ≤ 2 ^ (bits.toNat - 1) := by
        have := h.1
        omega
      rw [ofInt_of_neg h0 (by omega), word_bound]
      simp only [signedWord, if_pos h0, guard, hn, if_true]
      rfl
    · have hn : i.natAbs < 2 ^ (bits.toNat - 1) := by
        have := h.2
        omega
      rw [ofInt_of_nonneg (by omega) (by omega)]
      simp only [signedWord, if_neg h0, guard, hn, if_true]
      rfl
  have hrange (h : signedWord i bits = some w) : InRange bits i := by
    unfold signedWord at h
    by_cases h0 : i < 0
    · simp only [if_pos h0, Option.bind_eq_bind, Option.bind_eq_some_iff, Option.guard_eq_some', exists_const] at h
      have hn := h.1
      constructor <;> omega
    · simp only [if_neg h0, Option.bind_eq_bind, Option.bind_eq_some_iff, Option.guard_eq_some', exists_const] at h
      have hn := h.1
      constructor <;> omega
  constructor
  · intro h
    have hr := hrange h
    rw [hword hr] at h
    exact ⟨hr, (Option.some.inj h).symm⟩
  · intro h
    rw [h.2]
    exact hword h.1

theorem toInt_word {bits : UInt64} {i : ℤ} (h : InRange bits i) (hb : 0 < bits ∧ bits ≤ 256) :
    BigEndian.toInt 32 (ofBytes (HeadTail.wordOf (ofInt 32 i))) = i := by
  obtain ⟨hl, hu⟩ := h.half hb
  rw [HeadTail.wordOf, ofBytes_toBytes_of_lt (ofInt_lt 32 i)]
  exact toInt_ofInt hl hu

theorem signed_read {bits : UInt64} {i : ℤ} {w : List UInt8} (hb : 0 < bits ∧ bits ≤ 256) :
    signedWord i bits = some w ↔ w.length = 32 ∧ decodeWord.decodeSigned bits w = ok i := by
  rw [signedWord_eq_some hb]
  constructor
  · intro h
    have hlen : w.length = 32 := by
      rw [h.2]
      exact HeadTail.wordOf_length _
    refine ⟨hlen, (decodeSigned_eq_ok hlen hb).mpr ⟨?_, h.1⟩⟩
    rw [h.2, toInt_word h.1 hb]
  · intro h
    obtain ⟨hi, hr⟩ := (decodeSigned_eq_ok h.1 hb).mp h.2
    refine ⟨hr, ?_⟩
    have hlt := ofBytes_lt w
    rw [h.1] at hlt
    rw [hi, ofInt_toInt hlt, HeadTail.wordOf_ofBytes h.1]

theorem all_zero_iff {bs : List UInt8} : bs.all (· == 0) = true ↔ bs = List.replicate bs.length 0 := by
  simp [List.eq_replicate_iff]

theorem zero_suffix {w : List UInt8} {n : ℕ} (hw : w.length = 32) (h : (w.drop n).all (· == 0) = true) :
    w.take n ++ List.replicate (32 - n) 0 = w := by
  have hz := all_zero_iff.mp h
  rw [List.length_drop, hw] at hz
  rw [← hz, List.take_append_drop]

theorem take_padded {bs : List UInt8} {n : ℕ} (hn : bs.length ≤ n) (hle : n ≤ 32) :
    (bs ++ List.replicate (32 - bs.length) 0).take n = bs ++ List.replicate (n - bs.length) 0 := by
  rw [List.take_append, List.take_of_length_le hn, List.take_replicate, Nat.min_eq_left (by omega)]

theorem drop_padded {bs : List UInt8} {n : ℕ} (hn : bs.length ≤ n) :
    ((bs ++ List.replicate (32 - bs.length) 0).drop n).all (· == 0) = true := by
  rw [List.drop_append, List.drop_of_length_le hn, List.nil_append, List.drop_replicate]
  simp

theorem rightPaddedWord_eq_some {bs w : List UInt8} :
    rightPaddedWord bs = some w ↔ bs.length ≤ 32 ∧ w = bs ++ List.replicate (32 - bs.length) 0 := by
  by_cases h : bs.length ≤ 32
  · simp [rightPaddedWord, guard, h, eq_comm]
  · simp [rightPaddedWord, guard, h]

theorem unsigned_read {bits : UInt64} {n : ℕ} {w : List UInt8} (hb : bits ≤ 256) (hn : n < 2 ^ bits.toNat) :
    unsignedWord n = some w ↔ w.length = 32 ∧ ofBytes w = n := by
  have hle : bits.toNat ≤ 256 := UInt64.le_iff_toNat_le.mp hb
  have hlt : n < 2 ^ 256 := Nat.lt_of_lt_of_le hn (Nat.pow_le_pow_right (by omega) hle)
  rw [unsignedWord_eq_some]
  constructor
  · intro h
    rw [h.2]
    exact ⟨HeadTail.wordOf_length n, HeadTail.ofBytes_wordOf (fitsWord_iff.mpr hlt)⟩
  · intro h
    rw [← h.2, HeadTail.wordOf_ofBytes h.1]
    exact ⟨ofBytes_word_lt h.1, rfl⟩

theorem toInt_bits {bits : UInt64} (hb : bits ≤ 256) : MachineInt.toInt bits.toNat = ok bits.toNat := by
  have hle : bits.toNat ≤ 256 := UInt64.le_iff_toNat_le.mp hb
  have hm : 256 ≤ intMax := by decide
  exact toInt_of_le (by omega)

theorem fixed_bits {bits decimals : UInt64} (h : (ParameterType.fixed bits decimals).ValidScalar) :
    0 < bits ∧ bits ≤ 256 :=
  ⟨UInt64.lt_of_lt_of_le (by decide) h.1, h.2.1⟩

section

variable [Graphemes]

theorem fixedPoint_decimals {v : AnyObject} {decimals : UInt64} {p : FixedPoint}
    (h : fixedPoint v decimals = some p) : p.decimals = decimals := by
  cases v with
  | fixedPoint exact =>
    simp only [fixedPoint] at h
    split at h
    · cases h
      assumption
    · cases h
  | string decimal =>
    simp only [fixedPoint, FixedPoint.ofDecimal, Option.bind_eq_bind, Option.bind_eq_some_iff] at h
    obtain ⟨_, _, _, _, _, _, _, _, _, _, h⟩ := h
    exact (FixedPoint.ofScaled_eq_some.mp h).2
  | bigUInt | bigInt | number | data | web3Address | array | other => simp [fixedPoint] at h

theorem decodeWord_of_encodeWord {t : ParameterType} {v : AnyObject} {w : List UInt8} (hv : t.ValidScalar)
    (h : encodeWord t v = some w) :
    w.length = 32 ∧ ∃ c, canonicalWord t v = some c ∧ decodeWord t w = ok c := by
  cases t with
  | uint bits =>
    simp only [encodeWord, Option.bind_eq_bind, Option.bind_eq_some_iff, Option.guard_eq_some',
      exists_const] at h
    obtain ⟨i, hi, hr, hw⟩ := h
    obtain ⟨hlen, hof⟩ := (unsigned_read hv.2.1 hr.2).mp hw
    refine ⟨hlen, .bigUInt i.natAbs, by simp [canonicalWord, hi], ?_⟩
    have hbw : bitWidth i.natAbs ≤ bits.toNat := bitWidth_le_iff.mpr hr.2
    rw [decodeWord, toInt_bits hv.2.1, ok_bind, hof, ensure_true hbw]
    rfl
  | int bits =>
    simp only [encodeWord, Option.bind_eq_bind, Option.bind_eq_some_iff] at h
    obtain ⟨i, hi, hw⟩ := h
    obtain ⟨hlen, hd⟩ := (signed_read ⟨hv.1, hv.2.1⟩).mp hw
    refine ⟨hlen, .bigInt i, by simp [canonicalWord, hi], ?_⟩
    rw [decodeWord, hd]
    rfl
  | fixed bits decimals =>
    simp only [encodeWord, Option.bind_eq_bind, Option.bind_eq_some_iff] at h
    obtain ⟨exact, he, hw⟩ := h
    obtain ⟨hlen, hd⟩ := (signed_read (fixed_bits hv)).mp hw
    have hs := FixedPoint.ofScaled_eq_some.mpr ⟨rfl, (fixedPoint_decimals he)⟩
    refine ⟨hlen, .fixedPoint exact, by simp [canonicalWord, he], ?_⟩
    rw [decodeWord, hd, ok_bind, hs]
    rfl
  | ufixed bits decimals =>
    simp only [encodeWord, Option.bind_eq_bind, Option.bind_eq_some_iff, Option.guard_eq_some',
      exists_const] at h
    obtain ⟨exact, he, hr, hw⟩ := h
    obtain ⟨hlen, hof⟩ := (unsigned_read hv.2.1 hr.2).mp hw
    have hbw : bitWidth exact.scaledValue.natAbs ≤ bits.toNat := bitWidth_le_iff.mpr hr.2
    have hi : exact.scaledValue = (exact.scaledValue.natAbs : ℤ) := (Int.natAbs_of_nonneg hr.1).symm
    have hs := FixedPoint.ofScaled_eq_some.mpr ⟨hi, fixedPoint_decimals he⟩
    refine ⟨hlen, .fixedPoint exact, by simp [canonicalWord, he], ?_⟩
    rw [decodeWord, toInt_bits hv.2.1, ok_bind, hof, ensure_true hbw, ok_bind, hs]
    rfl
  | address =>
    simp only [encodeWord, Option.bind_eq_bind, Option.bind_eq_some_iff, Option.some.injEq] at h
    obtain ⟨raw, hraw, address, ha, rfl⟩ := h
    have h20 := evmAddress20_length ha
    refine ⟨by simp [h20], .web3Address (Web3Address.ofData address), by simp [canonicalWord, hraw, ha], ?_⟩
    have hz : ((List.replicate 12 0 ++ address).take 12).all (· == 0) = true := by simp
    rw [decodeWord, ensure_true hz, List.length_append, h20]
    rfl
  | bool =>
    simp only [encodeWord, Option.bind_eq_bind, Option.bind_eq_some_iff] at h
    obtain ⟨b, hb, hw⟩ := h
    have hlt : (if b then 1 else 0) < 2 ^ (8 : UInt64).toNat := by
      cases b <;> decide
    obtain ⟨hlen, hof⟩ := (unsigned_read (by decide) hlt).mp hw
    refine ⟨hlen, .number (if b then 1 else 0), by simp [canonicalWord, hb], ?_⟩
    rw [decodeWord, hof]
    cases b <;> rfl
  | bytes length =>
    simp only [encodeWord, Option.bind_eq_bind, Option.bind_eq_some_iff, Option.guard_eq_some',
      exists_const] at h
    obtain ⟨bs, hbs, hn, hw⟩ := h
    obtain ⟨hlen, rfl⟩ := rightPaddedWord_eq_some.mp hw
    have h32 : length.toNat ≤ 32 := UInt64.le_iff_toNat_le.mp hv.2
    refine ⟨by simp [hlen], .data (bs ++ List.replicate (length.toNat - bs.length) 0),
      by simp [canonicalWord, hbs], ?_⟩
    rw [decodeWord, toInt_bits (UInt64.le_trans hv.2 (by decide)), ok_bind, ensure_true (drop_padded hn),
      take_padded hn h32]
    rfl
  | function =>
    cases v with
    | data bs =>
      simp only [encodeWord, Option.bind_eq_bind, Option.bind_eq_some_iff, Option.guard_eq_some',
        exists_const] at h
      obtain ⟨hn, hw⟩ := h
      obtain ⟨hlen, rfl⟩ := rightPaddedWord_eq_some.mp hw
      refine ⟨by simp [hlen], .data bs, rfl, ?_⟩
      rw [decodeWord, ensure_true (drop_padded (Nat.le_of_eq hn)), take_padded (Nat.le_of_eq hn) (by omega), hn]
      simp
    | bigUInt | bigInt | number | string | web3Address | fixedPoint | array | other => simp [encodeWord] at h
  | array | fixedArray | dynamicBytes | string | tuple => simp [encodeWord] at h

theorem encodeWord_of_decodeWord {t : ParameterType} {c : AnyObject} {w : List UInt8} (hv : t.ValidScalar)
    (hw : w.length = 32) (h : decodeWord t w = ok c) : encodeWord t c = some w := by
  cases t with
  | uint bits =>
    simp only [decodeWord, toInt_bits hv.2.1, ok_bind, bind_eq_ok, ensure_eq_ok, exists_const, ok.injEq] at h
    obtain ⟨hb, rfl⟩ := h
    have hr := bitWidth_le_iff.mp hb
    have h256 := bitWidth_le_iff.mpr (ofBytes_word_lt hw)
    simp [encodeWord, integerForEncoding, convertToBigInt, guard, h256, hr, (unsigned_read hv.2.1 hr).mpr ⟨hw, rfl⟩]
  | int bits =>
    have hb := And.intro hv.1 hv.2.1
    simp only [decodeWord, bind_eq_ok, ok.injEq] at h
    obtain ⟨i, hi, rfl⟩ := h
    have h256 := ((decodeSigned_eq_ok hw hb).mp hi).2.bitWidth_le hb
    simp [encodeWord, integerForEncoding, convertToBigInt, guard, h256, (signed_read hb).mpr ⟨hw, hi⟩]
  | fixed bits decimals =>
    simp only [decodeWord, bind_eq_ok, ofOption_eq_ok, ok.injEq] at h
    obtain ⟨i, hi, p, hp, rfl⟩ := h
    obtain ⟨rfl, rfl⟩ := FixedPoint.ofScaled_eq_some.mp hp
    simp [encodeWord, fixedPoint, (signed_read (fixed_bits hv)).mpr ⟨hw, hi⟩]
  | ufixed bits decimals =>
    simp only [decodeWord, toInt_bits hv.2.1, ok_bind, bind_eq_ok, ensure_eq_ok, exists_const, ofOption_eq_ok,
      ok.injEq] at h
    obtain ⟨hb, p, hp, rfl⟩ := h
    obtain ⟨hi, rfl⟩ := FixedPoint.ofScaled_eq_some.mp hp
    have hr := bitWidth_le_iff.mp hb
    simp [encodeWord, fixedPoint, hi, guard, hr, (unsigned_read hv.2.1 hr).mpr ⟨hw, rfl⟩]
  | address =>
    simp only [decodeWord, bind_eq_ok, ensure_eq_ok, exists_const, ok.injEq] at h
    obtain ⟨hz, rfl⟩ := h
    have hd : (w.drop (w.length - 20)).length = 20 := by
      rw [List.length_drop]
      omega
    have hsplit : List.replicate 12 0 ++ w.drop (w.length - 20) = w := by
      have ht := all_zero_iff.mp hz
      rw [List.length_take, hw] at ht
      rw [hw]
      calc List.replicate 12 0 ++ w.drop 12 = w.take 12 ++ w.drop 12 := by rw [ht]; rfl
        _ = w := List.take_append_drop 12 w
    have ha : evmAddress20 (w.drop (w.length - 20)) = some (w.drop (w.length - 20)) := if_pos hd
    rw [encodeWord, rawAddress, validatedAddressData_ofData hd]
    change (do let address ← evmAddress20 (w.drop (w.length - 20)); some (List.replicate 12 0 ++ address)) = some w
    rw [ha]
    exact congrArg some hsplit
  | bool =>
    simp only [decodeWord, bind_eq_ok, ensure_eq_ok, exists_const, ok.injEq] at h
    obtain ⟨h01, rfl⟩ := h
    have hr : ofBytes w < 2 ^ (8 : UInt64).toNat := by
      rcases h01 with h | h <;> rw [h] <;> decide
    have hword := (unsigned_read (by decide) hr).mpr ⟨hw, rfl⟩
    rcases h01 with h | h <;> rw [h] at hword ⊢ <;> simpa [encodeWord, asBool] using hword
  | bytes length =>
    have h32 : length.toNat ≤ 32 := UInt64.le_iff_toNat_le.mp hv.2
    simp only [decodeWord, toInt_bits (UInt64.le_trans hv.2 (by decide : (32 : UInt64) ≤ 256)), ok_bind, bind_eq_ok,
      ensure_eq_ok, exists_const, ok.injEq] at h
    obtain ⟨hz, rfl⟩ := h
    have hlen : (w.take length.toNat).length = length.toNat := by
      rw [List.length_take, hw, Nat.min_eq_left h32]
    have hp := rightPaddedWord_eq_some.mpr ⟨Nat.le_trans (Nat.le_of_eq hlen) h32, rfl⟩
    rw [hlen, zero_suffix hw hz] at hp
    simp [encodeWord, convertToData, guard, hp]
  | function =>
    simp only [decodeWord, bind_eq_ok, ensure_eq_ok, exists_const, ok.injEq] at h
    obtain ⟨hz, rfl⟩ := h
    have hlen : (w.take 24).length = 24 := by simp [hw]
    have hp := rightPaddedWord_eq_some.mpr ⟨Nat.le_trans (Nat.le_of_eq hlen) (by decide : 24 ≤ 32), rfl⟩
    rw [hlen, zero_suffix hw hz] at hp
    simp [encodeWord, guard, hw, hp]
  | array | fixedArray | dynamicBytes | string | tuple => simp [decodeWord] at h

theorem decodeWord_ne_trap {t : ParameterType} {w : List UInt8} (hv : t.ValidScalar) : decodeWord t w ≠ trap := by
  have signed (bits : UInt64) (hb : 0 < bits ∧ bits ≤ 256) : decodeWord.decodeSigned bits w ≠ trap := by
    obtain ⟨hpos, hle⟩ := signed_limit hb
    have hshift : bits.toNat - 1 ≤ intMax := by
      have : 256 ≤ intMax := by decide
      omega
    apply bind_ne_trap (ofOption_ne_trap _)
    intro first _
    simp only [subInt_of_le hpos, toInt_of_le hshift, ok_bind]
    apply bind_ne_trap (ensure_ne_trap _)
    simp
  cases t with
  | uint bits =>
    rw [decodeWord, toInt_bits hv.2.1, ok_bind]
    apply bind_ne_trap (ensure_ne_trap _)
    simp
  | ufixed bits decimals =>
    rw [decodeWord, toInt_bits hv.2.1, ok_bind]
    apply bind_ne_trap (ensure_ne_trap _)
    intro _ _
    apply bind_ne_trap (ofOption_ne_trap _)
    simp
  | int bits =>
    apply bind_ne_trap (signed bits ⟨hv.1, hv.2.1⟩)
    simp
  | fixed bits decimals =>
    apply bind_ne_trap (signed bits (fixed_bits hv))
    intro _ _
    apply bind_ne_trap (ofOption_ne_trap _)
    simp
  | bytes length =>
    rw [decodeWord, toInt_bits (UInt64.le_trans hv.2 (by decide)), ok_bind]
    apply bind_ne_trap (ensure_ne_trap _)
    simp
  | address | bool | function =>
    apply bind_ne_trap (ensure_ne_trap _)
    simp
  | array | fixedArray | dynamicBytes | string | tuple => simp [decodeWord]

theorem payloadValue_of_payloadBytes {t : ParameterType} {v : AnyObject} {bs : List UInt8}
    (h : payloadBytes t v = some bs) : ∃ c, canonicalPayload t v = some c ∧ payloadValue t bs = some c := by
  cases t with
  | string =>
    cases v with
    | string s =>
      simp only [payloadBytes, Option.some.injEq] at h
      subst h
      exact ⟨.string s, rfl, by rw [payloadValue, ofUtf8?_utf8]; rfl⟩
    | bigUInt | bigInt | number | data | web3Address | fixedPoint | array | other => simp [payloadBytes] at h
  | dynamicBytes => exact ⟨.data bs, by simpa [canonicalPayload, payloadBytes] using h, rfl⟩
  | uint | int | fixed | ufixed | address | function | bool | bytes | array | fixedArray | tuple =>
    simp [payloadBytes] at h

theorem payloadBytes_of_payloadValue {t : ParameterType} {c : AnyObject} {bs : List UInt8} (ht : t.IsPayload)
    (h : payloadValue t bs = some c) : payloadBytes t c = some bs := by
  cases t with
  | string =>
    simp only [payloadValue, Option.map_eq_some_iff] at h
    obtain ⟨s, hs, rfl⟩ := h
    rw [payloadBytes, utf8_of_ofUtf8? hs]
  | dynamicBytes =>
    simp only [payloadValue, Option.some.injEq] at h
    subst h
    rfl
  | uint | int | fixed | ufixed | address | function | bool | bytes | array | fixedArray | tuple => exact ht.elim

end

theorem encodeDynamicBytes_eq_some {bs w : List UInt8} :
    encodeDynamicBytes bs = some w ↔ (HeadTail.wordOf bs.length ++ HeadTail.padded bs).length ≤ intMax ∧
      w = HeadTail.wordOf bs.length ++ HeadTail.padded bs := by
  have hm : intMax < 2 ^ 256 := by norm_num [intMax]
  have hpad := HeadTail.padding_lt bs.length
  have hlen : (HeadTail.wordOf bs.length ++ HeadTail.padded bs).length =
      32 + bs.length + HeadTail.padding bs.length := by
    simp [Nat.add_assoc]
  have hle : bs.length ≤ intMax - 32 - (32 - bs.length % 32) % 32 ↔
      32 + bs.length + HeadTail.padding bs.length ≤ intMax := by
    have : 96 ≤ intMax := by decide
    unfold HeadTail.padding
    omega
  rw [hlen]
  constructor
  · intro h
    simp only [encodeDynamicBytes, Option.bind_eq_bind, Option.bind_eq_some_iff, Option.guard_eq_some', exists_const,
      Option.some.injEq, hle] at h
    obtain ⟨h1, word, hword, hw⟩ := h
    refine ⟨h1, ?_⟩
    rw [← hw, (unsignedWord_eq_some.mp hword).2, List.append_assoc]
    rfl
  · intro h
    have hlt : bs.length < 2 ^ 256 := by omega
    simp only [encodeDynamicBytes, guard, hle, h.1, if_true, unsignedWord_eq_some.mpr ⟨hlt, rfl⟩]
    rw [h.2, HeadTail.padded, ← List.append_assoc]
    rfl

end TronlinkCore.Abi
