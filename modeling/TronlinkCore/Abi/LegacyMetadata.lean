import Mathlib.Data.List.DropRight
import TronlinkCore.Abi.DecodingSpec

/-!
One word may stand for one string. No strict encoding of a string has room in a
word, so the words read this way are lost by no other caller.
-/

namespace TronlinkCore.Abi

open Outcome MachineInt HeadTail ParameterType

theorem trimTrailingZeros_eq_iff {bytes trimmed : List UInt8} :
    trimTrailingZeros bytes = trimmed ↔
      (∃ zeros, bytes = trimmed ++ List.replicate zeros 0) ∧ trimmed.getLast? ≠ some 0 := by
  change bytes.rdropWhile (· == 0) = trimmed ↔ _
  constructor
  · rintro rfl
    constructor
    · have htake : ∀ b ∈ bytes.rtakeWhile (· == 0), b = 0 := by
        intro b hb
        have hzero := List.mem_rtakeWhile_imp hb
        exact beq_iff_eq.mp hzero
      refine ⟨(bytes.rtakeWhile (· == 0)).length, ?_⟩
      rw [← List.eq_replicate_of_mem htake, List.rdropWhile_append_rtakeWhile]
    · intro hlast
      obtain ⟨hne, hzero⟩ := List.mem_getLast?_eq_getLast hlast
      have hnot := List.rdropWhile_last_not (· == 0) bytes hne
      rw [← hzero] at hnot
      exact hnot rfl
  · rintro ⟨⟨zeros, rfl⟩, hlast⟩
    induction zeros with
    | zero =>
      rw [List.replicate_zero, List.append_nil, List.rdropWhile_eq_self_iff]
      intro hne hzero
      rw [List.getLast?_eq_some_getLast hne, beq_iff_eq.mp hzero] at hlast
      exact hlast rfl
    | succ zeros ih =>
      rw [List.replicate_succ', ← List.append_assoc, List.rdropWhile_concat_pos _ _ _ rfl, ih]

/-- A word that names a text: the text, then zeros, and no zero in front unless nothing else is there -/
structure NamesText (word : List UInt8) (text : Text) : Prop where
  length_eq : word.length = 32
  aligned : (∀ b ∈ word, b = 0) ∨ word.head? ≠ some 0
  padded : ∃ zeros, word = Text.utf8 text ++ List.replicate zeros 0
  trimmed : (Text.utf8 text).getLast? ≠ some 0

theorem ofUtf8?_eq_some_iff {bytes : List UInt8} {text : Text} :
    Text.ofUtf8? bytes = some text ↔ bytes = Text.utf8 text := by
  constructor
  · intro h
    exact (Text.utf8_of_ofUtf8? h).symm
  · rintro rfl
    exact Text.ofUtf8?_utf8 text

theorem decodeLegacyMetadata_string {first : UInt8} {rest : List UInt8} :
    decodeLegacyMetadata .string (first :: rest) =
      if (first :: rest).length = 32 ∧ (first ≠ 0 ∨ (first :: rest).all (· == 0)) then
        (Text.ofUtf8? (trimTrailingZeros (first :: rest))).map AnyObject.string
      else none := by
  unfold decodeLegacyMetadata
  dsimp only
  split
  · rename_i h
    by_cases hzero : first = 0
    · have hall : (first :: rest).all (· == 0) := h.2.resolve_left (not_not.mpr hzero)
      have hnil : trimTrailingZeros (first :: rest) = [] := by
        apply List.rdropWhile_eq_nil_iff.mpr
        exact List.all_eq_true.mp hall
      rw [if_pos hzero, hnil]
    · rw [if_neg hzero]
  · rfl

theorem decodeLegacyMetadata_eq_some_iff {type : ParameterType} {word : List UInt8} {value : AnyObject} :
    decodeLegacyMetadata type word = some value ↔
      type = .string ∧ ∃ text, NamesText word text ∧ value = .string text := by
  constructor
  · intro h
    have htype : type = .string ∧ ∃ first rest, word = first :: rest := by
      unfold decodeLegacyMetadata at h
      split at h
      · exact ⟨rfl, _, _, rfl⟩
      · cases h
    obtain ⟨rfl, first, rest, rfl⟩ := htype
    refine ⟨rfl, ?_⟩
    rw [decodeLegacyMetadata_string] at h
    split at h
    · rename_i hword
      obtain ⟨text, htext, rfl⟩ := Option.map_eq_some_iff.mp h
      obtain ⟨hpadded, htrimmed⟩ := trimTrailingZeros_eq_iff.mp (ofUtf8?_eq_some_iff.mp htext)
      refine ⟨text, ⟨hword.1, ?_, hpadded, htrimmed⟩, rfl⟩
      rcases hword.2 with hfirst | hall
      · exact .inr fun hhead => hfirst (Option.some.inj hhead)
      · exact .inl fun b hb => beq_iff_eq.mp (List.all_eq_true.mp hall b hb)
    · cases h
  · rintro ⟨rfl, text, hnames, rfl⟩
    have hlen := hnames.length_eq
    cases word with
    | nil => cases hlen
    | cons first rest =>
      have hfirst : first ≠ 0 ∨ (first :: rest).all (· == 0) = true := by
        rcases hnames.aligned with hall | hhead
        · exact .inr (List.all_eq_true.mpr fun b hb => beq_iff_eq.mpr (hall b hb))
        · exact .inl fun h => hhead (congrArg some h)
      rw [decodeLegacyMetadata_string, if_pos ⟨hlen, hfirst⟩,
        trimTrailingZeros_eq_iff.mpr ⟨hnames.padded, hnames.trimmed⟩, Text.ofUtf8?_utf8]
      rfl

theorem decodePayload_ne_ok {data : List UInt8} {type : ParameterType} {start : ℕ} {budget : Budget}
    {r : AnyObject × Budget} (h : data.length < start + 32) : decodePayload data type start budget ≠ ok r := by
  intro hok
  simp only [decodePayload, bind_eq_ok, ensure_eq_ok, exists_const, subInt_eq_ok] at hok
  obtain ⟨hstart, _, ⟨_, rfl⟩, hroom, _⟩ := hok
  omega

theorem tailFloor_string {data : Data} (hlen : data.bytes.length = 32) {minimumTail : Option UInt64} {floor : ℕ} :
    tailFloor data 0 ParameterType.string.shape minimumTail 0 32 = ok floor ↔
      floor = 32 ∧ (minimumTail = none ∨ minimumTail = some 32) := by
  have hfits : (32 : ℕ) ≤ intMax := by decide
  cases minimumTail with
  | none =>
    rw [tailFloor, addInt_of_le hfits]
    simp [eq_comm]
  | some minimumTail =>
    have hsize : addUInt64 (0 : UInt64).toNat ParameterType.string.shape.headSize = ok 32 := rfl
    have heq : minimumTail = 32 ↔ minimumTail.toNat = 32 := UInt64.toNat_inj.symm
    simp only [tailFloor, hsize, ok_bind, hlen, bind_eq_ok, ensure_eq_ok, exists_const, toInt_eq_ok, reduceCtorEq,
      false_or, Option.some.injEq, heq]
    omega

section

variable [Graphemes]

theorem decodeValue_string_ne_ok {data : List UInt8} (hlen : data.length = 32) {minimumTail : ℕ} (hmin : 32 ≤ minimumTail)
    {budget : Budget} {r : AnyObject × Budget} : decodeValue data .string 0 0 minimumTail 0 budget ≠ ok r := by
  intro hok
  have hstatic : ParameterType.string.shape.isStatic = false := rfl
  have hlevels : decodeValue data = decodeLevels data (63 + 1) := rfl
  rw [hlevels, decodeLevels] at hok
  simp only [bind_eq_ok, Prod.exists, ensure_eq_ok, afford_eq_ok, exists_const, subInt_eq_ok] at hok
  obtain ⟨_, _, _, layout, _, hlayout, _, _, _, _, _, start, hstart, hvalue⟩ := hok
  obtain ⟨_, rfl, _, _⟩ := Budget.layout_eq_ok hlayout
  rw [hstatic, valueStart] at hstart
  simp only [Bool.false_eq_true, if_false, bind_eq_ok, ensure_eq_ok, exists_const, addInt_eq_ok] at hstart
  obtain ⟨_, _, offset, _, hoffset, _, rfl⟩ := hstart
  rw [decodeOf] at hvalue
  exact decodePayload_ne_ok (by omega) hvalue

theorem decodeTuple_string_ne_ok {data : List UInt8} (hlen : data.length = 32) {budget : Budget}
    {r : List AnyObject × Budget} : decodeTuple (decodeValue data) data [.string] 0 0 budget ≠ ok r := by
  intro hok
  simp only [decodeTuple, bind_eq_ok, Prod.exists, ensure_eq_ok, afford_eq_ok, exists_const] at hok
  obtain ⟨_, _, headSize, _, hheads, hmembers⟩ := hok
  obtain ⟨_, _, hsize, _⟩ := tupleHeads_eq_ok (by omega) hheads
  have hsize : headSize = 32 := hsize
  simp only [decodeMembers, bind_eq_ok, Prod.exists] at hmembers
  obtain ⟨_, _, _, _, _, hvalue, _⟩ := hmembers
  exact decodeValue_string_ne_ok hlen (by omega) hvalue

theorem decode_string_ne_ok {data : Data} (hlen : data.bytes.length = 32) {values : List AnyObject} :
    decode [.string] data false ≠ ok values := by
  intro hok
  rw [decode_strict, bind_eq_ok] at hok
  obtain ⟨r, htuple, _⟩ := hok
  exact decodeTuple_string_ne_ok hlen htuple

theorem decode_of_none {type : ParameterType} {data : Data} (h : decodeLegacyMetadata type data.bytes = none) :
    decode [type] data true = decode [type] data false := by
  unfold decode
  simp only [h, ite_self]

theorem decode_of_namesText {data : Data} {text : Text} (h : NamesText data.bytes text) :
    decode [.string] data true = ok [.string text] := by
  have hlegacy := decodeLegacyMetadata_eq_some_iff.mpr ⟨rfl, text, h, rfl⟩
  unfold decode
  simp only [hlegacy, h.length_eq, decide_true, Bool.and_self, if_true]

theorem decode_cases (types : List ParameterType) (data : Data) :
    (types = [.string] ∧ ∃ text, NamesText data.bytes text) ∨ decode types data true = decode types data false := by
  cases types with
  | nil => exact .inr rfl
  | cons type types =>
    cases types with
    | cons type' types => exact .inr rfl
    | nil =>
      cases hlegacy : decodeLegacyMetadata type data.bytes with
      | none => exact .inr (decode_of_none hlegacy)
      | some value =>
        obtain ⟨rfl, text, hnames, rfl⟩ := decodeLegacyMetadata_eq_some_iff.mp hlegacy
        exact .inl ⟨rfl, text, hnames⟩

theorem decodeSignleType_of_none {type : ParameterType} {data : Data} {minimumTail : Option UInt64}
    (h : decodeLegacyMetadata type data.bytes = none) :
    decodeSignleType type data 0 true minimumTail = decodeSignleType type data 0 false minimumTail := by
  unfold decodeSignleType
  simp only [h, ite_self]

theorem decodeSignleType_string {data : Data} (hlen : data.bytes.length = 32) (allowLegacyBytes32 : Bool)
    (minimumTail : Option UInt64) :
    ∃ budget, decodeSignleType .string data 0 allowLegacyBytes32 minimumTail = (do
      let tailFloor ← tailFloor data 0 ParameterType.string.shape minimumTail 0 32
      match if allowLegacyBytes32 then decodeLegacyMetadata .string data.bytes else none with
      | some value => ok (value, 32)
      | none => do
        let (value, _) ← decodeValue data.bytes .string 0 0 tailFloor 0 budget
        ok (value, 32)) := by
  have hlayout : Budget.layout .string 0 .full = ok (ParameterType.string.shape, ⟨1000000, 999999, 64 * 1024 * 1024⟩) := rfl
  have hsize : ParameterType.string.shape.headSize = 32 := rfl
  have hpointer : (0 : UInt64).toNat = 0 := rfl
  have hfits : (32 : ℕ) ≤ intMax := by decide
  refine ⟨⟨1000000, 999999, 64 * 1024 * 1024⟩, ?_⟩
  rw [decodeSignleType, hlayout, ok_bind]
  dsimp only
  rw [hpointer, hsize, hlen, ensure_true (Nat.zero_le _), ok_bind, subInt_of_le (Nat.zero_le _), ok_bind,
    ensure_true (by omega), ok_bind, toInt_of_le (Nat.zero_le _), ok_bind, toInt_of_le hfits, ok_bind]
  cases allowLegacyBytes32 with
  | false => rfl
  | true => rfl

theorem decodeSignleType_string_ne_ok {data : Data} (hlen : data.bytes.length = 32) {minimumTail : Option UInt64}
    {r : AnyObject × ℕ} : decodeSignleType .string data 0 false minimumTail ≠ ok r := by
  intro hok
  obtain ⟨budget, heq⟩ := decodeSignleType_string hlen false minimumTail
  simp only [heq, Bool.false_eq_true, if_false, bind_eq_ok, tailFloor_string hlen, Prod.exists] at hok
  obtain ⟨floor, ⟨rfl, _⟩, value, _, hvalue, _⟩ := hok
  exact decodeValue_string_ne_ok hlen (Nat.le_refl 32) hvalue

theorem decodeSignleType_of_namesText {data : Data} {text : Text} (h : NamesText data.bytes text)
    {minimumTail : Option UInt64} {r : AnyObject × ℕ} :
    decodeSignleType .string data 0 true minimumTail = ok r ↔
      (minimumTail = none ∨ minimumTail = some 32) ∧ r = (.string text, 32) := by
  have hlegacy := decodeLegacyMetadata_eq_some_iff.mpr ⟨rfl, text, h, rfl⟩
  obtain ⟨budget, heq⟩ := decodeSignleType_string h.length_eq true minimumTail
  simp only [heq, hlegacy, if_true, bind_eq_ok, tailFloor_string h.length_eq, ok.injEq]
  constructor
  · rintro ⟨_, ⟨_, htail⟩, rfl⟩
    exact ⟨htail, rfl⟩
  · rintro ⟨htail, rfl⟩
    exact ⟨32, ⟨rfl, htail⟩, rfl⟩

theorem decodeSignleType_cases (type : ParameterType) (data : Data) (minimumTail : Option UInt64) :
    (type = .string ∧ ∃ text, NamesText data.bytes text) ∨
      decodeSignleType type data 0 true minimumTail = decodeSignleType type data 0 false minimumTail := by
  cases hlegacy : decodeLegacyMetadata type data.bytes with
  | none => exact .inr (decodeSignleType_of_none hlegacy)
  | some value =>
    obtain ⟨rfl, text, hnames, rfl⟩ := decodeLegacyMetadata_eq_some_iff.mp hlegacy
    exact .inl ⟨rfl, text, hnames⟩

theorem legacy_keeps_strict :
    (∀ types data values, decode types data false = ok values → decode types data true = ok values) ∧
      (∀ types data values,
        (decode types data true = ok values ∧ ∀ strict, decode types data false ≠ ok strict) ↔
          types = [.string] ∧ ∃ text, NamesText data.bytes text ∧ values = [.string text]) ∧
      (∀ type data minimumTail result, decodeSignleType type data 0 false minimumTail = ok result →
        decodeSignleType type data 0 true minimumTail = ok result) ∧
      ∀ type data minimumTail result,
        (decodeSignleType type data 0 true minimumTail = ok result ∧
          ∀ strict, decodeSignleType type data 0 false minimumTail ≠ ok strict) ↔
          type = .string ∧ (minimumTail = none ∨ minimumTail = some 32) ∧
            ∃ text, NamesText data.bytes text ∧ result = (.string text, 32) := by
  refine ⟨?_, ?_, ?_, ?_⟩
  · intro types data values hstrict
    rcases decode_cases types data with ⟨rfl, text, hnames⟩ | heq
    · exact absurd hstrict (decode_string_ne_ok hnames.length_eq)
    · rw [heq, hstrict]
  · intro types data values
    constructor
    · rintro ⟨hlegacy, hstrict⟩
      rcases decode_cases types data with ⟨rfl, text, hnames⟩ | heq
      · rw [decode_of_namesText hnames, ok.injEq] at hlegacy
        exact ⟨rfl, text, hnames, hlegacy.symm⟩
      · rw [heq] at hlegacy
        exact absurd hlegacy (hstrict values)
    · rintro ⟨rfl, text, hnames, rfl⟩
      exact ⟨decode_of_namesText hnames, fun strict => decode_string_ne_ok hnames.length_eq⟩
  · intro type data minimumTail result hstrict
    rcases decodeSignleType_cases type data minimumTail with ⟨rfl, text, hnames⟩ | heq
    · exact absurd hstrict (decodeSignleType_string_ne_ok hnames.length_eq)
    · rw [heq, hstrict]
  · intro type data minimumTail result
    constructor
    · rintro ⟨hlegacy, hstrict⟩
      rcases decodeSignleType_cases type data minimumTail with ⟨rfl, text, hnames⟩ | heq
      · obtain ⟨htail, hresult⟩ := (decodeSignleType_of_namesText hnames).mp hlegacy
        exact ⟨rfl, htail, text, hnames, hresult⟩
      · rw [heq] at hlegacy
        exact absurd hlegacy (hstrict result)
    · rintro ⟨rfl, htail, text, hnames, hresult⟩
      exact ⟨(decodeSignleType_of_namesText hnames).mpr ⟨htail, hresult⟩,
        fun strict => decodeSignleType_string_ne_ok hnames.length_eq⟩

end

example [Graphemes] : decode [.string] ⟨0x4d :: 0x4b :: 0x52 :: List.replicate 29 0, by decide⟩ true =
    ok [.string ['M', 'K', 'R']] :=
  decode_of_namesText ⟨rfl, .inr (by decide), ⟨29, by decide +kernel⟩, by decide +kernel⟩

end TronlinkCore.Abi
