import TronlinkCore.Abi.Values
import TronlinkCore.Library.Strings
import TronlinkCore.Wallet.Base58Spec

namespace TronlinkCore.Wallet

open Text BigEndian

section

variable [Segmentation]

def hexPairs : List Text → Option (List UInt8)
  | first :: second :: rest => do
    let num ← unsigned? 16 256 (first ++ second)
    let data ← hexPairs rest
    some (UInt8.ofNat num :: data)
  | _ => some []

def hexDecodedData (s : Text) : Option (List UInt8) :=
  let hex := if hasPrefix s "0x".toList || hasPrefix s "0X".toList then dropFirst 2 s else s
  if hex ≠ [] ∧ count hex % 2 = 0 then hexPairs (Segmentation.characters hex) else none

variable [Digest]

def base58CheckData (s : Text) : Option (List UInt8) := base58CheckDecoding Base58String.btcAlphabet s

def isTRXAddress (s : Text) : Bool :=
  if ((utf8 s).take 35).length = 34 then
    match base58CheckData s with
    | some data =>
      let string := hex data
      let string := if hasPrefix string "0x".toList then dropFirst 2 string else string
      hasPrefix string "41".toList && count string == 42
    | none => false
  else false

def convertTronAddressToBase58HexAddress (s : Text) : Text := ((base58CheckData s).map hex).getD []

def convertBase58HexAddressToTronAddress (s : Text) : Text :=
  match hexDecodedData s with
  | some data => if data.length = 21 ∧ data.head? = some 0x41 then addressString data else []
  | none => []

def isEIP712TronAddress (s : Text) : Bool :=
  if hasPrefix s "T".toList then isTRXAddress s
  else if hasPrefix s "41".toList || hasPrefix s "0x41".toList || hasPrefix s "0X41".toList then
    match hexDecodedData s with
    | some data => data.length = 21 && data.head? == some 0x41
    | none => false
  else false

def convertEIP712TronAddress (s : Text) : Text :=
  if isEIP712TronAddress s then
    let currentAddress := if hasPrefix s "T".toList then ((base58CheckData s).map hex).getD [] else s
    let currentAddress := if hasPrefix currentAddress "0x".toList || hasPrefix currentAddress "0X".toList then
      dropFirst 2 currentAddress else currentAddress
    dropFirst (count "41".toList) currentAddress
  else if hasPrefix s "0x".toList then dropFirst (count "0x".toList) s
  else s

end

def withoutPrefix : Text → Text
  | '0' :: 'x' :: digits => digits
  | '0' :: 'X' :: digits => digits
  | s => s

def pairBytes : Text → Option (List UInt8)
  | [] => some []
  | high :: low :: rest => do
    let num ← unsigned? 16 256 [high, low]
    let data ← pairBytes rest
    some (UInt8.ofNat num :: data)
  | [_] => none

theorem hexPairs_singletons (s : Text) (h : s.length % 2 = 0) : hexPairs (s.map fun c => [c]) = pairBytes s := by
  induction s using pairBytes.induct with
  | case1 => rfl
  | case2 high low rest ih =>
    simp only [List.length_cons] at h
    rw [List.map_cons, List.map_cons, hexPairs, pairBytes, ih (by omega)]
    rfl
  | case3 c => simp at h

theorem plain_of_pairBytes {s : Text} {data : List UInt8} (h : pairBytes s = some data) :
    s.length = 2 * data.length ∧ ∀ c ∈ s, Plain c := by
  induction s using pairBytes.induct generalizing data with
  | case1 =>
    cases h
    simp
  | case2 high low rest ih =>
    simp only [pairBytes, Option.bind_eq_bind, Option.bind_eq_some_iff, Option.some.injEq] at h
    obtain ⟨num, hnum, tail, htail, rfl⟩ := h
    obtain ⟨hlen, hplain⟩ := ih htail
    constructor
    · simp only [List.length_cons]
      omega
    · intro c hc
      simp only [List.mem_cons] at hc
      rcases hc with hc | hc | hc
      · exact plain_of_unsigned? hnum c (by simp [hc])
      · exact plain_of_unsigned? hnum c (by simp [hc])
      · exact hplain c hc
  | case3 c => cases h

theorem hexPairs_flatten {characters : List Text} {data : List UInt8}
    (hplain : ∀ character ∈ characters, (∀ c ∈ character, Plain c) → character.length = 1)
    (heven : characters.length % 2 = 0) (h : hexPairs characters = some data) :
    pairBytes characters.flatten = some data := by
  induction characters using hexPairs.induct generalizing data with
  | case1 first second rest ih =>
    simp only [hexPairs, Option.bind_eq_bind, Option.bind_eq_some_iff, Option.some.injEq] at h
    obtain ⟨num, hnum, tail, htail, rfl⟩ := h
    have hscalars := plain_of_unsigned? hnum
    have hfirst : first.length = 1 :=
      hplain first List.mem_cons_self fun c hc => hscalars c (List.mem_append_left _ hc)
    have hsecond : second.length = 1 :=
      hplain second (by simp) fun c hc => hscalars c (List.mem_append_right _ hc)
    obtain ⟨high, rfl⟩ := List.length_eq_one_iff.mp hfirst
    obtain ⟨low, rfl⟩ := List.length_eq_one_iff.mp hsecond
    have htaileven : rest.length % 2 = 0 := by
      simp only [List.length_cons] at heven
      omega
    have hrest := ih (fun character hc => hplain character (by simp [hc])) htaileven htail
    have hnum : unsigned? 16 256 [high, low] = some num := hnum
    simp only [List.flatten_cons, List.cons_append, List.nil_append, pairBytes, hnum, hrest]
    rfl
  | case2 characters hne =>
    cases characters with
    | nil => exact h
    | cons first rest =>
      cases rest with
      | nil => simp at heven
      | cons second rest => exact absurd rfl (hne first second rest)

theorem pairBytes_prefixed {c : Char} (hc : c = 'x' ∨ c = 'X') (s : Text) : pairBytes ('0' :: c :: s) = none := by
  rcases hc with rfl | rfl
  · rfl
  · rfl

section

variable [Segmentation]

theorem hexPairs_characters {s : Text} {data : List UInt8} :
    count s % 2 = 0 ∧ hexPairs (Segmentation.characters s) = some data ↔ pairBytes s = some data := by
  constructor
  · rintro ⟨heven, h⟩
    have hflat := hexPairs_flatten (Segmentation.characters_plain s) heven h
    rwa [Segmentation.flatten_characters] at hflat
  · intro h
    obtain ⟨hlen, hplain⟩ := plain_of_pairBytes h
    have heven : s.length % 2 = 0 := by omega
    rw [count_of_plain hplain, characters_of_plain hplain, hexPairs_singletons s heven]
    exact ⟨heven, h⟩

theorem evenPairs_eq {s : Text} {data : List UInt8} :
    (if s ≠ [] ∧ count s % 2 = 0 then hexPairs (Segmentation.characters s) else none) = some data ↔
      s ≠ [] ∧ pairBytes s = some data := by
  rw [← hexPairs_characters]
  by_cases hif : s ≠ [] ∧ count s % 2 = 0
  · rw [if_pos hif]
    constructor
    · intro h
      exact ⟨hif.1, hif.2, h⟩
    · intro h
      exact h.2.2
  · rw [if_neg hif]
    constructor
    · intro h
      cases h
    · rintro ⟨hne, heven, _⟩
      exact absurd ⟨hne, heven⟩ hif

theorem hexDecodedData_of_prefix {c : Char} (hc : c = 'x' ∨ c = 'X') {s : Text} {data : List UInt8} :
    hexDecodedData ('0' :: c :: s) = some data ↔ s ≠ [] ∧ pairBytes s = some data := by
  by_cases hp : hasPrefix ('0' :: c :: s) ['0', c] = true
  · have hx : Plain c := by
      rcases hc with rfl | rfl
      · exact ⟨by decide, by decide⟩
      · exact ⟨by decide, by decide⟩
    have hor : (hasPrefix ('0' :: c :: s) "0x".toList || hasPrefix ('0' :: c :: s) "0X".toList) = true := by
      rw [Bool.or_eq_true]
      rcases hc with rfl | rfl
      · exact .inl hp
      · exact .inr hp
    unfold hexDecodedData
    simp only [hor, if_true, dropFirst_prefix ⟨by decide, by decide⟩ hx hp]
    exact evenPairs_eq
  -- A prefix that is none to `hasPrefix` has a scalar behind it that no numeral has.
  · have hor : (hasPrefix ('0' :: c :: s) "0x".toList || hasPrefix ('0' :: c :: s) "0X".toList) = false := by
      rw [Bool.or_eq_false_iff]
      rcases hc with rfl | rfl
      · exact ⟨by simpa using hp, rfl⟩
      · exact ⟨rfl, by simpa using hp⟩
    have hjoins : ∃ d ∈ s, ¬ Plain d := by
      have hbegins : ['0', c].isPrefixOf ('0' :: c :: s) = true := by simp
      simp only [hasPrefix, hbegins, Bool.true_and, List.length_cons, List.length_nil, List.drop_succ_cons,
        List.drop_zero] at hp
      cases s with
      | nil => simp at hp
      | cons d s =>
        refine ⟨d, List.mem_cons_self, ?_⟩
        intro hplain
        simp [Graphemes.joins_ascii d hplain.1] at hp
    unfold hexDecodedData
    simp only [hor, Bool.false_eq_true, if_false]
    rw [evenPairs_eq, pairBytes_prefixed hc]
    constructor
    · rintro ⟨_, h⟩
      cases h
    · rintro ⟨_, h⟩
      obtain ⟨d, hd, hnot⟩ := hjoins
      exact absurd ((plain_of_pairBytes h).2 d hd) hnot

theorem hexDecodedData_eq {s : Text} {data : List UInt8} :
    hexDecodedData s = some data ↔ withoutPrefix s ≠ [] ∧ pairBytes (withoutPrefix s) = some data := by
  unfold withoutPrefix
  split
  · exact hexDecodedData_of_prefix (.inl rfl)
  · exact hexDecodedData_of_prefix (.inr rfl)
  · rename_i hx hX
    have hno (c : Char) (hne : ∀ digits, s ≠ '0' :: c :: digits) : hasPrefix s ['0', c] = false := by
      apply hasPrefix_eq_false
      rintro ⟨digits, hs⟩
      exact hne digits hs.symm
    have hor : (hasPrefix s "0x".toList || hasPrefix s "0X".toList) = false := by
      rw [Bool.or_eq_false_iff]
      exact ⟨hno 'x' fun digits h => hx digits h, hno 'X' fun digits h => hX digits h⟩
    unfold hexDecodedData
    simp only [hor, Bool.false_eq_true, if_false]
    exact evenPairs_eq

end

end TronlinkCore.Wallet
