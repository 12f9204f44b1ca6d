import TronlinkCore.Wallet.AddressString

/-!
Which texts are read as hexadecimal addresses. The integer initializer takes a
sign in front of a digit, so a pair of scalars may be a sign and a digit.
-/

namespace TronlinkCore.Wallet

open Text BigEndian

def HexPair (high low : Char) : Prop := (digitValue high).isSome ∧ (digitValue low).isSome

def SignedPair (high low : Char) : Prop := (high = '+' ∧ (digitValue low).isSome) ∨ (high = '-' ∧ low = '0')

def AllPairs (p : Char → Char → Prop) : Text → Prop
  | [] => True
  | high :: low :: rest => p high low ∧ AllPairs p rest
  | [_] => False

def SignFree (s : Text) : Prop :=
  AllPairs (fun high low => HexPair high low ∨ SignedPair high low) (withoutPrefix s) →
    AllPairs HexPair (withoutPrefix s)

def StrictHex (s : Text) (data : List UInt8) : Prop :=
  withoutPrefix s ≠ [] ∧ ofHexPairs (withoutPrefix s) = some data

def IsHexAddress (s : Text) : Prop :=
  (withoutPrefix s).length = 42 ∧ (∀ c ∈ withoutPrefix s, (digitValue c).isSome) ∧
    "41".toList <+: withoutPrefix s

theorem magnitude_one {c : Char} {n : ℕ} : magnitude 16 256 [c] = some n ↔ digitValue c = some n := by
  rw [magnitude, if_neg (List.cons_ne_nil c []), Option.filter_eq_some_iff, numeral, numeral_cons,
    Option.bind_eq_some_iff]
  constructor
  · rintro ⟨⟨d, hd, h⟩, _⟩
    rw [if_pos (digitValue_lt hd)] at h
    cases h
    simpa using hd
  · intro h
    have hlt := digitValue_lt h
    refine ⟨⟨n, h, ?_⟩, by simpa using by omega⟩
    rw [if_pos hlt]
    simp

theorem magnitude_two {high low : Char} {n : ℕ} :
    magnitude 16 256 [high, low] = some n ↔
      ∃ h l, digitValue high = some h ∧ digitValue low = some l ∧ n = h * 16 + l := by
  rw [magnitude, if_neg (List.cons_ne_nil high [low]), Option.filter_eq_some_iff, numeral, numeral_cons,
    Option.bind_eq_some_iff]
  constructor
  · rintro ⟨⟨h, hh, hrest⟩, _⟩
    rw [if_pos (digitValue_lt hh), numeral_cons, Option.bind_eq_some_iff] at hrest
    obtain ⟨l, hl, hrest⟩ := hrest
    rw [if_pos (digitValue_lt hl)] at hrest
    cases hrest
    exact ⟨h, l, hh, hl, by omega⟩
  · rintro ⟨h, l, hh, hl, rfl⟩
    have hhlt := digitValue_lt hh
    have hllt := digitValue_lt hl
    refine ⟨⟨h, hh, ?_⟩, by simpa using by omega⟩
    rw [if_pos hhlt, numeral_cons, hl, Option.bind_some, if_pos hllt]
    simp

theorem unsigned?_hexPair {high low : Char} {h l : ℕ} (hh : digitValue high = some h) (hl : digitValue low = some l) :
    unsigned? 16 256 [high, low] = some (h * 16 + l) := by
  have hsign : high ≠ '+' ∧ high ≠ '-' := by
    constructor
    · rintro rfl
      cases hh
    · rintro rfl
      cases hh
  rw [unsigned?, if_neg hsign.1, if_neg hsign.2]
  exact magnitude_two.mpr ⟨h, l, hh, hl, rfl⟩

theorem unsigned?_isSome {high low : Char} :
    (unsigned? 16 256 [high, low]).isSome ↔ HexPair high low ∨ SignedPair high low := by
  constructor
  · intro h
    obtain ⟨n, hn⟩ := Option.isSome_iff_exists.mp h
    rw [unsigned?] at hn
    split at hn
    · rename_i hsign
      right
      left
      rw [magnitude_one] at hn
      exact ⟨hsign, by rw [hn]; rfl⟩
    · split at hn
      · rename_i hsign
        right
        right
        rw [Option.filter_eq_some_iff, magnitude_one, decide_eq_true_eq] at hn
        refine ⟨hsign, ?_⟩
        obtain ⟨hn, rfl⟩ := hn
        exact eq_of_digitValue hn (by decide)
      · left
        obtain ⟨d, e, hd, he, _⟩ := magnitude_two.mp hn
        exact ⟨by rw [hd]; rfl, by rw [he]; rfl⟩
  · rintro (⟨hh, hl⟩ | ⟨rfl, hl⟩ | ⟨rfl, rfl⟩)
    · obtain ⟨h, hh⟩ := Option.isSome_iff_exists.mp hh
      obtain ⟨l, hl⟩ := Option.isSome_iff_exists.mp hl
      rw [unsigned?_hexPair hh hl]
      rfl
    · obtain ⟨l, hl⟩ := Option.isSome_iff_exists.mp hl
      rw [unsigned?, if_pos rfl, magnitude_one.mpr hl]
      rfl
    · rfl

theorem pairBytes_isSome {s : Text} :
    (pairBytes s).isSome ↔ AllPairs (fun high low => HexPair high low ∨ SignedPair high low) s := by
  induction s using pairBytes.induct with
  | case1 => simp [pairBytes, AllPairs]
  | case2 high low rest ih =>
    rw [AllPairs, ← ih, ← unsigned?_isSome, pairBytes]
    cases unsigned? 16 256 [high, low] with
    | none => simp
    | some num =>
      cases pairBytes rest with
      | none => simp
      | some data => simp
  | case3 c => simp [pairBytes, AllPairs]

theorem ofHexPairs_isSome {s : Text} : (ofHexPairs s).isSome ↔ AllPairs HexPair s := by
  induction s using ofHexPairs.induct with
  | case1 => simp [ofHexPairs, AllPairs]
  | case2 high low rest ih =>
    rw [AllPairs, ← ih, HexPair, ofHexPairs]
    cases digitValue high with
    | none => simp
    | some h =>
      cases digitValue low with
      | none => simp
      | some l =>
        cases ofHexPairs rest with
        | none => simp
        | some data => simp
  | case3 c => simp [ofHexPairs, AllPairs]

theorem pairBytes_of_ofHexPairs {s : Text} {data : List UInt8} (h : ofHexPairs s = some data) :
    pairBytes s = some data := by
  induction s using ofHexPairs.induct generalizing data with
  | case1 => exact h
  | case2 high low rest ih =>
    simp only [ofHexPairs, Option.bind_eq_bind, Option.bind_eq_some_iff, Option.some.injEq] at h
    obtain ⟨d, hd, e, he, tail, htail, rfl⟩ := h
    rw [pairBytes, unsigned?_hexPair hd he, ih htail]
    rfl
  | case3 c => cases h

theorem pairBytes_eq_ofHexPairs {s : Text} (h : AllPairs HexPair s) : pairBytes s = ofHexPairs s := by
  obtain ⟨data, hdata⟩ := Option.isSome_iff_exists.mp (ofHexPairs_isSome.mpr h)
  rw [hdata, pairBytes_of_ofHexPairs hdata]

theorem digits_of_account {digits : Text} {data : List UInt8} (h : ofHexPairs digits = some data)
    (hhead : data.head? = some 0x41) : ∃ rest, digits = '4' :: '1' :: rest := by
  cases data with
  | nil => cases hhead
  | cons b bs =>
    cases hhead
    obtain ⟨high, low, rest, d, e, rfl, hd, he, hbyte, _⟩ := ofHexPairs_eq_cons h
    have hvalue : (0x41 : UInt8).toNat = 65 := rfl
    have hdlt := digitValue_lt hd
    have helt := digitValue_lt he
    have hd4 : d = 4 := by omega
    have he1 : e = 1 := by omega
    rw [eq_of_digitValue hd (by omega), eq_of_digitValue he (by omega), hd4, he1]
    exact ⟨rest, rfl⟩

theorem isHexAddress_of_strictHex {s : Text} {data : List UInt8} (h : StrictHex s data) (hlen : data.length = 21)
    (hhead : data.head? = some 0x41) : IsHexAddress s := by
  obtain ⟨_, hpairs⟩ := h
  refine ⟨by rw [ofHexPairs_length hpairs, hlen], fun c hc => (plain_of_ofHexPairs hpairs c hc).1, ?_⟩
  obtain ⟨rest, hrest⟩ := digits_of_account hpairs hhead
  rw [hrest]
  exact ⟨rest, rfl⟩

section

variable [Segmentation]

theorem hexDecodedData_of_strictHex {s : Text} {data : List UInt8} (h : StrictHex s data) :
    hexDecodedData s = some data := hexDecodedData_eq.mpr ⟨h.1, pairBytes_of_ofHexPairs h.2⟩

theorem strictHex_of_hexDecodedData {s : Text} {data : List UInt8} (hfree : SignFree s)
    (h : hexDecodedData s = some data) : StrictHex s data := by
  obtain ⟨hne, hpairs⟩ := hexDecodedData_eq.mp h
  have hread : (pairBytes (withoutPrefix s)).isSome := by
    rw [hpairs]
    rfl
  have hall := hfree (pairBytes_isSome.mp hread)
  refine ⟨hne, ?_⟩
  rw [← pairBytes_eq_ofHexPairs hall]
  exact hpairs

variable [Digest]

theorem hexDecodedData_of_convertBase58 {s : Text} (h : convertBase58HexAddressToTronAddress s ≠ []) :
    ∃ data, hexDecodedData s = some data ∧ data.length = 21 ∧ data.head? = some 0x41 := by
  unfold convertBase58HexAddressToTronAddress at h
  split at h
  · rename_i data hdata
    split at h
    · rename_i hshape
      exact ⟨data, hdata, hshape⟩
    · exact absurd rfl h
  · exact absurd rfl h

theorem hexDecodedData_of_isEIP712 {s : Text} (ht : hasPrefix s "T".toList = false)
    (h : isEIP712TronAddress s) : ∃ data, hexDecodedData s = some data ∧ data.length = 21 ∧ data.head? = some 0x41 := by
  rw [isEIP712TronAddress, ht, if_neg (by decide)] at h
  split at h
  · split at h
    · rename_i data hdata
      simp only [Bool.and_eq_true, decide_eq_true_eq, beq_iff_eq] at h
      exact ⟨data, hdata, h⟩
    · cases h
  · cases h

theorem hex_strict_iff (s : Text) :
    ((∀ data, hexDecodedData s = some data ↔ StrictHex s data) ∧
      (convertBase58HexAddressToTronAddress s ≠ [] → IsHexAddress s) ∧
      (hasPrefix s "T".toList = false → isEIP712TronAddress s → IsHexAddress s)) ↔ SignFree s := by
  constructor
  · rintro ⟨hstrict, _, _⟩ hread
    obtain ⟨data, hdata⟩ := Option.isSome_iff_exists.mp (pairBytes_isSome.mpr hread)
    rw [← ofHexPairs_isSome]
    by_cases hne : withoutPrefix s = []
    · rw [hne]
      rfl
    · have h := (hstrict data).mp (hexDecodedData_eq.mpr ⟨hne, hdata⟩)
      rw [h.2]
      rfl
  · intro hfree
    have haddress (h : ∃ data, hexDecodedData s = some data ∧ data.length = 21 ∧ data.head? = some 0x41) :
        IsHexAddress s := by
      obtain ⟨data, hdata, hlen, hhead⟩ := h
      exact isHexAddress_of_strictHex (strictHex_of_hexDecodedData hfree hdata) hlen hhead
    refine ⟨?_, ?_, ?_⟩
    · intro data
      exact ⟨strictHex_of_hexDecodedData hfree, hexDecodedData_of_strictHex⟩
    · intro h
      exact haddress (hexDecodedData_of_convertBase58 h)
    · intro ht h
      exact haddress (hexDecodedData_of_isEIP712 ht h)

end

def signedText : Text := "41+1+1+1+1+1+1+1+1+1+1+1+1+1+1+1+1+1+1+1+1".toList

attribute [local instance] scalarCharacters knownDigests in
theorem signed_text_is_read :
    hexDecodedData signedText = some (0x41 :: List.replicate 20 1) ∧
      convertBase58HexAddressToTronAddress signedText ≠ [] ∧ isEIP712TronAddress signedText = true ∧
      ¬ StrictHex signedText (0x41 :: List.replicate 20 1) ∧ ¬ IsHexAddress signedText := by
  refine ⟨by decide +kernel, by decide +kernel, by decide +kernel, ?_, ?_⟩
  · rintro ⟨_, h⟩
    have hnone : ofHexPairs (withoutPrefix signedText) = none := by decide
    rw [hnone] at h
    cases h
  · rintro ⟨_, h, _⟩
    exact absurd (h '+' (by decide)) (by decide)

end TronlinkCore.Wallet
