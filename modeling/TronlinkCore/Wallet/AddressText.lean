import TronlinkCore.Wallet.HexAddress

namespace TronlinkCore.Wallet

open Text BigEndian Positional

def IsAddress (data : List UInt8) : Prop := data.length = 21 ∧ data.head? = some 0x41

theorem IsAddress.hex {data : List UInt8} (h : IsAddress data) :
    "41".toList <+: Text.hex data ∧ (Text.hex data).length = 42 := by
  obtain ⟨hlen, hhead⟩ := h
  refine ⟨?_, by rw [hex_length, hlen]⟩
  cases data with
  | nil => cases hhead
  | cons b bs =>
    cases hhead
    exact ⟨Text.hex bs, rfl⟩

theorem isAddress_of_hex {data : List UInt8} (hpre : "41".toList <+: Text.hex data)
    (hlen : (Text.hex data).length = 42) : IsAddress data := by
  rw [hex_length] at hlen
  refine ⟨by omega, ?_⟩
  cases data with
  | nil => cases hlen
  | cons b bs =>
    obtain ⟨rest, hrest⟩ := hpre
    have hpairs := ofHexPairs_hex (b :: bs)
    rw [← hrest] at hpairs
    change ofHexPairs ('4' :: '1' :: rest) = some (b :: bs) at hpairs
    simp only [ofHexPairs, Option.bind_eq_bind, Option.bind_eq_some_iff, Option.some.injEq] at hpairs
    obtain ⟨d, hd, e, he, tail, _, hbytes⟩ := hpairs
    cases hd
    cases he
    cases hbytes
    rfl

theorem plain_of_mem_ofAscii {bs : List UInt8} (h : ∀ b ∈ bs, b < 128 ∧ b ≠ 13) : ∀ c ∈ ofAscii bs, Plain c := by
  intro c hc
  obtain ⟨b, hb, rfl⟩ := List.mem_map.mp hc
  obtain ⟨hlt, hne⟩ := h b hb
  have hnat := toNat_ofAscii hlt
  constructor
  · rw [hnat]
    exact hlt
  · intro heq
    rw [heq] at hnat
    exact hne (UInt8.toNat_inj.mp hnat.symm)

theorem convertBase58HexAddressToTronAddress_hex [Segmentation] [Digest] {data : List UInt8} (h : IsAddress data) :
    convertBase58HexAddressToTronAddress (hex data) = addressString data := by
  have hbegins : withoutPrefix (hex data) = hex data := by
    obtain ⟨rest, hrest⟩ := h.hex.1
    rw [← hrest]
    rfl
  have hstrict : StrictHex (hex data) data := by
    constructor
    · rw [hbegins]
      intro hnil
      have hlen := h.hex.2
      rw [hnil] at hlen
      cases hlen
    · rw [hbegins]
      exact ofHexPairs_hex data
  rw [convertBase58HexAddressToTronAddress, hexDecodedData_of_strictHex hstrict]
  exact if_pos h

theorem isTRXAddress_iff [Segmentation] [Digest] {s : Text} :
    isTRXAddress s = true ↔ (utf8 s).length = 34 ∧ ∃ data, base58CheckData s = some data ∧ IsAddress data := by
  have htake : ((utf8 s).take 35).length = 34 ↔ (utf8 s).length = 34 := by
    rw [List.length_take]
    omega
  have hdata (data : List UInt8) :
      (let string := hex data
        let string := if hasPrefix string "0x".toList then dropFirst 2 string else string
        hasPrefix string "41".toList && count string == 42) = true ↔ IsAddress data := by
    have hplain := plain_of_mem_hex data
    have hx : hasPrefix (hex data) "0x".toList = false := Abi.hex_not_hasPrefix data (.inl rfl)
    simp only [hx, Bool.false_eq_true, if_false, Bool.and_eq_true, beq_iff_eq]
    rw [hasPrefix_of_plain hplain, count_of_plain hplain]
    constructor
    · rintro ⟨hpre, hlen⟩
      exact isAddress_of_hex hpre hlen
    · intro h
      exact h.hex
  rw [isTRXAddress]
  by_cases hlen : (utf8 s).length = 34
  · rw [if_pos (htake.mpr hlen)]
    cases hd : base58CheckData s with
    | none => simp
    | some data =>
      simp only [hlen, true_and, Option.some.injEq, exists_eq_left']
      exact hdata data
  · rw [if_neg (fun h => hlen (htake.mp h))]
    simp [hlen]

section

variable [Digest] [Digest.Sized]

/-- The number of an address and its checksum is between 26 and 27 times 58 to the 33rd. -/
theorem addressString_eq {data : List UInt8} (h : IsAddress data) :
    ∃ ds, addressString data = ofAscii (letters Base58String.btcAlphabet (26 :: ds)) ∧ ds.length = 33 := by
  obtain ⟨hlen, hhead⟩ := h
  obtain ⟨rest, rfl⟩ : ∃ rest, data = 0x41 :: rest := by
    cases data with
    | nil => cases hhead
    | cons b bs =>
      cases hhead
      exact ⟨bs, rfl⟩
  let tail := rest ++ checksum (0x41 :: rest)
  have htail : tail.length = 24 := by
    simp only [List.length_cons] at hlen
    rw [List.length_append, checksum_length]
    omega
  have hbytes : (0x41 :: rest) ++ checksum (0x41 :: rest) = 0x41 :: tail := rfl
  have hnumber : ofBytes (0x41 :: tail) = 0x41 * 256 ^ 24 + ofBytes tail := by
    rw [ofBytes_cons, htail]
    rfl
  have hlt := ofBytes_lt tail
  rw [htail] at hlt
  obtain ⟨hcount, hfirst⟩ := digits_of_between (b := 58) (k := 33) (d := 26) (n := ofBytes (0x41 :: tail)) (by decide)
    (by decide) (by decide) (by omega) (by omega)
  have hzeros : zeros ((0x41 :: tail).map UInt8.toNat) = 0 := rfl
  cases hds : digits 58 (ofBytes (0x41 :: tail)) with
  | nil =>
    rw [hds] at hfirst
    cases hfirst
  | cons d ds =>
    rw [hds] at hcount hfirst
    cases hfirst
    refine ⟨ds, ?_, by simpa using hcount⟩
    have hvalid := Base58String.valid_of_isValidAlphabet btcAlphabet_isValid
    have hencode := base58Encoding_eq hvalid (0x41 :: tail)
    rw [rebase, hzeros, List.replicate_zero, List.nil_append, ← ofBytes_eq_value, hds] at hencode
    exact hencode

theorem addressString_plain {data : List UInt8} (h : IsAddress data) : ∀ c ∈ addressString data, Plain c := by
  obtain ⟨ds, haddress, _⟩ := addressString_eq h
  rw [haddress]
  apply plain_of_mem_ofAscii
  intro b hb
  obtain ⟨d, _, rfl⟩ := List.mem_map.mp hb
  rw [List.getD_eq_getElem?_getD]
  have hall : ∀ c ∈ Base58String.btcAlphabet, c < 128 ∧ c ≠ 13 := by decide +kernel
  cases hd : Base58String.btcAlphabet[d]? with
  | none => decide
  | some c => exact hall c (List.mem_of_getElem? hd)

theorem addressString_shape {data : List UInt8} (h : IsAddress data) :
    (addressString data).length = 34 ∧ (utf8 (addressString data)).length = 34 ∧ ∃ rest, addressString data = 'T' :: rest := by
  obtain ⟨ds, haddress, hlen⟩ := addressString_eq h
  have hascii : (addressString data).isAscii := isAscii_of_plain (addressString_plain h)
  have hlength : (addressString data).length = 34 := by
    rw [haddress, ofAscii, List.length_map, letters, List.length_map, List.length_cons, hlen]
  refine ⟨hlength, ?_, ?_⟩
  · rw [utf8_length_of_isAscii hascii, hlength]
  · rw [haddress]
    exact ⟨ofAscii (letters Base58String.btcAlphabet ds), rfl⟩

theorem base58CheckData_addressString (data : List UInt8) : base58CheckData (addressString data) = some data :=
  base58CheckDecoding_encoding btcAlphabet_isValid data

variable [Segmentation]

theorem isTRXAddress_addressString {data : List UInt8} (h : IsAddress data) : isTRXAddress (addressString data) = true :=
  isTRXAddress_iff.mpr ⟨(addressString_shape h).2.1, data, base58CheckData_addressString data, h⟩

theorem isEIP712TronAddress_addressString {data : List UInt8} (h : IsAddress data) :
    isEIP712TronAddress (addressString data) = true := by
  obtain ⟨rest, hrest⟩ := (addressString_shape h).2.2
  have hT : hasPrefix (addressString data) "T".toList = true := by
    rw [hasPrefix_of_plain (addressString_plain h), hrest]
    exact ⟨rest, rfl⟩
  rw [isEIP712TronAddress, if_pos hT]
  exact isTRXAddress_addressString h

theorem address_text_exact :
    (∀ data : List UInt8, data.length = 21 → data.head? = some 0x41 →
      count (addressString data) = 34 ∧ (addressString data).length = 34 ∧
      hasPrefix (addressString data) "T".toList = true ∧
      isTRXAddress (addressString data) = true ∧ isEIP712TronAddress (addressString data) = true ∧
      base58CheckData (addressString data) = some data ∧
      convertTronAddressToBase58HexAddress (addressString data) = hex data ∧
      convertBase58HexAddressToTronAddress (hex data) = addressString data) ∧
    ∀ s, isTRXAddress s = true →
      ∃! data : List UInt8, (data.length = 21 ∧ data.head? = some 0x41) ∧ addressString data = s := by
  constructor
  · intro data hlen hhead
    have h : IsAddress data := ⟨hlen, hhead⟩
    have hplain := addressString_plain h
    obtain ⟨hlength, _, rest, hrest⟩ := addressString_shape h
    have hT : "T".toList <+: addressString data := by
      rw [hrest]
      exact ⟨rest, rfl⟩
    refine ⟨?_, hlength, (hasPrefix_of_plain hplain).mpr hT, isTRXAddress_addressString h,
      isEIP712TronAddress_addressString h, base58CheckData_addressString data, ?_,
      convertBase58HexAddressToTronAddress_hex h⟩
    · rw [count_of_plain hplain, hlength]
    · rw [convertTronAddressToBase58HexAddress, base58CheckData_addressString]
      rfl
  · intro s hs
    obtain ⟨_, data, hdata, h⟩ := isTRXAddress_iff.mp hs
    refine ⟨data, ⟨h, base58CheckEncoding_of_decoding btcAlphabet_isValid hdata⟩, ?_⟩
    rintro other ⟨_, rfl⟩
    rw [base58CheckData_addressString] at hdata
    exact Option.some.inj hdata

end

attribute [local instance] scalarCharacters knownDigests knownDigests_sized in
theorem address_text_exact_sample :
    isTRXAddress "TMVQGm1qAQYVdetCeGRRkTWYYrLXuHK2HC".toList = true ∧
      convertBase58HexAddressToTronAddress "417e5f4552091a69125d5dfcb7b8c2659029395bdf".toList =
        "TMVQGm1qAQYVdetCeGRRkTWYYrLXuHK2HC".toList := by
  let data := toBytes 21 0x417e5f4552091a69125d5dfcb7b8c2659029395bdf
  have htext : addressString data = "TMVQGm1qAQYVdetCeGRRkTWYYrLXuHK2HC".toList := by decide +kernel
  have hhex : hex data = "417e5f4552091a69125d5dfcb7b8c2659029395bdf".toList := by decide +kernel
  have h := address_text_exact.1 data (by decide) (by decide)
  rw [htext, hhex] at h
  exact ⟨h.2.2.2.1, h.2.2.2.2.2.2.2⟩

end TronlinkCore.Wallet
