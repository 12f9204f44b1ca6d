import TronlinkCore.Abi.Spellings
import TronlinkCore.Wallet.AddressText

namespace TronlinkCore.Wallet

open Text BigEndian Abi

theorem withoutPrefix_spelling {mark digits : Text} {data : List UInt8} (hmark : mark ∈ marks)
    (h : ofHexPairs digits = some data) : withoutPrefix (mark ++ digits) = digits := by
  rcases marks_cases hmark with rfl | rfl | rfl
  · rw [List.nil_append]
    unfold withoutPrefix
    split
    · exact absurd (List.prefix_append ['0', 'x'] _) (unmarked h rfl)
    · exact absurd (List.prefix_append ['0', 'X'] _) (unmarked h rfl)
    · rfl
  · rfl
  · rfl

theorem strictHex_spelling {mark digits : Text} {data : List UInt8} (hmark : mark ∈ marks)
    (h : ofHexPairs digits = some data) (hne : data ≠ []) : StrictHex (mark ++ digits) data := by
  rw [StrictHex, withoutPrefix_spelling hmark h]
  refine ⟨?_, h⟩
  rintro rfl
  cases h
  exact hne rfl

section

variable [Segmentation]

theorem count_two {b c : Char} (hb : Plain b) (hc : Plain c) : count [b, c] = 2 :=
  count_of_plain (plain_pair hb hc)

theorem hasPrefix_T_spelling {mark digits : Text} {data : List UInt8} (hmark : mark ∈ marks)
    (h : ofHexPairs digits = some data) : hasPrefix (mark ++ digits) "T".toList = false := by
  rw [Bool.eq_false_iff, Ne, hasPrefix_spelling hmark h]
  rcases marks_cases hmark with rfl | rfl | rfl
  · rintro ⟨rest, hrest⟩
    have hT := (plain_of_ofHexPairs h 'T' (by rw [← List.nil_append digits, ← hrest]; simp)).1
    cases hT
  · rintro ⟨rest, hrest⟩
    cases hrest
  · rintro ⟨rest, hrest⟩
    cases hrest

theorem begins_of_account {mark digits : Text} {data : List UInt8} (hmark : mark ∈ marks)
    (h : ofHexPairs digits = some data) (haccount : IsAddress data) :
    (hasPrefix (mark ++ digits) "41".toList || hasPrefix (mark ++ digits) "0x41".toList ||
      hasPrefix (mark ++ digits) "0X41".toList) = true := by
  obtain ⟨rest, rfl⟩ := digits_of_account h haccount.2
  simp only [Bool.or_eq_true, hasPrefix_spelling hmark h]
  rcases marks_cases hmark with rfl | rfl | rfl
  · exact .inl (.inl ⟨rest, rfl⟩)
  · exact .inl (.inr ⟨rest, rfl⟩)
  · exact .inr ⟨rest, rfl⟩

variable [Digest]

theorem isEIP712TronAddress_spelling {mark digits : Text} {data : List UInt8} (hmark : mark ∈ marks)
    (h : ofHexPairs digits = some data) (hne : data ≠ []) :
    isEIP712TronAddress (mark ++ digits) = true ↔ IsAddress data := by
  have hdata := hexDecodedData_of_strictHex (strictHex_spelling hmark h hne)
  rw [isEIP712TronAddress, hasPrefix_T_spelling hmark h, if_neg (by decide), hdata]
  constructor
  · intro haccount
    split at haccount
    · simpa [IsAddress] using haccount
    · cases haccount
  · intro haccount
    rw [if_pos (begins_of_account hmark h haccount)]
    simpa [IsAddress] using haccount

theorem convert_account {mark digits : Text} {data : List UInt8} (hmark : mark ∈ marks)
    (h : ofHexPairs digits = some data) (haccount : IsAddress data) (hne : data ≠ []) :
    convertEIP712TronAddress (mark ++ digits) = digits.drop 2 := by
  have hcount : count "41".toList = 2 := count_two ⟨by decide, by decide⟩ ⟨by decide, by decide⟩
  rw [convertEIP712TronAddress, if_pos ((isEIP712TronAddress_spelling hmark h hne).mpr haccount),
    hasPrefix_T_spelling hmark h, hcount]
  simp only [Bool.false_eq_true, if_false]
  rw [unmark hmark h, dropFirst_of_plain fun c hc => (plain_of_ofHexPairs h c hc).2]

theorem convert_evm {mark digits : Text} {data : List UInt8} (hmark : mark = [] ∨ mark = "0x".toList)
    (h : ofHexPairs digits = some data) (hlen : data.length = 20) :
    isEIP712TronAddress (mark ++ digits) = false ∧ convertEIP712TronAddress (mark ++ digits) = digits := by
  have hmem : mark ∈ marks := by
    rcases hmark with rfl | rfl
    · decide
    · decide
  have hne : data ≠ [] := by
    rintro rfl
    cases hlen
  have hnot : isEIP712TronAddress (mark ++ digits) = false := by
    rw [Bool.eq_false_iff, Ne, isEIP712TronAddress_spelling hmem h hne]
    rintro ⟨hlen', _⟩
    omega
  refine ⟨hnot, ?_⟩
  have hcount : count "0x".toList = 2 := count_two ⟨by decide, by decide⟩ ⟨by decide, by decide⟩
  rw [convertEIP712TronAddress, hnot, if_neg (by decide), hcount]
  rcases hmark with rfl | rfl
  · have hx : hasPrefix digits "0x".toList = false := hasPrefix_digits h rfl
    rw [List.nil_append, hx]
    rfl
  · rw [if_pos ((hasPrefix_spelling hmem h).mpr (List.prefix_append _ _))]
    exact dropFirst_mark hmem h

variable [Digest.Sized]

theorem convert_addressString {data : List UInt8} (haccount : IsAddress data) :
    convertEIP712TronAddress (addressString data) = (hex data).drop 2 := by
  obtain ⟨rest, hrest⟩ := (addressString_shape haccount).2.2
  have hT : hasPrefix (addressString data) "T".toList = true := by
    rw [hasPrefix_of_plain (addressString_plain haccount), hrest]
    exact ⟨rest, rfl⟩
  have hcount : count "41".toList = 2 := count_two ⟨by decide, by decide⟩ ⟨by decide, by decide⟩
  rw [convertEIP712TronAddress, if_pos (isEIP712TronAddress_addressString haccount), hT, hcount,
    base58CheckData_addressString]
  have hunmark := unmark List.mem_cons_self (ofHexPairs_hex data)
  rw [List.nil_append] at hunmark
  simp only [if_true, Option.map_some, Option.getD_some]
  rw [hunmark, dropFirst_of_plain (plain_of_mem_hex data)]

theorem eip712_addresses_agree :
    (∀ a : List UInt8, a.length = 20 →
      isEIP712TronAddress (addressString (0x41 :: a)) = true ∧
      convertEIP712TronAddress (addressString (0x41 :: a)) = hex a ∧
      ∀ mark ∈ [[], "0x".toList, "0X".toList], ∀ digits, ofHexPairs digits = some (0x41 :: a) →
        isEIP712TronAddress (mark ++ digits) = true ∧ lowercased (convertEIP712TronAddress (mark ++ digits)) = hex a) ∧
    ∀ a : List UInt8, a.length = 20 → ∀ mark ∈ [[], "0x".toList], ∀ digits, ofHexPairs digits = some a →
      isEIP712TronAddress (mark ++ digits) = false ∧ convertEIP712TronAddress (mark ++ digits) = digits := by
  constructor
  · intro a hlen
    have haccount : IsAddress (0x41 :: a) := ⟨by rw [List.length_cons, hlen], rfl⟩
    refine ⟨isEIP712TronAddress_addressString haccount, convert_addressString haccount, ?_⟩
    intro mark hmark digits h
    refine ⟨(isEIP712TronAddress_spelling hmark h (List.cons_ne_nil _ _)).mpr haccount, ?_⟩
    rw [convert_account hmark h haccount (List.cons_ne_nil _ _), lowercased, List.map_drop]
    exact congrArg (List.drop 2) (lowercased_of_ofHexPairs h)
  · intro a hlen mark hmark digits h
    exact convert_evm (by simpa using hmark) h hlen

end

attribute [local instance] scalarCharacters knownDigests knownDigests_sized in
/-- An address whose own digits begin with 41 keeps them. -/
theorem eip712_addresses_agree_sample :
    convertEIP712TronAddress "TMVQGm1qAQYVdetCeGRRkTWYYrLXuHK2HC".toList =
        "7e5f4552091a69125d5dfcb7b8c2659029395bdf".toList ∧
      convertEIP712TronAddress "0x417e5F4552091A69125d5DfCb7b8C2659029395b".toList =
        "417e5F4552091A69125d5DfCb7b8C2659029395b".toList := by
  let account := toBytes 20 0x7e5f4552091a69125d5dfcb7b8c2659029395bdf
  have htext : addressString (0x41 :: account) = "TMVQGm1qAQYVdetCeGRRkTWYYrLXuHK2HC".toList := by decide +kernel
  have hhex : hex account = "7e5f4552091a69125d5dfcb7b8c2659029395bdf".toList := by decide +kernel
  obtain ⟨haccounts, haddresses⟩ := eip712_addresses_agree
  have haccount := haccounts account (by decide)
  rw [htext, hhex] at haccount
  exact ⟨haccount.2.1, (haddresses (toBytes 20 0x417e5F4552091A69125d5DfCb7b8C2659029395b) (by decide) "0x".toList
    (by decide) "417e5F4552091A69125d5DfCb7b8C2659029395b".toList (by decide +kernel)).2⟩

end TronlinkCore.Wallet
