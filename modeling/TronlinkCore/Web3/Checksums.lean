import TronlinkCore.Abi.Spellings
import TronlinkCore.Keystore.KeyFile

/-!
Checksummed addresses: letters are upper case where the hash of the digits has a
half of 8 or more. Two implementations agree on them.
-/

namespace TronlinkCore.Abi

open Text Keystore

def uppercased (s : Text) : Text := s.map Char.toUpper

section

variable [Segmentation]

def isAddress (s : Text) : Bool :=
  let addressHex := if hasPrefix s "0x".toList || hasPrefix s "0X".toList then dropFirst 2 s else s
  (utf8 addressHex).length = 40 && (dataOfHexString addressHex).map List.length == some 20

variable [Crypto]

def toChecksumAddress (addr : Text) : Option Text := do
  guard (isAddress addr)
  let address := withoutHex (lowercased addr)
  guard (isAscii address)
  -- 64 digits of 40, so that no index is out of bounds
  let hash := hex (Crypto.keccak256 (utf8 address))
  (Segmentation.characters address).zipIdx.foldlM (fun ret (c, i) => do
    let int ← unsigned? 16 (2 ^ 63) ((hash.drop i).take 1)
    some (ret ++ if 8 ≤ int then uppercased c else c)) "0x".toList

namespace Web3Address

def address (a : Web3Address) : Text :=
  match a.type with
  | .normal => (toChecksumAddress a._address).getD a._address
  | .contractDeployment => "0x".toList

def equals (lhs rhs : Web3Address) : Bool := lhs.address == rhs.address && lhs.type == rhs.type

end Web3Address

end

theorem eip55Digit_hexDigit {n m : ℕ} (hn : n < 16) (hm : m < 16) :
    eip55Digit (hexDigit n) (hexDigit m) = if 8 ≤ m then (hexDigit n).toUpper else hexDigit n := by
  have hall : ∀ n < 16, ∀ m < 16, eip55Digit (hexDigit n) (hexDigit m) =
      if 8 ≤ m then (hexDigit n).toUpper else hexDigit n := by decide +kernel
  exact hall n hn m hm

theorem unsigned?_hexDigit {m : ℕ} (hm : m < 16) : unsigned? 16 (2 ^ 63) [hexDigit m] = some m := by
  have hall : ∀ m < 16, unsigned? 16 (2 ^ 63) [hexDigit m] = some m := by decide +kernel
  exact hall m hm

theorem foldlM_digits (address hash ret : Text) (k : ℕ) (haddress : ∀ c ∈ address, ∃ n < 16, c = hexDigit n)
    (hhash : ∀ c ∈ hash, ∃ n < 16, c = hexDigit n) (hlen : address.length + k ≤ hash.length) :
    ((address.map fun c => [c]).zipIdx k).foldlM (fun ret (c, i) => do
        let int ← unsigned? 16 (2 ^ 63) ((hash.drop i).take 1)
        some (ret ++ if 8 ≤ int then uppercased c else c)) ret =
      some (ret ++ List.zipWith eip55Digit address (hash.drop k)) := by
  induction address generalizing ret k with
  | nil => simp
  | cons c address ih =>
    rw [List.length_cons] at hlen
    obtain ⟨n, hn, rfl⟩ := haddress c List.mem_cons_self
    have hk : k < hash.length := by omega
    obtain ⟨m, hm, hget⟩ := hhash hash[k] (List.getElem_mem hk)
    have hdrop : hash.drop k = hexDigit m :: hash.drop (k + 1) := by rw [List.drop_eq_getElem_cons hk, hget]
    have hrest := ih (ret ++ [eip55Digit (hexDigit n) (hexDigit m)]) (k + 1)
      (fun d hd => haddress d (List.mem_cons_of_mem _ hd)) (by omega)
    have hcased : (if 8 ≤ m then uppercased [hexDigit n] else [hexDigit n]) = [eip55Digit (hexDigit n) (hexDigit m)] := by
      rw [eip55Digit_hexDigit hn hm]
      split
      · rfl
      · rfl
    rw [List.map_cons, List.zipIdx_cons, List.foldlM_cons]
    simp only [hdrop, List.take_succ_cons, List.take_zero, unsigned?_hexDigit hm, Option.bind_eq_bind, Option.bind_some,
      hcased]
    rw [List.append_assoc, List.singleton_append] at hrest
    rw [List.zipWith_cons_cons]
    exact hrest

section

variable [Segmentation]

theorem isAddress_spelling {mark digits : Text} {data : List UInt8} (hmark : mark ∈ marks)
    (h : ofHexPairs digits = some data) (hlen : data.length = 20) : isAddress (mark ++ digits) = true := by
  have hascii : isAscii digits = true := isAscii_of_plain fun c hc => (plain_of_ofHexPairs h c hc).2
  have hx : hasPrefix digits "0x".toList = false := hasPrefix_digits h rfl
  have hdata : dataOfHexString digits = some data := by
    rw [dataOfHexString, hx]
    exact h
  rw [isAddress, unmark hmark h]
  simp only [hdata, Option.map_some, utf8_length_of_isAscii hascii, ofHexPairs_length h, hlen]
  rfl

theorem withoutHex_spelling {mark digits : Text} {data : List UInt8} (hmark : mark ∈ marks)
    (h : ofHexPairs digits = some data) : withoutHex (lowercased (mark ++ digits)) = hex data := by
  rw [lowercased, List.map_append]
  have hlower := lowercased_of_ofHexPairs h
  rw [lowercased] at hlower
  rw [hlower]
  rcases marks_cases hmark with rfl | rfl | rfl
  · exact withoutHex_hex data
  · exact withoutHex_prefixed data
  · exact withoutHex_prefixed data

theorem ofString_spelling {mark digits : Text} {data : List UInt8} (hmark : mark ∈ marks)
    (h : ofHexPairs digits = some data) : Web3Address.ofString (mark ++ digits) = ⟨"0x".toList ++ digits, .normal⟩ := by
  rcases marks_cases hmark with rfl | rfl | rfl
  · have hx : hasPrefix digits "0x".toList = false := hasPrefix_digits h rfl
    have hX : hasPrefix digits "0X".toList = false := hasPrefix_digits h rfl
    rw [List.nil_append, Web3Address.ofString, hX, withHex, isHex, hx]
    rfl
  · have hx : hasPrefix ("0x".toList ++ digits) "0x".toList = true :=
      (hasPrefix_spelling hmark h).mpr (List.prefix_append _ _)
    have hX : hasPrefix ("0x".toList ++ digits) "0X".toList = false := rfl
    rw [Web3Address.ofString, hX, withHex, isHex, hx]
    rfl
  · have hX : hasPrefix ("0X".toList ++ digits) "0X".toList = true :=
      (hasPrefix_spelling hmark h).mpr (List.prefix_append _ _)
    rw [Web3Address.ofString, hX]
    rfl

variable [Crypto]

theorem toChecksumAddress_spelling {mark digits : Text} {data : List UInt8} (hmark : mark ∈ marks)
    (h : ofHexPairs digits = some data) (hlen : data.length = 20) :
    toChecksumAddress (mark ++ digits) = some (Address.eip55String ⟨data⟩) := by
  have hroom : (hex data).length + 0 ≤ (hex (Crypto.keccak256 (utf8 (hex data)))).length := by
    rw [hex_length, hex_length, Crypto.keccak256_length]
    omega
  have hfold := foldlM_digits (hex data) (hex (Crypto.keccak256 (utf8 (hex data)))) "0x".toList 0
    (fun c => mem_hex) (fun c => mem_hex) hroom
  rw [toChecksumAddress, isAddress_spelling hmark h hlen, withoutHex_spelling hmark h]
  dsimp only
  rw [hex_isAscii, characters_of_plain (plain_of_mem_hex data)]
  exact hfold

theorem address_spelling {mark digits : Text} {data : List UInt8} (hmark : mark ∈ marks)
    (h : ofHexPairs digits = some data) (hlen : data.length = 20) :
    (Web3Address.ofString (mark ++ digits)).address = Address.eip55String ⟨data⟩ := by
  rw [ofString_spelling hmark h, Web3Address.address,
    toChecksumAddress_spelling (List.mem_cons_of_mem _ List.mem_cons_self) h hlen]
  rfl

theorem address_ofData {data : List UInt8} (hlen : data.length = 20) :
    (Web3Address.ofData data).address = Address.eip55String ⟨data⟩ := by
  have htype : (Web3Address.ofData data).type = .normal := rfl
  rw [Web3Address.address, htype, ofData_address,
    toChecksumAddress_spelling (List.mem_cons_of_mem _ List.mem_cons_self) (ofHexPairs_hex data) hlen]
  rfl

theorem equals_of_address {lhs rhs : Web3Address} (haddress : lhs.address = rhs.address) (htype : lhs.type = rhs.type) :
    lhs.equals rhs = true := by
  rw [Web3Address.equals, haddress, htype, beq_self_eq_true, beq_self_eq_true]
  rfl

omit [Segmentation] in
theorem ofEip55_eq_some [Graphemes] {string : Text} {data : List UInt8} (hlen : data.length = 20) :
    Address.ofEip55 string = some ⟨data⟩ ↔ string = Address.eip55String ⟨data⟩ := by
  simp only [Address.ofEip55, Option.bind_eq_bind, Option.bind_eq_some_iff, Option.guard_eq_some', exists_const]
  constructor
  · rintro ⟨data', _, _, h⟩
    split at h
    · cases h
    · rename_i heip
      cases h
      exact (not_not.mp heip).symm
  · rintro rfl
    have hpairs : ofHexPairs (List.zipWith eip55Digit (hex data) (hex (Crypto.keccak256 (utf8 (hex data))))) = some data := by
      apply ofHexPairs_eip55
      rw [hex_length, Crypto.keccak256_length]
      omega
    have hascii := isAscii_of_plain fun c hc => (plain_of_ofHexPairs hpairs c hc).2
    have hread : dataOfHexString (Address.eip55String ⟨data⟩) = some data := by
      rw [dataOfHexString, Address.eip55String, hasPrefix_append hascii]
      exact hpairs
    exact ⟨data, hread, hlen, by rw [if_neg (not_not.mpr rfl)]⟩

theorem checksums_agree (d : List UInt8) (hlen : d.length = 20) :
    (Web3Address.ofData d).address = Address.eip55String ⟨d⟩ ∧
    (∀ string, Address.ofEip55 string = some ⟨d⟩ ↔ string = Address.eip55String ⟨d⟩) ∧
    ∀ mark ∈ [[], "0x".toList, "0X".toList], ∀ digits, ofHexPairs digits = some d →
      toChecksumAddress (mark ++ digits) = some (Address.eip55String ⟨d⟩) ∧
      (Web3Address.ofString (mark ++ digits)).address = Address.eip55String ⟨d⟩ ∧
      (Web3Address.ofString (mark ++ digits)).equals (Web3Address.ofData d) = true ∧
      ∀ mark' ∈ [[], "0x".toList, "0X".toList], ∀ digits', ofHexPairs digits' = some d →
        (Web3Address.ofString (mark ++ digits)).equals (Web3Address.ofString (mark' ++ digits')) = true := by
  refine ⟨address_ofData hlen, fun string => ofEip55_eq_some hlen, ?_⟩
  intro mark hmark digits h
  have haddress := address_spelling hmark h hlen
  refine ⟨toChecksumAddress_spelling hmark h hlen, haddress, ?_, ?_⟩
  · apply equals_of_address
    · rw [haddress, address_ofData hlen]
    · rw [ofString_spelling hmark h]
      rfl
  · intro mark' hmark' digits' h'
    apply equals_of_address
    · rw [haddress, address_spelling hmark' h' hlen]
    · rw [ofString_spelling hmark h, ofString_spelling hmark' h']

end

@[reducible]
def checksumAnswers : Crypto :=
  { knownAnswers with
    keccak256 := answer
      [(BigEndian.ofBytes (utf8 "7e5f4552091a69125d5dfcb7b8c2659029395bdf".toList),
        0xa8aaec6aceafa450816b295770adcd144ce18d630d6ce74288aa4f1569eda4ca)]
    keccak256_length := fun _ => BigEndian.toBytes_length _ _ }

attribute [local instance] scalarCharacters checksumAnswers in
theorem checksums_agree_sample :
    toChecksumAddress "0X7E5F4552091A69125D5DFCB7B8C2659029395BDF".toList =
      some "0x7E5F4552091A69125d5DfCb7b8C2659029395Bdf".toList := by
  let d := BigEndian.toBytes 20 0x7e5f4552091a69125d5dfcb7b8c2659029395bdf
  have htext : Address.eip55String ⟨d⟩ = "0x7E5F4552091A69125d5DfCb7b8C2659029395Bdf".toList := by decide +kernel
  have h := (checksums_agree d (by decide)).2.2 "0X".toList (by decide) "7E5F4552091A69125D5DFCB7B8C2659029395BDF".toList
    (by decide +kernel)
  rw [htext] at h
  exact h.1

end TronlinkCore.Abi
