import TronlinkCore.Solidity.RLP

namespace TronlinkCore.Solidity.RLP

open Outcome MachineInt BigEndian

theorem toUInt8_shiftRight (i : UInt64) {k : ℕ} (hk : k < 8) :
    (i >>> UInt64.ofNat (8 * k)).toUInt8 = UInt8.ofNat (i.toNat / 256 ^ k % 256) := by
  have hpow : (256 : ℕ) ^ k = 2 ^ (8 * k) := by
    rw [Nat.pow_mul]
  have hmod : 8 * k % 2 ^ 64 % 64 = 8 * k := by omega
  apply UInt8.toNat_inj.mp
  rw [UInt64.toNat_toUInt8, UInt64.toNat_shiftRight, UInt64.toNat_ofNat', hmod, Nat.shiftRight_eq_div_pow, ← hpow,
    UInt8.toNat_ofNat']
  omega

theorem byte_of_lt {value : UInt64} (h : value.toNat < 256) : byte value = ok value.toUInt8 := if_pos h

theorem byte_shiftRight {i : UInt64} {w : ℕ} (hw : w < 8) (hu : i.toNat < 256 ^ (w + 1)) :
    byte (i >>> UInt64.ofNat (8 * w)) = ok (UInt8.ofNat (i.toNat / 256 ^ w % 256)) := by
  have hpow : (256 : ℕ) ^ w = 2 ^ (8 * w) := by
    rw [Nat.pow_mul]
  have hmod : 8 * w % 2 ^ 64 % 64 = 8 * w := by omega
  rw [← toUInt8_shiftRight i hw]
  apply byte_of_lt
  rw [UInt64.toNat_shiftRight, UInt64.toNat_ofNat', hmod, Nat.shiftRight_eq_div_pow, ← hpow]
  rw [Nat.pow_succ] at hu
  exact Nat.div_lt_of_lt_mul hu

theorem toBytes_eq_map (w n : ℕ) :
    toBytes (w + 1) n =
      ((List.range w).reverse.map fun k => UInt8.ofNat (n / 256 ^ (k + 1) % 256)) ++ [UInt8.ofNat (n % 256)] := by
  induction w generalizing n with
  | zero => rfl
  | succ w ih =>
    have hdiv (k : ℕ) : n / 256 / 256 ^ (k + 1) = n / 256 ^ (k + 1 + 1) := by
      rw [Nat.div_div_eq_div_mul, ← Nat.pow_succ']
    rw [toBytes, ih, List.range_succ_eq_map, List.reverse_cons, List.map_append, List.map_reverse, List.map_reverse,
      List.map_map]
    simp only [hdiv, Function.comp_def, Nat.succ_eq_add_one, List.map_cons, List.map_nil, Nat.zero_add, Nat.pow_one]

theorem putint_branch {i : UInt64} {w : ℕ} (hw : w < 7) (hl : 256 ^ (w + 1) ≤ i.toNat)
    (hu : i.toNat < 256 ^ (w + 1 + 1)) :
    (do let first ← byte (i >>> UInt64.ofNat (8 * (w + 1)))
        ok (first :: (((List.range w).reverse.map fun k => (i >>> UInt64.ofNat (8 * (k + 1))).toUInt8) ++ [i.toUInt8]))) =
      ok (serialize i.toNat) := by
  have hmap : ((List.range w).reverse.map fun k => (i >>> UInt64.ofNat (8 * (k + 1))).toUInt8) =
      (List.range w).reverse.map fun k => UInt8.ofNat (i.toNat / 256 ^ (k + 1) % 256) := by
    apply List.map_congr_left
    intro k hk
    have hlt := List.mem_range.mp (List.mem_reverse.mp hk)
    exact toUInt8_shiftRight i (by omega)
  have hlast : i.toUInt8 = UInt8.ofNat (i.toNat % 256) := by
    apply UInt8.toNat_inj.mp
    simp
  rw [byte_shiftRight (by omega) hu, ok_bind, hmap, hlast, serialize_of_between hl hu, toBytes_eq_map (w + 1),
    List.range_succ, List.reverse_append, List.reverse_singleton, List.singleton_append, List.map_cons,
    List.cons_append]

theorem putint_eq {i : UInt64} (h : 0 < i.toNat) : putint i = ok (serialize i.toNat) := by
  have hlt : i.toNat < 256 ^ 8 := i.toNat_lt
  unfold putint
  split
  · rename_i hu
    have hlast : i.toUInt8 = UInt8.ofNat (i.toNat % 256) := by
      apply UInt8.toNat_inj.mp
      simp
    rw [byte_of_lt hu, ok_bind, serialize_of_between (w := 0) h hu, toBytes_eq_map, hlast]
    rfl
  · split
    · exact putint_branch (w := 0) (by omega) (by omega) (by omega)
    · split
      · exact putint_branch (w := 1) (by omega) (by omega) (by omega)
      · split
        · exact putint_branch (w := 2) (by omega) (by omega) (by omega)
        · split
          · exact putint_branch (w := 3) (by omega) (by omega) (by omega)
          · split
            · exact putint_branch (w := 4) (by omega) (by omega) (by omega)
            · split
              · exact putint_branch (w := 5) (by omega) (by omega) (by omega)
              · exact putint_branch (w := 6) (by omega) (by omega) (by omega)

theorem addUInt8_of_lt {a b : UInt8} (h : a.toNat + b.toNat < 256) : addUInt8 a b = ok (a + b) := if_pos h

theorem encodeHeader_eq {count : ℕ} (hcount : count ≤ intMax) {smallTag largeTag : UInt8}
    (htag : smallTag = 0x80 ∧ largeTag = 0xb7 ∨ smallTag = 0xc0 ∧ largeTag = 0xf7) :
    encodeHeader (UInt64.ofNat count) smallTag largeTag = ok (Rlp.header smallTag.toNat count) := by
  have hmax : intMax = 9223372036854775807 := rfl
  have hsize : (UInt64.ofNat count).toNat = count := UInt64.toNat_ofNat_of_lt' (by rw [UInt64.size]; omega)
  have hlarge : largeTag.toNat = smallTag.toNat + 55 ∧ smallTag.toNat ≤ 192 := by
    rcases htag with ⟨rfl, rfl⟩ | ⟨rfl, rfl⟩ <;> decide
  have hsmall : UInt64.ofNat count < 56 ↔ count < 56 := by
    rw [UInt64.lt_iff_toNat_lt, hsize]
    rfl
  unfold encodeHeader Rlp.header
  by_cases hlt : count < 56
  · have hnat : (UInt64.ofNat count).toUInt8.toNat = count := by
      rw [UInt64.toNat_toUInt8, hsize]
      omega
    have hsum : smallTag + (UInt64.ofNat count).toUInt8 = UInt8.ofNat (smallTag.toNat + count) := by
      apply UInt8.toNat_inj.mp
      rw [UInt8.toNat_add, hnat, UInt8.toNat_ofNat']
    rw [if_pos (hsmall.mpr hlt), if_pos hlt, byte_of_lt (by rw [hsize]; omega), ok_bind,
      addUInt8_of_lt (by rw [hnat]; omega), ok_bind, hsum]
  · have hwidth : byteWidth count ≤ 8 := byteWidth_le_iff.mpr (by omega)
    have hlength : (UInt64.ofNat (serialize count).length).toNat = byteWidth count := by
      rw [serialize_length]
      exact UInt64.toNat_ofNat_of_lt' (by rw [UInt64.size]; omega)
    have hnat : (UInt64.ofNat (serialize count).length).toUInt8.toNat = byteWidth count := by
      rw [UInt64.toNat_toUInt8, hlength]
      omega
    have hsum : largeTag + (UInt64.ofNat (serialize count).length).toUInt8 =
        UInt8.ofNat (smallTag.toNat + 55 + byteWidth count) := by
      apply UInt8.toNat_inj.mp
      rw [UInt8.toNat_add, hnat, UInt8.toNat_ofNat', hlarge.1]
    rw [if_neg (fun h => hlt (hsmall.mp h)), if_neg hlt, putint_eq (by omega), hsize, ok_bind,
      byte_of_lt (by rw [hlength]; omega), ok_bind, addUInt8_of_lt (by rw [hnat]; omega), ok_bind, hsum]

theorem encodeData_eq (data : Data) : encodeData data = Data.ofBytes (Rlp.encodeBytes data.bytes) := by
  unfold encodeData Rlp.encodeBytes
  by_cases h : data.bytes.length = 1 ∧ data.bytes.headD 0 ≤ 0x7f
  · rw [if_pos h, if_pos h]
    exact (Data.ofBytes_eq_ok.mpr rfl).symm
  · rw [if_neg h, if_neg h, encodeHeader_eq data.count_le (.inl ⟨rfl, rfl⟩), ok_bind]
    rfl

theorem encodeSequence_eq (encodedData : Data) : encodeSequence encodedData =
    Data.ofBytes (Rlp.header 0xc0 encodedData.bytes.length ++ encodedData.bytes) := by
  rw [encodeSequence, encodeHeader_eq encodedData.count_le (.inr ⟨rfl, rfl⟩), ok_bind]
  rfl

theorem ofBytes_of_le {bs : List UInt8} (h : bs.length ≤ intMax) : Data.ofBytes bs = ok ⟨bs, h⟩ := dif_pos h

theorem ofBytes_of_lt {bs : List UInt8} (h : intMax < bs.length) : Data.ofBytes bs = trap := dif_neg (Nat.not_le.mpr h)

theorem ofBytes_bind_encodeData (bs : List UInt8) :
    (do let data ← Data.ofBytes bs
        encodeData data) = Data.ofBytes (Rlp.encodeBytes bs) := by
  rcases Nat.lt_or_ge intMax bs.length with hlt | hle
  · rw [ofBytes_of_lt hlt, ofBytes_of_lt (hlt.trans_le (Rlp.encodeBytes_length bs))]
    rfl
  · rw [ofBytes_of_le hle, ok_bind, encodeData_eq]

theorem encodeBigUInt_eq (number : ℕ) : encodeBigUInt number = Data.ofBytes (Rlp.encodeBytes (serialize number)) := by
  rw [← ofBytes_bind_encodeData, encodeBigUInt]
  apply bind_congr_ok
  intro encoded _
  by_cases hnil : encoded.bytes = []
  · rw [if_pos hnil, encodeData_eq, hnil]
    rfl
  · rw [if_neg hnil]

mutual

def Element.tree : Element → Rlp.Tree
  | .string string => .bytes (Text.utf8 string)
  | .list elements => .list (trees elements)
  | .int number => .bytes (serialize number.toInt.toNat)
  | .int64 number => .bytes (serialize number.toInt.toNat)
  | .bigInt bigint => .bytes (serialize bigint.toNat)
  | .bigUInt biguint => .bytes (serialize biguint)
  | .data data => .bytes data.bytes
  | .other => .bytes []

def trees : List Element → List Rlp.Tree
  | [] => []
  | element :: elements => element.tree :: trees elements

end

/-- No leaf is negative, and none is of another type. -/
inductive Element.Supported : Element → Prop where
  | string (string : Text) : Supported (.string string)
  | list {elements : List Element} (h : ∀ element ∈ elements, Supported element) : Supported (.list elements)
  | int {number : Int64} (h : 0 ≤ number) : Supported (.int number)
  | int64 {number : Int64} (h : 0 ≤ number) : Supported (.int64 number)
  | bigInt {bigint : ℤ} (h : 0 ≤ bigint) : Supported (.bigInt bigint)
  | bigUInt (biguint : ℕ) : Supported (.bigUInt biguint)
  | data (data : Data) : Supported (.data data)

def Encodes (supported : Prop) (bytes : List UInt8) (x : Outcome Data) : Prop :=
  supported ∧ x = Data.ofBytes bytes ∨ ¬ supported ∧ (x = fail ∨ x = trap ∧ intMax < bytes.length)

theorem encodes_of_ensure {p : Prop} [Decidable p] {supported : Prop} {bytes : List UInt8} {x : Outcome Data}
    (hs : supported ↔ p) (hx : p → x = Data.ofBytes bytes) :
    Encodes supported bytes (do
      ensure p
      x) := by
  by_cases hp : p
  · rw [ensure_true hp, ok_bind]
    exact .inl ⟨hs.mpr hp, hx hp⟩
  · rw [ensure, if_neg hp]
    exact .inr ⟨fun h => hp (hs.mp h), .inl rfl⟩

theorem encodes_bind {supported more : Prop} {bytes rest : List UInt8} {x : Outcome Data} {f : Data → Outcome Data}
    (hx : Encodes supported bytes x) (hlong : bytes.length ≤ rest.length)
    (hf : ∀ data : Data, data.bytes = bytes → Encodes more rest (f data)) :
    Encodes (supported ∧ more) rest (x >>= f) := by
  have htrap (h : intMax < bytes.length) : Encodes (supported ∧ more) rest trap := by
    have hrest := h.trans_le hlong
    by_cases hboth : supported ∧ more
    · exact .inl ⟨hboth, (ofBytes_of_lt hrest).symm⟩
    · exact .inr ⟨hboth, .inr ⟨rfl, hrest⟩⟩
  obtain ⟨hs, rfl⟩ | ⟨hs, rfl | ⟨rfl, hlt⟩⟩ := hx
  · rcases Nat.lt_or_ge intMax bytes.length with hlt | hle
    · rw [ofBytes_of_lt hlt]
      exact htrap hlt
    · rw [ofBytes_of_le hle, ok_bind]
      obtain ⟨hm, hr⟩ | ⟨hm, hr⟩ := hf ⟨bytes, hle⟩ rfl
      · exact .inl ⟨⟨hs, hm⟩, hr⟩
      · exact .inr ⟨fun h => hm h.2, hr⟩
  · exact .inr ⟨fun h => hs h.1, .inl rfl⟩
  · exact htrap hlt

theorem supported_list {elements : List Element} :
    (Element.list elements).Supported ↔ ∀ element ∈ elements, element.Supported := by
  constructor
  · rintro ⟨h⟩
    assumption
  · exact .list

theorem supported_int {number : Int64} : (Element.int number).Supported ↔ 0 ≤ number := by
  constructor
  · rintro ⟨h⟩
    assumption
  · exact .int

theorem supported_int64 {number : Int64} : (Element.int64 number).Supported ↔ 0 ≤ number := by
  constructor
  · rintro ⟨h⟩
    assumption
  · exact .int64

theorem supported_bigInt {bigint : ℤ} : (Element.bigInt bigint).Supported ↔ 0 ≤ bigint := by
  constructor
  · rintro ⟨h⟩
    assumption
  · exact .bigInt

theorem toNat_toUInt64 {number : Int64} (h : 0 ≤ number) : number.toUInt64.toNat = number.toInt.toNat := by
  have hnonneg : 0 ≤ number.toInt := Int64.le_iff_toInt_le.mp h
  have hbits : number.toInt = number.toBitVec.toInt := rfl
  have hnat : number.toUInt64.toNat = number.toBitVec.toNat := rfl
  have hcond := BitVec.toInt_eq_toNat_cond number.toBitVec
  rw [hnat]
  rw [hbits] at hnonneg ⊢
  split at hcond <;> omega

mutual

theorem encode_encodes : ∀ element : Element, Encodes element.Supported (Rlp.encode element.tree) (encode element)
  | .string string => by
    rw [encode, Element.tree, Rlp.encode]
    exact .inl ⟨.string string, ofBytes_bind_encodeData _⟩
  | .list elements => by
    rw [encode, Element.tree, Rlp.encode, supported_list, ← and_true (∀ element ∈ elements, element.Supported)]
    refine encodes_bind (encodeElements_encodes elements _) ?_ ?_
    · simp only [List.length_append, List.length_nil]
      omega
    · intro encodedData hdata
      refine .inl ⟨trivial, ?_⟩
      rw [encodeSequence_eq, hdata]
      rfl
  | .int number => by
    rw [encode, Element.tree, Rlp.encode, encodeInt]
    refine encodes_of_ensure supported_int fun h => ?_
    rw [encodeUInt, encodeBigUInt_eq, toNat_toUInt64 h]
  | .int64 number => by
    rw [encode, Element.tree, Rlp.encode, encodeInt64]
    refine encodes_of_ensure supported_int64 fun h => ?_
    rw [encodeUInt64, encodeBigUInt_eq, toNat_toUInt64 h]
  | .bigInt bigint => by
    rw [encode, Element.tree, Rlp.encode, encodeBigInt]
    refine encodes_of_ensure supported_bigInt fun h => ?_
    have habs : bigint.natAbs = bigint.toNat := by omega
    rw [encodeBigUInt_eq, habs]
  | .bigUInt biguint => by
    rw [encode, Element.tree, Rlp.encode]
    exact .inl ⟨.bigUInt biguint, encodeBigUInt_eq biguint⟩
  | .data data => by
    rw [encode, Element.tree, Rlp.encode]
    exact .inl ⟨.data data, encodeData_eq data⟩
  | .other => by
    rw [encode]
    exact .inr ⟨nofun, .inl rfl⟩

theorem encodeElements_encodes : ∀ (elements : List Element) (encodedData : Data),
    Encodes (∀ element ∈ elements, element.Supported) (encodedData.bytes ++ Rlp.concat (trees elements))
      (encodeElements elements encodedData)
  | [], encodedData => by
    rw [encodeElements, trees, Rlp.concat, List.append_nil]
    exact .inl ⟨nofun, (Data.ofBytes_eq_ok.mpr rfl).symm⟩
  | element :: elements, encodedData => by
    rw [encodeElements, trees, Rlp.concat, List.forall_mem_cons]
    refine encodes_bind (encode_encodes element) ?_ ?_
    · simp only [List.length_append]
      omega
    · intro encoded hencoded
      rw [← true_and (∀ element ∈ elements, element.Supported), ← List.append_assoc]
      refine encodes_bind (.inl ⟨trivial, rfl⟩) ?_ ?_
      · rw [hencoded]
        simp only [List.length_append]
        omega
      · intro appended happended
        rw [← hencoded, ← happended]
        exact encodeElements_encodes elements appended

end

theorem encode_eq_of_supported {element : Element} (h : element.Supported) :
    encode element = Data.ofBytes (Rlp.encode element.tree) := by
  obtain ⟨_, hencode⟩ | ⟨hnot, _⟩ := encode_encodes element
  · exact hencode
  · exact absurd h hnot

theorem encode_of_not_supported {element : Element} (h : ¬ element.Supported) :
    encode element = fail ∨ encode element = trap ∧ intMax < (Rlp.encode element.tree).length := by
  obtain ⟨hs, _⟩ | ⟨_, hencode⟩ := encode_encodes element
  · exact absurd hs h
  · exact hencode

theorem bytes_of_encode {element : Element} {data : Data} (h : encode element = ok data) :
    data.bytes = Rlp.encode element.tree ∧ Rlp.Fits element.tree := by
  obtain ⟨_, hencode⟩ | ⟨_, hencode | ⟨hencode, _⟩⟩ := encode_encodes element
  · rw [h] at hencode
    have hbytes := Data.ofBytes_eq_ok.mp hencode.symm
    have hcount := data.count_le
    have hmax : intMax = 9223372036854775807 := rfl
    rw [hbytes] at hcount
    refine ⟨hbytes, ?_⟩
    rw [Rlp.Fits]
    omega
  · rw [h] at hencode
    cases hencode
  · rw [h] at hencode
    cases hencode

theorem encode_canonical :
    (∀ element : Element, element.Supported → encode element = Data.ofBytes (Rlp.encode element.tree)) ∧
      (∀ element : Element, ¬ element.Supported →
        encode element = fail ∨ encode element = trap ∧ intMax < (Rlp.encode element.tree).length) ∧
      ∀ (element element' : Element) (data data' : Data), encode element = ok data → encode element' = ok data' →
        data.bytes <+: data'.bytes → element.tree = element'.tree ∧ data = data' := by
  refine ⟨fun _ => encode_eq_of_supported, fun _ => encode_of_not_supported, ?_⟩
  intro element element' data data' hdata hdata' hprefix
  obtain ⟨hbytes, hfits⟩ := bytes_of_encode hdata
  obtain ⟨hbytes', hfits'⟩ := bytes_of_encode hdata'
  rw [hbytes, hbytes'] at hprefix
  have htree := Rlp.eq_of_prefix hfits hfits' hprefix
  refine ⟨htree, Data.eq_of_bytes ?_⟩
  rw [hbytes, hbytes', htree]

def sample : Element := .list [.data ⟨[0x01], by decide⟩, .data ⟨[0x02, 0x03], by decide⟩]

theorem sample_encode : encode sample = ok ⟨[0xc4, 0x01, 0x82, 0x02, 0x03], by decide⟩ := by
  have hsupported : sample.Supported := by
    refine .list ?_
    rintro element hmem
    cases hmem with
    | head => exact .data _
    | tail _ hmem =>
      cases hmem with
      | head => exact .data _
      | tail _ hmem => cases hmem
  rw [encode_canonical.1 sample hsupported]
  decide +kernel

end TronlinkCore.Solidity.RLP
