import Mathlib.Data.List.GetD
import TronlinkCore.Keystore.Secrets
import TronlinkCore.Library.Positional
import TronlinkCore.Wallet.Base58

/-!
Base58 is a change of base under an alphabet, so that decoding and encoding
undo each other in both directions.
-/

namespace TronlinkCore.Wallet

open Text BigEndian Positional

def letters (alphabet : List UInt8) (ds : List ℕ) : List UInt8 := ds.map fun d => alphabet.getD d 0

def indices (alphabet : List UInt8) (bytes : List UInt8) : Option (List ℕ) := bytes.mapM fun ch => alphabet.idxOf? ch

theorem letters_append (alphabet : List UInt8) (ds es : List ℕ) :
    letters alphabet (ds ++ es) = letters alphabet ds ++ letters alphabet es := List.map_append

theorem indices_append (alphabet bytes rest : List UInt8) :
    indices alphabet (bytes ++ rest) =
      (indices alphabet bytes).bind fun ds => (indices alphabet rest).map fun es => ds ++ es := by
  simp [indices, List.mapM_append, Option.map_eq_bind]

theorem indices_reverse (alphabet bytes : List UInt8) :
    indices alphabet bytes.reverse = (indices alphabet bytes).map List.reverse := by
  induction bytes with
  | nil => rfl
  | cons b bs ih =>
    have hcons : indices alphabet (b :: bs) = (indices alphabet [b]).bind fun ds =>
        (indices alphabet bs).map fun es => ds ++ es := indices_append alphabet [b] bs
    rw [List.reverse_cons, indices_append, ih, hcons]
    simp only [indices, List.mapM_cons, List.mapM_nil]
    cases alphabet.idxOf? b with
    | none => cases bs.mapM fun ch => alphabet.idxOf? ch <;> rfl
    | some i =>
      cases bs.mapM fun ch => alphabet.idxOf? ch with
      | none => rfl
      | some ds => simp

section

variable {alphabet : List UInt8}

theorem letters_of_indices {bytes : List UInt8} {ds : List ℕ} (h : indices alphabet bytes = some ds) :
    letters alphabet ds = bytes ∧ ∀ d ∈ ds, d < alphabet.length := by
  induction bytes generalizing ds with
  | nil =>
    cases h
    simp [letters]
  | cons b bs ih =>
    simp only [indices, List.mapM_cons, Option.bind_eq_bind, Option.bind_eq_some_iff, Option.pure_def,
      Option.some.injEq] at h
    obtain ⟨i, hi, es, hes, rfl⟩ := h
    obtain ⟨hlt, hb, _⟩ := List.idxOf?_eq_some_iff.mp hi
    obtain ⟨hletters, hbound⟩ := ih hes
    constructor
    · rw [letters, List.map_cons, List.getD_eq_getElem _ _ hlt, hb]
      exact congrArg (b :: ·) hletters
    · intro d hd
      obtain rfl | hd := List.mem_cons.mp hd
      · exact hlt
      · exact hbound d hd

theorem indices_letters {ds : List ℕ} (hnodup : alphabet.Nodup) (hd : ∀ d ∈ ds, d < alphabet.length) :
    indices alphabet (letters alphabet ds) = some ds := by
  induction ds with
  | nil => rfl
  | cons d ds ih =>
    have hlt : d < alphabet.length := hd d List.mem_cons_self
    have hi : alphabet.idxOf? (alphabet.getD d 0) = some d := by
      rw [List.getD_eq_getElem _ _ hlt, List.idxOf?_eq_some_iff]
      refine ⟨hlt, rfl, ?_⟩
      intro j hj heq
      rw [List.Nodup.getElem_inj_iff hnodup] at heq
      omega
    have hrest := ih fun e he => hd e (List.mem_cons_of_mem d he)
    rw [indices, letters] at hrest
    rw [indices, letters, List.map_cons, List.mapM_cons, hi, hrest]
    rfl

theorem zeros_eq_takeWhile {ds : List ℕ} (hnodup : alphabet.Nodup) (h0 : 0 < alphabet.length)
    (hd : ∀ d ∈ ds, d < alphabet.length) :
    ((letters alphabet ds).takeWhile (· = alphabet.getD 0 0)).length = zeros ds := by
  rw [letters, List.takeWhile_map, List.length_map, zeros]
  congr 1
  induction ds with
  | nil => rfl
  | cons d ds ih =>
    have hlt : d < alphabet.length := hd d List.mem_cons_self
    have hiff : alphabet.getD d 0 = alphabet.getD 0 0 ↔ d = 0 := by
      rw [List.getD_eq_getElem _ _ hlt, List.getD_eq_getElem _ _ h0, List.Nodup.getElem_inj_iff hnodup]
    have hrest := ih fun e he => hd e (List.mem_cons_of_mem d he)
    by_cases hzero : d = 0
    · rw [List.takeWhile_cons_of_pos (by simpa using hiff.mpr hzero), List.takeWhile_cons_of_pos (by simpa using hzero),
        hrest]
    · rw [List.takeWhile_cons_of_neg (by simpa using fun h => hzero (hiff.mp h)),
        List.takeWhile_cons_of_neg (by simpa using hzero)]

theorem weighted_sum (alphabet bytes : List UInt8) (answer j : ℕ) :
    bytes.foldlM (fun (answer, j) ch => do
        let index ← alphabet.idxOf? ch
        some (answer + j * index, j * alphabet.length)) (answer, j) =
      (indices alphabet bytes).map fun ds =>
        (answer + j * Nat.ofDigits alphabet.length ds, j * alphabet.length ^ ds.length) := by
  induction bytes generalizing answer j with
  | nil => simp [indices]
  | cons b bs ih =>
    rw [List.foldlM_cons, indices, List.mapM_cons]
    cases alphabet.idxOf? b with
    | none => rfl
    | some i =>
      refine (ih (answer + j * i) (j * alphabet.length)).trans ?_
      rw [indices]
      cases bs.mapM fun ch => alphabet.idxOf? ch with
      | none => rfl
      | some ds =>
        simp only [Option.map_some, Option.bind_eq_bind, Option.bind_some, Option.pure_def, Nat.ofDigits_cons,
          List.length_cons]
        congr 2
        · ring
        · ring

end

namespace Base58String

structure Valid (alphabet : List UInt8) : Prop where
  length : alphabet.length = 58
  nodup : alphabet.Nodup
  ascii : ∀ b ∈ alphabet, b < 128

theorem valid_of_isValidAlphabet {alphabet : List UInt8} (h : isValidAlphabet alphabet) : Valid alphabet := by
  simp only [isValidAlphabet, Bool.and_eq_true, decide_eq_true_eq, Bool.not_eq_true', List.any_eq_false] at h
  obtain ⟨⟨hlength, hnodup⟩, hascii⟩ := h
  refine ⟨hlength, hnodup, ?_⟩
  intro b hb
  have hle := hascii b hb
  rw [UInt8.lt_iff_toNat_lt] at hle ⊢
  exact Nat.lt_succ_of_le (Nat.le_of_not_lt hle)

end Base58String

section

variable {alphabet : List UInt8}

theorem ascii_letters (h : Base58String.Valid alphabet) (ds : List ℕ) : ∀ b ∈ letters alphabet ds, b < 128 := by
  intro b hb
  obtain ⟨d, _, rfl⟩ := List.mem_map.mp hb
  rw [List.getD_eq_getElem?_getD]
  cases hd : alphabet[d]? with
  | none => decide
  | some c => exact h.ascii c (List.mem_of_getElem? hd)

theorem base58Encoding_eq (h : Base58String.Valid alphabet) (bytes : List UInt8) :
    base58Encoding alphabet bytes = ofAscii (letters alphabet (rebase 256 58 (bytes.map UInt8.toNat))) := by
  have hzeros : (bytes.takeWhile (· = 0)).map (fun _ => alphabet.getD 0 0) =
      letters alphabet (List.replicate (zeros (bytes.map UInt8.toNat)) 0) := by
    rw [letters, List.map_replicate, List.map_const', zeros, List.takeWhile_map, List.length_map]
    congr 3
    funext b
    exact decide_eq_decide.mpr ⟨fun hb => congrArg UInt8.toNat hb, fun hb => UInt8.toNat_inj.mp hb⟩
  rw [rebase, letters_append, ← hzeros, ← ofBytes_eq_value, base58Encoding, h.length]
  congr 1
  rw [List.reverse_append, List.map_const', List.reverse_replicate, ← List.map_reverse]
  rfl

theorem base58Decoding_eq (h : Base58String.isValidAlphabet alphabet) (string : Text) :
    base58Decoding alphabet string =
      (indices alphabet (utf8 string)).map fun ds => (rebase 58 256 ds).map UInt8.ofNat := by
  have hvalid := Base58String.valid_of_isValidAlphabet h
  have hpos : 0 < alphabet.length := by
    rw [hvalid.length]
    decide
  rw [base58Decoding, if_pos h]
  simp only [weighted_sum, indices_reverse]
  cases hi : indices alphabet (utf8 string) with
  | none => rfl
  | some ds =>
    obtain ⟨hletters, hbound⟩ := letters_of_indices hi
    simp only [Option.map_some, Option.bind_eq_bind, Option.bind_some, zero_add, one_mul, hvalid.length]
    rw [← hletters, zeros_eq_takeWhile hvalid.nodup hpos hbound, serialize_eq_digits, rebase, List.map_append,
      List.map_replicate]
    rfl

theorem base58Decoding_encoding (h : Base58String.isValidAlphabet alphabet) (bytes : List UInt8) :
    base58Decoding alphabet (base58Encoding alphabet bytes) = some bytes := by
  have hvalid := Base58String.valid_of_isValidAlphabet h
  have hbound : ∀ d ∈ rebase 256 58 (bytes.map UInt8.toNat), d < alphabet.length := by
    intro d hd
    rw [hvalid.length]
    exact lt_of_mem_rebase (by decide) hd
  have hbytes : ∀ d ∈ bytes.map UInt8.toNat, d < 256 := by
    intro d hd
    obtain ⟨b, _, rfl⟩ := List.mem_map.mp hd
    exact b.toNat_lt
  rw [base58Decoding_eq h, base58Encoding_eq hvalid, utf8_ofAscii (ascii_letters hvalid _),
    indices_letters hvalid.nodup hbound, Option.map_some, rebase_rebase (by decide) hbytes, List.map_map]
  congr 1
  conv_rhs => rw [← List.map_id bytes]
  apply List.map_congr_left
  intro b _
  exact UInt8.ofNat_toNat

theorem base58Encoding_of_decoding {string : Text} {data : List UInt8} (h : Base58String.isValidAlphabet alphabet)
    (hdecode : base58Decoding alphabet string = some data) : base58Encoding alphabet data = string := by
  have hvalid := Base58String.valid_of_isValidAlphabet h
  rw [base58Decoding_eq h] at hdecode
  obtain ⟨ds, hi, rfl⟩ := Option.map_eq_some_iff.mp hdecode
  obtain ⟨hletters, hbound⟩ := letters_of_indices hi
  rw [hvalid.length] at hbound
  have hbytes : ((rebase 58 256 ds).map UInt8.ofNat).map UInt8.toNat = rebase 58 256 ds := by
    rw [List.map_map]
    conv_rhs => rw [← List.map_id (rebase 58 256 ds)]
    apply List.map_congr_left
    intro d hd
    exact UInt8.toNat_ofNat_of_lt' (lt_of_mem_rebase (by decide) hd)
  rw [base58Encoding_eq hvalid, hbytes, rebase_rebase (by decide) hbound, hletters]
  apply utf8_injective
  rw [utf8_ofAscii]
  rw [← hletters]
  exact ascii_letters hvalid ds

end

theorem all_range_four {hash rest : List UInt8} (hhash : 4 ≤ hash.length) (hrest : rest.length = 4) :
    ((List.range 4).all fun i => hash[i]? == rest[i]?) = true ↔ hash.take 4 = rest := by
  rw [List.all_eq_true]
  constructor
  · intro h
    apply List.ext_getElem?
    intro i
    by_cases hi : i < 4
    · rw [List.getElem?_take_of_lt hi]
      exact beq_iff_eq.mp (h i (List.mem_range.mpr hi))
    · rw [List.getElem?_eq_none (by rw [List.length_take]; omega), List.getElem?_eq_none (by omega)]
  · rintro rfl i hi
    rw [List.getElem?_take_of_lt (List.mem_range.mp hi)]
    exact beq_self_eq_true _

class Digest.Sized [Digest] : Prop where
  sha256_length : ∀ bytes : List UInt8, (Digest.sha256 bytes).length = 32

def checksum [Digest] (data : List UInt8) : List UInt8 := (Digest.sha256 (Digest.sha256 data)).take 4

section

variable [Digest] [Digest.Sized] {alphabet : List UInt8} {string : Text} {data : List UInt8}

theorem checksum_length (data : List UInt8) : (checksum data).length = 4 := by
  rw [checksum, List.length_take, Digest.Sized.sha256_length]
  rfl

theorem base58CheckDecoding_eq_some :
    base58CheckDecoding alphabet string = some data ↔ base58Decoding alphabet string = some (data ++ checksum data) := by
  have hsum (decoded : List UInt8) (hlen : 4 ≤ decoded.length) :
      ((List.range 4).all fun i =>
        (Digest.sha256 (Digest.sha256 (decoded.take (decoded.length - 4))))[i]? ==
          decoded[(decoded.take (decoded.length - 4)).length + i]?) = true ↔
      checksum (decoded.take (decoded.length - 4)) = decoded.drop (decoded.length - 4) := by
    have htake : (decoded.take (decoded.length - 4)).length = decoded.length - 4 := by
      rw [List.length_take]
      omega
    rw [checksum, ← all_range_four]
    · simp only [htake, List.getElem?_drop]
    · rw [Digest.Sized.sha256_length]
      decide
    · rw [List.length_drop]
      omega
  unfold base58CheckDecoding
  cases hd : base58Decoding alphabet string with
  | none => simp
  | some decoded =>
    simp only [Option.bind_eq_bind, Option.bind_some, Option.some.injEq]
    constructor
    · intro h
      split at h
      · rename_i hlen
        split at h
        · rename_i hall
          cases h
          rw [(hsum decoded hlen).mp hall, List.take_append_drop]
        · cases h
      · cases h
    · rintro rfl
      have hlen : (data ++ checksum data).length = data.length + 4 := by
        rw [List.length_append, checksum_length]
      have hlen4 : 4 ≤ (data ++ checksum data).length := by omega
      have hcut : (data ++ checksum data).length - 4 = data.length := by omega
      have hall := (hsum (data ++ checksum data) hlen4).mpr (by rw [hcut, List.take_left, List.drop_left])
      rw [if_pos hlen4, if_pos hall, hcut, List.take_left]

theorem base58CheckDecoding_encoding (h : Base58String.isValidAlphabet alphabet) (data : List UInt8) :
    base58CheckDecoding alphabet (base58CheckEncoding alphabet data) = some data :=
  base58CheckDecoding_eq_some.mpr (base58Decoding_encoding h _)

theorem base58CheckEncoding_of_decoding (h : Base58String.isValidAlphabet alphabet)
    (hdecode : base58CheckDecoding alphabet string = some data) : base58CheckEncoding alphabet data = string :=
  base58Encoding_of_decoding h (base58CheckDecoding_eq_some.mp hdecode)

theorem base58CheckDecoding_eq_none {decoded : List UInt8} (hdecode : base58Decoding alphabet string = some decoded)
    (h : decoded.length < 4 ∨ decoded.drop (decoded.length - 4) ≠ checksum (decoded.take (decoded.length - 4))) :
    base58CheckDecoding alphabet string = none := by
  rw [Option.eq_none_iff_forall_ne_some]
  intro data hdata
  rw [base58CheckDecoding_eq_some, hdecode, Option.some.injEq] at hdata
  have hlen : decoded.length = data.length + 4 := by
    rw [hdata, List.length_append, checksum_length]
  rcases h with h | h
  · omega
  · have hcut : decoded.length - 4 = data.length := by omega
    apply h
    rw [hcut, hdata, List.drop_left, List.take_left]

end

theorem base58_bijective [Digest] [Digest.Sized] {alphabet : List UInt8} (h : Base58String.isValidAlphabet alphabet) :
    (∀ data, base58Decoding alphabet (base58Encoding alphabet data) = some data) ∧
      (∀ string data, base58Decoding alphabet string = some data → base58Encoding alphabet data = string) ∧
      (∀ data, base58CheckDecoding alphabet (base58CheckEncoding alphabet data) = some data) ∧
      (∀ string data, base58CheckDecoding alphabet string = some data →
        base58CheckEncoding alphabet data = string) ∧
      ∀ string decoded, base58Decoding alphabet string = some decoded →
        (decoded.length < 4 ∨
          decoded.drop (decoded.length - 4) ≠
            (Digest.sha256 (Digest.sha256 (decoded.take (decoded.length - 4)))).take 4) →
        base58CheckDecoding alphabet string = none := by
  refine ⟨base58Decoding_encoding h, ?_, base58CheckDecoding_encoding h, ?_, ?_⟩
  · intro string data hdecode
    exact base58Encoding_of_decoding h hdecode
  · intro string data hdecode
    exact base58CheckEncoding_of_decoding h hdecode
  · intro string decoded hdecode hwrong
    exact base58CheckDecoding_eq_none hdecode hwrong

-- Of the transaction, of the address and of the hash of the address
@[reducible]
def knownDigests : Digest where
  sha256 := Keystore.answer
    [(0x5a00, 0x89389ee14c6495d62c5c4d1ab627f415099e5101e21cc66af492011f88adf1c4),
      (0x417e5f4552091a69125d5dfcb7b8c2659029395bdf, 0x6dd6e72fff3e486ec9c3c606434860a2a02521aa217831fed5542f1f342dd771),
      (0x6dd6e72fff3e486ec9c3c606434860a2a02521aa217831fed5542f1f342dd771,
        0xb164fb1f395a1dc1bc7c88ab5ad7286f3fd4c54ef2884171d9a4cac48178b4e1)]

theorem knownDigests_sized : @Digest.Sized knownDigests := @Digest.Sized.mk knownDigests fun _ => toBytes_length _ _

theorem btcAlphabet_isValid : Base58String.isValidAlphabet Base58String.btcAlphabet := by decide

attribute [local instance] knownDigests knownDigests_sized in
theorem base58_bijective_sample :
    base58CheckDecoding Base58String.btcAlphabet "TMVQGm1qAQYVdetCeGRRkTWYYrLXuHK2HC".toList =
      some (toBytes 21 0x417e5f4552091a69125d5dfcb7b8c2659029395bdf) := by
  have hencode : base58CheckEncoding Base58String.btcAlphabet (toBytes 21 0x417e5f4552091a69125d5dfcb7b8c2659029395bdf) =
      "TMVQGm1qAQYVdetCeGRRkTWYYrLXuHK2HC".toList := by decide +kernel
  rw [← hencode]
  exact (base58_bijective btcAlphabet_isValid).2.2.1 _

end TronlinkCore.Wallet
