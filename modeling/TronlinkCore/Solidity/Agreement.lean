import TronlinkCore.Abi.EncodingSpec
import TronlinkCore.Solidity.Correspondence
import TronlinkCore.Solidity.Members

/-!
`ABIEncoder` appends the bytes that `ABIv2Encoder` returns: both write the wire
form of the same tree of words.
-/

namespace TronlinkCore.Solidity

open Outcome MachineInt BigEndian HeadTail
open Abi (ParameterType AnyObject FixedPoint treeOf treesOf encodeWord InRange)
open Abi.ParameterType (skeletons)
open ABIType (parameterTypes)
open ABIValue (types objects)

theorem bits_range {bits : Int64} (h : 8 ≤ bits ∧ bits ≤ 256) :
    bits.toUInt64.toNat = bits.toInt.toNat ∧ 0 < bits.toUInt64 ∧ bits.toUInt64 ≤ 256 := by
  have hnat : bits.toUInt64.toNat = bits.toInt.toNat :=
    Int64.toNat_toUInt64_of_le (Int64.le_trans (by decide) h.1)
  have h8 : (8 : ℤ) ≤ bits.toInt := Int64.le_iff_toInt_le.mp h.1
  have h256 : bits.toInt ≤ (256 : ℤ) := Int64.le_iff_toInt_le.mp h.2
  have hpos : (0 : UInt64).toNat < bits.toUInt64.toNat := by
    rw [hnat, UInt64.toNat_zero]
    omega
  have hle : bits.toUInt64.toNat ≤ (256 : UInt64).toNat := by
    rw [hnat, show (256 : UInt64).toNat = 256 from rfl]
    omega
  exact ⟨hnat, UInt64.lt_iff_toNat_lt.mpr hpos, UInt64.le_iff_toNat_le.mpr hle⟩

section

variable [Graphemes]

theorem uint_word {bits : UInt64} {value : ℕ} (hb : bits ≤ 256) (hv : value < 2 ^ bits.toNat) :
    encodeWord (.uint bits) (.bigUInt value) = some (wordOf value) := by
  have hle : bits.toNat ≤ 256 := UInt64.le_iff_toNat_le.mp hb
  have hlt : value < 2 ^ 256 := Nat.lt_of_lt_of_le hv (Nat.pow_le_pow_right (by decide) hle)
  have hw : Abi.unsignedWord value = some (wordOf value) := Abi.unsignedWord_eq_some.mpr ⟨hlt, rfl⟩
  have hbw : bitWidth value ≤ 256 := bitWidth_le_iff.mpr hlt
  have hi : Abi.integerForEncoding (.bigUInt value) = some (value : ℤ) := by
    simp [Abi.integerForEncoding, Abi.convertToBigInt, hbw]
  simp [encodeWord, hi, hv, hw]

theorem int_word {bits : UInt64} {value : ℤ} (hb : 0 < bits ∧ bits ≤ 256) (hv : InRange bits value) :
    encodeWord (.int bits) (.bigInt value) = some (wordOf (ofInt 32 value)) := by
  have hi : Abi.integerForEncoding (.bigInt value) = some value := by
    simp [Abi.integerForEncoding, Abi.convertToBigInt, hv.bitWidth_le hb]
  simp [encodeWord, hi, (Abi.signedWord_eq_some hb).mpr ⟨hv, rfl⟩]

theorem fixedPoint_object {value : ℤ} {scale : Int64} (hs : 1 ≤ scale ∧ scale ≤ 80)
    (hv : bitWidth value.natAbs ≤ 256) :
    ∃ p : FixedPoint, p.scaledValue = value ∧
      Abi.fixedPoint (fixedPointObject value scale) scale.toUInt64 = some p := by
  have hnat : scale.toUInt64.toNat = scale.toInt.toNat :=
    Int64.toNat_toUInt64_of_le (Int64.le_trans (by decide) hs.1)
  have h1 : (1 : ℤ) ≤ scale.toInt := Int64.le_iff_toInt_le.mp hs.1
  have h80 : scale.toInt ≤ (80 : ℤ) := Int64.le_iff_toInt_le.mp hs.2
  have hl : (1 : UInt64) ≤ scale.toUInt64 := by
    rw [UInt64.le_iff_toNat_le, hnat, UInt64.toNat_one]
    omega
  have hu : scale.toUInt64 ≤ 80 := by
    rw [UInt64.le_iff_toNat_le, hnat, show (80 : UInt64).toNat = 80 from rfl]
    omega
  have hp : FixedPoint.ofScaled value scale.toUInt64 = some ⟨value, scale.toUInt64, ⟨hl, hu⟩, hv⟩ :=
    FixedPoint.ofScaled_eq_some.mpr ⟨rfl, rfl⟩
  refine ⟨⟨value, scale.toUInt64, ⟨hl, hu⟩, hv⟩, rfl, ?_⟩
  rw [fixedPointObject, hp]
  simp [Abi.fixedPoint]

theorem fixed_word {bits : UInt64} {value : ℤ} {scale : Int64} (hb : 0 < bits ∧ bits ≤ 256)
    (hs : 1 ≤ scale ∧ scale ≤ 80) (hv : InRange bits value) :
    encodeWord (.fixed bits scale.toUInt64) (fixedPointObject value scale) = some (wordOf (ofInt 32 value)) := by
  obtain ⟨p, rfl, hp⟩ := fixedPoint_object hs (hv.bitWidth_le hb)
  simp [encodeWord, hp, (Abi.signedWord_eq_some hb).mpr ⟨hv, rfl⟩]

theorem ufixed_word {bits : UInt64} {value : ℕ} {scale : Int64} (hb : bits ≤ 256)
    (hs : 1 ≤ scale ∧ scale ≤ 80) (hv : value < 2 ^ bits.toNat) :
    encodeWord (.ufixed bits scale.toUInt64) (fixedPointObject value scale) = some (wordOf value) := by
  have hle : bits.toNat ≤ 256 := UInt64.le_iff_toNat_le.mp hb
  have hlt : value < 2 ^ 256 := Nat.lt_of_lt_of_le hv (Nat.pow_le_pow_right (by decide) hle)
  have hw : Abi.unsignedWord value = some (wordOf value) := Abi.unsignedWord_eq_some.mpr ⟨hlt, rfl⟩
  have hbw : bitWidth (value : ℤ).natAbs ≤ 256 := bitWidth_le_iff.mpr hlt
  obtain ⟨p, hpv, hp⟩ := fixedPoint_object hs hbw
  simp [encodeWord, hp, hpv, hv, hw]

theorem bytes_word {count : UInt64} {bytes : List UInt8} (hc : bytes.length ≤ count.toNat) (hb : bytes.length ≤ 32) :
    encodeWord (.bytes count) (.data bytes) = some (bytes ++ List.replicate (32 - bytes.length) 0) := by
  have hw := Abi.rightPaddedWord_eq_some.mpr ⟨hb, rfl⟩
  simp [encodeWord, Abi.convertToData, hc, hw]

end

theorem count_toNat {n : ℕ} (h : n ≤ intMax) : (Int64.ofNat n).toUInt64.toNat = n := by
  rw [Int64.toUInt64_ofNat']
  apply UInt64.toNat_ofNat_of_lt'
  unfold intMax at h
  unfold UInt64.size
  omega

def members (vs : List ABIValue) (xs : List WordTree) : List (Bool × List UInt8) :=
  components (skeletons (parameterTypes (types vs))) xs

theorem members_cons (v : ABIValue) (vs : List ABIValue) (x : WordTree) (xs : List WordTree) :
    members (v :: vs) (x :: xs) =
      (isStatic v.type.parameterType.skeleton, wire v.type.parameterType.skeleton x) :: members vs xs := rfl

theorem length_word {v : ABIValue} (h : v.length = ok 32) (n : ℕ) (hn : v.length = ok n) : n = 32 := by
  rw [h, ok.injEq] at hn
  exact hn.symm

section

variable [Host]

variable [Graphemes]

structure Agrees (v : ABIValue) (x : WordTree) : Prop where
  tree : treeOf v.type.parameterType v.object = some x
  fits : Fits v.type.parameterType.skeleton x
  length : ∀ n, v.length = ok n → n = (wire v.type.parameterType.skeleton x).length
  encode : ∀ data out, encodeOf v data = ok out → out.bytes = data.bytes ++ wire v.type.parameterType.skeleton x

theorem trees_of_members {vs : List ABIValue} {xs : List WordTree} (h : List.Forall₂ Agrees vs xs) :
    treesOf (parameterTypes (types vs)) (objects vs) = some xs ∧
      FitsAll (skeletons (parameterTypes (types vs))) xs := by
  induction h with
  | nil => exact ⟨rfl, trivial⟩
  | cons hx hxs ih =>
    refine ⟨?_, hx.fits, ih.2⟩
    rw [types, parameterTypes, objects]
    exact Abi.treesOf_cons_eq_some.mpr ⟨_, _, _, _, rfl, rfl, hx.tree, ih.1⟩

theorem laid_members {vs : List ABIValue} {xs : List WordTree} (h : List.Forall₂ Agrees vs xs)
    (hf : ABIValue.anyFunction vs = false) : List.Forall₂ Laid vs (members vs xs) := by
  induction h with
  | nil => exact .nil
  | @cons v x vs xs hx hxs ih =>
    obtain ⟨hv, hvs⟩ : v.hasFunction = false ∧ ABIValue.anyFunction vs = false := by
      simpa [ABIValue.anyFunction] using hf
    rw [members_cons]
    exact .cons ⟨v.isDynamic_eq hv, hx.length, hx.encode⟩ (ih hvs)

theorem exists_members {vs : List ABIValue}
    (ih : ∀ v ∈ vs, ∀ data out, v.validate = ok () → encodeOf v data = ok out → ∃ x, Agrees v x)
    {data out : Data} (h : encodeTuple vs data = ok out) : ∃ xs, List.Forall₂ Agrees vs xs := by
  have hall : ∀ v ∈ vs, ∃ x, Agrees v x := by
    intro v hv
    obtain ⟨hval, data, out, hout⟩ := member_encoded h hv
    exact ih v hv data out hval hout
  have : Nonempty WordTree := ⟨.word []⟩
  choose! tree htree using hall
  refine ⟨vs.map tree, ?_⟩
  rw [List.forall₂_map_right_iff, List.forall₂_same]
  exact htree

theorem agrees_word {v : ABIValue} {w : List UInt8} (ht : v.type.parameterType.IsWord)
    (he : encodeWord v.type.parameterType v.object = some w) (hw : w.length = 32)
    (hl : ∀ n, v.length = ok n → n = 32) (hd : ∀ data out, encodeOf v data = ok out → out.bytes = data.bytes ++ w) :
    Agrees v (.word w) where
  tree := by rw [Abi.treeOf_of_isWord ht, he, Option.map_some]
  fits := by
    rw [ParameterType.skeleton_of_isWord ht]
    exact hw
  length n hn := by rw [ParameterType.skeleton_of_isWord ht, wire, hw, hl n hn]
  encode data out h := by
    rw [ParameterType.skeleton_of_isWord ht, wire]
    exact hd data out h

theorem agrees_payload {v : ABIValue} {bs : List UInt8} (ht : v.type.parameterType.IsPayload)
    (he : Abi.payloadBytes v.type.parameterType v.object = some bs)
    (hl : ∀ n, v.length = ok n → ∃ m, ABIValue.paddedCount bs.length = ok m ∧ n = 32 + m)
    (hd : ∀ data out, encodeOf v data = ok out → out.bytes = data.bytes ++ (wordOf bs.length ++ padded bs)) :
    Agrees v (.payload bs) where
  tree := by rw [Abi.treeOf_of_isPayload ht, he, Option.map_some]
  fits := by
    rw [ParameterType.skeleton_of_isPayload ht]
    trivial
  length n hn := by
    obtain ⟨m, hm, rfl⟩ := hl n hn
    rw [ParameterType.skeleton_of_isPayload ht, wire, List.length_append, wordOf_length, padded_length,
      paddedCount_eq_ok hm]
  encode data out h := by
    rw [ParameterType.skeleton_of_isPayload ht, wire]
    exact hd data out h

theorem agrees_bytes {bytes : Data} {data out : Data} (h : encodeOf (.bytes bytes) data = ok out) :
    ∃ x, Agrees (.bytes bytes) x := by
  rw [encodeOf] at h
  obtain ⟨⟨hpos, hle⟩, _⟩ := encodeBytes_static_eq_ok h
  have hcount := count_toNat bytes.count_le
  have hword := bytes_word (Nat.le_of_eq hcount.symm) hle
  refine ⟨_, agrees_word trivial hword ?_ ?_ ?_⟩
  · rw [List.length_append, List.length_replicate]
    omega
  · intro n hn
    rw [ABIValue.length] at hn
    rw [paddedCount_eq_ok hn, padding]
    omega
  · intro data out h
    rw [encodeOf] at h
    exact (encodeBytes_static_eq_ok h).2

theorem agrees_scalar {v : ABIValue} (hf : v.hasFunction = false) (hm : v.type.parameterType.IsWord)
    (hv : v.validate = ok ()) {data out : Data} (h : encodeOf v data = ok out) : ∃ x, Agrees v x := by
  cases v with
  | uint bits value =>
    simp only [ABIValue.validate, ABIType.validate, bind_eq_ok, ensure_eq_ok, exists_const] at hv
    obtain ⟨⟨h8, h256, _⟩, hw⟩ := hv
    obtain ⟨hnat, _, hle⟩ := bits_range ⟨h8, h256⟩
    have hlt : value < 2 ^ bits.toUInt64.toNat := by
      rw [hnat]
      exact bitWidth_le_iff.mp (by omega)
    refine ⟨_, agrees_word trivial (uint_word hle hlt) (wordOf_length _) (length_word rfl) ?_⟩
    intro data out h
    exact (encodeBigUInt_eq_ok h).2
  | int bits value =>
    simp only [ABIValue.validate, ABIType.validate, bind_eq_ok, ensure_eq_ok, exists_const] at hv
    obtain ⟨⟨h8, h256, _⟩, hr⟩ := hv
    obtain ⟨_, hb⟩ := bits_range ⟨h8, h256⟩
    refine ⟨_, agrees_word trivial (int_word hb (validateSignedInteger_eq_ok hr)) (wordOf_length _)
      (length_word rfl) ?_⟩
    intro data out h
    exact encodeBigInt_eq_ok h
  | fixed bits scale value =>
    simp only [ABIValue.validate, ABIType.validate, bind_eq_ok, ensure_eq_ok, exists_const] at hv
    obtain ⟨⟨h8, h256, _, hs⟩, hr⟩ := hv
    obtain ⟨_, hb⟩ := bits_range ⟨h8, h256⟩
    refine ⟨_, agrees_word trivial (fixed_word hb hs (validateSignedInteger_eq_ok hr)) (wordOf_length _)
      (length_word rfl) ?_⟩
    intro data out h
    exact encodeBigInt_eq_ok h
  | ufixed bits scale value =>
    simp only [ABIValue.validate, ABIType.validate, bind_eq_ok, ensure_eq_ok, exists_const] at hv
    obtain ⟨⟨h8, h256, _, hs⟩, hw⟩ := hv
    obtain ⟨hnat, _, hle⟩ := bits_range ⟨h8, h256⟩
    have hlt : value < 2 ^ bits.toUInt64.toNat := by
      rw [hnat]
      exact bitWidth_le_iff.mp (by omega)
    refine ⟨_, agrees_word trivial (ufixed_word hle hs hlt) (wordOf_length _) (length_word rfl) ?_⟩
    intro data out h
    exact (encodeBigUInt_eq_ok h).2
  | address address =>
    obtain ⟨a, ha, _⟩ := encodeAddress_eq_ok h
    have hword : encodeWord .address (.data address.bytes) = some (List.replicate 12 0 ++ a) := by
      simp [encodeWord, Abi.rawAddress, ha]
    refine ⟨_, agrees_word trivial hword ?_ (length_word rfl) ?_⟩
    · rw [List.length_append, List.length_replicate, Abi.evmAddress20_length ha]
    · intro data out h
      obtain ⟨a', ha', hout⟩ := encodeAddress_eq_ok h
      rw [ha, Option.some.injEq] at ha'
      rw [hout, ha']
  | bool value =>
    have hword : encodeWord .bool (.number (if value then 1 else 0)) = some (wordOf (if value then 1 else 0)) := by
      cases value <;> rfl
    refine ⟨_, agrees_word trivial hword (wordOf_length _) (length_word rfl) ?_⟩
    intro data out h
    exact encodeBool_eq_ok h
  | bytes bytes => exact agrees_bytes h
  | function f ts vs => simp [ABIValue.hasFunction] at hf
  | array t vs => exact hm.elim
  | dynamicBytes bytes => exact hm.elim
  | string text => exact hm.elim
  | dynamicArray t vs => exact hm.elim
  | tuple vs => exact hm.elim

theorem agrees_bytesOf {v : ABIValue} {bs : List UInt8} (ht : v.type.parameterType.IsPayload)
    (he : Abi.payloadBytes v.type.parameterType v.object = some bs)
    (hl : v.length = do let padded ← ABIValue.paddedCount bs.length; addInt 32 padded)
    (hd : ∀ data out, encodeOf v data = ok out → out.bytes = data.bytes ++ (wordOf bs.length ++ padded bs)) :
    Agrees v (.payload bs) := by
  apply agrees_payload ht he _ hd
  intro n hn
  simp only [hl, bind_eq_ok, addInt_eq_ok] at hn
  obtain ⟨m, hm, _, rfl⟩ := hn
  exact ⟨m, hm, rfl⟩

theorem array_members {t : ABIType} {vs : List ABIValue} {xs : List WordTree} (h : List.Forall₂ Agrees vs xs)
    (heq : (types vs).all (ABIType.equal · t) = true) :
    (objects vs).mapM (treeOf t.parameterType) = some xs ∧ (∀ x ∈ xs, Fits t.parameterType.skeleton x) ∧
      members vs xs = xs.map fun x => (isStatic t.parameterType.skeleton, wire t.parameterType.skeleton x) := by
  have htypes := ABIValue.parameterTypes_of_equal heq
  have hlen := h.length_eq
  obtain ⟨htree, hfit⟩ := trees_of_members h
  have hskel : skeletons (parameterTypes (types vs)) = List.replicate xs.length t.parameterType.skeleton := by
    rw [htypes, Abi.ParameterType.skeletons_eq_map, List.map_replicate, hlen]
  rw [htypes, ← ABIValue.objects_length, Abi.treesOf_replicate] at htree
  rw [hskel, fitsAll_replicate] at hfit
  refine ⟨htree, hfit, ?_⟩
  rw [members, hskel, components_replicate]

theorem agrees_array {t : ABIType} {vs : List ABIValue} {xs : List WordTree} (h : List.Forall₂ Agrees vs xs)
    (hf : ABIValue.anyFunction vs = false) (heq : (types vs).all (ABIType.equal · t) = true)
    (hn : vs.length ≤ intMax) : Agrees (.array t vs) (.node xs) := by
  obtain ⟨htree, hfit, hmem⟩ := array_members h heq
  have hcount := count_toNat hn
  have hw : wire (ABIValue.array t vs).type.parameterType.skeleton (.node xs) = assemble (members vs xs) := by
    rw [hmem]
    rfl
  refine ⟨?_, ?_, ?_, ?_⟩
  · rw [ABIValue.type, ABIType.parameterType, ABIValue.object, treeOf, htree, hcount, ABIValue.objects_length,
      if_pos rfl]
    rfl
  · rw [ABIValue.type, ABIType.parameterType, ParameterType.skeleton, hcount]
    exact ⟨h.length_eq.symm, hfit⟩
  · intro n hl
    rw [ABIValue.length] at hl
    rw [hw, tupleLength_eq_ok (laid_members h hf) hl, Nat.zero_add]
  · intro data out henc
    rw [hw]
    exact encodeTuple_eq_ok (laid_members h hf) henc

theorem agrees_dynamicArray {t : ABIType} {vs : List ABIValue} {xs : List WordTree}
    (h : List.Forall₂ Agrees vs xs) (hf : ABIValue.anyFunction vs = false)
    (heq : (types vs).all (ABIType.equal · t) = true) (hn : vs.length ≤ intMax) :
    Agrees (.dynamicArray t vs) (.node xs) := by
  obtain ⟨htree, hfit, hmem⟩ := array_members h heq
  have hlen := h.length_eq
  have hlt : vs.length < 2 ^ 256 := Nat.lt_of_le_of_lt hn (by norm_num [intMax])
  have hword : FitsWord vs.length := Abi.fitsWord_iff.mpr hlt
  have hw : wire (ABIValue.dynamicArray t vs).type.parameterType.skeleton (.node xs) =
      wordOf vs.length ++ assemble (members vs xs) := by
    rw [hmem, hlen]
    rfl
  refine ⟨?_, ?_, ?_, ?_⟩
  · simp only [ABIValue.type, ABIType.parameterType, ABIValue.object, treeOf, htree, ABIValue.objects_length, hword,
      if_true, Option.map_some]
  · rw [ABIValue.type, ABIType.parameterType, ParameterType.skeleton, if_pos rfl]
    exact ⟨hlen ▸ hword, hfit⟩
  · intro n hl
    simp only [ABIValue.length, bind_eq_ok, addInt_eq_ok] at hl
    obtain ⟨m, hm, _, rfl⟩ := hl
    rw [hw, tupleLength_eq_ok (laid_members h hf) hm, List.length_append, wordOf_length, Nat.zero_add]
  · intro data out henc
    simp only [encodeOf, bind_eq_ok] at henc
    obtain ⟨d, hd, henc⟩ := henc
    rw [hw, encodeTuple_eq_ok (laid_members h hf) henc, encodeInt_eq_ok hd hlt, List.append_assoc]

theorem agrees_tuple {vs : List ABIValue} {xs : List WordTree} (h : List.Forall₂ Agrees vs xs)
    (hf : ABIValue.anyFunction vs = false) : Agrees (.tuple vs) (.node xs) := by
  obtain ⟨htree, hfit⟩ := trees_of_members h
  have hw : wire (ABIValue.tuple vs).type.parameterType.skeleton (.node xs) = assemble (members vs xs) := rfl
  refine ⟨?_, hfit, ?_, ?_⟩
  · rw [ABIValue.type, ABIType.parameterType, ABIValue.object, treeOf, htree]
    rfl
  · intro n hl
    rw [ABIValue.length] at hl
    rw [hw, tupleLength_eq_ok (laid_members h hf) hl, Nat.zero_add]
  · intro data out henc
    rw [hw]
    exact encodeTuple_eq_ok (laid_members h hf) henc

theorem exists_agrees {v : ABIValue} (hf : v.hasFunction = false) (hv : v.validate = ok ())
    {data out : Data} (h : encodeOf v data = ok out) : ∃ x, Agrees v x := by
  induction v using ABIValue.induct generalizing data out with
  | array t vs ih =>
    obtain ⟨_, hvs⟩ : t.hasDynamicFunction = false ∧ ABIValue.anyFunction vs = false := by
      simpa [ABIValue.hasFunction] using hf
    simp only [ABIValue.validate, bind_eq_ok, check_eq_ok, ensure_eq_ok, exists_const] at hv
    obtain ⟨hn, _, _, heq, _⟩ := hv
    obtain ⟨xs, hxs⟩ := exists_members
      (fun v hmem data out hval henc => ih v hmem (ABIValue.hasFunction_of_mem hvs hmem) hval henc) h
    exact ⟨_, agrees_array hxs hvs heq hn⟩
  | dynamicArray t vs ih =>
    have hvs : ABIValue.anyFunction vs = false := hf
    simp only [ABIValue.validate, bind_eq_ok, check_eq_ok, ensure_eq_ok, exists_const] at hv
    obtain ⟨hn, _, _, heq, _⟩ := hv
    simp only [encodeOf, bind_eq_ok] at h
    obtain ⟨d, _, h⟩ := h
    obtain ⟨xs, hxs⟩ := exists_members
      (fun v hmem data out hval henc => ih v hmem (ABIValue.hasFunction_of_mem hvs hmem) hval henc) h
    exact ⟨_, agrees_dynamicArray hxs hvs heq hn⟩
  | tuple vs ih =>
    have hvs : ABIValue.anyFunction vs = false := hf
    obtain ⟨xs, hxs⟩ := exists_members
      (fun v hmem data out hval henc => ih v hmem (ABIValue.hasFunction_of_mem hvs hmem) hval henc) h
    exact ⟨_, agrees_tuple hxs hvs⟩
  | dynamicBytes bytes =>
    refine ⟨_, agrees_bytesOf trivial rfl rfl ?_⟩
    intro data out h
    exact encodeBytes_dynamic_eq_ok h
  | string text =>
    simp only [encodeOf, encodeString, bind_eq_ok, Data.ofBytes_eq_ok] at h
    obtain ⟨bytes, hb, _⟩ := h
    refine ⟨_, agrees_bytesOf trivial rfl ?_ ?_⟩
    · rw [ABIValue.length, Data.ofBytes_eq_ok.mpr hb, ok_bind, hb]
    · intro data out h
      exact encodeString_eq_ok h
  | function f ts vs ih => simp [ABIValue.hasFunction] at hf
  | uint | int | address | bool | fixed | ufixed | bytes => exact agrees_scalar hf trivial hv h

theorem encoders_agree {arguments : List ABIValue} {data out : Data} {b : List UInt8}
    (hf : ABIValue.anyFunction arguments = false)
    (hl : ∀ t ∈ parameterTypes (types arguments), ∃ nodes r, Abi.layout t 0 nodes = ok r)
    (h : encodeTuple arguments data = ok out) (hb : out.bytes = data.bytes ++ b) :
    ∃ cost, Abi.encodingCost (parameterTypes (types arguments)) (objects arguments) = some cost ∧
      (¬ cost ≤ Abi.Budget.full →
        Abi.encode (parameterTypes (types arguments)) (objects arguments) = exhausted) ∧
      (cost ≤ Abi.Budget.full →
        ∃ e, Abi.encode (parameterTypes (types arguments)) (objects arguments) = ok e ∧ e.bytes = b) := by
  obtain ⟨xs, hxs⟩ := exists_members
    (fun v hmem data out hval henc => exists_agrees (ABIValue.hasFunction_of_mem hf hmem) hval henc) h
  obtain ⟨htree, hfit⟩ := trees_of_members hxs
  have hout := encodeTuple_eq_ok (laid_members hxs hf) h
  have hle : (assemble (members arguments xs)).length ≤ intMax := by
    have hmax := out.count_le
    rw [hout, List.length_append] at hmax
    exact Nat.le_trans (Nat.le_add_left _ _) hmax
  have ha : ∀ t ∈ parameterTypes (types arguments), Abi.Admitted 0 t := by
    intro t ht
    obtain ⟨nodes, r, hr⟩ := hl t ht
    exact Abi.admitted_of_layout hr
  have hassemble : assemble (members arguments xs) = b := List.append_cancel_left (hout.symm.trans hb)
  have hencode := Abi.encode_of_trees ha htree hfit hle
  refine ⟨_, Abi.encodingCost_of_trees htree, ?_, ?_⟩
  · intro hover
    rw [hencode, if_neg hover]
  · intro hfull
    rw [if_pos hfull] at hencode
    exact ⟨_, hencode, hassemble⟩

end

-- `(42, [true], ("hi", -1))`
def sampleArguments : List ABIValue :=
  [.uint 8 42, .dynamicArray .bool [.bool true], .tuple [.string "hi".toList, .fixed 16 2 (-1)]]

def sampleOutput : Data :=
  ⟨wordOf 42 ++ wordOf 96 ++ wordOf 160 ++ (wordOf 1 ++ wordOf 1) ++
    (wordOf 64 ++ wordOf (2 ^ 256 - 1) ++ (wordOf 2 ++ padded [104, 105])), by decide +kernel⟩

theorem encoders_agree_sample :
    ∃ e, @Abi.encode plainText (parameterTypes (types sampleArguments)) (objects sampleArguments) = ok e ∧
      e.bytes = sampleOutput.bytes := by
  have hlayouts : ∀ t ∈ parameterTypes (types sampleArguments), ∃ nodes r, Abi.layout t 0 nodes = ok r := by
    intro t ht
    simp only [sampleArguments, types, ABIValue.type, parameterTypes, ABIType.parameterType, List.mem_cons,
      List.not_mem_nil, or_false] at ht
    rcases ht with rfl | rfl | rfl
    · exact ⟨4, _, rfl⟩
    · exact ⟨4, _, rfl⟩
    · exact ⟨4, _, rfl⟩
  obtain ⟨cost, hcost, _, hencode⟩ := @encoders_agree plainHost plainText sampleArguments noData sampleOutput
    sampleOutput.bytes (by decide) hlayouts (by decide +kernel) rfl
  have hfull : cost ≤ Abi.Budget.full := Abi.Budget.le_full_of_all hcost (by decide +kernel)
  exact hencode hfull

/-- No value of the element type is there, and the newer encoder still asks for the width of its head. -/
def wideElements : ABIValue := .dynamicArray (.array (.uint 256) (2 ^ 60)) []

/-- An offset without a tail for the older encoder, nothing at all for the newer one -/
def noCalls : ABIValue := .array (.function "f".toList [.string]) []

theorem encoders_differ :
    (@encodeTuple plainHost [wideElements] noData = ok ⟨wordOf 32 ++ wordOf 0, by decide +kernel⟩ ∧
      wideElements.type.parameterType.height ≤ Abi.maxDepth ∧
      @Abi.encode plainText [wideElements.type.parameterType] [wideElements.object] = fail) ∧
    @encodeTuple plainHost [noCalls] noData = ok ⟨wordOf 32, by decide +kernel⟩ ∧
      @Abi.encode plainText [noCalls.type.parameterType] [noCalls.object] = ok noData := by
  refine ⟨⟨?_, ?_, ?_⟩, ?_, ?_⟩
  · decide +kernel
  · decide +kernel
  · decide +kernel
  · decide +kernel
  · decide +kernel

end TronlinkCore.Solidity
