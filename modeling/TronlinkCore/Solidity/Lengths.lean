import TronlinkCore.Solidity.Members
import TronlinkCore.Solidity.Values
import TronlinkCore.Solidity.Writing

namespace TronlinkCore.Solidity

open Outcome MachineInt BigEndian HeadTail

section

variable [Host]

mutual
def written : ABIValue → List UInt8
  | .uint _ value => wordOf value
  | .int _ value => wordOf (ofInt 32 value)
  | .address address => List.replicate 12 0 ++ (Abi.evmAddress20 address.bytes).getD []
  | .bool value => wordOf (if value then 1 else 0)
  | .fixed _ _ value => wordOf (ofInt 32 value)
  | .ufixed _ _ value => wordOf value
  | .bytes bytes => bytes.bytes ++ List.replicate (32 - bytes.bytes.length) 0
  | .function name parameters values =>
    (Host.hash (Text.utf8 (ABIType.description (.function name parameters)))).take 4 ++ assemble (parts values)
  | .array _ values => assemble (parts values)
  | .dynamicBytes bytes => wordOf bytes.bytes.length ++ padded bytes.bytes
  | .string string => wordOf (Text.utf8 string).length ++ padded (Text.utf8 string)
  | .dynamicArray _ values => wordOf values.length ++ assemble (parts values)
  | .tuple values => assemble (parts values)

def parts : List ABIValue → List (Bool × List UInt8)
  | [] => []
  | value :: values => (!value.isDynamic, written value) :: parts values
end

theorem parts_append (values more : List ABIValue) : parts (values ++ more) = parts values ++ parts more := by
  induction values with
  | nil => rfl
  | cons value values ih => rw [List.cons_append, parts, parts, ih, List.cons_append]

structure Appended (value : ABIValue) (bytes : List UInt8) : Prop where
  length : value.length = ok bytes.length
  encode : ∀ data out, encodeOf value data = ok out → out.bytes = data.bytes ++ bytes

theorem Appended.word {value : ABIValue} {word : List UInt8} (hlength : value.length = ok 32) (hword : word.length = 32)
    (h : ∀ data out, encodeOf value data = ok out → out.bytes = data.bytes ++ word) : Appended value word :=
  ⟨by rw [hlength, hword], h⟩

theorem laid_parts {values : List ABIValue} (h : ∀ value ∈ values, Appended value (written value)) :
    List.Forall₂ Laid values (parts values) := by
  induction values with
  | nil => exact .nil
  | cons value values ih =>
    obtain ⟨hvalue, hvalues⟩ := List.forall_mem_cons.mp h
    refine .cons ⟨(Bool.not_not _).symm, ?_, hvalue.encode⟩ (ih hvalues)
    intro n hn
    rw [hvalue.length, ok.injEq] at hn
    exact hn.symm

theorem tupleLength_parts {values : List ABIValue} (h : ∀ value ∈ values, Appended value (written value)) {sum : ℕ}
    (hmax : sum + (assemble (parts values)).length ≤ intMax) :
    ABIValue.tupleLength values sum = ok (sum + (assemble (parts values)).length) := by
  rw [assemble_length] at hmax ⊢
  induction values generalizing sum with
  | nil => rfl
  | cons value values ih =>
    obtain ⟨hvalue, hvalues⟩ := List.forall_mem_cons.mp h
    rw [ABIValue.tupleLength, hvalue.length]
    rw [parts, headLength, tails] at hmax ⊢
    cases hdynamic : value.isDynamic with
    | true =>
      simp only [hdynamic, Bool.not_true, Bool.false_eq_true, if_true, if_false, List.length_append] at hmax ⊢
      rw [addInt_of_le (by omega), ok_bind, ok_bind, addInt_of_le (by omega), ok_bind, ih hvalues (by omega)]
      congr 1
      omega
    | false =>
      simp only [hdynamic, Bool.not_false, Bool.false_eq_true, if_true, if_false] at hmax ⊢
      rw [addInt_of_le (by omega), ok_bind, ok_bind, addInt_of_le (by omega), ok_bind, ih hvalues (by omega)]
      congr 1
      omega

theorem tupleLength_of_encodeTuple {values : List ABIValue} (h : ∀ value ∈ values, Appended value (written value))
    {data out : Data} (hout : encodeTuple values data = ok out) :
    ABIValue.tupleLength values 0 = ok (assemble (parts values)).length ∧
      data.bytes.length + (assemble (parts values)).length ≤ intMax := by
  have hbytes := encodeTuple_eq_ok (laid_parts h) hout
  have hmax := out.count_le
  rw [hbytes, List.length_append] at hmax
  refine ⟨?_, hmax⟩
  rw [tupleLength_parts h (by omega), Nat.zero_add]

theorem encodeSignature_eq_ok {signature : Text} {data out : Data} (h : encodeSignature signature data = ok out) :
    4 ≤ (Host.hash (Text.utf8 signature)).length ∧
      out.bytes = data.bytes ++ (Host.hash (Text.utf8 signature)).take 4 := by
  simp only [encodeSignature, bind_eq_ok, Data.ofBytes_eq_ok, check_eq_ok, exists_const] at h
  obtain ⟨bytes, hbytes, hhash, h⟩ := h
  rw [hbytes] at hhash h
  exact ⟨hhash, append_eq_ok h⟩

omit [Host] in
theorem paddedCount_of_le {n : ℕ} (h : 32 + (n + padding n) ≤ intMax) :
    (do let padded ← ABIValue.paddedCount n; addInt 32 padded) = ok (32 + (n + padding n)) := by
  have hpadded : ABIValue.paddedCount n = ok (n + padding n) := by
    rw [ABIValue.paddedCount, addInt_of_le (by unfold padding at h; omega), ok_bind]
    congr 1
    unfold padding
    omega
  rw [hpadded, ok_bind, addInt_of_le h]

theorem appended_payload {value : ABIValue} {bytes : List UInt8}
    (hlength : value.length = do let padded ← ABIValue.paddedCount bytes.length; addInt 32 padded)
    (h : ∀ data out, encodeOf value data = ok out → out.bytes = data.bytes ++ (wordOf bytes.length ++ padded bytes))
    {data out : Data} (hout : encodeOf value data = ok out) : Appended value (wordOf bytes.length ++ padded bytes) := by
  refine ⟨?_, h⟩
  have hmax := out.count_le
  rw [h data out hout, List.length_append, List.length_append, wordOf_length, padded_length] at hmax
  rw [hlength, paddedCount_of_le (by omega), List.length_append, wordOf_length, padded_length]

theorem appended_tuple {value : ABIValue} {values : List ABIValue} (front : List UInt8)
    (ih : ∀ v ∈ values, v.validate = ok () → ∀ {data out : Data}, encodeOf v data = ok out → Appended v (written v))
    (hlength : ∀ n, ABIValue.tupleLength values 0 = ok n → front.length + n ≤ intMax →
      value.length = ok (front.length + n))
    (h : ∀ data out, encodeOf value data = ok out → ∃ d : Data, d.bytes = data.bytes ++ front ∧
      encodeTuple values d = ok out)
    {data out : Data} (hout : encodeOf value data = ok out) : Appended value (front ++ assemble (parts values)) := by
  obtain ⟨d, hfront, htuple⟩ := h data out hout
  have hmembers : ∀ v ∈ values, Appended v (written v) := by
    intro v hv
    obtain ⟨hvalid, data, out, hout⟩ := member_encoded htuple hv
    exact ih v hv hvalid hout
  constructor
  · obtain ⟨hcount, hmax⟩ := tupleLength_of_encodeTuple hmembers htuple
    rw [hfront, List.length_append] at hmax
    rw [hlength _ hcount (by omega), List.length_append]
  · intro data out hout
    obtain ⟨d, hfront, htuple⟩ := h data out hout
    rw [encodeTuple_eq_ok (laid_parts hmembers) htuple, hfront, List.append_assoc]

theorem appended_of_encodeOf {value : ABIValue} (hvalid : value.validate = ok ()) {data out : Data}
    (h : encodeOf value data = ok out) : Appended value (written value) := by
  induction value using ABIValue.induct generalizing data out with
  | uint | ufixed => exact .word rfl (wordOf_length _) fun _ _ h => (encodeBigUInt_eq_ok h).2
  | int | fixed => exact .word rfl (wordOf_length _) fun _ _ h => encodeBigInt_eq_ok h
  | bool => exact .word rfl (wordOf_length _) fun _ _ h => encodeBool_eq_ok h
  | address address =>
    obtain ⟨a, ha, _⟩ := encodeAddress_eq_ok h
    refine .word rfl ?_ ?_
    · rw [written, ha, Option.getD_some, List.length_append, List.length_replicate, Abi.evmAddress20_length ha]
    · intro data out h
      obtain ⟨b, hb, hout⟩ := encodeAddress_eq_ok h
      rw [hout, written, hb, Option.getD_some]
  | bytes bytes =>
    obtain ⟨⟨hpos, hle⟩, _⟩ := encodeBytes_static_eq_ok h
    refine .word ?_ ?_ fun _ _ h => (encodeBytes_static_eq_ok h).2
    · rw [ABIValue.length, ABIValue.paddedCount, addInt_of_le (by unfold intMax; omega), ok_bind]
      congr 1
      omega
    · rw [written, List.length_append, List.length_replicate]
      omega
  | function name parameters values ih =>
    have hhash : ∀ data out, encodeOf (.function name parameters values) data = ok out → ∃ d : Data,
        4 ≤ (Host.hash (Text.utf8 (ABIType.description (.function name parameters)))).length ∧
        d.bytes = data.bytes ++ (Host.hash (Text.utf8 (ABIType.description (.function name parameters)))).take 4 ∧
        encodeTuple values d = ok out := by
      intro data out hout
      rw [encodeOf] at hout
      obtain ⟨d, hsignature, htuple⟩ := bind_eq_ok.mp hout
      obtain ⟨hfour, hd⟩ := encodeSignature_eq_ok hsignature
      exact ⟨d, hfour, hd, htuple⟩
    obtain ⟨_, hfour, _⟩ := hhash data out h
    apply appended_tuple _ ih _ _ h
    · intro n hn hmax
      rw [List.length_take, Nat.min_eq_left hfour] at hmax ⊢
      rw [ABIValue.length, hn, ok_bind, addInt_of_le hmax]
    · intro data out hout
      obtain ⟨d, _, hd⟩ := hhash data out hout
      exact ⟨d, hd⟩
  | array type values ih | tuple values ih =>
    apply appended_tuple [] ih _ _ h
    · intro n hn _
      rw [ABIValue.length, hn, List.length_nil, Nat.zero_add]
    · exact fun data out hout => ⟨data, (List.append_nil _).symm, hout⟩
  | dynamicBytes bytes => exact appended_payload rfl (fun _ _ h => encodeBytes_dynamic_eq_ok h) h
  | string string =>
    have hfits : ∃ bytes : Data, Data.ofBytes (Text.utf8 string) = ok bytes ∧ bytes.bytes = Text.utf8 string := by
      simp only [encodeOf, encodeString, bind_eq_ok] at h
      obtain ⟨bytes, hbytes, _⟩ := h
      exact ⟨bytes, hbytes, Data.ofBytes_eq_ok.mp hbytes⟩
    obtain ⟨bytes, hbytes, htext⟩ := hfits
    apply appended_payload _ _ h
    · rw [ABIValue.length, hbytes, ok_bind, htext]
    · intro data out hout
      exact encodeString_eq_ok hout
  | dynamicArray type values ih =>
    rw [ABIValue.validate] at hvalid
    obtain ⟨_, hcount, _⟩ := bind_eq_ok.mp hvalid
    have hword : values.length < 2 ^ 256 := Nat.lt_of_le_of_lt (check_eq_ok.mp hcount) (by norm_num [intMax])
    apply appended_tuple _ ih _ _ h
    · intro n hn hmax
      rw [wordOf_length] at hmax ⊢
      rw [ABIValue.length, hn, ok_bind, addInt_of_le hmax]
    · intro data out hout
      rw [encodeOf] at hout
      obtain ⟨d, hd, htuple⟩ := bind_eq_ok.mp hout
      exact ⟨d, encodeInt_eq_ok hd hword, htuple⟩

theorem members_appended {values : List ABIValue} {data out : Data} (h : encodeTuple values data = ok out) :
    ∀ value ∈ values, Appended value (written value) := by
  intro value hvalue
  obtain ⟨hvalid, data, out, hout⟩ := member_encoded h hvalue
  exact appended_of_encodeOf hvalid hout

theorem headSize_parts {values : List ABIValue} (hvalid : ∀ value ∈ values, value.validate = ok ())
    (h : ∀ value ∈ values, Appended value (written value)) {size : ℕ}
    (hmax : size + headLength (parts values) ≤ intMax) : headSize values size = ok (size + headLength (parts values)) := by
  induction values generalizing size with
  | nil => rfl
  | cons value values ih =>
    obtain ⟨hvalue, hvalues⟩ := List.forall_mem_cons.mp h
    obtain ⟨hfirst, hrest⟩ := List.forall_mem_cons.mp hvalid
    rw [headSize, hfirst, ok_bind, hvalue.length]
    rw [parts, headLength] at hmax ⊢
    cases hdynamic : value.isDynamic with
    | true =>
      simp only [hdynamic, Bool.not_true, Bool.false_eq_true, if_true, if_false] at hmax ⊢
      rw [ok_bind, addInt_of_le (by omega), ok_bind, ih hrest hvalues (by omega), Nat.add_assoc]
    | false =>
      simp only [hdynamic, Bool.not_false, Bool.false_eq_true, if_true, if_false] at hmax ⊢
      rw [ok_bind, addInt_of_le (by omega), ok_bind, ih hrest hvalues (by omega), Nat.add_assoc]

theorem encodeOf_of_encode {value : ABIValue} {data out : Data} (h : encode value data = ok out) :
    value.validate = ok () ∧ encodeOf value data = ok out := by
  obtain ⟨_, hvalid, hout⟩ := bind_eq_ok.mp h
  exact ⟨hvalid, hout⟩

theorem lengths_agree :
    (∀ value data out, value.validate = ok () → encode value data = ok out →
      value.length = ok (written value).length ∧ out.bytes = data.bytes ++ written value) ∧
    (∀ values data out, encodeTuple values data = ok out →
      (∀ value ∈ values, value.length = ok (written value).length ∧
        ∀ data out, encode value data = ok out → out.bytes = data.bytes ++ written value) ∧
      ∀ before value after, values = before ++ value :: after → value.isDynamic = true →
        ∃ front word back, headSize before 0 = ok front.length ∧ word.length = 32 ∧
          headSize after 0 = ok back.length ∧
          out.bytes = data.bytes ++ ((front ++ word ++ back ++ tails (parts before)) ++ written value ++
            tails (parts after)) ∧
          ofBytes word = (front ++ word ++ back ++ tails (parts before)).length) ∧
    (∀ value data out, ABIEncoder.encode value data = (.ok (), out) → encode value data = ok out) ∧
    ∀ values data out, ABIEncoder.encodeTuple values data = (.ok (), out) → encodeTuple values data = ok out := by
  refine ⟨?_, ?_, fun value _ _ => (encode_passes value).of_run, fun values _ _ => (encodeTuple_passes values).of_run⟩
  · intro value data out hvalid h
    have happended := appended_of_encodeOf hvalid (encodeOf_of_encode h).2
    exact ⟨happended.length, happended.encode data out (encodeOf_of_encode h).2⟩
  · intro values data out h
    have hmembers := members_appended h
    refine ⟨fun value hvalue => ⟨(hmembers value hvalue).length, ?_⟩, ?_⟩
    · intro data out h
      exact (hmembers value hvalue).encode data out (encodeOf_of_encode h).2
    intro before value after hvalues hdynamic
    have hout := encodeTuple_eq_ok (laid_parts hmembers) h
    have hmax := out.count_le
    have hvalid : ∀ v ∈ values, v.validate = ok () := fun v hv => (member_encoded h hv).1
    obtain ⟨front, back, hfront, hback, hassemble⟩ := assemble_dynamic (parts before) (parts after) (written value)
    rw [hvalues, parts_append, parts, hdynamic, Bool.not_true, hassemble] at hout
    rw [hout] at hmax
    simp only [List.length_append, wordOf_length] at hmax
    have hbefore : ∀ v ∈ before, v ∈ values := fun v hv => hvalues ▸ List.mem_append_left _ hv
    have hafter : ∀ v ∈ after, v ∈ values :=
      fun v hv => hvalues ▸ List.mem_append_right _ (List.mem_cons_of_mem _ hv)
    refine ⟨front, _, back, ?_, wordOf_length _, ?_, hout, ?_⟩
    · rw [headSize_parts (fun v hv => hvalid v (hbefore v hv)) (fun v hv => hmembers v (hbefore v hv)) (by omega),
        hfront, Nat.zero_add]
    · rw [headSize_parts (fun v hv => hvalid v (hafter v hv)) (fun v hv => hmembers v (hafter v hv)) (by omega),
        hback, Nat.zero_add]
    · have hfits : FitsWord (headLength (parts before) + 32 + headLength (parts after) + (tails (parts before)).length) :=
        Nat.lt_of_le_of_lt (by omega : _ ≤ intMax) (by norm_num [intMax])
      rw [ofBytes_wordOf hfits]
      simp only [List.length_append, wordOf_length, hfront, hback]

end

def sampleCall : ABIValue := .function "f".toList [.string] [.string "hi".toList]

def sampleCalls : ABIValue := .dynamicArray (.function "f".toList [.string]) [sampleCall]

-- `(42, [f("hi")])`: the call in the array takes four bytes more than its arguments.
attribute [local instance] plainHost in
theorem lengths_agree_sample :
    (∃ out, encode (.tuple [.uint 8 42, sampleCalls]) noData = ok out ∧
      (ABIValue.tuple [.uint 8 42, sampleCalls]).length = ok out.bytes.length) ∧
    ∃ out front word, encodeTuple [.uint 8 42, sampleCalls] noData = ok out ∧
      out.bytes = front ++ word ++ written sampleCalls ∧ front.length = 32 ∧ ofBytes word = 64 := by
  obtain ⟨hvalue, htuple, _, _⟩ := lengths_agree
  have hencoded : (encode (.tuple [.uint 8 42, sampleCalls]) noData).toOption.isSome := by decide +kernel
  have hwritten : (encodeTuple [.uint 8 42, sampleCalls] noData).toOption.isSome := by decide +kernel
  constructor
  · obtain ⟨out, hout⟩ := Option.isSome_iff_exists.mp hencoded
    rw [toOption_eq_some] at hout
    obtain ⟨hlength, hbytes⟩ := hvalue _ _ _ (by decide +kernel) hout
    refine ⟨out, hout, ?_⟩
    rw [hlength, hbytes]
    rfl
  · obtain ⟨out, hout⟩ := Option.isSome_iff_exists.mp hwritten
    rw [toOption_eq_some] at hout
    obtain ⟨front, word, back, hfront, hword, hback, hbytes, hoffset⟩ :=
      (htuple _ _ _ hout).2 [.uint 8 42] sampleCalls [] rfl rfl
    obtain rfl : back = [] := List.length_eq_zero_iff.mp (ok.inj hback).symm
    have hfront : front.length = 32 := (ok.inj hfront).symm
    have hbefore : tails (parts [.uint 8 42]) = [] := rfl
    have hafter : tails (parts []) = [] := rfl
    rw [hbefore, hafter] at hbytes
    rw [hbefore] at hoffset
    refine ⟨out, front, word, hout, ?_, hfront, ?_⟩
    · simpa [noData] using hbytes
    · simp [hoffset, hfront, hword]

end TronlinkCore.Solidity
