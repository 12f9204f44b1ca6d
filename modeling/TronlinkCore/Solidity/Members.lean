import TronlinkCore.Solidity.Words

/-!
The two loops over the members of a tuple, for any bytes that each member is
known to append.
-/

namespace TronlinkCore.Solidity

open Outcome MachineInt HeadTail

section

variable [Host]

theorem encoded_of_mem {headSize offset : ℕ} {vs : List ABIValue} {head tail heads tails : Data}
    (hh : encodeHeads headSize vs offset head = ok heads) (ht : encodeTails vs tail = ok tails) {v : ABIValue}
    (hv : v ∈ vs) : v.validate = ok () ∧ ∃ data out, encodeOf v data = ok out := by
  induction vs generalizing offset head tail with
  | nil => simp at hv
  | cons w vs ih =>
    rw [encodeHeads] at hh
    rw [encodeTails] at ht
    cases hdyn : w.isDynamic with
    | true =>
      simp only [hdyn, if_true, bind_eq_ok] at hh ht
      obtain ⟨_, _, d, _, _, _, _, _, hh⟩ := hh
      obtain ⟨_, hval, out, hout, ht⟩ := ht
      rcases List.mem_cons.mp hv with rfl | hv
      · exact ⟨hval, tail, out, hout⟩
      · exact ih hh ht hv
    | false =>
      simp only [hdyn, Bool.false_eq_true, if_false, bind_eq_ok] at hh ht
      obtain ⟨_, hval, out, hout, hh⟩ := hh
      rcases List.mem_cons.mp hv with rfl | hv
      · exact ⟨hval, head, out, hout⟩
      · exact ih hh ht hv

theorem member_encoded {vs : List ABIValue} {data out : Data} (h : encodeTuple vs data = ok out) {v : ABIValue}
    (hv : v ∈ vs) : v.validate = ok () ∧ ∃ data out, encodeOf v data = ok out := by
  simp only [encodeTuple, encodeLoops, bind_eq_ok] at h
  obtain ⟨_, _, d, hd, h⟩ := h
  exact encoded_of_mem hd h hv

structure Laid (v : ABIValue) (part : Bool × List UInt8) : Prop where
  static : v.isDynamic = !part.1
  length : ∀ n, v.length = ok n → n = part.2.length
  encode : ∀ data out, encodeOf v data = ok out → out.bytes = data.bytes ++ part.2

variable {vs : List ABIValue} {parts : List (Bool × List UInt8)}

theorem headSize_eq_ok (h : List.Forall₂ Laid vs parts) {size n : ℕ} (hs : headSize vs size = ok n) :
    n = size + headLength parts := by
  induction h generalizing size with
  | nil =>
    simp only [headSize, ok.injEq] at hs
    rw [← hs]
    rfl
  | @cons v part vs parts hx hxs ih =>
    obtain ⟨static, bytes⟩ := part
    simp only [headSize, bind_eq_ok, addInt_eq_ok] at hs
    obtain ⟨_, _, width, hw, _, ⟨_, rfl⟩, hs⟩ := hs
    rw [ih hs, headLength, ← Nat.add_assoc]
    congr 2
    rw [hx.static] at hw
    cases static with
    | true => exact hx.length width hw
    | false =>
      simp only [Bool.not_false, if_true, ok.injEq] at hw
      exact hw.symm

theorem tupleLength_eq_ok (h : List.Forall₂ Laid vs parts) {sum n : ℕ} (hs : ABIValue.tupleLength vs sum = ok n) :
    n = sum + (assemble parts).length := by
  rw [assemble_length]
  induction h generalizing sum with
  | nil =>
    simp only [ABIValue.tupleLength, ok.injEq] at hs
    rw [← hs]
    rfl
  | @cons v part vs parts hx hxs ih =>
    obtain ⟨static, bytes⟩ := part
    simp only [ABIValue.tupleLength, bind_eq_ok, addInt_eq_ok] at hs
    obtain ⟨_, ⟨_, rfl⟩, length, hl, _, ⟨_, rfl⟩, hs⟩ := hs
    rw [ih hs, hx.length length hl, hx.static]
    cases static with
    | true =>
      simp only [headLength, tails, Bool.not_true, Bool.false_eq_true, if_true, if_false]
      omega
    | false =>
      simp only [headLength, tails, Bool.not_false, Bool.false_eq_true, if_true, if_false, List.length_append]
      omega

theorem encodeHeads_eq_ok (h : List.Forall₂ Laid vs parts) {headSize offset : ℕ} {data out : Data}
    (hs : encodeHeads headSize vs offset data = ok out) :
    out.bytes = data.bytes ++ heads (headSize + offset) parts := by
  induction h generalizing offset data with
  | nil =>
    simp only [encodeHeads, ok.injEq] at hs
    rw [← hs]
    exact (List.append_nil data.bytes).symm
  | @cons v part vs parts hx hxs ih =>
    obtain ⟨static, bytes⟩ := part
    rw [encodeHeads, hx.static] at hs
    rw [heads]
    cases static with
    | true =>
      simp only [Bool.not_true, Bool.false_eq_true, if_false, bind_eq_ok] at hs
      obtain ⟨_, _, d, hd, hs⟩ := hs
      rw [ih hs, hx.encode data d hd, if_pos rfl, List.append_assoc]
    | false =>
      simp only [Bool.not_false, if_true, bind_eq_ok, addInt_eq_ok] at hs
      obtain ⟨_, ⟨hoff, rfl⟩, d, hd, length, hl, _, ⟨_, rfl⟩, hs⟩ := hs
      have hlt : headSize + offset < 2 ^ 256 := Nat.lt_of_le_of_lt hoff (by norm_num [intMax])
      rw [ih hs, encodeInt_eq_ok hd hlt, hx.length length hl, if_neg (by decide), List.append_assoc, Nat.add_assoc]

theorem encodeTails_eq_ok (h : List.Forall₂ Laid vs parts) {data out : Data} (hs : encodeTails vs data = ok out) :
    out.bytes = data.bytes ++ tails parts := by
  induction h generalizing data with
  | nil =>
    simp only [encodeTails, ok.injEq] at hs
    rw [← hs]
    exact (List.append_nil data.bytes).symm
  | @cons v part vs parts hx hxs ih =>
    obtain ⟨static, bytes⟩ := part
    rw [encodeTails, hx.static] at hs
    rw [tails]
    cases static with
    | true =>
      simp only [Bool.not_true, Bool.false_eq_true, if_false] at hs
      rw [ih hs, if_pos rfl]
    | false =>
      simp only [Bool.not_false, if_true, bind_eq_ok] at hs
      obtain ⟨_, _, d, hd, hs⟩ := hs
      rw [ih hs, hx.encode data d hd, if_neg (by decide), List.append_assoc]

theorem encodeTuple_eq_ok (h : List.Forall₂ Laid vs parts) {data out : Data} (hs : encodeTuple vs data = ok out) :
    out.bytes = data.bytes ++ assemble parts := by
  simp only [encodeTuple, encodeLoops, bind_eq_ok] at hs
  obtain ⟨size, hsize, d, hd, hs⟩ := hs
  rw [encodeTails_eq_ok h hs, encodeHeads_eq_ok h hd, headSize_eq_ok h hsize, Nat.zero_add, Nat.add_zero,
    List.append_assoc, assemble]

end

end TronlinkCore.Solidity
