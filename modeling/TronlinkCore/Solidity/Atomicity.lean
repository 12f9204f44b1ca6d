import TronlinkCore.Solidity.Arguments
import TronlinkCore.Solidity.Agreement

/-!
What a value writes, piece by piece, up to the first address that has no
20-byte form. All other errors are thrown before the first piece.
-/

namespace TronlinkCore.Solidity

open Outcome MachineInt HeadTail

inductive Mark where
  | bytes (count : ℕ) (positive : 0 < count)
  | signature (text : Text)
  | unusable
  deriving DecidableEq

namespace Mark

def size : Mark → ℕ
  | .bytes count _ => count
  | .signature _ => 4
  | .unusable => 32

def room : Mark → ℕ
  | .signature text => 4 + (Text.utf8 text).length
  | m => m.size

def word : Mark := .bytes 32 (by decide)

end Mark

def total (marks : List Mark) : ℕ := (marks.map Mark.size).sum

def room (marks : List Mark) : ℕ := (marks.map Mark.room).sum

@[simp] theorem total_cons (m : Mark) (marks : List Mark) : total (m :: marks) = m.size + total marks := rfl

@[simp] theorem room_cons (m : Mark) (marks : List Mark) : room (m :: marks) = m.room + room marks := rfl

@[simp] theorem total_append (marks more : List Mark) : total (marks ++ more) = total marks + total more := by
  rw [total, List.map_append, List.sum_append]
  rfl

@[simp] theorem room_append (marks more : List Mark) : room (marks ++ more) = room marks + room more := by
  rw [room, List.map_append, List.sum_append]
  rfl

theorem total_le_room (marks : List Mark) : total marks ≤ room marks := by
  induction marks with
  | nil => exact le_rfl
  | cons m marks ih =>
    have hm : m.size ≤ m.room := by
      cases m with
      | bytes | unusable => exact le_rfl
      | signature text => exact Nat.le_add_right 4 _
    exact Nat.add_le_add hm ih

theorem total_pos {marks : List Mark} (h : marks ≠ []) : 0 < total marks := by
  cases marks with
  | nil => exact absurd rfl h
  | cons m marks =>
    rw [total_cons]
    cases m with
    | bytes count positive => exact Nat.add_pos_left positive _
    | signature => exact Nat.add_pos_left (show 0 < 4 by decide) _
    | unusable => exact Nat.add_pos_left (by decide) _

structure Wrote (marks : List Mark) (data later : Data) : Prop where
  count : later.bytes.length = data.bytes.length + total marks
  nothing : marks = [] → later = data

theorem Wrote.append {marks more : List Mark} {data later last : Data} (h : Wrote marks data later)
    (hmore : Wrote more later last) : Wrote (marks ++ more) data last where
  count := by rw [hmore.count, h.count, total_append, Nat.add_assoc]
  nothing hnil := by
    obtain ⟨hmarks, hmore'⟩ := List.append_eq_nil_iff.mp hnil
    rw [hmore.nothing hmore', h.nothing hmarks]

/-- How an encoding of these pieces ends; `full` is one more reason why it may trap. -/
inductive Ends (full : Prop) (marks : List Mark) (data : Data) : Except (Outcome Empty) Unit × Data → Prop where
  | written {later : Data} (usable : .unusable ∉ marks) (wrote : Wrote marks data later) :
      Ends full marks data (.ok (), later)
  | thrown {later : Data} (before after : List Mark) (split : marks = before ++ .unusable :: after)
      (usable : .unusable ∉ before) (wrote : Wrote before data later) : Ends full marks data (.error .fail, later)
  | trapped {later : Data} (reason : full ∨ intMax < data.bytes.length + room marks) :
      Ends full marks data (.error .trap, later)

def Follows (full : Prop) (marks : List Mark) (x : Writing Unit) : Prop := ∀ data, Ends full marks data (x data)

def Settles {α : Type} (a : Outcome α) (b : α) (bound : ℕ) : Prop := a = ok b ∨ a = trap ∧ intMax < bound

theorem Settles.of_le {α : Type} {a : Outcome α} {b : α} {bound more : ℕ} (h : Settles a b bound) (hle : bound ≤ more) :
    Settles a b more := by
  rcases h with h | ⟨h, hlt⟩
  · exact .inl h
  · exact .inr ⟨h, by omega⟩

theorem Settles.bind {α β : Type} {a : Outcome α} {b : α} {f : α → Outcome β} {c : β} {bound : ℕ}
    (ha : Settles a b bound) (hf : Settles (f b) c bound) : Settles (a >>= f) c bound := by
  rcases ha with rfl | ⟨rfl, hlt⟩
  · exact hf
  · exact .inr ⟨rfl, hlt⟩

theorem settles_addInt (a b : ℕ) : Settles (addInt a b) (a + b) (a + b) := by
  by_cases h : a + b ≤ intMax
  · exact .inl (addInt_of_le h)
  · exact .inr ⟨if_neg h, by omega⟩

theorem settles_paddedCount (n : ℕ) : Settles (ABIValue.paddedCount n) (n + padding n) (n + padding n) := by
  rcases settles_addInt n 31 with h | ⟨h, hlt⟩
  · left
    rw [ABIValue.paddedCount, h]
    refine congrArg ok ?_
    unfold padding
    omega
  · right
    rw [ABIValue.paddedCount, h]
    refine ⟨rfl, ?_⟩
    unfold intMax at hlt ⊢
    unfold padding
    omega

theorem bytes_count {bytes : Data} (h : ABIType.validate (.bytes (Int64.ofNat bytes.bytes.length)) = ok ()) :
    bytes.bytes.length + padding bytes.bytes.length = 32 := by
  have hmax := bytes.count_le
  have hcount : (Int64.ofNat bytes.bytes.length).toInt = bytes.bytes.length :=
    Int64.toInt_ofNat_of_lt (by unfold intMax at hmax; omega)
  have hrange := ensure_eq_ok.mp h
  rw [Int64.le_iff_toInt_le, Int64.le_iff_toInt_le, hcount] at hrange
  have hlow : (1 : ℤ) ≤ bytes.bytes.length := hrange.1
  have hhigh : (bytes.bytes.length : ℤ) ≤ 32 := hrange.2
  unfold padding
  omega

section

variable {full : Prop} {marks more : List Mark} {x y : Writing Unit}

theorem Follows.pure : Follows full [] (pure ()) := fun data => .written (by simp) ⟨rfl, fun _ => rfl⟩

theorem Follows.mono {further : Prop} (hx : Follows full marks x)
    (hfull : ∀ data : Data, full → further ∨ intMax < data.bytes.length + room marks) : Follows further marks x := by
  intro data
  have hends := hx data
  generalize x data = result at hends ⊢
  cases hends with
  | written usable wrote => exact .written usable wrote
  | thrown before after split usable wrote => exact .thrown before after split usable wrote
  | trapped reason => exact .trapped (reason.elim (hfull data) .inr)

theorem Follows.bind (hx : Follows full marks x) (hy : Follows full more y) :
    Follows full (marks ++ more) (x >>= fun _ => y) := by
  intro data
  have hfirst := hx data
  rw [Throwing.bind_run]
  generalize x data = result at hfirst ⊢
  cases hfirst with
  | @written later usable wrote =>
    have hsecond := hy later
    dsimp only
    generalize y later = result at hsecond ⊢
    cases hsecond with
    | written usable' wrote' =>
      refine .written ?_ (wrote.append wrote')
      rw [List.mem_append]
      exact not_or.mpr ⟨usable, usable'⟩
    | thrown before after split usable' wrote' =>
      refine .thrown (marks ++ before) after ?_ ?_ (wrote.append wrote')
      · rw [split, List.append_assoc]
      · rw [List.mem_append]
        exact not_or.mpr ⟨usable, usable'⟩
    | trapped reason =>
      refine .trapped (reason.imp id ?_)
      intro hlt
      have hle := total_le_room marks
      rw [wrote.count] at hlt
      rw [room_append]
      omega
  | thrown before after split usable wrote =>
    refine .thrown before (after ++ more) ?_ usable wrote
    rw [split, List.append_assoc, List.cons_append]
  | trapped reason =>
    refine .trapped (reason.imp id ?_)
    intro hlt
    rw [room_append]
    omega

theorem Follows.call_bind {α : Type} {a : Outcome α} {b : α} {bound : ℕ} {x : α → Writing Unit}
    (ha : Settles a b bound) (hbound : intMax < bound → full ∨ intMax < room marks)
    (hx : a = ok b → Follows full marks (x b)) : Follows full marks (ABIEncoder.call a >>= x) := by
  rcases ha with rfl | ⟨rfl, hlt⟩
  · exact hx rfl
  · intro data
    refine .trapped ((hbound hlt).imp id ?_)
    intro hroom
    omega

theorem Follows.ok_bind {α : Type} {a : Outcome α} {b : α} {x : α → Writing Unit} (ha : a = ok b)
    (hx : Follows full marks (x b)) : Follows full marks (ABIEncoder.call a >>= x) := by
  rw [ha]
  exact hx

end

def AtomicAt (x : Writing Unit) (data : Data) : Prop := ∀ later, x data = (.error .fail, later) → later = data

def Prompt (marks : List Mark) : Prop := .unusable ∉ marks ∨ marks.head? = some .unusable

theorem prompt_signature {signature : Text} {marks : List Mark} :
    Prompt (.signature signature :: marks) ↔ .unusable ∉ marks := by
  simp [Prompt]

theorem Follows.atomicAt {marks : List Mark} {x : Writing Unit} (hx : Follows False marks x) (h : Prompt marks)
    (data : Data) : AtomicAt x data := by
  intro later hrun
  have hends := hx data
  rw [hrun] at hends
  cases hends with
  | thrown before after split usable wrote =>
    apply wrote.nothing
    rcases h with h | h
    · rw [split] at h
      exact absurd (List.mem_append_right before List.mem_cons_self) h
    · cases before with
      | nil => rfl
      | cons m before =>
        rw [split] at h
        cases h
        exact absurd List.mem_cons_self usable

theorem Follows.prompt {marks : List Mark} {x : Writing Unit} (hx : Follows False marks x) {data : Data}
    (hroom : data.bytes.length + room marks ≤ intMax) (h : AtomicAt x data) : Prompt marks := by
  have hends := hx data
  generalize hrun : x data = result at hends
  cases hends with
  | written usable _ => exact .inl usable
  | thrown before after split usable wrote =>
    right
    have hsame := h _ hrun
    have hcount := wrote.count
    rw [hsame] at hcount
    cases before with
    | nil => rw [split, List.nil_append, List.head?_cons]
    | cons m before =>
      have hpos := total_pos (List.cons_ne_nil m before)
      omega
  | trapped reason =>
    rcases reason with hfalse | hlt
    · exact hfalse.elim
    · omega

theorem atomicAt_call {α : Type} {a : Outcome α} {x : α → Writing Unit} {data : Data}
    (h : ∀ b, a = ok b → AtomicAt (x b) data) : AtomicAt (ABIEncoder.call a >>= x) data := by
  cases a with
  | ok b => exact h b rfl
  | fail =>
    intro later hrun
    cases hrun
    rfl
  | exhausted | trap =>
    intro later hrun
    cases hrun

def Appends (count : ℕ) (x : Writing Unit) : Prop := ∀ data,
  (∃ later, x data = (.ok (), later) ∧ later.bytes.length = data.bytes.length + count) ∨
    (∃ later, x data = (.error .trap, later)) ∧ intMax < data.bytes.length + count

theorem Appends.follows {m : Mark} {x : Writing Unit} (h : Appends m.size x) (hm : m ≠ .unusable) :
    Follows False [m] x := by
  intro data
  rcases h data with ⟨later, hx, hlater⟩ | ⟨⟨later, hx⟩, hfull⟩
  · rw [hx]
    exact .written (by simpa using hm.symm) ⟨hlater, by simp⟩
  · rw [hx]
    have hle := total_le_room [m]
    refine .trapped (.inr ?_)
    rw [total_cons] at hle
    omega

theorem Appends.bind {count more : ℕ} {x y : Writing Unit} (hx : Appends count x) (hy : Appends more y) :
    Appends (count + more) (x >>= fun _ => y) := by
  intro data
  rcases hx data with ⟨later, hrun, hlater⟩ | ⟨⟨later, hrun⟩, hfull⟩
  · rw [Throwing.bind_of_ok hrun]
    rcases hy later with ⟨last, hrun', hlast⟩ | ⟨hrun', hfull⟩
    · exact .inl ⟨last, hrun', by omega⟩
    · exact .inr ⟨hrun', by omega⟩
  · exact .inr ⟨⟨later, Throwing.bind_of_error hrun⟩, by omega⟩

theorem Appends.call_bind {α : Type} {a : Outcome α} {b : α} {count : ℕ} {x : α → Writing Unit}
    (ha : Settles a b count) (hx : Appends count (x b)) : Appends count (ABIEncoder.call a >>= x) := by
  rcases ha with rfl | ⟨rfl, hlt⟩
  · exact hx
  · exact fun data => .inr ⟨⟨data, rfl⟩, by omega⟩

namespace ABIEncoder

theorem appends_append (bytes : List UInt8) : Appends bytes.length (append bytes) := by
  intro data
  unfold append Data.ofBytes
  by_cases h : (data.bytes ++ bytes).length ≤ intMax
  · rw [dif_pos h]
    exact .inl ⟨_, rfl, List.length_append⟩
  · rw [dif_neg h]
    rw [List.length_append] at h
    exact .inr ⟨⟨_, rfl⟩, by omega⟩

theorem appends_both {bytes more : List UInt8} {count : ℕ} (h : bytes.length + more.length = count) :
    Appends count (append bytes >>= fun _ => append more) := by
  rw [← h]
  exact (appends_append bytes).bind (appends_append more)

theorem appends_encodeBool (value : Bool) : Appends 32 (encodeBool value) := appends_both rfl

theorem appends_encodeBigUInt {value : ℕ} (h : (BigEndian.serialize value).length ≤ 32) :
    Appends 32 (encodeBigUInt value) := by
  apply Appends.call_bind (.inl (ensure_true h))
  apply appends_both
  rw [List.length_replicate]
  omega

theorem abiEncode_of_inRange {value : ℤ} (h : Abi.InRange 256 value) :
    ∃ bytes, abiEncode value = ok bytes ∧ bytes.length = 32 := by
  have hbits : (256 : UInt64).toNat - 1 = 255 := by decide
  obtain ⟨hlow, hhigh⟩ := h
  rw [hbits] at hlow hhigh
  have hvalid : ABIValue.validateSignedInteger value 256 = ok () := by
    have hlimit : (256 : Int64).toNatClampNeg - 1 = 255 := by decide
    simp only [ABIValue.validateSignedInteger, ABIType.validate, bind_eq_ok, ensure_eq_ok, hlimit]
    refine ⟨(), by decide, ?_⟩
    split
    · omega
    · omega
  have hencoded : (if value < 0 then 2 ^ 256 - value.natAbs else value.natAbs) < 256 ^ 32 := by
    have hpow : (256 : ℕ) ^ 32 = 2 ^ 256 := by norm_num
    rw [hpow]
    split
    · omega
    · omega
  have hlength := BigEndian.byteWidth_le_iff.mpr hencoded
  rw [← BigEndian.serialize_length] at hlength
  rw [abiEncode, hvalid, ok_bind]
  refine ⟨_, congrArg ofOption (if_pos hlength), ?_⟩
  rw [List.length_append, List.length_replicate]
  omega

theorem inRange_word {bits : Int64} {value : ℤ} (hbits : 8 ≤ bits ∧ bits ≤ 256)
    (h : ABIValue.validateSignedInteger value bits = ok ()) : Abi.InRange 256 value := by
  obtain ⟨hlow, hhigh⟩ := (validateSignedInteger_eq_ok h).half (bits_range hbits).2
  have hword : (256 : UInt64).toNat - 1 = 255 := by decide
  have hpow : (256 : ℤ) ^ 32 = 2 * 2 ^ 255 := by norm_num
  rw [hpow] at hlow hhigh
  rw [Abi.InRange, hword]
  constructor
  · omega
  · omega

theorem appends_encodeBigInt {value : ℤ} (h : Abi.InRange 256 value) : Appends 32 (encodeBigInt value) := by
  obtain ⟨bytes, hbytes, hlength⟩ := abiEncode_of_inRange h
  apply Appends.call_bind (.inl hbytes)
  rw [← hlength]
  exact appends_append bytes

theorem appends_encodeInt {value : ℕ} (h : value ≤ intMax) : Appends 32 (encodeInt value) := by
  apply appends_encodeBigInt
  have hbits : (256 : UInt64).toNat - 1 = 255 := by decide
  unfold intMax at h
  rw [Abi.InRange, hbits]
  constructor
  · omega
  · omega

theorem appends_padded {bytes : Data} {count : ℕ} (h : bytes.bytes.length + padding bytes.bytes.length = count) :
    Appends count (do
      let padded ← call (ABIValue.paddedCount bytes.bytes.length)
      let padding ← call (subInt padded bytes.bytes.length)
      append bytes.bytes
      append (List.replicate padding 0)) := by
  subst h
  apply Appends.call_bind (settles_paddedCount _)
  apply Appends.call_bind (.inl (subInt_of_le (by omega)))
  apply appends_both
  rw [List.length_replicate]
  omega

theorem appends_encodeBytes_static {bytes : Data}
    (h : ABIType.validate (.bytes (Int64.ofNat bytes.bytes.length)) = ok ()) : Appends 32 (encodeBytes bytes true) := by
  apply Appends.call_bind (.inl h)
  exact appends_padded (bytes_count h)

theorem appends_encodeBytes_dynamic (bytes : Data) :
    Appends (32 + (bytes.bytes.length + padding bytes.bytes.length)) (encodeBytes bytes false) :=
  (appends_encodeInt bytes.count_le).bind (appends_padded rfl)

theorem appends_encodeString (string : Text) :
    Appends (32 + ((Text.utf8 string).length + padding (Text.utf8 string).length)) (encodeString string) := by
  by_cases h : (Text.utf8 string).length ≤ intMax
  · apply Appends.call_bind (.inl (dif_pos h))
    exact appends_encodeBytes_dynamic ⟨Text.utf8 string, h⟩
  · intro data
    have htrap : encodeString string data = (.error .trap, data) := by
      unfold encodeString Data.ofBytes
      rw [dif_neg h]
      rfl
    exact .inr ⟨⟨data, htrap⟩, by omega⟩

theorem follows_encodeAddress (address : Data) : Follows False
    [if (Abi.evmAddress20 address.bytes).isSome then .word else .unusable] (encodeAddress address) := by
  cases h : Abi.evmAddress20 address.bytes with
  | none =>
    intro data
    have hrun : encodeAddress address data = (.error .fail, data) := by
      rw [encodeAddress, h]
      rfl
    rw [hrun]
    exact .thrown [] [] rfl (by simp) ⟨rfl, fun _ => rfl⟩
  | some bytes =>
    have hlength := Abi.evmAddress20_length h
    have happends : Appends 32 (encodeAddress address) := by
      unfold encodeAddress
      rw [h]
      apply Appends.call_bind (.inl rfl)
      apply Appends.call_bind (.inl (subInt_of_le (by omega)))
      apply appends_both
      rw [List.length_replicate]
      omega
    exact Appends.follows (m := .word) happends (by decide)

theorem follows_encodeSignature [Host] (hhash : ∀ bytes, 4 ≤ (Host.hash bytes).length) (signature : Text) :
    Follows False [.signature signature] (encodeSignature signature) := by
  by_cases h : (Text.utf8 signature).length ≤ intMax
  · apply Follows.ok_bind (dif_pos h)
    apply Follows.ok_bind (check_true (hhash _))
    apply Appends.follows
    · have hlength : (List.take 4 (Host.hash (Text.utf8 signature))).length = 4 := by
        rw [List.length_take]
        exact Nat.min_eq_left (hhash _)
      have happends := appends_append (List.take 4 (Host.hash (Text.utf8 signature)))
      rwa [hlength] at happends
    · simp
  · intro data
    have htrap : encodeSignature signature data = (.error .trap, data) := by
      unfold encodeSignature Data.ofBytes
      rw [dif_neg h]
      rfl
    rw [htrap]
    refine .trapped (.inr ?_)
    rw [room_cons, Mark.room]
    omega

end ABIEncoder

mutual
def marks : ABIValue → List Mark
  | .uint _ _ | .int _ _ | .bool _ | .fixed _ _ _ | .ufixed _ _ _ | .bytes _ => [.word]
  | .address address => [if (Abi.evmAddress20 address.bytes).isSome then .word else .unusable]
  | .function name parameters values =>
    .signature (ABIType.description (.function name parameters)) :: (headMarks values ++ tailMarks values)
  | .array _ values | .tuple values => headMarks values ++ tailMarks values
  | .dynamicBytes bytes => [.bytes (32 + (bytes.bytes.length + padding bytes.bytes.length)) (by omega)]
  | .string string => [.bytes (32 + ((Text.utf8 string).length + padding (Text.utf8 string).length)) (by omega)]
  | .dynamicArray _ values => .word :: (headMarks values ++ tailMarks values)

def headMarks : List ABIValue → List Mark
  | [] => []
  | value :: values => (if value.isDynamic then [.word] else marks value) ++ headMarks values

def tailMarks : List ABIValue → List Mark
  | [] => []
  | value :: values => (if value.isDynamic then marks value else []) ++ tailMarks values
end

def memberMarks (values : List ABIValue) : List Mark := headMarks values ++ tailMarks values

theorem memberMarks_cons (value : ABIValue) (values : List ABIValue) :
    total (memberMarks (value :: values)) =
      (if value.isDynamic then 32 else 0) + total (marks value) + total (memberMarks values) := by
  simp only [memberMarks, headMarks, tailMarks, total_append]
  cases value.isDynamic with
  | true =>
    simp only [if_true]
    change 32 + total (headMarks values) + (total (marks value) + total (tailMarks values)) = _
    omega
  | false =>
    simp only [Bool.false_eq_true, if_false]
    change total (marks value) + total (headMarks values) + (0 + total (tailMarks values)) = _
    omega

theorem settles_tupleLength {values : List ABIValue}
    (h : ∀ value ∈ values, Settles value.length (total (marks value)) (total (marks value))) (sum : ℕ) :
    Settles (ABIValue.tupleLength values sum) (sum + total (memberMarks values))
      (sum + total (memberMarks values)) := by
  induction values generalizing sum with
  | nil => exact .inl rfl
  | cons value values ih =>
    obtain ⟨hvalue, hvalues⟩ := List.forall_mem_cons.mp h
    rw [ABIValue.tupleLength, memberMarks_cons]
    apply ((settles_addInt _ _).of_le (by omega)).bind
    apply (hvalue.of_le (by omega)).bind
    apply ((settles_addInt _ _).of_le (by omega)).bind
    have hrest := ih hvalues (sum + (if value.isDynamic then 32 else 0) + total (marks value))
    simpa only [Nat.add_assoc] using hrest

section

variable [Host]

theorem validate_of_validateAll {values : List ABIValue} (h : ABIValue.validateAll values = ok ()) :
    ∀ value ∈ values, value.validate = ok () := by
  induction values with
  | nil => simp
  | cons value values ih =>
    rw [ABIValue.validateAll] at h
    obtain ⟨_, hvalue, hvalues⟩ := bind_eq_ok.mp h
    exact List.forall_mem_cons.mpr ⟨hvalue, ih hvalues⟩

theorem validate_of_validateArguments {values : List ABIValue} {types : List ABIType}
    (hlength : values.length = types.length) (h : ABIValue.validateArguments values types = ok ()) :
    ∀ value ∈ values, value.validate = ok () := by
  induction values generalizing types with
  | nil => simp
  | cons value values ih =>
    cases types with
    | nil => cases hlength
    | cons type types =>
      rw [ABIValue.validateArguments] at h
      obtain ⟨_, _, h⟩ := bind_eq_ok.mp h
      obtain ⟨_, hvalue, hvalues⟩ := bind_eq_ok.mp h
      exact List.forall_mem_cons.mpr ⟨hvalue, ih (Nat.succ.inj hlength) hvalues⟩

def components : ABIValue → List ABIValue
  | .function _ _ values | .array _ values | .dynamicArray _ values | .tuple values => values
  | _ => []

theorem validate_members {value : ABIValue} (h : value.validate = ok ()) :
    ∀ member ∈ components value, member.validate = ok () := by
  cases value with
  | function name parameters values =>
    rw [ABIValue.validate] at h
    obtain ⟨_, _, h⟩ := bind_eq_ok.mp h
    obtain ⟨_, hlength, h⟩ := bind_eq_ok.mp h
    exact validate_of_validateArguments (ensure_eq_ok.mp hlength) h
  | array type values | dynamicArray type values =>
    rw [ABIValue.validate] at h
    obtain ⟨_, _, h⟩ := bind_eq_ok.mp h
    obtain ⟨_, _, h⟩ := bind_eq_ok.mp h
    obtain ⟨_, _, h⟩ := bind_eq_ok.mp h
    exact validate_of_validateAll h
  | tuple values =>
    rw [ABIValue.validate] at h
    obtain ⟨_, _, h⟩ := bind_eq_ok.mp h
    exact validate_of_validateAll h
  | _ => simp [components]

theorem settles_length {value : ABIValue} (h : value.validate = ok ()) :
    Settles value.length (total (marks value)) (total (marks value)) := by
  have hmembers := validate_members h
  have tuple {values : List ABIValue} (ih : ∀ v ∈ values, Settles v.length (total (marks v)) (total (marks v))) :
      Settles (ABIValue.tupleLength values 0) (total (memberMarks values)) (total (memberMarks values)) := by
    have hlength := settles_tupleLength ih 0
    rwa [Nat.zero_add] at hlength
  induction value using ABIValue.induct with
  | uint | int | bool | fixed | ufixed => exact .inl rfl
  | address address =>
    left
    rw [marks]
    split <;> rfl
  | bytes bytes =>
    have hsettles := settles_paddedCount bytes.bytes.length
    rw [bytes_count h] at hsettles
    exact hsettles
  | function name parameters values ih =>
    have hlength := tuple fun v hv => ih v hv (hmembers v hv) (validate_members (hmembers v hv))
    exact (hlength.of_le (Nat.le_add_left _ 4)).bind (settles_addInt 4 _)
  | array type values ih | tuple values ih =>
    exact tuple fun v hv => ih v hv (hmembers v hv) (validate_members (hmembers v hv))
  | dynamicBytes bytes =>
    exact ((settles_paddedCount _).of_le (Nat.le_add_left _ 32)).bind (settles_addInt 32 _)
  | string string =>
    rw [ABIValue.length]
    by_cases hfits : (Text.utf8 string).length ≤ intMax
    · rw [Data.ofBytes, dif_pos hfits, ok_bind]
      exact ((settles_paddedCount _).of_le (Nat.le_add_left _ 32)).bind (settles_addInt 32 _)
    · rw [Data.ofBytes, dif_neg hfits]
      refine .inr ⟨rfl, ?_⟩
      change intMax < 32 + ((Text.utf8 string).length + padding (Text.utf8 string).length)
      omega
  | dynamicArray type values ih =>
    have hlength := tuple fun v hv => ih v hv (hmembers v hv) (validate_members (hmembers v hv))
    exact (hlength.of_le (Nat.le_add_left _ 32)).bind (settles_addInt 32 _)

theorem settles_headSize {values : List ABIValue} (h : ∀ value ∈ values, value.validate = ok ()) (size : ℕ) :
    Settles (headSize values size) (size + total (headMarks values)) (size + total (headMarks values)) := by
  induction values generalizing size with
  | nil => exact .inl rfl
  | cons value values ih =>
    obtain ⟨hvalue, hvalues⟩ := List.forall_mem_cons.mp h
    rw [headSize, hvalue, ok_bind, headMarks, total_append]
    have hwidth : Settles (if value.isDynamic then ok 32 else value.length)
        (total (if value.isDynamic then [.word] else marks value))
        (total (if value.isDynamic then [.word] else marks value)) := by
      split
      · exact .inl rfl
      · exact settles_length hvalue
    apply (hwidth.of_le (by omega)).bind
    apply ((settles_addInt _ _).of_le (by omega)).bind
    have hrest := ih hvalues (size + total (if value.isDynamic then [.word] else marks value))
    simpa only [Nat.add_assoc] using hrest

namespace ABIEncoder

theorem follows_encodeHeads {values : List ABIValue}
    (h : ∀ value ∈ values, value.validate = ok () ∧ Follows False (marks value) (encodeOf value))
    (headSize dynamicOffset : ℕ) :
    Follows (intMax < headSize + dynamicOffset + total (tailMarks values)) (headMarks values)
      (encodeHeads headSize values dynamicOffset) := by
  induction values generalizing dynamicOffset with
  | nil => exact .pure
  | cons value values ih =>
    obtain ⟨⟨hvalid, hvalue⟩, hvalues⟩ := List.forall_mem_cons.mp h
    rw [encodeHeads, headMarks, tailMarks]
    cases value.isDynamic with
    | true =>
      simp only [if_true, total_append]
      apply Follows.call_bind (settles_addInt headSize dynamicOffset)
      · intro hlt
        left
        omega
      intro hoffset
      have hword := (appends_encodeInt (addInt_eq_ok.mp hoffset).1).follows (m := .word) (by decide)
      refine (hword.mono fun _ hfalse => hfalse.elim).bind ?_
      apply Follows.call_bind (settles_length hvalid)
      · intro hlt
        left
        omega
      intro _
      apply Follows.call_bind (settles_addInt dynamicOffset (total (marks value)))
      · intro hlt
        left
        omega
      intro _
      refine (ih hvalues _).mono ?_
      intro _ hlt
      left
      omega
    | false =>
      simp only [Bool.false_eq_true, if_false, List.nil_append]
      apply Follows.ok_bind hvalid
      exact (hvalue.mono fun _ hfalse => hfalse.elim).bind (ih hvalues dynamicOffset)

theorem follows_encodeTails {values : List ABIValue}
    (h : ∀ value ∈ values, value.validate = ok () ∧ Follows False (marks value) (encodeOf value)) :
    Follows False (tailMarks values) (encodeTails values) := by
  induction values with
  | nil => exact .pure
  | cons value values ih =>
    obtain ⟨⟨hvalid, hvalue⟩, hvalues⟩ := List.forall_mem_cons.mp h
    rw [encodeTails, tailMarks]
    cases value.isDynamic with
    | true =>
      simp only [if_true]
      apply Follows.ok_bind hvalid
      exact hvalue.bind (ih hvalues)
    | false => exact ih hvalues

theorem follows_encodeTuple {values : List ABIValue}
    (h : ∀ value ∈ values, value.validate = ok () ∧ Follows False (marks value) (encodeOf value)) :
    Follows False (memberMarks values) (encodeTuple values) := by
  have hsize := settles_headSize (fun value hvalue => (h value hvalue).1) 0
  have hroom := total_le_room (memberMarks values)
  rw [memberMarks, total_append] at hroom
  rw [Nat.zero_add] at hsize
  apply Follows.call_bind hsize
  · intro hlt
    right
    rw [memberMarks]
    omega
  · intro _
    have hheads := follows_encodeHeads h (total (headMarks values)) 0
    have htails : Follows (intMax < total (headMarks values) + 0 + total (tailMarks values)) (tailMarks values)
        (encodeTails values) := (follows_encodeTails h).mono fun _ hfalse => hfalse.elim
    refine (hheads.bind htails).mono ?_
    intro data hlt
    right
    omega

theorem follows_encodeOf (hhash : ∀ bytes, 4 ≤ (Host.hash bytes).length) {value : ABIValue}
    (h : value.validate = ok ()) : Follows False (marks value) (encodeOf value) := by
  have hmembers := validate_members h
  induction value using ABIValue.induct with
  | uint bits value | ufixed bits scale value =>
    rw [ABIValue.validate] at h
    obtain ⟨_, hbits, hwidth⟩ := bind_eq_ok.mp h
    have hbits := ensure_eq_ok.mp hbits
    have hwidth := ensure_eq_ok.mp hwidth
    have hhigh : bits.toInt ≤ 256 := Int64.le_iff_toInt_le.mp hbits.2.1
    have hlength : (BigEndian.serialize value).length ≤ 32 := by
      rw [BigEndian.serialize_length, BigEndian.byteWidth]
      omega
    exact (appends_encodeBigUInt hlength).follows (m := .word) (by decide)
  | int bits value | fixed bits scale value =>
    rw [ABIValue.validate] at h
    obtain ⟨_, hbits, hsigned⟩ := bind_eq_ok.mp h
    have hbits := ensure_eq_ok.mp hbits
    have hrange := inRange_word ⟨hbits.1, hbits.2.1⟩ hsigned
    exact (appends_encodeBigInt hrange).follows (m := .word) (by decide)
  | bool value => exact (appends_encodeBool value).follows (m := .word) (by decide)
  | address address => exact follows_encodeAddress address
  | bytes bytes => exact (appends_encodeBytes_static h).follows (m := .word) (by decide)
  | function name parameters values ih =>
    have htuple := follows_encodeTuple fun v hv => ⟨hmembers v hv, ih v hv (hmembers v hv) (validate_members (hmembers v hv))⟩
    exact (follows_encodeSignature hhash _).bind htuple
  | array type values ih | tuple values ih =>
    exact follows_encodeTuple fun v hv => ⟨hmembers v hv, ih v hv (hmembers v hv) (validate_members (hmembers v hv))⟩
  | dynamicBytes bytes => exact (appends_encodeBytes_dynamic bytes).follows (m := .bytes _ _) (by simp)
  | string string => exact (appends_encodeString string).follows (m := .bytes _ _) (by simp)
  | dynamicArray type values ih =>
    rw [ABIValue.validate] at h
    obtain ⟨_, hcount, _⟩ := bind_eq_ok.mp h
    have hword := (appends_encodeInt (check_eq_ok.mp hcount)).follows (m := .word) (by decide)
    have htuple := follows_encodeTuple fun v hv => ⟨hmembers v hv, ih v hv (hmembers v hv) (validate_members (hmembers v hv))⟩
    exact hword.bind htuple

end ABIEncoder

theorem valid_of_headSize {values : List ABIValue} {size n : ℕ} (h : headSize values size = ok n) :
    ∀ value ∈ values, value.validate = ok () := by
  induction values generalizing size with
  | nil => simp
  | cons value values ih =>
    rw [headSize] at h
    obtain ⟨_, hvalue, h⟩ := bind_eq_ok.mp h
    obtain ⟨_, _, h⟩ := bind_eq_ok.mp h
    obtain ⟨_, _, h⟩ := bind_eq_ok.mp h
    exact List.forall_mem_cons.mpr ⟨hvalue, ih h⟩

/-- The value does not pass `validate`, or nothing is written before its first unusable address. -/
def ABIValue.Safe (value : ABIValue) : Prop := value.validate = ok () → Prompt (marks value)

def SafeTuple (tuple : List ABIValue) : Prop := (∀ value ∈ tuple, value.validate = ok ()) → Prompt (memberMarks tuple)

/-- A signature is written first, so that every address has to be usable. -/
def SafeCall {Any : Type} [DynamicCasts Any] (parameters : List ABIType) (arguments : List Any) : Prop :=
  ∀ values, castArguments parameters arguments = ok values → .unusable ∉ memberMarks values

namespace ABIEncoder

theorem follows_encode (hhash : ∀ bytes, 4 ≤ (Host.hash bytes).length) {value : ABIValue}
    (h : value.validate = ok ()) : Follows False (marks value) (encode value) :=
  .ok_bind h (follows_encodeOf hhash h)

theorem follows_tuple (hhash : ∀ bytes, 4 ≤ (Host.hash bytes).length) {tuple : List ABIValue}
    (h : ∀ value ∈ tuple, value.validate = ok ()) : Follows False (memberMarks tuple) (encodeTuple tuple) :=
  follows_encodeTuple fun value hvalue => ⟨h value hvalue, follows_encodeOf hhash (h value hvalue)⟩

theorem follows_call (hhash : ∀ bytes, 4 ≤ (Host.hash bytes).length) {Any : Type} [DynamicCasts Any] {name : Text}
    {parameters : List ABIType} {arguments : List Any} {values : List ABIValue}
    (h : castArguments parameters arguments = ok values) :
    Follows False (.signature (ABIType.description (.function name parameters)) :: memberMarks values)
      (encodeFunction name parameters arguments) :=
  .ok_bind h ((follows_encodeSignature hhash _).bind (follows_tuple hhash (validate_of_castArguments h)))

end ABIEncoder

theorem encoder_is_atomic_iff (hhash : ∀ bytes, 4 ≤ (Host.hash bytes).length) {Any : Type} [DynamicCasts Any]
    (data : Data) :
    (∀ value : ABIValue, (value.Safe → AtomicAt (ABIEncoder.encode value) data) ∧
      (data.bytes.length + room (marks value) ≤ intMax → (AtomicAt (ABIEncoder.encode value) data ↔ value.Safe))) ∧
    (∀ tuple, (SafeTuple tuple → AtomicAt (ABIEncoder.encodeTuple tuple) data) ∧
      (data.bytes.length + room (memberMarks tuple) ≤ intMax →
        (AtomicAt (ABIEncoder.encodeTuple tuple) data ↔ SafeTuple tuple))) ∧
    ∀ (name : Text) (parameters : List ABIType) (arguments : List Any),
      (SafeCall parameters arguments → AtomicAt (ABIEncoder.encodeFunction name parameters arguments) data) ∧
      ((∀ values, castArguments parameters arguments = ok values → data.bytes.length +
          room (.signature (ABIType.description (.function name parameters)) :: memberMarks values) ≤ intMax) →
        (AtomicAt (ABIEncoder.encodeFunction name parameters arguments) data ↔ SafeCall parameters arguments)) := by
  refine ⟨?_, ?_, ?_⟩
  · intro value
    have henough (h : value.Safe) : AtomicAt (ABIEncoder.encode value) data := by
      apply atomicAt_call
      intro _ hvalid
      exact (ABIEncoder.follows_encodeOf hhash hvalid).atomicAt (h hvalid) data
    refine ⟨henough, fun hroom => ⟨?_, henough⟩⟩
    intro h hvalid
    exact (ABIEncoder.follows_encode hhash hvalid).prompt hroom h
  · intro tuple
    have henough (h : SafeTuple tuple) : AtomicAt (ABIEncoder.encodeTuple tuple) data := by
      intro later hrun
      by_cases hvalid : ∀ value ∈ tuple, value.validate = ok ()
      · exact (ABIEncoder.follows_tuple hhash hvalid).atomicAt (h hvalid) data later hrun
      · revert later
        apply atomicAt_call
        intro size hsize
        exact absurd (valid_of_headSize hsize) hvalid
    refine ⟨henough, fun hroom => ⟨?_, henough⟩⟩
    intro h hvalid
    exact (ABIEncoder.follows_tuple hhash hvalid).prompt hroom h
  · intro name parameters arguments
    have henough (h : SafeCall parameters arguments) :
        AtomicAt (ABIEncoder.encodeFunction name parameters arguments) data := by
      intro later hrun
      revert later
      by_cases hcast : ∃ values, castArguments parameters arguments = ok values
      · obtain ⟨values, hvalues⟩ := hcast
        exact (ABIEncoder.follows_call hhash hvalues).atomicAt (prompt_signature.mpr (h values hvalues)) data
      · apply atomicAt_call
        intro values hvalues
        exact absurd ⟨values, hvalues⟩ hcast
    refine ⟨henough, fun hroom => ⟨?_, henough⟩⟩
    intro h values hvalues
    exact prompt_signature.mp ((ABIEncoder.follows_call hhash hvalues).prompt (hroom values hvalues) h)

end

abbrev paddedHost : Host := ⟨fun bytes => (bytes ++ List.replicate 32 0).take 32, fun f g => f == g⟩

/-- An empty address first is thrown out before anything is written. -/
theorem encoder_is_atomic_iff_sample :
    @AtomicAt (@ABIEncoder.encodeTuple paddedHost [.address ⟨[], by decide⟩, .bool true]) ⟨[0xde, 0xad], by decide⟩ := by
  let := paddedHost
  have hhash (bytes : List UInt8) : 4 ≤ ((bytes ++ List.replicate 32 0).take 32).length := by
    rw [List.length_take, List.length_append, List.length_replicate]
    omega
  have h := @encoder_is_atomic_iff paddedHost hhash Unit
    ⟨fun _ => none, fun _ => none, fun _ => none, fun _ => none, fun _ => none, fun _ => none, fun _ => none,
      fun _ => none, fun _ => none⟩ ⟨[0xde, 0xad], by decide⟩
  apply (h.2.1 _).1
  intro _
  exact .inr rfl

theorem number_stays_before_bad_address :
    ∃ later : Data, @ABIEncoder.encodeTuple paddedHost [.uint 256 1, .address ⟨[], by decide⟩]
      ⟨[0xde, 0xad], by decide⟩ = (.error .fail, later) ∧ later ≠ ⟨[0xde, 0xad], by decide⟩ :=
  ⟨_, rfl, by decide⟩

end TronlinkCore.Solidity
