import TronlinkCore.Keystore.DerivationPath
import Mathlib.Data.Nat.Bitwise

namespace TronlinkCore.Keystore

open Exceptions Outcome Text

namespace DerivationPath

section

variable [Segmentation]

theorem split_of_plain {string : Text} (h : ∀ c ∈ string, Plain c) (separator : Char) :
    split string separator =
      ((string.map fun c => [c]).splitOnP fun character => character = [separator]).filter (· ≠ []) := by
  rw [split, characters_of_plain h]

theorem split_word {word : Text} {separator : Char} (hne : word ≠ []) (hplain : ∀ c ∈ word, Plain c)
    (hsep : separator ∉ word) : split word separator = [word.map fun c => [c]] := by
  have hall : ∀ character ∈ word.map (fun c => [c]), decide (character = [separator]) = false := by
    intro character hmem
    obtain ⟨c, hc, rfl⟩ := List.mem_map.mp hmem
    refine decide_eq_false ?_
    intro hsame
    cases hsame
    exact hsep hc
  rw [split_of_plain hplain, List.splitOnP_eq_singleton hall]
  simp [hne]

omit [Segmentation] in
theorem plain_joined {first rest : Text} {separator : Char} (hfirst : ∀ c ∈ first, Plain c) (hsep : Plain separator)
    (hrest : ∀ c ∈ rest, Plain c) : ∀ c ∈ first ++ separator :: rest, Plain c := by
  intro c hc
  rcases List.mem_append.mp hc with hc | hc
  · exact hfirst c hc
  · rcases List.mem_cons.mp hc with rfl | hc
    · exact hsep
    · exact hrest c hc

theorem split_append {first rest : Text} {separator : Char} (hfirst : ∀ c ∈ first, Plain c) (hsep : Plain separator)
    (hrest : ∀ c ∈ rest, Plain c) :
    split (first ++ separator :: rest) separator = split first separator ++ split rest separator := by
  have hall := plain_joined hfirst hsep hrest
  have hmark : decide ([separator] = [separator]) = true := decide_eq_true rfl
  rw [split_of_plain hall, split_of_plain hfirst, split_of_plain hrest, List.map_append, List.map_cons]
  rw [List.splitOnP_append_cons (p := fun character : Text => decide (character = [separator])) _ _ hmark,
    List.filter_append]

theorem split_intercalate {words : List Text} {separator : Char} (hsep : Plain separator)
    (hwords : ∀ word ∈ words, word ≠ [] ∧ (∀ c ∈ word, Plain c) ∧ separator ∉ word) :
    (∀ c ∈ [separator].intercalate words, Plain c) ∧
      split ([separator].intercalate words) separator = words.map fun word => word.map fun c => [c] := by
  induction words with
  | nil =>
    have hnone : ∀ c ∈ ([] : Text), Plain c := fun c hc => absurd hc List.not_mem_nil
    refine ⟨hnone, ?_⟩
    change split [] separator = _
    rw [split_of_plain hnone]
    rfl
  | cons word words ih =>
    obtain ⟨⟨hne, hplain, hnot⟩, hrest⟩ := List.forall_mem_cons.mp hwords
    obtain ⟨ihplain, ihsplit⟩ := ih hrest
    cases words with
    | nil =>
      have hone : [separator].intercalate [word] = word := by simp [List.intercalate]
      rw [hone]
      exact ⟨hplain, split_word hne hplain hnot⟩
    | cons second words =>
      have hmore : [separator].intercalate (word :: second :: words) =
          word ++ separator :: [separator].intercalate (second :: words) := by simp [List.intercalate]
      rw [hmore]
      constructor
      · exact plain_joined hplain hsep ihplain
      · rw [split_append hplain hsep ihplain, split_word hne hplain hnot, ihsplit]
        rfl

end

namespace Index

def Valid (index : Index) : Prop := 0 ≤ index.value.toInt ∧ index.value.toInt < 2 ^ 32

theorem exactly?_isSome {value : Int64} : (exactly? value).isSome ↔ 0 ≤ value.toInt ∧ value.toInt < 2 ^ 32 := by
  unfold exactly?
  split
  · rename_i h
    exact ⟨fun _ => h, fun _ => rfl⟩
  · rename_i h
    exact ⟨fun hsome => absurd hsome (by decide), fun hrange => absurd hrange h⟩

theorem Valid.derivationIndex_isSome {index : Index} (h : index.Valid) : index.derivationIndex.isSome := by
  obtain ⟨number, hnumber⟩ := Option.isSome_iff_exists.mp (exactly?_isSome.mpr h)
  rw [derivationIndex, hnumber]
  rfl

theorem mem_description {index : Index} {c : Char} (h : c ∈ index.description) : c = '\'' ∨ c = '-' ∨ c.isDigit := by
  unfold description at h
  split at h
  · rcases List.mem_append.mp h with h | h
    · exact .inr (mem_ofInt64 h)
    · exact .inl (List.mem_singleton.mp h)
  · exact .inr (mem_ofInt64 h)

theorem not_mem_description {c : Char} (hmark : c ≠ '\'') (hsign : c ≠ '-') (hdigit : c.isDigit = false)
    (index : Index) : c ∉ index.description := by
  intro hc
  rcases mem_description hc with h | h | h
  · exact hmark h
  · exact hsign h
  · exact ne_of_isDigit h hdigit rfl

theorem description_word (index : Index) :
    index.description ≠ [] ∧ (∀ c ∈ index.description, Plain c) ∧ '/' ∉ index.description := by
  refine ⟨?_, ?_, ?_⟩
  · unfold description
    split
    · simp
    · exact ofInt64_ne_nil _
  · intro c hc
    rcases mem_description hc with rfl | rfl | hdigit
    · exact ⟨by decide, by decide⟩
    · exact ⟨by decide, by decide⟩
    · exact plain_of_digitValue (digitValue_of_isDigit hdigit)
  · exact not_mem_description (by decide) (by decide) rfl index

end Index

theorem flatten_singles (text : Text) : (text.map fun c => [c]).flatten = text := by
  induction text with
  | nil => rfl
  | cons c text ih => exact congrArg (c :: ·) ih

theorem index?_eq_some {text : Text} {hardened : Bool} {index : Index} (h : index? text hardened = some index) :
    index.Valid := by
  simp only [index?, Option.bind_eq_bind, Option.bind_eq_some_iff, Option.some.injEq] at h
  obtain ⟨value, _, number, hnumber, rfl⟩ := h
  exact Index.exactly?_isSome.mp (by rw [hnumber]; rfl)

theorem index?_ofInt64 {index : Index} (h : index.Valid) :
    index? (ofInt64 index.value) index.hardened = some index := by
  obtain ⟨number, hnumber⟩ := Option.isSome_iff_exists.mp (Index.exactly?_isSome.mpr h)
  simp [index?, int64?_ofInt64, hnumber]

theorem component?_description {index : Index} (h : index.Valid) :
    component? (index.description.map fun c => [c]) = some index := by
  have hindex := index?_ofInt64 h
  unfold component? Index.description
  cases hhardened : index.hardened with
  | true =>
    rw [hhardened] at hindex
    rw [if_pos rfl, List.map_append, List.map_singleton, if_pos List.getLast?_concat, List.dropLast_concat,
      flatten_singles, hindex]
  | false =>
    rw [hhardened] at hindex
    have hlast : ((ofInt64 index.value).map fun c => [c]).getLast? ≠ some ['\''] := by
      rw [List.getLast?_map]
      intro hmark
      obtain ⟨c, hc, hmark⟩ := Option.map_eq_some_iff.mp hmark
      cases hmark
      rcases mem_ofInt64 (List.mem_of_getLast? hc) with hsign | hdigit
      · exact absurd hsign (by decide)
      · exact absurd hdigit (by decide)
    rw [if_neg Bool.false_ne_true, if_neg hlast, flatten_singles, hindex]

theorem indices?_descriptions {indices : List Index} (h : ∀ index ∈ indices, index.Valid) :
    indices? (indices.map fun index => index.description.map fun c => [c]) = some indices := by
  induction indices with
  | nil => rfl
  | cons index indices ih =>
    obtain ⟨hindex, hrest⟩ := List.forall_mem_cons.mp h
    have hm : (index.description.map fun c => [c]).flatten ≠ ['m'] := by
      rw [flatten_singles]
      intro hm
      have hmem : 'm' ∈ index.description := hm ▸ List.mem_cons_self
      exact Index.not_mem_description (by decide) (by decide) rfl index hmem
    rw [List.map_cons, indices?, if_neg hm, component?_description hindex, ih hrest]
    rfl

theorem valid_of_indices? {components : List (List Text)} {indices : List Index}
    (h : indices? components = some indices) : ∀ index ∈ indices, index.Valid := by
  induction components generalizing indices with
  | nil =>
    cases h
    nofun
  | cons component components ih =>
    rw [indices?] at h
    split at h
    · exact ih h
    · simp only [Option.bind_eq_bind, Option.bind_eq_some_iff, Option.some.injEq] at h
      obtain ⟨index, hindex, rest, hrest, rfl⟩ := h
      rw [List.forall_mem_cons]
      refine ⟨?_, ih hrest⟩
      unfold component? at hindex
      split at hindex
      · exact index?_eq_some hindex
      · exact index?_eq_some hindex

section

variable [Segmentation]

theorem valid_of_ofString {string : Text} {path : DerivationPath} (h : ofString string = some path) :
    ∀ index ∈ path.indices, index.Valid := by
  obtain ⟨indices, hindices, rfl⟩ := Option.map_eq_some_iff.mp h
  exact valid_of_indices? hindices

theorem ofString_description {path : DerivationPath} (h : ∀ index ∈ path.indices, index.Valid) :
    ofString path.description = some path := by
  have hwords : ∀ word ∈ path.indices.map Index.description, word ≠ [] ∧ (∀ c ∈ word, Plain c) ∧ '/' ∉ word := by
    intro word hword
    obtain ⟨index, _, rfl⟩ := List.mem_map.mp hword
    exact index.description_word
  have hslash : Plain '/' := ⟨by decide, by decide⟩
  obtain ⟨hplain, hsplit⟩ := split_intercalate hslash hwords
  have hm : ∀ c ∈ ['m'], Plain c := by
    rw [List.forall_mem_singleton]
    exact ⟨by decide, by decide⟩
  have hparts : split path.description '/' =
      [['m']] :: path.indices.map fun index => index.description.map fun c => [c] := by
    have happend := split_append hm hslash hplain
    rw [split_word (by decide) hm (by decide), hsplit, List.map_map] at happend
    exact happend
  have hfirst : ([['m']] : List Text).flatten = ['m'] := rfl
  rw [ofString, hparts, indices?, if_pos hfirst, indices?_descriptions h]
  rfl

end

def childNumbers (path : DerivationPath) : Option (List UInt32) := path.indices.mapM Index.derivationIndex

namespace Index

theorem derivationIndex_eq {index : Index} (h0 : 0 ≤ index.value.toInt) (h : index.value ≤ 0x7fffffff) :
    ∃ number, index.derivationIndex = some number ∧
      (number.toNat : ℤ) = index.value.toInt + if index.hardened then 2 ^ 31 else 0 := by
  have hhigh : index.value.toInt ≤ 0x7fffffff := Int64.le_iff_toInt_le.mp h
  have hvalue : (UInt32.ofNat index.value.toInt.toNat).toNat = index.value.toInt.toNat :=
    UInt32.toNat_ofNat_of_lt' (show index.value.toInt.toNat < 2 ^ 32 by omega)
  have hexact : exactly? index.value = some (UInt32.ofNat index.value.toInt.toNat) := if_pos ⟨h0, by omega⟩
  rw [derivationIndex, hexact]
  refine ⟨_, rfl, ?_⟩
  split
  · have hbit : (0x80000000 : UInt32).toNat = 2 ^ 31 * 1 := rfl
    have hor := Nat.two_pow_add_eq_or_of_lt (show index.value.toInt.toNat < 2 ^ 31 by omega) 1
    rw [UInt32.toNat_or, hvalue, hbit, Nat.or_comm, ← hor]
    omega
  · rw [hvalue]
    omega

theorem eq_of_derivationIndex {index other : Index} (hindex : index.Valid) (hother : other.Valid)
    (hle : index.value ≤ 0x7fffffff) (hle' : other.value ≤ 0x7fffffff)
    (h : index.derivationIndex = other.derivationIndex) : index = other := by
  obtain ⟨number, hnumber, heq⟩ := derivationIndex_eq hindex.1 hle
  obtain ⟨number', hnumber', heq'⟩ := derivationIndex_eq hother.1 hle'
  have hlow := hindex.1
  have hlow' := hother.1
  have hhigh : index.value.toInt ≤ 0x7fffffff := Int64.le_iff_toInt_le.mp hle
  have hhigh' : other.value.toInt ≤ 0x7fffffff := Int64.le_iff_toInt_le.mp hle'
  rw [hnumber, hnumber', Option.some.injEq] at h
  rw [h, heq'] at heq
  obtain ⟨value, hardened⟩ := index
  obtain ⟨value', hardened'⟩ := other
  dsimp only at heq hlow hlow' hhigh hhigh'
  -- The values are too small to make up for the hardened bit.
  have hboth : value.toInt = value'.toInt ∧ hardened = hardened' := by
    cases hardened with
    | false =>
      cases hardened' with
      | false => exact ⟨by simpa using heq.symm, rfl⟩
      | true =>
        simp only [Bool.false_eq_true, ↓reduceIte] at heq
        omega
    | true =>
      cases hardened' with
      | false =>
        simp only [Bool.false_eq_true, ↓reduceIte] at heq
        omega
      | true => exact ⟨by simpa using heq.symm, rfl⟩
  rw [Int64.toInt_inj.mp hboth.1, hboth.2]

end Index

theorem childNumbers_eq {path : DerivationPath} (h : ∀ index ∈ path.indices, index.Valid) :
    path.childNumbers = some (path.indices.map fun index => index.derivationIndex.getD 0) := by
  apply mapM_eq_map
  intro index hindex
  obtain ⟨number, hnumber⟩ := Option.isSome_iff_exists.mp (h index hindex).derivationIndex_isSome
  rw [hnumber]
  rfl

theorem eq_of_childNumbers {path other : DerivationPath} (hpath : ∀ index ∈ path.indices, index.Valid)
    (hother : ∀ index ∈ other.indices, index.Valid) (hle : ∀ index ∈ path.indices, index.value ≤ 0x7fffffff)
    (hle' : ∀ index ∈ other.indices, index.value ≤ 0x7fffffff) (h : path.childNumbers = other.childNumbers) :
    path = other := by
  rw [childNumbers_eq hpath, childNumbers_eq hother, Option.some.injEq] at h
  obtain ⟨indices⟩ := path
  obtain ⟨others⟩ := other
  dsimp only at hpath hother hle hle' h
  refine congrArg DerivationPath.mk ?_
  induction indices generalizing others with
  | nil => exact (List.map_eq_nil_iff.mp h.symm).symm
  | cons index indices ih =>
    cases others with
    | nil => cases h
    | cons other others =>
      obtain ⟨hindex, hpath⟩ := List.forall_mem_cons.mp hpath
      obtain ⟨hvalid, hother⟩ := List.forall_mem_cons.mp hother
      obtain ⟨hsmall, hle⟩ := List.forall_mem_cons.mp hle
      obtain ⟨hsmall', hle'⟩ := List.forall_mem_cons.mp hle'
      obtain ⟨hfirst, hrest⟩ := List.cons.inj h
      obtain ⟨number, hnumber⟩ := Option.isSome_iff_exists.mp hindex.derivationIndex_isSome
      obtain ⟨number', hnumber'⟩ := Option.isSome_iff_exists.mp hvalid.derivationIndex_isSome
      dsimp only at hfirst
      rw [hnumber, hnumber', Option.getD_some, Option.getD_some] at hfirst
      rw [Index.eq_of_derivationIndex hindex hvalid hsmall hsmall' (by rw [hnumber, hnumber', hfirst]),
        ih hpath hle others hother hle' hrest]

end DerivationPath

namespace HDWallet

variable [HDNodes]

theorem foldlM_derive {indices : List DerivationPath.Index} {numbers : List UInt32}
    (h : indices.mapM DerivationPath.Index.derivationIndex = some numbers) (node : HDNodes.Node) :
    indices.foldlM derive node =
      numbers.foldlM (fun node number => unlessNone .keyDerivationFailed (HDNodes.privateCkd node number)) node := by
  induction indices generalizing numbers node with
  | nil =>
    cases h
    rfl
  | cons index indices ih =>
    rw [List.mapM_cons] at h
    simp only [Option.bind_eq_bind, Option.bind_eq_some_iff, Option.pure_def, Option.some.injEq] at h
    obtain ⟨number, hnumber, rest, hrest, rfl⟩ := h
    rw [List.foldlM_cons, List.foldlM_cons, derive, hnumber]
    change (unlessNone _ _ >>= _) = (unlessNone _ _ >>= _)
    cases HDNodes.privateCkd node number with
    | none => rfl
    | some child => exact ih hrest child

theorem getKeyFor_eq (wallet : HDWallet) {path : DerivationPath} {numbers : List UInt32}
    (h : path.childNumbers = some numbers) :
    wallet.getKeyFor path = (do
      let seed ← unlessNone .cleared wallet.seed
      let node ← unlessNone .invalidSeed (HDNodes.fromSeed seed)
      numbers.foldlM (fun node number => unlessNone .keyDerivationFailed (HDNodes.privateCkd node number)) node) := by
  rw [getKeyFor]
  simp only [foldlM_derive h]

end HDWallet

namespace DerivationPath

theorem paths_survive [Segmentation] [HDNodes] :
    (∀ string path, ofString string = some path →
      ofString path.description = some path ∧ (∀ index ∈ path.indices, index.derivationIndex.isSome) ∧
      ∃ numbers, path.childNumbers = some numbers ∧ ∀ wallet : HDWallet, wallet.getKeyFor path = (do
        let seed ← unlessNone .cleared wallet.seed
        let node ← unlessNone .invalidSeed (HDNodes.fromSeed seed)
        numbers.foldlM (fun node number =>
          unlessNone .keyDerivationFailed (HDNodes.privateCkd node number)) node)) ∧
    ∀ string string' path path', ofString string = some path → ofString string' = some path' →
      (∀ index ∈ path.indices, index.value ≤ 0x7fffffff) → (∀ index ∈ path'.indices, index.value ≤ 0x7fffffff) →
      path.childNumbers = path'.childNumbers → path = path' := by
  constructor
  · intro string path h
    have hvalid := valid_of_ofString h
    have hnumbers := childNumbers_eq hvalid
    refine ⟨ofString_description hvalid, ?_, _, hnumbers, ?_⟩
    · exact fun index hindex => (hvalid index hindex).derivationIndex_isSome
    · exact fun wallet => wallet.getKeyFor_eq hnumbers
  · intro string string' path path' h h' hle hle' hnumbers
    exact eq_of_childNumbers (valid_of_ofString h) (valid_of_ofString h') hle hle' hnumbers

def lastChild (path : DerivationPath) : Option UInt32 := path.indices.getLast?.bind Index.derivationIndex

def walk (path : DerivationPath) : ℕ → Outcome DerivationPath
  | 0 => ok path
  | count + 1 => do
    let later ← walk path count
    later.incremented

def MovesOn (path later : DerivationPath) : Prop :=
  later.indices.dropLast = path.indices.dropLast ∧ ∀ number, later.lastChild = some number →
    ∃ before, path.lastChild = some before ∧ number.toNat = before.toNat + 1 ∧
      number &&& 0x80000000 = before &&& 0x80000000

def WalksOn (path : DerivationPath) (count : ℕ) : Prop :=
  (∀ k < count, ∃ before later, path.walk k = ok before ∧ before.increment = ok later ∧
    before.incremented = ok later ∧ MovesOn before later) ∧
  ∀ i j before later number, i < j → j ≤ count → path.walk i = ok before → path.walk j = ok later →
    before.lastChild = some number → later.lastChild ≠ some number

namespace Index

def raised (index : Index) (k : ℕ) : Index := { index with value := Int64.ofInt (index.value.toInt + k) }

theorem raised_value {index : Index} {k : ℕ} (h0 : 0 ≤ index.value.toInt) (h : index.value.toInt + k < 2 ^ 63) :
    (index.raised k).value.toInt = index.value.toInt + k := Int64.toInt_ofInt_of_le (by omega) h

theorem raised_raised {index : Index} {k : ℕ} (h0 : 0 ≤ index.value.toInt) (h : index.value.toInt + k < 2 ^ 63) :
    (index.raised k).raised 1 = index.raised (k + 1) := by
  rw [raised, raised_value h0 h, raised, raised]
  push_cast
  rw [add_assoc]

theorem derivationIndex_raised {index : Index} {k : ℕ} (h0 : 0 ≤ index.value.toInt)
    (h : index.value.toInt + k ≤ 0x7fffffff) :
    ∃ number, (index.raised k).derivationIndex = some number ∧
      (number.toNat : ℤ) = index.value.toInt + k + if index.hardened then 2 ^ 31 else 0 := by
  have hvalue := raised_value h0 (by omega : index.value.toInt + k < 2 ^ 63)
  have hle : (index.raised k).value ≤ 0x7fffffff := Int64.le_iff_toInt_le.mpr (hvalue.trans_le h)
  have hnumber := derivationIndex_eq (by omega : 0 ≤ (index.raised k).value.toInt) hle
  rwa [hvalue] at hnumber

/-- The first value of 32 bits hides the flag. -/
theorem derivationIndex_beyond {index : Index} (h : index.value.toInt = 2 ^ 31) :
    index.derivationIndex = some 0x80000000 := by
  have hexact : exactly? index.value = some 0x80000000 := by
    rw [exactly?, h]
    rfl
  rw [derivationIndex, hexact]
  cases index.hardened with
  | false => rfl
  | true => rfl

end Index

theorem hardenedBit_eq (number : UInt32) :
    number &&& 0x80000000 = if 2 ^ 31 ≤ number.toNat then 0x80000000 else 0 := by
  have hlt := number.toNat_lt
  have hmask : (0x80000000 : UInt32).toNat = 2 ^ 31 := rfl
  apply UInt32.toNat_inj.mp
  rw [UInt32.toNat_and, hmask, Nat.and_two_pow, Nat.testBit_eq_decide_div_mod_eq]
  split
  · rename_i h
    have hone : number.toNat / 2 ^ 31 % 2 = 1 := by omega
    rw [hone]
    rfl
  · rename_i h
    have hzero : number.toNat / 2 ^ 31 % 2 = 0 := by omega
    rw [hzero]
    rfl

section

variable {path : DerivationPath} {front : List Index} {last : Index}

theorem lastChild_raised {k : ℕ} (h0 : 0 ≤ last.value.toInt) (h : last.value.toInt + k ≤ 0x7fffffff) :
    ∃ number, lastChild ⟨front ++ [last.raised k]⟩ = some number ∧
      (number.toNat : ℤ) = last.value.toInt + k + if last.hardened then 2 ^ 31 else 0 := by
  obtain ⟨number, hnumber, heq⟩ := Index.derivationIndex_raised h0 h
  refine ⟨number, ?_, heq⟩
  rw [lastChild, List.getLast?_concat, Option.bind_some, hnumber]

theorem movesOn_raised {k : ℕ} (h0 : 0 ≤ last.value.toInt) (h : last.value.toInt + (k + 1 : ℕ) ≤ 0x7fffffff) :
    MovesOn ⟨front ++ [last.raised k]⟩ ⟨front ++ [last.raised (k + 1)]⟩ := by
  obtain ⟨before, hbefore, hvalue⟩ := lastChild_raised h0 (by omega : last.value.toInt + k ≤ 0x7fffffff)
  obtain ⟨number, hnumber, hnext⟩ := lastChild_raised h0 h
  refine ⟨by rw [List.dropLast_concat, List.dropLast_concat], ?_⟩
  intro found hfound
  rw [hnumber] at hfound
  cases hfound
  refine ⟨before, hbefore, by omega, ?_⟩
  rw [hardenedBit_eq, hardenedBit_eq]
  cases hhardened : last.hardened with
  | false =>
    simp only [hhardened, Bool.false_eq_true, ↓reduceIte] at hvalue hnext
    rw [if_neg (by omega), if_neg (by omega)]
  | true =>
    simp only [hhardened, ↓reduceIte] at hvalue hnext
    rw [if_pos (by omega), if_pos (by omega)]

theorem not_movesOn {k : ℕ} (h0 : 0 ≤ last.value.toInt) (h : last.value.toInt + k = 0x7fffffff) :
    ¬ MovesOn ⟨front ++ [last.raised k]⟩ ⟨front ++ [last.raised (k + 1)]⟩ := by
  intro hmoves
  have hvalue : (last.raised (k + 1)).value.toInt = 2 ^ 31 := by
    rw [Index.raised_value h0 (by omega)]
    omega
  have hbeyond : lastChild ⟨front ++ [last.raised (k + 1)]⟩ = some 0x80000000 := by
    rw [lastChild, List.getLast?_concat, Option.bind_some, Index.derivationIndex_beyond hvalue]
  obtain ⟨number, hnumber, heq⟩ := lastChild_raised h0 h.le
  obtain ⟨before, hbefore, hnext, hbit⟩ := hmoves.2 _ hbeyond
  rw [hnumber] at hbefore
  cases hbefore
  have hlarge : (0x80000000 : UInt32).toNat = 2 ^ 31 := rfl
  rw [hlarge] at hnext
  rw [hardenedBit_eq, hardenedBit_eq, if_pos hlarge.ge, if_neg (by omega)] at hbit
  exact absurd hbit (by decide)

variable (hindices : path.indices = front ++ [last])

include hindices

theorem incremented_eq (h : last.value.toInt < 2 ^ 63 - 1) : path.incremented = ok ⟨front ++ [last.raised 1]⟩ := by
  have hmax : last.value ≠ Int64.maxValue := by
    intro hmax
    rw [hmax] at h
    exact absurd h (by decide)
  have hvalue : Int64.ofInt (last.value.toInt + (1 : ℕ)) = last.value + 1 := by
    rw [Int64.ofInt_add, Int64.ofInt_toInt]
    rfl
  rw [incremented, next, hindices, List.getLast?_concat]
  dsimp only
  rw [if_neg hmax, ok_bind, List.dropLast_concat, Index.raised, hvalue]

theorem walk_eq {k : ℕ} (h0 : 0 ≤ last.value.toInt) (h : last.value.toInt + k < 2 ^ 63) :
    path.walk k = ok ⟨front ++ [last.raised k]⟩ := by
  induction k with
  | zero =>
    have hzero : last.raised 0 = last := by simp [Index.raised]
    rw [walk, hzero, ← hindices]
  | succ k ih =>
    have hk : last.value.toInt + k < 2 ^ 63 := by omega
    have hraised := Index.raised_value h0 hk
    rw [walk, ih hk, ok_bind, incremented_eq rfl (by omega), Index.raised_raised h0 hk]

theorem walksOn_iff {n : ℕ} (h0 : 0 ≤ last.value.toInt) (h : last.value ≤ 0x7fffffff) :
    WalksOn path n ↔ last.value.toInt + n ≤ 0x7fffffff := by
  have hhigh : last.value.toInt ≤ 0x7fffffff := Int64.le_iff_toInt_le.mp h
  constructor
  · intro hwalks
    by_contra hbeyond
    obtain ⟨k, hk⟩ := Int.eq_ofNat_of_zero_le (by omega : 0 ≤ 0x7fffffff - last.value.toInt)
    have hend : last.value.toInt + k = 0x7fffffff := by omega
    obtain ⟨before, later, hbefore, _, hlater, hmoves⟩ := hwalks.1 k (by omega)
    rw [walk_eq hindices h0 (by omega)] at hbefore
    cases hbefore
    have hvalue := Index.raised_value h0 (by omega : last.value.toInt + k < 2 ^ 63)
    rw [incremented_eq rfl (by omega), Index.raised_raised h0 (by omega)] at hlater
    cases hlater
    exact not_movesOn h0 hend hmoves
  · intro hn
    constructor
    · intro k hk
      have hvalue := Index.raised_value h0 (by omega : last.value.toInt + k < 2 ^ 63)
      have hnext : incremented ⟨front ++ [last.raised k]⟩ = ok ⟨front ++ [last.raised (k + 1)]⟩ := by
        rw [incremented_eq rfl (by omega), Index.raised_raised h0 (by omega)]
      exact ⟨_, _, walk_eq hindices h0 (by omega), hnext, hnext, movesOn_raised h0 (by omega)⟩
    · intro i j before later number hij hj hbefore hlater hnumber hagain
      rw [walk_eq hindices h0 (by omega)] at hbefore hlater
      cases hbefore
      cases hlater
      obtain ⟨first, hfirst, hvalue⟩ := lastChild_raised h0 (by omega : last.value.toInt + i ≤ 0x7fffffff)
      obtain ⟨second, hsecond, hvalue'⟩ := lastChild_raised h0 (by omega : last.value.toInt + j ≤ 0x7fffffff)
      rw [hnumber] at hfirst
      rw [hagain] at hsecond
      cases hfirst
      cases hsecond
      omega

end

theorem increments_move_on_iff [Segmentation] {string : Text} {path : DerivationPath} {last : Index}
    (haccepted : ofString string = some path) (hlast : path.indices.getLast? = some last)
    (h : last.value ≤ 0x7fffffff) (n : ℕ) : WalksOn path n ↔ last.value.toInt + n ≤ 0x7fffffff := by
  obtain ⟨front, hindices⟩ := List.getLast?_eq_some_iff.mp hlast
  have hvalid := valid_of_ofString haccepted last (List.mem_of_getLast? hlast)
  exact walksOn_iff hindices hvalid.1 h

/-- An ordinary address path walks on through a thousand addresses. -/
theorem increments_of_first_address : @ofString scalarCharacters "m/44'/195'/0'/0/0".toList =
    some ⟨[⟨44, true⟩, ⟨195, true⟩, ⟨0, true⟩, ⟨0, false⟩, ⟨0, false⟩]⟩ ∧
    WalksOn ⟨[⟨44, true⟩, ⟨195, true⟩, ⟨0, true⟩, ⟨0, false⟩, ⟨0, false⟩]⟩ 1000 := by
  have haccepted : @ofString scalarCharacters "m/44'/195'/0'/0/0".toList =
      some ⟨[⟨44, true⟩, ⟨195, true⟩, ⟨0, true⟩, ⟨0, false⟩, ⟨0, false⟩]⟩ := by decide
  refine ⟨haccepted, ?_⟩
  exact (@increments_move_on_iff scalarCharacters _ _ ⟨0, false⟩ haccepted rfl (by decide) 1000).mpr (by decide)

/-- The last address of the range is followed by the first hardened one. -/
theorem increment_of_last_address : ¬ ∀ string path later last, @ofString scalarCharacters string = some path →
    path.indices.getLast? = some last → last.value ≤ 0x7fffffff → path.incremented = ok later →
    MovesOn path later := by
  intro hall
  have hmoves := hall "m/44'/195'/0'/0/2147483647".toList
    ⟨[⟨44, true⟩, ⟨195, true⟩, ⟨0, true⟩, ⟨0, false⟩, ⟨0x7fffffff, false⟩]⟩
    ⟨[⟨44, true⟩, ⟨195, true⟩, ⟨0, true⟩, ⟨0, false⟩, ⟨0x80000000, false⟩]⟩
    ⟨0x7fffffff, false⟩ (by decide) rfl (by decide) (by decide)
  obtain ⟨before, hbefore, -, hbit⟩ := hmoves.2 0x80000000 (by decide)
  have hvalue : before = 0x7fffffff := by
    have hnumber : some before = some 0x7fffffff := hbefore.symm
    exact Option.some.inj hnumber
  rw [hvalue] at hbit
  exact absurd hbit (by decide)

end DerivationPath

end TronlinkCore.Keystore
