import TronlinkCore.Abi.Logs

/-!
The dictionary of decoded values. Each value is written under its position and
then under the name of its parameter, and a later write replaces an earlier one.
-/

namespace TronlinkCore.Abi

/-- `String(index)` -/
abbrev position (index : ℕ) : Text := Nat.toDigits 10 index

def entries : List Text → List AnyObject → ℕ → Content → Content
  | name :: names, value :: values, index, content =>
    let content := Function.update content (position index) (some value)
    let content := if name.isEmpty then content else Function.update content name (some value)
    entries names values (index + 1) content
  | _, _, _, content => content

theorem position_injective : Function.Injective position := by
  intro i j h
  rw [← Nat.ofDigitChars_ten_toDigits (n := i), ← Nat.ofDigitChars_ten_toDigits (n := j)]
  exact congrArg (Nat.ofDigitChars 10 · 0) h

theorem position_isDigit {index : ℕ} {c : Char} (h : c ∈ position index) : c.isDigit :=
  Nat.isDigit_of_mem_toDigits (by decide) (by decide) h

theorem position_ne_name (index : ℕ) : position index ≠ "name".toList := by
  intro h
  have hn : 'n' ∈ position index := by simp [h]
  exact absurd (position_isDigit hn) (by decide)

def Writes (names : List Text) (index j : ℕ) (key : Text) : Prop :=
  key = position (index + j) ∨ (names[j]? = some key ∧ key ≠ [])

theorem writes_succ {name : Text} {names : List Text} {index j : ℕ} {key : Text} :
    Writes (name :: names) index (j + 1) key ↔ Writes names (index + 1) j key := by
  simp only [Writes, List.getElem?_cons_succ, Nat.add_assoc, Nat.add_comm 1 j]

theorem entries_of_unwritten {names : List Text} {values : List AnyObject} {index : ℕ} {content : Content}
    {key : Text} (h : ∀ j < values.length, ¬ Writes names index j key) :
    entries names values index content key = content key := by
  induction names generalizing values index content with
  | nil => cases values <;> rfl
  | cons name names ih =>
    cases values with
    | nil => rfl
    | cons value values =>
      have hnow : ¬ Writes (name :: names) index 0 key := h 0 (by simp)
      obtain ⟨hposition, hname⟩ : key ≠ position index ∧ ¬ (name = key ∧ key ≠ []) := by
        simpa [Writes] using hnow
      rw [entries, ih fun j hj hw => h (j + 1) (by simpa using hj) (writes_succ.mpr hw)]
      split
      · exact Function.update_of_ne hposition _ _
      · rename_i hempty
        rw [Function.update_of_ne, Function.update_of_ne hposition]
        rintro rfl
        exact hname ⟨rfl, by simpa using hempty⟩

theorem entries_of_lastWrite {names : List Text} {values : List AnyObject} {index j : ℕ} {content : Content}
    {key : Text} (hlen : names.length = values.length) (hj : j < values.length) (hw : Writes names index j key)
    (hlast : ∀ k, j < k → k < values.length → ¬ Writes names index k key) :
    entries names values index content key = values[j]? := by
  induction names generalizing values index j content with
  | nil =>
    rw [List.length_nil] at hlen
    omega
  | cons name names ih =>
    cases values with
    | nil => simp at hj
    | cons value values =>
      rw [entries]
      cases j with
      | succ j =>
        rw [List.getElem?_cons_succ]
        apply ih (by simpa using hlen) (by simpa using hj) (writes_succ.mp hw)
        intro k hk hlt hwk
        exact hlast (k + 1) (by omega) (by simpa using hlt) (writes_succ.mpr hwk)
      | zero =>
        rw [entries_of_unwritten fun k hk hwk =>
          hlast (k + 1) (by omega) (by simpa using hk) (writes_succ.mpr hwk)]
        -- the step writes the position first: a name that is the position gets the same value
        rcases hw with rfl | ⟨hname, hne⟩
        · by_cases h : name = position index
          · simp [h]
          · split
            · simp
            · rw [Nat.add_zero, Function.update_of_ne (Ne.symm h)]
              simp
        · obtain rfl : name = key := by simpa using hname
          rw [if_neg (by simpa using hne)]
          simp

def LastNamed (names : List Text) (key : Text) (j : ℕ) : Prop :=
  names[j]? = some key ∧ ∀ k, j < k → names[k]? ≠ some key

def Faithful (content : Content) (values : List AnyObject) : Prop :=
  ∀ i < values.length, content (position i) = values[i]?

/-- A parameter that is named like an earlier position holds the value of that position. -/
def Unshadowed (names : List Text) (values : List AnyObject) : Prop :=
  ∀ i j, i < j → LastNamed names (position i) j → values[j]? = values[i]?

theorem lastNamed_of_named {names : List Text} {key : Text} {i : ℕ} (h : ∃ j, i < j ∧ names[j]? = some key) :
    ∃ j, i < j ∧ LastNamed names key j := by
  classical
  obtain ⟨j, hij, hj⟩ := h
  have hlt : j < names.length := (List.getElem?_eq_some_iff.mp hj).1
  let last := Nat.findGreatest (fun k => names[k]? = some key) names.length
  have hlast : names[last]? = some key := Nat.findGreatest_spec (P := fun k => names[k]? = some key) hlt.le hj
  have hle : j ≤ last := Nat.le_findGreatest hlt.le hj
  refine ⟨last, by omega, hlast, ?_⟩
  intro k hk hnamed
  have hk' : k ≤ last := Nat.le_findGreatest (List.getElem?_eq_some_iff.mp hnamed).1.le hnamed
  omega

theorem writes_position {names : List Text} {i j : ℕ} :
    Writes names 0 j (position i) ↔ j = i ∨ names[j]? = some (position i) := by
  rw [Writes, Nat.zero_add]
  constructor
  · rintro (h | ⟨h, _⟩)
    · exact .inl (position_injective h).symm
    · exact .inr h
  · rintro (rfl | h)
    · exact .inl rfl
    · exact .inr ⟨h, Nat.toDigits_ne_nil⟩

theorem writes_name {names : List Text} {j : ℕ} :
    Writes names 0 j "name".toList ↔ names[j]? = some "name".toList := by
  rw [Writes]
  constructor
  · rintro (h | ⟨h, _⟩)
    · exact absurd h.symm (position_ne_name _)
    · exact h
  · intro h
    exact .inr ⟨h, by decide⟩

section

variable {names : List Text} {values : List AnyObject} (hlen : names.length = values.length)

include hlen

theorem entries_of_lastNamed {content : Content} {i j : ℕ} (hij : i < j) (h : LastNamed names (position i) j) :
    entries names values 0 content (position i) = values[j]? := by
  have hj : j < values.length := hlen ▸ (List.getElem?_eq_some_iff.mp h.1).1
  apply entries_of_lastWrite hlen hj (writes_position.mpr (.inr h.1))
  intro k hk _ hw
  rcases writes_position.mp hw with rfl | hnamed
  · omega
  · exact h.2 k hk hnamed

theorem entries_of_unnamed {content : Content} {i : ℕ} (hi : i < values.length)
    (h : ∀ j, i < j → names[j]? ≠ some (position i)) :
    entries names values 0 content (position i) = values[i]? := by
  apply entries_of_lastWrite hlen hi (writes_position.mpr (.inl rfl))
  intro k hk _ hw
  rcases writes_position.mp hw with rfl | hnamed
  · omega
  · exact h k hk hnamed

theorem entries_faithful_iff {content : Content} :
    Faithful (entries names values 0 content) values ↔ Unshadowed names values := by
  constructor
  · intro h i j hij hlast
    have hj : j < values.length := hlen ▸ (List.getElem?_eq_some_iff.mp hlast.1).1
    rw [← entries_of_lastNamed hlen hij hlast, h i (by omega)]
  · intro h i hi
    by_cases hnamed : ∃ j, i < j ∧ names[j]? = some (position i)
    · obtain ⟨j, hij, hlast⟩ := lastNamed_of_named hnamed
      rw [entries_of_lastNamed hlen hij hlast, h i j hij hlast]
    · push Not at hnamed
      exact entries_of_unnamed hlen hi hnamed

theorem entries_name_iff {content : Content} {value : AnyObject} (h0 : content "name".toList = some value) :
    entries names values 0 content "name".toList = some value ↔
      ∀ j, LastNamed names "name".toList j → values[j]? = some value := by
  by_cases hnamed : ∃ j : ℕ, names[j]? = some "name".toList
  · obtain ⟨j, hj⟩ := hnamed
    obtain ⟨last, hlast⟩ : ∃ last, LastNamed names "name".toList last := by
      by_cases h : ∃ k, j < k ∧ names[k]? = some "name".toList
      · obtain ⟨last, _, hlast⟩ := lastNamed_of_named h
        exact ⟨last, hlast⟩
      · push Not at h
        exact ⟨j, hj, h⟩
    have hlt : last < values.length := hlen ▸ (List.getElem?_eq_some_iff.mp hlast.1).1
    have hentry : entries names values 0 content "name".toList = values[last]? := by
      apply entries_of_lastWrite hlen hlt (writes_name.mpr hlast.1)
      intro k hk _ hw
      exact hlast.2 k hk (writes_name.mp hw)
    rw [hentry]
    constructor
    · intro hvalue k hk
      obtain rfl : k = last := by
        rcases Nat.lt_trichotomy k last with hlt | rfl | hlt
        · exact absurd hlast.1 (hk.2 last hlt)
        · rfl
        · exact absurd hk.1 (hlast.2 k hlt)
      exact hvalue
    · intro h
      exact h last hlast
  · push Not at hnamed
    rw [entries_of_unwritten fun j _ hw => hnamed j (writes_name.mp hw), h0]
    simp only [LastNamed, hnamed, false_and, false_implies, implies_true]

end

-- the hashes of the signatures that are used as samples
def knownHash (message : List UInt8) : List UInt8 :=
  HeadTail.wordOf
    (if message = Text.utf8 "Note(uint8,bool,string)".toList then
      0xbd0bf567c695d01a136c43e768bb0e7dd09a87395b17439bfdf28fd42a53f596
    else if message = Text.utf8 "Registered(string)".toList then
      0x8b5990d705f635a0482a4e48116f8fb0b728d90317aa3db1ec664a951f432ece
    else if message = Text.utf8 "f(uint8,bool[])".toList then
      0xf0bbc47189f4764478b1bbc4cbb8135d8aa2eb0defe09ba1e2e9baf9d79ea7c4
    else 0)

theorem knownHash_length (message : List UInt8) : (knownHash message).length = 32 := HeadTail.wordOf_length _

end TronlinkCore.Abi
