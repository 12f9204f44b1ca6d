import TronlinkCore.Library.ShortestDecimals
import TronlinkCore.Library.Strings
import TronlinkCore.Metrics.Totals

/-!
What `removeFloatSuffixZero` makes of a decimal text: its shortest spelling.
-/

namespace TronlinkCore.Metrics

open Text

theorem plain_of_isDigit {c : Char} (h : c.isDigit) : Plain c := by
  obtain ⟨hlow, hhigh⟩ := Char.isDigit_iff_toNat.mp h
  have hlow : 48 ≤ c.toNat := hlow
  have hhigh : c.toNat ≤ 57 := hhigh
  refine ⟨by omega, ?_⟩
  rintro rfl
  exact absurd hlow (by decide)

theorem plain_of_parts {integer rest : Text} (hinteger : IsDigits integer)
    (hrest : rest = [] ∨ ∃ fraction, rest = '.' :: fraction ∧ IsDigits fraction) : ∀ c ∈ integer ++ rest, Plain c := by
  intro c hc
  rcases List.mem_append.mp hc with hc | hc
  · exact plain_of_isDigit (hinteger c hc)
  · rcases hrest with rfl | ⟨fraction, rfl, hfraction⟩
    · cases hc
    · rcases List.mem_cons.mp hc with rfl | hc
      · exact ⟨by decide, by decide⟩
      · exact plain_of_isDigit (hfraction c hc)

theorem plain_of_writes {s integer fraction : Text} (h : WritesDigits s integer fraction) : ∀ c ∈ s, Plain c := by
  intro c hc
  rcases chars_of_writes h c hc with rfl | hdigit
  · exact ⟨by decide, by decide⟩
  · exact plain_of_isDigit hdigit

section

variable [Graphemes]

theorem contains_point {s : Text} (h : ∀ c ∈ s, Plain c) : s.tails.any (Text.hasPrefix · ['.']) = true ↔ '.' ∈ s := by
  rw [List.any_eq_true]
  constructor
  · rintro ⟨t, ht, hpoint⟩
    have hsuffix := (List.mem_tails t s).mp ht
    have hbegins := (hasPrefix_of_plain fun c hc => h c (hsuffix.subset hc)).mp hpoint
    exact hsuffix.subset (hbegins.subset List.mem_cons_self)
  · intro hpoint
    obtain ⟨front, rest, rfl⟩ := List.append_of_mem hpoint
    refine ⟨'.' :: rest, (List.mem_tails _ _).mpr (List.suffix_append front _), ?_⟩
    apply (hasPrefix_of_plain fun c hc => h c (List.mem_append_right front hc)).mpr
    exact List.prefix_append ['.'] rest

theorem removeLeadingZeros_eq {s : Text} (h : ∀ c ∈ s, Plain c) : removeLeadingZeros s = s.dropWhile (· == '0') := by
  induction s with
  | nil => rfl
  | cons c s ih =>
    rw [removeLeadingZeros]
    by_cases hc : c = '0'
    · rw [if_pos, ih fun d hd => h d (List.mem_cons_of_mem c hd), List.dropWhile_cons_of_pos (by simp [hc])]
      rw [hasPrefix_of_plain h, hc]
      exact List.prefix_append ['0'] s
    · rw [if_neg, List.dropWhile_cons_of_neg (by simpa using hc)]
      rw [hasPrefix_of_plain h, List.cons_prefix_cons]
      exact fun hbegins => hc hbegins.1.symm

theorem leading_zeros_removed {integer rest : Text} (hinteger : IsDigits integer)
    (hrest : rest = [] ∨ ∃ fraction, rest = '.' :: fraction ∧ IsDigits fraction) :
    (let returnString := removeLeadingZeros (integer ++ rest)
     let returnString := if Text.hasPrefix returnString ['.'] then '0' :: returnString else returnString
     if returnString.isEmpty then ['0'] else returnString) = Nat.toDigits 10 (decimalValue integer) ++ rest := by
  have hplain := plain_of_parts hinteger hrest
  have hdrop : (integer ++ rest).dropWhile (· == '0') = integer.dropWhile (· == '0') ++ rest := by
    rw [List.dropWhile_append]
    split
    · rename_i hnil
      rw [List.isEmpty_iff] at hnil
      rw [hnil, List.nil_append]
      rcases hrest with rfl | ⟨fraction, rfl, _⟩
      · rfl
      · rfl
    · rfl
  have hkept : ∀ c ∈ integer.dropWhile (· == '0') ++ rest, Plain c := by
    rw [← hdrop]
    exact fun c hc => hplain c ((List.dropWhile_suffix _).subset hc)
  simp only [removeLeadingZeros_eq hplain, hdrop, toDigits_decimalValue hinteger]
  cases hdigits : integer.dropWhile (· == '0') with
  | nil =>
    rw [hdigits] at hkept
    rcases hrest with rfl | ⟨fraction, rfl, _⟩
    · rfl
    · have hpoint : Text.hasPrefix ([] ++ '.' :: fraction) ['.'] = true :=
        (hasPrefix_of_plain hkept).mpr (List.prefix_append ['.'] fraction)
      rw [hpoint]
      rfl
  | cons c digits =>
    have hdigit : c.isDigit :=
      hinteger c ((List.dropWhile_suffix _).subset (by rw [hdigits]; exact List.mem_cons_self))
    have hpoint : Text.hasPrefix (c :: digits ++ rest) ['.'] = false := by
      apply hasPrefix_eq_false
      rw [List.cons_append, List.cons_prefix_cons]
      rintro ⟨rfl, _⟩
      exact absurd hdigit (by decide)
    rw [hpoint]
    rfl

omit [Graphemes] in
theorem rdropWhile_zeros (front fraction : Text) :
    (front ++ '.' :: fraction).rdropWhile (· == '0') = front ++ '.' :: fraction.rdropWhile (· == '0') := by
  have hzeros : fraction.rdropWhile (· == '0') ++ fraction.rtakeWhile (· == '0') = fraction :=
    List.rdropWhile_append_rtakeWhile
  induction fraction using List.reverseRecOn with
  | nil => exact List.rdropWhile_concat_neg _ _ _ (by decide)
  | append_singleton fraction c ih =>
    rw [← List.cons_append, ← List.append_assoc]
    by_cases hc : c = '0'
    · rw [List.rdropWhile_concat_pos _ _ _ (by simp [hc]), List.rdropWhile_concat_pos _ _ _ (by simp [hc])]
      exact ih List.rdropWhile_append_rtakeWhile
    · rw [List.rdropWhile_concat_neg _ _ _ (by simpa using hc), List.rdropWhile_concat_neg _ _ _ (by simpa using hc)]
      simp

theorem trailing_zeros_removed {s integer fraction : Text} (h : WritesDigits s integer fraction) : ∃ rest,
    (let returnString := if s.tails.any (Text.hasPrefix · ['.']) then s.rdropWhile (· = '0') else s
     if returnString.getLast? = some '.' then returnString.dropLast else returnString) = integer ++ rest ∧
    shortest integer fraction = Nat.toDigits 10 (decimalValue integer) ++ rest ∧
    (rest = [] ∨ ∃ fraction, rest = '.' :: fraction ∧ IsDigits fraction) := by
  have hpoint := contains_point (plain_of_writes h)
  have hlast {c : Char} {digits : Text} (hdigits : IsDigits digits) (hc : digits.getLast? = some c) : c ≠ '.' := by
    rintro rfl
    exact point_not_mem hdigits (List.mem_of_getLast? hc)
  rcases h.text_eq with ⟨rfl, rfl⟩ | ⟨rfl, hne⟩
  · refine ⟨[], ?_, ?_, .inl rfl⟩
    · rw [if_neg fun hany => point_not_mem h.integer_digits (hpoint.mp hany)]
      dsimp only
      rw [if_neg fun hdot => hlast h.integer_digits hdot rfl, List.append_nil]
    · rw [shortest, if_pos (List.rdropWhile_nil _), List.append_nil]
  · have hmem : '.' ∈ integer ++ '.' :: fraction := List.mem_append_right _ List.mem_cons_self
    have hcut : (integer ++ '.' :: fraction).rdropWhile (· = '0') = integer ++ '.' :: fraction.rdropWhile (· == '0') :=
      rdropWhile_zeros integer fraction
    have hdigits := h.fraction_digits.rdropWhile (· == '0')
    rw [if_pos (hpoint.mpr hmem), hcut, shortest]
    cases hkept : fraction.rdropWhile (· == '0') with
    | nil => exact ⟨[], by simp, by simp, .inl rfl⟩
    | cons c digits =>
      rw [hkept] at hdigits
      refine ⟨'.' :: c :: digits, ?_, if_neg (List.cons_ne_nil c digits), .inr ⟨_, rfl, hdigits⟩⟩
      apply if_neg
      intro hdot
      apply hlast hdigits _ rfl
      rwa [List.getLast?_append_of_ne_nil _ (List.cons_ne_nil _ _), List.getLast?_cons_cons] at hdot

theorem removeFloatSuffixZero_eq {s integer fraction : Text} (h : WritesDigits s integer fraction) :
    removeFloatSuffixZero s = shortest integer fraction := by
  obtain ⟨rest, hcut, hshortest, hrest⟩ := trailing_zeros_removed h
  have hfront := leading_zeros_removed h.integer_digits hrest
  rw [hshortest, ← hfront, ← hcut]
  rfl

theorem removeFloatSuffixZero_nil : removeFloatSuffixZero [] = shortest [] [] := rfl

end

theorem takeWhile_digits {digits : Text} (h : IsDigits digits) (rest : Text)
    (hrest : rest.head?.all (! Char.isDigit ·)) :
    (digits ++ rest).takeWhile Char.isDigit = digits ∧ (digits ++ rest).dropWhile Char.isDigit = rest := by
  rw [List.takeWhile_append_of_pos h, List.dropWhile_append_of_pos h]
  cases rest with
  | nil => exact ⟨List.append_nil _, rfl⟩
  | cons c rest =>
    have hc : ¬ c.isDigit = true := by simpa using hrest
    rw [List.takeWhile_cons_of_neg hc, List.dropWhile_cons_of_neg hc, List.append_nil]
    exact ⟨rfl, rfl⟩

theorem unsigned_of_writes {s integer fraction : Text} (h : WritesDigits s integer fraction) : unsigned s = s := by
  unfold unsigned
  split
  · exact absurd h (not_writesDigits (.inr rfl) integer fraction)
  · rfl

theorem head?_of_writes {s integer fraction : Text} (h : WritesDigits s integer fraction) : s.head? ≠ some '-' := by
  obtain ⟨c, rest, rfl, hc⟩ := digit_of_writes h
  intro hhead
  exact ne_of_isDigit hc rfl (Option.some.inj hhead)

theorem decimalNumber_of_writes {s integer fraction : Text} (h : WritesDigits s integer fraction) :
    decimalNumber s = denoted false integer fraction := by
  rw [decimalNumber, unsigned_of_writes h, if_neg (head?_of_writes h), denoted, if_neg (by decide), one_mul]
  rcases h.text_eq with ⟨htext, rfl⟩ | ⟨htext, _⟩
  · have hparts := takeWhile_digits h.integer_digits [] rfl
    rw [List.append_nil] at hparts
    rw [htext, hparts.1, hparts.2]
    rfl
  · have hparts := takeWhile_digits h.integer_digits ('.' :: fraction) rfl
    rw [htext, hparts.1, hparts.2]
    rfl

theorem writes_of_isPureNumber {s : Text} (h : isPureNumber s = true) :
    ∃ fraction, WritesDigits (unsigned s) ((unsigned s).takeWhile Char.isDigit) fraction := by
  have hsplit := List.takeWhile_append_dropWhile (p := Char.isDigit) (l := unsigned s)
  have hdigits : IsDigits ((unsigned s).takeWhile Char.isDigit) := fun c hc => List.mem_takeWhile_imp hc
  unfold isPureNumber at h
  rw [List.span_eq_takeWhile_dropWhile] at h
  split at h
  · cases h
  · rename_i digits hne hparts
    obtain ⟨htake, hdrop⟩ := Prod.mk.inj hparts
    rw [hdrop, List.append_nil] at hsplit
    refine ⟨[], .inl ⟨hsplit.symm, rfl⟩, ?_, hdigits, nofun⟩
    rw [htake]
    rintro rfl
    exact hne rfl
  · rename_i digits point fraction hne hparts
    obtain ⟨htake, hdrop⟩ := Prod.mk.inj hparts
    simp only [Bool.and_eq_true, decide_eq_true_eq, Bool.not_eq_true', List.isEmpty_eq_false_iff, List.all_eq_true] at h
    obtain ⟨⟨rfl, hfraction⟩, hall⟩ := h
    rw [hdrop] at hsplit
    refine ⟨fraction, .inr ⟨hsplit.symm, hfraction⟩, ?_, hdigits, hall⟩
    rw [htake]
    rintro rfl
    exact hne rfl

theorem isPureNumber_of_writes {s integer fraction : Text} (h : WritesDigits s integer fraction) :
    isPureNumber s = true := by
  unfold isPureNumber
  rw [unsigned_of_writes h, List.span_eq_takeWhile_dropWhile]
  rcases h.text_eq with ⟨rfl, rfl⟩ | ⟨rfl, hne⟩
  · have hparts := takeWhile_digits h.integer_digits [] rfl
    rw [List.append_nil] at hparts
    rw [hparts.1, hparts.2]
    split
    · rename_i hnil
      exact absurd (Prod.mk.inj hnil).1 h.integer_ne
    · rfl
    · rename_i hcons
      cases (Prod.mk.inj hcons).2
  · have hparts := takeWhile_digits h.integer_digits ('.' :: fraction) rfl
    rw [hparts.1, hparts.2]
    split
    · rename_i hnil
      exact absurd (Prod.mk.inj hnil).1 h.integer_ne
    · rename_i hnil
      cases (Prod.mk.inj hnil).2
    · rename_i hcons
      cases (Prod.mk.inj hcons).2
      simp only [Bool.and_eq_true, decide_eq_true_eq, Bool.not_eq_true', List.isEmpty_eq_false_iff, List.all_eq_true]
      exact ⟨⟨trivial, hne⟩, h.fraction_digits⟩

theorem denoted_lt {integer fraction : Text} (hinteger : IsDigits integer) (hfraction : IsDigits fraction) :
    denoted false integer fraction < 10 ^ integer.length := by
  have hlt := fraction_lt_one hfraction
  have hle : (decimalValue integer : ℚ) + 1 ≤ 10 ^ integer.length := by
    exact_mod_cast decimalValue_lt hinteger
  rw [denoted, if_neg (by decide), one_mul]
  linarith

theorem denoted_nonneg (integer fraction : Text) : 0 ≤ denoted false integer fraction := by
  rw [denoted, if_neg (by decide), one_mul]
  positivity

theorem decimalNumber_lt {s : Text} (h : isPureNumber s = true) :
    decimalNumber s < 10 ^ ((unsigned s).takeWhile Char.isDigit).length := by
  obtain ⟨fraction, hwrites⟩ := writes_of_isPureNumber h
  have hlt := denoted_lt hwrites.integer_digits hwrites.fraction_digits
  by_cases hminus : s.head? = some '-'
  · have hnegative : decimalNumber s = - decimalNumber (unsigned s) := by
      cases s with
      | nil => cases hminus
      | cons c s =>
        cases hminus
        have hunsigned : unsigned ('-' :: s) = s := rfl
        have hagain := unsigned_of_writes hwrites
        rw [hunsigned] at hagain hwrites ⊢
        rw [decimalNumber, decimalNumber, hunsigned, hagain, if_pos List.head?_cons, if_neg (head?_of_writes hwrites)]
    have hnonneg := denoted_nonneg ((unsigned s).takeWhile Char.isDigit) fraction
    rw [hnegative, decimalNumber_of_writes hwrites]
    linarith
  · have hunsigned : unsigned s = s := by
      unfold unsigned
      split
      · exact absurd rfl hminus
      · rfl
    rw [hunsigned] at hwrites hlt ⊢
    rw [decimalNumber_of_writes hwrites]
    exact hlt

end TronlinkCore.Metrics
