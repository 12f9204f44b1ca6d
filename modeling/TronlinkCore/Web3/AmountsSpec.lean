import Mathlib.Tactic.NormNum
import TronlinkCore.Web3.Amounts

/-!
The amounts that are read are the written ones, exactly where no part that the
integer parser reads has a sign.
-/

namespace TronlinkCore.Web3

open Text MachineInt

theorem split_at_first {α : Type} (p : α → Bool) (xs : List α) :
    (∀ x ∈ xs, p x = false) ∨
      ∃ before separator after, xs = before ++ separator :: after ∧ p separator = true ∧ ∀ x ∈ before, p x = false := by
  induction xs with
  | nil => simp
  | cons x xs ih =>
    cases hx : p x with
    | true => exact .inr ⟨[], x, xs, rfl, hx, by simp⟩
    | false =>
      rcases ih with hall | ⟨before, separator, after, rfl, hsep, hbefore⟩
      · exact .inl (List.forall_mem_cons.mpr ⟨hx, hall⟩)
      · exact .inr ⟨x :: before, separator, after, rfl, hsep, List.forall_mem_cons.mpr ⟨hx, hbefore⟩⟩

theorem no_separator {s : Text} (h : Readable s) : ∀ c ∈ s, isSeparator c = false := by
  intro c hc
  rcases chars_of_readable h c hc with hd | rfl | rfl
  · rw [isSeparator, Bool.or_eq_false_iff, decide_eq_false_iff_not, decide_eq_false_iff_not]
    exact ⟨ne_of_isDigit hd rfl, ne_of_isDigit hd rfl⟩
  · rfl
  · rfl

theorem readable_of_isDigits {s : Text} (h : IsDigits s) : Readable s :=
  fun word hword => .inl (isDigits_iff_words.mp h word hword)

theorem exists_digit {s : Text} (h : Readable s) (hne : s ≠ []) : ∃ c ∈ s, c.isDigit := by
  have hflat := words_flatten (k := 19) (by decide) s
  cases hw : words 19 s with
  | nil =>
    rw [hw] at hflat
    exact absurd hflat.symm hne
  | cons word rest =>
    have hword : word ∈ words 19 s := by
      rw [hw]
      exact List.mem_cons_self
    have hdigit : ∃ c ∈ word, c.isDigit := by
      rcases h word hword with hdigits | ⟨digits, hd, hdigits, rfl | ⟨rfl, _⟩⟩
      · obtain ⟨c, hc⟩ := List.exists_mem_of_ne_nil word (words_bound hword).1
        exact ⟨c, hc, hdigits c hc⟩
      · obtain ⟨c, hc⟩ := List.exists_mem_of_ne_nil digits hd
        exact ⟨c, List.mem_cons_of_mem _ hc, hdigits c hc⟩
      · obtain ⟨c, hc⟩ := List.exists_mem_of_ne_nil digits hd
        exact ⟨c, List.mem_cons_of_mem _ hc, hdigits c hc⟩
    obtain ⟨c, hc, hd⟩ := hdigit
    exact ⟨c, mem_words hword hc, hd⟩

theorem any_digit_utf8 {s : Text} : (utf8 s).any (fun b => 48 ≤ b && b ≤ 57) = true ↔ ∃ c ∈ s, c.isDigit := by
  have hchar (c : Char) : (∃ b ∈ String.utf8EncodeChar c, (48 ≤ b && b ≤ 57) = true) ↔ c.isDigit := by
    simp only [Bool.and_eq_true, decide_eq_true_eq, UInt8.le_iff_toNat_le]
    have h48 : (48 : UInt8).toNat = 48 := rfl
    have h57 : (57 : UInt8).toNat = 57 := rfl
    have hdigit : c.isDigit = true ↔ 48 ≤ c.toNat ∧ c.toNat ≤ 57 := Char.isDigit_iff_toNat
    rw [hdigit]
    by_cases hc : c.toNat < 128
    · rw [utf8EncodeChar_of_ascii hc]
      have hnat : (UInt8.ofNat c.toNat).toNat = c.toNat := by
        rw [UInt8.toNat_ofNat']
        omega
      simp only [List.mem_singleton, exists_eq_left, hnat]
      omega
    · constructor
      · rintro ⟨b, hb, hlow, hhigh⟩
        have hge := utf8EncodeChar_ge (Nat.le_of_not_lt hc) b hb
        omega
      · rintro ⟨_, hhigh⟩
        omega
  rw [List.any_eq_true, utf8]
  simp only [List.mem_flatMap]
  constructor
  · rintro ⟨b, ⟨c, hc, hb⟩, hrange⟩
    exact ⟨c, hc, (hchar c).mp ⟨b, hb, hrange⟩⟩
  · rintro ⟨c, hc, hd⟩
    obtain ⟨b, hb, hrange⟩ := (hchar c).mpr hd
    exact ⟨b, ⟨c, hc, hb⟩, hrange⟩

theorem mem_dropWhile {α : Type} {p : α → Bool} {xs : List α} {x : α} (hx : p x = false) :
    x ∈ xs.dropWhile p ↔ x ∈ xs := by
  constructor
  · intro h
    exact (List.dropWhile_sublist p).subset h
  · intro h
    rw [← List.takeWhile_append_dropWhile (p := p) (l := xs), List.mem_append] at h
    rcases h with h | h
    · have htrue := List.mem_takeWhile_imp h
      rw [hx] at htrue
      cases htrue
    · exact h

theorem mem_trimming [Whitespace] {s : Text} {c : Char} (h : Whitespace.isMember c = false) :
    c ∈ trimming s ↔ c ∈ s := by
  rw [trimming, List.rdropWhile, List.mem_reverse, mem_dropWhile h, List.mem_reverse, mem_dropWhile h]

theorem digit_not_whitespace [Whitespace] {c : Char} (h : c.isDigit) : Whitespace.isMember c = false := by
  obtain ⟨hlow, hhigh⟩ := Char.isDigit_iff_toNat.mp h
  have h48 : 48 ≤ c.toNat := hlow
  have h57 : c.toNat ≤ 57 := hhigh
  exact Whitespace.visible c (by omega) (by omega)

theorem exists_digit_trimming [Whitespace] {s : Text} : (∃ c ∈ s, c.isDigit) ↔ ∃ c ∈ trimming s, c.isDigit := by
  constructor
  · rintro ⟨c, hc, hd⟩
    exact ⟨c, (mem_trimming (digit_not_whitespace hd)).mpr hc, hd⟩
  · rintro ⟨c, hc, hd⟩
    exact ⟨c, (mem_trimming (digit_not_whitespace hd)).mp hc, hd⟩

theorem Written.mem {text integer fraction : Text} (h : Written text integer fraction) {c : Char}
    (hc : c ∈ integer ++ fraction) : c ∈ text := by
  rcases h with ⟨rfl, rfl⟩ | ⟨separator, _, rfl⟩
  · simpa using hc
  · rcases List.mem_append.mp hc with hc | hc
    · exact List.mem_append_left _ hc
    · exact List.mem_append_right _ (List.mem_cons_of_mem _ hc)

theorem Written.mem_or {text integer fraction : Text} (h : Written text integer fraction) {c : Char}
    (hc : c ∈ text) : c ∈ integer ++ fraction ∨ isSeparator c = true := by
  rcases h with ⟨rfl, rfl⟩ | ⟨separator, hsep, rfl⟩
  · exact .inl (List.mem_append_left _ hc)
  · rw [List.mem_append, List.mem_cons] at hc
    rcases hc with hc | rfl | hc
    · exact .inl (List.mem_append_left _ hc)
    · exact .inr hsep
    · exact .inl (List.mem_append_right _ hc)

theorem readable_of_bigUInt? [Segmentation] {s : Text} {n : ℕ} (h : bigUInt? s = some n) : Readable s := by
  rw [← bigUInt?_isSome, h]
  rfl

theorem bigUInt?_nil [Segmentation] : bigUInt? [] = some 0 := bigUInt?_of_isDigits (by simp [IsDigits])

theorem any_digit_iff [Whitespace] {string integer fraction : Text} (hw : Written (trimming string) integer fraction)
    (hi : Readable integer) (hf : Readable fraction) :
    (utf8 string).any (fun b => 48 ≤ b && b ≤ 57) = true ↔ integer ++ fraction ≠ [] := by
  rw [any_digit_utf8, exists_digit_trimming]
  constructor
  · rintro ⟨c, hc, hd⟩ hnil
    rcases hw.mem_or hc with hmem | hsep
    · rw [hnil] at hmem
      cases hmem
    · have hone : IsDigits [c] := by
        intro e he
        rw [List.mem_singleton.mp he]
        exact hd
      have hno := no_separator (readable_of_isDigits hone) c List.mem_cons_self
      rw [hsep] at hno
      cases hno
  · intro hne
    by_cases hnil : integer = []
    · have hfraction : fraction ≠ [] := by
        rintro rfl
        exact hne (by rw [hnil]; rfl)
      obtain ⟨c, hc, hd⟩ := exists_digit hf hfraction
      exact ⟨c, hw.mem (List.mem_append_right _ hc), hd⟩
    · obtain ⟨c, hc, hd⟩ := exists_digit hi hnil
      exact ⟨c, hw.mem (List.mem_append_left _ hc), hd⟩

theorem trimming_of_visible [Whitespace] {s : Text} (h : ∀ c ∈ s, Whitespace.isMember c = false) : trimming s = s := by
  have hdrop {t : Text} (ht : ∀ c ∈ t, Whitespace.isMember c = false) : t.dropWhile Whitespace.isMember = t := by
    cases t with
    | nil => rfl
    | cons c t => exact List.dropWhile_cons_of_neg (by simp [ht c List.mem_cons_self])
  rw [trimming, hdrop h, List.rdropWhile, hdrop (fun c hc => h c (List.mem_reverse.mp hc)), List.reverse_reverse]

theorem trimming_of_isDigits [Whitespace] {s : Text} (h : IsDigits s) : trimming s = s :=
  trimming_of_visible fun c hc => digit_not_whitespace (h c hc)

def amountOf (a b decimals digits : ℕ) : ℕ := a * 10 ^ decimals + b * 10 ^ (decimals - digits)

theorem amountOf_eq {a b decimals digits value : ℕ} (h : digits ≤ decimals) :
    value = amountOf a b decimals digits ↔ (value : ℚ) = (a + b / 10 ^ digits) * 10 ^ decimals := by
  obtain ⟨k, rfl⟩ := Nat.exists_eq_add_of_le h
  have hcast : ((amountOf a b (digits + k) digits : ℕ) : ℚ) = (a + b / 10 ^ digits) * 10 ^ (digits + k) := by
    rw [amountOf, Nat.add_sub_cancel_left, pow_add]
    push_cast
    field_simp
    ring
  rw [← hcast]
  exact Nat.cast_inj.symm

section

variable [Segmentation] [Whitespace]

theorem amount?_of_written {string integer fraction : Text} {decimals a b : ℕ}
    (hw : Written (trimming string) integer fraction) (ha : bigUInt? integer = some a) (hb : bigUInt? fraction = some b)
    (hlen : fraction.length ≤ decimals) (hne : integer ++ fraction ≠ []) :
    amount? string decimals = some (amountOf a b decimals fraction.length) := by
  have hi := readable_of_bigUInt? ha
  have hf := readable_of_bigUInt? hb
  have hif : 0 ≤ (decimals : ℤ) ∧ (utf8 string).any (fun b => 48 ≤ b && b ≤ 57) = true :=
    ⟨Int.natCast_nonneg decimals, (any_digit_iff hw hi hf).mpr hne⟩
  rw [amount?, if_pos hif]
  rcases hw with ⟨htext, rfl⟩ | ⟨separator, hsep, htext⟩
  · rw [bigUInt?_nil] at hb
    cases hb
    rw [htext, List.splitOnP_eq_singleton (no_separator hi)]
    simp [ha, amountOf]
  · have hcount : count fraction = fraction.length := count_of_plain (plain_of_readable hf)
    rw [htext, List.splitOnP_append_cons_of_forall_mem (no_separator hi) separator hsep,
      List.splitOnP_eq_singleton (no_separator hf)]
    simp [ha, hb, hcount, hlen, amountOf]

theorem written_of_amount? {string : Text} {decimals value : ℕ} (h : amount? string decimals = some value) :
    ∃ integer fraction a b, Written (trimming string) integer fraction ∧ bigUInt? integer = some a ∧
      bigUInt? fraction = some b ∧ fraction.length ≤ decimals ∧ integer ++ fraction ≠ [] ∧
      value = amountOf a b decimals fraction.length := by
  rw [amount?] at h
  split at h
  · rename_i hif
    rcases split_at_first isSeparator (trimming string) with hall | ⟨before, separator, after, htext, hsep, hbefore⟩
    · rw [List.splitOnP_eq_singleton hall] at h
      simp only [Int.toNat_natCast, Option.bind_eq_bind, Option.bind_eq_some_iff, Option.some.injEq] at h
      obtain ⟨a, ha, rfl⟩ := h
      have hw : Written (trimming string) (trimming string) [] := .inl ⟨rfl, rfl⟩
      have hne := (any_digit_iff hw (readable_of_bigUInt? ha) (readable_of_bigUInt? bigUInt?_nil)).mp hif.2
      exact ⟨_, _, a, 0, hw, ha, bigUInt?_nil, Nat.zero_le _, hne, by simp [amountOf]⟩
    · have hw : Written (trimming string) before after := .inr ⟨separator, hsep, htext⟩
      rw [htext, List.splitOnP_append_cons_of_forall_mem hbefore separator hsep] at h
      rcases split_at_first isSeparator after with hall | ⟨second, other, rest, hafter, hother, hsecond⟩
      · rw [List.splitOnP_eq_singleton hall] at h
        simp only [Int.toNat_natCast, Option.bind_eq_bind, Option.bind_eq_some_iff] at h
        obtain ⟨a, ha, h⟩ := h
        split at h
        · rename_i hlen
          simp only [Option.bind_eq_some_iff, Option.some.injEq] at h
          obtain ⟨b, hb, rfl⟩ := h
          have hf := readable_of_bigUInt? hb
          have hcount : count after = after.length := count_of_plain (plain_of_readable hf)
          have hne := (any_digit_iff hw (readable_of_bigUInt? ha) hf).mp hif.2
          rw [hcount] at hlen ⊢
          exact ⟨_, _, a, b, hw, ha, hb, hlen, hne, rfl⟩
        · cases h
      · obtain ⟨third, others, hrest⟩ := List.exists_cons_of_ne_nil (List.splitOnP_ne_nil isSeparator rest)
        rw [hafter, List.splitOnP_append_cons_of_forall_mem hsecond other hother, hrest] at h
        cases h
  · cases h

theorem amount?_of_denotes {string : Text} {decimals value : ℕ} (h : Denotes string decimals value) :
    amount? string decimals = some value := by
  obtain ⟨integer, fraction, hw, hi, hf, hne, hlen, hvalue⟩ := h
  rw [(amountOf_eq hlen).mpr hvalue]
  exact amount?_of_written hw (bigUInt?_of_isDigits hi) (bigUInt?_of_isDigits hf) hlen hne

theorem amount?_of_isDigits {s : Text} (h : IsDigits s) (hne : s ≠ []) (decimals : ℕ) :
    amount? s decimals = some (decimalValue s * 10 ^ decimals) := by
  have hw : Written (trimming s) s [] := .inl ⟨trimming_of_isDigits h, rfl⟩
  have hamount := amount?_of_written hw (bigUInt?_of_isDigits h) bigUInt?_nil (Nat.zero_le decimals) (by simpa using hne)
  rw [hamount, amountOf]
  simp

def NaturalUnits.ofInt (int : ℤ) : Except ConversionError NaturalUnits :=
  if 0 ≤ int then
    .ok ⟨Nat.toDigits 10 int.toNat, by
      have h := amount?_of_isDigits (isDigits_toDigits int.toNat) Nat.toDigits_ne_nil 18
      exact Option.isSome_iff_exists.mpr ⟨_, h⟩⟩
  else .error (.cannotConvert ('-' :: Nat.toDigits 10 int.natAbs))

theorem denotes_of_amount? {string : Text} {decimals value : ℕ} (hfree : SignFree string decimals)
    (h : amount? string decimals = some value) : Denotes string decimals value := by
  obtain ⟨integer, fraction, a, b, hw, ha, hb, hlen, hne, hvalue⟩ := written_of_amount? h
  have hdigits := hfree integer fraction hw (readable_of_bigUInt? ha) (readable_of_bigUInt? hb) hlen
  obtain ⟨hi, hf⟩ := isDigits_append.mp hdigits
  rw [bigUInt?_of_isDigits hi] at ha
  rw [bigUInt?_of_isDigits hf] at hb
  cases ha
  cases hb
  exact ⟨integer, fraction, hw, hi, hf, hne, hlen, (amountOf_eq hlen).mp hvalue⟩

theorem number_eq_ok {units : NaturalUnits} {decimals value : ℕ} :
    (units.number decimals).toOption = some value ↔ amount? units.string decimals = some value := by
  rw [NaturalUnits.number, if_pos (Int.natCast_nonneg decimals)]
  cases amount? units.string decimals with
  | none => simp [Except.toOption]
  | some number => simp [Except.toOption]

theorem amount_exact_iff (string : Text) (decimals : ℕ) :
    ((∀ value, amount? string decimals = some value ↔ Denotes string decimals value) ∧
      ∀ units : NaturalUnits, units.string = string → ∀ value,
        (units.number decimals).toOption = some value ↔ Denotes string decimals value) ↔
      SignFree string decimals := by
  constructor
  · rintro ⟨hexact, _⟩ integer fraction hw hi hf hlen
    by_cases hne : integer ++ fraction = []
    · rw [hne]
      simp [IsDigits]
    · obtain ⟨a, ha⟩ := Option.isSome_iff_exists.mp (bigUInt?_isSome.mpr hi)
      obtain ⟨b, hb⟩ := Option.isSome_iff_exists.mp (bigUInt?_isSome.mpr hf)
      obtain ⟨integer', fraction', hw', hi', hf', _⟩ := (hexact _).mp (amount?_of_written hw ha hb hlen hne)
      intro c hc
      rcases hw'.mem_or (hw.mem hc) with hmem | hsep
      · exact isDigits_append.mpr ⟨hi', hf'⟩ c hmem
      · have hno : isSeparator c = false := by
          rcases List.mem_append.mp hc with hc | hc
          · exact no_separator hi c hc
          · exact no_separator hf c hc
        rw [hsep] at hno
        cases hno
  · intro hfree
    have hexact (value : ℕ) : amount? string decimals = some value ↔ Denotes string decimals value :=
      ⟨denotes_of_amount? hfree, amount?_of_denotes⟩
    refine ⟨hexact, ?_⟩
    rintro units rfl value
    rw [number_eq_ok]
    exact hexact value

end

attribute [local instance] scalarCharacters asciiWhitespace in
theorem signed_amount_is_read :
    amount? "1.+5".toList 6 = some 1050000 ∧ ¬ Denotes "1.+5".toList 6 1050000 := by
  constructor
  · decide +kernel
  · rintro ⟨integer, fraction, hw, hi, hf, _⟩
    have hmem : '+' ∈ integer ++ fraction ∨ isSeparator '+' = true := hw.mem_or (by decide)
    rcases hmem with hmem | hsep
    · exact absurd (isDigits_append.mpr ⟨hi, hf⟩ '+' hmem) (by decide)
    · cases hsep

end TronlinkCore.Web3
