import Mathlib.Data.Nat.Cast.Order.Field
import TronlinkCore.Web3.Formatting

/-!
What is printed denotes the amount with the digits behind the last decimal cut
off, and the printed text is read as the amount where all decimals fit.
-/

namespace TronlinkCore.Web3

open Text

structure Padded (n k : ℕ) (s : Text) : Prop where
  digits : IsDigits s
  length_eq : s.length = k
  value_eq : decimalValue s = n

theorem padded_leftPadding {n k : ℕ} (h : n < 10 ^ k) : Padded n k (leftPadding (Nat.toDigits 10 n) k '0') := by
  cases k with
  | zero =>
    have hn : n = 0 := by omega
    subst hn
    have hnil : leftPadding (Nat.toDigits 10 0) 0 '0' = [] := rfl
    rw [hnil]
    exact ⟨nofun, rfl, rfl⟩
  | succ k =>
    have hlen : (Nat.toDigits 10 n).length ≤ k + 1 := (Nat.length_toDigits_le_iff (by decide) (Nat.succ_pos k)).mpr h
    unfold leftPadding
    split
    · refine ⟨isDigits_append.mpr ⟨isDigits_zeros _, isDigits_toDigits n⟩, ?_, ?_⟩
      · rw [List.length_append, List.length_replicate]
        omega
      · rw [decimalValue_append, decimalValue_zeros, Nat.zero_mul, Nat.zero_add, decimalValue_toDigits]
    · have hk : (Nat.toDigits 10 n).length = k + 1 := by omega
      rw [hk, Nat.sub_self, List.drop_zero]
      exact ⟨isDigits_toDigits n, hk, decimalValue_toDigits n⟩

theorem Padded.take {n k t : ℕ} {s : Text} (h : Padded n k s) (ht : t ≤ k) :
    Padded (n / 10 ^ (k - t)) t (s.take t) := by
  refine ⟨h.digits.take t, ?_, ?_⟩
  · rw [List.length_take, h.length_eq, Nat.min_eq_left ht]
  · rw [decimalValue_take h.digits, h.value_eq, h.length_eq]

theorem offset_eq_none {s : Text} : offset s = none ↔ ∀ c ∈ s, c = '0' := by
  rw [offset, Option.map_eq_none_iff, List.findIdx?_eq_none_iff]
  simp

theorem take_offset {s : Text} {k : ℕ} (h : offset s = some k) : s.take k = s.rdropWhile (· == '0') := by
  rw [offset, Option.map_eq_some_iff] at h
  obtain ⟨i, hi, rfl⟩ := h
  have hindex := (List.findIdx?_eq_some_iff_findIdx_eq.mp hi).2
  have hnot : (fun c : Char => !(c == '0')) = fun c => decide (c ≠ '0') := by
    funext c
    by_cases hc : c = '0'
    · simp [hc]
    · simp [hc]
  rw [List.rdropWhile, List.dropWhile_eq_drop_findIdx_not, hnot, hindex, List.drop_reverse, List.reverse_reverse]

theorem kept_digits {s : Text} (h : IsDigits s) {k : ℕ} (hk : offset s = some k) (strip : Bool) :
    (if strip then s.take k else s) ≠ [] ∧ IsDigits (if strip then s.take k else s) ∧
      (if strip then s.take k else s).length ≤ s.length ∧
      (decimalValue (if strip then s.take k else s) : ℚ) / 10 ^ (if strip then s.take k else s).length =
        decimalValue s / 10 ^ s.length ∧
      (strip = true → (if strip then s.take k else s).getLast? ≠ some '0') := by
  have hnot : ¬ ∀ c ∈ s, c = '0' := by
    intro hall
    rw [offset_eq_none.mpr hall] at hk
    cases hk
  cases strip with
  | false =>
    refine ⟨?_, h, Nat.le_refl _, rfl, nofun⟩
    rintro rfl
    exact hnot nofun
  | true =>
    simp only [if_true, take_offset hk]
    have hbegins : s.rdropWhile (· == '0') <+: s := List.rdropWhile_prefix _ s
    refine ⟨?_, fun c hc => h c (hbegins.subset hc), hbegins.length_le, rdropWhile_value s, fun _ => rdropWhile_getLast? s⟩
    intro hnil
    apply hnot
    simpa using List.rdropWhile_eq_nil_iff.mp hnil

theorem truncated_eq {x u t : ℕ} (ht : t ≤ u) :
    x / 10 ^ (u - t) = x / 10 ^ u * 10 ^ t + x % 10 ^ u / 10 ^ (u - t) := by
  have hpow : 10 ^ u = 10 ^ (u - t) * 10 ^ t := by rw [← Nat.pow_add, Nat.sub_add_cancel ht]
  have hpos : 0 < 10 ^ (u - t) := Nat.pow_pos (by decide)
  calc x / 10 ^ (u - t) = (10 ^ u * (x / 10 ^ u) + x % 10 ^ u) / 10 ^ (u - t) := by rw [Nat.div_add_mod]
    _ = (10 ^ (u - t) * (x / 10 ^ u * 10 ^ t) + x % 10 ^ u) / 10 ^ (u - t) := by
      congr 2
      rw [hpow]
      ring
    _ = x / 10 ^ u * 10 ^ t + x % 10 ^ u / 10 ^ (u - t) := Nat.mul_add_div hpos _ _

def fractionDigits (x u : ℕ) : Text := leftPadding (Nat.toDigits 10 (x % 10 ^ u)) u '0'

theorem padded_fractionDigits (x u : ℕ) : Padded (x % 10 ^ u) u (fractionDigits x u) :=
  padded_leftPadding (Nat.mod_lt _ (Nat.pow_pos (by decide)))

theorem padded_take (x u d : ℕ) :
    Padded (x % 10 ^ u / 10 ^ (u - min u d)) (min u d) ((fractionDigits x u).take (min u d)) :=
  (padded_fractionDigits x u).take (Nat.min_le_left u d)

theorem string_of_ne_zero {x : ℕ} (hx : x ≠ 0) (u d : ℕ) (separator : Text) (options : StringOptions) :
    BigUInt.string x u d separator options =
      match offset ((fractionDigits x u).take (min u d)) with
      | some k =>
        if min u d = 0 then Nat.toDigits 10 (x / 10 ^ u)
        else if options.stripZeroes then
          Nat.toDigits 10 (x / 10 ^ u) ++ separator ++ ((fractionDigits x u).take (min u d)).take k
        else Nat.toDigits 10 (x / 10 ^ u) ++ separator ++ (fractionDigits x u).take (min u d)
      | none =>
        if x / 10 ^ u ≠ 0 ∨ options.fallbackToScientific = false then Nat.toDigits 10 (x / 10 ^ u)
        else
          (scientific (fractionDigits x u) d separator (Nat.toDigits 10 (x % 10 ^ u)) 0 (fractionDigits x u)).1 ++
            "e-".toList ++ Nat.toDigits 10
              (scientific (fractionDigits x u) d separator (Nat.toDigits 10 (x % 10 ^ u)) 0 (fractionDigits x u)).2 := by
  have hmin : (if (u : ℤ) < d then (u : ℤ) else d).toNat = min u d := by
    split <;> omega
  rw [BigUInt.string, if_pos ⟨Int.natCast_nonneg u, Int.natCast_nonneg d⟩, if_neg hx]
  simp only [hmin, Int.toNat_natCast, slice, List.drop_zero]
  rfl

theorem string_plain {x u d : ℕ} {options : StringOptions}
    (hplain : options.fallbackToScientific = false ∨ x = 0 ∨ x / 10 ^ (u - min u d) ≠ 0) :
    ∃ fraction, WritesDigits (BigUInt.string x u d ".".toList options) (Nat.toDigits 10 (x / 10 ^ u)) fraction ∧
      fraction.length ≤ min u d ∧
      (decimalValue fraction : ℚ) / 10 ^ fraction.length = (x % 10 ^ u / 10 ^ (u - min u d) : ℕ) / 10 ^ min u d ∧
      (options.stripZeroes = true → fraction.getLast? ≠ some '0') := by
  have hpadded := padded_take x u d
  by_cases hx : x = 0
  · subst hx
    refine ⟨[], ⟨.inl ⟨?_, rfl⟩, Nat.toDigits_ne_nil, isDigits_toDigits _, nofun⟩, Nat.zero_le _, ?_, nofun⟩
    · rw [BigUInt.string, if_pos ⟨Int.natCast_nonneg u, Int.natCast_nonneg d⟩, if_pos rfl, Nat.zero_div]
      rfl
    · simp [decimalValue]
  rw [string_of_ne_zero hx]
  cases hoffset : offset ((fractionDigits x u).take (min u d)) with
  | none =>
    have hzero : x % 10 ^ u / 10 ^ (u - min u d) = 0 := by
      rw [← hpadded.value_eq, decimalValue_eq_zero hpadded.digits]
      exact offset_eq_none.mp hoffset
    have hquotient : x / 10 ^ u ≠ 0 ∨ options.fallbackToScientific = false := by
      rcases hplain with hplain | hplain | hplain
      · exact .inr hplain
      · exact absurd hplain hx
      · left
        intro hnone
        rw [truncated_eq (Nat.min_le_left u d), hnone, hzero, Nat.zero_mul] at hplain
        exact hplain rfl
    refine ⟨[], ⟨.inl ⟨if_pos hquotient, rfl⟩, Nat.toDigits_ne_nil, isDigits_toDigits _, nofun⟩, Nat.zero_le _, ?_, nofun⟩
    rw [hzero]
    simp [decimalValue]
  | some k =>
    obtain ⟨hdigits, hlength, hvalue⟩ := hpadded
    obtain ⟨hne, hkept, hle, hsame, hlast⟩ := kept_digits hdigits hoffset options.stripZeroes
    have hpos : min u d ≠ 0 := by
      intro hzero
      rw [List.length_eq_zero_iff.mp (hlength.trans hzero)] at hoffset
      cases hoffset
    dsimp only
    rw [if_neg hpos]
    refine ⟨_, ⟨.inr ⟨?_, hne⟩, Nat.toDigits_ne_nil, isDigits_toDigits _, hkept⟩, hle.trans hlength.le, ?_, hlast⟩
    · split
      · exact List.append_assoc _ _ _
      · exact List.append_assoc _ _ _
    · rw [hsame, hvalue, hlength]

theorem denoted_plain {x u d : ℕ} {fraction : Text}
    (hvalue : (decimalValue fraction : ℚ) / 10 ^ fraction.length = (x % 10 ^ u / 10 ^ (u - min u d) : ℕ) / 10 ^ min u d) :
    denoted false (Nat.toDigits 10 (x / 10 ^ u)) fraction = (x / 10 ^ (u - min u d) : ℕ) / 10 ^ min u d := by
  have hpow : (10 : ℚ) ^ min u d ≠ 0 := pow_ne_zero _ (by norm_num)
  rw [denoted, hvalue, decimalValue_toDigits, truncated_eq (x := x) (Nat.min_le_left u d)]
  push_cast
  field_simp

theorem truncated_le (x u d : ℕ) : ((x / 10 ^ (u - min u d) : ℕ) : ℚ) / 10 ^ min u d ≤ x / 10 ^ u := by
  have hpow : (10 : ℚ) ^ u = 10 ^ (u - min u d) * 10 ^ min u d := by
    rw [← pow_add, Nat.sub_add_cancel (Nat.min_le_left u d)]
  have hle : ((x / 10 ^ (u - min u d) : ℕ) : ℚ) ≤ x / 10 ^ (u - min u d) := by
    exact_mod_cast Nat.cast_div_le
  rw [hpow, ← div_div]
  gcongr

theorem point_not_whitespace [Whitespace] : Whitespace.isMember '.' = false := Whitespace.visible '.' (by decide) (by decide)

theorem denotes_of_writes [Whitespace] {text integer fraction : Text} {u value : ℕ} (h : WritesDigits text integer fraction)
    (hlen : fraction.length ≤ u) (hvalue : (value : ℚ) = denoted false integer fraction * 10 ^ u) : Denotes text u value := by
  obtain ⟨htext, hne, hinteger, hfraction⟩ := h
  have hvisible : ∀ c ∈ text, Whitespace.isMember c = false := by
    intro c hc
    rcases htext with ⟨rfl, _⟩ | ⟨rfl, _⟩
    · exact digit_not_whitespace (hinteger c hc)
    · rw [List.mem_append, List.mem_cons] at hc
      rcases hc with hc | rfl | hc
      · exact digit_not_whitespace (hinteger c hc)
      · exact point_not_whitespace
      · exact digit_not_whitespace (hfraction c hc)
  refine ⟨integer, fraction, ?_, hinteger, hfraction, ?_, hlen, ?_⟩
  · rw [trimming_of_visible hvisible]
    rcases htext with htext | ⟨htext, _⟩
    · exact .inl htext
    · exact .inr ⟨'.', rfl, htext⟩
  · intro hnil
    exact hne (List.append_eq_nil_iff.mp hnil).1
  · rw [hvalue, denoted]
    simp

theorem scientific_zeros (full : Text) (decimals : ℕ) (separator fullRemainder : Text) (firstDigit k : ℕ) (rest : Text) :
    scientific full decimals separator fullRemainder firstDigit (List.replicate k '0' ++ rest) =
      scientific full decimals separator fullRemainder (firstDigit + k) rest := by
  induction k generalizing firstDigit with
  | zero => rfl
  | succ k ih =>
    rw [List.replicate_succ, List.cons_append, scientific, if_pos rfl, ih]
    congr 1
    omega

theorem scientific_digits {p decimals : ℕ} {separator fullRemainder : Text} {c : Char} (hc : c ≠ '0') (rest : Text) :
    scientific (List.replicate p '0' ++ c :: rest) decimals separator fullRemainder 0 (List.replicate p '0' ++ c :: rest) =
      (c :: if (rest.take decimals).isEmpty then [] else separator ++ rest.take decimals, p + 1) := by
  have hfirst : slice (List.replicate p '0' ++ c :: rest) p (p + 1) = [c] := by
    rw [slice, List.take_append, List.drop_append]
    simp
  have hbehind (k : ℕ) : slice (List.replicate p '0' ++ c :: rest) (p + 1) (p + 1 + k) = rest.take k := by
    have hzeros : (List.replicate p '0' ++ c :: rest).drop (p + 1) = rest := by
      rw [List.drop_append]
      simp
    rw [slice, List.drop_take, hzeros]
    congr 1
    omega
  have hlength : (List.replicate p '0' ++ c :: rest).length = p + 1 + rest.length := by
    simp only [List.length_append, List.length_replicate, List.length_cons]
    omega
  have hremaining :
      (if ((p + 1 + rest.length : ℕ) : ℤ) - p - 1 ≤ 0 then []
        else if (decimals : ℤ) < ((p + 1 + rest.length : ℕ) : ℤ) - p - 1 then
          slice (List.replicate p '0' ++ c :: rest) (p + 1)
            (if p + 1 + rest.length < p + 1 + decimals then p + 1 + rest.length else p + 1 + decimals)
        else slice (List.replicate p '0' ++ c :: rest) (p + 1) (p + 1 + rest.length)) = rest.take decimals := by
    split
    · have hnil : rest = [] := List.length_eq_zero_iff.mp (by omega)
      rw [hnil, List.take_nil]
    · split
      · rw [if_neg (by omega), hbehind]
      · rw [hbehind, List.take_length, List.take_of_length_le (by omega)]
  rw [scientific_zeros, Nat.zero_add, scientific, if_neg hc]
  simp only [hfirst, hlength, hremaining]
  rfl

theorem fractionDigits_of_lt {x u : ℕ} (hx : x ≠ 0) (hlt : x < 10 ^ u) :
    ∃ p, fractionDigits x u = List.replicate p '0' ++ Nat.toDigits 10 x ∧ u = p + (Nat.toDigits 10 x).length := by
  have hu : 0 < u := by
    apply Nat.pos_of_ne_zero
    rintro rfl
    omega
  have hlen : (Nat.toDigits 10 x).length ≤ u := (Nat.length_toDigits_le_iff (by decide) hu).mpr hlt
  refine ⟨u - (Nat.toDigits 10 x).length, ?_, by omega⟩
  rw [fractionDigits, Nat.mod_eq_of_lt hlt, leftPadding]
  split
  · rfl
  · have hk : (Nat.toDigits 10 x).length = u := by omega
    rw [hk, Nat.sub_self]
    rfl

theorem string_scientific {x u d : ℕ} (hx : x ≠ 0) {options : StringOptions} (hfallback : options.fallbackToScientific = true)
    (hzero : x / 10 ^ (u - min u d) = 0) {c : Char} {rest : Text} (hdigits : Nat.toDigits 10 x = c :: rest) (hc : c ≠ '0') :
    ∃ p, u = p + (rest.length + 1) ∧ BigUInt.string x u d ".".toList options =
      (c :: if (rest.take d).isEmpty then [] else ".".toList ++ rest.take d) ++ "e-".toList ++ Nat.toDigits 10 (p + 1) := by
  have htruncated := truncated_eq (x := x) (Nat.min_le_left u d)
  rw [hzero] at htruncated
  obtain ⟨hwhole, hkept⟩ := Nat.add_eq_zero_iff.mp htruncated.symm
  have hpos : 10 ^ min u d ≠ 0 := pow_ne_zero _ (by decide)
  have hquotient : x / 10 ^ u = 0 := (Nat.mul_eq_zero.mp hwhole).resolve_right hpos
  have hlt : x < 10 ^ u := Nat.lt_of_div_eq_zero (Nat.pow_pos (by decide)) hquotient
  obtain ⟨p, hfull, hu⟩ := fractionDigits_of_lt hx hlt
  have hpadded := padded_take x u d
  have hoffset : offset ((fractionDigits x u).take (min u d)) = none := by
    rw [offset_eq_none, ← decimalValue_eq_zero hpadded.digits, hpadded.value_eq, hkept]
  rw [hdigits, List.length_cons] at hu
  refine ⟨p, hu, ?_⟩
  rw [string_of_ne_zero hx, hoffset]
  dsimp only
  rw [if_neg (by simp [hquotient, hfallback]), hfull, hdigits, scientific_digits hc]

theorem denoted_scientific {x u p d : ℕ} {c : Char} {rest : Text} (hdigits : Nat.toDigits 10 x = c :: rest)
    (hu : u = p + (rest.length + 1)) :
    denoted false [c] (rest.take d) / 10 ^ (p + 1) =
      (x / 10 ^ (rest.length - d) * 10 ^ (rest.length - d) : ℕ) / 10 ^ u := by
  have htake : (c :: rest).take (1 + (rest.take d).length) = c :: rest.take d := by
    rw [Nat.add_comm, List.take_succ_cons, List.length_take, ← List.take_eq_take_min]
  have hcut : (c :: rest).length - (1 + (rest.take d).length) = rest.length - d := by
    rw [List.length_cons, List.length_take]
    omega
  have hvalue := decimalValue_take (isDigits_toDigits x) (1 + (rest.take d).length)
  rw [decimalValue_toDigits, hdigits, htake, hcut] at hvalue
  have happend := decimalValue_append [c] (rest.take d)
  rw [List.singleton_append, hvalue] at happend
  have hpow : u = (p + 1) + (rest.take d).length + (rest.length - d) := by
    rw [hu, List.length_take]
    omega
  rw [denoted, hpow, pow_add, pow_add, happend]
  simp only [Bool.false_eq_true, if_false, one_mul]
  push_cast
  field_simp
  ring

variable [Segmentation] [Whitespace]

theorem formatting_truncates (x u d : ℕ) (options : StringOptions) :
    ((options.fallbackToScientific = false ∨ x = 0 ∨ x / 10 ^ (u - min u d) ≠ 0) →
      ∃ integer fraction, WritesDigits (BigUInt.string x u d ".".toList options) integer fraction ∧
        denoted false integer fraction = (x / 10 ^ (u - min u d) : ℕ) / 10 ^ min u d ∧
        denoted false integer fraction ≤ x / 10 ^ u ∧
        (options.stripZeroes = true → fraction.getLast? ≠ some '0') ∧
        (u ≤ d → amount? (BigUInt.string x u d ".".toList options) u = some x)) ∧
    (options.fallbackToScientific = true → x ≠ 0 → x / 10 ^ (u - min u d) = 0 →
      ∃ m integer fraction k, BigUInt.string x u d ".".toList options = m ++ "e-".toList ++ Nat.toDigits 10 k ∧
        WritesDigits m integer fraction ∧
        integer ++ fraction = (Nat.toDigits 10 x).take (1 + min d ((Nat.toDigits 10 x).length - 1)) ∧
        0 < denoted false integer fraction / 10 ^ k ∧ denoted false integer fraction / 10 ^ k ≤ x / 10 ^ u ∧
        denoted false integer fraction / 10 ^ k =
          (x / 10 ^ ((Nat.toDigits 10 x).length - 1 - d) * 10 ^ ((Nat.toDigits 10 x).length - 1 - d) : ℕ) / 10 ^ u) := by
  constructor
  · intro hplain
    obtain ⟨fraction, hwrites, hlen, hvalue, hlast⟩ := string_plain hplain
    have hdenoted := denoted_plain hvalue
    refine ⟨_, fraction, hwrites, hdenoted, ?_, hlast, ?_⟩
    · rw [hdenoted]
      exact truncated_le x u d
    · intro hu
      apply amount?_of_denotes
      apply denotes_of_writes hwrites (hlen.trans (Nat.min_le_left u d))
      rw [hdenoted, Nat.min_eq_left hu, Nat.sub_self, Nat.pow_zero, Nat.div_one]
      field_simp
  · intro hfallback hx hzero
    obtain ⟨c, rest, hdigits, hc⟩ := Decimal.toDigits_cons (Nat.pos_of_ne_zero hx)
    obtain ⟨p, hu, hstring⟩ := string_scientific hx hfallback hzero hdigits hc
    have hy := denoted_scientific (d := d) hdigits hu
    have hall : IsDigits (c :: rest) := by
      rw [← hdigits]
      exact isDigits_toDigits x
    have hone : IsDigits [c] := hall.take 1
    have hrest : IsDigits rest := hall.drop 1
    refine ⟨_, [c], rest.take d, p + 1, hstring, ⟨?_, List.cons_ne_nil _ _, hone, hrest.take d⟩, ?_, ?_, ?_, ?_⟩
    · cases rest.take d with
      | nil => exact .inl ⟨rfl, rfl⟩
      | cons e kept => exact .inr ⟨rfl, List.cons_ne_nil _ _⟩
    · rw [hdigits, List.length_cons, Nat.add_sub_cancel, Nat.add_comm, List.take_succ_cons, ← List.take_eq_take_min]
      rfl
    · have hfirst : (0 : ℚ) < decimalValue [c] := by
        apply Nat.cast_pos.mpr
        apply Nat.pos_of_ne_zero
        rw [Ne, decimalValue_eq_zero hone]
        simpa using hc
      rw [denoted]
      simp only [Bool.false_eq_true, if_false, one_mul]
      positivity
    · have hle : ((x / 10 ^ (rest.length - d) * 10 ^ (rest.length - d) : ℕ) : ℚ) ≤ x := by
        exact_mod_cast Nat.div_mul_le_self _ _
      rw [hy]
      gcongr
    · rw [hy, hdigits, List.length_cons, Nat.add_sub_cancel]

end TronlinkCore.Web3
