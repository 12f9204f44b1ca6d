import TronlinkCore.Abi.TypeTexts

namespace TronlinkCore.Abi

open Outcome MachineInt

theorem ofAscii_letters {bs : List UInt8} (h : ∀ b ∈ bs, isLetter b) :
    Text.utf8 (Text.ofAscii bs) = bs ∧ ∀ c ∈ Text.ofAscii bs, c.isLower := by
  have hle : ∀ b ∈ bs, 97 ≤ b.toNat ∧ b.toNat ≤ 122 := by
    intro b hb
    have hl := h b hb
    simpa [isLetter, UInt8.le_iff_toNat_le] using hl
  have hb : ∀ b ∈ bs, b < 128 := fun b hb => UInt8.lt_iff_toNat_lt.mpr (by have := hle b hb; simp; omega)
  refine ⟨Text.utf8_ofAscii hb, ?_⟩
  intro c hc
  obtain ⟨b, hm, rfl⟩ := List.mem_map.mp hc
  have ht := Text.toNat_ofAscii (hb b hm)
  have hr := hle b hm
  apply Bool.and_eq_true_iff.mpr
  rw [decide_eq_true_eq, decide_eq_true_eq, ge_iff_le, UInt32.le_iff_toNat_le, UInt32.le_iff_toNat_le]
  change 97 ≤ (Char.ofNat b.toNat).toNat ∧ (Char.ofNat b.toNat).toNat ≤ 122
  rwa [ht]

theorem ofAscii_digits {bs : List UInt8} (h : ∀ b ∈ bs, isDigitByte b) :
    Text.utf8 (Text.ofAscii bs) = bs ∧ ∀ c ∈ Text.ofAscii bs, c.isDigit := by
  have hle : ∀ b ∈ bs, 48 ≤ b.toNat ∧ b.toNat ≤ 57 := by
    intro b hb
    have hd := h b hb
    simpa [isDigitByte, UInt8.le_iff_toNat_le] using hd
  have hb : ∀ b ∈ bs, b < 128 := fun b hb => UInt8.lt_iff_toNat_lt.mpr (by have := hle b hb; simp; omega)
  refine ⟨Text.utf8_ofAscii hb, ?_⟩
  intro c hc
  obtain ⟨b, hm, rfl⟩ := List.mem_map.mp hc
  rw [Char.isDigit_iff_toNat, Text.toNat_ofAscii (hb b hm)]
  exact hle b hm

theorem takeWhile_all {p : UInt8 → Bool} (bs : List UInt8) : ∀ b ∈ bs.takeWhile p, p b :=
  List.all_eq_true.mp List.all_takeWhile

theorem parseDigits_eq_ok {digits : List UInt8} {n : UInt64} (h : parseDigits digits = ok n)
    (hd : ∀ b ∈ digits, isDigitByte b) (hne : digits ≠ []) (h0 : digits.length = 1 ∨ digits.head? ≠ some 48) :
    digits = Text.utf8 (decimal n) := by
  obtain ⟨hutf, hdigit⟩ := ofAscii_digits hd
  have hof : Text.ofUtf8? digits = some (Text.ofAscii digits) := by
    rw [← hutf, Text.ofUtf8?_utf8, hutf]
  rw [parseDigits, hof, ofOption_some, ok_bind, ofOption_eq_ok] at h
  have hlen : (Text.ofAscii digits).length = digits.length := List.length_map _
  rw [decimal_of_uint64? h hdigit, hutf]
  · intro hnil
    rw [hnil] at hlen
    exact hne (List.length_eq_zero_iff.mp hlen.symm)
  · rw [hlen]
    apply h0.imp_right
    intro hhead hzero
    apply hhead
    cases digits with
    | nil => exact absurd rfl hne
    | cons b bs =>
      have hb : b < 128 := by
        have hd := hd b List.mem_cons_self
        rw [isDigitByte, Bool.and_eq_true, decide_eq_true_eq, decide_eq_true_eq] at hd
        exact UInt8.lt_of_le_of_lt hd.2 (by decide)
      have hz : (Char.ofNat b.toNat).toNat = 48 := congrArg Char.toNat (Option.some.inj hzero)
      rw [Text.toNat_ofAscii hb] at hz
      exact congrArg some (UInt8.toNat_inj.mp hz)

theorem parseWidth_eq_ok {digits : List UInt8} {width : Option UInt64} (h : parseWidth digits = ok width)
    (hd : ∀ b ∈ digits, isDigitByte b) :
    width = none ∧ digits = [] ∨ ∃ n, width = some n ∧ digits = Text.utf8 (decimal n) := by
  unfold parseWidth at h
  split at h
  · cases h
    exact .inl ⟨rfl, ‹_›⟩
  · simp only [bind_eq_ok, ensure_eq_ok, exists_const, ok.injEq] at h
    obtain ⟨hhead, n, hn, rfl⟩ := h
    exact .inr ⟨n, rfl, parseDigits_eq_ok hn hd ‹_› (.inr hhead)⟩

theorem parseFixed_eq_ok {width : Option UInt64} {bytes rest : List UInt8} {bits decimals : UInt64}
    (h : parseFixed width bytes = ok (bits, decimals, rest)) :
    width = none ∧ bits = 128 ∧ decimals = 18 ∧ bytes = rest ∨
      width = some bits ∧ bytes = Text.utf8 ('x' :: decimal decimals) ++ rest := by
  unfold parseFixed at h
  split at h
  · simp only [bind_eq_ok, ofOption_eq_ok, consume_eq_some, ensure_eq_ok, exists_const, ok.injEq, Prod.mk.injEq] at h
    obtain ⟨bytes', rfl, ⟨hne, hhead⟩, n, hn, rfl, rfl, rfl⟩ := h
    right
    refine ⟨rfl, ?_⟩
    rw [Text.utf8_cons_ascii (by decide), ← parseDigits_eq_ok hn (takeWhile_all _) hne (.inr hhead), List.cons_append,
      List.takeWhile_append_dropWhile]
    rfl
  · cases h
    exact .inl ⟨rfl, rfl, rfl, rfl⟩

theorem parseLength_eq_ok {bytes rest : List UInt8} {n : UInt64} (h : parseLength bytes = ok (n, rest)) :
    bytes = Text.utf8 (decimal n ++ [']']) ++ rest := by
  simp only [parseLength, bind_eq_ok, ofOption_eq_ok, consume_eq_some, ensure_eq_ok, exists_const, ok.injEq,
    Prod.mk.injEq] at h
  obtain ⟨⟨hne, hhead⟩, m, hm, rest', hr, rfl, rfl⟩ := h
  rw [Text.utf8_append, ← parseDigits_eq_ok hm (takeWhile_all _) hne hhead, List.append_assoc]
  have hclose : Text.utf8 [']'] ++ rest' = bytes.dropWhile isDigitByte := hr.symm
  rw [hclose, List.takeWhile_append_dropWhile]

theorem parseSuffix_eq_ok {t u : ParameterType} {bytes rest : List UInt8} (h : parseSuffix t bytes = ok (u, rest)) :
    ∃ s, 91 :: bytes = Text.utf8 s ++ rest ∧ ∀ s' v, Suffix s' u v → Suffix (s ++ s') t v := by
  unfold parseSuffix at h
  split at h
  · rename_i hc
    cases h
    refine ⟨['[', ']'], ?_, fun s' v hs => .dynamic hs⟩
    rw [consume_eq_some.mp hc]
    rfl
  · simp only [bind_eq_ok, Prod.exists, ok.injEq, Prod.mk.injEq] at h
    obtain ⟨n, rest', hl, rfl, rfl⟩ := h
    refine ⟨'[' :: (decimal n ++ [']']), ?_, ?_⟩
    · rw [parseLength_eq_ok hl, Text.utf8_cons_ascii (by decide)]
      rfl
    · intro s' v hs
      have hs := Suffix.length n hs
      rwa [List.cons_append, List.append_assoc]

theorem parseSuffix_length {t u : ParameterType} {bytes rest : List UInt8} (h : parseSuffix t bytes = ok (u, rest)) :
    rest.length < bytes.length := by
  unfold parseSuffix at h
  split at h
  · rename_i hc
    cases h
    rw [consume_eq_some.mp hc]
    exact Nat.lt_succ_self _
  · simp only [bind_eq_ok, Prod.exists, ok.injEq, Prod.mk.injEq] at h
    obtain ⟨n, rest', hl, _, rfl⟩ := h
    rw [parseLength_eq_ok hl, Text.utf8_append]
    have hclose : Text.utf8 [']'] = [93] := rfl
    simp only [hclose, List.length_append, List.length_singleton]
    omega

theorem parseArrays_eq_ok {t u : ParameterType} {depth : ℕ} {bytes rest : List UInt8}
    (h : parseArrays t depth bytes = ok (u, rest)) :
    ∃ s, bytes = Text.utf8 s ++ rest ∧ Suffix s t u ∧ Admitted depth u ∧ u.typeSize ≤ maxNodes := by
  induction hn : bytes.length using Nat.strongRecOn generalizing t bytes with
  | _ n ih =>
    rw [parseArrays] at h
    simp only [bind_eq_ok, Prod.exists, layout_eq_ok] at h
    obtain ⟨l, nodes, ⟨ha, hsize, _⟩, h⟩ := h
    split at h
    · cases h
      exact ⟨[], rfl, .none _, ha, hsize⟩
    · rename_i rest' hc
      simp only [bind_eq_ok, Prod.exists] at h
      obtain ⟨v, rest'', hs, h⟩ := h
      split at h
      · rename_i hlt
        obtain ⟨s', hs', hsuf, hu⟩ := ih _ (hn ▸ hlt) h rfl
        obtain ⟨s, hb, hstep⟩ := parseSuffix_eq_ok hs
        refine ⟨s ++ s', ?_, hstep s' u hsuf, hu⟩
        rw [consume_eq_some.mp hc, hb, hs', Text.utf8_append, List.append_assoc]
      · cases h

theorem parseDigits_ne_trap (digits : List UInt8) : parseDigits digits ≠ trap := by
  apply bind_ne_trap (ofOption_ne_trap _)
  intro _ _
  exact ofOption_ne_trap _

theorem parseSuffix_ne_trap (t : ParameterType) (bytes : List UInt8) : parseSuffix t bytes ≠ trap := by
  unfold parseSuffix
  split
  · simp
  · apply bind_ne_trap
    · apply bind_ne_trap (ensure_ne_trap _)
      intro _ _
      apply bind_ne_trap (parseDigits_ne_trap _)
      intro _ _
      apply bind_ne_trap (ofOption_ne_trap _)
      simp
    · simp

theorem parseArrays_ne_trap (t : ParameterType) (depth : ℕ) (bytes : List UInt8) : parseArrays t depth bytes ≠ trap := by
  induction hn : bytes.length using Nat.strongRecOn generalizing t bytes with
  | _ n ih =>
    rw [parseArrays]
    apply bind_ne_trap (layout_ne_trap t depth maxNodes)
    intro _ _
    split
    · simp
    · rename_i rest hc
      apply bind_ne_trap (parseSuffix_ne_trap t rest)
      rintro ⟨u, rest'⟩ hs
      have hlt := parseSuffix_length hs
      have hb := congrArg List.length (consume_eq_some.mp hc)
      rw [List.length_cons] at hb
      dsimp only
      rw [dif_pos (by omega)]
      exact ih rest'.length (by omega) u rest' rfl

theorem namedType_eq_ok {name : Text} {width : Option UInt64} {depth : ℕ} {digits bytes rest : List UInt8}
    {t : ParameterType} (hname : ∀ c ∈ name, c.isLower)
    (hwidth : width = none ∧ digits = [] ∨ ∃ n, width = some n ∧ digits = Text.utf8 (decimal n))
    (h : namedType name width depth bytes = ok (t, rest)) :
    ∃ w, Text.utf8 name ++ (digits ++ bytes) = Text.utf8 w ++ rest ∧
      (Names w t ∨ depth = 0 ∧ w = "tuple".toList ∧ t = .tuple []) := by
  -- a name that is read as it stands
  have bare (hw : width = none) (hb : bytes = rest) (ht : t.abiRepresentation = name ++ aliasSizes name)
      (hn : t.normalised = t) : ∃ w, Text.utf8 name ++ (digits ++ bytes) = Text.utf8 w ++ rest ∧
        (Names w t ∨ depth = 0 ∧ w = "tuple".toList ∧ t = .tuple []) := by
    obtain ⟨_, rfl⟩ | ⟨n, hs, _⟩ := hwidth
    · exact ⟨name, by rw [hb, List.nil_append], .inl (.bare hname ht hn)⟩
    · rw [hw] at hs
      cases hs
  have sized (n : UInt64) (hw : width = some n) (hb : bytes = rest) (ht : t.abiRepresentation = name ++ decimal n)
      (hn : t.normalised = t) : ∃ w, Text.utf8 name ++ (digits ++ bytes) = Text.utf8 w ++ rest ∧
        (Names w t ∨ depth = 0 ∧ w = "tuple".toList ∧ t = .tuple []) := by
    obtain ⟨hs, _⟩ | ⟨m, hs, rfl⟩ := hwidth
    · rw [hw] at hs
      cases hs
    · rw [hw] at hs
      cases hs
      exact ⟨name ++ decimal n, by rw [hb, Text.utf8_append, List.append_assoc], .inl (.sized n hname ht hn)⟩
  unfold namedType at h
  split at h
  · cases h
    cases width with
    | none => exact bare rfl rfl (by subst name; rfl) rfl
    | some n => exact sized n rfl rfl (by subst name; rfl) rfl
  split at h
  · cases h
    cases width with
    | none => exact bare rfl rfl (by subst name; rfl) rfl
    | some n => exact sized n rfl rfl (by subst name; rfl) rfl
  split at h
  · rename_i hfixed
    simp only [bind_eq_ok, Prod.exists, ok.injEq, Prod.mk.injEq] at h
    obtain ⟨bits, decimals, rest', hf, ht, rfl⟩ := h
    have hrep : t.abiRepresentation = name ++ decimal bits ++ 'x' :: decimal decimals := by
      rcases hfixed with rfl | rfl
      · rw [← ht]
        rfl
      · rw [← ht]
        rfl
    have hn : t.normalised = t := by
      rw [← ht]
      split <;> rfl
    rcases parseFixed_eq_ok hf with ⟨hw, rfl, rfl, hb⟩ | ⟨hw, hb⟩
    · refine bare hw hb ?_ hn
      rw [hrep]
      rcases hfixed with rfl | rfl <;> rfl
    · obtain ⟨hs, _⟩ | ⟨m, hs, rfl⟩ := hwidth
      · rw [hw] at hs
        cases hs
      · rw [hw] at hs
        cases hs
        refine ⟨name ++ decimal bits ++ 'x' :: decimal decimals, ?_, .inl (.fixed bits decimals hname hrep hn)⟩
        rw [hb, Text.utf8_append, Text.utf8_append, List.append_assoc, List.append_assoc]
  split at h
  · split at h
    · cases h
      exact sized _ rfl rfl (by subst name; rfl) rfl
    · cases h
      exact bare rfl rfl (by subst name; rfl) rfl
  split at h
  · rename_i hc
    cases h
    exact bare hc.2 rfl (by rw [hc.1]; rfl) rfl
  split at h
  · rename_i hc
    cases h
    exact bare hc.2 rfl (by rw [hc.1]; rfl) rfl
  split at h
  · rename_i hc
    cases h
    exact bare hc.2 rfl (by rw [hc.1]; rfl) rfl
  split at h
  · rename_i hc
    cases h
    exact bare hc.2 rfl (by rw [hc.1]; rfl) rfl
  split at h
  · rename_i hc
    cases h
    obtain ⟨_, rfl⟩ | ⟨n, hs, _⟩ := hwidth
    · exact ⟨name, rfl, .inr ⟨hc.2.2, hc.1, rfl⟩⟩
    · rw [hc.2.1] at hs
      cases hs
  · cases h

theorem parseName_eq_ok {depth : ℕ} {bytes rest : List UInt8} {t : ParameterType}
    (h : parseName depth bytes = ok (t, rest)) :
    ∃ w, bytes = Text.utf8 w ++ rest ∧ (Names w t ∨ depth = 0 ∧ w = "tuple".toList ∧ t = .tuple []) := by
  simp only [parseName, bind_eq_ok, ofOption_eq_ok] at h
  obtain ⟨name, hname, width, hwidth, h⟩ := h
  obtain ⟨hutf, hlower⟩ := ofAscii_letters (@takeWhile_all isLetter bytes)
  have heq : name = Text.ofAscii (bytes.takeWhile isLetter) := by
    apply Text.utf8_injective
    rw [Text.utf8_of_ofUtf8? hname, hutf]
  rw [← heq] at hutf hlower
  obtain ⟨w, hw, hn⟩ := namedType_eq_ok hlower (parseWidth_eq_ok hwidth (takeWhile_all _)) h
  refine ⟨w, ?_, hn⟩
  rw [← hw, hutf, List.takeWhile_append_dropWhile, List.takeWhile_append_dropWhile]

theorem parseWidth_ne_trap (digits : List UInt8) : parseWidth digits ≠ trap := by
  apply ite_ne_trap (by simp)
  apply bind_ne_trap (ensure_ne_trap _)
  intro _ _
  apply bind_ne_trap (parseDigits_ne_trap _)
  simp

theorem parseFixed_ne_trap (width : Option UInt64) (bytes : List UInt8) : parseFixed width bytes ≠ trap := by
  unfold parseFixed
  split
  · apply bind_ne_trap (ofOption_ne_trap _)
    intro _ _
    apply bind_ne_trap (ensure_ne_trap _)
    intro _ _
    apply bind_ne_trap (parseDigits_ne_trap _)
    simp
  · simp

theorem namedType_ne_trap (name : Text) (width : Option UInt64) (depth : ℕ) (bytes : List UInt8) :
    namedType name width depth bytes ≠ trap := by
  apply ite_ne_trap (by simp)
  apply ite_ne_trap (by simp)
  apply ite_ne_trap
  · apply bind_ne_trap (parseFixed_ne_trap width bytes)
    simp
  apply ite_ne_trap
  · cases width <;> simp
  apply ite_ne_trap (by simp)
  apply ite_ne_trap (by simp)
  apply ite_ne_trap (by simp)
  apply ite_ne_trap (by simp)
  exact ite_ne_trap (by simp) (by simp)

theorem parseName_ne_trap (depth : ℕ) (bytes : List UInt8) : parseName depth bytes ≠ trap := by
  apply bind_ne_trap (ofOption_ne_trap _)
  intro name _
  apply bind_ne_trap (parseWidth_ne_trap _)
  intro width _
  exact namedType_ne_trap name width depth _

section

variable {parse : List UInt8 → Outcome (ParameterType × List UInt8)}

theorem parseComponents_eq_ok
    (hp : ∀ bytes t rest, parse bytes = ok (t, rest) → ∃ w, bytes = Text.utf8 w ++ rest ∧ Names w t)
    {bytes rest : List UInt8} {ts : List ParameterType} (h : parseComponents parse bytes = ok (ts, rest)) :
    ∃ ws, ws ≠ [] ∧ bytes = Text.utf8 (joined ws ++ [')']) ++ rest ∧ List.Forall₂ Names ws ts := by
  have hclose (w : Text) (rest : List UInt8) : Text.utf8 w ++ 41 :: rest = Text.utf8 (w ++ [')']) ++ rest := by
    rw [Text.utf8_append, List.append_assoc]
    rfl
  induction hn : bytes.length using Nat.strongRecOn generalizing bytes ts with
  | _ n ih =>
    rw [parseComponents] at h
    simp only [bind_eq_ok, Prod.exists] at h
    obtain ⟨t, rest', ht, h⟩ := h
    obtain ⟨w, hw, hnames⟩ := hp _ _ _ ht
    split at h
    · rename_i hc
      cases h
      refine ⟨[w], by simp, ?_, .cons hnames .nil⟩
      rw [hw, consume_eq_some.mp hc, hclose]
      rfl
    · simp only [bind_eq_ok, ofOption_eq_ok, consume_eq_some] at h
      obtain ⟨rest'', hc, h⟩ := h
      split at h
      · rename_i hlt
        simp only [bind_eq_ok, Prod.exists, ok.injEq, Prod.mk.injEq] at h
        obtain ⟨us, rest3, hus, rfl, rfl⟩ := h
        obtain ⟨ws, hne, hb, hall⟩ := ih _ (hn ▸ hlt) hus rfl
        refine ⟨w :: ws, by simp, ?_, .cons hnames hall⟩
        cases ws with
        | nil => exact absurd rfl hne
        | cons v vs =>
          have hj : joined (w :: v :: vs) = w ++ ',' :: joined (v :: vs) := rfl
          rw [hw, hc, hb, hj, List.append_assoc, List.cons_append, Text.utf8_append w, List.append_assoc,
            Text.utf8_cons_ascii (by decide)]
          rfl
      · cases h

theorem parseTuple_eq_ok
    (hp : ∀ bytes t rest, parse bytes = ok (t, rest) → ∃ w, bytes = Text.utf8 w ++ rest ∧ Names w t)
    {bytes rest : List UInt8} {t : ParameterType} (h : parseTuple parse bytes = ok (t, rest)) :
    ∃ w, 40 :: bytes = Text.utf8 w ++ rest ∧ Names w t := by
  have hopen (w : Text) (rest : List UInt8) : 40 :: (Text.utf8 w ++ rest) = Text.utf8 ('(' :: w) ++ rest := by
    rw [Text.utf8_cons_ascii (by decide)]
    rfl
  unfold parseTuple at h
  split at h
  · rename_i hc
    cases h
    refine ⟨'(' :: joined [] ++ [')'], ?_, .tuple .nil⟩
    rw [consume_eq_some.mp hc]
    rfl
  · simp only [bind_eq_ok, Prod.exists, ok.injEq, Prod.mk.injEq] at h
    obtain ⟨ts, rest', hts, rfl, rfl⟩ := h
    obtain ⟨ws, _, hb, hall⟩ := parseComponents_eq_ok hp hts
    refine ⟨'(' :: joined ws ++ [')'], ?_, .tuple hall⟩
    rw [hb, hopen, List.cons_append]

theorem parseComponents_ne_trap (hp : ∀ bytes, parse bytes ≠ trap)
    (hlen : ∀ bytes t rest, parse bytes = ok (t, rest) → rest.length ≤ bytes.length) (bytes : List UInt8) :
    parseComponents parse bytes ≠ trap := by
  induction hn : bytes.length using Nat.strongRecOn generalizing bytes with
  | _ n ih =>
    rw [parseComponents]
    apply bind_ne_trap (hp bytes)
    rintro ⟨t, rest⟩ ht
    have hrest := hlen _ _ _ ht
    dsimp only
    split
    · simp
    · apply bind_ne_trap (ofOption_ne_trap _)
      intro rest' hc
      have hb := congrArg List.length (consume_eq_some.mp (ofOption_eq_ok.mp hc))
      rw [List.length_cons] at hb
      rw [dif_pos (by omega)]
      apply bind_ne_trap (ih rest'.length (by omega) rest' rfl)
      simp

end

theorem parseLevels_eq_ok {levels depth : ℕ} {bytes rest : List UInt8} {t : ParameterType}
    (h : parseLevels levels depth bytes = ok (t, rest)) :
    ∃ w, bytes = Text.utf8 w ++ rest ∧ Admitted depth t ∧ t.typeSize ≤ maxNodes ∧
      (Names w t ∨ depth = 0 ∧ ∃ s, w = "tuple".toList ++ s ∧ Suffix s (.tuple []) t) := by
  induction levels generalizing depth bytes rest t with
  | zero => cases h
  | succ levels ih =>
    simp only [parseLevels, bind_eq_ok, ensure_eq_ok, exists_const, Prod.exists] at h
    obtain ⟨_, base, rest', hbase, h⟩ := h
    have hnamed : ∃ w, bytes = Text.utf8 w ++ rest' ∧
        (Names w base ∨ depth = 0 ∧ w = "tuple".toList ∧ base = .tuple []) := by
      unfold parseBase at hbase
      split at hbase
      · rename_i hc
        have hp : ∀ bytes t rest, (do
            let depth ← addInt depth 1
            parseLevels levels depth bytes) = ok (t, rest) → ∃ w, bytes = Text.utf8 w ++ rest ∧ Names w t := by
          intro bytes t rest hcomp
          simp only [bind_eq_ok, addInt_eq_ok] at hcomp
          obtain ⟨_, ⟨_, rfl⟩, hcomp⟩ := hcomp
          obtain ⟨w, hw, _, _, hn | ⟨hd, _⟩⟩ := ih hcomp
          · exact ⟨w, hw, hn⟩
          · omega
        obtain ⟨w, hw, hn⟩ := parseTuple_eq_ok hp hbase
        refine ⟨w, ?_, .inl hn⟩
        rw [consume_eq_some.mp hc, hw]
      · exact parseName_eq_ok hbase
    obtain ⟨w, hw, hn⟩ := hnamed
    obtain ⟨s, hs, hsuf, ha, hsize⟩ := parseArrays_eq_ok h
    refine ⟨w ++ s, ?_, ha, hsize, ?_⟩
    · rw [hw, hs, Text.utf8_append, List.append_assoc]
    · rcases hn with hn | ⟨hd, hw, hb⟩
      · exact .inl (hn.suffix hsuf)
      · refine .inr ⟨hd, s, by rw [hw], ?_⟩
        rwa [hb] at hsuf

theorem parseLevels_length {levels depth : ℕ} {bytes rest : List UInt8} {t : ParameterType}
    (h : parseLevels levels depth bytes = ok (t, rest)) : rest.length ≤ bytes.length := by
  obtain ⟨w, hw, _⟩ := parseLevels_eq_ok h
  rw [hw, List.length_append]
  exact Nat.le_add_left _ _

theorem parseLevels_ne_trap {levels depth : ℕ} (bytes : List UInt8) (hl : 0 < levels)
    (hd : maxDepth < depth + levels) : parseLevels levels depth bytes ≠ trap := by
  have hm : maxDepth ≤ intMax := by decide
  induction levels generalizing depth bytes with
  | zero => omega
  | succ levels ih =>
    rw [parseLevels]
    apply bind_ne_trap (ensure_ne_trap _)
    intro _ hlt
    have hlt := ensure_eq_ok.mp hlt
    apply bind_ne_trap
    · unfold parseBase
      split
      · unfold parseTuple
        split
        · simp
        · rw [addInt_of_le (by omega)]
          apply bind_ne_trap
          · apply parseComponents_ne_trap
            · intro bytes
              exact ih bytes (by omega) (by omega)
            · intro bytes t rest
              exact parseLevels_length
          · simp
      · exact parseName_ne_trap depth bytes
    · rintro ⟨t, rest⟩ _
      exact parseArrays_ne_trap t depth rest

theorem parseTypeString_ne_trap (string : Text) : parseTypeString string ≠ trap := by
  apply bind_ne_trap (parseLevels_ne_trap _ (by decide) (by decide))
  rintro ⟨t, rest⟩ _
  apply bind_ne_trap (ensure_ne_trap _)
  simp

theorem parseTypeString_eq_ok {string : Text} {t : ParameterType} (h : parseTypeString string = ok t) :
    Admitted 0 t ∧ t.typeSize ≤ maxNodes ∧
      (Names string t ∨ ∃ s, string = "tuple".toList ++ s ∧ Suffix s (.tuple []) t) := by
  simp only [parseTypeString, bind_eq_ok, Prod.exists, ensure_eq_ok, exists_const, ok.injEq] at h
  obtain ⟨u, rest, hu, hrest, rfl⟩ := h
  obtain ⟨w, hw, ha, hsize, hn⟩ := parseLevels_eq_ok hu
  rw [hrest, List.append_nil] at hw
  rw [Text.utf8_injective hw]
  exact ⟨ha, hsize, hn.imp_right And.right⟩

end TronlinkCore.Abi
