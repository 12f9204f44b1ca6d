import TronlinkCore.TrezorCrypto.Bip39
import TronlinkCore.TrezorCrypto.HmacSpec
import TronlinkCore.Library.Bip39
import TronlinkCore.Library.Separated

/-!
`bip39.c` writes the sentences of BIP 39, reads the entropy back from them, and
accepts nothing else.
-/

namespace TronlinkCore.TrezorCrypto

open Windows Outcome
open Bip39 (Valid checked places sentence)

theorem sha256Raw_length (message : List UInt8) : (sha256Raw message).length = 32 := by
  have hraw := implements_sha256.raw_eq message
  rw [sha256Raw, sha256Final, sha256Update, sha256Init]
  rw [Family.raw] at hraw
  rw [hraw, Implements.hash_length]

variable {data : List UInt8}

theorem checksummed_take (h : Valid data) : (checksummed data).take (data.length + 1) = data ++ (sha256Raw data).take 1 := by
  have hupper := h.upper
  have hhash := sha256Raw_length data
  have hfirst (k : ℕ) (hk : k < 32) : (overwrite (List.replicate 33 0) 0 (sha256Raw data))[k]? = (sha256Raw data)[k]? := by
    rw [getElem?_overwrite (by rw [hhash, List.length_replicate]; omega), if_pos (by omega), Nat.sub_zero]
  have hget (k : ℕ) : (checksummed data)[k]? = if k < data.length then data[k]?
      else ((overwrite (List.replicate 33 0) 0 (sha256Raw data)).set data.length
        ((overwrite (List.replicate 33 0) 0 (sha256Raw data)).getD 0 0))[k]? := by
    rw [checksummed, getElem?_overwrite (by rw [List.length_set, overwrite_length, List.length_replicate]; omega), Nat.sub_zero,
      Nat.zero_add]
    congr 1
    apply propext
    omega
  have hsum : (checksummed data)[data.length]? = (sha256Raw data)[0]? := by
    rw [hget, if_neg (Nat.lt_irrefl _), List.getElem?_set_self (by rw [overwrite_length, List.length_replicate]; omega),
      List.getD_eq_getElem?_getD, hfirst 0 (by omega), List.getElem?_eq_getElem (by omega)]
    rfl
  have hdata : (checksummed data).take data.length = data := by
    apply List.ext_getElem?
    intro k
    rw [List.getElem?_take]
    by_cases hk : k < data.length
    · rw [if_pos hk, hget, if_pos hk]
    · rw [if_neg hk, List.getElem?_eq_none (by omega)]
  rw [List.take_add_one, hdata, hsum, List.take_add_one, List.take_zero, List.nil_append]

theorem bit_ne_zero (b : UInt8) {m : ℕ} (hm : m < 8) : b &&& (1 <<< UInt8.ofNat m) ≠ 0 ↔ b.toNat.testBit m = true := by
  have h : ∀ n : Fin 256, ∀ m : Fin 8,
      UInt8.ofNat n &&& (1 <<< UInt8.ofNat m) ≠ 0 ↔ (UInt8.ofNat n).toNat.testBit m = true := by decide +kernel
  have hb := h ⟨b.toNat, b.toNat_lt⟩ ⟨m, hm⟩
  rwa [UInt8.ofNat_toNat] at hb

theorem wordIndex_eq {bits : List UInt8} {i : ℕ} (hi : 11 * i + 11 ≤ 8 * bits.length) :
    wordIndex bits i = Bits.value (window (Bits.ofBytes bits) (11 * i) 11) := by
  have hbit (j : ℕ) (hj : j < 11) : (Bits.ofBytes bits)[11 * i + j]? =
      some (decide (bits.getD ((i * 11 + j) / 8) 0 &&& (1 <<< UInt8.ofNat (7 - (i * 11 + j) % 8)) ≠ 0)) := by
    have hlt : (i * 11 + j) / 8 < bits.length := by omega
    rw [Bits.getElem?_ofBytes, Nat.mul_comm 11, List.getD_eq_getElem?_getD, List.getElem?_eq_getElem hlt, Option.map_some,
      Option.getD_some]
    congr 1
    rw [Bool.eq_iff_iff, decide_eq_true_iff, bit_ne_zero _ (by omega)]
  have hwindow : window (Bits.ofBytes bits) (11 * i) 11 = (List.range 11).map fun j =>
      decide (bits.getD ((i * 11 + j) / 8) 0 &&& (1 <<< UInt8.ofNat (7 - (i * 11 + j) % 8)) ≠ 0) := by
    apply List.ext_getElem?
    intro j
    rw [getElem?_window, List.getElem?_map]
    by_cases hj : j < 11
    · rw [if_pos hj, hbit j hj, List.getElem?_range hj]
      rfl
    · rw [if_neg hj, List.getElem?_eq_none (by rw [List.length_range]; omega)]
      rfl
  rw [hwindow, Bits.value, List.foldl_map, wordIndex]
  apply List.foldl_ext
  intro idx j _
  rw [Nat.shiftLeft_eq, pow_one, Nat.mul_comm]
  split
  · rename_i h
    rw [decide_eq_true h, Bool.toNat_true]
  · rename_i h
    rw [decide_eq_false h, Bool.toNat_false]

theorem checked_eq (h : Valid data) :
    (Bits.ofBytes (checksummed data)).take (11 * (data.length * 3 / 4)) = checked sha256Raw data := by
  have hwhole := h.whole
  have hlower := h.lower
  have hupper := h.upper
  have hhash := sha256Raw_length data
  have hbits : (Bits.ofBytes (checksummed data)).take (8 * (data.length + 1)) =
      Bits.ofBytes data ++ (Bits.ofBytes (sha256Raw data)).take 8 := by
    rw [Bits.ofBytes_take, checksummed_take h, Bits.ofBytes_append, ← Bits.ofBytes_take]
  have hlen : 11 * (data.length * 3 / 4) = (Bits.ofBytes data).length + data.length / 4 := by
    rw [Bits.ofBytes_length]
    omega
  have hcut : (Bits.ofBytes (checksummed data)).take (11 * (data.length * 3 / 4)) =
      ((Bits.ofBytes (checksummed data)).take (8 * (data.length + 1))).take (11 * (data.length * 3 / 4)) := by
    rw [List.take_take]
    congr 1
    omega
  rw [hcut, hbits, hlen, List.take_length_add_append, List.take_take, Nat.min_eq_left (by omega), checked]

theorem wordIndex_checksummed (h : Valid data) {i : ℕ} (hi : i < data.length * 3 / 4) :
    wordIndex (checksummed data) i = Bits.value (window (checked sha256Raw data) (11 * i) 11) := by
  have hupper := h.upper
  have hlen : (checksummed data).length = 33 := by
    rw [checksummed, overwrite_length, List.length_set, overwrite_length, List.length_replicate]
  rw [wordIndex_eq (by omega), ← checked_eq h, window_take (by omega)]

theorem mnemonicFromDataIndexes_eq (h : Valid data) {count : ℤ} (hcount : maxWords ≤ count) :
    mnemonicFromDataIndexes data count = ok (places sha256Raw data) := by
  rw [mnemonicFromDataIndexes, ensure_true ⟨h.whole, h.lower, h.upper⟩, ensure_true hcount, ok_bind, ok_bind]
  apply congrArg ok
  apply List.map_congr_left
  intro i hi
  exact wordIndex_checksummed h (List.mem_range.mp hi)

theorem foldl_join {α : Type} (space : α) (word : ℕ → List α) (n : ℕ) :
    (List.range n).foldl (fun p i => p ++ word i ++ if i < n - 1 then [space] else []) [] =
      [space].intercalate ((List.range n).map word) := by
  have hrun (k : ℕ) (hk : k ≤ n - 1) :
      (List.range k).foldl (fun p i => p ++ word i ++ if i < n - 1 then [space] else []) [] =
        Separated.ended space ((List.range k).map word) := by
    induction k with
    | zero => rfl
    | succ k ih =>
      rw [List.range_succ, List.foldl_append, ih (by omega), List.map_append, Separated.ended_append, List.foldl_cons,
        List.foldl_nil, if_pos (by omega), List.append_assoc]
      simp [Separated.ended]
  cases n with
  | zero => rfl
  | succ n =>
    have hne : (List.range (n + 1)).map word ≠ [] := by simp
    have hended := @Separated.intercalate_ended _ space _ hne
    apply (List.append_left_inj [space]).mp
    rw [hended, List.range_succ, List.foldl_append, hrun n (by omega), List.map_append, Separated.ended_append]
    simp [Separated.ended]

theorem mnemonicFromData_eq (h : Valid data) {buflen : ℤ} (hbuflen : maxWords * (maxWordLength + 1) ≤ buflen) :
    mnemonicFromData data buflen = ok (sentence sha256Raw data wordlist 0x20) := by
  rw [mnemonicFromData, ensure_true ⟨h.whole, h.lower, h.upper⟩, ensure_true hbuflen, ok_bind, ok_bind]
  apply congrArg ok
  rw [foldl_join, sentence, places, List.map_map]
  congr 1
  apply List.map_congr_left
  intro i hi
  rw [wordIndex_checksummed h (List.mem_range.mp hi), Function.comp_apply]

def word (k : ℕ) : List UInt8 := wordlist.getD k []

theorem word_mem {k : ℕ} (hk : k < 2048) : word k ∈ wordlist := by
  rw [← wordlist_length] at hk
  rw [word, List.getD_eq_getElem?_getD, List.getElem?_eq_getElem hk]
  exact List.getElem_mem hk

theorem space_not_mem_word {k : ℕ} (hk : k < 2048) : 0x20 ∉ word k := by
  intro hmem
  exact absurd ((wordlist_letters (word_mem hk)).2.2 _ hmem).1 (by decide)

theorem of_findIdx? {k : ℕ} {chars : List UInt8} (h : wordlist.findIdx? (· = chars) = some k) : k < 2048 ∧ word k = chars := by
  obtain ⟨hk, heq, -⟩ := List.findIdx?_eq_some_iff_getElem.mp h
  refine ⟨by rwa [← wordlist_length], ?_⟩
  rw [word, List.getD_eq_getElem?_getD, List.getElem?_eq_getElem hk]
  exact of_decide_eq_true heq

theorem word_injective {j k : ℕ} (hj : j < 2048) (hk : k < 2048) (h : word j = word k) : j = k := by
  rw [← wordlist_length] at hj hk
  rw [word, word, List.getD_eq_getElem?_getD, List.getD_eq_getElem?_getD, List.getElem?_eq_getElem hj,
    List.getElem?_eq_getElem hk] at h
  exact (wordlist_nodup.getElem_inj_iff).mp h

theorem findIdx?_word {k : ℕ} (hk : k < 2048) : wordlist.findIdx? (· = word k) = some k := by
  have hsome : (wordlist.findIdx? (· = word k)).isSome := by
    rw [List.findIdx?_isSome, List.any_eq_true]
    exact ⟨word k, word_mem hk, decide_eq_true rfl⟩
  obtain ⟨j, hj⟩ := Option.isSome_iff_exists.mp hsome
  obtain ⟨hlt, heq⟩ := of_findIdx? hj
  rw [hj, word_injective hlt hk heq]

theorem words_injective {js ks : List ℕ} (hj : ∀ j ∈ js, j < 2048) (hk : ∀ k ∈ ks, k < 2048) (h : js.map word = ks.map word) :
    js = ks := by
  induction js generalizing ks with
  | nil => exact (List.map_eq_nil_iff.mp h.symm).symm
  | cons j js ih =>
    cases ks with
    | nil => cases h
    | cons k ks =>
      rw [List.map_cons, List.map_cons] at h
      obtain ⟨hhead, htail⟩ := List.cons.inj h
      rw [word_injective (hj j List.mem_cons_self) (hk k List.mem_cons_self) hhead,
        ih (fun j h => hj j (List.mem_cons_of_mem _ h)) (fun k h => hk k (List.mem_cons_of_mem _ h)) htail]

theorem readWord_append (current chars rest : List UInt8) (hspace : 0x20 ∉ chars) (hlen : current.length + chars.length ≤ 9) :
    readWord current (chars ++ 0x20 :: rest) = ok (current ++ chars, rest) ∧ readWord current chars = ok (current ++ chars, []) := by
  induction chars generalizing current with
  | nil =>
    rw [List.append_nil]
    exact ⟨rfl, rfl⟩
  | cons c chars ih =>
    have hc : c ≠ 0x20 := fun h => hspace (h ▸ List.mem_cons_self)
    have hlt : ¬ 9 ≤ current.length := by
      rw [List.length_cons] at hlen
      omega
    have hrest := ih (current ++ [c]) (fun h => hspace (List.mem_cons_of_mem c h)) (by
      rw [List.length_append, List.length_singleton]
      rw [List.length_cons] at hlen
      omega)
    rw [List.append_assoc, List.singleton_append] at hrest
    constructor
    · rw [List.cons_append, readWord, if_neg hc, if_neg hlt]
      exact hrest.1
    · rw [readWord, if_neg hc, if_neg hlt]
      exact hrest.2

theorem readWord_cases (current mnemonic : List UInt8) :
    readWord current mnemonic = fail ∨ ∃ chars rest, readWord current mnemonic = ok (current ++ chars, rest) ∧ 0x20 ∉ chars ∧
      (mnemonic = chars ++ 0x20 :: rest ∨ mnemonic = chars ∧ rest = []) := by
  induction mnemonic generalizing current with
  | nil => exact .inr ⟨[], [], by rw [List.append_nil]; rfl, List.not_mem_nil, .inr ⟨rfl, rfl⟩⟩
  | cons c mnemonic ih =>
    rw [readWord]
    by_cases hc : c = 0x20
    · rw [if_pos hc, hc]
      exact .inr ⟨[], mnemonic, by rw [List.append_nil], List.not_mem_nil, .inl rfl⟩
    · rw [if_neg hc]
      by_cases hlen : 9 ≤ current.length
      · rw [if_pos hlen]
        exact .inl rfl
      · rw [if_neg hlen]
        rcases ih (current ++ [c]) with hfail | ⟨chars, rest, hread, hspace, hsplit⟩
        · exact .inl hfail
        · refine .inr ⟨c :: chars, rest, ?_, ?_, ?_⟩
          · rw [hread, List.append_assoc, List.singleton_append]
          · rw [List.mem_cons, not_or]
            exact ⟨Ne.symm hc, hspace⟩
          · rcases hsplit with rfl | ⟨rfl, rfl⟩
            · exact .inl rfl
            · exact .inr ⟨rfl, rfl⟩

theorem setBit_eq {bits : List UInt8} {i : ℕ} (hi : i < 8 * bits.length) :
    ∃ bits', setBit bits i = ok bits' ∧ Bits.ofBytes bits' = (Bits.ofBytes bits).set i true := by
  obtain ⟨b, hget⟩ : ∃ b, bits[i / 8]? = some b := ⟨_, List.getElem?_eq_getElem (by omega)⟩
  refine ⟨_, ?_, Bits.ofBytes_set hget⟩
  rw [setBit, element, hget]
  rfl

theorem and_bit_ne_zero (k m : ℕ) : k &&& (1 <<< m) ≠ 0 ↔ k.testBit m = true := by
  rw [Nat.one_shiftLeft, Nat.and_two_pow]
  cases k.testBit m <;> simp

theorem writeIndex_eq {bits : List UInt8} {done : List Bool} {free : ℕ} (hbits : Bits.ofBytes bits = done ++ List.replicate free false)
    (hfree : 11 ≤ free) (k : ℕ) : ∃ bits', writeIndex bits done.length k = ok bits' ∧
      Bits.ofBytes bits' = done ++ Bits.ofNat 11 k ++ List.replicate (free - 11) false := by
  have hrun (j : ℕ) (hj : j ≤ 11) : ∃ bits', (List.range j).foldlM (fun bits ki =>
      if k &&& (1 <<< (10 - ki)) ≠ 0 then setBit bits (done.length + ki) else ok bits) bits = ok bits' ∧
      Bits.ofBytes bits' = done ++ (Bits.ofNat 11 k).take j ++ List.replicate (free - j) false := by
    induction j with
    | zero => exact ⟨bits, rfl, by simpa using hbits⟩
    | succ j ih =>
      obtain ⟨bits', hfold, heq⟩ := ih (by omega)
      have hpre : (done ++ (Bits.ofNat 11 k).take j).length = done.length + j := by
        rw [List.length_append, List.length_take_of_le (by rw [Bits.ofNat_length]; omega)]
      have hfree : List.replicate (free - j) false = false :: List.replicate (free - (j + 1)) false := by
        rw [← List.replicate_succ]
        congr 1
        omega
      have hnext : (Bits.ofNat 11 k).take (j + 1) = (Bits.ofNat 11 k).take j ++ [k.testBit (10 - j)] := by
        rw [List.take_add_one, Bits.getElem?_ofNat, if_pos (show j < 11 from hj)]
        rfl
      rw [List.range_succ, List.foldlM_append, hfold, ok_bind, List.foldlM_cons]
      rw [hfree] at heq
      by_cases hbit : k &&& (1 <<< (10 - j)) ≠ 0
      · have hlen := congrArg List.length heq
        rw [Bits.ofBytes_length, List.length_append, hpre, List.length_cons] at hlen
        have hi : done.length + j < 8 * bits'.length := by omega
        obtain ⟨bits'', hset, heq'⟩ := setBit_eq hi
        refine ⟨bits'', ?_, ?_⟩
        · rw [if_pos hbit, hset]
          rfl
        · rw [heq', heq, ← hpre, List.set_append_right _ _ (Nat.le_refl _), Nat.sub_self, hnext, (and_bit_ne_zero k _).mp hbit]
          simp
      · refine ⟨bits', ?_, ?_⟩
        · rw [if_neg hbit]
          rfl
        · have hclear : k.testBit (10 - j) = false := by
            rw [← Bool.not_eq_true]
            exact fun h => hbit ((and_bit_ne_zero k _).mpr h)
          rw [heq, hnext, hclear]
          simp
  obtain ⟨bits', hfold, heq⟩ := hrun 11 (Nat.le_refl 11)
  rw [List.take_of_length_le (Bits.ofNat_length 11 k).le] at heq
  exact ⟨bits', hfold, heq⟩

theorem readWords_nil (bits : List UInt8) (bi : ℕ) : readWords [] bits bi = ok (bits, bi) := by rw [readWords, dif_pos rfl]

theorem readWords_of_readWord {mnemonic chars rest : List UInt8} (hne : mnemonic ≠ [])
    (hread : readWord [] mnemonic = ok (chars, rest)) (bits : List UInt8) (bi : ℕ) :
    readWords mnemonic bits bi =
      match wordlist.findIdx? (· = chars) with
      | some k => writeIndex bits bi k >>= fun bits => readWords rest bits (bi + 11)
      | none => fail := by
  rw [readWords, dif_neg hne]
  split
  · rename_i hword
    rw [hread] at hword
    cases hword
    rfl
  all_goals
    rename_i hword
    rw [hread] at hword
    cases hword

theorem readWords_of_fail {mnemonic : List UInt8} (hne : mnemonic ≠ []) (hread : readWord [] mnemonic = fail) (bits : List UInt8)
    (bi : ℕ) : readWords mnemonic bits bi = fail := by
  rw [readWords, dif_neg hne]
  split
  · rename_i hword
    rw [hread] at hword
    cases hword
  · rfl
  all_goals
    rename_i hword
    rw [hread] at hword
    cases hword

structure Parsed (mnemonic : List UInt8) (done : List Bool) (free : ℕ) (ks : List ℕ) (bits : List UInt8) : Prop where
  lt : ∀ k ∈ ks, k < 2048
  spelled : mnemonic = Separated.ended 0x20 (ks.map word) ∨ ks ≠ [] ∧ mnemonic = [0x20].intercalate (ks.map word)
  bits : Bits.ofBytes bits = done ++ ks.flatMap (Bits.ofNat 11) ++ List.replicate (free - 11 * ks.length) false

theorem Parsed.cons {rest bits : List UInt8} {done : List Bool} {free k : ℕ} {ks : List ℕ} (hk : k < 2048)
    (h : Parsed rest (done ++ Bits.ofNat 11 k) (free - 11) ks bits) :
    Parsed (word k ++ 0x20 :: rest) done free (k :: ks) bits where
  lt := by
    intro j hj
    rcases List.mem_cons.mp hj with rfl | hj
    · exact hk
    · exact h.lt j hj
  spelled := by
    rcases h.spelled with rfl | ⟨hne, rfl⟩
    · left
      simp [Separated.ended]
    · right
      refine ⟨List.cons_ne_nil _ _, ?_⟩
      obtain ⟨j, js, rfl⟩ := List.exists_cons_of_ne_nil hne
      simp [List.intercalate]
  bits := by
    rw [h.bits, List.flatMap_cons, List.length_cons, Nat.mul_succ, List.append_assoc done, Nat.sub_sub, Nat.add_comm 11]

theorem readWords_cases (mnemonic : List UInt8) {bits : List UInt8} {done : List Bool} {free : ℕ}
    (hbits : Bits.ofBytes bits = done ++ List.replicate free false)
    (hfree : mnemonic ≠ [] → 11 * (mnemonic.count 0x20 + 1) ≤ free) :
    readWords mnemonic bits done.length = fail ∨ ∃ ks bits', readWords mnemonic bits done.length =
      ok (bits', done.length + 11 * ks.length) ∧ Parsed mnemonic done free ks bits' := by
  induction hlen : mnemonic.length using Nat.strongRecOn generalizing mnemonic bits done free with
  | ind n ih =>
    by_cases hne : mnemonic = []
    · subst hne
      right
      refine ⟨[], bits, readWords_nil _ _, fun k hk => absurd hk List.not_mem_nil, .inl rfl, ?_⟩
      simpa using hbits
    have hroom := hfree hne
    rcases readWord_cases [] mnemonic with hfail | ⟨chars, rest, hread, hspace, hsplit⟩
    · exact .inl (readWords_of_fail hne hfail _ _)
    rw [List.nil_append] at hread
    rw [readWords_of_readWord hne hread]
    cases hfind : wordlist.findIdx? (· = chars) with
    | none => exact .inl rfl
    | some k =>
      obtain ⟨hk, rfl⟩ := of_findIdx? hfind
      obtain ⟨bits', hwrite, hbits'⟩ := writeIndex_eq hbits (by omega) k
      have hnext : (done ++ Bits.ofNat 11 k).length = done.length + 11 := by rw [List.length_append, Bits.ofNat_length]
      have hshort : rest.length < n := by
        have hle := readWord_length hread
        have hpos := List.length_pos_iff.mpr hne
        omega
      have hrest : rest ≠ [] → 11 * (rest.count 0x20 + 1) ≤ free - 11 := by
        intro hrest
        rcases hsplit with rfl | ⟨_, rfl⟩
        · rw [List.count_append, List.count_cons_self] at hroom
          omega
        · exact absurd rfl hrest
      dsimp only
      rw [hwrite, ok_bind, ← hnext]
      rcases ih rest.length hshort rest hbits' hrest rfl with hfail | ⟨ks, bits'', hwords, hparsed⟩
      · exact .inl hfail
      · right
        refine ⟨k :: ks, bits'', ?_, ?_⟩
        · rw [hwords, hnext, List.length_cons, Nat.mul_succ, Nat.add_assoc, Nat.add_comm 11]
        · rcases hsplit with rfl | ⟨rfl, rfl⟩
          · exact hparsed.cons hk
          · rw [readWords_nil] at hwords
            obtain ⟨-, hcount⟩ := Prod.mk.inj (Outcome.ok.inj hwords)
            obtain rfl : ks = [] := List.eq_nil_of_length_eq_zero (by omega)
            refine ⟨?_, .inr ⟨List.cons_ne_nil _ _, ?_⟩, ?_⟩
            · intro j hj
              rwa [List.mem_singleton.mp hj]
            · simp [List.intercalate]
            · rw [hparsed.bits]
              simp

theorem writeIndex_ne_fail (bits : List UInt8) (bi k : ℕ) : writeIndex bits bi k ≠ fail := by
  have hset (bits : List UInt8) (i : ℕ) : setBit bits i ≠ fail := by
    rw [setBit, element]
    cases bits[i / 8]? <;> simp
  have hrun (js : List ℕ) (bits : List UInt8) : js.foldlM (fun bits ki =>
      if k &&& (1 <<< (10 - ki)) ≠ 0 then setBit bits (bi + ki) else ok bits) bits ≠ fail := by
    induction js generalizing bits with
    | nil => simp [pure]
    | cons j js ih =>
      rw [List.foldlM_cons]
      have hstep : (if k &&& (1 <<< (10 - j)) ≠ 0 then setBit bits (bi + j) else ok bits) ≠ fail := by
        split
        · exact hset bits (bi + j)
        · simp
      cases hbits : (if k &&& (1 <<< (10 - j)) ≠ 0 then setBit bits (bi + j) else ok bits) with
      | ok bits' => exact ih bits'
      | fail => exact absurd hbits hstep
      | exhausted | trap => simp
  exact hrun _ bits

theorem readWords_ne_fail {ks : List ℕ} (hne : ks ≠ []) (hks : ∀ k ∈ ks, k < 2048) (bits : List UInt8) (bi : ℕ) :
    readWords ([0x20].intercalate (ks.map word)) bits bi ≠ fail := by
  induction ks generalizing bits bi with
  | nil => exact absurd rfl hne
  | cons k ks ih =>
    have hk := hks k List.mem_cons_self
    have hletters := wordlist_letters (word_mem hk)
    have hread := readWord_append [] (word k)
    obtain ⟨rest, hjoin, hfirst, hrest⟩ : ∃ rest, [0x20].intercalate ((k :: ks).map word) ≠ [] ∧
        readWord [] ([0x20].intercalate ((k :: ks).map word)) = ok (word k, rest) ∧
        (rest = [] ∨ ks ≠ [] ∧ rest = [0x20].intercalate (ks.map word)) := by
      cases ks with
      | nil =>
        refine ⟨[], ?_, ?_, .inl rfl⟩
        · simp only [List.map_cons, List.map_nil, List.intercalate_singleton]
          exact List.ne_nil_of_length_pos hletters.1
        · simpa using (hread [] (space_not_mem_word hk) (by simpa using hletters.2.1.trans (by decide))).2
      | cons j js =>
        have hcons : [0x20].intercalate ((k :: j :: js).map word) = word k ++ 0x20 :: [0x20].intercalate ((j :: js).map word) := by
          simp [List.intercalate]
        refine ⟨[0x20].intercalate ((j :: js).map word), ?_, ?_, .inr ⟨List.cons_ne_nil _ _, rfl⟩⟩
        · rw [hcons]
          exact List.append_ne_nil_of_right_ne_nil _ (List.cons_ne_nil _ _)
        · rw [hcons]
          simpa using (hread ([0x20].intercalate ((j :: js).map word)) (space_not_mem_word hk)
            (by simpa using hletters.2.1.trans (by decide))).1
    rw [readWords_of_readWord hjoin hfirst, findIdx?_word hk]
    dsimp only
    cases hwrite : writeIndex bits bi k with
    | ok bits' =>
      rw [ok_bind]
      rcases hrest with rfl | ⟨hne', rfl⟩
      · rw [readWords_nil]
        simp
      · exact ih hne' (fun k h => hks k (List.mem_cons_of_mem _ h)) _ _
    | fail => exact absurd hwrite (writeIndex_ne_fail bits bi k)
    | exhausted | trap => simp

/-- What is read is a sentence of whole words, a multiple of three from twelve on. -/
structure Entropy (mnemonic : CString) (ks : List ℕ) (bits : List UInt8) : Prop where
  lt : ∀ k ∈ ks, k < 2048
  count : 12 ≤ ks.length ∧ ks.length ≤ 24 ∧ ks.length % 3 = 0
  spelled : mnemonic.chars = [0x20].intercalate (ks.map word)
  bits : Bits.ofBytes bits = ks.flatMap (Bits.ofNat 11) ++ List.replicate (264 - 11 * ks.length) false

theorem space_not_mem_words {ks : List ℕ} (hks : ∀ k ∈ ks, k < 2048) : ∀ chars ∈ ks.map word, 0x20 ∉ chars := by
  intro chars hchars
  obtain ⟨k, hk, rfl⟩ := List.mem_map.mp hchars
  exact space_not_mem_word (hks k hk)

theorem intercalate_words_injective {js ks : List ℕ} (hjs : ∀ j ∈ js, j < 2048) (hks : ∀ k ∈ ks, k < 2048) (hj : js ≠ [])
    (hk : ks ≠ []) (h : [0x20].intercalate (js.map word) = [0x20].intercalate (ks.map word)) : js = ks := by
  apply words_injective hjs hks
  apply Separated.intercalate_injective _ _ (space_not_mem_words hjs) (space_not_mem_words hks) h
  · exact fun h => hj (List.map_eq_nil_iff.mp h)
  · exact fun h => hk (List.map_eq_nil_iff.mp h)

theorem ended_ne_intercalate {js ks : List ℕ} (hjs : ∀ j ∈ js, j < 2048) (hks : ∀ k ∈ ks, k < 2048) (hk : ks ≠ []) :
    Separated.ended 0x20 (js.map word) ≠ [0x20].intercalate (ks.map word) := by
  intro h
  rw [Separated.ended_eq_intercalate] at h
  have hspace : ∀ chars ∈ js.map word ++ [[]], 0x20 ∉ chars := by
    intro chars hchars
    rcases List.mem_append.mp hchars with hchars | hchars
    · exact space_not_mem_words hjs chars hchars
    · rw [List.mem_singleton.mp hchars]
      exact List.not_mem_nil
  have heq := Separated.intercalate_injective (List.append_ne_nil_of_right_ne_nil _ (List.cons_ne_nil _ _))
    (fun h => hk (List.map_eq_nil_iff.mp h)) hspace (space_not_mem_words hks) h
  have hmem : [] ∈ ks.map word := by
    rw [← heq]
    exact List.mem_append_right _ (List.mem_singleton_self _)
  obtain ⟨k, hmem, hnil⟩ := List.mem_map.mp hmem
  have hpos := (wordlist_letters (word_mem (hks k hmem))).1
  rw [hnil] at hpos
  exact Nat.lt_irrefl 0 hpos

theorem count_words {ks : List ℕ} (hks : ∀ k ∈ ks, k < 2048) :
    (Separated.ended 0x20 (ks.map word)).count 0x20 = ks.length ∧
      (ks ≠ [] → ([0x20].intercalate (ks.map word)).count 0x20 + 1 = ks.length) := by
  have hspace := space_not_mem_words hks
  constructor
  · rw [Separated.count_ended hspace, List.length_map]
  · intro hne
    rw [Separated.count_intercalate (fun h => hne (List.map_eq_nil_iff.mp h)) hspace, List.length_map]

theorem mnemonicToEntropy_cases (mnemonic : CString) :
    mnemonicToEntropy mnemonic = fail ∨ ∃ ks bits, mnemonicToEntropy mnemonic = ok (bits, 11 * ks.length) ∧ Entropy mnemonic ks bits := by
  rw [mnemonicToEntropy]
  dsimp only
  by_cases hcount : 12 ≤ mnemonic.chars.count 0x20 + 1 ∧ mnemonic.chars.count 0x20 + 1 ≤ 24 ∧ (mnemonic.chars.count 0x20 + 1) % 3 = 0
  · have hstart : Bits.ofBytes (List.replicate 33 0) = [] ++ List.replicate 264 false := Bits.ofBytes_replicate_zero 33
    rw [ensure_true hcount, ok_bind]
    rcases readWords_cases mnemonic.chars hstart (fun _ => by omega) with hfail | ⟨ks, bits, hwords, hparsed⟩
    · rw [List.length_nil] at hfail
      rw [hfail]
      exact .inl rfl
    · rw [List.length_nil, Nat.zero_add] at hwords
      rw [hwords, ok_bind]
      by_cases hall : 11 * ks.length = (mnemonic.chars.count 0x20 + 1) * 11
      · have hlen : ks.length = mnemonic.chars.count 0x20 + 1 := by omega
        right
        refine ⟨ks, bits, ?_, hparsed.lt, by rwa [hlen], ?_, hparsed.bits⟩
        · rw [ensure_true hall, ok_bind, ← hall]
          rfl
        · rcases hparsed.spelled with hended | ⟨_, hjoin⟩
          · rw [hended, (count_words hparsed.lt).1] at hlen
            omega
          · exact hjoin
      · left
        rw [ensure, if_neg hall]
        rfl
  · left
    rw [ensure, if_neg hcount]
    rfl

theorem mnemonicToEntropy_words {mnemonic : CString} {ks : List ℕ} (hks : ∀ k ∈ ks, k < 2048)
    (hcount : 12 ≤ ks.length ∧ ks.length ≤ 24 ∧ ks.length % 3 = 0) (hspelled : mnemonic.chars = [0x20].intercalate (ks.map word)) :
    ∃ bits, mnemonicToEntropy mnemonic = ok (bits, 11 * ks.length) ∧ Entropy mnemonic ks bits := by
  have hne : ks ≠ [] := List.ne_nil_of_length_pos (by omega)
  have hspaces := (count_words hks).2 hne
  rw [← hspelled] at hspaces
  rcases mnemonicToEntropy_cases mnemonic with hfail | ⟨js, bits, hok, hentropy⟩
  · exfalso
    have hstart : Bits.ofBytes (List.replicate 33 0) = [] ++ List.replicate 264 false := Bits.ofBytes_replicate_zero 33
    rw [mnemonicToEntropy] at hfail
    dsimp only at hfail
    rw [hspaces, ensure_true hcount, ok_bind] at hfail
    rcases readWords_cases mnemonic.chars hstart (fun _ => by omega) with hwords | ⟨js, bits, hwords, hparsed⟩
    · rw [hspelled] at hwords
      exact readWords_ne_fail hne hks _ _ hwords
    · have hjs : js.length = ks.length := by
        rcases hparsed.spelled with hended | ⟨hne', hjoin⟩
        · exact absurd (hended.symm.trans hspelled) (ended_ne_intercalate hparsed.lt hks hne)
        · have hjs := (count_words hparsed.lt).2 hne'
          rw [← hjoin] at hjs
          omega
      rw [List.length_nil, Nat.zero_add] at hwords
      rw [hwords, ok_bind, hjs, ensure_true (Nat.mul_comm _ _)] at hfail
      cases hfail
  · have hjs : js ≠ [] := List.ne_nil_of_length_pos (by have := hentropy.count; omega)
    obtain rfl : js = ks :=
      intercalate_words_injective hentropy.lt hks hjs hne (hentropy.spelled.symm.trans hspelled)
    exact ⟨bits, hok, hentropy⟩

theorem shift_eq_iff (x y : UInt8) {c : ℕ} (hc : c ≤ 8) : x.toNat >>> (8 - c) = y.toNat >>> (8 - c) ↔
    (Bits.ofNat 8 x.toNat).take c = (Bits.ofNat 8 y.toNat).take c := by
  have hlt (z : UInt8) : z.toNat / 2 ^ (8 - c) < 2 ^ c := by
    rw [Nat.div_lt_iff_lt_mul (Nat.two_pow_pos _), ← pow_add, Nat.add_sub_cancel' hc]
    exact z.toNat_lt
  rw [Nat.shiftRight_eq_div_pow, Nat.shiftRight_eq_div_pow, Bits.ofNat_take _ hc, Bits.ofNat_take _ hc]
  exact ⟨congrArg _, Bits.ofNat_injective (hlt x) (hlt y)⟩

theorem Entropy.length {mnemonic : CString} {ks : List ℕ} {bits : List UInt8} (h : Entropy mnemonic ks bits) : bits.length = 33 := by
  have hlen := congrArg List.length h.bits
  have hcount := h.count
  rw [Bits.ofBytes_length, List.length_append, Bits.flatMap_ofNat_length, List.length_replicate] at hlen
  omega

theorem Entropy.valid {mnemonic : CString} {ks : List ℕ} {bits : List UInt8} (h : Entropy mnemonic ks bits) :
    Valid (bits.take (ks.length * 4 / 3)) := by
  have hcount := h.count
  have hlen : (bits.take (ks.length * 4 / 3)).length = ks.length * 4 / 3 := List.length_take_of_le (by rw [h.length]; omega)
  refine ⟨?_, ?_, ?_⟩ <;> rw [hlen] <;> omega

theorem mnemonicCheck_eq {mnemonic : CString} {ks : List ℕ} {bits : List UInt8} (h : Entropy mnemonic ks bits)
    (hok : mnemonicToEntropy mnemonic = ok (bits, 11 * ks.length)) :
    ∃ valid, mnemonicCheck mnemonic = ok valid ∧
      (valid = true ↔ checked sha256Raw (bits.take (ks.length * 4 / 3)) = ks.flatMap (Bits.ofNat 11)) := by
  have hcount := h.count
  have hlen := h.length
  have hhash := sha256Raw_length (bits.take (ks.length * 4 / 3))
  have hwords : 11 * ks.length / 11 = ks.length := Nat.mul_div_cancel_left _ (by decide)
  have htake : (bits.take (ks.length * 4 / 3)).length = ks.length * 4 / 3 := List.length_take_of_le (by omega)
  obtain ⟨d, ds, hd⟩ := List.exists_cons_of_length_pos (show 0 < (sha256Raw (bits.take (ks.length * 4 / 3))).length by omega)
  obtain ⟨b, hget⟩ : ∃ b, bits[ks.length * 4 / 3]? = some b := ⟨_, List.getElem?_eq_getElem (by omega)⟩
  have hsplit : bits = bits.take (ks.length * 4 / 3) ++ b :: bits.drop (ks.length * 4 / 3 + 1) := by
    obtain ⟨hlt, rfl⟩ := List.getElem?_eq_some_iff.mp hget
    rw [← List.drop_eq_getElem_cons hlt, List.take_append_drop]
  have hfirst (z : UInt8) (zs : List UInt8) {c : ℕ} (hc : c ≤ 8) :
      (Bits.ofBytes (z :: zs)).take c = (Bits.ofNat 8 z.toNat).take c := by
    have hcons : Bits.ofBytes (z :: zs) = Bits.ofNat 8 z.toNat ++ Bits.ofBytes zs := rfl
    rw [hcons, List.take_append_of_le_length (by rwa [Bits.ofNat_length])]
  refine ⟨decide (d.toNat >>> (8 - ks.length / 3) = b.toNat >>> (8 - ks.length / 3)), ?_, ?_⟩
  · rw [mnemonicCheck, hok]
    dsimp only
    rw [hwords, element, hget, ok_bind, hd, element]
    rfl
  · have hspell : ks.flatMap (Bits.ofNat 11) = (Bits.ofBytes bits).take (8 * (ks.length * 4 / 3) + ks.length / 3) := by
      have hkept : 8 * (ks.length * 4 / 3) + ks.length / 3 = (ks.flatMap (Bits.ofNat 11)).length := by
        rw [Bits.flatMap_ofNat_length]
        omega
      rw [h.bits, hkept, List.take_left]
    have hbits : (Bits.ofBytes bits).take (8 * (ks.length * 4 / 3) + ks.length / 3) =
        Bits.ofBytes (bits.take (ks.length * 4 / 3)) ++ (Bits.ofNat 8 b.toNat).take (ks.length / 3) := by
      have hofBytes := congrArg Bits.ofBytes hsplit
      rw [Bits.ofBytes_append] at hofBytes
      have hbelow : 8 * (ks.length * 4 / 3) = (Bits.ofBytes (bits.take (ks.length * 4 / 3))).length := by
        rw [Bits.ofBytes_length, htake]
      rw [hofBytes, hbelow, List.take_length_add_append, hfirst b _ (by omega)]
    have hquarter : (bits.take (ks.length * 4 / 3)).length / 4 = ks.length / 3 := by omega
    rw [decide_eq_true_iff, shift_eq_iff d b (by omega), hspell, hbits, checked, hquarter, hd, hfirst d ds (by omega)]
    exact ⟨fun h => by rw [h], List.append_cancel_left⟩

theorem places_valid (data : List UInt8) :
    (∀ k ∈ places sha256Raw data, k < 2048) ∧ (places sha256Raw data).length = data.length * 3 / 4 :=
  ⟨fun _ hk => Bip39.place_lt hk, by rw [places, List.length_map, List.length_range]⟩

theorem Entropy.length_eq {mnemonic : CString} {ks : List ℕ} {bits : List UInt8} (h : Entropy mnemonic ks bits) :
    (bits.take (ks.length * 4 / 3)).length = ks.length * 4 / 3 := by
  have hcount := h.count
  rw [List.length_take_of_le]
  rw [h.length]
  omega

theorem Entropy.places_eq {mnemonic : CString} {ks : List ℕ} {bits : List UInt8} (h : Entropy mnemonic ks bits)
    (hchecked : checked sha256Raw (bits.take (ks.length * 4 / 3)) = ks.flatMap (Bits.ofNat 11)) :
    places sha256Raw (bits.take (ks.length * 4 / 3)) = ks := by
  have hcount := h.count
  obtain ⟨hlt, hlen⟩ := places_valid (bits.take (ks.length * 4 / 3))
  rw [h.length_eq] at hlen
  have hinjective := @Bits.flatMap_ofNat_injective 11
  apply hinjective (by omega) hlt h.lt
  rw [Bip39.places_flatMap sha256Raw_length h.valid, hchecked]

theorem Entropy.sentence_eq {mnemonic : CString} {ks : List ℕ} {bits : List UInt8} (h : Entropy mnemonic ks bits)
    (hchecked : checked sha256Raw (bits.take (ks.length * 4 / 3)) = ks.flatMap (Bits.ofNat 11)) :
    mnemonic.chars = sentence sha256Raw (bits.take (ks.length * 4 / 3)) wordlist 0x20 := by
  rw [h.spelled, sentence, h.places_eq hchecked]
  rfl

theorem mem_sentence {data : List UInt8} {c : UInt8} (h : c ∈ sentence sha256Raw data wordlist 0x20) : c = 0x20 ∨ 97 ≤ c ∧ c ≤ 122 := by
  rcases Separated.mem_of_mem_intercalate h with rfl | ⟨chars, hchars, hc⟩
  · exact .inl rfl
  · obtain ⟨k, hk, rfl⟩ := List.mem_map.mp hchars
    exact .inr ((wordlist_letters (word_mem ((places_valid data).1 k hk))).2.2 c hc)

theorem zero_not_mem_sentence {data : List UInt8} : 0 ∉ sentence sha256Raw data wordlist 0x20 := by
  intro hmem
  rcases mem_sentence hmem with hspace | ⟨hlower, -⟩
  · exact absurd hspace (by decide)
  · exact absurd hlower (by decide)

theorem count_sentence {data : List UInt8} (h : Valid data) :
    (sentence sha256Raw data wordlist 0x20).count 0x20 + 1 = data.length * 3 / 4 := by
  have hlower := h.lower
  obtain ⟨hlt, hlen⟩ := places_valid data
  have hne : places sha256Raw data ≠ [] := List.ne_nil_of_length_pos (by omega)
  have hcount := (count_words hlt).2 hne
  rwa [hlen] at hcount

theorem entropy_of_sentence {mnemonic : CString} {data : List UInt8} (h : Valid data)
    (hm : mnemonic.chars = sentence sha256Raw data wordlist 0x20) :
    ∃ bits, mnemonicToEntropy mnemonic = ok (bits, 11 * (data.length * 3 / 4)) ∧
      Entropy mnemonic (places sha256Raw data) bits ∧ bits.take data.length = data := by
  have hwhole := h.whole
  have hlower := h.lower
  have hupper := h.upper
  obtain ⟨hlt, hlen⟩ := places_valid data
  obtain ⟨bits, hok, hentropy⟩ := mnemonicToEntropy_words hlt (by omega) hm
  rw [hlen] at hok
  refine ⟨bits, hok, hentropy, ?_⟩
  apply Bits.ofBytes_injective
  rw [← Bits.ofBytes_take, hentropy.bits, Bip39.places_flatMap sha256Raw_length h, checked, List.append_assoc, ← Bits.ofBytes_length,
    List.take_left]

theorem valid_of_mnemonicFromData {data text : List UInt8} {buflen : ℤ} (h : mnemonicFromData data buflen = ok text) :
    Valid data ∧ text = sentence sha256Raw data wordlist 0x20 := by
  have hrun := h
  rw [mnemonicFromData] at h
  obtain ⟨_, hdata, h⟩ := bind_eq_ok.mp h
  obtain ⟨_, hbuflen, _⟩ := bind_eq_ok.mp h
  rw [ensure_eq_ok] at hdata hbuflen
  have hvalid : Valid data := ⟨hdata.1, hdata.2.1, hdata.2.2⟩
  rw [mnemonicFromData_eq hvalid hbuflen] at hrun
  exact ⟨hvalid, (Outcome.ok.inj hrun).symm⟩

theorem mnemonicCheck_iff (mnemonic : CString) :
    (mnemonicCheck mnemonic = ok true ∨ mnemonicCheck mnemonic = ok false) ∧
      (mnemonicCheck mnemonic = ok true ↔ ∃ data, mnemonicFromData data 240 = ok mnemonic.chars) := by
  have hbuflen : (maxWords * (maxWordLength + 1) : ℤ) ≤ 240 := by decide
  rcases mnemonicToEntropy_cases mnemonic with hfail | ⟨ks, bits, hok, hentropy⟩
  · have hcheck : mnemonicCheck mnemonic = ok false := by rw [mnemonicCheck, hfail]
    refine ⟨.inr hcheck, ?_⟩
    rw [hcheck]
    constructor
    · simp
    · rintro ⟨data, hdata⟩
      obtain ⟨hvalid, htext⟩ := valid_of_mnemonicFromData hdata
      obtain ⟨bits, hok, -⟩ := entropy_of_sentence hvalid htext
      rw [hfail] at hok
      cases hok
  · obtain ⟨valid, hcheck, hiff⟩ := mnemonicCheck_eq hentropy hok
    rw [hcheck]
    constructor
    · cases valid
      · exact .inr rfl
      · exact .inl rfl
    · rw [Outcome.ok.injEq, hiff]
      constructor
      · intro hchecked
        refine ⟨bits.take (ks.length * 4 / 3), ?_⟩
        rw [mnemonicFromData_eq hentropy.valid hbuflen, ← hentropy.sentence_eq hchecked]
      · rintro ⟨data, hdata⟩
        obtain ⟨hvalid, htext⟩ := valid_of_mnemonicFromData hdata
        obtain ⟨bits', hok', hentropy', htake⟩ := entropy_of_sentence hvalid htext
        rw [hok] at hok'
        obtain ⟨rfl, hcount⟩ := Prod.mk.inj (Outcome.ok.inj hok')
        have hne (js : List ℕ) (h : Entropy mnemonic js bits) : js ≠ [] :=
          List.ne_nil_of_length_pos (by have := h.count; omega)
        have hks := intercalate_words_injective hentropy.lt hentropy'.lt (hne _ hentropy) (hne _ hentropy')
          (hentropy.spelled.symm.trans hentropy'.spelled)
        have hwhole := hvalid.whole
        have hlen : ks.length * 4 / 3 = data.length := by omega
        rw [hlen, htake, hks, Bip39.places_flatMap sha256Raw_length hvalid]

theorem mnemonic_entropy (data chars : List UInt8) (buflen : ℤ) :
    (mnemonicFromData data buflen = ok chars ↔
      Valid data ∧ maxWords * (maxWordLength + 1) ≤ buflen ∧ chars = sentence sha256Raw data wordlist 0x20) ∧
    (mnemonicFromData data buflen = ok chars → ∃ (h : 0 ∉ chars) (bits : List UInt8),
      mnemonicToEntropy ⟨chars, h⟩ = ok (bits, 11 * (data.length * 3 / 4)) ∧ bits.take data.length = data) := by
  constructor
  · constructor
    · intro h
      obtain ⟨hvalid, htext⟩ := valid_of_mnemonicFromData h
      rw [mnemonicFromData] at h
      obtain ⟨_, -, h⟩ := bind_eq_ok.mp h
      obtain ⟨_, hbuflen, -⟩ := bind_eq_ok.mp h
      exact ⟨hvalid, ensure_eq_ok.mp hbuflen, htext⟩
    · rintro ⟨hvalid, hbuflen, rfl⟩
      exact mnemonicFromData_eq hvalid hbuflen
  · intro h
    obtain ⟨hvalid, rfl⟩ := valid_of_mnemonicFromData h
    have hread := @entropy_of_sentence ⟨_, zero_not_mem_sentence⟩ data hvalid rfl
    obtain ⟨bits, hok, -, htake⟩ := hread
    exact ⟨zero_not_mem_sentence, bits, hok, htake⟩

end TronlinkCore.TrezorCrypto
