import TronlinkCore.TrezorCrypto.Sha2
import TronlinkCore.Library.ByteOrder
import Mathlib.Tactic.FinCases

/-!
The functions of `sha2.c` compute the secure hash algorithms: a context holds
the whole blocks of what it was given in its state, and the rest in its buffer.
-/

namespace TronlinkCore.TrezorCrypto

open Windows Blocks ByteOrder
open Fips180 (Registers Algorithm wordOf bytesOf takeBlock blockLength zeros padding)

section

variable {w : ℕ}

theorem ROTR_eq {b : ℕ} (hb : b < w) (x : BitVec w) : ROTR b x = x.rotateRight b := by
  rw [BitVec.rotateRight_eq_rotateRightAux_of_lt hb]
  rfl

variable {buffer : List UInt8} (hw : 8 ∣ w) (hbuffer : buffer.length = blockLength w)

include hbuffer in
theorem word_fits {j : ℕ} (hj : j < 16) : w / 8 * j + w / 8 ≤ buffer.length := by
  have hmul := Nat.mul_le_mul_left (w / 8) (Nat.succ_le_of_lt hj)
  rw [hbuffer, blockLength, Nat.mul_comm 16]
  rwa [Nat.mul_succ] at hmul

@[simp] theorem storeWord_length (j : ℕ) (word : BitVec w) : (storeWord w buffer j word).length = buffer.length :=
  overwrite_length _ _ _

include hw hbuffer in
theorem loadWord_storeWord {j t : ℕ} (hj : j < 16) (word : BitVec w) :
    loadWord w (storeWord w buffer j word) t = if t = j then word else loadWord w buffer t := by
  have hpow : (256 : ℕ) ^ (w / 8) = 2 ^ w := by
    rw [show (256 : ℕ) = 2 ^ 8 from rfl, ← pow_mul, Nat.mul_div_cancel' hw]
  have hlen : (LittleEndian.toBytes (w / 8) word.toNat).length = w / 8 := LittleEndian.toBytes_length _ _
  have hfits : w / 8 * j + (LittleEndian.toBytes (w / 8) word.toNat).length ≤ buffer.length := by
    rw [hlen]
    exact word_fits hbuffer hj
  by_cases ht : t = j
  · subst ht
    have hself := window_overwrite_self hfits
    rw [hlen] at hself
    rw [if_pos rfl, loadWord, storeWord, hself, LittleEndian.ofBytes_toBytes, hpow, Nat.mod_eq_of_lt word.isLt,
      BitVec.ofNat_toNat, BitVec.setWidth_eq]
  · have hapart : w / 8 * t + w / 8 ≤ w / 8 * j ∨ w / 8 * j + w / 8 ≤ w / 8 * t := by
      rw [← Nat.mul_succ, ← Nat.mul_succ]
      rcases Nat.lt_or_gt_of_ne ht with h | h
      · exact Or.inl (Nat.mul_le_mul_left _ h)
      · exact Or.inr (Nat.mul_le_mul_left _ h)
    rw [if_neg ht, loadWord, storeWord, window_overwrite_of_apart hfits (by rwa [hlen]), loadWord]

end

/-- The family has the words, the sums and the constants of the algorithm, and counts bits up to two words. -/
structure Implements {w : ℕ} {γ : Type} (F : Family w γ) (A : Algorithm w) (bits : γ → ℕ) : Prop where
  bytes : 8 ∣ w
  wide : 32 ≤ w
  whole : blockLength w ∣ 2 ^ 60
  rounds : F.rounds = A.rounds
  rounds_le : 16 ≤ A.rounds
  constant : ∀ t, t < A.rounds → F.K.getD t 0 = A.constant t
  initial : F.initialHashValue = A.initial
  Sigma0 : F.Sigma0 = A.upperSigma0
  Sigma1 : F.Sigma1 = A.upperSigma1
  sigma0 : F.sigma0 = A.lowerSigma0
  sigma1 : F.sigma1 = A.lowerSigma1
  swaps : Swaps (w / 8) F.REVERSE
  noBits : bits F.noBits = 0
  increment : ∀ c n, bits (F.increment c n) = (bits c + n.toNat) % 2 ^ (2 * w)
  lowBits : ∀ c, (F.lowBits c).toNat = bits c % 2 ^ 64
  countWords : ∀ c, F.countWords c = (BitVec.ofNat w (bits c / 2 ^ w), BitVec.ofNat w (bits c))

namespace Implements

variable {w : ℕ} {γ : Type} {F : Family w γ} {A : Algorithm w} {bits : γ → ℕ} (h : Implements F A bits)

structure Keeps (A : Algorithm w) (data : ℕ → BitVec w) (state : Registers (BitVec w)) (j : ℕ) (x : Family.Rounds w) : Prop where
  registers : x.registers = A.working data state j
  length : x.W.length = 16
  words : ∀ i, i < j → j ≤ i + 16 → x.W.getD (i % 16) 0 = A.schedule data i

variable {data : ℕ → BitVec w} {state : Registers (BitVec w)} {j : ℕ} {x : Family.Rounds w}

include h in
theorem step_eq (hj : j < A.rounds) (y : Registers (BitVec w)) (word : BitVec w) : F.step y j word = A.round y j word := by
  rw [Family.step, h.Sigma0, h.Sigma1, h.constant j hj]
  rfl

theorem words_set {word : BitVec w} (hx : Keeps A data state j x) (hword : word = A.schedule data j) (i : ℕ) (hi : i < j + 1)
    (hle : j + 1 ≤ i + 16) : (x.W.set (j % 16) word).getD (i % 16) 0 = A.schedule data i := by
  rw [List.getD_eq_getElem?_getD, List.getElem?_set]
  by_cases hij : i = j
  · subst hij
    have hlt : i % 16 < x.W.length := by rw [hx.length]; omega
    rw [if_pos rfl, if_pos hlt, hword]
    rfl
  · rw [if_neg (by omega), ← List.getD_eq_getElem?_getD]
    exact hx.words i (by omega) (by omega)

include h in
theorem keeps_copyRound (hj : j < 16) (hx : Keeps A data state j x) : Keeps A data state (j + 1) (F.copyRound data x j) where
  registers := by
    have hr := h.rounds_le
    rw [A.working_succ, A.schedule_of_lt hj, Family.copyRound, hx.registers, h.step_eq (by omega)]
  length := by rw [Family.copyRound, List.length_set, hx.length]
  words := by
    have hset := words_set hx (A.schedule_of_lt hj).symm
    rwa [Nat.mod_eq_of_lt hj] at hset

include h in
theorem keeps_expandRound (hj : 16 ≤ j) (hr : j < A.rounds) (hx : Keeps A data state j x) :
    Keeps A data state (j + 1) (F.expandRound x j) := by
  have hmask (i : ℕ) : i &&& 0x0f = i % 16 := Nat.and_two_pow_sub_one_eq_mod i 4
  obtain ⟨t, rfl⟩ := Nat.exists_eq_add_of_le' hj
  have hword : x.W.getD ((t + 16) &&& 0x0f) 0 + (F.sigma1 (x.W.getD ((t + 16 + 14) &&& 0x0f) 0) +
      x.W.getD ((t + 16 + 9) &&& 0x0f) 0 + F.sigma0 (x.W.getD ((t + 16 + 1) &&& 0x0f) 0)) = A.schedule data (t + 16) := by
    have h0 := hx.words t (by omega) (by omega)
    have h1 := hx.words (t + 1) (by omega) (by omega)
    have h9 := hx.words (t + 9) (by omega) (by omega)
    have h14 := hx.words (t + 14) (by omega) (by omega)
    rw [hmask, hmask, hmask, hmask, show (t + 16) % 16 = t % 16 by omega, show (t + 16 + 14) % 16 = (t + 14) % 16 by omega,
      show (t + 16 + 9) % 16 = (t + 9) % 16 by omega, show (t + 16 + 1) % 16 = (t + 1) % 16 by omega, h0, h1, h9, h14,
      h.sigma0, h.sigma1, A.schedule_of_ge, BitVec.add_comm]
  refine ⟨?_, ?_, ?_⟩
  · rw [A.working_succ, Family.expandRound, hword, hx.registers, h.step_eq hr]
  · rw [Family.expandRound, List.length_set, hx.length]
  · have hset := words_set hx hword
    rwa [← hmask] at hset

include h in
theorem transform_eq (state : Registers (BitVec w)) (data : ℕ → BitVec w) : F.transform state data = A.compress state data := by
  have hcopied (k : ℕ) (hk : k ≤ 16) :
      Keeps A data state k ((List.range k).foldl (F.copyRound data) ⟨state, List.replicate 16 0⟩) := by
    induction k with
    | zero => exact ⟨rfl, List.length_replicate, fun i hi => absurd hi (Nat.not_lt_zero i)⟩
    | succ k ih =>
      rw [List.range_succ, List.foldl_append]
      exact h.keeps_copyRound (by omega) (ih (by omega))
  have hexpanded {y : Family.Rounds w} (hy : Keeps A data state 16 y) (k : ℕ) (hk : 16 + k ≤ A.rounds) :
      Keeps A data state (16 + k) ((List.range' 16 k).foldl F.expandRound y) := by
    induction k with
    | zero => exact hy
    | succ k ih =>
      rw [List.range'_concat, List.foldl_append, Nat.one_mul]
      apply h.keeps_expandRound (j := 16 + k)
      · omega
      · omega
      · exact ih (by omega)
  have hr := h.rounds_le
  have hlast := hexpanded (hcopied 16 le_rfl) (F.rounds - 16) (by rw [h.rounds]; omega)
  rw [Family.transform, hlast.registers, h.rounds, Nat.add_sub_cancel' hr]
  rfl

variable {buffer : List UInt8}

theorem reverseWords_succ (count : ℕ) : F.reverseWords (count + 1) buffer =
    storeWord w (F.reverseWords count buffer) count (F.REVERSE (loadWord w (F.reverseWords count buffer) count)) := by
  rw [Family.reverseWords, List.range_succ, List.foldl_append]
  rfl

@[simp] theorem reverseWords_length (count : ℕ) : (F.reverseWords count buffer).length = buffer.length := by
  induction count with
  | zero => rfl
  | succ count ih => rw [reverseWords_succ, storeWord_length, ih]

include h in
theorem loadWord_reverseWords (hbuffer : buffer.length = blockLength w) {count : ℕ} (hcount : count ≤ 16) (t : ℕ) :
    loadWord w (F.reverseWords count buffer) t =
      if t < count then F.REVERSE (loadWord w buffer t) else loadWord w buffer t := by
  induction count with
  | zero => rfl
  | succ count ih =>
    have hlen : (F.reverseWords count buffer).length = blockLength w := by rw [reverseWords_length, hbuffer]
    rw [reverseWords_succ, loadWord_storeWord h.bytes hlen hcount]
    by_cases ht : t = count
    · subst ht
      rw [if_pos rfl, if_pos (Nat.lt_succ_self t), ih (by omega), if_neg (Nat.lt_irrefl t)]
    · rw [if_neg ht, ih (by omega)]
      congr 1
      apply propext
      omega

include h in
theorem reverse_loadWord (hbuffer : buffer.length = blockLength w) {t : ℕ} (ht : t < 16) :
    F.REVERSE (loadWord w buffer t) = wordOf w buffer t :=
  h.swaps.ofBytes (Nat.mul_div_cancel' h.bytes).symm (window_length (word_fits hbuffer ht))

variable {context : Context w γ}

include h in
theorem process_state (hbuffer : context.buffer.length = blockLength w) :
    (F.process context).state = takeBlock A context.state context.buffer := by
  have hstate : (F.process context).state = F.transform context.state (loadWord w (F.reverseWords 16 context.buffer)) := rfl
  rw [hstate, h.transform_eq, takeBlock]
  apply A.compress_congr
  intro t ht
  rw [h.loadWord_reverseWords hbuffer le_rfl, if_pos ht, h.reverse_loadWord hbuffer ht]

theorem process_length : (F.process context).buffer.length = context.buffer.length := by
  rw [Family.process, reverseWords_length]

theorem process_count (bytes : ℕ) : F.process (F.count context bytes) = F.count (F.process context) bytes := by
  rw [Family.process, Family.count, Family.count, Family.process]

structure Represents (F : Family w γ) (A : Algorithm w) (bits : γ → ℕ) (context : Context w γ) (message : List UInt8) : Prop where
  length : context.buffer.length = F.blockLength
  bitcount : bits context.bitcount = 8 * message.length % 2 ^ (2 * w)
  buffers : ∃ pending, Buffers (takeBlock A) (F.blockLength) A.initial message context.state pending ∧
    window context.buffer 0 pending.length = pending

variable {message : List UInt8}

include h in
theorem blockLength_eq : F.blockLength = 2 * w := by
  have hw := Nat.mul_div_cancel' h.bytes
  rw [Family.blockLength, blockLength]
  omega

include h in
theorem blockLength_pos : 0 < F.blockLength := by
  have hw := h.wide
  rw [h.blockLength_eq]
  omega

include h in
theorem usedspace_eq (hm : Represents F A bits context message) : F.usedspace context = message.length % F.blockLength := by
  have hdvd : (2 : ℕ) ^ 64 ∣ 2 ^ (2 * w) := Nat.pow_dvd_pow 2 (by have := h.wide; omega)
  have hlow : (F.lowBits context.bitcount >>> 3).toNat = (F.lowBits context.bitcount).toNat / 8 := by
    rw [UInt64.toNat_shiftRight]
    exact Nat.shiftRight_eq_div_pow _ 3
  have height : 8 * message.length % 2 ^ 64 / 8 = message.length % 2 ^ 61 := by omega
  have hwhole : F.blockLength ∣ 2 ^ 61 := h.whole.trans (Nat.pow_dvd_pow 2 (by omega))
  rw [Family.usedspace, hlow, h.lowBits, hm.bitcount, Nat.mod_mod_of_dvd _ hdvd, height]
  exact Nat.mod_mod_of_dvd _ hwhole

include h in
theorem represents_init : Represents F A bits F.init [] where
  length := List.length_replicate
  bitcount := by
    rw [Family.init, h.noBits]
    rfl
  buffers := by
    refine ⟨[], ?_, rfl⟩
    rw [Family.init, h.initial]
    exact Buffers.nil h.blockLength_pos

include h in
theorem bits_count {k : ℕ} (hk : k ≤ F.blockLength) (hc : bits context.bitcount = 8 * message.length % 2 ^ (2 * w)) :
    bits (F.count context k).bitcount = 8 * (message.length + k) % 2 ^ (2 * w) := by
  have hle : F.blockLength ≤ 2 ^ 60 := Nat.le_of_dvd (by norm_num) h.whole
  have hshift : (UInt64.ofNat k <<< 3).toNat = 8 * k := by
    rw [UInt64.toNat_shiftLeft, UInt64.toNat_ofNat', show (3 : UInt64).toNat % 64 = 3 from rfl, Nat.shiftLeft_eq]
    omega
  rw [Family.count, h.increment, hc, hshift, Nat.mod_add_mod, Nat.mul_add]

theorem window_copy {buffer pending : List UInt8} (data : List UInt8) (hp : window buffer 0 pending.length = pending)
    (hfits : pending.length + data.length ≤ buffer.length) :
    window (overwrite buffer pending.length data) 0 (pending.length + data.length) = pending ++ data := by
  rw [window_add, window_overwrite_of_apart hfits (Or.inl (by omega)), hp, Nat.zero_add, window_overwrite_self hfits]

include h in
theorem represents_short (data : List UInt8) (hm : Represents F A bits context message)
    (hd : F.usedspace context + data.length < F.blockLength) :
    Represents F A bits (F.count (context.copy (F.usedspace context) data) data.length) (message ++ data) := by
  obtain ⟨pending, hb, hp⟩ := hm.buffers
  rw [h.usedspace_eq hm, hb.length_mod] at hd ⊢
  have hbits : bits (context.copy pending.length data).bitcount = 8 * message.length % 2 ^ (2 * w) := hm.bitcount
  refine ⟨?_, ?_, pending ++ data, hb.short hd, ?_⟩
  · rw [Family.count, Context.copy, overwrite_length, hm.length]
  · rw [h.bits_count (by omega) hbits, List.length_append]
  · rw [List.length_append]
    apply window_copy _ hp
    rw [hm.length]
    omega

include h in
theorem represents_full (data : List UInt8) (hm : Represents F A bits context message)
    (hd : F.usedspace context + data.length = F.blockLength) :
    Represents F A bits (F.count (F.process (context.copy (F.usedspace context) data)) data.length) (message ++ data) := by
  obtain ⟨pending, hb, hp⟩ := hm.buffers
  rw [h.usedspace_eq hm, hb.length_mod] at hd ⊢
  have hlen : (context.copy pending.length data).buffer.length = F.blockLength := by
    rw [Context.copy, overwrite_length, hm.length]
  have hcopy := window_copy _ hp (show pending.length + data.length ≤ context.buffer.length by rw [hm.length, hd])
  have hblock : (context.copy pending.length data).buffer = pending ++ data := by
    rw [← hcopy, hd, window, List.drop_zero, List.take_of_length_le (by rw [overwrite_length, hm.length])]
    rfl
  have hstate : (F.process (context.copy pending.length data)).state = takeBlock A context.state (pending ++ data) := by
    rw [h.process_state hlen, hblock]
    rfl
  have hbits : bits (F.process (context.copy pending.length data)).bitcount = 8 * message.length % 2 ^ (2 * w) :=
    hm.bitcount
  refine ⟨?_, ?_, [], ?_, rfl⟩
  · rw [Family.count, process_length, hlen]
  · rw [h.bits_count (by omega) hbits, List.length_append]
  · rw [Family.count, hstate]
    exact hb.full h.blockLength_pos (by rw [List.length_append, hd])

include h in
theorem represents_updateBlocks (data : List UInt8) (hm : Represents F A bits context message) (hu : F.usedspace context = 0) :
    Represents F A bits (F.updateBlocks context data) (message ++ data) := by
  have hpos := h.blockLength_pos
  have hzero := h.usedspace_eq hm
  rw [hu] at hzero
  have hrun (k : ℕ) (hk : k ≤ data.length / F.blockLength) :
      Represents F A bits ((List.range k).foldl (fun context i => F.count (F.process (context.copy 0
        (window data (F.blockLength * i) (F.blockLength)))) (F.blockLength)) context) (message ++ data.take (F.blockLength * k)) := by
    induction k with
    | zero => simpa using hm
    | succ k ih =>
      have hle := Nat.mul_le_of_le_div _ _ _ hk
      rw [Nat.mul_comm, Nat.mul_succ] at hle
      have hlen : (window data (F.blockLength * k) (F.blockLength)).length = F.blockLength := window_length hle
      have ihk := ih (by omega)
      have huk := h.usedspace_eq ihk
      rw [List.length_append, List.length_take_of_le (by omega), Nat.add_mul_mod_self_left, ← hzero] at huk
      have hfull := h.represents_full (window data (F.blockLength * k) F.blockLength) ihk (by rw [huk, hlen, Nat.zero_add])
      rw [huk, hlen, List.append_assoc] at hfull
      rw [List.range_succ, List.foldl_append, Nat.mul_succ, List.take_add]
      exact hfull
  have hle : F.blockLength * (data.length / F.blockLength) ≤ data.length := Nat.mul_div_le _ _
  have hloop := hrun (data.length / F.blockLength) le_rfl
  have hu' := h.usedspace_eq hloop
  rw [List.length_append, List.length_take_of_le hle, Nat.add_mul_mod_self_left, ← hzero] at hu'
  rw [Family.updateBlocks]
  by_cases hrest : 0 < (data.drop (F.blockLength * (data.length / F.blockLength))).length
  · have hmod : (data.drop (F.blockLength * (data.length / F.blockLength))).length < F.blockLength := by
      rw [List.length_drop, ← Nat.mod_eq_sub]
      exact Nat.mod_lt _ hpos
    have hshort := h.represents_short _ hloop (by rw [hu', Nat.zero_add]; exact hmod)
    rw [hu', List.append_assoc, List.take_append_drop] at hshort
    rw [if_pos hrest]
    exact hshort
  · have hall : data.take (F.blockLength * (data.length / F.blockLength)) = data := by
      rw [List.length_drop] at hrest
      exact List.take_of_length_le (by omega)
    rw [hall] at hloop
    rw [if_neg hrest]
    exact hloop

include h in
theorem represents_update (data : List UInt8) (hm : Represents F A bits context message) :
    Represents F A bits (F.update context data) (message ++ data) := by
  have hpos := h.blockLength_pos
  have hlt : F.usedspace context < F.blockLength := by
    rw [h.usedspace_eq hm]
    exact Nat.mod_lt _ hpos
  rw [Family.update]
  by_cases hempty : data.length = 0
  · rw [if_pos hempty, List.eq_nil_of_length_eq_zero hempty, List.append_nil]
    exact hm
  by_cases hused : 0 < F.usedspace context
  · by_cases hfree : F.blockLength - F.usedspace context ≤ data.length
    · have hlen : (data.take (F.blockLength - F.usedspace context)).length = F.blockLength - F.usedspace context :=
        List.length_take_of_le hfree
      have hfull := h.represents_full (data.take (F.blockLength - F.usedspace context)) hm (by rw [hlen]; omega)
      rw [hlen] at hfull
      have hzero : F.usedspace (F.count (F.process (context.copy (F.usedspace context) (data.take (F.blockLength -
          F.usedspace context)))) (F.blockLength - F.usedspace context)) = 0 := by
        have hsum : message.length + (F.blockLength - F.usedspace context) =
            F.blockLength * (message.length / F.blockLength) + F.blockLength := by
          have hdiv := Nat.div_add_mod message.length F.blockLength
          rw [← h.usedspace_eq hm] at hdiv
          omega
        rw [h.usedspace_eq hfull, List.length_append, hlen, hsum, Nat.mul_add_mod, Nat.mod_self]
      have hrest := h.represents_updateBlocks (data.drop (F.blockLength - F.usedspace context)) hfull hzero
      rw [List.append_assoc, List.take_append_drop] at hrest
      rw [if_neg hempty, if_pos hused, if_pos hfree]
      dsimp only
      rw [process_count]
      exact hrest
    · rw [if_neg hempty, if_pos hused, if_neg hfree]
      exact h.represents_short data hm (by omega)
  · rw [if_neg hempty, if_neg hused]
    exact h.represents_updateBlocks data hm (by omega)

theorem shortBlockLength_eq : F.shortBlockLength = 14 * (w / 8) := by
  rw [Family.shortBlockLength, Family.blockLength, blockLength]
  omega

include h in
theorem last_words (hbuffer : context.buffer.length = F.blockLength)
    (hbits : bits context.bitcount = 8 * message.length % 2 ^ (2 * w)) {t : ℕ} (ht : t < 16) :
    loadWord w (storeWord w (storeWord w (F.reverseWords 14 context.buffer) 14 (F.countWords context.bitcount).1) 15
        (F.countWords context.bitcount).2) t =
      wordOf w (window context.buffer 0 F.shortBlockLength ++ BigEndian.toBytes (2 * (w / 8)) (8 * message.length)) t := by
  have hrev : (F.reverseWords 14 context.buffer).length = blockLength w := by rw [reverseWords_length]; exact hbuffer
  have hstore (word : BitVec w) : (storeWord w (F.reverseWords 14 context.buffer) 14 word).length = blockLength w := by
    rw [storeWord_length, hrev]
  have hfits : 0 + F.shortBlockLength ≤ context.buffer.length := by
    rw [hbuffer, Nat.zero_add]
    exact Nat.sub_le _ _
  have hshort : (window context.buffer 0 F.shortBlockLength).length = 14 * (w / 8) := by
    rw [window_length hfits, shortBlockLength_eq]
  have hpow : (2 : ℕ) ^ w = 256 ^ (w / 8) := by
    rw [show (256 : ℕ) = 2 ^ 8 from rfl, ← pow_mul, Nat.mul_div_cancel' h.bytes]
  have hdouble : (2 : ℕ) ^ (2 * w) = 2 ^ w * 2 ^ w := by rw [Nat.two_mul, pow_add]
  rw [loadWord_storeWord h.bytes (hstore _) (by omega), loadWord_storeWord h.bytes hrev (by omega),
    h.loadWord_reverseWords hbuffer (by omega), h.countWords, hbits]
  rcases Nat.lt_or_ge t 14 with h14 | h14
  · have hle : w / 8 * t + w / 8 ≤ 14 * (w / 8) := by
      have hmul := Nat.mul_le_mul_left (w / 8) (Nat.succ_le_of_lt h14)
      rw [Nat.mul_succ, Nat.mul_comm _ 14] at hmul
      exact hmul
    rw [if_neg (by omega), if_neg (by omega), if_pos h14, h.reverse_loadWord hbuffer ht, wordOf, wordOf,
      window_append_left _ (by rw [hshort]; exact hle), window_window (by rw [shortBlockLength_eq]; exact hle), Nat.zero_add]
  · have hsplit := BigEndian.toBytes_add (w / 8) (w / 8) (8 * message.length)
    have hone : (BigEndian.toBytes (w / 8) (8 * message.length / 256 ^ (w / 8))).length = w / 8 := BigEndian.toBytes_length _ _
    obtain ⟨i, rfl⟩ := Nat.exists_eq_add_of_le h14
    rw [← Nat.two_mul] at hsplit
    rw [wordOf, window_append_right _ _ (by rw [hshort, Nat.mul_comm]; exact Nat.mul_le_mul_left _ h14), hshort, hsplit,
      Nat.mul_add, Nat.mul_comm 14, Nat.add_sub_cancel_left]
    obtain rfl | rfl : i = 0 ∨ i = 1 := by omega
    · rw [if_neg (by omega), if_pos rfl, Nat.mul_zero, window_append_left _ (by rw [hone, Nat.zero_add]), window, List.drop_zero,
        List.take_of_length_le hone.le, BigEndian.ofBytes_toBytes, ← hpow, hdouble, Nat.mod_mul_left_div_self]
    · rw [if_pos rfl, Nat.mul_one, window_append_right _ _ hone.le, hone, Nat.sub_self, window, List.drop_zero,
        List.take_of_length_le (BigEndian.toBytes_length _ _).le, BigEndian.ofBytes_toBytes, ← hpow, hdouble]
      apply BitVec.eq_of_toNat_eq
      rw [BitVec.toNat_ofNat, BitVec.toNat_ofNat, Nat.mod_mul_right_mod, Nat.mod_mod]

theorem clear_eq (context : Context w γ) (pending : List UInt8) (length : ℕ) (hp : window context.buffer 0 pending.length = pending)
    (hle : pending.length ≤ length) (hfits : length ≤ context.buffer.length) :
    window (context.clear pending.length length).buffer 0 length = pending ++ List.replicate (length - pending.length) 0 := by
  have hcopy := window_copy (List.replicate (length - pending.length) 0) hp
  rw [List.length_replicate, Nat.add_sub_cancel' hle] at hcopy
  exact hcopy hfits

@[simp] theorem clear_length (start length : ℕ) : (context.clear start length).buffer.length = context.buffer.length :=
  overwrite_length _ _ _

include h in
theorem pad_spec (hm : Represents F A bits context message) :
    (F.pad context).buffer.length = F.blockLength ∧ (F.pad context).bitcount = context.bitcount ∧
      takeBlock A (F.pad context).state (window (F.pad context).buffer 0 F.shortBlockLength ++
        BigEndian.toBytes (2 * (w / 8)) (8 * message.length)) =
        absorbAll (takeBlock A) F.blockLength A.initial (message ++ padding w message.length) := by
  obtain ⟨pending, hb, hp⟩ := hm.buffers
  have hpos := h.blockLength_pos
  have hlt := hb.pending_lt
  have hlen := hm.length
  have hbytes : 4 ≤ w / 8 := by have := h.wide; omega
  have hblock : F.blockLength = 16 * (w / 8) := rfl
  have hwords : Fips180.blockLength w = 16 * (w / 8) := rfl
  have hshort : F.shortBlockLength = 14 * (w / 8) := shortBlockLength_eq
  have hcount : (BigEndian.toBytes (2 * (w / 8)) (8 * message.length)).length = 2 * (w / 8) := BigEndian.toBytes_length _ _
  have hmod : message.length % Fips180.blockLength w = pending.length := hb.length_mod
  have hused : F.usedspace context = pending.length := (h.usedspace_eq hm).trans hb.length_mod
  have hmark : window (context.copy pending.length [0x80]).buffer 0 (pending ++ [0x80]).length = pending ++ [0x80] := by
    rw [List.length_append]
    exact window_copy _ hp (by rw [hlen]; exact hlt)
  have hmarked : (context.copy pending.length [0x80]).buffer.length = F.blockLength := by rw [Context.copy, overwrite_length, hlen]
  have hone : (pending ++ [(0x80 : UInt8)]).length = pending.length + 1 := List.length_append
  rw [hb.absorbAll_eq, padding, Family.pad, hused]
  by_cases hlast : F.shortBlockLength < pending.length + 1
  · have hzeros := clear_eq _ _ F.blockLength hmark (by omega) (by omega)
    have hfull : ((context.copy pending.length [0x80]).clear (pending.length + 1) F.blockLength).buffer =
        pending ++ [0x80] ++ List.replicate (F.blockLength - (pending.length + 1)) 0 := by
      rw [← hone, ← hzeros, window, List.drop_zero, List.take_of_length_le]
      rw [clear_length, hmarked]
    have hpad : zeros w message.length = F.blockLength - (pending.length + 1) + F.shortBlockLength := by
      rw [Fips180.zeros_of_gt (by rw [hmod]; omega) (by omega), hmod]
      omega
    have hsplit : pending ++ (0x80 :: List.replicate (zeros w message.length) 0 ++ BigEndian.toBytes (2 * (w / 8)) (8 * message.length)) =
        pending ++ [0x80] ++ List.replicate (F.blockLength - (pending.length + 1)) 0 ++
          (List.replicate F.shortBlockLength 0 ++ BigEndian.toBytes (2 * (w / 8)) (8 * message.length)) := by
      rw [hpad, List.replicate_add]
      simp only [List.append_assoc, List.cons_append, List.nil_append]
    have hfirst : (pending ++ [0x80] ++ List.replicate (F.blockLength - (pending.length + 1)) (0 : UInt8)).length = F.blockLength := by
      rw [List.length_append, hone, List.length_replicate]
      omega
    have hsecond : (List.replicate F.shortBlockLength (0 : UInt8) ++
        BigEndian.toBytes (2 * (w / 8)) (8 * message.length)).length = F.blockLength := by
      rw [List.length_append, List.length_replicate, hcount]
      omega
    have hprocess : (F.process ((context.copy pending.length [0x80]).clear (pending.length + 1) F.blockLength)).state =
        takeBlock A context.state (pending ++ [0x80] ++ List.replicate (F.blockLength - (pending.length + 1)) 0) := by
      rw [h.process_state (by rw [clear_length]; exact hmarked), hfull]
      rfl
    have hclear := clear_eq (F.process ((context.copy pending.length [0x80]).clear (pending.length + 1) F.blockLength)) []
      F.shortBlockLength rfl (Nat.zero_le _) (by rw [process_length, clear_length, hmarked]; omega)
    rw [if_pos hlast, hsplit, absorbAll_append _ _ _ hpos hfirst, absorbAll_block _ _ hpos hsecond]
    refine ⟨?_, rfl, ?_⟩
    · rw [clear_length, process_length, clear_length, hmarked]
    · rw [← hprocess]
      exact congrArg (fun bs => takeBlock A _ (bs ++ _)) hclear
  · have hzeros := clear_eq _ _ F.shortBlockLength hmark (by omega) (by omega)
    have hpad : zeros w message.length = F.shortBlockLength - (pending.length + 1) := by
      rw [Fips180.zeros_of_le (by rw [hmod]; omega), hmod]
      omega
    have hsplit : pending ++ (0x80 :: List.replicate (zeros w message.length) 0 ++ BigEndian.toBytes (2 * (w / 8)) (8 * message.length)) =
        pending ++ [0x80] ++ List.replicate (F.shortBlockLength - (pending.length + 1)) 0 ++
          BigEndian.toBytes (2 * (w / 8)) (8 * message.length) := by
      rw [hpad]
      simp
    have hfirst : (pending ++ [0x80] ++ List.replicate (F.shortBlockLength - (pending.length + 1)) (0 : UInt8) ++
        BigEndian.toBytes (2 * (w / 8)) (8 * message.length)).length = F.blockLength := by
      rw [List.length_append, List.length_append, hone, List.length_replicate, hcount]
      omega
    rw [hone] at hzeros
    rw [if_neg hlast, hsplit, absorbAll_block _ _ hpos hfirst, clear_length, hmarked, hzeros]
    exact ⟨rfl, rfl, rfl⟩

include h in
theorem final_eq (hm : Represents F A bits context message) : F.final context = Fips180.hash A message := by
  obtain ⟨hlen, hcount, hlast⟩ := h.pad_spec hm
  have hbits : bits (F.pad context).bitcount = 8 * message.length % 2 ^ (2 * w) := by rw [hcount, hm.bitcount]
  have heq : F.last context = absorbAll (takeBlock A) F.blockLength A.initial (message ++ padding w message.length) := by
    rw [← hlast, Family.last, h.transform_eq]
    apply A.compress_congr
    intro t ht
    exact h.last_words hlen hbits ht
  rw [Family.final, Fips180.hash, heq, Registers.toList_map, List.flatMap_map]
  apply List.flatMap_congr
  intro word _
  exact h.swaps.toBytes (Nat.mul_div_cancel' h.bytes).symm word

include h in
theorem final_foldl_update (pieces : List (List UInt8)) :
    F.final (pieces.foldl F.update F.init) = Fips180.hash A pieces.flatten := by
  have hrun (context : Context w γ) (message : List UInt8) (hm : Represents F A bits context message) :
      Represents F A bits (pieces.foldl F.update context) (message ++ pieces.flatten) := by
    induction pieces generalizing context message with
    | nil => simpa using hm
    | cons piece pieces ih =>
      rw [List.foldl_cons, List.flatten_cons, ← List.append_assoc]
      exact ih _ _ (h.represents_update piece hm)
  exact h.final_eq (hrun F.init [] h.represents_init)

end Implements

theorem prime_iff {n : ℕ} (hn : n < 21 * 21) : n.Prime ↔ 2 ≤ n ∧ ∀ d, d < 21 → 2 ≤ d → d < n → n % d ≠ 0 := by
  rw [Nat.prime_def_lt']
  apply and_congr_right
  intro hle
  constructor
  · intro h d _ hd hlt hmod
    exact h d hd hlt (Nat.dvd_of_mod_eq_zero hmod)
  · intro h d hd hlt hdvd
    -- One of two factors is below the root.
    obtain ⟨e, rfl⟩ := hdvd
    have hpos : 0 < d := by omega
    rcases Nat.lt_or_ge d 21 with hd21 | hd21
    · exact h d hd21 hd hlt (Nat.mul_mod_right d e)
    · have he : e < 21 := by
        by_contra hge
        have hmul := Nat.mul_le_mul hd21 (Nat.le_of_not_lt hge)
        omega
      have he2 : 2 ≤ e := by
        by_contra hlt2
        have hmul := Nat.mul_le_mul_left d (show e ≤ 1 by omega)
        omega
      have hed : e < d * e := by
        have hmul := Nat.mul_le_mul_right e hd
        omega
      exact h e he he2 hed (Nat.mul_mod_left d e)

theorem primes_410 : Fips180.primes 410 =
    [2, 3, 5, 7, 11, 13, 17, 19, 23, 29, 31, 37, 41, 43, 47, 53, 59, 61, 67, 71, 73, 79, 83, 89, 97, 101, 103, 107, 109, 113, 127,
      131, 137, 139, 149, 151, 157, 163, 167, 173, 179, 181, 191, 193, 197, 199, 211, 223, 227, 229, 233, 239, 241, 251, 257, 263,
      269, 271, 277, 281, 283, 293, 307, 311, 313, 317, 331, 337, 347, 349, 353, 359, 367, 373, 379, 383, 389, 397, 401, 409] := by
  have hcongr : Fips180.primes 410 =
      (List.range 410).filter fun n => decide (2 ≤ n ∧ ∀ d, d < 21 → 2 ≤ d → d < n → n % d ≠ 0) := by
    apply List.filter_congr
    intro n hn
    rw [decide_eq_decide]
    exact prime_iff (Nat.lt_trans (List.mem_range.mp hn) (by decide))
  rw [hcongr]
  decide +kernel

theorem K256_eq : K256 = ((Fips180.primes 410).take 64).map (Fips180.fraction 3 32) := by
  rw [primes_410]
  decide +kernel

theorem K512_eq : K512 = ((Fips180.primes 410).take 80).map (Fips180.fraction 3 64) := by
  rw [primes_410]
  decide +kernel

theorem getD_primes_410 {k w m t : ℕ} (hm : m ≤ 80) (ht : t < m) :
    (((Fips180.primes 410).take m).map (Fips180.fraction k w)).getD t 0 = Fips180.fraction k w (Nat.nth Nat.Prime t) := by
  apply Fips180.getD_map_primes _ ht
  rw [primes_410]
  exact Nat.lt_of_lt_of_le ht hm

theorem initialHashValue_eq {w : ℕ} {x : Registers (BitVec w)}
    (hx : x.toList = ((Fips180.primes 410).take 8).map (Fips180.fraction 2 w)) :
    x = .ofFn fun i => Fips180.fraction 2 w (Nat.nth Nat.Prime i) := by
  have hget (t : ℕ) (ht : t < 8) : x.toList.getD t 0 = Fips180.fraction 2 w (Nat.nth Nat.Prime t) := by
    rw [hx, getD_primes_410 (by decide) ht]
  cases x
  rw [Registers.ofFn, ← hget 0 (by omega), ← hget 1 (by omega), ← hget 2 (by omega), ← hget 3 (by omega),
    ← hget 4 (by omega), ← hget 5 (by omega), ← hget 6 (by omega), ← hget 7 (by omega)]
  rfl

theorem sha256InitialHashValue_toList : sha256InitialHashValue.toList = ((Fips180.primes 410).take 8).map (Fips180.fraction 2 32) := by
  rw [primes_410]
  decide +kernel

theorem sha512InitialHashValue_toList : sha512InitialHashValue.toList = ((Fips180.primes 410).take 8).map (Fips180.fraction 2 64) := by
  rw [primes_410]
  decide +kernel

theorem sigma_eq {w i j k : ℕ} (hi : i < w) (hj : j < w) (hk : k < w) :
    (fun x : BitVec w => ROTR i x ^^^ ROTR j x ^^^ ROTR k x) = Fips180.rotations i j k := by
  funext x
  rw [ROTR_eq hi, ROTR_eq hj, ROTR_eq hk, Fips180.rotations]

theorem sigmaShift_eq {w i j : ℕ} (k : ℕ) (hi : i < w) (hj : j < w) :
    (fun x : BitVec w => ROTR i x ^^^ ROTR j x ^^^ SHR k x) = Fips180.rotationsShift i j k := by
  funext x
  rw [ROTR_eq hi, ROTR_eq hj, SHR, Fips180.rotationsShift]

theorem swaps_REVERSE32 : Swaps 4 REVERSE32 := by
  have h (x : BitVec 32) (i : Fin 32) : (REVERSE32 x).getLsbD i = x.getLsbD (8 * (4 - 1 - i / 8) + i % 8) := by
    fin_cases i <;> simp [REVERSE32]
  intro x i hi
  exact h x ⟨i, hi⟩

theorem swaps_REVERSE64 : Swaps 8 REVERSE64 := by
  have h (x : BitVec 64) (i : Fin 64) : (REVERSE64 x).getLsbD i = x.getLsbD (8 * (8 - 1 - i / 8) + i % 8) := by
    fin_cases i <;> simp [REVERSE64]
  intro x i hi
  exact h x ⟨i, hi⟩

theorem implements_sha256 : Implements sha256Family Fips180.sha256 UInt64.toNat where
  bytes := by decide
  wide := le_rfl
  whole := by decide
  rounds := rfl
  rounds_le := by decide
  constant t ht := by
    have hget := getD_primes_410 (k := 3) (w := 32) (by decide) (show t < 64 from ht)
    rw [← K256_eq] at hget
    exact hget
  initial := initialHashValue_eq sha256InitialHashValue_toList
  Sigma0 := sigma_eq (by decide) (by decide) (by decide)
  Sigma1 := sigma_eq (by decide) (by decide) (by decide)
  sigma0 := sigmaShift_eq 3 (by decide) (by decide)
  sigma1 := sigmaShift_eq 10 (by decide) (by decide)
  swaps := swaps_REVERSE32
  noBits := rfl
  increment _ _ := UInt64.toNat_add _ _
  lowBits c := (Nat.mod_eq_of_lt c.toNat_lt).symm
  countWords c := by
    have hhigh : (c >>> 32).toNat = c.toNat / 2 ^ 32 := by
      rw [UInt64.toNat_shiftRight]
      exact Nat.shiftRight_eq_div_pow _ 32
    have hlow : (c &&& 0xffffffff).toNat = c.toNat % 2 ^ 32 := by
      rw [UInt64.toNat_and]
      exact Nat.and_two_pow_sub_one_eq_mod _ 32
    have hwords (n : UInt64) (m : ℕ) (hn : n.toNat % 2 ^ 32 = m % 2 ^ 32) : n.toBitVec.setWidth 32 = BitVec.ofNat 32 m := by
      apply BitVec.eq_of_toNat_eq
      rw [BitVec.toNat_setWidth, BitVec.toNat_ofNat, UInt64.toNat_toBitVec, hn]
    exact Prod.ext (hwords _ _ (congrArg (· % 2 ^ 32) hhigh)) (hwords _ _ (by rw [hlow, Nat.mod_mod]))

def bits128 (c : UInt64 × UInt64) : ℕ := c.1.toNat + 2 ^ 64 * c.2.toNat

theorem bits128_ADDINC128 (c : UInt64 × UInt64) (n : UInt64) :
    bits128 (ADDINC128 c n) = (bits128 c + n.toNat) % 2 ^ 128 := by
  have h1 := c.1.toNat_lt
  have h2 := c.2.toNat_lt
  have hn := n.toNat_lt
  have hlow : (c.1 + n).toNat = (c.1.toNat + n.toNat) % 2 ^ 64 := UInt64.toNat_add _ _
  rw [ADDINC128, bits128, bits128]
  dsimp only
  by_cases hwrap : c.1 + n < n
  · have hlt : (c.1 + n).toNat < n.toNat := hwrap
    rw [if_pos hwrap, UInt64.toNat_add, UInt64.toNat_add, show (1 : UInt64).toNat = 1 from rfl]
    omega
  · have hge : n.toNat ≤ (c.1 + n).toNat := Nat.le_of_not_lt hwrap
    rw [if_neg hwrap, UInt64.toNat_add]
    omega

theorem implements_sha512 : Implements sha512Family Fips180.sha512 bits128 where
  bytes := by decide
  wide := by decide
  whole := by decide
  rounds := rfl
  rounds_le := by decide
  constant t ht := by
    have hget := getD_primes_410 (k := 3) (w := 64) le_rfl (show t < 80 from ht)
    rw [← K512_eq] at hget
    exact hget
  initial := initialHashValue_eq sha512InitialHashValue_toList
  Sigma0 := sigma_eq (by decide) (by decide) (by decide)
  Sigma1 := sigma_eq (by decide) (by decide) (by decide)
  sigma0 := sigmaShift_eq 7 (by decide) (by decide)
  sigma1 := sigmaShift_eq 6 (by decide) (by decide)
  swaps := swaps_REVERSE64
  noBits := rfl
  increment := bits128_ADDINC128
  lowBits c := by
    have h1 := c.1.toNat_lt
    have hlow : c.1.toNat = bits128 c % 2 ^ 64 := by
      rw [bits128]
      omega
    exact hlow
  countWords c := by
    have h1 := c.1.toNat_lt
    have hwords (n : UInt64) (m : ℕ) (hn : m % 2 ^ 64 = n.toNat) : n.toBitVec = BitVec.ofNat 64 m := by
      apply BitVec.eq_of_toNat_eq
      rw [BitVec.toNat_ofNat, UInt64.toNat_toBitVec, hn]
    have h2 := c.2.toNat_lt
    exact Prod.ext (hwords c.2 _ (by rw [bits128]; omega)) (hwords c.1 _ (by rw [bits128]; omega))

theorem sha2_pieces (pieces : List (List UInt8)) :
    sha256Final (pieces.foldl sha256Update sha256Init) = Fips180.hash Fips180.sha256 pieces.flatten ∧
      sha512Final (pieces.foldl sha512Update sha512Init) = Fips180.hash Fips180.sha512 pieces.flatten :=
  ⟨implements_sha256.final_foldl_update pieces, implements_sha512.final_foldl_update pieces⟩

end TronlinkCore.TrezorCrypto
