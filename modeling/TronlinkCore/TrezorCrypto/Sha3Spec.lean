import TronlinkCore.TrezorCrypto.Sha3
import TronlinkCore.Library.ByteOrder
import TronlinkCore.Library.Fips202
import Mathlib

/-!
`sha3.c` computes the hash functions of FIPS 202, and Keccak with its own
padding, of messages in pieces of any length that lie at any address.
-/

namespace TronlinkCore.TrezorCrypto

open Windows Blocks
open Fips202 (State theta rho pi chi iota keccakF bits)

theorem get_ofFn {α : Type} {n : ℕ} (f : Fin n → α) (i : Fin n) : (Vector.ofFn f).get i = f i := by
  exact Vector.getElem_ofFn i.isLt

theorem get_put (A : Lanes) (i j : Fin 25) (word : BitVec 64) : (A.put i word).get j = if j = i then word else A.get j := by
  have hset : (A.put i word).get j = if (i : ℕ) = j then word else A.get j := Vector.getElem_set i.isLt j.isLt
  rw [hset]
  by_cases h : j = i
  · rw [if_pos h, if_pos (congrArg Fin.val h.symm)]
  · rw [if_neg h, if_neg fun hval => h (Fin.ext hval.symm)]

def lane (x y : Fin 5) : Fin 25 := place x y

def bitsOf (A : Lanes) : State 6 := fun x y z => (A.get (lane x y)).getLsbD z

theorem lane_val (x y : Fin 5) : (lane x y : ℕ) = x + 5 * y := by
  rw [lane, place, Fin.val_ofNat, Nat.mod_eq_of_lt]
  omega

theorem getLsbD_ROTL64 (q : BitVec 64) {n : ℕ} (hpos : 0 < n) (hn : n < 64) (z : Fin (2 ^ 6)) :
    (ROTL64 q n).getLsbD z = q.getLsbD (z - Fin.ofNat (2 ^ 6) n : Fin (2 ^ 6)) := by
  have hz : (z : ℕ) < 64 := z.isLt
  have hsub : ((z - Fin.ofNat (2 ^ 6) n : Fin (2 ^ 6)) : ℕ) = if (z : ℕ) < n then 64 - n + z else z - n := by
    rw [Fin.sub_def, Fin.val_ofNat]
    change (64 - n % 64 + (z : ℕ)) % 64 = _
    split <;> omega
  rw [ROTL64, BitVec.getLsbD_xor, BitVec.getLsbD_shiftLeft, BitVec.getLsbD_ushiftRight, hsub]
  by_cases h : (z : ℕ) < n
  · rw [if_pos h]
    simp [h]
  · rw [if_neg h, BitVec.getLsbD_of_ge q (64 - n + z) (by omega)]
    simp [h, hz]

theorem lane_column (x y : Fin 5) : (lane x y : ℕ) % 5 = x := by
  rw [lane_val, Nat.add_mul_mod_self_left, Nat.mod_eq_of_lt x.isLt]

theorem bitsOf_apply (A : Lanes) (x y : Fin 5) (z : Fin (2 ^ 6)) : bitsOf A x y z = (A.get (lane x y)).getLsbD z := rfl

theorem get_theta (A : Lanes) (x y : Fin 5) : (keccakTheta A).get (lane x y) =
    A.get (lane x y) ^^^ (ROTL64 (column A (x + 1)) 1 ^^^ column A (x - 1)) := by
  rw [keccakTheta, get_ofFn]
  simp only [lane_column, Vector.getElem_ofFn]
  congr 1
  fin_cases x <;> rfl

theorem bitsOf_theta (A : Lanes) : bitsOf (keccakTheta A) = theta (bitsOf A) := by
  funext x y z
  have hcolumn (x : Fin 5) (z : Fin (2 ^ 6)) : (column A x).getLsbD z = Fips202.parity (bitsOf A) x z := by
    simp only [column, BitVec.getLsbD_xor, Fips202.parity, bitsOf_apply]
    rfl
  rw [bitsOf_apply, get_theta, BitVec.getLsbD_xor, BitVec.getLsbD_xor, getLsbD_ROTL64 _ (by decide) (by decide), hcolumn, hcolumn,
    theta, Bool.xor_comm (Fips202.parity _ (x - 1) z)]
  rfl

theorem bitsOf_rho (A : Lanes) : bitsOf (keccakRho A) = rho (bitsOf A) := by
  have hoffset : ∀ x y : Fin 5, rotations.get (lane x y) = Fips202.offset x y % 64 := by decide +kernel
  have hpos : ∀ x y : Fin 5, lane x y ≠ 0 → 0 < rotations.get (lane x y) := by decide +kernel
  have hzero : ∀ x y : Fin 5, lane x y = 0 → Fips202.offset x y = 0 := by decide +kernel
  funext x y z
  rw [bitsOf_apply, keccakRho, get_ofFn, rho]
  have hsub (n : ℕ) : z - Fin.ofNat (2 ^ 6) (n % 64) = z - Fin.ofNat (2 ^ 6) n := by
    congr 1
    apply Fin.ext
    exact Nat.mod_mod n 64
  by_cases h : lane x y = 0
  · have hz : z - Fin.ofNat (2 ^ 6) 0 = z := by
      apply Fin.ext
      change (2 ^ 6 - 0 % 2 ^ 6 + (z : ℕ)) % 2 ^ 6 = z
      rw [Nat.zero_mod, Nat.sub_zero, Nat.add_mod_left, Nat.mod_eq_of_lt z.isLt]
    rw [if_pos h, hzero x y h, hz]
    rfl
  · have hlt : rotations.get (lane x y) < 64 := by
      rw [hoffset]
      exact Nat.mod_lt _ (by decide)
    rw [if_neg h, getLsbD_ROTL64 _ (hpos x y h) hlt, hoffset, hsub]
    rfl

theorem get_moves (moves : List (Fin 25 × Fin 25)) {A A' : Lanes} {source : Fin 25 → Fin 25} (h : ∀ j, A'.get j = A.get (source j))
    (j : Fin 25) : (moves.foldl (fun A move => A.put move.1 (A.get move.2)) A').get j =
      A.get (moves.foldl (fun source move => Function.update source move.1 (source move.2)) source j) := by
  induction moves generalizing A' source with
  | nil => exact h j
  | cons move moves ih =>
    apply ih
    intro j
    dsimp only
    rw [get_put, Function.update_apply]
    split
    · exact h _
    · exact h j

theorem bitsOf_pi (A : Lanes) : bitsOf (keccakPi A) = pi (bitsOf A) := by
  have hsource : ∀ x y : Fin 5, (if lane x y = 10 then 1 else moves.foldl (fun source move =>
      Function.update source move.1 (source move.2)) id (lane x y)) = lane (x + 3 * y) x := by decide +kernel
  funext x y z
  rw [bitsOf_apply, keccakPi, get_put, get_moves moves (fun _ => rfl : ∀ j, A.get j = A.get (id j)), pi, bitsOf_apply,
    ← hsource, apply_ite A.get]
  rfl

theorem lane_inj {x y x' y' : Fin 5} : lane x y = lane x' y' ↔ x = x' ∧ y = y' := by
  rw [Fin.ext_iff, lane_val, lane_val, Fin.ext_iff, Fin.ext_iff]
  omega

theorem get_chiRow (A : Lanes) (i x y : Fin 5) : (chiRow A i).get (lane x y) =
    if y = i then A.get (lane x y) ^^^ (~~~ A.get (lane (x + 1) y) &&& A.get (lane (x + 2) y)) else A.get (lane x y) := by
  have h0 : place 0 i = lane 0 i := rfl
  have h1 : place 1 i = lane 1 i := rfl
  have h2 : place 2 i = lane 2 i := rfl
  have h3 : place 3 i = lane 3 i := rfl
  have h4 : place 4 i = lane 4 i := rfl
  simp only [chiRow, h0, h1, h2, h3, h4, get_put, lane_inj]
  by_cases hy : y = i
  · subst hy
    fin_cases x <;> simp
  · simp [hy]

theorem bitsOf_chi (A : Lanes) : bitsOf (keccakChi A) = chi (bitsOf A) := by
  have hrows : keccakChi A = chiRow (chiRow (chiRow (chiRow (chiRow A 0) 1) 2) 3) 4 := rfl
  funext x y z
  have hget : (keccakChi A).get (lane x y) = A.get (lane x y) ^^^ (~~~ A.get (lane (x + 1) y) &&& A.get (lane (x + 2) y)) := by
    rw [hrows]
    fin_cases y <;> simp [get_chiRow]
  rw [bitsOf_apply, hget, BitVec.getLsbD_xor, BitVec.getLsbD_and, BitVec.getLsbD_not, chi]
  simp [bitsOf_apply]

theorem bitsOf_iota (A : Lanes) {i : ℕ} (hi : i < 24) :
    bitsOf (A.put 0 (A.get 0 ^^^ keccakRoundConstants.getD i 0)) = iota (bitsOf A) i := by
  have hconstant : ∀ i : Fin 24, ∀ z : Fin (2 ^ 6), (keccakRoundConstants.getD i 0).getLsbD z = Fips202.roundConstant 6 i z := by
    decide +kernel
  have hlane (x y : Fin 5) : lane x y = 0 ↔ x = 0 ∧ y = 0 := @lane_inj x y 0 0
  funext x y z
  rw [bitsOf_apply, get_put, iota]
  by_cases h : x = 0 ∧ y = 0
  · rw [if_pos ((hlane x y).mpr h), if_pos h, BitVec.getLsbD_xor, hconstant ⟨i, hi⟩ z, bitsOf_apply, (hlane x y).mpr h]
  · rw [if_neg fun hzero => h ((hlane x y).mp hzero), if_neg h, bitsOf_apply]

theorem bitsOf_permutation (A : Lanes) : bitsOf (sha3Permutation A) = keccakF (bitsOf A) := by
  have hrun (k : ℕ) (hk : k ≤ 24) : bitsOf ((List.range k).foldl (fun state round =>
      let state := keccakChi (keccakPi (keccakRho (keccakTheta state)))
      state.put 0 (state.get 0 ^^^ keccakRoundConstants.getD round 0)) A) = (List.range k).foldl Fips202.round (bitsOf A) := by
    induction k with
    | zero => rfl
    | succ k ih =>
      rw [List.range_succ, List.foldl_append, List.foldl_append, ← ih (by omega), List.foldl_cons, List.foldl_nil, List.foldl_cons,
        List.foldl_nil, bitsOf_iota _ hk, bitsOf_chi, bitsOf_pi, bitsOf_rho, bitsOf_theta, Fips202.round]
  exact hrun 24 le_rfl

theorem bits_length (bs : List UInt8) : (bits bs).length = 8 * bs.length := by
  induction bs with
  | nil => rfl
  | cons b bs ih =>
    have hcons : bits (b :: bs) = (List.range 8).map b.toNat.testBit ++ bits bs := rfl
    rw [hcons, List.length_append, List.length_map, List.length_range, ih, List.length_cons]
    omega

theorem bits_append (as bs : List UInt8) : bits (as ++ bs) = bits as ++ bits bs := List.flatMap_append

theorem getD_bits (bs : List UInt8) (j : ℕ) : (bits bs).getD j false = (bs.getD (j / 8) 0).toNat.testBit (j % 8) := by
  induction bs generalizing j with
  | nil => simp [bits]
  | cons b bs ih =>
    have hcons : bits (b :: bs) = (List.range 8).map b.toNat.testBit ++ bits bs := rfl
    have hlen : ((List.range 8).map b.toNat.testBit).length = 8 := by rw [List.length_map, List.length_range]
    rcases Nat.lt_or_ge j 8 with hj | hj
    · rw [hcons, List.getD_append _ _ _ _ (by omega), Nat.div_eq_of_lt hj, Nat.mod_eq_of_lt hj, List.getD_cons_zero,
        List.getD_eq_getElem?_getD, List.getElem?_map, List.getElem?_range hj]
      rfl
    · have hdiv : j / 8 = (j - 8) / 8 + 1 := by omega
      have hmod : j % 8 = (j - 8) % 8 := by omega
      rw [hcons, List.getD_append_right _ _ _ _ (by omega), hlen, ih, hdiv, hmod, List.getD_cons_succ]

variable {n : ℕ}

structure Rate (n : ℕ) : Prop where
  words : 8 * blockWords n = n
  lower : 72 ≤ n
  upper : n ≤ 144

theorem bitsOf_processBlock (hn : Rate n) (hash : Lanes) {block : List UInt8} (hb : n ≤ block.length) :
    bitsOf (sha3ProcessBlock hash block n) = Fips202.absorb keccakF (bitsOf hash) (bits (block.take n)) := by
  have hwords := hn.words
  rw [sha3ProcessBlock, bitsOf_permutation, Fips202.absorb]
  congr 1
  funext x y z
  have hz : (z : ℕ) < 64 := z.isLt
  have hindex : 2 ^ 6 * (5 * (y : ℕ) + x) + z = 64 * lane x y + z := by
    rw [lane_val]
    omega
  have hdiv : (64 * (lane x y : ℕ) + z) / 8 = 8 * lane x y + z / 8 := by omega
  have hmod : (64 * (lane x y : ℕ) + z) % 8 = z % 8 := by omega
  rw [bitsOf_apply, get_ofFn, hindex, getD_bits, hdiv, hmod]
  by_cases hlane : (lane x y : ℕ) < blockWords n
  · have hget : (window block (8 * lane x y) 8).getD (z / 8) 0 = (block.take n).getD (8 * lane x y + z / 8) 0 := by
      rw [List.getD_eq_getElem?_getD, List.getD_eq_getElem?_getD, getElem?_window, if_pos (by omega), List.getElem?_take_of_lt (by omega)]
    rw [if_pos hlane, BitVec.getLsbD_xor, BitVec.getLsbD_ofNat, ByteOrder.testBit_ofBytes, hget, decide_eq_true hz, Bool.true_and,
      bitsOf_apply]
  · have hout : (block.take n).getD (8 * lane x y + z / 8) 0 = 0 := by
      rw [List.getD_eq_getElem?_getD, List.getElem?_eq_none (by rw [List.length_take]; omega), Option.getD_none]
    rw [if_neg hlane, hout, bitsOf_apply]
    simp

theorem processBlock_take (hn : Rate n) (hash : Lanes) (block : List UInt8) :
    sha3ProcessBlock hash (block.take n) n = sha3ProcessBlock hash block n := by
  have hwords := hn.words
  rw [sha3ProcessBlock, sha3ProcessBlock]
  congr 2
  funext i
  by_cases hi : (i : ℕ) < blockWords n
  · rw [if_pos hi, if_pos hi, window_take (by omega)]
  · rw [if_neg hi, if_neg hi]

def absorbBlock (n : ℕ) (hash : Lanes) (block : List UInt8) : Lanes := sha3ProcessBlock hash block n

theorem bits_window (bs : List UInt8) (i k : ℕ) : window (bits bs) (8 * i) (8 * k) = bits (window bs i k) := by
  have hdrop (as : List UInt8) (i : ℕ) : (bits as).drop (8 * i) = bits (as.drop i) := by
    rcases Nat.le_total i as.length with hi | hi
    · have hlen : (bits (as.take i)).length = 8 * i := by rw [bits_length, List.length_take_of_le hi]
      conv_lhs => rw [← List.take_append_drop i as, bits_append, ← hlen, List.drop_left]
    · rw [List.drop_of_length_le hi, List.drop_of_length_le (by rw [bits_length]; omega)]
      rfl
  have htake (as : List UInt8) (k : ℕ) : (bits as).take (8 * k) = bits (as.take k) := by
    rcases Nat.le_total k as.length with hk | hk
    · have hlen : (bits (as.take k)).length = 8 * k := by rw [bits_length, List.length_take_of_le hk]
      conv_lhs => rw [← List.take_append_drop k as, bits_append, ← hlen, List.take_left]
    · rw [List.take_of_length_le hk, List.take_of_length_le (by rw [bits_length]; omega)]
  rw [window, hdrop, htake, window]

theorem bits_take (bs : List UInt8) (k : ℕ) : bits (bs.take k) = (bits bs).take (8 * k) := (bits_window bs 0 k).symm

theorem blocks_bits (n : ℕ) (bs : List UInt8) : blocks (8 * n) (bits bs) = (blocks n bs).map bits := by
  rw [blocks, bits_length, Nat.mul_div_mul_left _ _ (by decide), blocks, List.map_map]
  apply List.map_congr_left
  intro i _
  rw [Nat.mul_assoc, bits_window, Function.comp_apply]

theorem bitsOf_absorbAll (hn : Rate n) (hash : Lanes) (bs : List UInt8) :
    bitsOf (absorbAll (absorbBlock n) n hash bs) = absorbAll (Fips202.absorb keccakF) (8 * n) (bitsOf hash) (bits bs) := by
  rw [absorbAll, absorbAll, blocks_bits, List.foldl_map]
  have hlen : ∀ b ∈ blocks n bs, b.length = n := fun _ => length_of_mem_blocks
  generalize blocks n bs = chunks at hlen
  induction chunks generalizing hash with
  | nil => rfl
  | cons chunk chunks ih =>
    have hchunk := hlen chunk List.mem_cons_self
    rw [List.foldl_cons, List.foldl_cons, ih _ fun b hb => hlen b (List.mem_cons_of_mem chunk hb), absorbBlock,
      bitsOf_processBlock hn _ hchunk.ge, List.take_of_length_le hchunk.le]

def start : Lanes := .replicate 25 0

/-- The buffer begins with the bytes that are not taken in yet. -/
structure Buffered (n : ℕ) (ctx : SHA3_CTX) (message pending : List UInt8) : Prop where
  blockSize : ctx.blockSize = n
  buffer : ctx.message.length = 192
  taken : Buffers (absorbBlock n) n start message ctx.hash pending
  pending : ctx.message.take pending.length = pending

variable {ctx : SHA3_CTX} {message pending : List UInt8}

theorem Buffered.short (h : Buffered n ctx message pending) (hn : Rate n) (data : List UInt8) (hd : pending.length + data.length < n) :
    Buffered n { ctx with message := overwrite ctx.message pending.length data } (message ++ data) (pending ++ data) where
  blockSize := h.blockSize
  buffer := by rw [overwrite_length, h.buffer]
  taken := h.taken.short hd
  pending := by
    have hupper := hn.upper
    have hbuffer := h.buffer
    rw [List.length_append, take_overwrite (by omega), h.pending]

theorem Buffered.full (h : Buffered n ctx message pending) (hn : Rate n) (data : List UInt8) (hd : pending.length + data.length = n)
    {filled : List UInt8} (hfilled : filled = overwrite ctx.message pending.length data) :
    Buffered n { ctx with message := filled, hash := sha3ProcessBlock ctx.hash filled n } (message ++ data) [] := by
  have hupper := hn.upper
  have hlower := hn.lower
  have hbuffer := h.buffer
  have htake : filled.take n = pending ++ data := by
    rw [hfilled, ← hd, take_overwrite (by omega), h.pending]
  have hfull := @Buffers.full _ _ _ _ _ _ _ _ data h.taken (by omega) (by rw [List.length_append, hd])
  rw [← htake, absorbBlock, processBlock_take hn] at hfull
  refine ⟨h.blockSize, ?_, hfull, ?_⟩
  · rw [hfilled, overwrite_length, h.buffer]
  · rw [List.length_nil, List.take_zero]

theorem Buffered.block (h : Buffered n ctx message []) (hn : Rate n) (address : ℕ) {data : List UInt8} (hd : data.length = n) :
    Buffered n (sha3Block address ctx data) (message ++ data) [] ∧ (sha3Block address ctx data).rest = ctx.rest := by
  have hlower := hn.lower
  rw [sha3Block, h.blockSize]
  dsimp only
  by_cases haligned : address % 8 = 0
  · rw [if_pos haligned]
    refine ⟨⟨rfl, h.buffer, ?_, by rw [List.length_nil, List.take_zero]⟩, rfl⟩
    have hfull := @Buffers.full _ _ _ _ _ _ _ _ data h.taken (by omega) (by rwa [List.nil_append])
    rw [List.nil_append] at hfull
    exact hfull
  · rw [if_neg haligned]
    have hfull := h.full hn data (by rwa [List.length_nil, Nat.zero_add]) rfl
    rw [List.length_nil, h.blockSize] at hfull
    exact ⟨hfull, rfl⟩

theorem Buffered.blocks (h : Buffered n ctx message []) (hn : Rate n) (address : ℕ) (msg : List UInt8) :
    (∃ pending, Buffered n (sha3Blocks address ctx msg) (message ++ msg) pending) ∧ (sha3Blocks address ctx msg).rest = ctx.rest := by
  have hlower := hn.lower
  have hrun (k : ℕ) (hk : k ≤ msg.length / n) :
      let run := (List.range k).foldl (fun ctx i => sha3Block (address + n * i) ctx (window msg (n * i) n)) ctx
      Buffered n run (message ++ msg.take (n * k)) [] ∧ run.rest = ctx.rest := by
    induction k with
    | zero => exact ⟨by simpa using h, rfl⟩
    | succ k ih =>
      have hle := Nat.mul_le_of_le_div _ _ _ hk
      rw [Nat.mul_comm, Nat.mul_succ] at hle
      obtain ⟨hbuffered, hrest⟩ := ih (by omega)
      obtain ⟨hnext, hrest'⟩ := hbuffered.block hn (address + n * k) (window_length hle)
      rw [List.append_assoc, window, ← List.take_add, ← Nat.mul_succ] at hnext
      rw [List.range_succ, List.foldl_append]
      exact ⟨hnext, hrest'.trans hrest⟩
  obtain ⟨hbuffered, hrest⟩ := hrun _ le_rfl
  have hle : n * (msg.length / n) ≤ msg.length := Nat.mul_div_le _ _
  have hmod := Nat.mod_lt msg.length (show 0 < n by omega)
  have hdiv := Nat.div_add_mod msg.length n
  rw [sha3Blocks, h.blockSize]
  by_cases hleft : 0 < msg.length - n * (msg.length / n)
  · rw [if_pos hleft]
    have hshort := hbuffered.short hn (msg.drop (n * (msg.length / n))) (by rw [List.length_nil, List.length_drop]; omega)
    rw [List.append_assoc, List.take_append_drop] at hshort
    exact ⟨⟨_, hshort⟩, hrest⟩
  · rw [if_neg hleft]
    rw [List.take_of_length_le (by omega)] at hbuffered
    exact ⟨⟨[], hbuffered⟩, hrest⟩

structure Absorbs (n : ℕ) (ctx : SHA3_CTX) (message : List UInt8) : Prop where
  buffered : ∃ pending, Buffered n ctx message pending
  rest : ctx.rest = message.length % n

theorem not_finalized {rest : ℕ} (h : rest < 144) : rest &&& SHA3_FINALIZED = 0 := by
  have hbit (i : ℕ) : (rest &&& 2 ^ 31).testBit i = false := by
    rw [Nat.testBit_and, Nat.testBit_two_pow]
    by_cases hi : 31 = i
    · rw [Nat.testBit_lt_two_pow (Nat.lt_of_lt_of_le h ?_), Bool.false_and]
      rw [← hi]
      decide
    · rw [decide_eq_false hi, Bool.and_false]
  apply Nat.eq_of_testBit_eq
  intro i
  rw [Nat.zero_testBit]
  exact hbit i

theorem Absorbs.init (hn : Rate n) : Absorbs n ⟨start, List.replicate 192 0, 0, n⟩ [] where
  buffered := ⟨[], rfl, List.length_replicate, .nil (Nat.lt_of_lt_of_le (by decide) hn.lower), by rw [List.length_nil, List.take_zero]⟩
  rest := (Nat.zero_mod n).symm

theorem Buffered.fill (h : Buffered n ctx message pending) (hn : Rate n) (address : ℕ) (msg : List UInt8) :
    (∃ pending', Buffered n (sha3Fill pending.length ctx address msg) (message ++ msg) pending') ∧
      (sha3Fill pending.length ctx address msg).rest = ctx.rest := by
  have hlt := h.taken.pending_lt
  rw [sha3Fill, h.blockSize]
  by_cases hsize : msg.length < n - pending.length
  · have hshort := h.short hn msg (by omega)
    rw [if_pos hsize, List.take_of_length_le hsize.le]
    rw [h.blockSize] at hshort
    exact ⟨⟨_, hshort⟩, rfl⟩
  · have hlen : (msg.take (n - pending.length)).length = n - pending.length := List.length_take_of_le (by omega)
    have hfull := h.full hn (msg.take (n - pending.length)) (by omega) rfl
    have hblocks := hfull.blocks hn (address + (n - pending.length)) (msg.drop (n - pending.length))
    rw [List.append_assoc, List.take_append_drop, h.blockSize] at hblocks
    rw [if_neg hsize]
    exact hblocks

theorem Absorbs.update (h : Absorbs n ctx message) (hn : Rate n) (address : ℕ) (msg : List UInt8) :
    Absorbs n (sha3Update ctx address msg) (message ++ msg) := by
  obtain ⟨pending, hbuffered⟩ := h.buffered
  have hupper := hn.upper
  have hlt := hbuffered.taken.pending_lt
  have hpending : ctx.rest = pending.length := h.rest.trans hbuffered.taken.length_mod
  have hrest : (ctx.rest + msg.length) % ctx.blockSize = (message ++ msg).length % n := by
    rw [hbuffered.blockSize, h.rest, Nat.mod_add_mod, List.length_append]
  have hopen : ¬ ctx.rest &&& SHA3_FINALIZED ≠ 0 := not_not.mpr (not_finalized (by omega))
  have hcounted : Buffered n { ctx with rest := (ctx.rest + msg.length) % ctx.blockSize } message pending :=
    ⟨hbuffered.blockSize, hbuffered.buffer, hbuffered.taken, hbuffered.pending⟩
  rw [sha3Update, if_neg hopen]
  by_cases hidx : ctx.rest ≠ 0
  · obtain ⟨hfill, hsame⟩ := hcounted.fill hn address msg
    rw [← hpending] at hfill hsame
    rw [if_pos hidx]
    exact ⟨hfill, hsame.trans hrest⟩
  · have hnil : pending = [] := List.eq_nil_of_length_eq_zero (by omega)
    rw [hnil] at hcounted
    obtain ⟨hblocks, hsame⟩ := hcounted.blocks hn address msg
    rw [if_neg hidx]
    exact ⟨hblocks, hsame.trans hrest⟩

structure Marks (mark : UInt8) (suffix : List Bool) : Prop where
  short : suffix.length ≤ 5
  bits : bits [mark] = suffix ++ true :: List.replicate (7 - suffix.length) false
  bits_closed : Fips202.bits [mark ||| 0x80] = suffix ++ true :: List.replicate (6 - suffix.length) false ++ [true]

def lastBytes (mark : UInt8) : ℕ → List UInt8
  | 0 => []
  | 1 => [mark ||| 0x80]
  | k + 2 => mark :: List.replicate k 0 ++ [0x80]

theorem lastBytes_length (mark : UInt8) (k : ℕ) : (lastBytes mark k).length = k := by
  match k with
  | 0 | 1 => rfl
  | k + 2 => rw [lastBytes, List.length_append, List.length_cons, List.length_replicate, List.length_singleton]

theorem bits_replicate_zero (k : ℕ) : bits (List.replicate k 0) = List.replicate (8 * k) false := by
  induction k with
  | zero => rfl
  | succ k ih =>
    have hcons : bits (List.replicate (k + 1) 0) = List.replicate 8 false ++ bits (List.replicate k 0) := rfl
    rw [hcons, ih, Nat.mul_succ, Nat.add_comm, List.replicate_add]

theorem bits_lastBytes {mark : UInt8} {suffix : List Bool} (h : Marks mark suffix) {k : ℕ} (hk : 0 < k) :
    bits (lastBytes mark k) = suffix ++ true :: List.replicate (8 * k - (suffix.length + 2)) false ++ [true] := by
  have hshort := h.short
  match k with
  | 1 =>
    rw [lastBytes, h.bits_closed, Nat.mul_one, Nat.sub_add_eq, Nat.sub_right_comm]
  | k + 2 =>
    have hlast : bits [0x80] = List.replicate 7 false ++ [true] := by decide
    have hsplit : mark :: List.replicate k 0 = [mark] ++ List.replicate k 0 := rfl
    have hcount : 8 * (k + 2) - (suffix.length + 2) = 7 - suffix.length + 8 * k + 7 := by omega
    rw [lastBytes, hsplit, bits_append, bits_append, h.bits, bits_replicate_zero, hlast, hcount, List.replicate_add, List.replicate_add]
    simp

theorem padded_eq {mark : UInt8} {suffix : List Bool} (h : Marks mark suffix) (hn : 0 < n) (message : List UInt8) :
    bits (message ++ lastBytes mark (n - message.length % n)) =
      (bits message ++ suffix) ++ Fips202.pad (8 * n) (bits message ++ suffix).length := by
  have hshort := h.short
  have hlt := Nat.mod_lt message.length hn
  have hmod : (8 * message.length + suffix.length + 2) % (8 * n) = 8 * (message.length % n) + (suffix.length + 2) := by
    have hdiv := Nat.div_add_mod message.length n
    have hsum : 8 * message.length + suffix.length + 2 =
        8 * n * (message.length / n) + (8 * (message.length % n) + (suffix.length + 2)) := by
      rw [Nat.mul_assoc, ← Nat.add_assoc, ← Nat.mul_add, hdiv, Nat.add_assoc]
    rw [hsum, Nat.mul_add_mod, Nat.mod_eq_of_lt (by omega)]
  have hcount : (8 * n - (8 * (message.length % n) + (suffix.length + 2))) % (8 * n) =
      8 * (n - message.length % n) - (suffix.length + 2) := by
    rw [Nat.mod_eq_of_lt (by omega)]
    omega
  rw [bits_append, bits_lastBytes h (by omega), Fips202.pad, List.length_append, bits_length, hmod, hcount]
  simp

theorem set_middle {α : Type} (xs ys : List α) (a b : α) : (xs ++ a :: ys).set xs.length b = xs ++ b :: ys := by
  rw [List.set_append_right _ _ le_rfl, Nat.sub_self, List.set_cons_zero]

theorem getD_middle {α : Type} (xs ys : List α) (a d : α) : (xs ++ a :: ys).getD xs.length d = a := by
  rw [List.getD_append_right _ _ _ _ le_rfl, Nat.sub_self, List.getD_cons_zero]

theorem take_last (mark : UInt8) {buffer pending : List UInt8} (hbuffer : buffer.take pending.length = pending)
    (hn : pending.length < n) (hlen : n ≤ buffer.length) :
    let message := overwrite buffer pending.length (List.replicate (n - pending.length) 0)
    let message := message.set pending.length (message.getD pending.length 0 ||| mark)
    let message := message.set (n - 1) (message.getD (n - 1) 0 ||| 0x80)
    message.take n = pending ++ lastBytes mark (n - pending.length) := by
  intro cleared marked closed
  obtain ⟨k, rfl⟩ := Nat.exists_eq_add_of_lt hn
  have hleft : pending.length + k + 1 - pending.length = k + 1 := by omega
  have hclose : pending.length + k + 1 - 1 = pending.length + k := by omega
  have hcleared : ∃ rest, cleared = pending ++ 0 :: (List.replicate k 0 ++ rest) := by
    have htake := @take_overwrite _ buffer (List.replicate (k + 1) 0) pending.length (by rw [List.length_replicate]; omega)
    rw [hbuffer, ← hleft] at htake
    refine ⟨cleared.drop (pending.length + (List.replicate (pending.length + k + 1 - pending.length) (0 : UInt8)).length), ?_⟩
    have hsplit := List.take_append_drop (pending.length + (List.replicate (pending.length + k + 1 - pending.length) (0 : UInt8)).length)
      cleared
    rw [htake, hleft] at hsplit
    rw [hleft, ← List.cons_append, ← List.replicate_succ, ← List.append_assoc]
    exact hsplit.symm
  obtain ⟨rest, hrest⟩ := hcleared
  have hmarked : marked = pending ++ mark :: (List.replicate k 0 ++ rest) := by
    simp only [marked, hrest, getD_middle, set_middle, UInt8.zero_or]
  rw [hleft]
  cases k with
  | zero =>
    have hclosed : closed = pending ++ (mark ||| 0x80) :: rest := by
      simp only [closed, hmarked, hclose, Nat.add_zero, List.replicate_zero, List.nil_append, getD_middle, set_middle]
    rw [List.append_cons] at hclosed
    have hlen : (pending ++ [mark ||| 0x80]).length = pending.length + 0 + 1 := by rw [List.length_append, List.length_singleton]
    rw [hclosed, lastBytes, ← hlen, List.take_left]
  | succ k =>
    have hfront : (pending ++ mark :: List.replicate k 0).length = pending.length + (k + 1) := by
      rw [List.length_append, List.length_cons, List.length_replicate]
    have hmarked' : marked = (pending ++ mark :: List.replicate k 0) ++ 0 :: rest := by
      rw [hmarked, List.replicate_succ']
      simp
    have hclosed : closed = pending ++ mark :: List.replicate k 0 ++ [0x80] ++ rest := by
      change marked.set _ (marked.getD _ 0 ||| 0x80) = _
      rw [hclose, hmarked', ← hfront, getD_middle, set_middle, UInt8.zero_or, List.append_cons]
    have hlen : (pending ++ mark :: List.replicate k 0 ++ [0x80]).length = pending.length + (k + 1) + 1 := by
      rw [List.length_append, hfront, List.length_singleton]
    rw [hclosed, lastBytes, ← hlen, List.take_left, List.append_assoc]

theorem range_mul_map {α : Type} (f : ℕ → α) (n k : ℕ) :
    (List.range (k * n)).map f = (List.range k).flatMap fun i => (List.range n).map fun j => f (n * i + j) := by
  induction k with
  | zero => simp
  | succ k ih =>
    rw [Nat.succ_mul, List.range_add, List.map_append, ih, List.range_succ, List.flatMap_append, List.flatMap_singleton, List.map_map,
      Nat.mul_comm k n]
    rfl

theorem getElem?_eq_getD {xs : List Bool} {j : ℕ} (hj : j < xs.length) : xs[j]? = some (xs.getD j false) := by
  rw [List.getD_eq_getElem?_getD, List.getElem?_eq_getElem hj, Option.getD_some]

theorem bits_toBytes (word : BitVec 64) : bits (LittleEndian.toBytes 8 word.toNat) = (List.range 64).map word.getLsbD := by
  have hlt : word.toNat < 256 ^ 8 := word.isLt
  have hlen : (bits (LittleEndian.toBytes 8 word.toNat)).length = 64 := by rw [bits_length, LittleEndian.toBytes_length]
  apply List.ext_getElem?
  intro j
  rcases Nat.lt_or_ge j 64 with hj | hj
  · rw [getElem?_eq_getD (by rw [hlen]; exact hj), getD_bits, ← ByteOrder.testBit_ofBytes, LittleEndian.ofBytes_toBytes,
      Nat.mod_eq_of_lt hlt, List.getElem?_map, List.getElem?_range hj]
    rfl
  · rw [List.getElem?_eq_none (by rw [hlen]; exact hj), List.getElem?_eq_none (by rw [List.length_map, List.length_range]; exact hj)]

theorem bits_flatMap {α : Type} (xs : List α) (f : α → List UInt8) : bits (xs.flatMap f) = xs.flatMap fun x => bits (f x) :=
  List.flatMap_assoc

theorem toList_eq (A : Lanes) : A.toList = (List.range 25).map fun i => A.get (Fin.ofNat 25 i) := by
  apply List.ext_getElem?
  intro i
  rcases Nat.lt_or_ge i 25 with hi | hi
  · have hmod : Fin.ofNat 25 i = ⟨i, hi⟩ := Fin.ext (Nat.mod_eq_of_lt hi)
    have hget : A.toList[i]? = some (A.get ⟨i, hi⟩) := by
      rw [List.getElem?_eq_getElem (by rwa [Vector.length_toList])]
      rfl
    rw [hget, List.getElem?_map, List.getElem?_range hi, Option.map_some, hmod]
  · rw [List.getElem?_eq_none (by rwa [Vector.length_toList]), List.getElem?_eq_none (by rwa [List.length_map, List.length_range])]

theorem string_bitsOf (A : Lanes) : Fips202.string (bitsOf A) = bits (A.toList.flatMap fun word => LittleEndian.toBytes 8 word.toNat) := by
  rw [bits_flatMap, toList_eq, List.flatMap_map, Fips202.string, range_mul_map]
  apply List.flatMap_congr
  intro i hi
  have hi : i < 25 := List.mem_range.mp hi
  rw [bits_toBytes]
  apply List.map_congr_left
  intro j hj
  have hj : j < 64 := List.mem_range.mp hj
  have hdiv : (2 ^ 6 * i + j) / 2 ^ 6 = i := by omega
  have hlane : lane (Fin.ofNat 5 i) (Fin.ofNat 5 (i / 5)) = Fin.ofNat 25 i := by
    apply Fin.ext
    rw [lane_val, Fin.val_ofNat, Fin.val_ofNat, Fin.val_ofNat]
    omega
  have hbit : (Fin.ofNat (2 ^ 6) (2 ^ 6 * i + j) : ℕ) = j := by
    rw [Fin.val_ofNat]
    omega
  rw [bitsOf_apply, hdiv, hlane, hbit]

theorem Absorbs.final (h : Absorbs n ctx message) (hn : Rate n) {mark : UInt8} {suffix : List Bool} (hmark : Marks mark suffix) :
    bits (finalWith mark ctx) =
      Fips202.sponge (keccakF : State 6 → State 6) (8 * n) (bits message ++ suffix) (8 * (100 - n / 2)) := by
  obtain ⟨pending, hbuffered⟩ := h.buffered
  have hlower := hn.lower
  have hupper := hn.upper
  have hpos : 0 < n := by omega
  have hbuffer := hbuffered.buffer
  have hlt := hbuffered.taken.pending_lt
  have hrest : ctx.rest = pending.length := h.rest.trans hbuffered.taken.length_mod
  have hlen : (pending ++ lastBytes mark (n - pending.length)).length = n := by
    rw [List.length_append, lastBytes_length]
    omega
  have hlast := take_last mark hbuffered.pending hlt (by omega)
  have hall := hbuffered.taken.absorbAll_eq (lastBytes mark (n - pending.length))
  rw [absorbAll_block _ _ hpos hlen, ← hlast, absorbBlock, processBlock_take hn] at hall
  have hstart : bitsOf start = fun _ _ _ => false := by
    funext x y z
    have hzero : start.get (lane x y) = 0 := Vector.getElem_replicate _
    rw [bitsOf_apply, hzero]
    exact BitVec.getLsbD_zero
  have hsqueeze (A : State 6) : Fips202.squeeze keccakF (8 * n) (8 * (100 - n / 2)) A = (Fips202.string A).take (8 * (100 - n / 2)) := by
    have hzero : 8 * (100 - n / 2) / (8 * n) = 0 := Nat.div_eq_of_lt (by omega)
    rw [Fips202.squeeze, hzero]
    have hrange : List.range (0 + 1) = [0] := rfl
    rw [hrange, List.flatMap_singleton, List.take_take, Nat.min_eq_left (by omega), Function.iterate_zero, id]
  have hfinal : bits (finalWith mark ctx) =
      (Fips202.string (bitsOf (absorbAll (absorbBlock n) n start (message ++ lastBytes mark (n - pending.length))))).take
        (8 * (100 - n / 2)) := by
    rw [hall, string_bitsOf, finalWith, if_pos (not_finalized (by omega)), hbuffered.blockSize, hrest]
    exact bits_take _ _
  have hpadded := padded_eq hmark hpos message
  rw [← h.rest, hrest] at hpadded
  rw [hfinal, bitsOf_absorbAll hn, hstart, hpadded, Fips202.sponge, hsqueeze]

theorem marks_sha3 : Marks 0x06 [false, true] := ⟨by decide, by decide, by decide⟩

theorem marks_keccak : Marks 0x01 [] := ⟨by decide, by decide, by decide⟩

theorem represents_updates (hn : Rate n) (pieces : List (ℕ × List UInt8)) :
    Absorbs n (pieces.foldl (fun ctx piece => sha3Update ctx piece.1 piece.2) ⟨start, List.replicate 192 0, 0, n⟩)
      (pieces.flatMap Prod.snd) := by
  induction pieces using List.reverseRecOn with
  | nil => exact .init hn
  | append_singleton pieces piece ih =>
    rw [List.foldl_append, List.flatMap_append, List.flatMap_singleton]
    exact ih.update hn piece.1 piece.2

theorem sha3_pieces (pieces : List (ℕ × List UInt8)) :
    let absorbed (ctx : SHA3_CTX) := pieces.foldl (fun ctx piece => sha3Update ctx piece.1 piece.2) ctx
    let M := bits (pieces.flatMap Prod.snd)
    bits (sha3Final (absorbed sha3Init224)) = Fips202.sha3 224 M ∧ bits (sha3Final (absorbed sha3Init256)) = Fips202.sha3 256 M ∧
      bits (sha3Final (absorbed sha3Init384)) = Fips202.sha3 384 M ∧ bits (sha3Final (absorbed sha3Init512)) = Fips202.sha3 512 M ∧
      bits (keccakFinal (absorbed sha3Init256)) = Fips202.keccak 512 M 256 ∧
      bits (keccakFinal (absorbed sha3Init512)) = Fips202.keccak 1024 M 512 := by
  intro absorbed M
  have hsha3 {n : ℕ} (hn : Rate n) := (represents_updates hn pieces).final hn marks_sha3
  have hkeccak {n : ℕ} (hn : Rate n) := (represents_updates hn pieces).final hn marks_keccak
  have h144 : Rate 144 := ⟨by decide, by decide, by decide⟩
  have h136 : Rate 136 := ⟨by decide, by decide, by decide⟩
  have h104 : Rate 104 := ⟨by decide, by decide, by decide⟩
  have h72 : Rate 72 := ⟨by decide, by decide, by decide⟩
  have h256 := hkeccak h136
  have h512 := hkeccak h72
  rw [List.append_nil] at h256 h512
  exact ⟨hsha3 h144, hsha3 h136, hsha3 h104, hsha3 h72, h256, h512⟩

end TronlinkCore.TrezorCrypto
