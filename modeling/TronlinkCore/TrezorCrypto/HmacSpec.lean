import TronlinkCore.TrezorCrypto.Hmac
import TronlinkCore.TrezorCrypto.Sha2Spec

/-!
The functions of `hmac.c` and `pbkdf2.c` compute HMAC and PBKDF2: a state after
one pad, and a block that ends in the padding of a hash value, stand for the
hash value of a pad with that hash value.
-/

namespace TronlinkCore.TrezorCrypto

open Windows Blocks ByteOrder
open LittleEndian (xorBytes)
open Fips180 (Registers Algorithm wordOf bytesOf takeBlock blockLength padding digest)
open Rfc8018 (blockKey chain block)

namespace Implements

variable {w : ℕ} {γ : Type} {F : Family w γ} {A : Algorithm w} {bits : γ → ℕ} (h : Implements F A bits)

include h in
theorem raw_eq (data : List UInt8) : F.raw data = Fips180.hash A data :=
  h.final_eq (h.represents_update data h.represents_init)

theorem hash_length (message : List UInt8) : (Fips180.hash A message).length = 8 * (w / 8) := Fips180.digest_length _

include h in
theorem keyPad_eq (key : List UInt8) : F.keyPad key = blockKey (Fips180.hash A) (blockLength w) key := by
  have hshort : (if blockLength w < key.length then Fips180.hash A key else key).length ≤ blockLength w := by
    split
    · rw [hash_length, blockLength]
      omega
    · omega
  have hpad : F.keyPad key = overwrite (List.replicate (blockLength w) 0) 0
      (if blockLength w < key.length then Fips180.hash A key else key) := by
    rw [← h.raw_eq]
    rfl
  rw [hpad, blockKey, overwrite, List.take_zero, List.nil_append, Nat.zero_add, List.drop_replicate,
    List.length_replicate, List.take_of_length_le]
  rw [List.length_append, List.length_replicate]
  omega

include h in
theorem keyPad_length (key : List UInt8) : (F.keyPad key).length = blockLength w := by
  rw [h.keyPad_eq, Rfc8018.blockKey_length hash_length]
  rw [blockLength]
  omega

theorem hmacFinal_eq (h : Implements F A bits) (key : List UInt8) (pieces : List (List UInt8)) :
    F.hmacFinal (pieces.foldl F.hmacUpdate (F.hmacInit key)) = Rfc8018.hmac (Fips180.hash A) (blockLength w) key pieces.flatten := by
  have hrun (hctx : HmacContext w γ) : pieces.foldl F.hmacUpdate hctx = ⟨hctx.oKeyPad, pieces.foldl F.update hctx.ctx⟩ := by
    induction pieces generalizing hctx with
    | nil => rfl
    | cons piece pieces ih => rw [List.foldl_cons, ih]; rfl
  have hinner := h.final_foldl_update ((F.keyPad key).map (· ^^^ 0x36) :: pieces)
  have houter (digest : List UInt8) := h.final_foldl_update [(F.keyPad key).map (· ^^^ 0x5c), digest]
  rw [List.foldl_cons, List.flatten_cons] at hinner
  simp only [List.foldl_cons, List.foldl_nil, List.flatten_cons, List.flatten_nil, List.append_nil] at houter
  rw [hrun, Family.hmacFinal, Family.hmacInit, hinner, houter, h.keyPad_eq]
  rfl

include h in
theorem hmac_eq (key message : List UInt8) : F.hmac key message = Rfc8018.hmac (Fips180.hash A) (blockLength w) key message := by
  have hpieces := h.hmacFinal_eq key [message]
  rwa [List.flatten_singleton] at hpieces

end Implements

/-- Beyond the hash function: the pads in every byte, and the padding of a block and a hash value -/
structure ImplementsMac {w : ℕ} {γ : Type} (F : MacFamily w γ) (A : Algorithm w) (bits : γ → ℕ) : Prop
    extends Implements F.toFamily A bits where
  opad : F.opad = BitVec.ofNat w (BigEndian.ofBytes (List.replicate (w / 8) 0x5c))
  ipad : F.ipad = BitVec.ofNat w (BigEndian.ofBytes (List.replicate (w / 8) 0x36))
  blockBits : bits F.blockBits = 8 * blockLength w % 2 ^ (2 * w)
  lastBlock : padding w (blockLength w + 8 * (w / 8)) =
    [F.mark, 0, 0, 0, 0, 0, 0, BitVec.ofNat w ((blockLength w + 8 * (w / 8)) * 8)].flatMap (bytesOf w)

theorem wordOf_map_xor {w : ℕ} {bs : List UInt8} {t : ℕ} (c : UInt8) (ht : w / 8 * t + w / 8 ≤ bs.length) :
    wordOf w (bs.map (· ^^^ c)) t = wordOf w bs t ^^^ BitVec.ofNat w (BigEndian.ofBytes (List.replicate (w / 8) c)) := by
  have hlen : (window bs (w / 8 * t) (w / 8)).length = (List.replicate (w / 8) c).length := by
    rw [window_length ht, List.length_replicate]
  have hmap (cs : List UInt8) : cs.map (· ^^^ c) = xorBytes cs (List.replicate cs.length c) := by
    induction cs with
    | nil => rfl
    | cons b cs ih => rw [List.map_cons, ih]; rfl
  have hwindow : window (bs.map (· ^^^ c)) (w / 8 * t) (w / 8) =
      xorBytes (window bs (w / 8 * t) (w / 8)) (List.replicate (w / 8) c) := by
    rw [window, ← List.map_drop, ← List.map_take, hmap]
    congr 2
    exact window_length ht
  rw [wordOf, hwindow, ofBytes_xorBytes hlen, BitVec.ofNat_xor, wordOf]

theorem digest_xor {w : ℕ} (x y : Registers (BitVec w)) :
    digest (x.zipWith (· ^^^ ·) y) = xorBytes (digest x) (digest y) := by
  have hlist (xs ys : List (BitVec w)) (hlen : xs.length = ys.length) :
      (List.zipWith (· ^^^ ·) xs ys).flatMap (bytesOf w) = xorBytes (xs.flatMap (bytesOf w)) (ys.flatMap (bytesOf w)) := by
    induction xs generalizing ys with
    | nil => rfl
    | cons x xs ih =>
      cases ys with
      | nil => exact absurd hlen (Nat.succ_ne_zero _)
      | cons y ys =>
        have hword : bytesOf w (x ^^^ y) = xorBytes (bytesOf w x) (bytesOf w y) := by
          rw [bytesOf, BitVec.toNat_xor, toBytes_xor]
          rfl
        rw [List.zipWith_cons_cons, List.flatMap_cons, List.flatMap_cons, List.flatMap_cons, ih ys (Nat.succ.inj hlen),
          LittleEndian.xorBytes_append, hword]
        rw [bytesOf, bytesOf, BigEndian.toBytes_length, BigEndian.toBytes_length]
  exact hlist x.toList y.toList rfl

namespace ImplementsMac

variable {w : ℕ} {γ : Type} {F : MacFamily w γ} {A : Algorithm w} {bits : γ → ℕ} (h : ImplementsMac F A bits)

def outer (A : Algorithm w) (key : List UInt8) : List UInt8 := (blockKey (Fips180.hash A) (blockLength w) key).map (· ^^^ 0x5c)

def inner (A : Algorithm w) (key : List UInt8) : List UInt8 := (blockKey (Fips180.hash A) (blockLength w) key).map (· ^^^ 0x36)

theorem outer_length (key : List UInt8) : (outer A key).length = blockLength w := by
  rw [outer, List.length_map, Rfc8018.blockKey_length Implements.hash_length]
  rw [blockLength]
  omega

theorem inner_length (key : List UInt8) : (inner A key).length = blockLength w := by
  rw [inner, List.length_map, Rfc8018.blockKey_length Implements.hash_length]
  rw [blockLength]
  omega

theorem hmac_eq_pads (key message : List UInt8) : Rfc8018.hmac (Fips180.hash A) (blockLength w) key message =
    Fips180.hash A (outer A key ++ Fips180.hash A (inner A key ++ message)) := rfl

include h in
theorem prepare_eq (key : List UInt8) :
    F.prepare key = (takeBlock A A.initial (outer A key), takeBlock A A.initial (inner A key)) := by
  have hlen := h.keyPad_length key
  have hword {t : ℕ} (ht : t < 16) : F.REVERSE (loadWord w (F.keyPad key) t) ^^^ F.opad = wordOf w (outer A key) t := by
    rw [h.reverse_loadWord hlen ht, outer, wordOf_map_xor _ (word_fits (by rw [← h.keyPad_eq, hlen]) ht), h.opad, h.keyPad_eq]
  have hword' {t : ℕ} (ht : t < 16) : F.REVERSE (loadWord w (F.keyPad key) t) ^^^ F.opad ^^^ F.opad ^^^ F.ipad =
      wordOf w (inner A key) t := by
    have hcancel (x : BitVec w) : x ^^^ F.opad ^^^ F.opad = x := by rw [BitVec.xor_assoc, BitVec.xor_self, BitVec.xor_zero]
    rw [hcancel, h.reverse_loadWord hlen ht, inner,
      wordOf_map_xor _ (word_fits (by rw [← h.keyPad_eq, hlen]) ht), h.ipad, h.keyPad_eq]
  rw [MacFamily.prepare, h.transform_eq, h.transform_eq, h.initial]
  exact Prod.ext (A.compress_congr _ fun t ht => hword ht) (A.compress_congr _ fun t ht => hword' ht)

def tail (F : MacFamily w γ) : List (BitVec w) := [F.mark, 0, 0, 0, 0, 0, 0, BitVec.ofNat w ((blockLength w + 8 * (w / 8)) * 8)]

include h in
theorem hash_digest {pad : List UInt8} (hpad : pad.length = blockLength w) (u : Registers (BitVec w)) :
    Fips180.hash A (pad ++ digest u) = digest (A.compress (takeBlock A A.initial pad) fun t => (u.toList ++ tail F).getD t 0) := by
  have hpos : 0 < blockLength w := h.blockLength_pos
  have hwords : digest u ++ padding w (blockLength w + 8 * (w / 8)) = (u.toList ++ tail F).flatMap (bytesOf w) := by
    rw [h.lastBlock, List.flatMap_append]
    rfl
  have hlast : ((u.toList ++ tail F).flatMap (bytesOf w)).length = blockLength w := by
    rw [Fips180.bytesOf_flatMap_length, blockLength, Nat.mul_comm]
    rfl
  rw [Fips180.hash, List.length_append, hpad, Fips180.digest_length, List.append_assoc, hwords,
    absorbAll_append _ _ _ hpos hpad, absorbAll_block _ _ hpos hlast, Fips180.takeBlock_words A h.bytes _ rfl]

include h in
theorem transformG_eq (state u : Registers (BitVec w)) :
    F.transformG state (u.toList ++ tail F) =
      (A.compress state fun t => (u.toList ++ tail F).getD t 0).toList ++ tail F := by
  rw [MacFamily.transformG, h.transform_eq]
  rfl

/-- After `c + 1` iterations -/
structure Derives (F : MacFamily w γ) (A : Algorithm w) (pass salt : List UInt8) (i c : ℕ) (pctx : Pbkdf2Context w) : Prop where
  odig : pctx.odig = takeBlock A A.initial (outer A pass)
  idig : pctx.idig = takeBlock A A.initial (inner A pass)
  f : digest pctx.f = block (Rfc8018.hmac (Fips180.hash A) (blockLength w)) pass salt i c
  g : ∃ u, pctx.g = u.toList ++ tail F ∧ digest u = chain (Rfc8018.hmac (Fips180.hash A) (blockLength w)) pass salt i c

variable {pass salt : List UInt8} {i c : ℕ} {pctx : Pbkdf2Context w}

theorem ofFn_getD (u : Registers (BitVec w)) (rest : List (BitVec w)) : Registers.ofFn (fun k => (u.toList ++ rest).getD k 0) = u := rfl

include h in
theorem derives_round (hp : Derives F A pass salt i c pctx) : Derives F A pass salt i (c + 1) (F.pbkdf2Round pctx) := by
  obtain ⟨u, hg, hu⟩ := hp.g
  have hinner := h.hash_digest (inner_length (A := A) pass) u
  have houter := h.hash_digest (outer_length (A := A) pass) (A.compress (takeBlock A A.initial (inner A pass))
    fun t => (u.toList ++ tail F).getD t 0)
  rw [← hinner, ← hmac_eq_pads, hu] at houter
  have hround : F.transformG pctx.odig (F.transformG pctx.idig pctx.g) = (A.compress (takeBlock A A.initial (outer A pass))
      fun t => ((A.compress (takeBlock A A.initial (inner A pass)) fun t => (u.toList ++ tail F).getD t 0).toList ++
        tail F).getD t 0).toList ++ tail F := by
    rw [hg, hp.odig, hp.idig, h.transformG_eq, h.transformG_eq]
  refine ⟨hp.odig, hp.idig, ?_, ?_⟩
  · rw [MacFamily.pbkdf2Round, hround]
    dsimp only
    rw [ofFn_getD, digest_xor, hp.f, ← houter]
    rfl
  · rw [MacFamily.pbkdf2Round, hround]
    exact ⟨_, rfl, houter.symm⟩

theorem represents_block (h : ImplementsMac F A bits) {pad : List UInt8} (hpad : pad.length = blockLength w) (stack : ℕ → UInt8) :
    Implements.Represents F.toFamily A bits
      ⟨takeBlock A A.initial pad, F.blockBits, (List.range F.blockLength).map stack⟩ pad where
  length := by rw [List.length_map, List.length_range]
  bitcount := by rw [h.blockBits, hpad]
  buffers := by
    have hpos : 0 < blockLength w := h.blockLength_pos
    have hnil : Buffers (takeBlock A) (blockLength w) A.initial [] A.initial [] := Buffers.nil hpos
    exact ⟨[], hnil.full hpos hpad, rfl⟩

include h in
theorem getD_digest (u : Registers (BitVec w)) :
    (List.range 8).map (fun k => F.REVERSE (loadWord w (digest u) k)) = u.toList := by
  have hword {k : ℕ} (hk : k < 8) : F.REVERSE (loadWord w (digest u) k) = u.toList.getD k 0 := by
    have hfits : w / 8 * k + w / 8 ≤ (digest u).length := by
      rw [← Nat.mul_succ, Fips180.digest_length, Nat.mul_comm 8]
      exact Nat.mul_le_mul_left _ hk
    rw [loadWord, h.swaps.ofBytes (Nat.mul_div_cancel' h.bytes).symm (window_length hfits)]
    exact Fips180.wordOf_flatMap h.bytes u.toList hk
  apply List.ext_getElem
  · rfl
  · intro k hk hk'
    have hk8 : k < 8 := hk'
    rw [List.getElem_map, List.getElem_range, hword hk8, List.getD_eq_getElem?_getD, List.getElem?_eq_getElem hk']
    rfl

include h in
theorem derives_init (stack : ℕ → UInt8) (pass salt : List UInt8) (blocknr : UInt32) :
    Derives F A pass salt blocknr.toNat 0 (F.pbkdf2Init stack pass salt blocknr) := by
  have hnumber : LittleEndian.toBytes 4 (REVERSE32 blocknr.toBitVec).toNat = BigEndian.toBytes 4 blocknr.toNat :=
    swaps_REVERSE32.toBytes rfl _
  have hctx := h.represents_update (BigEndian.toBytes 4 blocknr.toNat)
    (h.represents_update salt (h.represents_block (inner_length (A := A) pass) stack))
  obtain ⟨x, hx⟩ : ∃ x, Fips180.hash A (inner A pass ++ (salt ++ BigEndian.toBytes 4 blocknr.toNat)) = digest x := ⟨_, rfl⟩
  have hfinal := h.final_eq hctx
  rw [List.append_assoc, hx] at hfinal
  have hdrop : (((List.replicate 16 0).set 8 F.mark).set 15 (BitVec.ofNat w ((F.blockLength + F.digestLength) * 8))).drop 8 =
      tail F := rfl
  have hchain := h.hash_digest (outer_length (A := A) pass) x
  rw [← hx, ← hmac_eq_pads] at hchain
  have hinit : F.pbkdf2Init stack pass salt blocknr =
      { odig := takeBlock A A.initial (outer A pass), idig := takeBlock A A.initial (inner A pass),
        f := A.compress (takeBlock A A.initial (outer A pass)) fun t => (x.toList ++ tail F).getD t 0,
        g := (A.compress (takeBlock A A.initial (outer A pass)) fun t => (x.toList ++ tail F).getD t 0).toList ++ tail F,
        first := 1 } := by
    rw [MacFamily.pbkdf2Init, h.prepare_eq, hnumber]
    dsimp only
    rw [hfinal, hdrop, h.getD_digest, h.transformG_eq]
    rfl
  rw [hinit]
  exact ⟨rfl, rfl, hchain.symm, _, rfl, hchain.symm⟩

include h in
theorem derives_rounds (k : ℕ) (hp : Derives F A pass salt i c pctx) :
    Derives F A pass salt i (c + k) ((List.range k).foldl (fun pctx _ => F.pbkdf2Round pctx) pctx) := by
  induction k with
  | zero => exact hp
  | succ k ih =>
    rw [List.range_succ, List.foldl_append, ← Nat.add_assoc]
    exact h.derives_round ih

def iterations : List ℕ → ℕ
  | [] => 0
  | n :: ns => ns.foldl (· + ·) (n - 1)

theorem derives_updates (h : ImplementsMac F A bits) (stack : ℕ → UInt8) (pass salt : List UInt8) (blocknr : UInt32) (ns : List ℕ) :
    Derives F A pass salt blocknr.toNat (iterations ns) (ns.foldl F.pbkdf2Update (F.pbkdf2Init stack pass salt blocknr)) := by
  have hupdate {c : ℕ} {pctx : Pbkdf2Context w} (n : ℕ) (hp : Derives F A pass salt blocknr.toNat c pctx) :
      Derives F A pass salt blocknr.toNat (c + (n - pctx.first)) (F.pbkdf2Update pctx n) := by
    have hrounds := h.derives_rounds (n - pctx.first) hp
    exact ⟨hrounds.odig, hrounds.idig, hrounds.f, hrounds.g⟩
  have hrest (ns : List ℕ) {c : ℕ} {pctx : Pbkdf2Context w} (hfirst : pctx.first = 0) (hp : Derives F A pass salt blocknr.toNat c pctx) :
      Derives F A pass salt blocknr.toNat (ns.foldl (· + ·) c) (ns.foldl F.pbkdf2Update pctx) := by
    induction ns generalizing c pctx with
    | nil => exact hp
    | cons n ns ih =>
      have hn := hupdate n hp
      rw [hfirst, Nat.sub_zero] at hn
      exact ih rfl hn
  have hinit := h.derives_init stack pass salt blocknr
  cases ns with
  | nil => exact hinit
  | cons n ns =>
    have hn := hupdate n hinit
    rw [Nat.zero_add] at hn
    exact hrest ns rfl hn

include h in
theorem final_eq_block (hp : Derives F A pass salt i c pctx) :
    F.pbkdf2Final pctx = block (Rfc8018.hmac (Fips180.hash A) (blockLength w)) pass salt i c := by
  rw [← hp.f, MacFamily.pbkdf2Final, Registers.toList_map, List.flatMap_map]
  apply List.flatMap_congr
  intro word _
  exact h.swaps.toBytes (Nat.mul_div_cancel' h.bytes).symm word

theorem pbkdf2_eq (h : ImplementsMac F A bits) (stack : ℕ → UInt8) (pass salt : List UInt8) (n : ℕ) (key : List UInt8) :
    F.pbkdf2 stack pass salt n key =
      Rfc8018.pbkdf2 (Rfc8018.hmac (Fips180.hash A) (blockLength w)) pass salt (8 * (w / 8)) n key.length := by
  have hD : F.digestLength = 8 * (w / 8) := rfl
  have hpos : 0 < F.digestLength := by
    have hw := h.wide
    omega
  have hlen (i : ℕ) : (block (Rfc8018.hmac (Fips180.hash A) (blockLength w)) pass salt (i + 1) (n - 1)).length = F.digestLength :=
    Rfc8018.block_length (fun _ _ => Implements.hash_length _) _ _
  have hblock (i : ℕ) : F.pbkdf2Final (F.pbkdf2Update (F.pbkdf2Init stack pass salt (UInt32.ofNat (i + 1))) n) =
      block (Rfc8018.hmac (Fips180.hash A) (blockLength w)) pass salt (i + 1) (n - 1) := by
    rw [← Rfc8018.block_mod, ← UInt32.toNat_ofNat']
    exact h.final_eq_block (h.derives_updates stack pass salt (UInt32.ofNat (i + 1)) [n])
  have hloop (count last : ℕ) (hle : key.length ≤ F.digestLength * count) (hlt : F.digestLength * count < key.length + F.digestLength)
      (hlast : ∀ i, i + 1 = count → last = key.length - F.digestLength * i) :
      (List.range count).foldl (fun key i =>
        let digest := F.pbkdf2Final (F.pbkdf2Update (F.pbkdf2Init stack pass salt (UInt32.ofNat (i + 1))) n)
        overwrite key (i * F.digestLength) (if i + 1 < count then digest else digest.take last)) key =
      Rfc8018.pbkdf2 (Rfc8018.hmac (Fips180.hash A) (blockLength w)) pass salt F.digestLength n key.length := by
    have hcount : (key.length + F.digestLength - 1) / F.digestLength = count := by
      apply Nat.div_eq_of_lt_le
      · rw [Nat.mul_comm]
        omega
      · rw [Nat.mul_comm, Nat.mul_succ]
        omega
    have hfits (i : ℕ) (hi : i < count) : F.digestLength * i + F.digestLength ≤ F.digestLength * count := by
      rw [← Nat.mul_succ]
      exact Nat.mul_le_mul_left _ hi
    have hpart (i : ℕ) (hi : i < count) (bs : List UInt8) (hbs : bs.length = F.digestLength) :
        (if i + 1 < count then bs else bs.take last) = bs.take (key.length - F.digestLength * i) := by
      have hi1 := hfits i hi
      by_cases hmore : i + 1 < count
      · have hi2 := hfits (i + 1) hmore
        rw [Nat.mul_succ] at hi2
        rw [if_pos hmore, List.take_of_length_le (by omega)]
      · rw [if_neg hmore, hlast i (by omega)]
    rw [Rfc8018.pbkdf2, hcount, ← foldl_overwrite hlen _ hle]
    · apply List.foldl_ext
      intro buffer i hi
      rw [hblock]
      dsimp only
      rw [hpart i (List.mem_range.mp hi) _ (hlen i), Nat.mul_comm]
    · intro i hi
      have hi1 := hfits i hi
      omega
  rw [MacFamily.pbkdf2, ← hD]
  have hdiv := Nat.div_add_mod key.length F.digestLength
  have hmod := Nat.mod_lt key.length hpos
  by_cases hrest : key.length % F.digestLength = 0
  · simp only [ne_eq, hrest, not_true_eq_false, if_false]
    apply hloop
    · omega
    · omega
    · intro i hi
      rw [← hi, Nat.mul_succ] at hdiv
      omega
  · simp only [ne_eq, hrest, not_false_eq_true, if_true]
    apply hloop
    · rw [Nat.mul_succ]
      omega
    · rw [Nat.mul_succ]
      omega
    · intro i hi
      rw [Nat.succ.inj hi]
      omega

end ImplementsMac

theorem implements_sha256Mac : ImplementsMac sha256MacFamily Fips180.sha256 UInt64.toNat where
  toImplements := implements_sha256
  opad := by decide
  ipad := by decide
  blockBits := rfl
  lastBlock := by decide

theorem implements_sha512Mac : ImplementsMac sha512MacFamily Fips180.sha512 bits128 where
  toImplements := implements_sha512
  opad := by decide
  ipad := by decide
  blockBits := rfl
  lastBlock := by decide

noncomputable def hmac256 : List UInt8 → List UInt8 → List UInt8 := Rfc8018.hmac (Fips180.hash Fips180.sha256) 64

noncomputable def hmac512 : List UInt8 → List UInt8 → List UInt8 := Rfc8018.hmac (Fips180.hash Fips180.sha512) 128

theorem pbkdf2HmacSha512_updates (stack : ℕ → UInt8) (pass salt : List UInt8) :
    pbkdf2HmacSha512Final ((List.range 16).foldl (fun pctx _ => pbkdf2HmacSha512Update pctx (2048 / 16))
      (pbkdf2HmacSha512Init stack pass salt 1)) = Rfc8018.pbkdf2 hmac512 pass salt 64 2048 64 := by
  have hderives := implements_sha512Mac.derives_updates stack pass salt 1 (List.replicate 16 128)
  have hfold : (List.replicate 16 128).foldl sha512MacFamily.pbkdf2Update (sha512MacFamily.pbkdf2Init stack pass salt 1) =
      (List.range 16).foldl (fun pctx _ => pbkdf2HmacSha512Update pctx (2048 / 16)) (pbkdf2HmacSha512Init stack pass salt 1) := by
    have hmap : List.replicate 16 128 = (List.range 16).map fun _ => 128 := by decide
    rw [hmap, List.foldl_map]
    rfl
  rw [hfold] at hderives
  have hblock := implements_sha512Mac.final_eq_block hderives
  have hcount : ImplementsMac.iterations (List.replicate 16 128) = 2048 - 1 := by decide
  have hlen : (Rfc8018.block hmac512 pass salt 1 (2048 - 1)).length = 64 :=
    Rfc8018.block_length (fun _ _ => Implements.hash_length _) _ _
  rw [hcount] at hblock
  rw [Rfc8018.pbkdf2, List.range_one, List.flatMap_singleton, List.take_of_length_le hlen.le]
  exact hblock

theorem hmac_pieces (key : List UInt8) (pieces : List (List UInt8)) :
    hmacSha256Final (pieces.foldl hmacSha256Update (hmacSha256Init key)) = hmac256 key pieces.flatten ∧
      hmacSha512Final (pieces.foldl hmacSha512Update (hmacSha512Init key)) = hmac512 key pieces.flatten :=
  ⟨implements_sha256.hmacFinal_eq key pieces, implements_sha512.hmacFinal_eq key pieces⟩

theorem pbkdf2_hmac_eq (stack : ℕ → UInt8) (pass salt : List UInt8) (iterations : ℕ) (key : List UInt8) :
    pbkdf2HmacSha256 stack pass salt iterations key = Rfc8018.pbkdf2 hmac256 pass salt 32 iterations key.length ∧
      pbkdf2HmacSha512 stack pass salt iterations key = Rfc8018.pbkdf2 hmac512 pass salt 64 iterations key.length :=
  ⟨implements_sha256Mac.pbkdf2_eq stack pass salt iterations key, implements_sha512Mac.pbkdf2_eq stack pass salt iterations key⟩

end TronlinkCore.TrezorCrypto
