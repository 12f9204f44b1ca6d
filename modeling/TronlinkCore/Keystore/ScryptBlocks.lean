import TronlinkCore.Keystore.Scrypt

namespace TronlinkCore.Keystore.Scrypt

open Outcome MachineInt Memory LittleEndian Salsa Function

variable {size : Allocation → ℕ} {m : Memory size}

theorem yields_blockXor {dest src : Pointer Allocation} {len : ℕ} (h8 : 8 ∣ len) (hd : dest.offset % 8 = 0)
    (hs : src.offset % 8 = 0) (hdest : Fits size dest len) (hsrc : Fits size src len) (ha : dest.Apart len src len) :
    Yields (blockXor dest src len) m fun _ t => t = m.write dest (xorBytes (m.read dest len) (m.read src len)) := by
  obtain ⟨n, rfl⟩ := h8
  have hfits {p : Pointer Allocation} (hp : Fits size p (8 * n)) {i : ℕ} (hi : i < n) : Fits size (p.longs i) 8 :=
    hp.bytes (by omega)
  have hlen {p : Pointer Allocation} (hp : Fits size p (8 * n)) {i : ℕ} (hi : i < n) :
      (m.read (p.longs i) 8).length = 8 := read_length (hfits hp hi)
  have hxor : ((List.range n).flatMap fun i => xorBytes (m.read (dest.longs i) 8) (m.read (src.longs i) 8)) =
      xorBytes (m.read dest (8 * n)) (m.read src (8 * n)) := by
    rw [← flatMap_read, ← flatMap_read]
    exact flatMap_xorBytes fun i hi => (hlen hdest hi).trans (hlen hsrc hi).symm
  rw [blockXor, Nat.mul_div_cancel_left n (by decide), ← hxor]
  apply yields_fill (w := 8) _ hdest
  · intro i t hi hkeeps
    have hreadDest : t.read (dest.longs i) 8 = m.read (dest.longs i) 8 := by
      apply hkeeps
      intro _
      exact .inr (by simp)
    have hreadSrc : t.read (src.longs i) 8 = m.read (src.longs i) 8 := by
      apply hkeeps
      intro heq
      have hab := ha heq.symm
      simp only [Pointer.longs_offset]
      omega
    apply (yields_loadUInt64 (by simpa using hd) (hfits hdest hi)).bind
    rintro d t' ⟨hdv, rfl⟩
    apply (yields_loadUInt64 (by simpa using hs) (hfits hsrc hi)).bind
    rintro s t' ⟨hsv, rfl⟩
    apply (yields_storeUInt64 (by simpa using hd) (hfits hdest hi)).mono
    rintro _ u rfl
    rw [hdv, hsv, hreadDest, hreadSrc, toBytes_uint64_xor (hlen hdest hi) (hlen hsrc hi)]
    rfl
  · intro i hi
    rw [xorBytes_length, hlen hdest hi, hlen hsrc hi, Nat.min_self]

def assigned (w : ℕ → UInt32) (s : Assignment) : ℕ → UInt32 :=
  update w s.target (w s.target ^^^ R (w s.left + w s.right) s.shift)

def quarter (a b c d : ℕ) : List Assignment := [⟨b, a, d, 7⟩, ⟨c, b, a, 9⟩, ⟨d, c, b, 13⟩, ⟨a, d, c, 18⟩]

def replaced (w : ℕ → UInt32) (a b c d : ℕ) : ℕ → UInt32 :=
  let y := quarterRound ⟨w a, w b, w c, w d⟩
  update (update (update (update w b y.b) c y.c) d y.d) a y.a

theorem quarter_assigned (w : ℕ → UInt32) {a b c d : ℕ} (h : [a, b, c, d].Nodup) :
    (quarter a b c d).foldl assigned w = replaced w a b c d := by
  have hne : (a ≠ b ∧ a ≠ c ∧ a ≠ d) ∧ (b ≠ c ∧ b ≠ d) ∧ c ≠ d := by simpa using h
  obtain ⟨⟨hab, hac, had⟩, ⟨hbc, hbd⟩, hcd⟩ := hne
  let y := quarterRound ⟨w a, w b, w c, w d⟩
  have h1 : assigned w ⟨b, a, d, 7⟩ = update w b y.b := rfl
  have h2 : assigned (update w b y.b) ⟨c, b, a, 9⟩ = update (update w b y.b) c y.c := by
    simp only [assigned, update_self, update_of_ne hab, update_of_ne hbc.symm]
    rfl
  have h3 : assigned (update (update w b y.b) c y.c) ⟨d, c, b, 13⟩ = update (update (update w b y.b) c y.c) d y.d := by
    simp only [assigned, update_self, update_of_ne hbc, update_of_ne hbd.symm, update_of_ne hcd.symm]
    rfl
  have h4 : assigned (update (update (update w b y.b) c y.c) d y.d) ⟨a, d, c, 18⟩ =
      update (update (update (update w b y.b) c y.c) d y.d) a y.a := by
    simp only [assigned, update_self, update_of_ne hab, update_of_ne hac, update_of_ne had, update_of_ne hcd]
    rfl
  simp only [quarter, List.foldl_cons, List.foldl_nil]
  rw [h1, h2, h3, h4]
  rfl

def grid (w : ℕ → UInt32) : Words := Quad.ofFn fun i => Quad.ofFn fun j => w (4 * i + j)

theorem grid_columns (w : ℕ → UInt32) : grid (columns.foldl assigned w) = columnRound (grid w) := by
  have hquarters : columns = quarter 0 4 8 12 ++ quarter 5 9 13 1 ++ quarter 10 14 2 6 ++ quarter 15 3 7 11 := rfl
  rw [hquarters, List.foldl_append, List.foldl_append, List.foldl_append, quarter_assigned _ (by decide),
    quarter_assigned _ (by decide), quarter_assigned _ (by decide), quarter_assigned _ (by decide)]
  simp [grid, Quad.ofFn, replaced, columnRound, rowRound, Quad.transpose, Quad.startingAt, Quad.rotate]

theorem grid_rows (w : ℕ → UInt32) : grid (rows.foldl assigned w) = rowRound (grid w) := by
  have hquarters : rows = quarter 0 1 2 3 ++ quarter 5 6 7 4 ++ quarter 10 11 8 9 ++ quarter 15 12 13 14 := rfl
  rw [hquarters, List.foldl_append, List.foldl_append, List.foldl_append, quarter_assigned _ (by decide),
    quarter_assigned _ (by decide), quarter_assigned _ (by decide), quarter_assigned _ (by decide)]
  simp [grid, Quad.ofFn, replaced, rowRound, Quad.startingAt, Quad.rotate]

theorem grid_doubleRound (w : ℕ → UInt32) : grid ((columns ++ rows).foldl assigned w) = doubleRound (grid w) := by
  rw [List.foldl_append, grid_rows, grid_columns]
  rfl

def wordsAt (m : Memory size) (p : Pointer Allocation) (i : ℕ) : UInt32 :=
  UInt32.ofNat (LittleEndian.ofBytes (m.read (p.words i) 4))

theorem grid_wordsAt (p : Pointer Allocation) : grid (wordsAt m p) = wordsOf (m.read p 64) := by
  have hword (i : ℕ) (hi : i < 16) :
      wordsAt m p i = UInt32.ofNat (LittleEndian.ofBytes (Windows.window (m.read p 64) (4 * i) 4)) := by
    rw [window_read (by omega)]
    rfl
  simp (disch := decide) only [grid, wordsOf, Quad.ofFn, hword]

theorem wordsAt_write {p : Pointer Allocation} {i : ℕ} (h : Fits size (p.words i) 4) (value : UInt32) :
    wordsAt (m.write (p.words i) (toBytes 4 value.toNat)) p = update (wordsAt m p) i value := by
  funext k
  by_cases hk : k = i
  · subst hk
    rw [update_self, wordsAt, read_write_of_length h (toBytes_length _ _), ofBytes_uint32]
  · rw [update_of_ne hk, wordsAt, wordsAt, read_write_of_apart (by rwa [toBytes_length])]
    intro _
    rw [toBytes_length, Pointer.words_offset, Pointer.words_offset]
    omega

def elsewhere (q : Pointer Allocation) (_ : ℕ) : Prop := q.allocation ≠ .salsaBlock

section

variable (hsize : size .salsaBlock = 64)

include hsize

theorem fits_salsaBlock {i : ℕ} (hi : i < 16) : Fits size (salsaBlock.words i) 4 := by
  simp only [Fits, salsaBlock, Pointer.words_offset, Pointer.words_allocation, hsize]
  omega

theorem yields_assign (s : Assignment) (hs : s.target < 16 ∧ s.left < 16 ∧ s.right < 16) :
    Yields (assign s) m fun _ t => wordsAt t salsaBlock = assigned (wordsAt m salsaBlock) s ∧ Keeps elsewhere m t := by
  have haligned (i : ℕ) : (salsaBlock.words i).offset % 4 = 0 := by simp [salsaBlock]
  have htarget : Fits size (salsaBlock.words s.target) 4 := fits_salsaBlock hsize hs.1
  apply (yields_loadUInt32 (haligned _) (fits_salsaBlock hsize hs.2.1)).bind
  rintro left t ⟨rfl, rfl⟩
  apply (yields_loadUInt32 (haligned _) (fits_salsaBlock hsize hs.2.2)).bind
  rintro right t ⟨rfl, rfl⟩
  apply (yields_loadUInt32 (haligned _) htarget).bind
  rintro target t ⟨rfl, rfl⟩
  apply (yields_storeUInt32 (haligned _) htarget).mono
  rintro _ u rfl
  constructor
  · rw [wordsAt_write htarget]
    rfl
  · intro q k hq
    exact read_write_of_apart (by rwa [toBytes_length]) (Pointer.apart_of_ne hq)

theorem yields_assignments (table : List Assignment)
    (h : ∀ s ∈ table, s.target < 16 ∧ s.left < 16 ∧ s.right < 16) :
    Yields (table.forM assign) m fun _ t =>
      wordsAt t salsaBlock = table.foldl assigned (wordsAt m salsaBlock) ∧ Keeps elsewhere m t := by
  induction table generalizing m with
  | nil => exact Yields.pure ⟨rfl, fun _ _ _ => rfl⟩
  | cons s table ih =>
    rw [List.forM_eq_forM, List.forM_cons]
    apply (yields_assign hsize s (h s List.mem_cons_self)).bind
    rintro _ t ⟨hwords, hkeeps⟩
    apply (ih fun s' hs' => h s' (List.mem_cons_of_mem s hs')).mono
    rintro _ u ⟨hwords', hkeeps'⟩
    constructor
    · rw [hwords', hwords, List.foldl_cons]
    · intro q k hq
      rw [hkeeps' q k hq, hkeeps q k hq]

theorem yields_salsa20_8 {block : Pointer Allocation} (ha : block.offset % 4 = 0) (hb : block.allocation ≠ .salsaBlock)
    (h : Fits size block 64) :
    Yields (salsa20_8 block) m fun _ t => t.read block 64 = Salsa.salsa20_8 (m.read block 64) ∧
      Keeps (fun q k => q.allocation ≠ .salsaBlock ∧ q.Apart k block 64) m t := by
  have hsalsa : Fits size salsaBlock 64 := by simp [Fits, salsaBlock, hsize]
  have hwords {i : ℕ} (hi : i < 16) : Fits size (block.words i) 4 := h.bytes (by omega)
  have hlen : (m.read block 64).length = 64 := read_length h
  apply (yields_copyMemory h hsalsa).bind
  rintro _ t rfl
  have hcopied : grid (wordsAt (m.write salsaBlock (m.read block 64)) salsaBlock) = wordsOf (m.read block 64) := by
    rw [grid_wordsAt, read_write_of_length hsalsa hlen]
  have hkept : Keeps elsewhere m (m.write salsaBlock (m.read block 64)) := by
    intro q k hq
    exact read_write_of_apart (by rwa [hlen]) (Pointer.apart_of_ne hq)
  generalize m.write salsaBlock (m.read block 64) = m₀ at hcopied hkept ⊢
  have hrounds : Yields ((stride (2 * 4) 2).forM fun _ => (columns ++ rows).forM assign) m₀ fun _ t =>
      grid (wordsAt t salsaBlock) = doubleRound^[4] (grid (wordsAt m₀ salsaBlock)) ∧ Keeps elsewhere m₀ t := by
    apply Yields.stride (fun k t => grid (wordsAt t salsaBlock) = doubleRound^[k] (grid (wordsAt m₀ salsaBlock)) ∧
      Keeps elsewhere m₀ t) (by decide)
    · rintro k t - ⟨hgrid, hkeeps⟩
      apply (yields_assignments hsize (columns ++ rows) (by decide)).mono
      rintro _ u ⟨hassigned, hkeeps'⟩
      constructor
      · rw [hassigned, grid_doubleRound, hgrid, Function.iterate_succ_apply']
      · intro q k hq
        rw [hkeeps' q k hq, hkeeps q k hq]
    · exact ⟨rfl, fun _ _ _ => rfl⟩
  apply hrounds.bind
  rintro _ m₁ ⟨hgrid, hkeeps⟩
  have hblock (i : ℕ) : wordsAt m₁ block i = wordsAt m block i := by
    rw [wordsAt, hkeeps (block.words i) 4 hb, hkept (block.words i) 4 hb]
    rfl
  have hsum : ((List.range 16).flatMap fun i => toBytes 4 (wordsAt m block i + wordsAt m₁ salsaBlock i).toNat) =
      Salsa.salsa20_8 (m.read block 64) := by
    rw [Salsa.salsa20_8, core, ← hcopied, ← hgrid, hcopied, ← grid_wordsAt]
    rfl
  have hfill : Yields ((List.range 16).forM fun i => do
      let word ← loadUInt32 (block.words i)
      let mixed ← loadUInt32 (salsaBlock.words i)
      storeUInt32 (block.words i) (word + mixed)) m₁ fun _ t => t = m₁.write block (Salsa.salsa20_8 (m.read block 64)) := by
    rw [← hsum]
    apply yields_fill (w := 4) _ h
    · intro i t hi hfilled
      have hword : wordsAt t block i = wordsAt m block i := by
        rw [← hblock, wordsAt, hfilled]
        · rfl
        · intro _
          exact .inr (by simp)
      have hmixed : wordsAt t salsaBlock i = wordsAt m₁ salsaBlock i := by
        rw [wordsAt, hfilled]
        · rfl
        · exact Pointer.apart_of_ne hb.symm
      apply (yields_loadUInt32 (by simpa using ha) (hwords hi)).bind
      rintro word t' ⟨rfl, rfl⟩
      apply (yields_loadUInt32 (by simp [salsaBlock]) (fits_salsaBlock hsize hi)).bind
      rintro mixed t' ⟨rfl, rfl⟩
      apply (yields_storeUInt32 (by simpa using ha) (hwords hi)).mono
      rintro _ u rfl
      rw [← hword, ← hmixed]
      rfl
    · intro i _
      exact toBytes_length _ _
  apply hfill.mono
  rintro _ u rfl
  have hout : (Salsa.salsa20_8 (m.read block 64)).length = 64 := salsa20_8_length _
  constructor
  · exact read_write_of_length h hout
  · rintro q k ⟨hq, hapart⟩
    rw [read_write_of_apart (by rwa [hout]) (by rwa [hout]), hkeeps q k hq, hkept q k hq]

theorem yields_mixed {β : Type} {src x : Pointer Allocation} {f : Program size β} {Q : β → Memory size → Prop}
    (hx : x.offset % 8 = 0) (hsrc : src.offset % 8 = 0) (hb : x.allocation ≠ .salsaBlock) (hfits : Fits size x 64)
    (hsrcFits : Fits size src 64) (ha : x.Apart 64 src 64)
    (h : ∀ t, t.read x 64 = Salsa.salsa20_8 (xorBytes (m.read x 64) (m.read src 64)) →
      Keeps (fun q k => q.allocation ≠ .salsaBlock ∧ q.Apart k x 64) m t → Yields f t Q) :
    Yields (do blockXor x src 64; salsa20_8 x; f) m Q := by
  have hlen : (xorBytes (m.read x 64) (m.read src 64)).length = 64 := by
    rw [xorBytes_length, read_length hfits, read_length hsrcFits, Nat.min_self]
  apply (yields_blockXor (by decide) hx hsrc hfits hsrcFits ha).bind
  rintro _ t rfl
  apply (yields_salsa20_8 hsize (by omega) hb hfits).bind
  rintro _ u ⟨hread, hkeeps⟩
  apply h u
  · rw [hread, read_write_of_length hfits hlen]
  · rintro q k ⟨hq, hapart⟩
    rw [hkeeps q k ⟨hq, hapart⟩]
    exact read_write_of_apart (by rwa [hlen]) (by rwa [hlen])

end

structure Buffers (size : Allocation → ℕ) (r : ℕ) (bin bout x : Pointer Allocation) : Prop where
  bin_offset : bin.offset % 8 = 0
  bout_offset : bout.offset % 8 = 0
  x_offset : x.offset % 8 = 0
  bin_allocation : bin.allocation ≠ .salsaBlock
  x_allocation : x.allocation ≠ .salsaBlock
  bout_allocation : bout.allocation ≠ .salsaBlock
  bin_fits : Fits size bin (128 * r)
  bout_fits : Fits size bout (128 * r)
  x_fits : Fits size x 64
  bin_bout : bin.Apart (128 * r) bout (128 * r)
  bin_x : bin.Apart (128 * r) x 64
  bout_x : bout.Apart (128 * r) x 64

def besides (r : ℕ) (bout x q : Pointer Allocation) (k : ℕ) : Prop :=
  q.allocation ≠ .salsaBlock ∧ q.Apart k bout (128 * r) ∧ q.Apart k x 64

/-- Between two rounds of the loop, the results of the even steps fill the first half
of `bout` and those of the odd steps the second. -/
structure Scattered (r : ℕ) (bin bout x : Pointer Allocation) (m : Memory size) (s : ℕ) (t : Memory size) : Prop where
  read_x : t.read x 64 = Rfc7914.chain r (m.read bin (128 * r)) (2 * s)
  read_even : t.read bout (64 * s) =
    (List.range s).flatMap fun i => Rfc7914.chain r (m.read bin (128 * r)) (2 * i + 1)
  read_odd : t.read (bout.bytes (64 * r)) (64 * s) =
    (List.range s).flatMap fun i => Rfc7914.chain r (m.read bin (128 * r)) (2 * i + 2)
  keeps : Keeps (besides r bout x) m t

section

variable {r : ℕ} {bin bout x : Pointer Allocation} (hbuffers : Buffers size r bin bout x)

include hbuffers

theorem read_part {t : Memory size} (h : Keeps (besides r bout x) m t) {i : ℕ} (hi : i < 2 * r) :
    t.read (bin.bytes (64 * i)) 64 = Rfc7914.subBlock (m.read bin (128 * r)) i := by
  have hle : 64 * i + 64 ≤ 128 * r := by omega
  rw [Rfc7914.subBlock, window_read hle]
  exact h _ _ ⟨hbuffers.bin_allocation, hbuffers.bin_bout.left hle, hbuffers.bin_x.left hle⟩

theorem fits_part {i : ℕ} (hi : i < 2 * r) : Fits size (bin.bytes (64 * i)) 64 := hbuffers.bin_fits.bytes (by omega)

theorem fits_half {j : ℕ} (hj : j + 64 ≤ 128 * r) : Fits size (bout.bytes j) 64 := hbuffers.bout_fits.bytes hj

variable (hsize : size .salsaBlock = 64) (hmax : 64 * r ≤ intMax)

include hsize hmax

theorem scattered_succ {s : ℕ} {t : Memory size} (hs : s < r) (h : Scattered r bin bout x m s t) :
    Yields (do
      let even ← mulInt (2 * s) 16
      blockXor x (bin.words even) 64
      salsa20_8 x
      let position ← mulInt (2 * s) 8
      copyMemory (bout.words position) x 64
      let odd ← addInt even 16
      blockXor x (bin.words odd) 64
      salsa20_8 x
      let half ← mulInt r 16
      copyMemory ((bout.words position).words half) x 64) t fun _ u => Scattered r bin bout x m (s + 1) u := by
  obtain ⟨hx, heven, hodd, hkeeps⟩ := h
  have hevenPart : bin.words (2 * s * 16) = bin.bytes (64 * (2 * s)) := Pointer.words_eq_bytes (by omega)
  have hoddPart : bin.words (2 * s * 16 + 16) = bin.bytes (64 * (2 * s + 1)) := Pointer.words_eq_bytes (by omega)
  have hfirst : bout.words (2 * s * 8) = bout.bytes (64 * s) := Pointer.words_eq_bytes (by omega)
  have hsecond : (bout.bytes (64 * s)).words (r * 16) = bout.bytes (64 * s + 64 * r) := by
    rw [Pointer.words_eq_bytes (j := 64 * r) (by omega), Pointer.bytes_bytes]
  have haligned (i : ℕ) : (bin.bytes (64 * i)).offset % 8 = 0 := by
    have hoffset := hbuffers.bin_offset
    rw [Pointer.bytes_offset]
    omega
  have hx_bin (i : ℕ) (hi : i < 2 * r) : x.Apart 64 (bin.bytes (64 * i)) 64 := (hbuffers.bin_x.left (by omega)).symm
  have hbout_x (j k : ℕ) (hj : j + k ≤ 128 * r) : (bout.bytes j).Apart k x 64 := hbuffers.bout_x.left hj
  have hxlen (u : Memory size) : (u.read x 64).length = 64 := read_length hbuffers.x_fits
  apply Yields.lift_bind (mulInt_of_le (by omega))
  rw [hevenPart]
  apply yields_mixed hsize hbuffers.x_offset (haligned _) hbuffers.x_allocation hbuffers.x_fits
    (fits_part hbuffers (by omega)) (hx_bin _ (by omega))
  intro t₁ hx₁ hkeeps₁
  apply Yields.lift_bind (mulInt_of_le (by omega))
  rw [hfirst]
  apply (yields_copyMemory hbuffers.x_fits (fits_half hbuffers (by omega))).bind
  rintro _ t₂ ht₂
  apply Yields.lift_bind (addInt_of_le (by omega))
  rw [hoddPart]
  apply yields_mixed hsize hbuffers.x_offset (haligned _) hbuffers.x_allocation hbuffers.x_fits
    (fits_part hbuffers (by omega)) (hx_bin _ (by omega))
  intro t₃ hx₃ hkeeps₃
  apply Yields.lift_bind (mulInt_of_le (by omega))
  rw [hsecond]
  apply (yields_copyMemory hbuffers.x_fits (fits_half hbuffers (by omega))).mono
  rintro _ t₄ ht₄
  have hwrite₂ (q : Pointer Allocation) (k : ℕ) (hq : q.Apart k (bout.bytes (64 * s)) 64) : t₂.read q k = t₁.read q k := by
    rw [ht₂]
    exact read_write_of_apart (by rw [hxlen]; exact fits_half hbuffers (by omega)) (by rwa [hxlen])
  have hwrite₄ (q : Pointer Allocation) (k : ℕ) (hq : q.Apart k (bout.bytes (64 * s + 64 * r)) 64) :
      t₄.read q k = t₃.read q k := by
    rw [ht₄]
    exact read_write_of_apart (by rw [hxlen]; exact fits_half hbuffers (by omega)) (by rwa [hxlen])
  have hall (q : Pointer Allocation) (k : ℕ) (hq : q.allocation ≠ .salsaBlock) (hqx : q.Apart k x 64)
      (hq₂ : q.Apart k (bout.bytes (64 * s)) 64) (hq₄ : q.Apart k (bout.bytes (64 * s + 64 * r)) 64) :
      t₄.read q k = t.read q k := by
    rw [hwrite₄ q k hq₄, hkeeps₃ q k ⟨hq, hqx⟩, hwrite₂ q k hq₂, hkeeps₁ q k ⟨hq, hqx⟩]
  have hwritten₂ : t₂.read (bout.bytes (64 * s)) 64 = t₁.read x 64 := by
    rw [ht₂]
    exact read_write_of_length (fits_half hbuffers (by omega)) (hxlen t₁)
  have hwritten₄ : t₄.read (bout.bytes (64 * s + 64 * r)) 64 = t₃.read x 64 := by
    rw [ht₄]
    exact read_write_of_length (fits_half hbuffers (by omega)) (hxlen t₃)
  have hchain₁ : t₁.read x 64 = Rfc7914.chain r (m.read bin (128 * r)) (2 * s + 1) := by
    rw [hx₁, hx, read_part hbuffers hkeeps (by omega)]
    rfl
  have hkeeps₂ : Keeps (besides r bout x) m t₂ := by
    rintro q k ⟨hq, hqout, hqx⟩
    rw [hwrite₂ q k (hqout.right (by omega)), hkeeps₁ q k ⟨hq, hqx⟩, hkeeps q k ⟨hq, hqout, hqx⟩]
  have hchain₃ : t₃.read x 64 = Rfc7914.chain r (m.read bin (128 * r)) (2 * s + 2) := by
    rw [hx₃, hwrite₂ x 64 (hbout_x _ _ (by omega)).symm, hchain₁, read_part hbuffers hkeeps₂ (by omega)]
    rfl
  constructor
  · rw [hwrite₄ x 64 (hbout_x _ _ (by omega)).symm, hchain₃]
    rfl
  · rw [Nat.mul_succ, read_add, List.range_succ, List.flatMap_append, List.flatMap_singleton, ← heven, ← hchain₁,
      ← hwritten₂, hwrite₄ (bout.bytes (64 * s)) 64 (Pointer.apart_bytes (by omega)),
      hkeeps₃ (bout.bytes (64 * s)) 64 ⟨hbuffers.bout_allocation, hbout_x _ _ (by omega)⟩]
    congr 1
    rw [← Pointer.bytes_zero bout]
    exact hall _ _ hbuffers.bout_allocation (hbout_x _ _ (by omega)) (Pointer.apart_bytes (by omega))
      (Pointer.apart_bytes (by omega))
  · rw [Nat.mul_succ, read_add, List.range_succ, List.flatMap_append, List.flatMap_singleton, ← hodd, ← hchain₃,
      ← hwritten₄, Pointer.bytes_bytes, Nat.add_comm (64 * s)]
    congr 1
    exact hall _ _ hbuffers.bout_allocation (hbout_x _ _ (by omega)) (Pointer.apart_bytes (by omega))
      (Pointer.apart_bytes (by omega))
  · rintro q k ⟨hq, hqout, hqx⟩
    rw [hall q k hq hqx (hqout.right (by omega)) (hqout.right (by omega)), hkeeps q k ⟨hq, hqout, hqx⟩]

theorem yields_blockMixSalsa8 (hr : 0 < r) :
    Yields (blockMixSalsa8 r bin bout x) m fun _ t =>
      t.read bout (128 * r) = Rfc7914.blockMix r (m.read bin (128 * r)) ∧ Keeps (besides r bout x) m t := by
  have hlast : bin.words ((2 * r - 1) * 16) = bin.bytes (64 * (2 * r - 1)) := Pointer.words_eq_bytes (by omega)
  have hfits : Fits size (bin.bytes (64 * (2 * r - 1))) 64 := fits_part hbuffers (by omega)
  apply Yields.lift_bind (mulInt_of_le (by omega))
  apply Yields.lift_bind (subInt_of_le (by omega))
  apply Yields.lift_bind (mulInt_of_le (by omega))
  rw [hlast]
  apply (yields_copyMemory hfits hbuffers.x_fits).bind
  rintro _ t ht
  have hlen : (m.read (bin.bytes (64 * (2 * r - 1))) 64).length = 64 := read_length hfits
  have hstart : Scattered r bin bout x m 0 t := by
    constructor
    · rw [ht, read_write_of_length hbuffers.x_fits hlen, read_part hbuffers (fun _ _ _ => rfl) (by omega)]
      rfl
    · exact read_zero
    · exact read_zero
    · rintro q k ⟨-, -, hqx⟩
      rw [ht]
      apply read_write_of_apart
      · rw [hlen]
        exact hbuffers.x_fits
      · rwa [hlen]
  apply (Yields.stride (Scattered r bin bout x m) (by decide) _ hstart).mono
  · rintro _ u ⟨-, heven, hodd, hkeeps⟩
    refine ⟨?_, hkeeps⟩
    rw [Rfc7914.blockMix, ← heven, ← hodd, ← read_add]
    congr 1
    omega
  · intro s u hs hu
    exact scattered_succ hbuffers hsize hmax hs hu

end

end TronlinkCore.Keystore.Scrypt
