import TronlinkCore.Keystore.ScryptBlocks

namespace TronlinkCore.Keystore.Scrypt

open Outcome MachineInt Memory LittleEndian Rfc7914

structure Accepted (n r p : ℕ) : Prop where
  r_pos : 0 < r
  r_le : r ≤ 64
  p_pos : 0 < p
  p_le : p ≤ 16
  n_eq : ∃ e, n = 2 ^ (e + 1)
  memory_le : 128 * r * n ≤ 512 * 1024 * 1024

namespace Accepted

variable {n r p : ℕ} (h : Accepted n r p)

include h

theorem n_pos : 0 < n := by
  obtain ⟨e, rfl⟩ := h.n_eq
  exact Nat.two_pow_pos _

theorem n_le : n ≤ 4194304 := by
  have hr := Nat.mul_le_mul_right n (Nat.mul_le_mul_left 128 h.r_pos)
  have hmemory := h.memory_le
  omega

theorem masked_index {bs : List UInt8} (hbs : bs.length = 8) (cs : List UInt8) :
    (UInt64.ofNat (LittleEndian.ofBytes bs) &&& UInt64.ofNat (n - 1)).toNat = LittleEndian.ofBytes (bs ++ cs) % n := by
  have hn := h.n_le
  obtain ⟨e, rfl⟩ := h.n_eq
  have hlt : LittleEndian.ofBytes bs < 2 ^ 64 := by simpa [hbs] using ofBytes_lt bs
  have he : e + 1 ≤ 64 := by
    by_contra hlarge
    have hpow : 2 ^ 64 ≤ 2 ^ (e + 1) := Nat.pow_le_pow_right (by decide) (by omega)
    omega
  obtain ⟨c, hc⟩ : 2 ^ (e + 1) ∣ 256 ^ 8 := Nat.pow_dvd_pow 2 he
  rw [UInt64.toNat_and, UInt64.toNat_ofNat', UInt64.toNat_ofNat', Nat.mod_eq_of_lt hlt, Nat.mod_eq_of_lt (by omega),
    Nat.and_two_pow_sub_one_eq_mod, ofBytes_append, hbs, hc, Nat.mul_assoc, Nat.add_mul_mod_self_left]

end Accepted

variable {size : Allocation → ℕ} {m : Memory size} {n r p : ℕ}

theorem row_le {j : ℕ} (hj : j < n) : 128 * r * j + 128 * r ≤ 128 * r * n := by
  rw [← Nat.mul_succ]
  exact Nat.mul_le_mul_left _ hj

theorem yields_index (h : Accepted n r p) {block : Pointer Allocation} (ha : block.offset % 8 = 0)
    (hfits : Fits size block (128 * r)) :
    Yields (index r n block) m fun j t => j = Rfc7914.integerify r (m.read block (128 * r)) % n ∧ t = m := by
  have hr := h.r_pos
  have hrle := h.r_le
  have hn := h.n_pos
  have hnle := h.n_le
  have hmax : intMax = 9223372036854775807 := rfl
  have hlast : Fits size (block.bytes ((2 * r - 1) * 64)) 8 := hfits.bytes (by omega)
  let low := m.read (block.bytes ((2 * r - 1) * 64)) 8
  let high := m.read ((block.bytes ((2 * r - 1) * 64)).bytes 8) 56
  have hpart : subBlock (m.read block (128 * r)) (2 * r - 1) = low ++ high := by
    rw [subBlock, window_read (by omega), Nat.mul_comm 64]
    exact read_add 8 56
  have hinteger : Yields (integerify r block) m fun j t => j = UInt64.ofNat (LittleEndian.ofBytes low) ∧ t = m := by
    apply Yields.lift_bind (mulInt_of_le (by omega))
    apply Yields.lift_bind (subInt_of_le (by omega))
    apply Yields.lift_bind (mulInt_of_le (by omega))
    apply yields_loadUInt64 _ hlast
    rw [Pointer.bytes_offset]
    omega
  have hmasked := h.masked_index (read_length hlast : low.length = 8) high
  have hlt := Nat.mod_lt (LittleEndian.ofBytes (low ++ high)) hn
  apply hinteger.bind
  rintro j t ⟨rfl, ht⟩
  rw [ht]
  apply Yields.lift_bind (subInt_of_le (by omega))
  rw [hmasked]
  apply Yields.lift (toInt_of_le (hlt.le.trans (by omega)))
  rw [Rfc7914.integerify, hpart]
  exact ⟨rfl, rfl⟩

theorem yields_copyWords (dest src : Pointer Allocation) {count : ℕ} {body : ℕ → Program size Unit}
    (hdest : Fits size dest (4 * count)) (hsrc : Fits size src (4 * count)) (ha : dest.Apart (4 * count) src (4 * count))
    (hbody : ∀ k t, k < count → Yields (body k) t fun _ u => u = t.write (dest.bytes (4 * k)) (t.read (src.bytes (4 * k)) 4)) :
    Yields ((List.range count).forM body) m fun _ t => t = m.write dest (m.read src (4 * count)) := by
  rw [← flatMap_read]
  apply yields_fill (w := 4) _ hdest
  · intro k t hk hfilled
    have hread : t.read (src.bytes (4 * k)) 4 = m.read (src.bytes (4 * k)) 4 := by
      apply hfilled
      intro heq
      have hab := ha heq.symm
      rw [Pointer.bytes_offset]
      omega
    rw [← hread]
    exact hbody k t hk
  · intro k hk
    exact read_length (hsrc.bytes (by omega))

theorem apart_V {q : Pointer Allocation} {i k l : ℕ} (h : q.allocation ≠ .v) : q.Apart k (V.bytes i) l :=
  Pointer.apart_of_ne h

def outside (q : Pointer Allocation) (_ : ℕ) : Prop := q.allocation ≠ .xy ∧ q.allocation ≠ .salsaBlock

section

variable (h : Accepted n r p) (hsalsa : size .salsaBlock = 64) (hxy : size .xy = 256 * r + 64)
  (hv : size .v = 128 * r * n)

include hxy in
theorem buffers_forth : Buffers size r XY (XY.bytes (128 * r)) (XY.bytes (256 * r)) := by
  constructor
  · rfl
  · simp only [XY, Pointer.bytes_offset]; omega
  · simp only [XY, Pointer.bytes_offset]; omega
  · exact nofun
  · exact nofun
  · exact nofun
  · simp only [Fits, XY, hxy]; omega
  · simp only [Fits, XY, Pointer.bytes_offset, Pointer.bytes_allocation, hxy]; omega
  · simp only [Fits, XY, Pointer.bytes_offset, Pointer.bytes_allocation, hxy]; omega
  · intro _; simp only [XY, Pointer.bytes_offset]; omega
  · intro _; simp only [XY, Pointer.bytes_offset]; omega
  · intro _; simp only [XY, Pointer.bytes_offset]; omega

theorem Buffers.symm {bin bout x : Pointer Allocation} (hb : Buffers size r bin bout x) : Buffers size r bout bin x where
  bin_offset := hb.bout_offset
  bout_offset := hb.bin_offset
  x_offset := hb.x_offset
  bin_allocation := hb.bout_allocation
  x_allocation := hb.x_allocation
  bout_allocation := hb.bin_allocation
  bin_fits := hb.bout_fits
  bout_fits := hb.bin_fits
  x_fits := hb.x_fits
  bin_bout := hb.bin_bout.symm
  bin_x := hb.bout_x
  bout_x := hb.bin_x

include hv in
theorem fits_row {j : ℕ} (hj : j < n) : Fits size (V.bytes (128 * r * j)) (128 * r) := by
  have hrow := row_le (r := r) hj
  simp only [Fits, V, Pointer.bytes_offset, Pointer.bytes_allocation, hv]
  omega

theorem keeps_outside {bout x : Pointer Allocation} {t : Memory size} (hbout : bout.allocation = .xy)
    (hx : x.allocation = .xy) (hkeeps : Keeps (besides r bout x) m t) : Keeps outside m t := by
  rintro q k ⟨hq, hqs⟩
  apply hkeeps
  refine ⟨hqs, ?_, ?_⟩
  · exact Pointer.apart_of_ne (hbout.symm ▸ hq)
  · exact Pointer.apart_of_ne (hx.symm ▸ hq)

include h hsalsa hv

theorem yields_lookUp {bin bout z : Pointer Allocation} {B : List UInt8} (hb : Buffers size r bin bout z)
    (hbin : bin.allocation = .xy) (hbout : bout.allocation = .xy) (hz : z.allocation = .xy)
    (htable : ∀ j, j < n → m.read (V.bytes (128 * r * j)) (128 * r) = (Rfc7914.blockMix r)^[j] B) :
    Yields (lookUp r n V bin bout z) m fun _ t =>
      t.read bout (128 * r) = romixStep r n B (m.read bin (128 * r)) ∧ Keeps outside m t := by
  have hr := h.r_pos
  have hrle := h.r_le
  have hmemory := h.memory_le
  have hmax : intMax = 9223372036854775807 := rfl
  apply (yields_index h hb.bin_offset hb.bin_fits).bind
  rintro j t ⟨hj, ht⟩
  rw [ht]
  have hlt : j < n := by
    rw [hj]
    exact Nat.mod_lt _ h.n_pos
  have hrow := row_le (r := r) hlt
  have hoffset : 4 * (j * 32 * r) = 128 * r * j := by ring
  have hfits := fits_row hv hlt
  have hapart : bin.Apart (128 * r) (V.bytes (128 * r * j)) (128 * r) := apart_V (hbin.symm ▸ nofun)
  have hn := h.n_le
  apply Yields.lift_bind (mulInt_of_le (by omega))
  apply Yields.lift_bind (mulInt_of_le (by omega))
  apply Yields.lift_bind (mulInt_of_le (by omega))
  rw [Pointer.words_eq_bytes hoffset]
  have hVoffset : (V.bytes (128 * r * j)).offset % 8 = 0 := by
    rw [Nat.mul_assoc]
    simp only [V, Pointer.bytes_offset]
    omega
  have hlen : (xorBytes (m.read bin (128 * r)) (m.read (V.bytes (128 * r * j)) (128 * r))).length = 128 * r := by
    rw [xorBytes_length, read_length hb.bin_fits, read_length hfits, Nat.min_self]
  apply (yields_blockXor (by omega) hb.bin_offset hVoffset hb.bin_fits hfits hapart).bind
  rintro _ t' rfl
  apply (yields_blockMixSalsa8 hb hsalsa (by omega) hr).mono
  rintro _ u ⟨hread, hkeeps⟩
  constructor
  · rw [hread, read_write_of_length hb.bin_fits hlen, htable j hlt, hj]
    rfl
  · intro q k hq
    rw [keeps_outside hbout hz hkeeps q k hq]
    apply read_write_of_apart
    · rw [hlen]
      exact hb.bin_fits
    · exact Pointer.apart_of_ne (hbin.symm ▸ hq.1)

end

def inBlocks (q : Pointer Allocation) (_ : ℕ) : Prop := q.allocation = .b

theorem outside_row (j k : ℕ) : outside (V.bytes j) k := ⟨nofun, nofun⟩

theorem outside_of_inBlocks {q : Pointer Allocation} {k : ℕ} (hq : inBlocks q k) : outside q k := by
  have hqb : q.allocation = .b := hq
  rw [outside, hqb]
  exact ⟨nofun, nofun⟩

/-- The table is filled up to some row, and the next one is in a buffer. -/
structure Tabled (r : ℕ) (B : List UInt8) (m : Memory size) (bin : Pointer Allocation) (count : ℕ) (t : Memory size) :
    Prop where
  read_bin : t.read bin (128 * r) = (Rfc7914.blockMix r)^[count] B
  rows : ∀ j, j < count → t.read (V.bytes (128 * r * j)) (128 * r) = (Rfc7914.blockMix r)^[j] B
  keeps : Keeps inBlocks m t

structure LookedUp (r n : ℕ) (B : List UInt8) (m : Memory size) (bin : Pointer Allocation) (count : ℕ) (t : Memory size) :
    Prop where
  read_bin : t.read bin (128 * r) = (romixStep r n B)^[count] ((Rfc7914.blockMix r)^[n] B)
  rows : ∀ j, j < n → t.read (V.bytes (128 * r * j)) (128 * r) = (Rfc7914.blockMix r)^[j] B
  keeps : Keeps inBlocks m t

section

variable (h : Accepted n r p) (hsalsa : size .salsaBlock = 64) (hv : size .v = 128 * r * n)
  {bin bout z : Pointer Allocation} {B : List UInt8} {t : Memory size} (hb : Buffers size r bin bout z)
  (hbin : bin.allocation = .xy) (hbout : bout.allocation = .xy) (hz : z.allocation = .xy)

include h hsalsa hv hb hbin hbout hz

theorem Tabled.succ {i : ℕ} (hi : i < n) (ht : Tabled r B m bin i t) :
    Yields (tabulate r V bin bout z i) t fun _ u => Tabled r B m bout (i + 1) u := by
  have hr := h.r_pos
  have hrle := h.r_le
  have hmemory := h.memory_le
  have hrow := row_le (r := r) hi
  have hoffset : 4 * (i * (32 * r)) = 128 * r * i := by ring
  have hmax : intMax = 9223372036854775807 := rfl
  apply Yields.lift_bind (mulInt_of_le (by omega))
  apply Yields.lift_bind (mulInt_of_le (by omega))
  apply Yields.lift_bind (mulInt_of_le (by omega))
  rw [Pointer.words_eq_bytes hoffset]
  have hlen : (t.read bin (128 * r)).length = 128 * r := read_length hb.bin_fits
  apply (yields_copyMemory hb.bin_fits (fits_row hv hi)).bind
  rintro _ t' ht'
  have hother (q : Pointer Allocation) (k : ℕ) (hq : q.Apart k (V.bytes (128 * r * i)) (128 * r)) :
      t'.read q k = t.read q k := by
    rw [ht']
    apply read_write_of_apart
    · rw [hlen]
      exact fits_row hv hi
    · rwa [hlen]
  apply (yields_blockMixSalsa8 hb hsalsa (by omega) hr).mono
  rintro _ u ⟨hread, hkeeps⟩
  have houtside := keeps_outside hbout hz hkeeps
  constructor
  · have hbinV : bin.Apart (128 * r) (V.bytes (128 * r * i)) (128 * r) := apart_V (hbin.symm ▸ nofun)
    rw [hread, hother _ _ hbinV, ht.read_bin, Function.iterate_succ_apply']
  · intro j hj
    rw [houtside _ _ (outside_row _ _)]
    rcases Nat.lt_or_ge j i with hlt | hge
    · have hrow := row_le (r := r) hlt
      rw [hother _ _ (Pointer.apart_bytes (.inl hrow)), ht.rows j hlt]
    · obtain rfl : j = i := by omega
      rw [ht', read_write_of_length (fits_row hv hi) hlen, ht.read_bin]
  · intro q k hq
    have hqV : q.Apart k (V.bytes (128 * r * i)) (128 * r) := apart_V (hq.symm ▸ nofun)
    rw [houtside q k (outside_of_inBlocks hq), hother q k hqV, ht.keeps q k hq]

theorem LookedUp.succ {i : ℕ} (ht : LookedUp r n B m bin i t) :
    Yields (lookUp r n V bin bout z) t fun _ u => LookedUp r n B m bout (i + 1) u := by
  apply (yields_lookUp h hsalsa hv hb hbin hbout hz ht.rows).mono
  rintro _ u ⟨hread, hkeeps⟩
  constructor
  · rw [hread, ht.read_bin, Function.iterate_succ_apply']
  · intro j hj
    rw [hkeeps _ _ (outside_row _ _), ht.rows j hj]
  · intro q k hq
    rw [hkeeps q k (outside_of_inBlocks hq), ht.keeps q k hq]

end

section

variable (h : Accepted n r p) (hsalsa : size .salsaBlock = 64) (hxy : size .xy = 256 * r + 64)
  (hv : size .v = 128 * r * n)

include h hsalsa hxy hv

theorem yields_smix {block : Pointer Allocation} (hblock : block.allocation = .b) (hoffset : block.offset % 4 = 0)
    (hfits : Fits size block (128 * r)) :
    Yields (smix r n block V XY) m fun _ t => t.read block (128 * r) = romix r n (m.read block (128 * r)) ∧
      Keeps (fun q k => q.allocation = .b ∧ q.Apart k block (128 * r)) m t := by
  have hr := h.r_pos
  have hrle := h.r_le
  have hn := h.n_le
  have hmax : intMax = 9223372036854775807 := rfl
  have hforth := buffers_forth (r := r) hxy
  have hX := hforth.bin_fits
  have hY : XY.words (32 * r) = XY.bytes (128 * r) := Pointer.words_eq_bytes (by omega)
  have hZ : XY.words (64 * r) = XY.bytes (256 * r) := Pointer.words_eq_bytes (by omega)
  have hcount : 4 * (32 * r) = 128 * r := by omega
  have hlen (t : Memory size) : (t.read XY (128 * r)).length = 128 * r := read_length hX
  have hlenBlock : (m.read block (128 * r)).length = 128 * r := read_length hfits
  have hinBlocks (q : Pointer Allocation) (k : ℕ) (hq : q.allocation = .b) : q.Apart k XY (128 * r) :=
    Pointer.apart_of_ne (hq.symm ▸ nofun)
  have hapart : XY.Apart (128 * r) block (128 * r) := (hinBlocks block _ hblock).symm
  have hword (q : Pointer Allocation) (hq : Fits size q (128 * r)) (k : ℕ) (hk : k < 32 * r) :
      Fits size (q.bytes (4 * k)) 4 := hq.bytes (by omega)
  have haligned (k : ℕ) : (block.bytes (4 * k)).offset % 4 = 0 := by
    rw [Pointer.bytes_offset]
    omega
  have halignedX (k : ℕ) : (XY.bytes (4 * k)).offset % 4 = 0 := by
    simp [XY]
  obtain ⟨half, rfl⟩ : ∃ half, n = 2 * half := by
    obtain ⟨e, he⟩ := h.n_eq
    exact ⟨2 ^ e, by rw [he, Nat.pow_succ, Nat.mul_comm]⟩
  apply Yields.lift_bind (mulInt_of_le (by omega))
  apply Yields.lift_bind (mulInt_of_le (by omega))
  rw [hY, hZ]
  apply (yields_copyWords XY block (by rwa [hcount]) (by rwa [hcount]) (by rwa [hcount]) _).bind
  · rintro _ t rfl
    rw [hcount]
    apply (Yields.stride (fun s u => Tabled r (m.read block (128 * r)) m XY (2 * s) u) (by decide) _ _).bind
    · intro _ u hu
      apply (Yields.stride (fun s w => LookedUp r (2 * half) (m.read block (128 * r)) m XY (2 * s) w) (by decide) _
        ⟨hu.read_bin, hu.rows, hu.keeps⟩).bind
      · intro _ w hw
        apply (yields_copyWords block XY (by rwa [hcount]) (by rwa [hcount])
          (by rw [hcount]; exact hapart.symm) _).mono
        · rintro _ out rfl
          rw [hcount]
          constructor
          · rw [read_write_of_length hfits (hlen w), hw.read_bin]
            rfl
          · rintro q k ⟨hq, hqblock⟩
            rw [read_write_of_apart (by rwa [hlen]) (by rwa [hlen]), hw.keeps q k hq]
        · intro k t hk
          apply Yields.lift_bind (mulInt_of_le (by omega))
          exact yields_copyUInt32 (haligned k) (hword block hfits k hk) (halignedX k) (hword XY hX k hk)
      · intro s w _ hw
        apply (LookedUp.succ h hsalsa hv hforth rfl rfl rfl hw).bind
        intro _ w' hw'
        exact LookedUp.succ h hsalsa hv hforth.symm rfl rfl rfl hw'
    · intro s u hs hu
      apply (Tabled.succ h hsalsa hv hforth rfl rfl rfl (by omega) hu).bind
      intro _ u' hu'
      apply Yields.lift_bind (addInt_of_le (by omega))
      exact Tabled.succ h hsalsa hv hforth.symm rfl rfl rfl (by omega) hu'
    · constructor
      · exact read_write_of_length hX hlenBlock
      · exact nofun
      · intro q k hq
        apply read_write_of_apart
        · rwa [hlenBlock]
        · rw [hlenBlock]
          exact hinBlocks q k hq
  · intro k t hk
    apply Yields.lift_bind (mulInt_of_le (by omega))
    exact yields_copyUInt32 (halignedX k) (hword XY hX k hk) (haligned k) (hword block hfits k hk)

end

end TronlinkCore.Keystore.Scrypt
