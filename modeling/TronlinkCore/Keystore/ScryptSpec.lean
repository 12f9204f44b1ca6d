import TronlinkCore.Keystore.ScryptMixing

namespace TronlinkCore.Keystore

open Outcome MachineInt Memory Text Rfc7914

namespace ScryptParams

variable {params : ScryptParams}

theorem validate_eq_none : params.validate = none ↔ (1 < params.n ∧ 0 < params.r ∧ 0 < params.p) ∧ params.salt ≠ [] ∧
    minDesiredKeyLength ≤ params.desiredKeyLength ∧ params.desiredKeyLength ≤ maxDesiredKeyLength ∧
    params.n &&& (params.n - 1) = 0 ∧ params.n ≤ maxN ∧ params.r ≤ maxR ∧ params.p ≤ maxP ∧
    params.n ≤ maxMemoryBytes / 128 / params.r := by
  simp only [validate, ite_eq_right_iff, ite_eq_iff, reduceCtorEq, and_false, false_or, not_not, not_or, imp_false,
    Int64.not_lt, and_assoc, ne_eq]

theorem validating_eq (params : ScryptParams) : params.validating = ok params.validate := by
  rw [validating, validate]
  by_cases hpos : 1 < params.n ∧ 0 < params.r ∧ 0 < params.p
  · have hn : 1 < params.n.toInt := by simpa [Int64.lt_iff_toInt_lt] using hpos.1
    have hr : params.r ≠ 0 := by
      rintro hzero
      rw [hzero] at hpos
      exact absurd hpos.2.1 (by decide)
    have hmask : subInt64 params.n 1 = ok (params.n - 1) := by
      apply if_pos
      have hlt := params.n.toInt_lt
      rw [Int64.toInt_sub]
      change (params.n.toInt - 1).bmod (2 ^ 64) = params.n.toInt - 1
      apply Int.bmod_eq_of_le
      all_goals omega
    have hblocks : divInt64 maxMemoryBytes 128 = ok (maxMemoryBytes / 128) := by decide
    have hbound : divInt64 (maxMemoryBytes / 128) params.r = ok (maxMemoryBytes / 128 / params.r) := by
      apply if_neg
      rintro (h | ⟨h, -⟩)
      · exact hr h
      · exact absurd h (by decide)
    simp only [hmask, hblocks, hbound, ok_bind, apply_ite ok]
  · rw [if_pos hpos, if_pos hpos]

theorem eq_two_pow {n : Int64} (hpos : 1 < n) (hmask : n &&& (n - 1) = 0) : ∃ e, n.toInt.toNat = 2 ^ (e + 1) := by
  have hlt : 1 < n.toInt := by simpa [Int64.lt_iff_toInt_lt] using hpos
  have hnonneg : 0 ≤ n := by
    apply Int64.le_iff_toInt_le.mpr
    change (0 : ℤ) ≤ n.toInt
    omega
  have hnat : n.toBitVec.toNat = n.toInt.toNat := Int64.toNat_toBitVec_of_le hnonneg
  have hsub : (n.toBitVec - 1#64).toNat = n.toInt.toNat - 1 := by
    rw [BitVec.toNat_sub_of_le, hnat]
    · rfl
    · rw [BitVec.le_def, hnat]
      change 1 ≤ n.toInt.toNat
      omega
  have hzero : n.toInt.toNat &&& (n.toInt.toNat - 1) = 0 := by
    have hbits := congrArg (fun a : Int64 => a.toBitVec.toNat) hmask
    change (n.toBitVec &&& (n.toBitVec - 1#64)).toNat = 0 at hbits
    rwa [BitVec.toNat_and, hnat, hsub] at hbits
  obtain ⟨e, he⟩ := (Nat.and_sub_one_eq_zero_iff_isPowerOfTwo (by omega)).mp hzero
  cases e with
  | zero => omega
  | succ e => exact ⟨e, he⟩

theorem accepted (h : params.validate = none) :
    Scrypt.Accepted params.n.toInt.toNat params.r.toInt.toNat params.p.toInt.toNat := by
  obtain ⟨⟨hn, hr, hp⟩, -, -, -, hmask, -, hrle, hple, hbound⟩ := validate_eq_none.mp h
  have hr' : 0 < params.r.toInt := by simpa [Int64.lt_iff_toInt_lt] using hr
  have hp' : 0 < params.p.toInt := by simpa [Int64.lt_iff_toInt_lt] using hp
  have hrle' : params.r.toInt ≤ 64 := Int64.le_iff_toInt_le.mp hrle
  have hple' : params.p.toInt ≤ 16 := Int64.le_iff_toInt_le.mp hple
  have hbound' : params.n.toInt ≤ 4194304 / params.r.toInt := by
    have hle := Int64.le_iff_toInt_le.mp hbound
    rw [Int64.toInt_div_of_ne_left _ _ (by decide), Int.tdiv_eq_ediv_of_nonneg (by decide)] at hle
    exact hle
  have hproduct : params.n.toInt * params.r.toInt ≤ 4194304 := (Int.le_ediv_iff_mul_le hr').mp hbound'
  have hn' : 0 < params.n.toInt := Int.zero_lt_one.trans (by simpa [Int64.lt_iff_toInt_lt] using hn)
  constructor
  · omega
  · omega
  · omega
  · omega
  · exact eq_two_pow hn hmask
  · obtain ⟨n, hnn⟩ := Int.eq_ofNat_of_zero_le hn'.le
    obtain ⟨r, hrr⟩ := Int.eq_ofNat_of_zero_le hr'.le
    rw [hnn, hrr] at hproduct ⊢
    have hle : n * r ≤ 4194304 := by exact_mod_cast hproduct
    rw [Int.toNat_natCast, Int.toNat_natCast, Nat.mul_assoc, Nat.mul_comm r]
    omega

end ScryptParams

namespace Scrypt

variable {n r p : ℕ}

def Mixed {size : Allocation → ℕ} (n r p : ℕ) (barray : List UInt8) (count : ℕ) (t : Memory size) : Prop :=
  ∀ i, i < p → t.read (B.bytes (128 * r * i)) (128 * r) =
    if i < count then romix r n (Windows.window barray (128 * r * i) (128 * r))
    else Windows.window barray (128 * r * i) (128 * r)

theorem yields_mixing (h : Accepted n r p) {barray : List UInt8} (hlen : barray.length = 128 * r * p)
    {m : Memory (Allocation.size (128 * r * p) (256 * r + 64) (128 * r * n))} :
    Yields (mixing r n p barray) m fun out _ =>
      out = (List.range p).flatMap fun i => romix r n (Windows.window barray (128 * r * i) (128 * r)) := by
  have hr := h.r_pos
  have hrle := h.r_le
  have hple := h.p_le
  have hmax : intMax = 9223372036854775807 := rfl
  have hB : Fits (Allocation.size (128 * r * p) (256 * r + 64) (128 * r * n)) B (128 * r * p) := by
    simp [Fits, B, Allocation.size]
  have hrow (i : ℕ) (hi : i ≤ p) : i * 128 * r ≤ intMax := by
    have hle : i * 128 * r ≤ 16 * 128 * 64 := Nat.mul_le_mul (Nat.mul_le_mul_right _ (hi.trans hple)) hrle
    omega
  have hblock (i : ℕ) (hi : i < p) :
      Fits (Allocation.size (128 * r * p) (256 * r + 64) (128 * r * n)) (B.bytes (128 * r * i)) (128 * r) := by
    have hle := row_le (r := r) hi
    simp only [Fits, B, Pointer.bytes_offset, Pointer.bytes_allocation, Allocation.size]
    omega
  apply (yields_store (by rwa [hlen])).bind
  rintro _ t rfl
  have hstored : Mixed n r p barray 0 (m.write B barray) := by
    intro i hi
    have hread : (m.write B barray).read B (128 * r * p) = barray := read_write_of_length hB hlen
    rw [if_neg (Nat.not_lt_zero i), ← window_read (row_le hi), hread]
  have hloop : Yields ((List.range p).forM fun i => do
      let row ← mulInt i 128
      let offset ← mulInt row r
      smix r n (B.bytes offset) V XY) (m.write B barray) fun _ t => Mixed n r p barray p t := by
    apply Yields.range (Mixed n r p barray) _ hstored
    intro k t hk ht
    have hle := hrow k hk.le
    have hoffset : k * 128 * r = 128 * r * k := by ring
    have haligned : (B.bytes (128 * r * k)).offset % 4 = 0 := by
      rw [Nat.mul_assoc]
      simp only [B, Pointer.bytes_offset]
      omega
    apply Yields.lift_bind (mulInt_of_le (by omega))
    apply Yields.lift_bind (mulInt_of_le hle)
    rw [hoffset]
    apply (yields_smix h rfl rfl rfl rfl haligned (hblock k hk)).mono
    rintro _ u ⟨hread, hkeeps⟩ i hi
    rcases Nat.lt_trichotomy i k with hlt | rfl | hgt
    · rw [hkeeps _ _ ⟨rfl, Pointer.apart_bytes (.inl (row_le hlt))⟩, ht i hi, if_pos hlt, if_pos (by omega)]
    · rw [hread, ht i hi, if_neg (Nat.lt_irrefl i), if_pos (Nat.lt_succ_self i)]
    · rw [hkeeps _ _ ⟨rfl, Pointer.apart_bytes (.inr (row_le hgt))⟩, ht i hi, if_neg (by omega), if_neg (by omega)]
  apply hloop.bind
  intro _ t ht
  have hcount : p * 128 * r = 128 * r * p := by ring
  apply Yields.lift_bind (mulInt_of_le (by omega))
  apply Yields.lift_bind (mulInt_of_le (hrow p le_rfl))
  rw [hcount]
  apply (yields_load hB).mono
  rintro out _ ⟨rfl, -⟩
  rw [← flatMap_read]
  apply List.flatMap_congr
  intro i hi
  have hlt := List.mem_range.mp hi
  rw [ht i hlt, if_pos hlt]

theorem liftM_ok_bind {α β : Type} {o : Outcome α} {a : α} (ho : o = ok a) (f : α → Fallible β) :
    ((liftM o : Fallible α) >>= f) = f a := by
  subst ho
  rfl

theorem pure_bind {α β : Type} (a : α) (f : α → Fallible β) : ((Pure.pure a : Fallible α) >>= f) = f a := rfl

theorem natural_of_pos {a : Int64} (h : 0 < a) : natural a = ok a.toInt.toNat := by
  apply if_pos
  exact (Int64.lt_iff_toInt_lt.mp h).le

section

variable [ScryptHost] {params : ScryptParams}

theorem scrypt_eq (h : params.validate = none) (password : List UInt8) :
    scrypt params password params.salt = pure (Rfc7914.scrypt params.r.toInt.toNat params.n.toInt.toNat
      ScryptHost.derived password params.salt params.p.toInt.toNat params.desiredKeyLength.toInt.toNat) := by
  obtain ⟨⟨hn, hr, hp⟩, hsalt, hmin, hmaxLength, -⟩ := ScryptParams.validate_eq_none.mp h
  have haccepted := ScryptParams.accepted h
  have hn' : 0 < params.n := Int64.lt_trans (by decide) hn
  have hlength : 32 ≤ params.desiredKeyLength.toInt ∧ params.desiredKeyLength.toInt ≤ 1024 :=
    ⟨Int64.le_iff_toInt_le.mp hmin, Int64.le_iff_toInt_le.mp hmaxLength⟩
  rw [scrypt, liftM_ok_bind (natural_of_pos hr), liftM_ok_bind (natural_of_pos hp), liftM_ok_bind (natural_of_pos hn')]
  generalize params.n.toInt.toNat = n at haccepted ⊢
  generalize params.r.toInt.toNat = r at haccepted ⊢
  generalize params.p.toInt.toNat = p at haccepted ⊢
  have hr' := haccepted.r_pos
  have hrle := haccepted.r_le
  have hple := haccepted.p_le
  have hmemory := haccepted.memory_le
  have hmax : intMax = 9223372036854775807 := rfl
  have hb : 128 * r * p ≤ 128 * 64 * 16 := Nat.mul_le_mul (Nat.mul_le_mul_left _ hrle) hple
  have hbpos : 0 < 128 * r * p := Nat.mul_pos (by omega) haccepted.p_pos
  have hkey : p * 128 * r = 128 * r * p := by ring
  rw [liftM_ok_bind (mulInt_of_le (by omega)), liftM_ok_bind (mulInt_of_le (by omega)),
    liftM_ok_bind (mulInt_of_le (by omega)), liftM_ok_bind (addInt_of_le (by omega)),
    liftM_ok_bind (mulInt_of_le (by omega)), liftM_ok_bind (mulInt_of_le (by omega)),
    liftM_ok_bind (mulInt_of_le (by omega)), hkey, ScryptHost.pbkdf2_eq _ _ _ hsalt hbpos (by omega), pure_bind]
  have hlen : (ScryptHost.derived password params.salt (128 * r * p)).length = 128 * r * p :=
    ScryptHost.derived_length _ _ _
  have hne : ScryptHost.derived password params.salt (128 * r * p) ≠ [] := by
    intro hnil
    rw [hnil] at hlen
    exact hbpos.ne hlen
  obtain ⟨block, t, hrun, hblock⟩ := yields_mixing haccepted hlen
    (m := ScryptHost.uninitialized (Allocation.size (128 * r * p) (256 * r + 64) (128 * r * n)))
  have hblockne : block ≠ [] := by
    intro hnil
    rw [hnil] at hblock
    have hmem : romix r n (Windows.window (ScryptHost.derived password params.salt (128 * r * p)) 0 (128 * r)) = [] :=
      List.flatMap_eq_nil_iff.mp hblock.symm 0 (List.mem_range.mpr haccepted.p_pos)
    have hlength := romix_length r haccepted.n_pos
      (Windows.window (ScryptHost.derived password params.salt (128 * r * p)) 0 (128 * r))
    rw [hmem] at hlength
    exact absurd hlength (by simp; omega)
  have hdk : params.desiredKeyLength.toInt = (params.desiredKeyLength.toInt.toNat : ℤ) :=
    (Int.toNat_of_nonneg (by omega)).symm
  rw [liftM_ok_bind (check_true hne), liftM_ok_bind hrun]
  dsimp only
  rw [hdk, ScryptHost.pbkdf2_eq _ _ _ hblockne (by omega) (by omega), hblock, Int.toNat_natCast]
  rw [Rfc7914.scrypt, hkey]

theorem calculate_of_validate (h : params.validate = none) (password : Text) :
    calculate params password = scrypt params (utf8 password) params.salt := by
  rw [calculate, liftM_ok_bind (ScryptParams.validating_eq params), h]

theorem calculate_of_error {error : ValidationError} (h : params.validate = some error) (password : Text) :
    calculate params password = throw (.scrypt error) := by
  rw [calculate, liftM_ok_bind (ScryptParams.validating_eq params), h]

theorem calculate_cases (params : ScryptParams) (password : Text) :
    (∃ error, params.validate = some error ∧ calculate params password = throw (.scrypt error)) ∨
      ∃ derivedKey, params.validate = none ∧ calculate params password = pure derivedKey ∧ 32 ≤ derivedKey.length := by
  cases h : params.validate with
  | some error => exact .inl ⟨error, rfl, calculate_of_error h password⟩
  | none =>
    have hmin := (ScryptParams.validate_eq_none.mp h).2.2.1
    have hlength : 32 ≤ params.desiredKeyLength.toInt := Int64.le_iff_toInt_le.mp hmin
    refine .inr ⟨_, rfl, (calculate_of_validate h password).trans (scrypt_eq h _), ?_⟩
    rw [Rfc7914.scrypt, ScryptHost.derived_length]
    omega

theorem calculate_is_rfc7914 (h : params.validate = none) (password : Text) :
    calculate params password = pure (Rfc7914.scrypt params.r.toInt.toNat params.n.toInt.toNat ScryptHost.derived
      (utf8 password) params.salt params.p.toInt.toNat params.desiredKeyLength.toInt.toNat) := by
  rw [calculate_of_validate h, scrypt_eq h]

end

namespace KnownAnswers

def salt : ℕ := 0x0102030405060708090a0b0c0d0e0f101112131415161718191a1b1c1d1e1f20

def expanded : ℕ :=
  0xa5547ff2893ffe7d9e3453855c4ddcb4b348e722e3e9cd0bf1c38e098ff4eb6928b38843d3115af6c1ff83afaffe7507e3eebba9e613d49ffc614785b37831ae6ad6f95723157ee6bcea54fa69ac5a4813e72ea514e878ba0e27dd6239d12828ddd5b2e037067c833428707393e94c98c7a42a2a24fe836dc9629cce4fb8e56c

def mixed : ℕ :=
  0x4e9c00332841c30463c50edb38ec2a07b7daa7fde23dbc9789bc59256d2a0d6e41addf63a08b7295f96128a1d548aaaff47dabf3d331a462b53d0e1ba21e372dfffe2358c012daa01b9b91a7cd224dfac51738152f4864feaa2f373825a1fed79753e20daf61c43dd92834d2059be87ba65443087b657874d94fc492bc147ff0

def key : ℕ := 0x9f1a1ff7d3f3f0838b195e80a78070ae430047b8220eb6b40cccbe7f7e1aad9d

-- Under the password "p", by salt and length
def derivations : List ((ℕ × ℕ) × ℕ) := [((salt, 128), expanded), ((mixed, 32), key)]

end KnownAnswers

@[reducible]
def knownHost : ScryptHost where
  pbkdf2 _ salt keyLength := pure (BigEndian.toBytes keyLength.toNat
    ((KnownAnswers.derivations.lookup (BigEndian.ofBytes salt, keyLength.toNat)).getD 0))
  derived _ salt keyLength := BigEndian.toBytes keyLength
    ((KnownAnswers.derivations.lookup (BigEndian.ofBytes salt, keyLength)).getD 0)
  uninitialized size := ⟨fun a => List.replicate (size a) 0xaa, fun _ => List.length_replicate⟩
  derived_length _ _ _ := BigEndian.toBytes_length _ _
  pbkdf2_eq _ _ _ _ _ _ := by rw [Int.toNat_natCast]

def sampleParams : ScryptParams where
  salt := BigEndian.toBytes 32 KnownAnswers.salt
  desiredKeyLength := 32
  n := 2
  p := 1
  r := 1

theorem validate_sampleParams : sampleParams.validate = none := by decide

theorem scrypt_sampleParams : Rfc7914.scrypt 1 2 knownHost.derived (utf8 "p".toList) sampleParams.salt 1 32 =
    BigEndian.toBytes 32 KnownAnswers.key := by decide +kernel

theorem calculate_is_rfc7914_sample :
    let _ := knownHost
    sampleParams.validate = none ∧ calculate sampleParams "p".toList = pure (BigEndian.toBytes 32 KnownAnswers.key) := by
  intro host
  refine ⟨validate_sampleParams, ?_⟩
  rw [calculate_is_rfc7914 validate_sampleParams]
  exact congrArg pure scrypt_sampleParams

end Scrypt

end TronlinkCore.Keystore
