import TronlinkCore.TrezorCrypto.Sha2
import TronlinkCore.Library.Rings
import TronlinkCore.Library.Throwing

/-!
`SecRandom.m`: the random bytes of the system are checked before they are used.
The lock makes the calls follow one another, so that a program is a list of
calls. Where a call fails, its buffer is cleared.
-/

namespace TronlinkCore.TrezorCrypto

open Throwing

def entropyHealthMinLength : ℕ := 16

def entropyHealthMaxLength : ℕ := 32

def entropyHealthHistorySize : ℕ := 3

abbrev Source := ℕ → Option (ℕ → UInt8)

abbrev EntropyHistory := Ring (List UInt8)

structure RandomState where
  calls : ℕ
  entropyHistories : List EntropyHistory

namespace RandomState

def initial : RandomState where
  calls := 0
  entropyHistories := List.replicate (entropyHealthMaxLength - entropyHealthMinLength + 1)
    ⟨List.replicate entropyHealthHistorySize (List.replicate 32 0), 0, 0⟩

end RandomState

def bufferIsUniform : List UInt8 → Bool
  | [] => false
  | b :: buf => buf.all (· = b)

def bufferIsAllZero : List UInt8 → Bool
  | [] => false
  | b :: buf => (b :: buf).all (· = 0)

abbrev KeySized (len : ℕ) : Prop := entropyHealthMinLength ≤ len ∧ len ≤ entropyHealthMaxLength

variable (source : Source)

def secRandomCopyBytes (len : ℕ) : Throwing RandomState Unit (List UInt8) := fun s =>
  match source s.calls with
  | some bytes => (.ok ((List.range len).map bytes), { s with calls := s.calls + 1 })
  | none => (.error (), { s with calls := s.calls + 1 })

def nonZeroSample (len : ℕ) : Throwing RandomState Unit (List UInt8) := do
  let buf ← secRandomCopyBytes source len
  if bufferIsAllZero buf then do
    let buf ← secRandomCopyBytes source len
    require (bufferIsAllZero buf = false) ()
    return buf
  else return buf

def remember (len : ℕ) (digest : List UInt8) : Throwing RandomState Unit Unit := do
  let s ← state
  let history := s.entropyHistories.getD (len - entropyHealthMinLength) ⟨[], 0, 0⟩
  require (digest ∉ history.cells.take history.count) ()
  update fun s => { s with entropyHistories := s.entropyHistories.set (len - entropyHealthMinLength) (history.push digest) }

def randomBufferChecked (len : ℕ) : Throwing RandomState Unit (List UInt8) :=
  if len = 0 then return []
  else do
    let buf ← nonZeroSample source len
    if KeySized len then do
      let probe ← secRandomCopyBytes source len
      require (bufferIsUniform buf = false ∧ bufferIsUniform probe = false ∧ buf ≠ probe) ()
      remember len (sha256Raw buf)
      return buf
    else return buf

def lastOf (len : ℕ) (log : List (List UInt8)) : List (List UInt8) :=
  (log.filter (·.length = len)).take entropyHealthHistorySize

structure Remembers (s : RandomState) (log : List (List UInt8)) : Prop where
  histories : s.entropyHistories.length = entropyHealthMaxLength - entropyHealthMinLength + 1
  holds : ∀ len, KeySized len → ∃ history, s.entropyHistories[len - entropyHealthMinLength]? = some history ∧
    history.Holds entropyHealthHistorySize ((lastOf len log).map sha256Raw)

theorem remembers_initial : Remembers RandomState.initial [] where
  histories := rfl
  holds := by
    intro len hlen
    refine ⟨_, List.getElem?_replicate_of_lt ?_, Ring.holds_nil (by decide) _⟩
    have hmin : entropyHealthMinLength ≤ len := hlen.1
    have hmax : len ≤ entropyHealthMaxLength := hlen.2
    omega

variable {s t : RandomState} {log : List (List UInt8)} {len : ℕ} {buf : List UInt8}

theorem Remembers.calls (h : Remembers s log) (k : ℕ) : Remembers { s with calls := k } log := ⟨h.histories, h.holds⟩

theorem lastOf_cons_of_ne (h : buf.length ≠ len) : lastOf len (buf :: log) = lastOf len log := by
  rw [lastOf, List.filter_cons_of_neg]
  · rfl
  · rwa [decide_eq_true_eq]

theorem lastOf_cons_of_eq (h : buf.length = len) :
    lastOf len (buf :: log) = (buf :: lastOf len log).take entropyHealthHistorySize := by
  rw [lastOf, List.filter_cons, if_pos (decide_eq_true h), lastOf, List.take_cons (by decide), List.take_cons (by decide),
    List.take_take, Nat.min_eq_left (Nat.sub_le _ _)]

theorem Remembers.cons_of_not_keySized (h : Remembers s log) (hbuf : ¬ KeySized buf.length) : Remembers s (buf :: log) where
  histories := h.histories
  holds := by
    intro len hlen
    rw [lastOf_cons_of_ne]
    · exact h.holds len hlen
    · rintro rfl
      exact hbuf hlen

/-- The samples, up to the one that is not all zeros -/
inductive Samples (len : ℕ) (buf : List UInt8) : ℕ → ℕ → Prop
  | first {k : ℕ} {bytes : ℕ → UInt8} (answer : source k = some bytes) (eq : (List.range len).map bytes = buf)
      (nonzero : bufferIsAllZero buf = false) : Samples len buf k (k + 1)
  | second {k : ℕ} {zeros bytes : ℕ → UInt8} (answer : source k = some zeros) (zero : bufferIsAllZero ((List.range len).map zeros) = true)
      (answer' : source (k + 1) = some bytes) (eq : (List.range len).map bytes = buf) (nonzero : bufferIsAllZero buf = false) :
      Samples len buf k (k + 2)

variable {source}

theorem secRandomCopyBytes_eq_ok : secRandomCopyBytes source len s = (.ok buf, t) ↔
    ∃ bytes, source s.calls = some bytes ∧ (List.range len).map bytes = buf ∧ t = { s with calls := s.calls + 1 } := by
  rw [secRandomCopyBytes]
  cases source s.calls with
  | none =>
    constructor
    · intro h
      cases h
    · rintro ⟨_, h, -⟩
      cases h
  | some bytes =>
    constructor
    · intro h
      cases h
      exact ⟨bytes, rfl, rfl, rfl⟩
    · rintro ⟨_, h, rfl, rfl⟩
      cases h
      rfl

theorem nonZeroSample_eq_ok : nonZeroSample source len s = (.ok buf, t) ↔
    ∃ k, Samples source len buf s.calls k ∧ t = { s with calls := k } := by
  rw [nonZeroSample, bind_eq_ok]
  constructor
  · rintro ⟨sample, u, hsample, h⟩
    obtain ⟨bytes, hanswer, rfl, rfl⟩ := secRandomCopyBytes_eq_ok.mp hsample
    by_cases hzero : bufferIsAllZero ((List.range len).map bytes) = true
    · rw [if_pos hzero] at h
      obtain ⟨sample, v, hsample, h⟩ := bind_eq_ok.mp h
      obtain ⟨bytes', hanswer', rfl, rfl⟩ := secRandomCopyBytes_eq_ok.mp hsample
      obtain ⟨hnonzero, h⟩ := require_bind_eq_ok.mp h
      cases h
      exact ⟨_, .second hanswer hzero hanswer' rfl hnonzero, rfl⟩
    · rw [if_neg hzero] at h
      cases h
      exact ⟨_, .first hanswer rfl (Bool.eq_false_iff.mpr hzero), rfl⟩
  · rintro ⟨k, hsamples, rfl⟩
    cases hsamples with
    | first hanswer heq hnonzero =>
      refine ⟨_, _, secRandomCopyBytes_eq_ok.mpr ⟨_, hanswer, heq, rfl⟩, ?_⟩
      rw [if_neg (Bool.eq_false_iff.mp hnonzero)]
      rfl
    | second hanswer hzero hanswer' heq hnonzero =>
      refine ⟨_, _, secRandomCopyBytes_eq_ok.mpr ⟨_, hanswer, rfl, rfl⟩, ?_⟩
      rw [if_pos hzero, bind_eq_ok]
      refine ⟨_, _, secRandomCopyBytes_eq_ok.mpr ⟨_, hanswer', heq, rfl⟩, ?_⟩
      rw [require_bind_eq_ok]
      exact ⟨hnonzero, rfl⟩

theorem Samples.length {k k' : ℕ} (h : Samples source len buf k k') : buf.length = len := by
  cases h with
  | first _ heq _ => rw [← heq, List.length_map, List.length_range]
  | second _ _ _ heq _ => rw [← heq, List.length_map, List.length_range]

theorem Samples.nonzero {k k' : ℕ} (h : Samples source len buf k k') : bufferIsAllZero buf = false := by
  cases h with
  | first _ _ hnonzero => exact hnonzero
  | second _ _ _ _ hnonzero => exact hnonzero

def Fresh (log : List (List UInt8)) (buf : List UInt8) : Prop :=
  ∀ old ∈ lastOf buf.length log, sha256Raw old ≠ sha256Raw buf

theorem fresh_iff : Fresh log buf ↔ sha256Raw buf ∉ (lastOf buf.length log).map sha256Raw := by
  rw [Fresh, List.mem_map, not_exists]
  constructor
  · rintro h old ⟨hold, heq⟩
    exact h old hold heq
  · intro h old hold heq
    exact h old ⟨hold, heq⟩

theorem remember_eq_ok (h : Remembers s log) (hlen : KeySized buf.length) :
    (∃ t, remember buf.length (sha256Raw buf) s = (.ok (), t)) ↔ Fresh log buf := by
  obtain ⟨history, hget, hholds⟩ := h.holds buf.length hlen
  rw [fresh_iff, ← hholds.mem_iff]
  have hrun (t : RandomState) : remember buf.length (sha256Raw buf) s = (.ok (), t) ↔
      sha256Raw buf ∉ history.cells.take history.count ∧
        { s with entropyHistories := s.entropyHistories.set (buf.length - entropyHealthMinLength) (history.push (sha256Raw buf)) } = t := by
    rw [remember, state_bind, List.getD_eq_getElem?_getD, hget, Option.getD_some, require_bind_eq_ok]
    exact and_congr_right fun _ => ⟨fun h => congrArg Prod.snd h, fun h => by rw [← h]; rfl⟩
  constructor
  · rintro ⟨t, ht⟩
    exact ((hrun t).mp ht).1
  · intro hnew
    exact ⟨_, (hrun _).mpr ⟨hnew, rfl⟩⟩

theorem Remembers.remember (h : Remembers s log) (hlen : KeySized buf.length) {u : Unit}
    (hrun : remember buf.length (sha256Raw buf) s = (.ok u, t)) : Remembers t (buf :: log) := by
  obtain ⟨history, hget, hholds⟩ := h.holds buf.length hlen
  rw [TrezorCrypto.remember, state_bind, List.getD_eq_getElem?_getD, hget, Option.getD_some, require_bind_eq_ok] at hrun
  obtain ⟨-, hrun⟩ := hrun
  cases hrun
  constructor
  · rw [List.length_set]
    exact h.histories
  · intro len' hlen'
    by_cases heq : buf.length = len'
    · obtain ⟨hlt, -⟩ := List.getElem?_eq_some_iff.mp hget
      refine ⟨history.push (sha256Raw buf), ?_, ?_⟩
      · rw [← heq]
        exact List.getElem?_set_self hlt
      · rw [lastOf_cons_of_eq heq, ← heq, List.map_take, List.map_cons]
        exact hholds.push _
    · obtain ⟨history', hget', hholds'⟩ := h.holds len' hlen'
      refine ⟨history', ?_, ?_⟩
      · rw [List.getElem?_set_ne, hget']
        have hmin : entropyHealthMinLength ≤ buf.length := hlen.1
        have hmin' : entropyHealthMinLength ≤ len' := hlen'.1
        omega
      · rwa [lastOf_cons_of_ne heq]

variable (source) in
/-- The buffers that may be handed out after those of `log`, by what the system answers from one call on -/
inductive Accepts (log : List (List UInt8)) (len : ℕ) (buf : List UInt8) (k : ℕ) : Prop
  | empty (zero : len = 0) (eq : buf = [])
  | small {k' : ℕ} (nonempty : len ≠ 0) (samples : Samples source len buf k k') (not_keySized : ¬ KeySized len)
  | keySized {k' : ℕ} {probe : ℕ → UInt8} (keySized : KeySized len) (samples : Samples source len buf k k')
      (answer : source k' = some probe) (uniform : bufferIsUniform buf = false)
      (probe_uniform : bufferIsUniform ((List.range len).map probe) = false) (ne : buf ≠ (List.range len).map probe) (fresh : Fresh log buf)

theorem Accepts.length {k : ℕ} (h : Accepts source log len buf k) : buf.length = len := by
  cases h with
  | empty hzero heq => rw [heq, hzero, List.length_nil]
  | small _ hsamples _ => exact hsamples.length
  | keySized _ hsamples _ _ _ _ _ => exact hsamples.length

theorem Accepts.not_mem {k : ℕ} (h : Accepts source log len buf k) (hlen : KeySized len) : buf ∉ lastOf len log := by
  intro hmem
  have hlength := h.length
  cases h with
  | empty hzero _ =>
    rw [hzero] at hlen
    exact absurd hlen (by decide)
  | small _ _ hnot => exact hnot hlen
  | keySized _ _ _ _ _ _ hfresh =>
    rw [← hlength] at hmem
    exact hfresh buf hmem rfl

theorem randomBufferChecked_of_keySized (hlen : KeySized len) : randomBufferChecked source len = do
    let buf ← nonZeroSample source len
    let probe ← secRandomCopyBytes source len
    require (bufferIsUniform buf = false ∧ bufferIsUniform probe = false ∧ buf ≠ probe) ()
    remember len (sha256Raw buf)
    return buf := by
  have hmin : entropyHealthMinLength ≤ len := hlen.1
  have hne : len ≠ 0 := Nat.ne_of_gt (Nat.lt_of_lt_of_le (by decide) hmin)
  rw [randomBufferChecked, if_neg hne]
  simp only [if_pos hlen]

theorem randomBufferChecked_of_not_keySized (hne : len ≠ 0) (hlen : ¬ KeySized len) :
    randomBufferChecked source len s = nonZeroSample source len s := by
  rw [randomBufferChecked, if_neg hne]
  simp only [if_neg hlen]
  rw [bind_run]
  rcases nonZeroSample source len s with ⟨_ | buf, t⟩
  · rfl
  · rfl

theorem accepts_iff (h : Remembers s log) :
    (∃ t, randomBufferChecked source len s = (.ok buf, t)) ↔ Accepts source log len buf s.calls := by
  by_cases hne : len = 0
  · rw [randomBufferChecked, if_pos hne]
    constructor
    · rintro ⟨t, ht⟩
      cases ht
      exact .empty hne rfl
    · intro haccepts
      have hnil := List.eq_nil_of_length_eq_zero (haccepts.length.trans hne)
      exact ⟨s, by rw [hnil]; rfl⟩
  by_cases hlen : KeySized len
  · rw [randomBufferChecked_of_keySized hlen]
    constructor
    · rintro ⟨t, ht⟩
      obtain ⟨buf', u, hsample, ht⟩ := bind_eq_ok.mp ht
      obtain ⟨k, hsamples, rfl⟩ := nonZeroSample_eq_ok.mp hsample
      obtain ⟨probe, v, hprobe, ht⟩ := bind_eq_ok.mp ht
      obtain ⟨bytes, hanswer, rfl, rfl⟩ := secRandomCopyBytes_eq_ok.mp hprobe
      obtain ⟨⟨huniform, hprobe, hdiffer⟩, ht⟩ := require_bind_eq_ok.mp ht
      obtain ⟨⟨⟩, v, hremember, ht⟩ := bind_eq_ok.mp ht
      cases ht
      have hbuf := hsamples.length
      rw [← hbuf] at hremember hlen
      refine .keySized (hbuf ▸ hlen) hsamples hanswer huniform hprobe hdiffer ?_
      exact (remember_eq_ok (h.calls _) hlen).mp ⟨_, hremember⟩
    · intro haccepts
      cases haccepts with
      | empty hzero _ => exact absurd hzero hne
      | small _ _ hnot => exact absurd hlen hnot
      | @keySized k probe _ hsamples hanswer huniform hprobe hdiffer hfresh =>
        have hbuf := hsamples.length
        subst hbuf
        obtain ⟨t, ht⟩ := (remember_eq_ok (h.calls (k + 1)) hlen).mpr hfresh
        refine ⟨t, ?_⟩
        rw [bind_eq_ok]
        refine ⟨_, _, nonZeroSample_eq_ok.mpr ⟨k, hsamples, rfl⟩, ?_⟩
        rw [bind_eq_ok]
        refine ⟨_, _, secRandomCopyBytes_eq_ok.mpr ⟨_, hanswer, rfl, rfl⟩, ?_⟩
        rw [require_bind_eq_ok]
        refine ⟨⟨huniform, hprobe, hdiffer⟩, ?_⟩
        rw [bind_of_ok ht]
        rfl
  · rw [randomBufferChecked_of_not_keySized hne hlen]
    constructor
    · rintro ⟨t, ht⟩
      obtain ⟨k, hsamples, -⟩ := nonZeroSample_eq_ok.mp ht
      exact .small hne hsamples hlen
    · intro haccepts
      cases haccepts with
      | empty hzero _ => exact absurd hzero hne
      | small _ hsamples _ => exact ⟨_, nonZeroSample_eq_ok.mpr ⟨_, hsamples, rfl⟩⟩
      | keySized hkey _ _ _ _ _ _ => exact absurd hkey hlen

def SameHistories (s t : RandomState) : Prop := t.entropyHistories = s.entropyHistories

instance : IsPreorder RandomState SameHistories where
  refl _ := rfl
  trans _ _ _ h h' := h'.trans h

theorem secRandomCopyBytes_keeps (len : ℕ) : Keeps SameHistories (secRandomCopyBytes source len) := by
  intro s
  rw [secRandomCopyBytes]
  cases source s.calls with
  | none => rfl
  | some bytes => rfl

theorem nonZeroSample_keeps (len : ℕ) : Keeps SameHistories (nonZeroSample source len) := by
  apply (secRandomCopyBytes_keeps len).bind
  intro buf
  split
  · apply (secRandomCopyBytes_keeps len).bind
    intro buf
    exact (keeps_require _ _).bind fun _ => keeps_pure buf
  · exact keeps_pure buf

theorem remember_atomic (len : ℕ) (digest : List UInt8) : Atomic SameHistories (remember len digest) := by
  refine Atomic.bind keeps_state fun s => ?_
  refine Atomic.bind (keeps_require _ _) fun _ => ?_
  exact (update_neverThrows _).atomic

theorem randomBufferChecked_atomic (len : ℕ) : Atomic SameHistories (randomBufferChecked source len) := by
  rw [randomBufferChecked]
  split
  · exact (keeps_pure []).atomic
  · refine Atomic.bind (nonZeroSample_keeps len) fun buf => ?_
    split
    · refine Atomic.bind (secRandomCopyBytes_keeps len) fun probe => ?_
      refine Atomic.bind (keeps_require _ _) fun _ => ?_
      exact (remember_atomic len (sha256Raw buf)).andThen fun _ => pure_neverThrows buf
    · exact (keeps_pure buf).atomic

theorem Remembers.same (h : Remembers s log) (hsame : SameHistories s t) : Remembers t log := by
  rw [SameHistories] at hsame
  exact ⟨hsame ▸ h.histories, hsame ▸ h.holds⟩

theorem Remembers.handedOut (h : Remembers s log) (hrun : randomBufferChecked source len s = (.ok buf, t)) : Remembers t (buf :: log) := by
  by_cases hne : len = 0
  · rw [randomBufferChecked, if_pos hne] at hrun
    cases hrun
    exact h.cons_of_not_keySized (by decide)
  by_cases hlen : KeySized len
  · rw [randomBufferChecked_of_keySized hlen] at hrun
    obtain ⟨buf', u, hsample, hrun⟩ := bind_eq_ok.mp hrun
    obtain ⟨k, hsamples, -⟩ := nonZeroSample_eq_ok.mp hsample
    obtain ⟨probe, v, hprobe, hrun⟩ := bind_eq_ok.mp hrun
    obtain ⟨-, hrun⟩ := require_bind_eq_ok.mp hrun
    obtain ⟨⟨⟩, w, hremember, hrun⟩ := bind_eq_ok.mp hrun
    cases hrun
    have hsame := h.same ((nonZeroSample_keeps len).of_run hsample)
    rw [← hsamples.length] at hlen hremember
    exact (hsame.same ((secRandomCopyBytes_keeps len).of_run hprobe)).remember hlen hremember
  · rw [randomBufferChecked_of_not_keySized hne hlen] at hrun
    obtain ⟨k, hsamples, rfl⟩ := nonZeroSample_eq_ok.mp hrun
    rw [← hsamples.length] at hlen
    exact (h.calls k).cons_of_not_keySized hlen

variable (source) in
def handedOut (requests : List ℕ) : RandomState × List (List UInt8) :=
  requests.foldl (fun run len =>
    match randomBufferChecked source len run.1 with
    | (.ok buf, s) => (s, buf :: run.2)
    | (.error _, s) => (s, run.2)) (RandomState.initial, [])

theorem remembers_handedOut (requests : List ℕ) : Remembers (handedOut source requests).1 (handedOut source requests).2 := by
  induction requests using List.reverseRecOn with
  | nil => exact remembers_initial
  | append_singleton requests len ih =>
    rw [handedOut, List.foldl_append, List.foldl_cons, List.foldl_nil, ← handedOut]
    rcases hrun : randomBufferChecked source len (handedOut source requests).1 with ⟨_ | buf, s⟩
    · exact ih.same (randomBufferChecked_atomic len _ _ _ hrun)
    · exact ih.handedOut hrun

theorem random_buffer_checked_iff (source : Source) (requests : List ℕ) (len : ℕ) (buf : List UInt8) :
    let run := handedOut source requests
    ((∃ s, randomBufferChecked source len run.1 = (.ok buf, s)) ↔ Accepts source run.2 len buf run.1.calls) ∧
      Remembers run.1 run.2 ∧
      ∀ s, randomBufferChecked source len run.1 = (.error (), s) → s.entropyHistories = run.1.entropyHistories := by
  intro run
  have hremembers : Remembers run.1 run.2 := remembers_handedOut requests
  exact ⟨accepts_iff hremembers, hremembers, fun s hrun => randomBufferChecked_atomic len _ _ _ hrun⟩

end TronlinkCore.TrezorCrypto
