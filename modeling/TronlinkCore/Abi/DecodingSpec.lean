import TronlinkCore.Abi.Decoding
import TronlinkCore.Abi.Work

/-!
The decoder returns the value of a tree that the data hold, and charges for the
work of reading it, however the tails of the tree are placed.
-/

namespace TronlinkCore.Abi

open Outcome MachineInt HeadTail ParameterType

section

variable {data : List UInt8} (hd : data.length ≤ intMax)

include hd

theorem read_eq_ok {offset count : ℕ} {bs : List UInt8} :
    read data offset count = ok bs ↔ At data offset bs ∧ bs.length = count := by
  simp only [read, bind_eq_ok, ensure_eq_ok, exists_const, subInt_eq_ok, addInt_eq_ok, check_eq_ok, ok.injEq]
  constructor
  · rintro ⟨ho, room, ⟨_, rfl⟩, hc, upper, _, _, rfl⟩
    refine ⟨at_slice (by omega), ?_⟩
    rw [List.length_take, List.length_drop]
    omega
  · rintro ⟨hat, rfl⟩
    have hle := hat.le
    exact ⟨by omega, _, ⟨by omega, rfl⟩, by omega, _, ⟨by omega, rfl⟩, by omega, hat.slice⟩

theorem boundedWord_eq_ok {offset maximum n : ℕ} (hm : maximum ≤ intMax) :
    boundedWord data offset maximum = ok n ↔ At data offset (wordOf n) ∧ n ≤ maximum := by
  have hw : FitsWord intMax := by decide
  simp only [boundedWord, bind_eq_ok, read_eq_ok hd, ensure_eq_ok, exists_const, toInt_eq_ok]
  constructor
  · rintro ⟨word, ⟨hat, hlen⟩, hle, _, rfl⟩
    rw [wordOf_ofBytes hlen]
    exact ⟨hat, hle⟩
  · rintro ⟨hat, hle⟩
    have hn : FitsWord n := Nat.lt_of_le_of_lt (Nat.le_trans hle hm) hw
    refine ⟨wordOf n, ⟨hat, wordOf_length n⟩, ?_, ?_, ofBytes_wordOf hn⟩
    · rw [ofBytes_wordOf hn]
      exact hle
    · rw [ofBytes_wordOf hn]
      omega

theorem boundedWord_of_lt {offset maximum n : ℕ} (hat : At data offset (wordOf n)) (hn : FitsWord n)
    (h : maximum < n) : boundedWord data offset maximum = fail := by
  have hle : ¬ BigEndian.ofBytes (wordOf n) ≤ maximum := by
    rw [ofBytes_wordOf hn]
    omega
  rw [boundedWord, (read_eq_ok hd).mpr ⟨hat, wordOf_length n⟩, ok_bind, ensure, if_neg hle]
  rfl

end

abbrev decodingWork : ParameterType → WordTree → Budget := work (fun _ => 1) 1

abbrev decodingWorks : List ParameterType → List WordTree → Budget := works (fun _ => 1) 1

theorem tupleHeads_spend {dataCount base depth : ℕ} {ts : List ParameterType} (ha : ∀ t ∈ ts, Admitted depth t)
    {size : ℕ} (hd : dataCount ≤ intMax) (hs : base + size + headSizes (skeletons ts) ≤ dataCount) (b : Budget) :
    tupleHeads dataCount base depth ts size b =
      spend (Budget.ofType (typeSizes ts)) (size + headSizes (skeletons ts)) b := by
  induction ts generalizing size b with
  | nil => exact (spend_zero _ b).symm
  | cons t ts ih =>
    simp only [skeletons, headSizes] at hs
    have hsplit : Budget.ofType (typeSizes (t :: ts)) =
        Budget.ofType t.typeSize + Budget.ofType (typeSizes ts) := by
      simp [Budget.ext_iff, typeSizes]
    rw [tupleHeads, Budget.layout_spend (ha t (by simp)), hsplit]
    apply spend_bind
    intro _
    dsimp only
    rw [subInt_of_le (by omega), ok_bind, subInt_of_le (by omega), ok_bind, shape_headSize, ensure_true (by omega),
      ok_bind, toInt_of_le (by omega), ok_bind, addInt_of_le (by omega), ok_bind,
      ih (fun s h => ha s (List.mem_cons_of_mem _ h)) (by omega)]
    simp only [skeletons, headSizes, Nat.add_assoc]

theorem decodePayload_spend {data : List UInt8} {t : ParameterType} (hd : data.length ≤ intMax) {start : ℕ} {bs : List UInt8}
    {c : AnyObject} (hat : At data start (wordOf bs.length ++ padded bs)) (hv : payloadValue t bs = some c)
    (b : Budget) : decodePayload data t start b = spend ⟨0, 0, bs.length⟩ c b := by
  have hle := hat.le
  obtain ⟨hword, hpadded⟩ := at_append.mp hat
  obtain ⟨hbytes, hpad⟩ := at_append.mp hpadded
  rw [wordOf_length] at hpadded hbytes hpad
  rw [List.length_append, wordOf_length, padded_length] at hle
  have hlen : boundedWord data start (data.length - start - 32) = ok bs.length :=
    (boundedWord_eq_ok hd (by omega)).mpr ⟨hword, by omega⟩
  have hzero : zeroPadding data start bs.length ((32 - bs.length % 32) % 32) = ok () := by
    unfold zeroPadding
    by_cases hp : 0 < (32 - bs.length % 32) % 32
    · have hread : read data (start + 32 + bs.length) ((32 - bs.length % 32) % 32) =
          ok (List.replicate (padding bs.length) 0) :=
        (read_eq_ok hd).mpr ⟨hpad, List.length_replicate⟩
      rw [if_pos hp, addInt_of_le (by omega), ok_bind, addInt_of_le (by omega), ok_bind, hread, ok_bind]
      simp
    · rw [if_neg hp]
  rw [decodePayload, ensure_true (by omega), ok_bind, subInt_of_le (by omega), ok_bind, ensure_true (by omega),
    ok_bind, subInt_of_le (by omega), ok_bind, hlen, ok_bind]
  dsimp only
  rw [subInt_of_le (by omega), ok_bind, ensure_true (by unfold padding at hle; omega), ok_bind]
  apply afford_spend
  · intro hc
    exact (Budget.le_iff.mp hc).2.2
  · intro hp
    rw [hzero, ok_bind, subInt_of_le hp, ok_bind, addInt_of_le (by omega), ok_bind,
      (read_eq_ok hd).mpr ⟨hbytes, rfl⟩, ok_bind, hv, ofOption_some, ok_bind,
      spend_of_le _ (Budget.le_iff.mpr ⟨Nat.zero_le _, Nat.zero_le _, hp⟩)]
    simp [Budget.ext_iff]

theorem tupleHeads_eq_ok {dataCount base depth size total : ℕ} {ts : List ParameterType} {b b' : Budget}
    (hs : base + size ≤ dataCount) (h : tupleHeads dataCount base depth ts size b = ok (total, b')) :
    b'.nodes = b.nodes ∧ (∀ t ∈ ts, Admitted depth t) ∧ total = size + headSizes (skeletons ts) ∧
      base + total ≤ dataCount := by
  induction ts generalizing size b with
  | nil =>
    simp only [tupleHeads, ok.injEq, Prod.mk.injEq] at h
    obtain ⟨rfl, rfl⟩ := h
    exact ⟨rfl, by simp, by simp [skeletons, headSizes], hs⟩
  | cons t ts ih =>
    simp only [tupleHeads, bind_eq_ok, Prod.exists, ensure_eq_ok, exists_const, subInt_eq_ok, toInt_eq_ok,
      addInt_eq_ok] at h
    obtain ⟨l, b1, hl, _, ⟨_, rfl⟩, _, ⟨_, rfl⟩, hroom, _, ⟨_, rfl⟩, _, ⟨_, rfl⟩, h⟩ := h
    obtain ⟨ha, rfl, hn1, _⟩ := Budget.layout_eq_ok hl
    rw [shape_headSize] at hroom h
    obtain ⟨hn, hall, rfl, hle⟩ := ih (by omega) h
    refine ⟨by omega, ?_, ?_, hle⟩
    · simp only [List.forall_mem_cons]
      exact ⟨ha, hall⟩
    · rw [skeletons, headSizes, Nat.add_assoc]

theorem decodePayload_eq_ok {data : List UInt8} {t : ParameterType} (hd : data.length ≤ intMax) {start : ℕ}
    {c : AnyObject} {b b' : Budget} (h : decodePayload data t start b = ok (c, b')) :
    b'.nodes ≤ b.nodes ∧
      ∃ bs, At data start (wordOf bs.length ++ padded bs) ∧ payloadValue t bs = some c := by
  simp only [decodePayload, bind_eq_ok, ensure_eq_ok, afford_eq_ok, exists_const, subInt_eq_ok, addInt_eq_ok,
    ofOption_eq_ok, read_eq_ok hd, ok.injEq, Prod.mk.injEq] at h
  obtain ⟨_, _, ⟨_, rfl⟩, _, _, ⟨_, rfl⟩, len, hlen, _, ⟨_, rfl⟩, hpad, _, _, hzero, _, _, _, ⟨_, rfl⟩, bs,
    ⟨hbytes, rfl⟩, value, hv, rfl, rfl⟩ := h
  obtain ⟨hword, _⟩ := (boundedWord_eq_ok hd (by omega)).mp hlen
  refine ⟨Nat.le_refl _, bs, at_append.mpr ⟨hword, ?_⟩, hv⟩
  rw [wordOf_length]
  apply at_append.mpr
  refine ⟨hbytes, ?_⟩
  unfold zeroPadding at hzero
  by_cases hp : 0 < (32 - bs.length % 32) % 32
  · rw [if_pos hp] at hzero
    simp only [bind_eq_ok, addInt_eq_ok, read_eq_ok hd, ensure_eq_ok] at hzero
    obtain ⟨_, ⟨_, rfl⟩, _, ⟨_, rfl⟩, pad, ⟨hat, hplen⟩, hall⟩ := hzero
    have hpadding := all_zero_iff.mp hall
    rw [hplen] at hpadding
    rw [hpadding] at hat
    exact hat
  · have hz : padding bs.length = 0 := by
      unfold padding
      omega
    rw [hz]
    apply at_nil
    have := hbytes.le
    omega

section

variable [Graphemes] {data : List UInt8}

def ReadsTree (data : List UInt8) (decodeValue : ValueDecoder) (depth : ℕ) (t : ParameterType) : Prop :=
  ∀ base head floor x c b, b.nodes ≤ intMax → base ≤ head → head + headSize t.skeleton ≤ data.length →
    Holds data t.skeleton base head floor x → valueOf t x = some c →
    decodeValue t base head floor depth b = spend (decodingWork t x) c b

variable {decodeValue : ValueDecoder} {depth : ℕ}

theorem decodeMembers_spend {ts : List ParameterType} (hdec : ∀ t ∈ ts, ReadsTree data decodeValue depth t)
    (ha : ∀ t ∈ ts, Admitted depth t) (hd : data.length ≤ intMax) {base floor head : ℕ} {xs : List WordTree}
    {cs : List AnyObject} {b : Budget} (hb : b.nodes ≤ intMax) (hbase : base ≤ head)
    (hle : head + headSizes (skeletons ts) ≤ data.length)
    (hm : Members data (skeletons ts) base floor head xs) (hv : valuesOf ts xs = some cs) :
    decodeMembers decodeValue base floor depth ts head b = spend (decodingWorks ts xs) cs b := by
  induction ts generalizing head xs cs b with
  | nil =>
    cases xs with
    | nil =>
      obtain rfl : [] = cs := by simpa [valuesOf] using hv
      exact (spend_zero _ b).symm
    | cons x xs => simp [valuesOf] at hv
  | cons t ts ih =>
    obtain ⟨x, xs', c, cs', rfl, rfl, hc, hcs⟩ := valuesOf_cons_eq_some.mp hv
    obtain ⟨hslot, hms⟩ : Holds data t.skeleton base head floor x ∧
      Members data (skeletons ts) base floor (head + headSize t.skeleton) xs' := hm
    simp only [skeletons, headSizes] at hle
    have hcost : decodingWorks (t :: ts) (x :: xs') =
        Budget.ofType t.typeSize + (decodingWork t x + (decodingWorks ts xs' + 0)) := by
      simp [decodingWorks, works, Budget.ext_iff, Nat.add_assoc]
    rw [decodeMembers, Budget.layout_spend (ha t (by simp)), hcost]
    apply spend_bind
    intro _
    have hb1 : (b - Budget.ofType t.typeSize).nodes ≤ intMax := Nat.le_trans (Nat.sub_le _ _) hb
    dsimp only
    rw [hdec t (by simp) base head floor x c _ hb1 hbase (by omega) hslot hc]
    apply spend_bind
    intro _
    dsimp only
    rw [shape_headSize, toInt_of_le (by omega), ok_bind, addInt_of_le (by omega), ok_bind,
      ih (fun s h => hdec s (List.mem_cons_of_mem _ h)) (fun s h => ha s (List.mem_cons_of_mem _ h))
        (Nat.le_trans (Nat.sub_le _ _) hb1) (by omega) (by omega) hms hcs]
    apply spend_bind
    intro _
    exact (spend_zero _ _).symm

theorem decodeTuple_spend {ts : List ParameterType} (hdec : ∀ t ∈ ts, ReadsTree data decodeValue depth t)
    (ha : ∀ t ∈ ts, Admitted depth t) (hd : data.length ≤ intMax) (hdepth : depth ≤ maxDepth) {base : ℕ}
    {xs : List WordTree} {cs : List AnyObject} {b : Budget} (hb : b.nodes ≤ intMax)
    (hle : base + headSizes (skeletons ts) ≤ data.length)
    (hm : Members data (skeletons ts) base (headSizes (skeletons ts)) base xs) (hv : valuesOf ts xs = some cs) :
    decodeTuple decodeValue data ts base depth b =
      spend (Budget.ofType (typeSizes ts) + decodingWorks ts xs) cs b := by
  have hlen : ts.length = xs.length := by
    have := hm.length_eq
    rwa [skeletons_eq_map, List.length_map] at this
  rw [decodeTuple, ensure_true ⟨hdepth, by omega⟩, ok_bind]
  apply afford_spend
  · intro hc
    have hn := (Budget.le_iff.mp hc).1
    have hw : ts.length ≤ (decodingWorks ts xs).nodes := length_le_works hlen
    simp only [Budget.add_nodes, Budget.ofType_nodes] at hn
    omega
  · intro _
    rw [tupleHeads_spend ha hd (by omega)]
    apply spend_bind
    intro _
    rw [Nat.zero_add]
    exact decodeMembers_spend hdec ha hd (Nat.le_trans (Nat.sub_le _ _) hb) (Nat.le_refl _) hle hm hv

theorem decodeElements_spend {t : ParameterType} (hdec : ReadsTree data decodeValue depth t)
    (hd : data.length ≤ intMax) {base floor head : ℕ} {xs : List WordTree} {cs : List AnyObject} {b : Budget}
    (hb : b.nodes ≤ intMax) (hbase : base ≤ head) (hle : head + xs.length * headSize t.skeleton ≤ data.length)
    (hs : InSlots (fun head x => Holds data t.skeleton base head floor x) (headSize t.skeleton) head xs)
    (hv : xs.mapM (valueOf t) = some cs) :
    decodeElements decodeValue t (headSize t.skeleton) base floor depth xs.length head b =
      spend (xs.map (decodingWork t)).sum cs b := by
  induction xs generalizing head cs b with
  | nil =>
    obtain rfl : [] = cs := by simpa using hv
    exact (spend_zero _ b).symm
  | cons x xs ih =>
    simp only [List.mapM_cons, Option.bind_eq_bind, Option.bind_eq_some_iff, Option.pure_def, Option.some.injEq] at hv
    obtain ⟨c, hc, cs', hcs, rfl⟩ := hv
    obtain ⟨hx, hxs⟩ := hs
    rw [List.length_cons, Nat.succ_mul] at hle
    rw [List.length_cons, decodeElements, hdec base head floor x c b hb hbase (by omega) hx hc, List.map_cons,
      List.sum_cons, show (xs.map (decodingWork t)).sum = (xs.map (decodingWork t)).sum + 0 by simp [Budget.ext_iff]]
    apply spend_bind
    intro _
    dsimp only
    rw [toInt_of_le (by omega), ok_bind, addInt_of_le (by omega), ok_bind,
      ih (Nat.le_trans (Nat.sub_le _ _) hb) (by omega) (by omega) hxs hcs]
    apply spend_bind
    intro _
    exact (spend_zero _ _).symm

theorem decodeArray_spend {t : ParameterType} (hdec : ReadsTree data decodeValue depth t) (ha : Admitted depth t)
    (hd : data.length ≤ intMax) (hdepth : depth ≤ maxDepth) {base : ℕ} {xs : List WordTree} {cs : List AnyObject}
    {b : Budget} (hb : b.nodes ≤ intMax) (hle : base + xs.length * headSize t.skeleton ≤ data.length)
    (hs : InSlots (fun head x => Holds data t.skeleton base head (xs.length * headSize t.skeleton) x)
      (headSize t.skeleton) base xs)
    (hv : xs.mapM (valueOf t) = some cs) :
    decodeArray decodeValue data t xs.length base depth b =
      spend (Budget.ofType t.typeSize + (xs.map (decodingWork t)).sum) cs b := by
  rw [decodeArray, ensure_true ⟨hdepth, by omega⟩, ok_bind]
  apply afford_spend
  · intro hc
    have hnodes := (Budget.le_iff.mp hc).1
    have hw : xs.length ≤ ((xs.map (decodingWork t)).sum).nodes := length_le_sum t xs
    simp only [Budget.add_nodes, Budget.ofType_nodes] at hnodes
    omega
  · intro hn
    rw [Budget.layout_spend ha]
    apply spend_bind
    intro _
    have hmul : t.shape.headSize * xs.length ≤ intMax := by
      rw [shape_headSize, Nat.mul_comm]
      omega
    have hover := (multiplied_le_iff.mpr hmul).1
    have hsize : t.shape.headSize * xs.length = xs.length * headSize t.skeleton := Nat.mul_comm _ _
    dsimp only
    rw [multiplied_fst hmul, subInt_of_le (by omega), ok_bind, ensure_true ⟨hover, by omega⟩, ok_bind,
      toInt_of_le (by omega), ok_bind, toInt_of_le hmul, ok_bind, hsize]
    exact decodeElements_spend hdec hd (Nat.le_trans (Nat.sub_le _ _) hb) (Nat.le_refl _) hle hs hv

theorem arrayValue_spend {t : ParameterType} {xs : List WordTree} {cs : List AnyObject} {base : ℕ} {b : Budget}
    (hdec : ReadsTree data decodeValue depth t) (ha : Admitted depth t) (hd : data.length ≤ intMax)
    (hdepth : depth ≤ maxDepth) (hb : b.nodes ≤ intMax) (hle : base + xs.length * headSize t.skeleton ≤ data.length)
    (hs : InSlots (fun head x => Holds data t.skeleton base head (xs.length * headSize t.skeleton) x)
      (headSize t.skeleton) base xs) (hcs : xs.mapM (valueOf t) = some cs) :
    (do let (values, budget) ← decodeArray decodeValue data t xs.length base depth b
        ok (.array values, budget) : Outcome (AnyObject × Budget)) =
      spend (Budget.ofType (1 * t.typeSize) + (xs.map (decodingWork t)).sum) (.array cs) b := by
  rw [decodeArray_spend hdec ha hd hdepth hb hle hs hcs, Nat.one_mul]
  conv_rhs => rw [show Budget.ofType t.typeSize + (xs.map (decodingWork t)).sum =
    (Budget.ofType t.typeSize + (xs.map (decodingWork t)).sum) + 0 by simp [Budget.ext_iff]]
  apply spend_bind
  intro _
  exact (spend_zero _ _).symm

theorem decodeOf_spend {t : ParameterType} {start : ℕ} {x : WordTree} {c : AnyObject} {b : Budget}
    (hdec : ∀ s, Admitted (depth + 1) s → ReadsTree data decodeValue (depth + 1) s) (ha : Admitted depth t)
    (hd : data.length ≤ intMax) (hb : b.nodes ≤ intMax) (hx : Body data t.skeleton start x)
    (hv : valueOf t x = some c) :
    ∃ rest, decodingWork t x = visit t + rest ∧ decodeOf decodeValue data depth t start b = spend rest c b := by
  have hpos := t.height_pos
  have hh := ha.height_le
  have hm : maxDepth ≤ intMax := by decide
  have below : addInt depth 1 = ok (depth + 1) := addInt_of_le (by omega)
  have word (ht : t.IsWord) (he : decodeOf decodeValue data depth t start b =
      (do let word ← read data start 32; let value ← decodeWord t word; ok (value, b) :
        Outcome (AnyObject × Budget))) :
      ∃ rest, decodingWork t x = visit t + rest ∧
        decodeOf decodeValue data depth t start b = spend rest c b := by
    rw [skeleton_of_isWord ht] at hx
    cases x with
    | word w =>
      rw [valueOf_of_isWord ht, toOption_eq_some] at hv
      refine ⟨0, ?_, ?_⟩
      · rw [decodingWork, work_of_isWord ht]
        simp [Budget.ext_iff]
      · rw [he, (read_eq_ok hd).mpr ⟨hx.2, hx.1⟩, ok_bind, hv, ok_bind]
        exact (spend_zero _ _).symm
    | payload bs => exact hx.elim
    | node xs => exact hx.elim
  have payload (ht : t.IsPayload) (he : decodeOf decodeValue data depth t start b = decodePayload data t start b) :
      ∃ rest, decodingWork t x = visit t + rest ∧
        decodeOf decodeValue data depth t start b = spend rest c b := by
    rw [skeleton_of_isPayload ht] at hx
    cases x with
    | payload bs =>
      rw [valueOf_of_isPayload ht] at hv
      refine ⟨⟨0, 0, bs.length⟩, work_of_isPayload ht bs, ?_⟩
      rw [he]
      exact decodePayload_spend hd hx hv b
    | word w => exact hx.elim
    | node xs => exact hx.elim
  cases t with
  | string => exact payload trivial rfl
  | dynamicBytes => exact payload trivial rfl
  | array t n =>
    have hae := ha.element (.inl ⟨n, rfl⟩)
    cases x with
    | node xs =>
      simp only [valueOf, Option.map_eq_some_iff] at hv
      obtain ⟨cs, hcs, rfl⟩ := hv
      refine ⟨Budget.ofType (1 * t.typeSize) + (xs.map (decodingWork t)).sum, by rw [decodingWork, work], ?_⟩
      by_cases h0 : n = 0
      · rw [skeleton, if_pos h0] at hx
        obtain ⟨hcount, hat, hle, hs⟩ := hx
        have hword := hat.le
        rw [wordOf_length] at hword
        rw [decodeOf, if_pos h0, ensure_true (by omega), ok_bind, subInt_of_le (by omega), ok_bind,
          ensure_true (by omega), ok_bind]
        by_cases hn : xs.length ≤ b.nodes
        · have hc : boundedWord data start b.nodes = ok xs.length :=
            (boundedWord_eq_ok hd hb).mpr ⟨hat, hn⟩
          rw [hc, failAsExhausted_ok, ok_bind, addInt_of_le (by omega), ok_bind, below, ok_bind]
          exact arrayValue_spend (hdec t hae) hae hd (by omega) hb hle hs hcs
        · rw [boundedWord_of_lt hd hat hcount (by omega), failAsExhausted_fail, exhausted_bind, spend, if_neg]
          intro hc
          have hnodes := (Budget.le_iff.mp hc).1
          have hw : xs.length ≤ ((xs.map (decodingWork t)).sum).nodes := length_le_sum t xs
          simp only [Budget.add_nodes, Budget.ofType_nodes] at hnodes
          omega
      · rw [skeleton, if_neg h0] at hx
        obtain ⟨hlen, hle, hs⟩ := hx
        rw [decodeOf, if_neg h0, below, ok_bind, ← hlen]
        exact arrayValue_spend (hdec t hae) hae hd (by omega) hb hle hs hcs
    | word w =>
      rw [skeleton] at hx
      split at hx <;> exact hx.elim
    | payload bs =>
      rw [skeleton] at hx
      split at hx <;> exact hx.elim
  | fixedArray t n =>
    have hae := ha.element (.inr ⟨n, rfl⟩)
    cases x with
    | node xs =>
      simp only [valueOf, Option.map_eq_some_iff] at hv
      obtain ⟨cs, hcs, rfl⟩ := hv
      refine ⟨Budget.ofType (1 * t.typeSize) + (xs.map (decodingWork t)).sum, by rw [decodingWork, work], ?_⟩
      rw [skeleton] at hx
      obtain ⟨hlen, hle, hs⟩ := hx
      rw [decodeOf, below, ok_bind, ← hlen]
      exact arrayValue_spend (hdec t hae) hae hd (by omega) hb hle hs hcs
    | word w => exact hx.elim
    | payload bs => exact hx.elim
  | tuple ts =>
    cases x with
    | node xs =>
      simp only [valueOf, Option.map_eq_some_iff] at hv
      obtain ⟨cs, hcs, rfl⟩ := hv
      refine ⟨Budget.ofType (typeSizes ts) + decodingWorks ts xs + 0,
        by rw [decodingWork, work]; simp [Budget.ext_iff], ?_⟩
      rw [skeleton] at hx
      rw [decodeOf, below, ok_bind, decodeTuple_spend (fun s hs => hdec s (ha.member hs))
        (fun s hs => ha.member hs) hd (by omega) hb hx.1 hx.2 hcs]
      apply spend_bind
      intro _
      exact (spend_zero _ _).symm
    | word w => exact hx.elim
    | payload bs => exact hx.elim
  | uint | int | fixed | ufixed | address | function | bool | bytes => exact word trivial rfl

theorem decodeLevels_spend {levels depth : ℕ} {t : ParameterType} (hl : maxDepth ≤ depth + levels)
    (ha : Admitted depth t) (hd : data.length ≤ intMax) : ReadsTree data (decodeLevels data levels) depth t := by
  induction levels generalizing depth t with
  | zero =>
    have hpos := t.height_pos
    have hle := ha.height_le
    omega
  | succ levels ih =>
    intro base head floor x c b hb hbase hle hx hv
    have hh := ha.height_le
    have hstart : ∃ start, valueStart data t.shape.isStatic base head floor = ok start ∧
        Body data t.skeleton start x := by
      rw [shape_isStatic]
      unfold valueStart
      unfold Holds Slot at hx
      cases hst : isStatic t.skeleton with
      | true =>
        rw [hst, if_pos rfl] at hx
        exact ⟨head, rfl, hx⟩
      | false =>
        rw [hst, if_neg (by simp)] at hx
        obtain ⟨offset, hword, hfloor, hdvd, hin, hbody⟩ := hx
        have hbound : boundedWord data head (data.length - base) = ok offset :=
          (boundedWord_eq_ok hd (by omega)).mpr ⟨hword, by omega⟩
        refine ⟨base + offset, ?_, hbody⟩
        rw [if_neg (by simp), subInt_of_le (by omega), ok_bind, hbound, ok_bind, ensure_true ⟨hfloor, by omega⟩,
          ok_bind, addInt_of_le (by omega)]
    obtain ⟨start, hstart, hbody⟩ := hstart
    have hb' : (b - visit t).nodes ≤ intMax := Nat.le_trans (Nat.sub_le _ _) hb
    have hbelow : ∀ s, Admitted (depth + 1) s → ReadsTree data (decodeLevels data levels) (depth + 1) s :=
      fun s hs => ih (by omega) hs
    obtain ⟨rest, hcost, hspend⟩ := decodeOf_spend hbelow ha hd hb' hbody hv
    have hrange : base ≤ head ∧ head ≤ data.length := ⟨hbase, by omega⟩
    have hroom : t.shape.headSize ≤ data.length - head := by
      rw [shape_headSize]
      omega
    rw [decodeLevels, ensure_true (by omega), ok_bind, hcost]
    simp only [ensure_true hrange, ok_bind]
    apply visit_spend ha
    intro hn
    dsimp only
    rw [Budget.sub_nodes, Budget.ofType_nodes, Nat.sub_zero, subInt_of_le hrange.2, ok_bind, ensure_true hroom,
      ok_bind, subInt_of_le hn, ok_bind, hstart, ok_bind, sub_visit]
    exact hspend

def FindsTree (data : List UInt8) (decodeValue : ValueDecoder) (depth : ℕ) : Prop :=
  ∀ t base head floor b c b', b.nodes ≤ intMax → decodeValue t base head floor depth b = ok (c, b') →
    b'.nodes ≤ b.nodes ∧ Admitted depth t ∧
      ∃ x, Holds data t.skeleton base head floor x ∧ valueOf t x = some c

theorem decodeMembers_eq_ok (hdec : FindsTree data decodeValue depth) {ts : List ParameterType}
    {base floor head : ℕ} {cs : List AnyObject} {b b' : Budget} (hb : b.nodes ≤ intMax)
    (h : decodeMembers decodeValue base floor depth ts head b = ok (cs, b')) :
    b'.nodes ≤ b.nodes ∧
      ∃ xs, Members data (skeletons ts) base floor head xs ∧ valuesOf ts xs = some cs := by
  induction ts generalizing head cs b with
  | nil =>
    simp only [decodeMembers, ok.injEq, Prod.mk.injEq] at h
    obtain ⟨rfl, rfl⟩ := h
    exact ⟨Nat.le_refl _, [], trivial, rfl⟩
  | cons t ts ih =>
    simp only [decodeMembers, bind_eq_ok, Prod.exists, toInt_eq_ok, addInt_eq_ok, ok.injEq, Prod.mk.injEq] at h
    obtain ⟨l, b1, hl, c, b2, hc, width, ⟨_, rfl⟩, head', ⟨_, rfl⟩, cs', b3, hcs, rfl, rfl⟩ := h
    obtain ⟨_, rfl, hn1, _⟩ := Budget.layout_eq_ok hl
    obtain ⟨hn2, _, x, hx, hv⟩ := hdec t base head floor b1 c b2 (by omega) hc
    obtain ⟨hn3, xs, hxs, hvs⟩ := ih (by omega) hcs
    refine ⟨by omega, x :: xs, ?_, ?_⟩
    · rw [skeletons, Members]
      exact ⟨hx, hxs⟩
    · exact valuesOf_cons_eq_some.mpr ⟨x, xs, c, cs', rfl, rfl, hv, hvs⟩

theorem decodeTuple_eq_ok (hdec : FindsTree data decodeValue depth) {ts : List ParameterType} {base : ℕ}
    {cs : List AnyObject} {b b' : Budget} (hb : b.nodes ≤ intMax)
    (h : decodeTuple decodeValue data ts base depth b = ok (cs, b')) :
    b'.nodes ≤ b.nodes ∧ (∀ t ∈ ts, Admitted depth t) ∧ base + headSizes (skeletons ts) ≤ data.length ∧
      ∃ xs, Members data (skeletons ts) base (headSizes (skeletons ts)) base xs ∧ valuesOf ts xs = some cs := by
  simp only [decodeTuple, bind_eq_ok, ensure_eq_ok, afford_eq_ok, exists_const, Prod.exists] at h
  obtain ⟨⟨_, hbase⟩, _, size, b1, hs, h⟩ := h
  obtain ⟨hn1, ha, hsize, hle⟩ := tupleHeads_eq_ok hbase hs
  rw [Nat.zero_add] at hsize
  obtain ⟨hn2, xs, hm, hv⟩ := decodeMembers_eq_ok hdec (by omega) h
  rw [hsize] at hm hle
  exact ⟨by omega, ha, hle, xs, hm, hv⟩

theorem decodeElements_eq_ok (hdec : FindsTree data decodeValue depth) {t : ParameterType}
    {count base floor head : ℕ} {cs : List AnyObject} {b b' : Budget} (hb : b.nodes ≤ intMax)
    (h : decodeElements decodeValue t (headSize t.skeleton) base floor depth count head b = ok (cs, b')) :
    b'.nodes ≤ b.nodes ∧ ∃ xs, xs.length = count ∧
      InSlots (fun head x => Holds data t.skeleton base head floor x) (headSize t.skeleton) head xs ∧
      xs.mapM (valueOf t) = some cs := by
  induction count generalizing head cs b with
  | zero =>
    simp only [decodeElements, ok.injEq, Prod.mk.injEq] at h
    obtain ⟨rfl, rfl⟩ := h
    exact ⟨Nat.le_refl _, [], rfl, trivial, rfl⟩
  | succ count ih =>
    simp only [decodeElements, bind_eq_ok, Prod.exists, toInt_eq_ok, addInt_eq_ok, ok.injEq, Prod.mk.injEq] at h
    obtain ⟨c, b1, hc, width, ⟨_, rfl⟩, head', ⟨_, rfl⟩, cs', b2, hcs, rfl, rfl⟩ := h
    obtain ⟨hn1, _, x, hx, hv⟩ := hdec t base head floor b c b1 hb hc
    obtain ⟨hn2, xs, hlen, hxs, hvs⟩ := ih (by omega) hcs
    refine ⟨by omega, x :: xs, by rw [List.length_cons, hlen], ⟨hx, hxs⟩, ?_⟩
    simp [hv, hvs]

theorem decodeArray_eq_ok (hdec : FindsTree data decodeValue depth) {t : ParameterType} {count base : ℕ}
    {cs : List AnyObject} {b b' : Budget} (hb : b.nodes ≤ intMax)
    (h : decodeArray decodeValue data t count base depth b = ok (cs, b')) :
    b'.nodes ≤ b.nodes ∧ count ≤ b.nodes ∧ ∃ xs, xs.length = count ∧
      base + xs.length * headSize t.skeleton ≤ data.length ∧
      InSlots (fun head x => Holds data t.skeleton base head (xs.length * headSize t.skeleton) x)
        (headSize t.skeleton) base xs ∧
      xs.mapM (valueOf t) = some cs := by
  simp only [decodeArray, bind_eq_ok, ensure_eq_ok, afford_eq_ok, exists_const, Prod.exists, subInt_eq_ok,
    toInt_eq_ok] at h
  obtain ⟨⟨_, hbase⟩, hcount, l, b1, hl, room, ⟨_, rfl⟩, ⟨hover, hroom⟩, length, ⟨_, rfl⟩, size, ⟨hmax, rfl⟩, h⟩ := h
  obtain ⟨_, rfl, hn1, _⟩ := Budget.layout_eq_ok hl
  have hmul := multiplied_le_iff.mp ⟨hover, hmax⟩
  rw [multiplied_fst hmul, shape_headSize] at hroom h
  obtain ⟨hn2, xs, rfl, hs, hv⟩ := decodeElements_eq_ok hdec (by omega) h
  rw [Nat.mul_comm] at hroom hs
  exact ⟨by omega, hcount, xs, rfl, by omega, hs, hv⟩

theorem decodeOf_eq_ok (hdec : FindsTree data decodeValue (depth + 1)) {t : ParameterType} {start : ℕ}
    {c : AnyObject} {b b' : Budget} (hd : data.length ≤ intMax) (hb : b.nodes ≤ intMax)
    (h : decodeOf decodeValue data depth t start b = ok (c, b')) :
    b'.nodes ≤ b.nodes ∧ ∃ x, Body data t.skeleton start x ∧ valueOf t x = some c := by
  have word (ht : t.IsWord) (h : (do let word ← read data start 32; let value ← decodeWord t word; ok (value, b) :
        Outcome (AnyObject × Budget)) = ok (c, b')) :
      b'.nodes ≤ b.nodes ∧ ∃ x, Body data t.skeleton start x ∧ valueOf t x = some c := by
    simp only [bind_eq_ok, read_eq_ok hd, ok.injEq, Prod.mk.injEq] at h
    obtain ⟨w, ⟨hat, hlen⟩, c', hc, rfl, rfl⟩ := h
    refine ⟨Nat.le_refl _, .word w, ?_, ?_⟩
    · rw [skeleton_of_isWord ht]
      exact ⟨hlen, hat⟩
    · rw [valueOf_of_isWord ht, hc]
      rfl
  have payload (ht : t.IsPayload) (h : decodePayload data t start b = ok (c, b')) :
      b'.nodes ≤ b.nodes ∧ ∃ x, Body data t.skeleton start x ∧ valueOf t x = some c := by
    obtain ⟨hn, bs, hat, hv⟩ := decodePayload_eq_ok hd h
    refine ⟨hn, .payload bs, ?_, ?_⟩
    · rw [skeleton_of_isPayload ht]
      exact hat
    · rw [valueOf_of_isPayload ht]
      exact hv
  cases t with
  | string => exact payload trivial h
  | dynamicBytes => exact payload trivial h
  | array t n =>
    by_cases h0 : n = 0
    · rw [decodeOf, if_pos h0] at h
      simp only [bind_eq_ok, ensure_eq_ok, exists_const, subInt_eq_ok, failAsExhausted_eq_ok, addInt_eq_ok,
        Prod.exists, ok.injEq, Prod.mk.injEq] at h
      obtain ⟨_, _, _, _, count, hcount, base, ⟨_, rfl⟩, below, ⟨_, rfl⟩, cs, b1, ha, rfl, rfl⟩ := h
      obtain ⟨hat, hcb⟩ := (boundedWord_eq_ok hd hb).mp hcount
      obtain ⟨hn, _, xs, rfl, hle, hs, hv⟩ := decodeArray_eq_ok hdec hb ha
      have hfits : FitsWord xs.length :=
        Nat.lt_of_le_of_lt (Nat.le_trans hcb hb) (by decide : FitsWord intMax)
      refine ⟨hn, .node xs, ?_, by simp [valueOf, hv]⟩
      rw [skeleton, if_pos h0]
      exact ⟨hfits, hat, hle, hs⟩
    · rw [decodeOf, if_neg h0] at h
      simp only [bind_eq_ok, addInt_eq_ok, Prod.exists, ok.injEq, Prod.mk.injEq] at h
      obtain ⟨below, ⟨_, rfl⟩, cs, b1, ha, rfl, rfl⟩ := h
      obtain ⟨hn, _, xs, hlen, hle, hs, hv⟩ := decodeArray_eq_ok hdec hb ha
      refine ⟨hn, .node xs, ?_, by simp [valueOf, hv]⟩
      rw [skeleton, if_neg h0]
      exact ⟨hlen, hle, hs⟩
  | fixedArray t n =>
    simp only [decodeOf, bind_eq_ok, addInt_eq_ok, Prod.exists, ok.injEq, Prod.mk.injEq] at h
    obtain ⟨below, ⟨_, rfl⟩, cs, b1, ha, rfl, rfl⟩ := h
    obtain ⟨hn, _, xs, hlen, hle, hs, hv⟩ := decodeArray_eq_ok hdec hb ha
    refine ⟨hn, .node xs, ?_, by simp [valueOf, hv]⟩
    rw [skeleton]
    exact ⟨hlen, hle, hs⟩
  | tuple ts =>
    simp only [decodeOf, bind_eq_ok, addInt_eq_ok, Prod.exists, ok.injEq, Prod.mk.injEq] at h
    obtain ⟨below, ⟨_, rfl⟩, cs, b1, ht, rfl, rfl⟩ := h
    obtain ⟨hn, _, hle, xs, hm, hv⟩ := decodeTuple_eq_ok hdec hb ht
    refine ⟨hn, .node xs, ?_, by simp [valueOf, hv]⟩
    rw [skeleton]
    exact ⟨hle, hm⟩
  | uint | int | fixed | ufixed | address | function | bool | bytes => exact word trivial h

theorem decodeLevels_eq_ok (hd : data.length ≤ intMax) (levels depth : ℕ) :
    FindsTree data (decodeLevels data levels) depth := by
  induction levels generalizing depth with
  | zero =>
    intro t base head floor b c b' hb h
    simp [decodeLevels] at h
  | succ levels ih =>
    intro t base head floor b c b' hb h
    simp only [decodeLevels, bind_eq_ok, ensure_eq_ok, afford_eq_ok, exists_const, Prod.exists, subInt_eq_ok] at h
    obtain ⟨_, _, ⟨hbase, hhead⟩, l, b1, hl, room, ⟨_, rfl⟩, _, nodes, ⟨_, rfl⟩, start, hstart, h⟩ := h
    obtain ⟨ha, rfl, hn1, _⟩ := Budget.layout_eq_ok hl
    obtain ⟨hn, x, hx, hv⟩ := decodeOf_eq_ok (ih (depth + 1)) hd (Nat.le_trans (Nat.sub_le _ _) (by omega)) h
    refine ⟨Nat.le_trans hn (by dsimp only; omega), ha, x, ?_, hv⟩
    rw [shape_isStatic] at hstart
    unfold valueStart at hstart
    unfold Holds Slot
    cases hst : isStatic t.skeleton with
    | true =>
      rw [hst, if_pos rfl] at hstart
      cases hstart
      exact hx
    | false =>
      rw [hst, if_neg (by simp)] at hstart
      simp only [bind_eq_ok, ensure_eq_ok, exists_const, subInt_eq_ok, addInt_eq_ok] at hstart
      obtain ⟨_, ⟨_, rfl⟩, offset, hoff, ⟨hfloor, hmod⟩, _, rfl⟩ := hstart
      obtain ⟨hword, hle⟩ := (boundedWord_eq_ok hd (by omega)).mp hoff
      exact ⟨offset, hword, hfloor, Nat.dvd_of_mod_eq_zero hmod, by omega, hx⟩

end

section

variable [Graphemes]

theorem decode_strict (ts : List ParameterType) (d : Data) :
    decode ts d false = (do
      let (values, _) ← decodeTuple (decodeValue d.bytes) d.bytes ts 0 0 .full
      ok values) := by
  cases ts with
  | nil => rfl
  | cons t ts => cases ts <;> rfl

def decodingCost (ts : List ParameterType) (vs : List AnyObject) : Option Budget :=
  (treesOf ts vs).map fun xs => Budget.ofType (typeSizes ts) + decodingWorks ts xs

theorem decode_of_tree {ts : List ParameterType} {d : Data} {xs : List WordTree} {cs : List AnyObject}
    (ha : ∀ t ∈ ts, Admitted 0 t) (hle : headSizes (skeletons ts) ≤ d.bytes.length)
    (hm : Members d.bytes (skeletons ts) 0 (headSizes (skeletons ts)) 0 xs) (hv : valuesOf ts xs = some cs) :
    decode ts d false = if Budget.ofType (typeSizes ts) + decodingWorks ts xs ≤ Budget.full then ok cs
      else exhausted := by
  rw [decode_strict, decodeValue, decodeTuple_spend
    (fun t ht => decodeLevels_spend (Nat.le_add_left maxDepth 0) (ha t ht) d.count_le) ha d.count_le
    (Nat.zero_le _) (by decide : Budget.full.nodes ≤ intMax) (by omega) hm hv]
  unfold spend
  split <;> rfl

theorem decode_eq_ok {ts : List ParameterType} {d : Data} {cs : List AnyObject} (h : decode ts d false = ok cs) :
    (∀ t ∈ ts, Admitted 0 t) ∧ headSizes (skeletons ts) ≤ d.bytes.length ∧
      ∃ xs, Members d.bytes (skeletons ts) 0 (headSizes (skeletons ts)) 0 xs ∧ valuesOf ts xs = some cs ∧
        Budget.ofType (typeSizes ts) + decodingWorks ts xs ≤ Budget.full := by
  have h' := h
  simp only [decode_strict, bind_eq_ok, Prod.exists, ok.injEq] at h'
  obtain ⟨cs', b', h', rfl⟩ := h'
  obtain ⟨_, ha, hle, xs, hm, hv⟩ :=
    decodeTuple_eq_ok (decodeLevels_eq_ok d.count_le maxDepth 0) (by decide : Budget.full.nodes ≤ intMax) h'
  rw [Nat.zero_add] at hle
  refine ⟨ha, hle, xs, hm, hv, ?_⟩
  rw [decode_of_tree ha hle hm hv] at h
  split at h
  · assumption
  · cases h

end

end TronlinkCore.Abi
