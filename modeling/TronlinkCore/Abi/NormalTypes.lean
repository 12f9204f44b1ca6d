import TronlinkCore.Abi.TypeParser

/-!
Types up to `==`: every array of a length other than zero in the `array` case.
-/

namespace TronlinkCore.Abi.ParameterType

mutual
def normalised : ParameterType → ParameterType
  | .array t n => .array t.normalised n
  | .fixedArray t n => if n = 0 then .fixedArray t.normalised 0 else .array t.normalised n
  | .tuple ts => .tuple (normalisedAll ts)
  | t => t

def normalisedAll : List ParameterType → List ParameterType
  | [] => []
  | t :: ts => t.normalised :: normalisedAll ts
end

theorem normalisedAll_eq_map (ts : List ParameterType) : normalisedAll ts = ts.map normalised := by
  induction ts with
  | nil => rfl
  | cons t ts ih => rw [normalisedAll, ih, List.map_cons]

theorem normalised_of_isWord {t : ParameterType} (h : t.IsWord) : t.normalised = t := by
  cases t <;> first | rfl | exact absurd h id

theorem normalised_of_isPayload {t : ParameterType} (h : t.IsPayload) : t.normalised = t := by
  cases t <;> first | rfl | exact absurd h id

theorem representations_eq_map (ts : List ParameterType) : representations ts = ts.map abiRepresentation := by
  induction ts with
  | nil => rfl
  | cons t ts ih => rw [representations, ih, List.map_cons]

theorem normalised_facts (t : ParameterType) :
    t.normalised.skeleton = t.skeleton ∧ t.normalised.height = t.height ∧ t.normalised.typeSize = t.typeSize ∧
      t.normalised.abiRepresentation = t.abiRepresentation ∧ t.normalised.normalised = t.normalised := by
  induction t using nesting with
  | word t h => simp [normalised_of_isWord h]
  | payload t h => simp [normalised_of_isPayload h]
  | array t n ih =>
    obtain ⟨h1, h2, h3, h4, h5⟩ := ih
    simp only [normalised, skeleton, height, typeSize, abiRepresentation, h1, h2, h3, h4, h5, and_self]
  | fixedArray t n ih =>
    obtain ⟨h1, h2, h3, h4, h5⟩ := ih
    rw [normalised]
    by_cases h0 : n = 0
    · rw [if_pos h0, h0]
      simp only [normalised, skeleton, height, typeSize, abiRepresentation, h1, h2, h3, h4, h5, ↓reduceIte, and_self]
    · rw [if_neg h0]
      simp only [normalised, skeleton, height, typeSize, abiRepresentation, h0, h1, h2, h3, h4, h5, ↓reduceIte,
        and_self]
  | tuple ts ih =>
    have hs : skeletons (normalisedAll ts) = skeletons ts ∧ heights (normalisedAll ts) = heights ts ∧
        typeSizes (normalisedAll ts) = typeSizes ts ∧ representations (normalisedAll ts) = representations ts ∧
        normalisedAll (normalisedAll ts) = normalisedAll ts := by
      induction ts with
      | nil => simp [normalisedAll]
      | cons t ts iht =>
        obtain ⟨h1, h2, h3, h4, h5⟩ := ih t List.mem_cons_self
        obtain ⟨k1, k2, k3, k4, k5⟩ := iht fun s hs => ih s (List.mem_cons_of_mem t hs)
        simp [normalisedAll, skeletons, heights, typeSizes, representations, h1, h2, h3, h4, h5, k1, k2, k3, k4, k5]
    obtain ⟨h1, h2, h3, h4, h5⟩ := hs
    simp [normalised, skeleton, height, typeSize, abiRepresentation, h1, h2, h3, h4, h5]

@[simp] theorem skeleton_normalised (t : ParameterType) : t.normalised.skeleton = t.skeleton := (normalised_facts t).1

@[simp] theorem height_normalised (t : ParameterType) : t.normalised.height = t.height := (normalised_facts t).2.1

@[simp] theorem typeSize_normalised (t : ParameterType) : t.normalised.typeSize = t.typeSize :=
  (normalised_facts t).2.2.1

@[simp] theorem abiRepresentation_normalised (t : ParameterType) :
    t.normalised.abiRepresentation = t.abiRepresentation := (normalised_facts t).2.2.2.1

@[simp] theorem normalised_normalised (t : ParameterType) : t.normalised.normalised = t.normalised :=
  (normalised_facts t).2.2.2.2

theorem wellSized_normalised {t : ParameterType} (h : t.WellSized) : t.normalised.WellSized := by
  induction t using nesting with
  | word t hw => rwa [normalised_of_isWord hw]
  | payload t hp => rwa [normalised_of_isPayload hp]
  | array t n ih =>
    obtain ⟨ht, hn, hm⟩ := h
    rw [normalised]
    refine ⟨ih ht, hn, ?_⟩
    rwa [skeleton_normalised]
  | fixedArray t n ih =>
    obtain ⟨ht, hn, hm⟩ := h
    rw [normalised]
    by_cases h0 : n = 0
    · rw [if_pos h0]
      refine ⟨ih ht, by decide, ?_⟩
      simp
    · rw [if_neg h0]
      refine ⟨ih ht, hn, ?_⟩
      intro _
      rwa [skeleton_normalised]
  | tuple ts ih =>
    obtain ⟨hts, hm⟩ := h
    have hs : skeletons (ts.map normalised) = skeletons ts := by simp [skeletons_eq_map]
    rw [normalised, normalisedAll_eq_map]
    refine ⟨allWellSized_iff.mpr ?_, by rwa [hs]⟩
    intro s hs
    obtain ⟨t, ht, rfl⟩ := List.mem_map.mp hs
    exact ih t ht (allWellSized_iff.mp hts t ht)

theorem equals_iff {ts : List ParameterType} (h : ∀ t ∈ ts, ∀ s, equal t s = true ↔ t.normalised = s.normalised)
    (ss : List ParameterType) : equals ts ss = true ↔ normalisedAll ts = normalisedAll ss := by
  induction ts generalizing ss with
  | nil => cases ss <;> simp [equals, normalisedAll]
  | cons t ts ih =>
    cases ss with
    | nil => simp [equals, normalisedAll]
    | cons s ss =>
      simp only [equals, normalisedAll, Bool.and_eq_true, List.cons.injEq]
      rw [h t List.mem_cons_self s, ih (fun t ht => h t (List.mem_cons_of_mem _ ht)) ss]

theorem equal_iff (t s : ParameterType) : equal t s = true ↔ t.normalised = s.normalised := by
  have pos (n : UInt64) : 0 < n ↔ n ≠ 0 := UInt64.pos_iff_ne_zero
  induction t using induct generalizing s with
  | array t n ih =>
    cases s with
    | array s m => simp [equal, normalised, ih s]
    | fixedArray s m =>
      by_cases hm : m = 0
      · simp only [equal, normalised, hm, pos, ih s, ↓reduceIte, reduceCtorEq, Bool.and_eq_true, decide_eq_true_eq]
        grind
      · simp only [equal, normalised, hm, pos, ih s, ↓reduceIte, array.injEq, Bool.and_eq_true, decide_eq_true_eq]
        grind
    | _ => simp [equal, normalised]
  | fixedArray t n ih =>
    by_cases hn : n = 0
    · cases s with
      | array s m => simp [equal, normalised, hn]
      | fixedArray s m => by_cases hm : m = 0 <;> simp [equal, normalised, hn, hm, ih s, eq_comm]
      | _ => simp [equal, normalised, hn]
    · cases s with
      | array s m =>
        simp only [equal, normalised, hn, pos, ih s, ↓reduceIte, array.injEq, Bool.and_eq_true, decide_eq_true_eq]
        grind
      | fixedArray s m =>
        by_cases hm : m = 0
        · simp [equal, normalised, hn, hm]
        · simp [equal, normalised, hn, hm, ih s]
      | _ => simp [equal, normalised, hn]
  | tuple ts ih =>
    cases s with
    | tuple ss => simp [equal, normalised, equals_iff ih ss]
    | fixedArray s m => by_cases hm : m = 0 <;> simp [equal, normalised, hm]
    | _ => simp [equal, normalised]
  | _ =>
    cases s with
    | fixedArray s m => by_cases hm : m = 0 <;> simp [equal, normalised, hm]
    | _ => simp [equal, normalised]

end TronlinkCore.Abi.ParameterType

namespace TronlinkCore.Abi

theorem Admitted.normalised {depth : ℕ} {t : ParameterType} (h : Admitted depth t) : Admitted depth t.normalised :=
  ⟨ParameterType.wellSized_normalised h.wellSized, by rw [ParameterType.height_normalised]; exact h.height_le⟩

end TronlinkCore.Abi
