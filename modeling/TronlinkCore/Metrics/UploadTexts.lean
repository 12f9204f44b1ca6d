import TronlinkCore.Library.Separated
import TronlinkCore.Metrics.ReportedBalances

/-!
The records of an upload can be read back from its text: a field after a record
is its buckets or begins the next one, and no field holds the separator.
-/

namespace TronlinkCore.Metrics

open Outcome Text Web3 Separated

def Unbarred (s : Option Text) : Prop := '|' ∉ s.getD []

instance (s : Option Text) : Decidable (Unbarred s) := inferInstanceAs (Decidable (_ ∉ _))

structure PlainTransaction (m : TransactionSyncModel) : Prop where
  uId : Unbarred m.uId
  tokenAddress : Unbarred m.tokenAddress
  tokenAmount : Unbarred m.tokenAmount
  energy : Unbarred m.energy
  bandwidth : Unbarred m.bandwidth
  burn : Unbarred m.burn
  date : Unbarred m.date

/-- What a record tells; absent strings are empty, and only positive buckets count. -/
structure SameTransaction (m m' : TransactionSyncModel) : Prop where
  uId : m.uId.getD [] = m'.uId.getD []
  idType : m.idType = m'.idType
  actionType : m.actionType = m'.actionType
  count : m.count = m'.count
  tokenAddress : m.tokenAddress.getD [] = m'.tokenAddress.getD []
  tokenAmount : m.tokenAmount.getD [] = m'.tokenAmount.getD []
  energy : m.energy.getD [] = m'.energy.getD []
  bandwidth : m.bandwidth.getD [] = m'.bandwidth.getD []
  burn : m.burn.getD [] = m'.burn.getD []
  date : m.date.getD [] = m'.date.getD []
  bucket : ∀ i, (m.bucket i).filter (0 < ·) = (m'.bucket i).filter (0 < ·)

theorem fmtInt_injective {v w : Option Int64} (h : fmtInt v = fmtInt w) : v = w := by
  cases v with
  | none =>
    cases w with
    | none => rfl
    | some w => exact absurd h.symm (ofInt64_ne_nil w)
  | some v =>
    cases w with
    | none => exact absurd h (ofInt64_ne_nil v)
    | some w => exact congrArg some (ofInt64_injective h)

theorem not_mem_ofInt64 {c : Char} (hc : c ≠ '-' ∧ c.isDigit = false) (v : Int64) : c ∉ ofInt64 v := by
  intro hmem
  rcases mem_ofInt64 hmem with h | h
  · exact hc.1 h
  · exact ne_of_isDigit h hc.2 rfl

theorem unbarred_fmtInt (v : Option Int64) : '|' ∉ fmtInt v := by
  cases v with
  | none => exact List.not_mem_nil
  | some v => exact not_mem_ofInt64 (by decide) v

theorem bucketText_eq (i : Fin 9) (v : Int64) :
    bucketText i v = 'A' :: Nat.digitChar (i.val + 1) :: ':' :: ofInt64 v := by
  rw [bucketText, Nat.toDigits_of_lt_base (by omega)]
  rfl

theorem bucketText_injective {i j : Fin 9} {v w : Int64} (h : bucketText i v = bucketText j w) : i = j ∧ v = w := by
  rw [bucketText_eq, bucketText_eq] at h
  obtain ⟨_, h⟩ := List.cons.inj h
  obtain ⟨hdigit, h⟩ := List.cons.inj h
  obtain ⟨_, h⟩ := List.cons.inj h
  have hnumber := congrArg Char.toNat hdigit
  rw [Nat.toNat_digitChar_of_lt_ten (by omega), Nat.toNat_digitChar_of_lt_ten (by omega)] at hnumber
  exact ⟨Fin.ext (by omega), ofInt64_injective h⟩

theorem not_mem_bucketText {c : Char} (hc : c ≠ '-' ∧ c.isDigit = false) (hmarks : c ≠ 'A' ∧ c ≠ ':') (i : Fin 9)
    (v : Int64) : c ∉ bucketText i v := by
  rw [bucketText_eq]
  simp only [List.mem_cons, not_or]
  refine ⟨hmarks.1, ?_, hmarks.2, not_mem_ofInt64 hc v⟩
  have hdigit : (Nat.digitChar (i.val + 1)).isDigit = true :=
    isDigits_toDigits (i.val + 1) _ (by rw [Nat.toDigits_of_lt_base (by omega)]; exact List.mem_singleton_self _)
  exact (ne_of_isDigit hdigit hc.2).symm

theorem mem_aParts {m : TransactionSyncModel} {part : Text} :
    part ∈ aParts m ↔ ∃ i v, (m.bucket i).filter (0 < ·) = some v ∧ bucketText i v = part := by
  simp only [aParts, List.mem_filterMap, List.mem_finRange, true_and, Option.map_eq_some_iff]

theorem bucket_of_aParts {m m' : TransactionSyncModel} (h : aParts m = aParts m') (i : Fin 9) :
    (m.bucket i).filter (0 < ·) = (m'.bucket i).filter (0 < ·) := by
  have half {m m' : TransactionSyncModel} (h : aParts m = aParts m') {v : Int64}
      (hv : (m.bucket i).filter (0 < ·) = some v) : (m'.bucket i).filter (0 < ·) = some v := by
    have hmem : bucketText i v ∈ aParts m' := h ▸ mem_aParts.mpr ⟨i, v, hv, rfl⟩
    obtain ⟨j, w, hw, htext⟩ := mem_aParts.mp hmem
    obtain ⟨rfl, rfl⟩ := bucketText_injective htext
    exact hw
  ext v
  exact ⟨half h, half h.symm⟩

def aField (m : TransactionSyncModel) : Text := [','].intercalate (aParts m)

theorem aField_begins {m : TransactionSyncModel} (h : aParts m ≠ []) : ∃ rest, aField m = 'A' :: rest := by
  rw [aField]
  cases hparts : aParts m with
  | nil => exact absurd hparts h
  | cons part parts =>
    obtain ⟨i, v, _, htext⟩ := mem_aParts.mp (hparts ▸ List.mem_cons_self)
    rw [← htext, bucketText_eq]
    cases parts with
    | nil => exact ⟨_, rfl⟩
    | cons next parts => exact ⟨_, rfl⟩

theorem aField_eq_nil {m : TransactionSyncModel} : aField m = [] ↔ aParts m = [] := by
  constructor
  · intro hnil
    by_contra hne
    obtain ⟨rest, hrest⟩ := aField_begins hne
    rw [hnil] at hrest
    cases hrest
  · intro hnil
    rw [aField, hnil]
    rfl

theorem aParts_of_aField {m m' : TransactionSyncModel} (h : aField m = aField m') : aParts m = aParts m' := by
  by_cases hnil : aParts m = []
  · rw [hnil, aField_eq_nil.mp (h ▸ aField_eq_nil.mpr hnil)]
  · have hnil' : aParts m' ≠ [] := fun hnil' => hnil (aField_eq_nil.mp (h.trans (aField_eq_nil.mpr hnil')))
    have hcomma (m : TransactionSyncModel) : ∀ part ∈ aParts m, ',' ∉ part := by
      intro part hpart
      obtain ⟨i, v, _, rfl⟩ := mem_aParts.mp hpart
      exact not_mem_bucketText (by decide) (by decide) i v
    exact intercalate_injective hnil hnil' (hcomma m) (hcomma m') h

theorem unbarred_aField (m : TransactionSyncModel) : '|' ∉ aField m := by
  intro hbar
  rcases mem_of_mem_intercalate hbar with hcomma | ⟨part, hpart, hbar⟩
  · exact absurd hcomma (by decide)
  · obtain ⟨i, v, _, rfl⟩ := mem_aParts.mp hpart
    exact not_mem_bucketText (by decide) (by decide) i v hbar

def baseFields (m : TransactionSyncModel) : List Text :=
  ["V1Y".toList, fmt m.uId, fmtInt m.idType, fmtInt m.actionType, fmtInt m.count, fmt m.tokenAddress,
    fmt m.tokenAmount, fmt m.energy, fmt m.bandwidth, fmt m.burn, fmt m.date]

def bucketFields (m : TransactionSyncModel) : List Text := if aField m = [] then [] else [aField m]

theorem recordFields_eq (m : TransactionSyncModel) : recordFields m = baseFields m ++ bucketFields m := by
  unfold recordFields bucketFields
  change (if (aField m).isEmpty = true then baseFields m else baseFields m ++ [aField m]) = _
  by_cases hnil : aField m = []
  · rw [if_pos hnil, if_pos (List.isEmpty_iff.mpr hnil), List.append_nil]
  · rw [if_neg hnil, if_neg fun hempty => hnil (List.isEmpty_iff.mp hempty)]

theorem unbarred_recordFields {m : TransactionSyncModel} (h : PlainTransaction m) :
    ∀ field ∈ recordFields m, '|' ∉ field := by
  rw [recordFields_eq]
  intro field hfield
  rcases List.mem_append.mp hfield with hfield | hfield
  · simp only [baseFields, List.mem_cons, List.not_mem_nil, or_false] at hfield
    rcases hfield with rfl | rfl | rfl | rfl | rfl | rfl | rfl | rfl | rfl | rfl | rfl
    · decide
    · exact h.uId
    · exact unbarred_fmtInt _
    · exact unbarred_fmtInt _
    · exact unbarred_fmtInt _
    · exact h.tokenAddress
    · exact h.tokenAmount
    · exact h.energy
    · exact h.bandwidth
    · exact h.burn
    · exact h.date
  · unfold bucketFields at hfield
    split at hfield
    · cases hfield
    · rw [List.mem_singleton.mp hfield]
      exact unbarred_aField m

theorem buildTransactionsParameter_eq (models : List TransactionSyncModel) :
    buildTransactionsParameter models = ended '|' (models.flatMap recordFields) := by
  induction models with
  | nil => rfl
  | cons m models ih =>
    have hne : recordFields m ≠ [] := by
      rw [recordFields_eq]
      exact List.cons_ne_nil _ _
    rw [List.flatMap_cons, ended_append, ← ih, ← intercalate_ended hne]
    rfl

theorem sameTransaction_of_fields {m m' : TransactionSyncModel} (hbase : baseFields m = baseFields m')
    (hfield : aField m = aField m') : SameTransaction m m' := by
  simp only [baseFields, List.cons.injEq, true_and, and_true] at hbase
  obtain ⟨huId, hidType, hactionType, hcount, htokenAddress, htokenAmount, henergy, hbandwidth, hburn, hdate⟩ := hbase
  exact {
    uId := huId
    idType := fmtInt_injective hidType
    actionType := fmtInt_injective hactionType
    count := fmtInt_injective hcount
    tokenAddress := htokenAddress
    tokenAmount := htokenAmount
    energy := henergy
    bandwidth := hbandwidth
    burn := hburn
    date := hdate
    bucket := bucket_of_aParts (aParts_of_aField hfield) }

theorem aField_not_begins {m : TransactionSyncModel} (hm : aField m ≠ []) (models : List TransactionSyncModel)
    (rest : List Text) : aField m :: rest ≠ models.flatMap recordFields := by
  intro heq
  cases models with
  | nil => cases heq
  | cons next models =>
    rw [List.flatMap_cons, recordFields_eq] at heq
    have hhead : aField m = "V1Y".toList := (List.cons.inj heq).1
    obtain ⟨tail, htail⟩ := aField_begins fun hparts => hm (aField_eq_nil.mpr hparts)
    rw [htail] at hhead
    exact absurd (List.cons.inj hhead).1 (by decide)

theorem bucketFields_cancel {m m' : TransactionSyncModel} {models models' : List TransactionSyncModel}
    (h : bucketFields m ++ models.flatMap recordFields = bucketFields m' ++ models'.flatMap recordFields) :
    aField m = aField m' ∧ models.flatMap recordFields = models'.flatMap recordFields := by
  unfold bucketFields at h
  by_cases hm : aField m = []
  · rw [if_pos hm, List.nil_append] at h
    by_cases hm' : aField m' = []
    · rw [if_pos hm', List.nil_append] at h
      exact ⟨hm.trans hm'.symm, h⟩
    · rw [if_neg hm'] at h
      exact absurd h.symm (aField_not_begins hm' models _)
  · rw [if_neg hm] at h
    by_cases hm' : aField m' = []
    · rw [if_pos hm', List.nil_append] at h
      exact absurd h (aField_not_begins hm models' _)
    · rw [if_neg hm'] at h
      exact List.cons.inj h

theorem same_of_recordFields {models models' : List TransactionSyncModel}
    (h : models.flatMap recordFields = models'.flatMap recordFields) : List.Forall₂ SameTransaction models models' := by
  induction models generalizing models' with
  | nil =>
    cases models' with
    | nil => exact .nil
    | cons m' models' =>
      rw [List.flatMap_cons, recordFields_eq] at h
      cases h
  | cons m models ih =>
    cases models' with
    | nil =>
      rw [List.flatMap_cons, recordFields_eq] at h
      cases h
    | cons m' models' =>
      simp only [List.flatMap_cons, recordFields_eq, List.append_assoc] at h
      obtain ⟨hbase, hrest⟩ := List.append_inj h rfl
      obtain ⟨hfield, hrest⟩ := bucketFields_cancel hrest
      exact .cons (sameTransaction_of_fields hbase hfield) (ih hrest)

/-- A number is printed as a sign, digits and a point. -/
class PrintsNumbers [DecimalNumbers] : Prop where
  pure : ∀ q, isPureNumber (DecimalNumbers.stringValue q) = true

theorem chars_of_isPureNumber {s : Text} (h : isPureNumber s = true) {c : Char} (hc : c ∈ s) :
    c = '-' ∨ c = '.' ∨ c.isDigit := by
  have hunsigned : c = '-' ∨ c ∈ unsigned s := by
    unfold unsigned
    split
    · exact List.mem_cons.mp hc
    · exact .inr hc
  refine hunsigned.imp id ?_
  intro hmem
  obtain ⟨fraction, hwrites⟩ := writes_of_isPureNumber h
  exact chars_of_writes hwrites c hmem

section

variable [Graphemes]

theorem removeLeadingZeros_suffix (s : Text) : removeLeadingZeros s <:+ s := by
  induction s with
  | nil => exact List.suffix_refl _
  | cons c s ih =>
    rw [removeLeadingZeros]
    split
    · exact ih.trans (List.suffix_cons c s)
    · exact List.suffix_refl _

theorem mem_removeFloatSuffixZero {s : Text} {c : Char} (h : c ∈ removeFloatSuffixZero s) : c ∈ s ∨ c = '0' := by
  have hsteps : ∃ t, t ⊆ s ∧ removeFloatSuffixZero s =
      (let returnString := if Text.hasPrefix t ['.'] then '0' :: t else t
       if returnString.isEmpty then ['0'] else returnString) := by
    let front := if s.tails.any (Text.hasPrefix · ['.']) then s.rdropWhile (· = '0') else s
    have hfront : front ⊆ s := by
      unfold front
      split
      · exact (List.rdropWhile_prefix _ s).subset
      · exact List.Subset.refl s
    have hpoint : (if front.getLast? = some '.' then front.dropLast else front) ⊆ front := by
      split
      · exact List.dropLast_subset front
      · exact List.Subset.refl front
    exact ⟨_, List.Subset.trans (removeLeadingZeros_suffix _).subset (List.Subset.trans hpoint hfront), rfl⟩
  obtain ⟨t, hsubset, heq⟩ := hsteps
  rw [heq] at h
  have hreturned {r : Text} (hr : c ∈ if r.isEmpty then ['0'] else r) : c ∈ r ∨ c = '0' := by
    split at hr
    · exact .inr (List.mem_singleton.mp hr)
    · exact .inl hr
  rcases hreturned h with h | h
  · split at h
    · exact (List.mem_cons.mp h).symm.imp (@hsubset c) id
    · exact .inl (hsubset h)
  · exact .inr h

end

section

variable [ReportNumbers] [Segmentation] [Whitespace]

structure SameAsset (m m' : AssetSyncModel) : Prop where
  uId : m.uId.getD [] = m'.uId.getD []
  idType : m.idType = m'.idType
  trxBalance : formatReportNumber m.trxBalance = formatReportNumber m'.trxBalance
  usdtBalance : formatReportNumber m.usdtBalance = formatReportNumber m'.usdtBalance
  usdBalance : formatReportNumber m.usdBalance = formatReportNumber m'.usdBalance
  date : m.date.getD [] = m'.date.getD []

theorem unbarred_report [PrintsNumbers] {value : Option Text} {text : Text} (h : formatReportNumber value = ok text) :
    '|' ∉ text := by
  unfold formatReportNumber at h
  split at h
  · cases h
    decide
  · obtain ⟨precision, _, h⟩ := bind_eq_ok.mp h
    obtain ⟨quotient, _, h⟩ := bind_eq_ok.mp h
    obtain ⟨product, _, h⟩ := bind_eq_ok.mp h
    cases h
    intro hbar
    rcases mem_removeFloatSuffixZero hbar with hbar | hbar
    · rcases chars_of_isPureNumber (PrintsNumbers.pure _) hbar with hc | hc | hc
      · exact absurd hc (by decide)
      · exact absurd hc (by decide)
      · exact absurd hc (by decide)
    · exact absurd hbar (by decide)

structure Recorded (m : AssetSyncModel) (fields : List Text) : Prop where
  exists_texts : ∃ trxBalance usdtBalance usdBalance, formatReportNumber m.trxBalance = ok trxBalance ∧
    formatReportNumber m.usdtBalance = ok usdtBalance ∧ formatReportNumber m.usdBalance = ok usdBalance ∧
    fields = ["V1X".toList, fmt m.uId, fmtInt m.idType, trxBalance, usdtBalance, usdBalance, fmt m.date]

theorem Recorded.unbarred [PrintsNumbers] {m : AssetSyncModel} {fields : List Text} (h : Recorded m fields)
    (huId : Unbarred m.uId) (hdate : Unbarred m.date) : ∀ field ∈ fields, '|' ∉ field := by
  obtain ⟨trxBalance, usdtBalance, usdBalance, htrx, husdt, husd, rfl⟩ := h.exists_texts
  intro field hfield
  simp only [List.mem_cons, List.not_mem_nil, or_false] at hfield
  rcases hfield with rfl | rfl | rfl | rfl | rfl | rfl | rfl
  · decide
  · exact huId
  · exact unbarred_fmtInt _
  · exact unbarred_report htrx
  · exact unbarred_report husdt
  · exact unbarred_report husd
  · exact hdate

theorem Recorded.same {m m' : AssetSyncModel} {fields : List Text} (h : Recorded m fields) (h' : Recorded m' fields) :
    SameAsset m m' := by
  obtain ⟨trxBalance, usdtBalance, usdBalance, htrx, husdt, husd, rfl⟩ := h.exists_texts
  obtain ⟨trxBalance', usdtBalance', usdBalance', htrx', husdt', husd', hfields⟩ := h'.exists_texts
  simp only [List.cons.injEq, true_and, and_true] at hfields
  obtain ⟨huId, hidType, rfl, rfl, rfl, hdate⟩ := hfields
  exact ⟨huId, fmtInt_injective hidType, htrx.trans htrx'.symm, husdt.trans husdt'.symm, husd.trans husd'.symm, hdate⟩

theorem buildAssetParameter_eq_ok {models : List AssetSyncModel} {text : Text}
    (h : buildAssetParameter models = ok text) :
    ∃ records, List.Forall₂ Recorded models records ∧ text = ended '|' records.flatten := by
  induction models generalizing text with
  | nil =>
    cases h
    exact ⟨[], .nil, rfl⟩
  | cons m models ih =>
    obtain ⟨parts, hparts, htext⟩ := bind_eq_ok.mp h
    rw [List.mapM_cons] at hparts
    obtain ⟨part, hpart, hparts⟩ := bind_eq_ok.mp hparts
    obtain ⟨rest, hrest, hparts⟩ := bind_eq_ok.mp hparts
    cases hparts
    have htail : buildAssetParameter models = ok rest.flatten := by
      rw [buildAssetParameter, hrest]
      rfl
    obtain ⟨records, hrecords, hended⟩ := ih htail
    obtain ⟨trxBalance, htrx, hpart⟩ := bind_eq_ok.mp hpart
    obtain ⟨usdtBalance, husdt, hpart⟩ := bind_eq_ok.mp hpart
    obtain ⟨usdBalance, husd, hpart⟩ := bind_eq_ok.mp hpart
    refine ⟨_ :: records, .cons ⟨_, _, _, htrx, husdt, husd, rfl⟩ hrecords, ?_⟩
    cases hpart
    cases htext
    rw [List.flatten_cons, List.flatten_cons, ended_append, ← hended, intercalate_ended (List.cons_ne_nil _ _)]

theorem unbarred_records [PrintsNumbers] {models : List AssetSyncModel} {records : List (List Text)}
    (h : List.Forall₂ Recorded models records) (hplain : ∀ m ∈ models, Unbarred m.uId ∧ Unbarred m.date) :
    ∀ field ∈ records.flatten, '|' ∉ field := by
  induction h with
  | nil => exact nofun
  | cons hm _ ih =>
    obtain ⟨huId, hdate⟩ := hplain _ List.mem_cons_self
    intro field hfield
    rcases List.mem_append.mp hfield with hfield | hfield
    · exact hm.unbarred huId hdate field hfield
    · exact ih (fun m hmem => hplain m (List.mem_cons_of_mem _ hmem)) field hfield

theorem same_of_records {models models' : List AssetSyncModel} {records records' : List (List Text)}
    (h : List.Forall₂ Recorded models records) (h' : List.Forall₂ Recorded models' records')
    (heq : records.flatten = records'.flatten) : List.Forall₂ SameAsset models models' := by
  have nonempty {m : AssetSyncModel} {fields rest : List Text} (h : Recorded m fields) : [] ≠ fields ++ rest := by
    obtain ⟨_, _, _, _, _, _, rfl⟩ := h.exists_texts
    exact (List.cons_ne_nil _ _).symm
  have seven {m : AssetSyncModel} {fields : List Text} (h : Recorded m fields) : fields.length = 7 := by
    obtain ⟨_, _, _, _, _, _, rfl⟩ := h.exists_texts
    rfl
  induction h generalizing models' records' with
  | nil =>
    cases h' with
    | nil => exact .nil
    | cons hm' _ => exact absurd heq (nonempty hm')
  | cons hm hrest ih =>
    cases h' with
    | nil => exact absurd heq.symm (nonempty hm)
    | cons hm' hrest' =>
      rw [List.flatten_cons, List.flatten_cons] at heq
      obtain ⟨hfields, heq⟩ := List.append_inj heq ((seven hm).trans (seven hm').symm)
      exact .cons (hm.same (hfields ▸ hm')) (ih hrest' heq)

theorem upload_texts_identify [PrintsNumbers] :
    (∀ models models', (∀ m ∈ models, PlainTransaction m) → (∀ m ∈ models', PlainTransaction m) →
      buildTransactionsParameter models = buildTransactionsParameter models' →
        List.Forall₂ SameTransaction models models') ∧
    ∀ models models' text, (∀ m ∈ models, Unbarred m.uId ∧ Unbarred m.date) →
      (∀ m ∈ models', Unbarred m.uId ∧ Unbarred m.date) → buildAssetParameter models = ok text →
      buildAssetParameter models' = ok text → List.Forall₂ SameAsset models models' := by
  constructor
  · intro models models' hplain hplain' heq
    have unbarred {models : List TransactionSyncModel} (hplain : ∀ m ∈ models, PlainTransaction m) :
        ∀ field ∈ models.flatMap recordFields, '|' ∉ field := by
      intro field hfield
      obtain ⟨m, hm, hfield⟩ := List.mem_flatMap.mp hfield
      exact unbarred_recordFields (hplain m hm) field hfield
    rw [buildTransactionsParameter_eq, buildTransactionsParameter_eq] at heq
    exact same_of_recordFields (ended_injective (unbarred hplain) (unbarred hplain') heq)
  · intro models models' text hplain hplain' htext htext'
    obtain ⟨records, hrecords, rfl⟩ := buildAssetParameter_eq_ok htext
    obtain ⟨records', hrecords', heq⟩ := buildAssetParameter_eq_ok htext'
    have hfields := unbarred_records hrecords hplain
    have hfields' := unbarred_records hrecords' hplain'
    exact same_of_records hrecords hrecords' (ended_injective hfields hfields' heq)

end

theorem isPureNumber_of_unsigned {s integer fraction : Text} (h : WritesDigits (unsigned s) integer fraction) :
    isPureNumber s = true := by
  have hpure := isPureNumber_of_writes h
  unfold isPureNumber at hpure ⊢
  rwa [unsigned_of_writes h] at hpure

attribute [local instance] rationalReports in
theorem printsNumbers_rational : PrintsNumbers where
  pure q := by
    have hwrites := writesDigits_shortest (Nat.toDigits 10 (q.num.natAbs / q.den)) (padded_fraction q).digits
    change isPureNumber (printed q) = true
    rw [printed]
    split
    · exact isPureNumber_of_unsigned hwrites
    · exact isPureNumber_of_writes hwrites

def assetOf (uId trxBalance : String) : AssetSyncModel :=
  ⟨some uId.toList, some 1, some trxBalance.toList, some "0".toList, none, some "20240102".toList, none, none⟩

def transactionOf (uId : String) (bucket : Fin 9 → Option Int64) : TransactionSyncModel :=
  ⟨some uId.toList, some 1, some 2, some 3, some ['_'], some "12.5".toList, some "7".toList, none, some [],
    some "20240102".toList, bucket, none, none⟩

def twoBuckets (i : Fin 9) : Option Int64 := if i = 0 then some 1 else if i = 8 then some 2 else none

def emptyBuckets (_ : Fin 9) : Option Int64 := some 0

def twoTransactions : List TransactionSyncModel := [transactionOf "a" twoBuckets, transactionOf "b" emptyBuckets]

def twoAssets : List AssetSyncModel := [assetOf "a" "1234", assetOf "b" "5"]

theorem transactionOf_plain {uId : String} (huId : '|' ∉ uId.toList) (bucket : Fin 9 → Option Int64) :
    PlainTransaction (transactionOf uId bucket) where
  uId := huId
  tokenAddress := (by decide : Unbarred (some ['_']))
  tokenAmount := (by decide : Unbarred (some "12.5".toList))
  energy := (by decide : Unbarred (some "7".toList))
  bandwidth := (by decide : Unbarred none)
  burn := (by decide : Unbarred (some []))
  date := (by decide : Unbarred (some "20240102".toList))

attribute [local instance] rationalReports printsNumbers_rational scalarCharacters asciiWhitespace in
theorem upload_texts_of_two :
    buildTransactionsParameter twoTransactions ≠
      buildTransactionsParameter [transactionOf "a" emptyBuckets, transactionOf "b" twoBuckets] ∧
    buildTransactionsParameter twoTransactions ≠ buildTransactionsParameter [transactionOf "a" twoBuckets] ∧
    ∀ text, ¬ (buildAssetParameter twoAssets = ok text ∧
      buildAssetParameter [assetOf "a" "1234", assetOf "b" "56"] = ok text) := by
  obtain ⟨htransactions, hassets⟩ := upload_texts_identify
  have plainTransactions {bucket bucket' : Fin 9 → Option Int64} :
      ∀ m ∈ [transactionOf "a" bucket, transactionOf "b" bucket'], PlainTransaction m := by
    rw [List.forall_mem_cons, List.forall_mem_singleton]
    exact ⟨transactionOf_plain (by decide) _, transactionOf_plain (by decide) _⟩
  have plainAssets (balance balance' : String) :
      ∀ m ∈ [assetOf "a" balance, assetOf "b" balance'], Unbarred m.uId ∧ Unbarred m.date := by
    have hdate : Unbarred (some "20240102".toList) := by decide
    rw [List.forall_mem_cons, List.forall_mem_singleton]
    exact ⟨⟨(by decide : Unbarred (some "a".toList)), hdate⟩, ⟨(by decide : Unbarred (some "b".toList)), hdate⟩⟩
  refine ⟨?_, ?_, ?_⟩
  · intro heq
    have hsame := htransactions _ _ plainTransactions plainTransactions heq
    cases hsame with
    | cons h _ => exact absurd (h.bucket 0) (by decide)
  · intro heq
    have hsame := htransactions _ _ plainTransactions
      (List.forall_mem_singleton.mpr (transactionOf_plain (by decide) twoBuckets)) heq
    exact absurd hsame.length_eq (by decide)
  · rintro text ⟨htext, htext'⟩
    have hsame := hassets _ _ text (plainAssets "1234" "5") (plainAssets "1234" "56") htext htext'
    cases hsame with
    | cons _ hrest =>
      cases hrest with
      | cons h _ => exact absurd h.trxBalance (by decide +kernel)

end TronlinkCore.Metrics
