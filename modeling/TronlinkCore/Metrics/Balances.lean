import TronlinkCore.Metrics.Requests

/-!
The balances that an acknowledgement takes for reported are the last ones that
the server has processed, unless the server processes two different records of
one row before the first of them is acknowledged.
-/

namespace TronlinkCore.Metrics

def Distinct (assets : List AssetSyncModel) : Prop :=
  assets.Pairwise fun model later => ∀ key, model.storedKey = some key → later.storedKey ≠ some key

theorem getUpdatedAssetSyncModels_distinct (chain uId : Text) (stops : Option ℕ) (table : AssetSyncTable) :
    Distinct (getUpdatedAssetSyncModels chain uId stops table) := by
  refine List.pairwise_map.mpr ?_
  exact table.unique.sublist ((fetched_sublist _ _).trans List.filter_sublist)

theorem received_of_ne {server : AssetKey → Option AssetSyncModel} {model : AssetSyncModel} {key : AssetKey}
    (h : model.storedKey ≠ some key) : received server model key = server key := by
  unfold received
  cases hstored : model.storedKey with
  | none => rfl
  | some stored =>
    apply Function.update_of_ne
    rintro rfl
    exact h hstored

theorem foldl_received_of_ne {assets : List AssetSyncModel} {key : AssetKey}
    (h : ∀ model ∈ assets, model.storedKey ≠ some key) (server : AssetKey → Option AssetSyncModel) :
    assets.foldl received server key = server key := by
  induction assets generalizing server with
  | nil => rfl
  | cons model assets ih =>
    have hmodel := h model List.mem_cons_self
    have hassets := fun later hl => h later (List.mem_cons_of_mem model hl)
    rw [List.foldl_cons, ih hassets, received_of_ne hmodel]

theorem foldl_received {assets : List AssetSyncModel} (hd : Distinct assets) {model : AssetSyncModel}
    (hm : model ∈ assets) {key : AssetKey} (hkey : model.storedKey = some key)
    (server : AssetKey → Option AssetSyncModel) : assets.foldl received server key = some model := by
  induction assets generalizing server with
  | nil => cases hm
  | cons first assets ih =>
    obtain ⟨hfirst, hd⟩ := List.pairwise_cons.mp hd
    rw [List.foldl_cons]
    obtain rfl | hm := List.mem_cons.mp hm
    · rw [foldl_received_of_ne fun later hl => hfirst later hl key hkey, received, hkey]
      exact Function.update_self _ _ _
    · exact ih hd hm (received server first)

theorem acknowledgeUploadedAsset_eq_some [CanonicalText] {uploaded : AssetSyncModel} {works : Bool}
    {table table' : AssetSyncTable} (h : acknowledgeUploadedAsset uploaded works table = some table') :
    ∃ key row, uploaded.storedKey = some key ∧ table.find? key = some row ∧
      sameAsset (makeAssetSync row) uploaded := by
  simp only [acknowledgeUploadedAsset, Option.bind_eq_bind, Option.bind_eq_some_iff] at h
  obtain ⟨chain, hchain, uId, huId, date, hdate, row, hrow, h⟩ := h
  split at h
  · rename_i hguard
    refine ⟨_, row, ?_, hrow, hguard.2.1⟩
    simp [AssetSyncModel.storedKey, hchain, huId, hdate]
  · cases h

namespace System

/-- The server has processed the record, and it may still be acknowledged. -/
def Served (s : System) (model : AssetSyncModel) : Prop :=
  (∃ r ∈ s.requests, r.processed ∧ r.answered = false ∧ model ∈ r.assets) ∨
    ∃ assets transactions, s.Draining assets transactions ∧ model ∈ assets

def AcknowledgingAsset (s : System) (model : AssetSyncModel) : Prop :=
  ∃ chain uId assets transactions queue, s.queue = .acknowledging chain uId (model :: assets) transactions :: queue

/-- The server processes no record while another one of the same row is processed and may still be acknowledged. -/
def Consistent (s : System) : Action → Prop
  | .process i => ∀ r, s.requests[i]? = some r → r.processed = false → ∀ model ∈ r.assets, ∀ other, s.Served other →
      ∀ key, model.storedKey = some key → other.storedKey = some key → other = model
  | _ => True

structure Reported (s : System) : Prop where
  served : ∀ model key, s.Served model → model.storedKey = some key → s.server key = some model
  distinct : ∀ r ∈ s.requests, Distinct r.assets
  reading : ∀ config uId assets, Block.readingTransactions config uId assets ∈ s.queue → Distinct assets

theorem Reported.of_initial {s : System} (h : s.Initial) : s.Reported := by
  constructor
  · rintro model key (⟨r, hr, _⟩ | ⟨assets, transactions, ⟨chain, uId, hb⟩, _⟩)
    · rw [h.requests] at hr
      cases hr
    · rw [h.queue] at hb
      cases hb
  · intro r hr
    rw [h.requests] at hr
    cases hr
  · intro config uId assets hb
    rw [h.queue] at hb
    cases hb

theorem served_of_draining {s s' : System} (hqueue : ∀ block ∈ s'.queue, block ∈ s.queue ∨ s.Puts block)
    {assets : List AssetSyncModel} {transactions : List Snapshot} (h : s'.Draining assets transactions)
    {model : AssetSyncModel} (hm : model ∈ assets) : s.Served model := by
  obtain ⟨chain, uId, hb⟩ := h
  obtain hold | ⟨more, moreTransactions, hd, hsuffix, _⟩ | ⟨r, hr, hp, ha, rfl, _⟩ := hqueue _ hb
  · exact .inr ⟨assets, transactions, ⟨chain, uId, hold⟩, hm⟩
  · exact .inr ⟨more, moreTransactions, hd, hsuffix.subset hm⟩
  · exact .inl ⟨r, hr, hp, ha, hm⟩

section

variable [CanonicalText] [Graphemes] [DecimalNumbers]

theorem served_step {s : System} {a : Action} {model : AssetSyncModel} (h : (s.step a).Served model) :
    s.Served model ∨ ∃ i r, a = .process i ∧ s.requests[i]? = some r ∧ r.processed = false ∧ model ∈ r.assets := by
  obtain ⟨r, hr, hp, ha, hm⟩ | ⟨assets, transactions, hd, hm⟩ := h
  · have hflow := step_flow s a
    generalize s.step a = s' at hflow hr
    cases hflow with
    | quiet hquiet =>
      rw [hquiet.requests] at hr
      exact .inl (.inl ⟨r, hr, hp, ha, hm⟩)
    | sent hsent _ =>
      obtain hr | hr := List.mem_append.mp hr
      · exact .inl (.inl ⟨r, hr, hp, ha, hm⟩)
      · rw [List.mem_singleton.mp hr, hsent.1] at hp
        cases hp
    | @processed i request hrequest hnot =>
      obtain hr | rfl := List.mem_or_eq_of_mem_set hr
      · exact .inl (.inl ⟨r, hr, hp, ha, hm⟩)
      · exact .inr ⟨i, request, rfl, hrequest, hnot, hm⟩
    | answered hrequest hnot _ =>
      obtain hr | rfl := List.mem_or_eq_of_mem_set hr
      · exact .inl (.inl ⟨r, hr, hp, ha, hm⟩)
      · cases ha
  · exact .inl (served_of_draining (step_queue s a) hd hm)

theorem process_server {s : System} {i : ℕ} {r : Request} (hr : s.requests[i]? = some r) (hp : r.processed = false) :
    (s.step (.process i)).server = r.assets.foldl received s.server := by
  simp [System.step, process, hr, hp]

theorem server_step (s : System) (a : Action) : (s.step a).server = s.server ∨
    ∃ i r, a = .process i ∧ s.requests[i]? = some r ∧ r.processed = false := by
  have hflow := step_flow s a
  generalize s.step a = s' at hflow
  cases hflow with
  | quiet h => exact .inl h.server
  | sent _ _ => exact .inl rfl
  | @processed i r hr hp => exact .inr ⟨i, r, rfl, hr, hp⟩
  | answered _ _ _ => exact .inl rfl

theorem Reported.served_step {s : System} {a : Action} (h : s.Reported) (ha : s.Consistent a) {model : AssetSyncModel}
    {key : AssetKey} (hm : (s.step a).Served model) (hkey : model.storedKey = some key) :
    (s.step a).server key = some model := by
  obtain hold | ⟨i, r, rfl, hr, hp, hmem⟩ := System.served_step hm
  · obtain hsame | ⟨i, r, rfl, hr, hp⟩ := server_step s a
    · rw [hsame]
      exact h.served model key hold hkey
    · rw [process_server hr hp]
      by_cases hnew : ∃ new ∈ r.assets, new.storedKey = some key
      · obtain ⟨new, hnew, hnewkey⟩ := hnew
        cases ha r hr hp new hnew model hold key hnewkey hkey
        exact foldl_received (h.distinct r (List.mem_of_getElem? hr)) hnew hkey _
      · rw [foldl_received_of_ne]
        · exact h.served model key hold hkey
        · exact fun new hmem hnewkey => hnew ⟨new, hmem, hnewkey⟩
  · rw [process_server hr hp]
    exact foldl_received (h.distinct r (List.mem_of_getElem? hr)) hmem hkey _

theorem Reported.step {s : System} {a : Action} (h : s.Reported) (ha : s.Consistent a) : (s.step a).Reported where
  served _ _ hm hkey := h.served_step ha hm hkey
  distinct r hr := by
    obtain ⟨old, hold, hgoes⟩ | ⟨⟨_, ⟨config, uId, hb⟩, _⟩, _⟩ := (step_requests s a).1 r hr
    · rw [hgoes.assets]
      exact h.distinct old hold
    · exact h.reading config uId r.assets hb
  reading config uId assets hb := by
    obtain hb | ⟨stops, rfl⟩ := step_queue s a _ hb
    · exact h.reading config uId assets hb
    · exact getUpdatedAssetSyncModels_distinct _ _ _ _

theorem reported {s : System} (h : Run Consistent s) : s.Reported :=
  h.invariant (fun _ hs => .of_initial hs) fun _ _ ha hr => hr.step ha

theorem no_balance_is_stale {s : System} (h : Run Consistent s) {model : AssetSyncModel}
    (hm : s.AcknowledgingAsset model) {works : Bool} {table : AssetSyncTable}
    (hack : acknowledgeUploadedAsset model works s.assets = some table) :
    ∃ key row record, model.storedKey = some key ∧ s.assets.find? key = some row ∧ s.server key = some record ∧
      sameAsset (makeAssetSync row) record := by
  obtain ⟨key, row, hkey, hrow, hsame⟩ := acknowledgeUploadedAsset_eq_some hack
  obtain ⟨chain, uId, assets, transactions, queue, hq⟩ := hm
  have hserved : s.Served model :=
    .inr ⟨model :: assets, transactions, ⟨chain, uId, hq ▸ List.mem_cons_self⟩, List.mem_cons_self⟩
  exact ⟨key, row, model, hkey, hrow, (reported h).served model key hserved hkey, hsame⟩

end

def settled (s : System) : Bool := s.queue.isEmpty && s.requests.all fun r => !r.processed || r.answered

theorem consistent_of_settled (s : System) (a : Action) (h : s.settled || !(a matches .process _)) :
    s.Consistent a := by
  cases a with
  | process i =>
    have h : s.settled := by simpa using h
    obtain ⟨hq, hrequests⟩ := Bool.and_eq_true_iff.mp h
    rintro r _ _ model _ other (⟨served, hr, hp, ha, _⟩ | ⟨assets, transactions, ⟨chain, uId, hb⟩, _⟩)
    · have hserved := List.all_eq_true.mp hrequests served hr
      simp [hp, ha] at hserved
    · rw [List.isEmpty_iff.mp hq] at hb
      cases hb
  | _ => trivial

section

attribute [local instance] plainText precomposedText wholeNumbers

def sampleBalance (trxBalance : Text) : AssetSyncModel where
  uId := some sampleUId
  idType := some 1
  trxBalance := some trxBalance
  usdtBalance := some "20".toList
  usdBalance := some "23".toList
  date := some sampleDay
  chain := some sampleSource.environmentKey
  updated := some true

def sampleBalanceWrite (trxBalance : Text) : Action :=
  .upsertAssetData (sampleBalance trxBalance) (some sampleSource) true

def reportedActions : List Action :=
  sampleBalanceWrite "1".toList :: sampleUpload ++ [.process 0, .answer 0 (some true)]

theorem no_balance_is_stale_sample :
    ∃ key row record, (sampleBalance "1".toList).storedKey = some key ∧
      (reportedActions.foldl step sampleSystem).assets.find? key = some row ∧
      (reportedActions.foldl step sampleSystem).server key = some record ∧ sameAsset (makeAssetSync row) record := by
  have hrun : Run Consistent (reportedActions.foldl step sampleSystem) :=
    .foldl consistent_of_settled (.start sampleSystem_initial) (by decide +kernel)
  obtain ⟨table, htable⟩ : ∃ table, acknowledgeUploadedAsset (sampleBalance "1".toList) true
      (reportedActions.foldl step sampleSystem).assets = some table :=
    Option.isSome_iff_exists.mp (by decide +kernel)
  exact no_balance_is_stale hrun ⟨sampleSource.environmentKey, sampleUId, [], [], [], rfl⟩ htable

/-- The balance comes back to the first of two records that the server has processed in order. -/
def staleActions : List Action :=
  sampleBalanceWrite "1".toList :: sampleUpload ++ sampleBalanceWrite "2".toList :: sampleUpload ++
    [sampleBalanceWrite "1".toList, .process 0, .process 1, .answer 0 (some true)]

theorem balance_may_be_stale :
    ∃ s model table key row record, Run (fun _ _ => True) s ∧ s.AcknowledgingAsset model ∧
      acknowledgeUploadedAsset model true s.assets = some table ∧ model.storedKey = some key ∧
      s.assets.find? key = some row ∧ row.updated = some 1 ∧ s.server key = some record ∧
      ¬ sameAsset (makeAssetSync row) record := by
  have hrun : Run (fun _ _ => True) (staleActions.foldl step sampleSystem) :=
    .foldl (fun _ _ _ => trivial) (.start sampleSystem_initial)
      (by decide +kernel : sampleSystem.allows (fun _ _ => true) staleActions)
  obtain ⟨table, htable⟩ : ∃ table, acknowledgeUploadedAsset (sampleBalance "1".toList) true
      (staleActions.foldl step sampleSystem).assets = some table :=
    Option.isSome_iff_exists.mp (by decide +kernel)
  refine ⟨_, sampleBalance "1".toList, table, ⟨sampleSource.environmentKey, sampleUId, sampleDay⟩, _,
    sampleBalance "2".toList, hrun, ⟨sampleSource.environmentKey, sampleUId, [], [], [], rfl⟩, htable, rfl,
    (by decide +kernel : _ = some ⟨some sampleUId, some 1, some "1".toList, some "20".toList, some "23".toList,
      some sampleDay, some sampleSource.environmentKey, some 1⟩), rfl, (by decide +kernel), by decide +kernel⟩

end

end System

end TronlinkCore.Metrics
