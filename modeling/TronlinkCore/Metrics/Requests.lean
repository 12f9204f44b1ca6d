import TronlinkCore.Metrics.Ledger

namespace TronlinkCore.Metrics

structure Request.GoesOn (old new : Request) : Prop where
  assets : new.assets = old.assets
  transactions : new.transactions = old.transactions
  processed : old.processed → new.processed
  answered : old.answered → new.answered

theorem Request.GoesOn.refl (r : Request) : r.GoesOn r := ⟨rfl, rfl, id, id⟩

theorem Request.GoesOn.set {requests : List Request} {i : ℕ} {old new : Request} (h : old.GoesOn new)
    (hi : requests[i]? = some old) :
    (∀ r ∈ requests.set i new, ∃ before ∈ requests, before.GoesOn r) ∧
      ∀ r ∈ requests, ∃ after ∈ requests.set i new, r.GoesOn after := by
  have hlt : i < requests.length := (List.getElem?_eq_some_iff.mp hi).1
  constructor
  · intro r hr
    obtain hr | rfl := List.mem_or_eq_of_mem_set hr
    · exact ⟨r, hr, .refl r⟩
    · exact ⟨old, List.mem_of_getElem? hi, h⟩
  · intro r hr
    obtain ⟨j, hj⟩ := List.mem_iff_getElem?.mp hr
    by_cases hij : i = j
    · subst hij
      cases hi.symm.trans hj
      exact ⟨new, List.mem_of_getElem? (List.getElem?_set_self hlt), h⟩
    · refine ⟨r, List.mem_of_getElem? (i := j) ?_, .refl r⟩
      rw [List.getElem?_set_ne hij]
      exact hj

namespace System

def Draining (s : System) (assets : List AssetSyncModel) (transactions : List Snapshot) : Prop :=
  ∃ chain uId, Block.acknowledging chain uId assets transactions ∈ s.queue

def Sent (s : System) (r : Request) : Prop :=
  r.processed = false ∧ (∃ config uId, Block.readingTransactions config uId r.assets ∈ s.queue) ∧
    ∃ chain uId stops, r.transactions = s.snapshots chain uId stops

def Puts (s : System) : Block → Prop
  | .acknowledging _ _ assets transactions =>
    (∃ more moreTransactions, s.Draining more moreTransactions ∧ assets <:+ more ∧ transactions <:+ moreTransactions) ∨
      ∃ r ∈ s.requests, r.processed ∧ r.answered = false ∧ assets = r.assets ∧ transactions = r.transactions
  | .readingTransactions config uId assets =>
    ∃ stops, assets = getUpdatedAssetSyncModels config.environmentKey uId stops s.assets
  | _ => True

structure Quiet (s s' : System) : Prop where
  requests : s'.requests = s.requests
  server : s'.server = s.server
  queue : ∀ block ∈ s'.queue, block ∈ s.queue ∨ s.Puts block

theorem Quiet.of_eq {s s' : System} (hr : s'.requests = s.requests) (hs : s'.server = s.server)
    (hq : s'.queue = s.queue) : s.Quiet s' := ⟨hr, hs, fun _ hb => .inl (hq ▸ hb)⟩

theorem Quiet.popped {s s' : System} {block : Block} {queue : List Block} (hr : s'.requests = s.requests)
    (hs : s'.server = s.server) (hq : s.queue = block :: queue) (hq' : s'.queue = queue) : s.Quiet s' := by
  refine ⟨hr, hs, fun other hother => .inl ?_⟩
  rw [hq, ← hq']
  exact List.mem_cons_of_mem _ hother

theorem Quiet.pushed {s s' : System} {block next : Block} {queue : List Block} (hr : s'.requests = s.requests)
    (hs : s'.server = s.server) (hq : s.queue = block :: queue) (hq' : s'.queue = next :: queue)
    (hnext : s.Puts next) : s.Quiet s' := by
  refine ⟨hr, hs, fun other hother => ?_⟩
  rw [hq'] at hother
  obtain rfl | hother := List.mem_cons.mp hother
  · exact .inr hnext
  · left
    rw [hq]
    exact List.mem_cons_of_mem _ hother

theorem migrateTransaction_requests (s : System) (model : TransactionSyncModel) (works : Bool) :
    (s.migrateTransaction model works).requests = s.requests ∧ (s.migrateTransaction model works).server = s.server ∧
      (s.migrateTransaction model works).queue = s.queue := by
  unfold migrateTransaction
  split <;> exact ⟨rfl, rfl, rfl⟩

variable [CanonicalText]

theorem perform_quiet {s : System} {around : Surroundings} {block : Block} {queue : List Block}
    (hq : s.queue = block :: queue) :
    s.Quiet ({ s with queue }.perform around block) ∨
      ∃ r, s.Sent r ∧ { s with queue }.perform around block = { s with queue, requests := s.requests ++ [r] } := by
  cases block with
  | uploading =>
    left
    rw [perform, begin]
    split
    · exact .popped rfl rfl hq rfl
    · split
      · exact .popped rfl rfl hq rfl
      · split
        · exact .pushed rfl rfl hq rfl trivial
        · exact .pushed rfl rfl hq rfl trivial
  | migrating config assets transactions allSucceeded =>
    left
    cases assets with
    | cons model assets =>
      rw [perform]
      split
      · exact .pushed rfl rfl hq rfl trivial
      · exact .pushed rfl rfl hq rfl trivial
    | nil =>
      cases transactions with
      | nil => exact .pushed rfl rfl hq rfl trivial
      | cons model transactions =>
        obtain ⟨hr, hs, hqueue⟩ := migrateTransaction_requests { s with queue } model around.works
        exact .pushed hr hs hq (congrArg (_ :: ·) hqueue) trivial
  | readingAssets config =>
    left
    rw [perform]
    split
    · exact .pushed rfl rfl hq rfl ⟨around.stops, rfl⟩
    · exact .popped rfl rfl hq rfl
  | readingTransactions config uId assets =>
    simp only [perform]
    split
    · exact .inl (.popped rfl rfl hq rfl)
    · refine .inr ⟨_, ⟨rfl, ⟨config, uId, ?_⟩, config.environmentKey, uId, around.stops, rfl⟩, rfl⟩
      rw [hq]
      exact List.mem_cons_self
  | acknowledging chain uId assets transactions =>
    left
    have hdraining : s.Draining assets transactions := ⟨chain, uId, hq ▸ List.mem_cons_self⟩
    cases assets with
    | cons model assets =>
      exact .pushed rfl rfl hq rfl
        (.inl ⟨_, _, hdraining, List.suffix_cons model assets, List.suffix_refl transactions⟩)
    | nil =>
      cases transactions with
      | nil => exact .pushed rfl rfl hq rfl trivial
      | cons t transactions =>
        exact .pushed rfl rfl hq rfl
          (.inl ⟨_, _, hdraining, List.suffix_refl [], List.suffix_cons t transactions⟩)
  | deletingTransactions chain uId => exact .inl (.popped rfl rfl hq rfl)

variable [Graphemes] [DecimalNumbers]

inductive Flow (s : System) : Action → System → Prop where
  | quiet {a : Action} {s' : System} (h : s.Quiet s') : Flow s a s'
  | sent {a : Action} {queue : List Block} {r : Request} (hr : s.Sent r) (hq : queue ⊆ s.queue) :
      Flow s a { s with queue, requests := s.requests ++ [r] }
  | processed {i : ℕ} {r : Request} (hr : s.requests[i]? = some r) (hp : r.processed = false) :
      Flow s (.process i)
        { s with
          requests := s.requests.set i { r with processed := true }
          server := r.assets.foldl received s.server }
  | answered {i : ℕ} {isUploadSuccess : Option Bool} {r : Request} {queue : List Block}
      (hr : s.requests[i]? = some r) (ha : r.answered = false) (hq : ∀ block ∈ queue, block ∈ s.queue ∨ s.Puts block) :
      Flow s (.answer i isUploadSuccess)
        { s with requests := s.requests.set i { r with answered := true }, queue }

theorem step_flow (s : System) (a : Action) : s.Flow a (s.step a) := by
  cases a with
  | upsertTransactionsData event dataConfig uId date works =>
    refine .quiet ?_
    cases dataConfig with
    | none => exact .of_eq rfl rfl rfl
    | some config =>
      rw [step, saveTransaction]
      split
      · exact .of_eq rfl rfl rfl
      · exact .of_eq rfl rfl rfl
  | upsertAssetData model dataConfig works =>
    refine .quiet ?_
    rw [step]
    split
    · exact .of_eq rfl rfl rfl
    · exact .of_eq rfl rfl rfl
  | uploadStatisticalData dataConfig =>
    refine .quiet ?_
    rw [step]
    split
    · exact .of_eq rfl rfl rfl
    · refine ⟨rfl, rfl, fun block hb => ?_⟩
      obtain hb | hb := List.mem_append.mp hb
      · exact .inl hb
      · rw [List.mem_singleton.mp hb]
        exact .inr trivial
  | proceed around =>
    rw [step]
    split
    · exact .quiet (.of_eq rfl rfl rfl)
    · rename_i block queue hq
      obtain hquiet | ⟨r, hr, heq⟩ := perform_quiet hq
      · exact .quiet hquiet
      · rw [heq]
        refine .sent hr ?_
        rw [hq]
        exact List.subset_cons_self _ _
  | process i =>
    rw [step, process]
    split
    · rename_i r hr
      split
      · exact .quiet (.of_eq rfl rfl rfl)
      · rename_i hp
        exact .processed hr (by simpa using hp)
    · exact .quiet (.of_eq rfl rfl rfl)
  | answer i isUploadSuccess =>
    rw [step, answer]
    split
    · rename_i r hr
      split
      · exact .quiet (.of_eq rfl rfl rfl)
      · rename_i hguard
        have ha : r.answered = false := by
          simpa using fun ha => hguard (.inl ha)
        refine .answered hr ha ?_
        split
        · rename_i hsuccess
          have hp : r.processed := by
            by_contra hp
            exact hguard (.inr ⟨hsuccess, hp⟩)
          intro block hb
          obtain hb | hb := List.mem_append.mp hb
          · exact .inl hb
          · rw [List.mem_singleton.mp hb]
            exact .inr (.inr ⟨r, List.mem_of_getElem? hr, hp, ha, rfl, rfl⟩)
        · exact fun block hb => .inl hb
    · exact .quiet (.of_eq rfl rfl rfl)

theorem step_requests (s : System) (a : Action) :
    (∀ r ∈ (s.step a).requests, (∃ old ∈ s.requests, old.GoesOn r) ∨
      s.Sent r ∧ (s.step a).transactions = s.transactions ∧ (s.step a).ledger = s.ledger) ∧
    ∀ old ∈ s.requests, ∃ r ∈ (s.step a).requests, old.GoesOn r := by
  have hflow := step_flow s a
  generalize s.step a = s' at hflow
  cases hflow with
  | quiet h =>
    rw [h.requests]
    exact ⟨fun r hr => .inl ⟨r, hr, .refl r⟩, fun r hr => ⟨r, hr, .refl r⟩⟩
  | sent hr hq =>
    constructor
    · intro r hm
      obtain hm | hm := List.mem_append.mp hm
      · exact .inl ⟨r, hm, .refl r⟩
      · rw [List.mem_singleton.mp hm]
        exact .inr ⟨hr, rfl, rfl⟩
    · intro r hm
      exact ⟨r, List.mem_append_left _ hm, .refl r⟩
  | @processed i r hr hp =>
    have hgoes : r.GoesOn { r with processed := true } := ⟨rfl, rfl, fun _ => rfl, id⟩
    obtain ⟨hback, hforth⟩ := hgoes.set hr
    exact ⟨fun r hm => .inl (hback r hm), hforth⟩
  | @answered i isUploadSuccess r queue hr ha hq =>
    have hgoes : r.GoesOn { r with answered := true } := ⟨rfl, rfl, id, fun _ => rfl⟩
    obtain ⟨hback, hforth⟩ := hgoes.set hr
    exact ⟨fun r hm => .inl (hback r hm), hforth⟩

theorem step_queue (s : System) (a : Action) : ∀ block ∈ (s.step a).queue, block ∈ s.queue ∨ s.Puts block := by
  have hflow := step_flow s a
  generalize s.step a = s' at hflow
  cases hflow with
  | quiet h => exact h.queue
  | sent hr hq => exact fun block hb => .inl (hq hb)
  | processed hr hp => exact fun block hb => .inl hb
  | answered hr ha hq => exact hq

end System

end TronlinkCore.Metrics
