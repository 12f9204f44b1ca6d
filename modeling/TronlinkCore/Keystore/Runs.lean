import TronlinkCore.Keystore.Durability
import TronlinkCore.Keystore.Rekeying

namespace TronlinkCore.Keystore

open Throwing Io

variable {Document : Type}

def Mutation.Within (returned : Set Account) : Mutation Document → Prop
  | .update account _ _ _ | .delete account _ => account ∈ returned
  | .addAccount _ => False
  | _ => True

theorem generateFileName_shown (directory : Text) (address : Address) (timestamp : Text) :
    URL.ShownIn directory ⟨directory, KeyStore.generateFileName address timestamp⟩ := ⟨rfl, rfl⟩

theorem some_map_eq_ok {s t : Session Document} {α : Type} {x : Io Document α} {result : Option α}
    (h : (some <$> x) s = (.ok result, t)) : ∃ a, result = some a ∧ x s = (.ok a, t) := by
  change (x >>= fun a => pure (some a)) s = _ at h
  rw [bind_eq_ok] at h
  obtain ⟨a, u, ha, h⟩ := h
  cases h
  exact ⟨a, rfl, ha⟩

theorem pure_none_eq_ok {s t : Session Document} {x : Io Document Unit} {result : Option Account}
    (h : (do x; pure none) s = (.ok result, t)) : x s = (.ok (), t) := by
  rw [bind_eq_ok] at h
  obtain ⟨a, u, ha, h⟩ := h
  cases h
  exact ha

section

variable [JsonCoder Document] [Crypto]

theorem empty_mirrored {s : Session Document} (hdisk : s.disk = ∅) (ha : s.store.accountsByAddress = ∅)
    (hk : s.store.keysByAddress = ∅) (hp : s.store.pendingAccountURLs = []) : Mirrored s := by
  refine ⟨fun address => .inl ?_, fun url _ => .inl ?_, ?_⟩
  · rw [ha, hk]
    exact ⟨rfl, rfl⟩
  · rw [hdisk]
    rfl
  · rintro url ⟨_, hpending | hlisting⟩
    · rw [hp] at hpending
      cases hpending
    · rw [hdisk]
      exact ⟨hlisting.2.2, rfl⟩

theorem install_mirrored {s t : Session Document} {draws : Draws} (h : Mirrored s) {key : KeystoreKey} {account : Account}
    (hrun : KeyStore.install draws key account s = (.ok (), t))
    (hnew : s.store.accountsByAddress.lookup key.address = none)
    (hurl : account.url = ⟨s.store.keyDirectory, KeyStore.generateFileName account.address draws.timestamp⟩)
    (hfresh : s.disk.lookup account.url = none) (ha : account.address = key.address) (hst : key.Storable) :
    Mirrored t := by
  obtain ⟨hreadable, v, hw, rfl⟩ := install_eq_ok hrun
  apply h.install hreadable hw hnew _ hfresh ha hst
  rw [hurl]
  exact generateFileName_shown _ _ _

variable [Graphemes]

def Mutation.Installs (draws : Draws) (address : Address) : Mutation Document → Prop
  | .createAccount password type => ∃ key, KeystoreKey.generate draws password type = .ok key ∧ key.address = address
  | .importJson json password newPassword => ∃ key newKey, KeystoreKey.decode json = .ok key ∧
    KeystoreKey.reimport draws key password newPassword = .ok newKey ∧ newKey.address = address
  | .importMnemonic mnemonic passphrase derivationPath _ normalization => ∃ sk,
    Wallet.privateKey mnemonic passphrase derivationPath normalization = .ok sk ∧
      decodeAddress (Crypto.publicKey65 sk) = .ok address
  | .addAccount _ | .update _ _ _ _ | .delete _ _ => False

def Mutation.Fresh (draws : Draws) (s : Session Document) (mutation : Mutation Document) : Prop :=
  ∀ address, mutation.Installs draws address →
    s.disk.lookup ⟨s.store.keyDirectory, KeyStore.generateFileName address draws.timestamp⟩ = none

/-- A run from an empty directory, with the accounts that the store has returned
on the way. Any of the accesses of a call can fail. -/
inductive Run (directory : Text) (Allowed : Session Document → Draws → Mutation Document → Prop) :
    Set Account → Session Document → Prop where
  | opened (faults : List Bool) : Run directory Allowed ∅ (KeyStore.opened directory ∅ faults)
  | accounts {returned : Set Account} {s t : Session Document} (faults : List Bool) {accounts : List Account} :
    Run directory Allowed returned s → KeyStore.accounts (s.withFaults faults) = (.ok accounts, t) →
    Run directory Allowed (returned ∪ { account | account ∈ accounts }) t
  | account {returned : Set Account} {s t : Session Document} (faults : List Bool) (address : Address)
    {found : Option Account} :
    Run directory Allowed returned s → KeyStore.account address (s.withFaults faults) = (.ok found, t) →
    Run directory Allowed (returned ∪ { account | found = some account }) t
  | call {returned : Set Account} {s t : Session Document} (faults : List Bool) (draws : Draws)
    (mutation : Mutation Document) {result : Option Account} :
    Run directory Allowed returned s → mutation.Within returned → mutation.Fresh draws s →
    Allowed s draws mutation → mutation.perform draws (s.withFaults faults) = (.ok result, t) →
    Run directory Allowed (returned ∪ { account | result = some account }) t
  | thrown {returned : Set Account} {s t : Session Document} (faults : List Bool) (draws : Draws)
    (mutation : Mutation Document) {failure : Failure} :
    Run directory Allowed returned s → mutation.Within returned → mutation.Fresh draws s →
    Allowed s draws mutation → mutation.perform draws (s.withFaults faults) = (.error failure, t) →
    Run directory Allowed returned t

/-- No address gets a second file: a generated one is new, and a password
change that comes through names the file of the account that is listed now. -/
def Mutation.OneFile (s : Session Document) (draws : Draws) : Mutation Document → Prop
  | .createAccount password type => ∀ key, KeystoreKey.generate draws password type = .ok key →
    s.store.accountsByAddress.lookup key.address = none
  | .update account password newPassword derivationPath => ∀ stored key newKey,
    s.store.accountsByAddress.lookup account.address = some stored →
    s.store.keysByAddress.lookup account.address = some key →
    KeystoreKey.rekey draws key password newPassword (derivationPath.getD key.derivationPath) = .ok newKey →
    account.url = stored.url
  | _ => True

section

variable {s t : Session Document} {draws : Draws}

theorem installNew_mirrored (h : Mirrored s) {key : KeystoreKey} {account : Account}
    (hrun : KeyStore.installNew draws key account s = (.ok (), t))
    (hurl : account.url = ⟨s.store.keyDirectory, KeyStore.generateFileName account.address draws.timestamp⟩)
    (hfresh : s.disk.lookup account.url = none) (ha : account.address = key.address) (hst : key.Storable) :
    Mirrored t := by
  obtain ⟨hnew, hinstall⟩ := installNew_eq_ok hrun
  have hreads := retried_reads s
  apply install_mirrored h.retried hinstall hnew _ _ ha hst
  · rw [hreads.extended.directory]
    exact hurl
  · rw [hreads.extended.disk]
    exact hfresh

theorem perform_mirrored (h : Mirrored s) {mutation : Mutation Document} {returned : Set Account}
    {result : Option Account} (hin : mutation.Within returned) (hfresh : mutation.Fresh draws s)
    (hone : mutation.OneFile s draws) (hrun : mutation.perform draws s = (.ok result, t)) : Mirrored t := by
  have hreads := retried_reads s
  have hsame := h.retried.same (retried_reads (retried s)).unchanged
  cases mutation with
  | createAccount password type =>
    obtain ⟨account, rfl, hcall⟩ := some_map_eq_ok hrun
    obtain ⟨key, hkey, rfl, hinstall⟩ := createAccount_eq_ok hcall
    apply install_mirrored h.retried hinstall _ _ _ rfl (generate_storable hkey)
    · rw [(h.same hreads.unchanged key.address).1]
      exact hone key hkey
    · rw [hreads.extended.directory]
    · rw [hreads.extended.disk]
      exact hfresh key.address ⟨key, hkey, rfl⟩
  | addAccount account => exact hin.elim
  | importJson json password newPassword =>
    obtain ⟨account, rfl, hcall⟩ := some_map_eq_ok hrun
    obtain ⟨key, newKey, hdecode, hnew, rfl, hinstall⟩ := importJson_eq_ok hcall
    apply installNew_mirrored h.retried hinstall rfl _ rfl (reimport_storable hnew)
    rw [hreads.extended.disk, hreads.extended.directory]
    exact hfresh newKey.address ⟨key, newKey, hdecode, hnew, rfl⟩
  | importMnemonic mnemonic passphrase derivationPath encryptPassword normalization =>
    obtain ⟨account, rfl, hcall⟩ := some_map_eq_ok hrun
    obtain ⟨sk, address, newKey, hsk, haddress, hnew, rfl, hinstall⟩ := importMnemonic_eq_ok hcall
    have ha := ofMnemonic_address hsk haddress hnew
    apply installNew_mirrored h.retried hinstall rfl _ ha.symm (preserving_eq_ok (ofMnemonic_eq_ok hnew)).1
    rw [hreads.extended.disk, hreads.extended.directory]
    exact hfresh address ⟨sk, hsk, haddress⟩
  | update account password newPassword derivationPath =>
    obtain ⟨key, newKey, v, hkey, hnew, haddress, hreadable, hw, rfl⟩ := update_eq_ok (pure_none_eq_ok hrun)
    obtain ⟨stored, hstored⟩ := h.retried.stored_of_key hkey
    have hurl : account.url = stored.url := by
      apply hone stored key newKey _ _ hnew
      · rw [← (h.same hreads.unchanged account.address).1]
        exact hstored.listed
      · rw [← (h.same hreads.unchanged account.address).2]
        exact hkey
    have hreads' := retried_reads (retried s)
    have hstored' : Stored (retried (retried s)) account.address stored key := by
      apply hstored.transport hreads'.extended.directory (hsame _).1 (hsame _).2
      rw [hreads'.extended.disk]
    exact h.retried.retried.update hreadable hstored' (hurl ▸ hw) (haddress.trans hstored.keyAddress) (rekey_storable hnew)
  | delete account password =>
    obtain ⟨stored, v, hlisted, hreadable, hs, hd, rfl⟩ := delete_eq_ok (pure_none_eq_ok hrun)
    rw [← (hsame account.address).1] at hlisted
    obtain ⟨key, hstored⟩ := h.retried.retried.stored_of_account hlisted
    exact h.retried.retried.delete hreadable hstored hs hd

end

theorem opened_mirrored (directory : Text) (faults : List Bool) :
    Mirrored (KeyStore.opened directory ∅ faults : Session Document) := by
  let closed : Session Document := ⟨KeyStore.closed directory, ∅, faults⟩
  obtain ⟨⟨b, hs⟩, hd⟩ := listDirectory_quiet closed
  change Mirrored (KeyStore.loadListing (KeyStore.listDirectory closed).1 (KeyStore.listDirectory closed).2).2
  have hlist : ∀ urls, (KeyStore.listDirectory closed).1 = .ok urls → urls = [] :=
    fun urls hurls => listDirectory_eq_ok (run_of_fst hurls)
  generalize KeyStore.listDirectory closed = listed at *
  obtain ⟨result, s⟩ := listed
  dsimp only at hs hd hlist
  cases result with
  | error failure =>
    change Mirrored (s.withStore (KeyStore.setListingPending true))
    refine empty_mirrored hd ?_ ?_ ?_
    · rw [Session.withStore, hs]
      rfl
    · rw [Session.withStore, hs]
      rfl
    · rw [Session.withStore, hs]
      rfl
  | ok urls =>
    obtain rfl := hlist urls rfl
    change Mirrored ((s.withStore (KeyStore.setListingPending false)).withStore KeyStore.clearPending)
    refine empty_mirrored hd ?_ ?_ rfl
    · rw [Session.withStore, Session.withStore, hs]
      rfl
    · rw [Session.withStore, Session.withStore, hs]
      rfl

theorem run_survives {directory : Text} {returned : Set Account} {s : Session Document}
    (h : Run directory Mutation.OneFile returned s) : Survives s := by
  have hmirrored : Mirrored s := by
    induction h with
    | opened faults => exact opened_mirrored directory faults
    | accounts faults _ hrun ih =>
      rw [accounts_run, Prod.mk.injEq] at hrun
      rw [← hrun.2]
      exact (ih.unchanged ((withFaults_reads faults _).unchanged)).retried
    | account faults address _ hrun ih =>
      rw [account_run, Prod.mk.injEq] at hrun
      rw [← hrun.2]
      exact (ih.unchanged ((withFaults_reads faults _).unchanged)).retried
    | call faults draws mutation _ hin hfresh hone hrun ih =>
      exact perform_mirrored (ih.unchanged ((withFaults_reads faults _).unchanged)) hin hfresh
        (by cases mutation <;> exact hone) hrun
    | thrown faults draws mutation _ _ _ _ hrun ih =>
      exact (ih.unchanged ((withFaults_reads faults _).unchanged)).unchanged (thrown_unchanged hrun)
  exact hmirrored.survives

end

section

attribute [local instance] knownAnswers plainFiles plainText

def sampleDirectory : Text := "keystore".toList

def sampleAccountAt (timestamp : Text) : Account :=
  ⟨sampleKey.address, .encryptedKey, sampleDirectory, KeyStore.generateFileName sampleKey.address timestamp⟩

def sampleImport : Mutation (Option Json) := .importJson sampleKey.encode "p".toList "p".toList

def changePassword (account : Account) : Mutation (Option Json) := .update account "p".toList "q".toList none

def afterCall (mutation : Mutation (Option Json)) (timestamp : Text) (s : Session (Option Json)) :
    Session (Option Json) := (mutation.perform (sampleDraws timestamp) (s.withFaults [])).2

def imported : Session (Option Json) := afterCall sampleImport "1".toList (KeyStore.opened sampleDirectory ∅ [])

theorem fresh_of_keys {s : Session (Option Json)} (h : s.disk.keys = []) (draws : Draws)
    (mutation : Mutation (Option Json)) : mutation.Fresh draws s := by
  have hnone : ∀ url, s.disk.lookup url = none := by
    intro url
    rw [AList.lookup_eq_none, AList.mem_keys, h]
    exact List.not_mem_nil
  exact fun _ _ => hnone _

-- One evaluation for both calls on the imported account
theorem imported_trace :
    (sampleImport.perform (sampleDraws "1".toList) ((KeyStore.opened sampleDirectory ∅ []).withFaults [])).1 =
        .ok (some (sampleAccountAt "1".toList)) ∧
      imported.store.accountsByAddress.lookup sampleKey.address = some (sampleAccountAt "1".toList) ∧
      ((changePassword (sampleAccountAt "1".toList)).perform (sampleDraws []) (imported.withFaults [])).1 = .ok none := by
  decide +kernel

theorem imported_run (Allowed : Session (Option Json) → Draws → Mutation (Option Json) → Prop)
    (h : Allowed (KeyStore.opened sampleDirectory ∅ []) (sampleDraws "1".toList) sampleImport) :
    Run sampleDirectory Allowed (∅ ∪ { account | some (sampleAccountAt "1".toList) = some account }) imported :=
  .call [] _ sampleImport (.opened []) trivial (fresh_of_keys (by decide +kernel) _ _) h
    (run_of_fst imported_trace.1)

theorem run_survives_sample : Survives (afterCall (changePassword (sampleAccountAt "1".toList)) [] imported) := by
  have hone : (changePassword (sampleAccountAt "1".toList)).OneFile imported (sampleDraws []) := by
    intro stored key newKey hstored _ _
    rw [show (sampleAccountAt "1".toList).address = sampleKey.address from rfl, imported_trace.2.1,
      Option.some.injEq] at hstored
    rw [hstored]
  exact run_survives (.call [] (sampleDraws []) (changePassword (sampleAccountAt "1".toList))
    (imported_run Mutation.OneFile trivial) (Or.inr rfl) (fun _ => False.elim) hone (run_of_fst imported_trace.2.2))

def deletedThere : Session (Option Json) := afterCall (.delete (sampleAccountAt "1".toList) "p".toList) [] imported

def importedAgain : Session (Option Json) := afterCall sampleImport "2".toList deletedThere

def changedThroughOld : Session (Option Json) := afterCall (changePassword (sampleAccountAt "1".toList)) [] importedAgain

def deletedThroughNew : Session (Option Json) :=
  afterCall (.delete (sampleAccountAt "2".toList) "q".toList) [] changedThroughOld

-- One evaluation for the whole trace, as every call starts where the one before it ended.
theorem stale_trace :
    ((Mutation.delete (sampleAccountAt "1".toList) "p".toList).perform (sampleDraws []) (imported.withFaults [])).1 =
        .ok none ∧
      deletedThere.disk.keys = [] ∧
      (sampleImport.perform (sampleDraws "2".toList) (deletedThere.withFaults [])).1 =
        .ok (some (sampleAccountAt "2".toList)) ∧
      ((changePassword (sampleAccountAt "1".toList)).perform (sampleDraws []) (importedAgain.withFaults [])).1 =
        .ok none ∧
      ((Mutation.delete (sampleAccountAt "2".toList) "q".toList).perform (sampleDraws [])
        (changedThroughOld.withFaults [])).1 = .ok none ∧
      (KeyStore.key sampleKey.address
          (KeyStore.opened deletedThroughNew.store.keyDirectory deletedThroughNew.disk [])).1 ≠
        (KeyStore.key sampleKey.address deletedThroughNew).1 := by
  decide +kernel

/-- The account is imported again after its deletion; the caller changes the
password through the old value and deletes the new one. -/
theorem stale_account_undoes_deletion : ¬ ∀ (returned : Set Account) (s t : Session (Option Json)) (faults : List Bool)
    (draws : Draws) (mutation : Mutation (Option Json)) (result : Option Account),
    Run sampleDirectory (fun _ _ _ => True) returned s → mutation.Within returned → mutation.Fresh draws s →
    mutation.perform draws (s.withFaults faults) = (.ok result, t) → Survives t := by
  intro h
  obtain ⟨hdelete, hempty, himport, hchange, hlast, hback⟩ := stale_trace
  have hdeleted : Run sampleDirectory (fun _ _ _ => True) _ deletedThere :=
    .call [] (sampleDraws []) (.delete (sampleAccountAt "1".toList) "p".toList) (imported_run _ trivial) (Or.inr rfl)
      (fun _ => False.elim) trivial (run_of_fst hdelete)
  have hagain : Run sampleDirectory (fun _ _ _ => True) _ importedAgain :=
    .call [] (sampleDraws "2".toList) sampleImport hdeleted trivial (fresh_of_keys hempty _ _) trivial
      (run_of_fst himport)
  have hchanged : Run sampleDirectory (fun _ _ _ => True) _ changedThroughOld :=
    .call [] (sampleDraws []) (changePassword (sampleAccountAt "1".toList)) hagain (Or.inl (Or.inl (Or.inr rfl)))
      (fun _ => False.elim) trivial (run_of_fst hchange)
  have hsurvives : Survives deletedThroughNew :=
    h _ changedThroughOld _ [] (sampleDraws []) (.delete (sampleAccountAt "2".toList) "q".toList) none hchanged
      (Or.inl (Or.inr rfl)) (fun _ => False.elim) (run_of_fst hlast)
  exact hback (hsurvives _ (fun _ => rfl) sampleKey.address).2

end

end TronlinkCore.Keystore
