import TronlinkCore.Keystore.Loading
import TronlinkCore.Keystore.Runs

namespace TronlinkCore.Keystore

open Throwing Io

variable {Document : Type}

structure Keyed (s : Session Document) : Prop where
  accounts : ∀ address account, s.store.accountsByAddress.lookup address = some account →
    account.address = address ∧ (s.store.keysByAddress.lookup address).isSome
  keys : ∀ address key, s.store.keysByAddress.lookup address = some key → key.address = address

theorem Keyed.of_store {s t : Session Document} (h : Keyed s) (hs : ∃ b, t.store = s.store.setBackupPending b) :
    Keyed t := by
  obtain ⟨b, hs⟩ := hs
  constructor
  · rw [hs]
    exact h.accounts
  · rw [hs]
    exact h.keys

theorem Keyed.cache {s : Session Document} (h : Keyed s) (key : KeystoreKey) :
    Keyed (s.withStore (KeyStore.cache key)) where
  accounts address account ha := by
    obtain ⟨haddress, hkey⟩ := h.accounts address account ha
    refine ⟨haddress, ?_⟩
    change ((s.store.keysByAddress.insert key.address key).lookup address).isSome
    by_cases hne : address = key.address
    · rw [hne, AList.lookup_insert]
      rfl
    · rwa [AList.lookup_insert_ne hne]
  keys address stored hk := by
    change (s.store.keysByAddress.insert key.address key).lookup address = some stored at hk
    by_cases hne : address = key.address
    · rw [hne, AList.lookup_insert] at hk
      cases hk
      exact hne.symm
    · rw [AList.lookup_insert_ne hne] at hk
      exact h.keys address stored hk

theorem Keyed.list {s : Session Document} (h : Keyed s) {account : Account} {address : Address}
    (ha : account.address = address) (hk : (s.store.keysByAddress.lookup address).isSome) :
    Keyed (s.withStore (KeyStore.list account address)) where
  accounts other found hfound := by
    change (s.store.accountsByAddress.insert address account).lookup other = some found at hfound
    by_cases hne : other = address
    · subst hne
      rw [AList.lookup_insert] at hfound
      cases hfound
      exact ⟨ha, hk⟩
    · rw [AList.lookup_insert_ne hne] at hfound
      exact h.accounts other found hfound
  keys := h.keys

theorem Keyed.forget {s : Session Document} (h : Keyed s) (address : Address) :
    Keyed (s.withStore (KeyStore.forget address)) where
  accounts other found hfound := by
    change (s.store.accountsByAddress.erase address).lookup other = some found at hfound
    change _ ∧ ((s.store.keysByAddress.erase address).lookup other).isSome
    by_cases hne : other = address
    · rw [hne, AList.lookup_erase] at hfound
      cases hfound
    · rw [AList.lookup_erase_ne hne] at hfound
      rw [AList.lookup_erase_ne hne]
      exact h.accounts other found hfound
  keys other found hfound := by
    change (s.store.keysByAddress.erase address).lookup other = some found at hfound
    by_cases hne : other = address
    · rw [hne, AList.lookup_erase] at hfound
      cases hfound
    · rw [AList.lookup_erase_ne hne] at hfound
      exact h.keys other found hfound

theorem Keyed.install {s v : Session Document} {account : Account} {key : KeystoreKey} (h : Keyed s)
    (hs : ∃ b, v.store = s.store.setBackupPending b) (ha : account.address = key.address) :
    Keyed ((v.withStore (KeyStore.cache key)).withStore (KeyStore.list account key.address)) := by
  apply ((h.of_store hs).cache key).list ha
  change ((v.store.keysByAddress.insert key.address key).lookup key.address).isSome
  rw [AList.lookup_insert]
  rfl

section

variable [JsonCoder Document] [Graphemes]

theorem Keyed.reads {s t : Session Document} (h : Keyed s) (hr : Reads s t) : Keyed t where
  accounts address account ha := by
    have haddress : account.address = address := by
      obtain hs | ⟨url, key, _, _, _, rfl⟩ := (hr.extended.accounts address).origin ha
      · exact (h.accounts address account hs).1
      · rfl
    refine ⟨haddress, ?_⟩
    obtain hs | hk := hr.extended.paired address (by rw [ha]; rfl)
    · obtain ⟨found, hfound⟩ := Option.isSome_iff_exists.mp hs
      exact (hr.extended.keys address).isSome (h.accounts address found hfound).2
    · exact hk
  keys address key hk := by
    obtain hs | ⟨url, _, _, haddress⟩ := (hr.extended.keys address).origin hk
    · exact h.keys address key hs
    · exact haddress

theorem addKey_after (key : KeystoreKey) (s : Session Document) :
    (KeyStore.addKey key s).2 = (retried s).withStore (KeyStore.cache key) := by
  rw [KeyStore.addKey, withStateLock_run]
  rfl

theorem Keyed.retried {s : Session Document} (h : Keyed s) : Keyed (retried s) := h.reads (retried_reads s)

variable [Crypto]

theorem perform_keyed {s t : Session Document} {draws : Draws} {mutation : Mutation Document} {result : Option Account}
    (h : Keyed s) (hrun : mutation.perform draws s = (.ok result, t)) : Keyed t := by
  cases mutation with
  | createAccount password type =>
    obtain ⟨account, rfl, hcall⟩ := some_map_eq_ok hrun
    obtain ⟨key, _, rfl, hinstall⟩ := createAccount_eq_ok hcall
    obtain ⟨_, v, hw, rfl⟩ := install_eq_ok hinstall
    exact h.retried.install hw.store rfl
  | addAccount account =>
    obtain ⟨key, v, hkey, hw, rfl⟩ := addAccount_eq_ok (pure_none_eq_ok hrun)
    obtain ⟨b, hs⟩ := hw.store
    refine (h.retried.of_store ⟨b, hs⟩).list rfl ?_
    rw [hs]
    change ((Keystore.retried s).store.keysByAddress.lookup account.address).isSome
    rw [hkey]
    rfl
  | importJson json password newPassword =>
    obtain ⟨account, rfl, hcall⟩ := some_map_eq_ok hrun
    obtain ⟨key, newKey, _, _, rfl, hinstall⟩ := importJson_eq_ok hcall
    obtain ⟨_, v, hw, rfl⟩ := install_eq_ok (installNew_eq_ok hinstall).2
    exact h.retried.retried.install hw.store rfl
  | importMnemonic mnemonic passphrase derivationPath encryptPassword normalization =>
    obtain ⟨account, rfl, hcall⟩ := some_map_eq_ok hrun
    obtain ⟨sk, address, newKey, hsk, haddress, hnew, rfl, hinstall⟩ := importMnemonic_eq_ok hcall
    obtain ⟨_, v, hw, rfl⟩ := install_eq_ok (installNew_eq_ok hinstall).2
    exact h.retried.retried.install hw.store (ofMnemonic_address hsk haddress hnew).symm
  | update account password newPassword derivationPath =>
    obtain ⟨key, newKey, v, _, _, _, _, hw, rfl⟩ := update_eq_ok (pure_none_eq_ok hrun)
    exact (h.retried.retried.of_store hw.store).cache newKey
  | delete account password =>
    obtain ⟨stored, v, _, _, hs, _, rfl⟩ := delete_eq_ok (pure_none_eq_ok hrun)
    refine (h.retried.retried.of_store ⟨v.store.backupExclusionPending, ?_⟩).forget account.address
    rw [← hs]
    rfl

theorem perform_cases {P : Session Document → Prop} (draws : Draws) (mutation : Mutation Document) {s : Session Document}
    (hok : ∀ result t, mutation.perform draws s = (.ok result, t) → P t)
    (hreads : ∀ t, Reads s t → P t) (hdiscards : ∀ t u, P t → Discards t u → P u) : P (mutation.perform draws s).2 := by
  cases hr : (mutation.perform draws s).1 with
  | ok result => exact hok result _ (run_of_fst hr)
  | error failure =>
    obtain ⟨u, hu, hd⟩ := perform_atomic draws mutation s failure _ (run_of_fst hr)
    exact hdiscards u _ (hreads u hu) hd

/-- The states of a store under any calls in any order, each with its own faults -/
inductive Reached (directory : Text) (disk : Dictionary URL (Entry Document))
    (Allowed : Session Document → Draws → Mutation Document → Prop) : Session Document → Prop where
  | opened (faults : List Bool) : Reached directory disk Allowed (KeyStore.opened directory disk faults)
  | read {s : Session Document} (faults : List Bool) (call : Reading) :
    Reached directory disk Allowed s → Reached directory disk Allowed (call.after (s.withFaults faults))
  | addKey {s : Session Document} (faults : List Bool) (key : KeystoreKey) :
    Reached directory disk Allowed s → Reached directory disk Allowed (KeyStore.addKey key (s.withFaults faults)).2
  | call {s : Session Document} (faults : List Bool) (draws : Draws) (mutation : Mutation Document) :
    Reached directory disk Allowed s → Allowed s draws mutation →
    Reached directory disk Allowed (mutation.perform draws (s.withFaults faults)).2

variable {directory : Text} {disk : Dictionary URL (Entry Document)}
  {Allowed : Session Document → Draws → Mutation Document → Prop} {s : Session Document}

theorem Reached.keyed (h : Reached directory disk Allowed s) : Keyed s := by
  induction h with
  | opened faults =>
    have hload := opened_loading directory disk faults
    constructor
    · intro address account ha
      obtain ⟨_, _, _, _, _, rfl⟩ := hload.accounts address account ha
      exact ⟨rfl, hload.paired address (by rw [ha]; rfl)⟩
    · intro address key hk
      obtain ⟨_, _, _, haddress⟩ := hload.keys address key hk
      exact haddress
  | read faults call _ ih =>
    rw [call.after_eq]
    exact (ih.reads (withFaults_reads faults _)).retried
  | addKey faults key _ ih =>
    rw [addKey_after]
    exact (ih.reads (withFaults_reads faults _)).retried.cache key
  | call faults draws mutation _ _ ih =>
    have hk := ih.reads (withFaults_reads faults _)
    apply perform_cases draws mutation
    · exact fun result t hrun => perform_keyed hk hrun
    · exact fun t hr => hk.reads hr
    · exact fun t u ht hd => ht.of_store hd.store

end

end TronlinkCore.Keystore
