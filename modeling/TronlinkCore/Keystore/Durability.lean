import TronlinkCore.Keystore.Calls
import TronlinkCore.Keystore.Opening

namespace TronlinkCore.Keystore

open Throwing Io

variable {Document : Type} [JsonCoder Document] [Crypto]

structure Stored (s : Session Document) (address : Address) (account : Account) (key : KeystoreKey) : Prop where
  listed : s.store.accountsByAddress.lookup address = some account
  held : s.store.keysByAddress.lookup address = some key
  accountAddress : account.address = address
  keyAddress : key.address = address
  shown : account.url.ShownIn s.store.keyDirectory
  file : s.disk.lookup account.url = some (.file key.encode)
  storable : key.Storable

/-- The entries of the maps and the files that can be seen are the same. -/
structure Mirrored (s : Session Document) : Prop where
  entries : ∀ address, s.store.accountsByAddress.lookup address = none ∧ s.store.keysByAddress.lookup address = none ∨
    ∃ account key, Stored s address account key
  files : ∀ url : URL, url.ShownIn s.store.keyDirectory → s.disk.lookup url = none ∨
    ∃ address account key, Stored s address account key ∧ account.url = url
  settled : ∀ url, Unread s url → url.isHidden = false ∧ s.disk.lookup url = none

theorem Stored.transport {s t : Session Document} {address : Address} {account : Account} {key : KeystoreKey}
    (h : Stored s address account key) (hdir : t.store.keyDirectory = s.store.keyDirectory)
    (ha : t.store.accountsByAddress.lookup address = s.store.accountsByAddress.lookup address)
    (hk : t.store.keysByAddress.lookup address = s.store.keysByAddress.lookup address)
    (hf : t.disk.lookup account.url = s.disk.lookup account.url) : Stored t address account key where
  listed := ha.trans h.listed
  held := hk.trans h.held
  accountAddress := h.accountAddress
  keyAddress := h.keyAddress
  shown := hdir ▸ h.shown
  file := hf.trans h.file
  storable := h.storable

theorem Mirrored.change {s t : Session Document} (h : Mirrored s) (address : Address) (url : URL)
    (hdir : t.store.keyDirectory = s.store.keyDirectory) (hread : ∀ x, ¬ Unread t x)
    (haccounts : ∀ x, x ≠ address → t.store.accountsByAddress.lookup x = s.store.accountsByAddress.lookup x)
    (hkeys : ∀ x, x ≠ address → t.store.keysByAddress.lookup x = s.store.keysByAddress.lookup x)
    (hfiles : ∀ x : URL, x.isHidden = false → x ≠ url → t.disk.lookup x = s.disk.lookup x)
    (hold : ∀ x account key, Stored s x account key → (x = address ↔ account.url = url))
    (hnew : t.store.accountsByAddress.lookup address = none ∧ t.store.keysByAddress.lookup address = none ∧
        t.disk.lookup url = none ∨ ∃ account key, Stored t address account key ∧ account.url = url) : Mirrored t := by
  have hkept : ∀ x account key, Stored s x account key → x ≠ address → Stored t x account key := by
    intro x account key hx hne
    apply hx.transport hdir (haccounts x hne) (hkeys x hne)
    exact hfiles account.url hx.shown.2 fun hu => hne ((hold x account key hx).mpr hu)
  refine ⟨?_, ?_, fun x hx => absurd hx (hread x)⟩
  · intro x
    by_cases hx : x = address
    · subst hx
      rcases hnew with ⟨ha, hk, _⟩ | ⟨account, key, hstored, _⟩
      · exact .inl ⟨ha, hk⟩
      · exact .inr ⟨account, key, hstored⟩
    · rcases h.entries x with ⟨ha, hk⟩ | ⟨account, key, hstored⟩
      · left
        rw [haccounts x hx, hkeys x hx]
        exact ⟨ha, hk⟩
      · exact .inr ⟨account, key, hkept x account key hstored hx⟩
  · intro x hx
    by_cases hu : x = url
    · subst hu
      rcases hnew with ⟨_, _, hnone⟩ | ⟨account, key, hstored, hurl⟩
      · exact .inl hnone
      · exact .inr ⟨address, account, key, hstored, hurl⟩
    · rw [hfiles x hx.2 hu]
      refine (h.files x (hdir ▸ hx)).imp_right ?_
      rintro ⟨y, account, key, hstored, rfl⟩
      refine ⟨y, account, key, hkept y account key hstored ?_, rfl⟩
      exact fun hy => hu ((hold y account key hstored).mp hy)

theorem Mirrored.stored_of_account {s : Session Document} (h : Mirrored s) {address : Address} {account : Account}
    (ha : s.store.accountsByAddress.lookup address = some account) : ∃ key, Stored s address account key := by
  rcases h.entries address with ⟨hn, _⟩ | ⟨account', key, hstored⟩
  · rw [hn] at ha
    cases ha
  · have haccount := hstored.listed
    rw [ha, Option.some.injEq] at haccount
    exact ⟨key, haccount ▸ hstored⟩

theorem Mirrored.stored_of_key {s : Session Document} (h : Mirrored s) {address : Address} {key : KeystoreKey}
    (hk : s.store.keysByAddress.lookup address = some key) : ∃ account, Stored s address account key := by
  rcases h.entries address with ⟨_, hn⟩ | ⟨account, key', hstored⟩
  · rw [hn] at hk
    cases hk
  · have hkey := hstored.held
    rw [hk, Option.some.injEq] at hkey
    exact ⟨account, hkey ▸ hstored⟩

theorem Mirrored.install {s v : Session Document} {account : Account} {key : KeystoreKey} (h : Mirrored s)
    (hreadable : s.store.hasUnreadableAccounts = false)
    (hw : Writes account.url key.encode s v) (hnew : s.store.accountsByAddress.lookup key.address = none)
    (hshown : account.url.ShownIn s.store.keyDirectory) (hfresh : s.disk.lookup account.url = none)
    (ha : account.address = key.address) (hst : key.Storable) :
    Mirrored ((v.withStore (KeyStore.cache key)).withStore (KeyStore.list account key.address)) := by
  obtain ⟨⟨b, hs⟩, hfile, hothers⟩ := hw
  have haccounts : ((v.withStore (KeyStore.cache key)).withStore
      (KeyStore.list account key.address)).store.accountsByAddress =
      s.store.accountsByAddress.insert key.address account := by
    simp only [Session.withStore, hs]
    rfl
  have hkeys : ((v.withStore (KeyStore.cache key)).withStore (KeyStore.list account key.address)).store.keysByAddress =
      s.store.keysByAddress.insert key.address key := by
    simp only [Session.withStore, hs]
    rfl
  have hdir : ((v.withStore (KeyStore.cache key)).withStore (KeyStore.list account key.address)).store.keyDirectory =
      s.store.keyDirectory := by
    simp only [Session.withStore, hs]
    rfl
  apply h.change key.address account.url hdir
  · apply not_unread
    simp only [Session.withStore, hs]
    exact hreadable
  · intro x hx
    rw [haccounts, AList.lookup_insert_ne hx]
  · intro x hx
    rw [hkeys, AList.lookup_insert_ne hx]
  · exact hothers
  · intro x account' key' hx
    constructor
    · rintro rfl
      rw [hx.listed] at hnew
      cases hnew
    · intro hu
      have hf := hx.file
      rw [hu, hfresh] at hf
      cases hf
  · right
    refine ⟨account, key, ⟨?_, ?_, ha, rfl, hdir ▸ hshown, hfile hshown.2, hst⟩, rfl⟩
    · rw [haccounts, AList.lookup_insert]
    · rw [hkeys, AList.lookup_insert]

variable [Graphemes]

theorem Stored.holds {s : Session Document} {address : Address} {account : Account} {key : KeystoreKey}
    (h : Stored s address account key) : Holds s account.url key :=
  ⟨_, h.file, KeystoreKey.decode_encoded h.storable⟩

theorem Stored.address_eq {s : Session Document} {x y : Address} {account account' : Account}
    {key key' : KeystoreKey} (h : Stored s x account key) (h' : Stored s y account' key')
    (hurl : account.url = account'.url) : x = y := by
  have hkeys := h.holds.unique (hurl ▸ h'.holds)
  rw [← h.keyAddress, ← h'.keyAddress, hkeys]

theorem Mirrored.same {s t : Session Document} (h : Mirrored s) (hu : Unchanged s t) (address : Address) :
    t.store.accountsByAddress.lookup address = s.store.accountsByAddress.lookup address ∧
      t.store.keysByAddress.lookup address = s.store.keysByAddress.lookup address := by
  have hempty : ∀ url key, Unread s url → Holds s url key → False := by
    rintro url key hunread ⟨json, hj, _⟩
    rw [(h.settled url hunread).2] at hj
    cases hj
  constructor
  · rcases hu.accounts address with ha | ⟨_, account, ⟨url, key, hunread, hk, _⟩, _⟩
    · exact ha
    · exact (hempty url key hunread hk).elim
  · rcases hu.keys address with hk | ⟨_, key, ⟨url, hunread, hk, _⟩, _⟩
    · exact hk
    · exact (hempty url key hunread hk).elim

theorem Mirrored.unchanged {s t : Session Document} (h : Mirrored s) (hu : Unchanged s t) : Mirrored t := by
  have hkept : ∀ address account key, Stored s address account key → Stored t address account key := by
    intro address account key hstored
    obtain ⟨ha, hk⟩ := h.same hu address
    exact hstored.transport hu.directory ha hk (hu.files account.url hstored.shown.2)
  refine ⟨?_, ?_, ?_⟩
  · intro address
    obtain ⟨ha, hk⟩ := h.same hu address
    rw [ha, hk]
    exact (h.entries address).imp_right fun ⟨account, key, hstored⟩ => ⟨account, key, hkept address account key hstored⟩
  · intro url hurl
    rw [hu.files url hurl.2]
    refine (h.files url (hu.directory ▸ hurl)).imp_right ?_
    rintro ⟨address, account, key, hstored, rfl⟩
    exact ⟨address, account, key, hkept address account key hstored, rfl⟩
  · intro url hurl
    obtain ⟨hhidden, hnone⟩ := h.settled url (hu.unread url hurl)
    exact ⟨hhidden, (hu.files url hhidden).trans hnone⟩

theorem Mirrored.retried {s : Session Document} (h : Mirrored s) : Mirrored (retried s) :=
  h.unchanged (retried_reads s).unchanged

section

variable {s v : Session Document} {stored : Account} {key newKey : KeystoreKey} {address : Address}

theorem Mirrored.update (h : Mirrored s) (hreadable : s.store.hasUnreadableAccounts = false)
    (hstored : Stored s address stored key) (hw : Writes stored.url newKey.encode s v)
    (ha : newKey.address = address) (hst : newKey.Storable) : Mirrored (v.withStore (KeyStore.cache newKey)) := by
  obtain ⟨⟨b, hs⟩, hfile, hothers⟩ := hw
  have haccounts : (v.withStore (KeyStore.cache newKey)).store.accountsByAddress = s.store.accountsByAddress := by
    simp only [Session.withStore, hs]
    rfl
  have hkeys : (v.withStore (KeyStore.cache newKey)).store.keysByAddress =
      s.store.keysByAddress.insert address newKey := by
    simp only [Session.withStore, hs, ← ha]
    rfl
  have hdir : (v.withStore (KeyStore.cache newKey)).store.keyDirectory = s.store.keyDirectory := by
    simp only [Session.withStore, hs]
    rfl
  apply h.change address stored.url hdir
  · apply not_unread
    simp only [Session.withStore, hs]
    exact hreadable
  · intro x _
    rw [haccounts]
  · intro x hx
    rw [hkeys, AList.lookup_insert_ne hx]
  · exact hothers
  · intro x account' key' hx
    constructor
    · rintro rfl
      have hlisted := hx.listed
      rw [hstored.listed, Option.some.injEq] at hlisted
      rw [hlisted]
    · exact fun hu => hx.address_eq hstored hu
  · right
    refine ⟨stored, newKey, ⟨?_, ?_, hstored.accountAddress, ha, hdir ▸ hstored.shown, hfile hstored.shown.2, hst⟩, rfl⟩
    · rw [haccounts]
      exact hstored.listed
    · rw [hkeys, AList.lookup_insert]

theorem Mirrored.delete (h : Mirrored s) (hreadable : s.store.hasUnreadableAccounts = false)
    (hstored : Stored s address stored key) (hs : v.store = s.store) (hd : v.disk = s.disk.erase stored.url) :
    Mirrored (v.withStore (KeyStore.forget address)) := by
  have haccounts : (v.withStore (KeyStore.forget address)).store.accountsByAddress =
      s.store.accountsByAddress.erase address := by
    simp only [Session.withStore, hs]
    rfl
  have hkeys : (v.withStore (KeyStore.forget address)).store.keysByAddress = s.store.keysByAddress.erase address := by
    simp only [Session.withStore, hs]
    rfl
  have hdir : (v.withStore (KeyStore.forget address)).store.keyDirectory = s.store.keyDirectory := by
    simp only [Session.withStore, hs]
    rfl
  have hdisk : (v.withStore (KeyStore.forget address)).disk = s.disk.erase stored.url := hd
  apply h.change address stored.url hdir
  · apply not_unread
    simp only [Session.withStore, hs]
    exact hreadable
  · intro x hx
    rw [haccounts, AList.lookup_erase_ne hx]
  · intro x hx
    rw [hkeys, AList.lookup_erase_ne hx]
  · intro x _ hx
    rw [hdisk, AList.lookup_erase_ne hx]
  · intro x account' key' hx
    constructor
    · rintro rfl
      have hlisted := hx.listed
      rw [hstored.listed, Option.some.injEq] at hlisted
      rw [hlisted]
    · exact fun hu => hx.address_eq hstored hu
  · left
    rw [haccounts, hkeys, hdisk]
    exact ⟨AList.lookup_erase _ _, AList.lookup_erase _ _, AList.lookup_erase _ _⟩

end

theorem Mirrored.stored_of_file {s : Session Document} (h : Mirrored s) {url : URL} {key : KeystoreKey}
    (hurl : url.ShownIn s.store.keyDirectory) (hk : Holds s url key) :
    ∃ account, Stored s key.address account key ∧ account.url = url := by
  rcases h.files url hurl with hnone | ⟨address, account, key', hstored, rfl⟩
  · obtain ⟨json, hj, _⟩ := hk
    rw [hnone] at hj
    cases hj
  · obtain rfl := hk.unique hstored.holds
    obtain rfl := hstored.keyAddress
    exact ⟨account, hstored, rfl⟩

section

variable {s t : Session Document} {address : Address}

theorem Finds.held (hf : Finds s t) (h : Mirrored s) (address : Address) :
    t.store.keysByAddress.lookup address = s.store.keysByAddress.lookup address := by
  have hsub : ∀ key, t.store.keysByAddress.lookup address = some key →
      s.store.keysByAddress.lookup address = some key := by
    intro key hk
    obtain ⟨url, hurl, hkey, rfl⟩ := hf.keys address key hk
    obtain ⟨account, hstored, _⟩ := h.stored_of_file hurl hkey
    exact hstored.held
  cases hk : t.store.keysByAddress.lookup address with
  | some key => rw [hsub key hk]
  | none =>
    rcases h.entries address with ⟨_, hnone⟩ | ⟨account, key, hstored⟩
    · rw [hnone]
    · have hsome := (hf.found account.url key hstored.shown hstored.holds).2
      rw [hstored.keyAddress, hk] at hsome
      cases hsome

theorem Finds.stored (hf : Finds s t) (h : Mirrored s) {account : Account}
    (ha : t.store.accountsByAddress.lookup address = some account) :
    ∃ key stored, Stored t address account key ∧ Stored s address stored key ∧ stored.url = account.url := by
  obtain ⟨url, key, hurl, hk, rfl, rfl⟩ := hf.accounts address account ha
  obtain ⟨stored, hs, rfl⟩ := h.stored_of_file hurl hk
  refine ⟨key, stored, ⟨ha, ?_, rfl, rfl, hf.directory ▸ hurl, ?_, hs.storable⟩, hs, rfl⟩
  · rw [hf.held h, hs.held]
  · exact (hf.disk stored.url).trans hs.file

theorem Finds.listed (hf : Finds s t) {account : Account} {key : KeystoreKey} (hs : Stored s address account key) :
    ∃ account', t.store.accountsByAddress.lookup address = some account' := by
  have hsome := (hf.found account.url key hs.shown hs.holds).1
  rw [hs.keyAddress] at hsome
  exact Option.isSome_iff_exists.mp hsome

theorem Finds.mirrored (hf : Finds s t) (h : Mirrored s) : Mirrored t := by
  refine ⟨?_, ?_, fun url hurl => absurd hurl (not_unread hf.readable url)⟩
  · intro address
    cases ha : t.store.accountsByAddress.lookup address with
    | some account =>
      obtain ⟨key, _, hstored, _⟩ := hf.stored h ha
      exact .inr ⟨account, key, hstored⟩
    | none =>
      left
      refine ⟨rfl, ?_⟩
      rw [hf.held h]
      rcases h.entries address with ⟨_, hnone⟩ | ⟨account, key, hstored⟩
      · exact hnone
      · obtain ⟨account', hsome⟩ := hf.listed hstored
        rw [ha] at hsome
        cases hsome
  · intro url hurl
    rw [hf.disk]
    refine (h.files url (hf.directory ▸ hurl)).imp_right ?_
    rintro ⟨address, account, key, hstored, rfl⟩
    obtain ⟨account', ha⟩ := hf.listed hstored
    obtain ⟨key', stored, ht, hs, hurl'⟩ := hf.stored h ha
    have hsame := hs.listed
    rw [hstored.listed, Option.some.injEq] at hsame
    exact ⟨address, account', key', ht, by rw [← hurl', ← hsame]⟩

end

def Lists (s : Session Document) (address : Address) : Prop :=
  ∃ accounts t, KeyStore.accounts s = (.ok accounts, t) ∧ ∃ account ∈ accounts, account.address = address

theorem Mirrored.lists_iff {s : Session Document} (h : Mirrored s) (address : Address) :
    Lists s address ↔ (s.store.keysByAddress.lookup address).isSome := by
  have hr := h.retried
  rw [← (h.same (retried_reads s).unchanged address).2]
  constructor
  · rintro ⟨accounts, t, hrun, account, hmem, rfl⟩
    rw [accounts_run, Prod.mk.injEq, Except.ok.injEq] at hrun
    obtain ⟨rfl, _⟩ := hrun
    obtain ⟨⟨address, account⟩, hentry, rfl⟩ := List.mem_map.mp hmem
    obtain ⟨key, hstored⟩ := hr.stored_of_account (AList.mem_lookup_iff.mpr hentry)
    rw [hstored.accountAddress, hstored.held]
    rfl
  · intro hsome
    obtain ⟨key, hk⟩ := Option.isSome_iff_exists.mp hsome
    obtain ⟨account, hstored⟩ := hr.stored_of_key hk
    refine ⟨_, _, accounts_run s, account, List.mem_map.mpr ⟨⟨address, account⟩, ?_, rfl⟩, hstored.accountAddress⟩
    exact AList.mem_lookup_iff.mp hstored.listed

def Survives (s : Session Document) : Prop :=
  ∀ disk : Dictionary URL (Entry Document), (∀ url, disk.lookup url = s.disk.lookup url) → ∀ address,
    (Lists (KeyStore.opened s.store.keyDirectory disk []) address ↔ Lists s address) ∧
      (KeyStore.key address (KeyStore.opened s.store.keyDirectory disk [])).1 = (KeyStore.key address s).1

theorem Mirrored.survives {s : Session Document} (h : Mirrored s) : Survives s := by
  intro disk hd address
  have hf := opened_found hd
  have ht := hf.mirrored h
  constructor
  · rw [ht.lists_iff, h.lists_iff, hf.held h]
  · rw [key_run, key_run, (ht.same (retried_reads _).unchanged address).2, hf.held h,
      (h.same (retried_reads s).unchanged address).2]

end TronlinkCore.Keystore
