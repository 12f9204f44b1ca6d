import TronlinkCore.Keystore.Listing

namespace TronlinkCore.Keystore

open Exceptions Throwing Io

section

variable {Document : Type} [JsonCoder Document] [Graphemes] {directory : Text}
  {disk : Dictionary URL (Entry Document)} {s t : Session Document}

/-- Every key file that can be listed is listed, or still unread. -/
structure Sole (directory : Text) (s : Session Document) : Prop where
  keyDirectory : s.store.keyDirectory = directory
  one : OneKeyPerAddress directory s
  unread : ∀ url, Unread s url → url.ShownIn directory
  listed : ∀ address account, s.store.accountsByAddress.lookup address = some account → account.url.ShownIn directory
  found : ∀ url key, url.ShownIn directory → Holds s url key → Unread s url ∨
    ∃ account, s.store.accountsByAddress.lookup key.address = some account ∧ account.url = url
  apart : ∀ url key account, Unread s url → Holds s url key →
    s.store.accountsByAddress.lookup key.address = some account → account.url = url

theorem Sole.of_same (h : Sole directory s) (hdir : t.store.keyDirectory = s.store.keyDirectory)
    (hfiles : ∀ url : URL, url.isHidden = false → t.disk.lookup url = s.disk.lookup url)
    (haccounts : ∀ address, t.store.accountsByAddress.lookup address = s.store.accountsByAddress.lookup address)
    (hunread : ∀ url, Unread t url ↔ Unread s url) : Sole directory t := by
  have hholds : ∀ {url key}, url.ShownIn directory → Holds t url key → Holds s url key :=
    fun hurl hk => hk.of_lookup (hfiles _ hurl.2)
  refine ⟨hdir.trans h.keyDirectory, ?_, ?_, ?_, ?_, ?_⟩
  · exact fun url url' key key' hurl hurl' hk hk' => h.one url url' key key' hurl hurl' (hholds hurl hk) (hholds hurl' hk')
  · exact fun url hurl => h.unread url ((hunread url).mp hurl)
  · intro address account ha
    rw [haccounts] at ha
    exact h.listed address account ha
  · intro url key hurl hk
    rw [hunread, haccounts]
    exact h.found url key hurl (hholds hurl hk)
  · intro url key account hurl hk ha
    rw [hunread] at hurl
    rw [haccounts] at ha
    exact h.apart url key account hurl (hholds (h.unread url hurl) hk) ha

theorem Sole.discards (h : Sole directory s) (hd : Discards s t) : Sole directory t := by
  obtain ⟨b, hs⟩ := hd.store
  apply h.of_same _ hd.files
  · intro address
    rw [hs]
    rfl
  · intro url
    rw [Unread, hs]
    rfl
  · rw [hs]
    rfl

theorem Sole.reads (h : Sole directory s) (hr : Reads s t) : Sole directory t := by
  have hholds : ∀ {url key}, Holds t url key → Holds s url key := fun hk => hk.of_lookup (by rw [hr.extended.disk])
  -- What a retry lists is the one file of its address.
  have hnew : ∀ url key account, url.ShownIn directory → Holds s url key →
      FileAccount (Unread s) s key.address account → account.url = url := by
    rintro url key account hurl hk ⟨url', key', hunread, hk', haddress, rfl⟩
    exact h.one url' url key' key (h.unread url' hunread) hurl hk' hk haddress
  refine ⟨hr.extended.directory.trans h.keyDirectory, ?_, ?_, ?_, ?_, ?_⟩
  · exact fun url url' key key' hurl hurl' hk hk' => h.one url url' key key' hurl hurl' (hholds hk) (hholds hk')
  · exact fun url hurl => h.unread url (hr.unread url hurl)
  · intro address account ha
    obtain hs | ⟨url, key, hunread, _, _, rfl⟩ := (hr.extended.accounts address).origin ha
    · exact h.listed address account hs
    · exact h.unread url hunread
  · intro url key hurl hk
    obtain hunread | ⟨account, ha, rfl⟩ := h.found url key hurl (hholds hk)
    · obtain hunread' | hentered := hr.progress url key (h.keyDirectory ▸ hurl) hunread (hholds hk)
      · exact .inl hunread'
      · obtain ⟨account, ha⟩ := Option.isSome_iff_exists.mp hentered.1
        refine .inr ⟨account, ha, ?_⟩
        obtain hs | hfile := (hr.extended.accounts key.address).origin ha
        · exact h.apart url key account hunread (hholds hk) hs
        · exact hnew url key account hurl (hholds hk) hfile
    · exact .inr ⟨account, (hr.extended.accounts key.address).of_some ha, rfl⟩
  · intro url key account hurl hk ha
    have hunread := hr.unread url hurl
    obtain hs | hfile := (hr.extended.accounts key.address).origin ha
    · exact h.apart url key account hunread (hholds hk) hs
    · exact hnew url key account (h.unread url hunread) (hholds hk) hfile

theorem Sole.retried (h : Sole directory s) : Sole directory (retried s) := h.reads (retried_reads s)

theorem Sole.account_of_held (h : Sole directory s) (hread : s.store.hasUnreadableAccounts = false) {url : URL}
    {key : KeystoreKey} (hurl : url.ShownIn directory) (hk : Holds s url key) :
    ∃ account, s.store.accountsByAddress.lookup key.address = some account ∧ account.url = url :=
  (h.found url key hurl hk).resolve_left (not_unread hread url)

theorem Sole.cache (h : Sole directory s) (key : KeystoreKey) : Sole directory (s.withStore (KeyStore.cache key)) :=
  h.of_same rfl (fun _ _ => rfl) (fun _ => rfl) fun _ => Iff.rfl

theorem Sole.unheld (h : Sole directory s) (hread : s.store.hasUnreadableAccounts = false) {address : Address}
    (hnone : s.store.accountsByAddress.lookup address = none) {url : URL} {held : KeystoreKey}
    (hurl : url.ShownIn directory) (hk : Holds s url held) : held.address ≠ address := by
  rintro rfl
  obtain ⟨account, ha, _⟩ := h.account_of_held hread hurl hk
  rw [hnone] at ha
  cases ha

theorem Sole.delete (h : Sole directory s) (hread : s.store.hasUnreadableAccounts = false) {address : Address}
    {account : Account} (ha : s.store.accountsByAddress.lookup address = some account) (hs : t.store = s.store)
    (hd : t.disk = s.disk.erase account.url) : Sole directory (t.withStore (KeyStore.forget address)) := by
  have hunread : ∀ url, ¬ Unread (t.withStore (KeyStore.forget address)) url := by
    intro url hurl
    change Unread t url at hurl
    rw [Unread, hs] at hurl
    exact not_unread hread url hurl
  have hheld : ∀ url held, Holds t url held → url ≠ account.url ∧ Holds s url held := by
    intro url held hk
    have hne : url ≠ account.url := by
      rintro rfl
      obtain ⟨json, hj, _⟩ := hk
      rw [hd, AList.lookup_erase] at hj
      cases hj
    exact ⟨hne, hk.of_lookup (by rw [hd, AList.lookup_erase_ne hne])⟩
  have haccounts : ∀ other, (t.withStore (KeyStore.forget address)).store.accountsByAddress.lookup other =
      if other = address then none else s.store.accountsByAddress.lookup other := by
    intro other
    change (t.store.accountsByAddress.erase address).lookup other = _
    rw [hs]
    split
    · rename_i hsame
      rw [hsame, AList.lookup_erase]
    · exact AList.lookup_erase_ne ‹_›
  refine ⟨?_, ?_, ?_, ?_, ?_, ?_⟩
  · change t.store.keyDirectory = directory
    rw [hs]
    exact h.keyDirectory
  · exact fun url url' key key' hurl hurl' hk hk' =>
      h.one url url' key key' hurl hurl' (hheld url key hk).2 (hheld url' key' hk').2
  · exact fun url hurl => absurd hurl (hunread url)
  · intro other found hfound
    rw [haccounts] at hfound
    split at hfound
    · cases hfound
    · exact h.listed other found hfound
  · intro url held hurl hk
    obtain ⟨hne, hk⟩ := hheld url held hk
    obtain ⟨found, hfound, rfl⟩ := h.account_of_held hread hurl hk
    right
    rw [haccounts]
    refine ⟨found, ?_, rfl⟩
    rw [if_neg, hfound]
    intro hsame
    rw [hsame, ha] at hfound
    cases hfound
    exact hne rfl
  · exact fun url key account hurl => absurd hurl (hunread url)

theorem opened_sole (hone : OneKeyPerAddress directory (unopened directory disk)) (faults : List Bool) :
    Sole directory (KeyStore.opened directory disk faults) := by
  have hload := opened_loading directory disk faults
  have hholds : ∀ {url key}, Holds (KeyStore.opened directory disk faults) url key →
      Holds (unopened directory disk) url key := fun hk => hk.of_lookup (by rw [hload.disk])
  refine ⟨hload.keyDirectory, ?_, fun url => hload.unread_shown, ?_, ?_, ?_⟩
  · exact fun url url' key key' hurl hurl' hk hk' => hone url url' key key' hurl hurl' (hholds hk) (hholds hk')
  · intro address account ha
    obtain ⟨url, _, hurl, _, _, rfl⟩ := hload.accounts address account ha
    exact hurl
  · intro url key hurl hk
    refine (hload.progress url key hurl (hholds hk)).imp_right fun hentered => ?_
    obtain ⟨account, ha⟩ := Option.isSome_iff_exists.mp hentered.1
    obtain ⟨url', key', hurl', hk', haddress, rfl⟩ := hload.accounts key.address account ha
    exact ⟨_, ha, hone url' url key' key hurl' hurl hk' (hholds hk) haddress⟩
  · intro url key account hunread hk ha
    obtain ⟨url', key', hurl', hk', haddress, rfl⟩ := hload.accounts key.address account ha
    exact hone url' url key' key hurl' (hload.unread_shown hunread) hk' (hholds hk) haddress

variable [Crypto]

theorem Sole.writes (h : Sole directory s) (hread : s.store.hasUnreadableAccounts = false) {key : KeystoreKey}
    {account : Account} (hw : Writes account.url key.encode s t) (hst : key.Storable)
    (hshown : account.url.ShownIn directory)
    (honly : ∀ url held, url.ShownIn directory → Holds s url held → held.address = key.address → url = account.url) :
    Sole directory (t.withStore (KeyStore.list account key.address)) := by
  obtain ⟨b, hs⟩ := hw.store
  have haccounts : ∀ address, (t.withStore (KeyStore.list account key.address)).store.accountsByAddress.lookup address =
      if address = key.address then some account else s.store.accountsByAddress.lookup address := by
    intro address
    change (t.store.accountsByAddress.insert key.address account).lookup address = _
    rw [hs]
    split
    · rename_i hsame
      rw [hsame, AList.lookup_insert]
    · exact AList.lookup_insert_ne ‹_›
  have hunread : ∀ url, ¬ Unread (t.withStore (KeyStore.list account key.address)) url := by
    intro url hurl
    change Unread t url at hurl
    rw [Unread, hs] at hurl
    exact not_unread hread url hurl
  have hheld : ∀ url held, url.ShownIn directory → Holds t url held →
      url = account.url ∧ held = key ∨ url ≠ account.url ∧ Holds s url held := by
    intro url held hurl hk
    by_cases hsame : url = account.url
    · obtain ⟨json, hj, hdecode⟩ := hk
      rw [hsame, hw.file hshown.2, Option.some.injEq, Entry.file.injEq] at hj
      rw [← hj, KeystoreKey.decode_encoded hst] at hdecode
      cases hdecode
      exact .inl ⟨hsame, rfl⟩
    · exact .inr ⟨hsame, hk.of_lookup (hw.others url hurl.2 hsame)⟩
  refine ⟨?_, ?_, ?_, ?_, ?_, ?_⟩
  · change t.store.keyDirectory = directory
    rw [hs]
    exact h.keyDirectory
  · intro url url' held held' hurl hurl' hk hk' haddress
    obtain ⟨rfl, rfl⟩ | ⟨_, hold⟩ := hheld url held hurl hk
    · obtain ⟨rfl, rfl⟩ | ⟨_, hold'⟩ := hheld url' held' hurl' hk'
      · rfl
      · exact (honly url' held' hurl' hold' haddress.symm).symm
    · obtain ⟨rfl, rfl⟩ | ⟨_, hold'⟩ := hheld url' held' hurl' hk'
      · exact honly url held hurl hold haddress
      · exact h.one url url' held held' hurl hurl' hold hold' haddress
  · exact fun url hurl => absurd hurl (hunread url)
  · intro address found hfound
    rw [haccounts] at hfound
    split at hfound
    · cases hfound
      exact hshown
    · exact h.listed address found hfound
  · intro url held hurl hk
    rw [haccounts]
    right
    obtain ⟨rfl, rfl⟩ | ⟨hne, hk⟩ := hheld url held hurl hk
    · exact ⟨account, if_pos rfl, rfl⟩
    · have haddress : held.address ≠ key.address := fun haddress => hne (honly url held hurl hk haddress)
      rw [if_neg haddress]
      exact h.account_of_held hread hurl hk
  · exact fun url key account hurl => absurd hurl (hunread url)

theorem Sole.install (h : Sole directory s) (hread : s.store.hasUnreadableAccounts = false) {key : KeystoreKey}
    {account : Account} (hw : Writes account.url key.encode s t) (hst : key.Storable)
    (hshown : account.url.ShownIn directory)
    (hnew : ∀ url held, url.ShownIn directory → Holds s url held → held.address ≠ key.address) :
    Sole directory ((t.withStore (KeyStore.cache key)).withStore (KeyStore.list account key.address)) :=
  (h.writes hread hw hst hshown fun url held hurl hk haddress => absurd haddress (hnew url held hurl hk)).cache key

/-- Nothing is added by hand, and a password change names an account as it is listed now. -/
def Mutation.Current (s : Session Document) : Mutation Document → Prop
  | .addAccount _ => False
  | .update account _ _ _ => s.store.accountsByAddress.lookup account.address = some account
  | _ => True

def Mutation.Unheld (s : Session Document) (draws : Draws) : Mutation Document → Prop
  | .createAccount password type => ∀ key url held, KeystoreKey.generate draws password type = .ok key →
    url.ShownIn s.store.keyDirectory → Holds s url held → held.address ≠ key.address
  | _ => True

def Mutation.Imports : Mutation Document → Prop
  | .importJson _ _ _ | .importMnemonic _ _ _ _ _ => True
  | _ => False

theorem installNew_sole {draws : Draws} {key : KeystoreKey} {account : Account} (h : Sole directory s)
    (hrun : KeyStore.installNew draws key account s = (.ok (), t)) (hst : key.Storable)
    (hshown : account.url.ShownIn directory) : Sole directory t := by
  obtain ⟨hnone, hinstall⟩ := installNew_eq_ok hrun
  obtain ⟨hread, v, hw, rfl⟩ := install_eq_ok hinstall
  exact h.retried.install hread hw hst hshown fun url held hurl hk => h.retried.unheld hread hnone hurl hk

theorem perform_sole {draws : Draws} {mutation : Mutation Document} {result : Option Account} (h : Sole directory s)
    (hkeyed : Keyed s) (hcurrent : mutation.Current s) (hunheld : mutation.Unheld s draws)
    (hrun : mutation.perform draws s = (.ok result, t)) : Sole directory t := by
  have hreads := retried_reads s
  cases mutation with
  | createAccount password type =>
    obtain ⟨account, rfl, hcall⟩ := some_map_eq_ok hrun
    obtain ⟨key, hkey, rfl, hinstall⟩ := createAccount_eq_ok hcall
    obtain ⟨hread, v, hw, rfl⟩ := install_eq_ok hinstall
    apply h.retried.install hread hw (generate_storable hkey)
    · rw [← h.keyDirectory]
      exact generateFileName_shown _ _ _
    · intro url held hurl hk
      exact hunheld key url held hkey (h.keyDirectory ▸ hurl) (hk.of_lookup (by rw [hreads.extended.disk]))
  | addAccount account => exact hcurrent.elim
  | importJson json password newPassword =>
    obtain ⟨account, rfl, hcall⟩ := some_map_eq_ok hrun
    obtain ⟨key, newKey, _, hnew, rfl, hinstall⟩ := importJson_eq_ok hcall
    apply installNew_sole h.retried hinstall (reimport_storable hnew)
    rw [← h.retried.keyDirectory]
    exact generateFileName_shown _ _ _
  | importMnemonic mnemonic passphrase derivationPath encryptPassword normalization =>
    obtain ⟨account, rfl, hcall⟩ := some_map_eq_ok hrun
    obtain ⟨sk, address, newKey, _, _, hnew, rfl, hinstall⟩ := importMnemonic_eq_ok hcall
    apply installNew_sole h.retried hinstall (preserving_eq_ok (ofMnemonic_eq_ok hnew)).1
    rw [← h.retried.keyDirectory]
    exact generateFileName_shown _ _ _
  | update account password newPassword derivationPath =>
    obtain ⟨key, newKey, v, hkey, hnew, haddress, hread, hw, rfl⟩ := update_eq_ok (pure_none_eq_ok hrun)
    have hlisted : (Keystore.retried (Keystore.retried s)).store.accountsByAddress.lookup newKey.address = some account := by
      rw [haddress, hkeyed.retried.keys _ _ hkey]
      exact ((retried_reads _).extended.accounts _).of_some ((hreads.extended.accounts _).of_some hcurrent)
    have hsole := h.retried.retried.writes hread hw (rekey_storable hnew) (h.retried.retried.listed _ _ hlisted) (by
      intro url held hurl hk hsame
      obtain ⟨found, hfound, rfl⟩ := h.retried.retried.account_of_held hread hurl hk
      rw [hsame, hlisted] at hfound
      cases hfound
      rfl)
    -- The account is listed already.
    refine Sole.cache (hsole.of_same (t := v) rfl (fun _ _ => rfl) ?_ fun _ => Iff.rfl) newKey
    intro address
    change _ = (v.store.accountsByAddress.insert newKey.address account).lookup address
    by_cases hsame : address = newKey.address
    · obtain ⟨b, hs⟩ := hw.store
      rw [hsame, AList.lookup_insert, hs]
      exact hlisted
    · rw [AList.lookup_insert_ne hsame]
  | delete account password =>
    obtain ⟨stored, v, hlisted, hread, hs, hd, rfl⟩ := delete_eq_ok (pure_none_eq_ok hrun)
    exact h.retried.retried.delete hread (((retried_reads _).extended.accounts _).of_some hlisted) hs hd

theorem Reached.sole (hone : OneKeyPerAddress directory (unopened directory disk))
    (h : Reached directory disk (fun s draws mutation => mutation.Current s ∧ mutation.Unheld s draws) s) :
    Sole directory s := by
  induction h with
  | opened faults => exact opened_sole hone faults
  | read faults call _ ih =>
    rw [call.after_eq]
    exact (ih.reads (withFaults_reads faults _)).retried
  | addKey faults key _ ih =>
    rw [addKey_after]
    exact (ih.reads (withFaults_reads faults _)).retried.cache key
  | @call s faults draws mutation hs hallowed ih =>
    obtain ⟨hcurrent, hunheld⟩ := hallowed
    have hkeyed := hs.keyed.reads (withFaults_reads faults s)
    have hsole := ih.reads (withFaults_reads faults s)
    apply perform_cases draws mutation
    · intro result t hrun
      exact perform_sole hsole hkeyed (by cases mutation <;> exact hcurrent) (by cases mutation <;> exact hunheld) hrun
    · exact fun t hr => hsole.reads hr
    · exact fun t u ht hd => ht.discards hd

theorem Sole.import_new (h : Sole directory s) {draws : Draws} {mutation : Mutation Document} {account : Account}
    (himports : mutation.Imports) (hrun : mutation.perform draws s = (.ok (some account), t)) {url : URL}
    {held : KeystoreKey} (hurl : url.ShownIn directory) (hk : Holds s url held) : held.address ≠ account.address := by
  have hnew : ∀ key, KeyStore.installNew draws key account (Keystore.retried s) = (.ok (), t) →
      held.address ≠ key.address := by
    intro key hrun
    obtain ⟨hnone, hinstall⟩ := installNew_eq_ok hrun
    apply h.retried.retried.unheld (install_eq_ok hinstall).1 hnone hurl
    exact hk.of_lookup (by rw [(retried_reads _).extended.disk, (retried_reads _).extended.disk])
  cases mutation with
  | importJson json password newPassword =>
    obtain ⟨_, hsome, hrun⟩ := some_map_eq_ok hrun
    cases hsome
    obtain ⟨key, newKey, _, _, haccount, hinstall⟩ := importJson_eq_ok hrun
    rw [haccount]
    exact hnew newKey hinstall
  | importMnemonic mnemonic passphrase derivationPath encryptPassword normalization =>
    obtain ⟨_, hsome, hrun⟩ := some_map_eq_ok hrun
    cases hsome
    obtain ⟨sk, address, newKey, hsk, haddress, hkey, haccount, hinstall⟩ := importMnemonic_eq_ok hrun
    rw [haccount]
    change held.address ≠ address
    rw [← ofMnemonic_address hsk haddress hkey]
    exact hnew newKey hinstall
  | _ => exact himports.elim

theorem listing_sound (directory : Text) (disk : Dictionary URL (Entry Document)) :
    (∀ s, Reached directory disk (fun _ _ _ => True) s → ∀ address account,
      s.store.accountsByAddress.lookup address = some account → account.address = address ∧
        ∃ key, s.store.keysByAddress.lookup address = some key ∧ key.address = address ∧
          ∀ faults, (KeyStore.storedKey address (s.withFaults faults)).1 = .ok key) ∧
    (OneKeyPerAddress directory (unopened directory disk) → ∀ s,
      Reached directory disk (fun s draws mutation => mutation.Current s ∧ mutation.Unheld s draws) s →
      ∀ (faults : List Bool) (draws : Draws) (mutation : Mutation Document) (account : Account) (t : Session Document),
        mutation.Imports → mutation.perform draws (s.withFaults faults) = (.ok (some account), t) →
        ∀ url held, url.ShownIn directory → Holds s url held → held.address ≠ account.address) := by
  constructor
  · intro s h address account ha
    obtain ⟨haddress, hsome⟩ := h.keyed.accounts address account ha
    obtain ⟨key, hk⟩ := Option.isSome_iff_exists.mp hsome
    refine ⟨haddress, key, hk, h.keyed.keys address key hk, fun faults => ?_⟩
    rw [storedKey_run, unlessNone_eq_ok]
    exact ((retried_reads (s.withFaults faults)).extended.keys address).of_some hk
  · intro hone s h faults draws mutation account t himports hrun url held hurl hk
    exact ((h.sole hone).reads (withFaults_reads faults s)).import_new himports hrun hurl hk

end

section

attribute [local instance] phraseAnswers plainFiles plainText

def createPhrase : Mutation (Option Json) := .createAccount "p".toList .hierarchicalDeterministicWallet

def importPhrase : Mutation (Option Json) :=
  .importMnemonic KnownAnswers.phrase [] Wallet.defaultPath "p".toList .bip39

def phraseKey : KeystoreKey :=
  (KeystoreKey.generate (phraseDraws []) "p".toList .hierarchicalDeterministicWallet).toOption.getD sampleKey

def phraseAccountAt (timestamp : Text) : Account :=
  ⟨phraseKey.address, .hierarchicalDeterministicWallet, sampleDirectory,
    KeyStore.generateFileName phraseKey.address timestamp⟩

def phraseURL : URL := ⟨sampleDirectory, "wallet".toList⟩

def phraseDisk : Dictionary URL (Entry (Option Json)) := AList.insert phraseURL (.file phraseKey.encode) ∅

def keyAt (url : URL) (s : Session (Option Json)) : Option KeystoreKey :=
  match s.disk.lookup url with
  | some (.file json) => (KeystoreKey.decode json).toOption
  | _ => none

theorem holds_of_keyAt {s : Session (Option Json)} {url : URL} {key : KeystoreKey} (h : keyAt url s = some key) :
    Holds s url key := by
  unfold keyAt at h
  split at h
  · rename_i json hj
    refine ⟨json, hj, ?_⟩
    cases hdecode : KeystoreKey.decode json with
    | error failure =>
      rw [hdecode] at h
      cases h
    | ok found =>
      rw [hdecode] at h
      cases h
      rfl
  · cases h

theorem phraseDisk_single : OneKeyPerAddress sampleDirectory (unopened sampleDirectory phraseDisk) := by
  have hurl : ∀ {url key}, Holds (unopened sampleDirectory phraseDisk) url key → url = phraseURL := by
    rintro url key ⟨json, hj, _⟩
    by_contra hne
    change (AList.insert phraseURL _ ∅).lookup url = _ at hj
    rw [AList.lookup_insert_ne hne] at hj
    cases hj
  intro url url' key key' _ _ hk hk' _
  rw [hurl hk, hurl hk']

theorem listing_sound_sample : phraseKey.address ≠ sampleKey.address ∧
    ∃ key, (KeyStore.opened sampleDirectory phraseDisk []).store.keysByAddress.lookup phraseKey.address = some key := by
  have hrun : keyAt phraseURL (KeyStore.opened sampleDirectory phraseDisk []) = some phraseKey ∧
      (KeyStore.opened sampleDirectory phraseDisk []).store.accountsByAddress.lookup phraseKey.address =
        some ⟨phraseKey.address, .hierarchicalDeterministicWallet, phraseURL⟩ ∧
      (sampleImport.perform (sampleDraws "1".toList) ((KeyStore.opened sampleDirectory phraseDisk []).withFaults [])).1 =
        .ok (some (sampleAccountAt "1".toList)) := by
    decide +kernel
  obtain ⟨hheld, hlisted, himport⟩ := hrun
  obtain ⟨hkeys, himports⟩ := listing_sound sampleDirectory phraseDisk
  constructor
  · exact himports phraseDisk_single _ (.opened []) [] (sampleDraws "1".toList) sampleImport
      (sampleAccountAt "1".toList) _ trivial (run_of_fst himport) phraseURL phraseKey ⟨rfl, rfl⟩
      (holds_of_keyAt hheld)
  · obtain ⟨_, key, hk, _⟩ := hkeys _ (.opened []) phraseKey.address
      ⟨phraseKey.address, .hierarchicalDeterministicWallet, phraseURL⟩ hlisted
    exact ⟨key, hk⟩

/-- A created account has the phrase of a file; it is deleted, and imported while
the file is still there. -/
theorem import_may_repeat : ¬ ∀ (directory : Text) (disk : Dictionary URL (Entry (Option Json))),
    OneKeyPerAddress directory (unopened directory disk) → ∀ s,
    Reached directory disk (fun s _ mutation => mutation.Current s) s →
    ∀ (faults : List Bool) (draws : Draws) (mutation : Mutation (Option Json)) (account : Account)
      (t : Session (Option Json)),
      mutation.Imports → mutation.perform draws (s.withFaults faults) = (.ok (some account), t) →
      ∀ url held, url.ShownIn directory → Holds s url held → held.address ≠ account.address := by
  intro h
  let created := (createPhrase.perform (phraseDraws "1".toList)
    ((KeyStore.opened sampleDirectory phraseDisk []).withFaults [])).2
  let deletion : Mutation (Option Json) := .delete (phraseAccountAt "1".toList) "p".toList
  let deleted := (deletion.perform (sampleDraws []) (created.withFaults [])).2
  have hrun : keyAt phraseURL deleted = some phraseKey ∧
      (importPhrase.perform (sampleDraws "2".toList) (deleted.withFaults [])).1 =
        .ok (some (phraseAccountAt "2".toList)) := by
    decide +kernel
  obtain ⟨hheld, himport⟩ := hrun
  have hcreated : Reached sampleDirectory phraseDisk (fun s _ mutation => mutation.Current s) created :=
    .call [] (phraseDraws "1".toList) createPhrase (.opened []) trivial
  have hdeleted : Reached sampleDirectory phraseDisk (fun s _ mutation => mutation.Current s) deleted :=
    .call [] (sampleDraws []) deletion hcreated trivial
  exact h sampleDirectory phraseDisk phraseDisk_single deleted hdeleted [] (sampleDraws "2".toList) importPhrase
    (phraseAccountAt "2".toList) _ trivial (run_of_fst himport) phraseURL phraseKey ⟨rfl, rfl⟩ (holds_of_keyAt hheld) rfl

end

end TronlinkCore.Keystore
