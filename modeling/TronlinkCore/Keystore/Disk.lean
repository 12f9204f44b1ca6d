import TronlinkCore.Keystore.KeyFile
import TronlinkCore.Library.Throwing
import Mathlib.Data.List.AList
import Mathlib.Data.Finset.Insert

/-!
The files of a key store. Every access to them can fail, and a failed access
changes nothing.
-/

namespace TronlinkCore.Keystore

open Throwing

abbrev Dictionary (Key Value : Type) [DecidableEq Key] : Type := AList fun _ : Key => Value

structure URL where
  directory : Text
  lastPathComponent : Text
  deriving DecidableEq

namespace URL

def isHidden (url : URL) : Bool := url.lastPathComponent.head? = some '.'

def ShownIn (directory : Text) (url : URL) : Prop := url.directory = directory ∧ url.isHidden = false

instance (directory : Text) (url : URL) : Decidable (url.ShownIn directory) := inferInstanceAs (Decidable (_ ∧ _))

end URL

inductive Entry (Document : Type) where
  | file (contents : Document)
  | directory

namespace Entry

def isDirectory {Document : Type} : Option (Entry Document) → Bool
  | some .directory => true
  | _ => false

def contents {Document : Type} : Option (Entry Document) → Except Failure Document
  | some (.file json) => .ok json
  | some .directory => .error (.cocoa .fileReadUnknown)
  | none => .error (.cocoa .fileReadNoSuchFile)

end Entry

structure Account where
  address : Address
  type : AccountType
  url : URL
  deriving DecidableEq

structure KeyStore where
  keyDirectory : Text
  accountsByAddress : Dictionary Address Account
  keysByAddress : Dictionary Address KeystoreKey
  pendingAccountURLs : List URL
  loadedAccountURLs : Finset URL
  directoryListingPending : Bool
  backupExclusionPending : Bool

namespace KeyStore

def hasUnreadableAccounts (store : KeyStore) : Bool :=
  store.directoryListingPending || store.pendingAccountURLs.any (· ∉ store.loadedAccountURLs)

def cache (key : KeystoreKey) (store : KeyStore) : KeyStore :=
  { store with keysByAddress := store.keysByAddress.insert key.address key }

def list (account : Account) (address : Address) (store : KeyStore) : KeyStore :=
  { store with accountsByAddress := store.accountsByAddress.insert address account }

def forget (address : Address) (store : KeyStore) : KeyStore :=
  { store with
    keysByAddress := store.keysByAddress.erase address
    accountsByAddress := store.accountsByAddress.erase address }

def addPending (url : URL) (store : KeyStore) : KeyStore :=
  { store with pendingAccountURLs := store.pendingAccountURLs ++ [url] }

def clearPending (store : KeyStore) : KeyStore := { store with pendingAccountURLs := [] }

def setListingPending (pending : Bool) (store : KeyStore) : KeyStore :=
  { store with directoryListingPending := pending }

def setBackupPending (pending : Bool) (store : KeyStore) : KeyStore :=
  { store with backupExclusionPending := pending }

end KeyStore

structure Session (Document : Type) where
  store : KeyStore
  disk : Dictionary URL (Entry Document)
  faults : List Bool

abbrev Io (Document : Type) := Throwing (Session Document) Failure

variable {Document : Type}

def Session.withStore (f : KeyStore → KeyStore) (s : Session Document) : Session Document :=
  { s with store := f s.store }

def Session.withDisk (f : Dictionary URL (Entry Document) → Dictionary URL (Entry Document))
    (s : Session Document) : Session Document :=
  { s with disk := f s.disk }

def Session.withFaults (faults : List Bool) (s : Session Document) : Session Document := { s with faults }

namespace Io

def modifyStore (f : KeyStore → KeyStore) : Io Document Unit := update (Session.withStore f)

def modifyDisk (f : Dictionary URL (Entry Document) → Dictionary URL (Entry Document)) : Io Document Unit :=
  update (Session.withDisk f)

def access (failure : Failure) : Io Document Unit := fun s =>
  match s.faults with
  | [] => (.ok (), s)
  | fault :: faults => (if fault then .error failure else .ok (), { s with faults })

def entry (url : URL) : Io Document (Option (Entry Document)) := do
  let s ← state
  pure (s.disk.lookup url)

def contents (url : URL) : Io Document Document := do
  access (.cocoa .fileReadUnknown)
  let entry ← entry url
  ofExcept (Entry.contents entry)

/-- `contentsOfDirectory(at:options: [.skipsHiddenFiles])` -/
def contentsOfDirectory : Io Document (List URL) := do
  access (.cocoa .fileReadUnknown)
  let s ← state
  pure (s.disk.keys.filter (·.ShownIn s.store.keyDirectory))

def createDirectory : Io Document Unit := access (.cocoa .fileWriteUnknown)

def excludeFromBackup : Io Document Unit := access (.cocoa .fileWriteUnknown)

def setAttributes : Io Document Unit := access (.cocoa .fileWriteUnknown)

/-- `write(to:options: [.withoutOverwriting])` of no bytes -/
def writeEmpty [JsonCoder Document] (url : URL) : Io Document Unit := do
  access (.cocoa .fileWriteUnknown)
  let entry ← entry url
  require (entry.isNone) (.cocoa .fileWriteUnknown)
  modifyDisk (·.insert url (.file JsonCoder.empty))

/-- `FileHandle`: open, write, synchronize and close -/
def writeHandle (url : URL) (json : Document) : Io Document Unit := do
  access (.cocoa .fileNoSuchFile)
  access (.cocoa .fileWriteUnknown)
  modifyDisk (·.insert url (.file json))
  access (.cocoa .fileWriteUnknown)
  access (.cocoa .fileWriteUnknown)

def isDirectory (url : URL) : Io Document Bool := do
  let entry ← entry url
  pure (Entry.isDirectory entry)

def rename (source target : URL) : Io Document Unit := do
  access .posix
  let occupied ← isDirectory target
  require (occupied = false) .posix
  let moved ← entry source
  match moved with
  | some entry => modifyDisk fun disk => (disk.erase source).insert target entry
  | none => fail .posix

def removeItem (url : URL) : Io Document Unit := do
  access (.cocoa .fileWriteUnknown)
  let entry ← entry url
  require (entry.isSome) (.cocoa .fileNoSuchFile)
  modifyDisk (·.erase url)

end Io

structure Idle (s t : Session Document) : Prop where
  store : t.store = s.store
  disk : t.disk = s.disk

instance : IsPreorder (Session Document) Idle where
  refl _ := ⟨rfl, rfl⟩
  trans _ _ _ h₁ h₂ := ⟨h₂.store.trans h₁.store, h₂.disk.trans h₁.disk⟩

namespace Io

theorem access_idle (failure : Failure) : Keeps Idle (access failure : Io Document Unit) := by
  intro s
  unfold access
  split
  · exact ⟨rfl, rfl⟩
  · exact ⟨rfl, rfl⟩

theorem access_run {s : Session Document} (hf : s.faults = []) (failure : Failure) :
    (access failure : Io Document Unit) s = (.ok (), s) := by rw [access, hf]

@[simp] theorem entry_run (url : URL) (s : Session Document) : entry url s = (.ok (s.disk.lookup url), s) := rfl

theorem isDirectory_run (url : URL) (s : Session Document) :
    isDirectory url s = (.ok (Entry.isDirectory (s.disk.lookup url)), s) := rfl

theorem contents_idle (url : URL) : Keeps Idle (contents url : Io Document Document) := by
  apply (access_idle _).bind
  intro _ s
  exact ⟨rfl, rfl⟩

theorem access_result (failure : Failure) (s : Session Document) :
    (access failure s).1 = .ok () ∨ (access failure s).1 = .error failure := by
  unfold access
  split
  · exact .inl rfl
  · dsimp only
    split
    · exact .inr rfl
    · exact .inl rfl

theorem contents_of_file {url : URL} {s : Session Document} {json : Document}
    (h : s.disk.lookup url = some (.file json)) :
    (contents url s).1 = .ok json ∨ (contents url s).1 = .error (.cocoa .fileReadUnknown) := by
  have hidle := access_idle (.cocoa .fileReadUnknown) s
  rcases access_result (.cocoa .fileReadUnknown) s with ha | ha
  · left
    rw [contents, bind_of_ok (run_of_fst ha), bind_of_ok (entry_run url _), hidle.disk, h]
    rfl
  · right
    rw [contents, bind_of_error (run_of_fst ha)]

theorem contents_eq_ok {url : URL} {s t : Session Document} {json : Document}
    (h : contents url s = (.ok json, t)) : s.disk.lookup url = some (.file json) := by
  rw [contents, bind_eq_ok] at h
  obtain ⟨_, u, hu, h⟩ := h
  have hidle := access_idle (.cocoa .fileReadUnknown) s
  rw [hu] at hidle
  rw [bind_of_ok (entry_run url u), ofExcept_run, Prod.mk.injEq, hidle.disk] at h
  have hc := h.1
  cases he : s.disk.lookup url with
  | none =>
    rw [he] at hc
    cases hc
  | some entry =>
    rw [he] at hc
    cases entry with
    | file contents =>
      cases hc
      rfl
    | directory => cases hc

theorem contentsOfDirectory_idle : Keeps Idle (contentsOfDirectory : Io Document (List URL)) :=
  (access_idle _).bind fun _ => keeps_state.bind fun _ => keeps_pure _

theorem contentsOfDirectory_eq_ok {s t : Session Document} {urls : List URL}
    (h : contentsOfDirectory s = (.ok urls, t)) :
    urls = s.disk.keys.filter (·.ShownIn s.store.keyDirectory) := by
  rw [contentsOfDirectory, bind_eq_ok] at h
  obtain ⟨_, u, hu, h⟩ := h
  have hidle := access_idle (.cocoa .fileReadUnknown) s
  rw [hu] at hidle
  rw [state_bind, pure_run, Prod.mk.injEq, Except.ok.injEq] at h
  rw [← h.1, hidle.disk, hidle.store]

end Io

end TronlinkCore.Keystore
