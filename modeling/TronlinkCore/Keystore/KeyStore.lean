import TronlinkCore.Keystore.Disk

namespace TronlinkCore.Keystore

open Exceptions Throwing Io

variable {Document : Type} [JsonCoder Document] [Crypto] [Graphemes]

namespace KeyStore

def failed {ε α : Type} : Except ε α → Bool
  | .ok _ => false
  | .error _ => true

def retryDirectoryBackupExclusion : Io Document Unit := do
  let result ← attempt excludeFromBackup
  modifyStore (setBackupPending (failed result))

def noteUnread (url : URL) : Except Failure Document → KeyStore → KeyStore
  | .ok _ => id
  | .error failure => if failure = .cocoa .fileReadNoSuchFile then id else addPending url

def keyIn : Except Failure Document → Option KeystoreKey
  | .ok json => (KeystoreKey.decode json).toOption
  | .error _ => none

def readKey (url : URL) : Io Document (Option KeystoreKey) := do
  let json ← attempt (contents url)
  modifyStore (noteUnread url json)
  pure (keyIn json)

def protectFile (url : URL) : Io Document Unit := do
  let result ← attempt (do setAttributes; excludeFromBackup)
  modifyStore (if failed result then addPending url else id)

/-- What a file adds to the store: nothing over an entry that is already there -/
def register (url : URL) (key : KeystoreKey) (store : KeyStore) : KeyStore :=
  if url ∈ store.loadedAccountURLs then store
  else
    { store with
      loadedAccountURLs := insert url store.loadedAccountURLs
      keysByAddress := if (store.keysByAddress.lookup key.address).isNone then
          store.keysByAddress.insert key.address key
        else store.keysByAddress
      accountsByAddress := if (store.accountsByAddress.lookup key.address).isNone then
          store.accountsByAddress.insert key.address ⟨key.address, key.type, url⟩
        else store.accountsByAddress }

def loadKey (url : URL) : Option KeystoreKey → Io Document Unit
  | some key => do
    protectFile url
    modifyStore (register url key)
  | none => pure ()

def loadAccount (url : URL) : Io Document Unit := do
  let skipped ← isDirectory url
  if skipped then pure ()
  else do
    let key ← readKey url
    loadKey url key

def loadEach : List URL → Io Document Unit
  | [] => pure ()
  | url :: urls => do
    loadAccount url
    loadEach urls

def loadAccounts (urls : List URL) : Io Document Unit := do
  modifyStore clearPending
  loadEach urls

def listDirectory : Io Document (List URL) := do
  createDirectory
  retryDirectoryBackupExclusion
  contentsOfDirectory

def loadListing : Except Failure (List URL) → Io Document Unit
  | .error _ => modifyStore (setListingPending true)
  | .ok accountURLs => do
    modifyStore (setListingPending false)
    loadAccounts accountURLs

def load : Io Document Unit := do
  let accountURLs ← attempt listDirectory
  loadListing accountURLs

def retryBackup : Io Document Unit := do
  let s ← state
  if s.store.backupExclusionPending then retryDirectoryBackupExclusion else pure ()

def retryFiles : Io Document Unit := do
  let s ← state
  if s.store.directoryListingPending then load
  else if s.store.pendingAccountURLs ≠ [] then loadAccounts s.store.pendingAccountURLs
  else pure ()

def retryPending : Io Document Unit := do
  retryBackup
  retryFiles

def withStateLock {α : Type} (body : Io Document α) : Io Document α := do
  retryPending
  body

/-- `UTC--<created_at>--<address hex>` -/
def generateFileName (address : Address) (timestamp : Text) : Text :=
  "UTC--".toList ++ timestamp ++ "--".toList ++ Text.hex address.data

def makeAccountURL (draws : Draws) (address : Address) : Io Document URL := do
  let s ← state
  pure ⟨s.store.keyDirectory, generateFileName address draws.timestamp⟩

def replaceFile (draws : Draws) (url : URL) (json : Document) : Io Document Unit :=
  let temporaryURL : URL := ⟨url.directory, ".keystore-".toList ++ draws.temporaryName⟩
  deferring (removeItem temporaryURL) do
    writeEmpty temporaryURL
    excludeFromBackup
    writeHandle temporaryURL json
    rename temporaryURL url

def save (draws : Draws) (key : KeystoreKey) (url : URL) : Io Document Unit := do
  let s ← state
  require (s.store.hasUnreadableAccounts = false) (.cocoa .fileReadUnknown)
  modifyStore (setBackupPending true)
  excludeFromBackup
  modifyStore (setBackupPending false)
  replaceFile draws url key.encode

def accounts : Io Document (List Account) := withStateLock do
  let s ← state
  pure (s.store.accountsByAddress.entries.map (·.snd))

def account (address : Address) : Io Document (Option Account) := withStateLock do
  let s ← state
  pure (s.store.accountsByAddress.lookup address)

def key (address : Address) : Io Document (Option KeystoreKey) := withStateLock do
  let s ← state
  pure (s.store.keysByAddress.lookup address)

def storedKey (address : Address) : Io Document KeystoreKey := withStateLock do
  let s ← state
  ofExcept (unlessNone (.decrypt .missingAccountKey) (s.store.keysByAddress.lookup address))

def install (draws : Draws) (key : KeystoreKey) (account : Account) : Io Document Unit := do
  save draws key account.url
  modifyStore (cache key)
  modifyStore (list account key.address)

def createAccount (draws : Draws) (password : Text) (type : AccountType) : Io Document Account := do
  let key ← ofExcept (KeystoreKey.generate draws password type)
  let url ← makeAccountURL draws key.address
  let account : Account := ⟨key.address, type, url⟩
  withStateLock (install draws key account)
  pure account

def addAccount (draws : Draws) (account : Account) : Io Document Unit := withStateLock do
  let s ← state
  let key ← ofExcept (unlessNone (.decrypt .missingAccountKey) (s.store.keysByAddress.lookup account.address))
  save draws key account.url
  modifyStore (list account account.address)

def addKey (key : KeystoreKey) : Io Document Unit := withStateLock (modifyStore (cache key))

def installNew (draws : Draws) (newKey : KeystoreKey) (account : Account) : Io Document Unit := withStateLock do
  let s ← state
  require ((s.store.accountsByAddress.lookup newKey.address).isNone) (.keyStore .accountAlreadyExists)
  install draws newKey account

/-- `import(json:password:newPassword:)` -/
def importJson (draws : Draws) (json : Document) (password newPassword : Text) : Io Document Account := do
  let key ← ofExcept (KeystoreKey.decode json)
  let existing ← account key.address
  require existing.isNone (.keyStore .accountAlreadyExists)
  let newKey ← ofExcept (KeystoreKey.reimport draws key password newPassword)
  require (newKey.address = key.address) (.keyStore .invalidKey)
  let url ← makeAccountURL draws newKey.address
  let account : Account := ⟨newKey.address, key.type, url⟩
  installNew draws newKey account
  pure account

/-- `import(mnemonic:passphrase:derivationPath:encryptPassword:normalization:)` -/
def importMnemonic (draws : Draws) (mnemonic passphrase derivationPath encryptPassword : Text)
    (normalization : Normalization) : Io Document Account := do
  require (Mnemonic.isValid mnemonic) (.keyStore .invalidMnemonic)
  let privateKey ← ofExcept (Wallet.privateKey mnemonic passphrase derivationPath normalization)
  let address ← ofExcept (decodeAddress (Crypto.publicKey65 privateKey))
  let existing ← account address
  require existing.isNone (.keyStore .accountAlreadyExists)
  let newKey ← ofExcept
    (KeystoreKey.ofMnemonic draws encryptPassword mnemonic passphrase derivationPath normalization)
  let url ← makeAccountURL draws address
  let account : Account := ⟨address, .hierarchicalDeterministicWallet, url⟩
  installNew draws newKey account
  pure account

def exportAccount (draws : Draws) (account : Account) (password newPassword : Text) : Io Document Document := do
  let key ← storedKey account.address
  let newKey ← ofExcept (KeystoreKey.rekey draws key password newPassword key.derivationPath)
  pure newKey.encode

def update (draws : Draws) (account : Account) (password newPassword : Text) (derivationPath : Option Text) :
    Io Document Unit := do
  let key ← storedKey account.address
  let newKey ← ofExcept
    (KeystoreKey.rekey draws key password newPassword (derivationPath.getD key.derivationPath))
  require (newKey.address = key.address) (.keyStore .invalidKey)
  withStateLock do
    save draws newKey account.url
    modifyStore (cache newKey)

def storedAccount (address : Address) : Io Document (KeystoreKey × Account) := withStateLock do
  let s ← state
  let key ← ofExcept (unlessNone (.decrypt .missingAccountKey) (s.store.keysByAddress.lookup address))
  let account ← ofExcept (unlessNone (.decrypt .missingAccountKey) (s.store.accountsByAddress.lookup address))
  pure (key, account)

def delete (account : Account) (password : Text) : Io Document Unit := do
  let (key, storedAccount) ← storedAccount account.address
  let _ ← ofExcept (key.decrypt password)
  withStateLock do
    let s ← state
    require (s.store.hasUnreadableAccounts = false) (.cocoa .fileReadUnknown)
    removeItem storedAccount.url
    modifyStore (forget account.address)

def closed (keyDirectory : Text) : KeyStore where
  keyDirectory := keyDirectory
  accountsByAddress := ∅
  keysByAddress := ∅
  pendingAccountURLs := []
  loadedAccountURLs := ∅
  directoryListingPending := false
  backupExclusionPending := true

/-- `KeyStore(keyDirectory:)` -/
def opened (keyDirectory : Text) (disk : Dictionary URL (Entry Document)) (faults : List Bool) : Session Document :=
  (load ⟨closed keyDirectory, disk, faults⟩).2

end KeyStore

inductive Mutation (Document : Type) where
  | createAccount (password : Text) (type : AccountType)
  | addAccount (account : Account)
  | importJson (json : Document) (password newPassword : Text)
  | importMnemonic (mnemonic passphrase derivationPath encryptPassword : Text) (normalization : Normalization)
  | update (account : Account) (password newPassword : Text) (derivationPath : Option Text)
  | delete (account : Account) (password : Text)

def Mutation.perform (draws : Draws) : Mutation Document → Io Document (Option Account)
  | .createAccount password type => some <$> KeyStore.createAccount draws password type
  | .addAccount account => do
    KeyStore.addAccount draws account
    pure none
  | .importJson json password newPassword => some <$> KeyStore.importJson draws json password newPassword
  | .importMnemonic mnemonic passphrase derivationPath encryptPassword normalization =>
    some <$> KeyStore.importMnemonic draws mnemonic passphrase derivationPath encryptPassword normalization
  | .update account password newPassword derivationPath => do
    KeyStore.update draws account password newPassword derivationPath
    pure none
  | .delete account password => do
    KeyStore.delete account password
    pure none

end TronlinkCore.Keystore
