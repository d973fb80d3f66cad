import Detta.Core.Protocol

/-!
# Files of a node

A node keeps what it must not lose in files, one for each kind of data. A file is replaced as
a whole: the new content is written to another file, which then gets the name. So a file has
either the old content or the new one, and the content of a file is modelled as the value that
was written last. Any operation on a file may fail (`FileStorage.faults`), and what is too
long is neither written nor read.
-/

namespace Detta

open Json

inductive ValidatorSetMetadataAuditOutcome where
  | applied
  | pruned
  | rejected
deriving DecidableEq, Repr

structure ValidatorSetMetadataAuditRecord where
  updateId : String
  outcome : ValidatorSetMetadataAuditOutcome
  height : U64
  signers : List String
  reason : String
deriving DecidableEq, Repr

structure SnapshotImportAuditRecord where
  snapshotRoot : String
  manifestHash : String
  requiredMetadataRootsRoot : String
  requiredMetadataRootsCount : ℕ
  manifestMetadataRootsCount : ℕ
  chunkCount : U32
  metadataRootsVerified : Bool
deriving DecidableEq, Repr

structure SnapshotImportAuditConfig where
  maxRecords : ℕ
  maxPageSize : ℕ
deriving DecidableEq, Repr

/-- What a file may hold. -/
inductive StoredValue where
  | snapshot (snapshot : StateSnapshot)
  | roots (roots : Std.ExtTreeMap String String)
  | block (block : Block)
  | slashingRecord (record : SlashingRecord)
  | validatorSetMetadata (metadata : ValidatorSetMetadata)
  | authorizations (authorizations : List (Signed ProtocolMessage))
  | validatorSetMetadataAudit (records : List ValidatorSetMetadataAuditRecord)
  | snapshotImportAudit (records : List SnapshotImportAuditRecord)
  | snapshotImportAuditConfig (config : SnapshotImportAuditConfig)
  | mempool (transactions : List Transaction)

/-- What a node needs from libraries. -/
structure NodeEnv extends ProtocolEnv where
  /-- The JSON of what is stored. -/
  storedBytes : StoredValue → Bytes
  /-- The text of a failed operation. -/
  ioMessage : String

/-- The files of a node; those that are not there are `none`. -/
structure FileStorage where
  latestSnapshot : Option StateSnapshot
  latestSnapshotMetadataRoots : Option (Std.ExtTreeMap String String)
  latestRequiredSnapshotMetadataRoots : Option (Std.ExtTreeMap String String)
  blocks : Std.ExtTreeMap U64 Block
  slashings : Std.ExtTreeMap String SlashingRecord
  validatorSet : Option ValidatorSetMetadata
  pendingValidatorSetMetadataAuthorizations : Option (List (Signed ProtocolMessage))
  validatorSetMetadataAudit : Option (List ValidatorSetMetadataAuditRecord)
  snapshotImportAudit : Option (List SnapshotImportAuditRecord)
  snapshotImportAuditConfig : Option SnapshotImportAuditConfig
  mempool : Option (List Transaction)
  /-- For each of the next operations on files, whether it fails; all others succeed. -/
  faults : List Bool

/-- No files. -/
def FileStorage.empty : FileStorage where
  latestSnapshot := none
  latestSnapshotMetadataRoots := none
  latestRequiredSnapshotMetadataRoots := none
  blocks := ∅
  slashings := ∅
  validatorSet := none
  pendingValidatorSetMetadataAuthorizations := none
  validatorSetMetadataAudit := none
  snapshotImportAudit := none
  snapshotImportAuditConfig := none
  mempool := none
  faults := []

inductive FileStorageError where
  | storage (error : StorageError)
  | invalidSnapshot (error : SnapshotError)
deriving DecidableEq, Repr

/-- What an operation does to the files; what it has done stays done when it fails. -/
abbrev Storage := EStateM FileStorageError FileStorage

namespace Storage

variable (env : NodeEnv)

/-- An operation on a file, which may fail. -/
def access : Storage Unit := do
  let st ← get
  set { st with faults := st.faults.tail }
  ensure (st.faults.headD false = false) (.storage (.io env.ioMessage))

def encodeJson (value : StoredValue) : Except StorageError Bytes :=
  let bytes := env.storedBytes value
  if bytes.length > maxEncodedBytes then .error tooLong else .ok bytes

/-- The value has a length that is written and read. -/
def Fits (value : StoredValue) : Prop := (env.storedBytes value).length ≤ maxEncodedBytes

instance (value : StoredValue) : Decidable (Fits env value) := Nat.decLe _ _

def writeJsonAtomic (value : StoredValue) (replace : FileStorage → FileStorage) :
    Storage Unit := do
  ensure (Fits env value) (.storage tooLong)
  access env
  modify replace

/-- The content of a file that is there. -/
def readJson {α : Type} (stored : α → StoredValue) (content : α) : Storage α := do
  access env
  ensure (Fits env (stored content)) (.storage tooLong)
  return content

/-- The content of a file, if there is one. -/
def maybeReadJson {α : Type} (stored : α → StoredValue) (file : FileStorage → Option α) :
    Storage (Option α) := do
  match file (← get) with
  | none => return none
  | some content => return some (← readJson env stored content)

/-- The content of a file, or something else if there is no file. -/
def readJsonOr {α : Type} (stored : α → StoredValue) (default : α)
    (file : FileStorage → Option α) : Storage α := do
  return (← maybeReadJson env stored file).getD default

def hashCanonicalJson (value : StoredValue) : Except StorageError String := do
  let bytes ← encodeJson env value
  return hexLower (env.hashing.sha256
    (textBytes "detta-storage-root" ++ lengthBytes bytes.length ++ bytes))

/-- A result as a step over files. -/
def ofExcept {α : Type} : Except StorageError α → Storage α
  | .ok a => pure a
  | .error e => throw (.storage e)

def commitSnapshot (snapshot : StateSnapshot) : Storage Unit := do
  match fromSnapshot env.hashing snapshot with
  | .error error => throw (.invalidSnapshot error)
  | .ok _ => writeJsonAtomic env (.snapshot snapshot) fun st =>
      { st with latestSnapshot := some snapshot }

def loadSnapshot : Storage StateSnapshot := do
  let snapshot ← okOr (← maybeReadJson env .snapshot (·.latestSnapshot))
    (.storage (.io env.ioMessage))
  match fromSnapshot env.hashing snapshot with
  | .error error => throw (.invalidSnapshot error)
  | .ok _ => return snapshot

def commitSnapshotMetadataRoots (roots : Std.ExtTreeMap String String) : Storage Unit :=
  writeJsonAtomic env (.roots roots) fun st =>
    { st with latestSnapshotMetadataRoots := some roots }

def loadSnapshotMetadataRoots : Storage (Std.ExtTreeMap String String) :=
  readJsonOr env .roots ∅ (·.latestSnapshotMetadataRoots)

def commitRequiredSnapshotMetadataRoots (roots : Std.ExtTreeMap String String) : Storage Unit :=
  writeJsonAtomic env (.roots roots) fun st =>
    { st with latestRequiredSnapshotMetadataRoots := some roots }

def requiredSnapshotMetadataRootsRootFor (roots : Std.ExtTreeMap String String) :
    Except StorageError String := hashCanonicalJson env (.roots roots)

def commitBlock (block : Block) : Storage Unit :=
  writeJsonAtomic env (.block block) fun st =>
    { st with blocks := st.blocks.insert block.header.height block }

/-- The blocks of the files, in the order of their heights. -/
def loadBlocks : Storage (List Block) := do
  access env
  let st ← get
  st.blocks.values.mapM (readJson env .block)

def findReceipt (txHash : TxHash) : Storage (Option Receipt) := do
  let blocks ← loadBlocks env
  return blocks.findSome? fun block => block.receipts.find? (·.txHash = txHash)

def commitSlashingRecord (record : SlashingRecord) : Storage Unit :=
  writeJsonAtomic env (.slashingRecord record) fun st =>
    { st with slashings := st.slashings.insert record.validatorId record }

def commitValidatorSetMetadata (metadata : ValidatorSetMetadata) : Storage Unit :=
  writeJsonAtomic env (.validatorSetMetadata metadata) fun st =>
    { st with validatorSet := some metadata }

def maybeLoadValidatorSetMetadata : Storage (Option ValidatorSetMetadata) :=
  maybeReadJson env .validatorSetMetadata (·.validatorSet)

def commitPendingValidatorSetMetadataAuthorizations
    (authorizations : List (Signed ProtocolMessage)) : Storage Unit :=
  writeJsonAtomic env (.authorizations authorizations) fun st =>
    { st with pendingValidatorSetMetadataAuthorizations := some authorizations }

def loadPendingValidatorSetMetadataAuthorizations : Storage (List (Signed ProtocolMessage)) :=
  readJsonOr env .authorizations [] (·.pendingValidatorSetMetadataAuthorizations)

/-- The last records of a list. -/
def retain {α : Type} (records : List α) (maxRecords : ℕ) : List α :=
  records.drop (records.length - maxRecords)

def loadValidatorSetMetadataAuditRecords : Storage (List ValidatorSetMetadataAuditRecord) :=
  readJsonOr env .validatorSetMetadataAudit [] (·.validatorSetMetadataAudit)

def appendValidatorSetMetadataAuditRecordWithRetention
    (record : ValidatorSetMetadataAuditRecord) (maxRecords : ℕ) : Storage Unit := do
  let records ← loadValidatorSetMetadataAuditRecords env
  let records := retain (records ++ [record]) maxRecords
  writeJsonAtomic env (.validatorSetMetadataAudit records) fun st =>
    { st with validatorSetMetadataAudit := some records }

def validatorSetMetadataAuditRoot : Storage String := do
  let records ← loadValidatorSetMetadataAuditRecords env
  ofExcept (hashCanonicalJson env (.validatorSetMetadataAudit records))

def appendSnapshotImportAuditRecordWithRetention (record : SnapshotImportAuditRecord)
    (maxRecords : ℕ) : Storage Unit := do
  let records ← readJsonOr env .snapshotImportAudit [] (·.snapshotImportAudit)
  let records := retain (records ++ [record]) maxRecords
  writeJsonAtomic env (.snapshotImportAudit records) fun st =>
    { st with snapshotImportAudit := some records }

def commitSnapshotImportAuditConfig (config : SnapshotImportAuditConfig) : Storage Unit :=
  writeJsonAtomic env (.snapshotImportAuditConfig config) fun st =>
    { st with snapshotImportAuditConfig := some config }

def maybeLoadSnapshotImportAuditConfig : Storage (Option SnapshotImportAuditConfig) :=
  maybeReadJson env .snapshotImportAuditConfig (·.snapshotImportAuditConfig)

def commitMempool (transactions : List Transaction) : Storage Unit :=
  writeJsonAtomic env (.mempool transactions) fun st => { st with mempool := some transactions }

def loadMempool : Storage (List Transaction) := readJsonOr env .mempool [] (·.mempool)

end Storage

end Detta
