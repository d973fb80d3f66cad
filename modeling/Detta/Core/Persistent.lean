import Detta.Core.Storage

/-!
# Nodes with files

A node (`PersistentValidatorNode`) is a validator node that keeps its state, its mempool and
the keys of the validators in files, so that it can be started again. The keys change when a
quorum of the validators has signed an update: signed authorizations are kept until there are
enough of them. The node takes what it gets from the network (`ingestNetworkEnvelope`), and
also fetches and imports snapshots.

Left out is what is only reported: counters, latencies, alerts, subscriptions, known peers and
the sizes of pages.
-/

namespace Detta

open Std (ExtTreeMap ExtTreeSet)

def defaultNodeNetworkId : String := "detta-localnet"

def defaultMaxPendingValidatorSetMetadataUpdates : ℕ := 128

def defaultMaxPendingValidatorSetMetadataAuthorizationsPerValidator : ℕ := 32

def defaultMaxValidatorSetMetadataAuditRecords : ℕ := 4096

def defaultMaxSnapshotImportAuditRecords : ℕ := 4096

inductive RpcError where
  | mempool (error : MempoolError)
  | block (error : BlockError)
deriving DecidableEq, Repr

/-- The errors of a node that are not about its own signatures. -/
inductive PersistentNodeError where
  | rpc (error : RpcError)
  | storage (error : FileStorageError)
  | mempool (error : MempoolError)
  | network (message : String)
  | consensus (error : ConsensusError)
  | validatorKeyNotFound (validatorId : String)
  | signature (error : VerificationError)
  | snapshotSync (error : SnapshotSyncError)
  | unexpectedSignedMessage (expected actual : ProtocolMessageKind)
  | unexpectedSnapshotSyncMessage (expected actual : ProtocolMessageKind)
  | snapshotRootNotFound (requested available : String)
  | duplicateValidatorKey (validatorId : String)
  | validatorMetadataKeyNotFound (validatorId : String)
  | validatorSetMetadataUpdateAlreadyApplied (updateId : String)
  | validatorSetMetadataUpdateMismatch
  | validatorSetMetadataUpdateNotFound (updateId : String)
  | validatorSetMetadataUpdateExpired (updateId : String) (expiresAtHeight currentHeight : U64)
  | validatorSetMetadataAuthorizationPoolFull (pendingUpdates maxPendingUpdates : ℕ)
  | validatorSetMetadataAuthorizationRateLimited (signer : String)
      (pendingAuthorizations maxPendingAuthorizations : ℕ)
  | validatorSetChainMismatch (expected actual : String)
  | unsignedValidatorSetMetadataUpdate
deriving DecidableEq, Repr

/-- The names of errors, as they stand in the audit. -/
def nodeRpcErrorCode : PersistentNodeError → String
  | .validatorSetMetadataUpdateAlreadyApplied _ =>
    "node.validator_set_metadata_update_already_applied"
  | .validatorSetMetadataUpdateMismatch => "node.validator_set_metadata_update_mismatch"
  | .validatorSetMetadataUpdateNotFound _ => "node.validator_set_metadata_update_not_found"
  | .validatorSetMetadataUpdateExpired .. => "node.validator_set_metadata_update_expired"
  | .validatorSetMetadataAuthorizationPoolFull .. =>
    "node.validator_set_metadata_authorization_pool_full"
  | .validatorSetMetadataAuthorizationRateLimited .. =>
    "node.validator_set_metadata_authorization_rate_limited"
  | .unsignedValidatorSetMetadataUpdate => "node.unsigned_validator_set_metadata_update"
  | .signature _ => "node.validator_signature_error"
  | .validatorKeyNotFound _ => "node.validator_key_not_found"
  | .consensus (.quorumNotReached ..) => "node.validator_quorum_not_reached"
  | .mempool .chainMismatch => "mempool.chain_mismatch"
  | .mempool .invalidSignature => "mempool.invalid_signature"
  | .mempool (.unauthorizedSigner ..) => "mempool.unauthorized_signer"
  | .mempool (.transactionExpired ..) => "mempool.transaction_expired"
  | .mempool .duplicateTransaction => "mempool.duplicate_transaction"
  | .mempool .nonceAlreadyUsed => "mempool.nonce_already_used"
  | .mempool .insufficientBudget => "mempool.insufficient_budget"
  | .mempool (.transactionTooLarge ..) => "mempool.transaction_too_large"
  | .mempool (.poolFull _) => "mempool.pool_full"
  | .mempool (.senderPendingLimitExceeded ..) => "mempool.sender_pending_limit_exceeded"
  | _ => "node.error"

/-! ## Keys -/

/-- Whom a node believes: the keys of the validators of a network and a chain, and the updates
    that have led to them. -/
structure KeyRing where
  networkId : String
  chainId : String
  validatorKeys : ExtTreeMap String ValidatorPublicKey
  appliedValidatorSetUpdates : ExtTreeSet String

namespace ValidatorSetMetadataUpdate

variable (update : ValidatorSetMetadataUpdate)

def expired (currentHeight : U64) : Bool := update.expiresAtHeight.any (· ≤ currentHeight)

/-- Take the keys of some validators away. -/
def removeKeys (keyring : ExtTreeMap String ValidatorPublicKey) :
    List String → Except PersistentNodeError (ExtTreeMap String ValidatorPublicKey)
  | [] => .ok keyring
  | validatorId :: validatorIds =>
    if keyring.contains validatorId then removeKeys (keyring.erase validatorId) validatorIds
    else .error (.validatorMetadataKeyNotFound validatorId)

/-- Put keys into a keyring where they are not yet. -/
def addKeys (keyring : ExtTreeMap String ValidatorPublicKey) :
    List ValidatorPublicKey → Except PersistentNodeError
      (ExtTreeMap String ValidatorPublicKey)
  | [] => .ok keyring
  | publicKey :: publicKeys =>
    if keyring.contains publicKey.validatorId then
      .error (.duplicateValidatorKey publicKey.validatorId)
    else addKeys (keyring.insert publicKey.validatorId publicKey) publicKeys

def nextKeyring (keyring : ExtTreeMap String ValidatorPublicKey) :
    Except PersistentNodeError (ExtTreeMap String ValidatorPublicKey) := do
  addKeys (← removeKeys keyring update.removeValidators) update.addValidators

end ValidatorSetMetadataUpdate

def keyringFromMetadata (metadata : ValidatorSetMetadata) :
    Except PersistentNodeError (ExtTreeMap String ValidatorPublicKey) :=
  ValidatorSetMetadataUpdate.addKeys ∅ metadata.validators

namespace KeyRing

variable (env : NodeEnv) (k : KeyRing)

def validatorSetMetadataQuorum : ℕ := max (quorumFor k.validatorKeys.size) 1

def hasAppliedValidatorSetUpdate (updateId : String) : Bool :=
  k.appliedValidatorSetUpdates.contains updateId

def verifySignedValidatorMessage (signed : Signed ProtocolMessage) :
    Except PersistentNodeError Unit :=
  match k.validatorKeys[signed.signer]? with
  | none => .error (.validatorKeyNotFound signed.signer)
  | some publicKey =>
    (signed.verify env.toProtocolEnv k.networkId k.chainId publicKey).mapError .signature

def verifiedValidatorSetMetadataUpdate (signed : Signed ProtocolMessage) :
    Except PersistentNodeError ValidatorSetMetadataUpdate := do
  k.verifySignedValidatorMessage env signed
  match signed.message with
  | .validatorSetMetadataUpdate update => .ok update
  | other => .error (.unexpectedSignedMessage .validatorSetMetadataUpdate other.kind)

/-- The one update that messages authorize, and who has signed it. -/
def collectAuthorizations (authorized : Option ValidatorSetMetadataUpdate)
    (authorizers : ExtTreeSet String) :
    List ProtocolMessage → Except PersistentNodeError
      (Option ValidatorSetMetadataUpdate × ExtTreeSet String)
  | [] => .ok (authorized, authorizers)
  | .signedValidator signed :: messages => do
    let update ← k.verifiedValidatorSetMetadataUpdate env signed
    if k.hasAppliedValidatorSetUpdate update.updateId then
      .error (.validatorSetMetadataUpdateAlreadyApplied update.updateId)
    else if authorized.any (· ≠ update) then .error .validatorSetMetadataUpdateMismatch
    else collectAuthorizations (some update) (authorizers.insert signed.signer) messages
  | message :: _ => .error (.unexpectedSignedMessage .validatorSetMetadataUpdate message.kind)

/-- The keys after an update. -/
def updated (update : ValidatorSetMetadataUpdate)
    (keyring : ExtTreeMap String ValidatorPublicKey) : KeyRing :=
  { k with
    validatorKeys := keyring
    appliedValidatorSetUpdates := k.appliedValidatorSetUpdates.insert update.updateId }

/-- What is stored of the keys. -/
def metadata (k : KeyRing) : ValidatorSetMetadata :=
  ⟨k.networkId, k.chainId, k.validatorKeys.values, k.appliedValidatorSetUpdates.toList⟩

end KeyRing

/-! ## Nodes -/

/-- The authorizations that wait for others, by their updates and their signers. -/
abbrev PendingAuthorizations :=
  ExtTreeMap String (ExtTreeMap String (Signed ProtocolMessage))

/-- All authorizations that wait. -/
def PendingAuthorizations.flatten (pending : PendingAuthorizations) :
    List (Signed ProtocolMessage) :=
  pending.values.flatMap (·.values)

structure PersistentValidatorNode extends KeyRing where
  validatorId : String
  pendingAuthorizations : PendingAuthorizations
  maxPendingUpdates : ℕ
  maxPendingAuthorizationsPerValidator : ℕ
  maxValidatorSetMetadataAuditRecords : ℕ
  maxSnapshotImportAuditRecords : ℕ
  node : ValidatorNode
  storage : FileStorage

/-- What an operation does to a node; what it has done stays done when it fails. -/
abbrev PersistentNode := EStateM PersistentNodeError PersistentValidatorNode

namespace PersistentValidatorNode

variable (env : NodeEnv) (n : PersistentValidatorNode)

/-- A node that has nothing but a state, a mempool and files. -/
def ofNode (validatorId : String) (node : ValidatorNode) (storage : FileStorage) :
    PersistentValidatorNode where
  networkId := defaultNodeNetworkId
  chainId := node.state.chainId
  validatorKeys := ∅
  appliedValidatorSetUpdates := ∅
  validatorId := validatorId
  pendingAuthorizations := ∅
  maxPendingUpdates := defaultMaxPendingValidatorSetMetadataUpdates
  maxPendingAuthorizationsPerValidator :=
    defaultMaxPendingValidatorSetMetadataAuthorizationsPerValidator
  maxValidatorSetMetadataAuditRecords := defaultMaxValidatorSetMetadataAuditRecords
  maxSnapshotImportAuditRecords := defaultMaxSnapshotImportAuditRecords
  node := node
  storage := storage

def currentHeight : U64 := n.node.state.height

def rejectExpiredValidatorSetMetadataUpdate (update : ValidatorSetMetadataUpdate) :
    Except PersistentNodeError Unit :=
  match update.expiresAtHeight.filter (· ≤ n.currentHeight) with
  | some expiresAtHeight =>
    .error (.validatorSetMetadataUpdateExpired update.updateId expiresAtHeight n.currentHeight)
  | none => .ok ()

/-- The authorizations that wait for an update. -/
def authorizationsFor (updateId : String) : ExtTreeMap String (Signed ProtocolMessage) :=
  (n.pendingAuthorizations[updateId]?).getD ∅

/-- How many updates wait that a validator has signed. -/
def pendingAuthorizationsOf (signer : String) : ℕ :=
  n.pendingAuthorizations.values.countP (·.contains signer)

/-- The first authorization that waits for an update is for the same update. -/
def checkExistingAuthorization (update : ValidatorSetMetadataUpdate) :
    Except PersistentNodeError Unit :=
  match (n.authorizationsFor update.updateId).values.head? with
  | none => .ok ()
  | some existing => do
    let existingUpdate ← n.verifiedValidatorSetMetadataUpdate env existing
    if existingUpdate ≠ update then .error .validatorSetMetadataUpdateMismatch else .ok ()

/-- The node with one more authorization. -/
def addAuthorization (updateId : String) (signed : Signed ProtocolMessage) :
    PersistentValidatorNode :=
  { n with
    pendingAuthorizations := n.pendingAuthorizations.insert updateId
      ((n.authorizationsFor updateId).insert signed.signer signed) }

/-- Keep an authorization; how many there are for its update. -/
def insertPendingValidatorSetMetadataAuthorization (signed : Signed ProtocolMessage) :
    Except PersistentNodeError (PersistentValidatorNode × ℕ) := do
  let update ← n.verifiedValidatorSetMetadataUpdate env signed
  n.rejectExpiredValidatorSetMetadataUpdate update
  let pendingForSigner := n.pendingAuthorizationsOf signed.signer
  if n.hasAppliedValidatorSetUpdate update.updateId then
    .error (.validatorSetMetadataUpdateAlreadyApplied update.updateId)
  else if n.pendingAuthorizations.contains update.updateId = false ∧
      n.maxPendingUpdates ≤ n.pendingAuthorizations.size then
    .error (.validatorSetMetadataAuthorizationPoolFull n.pendingAuthorizations.size
      n.maxPendingUpdates)
  else if (n.authorizationsFor update.updateId).contains signed.signer = false ∧
      n.maxPendingAuthorizationsPerValidator ≤ pendingForSigner then
    .error (.validatorSetMetadataAuthorizationRateLimited signed.signer pendingForSigner
      n.maxPendingAuthorizationsPerValidator)
  else do
    n.checkExistingAuthorization env update
    let next := n.addAuthorization update.updateId signed
    return (next, (next.authorizationsFor update.updateId).size)

end PersistentValidatorNode

namespace PersistentNode

variable (env : NodeEnv)

/-- A result as a step of a node. -/
def ofExcept {α : Type} : Except PersistentNodeError α → PersistentNode α
  | .ok a => pure a
  | .error e => throw e

/-- A step over the files of a node. -/
def onStorage {α : Type} (m : Storage α) : PersistentNode α := fun n =>
  match m n.storage with
  | .ok a storage => .ok a { n with storage := storage }
  | .error e storage => .error (.storage e) { n with storage := storage }

/-- Go on after an error, with it. -/
def attempt {α : Type} (m : PersistentNode α) : PersistentNode (Except PersistentNodeError α) :=
  fun n =>
    match m n with
    | .ok a n => .ok (.ok a) n
    | .error e n => .ok (.error e) n

/-! ### Audit -/

def persistCurrentSnapshotMetadataRoots : PersistentNode Unit := onStorage do
  let metadataRoots ← Storage.loadSnapshotMetadataRoots env
  let root ← Storage.validatorSetMetadataAuditRoot env
  Storage.commitSnapshotMetadataRoots env
    (metadataRoots.insert "validator_set_metadata_audit_root" root)

def recordValidatorSetMetadataAudit (updateId : String)
    (outcome : ValidatorSetMetadataAuditOutcome) (signers : List String) (reason : String) :
    PersistentNode Unit := do
  let n ← get
  onStorage (Storage.appendValidatorSetMetadataAuditRecordWithRetention env
    ⟨updateId, outcome, n.currentHeight, signers, reason⟩ n.maxValidatorSetMetadataAuditRecords)
  persistCurrentSnapshotMetadataRoots env

/-! ### Validator sets -/

def persistValidatorSetMetadata (networkId : String) (validatorKeys : List ValidatorPublicKey) :
    PersistentNode Unit := do
  let n ← get
  let metadata : ValidatorSetMetadata := ⟨networkId, n.chainId, validatorKeys, []⟩
  let keyring ← ofExcept (keyringFromMetadata metadata)
  onStorage (Storage.commitValidatorSetMetadata env metadata)
  modify fun n =>
    { n with networkId := networkId, validatorKeys := keyring, appliedValidatorSetUpdates := ∅ }

def applyValidatorSetMetadata (metadata : ValidatorSetMetadata) : PersistentNode Unit := do
  let n ← get
  ensure (metadata.chainId = n.chainId) (.validatorSetChainMismatch n.chainId metadata.chainId)
  let keyring ← ofExcept (keyringFromMetadata metadata)
  set { n with
    networkId := metadata.networkId
    validatorKeys := keyring
    appliedValidatorSetUpdates := .ofList metadata.appliedUpdates }

def applyValidatorSetMetadataUpdate (update : ValidatorSetMetadataUpdate) :
    PersistentNode Unit := do
  let n ← get
  ensure (n.hasAppliedValidatorSetUpdate update.updateId = false)
    (.validatorSetMetadataUpdateAlreadyApplied update.updateId)
  let keyring ← ofExcept (update.nextKeyring n.validatorKeys)
  let next := n.toKeyRing.updated update keyring
  onStorage (Storage.commitValidatorSetMetadata env next.metadata)
  modify fun n => { n with toKeyRing := next }

def applyQuorumAuthorizedValidatorSetMetadataUpdateWithQuorum (messages : List ProtocolMessage)
    (quorum : ℕ) : PersistentNode Unit := do
  let n ← get
  let (authorized, authorizers) ← ofExcept (n.collectAuthorizations env none ∅ messages)
  ensure (quorum ≤ authorizers.size) (.consensus (.quorumNotReached authorizers.size quorum))
  let update ← okOr authorized (.consensus (.quorumNotReached 0 quorum))
  applyValidatorSetMetadataUpdate env update

def applyQuorumAuthorizedValidatorSetMetadataUpdate (messages : List ProtocolMessage) :
    PersistentNode Unit := do
  let n ← get
  applyQuorumAuthorizedValidatorSetMetadataUpdateWithQuorum env messages
    n.validatorSetMetadataQuorum

def persistPendingValidatorSetMetadataAuthorizations : PersistentNode Unit := do
  let n ← get
  onStorage (Storage.commitPendingValidatorSetMetadataAuthorizations env
    n.pendingAuthorizations.flatten)

def applyPendingValidatorSetMetadataUpdate (updateId : String) : PersistentNode Unit := do
  let n ← get
  let authorizations ← okOr n.pendingAuthorizations[updateId]?
    (.validatorSetMetadataUpdateNotFound updateId)
  let signers := authorizations.keys
  let messages := authorizations.values.map ProtocolMessage.signedValidator
  match ← attempt (applyQuorumAuthorizedValidatorSetMetadataUpdate env messages) with
  | .error error => do
    recordValidatorSetMetadataAudit env updateId .rejected signers (nodeRpcErrorCode error)
    throw error
  | .ok _ => do
    recordValidatorSetMetadataAudit env updateId .applied signers "applied"
    modify fun n =>
      { n with pendingAuthorizations := n.pendingAuthorizations.erase updateId }
    persistPendingValidatorSetMetadataAuthorizations env

/-- Keep a signed update; what is refused although the signature is good is put on record. -/
def recordPendingAuthorization (signed : Signed ProtocolMessage) : PersistentNode ℕ := do
  let n ← get
  match n.insertPendingValidatorSetMetadataAuthorization env signed with
  | .error error => do
    match n.verifiedValidatorSetMetadataUpdate env signed with
    | .ok update =>
      recordValidatorSetMetadataAudit env update.updateId .rejected [signed.signer]
        (nodeRpcErrorCode error)
    | .error _ => pure ()
    throw error
  | .ok (next, count) => do
    set next
    persistPendingValidatorSetMetadataAuthorizations env
    return count

def recordPendingValidatorSetMetadataAuthorization : ProtocolMessage → PersistentNode ℕ
  | .signedValidator signed => recordPendingAuthorization env signed
  | message => throw (.unexpectedSignedMessage .validatorSetMetadataUpdate message.kind)

/-- Keep a signed update, and apply it when it is the last one that was missing; whether it
    was. -/
def deliverAuthorization (signed : Signed ProtocolMessage) (updateId : String) :
    PersistentNode Bool := do
  let count ← recordPendingAuthorization env signed
  let n ← get
  if n.validatorSetMetadataQuorum ≤ count then do
    applyPendingValidatorSetMetadataUpdate env updateId
    return true
  else return false

structure ValidatorSetMetadataUpdateStatus where
  pendingAuthorizations : ℕ
  requiredQuorum : ℕ
  applied : Bool
  updateId : String
deriving DecidableEq, Repr

def proposeValidatorSetMetadataUpdateAuthorization (authorization : Signed ProtocolMessage) :
    PersistentNode ValidatorSetMetadataUpdateStatus := do
  let n ← get
  let update ← ofExcept (n.verifiedValidatorSetMetadataUpdate env authorization)
  let _ ← deliverAuthorization env authorization update.updateId
  let n ← get
  return ⟨(n.authorizationsFor update.updateId).size, n.validatorSetMetadataQuorum,
    n.hasAppliedValidatorSetUpdate update.updateId, update.updateId⟩

/-- The updates for which nothing has to wait any more, with their signers and the reasons. -/
def prunedUpdates (n : PersistentValidatorNode) :
    List (String × ExtTreeMap String (Signed ProtocolMessage)) →
      Except PersistentNodeError (List (String × List String × String))
  | [] => .ok []
  | (updateId, authorizations) :: rest =>
    match authorizations.values.head? with
    | none => do
      return (updateId, authorizations.keys, "empty_authorization_set") ::
        (← prunedUpdates n rest)
    | some signed => do
      let update ← n.verifiedValidatorSetMetadataUpdate env signed
      let pruned ← prunedUpdates n rest
      if n.hasAppliedValidatorSetUpdate updateId then
        return (updateId, authorizations.keys, "already_applied") :: pruned
      else if update.expired n.currentHeight then
        return (updateId, authorizations.keys, "expired") :: pruned
      else return pruned

def pruneValidatorSetMetadataAuthorizations : PersistentNode ℕ := do
  let n ← get
  let pruned ← ofExcept (prunedUpdates env n n.pendingAuthorizations.toList)
  onlyIf (pruned ≠ []) do
    forEach pruned fun (updateId, signers, reason) => do
      modify fun n =>
        { n with pendingAuthorizations := n.pendingAuthorizations.erase updateId }
      recordValidatorSetMetadataAudit env updateId .pruned signers reason
    persistPendingValidatorSetMetadataAuthorizations env
  return pruned.length

/-! ### Transactions, blocks and evidence -/

def persistMempool : PersistentNode Unit := do
  let n ← get
  onStorage (Storage.commitMempool env n.node.mempool.pending)

def persistCommittedBlock (block : Block) : PersistentNode Unit := do
  onStorage (Storage.commitBlock env block)
  let n ← get
  onStorage (Storage.commitSnapshot env (n.node.state.snapshot env.hashing))
  persistMempool env

def submitTransaction (tx : Transaction) : PersistentNode Unit := do
  let n ← get
  match n.node.submitTransaction env.hashing tx with
  | .error error => throw (.rpc (.mempool error))
  | .ok node => do
    set { n with node := node }
    persistMempool env

def importBlock (block : Block) : PersistentNode Unit := do
  let n ← get
  match n.node.validateAndApply env.toEnv block with
  | (_, some error) => throw (.rpc (.block error))
  | (node, none) => do
    set { n with node := node }
    persistCommittedBlock env block

/-- A block of pending transactions; they are gone also when it is refused. -/
def produceBlock (height timestamp : U64) : PersistentNode Block := do
  let n ← get
  let (node, block) := n.node.proposePendingBlock env.toEnv height timestamp
  set { n with node := node }
  importBlock env block
  return block

def persistEquivocationEvidence (evidence : EquivocationEvidence) :
    PersistentNode SlashingRecord := do
  let record : SlashingRecord := ⟨evidence.validatorId, evidence.height, evidence⟩
  onStorage (Storage.commitSlashingRecord env record)
  return record

/-! ### The network -/

inductive NetworkIngestOutcome where
  | transactionAccepted
  | blockImported
  | voteReceived
  | finalityCertificateReceived
  | equivocationEvidencePersisted
  | validatorSetMetadataUpdated
  | validatorSetMetadataAuthorizationStored
  | ignoredControlMessage
deriving DecidableEq, Repr

/-- Do what a message from the network asks for. A signed message is verified; an update is
    kept, and of any other the content is taken as if it had come alone. -/
def ingestNetworkEnvelope : ProtocolMessage → PersistentNode NetworkIngestOutcome
  | .transaction tx => do
    submitTransaction env tx
    return .transactionAccepted
  | .block block => do
    importBlock env block
    return .blockImported
  | .vote _ => return .voteReceived
  | .finalityCertificate _ => return .finalityCertificateReceived
  | .equivocationEvidence evidence => do
    let _ ← persistEquivocationEvidence env evidence
    return .equivocationEvidencePersisted
  | .validatorSetMetadataUpdate _ => throw .unsignedValidatorSetMetadataUpdate
  | .signedValidator ⟨signer, keyId, networkId, chainId, domain, message, signatureHex⟩ => do
    let n ← get
    let signed := ⟨signer, keyId, networkId, chainId, domain, message, signatureHex⟩
    ofExcept (n.verifySignedValidatorMessage env signed)
    match message with
    | .validatorSetMetadataUpdate update => do
      if ← deliverAuthorization env signed update.updateId then
        return .validatorSetMetadataUpdated
      else return .validatorSetMetadataAuthorizationStored
    | message => ingestNetworkEnvelope message
  | .validatorSetUpdate _ | .stateSnapshot _ | .peerHello _ | .snapshotChunkRequest _
  | .snapshotChunkManifest _ | .snapshotChunk _ => return .ignoredControlMessage

/-! ### Snapshots -/

/-- Put the state of a snapshot into the files; the node itself goes on with its own state. -/
def importSnapshotChunkSet (chunkSet : SnapshotChunkSet)
    (required : ExtTreeMap String String) : PersistentNode StateSnapshot := do
  match chunkSet.reconstructSnapshotWithMetadataRoots env.toProtocolEnv required with
  | .error error => throw (.snapshotSync error)
  | .ok snapshot => do
    onStorage (Storage.commitSnapshot env snapshot)
    onStorage (Storage.commitSnapshotMetadataRoots env chunkSet.manifest.metadataRoots)
    onStorage (Storage.commitRequiredSnapshotMetadataRoots env required)
    let root ← onStorage (Storage.ofExcept
      (Storage.requiredSnapshotMetadataRootsRootFor env required))
    let n ← get
    onStorage (Storage.appendSnapshotImportAuditRecordWithRetention env
      ⟨snapshot.globalStateRoot, chunkSet.manifest.manifestHash env.hashing, root,
        required.size, chunkSet.manifest.metadataRoots.size, chunkSet.manifest.chunkCount, true⟩
      n.maxSnapshotImportAuditRecords)
    return snapshot

def setSnapshotImportAuditLimits (maxRecords maxPageSize : ℕ) : PersistentNode Unit := do
  modify fun n => { n with maxSnapshotImportAuditRecords := maxRecords }
  onStorage (Storage.commitSnapshotImportAuditConfig env ⟨maxRecords, maxPageSize⟩)

/-! ### Start and restart -/

/-- Take the pending authorizations of a file one after the other; those of updates that are
    done or expired are dropped. -/
def loadAuthorizations : List (Signed ProtocolMessage) → PersistentNode Unit
  | [] => pure ()
  | signed :: rest => do
    let n ← get
    let update ← ofExcept (n.verifiedValidatorSetMetadataUpdate env signed)
    if n.hasAppliedValidatorSetUpdate update.updateId ∨ update.expired n.currentHeight then
      loadAuthorizations rest
    else do
      let (next, _) ← ofExcept (n.insertPendingValidatorSetMetadataAuthorization env signed)
      set next
      loadAuthorizations rest

def loadPendingValidatorSetMetadataAuthorizations : PersistentNode Unit := do
  let authorizations ← onStorage (Storage.loadPendingValidatorSetMetadataAuthorizations env)
  modify fun n => { n with pendingAuthorizations := ∅ }
  loadAuthorizations env authorizations
  persistPendingValidatorSetMetadataAuthorizations env

/-- Write the first files of a node. -/
def writeGenesis (state : DeTTaState) : PersistentNode Unit := onStorage do
  Storage.access env
  Storage.commitSnapshot env (state.snapshot env.hashing)
  Storage.commitMempool env []

def bootstrapWithValidatorSet (validatorId : String) (state : DeTTaState) (storage : FileStorage)
    (networkId : String) (validatorKeys : List ValidatorPublicKey) :
    Except PersistentNodeError PersistentValidatorNode :=
  let start := PersistentValidatorNode.ofNode validatorId (.new validatorId state) storage
  match (writeGenesis env state *> persistValidatorSetMetadata env networkId validatorKeys)
      start with
  | .ok _ n => .ok n
  | .error e _ => .error e

/-- The state and the mempool of the files. -/
def loadNode (validatorId : String) : Storage (Except PersistentNodeError ValidatorNode) := do
  Storage.access env
  let snapshot ← Storage.loadSnapshot env
  let pending ← Storage.loadMempool env
  return (ValidatorNode.withPendingTransactions env.hashing validatorId snapshot.state
    pending).mapError .mempool

def loadValidatorSetMetadata : PersistentNode Unit := do
  match ← onStorage (Storage.maybeLoadValidatorSetMetadata env) with
  | some metadata => applyValidatorSetMetadata metadata
  | none => pure ()

def loadSnapshotImportAuditConfig : PersistentNode Unit := do
  match ← onStorage (Storage.maybeLoadSnapshotImportAuditConfig env) with
  | some config =>
    modify fun n => { n with maxSnapshotImportAuditRecords := config.maxRecords }
  | none => pure ()

/-- Take over what the other files have. -/
def loadFiles : PersistentNode Unit := do
  loadValidatorSetMetadata env
  loadSnapshotImportAuditConfig env
  loadPendingValidatorSetMetadataAuthorizations env

def restart (validatorId : String) (storage : FileStorage) :
    Except PersistentNodeError PersistentValidatorNode :=
  match loadNode env validatorId storage with
  | .error e _ => .error (.storage e)
  | .ok (.error e) _ => .error e
  | .ok (.ok node) storage =>
    match loadFiles env (.ofNode validatorId node storage) with
    | .ok _ n => .ok n
    | .error e _ => .error e

end PersistentNode

/-! ## Operations -/

/-- An operation on a node. -/
inductive PersistentOp where
  | submitTransaction (tx : Transaction)
  | produceBlock (height timestamp : U64)
  | importBlock (block : Block)
  | ingestNetworkEnvelope (message : ProtocolMessage)
  | recordPending (message : ProtocolMessage)
  | propose (authorization : Signed ProtocolMessage)
  | prune
  | applyPending (updateId : String)
  | applyQuorumAuthorized (messages : List ProtocolMessage)
  | applyQuorumAuthorizedWithQuorum (messages : List ProtocolMessage) (quorum : ℕ)
  | persistEquivocationEvidence (evidence : EquivocationEvidence)
  | importSnapshotChunkSet (chunkSet : SnapshotChunkSet)
      (required : ExtTreeMap String String)
  | setAuthorizationLimits (maxPendingUpdates maxPendingAuthorizationsPerValidator : ℕ)
  | setValidatorSetMetadataAuditLimits (maxRecords : ℕ)
  | setSnapshotImportAuditLimits (maxRecords maxPageSize : ℕ)
  | setNetworkId (networkId : String)
  | trustValidatorKey (publicKey : ValidatorPublicKey)
  | persistValidatorSetMetadata (networkId : String) (validatorKeys : List ValidatorPublicKey)

namespace PersistentOp

open PersistentNode

/-- An operation without its result. -/
def run (env : NodeEnv) : PersistentOp → PersistentNode Unit
  | submitTransaction tx => PersistentNode.submitTransaction env tx
  | produceBlock height timestamp => discard (PersistentNode.produceBlock env height timestamp)
  | importBlock block => PersistentNode.importBlock env block
  | ingestNetworkEnvelope message => discard (PersistentNode.ingestNetworkEnvelope env message)
  | recordPending message =>
    discard (recordPendingValidatorSetMetadataAuthorization env message)
  | propose authorization =>
    discard (proposeValidatorSetMetadataUpdateAuthorization env authorization)
  | prune => discard (pruneValidatorSetMetadataAuthorizations env)
  | applyPending updateId => applyPendingValidatorSetMetadataUpdate env updateId
  | applyQuorumAuthorized messages =>
    applyQuorumAuthorizedValidatorSetMetadataUpdate env messages
  | applyQuorumAuthorizedWithQuorum messages quorum =>
    applyQuorumAuthorizedValidatorSetMetadataUpdateWithQuorum env messages quorum
  | persistEquivocationEvidence evidence =>
    discard (PersistentNode.persistEquivocationEvidence env evidence)
  | importSnapshotChunkSet chunkSet required =>
    discard (PersistentNode.importSnapshotChunkSet env chunkSet required)
  | setAuthorizationLimits maxPendingUpdates maxPendingAuthorizationsPerValidator =>
    modify fun n =>
      { n with
        maxPendingUpdates := maxPendingUpdates
        maxPendingAuthorizationsPerValidator := maxPendingAuthorizationsPerValidator }
  | setValidatorSetMetadataAuditLimits maxRecords =>
    modify fun n => { n with maxValidatorSetMetadataAuditRecords := maxRecords }
  | setSnapshotImportAuditLimits maxRecords maxPageSize =>
    PersistentNode.setSnapshotImportAuditLimits env maxRecords maxPageSize
  | setNetworkId networkId => modify fun n => { n with networkId := networkId }
  | trustValidatorKey publicKey =>
    modify fun n =>
      { n with validatorKeys := n.validatorKeys.insert publicKey.validatorId publicKey }
  | persistValidatorSetMetadata networkId validatorKeys =>
    PersistentNode.persistValidatorSetMetadata env networkId validatorKeys

/-- The node after an operation, whether it fails or not. -/
def apply (env : NodeEnv) (n : PersistentValidatorNode) (op : PersistentOp) :
    PersistentValidatorNode := endState (op.run env n)

end PersistentOp

/-! ## State sync -/

structure SnapshotSyncClientMetrics where
  requestsSent : ℕ := 0
  manifestsReceived : ℕ := 0
  chunksReceived : ℕ := 0
  resumeRequests : ℕ := 0
  metadataRootsVerified : Bool := false
  requiredMetadataRootsRoot : Option String := none
deriving DecidableEq, Repr

/-- A connection to a peer: the messages that come from it, one after the other, how many
    requests it takes, and the error with which it breaks. What the peer makes of the requests
    is in the messages. -/
structure TcpProtocolStream where
  incoming : List ProtocolMessage
  sends : ℕ
  failure : String
  sent : List SnapshotChunkRequest

namespace StateSync

/-- A step of a client, which takes messages from the peer. -/
abbrev Client := EStateM PersistentNodeError TcpProtocolStream

def receive : Client ProtocolMessage := do
  let stream ← get
  match stream.incoming with
  | [] => throw (.network stream.failure)
  | message :: incoming => do
    set { stream with incoming := incoming }
    return message

def receiveManifest : Client SnapshotChunkManifest := do
  match ← receive with
  | .snapshotChunkManifest manifest => return manifest
  | message => throw (.unexpectedSnapshotSyncMessage .snapshotChunkManifest message.kind)

def receiveChunks : ℕ → Client (List SnapshotChunk)
  | 0 => return []
  | count + 1 => do
    match ← receive with
    | .snapshotChunk chunk => return chunk :: (← receiveChunks count)
    | message => throw (.unexpectedSnapshotSyncMessage .snapshotChunk message.kind)

variable (env : NodeEnv) (snapshotRoot : String) (maxChunksPerRequest : U32)
  (required : ExtTreeMap String String)

/-- The manifest of the first answer; later ones must be the same. -/
def agreeOnManifest (manifest : Option SnapshotChunkManifest) (next : SnapshotChunkManifest) :
    Except SnapshotSyncError SnapshotChunkManifest :=
  match manifest with
  | none => .ok next
  | some manifest =>
    if manifest ≠ next then
      .error (.manifestHashMismatch (manifest.manifestHash env.hashing)
        (next.manifestHash env.hashing))
    else .ok manifest

/-- Ask for chunks until there are enough, or no more requests can be sent. -/
def fetchRounds (manifest : Option SnapshotChunkManifest) (chunks : List SnapshotChunk)
    (startIndex : ℕ) (metrics : SnapshotSyncClientMetrics) :
    ℕ → Client (SnapshotChunkSet × SnapshotSyncClientMetrics)
  | 0 => do throw (.network (← get).failure)
  | sends + 1 => do
    modify fun stream =>
      { stream with
        sent := stream.sent ++ [⟨snapshotRoot, .ofNat 32 startIndex, maxChunksPerRequest⟩] }
    let next ← receiveManifest
    match agreeOnManifest env manifest next with
    | .error error => throw (.snapshotSync error)
    | .ok manifest => do
      let expectedChunks := min (manifest.chunkCount.val - startIndex) maxChunksPerRequest.val
      let received ← receiveChunks expectedChunks
      let chunks := chunks ++ received
      let metrics : SnapshotSyncClientMetrics :=
        { metrics with
          requestsSent := metrics.requestsSent + 1
          resumeRequests := metrics.resumeRequests + if 0 < startIndex then 1 else 0
          manifestsReceived := metrics.manifestsReceived + 1
          chunksReceived := metrics.chunksReceived + received.length }
      if manifest.chunkCount.val ≤ chunks.length then
        let chunkSet : SnapshotChunkSet := ⟨manifest, chunks⟩
        match chunkSet.reconstructSnapshotWithMetadataRoots env.toProtocolEnv required with
        | .error error => throw (.snapshotSync error)
        | .ok _ => return (chunkSet, { metrics with metadataRootsVerified := true })
      else
        fetchRounds (some manifest) chunks (startIndex + expectedChunks) metrics sends

def fetchVerifiedSnapshotChunkSetOverTcpWithMetrics :
    Client (SnapshotChunkSet × SnapshotSyncClientMetrics) := do
  ensure (maxChunksPerRequest ≠ 0) (.snapshotSync .invalidChunkSize)
  match Storage.requiredSnapshotMetadataRootsRootFor env required with
  | .error error => throw (.storage (.storage error))
  | .ok root => do
    let stream ← get
    let (chunkSet, metrics) ←
      fetchRounds env snapshotRoot maxChunksPerRequest required none [] 0 {} stream.sends
    return (chunkSet, { metrics with requiredMetadataRootsRoot := some root })

end StateSync

end Detta
