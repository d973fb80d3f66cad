import Detta.Base.Files
import Detta.Core.Consensus

/-!
# What a validator signs

Before a validator signs a proposal, a vote or a certificate it reserves the height: a file
that is named after the validator, the kind of the message and the height gets the hash of
the block, and is never overwritten. When the file is already there, the hash in it decides.

The steps over files are those of `FileProgram`. How a record is read back from bytes, the
signature scheme and the texts of failed file operations are outside of the repository
(`SigningEnv`).
-/

namespace Detta

open Json

inductive ValidatorSignatureDomain where
  | blockProposal
  | vote
  | finalityCertificate
  | validatorSetUpdate
  | equivocationEvidence
  | validatorSetMetadataUpdate
deriving DecidableEq, Repr

def ValidatorSignatureDomain.json : ValidatorSignatureDomain → Json
  | blockProposal => str "BlockProposal"
  | vote => str "Vote"
  | finalityCertificate => str "FinalityCertificate"
  | validatorSetUpdate => str "ValidatorSetUpdate"
  | equivocationEvidence => str "EquivocationEvidence"
  | validatorSetMetadataUpdate => str "ValidatorSetMetadataUpdate"

def validatorSignatureDomainPath : ValidatorSignatureDomain → String
  | .blockProposal => "block_proposal"
  | .vote => "vote"
  | .finalityCertificate => "finality_certificate"
  | .validatorSetUpdate => "validator_set_update"
  | .equivocationEvidence => "equivocation_evidence"
  | .validatorSetMetadataUpdate => "validator_set_metadata_update"

structure ConsensusSigningRecord where
  validatorId : String
  domain : ValidatorSignatureDomain
  height : U64
  blockHash : String
deriving DecidableEq, Repr

def ConsensusSigningRecord.json (r : ConsensusSigningRecord) : Json :=
  obj [("validator_id", str r.validatorId), ("domain", r.domain.json), ("height", word r.height),
    ("block_hash", str r.blockHash)]

/-! ## Messages -/

inductive ProtocolMessageKind where
  | transaction
  | block
  | vote
  | finalityCertificate
  | validatorSetUpdate
  | equivocationEvidence
  | stateSnapshot
  | peerHello
  | signedValidator
  | snapshotChunkRequest
  | snapshotChunkManifest
  | snapshotChunk
  | validatorSetMetadataUpdate
deriving DecidableEq, Repr

/-- The messages of the network. Of those that are signed without a reservation, and of those
    that are not signed at all, nothing but the kind is looked at. -/
inductive NetworkMessage where
  | transaction
  | block (b : Block)
  | vote (v : Vote)
  | finalityCertificate (c : FinalityCertificate)
  | validatorSetUpdate
  | equivocationEvidence
  | stateSnapshot
  | peerHello
  | signedValidator
  | snapshotChunkRequest
  | snapshotChunkManifest
  | snapshotChunk
  | validatorSetMetadataUpdate

namespace NetworkMessage

def kind : NetworkMessage → ProtocolMessageKind
  | transaction => .transaction
  | block _ => .block
  | vote _ => .vote
  | finalityCertificate _ => .finalityCertificate
  | validatorSetUpdate => .validatorSetUpdate
  | equivocationEvidence => .equivocationEvidence
  | stateSnapshot => .stateSnapshot
  | peerHello => .peerHello
  | signedValidator => .signedValidator
  | snapshotChunkRequest => .snapshotChunkRequest
  | snapshotChunkManifest => .snapshotChunkManifest
  | snapshotChunk => .snapshotChunk
  | validatorSetMetadataUpdate => .validatorSetMetadataUpdate

end NetworkMessage

inductive SignatureError where
  | unsupportedMessageKind (kind : ProtocolMessageKind)
  | encodeFailed
deriving DecidableEq, Repr

inductive StorageError where
  | io (message : String)
  | corruptData (message : String)
deriving DecidableEq, Repr

inductive NodeError where
  | signingKeyMismatch (expected actual : String)
  | consensusMessageSignerMismatch (expected actual : String)
  | consensusSigningConflict (validatorId : String) (domain : ValidatorSignatureDomain)
      (height : U64) (existingBlockHash attemptedBlockHash : String)
  | storage (error : StorageError)
  | signature (error : SignatureError)
deriving DecidableEq, Repr

def expectedSignatureDomain : NetworkMessage → Except SignatureError ValidatorSignatureDomain
  | .block _ => .ok .blockProposal
  | .vote _ => .ok .vote
  | .finalityCertificate _ => .ok .finalityCertificate
  | .validatorSetUpdate => .ok .validatorSetUpdate
  | .validatorSetMetadataUpdate => .ok .validatorSetMetadataUpdate
  | .equivocationEvidence => .ok .equivocationEvidence
  | other => .error (.unsupportedMessageKind other.kind)

/-- A key, with the signature that it makes of a message for a network and a chain (or
    nothing, when the message cannot be encoded). -/
structure ValidatorSigningKey where
  validatorId : String
  keyId : String
  sign : ValidatorSignatureDomain → String → String → NetworkMessage → Option String

structure SignedValidatorMessage where
  signer : String
  keyId : String
  networkId : String
  chainId : String
  domain : ValidatorSignatureDomain
  message : NetworkMessage
  signatureHex : String

def ValidatorSigningKey.signMessage (key : ValidatorSigningKey) (networkId chainId : String)
    (message : NetworkMessage) : Except SignatureError SignedValidatorMessage := do
  let domain ← expectedSignatureDomain message
  match key.sign domain networkId chainId message with
  | none => .error .encodeFailed
  | some signatureHex =>
    .ok ⟨key.validatorId, key.keyId, networkId, chainId, domain, message, signatureHex⟩

/-! ## Records on disk -/

/-- What signing needs from libraries. -/
structure SigningEnv where
  hashing : Hashing
  parseRecord : Bytes → Except String ConsensusSigningRecord
  /-- The text of a failed operation. -/
  ioMessage : String

/-- The components of a path, from the root of the storage. -/
abbrev StoragePath := List String

def maxEncodedBytes : ℕ := 64 * 1024 * 1024

def tooLong : StorageError :=
  .corruptData "encoded storage value exceeds 67108864 bytes"

def fileSafeId (value : String) : String := hexLower (textBytes value)

def consensusSigningRecordPath (validatorId : String) (domain : ValidatorSignatureDomain)
    (height : U64) : StoragePath :=
  ["consensus_signing_records", validatorSignatureDomainPath domain, fileSafeId validatorId,
    toString height.val ++ ".bin"]

namespace SigningEnv

variable (env : SigningEnv)

open FileProgram

def io : StorageError := .io env.ioMessage

def encodeJson (value : Json) : Except StorageError Bytes :=
  let bytes := env.hashing.canonicalBytes value
  if bytes.length > maxEncodedBytes then .error tooLong else .ok bytes

def readJson (path : StoragePath) :
    FileProgram StoragePath (Except StorageError ConsensusSigningRecord) := do
  match ← lengthOf path with
  | none => pure (.error env.io)
  | some encodedLen =>
    if encodedLen > maxEncodedBytes then pure (.error tooLong)
    else
      match ← readToEnd path with
      | none => pure (.error (.corruptData env.ioMessage))
      | some bytes => pure ((env.parseRecord bytes).mapError .corruptData)

def writeJsonCreateNew (path : StoragePath) (record : ConsensusSigningRecord) :
    FileProgram StoragePath (Except StorageError Unit) := do
  -- the directory, then the bytes, then the file
  if ← tryTo then
    match env.encodeJson record.json with
    | .error error => pure (.error error)
    | .ok bytes =>
      if ← createNew path then
        if ← writeAll path bytes then
          if ← tryTo then pure (.ok ()) else pure (.error env.io)
        else pure (.error env.io)
      else pure (.error env.io)
  else pure (.error env.io)

/-- The record that was there before, if any. -/
def commitConsensusSigningRecordIfAbsent (record : ConsensusSigningRecord) :
    FileProgram StoragePath (Except StorageError (Option ConsensusSigningRecord)) := do
  let path := consensusSigningRecordPath record.validatorId record.domain record.height
  if (← lengthOf path).isSome then
    let existing ← env.readJson path
    pure (existing.map some)
  else
    match ← env.writeJsonCreateNew path record with
    | .ok () => pure (.ok none)
    | .error (.io message) =>
      if (← lengthOf path).isSome then
        let existing ← env.readJson path
        pure (existing.map some)
      else pure (.error (.io message))
    | .error error => pure (.error error)

end SigningEnv

/-! ## Signing -/

structure ConsensusSigningCommitment where
  domain : ValidatorSignatureDomain
  height : U64
  blockHash : String
deriving DecidableEq, Repr

def consensusSigningCommitment (h : Hashing) (validatorId : String) :
    NetworkMessage → Except NodeError (Option ConsensusSigningCommitment)
  | .block b =>
    if b.header.proposer ≠ validatorId then
      .error (.consensusMessageSignerMismatch validatorId b.header.proposer)
    else .ok (some ⟨.blockProposal, b.header.height, b.blockHash h⟩)
  | .vote v =>
    if v.validatorId ≠ validatorId then
      .error (.consensusMessageSignerMismatch validatorId v.validatorId)
    else .ok (some ⟨.vote, v.height, v.blockHash⟩)
  | .finalityCertificate c => .ok (some ⟨.finalityCertificate, c.height, c.blockHash⟩)
  | _ => .ok none

/-- What a node signs with. -/
structure SigningNode where
  validatorId : String
  networkId : String
  chainId : String
deriving DecidableEq, Repr

namespace SigningNode

variable (env : SigningEnv) (node : SigningNode)

open FileProgram

def reserveConsensusSigningRecord (message : NetworkMessage) :
    FileProgram StoragePath (Except NodeError Unit) :=
  match consensusSigningCommitment env.hashing node.validatorId message with
  | .error error => pure (.error error)
  | .ok none => pure (.ok ())
  | .ok (some commitment) => do
    let record : ConsensusSigningRecord :=
      ⟨node.validatorId, commitment.domain, commitment.height, commitment.blockHash⟩
    match ← env.commitConsensusSigningRecordIfAbsent record with
    | .error error => pure (.error (.storage error))
    | .ok none => pure (.ok ())
    | .ok (some existing) =>
      if existing.blockHash ≠ record.blockHash then
        pure (.error (.consensusSigningConflict record.validatorId record.domain record.height
          existing.blockHash record.blockHash))
      else pure (.ok ())

def signValidatorMessage (key : ValidatorSigningKey) (message : NetworkMessage) :
    FileProgram StoragePath (Except NodeError SignedValidatorMessage) :=
  if key.validatorId ≠ node.validatorId then
    pure (.error (.signingKeyMismatch node.validatorId key.validatorId))
  else do
    match ← node.reserveConsensusSigningRecord env message with
    | .error error => pure (.error error)
    | .ok () => pure ((key.signMessage node.networkId node.chainId message).mapError .signature)

end SigningNode

end Detta
