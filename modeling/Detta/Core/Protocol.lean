import Detta.Core.Signing

/-!
# The protocol between nodes

Nodes send each other transactions, blocks, votes, evidence and snapshots. A validator signs
what it says about consensus (`Signed`), for one network and one chain. The snapshot of a
state is sent in chunks, under a manifest that has their hashes.

The JSON of a message, the reading of a snapshot and the signature scheme come from libraries
(`ProtocolEnv`).
-/

namespace Detta

open Json

abbrev U32 := Word 32

/-! ## Messages -/

structure ValidatorPublicKey where
  validatorId : String
  keyId : String
  publicKeyHex : String
deriving DecidableEq, Repr

structure ValidatorSetMetadata where
  networkId : String
  chainId : String
  validators : List ValidatorPublicKey
  appliedUpdates : List String
deriving DecidableEq, Repr

structure ValidatorSetMetadataUpdate where
  updateId : String
  addValidators : List ValidatorPublicKey
  removeValidators : List String
  expiresAtHeight : Option U64
deriving DecidableEq, Repr

/-- A message with a signature for a network and a chain. -/
structure Signed (μ : Type) where
  signer : String
  keyId : String
  networkId : String
  chainId : String
  domain : ValidatorSignatureDomain
  message : μ
  signatureHex : String

structure SnapshotChunkRequest where
  snapshotRoot : String
  startIndex : U32
  maxChunks : U32
deriving DecidableEq, Repr

structure SnapshotChunkManifest where
  snapshotRoot : String
  snapshotHash : String
  metadataRoots : Std.ExtTreeMap String String
  chunkSize : U32
  totalBytes : U64
  chunkCount : U32
  chunkHashes : List String
  chunkRoot : String
deriving DecidableEq

structure SnapshotChunk where
  manifestHash : String
  index : U32
  bytes : Bytes
  chunkHash : String
deriving DecidableEq, Repr

structure SnapshotChunkSet where
  manifest : SnapshotChunkManifest
  chunks : List SnapshotChunk

inductive PeerRole where
  | validator
  | fullNode
  | archiveNode
  | lightClient
  | relayer
deriving DecidableEq, Ord, Repr

structure PeerHello where
  peerId : String
  networkId : String
  protocolVersion : Word 16
  minProtocolVersion : Word 16
  roles : Std.ExtTreeSet PeerRole

/-- The messages of the network, with what they carry. -/
inductive ProtocolMessage where
  | transaction (tx : Transaction)
  | block (b : Block)
  | vote (v : Vote)
  | finalityCertificate (c : FinalityCertificate)
  | validatorSetUpdate (u : ValidatorSetUpdate)
  | equivocationEvidence (e : EquivocationEvidence)
  | stateSnapshot (s : StateSnapshot)
  | peerHello (hello : PeerHello)
  | signedValidator (signed : Signed ProtocolMessage)
  | snapshotChunkRequest (r : SnapshotChunkRequest)
  | snapshotChunkManifest (m : SnapshotChunkManifest)
  | snapshotChunk (c : SnapshotChunk)
  | validatorSetMetadataUpdate (u : ValidatorSetMetadataUpdate)

namespace ProtocolMessage

/-- What signing looks at. -/
def outline : ProtocolMessage → NetworkMessage
  | transaction _ => .transaction
  | block b => .block b
  | vote v => .vote v
  | finalityCertificate c => .finalityCertificate c
  | validatorSetUpdate _ => .validatorSetUpdate
  | equivocationEvidence _ => .equivocationEvidence
  | stateSnapshot _ => .stateSnapshot
  | peerHello _ => .peerHello
  | signedValidator _ => .signedValidator
  | snapshotChunkRequest _ => .snapshotChunkRequest
  | snapshotChunkManifest _ => .snapshotChunkManifest
  | snapshotChunk _ => .snapshotChunk
  | validatorSetMetadataUpdate _ => .validatorSetMetadataUpdate

def kind (message : ProtocolMessage) : ProtocolMessageKind := message.outline.kind

/-- Blocks and votes say whose they are. -/
def claimedMessageSigner : ProtocolMessage → Option String
  | block b => some b.header.proposer
  | vote v => some v.validatorId
  | _ => none

end ProtocolMessage

/-! ## Signatures -/

/-- What the protocol needs from libraries. -/
structure ProtocolEnv extends Env where
  /-- The JSON of a message. -/
  messageBytes : ProtocolMessage → Option Bytes
  /-- The snapshot that JSON stands for. -/
  readSnapshot : Bytes → Option StateSnapshot
  /-- Bytes that are a key. -/
  isVerifyingKey : Bytes → Bool
  /-- The signature (last) of a payload verifies under a key (first). -/
  verifies : Bytes → Bytes → Bytes → Bool

/-- Why a signed message is refused. -/
inductive VerificationError where
  | signature (error : SignatureError)
  | domainMismatch (expected actual : ValidatorSignatureDomain)
  | networkMismatch (expected actual : String)
  | chainMismatch (expected actual : String)
  | signerMismatch (expected actual : String)
  | keyIdMismatch (expected actual : String)
  | messageSignerMismatch (expected actual : String)
  | invalidPublicKey
  | invalidSignatureEncoding
  | invalidSignature
deriving DecidableEq, Repr

/-- The bytes of a hexadecimal text, if it has `n` of them. -/
def decodeHexArray (n : ℕ) (value : String) : Option Bytes :=
  (hexToBytes value).filter (·.length = n)

def validatorSignaturePrefix : String := "detta.validator.protocol.v1"

/-- A component of a payload, after the four bytes of its length. -/
def lengthPrefixed (value : Bytes) : Bytes := (lengthBytes value.length).drop 4 ++ value

/-- What is signed: the version, the domain, the network, the chain and the message. -/
def validatorSigningPayload (env : ProtocolEnv) (domain : ValidatorSignatureDomain)
    (networkId chainId : String) (message : ProtocolMessage) : Except SignatureError Bytes :=
  match env.messageBytes message with
  | none => .error .encodeFailed
  | some messageBytes =>
    .ok (lengthPrefixed (textBytes validatorSignaturePrefix) ++ [0, 1] ++
      lengthPrefixed (textBytes (validatorSignatureDomainPath domain)) ++
      lengthPrefixed (textBytes networkId) ++ lengthPrefixed (textBytes chainId) ++
      lengthPrefixed messageBytes)

namespace Signed

variable (env : ProtocolEnv) (signed : Signed ProtocolMessage)

/-- The signature is one of the payload under the key. -/
def verifyPayload (publicKey : ValidatorPublicKey) : Except VerificationError Unit :=
  match decodeHexArray 32 publicKey.publicKeyHex with
  | none => .error .invalidPublicKey
  | some key =>
    if env.isVerifyingKey key = false then .error .invalidPublicKey
    else
      match decodeHexArray 64 signed.signatureHex with
      | none => .error .invalidSignatureEncoding
      | some signature =>
        match validatorSigningPayload env signed.domain signed.networkId signed.chainId
            signed.message with
        | .error error => .error (.signature error)
        | .ok payload =>
          if env.verifies key payload signature then .ok () else .error .invalidSignature

/-- The message is for the network and the chain, and is signed with the key of its signer. -/
def verify (expectedNetworkId expectedChainId : String) (publicKey : ValidatorPublicKey) :
    Except VerificationError Unit :=
  if signed.networkId ≠ expectedNetworkId then
    .error (.networkMismatch expectedNetworkId signed.networkId)
  else if signed.chainId ≠ expectedChainId then
    .error (.chainMismatch expectedChainId signed.chainId)
  else if signed.signer ≠ publicKey.validatorId then
    .error (.signerMismatch signed.signer publicKey.validatorId)
  else if signed.keyId ≠ publicKey.keyId then
    .error (.keyIdMismatch signed.keyId publicKey.keyId)
  else
    match expectedSignatureDomain signed.message.outline with
    | .error error => .error (.signature error)
    | .ok expectedDomain =>
      if signed.domain ≠ expectedDomain then
        .error (.domainMismatch expectedDomain signed.domain)
      else
        match signed.message.claimedMessageSigner.filter (· ≠ signed.signer) with
        | some claimedSigner => .error (.messageSignerMismatch claimedSigner signed.signer)
        | none => signed.verifyPayload env publicKey

end Signed

/-- A key pair of a validator, with the signature that it makes of a payload. -/
structure ValidatorKeyPair where
  validatorId : String
  keyId : String
  verifyingKey : Bytes
  sign : Bytes → Bytes

namespace ValidatorKeyPair

variable (key : ValidatorKeyPair)

def publicKey : ValidatorPublicKey := ⟨key.validatorId, key.keyId, hexLower key.verifyingKey⟩

def signMessage (env : ProtocolEnv) (networkId chainId : String) (message : ProtocolMessage) :
    Except SignatureError (Signed ProtocolMessage) := do
  let domain ← expectedSignatureDomain message.outline
  let payload ← validatorSigningPayload env domain networkId chainId message
  return ⟨key.validatorId, key.keyId, networkId, chainId, domain, message,
    hexLower (key.sign payload)⟩

end ValidatorKeyPair

/-! ## Snapshots in chunks -/

inductive SnapshotSyncError where
  | invalidChunkSize
  | decodeFailed
  | manifestChunkCountMismatch (declared actual : ℕ)
  | manifestHashMismatch (expected actual : String)
  | chunkHashMismatch (index : ℕ)
  | chunkRootMismatch (expected actual : String)
  | duplicateChunk (index : ℕ)
  | missingChunk (index : ℕ)
  | unexpectedChunk (index chunkCount : ℕ)
  | totalBytesMismatch (expected actual : ℕ)
  | snapshotHashMismatch (expected actual : String)
  | snapshotRootMismatch (expected actual : String)
  | metadataRootMismatch (key expected : String) (actual : Option String)
  | invalidSnapshot (error : SnapshotError)
deriving DecidableEq, Repr

def hashBytes (h : Hashing) (bytes : Bytes) : String := hexLower (h.sha256 bytes)

def chunkRoot (h : Hashing) (chunkHashes : List String) : String := h.rootOf (list str chunkHashes)

def SnapshotChunkManifest.json (m : SnapshotChunkManifest) : Json :=
  obj [("snapshot_root", str m.snapshotRoot), ("snapshot_hash", str m.snapshotHash),
    ("metadata_roots", dict str m.metadataRoots), ("chunk_size", word m.chunkSize),
    ("total_bytes", word m.totalBytes), ("chunk_count", word m.chunkCount),
    ("chunk_hashes", list str m.chunkHashes), ("chunk_root", str m.chunkRoot)]

def SnapshotChunkManifest.manifestHash (h : Hashing) (m : SnapshotChunkManifest) : String :=
  h.rootOf m.json

namespace SnapshotChunkSet

variable (env : ProtocolEnv) (c : SnapshotChunkSet)

/-- The chunks by their indices, and how many bytes they have. -/
def collectChunks (seen : Std.ExtTreeMap ℕ Bytes) (totalBytes : ℕ) :
    List SnapshotChunk → Except SnapshotSyncError (Std.ExtTreeMap ℕ Bytes × ℕ)
  | [] => .ok (seen, totalBytes)
  | chunk :: chunks =>
    let manifestHash := c.manifest.manifestHash env.hashing
    let index := chunk.index.val
    if chunk.manifestHash ≠ manifestHash then
      .error (.manifestHashMismatch manifestHash chunk.manifestHash)
    else if c.manifest.chunkCount.val ≤ index then
      .error (.unexpectedChunk index c.manifest.chunkCount.val)
    else if seen.contains index then .error (.duplicateChunk index)
    else if chunk.chunkHash ≠ hashBytes env.hashing chunk.bytes ∨
        c.manifest.chunkHashes[index]? ≠ some chunk.chunkHash then
      .error (.chunkHashMismatch index)
    else collectChunks (seen.insert index chunk.bytes) (totalBytes + chunk.bytes.length) chunks

/-- The chunks of some indices, one after the other. -/
def joinChunks (chunks : Std.ExtTreeMap ℕ Bytes) : List ℕ → Except SnapshotSyncError Bytes
  | [] => .ok []
  | index :: indices =>
    match chunks[index]? with
    | none => .error (.missingChunk index)
    | some bytes => return bytes ++ (← joinChunks chunks indices)

def reconstructSnapshot : Except SnapshotSyncError StateSnapshot :=
  let m := c.manifest
  let expectedChunkRoot := chunkRoot env.hashing m.chunkHashes
  if m.chunkCount.val ≠ m.chunkHashes.length then
    .error (.manifestChunkCountMismatch m.chunkCount.val m.chunkHashes.length)
  else if m.chunkRoot ≠ expectedChunkRoot then
    .error (.chunkRootMismatch expectedChunkRoot m.chunkRoot)
  else do
    let (chunks, totalBytes) ← c.collectChunks env ∅ 0 c.chunks
    let snapshotBytes ← joinChunks chunks (List.range m.chunkCount.val)
    let snapshotHash := hashBytes env.hashing snapshotBytes
    if totalBytes ≠ m.totalBytes.val then
      .error (.totalBytesMismatch m.totalBytes.val totalBytes)
    else if snapshotHash ≠ m.snapshotHash then
      .error (.snapshotHashMismatch m.snapshotHash snapshotHash)
    else
      match env.readSnapshot snapshotBytes with
      | none => .error .decodeFailed
      | some snapshot =>
        if snapshot.globalStateRoot ≠ m.snapshotRoot then
          .error (.snapshotRootMismatch m.snapshotRoot snapshot.globalStateRoot)
        else
          match fromSnapshot env.hashing snapshot with
          | .error error => .error (.invalidSnapshot error)
          | .ok _ => .ok snapshot

/-- A required root that the manifest does not have. -/
def metadataRootError (required : Std.ExtTreeMap String String) : Option SnapshotSyncError :=
  (required.toList.find? fun (key, expected) =>
    c.manifest.metadataRoots[key]? ≠ some expected).map fun (key, expected) =>
      .metadataRootMismatch key expected c.manifest.metadataRoots[key]?

def reconstructSnapshotWithMetadataRoots (required : Std.ExtTreeMap String String) :
    Except SnapshotSyncError StateSnapshot := do
  let snapshot ← c.reconstructSnapshot env
  match c.metadataRootError required with
  | some error => .error error
  | none => .ok snapshot

end SnapshotChunkSet

end Detta
