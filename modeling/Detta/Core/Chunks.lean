import Detta.Base.Framing
import Detta.Core.Persistent

/-!
# Chunks of a snapshot

A node sends the snapshot in its files as chunks of the JSON, with their manifest, and a client
puts them together. Here are the cutting (`buildSnapshotChunksWithMetadataRoots`), the answers
of a node (`serveSnapshotChunkRequest`), and the putting together once more, as a program that
asks for memory and that may panic (`reconstructSnapshotRun`): the manifest and the chunks come
from a peer.
-/

namespace Detta

/-! ## Cutting -/

section Build

variable (env : NodeEnv) (snapshot : StateSnapshot) (maxChunkBytes : ℕ)
  (metadataRoots : Std.ExtTreeMap String String)

/-- The JSON of a snapshot, which is the same in a file and in chunks. -/
def snapshotJsonBytes : Bytes := env.storedBytes (.snapshot snapshot)

/-- The bytes of the chunks. There is always one. -/
def rawChunks : List Bytes :=
  let chunks := pieces maxChunkBytes (snapshotJsonBytes env snapshot)
  if chunks.isEmpty then [[]] else chunks

def chunksManifest (chunkSize chunkCount : U32) : SnapshotChunkManifest :=
  let chunkHashes := (rawChunks env snapshot maxChunkBytes).map (hashBytes env.hashing)
  { snapshotRoot := snapshot.globalStateRoot
    snapshotHash := hashBytes env.hashing (snapshotJsonBytes env snapshot)
    metadataRoots
    chunkSize
    totalBytes := .ofNat 64 (snapshotJsonBytes env snapshot).length
    chunkCount
    chunkHashes
    chunkRoot := chunkRoot env.hashing chunkHashes }

def buildSnapshotChunksWithMetadataRoots : Except SnapshotSyncError SnapshotChunkSet :=
  if maxChunkBytes = 0 then .error .invalidChunkSize
  else
    match Word.ofNat? 32 maxChunkBytes with
    | none => .error .invalidChunkSize
    | some chunkSize =>
      match Word.ofNat? 32 (rawChunks env snapshot maxChunkBytes).length with
      | none => .error .invalidChunkSize
      | some chunkCount =>
        let manifest :=
          chunksManifest env snapshot maxChunkBytes metadataRoots chunkSize chunkCount
        .ok
          { manifest
            chunks := (rawChunks env snapshot maxChunkBytes).mapIdx fun index bytes =>
              ⟨manifest.manifestHash env.hashing, .ofNat 32 index, bytes,
                hashBytes env.hashing bytes⟩ }

end Build

/-! ## Serving -/

/-- The answer to a request: the manifest, and the chunks that are asked for. -/
def SnapshotChunkSet.answer (chunkSet : SnapshotChunkSet) (request : SnapshotChunkRequest) :
    List ProtocolMessage :=
  .snapshotChunkManifest chunkSet.manifest ::
    ((chunkSet.chunks.drop request.startIndex.val).take request.maxChunks.val).map .snapshotChunk

/-- Answer a request from the snapshot in the files, with the metadata roots that the node finds
    in its files. -/
def serveSnapshotChunkRequest (env : NodeEnv)
    (effectiveSnapshotMetadataRoots : Storage (Std.ExtTreeMap String String))
    (request : SnapshotChunkRequest) (maxChunkBytes : ℕ) :
    PersistentNode (List ProtocolMessage) := do
  let snapshot ← PersistentNode.onStorage (Storage.loadSnapshot env)
  ensure (request.snapshotRoot = snapshot.globalStateRoot)
    (.snapshotRootNotFound request.snapshotRoot snapshot.globalStateRoot)
  let metadataRoots ← PersistentNode.onStorage effectiveSnapshotMetadataRoots
  match buildSnapshotChunksWithMetadataRoots env snapshot maxChunkBytes metadataRoots with
  | .error error => throw (.snapshotSync error)
  | .ok chunkSet => return chunkSet.answer request

/-! ## Putting together, with memory -/

/-- Why a program stops without a result. -/
inductive Panic where
  | capacityOverflow
  | indexOutOfBounds
  | arithmeticOverflow
deriving DecidableEq, Repr

/-- A program that asks for buffers; the state is the list of the capacities it has asked for. -/
abbrev Allocating := EStateM Panic (List ℕ)

/-- A buffer has at most this many bytes. -/
def isizeMax : ℕ := 2 ^ 63 - 1

def withCapacity (capacity : ℕ) : Allocating Unit := do
  modify fun requested => requested ++ [capacity]
  ensure (capacity ≤ isizeMax) .capacityOverflow

namespace SnapshotChunkSet

variable (env : ProtocolEnv) (c : SnapshotChunkSet)

/-- The loop over the chunks, as in `collectChunks`. -/
def collectChunksRun (seen : Std.ExtTreeMap ℕ Bytes) (totalBytes : ℕ) :
    List SnapshotChunk →
      Allocating (Except SnapshotSyncError (Std.ExtTreeMap ℕ Bytes × ℕ))
  | [] => return .ok (seen, totalBytes)
  | chunk :: chunks => do
    let manifestHash := c.manifest.manifestHash env.hashing
    let index := chunk.index.val
    if chunk.manifestHash ≠ manifestHash then
      return .error (.manifestHashMismatch manifestHash chunk.manifestHash)
    else if c.manifest.chunkCount.val ≤ index then
      return .error (.unexpectedChunk index c.manifest.chunkCount.val)
    else if seen.contains index then return .error (.duplicateChunk index)
    else do
      let expectedHash ← okOr c.manifest.chunkHashes[index]? .indexOutOfBounds
      if chunk.chunkHash ≠ hashBytes env.hashing chunk.bytes ∨ expectedHash ≠ chunk.chunkHash then
        return .error (.chunkHashMismatch index)
      else do
        ensure (totalBytes + chunk.bytes.length < 2 ^ 64) .arithmeticOverflow
        collectChunksRun (seen.insert index chunk.bytes) (totalBytes + chunk.bytes.length) chunks

/-- The checks of the bytes that have been put together. -/
def checkSnapshotBytes (totalBytes : ℕ) (snapshotBytes : Bytes) :
    Except SnapshotSyncError StateSnapshot :=
  let m := c.manifest
  let snapshotHash := hashBytes env.hashing snapshotBytes
  if totalBytes ≠ m.totalBytes.val then
    .error (.totalBytesMismatch m.totalBytes.val totalBytes)
  else if snapshotHash ≠ m.snapshotHash then
    .error (.snapshotHashMismatch m.snapshotHash snapshotHash)
  else
    match env.readSnapshot snapshotBytes with
    | none => .error .decodeFailed
    | some snapshot =>
      if snapshot.globalStateRoot ≠ m.snapshotRoot then
        .error (.snapshotRootMismatch m.snapshotRoot snapshot.globalStateRoot)
      else
        match fromSnapshot env.hashing snapshot with
        | .error error => .error (.invalidSnapshot error)
        | .ok _ => .ok snapshot

/-- `reconstructSnapshot` with the buffer that it asks for. -/
def reconstructSnapshotRun : Allocating (Except SnapshotSyncError StateSnapshot) := do
  let m := c.manifest
  let expectedChunkRoot := chunkRoot env.hashing m.chunkHashes
  if m.chunkCount.val ≠ m.chunkHashes.length then
    return .error (.manifestChunkCountMismatch m.chunkCount.val m.chunkHashes.length)
  else if m.chunkRoot ≠ expectedChunkRoot then
    return .error (.chunkRootMismatch expectedChunkRoot m.chunkRoot)
  else do
    match ← c.collectChunksRun env ∅ 0 c.chunks with
    | .error error => return .error error
    | .ok (chunks, totalBytes) => do
      withCapacity m.totalBytes.val
      match joinChunks chunks (List.range m.chunkCount.val) with
      | .error error => return .error error
      | .ok snapshotBytes => return c.checkSnapshotBytes env totalBytes snapshotBytes

/-- How many bytes have come. -/
def receivedBytes : ℕ := (c.chunks.map (·.bytes.length)).sum

end SnapshotChunkSet

/-- Chunks that have come over the network and are held in memory, of which there are fewer than
    `2 ^ 63` bytes. -/
structure ReceivedChunkSet extends SnapshotChunkSet where
  inMemory : toSnapshotChunkSet.receivedBytes ≤ isizeMax

end Detta
