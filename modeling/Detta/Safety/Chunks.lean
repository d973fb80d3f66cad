import Detta.Core.Chunks
import Detta.Safety.StateSync

/-!
# Snapshots that come in chunks

The client of a state sync works on numbers that a peer has chosen. The indices and the lengths
of the chunks are checked before they are used (`collectChunksRun_eq`), but the buffer for the
snapshot is asked for with the length that the manifest declares, before this length is compared
with what has come.

* `reconstructSnapshotRun_eq`: what putting together does, with its memory.
* `collectChunks_eq_ok`: which chunks are accepted, and what they become.
-/

namespace Detta

open Std (ExtTreeMap)

namespace SnapshotChunkSet

variable {env : ProtocolEnv} {c : SnapshotChunkSet}

/-! ## The loop over the chunks -/

/-- A chunk belongs to the manifest, and has its hash. -/
structure Accepts (env : ProtocolEnv) (c : SnapshotChunkSet) (chunk : SnapshotChunk) : Prop where
  manifest : chunk.manifestHash = c.manifest.manifestHash env.hashing
  expected : chunk.index.val < c.manifest.chunkCount.val
  hash : chunk.chunkHash = hashBytes env.hashing chunk.bytes
  declared : c.manifest.chunkHashes[chunk.index.val]? = some chunk.chunkHash

/-- The chunks by their indices. -/
def byIndex (chunks : List SnapshotChunk) (seen : ExtTreeMap ℕ Bytes) :
    ExtTreeMap ℕ Bytes :=
  chunks.foldl (fun seen chunk => seen.insert chunk.index.val chunk.bytes) seen

theorem collectChunks_eq_ok {chunks : List SnapshotChunk} {seen : ExtTreeMap ℕ Bytes}
    {totalBytes : ℕ} {result : ExtTreeMap ℕ Bytes × ℕ} :
    c.collectChunks env seen totalBytes chunks = .ok result ↔
      ((∀ chunk ∈ chunks, c.Accepts env chunk) ∧
          (∀ chunk ∈ chunks, seen.contains chunk.index.val = false) ∧
          (chunks.map (·.index.val)).Nodup) ∧
        (byIndex chunks seen, totalBytes + (chunks.map (·.bytes.length)).sum) = result := by
  induction chunks generalizing seen totalBytes with
  | nil => simp [collectChunks, byIndex]
  | cons chunk chunks ih =>
    simp only [collectChunks, ite_error_eq_ok, ih, not_not, not_le, not_or,
      Bool.not_eq_true]
    simp only [List.forall_mem_cons, List.map_cons, List.nodup_cons, List.sum_cons, byIndex,
      List.foldl_cons, List.mem_map, not_exists, not_and, Nat.add_assoc,
      ExtTreeMap.contains_insert, Bool.or_eq_false_iff, beq_eq_false_iff_ne]
    constructor
    · rintro ⟨hmanifest, hexpected, hnew, ⟨hhash, hdeclared⟩, ⟨haccepts, hseen, hnodup⟩, hresult⟩
      refine ⟨⟨⟨⟨hmanifest, hexpected, hhash, hdeclared⟩, haccepts⟩,
        ⟨hnew, fun chunk hchunk => (hseen chunk hchunk).2⟩, ?_, hnodup⟩, hresult⟩
      exact fun other hother heq => (hseen other hother).1 (by simp [heq])
    · rintro ⟨⟨⟨⟨hmanifest, hexpected, hhash, hdeclared⟩, haccepts⟩, ⟨hnew, hseen⟩, hother, hnodup⟩,
        hresult⟩
      refine ⟨hmanifest, hexpected, hnew, ⟨hhash, hdeclared⟩, ⟨haccepts, ?_, hnodup⟩, hresult⟩
      intro other hmem
      refine ⟨?_, hseen other hmem⟩
      intro heq
      exact hother other hmem (Nat.compare_eq_eq.1 heq).symm

/-- No index is out of bounds and no sum is too large, if the manifest has as many hashes as it
    says and the chunks are in memory. -/
theorem collectChunksRun_eq (hcount : c.manifest.chunkCount.val = c.manifest.chunkHashes.length)
    {chunks : List SnapshotChunk} {seen : ExtTreeMap ℕ Bytes} {totalBytes : ℕ}
    (hmemory : totalBytes + (chunks.map (·.bytes.length)).sum ≤ isizeMax) (requested : List ℕ) :
    c.collectChunksRun env seen totalBytes chunks requested =
      .ok (c.collectChunks env seen totalBytes chunks) requested := by
  induction chunks generalizing seen totalBytes with
  | nil => rfl
  | cons chunk chunks ih =>
    rw [List.map_cons, List.sum_cons, ← Nat.add_assoc] at hmemory
    have hsum : totalBytes + chunk.bytes.length < 2 ^ 64 := by
      rw [isizeMax] at hmemory
      omega
    unfold collectChunksRun collectChunks
    dsimp only
    split
    next => rfl
    next =>
      split
      next => rfl
      next hexpected =>
        split
        next => rfl
        next =>
          have hbound : chunk.index.val < c.manifest.chunkHashes.length := by omega
          rw [List.getElem?_eq_getElem hbound, okOr, pure_bind]
          simp only [Option.some.injEq, ne_eq]
          split
          next => rfl
          next => rw [ensure_bind, if_pos hsum, ih hmemory]

/-! ## The buffer -/

theorem reconstructSnapshot_eq :
    c.reconstructSnapshot env =
      if c.manifest.chunkCount.val ≠ c.manifest.chunkHashes.length then
        .error (.manifestChunkCountMismatch c.manifest.chunkCount.val
          c.manifest.chunkHashes.length)
      else if c.manifest.chunkRoot ≠ chunkRoot env.hashing c.manifest.chunkHashes then
        .error (.chunkRootMismatch (chunkRoot env.hashing c.manifest.chunkHashes)
          c.manifest.chunkRoot)
      else (do
        let (chunks, totalBytes) ← c.collectChunks env ∅ 0 c.chunks
        let snapshotBytes ← joinChunks chunks (List.range c.manifest.chunkCount.val)
        c.checkSnapshotBytes env totalBytes snapshotBytes) := rfl

/-- The manifest and the chunks pass the checks that are made before the buffer is asked for. -/
structure Passes (env : ProtocolEnv) (c : SnapshotChunkSet) : Prop where
  count : c.manifest.chunkCount.val = c.manifest.chunkHashes.length
  root : c.manifest.chunkRoot = chunkRoot env.hashing c.manifest.chunkHashes
  chunks : ∀ chunk ∈ c.chunks, c.Accepts env chunk
  distinct : (c.chunks.map (·.index.val)).Nodup

theorem Passes.collectChunks (h : c.Passes env) :
    c.collectChunks env ∅ 0 c.chunks = .ok (byIndex c.chunks ∅, c.receivedBytes) := by
  refine collectChunks_eq_ok.2 ⟨⟨h.chunks, ?_, h.distinct⟩, by rw [Nat.zero_add]; rfl⟩
  exact fun _ _ => ExtTreeMap.contains_empty

theorem Passes.reconstructSnapshot (h : c.Passes env) :
    c.reconstructSnapshot env =
      (joinChunks (byIndex c.chunks ∅) (List.range c.manifest.chunkCount.val) >>=
        c.checkSnapshotBytes env c.receivedBytes) := by
  rw [reconstructSnapshot_eq, if_neg (not_not.2 h.count), if_neg (not_not.2 h.root),
    h.collectChunks]
  rfl

end SnapshotChunkSet

theorem withCapacity_eq (capacity : ℕ) (requested : List ℕ) :
    withCapacity capacity requested =
      if capacity ≤ isizeMax then .ok () (requested ++ [capacity])
      else .error .capacityOverflow (requested ++ [capacity]) := by
  change ensure (capacity ≤ isizeMax) Panic.capacityOverflow (requested ++ [capacity]) = _
  unfold ensure
  split <;> rfl

namespace ReceivedChunkSet

open SnapshotChunkSet

variable {env : ProtocolEnv} (c : ReceivedChunkSet)

theorem collectChunksRun_eq (hcount : c.manifest.chunkCount.val = c.manifest.chunkHashes.length)
    (requested : List ℕ) : c.collectChunksRun env ∅ 0 c.chunks requested =
      .ok (c.collectChunks env ∅ 0 c.chunks) requested :=
  SnapshotChunkSet.collectChunksRun_eq hcount ((Nat.zero_add _).trans_le c.inMemory) requested

/-- The buffer is asked for when the checks before it are passed, with the declared length. -/
theorem reconstructSnapshotRun_of_passes (h : c.Passes env) (requested : List ℕ) :
    c.reconstructSnapshotRun env requested =
      if c.manifest.totalBytes.val ≤ isizeMax then
        .ok (c.reconstructSnapshot env) (requested ++ [c.manifest.totalBytes.val])
      else .error .capacityOverflow (requested ++ [c.manifest.totalBytes.val]) := by
  rw [h.reconstructSnapshot, reconstructSnapshotRun]
  simp only [if_neg (not_not.2 h.count), if_neg (not_not.2 h.root)]
  simp only [bind, EStateM.bind, c.collectChunksRun_eq h.count, h.collectChunks,
    withCapacity_eq]
  by_cases hcapacity : c.manifest.totalBytes.val ≤ isizeMax
  · simp only [if_pos hcapacity]
    cases joinChunks (byIndex c.chunks ∅) (List.range c.manifest.chunkCount.val) <;> rfl
  · simp only [if_neg hcapacity]

/-- Nothing is asked for when the checks are not passed. -/
theorem reconstructSnapshotRun_of_not_passes (h : ¬c.Passes env) (requested : List ℕ) :
    c.reconstructSnapshotRun env requested = .ok (c.reconstructSnapshot env) requested := by
  rw [reconstructSnapshot_eq, reconstructSnapshotRun]
  dsimp only
  split
  next => rfl
  next hcount =>
    split
    next => rfl
    next hroot =>
      simp only [bind, EStateM.bind, c.collectChunksRun_eq (not_not.1 hcount)]
      cases hcollect : c.collectChunks env ∅ 0 c.chunks with
      | error error => rfl
      | ok result =>
        obtain ⟨⟨hchunks, -, hdistinct⟩, -⟩ := collectChunks_eq_ok.1 hcollect
        exact absurd ⟨not_not.1 hcount, not_not.1 hroot, hchunks, hdistinct⟩ h

theorem reconstruction_safe_iff (env : ProtocolEnv) (c : ReceivedChunkSet) :
    (∃ result requested, c.reconstructSnapshotRun env [] = .ok result requested ∧
        ∀ capacity ∈ requested, capacity ≤ c.receivedBytes) ↔
      (c.Passes env → c.manifest.totalBytes.val ≤ c.receivedBytes) := by
  by_cases hpasses : c.Passes env
  · rw [c.reconstructSnapshotRun_of_passes hpasses]
    refine ⟨?_, fun h => ?_⟩
    · rintro ⟨result, requested, hrun, hrequested⟩ -
      split at hrun
      next =>
        obtain ⟨-, rfl⟩ := EStateM.Result.ok.inj hrun
        exact hrequested _ (by simp)
      next => cases hrun
    · have hle := h hpasses
      rw [if_pos (hle.trans c.inMemory)]
      exact ⟨_, _, rfl, by simpa using hle⟩
  · rw [c.reconstructSnapshotRun_of_not_passes hpasses]
    exact ⟨fun _ h => absurd h hpasses, fun _ => ⟨_, [], rfl, by simp⟩⟩

end ReceivedChunkSet

namespace Hostile

/-! A manifest without chunks that declares the largest length. -/

def env : ProtocolEnv where
  hashing := ⟨fun _ => [], fun _ => [0]⟩
  parseFinalityProof _ := none
  parseModule _ := none
  verifyModule _ := none
  messageBytes _ := none
  readSnapshot _ := none
  isVerifyingKey _ := true
  verifies _ _ _ := true

def chunkSet : ReceivedChunkSet where
  manifest := ⟨"root", "hash", ∅, 1, .max 64, 0, [], "00"⟩
  chunks := []
  inMemory := by decide

theorem reconstruction_panics :
    chunkSet.reconstructSnapshotRun env [] = .error .capacityOverflow [2 ^ 64 - 1] ∧
      chunkSet.receivedBytes = 0 :=
  ⟨rfl, rfl⟩

end Hostile

/-! ## Cutting and putting together -/

namespace SnapshotChunkSet

theorem joinChunks_eq_ok {chunks : ExtTreeMap ℕ Bytes} {raw : ℕ → Bytes} {indices : List ℕ}
    (h : ∀ index ∈ indices, chunks[index]? = some (raw index)) :
    joinChunks chunks indices = .ok (indices.map raw).flatten := by
  induction indices with
  | nil => rfl
  | cons index indices ih =>
    obtain ⟨hindex, hrest⟩ := List.forall_mem_cons.1 h
    simp only [joinChunks, hindex, ih hrest, bind, Except.bind, pure, Except.pure, List.map_cons,
      List.flatten_cons]

end SnapshotChunkSet

section Built

variable {env : NodeEnv} {snapshot : StateSnapshot} {maxChunkBytes : ℕ}
  {metadataRoots : ExtTreeMap String String} {chunkSet : SnapshotChunkSet}

open SnapshotChunkSet

theorem flatten_rawChunks (hsize : 0 < maxChunkBytes) :
    (rawChunks env snapshot maxChunkBytes).flatten = snapshotJsonBytes env snapshot := by
  have hflatten := flatten_pieces hsize (snapshotJsonBytes env snapshot)
  unfold rawChunks
  dsimp only
  split
  next hempty =>
    rw [List.isEmpty_iff.1 hempty] at hflatten
    exact hflatten
  next => exact hflatten

theorem rawChunks_ne_nil (env : NodeEnv) (snapshot : StateSnapshot) (maxChunkBytes : ℕ) :
    rawChunks env snapshot maxChunkBytes ≠ [] := by
  unfold rawChunks
  dsimp only
  split
  next => simp
  next hempty => simpa [List.isEmpty_iff] using hempty

/-- What fits into a file has few enough chunks. -/
theorem length_rawChunks_lt (hsize : 0 < maxChunkBytes)
    (hfits : Storage.Fits env (.snapshot snapshot)) :
    (rawChunks env snapshot maxChunkBytes).length < 2 ^ 32 := by
  have hlength : (snapshotJsonBytes env snapshot).length ≤ maxEncodedBytes := hfits
  have hmax : maxEncodedBytes < 2 ^ 32 := by decide
  unfold rawChunks
  dsimp only
  split
  next => simp
  next =>
    rw [length_pieces]
    refine Nat.div_lt_of_lt_mul ?_
    omega

/-- What the chunks of a snapshot are. -/
structure Built (env : NodeEnv) (snapshot : StateSnapshot) (raw : List Bytes)
    (metadataRoots : ExtTreeMap String String) (chunkSet : SnapshotChunkSet) : Prop where
  snapshotRoot : chunkSet.manifest.snapshotRoot = snapshot.globalStateRoot
  snapshotHash : chunkSet.manifest.snapshotHash =
    hashBytes env.hashing (snapshotJsonBytes env snapshot)
  roots : chunkSet.manifest.metadataRoots = metadataRoots
  totalBytes : chunkSet.manifest.totalBytes = .ofNat 64 (snapshotJsonBytes env snapshot).length
  count : chunkSet.manifest.chunkCount.val = raw.length
  hashes : chunkSet.manifest.chunkHashes = raw.map (hashBytes env.hashing)
  chunkRoot : chunkSet.manifest.chunkRoot = chunkRoot env.hashing chunkSet.manifest.chunkHashes
  chunks : chunkSet.chunks = raw.mapIdx fun index bytes =>
    ⟨chunkSet.manifest.manifestHash env.hashing, .ofNat 32 index, bytes,
      hashBytes env.hashing bytes⟩

theorem built_of_eq_ok
    (h : buildSnapshotChunksWithMetadataRoots env snapshot maxChunkBytes metadataRoots =
      .ok chunkSet) :
    0 < maxChunkBytes ∧
      Built env snapshot (rawChunks env snapshot maxChunkBytes) metadataRoots chunkSet := by
  obtain ⟨hsize, h⟩ := ite_error_eq_ok.1 h
  split at h
  next => cases h
  next chunkSize _ =>
    split at h
    next => cases h
    next chunkCount hcount =>
      obtain rfl := Except.ok.inj h
      exact ⟨Nat.pos_of_ne_zero hsize, rfl, rfl, rfl, rfl, Word.ofNat?_eq_some.1 hcount, rfl, rfl,
        rfl⟩

/-- Cutting succeeds if the number of chunks is one of 32 bits. -/
theorem exists_build_eq_ok (metadataRoots : ExtTreeMap String String)
    (hsize : 0 < maxChunkBytes) (hword : maxChunkBytes < 2 ^ 32)
    (hcount : (rawChunks env snapshot maxChunkBytes).length < 2 ^ 32) :
    ∃ chunkSet, buildSnapshotChunksWithMetadataRoots env snapshot maxChunkBytes metadataRoots =
      .ok chunkSet := by
  have hchunkSize := Word.ofNat?_eq_some.2 (Word.val_ofNat_of_lt hword)
  have hchunkCount := Word.ofNat?_eq_some.2 (Word.val_ofNat_of_lt hcount)
  rw [buildSnapshotChunksWithMetadataRoots, if_neg hsize.ne', hchunkSize]
  dsimp only
  rw [hchunkCount]
  exact ⟨_, rfl⟩

namespace Built

variable {raw : List Bytes} {chunks : List SnapshotChunk}
  (h : Built env snapshot raw metadataRoots chunkSet)

include h

theorem val_index {i : ℕ} (hi : i < raw.length) : (Word.ofNat 32 i).val = i :=
  Word.val_ofNat_of_lt (hi.trans (h.count ▸ chunkSet.manifest.chunkCount.isLt))

theorem mem_chunks_iff {chunk : SnapshotChunk} :
    chunk ∈ chunkSet.chunks ↔ ∃ bytes, raw[chunk.index.val]? = some bytes ∧
      chunk = ⟨chunkSet.manifest.manifestHash env.hashing, chunk.index, bytes,
        hashBytes env.hashing bytes⟩ := by
  rw [h.chunks, List.mem_mapIdx]
  constructor
  · rintro ⟨i, hi, rfl⟩
    exact ⟨raw[i], by simp [h.val_index hi, hi], rfl⟩
  · rintro ⟨bytes, hbytes, hchunk⟩
    obtain ⟨hi, hraw⟩ := List.getElem?_eq_some_iff.1 hbytes
    refine ⟨chunk.index.val, hi, ?_⟩
    have hindex : Word.ofNat 32 chunk.index.val = chunk.index := Word.ext (h.val_index hi)
    rw [hraw, hindex, ← hchunk]

theorem nodup_indices :
    (chunkSet.chunks.map (·.index.val)).Nodup := by
  have hindices : chunkSet.chunks.map (·.index.val) = List.range raw.length := by
    rw [h.chunks]
    apply List.ext_getElem (by simp)
    intro i hi hi'
    simp [h.val_index (i := i) (by simpa using hi')]
  rw [hindices]
  exact List.nodup_range

/-- The chunks pass the checks, in any order. -/
theorem passes (hperm : chunks.Perm chunkSet.chunks) :
    Passes env.toProtocolEnv ⟨chunkSet.manifest, chunks⟩ where
  count := by rw [h.count, h.hashes, List.length_map]
  root := h.chunkRoot
  chunks chunk hchunk := by
    obtain ⟨bytes, hbytes, hchunk⟩ := h.mem_chunks_iff.1 (hperm.mem_iff.1 hchunk)
    obtain ⟨hi, -⟩ := List.getElem?_eq_some_iff.1 hbytes
    obtain ⟨manifestHash, index, bytes', chunkHash⟩ := chunk
    obtain ⟨rfl, -, rfl, rfl⟩ := SnapshotChunk.mk.inj hchunk
    exact ⟨rfl, h.count ▸ hi, rfl, by simp [h.hashes, hbytes]⟩
  distinct := (hperm.map _).nodup_iff.2 h.nodup_indices

theorem receivedBytes_eq (hperm : chunks.Perm chunkSet.chunks) :
    receivedBytes ⟨chunkSet.manifest, chunks⟩ = raw.flatten.length := by
  have hlengths : chunkSet.chunks.map (·.bytes.length) = raw.map List.length := by
    rw [h.chunks]
    exact List.ext_getElem (by simp) (by simp)
  rw [receivedBytes, (hperm.map _).sum_eq, hlengths, List.length_flatten]

theorem joinChunks_byIndex (hperm : chunks.Perm chunkSet.chunks) :
    joinChunks (byIndex chunks ∅) (List.range chunkSet.manifest.chunkCount.val) =
      .ok raw.flatten := by
  have hjoin : ∀ index ∈ List.range chunkSet.manifest.chunkCount.val,
      (byIndex chunks ∅)[index]? = some (raw.getD index []) := by
    intro index hindex
    rw [List.mem_range, h.count] at hindex
    have hraw : raw.getD index [] = raw[index] := by simp [hindex]
    refine Table.getElem?_foldl_insert ?_ (.inl ?_)
    · rintro chunk hchunk rfl
      obtain ⟨bytes, hbytes, hchunk⟩ := h.mem_chunks_iff.1 (hperm.mem_iff.1 hchunk)
      rw [hchunk]
      simp [hbytes]
    · refine ⟨⟨chunkSet.manifest.manifestHash env.hashing, .ofNat 32 index, raw[index],
        hashBytes env.hashing raw[index]⟩, ?_, h.val_index hindex⟩
      refine hperm.mem_iff.2 (h.mem_chunks_iff.2 ⟨raw[index], ?_, rfl⟩)
      simp [h.val_index hindex, hindex]
  rw [joinChunks_eq_ok hjoin, h.count]
  congr 2
  exact List.ext_getElem (by simp) fun i _ hi => by simp [hi]

/-- The chunks give the snapshot, in any order. -/
theorem reconstructSnapshot_eq_ok (hraw : raw.flatten = snapshotJsonBytes env snapshot)
    (hjson : env.readSnapshot (snapshotJsonBytes env snapshot) = some snapshot)
    (hlength : (snapshotJsonBytes env snapshot).length < 2 ^ 64)
    {state : DeTTaState} (hstate : fromSnapshot env.hashing snapshot = .ok state)
    (hperm : chunks.Perm chunkSet.chunks) :
    SnapshotChunkSet.reconstructSnapshot env.toProtocolEnv ⟨chunkSet.manifest, chunks⟩ =
      .ok snapshot := by
  rw [(h.passes hperm).reconstructSnapshot, h.joinChunks_byIndex hperm, h.receivedBytes_eq hperm,
    hraw]
  change checkSnapshotBytes _ _ _ _ = _
  rw [checkSnapshotBytes]
  simp only [h.totalBytes, Word.val_ofNat_of_lt hlength, h.snapshotHash, h.snapshotRoot, hjson,
    hstate, ne_eq, not_true_eq_false, if_false]

/-- Nothing but the snapshot comes out. -/
theorem eq_of_reconstructSnapshot_eq_ok
    (hjson : env.readSnapshot (snapshotJsonBytes env snapshot) = some snapshot)
    (hhash : ∀ bytes, env.hashing.sha256 bytes =
      env.hashing.sha256 (snapshotJsonBytes env snapshot) →
      bytes = snapshotJsonBytes env snapshot) {snapshot' : StateSnapshot}
    (hok : SnapshotChunkSet.reconstructSnapshot env.toProtocolEnv ⟨chunkSet.manifest, chunks⟩ =
      .ok snapshot') : snapshot' = snapshot := by
  rw [reconstructSnapshot_eq] at hok
  simp only [ite_error_eq_ok] at hok
  obtain ⟨-, -, hok⟩ := hok
  obtain ⟨collected, -, hok⟩ := exists_of_bind_eq_ok hok
  obtain ⟨bytes, -, hok⟩ := exists_of_bind_eq_ok hok
  simp only [checkSnapshotBytes, ite_error_eq_ok, not_not] at hok
  obtain ⟨-, hsame, hok⟩ := hok
  obtain rfl := hhash bytes (hexLower_injective (hsame.trans h.snapshotHash))
  rw [hjson] at hok
  dsimp only at hok
  obtain ⟨-, hok⟩ := ite_error_eq_ok.1 hok
  split at hok
  next => cases hok
  next => exact (Except.ok.inj hok).symm

end Built

/-! ## A client and a server -/

/-- A snapshot that is loaded is short enough for a file, and valid. -/
theorem of_loadSnapshot_eq_ok {st st' : FileStorage}
    (h : Storage.loadSnapshot env st = .ok snapshot st') :
    Storage.Fits env (.snapshot snapshot) ∧
      ∃ state, fromSnapshot env.hashing snapshot = .ok state := by
  apply wp.of_ok h
  unfold Storage.loadSnapshot Storage.maybeReadJson Storage.readJson
  refine wp_bind.2 (.get ?_)
  dsimp only
  cases st.latestSnapshot with
  | none => trivial
  | some snapshot =>
    refine wp_bind.2 (wp_bind.2 ((wp_self (Storage.access env) st).imp ?_))
    intro _ st₁ _
    refine .ensure ⟨fun hfits => ?_, fun _ => trivial⟩
    refine wp_pure.2 (wp_bind.2 (wp_pure.2 ?_))
    cases hstate : fromSnapshot env.hashing snapshot with
    | error error => trivial
    | ok state => exact ⟨hfits, state, hstate⟩

theorem serveSnapshotChunkRequest_eq_ok {n : PersistentValidatorNode}
    {effectiveSnapshotMetadataRoots : Storage (ExtTreeMap String String)}
    (hload : Storage.loadSnapshot env n.storage = .ok snapshot n.storage)
    (hroots : effectiveSnapshotMetadataRoots n.storage = .ok metadataRoots n.storage)
    (hbuild : buildSnapshotChunksWithMetadataRoots env snapshot maxChunkBytes metadataRoots =
      .ok chunkSet) {request : SnapshotChunkRequest}
    (hrequest : request.snapshotRoot = snapshot.globalStateRoot) :
    serveSnapshotChunkRequest env effectiveSnapshotMetadataRoots request maxChunkBytes n =
      .ok (chunkSet.answer request) n := by
  have hfirst : PersistentNode.onStorage (Storage.loadSnapshot env) n = .ok snapshot n := by
    rw [PersistentNode.onStorage, hload]
  have hsecond : PersistentNode.onStorage effectiveSnapshotMetadataRoots n =
      .ok metadataRoots n := by
    rw [PersistentNode.onStorage, hroots]
  rw [serveSnapshotChunkRequest]
  simp only [bind, EStateM.bind, hfirst, ensure, if_pos hrequest, pure, EStateM.pure, hsecond,
    hbuild]

/-- Requests for chunks from an index on, a number of chunks at a time. -/
def requestsFrom (snapshotRoot : String) (maxChunks : U32) (start rounds : ℕ) :
    List SnapshotChunkRequest :=
  (List.range rounds).map fun i => ⟨snapshotRoot, .ofNat 32 (start + i * maxChunks.val), maxChunks⟩

theorem requestsFrom_succ (snapshotRoot : String) (maxChunks : U32) (start rounds : ℕ) :
    requestsFrom snapshotRoot maxChunks start (rounds + 1) =
      ⟨snapshotRoot, .ofNat 32 start, maxChunks⟩ ::
        requestsFrom snapshotRoot maxChunks (start + maxChunks.val) rounds := by
  simp only [requestsFrom, List.range_succ_eq_map, List.map_cons, List.map_map, Nat.zero_mul,
    Nat.add_zero, List.cons.injEq, true_and]
  refine List.map_congr_left fun i _ => ?_
  simp only [Function.comp_apply, Nat.succ_mul, Nat.add_assoc, Nat.add_comm]

end Built

namespace StateSync

variable {env : NodeEnv} {stream : TcpProtocolStream}

theorem receiveManifest_cons {manifest : SnapshotChunkManifest} {rest : List ProtocolMessage}
    (h : stream.incoming = .snapshotChunkManifest manifest :: rest) :
    receiveManifest stream = .ok manifest { stream with incoming := rest } := by
  obtain ⟨incoming, sends, failure, sent⟩ := stream
  obtain rfl : incoming = _ := h
  rfl

theorem receiveChunks_append {chunks : List SnapshotChunk} {rest : List ProtocolMessage}
    (h : stream.incoming = chunks.map .snapshotChunk ++ rest) :
    receiveChunks chunks.length stream = .ok chunks { stream with incoming := rest } := by
  induction chunks generalizing stream with
  | nil =>
    obtain ⟨incoming, sends, failure, sent⟩ := stream
    obtain rfl : incoming = rest := h
    rfl
  | cons chunk chunks ih =>
    obtain ⟨incoming, sends, failure, sent⟩ := stream
    obtain rfl : incoming = _ := h
    have hrest := @ih ⟨chunks.map .snapshotChunk ++ rest, sends, failure, sent⟩ rfl
    simp only [List.length_cons, receiveChunks, receive, bind, EStateM.bind, get_apply,
      List.map_cons, List.cons_append, set_apply, pure, EStateM.pure, hrest]

variable {snapshotRoot : String} {maxChunks : U32} {required : ExtTreeMap String String}
  {chunkSet : SnapshotChunkSet} {snapshot : StateSnapshot}

/-- One round of a client that gets the manifest and as many chunks as it expects. -/
theorem fetchRounds_page {manifest : Option SnapshotChunkManifest} {m : SnapshotChunkManifest}
    (hmanifest : ∀ m' ∈ manifest, m' = m) {page chunks : List SnapshotChunk} {start : ℕ}
    (hpage : page.length = min (m.chunkCount.val - start) maxChunks.val)
    {others : List ProtocolMessage}
    (hincoming : stream.incoming =
      .snapshotChunkManifest m :: (page.map .snapshotChunk ++ others))
    (metrics : SnapshotSyncClientMetrics) (sends : ℕ) :
    ∃ metrics', fetchRounds env snapshotRoot maxChunks required manifest chunks start metrics
        (sends + 1) stream =
      (if m.chunkCount.val ≤ (chunks ++ page).length then
        match SnapshotChunkSet.reconstructSnapshotWithMetadataRoots env.toProtocolEnv
            ⟨m, chunks ++ page⟩ required with
        | .error error => throw (.snapshotSync error)
        | .ok _ => pure (⟨m, chunks ++ page⟩, { metrics' with metadataRootsVerified := true })
      else fetchRounds env snapshotRoot maxChunks required (some m) (chunks ++ page)
        (start + page.length) metrics' sends)
        { stream with
          incoming := others
          sent := stream.sent ++ [⟨snapshotRoot, .ofNat 32 start, maxChunks⟩] } := by
  obtain ⟨incoming, available, failure, sent⟩ := stream
  obtain rfl : incoming = _ := hincoming
  have hagree : agreeOnManifest env manifest m = .ok m := by
    cases manifest with
    | none => rfl
    | some m' =>
      obtain rfl := hmanifest m' rfl
      simp [agreeOnManifest]
  have hchunks := @receiveChunks_append
    ⟨page.map .snapshotChunk ++ others, available, failure,
      sent ++ [⟨snapshotRoot, .ofNat 32 start, maxChunks⟩]⟩ page others rfl
  have hmanifests := @receiveManifest_cons
    ⟨.snapshotChunkManifest m :: (page.map .snapshotChunk ++ others), available, failure,
      sent ++ [⟨snapshotRoot, .ofNat 32 start, maxChunks⟩]⟩ m _ rfl
  refine ⟨{ metrics with
    requestsSent := metrics.requestsSent + 1
    resumeRequests := metrics.resumeRequests + if 0 < start then 1 else 0
    manifestsReceived := metrics.manifestsReceived + 1
    chunksReceived := metrics.chunksReceived + page.length }, ?_⟩
  rw [fetchRounds]
  simp only [bind, EStateM.bind, modify_apply, hmanifests, hagree, ← hpage]
  exact hchunks ▸ rfl

/-- The rounds of a client that gets the chunks of a set from a start on, in pages. -/
theorem fetchRounds_of_pages (hpage : 0 < maxChunks.val)
    (hcount : chunkSet.manifest.chunkCount.val = chunkSet.chunks.length)
    (hchecked : chunkSet.reconstructSnapshotWithMetadataRoots env.toProtocolEnv required =
      .ok snapshot)
    {rounds start sends : ℕ} (hstart : start < chunkSet.chunks.length)
    (hlast : rounds * maxChunks.val < chunkSet.chunks.length - start + maxChunks.val)
    (henough : chunkSet.chunks.length - start ≤ rounds * maxChunks.val) (hsends : rounds ≤ sends)
    {manifest : Option SnapshotChunkManifest} (hmanifest : ∀ m ∈ manifest, m = chunkSet.manifest)
    {rest : List ProtocolMessage}
    (hincoming : stream.incoming =
      (requestsFrom snapshotRoot maxChunks start rounds).flatMap chunkSet.answer ++ rest)
    (metrics : SnapshotSyncClientMetrics) :
    ∃ metrics', fetchRounds env snapshotRoot maxChunks required manifest
        (chunkSet.chunks.take start) start metrics sends stream =
      .ok (chunkSet, metrics')
        { stream with
          incoming := rest
          sent := stream.sent ++ requestsFrom snapshotRoot maxChunks start rounds } := by
  induction rounds generalizing start sends manifest stream metrics with
  | zero => omega
  | succ rounds ih =>
    obtain ⟨sends, rfl⟩ : ∃ k, sends = k + 1 := ⟨sends - 1, by omega⟩
    have hword : start < 2 ^ 32 :=
      hstart.trans (hcount ▸ chunkSet.manifest.chunkCount.isLt)
    rw [Nat.succ_mul] at hlast henough
    rw [requestsFrom_succ] at hincoming ⊢
    rw [List.flatMap_cons, SnapshotChunkSet.answer, Word.val_ofNat_of_lt hword, List.cons_append,
      List.cons_append, List.append_assoc] at hincoming
    have hlength : ((chunkSet.chunks.drop start).take maxChunks.val).length =
        min (chunkSet.manifest.chunkCount.val - start) maxChunks.val := by
      rw [List.length_take, List.length_drop, hcount, Nat.min_comm]
    obtain ⟨metrics₁, hround⟩ := @fetchRounds_page env stream snapshotRoot maxChunks required
      manifest chunkSet.manifest hmanifest _ (chunkSet.chunks.take start) start hlength _ hincoming
      metrics sends
    rw [hround, hlength, ← List.take_add, List.length_take, hcount]
    by_cases hdone : chunkSet.chunks.length ≤ start + maxChunks.val
    · -- the last page
      have hrounds : rounds * maxChunks.val = 0 := by
        have hlt : rounds * maxChunks.val < maxChunks.val := by omega
        rcases Nat.eq_zero_or_pos rounds with rfl | hpos
        · rw [Nat.zero_mul]
        · exact absurd (Nat.le_mul_of_pos_left maxChunks.val hpos) (by omega)
      obtain rfl : rounds = 0 := (Nat.mul_eq_zero.1 hrounds).resolve_right (by omega)
      rw [if_pos (by omega), List.take_of_length_le hdone, hchecked]
      exact ⟨_, rfl⟩
    · rw [if_neg (by omega), show min (chunkSet.chunks.length - start) maxChunks.val =
        maxChunks.val by omega]
      obtain ⟨metrics', hrest⟩ := @ih
        { stream with
          incoming := (requestsFrom snapshotRoot maxChunks (start + maxChunks.val) rounds).flatMap
            chunkSet.answer ++ rest
          sent := stream.sent ++ [⟨snapshotRoot, .ofNat 32 start, maxChunks⟩] }
        (start + maxChunks.val) sends (by omega) (by omega) (by omega) (by omega)
        (some chunkSet.manifest) (by simp) rfl metrics₁
      refine ⟨metrics', ?_⟩
      rw [hrest, List.append_assoc, List.singleton_append]

/-- A client that gets the answers to its requests has the chunks in the end. -/
theorem fetch_of_pages (hpage : maxChunks ≠ 0)
    (hcount : chunkSet.manifest.chunkCount.val = chunkSet.chunks.length)
    (hsome : 0 < chunkSet.chunks.length)
    (hchecked : chunkSet.reconstructSnapshotWithMetadataRoots env.toProtocolEnv required =
      .ok snapshot) {root : String}
    (hroot : Storage.requiredSnapshotMetadataRootsRootFor env required = .ok root) {rounds : ℕ}
    (hrounds : rounds = (chunkSet.chunks.length + maxChunks.val - 1) / maxChunks.val)
    (hsends : rounds ≤ stream.sends) {rest : List ProtocolMessage}
    (hincoming : stream.incoming =
      (requestsFrom snapshotRoot maxChunks 0 rounds).flatMap chunkSet.answer ++ rest) :
    ∃ metrics, fetchVerifiedSnapshotChunkSetOverTcpWithMetrics env snapshotRoot maxChunks required
        stream =
      .ok (chunkSet, metrics)
        { stream with
          incoming := rest
          sent := stream.sent ++ requestsFrom snapshotRoot maxChunks 0 rounds } := by
  have hpos : 0 < maxChunks.val := by
    refine Nat.pos_of_ne_zero fun hzero => hpage (Word.ext ?_)
    rw [hzero, Word.val_zero]
  -- the number of rounds, rounded up
  have hdiv := Nat.div_add_mod (chunkSet.chunks.length + maxChunks.val - 1) maxChunks.val
  have hmod := Nat.mod_lt (chunkSet.chunks.length + maxChunks.val - 1) hpos
  rw [← hrounds, Nat.mul_comm] at hdiv
  obtain ⟨metrics, hfetch⟩ := @fetchRounds_of_pages env stream snapshotRoot maxChunks required
    chunkSet snapshot hpos hcount hchecked rounds 0 stream.sends hsome (by omega) (by omega) hsends
    none (by simp) rest hincoming {}
  refine ⟨{ metrics with requiredMetadataRootsRoot := some root }, ?_⟩
  rw [fetchVerifiedSnapshotChunkSetOverTcpWithMetrics, ensure_bind, if_pos hpage, hroot]
  rw [List.take_zero] at hfetch
  simp only [bind, EStateM.bind, get_apply, hfetch, pure, EStateM.pure]

end StateSync

open StateSync in
theorem snapshot_chunks_round_trip (env : NodeEnv) (snapshot : StateSnapshot) (state : DeTTaState)
    (hstate : fromSnapshot env.hashing snapshot = .ok state)
    (hjson : env.readSnapshot (snapshotJsonBytes env snapshot) = some snapshot)
    (maxChunkBytes : ℕ) (hsize : 0 < maxChunkBytes) (hword : maxChunkBytes < 2 ^ 32)
    (metadataRoots : ExtTreeMap String String) (maxChunks : U32) (hpage : maxChunks ≠ 0) :
    -- a node that has the snapshot and the roots in its files
    (∀ (n : PersistentValidatorNode) (effectiveRoots : Storage (ExtTreeMap String String)),
      Storage.loadSnapshot env n.storage = .ok snapshot n.storage →
      effectiveRoots n.storage = .ok metadataRoots n.storage →
      ∃ chunkSet, buildSnapshotChunksWithMetadataRoots env snapshot maxChunkBytes metadataRoots =
          .ok chunkSet ∧
        ∃ requests answers,
          List.Forall₂ (fun request answer =>
            serveSnapshotChunkRequest env effectiveRoots request maxChunkBytes n = .ok answer n)
            requests answers ∧
          ∀ required root, (∀ key expected : String, required[key]? = some expected →
              metadataRoots[key]? = some expected) →
            Storage.requiredSnapshotMetadataRootsRootFor env required = .ok root →
            ∀ (stream : TcpProtocolStream) (rest : List ProtocolMessage),
              stream.incoming = answers.flatten ++ rest → requests.length ≤ stream.sends →
              ∃ metrics, fetchVerifiedSnapshotChunkSetOverTcpWithMetrics env
                  snapshot.globalStateRoot maxChunks required stream =
                .ok (chunkSet, metrics)
                  { stream with incoming := rest, sent := stream.sent ++ requests }) ∧
    ∀ chunkSet, buildSnapshotChunksWithMetadataRoots env snapshot maxChunkBytes metadataRoots =
        .ok chunkSet →
      -- the JSON is in memory
      (snapshotJsonBytes env snapshot).length ≤ isizeMax →
      (∀ chunks : List SnapshotChunk, chunks.Perm chunkSet.chunks →
        SnapshotChunkSet.reconstructSnapshot env.toProtocolEnv ⟨chunkSet.manifest, chunks⟩ =
          .ok snapshot) ∧
      ((∀ bytes, env.hashing.sha256 bytes =
          env.hashing.sha256 (snapshotJsonBytes env snapshot) →
          bytes = snapshotJsonBytes env snapshot) →
        ∀ (chunks : List SnapshotChunk) (snapshot' : StateSnapshot),
          SnapshotChunkSet.reconstructSnapshot env.toProtocolEnv ⟨chunkSet.manifest, chunks⟩ =
            .ok snapshot' → snapshot' = snapshot) := by
  have hmemory : ∀ {length : ℕ}, length ≤ isizeMax → length < 2 ^ 64 := fun h =>
    h.trans_lt (by decide)
  refine ⟨fun n effectiveRoots hload hroots => ?_, fun chunkSet hbuild hlength => ?_⟩
  · obtain ⟨hfits, -⟩ := of_loadSnapshot_eq_ok hload
    obtain ⟨chunkSet, hbuild⟩ :=
      exists_build_eq_ok metadataRoots hsize hword (length_rawChunks_lt hsize hfits)
    obtain ⟨-, hbuilt⟩ := built_of_eq_ok hbuild
    have hlong : (snapshotJsonBytes env snapshot).length ≤ isizeMax :=
      le_trans hfits (by decide)
    have hall := hbuilt.reconstructSnapshot_eq_ok (flatten_rawChunks hsize) hjson (hmemory hlong)
      hstate (List.Perm.refl chunkSet.chunks)
    have hcount : chunkSet.chunks.length = (rawChunks env snapshot maxChunkBytes).length := by
      rw [hbuilt.chunks, List.length_mapIdx]
    have hsome := List.length_pos_of_ne_nil (rawChunks_ne_nil env snapshot maxChunkBytes)
    set rounds := (chunkSet.chunks.length + maxChunks.val - 1) / maxChunks.val with hrounds
    refine ⟨chunkSet, hbuild, requestsFrom snapshot.globalStateRoot maxChunks 0 rounds,
      (requestsFrom snapshot.globalStateRoot maxChunks 0 rounds).map chunkSet.answer, ?_, ?_⟩
    · refine List.forall₂_map_right_iff.2 (List.forall₂_same.2 fun request hrequest => ?_)
      obtain ⟨i, -, rfl⟩ := List.mem_map.1 hrequest
      exact serveSnapshotChunkRequest_eq_ok hload hroots hbuild rfl
    · intro required root hrequired hroot stream rest hincoming hsends
      have hchecked := SnapshotChunkSet.reconstructSnapshotWithMetadataRoots_eq_ok.2
        ⟨hall, by rwa [hbuilt.roots]⟩
      refine fetch_of_pages hpage (hbuilt.count.trans hcount.symm) (hcount ▸ hsome) hchecked hroot
        hrounds (by simpa [requestsFrom] using hsends) ?_
      rw [hincoming, List.flatMap_def]
  · obtain ⟨-, hbuilt⟩ := built_of_eq_ok hbuild
    refine ⟨fun chunks hperm => ?_, fun hhash chunks snapshot' hok => ?_⟩
    · exact hbuilt.reconstructSnapshot_eq_ok (flatten_rawChunks hsize) hjson (hmemory hlength) hstate
        hperm
    · exact hbuilt.eq_of_reconstructSnapshot_eq_ok hjson hhash hok

namespace Sync

/-! The snapshot of an empty state, whose JSON has three bytes, in chunks of two, which are
fetched one by one. -/

def hashing : Hashing := ⟨fun _ => [], id⟩

def snapshot : StateSnapshot := DeTTaState.snapshot hashing (.new "detta")

def env : NodeEnv where
  hashing := hashing
  parseFinalityProof _ := none
  parseModule _ := none
  verifyModule _ := none
  messageBytes _ := some []
  readSnapshot bytes := if bytes = [1, 2, 3] then some snapshot else none
  isVerifyingKey _ := true
  verifies _ _ _ := true
  storedBytes _ := [1, 2, 3]
  ioMessage := "failed"

def node : PersistentValidatorNode :=
  .ofNode "v" (.new "v" (.new "detta")) { FileStorage.empty with latestSnapshot := some snapshot }

theorem fromSnapshot_eq : fromSnapshot env.hashing snapshot = .ok (.new "detta") :=
  fromSnapshot_snapshot _ _

theorem loadSnapshot_node :
    Storage.loadSnapshot env node.storage = .ok snapshot node.storage := by
  have hread : Storage.maybeReadJson env .snapshot (·.latestSnapshot) node.storage =
    .ok (some snapshot) node.storage := rfl
  simp only [Storage.loadSnapshot, bind, EStateM.bind, hread, okOr, pure, EStateM.pure,
    fromSnapshot_eq]

theorem snapshot_chunks_round_trip_two :
    ∃ chunkSet, buildSnapshotChunksWithMetadataRoots env snapshot 2 ∅ = .ok chunkSet ∧
      chunkSet.chunks.length = 2 ∧
      SnapshotChunkSet.reconstructSnapshot env.toProtocolEnv
        ⟨chunkSet.manifest, chunkSet.chunks.reverse⟩ = .ok snapshot := by
  obtain ⟨hserved, hbuilt⟩ := snapshot_chunks_round_trip env snapshot (.new "detta")
    fromSnapshot_eq rfl 2 (by decide) (by decide) ∅ 1 (by decide)
  obtain ⟨chunkSet, hbuild, -⟩ := hserved node (pure ∅) loadSnapshot_node rfl
  refine ⟨chunkSet, hbuild, ?_, (hbuilt chunkSet hbuild (by decide)).1 _ (List.reverse_perm _)⟩
  obtain rfl := Except.ok.inj hbuild
  rfl

end Sync

end Detta
