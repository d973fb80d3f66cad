import Detta.Core.Persistent
import Detta.Safety.Binding

/-!
# State sync

A client asks a peer for the snapshot with some root, and checks what it gets: the chunks
against the manifest, the snapshot against its chunks, the roots of the snapshot against its
state, and the manifest against the metadata roots that it requires. The manifest itself is
the peer's. It is compared with the manifests that follow, but not with the request, so that
the state is the one that was asked for exactly when the first manifest names its root.
-/

namespace Detta

open StateSync

namespace SnapshotChunkSet

variable {env : ProtocolEnv} {c : SnapshotChunkSet} {snapshot : StateSnapshot}
  {required : Std.ExtTreeMap String String}

/-- A snapshot that is put together has the root of the manifest, which is also the one of its
    state. -/
theorem of_reconstructSnapshot_eq_ok (h : c.reconstructSnapshot env = .ok snapshot) :
    snapshot.globalStateRoot = c.manifest.snapshotRoot ∧
      snapshot.state.globalStateRoot env.hashing = c.manifest.snapshotRoot := by
  simp only [reconstructSnapshot, ite_error_eq_ok] at h
  obtain ⟨-, -, h⟩ := h
  obtain ⟨chunks, -, h⟩ := exists_of_bind_eq_ok h
  obtain ⟨bytes, -, h⟩ := exists_of_bind_eq_ok h
  simp only [ite_error_eq_ok] at h
  obtain ⟨-, -, h⟩ := h
  split at h
  next => cases h
  next read _ =>
    obtain ⟨hroot, h⟩ := ite_error_eq_ok.1 h
    split at h
    next => cases h
    next s hs =>
      obtain rfl := Except.ok.inj h
      obtain ⟨rfl, hstate⟩ := of_fromSnapshot_eq_ok hs
      exact ⟨not_not.1 hroot, hstate.symm.trans (not_not.1 hroot)⟩

theorem metadataRootError_eq_none :
    c.metadataRootError required = none ↔
      ∀ (key expected : String), required[key]? = some expected →
        c.manifest.metadataRoots[key]? = some expected := by
  simp only [metadataRootError, Option.map_eq_none_iff, List.find?_eq_none, decide_not,
    Bool.not_eq_true', decide_eq_false_iff_not, not_not, Prod.forall,
    Std.ExtTreeMap.mem_toList_iff_getElem?_eq_some]

theorem reconstructSnapshotWithMetadataRoots_eq_ok :
    c.reconstructSnapshotWithMetadataRoots env required = .ok snapshot ↔
      c.reconstructSnapshot env = .ok snapshot ∧
        ∀ (key expected : String), required[key]? = some expected →
          c.manifest.metadataRoots[key]? = some expected := by
  rw [← metadataRootError_eq_none, reconstructSnapshotWithMetadataRoots]
  cases c.reconstructSnapshot env with
  | error error => simp [bind, Except.bind]
  | ok snapshot' => cases c.metadataRootError required <;> simp [bind, Except.bind]

end SnapshotChunkSet

namespace StateSync

variable {env : NodeEnv} {snapshotRoot : String} {maxChunksPerRequest : U32}
  {required : Std.ExtTreeMap String String} {stream : TcpProtocolStream}

/-- The first message is a manifest. -/
def Opens (stream : TcpProtocolStream) (manifest : SnapshotChunkManifest) : Prop :=
  stream.incoming.head? = some (.snapshotChunkManifest manifest)

theorem wp_receiveManifest :
    wp receiveManifest (fun manifest _ => Opens stream manifest) (fun _ _ => True) stream := by
  unfold receiveManifest receive
  refine wp_bind.2 (.get ?_)
  split
  next => trivial
  next message incoming hincoming =>
    refine .set (wp_pure.2 ?_)
    split
    next manifest => simp [Opens, hincoming]
    next => trivial

theorem agreeOnManifest_eq_ok {manifest : Option SnapshotChunkManifest}
    {next agreed : SnapshotChunkManifest} (h : agreeOnManifest env manifest next = .ok agreed) :
    agreed = next ∧ ∀ m ∈ manifest, m = agreed := by
  unfold agreeOnManifest at h
  split at h
  next => exact ⟨(Except.ok.inj h).symm, by simp⟩
  next m =>
    obtain ⟨hm, h⟩ := ite_error_eq_ok.1 h
    obtain rfl := Except.ok.inj h
    exact ⟨not_not.1 hm, by simp⟩

/-- A fetched set has passed the checks, and its manifest is the one that came first. -/
theorem wp_fetchRounds (manifest : Option SnapshotChunkManifest) (chunks : List SnapshotChunk)
    (startIndex : ℕ) (metrics : SnapshotSyncClientMetrics) (sends : ℕ) :
    wp (fetchRounds env snapshotRoot maxChunksPerRequest required manifest chunks startIndex
        metrics sends)
      (fun result _ => (∃ snapshot,
          result.1.reconstructSnapshotWithMetadataRoots env.toProtocolEnv required =
            .ok snapshot) ∧
        Opens stream result.1.manifest ∧ ∀ m ∈ manifest, m = result.1.manifest)
      (fun _ _ => True) stream := by
  induction sends generalizing manifest chunks startIndex metrics stream with
  | zero => trivial
  | succ sends ih =>
    unfold fetchRounds
    refine .modify (wp_bind.2 (wp_receiveManifest.imp ?_))
    intro next stream₁ hopens
    split
    next => trivial
    next agreed hagreed =>
      obtain ⟨rfl, hfirst⟩ := agreeOnManifest_eq_ok hagreed
      -- whatever the chunks are, they are checked in the end
      refine wp_bind.2 ((wp_self (receiveChunks _) stream₁).imp ?_)
      intro received stream₂ _
      dsimp only
      split
      next =>
        split
        next => trivial
        next snapshot hsnapshot => exact ⟨⟨snapshot, hsnapshot⟩, hopens, hfirst⟩
      next =>
        refine (ih (some agreed) _ _ _).imp ?_
        rintro result _ ⟨hchecked, -, hsame⟩
        obtain rfl := hsame agreed rfl
        exact ⟨hchecked, hopens, hfirst⟩

/-- The chunks are those of the state with some root, with all required metadata roots. -/
def Delivers (env : NodeEnv) (snapshotRoot : String) (required : Std.ExtTreeMap String String)
    (chunkSet : SnapshotChunkSet) : Prop :=
  ∃ snapshot, chunkSet.reconstructSnapshot env.toProtocolEnv = .ok snapshot ∧
    snapshot.globalStateRoot = snapshotRoot ∧
    snapshot.state.globalStateRoot env.hashing = snapshotRoot ∧
    ∀ (key expected : String), required[key]? = some expected →
      chunkSet.manifest.metadataRoots[key]? = some expected

theorem fetched_state_is_requested_iff {chunkSet : SnapshotChunkSet}
    {metrics : SnapshotSyncClientMetrics} {stream' : TcpProtocolStream}
    (h : fetchVerifiedSnapshotChunkSetOverTcpWithMetrics env snapshotRoot maxChunksPerRequest
      required stream = .ok (chunkSet, metrics) stream') :
    Delivers env snapshotRoot required chunkSet ↔
      ∃ manifest, Opens stream manifest ∧ manifest.snapshotRoot = snapshotRoot := by
  obtain ⟨⟨snapshot, hsnapshot⟩, hopens⟩ := wp.of_ok h (Q := fun result _ => (∃ snapshot,
      result.1.reconstructSnapshotWithMetadataRoots env.toProtocolEnv required = .ok snapshot) ∧
        Opens stream result.1.manifest) (by
    unfold fetchVerifiedSnapshotChunkSetOverTcpWithMetrics
    refine .ensure ⟨fun _ => ?_, fun _ => trivial⟩
    split
    next => trivial
    next root _ =>
      refine .get (wp_bind.2 ?_)
      refine (wp_fetchRounds none [] 0 {} stream.sends).imp ?_
      rintro result _ ⟨hchecked, hopens, -⟩
      exact ⟨hchecked, hopens⟩)
  obtain ⟨hsnapshot, hrequired⟩ :=
    SnapshotChunkSet.reconstructSnapshotWithMetadataRoots_eq_ok.1 hsnapshot
  obtain ⟨hroot, hstate⟩ := SnapshotChunkSet.of_reconstructSnapshot_eq_ok hsnapshot
  constructor
  · rintro ⟨snapshot', hsnapshot', hrequested, -, -⟩
    obtain rfl := Except.ok.inj (hsnapshot.symm.trans hsnapshot')
    exact ⟨chunkSet.manifest, hopens, hroot.symm.trans hrequested⟩
  · rintro ⟨manifest, hmanifest, rfl⟩
    obtain rfl : manifest = chunkSet.manifest :=
      ProtocolMessage.snapshotChunkManifest.inj (Option.some.inj (hmanifest.symm.trans hopens))
    exact ⟨snapshot, hsnapshot, hroot, hstate, hrequired⟩

end StateSync

namespace Substitution

/-! A peer that sends the snapshot of an empty state, whatever it is asked for. -/

def state : DeTTaState := .new "detta"

def env : NodeEnv where
  hashing := ⟨fun _ => [], fun _ => [0]⟩
  parseFinalityProof _ := none
  parseModule _ := none
  verifyModule _ := none
  messageBytes _ := some []
  readSnapshot _ := some (state.snapshot ⟨fun _ => [], fun _ => [0]⟩)
  isVerifyingKey _ := true
  verifies _ _ _ := true
  storedBytes _ := []
  ioMessage := "failed"

def root : String := state.globalStateRoot env.hashing

def chunkSet : SnapshotChunkSet :=
  ⟨⟨root, "00", ∅, 1, 0, 1, ["00"], "00"⟩, [⟨"00", 0, [], "00"⟩]⟩

def peer : TcpProtocolStream :=
  ⟨.snapshotChunkManifest chunkSet.manifest :: chunkSet.chunks.map .snapshotChunk, 1, "closed", []⟩

def metrics : SnapshotSyncClientMetrics := ⟨1, 1, 1, 0, true, some "00"⟩

theorem fetch_peer (snapshotRoot : String) :
    fetchVerifiedSnapshotChunkSetOverTcpWithMetrics env snapshotRoot 1 ∅ peer =
      .ok (chunkSet, metrics) { peer with incoming := [], sent := [⟨snapshotRoot, 0, 1⟩] } :=
  rfl

theorem fetched_state_is_requested_root : Delivers env root ∅ chunkSet :=
  (fetched_state_is_requested_iff (fetch_peer root)).2 ⟨chunkSet.manifest, rfl, rfl⟩

/-- The client asks for another state, and gets this one. -/
theorem fetched_state_is_another :
    fetchVerifiedSnapshotChunkSetOverTcpWithMetrics env "requested" 1 ∅ peer =
        .ok (chunkSet, metrics) { peer with incoming := [], sent := [⟨"requested", 0, 1⟩] } ∧
      chunkSet.reconstructSnapshot env.toProtocolEnv = .ok (state.snapshot env.hashing) ∧
      (state.snapshot env.hashing).globalStateRoot ≠ "requested" :=
  ⟨fetch_peer "requested", rfl, by decide⟩

end Substitution

end Detta
