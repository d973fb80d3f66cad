import Detta.Safety.AppendOnly
import Detta.Safety.Commitment
import Detta.Safety.Encoding
import Detta.Safety.Outbox
import Detta.Safety.Redeem

/-!
# Conservation across chains

A bridge of a chain creates tokens for messages that another chain has sent. If every proof it
accepts has an outbox root that the other chain has really had, then every message it redeems is
in the outbox of the other chain (`mem_outbox_of_backedBy`). As no message is redeemed twice,
what the bridge creates of an asset is no more than what the messages for it are about.

The messages come from two kinds of contracts. Native bridges queue them, and lock the asset
(`historyInvariant_queued`). Aspect contracts append them by their own rules, and may lock or
burn what they keep, or nothing.
-/

namespace Detta

open Kernel

/-! ## What is sent -/

/-- The message is for a bridge of a chain, and about an asset. -/
def CrossShardMessage.names (message : CrossShardMessage) (chain : ChainId) (bridge : ContractId)
    (asset : AssetId) : Bool :=
  message.destinationChain = chain ∧ message.destinationContract = bridge ∧ message.asset = asset

/-- The amount of an asset in the messages for a bridge of a chain. -/
def sentTo (chain : ChainId) (bridge : ContractId) (asset : AssetId)
    (messages : List CrossShardMessage) : ℕ :=
  ((messages.filter (·.names chain bridge asset)).map (·.amount.val)).sum

/-- The messages that calls have queued. -/
def queuedMessages (past : List FrameRecord) : List CrossShardMessage :=
  past.filterMap (·.frame.message)

/-- The contract that has sent the message is an aspect contract. -/
def DeTTaState.sentByAspect (s : DeTTaState) (message : CrossShardMessage) : Bool :=
  match s.contracts[message.sourceContract]? with
  | some record => record.kind.isAspectModule
  | none => false

/-- The messages in the outbox that come from aspect contracts. -/
def DeTTaState.aspectMessages (s : DeTTaState) : List CrossShardMessage :=
  s.crossShardOutbox.filter s.sentByAspect

section Sent

variable {env : Env} {s s' : DeTTaState} {message : CrossShardMessage} {past : List FrameRecord}

theorem sentTo_append (chain : ChainId) (bridge : ContractId) (asset : AssetId)
    (l l' : List CrossShardMessage) :
    sentTo chain bridge asset (l ++ l') =
      sentTo chain bridge asset l + sentTo chain bridge asset l' := by
  rw [sentTo, List.filter_append, List.map_append, List.sum_append, sentTo, sentTo]

theorem sentTo_perm {chain : ChainId} {bridge : ContractId} {asset : AssetId}
    {l l' : List CrossShardMessage} (h : l.Perm l') :
    sentTo chain bridge asset l = sentTo chain bridge asset l' :=
  ((h.filter _).map _).sum_eq

theorem DeployStep.sameOutbox (h : DeployStep env s s') : s.SameOutbox s' := by
  cases h with
  | contract =>
    rw [DeTTaState.puts_eq]
    exact ⟨rfl, rfl⟩
  | _ => exact ⟨rfl, rfl⟩

/-- Where messages come from: their contracts are deployed, and those that are not from aspect
    contracts have been queued. -/
structure Traced (past : List FrameRecord) (s : DeTTaState) : Prop where
  deployed : ∀ message ∈ s.crossShardOutbox, s.contracts.contains message.sourceContract = true
  queued : s.crossShardOutbox.filter (fun message => !s.sentByAspect message) = queuedMessages past

theorem sentByAspect_of_keepsKinds (h : s.KeepsKinds s')
    (hc : s.contracts.contains message.sourceContract = true) :
    s'.sentByAspect message = s.sentByAspect message := by
  obtain ⟨record, hr⟩ := Table.contains_iff.1 hc
  obtain ⟨record', hr', hk⟩ := h hr
  simp only [DeTTaState.sentByAspect, hr', hr, hk]

theorem Traced.of_same (h : Traced past s) (hk : s.KeepsKinds s')
    (ho : s.SameOutbox s') : Traced past s' where
  deployed message hmem := contains_of_keepsKinds hk (h.deployed message (ho.1 ▸ hmem))
  queued := by
    rw [ho.1, ← h.queued]
    exact List.filter_congr fun message hmem => by
      rw [sentByAspect_of_keepsKinds hk (h.deployed message hmem)]

/-- One more message is traced to the contract that appends it. -/
theorem Traced.append (h : Traced past s) (hk : s.KeepsKinds s') (ha : s.Appends message s')
    {record : ContractRecord} (hr : s'.contracts[message.sourceContract]? = some record) :
    (∀ message ∈ s'.crossShardOutbox, s'.contracts.contains message.sourceContract = true) ∧
    s'.crossShardOutbox.filter (fun message => !s'.sentByAspect message) =
      queuedMessages past ++ if record.kind.isAspectModule then [] else [message] := by
  constructor
  · intro message' hmem
    rw [ha.outbox, List.mem_append, List.mem_singleton] at hmem
    rcases hmem with hmem | rfl
    · exact contains_of_keepsKinds hk (h.deployed message' hmem)
    · exact Table.contains_iff.2 ⟨record, hr⟩
  · rw [ha.outbox, List.filter_append, ← h.queued]
    congr 1
    · exact List.filter_congr fun message hmem => by
        rw [sentByAspect_of_keepsKinds hk (h.deployed message hmem)]
    · simp only [List.filter_singleton, DeTTaState.sentByAspect, hr]
      cases record.kind.isAspectModule <;> rfl

end Sent

section Traced

variable {f : Frame} {message : CrossShardMessage} {s s' : DeTTaState}

theorem Frame.sourceContract_of_message (h : f.message = some message) :
    message.sourceContract = f.tx.target := by
  unfold Frame.message at h
  split at h
  next =>
    split at h
    next => cases h; rfl
    next => cases h
  next => cases h

/-- The last that a frame does that queues a message leaves the contracts alone. -/
theorem Frame.Locks.contracts_eq {own : List (DeTTaState × DeTTaState)} (h : f.Locks message own)
    (hl : own.getLast? = some (s, s')) : s'.contracts = s.contracts := by
  cases h with
  | native _ hm =>
    obtain ⟨-, _, -, rfl⟩ := DeTTaState.move_eq_some.1 hm
    obtain ⟨rfl, rfl⟩ : _ ∧ _ := by simpa using hl
    rfl
  | aspect =>
    obtain ⟨rfl, rfl⟩ : _ ∧ _ := by simpa using hl
    rfl

/-- Methods of modules belong to aspect contracts. -/
theorem Frame.Live.isAspectModule (h : f.Live) {projection : String}
    (hm : f.tx.method = .other projection) :
    ∃ record, f.start.contracts[f.tx.target]? = some record ∧
      record.kind.isAspectModule = true := by
  obtain ⟨record, hr, ho, -⟩ := h
  refine ⟨record, hr, ?_⟩
  rw [hm] at ho
  cases hk : record.kind <;> simp_all [ContractKind.offers, ContractKind.isAspectModule]

/-- The messages that bridges have sent are those that calls have queued. -/
theorem historyInvariant_queued (env : Env) : HistoryInvariant env Frame.isQueue Traced where
  own {f past s s'} hw hlive hg hJ hs := by
    rcases hs.outbox_cases with hsame | ⟨message, happ, hsource, hm, -⟩
    · exact hJ.of_same hs.grows.keepsKinds hsame
    · rcases hm with hm | ⟨projection, hm⟩
      · simp [Frame.isQueue, hm] at hw
      · obtain ⟨record, hr, hk⟩ := hlive.isAspectModule hm
        obtain ⟨record', hr', hk', -⟩ := (hg.trans hs.grows).contracts hr
        have h := hJ.append hs.grows.keepsKinds happ (hsource ▸ hr')
        rw [hk', hk, if_pos rfl, List.append_nil] at h
        exact ⟨h.1, h.2⟩
  leave {r past s} hw _ _ hJ := by
    have hm : r.frame.tx.method ≠ .queueBridgeMessage := by simpa [Frame.isQueue] using hw
    refine ⟨hJ.deployed, hJ.queued.trans ?_⟩
    simp [queuedMessages, List.filterMap_append, Frame.message_eq_none hm]
  idle hw hr := by
    obtain ⟨message, hq⟩ := queues_of_returned hr (by simpa [Frame.isQueue] using hw)
    exact hq.locks.idle
  step {r past s s'} hw hr hg hl hJ := by
    obtain ⟨message, hq⟩ := queues_of_returned hr (by simpa [Frame.isQueue] using hw)
    have hcontracts := hq.locks.contracts_eq hl
    obtain ⟨record, sourceChain, hrecord, hk⟩ := hq.bridge
    obtain ⟨record', hr', hk', -⟩ := hg.contracts hrecord
    have h := hJ.append (fun hr => ⟨_, hcontracts ▸ hr, rfl⟩) (hq.locks.appends hl)
      ((Frame.sourceContract_of_message hq.asked) ▸ hr')
    rw [hk', hk, if_neg (by simp [ContractKind.isAspectModule])] at h
    refine ⟨h.1, h.2.trans ?_⟩
    simp [queuedMessages, List.filterMap_append, hq.asked]
  nonce _ h := ⟨h.deployed, h.queued⟩
  timeless _ _ _ _ h := ⟨h.deployed, h.queued⟩
  deploy h hd := h.of_same hd.keepsKinds hd.sameOutbox

theorem traced_runOps (env : Env) (chainId : ChainId) (ops : List Op) :
    Traced (runFrames env (.new chainId) ops) (runOps env (.new chainId) ops) :=
  (historyInvariant_queued env).runFrames
    ⟨by simp [DeTTaState.new], by simp [DeTTaState.new, queuedMessages]⟩ ops

/-- What the outbox holds for a bridge has been queued, or comes from aspect contracts. -/
theorem Traced.sentTo_eq {past : List FrameRecord} (h : Traced past s) (chain : ChainId)
    (bridge : ContractId) (asset : AssetId) :
    sentTo chain bridge asset s.crossShardOutbox =
      sentTo chain bridge asset (queuedMessages past) +
        sentTo chain bridge asset s.aspectMessages := by
  rw [← h.queued, add_comm, ← sentTo_append]
  exact sentTo_perm (List.filter_append_perm s.sentByAspect s.crossShardOutbox).symm

end Traced

/-! ## What is created -/

/-- The redemption of an asset that a frame asks a bridge for. -/
def Frame.redeemedFrom (f : Frame) (bridge : ContractId) (asset : AssetId) : Option Redemption :=
  f.redemption.filter fun x => f.tx.target = bridge ∧ x.asset = asset

/-- What calls have redeemed of an asset, from a bridge. -/
def redeemedFrom (bridge : ContractId) (asset : AssetId) (past : List FrameRecord) :
    List Redemption :=
  past.filterMap (·.frame.redeemedFrom bridge asset)

/-- The amount of an asset that calls of a bridge have created. -/
def mintedBy (bridge : ContractId) (asset : AssetId) (past : List FrameRecord) : ℕ :=
  ((redeemedFrom bridge asset past).map (·.amount.val)).sum

/-- The root of a proof is one that the chain has had, at the height of the proof, and the hashes
    that are computed for both do not collide. -/
def CrossShardFinalityProof.Truthful (proof : CrossShardFinalityProof) (env : Env)
    (chainId : ChainId) (ops : List Op) : Prop :=
  ∃ n, (runOps env (.new chainId) (ops.take n)).height = proof.sourceHeight ∧
    (runOps env (.new chainId) (ops.take n)).outboxRoot env.hashing = proof.outboxRoot ∧
    env.hashing.CollisionFree (env.hashing.merkleInputs
      ((runOps env (.new chainId) (ops.take n)).crossShardOutbox.map (·.json)) ++
      env.hashing.proofInputs proof.messageProof.proof proof.messageProof.message.json)

section Created

variable {env : Env} {bridge : ContractId} {asset : AssetId}

theorem Frame.redeemedFrom_eq_some {f : Frame} {x : Redemption} :
    f.redeemedFrom bridge asset = some x ↔
      f.redemption = some x ∧ f.tx.target = bridge ∧ x.asset = asset := by
  rw [Frame.redeemedFrom, Option.filter_eq_some_iff, decide_eq_true_eq]

/-- No two calls of a bridge redeem the same message. -/
theorem nodup_redeemedFrom {past : List FrameRecord}
    (h : ∀ messageId, past.countP (fun r => r.frame.redeems bridge messageId) ≤ 1) :
    ((redeemedFrom bridge asset past).map (·.messageId)).Nodup := by
  rw [List.nodup_iff_count_le_one]
  refine fun messageId => le_trans ?_ (h messageId)
  rw [redeemedFrom, List.count, List.countP_map, List.countP_filterMap]
  refine List.countP_mono_left fun r _ hr => ?_
  obtain ⟨x, hx, hid⟩ : ∃ x, r.frame.redeemedFrom bridge asset = some x ∧
      x.messageId = messageId := by
    cases hx : r.frame.redeemedFrom bridge asset with
    | none => simp [hx] at hr
    | some x => exact ⟨x, rfl, by simpa [hx] using hr⟩
  obtain ⟨hask, ht, -⟩ := Frame.redeemedFrom_eq_some.1 hx
  exact (Frame.redeems_of_redemption hask).2 ⟨ht, hid⟩

/-- If different redemptions are of different messages of a list, with the same amounts, they
    amount to no more than the list. -/
theorem sum_amount_le {xs : List Redemption} {messages : List CrossShardMessage}
    (hn : (xs.map (·.messageId)).Nodup)
    (h : ∀ x ∈ xs, ∃ message ∈ messages, message.messageId = x.messageId ∧
      message.amount = x.amount) :
    (xs.map (·.amount.val)).sum ≤ (messages.map (·.amount.val)).sum := by
  have hnodup : (xs.map fun x => (x.messageId, x.amount)).Nodup := by
    refine List.Nodup.of_map Prod.fst ?_
    rwa [List.map_map]
  have hsubset : (xs.map fun x => (x.messageId, x.amount)) ⊆
      messages.map fun message => (message.messageId, message.amount) := by
    intro p hp
    obtain ⟨x, hx, rfl⟩ := List.mem_map.1 hp
    obtain ⟨message, hmem, hid, ha⟩ := h x hx
    exact List.mem_map.2 ⟨message, hmem, by rw [hid, ha]⟩
  -- the redemptions are, in some order, a part of the messages
  obtain ⟨part, hperm, hsub⟩ := List.subperm_of_subset hnodup hsubset
  have hle := (hsub.map fun p => p.2.val).sum_le_sum fun _ _ => Nat.zero_le _
  have heq := (hperm.map fun p => p.2.val).sum_eq
  rw [List.map_map] at hle heq
  exact heq ▸ hle

/-- A message that is proven against a root that the chain has had is in its outbox. -/
theorem mem_outbox_of_truthful (hf : env.hashing.Faithful) {proof : CrossShardFinalityProof}
    {chainId : ChainId} {ops : List Op} (ht : proof.Truthful env chainId ops)
    (hv : proof.messageProof.proof.verify env.hashing proof.messageProof.message.json = true)
    (hroot : proof.messageProof.proof.root = proof.outboxRoot) :
    proof.messageProof.message ∈ (runOps env (.new chainId) ops).crossShardOutbox := by
  obtain ⟨n, -, hr, hc⟩ := ht
  have hmem := Hashing.mem_of_verify hf hc (hroot.trans hr.symm) hv
  obtain ⟨message, hmessage, heq⟩ := List.mem_map.1 hmem
  have hgrow := (extends_runOps env (runOps env (.new chainId) (ops.take n))
    (ops.drop n)).crossShardOutbox
  rw [runOps, runOps, ← List.foldl_append, List.take_append_drop] at hgrow
  exact hgrow.subset (CrossShardMessage.json_injective heq ▸ hmessage)

/-- A call has locked the amount of its message with the bridge: from the caller to the bridge, on
    the token of the asset. -/
def FrameRecord.LocksExactly (r : FrameRecord) (message : CrossShardMessage)
    (token : ContractId) : Prop :=
  ∃ s', r.own = [(r.frame.start, s')] ∧
    s'.held token r.frame.tx.target message.asset =
      r.frame.start.held token r.frame.tx.target message.asset + message.amount.val ∧
    s'.held token r.frame.msgSender message.asset + message.amount.val =
      r.frame.start.held token r.frame.msgSender message.asset

/-- A bridge gets what it sends messages about, if the asset has a native token, and if it is not
    the bridge itself that pays. -/
theorem locksExactly_of_queues {r : FrameRecord} {message : CrossShardMessage}
    {token : ContractId} (h : r.frame.Queues message r.own)
    (hl : r.frame.start.resolveAssetLedger message.asset = some (.nativeToken token))
    (hne : r.frame.msgSender ≠ r.frame.tx.target) : r.LocksExactly message token := by
  obtain ⟨f, callers, own⟩ := r
  have hlocks := h.locks
  dsimp only at hlocks hl hne
  cases hlocks with
  | aspect hl' =>
    rw [hl] at hl'
    cases hl'
  | native hl' hm =>
    rw [hl] at hl'
    cases hl'
    refine ⟨_, rfl, ?_, ?_⟩
    · have hheld := DeTTaState.held_of_move hm hne token f.tx.target message.asset
      rw [if_neg fun h => hne h.2.1.symm, if_pos ⟨rfl, rfl, rfl⟩, add_zero] at hheld
      exact hheld
    · have hheld := DeTTaState.held_of_move hm hne token f.msgSender message.asset
      rw [if_pos ⟨rfl, rfl, rfl⟩, if_neg fun h => hne h.2.1, add_zero] at hheld
      exact hheld

/-- Two chains of which one redeems only messages with roots that the other has had: what a bridge
    creates of an asset is at most what the other chain has sent to it, in messages that calls
    have queued, and in messages of aspect contracts. The calls have locked what they sent, if
    the asset has a native token, and if the caller is not the bridge. -/
theorem mintedBy_le_sentTo (hf : env.hashing.Faithful) (source destination : ChainId)
    (ops ops' : List Op) (bridge : ContractId) (asset : AssetId)
    (ht : ∀ r ∈ runFrames env (.new destination) ops', r.frame.tx.target = bridge →
      ∀ x proof, r.frame.redemption = some x → env.parseFinalityProof x.certificate = some proof →
      proof.Truthful env source ops) :
    mintedBy bridge asset (runFrames env (.new destination) ops') ≤
      sentTo destination bridge asset (queuedMessages (runFrames env (.new source) ops)) +
      sentTo destination bridge asset (runOps env (.new source) ops).aspectMessages ∧
    ∀ r ∈ runFrames env (.new source) ops, ∀ message token, r.frame.message = some message →
      r.frame.start.resolveAssetLedger message.asset = some (.nativeToken token) →
      r.frame.msgSender ≠ r.frame.tx.target → r.LocksExactly message token := by
  refine ⟨?_, fun r hr message token hmessage hl hne => ?_⟩
  · rw [← (traced_runOps env source ops).sentTo_eq]
    refine sum_amount_le (nodup_redeemedFrom (countP_redeems_le_one env _ _ bridge)) fun x hx => ?_
    obtain ⟨r, hr, hx⟩ := List.mem_filterMap.1 hx
    obtain ⟨hask, htarget, hasset⟩ := Frame.redeemedFrom_eq_some.1 hx
    -- the message that the certificate proves is in the outbox of the source
    obtain ⟨x', hred⟩ := redeems_of_returned (returned_of_mem_runFrames hr)
      (Frame.method_of_redemption hask)
    obtain rfl : x' = x := Option.some.inj (hred.asked.symm.trans hask)
    obtain ⟨record, sourceChain, validators, proof, -, -, hv, hp, hproof⟩ := hred.proven
    have hback := Redemption.backedBy_of_verify hv hproof
    have hmem := mem_outbox_of_truthful hf (ht r hr htarget _ proof hask hp) hback.proves hback.root
    have hchain : r.frame.start.chainId = destination := chainId_of_mem_runFrames hr
    refine ⟨_, List.mem_filter.2 ⟨hmem, ?_⟩, ?_, ?_⟩ <;> rw [hback.message]
    rw [CrossShardMessage.names, decide_eq_true_eq]
    exact ⟨hchain, htarget, hasset⟩
  · obtain ⟨message', hq⟩ := queues_of_returned (returned_of_mem_runFrames hr)
      (Frame.method_of_message hmessage)
    obtain rfl : message' = message := Option.some.inj (hq.asked.symm.trans hmessage)
    exact locksExactly_of_queues hq hl hne

end Created

/-! ## Two chains -/

namespace Crossing

/-- A message about the asset `A`, from the chain `c` to the bridge `b` of the chain `d`. -/
def message (contract : ContractId) (recipient : Principal) : CrossShardMessage :=
  ⟨"c", contract, 0, "d", "b", "m", recipient, "A", 5⟩

/-- The message that the bridge `s` sends for `alice`, to `bob`. -/
def locked : CrossShardMessage := message "s" "bob"

/-- The message that a contract `R` sends for `mallory`. -/
def rogue : CrossShardMessage := message "R" "mallory"

/-- The proof that the outbox of the chain `c` consists of a message. -/
def proof (message : CrossShardMessage) : CrossShardFinalityProof where
  sourceChain := "c"
  sourceHeight := 0
  finalizedBlockHash := "f"
  outboxRoot := Hashing.standard.merkleRoot [message.json]
  quorum := 1
  signers := ["v"]
  messageProof := ⟨message, {
    root := Hashing.standard.merkleRoot [message.json]
    leafHash := hexLower (Hashing.standard.merkleLeaf message.json)
    index := 0
    leafCount := 1
    path := [] }⟩

/-- The certificates are proofs of a message. -/
def env (message : CrossShardMessage) : Env :=
  { Rogue.env with
    hashing := .standard
    parseFinalityProof := fun _ => some (proof message) }

/-- On the chain `c`, the bridge `s` locks some tokens of `alice` for `bob`. -/
def source : List Op :=
  [.deploy (.token "t" "A" [("alice", 100)]), .deploy (.bridge "s" "d"),
    .transaction (Proxy.call "alice" "s" .queueBridgeMessage [.text "d", .text "b", .text "m",
      .principal "bob", .asset "A", .amount 5])]

/-- On the chain `c`, a contract appends a message for `mallory`, and keeps nothing. -/
def rogueSource : List Op :=
  let module := { Rogue.module with moduleHash := Rogue.module.computedHash .standard }
  [.deploy (.aspectModule module), .deploy (.aspectContract "R" module.moduleHash "R"),
    .transaction (Proxy.call "mallory" "R" erc20Transfer [.principal "mallory", .amount 5])]

/-- On the chain `d`, somebody redeems the message. -/
def destination (recipient : Principal) : List Op :=
  [.deploy (.token "u" "A" [("carol", 1)]),
    .deploy (.bridgeWithValidatorSet "b" "c" ["v"] 1),
    .transaction { Proxy.call recipient "b" .redeemBridgeMessage [.text "m",
      .principal recipient, .asset "A", .amount 5, .certificate "p"] with chainId := "d" }]

/-- The root of the proof is that of the chain, if its outbox consists of the message. -/
theorem truthful {m : CrossShardMessage} {ops : List Op}
    (hh : (runOps (env m) (.new "c") ops).height = 0)
    (ho : (runOps (env m) (.new "c") ops).crossShardOutbox = [m])
    (hc : Hashing.standard.CollisionFree (Hashing.standard.merkleInputs [m.json] ++
      Hashing.standard.proofInputs (proof m).messageProof.proof m.json)) :
    (proof m).Truthful (env m) "c" ops := by
  refine ⟨ops.length, ?_, ?_, ?_⟩ <;> rw [List.take_length]
  · exact hh
  · rw [DeTTaState.outboxRoot, ho]
    rfl
  · rw [ho]
    exact hc

/-- The runs of the two chains, with a message of the bridge and with one of the contract. -/
theorem evaluated :
    ((runOps (env locked) (.new "c") source).height = 0 ∧
      (runOps (env locked) (.new "c") source).crossShardOutbox = [locked] ∧
      mintedBy "b" "A" (runFrames (env locked) (.new "d") (destination "bob")) = 5) ∧
    (runOps (env rogue) (.new "c") rogueSource).height = 0 ∧
      (runOps (env rogue) (.new "c") rogueSource).crossShardOutbox = [rogue] ∧
      mintedBy "b" "A" (runFrames (env rogue) (.new "d") (destination "mallory")) = 5 ∧
      ∀ r ∈ runFrames (env rogue) (.new "c") rogueSource,
        r.frame.tx.method ≠ .queueBridgeMessage := by
  decide +kernel

/-- The inputs of the hash function are different. -/
theorem collisionFree (m : CrossShardMessage) (hm : m = locked ∨ m = rogue) :
    Hashing.standard.CollisionFree (Hashing.standard.merkleInputs [m.json] ++
      Hashing.standard.proofInputs (proof m).messageProof.proof m.json) := by
  rcases hm with rfl | rfl <;> exact .of_nodup (by decide +kernel)

end Crossing

open Crossing

set_option maxRecDepth 8000 in
/-- What `bob` gets on one chain, `alice` has given to the bridge of the other. -/
theorem mintedBy_le_sentTo_crossing :
    mintedBy "b" "A" (runFrames (env locked) (.new "d")
        (destination "bob")) = 5 ∧
      mintedBy "b" "A" (runFrames (env locked) (.new "d")
        (destination "bob")) ≤
        sentTo "d" "b" "A" (queuedMessages (runFrames (env locked) (.new "c")
          source)) +
        sentTo "d" "b" "A" (runOps (env locked) (.new "c")
          source).aspectMessages := by
  obtain ⟨⟨hheight, houtbox, hminted⟩, -⟩ := evaluated
  refine ⟨hminted, (mintedBy_le_sentTo Hashing.standard_faithful "c" "d" source
    (destination "bob") "b" "A" fun _ _ _ _ _ _ hp => ?_).1⟩
  cases hp
  exact truthful hheight houtbox (collisionFree _ (.inl rfl))

set_option maxRecDepth 8000 in
/-- An aspect contract sends a message about an asset that nobody has locked, and the bridge of
    the other chain creates it. -/
theorem minted_without_lock :
    (∀ certificate proof, (env rogue).parseFinalityProof certificate =
        some proof → proof.Truthful (env rogue) "c" rogueSource) ∧
      mintedBy "b" "A" (runFrames (env rogue) (.new "d")
        (destination "mallory")) = 5 ∧
      ∀ r ∈ runFrames (env rogue) (.new "c") rogueSource,
        r.frame.tx.method ≠ .queueBridgeMessage := by
  obtain ⟨-, hheight, houtbox, hminted, hframes⟩ := evaluated
  refine ⟨fun _ _ hp => ?_, hminted, hframes⟩
  cases hp
  exact truthful hheight houtbox (collisionFree _ (.inr rfl))

end Detta
