import Detta.Safety.History
import Detta.Safety.Ledgers

/-!
# The outbox

Messages to other chains are appended to the outbox by bridges, which lock an asset for
them, and by aspect contracts. Each message has an identifier, and the identifiers that are
taken are kept beside the outbox.

* A bridge locks the asset and appends the message, and does nothing else
  (`queues_of_returned`).
* It looks only before the transfer whether the identifier is taken. The identifiers of the
  outbox are distinct exactly if this is still so after the transfer, whenever a message is
  queued.
-/

namespace Detta

open Kernel

/-! ## Queued messages -/

/-- The message that a call to queue one asks for. -/
def Frame.message (f : Frame) : Option CrossShardMessage :=
  match f.tx.args with
  | [.text destinationChain, .text destinationContract, .text messageId, .principal recipient,
      .asset asset, .amount amount] =>
    if f.tx.method = .queueBridgeMessage then
      some {
        sourceChain := f.start.chainId
        sourceContract := f.tx.target
        sourceHeight := f.start.height
        destinationChain := destinationChain
        destinationContract := destinationContract
        messageId := messageId
        recipient := recipient
        asset := asset
        amount := amount }
    else none
  | _ => none

/-- A state with one more message in the outbox, which is reported. -/
def DeTTaState.queue (s : DeTTaState) (tx : Transaction) (message : CrossShardMessage) :
    DeTTaState :=
  { s with
    outboundMessageIds := s.outboundMessageIds.insert message.messageId
    crossShardOutbox := s.crossShardOutbox ++ [message]
    events := s.events ++ [⟨tx.target, tx.txHash, Word.ofNat 64 s.events.length,
      .crossShardMessageQueued message.messageId message.destinationChain
        message.destinationContract message.recipient message.asset message.amount⟩] }

/-- The code of a frame has the asset of a message transferred to the bridge, by itself or by a
    call, and then appends the message. -/
inductive Frame.Locks (f : Frame) (message : CrossShardMessage) :
    List (DeTTaState × DeTTaState) → Prop where
  | native {token : ContractId} {s : DeTTaState}
      (hl : f.start.resolveAssetLedger message.asset = some (.nativeToken token))
      (hm : f.start.move token f.msgSender f.tx.target message.asset message.amount = some s) :
      f.Locks message [(f.start, s.queue f.tx message)]
  | aspect {contract : ContractId} {s : DeTTaState}
      (hl : f.start.resolveAssetLedger message.asset = some (.aspectToken contract))
      (hg : Grows f.start s) :
      f.Locks message [(f.start, f.start), (s, s.queue f.tx message)]

/-- What the code of a frame does that queues a message. -/
structure Frame.Queues (f : Frame) (message : CrossShardMessage)
    (own : List (DeTTaState × DeTTaState)) : Prop where
  bridge : ∃ record sourceChain, f.start.contracts[f.tx.target]? = some record ∧
    record.kind = .bridge sourceChain
  asked : f.message = some message
  positive : message.amount ≠ 0
  fresh : f.start.outboundMessageIds.contains message.messageId = false
  locks : f.Locks message own

section Queue

variable {env : Env} {f : Frame} {call : ContractCall} {m : Machine}
  {destinationChain destinationContract messageId : String}

/-- The message of a frame, from its arguments one by one. -/
theorem message_of_args {recipient : Principal} {asset : AssetId} {amount : Amount}
    (hm : f.tx.method = .queueBridgeMessage) (hn : f.tx.args.length = 6)
    (h₀ : f.tx.args[0]? = some (.text destinationChain))
    (h₁ : f.tx.args[1]? = some (.text destinationContract))
    (h₂ : f.tx.args[2]? = some (.text messageId)) (h₃ : f.tx.args[3]? = some (.principal recipient))
    (h₄ : f.tx.args[4]? = some (.asset asset)) (h₅ : f.tx.args[5]? = some (.amount amount)) :
    f.message = some ⟨f.start.chainId, f.tx.target, f.start.height, destinationChain,
      destinationContract, messageId, recipient, asset, amount⟩ := by
  have hargs : f.tx.args = [.text destinationChain, .text destinationContract, .text messageId,
      .principal recipient, .asset asset, .amount amount] := by
    apply List.ext_getElem?
    intro i
    rcases i with - | - | - | - | - | - | i
    · exact h₀
    · exact h₁
    · exact h₂
    · exact h₃
    · exact h₄
    · exact h₅
    · rw [List.getElem?_eq_none (by omega), List.getElem?_eq_none (by simp)]
  rw [Frame.message, hargs]
  exact if_pos hm

theorem Frame.message_eq_none (hm : f.tx.method ≠ .queueBridgeMessage) : f.message = none := by
  unfold Frame.message
  split
  next => exact if_neg hm
  next => rfl

theorem Frame.method_of_message {message : CrossShardMessage} (h : f.message = some message) :
    f.tx.method = .queueBridgeMessage := by
  by_contra hm
  rw [Frame.message_eq_none hm] at h
  cases h

theorem wp_appendOutbox {Q : Unit → Machine → Prop} {E : ExecutionError → Machine → Prop}
    {tx : Transaction} {recipient : Principal} {asset : AssetId} {amount : Amount} :
    wp (appendOutbox tx destinationChain destinationContract messageId recipient asset amount)
      Q E m ↔ Q () (m.withState (m.state.queue tx ⟨m.state.chainId, tx.target, m.state.height,
        destinationChain, destinationContract, messageId, recipient, asset, amount⟩)) :=
  Iff.rfl

/-- A message is queued as a whole, or not at all. -/
theorem wp_queueBridgeMessage (hm : f.tx.method = .queueBridgeMessage) (hcall : Resumes call)
    (hb : ∃ record sourceChain, f.start.contracts[f.tx.target]? = some record ∧
      record.kind = .bridge sourceChain) (hs : m.state = f.start) {rest : List Activation}
    (ha : m.log.active = ⟨f, [], f.start⟩ :: rest) :
    wp (queueBridgeMessage call f.tx f.msgSender)
      (fun _ m' => ∃ a, m'.log.active = a :: rest ∧ ∃ message,
        f.Queues message (a.own ++ [(a.since, m'.state)]))
      (fun _ _ => True) m := by
  unfold queueBridgeMessage expectArgs
  refine .ensure ⟨fun hn => ?_, fun _ => trivial⟩
  refine wp_bind.2 (wp_expectText (fun destinationChain h₀ => ?_) fun _ => trivial)
  refine wp_bind.2 (wp_expectText (fun destinationContract h₁ => ?_) fun _ => trivial)
  refine wp_bind.2 (wp_expectText (fun messageId h₂ => ?_) fun _ => trivial)
  refine wp_bind.2 (wp_expectPrincipal (fun recipient h₃ => ?_) fun _ => trivial)
  refine wp_bind.2 (wp_expectAsset (fun asset h₄ => ?_) fun _ => trivial)
  refine wp_bind.2 (wp_expectAmount (fun amount h₅ => ?_) fun _ => trivial)
  refine .ensure ⟨fun hpos => ?_, fun _ => trivial⟩
  refine .read (.ensure ⟨fun hfresh => ?_, fun _ => trivial⟩)
  refine wp_bind.2 (.read (wp_okOr.2 ⟨fun ledger hl => ?_, fun _ => trivial⟩))
  rw [hs] at hfresh hl
  have hmessage := message_of_args hm hn h₀ h₁ h₂ h₃ h₄ h₅
  cases ledger with
  | nativeToken token =>
    refine wp_bind.2 (wp_transferNativeAssetBalance (fun s' hmove _ => ?_) (fun _ _ => trivial)
      fun _ => trivial)
    rw [hs] at hmove
    have hg := Grows.move hmove
    rw [← hg.chainId, ← hg.height] at hmessage
    exact wp_bind.2 (wp_appendOutbox.2 (wp_pure.2
      ⟨_, ha, _, hb, hmessage, hpos, hfresh, .native hl hmove⟩))
  | aspectToken contract =>
    refine wp_bind.2 ?_
    unfold transferAssetBalance transferAspectAssetBalance
    refine .read (.okOr ⟨fun record _ => ?_, fun _ => trivial⟩)
    refine .ensure ⟨fun _ => ?_, fun _ => trivial⟩
    refine .ensure ⟨fun _ => ?_, fun _ => trivial⟩
    refine wp_bind.2 ((hcall _ _ m).imp fun _ m' h => ?_)
    obtain ⟨hactive, hg⟩ := h
    rw [ha, resumed, hs] at hactive
    rw [hs] at hg
    rw [← hg.chainId, ← hg.height] at hmessage
    exact wp_pure.2 (wp_bind.2 (wp_appendOutbox.2 (wp_pure.2
      ⟨_, hactive, _, hb, hmessage, hpos, hfresh, .aspect hl hg⟩)))

/-- A frame that has queued a message has done nothing else. -/
theorem queues_of_returned {r : FrameRecord} (h : r.Returned env)
    (hm : r.frame.tx.method = .queueBridgeMessage) : ∃ message, r.frame.Queues message r.own := by
  refine h.whole (P := fun own => ∃ message, r.frame.Queues message own)
    fun call m record hcall hs rest ha hr ho => ?_
  cases hk : record.kind with
  | bridge sourceChain =>
    rw [kindMethod, bridgeMethod, hm]
    exact wp_queueBridgeMessage hm hcall ⟨record, sourceChain, hr, hk⟩ hs ha
  | _ => simp [hk, hm, ContractKind.offers] at ho

end Queue

/-! ## Identifiers -/

/-- The identifiers of the messages in the outbox. -/
def DeTTaState.sentIds (s : DeTTaState) : List String := s.crossShardOutbox.map (·.messageId)

/-- The identifiers that are taken are those of the outbox. -/
def DeTTaState.TakenSent (s : DeTTaState) : Prop :=
  ∀ id, s.outboundMessageIds.contains id = true ↔ id ∈ s.sentIds

/-- The messages of the outbox have distinct identifiers, which are those that are taken. -/
def DeTTaState.OutboxUnique (s : DeTTaState) : Prop := s.sentIds.Nodup ∧ s.TakenSent

/-- Whenever a call to queue a message goes on with its own code, the identifier of the message
    is not taken. -/
def FrameRecord.appendsFresh (r : FrameRecord) : Bool :=
  match r.frame.message with
  | some message => r.own.all fun p => !p.1.outboundMessageIds.contains message.messageId
  | none => true

section Identifiers

variable {f : Frame} {s s' : DeTTaState} {message : CrossShardMessage}
  {own : List (DeTTaState × DeTTaState)}

/-- One more message is in the outbox. -/
structure DeTTaState.Appends (s : DeTTaState) (message : CrossShardMessage) (s' : DeTTaState) :
    Prop where
  outbox : s'.crossShardOutbox = s.crossShardOutbox ++ [message]
  taken : s'.outboundMessageIds = s.outboundMessageIds.insert message.messageId

/-- The outbox is left alone. -/
def DeTTaState.SameOutbox (s s' : DeTTaState) : Prop :=
  s'.crossShardOutbox = s.crossShardOutbox ∧ s'.outboundMessageIds = s.outboundMessageIds

theorem DeTTaState.Appends.sentIds (h : s.Appends message s') :
    s'.sentIds = s.sentIds ++ [message.messageId] := by
  rw [DeTTaState.sentIds, h.outbox, List.map_append, List.map_singleton, DeTTaState.sentIds]

theorem DeTTaState.Appends.takenSent (h : s.Appends message s') (ht : s.TakenSent) :
    s'.TakenSent := by
  intro id
  rw [h.taken, h.sentIds, Table.contains_insert_set, List.mem_append, ht id, List.mem_singleton,
    or_comm, eq_comm]

/-- A message keeps the identifiers distinct exactly if its own was not taken. -/
theorem DeTTaState.Appends.nodup_iff (h : s.Appends message s') (ht : s.TakenSent) :
    s'.sentIds.Nodup ↔
      s.sentIds.Nodup ∧ s.outboundMessageIds.contains message.messageId = false := by
  rw [h.sentIds, List.nodup_append, ← Bool.not_eq_true, ht message.messageId]
  simp only [List.nodup_singleton, List.mem_singleton, true_and]
  exact and_congr_right fun _ => ⟨fun hne hmem => hne _ hmem _ rfl rfl,
    fun hnot a ha b hb he => hnot (hb ▸ he ▸ ha)⟩

theorem DeTTaState.SameOutbox.takenSent (h : s.SameOutbox s') :
    s'.TakenSent ↔ s.TakenSent := by
  simp only [DeTTaState.TakenSent, DeTTaState.sentIds, h.1, h.2]

theorem DeTTaState.SameOutbox.sentIds (h : s.SameOutbox s') : s'.sentIds = s.sentIds := by
  rw [DeTTaState.sentIds, h.1, DeTTaState.sentIds]

/-- A step leaves the outbox alone, or appends a message of its contract. -/
theorem OwnStep.outbox_cases (h : OwnStep f s s') :
    s.SameOutbox s' ∨ ∃ message, s.Appends message s' ∧ message.sourceContract = f.tx.target ∧
      (f.tx.method = .queueBridgeMessage ∨ ∃ projection, f.tx.method = .other projection) ∧
      (f.tx.method ≠ .queueBridgeMessage →
        s.outboundMessageIds.contains message.messageId = false) := by
  cases h with
  | tokens ha =>
    obtain ⟨_, rfl⟩ := ha.onlyStorage
    exact .inl ⟨rfl, rfl⟩
  | outbox message hc hm hn => exact .inr ⟨message, ⟨rfl, rfl⟩, hc, hm, hn⟩
  | deploy =>
    refine .inl ?_
    rw [DeTTaState.puts_eq]
    exact ⟨rfl, rfl⟩
  | _ => exact .inl ⟨rfl, rfl⟩

/-- A frame that locks an asset has changed nothing when it makes a call. -/
theorem Frame.Locks.idle (h : f.Locks message own) :
    ∀ p ∈ own.dropLast, p.1 = p.2 := by
  cases h <;> simp

/-- In the end, it appends the message. -/
theorem Frame.Locks.appends (h : f.Locks message own)
    (hl : own.getLast? = some (s, s')) : s.Appends message s' := by
  cases h with
  | native _ hm =>
    obtain ⟨-, _, -, rfl⟩ := DeTTaState.move_eq_some.1 hm
    obtain ⟨rfl, rfl⟩ : _ ∧ _ := by simpa using hl
    exact ⟨rfl, rfl⟩
  | aspect =>
    obtain ⟨rfl, rfl⟩ : _ ∧ _ := by simpa using hl
    exact ⟨rfl, rfl⟩

/-- The bridge looks whether the identifier is taken before it makes a call. -/
theorem Frame.Queues.appendsFresh_iff {r : FrameRecord} (h : r.frame.Queues message r.own)
    (hl : r.own.getLast? = some (s, s')) :
    r.appendsFresh = true ↔ s.outboundMessageIds.contains message.messageId = false := by
  rw [FrameRecord.appendsFresh, h.asked]
  obtain ⟨f, callers, own⟩ := r
  obtain ⟨-, -, -, hfresh, hlocks⟩ := h
  dsimp only at hfresh hlocks hl ⊢
  cases hlocks with
  | native =>
    obtain ⟨rfl, rfl⟩ : _ ∧ _ := by simpa using hl
    simp
  | aspect =>
    obtain ⟨rfl, rfl⟩ : _ ∧ _ := by simpa using hl
    simp [hfresh]

end Identifiers

section Runs

variable (env : Env)

/-- The frames that queue messages. -/
def Frame.isQueue (f : Frame) : Bool := f.tx.method = .queueBridgeMessage

theorem historyInvariant_outbox : HistoryInvariant env Frame.isQueue fun past s =>
    s.TakenSent ∧ (s.sentIds.Nodup ↔ ∀ r ∈ past, r.appendsFresh = true) where
  own {f past s s'} hw _ _ hJ hs := by
    have hm : f.tx.method ≠ .queueBridgeMessage := by simpa [Frame.isQueue] using hw
    rcases hs.outbox_cases with hsame | ⟨message, happ, -, -, hn⟩
    · rwa [hsame.takenSent, hsame.sentIds]
    · refine ⟨happ.takenSent hJ.1, ?_⟩
      rw [happ.nodup_iff hJ.1, and_iff_left (hn hm)]
      exact hJ.2
  leave {r past s} hw _ _ hJ := by
    have hfresh : r.appendsFresh = true := by
      have hm : r.frame.tx.method ≠ .queueBridgeMessage := by simpa [Frame.isQueue] using hw
      rw [FrameRecord.appendsFresh, Frame.message_eq_none hm]
    refine ⟨hJ.1, hJ.2.trans ?_⟩
    simp [or_imp, forall_and, hfresh]
  idle hw hr := by
    obtain ⟨message, hq⟩ := queues_of_returned hr (by simpa [Frame.isQueue] using hw)
    exact hq.locks.idle
  step {r past s s'} hw hr _ hl hJ := by
    obtain ⟨message, hq⟩ := queues_of_returned hr (by simpa [Frame.isQueue] using hw)
    have happ := hq.locks.appends hl
    refine ⟨happ.takenSent hJ.1, ?_⟩
    rw [happ.nodup_iff hJ.1, hJ.2, ← hq.appendsFresh_iff hl]
    simp [or_imp, forall_and]
  nonce _ h := h
  timeless _ _ _ _ h := h
  deploy h hd := by
    cases hd with
    | contract =>
      rw [DeTTaState.puts_eq]
      exact h
    | _ => exact h

/-- In every state of a chain, the identifiers that are taken are those of the outbox. They are
    distinct exactly if, whenever a committed call has queued a message, its identifier was not
    taken during the transfer to the bridge. -/
theorem outboxUnique_iff_appendsFresh (chainId : ChainId) (ops : List Op) :
    (runOps env (.new chainId) ops).OutboxUnique ↔
      ∀ r ∈ runFrames env (.new chainId) ops, r.appendsFresh = true := by
  have h := (historyInvariant_outbox env).runFrames (s := .new chainId)
    ⟨by simp [DeTTaState.TakenSent, DeTTaState.sentIds, DeTTaState.new],
      by simp [DeTTaState.sentIds, DeTTaState.new]⟩ ops
  rw [DeTTaState.OutboxUnique, and_iff_left h.1]
  exact h.2

end Runs

namespace Rogue

/-- A contract `R` of the module is deployed, and somebody wants to send some of what it seems
    to keep to another chain, as the message `m`. -/
def ops : List Op :=
  [.deploy (.bridge "b" "d"), .deploy (.factory "f"), .deploy (.aspectModule module),
    .transaction (deploy "R"),
    .transaction { Proxy.call "mallory" "b" .queueBridgeMessage [.text "d", .text "x", .text "m",
      .principal "mallory", .asset "R", .amount 5] with nonce := 1 }]

end Rogue

set_option maxRecDepth 4000 in
/-- The contract appends a message `m` while the bridge lets it transfer, and the bridge then
    appends its own. -/
theorem outbox_of_two_messages :
    (runOps Rogue.env (.new "c") Rogue.ops).sentIds = ["m", "m"] ∧
      ¬(runOps Rogue.env (.new "c") Rogue.ops).OutboxUnique := by
  have h : (runOps Rogue.env (.new "c") Rogue.ops).sentIds = ["m", "m"] := by decide
  refine ⟨h, fun hu => ?_⟩
  have hnodup := hu.1
  rw [h] at hnodup
  exact absurd hnodup (by decide)

end Detta
