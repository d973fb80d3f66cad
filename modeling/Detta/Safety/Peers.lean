import Detta.Core.Client
import Detta.Safety.Mempool
import Detta.Safety.Receipts

/-!
# Transactions from peers

A transaction says of itself that it is signed (`signatureOk`). A node that gets it from a client
with a signature sets this mark after the signature has been checked, and the mempool and the
execution only look at the mark. But a message from a peer has the transaction with the mark, and
no signature of the transaction that could be checked. So whatever a peer brings into the mempool
or into a block comes without one; only messages that bring no transaction at all do no harm
(`peer_transactions_accompanied`).
-/

namespace Detta

open PersistentNode

/-- The signatures that a message has. -/
def ProtocolMessage.signatures : ProtocolMessage → List String
  | .signedValidator ⟨_, _, _, _, _, message, signatureHex⟩ => signatureHex :: message.signatures
  | _ => []

/-- A message has a signature of the transaction, under a key that may sign for its sender. -/
def ProtocolMessage.Accompanies (env : NodeEnv) (s : DeTTaState) (message : ProtocolMessage)
    (tx : Transaction) : Prop :=
  ∃ publicKeyHex, ∃ signatureHex ∈ message.signatures,
    SignedClientTransaction.verify env.toProtocolEnv ⟨tx, publicKeyHex, signatureHex⟩ = true ∧
      s.hasActiveAccountKey tx.sender publicKeyHex = true

/-- The message has no transaction that is marked as signed, and no block with transactions. -/
structure ProtocolMessage.BringsNoTransaction (message : ProtocolMessage) : Prop where
  unsigned : ∀ tx, message.Bears (.transaction tx) → tx.signatureOk = false
  empty : ∀ block, message.Bears (.block block) → block.transactions = []

/-- The node after a message from the network. -/
def PersistentValidatorNode.ingest (env : NodeEnv) (n : PersistentValidatorNode)
    (message : ProtocolMessage) : PersistentValidatorNode :=
  PersistentOp.apply env n (.ingestNetworkEnvelope message)

namespace PersistentValidatorNode

variable {env : NodeEnv} {n n' : PersistentValidatorNode} {tx : Transaction} {block : Block}
  {message : ProtocolMessage}

/-- The transaction has come into the mempool, or with a block. -/
def Gains (n n' : PersistentValidatorNode) (tx : Transaction) : Prop :=
  (tx ∈ n'.node.mempool.pending ∧ tx ∉ n.node.mempool.pending) ∨
    ∃ (height : U64) (block : Block), n'.node.blocks[height]? = some block ∧
      n.node.blocks[height]? ≠ some block ∧ tx ∈ block.transactions

/-- Everything that waits has waited before, and all new blocks are empty. -/
structure GainsNothing (n n' : PersistentValidatorNode) : Prop where
  pending : ∀ tx ∈ n'.node.mempool.pending, tx ∈ n.node.mempool.pending
  blocks : ∀ (height : U64) (block : Block), n'.node.blocks[height]? = some block →
    n.node.blocks[height]? = some block ∨ block.transactions = []

theorem GainsNothing.not_gains (h : GainsNothing n n') : ¬n.Gains n' tx := by
  rintro (⟨hnow, hbefore⟩ | ⟨height, block, hnow, hbefore, htx⟩)
  · exact hbefore (h.pending tx hnow)
  · rcases h.blocks height block hnow with hold | hempty
    · exact hbefore hold
    · exact absurd (hempty ▸ htx) List.not_mem_nil

theorem GainsNothing.of_node (h : n'.node = n.node) : GainsNothing n n' :=
  ⟨fun _ htx => h ▸ htx, fun _ _ hb => .inl (h ▸ hb)⟩

theorem gainsNothing_of_onlyFiles {α : Type} {m : PersistentNode α} (h : OnlyFiles m) :
    wp m (fun _ => GainsNothing n) (fun _ => GainsNothing n) n := by
  refine (h n).mono ?_ ?_
  all_goals
    rintro - n' ⟨st, rfl⟩
    exact .of_node rfl

theorem wp_submitTransaction_of_unsigned (hmark : tx.signatureOk = false) :
    wp (submitTransaction env tx) (fun _ => GainsNothing n) (fun _ => GainsNothing n) n := by
  unfold PersistentNode.submitTransaction ValidatorNode.submitTransaction Mempool.submit
  refine .get ?_
  cases hsubmit : n.node.mempool.submitError env.hashing n.node.state tx with
  | none =>
    have hadmissible := (Mempool.admits_of_submitError hsubmit).admissible
    exact absurd (Mempool.admissible_iff.1 hadmissible).2.1 (Bool.eq_false_iff.1 hmark)
  | some e => exact .of_node rfl

/-- After the block is accepted, only files are written. -/
theorem wp_importBlock {P : PersistentValidatorNode → Prop}
    (hrefused : (n.node.validateAndApply env.toEnv block).2 ≠ none → P n)
    (haccepted : (n.node.validateAndApply env.toEnv block).2 = none →
      ∀ st, P { n with node := (n.node.validateAndApply env.toEnv block).1, storage := st }) :
    wp (importBlock env block) (fun _ => P) (fun _ => P) n := by
  have hfiles : OnlyFiles (persistCommittedBlock env block) :=
    (OnlyFiles.onStorage _).bind fun _ => (OnlyFiles.reads get).bind fun _ =>
      (OnlyFiles.onStorage _).bind fun _ => (OnlyFiles.reads get).bind fun _ => .onStorage _
  refine PersistentNode.wp_importBlock hrefused fun hok => (hfiles _).mono ?_ ?_
  all_goals
    rintro - n' ⟨st, rfl⟩
    exact haccepted hok st

theorem wp_importBlock_of_empty (hempty : block.transactions = []) :
    wp (importBlock env block) (fun _ => GainsNothing n) (fun _ => GainsNothing n) n := by
  refine wp_importBlock (fun _ => .of_node rfl) fun hok st => ?_
  obtain ⟨state, -, hnext⟩ := ValidatorNode.exists_of_accepted hok
  rw [hnext]
  refine ⟨fun tx htx => List.mem_of_mem_filter htx, fun height b hb => ?_⟩
  rcases Table.of_getElem?_insert hb with ⟨-, rfl⟩ | hb
  · exact .inr hempty
  · exact .inl hb

/-- A message that brings no transaction changes nothing that matters here. -/
theorem gainsNothing_ingest (h : message.BringsNoTransaction) :
    GainsNothing n (n.ingest env message) := by
  have hI : Insensitive env FileStorage.slashings fun n' => n'.node = n.node :=
    ⟨fun _ _ _ _ _ h => h, fun _ _ h => h, fun _ _ _ h => h⟩
  refine wp.endState (wp_discard.2 (wp_ingestNetworkEnvelope (.of_node rfl) ?_ ?_ ?_ ?_))
  · exact fun tx hb => wp_submitTransaction_of_unsigned (h.unsigned tx hb)
  · exact fun block hb => wp_importBlock_of_empty (h.empty block hb)
  · exact fun evidence _ => gainsNothing_of_onlyFiles (.persistEquivocationEvidence evidence)
  · intro signed update _ _
    refine (hI.deliverAuthorization (fun _ _ h => h) signed update.updateId n rfl).mono ?_ ?_
    all_goals
      intro _ n' hn'
      exact .of_node hn'

/-- A transaction of a peer is submitted. -/
theorem apply_ingestNetworkEnvelope_transaction :
    (PersistentOp.ingestNetworkEnvelope (.transaction tx)).apply env n =
      (PersistentOp.submitTransaction tx).apply env n := by
  refine wp.endState (P := fun n' => n' = (PersistentOp.submitTransaction tx).apply env n)
    (wp_discard.2 (wp_bind.2 ((wp_self _ _).mono ?_ ?_)))
  all_goals exact fun _ n' h => (congrArg endState h).symm

/-- A transaction that the mempool takes from a peer. -/
theorem gains_of_transaction
    (h : n.node.mempool.submitError env.hashing n.node.state tx = none) :
    n.Gains (n.ingest env (.transaction tx)) tx := by
  have hfiles : OnlyFiles (persistMempool env) := (OnlyFiles.reads get).bind fun _ => .onStorage _
  have hadmits := Mempool.admits_of_submitError h
  refine .inl ⟨?_, fun hmem => hadmits.fresh (List.mem_map_of_mem hmem)⟩
  refine wp.endState (P := fun n' => tx ∈ n'.node.mempool.pending) (wp_discard.2 ?_)
  unfold ingestNetworkEnvelope PersistentNode.submitTransaction ValidatorNode.submitTransaction
    Mempool.submit
  refine wp_bind.2 (.get ?_)
  rw [h]
  refine .set ((hfiles _).mono ?_ ?_)
  all_goals
    rintro - n' ⟨st, rfl⟩
    exact List.mem_append_right _ List.mem_cons_self

/-- A transaction of a block that is accepted from a peer. -/
theorem gains_of_block (hok : (n.node.validateAndApply env.toEnv block).2 = none)
    (hnew : n.node.blocks[block.header.height]? ≠ some block) (htx : tx ∈ block.transactions) :
    n.Gains (n.ingest env (.block block)) tx := by
  refine .inr ⟨block.header.height, block, ?_, hnew, htx⟩
  refine wp.endState
    (P := fun n' => n'.node.blocks[block.header.height]? = some block) (wp_discard.2 ?_)
  unfold ingestNetworkEnvelope
  refine wp_bind.2 (wp_importBlock (fun h => absurd hok h) fun _ st => ?_)
  obtain ⟨state, -, hnext⟩ := ValidatorNode.exists_of_accepted hok
  rw [hnext]
  exact Std.ExtTreeMap.getElem?_insert_self

end PersistentValidatorNode

open PersistentValidatorNode

/-- As long as peers send no transactions that are marked as signed, and no blocks with
    transactions, whatever comes in from them is accompanied by a signature. Every transaction of
    a peer that the mempool takes, and every transaction of a new block of a peer that is accepted,
    comes in without one. -/
theorem peer_transactions_accompanied (env : NodeEnv) :
    (∀ (n : PersistentValidatorNode) (messages : List ProtocolMessage),
      (∀ message ∈ messages, message.BringsNoTransaction) →
      ∀ p ∈ stepsFrom (ingest env) n messages, ∀ tx, p.1.Gains (p.1.ingest env p.2) tx →
        p.2.Accompanies env p.1.node.state tx) ∧
    (∀ (n : PersistentValidatorNode) (tx : Transaction),
      n.node.mempool.submitError env.hashing n.node.state tx = none →
      n.Gains (n.ingest env (.transaction tx)) tx ∧
        ¬(ProtocolMessage.transaction tx).Accompanies env n.node.state tx) ∧
    ∀ (n : PersistentValidatorNode) (block : Block) (tx : Transaction),
      (n.node.validateAndApply env.toEnv block).2 = none →
      n.node.blocks[block.header.height]? ≠ some block → tx ∈ block.transactions →
      n.Gains (n.ingest env (.block block)) tx ∧
        ¬(ProtocolMessage.block block).Accompanies env n.node.state tx := by
  refine ⟨fun n messages h p hp tx hgains => ?_, fun n tx h => ⟨gains_of_transaction h, ?_⟩,
    fun n block tx hok hnew htx => ⟨gains_of_block hok hnew htx, ?_⟩⟩
  · exact absurd hgains (gainsNothing_ingest (h p.2 (mem_of_mem_stepsFrom hp))).not_gains
  · rintro ⟨key, signature, hmem, -⟩
    exact absurd hmem List.not_mem_nil
  · rintro ⟨key, signature, hmem, -⟩
    exact absurd hmem List.not_mem_nil

namespace Forged

/-! A peer writes a payment of `alice`, who has signed nothing. -/

open Reuse

def message : ProtocolMessage := .transaction Proxy.transfer

/-- The same without the mark, and an empty block. -/
def harmless : List ProtocolMessage :=
  [.transaction { Proxy.transfer with signatureOk := false },
    .block (start.node.proposeBlock Proxy.env 1 [] 0)]

theorem bringsNoTransaction_harmless : ∀ m ∈ harmless, m.BringsNoTransaction := by
  -- neither message is a signed one
  refine List.forall_mem_cons.2 ⟨⟨?_, ?_⟩, List.forall_mem_singleton.2 ⟨?_, ?_⟩⟩
  all_goals
    rintro content (heq | ⟨signed, heq, -⟩)
    all_goals cases heq
  · rfl
  · rfl

theorem message_evaluated :
    start.node.mempool.submitError env.hashing start.node.state Proxy.transfer = none ∧
      (runFrom (PersistentOp.apply env) start
        [.ingestNetworkEnvelope message, .produceBlock 1 0]).node.getReceipt "h" =
          some Reuse.receipt := by
  refine ⟨by decide, ?_⟩
  rw [runFrom, List.foldl_cons, message, apply_ingestNetworkEnvelope_transaction]
  exact Reuse.evaluated.2.2.1

theorem peer_transactions_accompanied_harmless :
    (∀ p ∈ stepsFrom (ingest env) start harmless, ∀ tx, p.1.Gains (p.1.ingest env p.2) tx →
        p.2.Accompanies env p.1.node.state tx) ∧
      start.Gains (start.ingest env message) Proxy.transfer :=
  ⟨(peer_transactions_accompanied env).1 start harmless bringsNoTransaction_harmless,
    ((peer_transactions_accompanied env).2.1 start _ message_evaluated.1).1⟩

/-- The payment comes into the mempool without a signature, and the next block executes it. -/
theorem forged_payment_committed :
    Started env start ∧ start.Gains (start.ingest env message) Proxy.transfer ∧
      ¬message.Accompanies env start.node.state Proxy.transfer ∧
      (runFrom (PersistentOp.apply env) start
        [.ingestNetworkEnvelope message, .produceBlock 1 0]).node.getReceipt "h" =
          some Reuse.receipt ∧
      Reuse.receipt.status = .committed := by
  refine ⟨started_start, gains_of_transaction message_evaluated.1, ?_, message_evaluated.2,
    Reuse.evaluated.2.1⟩
  rintro ⟨key, signature, hmem, -⟩
  exact absurd hmem List.not_mem_nil

end Forged

end Detta
