import Detta.Core.Node
import Detta.Safety.Authority

/-!
# Blocks of a validator node

What a node proposes, and what it accepts.

* A proposal takes some of the pending transactions and leaves the others
  (`drain_perm`); the ones it takes fit in the limit of the node. But a block has to fit
  in the default limit as well, whatever the limit of the node is
  (`applyBlock_buildBlock`).
* A block is accepted at any height. As long as the heights of the blocks that a node is
  given increase, the blocks it has accepted stay where they are.
-/

namespace Detta

/-! ## Resources of a block -/

/-- Units add up to their sum, up to the largest word. -/
theorem val_foldl_saturatingAdd {w : ℕ} (l : List (Word w)) (a : Word w) :
    (l.foldl Word.saturatingAdd a).val = min (a.val + (l.map Word.val).sum) (2 ^ w - 1) := by
  induction l generalizing a with
  | nil =>
    have h := a.isLt
    simp only [List.foldl_nil, List.map_nil, List.sum_nil]
    omega
  | cons b l ih =>
    rw [List.foldl_cons, ih, Word.val_saturatingAdd, List.map_cons, List.sum_cons]
    omega

/-- The units of transactions, without an upper end. -/
def totalUnits (txs : List Transaction) : ℕ :=
  (txs.map fun tx => (transactionResourceUnits tx).val).sum

theorem totalUnits_eq_of_perm {txs txs' : List Transaction} (h : txs.Perm txs') :
    totalUnits txs = totalUnits txs' :=
  (h.map _).sum_eq

theorem val_blockResourceUnits (txs : List Transaction) :
    (blockResourceUnits txs).val = min (totalUnits txs) (2 ^ 64 - 1) := by
  rw [blockResourceUnits, val_foldl_saturatingAdd, Word.val_zero, Nat.zero_add, List.map_map]
  rfl

/-! ## Choosing transactions -/

namespace Mempool

variable (limit used : U64) (txs : List Transaction)

/-- A transaction is either chosen or put off. -/
theorem choose_perm :
    ((choose limit used txs).1 ++ (choose limit used txs).2).Perm txs := by
  induction txs generalizing used with
  | nil => exact .nil
  | cons tx txs ih =>
    rw [choose]
    simp only
    split
    · exact (ih _).cons tx
    · exact List.perm_middle.trans ((ih used).cons tx)

/-- What is chosen fits in the limit, with what is already used. -/
theorem foldl_choose_le (h : used ≤ limit) :
    ((choose limit used txs).1.map transactionResourceUnits).foldl Word.saturatingAdd used ≤
      limit := by
  induction txs generalizing used with
  | nil => exact h
  | cons tx txs ih =>
    rw [choose]
    simp only
    split
    next hnext => exact ih _ hnext
    next => exact ih used h

/-- If everything fits, everything is chosen. -/
theorem choose_eq_of_le (h : used.val + totalUnits txs ≤ limit.val) :
    choose limit used txs = (txs, []) := by
  induction txs generalizing used with
  | nil => rfl
  | cons tx txs ih =>
    rw [totalUnits, List.map_cons, List.sum_cons, ← totalUnits] at h
    have hnext : (used.saturatingAdd (transactionResourceUnits tx)).val =
        used.val + (transactionResourceUnits tx).val := by
      have hlt := limit.isLt
      rw [Word.val_saturatingAdd]
      omega
    rw [choose]
    simp only
    rw [if_pos (Word.le_def.2 (by omega)), ih _ (by omega)]

variable (p : Mempool)

/-- No pending transaction is lost, and none is added, when some of them are taken. -/
theorem drain_perm :
    ((p.drainOrderedWithResourceLimit limit).2 ++
      (p.drainOrderedWithResourceLimit limit).1.pending).Perm p.pending :=
  (choose_perm limit 0 _).trans (List.mergeSort_perm _ _)

/-- If everything fits, everything is taken. -/
theorem drain_eq_of_le (h : totalUnits p.pending ≤ limit.val) :
    (p.drainOrderedWithResourceLimit limit).2 = p.pending.mergeSort precedes ∧
      (p.drainOrderedWithResourceLimit limit).1.pending = [] := by
  have hchoose : choose limit 0 (p.pending.mergeSort precedes) =
      (p.pending.mergeSort precedes, []) := by
    refine choose_eq_of_le limit 0 _ ?_
    rwa [totalUnits_eq_of_perm (List.mergeSort_perm _ _), Word.val_zero, Nat.zero_add]
  exact ⟨congrArg Prod.fst hchoose, congrArg Prod.snd hchoose⟩

/-- What is taken fits in the limit. -/
theorem blockResourceUnits_drain_le :
    blockResourceUnits (p.drainOrderedWithResourceLimit limit).2 ≤ limit :=
  foldl_choose_le limit 0 _ (Word.le_def.2 (by simp))

end Mempool

/-! ## Proposals -/

/-- A block that is built on a state is accepted there, and leads to the state that was
    built with it, if and only if it fits in the default limit. -/
theorem applyBlock_buildBlock (env : Env) (s : DeTTaState) (height : U64)
    (txs : List Transaction) (timestamp : U64) (proposer certificate : String) :
    applyBlock env s (buildBlock env s height txs timestamp proposer certificate).1 =
      if blockResourceUnits txs ≤ defaultBlockResourceLimit then
        ((buildBlock env s height txs timestamp proposer certificate).2, none)
      else
        (s, some (.resourceLimitExceeded defaultBlockResourceLimit (blockResourceUnits txs))) := by
  by_cases h : blockResourceUnits txs ≤ defaultBlockResourceLimit
  · have hn : ¬defaultBlockResourceLimit < blockResourceUnits txs := Nat.not_lt.2 h
    simp [applyBlock, buildBlock, blockError, h, hn]
  · have hlt : defaultBlockResourceLimit < blockResourceUnits txs := Nat.lt_of_not_le h
    simp [applyBlock, buildBlock, blockError, h, hlt]

namespace ValidatorNode

variable (env : Env) (n : ValidatorNode) (height timestamp : U64)

/-- The transactions that the node would put in a block: those of its pool, in order, as
    far as they fit in its limit. -/
def selection : List Transaction :=
  (n.mempool.drainOrderedWithResourceLimit n.blockResourceLimit).2

/-- The state that the node builds with its proposal. -/
def builtState : DeTTaState :=
  (buildBlock env n.state height n.selection timestamp n.validatorId (n.certificate height)).2

/-- What becomes of a proposal, on a node in the same state and with the same limit. -/
theorem validateAndApply_proposal (n' : ValidatorNode) (hs : n'.state = n.state)
    (hl : n'.blockResourceLimit = n.blockResourceLimit) :
    let outcome := n'.validateAndApply env (n.proposePendingBlock env height timestamp).2
    if blockResourceUnits n.selection ≤ defaultBlockResourceLimit then
      outcome.2 = none ∧ outcome.1.state = n.builtState env height timestamp
    else
      outcome = (n', some (.resourceLimitExceeded defaultBlockResourceLimit
        (blockResourceUnits n.selection))) := by
  have hfits : ¬n'.blockResourceLimit < blockResourceUnits n.selection :=
    Nat.not_lt.2 (hl ▸ Mempool.blockResourceUnits_drain_le _ _)
  have happly := applyBlock_buildBlock env n.state height n.selection timestamp n.validatorId
    (n.certificate height)
  have hblock : (n.proposePendingBlock env height timestamp).2 =
      (buildBlock env n.state height n.selection timestamp n.validatorId
        (n.certificate height)).1 := rfl
  have htxs : (buildBlock env n.state height n.selection timestamp n.validatorId
      (n.certificate height)).1.transactions = n.selection := rfl
  intro outcome
  split
  next h =>
    rw [if_pos h] at happly
    simp only [outcome, validateAndApply, hblock, htxs, hs, happly, if_neg hfits, builtState,
      and_self]
  next h =>
    rw [if_neg h] at happly
    simp only [outcome, validateAndApply, hblock, htxs, hs, happly, if_neg hfits]

/-- A proposal is accepted by all nodes in the state and with the limit of the proposer,
    among them the proposer, and leads to the state it was built with, and no pending
    transaction is lost, if and only if what the node selects fits in the default limit. -/
theorem proposal_accepted_iff :
    ((∀ n' : ValidatorNode, n'.state = n.state → n'.blockResourceLimit = n.blockResourceLimit →
        (n'.validateAndApply env (n.proposePendingBlock env height timestamp).2).2 = none ∧
        (n'.validateAndApply env (n.proposePendingBlock env height timestamp).2).1.state =
          n.builtState env height timestamp) ∧
      ((n.proposePendingBlock env height timestamp).1.state = n.state ∧
        (n.proposePendingBlock env height timestamp).1.blockResourceLimit =
          n.blockResourceLimit) ∧
      ((n.proposePendingBlock env height timestamp).2.transactions ++
        (n.proposePendingBlock env height timestamp).1.mempool.pending).Perm n.mempool.pending) ↔
    blockResourceUnits n.selection ≤ defaultBlockResourceLimit := by
  constructor
  · intro h
    by_contra hlarge
    -- the proposer itself refuses the block
    have hrefused := validateAndApply_proposal env n height timestamp n rfl rfl
    rw [if_neg hlarge] at hrefused
    have haccepted := (h.1 n rfl rfl).1
    rw [hrefused] at haccepted
    cases haccepted
  · intro h
    refine ⟨fun n' hs hl => ?_, ⟨rfl, rfl⟩, Mempool.drain_perm n.blockResourceLimit n.mempool⟩
    have haccepted := validateAndApply_proposal env n height timestamp n' hs hl
    rwa [if_pos h] at haccepted

end ValidatorNode

/-! ### A pool that fits in the limit of its node, but in no block -/

namespace Overload

/-- A transaction with many arguments, one of a thousand of its sender. -/
def tx (i : ℕ) : Transaction :=
  { Proxy.call ("s" ++ toString (i / 1000)) "t" (.other "m") (List.replicate 500 (.amount 0)) with
    nonce := Word.ofNat 64 i
    txHash := toString i
    budget := 2000 }

/-- A node with a limit of twenty million units, and some of these transactions. -/
def node (count : ℕ) : ValidatorNode :=
  { (ValidatorNode.new "v" (.new "c")).setBlockResourceLimit 20000000 with
    mempool := Mempool.new.holding ((List.range count).map tx) }

variable {count : ℕ}

theorem transactionResourceUnits_tx (i : ℕ) : transactionResourceUnits (tx i) = 1020 := by
  have hlength : (tx i).args.length = 500 := List.length_replicate
  rw [transactionResourceUnits, hlength]
  rfl

theorem totalUnits_map_tx (l : List ℕ) : totalUnits (l.map tx) = l.length * 1020 := by
  induction l with
  | nil => rfl
  | cons i l ih =>
    rw [List.map_cons, totalUnits, List.map_cons, List.sum_cons, ← totalUnits, ih,
      transactionResourceUnits_tx, List.length_cons, Nat.succ_mul, Nat.add_comm]
    rfl

theorem length_pending_node : (node count).mempool.pending.length = count :=
  (List.length_map _).trans List.length_range

theorem totalUnits_node : totalUnits (node count).mempool.pending = count * 1020 := by
  have h := totalUnits_map_tx (List.range count)
  rwa [List.length_range] at h

/-- Everything fits in the limit of the node. -/
theorem drain_node (h : count * 1020 ≤ 20000000) :
    (node count).selection = (node count).mempool.pending.mergeSort Mempool.precedes ∧
      ((node count).mempool.drainOrderedWithResourceLimit
        (node count).blockResourceLimit).1.pending = [] := by
  refine Mempool.drain_eq_of_le _ _ ?_
  rw [totalUnits_node]
  exact h

theorem val_blockResourceUnits_selection (h : count * 1020 ≤ 20000000) :
    (blockResourceUnits (node count).selection).val = count * 1020 := by
  rw [val_blockResourceUnits, (drain_node h).1,
    totalUnits_eq_of_perm (List.mergeSort_perm _ _), totalUnits_node]
  omega

/-- The node refuses what it has proposed. -/
theorem validateAndApply_proposal_node (h : count * 1020 ≤ 20000000)
    (hlarge : 10000000 < count * 1020) :
    let proposal := (node count).proposePendingBlock Proxy.env 1 0
    proposal.1.validateAndApply Proxy.env proposal.2 =
      (proposal.1, some (.resourceLimitExceeded 10000000
        (blockResourceUnits (node count).selection))) := by
  have houtcome := (node count).validateAndApply_proposal Proxy.env 1 0
    ((node count).proposePendingBlock Proxy.env 1 0).1 rfl rfl
  rwa [if_neg ?_] at houtcome
  rw [Word.le_def, val_blockResourceUnits_selection h]
  exact Nat.not_le.2 hlarge

end Overload

/-- A node proposes ten thousand transactions, as many as the default policy admits, and
    refuses its own proposal. The pool is empty by then. -/
theorem proposer_refuses_overload :
    (Overload.node 10000).mempool.pending.length = 10000 ∧
    (Overload.node 10000).mempool.policy = .default ∧
    (Overload.node 10000).blockResourceLimit = 20000000 ∧
    (((Overload.node 10000).proposePendingBlock Proxy.env 1 0).1.validateAndApply Proxy.env
      ((Overload.node 10000).proposePendingBlock Proxy.env 1 0).2).2 =
        some (.resourceLimitExceeded 10000000 10200000) ∧
    (((Overload.node 10000).proposePendingBlock Proxy.env 1 0).1.validateAndApply Proxy.env
      ((Overload.node 10000).proposePendingBlock Proxy.env 1 0).2).1.mempool.pending = [] := by
  have hunits : blockResourceUnits (Overload.node 10000).selection = 10200000 :=
    Word.val_inj.1 (Overload.val_blockResourceUnits_selection (by decide))
  have houtcome := @Overload.validateAndApply_proposal_node 10000 (by decide) (by decide)
  rw [hunits] at houtcome
  refine ⟨Overload.length_pending_node, rfl, rfl, congrArg Prod.snd houtcome, ?_⟩
  rw [houtcome]
  exact (Overload.drain_node (by decide)).2

/-! ## Heights -/

/-- Transactions run at one height. -/
theorem height_applyTransaction (env : Env) (s : DeTTaState) (tx : Transaction) :
    (applyTransaction env s tx).1.height = s.height := by
  rcases applyTransaction_grows env s tx with ⟨-, -, hs⟩ | ⟨-, -, hgrows⟩
  · rw [hs]
  · exact hgrows.height

theorem height_applyTransactions (env : Env) (s : DeTTaState) (txs : List Transaction) :
    (applyTransactions env s txs).1.height = s.height := by
  induction txs generalizing s with
  | nil => rfl
  | cons tx txs ih => exact (ih _).trans (height_applyTransaction env s tx)

/-- Each transaction of a list finds the height at which the list is run. -/
theorem height_of_mem_appliedTransactions {env : Env} {s : DeTTaState} {txs : List Transaction}
    {p : DeTTaState × Transaction} (hp : p ∈ appliedTransactions env s txs) :
    p.1.height = s.height := by
  induction txs generalizing s with
  | nil => exact absurd hp List.not_mem_nil
  | cons tx txs ih =>
    rcases List.mem_cons.1 hp with rfl | hp
    · rfl
    · rw [ih hp, height_applyTransaction]

namespace ValidatorNode

variable {env : Env} {n n' : ValidatorNode}

variable {block : Block}

/-- What the node has after it has accepted a block. -/
theorem exists_of_accepted (h : (n.validateAndApply env block).2 = none) :
    ∃ state, applyBlock env n.state block = (state, none) ∧
      (n.validateAndApply env block).1 =
        { n with
          state := state
          transactions :=
            block.transactions.foldl (fun t tx => t.insert tx.txHash tx) n.transactions
          receipts := block.receipts.foldl (fun t r => t.insert r.txHash r) n.receipts
          mempool := n.mempool.retainAdmissible state
          blocks := n.blocks.insert block.header.height block } := by
  unfold validateAndApply at h ⊢
  simp only at h ⊢
  split at h
  next => cases h
  next hfits =>
    rw [if_neg hfits]
    cases happly : applyBlock env n.state block with
    | mk state e =>
      rw [happly] at h
      cases e with
      | some e => cases h
      | none => exact ⟨state, rfl, rfl⟩

/-- An accepted block sets the height, and is stored there. -/
theorem of_accepted (h : (n.validateAndApply env block).2 = none) :
    (n.validateAndApply env block).1.state.height = block.header.height ∧
      (n.validateAndApply env block).1.blocks = n.blocks.insert block.header.height block := by
  obtain ⟨state, happly, hnext⟩ := exists_of_accepted h
  rw [hnext]
  refine ⟨?_, rfl⟩
  have hheight := height_applyTransactions env
    { n.state with height := block.header.height } block.transactions
  unfold applyBlock at happly
  simp only at happly
  split at happly
  next => cases happly
  next =>
    cases happly
    exact hheight

/-- Nothing else changes the state or the blocks. -/
theorem of_refused (h : (n.validateAndApply env block).2 ≠ none) :
    (n.validateAndApply env block).1 = n := by
  unfold validateAndApply at h ⊢
  simp only at h ⊢
  split at h
  next hlarge => rw [if_pos hlarge]
  next hfits =>
    rw [if_neg hfits]
    cases happly : applyBlock env n.state block with
    | mk s e =>
      rw [happly] at h
      cases e with
      | some e => rfl
      | none => exact absurd rfl h

/-- The blocks of the node are not above its state. -/
def StoredBelow (n : ValidatorNode) : Prop :=
  ∀ (height : U64) (block : Block), n.blocks[height]? = some block → height ≤ n.state.height

/-- An operation accepts a block, or leaves the state, the blocks and the receipts alone. -/
theorem apply_cases (env : Env) (n : ValidatorNode) (op : NodeOp) :
    (∃ block, op = .validateAndApply block ∧ (n.validateAndApply env block).2 = none) ∨
      ((op.apply env n).state = n.state ∧ (op.apply env n).blocks = n.blocks ∧
        (op.apply env n).receipts = n.receipts ∧
        ∀ ops, n.accepted env (op :: ops) = (op.apply env n).accepted env ops) := by
  cases op with
  | submitTransaction tx =>
    have hkeeps : ((NodeOp.submitTransaction tx).apply env n).state = n.state ∧
        ((NodeOp.submitTransaction tx).apply env n).blocks = n.blocks ∧
        ((NodeOp.submitTransaction tx).apply env n).receipts = n.receipts := by
      simp only [NodeOp.apply, submitTransaction]
      cases n.mempool.submit env.hashing n.state tx <;> exact ⟨rfl, rfl, rfl⟩
    exact .inr ⟨hkeeps.1, hkeeps.2.1, hkeeps.2.2, fun _ => rfl⟩
  | setBlockResourceLimit limit => exact .inr ⟨rfl, rfl, rfl, fun _ => rfl⟩
  | proposePendingBlock height timestamp => exact .inr ⟨rfl, rfl, rfl, fun _ => rfl⟩
  | validateAndApply block =>
    by_cases h : (n.validateAndApply env block).2 = none
    · exact .inl ⟨block, rfl, h⟩
    · refine .inr ?_
      simp only [NodeOp.apply, accepted, of_refused h, if_neg h, implies_true, and_self]

theorem accepted_cons_of_accepted (h : (n.validateAndApply env block).2 = none)
    (ops : List NodeOp) : n.accepted env (.validateAndApply block :: ops) =
      (n, block) :: (n.validateAndApply env block).1.accepted env ops := by
  simp only [accepted, if_pos h, NodeOp.apply]

/-- What holds of the blocks that are accepted along a run: their heights increase, beyond
    that of the node, and no block of the node is lost. -/
structure Ascends (env : Env) (n : ValidatorNode) (ops : List NodeOp) : Prop where
  above : ∀ p ∈ n.accepted env ops, n.state.height < p.2.header.height
  increase : (n.accepted env ops).Pairwise fun p q => p.2.header.height < q.2.header.height
  kept : ∀ (height : U64) (block : Block), n.blocks[height]? = some block →
    (n.run env ops).blocks[height]? = some block
  stored : ∀ p ∈ n.accepted env ops, (n.run env ops).blocks[p.2.header.height]? = some p.2

/-- If each block is above the state that accepts it, heights increase along the run. -/
theorem ascends (ops : List NodeOp) (hn : n.StoredBelow)
    (h : ∀ p ∈ n.accepted env ops, p.1.state.height < p.2.header.height) : n.Ascends env ops := by
  induction ops generalizing n with
  | nil => exact ⟨by simp [accepted], by simp [accepted], fun _ _ h => h, by simp [accepted]⟩
  | cons op ops ih =>
    rcases apply_cases env n op with ⟨block, rfl, hok⟩ | ⟨hs, hb, -, hacc⟩
    · -- the block is stored at the new height, above all blocks that were stored before
      have hacc := accepted_cons_of_accepted hok ops
      obtain ⟨hheight, hblocks⟩ := of_accepted hok
      rw [hacc] at h
      have hlt : n.state.height < block.header.height := h (n, block) List.mem_cons_self
      have hkept : ∀ (height : U64) (b : Block), n.blocks[height]? = some b →
          (n.validateAndApply env block).1.blocks[height]? = some b := by
        intro height b hb
        have hne : block.header.height ≠ height := by
          rintro rfl
          exact Nat.lt_irrefl _ (Nat.lt_of_lt_of_le hlt (hn _ _ hb))
        rwa [hblocks, Table.getElem?_insert_of_ne]
        assumption
      have hnew : (n.validateAndApply env block).1.blocks[block.header.height]? = some block := by
        rw [hblocks, Std.ExtTreeMap.getElem?_insert_self]
      have hbelow : (n.validateAndApply env block).1.StoredBelow := by
        intro height b hb
        rw [hblocks] at hb
        rw [hheight]
        rcases Table.of_getElem?_insert hb with ⟨rfl, -⟩ | hb
        · exact Nat.le_refl _
        · exact Nat.le_of_lt (Nat.lt_of_le_of_lt (hn _ _ hb) hlt)
      have hrest := ih hbelow fun p hp => h p (List.mem_cons_of_mem _ hp)
      have habove : ∀ p ∈ (n.validateAndApply env block).1.accepted env ops,
          block.header.height < p.2.header.height := fun p hp => hheight ▸ hrest.above p hp
      refine ⟨fun p hp => ?_, ?_, fun height b hb => hrest.kept _ _ (hkept height b hb),
        fun p hp => ?_⟩
      · rcases List.mem_cons.1 (hacc ▸ hp) with rfl | hp
        · exact hlt
        · exact Nat.lt_trans hlt (habove p hp)
      · rw [hacc]
        exact List.pairwise_cons.2 ⟨habove, hrest.increase⟩
      · rcases List.mem_cons.1 (hacc ▸ hp) with rfl | hp
        · exact hrest.kept _ _ hnew
        · exact hrest.stored p hp
    · -- state and blocks are the same, and so is what is accepted later
      have hbelow : (op.apply env n).StoredBelow := by
        intro height b hb'
        rw [hb] at hb'
        exact hs ▸ hn height b hb'
      have hrest := ih hbelow fun p hp => h p (hacc ops ▸ hp)
      refine ⟨fun p hp => ?_, ?_, fun height b hb' => hrest.kept _ _ (by rwa [hb]),
        fun p hp => hrest.stored p (hacc ops ▸ hp)⟩
      · exact hs ▸ hrest.above p (hacc ops ▸ hp)
      · rw [hacc ops]
        exact hrest.increase

end ValidatorNode

/-- In a run of a new node in which each block that is accepted is above the state of the
    node, the heights of the blocks increase strictly, all of them are still stored in the
    end, and their transactions are run at these heights. -/
theorem run_heights_increase (env : Env) (validatorId : String) (s : DeTTaState)
    (policy : MempoolAdmissionPolicy) (ops : List NodeOp)
    (h : ∀ p ∈ (ValidatorNode.withMempoolPolicy validatorId s policy).accepted env ops,
      p.1.state.height < p.2.header.height) :
    ((ValidatorNode.withMempoolPolicy validatorId s policy).accepted env ops).Pairwise
      (fun p q => p.2.header.height < q.2.header.height) ∧
    ∀ p ∈ (ValidatorNode.withMempoolPolicy validatorId s policy).accepted env ops,
      s.height < p.2.header.height ∧
      ((ValidatorNode.withMempoolPolicy validatorId s policy).run env ops).blocks[
        p.2.header.height]? = some p.2 ∧
      ∀ q ∈ appliedTransactions env { p.1.state with height := p.2.header.height }
        p.2.transactions, q.1.height = p.2.header.height := by
  have hbelow : (ValidatorNode.withMempoolPolicy validatorId s policy).StoredBelow := by
    intro height block hb
    simp [ValidatorNode.withMempoolPolicy] at hb
  have hrun := ValidatorNode.ascends ops hbelow h
  exact ⟨hrun.increase, fun p hp =>
    ⟨hrun.above p hp, hrun.stored p hp, fun q hq => height_of_mem_appliedTransactions hq⟩⟩

namespace Heights

/-- A new node. -/
def node : ValidatorNode := .withMempoolPolicy "v" (.new "c") .default

/-- An empty block at height five, on top of the initial state. -/
def first : Block := node.proposeBlock Proxy.env 5 [] 0

/-- The node with the first block. -/
def next : ValidatorNode := (node.validateAndApply Proxy.env first).1

/-- Empty blocks on top of the first: one at the same height, one above, and one below. -/
def same : Block := next.proposeBlock Proxy.env 5 [] 1

def above : Block := next.proposeBlock Proxy.env 6 [] 1

def below : Block := next.proposeBlock Proxy.env 3 [] 1

end Heights

open Heights

set_option maxRecDepth 4000 in
/-- Two blocks at increasing heights are both kept. -/
theorem run_heights_increase_two :
    (node.accepted Proxy.env
      [.validateAndApply first, .validateAndApply above]).length = 2 ∧
    (node.accepted Proxy.env
      [.validateAndApply first, .validateAndApply above]).Pairwise
        (fun p q => p.2.header.height < q.2.header.height) :=
  ⟨by decide,
    (run_heights_increase Proxy.env "v" (.new "c") .default
      [.validateAndApply first, .validateAndApply above] (by decide)).1⟩

set_option maxRecDepth 4000 in
/-- A node accepts a block below its height, and a block at its height, which takes the
    place of the block that was stored there. -/
theorem node_accepts_any_height :
    (next.validateAndApply Proxy.env below).2 = none ∧
    below.header.height < next.state.height ∧
    (next.validateAndApply Proxy.env same).2 = none ∧
    next.blocks[first.header.height]? = some first ∧
    (next.validateAndApply Proxy.env same).1.blocks[
      first.header.height]? = some same ∧
    same ≠ first := by
  decide

end Detta
