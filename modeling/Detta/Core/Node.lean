import Detta.Core.Chain

/-!
# Validator nodes

A node keeps the state of its chain, the transactions that wait for a block (its
mempool), and the blocks it has accepted. It proposes blocks of its pending
transactions, up to a resource limit, and accepts blocks that lead where they say.
-/

namespace Detta

/-! ## Transactions that wait -/

def defaultMempoolMaxPending : ℕ := 10000

def defaultMempoolMaxPendingPerSender : ℕ := 1024

def defaultMempoolMaxTransactionBytes : ℕ := 64 * 1024

structure MempoolAdmissionPolicy where
  maxPending : ℕ
  maxPendingPerSender : ℕ
  maxTransactionBytes : ℕ
deriving DecidableEq, Repr

namespace MempoolAdmissionPolicy

def default : MempoolAdmissionPolicy :=
  ⟨defaultMempoolMaxPending, defaultMempoolMaxPendingPerSender, defaultMempoolMaxTransactionBytes⟩

end MempoolAdmissionPolicy

/-- Why a transaction is not admitted. -/
inductive MempoolError where
  | chainMismatch | invalidSignature
  | unauthorizedSigner (sender : Principal) (publicKeyHex : String)
  | transactionExpired (currentHeight validUntilHeight : U64)
  | duplicateTransaction | nonceAlreadyUsed | insufficientBudget
  | transactionTooLarge (maxBytes actualBytes : ℕ)
  | poolFull (maxPending : ℕ)
  | senderPendingLimitExceeded (sender : Principal) (maxPendingPerSender : ℕ)
deriving DecidableEq, Repr

/-- The hashes of transactions. -/
def hashesOf (transactions : List Transaction) : Std.ExtTreeSet TxHash :=
  .ofList (transactions.map (·.txHash))

/-- The pending transactions, in the order of their arrival, with an index of their hashes. -/
structure Mempool where
  pending : List Transaction
  txHashes : Std.ExtTreeSet TxHash
  policy : MempoolAdmissionPolicy
  indexed : ∀ txHash, txHashes.contains txHash = true ↔ txHash ∈ pending.map (·.txHash)

theorem contains_hashesOf (transactions : List Transaction) (txHash : TxHash) :
    (hashesOf transactions).contains txHash = true ↔ txHash ∈ transactions.map (·.txHash) := by
  rw [hashesOf, Std.ExtTreeSet.contains_ofList, List.contains_iff_mem]

namespace Mempool

def withPolicy (policy : MempoolAdmissionPolicy) : Mempool :=
  ⟨[], ∅, policy, by simp⟩

def new : Mempool := withPolicy .default

/-- The pool with other transactions. -/
def holding (p : Mempool) (transactions : List Transaction) : Mempool :=
  ⟨transactions, hashesOf transactions, p.policy, contains_hashesOf transactions⟩

/-- The pool with one more transaction. -/
def push (p : Mempool) (tx : Transaction) : Mempool where
  pending := p.pending ++ [tx]
  txHashes := p.txHashes.insert tx.txHash
  policy := p.policy
  indexed txHash := by
    rw [Std.ExtTreeSet.contains_insert, Bool.or_eq_true, beq_iff_eq,
      Std.LawfulEqCmp.compare_eq_iff_eq, p.indexed, List.map_append, List.mem_append, or_comm,
      List.map_singleton, List.mem_singleton, eq_comm]

/-- What is wrong with a transaction that is submitted, if anything. -/
def submitError (h : Hashing) (p : Mempool) (s : DeTTaState) (tx : Transaction) :
    Option MempoolError :=
  let actualBytes := (h.canonicalBytes tx.json).length
  if tx.chainId ≠ s.chainId then some .chainMismatch
  else if tx.signatureOk = false then some .invalidSignature
  else
    match tx.validUntilHeight.filter (· ≤ s.height) with
    | some validUntilHeight => some (.transactionExpired s.height validUntilHeight)
    | none =>
      if p.txHashes.contains tx.txHash then some .duplicateTransaction
      else if s.usedNonces.contains ⟨tx.sender, tx.nonce⟩ then some .nonceAlreadyUsed
      else if p.policy.maxTransactionBytes < actualBytes then
        some (.transactionTooLarge p.policy.maxTransactionBytes actualBytes)
      else if tx.budget < transactionResourceUnits tx then some .insufficientBudget
      else if p.policy.maxPending ≤ p.pending.length then some (.poolFull p.policy.maxPending)
      else if p.policy.maxPendingPerSender ≤ p.pending.countP (·.sender = tx.sender) then
        some (.senderPendingLimitExceeded tx.sender p.policy.maxPendingPerSender)
      else none

def submit (h : Hashing) (p : Mempool) (s : DeTTaState) (tx : Transaction) :
    Except MempoolError Mempool :=
  match p.submitError h s tx with
  | some error => .error error
  | none => .ok (p.push tx)

def fromTransactions (h : Hashing) (s : DeTTaState) (transactions : List Transaction) :
    Except MempoolError Mempool :=
  transactions.foldlM (fun p tx => p.submit h s tx) new

/-- The transaction may still be executed. -/
def admissible (s : DeTTaState) (tx : Transaction) : Bool :=
  tx.chainId = s.chainId && tx.signatureOk &&
    !s.usedNonces.contains ⟨tx.sender, tx.nonce⟩ &&
    tx.validUntilHeight.all fun validUntilHeight => s.height < validUntilHeight

def retainAdmissible (p : Mempool) (s : DeTTaState) : Mempool :=
  p.holding (p.pending.filter (admissible s))

/-- Transactions are ordered by sender, nonce and hash. -/
def precedes (left right : Transaction) : Bool :=
  ((compare left.sender right.sender).then
    ((compare left.nonce right.nonce).then (compare left.txHash right.txHash))).isLE

def drainOrdered (p : Mempool) : Mempool × List Transaction :=
  (p.holding [], p.pending.mergeSort precedes)

/-- Choose transactions one after the other, as long as they fit; a transaction that does
    not fit is put off, and the next one is tried. -/
def choose (maxResourceUnits : U64) : U64 → List Transaction → List Transaction × List Transaction
  | _, [] => ([], [])
  | usedUnits, tx :: txs =>
    let nextUnits := usedUnits.saturatingAdd (transactionResourceUnits tx)
    if nextUnits ≤ maxResourceUnits then
      let (selected, deferred) := choose maxResourceUnits nextUnits txs
      (tx :: selected, deferred)
    else
      let (selected, deferred) := choose maxResourceUnits usedUnits txs
      (selected, tx :: deferred)

def drainOrderedWithResourceLimit (p : Mempool) (maxResourceUnits : U64) :
    Mempool × List Transaction :=
  let (empty, transactions) := p.drainOrdered
  let (selected, deferred) := choose maxResourceUnits 0 transactions
  (empty.holding deferred, selected)

end Mempool

/-! ## Nodes -/

structure ValidatorNode where
  validatorId : String
  state : DeTTaState
  mempool : Mempool
  blockResourceLimit : U64
  blocks : Std.ExtTreeMap U64 Block
  transactions : Std.ExtTreeMap TxHash Transaction
  receipts : Std.ExtTreeMap TxHash Receipt

namespace ValidatorNode

def withMempoolPolicy (validatorId : String) (state : DeTTaState)
    (policy : MempoolAdmissionPolicy) : ValidatorNode where
  validatorId := validatorId
  state := state
  mempool := .withPolicy policy
  blockResourceLimit := defaultBlockResourceLimit
  blocks := ∅
  transactions := ∅
  receipts := ∅

def new (validatorId : String) (state : DeTTaState) : ValidatorNode :=
  withMempoolPolicy validatorId state .default

def withPendingTransactions (h : Hashing) (validatorId : String) (state : DeTTaState)
    (pending : List Transaction) : Except MempoolError ValidatorNode := do
  let mempool ← Mempool.fromTransactions h state pending
  pure { new validatorId state with mempool := mempool }

def getReceipt (n : ValidatorNode) (txHash : TxHash) : Option Receipt := n.receipts[txHash]?

def setBlockResourceLimit (n : ValidatorNode) (blockResourceLimit : U64) : ValidatorNode :=
  { n with blockResourceLimit := blockResourceLimit }

def submitTransaction (h : Hashing) (n : ValidatorNode) (tx : Transaction) :
    Except MempoolError ValidatorNode := do
  let mempool ← n.mempool.submit h n.state tx
  pure { n with mempool := mempool }

/-- The certificate that a proposal carries. -/
def certificate (n : ValidatorNode) (height : U64) : String :=
  "sim-cert:" ++ n.validatorId ++ ":" ++ toString height.val

def proposeBlock (env : Env) (n : ValidatorNode) (height : U64) (transactions : List Transaction)
    (timestamp : U64) : Block :=
  (buildBlock env n.state height transactions timestamp n.validatorId (n.certificate height)).1

def proposePendingBlock (env : Env) (n : ValidatorNode) (height timestamp : U64) :
    ValidatorNode × Block :=
  let (mempool, transactions) := n.mempool.drainOrderedWithResourceLimit n.blockResourceLimit
  ({ n with mempool := mempool }, n.proposeBlock env height transactions timestamp)

/-- Accept a block, or leave everything as it is. -/
def validateAndApply (env : Env) (n : ValidatorNode) (block : Block) :
    ValidatorNode × Option BlockError :=
  let actualUnits := blockResourceUnits block.transactions
  if n.blockResourceLimit < actualUnits then
    (n, some (.resourceLimitExceeded n.blockResourceLimit actualUnits))
  else
    match applyBlock env n.state block with
    | (_, some error) => (n, some error)
    | (state, none) =>
      ({ n with
          state := state
          transactions :=
            block.transactions.foldl (fun t tx => t.insert tx.txHash tx) n.transactions
          receipts := block.receipts.foldl (fun t r => t.insert r.txHash r) n.receipts
          mempool := n.mempool.retainAdmissible state
          blocks := n.blocks.insert block.header.height block }, none)

end ValidatorNode

/-- An operation on a node. A block is produced by a proposal, which is then applied. -/
inductive NodeOp where
  | submitTransaction (tx : Transaction)
  | setBlockResourceLimit (blockResourceLimit : U64)
  | proposePendingBlock (height timestamp : U64)
  | validateAndApply (block : Block)

/-- The node after an operation; one that fails changes nothing. -/
def NodeOp.apply (env : Env) (n : ValidatorNode) : NodeOp → ValidatorNode
  | submitTransaction tx => (n.submitTransaction env.hashing tx).toOption.getD n
  | setBlockResourceLimit limit => n.setBlockResourceLimit limit
  | proposePendingBlock height timestamp => (n.proposePendingBlock env height timestamp).1
  | validateAndApply block => (n.validateAndApply env block).1

/-- The node after a sequence of operations. -/
def ValidatorNode.run (env : Env) (n : ValidatorNode) (ops : List NodeOp) : ValidatorNode :=
  ops.foldl (NodeOp.apply env) n

/-- The blocks that a node accepts along a sequence of operations, each with the node that
    accepts it. -/
def ValidatorNode.accepted (env : Env) (n : ValidatorNode) :
    List NodeOp → List (ValidatorNode × Block)
  | [] => []
  | op :: ops =>
    let rest := accepted env (op.apply env n) ops
    match op with
    | .validateAndApply block =>
      if (n.validateAndApply env block).2 = none then (n, block) :: rest else rest
    | _ => rest

end Detta
