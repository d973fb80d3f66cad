import Detta.Base.Check
import Detta.Base.Run
import Detta.Safety.Node
import Detta.Safety.Replay

/-!
# The mempool

What waits in a mempool is what was admitted, less what was drained and what can no longer
be executed (`MempoolOp.run_cases`).

* In every run the pool keeps to its policy, and its hashes are distinct (`Consistent`).
* A drain with a limit splits the pool. It goes through the transactions in their order, and
  takes each one that still fits; so it depends on the set of the pending transactions only.
* A transaction that does not fit is overtaken by later ones, also by those of its sender.
* Nonces are compared with the used ones, not with the pending ones.
-/

namespace Detta

/-- An operation on a mempool. -/
inductive MempoolOp where
  | submit (s : DeTTaState) (tx : Transaction)
  | retainAdmissible (s : DeTTaState)
  | drainOrdered
  | drainOrderedWithResourceLimit (maxResourceUnits : U64)

namespace MempoolOp

/-- The pool after an operation, and the transactions that the operation returns. A refused
    transaction changes nothing. -/
def run (h : Hashing) (p : Mempool) : MempoolOp → Mempool × List Transaction
  | submit s tx => ((p.submit h s tx).toOption.getD p, [])
  | retainAdmissible s => (p.retainAdmissible s, [])
  | drainOrdered => p.drainOrdered
  | drainOrderedWithResourceLimit maxResourceUnits =>
    p.drainOrderedWithResourceLimit maxResourceUnits

def apply (h : Hashing) (p : Mempool) (op : MempoolOp) : Mempool := (op.run h p).1

/-- A block is proposed, or what can no longer be executed is dropped. -/
def isProposal : MempoolOp → Bool
  | drainOrderedWithResourceLimit _ | retainAdmissible _ => true
  | _ => false

end MempoolOp

namespace Mempool

variable {h : Hashing} {p q : Mempool} {s : DeTTaState} {tx : Transaction}
  {policy : MempoolAdmissionPolicy}

/-! ## What is admitted -/

theorem admissible_iff : admissible s tx = true ↔
    tx.chainId = s.chainId ∧ tx.signatureOk = true ∧
      s.usedNonces.contains tx.nonceKey = false ∧
      ∀ height ∈ tx.validUntilHeight, s.height < height := by
  simp [admissible, Transaction.nonceKey, Option.all_eq_true, and_assoc]

/-- What has been checked of a transaction that is admitted. -/
structure Admits (p : Mempool) (s : DeTTaState) (tx : Transaction) : Prop where
  admissible : admissible s tx = true
  fresh : tx.txHash ∉ p.pending.map (·.txHash)
  room : p.pending.length < p.policy.maxPending
  senderRoom : p.pending.countP (·.sender = tx.sender) < p.policy.maxPendingPerSender

theorem admits_of_submitError (hnone : p.submitError h s tx = none) : p.Admits s tx := by
  obtain ⟨hchain, hnone⟩ := of_ite_eq_none hnone
  obtain ⟨hmark, hnone⟩ := of_ite_eq_none hnone
  split at hnone
  next => cases hnone
  next hvalid =>
    obtain ⟨hfree, hnone⟩ := of_ite_eq_none hnone
    obtain ⟨hnonce, hnone⟩ := of_ite_eq_none hnone
    obtain ⟨-, hnone⟩ := of_ite_eq_none hnone
    obtain ⟨-, hnone⟩ := of_ite_eq_none hnone
    obtain ⟨hroom, hnone⟩ := of_ite_eq_none hnone
    obtain ⟨hsender, -⟩ := of_ite_eq_none hnone
    refine ⟨?_, fun hmem => hfree ((p.indexed _).2 hmem), Nat.lt_of_not_le hroom,
      Nat.lt_of_not_le hsender⟩
    refine admissible_iff.2 ⟨not_not.1 hchain, by simpa using hmark, Bool.eq_false_iff.2 hnonce, ?_⟩
    intro height hheight
    rw [hheight] at hvalid
    simpa [Option.filter, Word.le_def, Word.lt_def] using hvalid

/-- A transaction is admitted, or else nothing enters the pool: what an operation returns and
    what it leaves was pending. -/
theorem run_cases (h : Hashing) (p : Mempool) (op : MempoolOp) :
    (∃ s tx, op = .submit s tx ∧ p.Admits s tx ∧ op.run h p = (p.push tx, [])) ∨
      (op.apply h p).policy = p.policy ∧
        ((op.run h p).2 ++ (op.apply h p).pending).Subperm p.pending := by
  cases op with
  | submit s tx =>
    simp only [MempoolOp.run, MempoolOp.apply, submit]
    cases herror : p.submitError h s tx with
    | none => exact .inl ⟨s, tx, rfl, admits_of_submitError herror, rfl⟩
    | some error => exact .inr ⟨rfl, List.Subperm.refl _⟩
  | retainAdmissible s => exact .inr ⟨rfl, List.filter_sublist.subperm⟩
  | drainOrdered =>
    refine .inr ⟨rfl, List.Perm.subperm ?_⟩
    exact ((List.append_nil _).symm ▸ List.mergeSort_perm _ _)
  | drainOrderedWithResourceLimit limit => exact .inr ⟨rfl, (drain_perm limit p).subperm⟩

/-! ## The bounds of the policy -/

/-- The pool keeps to the policy, and no two transactions in it have one hash. -/
structure Consistent (policy : MempoolAdmissionPolicy) (p : Mempool) : Prop where
  policy_eq : p.policy = policy
  nodup : (p.pending.map (·.txHash)).Nodup
  length_le : p.pending.length ≤ policy.maxPending
  sender_le : ∀ sender, p.pending.countP (·.sender = sender) ≤ policy.maxPendingPerSender

namespace Consistent

theorem of_subperm (hp : p.Consistent policy) (hpolicy : q.policy = p.policy)
    (hsub : q.pending.Subperm p.pending) : q.Consistent policy where
  policy_eq := hpolicy.trans hp.policy_eq
  nodup := by
    obtain ⟨l, hperm, hl⟩ := hsub
    exact (hperm.map _).nodup_iff.1 ((hl.map _).nodup hp.nodup)
  length_le := hsub.length_le.trans hp.length_le
  sender_le sender := (hsub.countP_le _).trans (hp.sender_le sender)

theorem push (hp : p.Consistent policy) (hadmits : p.Admits s tx) :
    (p.push tx).Consistent policy where
  policy_eq := hp.policy_eq
  nodup := by
    rw [Mempool.push, List.map_append, List.map_singleton, ← List.concat_eq_append]
    exact hp.nodup.concat hadmits.fresh
  length_le := by
    rw [Mempool.push, List.length_append, List.length_singleton, ← hp.policy_eq]
    exact hadmits.room
  sender_le sender := by
    rw [Mempool.push, List.countP_append, List.countP_singleton]
    split
    next heq =>
      rw [← of_decide_eq_true heq, ← hp.policy_eq]
      exact hadmits.senderRoom
    next => exact hp.sender_le sender

theorem apply (hp : p.Consistent policy) (op : MempoolOp) :
    (op.apply h p).Consistent policy := by
  rcases run_cases h p op with ⟨s, tx, -, hadmits, hrun⟩ | ⟨hpolicy, hsub⟩
  · rw [MempoolOp.apply, hrun]
    exact hp.push hadmits
  · exact hp.of_subperm hpolicy ((List.sublist_append_right _ _).subperm.trans hsub)

theorem runFrom (h : Hashing) (policy : MempoolAdmissionPolicy) (ops : List MempoolOp) :
    (runFrom (MempoolOp.apply h) (withPolicy policy) ops).Consistent policy :=
  (runFrom_invariant ⟨rfl, .nil, Nat.zero_le _, fun _ => Nat.zero_le _⟩
    (fun _ op hp (_ : True) => hp.apply op) fun _ _ => trivial).1

end Consistent

/-- In every run the index of hashes is exact, the hashes are distinct, and the pool keeps to
    the bounds of its policy. -/
theorem mempool_consistent (h : Hashing) (policy : MempoolAdmissionPolicy)
    (ops : List MempoolOp) :
    let p := runFrom (MempoolOp.apply h) (withPolicy policy) ops
    (∀ txHash, p.txHashes.contains txHash = true ↔ txHash ∈ p.pending.map (·.txHash)) ∧
      (p.pending.map (·.txHash)).Nodup ∧ p.pending.length ≤ policy.maxPending ∧
      ∀ sender, p.pending.countP (·.sender = sender) ≤ policy.maxPendingPerSender :=
  have hp := Consistent.runFrom h policy ops
  ⟨indexed _, hp.nodup, hp.length_le, hp.sender_le⟩

/-! ## Drains with a limit -/

/-- How transactions are compared. -/
def order : Transaction → Transaction → Ordering :=
  compareLex (compareOn Transaction.sender)
    (compareLex (compareOn Transaction.nonce) (compareOn Transaction.txHash))

instance : Std.TransCmp order :=
  inferInstanceAs (Std.TransCmp (compareLex (compareOn _) (compareLex (compareOn _) (compareOn _))))

theorem precedes_eq (x y : Transaction) : precedes x y = (order x y).isLE := rfl

theorem pairwise_drainOrdered (p : Mempool) :
    p.drainOrdered.2.Pairwise (precedes · · = true) := by
  refine List.pairwise_mergeSort (fun x y z hxy hyz => ?_) (fun x y => ?_) _
  · exact @Std.TransCmp.isLE_trans _ order _ x y z hxy hyz
  · rw [precedes_eq, precedes_eq, @Std.OrientedCmp.eq_swap _ order]
    cases order y x <;> rfl

/-- A pool is drained in an order that does not depend on the order of the submissions. -/
theorem drainOrdered_eq {policy' : MempoolAdmissionPolicy} (hp : p.Consistent policy)
    (hq : q.Consistent policy')
    (hmem : ∀ tx, tx ∈ p.pending ↔ tx ∈ q.pending) : p.drainOrdered.2 = q.drainOrdered.2 := by
  have hperm : p.pending.Perm q.pending :=
    (List.perm_ext_iff_of_nodup (.of_map _ hp.nodup) (.of_map _ hq.nodup)).2 hmem
  have hdrained : ∀ p : Mempool, p.drainOrdered.2.Perm p.pending := fun _ => List.mergeSort_perm _ _
  refine List.Perm.eq_of_pairwise (fun x y hx hy hxy hyx => ?_) (pairwise_drainOrdered p)
    (pairwise_drainOrdered q) ((hdrained p).trans (hperm.trans (hdrained q).symm))
  have heq := @Std.OrientedCmp.isLE_antisymm _ order _ x y hxy hyx
  simp only [order, compareLex, Ordering.then_eq_eq, compareOn,
    Std.LawfulEqCmp.compare_eq_iff_eq] at heq
  exact List.inj_on_of_nodup_map hp.nodup ((hdrained p).mem_iff.1 hx)
    ((hmem y).2 ((hdrained q).mem_iff.1 hy)) heq.2.2

variable {limit used : U64} {txs : List Transaction} {x y : Transaction}

/-- A transaction that is put off does not fit, and less so later on. -/
theorem lt_of_mem_deferred (hy : y ∈ (choose limit used txs).2) :
    limit.val < min (used.val + totalUnits (choose limit used txs).1 +
      (transactionResourceUnits y).val) (2 ^ 64 - 1) := by
  induction txs generalizing used with
  | nil => exact absurd hy List.not_mem_nil
  | cons tx txs ih =>
    rw [choose] at hy ⊢
    dsimp only at hy ⊢
    split at hy
    next hfits =>
      have hlt := ih hy
      rw [if_pos hfits]
      rw [Word.val_saturatingAdd] at hlt
      simp only [totalUnits, List.map_cons, List.sum_cons] at hlt ⊢
      omega
    next hfits =>
      rw [if_neg hfits]
      rcases List.mem_cons.1 hy with rfl | hy
      · rw [Word.le_def, Word.val_saturatingAdd] at hfits
        dsimp only
        omega
      · exact ih hy

/-- A drain splits the pool into what fits and what does not fit with it. Only the set of the
    pending transactions matters. -/
theorem drain_splits (h : Hashing) (policy : MempoolAdmissionPolicy) (ops : List MempoolOp)
    (limit : U64) :
    let p := runFrom (MempoolOp.apply h) (withPolicy policy) ops
    let selected := (p.drainOrderedWithResourceLimit limit).2
    let left := (p.drainOrderedWithResourceLimit limit).1.pending
    (selected ++ left).Perm p.pending ∧ blockResourceUnits selected ≤ limit ∧
      (∀ tx ∈ left, limit < blockResourceUnits (selected ++ [tx])) ∧
      ∀ policy' ops', let q := runFrom (MempoolOp.apply h) (withPolicy policy') ops'
        (∀ tx, tx ∈ p.pending ↔ tx ∈ q.pending) →
          (q.drainOrderedWithResourceLimit limit).2 = selected ∧
          (q.drainOrderedWithResourceLimit limit).1.pending = left := by
  intro p selected left
  refine ⟨drain_perm limit p, blockResourceUnits_drain_le limit p, fun tx htx => ?_,
    fun policy' ops' hmem => ?_⟩
  · have hlt := lt_of_mem_deferred htx
    rw [Word.val_zero, Nat.zero_add] at hlt
    have hunits : totalUnits (selected ++ [tx]) =
      totalUnits selected + (transactionResourceUnits tx).val := by simp [totalUnits]
    rwa [Word.lt_def, val_blockResourceUnits, hunits]
  · have hsame := drainOrdered_eq (.runFrom h policy ops) (.runFrom h policy' ops') hmem
    exact ⟨congrArg (choose limit 0 · |>.1) hsame.symm, congrArg (choose limit 0 · |>.2) hsame.symm⟩

/-! ## The order of nonces -/

/-- A block keeps the order of the pool. -/
theorem selected_sublist : (choose limit used txs).1.Sublist txs := by
  induction txs generalizing used with
  | nil => exact .slnil
  | cons tx txs ih =>
    rw [choose]
    dsimp only
    split
    · exact ih.cons_cons _
    · exact ih.cons _

theorem le_of_mem_selected (hx : x ∈ (choose limit used txs).1) :
    min (used.val + (transactionResourceUnits x).val) (2 ^ 64 - 1) ≤ limit.val := by
  induction txs generalizing used with
  | nil => exact absurd hx List.not_mem_nil
  | cons tx txs ih =>
    rw [choose] at hx
    dsimp only at hx
    split at hx
    next hfits =>
      rw [Word.le_def, Word.val_saturatingAdd] at hfits
      rcases List.mem_cons.1 hx with rfl | hx
      · exact hfits
      · have hle := ih hx
        rw [Word.val_saturatingAdd] at hle
        omega
    next => exact ih hx

/-- A transaction overtakes only one that needs more units. -/
theorem overtakes {R : Transaction → Transaction → Prop} (hR : txs.Pairwise R)
    (hx : x ∈ (choose limit used txs).1) (hy : y ∈ (choose limit used txs).2) :
    R x y ∨ transactionResourceUnits x < transactionResourceUnits y := by
  induction txs generalizing used with
  | nil => exact absurd hx List.not_mem_nil
  | cons tx txs ih =>
    obtain ⟨hfirst, hR⟩ := List.pairwise_cons.1 hR
    rw [choose] at hx hy
    dsimp only at hx hy
    split at hx
    next hfits =>
      rw [if_pos hfits] at hy
      rcases List.mem_cons.1 hx with rfl | hx
      · exact .inl (hfirst y ((choose_perm _ _ txs).subset (List.mem_append_right _ hy)))
      · exact ih hR hx hy
    next hfits =>
      rw [if_neg hfits] at hy
      rcases List.mem_cons.1 hy with rfl | hy
      · have hle := le_of_mem_selected hx
        rw [Word.le_def, Word.val_saturatingAdd] at hfits
        rw [Word.lt_def]
        omega
      · exact ih hR hx hy

/-- What the operations of a run return, one after the other. -/
def returned (h : Hashing) (p : Mempool) (ops : List MempoolOp) : List Transaction :=
  (stepsFrom (MempoolOp.apply h) p ops).flatMap fun step => (step.2.run h step.1).2

/-- The transactions of a sender come in the order of their nonces. -/
def InOrder (x y : Transaction) : Prop := x.sender = y.sender → x.nonce ≤ y.nonce

theorem inOrder_of_precedes (hxy : precedes x y = true) : InOrder x y := by
  intro hsender
  by_contra hlt
  have hnonce : compare x.nonce y.nonce = .gt := Nat.compare_eq_gt.2 (Nat.lt_of_not_le hlt)
  simp [precedes, hsender, hnonce] at hxy

/-- What proposals return was pending, and is in order if no transaction needs less units than
    one of its sender with a smaller nonce. -/
theorem returned_in_order (h : Hashing) {p : Mempool} {ops : List MempoolOp}
    (hops : ∀ op ∈ ops, op.isProposal = true)
    (hunits : ∀ x ∈ p.pending, ∀ y ∈ p.pending, x.sender = y.sender → x.nonce < y.nonce →
      transactionResourceUnits x ≤ transactionResourceUnits y) :
    p.returned h ops ⊆ p.pending ∧ (p.returned h ops).Pairwise InOrder := by
  induction ops generalizing p with
  | nil => exact ⟨List.nil_subset _, .nil⟩
  | cons op ops ih =>
    obtain ⟨hop, hops⟩ := List.forall_mem_cons.1 hops
    rcases run_cases h p op with ⟨s, tx, rfl, -⟩ | ⟨-, hsub⟩
    · cases hop
    obtain ⟨hnow, hlater⟩ := List.append_subset.1 hsub.subset
    obtain ⟨hsubset, hordered⟩ := ih hops fun x hx y hy => hunits x (hlater hx) y (hlater hy)
    refine ⟨List.append_subset.2 ⟨hnow, List.Subset.trans hsubset hlater⟩, ?_⟩
    cases op with
    | submit | drainOrdered => cases hop
    | retainAdmissible s => exact hordered
    | drainOrderedWithResourceLimit limit =>
      have hsorted := (pairwise_drainOrdered p).imp inOrder_of_precedes
      refine List.pairwise_append.2 ⟨hsorted.sublist selected_sublist, hordered, ?_⟩
      intro x hx y hy hsender
      by_contra hlt
      -- `y` has the smaller nonce, and was put off for `x`, which needs more
      have hle := hunits y (hlater (hsubset hy)) x (hnow hx) hsender.symm (Nat.lt_of_not_le hlt)
      rcases overtakes hsorted hx (hsubset hy) with hxy | hxy
      · exact hlt (hxy hsender)
      · exact Nat.not_lt.2 hle hxy

end Mempool

namespace Overtaken

/-! A cheap transaction waits behind an expensive one of its sender. -/

def cheap : Transaction := { Proxy.transfer with args := [], nonce := 1, txHash := "i" }

def pool : Mempool := (Mempool.new.push Proxy.transfer).push cheap

def propose : MempoolOp := .drainOrderedWithResourceLimit (transactionResourceUnits cheap)

/-- The cheap one may come first. -/
theorem returned_in_order_cheap :
    (((Mempool.new.push cheap).push { Proxy.transfer with nonce := 2 }).returned Proxy.env.hashing
      [propose]).Pairwise Mempool.InOrder :=
  (Mempool.returned_in_order _ (by decide) (by decide)).2

/-- The first block has no room for the expensive one. -/
theorem nonce_overtaken :
    pool.returned Proxy.env.hashing [propose, .drainOrderedWithResourceLimit
      (transactionResourceUnits Proxy.transfer)] = [cheap, Proxy.transfer] ∧
      ¬Mempool.InOrder cheap Proxy.transfer := by
  have hsorted : pool.pending.mergeSort Mempool.precedes = [Proxy.transfer, cheap] :=
    List.mergeSort_of_pairwise (by decide)
  have hfirst : propose.run Proxy.env.hashing pool = (pool.holding [Proxy.transfer], [cheap]) := by
    simp only [propose, MempoolOp.run, Mempool.drainOrderedWithResourceLimit, Mempool.drainOrdered,
      hsorted]
    rfl
  refine ⟨?_, fun hle => absurd (hle rfl) (by decide)⟩
  change (propose.run Proxy.env.hashing pool).2 ++ ((Mempool.choose _ 0
    ((propose.run Proxy.env.hashing pool).1.pending.mergeSort Mempool.precedes)).1 ++ []) = _
  rw [hfirst, Mempool.holding, List.mergeSort_singleton]
  rfl

end Overtaken

/-! ## Proposals -/

namespace ValidatorNode

variable {env : Env} {n : ValidatorNode} {s : DeTTaState}

/-- What is pending can be executed, and no two transactions have one nonce. -/
structure Ready (n : ValidatorNode) : Prop where
  admissible : ∀ tx ∈ n.mempool.pending, Mempool.admissible n.state tx = true
  nodup : (n.mempool.pending.map (·.nonceKey)).Nodup

/-- No other transaction with the nonce of a submitted one is pending. -/
def Fresh (n : ValidatorNode) : NodeOp → Prop
  | .submitTransaction tx => ∀ other ∈ n.mempool.pending,
      other.nonceKey = tx.nonceKey → other.txHash = tx.txHash
  | _ => True

theorem Ready.apply (hn : n.Ready) {op : NodeOp} (hop : n.Fresh op) : (op.apply env n).Ready := by
  cases op with
  | submitTransaction tx =>
    simp only [NodeOp.apply, submitTransaction, Mempool.submit]
    cases herror : n.mempool.submitError env.hashing n.state tx with
    | some error => exact hn
    | none =>
      have hadmits := Mempool.admits_of_submitError herror
      refine ⟨fun other hother => ?_, ?_⟩
      · rcases List.mem_append.1 hother with hold | hnew
        · exact hn.admissible other hold
        · rw [List.mem_singleton.1 hnew]
          exact hadmits.admissible
      · change ((n.mempool.pending ++ [tx]).map _).Nodup
        rw [List.map_append, List.map_singleton, ← List.concat_eq_append]
        refine hn.nodup.concat fun hmem => ?_
        obtain ⟨other, hother, heq⟩ := List.mem_map.1 hmem
        exact hadmits.fresh (List.mem_map.2 ⟨other, hother, hop other hother heq⟩)
  | setBlockResourceLimit => exact ⟨hn.admissible, hn.nodup⟩
  | proposePendingBlock =>
    have hperm := Mempool.drain_perm n.blockResourceLimit n.mempool
    refine ⟨fun tx htx => hn.admissible tx (hperm.subset (List.mem_append_right _ htx)), ?_⟩
    have hnodup := (hperm.map (·.nonceKey)).nodup_iff.2 hn.nodup
    rw [List.map_append] at hnodup
    exact hnodup.of_append_right
  | validateAndApply block =>
    change (n.validateAndApply env block).1.Ready
    by_cases hok : (n.validateAndApply env block).2 = none
    · obtain ⟨state, -, hnext⟩ := exists_of_accepted hok
      rw [hnext]
      exact ⟨fun tx htx => (List.mem_filter.1 htx).2, hn.nodup.sublist (List.filter_sublist.map _)⟩
    · rwa [of_refused hok]

end ValidatorNode

namespace Replayed

/-! A sender signs two transactions with one nonce. -/

def start : ValidatorNode := .new "v" Proxy.state

def first : ValidatorNode := NodeOp.apply Proxy.env start (.submitTransaction Proxy.transfer)

def second : Transaction := { Proxy.transfer with txHash := "i" }

end Replayed

end Detta
