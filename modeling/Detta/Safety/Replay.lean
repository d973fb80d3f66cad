import Detta.Safety.Reach

/-!
# Replay protection

A nonce is used up by the transaction that carries it, whether it is committed, reverted,
or not run for want of resources; the frames inside of it use up nothing more. So along
any run, from any state, each nonce is used up once (`UsesUp`), and what was used stays so.
-/

namespace Detta

/-- The nonce of a transaction, among those of its sender. -/
def Transaction.nonceKey (tx : Transaction) : NonceKey := ⟨tx.sender, tx.nonce⟩

/-- The transaction is not refused: its receipt says that it is committed or reverted. -/
def Executes (env : Env) (p : DeTTaState × Transaction) : Prop :=
  (applyTransaction env p.1 p.2).2.status ≠ .rejected

instance (env : Env) (p : DeTTaState × Transaction) : Decidable (Executes env p) :=
  inferInstanceAs (Decidable (_ ≠ _))

/-- The nonces of the transactions that are not refused, in their order. -/
def executedNonces (env : Env) (applied : List (DeTTaState × Transaction)) : List NonceKey :=
  (applied.filter (Executes env ·)).map fun p => p.2.nonceKey

/-- From one state to another, the given nonces are used up, each of them once, and no
    others. -/
structure UsesUp (s s' : DeTTaState) (keys : List NonceKey) : Prop where
  nodup : keys.Nodup
  fresh : ∀ key ∈ keys, s.usedNonces.contains key = false
  used : ∀ key, s'.usedNonces.contains key = true ↔ s.usedNonces.contains key = true ∨ key ∈ keys

namespace UsesUp

variable {s s' s'' : DeTTaState} {keys keys' : List NonceKey}

/-- Nothing is used up as long as the used nonces stay the same. -/
theorem of_eq (h : s'.usedNonces = s.usedNonces) : UsesUp s s' [] :=
  ⟨.nil, by simp, by simp [h]⟩

/-- What is used up later was not used up before. -/
theorem trans (h : UsesUp s s' keys) (h' : UsesUp s' s'' keys') : UsesUp s s'' (keys ++ keys') where
  nodup := by
    refine List.nodup_append.2 ⟨h.nodup, h'.nodup, ?_⟩
    intro key hk key' hk' he
    rw [← he] at hk'
    have hfresh := h'.fresh key hk'
    rw [(h.used key).2 (.inr hk)] at hfresh
    cases hfresh
  fresh key hk := by
    rcases List.mem_append.1 hk with hk | hk
    · exact h.fresh key hk
    · refine Bool.eq_false_of_not_eq_true fun hused => ?_
      have hfresh := h'.fresh key hk
      rw [(h.used key).2 (.inl hused)] at hfresh
      cases hfresh
  used key := by rw [h'.used, h.used, List.mem_append, or_assoc]

end UsesUp

section Runs

variable (env : Env) (s : DeTTaState)

/-- Using up a nonce that is not used yet. -/
theorem usesUp_useNonce {s : DeTTaState} {tx : Transaction}
    (h : s.usedNonces.contains tx.nonceKey = false) : UsesUp s (s.useNonce tx) [tx.nonceKey] where
  nodup := List.nodup_singleton _
  fresh key hk := by rwa [List.mem_singleton.1 hk]
  used key := by
    rw [List.mem_singleton, DeTTaState.useNonce, Table.contains_insert_set, or_comm,
      eq_comm (a := key)]
    rfl

/-- A transaction uses up its nonce, unless it is refused. -/
theorem usesUp_applyTransaction (tx : Transaction) :
    UsesUp s (applyTransaction env s tx).1 (executedNonces env [(s, tx)]) := by
  rcases applyTransaction_grows env s tx with ⟨-, hst, hs⟩ | ⟨hfine, hst, hgrows⟩
  · have hexec : executedNonces env [(s, tx)] = [] := by simp [executedNonces, Executes, hst]
    rw [hexec, hs]
    exact .of_eq rfl
  · -- what runs inside of the transaction leaves the nonces alone
    have hexec : executedNonces env [(s, tx)] = [tx.nonceKey] := by
      simp [executedNonces, Executes, hst]
    rw [hexec]
    exact (usesUp_useNonce (rejection_eq_none_iff.1 hfine).2.2.2).trans (.of_eq hgrows.usedNonces)

theorem executedNonces_append (l l' : List (DeTTaState × Transaction)) :
    executedNonces env (l ++ l') = executedNonces env l ++ executedNonces env l' := by
  rw [executedNonces, List.filter_append, List.map_append, executedNonces, executedNonces]

theorem usesUp_applyTransactions (txs : List Transaction) :
    UsesUp s (applyTransactions env s txs).1
      (executedNonces env (appliedTransactions env s txs)) := by
  induction txs generalizing s with
  | nil => exact .of_eq rfl
  | cons tx txs ih =>
    have h := (usesUp_applyTransaction env s tx).trans (ih (applyTransaction env s tx).1)
    rw [← executedNonces_append] at h
    exact h

/-- A deployment uses up no nonce. -/
theorem usedNonces_applyDeployment (d : Deployment) :
    (applyDeployment env s d).usedNonces = s.usedNonces := by
  refine applyDeployment_keeps (P := fun s' => s'.usedNonces = s.usedNonces) rfl
    (fun ih hstep => ?_) d
  rw [← ih]
  cases hstep with
  | contract => rw [DeTTaState.puts_eq]; rfl
  | _ => rfl

theorem usesUp_apply (op : Op) :
    UsesUp s (op.apply env s) (executedNonces env (op.transactions env s)) := by
  cases op with
  | deploy d => exact .of_eq (usedNonces_applyDeployment env s d)
  | transaction tx => exact usesUp_applyTransaction env s tx
  | block b =>
    have h := usesUp_applyTransactions env { s with height := b.header.height } b.transactions
    simp only [Op.apply, Op.transactions, applyBlock]
    split
    next => exact .of_eq rfl
    next => exact ⟨h.nodup, h.fresh, h.used⟩

theorem usesUp_runOps (ops : List Op) :
    UsesUp s (runOps env s ops) (executedNonces env (runTransactions env s ops)) := by
  induction ops generalizing s with
  | nil => exact .of_eq rfl
  | cons op ops ih =>
    have h := (usesUp_apply env s op).trans (ih (op.apply env s))
    rw [← executedNonces_append] at h
    exact h

/-- Along a run from any state, no two transactions with the same nonce of the same sender
    are executed, and a nonce that is used stays used. The used nonces are those of before
    with those of the transactions that are not refused: nested calls add none. -/
theorem runOps_nonces_used_once (ops : List Op) :
    (executedNonces env (runTransactions env s ops)).Nodup ∧
    (∀ n key, (runOps env s (ops.take n)).usedNonces.contains key = true →
      (runOps env s ops).usedNonces.contains key = true) ∧
    ∀ key, (runOps env s ops).usedNonces.contains key = true ↔
      s.usedNonces.contains key = true ∨ key ∈ executedNonces env (runTransactions env s ops) := by
  have h := usesUp_runOps env s ops
  refine ⟨h.nodup, fun n key hk => ?_, h.used⟩
  have hrest := usesUp_runOps env (runOps env s (ops.take n)) (ops.drop n)
  have hsplit : runOps env s ops = runOps env (runOps env s (ops.take n)) (ops.drop n) := by
    rw [runOps, runOps, runOps, ← List.foldl_append, List.take_append_drop]
  rw [hsplit]
  exact (hrest.used key).2 (.inl hk)

end Runs

end Detta
