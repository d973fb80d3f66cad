import Detta.Safety.Silent

/-!
# No theft

What a principal who sends nothing is safe from: that others may spend more, that others
take anything from one who has allowed nothing, and that others take anything by a router
that is allowed to; and what breaks each of these.
-/

namespace Detta

open Kernel Proxy

variable {env : Env} {s : DeTTaState} {o : Principal}

/-! ## Allowances -/

/-- Somebody else approves a spender. -/
def Proxy.approve : Transaction :=
  call "mallory" "t" .approve [.principal "bob", .asset "A", .amount 10]

set_option maxRecDepth 4000 in
/-- What an approval of somebody else does. -/
theorem Proxy.approve_evaluated :
    Commits Proxy.env state Proxy.approve ∧
      (∀ r ∈ callFrames Proxy.env state Proxy.approve, r.frame.tx.method ≠ .permit) ∧
      (applyTransaction Proxy.env state Proxy.approve).1.contracts.contains "alice" = false ∧
      state.registry.isEmpty = true ∧
      (∀ p ∈ appliedTransactions Proxy.env state [Proxy.approve],
        ∀ r ∈ callFrames Proxy.env p.1 p.2, r.frame.tx.method ≠ .permit) ∧
      (applyTransactions Proxy.env state [Proxy.approve]).1.contracts.contains "alice" =
        false := by
  decide

/-- A permit of `alice`, that anybody can write. -/
def Proxy.permit : Transaction :=
  call "mallory" "t" .permit [.principal "alice", .principal "mallory", .asset "A",
    .amount 100, .certificate "permit:c:t:alice:mallory:A:100:n"]

/-- The spendings of a transaction in whose frames nothing of `o` can be spent. -/
theorem not_takes_of_spendable_eq_zero {tx : Transaction}
    (h0 : ∀ token spender asset, s.spendable token o spender asset = 0) {f : Frame}
    (hs : Since o (s.useNonce tx) f.start) : ¬f.Takes o := by
  rintro ⟨-, -, asset, hpos⟩
  have hle : f.start.spendable f.tx.target o f.msgSender asset ≤
      s.spendable f.tx.target o f.msgSender asset := hs.spendable ..
  have := h0 f.tx.target f.msgSender asset
  omega

/-- Contracts are never removed by transactions. -/
theorem contains_applyTransactions {contract : ContractId} {txs : List Transaction}
    (h : s.contracts.contains contract = true) :
    (applyTransactions env s txs).1.contracts.contains contract = true :=
  applyTransactions_keeps (P := fun s => s.contracts.contains contract = true) h
    fun _ _ h' => contains_applyTransaction h'

/-- What an account holds of which nobody may spend anything is kept by each transaction,
    and so by all of them. -/
theorem held_le_applyTransactions {txs : List Transaction} (hs : Owned s)
    (h0 : ∀ token spender asset, s.spendable token o spender asset = 0)
    (ho : ∀ tx ∈ txs, tx.sender ≠ o)
    (hp : ∀ p ∈ appliedTransactions env s txs, Commits env p.1 p.2 →
      ∀ r ∈ callFrames env p.1 p.2, ¬r.frame.Permits o)
    (hn : (applyTransactions env s txs).1.contracts.contains o = false) (token : ContractId)
    (asset : AssetId) :
    s.held token o asset ≤ (applyTransactions env s txs).1.held token o asset := by
  induction txs generalizing s with
  | nil => exact le_refl _
  | cons tx txs ih =>
    have hsender := ho tx List.mem_cons_self
    have hpermit := hp (s, tx) List.mem_cons_self
    have hnext : (applyTransaction env s tx).1.contracts.contains o = false := by
      by_contra hc
      have hnext := Bool.eq_true_of_not_eq_false hc
      rw [applyTransactions, contains_applyTransactions hnext] at hn
      cases hn
    refine (applyTransaction_held_le hs hsender hpermit hnext
      (fun _ hsince r hr => not_takes_of_spendable_eq_zero h0 (hsince r hr)) token asset).trans ?_
    refine ih ((chainInvariant_owned env).transaction tx hs) (fun token spender asset => ?_)
      (fun tx' h' => ho tx' (List.mem_cons_of_mem _ h'))
      (fun p h' => hp p (List.mem_cons_of_mem _ h')) hn
    have hle := applyTransaction_spendable_le hs hsender hpermit hnext token spender asset
    have := h0 token spender asset
    omega

/-- In every state of a chain: if `o` has no live allowance, and transactions of others
    follow, of which none commits a permit, then `o` has lost nothing in the end, if no
    contract with the identifier `o` has come to be. -/
theorem held_le_of_no_allowance (hr : Reachable env s)
    (hg : ∀ token spender asset g, s.registry[GrantKey.allowance token o spender asset]? = some g →
      ¬(g.active = true ∧ g.revoked = false))
    (txs : List Transaction) (ho : ∀ tx ∈ txs, tx.sender ≠ o)
    (hp : ∀ p ∈ appliedTransactions env s txs, Commits env p.1 p.2 →
      ∀ r ∈ callFrames env p.1 p.2, r.frame.tx.method ≠ .permit)
    (hn : (applyTransactions env s txs).1.contracts.contains o = false) (token : ContractId)
    (asset : AssetId) :
    s.held token o asset ≤ (applyTransactions env s txs).1.held token o asset := by
  refine held_le_applyTransactions hr.owned (fun token spender asset => ?_) ho
    (fun p hmem hc r hmem' hpermit => hp p hmem hc r hmem' hpermit.1) hn token asset
  unfold DeTTaState.spendable
  cases hk : s.registry[GrantKey.allowance token o spender asset]? with
  | none => rfl
  | some g => simp [Grant.spendable, hg token spender asset g hk]

/-- Nothing is granted in the state of the proxy. -/
theorem Proxy.registry_state (key : GrantKey) : state.registry[key]? = none := by
  obtain ⟨-, -, -, h, -⟩ := approve_evaluated
  rw [Std.ExtTreeMap.isEmpty_iff] at h
  rw [h, Std.ExtTreeMap.getElem?_empty]

/-- `alice` loses nothing by an approval of somebody else. -/
theorem held_le_of_approve :
    Commits Proxy.env state Proxy.approve ∧
      state.held "t" "alice" "A" ≤
        (applyTransactions Proxy.env state [Proxy.approve]).1.held "t" "alice" "A" :=
  ⟨approve_evaluated.1,
    held_le_of_no_allowance reachable_state
      (fun _ _ _ g hg => by simp [registry_state] at hg) [Proxy.approve] (by decide)
      (fun p hp _ => approve_evaluated.2.2.2.2.1 p hp)
      approve_evaluated.2.2.2.2.2 "t" "A"⟩

/-- Somebody deploys a contract with the identifier `alice`, and has it pay what `alice` has. -/
def Proxy.impersonation : List Transaction :=
  [call "mallory" "f" .deployAspectContract [.text "alice", .text "00", .text "P"],
    { call "mallory" "alice" (.other "pay")
        [.principal "t", .principal "mallory", .asset "A", .amount 100] with nonce := 1 }]

set_option maxRecDepth 4000 in
/-- Who deploys a contract with the identifier `alice` takes all that `alice` has. -/
theorem impersonation_takes_all :
    Reachable Proxy.env state ∧ state.contracts.contains "alice" = false ∧
      (∀ key : GrantKey, state.registry[key]? = none) ∧
      (∀ tx ∈ impersonation, tx.sender ≠ "alice") ∧
      (∀ p ∈ appliedTransactions Proxy.env state impersonation,
        ∀ r ∈ callFrames Proxy.env p.1 p.2, r.frame.tx.method ≠ .permit) ∧
      state.held "t" "alice" "A" = 100 ∧
      (applyTransactions Proxy.env state impersonation).1.held "t" "alice" "A" = 0 := by
  have hrun : state.contracts.contains "alice" = false ∧
      (∀ p ∈ appliedTransactions Proxy.env state impersonation,
        ∀ r ∈ callFrames Proxy.env p.1 p.2, r.frame.tx.method ≠ .permit) ∧
      state.held "t" "alice" "A" = 100 ∧
      (applyTransactions Proxy.env state impersonation).1.held "t" "alice" "A" = 0 := by
    decide
  exact ⟨reachable_state, hrun.1, registry_state, by decide, hrun.2⟩

/-! ## Routers -/

/-- Who spends by `transferFrom` is the sender, or a contract: a router, for an owner whom its
    own call names, or an aspect contract. -/
theorem Stack.spender {outer : Transaction} {f : Frame} {callers : List Frame}
    (h : Stack outer (f :: callers)) (hm : f.tx.method = .transferFrom) :
    f.msgSender = outer.sender ∨ ∃ c ∈ callers, c.Live ∧ f.msgSender = c.tx.target ∧
      ((c.tx.method = .routeTransferFrom ∧ f.tx.args = c.tx.args) ∨
        ∃ projection, c.tx.method = .other projection) := by
  cases h with
  | cons h hcall =>
    cases callers with
    | nil => exact .inl hcall.2
    | cons c callers =>
      refine .inr ⟨c, List.mem_cons_self, hcall.1, ?_⟩
      cases hcall.2 with
      | route token hm' => exact ⟨rfl, .inl ⟨hm', rfl⟩⟩
      | host projection _ hm' => exact ⟨rfl, .inr ⟨projection, hm'⟩⟩
      | settle | setUp => cases hm

namespace Proxy

/-- A router of the token, which `alice` allows to spend something. -/
def routed : DeTTaState :=
  runOps Proxy.env state [.deploy (.router "r" "t"),
    .transaction (call "alice" "t" .approve [.principal "r", .asset "A", .amount 50])]

/-- Somebody asks the router for tokens of `alice`. -/
def route : Transaction :=
  call "mallory" "r" .routeTransferFrom
    [.principal "alice", .principal "mallory", .asset "A", .amount 50]

end Proxy

end Detta
