import Detta.Safety.Authority
import Detta.Safety.Sums

/-!
# Transfers of native tokens

A transfer that its payer can afford, and may make, is committed, and moves what it says, unless
it moves something from an account to the same account: the balance of the receiver is read
before the payer pays, so it would grow by the amount, and the check of the supply refuses it.

* `Standing`: in every state of a chain, tokens export their methods, and allowances are ones of
  their spenders.
* `tokenInvariantsHold_move`: which movements pass the check of the supply.
-/

namespace Detta

open Kernel DeTTaState

/-! ## Movements -/

section Movements

variable {s s' : DeTTaState} {token : ContractId} {payer receiver : Principal} {asset : AssetId}
  {amount : Amount}

namespace Ledger

variable {l : Ledger} {key : StateKey}

/-- The sum changes by what one entry changes. -/
theorem sum_put (hk : l.isEntry key = true) (value : Amount) :
    l.sum (s.put key value) + (s.uintAt key).val = l.sum s + value.val := by
  have hold : (s.uintAt key).val =
      (s.storage[key]?.map fun value : StateValue => value.asUint.val).getD 0 := by
    unfold DeTTaState.uintAt
    cases s.storage[key]? <;> rfl
  rw [hold]
  exact Table.sumWhere_insert _ _ _ hk _

theorem uintAt_le_sum (hk : l.isEntry key = true) : (s.uintAt key).val ≤ l.sum s := by
  have h := sum_put (s := s) hk 0
  have hzero : (0 : Amount).val = 0 := rfl
  omega

end Ledger

theorem Ledger.Balanced.of_storage {l : Ledger} (h : l.Balanced s)
    (hs : s'.storage = s.storage) : l.Balanced s' := by
  rw [Ledger.Balanced, Ledger.sum, DeTTaState.uintAt, hs]
  exact h

theorem isEntry_balance (token : ContractId) (owner : Principal) (asset : AssetId) :
    (Ledger.balances token asset).isEntry (.balance token owner asset) = true := by
  simp [Ledger.isEntry, StateKey.isBalanceOf]

/-- What the payer can afford, the receiver can hold. -/
theorem exists_move (hb : (Ledger.balances token asset).Balanced s)
    (hle : amount ≤ s.uintAt (.balance token payer asset)) (hne : payer ≠ receiver ∨ amount = 0) :
    ∃ s', s.move token payer receiver asset amount = some s' := by
  have hfits : (s.uintAt (.balance token receiver asset)).val + amount.val < 2 ^ 128 := by
    rcases hne with hne | rfl
    · -- without what is paid, the balances still sum up to what the receiver has at least
      have hpaid := Ledger.sum_put (s := s) (isEntry_balance token payer asset)
        ((s.uintAt (.balance token payer asset)).saturatingSub amount)
      have hrest := Ledger.uintAt_le_sum (s := s.put (.balance token payer asset)
        ((s.uintAt (.balance token payer asset)).saturatingSub amount))
        (isEntry_balance token receiver asset)
      rw [uintAt_put_of_ne _ _ (by simpa using hne)] at hrest
      have hsupply : (Ledger.balances token asset).sum s < 2 ^ 128 :=
        hb ▸ (s.uintAt (Ledger.balances token asset).total).isLt
      rw [Word.le_def] at hle
      rw [Word.val_saturatingSub] at hpaid
      omega
    · simpa using (s.uintAt (.balance token receiver asset)).isLt
  obtain ⟨received, hr⟩ : ∃ received, (s.uintAt (.balance token receiver asset)).checkedAdd amount =
      some received := ⟨⟨_, hfits⟩, Word.checkedAdd_eq_some.2 rfl⟩
  exact ⟨_, move_eq_some.2 ⟨hle, received, hr, rfl⟩⟩

/-- The check of the supply refuses what an account pays to itself. -/
theorem tokenInvariantsHold_move (hb : (Ledger.balances token asset).Balanced s)
    (hm : s.move token payer receiver asset amount = some s') :
    s'.tokenInvariantsHold token asset = true ↔ payer ≠ receiver ∨ amount = 0 := by
  obtain ⟨hle, received, hr, rfl⟩ := move_eq_some.1 hm
  have hreceived := Word.checkedAdd_eq_some.1 hr
  rw [Word.le_def] at hle
  have hpaid := Ledger.sum_put (s := s) (isEntry_balance token payer asset)
    ((s.uintAt (.balance token payer asset)).saturatingSub amount)
  have hgiven := Ledger.sum_put (s := s.put (.balance token payer asset)
    ((s.uintAt (.balance token payer asset)).saturatingSub amount))
    (isEntry_balance token receiver asset) received
  rw [Word.val_saturatingSub] at hpaid
  have hsum : (Ledger.balances token asset).sum s = (s.uintAt (.totalSupply token asset)).val := hb
  refine (Ledger.sumMatches_iff (l := .balances token asset)).trans ?_
  simp only [Ledger.Balanced, Ledger.total, uintAt_put, reduceCtorEq, if_false, ← hsum]
  by_cases hne : payer = receiver
  · subst hne
    rw [uintAt_put_self, Word.val_saturatingSub] at hgiven
    have hzero : amount = 0 ↔ amount.val = 0 := ⟨fun h => h ▸ rfl, fun h => Word.ext h⟩
    simp only [ne_eq, not_true_eq_false, false_or, hzero]
    omega
  · rw [uintAt_put_of_ne _ _ (by simpa using hne)] at hgiven
    simp only [ne_eq, hne, not_false_eq_true, true_or, iff_true]
    omega

end Movements

/-! ## Rights -/

/-- Native contracts export the methods of their kinds, and allowances are limited rights of their
    spenders. -/
structure DeTTaState.Standing (s : DeTTaState) : Prop where
  exports : ∀ {contract : ContractId} {record : ContractRecord},
    s.contracts[contract]? = some record → record.Exports
  allowances : ∀ {contract : ContractId} {owner spender : Principal} {asset : AssetId} {g : Grant},
    s.registry[GrantKey.allowance contract owner spender asset]? = some g →
      g.subject = spender ∧ g.rights.contains .spendAllowance = true ∧ g.limit.isSome = true

section Standing

variable {s s' : DeTTaState} {f : Frame}

theorem ContractRecord.Exports.governed {old new : ContractRecord} (h : old.Exports)
    (hk : new.kind = old.kind) (he : new.exportedMethods = old.exportedMethods)
    (ha : old.KeepsAuthority new) : new.Exports := by
  intro hnative method hoffers
  rw [hk] at hnative hoffers
  obtain ⟨hexported, policy, hpolicy, hauthority⟩ := h hnative method hoffers
  obtain ⟨policy', hpolicy', hsame⟩ := ha method policy hpolicy
  exact ⟨he ▸ hexported, policy', hpolicy', hsame.trans hauthority⟩

namespace DeTTaState.Standing

theorem withContract (h : s.Standing) {contract : ContractId} {record : ContractRecord}
    (hx : record.Exports) : (s.withContract contract record).Standing where
  exports {c r} hr := by
    rcases Table.of_getElem?_insert hr with ⟨-, rfl⟩ | hr
    · exact hx
    · exact h.exports hr
  allowances := h.allowances

theorem grant (h : s.Standing) {key : GrantKey} {g : Grant}
    (hg : ∀ contract owner spender asset, key = .allowance contract owner spender asset →
      g.subject = spender ∧ g.rights.contains .spendAllowance = true ∧ g.limit.isSome = true) :
    (s.grant key g).Standing where
  exports := h.exports
  allowances {contract owner spender asset g'} hg' := by
    rcases Table.of_getElem?_insert hg' with ⟨he, rfl⟩ | hg'
    · exact hg _ _ _ _ he
    · exact h.allowances hg'

/-- A new allowance. -/
theorem allow (h : s.Standing) (contract : ContractId) (owner spender : Principal)
    (asset : AssetId) (amount : Amount) :
    (s.grant (.allowance contract owner spender asset)
      (Grant.allowance owner spender amount)).Standing := by
  refine h.grant fun _ _ _ _ he => ?_
  cases he
  exact ⟨rfl, by simp [Grant.allowance], rfl⟩

theorem puts (h : s.Standing) (entries : List (StateKey × Amount)) :
    (s.puts entries).Standing := by
  rw [puts_eq]
  exact ⟨h.exports, h.allowances⟩

end DeTTaState.Standing

theorem OwnStep.standing (h : OwnStep f s s') (hs : s.Standing) : s'.Standing := by
  cases h with
  | tokens ha =>
    obtain ⟨_, rfl⟩ := ha.onlyStorage
    exact ⟨hs.exports, hs.allowances⟩
  | approve | permit => exact hs.allow _ _ _ _ _
  | consume _ hg =>
    refine hs.grant fun _ _ _ _ he => ?_
    cases he
    have hold := hs.allowances hg
    exact hold
  | accountKey | admin => exact hs.grant nofun
  | govern ho hk he _ _ ha => exact hs.withContract ((hs.exports ho).governed hk he ha)
  | deploy _ _ _ _ hp => exact (hs.withContract hp.exports).puts _
  | _ => exact ⟨hs.exports, hs.allowances⟩

theorem chainInvariant_standing (env : Env) : ChainInvariant env DeTTaState.Standing := by
  refine .of_steps (fun _ _ h => ⟨h.exports, h.allowances⟩)
    (fun _ => ⟨by simp [DeTTaState.new], by simp [DeTTaState.new]⟩) (fun hs hd => ?_)
    (fun _ _ h => ⟨h.exports, h.allowances⟩) fun _ _ hs hstep => hstep.standing hs
  cases hd with
  | contract _ _ hp => exact (hs.withContract hp.exports).puts _
  | oracleUpdater | governanceAdmin | accountSigner => exact hs.grant fun _ _ _ _ he => by cases he
  | _ => exact ⟨hs.exports, hs.allowances⟩

end Standing

/-! ## Calls -/

/-- The transaction passes the checks that are made before its call. -/
structure Transaction.Admitted (tx : Transaction) (s : DeTTaState) : Prop where
  rejection : Detta.rejection s tx = none
  budget : transactionResourceUnits tx ≤ tx.budget

section Calls

variable (env : Env) {s : DeTTaState} {tx : Transaction}

/-- The call of a contract that is deployed, exports the method, and is not paused runs the
    method. -/
theorem wp_executeCall_of_exports {n : ℕ} {record : ContractRecord} {policy : MethodPolicy}
    {Q : ReturnValue → Machine → Prop} {E : ExecutionError → Machine → Prop} {m : Machine}
    (hfree : m.context.activeNonreentrantContracts.contains tx.target = false)
    (hr : m.state.contracts[tx.target]? = some record)
    (hx : record.exportedMethods.contains tx.method = true)
    (hp : record.methodPolicies[tx.method]? = some policy)
    (ha : enforceMethodAuthority tx tx.sender policy = pure ())
    (hpaused : m.state.pausedContracts.contains tx.target = false) :
    wp (executeCall env (n + 1) tx tx.sender) Q E m ↔
      wp (kindMethod env (executeCall env n) tx tx.sender record.kind)
        (fun value m' => Q value m'.leave) (fun e m' => E e m'.leave) (m.enter tx tx.sender) := by
  have hstate : (m.enter tx tx.sender).state = m.state := rfl
  simp only [executeCall, frameCall, callBody, wp_bind, wp_get, wp_ensure, wp_modify, wp_andThen,
    wp_read, wp_okOr, hfree, hstate, hr, hx, ha, hpaused, ContractRecord.methodPolicy, hp, wp_pure,
    wp_check, forall_const, not_true_eq_false, IsEmpty.forall_iff, and_true, Option.some.injEq,
    forall_eq', reduceCtorEq, Bool.not_false]

variable {env}

/-- A transaction that is admitted is committed if its call returns. -/
theorem Transaction.Admitted.commits (h : tx.Admitted s) {P : DeTTaState → Prop}
    (hrun : wp (executeCall env (callDepth (s.useNonce tx)) tx tx.sender) (fun _ m => P m.state)
      (fun _ _ => False) ⟨s.useNonce tx, CallContext.new tx.sender, CallLog.empty⟩) :
    Commits env s tx ∧ P (applyTransaction env s tx).1 := by
  have hbudget : ¬tx.budget < transactionResourceUnits tx := Nat.not_lt.2 h.budget
  unfold Commits applyTransaction
  rw [h.rejection]
  simp only [if_neg hbudget, runTransaction]
  unfold wp at hrun
  split at hrun
  next value m hm =>
    rw [hm]
    exact ⟨rfl, hrun⟩
  next => exact hrun.elim

end Calls

/-! ## Transfers -/

/-- The transaction asks a token to move an amount: the sender pays, or an account that allows the
    sender to spend as much. -/
inductive Transaction.Transfers (tx : Transaction) (s : DeTTaState) (payer receiver : Principal)
    (asset : AssetId) (amount : Amount) : Prop where
  | direct (hm : tx.method = .transfer) (hs : tx.sender = payer)
      (ha : tx.args = [.principal receiver, .asset asset, .amount amount])
  | allowed {g : Grant} (hm : tx.method = .transferFrom)
      (ha : tx.args = [.principal payer, .principal receiver, .asset asset, .amount amount])
      (hg : s.registry[GrantKey.allowance tx.target payer tx.sender asset]? = some g)
      (hactive : g.active = true) (hrevoked : g.revoked = false) (hle : amount ≤ g.remaining)

/-- An amount has moved between two accounts, and nothing else in the storage has changed. -/
structure DeTTaState.Transferred (s s' : DeTTaState) (token : ContractId)
    (payer receiver : Principal) (asset : AssetId) (amount : Amount) : Prop where
  paid : payer ≠ receiver →
    s'.held token payer asset + amount.val = s.held token payer asset ∧
      s'.held token receiver asset = s.held token receiver asset + amount.val
  same : payer = receiver → ∀ key, s'.uintAt key = s.uintAt key
  others : ∀ key, key ≠ .balance token payer asset → key ≠ .balance token receiver asset →
    s'.uintAt key = s.uintAt key

section Transfers

variable {env : Env} {s s' : DeTTaState} {tx : Transaction} {payer receiver : Principal}
  {asset : AssetId} {amount : Amount} {m : Machine} {Q : ReturnValue → Machine → Prop}
  {E : ExecutionError → Machine → Prop}

/-- What a method that transfers does once the payer has agreed. -/
def payAndReport (tx : Transaction) (payer receiver : Principal) (asset : AssetId)
    (amount : Amount) : Kernel ReturnValue := do
  transferNativeAssetBalance tx.target payer receiver asset amount
  emit tx.target tx.txHash (.transfer payer receiver asset amount)
  pure .unit

/-- What is left of an allowance can be spent. -/
theorem exists_spent {g : Grant} (hlimit : g.limit.isSome = true) (hle : amount ≤ g.remaining) :
    ∃ spent, g.spent.checkedAdd amount = some spent := by
  obtain ⟨limit, hl⟩ := Option.isSome_iff_exists.1 hlimit
  have hremaining : amount.val ≤ limit.val - g.spent.val := by
    rw [Word.le_def, Grant.remaining, hl] at hle
    exact hle
  have hlimit := limit.isLt
  have hspent := g.spent.isLt
  have hfits : g.spent.val + amount.val < 2 ^ 128 := by omega
  exact ⟨⟨_, hfits⟩, Word.checkedAdd_eq_some.2 rfl⟩

theorem wp_consumeAllowance_of_live {g : Grant} {spender : Principal} {spent : Amount}
    {Q : Unit → Machine → Prop}
    (hg : m.state.registry[GrantKey.allowance tx.target payer spender asset]? = some g)
    (hactive : g.active = true) (hrevoked : g.revoked = false) (hsubject : g.subject = spender)
    (hright : g.rights.contains .spendAllowance = true) (hle : amount ≤ g.remaining)
    (hspent : g.spent.checkedAdd amount = some spent) :
    wp (consumeAllowance tx.target payer spender asset amount) Q E m ↔
      Q () (m.withState (m.state.grant (.allowance tx.target payer spender asset)
        { g with spent := spent })) := by
  simp only [consumeAllowance, Kernel.checkedAdd, wp_bind, wp_read, wp_okOr, wp_ensure, wp_write,
    hg, hactive, hrevoked, hsubject, hright, hle, hspent, Option.some.injEq, forall_eq',
    reduceCtorEq, forall_const, not_true_eq_false, IsEmpty.forall_iff, and_true]

/-- A transfer is a movement, maybe after a part of an allowance is spent. -/
theorem Transaction.Transfers.wp_kindMethod (h : tx.Transfers m.state payer receiver asset amount)
    (hs : m.state.Standing) (env : Env) (call : ContractCall) :
    ∃ registry, wp (kindMethod env call tx tx.sender .token) Q E m ↔
      wp (payAndReport tx payer receiver asset amount) Q E
        (m.withState { m.state with registry := registry }) := by
  cases h with
  | direct hm hsender ha =>
    subst hsender
    refine ⟨m.state.registry, ?_⟩
    simp only [kindMethod, tokenMethod, hm, transfer, ha]
    rfl
  | @allowed g hm ha hg hactive hrevoked hle =>
    obtain ⟨hsubject, hright, hlimit⟩ := hs.allowances hg
    obtain ⟨spent, hspent⟩ := exists_spent hlimit hle
    refine ⟨(m.state.grant (.allowance tx.target payer tx.sender asset)
      { g with spent := spent }).registry, ?_⟩
    have hmethod : kindMethod env call tx tx.sender .token =
        (do consumeAllowance tx.target payer tx.sender asset amount
            payAndReport tx payer receiver asset amount) := by
      simp only [kindMethod, tokenMethod, hm, transferFrom, ha]
      rfl
    rw [hmethod, wp_bind,
      wp_consumeAllowance_of_live hg hactive hrevoked hsubject hright hle hspent]
    rfl

/-- A movement that passes the check of the supply. -/
theorem wp_payAndReport_of_move
    (hm : m.state.move tx.target payer receiver asset amount = some s')
    (hi : s'.tokenInvariantsHold tx.target asset = true)
    (hQ : ∀ events, Q .unit (m.withState { s' with events := events })) :
    wp (payAndReport tx payer receiver asset amount) Q E m := by
  obtain ⟨hle, received, hr, rfl⟩ := move_eq_some.1 hm
  simp only [payAndReport, transferNativeAssetBalance, wp_bind, wp_uintAt, wp_ensure,
    Kernel.checkedAdd, wp_okOr, hle, hr, Option.some.injEq, forall_eq', forall_const,
    not_true_eq_false, IsEmpty.forall_iff, and_true, reduceCtorEq]
  rw [wp_stateSet rfl (writeScopeContains_ofList (by simp)), wp_bind,
    wp_stateSet rfl (writeScopeContains_ofList (by simp)), wp_check]
  exact ⟨fun _ => hQ _, fun hn => absurd hi (Bool.eq_false_iff.1 hn)⟩

/-- A movement that does not pass the check of the supply fails. -/
theorem wp_payAndReport_of_not (hi : ∀ s',
      m.state.move tx.target payer receiver asset amount = some s' →
      s'.tokenInvariantsHold tx.target asset ≠ true) :
    wp (payAndReport tx payer receiver asset amount) Q (fun _ _ => True) m :=
  wp_bind.2 (wp_transferNativeAssetBalance (fun s' hm hs => absurd hs (hi s' hm))
    (fun _ _ => trivial) fun _ => trivial)

theorem DeTTaState.Transferred.of_move {s₁ s₂ : DeTTaState} {token : ContractId}
    (hm : s₁.move token payer receiver asset amount = some s₂) (hs : s₁.storage = s.storage)
    (hs' : s'.storage = s₂.storage) (hne : payer ≠ receiver ∨ amount = 0) :
    s.Transferred s' token payer receiver asset amount := by
  have hu₁ (key : StateKey) : s₁.uintAt key = s.uintAt key := by rw [uintAt, uintAt, hs]
  have hu₂ (key : StateKey) : s'.uintAt key = s₂.uintAt key := by rw [uintAt, uintAt, hs']
  refine ⟨fun hne' => ?_, fun he key => ?_, fun key hp hrecv => ?_⟩
  · have hpayer := held_of_move hm hne' token payer asset
    have hreceiver := held_of_move hm hne' token receiver asset
    simp only [held, hu₁, hu₂, true_and, and_true, if_true, hne', hne'.symm, if_false,
      Nat.add_zero] at hpayer hreceiver ⊢
    exact ⟨hpayer, hreceiver⟩
  · -- nothing is paid
    obtain rfl : amount = 0 := hne.resolve_left fun h => h he
    subst he
    obtain ⟨-, received, hr, rfl⟩ := move_eq_some.1 hm
    have hreceived := Word.checkedAdd_eq_some.1 hr
    rw [hu₂, uintAt_put]
    split
    next hkey =>
      subst hkey
      refine Word.ext ?_
      rw [hreceived, hu₁]
      simp
    next hkey => rw [uintAt_put_of_ne _ _ hkey, hu₁]
  · obtain ⟨-, received, hr, rfl⟩ := move_eq_some.1 hm
    rw [hu₂, uintAt_put_of_ne _ _ hrecv.symm, uintAt_put_of_ne _ _ hp.symm, hu₁]

/-- The method of a token that transfers has no authority to check. -/
theorem Transaction.Transfers.enforceMethodAuthority
    (h : tx.Transfers s payer receiver asset amount) {policy : MethodPolicy}
    (hp : policy.authority = tx.method.authority) :
    Kernel.enforceMethodAuthority tx tx.sender policy = pure () := by
  have hauthority : policy.authority = .txSender ∨ policy.authority = .liveAllowanceGrant := by
    rw [hp]
    cases h with
    | direct hm => exact .inl (hm ▸ rfl)
    | allowed hm => exact .inr (hm ▸ rfl)
  unfold Kernel.enforceMethodAuthority
  rcases hauthority with ha | ha <;> rw [ha]

/-- The call of a transaction that transfers is a movement. -/
theorem Transaction.Transfers.wp_executeCall (h : tx.Transfers s payer receiver asset amount)
    (env : Env) (hs : s.Standing) (htoken : s.IsToken tx.target)
    (hpaused : s.pausedContracts.contains tx.target = false) :
    ∃ m : Machine, m.state.storage = s.storage ∧
      (wp (executeCall env (callDepth (s.useNonce tx)) tx tx.sender) Q E
          ⟨s.useNonce tx, CallContext.new tx.sender, CallLog.empty⟩ ↔
        wp (payAndReport tx payer receiver asset amount) (fun value m' => Q value m'.leave)
          (fun e m' => E e m'.leave) m) := by
  obtain ⟨record, hr, hk⟩ := Option.map_eq_some_iff.1 htoken
  have hoffers : record.kind.offers tx.method = true := by
    rw [hk]
    cases h with
    | direct hm => exact hm ▸ rfl
    | allowed hm => exact hm ▸ rfl
  obtain ⟨hx, policy, hp, hauthority⟩ := hs.exports hr (hk ▸ rfl) tx.method hoffers
  let m₀ : Machine := ⟨s.useNonce tx, CallContext.new tx.sender, CallLog.empty⟩
  have h' : tx.Transfers (m₀.enter tx tx.sender).state payer receiver asset amount := by
    cases h with
    | direct hm hsender ha => exact .direct hm hsender ha
    | allowed hm ha hg hactive hrevoked hle => exact .allowed hm ha hg hactive hrevoked hle
  obtain ⟨registry, hiff⟩ := h'.wp_kindMethod ⟨hs.exports, hs.allowances⟩ env
    (executeCall env (2 * (s.useNonce tx).contracts.size + 3))
  refine ⟨(m₀.enter tx tx.sender).withState { s.useNonce tx with registry := registry }, rfl, ?_⟩
  have hcall := wp_executeCall_of_exports env (m := m₀) (Q := Q) (E := E)
    (n := 2 * (s.useNonce tx).contracts.size + 3) rfl hr hx hp (h.enforceMethodAuthority hauthority)
    hpaused
  rw [hk] at hcall
  exact hcall.trans hiff

theorem native_transfer_iff (hr : Reachable env s) (htoken : s.IsToken tx.target)
    (hpaused : s.pausedContracts.contains tx.target = false) (hadmitted : tx.Admitted s)
    (h : tx.Transfers s payer receiver asset amount)
    (hle : amount ≤ s.uintAt (.balance tx.target payer asset)) :
    (Commits env s tx ∧
      s.Transferred (applyTransaction env s tx).1 tx.target payer receiver asset amount) ↔
      payer ≠ receiver ∨ amount = 0 := by
  have hs := (chainInvariant_standing env).reachable hr
  have hb := ((chainInvariant_balanced env).reachable hr).2 (.balances tx.target asset)
  constructor
  · rintro ⟨hc, -⟩
    by_contra hself
    obtain ⟨m, hm, hiff⟩ := h.wp_executeCall env (Q := fun _ _ => False)
      (E := fun _ _ => True) hs htoken hpaused
    have hrun := hiff.2 (wp_payAndReport_of_not fun s' hmove hi =>
      hself ((tokenInvariantsHold_move (hb.of_storage hm) hmove).1 hi))
    obtain ⟨-, hfalse, -⟩ := of_commits hc hrun
    exact hfalse
  · intro hne
    obtain ⟨m, hm, hiff⟩ := h.wp_executeCall env (E := fun _ _ => False)
      (Q := fun _ m' => s.Transferred m'.state tx.target payer receiver asset amount) hs htoken
      hpaused
    have hle' : amount ≤ m.state.uintAt (.balance tx.target payer asset) := by
      rwa [DeTTaState.uintAt, hm]
    obtain ⟨s', hmove⟩ := exists_move (hb.of_storage hm) hle' hne
    refine hadmitted.commits
      (P := fun s' => s.Transferred s' tx.target payer receiver asset amount)
      (hiff.2 (wp_payAndReport_of_move hmove
        ((tokenInvariantsHold_move (hb.of_storage hm) hmove).2 hne) fun _ => ?_))
    exact .of_move hmove hm rfl hne

end Transfers

/-! ## A payment, and one to oneself -/

namespace Proxy

/-- `alice` transfers something to herself. -/
def transferToSelf : Transaction :=
  call "alice" "t" .transfer [.principal "alice", .asset "A", .amount 10]

theorem evaluated_transfers :
    state.IsToken "t" ∧ state.pausedContracts.contains "t" = false ∧
      state.uintAt (.balance "t" "alice" "A") = 100 ∧ rejection state transfer = none ∧
      rejection state transferToSelf = none ∧ ¬Commits env state transferToSelf := by
  unfold DeTTaState.IsToken
  decide

theorem transfers_transfer : transfer.Transfers state "alice" "bob" "A" 10 := .direct rfl rfl rfl

theorem transfers_transferToSelf : transferToSelf.Transfers state "alice" "alice" "A" 10 :=
  .direct rfl rfl rfl

end Proxy

open Proxy

theorem native_transfer_iff_transfer :
    Commits env state Proxy.transfer ∧
      state.Transferred (applyTransaction env state Proxy.transfer).1 "t"
        "alice" "bob" "A" 10 := by
  obtain ⟨htoken, hpaused, hbalance, hpass, -⟩ := evaluated_transfers
  refine (native_transfer_iff reachable_state htoken hpaused ⟨hpass, by decide⟩
    transfers_transfer ?_).2 (.inl (by decide))
  exact hbalance ▸ by decide

/-- A transfer to oneself fails, although the payer can afford it. -/
theorem self_transfer_reverts :
    Reachable env state ∧ state.IsToken "t" ∧
      state.pausedContracts.contains "t" = false ∧
      transferToSelf.Admitted state ∧
      transferToSelf.Transfers state "alice" "alice" "A" 10 ∧
      (10 : Amount) ≤ state.uintAt (.balance "t" "alice" "A") ∧
      ¬Commits env state transferToSelf := by
  obtain ⟨htoken, hpaused, hbalance, -, hpass, hfails⟩ := evaluated_transfers
  exact ⟨reachable_state, htoken, hpaused, ⟨hpass, by decide⟩,
    transfers_transferToSelf, hbalance ▸ by decide, hfails⟩

end Detta
