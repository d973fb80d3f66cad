import Detta.Safety.Authority
import Detta.Safety.Orderly

/-!
# Custody in runs of native contracts

In a run in which only native contracts are deployed, no permit is given and no sender
is a contract, what contracts owe stays covered by what they hold.

The calls of such a run are shallow: a transaction calls one contract, or a router that
calls a token. So a method that moves the assets of its contract is called by the
sender, and makes no calls: its start and its end are compared
(`Detta.Safety.Settlement`). All other methods are solvent step by step
(`Detta.Safety.Orderly`).
-/

namespace Detta

open Kernel

variable {C : ContractId → Prop} {s s' : DeTTaState}

/-! ## Calls -/

section Calls

variable {env : Env} {outer : Transaction} {f g : Frame} {frames : List Frame} {m : Machine}

/-- The outermost frame is that of the transaction. -/
theorem Running.outermost (h : Running outer [f] m) :
    f.tx = outer ∧ f.msgSender = outer.sender := by
  cases h.calls with
  | cons _ hc => exact hc

/-- Among native contracts, only routers call, and only tokens. -/
theorem Running.routed (h : Running outer (f :: g :: frames) m) (hn : m.state.NativeOnly) :
    g.tx.method = .routeTransferFrom ∧ f.tx.method = .transferFrom := by
  have hstart := h.grows f List.mem_cons_self
  have hcaller := h.grows g (List.mem_cons_of_mem _ List.mem_cons_self)
  have hnative : ∀ {contract : ContractId} {record : ContractRecord},
      f.start.contracts[contract]? = some record → record.kind.isAspectModule = false := by
    intro contract record hr
    obtain ⟨record', hr', hk, -⟩ := hstart.contracts hr
    exact hk ▸ hn _ _ hr'
  cases h.calls with
  | cons _ hc =>
    obtain ⟨hlive, hspawns⟩ := hc
    cases hspawns with
    | settle _ _ _ _ hr hk | setUp _ _ hr hk =>
      rw [hnative hr] at hk
      cases hk
    | route _ hm => exact ⟨hm, rfl⟩
    | host projection _ hm => exact absurd hm (hlive.method_ne_other hcaller hn projection)

/-- Among native contracts, a call is that of the transaction, or a transfer on behalf
    of an owner. -/
theorem Running.method_of_native (h : Running outer (f :: frames) m) (hn : m.state.NativeOnly) :
    (f.tx = outer ∧ f.msgSender = outer.sender) ∨ f.tx.method = .transferFrom := by
  cases frames with
  | nil => exact .inl h.outermost
  | cons g frames => exact .inr (h.routed hn).2

/-- A method that moves no assets of its contract spends for the sender only. -/
theorem Running.not_spends_contract (h : Running outer (f :: frames) m) (hs : ¬C outer.sender)
    (hn : m.state.NativeOnly) (hc : f.tx.method.custodial = false) {payer : Principal}
    (hp : f.Spends payer) : ¬C payer := by
  cases hp with
  | caller hm =>
    rcases h.method_of_native hn with ⟨-, hsender⟩ | htransfer
    · exact hsender ▸ hs
    · rw [htransfer] at hm
      cases hm
  | self hm =>
    cases hmethod : f.tx.method <;>
      simp [hmethod, Method.custodial, Method.paysOut] at hm hc
  | depositor hm =>
    rw [hm] at hc
    cases hc

/-- Who has allowed to spend is no contract. -/
theorem Orderly.not_owner (h : Orderly C f.start) {token : ContractId} {owner : Principal}
    {asset : AssetId} {amount : Amount} (ha : f.Allowed token owner asset amount) : ¬C owner := by
  obtain ⟨g, hg, -⟩ := ha
  exact h.consent (Table.contains_iff.2 ⟨g, hg⟩)

/-- Of a method that moves the assets of its contract, the start is solvent, and of any
    other method each state is. -/
def Covered : List Frame → DeTTaState → Prop
  | f :: _, s => if f.tx.method.custodial then f.start.Solvent else s.Solvent
  | [], s => s.Solvent

theorem covered_cons : Covered (f :: frames) s ↔
    if f.tx.method.custodial then f.start.Solvent else s.Solvent := Iff.rfl

theorem covered_cons_of_not (hc : f.tx.method.custodial = false) :
    Covered (f :: frames) s ↔ s.Solvent := by
  rw [covered_cons, hc, if_neg (by simp)]

/-- A method that moves the assets of its contract is solvent at its end. -/
theorem Custodian.leads {tx : Transaction} {msgSender : Principal} {kind : ContractKind}
    (h : Custodian C tx msgSender kind m.state) (hc : tx.method.custodial = true)
    (call : ContractCall) :
    Leads DeTTaState.Solvent (kindMethod env call tx msgSender kind) m := by
  cases kind with
  | ammPool =>
    rw [kindMethod, ammPoolMethod]
    split
    next => exact solvent_addLiquidity call h
    next => exact solvent_swap call h
    next => trivial
  | bridge =>
    rw [kindMethod, bridgeMethod]
    split
    next => exact solvent_queueBridgeMessage call h
    next hm =>
      rw [hm] at hc
      cases hc
    next => trivial
  | lendingVault collateralAsset debtAsset oracleContract ltvBps maxOracleAge interest threshold =>
    have h' : Custodian C tx msgSender (LendingConfig.kind ⟨collateralAsset, debtAsset,
      oracleContract, ltvBps, maxOracleAge, interest, threshold⟩) m.state := h
    rw [kindMethod, lendingVaultMethod]
    split
    next => exact solvent_depositCollateral call h'
    next => exact solvent_borrow call h'
    next => exact solvent_liquidate call h'
    next => trivial
  | staking asset unbondingDelay rewardPerBlock penaltyBps =>
    have h' : Custodian C tx msgSender
      (StakingParameters.kind ⟨unbondingDelay, rewardPerBlock, penaltyBps⟩ asset) m.state := h
    rw [kindMethod, stakingMethod]
    split
    next => exact solvent_stake call h'
    next => exact solvent_unstake call h'
    next => exact solvent_requestUnstake h'
    next => exact solvent_completeUnstake call h'
    next hm =>
      rw [hm] at hc
      cases hc
    next => trivial
  | _ =>
    refine Handles.wp_kindMethod_of_not_offers (f := ⟨tx, msgSender, m.state⟩) env ?_
      fun _ => trivial
    cases hm : tx.method <;> first | rfl | (rw [hm] at hc; cases hc)

theorem Running.custodian (h : Running outer [f] m) (hw : Within C m.state)
    (ho : Orderly C f.start) (hs : ¬C outer.sender) {record : ContractRecord}
    (hr : f.start.contracts[f.tx.target]? = some record) (hsolvent : f.start.Solvent) :
    Custodian C f.tx f.msgSender record.kind f.start := by
  obtain ⟨htx, hsender⟩ := h.outermost
  have hw' := hw.of_grows (h.grows f List.mem_cons_self)
  exact ⟨hw'.native, hw'.contracts, ⟨record, hr, rfl⟩, ho.distinct hr, hsender ▸ hs, htx ▸ hs,
    hsolvent⟩

/-- Along a transaction of an account that is no contract, contracts stay solvent. -/
theorem callInvariant_covered (env : Env) (hs : ¬C outer.sender) (hp : outer.method ≠ .permit) :
    CallInvariant env outer
      (fun _ frames m => Within C m.state →
        Orderly C m.state ∧ (∀ f ∈ frames, Orderly C f.start) ∧ Covered frames m.state)
      fun _ => True where
  enter {_ frames m tx msgSender} hr hI hc ht hw := by
    obtain ⟨ho, hstarts, hcovered⟩ := hI hw
    have hsolvent : m.state.Solvent := by
      cases frames with
      | nil => exact hcovered
      | cons g frames =>
        have hroute := ((hr.enter hc ht).routed hw.native).1
        exact (covered_cons_of_not (by rw [hroute]; rfl)).1 hcovered
    refine ⟨ho, fun f hf => ?_, ?_⟩
    · rcases List.mem_cons.1 hf with rfl | hf
      · exact ho
      · exact hstarts f hf
    · rw [covered_cons]
      split <;> exact hsolvent
  own {_ f frames m s'} hr hlive hI hstep hw := by
    have hw' := hw.of_grows hstep.grows
    obtain ⟨ho, hstarts, hcovered⟩ := hI hw'
    have hg := hr.grows f List.mem_cons_self
    have hmethod := hr.method_of_native hw'.native
    refine ⟨?_, hstarts, ?_⟩
    · refine hstep.orderly ho (hlive.contains hg) (fun hm => ?_) fun hm => ?_
      · rcases hmethod with ⟨-, hsender⟩ | htransfer
        · exact hsender ▸ hs
        · cases hm.symm.trans htransfer
      · rcases hmethod with ⟨htx, -⟩ | htransfer
        · exact hp (htx ▸ hm)
        · cases hm.symm.trans htransfer
    · rw [covered_cons] at hcovered ⊢
      split at hcovered
      next hc => rwa [if_pos hc]
      next hc =>
        rw [if_neg hc]
        replace hc := Bool.eq_false_iff.2 hc
        refine hstep.solvent ho hw' hc (hlive.method_ne_other hg hw'.native) (fun hpays => ?_)
          hcovered
        cases hpays with
        | spends h => exact hr.not_spends_contract hs hw'.native hc h
        | allowed _ _ _ _ h => exact (hstarts f List.mem_cons_self).not_owner h
  attempt _ _ _ _ := trivial
  leave {_ f frames m} hr hreturns hI hw := by
    obtain ⟨ho, hstarts, hcovered⟩ := hI hw
    refine ⟨ho, fun g hg => hstarts g (List.mem_cons_of_mem _ hg), ?_⟩
    cases frames with
    | nil =>
      rw [covered_cons] at hcovered
      split at hcovered
      next hc =>
        refine hreturns.leads fun call m' record hm' hrec _ => ?_
        have hcustodian := hr.custodian hw (hstarts f List.mem_cons_self) hs hrec hcovered
        rw [← hm'] at hcustodian
        exact hcustodian.leads hc call
      next => exact hcovered
    | cons g frames =>
      obtain ⟨hroute, htransfer⟩ := hr.routed hw.native
      rw [covered_cons_of_not (by rw [htransfer]; rfl)] at hcovered
      exact (covered_cons_of_not (by rw [hroute]; rfl)).2 hcovered
  fail _ _ := trivial
  abort _ := trivial
  exhaust _ _ _ := trivial

end Calls

/-! ## Runs -/

section Runs

variable {env : Env} {ops : List Op} {tx : Transaction}

/-- The contracts before a deployment are among those after it. -/
theorem Within.of_deployStep (h : Within C s') (hd : DeployStep env s s') : Within C s := by
  refine h.of_contracts fun {contract record} hr => ?_
  cases hd with
  | contract hn =>
    obtain ⟨record', hr', hk, -⟩ := (grows_founded hn).contracts hr
    exact ⟨record', hr', hk⟩
  | _ => exact ⟨record, hr, rfl⟩

theorem Within.of_deploySteps (h : Within C s') (hd : DeploySteps env s s') : Within C s := by
  induction hd with
  | refl => exact h
  | tail _ hstep ih => exact ih (h.of_deployStep hstep)

theorem Within.of_applyTransaction (h : Within C (applyTransaction env s tx).1) : Within C s := by
  rcases applyTransaction_grows env s tx with ⟨-, -, hsame⟩ | ⟨-, -, hgrows⟩
  · rwa [hsame] at h
  · exact (h.of_grows hgrows).of_eq rfl

/-- The contracts before a run are among those after it. -/
theorem Within.of_runOps (h : Within C (runOps env s ops)) : Within C s := by
  induction ops generalizing s with
  | nil => exact h
  | cons op ops ih =>
    have hop : Within C (op.apply env s) := ih h
    revert hop
    refine Op.apply_keeps (P := fun s' => Within C s' → Within C s)
      (fun _ _ hP hw => hP (hw.of_eq rfl)) id (fun d _ hw => ?_)
      fun p _ hP hw => hP hw.of_applyTransaction
    exact hw.of_deploySteps (deploySteps_applyDeployment env s d)

/-- A deployment among native contracts keeps order, and keeps contracts solvent. -/
theorem DeployStep.solvent (h : DeployStep env s s') (ho : Orderly C s) (hs : s.Solvent) :
    Orderly C s' ∧ s'.Solvent := by
  cases h with
  | contract hn hf => exact ⟨ho.founded hn hf, solvent_founded hn hf ho hs⟩
  | oracleUpdater | governanceAdmin | accountSigner =>
    refine ⟨?_, hs.congr rfl rfl rfl⟩
    refine ho.mono ho.owned (fun _ => id) (fun h => h.of_eq rfl rfl) ho.distinct (fun hc => ?_)
      fun _ => .inl
    exact (contains_grant hc).imp_right nofun
  | _ => exact ⟨ho.of_eq rfl rfl rfl rfl, hs.congr rfl rfl rfl⟩

theorem DeploySteps.solvent (hd : DeploySteps env s s') (h : Orderly C s ∧ s.Solvent) :
    Orderly C s' ∧ s'.Solvent := by
  induction hd with
  | refl => exact h
  | tail _ hstep ih => exact hstep.solvent ih.1 ih.2

theorem applyTransaction_solvent (hs : Commits env s tx → ¬C tx.sender)
    (hp : Commits env s tx → tx.method ≠ .permit) (hw : Within C (applyTransaction env s tx).1)
    (h : Orderly C s ∧ s.Solvent) :
    Orderly C (applyTransaction env s tx).1 ∧ (applyTransaction env s tx).1.Solvent := by
  have hn : Orderly C (s.useNonce tx) ∧ (s.useNonce tx).Solvent :=
    ⟨h.1.of_eq rfl rfl rfl rfl, h.2.congr rfl rfl rfl⟩
  by_cases hc : Commits env s tx
  · obtain ⟨n, m, -, hI, hm, -⟩ := (callInvariant_covered env (hs hc) (hp hc)).of_commits
      (fun _ _ => ⟨hn.1, by simp, hn.2⟩) hc
    rw [hm] at hw ⊢
    exact ⟨(hI hw).1, (hI hw).2.2⟩
  · rcases eq_of_not_commits hc with he | he
    · rwa [he]
    · rwa [he]

/-- At the start there are no contracts. -/
theorem orderly_new (chainId : ChainId) :
    Orderly C (DeTTaState.new chainId) ∧ (DeTTaState.new chainId).Solvent := by
  have hnone : ∀ contract : ContractId, (DeTTaState.new chainId).contracts[contract]? = none := by
    simp [DeTTaState.new]
  refine ⟨⟨fun key hk => ?_, fun hr => ?_, fun hk => ?_, fun hc => ?_, ?_⟩,
    fun contract asset => ?_⟩
  · simp [DeTTaState.new] at hk
  · rw [hnone] at hr
    cases hr
  · have := hk.isToken
    rw [DeTTaState.IsToken, hnone] at this
    cases this
  · simp [DeTTaState.new] at hc
  · simp [DeTTaState.new]
  · have hz : (DeTTaState.new chainId).liability contract asset = 0 := by
      rw [DeTTaState.liability, hnone]
    exact ⟨fun _ _ => hz ▸ Nat.zero_le _, fun _ => hz⟩

/-- In a run of native contracts without permits, whose senders are no contracts,
    contracts stay solvent. -/
theorem solvent_runOps (hw : Within C (runOps env s ops))
    (hs : ∀ p ∈ runTransactions env s ops, Commits env p.1 p.2 → ¬C p.2.sender)
    (hp : ∀ p ∈ runTransactions env s ops, Commits env p.1 p.2 → p.2.method ≠ .permit)
    (h : Orderly C s ∧ s.Solvent) :
    Orderly C (runOps env s ops) ∧ (runOps env s ops).Solvent := by
  induction ops generalizing s with
  | nil => exact h
  | cons op ops ih =>
    refine ih hw (fun p hmem => hs p (List.mem_append_right _ hmem))
      (fun p hmem => hp p (List.mem_append_right _ hmem)) ?_
    have hop : Within C (op.apply env s) := Within.of_runOps hw
    revert hop
    refine Op.apply_keeps (P := fun s' => Within C s' → Orderly C s' ∧ s'.Solvent)
      (fun _ _ hP hw => ?_) (fun _ => h) (fun d _ hw => ?_) fun p hmem hP hw => ?_
    · obtain ⟨ho, hsolvent⟩ := hP (hw.of_eq rfl)
      exact ⟨ho.of_eq rfl rfl rfl rfl, hsolvent.congr rfl rfl rfl⟩
    · exact (deploySteps_applyDeployment env s d).solvent h
    · exact applyTransaction_solvent (hs p (List.mem_append_left _ hmem))
        (hp p (List.mem_append_left _ hmem)) hw (hP hw.of_applyTransaction)

theorem runTransactions_append (ops' : List Op) :
    runTransactions env s (ops ++ ops') =
      runTransactions env s ops ++ runTransactions env (runOps env s ops) ops' := by
  induction ops generalizing s with
  | nil => rfl
  | cons op ops ih =>
    rw [List.cons_append, runTransactions, ih, runTransactions, List.append_assoc]
    rfl

end Runs

/-! ## Balances on the ledgers -/

/-- A deposit in a vault. -/
def StateKey.isCollateralOf (contract : ContractId) : StateKey → Bool
  | collateral c _ _ => c == contract
  | _ => false

namespace DeTTaState

variable (s : DeTTaState)

/-- What an account holds on the ledger of an asset, if the asset is a native one. -/
def ledgerBalance (asset : AssetId) (owner : Principal) : ℕ :=
  match s.resolveAssetLedger asset with
  | some (.nativeToken token) => s.held token owner asset
  | _ => 0

/-- The reserves of pools, the stakes with what is being paid out and the penalties, the
    collateral of vaults, and what bridges have locked are there. -/
structure Backed : Prop where
  pool : ∀ {contract : ContractId} {record : ContractRecord} {assetA assetB : AssetId} {fee : U64},
    s.contracts[contract]? = some record → record.kind = .ammPool assetA assetB fee →
    ∀ asset, asset = assetA ∨ asset = assetB →
      (s.uintAt (.reserve contract asset)).val ≤ s.ledgerBalance asset contract
  staking : ∀ {contract : ContractId} {record : ContractRecord} {asset : AssetId}
    {unbondingDelay : U64} {rewardPerBlock : Amount} {unstakePenaltyBps : U64},
    s.contracts[contract]? = some record →
    record.kind = .staking asset unbondingDelay rewardPerBlock unstakePenaltyBps →
      (s.uintAt (.totalStaked contract asset)).val +
        (s.uintAt (.totalPendingUnbond contract asset)).val +
        (s.uintAt (.stakingPenaltyCollected contract asset)).val ≤ s.ledgerBalance asset contract
  vault : ∀ {contract : ContractId} {record : ContractRecord} {config : LendingConfig},
    s.contracts[contract]? = some record → record.kind = config.kind →
      Table.sumWhere (StateKey.isCollateralOf contract) (fun value => value.asUint.val) s.storage ≤
        s.ledgerBalance config.collateralAsset contract
  bridge : ∀ {contract : ContractId} {record : ContractRecord} {sourceChain : ChainId},
    s.contracts[contract]? = some record → record.kind = .bridge sourceChain →
    ∀ asset, s.locked contract asset ≤ s.ledgerBalance asset contract

end DeTTaState

/-- Among native contracts, the only token that keeps an asset is its ledger. -/
theorem resolveAssetLedger_eq (hn : s.NativeOnly) {token : ContractId} {asset : AssetId}
    (hl : Books.OnlyLedger s token asset) :
    s.resolveAssetLedger asset = some (.nativeToken token) := by
  refine resolveAssetLedger_eq_some_iff.2 ⟨hl, Option.eq_none_iff_forall_not_mem.2 fun c hc => ?_⟩
  obtain ⟨record, hr, ha⟩ := isAspectModule_of_aspectLedgerOf hc
  rw [hn _ _ hr] at ha
  cases ha

section Backing

variable {contract : ContractId} {record : ContractRecord} {asset : AssetId}

/-- What is owed is on the ledger of the asset. -/
theorem liability_le_ledgerBalance (hn : s.NativeOnly) (ho : Orderly C s) (hs : s.Solvent)
    (contract : ContractId) (asset : AssetId) :
    s.liability contract asset ≤ s.ledgerBalance asset contract := by
  obtain ⟨hcover, hnone⟩ := hs contract asset
  by_cases hk : ∃ token, s.KeepsAsset token asset
  · obtain ⟨token, hk⟩ := hk
    rw [DeTTaState.ledgerBalance, resolveAssetLedger_eq hn ⟨hk, fun _ hk' => ho.unique hk hk'⟩]
    exact hcover token hk
  · rw [hnone fun token ht => hk ⟨token, ht⟩]
    exact Nat.zero_le _

theorem booked_le_liability (hr : s.contracts[contract]? = some record) :
    s.booked record.kind contract asset ≤ s.liability contract asset := by
  simp [DeTTaState.liability, hr]

theorem val_uintAt (key : StateKey) :
    (s.uintAt key).val = (s.storage[key]?.map fun v : StateValue => v.asUint.val).getD 0 := by
  unfold DeTTaState.uintAt
  cases s.storage[key]? <;> rfl

theorem reserve_le_booked {assetA assetB : AssetId} (fee : U64)
    (h : asset = assetA ∨ asset = assetB) :
    (s.uintAt (.reserve contract asset)).val ≤
      s.booked (.ammPool assetA assetB fee) contract asset := by
  have ho : (ContractKind.ammPool assetA assetB fee).owes asset (.reserve contract asset) =
      true := by
    rw [owes_reserve h, decide_eq_true rfl]
  rw [DeTTaState.booked, Table.sumWhere_eq_erase _ _ _ (.reserve contract asset), val_uintAt]
  simp [ho, StateKey.ownerContract]

theorem stakes_le_booked (parameters : StakingParameters) :
    (s.uintAt (.totalStaked contract asset)).val +
        (s.uintAt (.totalPendingUnbond contract asset)).val +
        (s.uintAt (.stakingPenaltyCollected contract asset)).val ≤
      s.booked (parameters.kind asset) contract asset := by
  rw [DeTTaState.booked, Table.sumWhere_eq_erase _ _ _ (.totalStaked contract asset),
    Table.sumWhere_eq_erase _ _ _ (.totalPendingUnbond contract asset),
    Table.sumWhere_eq_erase _ _ _ (.stakingPenaltyCollected contract asset)]
  simp [val_uintAt, StakingParameters.kind, ContractKind.owes, StateKey.ownerContract,
    Std.ExtTreeMap.getElem?_erase]
  omega

theorem booked_vault (config : LendingConfig) :
    s.booked config.kind contract config.collateralAsset =
      Table.sumWhere (StateKey.isCollateralOf contract) (fun value => value.asUint.val)
        s.storage := by
  refine congrArg (fun p => Table.sumWhere p _ s.storage) (funext fun key => ?_)
  cases key <;> simp [LendingConfig.kind, ContractKind.owes, StateKey.isCollateralOf,
    StateKey.ownerContract]

/-- Solvent contracts are backed. -/
theorem DeTTaState.Solvent.backed (hs : s.Solvent) (hn : s.NativeOnly) (ho : Orderly C s) :
    s.Backed where
  pool {contract record _ _ fee} hr hk asset ha := by
    refine (reserve_le_booked fee ha).trans ?_
    rw [← hk]
    exact (booked_le_liability hr).trans (liability_le_ledgerBalance hn ho hs contract asset)
  staking {contract record asset delay reward bps} hr hk := by
    refine (stakes_le_booked ⟨delay, reward, bps⟩).trans ?_
    rw [StakingParameters.kind, ← hk]
    exact (booked_le_liability hr).trans (liability_le_ledgerBalance hn ho hs contract asset)
  vault {contract record config} hr hk := by
    rw [← booked_vault config, ← hk]
    exact (booked_le_liability hr).trans (liability_le_ledgerBalance hn ho hs contract _)
  bridge {contract record chain} hr hk asset := by
    refine le_trans ?_ (liability_le_ledgerBalance hn ho hs contract asset)
    simp [DeTTaState.liability, hr, hk, ContractKind.isBridge]

end Backing

/-- In every state of a run in which only native contracts are deployed, no permit is
    committed, and no sender is a contract of the run, contracts hold what they owe. -/
theorem runOps_backed (env : Env) (chainId : ChainId) (ops : List Op)
    (hnative : (runOps env (.new chainId) ops).NativeOnly)
    (hpermit : ∀ p ∈ runTransactions env (.new chainId) ops,
      Commits env p.1 p.2 → p.2.method ≠ .permit)
    (hsender : ∀ p ∈ runTransactions env (.new chainId) ops, Commits env p.1 p.2 →
      (runOps env (.new chainId) ops).contracts.contains p.2.sender = false) (n : ℕ) :
    (runOps env (.new chainId) (ops.take n)).Backed := by
  let C := fun contract => (runOps env (.new chainId) ops).contracts.contains contract = true
  have hops : runOps env (.new chainId) ops =
      runOps env (runOps env (.new chainId) (ops.take n)) (ops.drop n) := by
    rw [runOps, runOps, runOps, ← List.foldl_append, List.take_append_drop]
  have hw : Within C (runOps env (.new chainId) (ops.take n)) := by
    have hend : Within C (runOps env (.new chainId) ops) := ⟨hnative, fun _ hc => hc⟩
    rw [hops] at hend
    exact hend.of_runOps
  have hmem : ∀ p ∈ runTransactions env (.new chainId) (ops.take n),
      p ∈ runTransactions env (.new chainId) ops := fun p hp => by
    rw [← List.take_append_drop n ops, runTransactions_append]
    exact List.mem_append_left _ hp
  obtain ⟨ho, hs⟩ := solvent_runOps hw
    (fun p hp hc => Bool.eq_false_iff.1 (hsender p (hmem p hp) hc))
    (fun p hp hc => hpermit p (hmem p hp) hc) (orderly_new chainId)
  exact hs.backed hw.native ho

/-! ## A run with one contract of each kind -/

namespace Deposits

/-- A transaction of `alice`. -/
def call (nonce : U64) (target : ContractId) (method : Method) (args : List Argument) : Op :=
  .transaction { Proxy.call "alice" target method args with nonce := nonce }

/-- `alice` gives something to a pool, a staking contract, a vault and a bridge. -/
def ops : List Op :=
  [.deploy (.token "t" "A" [("alice", 100)]), .deploy (.token "u" "B" [("alice", 100)]),
    .deploy (.ammPool "p" "A" "B" ⟨30⟩), .deploy (.staking "k" "A" ⟨5, 1, 100⟩),
    .deploy (.lendingVault "v" "A" "B" "o" ⟨5000, 10, 0, 5000⟩), .deploy (.bridge "b" "d"),
    call 0 "p" .addLiquidity [.amount 20, .amount 30],
    call 1 "k" .stake [.asset "A", .amount 10],
    call 2 "v" .depositCollateral [.asset "A", .amount 15],
    call 3 "b" .queueBridgeMessage
      [.text "d", .text "b", .text "m", .principal "bob", .asset "A", .amount 5]]

set_option maxRecDepth 4000 in
/-- What the contracts keep in the end, and what has happened on the way. -/
theorem evaluated :
    ((runOps Proxy.env (.new "c") ops).uintAt (.reserve "p" "A") = 20 ∧
      (runOps Proxy.env (.new "c") ops).uintAt (.totalStaked "k" "A") = 10 ∧
      (runOps Proxy.env (.new "c") ops).uintAt (.collateral "v" "alice" "A") = 15 ∧
      (runOps Proxy.env (.new "c") ops).locked "b" "A" = 5) ∧
    (∀ p ∈ (runOps Proxy.env (.new "c") ops).contracts.toList, p.2.kind.isAspectModule = false) ∧
    ∀ p ∈ runTransactions Proxy.env (.new "c") ops,
      p.2.method ≠ .permit ∧
      (runOps Proxy.env (.new "c") ops).contracts.contains p.2.sender = false := by
  decide

theorem nativeOnly_ops : (runOps Proxy.env (.new "c") ops).NativeOnly := fun contract record hr =>
  evaluated.2.1 (contract, record) (Std.ExtTreeMap.mem_toList_iff_getElem?_eq_some.2 hr)

end Deposits

/-- What `alice` has given to the contracts is there. -/
theorem runOps_backed_deposits :
    (runOps Proxy.env (.new "c") Deposits.ops).uintAt (.reserve "p" "A") = 20 ∧
      (runOps Proxy.env (.new "c") Deposits.ops).uintAt (.totalStaked "k" "A") = 10 ∧
      (runOps Proxy.env (.new "c") Deposits.ops).uintAt (.collateral "v" "alice" "A") = 15 ∧
      (runOps Proxy.env (.new "c") Deposits.ops).locked "b" "A" = 5 ∧
      (runOps Proxy.env (.new "c") (Deposits.ops.take 10)).Backed := by
  obtain ⟨⟨hreserve, hstaked, hcollateral, hlocked⟩, -, hrun⟩ := Deposits.evaluated
  exact ⟨hreserve, hstaked, hcollateral, hlocked,
    runOps_backed Proxy.env "c" Deposits.ops Deposits.nativeOnly_ops
      (fun p hp _ => (hrun p hp).1) (fun p hp _ => (hrun p hp).2) 10⟩

end Detta
