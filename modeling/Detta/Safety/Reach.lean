import Detta.Safety.Atomic
import Detta.Safety.Balance

/-!
# Invariants of a chain

What a node does to its state by itself is made of a few steps (`DeployStep`), as the
code of frames is. So a property of states that is kept by these steps, by
transactions, and by a new height holds in every state that a chain reaches
(`ChainInvariant.reachable`).
-/

namespace Detta

open Kernel

/-! ## Deployments -/

/-- What is checked of a module before it is registered. -/
structure AspectModuleRecord.Admitted (env : Env) (module : AspectModuleRecord) : Prop where
  complete : module.rootsAreComplete = true
  moduleHash : module.moduleHash = module.computedHash env.hashing
  code : module.codeMatches env = true

variable {s : DeTTaState} {env : Env} {tx : Transaction} {P : DeTTaState → Prop}

theorem wp_registerAspectModule {module : AspectModuleRecord} {m : Machine}
    {Q : String → Machine → Prop} {E : ExecutionError → Machine → Prop}
    (hok : module.Admitted env → m.state.aspectModules.contains module.moduleHash = false →
      Q module.moduleHash (m.withState { m.state with
        aspectModules := m.state.aspectModules.insert module.moduleHash module }))
    (hfail : ∀ e, E e m) : wp (registerAspectModule env module) Q E m := by
  simp only [registerAspectModule, wp_bind, wp_ensure, wp_read, wp_write, wp_pure]
  exact ⟨fun hc => ⟨fun hh => ⟨fun hm => ⟨hok ⟨hc, hh, hm⟩, fun _ => hfail _⟩, fun _ => hfail _⟩,
    fun _ => hfail _⟩, fun _ => hfail _⟩

/-- A change that a node makes by itself. -/
inductive DeployStep (env : Env) (s : DeTTaState) : DeTTaState → Prop where
  | contract {contract : ContractId} {record : ContractRecord} {entries : List (StateKey × Amount)}
      (hn : s.contracts.contains contract = false)
      (hf : Founded s contract record.kind entries) (hp : record.ByManifest) :
      DeployStep env s ((s.withContract contract record).puts entries)
  | oracleUpdater (contract : ContractId) (updater : Principal) :
      DeployStep env s (s.grant (.oracleUpdater contract updater) (Grant.oracleUpdater updater))
  | governanceAdmin {contract : ContractId} (admin : Principal)
      (hc : s.contracts.contains contract = true) :
      DeployStep env s (s.grant (.governanceAdmin contract admin) (Grant.governanceAdmin admin))
  | accountSigner (account : Principal) (publicKeyHex : String) :
      DeployStep env s (s.grant (.accountSigner account publicKeyHex) (Grant.accountSigner account))
  | validators (sets : Std.ExtTreeMap ChainId BridgeValidatorSet) :
      DeployStep env s { s with trustedBridgeValidatorSets := sets }
  | module (module : AspectModuleRecord) (ha : module.Admitted env)
      (hn : s.aspectModules.contains module.moduleHash = false) :
      DeployStep env s { s with aspectModules := s.aspectModules.insert module.moduleHash module }

/-- The state is reached by deployments. -/
abbrev DeploySteps (env : Env) : DeTTaState → DeTTaState → Prop :=
  Relation.ReflTransGen (DeployStep env)

section Helpers

variable {env : Env} {m : Machine} {contract : ContractId}

/-- After a helper, failed or not, the state is reached by deployments. -/
def Deploys (env : Env) (p : Kernel Unit) : Prop :=
  ∀ m, wp p (fun _ m' => DeploySteps env m.state m'.state)
    (fun _ m' => DeploySteps env m.state m'.state) m

namespace Deploys

/-- Nothing happens while a helper only reads. -/
theorem skip {α : Type} {p : Kernel α} [Reads p] {k : α → Kernel Unit}
    (h : ∀ a, Deploys env (k a)) : Deploys env (p >>= k) := fun m =>
  wp.skip (fun a => h a m) fun _ => .refl

/-- An unused identifier is taken. -/
theorem validated {k : Unit → Kernel Unit}
    (h : ∀ m : Machine, m.state.contracts.contains contract = false →
      wp (k ()) (fun _ m' => DeploySteps env m.state m'.state)
        (fun _ m' => DeploySteps env m.state m'.state) m) :
    Deploys env (validateNewContractId contract >>= k) := fun m =>
  wp_bind.2 (wp_validateNewContractId (fun _ hn => h m hn) fun _ => .refl)

/-- The record of a contract is added, and its numbers are written. -/
theorem founded {s : DeTTaState} (record : ContractRecord) (entries : List (StateKey × Amount))
    (hn : s.contracts.contains contract = false) (hf : Founded s contract record.kind entries)
    (hp : record.ByManifest) : DeploySteps env s ((s.withContract contract record).puts entries) :=
  .single (.contract hn hf hp)

theorem token (asset : AssetId) (balances : List (Principal × Amount)) :
    Deploys env (deployToken env contract asset balances) := fun m =>
  wp_deployToken (fun _ _ hn hd ht hs =>
    have h : DeploySteps env m.state _ := .single (.contract hn (.token hd ht hs)
      (.of_policies (by decide) (by rintro ⟨⟩ h <;> first | rfl | cases h)))
    ⟨h, h⟩) fun _ => .refl

theorem ammPool (assetA assetB : AssetId) (parameters : AmmParameters) :
    Deploys env (deployAmmPoolWithParameters env contract assetA assetB parameters) := fun m =>
  wp_deployAmmPoolWithParameters (fun _ hn hab =>
    have h : DeploySteps env m.state _ := .single (.contract hn (.ammPool hab)
      (.of_policies (by decide) (by rintro ⟨⟩ h <;> first | rfl | cases h)))
    ⟨h, h⟩) fun _ => .refl

theorem oracle (asset : AssetId) (updater : Principal) (maxAge : U64) :
    Deploys env (deployOracle env contract asset updater maxAge) := by
  refine validated fun m hn => ?_
  repeat refine .skip (fun _ => ?_) fun _ => .refl
  refine .tail ?_ (.oracleUpdater contract updater)
  exact founded (ContractRecord.oracle contract _ asset maxAge) [_, _] hn .oracle
    (.of_policies (by decide) (by rintro ⟨⟩ h <;> first | rfl | cases h))

theorem bridge (sourceChain : ChainId) : Deploys env (deployBridge env contract sourceChain) := by
  refine validated fun m hn => ?_
  refine .skip (fun _ => ?_) fun _ => .refl
  exact .single (.contract hn (.bare rfl)
    (.of_policies (by decide) (by rintro ⟨⟩ h <;> first | rfl | cases h)))

theorem validatorSet (v : BridgeValidatorSet) : Deploys env (setTrustedBridgeValidatorSet v) :=
  skip fun _ _ => .single (.validators _)

theorem bridgeWithValidatorSet (sourceChain : ChainId) (validators : List Principal)
    (quorum : ℕ) :
    Deploys env (deployBridgeWithValidatorSet env contract sourceChain validators quorum) := by
  refine validated fun m hn => ?_
  repeat refine .skip (fun _ => ?_) fun _ => .refl
  rw [wp_bind]
  simp only [setTrustedBridgeValidatorSet, wp_bind, wp_okOr, wp_write]
  refine ⟨fun v _ => ?_, fun _ => .refl⟩
  have hv : DeploySteps env m.state { m.state with
      trustedBridgeValidatorSets :=
        m.state.trustedBridgeValidatorSets.insert v.sourceChain v } := .single (.validators _)
  exact hv.trans (founded (ContractRecord.bridge contract _ sourceChain) [] hn (.bare rfl)
    (.of_policies (by decide) (by rintro ⟨⟩ h <;> first | rfl | cases h)))

theorem governance (governedContract : ContractId) (admin : Principal) (timelockDelay : U64) :
    Deploys env (deployGovernanceWithTimelock env contract governedContract admin timelockDelay) := by
  refine validated fun m hn => ?_
  repeat refine .skip (fun _ => ?_) fun _ => .refl
  refine .tail ?_ (.governanceAdmin admin Std.ExtTreeMap.contains_insert_self)
  exact founded (ContractRecord.governance contract _ governedContract timelockDelay) [] hn
    (.bare rfl) (.of_policies (by decide) (by rintro ⟨⟩ h <;> first | rfl | cases h))

theorem lendingVault (collateralAsset debtAsset : AssetId) (oracleContract : ContractId)
    (risk : LendingRiskParameters) :
    Deploys env (deployLendingVaultWithRisk env contract collateralAsset debtAsset oracleContract
      risk) := by
  refine validated fun m hn => ?_
  iterate 2 refine .skip (fun _ => ?_) fun _ => .refl
  refine .ensure ⟨fun hne => ?_, fun _ => .refl⟩
  refine .skip (fun _ => ?_) fun _ => .refl
  exact founded
    (ContractRecord.lendingVault contract _ collateralAsset debtAsset oracleContract risk) [] hn
    (.bare (bne_iff_ne.2 hne.2))
    (.of_policies (by decide) (by rintro ⟨⟩ h <;> first | rfl | cases h))

theorem staking (asset : AssetId) (parameters : StakingParameters) :
    Deploys env (deployStakingWithParameters env contract asset parameters) := by
  refine skip fun _ => validated fun m hn => ?_
  refine .skip (fun _ => ?_) fun _ => .refl
  exact founded (ContractRecord.staking contract _ asset parameters) [_, _, _] hn .staking
    (.of_policies (by decide) (by rintro ⟨⟩ h <;> first | rfl | cases h))

theorem router (tokenContract : ContractId) :
    Deploys env (deployRouter env contract tokenContract) := by
  refine validated fun m hn => ?_
  refine .skip (fun _ => ?_) fun _ => .refl
  exact .single (.contract hn (.bare rfl)
    (.of_policies (by decide) (by rintro ⟨⟩ h <;> first | rfl | cases h)))

theorem factory : Deploys env (deployFactory env contract) :=
  validated fun _ hn => .single (.contract hn (.bare rfl)
    (.of_policies (by decide) (by rintro ⟨⟩ h <;> first | rfl | cases h)))

theorem accountRegistry : Deploys env (deployAccountRegistry env contract) :=
  validated fun _ hn => .single (.contract hn (.bare rfl)
    (.of_policies (by decide) (by rintro ⟨⟩ h <;> first | rfl | cases h)))

theorem accountKey (account : Principal) (publicKeyHex : String) :
    Deploys env (registerAccountKey account publicKeyHex) :=
  skip fun _ _ => .single (.accountSigner account publicKeyHex)

theorem aspectModule (module : AspectModuleRecord) :
    Deploys env (do let _ ← registerAspectModule env module) := fun _ =>
  wp_bind.2 (wp_registerAspectModule (fun ha hn => .single (.module module ha hn)) fun _ => .refl)

theorem aspectContract (moduleHash bundleId : String) :
    Deploys env (deployAspectContract contract moduleHash bundleId) := fun _ =>
  wp_deployAspectContract (fun _ _ hn _ hr =>
    .single (.contract hn (.bare (isAspectModule_of_aspectModuleContract hr ▸ rfl))
      (byManifest_aspectModuleContract hr))) fun _ => .refl

end Deploys

end Helpers

/-- The helpers make deployments. -/
theorem deploys_deploy (env : Env) (d : Deployment) : Deploys env (d.deploy env) := by
  cases d with
  | token => exact .token _ _
  | ammPool => exact .ammPool _ _ _
  | oracle => exact .oracle _ _ _
  | bridge => exact .bridge _
  | bridgeWithValidatorSet => exact .bridgeWithValidatorSet _ _ _
  | validatorSet => exact .validatorSet _
  | governance => exact .governance _ _ _
  | lendingVault => exact .lendingVault _ _ _ _
  | staking => exact .staking _ _
  | router => exact .router _
  | factory => exact .factory
  | accountRegistry => exact .accountRegistry
  | accountKey => exact .accountKey _ _
  | aspectModule => exact .aspectModule _
  | aspectContract => exact .aspectContract _ _

theorem deploySteps_applyDeployment (env : Env) (s : DeTTaState) (d : Deployment) :
    DeploySteps env s (applyDeployment env s d) := by
  have h := deploys_deploy env d ⟨s, CallContext.new "", CallLog.empty⟩
  unfold applyDeployment finalState
  unfold wp at h
  split at h
  next hr => rw [hr]; exact h
  next hr => rw [hr]; exact h

/-- What every step of a deployment keeps. -/
theorem applyDeployment_keeps (h : P s)
    (hstep : ∀ {s s' : DeTTaState}, P s → DeployStep env s s' → P s') (d : Deployment) :
    P (applyDeployment env s d) := by
  have hsteps := deploySteps_applyDeployment env s d
  generalize applyDeployment env s d = s' at hsteps
  induction hsteps with
  | refl => exact h
  | tail _ hs ih => exact hstep ih hs

/-! ## Operations -/

/-- What the call of a transaction leads to holds after a transaction that is committed, of
    its frames too. -/
theorem of_commits {P : Machine → Prop} {E : ExecutionError → Machine → Prop}
    (hc : Commits env s tx)
    (hrun : wp (executeCall env (callDepth (s.useNonce tx)) tx tx.sender) (fun _ m => P m) E
      ⟨s.useNonce tx, CallContext.new tx.sender, CallLog.empty⟩) :
    ∃ m, P m ∧ (applyTransaction env s tx).1 = m.state ∧ callFrames env s tx = m.log.finished := by
  rcases applyTransaction_cases env s tx with ⟨-, value, m, hr, hs, hf⟩ | ⟨h, -⟩ | ⟨h, -⟩
  · exact ⟨m, (wp_of_ok hr).1 hrun, hs, hf⟩
  · simp [Commits, h] at hc
  · simp [Commits, h] at hc

/-- A transaction that is not committed changes at most the used nonces. -/
theorem eq_of_not_commits (hc : ¬Commits env s tx) :
    (applyTransaction env s tx).1 = s ∨ (applyTransaction env s tx).1 = s.useNonce tx := by
  rcases applyTransaction_cases env s tx with ⟨h, -⟩ | ⟨-, h⟩ | ⟨-, -, h⟩
  · exact absurd h hc
  · exact .inl h
  · exact .inr h

section Invariant

variable {I : ℕ → List Frame → Machine → Prop} {E : Machine → Prop}
  (inv : CallInvariant env tx I E)
  (hI : ∀ n, I n [] ⟨s.useNonce tx, CallContext.new tx.sender, CallLog.empty⟩)

include inv hI

theorem CallInvariant.of_commits (hc : Commits env s tx) :
    ∃ n m, Running tx [] m ∧ I n [] m ∧ (applyTransaction env s tx).1 = m.state ∧
      callFrames env s tx = m.log.finished := by
  obtain ⟨m, ⟨⟨hr, hm⟩, -⟩, hs, hf⟩ := Detta.of_commits hc (inv.run (hI _))
  exact ⟨_, m, hr, hm, hs, hf⟩

/-- Transactions keep what their calls keep. -/
theorem CallInvariant.keeps (hs : P s) (hn : P (s.useNonce tx))
    (hend : ∀ {n m}, Commits env s tx → callFrames env s tx = m.log.finished → Running tx [] m →
      I n [] m → P m.state) : P (applyTransaction env s tx).1 := by
  by_cases hc : Commits env s tx
  · obtain ⟨n, m, hr, hm, hstate, hf⟩ := inv.of_commits hI hc
    exact hstate ▸ hend hc hf hr hm
  · rcases eq_of_not_commits hc with h | h
    · rwa [h]
    · rwa [h]

end Invariant

/-- A property of states that does not depend on how far the chain is. -/
def Timeless (P : DeTTaState → Prop) : Prop :=
  ∀ {s : DeTTaState} (height : U64) (hash : String), P s →
    P { s with height := height, finalizedBlockHash := hash }

section Operations

variable {env : Env} {P : DeTTaState → Prop} {s : DeTTaState}

/-- Transactions one after the other keep what each of them keeps. -/
theorem applyTransactions_keeps {txs : List Transaction} (hs : P s)
    (h : ∀ p ∈ appliedTransactions env s txs, P p.1 → P (applyTransaction env p.1 p.2).1) :
    P (applyTransactions env s txs).1 := by
  induction txs generalizing s with
  | nil => exact hs
  | cons tx txs ih =>
    exact ih (h (s, tx) List.mem_cons_self hs) fun p hp => h p (List.mem_cons_of_mem _ hp)

/-- A block is refused, or its transactions are applied at its height. -/
theorem Op.block_cases (env : Env) (s : DeTTaState) (b : Block) :
    (Op.block b).apply env s = s ∧ (Op.block b).transactions env s = [] ∨
    ∃ height hash, (Op.block b).apply env s =
      { (applyTransactions env { s with height := b.header.height } b.transactions).1 with
        height := height, finalizedBlockHash := hash } ∧
      (Op.block b).transactions env s =
        appliedTransactions env { s with height := b.header.height } b.transactions := by
  simp only [Op.apply, Op.transactions]
  rcases hb : applyBlock env s b with ⟨s', - | error⟩
  · refine .inr ?_
    simp only [applyBlock] at hb
    split at hb
    next => cases hb
    next =>
      rw [← (Prod.mk.inj hb).1]
      exact ⟨_, _, rfl, rfl⟩
  · refine .inl ⟨?_, rfl⟩
    simp only [applyBlock] at hb
    split at hb
    next => exact (Prod.mk.inj hb).1.symm
    next => cases hb

/-- An operation keeps what its transactions, or its deployment, keep. -/
theorem Op.apply_keeps {op : Op} (ht : Timeless P) (hs : P s)
    (hd : ∀ d, op = .deploy d → P (applyDeployment env s d))
    (htx : ∀ p ∈ op.transactions env s, P p.1 → P (applyTransaction env p.1 p.2).1) :
    P (op.apply env s) := by
  cases op with
  | deploy d => exact hd d rfl
  | transaction tx => exact htx (s, tx) (by simp [Op.transactions]) hs
  | block b =>
    rcases Op.block_cases env s b with ⟨he, -⟩ | ⟨height, hash, he, htxs⟩
    · rwa [he]
    · rw [htxs] at htx
      exact he ▸ ht _ _ (applyTransactions_keeps (ht _ s.finalizedBlockHash hs) htx)

/-- What holds in every state of a chain. -/
structure ChainInvariant (env : Env) (P : DeTTaState → Prop) : Prop where
  timeless : Timeless P
  new : ∀ chainId, P (DeTTaState.new chainId)
  deploy : ∀ {s s' : DeTTaState}, P s → DeployStep env s s' → P s'
  transaction : ∀ {s : DeTTaState} (tx : Transaction), P s → P (applyTransaction env s tx).1

theorem ChainInvariant.reachable (h : ChainInvariant env P) (hr : Reachable env s) : P s := by
  induction hr with
  | new chainId => exact h.new chainId
  | apply op _ ih =>
    exact Op.apply_keeps h.timeless ih (fun d _ => applyDeployment_keeps ih h.deploy d)
      fun p _ => h.transaction p.2

/-- What the steps of frames and deployments keep, and the use of a nonce, holds in every state of
    a chain. -/
theorem ChainInvariant.of_steps (timeless : Timeless P)
    (new : ∀ chainId, P (DeTTaState.new chainId))
    (deploy : ∀ {s s' : DeTTaState}, P s → DeployStep env s s' → P s')
    (nonce : ∀ (s : DeTTaState) (tx : Transaction), P s → P (s.useNonce tx))
    (own : ∀ {f : Frame} {s s' : DeTTaState}, f.Live → Grows f.start s → P s → OwnStep f s s' →
      P s') : ChainInvariant env P where
  timeless := timeless
  new := new
  deploy := deploy
  transaction {s} tx hs := by
    have inv : CallInvariant env tx (fun _ _ m => P m.state) fun _ => True :=
      { enter := fun _ h _ _ => h
        own := fun hr hl h hstep => own hl (hr.grows _ List.mem_cons_self) h hstep
        attempt := fun _ _ _ _ => trivial
        leave := fun _ _ h => h
        fail := fun _ _ => trivial
        abort := fun _ => trivial
        exhaust := fun _ _ _ => trivial }
    exact inv.keeps (fun _ => nonce s tx hs) hs (nonce s tx hs) fun _ _ _ h => h

/-- A run leads to a state that a chain may reach. -/
theorem Reachable.runOps (h : Reachable env s) (ops : List Op) :
    Reachable env (Detta.runOps env s ops) := by
  induction ops generalizing s with
  | nil => exact h
  | cons op ops ih => exact ih (h.apply op)

end Operations

/-! ## Contracts -/

section Contracts

variable {env : Env} {s s' : DeTTaState}

/-- Contracts stay what they are. -/
def DeTTaState.KeepsKinds (s s' : DeTTaState) : Prop :=
  ∀ {contract : ContractId} {record : ContractRecord}, s.contracts[contract]? = some record →
    ∃ record', s'.contracts[contract]? = some record' ∧ record'.kind = record.kind

theorem Grows.keepsKinds (h : Grows s s') : s.KeepsKinds s' := fun hr =>
  let ⟨record', hr', hk, _⟩ := h.contracts hr
  ⟨record', hr', hk⟩

theorem DeployStep.keepsKinds (h : DeployStep env s s') : s.KeepsKinds s' := by
  cases h with
  | contract hn => exact ((Grows.ofNew hn).trans (.puts ..)).keepsKinds
  | _ => exact fun hr => ⟨_, hr, rfl⟩

theorem contains_of_keepsKinds (h : s.KeepsKinds s') {contract : ContractId}
    (hc : s.contracts.contains contract = true) : s'.contracts.contains contract = true := by
  obtain ⟨record, hr⟩ := Table.contains_iff.1 hc
  obtain ⟨record', hr', -⟩ := h hr
  exact Table.contains_iff.2 ⟨record', hr'⟩

end Contracts

/-! ## Owners of storage -/

theorem Owned.deploy {s s' : DeTTaState} (h : Owned s) (hd : DeployStep env s s') : Owned s' := by
  cases hd with
  | @contract _ record _ hn hf => exact h.withNew record hn hf.ownerContract
  | _ => exact h

theorem chainInvariant_owned (env : Env) : ChainInvariant env Owned :=
  .of_steps (fun _ _ h => h) (fun _ key hk => by simp [DeTTaState.new] at hk) Owned.deploy
    (fun _ _ h => h) fun hl hg h hs => hs.owned (hl.contains hg) h

/-- In every state of a chain, numbers belong to contracts. -/
theorem Reachable.owned (h : Reachable env s) : Owned s :=
  (chainInvariant_owned env).reachable h

end Detta
