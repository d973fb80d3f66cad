import Detta.Safety.Custody

/-!
# What the methods of native contracts settle

Each method that moves assets for a contract, or writes what the contract owes, leaves
the state solvent, if only native contracts are deployed. The proofs follow the code of
the methods, and follow the books along with it.
-/

namespace Detta

open Kernel

/-- Only native contracts are deployed. -/
def DeTTaState.NativeOnly (s : DeTTaState) : Prop :=
  ∀ (contract : ContractId) (record : ContractRecord), s.contracts[contract]? = some record →
    record.kind.isAspectModule = false

/-- A contract is called by an account that is no contract, in a solvent state. -/
structure Custodian (C : ContractId → Prop) (tx : Transaction) (msgSender : Principal)
    (kind : ContractKind) (s : DeTTaState) : Prop where
  native : s.NativeOnly
  contracts : ∀ contract, s.contracts.contains contract = true → C contract
  record : ∃ record, s.contracts[tx.target]? = some record ∧ record.kind = kind
  distinct : kind.distinct = true
  caller : ¬C msgSender
  sender : ¬C tx.sender
  solvent : s.Solvent

theorem Custodian.holder {C : ContractId → Prop} {tx : Transaction} {msgSender : Principal}
    {kind : ContractKind} {s : DeTTaState} (h : Custodian C tx msgSender kind s) : C tx.target := by
  obtain ⟨record, hr, -⟩ := h.record
  exact h.contracts _ (Table.contains_iff.2 ⟨record, hr⟩)

/-! ## Ledgers of native assets -/

/-- Among native contracts, the ledger of an asset is the only token that keeps it. -/
theorem onlyLedger_of_resolve {s : DeTTaState} {asset : AssetId} {ledger : AssetLedger}
    (hn : s.NativeOnly) (h : s.resolveAssetLedger asset = some ledger) :
    ∃ token, ledger = .nativeToken token ∧ Books.OnlyLedger s token asset := by
  rw [resolveAssetLedger_eq_some_iff] at h
  cases ledger with
  | nativeToken token => exact ⟨token, rfl, h.1⟩
  | aspectToken contract =>
    obtain ⟨record, hr, ha⟩ := isAspectModule_of_aspectLedgerOf h.1
    rw [hn _ _ hr] at ha
    cases ha

/-! ## What is not in the books -/

/-- The books may have changed only aside of accounts and claims. -/
def Aside (s s' : DeTTaState) : Prop :=
  ∀ {C : ContractId → Prop} {holder : ContractId} {s₀ : DeTTaState} {written : List StateKey}
    {surplus : AssetId → ℤ}, Books C holder s₀ written surplus s →
    Books C holder s₀ written surplus s'

/-- The computation changes the state only aside of accounts and claims. -/
def Quiet {α : Type} (p : Kernel α) : Prop :=
  ∀ m, wp p (fun _ m' => Aside m.state m'.state ∧ m' = m.withState m'.state) (fun _ _ => True) m

namespace Quiet

variable {α β : Type} {p : Kernel α} {k : α → Kernel β}

theorem reads [Reads p] : Quiet p := fun _ =>
  Reads.wp p (fun _ => ⟨fun hb => hb, rfl⟩) fun _ => trivial

theorem bind (hp : Quiet p) (hk : ∀ a, Quiet (k a)) : Quiet (p >>= k) := fun m =>
  wp_bind.2 <| (hp m).imp fun a m' h => (hk a m').imp fun _ m'' h' =>
    ⟨fun hb => h'.1 (h.1 hb), by rw [h'.2, h.2, Machine.withState_withState]; rfl⟩

theorem skip [Reads p] (hk : ∀ a, Quiet (k a)) : Quiet (p >>= k) := .bind .reads hk

theorem onlyIf {c : Prop} [Decidable c] {p : Kernel Unit} (hp : Quiet p) :
    Quiet (Detta.onlyIf c p) := fun m =>
  wp_onlyIf.2 ⟨fun _ => hp m, fun _ => ⟨fun hb => hb, rfl⟩⟩

theorem emit {contract : ContractId} {txHash : TxHash} {payload : EventPayload} :
    Quiet (Kernel.emit contract txHash payload) := fun _ => ⟨fun hb => hb.event _, rfl⟩

/-- A number is written that is neither an account nor a claim. -/
theorem set {frame : AuthorizedFrame} {key : StateKey} {value : Amount}
    (ha : key.isAside = true) : Quiet (Kernel.stateSet frame key value) := by
  intro m
  simp only [Kernel.stateSet, wp_bind, wp_ensure, wp_write]
  exact ⟨fun _ => ⟨fun _ => ⟨fun hb => hb.put ha value, rfl⟩, fun _ => trivial⟩, fun _ => trivial⟩

end Quiet

namespace Leads

variable {β : Type} {P : DeTTaState → Prop} {m : Machine} {call : ContractCall} {tx : Transaction}
  {k : Unit → Kernel β}

theorem quiet {α : Type} {p : Kernel α} {k : α → Kernel β} (hp : Quiet p)
    (hk : ∀ a s', Aside m.state s' → Leads P (k a) (m.withState s')) : Leads P (p >>= k) m :=
  wp_bind.2 <| (hp m).imp fun a m' h => h.2 ▸ hk a m'.state h.1

theorem transfer {token : ContractId} {payer receiver : Principal} {asset : AssetId}
    {amount : Amount}
    (hk : ∀ s', m.state.move token payer receiver asset amount = some s' →
      Leads P (k ()) (m.withState s')) :
    Leads P (transferAssetBalance call tx (.nativeToken token) payer receiver asset amount >>= k)
      m :=
  wp_bind.2 (wp_transferNativeAssetBalance (fun s' hm _ => hk s' hm) (fun _ _ => trivial)
    fun _ => trivial)

section Custody

variable {C : ContractId → Prop} {tx : Transaction} {msgSender : Principal} {kind : ContractKind}
  {s₀ : DeTTaState} {written : List StateKey} {surplus : AssetId → ℤ}
  (h : Custodian C tx msgSender kind s₀) (hb : Books C tx.target s₀ written surplus m.state)

include h hb

variable {asset : AssetId} {token : ContractId} {amount : Amount} {frame : AuthorizedFrame}

/-- The ledger of an asset is the one of the start. -/
theorem ledger {k : AssetLedger → Kernel β}
    (hk : ∀ token, Books.OnlyLedger s₀ token asset → Leads P (k (.nativeToken token)) m) :
    Leads P (Kernel.resolveAssetLedger asset >>= k) m := by
  unfold Leads
  simp only [Kernel.resolveAssetLedger, wp_bind, wp_read, wp_okOr]
  refine ⟨fun ledger hl => ?_, fun _ => trivial⟩
  have hn : m.state.NativeOnly := fun contract record hr =>
    h.native contract record (hb.contracts ▸ hr)
  obtain ⟨token, rfl, hledger⟩ := onlyLedger_of_resolve hn hl
  exact hk token ⟨hb.keeps.1 hledger.1, fun token' ht => hledger.2 token' (hb.keeps.2 ht)⟩

/-- The contract receives an amount from an account that is no contract. -/
theorem receive {payer : Principal} (hl : Books.OnlyLedger s₀ token asset) (hp : ¬C payer)
    (hk : ∀ s', Books C tx.target s₀ written
      (fun a => surplus a + if a = asset then (amount.val : ℤ) else 0) s' →
        Leads P (k ()) (m.withState s')) :
    Leads P (transferAssetBalance call tx (.nativeToken token) payer tx.target asset amount >>= k)
      m :=
  .transfer fun s' hm => hk s' (hb.receive hl h.holder hp hm)

/-- The contract pays an amount to the caller. -/
theorem pay (hl : Books.OnlyLedger s₀ token asset) (hk : ∀ s', Books C tx.target s₀ written
      (fun a => surplus a - if a = asset then (amount.val : ℤ) else 0) s' →
        Leads P (k ()) (m.withState s')) :
    Leads P (transferAssetBalance call tx (.nativeToken token) tx.target msgSender asset amount >>=
      k) m :=
  .transfer fun s' hm => hk s' (hb.pay hl h.holder h.caller hm)

/-- The contract pays an amount, unless it is zero. -/
theorem payIf (hl : Books.OnlyLedger s₀ token asset) (hk : ∀ s', Books C tx.target s₀ written
      (fun a => surplus a - if a = asset then (amount.val : ℤ) else 0) s' →
        Leads P (k ()) (m.withState s')) :
    Leads P (Detta.onlyIf (amount ≠ 0)
      (transferAssetBalance call tx (.nativeToken token) tx.target msgSender asset amount) >>= k)
      m := by
  refine .onlyIf (fun _ => .pay h hb hl hk) fun hz => ?_
  obtain rfl : amount = 0 := not_not.1 hz
  refine hk m.state ?_
  simpa using hb

/-- The contract writes a claim. -/
theorem claim {key : StateKey} {value : Amount} (hc : key.ownerContract = tx.target)
    (hclaim : key.isClaim = true) (hn : key ∉ written)
    (ho : ∀ a, kind.owes a key = decide (a = asset))
    (hk : ∀ s', Books C tx.target s₀ (key :: written)
      (fun a => surplus a - if a = asset then (value.val : ℤ) - (s₀.uintAt key).val else 0) s' →
        Leads P (k ()) (m.withState s')) : Leads P (Kernel.stateSet frame key value >>= k) m := by
  obtain ⟨record, hr, rfl⟩ := h.record
  exact .stateSet (hk _ (hb.write value hr hc hclaim hn ho))

/-- The contract adds to a claim, unless there is nothing to add. -/
theorem collect {key : StateKey} {penalty : Amount} (hc : key.ownerContract = tx.target)
    (hclaim : key.isClaim = true) (hn : key ∉ written)
    (ho : ∀ a, kind.owes a key = decide (a = asset))
    (hk : ∀ s', Books C tx.target s₀ (key :: written)
      (fun a => surplus a - if a = asset then (penalty.val : ℤ) else 0) s' →
        Leads P (k ()) (m.withState s')) : Leads P (collectPenalty frame key penalty >>= k) m := by
  refine .onlyIf (fun _ => ?_) fun hz => ?_
  · refine .assoc (.uintAt (.assoc (.checkedAdd fun after hafter => ?_)))
    refine .claim h hb hc hclaim hn ho fun s' books => hk s' ?_
    rw [hb.unwritten hclaim hc hn] at hafter
    simpa only [hafter, Nat.cast_add, add_sub_cancel_left] using books
  · obtain rfl : penalty = 0 := not_not.1 hz
    refine hk m.state ?_
    simpa using hb.mono (List.subset_cons_self key written)

/-- A bridge locks an amount. -/
theorem lock {destinationChain : ChainId} {destinationContract : ContractId} {messageId : String}
    {recipient : Principal} (hbridge : kind.isBridge = true)
    (hk : ∀ s', Books C tx.target s₀ written
      (fun a => surplus a - if a = asset then (amount.val : ℤ) else 0) s' →
        Leads P (k ()) (m.withState s')) :
    Leads P (Kernel.appendOutbox tx destinationChain destinationContract messageId recipient asset
      amount >>= k) m := by
  obtain ⟨record, hr, rfl⟩ := h.record
  refine wp_bind.2 (.write (wp_write.2 (hk _ ?_)))
  exact (hb.lock ⟨m.state.chainId, tx.target, m.state.height, destinationChain,
    destinationContract, messageId, recipient, asset, amount⟩ _ hr hbridge rfl).event _

/-- Nothing in the books happens any more, and nothing is missing of what may be owed. -/
theorem balance {α : Type} {p : Kernel α} (hp : Quiet p)
    (hd : ∀ asset, 0 ≤ surplus asset ∨ kind.isBridge = false ∧ ∀ key, kind.owes asset key = false) :
    Leads DeTTaState.Solvent p m := by
  obtain ⟨record, hr, rfl⟩ := h.record
  refine (hp m).imp fun _ m' hm => ?_
  have hb' := hm.1 hb
  refine hb'.solvent h.solvent h.contracts fun asset => (hd asset).imp_right fun ho => ?_
  have hr' : m'.state.contracts[tx.target]? = some record := hb'.contracts.symm ▸ hr
  simp [DeTTaState.liability, hr', ho.1, DeTTaState.booked_eq_zero ho.2]

end Custody

end Leads

/-! ## Pools -/

section Methods

variable {C : ContractId → Prop} {tx : Transaction} {msgSender : Principal} {m : Machine}
  (call : ContractCall)

variable {assetA assetB : AssetId} {fee : U64}

theorem Custodian.books {kind : ContractKind} {s : DeTTaState}
    (_h : Custodian C tx msgSender kind s) : Books C tx.target s [] 0 s := .init C tx.target s

theorem owes_reserve {contract : ContractId} {asset : AssetId}
    (h : asset = assetA ∨ asset = assetB) (a : AssetId) :
    (ContractKind.ammPool assetA assetB fee).owes a (.reserve contract asset) =
      decide (a = asset) := by
  by_cases ha : a = asset
  · subst ha
    rcases h with rfl | rfl <;> simp [ContractKind.owes]
  · simp [ContractKind.owes, ha, Ne.symm ha]

theorem solvent_addLiquidity (h : Custodian C tx msgSender (.ammPool assetA assetB fee) m.state) :
    Leads DeTTaState.Solvent (addLiquidity call tx msgSender assetA assetB) m := by
  have hne : assetA ≠ assetB := by simpa [ContractKind.distinct] using h.distinct
  unfold addLiquidity
  refine .skip fun _ => .skip fun amountA => .skip fun amountB => .skip fun _ => .skip fun _ => ?_
  refine .ledger h h.books fun tokenA hA => .ledger h h.books fun tokenB hB => ?_
  refine .uintAt <| .uintAt <| .uintAt <| .uintAt ?_
  refine .receive h h.books hA h.caller fun s₁ books => ?_
  refine .receive h books hB h.caller fun s₂ books => ?_
  refine .checkedAdd fun reserveA hreserveA => ?_
  refine .claim h books rfl rfl List.not_mem_nil (owes_reserve (.inl rfl)) fun s₃ books => ?_
  refine .checkedAdd fun reserveB hreserveB => ?_
  refine .claim h books rfl rfl (by simp [hne.symm]) (owes_reserve (.inr rfl))
    fun s₄ books => ?_
  refine .balance h books ?_ fun a => ?_
  · refine .skip fun _ => .bind (.set rfl) fun _ => .skip fun _ => .bind (.set rfl) fun _ => ?_
    exact .skip fun _ => .bind .emit fun _ => .reads
  · refine .inl ?_
    simp only [Pi.zero_apply, hreserveA, hreserveB]
    split_ifs <;> omega

theorem outputAssetOf_eq_some {inputAsset outputAsset : AssetId}
    (h : outputAssetOf inputAsset assetA assetB = some outputAsset) :
    inputAsset = assetA ∧ outputAsset = assetB ∨ inputAsset = assetB ∧ outputAsset = assetA := by
  unfold outputAssetOf at h
  split_ifs at h with h₁ h₂
  · cases h
    exact .inl ⟨h₁, rfl⟩
  · cases h
    exact .inr ⟨h₂, rfl⟩

theorem solvent_swap (h : Custodian C tx msgSender (.ammPool assetA assetB fee) m.state) :
    Leads DeTTaState.Solvent (swap call tx msgSender assetA assetB fee) m := by
  have hne : assetA ≠ assetB := by simpa [ContractKind.distinct] using h.distinct
  unfold swap
  refine .skip fun _ => .skip fun inputAsset => .skip fun amountIn => .skip fun _ => ?_
  refine .skip fun _ => .okOr fun outputAsset hout => ?_
  have hassets := outputAssetOf_eq_some hout
  have hne' : outputAsset ≠ inputAsset := by
    rcases hassets with ⟨rfl, rfl⟩ | ⟨rfl, rfl⟩
    · exact hne.symm
    · exact hne
  refine .ledger h h.books fun tokenIn hIn => .ledger h h.books fun tokenOut hOut => ?_
  refine .uintAt <| .uintAt <| .skip fun _ => .skip fun _ => .skip fun _ => .skip fun _ => ?_
  refine .ensure fun hle => .skip fun _ => ?_
  refine .receive h h.books hIn h.caller fun s₁ books => .pay h books hOut fun s₂ books => ?_
  refine .checkedAdd fun reserveIn hreserveIn => ?_
  refine .claim h books rfl rfl List.not_mem_nil (owes_reserve (hassets.imp And.left And.left))
    fun s₃ books => ?_
  refine .quiet (.onlyIf (.skip fun _ => .skip fun _ => .set rfl)) fun _ s₄ h₄ => ?_
  refine .claim h (h₄ books) rfl rfl (by simp [hne'])
    (owes_reserve (hassets.symm.imp And.right And.right)) fun s₅ books => ?_
  refine .balance h books (.skip fun _ => .bind .emit fun _ => .reads) fun a => .inl ?_
  have hle' := hle.2
  rw [Word.le_def] at hle'
  simp only [Pi.zero_apply, hreserveIn, Word.val_saturatingSub]
  split_ifs <;> omega

/-! ## Bridges -/

theorem solvent_queueBridgeMessage {sourceChain : ChainId}
    (h : Custodian C tx msgSender (.bridge sourceChain) m.state) :
    Leads DeTTaState.Solvent (queueBridgeMessage call tx msgSender) m := by
  unfold queueBridgeMessage
  iterate 10 refine .skip fun _ => ?_
  refine .ledger h h.books fun token hl => ?_
  refine .receive h h.books hl h.caller fun s₁ books => .lock h books rfl fun s₂ books => ?_
  refine .balance h books .reads fun a => .inl ?_
  simp only [Pi.zero_apply]
  split_ifs <;> omega

/-! ## Vaults -/

section Vaults

variable {config : LendingConfig} {frame : AuthorizedFrame}

/-- The kind of a vault. -/
def LendingConfig.kind (config : LendingConfig) : ContractKind :=
  .lendingVault config.collateralAsset config.debtAsset config.oracleContract config.ltvBps
    config.maxOracleAge config.interestBpsPerBlock config.liquidationThresholdBps

theorem owes_collateral {contract : ContractId} {owner : Principal} {asset : AssetId}
    (a : AssetId) : config.kind.owes a (.collateral contract owner asset) =
      decide (a = config.collateralAsset) := by
  simp [LendingConfig.kind, ContractKind.owes, beq_eq_decide]

/-- A vault owes nothing but its collateral asset. -/
theorem owes_eq_false {a : AssetId} (ha : a ≠ config.collateralAsset) (key : StateKey) :
    config.kind.owes a key = false := by
  cases key <;> simp [LendingConfig.kind, ContractKind.owes, ha]

theorem solvent_depositCollateral (h : Custodian C tx msgSender config.kind m.state) :
    Leads DeTTaState.Solvent (depositCollateral call tx config.collateralAsset) m := by
  unfold depositCollateral
  refine .skip fun _ => .skip fun asset => .skip fun amount => .ensure fun ha => .skip fun _ => ?_
  subst ha
  refine .ledger h h.books fun token hl => .uintAt ?_
  refine .receive h h.books hl h.sender fun s₁ books => .checkedAdd fun after hafter => ?_
  refine .claim h books rfl rfl List.not_mem_nil owes_collateral fun s₂ books => ?_
  refine .balance h books (.bind .emit fun _ => .reads) fun a => .inl ?_
  simp only [Pi.zero_apply, hafter]
  split_ifs <;> omega

theorem quiet_accrueLendingDebt (contract : ContractId) (borrower : Principal)
    (config : LendingConfig) :
    Quiet (accrueLendingDebt frame contract borrower config) := by
  unfold accrueLendingDebt
  iterate 7 refine .skip fun _ => ?_
  exact .bind (.onlyIf (.set rfl)) fun _ => .bind (.set rfl) fun _ => .reads

theorem solvent_borrow (h : Custodian C tx msgSender config.kind m.state) :
    Leads DeTTaState.Solvent (borrow call tx msgSender config) m := by
  have hne : config.collateralAsset ≠ config.debtAsset := by
    simpa [LendingConfig.kind, ContractKind.distinct] using h.distinct
  unfold borrow
  iterate 7 refine .skip fun _ => ?_
  refine .quiet (quiet_accrueLendingDebt _ _ _) fun _ s₁ h₁ => ?_
  iterate 3 refine .skip fun _ => ?_
  refine .ledger h (h₁ h.books) fun token hl => .pay h (h₁ h.books) hl fun s₂ books => ?_
  refine .balance h books ?_ fun a => ?_
  · exact .bind (.set rfl) fun _ => .bind .emit fun _ => .reads
  · by_cases ha : a = config.debtAsset
    · exact .inr ⟨rfl, owes_eq_false (ha ▸ hne.symm)⟩
    · exact .inl (by simp [ha])

theorem quiet_settleDebt {contract : ContractId} {asset : AssetId} (config : LendingConfig)
    (price collateralAfter debtAfter : Amount) :
    Quiet (settleDebt frame (.badDebt contract asset) config price collateralAfter debtAfter) := by
  unfold settleDebt
  split
  · exact .skip fun _ => .skip fun _ => .bind (.set rfl) fun _ => .reads
  · exact .reads

theorem val_minAmount (a b : Amount) : (minAmount a b).val = min a.val b.val := by
  unfold minAmount
  split
  next h => exact (min_eq_left h).symm
  next h => exact (min_eq_right (Nat.le_of_lt (Nat.not_le.1 h))).symm

theorem solvent_liquidate (h : Custodian C tx msgSender config.kind m.state) :
    Leads DeTTaState.Solvent (liquidate call tx msgSender config) m := by
  unfold liquidate
  refine .skip fun _ => .skip fun borrower => ?_
  iterate 4 refine .skip fun _ => ?_
  refine .quiet (quiet_accrueLendingDebt _ _ _) fun debt s₁ h₁ => .skip fun _ => .uintAt ?_
  have hcollateral : s₁.uintAt (.collateral tx.target borrower config.collateralAsset) =
      m.state.uintAt (.collateral tx.target borrower config.collateralAsset) :=
    (h₁ h.books).unwritten rfl rfl List.not_mem_nil
  refine .skip fun _ => .skip fun _ => .skip fun _ => ?_
  refine .quiet (quiet_settleDebt _ _ _ _) fun _ s₂ h₂ => ?_
  have books := h₂ (h₁ h.books)
  refine .ledger h books fun debtToken hdebt => .ledger h books fun token hl => ?_
  refine .receive h books hdebt h.caller fun s₃ books => .payIf h books hl fun s₄ books => ?_
  refine .quiet (.set rfl) fun _ s₅ h₅ => ?_
  refine .claim h (h₅ books) rfl rfl List.not_mem_nil owes_collateral fun s₆ books => ?_
  refine .balance h books ?_ fun a => .inl ?_
  · exact .skip fun _ => .skip fun _ => .skip fun _ => .bind .emit fun _ => .reads
  · simp only [Machine.state_withState, hcollateral, Pi.zero_apply, Word.val_saturatingSub,
      val_minAmount]
    split_ifs <;> omega

end Vaults

/-! ## Staking -/

section Staking

variable {asset : AssetId} {parameters : StakingParameters}

/-- The kind of a staking contract. -/
def StakingParameters.kind (parameters : StakingParameters) (asset : AssetId) : ContractKind :=
  .staking asset parameters.unbondingDelay parameters.rewardPerBlock parameters.unstakePenaltyBps

theorem owes_staked {key : StateKey} {contract : ContractId}
    (hk : key = .totalStaked contract asset ∨ key = .totalPendingUnbond contract asset ∨
      key = .stakingPenaltyCollected contract asset) (a : AssetId) :
    (parameters.kind asset).owes a key = decide (a = asset) := by
  by_cases ha : a = asset
  · subst ha
    rcases hk with rfl | rfl | rfl <;> simp [StakingParameters.kind, ContractKind.owes]
  · rcases hk with rfl | rfl | rfl <;> simp [StakingParameters.kind, ContractKind.owes, ha]

theorem quiet_accrueStakingRewards {frame : AuthorizedFrame} (contract : ContractId)
    (staker : Principal) (asset : AssetId) (rewardPerBlock : Amount) :
    Quiet (accrueStakingRewards frame contract staker asset rewardPerBlock) := by
  unfold accrueStakingRewards
  iterate 6 refine .skip fun _ => ?_
  refine .bind (.onlyIf (.skip fun _ => .skip fun _ => .set rfl)) fun _ => ?_
  exact .bind (.set rfl) fun _ => .reads

/-- A penalty and what is left of an amount are the amount. -/
theorem Leads.penalty {β : Type} {P : DeTTaState → Prop} {amount : Amount} {penaltyBps : U64}
    {k : Amount × Amount → Kernel β}
    (hk : ∀ split : Amount × Amount, split.1.val + split.2.val = amount.val → Leads P (k split) m) :
    Leads P (applyStakingPenalty amount penaltyBps >>= k) m := by
  unfold Leads applyStakingPenalty
  simp only [wp_bind, wp_ensure, Kernel.checkedMul, wp_okOr, wp_pure]
  refine ⟨fun hbps => ⟨fun scaled hs => hk _ ?_, fun _ => trivial⟩, fun _ => trivial⟩
  have hle : penaltyBps.val ≤ 10000 := hbps
  have hscaled : scaled.val = amount.val * penaltyBps.val := Word.checkedMul_eq_some.1 hs
  have hdiv : scaled.val / 10000 ≤ amount.val :=
    Nat.div_le_of_le_mul (by rw [hscaled, Nat.mul_comm]; exact Nat.mul_le_mul_right _ hle)
  have hval : (10000 : Amount).val = 10000 := rfl
  simp only [Word.val_saturatingSub, Word.val_div, hval]
  omega

theorem solvent_stake (h : Custodian C tx msgSender (parameters.kind asset) m.state) :
    Leads DeTTaState.Solvent (stake call tx msgSender asset parameters.rewardPerBlock) m := by
  unfold stake
  refine .skip fun amount => ?_
  refine .quiet (quiet_accrueStakingRewards _ _ _ _) fun _ s₁ h₁ => .skip fun _ => .uintAt ?_
  have htotal : s₁.uintAt (.totalStaked tx.target asset) =
      m.state.uintAt (.totalStaked tx.target asset) :=
    (h₁ h.books).unwritten rfl rfl List.not_mem_nil
  refine .ledger h (h₁ h.books) fun token hl => ?_
  refine .receive h (h₁ h.books) hl h.caller fun s₂ books => .skip fun _ => ?_
  refine .quiet (.set rfl) fun _ s₃ h₃ => .checkedAdd fun after hafter => ?_
  refine .claim h (h₃ books) rfl rfl List.not_mem_nil (owes_staked (.inl rfl))
    fun s₄ books => ?_
  refine .balance h books (.skip fun _ => .bind .emit fun _ => .reads) fun a => .inl ?_
  rw [Machine.state_withState, htotal] at hafter
  simp only [Pi.zero_apply, hafter]
  split_ifs <;> omega

theorem solvent_unstake (h : Custodian C tx msgSender (parameters.kind asset) m.state) :
    Leads DeTTaState.Solvent (unstake call tx msgSender asset parameters) m := by
  unfold unstake
  refine .skip fun _ => .skip fun amount => ?_
  refine .quiet (quiet_accrueStakingRewards _ _ _ _) fun _ s₁ h₁ => ?_
  refine .skip fun _ => .skip fun _ => .uintAt (.ensure fun hle => ?_)
  rw [Word.le_def, Machine.state_withState, (h₁ h.books).unwritten rfl rfl List.not_mem_nil] at hle
  refine .penalty fun split hsplit => .ledger h (h₁ h.books) fun token hl => ?_
  refine .quiet (.set rfl) fun _ s₂ h₂ => ?_
  refine .claim h (h₂ (h₁ h.books)) rfl rfl List.not_mem_nil (owes_staked (.inl rfl))
    fun s₃ books => ?_
  refine .collect h books rfl rfl (by simp) (owes_staked (.inr (.inr rfl))) fun s₄ books => ?_
  refine .payIf h books hl fun s₅ books => .balance h books ?_ fun a => .inl ?_
  · exact .skip fun _ => .bind (.onlyIf .emit) fun _ => .bind .emit fun _ => .reads
  · rw [Machine.state_withState, (h₁ h.books).unwritten rfl rfl List.not_mem_nil]
    simp only [Pi.zero_apply, Word.val_saturatingSub]
    split_ifs <;> omega

theorem solvent_requestUnstake (h : Custodian C tx msgSender (parameters.kind asset) m.state) :
    Leads DeTTaState.Solvent (requestUnstake tx msgSender asset parameters.rewardPerBlock
      parameters.unbondingDelay parameters.unstakePenaltyBps) m := by
  unfold requestUnstake
  refine .skip fun amount => ?_
  refine .quiet (quiet_accrueStakingRewards _ _ _ _) fun _ s₁ h₁ => ?_
  refine .skip fun _ => .skip fun _ => .uintAt (.ensure fun hle => .skip fun _ => .uintAt ?_)
  rw [Machine.state_withState, (h₁ h.books).unwritten rfl rfl List.not_mem_nil] at hle ⊢
  rw [(h₁ h.books).unwritten rfl rfl List.not_mem_nil]
  rw [Word.le_def] at hle
  refine .skip fun _ => .skip fun _ => .penalty fun split hsplit => ?_
  refine .quiet (.set rfl) fun _ s₂ h₂ => ?_
  refine .claim h (h₂ (h₁ h.books)) rfl rfl List.not_mem_nil (owes_staked (.inl rfl))
    fun s₃ books => ?_
  refine .skip fun _ => .quiet (.set rfl) fun _ s₄ h₄ => .checkedAdd fun pending hpending => ?_
  refine .claim h (h₄ books) rfl rfl (by simp) (owes_staked (.inr (.inl rfl))) fun s₅ books => ?_
  refine .collect h books rfl rfl (by simp) (owes_staked (.inr (.inr rfl))) fun s₆ books => ?_
  refine .balance h books ?_ fun a => .inl ?_
  · refine .bind (.set rfl) fun _ => .skip fun _ => .bind (.onlyIf .emit) fun _ => ?_
    exact .bind .emit fun _ => .reads
  · simp only [Pi.zero_apply, hpending, Word.val_saturatingSub]
    split_ifs <;> omega

theorem solvent_completeUnstake (h : Custodian C tx msgSender (parameters.kind asset) m.state) :
    Leads DeTTaState.Solvent (completeUnstake call tx msgSender asset) m := by
  unfold completeUnstake
  refine .skip fun amount => .skip fun _ => .skip fun _ => .skip fun _ => .skip fun _ => ?_
  refine .skip fun _ => .skip fun _ => .uintAt (.ensure fun hle => ?_)
  rw [Word.le_def] at hle
  refine .quiet (.set rfl) fun _ s₁ h₁ => ?_
  refine .claim h (h₁ h.books) rfl rfl List.not_mem_nil (owes_staked (.inr (.inl rfl)))
    fun s₂ books => ?_
  refine .ledger h books fun token hl => .pay h books hl fun s₃ books => ?_
  refine .balance h books (.skip fun _ => .bind .emit fun _ => .reads) fun a => .inl ?_
  simp only [Pi.zero_apply, Word.val_saturatingSub]
  split_ifs <;> omega

end Staking

end Methods

end Detta
