import Detta.Safety.Rules

/-!
# What a call frame may do

The single steps by which the code of a frame changes the state, without the code of
the frames it calls, and the calls it makes. All of the kernel's methods are made
of these steps (`Detta.Safety.Methods`), so that what holds in every run follows
from what holds along each of them.

* `OwnStep f s s'`: the frame `f` takes the state `s` to `s'`.
* `Attempt f s s'`: a movement of tokens that may still be refused, because the sum
  of the balances is wrong after it. A refused one ends the transaction.
* `Spawns f s tx msgSender`: the frame `f` makes a call.
* `Grows s s'`: what never changes during a transaction, or only grows.
-/

namespace Detta

/-! ## Movements of tokens -/

namespace DeTTaState

/-- The contract is a native token. -/
def IsToken (s : DeTTaState) (contract : ContractId) : Prop :=
  s.contracts[contract]?.map (·.kind) = some .token

/-- The contract is the token of an asset. -/
structure KeepsAsset (s : DeTTaState) (contract : ContractId) (asset : AssetId) : Prop where
  isToken : s.IsToken contract
  supply : s.storage.contains (.totalSupply contract asset) = true

/-- The state after an amount moves between two accounts. -/
def move (s : DeTTaState) (token : ContractId) (payer receiver : Principal) (asset : AssetId)
    (amount : Amount) : Option DeTTaState :=
  let payerBalance := s.uintAt (.balance token payer asset)
  if amount ≤ payerBalance then
    ((s.uintAt (.balance token receiver asset)).checkedAdd amount).map fun received =>
      (s.put (.balance token payer asset) (payerBalance.saturatingSub amount)).put
        (.balance token receiver asset) received
  else none

/-- The state after an amount is created for an account. -/
def mint (s : DeTTaState) (token : ContractId) (receiver : Principal) (asset : AssetId)
    (amount : Amount) : Option DeTTaState := do
  let supply ← (s.uintAt (.totalSupply token asset)).checkedAdd amount
  let received ← (s.uintAt (.balance token receiver asset)).checkedAdd amount
  pure ((s.put (.totalSupply token asset) supply).put (.balance token receiver asset) received)

variable {s s' : DeTTaState} {token : ContractId} {payer receiver : Principal} {asset : AssetId}
  {amount : Amount}

theorem move_eq_some :
    s.move token payer receiver asset amount = some s' ↔
      amount ≤ s.uintAt (.balance token payer asset) ∧
      ∃ received, (s.uintAt (.balance token receiver asset)).checkedAdd amount = some received ∧
        (s.put (.balance token payer asset)
          ((s.uintAt (.balance token payer asset)).saturatingSub amount)).put
            (.balance token receiver asset) received = s' := by
  simp [move, Option.map_eq_some_iff]

theorem mint_eq_some :
    s.mint token receiver asset amount = some s' ↔
      ∃ supply, (s.uintAt (.totalSupply token asset)).checkedAdd amount = some supply ∧
      ∃ received, (s.uintAt (.balance token receiver asset)).checkedAdd amount = some received ∧
        (s.put (.totalSupply token asset) supply).put (.balance token receiver asset) received =
          s' := by
  simp [mint, Option.bind_eq_some_iff]

end DeTTaState

/-! ## Frames -/

/-- The keys that a method may write in the storage of its own contract. -/
def Method.writes : Method → StateKey → Bool
  | .addLiquidity, .reserve _ _ | .addLiquidity, .lpSupply _ | .addLiquidity, .lpBalance _ _ => true
  | .swap, .reserve _ _ | .swap, .ammFeeCollected _ _ => true
  | .submitPrice, .oraclePrice _ _ | .submitPrice, .oracleTimestamp _ _ => true
  | .redeemBridgeMessage, .bridgeMessageConsumed _ _ => true
  | .depositCollateral, .collateral _ _ _ => true
  | .borrow, .debt _ _ _ | .borrow, .debtLastAccrualHeight _ _ _ => true
  | .liquidate, .debt _ _ _ | .liquidate, .debtLastAccrualHeight _ _ _
  | .liquidate, .collateral _ _ _ | .liquidate, .badDebt _ _ => true
  | .stake, .stakeBalance _ _ _ | .stake, .totalStaked _ _ | .stake, .stakingRewardBalance _ _ _
  | .stake, .stakingLastRewardHeight _ _ _ => true
  | .unstake, .stakeBalance _ _ _ | .unstake, .totalStaked _ _
  | .unstake, .stakingPenaltyCollected _ _ | .unstake, .stakingRewardBalance _ _ _
  | .unstake, .stakingLastRewardHeight _ _ _ => true
  | .requestUnstake, .stakeBalance _ _ _ | .requestUnstake, .totalStaked _ _
  | .requestUnstake, .pendingUnbond _ _ _ | .requestUnstake, .totalPendingUnbond _ _
  | .requestUnstake, .stakingPenaltyCollected _ _ | .requestUnstake, .unbondReadyHeight _ _ _
  | .requestUnstake, .stakingRewardBalance _ _ _
  | .requestUnstake, .stakingLastRewardHeight _ _ _ => true
  | .completeUnstake, .pendingUnbond _ _ _ | .completeUnstake, .totalPendingUnbond _ _ => true
  | .claimStakingRewards, .stakingRewardBalance _ _ _
  | .claimStakingRewards, .stakingLastRewardHeight _ _ _ => true
  | .other _, .aspectState _ _ _ _ => true
  | _, _ => false

/-- The asset of a number that a staking contract keeps for its stakes. -/
def StateKey.stakedAsset : StateKey → Option AssetId
  | stakeBalance _ _ asset | totalStaked _ asset | pendingUnbond _ _ asset
  | totalPendingUnbond _ asset => some asset
  | _ => none

/-- The asset of a staking contract. -/
def ContractKind.stakedAsset : ContractKind → Option AssetId
  | staking asset _ _ _ => some asset
  | _ => none

/-- The methods of native contracts that pay in any asset, also in aspect tokens. -/
def Method.settles : Method → Bool
  | .addLiquidity | .swap | .queueBridgeMessage | .depositCollateral | .borrow | .liquidate | .stake
  | .unstake | .completeUnstake => true
  | _ => false

/-- The methods by which a governance contract schedules and makes changes. -/
def Method.timelocks : Method → Bool
  | .scheduleUpgrade | .executeUpgrade | .schedulePolicyUpdate | .executePolicyUpdate => true
  | _ => false

/-- The effects that the manifests of native contracts declare for a method. -/
def Method.declares : Method → List PolicyEffect
  | .transfer | .addLiquidity | .swap | .submitPrice | .redeemBridgeMessage | .depositCollateral
  | .borrow | .liquidate | .stake | .unstake | .requestUnstake | .completeUnstake
  | .claimStakingRewards => [.storageWrite, .eventEmit]
  | .approve | .permit | .registerAccountKey | .revokeAccountKey => [.registryWrite, .eventEmit]
  | .transferFrom => [.storageWrite, .registryWrite, .eventEmit]
  | .queueBridgeMessage => [.crossShardOutboxAppend, .eventEmit]
  | .pauseContract | .unpauseContract => [.contractPause, .eventEmit]
  | .scheduleUpgrade => [.upgradeSchedule, .eventEmit]
  | .executeUpgrade => [.contractCodeUpgrade, .eventEmit]
  | .schedulePolicyUpdate => [.policyUpdateSchedule, .eventEmit]
  | .executePolicyUpdate => [.methodPolicyUpdate, .eventEmit]
  | .routeTransferFrom => [.crossContractCall]
  | .deployToken | .deployAmmPool => [.contractDeploy, .storageWrite, .eventEmit]
  | .submitAspectModule => [.moduleRegister, .eventEmit]
  | .deployAspectContract => [.contractDeploy, .eventEmit]
  | .other _ => []

/-- The policies of a native contract have all effects of its manifest. -/
def ContractRecord.Declared (record : ContractRecord) : Prop :=
  record.kind.isAspectModule = false → ∀ (method : Method) (policy : MethodPolicy),
    record.methodPolicies[method]? = some policy →
    ∀ e ∈ method.declares, policy.effects.contains e = true

/-- The new policies are those of the old record, maybe with more effects. -/
def ContractRecord.PoliciesWithin (old new : ContractRecord) : Prop :=
  ∀ (method : Method) (policy' : MethodPolicy), new.methodPolicies[method]? = some policy' →
    ∃ policy : MethodPolicy, old.methodPolicies[method]? = some policy ∧
      ∀ e, policy.effects.contains e = true → policy'.effects.contains e = true

/-- The methods that charge their caller. -/
def Method.charges : Method → Bool
  | .transfer | .addLiquidity | .swap | .queueBridgeMessage | .liquidate | .stake => true
  | _ => false

/-- The methods that pay out what the contract holds. -/
def Method.paysOut : Method → Bool
  | .swap | .borrow | .liquidate | .unstake | .completeUnstake => true
  | _ => false

/-- The assets that a method of a kind of contract moves or creates, on their ledgers. -/
def ContractKind.moves : ContractKind → Method → List AssetId
  | ammPool assetA assetB _, .addLiquidity | ammPool assetA assetB _, .swap => [assetA, assetB]
  | lendingVault collateralAsset _ _ _ _ _ _, .depositCollateral => [collateralAsset]
  | lendingVault _ debtAsset _ _ _ _ _, .borrow => [debtAsset]
  | lendingVault collateralAsset debtAsset _ _ _ _ _, .liquidate => [collateralAsset, debtAsset]
  | staking asset _ _ _, .stake | staking asset _ _ _, .unstake
  | staking asset _ _ _, .completeUnstake | staking asset _ _ _, .claimStakingRewards => [asset]
  | _, _ => []

/-- A contract over two assets has two different ones. -/
def ContractKind.distinct : ContractKind → Bool
  | ammPool assetA assetB _ => assetA != assetB
  | lendingVault collateralAsset debtAsset _ _ _ _ _ => collateralAsset != debtAsset
  | _ => true

/-- The methods of a kind of contract. -/
def ContractKind.offers : ContractKind → Method → Bool
  | token, .transfer | token, .approve | token, .transferFrom | token, .permit => true
  | ammPool .., .addLiquidity | ammPool .., .swap => true
  | oracle .., .submitPrice => true
  | bridge _, .queueBridgeMessage | bridge _, .redeemBridgeMessage => true
  | governance .., .pauseContract | governance .., .unpauseContract
  | governance .., .scheduleUpgrade | governance .., .executeUpgrade
  | governance .., .schedulePolicyUpdate | governance .., .executePolicyUpdate => true
  | lendingVault .., .depositCollateral | lendingVault .., .borrow
  | lendingVault .., .liquidate => true
  | staking .., .stake | staking .., .unstake | staking .., .requestUnstake
  | staking .., .completeUnstake | staking .., .claimStakingRewards => true
  | router _, .routeTransferFrom => true
  | factory, .deployToken | factory, .deployAmmPool | factory, .submitAspectModule
  | factory, .deployAspectContract => true
  | accountRegistry, .registerAccountKey | accountRegistry, .revokeAccountKey => true
  | aspectModule .., .other _ => true
  | _, _ => false

/-- What the manifests of native contracts ask of the caller of a method. -/
def Method.authority : Method → PolicyAuthority
  | .transferFrom => .liveAllowanceGrant
  | .permit => .permitCertificate
  | .submitPrice => .oracleUpdaterGrant
  | .redeemBridgeMessage => .bridgeCertificate
  | .pauseContract | .unpauseContract | .scheduleUpgrade | .executeUpgrade | .schedulePolicyUpdate
  | .executePolicyUpdate => .governanceAdminGrant
  | _ => .txSender

/-- A native contract exports the methods of its kind, each with the authority of its manifest. -/
def ContractRecord.Exports (record : ContractRecord) : Prop :=
  record.kind.isAspectModule = false → ∀ method, record.kind.offers method = true →
    record.exportedMethods.contains method = true ∧
      ∃ policy, record.methodPolicies[method]? = some policy ∧ policy.authority = method.authority

/-- Every policy stays, with its authority. -/
def ContractRecord.KeepsAuthority (old new : ContractRecord) : Prop :=
  ∀ (method : Method) (policy : MethodPolicy), old.methodPolicies[method]? = some policy →
    ∃ policy', new.methodPolicies[method]? = some policy' ∧ policy'.authority = policy.authority

/-- The record of a native contract is one of its manifest. -/
structure ContractRecord.ByManifest (record : ContractRecord) : Prop where
  declared : record.Declared
  exports : record.Exports

namespace Frame

variable (f : Frame)

/-- The contract of the frame is deployed, of a kind that has the method, and not paused. -/
def Live : Prop :=
  ∃ record, f.start.contracts[f.tx.target]? = some record ∧
    record.kind.offers f.tx.method = true ∧
    f.start.pausedContracts.contains f.tx.target = false

/-- The frame is one of a governance contract that ends the pause of a contract. -/
def Unpauses (contract : ContractId) : Prop :=
  f.tx.method = .unpauseContract ∧ ∃ record delay,
    f.start.contracts[f.tx.target]? = some record ∧ record.kind = .governance contract delay

/-- The frame changes either the code hash of a contract, or its policies. -/
inductive Governs (old new : ContractRecord) : Prop where
  | upgrade (hm : f.tx.method = .executeUpgrade) (hp : new.methodPolicies = old.methodPolicies)
  | policy (hm : f.tx.method = .executePolicyUpdate) (hc : new.codeHash = old.codeHash)

/-- The frame moves or creates an asset on the ledger of the asset: one of the assets of its
    contract, or the asset of a message. -/
def Moves (asset : AssetId) : Prop :=
  (∃ record, f.start.contracts[f.tx.target]? = some record ∧
    asset ∈ record.kind.moves f.tx.method) ∨
  (f.tx.method = .queueBridgeMessage ∨ f.tx.method = .redeemBridgeMessage) ∧
    Argument.asset asset ∈ f.tx.args

/-- The contract of the frame keeps stakes in an asset. -/
def Stakes (asset : AssetId) : Prop :=
  ∃ record, f.start.contracts[f.tx.target]? = some record ∧ record.kind.stakedAsset = some asset

/-- What the frame may write in the storage of its own contract. -/
structure Writes (key : StateKey) : Prop where
  method : f.tx.method.writes key = true
  staked : ∀ asset, key.stakedAsset = some asset → f.Stakes asset

theorem Writes.of {f : Frame} {key : StateKey} {method : Method} (hm : f.tx.method = method)
    (hw : method.writes key = true) (hn : key.stakedAsset = none) : f.Writes key :=
  ⟨hm ▸ hw, fun _ ha => by rw [hn] at ha; cases ha⟩

theorem Writes.stake {f : Frame} {key : StateKey} {method : Method} {asset : AssetId}
    (hm : f.tx.method = method) (hw : method.writes key = true)
    (ha : key.stakedAsset = some asset) (hs : f.Stakes asset) : f.Writes key :=
  ⟨hm ▸ hw, fun _ ha' => by cases ha.symm.trans ha'; exact hs⟩

/-- The frame settles in an asset, on the token that was found for it when the frame
    started. -/
structure SettlesOn (token : ContractId) (asset : AssetId) : Prop where
  moves : f.Moves asset
  ledger : f.start.resolveAssetLedger asset = some (.nativeToken token)

/-- Who may pay without having allowed it: the caller, the contract itself, and, for
    collateral, the sender of the transaction. -/
inductive Spends : Principal → Prop where
  | caller (hm : f.tx.method.charges = true) : Spends f.msgSender
  | self (hm : f.tx.method.paysOut = true) : Spends f.tx.target
  | depositor (hm : f.tx.method = .depositCollateral) : Spends f.tx.sender

/-- The owner has allowed the caller to spend an amount, by a grant that is live when
    the frame starts. -/
def Allowed (token : ContractId) (owner : Principal) (asset : AssetId) (amount : Amount) : Prop :=
  ∃ g, f.start.registry[GrantKey.allowance token owner f.msgSender asset]? = some g ∧
    g.active = true ∧ g.revoked = false ∧ amount ≤ g.remaining

/-- Whose native tokens the frame may move: those of the accounts that it spends for,
    and in `transferFrom`, as its first step, those of the owner it names. -/
inductive Pays (s : DeTTaState) (token : ContractId) (asset : AssetId) (amount : Amount) :
    Principal → Prop where
  | spends {payer : Principal} (h : f.Spends payer) : Pays s token asset amount payer
  | allowed {payer : Principal} (hm : f.tx.method = .transferFrom) (ht : token = f.tx.target)
      (ha : f.tx.args[0]? = some (.principal payer)) (hs : s.storage = f.start.storage)
      (h : f.Allowed token payer asset amount) : Pays s token asset amount payer

end Frame

/-! ## Steps -/

/-- A movement of tokens, before the balances are checked against the supply. -/
inductive Attempt (f : Frame) (s : DeTTaState) (token : ContractId) (asset : AssetId) :
    DeTTaState → Prop where
  | move {payer receiver : Principal} {amount : Amount} {s' : DeTTaState} (ht : s.IsToken token)
      (hp : f.Pays s token asset amount payer)
      (h : s.move token payer receiver asset amount = some s')
      (hd : token = f.tx.target ∨ s.KeepsAsset token asset ∧ f.SettlesOn token asset) :
      Attempt f s token asset s'
  | mint {receiver : Principal} {amount : Amount} {s' : DeTTaState} (ht : s.KeepsAsset token asset)
      (h : s.mint token receiver asset amount = some s') (hd : f.SettlesOn token asset) :
      Attempt f s token asset s'

/-- Write several numbers. -/
def DeTTaState.puts (s : DeTTaState) (entries : List (StateKey × Amount)) : DeTTaState :=
  entries.foldl (fun s e => s.put e.1 e.2) s

/-- A state with one more contract. -/
def DeTTaState.withContract (s : DeTTaState) (contract : ContractId) (record : ContractRecord) :
    DeTTaState :=
  { s with contracts := s.contracts.insert contract record }

section Puts

variable (s : DeTTaState) (entries : List (StateKey × Amount))

/-- Writing numbers changes nothing but the storage. -/
theorem DeTTaState.puts_eq : s.puts entries = { s with storage := (s.puts entries).storage } := by
  induction entries generalizing s with
  | nil => rfl
  | cons e entries ih => exact ih (s.put e.1 e.2)

@[simp] theorem DeTTaState.contracts_puts : (s.puts entries).contracts = s.contracts := by
  rw [puts_eq]

@[simp] theorem DeTTaState.registry_puts : (s.puts entries).registry = s.registry := by
  rw [puts_eq]

@[simp] theorem DeTTaState.crossShardOutbox_puts :
    (s.puts entries).crossShardOutbox = s.crossShardOutbox := by
  rw [puts_eq]

theorem DeTTaState.puts_withContract (contract : ContractId) (record : ContractRecord) :
    (s.withContract contract record).puts entries =
      (s.puts entries).withContract contract record := by
  induction entries generalizing s with
  | nil => rfl
  | cons e entries ih => exact ih (s.put e.1 e.2)

end Puts

variable {token : ContractId} {f : Frame} {asset : AssetId}

/-- Movements of tokens write two numbers: a balance or the supply, and then a balance. -/
theorem Attempt.exists_put {s s' : DeTTaState}
    (h : Attempt f s token asset s') : ∃ key value receiver value',
      (key = .totalSupply token asset ∨ ∃ payer, key = .balance token payer asset) ∧
        s' = (s.put key value).put (.balance token receiver asset) value' := by
  cases h with
  | move _ _ h =>
    obtain ⟨-, _, -, rfl⟩ := DeTTaState.move_eq_some.1 h
    exact ⟨_, _, _, _, .inr ⟨_, rfl⟩, rfl⟩
  | mint _ h =>
    obtain ⟨_, -, _, -, rfl⟩ := DeTTaState.mint_eq_some.1 h
    exact ⟨_, _, _, _, .inl rfl, rfl⟩

/-- They change nothing else. -/
theorem Attempt.onlyStorage {s s' : DeTTaState}
    (h : Attempt f s token asset s') : ∃ storage, s' = { s with storage := storage } := by
  obtain ⟨_, _, _, _, -, rfl⟩ := h.exists_put
  exact ⟨_, rfl⟩

/-- The first balances of a token. -/
def initialBalances (contract : ContractId) (asset : AssetId)
    (balances : List (Principal × Amount)) : List (StateKey × Amount) :=
  balances.map fun b => (.balance contract b.1 asset, b.2)

/-- The sum of some amounts. -/
def amountSum (balances : List (Principal × Amount)) : ℕ := (balances.map fun b => b.2.val).sum

/-- The first numbers of a pool. -/
def initialPool (contract : ContractId) (assetA assetB : AssetId) : List (StateKey × Amount) :=
  [(.reserve contract assetA, 0), (.reserve contract assetB, 0),
    (.ammFeeCollected contract assetA, 0), (.ammFeeCollected contract assetB, 0),
    (.lpSupply contract, 0)]

/-- The first numbers of a staking contract. -/
def initialStaking (contract : ContractId) (asset : AssetId) : List (StateKey × Amount) :=
  [(.totalStaked contract asset, 0), (.totalPendingUnbond contract asset, 0),
    (.stakingPenaltyCollected contract asset, 0)]

/-- The kind of a new contract, and the first numbers that are written for it. -/
inductive Founded (s : DeTTaState) (contract : ContractId) :
    ContractKind → List (StateKey × Amount) → Prop where
  | token {asset : AssetId} {balances : List (Principal × Amount)} {total : Amount}
      (hd : (balances.map (·.1)).Nodup) (ht : total.val = amountSum balances)
      (hs : ∀ key ∈ s.storage.keys, isSupplyElsewhere contract asset key = false) :
      Founded s contract .token
        (initialBalances contract asset balances ++ [(.totalSupply contract asset, total)])
  | ammPool {assetA assetB : AssetId} {swapFeeBps : U64} (hab : assetA ≠ assetB) :
      Founded s contract (.ammPool assetA assetB swapFeeBps) (initialPool contract assetA assetB)
  | oracle {asset : AssetId} {maxAge : U64} :
      Founded s contract (.oracle asset maxAge)
        [(.oraclePrice contract asset, 0), (.oracleTimestamp contract asset, 0)]
  | staking {asset : AssetId} {unbondingDelay : U64} {rewardPerBlock : Amount}
      {unstakePenaltyBps : U64} :
      Founded s contract (.staking asset unbondingDelay rewardPerBlock unstakePenaltyBps)
        (initialStaking contract asset)
  | bare {kind : ContractKind} (hk : kind.distinct = true) : Founded s contract kind []

/-- Which contracts a frame deploys. -/
inductive Frame.Deploys (f : Frame) (s : DeTTaState) (contract : ContractId)
    (record : ContractRecord) : Prop where
  | token (hm : f.tx.method = .deployToken) (hk : record.kind = .token)
  | ammPool {assetA assetB : AssetId} {swapFeeBps : U64} (hm : f.tx.method = .deployAmmPool)
      (hk : record.kind = .ammPool assetA assetB swapFeeBps)
  | aspectModule {moduleHash bundleId : String} {module : AspectModuleRecord}
      (hm : f.tx.method = .deployAspectContract)
      (ha : f.tx.args[0]? = some (.text contract))
      (hh : f.tx.args[1]? = some (.text moduleHash))
      (hb : f.tx.args[2]? = some (.text bundleId))
      (hs : s.aspectModules[moduleHash]? = some module)
      (hr : ContractRecord.aspectModuleContract contract module bundleId = .ok record)

/-- One step of the code of a frame. -/
inductive OwnStep (f : Frame) (s : DeTTaState) : DeTTaState → Prop where
  | event (payload : EventPayload) :
      OwnStep f s { s with
        events := s.events ++
          [⟨f.tx.target, f.tx.txHash, Word.ofNat 64 s.events.length, payload⟩] }
  | put {key : StateKey} (value : Amount) (hc : key.ownerContract = f.tx.target)
      (hk : f.Writes key) : OwnStep f s (s.put key value)
  | tokens {token : ContractId} {asset : AssetId} {s' : DeTTaState}
      (h : Attempt f s token asset s') (hi : s'.tokenInvariantsHold token asset = true) :
      OwnStep f s s'
  | approve (spender : Principal) (asset : AssetId) (amount : Amount)
      (hm : f.tx.method = .approve) :
      OwnStep f s (s.grant (.allowance f.tx.target f.msgSender spender asset)
        (Grant.allowance f.msgSender spender amount))
  | permit {owner : Principal} (spender : Principal) (asset : AssetId) (amount : Amount)
      (hm : f.tx.method = .permit) (ha : f.tx.args[0]? = some (.principal owner)) :
      OwnStep f s (s.grant (.allowance f.tx.target owner spender asset)
        (Grant.allowance owner spender amount))
  | consume {owner : Principal} {asset : AssetId} {amount spent : Amount} {g : Grant}
      (hm : f.tx.method = .transferFrom)
      (hg : s.registry[GrantKey.allowance f.tx.target owner f.msgSender asset]? = some g)
      (hs : g.spent.checkedAdd amount = some spent) :
      OwnStep f s (s.grant (.allowance f.tx.target owner f.msgSender asset)
        { g with spent := spent })
  | accountKey {key : String} (g : Grant)
      (hm : f.tx.method = .registerAccountKey ∨ f.tx.method = .revokeAccountKey) :
      OwnStep f s (s.grant (.accountSigner f.msgSender key) g)
  | admin {contract : ContractId} (hm : f.tx.method = .deployAspectContract)
      (ha : f.tx.args[0]? = some (.text contract))
      (hn : f.start.contracts.contains contract = false)
      (hc : s.contracts.contains contract = true) :
      OwnStep f s (s.grant (.governanceAdmin contract f.tx.sender)
        (Grant.governanceAdmin f.tx.sender))
  | certificate (nonce : String) :
      OwnStep f s { s with usedCertificateNonces := s.usedCertificateNonces.insert nonce }
  | outbox (message : CrossShardMessage) (hc : message.sourceContract = f.tx.target)
      (hm : f.tx.method = .queueBridgeMessage ∨ ∃ projection, f.tx.method = .other projection)
      (hn : f.tx.method ≠ .queueBridgeMessage →
        s.outboundMessageIds.contains message.messageId = false) :
      OwnStep f s { s with
        outboundMessageIds := s.outboundMessageIds.insert message.messageId
        crossShardOutbox := s.crossShardOutbox ++ [message] }
  | pause (paused : Std.ExtTreeSet ContractId)
      (hm : f.tx.method = .pauseContract ∨ f.tx.method = .unpauseContract)
      (hp : ∀ contract, s.pausedContracts.contains contract = true →
        paused.contains contract = true ∨ f.Unpauses contract) :
      OwnStep f s { s with pausedContracts := paused }
  | schedule (upgrades : Std.ExtTreeMap String ScheduledUpgrade)
      (updates : Std.ExtTreeMap String ScheduledPolicyUpdate) (hm : f.tx.method.timelocks = true)
      (hu : f.tx.method ≠ .scheduleUpgrade →
        ∀ id, upgrades.contains id = s.scheduledUpgrades.contains id)
      (hp : f.tx.method ≠ .schedulePolicyUpdate →
        ∀ id, updates.contains id = s.scheduledPolicyUpdates.contains id) :
      OwnStep f s { s with scheduledUpgrades := upgrades, scheduledPolicyUpdates := updates }
  | govern {contract : ContractId} {old new : ContractRecord}
      (ho : s.contracts[contract]? = some old) (hk : new.kind = old.kind)
      (he : new.exportedMethods = old.exportedMethods) (hg : f.Governs old new)
      (hp : old.PoliciesWithin new) (ha : old.KeepsAuthority new) :
      OwnStep f s (s.withContract contract new)
  | module (module : AspectModuleRecord) (hm : f.tx.method = .submitAspectModule)
      (hn : s.aspectModules.contains module.moduleHash = false) :
      OwnStep f s { s with aspectModules := s.aspectModules.insert module.moduleHash module }
  | deploy {contract : ContractId} {record : ContractRecord} {entries : List (StateKey × Amount)}
      (hn : s.contracts.contains contract = false) (hd : f.Deploys s contract record)
      (hf : Founded s contract record.kind entries)
      (hs : ∀ e ∈ entries, ∀ token asset, e.1 = .totalSupply token asset →
        f.tx.method = .deployToken ∧ f.tx.args[1]? = some (.asset asset))
      (hp : record.ByManifest) :
      OwnStep f s ((s.withContract contract record).puts entries)

/-- A call that the code of a frame makes. -/
inductive Spawns (f : Frame) (s : DeTTaState) : Transaction → Principal → Prop where
  | settle {contract : ContractId} {record : ContractRecord} {payer : Principal}
      (receiver : Principal) (amount : Amount) (hp : f.Spends payer)
      (hm : f.tx.method.settles = true) (hr : s.contracts[contract]? = some record)
      (hk : record.kind.isAspectModule = true) :
      Spawns f s (settlementTx f.tx contract payer receiver amount) payer
  | route (token : ContractId) (hm : f.tx.method = .routeTransferFrom) :
      Spawns f s (routedTx f.tx token) f.tx.target
  | setUp {contract : ContractId} {record : ContractRecord} (initializer : String)
      (hm : f.tx.method = .deployAspectContract) (hr : s.contracts[contract]? = some record)
      (hk : record.kind.isAspectModule = true) :
      Spawns f s (initializerTx f.tx contract initializer) f.tx.sender
  | host {contract : ContractId} {record : ContractRecord} {name : String} {method : Method}
      (projection : String) (args : List Argument) (hm : f.tx.method = .other projection)
      (hr : s.contracts[contract]? = some record)
      (hh : hostCallMethodForTarget record name = some method)
      (hn : record.kind.isAspectModule = false → (nativeMethodArgKinds method).isSome = true) :
      Spawns f s (hostCallTx f.tx contract method args) f.tx.target

/-! ## What lasts -/

/-- During a transaction, contracts stay what they are, modules stay as they are, no
    number vanishes, and some parts of the state do not change at all. -/
structure Grows (s s' : DeTTaState) : Prop where
  chainId : s'.chainId = s.chainId
  height : s'.height = s.height
  finalizedBlockHash : s'.finalizedBlockHash = s.finalizedBlockHash
  usedNonces : s'.usedNonces = s.usedNonces
  trustedBridgeValidatorSets : s'.trustedBridgeValidatorSets = s.trustedBridgeValidatorSets
  contracts : ∀ {contract : ContractId} {record : ContractRecord},
    s.contracts[contract]? = some record →
    ∃ record' : ContractRecord, s'.contracts[contract]? = some record' ∧
      record'.kind = record.kind ∧ record'.exportedMethods = record.exportedMethods
  aspectModules : ∀ {moduleHash : String} {module : AspectModuleRecord},
    s.aspectModules[moduleHash]? = some module →
    s'.aspectModules[moduleHash]? = some module
  storage : ∀ {key : StateKey}, s.storage.contains key = true → s'.storage.contains key = true

namespace Grows

variable {s s' s'' : DeTTaState}

variable {contract : ContractId} {asset : AssetId}

theorem refl (s : DeTTaState) : Grows s s :=
  ⟨rfl, rfl, rfl, rfl, rfl, fun h => ⟨_, h, rfl, rfl⟩, fun h => h, fun h => h⟩

theorem trans (h : Grows s s') (h' : Grows s' s'') : Grows s s'' where
  chainId := h'.chainId.trans h.chainId
  height := h'.height.trans h.height
  finalizedBlockHash := h'.finalizedBlockHash.trans h.finalizedBlockHash
  usedNonces := h'.usedNonces.trans h.usedNonces
  trustedBridgeValidatorSets :=
    h'.trustedBridgeValidatorSets.trans h.trustedBridgeValidatorSets
  contracts hr := by
    obtain ⟨_, h₁, hk, he⟩ := h.contracts hr
    obtain ⟨r, h₂, hk', he'⟩ := h'.contracts h₁
    exact ⟨r, h₂, hk'.trans hk, he'.trans he⟩
  aspectModules hm := h'.aspectModules (h.aspectModules hm)
  storage hk := h'.storage (h.storage hk)

/-- A token stays a token. -/
theorem isToken (h : Grows s s') (ht : s.IsToken contract) : s'.IsToken contract := by
  obtain ⟨_, hr, hk⟩ := Option.map_eq_some_iff.1 ht
  obtain ⟨_, hr', hk', _⟩ := h.contracts hr
  simp [DeTTaState.IsToken, hr', hk', hk]

/-- The token of an asset stays so. -/
theorem keepsAsset (h : Grows s s') (hk : s.KeepsAsset contract asset) :
    s'.KeepsAsset contract asset :=
  ⟨h.isToken hk.isToken, h.storage hk.supply⟩

/-- A deployed contract stays deployed. -/
theorem contains (h : Grows s s') (hc : s.contracts.contains contract = true) :
    s'.contracts.contains contract = true := by
  obtain ⟨_, hr⟩ := Table.contains_iff.1 hc
  obtain ⟨r, hr', _⟩ := h.contracts hr
  exact Table.contains_iff.2 ⟨r, hr'⟩

/-- Storage and registry are free to change. -/
theorem put (s : DeTTaState) (key : StateKey) (value : Amount) : Grows s (s.put key value) :=
  ⟨rfl, rfl, rfl, rfl, rfl, fun h => ⟨_, h, rfl, rfl⟩, fun h => h, fun h => by
    simp only [DeTTaState.put, Std.ExtTreeMap.contains_insert, h, Bool.or_true]⟩

theorem puts (s : DeTTaState) (entries : List (StateKey × Amount)) : Grows s (s.puts entries) := by
  induction entries generalizing s with
  | nil => exact refl s
  | cons e entries ih => exact (put s e.1 e.2).trans (ih _)

theorem grant (s : DeTTaState) (key : GrantKey) (g : Grant) : Grows s (s.grant key g) :=
  ⟨rfl, rfl, rfl, rfl, rfl, fun h => ⟨_, h, rfl, rfl⟩, fun h => h, fun h => h⟩

theorem move {token : ContractId} {payer receiver : Principal} {amount : Amount}
    (h : s.move token payer receiver asset amount = some s') : Grows s s' := by
  obtain ⟨-, _, -, rfl⟩ := DeTTaState.move_eq_some.1 h
  exact (put _ _ _).trans (put _ _ _)

/-- A contract may be added, and its record may change but for what it is. -/
theorem insert {new : ContractRecord} (h : ∀ old, s.contracts[contract]? = some old →
      new.kind = old.kind ∧ new.exportedMethods = old.exportedMethods) :
    Grows s (s.withContract contract new) where
  chainId := rfl
  height := rfl
  finalizedBlockHash := rfl
  usedNonces := rfl
  trustedBridgeValidatorSets := rfl
  contracts {c record} hr := by
    by_cases hc : contract = c
    · subst hc
      exact ⟨new, by simp [DeTTaState.withContract], (h record hr).1, (h record hr).2⟩
    · exact ⟨record, (Table.getElem?_insert_of_ne hc).trans hr, rfl, rfl⟩
  aspectModules h := h
  storage h := h

end Grows

variable {s : DeTTaState}

theorem getElem?_eq_none_of_contains {K V : Type} [Ord K] [Std.TransOrd K]
    {t : Std.ExtTreeMap K V} {k : K} (h : t.contains k = false) : t[k]? = none := by
  rwa [Std.ExtTreeMap.contains_eq_isSome_getElem?, Option.isSome_eq_false_iff,
    Option.isNone_iff_eq_none] at h

theorem Grows.ofNew {contract : ContractId} {record : ContractRecord}
    (hn : s.contracts.contains contract = false) : Grows s (s.withContract contract record) :=
  .insert fun old hold => by
    rw [getElem?_eq_none_of_contains hn] at hold
    cases hold

/-- A new contract does not take the place of another one. -/
theorem getElem?_withContract_of_new {contract contract' : ContractId}
    {record record' : ContractRecord} (hn : s.contracts.contains contract = false)
    (hr : s.contracts[contract']? = some record') :
    (s.withContract contract record).contracts[contract']? = some record' := by
  have hne : contract ≠ contract' := by
    rintro rfl
    rw [getElem?_eq_none_of_contains hn] at hr
    cases hr
  exact (Table.getElem?_insert_of_ne hne).trans hr

theorem Attempt.grows {s' : DeTTaState} (h : Attempt f s token asset s') : Grows s s' := by
  obtain ⟨_, _, _, _, -, rfl⟩ := h.exists_put
  exact (Grows.put ..).trans (.put ..)

theorem OwnStep.grows {s' : DeTTaState} (h : OwnStep f s s') : Grows s s' := by
  cases h with
  | put => exact .put ..
  | tokens h => exact h.grows
  | approve | permit | consume | accountKey | admin => exact .grant ..
  | govern ho hk he =>
    refine .insert fun old hold => ?_
    cases ho.symm.trans hold
    exact ⟨hk, he⟩
  | deploy hn => exact (Grows.ofNew hn).trans (.puts ..)
  | module m _ hn =>
    refine ⟨rfl, rfl, rfl, rfl, rfl, fun h => ⟨_, h, rfl, rfl⟩, fun {k r} h => ?_, fun h => h⟩
    by_cases hk : m.moduleHash = k
    · subst hk
      rw [getElem?_eq_none_of_contains hn] at h
      cases h
    · exact (Table.getElem?_insert_of_ne hk).trans h
  | event | certificate | outbox | pause | schedule =>
    exact ⟨rfl, rfl, rfl, rfl, rfl, fun h => ⟨_, h, rfl, rfl⟩, fun h => h, fun h => h⟩

end Detta
