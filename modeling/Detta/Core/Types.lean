import Detta.Base.Table

/-!
# The data of the kernel

The types that the kernel's state, transactions and events are made of, with the
source's own constructors in the source's own order. Types that are used as keys
of an ordered map carry the order that the source derives for them: the position
of the constructor first, and then its fields one after the other, which are all
texts (`rankCompare`).

* `Method`, `Argument`, `Transaction`: what a transaction asks for.
* `StateKey`, `StateValue`: the keys and values of contract storage.
* `GrantKey`, `Grant`: the registry of rights.
* `ContractKind`, `MethodPolicy`: what a contract is and what its methods may do.
* `EventPayload`, `ExecutionError`: what a call leaves behind.
-/

namespace Detta

open Std (ExtTreeMap ExtTreeSet TransOrd LawfulEqOrd TransCmp)

abbrev ChainId := String
abbrev ContractId := String
abbrev Principal := String
abbrev AssetId := String
abbrev TxHash := String
abbrev Nonce := U64
abbrev Amount := U128

/-! ## Methods and arguments -/

/-- The methods a contract may export; aspect contracts export the projections
    of their bundle as `other`. -/
inductive Method where
  | transfer | approve | transferFrom | permit | addLiquidity | swap | submitPrice
  | queueBridgeMessage | redeemBridgeMessage | pauseContract | unpauseContract
  | scheduleUpgrade | executeUpgrade | schedulePolicyUpdate | executePolicyUpdate
  | depositCollateral | borrow | liquidate | stake | unstake | requestUnstake
  | completeUnstake | claimStakingRewards | routeTransferFrom | deployToken
  | deployAmmPool | submitAspectModule | deployAspectContract | registerAccountKey
  | revokeAccountKey
  | other (name : String)
deriving DecidableEq, Repr

/-- The fields of a method. -/
def Method.texts : Method → List String
  | .other name => [name]
  | _ => []

instance : Ord Method := ⟨rankCompare Method.ctorIdx Method.texts⟩

instance : TransOrd Method :=
  inferInstanceAs (TransCmp (rankCompare Method.ctorIdx Method.texts))

theorem Method.rank_inj (a b : Method) (hi : a.ctorIdx = b.ctorIdx) (ht : a.texts = b.texts) :
    a = b := by
  cases a <;> cases b <;>
    first
    | rfl
    | (simp [Method.ctorIdx] at hi; done)
    | simpa [Method.texts] using ht

instance : LawfulEqOrd Method := lawfulEqCmp_rankCompare _ _ Method.rank_inj

/-- An argument of a call. -/
inductive Argument where
  | principal (value : Principal)
  | asset (value : AssetId)
  | amount (value : Amount)
  | text (value : String)
  | certificate (value : String)
deriving DecidableEq, Repr

/-! ## Storage -/

/-- The keys of contract storage. -/
inductive StateKey where
  | balance (contract : ContractId) (owner : Principal) (asset : AssetId)
  | totalSupply (contract : ContractId) (asset : AssetId)
  | reserve (contract : ContractId) (asset : AssetId)
  | ammFeeCollected (contract : ContractId) (asset : AssetId)
  | lpSupply (contract : ContractId)
  | lpBalance (contract : ContractId) (owner : Principal)
  | oraclePrice (contract : ContractId) (asset : AssetId)
  | oracleTimestamp (contract : ContractId) (asset : AssetId)
  | bridgeMessageConsumed (contract : ContractId) (messageId : String)
  | collateral (contract : ContractId) (borrower : Principal) (asset : AssetId)
  | debt (contract : ContractId) (borrower : Principal) (asset : AssetId)
  | debtLastAccrualHeight (contract : ContractId) (borrower : Principal) (asset : AssetId)
  | badDebt (contract : ContractId) (asset : AssetId)
  | stakeBalance (contract : ContractId) (staker : Principal) (asset : AssetId)
  | totalStaked (contract : ContractId) (asset : AssetId)
  | pendingUnbond (contract : ContractId) (staker : Principal) (asset : AssetId)
  | totalPendingUnbond (contract : ContractId) (asset : AssetId)
  | stakingPenaltyCollected (contract : ContractId) (asset : AssetId)
  | unbondReadyHeight (contract : ContractId) (staker : Principal) (asset : AssetId)
  | stakingRewardBalance (contract : ContractId) (staker : Principal) (asset : AssetId)
  | stakingLastRewardHeight (contract : ContractId) (staker : Principal) (asset : AssetId)
  | aspectState (contract : ContractId) (aspect state : String) (key : List String)
deriving DecidableEq, Repr

namespace StateKey

/-- The fields of a key, in the order of their declaration. -/
def texts : StateKey → List String
  | balance c o a | collateral c o a | debt c o a | debtLastAccrualHeight c o a
  | stakeBalance c o a | pendingUnbond c o a | unbondReadyHeight c o a
  | stakingRewardBalance c o a | stakingLastRewardHeight c o a => [c, o, a]
  | totalSupply c a | reserve c a | ammFeeCollected c a | oraclePrice c a
  | oracleTimestamp c a | badDebt c a | totalStaked c a | totalPendingUnbond c a
  | stakingPenaltyCollected c a => [c, a]
  | lpSupply c => [c]
  | lpBalance c o => [c, o]
  | bridgeMessageConsumed c m => [c, m]
  | aspectState c x s k => c :: x :: s :: k

/-- The contract whose storage a key belongs to. -/
def ownerContract : StateKey → ContractId
  | balance c _ _ | collateral c _ _ | debt c _ _ | debtLastAccrualHeight c _ _
  | stakeBalance c _ _ | pendingUnbond c _ _ | unbondReadyHeight c _ _
  | stakingRewardBalance c _ _ | stakingLastRewardHeight c _ _
  | totalSupply c _ | reserve c _ | ammFeeCollected c _ | oraclePrice c _
  | oracleTimestamp c _ | badDebt c _ | totalStaked c _ | totalPendingUnbond c _
  | stakingPenaltyCollected c _ | lpSupply c | lpBalance c _ | bridgeMessageConsumed c _
  | aspectState c _ _ _ => c

instance : Ord StateKey := ⟨rankCompare StateKey.ctorIdx StateKey.texts⟩

instance : TransOrd StateKey :=
  inferInstanceAs (TransCmp (rankCompare StateKey.ctorIdx StateKey.texts))

theorem rank_inj (a b : StateKey) (hi : a.ctorIdx = b.ctorIdx) (ht : a.texts = b.texts) :
    a = b := by
  cases a <;> cases b <;>
    first
    | (simp [StateKey.ctorIdx] at hi; done)
    | simpa [texts] using ht

instance : LawfulEqOrd StateKey := lawfulEqCmp_rankCompare _ _ rank_inj

end StateKey

/-- A stored value: only unsigned integers are stored. -/
structure StateValue where
  uInt ::
  asUint : Amount
deriving DecidableEq, Repr

/-! ## The registry of rights -/

/-- What a grant gives the right to. -/
inductive GrantRight where
  | spendAllowance | updateOracle | governanceAdmin | submitTransaction
deriving DecidableEq, Repr

instance : Ord GrantRight := ⟨rankCompare GrantRight.ctorIdx fun _ => []⟩

instance : TransOrd GrantRight :=
  inferInstanceAs (TransCmp (rankCompare GrantRight.ctorIdx fun _ => []))

instance : LawfulEqOrd GrantRight :=
  lawfulEqCmp_rankCompare _ _ fun a b hi _ => by
    cases a <;> cases b <;> first | rfl | simp [GrantRight.ctorIdx] at hi

/-- The keys of the registry. -/
inductive GrantKey where
  | accountSigner (account : Principal) (publicKeyHex : String)
  | allowance (contract : ContractId) (owner spender : Principal) (asset : AssetId)
  | oracleUpdater (contract : ContractId) (subject : Principal)
  | governanceAdmin (contract : ContractId) (subject : Principal)
deriving DecidableEq, Repr

namespace GrantKey

/-- The fields of a key, in the order of their declaration. -/
def texts : GrantKey → List String
  | accountSigner a k => [a, k]
  | allowance c o s a => [c, o, s, a]
  | oracleUpdater c s => [c, s]
  | governanceAdmin c s => [c, s]

instance : Ord GrantKey := ⟨rankCompare GrantKey.ctorIdx GrantKey.texts⟩

instance : TransOrd GrantKey :=
  inferInstanceAs (TransCmp (rankCompare GrantKey.ctorIdx GrantKey.texts))

instance : LawfulEqOrd GrantKey :=
  lawfulEqCmp_rankCompare _ _ fun a b hi ht => by
    cases a <;> cases b <;>
      first
      | (simp [GrantKey.ctorIdx] at hi; done)
      | simpa [texts] using ht

end GrantKey

/-- A grant of rights by an issuer to a subject, possibly limited. -/
structure Grant where
  issuer : Principal
  subject : Principal
  rights : ExtTreeSet GrantRight
  limit : Option Amount
  spent : Amount
  active : Bool
  revoked : Bool

namespace Grant

/-- An unlimited grant of a principal to itself. -/
def unlimited (subject : Principal) (right : GrantRight) : Grant where
  issuer := subject
  subject := subject
  rights := .ofList [right]
  limit := none
  spent := 0
  active := true
  revoked := false

def allowance (owner spender : Principal) (amount : Amount) : Grant where
  issuer := owner
  subject := spender
  rights := .ofList [GrantRight.spendAllowance]
  limit := some amount
  spent := 0
  active := true
  revoked := false

def oracleUpdater (subject : Principal) : Grant := unlimited subject .updateOracle

def governanceAdmin (subject : Principal) : Grant := unlimited subject .governanceAdmin

def accountSigner (account : Principal) : Grant := unlimited account .submitTransaction

/-- What is left to spend of a grant; a grant without a limit never runs out. -/
def remaining (g : Grant) : Amount :=
  (g.limit.map fun limit => limit.saturatingSub g.spent).getD (Word.max 128)

end Grant

/-! ## Contracts and policies -/

/-- What a contract is, with the parameters it was deployed with. -/
inductive ContractKind where
  | token
  | ammPool (assetA assetB : AssetId) (swapFeeBps : U64)
  | oracle (asset : AssetId) (maxAge : U64)
  | bridge (sourceChain : ChainId)
  | governance (governedContract : ContractId) (timelockDelay : U64)
  | lendingVault (collateralAsset debtAsset : AssetId) (oracleContract : ContractId)
      (ltvBps maxOracleAge interestBpsPerBlock liquidationThresholdBps : U64)
  | staking (asset : AssetId) (unbondingDelay : U64) (rewardPerBlock : Amount)
      (unstakePenaltyBps : U64)
  | router (tokenContract : ContractId)
  | factory
  | accountRegistry
  | aspectModule (moduleHash bundleId abiRoot policyRoot invariantRoot : String)
deriving DecidableEq, Repr

/-- Properties that a contract declares to keep. -/
inductive ContractInvariant where
  | tokenSupplyMatchesBalances | ammPoolAssetsDistinct | ammLpSupplyMatchesBalances
  | oracleUpdatesRequireLiveGrant | oracleFreshnessCheckedByConsumers
  | bridgeInboundMessagesConsumedOnce | bridgeOutboundMessageIdsUnique
  | governanceChangesRequireAdminGrant | governanceUpgradesRespectTimelock
  | lendingBorrowWithinCollateralLimit | stakingTotalMatchesBalances
  | stakingPendingUnbondingMatchesTotal | routerDoesNotInheritCallerWriteScope
  | factoryDeploymentsDeclarePolicies | accountSignerKeysCanonical
  | aspectLocalInvariant (moduleHash aspect invariant : String)
deriving DecidableEq, Repr

namespace ContractInvariant

/-- The fields of an invariant. -/
def texts : ContractInvariant → List String
  | aspectLocalInvariant m a i => [m, a, i]
  | _ => []

instance : Ord ContractInvariant :=
  ⟨rankCompare ContractInvariant.ctorIdx ContractInvariant.texts⟩

instance : TransOrd ContractInvariant :=
  inferInstanceAs (TransCmp (rankCompare ContractInvariant.ctorIdx ContractInvariant.texts))

instance : LawfulEqOrd ContractInvariant :=
  lawfulEqCmp_rankCompare _ _ fun a b hi ht => by
    cases a <;> cases b <;>
      first
      | rfl
      | (simp [ContractInvariant.ctorIdx] at hi; done)
      | simpa [texts] using ht

end ContractInvariant

/-- Who may call a method. -/
inductive PolicyAuthority where
  | txSender | liveAllowanceGrant | permitCertificate | oracleUpdaterGrant
  | bridgeCertificate | governanceAdminGrant
deriving DecidableEq, Repr

/-- The kinds of change that a method declares. -/
inductive PolicyEffect where
  | storageWrite | registryWrite | eventEmit | moduleRegister | contractPause
  | upgradeSchedule | contractCodeUpgrade | policyUpdateSchedule | methodPolicyUpdate
  | crossContractCall | crossShardOutboxAppend | contractDeploy
deriving DecidableEq, Repr

instance : Ord PolicyEffect := ⟨rankCompare PolicyEffect.ctorIdx fun _ => []⟩

instance : TransOrd PolicyEffect :=
  inferInstanceAs (TransCmp (rankCompare PolicyEffect.ctorIdx fun _ => []))

instance : LawfulEqOrd PolicyEffect :=
  lawfulEqCmp_rankCompare _ _ fun a b hi _ => by
    cases a <;> cases b <;> first | rfl | simp [PolicyEffect.ctorIdx] at hi

/-- How a method may be re-entered: not at all. -/
inductive ReentrancyMode where
  | nonReentrant
deriving DecidableEq, Repr

/-- What a method may do, and who may call it. -/
structure MethodPolicy where
  authority : PolicyAuthority
  reentrancy : ReentrancyMode
  effects : ExtTreeSet PolicyEffect
  invariants : ExtTreeSet ContractInvariant

/-- A deployed contract. -/
structure ContractRecord where
  contractId : ContractId
  codeHash : String
  kind : ContractKind
  exportedMethods : ExtTreeSet Method
  methodPolicies : ExtTreeMap Method MethodPolicy
  declaredInvariants : ExtTreeSet ContractInvariant

/-- A change of the code of a contract, waiting for its timelock. -/
structure ScheduledUpgrade where
  upgradeId : String
  governanceContract : ContractId
  targetContract : ContractId
  newCodeHash : String
  executeAfterHeight : U64
  executed : Bool
deriving DecidableEq, Repr

/-- A change of the policy of a method, waiting for its timelock. -/
structure ScheduledPolicyUpdate where
  updateId : String
  governanceContract : ContractId
  targetContract : ContractId
  method : Method
  effect : PolicyEffect
  executeAfterHeight : U64
  executed : Bool
deriving DecidableEq, Repr

/-- A message from one chain to a contract of another. -/
structure CrossShardMessage where
  sourceChain : ChainId
  sourceContract : ContractId
  sourceHeight : U64
  destinationChain : ChainId
  destinationContract : ContractId
  messageId : String
  recipient : Principal
  asset : AssetId
  amount : Amount
deriving DecidableEq, Repr

/-! ## Transactions, events and errors -/

/-- A transaction, as signed by its sender. Calls between contracts are described
    by the same record. -/
structure Transaction where
  chainId : ChainId
  txHash : TxHash
  sender : Principal
  nonce : Nonce
  validUntilHeight : Option U64
  target : ContractId
  method : Method
  args : List Argument
  signatureOk : Bool
  budget : U64
deriving DecidableEq, Repr

/-- What an event reports. -/
inductive EventPayload where
  | transfer (sender receiver : Principal) (asset : AssetId) (amount : Amount)
  | approval (owner spender : Principal) (asset : AssetId) (amount : Amount)
  | liquidityAdded (provider : Principal) (assetA : AssetId) (amountA : Amount)
      (assetB : AssetId) (amountB mintedLp : Amount)
  | swap (trader : Principal) (inputAsset outputAsset : AssetId)
      (amountIn feeAmount amountOut : Amount)
  | priceUpdated (updater : Principal) (asset : AssetId) (price : Amount) (timestamp : U64)
  | bridgeMessageRedeemed (messageId : String) (recipient : Principal) (asset : AssetId)
      (amount : Amount)
  | crossShardMessageQueued (messageId : String) (destinationChain : ChainId)
      (destinationContract : ContractId) (recipient : Principal) (asset : AssetId)
      (amount : Amount)
  | contractPaused (contract : ContractId) (admin : Principal)
  | contractUnpaused (contract : ContractId) (admin : Principal)
  | upgradeScheduled (upgradeId : String) (contract : ContractId) (newCodeHash : String)
      (executeAfterHeight : U64) (admin : Principal)
  | upgradeExecuted (upgradeId : String) (contract : ContractId)
      (oldCodeHash newCodeHash : String) (admin : Principal)
  | policyUpdateScheduled (updateId : String) (contract : ContractId) (method : Method)
      (effect : PolicyEffect) (executeAfterHeight : U64) (admin : Principal)
  | policyUpdateExecuted (updateId : String) (contract : ContractId) (method : Method)
      (effect : PolicyEffect) (oldPolicyRoot newPolicyRoot : String) (admin : Principal)
  | collateralDeposited (borrower : Principal) (asset : AssetId) (amount : Amount)
  | borrowed (borrower : Principal) (asset : AssetId) (amount : Amount)
  | liquidated (borrower liquidator : Principal) (debtAsset : AssetId) (repaidDebt : Amount)
      (collateralAsset : AssetId) (seizedCollateral remainingBadDebt : Amount)
  | staked (staker : Principal) (asset : AssetId) (amount : Amount)
  | unstaked (staker : Principal) (asset : AssetId) (amount : Amount)
  | unstakeRequested (staker : Principal) (asset : AssetId) (amount : Amount)
      (readyHeight : U64)
  | unbondingCompleted (staker : Principal) (asset : AssetId) (amount : Amount)
  | stakingRewardsClaimed (staker : Principal) (asset : AssetId) (amount : Amount)
  | contractDeployed (contract : ContractId) (kind codeHash : String)
  | aspectModuleSubmitted (moduleId moduleHash taxonomyVersion : String)
  | aspectEvent (moduleHash event : String)
  | accountKeyRegistered (account : Principal) (publicKeyHex : String)
  | accountKeyRevoked (account : Principal) (publicKeyHex : String)
  | stakingPenaltyApplied (staker : Principal) (asset : AssetId)
      (requestedAmount penaltyAmount releasedAmount : Amount)
deriving DecidableEq, Repr

/-- An event of a contract, with its position among all events of the chain. -/
structure Event where
  contract : ContractId
  txHash : TxHash
  index : U64
  payload : EventPayload
deriving DecidableEq, Repr

/-- The fate of a transaction. -/
inductive TxStatus where
  | committed | reverted | rejected
deriving DecidableEq, Repr

/-- Why a call fails. -/
inductive ExecutionError where
  | chainMismatch | invalidSignature | nonceReplay | transactionExpired | contractNotFound
  | methodNotExported | invalidArguments | policyMissing | registryGrantMissing
  | registryGrantInactive | registryGrantRevoked | registryRightMissing | allowanceExceeded
  | insufficientBalance | insufficientLiquidity | slippageExceeded | invalidPoolAsset
  | unauthorizedOracleUpdater | staleOraclePrice | invalidBridgeMessage | bridgeMessageReplay
  | outboundMessageReplay | unauthorizedGovernance | contractPaused | upgradeAlreadyScheduled
  | upgradeNotFound | upgradeAlreadyExecuted | timelockNotReady | migrationInvariantViolation
  | policyUpdateAlreadyScheduled | policyUpdateNotFound | policyUpdateAlreadyExecuted
  | outOfGas | insufficientCollateral | insufficientStake | arithmeticOverflow
  | writeScopeViolation | contractIsolationViolation | reentrancyViolation
  | invariantViolation | invalidCertificate | certificateReplay | forbiddenPrimitive
  | unauthorizedContractCall | unauthorizedContractStateRead
deriving DecidableEq, Repr

end Detta
