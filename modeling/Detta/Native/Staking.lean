import Detta.Native.Token

/-!
# Staking

Stakes in one asset, with rewards per block, a penalty on leaving and an optional
delay between the request to leave and the payment. Stakes and pending payments
each have a total, which the methods check against the sum of their entries.
-/

namespace Detta

open Kernel

/-- Add the rewards since the last time. -/
def accrueStakingRewards (frame : AuthorizedFrame) (contract : ContractId) (staker : Principal)
    (asset : AssetId) (rewardPerBlock : Amount) : Kernel Amount := do
  let lastRewardKey := StateKey.stakingLastRewardHeight contract staker asset
  let rewardKey := StateKey.stakingRewardBalance contract staker asset
  let last ← uintAt lastRewardKey
  let lastHeight ← okOr (Word.ofNat? 64 last.val) .arithmeticOverflow
  let height ← read fun s => s.height
  let elapsed := height.saturatingSub lastHeight
  let activeStake ← uintAt (.stakeBalance contract staker asset)
  let perBlock ← checkedMul activeStake rewardPerBlock
  let accrued ← checkedMul perBlock elapsed.toU128
  onlyIf (accrued ≠ 0) do
    let currentReward ← uintAt rewardKey
    stateSet frame rewardKey (← checkedAdd currentReward accrued)
  stateSet frame lastRewardKey height.toU128
  pure accrued

/-- The part of an amount that is paid out, and the part that is kept as a penalty. -/
def applyStakingPenalty (amount : Amount) (penaltyBps : U64) : Kernel (Amount × Amount) := do
  ensure (penaltyBps ≤ 10000) .invalidArguments
  let scaled ← checkedMul amount penaltyBps.toU128
  let penalty := scaled.div 10000
  pure (amount.saturatingSub penalty, penalty)

/-- Add a penalty to those collected. -/
def collectPenalty (frame : AuthorizedFrame) (penaltyKey : StateKey) (penalty : Amount) :
    Kernel Unit :=
  onlyIf (penalty ≠ 0) do
    let currentPenalty ← uintAt penaltyKey
    stateSet frame penaltyKey (← checkedAdd currentPenalty penalty)

/-- Report a penalty. -/
def reportPenalty (tx : Transaction) (staker : Principal) (asset : AssetId)
    (amount penalty released : Amount) : Kernel Unit :=
  onlyIf (penalty ≠ 0)
    (emit tx.target tx.txHash (.stakingPenaltyApplied staker asset amount penalty released))

/-- Both totals match their entries. -/
def checkStakingTotals (contract : ContractId) (asset : AssetId) : Kernel Unit := do
  check (fun s => s.stakingInvariantsHold contract asset) .invariantViolation
  check (fun s => s.stakingPendingUnbondingInvariantsHold contract asset) .invariantViolation

/-- The two arguments of the methods: the asset of the contract, and an amount. -/
def stakingArgs (tx : Transaction) (stakingAsset : AssetId) : Kernel Amount := do
  expectArgs tx.args 2
  let asset ← expectAsset tx.args 0
  let amount ← expectAmount tx.args 1
  ensure (asset = stakingAsset) .invalidPoolAsset
  ensure (amount ≠ 0) .invalidArguments
  pure amount

def stake (call : ContractCall) (tx : Transaction) (msgSender : Principal) (asset : AssetId)
    (rewardPerBlock : Amount) : Kernel ReturnValue := do
  let amount ← stakingArgs tx asset
  let stakeKey := StateKey.stakeBalance tx.target msgSender asset
  let totalKey := StateKey.totalStaked tx.target asset
  let rewardKey := StateKey.stakingRewardBalance tx.target msgSender asset
  let lastRewardKey := StateKey.stakingLastRewardHeight tx.target msgSender asset
  let frame : AuthorizedFrame :=
    ⟨tx.target, .ofList [stakeKey, totalKey, rewardKey, lastRewardKey]⟩
  let _ ← accrueStakingRewards frame tx.target msgSender asset rewardPerBlock
  let currentStake ← uintAt stakeKey
  let totalStaked ← uintAt totalKey
  let stakingLedger ← resolveAssetLedger asset
  transferAssetBalance call tx stakingLedger msgSender tx.target asset amount
  stateSet frame stakeKey (← checkedAdd currentStake amount)
  stateSet frame totalKey (← checkedAdd totalStaked amount)
  checkStakingTotals tx.target asset
  emit tx.target tx.txHash (.staked msgSender asset amount)
  pure .unit

def unstake (call : ContractCall) (tx : Transaction) (msgSender : Principal) (asset : AssetId)
    (parameters : StakingParameters) : Kernel ReturnValue := do
  ensure (parameters.unbondingDelay = 0) .timelockNotReady
  let amount ← stakingArgs tx asset
  let stakeKey := StateKey.stakeBalance tx.target msgSender asset
  let totalKey := StateKey.totalStaked tx.target asset
  let penaltyKey := StateKey.stakingPenaltyCollected tx.target asset
  let rewardKey := StateKey.stakingRewardBalance tx.target msgSender asset
  let lastRewardKey := StateKey.stakingLastRewardHeight tx.target msgSender asset
  let frame : AuthorizedFrame :=
    ⟨tx.target, .ofList [stakeKey, totalKey, penaltyKey, rewardKey, lastRewardKey]⟩
  let _ ← accrueStakingRewards frame tx.target msgSender asset parameters.rewardPerBlock
  let currentStake ← uintAt stakeKey
  ensure (amount ≤ currentStake) .insufficientStake
  let totalStaked ← uintAt totalKey
  ensure (amount ≤ totalStaked) .invariantViolation
  let split ← applyStakingPenalty amount parameters.unstakePenaltyBps
  let released := split.1
  let penalty := split.2
  let stakingLedger ← resolveAssetLedger asset
  stateSet frame stakeKey (currentStake.saturatingSub amount)
  stateSet frame totalKey (totalStaked.saturatingSub amount)
  collectPenalty frame penaltyKey penalty
  onlyIf (released ≠ 0)
    (transferAssetBalance call tx stakingLedger tx.target msgSender asset released)
  checkStakingTotals tx.target asset
  reportPenalty tx msgSender asset amount penalty released
  emit tx.target tx.txHash (.unstaked msgSender asset released)
  pure .unit

def requestUnstake (tx : Transaction) (msgSender : Principal) (asset : AssetId)
    (rewardPerBlock : Amount) (unbondingDelay unstakePenaltyBps : U64) : Kernel ReturnValue := do
  let amount ← stakingArgs tx asset
  let stakeKey := StateKey.stakeBalance tx.target msgSender asset
  let totalKey := StateKey.totalStaked tx.target asset
  let pendingKey := StateKey.pendingUnbond tx.target msgSender asset
  let totalPendingKey := StateKey.totalPendingUnbond tx.target asset
  let penaltyKey := StateKey.stakingPenaltyCollected tx.target asset
  let readyKey := StateKey.unbondReadyHeight tx.target msgSender asset
  let rewardKey := StateKey.stakingRewardBalance tx.target msgSender asset
  let lastRewardKey := StateKey.stakingLastRewardHeight tx.target msgSender asset
  let frame : AuthorizedFrame :=
    ⟨tx.target, .ofList [stakeKey, totalKey, pendingKey, totalPendingKey, penaltyKey, readyKey,
      rewardKey, lastRewardKey]⟩
  let _ ← accrueStakingRewards frame tx.target msgSender asset rewardPerBlock
  let currentStake ← uintAt stakeKey
  ensure (amount ≤ currentStake) .insufficientStake
  let totalStaked ← uintAt totalKey
  ensure (amount ≤ totalStaked) .invariantViolation
  let currentPending ← uintAt pendingKey
  let totalPending ← uintAt totalPendingKey
  let height ← read fun s => s.height
  let readyHeight ← okOr (height.checkedAdd unbondingDelay) .arithmeticOverflow
  let split ← applyStakingPenalty amount unstakePenaltyBps
  let released := split.1
  let penalty := split.2
  stateSet frame stakeKey (currentStake.saturatingSub amount)
  stateSet frame totalKey (totalStaked.saturatingSub amount)
  stateSet frame pendingKey (← checkedAdd currentPending released)
  stateSet frame totalPendingKey (← checkedAdd totalPending released)
  collectPenalty frame penaltyKey penalty
  stateSet frame readyKey readyHeight.toU128
  checkStakingTotals tx.target asset
  reportPenalty tx msgSender asset amount penalty released
  emit tx.target tx.txHash (.unstakeRequested msgSender asset released readyHeight)
  pure .unit

def completeUnstake (call : ContractCall) (tx : Transaction) (msgSender : Principal)
    (asset : AssetId) : Kernel ReturnValue := do
  let amount ← stakingArgs tx asset
  let pendingKey := StateKey.pendingUnbond tx.target msgSender asset
  let totalPendingKey := StateKey.totalPendingUnbond tx.target asset
  let ready ← uintAt (.unbondReadyHeight tx.target msgSender asset)
  let readyHeight ← okOr (Word.ofNat? 64 ready.val) .arithmeticOverflow
  let height ← read fun s => s.height
  ensure (readyHeight ≤ height) .timelockNotReady
  let pending ← uintAt pendingKey
  ensure (amount ≤ pending) .insufficientStake
  let totalPending ← uintAt totalPendingKey
  ensure (amount ≤ totalPending) .invariantViolation
  let frame : AuthorizedFrame := ⟨tx.target, .ofList [pendingKey, totalPendingKey]⟩
  stateSet frame pendingKey (pending.saturatingSub amount)
  stateSet frame totalPendingKey (totalPending.saturatingSub amount)
  let stakingLedger ← resolveAssetLedger asset
  transferAssetBalance call tx stakingLedger tx.target msgSender asset amount
  check (fun s => s.stakingPendingUnbondingInvariantsHold tx.target asset) .invariantViolation
  emit tx.target tx.txHash (.unbondingCompleted msgSender asset amount)
  pure .unit

/-- Rewards are newly created, on the ledger of the asset. -/
def claimStakingRewards (tx : Transaction) (msgSender : Principal) (stakingAsset : AssetId)
    (rewardPerBlock : Amount) : Kernel ReturnValue := do
  expectArgs tx.args 1
  let asset ← expectAsset tx.args 0
  ensure (asset = stakingAsset) .invalidPoolAsset
  let rewardKey := StateKey.stakingRewardBalance tx.target msgSender asset
  let lastRewardKey := StateKey.stakingLastRewardHeight tx.target msgSender asset
  let frame : AuthorizedFrame := ⟨tx.target, .ofList [rewardKey, lastRewardKey]⟩
  let _ ← accrueStakingRewards frame tx.target msgSender asset rewardPerBlock
  let claimed ← uintAt rewardKey
  stateSet frame rewardKey 0
  onlyIf (claimed ≠ 0) do
    let rewardLedger ← resolveAssetLedger asset
    mintAssetBalance rewardLedger msgSender asset claimed
  emit tx.target tx.txHash (.stakingRewardsClaimed msgSender asset claimed)
  pure (.uInt claimed)

end Detta
