import Detta.Native.Token

/-!
# Governance

Pausing a contract, and the two changes that a governance contract can make after
its timelock: another code hash for the governed contract, and one more effect in
the policy of one of its methods.
-/

namespace Detta

open Kernel

def pauseContract (tx : Transaction) (msgSender : Principal) (governedContract : ContractId) :
    Kernel ReturnValue := do
  requireGovernanceAdmin tx.target msgSender
  write fun s => { s with pausedContracts := s.pausedContracts.insert governedContract }
  emit tx.target tx.txHash (.contractPaused governedContract msgSender)
  pure .unit

def unpauseContract (tx : Transaction) (msgSender : Principal) (governedContract : ContractId) :
    Kernel ReturnValue := do
  requireGovernanceAdmin tx.target msgSender
  write fun s => { s with pausedContracts := s.pausedContracts.erase governedContract }
  emit tx.target tx.txHash (.contractUnpaused governedContract msgSender)
  pure .unit

/-- The height at which a change that is scheduled now may be made. -/
def timelockHeight (timelockDelay : U64) : Kernel U64 := do
  let height ← read fun s => s.height
  okOr (height.checkedAdd timelockDelay) .arithmeticOverflow

def scheduleUpgrade (tx : Transaction) (msgSender : Principal) (governedContract : ContractId)
    (timelockDelay : U64) : Kernel ReturnValue := do
  expectArgs tx.args 2
  let upgradeId ← expectText tx.args 0
  let newCodeHash ← expectText tx.args 1
  requireGovernanceAdmin tx.target msgSender
  let scheduled ← read fun s => s.scheduledUpgrades.contains upgradeId
  ensure (scheduled = false) .upgradeAlreadyScheduled
  let executeAfterHeight ← timelockHeight timelockDelay
  write fun s =>
    { s with
      scheduledUpgrades := s.scheduledUpgrades.insert upgradeId
        ⟨upgradeId, tx.target, governedContract, newCodeHash, executeAfterHeight, false⟩ }
  emit tx.target tx.txHash
    (.upgradeScheduled upgradeId governedContract newCodeHash executeAfterHeight msgSender)
  pure .unit

/-- The contents of storage and registry, by their roots. -/
def contentRoots (env : Env) (s : DeTTaState) : String × String :=
  (s.storageRoot env.hashing, s.registryRoot env.hashing)

def executeUpgrade (env : Env) (tx : Transaction) (msgSender : Principal)
    (governedContract : ContractId) : Kernel ReturnValue := do
  expectArgs tx.args 1
  let upgradeId ← expectText tx.args 0
  requireGovernanceAdmin tx.target msgSender
  let rootsBefore ← read (contentRoots env)
  let found ← read fun s => s.scheduledUpgrades[upgradeId]?
  let upgrade ← okOr found .upgradeNotFound
  ensure (upgrade.executed = false) .upgradeAlreadyExecuted
  ensure (upgrade.governanceContract = tx.target ∧ upgrade.targetContract = governedContract)
    .upgradeNotFound
  let height ← read fun s => s.height
  ensure (upgrade.executeAfterHeight ≤ height) .timelockNotReady
  let found ← read fun s => s.contracts[governedContract]?
  let target ← okOr found .contractNotFound
  write fun s =>
    { s with
      contracts := s.contracts.insert governedContract
        { target with codeHash := upgrade.newCodeHash }
      scheduledUpgrades := s.scheduledUpgrades.insert upgradeId { upgrade with executed := true } }
  let rootsAfter ← read (contentRoots env)
  ensure (rootsAfter = rootsBefore) .migrationInvariantViolation
  emit tx.target tx.txHash
    (.upgradeExecuted upgradeId governedContract target.codeHash upgrade.newCodeHash msgSender)
  pure .unit

def parsePolicyMethod : String → Option Method
  | "transfer" => some .transfer
  | "approve" => some .approve
  | "transferFrom" => some .transferFrom
  | "permit" => some .permit
  | "addLiquidity" => some .addLiquidity
  | "swap" => some .swap
  | "submitPrice" => some .submitPrice
  | "queueBridgeMessage" => some .queueBridgeMessage
  | "redeemBridgeMessage" => some .redeemBridgeMessage
  | "pauseContract" => some .pauseContract
  | "unpauseContract" => some .unpauseContract
  | "scheduleUpgrade" => some .scheduleUpgrade
  | "executeUpgrade" => some .executeUpgrade
  | "schedulePolicyUpdate" => some .schedulePolicyUpdate
  | "executePolicyUpdate" => some .executePolicyUpdate
  | "depositCollateral" => some .depositCollateral
  | "borrow" => some .borrow
  | "liquidate" => some .liquidate
  | "stake" => some .stake
  | "unstake" => some .unstake
  | "requestUnstake" => some .requestUnstake
  | "completeUnstake" => some .completeUnstake
  | "claimStakingRewards" => some .claimStakingRewards
  | "routeTransferFrom" => some .routeTransferFrom
  | "deployToken" => some .deployToken
  | "deployAmmPool" => some .deployAmmPool
  | "submitAspectModule" => some .submitAspectModule
  | "deployAspectContract" => some .deployAspectContract
  | "registerAccountKey" => some .registerAccountKey
  | "revokeAccountKey" => some .revokeAccountKey
  | _ => none

def parsePolicyEffect : String → Option PolicyEffect
  | "storageWrite" => some .storageWrite
  | "registryWrite" => some .registryWrite
  | "eventEmit" => some .eventEmit
  | "moduleRegister" => some .moduleRegister
  | "contractPause" => some .contractPause
  | "upgradeSchedule" => some .upgradeSchedule
  | "contractCodeUpgrade" => some .contractCodeUpgrade
  | "policyUpdateSchedule" => some .policyUpdateSchedule
  | "methodPolicyUpdate" => some .methodPolicyUpdate
  | "crossContractCall" => some .crossContractCall
  | "crossShardOutboxAppend" => some .crossShardOutboxAppend
  | "contractDeploy" => some .contractDeploy
  | _ => none

def schedulePolicyUpdate (tx : Transaction) (msgSender : Principal)
    (governedContract : ContractId) (timelockDelay : U64) : Kernel ReturnValue := do
  expectArgs tx.args 3
  let updateId ← expectText tx.args 0
  let method ← okOr (parsePolicyMethod (← expectText tx.args 1)) .invalidArguments
  let effect ← okOr (parsePolicyEffect (← expectText tx.args 2)) .invalidArguments
  requireGovernanceAdmin tx.target msgSender
  let scheduled ← read fun s => s.scheduledPolicyUpdates.contains updateId
  ensure (scheduled = false) .policyUpdateAlreadyScheduled
  let found ← read fun s => s.contracts[governedContract]?
  let target ← okOr found .contractNotFound
  ensure ((target.methodPolicy method).isSome = true) .policyMissing
  let executeAfterHeight ← timelockHeight timelockDelay
  write fun s =>
    { s with
      scheduledPolicyUpdates := s.scheduledPolicyUpdates.insert updateId
        ⟨updateId, tx.target, governedContract, method, effect, executeAfterHeight, false⟩ }
  emit tx.target tx.txHash
    (.policyUpdateScheduled updateId governedContract method effect executeAfterHeight msgSender)
  pure .unit

def executePolicyUpdate (env : Env) (tx : Transaction) (msgSender : Principal)
    (governedContract : ContractId) : Kernel ReturnValue := do
  expectArgs tx.args 1
  let updateId ← expectText tx.args 0
  requireGovernanceAdmin tx.target msgSender
  let rootsBefore ← read (contentRoots env)
  let oldPolicyRoot ← read fun s => s.policyRoot env.hashing
  let found ← read fun s => s.scheduledPolicyUpdates[updateId]?
  let update ← okOr found .policyUpdateNotFound
  ensure (update.executed = false) .policyUpdateAlreadyExecuted
  ensure (update.governanceContract = tx.target ∧ update.targetContract = governedContract)
    .policyUpdateNotFound
  let height ← read fun s => s.height
  ensure (update.executeAfterHeight ≤ height) .timelockNotReady
  let found ← read fun s => s.contracts[governedContract]?
  let target ← okOr found .contractNotFound
  let policy ← okOr (target.methodPolicy update.method) .policyMissing
  let newPolicy := { policy with effects := policy.effects.insert update.effect }
  write fun s =>
    { s with
      contracts := s.contracts.insert governedContract
        { target with methodPolicies := target.methodPolicies.insert update.method newPolicy }
      scheduledPolicyUpdates := s.scheduledPolicyUpdates.insert updateId
        { update with executed := true } }
  let rootsAfter ← read (contentRoots env)
  ensure (rootsAfter = rootsBefore) .migrationInvariantViolation
  let newPolicyRoot ← read fun s => s.policyRoot env.hashing
  emit tx.target tx.txHash
    (.policyUpdateExecuted updateId governedContract update.method update.effect oldPolicyRoot
      newPolicyRoot msgSender)
  pure .unit

end Detta
