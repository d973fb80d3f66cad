import Detta.Aspect.Host
import Detta.Native.Amm
import Detta.Native.Bridge
import Detta.Native.Factory
import Detta.Native.Lending
import Detta.Native.Staking

/-!
# Calls

The execution of a call: a contract is entered unless it is active already, the
policy of the method is enforced, and the method of the contract's kind is run.
Methods call other contracts by the same function, so the execution is unrolled to
a given depth. A call beyond that depth fails, and leaves a mark in the call log.
-/

namespace Detta

open Kernel

/-! ## Frames -/

/-- Enter a contract that is not active, and record the new frame. -/
def Machine.enter (m : Machine) (tx : Transaction) (msgSender : Principal) : Machine :=
  { m with
    context :=
      { m.context with
        activeNonreentrantContracts := m.context.activeNonreentrantContracts.insert tx.target
        stack := ⟨m.context.txSender, msgSender, tx.target, tx.method⟩ :: m.context.stack }
    log := m.log.enter ⟨tx, msgSender, m.state⟩ }

/-- Leave the contract on top of the stack. -/
def Machine.leave (m : Machine) : Machine :=
  { m with
    context := m.context.exit
    log := m.log.leave m.state }

/-! ## Methods by kind of contract -/

section Methods

variable (env : Env) (call : ContractCall) (tx : Transaction) (msgSender : Principal)

def tokenMethod : Kernel ReturnValue :=
  match tx.method with
  | .transfer => transfer tx msgSender
  | .approve => approve tx msgSender
  | .transferFrom => transferFrom tx msgSender
  | .permit => permit tx
  | _ => throw .policyMissing

def ammPoolMethod (assetA assetB : AssetId) (swapFeeBps : U64) : Kernel ReturnValue :=
  match tx.method with
  | .addLiquidity => addLiquidity call tx msgSender assetA assetB
  | .swap => swap call tx msgSender assetA assetB swapFeeBps
  | _ => throw .policyMissing

def oracleMethod (asset : AssetId) (maxAge : U64) : Kernel ReturnValue :=
  match tx.method with
  | .submitPrice => submitPrice tx msgSender asset maxAge
  | _ => throw .policyMissing

def bridgeMethod (sourceChain : ChainId) : Kernel ReturnValue :=
  match tx.method with
  | .queueBridgeMessage => queueBridgeMessage call tx msgSender
  | .redeemBridgeMessage => redeemBridgeMessage env tx sourceChain
  | _ => throw .policyMissing

def governanceMethod (governedContract : ContractId) (timelockDelay : U64) : Kernel ReturnValue :=
  match tx.method with
  | .pauseContract => pauseContract tx msgSender governedContract
  | .unpauseContract => unpauseContract tx msgSender governedContract
  | .scheduleUpgrade => scheduleUpgrade tx msgSender governedContract timelockDelay
  | .executeUpgrade => executeUpgrade env tx msgSender governedContract
  | .schedulePolicyUpdate => schedulePolicyUpdate tx msgSender governedContract timelockDelay
  | .executePolicyUpdate => executePolicyUpdate env tx msgSender governedContract
  | _ => throw .policyMissing

def lendingVaultMethod (config : LendingConfig) : Kernel ReturnValue :=
  match tx.method with
  | .depositCollateral => depositCollateral call tx config.collateralAsset
  | .borrow => borrow call tx msgSender config
  | .liquidate => liquidate call tx msgSender config
  | _ => throw .policyMissing

def stakingMethod (asset : AssetId) (parameters : StakingParameters) : Kernel ReturnValue :=
  match tx.method with
  | .stake => stake call tx msgSender asset parameters.rewardPerBlock
  | .unstake => unstake call tx msgSender asset parameters
  | .requestUnstake => requestUnstake tx msgSender asset parameters.rewardPerBlock
      parameters.unbondingDelay parameters.unstakePenaltyBps
  | .completeUnstake => completeUnstake call tx msgSender asset
  | .claimStakingRewards => claimStakingRewards tx msgSender asset parameters.rewardPerBlock
  | _ => throw .policyMissing

def routerMethod (tokenContract : ContractId) : Kernel ReturnValue :=
  match tx.method with
  | .routeTransferFrom => routeTransferFrom call tx tokenContract
  | _ => throw .policyMissing

def factoryMethod : Kernel ReturnValue :=
  match tx.method with
  | .deployToken => deployTokenFromFactory env tx
  | .deployAmmPool => deployAmmPoolFromFactory env tx
  | .submitAspectModule => submitAspectModuleFromFactory env tx
  | .deployAspectContract => deployAspectContractFromFactory call tx
  | _ => throw .policyMissing

def accountRegistryMethod : Kernel ReturnValue :=
  match tx.method with
  | .registerAccountKey => registerAccountKeyFromContract tx msgSender
  | .revokeAccountKey => revokeAccountKeyFromContract tx msgSender
  | _ => throw .policyMissing

/-- The method of a contract of the given kind. -/
def kindMethod : ContractKind → Kernel ReturnValue
  | .token => tokenMethod tx msgSender
  | .ammPool assetA assetB swapFeeBps => ammPoolMethod call tx msgSender assetA assetB swapFeeBps
  | .oracle asset maxAge => oracleMethod tx msgSender asset maxAge
  | .bridge sourceChain => bridgeMethod env call tx msgSender sourceChain
  | .governance governedContract timelockDelay =>
    governanceMethod env tx msgSender governedContract timelockDelay
  | .lendingVault collateralAsset debtAsset oracleContract ltvBps maxOracleAge
      interestBpsPerBlock liquidationThresholdBps =>
    lendingVaultMethod call tx msgSender ⟨collateralAsset, debtAsset, oracleContract, ltvBps,
      maxOracleAge, interestBpsPerBlock, liquidationThresholdBps⟩
  | .staking asset unbondingDelay rewardPerBlock unstakePenaltyBps =>
    stakingMethod call tx msgSender asset ⟨unbondingDelay, rewardPerBlock, unstakePenaltyBps⟩
  | .router tokenContract => routerMethod call tx tokenContract
  | .factory => factoryMethod env call tx
  | .accountRegistry => accountRegistryMethod tx msgSender
  | .aspectModule moduleHash bundleId _ _ _ =>
    executeAspectModuleMethod env call tx msgSender moduleHash bundleId

/-- The body of a frame: the checks that all methods share, and the method. -/
def callBody : Kernel ReturnValue := do
  let found ← read fun s => s.contracts[tx.target]?
  let contract ← okOr found .contractNotFound
  ensure (contract.exportedMethods.contains tx.method = true) .methodNotExported
  let policy ← okOr (contract.methodPolicy tx.method) .policyMissing
  enforceMethodAuthority tx msgSender policy
  check (fun s => !s.pausedContracts.contains tx.target) .contractPaused
  kindMethod env call tx msgSender contract.kind

end Methods

/-! ## The call -/

/-- Run a frame, whose own calls are made by `call`. -/
def frameCall (env : Env) (call : ContractCall) : ContractCall := fun tx msgSender => do
  let m ← get
  ensure (m.context.activeNonreentrantContracts.contains tx.target = false) .reentrancyViolation
  modify fun m => m.enter tx msgSender
  andThen (callBody env call tx msgSender) Machine.leave

/-- Execute a call whose frames nest at most `depth` deep. -/
def executeCall (env : Env) : ℕ → ContractCall
  | 0, _, _ => do
    modify fun m => { m with log := { m.log with exhausted := true } }
    throw .reentrancyViolation
  | depth + 1, tx, msgSender => frameCall env (executeCall env depth) tx msgSender

end Detta
