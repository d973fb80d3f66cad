import Detta.Core.State

/-!
# Contracts and their policies

What each kind of contract exports and declares when it is deployed. The methods
of a contract are exactly those that have a policy (`withPolicyManifest`). The
policies of an aspect contract are read off its module: one for each projection
of its bundle.
-/

namespace Detta

/-- A policy; no method may be re-entered. -/
def methodPolicy (authority : PolicyAuthority) (effects : List PolicyEffect)
    (invariants : List ContractInvariant) : MethodPolicy where
  authority := authority
  reentrancy := .nonReentrant
  effects := .ofList effects
  invariants := .ofList invariants

structure AmmParameters where
  swapFeeBps : U64
deriving DecidableEq, Repr

structure LendingRiskParameters where
  ltvBps : U64
  maxOracleAge : U64
  interestBpsPerBlock : U64
  liquidationThresholdBps : U64
deriving DecidableEq, Repr

structure StakingParameters where
  unbondingDelay : U64
  rewardPerBlock : Amount
  unstakePenaltyBps : U64
deriving DecidableEq, Repr

namespace ContractRecord

def methodPolicy (record : ContractRecord) (method : Method) : Option MethodPolicy :=
  record.methodPolicies[method]?

/-- A contract that exports the methods that have a policy. -/
def withPolicyManifest (contractId : ContractId) (codeHash : String) (kind : ContractKind)
    (methodPolicies : List (Method × MethodPolicy))
    (declaredInvariants : List ContractInvariant) : ContractRecord where
  contractId := contractId
  codeHash := codeHash
  kind := kind
  exportedMethods := .ofList (methodPolicies.map (·.1))
  methodPolicies := .ofList methodPolicies
  declaredInvariants := .ofList declaredInvariants

def token (contractId : ContractId) (codeHash : String) : ContractRecord :=
  withPolicyManifest contractId codeHash .token
    [
      (.transfer, Detta.methodPolicy .txSender [.storageWrite, .eventEmit]
        [.tokenSupplyMatchesBalances]),
      (.approve, Detta.methodPolicy .txSender [.registryWrite, .eventEmit] []),
      (.transferFrom, Detta.methodPolicy .liveAllowanceGrant
        [.storageWrite, .registryWrite, .eventEmit] [.tokenSupplyMatchesBalances]),
      (.permit, Detta.methodPolicy .permitCertificate [.registryWrite, .eventEmit] [])]
    [.tokenSupplyMatchesBalances]

def ammPool (contractId : ContractId) (codeHash : String) (assetA assetB : AssetId)
    (parameters : AmmParameters) : ContractRecord :=
  withPolicyManifest contractId codeHash (.ammPool assetA assetB parameters.swapFeeBps)
    [
      (.addLiquidity, Detta.methodPolicy .txSender [.storageWrite, .eventEmit]
        [.ammLpSupplyMatchesBalances]),
      (.swap, Detta.methodPolicy .txSender [.storageWrite, .eventEmit]
        [.ammLpSupplyMatchesBalances])]
    [.ammPoolAssetsDistinct, .ammLpSupplyMatchesBalances]

def oracle (contractId : ContractId) (codeHash : String) (asset : AssetId) (maxAge : U64) :
    ContractRecord :=
  withPolicyManifest contractId codeHash (.oracle asset maxAge)
    [
      (.submitPrice, Detta.methodPolicy .oracleUpdaterGrant [.storageWrite, .eventEmit]
        [.oracleUpdatesRequireLiveGrant])]
    [.oracleUpdatesRequireLiveGrant, .oracleFreshnessCheckedByConsumers]

def bridge (contractId : ContractId) (codeHash : String) (sourceChain : ChainId) :
    ContractRecord :=
  withPolicyManifest contractId codeHash (.bridge sourceChain)
    [
      (.queueBridgeMessage, Detta.methodPolicy .txSender [.crossShardOutboxAppend, .eventEmit]
        [.bridgeOutboundMessageIdsUnique]),
      (.redeemBridgeMessage, Detta.methodPolicy .bridgeCertificate [.storageWrite, .eventEmit]
        [.bridgeInboundMessagesConsumedOnce])]
    [.bridgeInboundMessagesConsumedOnce, .bridgeOutboundMessageIdsUnique]

def governance (contractId : ContractId) (codeHash : String) (governedContract : ContractId)
    (timelockDelay : U64) : ContractRecord :=
  withPolicyManifest contractId codeHash (.governance governedContract timelockDelay)
    [
      (.pauseContract, Detta.methodPolicy .governanceAdminGrant [.contractPause, .eventEmit]
        [.governanceChangesRequireAdminGrant]),
      (.unpauseContract, Detta.methodPolicy .governanceAdminGrant [.contractPause, .eventEmit]
        [.governanceChangesRequireAdminGrant]),
      (.scheduleUpgrade, Detta.methodPolicy .governanceAdminGrant [.upgradeSchedule, .eventEmit]
        [.governanceChangesRequireAdminGrant, .governanceUpgradesRespectTimelock]),
      (.executeUpgrade, Detta.methodPolicy .governanceAdminGrant
        [.contractCodeUpgrade, .eventEmit]
        [.governanceChangesRequireAdminGrant, .governanceUpgradesRespectTimelock]),
      (.schedulePolicyUpdate, Detta.methodPolicy .governanceAdminGrant
        [.policyUpdateSchedule, .eventEmit]
        [.governanceChangesRequireAdminGrant, .governanceUpgradesRespectTimelock]),
      (.executePolicyUpdate, Detta.methodPolicy .governanceAdminGrant
        [.methodPolicyUpdate, .eventEmit]
        [.governanceChangesRequireAdminGrant, .governanceUpgradesRespectTimelock])]
    [.governanceChangesRequireAdminGrant, .governanceUpgradesRespectTimelock]

def lendingVault (contractId : ContractId) (codeHash : String)
    (collateralAsset debtAsset : AssetId) (oracleContract : ContractId)
    (risk : LendingRiskParameters) : ContractRecord :=
  withPolicyManifest contractId codeHash
    (.lendingVault collateralAsset debtAsset oracleContract risk.ltvBps risk.maxOracleAge
      risk.interestBpsPerBlock risk.liquidationThresholdBps)
    [
      (.depositCollateral, Detta.methodPolicy .txSender [.storageWrite, .eventEmit] []),
      (.borrow, Detta.methodPolicy .txSender [.storageWrite, .eventEmit]
        [.lendingBorrowWithinCollateralLimit]),
      (.liquidate, Detta.methodPolicy .txSender [.storageWrite, .eventEmit]
        [.lendingBorrowWithinCollateralLimit])]
    [.lendingBorrowWithinCollateralLimit]

def staking (contractId : ContractId) (codeHash : String) (asset : AssetId)
    (parameters : StakingParameters) : ContractRecord :=
  withPolicyManifest contractId codeHash
    (.staking asset parameters.unbondingDelay parameters.rewardPerBlock
      parameters.unstakePenaltyBps)
    [
      (.stake, Detta.methodPolicy .txSender [.storageWrite, .eventEmit]
        [.stakingTotalMatchesBalances]),
      (.unstake, Detta.methodPolicy .txSender [.storageWrite, .eventEmit]
        [.stakingTotalMatchesBalances]),
      (.requestUnstake, Detta.methodPolicy .txSender [.storageWrite, .eventEmit]
        [.stakingTotalMatchesBalances, .stakingPendingUnbondingMatchesTotal]),
      (.completeUnstake, Detta.methodPolicy .txSender [.storageWrite, .eventEmit]
        [.stakingPendingUnbondingMatchesTotal]),
      (.claimStakingRewards, Detta.methodPolicy .txSender [.storageWrite, .eventEmit] [])]
    [.stakingTotalMatchesBalances, .stakingPendingUnbondingMatchesTotal]

def router (contractId : ContractId) (codeHash : String) (tokenContract : ContractId) :
    ContractRecord :=
  withPolicyManifest contractId codeHash (.router tokenContract)
    [
      (.routeTransferFrom, Detta.methodPolicy .txSender [.crossContractCall]
        [.routerDoesNotInheritCallerWriteScope])]
    [.routerDoesNotInheritCallerWriteScope]

def factory (contractId : ContractId) (codeHash : String) : ContractRecord :=
  withPolicyManifest contractId codeHash .factory
    [
      (.deployToken, Detta.methodPolicy .txSender [.contractDeploy, .storageWrite, .eventEmit]
        [.factoryDeploymentsDeclarePolicies]),
      (.deployAmmPool, Detta.methodPolicy .txSender [.contractDeploy, .storageWrite, .eventEmit]
        [.factoryDeploymentsDeclarePolicies]),
      (.submitAspectModule, Detta.methodPolicy .txSender [.moduleRegister, .eventEmit]
        [.factoryDeploymentsDeclarePolicies]),
      (.deployAspectContract, Detta.methodPolicy .txSender [.contractDeploy, .eventEmit]
        [.factoryDeploymentsDeclarePolicies])]
    [.factoryDeploymentsDeclarePolicies]

def accountRegistry (contractId : ContractId) (codeHash : String) : ContractRecord :=
  withPolicyManifest contractId codeHash .accountRegistry
    [
      (.registerAccountKey, Detta.methodPolicy .txSender [.registryWrite, .eventEmit]
        [.accountSignerKeysCanonical]),
      (.revokeAccountKey, Detta.methodPolicy .txSender [.registryWrite, .eventEmit]
        [.accountSignerKeysCanonical])]
    [.accountSignerKeysCanonical]

end ContractRecord

/-! ## Aspect contracts -/

/-- Add an aspect and all that it extends to a closure. An aspect that is being
    visited is skipped, so that as many nested visits as there are aspects, and one
    more, are enough. -/
def collectAspectWithParents (ir : AspectModuleIr) :
    ℕ → Std.ExtTreeSet String → Std.ExtTreeSet String → String →
      Except ExecutionError (Std.ExtTreeSet String)
  | 0, _, _, _ => .error .invalidArguments
  | fuel + 1, visiting, closure, aspectId =>
    if visiting.contains aspectId then .ok closure
    else
      match ir.aspects[aspectId]? with
      | none => .error .invalidArguments
      | some aspect => do
        let closure ← aspect.extends'.toList.foldlM
          (collectAspectWithParents ir fuel (visiting.insert aspectId)) closure
        .ok (closure.insert aspectId)

/-- Add the aspects of a bundle, and of all that it extends, to a closure. -/
def collectBundleAspects (ir : AspectModuleIr) :
    ℕ → Std.ExtTreeSet String → Std.ExtTreeSet String → String →
      Except ExecutionError (Std.ExtTreeSet String)
  | 0, _, _, _ => .error .invalidArguments
  | fuel + 1, visiting, closure, bundleId =>
    if visiting.contains bundleId then .ok closure
    else
      match ir.bundles[bundleId]? with
      | none => .error .invalidArguments
      | some bundle => do
        let closure ← bundle.extends'.toList.foldlM
          (collectBundleAspects ir fuel (visiting.insert bundleId)) closure
        bundle.includes.toList.foldlM
          (collectAspectWithParents ir (ir.aspects.size + 1) ∅) closure

/-- All aspects of a bundle. -/
def aspectBundleAspectClosure (ir : AspectModuleIr) (bundleId : String) :
    Except ExecutionError (Std.ExtTreeSet String) :=
  collectBundleAspects ir (ir.bundles.size + 1) ∅ ∅ bundleId

/-- The text before and after the first occurrence of a separator. -/
def splitOnce (sep : List Char) : List Char → Option (List Char × List Char)
  | [] => none
  | c :: cs =>
    if sep.isPrefixOf (c :: cs) then some ([], (c :: cs).drop sep.length)
    else (splitOnce sep cs).map fun (a, b) => (c :: a, b)

/-- The name in an aspect that a reference `aspect::name` or `aspect.name` stands for. -/
def qualifiedRef (ref : String) : Option String :=
  match splitOnce "::".toList ref.toList with
  | some (aspect, name) => some (qualified (String.ofList aspect) (String.ofList name))
  | none => (splitOnce ".".toList ref.toList).map fun (aspect, name) =>
      qualified (String.ofList aspect) (String.ofList name)

/-- The invariant of the bundle that a policy refers to: by its full name, or by
    its own name if that is not ambiguous. -/
def resolveAspectInvariant (ir : AspectModuleIr) (bundleId invariantRef : String) :
    Except ExecutionError InvariantDef := do
  let closure ← aspectBundleAspectClosure ir bundleId
  let exactKey :=
    if ir.invariants.contains invariantRef then some invariantRef else qualifiedRef invariantRef
  match exactKey with
  | some key =>
    match ir.invariants[key]? with
    | none => .error .invalidArguments
    | some invariant =>
      if closure.contains invariant.aspect then .ok invariant else .error .invalidArguments
  | none =>
    match ir.invariants.values.filter fun invariant =>
        invariant.invariant == invariantRef && closure.contains invariant.aspect with
    | [invariant] => .ok invariant
    | _ => .error .invalidArguments

/-- The invariants that a policy refers to, as invariants of the contract. -/
def aspectPolicyInvariantRefs (module : AspectModuleRecord) (bundleId : String)
    (policy : MethodPolicyIr) : Except ExecutionError (List ContractInvariant) :=
  match module.ir with
  | none => .error .policyMissing
  | some ir => policy.invariants.toList.mapM fun ref => do
    let invariant ← resolveAspectInvariant ir bundleId ref
    .ok (.aspectLocalInvariant module.moduleHash invariant.aspect invariant.invariant)

/-- The kernel's word for an authority of an aspect policy, if there is one. -/
def policyAuthorityFromAspect : AuthorityKind → Option PolicyAuthority
  | .txSender => some .txSender
  | .permitCertificate => some .permitCertificate
  | .bridgeCertificate => some .bridgeCertificate
  | .oracleUpdaterGrant => some .oracleUpdaterGrant
  | .governanceAdminGrant => some .governanceAdminGrant
  | _ => none

/-- The kernel's word for an effect of an aspect policy, if there is one. -/
def policyEffectFromAspect : EffectKind → Option PolicyEffect
  | .readState | .readRegistry | .abort => none
  | .writeState => some .storageWrite
  | .writeRegistry | .consumeRegistryGrant => some .registryWrite
  | .emitEvent => some .eventEmit
  | .callContract => some .crossContractCall
  | .deployContract => some .contractDeploy
  | .scheduleUpgrade => some .upgradeSchedule
  | .executeUpgrade => some .contractCodeUpgrade
  | .crossShardOutboxAppend => some .crossShardOutboxAppend
  | .usePermitCertificate => some .registryWrite
  | .useBridgeCertificate => some .storageWrite

def coreMethodPolicyFromAspect (module : AspectModuleRecord) (bundleId : String)
    (policy : MethodPolicyIr) : Except ExecutionError MethodPolicy :=
  match policyAuthorityFromAspect policy.authority with
  | none => .error .invalidArguments
  | some authority => do
    let invariants ← aspectPolicyInvariantRefs module bundleId policy
    .ok (methodPolicy authority (policy.effects.toList.filterMap policyEffectFromAspect) invariants)

/-- The policies of the projections of a bundle. A module that is registered
    without its code exports nothing. -/
def aspectModuleMethodPolicies (module : AspectModuleRecord) (bundleId : String) :
    Except ExecutionError (List (Method × MethodPolicy)) :=
  match module.ir with
  | none => .ok []
  | some ir =>
    if ir.bundles.contains bundleId then do
      let policies ← (ir.projections.values.filter fun p => p.bundle == bundleId).mapM
        fun projection =>
          match ir.policies[qualified projection.bundle projection.projection]? with
          | none => .error .invalidArguments
          | some policy => do
            let policy ← coreMethodPolicyFromAspect module bundleId policy
            .ok (Method.other projection.projection, policy)
      if policies.isEmpty then .error .invalidArguments else .ok policies
    else .error .invalidArguments

def ContractRecord.aspectModuleContract (contractId : ContractId) (module : AspectModuleRecord)
    (bundleId : String) : Except ExecutionError ContractRecord := do
  let methodPolicies ← aspectModuleMethodPolicies module bundleId
  .ok (withPolicyManifest contractId module.moduleHash
    (.aspectModule module.moduleHash bundleId module.abiRoot module.policyRoot
      module.invariantRoot)
    methodPolicies [])

end Detta
