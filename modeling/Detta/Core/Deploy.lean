import Detta.Native.Token

/-!
# Deployment

How contracts, modules, keys and validator sets enter the state. These are the
operations that a node performs on its own; the factory performs some of them for
anybody.
-/

namespace Detta

open Kernel Json

/-- The identifier is not in use. -/
def validateNewContractId (contract : ContractId) : Kernel Unit := do
  let used ← read fun s => s.contracts.contains contract
  ensure (contract ≠ "" ∧ used = false) .invalidArguments

def validateNonempty (text : String) : Kernel Unit := ensure (text ≠ "") .invalidArguments

/-- Add a contract. -/
def insertContract (contract : ContractId) (record : ContractRecord) : Kernel Unit :=
  write fun s => { s with contracts := s.contracts.insert contract record }

/-- Write storage without a frame. -/
def initStorage (key : StateKey) (value : Amount) : Kernel Unit := write fun s => s.put key value

/-! ## Native contracts -/

/-- The sum of the initial balances, of owners that are named once each. -/
def initialSupply : List (Principal × Amount) → List Principal → Amount → Kernel Amount
  | [], _, total => pure total
  | (owner, amount) :: rest, seen, total => do
    validateNonempty owner
    ensure (owner ∉ seen) .invalidArguments
    let total ← checkedAdd total amount
    initialSupply rest (owner :: seen) total

/-- A total supply of the asset, of another contract. -/
def isSupplyElsewhere (contract : ContractId) (asset : AssetId) : StateKey → Bool
  | .totalSupply c a => c != contract && a == asset
  | _ => false

def deployToken (env : Env) (contract : ContractId) (asset : AssetId)
    (balances : List (Principal × Amount)) : Kernel Unit := do
  let codeHash := env.hashing.rootOf (arr [str "detta-token-v1", str contract])
  validateNewContractId contract
  validateNonempty asset
  let total ← initialSupply balances [] 0
  let taken ← read fun s => s.storage.keys.any (isSupplyElsewhere contract asset)
  ensure (taken = false) .invalidArguments
  insertContract contract (ContractRecord.token contract codeHash)
  forEach balances fun (owner, amount) => initStorage (.balance contract owner asset) amount
  initStorage (.totalSupply contract asset) total
  check (fun s => s.tokenInvariantsHold contract asset) .invariantViolation

def deployAmmPoolWithParameters (env : Env) (contract : ContractId) (assetA assetB : AssetId)
    (parameters : AmmParameters) : Kernel Unit := do
  validateNewContractId contract
  validateNonempty assetA
  validateNonempty assetB
  ensure (assetA ≠ assetB) .invalidPoolAsset
  ensure (parameters.swapFeeBps ≤ 10000) .invalidArguments
  let _ ← resolveAssetLedger assetA
  let _ ← resolveAssetLedger assetB
  let codeHash := env.hashing.rootOf (arr [str "detta-amm-v2", str contract, str assetA, str assetB,
    word parameters.swapFeeBps])
  insertContract contract (ContractRecord.ammPool contract codeHash assetA assetB parameters)
  initStorage (.reserve contract assetA) 0
  initStorage (.reserve contract assetB) 0
  initStorage (.ammFeeCollected contract assetA) 0
  initStorage (.ammFeeCollected contract assetB) 0
  initStorage (.lpSupply contract) 0
  check (fun s => s.ammInvariantsHold contract) .invariantViolation

def deployAmmPool (env : Env) (contract : ContractId) (assetA assetB : AssetId) : Kernel Unit :=
  deployAmmPoolWithParameters env contract assetA assetB ⟨30⟩

def deployOracle (env : Env) (contract : ContractId) (asset : AssetId) (updater : Principal)
    (maxAge : U64) : Kernel Unit := do
  validateNewContractId contract
  validateNonempty asset
  validateNonempty updater
  let codeHash := env.hashing.rootOf (arr [str "detta-oracle-v1", str contract, str asset,
    word maxAge])
  insertContract contract (ContractRecord.oracle contract codeHash asset maxAge)
  initStorage (.oraclePrice contract asset) 0
  initStorage (.oracleTimestamp contract asset) 0
  write fun s => s.grant (.oracleUpdater contract updater) (Grant.oracleUpdater updater)

def insertBridgeContract (env : Env) (contract : ContractId) (sourceChain : ChainId) :
    Kernel Unit :=
  insertContract contract (ContractRecord.bridge contract
    (env.hashing.rootOf (arr [str "detta-bridge-v1", str contract, str sourceChain])) sourceChain)

def deployBridge (env : Env) (contract : ContractId) (sourceChain : ChainId) : Kernel Unit := do
  validateNewContractId contract
  validateNonempty sourceChain
  insertBridgeContract env contract sourceChain

/-- Validators are named once each, and a quorum of them exists. -/
def BridgeValidatorSet.new (sourceChain : ChainId) (validators : List Principal) (quorum : ℕ) :
    Option BridgeValidatorSet :=
  if validators.all (· ≠ "") ∧ validators.Nodup ∧ sourceChain ≠ "" ∧ validators ≠ [] ∧
      quorum ≠ 0 ∧ quorum ≤ validators.length then
    some ⟨sourceChain, .ofList validators, quorum⟩
  else none

def setTrustedBridgeValidatorSet (validatorSet : BridgeValidatorSet) : Kernel Unit := do
  let validatorSet ← okOr (BridgeValidatorSet.new validatorSet.sourceChain
    validatorSet.validators.toList validatorSet.quorum) .invalidArguments
  write fun s =>
    { s with
      trustedBridgeValidatorSets :=
        s.trustedBridgeValidatorSets.insert validatorSet.sourceChain validatorSet }

def deployBridgeWithValidatorSet (env : Env) (contract : ContractId) (sourceChain : ChainId)
    (validators : List Principal) (quorum : ℕ) : Kernel Unit := do
  validateNewContractId contract
  validateNonempty sourceChain
  let validatorSet ← okOr (BridgeValidatorSet.new sourceChain validators quorum) .invalidArguments
  setTrustedBridgeValidatorSet validatorSet
  insertBridgeContract env contract sourceChain

def deployGovernanceWithTimelock (env : Env) (contract governedContract : ContractId)
    (admin : Principal) (timelockDelay : U64) : Kernel Unit := do
  validateNewContractId contract
  validateNonempty governedContract
  validateNonempty admin
  let codeHash := env.hashing.rootOf (arr [str "detta-governance-v1", str contract,
    str governedContract, word timelockDelay])
  insertContract contract
    (ContractRecord.governance contract codeHash governedContract timelockDelay)
  write fun s => s.grant (.governanceAdmin contract admin) (Grant.governanceAdmin admin)

def deployGovernance (env : Env) (contract governedContract : ContractId) (admin : Principal) :
    Kernel Unit :=
  deployGovernanceWithTimelock env contract governedContract admin 1

def deployLendingVaultWithRisk (env : Env) (contract : ContractId)
    (collateralAsset debtAsset : AssetId) (oracleContract : ContractId)
    (risk : LendingRiskParameters) : Kernel Unit := do
  validateNewContractId contract
  validateNonempty collateralAsset
  validateNonempty debtAsset
  ensure (oracleContract ≠ "" ∧ collateralAsset ≠ debtAsset) .invalidArguments
  ensure (risk.ltvBps ≤ 10000 ∧ risk.liquidationThresholdBps ≤ 10000 ∧
    risk.ltvBps ≤ risk.liquidationThresholdBps) .invalidArguments
  let codeHash := env.hashing.rootOf (arr [str "detta-lending-vault-v1", str contract,
    str collateralAsset, str debtAsset, str oracleContract, word risk.ltvBps,
    word risk.maxOracleAge, word risk.interestBpsPerBlock, word risk.liquidationThresholdBps])
  insertContract contract
    (ContractRecord.lendingVault contract codeHash collateralAsset debtAsset oracleContract risk)

def deployLendingVault (env : Env) (contract : ContractId) (collateralAsset debtAsset : AssetId)
    (oracleContract : ContractId) (ltvBps maxOracleAge : U64) : Kernel Unit :=
  deployLendingVaultWithRisk env contract collateralAsset debtAsset oracleContract
    ⟨ltvBps, maxOracleAge, 0, ltvBps⟩

def deployStakingWithParameters (env : Env) (contract : ContractId) (asset : AssetId)
    (parameters : StakingParameters) : Kernel Unit := do
  ensure (parameters.unstakePenaltyBps ≤ 10000) .invalidArguments
  validateNewContractId contract
  validateNonempty asset
  let codeHash := env.hashing.rootOf (arr [str "detta-staking-v2", str contract, str asset,
    word parameters.unbondingDelay, word parameters.rewardPerBlock,
    word parameters.unstakePenaltyBps])
  insertContract contract (ContractRecord.staking contract codeHash asset parameters)
  initStorage (.totalStaked contract asset) 0
  initStorage (.totalPendingUnbond contract asset) 0
  initStorage (.stakingPenaltyCollected contract asset) 0

def deployStaking (env : Env) (contract : ContractId) (asset : AssetId) : Kernel Unit :=
  deployStakingWithParameters env contract asset ⟨0, 0, 0⟩

def deployStakingWithRewards (env : Env) (contract : ContractId) (asset : AssetId)
    (unbondingDelay : U64) (rewardPerBlock : Amount) : Kernel Unit :=
  deployStakingWithParameters env contract asset ⟨unbondingDelay, rewardPerBlock, 0⟩

def deployRouter (env : Env) (contract tokenContract : ContractId) : Kernel Unit := do
  validateNewContractId contract
  validateNonempty tokenContract
  insertContract contract (ContractRecord.router contract
    (env.hashing.rootOf (arr [str "detta-router-v1", str contract, str tokenContract]))
    tokenContract)

def deployFactory (env : Env) (contract : ContractId) : Kernel Unit := do
  validateNewContractId contract
  insertContract contract (ContractRecord.factory contract
    (env.hashing.rootOf (arr [str "detta-factory-v1", str contract])))

def deployAccountRegistry (env : Env) (contract : ContractId) : Kernel Unit := do
  validateNewContractId contract
  insertContract contract (ContractRecord.accountRegistry contract
    (env.hashing.rootOf (arr [str "detta-account-registry-v1", str contract])))

/-! ## Accounts -/

def registerAccountKey (account : Principal) (publicKeyHex : String) : Kernel Unit := do
  ensure (account ≠ "" ∧ DeTTaState.isCanonicalPublicKeyHex publicKeyHex = true) .invalidArguments
  write fun s => s.grant (.accountSigner account publicKeyHex) (Grant.accountSigner account)

/-! ## Aspect modules -/

namespace AspectModuleRecord

/-- The hash of a module: of its name and its roots. -/
def computedHash (h : Hashing) (m : AspectModuleRecord) : String :=
  h.rootOf (arr [str m.moduleId, str m.taxonomyVersion, str m.sourceRoot, str m.irRoot,
    str m.abiRoot, str m.policyRoot, str m.storageSchemaRoot, str m.registrySchemaRoot,
    str m.invariantRoot])

/-- A record of the given roots, without code. -/
def new (h : Hashing) (moduleId taxonomyVersion sourceRoot : String)
    (roots : AspectArtifactRoots) : AspectModuleRecord :=
  let record : AspectModuleRecord :=
    { moduleId := moduleId
      moduleHash := ""
      taxonomyVersion := taxonomyVersion
      sourceRoot := sourceRoot
      canonicalSource := none
      irRoot := roots.irRoot
      ir := none
      abiRoot := roots.abiRoot
      policyRoot := roots.policyRoot
      storageSchemaRoot := roots.storageSchemaRoot
      registrySchemaRoot := roots.registrySchemaRoot
      invariantRoot := roots.invariantRoot }
  { record with moduleHash := record.computedHash h }

/-- The record of a source that the front end accepts, and that has a bundle of the
    module's name. -/
def fromVerifiedSource (env : Env) (moduleId source : String) : Option AspectModuleRecord := do
  guard (moduleId ≠ "")
  let (canonicalSource, ir) ← env.parseModule source
  let roots ← env.verifyModule ir
  guard (ir.bundles.contains moduleId = true)
  pure
    { new env.hashing moduleId ir.taxonomyVersion ir.sourceRoot roots with
      canonicalSource := some canonicalSource
      ir := some ir }

def rootsAreComplete (m : AspectModuleRecord) : Bool :=
  m.moduleId ≠ "" && m.taxonomyVersion ≠ "" && m.sourceRoot ≠ "" && m.irRoot ≠ "" &&
    m.abiRoot ≠ "" && m.policyRoot ≠ "" && m.storageSchemaRoot ≠ "" &&
    m.registrySchemaRoot ≠ "" && m.invariantRoot ≠ ""

/-- The code of a module, if it is there, is accepted and has the module's roots. -/
def codeMatches (env : Env) (m : AspectModuleRecord) : Bool :=
  match m.ir with
  | none => true
  | some ir =>
    match env.verifyModule ir with
    | none => false
    | some roots =>
      m.sourceRoot == ir.sourceRoot && m.irRoot == roots.irRoot && m.abiRoot == roots.abiRoot &&
        m.policyRoot == roots.policyRoot && m.storageSchemaRoot == roots.storageSchemaRoot &&
        m.registrySchemaRoot == roots.registrySchemaRoot &&
        m.invariantRoot == roots.invariantRoot

end AspectModuleRecord

def registerAspectModule (env : Env) (module : AspectModuleRecord) : Kernel String := do
  ensure (module.rootsAreComplete = true) .invalidArguments
  ensure (module.moduleHash = module.computedHash env.hashing) .invalidArguments
  ensure (module.codeMatches env = true) .invalidArguments
  let known ← read fun s => s.aspectModules.contains module.moduleHash
  ensure (known = false) .invalidArguments
  write fun s => { s with aspectModules := s.aspectModules.insert module.moduleHash module }
  pure module.moduleHash

def deployAspectContract (contract : ContractId) (moduleHash bundleId : String) :
    Kernel Unit := do
  validateNewContractId contract
  validateNonempty moduleHash
  validateNonempty bundleId
  let found ← read fun s => s.aspectModules[moduleHash]?
  let module ← okOr found .invalidArguments
  let record ← Kernel.ofExcept (ContractRecord.aspectModuleContract contract module bundleId)
  insertContract contract record

end Detta
