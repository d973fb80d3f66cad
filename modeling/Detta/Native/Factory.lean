import Detta.Core.Deploy

/-!
# Routers, factories and account registries

The router calls a token in its own name. The factory deploys contracts for
anybody, and calls the initializer of a new aspect contract in the name of the
sender of the transaction.
-/

namespace Detta

open Kernel

/-! ## Router -/

/-- The call of the router: the token is asked to move the owner's funds. -/
def routedTx (tx : Transaction) (tokenContract : ContractId) : Transaction :=
  { tx with
    target := tokenContract
    method := .transferFrom
    signatureOk := true }

def routeTransferFrom (call : ContractCall) (tx : Transaction) (tokenContract : ContractId) :
    Kernel ReturnValue := do
  expectArgs tx.args 4
  call (routedTx tx tokenContract) tx.target

/-! ## Factory -/

/-- Report a new contract. -/
def reportDeployment (tx : Transaction) (contract : ContractId) (kind : String) :
    Kernel Unit := do
  let found ← read fun s => s.contracts[contract]?
  let record ← okOr found .contractNotFound
  emit tx.target tx.txHash (.contractDeployed contract kind record.codeHash)

def deployTokenFromFactory (env : Env) (tx : Transaction) : Kernel ReturnValue := do
  expectArgs tx.args 4
  let contract ← expectText tx.args 0
  let asset ← expectAsset tx.args 1
  let owner ← expectPrincipal tx.args 2
  let supply ← expectAmount tx.args 3
  ensure (contract ≠ "" ∧ asset ≠ "" ∧ owner ≠ "") .invalidArguments
  check (fun s => !s.contracts.contains contract) .invalidArguments
  deployToken env contract asset [(owner, supply)]
  reportDeployment tx contract "token"
  pure .unit

def deployAmmPoolFromFactory (env : Env) (tx : Transaction) : Kernel ReturnValue := do
  expectArgs tx.args 3
  let contract ← expectText tx.args 0
  let assetA ← expectAsset tx.args 1
  let assetB ← expectAsset tx.args 2
  ensure (contract ≠ "" ∧ assetA ≠ "" ∧ assetB ≠ "") .invalidArguments
  check (fun s => !s.contracts.contains contract) .invalidArguments
  deployAmmPool env contract assetA assetB
  reportDeployment tx contract "amm_pool"
  pure .unit

/-- A module is submitted as source, or by its roots alone. -/
def submittedModule (env : Env) (args : List Argument) : Kernel AspectModuleRecord :=
  match args.length with
  | 2 => do
    let moduleId ← expectText args 0
    let source ← expectText args 1
    okOr (AspectModuleRecord.fromVerifiedSource env moduleId source) .invalidArguments
  | 9 => do
    let moduleId ← expectText args 0
    let taxonomyVersion ← expectText args 1
    let sourceRoot ← expectText args 2
    let irRoot ← expectText args 3
    let abiRoot ← expectText args 4
    let policyRoot ← expectText args 5
    let storageSchemaRoot ← expectText args 6
    let registrySchemaRoot ← expectText args 7
    let invariantRoot ← expectText args 8
    pure (AspectModuleRecord.new env.hashing moduleId taxonomyVersion sourceRoot
      ⟨irRoot, abiRoot, policyRoot, storageSchemaRoot, registrySchemaRoot, invariantRoot⟩)
  | _ => throw .invalidArguments

def submitAspectModuleFromFactory (env : Env) (tx : Transaction) : Kernel ReturnValue := do
  let module ← submittedModule env tx.args
  let moduleHash ← registerAspectModule env module
  emit tx.target tx.txHash
    (.aspectModuleSubmitted module.moduleId moduleHash module.taxonomyVersion)
  pure .unit

/-- The call of the initializer of a new contract. -/
def initializerTx (tx : Transaction) (contract : ContractId) (initializer : String) :
    Transaction :=
  { tx with
    txHash := tx.txHash ++ ":init"
    target := contract
    method := .other initializer
    args := tx.args.drop 4
    signatureOk := true }

/-- Call the initializer that the arguments name, if there is one. -/
def runInitializer (call : ContractCall) (tx : Transaction) (contract : ContractId) :
    Kernel Unit :=
  onlyIf (3 < tx.args.length) do
    let initializer ← expectText tx.args 3
    let _ ← call (initializerTx tx contract initializer) tx.sender

def deployAspectContractFromFactory (call : ContractCall) (tx : Transaction) :
    Kernel ReturnValue := do
  ensure (3 ≤ tx.args.length) .invalidArguments
  let contract ← expectText tx.args 0
  let moduleHash ← expectText tx.args 1
  let bundleId ← expectText tx.args 2
  deployAspectContract contract moduleHash bundleId
  write fun s => s.grant (.governanceAdmin contract tx.sender) (Grant.governanceAdmin tx.sender)
  reportDeployment tx contract "aspect_module"
  runInitializer call tx contract
  pure .unit

/-! ## Account registry -/

def registerAccountKeyFromContract (tx : Transaction) (msgSender : Principal) :
    Kernel ReturnValue := do
  expectArgs tx.args 1
  let publicKeyHex ← expectText tx.args 0
  registerAccountKey msgSender publicKeyHex
  check (fun s => s.accountSignerKeysCanonical) .invariantViolation
  emit tx.target tx.txHash (.accountKeyRegistered msgSender publicKeyHex)
  pure .unit

def revokeAccountKeyFromContract (tx : Transaction) (msgSender : Principal) :
    Kernel ReturnValue := do
  expectArgs tx.args 1
  let publicKeyHex ← expectText tx.args 0
  ensure (DeTTaState.isCanonicalPublicKeyHex publicKeyHex = true) .invalidArguments
  let key := GrantKey.accountSigner msgSender publicKeyHex
  let found ← read fun s => s.registry[key]?
  let grant ← okOr found .registryGrantMissing
  ensure (grant.subject = msgSender ∧ grant.rights.contains .submitTransaction = true)
    .registryGrantMissing
  write fun s => s.grant key { grant with active := false, revoked := true }
  check (fun s => s.accountSignerKeysCanonical) .invariantViolation
  emit tx.target tx.txHash (.accountKeyRevoked msgSender publicKeyHex)
  pure .unit

end Detta
