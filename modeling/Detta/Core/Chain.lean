import Detta.Core.Apply

/-!
# Blocks, and the life of a chain

Blocks of transactions are built by one node and checked by the others. A node also
deploys contracts, modules and keys by itself. The states that a chain may reach
are those that follow from the initial state by any sequence of such operations
(`Reachable`).
-/

namespace Detta

open Json

/-! ## Blocks -/

/-- The name of an error. -/
def ExecutionError.name : ExecutionError → String
  | chainMismatch => "ChainMismatch"
  | invalidSignature => "InvalidSignature"
  | nonceReplay => "NonceReplay"
  | transactionExpired => "TransactionExpired"
  | contractNotFound => "ContractNotFound"
  | methodNotExported => "MethodNotExported"
  | invalidArguments => "InvalidArguments"
  | policyMissing => "PolicyMissing"
  | registryGrantMissing => "RegistryGrantMissing"
  | registryGrantInactive => "RegistryGrantInactive"
  | registryGrantRevoked => "RegistryGrantRevoked"
  | registryRightMissing => "RegistryRightMissing"
  | allowanceExceeded => "AllowanceExceeded"
  | insufficientBalance => "InsufficientBalance"
  | insufficientLiquidity => "InsufficientLiquidity"
  | slippageExceeded => "SlippageExceeded"
  | invalidPoolAsset => "InvalidPoolAsset"
  | unauthorizedOracleUpdater => "UnauthorizedOracleUpdater"
  | staleOraclePrice => "StaleOraclePrice"
  | invalidBridgeMessage => "InvalidBridgeMessage"
  | bridgeMessageReplay => "BridgeMessageReplay"
  | outboundMessageReplay => "OutboundMessageReplay"
  | unauthorizedGovernance => "UnauthorizedGovernance"
  | contractPaused => "ContractPaused"
  | upgradeAlreadyScheduled => "UpgradeAlreadyScheduled"
  | upgradeNotFound => "UpgradeNotFound"
  | upgradeAlreadyExecuted => "UpgradeAlreadyExecuted"
  | timelockNotReady => "TimelockNotReady"
  | migrationInvariantViolation => "MigrationInvariantViolation"
  | policyUpdateAlreadyScheduled => "PolicyUpdateAlreadyScheduled"
  | policyUpdateNotFound => "PolicyUpdateNotFound"
  | policyUpdateAlreadyExecuted => "PolicyUpdateAlreadyExecuted"
  | outOfGas => "OutOfGas"
  | insufficientCollateral => "InsufficientCollateral"
  | insufficientStake => "InsufficientStake"
  | arithmeticOverflow => "ArithmeticOverflow"
  | writeScopeViolation => "WriteScopeViolation"
  | contractIsolationViolation => "ContractIsolationViolation"
  | reentrancyViolation => "ReentrancyViolation"
  | invariantViolation => "InvariantViolation"
  | invalidCertificate => "InvalidCertificate"
  | certificateReplay => "CertificateReplay"
  | forbiddenPrimitive => "ForbiddenPrimitive"
  | unauthorizedContractCall => "UnauthorizedContractCall"
  | unauthorizedContractStateRead => "UnauthorizedContractStateRead"

def TxStatus.json : TxStatus → Json
  | committed => str "Committed"
  | reverted => str "Reverted"
  | rejected => str "Rejected"

def ReturnValue.json : ReturnValue → Json
  | unit => str "Unit"
  | uInt value => variant "UInt" (word value)

def Receipt.json (r : Receipt) : Json :=
  obj [("tx_hash", str r.txHash), ("status", r.status.json),
    ("error", opt (fun e => str e.name) r.error),
    ("return_value", opt ReturnValue.json r.returnValue),
    ("resource_units_used", word r.resourceUnitsUsed),
    ("storage_root_after", str r.storageRootAfter),
    ("registry_root_after", str r.registryRootAfter),
    ("policy_root_after", str r.policyRootAfter), ("event_root_after", str r.eventRootAfter),
    ("nonce_root_after", str r.nonceRootAfter),
    ("global_state_root_after", str r.globalStateRootAfter)]

structure BlockHeader where
  chainId : ChainId
  height : U64
  previousBlockHash : String
  txRoot : String
  receiptRoot : String
  globalStateRoot : String
  storageRoot : String
  registryRoot : String
  policyRoot : String
  eventRoot : String
  nonceRoot : String
  outboxRoot : String
  timestamp : U64
  proposer : String
  consensusCertificate : String
deriving DecidableEq, Repr

def BlockHeader.json (b : BlockHeader) : Json :=
  obj [("chain_id", str b.chainId), ("height", word b.height),
    ("previous_block_hash", str b.previousBlockHash), ("tx_root", str b.txRoot),
    ("receipt_root", str b.receiptRoot), ("global_state_root", str b.globalStateRoot),
    ("storage_root", str b.storageRoot), ("registry_root", str b.registryRoot),
    ("policy_root", str b.policyRoot), ("event_root", str b.eventRoot),
    ("nonce_root", str b.nonceRoot), ("outbox_root", str b.outboxRoot),
    ("timestamp", word b.timestamp), ("proposer", str b.proposer),
    ("consensus_certificate", str b.consensusCertificate)]

structure Block where
  header : BlockHeader
  transactions : List Transaction
  receipts : List Receipt
deriving DecidableEq, Repr

def Block.blockHash (h : Hashing) (b : Block) : String := h.rootOf b.header.json

/-- Why a block is refused. -/
inductive BlockError where
  | chainMismatch | previousBlockMismatch | txRootMismatch | receiptRootMismatch
  | receiptMismatch | storageRootMismatch | registryRootMismatch | policyRootMismatch
  | eventRootMismatch | nonceRootMismatch | outboxRootMismatch | globalStateRootMismatch
  | resourceLimitExceeded (maxUnits actualUnits : U64)
deriving DecidableEq, Repr

def defaultBlockResourceLimit : U64 := 10000000

def blockResourceUnits (transactions : List Transaction) : U64 :=
  (transactions.map transactionResourceUnits).foldl Word.saturatingAdd 0

/-- Apply transactions one after the other. -/
def applyTransactions (env : Env) (s : DeTTaState) : List Transaction → DeTTaState × List Receipt
  | [] => (s, [])
  | tx :: txs =>
    let (s, r) := applyTransaction env s tx
    let (s, rs) := applyTransactions env s txs
    (s, r :: rs)

def buildBlock (env : Env) (s : DeTTaState) (height : U64) (transactions : List Transaction)
    (timestamp : U64) (proposer consensusCertificate : String) : Block × DeTTaState :=
  let h := env.hashing
  let (working, receipts) := applyTransactions env { s with height := height } transactions
  let block : Block :=
    { header :=
        { chainId := s.chainId
          height := height
          previousBlockHash := s.finalizedBlockHash
          txRoot := h.merkleRoot (transactions.map Transaction.json)
          receiptRoot := h.merkleRoot (receipts.map Receipt.json)
          globalStateRoot := working.globalStateRoot h
          storageRoot := working.storageRoot h
          registryRoot := working.registryRoot h
          policyRoot := working.policyRoot h
          eventRoot := working.eventRoot h
          nonceRoot := working.nonceRoot h
          outboxRoot := working.outboxRoot h
          timestamp := timestamp
          proposer := proposer
          consensusCertificate := consensusCertificate }
      transactions := transactions
      receipts := receipts }
  (block, { working with finalizedBlockHash := block.blockHash h })

/-- What is wrong with a block, given the state and the receipts that its
    transactions lead to. -/
def blockError (h : Hashing) (s working : DeTTaState) (receipts : List Receipt) (block : Block) :
    Option BlockError :=
  let header := block.header
  let units := blockResourceUnits block.transactions
  if header.chainId ≠ s.chainId then some .chainMismatch
  else if defaultBlockResourceLimit < units then
    some (.resourceLimitExceeded defaultBlockResourceLimit units)
  else if header.previousBlockHash ≠ s.finalizedBlockHash then some .previousBlockMismatch
  else if header.txRoot ≠ h.merkleRoot (block.transactions.map Transaction.json) then
    some .txRootMismatch
  else if receipts ≠ block.receipts then some .receiptMismatch
  else if header.receiptRoot ≠ h.merkleRoot (receipts.map Receipt.json) then
    some .receiptRootMismatch
  else if header.storageRoot ≠ working.storageRoot h then some .storageRootMismatch
  else if header.registryRoot ≠ working.registryRoot h then some .registryRootMismatch
  else if header.policyRoot ≠ working.policyRoot h then some .policyRootMismatch
  else if header.eventRoot ≠ working.eventRoot h then some .eventRootMismatch
  else if header.nonceRoot ≠ working.nonceRoot h then some .nonceRootMismatch
  else if header.outboxRoot ≠ working.outboxRoot h then some .outboxRootMismatch
  else if header.globalStateRoot ≠ working.globalStateRoot h then some .globalStateRootMismatch
  else none

/-- Apply a block, whose transactions are run again; a wrong block changes nothing. -/
def applyBlock (env : Env) (s : DeTTaState) (block : Block) : DeTTaState × Option BlockError :=
  let (working, receipts) :=
    applyTransactions env { s with height := block.header.height } block.transactions
  match blockError env.hashing s working receipts block with
  | some error => (s, some error)
  | none => ({ working with finalizedBlockHash := block.blockHash env.hashing }, none)

/-! ## Snapshots -/

/-- A state to be handed over, with its roots. -/
structure StateSnapshot where
  state : DeTTaState
  storageRoot : String
  registryRoot : String
  policyRoot : String
  eventRoot : String
  nonceRoot : String
  outboxRoot : String
  globalStateRoot : String

/-- Why a snapshot is refused. -/
inductive SnapshotError where
  | storageRootMismatch | registryRootMismatch | policyRootMismatch | eventRootMismatch
  | nonceRootMismatch | outboxRootMismatch | globalStateRootMismatch
deriving DecidableEq, Repr

/-- The state of a snapshot, if the roots are those of the state. -/
def fromSnapshot (h : Hashing) (snapshot : StateSnapshot) : Except SnapshotError DeTTaState :=
  if snapshot.storageRoot ≠ snapshot.state.storageRoot h then .error .storageRootMismatch
  else if snapshot.registryRoot ≠ snapshot.state.registryRoot h then .error .registryRootMismatch
  else if snapshot.policyRoot ≠ snapshot.state.policyRoot h then .error .policyRootMismatch
  else if snapshot.eventRoot ≠ snapshot.state.eventRoot h then .error .eventRootMismatch
  else if snapshot.nonceRoot ≠ snapshot.state.nonceRoot h then .error .nonceRootMismatch
  else if snapshot.outboxRoot ≠ snapshot.state.outboxRoot h then .error .outboxRootMismatch
  else if snapshot.globalStateRoot ≠ snapshot.state.globalStateRoot h then
    .error .globalStateRootMismatch
  else .ok snapshot.state

def DeTTaState.snapshot (h : Hashing) (s : DeTTaState) : StateSnapshot where
  state := s
  storageRoot := s.storageRoot h
  registryRoot := s.registryRoot h
  policyRoot := s.policyRoot h
  eventRoot := s.eventRoot h
  nonceRoot := s.nonceRoot h
  outboxRoot := s.outboxRoot h
  globalStateRoot := s.globalStateRoot h

/-! ## Operations of a node -/

/-- What a node puts into the state by itself. -/
inductive Deployment where
  | token (contract : ContractId) (asset : AssetId) (balances : List (Principal × Amount))
  | ammPool (contract : ContractId) (assetA assetB : AssetId) (parameters : AmmParameters)
  | oracle (contract : ContractId) (asset : AssetId) (updater : Principal) (maxAge : U64)
  | bridge (contract : ContractId) (sourceChain : ChainId)
  | bridgeWithValidatorSet (contract : ContractId) (sourceChain : ChainId)
      (validators : List Principal) (quorum : ℕ)
  | validatorSet (validatorSet : BridgeValidatorSet)
  | governance (contract governedContract : ContractId) (admin : Principal) (timelockDelay : U64)
  | lendingVault (contract : ContractId) (collateralAsset debtAsset : AssetId)
      (oracleContract : ContractId) (risk : LendingRiskParameters)
  | staking (contract : ContractId) (asset : AssetId) (parameters : StakingParameters)
  | router (contract tokenContract : ContractId)
  | factory (contract : ContractId)
  | accountRegistry (contract : ContractId)
  | accountKey (account : Principal) (publicKeyHex : String)
  | aspectModule (module : AspectModuleRecord)
  | aspectContract (contract : ContractId) (moduleHash bundleId : String)

/-- The helper that makes a deployment. -/
def Deployment.deploy (env : Env) : Deployment → Kernel Unit
  | token contract asset balances => deployToken env contract asset balances
  | ammPool contract assetA assetB parameters =>
    deployAmmPoolWithParameters env contract assetA assetB parameters
  | oracle contract asset updater maxAge => deployOracle env contract asset updater maxAge
  | bridge contract sourceChain => deployBridge env contract sourceChain
  | bridgeWithValidatorSet contract sourceChain validators quorum =>
    deployBridgeWithValidatorSet env contract sourceChain validators quorum
  | validatorSet v => setTrustedBridgeValidatorSet v
  | governance contract governedContract admin timelockDelay =>
    deployGovernanceWithTimelock env contract governedContract admin timelockDelay
  | lendingVault contract collateralAsset debtAsset oracleContract risk =>
    deployLendingVaultWithRisk env contract collateralAsset debtAsset oracleContract risk
  | staking contract asset parameters => deployStakingWithParameters env contract asset parameters
  | router contract tokenContract => deployRouter env contract tokenContract
  | factory contract => deployFactory env contract
  | accountRegistry contract => deployAccountRegistry env contract
  | accountKey account publicKeyHex => registerAccountKey account publicKeyHex
  | aspectModule module => do
    let _ ← registerAspectModule env module
  | aspectContract contract moduleHash bundleId =>
    deployAspectContract contract moduleHash bundleId

/-- The state after a computation of the kernel, whether it has failed or not. -/
def finalState {α : Type} : EStateM.Result ExecutionError Machine α → DeTTaState
  | .ok _ m => m.state
  | .error _ m => m.state

/-- The state after a deployment. -/
def applyDeployment (env : Env) (s : DeTTaState) (d : Deployment) : DeTTaState :=
  finalState (d.deploy env ⟨s, CallContext.new "", CallLog.empty⟩)

/-- An operation on the state of a node. -/
inductive Op where
  | deploy (deployment : Deployment)
  | transaction (tx : Transaction)
  | block (block : Block)

def Op.apply (env : Env) (s : DeTTaState) : Op → DeTTaState
  | deploy d => applyDeployment env s d
  | transaction tx => (applyTransaction env s tx).1
  | block b => (applyBlock env s b).1

/-- The state after a sequence of operations. -/
def runOps (env : Env) (s : DeTTaState) (ops : List Op) : DeTTaState := ops.foldl (Op.apply env) s

/-- A state that a chain may reach. -/
inductive Reachable (env : Env) : DeTTaState → Prop where
  | new (chainId : ChainId) : Reachable env (DeTTaState.new chainId)
  | apply {s : DeTTaState} (op : Op) : Reachable env s → Reachable env (op.apply env s)

/-! ## The calls of a transaction -/

/-- The frames of a transaction, in the order of their return; none if it is
    refused, or is not run for want of resources. -/
def callFrames (env : Env) (s : DeTTaState) (tx : Transaction) : List FrameRecord :=
  if (rejection s tx).isNone ∧ transactionResourceUnits tx ≤ tx.budget then
    match runTransaction env (s.useNonce tx) tx with
    | .ok _ m | .error _ m => m.log.finished
  else []

/-- The transaction is committed. -/
def Commits (env : Env) (s : DeTTaState) (tx : Transaction) : Prop :=
  (applyTransaction env s tx).2.status = .committed

instance (env : Env) (s : DeTTaState) (tx : Transaction) : Decidable (Commits env s tx) :=
  inferInstanceAs (Decidable (_ = _))

/-- The transactions of a list, each with the state it is applied to. -/
def appliedTransactions (env : Env) (s : DeTTaState) :
    List Transaction → List (DeTTaState × Transaction)
  | [] => []
  | tx :: txs => (s, tx) :: appliedTransactions env (applyTransaction env s tx).1 txs

/-- The transactions of an operation, each with the state it is applied to. -/
def Op.transactions (env : Env) (s : DeTTaState) : Op → List (DeTTaState × Transaction)
  | deploy _ => []
  | transaction tx => [(s, tx)]
  | block b =>
    match (applyBlock env s b).2 with
    | some _ => []
    | none => appliedTransactions env { s with height := b.header.height } b.transactions

/-- The transactions of a run, each with the state it is applied to. -/
def runTransactions (env : Env) (s : DeTTaState) : List Op → List (DeTTaState × Transaction)
  | [] => []
  | op :: ops => op.transactions env s ++ runTransactions env (op.apply env s) ops

end Detta
