import Detta.Core.Execute

/-!
# Transactions

A transaction is refused, or it uses up its nonce and is run: on success the state
of its call is kept, and on failure the state is put back to a checkpoint. The
checkpoint holds the parts of the state that a call may change, each by name.
-/

namespace Detta

open Json

/-! ## Receipts -/

/-- The outcome of a transaction, with the roots of the state after it. -/
structure Receipt where
  txHash : TxHash
  status : TxStatus
  error : Option ExecutionError
  returnValue : Option ReturnValue
  resourceUnitsUsed : U64
  storageRootAfter : String
  registryRootAfter : String
  policyRootAfter : String
  eventRootAfter : String
  nonceRootAfter : String
  globalStateRootAfter : String
deriving DecidableEq, Repr

def receipt (h : Hashing) (s : DeTTaState) (txHash : TxHash) (status : TxStatus)
    (error : Option ExecutionError) (returnValue : Option ReturnValue)
    (resourceUnitsUsed : U64) : Receipt where
  txHash := txHash
  status := status
  error := error
  returnValue := returnValue
  resourceUnitsUsed := resourceUnitsUsed
  storageRootAfter := s.storageRoot h
  registryRootAfter := s.registryRoot h
  policyRootAfter := s.policyRoot h
  eventRootAfter := s.eventRoot h
  nonceRootAfter := s.nonceRoot h
  globalStateRootAfter := s.globalStateRoot h

def committedReceipt (h : Hashing) (s : DeTTaState) (txHash : TxHash) (returnValue : ReturnValue)
    (resourceUnitsUsed : U64) : Receipt :=
  receipt h s txHash .committed none (some returnValue) resourceUnitsUsed

def revertedReceipt (h : Hashing) (s : DeTTaState) (txHash : TxHash) (error : ExecutionError)
    (resourceUnitsUsed : U64) : Receipt :=
  receipt h s txHash .reverted (some error) none resourceUnitsUsed

def rejectedReceipt (h : Hashing) (s : DeTTaState) (txHash : TxHash) (error : ExecutionError) :
    Receipt :=
  receipt h s txHash .rejected (some error) none 0

/-! ## Resources -/

def methodResourceUnits : Method → U64
  | .transfer | .pauseContract | .unpauseContract => 20
  | .approve => 18
  | .transferFrom => 32
  | .permit => 50
  | .addLiquidity => 42
  | .swap => 45
  | .submitPrice => 28
  | .queueBridgeMessage => 34
  | .redeemBridgeMessage => 48
  | .scheduleUpgrade | .schedulePolicyUpdate => 30
  | .executeUpgrade | .executePolicyUpdate => 40
  | .depositCollateral | .stake | .unstake => 22
  | .requestUnstake | .completeUnstake | .claimStakingRewards => 26
  | .borrow => 38
  | .liquidate => 46
  | .routeTransferFrom => 55
  | .deployToken | .deployAmmPool => 60
  | .submitAspectModule => 80
  | .deployAspectContract => 64
  | .registerAccountKey | .revokeAccountKey => 24
  | .other _ => 10

def transactionResourceUnits (tx : Transaction) : U64 :=
  let argUnits := (Word.ofNat 64 tx.args.length).saturatingMul 2
  ((10 : U64).saturatingAdd argUnits).saturatingAdd (methodResourceUnits tx.method)

/-! ## Transactions -/

/-- How deep calls may nest: aspect contracts, each at most once, with a native
    contract before each of them and at the end. -/
def callDepth (s : DeTTaState) : ℕ := 2 * s.contracts.size + 4

/-- The call of a transaction, on a new context and an empty log. -/
def runTransaction (env : Env) (s : DeTTaState) (tx : Transaction) :
    EStateM.Result ExecutionError Machine ReturnValue :=
  executeCall env (callDepth s) tx tx.sender ⟨s, CallContext.new tx.sender, CallLog.empty⟩

/-- Put the state back to a checkpoint. -/
def DeTTaState.restore (s checkpoint : DeTTaState) : DeTTaState :=
  { s with
    contracts := checkpoint.contracts
    aspectModules := checkpoint.aspectModules
    storage := checkpoint.storage
    registry := checkpoint.registry
    events := checkpoint.events
    usedCertificateNonces := checkpoint.usedCertificateNonces
    pausedContracts := checkpoint.pausedContracts
    scheduledUpgrades := checkpoint.scheduledUpgrades
    scheduledPolicyUpdates := checkpoint.scheduledPolicyUpdates
    outboundMessageIds := checkpoint.outboundMessageIds
    crossShardOutbox := checkpoint.crossShardOutbox }

/-- The state after a nonce is used up. -/
def DeTTaState.useNonce (s : DeTTaState) (tx : Transaction) : DeTTaState :=
  { s with usedNonces := s.usedNonces.insert ⟨tx.sender, tx.nonce⟩ }

/-- Why a transaction is refused, if it is. -/
def rejection (s : DeTTaState) (tx : Transaction) : Option ExecutionError :=
  if tx.chainId ≠ s.chainId then some .chainMismatch
  else if tx.signatureOk = false then some .invalidSignature
  else if tx.validUntilHeight.any fun validUntilHeight => validUntilHeight < s.height then
    some .transactionExpired
  else if s.usedNonces.contains ⟨tx.sender, tx.nonce⟩ then some .nonceReplay
  else none

def applyTransaction (env : Env) (s : DeTTaState) (tx : Transaction) : DeTTaState × Receipt :=
  match rejection s tx with
  | some error => (s, rejectedReceipt env.hashing s tx.txHash error)
  | none =>
    let units := transactionResourceUnits tx
    let checkpoint := s.useNonce tx
    if tx.budget < units then
      (checkpoint, revertedReceipt env.hashing checkpoint tx.txHash .outOfGas units)
    else
      match runTransaction env checkpoint tx with
      | .ok returnValue m =>
        (m.state, committedReceipt env.hashing m.state tx.txHash returnValue units)
      | .error error m =>
        let s := m.state.restore checkpoint
        (s, revertedReceipt env.hashing s tx.txHash error units)

end Detta
