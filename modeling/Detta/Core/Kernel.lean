import Detta.Core.Checks

/-!
# The primitives of the kernel

What the methods of contracts are made of: reading the state, the guarded write of
storage, events, arguments, rights and certificates. Every change of the state by
a method goes through `write`, so that what a method can do is what its writes do.
-/

namespace Detta

/-- What comes from outside of the kernel: hashing, the parser of JSON finality
    proofs, and the front end of the aspect language: the parser, which gives the
    canonical source of a module and its code, and the verifier, which gives the
    roots of code that it accepts. -/
structure Env where
  hashing : Hashing
  parseFinalityProof : String → Option CrossShardFinalityProof
  parseModule : String → Option (String × AspectModuleIr)
  verifyModule : AspectModuleIr → Option AspectArtifactRoots

namespace Kernel

/-- A value computed from the state. -/
def read {α : Type} (f : DeTTaState → α) : Kernel α := do
  let m ← get
  pure (f m.state)

/-- A change of the state. -/
def write (f : DeTTaState → DeTTaState) : Kernel Unit :=
  modify fun m => { m with state := f m.state }

/-- A condition on the state. -/
def check (p : DeTTaState → Bool) (e : ExecutionError) : Kernel Unit := do
  let holds ← read p
  ensure (holds = true) e

/-- A result as a step of the kernel. -/
def ofExcept {α : Type} : Except ExecutionError α → Kernel α
  | .ok a => pure a
  | .error e => throw e

/-- The number stored under a key. -/
def uintAt (key : StateKey) : Kernel Amount := read fun s => s.uintAt key

/-! ## Arguments -/

/-- As many arguments as the method takes. -/
def expectArgs (args : List Argument) (n : ℕ) : Kernel Unit :=
  ensure (args.length = n) .invalidArguments

def expectPrincipal (args : List Argument) (i : ℕ) : Kernel Principal :=
  okOr (match args[i]? with
    | some (.principal value) => some value
    | _ => none) .invalidArguments

def expectAsset (args : List Argument) (i : ℕ) : Kernel AssetId :=
  okOr (match args[i]? with
    | some (.asset value) => some value
    | _ => none) .invalidArguments

def expectAmount (args : List Argument) (i : ℕ) : Kernel Amount :=
  okOr (match args[i]? with
    | some (.amount value) => some value
    | _ => none) .invalidArguments

def expectText (args : List Argument) (i : ℕ) : Kernel String :=
  okOr (match args[i]? with
    | some (.text value) => some value
    | _ => none) .invalidArguments

def expectCertificate (args : List Argument) (i : ℕ) : Kernel String :=
  okOr (match args[i]? with
    | some (.certificate value) => some value
    | _ => none) .invalidArguments

/-! ## Arithmetic -/

def checkedAdd (a b : Amount) : Kernel Amount := okOr (a.checkedAdd b) .arithmeticOverflow

def checkedMul (a b : Amount) : Kernel Amount := okOr (a.checkedMul b) .arithmeticOverflow

/-! ## Storage, events and the outbox -/

/-- The storage that a frame may write: the contract it writes for, and the keys.
    A key of an aspect state without its parameters stands for all of them. -/
structure AuthorizedFrame where
  contract : ContractId
  writeScope : Std.ExtTreeSet StateKey

def writeScopeContains (scope : Std.ExtTreeSet StateKey) (key : StateKey) : Bool :=
  scope.contains key ||
    match key with
    | .aspectState contract aspect state (_ :: _) =>
      scope.contains (.aspectState contract aspect state [])
    | _ => false

/-- Write one number, inside of the frame's contract and scope. -/
def stateSet (frame : AuthorizedFrame) (key : StateKey) (value : Amount) : Kernel Unit := do
  ensure (key.ownerContract = frame.contract) .contractIsolationViolation
  ensure (writeScopeContains frame.writeScope key = true) .writeScopeViolation
  write fun s => s.put key value

/-- Append an event. -/
def emit (contract : ContractId) (txHash : TxHash) (payload : EventPayload) : Kernel Unit :=
  write fun s =>
    { s with events := s.events ++ [⟨contract, txHash, Word.ofNat 64 s.events.length, payload⟩] }

/-- Append a message to the outbox, and report it. -/
def appendOutbox (tx : Transaction) (destinationChain : ChainId)
    (destinationContract : ContractId) (messageId : String) (recipient : Principal)
    (asset : AssetId) (amount : Amount) : Kernel Unit := do
  write fun s =>
    { s with
      outboundMessageIds := s.outboundMessageIds.insert messageId
      crossShardOutbox := s.crossShardOutbox ++ [{
        sourceChain := s.chainId
        sourceContract := tx.target
        sourceHeight := s.height
        destinationChain := destinationChain
        destinationContract := destinationContract
        messageId := messageId
        recipient := recipient
        asset := asset
        amount := amount }] }
  emit tx.target tx.txHash
    (.crossShardMessageQueued messageId destinationChain destinationContract recipient asset amount)

/-! ## Rights -/

/-- Spend a part of an allowance. -/
def consumeAllowance (contract : ContractId) (owner spender : Principal) (asset : AssetId)
    (amount : Amount) : Kernel Unit := do
  let found ← read fun s => s.registry[GrantKey.allowance contract owner spender asset]?
  let grant ← okOr found .registryGrantMissing
  ensure (grant.active = true) .registryGrantInactive
  ensure (grant.revoked = false) .registryGrantRevoked
  ensure (grant.subject = spender) .registryGrantMissing
  ensure (grant.rights.contains .spendAllowance = true) .registryRightMissing
  ensure (amount ≤ grant.remaining) .allowanceExceeded
  let spent ← checkedAdd grant.spent amount
  write fun s => s.grant (.allowance contract owner spender asset) { grant with spent := spent }

/-- The caller holds a live grant of a right. -/
def requireGrant (key : GrantKey) (subject : Principal) (right : GrantRight)
    (e : ExecutionError) : Kernel Unit := do
  let found ← read fun s => s.registry[key]?
  let grant ← okOr found e
  ensure (grant.active = true ∧ grant.revoked = false ∧ grant.subject = subject) e
  ensure (grant.rights.contains right = true) e

def requireOracleUpdater (contract : ContractId) (updater : Principal) : Kernel Unit :=
  requireGrant (.oracleUpdater contract updater) updater .updateOracle .unauthorizedOracleUpdater

def requireGovernanceAdmin (contract : ContractId) (admin : Principal) : Kernel Unit :=
  requireGrant (.governanceAdmin contract admin) admin .governanceAdmin .unauthorizedGovernance

/-- The authority that a policy asks for; allowances and certificates are left to
    the method itself. -/
def enforceMethodAuthority (tx : Transaction) (msgSender : Principal) (policy : MethodPolicy) :
    Kernel Unit :=
  match policy.authority with
  | .txSender | .liveAllowanceGrant | .permitCertificate | .bridgeCertificate => pure ()
  | .oracleUpdaterGrant => requireOracleUpdater tx.target msgSender
  | .governanceAdminGrant => requireGovernanceAdmin tx.target msgSender

/-! ## Certificates -/

/-- The texts between the separators. -/
def splitAll (sep : Char) : List Char → List (List Char)
  | [] => [[]]
  | c :: cs =>
    if c = sep then [] :: splitAll sep cs
    else
      match splitAll sep cs with
      | part :: parts => (c :: part) :: parts
      | [] => [[c]]

/-- The nonce of a permit: its text names the chain, the contract and the allowance,
    and ends in the nonce. -/
def permitNonce (certificate : String) (chainId : ChainId) (contract : ContractId)
    (owner spender : Principal) (asset : AssetId) (amount : Amount) : Option String :=
  match splitAll ':' certificate.toList with
  | [p0, p1, p2, p3, p4, p5, p6, nonce] =>
    if [p0, p1, p2, p3, p4, p5, p6].map String.ofList =
        ["permit", chainId, contract, owner, spender, asset, toString amount.val] then
      some (String.ofList nonce)
    else none
  | _ => none

/-- Check a permit, and use up its nonce. -/
def usePermitCertificate (contract : ContractId) (owner spender : Principal) (asset : AssetId)
    (amount : Amount) (certificate : String) : Kernel Unit := do
  let chainId ← read fun s => s.chainId
  let nonce ← okOr (permitNonce certificate chainId contract owner spender asset amount)
    .invalidCertificate
  let used ← read fun s => s.usedCertificateNonces.contains nonce
  ensure (used = false) .certificateReplay
  write fun s => { s with usedCertificateNonces := s.usedCertificateNonces.insert nonce }

end Kernel

/-- What a finality proof has to be about. -/
structure ExpectedBridgeMessage where
  destinationChain : ChainId
  destinationContract : ContractId
  sourceChain : ChainId
  messageId : String
  recipient : Principal
  asset : AssetId
  amount : Amount
deriving DecidableEq, Repr

/-- The validators of the source chain stand behind a proof. -/
def BridgeValidatorSet.verifiesFinality (v : BridgeValidatorSet) (proof : CrossShardFinalityProof) :
    Bool :=
  v.sourceChain ≠ "" && !v.validators.isEmpty && v.quorum ≠ 0 && v.quorum ≤ v.validators.size &&
    proof.sourceChain == v.sourceChain && proof.quorum == v.quorum &&
    (proof.signers.all fun signer => v.validators.contains signer) &&
    decide proof.signers.Nodup && v.quorum ≤ proof.signers.length

namespace CrossShardFinalityProof

def verifyMessage (h : Hashing) (p : CrossShardFinalityProof) (expected : ExpectedBridgeMessage) :
    Bool :=
  let message := p.messageProof.message
  p.quorum ≠ 0 && p.quorum ≤ p.signers.length && decide p.signers.Nodup &&
    p.finalizedBlockHash ≠ "" && p.messageProof.proof.verify h message.json &&
    p.messageProof.proof.root == p.outboxRoot && p.sourceChain == expected.sourceChain &&
    message.sourceChain == p.sourceChain && message.sourceHeight == p.sourceHeight &&
    message.destinationChain == expected.destinationChain &&
    message.destinationContract == expected.destinationContract &&
    message.messageId == expected.messageId && message.recipient == expected.recipient &&
    message.asset == expected.asset && message.amount == expected.amount

def verifyMessageWithValidatorSet (h : Hashing) (p : CrossShardFinalityProof)
    (expected : ExpectedBridgeMessage) (validatorSet : BridgeValidatorSet) : Bool :=
  p.verifyMessage h expected && validatorSet.verifiesFinality p

end CrossShardFinalityProof

namespace Kernel

/-- Check the proof that another chain has sent a message. -/
def verifyBridgeFinalityProof (env : Env) (certificate : String)
    (expected : ExpectedBridgeMessage) : Kernel Unit := do
  let found ← read fun s => s.trustedBridgeValidatorSets[expected.sourceChain]?
  let validatorSet ← okOr found .invalidBridgeMessage
  let proof ← okOr (env.parseFinalityProof certificate) .invalidBridgeMessage
  ensure (proof.verifyMessageWithValidatorSet env.hashing expected validatorSet = true)
    .invalidBridgeMessage

end Kernel

end Detta
