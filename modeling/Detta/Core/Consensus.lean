import Detta.Core.Node

/-!
# Consensus

A cluster of validators finalizes blocks: every active validator runs the block again
and votes for it, and the votes of a quorum make a certificate. A validator that is seen to
vote for two blocks of one height is slashed, and from then on is not active. A quorum may
also change who the validators are.
-/

namespace Detta

/-! ## Votes and certificates -/

structure Vote where
  validatorId : String
  height : U64
  blockHash : String
deriving DecidableEq, Repr

structure FinalityCertificate where
  height : U64
  blockHash : String
  signers : List String
deriving DecidableEq, Repr

structure EquivocationEvidence where
  validatorId : String
  height : U64
  firstBlockHash : String
  secondBlockHash : String
deriving DecidableEq, Repr

structure SlashingRecord where
  validatorId : String
  slashedAtHeight : U64
  evidence : EquivocationEvidence
deriving DecidableEq, Repr

structure ValidatorSetUpdate where
  updateId : String
  addValidators : List (String × DeTTaState)
  removeValidators : List String

inductive ConsensusError where
  | unknownProposer
  | unknownValidator (validatorId : String)
  | slashedValidator (validatorId : String)
  | duplicateValidator (validatorId : String)
  | emptyValidatorSet
  | validatorSetWouldBeEmpty
  | validatorSetUpdateAlreadyApplied (updateId : String)
  | quorumNotReached (accepted required : ℕ)
  | finalityHeightMismatch (expected actual : U64)
  | finalityBlockHashMismatch (expected actual : String)
  | invalidBlock (validator : String) (error : BlockError)
  | equivocation (evidence : EquivocationEvidence)
deriving DecidableEq, Repr

/-- More than two thirds. -/
def quorumFor (activeValidators : ℕ) : ℕ :=
  if activeValidators = 0 then 0 else activeValidators * 2 / 3 + 1

/-- Refuse a list with the first element that has a property. -/
def refuseAny {ε α : Type} (l : List α) (p : α → Bool) (e : α → ε) : Except ε Unit :=
  match l.find? p with
  | some a => .error (e a)
  | none => .ok ()

/-- All signers are validators of a set, and enough of them are different. -/
def verifyFinalityCertificate (certificate : FinalityCertificate) (expectedHeight : U64)
    (expectedBlockHash : String) (activeValidators : Std.ExtTreeSet String) (quorum : ℕ) :
    Except ConsensusError Unit :=
  let uniqueSigners : Std.ExtTreeSet String := .ofList certificate.signers
  if activeValidators.isEmpty = true ∨ quorum = 0 then .error .emptyValidatorSet
  else if certificate.height ≠ expectedHeight then
    .error (.finalityHeightMismatch expectedHeight certificate.height)
  else if certificate.blockHash ≠ expectedBlockHash then
    .error (.finalityBlockHashMismatch expectedBlockHash certificate.blockHash)
  else do
    refuseAny certificate.signers (fun signer => !activeValidators.contains signer)
      .unknownValidator
    if uniqueSigners.size < quorum then .error (.quorumNotReached uniqueSigners.size quorum)
    else .ok ()

def orderedHashPair (left right : String) : String × String :=
  if left ≤ right then (left, right) else (right, left)

/-- The first vote that contradicts an earlier one; `seen` has the first vote of each
    validator at each height. -/
def detectEquivocationFrom (seen : List Vote) : List Vote → Option EquivocationEvidence
  | [] => none
  | vote :: votes =>
    match seen.find? fun v => v.validatorId = vote.validatorId ∧ v.height = vote.height with
    | some previous =>
      if previous.blockHash ≠ vote.blockHash then
        let hashes := orderedHashPair previous.blockHash vote.blockHash
        some ⟨vote.validatorId, vote.height, hashes.1, hashes.2⟩
      else detectEquivocationFrom seen votes
    | none => detectEquivocationFrom (vote :: seen) votes

def detectEquivocation (votes : List Vote) : Option EquivocationEvidence :=
  detectEquivocationFrom [] votes

def certificateFromVotes (height : U64) (blockHash : String) (votes : List Vote) (quorum : ℕ) :
    Except ConsensusError FinalityCertificate :=
  match detectEquivocation votes with
  | some evidence => .error (.equivocation evidence)
  | none =>
    let signers : Std.ExtTreeSet String := .ofList ((votes.filter fun vote =>
      vote.height = height ∧ vote.blockHash = blockHash).map (·.validatorId))
    if signers.size < quorum then .error (.quorumNotReached signers.size quorum)
    else .ok ⟨height, blockHash, signers.toList⟩

/-! ## Clusters -/

structure ConsensusCluster where
  validators : Std.ExtTreeMap String ValidatorNode
  slashingRecords : Std.ExtTreeMap String SlashingRecord
  appliedValidatorSetUpdates : Std.ExtTreeSet String

namespace ConsensusCluster

/-- Put nodes of different names into a table. -/
def addNodes (nodes : Std.ExtTreeMap String ValidatorNode) :
    List (String × DeTTaState) → Except ConsensusError (Std.ExtTreeMap String ValidatorNode)
  | [] => .ok nodes
  | (validatorId, state) :: validators =>
    if nodes.contains validatorId then .error (.duplicateValidator validatorId)
    else addNodes (nodes.insert validatorId (.new validatorId state)) validators

def new (validators : List (String × DeTTaState)) : Except ConsensusError ConsensusCluster :=
  if validators.isEmpty then .error .emptyValidatorSet
  else do
    let nodes ← addNodes ∅ validators
    return ⟨nodes, ∅, ∅⟩

variable (c : ConsensusCluster)

def activeValidatorCount : ℕ := c.validators.size - c.slashingRecords.size

def quorum : ℕ := quorumFor c.activeValidatorCount

def isSlashed (validatorId : String) : Bool := c.slashingRecords.contains validatorId

/-- The validators that are not slashed. -/
def activeValidators : Std.ExtTreeSet String :=
  .ofList (c.validators.keys.filter fun validatorId => !c.isSlashed validatorId)

/-- The signers are known, and not slashed. -/
def checkSigners (signers : List String) : Except ConsensusError Unit :=
  refuseAny signers (fun signer => !c.validators.contains signer || c.isSlashed signer)
    fun signer =>
      if c.validators.contains signer then .slashedValidator signer else .unknownValidator signer

def verifyFinalityCertificate (certificate : FinalityCertificate) (expectedHeight : U64)
    (expectedBlockHash : String) : Except ConsensusError Unit := do
  c.checkSigners certificate.signers
  Detta.verifyFinalityCertificate certificate expectedHeight expectedBlockHash c.activeValidators
    c.quorum

def proposeBlock (env : Env) (proposerId : String) (height : U64)
    (transactions : List Transaction) (timestamp : U64) : Except ConsensusError Block :=
  match c.validators[proposerId]? with
  | none => .error .unknownProposer
  | some proposer =>
    if c.isSlashed proposerId then .error (.slashedValidator proposerId)
    else .ok (proposer.proposeBlock env height transactions timestamp)

/-- Enough different signers that are known, and not slashed. -/
def requireActiveQuorum (signers : List String) : Except ConsensusError Unit := do
  c.checkSigners signers
  let accepted : Std.ExtTreeSet String := .ofList signers
  if accepted.size < c.quorum then .error (.quorumNotReached accepted.size c.quorum) else .ok ()

/-- New validators have names of their own. -/
def checkAdded (seen : Std.ExtTreeSet String) :
    List (String × DeTTaState) → Except ConsensusError Unit
  | [] => .ok ()
  | (validatorId, _) :: validators =>
    if seen.contains validatorId ∨ c.validators.contains validatorId then
      .error (.duplicateValidator validatorId)
    else checkAdded (seen.insert validatorId) validators

/-- Validators that leave are there, and leave once. -/
def checkRemoved (seen : Std.ExtTreeSet String) : List String → Except ConsensusError Unit
  | [] => .ok ()
  | validatorId :: validators =>
    if seen.contains validatorId ∨ c.validators.contains validatorId = false then
      .error (.unknownValidator validatorId)
    else checkRemoved (seen.insert validatorId) validators

def validateValidatorSetUpdate (update : ValidatorSetUpdate) : Except ConsensusError Unit := do
  c.checkAdded ∅ update.addValidators
  c.checkRemoved ∅ update.removeValidators
  let nextValidatorCount :=
    c.validators.size + update.addValidators.length - update.removeValidators.length
  if nextValidatorCount = 0 then .error .validatorSetWouldBeEmpty else .ok ()

end ConsensusCluster

/-! ## Operations -/

/-- What an operation does to a cluster; what it has done stays done when it fails. -/
abbrev Cluster := EStateM ConsensusError ConsensusCluster

namespace Cluster

/-- A result as a step of a cluster. -/
def ofExcept {α : Type} : Except ConsensusError α → Cluster α
  | .ok a => pure a
  | .error e => throw e

def recordEquivocation (evidence : EquivocationEvidence) : Cluster SlashingRecord := do
  let c ← get
  ensure (c.validators.contains evidence.validatorId = true)
    (.unknownValidator evidence.validatorId)
  let record := (c.slashingRecords[evidence.validatorId]?).getD
    ⟨evidence.validatorId, evidence.height, evidence⟩
  set { c with slashingRecords := c.slashingRecords.insert evidence.validatorId record }
  return record

/-- An equivocation among the votes is recorded, and nothing is certified. -/
def certificateFromActiveVotes (height : U64) (blockHash : String) (votes : List Vote) :
    Cluster FinalityCertificate := do
  match detectEquivocation votes with
  | some evidence =>
    let _ ← recordEquivocation evidence
    throw (.equivocation evidence)
  | none =>
    let c ← get
    ofExcept (certificateFromVotes height blockHash
      (votes.filter fun vote => !c.isSlashed vote.validatorId) c.quorum)

/-- The active validators apply a block one after the other, and vote for it. -/
def collectVotes (env : Env) (block : Block) : List (String × ValidatorNode) → Cluster (List Vote)
  | [] => pure []
  | (validatorId, validator) :: validators => do
    let c ← get
    if c.isSlashed validatorId then collectVotes env block validators
    else do
      let (validator, error) := validator.validateAndApply env block
      set { c with validators := c.validators.insert validatorId validator }
      match error with
      | some error => throw (.invalidBlock validatorId error)
      | none =>
        let votes ← collectVotes env block validators
        return ⟨validatorId, block.header.height, block.blockHash env.hashing⟩ :: votes

def finalizeBlock (env : Env) (block : Block) : Cluster FinalityCertificate := do
  let c ← get
  ensure (c.isSlashed block.header.proposer = false) (.slashedValidator block.header.proposer)
  let votes ← collectVotes env block c.validators.toList
  certificateFromActiveVotes block.header.height (block.blockHash env.hashing) votes

def applyValidatorSetUpdate (update : ValidatorSetUpdate) (certificate : FinalityCertificate) :
    Cluster Unit := do
  let c ← get
  ensure (c.appliedValidatorSetUpdates.contains update.updateId = false)
    (.validatorSetUpdateAlreadyApplied update.updateId)
  ofExcept (c.requireActiveQuorum certificate.signers)
  ofExcept (c.validateValidatorSetUpdate update)
  set (ConsensusCluster.mk
    (update.addValidators.foldl (fun t v => t.insert v.1 (.new v.1 v.2))
      (update.removeValidators.foldl (fun t v => t.erase v) c.validators))
    (update.removeValidators.foldl (fun t v => t.erase v) c.slashingRecords)
    (c.appliedValidatorSetUpdates.insert update.updateId))

end Cluster

/-- An operation on a cluster. -/
inductive ClusterOp where
  | recordEquivocation (evidence : EquivocationEvidence)
  | certificateFromActiveVotes (height : U64) (blockHash : String) (votes : List Vote)
  | finalizeBlock (block : Block)
  | applyValidatorSetUpdate (update : ValidatorSetUpdate) (certificate : FinalityCertificate)

/-- The cluster after an operation, whether it fails or not. -/
def ClusterOp.apply (env : Env) (c : ConsensusCluster) : ClusterOp → ConsensusCluster
  | recordEquivocation evidence => endState (Cluster.recordEquivocation evidence c)
  | certificateFromActiveVotes height blockHash votes =>
    endState (Cluster.certificateFromActiveVotes height blockHash votes c)
  | finalizeBlock block => endState (Cluster.finalizeBlock env block c)
  | applyValidatorSetUpdate update certificate =>
    endState (Cluster.applyValidatorSetUpdate update certificate c)

/-- The clusters that the public operations lead to. -/
inductive ConsensusCluster.Reachable (env : Env) : ConsensusCluster → Prop where
  | new {validators : List (String × DeTTaState)} {c : ConsensusCluster}
      (h : ConsensusCluster.new validators = .ok c) : Reachable env c
  | op {c : ConsensusCluster} (h : Reachable env c) (op : ClusterOp) :
      Reachable env (op.apply env c)

end Detta
