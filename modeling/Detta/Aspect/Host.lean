import Detta.Base.Check
import Detta.Native.Governance

/-!
# Aspect contracts

How the kernel runs a method of an aspect contract: it evaluates the projection on
a snapshot of the state, carries out the operations of the trace one after the
other, each checked against the policy of the method, and then evaluates the
invariants that the policy names.
-/

namespace Detta

open Kernel

/-! ## Values -/

def aspectValueFromArgument : Argument → AspectValue
  | .principal value | .asset value | .text value | .certificate value => .atom value
  | .amount value => .amount value

/-- A truth value as a number. -/
def amountOfBool (b : Bool) : Amount := if b then 1 else 0

def aspectValueToReturn : AspectValue → Option ReturnValue
  | .unit => some .unit
  | .amount value => some (.uInt value)
  | .bool value => some (.uInt (amountOfBool value))
  | .atom _ => none

/-- The number that is stored for a value. -/
def stateValueFromAspect : AspectValue → Option Amount
  | .amount value => some value
  | .bool value => some (amountOfBool value)
  | .unit | .atom _ => none

def aspectValueFromStateValue (value : StateValue) : AspectValue := .amount value.asUint

/-! ## Arguments of calls -/

/-- The kinds of arguments of a method. -/
inductive AbiArgKind where
  | principal | asset | amount | text | certificate
deriving DecidableEq, Repr

def nativeMethodArgKinds : Method → Option (List AbiArgKind)
  | .transfer | .approve => some [.principal, .asset, .amount]
  | .transferFrom | .routeTransferFrom => some [.principal, .principal, .asset, .amount]
  | .permit => some [.principal, .principal, .asset, .amount, .certificate]
  | .addLiquidity => some [.amount, .amount]
  | .swap | .submitPrice => some [.asset, .amount, .amount]
  | .queueBridgeMessage => some [.text, .text, .text, .principal, .asset, .amount]
  | .redeemBridgeMessage => some [.text, .principal, .asset, .amount, .certificate]
  | .pauseContract | .unpauseContract => some []
  | .scheduleUpgrade => some [.text, .text]
  | .executeUpgrade | .executePolicyUpdate => some [.text]
  | .schedulePolicyUpdate => some [.text, .text, .text]
  | .depositCollateral | .borrow | .stake | .unstake | .requestUnstake | .completeUnstake =>
    some [.asset, .amount]
  | .liquidate => some [.principal, .asset, .amount]
  | .claimStakingRewards => some [.asset]
  | .deployToken => some [.text, .asset, .principal, .amount]
  | .deployAmmPool => some [.text, .asset, .asset]
  | .registerAccountKey | .revokeAccountKey => some [.text]
  | .submitAspectModule | .deployAspectContract | .other _ => none

def abiArgKind : Expr → Option AbiArgKind
  | .atom "Address" | .atom "Principal" => some .principal
  | .atom "Asset" => some .asset
  | .atom "Amount" => some .amount
  | .atom "Text" => some .text
  | .atom "Bytes" | .atom "Certificate" => some .certificate
  | _ => none

/-- The kinds of arguments that an interface `(args (name type) …)` declares. -/
def abiArgKinds : Expr → Option (List AbiArgKind)
  | .list (.atom "args" :: items) => items.mapM fun item =>
    match item with
    | .list [_, type] => abiArgKind type
    | _ => none
  | _ => none

def aspectValueToArgument : AbiArgKind → AspectValue → Option Argument
  | .amount, .amount value => some (.amount value)
  | .amount, _ => none
  | kind, .atom value =>
    if value = "" then none
    else match kind with
      | .principal => some (.principal value)
      | .asset => some (.asset value)
      | .text => some (.text value)
      | _ => some (.certificate value)
  | _, _ => none

/-- Values as arguments of the given kinds, one each. -/
def aspectValuesToArgKinds (kinds : List AbiArgKind) (args : List AspectValue) :
    Option (List Argument) :=
  if kinds.length = args.length then
    (kinds.zip args).mapM fun (kind, value) => aspectValueToArgument kind value
  else none

/-! ## Allow lists -/

/-- An entry of an allow list allows a name in a contract. -/
def ContractPattern.allows (p : ContractPattern) (contract name : String) : Bool :=
  p.name == name &&
    match p.target with
    | .any => true
    | .exact target => target == contract

def aspectPolicyAllowsContractCall (policy : MethodPolicyIr) (contract method : String) : Bool :=
  policy.callAllowlist.toList.any fun p => p.allows contract method

def aspectPolicyAllowsContractStateRead (policy : MethodPolicyIr) (contract state : String) :
    Bool :=
  policy.readAllowlist.toList.any fun p => p.allows contract state

def hostCallMethodForTarget (record : ContractRecord) (method : String) : Option Method :=
  if record.kind.isAspectModule then some (.other method) else parsePolicyMethod method

/-! ## States -/

/-- A contract at work: its module, its bundle, and the policy of the method. -/
structure AspectHostContext where
  module : AspectModuleRecord
  ir : AspectModuleIr
  bundleId : String
  policy : MethodPolicyIr
  frame : AuthorizedFrame

/-- The states that the aspects of a bundle own. -/
def bundleSchemas (ir : AspectModuleIr) (closure : Std.ExtTreeSet String) : List StateSchema :=
  ir.storageSchema.values.filter fun schema => closure.contains schema.aspect

def aspectWriteScope (contract : ContractId) (bundleId : String) (ir : AspectModuleIr) :
    Except ExecutionError (Std.ExtTreeSet StateKey) := do
  let closure ← aspectBundleAspectClosure ir bundleId
  .ok (.ofList ((bundleSchemas ir closure).map fun schema =>
    StateKey.aspectState contract schema.aspect schema.state []))

/-- The key of a state, which only one aspect of the bundle may own. -/
def aspectStateKey (contract : ContractId) (bundleId : String) (ir : AspectModuleIr)
    (state : String) (key : List String) : Except ExecutionError StateKey := do
  let closure ← aspectBundleAspectClosure ir bundleId
  match (bundleSchemas ir closure).filter fun schema => schema.state == state with
  | [] => .error .writeScopeViolation
  | [schema] => .ok (.aspectState contract schema.aspect schema.state key)
  | _ => .error .invalidArguments

/-- The states of a contract that the aspects of a bundle own. -/
def aspectStateReads (s : DeTTaState) (contract : ContractId) (bundleId : String)
    (ir : AspectModuleIr) : Except ExecutionError AspectStateReads := do
  let closure ← aspectBundleAspectClosure ir bundleId
  .ok (.ofList (s.storage.toList.filterMap fun (key, value) =>
    match key with
    | .aspectState stored aspect state key =>
      if stored = contract ∧ closure.contains aspect = true then
        some (state :: key, aspectValueFromStateValue value)
      else none
    | _ => none))

def aspectContractStateReads (s : DeTTaState) : ContractAspectStateReads :=
  .ofList (s.storage.toList.filterMap fun (key, value) =>
    match key with
    | .aspectState contract _ state key =>
      some (contract :: state :: key, aspectValueFromStateValue value)
    | _ => none)

/-! ## Operations -/

/-- The arguments of a call of a contract, as the contract expects them. -/
def aspectValuesToHostCallArgs (s : DeTTaState) (record : ContractRecord) (method : Method)
    (args : List AspectValue) : Except ExecutionError (List Argument) := do
  let kinds ←
    match record.kind with
    | .aspectModule moduleHash bundleId _ _ _ =>
      match method with
      | .other projection =>
        match s.aspectModules[moduleHash]? with
        | none => .error .invalidArguments
        | some module =>
          match module.ir with
          | none => .error .policyMissing
          | some ir => .ok ((ir.abi[qualified bundleId projection]?).bind fun abi =>
              abiArgKinds abi.args)
      | _ => .error .invalidArguments
    | _ => .ok (nativeMethodArgKinds method)
  match kinds.bind fun kinds => aspectValuesToArgKinds kinds args with
  | some args => .ok args
  | none => .error .invalidArguments

/-- The call that an aspect contract makes: in its own name, with the sender of its
    own transaction. -/
def hostCallTx (tx : Transaction) (contract : ContractId) (method : Method)
    (args : List Argument) : Transaction :=
  { tx with
    target := contract
    method := method
    args := args }

def applyAspectCallContract (call : ContractCall) (tx : Transaction) (host : AspectHostContext)
    (contract : ContractId) (method : String) (args : List AspectValue) : Kernel Unit := do
  ensure (contract ≠ "") .invalidArguments
  ensure (aspectPolicyAllowsContractCall host.policy contract method = true)
    .unauthorizedContractCall
  let found ← read fun s => s.contracts[contract]?
  let record ← okOr found .contractNotFound
  let method ← okOr (hostCallMethodForTarget record method) .invalidArguments
  let converted ← read fun s => aspectValuesToHostCallArgs s record method args
  let args ← Kernel.ofExcept converted
  let _ ← call (hostCallTx tx contract method args) host.frame.contract

def applyAspectCrossShardOutboxAppend (tx : Transaction)
    (destinationChain destinationContract messageId recipient asset : String) (amount : Amount) :
    Kernel Unit := do
  ensure (destinationChain ≠ "" ∧ destinationContract ≠ "" ∧ messageId ≠ "" ∧ recipient ≠ "" ∧
    asset ≠ "" ∧ amount ≠ 0) .invalidArguments
  let used ← read fun s => s.outboundMessageIds.contains messageId
  ensure (used = false) .outboundMessageReplay
  appendOutbox tx destinationChain destinationContract messageId recipient asset amount

/-- Write a state of the contract. -/
def applyAspectStateSet (tx : Transaction) (host : AspectHostContext) (state : String)
    (key : List String) (value : AspectValue) : Kernel Unit := do
  let key ← Kernel.ofExcept (aspectStateKey tx.target host.bundleId host.ir state key)
  let value ← okOr (stateValueFromAspect value) .invalidArguments
  stateSet host.frame key value

/-- Carry out one operation. Reads have been answered by the snapshot, and registries
    of aspects are not implemented. -/
def applyAspectHostOp (env : Env) (call : ContractCall) (tx : Transaction)
    (host : AspectHostContext) : AspectHostOp → Kernel Unit
  | .stateGet _ _ => pure ()
  | .contractStateGet contract state _ =>
    ensure (aspectPolicyAllowsContractStateRead host.policy contract state = true)
      .unauthorizedContractStateRead
  | .stateSet state key value => applyAspectStateSet tx host state key value
  | .emit event => emit tx.target tx.txHash (.aspectEvent host.module.moduleHash event)
  | .registryGet _ | .registrySet _ _ | .registryConsume _ _ => throw .invalidArguments
  | .callContract contract method args => applyAspectCallContract call tx host contract method args
  | .permitVerify owner spender asset amount certificate =>
    usePermitCertificate tx.target owner spender asset amount certificate
  | .bridgeVerify sourceChain messageId recipient asset amount certificate => do
    let chainId ← read fun s => s.chainId
    verifyBridgeFinalityProof env certificate
      ⟨chainId, tx.target, sourceChain, messageId, recipient, asset, amount⟩
  | .crossShardOutboxAppend destinationChain destinationContract messageId recipient asset amount =>
    applyAspectCrossShardOutboxAppend tx destinationChain destinationContract messageId recipient
      asset amount

/-! ## Invariants -/

/-- Operations that an invariant may ask for: reads only. -/
def aspectInvariantOpIsAllowed (policy : MethodPolicyIr) : AspectHostOp → Bool
  | .stateGet _ _ | .registryGet _ => true
  | .contractStateGet contract state _ => aspectPolicyAllowsContractStateRead policy contract state
  | _ => false

/-- An invariant of the policy holds. -/
def aspectInvariantHolds (input : EvalInput) (policy : MethodPolicyIr) (bundleId ref : String) :
    Except ExecutionError Unit := do
  let invariant ← resolveAspectInvariant input.module bundleId ref
  match evaluateInvariantExpr input invariant.expr with
  | .error _ => .error .invariantViolation
  | .ok report =>
    if report.returnValue = .bool true ∧
        report.trace.all (aspectInvariantOpIsAllowed policy) = true then .ok ()
    else .error .invariantViolation

/-- What an evaluation for a method of a contract reads. -/
def aspectEvalInput (s : DeTTaState) (ir : AspectModuleIr) (bundleId : String) (budget : U64)
    (context : AspectExecutionContext) : Except ExecutionError EvalInput := do
  let stateReads ← aspectStateReads s context.currentContract bundleId ir
  .ok ⟨ir, budget, context, stateReads, aspectContractStateReads s⟩

theorem aspectEvalInput_eq_ok {s : DeTTaState} {ir : AspectModuleIr} {bundleId : String}
    {budget : U64} {context : AspectExecutionContext} {input : EvalInput}
    (h : aspectEvalInput s ir bundleId budget context = .ok input) :
    input.module = ir ∧ input.maxSteps = budget ∧ input.context = context := by
  obtain ⟨reads, -, h⟩ := exists_of_bind_eq_ok h
  cases h
  exact ⟨rfl, rfl, rfl⟩

def checkAspectMethodInvariants (s : DeTTaState) (ir : AspectModuleIr) (bundleId : String)
    (policy : MethodPolicyIr) (budget : U64) (context : AspectExecutionContext) :
    Except ExecutionError Unit := do
  let input ← aspectEvalInput s ir bundleId budget context
  policy.invariants.toList.forM fun ref => aspectInvariantHolds input policy bundleId ref

/-! ## Methods -/

/-- Who calls a method of an aspect contract, and when. -/
def aspectContext (s : DeTTaState) (tx : Transaction) (msgSender : Principal) :
    AspectExecutionContext where
  txSender := tx.sender
  msgSender := msgSender
  currentContract := tx.target
  blockHeight := s.height
  blockTimestamp := 0

/-- Evaluate a projection on the current state. -/
def evaluateMethod (s : DeTTaState) (tx : Transaction) (msgSender : Principal)
    (ir : AspectModuleIr) (bundleId projection : String) :
    Except ExecutionError AspectExecutionReport := do
  let input ← aspectEvalInput s ir bundleId tx.budget (aspectContext s tx msgSender)
  match executeProjection input bundleId projection (tx.args.map aspectValueFromArgument) with
  | .error _ => .error .invalidArguments
  | .ok report => .ok report

def executeAspectModuleMethod (env : Env) (call : ContractCall) (tx : Transaction)
    (msgSender : Principal) (moduleHash bundleId : String) : Kernel ReturnValue := do
  let projection ← okOr (match tx.method with
    | .other projection => some projection
    | _ => none) .methodNotExported
  let found ← read fun s => s.aspectModules[moduleHash]?
  let module ← okOr found .invalidArguments
  let ir ← okOr module.ir .policyMissing
  let policy ← okOr ir.policies[qualified bundleId projection]? .policyMissing
  let evaluated ← read fun s => evaluateMethod s tx msgSender ir bundleId projection
  let report ← Kernel.ofExcept evaluated
  let scope ← Kernel.ofExcept (aspectWriteScope tx.target bundleId ir)
  let host : AspectHostContext := ⟨module, ir, bundleId, policy, ⟨tx.target, scope⟩⟩
  let context ← read fun s => aspectContext s tx msgSender
  forEach report.trace (applyAspectHostOp env call tx host)
  let checked ← read fun s => checkAspectMethodInvariants s ir bundleId policy tx.budget context
  Kernel.ofExcept checked
  okOr (aspectValueToReturn report.returnValue) .invalidArguments

end Detta
