import Detta.Core.Types
import Detta.Core.Merkle
import Detta.Aspect.Eval

/-!
# The state of the kernel

The state of a chain (`DeTTaState`), the context of a running transaction
(`CallContext`), and the monad in which the kernel's methods are written: a
failing method keeps the state it has reached, and it is for the caller to put
things back.

A running transaction also carries a *call log*, which no method reads. It
records every call frame that is entered, with the state it starts in, and the
stretches of the run that belong to the frame itself rather than to the frames it
calls. Statements about call frames are statements about this log.
-/

namespace Detta

/-! ## Data from other chains and from aspect modules -/

/-- A registered aspect module: its roots, and its code if it has been verified. -/
structure AspectModuleRecord where
  moduleId : String
  moduleHash : String
  taxonomyVersion : String
  sourceRoot : String
  canonicalSource : Option String
  irRoot : String
  ir : Option AspectModuleIr
  abiRoot : String
  policyRoot : String
  storageSchemaRoot : String
  registrySchemaRoot : String
  invariantRoot : String

structure OutboxMessageProof where
  message : CrossShardMessage
  proof : MerkleProof
deriving DecidableEq, Repr

/-- The claim of another chain that a message is in its outbox. -/
structure CrossShardFinalityProof where
  sourceChain : ChainId
  sourceHeight : U64
  finalizedBlockHash : String
  outboxRoot : String
  quorum : ℕ
  signers : List Principal
  messageProof : OutboxMessageProof
deriving DecidableEq, Repr

/-- The validators of another chain. -/
structure BridgeValidatorSet where
  sourceChain : ChainId
  validators : Std.ExtTreeSet Principal
  quorum : ℕ

/-! ## The state -/

/-- Nonces are used up per sender. -/
structure NonceKey where
  sender : Principal
  nonce : Nonce
deriving DecidableEq, Repr

namespace NonceKey

instance : Ord NonceKey := ⟨compareLex (compareOn sender) (compareOn nonce)⟩

instance : Std.TransOrd NonceKey :=
  inferInstanceAs (Std.TransCmp (compareLex (compareOn sender) (compareOn nonce)))

theorem compare_eq_eq {a b : NonceKey} :
    compare a b = .eq ↔ compare a.sender b.sender = .eq ∧ compare a.nonce b.nonce = .eq :=
  Ordering.then_eq_eq

instance : Std.LawfulEqOrd NonceKey where
  compare_self := compare_eq_eq.2 ⟨Std.ReflCmp.compare_self, Std.ReflCmp.compare_self⟩
  eq_of_compare {a b} h := by
    obtain ⟨hs, hn⟩ := compare_eq_eq.1 h
    cases a
    cases b
    simp_all

end NonceKey

/-- The state of a chain. -/
structure DeTTaState where
  chainId : ChainId
  height : U64
  finalizedBlockHash : String
  contracts : Std.ExtTreeMap ContractId ContractRecord
  aspectModules : Std.ExtTreeMap String AspectModuleRecord
  storage : Std.ExtTreeMap StateKey StateValue
  registry : Std.ExtTreeMap GrantKey Grant
  usedNonces : Std.ExtTreeSet NonceKey
  usedCertificateNonces : Std.ExtTreeSet String
  pausedContracts : Std.ExtTreeSet ContractId
  scheduledUpgrades : Std.ExtTreeMap String ScheduledUpgrade
  scheduledPolicyUpdates : Std.ExtTreeMap String ScheduledPolicyUpdate
  trustedBridgeValidatorSets : Std.ExtTreeMap ChainId BridgeValidatorSet
  outboundMessageIds : Std.ExtTreeSet String
  crossShardOutbox : List CrossShardMessage
  events : List Event

namespace DeTTaState

def new (chainId : ChainId) : DeTTaState where
  chainId := chainId
  height := 0
  finalizedBlockHash := "genesis"
  contracts := ∅
  aspectModules := ∅
  storage := ∅
  registry := ∅
  usedNonces := ∅
  usedCertificateNonces := ∅
  pausedContracts := ∅
  scheduledUpgrades := ∅
  scheduledPolicyUpdates := ∅
  trustedBridgeValidatorSets := ∅
  outboundMessageIds := ∅
  crossShardOutbox := []
  events := []

/-- The number stored under a key, zero if there is none. -/
def uintAt (s : DeTTaState) (key : StateKey) : Amount := (s.storage[key]?.map (·.asUint)).getD 0

/-- Write one number. -/
def put (s : DeTTaState) (key : StateKey) (value : Amount) : DeTTaState :=
  { s with storage := s.storage.insert key ⟨value⟩ }

/-- Write one grant. -/
def grant (s : DeTTaState) (key : GrantKey) (g : Grant) : DeTTaState :=
  { s with registry := s.registry.insert key g }

end DeTTaState

/-! ## Call frames -/

/-- An entry of the call stack. -/
structure CallFrame where
  txSender : Principal
  msgSender : Principal
  contract : ContractId
  method : Method
deriving DecidableEq, Repr

/-- The context of a transaction: its stack, the top first, and the contracts that
    may not be entered again. -/
structure CallContext where
  txSender : Principal
  stack : List CallFrame
  activeNonreentrantContracts : Std.ExtTreeSet ContractId

def CallContext.new (txSender : Principal) : CallContext := ⟨txSender, [], ∅⟩

/-- Leave the frame at the top of the stack. -/
def CallContext.exit (c : CallContext) : CallContext :=
  match c.stack with
  | frame :: stack =>
    { c with
      stack := stack
      activeNonreentrantContracts := c.activeNonreentrantContracts.erase frame.contract }
  | [] => c

/-- A call: what is asked, who asks, and the state it starts in. -/
structure Frame where
  tx : Transaction
  msgSender : Principal
  start : DeTTaState

/-- A frame that has not returned yet: the stretches of its own code that are over,
    and the state in which the current one began. -/
structure Activation where
  frame : Frame
  own : List (DeTTaState × DeTTaState)
  since : DeTTaState

/-- A frame that has returned: the frames it was called from, the innermost first,
    and the stretches of its own code, each with the states before and after it. -/
structure FrameRecord where
  frame : Frame
  callers : List Frame
  own : List (DeTTaState × DeTTaState)

/-- The calls of a transaction. -/
structure CallLog where
  active : List Activation
  finished : List FrameRecord
  exhausted : Bool

/-- The initial log of a transaction. -/
def CallLog.empty : CallLog := ⟨[], [], false⟩

/-- A frame is entered: the stretch of the caller is over. -/
def CallLog.enter (log : CallLog) (frame : Frame) : CallLog :=
  let active := match log.active with
    | a :: rest => { a with own := a.own ++ [(a.since, frame.start)] } :: rest
    | [] => []
  { log with active := ⟨frame, [], frame.start⟩ :: active }

/-- The frame on top returns in state `s`: a new stretch of the caller begins. -/
def CallLog.leave (log : CallLog) (s : DeTTaState) : CallLog :=
  match log.active with
  | a :: rest =>
    { log with
      active := match rest with
        | b :: rest => { b with since := s } :: rest
        | [] => []
      finished := log.finished ++ [⟨a.frame, rest.map (·.frame), a.own ++ [(a.since, s)]⟩] }
  | [] => log

/-! ## The kernel monad -/

/-- A running transaction. -/
structure Machine where
  state : DeTTaState
  context : CallContext
  log : CallLog

/-- Methods of the kernel. -/
abbrev Kernel := EStateM ExecutionError Machine

/-- What a method returns. -/
inductive ReturnValue where
  | unit
  | uInt (value : Amount)
deriving DecidableEq, Repr

/-- The call of a contract by a contract. -/
abbrev ContractCall := Transaction → Principal → Kernel ReturnValue

end Detta
