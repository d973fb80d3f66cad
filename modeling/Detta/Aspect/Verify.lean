import Detta.Base.Graph
import Detta.Core.Encode

/-!
# The verifier of aspect modules

A module is accepted if its declarations refer to each other properly, if no action calls
itself through others, and if every projection declares in its policy what the action behind
it may do. What an action may do is inferred from the text of its body and of the bodies of
the actions named in it (`inferExpr`).

Two things are inferred with an exception for the forms `(= (name …) rhs)`, which are taken
for definitions wherever they stand: the effects skip the left side if it names an action, and
the search for calls always skips it.
-/

namespace Detta

open Std (ExtTreeMap ExtTreeSet TransOrd LawfulEqOrd TransCmp)

inductive AspectVerifyError where
  | unknownAspectReference (context aspect : String)
  | unknownBundleReference (context bundle : String)
  | unknownTypeReference (context typeName : String)
  | missingActionDeclaration (aspect action : String)
  | duplicateStateOwnership (state firstAspect secondAspect : String)
  | duplicateRegistryOwnership (registry firstAspect secondAspect : String)
  | missingRequiredFacet (bundle aspect facet : String)
  | conflictingAspects (bundle aspect other : String)
  | projectionTargetUnsupported (bundle projection : String)
  | missingProjectionAbi (bundle projection : String)
  | missingProjectionPolicy (bundle projection : String)
  | missingCallAllowlist (bundle projection : String)
  | missingReadAllowlist (bundle projection : String)
  | unauthorizedContractCall (bundle projection target method : String)
  | unauthorizedContractStateRead (bundle projection target state : String)
  | undeclaredEffect (bundle projection : String) (effect : EffectKind)
  | stateWriteOutOfScope (bundle projection state : String)
  | registryAccessOutOfScope (bundle projection registry : String)
  | reentrantActionCycle (action : String)
deriving DecidableEq, Repr

abbrev Verify := Except AspectVerifyError

namespace AspectModuleIr

variable (ir : AspectModuleIr)

/-! ## References and types -/

def knownAspect (context aspect : String) : Verify Unit :=
  require (ir.aspects.contains aspect = true) (.unknownAspectReference context aspect)

def knownBundle (context bundle : String) : Verify Unit :=
  require (ir.bundles.contains bundle = true) (.unknownBundleReference context bundle)

def verifyReferences : Verify Unit := do
  checkAll (fun a => do
    checkAll (ir.knownAspect (a.aspect ++ " extends")) a.extends'.toList
    checkAll (ir.knownAspect (a.aspect ++ " conflicts")) a.conflicts.toList) ir.aspects.values
  checkAll (fun s => ir.knownAspect (s.state ++ " owns") s.aspect) ir.storageSchema.values
  checkAll (fun s => ir.knownAspect (s.registry ++ " registry-owns") s.aspect)
    ir.registrySchema.values
  checkAll (fun a => ir.knownAspect (a.action ++ " action") a.aspect) ir.actions.values
  checkAll (fun i => ir.knownAspect (i.invariant ++ " invariant") i.aspect) ir.invariants.values
  checkAll (fun b => do
    checkAll (ir.knownAspect (b.bundle ++ " includes")) b.includes.toList
    checkAll (ir.knownBundle (b.bundle ++ " extends")) b.extends'.toList) ir.bundles.values
  checkAll (fun p => ir.knownBundle (p.projection ++ " projection") p.bundle) ir.projections.values
  checkAll (fun a => require (ir.projections.contains (qualified a.bundle a.projection) = true)
    (.missingProjectionAbi a.bundle a.projection)) ir.abi.values
  checkAll (fun p => require (ir.projections.contains (qualified p.bundle p.projection) = true)
    (.missingProjectionPolicy p.bundle p.projection)) ir.policies.values

def builtinTypes : List String :=
  ["->", "Type", "Bool", "UInt8", "UInt64", "Amount", "Address", "Asset", "Contract", "Method",
    "Role", "Bytes", "String", "Time", "Height", "Event"]

def isKnownType (name : String) : Bool := builtinTypes.contains name || ir.types.contains name

mutual

def verifyTypeExpr (context : String) : Expr → Verify Unit
  | .atom name => require (ir.isKnownType name = true) (.unknownTypeReference context name)
  | .list items => verifyTypeExprs context items

def verifyTypeExprs (context : String) : List Expr → Verify Unit
  | [] => .ok ()
  | e :: es => do
    verifyTypeExpr context e
    verifyTypeExprs context es

end

def verifyAbiArgs (abi : MethodAbiDef) : Verify Unit :=
  let name := qualified abi.bundle abi.projection
  let unknown (context : String) (e : Expr) : Verify Unit :=
    .error (.unknownTypeReference (context ++ name) (aspectExprSource e))
  match abi.args with
  | .atom atom => unknown "abi args " (.atom atom)
  | .list [] => .ok ()
  | .list (.atom "args" :: args) =>
    checkAll (fun arg =>
      match arg with
      | .list [.atom _, type] => ir.verifyTypeExpr ("abi arg " ++ name) type
      | .list [other, _] => unknown "abi arg name " other
      | other => unknown "abi args " other) args
  | .list (other :: _) => unknown "abi args " other

def verifyTypeExpressions : Verify Unit := do
  checkAll (fun (symbol, type) => ir.verifyTypeExpr ("type declaration " ++ symbol) type)
    ir.types.toList
  checkAll (fun s => ir.verifyTypeExpr ("state " ++ qualified s.aspect s.state) s.typeExpr)
    ir.storageSchema.values
  checkAll (fun s => ir.verifyTypeExpr ("registry " ++ qualified s.aspect s.registry) s.typeExpr)
    ir.registrySchema.values
  checkAll (fun a => do
    ir.verifyAbiArgs a
    ir.verifyTypeExpr ("return type " ++ qualified a.bundle a.projection) a.returnType)
    ir.abi.values

def verifyActionDeclarations : Verify Unit :=
  checkAll (fun a => require (a.declared = true) (.missingActionDeclaration a.aspect a.action))
    ir.actions.values

/-- Names with their owners, of which no two may have the same name. -/
def verifyOwnership (error : String → String → String → AspectVerifyError) :
    ExtTreeMap String String → List (String × String) → Verify Unit
  | _, [] => .ok ()
  | owners, (name, aspect) :: rest =>
    match owners[name]? with
    | some first => .error (error name first aspect)
    | none => verifyOwnership error (owners.insert name aspect) rest

def verifyStateOwnership : Verify Unit :=
  verifyOwnership .duplicateStateOwnership ∅
    (ir.storageSchema.values.map fun s => (s.state, s.aspect))

def verifyRegistryOwnership : Verify Unit :=
  verifyOwnership .duplicateRegistryOwnership ∅
    (ir.registrySchema.values.map fun s => (s.registry, s.aspect))

/-! ## The aspects of a bundle -/

/-- Add an aspect and all that it extends. The aspects above are not gone through again, so
    that the search is at most as deep as there are aspects. -/
def collectAspectWithParents : ℕ → List String → ExtTreeSet String → String →
    Verify (ExtTreeSet String)
  | 0, _, _, aspect => .error (.unknownAspectReference "aspect closure" aspect)
  | depth + 1, visiting, closure, aspect =>
    if aspect ∈ visiting then .ok closure
    else
      match ir.aspects[aspect]? with
      | none => .error (.unknownAspectReference "aspect closure" aspect)
      | some d => do
        let closure ← d.extends'.toList.foldlM
          (collectAspectWithParents depth (aspect :: visiting)) closure
        .ok (closure.insert aspect)

/-- Add the aspects of a bundle and of all that it extends. -/
def collectBundleAspects : ℕ → List String → ExtTreeSet String → String →
    Verify (ExtTreeSet String)
  | 0, _, _, bundle => .error (.unknownBundleReference "bundle closure" bundle)
  | depth + 1, visiting, closure, bundle =>
    if bundle ∈ visiting then .ok closure
    else
      match ir.bundles[bundle]? with
      | none => .error (.unknownBundleReference "bundle closure" bundle)
      | some d => do
        let closure ← d.extends'.toList.foldlM
          (collectBundleAspects depth (bundle :: visiting)) closure
        d.includes.toList.foldlM (ir.collectAspectWithParents (ir.aspects.size + 1) []) closure

abbrev Closures := ExtTreeMap String (ExtTreeSet String)

def bundleAspectClosures : Verify Closures :=
  ir.bundles.keys.foldlM (fun closures bundle => do
    let closure ← ir.collectBundleAspects (ir.bundles.size + 1) [] ∅ bundle
    .ok (closures.insert bundle closure)) ∅

def verifyRequiredFacets (closures : Closures) : Verify Unit :=
  checkAll (fun (bundle, closure) =>
    let defs := closure.toList.filterMap fun aspect => (ir.aspects[aspect]?).map (aspect, ·)
    checkAll (fun (aspect, d) =>
      checkAll (fun facet => require (defs.any (fun p => p.2.provides.contains facet) = true)
        (.missingRequiredFacet bundle aspect facet)) d.requires.toList) defs) closures.toList

def verifyConflicts (closures : Closures) : Verify Unit :=
  checkAll (fun (bundle, closure) =>
    let defs := closure.toList.filterMap fun aspect => (ir.aspects[aspect]?).map (aspect, ·)
    checkAll (fun (aspect, d) =>
      checkAll (fun other => require (closure.contains other = false)
        (.conflictingAspects bundle aspect other)) d.conflicts.toList) defs) closures.toList

/-! ## Projections -/

/-- The head of the right-hand side of a definition. -/
def projectionTargetAction : Expr → Option String
  | .list [.atom "=", _, .list (.atom action :: _)] => some action
  | _ => none

/-- The action of a bundle that a projection leads to. -/
def actionForProjectionTarget (closures : Closures) (bundle target : String) :
    Option ActionDef := do
  let closure ← closures[bundle]?
  ir.actions.values.find? fun a => a.action == target && closure.contains a.aspect

def verifyProjections (closures : Closures) : Verify Unit :=
  checkAll (fun p =>
    match projectionTargetAction p.expr with
    | none => .error (.projectionTargetUnsupported p.bundle p.projection)
    | some target =>
      match closures[p.bundle]? with
      | none => .error (.unknownBundleReference (p.projection ++ " projection") p.bundle)
      | some closure =>
        require (ir.actions.values.any (fun a => a.action == target && closure.contains a.aspect) =
          true) (.projectionTargetUnsupported p.bundle p.projection)) ir.projections.values

def verifyProjectionAbiAndPolicy : Verify Unit :=
  checkAll (fun p => do
    let key := qualified p.bundle p.projection
    require (ir.abi.contains key = true) (.missingProjectionAbi p.bundle p.projection)
    require (ir.policies.contains key = true) (.missingProjectionPolicy p.bundle p.projection))
    ir.projections.values

/-! ## Calls of actions -/

/-- The keys of the actions of a name. -/
def actionKeys (name : String) : List String :=
  (ExtTreeSet.ofList ((ir.actions.values.filter fun a => a.action == name).map
    fun a => qualified a.aspect a.action)).toList

mutual

/-- The actions that are called in an expression. -/
def collectActionCalls : Expr → List String
  | .atom _ => []
  | .list [.atom "=", _, rhs] => collectActionCalls rhs
  | .list [] => []
  | .list (.atom head :: items) => ir.actionKeys head ++ collectActionCallsAll items
  | .list (_ :: items) => collectActionCallsAll items

def collectActionCallsAll : List Expr → List String
  | [] => []
  | e :: es => collectActionCalls e ++ collectActionCallsAll es

end

/-- The calls of each action. -/
def actionCallGraph : ExtTreeMap String (ExtTreeSet String) :=
  ir.actions.values.foldl (fun graph a =>
    graph.insert (qualified a.aspect a.action)
      (.ofList ((a.body.map ir.collectActionCalls).getD []))) ∅

/-- The calls of an action, by its key. -/
def callees (graph : ExtTreeMap String (ExtTreeSet String)) (key : String) :
    List String :=
  match graph[key]? with
  | some calls => calls.toList
  | none => []

def verifyActionCallGraph : Verify Unit :=
  let graph := ir.actionCallGraph
  checkAll (fun key =>
    match detectCycle (callees graph) (graph.size + 1) [] [] key with
    | .ok _ => .ok ()
    | .error action => .error (.reentrantActionCycle action)) graph.keys

/-! ## Effects -/

end AspectModuleIr

/-- The contract of a call or a read in the text of an action. -/
inductive ContractCallSiteTarget where
  | exact (target : String)
  | dynamic (target : String)
deriving DecidableEq, Repr

def ContractCallSiteTarget.source : ContractCallSiteTarget → String
  | exact target => target
  | dynamic target => target

/-- A call of a method, or a read of a state, in the text of an action. The source has one
    record for each, with the same order. -/
structure ContractSite where
  target : ContractCallSiteTarget
  name : String
deriving DecidableEq, Repr

namespace ContractSite

def texts (s : ContractSite) : List String := [s.target.source, s.name]

instance : Ord ContractSite := ⟨rankCompare (fun s => s.target.ctorIdx) texts⟩

instance : TransOrd ContractSite :=
  inferInstanceAs (TransCmp (rankCompare (fun s : ContractSite => s.target.ctorIdx) texts))

instance : LawfulEqOrd ContractSite :=
  lawfulEqCmp_rankCompare _ _ fun ⟨t, m⟩ ⟨t', m'⟩ hi ht => by
    cases t <;> cases t' <;>
      first
      | (simp [ContractCallSiteTarget.ctorIdx] at hi; done)
      | simpa [texts, ContractCallSiteTarget.source] using ht

end ContractSite

/-- A pattern of a policy covers a place in the text. -/
def ContractPattern.covers (p : ContractPattern) (site : ContractSite) : Bool :=
  p.name == site.name &&
    match p.target, site.target with
    | .any, _ => true
    | .exact allowed, .exact target => allowed == target
    | .exact _, .dynamic _ => false

/-- Calls and reads that a list of a policy allows; the source has a function for each. -/
def siteAllowed (site : ContractSite) (allowlist : ExtTreeSet ContractPattern) : Bool :=
  allowlist.toList.any fun p => p.covers site

/-- What was found in the text of actions. -/
structure InferredActionEffects where
  effects : ExtTreeSet EffectKind := ∅
  writes : ExtTreeSet String := ∅
  registryAccesses : ExtTreeSet String := ∅
  contractCalls : ExtTreeSet ContractSite := ∅
  contractStateReads : ExtTreeSet ContractSite := ∅

namespace InferredActionEffects

variable (i : InferredActionEffects)

def effect (kind : EffectKind) : InferredActionEffects :=
  { i with effects := i.effects.insert kind }

def write : Option Expr → InferredActionEffects
  | some (.atom state) => { i with writes := i.writes.insert state }
  | _ => i

def registry : Option Expr → InferredActionEffects
  | some (.atom name) => { i with registryAccesses := i.registryAccesses.insert name }
  | _ => i

def contractCall : Option ContractSite → InferredActionEffects
  | some site => { i with contractCalls := i.contractCalls.insert site }
  | none => i

def contractStateRead : Option ContractSite → InferredActionEffects
  | some site => { i with contractStateReads := i.contractStateReads.insert site }
  | none => i

end InferredActionEffects

/-- The actions that were looked at, and what was found. -/
structure Inference where
  visited : ExtTreeSet String := ∅
  inferred : InferredActionEffects := {}

def inferredContractSiteTarget : Expr → ContractCallSiteTarget
  | .atom name =>
    if (variableName name).isSome then .dynamic name
    else if name = "current-contract" then .dynamic name
    else .exact name
  | .list items => .dynamic (aspectExprSource (.list items))

/-- A call or a read, from the items of a list expression. -/
def inferredContractSite (items : List Expr) : Option ContractSite :=
  match items[1]?, items[2]? with
  | some target, some (Expr.atom name) => some ⟨inferredContractSiteTarget target, name⟩
  | _, _ => none

namespace AspectModuleIr

variable (ir : AspectModuleIr)

/-- A list expression that starts with the name of an action. -/
def namesAction : Expr → Bool
  | .list (.atom name :: _) => ir.actions.values.any fun a => a.action == name
  | _ => false

/-- What the head of a list expression says. -/
def inferHead (call : String → Inference → Inference) (head : String) (items : List Expr)
    (s : Inference) : Inference :=
  let i := s.inferred
  match head with
  | "state-get" => { s with inferred := i.effect .readState }
  | "contract-state-get" =>
    { s with inferred := (i.effect .readState).contractStateRead (inferredContractSite items) }
  | "state-set!" => { s with inferred := (i.effect .writeState).write items[1]? }
  | "registry-get" => { s with inferred := (i.effect .readRegistry).registry items[1]? }
  | "registry-set!" => { s with inferred := (i.effect .writeRegistry).registry items[1]? }
  | "registry-consume!" =>
    { s with inferred := (i.effect .consumeRegistryGrant).registry items[1]? }
  | "emit!" => { s with inferred := i.effect .emitEvent }
  | "call-contract!" =>
    { s with inferred := (i.effect .callContract).contractCall (inferredContractSite items) }
  | "deploy-contract!" => { s with inferred := i.effect .deployContract }
  | "schedule-upgrade!" => { s with inferred := i.effect .scheduleUpgrade }
  | "execute-upgrade!" => { s with inferred := i.effect .executeUpgrade }
  | "cross-shard-outbox-append!" => { s with inferred := i.effect .crossShardOutboxAppend }
  | "permit-verify!" => { s with inferred := i.effect .usePermitCertificate }
  | "bridge-verify!" => { s with inferred := i.effect .useBridgeCertificate }
  | "abort" => { s with inferred := i.effect .abort }
  | name => (ir.actionKeys name).foldl (fun s key => call key s) s

section Expressions

variable (call : String → Inference → Inference)

mutual

def inferExpr : Expr → Inference → Inference
  | .atom _, s => s
  | .list [.atom "=", signature, rhs], s =>
    if ir.namesAction signature = true then inferExpr rhs s
    else
      let s := ir.inferHead call "=" [.atom "=", signature, rhs] s
      inferExpr rhs (inferExpr signature s)
  | .list (.atom head :: items), s =>
    inferExprs items (ir.inferHead call head (.atom head :: items) s)
  | .list items, s => inferExprs items s

def inferExprs : List Expr → Inference → Inference
  | [], s => s
  | e :: es, s => inferExprs es (inferExpr e s)

end

end Expressions

/-- What an action may do. An action is looked at once, so that the search is at most as deep
    as there are actions. -/
def inferAction : ℕ → String → Inference → Inference
  | 0, _, s => s
  | depth + 1, key, s =>
    if s.visited.contains key = true then s
    else
      let s := { s with visited := s.visited.insert key }
      match (ir.actions[key]?).bind (·.body) with
      | none => s
      | some body => ir.inferExpr (inferAction depth) body s

def inferTop : String → Inference → Inference := ir.inferAction (ir.actions.size + 1)

/-- The first part of a text before two colons, and the rest. -/
def splitOnce (text : String) : Option (String × String) :=
  match text.splitOn "::" with
  | aspect :: name :: rest => some (aspect, "::".intercalate (name :: rest))
  | _ => none

def invariantForPolicyRef (closures : Closures) (bundle invariantRef : String) :
    Option InvariantDef := do
  let closure ← closures[bundle]?
  let owned (key : String) := (ir.invariants[key]?).filter fun i => closure.contains i.aspect
  match owned invariantRef with
  | some i => some i
  | none =>
    match (splitOnce invariantRef).bind fun (aspect, name) => owned (qualified aspect name) with
    | some i => some i
    | none =>
      match ir.invariants.values.filter fun i =>
          i.invariant == invariantRef && closure.contains i.aspect with
      | [i] => some i
      | _ => none

def stateOwnedByBundle (closures : Closures) (bundle state : String) : Bool :=
  match closures[bundle]? with
  | none => false
  | some closure =>
    ir.storageSchema.values.any fun s => s.state == state && closure.contains s.aspect

def registryOwnedByBundle (closures : Closures) (bundle registry : String) : Bool :=
  match closures[bundle]? with
  | none => false
  | some closure =>
    ir.registrySchema.values.any fun s => s.registry == registry && closure.contains s.aspect

/-- The reads of other contracts in the invariants of a policy. -/
def invariantReads (closures : Closures) (bundle : String) (policy : MethodPolicyIr) :
    List ContractSite :=
  policy.invariants.toList.flatMap fun ref =>
    match ir.invariantForPolicyRef closures bundle ref with
    | none => []
    | some i => (ir.inferExpr ir.inferTop i.expr {}).inferred.contractStateReads.toList

def verifyProjectionEffects (closures : Closures) (p : ProjectionDef) (policy : MethodPolicyIr)
    (inferred : InferredActionEffects) : Verify Unit := do
  let b := p.bundle
  let name := p.projection
  checkAll (fun effect => require (policy.effects.contains effect = true)
    (.undeclaredEffect b name effect)) inferred.effects.toList
  require (inferred.effects.contains .callContract = true → policy.callAllowlist.isEmpty = false)
    (.missingCallAllowlist b name)
  checkAll (fun call => require (siteAllowed call policy.callAllowlist = true)
    (.unauthorizedContractCall b name call.target.source call.name)) inferred.contractCalls.toList
  require (inferred.contractStateReads.isEmpty = false → policy.readAllowlist.isEmpty = false)
    (.missingReadAllowlist b name)
  checkAll (fun read => require (siteAllowed read policy.readAllowlist = true)
    (.unauthorizedContractStateRead b name read.target.source read.name))
    inferred.contractStateReads.toList
  checkAll (fun state => require (ir.stateOwnedByBundle closures b state = true)
    (.stateWriteOutOfScope b name state)) inferred.writes.toList
  checkAll (fun registry => require (ir.registryOwnedByBundle closures b registry = true)
    (.registryAccessOutOfScope b name registry)) inferred.registryAccesses.toList

def verifyEffectsAndWriteScopes (closures : Closures) : Verify Unit :=
  checkAll (fun p =>
    match ir.policies[qualified p.bundle p.projection]? with
    | none => .error (.missingProjectionPolicy p.bundle p.projection)
    | some policy =>
      match (projectionTargetAction p.expr).bind
          (ir.actionForProjectionTarget closures p.bundle) with
      | none => .error (.projectionTargetUnsupported p.bundle p.projection)
      | some action =>
        let inferred := (ir.inferTop (qualified action.aspect action.action) {}).inferred
        ir.verifyProjectionEffects closures p policy
          { inferred with
            contractStateReads :=
              (ir.invariantReads closures p.bundle policy).foldl (·.insert ·)
                inferred.contractStateReads }) ir.projections.values

/-! ## Modules -/

def artifactRoots (h : Hashing) : AspectArtifactRoots where
  irRoot := h.rootOf ir.json
  abiRoot := h.rootOf (Json.dict MethodAbiDef.json ir.abi)
  policyRoot := h.rootOf (Json.dict MethodPolicyIr.json ir.policies)
  storageSchemaRoot := h.rootOf (Json.dict StateSchema.json ir.storageSchema)
  registrySchemaRoot := h.rootOf (Json.dict RegistrySchema.json ir.registrySchema)
  invariantRoot := h.rootOf (Json.dict InvariantDef.json ir.invariants)

/-- All checks of a module, with the aspects of each bundle. -/
def verifyModule : Verify Closures := do
  ir.verifyReferences
  ir.verifyTypeExpressions
  ir.verifyActionDeclarations
  ir.verifyStateOwnership
  ir.verifyRegistryOwnership
  ir.verifyActionCallGraph
  let closures ← ir.bundleAspectClosures
  ir.verifyRequiredFacets closures
  ir.verifyConflicts closures
  ir.verifyProjections closures
  ir.verifyProjectionAbiAndPolicy
  ir.verifyEffectsAndWriteScopes closures
  .ok closures

/-- What the checks of an accepted module have shown. -/
theorem of_verifyModule {ir : AspectModuleIr} {closures : Closures}
    (h : ir.verifyModule = .ok closures) :
    ir.verifyReferences = .ok () ∧ ir.verifyActionCallGraph = .ok () ∧
      ir.bundleAspectClosures = .ok closures ∧ ir.verifyEffectsAndWriteScopes closures = .ok () := by
  simp only [verifyModule, bind_eq_ok] at h
  obtain ⟨hreferences, -, -, -, -, hgraph, h⟩ := h
  obtain ⟨closures', hclosures, h⟩ := exists_of_bind_eq_ok h
  simp only [bind_eq_ok] at h
  obtain ⟨-, -, -, -, heffects, h⟩ := h
  cases h
  exact ⟨hreferences, hgraph, hclosures, heffects⟩

/-- The roots of a module that is accepted. -/
def verifiedRoots (h : Hashing) : Option AspectArtifactRoots :=
  match ir.verifyModule with
  | .ok _ => some (ir.artifactRoots h)
  | .error _ => none

end AspectModuleIr

end Detta
