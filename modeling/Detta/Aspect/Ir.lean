import Detta.Base.Table

/-!
# Aspect modules

The intermediate representation of an aspect module: its expressions, and the
tables of aspects, bundles, projections, actions, state schemas, invariants and
method policies that the evaluator and the kernel read. Names that belong to an
aspect or a bundle are qualified by it (`qualified`).
-/

namespace Detta

open Std (ExtTreeMap ExtTreeSet TransOrd LawfulEqOrd TransCmp)

/-- An expression of the aspect language: an atom, or a list of expressions. -/
inductive Expr where
  | atom (name : String)
  | list (items : List Expr)
deriving Repr

instance : Coe String Expr := ⟨Expr.atom⟩

/-- The name of a declaration inside of an aspect or a bundle. -/
def qualified (scope name : String) : String := scope ++ "::" ++ name

/-! ## Policies of projections -/

/-- Who may call a projection. -/
inductive AuthorityKind where
  | txSender | msgSender | roleGrant | allowance | permitCertificate | oracleUpdaterGrant
  | bridgeCertificate | governanceAdminGrant
  | custom (name : String)
deriving DecidableEq, Repr

/-- What a projection declares to do. -/
inductive EffectKind where
  | readState | writeState | readRegistry | writeRegistry | consumeRegistryGrant | emitEvent
  | callContract | deployContract | scheduleUpgrade | executeUpgrade | crossShardOutboxAppend
  | usePermitCertificate | useBridgeCertificate | abort
deriving DecidableEq, Repr

instance : Ord EffectKind := ⟨rankCompare EffectKind.ctorIdx fun _ => []⟩

instance : TransOrd EffectKind :=
  inferInstanceAs (TransCmp (rankCompare EffectKind.ctorIdx fun _ => []))

instance : LawfulEqOrd EffectKind :=
  lawfulEqCmp_rankCompare _ _ fun a b hi _ => by
    cases a <;> cases b <;> first | rfl | simp [EffectKind.ctorIdx] at hi

/-- Which contracts a projection may call or read. -/
inductive ContractCallTarget where
  | any
  | exact (contract : String)
deriving DecidableEq, Repr

/-- A call, or a read, that a policy allows: of a method, or of a state. The
    source has one record for each, with the same order. -/
structure ContractPattern where
  target : ContractCallTarget
  name : String
deriving DecidableEq, Repr

namespace ContractPattern

/-- The fields of a pattern: those of the target, and then the name. -/
def texts (p : ContractPattern) : List String :=
  match p.target with
  | .any => [p.name]
  | .exact contract => [contract, p.name]

instance : Ord ContractPattern := ⟨rankCompare (fun p => p.target.ctorIdx) texts⟩

instance : TransOrd ContractPattern :=
  inferInstanceAs (TransCmp (rankCompare (fun p : ContractPattern => p.target.ctorIdx) texts))

instance : LawfulEqOrd ContractPattern :=
  lawfulEqCmp_rankCompare _ _ fun ⟨t, m⟩ ⟨t', m'⟩ hi ht => by
    cases t <;> cases t' <;>
      first
      | (simp [ContractCallTarget.ctorIdx] at hi; done)
      | simpa [texts] using ht

end ContractPattern

/-- The policy of a projection. -/
structure MethodPolicyIr where
  bundle : String
  projection : String
  authority : AuthorityKind
  effects : ExtTreeSet EffectKind
  invariants : ExtTreeSet String
  callAllowlist : ExtTreeSet ContractPattern
  readAllowlist : ExtTreeSet ContractPattern

/-! ## The module -/

/-- An aspect: a group of states and actions. -/
structure AspectDef where
  aspect : String
  isAbstract : Bool
  extends' : ExtTreeSet String
  conflicts : ExtTreeSet String
  provides : ExtTreeSet String
  requires : ExtTreeSet String

/-- A bundle: a set of aspects that a contract is deployed from. -/
structure BundleDef where
  bundle : String
  includes : ExtTreeSet String
  extends' : ExtTreeSet String
  constraints : ExtTreeMap String Expr

/-- A projection: a method that a bundle exports. -/
structure ProjectionDef where
  bundle : String
  projection : String
  expr : Expr

/-- An action of an aspect; only an action with a body can be run. -/
structure ActionDef where
  aspect : String
  action : String
  declared : Bool
  body : Option Expr

/-- A state owned by an aspect. -/
structure StateSchema where
  aspect : String
  state : String
  typeExpr : Expr

/-- A registry owned by an aspect. -/
structure RegistrySchema where
  aspect : String
  registry : String
  typeExpr : Expr

/-- An invariant of an aspect. -/
structure InvariantDef where
  aspect : String
  invariant : String
  expr : Expr

/-- The arguments and the result of a projection. -/
structure MethodAbiDef where
  bundle : String
  projection : String
  args : Expr
  returnType : Expr

/-- A module: the tables of its declarations. -/
structure AspectModuleIr where
  taxonomyVersion : String
  sourceRoot : String
  types : ExtTreeMap String Expr
  aspects : ExtTreeMap String AspectDef
  bundles : ExtTreeMap String BundleDef
  projections : ExtTreeMap String ProjectionDef
  actions : ExtTreeMap String ActionDef
  storageSchema : ExtTreeMap String StateSchema
  registrySchema : ExtTreeMap String RegistrySchema
  invariants : ExtTreeMap String InvariantDef
  abi : ExtTreeMap String MethodAbiDef
  policies : ExtTreeMap String MethodPolicyIr

/-- The roots of the parts of a verified module. -/
structure AspectArtifactRoots where
  irRoot : String
  abiRoot : String
  policyRoot : String
  storageSchemaRoot : String
  registrySchemaRoot : String
  invariantRoot : String
deriving DecidableEq, Repr

/-- The declarations of a module, of each kind that it has. -/
structure Declarations where
  types : List (String × Expr)
  aspects : List AspectDef
  bundles : List BundleDef
  projections : List ProjectionDef
  actions : List ActionDef
  storageSchema : List StateSchema
  invariants : List InvariantDef
  abi : List MethodAbiDef
  policies : List MethodPolicyIr

/-- The module of declarations of which no two of a kind have the same name. -/
def Declarations.lower (d : Declarations) (sourceRoot : String) : AspectModuleIr where
  taxonomyVersion := "NormalizedBalanceFirst.v1"
  sourceRoot := sourceRoot
  types := .ofList d.types
  aspects := .ofList (d.aspects.map fun a => (a.aspect, a))
  bundles := .ofList (d.bundles.map fun b => (b.bundle, b))
  projections := .ofList (d.projections.map fun p => (qualified p.bundle p.projection, p))
  actions := .ofList (d.actions.map fun a => (qualified a.aspect a.action, a))
  storageSchema := .ofList (d.storageSchema.map fun s => (qualified s.aspect s.state, s))
  registrySchema := ∅
  invariants := .ofList (d.invariants.map fun i => (qualified i.aspect i.invariant, i))
  abi := .ofList (d.abi.map fun a => (qualified a.bundle a.projection, a))
  policies := .ofList (d.policies.map fun p => (qualified p.bundle p.projection, p))

end Detta
