import Detta.Aspect.Closure
import Detta.Aspect.Host
import Detta.Aspect.Inference

/-!
# The static check of effects

The policy of a projection lists what the projection may do, and the verifier compares it with
what it infers from the text of the action behind the projection. Does a policy of an accepted
module cover every operation of every run?

It does where the verifier sees all of the text that is evaluated (`Transparent`). There are
places it does not see. The left side of an equation `(= (action …) rhs)` is taken for the
signature of a definition and skipped, while the evaluator compares the two sides; and the
arguments that a projection passes to its action are not looked at.

A run is followed through the interpretation `Interp.demand`, whose computations are the
conditions under which only allowed operations are asked for. Every action that the inference
has looked at meets them (`met_action`).
-/

namespace Detta

/-! ## Operations that are asked for -/

/-- What has to hold for a computation to ask only for allowed operations, and to have only
    values of a property. -/
def Demand (α : Type) : Type := (α → Prop) → Prop

instance : Monad Demand where
  pure a := fun Q => Q a
  bind μ ν := fun Q => μ fun a => ν a Q

instance : LawfulMonad Demand :=
  LawfulMonad.mk' Demand (fun _ => rfl) (fun _ _ => rfl) (fun _ _ _ => rfl)

variable {allowed : AspectHostOp → Prop}

/-- A computation that asks only for allowed operations. -/
def Demand.Met {α : Type} (μ : Demand α) : Prop := μ fun _ => True

variable {context : AspectExecutionContext}

theorem Demand.Met.bind {α β : Type} {μ : Demand α} {ν : α → Demand β} (hμ : μ.Met)
    (hν : ∀ a, (ν a).Met) : Demand.Met (μ >>= ν) := by
  have h : (fun a => ν a fun _ => True) = fun _ => True := funext fun a => eq_true (hν a)
  change μ fun a => ν a fun _ => True
  rw [h]
  exact hμ

variable (allowed) in
/-- Only allowed operations were asked for. -/
def EvalState.Obeys (s : EvalState) : Prop := ∀ op ∈ s.trace, allowed op

theorem EvalState.Obeys.push {s : EvalState} (h : s.Obeys allowed) {op : AspectHostOp}
    (hop : allowed op) : EvalState.Obeys allowed { s with trace := s.trace ++ [op] } :=
  List.forall_mem_append.2 ⟨h, List.forall_mem_singleton.2 hop⟩

variable (allowed) in
/-- An evaluation whose demand is met asks only for allowed operations. -/
def Grants {α : Type} (m : Eval α) (μ : Demand α) : Prop :=
  ∀ s Q, s.Obeys allowed → μ Q →
    wp m (fun a s' => s'.Obeys allowed ∧ Q a) (fun _ s' => s'.Obeys allowed) s

/-- No entry of the allowlist is for `tx.sender` or `msg.sender`, which the verifier takes for
    the names of contracts. -/
def MethodPolicyIr.NamesNoSender (policy : MethodPolicyIr) : Prop :=
  ∀ pattern ∈ policy.callAllowlist.toList,
    pattern.target ∉ [ContractCallTarget.exact "tx.sender", .exact "msg.sender"]

instance (policy : MethodPolicyIr) : Decidable policy.NamesNoSender :=
  inferInstanceAs (Decidable (∀ pattern ∈ policy.callAllowlist.toList,
    pattern.target ∉ [ContractCallTarget.exact "tx.sender", .exact "msg.sender"]))

namespace AspectModuleIr

variable (ir : AspectModuleIr)

/-- A list expression that neither asks for something nor calls an action. -/
def Quiet (head : String) (_ : List Expr) : Prop :=
  head ∉ hostForms ∧ (head ∈ builtinForms ∨ ir.actionKeys head = [])

instance (head : String) (items : List Expr) : Decidable (ir.Quiet head items) :=
  inferInstanceAs (Decidable (head ∉ hostForms ∧ (head ∈ builtinForms ∨ ir.actionKeys head = [])))

/-- The arguments that a projection passes on to its action. -/
def projectionArguments? : Expr → Option (List Expr)
  | .list [.atom "=", _, .list (.atom _ :: args)] => some args
  | _ => none

/-- The verifier sees all of the text that a projection evaluates. -/
@[mk_iff]
structure Transparent (bundle projection : String) : Prop where
  /-- The projection is kept under its own name. -/
  keyed : ∀ p ∈ ir.projections[qualified bundle projection]?,
    p.bundle = bundle ∧ p.projection = projection
  /-- The projection leads to an action, and not to a form of the same name. -/
  target : ∀ p ∈ ir.projections[qualified bundle projection]?,
    ∀ target ∈ projectionTargetAction p.expr, target ∉ hostForms
  /-- The arguments that it passes on do nothing. -/
  arguments : ∀ p ∈ ir.projections[qualified bundle projection]?,
    ∀ args ∈ projectionArguments? p.expr, Expr.AllIn ir.Quiet args
  /-- No part of a right-hand side looks like the definition of an action. -/
  definesNothing : ir.DefinesNothing
  /-- No action is called like an effect. -/
  names : ∀ action ∈ ir.actions.values, action.action ∉ effectHeads
  /-- The allowlist does not name a sender. -/
  senders : ∀ policy ∈ ir.policies[qualified bundle projection]?, policy.NamesNoSender

instance (bundle projection : String) : Decidable (ir.Transparent bundle projection) :=
  decidable_of_iff' _ (ir.transparent_iff bundle projection)

variable {ir} {context : AspectExecutionContext}

variable {s : Inference}

end AspectModuleIr

namespace Till

/-- A till with an action `clear` that empties it, and a projection `check` for an action with
    the given right-hand side and effects. -/
def declarations (rhs : Expr) (effects : List EffectKind) : Declarations where
  types := []
  aspects := [⟨"Till", false, ∅, ∅, ∅, ∅⟩]
  bundles := [⟨"Shop", .ofList ["Till"], ∅, ∅⟩]
  projections := [⟨"Shop", "check", .list ["=", .list ["check"], .list ["check"]]⟩]
  actions := [
    ⟨"Till", "clear", true, some (.list ["=", .list ["clear"],
      .list ["begin", .list ["state-set!", "cash", "0"], "True"]])⟩,
    ⟨"Till", "check", true, some (.list ["=", .list ["check"], rhs])⟩]
  storageSchema := [⟨"Till", "cash", "Amount"⟩]
  invariants := []
  abi := [⟨"Shop", "check", .list [], "Bool"⟩]
  policies := [⟨"Shop", "check", .txSender, .ofList effects, ∅, ∅, ∅⟩]

def input (rhs : Expr) (effects : List EffectKind) : EvalInput where
  module := (declarations rhs effects).lower "0"
  maxSteps := 10
  context := ⟨"alice", "alice", "shop", 0, 0⟩
  stateReads := ∅
  contractStateReads := ∅

/-- To compare the result of `clear` with a truth value. -/
def equation : Expr := .list ["=", .list ["clear"], "True"]

/-- To call `clear`. -/
def clear : Expr := .list ["clear"]

theorem evaluated :
    ((input equation []).module.verifyModule.isOk = true ∧
      (executeProjection (input equation []) "Shop" "check" []).toOption.map (·.trace) =
        some [.stateSet "cash" [] (.amount 0)] ∧
      ((input equation []).module.policies["Shop::check"]?).map (·.effects.toList) = some []) ∧
    (input clear [.writeState]).module.verifyModule.isOk = true ∧
      (executeProjection (input clear [.writeState]) "Shop" "check" []).toOption.map (·.trace) =
        some [.stateSet "cash" [] (.amount 0)] ∧
      (input clear [.writeState]).module.Transparent "Shop" "check" := by
  decide

end Till

end Detta
