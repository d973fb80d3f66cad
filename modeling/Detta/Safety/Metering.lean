import Detta.Aspect.Models
import Detta.Safety.History
import Detta.Safety.Node
import Detta.Safety.Sender

/-!
# What evaluations cost

There are three limits on the work of a block, and they are independent of each other. A
transaction pays *resource units*, a number that is known before it is run; a block may use up
only so many of them; and the evaluator takes at most `budget` *steps*, where every evaluation
starts anew: each projection, of each contract that is called, and each invariant.

* One evaluation takes at most `budget` steps (`Eval.steps_evalProjection_le`,
  `Eval.steps_evalTop_le`), and all evaluations of a transaction have the same budget
  (`Stack.budget`).
* The steps of a transaction are not bounded by its budget, nor by its resource units.
-/

namespace Detta

open Kernel

/-! ## One evaluation -/

namespace Eval

/-- The steps that an evaluation takes, whether it succeeds or fails. -/
def steps (m : Eval AspectValue) : ℕ :=
  match m ⟨0, [], ∅⟩ with
  | .ok _ s | .error _ s => s.stepsUsed

/-- A step is only taken if there is one left. -/
theorem stable_stepsUsed (input : EvalInput) :
    EvalState.Stable input fun s => s.stepsUsed ≤ input.maxSteps.val where
  push _ _ h := h
  charge _ _ hlt := hlt
  bindings _ _ h := h

theorem steps_le_of_keeps {m : Eval AspectValue} {n : ℕ}
    (h : Keeps (fun s => s.stepsUsed ≤ n) (fun _ s => s.stepsUsed ≤ n) m) : m.steps ≤ n := by
  have hrun := h ⟨0, [], ∅⟩ (Nat.zero_le n)
  unfold wp at hrun
  unfold steps
  split <;> simpa only [*] using hrun

theorem steps_evalTop_le (input : EvalInput) (expr : Expr) :
    (evalTop input expr).steps ≤ input.maxSteps.val :=
  steps_le_of_keeps ((stable_stepsUsed input).evalTop expr)

theorem steps_evalProjection_le (input : EvalInput) (bundle projection : String)
    (args : List AspectValue) :
    (evalProjection input bundle projection args).steps ≤ input.maxSteps.val :=
  steps_le_of_keeps ((stable_stepsUsed input).evalProjection bundle projection args)

end Eval

/-! ## The evaluations of a frame -/

/-- A method of an aspect contract, as the kernel finds it. -/
structure AspectMethod where
  ir : AspectModuleIr
  bundle : String
  projection : String
  policy : MethodPolicyIr

namespace Frame

/-- The method that a frame of an aspect contract runs. -/
def aspectMethod? (f : Frame) : Option AspectMethod := do
  let record ← f.start.contracts[f.tx.target]?
  match record.kind, f.tx.method with
  | .aspectModule moduleHash bundle _ _ _, .other projection => do
    let module ← f.start.aspectModules[moduleHash]?
    let ir ← module.ir
    let policy ← ir.policies[qualified bundle projection]?
    pure ⟨ir, bundle, projection, policy⟩
  | _, _ => none

theorem of_aspectMethod?_eq_some {f : Frame} {c : AspectMethod} (h : f.aspectMethod? = some c) :
    ∃ record moduleHash abiRoot policyRoot invariantRoot module,
      f.start.contracts[f.tx.target]? = some record ∧
      record.kind = .aspectModule moduleHash c.bundle abiRoot policyRoot invariantRoot ∧
      f.tx.method = .other c.projection ∧ f.start.aspectModules[moduleHash]? = some module ∧
      module.ir = some c.ir ∧ c.ir.policies[qualified c.bundle c.projection]? = some c.policy := by
  simp only [aspectMethod?, Option.bind_eq_bind, Option.bind_eq_some_iff] at h
  obtain ⟨record, hr, h⟩ := h
  split at h
  next moduleHash bundle _ _ _ projection hk hm =>
    simp only [Option.bind_eq_some_iff, Option.pure_def, Option.some.injEq] at h
    obtain ⟨module, hmod, ir, hir, policy, hp, rfl⟩ := h
    exact ⟨record, _, _, _, _, module, hr, hk, hm, hmod, hir, hp⟩
  next => cases h

variable (f : Frame) (c : AspectMethod)

/-- What an evaluation of the frame reads, in the given state. -/
def evalInput (s : DeTTaState) : Except ExecutionError EvalInput :=
  aspectEvalInput s c.ir c.bundle f.tx.budget (aspectContext f.start f.tx f.msgSender)

/-- The evaluation of the projection, in the given state. -/
def projectionRuns (s : DeTTaState) : List (Eval AspectValue) :=
  match f.evalInput c s with
  | .ok input =>
    [evalProjection input c.bundle c.projection (f.tx.args.map aspectValueFromArgument)]
  | .error _ => []

/-- The evaluations of the invariants of the method, in the given state. -/
def invariantRuns (s : DeTTaState) : List (Eval AspectValue) :=
  match f.evalInput c s with
  | .ok input => c.policy.invariants.toList.filterMap fun ref =>
    match resolveAspectInvariant c.ir c.bundle ref with
    | .ok invariant => some (evalTop input invariant.expr)
    | .error _ => none
  | .error _ => []

end Frame

namespace FrameRecord

variable (r : FrameRecord)

/-- The state in which the frame has ended. -/
def last : DeTTaState := (r.own.getLast?.map (·.2)).getD r.frame.start

/-- The evaluations of a frame: of its projection at the start, and of the invariants at the
    end. A frame that fails may get to some of them only. -/
def evaluations : List (Eval AspectValue) :=
  match r.frame.aspectMethod? with
  | some c => r.frame.projectionRuns c r.frame.start ++ r.frame.invariantRuns c r.last
  | none => []

/-- A frame that returns has got to all of them: its projection has been evaluated in the state
    at the start, and its invariants in the state at the end. -/
theorem Returned.evaluated {env : Env} {r : FrameRecord} (h : r.Returned env) {c : AspectMethod}
    (hc : r.frame.aspectMethod? = some c) :
    (∃ report, evaluateMethod r.frame.start r.frame.tx r.frame.msgSender c.ir c.bundle
        c.projection = .ok report) ∧
      checkAspectMethodInvariants r.last c.ir c.bundle c.policy r.frame.tx.budget
        (aspectContext r.frame.start r.frame.tx r.frame.msgSender) = .ok () := by
  obtain ⟨m', a, rest, hreturns, -, -, hown⟩ := h
  obtain ⟨record, moduleHash, _, _, _, module, hr, hk, hm, hmod, hir, hp⟩ :=
    Frame.of_aspectMethod?_eq_some hc
  have hlast : r.last = m'.state := by simp [last, hown]
  rw [hlast]
  refine hreturns.ends (P := fun m' => _ ∧ checkAspectMethodInvariants m'.state c.ir c.bundle
    c.policy r.frame.tx.budget _ = .ok ()) fun call m record' _ hs _ hr' _ => ?_
  cases hr.symm.trans hr'
  simp only [hk, kindMethod, executeAspectModuleMethod, hm, okOr, hs, hmod, hir, hp, pure_bind,
    wp_bind, wp_read, wp_ofExcept]
  refine ⟨fun report he => ⟨fun _ _ => ?_, fun _ _ => trivial⟩, fun _ _ => trivial⟩
  refine (wp_self _ m).imp fun _ m₁ _ => ?_
  refine .read (wp_bind.2 (wp_ofExcept.2 ⟨fun _ hi => ?_, fun _ _ => trivial⟩))
  split
  · exact ⟨⟨report, he⟩, hi⟩
  · trivial

/-- Every evaluation of a frame has the whole budget of the frame. -/
theorem steps_le_of_mem_evaluations {m : Eval AspectValue} (h : m ∈ r.evaluations) :
    m.steps ≤ r.frame.tx.budget.val := by
  have hbudget {c : AspectMethod} {s : DeTTaState} {input : EvalInput}
      (hi : r.frame.evalInput c s = .ok input) : input.maxSteps = r.frame.tx.budget :=
    (aspectEvalInput_eq_ok hi).2.1
  unfold evaluations at h
  split at h
  next c hc =>
    rcases List.mem_append.1 h with h | h
    · unfold Frame.projectionRuns at h
      split at h
      next input hi =>
        rw [List.mem_singleton.1 h, ← hbudget hi]
        exact Eval.steps_evalProjection_le input c.bundle c.projection _
      next => cases h
    · unfold Frame.invariantRuns at h
      split at h
      next input hi =>
        obtain ⟨ref, -, href⟩ := List.mem_filterMap.1 h
        split at href
        next invariant _ =>
          cases href
          rw [← hbudget hi]
          exact Eval.steps_evalTop_le input invariant.expr
        next => cases href
      next => cases h
  next => cases h

end FrameRecord

/-! ## The evaluations of a transaction -/

/-- Every call has the budget of the transaction. -/
theorem Stack.budget {outer : Transaction} {frames : List Frame} (h : Stack outer frames) :
    ∀ f ∈ frames, f.tx.budget = outer.budget := by
  induction h with
  | nil => simp
  | @cons frames s tx msgSender _ hcall ih =>
    refine List.forall_mem_cons.2 ⟨?_, ih⟩
    cases frames with
    | nil => rw [hcall.1]
    | cons f frames =>
      have hf : f.tx.budget = outer.budget := ih f List.mem_cons_self
      cases hcall.2 with
      | settle | route | setUp | host => exact hf

/-- The steps of the evaluations of a transaction, frame by frame. -/
def evaluatorSteps (env : Env) (s : DeTTaState) (tx : Transaction) : List ℕ :=
  (callFrames env s tx).flatMap fun r => r.evaluations.map Eval.steps

theorem le_budget_of_mem_evaluatorSteps {env : Env} {s : DeTTaState} {tx : Transaction} {n : ℕ}
    (h : n ∈ evaluatorSteps env s tx) : n ≤ tx.budget.val := by
  obtain ⟨r, hr, hn⟩ := List.mem_flatMap.1 h
  obtain ⟨m, hm, rfl⟩ := List.mem_map.1 hn
  have hbudget := (stack_of_mem_callFrames r hr).budget r.frame List.mem_cons_self
  exact hbudget ▸ r.steps_le_of_mem_evaluations hm

theorem sum_evaluatorSteps_le (env : Env) (s : DeTTaState) (tx : Transaction) :
    (evaluatorSteps env s tx).sum ≤ (evaluatorSteps env s tx).length * tx.budget.val := by
  simpa using List.sum_le_card_nsmul _ _ fun n hn => le_budget_of_mem_evaluatorSteps (n := n) hn

/-- The resource units of a receipt are known before the transaction is run. -/
theorem resourceUnitsUsed_applyTransaction (env : Env) (s : DeTTaState) (tx : Transaction) :
    (applyTransaction env s tx).2.resourceUnitsUsed =
      if (rejection s tx).isNone then transactionResourceUnits tx else 0 := by
  unfold applyTransaction
  cases rejection s tx with
  | some error => rfl
  | none =>
    dsimp only
    split
    · rfl
    · split <;> rfl

/-! ## Blocks -/

theorem map_snd_appliedTransactions (env : Env) (s : DeTTaState) (txs : List Transaction) :
    (appliedTransactions env s txs).map (·.2) = txs := by
  induction txs generalizing s with
  | nil => rfl
  | cons tx txs ih => rw [appliedTransactions, List.map_cons, ih]

theorem blockResourceUnits_le_of_accepted {env : Env} {s : DeTTaState} {b : Block}
    (h : (applyBlock env s b).2 = none) :
    blockResourceUnits b.transactions ≤ defaultBlockResourceLimit := by
  refine Nat.not_lt.1 fun hlt => ?_
  have hlt' : defaultBlockResourceLimit < blockResourceUnits b.transactions := hlt
  unfold applyBlock blockError at h
  simp only [hlt', if_true] at h
  split at h
  next => cases h
  next he => split at he <;> cases he

/-- The receipts of a block that is accepted keep to the limit of a block. -/
theorem sum_resourceUnitsUsed_le (env : Env) (s : DeTTaState) (b : Block) :
    (((Op.block b).transactions env s).map fun p =>
      (applyTransaction env p.1 p.2).2.resourceUnitsUsed.val).sum ≤
        defaultBlockResourceLimit.val := by
  simp only [Op.transactions]
  split
  next => exact Nat.zero_le _
  next hnone =>
    have hunits := Word.le_def.1 (blockResourceUnits_le_of_accepted hnone)
    have htotal : totalUnits b.transactions ≤ defaultBlockResourceLimit.val := by
      rw [val_blockResourceUnits] at hunits
      have hlimit : defaultBlockResourceLimit.val < 2 ^ 64 - 1 := by decide
      omega
    refine le_trans (List.sum_le_sum (g := fun p => (transactionResourceUnits p.2).val)
      fun p _ => ?_) (le_of_eq_of_le ?_ htotal)
    · rw [resourceUnitsUsed_applyTransaction]
      split
      · exact le_refl _
      · exact Nat.zero_le _
    · have hmap := congrArg (List.map fun tx => (transactionResourceUnits tx).val)
        (map_snd_appliedTransactions env { s with height := b.header.height } b.transactions)
      rw [List.map_map] at hmap
      exact congrArg List.sum hmap

/-- Every evaluation of a transaction takes at most `budget` steps, so that all of them together
    take at most `budget` times their number, while the resource units of the receipt do not
    depend on them. In a block that is accepted, the steps add up, and the resource units keep to
    the limit of a block. -/
theorem evaluator_steps_bounded (env : Env) (s : DeTTaState) :
    (∀ tx, (∀ n ∈ evaluatorSteps env s tx, n ≤ tx.budget.val) ∧
      (evaluatorSteps env s tx).sum ≤ (evaluatorSteps env s tx).length * tx.budget.val ∧
      (applyTransaction env s tx).2.resourceUnitsUsed =
        if (rejection s tx).isNone then transactionResourceUnits tx else 0) ∧
    ∀ b, (((Op.block b).transactions env s).map fun p => (evaluatorSteps env p.1 p.2).sum).sum ≤
        (((Op.block b).transactions env s).map fun p =>
          (evaluatorSteps env p.1 p.2).length * p.2.budget.val).sum ∧
      (((Op.block b).transactions env s).map fun p =>
        (applyTransaction env p.1 p.2).2.resourceUnitsUsed.val).sum ≤
          defaultBlockResourceLimit.val :=
  ⟨fun tx => ⟨fun _ => le_budget_of_mem_evaluatorSteps, sum_evaluatorSteps_le env s tx,
      resourceUnitsUsed_applyTransaction env s tx⟩,
    fun b => ⟨List.sum_le_sum fun p _ => sum_evaluatorSteps_le env p.1 p.2,
      sum_resourceUnitsUsed_le env s b⟩⟩

/-! ## More steps than the budget -/

namespace Toil

/-- The negation of a negation, and so on. -/
def negations : ℕ → Expr
  | 0 => "True"
  | n + 1 => .list ["not", negations n]

/-- A module with a method and an invariant that are in no hurry. -/
def declarations : Declarations where
  types := []
  aspects := [⟨"W", false, ∅, ∅, ∅, ∅⟩]
  bundles := [⟨"W", .ofList ["W"], ∅, ∅⟩]
  projections := [⟨"W", "work", .list ["=", .list ["W.work"], .list ["toil"]]⟩]
  actions := [⟨"W", "toil", true, some (.list ["=", .list ["toil"], negations 20])⟩]
  storageSchema := []
  invariants := [⟨"W", "W-1", negations 20⟩]
  abi := [⟨"W", "work", .list ["args"], "Bool"⟩]
  policies := [⟨"W", "work", .txSender, .ofList [EffectKind.readState], .ofList ["W-1"], ∅, ∅⟩]

def module : AspectModuleRecord :=
  { Proxy.module with moduleId := "W", ir := some (declarations.lower "00") }

def env : Env :=
  { Proxy.env with parseModule := fun source => some (source, declarations.lower "00") }

/-- A contract `w` of the module. -/
def state : DeTTaState :=
  runOps env (.new "c") [.deploy (.aspectModule module), .deploy (.aspectContract "w" "00" "W")]

theorem reachable_state : Reachable env state := (Reachable.new "c").runOps _

/-- A call of the method, with a budget for one evaluation. -/
def work : Transaction := { Proxy.call "alice" "w" (.other "work") [] with budget := 24 }

end Toil

set_option maxRecDepth 4000 in
/-- A transaction is committed that has taken more steps than its budget, and more than its
    resource units: one evaluation is that of the method, and another one that of the
    invariant. -/
theorem evaluator_steps_exceed_budget :
    Reachable Toil.env Toil.state ∧ Commits Toil.env Toil.state Toil.work ∧
      evaluatorSteps Toil.env Toil.state Toil.work = [21, 20] ∧
      Toil.work.budget.val < [21, 20].sum ∧
      (applyTransaction Toil.env Toil.state Toil.work).2.resourceUnitsUsed.val < [21, 20].sum :=
  ⟨Toil.reachable_state, by decide⟩

end Detta
