import Detta.Aspect.Host
import Detta.Aspect.Models

/-!
# Direct execution

The kernel runs a projection in two passes: the evaluator reads a snapshot of the state and
leaves a trace, and the kernel then carries out the trace. Here is what the same projection
does if it is executed *directly*, once and step by step, on the state of the kernel: every
operation takes effect at once, and every read returns the value of that moment
(`executeDirectly`). It is an interpretation of the language.

The two passes and the direct execution go in lockstep as long as every read is answered alike
(`Locked`, `models_locked`). From then on nothing is known, but the difference does not go away:
a read of the first pass has not been answered by the state that the operations before it lead
to, and a read of the direct execution has not been answered by the snapshot.
-/

namespace Detta

open Kernel

/-! ## Reads -/

/-- What a read returns; other operations have no answer. -/
def EvalInput.answer (input : EvalInput) : AspectHostOp → Option AspectValue
  | .stateGet state key => some ((input.stateReads[state :: key]?).getD (.amount 0))
  | .contractStateGet contract state key =>
    some ((input.contractStateReads[contract :: state :: key]?).getD (.amount 0))
  | _ => none

theorem EvalInput.answer_of_not_isRead (input : EvalInput) {op : AspectHostOp}
    (h : op.isRead = false) : input.answer op = none := by
  cases op <;> first | rfl | cases h

section Direct

variable (env : Env) (call : ContractCall) (tx : Transaction) (msgSender : Principal)
  (host : AspectHostContext)

/-- The snapshot that an evaluation of the method reads, taken in the given state. -/
def captured (s : DeTTaState) : Except ExecutionError EvalInput :=
  aspectEvalInput s host.ir host.bundleId tx.budget (aspectContext s tx msgSender)

/-- What a read returns in the given state. -/
def answerNow (s : DeTTaState) (op : AspectHostOp) : Option AspectValue :=
  match captured tx msgSender host s with
  | .ok input => input.answer op
  | .error _ => none

/-! ## Direct execution -/

/-- What a direct execution changes. It keeps its reads, with the values they have returned. -/
structure LiveState where
  machine : Machine
  stepsUsed : ℕ
  reads : List (AspectHostOp × AspectValue)

/-- A direct execution, where the given variables are in scope. -/
def Live (α : Type) : Type := Variables → EStateM ExecutionError LiveState α

instance : Monad Live where
  pure a := fun _ => pure a
  bind x f := fun ρ => x ρ >>= fun a => f a ρ

namespace Live

/-- Carry out an operation at once. -/
def perform (op : AspectHostOp) : EStateM ExecutionError LiveState Unit := fun ℓ =>
  match applyAspectHostOp env call tx host op ℓ.machine with
  | .ok _ m => .ok () { ℓ with machine := m }
  | .error e m => .error e { ℓ with machine := m }

/-- Read the state of this moment. -/
def read (op : AspectHostOp) : EStateM ExecutionError LiveState AspectValue := do
  let ℓ ← get
  perform env call tx host op
  let value ← okOr (answerNow tx msgSender host ℓ.machine.state op) .invalidArguments
  modify fun ℓ => { ℓ with reads := ℓ.reads ++ [(op, value)] }
  pure value

/-- Take a step, if there is one left. -/
def step : EStateM ExecutionError LiveState Unit := do
  let ℓ ← get
  ensure (ℓ.stepsUsed < tx.budget.val) .invalidArguments
  modify fun ℓ => { ℓ with stepsUsed := ℓ.stepsUsed + 1 }

end Live

/-- The language, executed directly. -/
def Interp.live : Interp Live where
  fail := fun _ => throw .invalidArguments
  found o := fun _ => okOr o .invalidArguments
  assume c := fun _ => ensure c .invalidArguments
  step := fun _ => Live.step tx
  ask op := fun _ => Live.perform env call tx host op
  stateGet state key := fun _ => Live.read env call tx msgSender host (.stateGet state key)
  contractStateGet contract state key := fun _ =>
    Live.read env call tx msgSender host (.contractStateGet contract state key)
  lookup name := fun ρ => okOr (ρ name) .invalidArguments
  within scope x := fun ρ => x (ρ.bind scope)

/-- The direct execution of a projection on the arguments of the transaction. -/
def directRun (projection : String) (m : Machine) :
    EStateM.Result ExecutionError LiveState AspectValue :=
  (Interp.live env call tx msgSender host).projection host.ir (aspectContext m.state tx msgSender)
    host.bundleId projection (tx.args.map aspectValueFromArgument) (fun _ => none) ⟨m, 0, []⟩

/-- The end of a direct execution, without what it has kept. -/
def LiveState.forget : EStateM.Result ExecutionError LiveState AspectValue →
    EStateM.Result ExecutionError Machine AspectValue
  | .ok value ℓ => .ok value ℓ.machine
  | .error e ℓ => .error e ℓ.machine

/-- Execute a projection directly, if a snapshot could be taken. -/
def executeDirectly (projection : String) : Kernel AspectValue := fun m =>
  match captured tx msgSender host m.state with
  | .error e => .error e m
  | .ok _ => LiveState.forget (directRun env call tx msgSender host projection m)

/-- The reads of the direct execution, with the values they return. -/
def directReads (projection : String) (m : Machine) : List (AspectHostOp × AspectValue) :=
  match captured tx msgSender host m.state with
  | .error _ => []
  | .ok _ => (endState (directRun env call tx msgSender host projection m)).reads

/-! ## Two passes -/

/-- Evaluate a projection on a snapshot, and carry out its trace. -/
def recordAndReplay (projection : String) : Kernel AspectValue := do
  let evaluated ← Kernel.read fun s =>
    evaluateMethod s tx msgSender host.ir host.bundleId projection
  let report ← Kernel.ofExcept evaluated
  forEach report.trace (applyAspectHostOp env call tx host)
  pure report.returnValue

/-- The trace that the evaluation leaves, whether it succeeds or fails. -/
def recordedTrace (projection : String) (s : DeTTaState) : List AspectHostOp :=
  match captured tx msgSender host s with
  | .error _ => []
  | .ok input =>
    (endState (evalProjection input host.bundleId projection
      (tx.args.map aspectValueFromArgument) ⟨0, [], ∅⟩)).trace

/-- Every read of a trace returns the value of the state that the operations before it lead to. -/
def ReadsLive (answer : AspectHostOp → Option AspectValue) : List AspectHostOp → Machine → Prop
  | [], _ => True
  | op :: ops, m =>
    match applyAspectHostOp env call tx host op m with
    | .ok _ m' => answer op = answerNow tx msgSender host m.state op ∧ ReadsLive answer ops m'
    | .error _ _ => True

end Direct

/-! ## Lockstep -/

section Lockstep

variable (env : Env) (call : ContractCall) (tx : Transaction) (msgSender : Principal)
  (host : AspectHostContext)

section Reads

variable {env call tx msgSender host} {answer : AspectHostOp → Option AspectValue}

theorem readsLive_append {ops ops' : List AspectHostOp} {m : Machine} :
    ReadsLive env call tx msgSender host answer (ops ++ ops') m ↔
      ReadsLive env call tx msgSender host answer ops m ∧
        ∀ m', forEach ops (applyAspectHostOp env call tx host) m = .ok () m' →
          ReadsLive env call tx msgSender host answer ops' m' := by
  induction ops generalizing m with
  | nil => simp [ReadsLive, forEach, pure, EStateM.pure]
  | cons op ops ih =>
    simp only [List.cons_append, ReadsLive, forEach, bind, EStateM.bind]
    cases applyAspectHostOp env call tx host op m with
    | ok _ m' => simp only [ih, and_assoc]
    | error => simp

/-- Whether there is a snapshot does not depend on the state. -/
theorem exists_captured {s : DeTTaState} {input : EvalInput}
    (h : captured tx msgSender host s = .ok input) (s' : DeTTaState) :
    ∃ input', captured tx msgSender host s' = .ok input' := by
  unfold captured aspectEvalInput aspectStateReads at h ⊢
  cases hc : aspectBundleAspectClosure host.ir host.bundleId with
  | error e => simp [hc, bind, Except.bind] at h
  | ok closure => exact ⟨_, rfl⟩

end Reads

variable (input : EvalInput) (start : Machine)

/-- The snapshot answers these reads in the same way. -/
def Fresh (reads : List (AspectHostOp × AspectValue)) : Prop :=
  ∀ r ∈ reads, input.answer r.1 = some r.2

/-- The first pass and the direct execution are at the same point, and have read the same. -/
structure InStep (s : EvalState) (ρ : Variables) (ℓ : LiveState) : Prop where
  steps : ℓ.stepsUsed = s.stepsUsed
  has : s.Has ρ
  replay : forEach s.trace (applyAspectHostOp env call tx host) start = .ok () ℓ.machine
  live : ReadsLive env call tx msgSender host input.answer s.trace start
  fresh : Fresh input ℓ.reads

/-- How the first pass and the direct execution end. -/
inductive Locked (ρ : Variables) {α : Type} : EStateM.Result AspectEvalError EvalState α →
    EStateM.Result ExecutionError LiveState α → Prop where
  /-- Both go on. -/
  | ok {a : α} {s : EvalState} {ℓ : LiveState}
      (h : InStep env call tx msgSender host input start s ρ ℓ) : Locked ρ (.ok a s) (.ok a ℓ)
  /-- Both fail. -/
  | error {e : AspectEvalError} {s : EvalState} {e' : ExecutionError} {ℓ : LiveState}
      (hl : ReadsLive env call tx msgSender host input.answer s.trace start)
      (hf : Fresh input ℓ.reads) : Locked ρ (.error e s) (.error e' ℓ)
  /-- An operation fails, at once or in the second pass. -/
  | stuck {r : EStateM.Result AspectEvalError EvalState α} {e' : ExecutionError} {ℓ : LiveState}
      (hr : ∃ e m, forEach (endState r).trace (applyAspectHostOp env call tx host) start =
        .error e m)
      (hl : ReadsLive env call tx msgSender host input.answer (endState r).trace start)
      (hf : Fresh input ℓ.reads) : Locked ρ r (.error e' ℓ)
  /-- A read has been answered in two ways. -/
  | stale {r : EStateM.Result AspectEvalError EvalState α}
      {q : EStateM.Result ExecutionError LiveState α}
      (hl : ¬ReadsLive env call tx msgSender host input.answer (endState r).trace start)
      (hf : ¬Fresh input (endState q).reads) : Locked ρ r q

/-- An evaluation and a direct execution that go in lockstep. The one only adds to its trace, and
    the other to its reads. -/
structure Lockstep {α : Type} (x : Eval α) (y : Live α) : Prop where
  traces : ∀ t, Keeps (fun s => t <+: s.trace) (fun _ s => t <+: s.trace) x
  reads : ∀ ρ r, Keeps (fun ℓ => r ∈ ℓ.reads) (fun _ ℓ => r ∈ ℓ.reads) (y ρ)
  locked : ∀ s ρ ℓ, InStep env call tx msgSender host input start s ρ ℓ →
    Locked env call tx msgSender host input start ρ (x s) (y ρ ℓ)

variable {env call tx msgSender host input start} {α β : Type} {t u : List AspectHostOp}

/-- An operation that fails is not passed over by what comes later. -/
theorem stuck_of_isPrefix (h : t <+: u)
    (hr : ∃ e m, forEach t (applyAspectHostOp env call tx host) start = .error e m)
    (hl : ReadsLive env call tx msgSender host input.answer t start) :
    (∃ e m, forEach u (applyAspectHostOp env call tx host) start = .error e m) ∧
      ReadsLive env call tx msgSender host input.answer u start := by
  obtain ⟨v, rfl⟩ := h
  obtain ⟨e, m, hr⟩ := hr
  refine ⟨⟨e, m, ?_⟩, readsLive_append.2 ⟨hl, fun m' hm' => ?_⟩⟩
  · simp only [forEach_append, bind, EStateM.bind, hr]
  · rw [hr] at hm'
    cases hm'

/-- A read that has been answered wrongly stays in the trace. -/
theorem stale_of_isPrefix (h : t <+: u)
    (hl : ¬ReadsLive env call tx msgSender host input.answer t start) :
    ¬ReadsLive env call tx msgSender host input.answer u start := by
  obtain ⟨v, rfl⟩ := h
  exact fun hu => hl (readsLive_append.1 hu).1

theorem Lockstep.pure (a : α) :
    Lockstep env call tx msgSender host input start (Pure.pure a) (Pure.pure a) where
  traces _ := Keeps.pure a
  reads _ _ := Keeps.pure a
  locked _ _ _ h := .ok h

theorem Lockstep.bind {x : Eval α} {f : α → Eval β} {y : Live α} {g : α → Live β}
    (hx : Lockstep env call tx msgSender host input start x y)
    (hf : ∀ a, Lockstep env call tx msgSender host input start (f a) (g a)) :
    Lockstep env call tx msgSender host input start (x >>= f) (y >>= g) where
  traces t := (hx.traces t).bind fun a => (hf a).traces t
  reads ρ r := (hx.reads ρ r).bind fun a => (hf a).reads ρ r
  locked s ρ ℓ h := by
    have hlater {s' : EvalState} {a : α} : s'.trace <+: (endState (f a s')).trace :=
      ((hf a).traces s'.trace).endState List.prefix_rfl
    have hkept {ℓ' : LiveState} {a : α} {r : AspectHostOp × AspectValue} (hr : r ∈ ℓ'.reads) :
        r ∈ (endState (g a ρ ℓ')).reads := ((hf a).reads ρ r).endState hr
    have hl := hx.locked s ρ ℓ h
    simp only [Bind.bind, EStateM.bind]
    generalize x s = r at hl ⊢
    generalize y ρ ℓ = q at hl ⊢
    cases hl with
    | ok h' => exact (hf _).locked _ ρ _ h'
    | error hl hs => exact .error hl hs
    | stuck hr hl hs =>
      cases r with
      | ok a s' =>
        obtain ⟨hr, hl⟩ := stuck_of_isPrefix hlater hr hl
        exact .stuck hr hl hs
      | error => exact .stuck hr hl hs
    | stale hl hs =>
      refine .stale ?_ ?_
      · cases r with
        | ok => exact stale_of_isPrefix hlater hl
        | error => exact hl
      · cases q with
        | ok => exact fun hnew => hs fun r hr => hnew r (hkept hr)
        | error => exact hs

theorem Lockstep.fail (e : AspectEvalError) (e' : ExecutionError) :
    Lockstep env call tx msgSender host input start (throw e : Eval α) fun _ => throw e' where
  traces _ := Keeps.same
  reads _ _ := Keeps.same (m := throw e')
  locked _ _ _ h := .error h.live h.fresh

theorem Lockstep.step (hb : input.maxSteps = tx.budget) :
    Lockstep env call tx msgSender host input start (Eval.charge input.maxSteps)
      fun _ => Live.step tx where
  traces t := .bind .same fun _ => .bind .same fun _ =>
    .update fun _ h => h
  reads ρ r := Keeps.bind .same fun _ => .bind .same fun _ =>
    .update fun _ h => h
  locked s ρ ℓ h := by
    have hx : Eval.charge tx.budget s = if s.stepsUsed < tx.budget.val then
        .ok () { s with stepsUsed := s.stepsUsed + 1 } else .error .stepBudgetExceeded s :=
      ensure_bind
    have hy : Live.step tx ℓ = if ℓ.stepsUsed < tx.budget.val then
        .ok () { ℓ with stepsUsed := ℓ.stepsUsed + 1 } else .error .invalidArguments ℓ :=
      ensure_bind
    rw [hb, hx, hy, h.steps]
    split
    · exact .ok ⟨rfl, h.has, h.replay, h.live, h.fresh⟩
    · exact .error h.live h.fresh

/-! ### Operations -/

section Operations

variable {t : List AspectHostOp} {m : Machine} (op : AspectHostOp)
  (hr : forEach t (applyAspectHostOp env call tx host) start = .ok () m)

include hr

theorem replay_append :
    forEach (t ++ [op]) (applyAspectHostOp env call tx host) start =
      applyAspectHostOp env call tx host op m := by
  simp only [forEach_append, bind, EStateM.bind, hr, forEach, pure, EStateM.pure]
  cases applyAspectHostOp env call tx host op m <;> rfl

theorem readsLive_push (hl : ReadsLive env call tx msgSender host input.answer t start) :
    ReadsLive env call tx msgSender host input.answer (t ++ [op]) start ↔
      ∀ m', applyAspectHostOp env call tx host op m = .ok () m' →
        input.answer op = answerNow tx msgSender host m.state op := by
  rw [readsLive_append, and_iff_right hl]
  constructor
  · intro h m' hm'
    have hlive := h m hr
    rw [ReadsLive, hm'] at hlive
    exact hlive.1
  · intro h m₁ hm₁
    cases hr.symm.trans hm₁
    rw [ReadsLive]
    split
    next hm' => exact ⟨h _ hm', trivial⟩
    next => trivial

end Operations

theorem perform_reads (op : AspectHostOp) (r : AspectHostOp × AspectValue) :
    Keeps (fun ℓ => r ∈ ℓ.reads) (fun _ ℓ => r ∈ ℓ.reads) (Live.perform env call tx host op) := by
  intro ℓ h
  unfold wp Live.perform
  cases applyAspectHostOp env call tx host op ℓ.machine <;> exact h

theorem traces_push (t : List AspectHostOp) (op : AspectHostOp) :
    Keeps (fun s => t <+: s.trace) (fun _ s => t <+: s.trace) (Eval.push op) :=
  Keeps.update fun _ h => h.trans (List.prefix_append _ _)

theorem Lockstep.ask {op : AspectHostOp} (hn : op.isRead = false) :
    Lockstep env call tx msgSender host input start (Eval.push op)
      fun _ => Live.perform env call tx host op where
  traces t := traces_push t op
  reads _ r := perform_reads op r
  locked s ρ ℓ h := by
    have hlive : ReadsLive env call tx msgSender host input.answer (s.trace ++ [op]) start := by
      refine (readsLive_push op h.replay h.live).2 fun _ _ => ?_
      unfold answerNow
      split
      · rw [input.answer_of_not_isRead hn, EvalInput.answer_of_not_isRead _ hn]
      · exact input.answer_of_not_isRead hn
    have hreplay := replay_append op h.replay
    unfold Live.perform
    cases hm : applyAspectHostOp env call tx host op ℓ.machine with
    | ok _ m => exact .ok ⟨h.steps, h.has, hreplay.trans hm, hlive, h.fresh⟩
    | error e m => exact .stuck ⟨e, m, hreplay.trans hm⟩ hlive h.fresh

theorem Lockstep.read (hc : captured tx msgSender host start.state = .ok input)
    {op : AspectHostOp} {v : AspectValue} (hv : input.answer op = some v) :
    Lockstep env call tx msgSender host input start (Eval.push op >>= fun _ => Pure.pure v)
      fun _ => Live.read env call tx msgSender host op where
  traces t := (traces_push t op).bind fun _ => Keeps.pure v
  reads _ r := Keeps.bind .same fun _ => .bind (perform_reads op r) fun _ =>
    .bind .same fun _ => .bind (.update fun _ h => List.mem_append_left _ h)
      fun _ => .pure _
  locked s ρ ℓ h := by
    have hreplay := replay_append op h.replay
    -- there is a value to be read, since there is a snapshot
    obtain ⟨v', hv'⟩ : ∃ v', answerNow tx msgSender host ℓ.machine.state op = some v' := by
      obtain ⟨now, hnow⟩ := exists_captured hc ℓ.machine.state
      unfold answerNow
      rw [hnow]
      cases op <;> first | exact ⟨_, rfl⟩ | cases hv
    have hread : Live.read env call tx msgSender host op ℓ =
        match applyAspectHostOp env call tx host op ℓ.machine with
        | .ok _ m => .ok v' ⟨m, ℓ.stepsUsed, ℓ.reads ++ [(op, v')]⟩
        | .error e m => .error e ⟨m, ℓ.stepsUsed, ℓ.reads⟩ := by
      change (Live.perform env call tx host op >>= fun _ =>
        okOr (answerNow tx msgSender host ℓ.machine.state op) _ >>= _) ℓ = _
      simp only [hv', okOr, Bind.bind, EStateM.bind, Live.perform]
      cases applyAspectHostOp env call tx host op ℓ.machine <;> rfl
    rw [hread]
    cases hm : applyAspectHostOp env call tx host op ℓ.machine with
    | ok _ m =>
      by_cases hvv : v = v'
      · subst hvv
        refine .ok ⟨h.steps, h.has, hreplay.trans hm, ?_, fun r hr => ?_⟩
        · exact (readsLive_push op h.replay h.live).2 fun _ _ => hv.trans hv'.symm
        · rcases List.mem_append.1 hr with hr | hr
          · exact h.fresh r hr
          · rw [List.mem_singleton.1 hr]
            exact hv
      · refine .stale (fun hlive => hvv ?_) fun hfresh => hvv ?_
        · have heq := (readsLive_push op h.replay h.live).1 hlive m hm
          exact Option.some.inj (hv.symm.trans (heq.trans hv'))
        · exact Option.some.inj (hv.symm.trans (hfresh (op, v') (by simp [endState])))
    | error e m =>
      refine .stuck ⟨e, m, hreplay.trans hm⟩ ?_ h.fresh
      refine (readsLive_push op h.replay h.live).2 fun m' hm' => ?_
      rw [hm] at hm'
      cases hm'

theorem Lockstep.lookup {name x : String} (hx : variableName name = some x) :
    Lockstep env call tx msgSender host input start (do
      let s ← get
      okOr s.bindings[x]? (.unknownVariable x)) fun ρ => okOr (ρ name) .invalidArguments where
  traces _ := .bind .same fun _ => .same
  reads _ _ := Keeps.same
  locked s ρ ℓ h := by
    change Locked env call tx msgSender host input start ρ
      (okOr s.bindings[x]? (.unknownVariable x) s) (okOr (ρ name) .invalidArguments ℓ)
    rw [h.has name x hx]
    cases ρ name with
    | none => exact .error h.live h.fresh
    | some v => exact .ok h

theorem Lockstep.within {names params : List String} (hn : Named names params)
    (args : List AspectValue) {x : Eval α} {y : Live α}
    (hx : Lockstep env call tx msgSender host input start x y) :
    Lockstep env call tx msgSender host input start (Eval.inScope (params.zip args) x)
      fun ρ => y (ρ.bind (names.zip args)) where
  traces t := .bind .same fun _ =>
    .bind (.bind (.update fun _ h => h) fun _ => hx.traces t) fun _ =>
      .bind (.update fun _ h => h) fun _ => .pure _
  reads ρ r := hx.reads _ r
  locked s ρ ℓ h := by
    have hl := hx.locked { s with bindings := s.bindings.insertMany (params.zip args) } _ ℓ
      ⟨h.steps, h.has.bind hn args, h.replay, h.live, h.fresh⟩
    have hscope : Eval.inScope (params.zip args) x s =
        match x { s with bindings := s.bindings.insertMany (params.zip args) } with
        | .ok a s' => .ok a { s' with bindings := s.bindings }
        | .error e s' => .error e s' := by
      change (x >>= fun a => _) { s with bindings := s.bindings.insertMany (params.zip args) } = _
      simp only [Bind.bind, EStateM.bind]
      cases x { s with bindings := s.bindings.insertMany (params.zip args) } <;> rfl
    rw [hscope]
    generalize x { s with bindings := s.bindings.insertMany (params.zip args) } = r at hl ⊢
    generalize y (ρ.bind (names.zip args)) ℓ = q at hl ⊢
    cases hl with
    | ok h' => exact .ok ⟨h'.steps, h.has, h'.replay, h'.live, h'.fresh⟩
    | error hl hf => exact .error hl hf
    | stuck hr hl hf => cases r <;> exact .stuck hr hl hf
    | stale hl hf => cases r <;> exact .stale hl hf

/-- The evaluator and the direct execution go in lockstep, on every program. -/
theorem models_lockstep (hc : captured tx msgSender host start.state = .ok input) :
    (Interp.live env call tx msgSender host).Models input
      fun _ => Lockstep env call tx msgSender host input start where
  pure := Lockstep.pure
  bind := Lockstep.bind
  throw e := Lockstep.fail e _
  found o e := by
    cases o with
    | none => exact Lockstep.fail e _
    | some a => exact Lockstep.pure a
  assume c _ e := by
    by_cases hc : c
    · simp only [ensure, hc, Interp.live, if_true]
      exact Lockstep.pure ()
    · simp only [ensure, hc, Interp.live, if_false]
      exact Lockstep.fail e _
  step := Lockstep.step (aspectEvalInput_eq_ok hc).2.1
  ask := Lockstep.ask
  stateGet _ _ := Lockstep.read hc rfl
  contractStateGet _ _ _ := Lockstep.read hc rfl
  lookup := Lockstep.lookup
  within := Lockstep.within

end Lockstep

/-! ## The two ways to execute a projection -/

/-- Both succeed, with the same value in the same machine, or both fail. -/
def SameOutcome : EStateM.Result ExecutionError Machine AspectValue →
    EStateM.Result ExecutionError Machine AspectValue → Prop
  | .ok v m, .ok v' m' => v = v' ∧ m = m'
  | .error _ _, .error _ _ => True
  | _, _ => False

section Outcome

variable {env : Env} {call : ContractCall} {tx : Transaction} {msgSender : Principal}
  {host : AspectHostContext}

variable (env call tx host) in
/-- The end of the two passes, from the end of the first one. -/
def replayed (m : Machine) : EStateM.Result AspectEvalError EvalState AspectValue →
    EStateM.Result ExecutionError Machine AspectValue
  | .ok value s =>
    match forEach s.trace (applyAspectHostOp env call tx host) m with
    | .ok _ m' => .ok value m'
    | .error e m' => .error e m'
  | .error _ _ => .error .invalidArguments m

variable {input : EvalInput} {m : Machine}

theorem Locked.iff {start : Machine} {ρ : Variables}
    {r : EStateM.Result AspectEvalError EvalState AspectValue}
    {q : EStateM.Result ExecutionError LiveState AspectValue}
    (h : Locked env call tx msgSender host input start ρ r q) :
    SameOutcome (replayed env call tx host start r) (LiveState.forget q) ∧
        ReadsLive env call tx msgSender host input.answer (endState r).trace start ↔
      Fresh input (endState q).reads := by
  cases h with
  | @ok a s ℓ h =>
    have hsame : replayed env call tx host start (.ok a s) = .ok a ℓ.machine := by
      simp only [replayed, h.replay]
    exact ⟨fun _ => h.fresh, fun _ => ⟨hsame ▸ ⟨rfl, rfl⟩, h.live⟩⟩
  | error hl hf => exact ⟨fun _ => hf, fun _ => ⟨trivial, hl⟩⟩
  | stuck hr hl hf =>
    refine ⟨fun _ => hf, fun _ => ⟨?_, hl⟩⟩
    obtain ⟨e, m, hr⟩ := hr
    cases r with
    | error => trivial
    | ok a s =>
      have hfail : replayed env call tx host start (.ok a s) = .error e m := by
        simp only [endState] at hr
        simp only [replayed, hr]
      exact hfail ▸ trivial
  | stale hl hf => exact ⟨fun h => absurd h.2 hl, fun h => absurd h hf⟩

theorem evaluateMethod_eq (s : DeTTaState) (projection : String) :
    evaluateMethod s tx msgSender host.ir host.bundleId projection = (do
      let input ← captured tx msgSender host s
      match runEval (evalProjection input host.bundleId projection
        (tx.args.map aspectValueFromArgument)) with
      | .error _ => .error .invalidArguments
      | .ok report => .ok report) := rfl

theorem recordAndReplay_of_captured (projection : String)
    (hc : captured tx msgSender host m.state = .ok input) :
    recordAndReplay env call tx msgSender host projection m =
      replayed env call tx host m (evalProjection input host.bundleId projection
        (tx.args.map aspectValueFromArgument) ⟨0, [], ∅⟩) := by
  change (Kernel.ofExcept (evaluateMethod m.state tx msgSender host.ir host.bundleId projection) >>=
    fun report => forEach report.trace _ >>= fun _ => pure report.returnValue) m = _
  rw [evaluateMethod_eq, hc]
  simp only [bind, Except.bind]
  unfold runEval replayed
  cases evalProjection input host.bundleId projection (tx.args.map aspectValueFromArgument)
    ⟨0, [], ∅⟩ with
  | error e s => rfl
  | ok value s =>
    change (forEach s.trace _ >>= fun _ => pure value) m = _
    simp only [bind, EStateM.bind]
    cases forEach s.trace (applyAspectHostOp env call tx host) m <;> rfl

theorem recordAndReplay_of_not_captured {e : ExecutionError} (projection : String)
    (hc : captured tx msgSender host m.state = .error e) :
    recordAndReplay env call tx msgSender host projection m = .error e m := by
  change (Kernel.ofExcept (evaluateMethod m.state tx msgSender host.ir host.bundleId projection) >>=
    _) m = _
  rw [evaluateMethod_eq, hc]
  rfl

variable (env call) in
/-- The first pass, up to the variables it leaves behind, goes in lockstep with the direct
    execution. -/
theorem locked_projection (projection : String)
    (hc : captured tx msgSender host m.state = .ok input) :
    ∃ r : EStateM.Result AspectEvalError EvalState AspectValue,
      Locked env call tx msgSender host input m (fun _ => none) r
        (directRun env call tx msgSender host projection m) ∧
      (endState r).trace = recordedTrace tx msgSender host projection m.state ∧
      replayed env call tx host m r =
        recordAndReplay env call tx msgSender host projection m := by
  obtain ⟨hir, -, hctx⟩ := aspectEvalInput_eq_ok hc
  let x := evalProjection input host.bundleId projection (tx.args.map aspectValueFromArgument)
  have hx : x.restoring ⟨0, [], ∅⟩ = match x ⟨0, [], ∅⟩ with
      | .ok value s => .ok value { s with bindings := ∅ }
      | .error e s => .error e s := by
    change (x >>= fun value => _) ⟨0, [], ∅⟩ = _
    simp only [bind, EStateM.bind]
    cases x ⟨0, [], ∅⟩ <;> rfl
  refine ⟨x.restoring ⟨0, [], ∅⟩, ?_, ?_, ?_⟩
  · have hmodels : (Interp.live env call tx msgSender host).Models input
        fun _ => Lockstep env call tx msgSender host input m := models_lockstep hc
    have hlock := hmodels.restoring_evalProjection host.bundleId projection
      (tx.args.map aspectValueFromArgument)
    rw [hir, hctx] at hlock
    exact hlock.locked ⟨0, [], ∅⟩ (fun _ => none) ⟨m, 0, []⟩
      ⟨rfl, fun _ _ _ => by simp, rfl, trivial, by simp [Fresh]⟩
  · rw [recordedTrace, hc, hx]
    change _ = (endState (x ⟨0, [], ∅⟩)).trace
    cases x ⟨0, [], ∅⟩ <;> rfl
  · rw [recordAndReplay_of_captured projection hc, hx]
    change _ = replayed env call tx host m (x ⟨0, [], ∅⟩)
    cases x ⟨0, [], ∅⟩ <;> rfl

end Outcome

/-! ## Methods -/

/-- A method of an aspect contract is run in two passes, and then its invariants are checked. -/
theorem executeAspectModuleMethod_eq (env : Env) (call : ContractCall) (tx : Transaction)
    (msgSender : Principal) (moduleHash bundleId : String) :
    executeAspectModuleMethod env call tx msgSender moduleHash bundleId = (do
      let projection ← okOr (match tx.method with
        | .other projection => some projection
        | _ => none) .methodNotExported
      let found ← Kernel.read fun s => s.aspectModules[moduleHash]?
      let module ← okOr found .invalidArguments
      let ir ← okOr module.ir .policyMissing
      let policy ← okOr ir.policies[qualified bundleId projection]? .policyMissing
      let scope ← Kernel.ofExcept (aspectWriteScope tx.target bundleId ir)
      let context ← Kernel.read fun s => aspectContext s tx msgSender
      let value ← recordAndReplay env call tx msgSender
        ⟨module, ir, bundleId, policy, ⟨tx.target, scope⟩⟩ projection
      let checked ← Kernel.read fun s =>
        checkAspectMethodInvariants s ir bundleId policy tx.budget context
      Kernel.ofExcept checked
      okOr (aspectValueToReturn value) .invalidArguments) := by
  unfold executeAspectModuleMethod
  refine bind_congr fun projection => bind_congr fun found => bind_congr fun module =>
    bind_congr fun ir => bind_congr fun policy => ?_
  funext m
  cases hs : aspectWriteScope tx.target bundleId ir with
  | ok scope =>
    change (Kernel.ofExcept (evaluateMethod m.state tx msgSender ir bundleId projection) >>= _) m =
      ((Kernel.ofExcept (evaluateMethod m.state tx msgSender ir bundleId projection) >>= _) >>= _) m
    cases evaluateMethod m.state tx msgSender ir bundleId projection with
    | error e => rfl
    | ok report =>
      change (forEach report.trace _ >>= _) m = ((forEach report.trace _ >>= _) >>= _) m
      rw [bind_assoc]
      rfl
  | error e =>
    have he : evaluateMethod m.state tx msgSender ir bundleId projection = .error e := by
      unfold evaluateMethod aspectEvalInput aspectStateReads
      unfold aspectWriteScope at hs
      cases hc : aspectBundleAspectClosure ir bundleId with
      | ok closure => simp [hc, bind, Except.bind] at hs
      | error e' =>
        simp only [hc, bind, Except.bind, Except.error.injEq] at hs ⊢
        exact hs
    change (Kernel.ofExcept (evaluateMethod m.state tx msgSender ir bundleId projection) >>=
      _) m = _
    rw [he]
    rfl

end Detta
