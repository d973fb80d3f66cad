import Detta.Aspect.Inference

/-!
# Recursion in verified modules

The verifier rejects a module in which actions call each other in a cycle, as far as it can
see from their text. Is no action of an accepted module ever entered while it is still
running?

To see the actions that are running, evaluations are watched: `Interp.watched` is the
evaluator with a record of the stack of actions at each call of an action (`watchAction`), and
without the record it is the evaluator itself (`watchedProjection_fst`).

The search for cycles overlooks the left side of every equation `(= l r)` of three items, and
the first item of a list that starts with a list. In a module that has no calls there
(`ShowsCalls`), the stack is a path in the graph that was searched. In that graph the search
finds a cycle exactly if there is one.
-/

namespace Detta

/-! ## Watched evaluations -/

/-- The state of the evaluator, and the stacks of actions at the calls so far. -/
structure WatchState where
  eval : EvalState
  entries : List (List String)

abbrev Watch := EStateM Unit WatchState

/-- Run an evaluation that calls no action. -/
def recording {α : Type} (m : Eval α) : Watch α := fun s =>
  match m s.eval with
  | .ok a e => .ok a { s with eval := e }
  | .error _ e => .error () { s with eval := e }

/-- The variables that the atoms of a scope stand for. -/
def scopeVariables (scope : List (String × AspectValue)) : List (String × AspectValue) :=
  scope.filterMap fun entry => (variableName entry.1).map fun x => (x, entry.2)

/-- The evaluator, on states with a record. -/
def Interp.watched (input : EvalInput) : Interp Watch where
  fail := throw ()
  found o := okOr o ()
  assume c := ensure c ()
  step := recording (Eval.charge input.maxSteps)
  ask op := recording (Eval.push op)
  stateGet state key := recording (Eval.readState input state key)
  contractStateGet contract state key := recording (Eval.readContractState input contract state key)
  lookup name := recording do
    let x ← okOr (variableName name) (.unknownVariable name)
    let s ← get
    okOr s.bindings[x]? (.unknownVariable x)
  within scope μ := do
    let s ← get
    modify fun s => { s with
      eval.bindings := s.eval.bindings.insertMany (scopeVariables scope) }
    let result ← μ
    modify fun s' => { s' with eval.bindings := s.eval.bindings }
    pure result

/-- An action that is called while the actions of the stack are running. -/
def watchAction (input : EvalInput) : ℕ → List String → Interp.Call Watch
  | 0, _, _, _, _ => throw ()
  | depth + 1, stack, aspect, name, args => do
    let stack := qualified aspect name :: stack
    modify fun s => { s with entries := s.entries ++ [stack] }
    match input.module.actionApplied? aspect name args with
    | some (scope, rhs) =>
      (Interp.watched input).within scope ((Interp.watched input).expression input.module
        input.context (watchAction input depth stack) rhs)
    | none => throw ()

def watchProjection (input : EvalInput) (bundle projection : String) (args : List AspectValue) :
    Watch AspectValue :=
  match input.module.projectionApplied? bundle projection args with
  | some (scope, rhs) =>
    (Interp.watched input).within scope ((Interp.watched input).expression input.module
      input.context (watchAction input maxStackDepth []) rhs)
  | none => throw ()

/-- The report of a projection, if it has one, and the stacks of actions at all calls, whether
    or not the evaluation has failed. -/
def watchedProjection (input : EvalInput) (bundle projection : String)
    (args : List AspectValue) : Option AspectExecutionReport × List (List String) :=
  match watchProjection input bundle projection args ⟨⟨0, [], ∅⟩, []⟩ with
  | .ok value s => (some ⟨s.eval.trace, value, s.eval.stepsUsed⟩, s.entries)
  | .error _ s => (none, s.entries)

/-! ### Without the record -/

/-- Two runs with the same outcome. -/
def WatchedOutcome {α : Type} : EStateM.Result AspectEvalError EvalState α →
    EStateM.Result Unit WatchState α → Prop
  | .ok a e, .ok b s => a = b ∧ s.eval = e
  | .error _ e, .error _ s => s.eval = e
  | _, _ => False

/-- An evaluation, and the same evaluation with a record. -/
def Watches {α : Type} (m : Eval α) (μ : Watch α) : Prop :=
  ∀ s : WatchState, WatchedOutcome (m s.eval) (μ s)

variable {α : Type} {names params : List String}

theorem watches_recording (m : Eval α) : Watches m (recording m) := fun s => by
  unfold recording
  cases m s.eval with
  | ok a e => exact ⟨rfl, rfl⟩
  | error _ e => rfl

theorem Watches.cases {m : Eval α} {μ : Watch α} (h : Watches m μ) (s : WatchState) :
    (∃ a s', m s.eval = .ok a s'.eval ∧ μ s = .ok a s') ∨
      ∃ e s', m s.eval = .error e s'.eval ∧ μ s = .error () s' := by
  have hs := h s
  cases hr : m s.eval <;> cases hr' : μ s <;> rw [hr, hr'] at hs
  · obtain ⟨rfl, rfl⟩ := hs
    exact .inl ⟨_, _, rfl, rfl⟩
  · exact hs.elim
  · exact hs.elim
  · obtain rfl := hs
    exact .inr ⟨_, _, rfl, rfl⟩

theorem Watches.bind {β : Type} {m : Eval α} {f : α → Eval β} {μ : Watch α} {ν : α → Watch β}
    (hm : Watches m μ) (hf : ∀ a, Watches (f a) (ν a)) : Watches (m >>= f) (μ >>= ν) := fun s => by
  rcases hm.cases s with ⟨a, s', hr, hr'⟩ | ⟨e, s', hr, hr'⟩
  · simp only [Bind.bind, EStateM.bind, hr, hr']
    exact hf a s'
  · simp only [Bind.bind, EStateM.bind, hr, hr']
    rfl

theorem scopeVariables_zip (h : Named names params)
    (args : List AspectValue) : scopeVariables (names.zip args) = params.zip args := by
  unfold scopeVariables
  induction h generalizing args with
  | nil => rfl
  | cons hx _ ih =>
    cases args with
    | nil => rfl
    | cons v args => simp [hx, ih args]

/-- The same evaluation in the same scope. -/
theorem Watches.within (input : EvalInput) (hn : Named names params) (args : List AspectValue)
    {m : Eval α} {μ : Watch α} (hm : Watches m μ) :
    Watches (Eval.inScope (params.zip args) m)
      ((Interp.watched input).within (names.zip args) μ) := fun s => by
  simp only [Eval.inScope, Eval.restoring, Interp.watched, scopeVariables_zip hn, Bind.bind,
    EStateM.bind, get_apply, modify_apply, Pure.pure, EStateM.pure]
  rcases hm.cases { s with eval.bindings := s.eval.bindings.insertMany (params.zip args) } with
    ⟨a, s', hr, hr'⟩ | ⟨e, s', hr, hr'⟩
  · rw [hr, hr']
    exact ⟨rfl, rfl⟩
  · rw [hr, hr']
    rfl

theorem models_watched (input : EvalInput) :
    (Interp.watched input).Models input fun _ => Watches where
  pure _ _ := ⟨rfl, rfl⟩
  bind := Watches.bind
  throw _ _ := by rfl
  found o _ s := by
    cases o with
    | none => rfl
    | some a => exact ⟨rfl, rfl⟩
  assume c _ _ s := by
    by_cases h : c
    · simp only [Interp.watched, ensure, h, if_true]
      exact ⟨rfl, rfl⟩
    · simp only [Interp.watched, ensure, h, if_false]
      rfl
  step := watches_recording _
  ask _ := watches_recording _
  stateGet _ _ := watches_recording _
  contractStateGet _ _ _ := watches_recording _
  lookup hx := by
    simp only [Interp.watched, hx]
    exact watches_recording _
  within hn args _ _ hm := hm.within input hn args

/-- The record changes nothing else. -/
theorem watches_executeNamedAction (input : EvalInput) (depth : ℕ) (stack : List String)
    (aspect action : String) (args : List AspectValue) :
    Watches (executeNamedAction input depth aspect action args)
      (watchAction input depth stack aspect action args) := by
  induction depth generalizing stack aspect action args with
  | zero => exact fun _ => rfl
  | succ depth ih =>
    -- the call is recorded first
    suffices hcall : Watches (executeNamedAction input (depth + 1) aspect action args)
        (match input.module.actionApplied? aspect action args with
        | some (scope, rhs) => (Interp.watched input).within scope ((Interp.watched input).expression
            input.module input.context (watchAction input depth (qualified aspect action :: stack))
            rhs)
        | none => throw ()) by
      exact fun s => hcall { s with entries := s.entries ++ [qualified aspect action :: stack] }
    rcases executeNamedAction_cases input depth aspect action args with
      ⟨ha, e, he⟩ | ⟨names, params, rhs, ha, hn, he⟩
    · rw [ha, he]
      exact fun _ => rfl
    · rw [ha, he]
      exact Watches.within input hn args ((models_watched input).evalExpr (ih _) rhs)

theorem watches_evalProjection (input : EvalInput) (bundle projection : String)
    (args : List AspectValue) : Watches (evalProjection input bundle projection args).restoring
      (watchProjection input bundle projection args) := by
  unfold watchProjection
  rcases evalProjection_cases input bundle projection args with
    ⟨ha, e, he⟩ | ⟨names, params, rhs, ha, hn, he⟩
  · rw [ha, he]
    exact fun _ => rfl
  · rw [ha, he]
    exact Watches.within input hn args
      ((models_watched input).evalExpr (watches_executeNamedAction input maxStackDepth []) rhs)

theorem runEval_restoring (m : Eval AspectValue) : runEval m.restoring = runEval m := by
  simp only [runEval, Eval.restoring, Bind.bind, EStateM.bind, get_apply]
  cases m ⟨0, [], ∅⟩ <;> rfl

/-- A watched projection has the report of the projection. -/
theorem watchedProjection_fst (input : EvalInput) (bundle projection : String)
    (args : List AspectValue) : (watchedProjection input bundle projection args).1 =
      (executeProjection input bundle projection args).toOption := by
  rw [executeProjection, ← runEval_restoring, runEval, watchedProjection]
  rcases (watches_evalProjection input bundle projection args).cases ⟨⟨0, [], ∅⟩, []⟩ with
    ⟨a, s', hr, hr'⟩ | ⟨e, s', hr, hr'⟩
  · rw [hr, hr']
    rfl
  · rw [hr, hr']
    rfl

/-! ## What is recorded -/

/-- All recorded stacks have a property. -/
def WatchState.All (good : List String → Prop) (s : WatchState) : Prop :=
  ∀ stack ∈ s.entries, good stack

/-- A computation that records only stacks of a property. -/
abbrev Records (good : List String → Prop) {α : Type} (μ : Watch α) : Prop :=
  Keeps (WatchState.All good) (fun _ => WatchState.All good) μ

variable {good : List String → Prop}

theorem records_recording (m : Eval α) : Records good (recording m) := fun s hs => by
  unfold wp recording
  cases m s.eval <;> exact hs

theorem closed_watched (input : EvalInput) :
    (Interp.watched input).Closed (fun _ => True) fun _ => Records good where
  pure := Keeps.pure
  bind := Keeps.bind
  fail _ _ hs := hs
  assume h s hs := .ensure ⟨fun hc => h hc s hs, fun _ => hs⟩
  found h s hs := .okOr ⟨fun a ha => h a ha s hs, fun _ => hs⟩
  step := records_recording (Eval.charge _)
  ask _ := records_recording (Eval.push _)
  stateGet _ := records_recording (Eval.readState input _ _)
  contractStateGet _ := records_recording (Eval.readContractState input _ _ _)
  lookup _ := records_recording _
  within _ _ h s hs := by
    simp only [Interp.watched, wp_bind, wp_get, wp_modify]
    exact h _ hs

/-! ## The graph of calls -/

namespace AspectModuleIr

variable (ir : AspectModuleIr)

/-- Every action is kept under its own name. -/
def KeyedActions : Prop :=
  ∀ entry ∈ ir.actions.toList, entry.1 = qualified entry.2.aspect entry.2.action

instance : Decidable ir.KeyedActions :=
  inferInstanceAs (Decidable (∀ entry ∈ ir.actions.toList,
    entry.1 = qualified entry.2.aspect entry.2.action))

/-- A list expression that calls no action. -/
def CallsNothing (head : String) (_ : List Expr) : Prop :=
  head ∈ builtinForms ∨ ir.actionKeys head = []

instance (head : String) (items : List Expr) : Decidable (ir.CallsNothing head items) :=
  inferInstanceAs (Decidable (head ∈ builtinForms ∨ ir.actionKeys head = []))

mutual

/-- There are no calls in the parts of an expression that are not searched for calls. -/
def showsCalls : Expr → Bool
  | .atom _ => true
  | .list [.atom "=", l, r] => decide (l.All ir.CallsNothing) && showsCalls r
  | .list [] => true
  | .list (.atom _ :: items) => showsCallsIn items
  | .list (e :: items) => decide (e.All ir.CallsNothing) && showsCallsIn items

def showsCallsIn : List Expr → Bool
  | [] => true
  | e :: es => showsCalls e && showsCallsIn es

end

/-- All calls in the right-hand sides of the actions are searched for. -/
def ShowsCalls : Prop :=
  ∀ action ∈ ir.actions.values, ∀ rhs ∈ action.body.bind rightHandSide?, ir.showsCalls rhs = true

instance : Decidable ir.ShowsCalls :=
  inferInstanceAs (Decidable (∀ action ∈ ir.actions.values,
    ∀ rhs ∈ action.body.bind rightHandSide?, ir.showsCalls rhs = true))

variable {ir}

/-- A list expression whose calls are among the given ones. -/
def CallsOnly (ir : AspectModuleIr) (keys : List String) (head : String) (_ : List Expr) : Prop :=
  head ∉ builtinForms → ir.actionKeys head ⊆ keys

variable {action : ActionDef}

theorem CallsOnly.mono {keys keys' : List String} (h : keys ⊆ keys') (head : String)
    (items : List Expr) (hc : ir.CallsOnly keys head items) : ir.CallsOnly keys' head items :=
  fun hb => List.Subset.trans (hc hb) h

theorem CallsNothing.callsOnly (keys : List String) (head : String) (items : List Expr)
    (h : ir.CallsNothing head items) : ir.CallsOnly keys head items := fun hb => by
  rw [h.resolve_left hb]
  exact List.nil_subset _

mutual

/-- The calls of an expression are found. -/
theorem callsOnly_of_showsCalls :
    ∀ e : Expr, ir.showsCalls e = true → e.All (ir.CallsOnly (ir.collectActionCalls e))
  | .atom _, _ => trivial
  | .list [], _ => ⟨nofun, trivial⟩
  | .list (.list l :: items), h => by
    simp only [showsCalls, Bool.and_eq_true, decide_eq_true_eq] at h
    exact ⟨nofun, h.1.mono (CallsNothing.callsOnly _), callsOnly_of_showsCallsIn items h.2⟩
  | .list (.atom head :: items), h => by
    by_cases heq : ∃ l r, head = "=" ∧ items = [l, r]
    · -- of an equation only the right side is searched, and the left side has no calls
      obtain ⟨l, r, rfl, rfl⟩ := heq
      simp only [showsCalls, Bool.and_eq_true, decide_eq_true_eq] at h
      refine ⟨fun head hh => ?_, trivial, h.1.mono (CallsNothing.callsOnly _),
        callsOnly_of_showsCalls r h.2, trivial⟩
      cases hh
      exact fun hb => absurd (by decide) hb
    · have hother : ∀ l r, items = [l, r] → head = "=" → False :=
        fun l r hi hh => heq ⟨l, r, hh, hi⟩
      rw [showsCalls] at h
      · rw [collectActionCalls]
        · refine ⟨fun head' hh => ?_, trivial, (callsOnly_of_showsCallsIn items h).mono
            (CallsOnly.mono (List.subset_append_right _ _))⟩
          cases hh
          exact fun _ => List.subset_append_left _ _
        · exact hother
      · exact hother

theorem callsOnly_of_showsCallsIn :
    ∀ es : List Expr, ir.showsCallsIn es = true →
      Expr.AllIn (ir.CallsOnly (ir.collectActionCallsAll es)) es
  | [], _ => trivial
  | e :: es, h => by
    simp only [showsCallsIn, Bool.and_eq_true] at h
    exact ⟨(callsOnly_of_showsCalls e h.1).mono (CallsOnly.mono (List.subset_append_left _ _)),
      (callsOnly_of_showsCallsIn es h.2).mono (CallsOnly.mono (List.subset_append_right _ _))⟩

end

theorem KeyedActions.getElem? (hkeyed : ir.KeyedActions) (ha : action ∈ ir.actions.values) :
    ir.actions[qualified action.aspect action.action]? = some action := by
  obtain ⟨key, h⟩ := Table.mem_values_iff.1 ha
  have hkey : key = qualified action.aspect action.action :=
    hkeyed (key, action) (Std.ExtTreeMap.mem_toList_iff_getElem?_eq_some.2 h)
  exact hkey ▸ h

/-- The calls of an action are those that are found in its body. -/
theorem getElem?_actionCallGraph (hkeyed : ir.KeyedActions) (ha : action ∈ ir.actions.values) :
    ir.actionCallGraph[qualified action.aspect action.action]? =
      some (.ofList ((action.body.map ir.collectActionCalls).getD [])) := by
  refine Table.getElem?_foldl_insert (fun other ho hk => ?_) (.inl ⟨action, ha, rfl⟩)
  -- another action of the same name is the same action
  have hother := hkeyed.getElem? ho
  rw [hk, hkeyed.getElem? ha] at hother
  cases hother
  rfl

/-- What is called in the right-hand side of an action is among its calls. -/
theorem mem_callees (hkeyed : ir.KeyedActions) (ha : action ∈ ir.actions.values)
    {signature rhs : Expr} (hb : action.body = some (.list [.atom "=", signature, rhs]))
    {key : String} (hkey : key ∈ ir.collectActionCalls rhs) :
    key ∈ callees ir.actionCallGraph (qualified action.aspect action.action) := by
  simp only [callees, getElem?_actionCallGraph hkeyed ha, hb, Option.map_some, Option.getD_some,
    collectActionCalls]
  simpa using hkey

/-- The stacks of an accepted module: paths in the graph of calls. -/
structure IsPath (ir : AspectModuleIr) (stack : List String) : Prop where
  chain : stack.IsChain fun b a => b ∈ callees ir.actionCallGraph a
  keys : ∀ key ∈ stack, ∃ action ∈ ir.actions.values,
    key = qualified action.aspect action.action

theorem IsPath.cons {key : String} {stack : List String} (h : ir.IsPath (key :: stack))
    (ha : action ∈ ir.actions.values)
    (hcall : qualified action.aspect action.action ∈ callees ir.actionCallGraph key) :
    ir.IsPath (qualified action.aspect action.action :: key :: stack) where
  chain := .cons_cons hcall h.chain
  keys := List.forall_mem_cons.2 ⟨⟨action, ha, rfl⟩, h.keys⟩

theorem callees_eq_nil {graph : Std.ExtTreeMap String (Std.ExtTreeSet String)} {key : String}
    (h : key ∉ graph.keys) : callees graph key = [] := by
  rw [Std.ExtTreeMap.mem_keys] at h
  rw [callees, Std.ExtTreeMap.getElem?_eq_none h]

theorem acc_callees (hgraph : ir.verifyActionCallGraph = .ok ()) (key : String) :
    Acc (fun b a => b ∈ callees ir.actionCallGraph a) key := by
  by_cases hkey : key ∈ ir.actionCallGraph.keys
  · have hcheck := checkAll_eq_ok.1 hgraph _ hkey
    split at hcheck
    next visited hv => exact acc_of_detectCycle hv
    next => cases hcheck
  · refine ⟨_, fun b hb => ?_⟩
    rw [callees_eq_nil hkey] at hb
    cases hb

/-- A path does not meet an action twice. -/
theorem IsPath.nodup (hkeyed : ir.KeyedActions) (hgraph : ir.verifyActionCallGraph = .ok ())
    {stack : List String} (h : ir.IsPath stack) :
    stack.Nodup ∧ stack.length ≤ ir.actions.size := by
  have hnodup : stack.Nodup := nodup_of_isChain h.chain fun key _ => acc_callees hgraph key
  have hsub : stack ⊆ ir.actions.keys := fun key hk => by
    obtain ⟨action, ha, rfl⟩ := h.keys key hk
    rw [Std.ExtTreeMap.mem_keys, Std.ExtTreeMap.mem_iff_isSome_getElem?, hkeyed.getElem? ha]
    rfl
  refine ⟨hnodup, ?_⟩
  rw [← Std.ExtTreeMap.length_keys]
  exact (hnodup.subperm hsub).length_le

/-- A module is refused exactly if there is a cycle in the graph of its calls. The search comes to
    an end on every graph: as many levels as there are nodes, and one, are enough, and what happens
    when no levels are left does not matter. -/
theorem verifyActionCallGraph_exact (ir : AspectModuleIr) :
    ((∃ e, ir.verifyActionCallGraph = .error e) ↔
      ∃ key, Relation.TransGen (fun a b => b ∈ callees ir.actionCallGraph a) key key) ∧
    ∀ (graph : Std.ExtTreeMap String (Std.ExtTreeSet String)) search,
      SearchesCycle (callees graph) search → ∀ extra key,
        search (graph.size + 1 + extra) [] [] key =
          detectCycle (callees graph) (graph.size + 1) [] [] key := by
  refine ⟨⟨?_, ?_⟩, fun graph search hs extra key => ?_⟩
  · rintro ⟨e, he⟩
    by_contra hacyclic
    have hok : ir.verifyActionCallGraph = .ok () := by
      refine checkAll_eq_ok.2 fun key _ => ?_
      obtain ⟨visited, h⟩ := exists_detectCycle_eq_ok (fun _ => callees_eq_nil)
        (not_exists.1 hacyclic) key
      rw [Std.ExtTreeMap.length_keys] at h
      simp only [h]
    cases hok.symm.trans he
  · rintro ⟨key, hcycle⟩
    cases hv : ir.verifyActionCallGraph with
    | error e => exact ⟨e, rfl⟩
    | ok =>
      exact absurd (Relation.transGen_swap.2 hcycle) (not_transGen_self (acc_callees hv key))
  · have h := hs.eq_detectCycle (fun _ => callees_eq_nil) extra key
    rwa [Std.ExtTreeMap.length_keys] at h

end AspectModuleIr

/-! ## Stacks of actions -/

open AspectModuleIr

section Stacks

variable {input : EvalInput}

/-- Calls record paths in the graph of calls. -/
theorem records_watchAction (hkeyed : input.module.KeyedActions)
    (hshown : input.module.ShowsCalls) (depth : ℕ) {stack : List String} {action : ActionDef}
    (ha : action ∈ input.module.actions.values)
    (hpath : input.module.IsPath (qualified action.aspect action.action :: stack))
    (args : List AspectValue) : Records input.module.IsPath
      (watchAction input depth stack action.aspect action.action args) := by
  induction depth generalizing stack action args with
  | zero => exact fun _ hs => hs
  | succ depth ih =>
    unfold watchAction
    refine Keeps.bind (Keeps.update fun s hs => ?_) fun _ => ?_
    · exact List.forall_mem_append.2 ⟨hs, List.forall_mem_singleton.2 hpath⟩
    · split
      next scope rhs happ =>
        refine (closed_watched input).within scope ((closed_watched input).expression ?_)
        simp only [actionApplied?, hkeyed.getElem? ha, Option.bind_eq_bind, Option.bind_some,
          Option.bind_eq_some_iff] at happ
        obtain ⟨body, hb, happ⟩ := happ
        obtain ⟨signature, rfl, -⟩ := eq_of_applied? happ
        have hcalls := callsOnly_of_showsCalls rhs (hshown action ha rhs (by rw [hb]; rfl))
        refine hcalls.mono fun head items hc => ⟨fun _ _ => trivial, fun hbuiltin other ho args => ?_⟩
        -- the callee is one of the calls of the action, and so the path goes on
        obtain ⟨hv, rfl, -⟩ := of_actionNamed ho
        have hcallee := hc hbuiltin (mem_actionKeys hv)
        exact ih hv (hpath.cons hv (mem_callees hkeyed ha hb hcallee)) args
      next => exact fun _ hs => hs

/-- During the evaluation of a projection of an accepted module, no action is entered while it
    is running, and at most as many actions are running as there are, if the actions are kept
    under their names and the search for cycles finds all calls. -/
theorem actionStacks_nodup {closures : Closures}
    (hverified : input.module.verifyModule = .ok closures)
    (hkeyed : input.module.KeyedActions) (hshown : input.module.ShowsCalls)
    (bundle projection : String) (args : List AspectValue) :
    ∀ stack ∈ (watchedProjection input bundle projection args).2,
      stack.Nodup ∧ stack.length ≤ input.module.actions.size := by
  obtain ⟨-, hgraph, -⟩ := of_verifyModule hverified
  have hrecords : Records input.module.IsPath
      (watchProjection input bundle projection args) := by
    unfold watchProjection
    split
    next scope rhs happ =>
      -- whatever is called first is alone on the stack
      refine (closed_watched input).within scope ((closed_watched input).expression
        (Expr.all_of_forall (fun head items => ⟨fun _ _ => trivial, fun _ action ha args => ?_⟩) rhs))
      obtain ⟨hv, -, -⟩ := of_actionNamed ha
      exact records_watchAction hkeyed hshown maxStackDepth hv
        ⟨.singleton _, List.forall_mem_singleton.2 ⟨action, hv, rfl⟩⟩ args
    next => exact fun _ hs => hs
  have hw := hrecords ⟨⟨0, [], ∅⟩, []⟩ fun _ h => absurd h List.not_mem_nil
  have hall : ∀ stack ∈ (watchedProjection input bundle projection args).2,
      input.module.IsPath stack := by
    unfold watchedProjection
    unfold wp at hw
    cases hr : watchProjection input bundle projection args ⟨⟨0, [], ∅⟩, []⟩ <;>
      simpa only [hr, WatchState.All] using hw
  exact fun stack hs => (hall stack hs).nodup hkeyed hgraph

end Stacks

/-! ## An action that compares itself -/

namespace Loop

/-- A projection for an action with the given right-hand side. -/
def declarations (rhs : Expr) : Declarations where
  types := []
  aspects := [⟨"A", false, ∅, ∅, ∅, ∅⟩]
  bundles := [⟨"B", .ofList ["A"], ∅, ∅⟩]
  projections := [⟨"B", "loop", .list ["=", .list ["loop"], .list ["loop"]]⟩]
  actions := [
    ⟨"A", "loop", true, some (.list ["=", .list ["loop"], rhs])⟩,
    ⟨"A", "stop", true, some (.list ["=", .list ["stop"], "True"])⟩]
  storageSchema := []
  invariants := []
  abi := [⟨"B", "loop", .list [], "Bool"⟩]
  policies := [⟨"B", "loop", .txSender, ∅, ∅, ∅, ∅⟩]

def input (rhs : Expr) : EvalInput where
  module := (declarations rhs).lower "0"
  maxSteps := 10
  context := ⟨"alice", "alice", "c", 0, 0⟩
  stateReads := ∅
  contractStateReads := ∅

/-- To compare the result of the action itself with a truth value. -/
def equation : Expr := .list ["=", .list ["loop"], "True"]

/-- To call another action. -/
def callStop : Expr := .list ["not", .list ["stop"]]

theorem evaluated :
    ((input equation).module.verifyModule.isOk = true ∧
      ["A::loop", "A::loop", "A::loop"] ∈ (watchedProjection (input equation) "B" "loop" []).2 ∧
      (input equation).module.actions.size = 2) ∧
    (input callStop).module.verifyModule.isOk = true ∧
      (input callStop).module.KeyedActions ∧ (input callStop).module.ShowsCalls ∧
      (watchedProjection (input callStop) "B" "loop" []).2 =
        [["A::loop"], ["A::stop", "A::loop"]] := by
  decide

/-- The module is accepted, and the action is entered again until the budget is used up, with
    more actions on the stack than there are. -/
theorem actionStacks_not_nodup :
    ∃ closures, (input equation).module.verifyModule = .ok closures ∧
      ∃ stack ∈ (watchedProjection (input equation) "B" "loop" []).2,
        ¬stack.Nodup ∧ (input equation).module.actions.size < stack.length := by
  obtain ⟨hverify, hstack, hsize⟩ := evaluated.1
  obtain ⟨closures, hclosures⟩ := exists_of_isOk hverify
  exact ⟨closures, hclosures, _, hstack, by decide, by rw [hsize]; decide⟩

theorem actionStacks_nodup_stop :
    ∃ closures, (input callStop).module.verifyModule = .ok closures ∧
      (watchedProjection (input callStop) "B" "loop" []).2 =
        [["A::loop"], ["A::stop", "A::loop"]] ∧
      ∀ stack ∈ (watchedProjection (input callStop) "B" "loop" []).2,
        stack.Nodup ∧ stack.length ≤ (input callStop).module.actions.size := by
  obtain ⟨hverify, hkeyed, hshown, hentries⟩ := evaluated.2
  obtain ⟨closures, hclosures⟩ := exists_of_isOk hverify
  exact ⟨closures, hclosures, hentries, actionStacks_nodup hclosures hkeyed hshown "B" "loop" []⟩

/-- An action that calls itself. -/
theorem verifyActionCallGraph_exact_self :
    let graph := (input (.list ["loop"])).module.actionCallGraph
    (∃ key, Relation.TransGen (fun a b => b ∈ callees graph a) key key) ∧
      detectCycle (callees graph) (graph.size + 1 + 5) [] [] "A::loop" =
        detectCycle (callees graph) (graph.size + 1) [] [] "A::loop" := by
  obtain ⟨hexact, hends⟩ := verifyActionCallGraph_exact (input (.list ["loop"])).module
  exact ⟨hexact.1 ⟨.reentrantActionCycle "A::loop", by decide⟩,
    hends _ _ (fun _ _ _ _ => rfl) 5 _⟩

end Loop

end Detta
