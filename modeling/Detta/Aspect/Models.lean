import Detta.Aspect.Interp

/-!
# The evaluator and an interpretation

When is a fact about all evaluations true? Here is the only induction over the language:

* `Interp.Models` is a relation between evaluations and computations of an interpretation
  that the operations of the interpretation respect, one clause for each of them;
* `Interp.Models.evalTop`, `Interp.Models.restoring_evalProjection`: then the evaluator and the
  interpretation are related on every expression and on every projection;
* `EvalState.Stable`: with nothing on the other side, what the operations of the evaluator
  keep is kept by every evaluation.
-/

namespace Detta

/-! ## Relations that the operations respect -/

/-- An operation that has an answer. -/
def AspectHostOp.isRead : AspectHostOp → Bool
  | .stateGet _ _ | .contractStateGet _ _ _ => true
  | _ => false

namespace Eval

variable {α : Type}

/-- Leave the variables as they were. -/
def restoring (m : Eval α) : Eval α := do
  let s ← get
  let result ← m
  modify fun s' => { s' with bindings := s.bindings }
  pure result

theorem wp_restoring {m : Eval α} {Q : α → EvalState → Prop}
    {E : AspectEvalError → EvalState → Prop} {s : EvalState} :
    wp m.restoring Q E s ↔ wp m (fun a s' => Q a { s' with bindings := s.bindings }) E s := by
  simp only [restoring, wp_bind, wp_get]
  rfl

/-- Run something with more variables. -/
def inScope (scope : List (String × AspectValue)) (m : Eval α) : Eval α :=
  restoring do
    modify fun s => { s with bindings := s.bindings.insertMany scope }
    m

/-- What a read of the contract's own state returns. -/
def readState (input : EvalInput) (state : String) (key : List String) : Eval AspectValue := do
  push (.stateGet state key)
  pure ((input.stateReads[state :: key]?).getD (.amount 0))

/-- What a read of another contract's state returns. -/
def readContractState (input : EvalInput) (contract state : String) (key : List String) :
    Eval AspectValue := do
  push (.contractStateGet contract state key)
  pure ((input.contractStateReads[contract :: state :: key]?).getD (.amount 0))

end Eval

/-- The parameters of a signature are the variables that its atoms stand for. -/
abbrev Named : List String → List String → Prop :=
  List.Forall₂ fun name x => variableName name = some x

/-- A relation between evaluations and computations of an interpretation that every operation
    respects. -/
structure Interp.Models {M : Type → Type} [Monad M] (I : Interp M) (input : EvalInput)
    (R : ⦃α : Type⦄ → Eval α → M α → Prop) : Prop where
  pure {α : Type} (a : α) : R (Pure.pure a) (Pure.pure a)
  bind {α β : Type} {m : Eval α} {f : α → Eval β} {μ : M α} {ν : α → M β} (hm : R m μ)
    (hf : ∀ a, R (f a) (ν a)) : R (m >>= f) (μ >>= ν)
  throw {α : Type} (e : AspectEvalError) : R (MonadExcept.throw e : Eval α) I.fail
  found {α : Type} (o : Option α) (e : AspectEvalError) : R (okOr o e) (I.found o)
  assume (c : Prop) [Decidable c] (e : AspectEvalError) : R (ensure c e) (I.assume c)
  step : R (Eval.charge input.maxSteps) I.step
  ask {op : AspectHostOp} (h : op.isRead = false) : R (Eval.push op) (I.ask op)
  stateGet (state : String) (key : List String) :
    R (Eval.readState input state key) (I.stateGet state key)
  contractStateGet (contract state : String) (key : List String) :
    R (Eval.readContractState input contract state key) (I.contractStateGet contract state key)
  lookup {name x : String} (h : variableName name = some x) :
    R (do
      let s ← get
      okOr s.bindings[x]? (.unknownVariable x)) (I.lookup name)
  within {α : Type} {names params : List String} (h : Named names params)
    (args : List AspectValue) {m : Eval α} {μ : M α} (hm : R m μ) :
    R (Eval.inScope (params.zip args) m) (I.within (names.zip args) μ)

namespace Interp.Models

variable {M : Type → Type} [Monad M] {I : Interp M} {input : EvalInput}
  {R : ⦃α : Type⦄ → Eval α → M α → Prop} (hR : I.Models input R) {α : Type}

include hR

/-! ## Forms -/

omit [Monad M] hR in
theorem ite {c : Prop} [Decidable c] {m m' : Eval α} {μ μ' : M α} (h : R m μ) (h' : R m' μ') :
    R (if c then m else m') (if c then μ else μ') := by
  split
  · exact h
  · exact h'

/-- A value that is there under a condition. -/
theorem onCondition {c : Prop} [Decidable c] {e : AspectEvalError} {a : α} {m : Eval α}
    (h : m = ensure c e >>= fun _ => Pure.pure a) : R m (I.assume c >>= fun _ => Pure.pure a) := by
  rw [h]
  exact hR.bind (hR.assume c e) fun _ => hR.pure a

theorem intoAmount (v : AspectValue) : R v.intoAmount (I.amount v) :=
  hR.onCondition (e := .typeMismatch "amount" v) (by cases v <;> rfl)

theorem intoBool (v : AspectValue) : R v.intoBool (I.bool v) :=
  hR.onCondition (e := .typeMismatch "bool" v) (by cases v <;> rfl)

theorem intoAtom (v : AspectValue) : R v.intoAtom (I.text v) :=
  hR.onCondition (e := .typeMismatch "atom" v) (by cases v <;> rfl)

theorem keyPart (v : AspectValue) : R v.keyPart (I.key v) :=
  hR.onCondition (e := .typeMismatch "state key" .unit) (by cases v <;> rfl)

omit hR in
variable (R) in
/-- A part of a list on both sides. -/
structure Same (o : Operand) (p : Part M) : Prop where
  expr : o.expr = p.expr
  value : R o.value p.value
  event : R o.event p.event

section Forms

variable {items : List Operand} {parts : List (Part M)} (h : List.Forall₂ (Same R) items parts)

include h

omit [Monad M] hR in
theorem getElem? (index : ℕ) : Option.Rel (Same R) items[index]? parts[index]? := by
  induction h generalizing index with
  | nil => exact .none
  | cons ho _ ih =>
    cases index with
    | zero => exact .some ho
    | succ index => exact ih index

omit [Monad M] hR h in
theorem dropLast_getLast {o : Operand} {p : Part M} (ho : Same R o p)
    (hs : List.Forall₂ (Same R) items parts) :
    List.Forall₂ (Same R) (o :: items).dropLast (p :: parts).dropLast ∧
      Same R ((o :: items).getLast (List.cons_ne_nil o items))
        ((p :: parts).getLast (List.cons_ne_nil p parts)) := by
  induction hs generalizing o p with
  | nil => exact ⟨.nil, ho⟩
  | cons ho' _ ih =>
    obtain ⟨hd, hl⟩ := ih ho'
    exact ⟨.cons ho hd, hl⟩

theorem atomArg (index : ℕ) (name : String) :
    R (Eval.atomArg items index name) (I.atomArg parts index) := by
  unfold Eval.atomArg Interp.atomArg
  have hi := getElem? h index
  generalize items[index]? = o, parts[index]? = p at hi
  cases hi with
  | none => exact hR.throw _
  | @some o p ho =>
    obtain ⟨expr, _, _⟩ := o
    obtain ⟨expr', _, _⟩ := p
    obtain rfl : expr = expr' := ho.expr
    cases expr with
    | atom name => exact hR.pure name
    | list => exact hR.throw _

theorem values : R (Eval.values items) (Interp.values parts) := by
  induction h with
  | nil => exact hR.pure _
  | cons ho _ ih => exact hR.bind ho.value fun _ => hR.bind ih fun _ => hR.pure _

theorem keyParts : R (Eval.keyParts items) (I.keyParts parts) := by
  induction h with
  | nil => exact hR.pure _
  | cons ho _ ih =>
    exact hR.bind ho.value fun v => hR.bind (hR.keyPart v) fun _ => hR.bind ih fun _ => hR.pure _

theorem sources : R (Eval.sources items) (Interp.sources parts) := by
  induction h with
  | nil => exact hR.pure _
  | cons ho _ ih => exact hR.bind ho.value fun _ => hR.bind ih fun _ => hR.pure _

theorem sequence (result : AspectValue) :
    R (Eval.sequence result items) (Interp.sequence result parts) := by
  induction h generalizing result with
  | nil => exact hR.pure _
  | cons ho _ ih => exact hR.bind ho.value fun v => ih v

end Forms

section Values

variable {o : Operand} {p : Part M} (ho : Same R o p) {f : α → Eval AspectValue}

include ho

/-- Go on with a part that has to be an amount. -/
theorem amountOf {f : U128 → Eval α} {ν : U128 → M α} (hf : ∀ n, R (f n) (ν n)) :
    R (o.value >>= fun v => v.intoAmount >>= f) (p.value >>= fun v => I.amount v >>= ν) :=
  hR.bind ho.value fun v => hR.bind (hR.intoAmount v) hf

/-- Go on with a part that has to be a truth value. -/
theorem boolOf {f : Bool → Eval α} {ν : Bool → M α} (hf : ∀ b, R (f b) (ν b)) :
    R (o.value >>= fun v => v.intoBool >>= f) (p.value >>= fun v => I.bool v >>= ν) :=
  hR.bind ho.value fun v => hR.bind (hR.intoBool v) hf

/-- Go on with a part that has to be an atom. -/
theorem textOf {f : String → Eval α} {ν : String → M α} (hf : ∀ t, R (f t) (ν t)) :
    R (o.value >>= fun v => v.intoAtom >>= f) (p.value >>= fun v => I.text v >>= ν) :=
  hR.bind ho.value fun v => hR.bind (hR.intoAtom v) hf

end Values

/-- Ask for an operation, for nothing. -/
theorem asking {op : AspectHostOp} (h : op.isRead = false) :
    R (Eval.push op >>= fun _ => Pure.pure AspectValue.unit)
      (I.ask op >>= fun _ => Pure.pure AspectValue.unit) :=
  hR.bind (hR.ask h) fun _ => hR.pure _

section Forms

variable {items : List Operand} {parts : List (Part M)} (h : List.Forall₂ (Same R) items parts)

include h

theorem checkedBinaryAmount (operation : U128 → U128 → Option U128) :
    R (Eval.checkedBinaryAmount operation items) (I.checkedBinaryAmount operation parts) := by
  rcases h with _ | ⟨_, _ | ⟨hl, _ | ⟨hr, _ | _⟩⟩⟩
  case cons.cons.cons.nil =>
    exact hR.amountOf hl fun _ => hR.amountOf hr fun _ => hR.bind (hR.found _ _) fun _ => hR.pure _
  all_goals exact hR.throw _

theorem safeDiv : R (Eval.safeDiv items) (I.safeDiv parts) := by
  rcases h with _ | ⟨_, _ | ⟨hl, _ | ⟨hr, _ | _⟩⟩⟩
  case cons.cons.cons.nil =>
    exact hR.amountOf hl fun _ => hR.amountOf hr fun _ =>
      hR.bind (hR.assume _ _) fun _ => hR.pure _
  all_goals exact hR.throw _

theorem require : R (Eval.require items) (I.require parts) := by
  rcases h with _ | ⟨_, _ | ⟨hc, _ | ⟨_, _ | _⟩⟩⟩
  case cons.cons.cons.nil =>
    exact hR.boolOf hc fun _ => hR.bind (hR.assume _ _) fun _ => hR.pure _
  all_goals exact hR.throw _

theorem ifThenElse : R (Eval.ifThenElse items) (I.ifThenElse parts) := by
  rcases h with _ | ⟨_, _ | ⟨hc, _ | ⟨ht, _ | ⟨he, _ | _⟩⟩⟩⟩
  case cons.cons.cons.cons.nil => exact hR.boolOf hc fun _ => ite ht.value he.value
  all_goals exact hR.throw _

theorem begin : R (Eval.begin items) (I.begin parts) := by
  rcases h with _ | ⟨_, _ | ⟨ho, hs⟩⟩
  case cons.cons => exact hR.sequence (.cons ho hs) .unit
  all_goals exact hR.throw _

theorem and : R (Eval.and items) (I.and parts) := by
  rcases h with _ | ⟨_, _ | ⟨hl, _ | ⟨hr, _ | _⟩⟩⟩
  case cons.cons.cons.nil =>
    exact hR.boolOf hl fun _ => ite (hR.boolOf hr fun _ => hR.pure _) (hR.pure _)
  all_goals exact hR.throw _

theorem or : R (Eval.or items) (I.or parts) := by
  rcases h with _ | ⟨_, _ | ⟨hl, _ | ⟨hr, _ | _⟩⟩⟩
  case cons.cons.cons.nil =>
    exact hR.boolOf hl fun _ => ite (hR.pure _) (hR.boolOf hr fun _ => hR.pure _)
  all_goals exact hR.throw _

theorem not : R (Eval.not items) (I.not parts) := by
  rcases h with _ | ⟨_, _ | ⟨ho, _ | _⟩⟩
  case cons.cons.nil => exact hR.boolOf ho fun _ => hR.pure _
  all_goals exact hR.throw _

theorem eq : R (Eval.eq items) (I.eq parts) := by
  rcases h with _ | ⟨_, _ | ⟨hl, _ | ⟨hr, _ | _⟩⟩⟩
  case cons.cons.cons.nil =>
    exact hR.bind hl.value fun _ => hR.bind hr.value fun _ => hR.pure _
  all_goals exact hR.throw _

theorem cmp (operation : U128 → U128 → Bool) :
    R (Eval.cmp operation items) (I.cmp operation parts) := by
  rcases h with _ | ⟨_, _ | ⟨hl, _ | ⟨hr, _ | _⟩⟩⟩
  case cons.cons.cons.nil => exact hR.amountOf hl fun _ => hR.amountOf hr fun _ => hR.pure _
  all_goals exact hR.throw _

theorem stateGetForm : R (Eval.stateGet input items) (I.stateGetForm parts) :=
  hR.bind (hR.atomArg h _ _) fun _ => hR.bind (hR.keyParts (List.forall₂_drop 2 h)) fun _ =>
    hR.stateGet _ _

theorem contractStateGetForm :
    R (Eval.contractStateGet input items) (I.contractStateGetForm parts) := by
  rcases id h with _ | ⟨_, _ | ⟨hc, _ | ⟨_, hk⟩⟩⟩
  case cons.cons.cons =>
    exact hR.textOf hc fun _ => hR.bind (hR.atomArg h _ _) fun _ =>
      hR.bind (hR.keyParts hk) fun _ => hR.contractStateGet _ _ _
  all_goals exact hR.throw _

theorem stateSet : R (Eval.stateSet items) (I.stateSet parts) := by
  unfold Eval.stateSet Interp.stateSet
  have hd : List.Forall₂ (Same R) (items.drop 2) (parts.drop 2) := List.forall₂_drop 2 h
  generalize items.drop 2 = os, parts.drop 2 = ps at hd
  cases hd with
  | nil => exact hR.throw _
  | cons ho hs =>
    obtain ⟨hd, hl⟩ := dropLast_getLast ho hs
    exact hR.bind (hR.atomArg h _ _) fun _ => hR.bind (hR.keyParts hd) fun _ =>
      hR.bind hl.value fun _ => hR.asking rfl

theorem registryGet : R (Eval.registryGet items) (I.registryGet parts) :=
  hR.bind (hR.atomArg h _ _) fun _ => hR.asking rfl

theorem registryValue (name : String) {op : String → AspectValue → AspectHostOp}
    (hop : ∀ registry value, (op registry value).isRead = false) :
    R (Eval.registryValue name op items) (I.registryValue op parts) := by
  rcases id h with _ | ⟨_, _ | ⟨_, _ | ⟨hv, _ | _⟩⟩⟩
  case cons.cons.cons.nil =>
    exact hR.bind (hR.atomArg h _ _) fun _ => hR.bind hv.value fun _ => hR.asking (hop _ _)
  all_goals exact hR.throw _

theorem emit : R (Eval.emit items) (I.emit parts) := by
  rcases h with _ | ⟨_, _ | ⟨ho, _ | _⟩⟩
  case cons.cons.nil => exact hR.bind ho.event fun _ => hR.asking rfl
  all_goals exact hR.throw _

theorem callContract : R (Eval.callContract items) (I.callContract parts) := by
  rcases id h with _ | ⟨_, _ | ⟨hc, _ | ⟨_, hs⟩⟩⟩
  case cons.cons.cons =>
    exact hR.textOf hc fun _ => hR.bind (hR.atomArg h _ _) fun _ => hR.bind (hR.values hs) fun _ =>
      hR.asking rfl
  all_goals exact hR.throw _

theorem permitVerify : R (Eval.permitVerify items) (I.permitVerify parts) := by
  rcases h with _ | ⟨_, _ | ⟨ho, _ | ⟨hs, _ | ⟨ha, _ | ⟨hn, _ | ⟨hc, _ | _⟩⟩⟩⟩⟩⟩
  case cons.cons.cons.cons.cons.cons.nil =>
    exact hR.textOf ho fun _ => hR.textOf hs fun _ => hR.textOf ha fun _ => hR.amountOf hn fun _ =>
      hR.textOf hc fun _ => hR.asking rfl
  all_goals exact hR.throw _

theorem bridgeVerify : R (Eval.bridgeVerify items) (I.bridgeVerify parts) := by
  rcases h with _ | ⟨_, _ | ⟨hs, _ | ⟨hm, _ | ⟨hr, _ | ⟨ha, _ | ⟨hn, _ | ⟨hc, _ | _⟩⟩⟩⟩⟩⟩⟩
  case cons.cons.cons.cons.cons.cons.cons.nil =>
    exact hR.textOf hs fun _ => hR.textOf hm fun _ => hR.textOf hr fun _ => hR.textOf ha fun _ =>
      hR.amountOf hn fun _ => hR.textOf hc fun _ => hR.asking rfl
  all_goals exact hR.throw _

theorem crossShardOutboxAppend :
    R (Eval.crossShardOutboxAppend items) (I.crossShardOutboxAppend parts) := by
  rcases h with _ | ⟨_, _ | ⟨hd, _ | ⟨ht, _ | ⟨hm, _ | ⟨hr, _ | ⟨ha, _ | ⟨hn, _ | _⟩⟩⟩⟩⟩⟩⟩
  case cons.cons.cons.cons.cons.cons.cons.nil =>
    exact hR.textOf hd fun _ => hR.textOf ht fun _ => hR.textOf hm fun _ => hR.textOf hr fun _ =>
      hR.textOf ha fun _ => hR.amountOf hn fun _ => hR.asking rfl
  all_goals exact hR.throw _

variable {call : ActionCall} {call' : Call M}
  (hcall : ∀ aspect action args, R (call aspect action args) (call' aspect action args))

include hcall

theorem actionCall (name : String) :
    R (Eval.actionCall input call name items) (I.actionCall input.module call' name parts) := by
  have ht : List.Forall₂ (Same R) items.tail parts.tail :=
    List.drop_one ▸ List.drop_one ▸ List.forall₂_drop 1 h
  have hfound (o : Option ActionDef) (e : AspectEvalError) :
      R (okOr o e >>= fun action => Eval.values items.tail >>= fun args =>
          call action.aspect action.action args)
        (I.found o >>= fun action => Interp.values parts.tail >>= fun args =>
          call' action.aspect action.action args) :=
    hR.bind (hR.found o e) fun _ => hR.bind (hR.values ht) fun _ => hcall _ _ _
  unfold Eval.actionCall Interp.actionCall
  split
  next action hf =>
    have ha : input.module.actionNamed name = some action := by
      simp only [AspectModuleIr.actionNamed, hf]
    exact ha ▸ hfound (some action) .stepBudgetExceeded
  next hf =>
    have ha : input.module.actionNamed name = none := by
      unfold AspectModuleIr.actionNamed
      split
      · exact absurd ‹_› (hf _)
      · rfl
    exact ha ▸ hfound none _

theorem form (head : String) :
    R (Eval.form input call head items) (I.form input.module call' head parts) := by
  unfold Eval.form
  split
  · exact hR.checkedBinaryAmount h Word.checkedAdd
  · exact hR.checkedBinaryAmount h Word.checkedSub
  · exact hR.checkedBinaryAmount h Word.checkedMul
  · exact hR.safeDiv h
  · exact hR.require h
  · exact hR.ifThenElse h
  · exact hR.begin h
  · exact hR.and h
  · exact hR.or h
  · exact hR.not h
  · exact hR.eq h
  · exact hR.cmp h _
  · exact hR.cmp h _
  · exact hR.cmp h _
  · exact hR.cmp h _
  · exact hR.stateGetForm h
  · exact hR.contractStateGetForm h
  · exact hR.stateSet h
  · exact hR.registryGet h
  · exact hR.registryValue h _ fun _ _ => rfl
  · exact hR.registryValue h _ fun _ _ => rfl
  · exact hR.emit h
  · exact hR.callContract h
  · exact hR.permitVerify h
  · exact hR.bridgeVerify h
  · exact hR.crossShardOutboxAppend h
  · -- any other head is the name of an action, on both sides
    have ha : I.form input.module call' head parts =
        I.actionCall input.module call' head parts := by
      unfold Interp.form
      split <;> first | rfl | contradiction
    exact ha ▸ hR.actionCall h hcall head

end Forms

/-! ## Expressions -/

theorem atom (name : String) : R (Eval.atom input name) (I.atom input.context name) := by
  unfold Eval.atom Interp.atom
  cases hx : variableName name with
  | some x => exact hR.lookup hx
  | none =>
    dsimp only
    split
    case h_8 =>
      have hc : input.context.constant name =
          ((parseU128 name).map .amount).getD (.atom name) := by
        unfold AspectExecutionContext.constant
        split
        case h_8 => cases parseU128 name <;> rfl
        all_goals contradiction
      rw [hc]
      cases parseU128 name <;> exact hR.pure _
    all_goals exact hR.pure _

section Expressions

variable {call : ActionCall} {call' : Call M}
  (hcall : ∀ aspect action args, R (call aspect action args) (call' aspect action args))

include hcall

theorem list {items : List Expr} {os : List Operand} {ps : List (Part M)}
    (h : List.Forall₂ (Same R) os ps) :
    R (Eval.list input call items os) (I.list input.module call' items ps) := by
  refine hR.bind hR.step fun _ => ?_
  match items with
  | [] => exact hR.throw _
  | .list _ :: _ => exact hR.throw _
  | .atom head :: _ => exact hR.form h hcall head

omit hR hcall in
mutual

theorem operand (hR : I.Models input R)
    (hcall : ∀ aspect action args, R (call aspect action args) (call' aspect action args)) :
    ∀ e : Expr, Same R (Detta.operand input call e) (I.part input.module input.context call' e)
  | .atom name => by
    have hm : (Detta.operand input call (.atom name)).event =
        Eval.atom input name >>= fun v => Pure.pure v.source := map_eq_pure_bind _ _
    exact ⟨rfl, hR.atom name, hm ▸ hR.bind (hR.atom name) fun _ => hR.pure _⟩
  | .list items =>
    have hs := operands hR hcall items
    ⟨rfl, hR.list hcall hs, hR.bind (hR.sources hs) fun _ => hR.pure _⟩

theorem operands (hR : I.Models input R)
    (hcall : ∀ aspect action args, R (call aspect action args) (call' aspect action args)) :
    ∀ es : List Expr, List.Forall₂ (Same R) (Detta.operands input call es)
      (I.parts input.module input.context call' es)
  | [] => .nil
  | e :: es => .cons (operand hR hcall e) (operands hR hcall es)

end

theorem evalExpr (e : Expr) :
    R (Detta.evalExpr input call e) (I.expression input.module input.context call' e) :=
  (hR.operand hcall e).value

end Expressions

end Interp.Models

/-! ## Definitions -/

theorem named_of_signatureParams {signature : List Expr} {params : List String}
    (h : signatureParams signature = some params) :
    ∃ names, signatureAtoms signature = some names ∧ Named names params := by
  induction signature generalizing params with
  | nil =>
    cases h
    exact ⟨[], rfl, .nil⟩
  | cons e rest ih =>
    cases e with
    | list => cases h
    | atom name =>
      simp only [signatureParams, Option.bind_eq_bind, Option.bind_eq_some_iff, Option.pure_def,
        Option.some.injEq] at h
      obtain ⟨x, hx, params, hp, rfl⟩ := h
      obtain ⟨names, hn, hv⟩ := ih hp
      exact ⟨name :: names, by simp [signatureAtoms, hx, hn], .cons hx hv⟩

theorem signatureAtoms_eq_none {signature : List Expr} (h : signatureParams signature = none) :
    signatureAtoms signature = none := by
  induction signature with
  | nil => cases h
  | cons e rest ih =>
    cases e with
    | list => rfl
    | atom name =>
      simp only [signatureParams, signatureAtoms] at h ⊢
      cases hx : variableName name with
      | none => rfl
      | some x =>
        cases hp : signatureParams rest with
        | none => simp [ih hp]
        | some params => simp [hx, hp] at h

theorem bodyParts_cases (p : Option Expr → Bool) (body : Expr) :
    (definition? p body = none ∧ ∃ e, bodyParts p body = throw e) ∨
    ∃ names params rhs, definition? p body = some (names, rhs) ∧ Named names params ∧
      bodyParts p body = pure (params, rhs) := by
  unfold bodyParts
  split
  next signature rhs =>
    split
    next params hp hs =>
      obtain ⟨names, hn, hv⟩ := named_of_signatureParams hs
      exact .inr ⟨names, params, rhs, by simp [definition?, hp, hn], hv, rfl⟩
    next hno =>
      refine .inl ⟨?_, _, rfl⟩
      cases hp : p signature.head? with
      | false => simp [definition?, hp]
      | true =>
        cases hs : signatureParams signature.tail with
        | none => simp [definition?, hp, signatureAtoms_eq_none hs]
        | some params => exact absurd hs (hno params hp)
  next hno =>
    refine .inl ⟨?_, _, rfl⟩
    unfold definition?
    split
    · exact absurd rfl (hno _ _)
    · rfl

/-- A definition is applied to arguments, or evaluating it fails. -/
theorem applied_cases {α : Type} (p : Option Expr → Bool) (body : Expr) (args : List AspectValue)
    (f : List String → AspectEvalError) (k : List String × Expr → Eval α) :
    (applied? p body args = none ∧ ∃ e, (do
      let parts ← bodyParts p body
      ensure (parts.1.length = args.length) (f parts.1)
      k parts) = throw e) ∨
    ∃ names params rhs, applied? p body args = some (names.zip args, rhs) ∧ Named names params ∧
      (do
        let parts ← bodyParts p body
        ensure (parts.1.length = args.length) (f parts.1)
        k parts) = k (params, rhs) := by
  rcases bodyParts_cases p body with ⟨hd, e, hb⟩ | ⟨names, params, rhs, hd, hn, hb⟩
  · exact .inl ⟨by simp [applied?, hd], e, by rw [hb]; rfl⟩
  · rw [hb]
    by_cases hl : params.length = args.length
    · refine .inr ⟨names, params, rhs, by simp [applied?, hd, hn.length_eq, hl], hn, ?_⟩
      simp [ensure, hl]
    · refine .inl ⟨by simp [applied?, hd, hn.length_eq, hl], f params, ?_⟩
      simp only [pure_bind, ensure, hl, if_false]
      rfl

theorem executeNamedAction_cases (input : EvalInput) (depth : ℕ) (aspect action : String)
    (args : List AspectValue) :
    (input.module.actionApplied? aspect action args = none ∧
      ∃ e, executeNamedAction input (depth + 1) aspect action args = throw e) ∨
    ∃ names params rhs,
      input.module.actionApplied? aspect action args = some (names.zip args, rhs) ∧
      Named names params ∧ executeNamedAction input (depth + 1) aspect action args =
        Eval.inScope (params.zip args) (evalExpr input (executeNamedAction input depth) rhs) := by
  unfold executeNamedAction AspectModuleIr.actionApplied?
  cases hd : input.module.actions[qualified aspect action]? with
  | none => exact .inl ⟨rfl, _, rfl⟩
  | some definition =>
    cases hb : definition.body with
    | none => exact .inl ⟨by simp [hb], _, by simp only [okOr, pure_bind, hb]; rfl⟩
    | some body =>
      simp only [okOr, pure_bind, hb, Option.bind_eq_bind, Option.bind_some]
      exact applied_cases (headIs action) body args
        (fun params => .invalidActionBody ("expected " ++ toString params.length ++ " args for " ++
          action ++ ", got " ++ toString args.length)) fun parts =>
        Eval.inScope (parts.1.zip args) (evalExpr input (executeNamedAction input depth) parts.2)

/-- A projection, up to the variables that it leaves behind. -/
theorem evalProjection_cases (input : EvalInput) (bundle projection : String)
    (args : List AspectValue) :
    (input.module.projectionApplied? bundle projection args = none ∧
      ∃ e, evalProjection input bundle projection args = throw e) ∨
    ∃ names params rhs,
      input.module.projectionApplied? bundle projection args = some (names.zip args, rhs) ∧
      Named names params ∧ (evalProjection input bundle projection args).restoring =
        Eval.inScope (params.zip args) (evalTop input rhs) := by
  unfold evalProjection AspectModuleIr.projectionApplied?
  cases hd : input.module.projections[qualified bundle projection]? with
  | none => exact .inl ⟨rfl, _, rfl⟩
  | some definition =>
    simp only [okOr, pure_bind, Option.bind_eq_bind, Option.bind_some]
    rcases applied_cases (fun _ => true) definition.expr args
      (fun params => .invalidActionBody ("expected " ++ toString params.length ++
        " args for projection " ++ projection ++ ", got " ++ toString args.length)) fun parts => do
      modify fun s : EvalState => { s with bindings := s.bindings.insertMany (parts.1.zip args) }
      evalTop input parts.2 with h | ⟨names, params, rhs, ha, hn, he⟩
    · exact .inl h
    · exact .inr ⟨names, params, rhs, ha, hn, congrArg Eval.restoring he⟩

namespace Interp.Models

variable {M : Type → Type} [Monad M] {I : Interp M} {input : EvalInput}
  {R : ⦃α : Type⦄ → Eval α → M α → Prop} (hR : I.Models input R)

include hR

theorem executeNamedAction (depth : ℕ) (aspect action : String) (args : List AspectValue) :
    R (Detta.executeNamedAction input depth aspect action args)
      (I.action input.module input.context depth aspect action args) := by
  induction depth generalizing aspect action args with
  | zero => exact hR.throw _
  | succ depth ih =>
    unfold Interp.action
    rcases executeNamedAction_cases input depth aspect action args with
      ⟨ha, e, he⟩ | ⟨names, params, rhs, ha, hn, he⟩
    · rw [ha, he]
      exact hR.throw e
    · rw [ha, he]
      exact hR.within hn args (hR.evalExpr ih rhs)

theorem evalTop (e : Expr) : R (Detta.evalTop input e) (I.top input.module input.context e) :=
  hR.evalExpr (hR.executeNamedAction maxStackDepth) e

theorem restoring_evalProjection (bundle projection : String) (args : List AspectValue) :
    R (evalProjection input bundle projection args).restoring
      (I.projection input.module input.context bundle projection args) := by
  unfold Interp.projection
  rcases evalProjection_cases input bundle projection args with
    ⟨ha, e, he⟩ | ⟨names, params, rhs, ha, hn, he⟩
  · rw [ha, he]
    exact hR.throw e
  · rw [ha, he]
    exact hR.within hn args (hR.evalTop rhs)

end Interp.Models

/-! ## Variables -/

/-- The values of the variables in scope, under the atoms that stand for them. -/
abbrev Variables := String → Option AspectValue

/-- More variables, of which a later one hides an earlier one of the same name. -/
def Variables.bind (ρ : Variables) : List (String × AspectValue) → Variables
  | [] => ρ
  | (x, v) :: rest => Variables.bind (fun y => if y = x then some v else ρ y) rest

/-- The variables of the evaluator are the given ones. -/
def EvalState.Has (s : EvalState) (ρ : Variables) : Prop :=
  ∀ name x, variableName name = some x → s.bindings[x]? = ρ name

/-- Different atoms stand for different variables. -/
theorem variableName_inj {a b x : String} (ha : variableName a = some x)
    (hb : variableName b = some x) : a = b := by
  have htoList {c : String} (hc : variableName c = some x) : c.toList = '$' :: x.toList := by
    unfold variableName at hc
    split at hc
    next rest hr =>
      cases hc
      simp [hr]
    next => cases hc
  exact String.toList_inj.1 ((htoList ha).trans (htoList hb).symm)

theorem EvalState.Has.bind {s : EvalState} {ρ : Variables} (h : s.Has ρ)
    {names params : List String} (hv : Named names params) (args : List AspectValue) :
    EvalState.Has { s with bindings := s.bindings.insertMany (params.zip args) }
      (ρ.bind (names.zip args)) := by
  induction hv generalizing s ρ args with
  | nil => simpa [Variables.bind] using h
  | @cons name x names params hx _ ih =>
    cases args with
    | nil => simpa [Variables.bind] using h
    | cons v args =>
      have hins : EvalState.Has { s with bindings := s.bindings.insert x v }
          (fun y => if y = name then some v else ρ y) := by
        intro name' x' hx'
        by_cases hn : name' = name
        · subst hn
          cases hx.symm.trans hx'
          simp
        · have hne : x ≠ x' := fun he => hn (variableName_inj hx' (he ▸ hx))
          simp [Std.ExtTreeMap.getElem?_insert, hn, hne, h name' x' hx']
      simpa [Variables.bind, Std.ExtTreeMap.insertMany_cons] using ih hins args

/-! ## Invariants of evaluations -/

/-- The interpretation that does nothing. -/
def Idle (_ : Type) : Type := Unit

instance : Monad Idle where
  pure _ := ()
  bind _ _ := ()

def Interp.idle : Interp Idle where
  fail := ()
  found _ := ()
  assume _ := ()
  step := ()
  ask _ := ()
  stateGet _ _ := ()
  contractStateGet _ _ _ := ()
  lookup _ := ()
  within _ _ := ()

/-- What the operations of the evaluator keep. -/
structure EvalState.Stable (input : EvalInput) (P : EvalState → Prop) : Prop where
  push : ∀ s op, P s → P { s with trace := s.trace ++ [op] }
  charge : ∀ s, P s → s.stepsUsed < input.maxSteps.val → P { s with stepsUsed := s.stepsUsed + 1 }
  bindings : ∀ s bindings, P s → P { s with bindings := bindings }

namespace EvalState.Stable

variable {input : EvalInput} {P : EvalState → Prop} (hP : Stable input P)

include hP

theorem models : Interp.idle.Models input fun _ m _ => Keeps P (fun _ => P) m where
  pure := Keeps.pure
  bind := Keeps.bind
  throw _ := Keeps.same
  found _ _ := Keeps.same
  assume _ _ _ := Keeps.same
  step := fun s h => by
    simp only [Eval.charge, wp_bind, wp_get, wp_ensure, wp_modify]
    exact ⟨fun hl => hP.charge s h hl, fun _ => h⟩
  ask _ := Keeps.update fun s => hP.push s _
  stateGet _ _ := Keeps.bind (Keeps.update fun s => hP.push s _) fun _ => Keeps.pure _
  contractStateGet _ _ _ := Keeps.bind (Keeps.update fun s => hP.push s _) fun _ => Keeps.pure _
  lookup _ := Keeps.bind Keeps.same fun _ => Keeps.same
  within _ _ _ _ hm := Keeps.bind Keeps.same fun _ =>
    Keeps.bind (Keeps.bind (Keeps.update fun s => hP.bindings s _) fun _ => hm) fun _ =>
      Keeps.bind (Keeps.update fun s => hP.bindings s _) fun _ => Keeps.pure _

theorem evalTop (e : Expr) : Keeps P (fun _ => P) (Detta.evalTop input e) := hP.models.evalTop e

theorem evalProjection (bundle projection : String) (args : List AspectValue) :
    Keeps P (fun _ => P) (Detta.evalProjection input bundle projection args) := fun s h => by
  have hw := hP.models.restoring_evalProjection bundle projection args s h
  rw [Eval.wp_restoring] at hw
  exact hw.mono (fun _ s' h' => hP.bindings { s' with bindings := s.bindings } s'.bindings h')
    fun _ _ h' => h'

end EvalState.Stable

end Detta
