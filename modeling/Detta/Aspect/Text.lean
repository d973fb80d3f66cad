import Detta.Aspect.Models

/-!
# What a text asks for

The operations and the calls of an evaluation can be read off the text of the expression:
each comes from a list expression in it, at whose head the form or the action is named.

* `Issues` says which operations a list expression may ask for;
* `Interp.Closed` are properties of computations that the operations of an interpretation
  respect, where only some of the operations of the kernel may be asked for;
* `Interp.Closed.expression`: an expression has such a property if what its list expressions
  ask for and call is allowed.
-/

namespace Detta

/-! ## List expressions -/

/-- The atom at the head of a list expression. -/
def headAtom? : List Expr → Option String
  | .atom head :: _ => some head
  | _ => none

mutual

/-- A property of all list expressions in an expression that have an atom at their head. -/
def Expr.All (p : String → List Expr → Prop) : Expr → Prop
  | .atom _ => True
  | .list items => (∀ head ∈ headAtom? items, p head items) ∧ Expr.AllIn p items

def Expr.AllIn (p : String → List Expr → Prop) : List Expr → Prop
  | [] => True
  | e :: es => e.All p ∧ Expr.AllIn p es

end

mutual

variable {p q : String → List Expr → Prop}

theorem Expr.All.mono (h : ∀ head items, p head items →
    q head items) : ∀ {e : Expr}, e.All p → e.All q
  | .atom _, _ => trivial
  | .list _, he => ⟨fun head hh => h head _ (he.1 head hh), Expr.AllIn.mono h he.2⟩

theorem Expr.AllIn.mono (h : ∀ head items, p head items →
    q head items) : ∀ {es : List Expr}, Expr.AllIn p es → Expr.AllIn q es
  | [], _ => trivial
  | _ :: _, hes => ⟨Expr.All.mono h hes.1, Expr.AllIn.mono h hes.2⟩

end

mutual

theorem Expr.all_of_forall {p : String → List Expr → Prop} (h : ∀ head items, p head items) :
    ∀ e : Expr, e.All p
  | .atom _ => trivial
  | .list items => ⟨fun head _ => h head items, Expr.allIn_of_forall h items⟩

theorem Expr.allIn_of_forall {p : String → List Expr → Prop} (h : ∀ head items, p head items) :
    ∀ es : List Expr, Expr.AllIn p es
  | [] => trivial
  | e :: es => ⟨Expr.all_of_forall h e, Expr.allIn_of_forall h es⟩

end

mutual

instance Expr.decidableAll (p : String → List Expr → Prop) [∀ head items, Decidable (p head items)] :
    ∀ e : Expr, Decidable (e.All p)
  | .atom _ => .isTrue trivial
  | .list items =>
    have := Expr.decidableAllIn p items
    inferInstanceAs (Decidable ((∀ head ∈ headAtom? items, p head items) ∧ Expr.AllIn p items))

instance Expr.decidableAllIn (p : String → List Expr → Prop)
    [∀ head items, Decidable (p head items)] : ∀ es : List Expr, Decidable (Expr.AllIn p es)
  | [] => .isTrue trivial
  | e :: es =>
    have := Expr.decidableAll p e
    have := Expr.decidableAllIn p es
    inferInstanceAs (Decidable (e.All p ∧ Expr.AllIn p es))

end

/-! ## Operations -/

/-- The values that an expression may have: an atom that is no variable has one. -/
def Expr.MayBe (context : AspectExecutionContext) : Expr → AspectValue → Prop
  | .atom name, v => variableName name = none → v = context.constant name
  | .list _, _ => True

/-- The operations that a list expression may ask for, by its head and its items. -/
def Issues (context : AspectExecutionContext) (head : String) (items : List Expr) :
    AspectHostOp → Prop
  | .stateGet state _ => head = "state-get" ∧ items[1]? = some (.atom state)
  | .contractStateGet _ state _ => head = "contract-state-get" ∧ items[2]? = some (.atom state)
  | .stateSet state _ _ => head = "state-set!" ∧ items[1]? = some (.atom state)
  | .registryGet registry => head = "registry-get" ∧ items[1]? = some (.atom registry)
  | .registrySet registry _ => head = "registry-set!" ∧ items[1]? = some (.atom registry)
  | .registryConsume registry _ => head = "registry-consume!" ∧ items[1]? = some (.atom registry)
  | .emit _ => head = "emit!"
  | .callContract contract method _ => head = "call-contract!" ∧
    (∃ target, items[1]? = some target ∧ target.MayBe context (.atom contract)) ∧
    items[2]? = some (.atom method)
  | .permitVerify _ _ _ _ _ => head = "permit-verify!"
  | .bridgeVerify _ _ _ _ _ _ => head = "bridge-verify!"
  | .crossShardOutboxAppend _ _ _ _ _ _ => head = "cross-shard-outbox-append!"

/-- The forms of the language: heads that are not looked up among the actions. -/
def builtinForms : List String :=
  ["safe-add", "safe-sub", "safe-mul", "safe-div", "require", "if", "begin", "and", "or", "not",
    "=", "<", "<=", ">", ">=", "state-get", "contract-state-get", "state-set!", "registry-get",
    "registry-set!", "registry-consume!", "emit!", "call-contract!", "permit-verify!",
    "bridge-verify!", "cross-shard-outbox-append!"]

/-- The forms that ask the kernel for something. -/
def hostForms : List String :=
  ["state-get", "contract-state-get", "state-set!", "registry-get", "registry-set!",
    "registry-consume!", "emit!", "call-contract!", "permit-verify!", "bridge-verify!",
    "cross-shard-outbox-append!"]

theorem eq_of_applied? {p : Option Expr → Bool} {body : Expr} {args : List AspectValue}
    {scope : List (String × AspectValue)} {rhs : Expr} (h : applied? p body args = some (scope, rhs)) :
    ∃ signature, body = .list [.atom "=", .list signature, rhs] ∧ p signature.head? = true := by
  unfold applied? definition? at h
  split at h
  next signature rhs' =>
    simp only [Option.bind_eq_bind, Option.bind_eq_some_iff, Option.guard_eq_some'] at h
    obtain ⟨⟨params, rhs''⟩, ⟨_, hp, names, -, hr⟩, _, -, h⟩ := h
    cases hr
    cases h
    exact ⟨signature, rfl, hp⟩
  next => cases h

/-- An action that is named is the only one of that name. -/
theorem AspectModuleIr.of_actionNamed {ir : AspectModuleIr} {name : String} {action : ActionDef}
    (h : ir.actionNamed name = some action) : action ∈ ir.actions.values ∧ action.action = name ∧
      ∀ other ∈ ir.actions.values, other.action = name → other = action := by
  unfold actionNamed at h
  split at h
  next action' hf =>
    cases h
    have hmem {a : ActionDef} : a ∈ ir.actions.values ∧ a.action = name ↔ a = action := by
      have h : a ∈ ir.actions.values.filter (fun action => action.action == name) ↔
          a ∈ [action] := by rw [hf]
      simpa using h
    obtain ⟨hv, hn⟩ := hmem.2 rfl
    exact ⟨hv, hn, fun other ho hn => hmem.1 ⟨ho, hn⟩⟩
  next => cases h

/-! ## Properties that the operations respect -/

/-- A property of computations that every operation respects, if only allowed operations of
    the kernel are asked for. -/
structure Interp.Closed {M : Type → Type} [Monad M] (I : Interp M)
    (allowed : AspectHostOp → Prop) (S : ⦃α : Type⦄ → M α → Prop) : Prop where
  pure {α : Type} (a : α) : S (Pure.pure a)
  bind {α β : Type} {μ : M α} {ν : α → M β} (hμ : S μ) (hν : ∀ a, S (ν a)) : S (μ >>= ν)
  fail {α β : Type} (ν : α → M β) : S (I.fail >>= ν)
  assume {β : Type} {c : Prop} [Decidable c] {ν : Unit → M β} (h : c → S (ν ())) :
    S (I.assume c >>= ν)
  found {α β : Type} {o : Option α} {ν : α → M β} (h : ∀ a, o = some a → S (ν a)) :
    S (I.found o >>= ν)
  step : S I.step
  ask {op : AspectHostOp} (h : allowed op) : S (I.ask op)
  stateGet {state : String} {key : List String} (h : allowed (.stateGet state key)) :
    S (I.stateGet state key)
  contractStateGet {contract state : String} {key : List String}
    (h : allowed (.contractStateGet contract state key)) :
    S (I.contractStateGet contract state key)
  lookup (name : String) : S (I.lookup name)
  within {α : Type} (scope : List (String × AspectValue)) {μ : M α} (h : S μ) :
    S (I.within scope μ)

namespace Interp.Closed

variable {M : Type → Type} [Monad M] [LawfulMonad M] {I : Interp M}
  {allowed : AspectHostOp → Prop} {S : ⦃α : Type⦄ → M α → Prop} (hS : I.Closed allowed S)
  {α : Type}

include hS

theorem failed : S (I.fail : M α) := by
  rw [← bind_pure (I.fail : M α)]
  exact hS.fail _

section Values

variable {v : AspectValue}

theorem amount {ν : U128 → M α} (h : ∀ n, S (ν n)) : S (I.amount v >>= ν) := by
  simp only [Interp.amount, bind_assoc, pure_bind]
  exact hS.assume fun _ => h _

theorem bool {ν : Bool → M α} (h : ∀ b, S (ν b)) : S (I.bool v >>= ν) := by
  simp only [Interp.bool, bind_assoc, pure_bind]
  exact hS.assume fun _ => h _

theorem text {ν : String → M α} (h : ∀ t, v = .atom t → S (ν t)) : S (I.text v >>= ν) := by
  simp only [Interp.text, bind_assoc, pure_bind]
  refine hS.assume fun ha => h _ ?_
  cases v <;> first | rfl | cases ha

theorem key {ν : String → M α} (h : ∀ t, S (ν t)) : S (I.key v >>= ν) := by
  simp only [Interp.key, bind_assoc, pure_bind]
  exact hS.assume fun _ => h _

end Values

omit [LawfulMonad M] hS in
variable (S) in
/-- A part of a list that may be used wherever its values may. -/
structure Safe (context : AspectExecutionContext) (p : Part M) : Prop where
  value {β : Type} {ν : AspectValue → M β} (h : ∀ v, p.expr.MayBe context v → S (ν v)) :
    S (p.value >>= ν)
  event : S p.event

section Forms

variable {context : AspectExecutionContext} {parts : List (Part M)}
  (h : ∀ p ∈ parts, Safe S context p)

omit hS in
theorem Safe.result {p : Part M} (hp : Safe S context p)
    (hpure : ∀ v : AspectValue, S (Pure.pure v : M AspectValue)) :
    S p.value := by
  rw [← bind_pure p.value]
  exact hp.value fun v _ => hpure v

theorem atomArg (index : ℕ) {ν : String → M α}
    (hν : ∀ name, (parts[index]?).map Part.expr = some (.atom name) → S (ν name)) :
    S (I.atomArg parts index >>= ν) := by
  unfold Interp.atomArg
  split
  next name _ _ hp =>
    rw [pure_bind]
    exact hν name (by rw [hp]; rfl)
  next => exact hS.fail ν

include h

omit [LawfulMonad M] in
theorem values : S (Interp.values parts) := by
  induction parts with
  | nil => exact hS.pure _
  | cons p parts ih =>
    obtain ⟨hp, hs⟩ := List.forall_mem_cons.1 h
    exact hp.value fun _ _ => hS.bind (ih hs) fun _ => hS.pure _

theorem keyParts : S (I.keyParts parts) := by
  induction parts with
  | nil => exact hS.pure _
  | cons p parts ih =>
    obtain ⟨hp, hs⟩ := List.forall_mem_cons.1 h
    exact hp.value fun _ _ => hS.key fun _ => hS.bind (ih hs) fun _ => hS.pure _

omit [LawfulMonad M] in
theorem sources : S (Interp.sources parts) := by
  induction parts with
  | nil => exact hS.pure _
  | cons p parts ih =>
    obtain ⟨hp, hs⟩ := List.forall_mem_cons.1 h
    exact hp.value fun _ _ => hS.bind (ih hs) fun _ => hS.pure _

omit [LawfulMonad M] in
theorem sequence (result : AspectValue) : S (Interp.sequence result parts) := by
  induction parts generalizing result with
  | nil => exact hS.pure _
  | cons p parts ih =>
    obtain ⟨hp, hs⟩ := List.forall_mem_cons.1 h
    exact hp.value fun v _ => ih hs v

end Forms

omit [LawfulMonad M] in
/-- Ask for an operation, for nothing. -/
theorem asking {op : AspectHostOp} (h : allowed op) :
    S (I.ask op >>= fun _ => Pure.pure AspectValue.unit) :=
  hS.bind (hS.ask h) fun _ => hS.pure _

section Forms

variable {context : AspectExecutionContext} {parts : List (Part M)}
  (h : ∀ p ∈ parts, Safe S context p)

include h

theorem checkedBinaryAmount (operation : U128 → U128 → Option U128) :
    S (I.checkedBinaryAmount operation parts) := by
  unfold Interp.checkedBinaryAmount
  split
  next _ l r =>
    exact (h l (by simp)).value fun _ _ => hS.amount fun _ => (h r (by simp)).value fun _ _ =>
      hS.amount fun _ => hS.found fun _ _ => hS.pure _
  next => exact hS.failed

theorem safeDiv : S (I.safeDiv parts) := by
  unfold Interp.safeDiv
  split
  next _ l r =>
    exact (h l (by simp)).value fun _ _ => hS.amount fun _ => (h r (by simp)).value fun _ _ =>
      hS.amount fun _ => hS.assume fun _ => hS.pure _
  next => exact hS.failed

theorem require : S (I.require parts) := by
  unfold Interp.require
  split
  next _ c _ =>
    exact (h c (by simp)).value fun _ _ => hS.bool fun _ => hS.assume fun _ => hS.pure _
  next => exact hS.failed

theorem ifThenElse : S (I.ifThenElse parts) := by
  unfold Interp.ifThenElse
  split
  next _ c t e =>
    refine (h c (by simp)).value fun _ _ => hS.bool fun condition => ?_
    cases condition
    · exact (h e (by simp)).result fun v => hS.pure v
    · exact (h t (by simp)).result fun v => hS.pure v
  next => exact hS.failed

theorem begin : S (I.begin parts) := by
  unfold Interp.begin
  split
  next => exact hS.sequence (fun p hp => h p (List.mem_cons_of_mem _ hp)) .unit
  next => exact hS.failed

theorem and : S (I.and parts) := by
  unfold Interp.and
  split
  next _ l r =>
    refine (h l (by simp)).value fun _ _ => hS.bool fun left => ?_
    cases left
    · exact hS.pure _
    · exact (h r (by simp)).value fun _ _ => hS.bool fun _ => hS.pure _
  next => exact hS.failed

theorem or : S (I.or parts) := by
  unfold Interp.or
  split
  next _ l r =>
    refine (h l (by simp)).value fun _ _ => hS.bool fun left => ?_
    cases left
    · exact (h r (by simp)).value fun _ _ => hS.bool fun _ => hS.pure _
    · exact hS.pure _
  next => exact hS.failed

theorem not : S (I.not parts) := by
  unfold Interp.not
  split
  next _ o => exact (h o (by simp)).value fun _ _ => hS.bool fun _ => hS.pure _
  next => exact hS.failed

theorem eq : S (I.eq parts) := by
  unfold Interp.eq
  split
  next _ l r =>
    exact (h l (by simp)).value fun _ _ => (h r (by simp)).value fun _ _ => hS.pure _
  next => exact hS.failed

theorem cmp (operation : U128 → U128 → Bool) : S (I.cmp operation parts) := by
  unfold Interp.cmp
  split
  next _ l r =>
    exact (h l (by simp)).value fun _ _ => hS.amount fun _ => (h r (by simp)).value fun _ _ =>
      hS.amount fun _ => hS.pure _
  next => exact hS.failed

/-! ## Forms that ask for something -/

variable {head : String}
  (hop : ∀ op, Issues context head (parts.map Part.expr) op → allowed op)

include hop

theorem stateGetForm (hh : head = "state-get") : S (I.stateGetForm parts) :=
  hS.atomArg 1 fun _ hs => hS.bind (hS.keyParts fun p hp => h p (List.mem_of_mem_drop hp)) fun _ =>
    hS.stateGet (hop (.stateGet _ _) ⟨hh, by rwa [List.getElem?_map]⟩)

theorem contractStateGetForm (hh : head = "contract-state-get") :
    S (I.contractStateGetForm parts) := by
  unfold Interp.contractStateGetForm
  split
  next _ c _ keys =>
    refine (h c (by simp)).value fun _ _ => hS.text fun _ _ => hS.atomArg 2 fun _ hs => ?_
    refine hS.bind (hS.keyParts fun p hp => h p (by simp [hp])) fun _ => ?_
    exact hS.contractStateGet (hop (.contractStateGet _ _ _) ⟨hh, by rwa [List.getElem?_map]⟩)
  next => exact hS.failed

theorem stateSet (hh : head = "state-set!") : S (I.stateSet parts) := by
  unfold Interp.stateSet
  split
  next => exact hS.failed
  next o os hd =>
    have hs : ∀ p ∈ o :: os, Safe S context p := fun p hp =>
      h p (List.mem_of_mem_drop (hd ▸ hp))
    refine hS.atomArg 1 fun _ hstate => ?_
    refine hS.bind (hS.keyParts fun p hp => hs p (List.mem_of_mem_dropLast hp)) fun _ => ?_
    refine (hs _ (List.getLast_mem _)).value fun _ _ => hS.asking ?_
    exact hop (.stateSet _ _ _) ⟨hh, by rwa [List.getElem?_map]⟩

omit h in
theorem registryGet (hh : head = "registry-get") : S (I.registryGet parts) :=
  hS.atomArg 1 fun _ hr =>
    hS.asking (hop (.registryGet _) ⟨hh, by rwa [List.getElem?_map]⟩)

omit hop in
theorem registryValue {op : String → AspectValue → AspectHostOp}
    (hop : ∀ registry value, (parts.map Part.expr)[1]? = some (.atom registry) →
      allowed (op registry value)) : S (I.registryValue op parts) := by
  unfold Interp.registryValue
  split
  next _ _ v =>
    refine hS.atomArg 1 fun _ hr => (h v (by simp)).value fun _ _ => hS.asking ?_
    exact hop _ _ (by rwa [List.getElem?_map])
  next => exact hS.failed

theorem emit (hh : head = "emit!") : S (I.emit parts) := by
  unfold Interp.emit
  split
  next _ o => exact hS.bind (h o (by simp)).event fun _ => hS.asking (hop (.emit _) hh)
  next => exact hS.failed

theorem callContract (hh : head = "call-contract!") : S (I.callContract parts) := by
  unfold Interp.callContract
  split
  next _ c _ rest =>
    refine (h c (by simp)).value fun _ hv => hS.text fun _ ht => hS.atomArg 2 fun _ hm => ?_
    refine hS.bind (hS.values fun p hp => h p (by simp [hp])) fun _ => hS.asking ?_
    exact hop (.callContract _ _ _) ⟨hh, ⟨c.expr, rfl, ht ▸ hv⟩, by rwa [List.getElem?_map]⟩
  next => exact hS.failed

theorem permitVerify (hh : head = "permit-verify!") : S (I.permitVerify parts) := by
  unfold Interp.permitVerify
  split
  next _ o s a n c =>
    exact (h o (by simp)).value fun _ _ => hS.text fun _ _ => (h s (by simp)).value fun _ _ =>
      hS.text fun _ _ => (h a (by simp)).value fun _ _ => hS.text fun _ _ =>
      (h n (by simp)).value fun _ _ => hS.amount fun _ => (h c (by simp)).value fun _ _ =>
      hS.text fun _ _ => hS.asking (hop (.permitVerify _ _ _ _ _) hh)
  next => exact hS.failed

theorem bridgeVerify (hh : head = "bridge-verify!") : S (I.bridgeVerify parts) := by
  unfold Interp.bridgeVerify
  split
  next _ s m r a n c =>
    exact (h s (by simp)).value fun _ _ => hS.text fun _ _ => (h m (by simp)).value fun _ _ =>
      hS.text fun _ _ => (h r (by simp)).value fun _ _ => hS.text fun _ _ =>
      (h a (by simp)).value fun _ _ => hS.text fun _ _ => (h n (by simp)).value fun _ _ =>
      hS.amount fun _ => (h c (by simp)).value fun _ _ => hS.text fun _ _ =>
      hS.asking (hop (.bridgeVerify _ _ _ _ _ _) hh)
  next => exact hS.failed

theorem crossShardOutboxAppend (hh : head = "cross-shard-outbox-append!") :
    S (I.crossShardOutboxAppend parts) := by
  unfold Interp.crossShardOutboxAppend
  split
  next _ d t m r a n =>
    exact (h d (by simp)).value fun _ _ => hS.text fun _ _ => (h t (by simp)).value fun _ _ =>
      hS.text fun _ _ => (h m (by simp)).value fun _ _ => hS.text fun _ _ =>
      (h r (by simp)).value fun _ _ => hS.text fun _ _ => (h a (by simp)).value fun _ _ =>
      hS.text fun _ _ => (h n (by simp)).value fun _ _ => hS.amount fun _ =>
      hS.asking (hop (.crossShardOutboxAppend _ _ _ _ _ _) hh)
  next => exact hS.failed

variable {ir : AspectModuleIr} {call : Call M}
  (hcall : head ∉ builtinForms → ∀ action, ir.actionNamed head = some action →
    ∀ args, S (call action.aspect action.action args))

include hcall

theorem form : S (I.form ir call head parts) := by
  unfold Interp.form
  split
  · exact hS.checkedBinaryAmount h _
  · exact hS.checkedBinaryAmount h _
  · exact hS.checkedBinaryAmount h _
  · exact hS.safeDiv h
  · exact hS.require h
  · exact hS.ifThenElse h
  · exact hS.begin h
  · exact hS.and h
  · exact hS.or h
  · exact hS.not h
  · exact hS.eq h
  · exact hS.cmp h _
  · exact hS.cmp h _
  · exact hS.cmp h _
  · exact hS.cmp h _
  · exact hS.stateGetForm h hop rfl
  · exact hS.contractStateGetForm h hop rfl
  · exact hS.stateSet h hop rfl
  · exact hS.registryGet hop rfl
  · exact hS.registryValue h fun _ _ hr => hop (.registrySet _ _) ⟨rfl, hr⟩
  · exact hS.registryValue h fun _ _ hr => hop (.registryConsume _ _) ⟨rfl, hr⟩
  · exact hS.emit h hop rfl
  · exact hS.callContract h hop rfl
  · exact hS.permitVerify h hop rfl
  · exact hS.bridgeVerify h hop rfl
  · exact hS.crossShardOutboxAppend h hop rfl
  · -- any other head is the name of an action
    refine hS.found fun action ha => ?_
    refine hS.bind (hS.values fun p hp => h p (List.mem_of_mem_tail hp)) fun args => ?_
    refine hcall ?_ action ha args
    simp only [builtinForms, List.mem_cons, List.not_mem_nil, or_false, not_or]
    repeat' constructor
    all_goals assumption

end Forms

/-! ## Expressions -/

section Expressions

variable {ir : AspectModuleIr} {context : AspectExecutionContext} {call : Call M}

omit [LawfulMonad M] hS in
variable (allowed S ir context call) in
/-- What a list expression asks for is allowed, and the action it names may be called. -/
def Permits (head : String) (items : List Expr) : Prop :=
  (∀ op, Issues context head items op → allowed op) ∧
    (head ∉ builtinForms → ∀ action, ir.actionNamed head = some action →
      ∀ args, S (call action.aspect action.action args))

omit [LawfulMonad M] hS in
theorem map_expr_parts : ∀ items : List Expr,
    (I.parts ir context call items).map Part.expr = items
  | [] => rfl
  | .atom _ :: es => congrArg (_ :: ·) (map_expr_parts es)
  | .list _ :: es => congrArg (_ :: ·) (map_expr_parts es)

theorem atom (name : String) {β : Type} {ν : AspectValue → M β}
    (h : ∀ v, (Expr.atom name).MayBe context v → S (ν v)) :
    S (I.atom context name >>= ν) := by
  unfold Interp.atom
  split
  next x hx => exact hS.bind (hS.lookup name) fun v => h v fun hn => by rw [hx] at hn; cases hn
  next =>
    rw [pure_bind]
    exact h _ fun _ => rfl

omit hS in
set_option linter.unusedSectionVars false in
mutual

theorem part (hS : I.Closed allowed S) :
    ∀ e : Expr, e.All (Permits allowed S ir context call) →
      Safe S context (I.part ir context call e)
  | .atom name, _ =>
    ⟨fun h => hS.atom name h, hS.atom name fun _ _ => hS.pure _⟩
  | .list items, ⟨hhead, hitems⟩ => by
    have hs := parts hS items hitems
    refine ⟨fun h => hS.bind ?_ fun v => h v trivial,
      hS.bind (hS.sources hs) fun _ => hS.pure _⟩
    refine hS.bind hS.step fun _ => ?_
    split
    next head _ =>
      obtain ⟨hop, hcall⟩ := hhead head rfl
      exact hS.form hs ((map_expr_parts (I := I) (.atom head :: _)).symm ▸ hop) hcall
    next => exact hS.failed

theorem parts (hS : I.Closed allowed S) :
    ∀ es : List Expr, Expr.AllIn (Permits allowed S ir context call) es →
      ∀ p ∈ I.parts ir context call es, Safe S context p
  | [], _ => nofun
  | e :: es, ⟨he, hes⟩ => List.forall_mem_cons.2 ⟨part hS e he, parts hS es hes⟩

end

/-- An expression does only what its list expressions may. -/
theorem expression {e : Expr} (h : e.All (Permits allowed S ir context call)) :
    S (I.expression ir context call e) :=
  (hS.part e h).result fun v => hS.pure v

end Expressions

end Interp.Closed

end Detta
