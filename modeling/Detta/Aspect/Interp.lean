import Detta.Aspect.Eval

/-!
# Interpretations of the language

The evaluator of `Detta.Aspect.Eval` is one way to run an expression. Here the language is
given over *any* monad with the few operations that its forms need (`Interp`): to fail, also
for want of a value or a condition, to take a step, to ask the kernel for something, to read a
state, and to look up variables.
The forms are those of the evaluator, without its error messages.
-/

namespace Detta

/-! ## Values -/

namespace AspectValue

def isAmount : AspectValue → Bool
  | amount _ => true
  | _ => false

/-- The number of an amount. -/
def number : AspectValue → U128
  | amount value => value
  | _ => 0

def isBool : AspectValue → Bool
  | bool _ => true
  | _ => false

/-- A value that is a truth value, and true. -/
def isTrue : AspectValue → Bool
  | bool value => value
  | _ => false

def isAtom : AspectValue → Bool
  | atom _ => true
  | _ => false

/-- The text of an atom. -/
def text : AspectValue → String
  | atom value => value
  | _ => ""

def isUnit : AspectValue → Bool
  | unit => true
  | _ => false

/-- The text of a value in a key. -/
def keyText : AspectValue → String
  | atom value => value
  | amount value => toString value.val
  | bool value => toString value
  | unit => ""

end AspectValue

/-! ## Interpretations -/

/-- What the forms of the language need of a monad. -/
structure Interp (M : Type → Type) where
  /-- The evaluation has failed. -/
  fail {α : Type} : M α
  /-- Go on with a value, if there is one. -/
  found {α : Type} : Option α → M α
  /-- Go on if the condition holds. -/
  assume (c : Prop) [Decidable c] : M Unit
  /-- A list expression is evaluated. -/
  step : M Unit
  /-- The kernel is asked for an operation that has no answer. -/
  ask : AspectHostOp → M Unit
  /-- A state of the contract is read. -/
  stateGet : String → List String → M AspectValue
  /-- A state of any contract is read. -/
  contractStateGet : String → String → List String → M AspectValue
  /-- The value of a variable, under the atom that stands for it. -/
  lookup : String → M AspectValue
  /-- Run something with more variables, of which a later one hides an earlier one. -/
  within {α : Type} : List (String × AspectValue) → M α → M α

/-- A part of a list expression: its syntax, its value, and its text in an event. -/
structure Part (M : Type → Type) where
  expr : Expr
  value : M AspectValue
  event : M String

/-- The only action of the given name. -/
def AspectModuleIr.actionNamed (ir : AspectModuleIr) (name : String) : Option ActionDef :=
  match ir.actions.values.filter fun action => action.action == name with
  | [action] => some action
  | _ => none

/-- The value of an atom that is no variable. -/
def AspectExecutionContext.constant (context : AspectExecutionContext) (name : String) :
    AspectValue :=
  match name with
  | "True" => .bool true
  | "False" => .bool false
  | "tx.sender" => .atom context.txSender
  | "msg.sender" => .atom context.msgSender
  | "current-contract" => .atom context.currentContract
  | "block-height" => .amount context.blockHeight.toU128
  | "block-timestamp" => .amount context.blockTimestamp.toU128
  | other =>
    match parseU128 other with
    | some value => .amount value
    | none => .atom other

namespace Interp

variable {M : Type → Type} [Monad M]

section Forms

variable (I : Interp M)

def amount (v : AspectValue) : M U128 := do
  I.assume (v.isAmount = true)
  pure v.number

def bool (v : AspectValue) : M Bool := do
  I.assume (v.isBool = true)
  pure v.isTrue

def text (v : AspectValue) : M String := do
  I.assume (v.isAtom = true)
  pure v.text

def key (v : AspectValue) : M String := do
  I.assume (v.isUnit = false)
  pure v.keyText

def atomArg (items : List (Part M)) (index : ℕ) : M String :=
  match items[index]? with
  | some ⟨.atom name, _, _⟩ => pure name
  | _ => I.fail

def values : List (Part M) → M (List AspectValue)
  | [] => pure []
  | o :: os => do
    let v ← o.value
    let vs ← values os
    pure (v :: vs)

def keyParts : List (Part M) → M (List String)
  | [] => pure []
  | o :: os => do
    let part ← I.key (← o.value)
    let parts ← keyParts os
    pure (part :: parts)

def sources : List (Part M) → M (List String)
  | [] => pure []
  | o :: os => do
    let v ← o.value
    let vs ← sources os
    pure (v.source :: vs)

def checkedBinaryAmount (operation : U128 → U128 → Option U128) :
    List (Part M) → M AspectValue
  | [_, l, r] => do
    let left ← I.amount (← l.value)
    let right ← I.amount (← r.value)
    let result ← I.found (operation left right)
    pure (.amount result)
  | _ => I.fail

def safeDiv : List (Part M) → M AspectValue
  | [_, l, r] => do
    let left ← I.amount (← l.value)
    let right ← I.amount (← r.value)
    I.assume (right ≠ 0)
    pure (.amount (left.div right))
  | _ => I.fail

def require : List (Part M) → M AspectValue
  | [_, c, _] => do
    let condition ← I.bool (← c.value)
    I.assume (condition = true)
    pure .unit
  | _ => I.fail

def ifThenElse : List (Part M) → M AspectValue
  | [_, c, t, e] => do
    let condition ← I.bool (← c.value)
    if condition then t.value else e.value
  | _ => I.fail

def sequence : AspectValue → List (Part M) → M AspectValue
  | result, [] => pure result
  | _, o :: os => do
    let result ← o.value
    sequence result os

def begin : List (Part M) → M AspectValue
  | _ :: o :: os => sequence .unit (o :: os)
  | _ => I.fail

def and : List (Part M) → M AspectValue
  | [_, l, r] => do
    let left ← I.bool (← l.value)
    if left then
      let right ← I.bool (← r.value)
      pure (.bool right)
    else pure (.bool false)
  | _ => I.fail

def or : List (Part M) → M AspectValue
  | [_, l, r] => do
    let left ← I.bool (← l.value)
    if left then pure (.bool true)
    else
      let right ← I.bool (← r.value)
      pure (.bool right)
  | _ => I.fail

def not : List (Part M) → M AspectValue
  | [_, o] => do
    let value ← I.bool (← o.value)
    pure (.bool !value)
  | _ => I.fail

def eq : List (Part M) → M AspectValue
  | [_, l, r] => do
    let left ← l.value
    let right ← r.value
    pure (.bool (decide (left = right)))
  | _ => I.fail

def cmp (operation : U128 → U128 → Bool) : List (Part M) → M AspectValue
  | [_, l, r] => do
    let left ← I.amount (← l.value)
    let right ← I.amount (← r.value)
    pure (.bool (operation left right))
  | _ => I.fail

def stateGetForm (items : List (Part M)) : M AspectValue := do
  let state ← I.atomArg items 1
  let key ← I.keyParts (items.drop 2)
  I.stateGet state key

def contractStateGetForm : List (Part M) → M AspectValue
  | items@(_ :: c :: _ :: keys) => do
    let contract ← I.text (← c.value)
    let state ← I.atomArg items 2
    let key ← I.keyParts keys
    I.contractStateGet contract state key
  | _ => I.fail

def stateSet (items : List (Part M)) : M AspectValue :=
  match items.drop 2 with
  | [] => I.fail
  | o :: os => do
    let state ← I.atomArg items 1
    let key ← I.keyParts (o :: os).dropLast
    let value ← ((o :: os).getLast (List.cons_ne_nil o os)).value
    I.ask (.stateSet state key value)
    pure .unit

def registryGet (items : List (Part M)) : M AspectValue := do
  let registry ← I.atomArg items 1
  I.ask (.registryGet registry)
  pure .unit

def registryValue (op : String → AspectValue → AspectHostOp) : List (Part M) → M AspectValue
  | items@(_ :: _ :: [v]) => do
    let registry ← I.atomArg items 1
    let value ← v.value
    I.ask (op registry value)
    pure .unit
  | _ => I.fail

def emit : List (Part M) → M AspectValue
  | [_, o] => do
    let event ← o.event
    I.ask (.emit event)
    pure .unit
  | _ => I.fail

def callContract : List (Part M) → M AspectValue
  | items@(_ :: c :: _ :: rest) => do
    let contract ← I.text (← c.value)
    let method ← I.atomArg items 2
    let args ← values rest
    I.ask (.callContract contract method args)
    pure .unit
  | _ => I.fail

def permitVerify : List (Part M) → M AspectValue
  | [_, o, s, a, n, c] => do
    let owner ← I.text (← o.value)
    let spender ← I.text (← s.value)
    let asset ← I.text (← a.value)
    let amount ← I.amount (← n.value)
    let certificate ← I.text (← c.value)
    I.ask (.permitVerify owner spender asset amount certificate)
    pure .unit
  | _ => I.fail

def bridgeVerify : List (Part M) → M AspectValue
  | [_, s, m, r, a, n, c] => do
    let sourceChain ← I.text (← s.value)
    let messageId ← I.text (← m.value)
    let recipient ← I.text (← r.value)
    let asset ← I.text (← a.value)
    let amount ← I.amount (← n.value)
    let certificate ← I.text (← c.value)
    I.ask (.bridgeVerify sourceChain messageId recipient asset amount certificate)
    pure .unit
  | _ => I.fail

def crossShardOutboxAppend : List (Part M) → M AspectValue
  | [_, d, t, m, r, a, n] => do
    let destinationChain ← I.text (← d.value)
    let destinationContract ← I.text (← t.value)
    let messageId ← I.text (← m.value)
    let recipient ← I.text (← r.value)
    let asset ← I.text (← a.value)
    let amount ← I.amount (← n.value)
    I.ask (.crossShardOutboxAppend destinationChain destinationContract messageId recipient asset
      amount)
    pure .unit
  | _ => I.fail

end Forms

/-- A call of an action: its aspect, its name and its arguments. -/
abbrev Call (M : Type → Type) := String → String → List AspectValue → M AspectValue

section Expressions

variable (I : Interp M) (ir : AspectModuleIr) (context : AspectExecutionContext) (call : Call M)

def actionCall (name : String) (items : List (Part M)) : M AspectValue := do
  let action ← I.found (ir.actionNamed name)
  let args ← values items.tail
  call action.aspect action.action args

def form (head : String) (items : List (Part M)) : M AspectValue :=
  match head with
  | "safe-add" => I.checkedBinaryAmount Word.checkedAdd items
  | "safe-sub" => I.checkedBinaryAmount Word.checkedSub items
  | "safe-mul" => I.checkedBinaryAmount Word.checkedMul items
  | "safe-div" => I.safeDiv items
  | "require" => I.require items
  | "if" => I.ifThenElse items
  | "begin" => I.begin items
  | "and" => I.and items
  | "or" => I.or items
  | "not" => I.not items
  | "=" => I.eq items
  | "<" => I.cmp (fun l r => decide (l < r)) items
  | "<=" => I.cmp (fun l r => decide (l ≤ r)) items
  | ">" => I.cmp (fun l r => decide (r < l)) items
  | ">=" => I.cmp (fun l r => decide (r ≤ l)) items
  | "state-get" => I.stateGetForm items
  | "contract-state-get" => I.contractStateGetForm items
  | "state-set!" => I.stateSet items
  | "registry-get" => I.registryGet items
  | "registry-set!" => I.registryValue .registrySet items
  | "registry-consume!" => I.registryValue .registryConsume items
  | "emit!" => I.emit items
  | "call-contract!" => I.callContract items
  | "permit-verify!" => I.permitVerify items
  | "bridge-verify!" => I.bridgeVerify items
  | "cross-shard-outbox-append!" => I.crossShardOutboxAppend items
  | name => I.actionCall ir call name items

def atom (name : String) : M AspectValue :=
  match variableName name with
  | some _ => I.lookup name
  | none => pure (context.constant name)

def list (items : List Expr) (parts : List (Part M)) : M AspectValue := do
  I.step
  match items with
  | .atom head :: _ => I.form ir call head parts
  | _ => I.fail

mutual

/-- An expression as a part of a list. -/
def part : Expr → Part M
  | .atom name =>
    ⟨.atom name, I.atom context name, do
      let v ← I.atom context name
      pure v.source⟩
  | .list items =>
    ⟨.list items, I.list ir call items (parts items), do
      let body ← sources (parts items)
      pure ("(" ++ joinBlank body ++ ")")⟩

/-- Expressions as the parts of a list. -/
def parts : List Expr → List (Part M)
  | [] => []
  | e :: es => part e :: parts es

end

/-- The value of an expression. -/
def expression (e : Expr) : M AspectValue := (I.part ir context call e).value

end Expressions

end Interp

/-! ## Definitions -/

/-- The atoms of a signature that consists of variables. -/
def signatureAtoms : List Expr → Option (List String)
  | [] => some []
  | .atom name :: rest => do
    let _ ← variableName name
    let names ← signatureAtoms rest
    pure (name :: names)
  | .list _ :: _ => none

/-- The parameters and the right-hand side of a definition whose head satisfies `p`. -/
def definition? (p : Option Expr → Bool) : Expr → Option (List String × Expr)
  | .list [.atom "=", .list signature, rhs] => do
    guard (p signature.head? = true)
    let params ← signatureAtoms signature.tail
    pure (params, rhs)
  | _ => none

/-- A definition applied to arguments: the variables it binds, and what it evaluates. -/
def applied? (p : Option Expr → Bool) (body : Expr) (args : List AspectValue) :
    Option (List (String × AspectValue) × Expr) := do
  let (params, rhs) ← definition? p body
  guard (params.length = args.length)
  pure (params.zip args, rhs)

/-- The head of the definition of an action names the action. -/
def headIs (action : String) : Option Expr → Bool
  | some (.atom name) => name == action
  | _ => false

namespace AspectModuleIr

/-- An action of a module, applied to arguments. -/
def actionApplied? (ir : AspectModuleIr) (aspect action : String) (args : List AspectValue) :
    Option (List (String × AspectValue) × Expr) := do
  let definition ← ir.actions[qualified aspect action]?
  let body ← definition.body
  applied? (headIs action) body args

/-- A projection of a module, applied to arguments. -/
def projectionApplied? (ir : AspectModuleIr) (bundle projection : String)
    (args : List AspectValue) : Option (List (String × AspectValue) × Expr) := do
  let definition ← ir.projections[qualified bundle projection]?
  applied? (fun _ => true) definition.expr args

end AspectModuleIr

namespace Interp

section Definitions

variable {M : Type → Type} [Monad M] (I : Interp M) (ir : AspectModuleIr)
  (context : AspectExecutionContext)

/-- An action, with the given number of nested calls still allowed. -/
def action : ℕ → Call M
  | 0, _, _, _ => I.fail
  | depth + 1, aspect, name, args =>
    match ir.actionApplied? aspect name args with
    | some (scope, rhs) =>
      I.within scope (I.expression ir context (action depth) rhs)
    | none => I.fail

/-- An expression where the whole stack is left. -/
def top (e : Expr) : M AspectValue := I.expression ir context (I.action ir context maxStackDepth) e

/-- A projection on arguments. -/
def projection (bundle name : String) (args : List AspectValue) : M AspectValue :=
  match ir.projectionApplied? bundle name args with
  | some (scope, rhs) => I.within scope (I.top ir context rhs)
  | none => I.fail

end Definitions

end Interp

end Detta
