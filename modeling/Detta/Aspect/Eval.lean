import Detta.Base.Exec
import Detta.Aspect.Ir

/-!
# The evaluator of aspect actions

The interpreter of the aspect language. An evaluation reads a snapshot of the
contract's state, and leaves a *trace* of host operations for the kernel to carry
out afterwards: it never sees its own writes. Every list expression costs one step
of a budget, and calls of actions nest at most `maxStackDepth` deep.

Recursion is structural, with no fuel: an expression is evaluated from the
evaluators of its parts (`operand`, `operands`), and calls of actions are unrolled
to the remaining stack depth (`executeNamedAction`).
-/

namespace Detta

/-! ## Values, operations and errors -/

/-- A value of the aspect language. -/
inductive AspectValue where
  | unit
  | bool (value : Bool)
  | amount (value : U128)
  | atom (value : String)
deriving DecidableEq, Repr

/-- An operation that an evaluation asks the kernel for. -/
inductive AspectHostOp where
  | stateGet (state : String) (key : List String)
  | contractStateGet (contract state : String) (key : List String)
  | stateSet (state : String) (key : List String) (value : AspectValue)
  | registryGet (registry : String)
  | registrySet (registry : String) (value : AspectValue)
  | registryConsume (registry : String) (value : AspectValue)
  | emit (event : String)
  | callContract (contract method : String) (args : List AspectValue)
  | permitVerify (owner spender asset : String) (amount : U128) (certificate : String)
  | bridgeVerify (sourceChain messageId recipient asset : String) (amount : U128)
      (certificate : String)
  | crossShardOutboxAppend (destinationChain destinationContract messageId recipient asset : String)
      (amount : U128)
deriving DecidableEq, Repr

/-- Why an evaluation fails. A type mismatch keeps what was expected and the value
    that was found, from which the source makes its message. -/
inductive AspectEvalError where
  | unknownProjection (bundle projection : String)
  | unknownAction (aspect action : String)
  | missingActionBody (aspect action : String)
  | invalidActionBody (message : String)
  | invalidExpression (message : String)
  | unknownVariable (name : String)
  | stepBudgetExceeded
  | arithmeticOverflow
  | divisionByZero
  | requireFailed (message : String)
  | typeMismatch (expected : String) (found : AspectValue)
  | stackDepthExceeded
deriving DecidableEq, Repr

/-- Who calls, and when. -/
structure AspectExecutionContext where
  txSender : String
  msgSender : String
  currentContract : String
  blockHeight : U64
  blockTimestamp : U64
deriving DecidableEq, Repr

/-- The states of the contract, under the name of the state followed by the key. -/
abbrev AspectStateReads := Std.ExtTreeMap (List String) AspectValue

/-- The states of all contracts, under the contract, the name of the state and the key. -/
abbrev ContractAspectStateReads := Std.ExtTreeMap (List String) AspectValue

/-- What an evaluation reads and never changes. -/
structure EvalInput where
  module : AspectModuleIr
  maxSteps : U64
  context : AspectExecutionContext
  stateReads : AspectStateReads
  contractStateReads : ContractAspectStateReads

/-- What an evaluation changes. -/
structure EvalState where
  stepsUsed : ℕ
  trace : List AspectHostOp
  bindings : Std.ExtTreeMap String AspectValue

abbrev Eval := EStateM AspectEvalError EvalState

/-- Actions nest at most this deep. -/
def maxStackDepth : ℕ := 64

/-! ## Texts -/

/-- The name of a variable, if the atom is one. -/
def variableName (name : String) : Option String :=
  match name.toList with
  | '$' :: rest => some (String.ofList rest)
  | _ => none

/-- The digits of a decimal number, the most significant first. -/
def digitsValue (digits : List Char) : ℕ :=
  digits.foldl (fun acc d => 10 * acc + (d.toNat - '0'.toNat)) 0

/-- A decimal number that fits in 128 bits, possibly after a plus sign. -/
def parseU128 (text : String) : Option U128 :=
  let digits := match text.toList with
    | '+' :: rest => rest
    | other => other
  if digits ≠ [] ∧ digits.all Char.isDigit then Word.ofNat? 128 (digitsValue digits) else none

/-- Texts with a blank between each two. -/
def joinBlank : List String → String
  | [] => ""
  | [t] => t
  | t :: ts => t ++ " " ++ joinBlank ts

mutual

/-- An expression as it is written. -/
def aspectExprSource : Expr → String
  | .atom name => name
  | .list items => "(" ++ joinBlank (aspectExprSources items) ++ ")"

/-- Expressions as they are written. -/
def aspectExprSources : List Expr → List String
  | [] => []
  | e :: es => aspectExprSource e :: aspectExprSources es

end

namespace AspectValue

/-- A value as it is written. -/
def source : AspectValue → String
  | unit => "Unit"
  | bool true => "True"
  | bool false => "False"
  | amount value => toString value.val
  | atom value => value

def intoAmount : AspectValue → Eval U128
  | amount value => pure value
  | value => throw (.typeMismatch "amount" value)

def intoBool : AspectValue → Eval Bool
  | bool value => pure value
  | value => throw (.typeMismatch "bool" value)

/-- The text of an atom. -/
def intoAtom : AspectValue → Eval String
  | atom value => pure value
  | value => throw (.typeMismatch "atom" value)

/-- The text of a value in a key: anything but `unit`. -/
def keyPart : AspectValue → Eval String
  | atom value => pure value
  | amount value => pure (toString value.val)
  | bool value => pure (toString value)
  | unit => throw (.typeMismatch "state key" unit)

end AspectValue

/-! ## Forms

A form is given the parts of its list, the head included: each with its syntax,
its evaluation, and its evaluation as a part of an event. -/

/-- A part of a list expression. -/
structure Operand where
  expr : Expr
  value : Eval AspectValue
  event : Eval String

/-- A call of an action: its aspect, its name and its arguments. -/
abbrev ActionCall := String → String → List AspectValue → Eval AspectValue

namespace Eval

/-- Leave an operation for the kernel. -/
def push (op : AspectHostOp) : Eval Unit :=
  modify fun s => { s with trace := s.trace ++ [op] }

/-- Pay one step of the budget. -/
def charge (maxSteps : U64) : Eval Unit := do
  let s ← get
  ensure (s.stepsUsed < maxSteps.val) .stepBudgetExceeded
  modify fun s => { s with stepsUsed := s.stepsUsed + 1 }

/-- The wrong number of arguments. -/
def arity {α : Type} (expected : String) (items : List Operand) : Eval α :=
  throw (.invalidExpression ("expected " ++ expected ++ ", got " ++ toString (items.length - 1)))

/-- An argument that has to be an atom, which is not evaluated. -/
def atomArg (items : List Operand) (index : ℕ) (form : String) : Eval String :=
  match items[index]? with
  | some ⟨.atom name, _, _⟩ => pure name
  | some ⟨expr, _, _⟩ =>
    throw (.invalidExpression ("expected atom for " ++ form ++ ", got " ++ aspectExprSource expr))
  | none => throw (.invalidExpression ("missing arg " ++ toString index ++ " for " ++ form))

/-- The values of all parts, from the first to the last. -/
def values : List Operand → Eval (List AspectValue)
  | [] => pure []
  | o :: os => do
    let v ← o.value
    let vs ← values os
    pure (v :: vs)

/-- The parts of a key, from the first to the last. -/
def keyParts : List Operand → Eval (List String)
  | [] => pure []
  | o :: os => do
    let part ← (← o.value).keyPart
    let parts ← keyParts os
    pure (part :: parts)

/-- The parts of an event, from the first to the last. -/
def sources : List Operand → Eval (List String)
  | [] => pure []
  | o :: os => do
    let v ← o.value
    let vs ← sources os
    pure (v.source :: vs)

def checkedBinaryAmount (operation : U128 → U128 → Option U128) :
    List Operand → Eval AspectValue
  | [_, l, r] => do
    let left ← (← l.value).intoAmount
    let right ← (← r.value).intoAmount
    let result ← okOr (operation left right) .arithmeticOverflow
    pure (.amount result)
  | items => arity "binary expression" items

def safeDiv : List Operand → Eval AspectValue
  | [_, l, r] => do
    let left ← (← l.value).intoAmount
    let right ← (← r.value).intoAmount
    ensure (right ≠ 0) .divisionByZero
    pure (.amount (left.div right))
  | items => arity "safe-div with 2 args" items

def require : List Operand → Eval AspectValue
  | [_, c, message] => do
    let condition ← (← c.value).intoBool
    ensure (condition = true) (.requireFailed (aspectExprSource message.expr))
    pure .unit
  | items => arity "require with 2 args" items

def ifThenElse : List Operand → Eval AspectValue
  | [_, c, t, e] => do
    let condition ← (← c.value).intoBool
    if condition then t.value else e.value
  | items => arity "if with 3 args" items

/-- Evaluate all parts, for the value of the last one. -/
def sequence : AspectValue → List Operand → Eval AspectValue
  | result, [] => pure result
  | _, o :: os => do
    let result ← o.value
    sequence result os

def begin : List Operand → Eval AspectValue
  | _ :: o :: os => sequence .unit (o :: os)
  | _ => throw (.invalidExpression "expected begin with at least 1 expression")

def and : List Operand → Eval AspectValue
  | [_, l, r] => do
    let left ← (← l.value).intoBool
    if left then
      let right ← (← r.value).intoBool
      pure (.bool right)
    else pure (.bool false)
  | items => arity "and with 2 args" items

def or : List Operand → Eval AspectValue
  | [_, l, r] => do
    let left ← (← l.value).intoBool
    if left then pure (.bool true)
    else
      let right ← (← r.value).intoBool
      pure (.bool right)
  | items => arity "or with 2 args" items

def not : List Operand → Eval AspectValue
  | [_, o] => do
    let value ← (← o.value).intoBool
    pure (.bool !value)
  | items => arity "not with 1 arg" items

def eq : List Operand → Eval AspectValue
  | [_, l, r] => do
    let left ← l.value
    let right ← r.value
    pure (.bool (decide (left = right)))
  | items => arity "= with 2 args" items

def cmp (operation : U128 → U128 → Bool) : List Operand → Eval AspectValue
  | [_, l, r] => do
    let left ← (← l.value).intoAmount
    let right ← (← r.value).intoAmount
    pure (.bool (operation left right))
  | items => arity "comparison with 2 args" items

def stateGet (input : EvalInput) (items : List Operand) : Eval AspectValue := do
  let state ← atomArg items 1 "state-get"
  let key ← keyParts (items.drop 2)
  push (.stateGet state key)
  pure ((input.stateReads[state :: key]?).getD (.amount 0))

def contractStateGet (input : EvalInput) : List Operand → Eval AspectValue
  | items@(_ :: c :: _ :: keys) => do
    let contract ← (← c.value).intoAtom
    let state ← atomArg items 2 "contract-state-get"
    let key ← keyParts keys
    push (.contractStateGet contract state key)
    pure ((input.contractStateReads[contract :: state :: key]?).getD (.amount 0))
  | items => arity "contract-state-get with contract, state, and optional keys" items

def stateSet (items : List Operand) : Eval AspectValue :=
  match items.drop 2 with
  | [] => arity "state-set! with state, optional keys, and value" items
  | o :: os => do
    let state ← atomArg items 1 "state-set!"
    let key ← keyParts (o :: os).dropLast
    let value ← ((o :: os).getLast (List.cons_ne_nil o os)).value
    push (.stateSet state key value)
    pure .unit

def registryGet (items : List Operand) : Eval AspectValue := do
  let registry ← atomArg items 1 "registry-get"
  push (.registryGet registry)
  pure .unit

/-- The two forms that hand a value to a registry. -/
def registryValue (form : String) (op : String → AspectValue → AspectHostOp) :
    List Operand → Eval AspectValue
  | items@(_ :: _ :: [v]) => do
    let registry ← atomArg items 1 form
    let value ← v.value
    push (op registry value)
    pure .unit
  | items => arity (form ++ " with 2 args") items

def registrySet : List Operand → Eval AspectValue := registryValue "registry-set!" .registrySet

def registryConsume : List Operand → Eval AspectValue :=
  registryValue "registry-consume!" .registryConsume

def emit : List Operand → Eval AspectValue
  | [_, o] => do
    let event ← o.event
    push (.emit event)
    pure .unit
  | items => arity "emit! with 1 arg" items

def callContract : List Operand → Eval AspectValue
  | items@(_ :: c :: _ :: rest) => do
    let contract ← (← c.value).intoAtom
    let method ← atomArg items 2 "call-contract!"
    let args ← values rest
    push (.callContract contract method args)
    pure .unit
  | items => arity "call-contract! with target, method, and args" items

def permitVerify : List Operand → Eval AspectValue
  | [_, o, s, a, n, c] => do
    let owner ← (← o.value).intoAtom
    let spender ← (← s.value).intoAtom
    let asset ← (← a.value).intoAtom
    let amount ← (← n.value).intoAmount
    let certificate ← (← c.value).intoAtom
    push (.permitVerify owner spender asset amount certificate)
    pure .unit
  | items => arity "permit-verify! with owner, spender, asset, amount, certificate" items

def bridgeVerify : List Operand → Eval AspectValue
  | [_, s, m, r, a, n, c] => do
    let sourceChain ← (← s.value).intoAtom
    let messageId ← (← m.value).intoAtom
    let recipient ← (← r.value).intoAtom
    let asset ← (← a.value).intoAtom
    let amount ← (← n.value).intoAmount
    let certificate ← (← c.value).intoAtom
    push (.bridgeVerify sourceChain messageId recipient asset amount certificate)
    pure .unit
  | items =>
    arity "bridge-verify! with source-chain, message-id, recipient, asset, amount, certificate"
      items

def crossShardOutboxAppend : List Operand → Eval AspectValue
  | [_, d, t, m, r, a, n] => do
    let destinationChain ← (← d.value).intoAtom
    let destinationContract ← (← t.value).intoAtom
    let messageId ← (← m.value).intoAtom
    let recipient ← (← r.value).intoAtom
    let asset ← (← a.value).intoAtom
    let amount ← (← n.value).intoAmount
    push (.crossShardOutboxAppend destinationChain destinationContract messageId recipient asset
      amount)
    pure .unit
  | items =>
    arity ("cross-shard-outbox-append! with destination-chain, destination-contract, " ++
      "message-id, recipient, asset, amount") items

/-- A call of the only action of that name. -/
def actionCall (input : EvalInput) (call : ActionCall) (name : String) (items : List Operand) :
    Eval AspectValue :=
  match input.module.actions.values.filter fun action => action.action == name with
  | [action] => do
    let args ← values items.tail
    call action.aspect action.action args
  | _ => throw (.invalidExpression ("unknown or ambiguous expression head " ++ name))

/-- Evaluate a list by its head. -/
def form (input : EvalInput) (call : ActionCall) (head : String) (items : List Operand) :
    Eval AspectValue :=
  match head with
  | "safe-add" => checkedBinaryAmount Word.checkedAdd items
  | "safe-sub" => checkedBinaryAmount Word.checkedSub items
  | "safe-mul" => checkedBinaryAmount Word.checkedMul items
  | "safe-div" => safeDiv items
  | "require" => require items
  | "if" => ifThenElse items
  | "begin" => begin items
  | "and" => and items
  | "or" => or items
  | "not" => not items
  | "=" => eq items
  | "<" => cmp (fun l r => decide (l < r)) items
  | "<=" => cmp (fun l r => decide (l ≤ r)) items
  | ">" => cmp (fun l r => decide (r < l)) items
  | ">=" => cmp (fun l r => decide (r ≤ l)) items
  | "state-get" => stateGet input items
  | "contract-state-get" => contractStateGet input items
  | "state-set!" => stateSet items
  | "registry-get" => registryGet items
  | "registry-set!" => registrySet items
  | "registry-consume!" => registryConsume items
  | "emit!" => emit items
  | "call-contract!" => callContract items
  | "permit-verify!" => permitVerify items
  | "bridge-verify!" => bridgeVerify items
  | "cross-shard-outbox-append!" => crossShardOutboxAppend items
  | name => actionCall input call name items

/-- The value of an atom: a variable, a truth value, a part of the context, a
    number, or itself. -/
def atom (input : EvalInput) (name : String) : Eval AspectValue :=
  match variableName name with
  | some x => do
    let s ← get
    okOr s.bindings[x]? (.unknownVariable x)
  | none =>
    match name with
    | "True" => pure (.bool true)
    | "False" => pure (.bool false)
    | "tx.sender" => pure (.atom input.context.txSender)
    | "msg.sender" => pure (.atom input.context.msgSender)
    | "current-contract" => pure (.atom input.context.currentContract)
    | "block-height" => pure (.amount input.context.blockHeight.toU128)
    | "block-timestamp" => pure (.amount input.context.blockTimestamp.toU128)
    | other =>
      match parseU128 other with
      | some value => pure (.amount value)
      | none => pure (.atom other)

/-- Evaluate a list from its parts, for one step. -/
def list (input : EvalInput) (call : ActionCall) (items : List Expr) (parts : List Operand) :
    Eval AspectValue := do
  charge input.maxSteps
  match items with
  | .atom head :: _ => form input call head parts
  | _ => throw (.invalidExpression (aspectExprSource (.list items)))

end Eval

/-! ## Expressions and actions -/

section Expressions

variable (input : EvalInput) (call : ActionCall)

mutual

/-- An expression as a part of a list. In an event, a list is written out from the
    values of its parts. -/
def operand : Expr → Operand
  | .atom name => ⟨.atom name, Eval.atom input name, AspectValue.source <$> Eval.atom input name⟩
  | .list items =>
    ⟨.list items, Eval.list input call items (operands items), do
      let body ← Eval.sources (operands items)
      pure ("(" ++ joinBlank body ++ ")")⟩

/-- Expressions as the parts of a list. -/
def operands : List Expr → List Operand
  | [] => []
  | e :: es => operand e :: operands es

end

/-- The value of an expression, with the given way to call actions. -/
def evalExpr (expr : Expr) : Eval AspectValue := (operand input call expr).value

end Expressions

/-- The names of the parameters of a signature, after its head. -/
def signatureParams : List Expr → Option (List String)
  | [] => some []
  | .atom name :: rest => do
    let param ← variableName name
    let params ← signatureParams rest
    pure (param :: params)
  | .list _ :: _ => none

/-- The parameters and the right-hand side of a definition `(= (head $x …) rhs)`,
    whose head has to satisfy `p`. -/
def bodyParts (p : Option Expr → Bool) (body : Expr) : Eval (List String × Expr) :=
  match body with
  | .list [.atom "=", .list signature, rhs] =>
    match p signature.head?, signatureParams signature.tail with
    | true, some params => pure (params, rhs)
    | _, _ => throw (.invalidActionBody (aspectExprSource body))
  | _ => throw (.invalidActionBody (aspectExprSource body))

/-- The definition of an action names the action. -/
def actionBodyParts (action : String) (body : Expr) : Eval (List String × Expr) :=
  bodyParts (fun head => match head with
    | some (.atom name) => name == action
    | _ => false) body

/-- The definition of a projection may have any head. -/
def projectionBodyParts (body : Expr) : Eval (List String × Expr) := bodyParts (fun _ => true) body

/-- Run an action, with the given number of nested calls still allowed. The
    variables of the caller stay visible to the action; those of the action are
    dropped when it returns. -/
def executeNamedAction (input : EvalInput) : ℕ → ActionCall
  | 0, _, _, _ => throw .stackDepthExceeded
  | depth + 1, aspect, action, args => do
    let definition ← okOr input.module.actions[qualified aspect action]?
      (.unknownAction aspect action)
    let body ← okOr definition.body (.missingActionBody aspect action)
    let (params, rhs) ← actionBodyParts action body
    ensure (params.length = args.length)
      (.invalidActionBody ("expected " ++ toString params.length ++ " args for " ++ action ++
        ", got " ++ toString args.length))
    let s ← get
    modify fun s => { s with bindings := s.bindings.insertMany (params.zip args) }
    let result ← evalExpr input (executeNamedAction input depth) rhs
    modify fun s' => { s' with bindings := s.bindings }
    pure result

/-- An expression at the top level, where the whole stack is left. -/
def evalTop (input : EvalInput) (expr : Expr) : Eval AspectValue :=
  evalExpr input (executeNamedAction input maxStackDepth) expr

/-- The trace, the value and the cost of an evaluation. -/
structure AspectExecutionReport where
  trace : List AspectHostOp
  returnValue : AspectValue
  stepsUsed : ℕ
deriving DecidableEq, Repr

/-- Run an evaluation from no steps, an empty trace and no variables. -/
def runEval (m : Eval AspectValue) : Except AspectEvalError AspectExecutionReport :=
  match m ⟨0, [], ∅⟩ with
  | .ok value s => .ok ⟨s.trace, value, s.stepsUsed⟩
  | .error e _ => .error e

/-- Evaluate a projection of a bundle on arguments. -/
def evalProjection (input : EvalInput) (bundle projection : String) (args : List AspectValue) :
    Eval AspectValue := do
  let definition ← okOr input.module.projections[qualified bundle projection]?
    (.unknownProjection bundle projection)
  let (params, rhs) ← projectionBodyParts definition.expr
  ensure (params.length = args.length)
    (.invalidActionBody ("expected " ++ toString params.length ++ " args for projection " ++
      projection ++ ", got " ++ toString args.length))
  modify fun s => { s with bindings := s.bindings.insertMany (params.zip args) }
  evalTop input rhs

def executeProjection (input : EvalInput) (bundle projection : String) (args : List AspectValue) :
    Except AspectEvalError AspectExecutionReport :=
  runEval (evalProjection input bundle projection args)

/-- Evaluate the expression of an invariant, with no variables. -/
def evaluateInvariantExpr (input : EvalInput) (expr : Expr) :
    Except AspectEvalError AspectExecutionReport :=
  runEval (evalTop input expr)

end Detta
