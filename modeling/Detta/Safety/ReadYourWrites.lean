import Detta.Aspect.Live
import Detta.Safety.Authority

/-!
# Reads after writes

During execution, reads should observe the writes made earlier in the same transaction. A
projection is executed in two passes, of which only the second one writes, so its reads observe
the state at the start of the frame. This is the same as a direct execution on the state of
the kernel if and only if the direct execution reads nothing that it has changed before
(`reads_observe_writes_iff`).
-/

namespace Detta

open Kernel

/-- Executing a projection on a snapshot and carrying out its trace gives the outcome of the
    direct execution, with reads that observe all that precedes them, if and only if every read
    of the direct execution returns what the entry was at the start. -/
theorem reads_observe_writes_iff (env : Env) (call : ContractCall) (tx : Transaction)
    (msgSender : Principal) (host : AspectHostContext) (projection : String) (m : Machine) :
    SameOutcome (recordAndReplay env call tx msgSender host projection m)
        (executeDirectly env call tx msgSender host projection m) ∧
      ReadsLive env call tx msgSender host (answerNow tx msgSender host m.state)
        (recordedTrace tx msgSender host projection m.state) m ↔
    ∀ r ∈ directReads env call tx msgSender host projection m,
      answerNow tx msgSender host m.state r.1 = some r.2 := by
  unfold executeDirectly directReads
  cases hc : captured tx msgSender host m.state with
  | error e =>
    -- without a snapshot, nothing is executed
    have htrace : recordedTrace tx msgSender host projection m.state = [] := by
      rw [recordedTrace, hc]
    rw [recordAndReplay_of_not_captured projection hc, htrace]
    exact ⟨fun _ r hr => absurd hr List.not_mem_nil, fun _ => ⟨trivial, trivial⟩⟩
  | ok input =>
    have hanswer : answerNow tx msgSender host m.state = input.answer := by
      funext op
      rw [answerNow, hc]
    obtain ⟨r, hlocked, htrace, hreplay⟩ := locked_projection env call projection hc
    rw [hanswer, ← htrace, ← hreplay]
    exact hlocked.iff

/-! ## A read that misses a write -/

namespace Tally

/-- A module whose contracts count: `twice` counts up by one, and does it again. -/
def declarations : Declarations where
  types := []
  aspects := [⟨"T", false, ∅, ∅, ∅, ∅⟩]
  bundles := [⟨"T", .ofList ["T"], ∅, ∅⟩]
  projections := [⟨"T", "twice", .list ["=", .list ["T.twice"], .list ["countTwice"]]⟩]
  actions := [
    ⟨"T", "countUp", true, some (.list ["=", .list ["countUp"],
      .list ["state-set!", "count", .list ["safe-add", .list ["state-get", "count"], "1"]]])⟩,
    ⟨"T", "countTwice", true, some (.list ["=", .list ["countTwice"],
      .list ["begin", .list ["countUp"], .list ["countUp"], "True"]])⟩]
  storageSchema := [⟨"T", "count", "Amount"⟩]
  invariants := []
  abi := [⟨"T", "twice", .list ["args"], "Bool"⟩]
  policies := [
    ⟨"T", "twice", .txSender, .ofList [EffectKind.readState, EffectKind.writeState], ∅, ∅, ∅⟩]

def module : AspectModuleRecord :=
  { Proxy.module with moduleId := "T", ir := some (declarations.lower "00") }

def env : Env :=
  { Proxy.env with parseModule := fun source => some (source, declarations.lower "00") }

/-- A contract `n` of the module. -/
def state : DeTTaState :=
  runOps env (.new "c") [.deploy (.aspectModule module), .deploy (.aspectContract "n" "00" "T")]

theorem reachable_state : Reachable env state := (Reachable.new "c").runOps _

def twice : Transaction := Proxy.call "alice" "n" (.other "twice") []

/-- The key of the count. -/
def count : StateKey := .aspectState "n" "T" "count" []

/-- The contract at work. -/
def host : AspectHostContext where
  module := module
  ir := declarations.lower "00"
  bundleId := "T"
  policy :=
    ⟨"T", "twice", .txSender, .ofList [EffectKind.readState, EffectKind.writeState], ∅, ∅, ∅⟩
  frame := ⟨"n", .ofList [count]⟩

/-- The machine in which the method is run. -/
def machine : Machine :=
  ⟨state.useNonce twice, CallContext.new "alice", CallLog.empty⟩

/-- The count in the end, if there is no failure. -/
def counted (r : EStateM.Result ExecutionError Machine AspectValue) : Option Amount :=
  match r with
  | .ok _ m => some (m.state.uintAt count)
  | .error _ _ => none

end Tally

open Tally

theorem SameOutcome.counted_eq {r q : EStateM.Result ExecutionError Machine AspectValue}
    (h : SameOutcome r q) : counted r = counted q := by
  cases r with
  | ok =>
    cases q with
    | ok =>
      obtain ⟨-, rfl⟩ := h
      rfl
    | error => exact absurd h id
  | error =>
    cases q with
    | ok => exact absurd h id
    | error => rfl

set_option maxRecDepth 4000 in
/-- The transaction that counts up twice is committed with a count of one. Its second read does
    not see its first write: the direct execution counts to two. -/
theorem read_misses_own_write :
    Reachable env state ∧ Commits env state twice ∧
      (applyTransaction env state twice).1.uintAt count = 1 ∧
      counted (executeDirectly env (executeCall env 1) twice "alice"
        host "twice" machine) = some 2 ∧
      ¬SameOutcome (recordAndReplay env (executeCall env 1) twice "alice"
        host "twice" machine) (executeDirectly env (executeCall env 1)
        twice "alice" host "twice" machine) := by
  have hrun : Commits env state twice ∧
      (applyTransaction env state twice).1.uintAt count = 1 ∧
      counted (executeDirectly env (executeCall env 1) twice "alice"
        host "twice" machine) = some 2 ∧
      counted (recordAndReplay env (executeCall env 1) twice "alice"
        host "twice" machine) ≠ some 2 := by
    decide
  obtain ⟨hcommits, hone, htwo, hne⟩ := hrun
  exact ⟨reachable_state, hcommits, hone, htwo, fun h => hne (h.counted_eq.trans htwo)⟩

end Detta
