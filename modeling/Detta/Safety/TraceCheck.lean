import Detta.Safety.Rules

/-!
# The trace checker

The verifier checks the state writes of a recorded trace against a contract and a write scope, as
the kernel does when it carries them out. The two agree, except on map entries that the scope
has only by the wildcard of their map: the kernel accepts them and the checker reports them.
-/

namespace Detta

open Kernel

/-! ## The checker -/

inductive TraceOp where
  | stateGet (key : StateKey)
  | stateSet (key : StateKey)
  | abort
  | callContract (contract : String) (method : Method)

inductive TraceError where
  | writeScopeViolation (key : StateKey)
  | contractIsolationViolation (key : StateKey) (contract : String)
deriving DecidableEq

/-- The errors of a trace. The contract of a key is read as in the kernel. -/
def verifyKernelTrace (contract : ContractId) (writeScope : Std.ExtTreeSet StateKey)
    (trace : List TraceOp) : List TraceError :=
  trace.flatMap fun
    | .stateSet key =>
      (if key.ownerContract ≠ contract then [.contractIsolationViolation key contract] else []) ++
        if writeScope.contains key then [] else [.writeScopeViolation key]
    | _ => []

/-! ## The checker and the kernel -/

section Writes

variable (contract : ContractId) (scope : Std.ExtTreeSet StateKey)
  (writes : List (StateKey × Amount))

/-- The kernel carries out all writes in a frame. -/
def AcceptsWrites (m : Machine) : Prop :=
  wp (forM writes fun w => stateSet ⟨contract, scope⟩ w.1 w.2) (fun _ _ => True) (fun _ _ => False)
    m

/-- No write changes the frame, so that each is accepted or refused by itself. -/
theorem acceptsWrites_iff (m : Machine) :
    AcceptsWrites contract scope writes m ↔
      ∀ w ∈ writes, w.1.ownerContract = contract ∧ writeScopeContains scope w.1 = true := by
  induction writes generalizing m with
  | nil => simp [AcceptsWrites]
  | cons w writes ih =>
    simp only [AcceptsWrites, stateSet] at ih
    simp only [AcceptsWrites, stateSet, List.forM_cons, wp_bind, wp_ensure, wp_write, ih,
      List.forall_mem_cons, imp_false, not_not]
    constructor
    · rintro ⟨h, hc⟩
      exact ⟨⟨hc, (h hc).2⟩, (h hc).1 (h hc).2⟩
    · rintro ⟨⟨hc, hs⟩, h⟩
      exact ⟨fun _ => ⟨fun _ => h, hs⟩, hc⟩

theorem verifyKernelTrace_eq_nil_iff :
    verifyKernelTrace contract scope (writes.map (.stateSet ·.1)) = [] ↔
      ∀ w ∈ writes, w.1.ownerContract = contract ∧ scope.contains w.1 = true := by
  rw [verifyKernelTrace, List.flatMap_map, List.flatMap_eq_nil_iff]
  simp

/-- The scope has a map entry, but only by the wildcard of its map. -/
def OnlyByWildcard (key : StateKey) : Prop :=
  scope.contains key = false ∧ writeScopeContains scope key = true

/-- The checker reports nothing exactly if the kernel accepts all writes, if and only if a list with
    a write by wildcard only also has a write that the kernel refuses. -/
theorem trace_checker_agrees_iff (m : Machine) :
    (verifyKernelTrace contract scope (writes.map (.stateSet ·.1)) = [] ↔
      AcceptsWrites contract scope writes m) ↔
    ((∃ w ∈ writes, OnlyByWildcard scope w.1) →
      ∃ w ∈ writes, w.1.ownerContract ≠ contract ∨ writeScopeContains scope w.1 = false) := by
  rw [verifyKernelTrace_eq_nil_iff, acceptsWrites_iff]
  constructor
  · rintro h ⟨w, hw, hn, -⟩
    by_contra! hall
    have hc := (h.2 fun w hw => ⟨(hall w hw).1, by simpa using (hall w hw).2⟩) w hw
    rw [hn] at hc
    cases hc.2
  · intro h
    constructor
    · intro hall w hw
      exact ⟨(hall w hw).1, by simp [writeScopeContains, (hall w hw).2]⟩
    · intro hall w hw
      refine ⟨(hall w hw).1, ?_⟩
      by_contra hn
      obtain ⟨w', hw', hc | hs⟩ := h ⟨w, hw, Bool.eq_false_iff.2 hn, (hall w hw).2⟩
      · exact hc (hall w' hw').1
      · rw [(hall w' hw').2] at hs
        cases hs

end Writes

/-- An entry of a map, in a scope with the wildcard of the map. -/
theorem wildcard_write_reported :
    let key := StateKey.aspectState "v" "Vault" "held" ["alice"]
    let scope : Std.ExtTreeSet StateKey := .ofList [StateKey.aspectState "v" "Vault" "held" []]
    verifyKernelTrace "v" scope [.stateSet key] = [.writeScopeViolation key] ∧
      AcceptsWrites "v" scope [(key, 1)] ⟨.new "c", .new "alice", .empty⟩ := by
  refine ⟨by decide, (acceptsWrites_iff ..).2 ?_⟩
  decide

end Detta
