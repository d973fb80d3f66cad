import Mathlib.Data.List.Basic
import Mathlib.Tactic.Common

/-!
# Runs

A machine takes one operation after the other (`runFrom`). The steps of a run are its
operations, each with the state it is applied to (`stepsFrom`). What every step keeps that
meets some condition holds in all states of a run whose steps meet the condition
(`runFrom_invariant`).
-/

namespace Detta

variable {σ ο : Type*} (apply : σ → ο → σ)

/-- The state after a sequence of operations. -/
def runFrom (s : σ) (ops : List ο) : σ := ops.foldl apply s

/-- The operations of a run, each with the state it is applied to. -/
def stepsFrom (s : σ) : List ο → List (σ × ο)
  | [] => []
  | op :: ops => (s, op) :: stepsFrom (apply s op) ops

variable {apply}

theorem runFrom_append (s : σ) (ops ops' : List ο) :
    runFrom apply s (ops ++ ops') = runFrom apply (runFrom apply s ops) ops' :=
  List.foldl_append

theorem stepsFrom_append (s : σ) (ops ops' : List ο) :
    stepsFrom apply s (ops ++ ops') =
      stepsFrom apply s ops ++ stepsFrom apply (runFrom apply s ops) ops' := by
  induction ops generalizing s with
  | nil => rfl
  | cons op ops ih =>
    rw [List.cons_append, stepsFrom, ih, stepsFrom, List.cons_append]
    rfl

/-- A step comes after the operations before it. -/
theorem exists_of_mem_stepsFrom {s : σ} {ops : List ο} {p : σ × ο}
    (h : p ∈ stepsFrom apply s ops) :
    ∃ before after, ops = before ++ p.2 :: after ∧ p.1 = runFrom apply s before := by
  induction ops generalizing s with
  | nil => exact absurd h List.not_mem_nil
  | cons op ops ih =>
    rcases List.mem_cons.1 h with rfl | h
    · exact ⟨[], ops, rfl, rfl⟩
    · obtain ⟨before, after, rfl, hp⟩ := ih h
      exact ⟨op :: before, after, rfl, hp⟩

theorem mem_of_mem_stepsFrom {s : σ} {ops : List ο} {p : σ × ο}
    (h : p ∈ stepsFrom apply s ops) : p.2 ∈ ops := by
  obtain ⟨before, after, rfl, -⟩ := exists_of_mem_stepsFrom h
  exact List.mem_append_right _ List.mem_cons_self

/-- What holds in the beginning and is kept by every step that meets a condition holds before
    and after all steps of a run whose steps meet it. -/
theorem runFrom_invariant {I : σ → Prop} {Meets : σ → ο → Prop} {s : σ} (hs : I s)
    (hstep : ∀ s op, I s → Meets s op → I (apply s op)) {ops : List ο}
    (h : ∀ p ∈ stepsFrom apply s ops, Meets p.1 p.2) :
    I (runFrom apply s ops) ∧ ∀ p ∈ stepsFrom apply s ops, I p.1 := by
  induction ops generalizing s with
  | nil => exact ⟨hs, fun _ hp => absurd hp List.not_mem_nil⟩
  | cons op ops ih =>
    obtain ⟨hop, hops⟩ := List.forall_mem_cons.1 h
    obtain ⟨hend, hbefore⟩ := ih (hstep s op hs hop) hops
    exact ⟨hend, List.forall_mem_cons.2 ⟨hs, hbefore⟩⟩

end Detta
