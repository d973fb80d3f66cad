import Mathlib.Data.List.Basic
import Mathlib.Tactic.Common

/-!
# Checks

Functions that check a value and return nothing, or the first error.

* `require`: one condition;
* `checkAll`: a check for every element of a list.
-/

namespace Detta

variable {ε α β : Type}

theorem ite_error_eq_ok {c : Prop} [Decidable c] {e : ε} {r : Except ε α} {a : α} :
    (if c then .error e else r) = .ok a ↔ ¬c ∧ r = .ok a := by
  by_cases h : c <;> simp [h]

/-- There is no error only if the check passes and there is none later. -/
theorem of_ite_eq_none {c : Prop} [Decidable c] {a : α} {rest : Option α}
    (h : (if c then some a else rest) = none) : ¬c ∧ rest = none := by
  split at h
  next => cases h
  next hc => exact ⟨hc, h⟩

theorem bind_eq_ok {x : Except ε Unit} {r : Except ε α} {a : α} :
    (x >>= fun _ => r) = .ok a ↔ x = .ok () ∧ r = .ok a := by
  cases x <;> simp [bind, Except.bind]

theorem exists_of_bind_eq_ok {x : Except ε β} {f : β → Except ε α} {a : α}
    (h : x >>= f = .ok a) : ∃ b, x = .ok b ∧ f b = .ok a := by
  cases x with
  | error e => cases h
  | ok b => exact ⟨b, rfl, h⟩

theorem exists_of_isOk {x : Except ε α} (h : x.isOk = true) : ∃ a, x = .ok a := by
  cases x with
  | error => cases h
  | ok a => exact ⟨a, rfl⟩

/-- A condition that has to hold. -/
def require (c : Prop) [Decidable c] (e : ε) : Except ε Unit := if c then .ok () else .error e

/-- Check every element, in order. -/
def checkAll (check : α → Except ε Unit) : List α → Except ε Unit
  | [] => .ok ()
  | a :: l => do
    check a
    checkAll check l

@[simp]
theorem checkAll_eq_ok {check : α → Except ε Unit} {l : List α} :
    checkAll check l = .ok () ↔ ∀ a ∈ l, check a = .ok () := by
  induction l with
  | nil => simp [checkAll]
  | cons a l ih => rw [checkAll, bind_eq_ok, ih, List.forall_mem_cons]

theorem forM_eq_checkAll (check : α → Except ε Unit) (l : List α) :
    l.forM check = checkAll check l := by
  induction l with
  | nil => rfl
  | cons a l ih =>
    rw [checkAll, ← ih]
    rfl

/-- A loop in which no round fails. -/
theorem foldlM_eq_ok {f : β → α → Except ε β} {g : β → α → β} {l : List α}
    (h : ∀ a ∈ l, ∀ b, f b a = .ok (g b a)) (b : β) : l.foldlM f b = .ok (l.foldl g b) := by
  induction l generalizing b with
  | nil => rfl
  | cons a l ih =>
    obtain ⟨ha, hl⟩ := List.forall_mem_cons.1 h
    rw [List.foldlM_cons, ha]
    exact ih hl (g b a)

end Detta
