import Mathlib.Data.List.Basic
import Mathlib.Tactic.Common

/-!
# Binary search

The binary search of the standard library, in a list that a comparison splits into a part
that is too small, at most one match, and a part that is too large.

* `binarySearchBy_of_ne`: if there is no match, the search ends where the two parts meet.
-/

namespace Detta

variable {α : Type*} (f : α → Ordering) (l : List α)

/-- Halve the part of the list that starts at `base` until it has one element. Each step
    takes something away, so as many steps as elements are enough. -/
def narrow : ℕ → ℕ → ℕ → ℕ
  | 0, base, _ => base
  | steps + 1, base, size =>
    if 1 < size then
      let half := size / 2
      let mid := base + half
      narrow steps (if l[mid]?.map f = some .gt then base else mid) (size - half)
    else base

/-- The position of a match, or the position where one would have to be inserted. -/
def binarySearchBy : Except ℕ ℕ :=
  let base := narrow f l l.length 0 l.length
  match l[base]?.map f with
  | some .eq => .ok base
  | some .lt => .error (base + 1)
  | _ => .error base

/-- What is left of a search: it starts at something that is not too large, or at the
    beginning, and only what is too large comes after it. -/
structure Narrowed (base size : ℕ) : Prop where
  bound : base + size ≤ l.length
  first : base = 0 ∨ ∀ a, l[base]? = some a → f a ≠ .gt
  rest : ∀ i a, base + size ≤ i → l[i]? = some a → f a = .gt

variable {f l}

theorem narrowed_narrow (hg : l.Pairwise fun a b => f a = .gt → f b = .gt) {steps base size : ℕ}
    (hsize : 0 < size) (hsteps : size ≤ steps) (h : Narrowed f l base size) :
    Narrowed f l (narrow f l steps base size) 1 := by
  induction steps generalizing base size with
  | zero => omega
  | succ steps ih =>
    rw [narrow]
    by_cases hone : 1 < size
    · rw [if_pos hone]
      have hmid : base + size / 2 < l.length := by have := h.bound; omega
      dsimp only
      refine ih (by omega) (by omega) ?_
      by_cases hgt : l[base + size / 2]?.map f = some .gt
      · -- the middle is too large, and so is all that comes after it
        rw [if_pos hgt]
        refine ⟨by have := h.bound; omega, h.first, fun i a hi ha => ?_⟩
        rw [List.getElem?_eq_getElem hmid, Option.map_some, Option.some.injEq] at hgt
        obtain ⟨hil, rfl⟩ := List.getElem?_eq_some_iff.1 ha
        rcases Nat.eq_or_lt_of_le (show base + size / 2 ≤ i by omega) with rfl | hlt
        · exact hgt
        · exact List.pairwise_iff_getElem.1 hg _ i hmid hil hlt hgt
      · rw [if_neg hgt]
        refine ⟨by have := h.bound; omega, .inr fun a ha hgt' => hgt ?_, fun i a hi ha => ?_⟩
        · rw [ha, Option.map_some, hgt']
        · exact h.rest i a (by omega) ha
    · rw [if_neg hone]
      obtain rfl : size = 1 := by omega
      exact h

/-- Without a match, what comes before the position is too small, and the rest too large. -/
theorem binarySearchBy_of_ne (hg : l.Pairwise fun a b => f a = .gt → f b = .gt)
    (hl : l.Pairwise fun a b => f b = .lt → f a = .lt) (hne : ∀ a ∈ l, f a ≠ .eq) :
    ∃ i ≤ l.length, binarySearchBy f l = .error i ∧
      (∀ j a, j < i → l[j]? = some a → f a = .lt) ∧
      ∀ j a, i ≤ j → l[j]? = some a → f a = .gt := by
  rcases Nat.eq_zero_or_pos l.length with hnil | hpos
  · obtain rfl := List.length_eq_zero_iff.1 hnil
    exact ⟨0, Nat.zero_le _, rfl, by simp, by simp⟩
  · have hn : Narrowed f l (narrow f l l.length 0 l.length) 1 :=
      narrowed_narrow hg hpos (Nat.le_refl _)
        ⟨by omega, .inl rfl, fun i a hi ha => by
          have := (List.getElem?_eq_some_iff.1 ha).1
          omega⟩
    generalize hbase : narrow f l l.length 0 l.length = base at hn
    have hlt : base < l.length := by have := hn.bound; omega
    have hat : l[base]? = some l[base] := List.getElem?_eq_getElem hlt
    have hsearch : binarySearchBy f l =
        match f l[base] with
        | .eq => .ok base
        | .lt => .error (base + 1)
        | .gt => .error base := by
      simp only [binarySearchBy, hbase, hat, Option.map_some]
      cases f l[base] <;> rfl
    rw [hsearch]
    cases hf : f l[base] with
    | eq => exact absurd hf (hne _ (List.getElem_mem hlt))
    | lt =>
      refine ⟨base + 1, hlt, rfl, fun j a hj ha => ?_, fun j a hj ha => hn.rest j a hj ha⟩
      obtain ⟨hjl, rfl⟩ := List.getElem?_eq_some_iff.1 ha
      rcases Nat.eq_or_lt_of_le (show j ≤ base by omega) with rfl | hlt'
      · exact hf
      · exact List.pairwise_iff_getElem.1 hl j base hjl hlt hlt' hf
    | gt =>
      have hzero : base = 0 := hn.first.resolve_right fun h => h _ hat hf
      subst hzero
      refine ⟨0, Nat.zero_le _, rfl, by simp, fun j a _ ha => ?_⟩
      rcases Nat.eq_zero_or_pos j with rfl | hj
      · rw [hat, Option.some.injEq] at ha
        exact ha ▸ hf
      · exact hn.rest j a (by omega) ha

example : binarySearchBy (fun a => compare a 4) [1, 3, 5, 8] = .error 2 := by decide

end Detta
