import Mathlib.Data.List.Basic
import Mathlib.Data.List.Induction
import Mathlib.Data.List.Nodup
import Mathlib.Tactic.Common

/-!
# Merkle trees

Binary trees whose digest is computed from the digests of their leaves, by one function
for leaves and another one for inner nodes.

* `digest_inj`: two trees with the same digest are the same, provided the two functions
  tell apart what occurs in the trees (`Apart`). Nothing is assumed of other values.
* `ofList`: the tree over a list, built level by level; the last one of an odd level is
  paired with itself. So its leaves are the list and some repetitions
  (`leaves_of_ofList`), and the tree determines the list if its length is known, or if it
  has no repetitions.
* `mem_leaves_of_climb`: a path from a leaf to the digest of a tree starts at a leaf of the
  tree, whatever the siblings on the path are.
-/

namespace Detta

/-- A binary tree with values at the leaves. -/
inductive MerkleTree (α : Type*) where
  | leaf (a : α)
  | node (left right : MerkleTree α)

namespace MerkleTree

variable {α δ : Type*}

/-- The leaves, from left to right. -/
def leaves : MerkleTree α → List α
  | leaf a => [a]
  | node l r => l.leaves ++ r.leaves

section Digests

variable (hl : α → δ) (hn : δ → δ → δ)

def digest : MerkleTree α → δ
  | leaf a => hl a
  | node l r => hn (l.digest) (r.digest)

/-- The digests that are combined in the nodes of the tree. -/
def pairs : MerkleTree α → List (δ × δ)
  | leaf _ => []
  | node l r => (l.digest hl hn, r.digest hl hn) :: (l.pairs ++ r.pairs)

/-- The hash functions tell apart leaves and pairs of digests from others. -/
structure Apart (as as' : List α) (ps ps' : List (δ × δ)) : Prop where
  leaf : ∀ a ∈ as, ∀ a' ∈ as', hl a = hl a' → a = a'
  node : ∀ p ∈ ps, ∀ p' ∈ ps', hn p.1 p.2 = hn p'.1 p'.2 → p = p'
  leaf_node : ∀ a ∈ as, ∀ p' ∈ ps', hl a ≠ hn p'.1 p'.2
  node_leaf : ∀ p ∈ ps, ∀ a' ∈ as', hn p.1 p.2 ≠ hl a'

variable {hl hn}

/-- What holds of more leaves and pairs holds of fewer. -/
theorem Apart.mono {as bs as' bs' : List α} {ps qs ps' qs' : List (δ × δ)}
    (h : Apart hl hn as as' ps ps') (ha : bs ⊆ as) (ha' : bs' ⊆ as') (hp : qs ⊆ ps)
    (hp' : qs' ⊆ ps') : Apart hl hn bs bs' qs qs' where
  leaf a hm a' hm' := h.leaf a (ha hm) a' (ha' hm')
  node p hm p' hm' := h.node p (hp hm) p' (hp' hm')
  leaf_node a hm p' hm' := h.leaf_node a (ha hm) p' (hp' hm')
  node_leaf p hm a' hm' := h.node_leaf p (hp hm) a' (ha' hm')

/-- The digest determines the tree. -/
theorem digest_inj {t t' : MerkleTree α}
    (h : Apart hl hn t.leaves t'.leaves (t.pairs hl hn) (t'.pairs hl hn))
    (heq : t.digest hl hn = t'.digest hl hn) : t = t' := by
  induction t generalizing t' with
  | leaf a =>
    cases t' with
    | leaf a' => rw [h.leaf a (by simp [leaves]) a' (by simp [leaves]) heq]
    | node l' r' =>
      exact absurd heq (h.leaf_node a (by simp [leaves]) (l'.digest hl hn, r'.digest hl hn)
        (by simp [pairs]))
  | node l r ihl ihr =>
    cases t' with
    | leaf a' =>
      exact absurd heq (h.node_leaf (l.digest hl hn, r.digest hl hn) (by simp [pairs]) a'
        (by simp [leaves]))
    | node l' r' =>
      have hpair := h.node (l.digest hl hn, r.digest hl hn) (by simp [pairs])
        (l'.digest hl hn, r'.digest hl hn) (by simp [pairs]) heq
      rw [Prod.mk.injEq] at hpair
      -- both halves of the two trees are apart, as parts of them
      have hleft : l = l' := by
        refine ihl (h.mono ?_ ?_ ?_ ?_) hpair.1 <;> intro x hx <;> simp [leaves, pairs, hx]
      have hright : r = r' := by
        refine ihr (h.mono ?_ ?_ ?_ ?_) hpair.2 <;> intro x hx <;> simp [leaves, pairs, hx]
      rw [hleft, hright]

end Digests

/-! ## Trees over lists -/

/-- The trees above a level; the last one of an odd level is paired with itself. -/
def up : List (MerkleTree α) → List (MerkleTree α)
  | [] => []
  | [t] => [node t t]
  | l :: r :: ts => node l r :: up ts

/-- The tree over a level, in at most the given number of steps. -/
def build : ℕ → List (MerkleTree α) → Option (MerkleTree α)
  | n + 1, l :: r :: ts => build n (up (l :: r :: ts))
  | _, t :: _ => some t
  | _, [] => none

/-- The tree over a list of values, none if there are no values. -/
def ofList (as : List α) : Option (MerkleTree α) := build as.length (as.map leaf)

theorem length_up_le (ts : List (MerkleTree α)) : 2 * (up ts).length ≤ ts.length + 1 := by
  induction ts using up.induct with
  | case1 => simp [up]
  | case2 t => simp [up]
  | case3 l r ts ih =>
    simp only [up, List.length_cons]
    omega

/-- A level above has the same leaves, and some of them repeated. -/
theorem leaves_up (ts : List (MerkleTree α)) :
    ∃ rest, (up ts).flatMap leaves = ts.flatMap leaves ++ rest ∧ rest ⊆ ts.flatMap leaves := by
  induction ts using up.induct with
  | case1 => exact ⟨[], rfl, List.nil_subset _⟩
  | case2 t => exact ⟨t.leaves, by simp [up, leaves], by simp⟩
  | case3 l r ts ih =>
    obtain ⟨rest, heq, hsub⟩ := ih
    refine ⟨rest, by simp [up, leaves, heq], fun a ha => ?_⟩
    simp only [List.flatMap_cons, List.mem_append]
    exact .inr (.inr (hsub ha))

/-- The leaves of the tree over a level are those of the level, and some of them repeated. -/
theorem leaves_build {n : ℕ} {ts : List (MerkleTree α)} {t : MerkleTree α} (hn : ts.length ≤ n)
    (h : build n ts = some t) :
    ∃ rest, t.leaves = ts.flatMap leaves ++ rest ∧ rest ⊆ ts.flatMap leaves := by
  induction n generalizing ts with
  | zero =>
    rw [List.length_eq_zero_iff.1 (Nat.le_zero.1 hn)] at h
    cases h
  | succ n ih =>
    match ts, h with
    | [u], h =>
      have hu : some u = some t := h
      cases hu
      exact ⟨[], by simp, List.nil_subset _⟩
    | l :: r :: ts, h =>
      rw [build] at h
      have hlength := length_up_le (l :: r :: ts)
      simp only [List.length_cons] at hlength hn
      obtain ⟨rest, heq, hsub⟩ := ih (by omega) h
      obtain ⟨pad, hup, hpad⟩ := leaves_up (l :: r :: ts)
      rw [hup] at heq hsub
      refine ⟨pad ++ rest, by rw [heq, List.append_assoc], List.append_subset.2 ⟨hpad, ?_⟩⟩
      exact List.Subset.trans hsub (List.append_subset.2 ⟨List.Subset.refl _, hpad⟩)

theorem flatMap_leaves_map_leaf (as : List α) : (as.map leaf).flatMap leaves = as := by
  induction as with
  | nil => rfl
  | cons a as ih => rw [List.map_cons, List.flatMap_cons, ih]; rfl

/-- The leaves of the tree over a list are the list, and repetitions of its values. -/
theorem leaves_of_ofList {as : List α} {t : MerkleTree α} (h : ofList as = some t) :
    ∃ rest, t.leaves = as ++ rest ∧ rest ⊆ as := by
  obtain ⟨rest, heq, hsub⟩ := leaves_build (by simp) h
  rw [flatMap_leaves_map_leaf] at heq hsub
  exact ⟨rest, heq, hsub⟩

/-- A list without repetitions is not continued by its own values. -/
theorem eq_nil_of_nodup {as rest : List α} (h : (as ++ rest).Nodup) (hsub : rest ⊆ as) :
    rest = [] := by
  rw [List.eq_nil_iff_forall_not_mem]
  intro a ha
  exact (List.disjoint_of_nodup_append h) (hsub ha) ha

/-- The tree over a list determines the list among the lists of the same length, and among
    the lists without repetitions. -/
theorem eq_of_ofList_eq {as as' : List α} {t : MerkleTree α} (h : ofList as = some t)
    (h' : ofList as' = some t) (hl : as.length = as'.length ∨ as.Nodup ∧ as'.Nodup) : as = as' := by
  obtain ⟨rest, heq, hsub⟩ := leaves_of_ofList h
  obtain ⟨rest', heq', hsub'⟩ := leaves_of_ofList h'
  rw [heq] at heq'
  rcases hl with hl | ⟨hd, hd'⟩
  · exact (List.append_inj heq' hl).1
  · -- one list continues the other one, by values that it has already
    rcases List.append_eq_append_iff.1 heq' with ⟨more, hmore, hr⟩ | ⟨more, hmore, hr⟩
    · rw [hmore] at hd'
      have hnil := eq_nil_of_nodup hd' fun a ha => hsub (hr ▸ List.mem_append_left _ ha)
      rw [hmore, hnil, List.append_nil]
    · rw [hmore] at hd
      have hnil := eq_nil_of_nodup hd fun a ha => hsub' (hr ▸ List.mem_append_left _ ha)
      rw [hmore, hnil, List.append_nil]

/-- There is a tree over every list but the empty one. -/
theorem build_isSome {n : ℕ} {ts : List (MerkleTree α)} (h : ts ≠ []) : (build n ts).isSome := by
  induction n generalizing ts with
  | zero =>
    obtain ⟨t, ts, rfl⟩ := List.exists_cons_of_ne_nil h
    rfl
  | succ n ih =>
    match ts, h with
    | [t], _ => rfl
    | l :: r :: ts, _ => exact ih (by simp [up])

theorem ofList_eq_none {as : List α} : ofList as = none ↔ as = [] := by
  constructor
  · intro h
    by_contra hne
    have hsome := @build_isSome _ as.length (as.map leaf) (by simpa using hne)
    rw [← ofList, h] at hsome
    cases hsome
  · rintro rfl
    rfl

/-! ## Paths -/

/-- A step from a digest to the one above, with the sibling. -/
inductive Step (δ : Type*) where
  | left (sibling : δ)
  | right (sibling : δ)

section Paths

variable (hl : α → δ) (hn : δ → δ → δ)

/-- The two digests that a step combines. -/
def Step.pair (d : δ) : Step δ → δ × δ
  | left sibling => (sibling, d)
  | right sibling => (d, sibling)

/-- Follow a path upwards. -/
def climb (d : δ) : List (Step δ) → δ
  | [] => d
  | step :: path => climb (hn (step.pair d).1 (step.pair d).2) path

/-- The digests that are combined along a path. -/
def climbed (d : δ) : List (Step δ) → List (δ × δ)
  | [] => []
  | step :: path => step.pair d :: climbed (hn (step.pair d).1 (step.pair d).2) path

theorem climb_append (d : δ) (path : List (Step δ)) (step : Step δ) :
    climb hn d (path ++ [step]) =
      hn (step.pair (climb hn d path)).1 (step.pair (climb hn d path)).2 := by
  induction path generalizing d with
  | nil => rfl
  | cons _ path ih => exact ih _

theorem climbed_append (d : δ) (path : List (Step δ)) (step : Step δ) :
    climbed hn d (path ++ [step]) = climbed hn d path ++ [step.pair (climb hn d path)] := by
  induction path generalizing d with
  | nil => rfl
  | cons _ path ih => exact congrArg _ (ih _)

variable {hl hn}

/-- A path that leads from a leaf to the digest of a tree starts at a leaf of the tree. -/
theorem mem_leaves_of_climb {t : MerkleTree α} {a : α} {path : List (Step δ)}
    (h : Apart hl hn [a] t.leaves (climbed hn (hl a) path) (t.pairs hl hn))
    (heq : climb hn (hl a) path = t.digest hl hn) : a ∈ t.leaves := by
  -- the last step of the path is at the top of the tree
  induction path using List.reverseRecOn generalizing t with
  | nil =>
    cases t with
    | leaf b => rw [h.leaf a (by simp) b (by simp [leaves]) heq]; simp [leaves]
    | node l r =>
      exact absurd heq (h.leaf_node a (by simp) (l.digest hl hn, r.digest hl hn) (by simp [pairs]))
  | append_singleton path step ih =>
    rw [climb_append] at heq
    rw [climbed_append] at h
    cases t with
    | leaf b =>
      exact absurd heq (h.node_leaf (step.pair (climb hn (hl a) path)) (by simp) b
        (by simp [leaves]))
    | node l r =>
      have hpair := h.node (step.pair (climb hn (hl a) path)) (by simp)
        (l.digest hl hn, r.digest hl hn) (by simp [pairs]) heq
      cases step with
      | left sibling =>
        rw [Step.pair, Prod.mk.injEq] at hpair
        have hmem : a ∈ r.leaves := by
          refine ih (h.mono (List.Subset.refl _) ?_ ?_ ?_) hpair.2 <;> intro x hx <;>
            simp [leaves, pairs, hx]
        simp [leaves, hmem]
      | right sibling =>
        rw [Step.pair, Prod.mk.injEq] at hpair
        have hmem : a ∈ l.leaves := by
          refine ih (h.mono (List.Subset.refl _) ?_ ?_ ?_) hpair.1 <;> intro x hx <;>
            simp [leaves, pairs, hx]
        simp [leaves, hmem]

end Paths

end MerkleTree

end Detta
