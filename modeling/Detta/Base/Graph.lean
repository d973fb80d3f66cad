import Detta.Base.Check
import Mathlib.Data.List.Perm.Subperm
import Mathlib.Logic.Relation

/-!
# Search for cycles

A depth-first search through a graph that is given by the successors of each node. It fails
at the first node that it meets again while it is still below that node; otherwise it returns
the nodes it has been to, with each node before its successors.

* `acc_of_detectCycle`: a node from which the search succeeds is not on a cycle, and neither
  is any node that it leads to;
* `nodup_of_isChain`: a path through such nodes does not meet a node twice;
* `exists_detectCycle_eq_ok`: without a cycle the search succeeds;
* `SearchesCycle.eq_detectCycle`: it comes to an end, with the same result for any greater depth.

A search that collects something from every node skips the nodes above instead of failing:

* `Searches.adds`: it collects what is there for the nodes that can be reached, and nothing else.
-/

namespace Detta

variable {α : Type} [DecidableEq α]

/-- Search from a node; `visiting` are the nodes above it and `visited` those that are done.
    The search goes at most as deep as there are nodes, so that their number (and one) is
    enough for the first argument. -/
def detectCycle (next : α → List α) : ℕ → List α → List α → α → Except α (List α)
  | 0, _, _, a => .error a
  | depth + 1, visiting, visited, a =>
    if a ∈ visited then .ok visited
    else if a ∈ visiting then .error a
    else do
      let visited ← (next a).foldlM (detectCycle next depth (a :: visiting)) visited
      .ok (a :: visited)

variable {next : α → List α}

omit [DecidableEq α] in
/-- Each node stands before its successors. -/
inductive Ordered (next : α → List α) : List α → Prop
  | nil : Ordered next []
  | cons {a l} : (∀ b ∈ next a, b ∈ l) → Ordered next l → Ordered next (a :: l)

omit [DecidableEq α] in
theorem Ordered.acc {l : List α} (h : Ordered next l) :
    ∀ a ∈ l, Acc (fun b a => b ∈ next a) a := by
  induction h with
  | nil => exact fun _ ha => absurd ha List.not_mem_nil
  | @cons a l hnext _ ih =>
    intro b hb
    rcases List.mem_cons.1 hb with rfl | hb
    · exact ⟨_, fun c hc => ih c (hnext c hc)⟩
    · exact ih b hb

/-- What a search returns: nodes in order, with all that it started from. -/
theorem ordered_of_detectCycle {depth : ℕ} {visiting visited visited' : List α} {a : α}
    (hvisited : Ordered next visited)
    (h : detectCycle next depth visiting visited a = .ok visited') :
    Ordered next visited' ∧ a ∈ visited' ∧ visited ⊆ visited' := by
  induction depth generalizing visiting visited visited' a with
  | zero => cases h
  | succ depth ih =>
    -- the successors are searched one after the other
    have hall : ∀ {l : List α} {visited visited' : List α}, Ordered next visited →
        l.foldlM (detectCycle next depth (a :: visiting)) visited = .ok visited' →
        Ordered next visited' ∧ (∀ b ∈ l, b ∈ visited') ∧ visited ⊆ visited' := by
      intro l
      induction l with
      | nil =>
        intro visited visited' hv hl
        cases hl
        exact ⟨hv, nofun, List.Subset.refl _⟩
      | cons b l ihl =>
        intro visited visited' hv hl
        obtain ⟨visited₁, hb, hl⟩ := exists_of_bind_eq_ok hl
        obtain ⟨hv₁, hb₁, hsub₁⟩ := ih hv hb
        obtain ⟨hv', hl', hsub⟩ := ihl hv₁ hl
        exact ⟨hv', List.forall_mem_cons.2 ⟨hsub hb₁, hl'⟩, List.Subset.trans hsub₁ hsub⟩
    unfold detectCycle at h
    split at h
    · next hmem =>
      cases h
      exact ⟨hvisited, hmem, List.Subset.refl _⟩
    · rw [ite_error_eq_ok] at h
      obtain ⟨visited₁, hl, h⟩ := exists_of_bind_eq_ok h.2
      cases h
      obtain ⟨hv₁, hnext, hsub⟩ := hall hvisited hl
      exact ⟨.cons hnext hv₁, List.mem_cons_self,
        List.Subset.trans hsub (List.subset_cons_self _ _)⟩

theorem acc_of_detectCycle {depth : ℕ} {visited : List α} {a : α}
    (h : detectCycle next depth [] [] a = .ok visited) : Acc (fun b a => b ∈ next a) a := by
  obtain ⟨hordered, hmem, -⟩ := ordered_of_detectCycle .nil h
  exact hordered.acc a hmem

omit [DecidableEq α] in
theorem not_transGen_self {r : α → α → Prop} {a : α} (h : Acc r a) :
    ¬Relation.TransGen r a a := by
  replace h := h.transGen
  induction h with
  | intro a _ ih => exact fun ha => ih a ha ha

omit [DecidableEq α] in
/-- A path, from its last node to its first, on which no node leads back to itself. -/
theorem nodup_of_isChain {l : List α} (hchain : l.IsChain fun b a => b ∈ next a)
    (hacc : ∀ a ∈ l, Acc (fun b a => b ∈ next a) a) : l.Nodup := by
  have hpath : l.Pairwise (Relation.TransGen fun b a => b ∈ next a) :=
    (hchain.imp fun _ _ => Relation.TransGen.single).pairwise
  refine List.Pairwise.imp_of_mem (fun {a b} ha _ hab => ?_) hpath
  rintro rfl
  exact not_transGen_self (hacc a ha) hab

/-! ### Exactness -/

section Exact

/-- A search that goes on as `detectCycle` does, whatever it does when no levels are left. -/
def SearchesCycle (next : α → List α)
    (search : ℕ → List α → List α → α → Except α (List α)) : Prop :=
  ∀ depth visiting visited a, search (depth + 1) visiting visited a =
    if a ∈ visited then .ok visited
    else if a ∈ visiting then .error a
    else do
      let visited ← (next a).foldlM (search depth (a :: visiting)) visited
      .ok (a :: visited)

omit [DecidableEq α] in
/-- What a node has from its successors, as long as it is not met again: there are enough levels
    below the first node, if all nodes that have successors are known. -/
theorem search_induction {known : List α} (hknown : ∀ a, a ∉ known → next a = [])
    {P : ℕ → List α → α → Prop}
    (hstep : ∀ depth visiting a, (a ∉ visiting → next a ≠ [] → ∀ b, P depth (a :: visiting) b) →
      P (depth + 1) visiting a) (a : α) : P (known.length + 1) [] a := by
  have hbelow {depth : ℕ} {visiting : List α} (hnodup : visiting.Nodup)
      (hsub : visiting ⊆ known) (hdepth : known.length < depth + visiting.length) (a : α) :
      P depth visiting a := by
    induction depth generalizing visiting a with
    | zero =>
      have hlength := (hnodup.subperm hsub).length_le
      omega
    | succ depth ih =>
      refine hstep _ _ _ fun hmem hne b => ?_
      have ha : a ∈ known := by
        by_contra ha
        exact hne (hknown a ha)
      refine ih (List.nodup_cons.2 ⟨hmem, hnodup⟩) (List.cons_subset.2 ⟨ha, hsub⟩) ?_ b
      rw [List.length_cons]
      omega
  exact hbelow .nil (List.nil_subset _) (Nat.lt_succ_self _) a

variable {known : List α} (hknown : ∀ a, a ∉ known → next a = [])

include hknown

/-- The levels do not run out. -/
theorem SearchesCycle.eq_detectCycle {search : ℕ → List α → List α → α → Except α (List α)}
    (hs : SearchesCycle next search) (extra : ℕ) (a : α) :
    search (known.length + 1 + extra) [] [] a = detectCycle next (known.length + 1) [] [] a := by
  refine search_induction hknown (P := fun depth visiting a => ∀ visited,
    search (depth + extra) visiting visited a = detectCycle next depth visiting visited a)
    (fun depth visiting a ih visited => ?_) a []
  rw [Nat.add_right_comm, hs, detectCycle]
  split
  · rfl
  split
  · rfl
  next hmem =>
    by_cases hne : next a = []
    · rw [hne]
      rfl
    · rw [funext₂ fun visited b => ih hmem hne b visited]

/-- Without a cycle the search succeeds. -/
theorem exists_detectCycle_eq_ok
    (hacyclic : ∀ a, ¬Relation.TransGen (fun a b => b ∈ next a) a a) (a : α) :
    ∃ visited, detectCycle next (known.length + 1) [] [] a = .ok visited := by
  -- all nodes above lead to the one that is searched
  refine search_induction hknown (P := fun depth visiting a =>
    (∀ c ∈ visiting, Relation.TransGen (fun a b => b ∈ next a) c a) →
    ∀ visited, ∃ visited', detectCycle next depth visiting visited a = .ok visited')
    (fun depth visiting a ih hpath visited => ?_) a nofun []
  have hmem : a ∉ visiting := fun h => hacyclic a (hpath a h)
  have hall : ∀ b ∈ next a, ∀ visited, detectCycle next depth (a :: visiting) visited b =
      .ok ((detectCycle next depth (a :: visiting) visited b).toOption.getD []) := by
    intro b hb visited
    have hb' : ∀ c ∈ a :: visiting, Relation.TransGen (fun a b => b ∈ next a) c b :=
      List.forall_mem_cons.2 ⟨.single hb, fun c hc => (hpath c hc).tail hb⟩
    obtain ⟨visited', h⟩ := ih hmem (List.ne_nil_of_mem hb) b hb' visited
    rw [h]
    rfl
  rw [detectCycle, if_neg hmem, foldlM_eq_ok hall]
  split <;> exact ⟨_, rfl⟩

end Exact

/-! ## Collecting -/

section Collect

variable {α β δ ε σ V : Type} [Membership β σ]

/-- The computation succeeds, and adds what satisfies `S`. -/
def Adds (acc : σ) (S : β → Prop) (r : Except ε σ) : Prop :=
  ∃ acc', r = .ok acc' ∧ ∀ x, x ∈ acc' ↔ x ∈ acc ∨ S x

theorem Adds.foldlM {f : σ → α → Except ε σ} {S : α → β → Prop} {l : List α}
    (hf : ∀ a ∈ l, ∀ acc, Adds acc (S a) (f acc a)) (acc : σ) :
    Adds acc (fun x => ∃ a ∈ l, S a x) (l.foldlM f acc) := by
  induction l generalizing acc with
  | nil => exact ⟨acc, rfl, by simp⟩
  | cons a l ih =>
    obtain ⟨ha, hl⟩ := List.forall_mem_cons.1 hf
    obtain ⟨acc₁, h₁, hacc₁⟩ := ha acc
    obtain ⟨acc₂, h₂, hacc₂⟩ := ih hl acc₁
    refine ⟨acc₂, ?_, fun x => ?_⟩
    · rw [List.foldlM_cons, h₁]
      exact h₂
    · rw [hacc₂, hacc₁, or_assoc]
      simp

/-- A node leads to another one, past none of the given nodes. -/
def LeadsPast (r : α → α → Prop) (path : List α) (a b : α) : Prop :=
  a ∉ path ∧ Relation.ReflTransGen (fun x y => r x y ∧ y ∉ path) a b

/-- After the first node, a path need not come back to it. -/
theorem leadsPast_iff {r : α → α → Prop} {path : List α} {a b : α} :
    LeadsPast r path a b ↔ a ∉ path ∧ (b = a ∨ ∃ c, r a c ∧ LeadsPast r (a :: path) c b) := by
  refine and_congr_right fun ha => ⟨fun h => ?_, ?_⟩
  · induction h with
    | refl => exact .inl rfl
    | @tail c b _ hcb ih =>
      by_cases hb : b = a
      · exact .inl hb
      · have hfree : b ∉ a :: path := by simp [hb, hcb.2]
        rcases ih with rfl | ⟨c', hc', hfirst, hrest⟩
        · exact .inr ⟨b, hcb.1, hfree, .refl⟩
        · exact .inr ⟨c', hc', hfirst, hrest.tail ⟨hcb.1, hfree⟩⟩
  · rintro (rfl | ⟨c, hc, hfree, h⟩)
    · exact .refl
    · refine .head ⟨hc, fun hmem => hfree (List.mem_cons_of_mem _ hmem)⟩
        (Relation.ReflTransGen.mono (fun x y hxy => ?_) _ _ h)
      exact ⟨hxy.1, fun hmem => hxy.2 (List.mem_cons_of_mem _ hmem)⟩

/-- A search that collects from the successors of a node first, and then from the node. A node
    is skipped while it is among those above, which are kept in some form. -/
structure Searches (get : α → Option δ) (next : δ → List α) (add : α → δ → σ → Except ε σ)
    (above : V → α → Prop) (push : V → α → V) (f : ℕ → V → σ → α → Except ε σ) : Prop where
  above_push : ∀ v a x, above (push v a) x ↔ x = a ∨ above v x
  skip : ∀ depth v acc a, above v a → f (depth + 1) v acc a = .ok acc
  step : ∀ depth v acc a d, ¬above v a → get a = some d →
    f (depth + 1) v acc a = (next d).foldlM (f depth (push v a)) acc >>= add a d

/-- The nodes are known, with all that they lead to. -/
def Knows (get : α → Option δ) (next : δ → List α) (r : α → α → Prop) (known : List α) : Prop :=
  ∀ a ∈ known, ∃ d, get a = some d ∧ (∀ b, r a b ↔ b ∈ next d) ∧ ∀ b ∈ next d, b ∈ known

variable {get : α → Option δ} {next : δ → List α} {add : α → δ → σ → Except ε σ}
  {above : V → α → Prop} {push : V → α → V} {f : ℕ → V → σ → α → Except ε σ}
  {r : α → α → Prop} {known : List α}

/-- What a search collects, below a path: what is there for each node to which there is a way
    past the path. As many levels as there are nodes, and one, are enough. -/
theorem Searches.adds (hf : Searches get next add above push f) (hknown : Knows get next r known)
    {S : α → β → Prop}
    (hadd : ∀ a ∈ known, ∀ d, get a = some d → ∀ acc, Adds acc (S a) (add a d acc))
    {depth : ℕ} {v : V} {path : List α} {a : α} (hv : ∀ x, above v x ↔ x ∈ path)
    (hnodup : path.Nodup) (hsub : path ⊆ known) (hdepth : known.length < depth + path.length)
    (ha : a ∈ known) (acc : σ) :
    Adds acc (fun x => ∃ b, LeadsPast r path a b ∧ S b x) (f depth v acc a) := by
  induction depth generalizing v path a acc with
  | zero =>
    have hlength := (hnodup.subperm hsub).length_le
    omega
  | succ depth ih =>
    by_cases hmem : a ∈ path
    · exact ⟨acc, hf.skip _ _ _ _ ((hv a).2 hmem), fun x => by simp [LeadsPast, hmem]⟩
    · obtain ⟨d, hd, hr, hnext⟩ := hknown a ha
      have hbelow (b : α) (hb : b ∈ next d) (acc : σ) :
          Adds acc (fun x => ∃ c, LeadsPast r (a :: path) b c ∧ S c x)
            (f depth (push v a) acc b) := by
        refine ih (fun x => ?_) (List.nodup_cons.2 ⟨hmem, hnodup⟩)
          (List.cons_subset.2 ⟨ha, hsub⟩) ?_ (hnext b hb) acc
        · rw [hf.above_push, hv, List.mem_cons]
        · rw [List.length_cons]
          omega
      obtain ⟨acc₁, h₁, hacc₁⟩ := Adds.foldlM hbelow acc
      obtain ⟨acc₂, h₂, hacc₂⟩ := hadd a ha d hd acc₁
      refine ⟨acc₂, ?_, fun x => ?_⟩
      · rw [hf.step _ _ _ _ _ (fun h => hmem ((hv a).1 h)) hd, h₁]
        exact h₂
      · rw [hacc₂, hacc₁, or_assoc]
        refine or_congr_right ⟨?_, ?_⟩
        · rintro (⟨b, hb, c, hbc, hx⟩ | hx)
          · exact ⟨c, leadsPast_iff.2 ⟨hmem, .inr ⟨b, (hr b).2 hb, hbc⟩⟩, hx⟩
          · exact ⟨a, leadsPast_iff.2 ⟨hmem, .inl rfl⟩, hx⟩
        · rintro ⟨c, hc, hx⟩
          rcases (leadsPast_iff.1 hc).2 with rfl | ⟨b, hb, hbc⟩
          · exact .inr hx
          · exact .inl ⟨b, (hr b).1 hb, c, hbc, hx⟩

/-- What a search collects that starts with nothing above. -/
theorem Searches.adds_reachable (hf : Searches get next add above push f)
    (hknown : Knows get next r known) {S : α → β → Prop}
    (hadd : ∀ a ∈ known, ∀ d, get a = some d → ∀ acc, Adds acc (S a) (add a d acc))
    {v : V} (hv : ∀ x, ¬above v x) {a : α} (ha : a ∈ known) (acc : σ) :
    Adds acc (fun x => ∃ b, Relation.ReflTransGen r a b ∧ S b x)
      (f (known.length + 1) v acc a) := by
  have hnone (x : α) : above v x ↔ x ∈ [] := by simp [hv]
  have hadds := hf.adds hknown hadd hnone .nil (List.nil_subset _) (Nat.lt_succ_self _) ha acc
  simpa [LeadsPast] using hadds

end Collect

end Detta
