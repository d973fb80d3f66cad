import Detta.Core.Consensus

/-!
# Votes that contradict each other

A validator equivocates by voting for two blocks of one height. The search through a list of
votes finds evidence exactly if there are two such votes in it, and the evidence names them
(`detectEquivocation_eq_none_iff`, `conflicts_of_detectEquivocation`).
-/

namespace Detta

/-- Two votes of one validator for different blocks of one height. -/
def Vote.Conflicts (a b : Vote) : Prop :=
  a.validatorId = b.validatorId ∧ a.height = b.height ∧ a.blockHash ≠ b.blockHash

instance (a b : Vote) : Decidable (a.Conflicts b) :=
  inferInstanceAs (Decidable (_ ∧ _ ∧ _))

/-- The evidence names two votes, with the smaller hash first. -/
def EquivocationEvidence.Names (e : EquivocationEvidence) (a b : Vote) : Prop :=
  e.validatorId = a.validatorId ∧ e.height = a.height ∧
    (e.firstBlockHash, e.secondBlockHash) = orderedHashPair a.blockHash b.blockHash

instance (e : EquivocationEvidence) (a b : Vote) : Decidable (e.Names a b) :=
  inferInstanceAs (Decidable (_ ∧ _ ∧ _))

variable {votes : List Vote} {e : EquivocationEvidence}

/-- Evidence comes from a vote that contradicts one before it. -/
theorem conflicts_of_detectEquivocationFrom {seen : List Vote}
    (h : detectEquivocationFrom seen votes = some e) :
    ∃ a ∈ seen ++ votes, ∃ b ∈ votes, a.Conflicts b ∧ e.Names a b := by
  induction votes generalizing seen with
  | nil => cases h
  | cons vote votes ih =>
    rw [detectEquivocationFrom] at h
    split at h
    next previous hprevious =>
      have hmem : previous ∈ seen := List.mem_of_find?_eq_some hprevious
      have hkey := List.find?_some hprevious
      rw [decide_eq_true_eq] at hkey
      split at h
      next hne =>
        cases h
        exact ⟨previous, List.mem_append_left _ hmem, vote, List.mem_cons_self,
          ⟨hkey.1, hkey.2, hne⟩, hkey.1.symm, hkey.2.symm, rfl⟩
      next =>
        obtain ⟨a, ha, b, hb, hab⟩ := ih h
        refine ⟨a, ?_, b, List.mem_cons_of_mem _ hb, hab⟩
        rw [List.mem_append, List.mem_cons]
        exact (List.mem_append.1 ha).imp id .inr
    next =>
      obtain ⟨a, ha, b, hb, hab⟩ := ih h
      refine ⟨a, ?_, b, List.mem_cons_of_mem _ hb, hab⟩
      simp only [List.mem_append, List.mem_cons] at ha ⊢
      tauto

/-- What is passed over contradicts nothing: `seen` has a vote of every validator and height
    that has come up, so that it is enough to compare with these. -/
theorem detectEquivocationFrom_eq_none_iff {seen : List Vote}
    (hseen : ∀ a ∈ seen, ∀ b ∈ seen, ¬a.Conflicts b) :
    detectEquivocationFrom seen votes = none ↔
      ∀ a ∈ seen ++ votes, ∀ b ∈ seen ++ votes, ¬a.Conflicts b := by
  induction votes generalizing seen with
  | nil => simpa [detectEquivocationFrom] using hseen
  | cons vote votes ih =>
    rw [detectEquivocationFrom]
    split
    next previous hprevious =>
      have hmem : previous ∈ seen := List.mem_of_find?_eq_some hprevious
      have hkey := List.find?_some hprevious
      rw [decide_eq_true_eq] at hkey
      split
      next hne =>
        simp only [reduceCtorEq, false_iff, not_forall]
        exact ⟨previous, List.mem_append_left _ hmem, vote, by simp,
          not_not.2 ⟨hkey.1, hkey.2, hne⟩⟩
      next heq =>
        -- the vote says the same as one that was seen
        obtain rfl : previous = vote := by
          cases previous
          cases vote
          simp_all
        rw [ih hseen]
        have hsame (a : Vote) : a ∈ seen ++ previous :: votes ↔ a ∈ seen ++ votes := by
          simp only [List.mem_append, List.mem_cons]
          constructor
          · rintro (ha | rfl | ha)
            exacts [.inl ha, .inl hmem, .inr ha]
          · exact Or.imp id .inr
        simp only [hsame]
    next hnone =>
      have hnew : ∀ a ∈ seen, ¬a.Conflicts vote ∧ ¬vote.Conflicts a := by
        intro a ha
        have hkey := List.find?_eq_none.1 hnone a ha
        rw [decide_eq_true_eq] at hkey
        exact ⟨fun h => hkey ⟨h.1, h.2.1⟩, fun h => hkey ⟨h.1.symm, h.2.1.symm⟩⟩
      have hseen' : ∀ a ∈ vote :: seen, ∀ b ∈ vote :: seen, ¬a.Conflicts b := by
        intro a ha b hb
        rcases List.mem_cons.1 ha with rfl | ha' <;> rcases List.mem_cons.1 hb with rfl | hb'
        · exact fun h => h.2.2 rfl
        · exact (hnew b hb').2
        · exact (hnew a ha').1
        · exact hseen a ha' b hb'
      rw [ih hseen']
      have hsame (a : Vote) : a ∈ vote :: seen ++ votes ↔ a ∈ seen ++ vote :: votes := by
        simp only [List.mem_append, List.mem_cons]
        tauto
      simp only [hsame]

theorem conflicts_of_detectEquivocation (h : detectEquivocation votes = some e) :
    ∃ a ∈ votes, ∃ b ∈ votes, a.Conflicts b ∧ e.Names a b :=
  conflicts_of_detectEquivocationFrom h

theorem detectEquivocation_eq_none_iff :
    detectEquivocation votes = none ↔ ∀ a ∈ votes, ∀ b ∈ votes, ¬a.Conflicts b :=
  detectEquivocationFrom_eq_none_iff (by simp)

example : detectEquivocation [⟨"v", 3, "b"⟩, ⟨"w", 3, "a"⟩, ⟨"v", 3, "a"⟩] =
    some ⟨"v", 3, "a", "b"⟩ := by decide

end Detta
