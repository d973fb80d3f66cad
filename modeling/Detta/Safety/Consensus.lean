import Detta.Base.Check
import Detta.Safety.Equivocation
import Detta.Safety.Node

/-!
# Finality

What the certificates of a cluster are worth, and what a finalization does.

* Two certificates that are verified with one set of active validators have more than a
  third of these validators as signers of both.
* A finalization goes through the validators one after the other (`wp_finalizeBlock`), and
  does not go back if one of them refuses the block.
* What an operation can do to a cluster is said once (`ClusterOp.Outcome`): slash a validator,
  offer a block to the active validators, or change who the validators are.
* In every cluster that can be reached, slashed validators are validators
  (`ConsensusCluster.Reachable.slashesMembers`), so that the quorum is one of the active
  validators.
* A cluster accepts a certificate that it has issued if the votes are by its own validators;
  votes of others are counted, but not accepted.
-/

namespace Detta

open Std (ExtTreeMap ExtTreeSet LawfulEqCmp)

variable {active : ExtTreeSet String} {c c' : FinalityCertificate}

theorem refuseAny_eq_ok {ε β : Type} {l : List β} {p : β → Bool} {e : β → ε} :
    refuseAny l p e = .ok () ↔ ∀ b ∈ l, p b = false := by
  unfold refuseAny
  cases h : l.find? p with
  | none => simpa using List.find?_eq_none.1 h
  | some b =>
    have hp : p b = true := List.find?_some h
    have hb : b ∈ l := List.mem_of_find?_eq_some h
    simp only [reduceCtorEq, false_iff]
    intro hall
    rw [hall b hb] at hp
    cases hp

/-! ## Certificates -/

theorem verifyFinalityCertificate_eq_ok {certificate : FinalityCertificate} {height : U64}
    {blockHash : String} {quorum : ℕ} :
    verifyFinalityCertificate certificate height blockHash active quorum = .ok () ↔
      (active.isEmpty = false ∧ quorum ≠ 0) ∧ certificate.height = height ∧
      certificate.blockHash = blockHash ∧
      (∀ signer ∈ certificate.signers, active.contains signer = true) ∧
      quorum ≤ certificate.signers.toFinset.card := by
  simp only [verifyFinalityCertificate, Table.size_ofList, ite_error_eq_ok, bind_eq_ok,
    refuseAny_eq_ok, not_or, Bool.not_eq_true, ne_eq, not_not, Bool.not_eq_false', not_lt,
    and_true]

/-- How many validators of a set have signed both of two certificates. -/
def doubleSigners (active : ExtTreeSet String) (c c' : FinalityCertificate) : ℕ :=
  (active.toList.filter fun v => v ∈ c.signers ∧ v ∈ c'.signers).length

theorem card_inter_eq_doubleSigners (h : ∀ signer ∈ c.signers, active.contains signer = true) :
    (c.signers.toFinset ∩ c'.signers.toFinset).card = doubleSigners active c c' := by
  rw [doubleSigners, ← List.toFinset_card_of_nodup ((Table.nodup_elements active).filter _)]
  congr 1
  ext v
  simp only [Finset.mem_inter, List.mem_toFinset, List.mem_filter, decide_eq_true_eq,
    ExtTreeSet.mem_toList]
  exact ⟨fun hv => ⟨h v hv.1, hv⟩, fun hv => hv.2⟩

/-- Two sets of signers that are quorums of the same set overlap in more than a third of it. -/
theorem lt_three_mul_doubleSigners (h : ∀ signer ∈ c.signers, active.contains signer = true)
    (h' : ∀ signer ∈ c'.signers, active.contains signer = true) (hn : active.isEmpty = false)
    (hq : quorumFor active.size ≤ c.signers.toFinset.card)
    (hq' : quorumFor active.size ≤ c'.signers.toFinset.card) :
    active.size < 3 * doubleSigners active c c' := by
  have hunion : (c.signers.toFinset ∪ c'.signers.toFinset).card ≤ active.size := by
    rw [← Table.card_elements]
    refine Finset.card_le_card fun v hv => ?_
    rw [List.mem_toFinset, ExtTreeSet.mem_toList]
    rcases Finset.mem_union.1 hv with hv | hv
    · exact h v (List.mem_toFinset.1 hv)
    · exact h' v (List.mem_toFinset.1 hv)
  have hsum := Finset.card_union_add_card_inter c.signers.toFinset c'.signers.toFinset
  have hpos : active.size ≠ 0 := fun h0 => by
    rw [ExtTreeSet.isEmpty_eq_size_beq_zero, h0] at hn
    cases hn
  rw [← card_inter_eq_doubleSigners h]
  simp only [quorumFor, hpos, if_false] at hq hq'
  omega

/-- Whoever signs two blocks of one height can be held to account: more than a third of the
    active validators have. -/
theorem conflicting_certificates_share_signers {active : ExtTreeSet String} {height : U64}
    {c c' : FinalityCertificate}
    (h : verifyFinalityCertificate c height c.blockHash active (quorumFor active.size) = .ok ())
    (h' : verifyFinalityCertificate c' height c'.blockHash active (quorumFor active.size) =
      .ok ()) :
    active.size < 3 * doubleSigners active c c' := by
  obtain ⟨⟨hn, -⟩, -, -, hs, hq⟩ := verifyFinalityCertificate_eq_ok.1 h
  obtain ⟨-, -, -, hs', hq'⟩ := verifyFinalityCertificate_eq_ok.1 h'
  exact lt_three_mul_doubleSigners hs hs' hn hq hq'

theorem conflicting_certificates_share_signers_four :
    let active : ExtTreeSet String := .ofList ["v1", "v2", "v3", "v4"]
    let c : FinalityCertificate := ⟨7, "left", ["v1", "v2", "v3"]⟩
    let c' : FinalityCertificate := ⟨7, "right", ["v2", "v3", "v4"]⟩
    active.size < 3 * doubleSigners active c c' :=
  @conflicting_certificates_share_signers _ 7 _ _ (by decide) (by decide)

/-! ## Slashed validators -/

namespace ConsensusCluster

variable {env : Env} {c : ConsensusCluster}

/-- Slashed validators are validators. -/
def SlashesMembers (c : ConsensusCluster) : Prop :=
  ∀ validatorId, c.isSlashed validatorId = true → c.validators.contains validatorId = true

variable {certificate : FinalityCertificate} {height : U64} {blockHash : String}
  {validators : List (String × DeTTaState)}

theorem contains_activeValidators {validatorId : String} :
    c.activeValidators.contains validatorId = true ↔
      c.validators.contains validatorId = true ∧ c.isSlashed validatorId = false := by
  simp [activeValidators]

/-- Then the number of active validators is counted right. -/
theorem size_activeValidators (h : c.SlashesMembers) :
    c.activeValidators.size = c.activeValidatorCount := by
  have hkeys {V : Type} (t : ExtTreeMap String V) : t.keys.Nodup := ExtTreeMap.nodup_keys
  have hslashed : (c.validators.keys.filter c.isSlashed).Perm c.slashingRecords.keys := by
    refine (List.perm_ext_iff_of_nodup ((hkeys _).filter _) (hkeys _)).2 fun v => ?_
    rw [List.mem_filter, ExtTreeMap.mem_keys, ExtTreeMap.mem_keys,
      ← ExtTreeMap.contains_iff_mem, ← ExtTreeMap.contains_iff_mem]
    exact ⟨fun hv => hv.2, fun hv => ⟨h v hv, hv⟩⟩
  have hsplit := List.length_eq_length_filter_add (l := c.validators.keys) c.isSlashed
  rw [hslashed.length_eq, ExtTreeMap.length_keys, ExtTreeMap.length_keys] at hsplit
  rw [activeValidators, Table.size_ofList, List.toFinset_card_of_nodup ((hkeys _).filter _),
    activeValidatorCount]
  omega

theorem contains_foldl_erase {V : Type} (l : List String) (t : ExtTreeMap String V)
    (k : String) :
    (l.foldl (fun t v => t.erase v) t).contains k = true ↔ t.contains k = true ∧ k ∉ l := by
  rw [ExtTreeMap.contains_eq_isSome_getElem?, Table.getElem?_foldl_erase,
    ExtTreeMap.contains_eq_isSome_getElem?]
  split <;> simp [*]

theorem contains_foldl_insert {V W : Type} (l : List (String × W)) (f : String × W → V)
    {t : ExtTreeMap String V} {k : String} (h : t.contains k = true) :
    (l.foldl (fun t v => t.insert v.1 (f v)) t).contains k = true := by
  induction l generalizing t with
  | nil => exact h
  | cons v l ih => exact ih (Table.contains_insert.2 (.inr h))

theorem addNodes_eq_ok {nodes nodes' : ExtTreeMap String ValidatorNode}
    (h : addNodes nodes validators = .ok nodes') :
    nodes' = validators.foldl (fun t v => t.insert v.1 (.new v.1 v.2)) nodes := by
  induction validators generalizing nodes with
  | nil => exact (Except.ok.inj h).symm
  | cons v validators ih =>
    simp only [addNodes, ite_error_eq_ok] at h
    exact ih h.2

/-- A new cluster has some validators, and nobody is slashed. -/
theorem of_new_eq_ok (h : ConsensusCluster.new validators = .ok c) :
    validators ≠ [] ∧
      c = ⟨validators.foldl (fun t v => t.insert v.1 (.new v.1 v.2)) ∅, ∅, ∅⟩ := by
  simp only [ConsensusCluster.new, ite_error_eq_ok, List.isEmpty_iff] at h
  obtain ⟨nodes, hnodes, hc⟩ := exists_of_bind_eq_ok h.2
  rw [← addNodes_eq_ok hnodes]
  exact ⟨h.1, (Except.ok.inj hc).symm⟩

/-! ## Certificates that a cluster issues -/

/-- A certificate is accepted if its signers are active and a quorum. -/
theorem verifyFinalityCertificate_eq_ok (h : c.SlashesMembers) :
    c.verifyFinalityCertificate certificate height blockHash = .ok () ↔
      0 < c.activeValidatorCount ∧ certificate.height = height ∧
      certificate.blockHash = blockHash ∧
      (∀ signer ∈ certificate.signers,
        c.validators.contains signer = true ∧ c.isSlashed signer = false) ∧
      c.quorum ≤ certificate.signers.toFinset.card := by
  have hpos : (c.activeValidators.isEmpty = false ∧ c.quorum ≠ 0) ↔ 0 < c.activeValidatorCount := by
    rw [ExtTreeSet.isEmpty_eq_size_beq_zero, size_activeValidators h]
    by_cases h0 : c.activeValidatorCount = 0
    · simp [h0]
    · simp [h0, quorum, quorumFor, Nat.pos_of_ne_zero h0]
  unfold ConsensusCluster.verifyFinalityCertificate checkSigners
  rw [bind_eq_ok, refuseAny_eq_ok, Detta.verifyFinalityCertificate_eq_ok, hpos]
  simp only [contains_activeValidators, Bool.or_eq_false_iff, Bool.not_eq_false']
  tauto

/-- A certificate is made of all votes for its block. -/
theorem certificateFromVotes_eq_ok {votes : List Vote} {quorum : ℕ}
    (h : certificateFromVotes height blockHash votes quorum = .ok certificate) :
    certificate.height = height ∧ certificate.blockHash = blockHash ∧
      quorum ≤ certificate.signers.toFinset.card ∧
      ∀ signer, signer ∈ certificate.signers ↔ ∃ vote ∈ votes, vote.validatorId = signer ∧
        vote.height = height ∧ vote.blockHash = blockHash := by
  unfold certificateFromVotes at h
  cases hd : detectEquivocation votes with
  | some evidence => simp [hd] at h
  | none =>
    simp only [hd, ite_error_eq_ok, Except.ok.injEq, not_lt] at h
    obtain ⟨hq, rfl⟩ := h
    refine ⟨rfl, rfl, ?_, fun signer => ?_⟩
    · rwa [Table.card_elements]
    · simp [and_left_comm, and_comm]

end ConsensusCluster

/-! ## Finalization -/

namespace ConsensusCluster

variable (c : ConsensusCluster) (env : Env) (block : Block)

/-- The validators that are not slashed, with their nodes, in the order of their names. -/
def activeNodes : List (String × ValidatorNode) :=
  c.validators.toList.filter fun v => !c.isSlashed v.1

/-- The cluster where some validators have been given a block. -/
def offered (validators : List (String × ValidatorNode)) : ConsensusCluster :=
  { c with
    validators := validators.foldl (fun t v => t.insert v.1 (v.2.validateAndApply env block).1)
      c.validators }

/-- The vote of a validator for a block. -/
def voteFor (v : String × ValidatorNode) : Vote :=
  ⟨v.1, block.header.height, block.blockHash env.hashing⟩

variable {validators : List (String × ValidatorNode)} {v : String × ValidatorNode}

/-- The active validators of a list accept the block up to the first one that refuses it,
    where the finalization stops. -/
theorem wp_collectVotes (validators : List (String × ValidatorNode)) :
    let active := validators.filter fun v => !c.isSlashed v.1
    wp (Cluster.collectVotes env block validators)
      (fun votes c' => (∀ v ∈ active, (v.2.validateAndApply env block).2 = none) ∧
        votes = active.map (voteFor env block) ∧ c' = c.offered env block active)
      (fun _ c' => ∃ accepting v rest, active = accepting ++ v :: rest ∧
        (∀ u ∈ accepting, (u.2.validateAndApply env block).2 = none) ∧
        (v.2.validateAndApply env block).2 ≠ none ∧
        c' = c.offered env block (accepting ++ [v])) c := by
  induction validators generalizing c with
  | nil => exact ⟨by simp, rfl, rfl⟩
  | cons v validators ih =>
    intro active
    simp only [Cluster.collectVotes, wp_bind, wp_get]
    split
    next hs =>
      have hactive : active = validators.filter fun v => !c.isSlashed v.1 := by
        simp [active, hs]
      rw [hactive]
      exact ih c
    next hs =>
      have hactive : active = v :: validators.filter fun v => !c.isSlashed v.1 := by
        simp [active, hs]
      rw [hactive]
      simp only [wp_bind, wp_set]
      split
      next error he =>
        exact ⟨[], v, _, rfl, by simp, by simp [he], rfl⟩
      next he =>
        refine wp_bind.2 ((ih (c.offered env block [v])).mono ?_ ?_)
        · rintro votes c' ⟨hall, rfl, rfl⟩
          exact ⟨List.forall_mem_cons.2 ⟨he, hall⟩, rfl, rfl⟩
        · rintro _ c' ⟨accepting, w, rest, heq, hall, hw, rfl⟩
          refine ⟨v :: accepting, w, rest, ?_, List.forall_mem_cons.2 ⟨he, hall⟩, hw, rfl⟩
          exact congrArg (v :: ·) heq

variable {c env block}

theorem getElem?_offered_of_mem (hn : (validators.map (·.1)).Nodup) (hv : v ∈ validators) :
    (c.offered env block validators).validators[v.1]? =
      some (v.2.validateAndApply env block).1 :=
  Table.getElem?_foldl_insert (fun u hu heq => by rw [List.inj_on_of_nodup_map hn hu hv heq])
    (.inl ⟨v, hv, rfl⟩)

theorem size_offered (h : ∀ v ∈ validators, c.validators.contains v.1 = true) :
    (c.offered env block validators).validators.size = c.validators.size := by
  induction validators generalizing c with
  | nil => rfl
  | cons v validators ih =>
    rw [List.forall_mem_cons] at h
    have hstep : (c.offered env block (v :: validators)).validators.size =
        (c.offered env block [v]).validators.size :=
      ih (c := c.offered env block [v]) fun w hw => by simp [offered, h.2 w hw]
    rw [hstep]
    simp [offered, ExtTreeMap.size_insert, h.1]

theorem mem_activeNodes :
    v ∈ c.activeNodes ↔ c.validators[v.1]? = some v.2 ∧ c.isSlashed v.1 = false := by
  rw [activeNodes, List.mem_filter, ← ExtTreeMap.mem_toList_iff_getElem?_eq_some]
  simp

/-- Who refuses a block is as before. -/
theorem getElem?_offered_of_refused (hv : v ∈ c.activeNodes)
    (h : (v.2.validateAndApply env block).2 ≠ none) (validatorId : String) :
    (c.offered env block [v]).validators[validatorId]? = c.validators[validatorId]? := by
  by_cases hid : validatorId = v.1
  · subst hid
    rw [getElem?_offered_of_mem (by simp) List.mem_cons_self, ValidatorNode.of_refused h,
      (mem_activeNodes.1 hv).1]
  · exact Table.getElem?_insert_of_ne (Ne.symm hid)

theorem names_activeNodes :
    c.activeNodes.map (·.1) = c.validators.keys.filter fun v => !c.isSlashed v := by
  rw [activeNodes, ← ExtTreeMap.map_fst_toList_eq_keys, List.filter_map]
  rfl

theorem nodup_names_activeNodes : (c.activeNodes.map (·.1)).Nodup := by
  rw [names_activeNodes]
  exact ExtTreeMap.nodup_keys.filter _

theorem length_activeNodes (h : c.SlashesMembers) :
    c.activeNodes.length = c.activeValidatorCount := by
  rw [← size_activeValidators h, activeValidators, ← names_activeNodes, Table.size_ofList,
    List.toFinset_card_of_nodup nodup_names_activeNodes, List.length_map]

theorem contains_of_mem_activeNodes (hv : v ∈ c.activeNodes) :
    c.validators.contains v.1 = true :=
  Table.contains_iff.2 ⟨v.2, (mem_activeNodes.1 hv).1⟩

theorem quorum_offered : (c.offered env block c.activeNodes).quorum = c.quorum := by
  have hsize : (c.offered env block c.activeNodes).validators.size = c.validators.size :=
    size_offered fun _ hv => contains_of_mem_activeNodes hv
  rw [quorum, activeValidatorCount, hsize]
  rfl

theorem quorumFor_le (n : ℕ) : quorumFor n ≤ n := by
  unfold quorumFor
  split <;> omega

/-- The votes of a quorum make a certificate. -/
theorem wp_certificate_of_quorum (hn : (validators.map (·.1)).Nodup)
    (hs : ∀ v ∈ validators, c.isSlashed v.1 = false) (hq : c.quorum ≤ validators.length) :
    wp (Cluster.certificateFromActiveVotes block.header.height (block.blockHash env.hashing)
      (validators.map (voteFor env block))) (fun _ c' => c' = c) (fun _ _ => False) c := by
  have hnone : detectEquivocation (validators.map (voteFor env block)) = none := by
    -- votes for one block contradict nothing
    refine detectEquivocation_eq_none_iff.2 fun a ha b hb hconflict => hconflict.2.2 ?_
    obtain ⟨v, -, rfl⟩ := List.mem_map.1 ha
    obtain ⟨w, -, rfl⟩ := List.mem_map.1 hb
    rfl
  have hactive : (validators.map (voteFor env block)).filter
      (fun vote => !c.isSlashed vote.validatorId) = validators.map (voteFor env block) := by
    refine List.filter_eq_self.2 fun vote hv => ?_
    obtain ⟨v, hmem, rfl⟩ := List.mem_map.1 hv
    simpa [voteFor] using hs v hmem
  have hblock : (validators.map (voteFor env block)).filter (fun vote =>
      vote.height = block.header.height ∧ vote.blockHash = block.blockHash env.hashing) =
        validators.map (voteFor env block) := by
    refine List.filter_eq_self.2 fun vote hv => ?_
    obtain ⟨v, -, rfl⟩ := List.mem_map.1 hv
    simp [voteFor]
  have hnames : (validators.map (voteFor env block)).map (·.validatorId) =
      validators.map (·.1) := by
    simp [voteFor]
  have hquorum : ¬(validators.map (·.1)).toFinset.card < c.quorum := by
    rw [List.toFinset_card_of_nodup hn, List.length_map]
    exact Nat.not_lt.2 hq
  unfold Cluster.certificateFromActiveVotes
  rw [hnone]
  refine .get ?_
  rw [hactive, certificateFromVotes, hnone]
  simp only [hblock, hnames, Table.size_ofList, hquorum, if_false]
  rfl

variable (c env block) in
/-- A finalization gives the block to all active validators, or stops at the first one that
    refuses it, when those before it have already applied it. -/
theorem wp_finalizeBlock (h : c.SlashesMembers) :
    wp (Cluster.finalizeBlock env block)
      (fun _ c' => (∀ v ∈ c.activeNodes, (v.2.validateAndApply env block).2 = none) ∧
        c' = c.offered env block c.activeNodes)
      (fun _ c' => c.isSlashed block.header.proposer = true ∧ c' = c ∨
        c.isSlashed block.header.proposer = false ∧
        ∃ accepting v rest, c.activeNodes = accepting ++ v :: rest ∧
          (∀ u ∈ accepting, (u.2.validateAndApply env block).2 = none) ∧
          (v.2.validateAndApply env block).2 ≠ none ∧
          c' = c.offered env block (accepting ++ [v])) c := by
  unfold Cluster.finalizeBlock
  refine .get (.ensure ⟨fun hp => ?_, fun hs => ?_⟩)
  · refine wp_bind.2 ((wp_collectVotes c env block c.validators.toList).mono ?_ ?_)
    · rintro _ c' ⟨hall, rfl, rfl⟩
      have hquorum : (c.offered env block c.activeNodes).quorum ≤ c.activeNodes.length := by
        rw [quorum_offered, length_activeNodes h]
        exact quorumFor_le _
      refine (wp_certificate_of_quorum (c := c.offered env block c.activeNodes)
        (nodup_names_activeNodes (c := c)) (fun v hv => (mem_activeNodes.1 hv).2) hquorum).mono
        ?_ ?_
      · exact fun _ _ hc => ⟨hall, hc⟩
      · exact fun _ _ hf => hf.elim
    · exact fun _ _ hstop => .inr ⟨hp, hstop⟩
  · exact .inl ⟨by simpa using hs, rfl⟩

end ConsensusCluster

/-! ## What an operation can do -/

namespace ConsensusCluster

variable (c : ConsensusCluster) (env : Env)

/-- A validator that may sign. -/
def Active (validatorId : String) : Prop :=
  c.validators.contains validatorId = true ∧ c.isSlashed validatorId = false

/-- The signers are active validators, and a quorum of them. -/
def Authorised (signers : List String) : Prop :=
  (∀ signer ∈ signers, c.Active signer) ∧ c.quorum ≤ signers.toFinset.card

/-- The cluster with one more record, if there is none for the validator. -/
def slashing (evidence : EquivocationEvidence) : ConsensusCluster :=
  { c with
    slashingRecords := c.slashingRecords.insert evidence.validatorId
      ((c.slashingRecords[evidence.validatorId]?).getD
        ⟨evidence.validatorId, evidence.height, evidence⟩) }

/-- The cluster with other validators. -/
def updated (update : ValidatorSetUpdate) : ConsensusCluster where
  validators := update.addValidators.foldl (fun t v => t.insert v.1 (.new v.1 v.2))
    (update.removeValidators.foldl (fun t v => t.erase v) c.validators)
  slashingRecords := update.removeValidators.foldl (fun t v => t.erase v) c.slashingRecords
  appliedValidatorSetUpdates := c.appliedValidatorSetUpdates.insert update.updateId

/-- An update that fits the validators: newcomers are new, and who leaves is there. -/
structure Fits (update : ValidatorSetUpdate) : Prop where
  added_nodup : (update.addValidators.map (·.1)).Nodup
  added_new : ∀ v ∈ update.addValidators, c.validators.contains v.1 = false
  removed_nodup : update.removeValidators.Nodup
  removed_there : ∀ v ∈ update.removeValidators, c.validators.contains v = true
  nonempty : c.validators.size + update.addValidators.length - update.removeValidators.length ≠ 0

variable {c env} {seen : ExtTreeSet String}

theorem checkAdded_eq_ok {l : List (String × DeTTaState)} :
    c.checkAdded seen l = .ok () ↔ (l.map (·.1)).Nodup ∧
      ∀ v ∈ l, seen.contains v.1 = false ∧ c.validators.contains v.1 = false := by
  induction l generalizing seen with
  | nil => simp [checkAdded]
  | cons v l ih =>
    simp only [checkAdded, ite_error_eq_ok, ih, List.map_cons, List.nodup_cons, List.mem_map,
      List.forall_mem_cons, ExtTreeSet.contains_insert, not_or, Bool.not_eq_true,
      Bool.or_eq_false_iff, beq_eq_false_iff_ne, ne_eq, LawfulEqCmp.compare_eq_iff_eq]
    constructor
    · rintro ⟨hv, hn, hl⟩
      exact ⟨⟨fun ⟨w, hw, heq⟩ => (hl w hw).1.1 heq.symm, hn⟩, hv,
        fun w hw => ⟨(hl w hw).1.2, (hl w hw).2⟩⟩
    · rintro ⟨⟨hne, hn⟩, hv, hl⟩
      exact ⟨hv, hn, fun w hw => ⟨⟨fun heq => hne ⟨w, hw, heq.symm⟩, (hl w hw).1⟩, (hl w hw).2⟩⟩

theorem checkRemoved_eq_ok {l : List String} :
    c.checkRemoved seen l = .ok () ↔ l.Nodup ∧
      ∀ v ∈ l, seen.contains v = false ∧ c.validators.contains v = true := by
  induction l generalizing seen with
  | nil => simp [checkRemoved]
  | cons v l ih =>
    simp only [checkRemoved, ite_error_eq_ok, ih, List.nodup_cons, List.forall_mem_cons,
      ExtTreeSet.contains_insert, not_or, Bool.not_eq_true, Bool.not_eq_false,
      Bool.or_eq_false_iff, beq_eq_false_iff_ne, ne_eq, LawfulEqCmp.compare_eq_iff_eq]
    constructor
    · rintro ⟨hv, hn, hl⟩
      exact ⟨⟨fun hmem => (hl v hmem).1.1 rfl, hn⟩, hv,
        fun w hw => ⟨(hl w hw).1.2, (hl w hw).2⟩⟩
    · rintro ⟨⟨hne, hn⟩, hv, hl⟩
      exact ⟨hv, hn, fun w hw => ⟨⟨fun heq => hne (heq ▸ hw), (hl w hw).1⟩, (hl w hw).2⟩⟩

theorem validateValidatorSetUpdate_eq_ok {update : ValidatorSetUpdate} :
    c.validateValidatorSetUpdate update = .ok () ↔ c.Fits update := by
  simp only [validateValidatorSetUpdate, bind_eq_ok, checkAdded_eq_ok, checkRemoved_eq_ok,
    ite_error_eq_ok, ExtTreeSet.contains_empty, true_and, and_true]
  exact ⟨fun ⟨⟨h₁, h₂⟩, ⟨h₃, h₄⟩, h₅⟩ => ⟨h₁, h₂, h₃, h₄, h₅⟩,
    fun ⟨h₁, h₂, h₃, h₄, h₅⟩ => ⟨⟨h₁, h₂⟩, ⟨h₃, h₄⟩, h₅⟩⟩

theorem requireActiveQuorum_eq_ok {signers : List String} :
    c.requireActiveQuorum signers = .ok () ↔ c.Authorised signers := by
  simp only [requireActiveQuorum, checkSigners, bind_eq_ok, refuseAny_eq_ok, ite_error_eq_ok,
    Table.size_ofList, Bool.or_eq_false_iff, Bool.not_eq_false', not_lt, and_true, Authorised,
    Active]

/-! ### One operation -/

theorem wp_recordEquivocation (evidence : EquivocationEvidence) :
    wp (Cluster.recordEquivocation evidence)
      (fun _ c' => c.validators.contains evidence.validatorId = true ∧ c' = c.slashing evidence)
      (fun _ c' => c' = c) c := by
  simp only [Cluster.recordEquivocation, wp_bind, wp_get, wp_ensure, wp_set, wp_pure]
  exact ⟨fun hv => ⟨hv, rfl⟩, fun _ => trivial⟩

/-- The cluster counts all votes but those of slashed validators. Where votes contradict each
    other, a validator is slashed. -/
theorem wp_certificateFromActiveVotes (height : U64) (blockHash : String) (votes : List Vote) :
    wp (Cluster.certificateFromActiveVotes height blockHash votes) (fun certificate c' =>
      c' = c ∧ certificate.height = height ∧ certificate.blockHash = blockHash ∧
      c.quorum ≤ certificate.signers.toFinset.card ∧
      ∀ signer, signer ∈ certificate.signers ↔ c.isSlashed signer = false ∧
        ∃ vote ∈ votes, vote.validatorId = signer ∧ vote.height = height ∧
          vote.blockHash = blockHash)
      (fun _ c' => c' = c ∨ ∃ evidence, detectEquivocation votes = some evidence ∧
        c.validators.contains evidence.validatorId = true ∧ c' = c.slashing evidence) c := by
  unfold Cluster.certificateFromActiveVotes
  cases hd : detectEquivocation votes with
  | some evidence =>
    refine wp_bind.2 ((wp_recordEquivocation evidence).mono ?_ fun _ _ h => .inl h)
    exact fun _ _ h => .inr ⟨evidence, rfl, h⟩
  | none =>
    refine .get ?_
    cases hcert : certificateFromVotes height blockHash
        (votes.filter fun vote => !c.isSlashed vote.validatorId) c.quorum with
    | error e => exact .inl rfl
    | ok certificate =>
      obtain ⟨hh, hb, hq, hs⟩ := certificateFromVotes_eq_ok hcert
      refine ⟨rfl, hh, hb, hq, fun signer => (hs signer).trans ?_⟩
      constructor
      · rintro ⟨vote, hv, rfl, hvote⟩
        obtain ⟨hmem, hslash⟩ := List.mem_filter.1 hv
        exact ⟨by simpa using hslash, vote, hmem, rfl, hvote⟩
      · rintro ⟨hslash, vote, hmem, rfl, hvote⟩
        exact ⟨vote, List.mem_filter.2 ⟨hmem, by simpa using hslash⟩, rfl, hvote⟩

theorem wp_applyValidatorSetUpdate (update : ValidatorSetUpdate)
    (certificate : FinalityCertificate) :
    wp (Cluster.applyValidatorSetUpdate update certificate)
      (fun _ c' => c.appliedValidatorSetUpdates.contains update.updateId = false ∧
        c.Authorised certificate.signers ∧ c.Fits update ∧ c' = c.updated update)
      (fun _ c' => c' = c ∧ ¬(c.appliedValidatorSetUpdates.contains update.updateId = false ∧
        c.Authorised certificate.signers ∧ c.Fits update)) c := by
  unfold Cluster.applyValidatorSetUpdate
  refine .get (.ensure ⟨fun hnew => ?_, fun hold => ?_⟩)
  · rw [← requireActiveQuorum_eq_ok, ← validateValidatorSetUpdate_eq_ok]
    cases hq : c.requireActiveQuorum certificate.signers with
    | error e => exact ⟨rfl, by simp⟩
    | ok =>
      cases hv : c.validateValidatorSetUpdate update with
      | error e => exact ⟨rfl, by simp⟩
      | ok => exact ⟨hnew, rfl, rfl, rfl⟩
  · exact ⟨rfl, fun h => hold h.1⟩

end ConsensusCluster

/-- What an operation can do to a cluster. -/
def ClusterOp.Outcome (env : Env) (c c' : ConsensusCluster) : ClusterOp → Prop
  | recordEquivocation evidence =>
    c' = c ∨ c.validators.contains evidence.validatorId = true ∧ c' = c.slashing evidence
  | certificateFromActiveVotes _ _ votes =>
    c' = c ∨ ∃ evidence, detectEquivocation votes = some evidence ∧
      c.validators.contains evidence.validatorId = true ∧ c' = c.slashing evidence
  | finalizeBlock block =>
    c' = c ∨
    (∀ v ∈ c.activeNodes, (v.2.validateAndApply env block).2 = none) ∧
      c' = c.offered env block c.activeNodes ∨
    ∃ accepting v rest, c.activeNodes = accepting ++ v :: rest ∧
      (∀ u ∈ accepting, (u.2.validateAndApply env block).2 = none) ∧
      (v.2.validateAndApply env block).2 ≠ none ∧ c' = c.offered env block (accepting ++ [v])
  | applyValidatorSetUpdate update certificate =>
    c' = c ∨ c.Authorised certificate.signers ∧ c.Fits update ∧ c' = c.updated update

theorem ClusterOp.outcome_apply (env : Env) {c : ConsensusCluster} (h : c.SlashesMembers)
    (op : ClusterOp) : op.Outcome env c (op.apply env c) := by
  cases op with
  | recordEquivocation evidence =>
    refine wp.endState (P := (recordEquivocation evidence).Outcome env c) ?_
    exact (ConsensusCluster.wp_recordEquivocation evidence).mono (fun _ _ => .inr) fun _ _ => .inl
  | certificateFromActiveVotes height blockHash votes =>
    refine wp.endState (P := (certificateFromActiveVotes height blockHash votes).Outcome env c) ?_
    exact (ConsensusCluster.wp_certificateFromActiveVotes height blockHash votes).mono
      (fun _ _ h => .inl h.1) fun _ _ => id
  | finalizeBlock block =>
    refine wp.endState (P := (finalizeBlock block).Outcome env c) ?_
    refine (ConsensusCluster.wp_finalizeBlock c env block h).mono (fun _ _ h => .inr (.inl h)) ?_
    rintro _ _ (⟨-, rfl⟩ | ⟨-, hstop⟩)
    · exact .inl rfl
    · exact .inr (.inr hstop)
  | applyValidatorSetUpdate update certificate =>
    refine wp.endState (P := (applyValidatorSetUpdate update certificate).Outcome env c) ?_
    exact (ConsensusCluster.wp_applyValidatorSetUpdate update certificate).mono
      (fun _ _ h => .inr h.2) fun _ _ h => .inl h.1

namespace ConsensusCluster

variable {env : Env} {c : ConsensusCluster} {certificate : FinalityCertificate} {height : U64}
  {blockHash : String}

/-! Operations slash only validators, and who leaves is not slashed any more. -/

theorem SlashesMembers.slashing (h : c.SlashesMembers) {evidence : EquivocationEvidence}
    (hv : c.validators.contains evidence.validatorId = true) :
    (c.slashing evidence).SlashesMembers := by
  intro v hs
  rcases Table.contains_insert.1 hs with rfl | hs
  · exact hv
  · exact h v hs

theorem SlashesMembers.offered (h : c.SlashesMembers) {block : Block}
    {validators : List (String × ValidatorNode)} :
    (c.offered env block validators).SlashesMembers :=
  fun v hs => contains_foldl_insert _ _ (h v hs)

theorem SlashesMembers.updated (h : c.SlashesMembers) (update : ValidatorSetUpdate) :
    (c.updated update).SlashesMembers := by
  intro v hv
  obtain ⟨hs, hr⟩ := (contains_foldl_erase _ _ _).1 hv
  exact contains_foldl_insert _ _ ((contains_foldl_erase _ _ _).2 ⟨h v hs, hr⟩)

theorem SlashesMembers.apply (h : c.SlashesMembers) (op : ClusterOp) :
    (op.apply env c).SlashesMembers := by
  have hout := op.outcome_apply env h
  generalize op.apply env c = c' at hout
  cases op with
  | recordEquivocation evidence =>
    rcases hout with rfl | ⟨hv, rfl⟩
    · exact h
    · exact h.slashing hv
  | certificateFromActiveVotes height blockHash votes =>
    rcases hout with rfl | ⟨evidence, -, hv, rfl⟩
    · exact h
    · exact h.slashing hv
  | finalizeBlock block =>
    rcases hout with rfl | ⟨-, rfl⟩ | ⟨_, _, _, -, -, -, rfl⟩
    exacts [h, h.offered, h.offered]
  | applyValidatorSetUpdate update certificate =>
    rcases hout with rfl | ⟨-, -, rfl⟩
    · exact h
    · exact h.updated update

theorem Reachable.slashesMembers (h : c.Reachable env) : c.SlashesMembers := by
  induction h with
  | @new validators c h =>
    intro v hv
    obtain ⟨-, rfl⟩ := of_new_eq_ok h
    simp [isSlashed] at hv
  | op _ op ih => exact ih.apply op

/-- So two certificates that a cluster accepts share more than a third of its active
    validators. -/
theorem Reachable.share_signers (hc : c.Reachable env) {certificate' : FinalityCertificate}
    {height' : U64} {blockHash' : String}
    (h : c.verifyFinalityCertificate certificate height blockHash = .ok ())
    (h' : c.verifyFinalityCertificate certificate' height' blockHash' = .ok ()) :
    c.activeValidatorCount < 3 * doubleSigners c.activeValidators certificate certificate' := by
  have hsize := size_activeValidators hc.slashesMembers
  obtain ⟨hn, -, -, hs, hq⟩ := (verifyFinalityCertificate_eq_ok hc.slashesMembers).1 h
  obtain ⟨-, -, -, hs', hq'⟩ := (verifyFinalityCertificate_eq_ok hc.slashesMembers).1 h'
  rw [quorum, ← hsize] at hq hq'
  rw [← hsize]
  refine lt_three_mul_doubleSigners (fun v hv => contains_activeValidators.2 (hs v hv))
    (fun v hv => contains_activeValidators.2 (hs' v hv)) ?_ hq hq'
  rw [ExtTreeSet.isEmpty_eq_size_beq_zero, hsize]
  exact beq_false_of_ne hn.ne'

/-- A cluster accepts the certificate that it has made from votes exactly if it has active
    validators, and all votes that it has counted are by its own validators. -/
theorem issued_certificate_accepted_iff (hc : c.Reachable env) {height : U64} {blockHash : String}
    {votes : List Vote} {certificate : FinalityCertificate} {c' : ConsensusCluster}
    (h : Cluster.certificateFromActiveVotes height blockHash votes c = .ok certificate c') :
    c'.verifyFinalityCertificate certificate height blockHash = .ok () ↔
      0 < c.activeValidatorCount ∧
      ∀ vote ∈ votes, vote.height = height → vote.blockHash = blockHash →
        c.isSlashed vote.validatorId = false → c.validators.contains vote.validatorId = true := by
  obtain ⟨rfl, hh, hb, hq, hs⟩ :=
    (wp_of_ok h).1 (wp_certificateFromActiveVotes (c := c) height blockHash votes)
  rw [verifyFinalityCertificate_eq_ok hc.slashesMembers]
  constructor
  · rintro ⟨hn, -, -, hall, -⟩
    refine ⟨hn, fun vote hv hvh hvb hslash => (hall _ ?_).1⟩
    exact (hs _).2 ⟨hslash, vote, hv, rfl, hvh, hvb⟩
  · rintro ⟨hn, hall⟩
    refine ⟨hn, hh, hb, fun signer hsigner => ?_, hq⟩
    obtain ⟨hslash, vote, hv, rfl, hvh, hvb⟩ := (hs signer).1 hsigner
    exact ⟨hall vote hv hvh hvb hslash, hslash⟩

end ConsensusCluster

/-! A cluster of one validator accepts what the validator signs. But it also makes a
certificate of the vote of somebody it does not know, and then refuses it. -/

namespace Split

open ConsensusCluster

def env : Env :=
  ⟨⟨fun _ => [], fun _ => [0]⟩, fun _ => none, fun _ => none, fun _ => none⟩

def lone : ConsensusCluster :=
  ⟨(∅ : ExtTreeMap String ValidatorNode).insert "v1" (.new "v1" (.new "detta")), ∅, ∅⟩

theorem reachable_lone : lone.Reachable env := by
  have hnew : ConsensusCluster.new [("v1", .new "detta")] = .ok lone := rfl
  exact .new hnew

theorem issued_certificate_accepted_lone :
    lone.verifyFinalityCertificate ⟨1, "block", ["v1"]⟩ 1 "block" = .ok () := by
  have hissued : Cluster.certificateFromActiveVotes 1 "block" [⟨"v1", 1, "block"⟩] lone =
    .ok ⟨1, "block", ["v1"]⟩ lone := rfl
  exact (issued_certificate_accepted_iff reachable_lone hissued).2
    ⟨by decide, by decide⟩

theorem issued_certificate_of_outsider :
    lone.Reachable env ∧ ∃ certificate,
      Cluster.certificateFromActiveVotes 1 "block" [⟨"mallory", 1, "block"⟩] lone =
        .ok certificate lone ∧
      lone.verifyFinalityCertificate certificate 1 "block" =
        .error (.unknownValidator "mallory") :=
  ⟨reachable_lone, ⟨1, "block", ["mallory"]⟩, rfl, rfl⟩

end Split

/-! ## All or nothing -/

namespace ConsensusCluster

variable {c : ConsensusCluster} {env : Env} {block : Block}

end ConsensusCluster

namespace Split

open ConsensusCluster

theorem activeNodes_lone : lone.activeNodes = [("v1", .new "v1" (.new "detta"))] := rfl

def split : ConsensusCluster :=
  ⟨((∅ : ExtTreeMap String ValidatorNode).insert "v1" (.new "v1" (.new "east"))).insert "v2"
    (.new "v2" (.new "west")), ∅, ∅⟩

def block : Block := (ValidatorNode.new "v1" (.new "east")).proposeBlock env 1 [] 0

end Split

end Detta
