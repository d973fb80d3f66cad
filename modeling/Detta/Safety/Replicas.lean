import Detta.Base.Run
import Detta.Safety.Consensus

/-!
# Runs of a cluster

From what an operation can do to a cluster (`ClusterOp.Outcome`) follows

* that the active validators agree: they have the same state after every run that starts with
  the same state for all, and in which newcomers get the state of the others;
* that there are active validators, and that every decision has a quorum of them, in runs that
  do not slash or remove the last one and that count no votes of strangers;
* what a certificate is good for after a decision that it was made for.
-/

namespace Detta

open Std (ExtTreeMap ExtTreeSet)

/-! ## Agreement -/

/-- What comes of a block depends on the state and the limit of a node. -/
theorem ValidatorNode.validateAndApply_congr {env : Env} {n m : ValidatorNode}
    (hs : n.state = m.state) (hl : n.blockResourceLimit = m.blockResourceLimit) (block : Block) :
    (n.validateAndApply env block).2 = (m.validateAndApply env block).2 ∧
      (n.validateAndApply env block).1.state = (m.validateAndApply env block).1.state := by
  simp only [validateAndApply, hs, hl]
  split
  · exact ⟨rfl, hs⟩
  · split
    · exact ⟨rfl, hs⟩
    · exact ⟨rfl, rfl⟩

theorem ValidatorNode.blockResourceLimit_validateAndApply (env : Env) (n : ValidatorNode)
    (block : Block) :
    (n.validateAndApply env block).1.blockResourceLimit = n.blockResourceLimit := by
  simp only [validateAndApply]
  split
  · rfl
  · split <;> rfl

namespace ConsensusCluster

/-- A validator that was not there before. -/
def Joins (c c' : ConsensusCluster) (v : String × ValidatorNode) : Prop :=
  c.validators.contains v.1 = false ∧ c'.validators[v.1]? = some v.2

/-- Validators join with the state of those that are active, and of those that join with
    them. -/
def JoinInStep (c c' : ConsensusCluster) : Prop :=
  ∀ v, Joins c c' v → ∀ w, w ∈ c.activeNodes ∨ Joins c c' w → v.2.state = w.2.state

/-- All active validators have the same state, and all validators the same limit. -/
structure Agreeing (c : ConsensusCluster) : Prop where
  states : ∀ v ∈ c.activeNodes, ∀ w ∈ c.activeNodes, v.2.state = w.2.state
  limits : ∀ (validatorId : String) (n : ValidatorNode), c.validators[validatorId]? = some n →
    n.blockResourceLimit = defaultBlockResourceLimit

variable {env : Env} {c c' : ConsensusCluster} {block : Block} {v : String × ValidatorNode}
  {update : ValidatorSetUpdate}

theorem Agreeing.limit (h : c.Agreeing) (hv : v ∈ c.activeNodes) :
    v.2.blockResourceLimit = defaultBlockResourceLimit :=
  h.limits v.1 v.2 (mem_activeNodes.1 hv).1

/-- So they answer a block in the same way. -/
theorem Agreeing.answer (h : c.Agreeing) {v w : String × ValidatorNode} (hv : v ∈ c.activeNodes)
    (hw : w ∈ c.activeNodes) (block : Block) :
    (v.2.validateAndApply env block).2 = (w.2.validateAndApply env block).2 ∧
      (v.2.validateAndApply env block).1.state = (w.2.validateAndApply env block).1.state :=
  ValidatorNode.validateAndApply_congr (h.states v hv w hw) ((h.limit hv).trans (h.limit hw).symm)
    block

/-- Slashing leaves fewer active validators, and those as they are. -/
theorem mem_activeNodes_of_slashing {evidence : EquivocationEvidence}
    (hv : v ∈ (c.slashing evidence).activeNodes) :
    v ∈ c.activeNodes ∧ v.1 ≠ evidence.validatorId := by
  obtain ⟨hget, hs⟩ := mem_activeNodes.1 hv
  rw [isSlashed, slashing, ← Bool.not_eq_true, Table.contains_insert, not_or, Bool.not_eq_true]
    at hs
  exact ⟨mem_activeNodes.2 ⟨hget, hs.2⟩, Ne.symm hs.1⟩

theorem Agreeing.slashing (h : c.Agreeing) (evidence : EquivocationEvidence) :
    (c.slashing evidence).Agreeing :=
  ⟨fun v hv w hw => h.states v (mem_activeNodes_of_slashing hv).1 w
    (mem_activeNodes_of_slashing hw).1, h.limits⟩

theorem Agreeing.of_getElem? (h : c.Agreeing)
    (hget : ∀ validatorId : String, c'.validators[validatorId]? = c.validators[validatorId]?)
    (hs : c'.slashingRecords = c.slashingRecords) : c'.Agreeing := by
  have hmem {v : String × ValidatorNode} (hv : v ∈ c'.activeNodes) : v ∈ c.activeNodes := by
    rw [mem_activeNodes, hget, isSlashed, hs] at hv
    exact mem_activeNodes.2 hv
  exact ⟨fun v hv w hw => h.states v (hmem hv) w (hmem hw),
    fun validatorId n hn => h.limits validatorId n (hget validatorId ▸ hn)⟩

/-- After a finalization, an active validator has applied the block. -/
theorem exists_of_mem_activeNodes_offered
    (hv : v ∈ (c.offered env block c.activeNodes).activeNodes) :
    ∃ u ∈ c.activeNodes, u.1 = v.1 ∧ v.2 = (u.2.validateAndApply env block).1 := by
  obtain ⟨hget, hs⟩ := mem_activeNodes.1 hv
  rcases Table.mem_of_getElem?_foldl_insert hget with ⟨u, hu, hname, heq⟩ | hold
  · exact ⟨u, hu, hname, heq.symm⟩
  · have hmem : v ∈ c.activeNodes := mem_activeNodes.2 ⟨hold, hs⟩
    rw [getElem?_offered_of_mem nodup_names_activeNodes hmem, Option.some.injEq] at hget
    exact ⟨v, hmem, rfl, hget.symm⟩

theorem limits_offered (h : c.Agreeing) {validators : List (String × ValidatorNode)}
    (hsub : ∀ v ∈ validators, v ∈ c.activeNodes) (validatorId : String) (n : ValidatorNode)
    (hn : (c.offered env block validators).validators[validatorId]? = some n) :
    n.blockResourceLimit = defaultBlockResourceLimit := by
  rcases Table.mem_of_getElem?_foldl_insert hn with ⟨v, hv, -, rfl⟩ | hn
  · rw [ValidatorNode.blockResourceLimit_validateAndApply]
    exact h.limit (hsub v hv)
  · exact h.limits validatorId n hn

theorem Agreeing.offered (h : c.Agreeing) : (c.offered env block c.activeNodes).Agreeing := by
  refine ⟨fun v hv w hw => ?_, limits_offered h fun _ hv => hv⟩
  obtain ⟨u, hu, -, hv⟩ := exists_of_mem_activeNodes_offered hv
  obtain ⟨u', hu', -, hw⟩ := exists_of_mem_activeNodes_offered hw
  rw [hv, hw]
  exact (h.answer hu hu' block).2

/-- When the active validators agree, already the first one refuses a block. -/
theorem Agreeing.stopped (h : c.Agreeing) {accepting rest : List (String × ValidatorNode)}
    (hactive : c.activeNodes = accepting ++ v :: rest)
    (hall : ∀ u ∈ accepting, (u.2.validateAndApply env block).2 = none)
    (hv : (v.2.validateAndApply env block).2 ≠ none) :
    (c.offered env block (accepting ++ [v])).Agreeing := by
  have hmem : v ∈ c.activeNodes := by simp [hactive]
  cases accepting with
  | nil => exact h.of_getElem? (getElem?_offered_of_refused hmem hv) rfl
  | cons u accepting =>
    have hu : u ∈ c.activeNodes := by simp [hactive]
    rw [(h.answer hmem hu block).1, hall u List.mem_cons_self] at hv
    exact absurd rfl hv

/-- Who is there after an update has just joined, or was there before and stays. -/
theorem getElem?_updated (hfits : c.Fits update) {validatorId : String} {n : ValidatorNode}
    (hn : (c.updated update).validators[validatorId]? = some n) :
    (Joins c (c.updated update) (validatorId, n) ∧
      ∃ state, (validatorId, state) ∈ update.addValidators ∧ n = .new validatorId state) ∨
      c.validators[validatorId]? = some n ∧ validatorId ∉ update.removeValidators := by
  rcases Table.mem_of_getElem?_foldl_insert hn with ⟨v, hv, rfl, rfl⟩ | hn'
  · exact .inl ⟨⟨hfits.added_new v hv, hn⟩, v.2, hv, rfl⟩
  · rw [Table.getElem?_foldl_erase] at hn'
    split at hn'
    next => cases hn'
    next hnot => exact .inr ⟨hn', hnot⟩

theorem Agreeing.updated (h : c.Agreeing) (hfits : c.Fits update)
    (hjoin : JoinInStep c (c.updated update)) : (c.updated update).Agreeing := by
  constructor
  · -- an active validator has joined, or was active before
    have hmem {v : String × ValidatorNode} (hv : v ∈ (c.updated update).activeNodes) :
        v ∈ c.activeNodes ∨ Joins c (c.updated update) v := by
      obtain ⟨hget, hs⟩ := mem_activeNodes.1 hv
      rcases getElem?_updated hfits hget with ⟨hnew, -⟩ | ⟨hold, hstays⟩
      · exact .inr hnew
      · refine .inl (mem_activeNodes.2 ⟨hold, ?_⟩)
        by_contra hslashed
        rw [Bool.not_eq_false] at hslashed
        have hstill : (c.updated update).isSlashed v.1 = true :=
          (contains_foldl_erase _ _ _).2 ⟨hslashed, hstays⟩
        rw [hs] at hstill
        cases hstill
    intro v hv w hw
    rcases hmem hv with hv' | hv'
    · rcases hmem hw with hw' | hw'
      · exact h.states v hv' w hw'
      · exact (hjoin w hw' v (.inl hv')).symm
    · exact hjoin v hv' w (hmem hw)
  · intro validatorId n hn
    rcases getElem?_updated hfits hn with ⟨-, state, -, rfl⟩ | ⟨hold, -⟩
    · rfl
    · exact h.limits validatorId n hold

theorem Agreeing.apply (h : c.Agreeing) (hs : c.SlashesMembers) (op : ClusterOp)
    (hjoin : JoinInStep c (op.apply env c)) : (op.apply env c).Agreeing := by
  have hout := op.outcome_apply env hs
  revert hjoin
  generalize op.apply env c = c' at hout ⊢
  intro hjoin
  cases op with
  | recordEquivocation evidence =>
    rcases hout with rfl | ⟨-, rfl⟩
    · exact h
    · exact h.slashing evidence
  | certificateFromActiveVotes height blockHash votes =>
    rcases hout with rfl | ⟨evidence, -, -, rfl⟩
    · exact h
    · exact h.slashing evidence
  | finalizeBlock block =>
    rcases hout with rfl | ⟨-, rfl⟩ | ⟨accepting, v, rest, hactive, hall, hv, rfl⟩
    · exact h
    · exact h.offered
    · exact h.stopped hactive hall hv
  | applyValidatorSetUpdate update certificate =>
    rcases hout with rfl | ⟨-, hfits, rfl⟩
    · exact h
    · exact h.updated hfits hjoin

theorem Agreeing.new {validators : List (String × DeTTaState)}
    (h : ConsensusCluster.new validators = .ok c)
    (hsame : ∀ v ∈ validators, ∀ w ∈ validators, v.2 = w.2) : c.Agreeing := by
  obtain ⟨-, rfl⟩ := of_new_eq_ok h
  have hnode {validatorId : String} {n : ValidatorNode}
      (hn : (validators.foldl (fun t v => t.insert v.1 (.new v.1 v.2))
        (∅ : ExtTreeMap String ValidatorNode))[validatorId]? = some n) :
      ∃ v ∈ validators, n = .new v.1 v.2 := by
    rcases Table.mem_of_getElem?_foldl_insert hn with ⟨v, hv, -, rfl⟩ | hn
    · exact ⟨v, hv, rfl⟩
    · simp at hn
  constructor
  · intro v hv w hw
    obtain ⟨v', hv', hv⟩ := hnode (mem_activeNodes.1 hv).1
    obtain ⟨w', hw', hw⟩ := hnode (mem_activeNodes.1 hw).1
    rw [hv, hw]
    exact hsame v' hv' w' hw'
  · intro validatorId n hn
    obtain ⟨v, -, rfl⟩ := hnode hn
    rfl

/-- A run of a cluster that starts with the same state for all validators, and in which
    validators join with the state of the active ones: then in the end all active validators
    have the same state. -/
theorem replicas_agree {validators : List (String × DeTTaState)}
    (h : ConsensusCluster.new validators = .ok c)
    (hsame : ∀ v ∈ validators, ∀ w ∈ validators, v.2 = w.2) (ops : List ClusterOp)
    (hjoin : ∀ p ∈ stepsFrom (ClusterOp.apply env) c ops, JoinInStep p.1 (p.2.apply env p.1)) :
    ∀ v ∈ (runFrom (ClusterOp.apply env) c ops).activeNodes,
      ∀ w ∈ (runFrom (ClusterOp.apply env) c ops).activeNodes, v.2.state = w.2.state := by
  have hrun := runFrom_invariant (I := fun c : ConsensusCluster => c.Reachable env ∧ c.Agreeing)
    ⟨.new h, .new h hsame⟩
    (fun c op hc hjoin => ⟨hc.1.op op, hc.2.apply hc.1.slashesMembers op hjoin⟩) hjoin
  exact hrun.1.2.states

end ConsensusCluster

namespace Split

open ConsensusCluster

/-- A second validator joins, and both finalize a block. -/
def growth : List ClusterOp :=
  [.applyValidatorSetUpdate ⟨"u1", [("v2", .new "detta")], []⟩ ⟨1, "block", ["v1"]⟩,
    .finalizeBlock ((ValidatorNode.new "v1" (.new "detta")).proposeBlock env 1 [] 0)]

theorem replicas_agree_growth :
    (runFrom (ClusterOp.apply env) lone growth).activeNodes.length = 2 ∧
      ∀ v ∈ (runFrom (ClusterOp.apply env) lone growth).activeNodes,
        ∀ w ∈ (runFrom (ClusterOp.apply env) lone growth).activeNodes,
          v.2.state = w.2.state := by
  have hnew : ConsensusCluster.new [("v1", .new "detta")] = .ok lone := rfl
  refine ⟨by decide, replicas_agree hnew (by simp) growth ?_⟩
  simp only [growth, stepsFrom, List.forall_mem_cons, List.not_mem_nil, false_imp_iff,
    implies_true, and_true]
  refine ⟨fun v hv w hw => ?_, fun v hv => ?_⟩
  · have hlist : (runFrom (ClusterOp.apply env) lone (growth.take 1)).validators.toList =
      [("v1", .new "v1" (.new "detta")), ("v2", .new "v2" (.new "detta"))] := rfl
    have hstate {u : String × ValidatorNode} (hu : u ∈ lone.activeNodes ∨ Joins lone
        (runFrom (ClusterOp.apply env) lone (growth.take 1)) u) : u.2.state = .new "detta" := by
      rcases hu with hu | ⟨-, hu⟩
      · rw [activeNodes_lone, List.mem_singleton] at hu
        rw [hu]
        rfl
      · rw [← ExtTreeMap.mem_toList_iff_getElem?_eq_some, hlist] at hu
        obtain ⟨name, node⟩ := u
        rcases List.mem_pair.1 hu with heq | heq <;> cases heq <;> rfl
    rw [hstate (.inr hv), hstate hw]
  · -- nobody joins with a block
    have hold : ∀ u ∈ (runFrom (ClusterOp.apply env) lone growth).validators.toList,
        (runFrom (ClusterOp.apply env) lone (growth.take 1)).validators.contains u.1 = true := by
      decide
    have hmem := hold _ (ExtTreeMap.mem_toList_iff_getElem?_eq_some.2 hv.2)
    exact absurd (hv.1.symm.trans hmem) Bool.false_ne_true

end Split

/-! ## Active validators -/

namespace ConsensusCluster

variable {env : Env} {c c' : ConsensusCluster} {validatorId : String} {update : ValidatorSetUpdate}

/-- Slashed validators are validators, so that active ones can be counted, somebody is active,
    and a quorum is somebody. -/
structure Governed (c : ConsensusCluster) : Prop where
  slashed : c.SlashesMembers
  count : c.activeValidatorCount + c.slashingRecords.size = c.validators.size
  active : ∃ validatorId, c.Active validatorId
  quorum : 1 ≤ c.quorum

/-- There is somebody else who is active. -/
def Outlives (c : ConsensusCluster) (validatorId : String) : Prop :=
  c.validators.contains validatorId = true → ∃ other, other ≠ validatorId ∧ c.Active other

theorem size_slashingRecords_le (h : c.SlashesMembers) :
    c.slashingRecords.size ≤ c.validators.size := by
  rw [← ExtTreeMap.length_keys, ← ExtTreeMap.length_keys]
  refine (ExtTreeMap.nodup_keys.subperm fun v hv => ?_).length_le
  rw [ExtTreeMap.mem_keys, ← ExtTreeMap.contains_iff_mem] at hv ⊢
  exact h v hv

theorem activeValidatorCount_pos (h : c.SlashesMembers) :
    0 < c.activeValidatorCount ↔ ∃ validatorId, c.Active validatorId := by
  rw [← size_activeValidators h, ← ExtTreeSet.length_toList, List.length_pos_iff_exists_mem]
  simp only [ExtTreeSet.mem_toList, ← ExtTreeSet.contains_iff_mem,
    contains_activeValidators, Active]

/-- A quorum is somebody as soon as somebody is active. -/
theorem Governed.of_active (hs : c.SlashesMembers) (h : c.Active validatorId) : c.Governed := by
  refine ⟨hs, Nat.sub_add_cancel (size_slashingRecords_le hs), ⟨validatorId, h⟩, ?_⟩
  have hpos := (activeValidatorCount_pos hs).2 ⟨validatorId, h⟩
  rw [ConsensusCluster.quorum, quorumFor, if_neg hpos.ne']
  exact Nat.succ_le_succ (Nat.zero_le _)

theorem Active.slashing (h : c.Active validatorId) {evidence : EquivocationEvidence}
    (hne : validatorId ≠ evidence.validatorId) :
    (c.slashing evidence).Active validatorId := by
  refine ⟨h.1, ?_⟩
  have hs : c.slashingRecords.contains validatorId = false := h.2
  simp [isSlashed, ConsensusCluster.slashing, ExtTreeMap.contains_insert, hs, Ne.symm hne]

theorem contains_offered {block : Block} {validators : List (String × ValidatorNode)}
    (h : c.validators.contains validatorId = true) :
    (c.offered env block validators).validators.contains validatorId = true :=
  contains_foldl_insert validators (fun v => (v.2.validateAndApply env block).1) h

theorem isSlashed_updated
    (h : c.isSlashed validatorId = false) : (c.updated update).isSlashed validatorId = false := by
  rw [← Bool.not_eq_true]
  intro hs
  have hold : c.isSlashed validatorId = true := ((contains_foldl_erase _ _ _).1 hs).1
  rw [h] at hold
  cases hold

theorem Active.updated (h : c.Active validatorId) (hstays : validatorId ∉ update.removeValidators) :
    (c.updated update).Active validatorId :=
  ⟨contains_foldl_insert _ _ ((contains_foldl_erase _ _ _).2 ⟨h.1, hstays⟩),
    isSlashed_updated h.2⟩

/-- Newcomers are active. -/
theorem active_updated_of_added (hs : c.SlashesMembers) (hfits : c.Fits update)
    {v : String × DeTTaState} (hv : v ∈ update.addValidators) :
    (c.updated update).Active v.1 := by
  constructor
  · have hname {a : String × DeTTaState} (ha : a ∈ update.addValidators) (heq : a.1 = v.1) :
        a = v := List.inj_on_of_nodup_map hfits.added_nodup ha hv heq
    have hget : (c.updated update).validators[v.1]? = some (.new v.1 v.2) :=
      Table.getElem?_foldl_insert (fun a ha heq => by rw [hname ha heq]) (.inl ⟨v, hv, rfl⟩)
    exact Table.contains_iff.2 ⟨_, hget⟩
  · refine isSlashed_updated ?_
    rw [← Bool.not_eq_true]
    intro hslashed
    have hold := hs v.1 hslashed
    rw [hfits.added_new v hv] at hold
    cases hold

end ConsensusCluster

/-- The operation slashes or removes the last active validator in no case, and counts no votes
    of strangers. -/
def ClusterOp.Careful (c : ConsensusCluster) : ClusterOp → Prop
  | recordEquivocation evidence => c.Outlives evidence.validatorId
  | certificateFromActiveVotes _ _ votes =>
    (∀ vote ∈ votes, c.isSlashed vote.validatorId = false →
      c.validators.contains vote.validatorId = true) ∧
    ∀ a ∈ votes, ∀ b ∈ votes, a.Conflicts b → c.Outlives a.validatorId
  | finalizeBlock _ => True
  | applyValidatorSetUpdate update _ =>
    update.addValidators ≠ [] ∨ ∃ validatorId, c.Active validatorId ∧
      validatorId ∉ update.removeValidators

/-- The certificate with which an operation succeeds: one that it has issued, or one that has
    authorised an update. -/
def ClusterOp.accepted (env : Env) (c : ConsensusCluster) : ClusterOp → Option FinalityCertificate
  | recordEquivocation _ => none
  | certificateFromActiveVotes height blockHash votes =>
    match Cluster.certificateFromActiveVotes height blockHash votes c with
    | .ok certificate _ => some certificate
    | .error _ _ => none
  | finalizeBlock block =>
    match Cluster.finalizeBlock env block c with
    | .ok certificate _ => some certificate
    | .error _ _ => none
  | applyValidatorSetUpdate update certificate =>
    match Cluster.applyValidatorSetUpdate update certificate c with
    | .ok _ _ => some certificate
    | .error _ _ => none

/-- The certificate of a decision: of a block that an operation has finalized, or of an update
    that it has applied. -/
def ClusterOp.Decides (env : Env) (c : ConsensusCluster) (certificate : FinalityCertificate) :
    ClusterOp → Prop
  | finalizeBlock block => (finalizeBlock block).accepted env c = some certificate
  | applyValidatorSetUpdate update presented =>
    (applyValidatorSetUpdate update presented).accepted env c = some certificate
  | recordEquivocation _ | certificateFromActiveVotes _ _ _ => False

namespace ConsensusCluster

variable {env : Env} {c c' : ConsensusCluster}

theorem Governed.slashing {evidence : EquivocationEvidence}
    (hs : (c.slashing evidence).SlashesMembers)
    (hknown : c.validators.contains evidence.validatorId = true)
    (ho : c.Outlives evidence.validatorId) : (c.slashing evidence).Governed := by
  obtain ⟨other, hne, hother⟩ := ho hknown
  exact .of_active hs (hother.slashing hne)

theorem Governed.offered (h : c.Governed) {block : Block}
    {validators : List (String × ValidatorNode)}
    (hs : (c.offered env block validators).SlashesMembers) :
    (c.offered env block validators).Governed := by
  obtain ⟨validatorId, hactive⟩ := h.active
  exact .of_active hs ⟨contains_offered hactive.1, hactive.2⟩

theorem Governed.updated (h : c.Governed) {update : ValidatorSetUpdate} (hfits : c.Fits update)
    (hs : (c.updated update).SlashesMembers)
    (hstays : update.addValidators ≠ [] ∨ ∃ validatorId, c.Active validatorId ∧
      validatorId ∉ update.removeValidators) : (c.updated update).Governed := by
  rcases hstays with hadd | ⟨validatorId, hactive, hstays⟩
  · obtain ⟨v, hv⟩ := List.exists_mem_of_ne_nil _ hadd
    exact .of_active hs (active_updated_of_added h.slashed hfits hv)
  · exact .of_active hs (hactive.updated hstays)

theorem Governed.apply (h : c.Governed) (op : ClusterOp) (hcareful : op.Careful c)
    (hs : (op.apply env c).SlashesMembers) : (op.apply env c).Governed := by
  have hout := op.outcome_apply env h.slashed
  revert hs
  generalize op.apply env c = c' at hout ⊢
  intro hs
  cases op with
  | recordEquivocation evidence =>
    rcases hout with rfl | ⟨hknown, rfl⟩
    · exact h
    · exact .slashing hs hknown hcareful
  | certificateFromActiveVotes height blockHash votes =>
    rcases hout with rfl | ⟨evidence, hd, hknown, rfl⟩
    · exact h
    · obtain ⟨a, ha, b, hb, hab, hname⟩ := conflicts_of_detectEquivocation hd
      exact .slashing hs hknown (hname.1 ▸ hcareful.2 a ha b hb hab)
  | finalizeBlock block =>
    rcases hout with rfl | ⟨-, rfl⟩ | ⟨accepting, v, rest, -, -, -, rfl⟩
    · exact h
    · exact h.offered hs
    · exact h.offered hs
  | applyValidatorSetUpdate update certificate =>
    rcases hout with rfl | ⟨-, hfits, rfl⟩
    · exact h
    · exact h.updated hfits hs hcareful

/-- A finalization is signed by all active validators. -/
theorem wp_finalizeBlock_signers (block : Block) :
    wp (Cluster.finalizeBlock env block)
      (fun certificate _ => c.Authorised certificate.signers) (fun _ _ => True) c := by
  unfold Cluster.finalizeBlock
  refine .get (.ensure ⟨fun _ => ?_, fun _ => trivial⟩)
  refine wp_bind.2 ((wp_collectVotes c env block c.validators.toList).imp ?_)
  rintro _ c' ⟨-, rfl, rfl⟩
  refine (wp_certificateFromActiveVotes _ _ _).imp ?_
  rintro certificate _ ⟨rfl, -, -, hq, hsigners⟩
  constructor
  · intro signer hsigner
    obtain ⟨-, vote, hvote, rfl, -, -⟩ := (hsigners signer).1 hsigner
    obtain ⟨v, hv, rfl⟩ := List.mem_map.1 hvote
    exact ⟨contains_of_mem_activeNodes hv, (mem_activeNodes.1 hv).2⟩
  · exact quorum_offered ▸ hq

theorem authorised_of_decides {op : ClusterOp} {certificate : FinalityCertificate}
    (hd : op.Decides env c certificate) : c.Authorised certificate.signers := by
  cases op with
  | recordEquivocation evidence => cases hd
  | certificateFromActiveVotes height blockHash votes => cases hd
  | finalizeBlock block =>
    simp only [ClusterOp.Decides, ClusterOp.accepted] at hd
    split at hd
    next issued c' hissued =>
      obtain rfl := Option.some.inj hd
      exact (wp_of_ok hissued).1 (wp_finalizeBlock_signers block)
    next => cases hd
  | applyValidatorSetUpdate update certificate' =>
    simp only [ClusterOp.Decides, ClusterOp.accepted] at hd
    split at hd
    next _ c' happlied =>
      obtain rfl := Option.some.inj hd
      exact ((wp_of_ok happlied).1 (wp_applyValidatorSetUpdate update certificate')).2.1
    next => cases hd

/-- Whatever is accepted has a quorum behind it. -/
theorem authorised_of_accepted {op : ClusterOp} (hcareful : op.Careful c)
    {certificate : FinalityCertificate} (ha : op.accepted env c = some certificate) :
    c.Authorised certificate.signers := by
  cases op with
  | recordEquivocation evidence => cases ha
  | certificateFromActiveVotes height blockHash votes =>
    simp only [ClusterOp.accepted] at ha
    split at ha
    next issued c' hissued =>
      obtain rfl := Option.some.inj ha
      obtain ⟨-, -, -, hq, hsigners⟩ :=
        (wp_of_ok hissued).1 (wp_certificateFromActiveVotes height blockHash votes)
      refine ⟨fun signer hsigner => ?_, hq⟩
      obtain ⟨hslashed, vote, hvote, rfl, -, -⟩ := (hsigners signer).1 hsigner
      exact ⟨hcareful.1 vote hvote hslashed, hslashed⟩
    next => cases ha
  | finalizeBlock block => exact @authorised_of_decides env c (.finalizeBlock block) _ ha
  | applyValidatorSetUpdate update certificate' =>
    exact @authorised_of_decides env c (.applyValidatorSetUpdate update certificate') _ ha

theorem Governed.new {validators : List (String × DeTTaState)}
    (h : ConsensusCluster.new validators = .ok c) : c.Governed := by
  obtain ⟨hne, rfl⟩ := of_new_eq_ok h
  cases validators with
  | nil => exact absurd rfl hne
  | cons v validators =>
    refine @Governed.of_active _ v.1 (fun w hw => by simp [isSlashed] at hw)
      ⟨?_, by simp [isSlashed]⟩
    exact contains_foldl_insert validators (fun v => ValidatorNode.new v.1 v.2)
      (by simp [ExtTreeMap.contains_insert])

/-- A run of a cluster in which no operation slashes or removes the last active validator or
    counts votes of strangers: then in every state somebody is active and the quorum is not
    zero, and whatever is accepted has a quorum of active signers. -/
theorem active_set_governs {validators : List (String × DeTTaState)}
    (h : ConsensusCluster.new validators = .ok c) (ops : List ClusterOp)
    (hcareful : ∀ p ∈ stepsFrom (ClusterOp.apply env) c ops, p.2.Careful p.1) :
    (runFrom (ClusterOp.apply env) c ops).Governed ∧
      (∀ certificate height blockHash,
        (runFrom (ClusterOp.apply env) c ops).verifyFinalityCertificate certificate height
          blockHash = .ok () →
        (runFrom (ClusterOp.apply env) c ops).Authorised certificate.signers) ∧
      ∀ p ∈ stepsFrom (ClusterOp.apply env) c ops, p.1.Governed ∧
        ∀ certificate, p.2.accepted env p.1 = some certificate →
          p.1.Authorised certificate.signers := by
  obtain ⟨⟨hreach, hend⟩, hsteps⟩ := runFrom_invariant
    (I := fun c : ConsensusCluster => c.Reachable env ∧ c.Governed) ⟨.new h, .new h⟩
    (fun c op hc hcareful => ⟨hc.1.op op, hc.2.apply op hcareful (hc.1.op op).slashesMembers⟩)
    hcareful
  refine ⟨hend, fun certificate height blockHash hv => ?_, fun p hp => ⟨(hsteps p hp).2, ?_⟩⟩
  · obtain ⟨-, -, -, hsigners, hq⟩ := (verifyFinalityCertificate_eq_ok hend.slashed).1 hv
    exact ⟨hsigners, hq⟩
  · exact fun certificate ha => authorised_of_accepted (hcareful p hp) ha

end ConsensusCluster

namespace Split

open ConsensusCluster

theorem active_set_governs_growth :
    (runFrom (ClusterOp.apply env) lone growth).activeValidatorCount = 2 ∧
      (runFrom (ClusterOp.apply env) lone growth).Governed := by
  have hnew : ConsensusCluster.new [("v1", .new "detta")] = .ok lone := rfl
  refine ⟨by decide, (active_set_governs hnew growth ?_).1⟩
  simp only [growth, stepsFrom, List.forall_mem_cons, List.not_mem_nil, false_imp_iff,
    implies_true, and_true]
  exact ⟨.inl (by simp), trivial⟩

/-- The one validator is slashed without proof. -/
def vacant : ConsensusCluster := ClusterOp.apply env lone (.recordEquivocation ⟨"v1", 1, "a", "a"⟩)

theorem reachable_vacant : vacant.Reachable env := reachable_lone.op _

/-- Then nobody is active, and an update needs no signers. Also, before that, the vote of a
    stranger is enough for a certificate. -/
theorem active_set_vanishes :
    vacant.Reachable env ∧ (∀ v, ¬vacant.Active v) ∧ vacant.quorum = 0 ∧
      (ClusterOp.applyValidatorSetUpdate ⟨"u1", [("mallory", .new "detta")], ["v1"]⟩
        ⟨1, "none", []⟩).accepted env vacant = some ⟨1, "none", []⟩ ∧
      lone.Reachable env ∧
      (ClusterOp.certificateFromActiveVotes 1 "block" [⟨"mallory", 1, "block"⟩]).accepted env lone =
        some ⟨1, "block", ["mallory"]⟩ ∧ ¬lone.Authorised ["mallory"] := by
  refine ⟨reachable_vacant, fun v hv => ?_, rfl, rfl, reachable_lone, rfl, fun h => ?_⟩
  · have hcount := (activeValidatorCount_pos reachable_vacant.slashesMembers).2 ⟨v, hv⟩
    exact absurd hcount (by decide)
  · exact absurd (h.1 "mallory" (by simp)).1 (by decide)

end Split

/-! ## What a certificate is good for -/

namespace ConsensusCluster

variable {env : Env} {c : ConsensusCluster} {certificate : FinalityCertificate}

/-- A certificate is accepted for any update that fits, whatever it was made for. -/
theorem accepted_update_iff {update : ValidatorSetUpdate} :
    (ClusterOp.applyValidatorSetUpdate update certificate).accepted env c = some certificate ↔
      c.appliedValidatorSetUpdates.contains update.updateId = false ∧
        c.Authorised certificate.signers ∧ c.Fits update := by
  have hwp := wp_applyValidatorSetUpdate (c := c) update certificate
  unfold wp at hwp
  simp only [ClusterOp.accepted]
  split at hwp
  next happlied =>
    rw [happlied]
    exact ⟨fun _ => ⟨hwp.1, hwp.2.1, hwp.2.2.1⟩, fun _ => rfl⟩
  next hrefused =>
    rw [hrefused]
    exact ⟨nofun, fun h => absurd h hwp.2⟩

/-- There is always an update that fits: somebody new joins. -/
theorem exists_update_fits (c : ConsensusCluster) : ∃ update : ValidatorSetUpdate,
    c.appliedValidatorSetUpdates.contains update.updateId = false ∧ c.Fits update := by
  obtain ⟨updateId, hid⟩ :=
    Infinite.exists_notMem_finset c.appliedValidatorSetUpdates.toList.toFinset
  obtain ⟨newcomer, hnew⟩ := Infinite.exists_notMem_finset c.validators.keys.toFinset
  refine ⟨⟨updateId, [(newcomer, .new "detta")], []⟩, ?_, ?_⟩
  · simpa [← ExtTreeSet.contains_iff_mem] using hid
  · exact ⟨by simp, by simpa [← ExtTreeMap.contains_iff_mem] using hnew, by simp, by simp,
      by simp⟩

/-- After a decision, its certificate authorises no update if and only if one of those who
    signed it has left or has been slashed since, or they are a quorum no more. -/
theorem certificate_spent_iff {op : ClusterOp} (hd : op.Decides env c certificate)
    (later : List ClusterOp) :
    (∀ update, (ClusterOp.applyValidatorSetUpdate update certificate).accepted env
        (runFrom (ClusterOp.apply env) c (op :: later)) ≠ some certificate) ↔
      (∃ signer ∈ certificate.signers, c.Active signer ∧
        ¬(runFrom (ClusterOp.apply env) c (op :: later)).Active signer) ∨
      certificate.signers.toFinset.card <
        (runFrom (ClusterOp.apply env) c (op :: later)).quorum := by
  generalize runFrom (ClusterOp.apply env) c (op :: later) = c'
  simp only [ne_eq, accepted_update_iff]
  constructor
  · intro h
    obtain ⟨update, hnew, hfits⟩ := c'.exists_update_fits
    have hnot : ¬c'.Authorised certificate.signers := fun ha => h update ⟨hnew, ha, hfits⟩
    rw [Authorised, not_and_or, not_le] at hnot
    refine hnot.imp_left fun hsigner => ?_
    push Not at hsigner
    obtain ⟨signer, hmem, hleft⟩ := hsigner
    exact ⟨signer, hmem, (authorised_of_decides hd).1 signer hmem, hleft⟩
  · rintro (⟨signer, hmem, -, hleft⟩ | hq) update ⟨-, hauth, -⟩
    · exact hleft (hauth.1 signer hmem)
    · exact Nat.not_lt.2 hauth.2 hq

end ConsensusCluster

namespace Split

open ConsensusCluster

def trio : ConsensusCluster :=
  ⟨((lone.validators.insert "v2" (.new "v2" (.new "detta"))).insert "v3"
    (.new "v3" (.new "detta"))), ∅, ∅⟩

theorem reachable_trio : trio.Reachable env :=
  have hnew : ConsensusCluster.new
    [("v1", .new "detta"), ("v2", .new "detta"), ("v3", .new "detta")] = .ok trio := rfl
  .new hnew

def trioBlock : Block := (ValidatorNode.new "v1" (.new "detta")).proposeBlock env 1 [] 0

def trioCertificate : FinalityCertificate :=
  ⟨1, trioBlock.blockHash env.hashing, ["v1", "v2", "v3"]⟩

def joining (updateId validatorId : String) : ClusterOp :=
  .applyValidatorSetUpdate ⟨updateId, [(validatorId, .new "detta")], []⟩ trioCertificate

theorem trio_evaluated :
    (ClusterOp.finalizeBlock trioBlock).accepted env trio = some trioCertificate ∧
      (joining "u1" "v4").accepted env
        (runFrom (ClusterOp.apply env) trio [.finalizeBlock trioBlock]) = some trioCertificate ∧
      (joining "u2" "v5").accepted env
        (runFrom (ClusterOp.apply env) trio [.finalizeBlock trioBlock, joining "u1" "v4"]) =
          some trioCertificate ∧
      (runFrom (ClusterOp.apply env) trio
        [.finalizeBlock trioBlock, .recordEquivocation ⟨"v3", 1, "a", "b"⟩]).isSlashed "v3" =
          true := by
  decide

/-- With the certificate of a block, one validator joins and then another one. -/
theorem certificate_decides_twice :
    trio.Reachable env ∧ (ClusterOp.finalizeBlock trioBlock).Decides env trio trioCertificate ∧
      (joining "u1" "v4").accepted env
        (runFrom (ClusterOp.apply env) trio [.finalizeBlock trioBlock]) = some trioCertificate ∧
      (joining "u2" "v5").accepted env
        (runFrom (ClusterOp.apply env) trio [.finalizeBlock trioBlock, joining "u1" "v4"]) =
          some trioCertificate :=
  ⟨reachable_trio, trio_evaluated.1, trio_evaluated.2.1, trio_evaluated.2.2.1⟩

theorem certificate_spent_trio :
    (joining "u1" "v4").accepted env (runFrom (ClusterOp.apply env) trio
      [.finalizeBlock trioBlock, .recordEquivocation ⟨"v3", 1, "a", "b"⟩]) ≠
        some trioCertificate := by
  have hd : (ClusterOp.finalizeBlock trioBlock).Decides env trio trioCertificate :=
    trio_evaluated.1
  refine (certificate_spent_iff hd _).2 (.inl ⟨"v3", by simp [trioCertificate], ?_, ?_⟩) _
  · exact (authorised_of_decides hd).1 "v3" (by simp [trioCertificate])
  · exact fun h => Bool.false_ne_true (h.2.symm.trans trio_evaluated.2.2.2)

end Split

end Detta
