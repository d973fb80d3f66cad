import Detta.Safety.Persistent
import Detta.Safety.Replicas

/-!
# Who is slashed

A validator should be slashed if and only if it has voted twice at one height. The search for
contradicting votes is exact. But a cluster records any evidence that it is given, and believes
that votes were cast by the validators they name; and a node records any evidence, signed or
not, that comes from the network. So a record means what it should as long as the evidence and
the votes that are handed in are true (`ClusterOp.Truthful`, `PersistentOp.Truthful`): the
votes that were really cast are a parameter.
-/

namespace Detta

variable {Cast : Vote → Prop}

/-- The validator has cast two votes that contradict each other. -/
def Equivocated (Cast : Vote → Prop) (validatorId : String) : Prop :=
  ∃ a b, Cast a ∧ Cast b ∧ a.Conflicts b ∧ a.validatorId = validatorId

/-- The evidence names two votes that were cast, and that contradict each other. -/
def EquivocationEvidence.True (Cast : Vote → Prop) (e : EquivocationEvidence) : Prop :=
  ∃ a b, Cast a ∧ Cast b ∧ a.Conflicts b ∧ e.Names a b

theorem EquivocationEvidence.True.equivocated {e : EquivocationEvidence} (h : e.True Cast) :
    Equivocated Cast e.validatorId := by
  obtain ⟨a, b, ha, hb, hab, hnames⟩ := h
  exact ⟨a, b, ha, hb, hab, hnames.1.symm⟩

/-! ## Clusters -/

/-- The evidence and the votes that a cluster is given are true. -/
def ClusterOp.Truthful (Cast : Vote → Prop) : ClusterOp → Prop
  | recordEquivocation evidence => evidence.True Cast
  | certificateFromActiveVotes _ _ votes => ∀ vote ∈ votes, Cast vote
  | finalizeBlock _ | applyValidatorSetUpdate _ _ => True

namespace ConsensusCluster

variable {env : Env} {c : ConsensusCluster}

/-- Everybody who is slashed has equivocated. -/
def SlashesJustly (Cast : Vote → Prop) (c : ConsensusCluster) : Prop :=
  ∀ v, c.isSlashed v = true → Equivocated Cast v

theorem SlashesJustly.slashing (h : c.SlashesJustly Cast) {evidence : EquivocationEvidence}
    (he : evidence.True Cast) : (c.slashing evidence).SlashesJustly Cast := by
  intro v hv
  rcases Table.contains_insert.1 hv with rfl | hv
  · exact he.equivocated
  · exact h v hv

theorem SlashesJustly.apply (hs : c.SlashesMembers) (h : c.SlashesJustly Cast) {op : ClusterOp}
    (hop : op.Truthful Cast) : (op.apply env c).SlashesJustly Cast := by
  have hout := op.outcome_apply env hs
  generalize op.apply env c = c' at hout
  cases op with
  | recordEquivocation evidence =>
    rcases hout with rfl | ⟨-, rfl⟩
    · exact h
    · exact h.slashing hop
  | certificateFromActiveVotes height blockHash votes =>
    rcases hout with rfl | ⟨evidence, hd, -, rfl⟩
    · exact h
    · obtain ⟨a, ha, b, hb, hab, hnames⟩ := conflicts_of_detectEquivocation hd
      exact h.slashing ⟨a, b, hop a ha, hop b hb, hab, hnames⟩
  | finalizeBlock block =>
    rcases hout with rfl | ⟨-, rfl⟩ | ⟨_, _, _, -, -, -, rfl⟩
    exacts [h, h, h]
  | applyValidatorSetUpdate update certificate =>
    rcases hout with rfl | ⟨-, -, rfl⟩
    · exact h
    · refine fun v hv => h v ?_
      have hv' : (c.updated update).isSlashed v = true := hv
      by_contra hnot
      rw [isSlashed_updated (Bool.eq_false_iff.2 hnot)] at hv'
      exact Bool.false_ne_true hv'

end ConsensusCluster

/-! ## Nodes -/

/-- The evidence that a node is given, by a call or by the network, is true. -/
def PersistentOp.Truthful (Cast : Vote → Prop) : PersistentOp → Prop
  | persistEquivocationEvidence evidence => evidence.True Cast
  | ingestNetworkEnvelope message =>
    ∀ evidence, message.Bears (.equivocationEvidence evidence) → evidence.True Cast
  | _ => True

namespace PersistentValidatorNode

variable {env : NodeEnv} {n : PersistentValidatorNode}

open PersistentNode

/-- Whoever a node has a record of has equivocated. -/
def SlashesJustly (Cast : Vote → Prop) (n : PersistentValidatorNode) : Prop :=
  ∀ v record, n.storage.slashings[v]? = some record → Equivocated Cast v

theorem insensitive_slashesJustly (Cast : Vote → Prop) :
    Insensitive env FileStorage.slashings (SlashesJustly Cast) where
  take _ _ _ _ _ h := h
  drop _ _ h := h
  files _ _ hst h := fun v record hv => h v record (hst ▸ hv)

theorem SlashesJustly.persistEquivocationEvidence {evidence : EquivocationEvidence}
    (he : evidence.True Cast) :
    Keeps (SlashesJustly Cast) (fun _ => SlashesJustly Cast)
      (persistEquivocationEvidence env evidence) := by
  intro n hn
  unfold PersistentNode.persistEquivocationEvidence Storage.commitSlashingRecord
  refine wp_bind.2 (wp_onStorage.2 (Storage.wp_writeJsonAtomic (fun _ f => ?_) fun _ _ => hn))
  intro v record hv
  rcases Table.of_getElem?_insert hv with ⟨rfl, -⟩ | hv
  · exact he.equivocated
  · exact hn v record hv

/-- Evidence is the only way to a record. -/
theorem SlashesJustly.run (h : n.SlashesJustly Cast) {op : PersistentOp}
    (hop : op.Truthful Cast) :
    wp (op.run env) (fun _ => SlashesJustly Cast) (fun _ => SlashesJustly Cast) n := by
  refine (insensitive_slashesJustly Cast).run (fun _ _ h => h) (fun _ _ _ _ _ h => h) h
    (fun _ _ h => h) ?_
  intro evidence hbrings
  cases hbrings with
  | evidence => exact persistEquivocationEvidence hop n h
  | message he => exact persistEquivocationEvidence (hop evidence he) n h

end PersistentValidatorNode

/-! ## Soundness and completeness -/

/-- Contradicting votes are found exactly if there are any, and evidence names two of them.
    As long as the evidence and the votes that are handed in are true, everybody who is slashed
    in a cluster, or has a record in the files of a node, has voted twice at one height. -/
theorem slashing_sound_and_complete (Cast : Vote → Prop) :
    (∀ votes, (∃ e, detectEquivocation votes = some e) ↔
      ∃ a ∈ votes, ∃ b ∈ votes, a.Conflicts b) ∧
    (∀ votes e, detectEquivocation votes = some e →
      ∃ a ∈ votes, ∃ b ∈ votes, a.Conflicts b ∧ e.Names a b) ∧
    (∀ env validators c ops, ConsensusCluster.new validators = .ok c →
      (∀ op ∈ ops, ClusterOp.Truthful Cast op) →
      (runFrom (ClusterOp.apply env) c ops).SlashesJustly Cast) ∧
    ∀ env n ops, PersistentValidatorNode.SlashesJustly Cast n →
      (∀ op ∈ ops, PersistentOp.Truthful Cast op) →
      (runFrom (PersistentOp.apply env) n ops).SlashesJustly Cast := by
  refine ⟨fun votes => ?_, fun votes e => conflicts_of_detectEquivocation,
    fun env validators c ops hnew hops => ?_, fun env n ops hn hops => ?_⟩
  · rw [← Option.isSome_iff_exists, ← Option.ne_none_iff_isSome, ne_eq,
      detectEquivocation_eq_none_iff]
    push Not
    rfl
  · have hstart : c.SlashesJustly Cast := by
      obtain ⟨-, rfl⟩ := ConsensusCluster.of_new_eq_ok hnew
      exact fun v hv => by simp [ConsensusCluster.isSlashed] at hv
    exact (runFrom_invariant
      (I := fun c : ConsensusCluster => c.Reachable env ∧ c.SlashesJustly Cast)
      ⟨.new hnew, hstart⟩
      (fun c op hc hop => ⟨hc.1.op op, hc.2.apply hc.1.slashesMembers hop⟩)
      fun p hp => hops p.2 (mem_of_mem_stepsFrom hp)).1.2
  · exact (runFrom_invariant hn (fun n op hn hop => (hn.run hop).endState)
      fun p hp => hops p.2 (mem_of_mem_stepsFrom hp)).1

namespace Framed

/-! Evidence without two different blocks, against a validator that has never voted. -/

open ConsensusCluster

def evidence : EquivocationEvidence := ⟨"v1", 1, "block", "block"⟩

def env : NodeEnv where
  toEnv := Split.env
  messageBytes _ := some []
  readSnapshot _ := none
  isVerifyingKey _ := true
  verifies _ _ _ := true
  storedBytes _ := []
  ioMessage := "failed"

def node : PersistentValidatorNode := .ofNode "v2" (.new "v2" (.new "detta")) .empty

def twoVotes : List Vote := [⟨"v1", 1, "a"⟩, ⟨"v1", 1, "b"⟩]

theorem slashing_sound_and_complete_twoVotes :
    (runFrom (ClusterOp.apply Split.env) Split.lone
      [.certificateFromActiveVotes 1 "a" twoVotes]).isSlashed "v1" = true ∧
      Equivocated (· ∈ twoVotes) "v1" := by
  have hnew : ConsensusCluster.new [("v1", .new "detta")] = .ok Split.lone := rfl
  have hslashed : (runFrom (ClusterOp.apply Split.env) Split.lone
    [.certificateFromActiveVotes 1 "a" twoVotes]).isSlashed "v1" = true := by rfl
  refine ⟨hslashed, (slashing_sound_and_complete (· ∈ twoVotes)).2.2.1 _ _ _ _ hnew ?_ _ hslashed⟩
  simp [ClusterOp.Truthful]

theorem evidence_names_no_conflict (a b : Vote) (hab : a.Conflicts b) : ¬evidence.Names a b := by
  rintro ⟨-, -, hhashes⟩
  rw [orderedHashPair] at hhashes
  split at hhashes
  all_goals
    obtain ⟨ha, hb⟩ := Prod.mk.inj hhashes
  · exact hab.2.2 (ha.symm.trans hb)
  · exact hab.2.2 (hb.symm.trans ha)

theorem slashed_without_votes :
    (∀ a b : Vote, a.Conflicts b → ¬evidence.Names a b) ∧ Split.lone.Reachable Split.env ∧
      (ClusterOp.apply Split.env Split.lone (.recordEquivocation evidence)).isSlashed "v1" =
        true ∧
      (PersistentOp.apply env node
        (.ingestNetworkEnvelope (.equivocationEvidence evidence))).storage.slashings["v1"]? =
          some ⟨"v1", 1, evidence⟩ :=
  ⟨evidence_names_no_conflict, Split.reachable_lone, rfl, rfl⟩

end Framed

end Detta
