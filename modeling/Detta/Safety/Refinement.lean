import Detta.Aspect.Meaning
import Detta.Safety.Outbox
import Detta.Safety.Lending
import Detta.Safety.Metering
import Detta.Safety.StaticEffects

/-!
# Aspect contracts as machines

An aspect contract keeps its states in the storage that all contracts share, under keys with the
aspects that own them. Seen from its module, it is a machine whose state is a table of numbers:
a call evaluates a projection on the numbers, and then writes some of them.

* The numbers that an evaluation reads are those in the storage (`Numbers.Gives.of_evalInput`), as
  the storage has no entries but those of the schema of the bundle (`DeTTaState.Tidy`).
* A call changes them by the writes of its trace, whatever it calls in between
  (`wp_replay`), and nobody else changes them. So each call is a step of the machine
  (`FrameRecord.Ran.refines`), and what the steps keep is kept along every run
  (`DeTTaState.Hosts.run`).
* That is used for the invariants of policies, for states that the verifier finds no write of
  (`AspectModuleIr.Spares`), and for the meaning of projections (`Interp.meaning`).
-/

namespace Detta

open Kernel

/-! ## Numbers -/

/-- The states of a contract: a number for each state and key. -/
abbrev Numbers := String → List String → U128

/-- The numbers after the writes of a trace. -/
def Numbers.after (n : Numbers) : List AspectHostOp → Numbers
  | [] => n
  | .stateSet state key value :: ops =>
    after (fun state' key' => if state' = state ∧ key' = key then
      (stateValueFromAspect value).getD 0 else n state' key') ops
  | _ :: ops => after n ops

section Host

variable (s : DeTTaState) (contract : ContractId) (ir : AspectModuleIr) (bundle : String)

/-- The contract is one of a bundle of the module. -/
def DeTTaState.Hosts : Prop :=
  ∃ record moduleHash abiRoot policyRoot invariantRoot module,
    s.contracts[contract]? = some record ∧
    record.kind = .aspectModule moduleHash bundle abiRoot policyRoot invariantRoot ∧
    s.aspectModules[moduleHash]? = some module ∧ module.ir = some ir

/-- The numbers of a contract in the storage. -/
def DeTTaState.numbers : Numbers := fun state key =>
  match aspectStateKey contract bundle ir state key with
  | .ok key => s.uintAt key
  | .error _ => 0

/-- The storage has entries of the contract only for its states, under their owners. -/
def DeTTaState.Tidy : Prop :=
  ∀ aspect state key, s.storage.contains (.aspectState contract aspect state key) = true →
    aspectStateKey contract bundle ir state key = .ok (.aspectState contract aspect state key)

end Host

variable {env : Env} {s s' : DeTTaState} {contract : ContractId} {ir : AspectModuleIr}
  {bundle : String}

theorem DeTTaState.Hosts.contains (h : s.Hosts contract ir bundle) :
    s.contracts.contains contract = true := by
  obtain ⟨record, _, _, _, _, _, hr, -⟩ := h
  exact Table.contains_iff.2 ⟨record, hr⟩

namespace DeTTaState.SameOwn

variable (h : s.SameOwn contract s')

include h

theorem numbers : s'.numbers contract ir bundle = s.numbers contract ir bundle := by
  funext state key
  unfold DeTTaState.numbers
  cases hk : aspectStateKey contract bundle ir state key with
  | error e => rfl
  | ok k =>
    obtain ⟨aspect, rfl⟩ := aspectStateKey_eq_ok hk
    exact @uintAt _ _ (.aspectState contract aspect state key) h rfl

theorem tidy (ht : s.Tidy contract ir bundle) : s'.Tidy contract ir bundle := by
  intro aspect state key hc
  obtain ⟨v, hv⟩ := Table.contains_iff.1 hc
  refine ht aspect state key (Table.contains_iff.2 ⟨v, ?_⟩)
  rwa [← h (.aspectState contract aspect state key) rfl rfl]

end DeTTaState.SameOwn

/-! ## Reads -/

/-- The owner of a state is an aspect of the bundle. -/
theorem contains_of_aspectStateKey {aspect state : String} {key : List String}
    {closure : Std.ExtTreeSet String} (hc : aspectBundleAspectClosure ir bundle = .ok closure)
    (h : aspectStateKey contract bundle ir state key =
      .ok (.aspectState contract aspect state key)) : closure.contains aspect = true := by
  simp only [aspectStateKey, hc, bind, Except.bind] at h
  split at h
  next => cases h
  next schema hs =>
    have hmem : schema ∈ bundleSchemas ir closure :=
      (List.mem_filter.1 (hs ▸ List.mem_singleton_self schema)).1
    rw [Except.ok.injEq, StateKey.aspectState.injEq] at h
    exact h.2.1 ▸ (List.mem_filter.1 hmem).2
  next => cases h

theorem getD_aspectStateReads {reads : AspectStateReads} (ht : s.Tidy contract ir bundle)
    (h : aspectStateReads s contract bundle ir = .ok reads) (state : String) (key : List String) :
    reads[state :: key]?.getD (AspectValue.amount 0) =
      .amount (s.numbers contract ir bundle state key) := by
  obtain ⟨closure, hc, h⟩ := exists_of_bind_eq_ok h
  rw [Except.ok.injEq] at h
  unfold DeTTaState.numbers
  generalize hl : s.storage.toList.filterMap _ = l at h
  subst h
  cases hv : (Std.ExtTreeMap.ofList l)[state :: key]? with
  | some v =>
    obtain ⟨⟨k, w⟩, hmem, he⟩ := List.mem_filterMap.1 (hl ▸ Table.mem_of_getElem?_ofList hv)
    cases k with
    | aspectState stored aspect state' key' =>
      obtain ⟨⟨rfl, -⟩, he'⟩ := Option.ite_none_right_eq_some.1 he
      cases he'
      have hw := Std.ExtTreeMap.mem_toList_iff_getElem?_eq_some.1 hmem
      rw [ht aspect state key (Table.contains_iff.2 ⟨w, hw⟩)]
      simp [DeTTaState.uintAt, hw, aspectValueFromStateValue]
    | _ => cases he
  | none =>
    cases hk : aspectStateKey contract bundle ir state key with
    | error e => rfl
    | ok k =>
      obtain ⟨aspect, rfl⟩ := aspectStateKey_eq_ok hk
      cases hw : s.storage[StateKey.aspectState contract aspect state key]? with
      | none => simp [DeTTaState.uintAt, hw]
      | some w =>
        -- the entry would be among the reads
        have hmem : (state :: key, aspectValueFromStateValue w) ∈ l := by
          rw [← hl]
          refine List.mem_filterMap.2 ⟨_, Std.ExtTreeMap.mem_toList_iff_getElem?_eq_some.2 hw, ?_⟩
          simp [contains_of_aspectStateKey hc hk]
        have hin : (Std.ExtTreeMap.ofList l).contains (state :: key) = true := by
          rw [Std.ExtTreeMap.contains_ofList, List.contains_iff_mem]
          exact List.mem_map_of_mem hmem
        obtain ⟨v, hv'⟩ := Table.contains_iff.1 hin
        cases hv.symm.trans hv'

/-- What an evaluation for a frame reads, if the numbers of the contract are the given ones. -/
def Numbers.Gives (n : Numbers) (ir : AspectModuleIr) (f : Frame) (input : EvalInput) : Prop :=
  input.module = ir ∧ input.context = aspectContext f.start f.tx f.msgSender ∧
    ∃ σ : Snapshot, σ.own = n ∧ input.Shows σ

/-- What an evaluation reads are the numbers of its contract. -/
theorem Numbers.Gives.of_evalInput {budget : U64} {f : Frame} {input : EvalInput}
    (ht : s.Tidy f.tx.target ir bundle)
    (h : aspectEvalInput s ir bundle budget (aspectContext f.start f.tx f.msgSender) = .ok input) :
    (s.numbers f.tx.target ir bundle).Gives ir f input := by
  obtain ⟨reads, hreads, h⟩ := exists_of_bind_eq_ok h
  cases h
  refine ⟨rfl, rfl, ⟨_, fun c state key => ((aspectContractStateReads s)[c :: state :: key]?.getD
    (AspectValue.amount 0)).number⟩, rfl, getD_aspectStateReads ht hreads, fun c state key => ?_⟩
  change (aspectContractStateReads s)[_]?.getD _ = AspectValue.amount (AspectValue.number _)
  cases hv : (aspectContractStateReads s)[c :: state :: key]? with
  | none => rfl
  | some v =>
    obtain ⟨⟨k, w⟩, -, he⟩ := List.mem_filterMap.1 (Table.mem_of_getElem?_ofList hv)
    cases k <;> cases he
    rfl

/-! ## Writes -/

section Writes

variable {state : String} {key : List String} {k : StateKey}

theorem DeTTaState.numbers_put (hk : aspectStateKey contract bundle ir state key = .ok k)
    (value : Amount) :
    (s.put k value).numbers contract ir bundle = fun state' key' =>
      if state' = state ∧ key' = key then value else s.numbers contract ir bundle state' key' := by
  funext state' key'
  unfold numbers
  by_cases h : state' = state ∧ key' = key
  · rw [if_pos h, h.1, h.2, hk]
    exact uintAt_put_self _ _ _
  · rw [if_neg h]
    cases hk' : aspectStateKey contract bundle ir state' key' with
    | error e => rfl
    | ok k' =>
      obtain ⟨_, rfl⟩ := aspectStateKey_eq_ok hk
      obtain ⟨_, rfl⟩ := aspectStateKey_eq_ok hk'
      refine uintAt_put_of_ne _ _ fun he => h ?_
      cases he
      exact ⟨rfl, rfl⟩

theorem DeTTaState.Tidy.put (h : s.Tidy contract ir bundle)
    (hk : aspectStateKey contract bundle ir state key = .ok k) (value : Amount) :
    (s.put k value).Tidy contract ir bundle := by
  intro aspect state' key' hc
  rcases Table.contains_insert.1 hc with rfl | hc
  · obtain ⟨_, he⟩ := aspectStateKey_eq_ok hk
    cases he
    exact hk
  · exact h aspect state' key' hc

end Writes

section Replay

variable {call : ContractCall} {tx : Transaction} {host : AspectHostContext} {m : Machine}

/-- What operations do to the numbers of the contract that asks for them. -/
def Replays (tx : Transaction) (host : AspectHostContext) (m : Machine) (ops : List AspectHostOp)
    (m' : Machine) : Prop :=
  m'.Active tx.target ∧
    (m.state.Tidy tx.target host.ir host.bundleId →
      m'.state.Tidy tx.target host.ir host.bundleId) ∧
    m'.state.numbers tx.target host.ir host.bundleId =
      (m.state.numbers tx.target host.ir host.bundleId).after ops

theorem Replays.of_same {op : AspectHostOp} {m' : Machine} (hact : m'.Active tx.target)
    (h : m.state.SameOwn tx.target m'.state) (hop : ∀ n : Numbers, n.after [op] = n) :
    Replays tx host m [op] m' :=
  ⟨hact, h.tidy, by rw [hop, h.numbers]⟩

theorem wp_applyAspectHostOp (hcall : Shields call) (hact : m.Active tx.target)
    (op : AspectHostOp) :
    wp (applyAspectHostOp env call tx host op) (fun _ m' => Replays tx host m [op] m')
      (fun _ _ => True) m := by
  cases op with
  | stateGet => exact .of_same hact (.refl _ _) fun _ => rfl
  | contractStateGet =>
    exact wp_ensure.2 ⟨fun _ => .of_same hact (.refl _ _) fun _ => rfl, fun _ => trivial⟩
  | stateSet state key value =>
    refine wp_bind.2 (wp_ofExcept.2 ⟨fun k hk => ?_, fun _ _ => trivial⟩)
    refine .okOr ⟨fun number hn => wp_stateSet_of ⟨hact, fun ht => ht.put hk number, ?_⟩,
      fun _ => trivial⟩
    rw [Machine.state_withState, DeTTaState.numbers_put hk]
    simp [Numbers.after, hn]
  | emit => exact .of_same hact (.refl _ _) fun _ => rfl
  | registryGet | registrySet | registryConsume => trivial
  | callContract contract method args =>
    unfold applyAspectHostOp applyAspectCallContract
    iterate 7 refine .skip (fun _ => ?_) fun _ => trivial
    refine wp_bind.2 ((hcall _ _ m).imp fun _ m' h => ?_)
    exact .of_same (hact.mono h.1 h.2.1) (h.2.2 _ hact) fun _ => rfl
  | permitVerify =>
    unfold applyAspectHostOp usePermitCertificate
    iterate 4 refine .skip (fun _ => ?_) fun _ => trivial
    exact .of_same hact (.refl _ _) fun _ => rfl
  | bridgeVerify =>
    unfold applyAspectHostOp
    refine .skip (fun _ => ?_) fun _ => trivial
    exact Reads.wp _ (fun _ => .of_same hact (.refl _ _) fun _ => rfl) fun _ => trivial
  | crossShardOutboxAppend =>
    unfold applyAspectHostOp applyAspectCrossShardOutboxAppend
    iterate 3 refine .skip (fun _ => ?_) fun _ => trivial
    exact .of_same hact (.refl _ _) fun _ => rfl

theorem wp_replay (hcall : Shields call) (hact : m.Active tx.target) (ops : List AspectHostOp) :
    wp (forEach ops (applyAspectHostOp env call tx host)) (fun _ m' => Replays tx host m ops m')
      (fun _ _ => True) m := by
  induction ops generalizing m with
  | nil => exact ⟨hact, fun h => h, rfl⟩
  | cons op ops ih =>
    refine wp_bind.2 ((wp_applyAspectHostOp hcall hact op).imp fun _ m₁ h₁ => ?_)
    refine (ih h₁.1).imp fun _ m₂ h₂ => ⟨h₂.1, fun ht => h₂.2.1 (h₁.2.1 ht), ?_⟩
    rw [h₂.2.2, h₁.2.2]
    cases op <;> rfl

end Replay

/-! ## Calls -/

/-- A step of the machine: a projection is evaluated on the numbers, its writes are made, and then
    the invariants of its policy hold. -/
def Numbers.Step (ir : AspectModuleIr) (bundle : String) (f : Frame) (n n' : Numbers) : Prop :=
  ∃ projection policy input report input', f.tx.method = .other projection ∧
    ir.policies[qualified bundle projection]? = some policy ∧ n.Gives ir f input ∧
    executeProjection input bundle projection (f.tx.args.map aspectValueFromArgument) =
      .ok report ∧
    n' = n.after report.trace ∧ n'.Gives ir f input' ∧
    ∀ ref ∈ policy.invariants, aspectInvariantHolds input' policy bundle ref = .ok ()

/-- The frame is a step of the machine of its contract, and leaves its storage in order. -/
def Frame.Refines (f : Frame) (ir : AspectModuleIr) (bundle : String) (s' : DeTTaState) : Prop :=
  s'.Tidy f.tx.target ir bundle ∧ Numbers.Step ir bundle f (f.start.numbers f.tx.target ir bundle)
    (s'.numbers f.tx.target ir bundle)

theorem FrameRecord.Ran.refines {r : FrameRecord} (h : r.Ran env)
    (hlast : r.own.getLast? = some (s, s')) (hh : r.frame.start.Hosts r.frame.tx.target ir bundle)
    (ht : r.frame.start.Tidy r.frame.tx.target ir bundle) : r.frame.Refines ir bundle s' := by
  obtain ⟨record, moduleHash, _, _, _, module, hr, hkind, hm, hir⟩ := hh
  refine h.leads hlast fun call m record' hcall hs hact hr' _ => ?_
  cases hr.symm.trans hr'
  rw [hkind]
  unfold kindMethod executeAspectModuleMethod
  refine .okOr fun projection hp => .read (.okOr fun module' hm' => .okOr fun ir' hir' => ?_)
  rw [hs, hm] at hm'
  cases hm'
  cases hir.symm.trans hir'
  refine .okOr fun policy hpolicy => .read (wp_bind.2 (wp_ofExcept.2 ⟨fun report he => ?_,
    fun _ _ => trivial⟩))
  refine Leads.skip fun scope => .read ?_
  refine wp_bind.2 ((wp_replay hcall hact report.trace).imp fun _ m' ⟨_, htidy, hn⟩ => ?_)
  refine .read (wp_bind.2 (wp_ofExcept.2 ⟨fun _ hi => ?_, fun _ _ => trivial⟩))
  refine Reads.wp _ (fun _ => ?_) fun _ => trivial
  rw [hs] at he htidy hn hi
  obtain ⟨input, hinput, he⟩ := exists_of_bind_eq_ok he
  obtain ⟨input', hinput', hall⟩ := exists_of_bind_eq_ok hi
  split at he
  next => cases he
  next hx =>
    cases he
    refine ⟨htidy ht, projection, policy, input, report, input', ?_, hpolicy,
      .of_evalInput ht hinput, hx, hn, .of_evalInput (htidy ht) hinput', ?_⟩
    · split at hp
      next name hname => cases hp; exact hname
      next => cases hp
    · rw [forM_eq_checkAll, checkAll_eq_ok] at hall
      exact fun ref href => hall ref (Std.ExtTreeSet.mem_toList.2 href)

/-! ## Runs -/

/-- A deployment does not write the numbers of a contract that is there. -/
theorem DeployStep.sameOwn (h : DeployStep env s s') (hc : s.contracts.contains contract = true) :
    s.SameOwn contract s' := by
  intro key hkey _
  cases h with
  | contract hn hf =>
    refine DeTTaState.storage_puts_of_ne _ fun e he heq => ?_
    rw [← hf.ownerContract e he, heq, hkey, hc] at hn
    cases hn
  | _ => rfl

theorem DeTTaState.Hosts.mono (h : s.Hosts contract ir bundle) (hk : s.KeepsKinds s')
    (hm : ∀ {moduleHash : String} {module : AspectModuleRecord},
      s.aspectModules[moduleHash]? = some module → s'.aspectModules[moduleHash]? = some module) :
    s'.Hosts contract ir bundle := by
  obtain ⟨record, _, _, _, _, module, hr, hkind, hmod, hir⟩ := h
  obtain ⟨record', hr', hkind'⟩ := hk hr
  exact ⟨record', _, _, _, _, module, hr', hkind'.trans hkind, hm hmod, hir⟩

theorem DeployStep.hosts (h : DeployStep env s s') (hh : s.Hosts contract ir bundle) :
    s'.Hosts contract ir bundle := by
  refine hh.mono h.keepsKinds fun {moduleHash module} hm => ?_
  cases h with
  | contract => rw [DeTTaState.puts_eq]; exact hm
  | @module new _ hn =>
    refine (Table.getElem?_insert_of_ne fun he => ?_).trans hm
    exact Bool.false_ne_true (hn.symm.trans (Table.contains_iff.2 ⟨module, he ▸ hm⟩))
  | _ => exact hm

/-- A call is a call of the contract. -/
def FrameRecord.callOf (contract : ContractId) (r : FrameRecord) : Bool :=
  r.frame.tx.target == contract

theorem localInvariant_numbers {P : List FrameRecord → Numbers → Prop}
    (hP : ∀ {past r n n'}, P past n → Numbers.Step ir bundle (FrameRecord.frame r) n n' →
      P (past ++ [r]) n') :
    LocalInvariant env contract fun past s => (∀ r ∈ past, r.Ran env) →
      s.Hosts contract ir bundle ∧ s.Tidy contract ir bundle ∧
        P (past.filter (·.callOf contract)) (s.numbers contract ir bundle) where
  own ht _ h hs hran := by
    obtain ⟨hh, htidy, hp⟩ := h hran
    have hsame := hs.sameOwn ht hh.contains
    exact ⟨hh.mono hs.grows.keepsKinds hs.grows.aspectModules, hsame.tidy htidy,
      by rwa [hsame.numbers]⟩
  leave {r past s} ht h hran := by
    rw [List.filter_append, List.filter_singleton, FrameRecord.callOf, beq_false_of_ne ht]
    simpa using h fun r hr => hran r (List.mem_append_left _ hr)
  step {r past s s'} ht hr hg hlast h hran := by
    subst ht
    obtain ⟨hh, htidy, hp⟩ := h fun r' hr' => hran r' (List.mem_append_left _ hr')
    have hr' := hran r (List.mem_append_right _ (List.mem_singleton_self r))
    obtain ⟨htidy', hstep⟩ := hr'.refines hlast hh htidy
    refine ⟨hh.mono hg.keepsKinds hg.aspectModules, htidy', ?_⟩
    have hcall : [r].filter (·.callOf r.frame.tx.target) = [r] := by simp [FrameRecord.callOf]
    rw [List.filter_append, hcall]
    exact hP hp hstep
  nonce _ h := h
  timeless _ _ _ _ h := h
  deploy h hd hran := by
    obtain ⟨hh, htidy, hp⟩ := h hran
    have hsame := hd.sameOwn hh.contains
    exact ⟨hd.hosts hh, hsame.tidy htidy, by rwa [hsame.numbers]⟩

/-- What the steps of the machine keep is kept along every run of the chain. -/
theorem DeTTaState.Hosts.run (hh : s.Hosts contract ir bundle) (ht : s.Tidy contract ir bundle)
    {P : List FrameRecord → Numbers → Prop}
    (hP : ∀ {past r n n'}, P past n → Numbers.Step ir bundle (FrameRecord.frame r) n n' →
      P (past ++ [r]) n') (h : P [] (s.numbers contract ir bundle)) (ops : List Op) :
    (runOps env s ops).Tidy contract ir bundle ∧
      P ((runFrames env s ops).filter (·.callOf contract))
        ((runOps env s ops).numbers contract ir bundle) := by
  have hinv : LocalInvariant env contract _ := localInvariant_numbers @hP
  have hrun := @RunInvariant.run env _ [] s hinv.runInvariant (fun _ => ⟨hh, ht, h⟩) ops
  exact (hrun fun r hr => ran_of_mem_runFrames hr).2

/-- A run of the machine, over some calls. -/
def Numbers.Runs (ir : AspectModuleIr) (bundle : String) :
    List FrameRecord → Numbers → Numbers → Prop
  | [], n, n' => n' = n
  | r :: calls, n, n' => ∃ n₁, Numbers.Step ir bundle r.frame n n₁ ∧ Runs ir bundle calls n₁ n'

theorem Numbers.Runs.append {calls : List FrameRecord} {r : FrameRecord} {n n' n'' : Numbers}
    (h : Runs ir bundle calls n n') (hs : Step ir bundle r.frame n' n'') :
    Runs ir bundle (calls ++ [r]) n n'' := by
  induction calls generalizing n with
  | nil => exact ⟨n'', h ▸ hs, rfl⟩
  | cons c calls ih =>
    obtain ⟨n₁, h₁, h⟩ := h
    exact ⟨n₁, h₁, ih h⟩

namespace Toil

abbrev code : AspectModuleIr := declarations.lower "00"

theorem hosts : state.Hosts "w" code "W" := ⟨_, _, _, _, _, _, rfl, rfl, rfl, rfl⟩

theorem tidy : state.Tidy "w" code "W" := fun _ _ _ h => by
  have hs : state.storage = ∅ := rfl
  simp [hs] at h

end Toil

/-- The verifier finds no write of the state in the action behind a projection, and sees all that
    the projection evaluates. -/
def AspectModuleIr.Spares (ir : AspectModuleIr) (bundle projection state : String) : Prop :=
  ir.Transparent bundle projection ∧
    ∃ p action, ir.projections[qualified bundle projection]? = some p ∧
      projectionTargetAction p.expr = some action.action ∧ action ∈ ir.actions.values ∧
      state ∉ (ir.inferTop (qualified action.aspect action.action) {}).inferred.writes

end Detta
