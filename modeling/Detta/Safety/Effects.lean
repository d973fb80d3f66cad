import Detta.Safety.Isolation
import Detta.Safety.Outbox

/-!
# Declared effects

The policy of a method declares the effects that the method may have. What a call has changed can
be read off the states before and after it (`PolicyEffect.Made`).

* A transaction with a single call is that call, and all that it changes is changed by its steps
  (`only_call`).
* The steps of a native method make only the effects of its manifest, but for two methods
  (`OwnStep.declared`): a message that is queued moves native tokens, and a new aspect contract
  gets an administrator. Their manifests do not say so.
-/

namespace Detta

open Kernel Rogue

/-! ## Transactions with a single call -/

/-- Where a transaction is that has started in `s`, as long as at most one of its calls has
    returned. -/
structure Opened (env : Env) (outer : Transaction) (s : DeTTaState) (frames : List Frame)
    (m : Machine) : Prop where
  start : frames = [] → m.log.finished = [] → m.state = s
  outermost : m.log.finished = [] → ∀ f ∈ frames.getLast?, f = ⟨outer, outer.sender, s⟩
  since : m.log.finished = [] → ∀ a ∈ m.log.active.head?, a.own = [] ∧ a.since = a.frame.start
  single : frames = [] → ∀ r, m.log.finished = [r] → r.frame = ⟨outer, outer.sender, s⟩ ∧
    r.own = [(s, m.state)] ∧ r.Returned env

theorem callInvariant_opened (env : Env) (outer : Transaction) (s : DeTTaState) :
    CallInvariant env outer (fun _ => Opened env outer s) fun _ => True where
  enter {n frames m tx msgSender} hr hI hc _ := by
    refine ⟨nofun, fun hn f hf => ?_, fun _ a ha => ?_, nofun⟩
    · cases frames with
      | nil =>
        obtain ⟨rfl, rfl⟩ := hc
        rw [List.getLast?_singleton, Option.mem_some_iff] at hf
        rw [← hf, hI.start rfl hn]
      | cons g frames =>
        rw [List.getLast?_cons_cons] at hf
        exact hI.outermost hn f hf
    · obtain rfl : ⟨⟨tx, msgSender, m.state⟩, [], m.state⟩ = a := by
        simpa [Machine.enter, CallLog.enter] using ha
      exact ⟨rfl, rfl⟩
  own hr _ hI _ := ⟨nofun, hI.outermost, hI.since, nofun⟩
  attempt _ _ _ _ := trivial
  leave {n f frames m} hr hret hI := by
    obtain ⟨a, rest, ha, rfl, hrest⟩ := List.map_eq_cons_iff.1 hr.active
    have hfinished := finished_leave ha
    have hne : m.leave.log.finished ≠ [] := by simp [hfinished]
    refine ⟨fun _ hn => absurd hn hne, fun hn => absurd hn hne, fun hn => absurd hn hne,
      fun hnil r hr' => ?_⟩
    -- the call that returns is the first one, and the outermost one
    rw [hfinished, List.append_eq_singleton_iff] at hr'
    obtain ⟨hnone, hr'⟩ | ⟨-, hr'⟩ := hr'
    · rw [List.singleton_inj] at hr'
      have hframe := hI.outermost hnone a.frame (by simp [hnil])
      obtain ⟨hown, hsince⟩ := hI.since hnone a (by simp [ha])
      subst hr'
      refine ⟨hframe, ?_, m, a, rest, hret, ha, rfl, rfl⟩
      rw [hown, hsince, hframe]
      rfl
    · cases hr'
  fail _ _ := trivial
  abort _ := trivial
  exhaust _ _ _ := trivial

section Single

variable {env : Env} {s : DeTTaState} {tx : Transaction} {r : FrameRecord}

/-- The only call of a transaction makes the steps from the state before to the state after. -/
theorem only_call (hc : Commits env s tx) (h : callFrames env s tx = [r]) :
    r.frame = ⟨tx, tx.sender, s.useNonce tx⟩ ∧
      r.own = [(s.useNonce tx, (applyTransaction env s tx).1)] ∧ r.Returned env ∧
      r.frame.Steps (s.useNonce tx) (applyTransaction env s tx).1 := by
  have hinit : Opened env tx (s.useNonce tx) []
      ⟨s.useNonce tx, CallContext.new tx.sender, CallLog.empty⟩ :=
    ⟨fun _ _ => rfl, by simp, by simp [CallLog.empty], by simp [CallLog.empty]⟩
  obtain ⟨-, m, hr, hI, hm, hf⟩ :=
    (callInvariant_opened env tx (s.useNonce tx)).of_commits (fun _ => hinit) hc
  obtain ⟨hframe, hown, hret⟩ := hI.single rfl r (hf.symm.trans h)
  rw [← hm] at hown
  obtain ⟨m', hst, -, hf', -⟩ := stretched_of_commits (fun _ => ()) hc
  have hmem : (r.frame, s.useNonce tx, (applyTransaction env s tx).1) ∈ m'.log.stretches :=
    mem_stretches_of_own (by simp [← hf', h]) (by simp [hown])
  exact ⟨hframe, hown, hret, hst.past _ hmem⟩

end Single

/-! ## What has been done -/

/-- The effect can be seen in the states before and after. A new entry of a schedule counts as
    scheduling; code and policies are those of contracts that were there before. -/
def PolicyEffect.Made : PolicyEffect → DeTTaState → DeTTaState → Prop
  | .storageWrite, s, s' => s'.storage ≠ s.storage
  | .registryWrite, s, s' => s'.registry ≠ s.registry
  | .eventEmit, s, s' => s'.events ≠ s.events
  | .moduleRegister, s, s' => s'.aspectModules ≠ s.aspectModules
  | .contractPause, s, s' => s'.pausedContracts ≠ s.pausedContracts
  | .upgradeSchedule, s, s' => ∃ id, s.scheduledUpgrades.contains id = false ∧
      s'.scheduledUpgrades.contains id = true
  | .contractCodeUpgrade, s, s' => ∃ (contract : ContractId) (old new : ContractRecord),
      s.contracts[contract]? = some old ∧ s'.contracts[contract]? = some new ∧
      new.codeHash ≠ old.codeHash
  | .policyUpdateSchedule, s, s' => ∃ id, s.scheduledPolicyUpdates.contains id = false ∧
      s'.scheduledPolicyUpdates.contains id = true
  | .methodPolicyUpdate, s, s' => ∃ (contract : ContractId) (old new : ContractRecord),
      s.contracts[contract]? = some old ∧ s'.contracts[contract]? = some new ∧
      new.methodPolicies ≠ old.methodPolicies
  | .crossContractCall, _, _ => False
  | .crossShardOutboxAppend, s, s' => s'.crossShardOutbox ≠ s.crossShardOutbox
  | .contractDeploy, s, s' => ∃ contract, s.contracts.contains contract = false ∧
      s'.contracts.contains contract = true

section Made

variable {e : PolicyEffect} {s s₁ s₂ s' : DeTTaState} {f : Frame}

theorem PolicyEffect.not_made_refl (e : PolicyEffect) (s : DeTTaState) : ¬e.Made s s := by
  cases e with
  | upgradeSchedule | policyUpdateSchedule | contractDeploy =>
    rintro ⟨_, hold, hnew⟩
    rw [hold] at hnew
    cases hnew
  | contractCodeUpgrade | methodPolicyUpdate =>
    rintro ⟨_, old, new, hold, hnew, hne⟩
    cases hold.symm.trans hnew
    exact hne rfl
  | crossContractCall => exact id
  | _ => exact fun h => h rfl

/-- What is done on the way is done in one part of it. -/
theorem PolicyEffect.Made.split (h : e.Made s s') (hg : Grows s s₁) :
    e.Made s s₁ ∨ e.Made s₁ s' := by
  by_cases hn : e.Made s s₁
  · exact .inl hn
  · refine .inr ?_
    cases e with
    | storageWrite | registryWrite | eventEmit | moduleRegister | contractPause
    | crossShardOutboxAppend =>
      simp only [Made, ne_eq, not_not] at h hn ⊢
      rwa [hn]
    | upgradeSchedule | policyUpdateSchedule | contractDeploy =>
      obtain ⟨id, hold, hnew⟩ := h
      simp only [Made, not_exists, not_and, Bool.not_eq_true] at hn
      exact ⟨id, hn id hold, hnew⟩
    | contractCodeUpgrade | methodPolicyUpdate =>
      obtain ⟨contract, old, new, hold, hnew, hne⟩ := h
      obtain ⟨record, hr, -⟩ := hg.contracts hold
      simp only [Made, not_exists, not_and, ne_eq, not_not] at hn
      exact ⟨contract, record, new, hr, hnew, hn contract old record hold hr ▸ hne⟩
    | crossContractCall => exact h.elim

/-- Only the given effects can be seen, if all others see what was there before. -/
theorem PolicyEffect.Made.mem (h : e.Made s s') (effects : List PolicyEffect)
    (hs : e ∉ effects → e.Made s s' → e.Made s s) : e ∈ effects := by
  by_contra hn
  exact e.not_made_refl s (hs hn h)

/-- What a frame has done is done by one of its steps. -/
theorem Frame.Steps.exists_of_made (h : f.Steps s s') (he : e.Made s s') :
    ∃ s₁ s₂, f.Step s₁ s₂ ∧ e.Made s₁ s₂ := by
  induction h with
  | refl => exact absurd he (e.not_made_refl s)
  | @tail s₁ s₂ hsteps hstep ih =>
    have hg : Grows s s₁ := by
      clear ih he hstep
      induction hsteps with
      | refl => exact .refl _
      | tail _ hstep ih => exact ih.trans hstep.own.grows
    rcases he.split hg with he | he
    · exact ih he
    · exact ⟨s₁, s₂, hstep, he⟩

end Made

/-! ## What is declared -/

/-- The effects of the two methods that their manifests leave out. -/
def Method.Undeclared (method : Method) (e : PolicyEffect) : Prop :=
  method = .queueBridgeMessage ∧ e = .storageWrite ∨
    method = .deployAspectContract ∧ e = .registryWrite

section Declared

variable {e : PolicyEffect} {s s' : DeTTaState} {f : Frame}

variable {method : Method} {asset : AssetId} {token contract : ContractId} {record : ContractRecord}

theorem Method.eventEmit_mem_declares (hr : method ≠ .routeTransferFrom)
    (ho : ∀ projection, method ≠ .other projection) : .eventEmit ∈ method.declares := by
  cases method <;> simp_all [Method.declares]

theorem Method.storageWrite_mem_declares_of_writes {key : StateKey} (h : method.writes key = true)
    (ho : ∀ projection, method ≠ .other projection) : .storageWrite ∈ method.declares := by
  unfold Method.writes at h
  split at h <;> simp_all [Method.declares]

theorem ContractKind.storageWrite_mem_declares_of_moves {kind : ContractKind}
    (h : asset ∈ kind.moves method) : .storageWrite ∈ method.declares := by
  unfold ContractKind.moves at h
  split at h <;> simp_all [Method.declares]

/-- Native tokens are moved by methods that declare it, and by queued messages. -/
theorem Frame.SettlesOn.declared (h : f.SettlesOn token asset) :
    .storageWrite ∈ f.tx.method.declares ∨ f.tx.method = .queueBridgeMessage := by
  rcases h.moves with ⟨record, -, hm⟩ | ⟨hm | hm, -⟩
  · exact .inl (ContractKind.storageWrite_mem_declares_of_moves hm)
  · exact .inr hm
  · exact .inl (by simp [hm, Method.declares])

theorem Frame.Pays.declared {amount : Amount} {payer : Principal}
    (h : f.Pays s token asset amount payer) :
    .storageWrite ∈ f.tx.method.declares ∨ f.tx.method = .queueBridgeMessage := by
  cases h with
  | allowed hm => exact .inl (by simp [hm, Method.declares])
  | spends h =>
    cases h with
    | depositor hm => exact .inl (by simp [hm, Method.declares])
    | caller hm | self hm =>
      revert hm
      cases f.tx.method <;> simp [Method.charges, Method.paysOut, Method.declares]

/-- Numbers are of the storage. -/
theorem PolicyEffect.Made.storage {storage : Std.ExtTreeMap StateKey StateValue}
    (h : e.Made s { s with storage := storage }) : e = .storageWrite :=
  List.mem_singleton.1 (h.mem [.storageWrite] fun hn h => by
    cases e <;> first | exact h | simp at hn)

theorem PolicyEffect.Made.registry {key : GrantKey} {g : Grant} (h : e.Made s (s.grant key g)) :
    e = .registryWrite :=
  List.mem_singleton.1 (h.mem [.registryWrite] fun hn h => by
    cases e <;> first | exact h | simp at hn)

theorem PolicyEffect.Made.contracts (h : e.Made s (s.withContract contract record)) :
    e ∈ [.contractCodeUpgrade, .methodPolicyUpdate, .contractDeploy] :=
  h.mem _ fun hn h => by cases e <;> first | exact h | simp at hn

theorem Attempt.made (h : Attempt f s token asset s') (he : e.Made s s') : e = .storageWrite ∧
      (.storageWrite ∈ f.tx.method.declares ∨ f.tx.method = .queueBridgeMessage) := by
  cases h with
  | move _ hp hm =>
    obtain ⟨-, _, -, rfl⟩ := DeTTaState.move_eq_some.1 hm
    exact ⟨he.storage, hp.declared⟩
  | mint _ hm hd =>
    obtain ⟨_, -, _, -, rfl⟩ := DeTTaState.mint_eq_some.1 hm
    exact ⟨he.storage, hd.declared⟩

/-- The record of a contract is changed by the methods that say so. -/
theorem Frame.Governs.declared {old new : ContractRecord} (h : f.Governs old new)
    (ho : s.contracts[contract]? = some old) (he : e.Made s (s.withContract contract new)) :
    e ∈ f.tx.method.declares := by
  -- the only record that can differ is the one that was written
  have hrecord {c : ContractId} {old' new' : ContractRecord} (h₁ : s.contracts[c]? = some old')
      (h₂ : (s.withContract contract new).contracts[c]? = some new') (hne : new' ≠ old') :
      old' = old ∧ new' = new := by
    rcases Table.of_getElem?_insert h₂ with ⟨rfl, rfl⟩ | h₂
    · exact ⟨Option.some.inj (h₁.symm.trans ho), rfl⟩
    · cases h₁.symm.trans h₂
      exact absurd rfl hne
  have hmem := he.contracts
  fin_cases hmem
  · obtain ⟨c, old', new', h₁, h₂, hne⟩ := he
    obtain ⟨rfl, rfl⟩ := hrecord h₁ h₂ fun he => hne (by rw [he])
    cases h with
    | upgrade hm => simp [hm, Method.declares]
    | policy _ hc => exact absurd hc hne
  · obtain ⟨c, old', new', h₁, h₂, hne⟩ := he
    obtain ⟨rfl, rfl⟩ := hrecord h₁ h₂ fun he => hne (by rw [he])
    cases h with
    | upgrade _ hp => exact absurd hp hne
    | policy hm => simp [hm, Method.declares]
  · obtain ⟨c, h₁, h₂⟩ := he
    rw [DeTTaState.withContract, Handles.contains_insert_of_getElem? ho, h₁] at h₂
    cases h₂

/-- Contracts are deployed by the methods that say so, and get their first numbers. -/
theorem Frame.Deploys.declared {entries : List (StateKey × Amount)}
    (h : f.Deploys s contract record) (hn : s.contracts.contains contract = false)
    (hf : Founded s contract record.kind entries)
    (he : e.Made s ((s.withContract contract record).puts entries)) : e ∈ f.tx.method.declares := by
  have hnew : Grows s (s.withContract contract record) := .ofNew hn
  rcases he.split hnew with he | he
  · -- the records of other contracts stay
    have hmem := he.contracts
    fin_cases hmem
    · obtain ⟨c, old, new, hold, hnew, hne⟩ := he
      cases (getElem?_withContract_of_new hn hold).symm.trans hnew
      exact absurd rfl hne
    · obtain ⟨c, old, new, hold, hnew, hne⟩ := he
      cases (getElem?_withContract_of_new hn hold).symm.trans hnew
      exact absurd rfl hne
    · cases h with
      | token hm | ammPool hm | aspectModule hm => simp [hm, Method.declares]
  · cases h with
    | token hm | ammPool hm =>
      rw [DeTTaState.puts_eq] at he
      obtain rfl := he.storage
      simp [hm, Method.declares]
    | aspectModule _ _ _ _ _ hr =>
      rw [isAspectModule_of_aspectModuleContract hr] at hf
      cases hf
      exact absurd he (e.not_made_refl _)

/-- A step of a native method makes only the effects that the manifest declares, but for those of
    two methods. -/
theorem OwnStep.declared (h : OwnStep f s s') (hr : f.tx.method ≠ .routeTransferFrom)
    (ho : ∀ projection, f.tx.method ≠ .other projection) (he : e.Made s s') :
    e ∈ f.tx.method.declares ∨ f.tx.method.Undeclared e := by
  cases h with
  | event =>
    obtain rfl := List.mem_singleton.1 (he.mem [.eventEmit] fun hn h => by
      cases e <;> first | exact h | simp at hn)
    exact .inl (Method.eventEmit_mem_declares hr ho)
  | put _ _ hk =>
    obtain rfl := he.storage
    exact .inl (Method.storageWrite_mem_declares_of_writes hk.method ho)
  | tokens ha =>
    obtain ⟨rfl, hd | hq⟩ := ha.made he
    · exact .inl hd
    · exact .inr (.inl ⟨hq, rfl⟩)
  | approve _ _ _ hm | permit _ _ _ hm | consume hm =>
    obtain rfl := he.registry
    exact .inl (by simp [hm, Method.declares])
  | accountKey _ hm =>
    obtain rfl := he.registry
    exact .inl (by rcases hm with hm | hm <;> simp [hm, Method.declares])
  | admin hm =>
    obtain rfl := he.registry
    exact .inr (.inr ⟨hm, rfl⟩)
  | certificate => exact absurd (he.mem [] fun _ h => by cases e <;> exact h) List.not_mem_nil
  | outbox _ _ hm =>
    obtain rfl := List.mem_singleton.1 (he.mem [.crossShardOutboxAppend] fun hn h => by
      cases e <;> first | exact h | simp at hn)
    rcases hm with hm | ⟨projection, hm⟩
    · exact .inl (by simp [hm, Method.declares])
    · exact absurd hm (ho projection)
  | pause _ hm =>
    obtain rfl := List.mem_singleton.1 (he.mem [.contractPause] fun hn h => by
      cases e <;> first | exact h | simp at hn)
    exact .inl (by rcases hm with hm | hm <;> simp [hm, Method.declares])
  | schedule upgrades updates _ hu hp =>
    have hmem := he.mem [.upgradeSchedule, .policyUpdateSchedule] fun hn h => by
      cases e <;> first | exact h | simp at hn
    obtain rfl | rfl : e = .upgradeSchedule ∨ e = .policyUpdateSchedule := by simpa using hmem
    · by_cases hm : f.tx.method = .scheduleUpgrade
      · exact .inl (by simp [hm, Method.declares])
      · obtain ⟨id, hold, hnew⟩ := he
        cases hold.symm.trans ((hu hm id).symm.trans hnew)
    · by_cases hm : f.tx.method = .schedulePolicyUpdate
      · exact .inl (by simp [hm, Method.declares])
      · obtain ⟨id, hold, hnew⟩ := he
        cases hold.symm.trans ((hp hm id).symm.trans hnew)
  | govern hold _ _ hg => exact .inl (hg.declared hold he)
  | module _ hm =>
    obtain rfl := List.mem_singleton.1 (he.mem [.moduleRegister] fun hn h => by
      cases e <;> first | exact h | simp at hn)
    exact .inl (by simp [hm, Method.declares])
  | deploy hn hd hf => exact .inl (hd.declared hn hf he)

end Declared

/-! ## What the state of a chain declares -/

/-- The policies of native contracts have the effects of their manifests, and only contracts that
    are there have administrators. -/
structure DeTTaState.Manifested (s : DeTTaState) : Prop where
  declared : ∀ {contract : ContractId} {record : ContractRecord},
    s.contracts[contract]? = some record → record.Declared
  admins : ∀ {contract : ContractId} {admin : Principal},
    s.registry.contains (.governanceAdmin contract admin) = true →
      s.contracts.contains contract = true

section Manifested

variable {s s' : DeTTaState} {f : Frame}

theorem ContractRecord.Declared.within {old new : ContractRecord} (h : old.Declared)
    (hk : new.kind = old.kind) (hp : old.PoliciesWithin new) : new.Declared := by
  intro hnative method policy hpolicy e he
  obtain ⟨policy', hpolicy', hsub⟩ := hp method policy hpolicy
  exact hsub e (h (hk ▸ hnative) method policy' hpolicy' e he)

namespace DeTTaState.Manifested

theorem withContract (h : s.Manifested) {contract : ContractId} {record : ContractRecord}
    (hp : record.Declared) : (s.withContract contract record).Manifested where
  declared {c r} hr := by
    rcases Table.of_getElem?_insert hr with ⟨-, rfl⟩ | hr
    · exact hp
    · exact h.declared hr
  admins hg := Table.contains_insert.2 (.inr (h.admins hg))

theorem grant (h : s.Manifested) {key : GrantKey} (g : Grant)
    (hk : ∀ contract admin, key = .governanceAdmin contract admin →
      s.contracts.contains contract = true) : (s.grant key g).Manifested where
  declared := h.declared
  admins {contract admin} hg := by
    rcases Table.contains_insert.1 hg with hg | hg
    · exact hk contract admin hg
    · exact h.admins hg

theorem puts (h : s.Manifested) (entries : List (StateKey × Amount)) :
    (s.puts entries).Manifested := by
  rw [DeTTaState.puts_eq]
  exact ⟨h.declared, h.admins⟩

end DeTTaState.Manifested

theorem OwnStep.manifested (h : OwnStep f s s') (hs : s.Manifested) : s'.Manifested := by
  cases h with
  | tokens ha =>
    obtain ⟨_, rfl⟩ := ha.onlyStorage
    exact ⟨hs.declared, hs.admins⟩
  | approve | permit | consume | accountKey => exact hs.grant _ nofun
  | admin _ _ _ hc =>
    refine hs.grant _ fun contract admin he => ?_
    cases he
    exact hc
  | govern ho hk _ _ hp => exact hs.withContract ((hs.declared ho).within hk hp)
  | deploy _ _ _ _ hp => exact (hs.withContract hp.declared).puts _
  | _ => exact ⟨hs.declared, hs.admins⟩

theorem chainInvariant_manifested (env : Env) : ChainInvariant env DeTTaState.Manifested := by
  refine .of_steps (fun _ _ h => ⟨h.declared, h.admins⟩)
    (fun _ => ⟨by simp [DeTTaState.new], by simp [DeTTaState.new]⟩) (fun hs hd => ?_)
    (fun _ _ h => ⟨h.declared, h.admins⟩) fun _ _ hs hstep => hstep.manifested hs
  cases hd with
  | contract _ _ hp => exact (hs.withContract hp.declared).puts _
  | oracleUpdater | accountSigner => exact hs.grant _ fun _ _ he => by cases he
  | governanceAdmin _ hc =>
    refine hs.grant _ fun contract admin he => ?_
    cases he
    exact hc
  | _ => exact ⟨hs.declared, hs.admins⟩

end Manifested

/-! ## The two methods -/

section Undeclared

variable {env : Env} {f : Frame} {m : Machine} {call : ContractCall}

variable {s' : DeTTaState} {r : FrameRecord}

/-- A message that is queued without a call moves native tokens. -/
theorem Frame.Queues.storage_ne {message : CrossShardMessage}
    (h : f.Queues message [(f.start, s')]) : s'.storage ≠ f.start.storage := by
  intro he
  have hlocks := h.locks
  generalize hown : [(f.start, s')] = own at hlocks
  cases hlocks with
  | aspect => simp at hown
  | @native token s hl hm =>
    obtain rfl : s' = s.queue f.tx message := by simpa using hown
    have hbalance : s.uintAt (.balance token f.tx.target message.asset) =
        f.start.uintAt (.balance token f.tx.target message.asset) := by
      rw [DeTTaState.uintAt, DeTTaState.uintAt, show s.storage = f.start.storage from he]
    obtain ⟨-, received, hr, rfl⟩ := DeTTaState.move_eq_some.1 hm
    rw [DeTTaState.uintAt_put_self] at hbalance
    have hval := Word.checkedAdd_eq_some.1 hr
    rw [hbalance] at hval
    exact h.positive (Word.ext (by simp; omega))

/-- A new aspect contract gets an administrator. -/
theorem wp_deployAspectContractFromFactory (hcall : Resumes call) (hs : m.state = f.start)
    {rest : List Activation} (ha : m.log.active = ⟨f, [], f.start⟩ :: rest) :
    wp (deployAspectContractFromFactory call f.tx)
      (fun _ m' => ∃ a, m'.log.active = a :: rest ∧ (a.own = [] →
        ∃ contract, f.start.contracts.contains contract = false ∧
          m'.state.registry.contains (.governanceAdmin contract f.tx.sender) = true))
      (fun _ _ => True) m := by
  unfold deployAspectContractFromFactory reportDeployment runInitializer
  refine .ensure ⟨fun _ => ?_, fun _ => trivial⟩
  refine wp_bind.2 (wp_expectText (fun contract _ => ?_) fun _ => trivial)
  iterate 2 refine .skip (fun _ => ?_) fun _ => trivial
  refine wp_bind.2 (wp_deployAspectContract (fun module record hn _ _ => ?_) fun _ => trivial)
  refine .write (wp_bind.2 ?_)
  iterate 2 refine .skip (fun _ => ?_) fun _ => trivial
  refine wp_write.2 (wp_bind.2 (wp_onlyIf.2 ⟨fun _ => ?_, fun _ => ?_⟩))
  · refine .skip (fun _ => ?_) fun _ => trivial
    refine wp_bind.2 ((hcall _ _ _).imp fun _ m' h => ?_)
    obtain ⟨hactive, -⟩ := h
    refine wp_pure.2 (wp_pure.2 ?_)
    change m'.log.active = resumed _ _ m.log.active at hactive
    rw [ha] at hactive
    exact ⟨_, hactive, fun h => by simp at h⟩
  · refine wp_pure.2 ⟨_, ha, fun _ => ⟨contract, hs ▸ hn, ?_⟩⟩
    exact Std.ExtTreeMap.contains_insert_self

/-- A call without calls of its own. -/
theorem FrameRecord.Returned.alone (h : r.Returned env) {p : DeTTaState × DeTTaState}
    (hown : r.own = [p]) {P : Machine → Prop}
    (hP : ∀ (call : ContractCall) (m : Machine) (record : ContractRecord), Resumes call →
      m.state = r.frame.start → ∀ rest, m.log.active = ⟨r.frame, [], r.frame.start⟩ :: rest →
      record.kind.offers r.frame.tx.method = true →
      wp (kindMethod env call r.frame.tx r.frame.msgSender record.kind)
        (fun _ m' => ∃ a, m'.log.active = a :: rest ∧ (a.own = [] → P m')) (fun _ _ => True) m) :
    ∃ m, m.state = p.2 ∧ P m := by
  refine h.whole (P := fun own => own = [p] → ∃ m, m.state = p.2 ∧ P m)
    (fun call m record hcall hs rest ha _ ho => (hP call m record hcall hs rest ha ho).imp
      fun _ m' ⟨a, ha, h⟩ => ⟨a, ha, fun hown => ?_⟩) hown
  rw [List.append_eq_singleton_iff] at hown
  obtain ⟨hnil, hp⟩ | ⟨-, hp⟩ := hown
  · exact ⟨m', by rw [← List.singleton_inj.1 hp], h hnil⟩
  · cases hp

/-- A new aspect contract gets an administrator, also without a call. -/
theorem admin_of_returned (h : r.Returned env) (hown : r.own = [(r.frame.start, s')])
    (hm : r.frame.tx.method = .deployAspectContract) :
    ∃ contract, r.frame.start.contracts.contains contract = false ∧
      s'.registry.contains (.governanceAdmin contract r.frame.tx.sender) = true := by
  obtain ⟨m, rfl, hP⟩ := h.alone hown
    (P := fun m' => ∃ contract, r.frame.start.contracts.contains contract = false ∧
      m'.state.registry.contains (.governanceAdmin contract r.frame.tx.sender) = true)
    fun call m record hcall hs rest ha ho => by
      cases hk : record.kind with
      | factory =>
        rw [kindMethod, factoryMethod, hm]
        exact wp_deployAspectContractFromFactory hcall hs ha
      | _ => simp [hk, hm, ContractKind.offers] at ho
  exact hP

/-- A router does nothing without a call. -/
theorem not_route_of_returned (h : r.Returned env) (hown : r.own = [(r.frame.start, s')]) :
    r.frame.tx.method ≠ .routeTransferFrom := by
  intro hm
  obtain ⟨-, -, hfalse⟩ := h.alone hown (P := fun _ => False)
    fun call m record hcall hs rest ha ho => by
      cases hk : record.kind with
      | router token =>
        rw [kindMethod, routerMethod, hm]
        refine .skip (fun _ => ?_) fun _ => trivial
        refine (hcall _ _ m).imp fun _ m' h => ?_
        rw [ha] at h
        exact ⟨_, h.1, fun h => by simp at h⟩
      | _ => simp [hk, hm, ContractKind.offers] at ho
  exact hfalse

end Undeclared

/-! ## Native calls -/

section Calls

variable {env : Env} {s : DeTTaState} {tx : Transaction} {record : ContractRecord}
  {policy : MethodPolicy}

/-- Every effect of a native call that makes no other call is in the policy of its method, if and
    only if the policies of the two methods that the manifests forget have been amended: messages
    are queued with a policy that has writes of the storage, and aspect contracts are deployed with
    a policy that has writes of the registry. -/
theorem native_effects_declared_iff (hs : Reachable env s) (hc : Commits env s tx)
    (hone : (callFrames env s tx).length = 1) (hr : s.contracts[tx.target]? = some record)
    (hnative : record.kind.isAspectModule = false)
    (hp : record.methodPolicy tx.method = some policy) :
    (∀ e : PolicyEffect, e.Made s (applyTransaction env s tx).1 →
      policy.effects.contains e = true) ↔
    (tx.method = .queueBridgeMessage → policy.effects.contains .storageWrite = true) ∧
      (tx.method = .deployAspectContract → policy.effects.contains .registryWrite = true) := by
  obtain ⟨r, hframes⟩ := List.length_eq_one_iff.1 hone
  obtain ⟨hframe, hown, hret, hsteps⟩ := only_call hc hframes
  have hmanifested := (chainInvariant_manifested env).reachable hs
  have htx : r.frame.tx = tx := by rw [hframe]
  have hstart : r.frame.start = s.useNonce tx := by rw [hframe]
  rw [← hstart] at hown
  constructor
  · refine fun h => ⟨fun hm => h _ ?_, fun hm => h _ ?_⟩
    · obtain ⟨message, hq⟩ := queues_of_returned hret (htx ▸ hm)
      rw [hown] at hq
      have hne := hq.storage_ne
      rw [hstart] at hne
      exact hne
    · obtain ⟨contract, hn, hadmin⟩ := admin_of_returned hret hown (htx ▸ hm)
      intro he
      rw [he] at hadmin
      rw [hstart] at hn
      cases (hmanifested.admins hadmin).symm.trans hn
  · rintro ⟨hqueue, hdeploy⟩ e he
    have he' : e.Made (s.useNonce tx) (applyTransaction env s tx).1 := by cases e <;> exact he
    obtain ⟨s₁, s₂, hstep, he'⟩ := hsteps.exists_of_made he'
    have hroute := not_route_of_returned hret hown
    have hother : ∀ projection, r.frame.tx.method ≠ .other projection := by
      intro projection hm
      obtain ⟨record', hr', ho, -⟩ := hstep.live
      rw [hstart, htx] at hr'
      cases hr.symm.trans hr'
      rw [hm] at ho
      cases hk : record.kind <;> simp [hk, ContractKind.offers, ContractKind.isAspectModule]
        at ho hnative
    rcases hstep.own.declared hroute hother he' with hd | ⟨hm, rfl⟩ | ⟨hm, rfl⟩
    · exact hmanifested.declared hr hnative tx.method policy hp e (htx ▸ hd)
    · exact hqueue (htx ▸ hm)
    · exact hdeploy (htx ▸ hm)

end Calls

namespace Rogue

/-- Somebody sends tokens to another chain. -/
def queue : Transaction :=
  Proxy.call "alice" "b" .queueBridgeMessage [.text "d", .text "x", .text "m", .principal "alice",
    .asset "A", .amount 5]

def pay : Transaction :=
  Proxy.call "alice" "t" .transfer [.principal "bob", .asset "A", .amount 5]

theorem reachable_state : Reachable env state := (Reachable.new "c").runOps _

end Rogue

/-- The effect is not in the policy that a native contract has for a method. -/
def DeTTaState.leavesOut (s : DeTTaState) (contract : ContractId) (method : Method)
    (e : PolicyEffect) : Bool :=
  s.contracts[contract]?.any fun record => !record.kind.isAspectModule &&
    (record.methodPolicy method).any fun policy => !policy.effects.contains e

set_option maxRecDepth 4000 in
/-- A message is queued, and the tokens of its sender are moved; an aspect contract is deployed, and
    its administrator is entered in the registry. Neither is in the policy. -/
theorem undeclared_native_effects :
    Reachable env state ∧
    (Commits env state queue ∧
      (callFrames env state queue).length = 1 ∧
      PolicyEffect.Made .storageWrite state
        (applyTransaction env state queue).1 ∧
      state.leavesOut "b" .queueBridgeMessage .storageWrite = true) ∧
    Commits env state (deploy "R") ∧
      (callFrames env state (deploy "R")).length = 1 ∧
      PolicyEffect.Made .registryWrite state
        (applyTransaction env state (deploy "R")).1 ∧
      state.leavesOut "f" .deployAspectContract .registryWrite = true := by
  have hqueue : Commits env state queue ∧
      (callFrames env state queue).length = 1 ∧
      (applyTransaction env state queue).1.uintAt (.balance "t" "b" "A") ≠
        state.uintAt (.balance "t" "b" "A") ∧
      state.leavesOut "b" .queueBridgeMessage .storageWrite = true := by
    decide
  have hdeploy : Commits env state (deploy "R") ∧
      (callFrames env state (deploy "R")).length = 1 ∧
      (applyTransaction env state (deploy "R")).1.registry.contains
        (.governanceAdmin "R" "mallory") ≠
          state.registry.contains (.governanceAdmin "R" "mallory") ∧
      state.leavesOut "f" .deployAspectContract .registryWrite = true := by
    decide
  obtain ⟨hcommits, hone, hbalance, hout⟩ := hqueue
  obtain ⟨hcommits', hone', hadmin, hout'⟩ := hdeploy
  refine ⟨reachable_state, ⟨hcommits, hone, fun he => hbalance ?_, hout⟩, hcommits', hone',
    fun he => hadmin (by rw [he]), hout'⟩
  rw [DeTTaState.uintAt, he, ← DeTTaState.uintAt]

set_option maxRecDepth 4000 in
/-- All that a transfer does is declared. -/
theorem native_effects_declared_iff_pay : Commits env state pay ∧
    ∃ record policy, state.contracts[pay.target]? = some record ∧
      record.methodPolicy .transfer = some policy ∧
      ∀ e : PolicyEffect, e.Made state (applyTransaction env state pay).1 →
        policy.effects.contains e = true := by
  have hrun : Commits env state pay ∧
      (callFrames env state pay).length = 1 ∧
      (state.contracts[pay.target]?.any fun record =>
        !record.kind.isAspectModule && (record.methodPolicy .transfer).isSome) = true := by
    decide
  obtain ⟨hc, hone, hfound⟩ := hrun
  cases hr : state.contracts[pay.target]? with
  | none => rw [hr] at hfound; cases hfound
  | some record =>
    rw [hr, Option.any_some, Bool.and_eq_true, Bool.not_eq_true'] at hfound
    obtain ⟨policy, hp⟩ := Option.isSome_iff_exists.1 hfound.2
    exact ⟨hc, record, policy, rfl, hp, (native_effects_declared_iff reachable_state hc hone
      hr hfound.1 hp).2 ⟨nofun, nofun⟩⟩

end Detta
