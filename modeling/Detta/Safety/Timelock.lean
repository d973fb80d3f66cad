import Detta.Safety.History

/-!
# Timelocks

The administrators of a governance contract schedule changes of the contract that it governs, and
execute them when their time has come. There are two tables of such changes, which all governance
contracts share: upgrades of the code, and additions to the policy of a method.

* A call that schedules or executes a change does exactly this (`timelocked_of_returned`).
* Over a run, the records of contracts change only in the calls that execute a change
  (`historyInvariant_records`).
* Behind each change that waits there is a call that has scheduled it, and the changes that are
  marked count the calls that have executed one (`historyInvariant_scheduled`).
-/

namespace Detta

open Kernel

/-! ## Changes -/

/-- A change of a contract: another code hash, or one more effect of a method. -/
inductive Change where
  | codeHash (newCodeHash : String)
  | policy (method : Method) (effect : PolicyEffect)
deriving DecidableEq, Repr

def Change.apply : Change → ContractRecord → ContractRecord
  | .codeHash newCodeHash, record => { record with codeHash := newCodeHash }
  | .policy method effect, record =>
    match record.methodPolicies[method]? with
    | some old =>
      { record with
        methodPolicies := record.methodPolicies.insert method
          { old with effects := old.effects.insert effect } }
    | none => record

/-- The tables of scheduled changes. -/
inductive Timelock where
  | upgrade | policyUpdate
deriving DecidableEq, Repr

/-- An entry of one of the tables. -/
structure ScheduledChange where
  governance : ContractId
  target : ContractId
  change : Change
  due : U64
  executed : Bool
deriving DecidableEq, Repr

theorem ScheduledChange.eq_of_pending {entry : ScheduledChange} (h : entry.executed = false) :
    { entry with executed := false } = entry := by
  rw [← h]

def ScheduledUpgrade.scheduled (u : ScheduledUpgrade) : ScheduledChange :=
  ⟨u.governanceContract, u.targetContract, .codeHash u.newCodeHash, u.executeAfterHeight,
    u.executed⟩

def ScheduledPolicyUpdate.scheduled (u : ScheduledPolicyUpdate) : ScheduledChange :=
  ⟨u.governanceContract, u.targetContract, .policy u.method u.effect, u.executeAfterHeight,
    u.executed⟩

namespace DeTTaState

def scheduled (s : DeTTaState) : Timelock → String → Option ScheduledChange
  | .upgrade, id => s.scheduledUpgrades[id]?.map (·.scheduled)
  | .policyUpdate, id => s.scheduledPolicyUpdates[id]?.map (·.scheduled)

/-- The principal holds a live grant as an administrator of a governance contract. -/
def GovernanceAdmin (s : DeTTaState) (governance : ContractId) (admin : Principal) : Prop :=
  ∃ grant, s.registry[GrantKey.governanceAdmin governance admin]? = some grant ∧
    grant.active = true ∧ grant.revoked = false ∧ grant.subject = admin ∧
    grant.rights.contains .governanceAdmin = true

/-- The contract governs another one, with a delay. -/
def Governs (s : DeTTaState) (governance target : ContractId) (delay : U64) : Prop :=
  ∃ record, s.contracts[governance]? = some record ∧ record.kind = .governance target delay

theorem Governs.mono {s s' : DeTTaState} (hg : Grows s s') {governance target : ContractId}
    {delay : U64} (h : s.Governs governance target delay) :
    s'.Governs governance target delay := by
  obtain ⟨record, hr, hk⟩ := h
  obtain ⟨record', hr', hk', -⟩ := hg.contracts hr
  exact ⟨record', hr', hk'.trans hk⟩

/-- A contract governs one contract, with one delay. -/
theorem Governs.delay_eq {s : DeTTaState} {governance target target' : ContractId}
    {delay delay' : U64} (h : s.Governs governance target delay)
    (h' : s.Governs governance target' delay') : delay = delay' := by
  obtain ⟨record, hr, hk⟩ := h
  obtain ⟨record', hr', hk'⟩ := h'
  rw [hr, Option.some.injEq] at hr'
  subst hr'
  rw [hk, ContractKind.governance.injEq] at hk'
  exact hk'.2

end DeTTaState

/-! ## One call -/

namespace Frame

variable (f : Frame)

/-- The entry that the frame is asked to schedule: the table, the identifier and the change. -/
def schedules : Option (Timelock × String × Change) :=
  match f.tx.method, f.tx.args with
  | .scheduleUpgrade, [.text id, .text newCodeHash] => some (.upgrade, id, .codeHash newCodeHash)
  | .schedulePolicyUpdate, [.text id, .text method, .text effect] => do
    let method ← parsePolicyMethod method
    let effect ← parsePolicyEffect effect
    some (.policyUpdate, id, .policy method effect)
  | _, _ => none

/-- The entry that the frame is asked to execute: the table and the identifier. -/
def executes : Option (Timelock × String) :=
  match f.tx.method, f.tx.args with
  | .executeUpgrade, [.text id] => some (.upgrade, id)
  | .executePolicyUpdate, [.text id] => some (.policyUpdate, id)
  | _, _ => none

/-- The record of a contract after the change that the frame executes, if it is one of that
    contract. -/
def changed (contract : ContractId) (record : ContractRecord) : ContractRecord :=
  match f.executes.bind fun p => f.start.scheduled p.1 p.2 with
  | some entry => if entry.target = contract then entry.change.apply record else record
  | none => record

/-- The frame schedules a change of the governed contract, as an administrator, for the time after
    the delay. -/
structure Schedules (lock : Timelock) (id : String) (entry : ScheduledChange) (delay : U64) :
    Prop where
  asked : f.schedules = some (lock, id, entry.change)
  governance : entry.governance = f.tx.target
  governs : f.start.Governs f.tx.target entry.target delay
  admin : f.start.GovernanceAdmin f.tx.target f.msgSender
  unused : f.start.scheduled lock id = none
  due : entry.due.val = f.start.height.val + delay.val
  pending : entry.executed = false

/-- The frame executes a change of the governed contract that was waiting, as an administrator,
    when its time has come. -/
structure Executes (lock : Timelock) (id : String) (entry : ScheduledChange) (delay : U64) :
    Prop where
  asked : f.executes = some (lock, id)
  governance : entry.governance = f.tx.target
  governs : f.start.Governs f.tx.target entry.target delay
  admin : f.start.GovernanceAdmin f.tx.target f.msgSender
  found : f.start.scheduled lock id = some entry
  due : entry.due.val ≤ f.start.height.val
  pending : entry.executed = false

end Frame

/-- One entry of the tables is set. -/
def DeTTaState.Sets (s : DeTTaState) (lock : Timelock) (id : String) (entry : ScheduledChange)
    (s' : DeTTaState) : Prop :=
  ∀ lock' id', s'.scheduled lock' id' =
    if lock = lock' ∧ id = id' then some entry else s.scheduled lock' id'

/-- What a frame that schedules or executes a change does. -/
inductive Frame.Timelocked (f : Frame) (s : DeTTaState) : Prop where
  | schedule {lock : Timelock} {id : String} {entry : ScheduledChange} {delay : U64}
      (h : f.Schedules lock id entry delay) (hs : f.start.Sets lock id entry s)
      (hc : s.contracts = f.start.contracts)
  | execute {lock : Timelock} {id : String} {entry : ScheduledChange} {delay : U64}
      {record : ContractRecord} (h : f.Executes lock id entry delay)
      (hs : f.start.Sets lock id { entry with executed := true } s)
      (hr : f.start.contracts[entry.target]? = some record)
      (hc : s.contracts = f.start.contracts.insert entry.target (entry.change.apply record))

section Calls

variable {env : Env} {f : Frame} {m : Machine} {id : String} {P : DeTTaState → Prop}

theorem Leads.requireGovernanceAdmin {β : Type} {k : Unit → Kernel β} {admin : Principal}
    (hk : m.state.GovernanceAdmin contract admin → Leads P (k ()) m) :
    Leads P (Kernel.requireGovernanceAdmin contract admin >>= k) m := by
  unfold Kernel.requireGovernanceAdmin requireGrant
  refine .assoc <| .read <| .assoc <| .okOr fun grant hg => .assoc <| .ensure fun hlive => ?_
  exact .ensure fun hright => hk ⟨grant, hg, hlive.1, hlive.2.1, hlive.2.2, hright⟩

theorem scheduled_insert_upgrade {s s' : DeTTaState} (upgrade : ScheduledUpgrade)
    (hu : s'.scheduledUpgrades = s.scheduledUpgrades.insert id upgrade)
    (hp : s'.scheduledPolicyUpdates = s.scheduledPolicyUpdates) :
    s.Sets .upgrade id upgrade.scheduled s' := by
  intro lock' id'
  cases lock' with
  | upgrade =>
    simp only [DeTTaState.scheduled, hu, Table.getElem?_insert, true_and]
    split <;> rfl
  | policyUpdate => simp [DeTTaState.scheduled, hp]

theorem scheduled_insert_policyUpdate {s s' : DeTTaState} (update : ScheduledPolicyUpdate)
    (hu : s'.scheduledUpgrades = s.scheduledUpgrades)
    (hp : s'.scheduledPolicyUpdates = s.scheduledPolicyUpdates.insert id update) :
    s.Sets .policyUpdate id update.scheduled s' := by
  intro lock' id'
  cases lock' with
  | upgrade => simp [DeTTaState.scheduled, hu]
  | policyUpdate =>
    simp only [DeTTaState.scheduled, hp, Table.getElem?_insert, true_and]
    split <;> rfl

theorem Leads.timelockHeight {β : Type} {k : U64 → Kernel β}
    (hk : ∀ due : U64, due.val = m.state.height.val + delay.val → Leads P (k due) m) :
    Leads P (Detta.timelockHeight delay >>= k) m := by
  unfold Detta.timelockHeight
  exact .assoc <| .read <| .okOr fun due hd => hk due (Word.checkedAdd_eq_some.1 hd)

variable {contract : ContractId} {delay : U64}

theorem leads_scheduleUpgrade (hm : f.tx.method = .scheduleUpgrade) (hs : m.state = f.start)
    (hg : f.start.Governs f.tx.target contract delay) :
    Leads f.Timelocked (scheduleUpgrade f.tx f.msgSender contract delay) m := by
  unfold scheduleUpgrade expectArgs
  refine .ensure fun hn => .expectText fun id h₀ => .expectText fun newCodeHash h₁ => ?_
  refine .requireGovernanceAdmin fun hadmin => .read <| .ensure fun hunused => ?_
  refine .timelockHeight fun due hdue => .write <| .write <| .pure ?_
  rw [hs] at hadmin hunused hdue
  obtain ⟨a, b, hargs⟩ := List.length_eq_two.1 hn
  simp only [hargs, List.getElem?_cons_zero, List.getElem?_cons_succ, Option.some.injEq]
    at h₀ h₁
  subst h₀ h₁
  have h : f.Schedules .upgrade id ⟨f.tx.target, contract, .codeHash newCodeHash, due, false⟩
      delay := by
    refine ⟨?_, rfl, hg, hadmin, ?_, hdue, rfl⟩
    · rw [Frame.schedules, hm, hargs]
    · rw [DeTTaState.scheduled, getElem?_eq_none_of_contains hunused, Option.map_none]
  exact .schedule h (hs ▸ scheduled_insert_upgrade
    ⟨id, f.tx.target, contract, newCodeHash, due, false⟩ rfl rfl) (hs ▸ rfl)

theorem leads_schedulePolicyUpdate (hm : f.tx.method = .schedulePolicyUpdate)
    (hs : m.state = f.start) (hg : f.start.Governs f.tx.target contract delay) :
    Leads f.Timelocked (schedulePolicyUpdate f.tx f.msgSender contract delay) m := by
  unfold schedulePolicyUpdate expectArgs
  refine .ensure fun hn => .expectText fun id h₀ => .expectText fun name h₁ => ?_
  refine .okOr fun method hmethod => .expectText fun label h₂ => .okOr fun effect heffect => ?_
  refine .requireGovernanceAdmin fun hadmin => .read <| .ensure fun hunused => ?_
  iterate 3 refine .skip fun _ => ?_
  refine .timelockHeight fun due hdue => .write <| .write <| .pure ?_
  rw [hs] at hadmin hunused hdue
  obtain ⟨a, b, c, hargs⟩ := List.length_eq_three.1 hn
  simp only [hargs, List.getElem?_cons_zero, List.getElem?_cons_succ, Option.some.injEq]
    at h₀ h₁ h₂
  subst h₀ h₁ h₂
  have h : f.Schedules .policyUpdate id ⟨f.tx.target, contract, .policy method effect, due, false⟩
      delay := by
    refine ⟨?_, rfl, hg, hadmin, ?_, hdue, rfl⟩
    · simp only [Frame.schedules, hm, hargs, hmethod, heffect]
      rfl
    · rw [DeTTaState.scheduled, getElem?_eq_none_of_contains hunused, Option.map_none]
  exact .schedule h (hs ▸ scheduled_insert_policyUpdate
    ⟨id, f.tx.target, contract, method, effect, due, false⟩ rfl rfl) (hs ▸ rfl)

/-- The change that a frame is asked to execute, from its one argument. -/
theorem executes_of_arg {lock : Timelock} (hn : f.tx.args.length = 1)
    (h₀ : f.tx.args[0]? = some (.text id))
    (hm : f.tx.method = .executeUpgrade ∧ lock = .upgrade ∨
      f.tx.method = .executePolicyUpdate ∧ lock = .policyUpdate) :
    f.executes = some (lock, id) := by
  obtain ⟨a, hargs⟩ := List.length_eq_one_iff.1 hn
  simp only [hargs, List.getElem?_cons_zero, Option.some.injEq] at h₀
  subst h₀
  rcases hm with ⟨hm, rfl⟩ | ⟨hm, rfl⟩ <;> rw [Frame.executes, hm, hargs]

theorem leads_executeUpgrade (hm : f.tx.method = .executeUpgrade) (hs : m.state = f.start)
    (hg : f.start.Governs f.tx.target contract delay) :
    Leads f.Timelocked (executeUpgrade env f.tx f.msgSender contract) m := by
  unfold executeUpgrade expectArgs
  refine .ensure fun hn => .expectText fun id h₀ => .requireGovernanceAdmin fun hadmin => ?_
  refine .read <| .read <| .okOr fun upgrade hupgrade => .ensure fun hpending => ?_
  refine .ensure fun hcontracts => .read <| .ensure fun hdue => ?_
  refine .read <| .okOr fun record hr => .write <| .read <| .ensure fun _ => ?_
  refine .write <| .pure ?_
  rw [hs] at hadmin hupgrade hdue hr
  obtain ⟨hgovernance, rfl⟩ := hcontracts
  have h : f.Executes .upgrade id upgrade.scheduled delay := by
    refine ⟨executes_of_arg hn h₀ (.inl ⟨hm, rfl⟩), hgovernance, hg, hadmin, ?_, hdue, hpending⟩
    rw [DeTTaState.scheduled, hupgrade, Option.map_some]
  exact .execute h (hs ▸ scheduled_insert_upgrade { upgrade with executed := true } rfl rfl) hr
    (hs ▸ rfl)

theorem leads_executePolicyUpdate (hm : f.tx.method = .executePolicyUpdate)
    (hs : m.state = f.start) (hg : f.start.Governs f.tx.target contract delay) :
    Leads f.Timelocked (executePolicyUpdate env f.tx f.msgSender contract) m := by
  unfold executePolicyUpdate expectArgs
  refine .ensure fun hn => .expectText fun id h₀ => .requireGovernanceAdmin fun hadmin => ?_
  refine .read <| .read <| .read <| .okOr fun update hupdate => .ensure fun hpending => ?_
  refine .ensure fun hcontracts => .read <| .ensure fun hdue => ?_
  refine .read <| .okOr fun record hr => .okOr fun policy hpolicy => ?_
  refine .write <| .read <| .ensure fun _ => .read <| .write <| .pure ?_
  rw [hs] at hadmin hupdate hdue hr
  obtain ⟨hgovernance, rfl⟩ := hcontracts
  have h : f.Executes .policyUpdate id update.scheduled delay := by
    refine ⟨executes_of_arg hn h₀ (.inr ⟨hm, rfl⟩), hgovernance, hg, hadmin, ?_, hdue, hpending⟩
    rw [DeTTaState.scheduled, hupdate, Option.map_some]
  have happly : update.scheduled.change.apply record = { record with
      methodPolicies := record.methodPolicies.insert update.method
        { policy with effects := policy.effects.insert update.effect } } := by
    rw [ContractRecord.methodPolicy] at hpolicy
    simp only [ScheduledPolicyUpdate.scheduled, Change.apply, hpolicy]
  exact .execute h (hs ▸ scheduled_insert_policyUpdate { update with executed := true } rfl rfl) hr
    (happly ▸ hs ▸ rfl)

/-- A frame that schedules or executes a change does nothing else. -/
theorem timelocked_of_returned {r : FrameRecord} (h : r.Returned env)
    (hm : r.frame.tx.method.timelocks = true) :
    ∃ s', r.own = [(r.frame.start, s')] ∧ r.frame.Timelocked s' := by
  refine h.quiet (fun s tx msgSender hspawn => ?_) fun call m record hs hr ho => ?_
  · cases hspawn with
    | settle _ _ _ hsettles =>
      revert hm hsettles
      cases r.frame.tx.method <;> simp [Method.timelocks, Method.settles]
    | _ => simp_all [Method.timelocks]
  cases hk : record.kind with
  | governance contract delay =>
    have hg : r.frame.start.Governs r.frame.tx.target contract delay := ⟨record, hr, hk⟩
    rw [kindMethod, governanceMethod]
    cases hmethod : r.frame.tx.method with
    | scheduleUpgrade => exact leads_scheduleUpgrade hmethod hs hg
    | executeUpgrade => exact leads_executeUpgrade hmethod hs hg
    | schedulePolicyUpdate => exact leads_schedulePolicyUpdate hmethod hs hg
    | executePolicyUpdate => exact leads_executePolicyUpdate hmethod hs hg
    | _ => simp [hmethod, Method.timelocks] at hm
  | _ =>
    revert ho hm
    rw [hk]
    cases r.frame.tx.method <;> simp [ContractKind.offers, Method.timelocks]

end Calls

/-! ## Records -/

/-- The frames that schedule or execute changes. -/
def Frame.isTimelocked (f : Frame) : Bool := f.tx.method.timelocks

section Records

variable {f : Frame} {s s' : DeTTaState} {record : ContractRecord}

theorem Frame.executes_eq_none (h : f.isTimelocked = false) : f.executes = none := by
  unfold Frame.isTimelocked Method.timelocks at h
  unfold Frame.executes
  split <;> simp_all

theorem Frame.schedules_executes {p : Timelock × String × Change} (h : f.schedules = some p) :
    f.executes = none := by
  unfold Frame.schedules at h
  unfold Frame.executes
  split at h <;> simp_all

/-- Only a frame that executes a change touches the record of a contract. -/
theorem OwnStep.record_eq (h : OwnStep f s s') (hf : f.isTimelocked = false) {contract : ContractId}
    (hr : s.contracts[contract]? = some record) : s'.contracts[contract]? = some record := by
  cases h with
  | tokens ha =>
    obtain ⟨_, rfl⟩ := ha.onlyStorage
    exact hr
  | govern _ _ _ hg =>
    cases hg with
    | upgrade hm | policy hm => simp [Frame.isTimelocked, hm, Method.timelocks] at hf
  | deploy hn =>
    rw [DeTTaState.contracts_puts]
    exact getElem?_withContract_of_new hn hr
  | _ => exact hr

/-- What a frame does to the record of a contract. -/
theorem Frame.Timelocked.record_eq (h : f.Timelocked s) {contract : ContractId}
    (hr : f.start.contracts[contract]? = some record) :
    s.contracts[contract]? = some (f.changed contract record) := by
  cases h with
  | schedule h _ hc =>
    rw [hc, hr, Frame.changed, Frame.schedules_executes h.asked, Option.bind_none]
  | @execute lock id entry delay old h _ ho hc =>
    simp only [hc, Frame.changed, h.asked, Option.bind_some, h.found,
      Table.getElem?_insert]
    split
    next he =>
      rw [he, hr, Option.some.injEq] at ho
      rw [ho]
    next => exact hr

/-- The record of a contract is what the changes that were executed have made of it. -/
theorem historyInvariant_records (env : Env) (s : DeTTaState) :
    HistoryInvariant env Frame.isTimelocked fun past s' => ∀ contract record,
      s.contracts[contract]? = some record → s'.contracts[contract]? =
        some (past.foldl (fun record r => r.frame.changed contract record) record) where
  own hf _ _ hJ hs contract record hr := hs.record_eq hf (hJ contract record hr)
  leave {r past s'} hf _ _ hJ contract record hr := by
    rw [List.foldl_append, List.foldl_cons, List.foldl_nil, Frame.changed,
      Frame.executes_eq_none hf, Option.bind_none]
    exact hJ contract record hr
  idle hf hret := by
    obtain ⟨s', hown, -⟩ := timelocked_of_returned hret hf
    simp [hown]
  step {r past s₁ s₂} hf hret _ hl hJ contract record hr := by
    obtain ⟨s', hown, ht⟩ := timelocked_of_returned hret hf
    obtain ⟨rfl, rfl⟩ : r.frame.start = s₁ ∧ s' = s₂ := by simpa [hown] using hl
    rw [List.foldl_append, List.foldl_cons, List.foldl_nil]
    exact ht.record_eq (hJ contract record hr)
  nonce _ hJ := hJ
  timeless _ _ _ _ hJ := hJ
  deploy hJ hd contract record hr := by
    cases hd with
    | contract hn =>
      rw [DeTTaState.contracts_puts]
      exact getElem?_withContract_of_new hn (hJ contract record hr)
    | _ => exact hJ contract record hr

end Records

/-! ## Entries -/

/-- The calls that execute an entry. -/
def FrameRecord.executes (r : FrameRecord) (lock : Timelock) (id : String) : Bool :=
  r.frame.executes = some (lock, id)

/-- An entry has been scheduled by one of the calls. -/
def ScheduledBy (past : List FrameRecord) (s : DeTTaState) (lock : Timelock) (id : String)
    (entry : ScheduledChange) : Prop :=
  ∃ q ∈ past, ∃ delay, q.frame.Schedules lock id { entry with executed := false } delay ∧
    s.Governs entry.governance entry.target delay

/-- An entry that is executed by the call `j` has been scheduled before, at least the delay ago. -/
def ExecutedInTime (calls : List FrameRecord) (j : ℕ) (r : FrameRecord) (lock : Timelock)
    (id : String) : Prop :=
  ∃ entry delay, r.frame.Executes lock id entry delay ∧ ∃ i < j, ∃ q, calls[i]? = some q ∧
    q.frame.Schedules lock id entry delay ∧
    q.frame.start.height.val + delay.val ≤ r.frame.start.height.val

/-- What holds of the calls of a run and the tables. -/
structure TimelocksHold (past : List FrameRecord) (s : DeTTaState) : Prop where
  scheduled : ∀ lock id entry, s.scheduled lock id = some entry → ScheduledBy past s lock id entry
  marked : ∀ lock id, past.countP (·.executes lock id) =
    if (s.scheduled lock id).any (·.executed) then 1 else 0
  inTime : ∀ j r lock id, past[j]? = some r → r.frame.executes = some (lock, id) →
    ExecutedInTime past j r lock id

section Entries

variable {f : Frame} {r : FrameRecord} {past : List FrameRecord} {s s' : DeTTaState}

variable {lock : Timelock} {id : String} {entry : ScheduledChange}

/-- The tables are left alone, and no contract changes what it governs. -/
theorem TimelocksHold.of_eq (h : TimelocksHold past s)
    (hs : ∀ lock id, s'.scheduled lock id = s.scheduled lock id)
    (hg : ∀ governance target delay, s.Governs governance target delay →
      s'.Governs governance target delay) : TimelocksHold past s' := by
  refine ⟨fun lock id entry he => ?_, fun lock id => ?_, h.inTime⟩
  · obtain ⟨q, hq, delay, hsch, hgov⟩ := h.scheduled lock id entry (hs lock id ▸ he)
    exact ⟨q, hq, delay, hsch, hg _ _ _ hgov⟩
  · rw [hs]
    exact h.marked lock id

/-- What has been in time stays so. -/
theorem ExecutedInTime.append {j : ℕ} (h : ExecutedInTime past j r lock id) (q : FrameRecord) :
    ExecutedInTime (past ++ [q]) j r lock id := by
  obtain ⟨entry, delay, he, i, hi, q', hq', hrest⟩ := h
  refine ⟨entry, delay, he, i, hi, q', ?_, hrest⟩
  exact (List.getElem?_append_left (List.getElem?_eq_some_iff.1 hq').1).trans hq'

/-- One more call, that is in time if it executes an entry. -/
theorem TimelocksHold.inTime_append (h : TimelocksHold past s)
    (hr : ∀ lock id, r.frame.executes = some (lock, id) →
      ExecutedInTime (past ++ [r]) past.length r lock id) :
    ∀ j r' lock id, (past ++ [r])[j]? = some r' → r'.frame.executes = some (lock, id) →
      ExecutedInTime (past ++ [r]) j r' lock id := by
  intro j r' lock id hj he
  by_cases hlt : j < past.length
  · rw [List.getElem?_append_left hlt] at hj
    exact (h.inTime j r' lock id hj he).append r
  · have hle := (List.getElem?_eq_some_iff.1 hj).1
    rw [List.length_append, List.length_singleton] at hle
    obtain rfl : j = past.length := by omega
    rw [List.getElem?_concat_length, Option.some.injEq] at hj
    subst hj
    exact hr lock id he

theorem countP_executes_append (hr : r.frame.executes = none) (lock : Timelock) (id : String) :
    (past ++ [r]).countP (·.executes lock id) = past.countP (·.executes lock id) := by
  rw [List.countP_append, List.countP_singleton, FrameRecord.executes, hr]
  rfl

theorem ScheduledBy.append (h : ScheduledBy past s lock id entry) (hg : Grows s s') :
    ScheduledBy (past ++ [r]) s' lock id entry := by
  obtain ⟨q, hq, delay, hsch, hgov⟩ := h
  exact ⟨q, List.mem_append_left _ hq, delay, hsch, hgov.mono hg⟩

/-- A call that has nothing to do with the tables. -/
theorem TimelocksHold.append (h : TimelocksHold past s) (hr : r.frame.executes = none) :
    TimelocksHold (past ++ [r]) s := by
  refine ⟨fun lock id entry he => (h.scheduled lock id entry he).append (.refl s),
    fun lock id => (countP_executes_append hr lock id).trans (h.marked lock id),
    h.inTime_append fun lock id he => ?_⟩
  rw [hr] at he
  cases he

/-- A new entry waits. -/
theorem TimelocksHold.schedule (h : TimelocksHold past r.frame.start) {delay : U64}
    (hr : r.frame.Schedules lock id entry delay) (hs : r.frame.start.Sets lock id entry s')
    (hg : Grows r.frame.start s') : TimelocksHold (past ++ [r]) s' := by
  have hnone := Frame.schedules_executes hr.asked
  refine ⟨fun lock' id' entry' he => ?_, fun lock' id' => ?_, (h.append hnone).inTime⟩
  · rw [hs lock' id'] at he
    split at he
    next hkey =>
      obtain ⟨rfl, rfl⟩ := hkey
      cases he
      refine ⟨r, by simp, delay, ?_, ?_⟩
      · rw [ScheduledChange.eq_of_pending hr.pending]
        exact hr
      · rw [hr.governance]
        exact hr.governs.mono hg
    next => exact (h.scheduled lock' id' entry' he).append hg
  · rw [countP_executes_append hnone, h.marked, hs lock' id']
    by_cases hkey : lock = lock' ∧ id = id'
    · obtain ⟨rfl, rfl⟩ := hkey
      simp [hr.unused, hr.pending]
    · rw [if_neg hkey]

/-- An entry that was waiting is marked. -/
theorem TimelocksHold.execute (h : TimelocksHold past r.frame.start) {delay : U64}
    (hr : r.frame.Executes lock id entry delay)
    (hs : r.frame.start.Sets lock id { entry with executed := true } s')
    (hg : Grows r.frame.start s') : TimelocksHold (past ++ [r]) s' := by
  have hentry := h.scheduled lock id entry hr.found
  refine ⟨fun lock' id' entry' he => ?_, fun lock' id' => ?_,
    h.inTime_append fun lock' id' he => ?_⟩
  · rw [hs lock' id'] at he
    split at he
    next hkey =>
      obtain ⟨rfl, rfl⟩ := hkey
      cases he
      exact hentry.append hg
    next => exact (h.scheduled lock' id' entry' he).append hg
  · rw [List.countP_append, List.countP_singleton, FrameRecord.executes, hr.asked, h.marked,
      hs lock' id']
    by_cases hkey : lock = lock' ∧ id = id'
    · obtain ⟨rfl, rfl⟩ := hkey
      simp [hr.found, hr.pending]
    · rw [if_neg hkey]
      simpa using fun he he' => absurd ⟨he, he'⟩ hkey
  · rw [hr.asked, Option.some.injEq, Prod.mk.injEq] at he
    obtain ⟨rfl, rfl⟩ := he
    -- the entry was scheduled by a call `q`, and the delay has not changed since
    obtain ⟨q, hq, delay', hsch, hgov⟩ := hentry
    rw [hr.governance] at hgov
    obtain rfl := hr.governs.delay_eq hgov
    rw [ScheduledChange.eq_of_pending hr.pending] at hsch
    obtain ⟨i, hi⟩ := List.getElem?_of_mem hq
    have hlt := (List.getElem?_eq_some_iff.1 hi).1
    refine ⟨entry, delay, hr, i, hlt, q, (List.getElem?_append_left hlt).trans hi, hsch, ?_⟩
    exact hsch.due ▸ hr.due

/-- Only a frame that schedules or executes a change touches the tables. -/
theorem OwnStep.scheduled_eq (h : OwnStep f s s') (hf : f.isTimelocked = false) (lock : Timelock)
    (id : String) : s'.scheduled lock id = s.scheduled lock id := by
  have of_eq {s' : DeTTaState} (hu : s'.scheduledUpgrades = s.scheduledUpgrades)
      (hp : s'.scheduledPolicyUpdates = s.scheduledPolicyUpdates) :
      s'.scheduled lock id = s.scheduled lock id := by
    cases lock <;> simp only [DeTTaState.scheduled, hu, hp]
  cases h with
  | tokens ha =>
    obtain ⟨_, rfl⟩ := ha.onlyStorage
    exact of_eq rfl rfl
  | schedule _ _ hm => rw [Frame.isTimelocked, hm] at hf; cases hf
  | deploy => rw [DeTTaState.puts_eq]; exact of_eq rfl rfl
  | _ => exact of_eq rfl rfl

/-- The tables and the calls of a run belong together. -/
theorem historyInvariant_scheduled (env : Env) :
    HistoryInvariant env Frame.isTimelocked TimelocksHold where
  own hf _ _ hJ hs := hJ.of_eq (hs.scheduled_eq hf) fun _ _ _ hg => hg.mono hs.grows
  leave hf _ _ hJ := hJ.append (Frame.executes_eq_none hf)
  idle hf hret := by
    obtain ⟨s', hown, -⟩ := timelocked_of_returned hret hf
    simp [hown]
  step {r past s₁ s₂} hf hret hg hl hJ := by
    obtain ⟨s', hown, ht⟩ := timelocked_of_returned hret hf
    obtain ⟨rfl, rfl⟩ : r.frame.start = s₁ ∧ s' = s₂ := by simpa [hown] using hl
    cases ht with
    | schedule h hs => exact hJ.schedule h hs hg
    | execute h hs => exact hJ.execute h hs hg
  nonce _ hJ := hJ.of_eq (fun lock _ => by cases lock <;> rfl) fun _ _ _ hg => hg
  timeless _ _ _ _ hJ := hJ.of_eq (fun lock _ => by cases lock <;> rfl) fun _ _ _ hg => hg
  deploy hJ hd := by
    cases hd with
    | contract hn =>
      refine hJ.of_eq (fun lock _ => by rw [DeTTaState.puts_eq]; cases lock <;> rfl) ?_
      rintro governance target delay ⟨record, hr, hk⟩
      refine ⟨record, ?_, hk⟩
      rw [DeTTaState.contracts_puts]
      exact getElem?_withContract_of_new hn hr
    | _ => exact hJ.of_eq (fun lock _ => by cases lock <;> rfl) fun _ _ _ hg => hg

end Entries

/-! ## Runs -/

/-- Along every run, the record of a contract changes only in the calls that execute a change of
    that contract, by exactly that change. Every such call is one of an administrator, on a
    contract that governs the other one, and executes an entry that was waiting, which an earlier
    call has scheduled on the same governance contract, as an administrator, at least the delay of
    the timelock below. No entry is executed twice. -/
theorem governance_timelocked (env : Env) (chainId : ChainId) (ops : List Op) :
    (∀ ops' contract record,
      (runOps env (.new chainId) ops).contracts[contract]? = some record →
      (runOps env (runOps env (.new chainId) ops) ops').contracts[contract]? =
        some ((runFrames env (runOps env (.new chainId) ops) ops').foldl
          (fun record r => r.frame.changed contract record) record)) ∧
    (∀ j r lock id, (runFrames env (.new chainId) ops)[j]? = some r →
      r.frame.executes = some (lock, id) →
      ExecutedInTime (runFrames env (.new chainId) ops) j r lock id) ∧
    ∀ lock id, (runFrames env (.new chainId) ops).countP (·.executes lock id) ≤ 1 := by
  have hnew : TimelocksHold [] (.new chainId) := by
    have hnone : ∀ lock id, (DeTTaState.new chainId).scheduled lock id = none := by
      intro lock id
      cases lock <;> simp [DeTTaState.scheduled, DeTTaState.new]
    exact ⟨fun lock id entry he => by simp [hnone] at he, fun lock id => by simp [hnone],
      fun j r lock id hr => by simp at hr⟩
  have hrun := (historyInvariant_scheduled env).runFrames hnew ops
  refine ⟨fun ops' contract record hr => ?_, hrun.inTime, fun lock id => ?_⟩
  · exact (historyInvariant_records env _).runFrames (fun _ _ hr => hr) ops' contract record hr
  · rw [hrun.marked]
    split <;> omega

end Detta
