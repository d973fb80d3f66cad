import Detta.Safety.Local
import Detta.Safety.Reentrancy

/-!
# What calls leave alone

A contract that is active is not entered again, and nobody else writes its numbers, apart from
those on the ledger of a token. So the calls that a method makes return with the numbers of its
own contract as they were (`shields_executeCall`), and in the same context.

A frame of a run has made its calls in this way (`FrameRecord.Ran`). What its method leads to is
found by going through its code, with nothing to fear from the calls (`FrameRecord.Ran.leads`).
-/

namespace Detta

open Kernel

/-- The number is on the ledger of a token. -/
def StateKey.isLedger : StateKey → Bool
  | balance .. | totalSupply .. => true
  | _ => false

/-- The numbers of a contract are the same, but for those on a ledger. -/
def DeTTaState.SameOwn (contract : ContractId) (s s' : DeTTaState) : Prop :=
  ∀ key : StateKey, key.ownerContract = contract → key.isLedger = false →
    s'.storage[key]? = s.storage[key]?

namespace DeTTaState.SameOwn

variable {contract : ContractId} {s s' s'' : DeTTaState}

theorem refl (contract : ContractId) (s : DeTTaState) : SameOwn contract s s := fun _ _ _ => rfl

theorem trans (h : SameOwn contract s s') (h' : SameOwn contract s' s'') :
    SameOwn contract s s'' := fun key hc hl => (h' key hc hl).trans (h key hc hl)

theorem uintAt {key : StateKey} (h : SameOwn key.ownerContract s s')
    (hl : key.isLedger = false) : s'.uintAt key = s.uintAt key := by
  rw [DeTTaState.uintAt, h key rfl hl]
  rfl

end DeTTaState.SameOwn

variable {s : DeTTaState} {env : Env} {r : FrameRecord}

/-- Other contracts do not write the numbers of a contract. -/
theorem OwnStep.sameOwn {f : Frame} {s' : DeTTaState} (h : OwnStep f s s') {contract : ContractId}
    (ht : f.tx.target ≠ contract) (hc : s.contracts.contains contract = true) :
    s.SameOwn contract s' := by
  intro key hkey hl
  refine h.storage_eq fun hreaches => ?_
  cases hreaches with
  | own ho => exact ht (ho.symm.trans hkey)
  | balance | supply => cases hl
  | new hn => exact Bool.false_ne_true (hn.symm.trans (hkey ▸ hc))

/-! ## Calls -/

/-- The contract has been entered and not been left. -/
def Machine.Active (m : Machine) (contract : ContractId) : Prop :=
  m.context.activeNonreentrantContracts.contains contract = true ∧
    m.state.contracts.contains contract = true

theorem Machine.Active.mono {m m' : Machine} {contract : ContractId} (h : m.Active contract)
    (hc : m'.context = m.context) (hg : Grows m.state m'.state) : m'.Active contract :=
  ⟨hc ▸ h.1, hg.contains h.2⟩

/-- Calls return in the context in which they were made, and do not change the numbers of an
    active contract. -/
def Shields (call : ContractCall) : Prop :=
  ∀ (tx : Transaction) (msgSender : Principal) (m : Machine),
    wp (call tx msgSender)
      (fun _ m' => m'.context = m.context ∧ Grows m.state m'.state ∧
        ∀ contract, m.Active contract → m.state.SameOwn contract m'.state)
      (fun _ _ => True) m

theorem shields_executeCall (env : Env) (n : ℕ) : Shields (executeCall env n) := by
  refine wp_executeCall_of_frame (I := fun m f m' =>
    m.context.activeNonreentrantContracts.contains f.tx.target = false ∧
      m'.context = (m.enter f.tx f.msgSender).context ∧ Grows m.state m'.state ∧
      ∀ contract, m.Active contract → m.state.SameOwn contract m'.state)
    (fun _ hn => ⟨hn, rfl, .refl _, fun _ _ => .refl _ _⟩) ?_ ?_ ?_ n
  · rintro m f m' s' ⟨hn, hc, hg, hsame⟩ hs
    refine ⟨hn, hc, hg.trans hs.grows, fun contract hact => ?_⟩
    refine (hsame contract hact).trans (hs.sameOwn ?_ (hg.contains hact.2))
    -- the contract of the new frame was not active
    rintro rfl
    exact Bool.false_ne_true (hn.symm.trans hact.1)
  · rintro m f m₁ m₂ ⟨hn, hc, hg, hsame⟩ ⟨hc', hg', hsame'⟩
    refine ⟨⟨hn, hc'.trans hc, hg.trans hg', fun contract hact => ?_⟩, hg'⟩
    refine (hsame contract hact).trans (hsame' contract ⟨?_, hg.contains hact.2⟩)
    rw [hc]
    simp [Machine.enter, hact.1]
  · rintro _ m tx msgSender m' _ ⟨hn, hc, hrest⟩ -
    exact ⟨(congrArg CallContext.exit hc).trans (exit_context_enter hn msgSender), hrest⟩

/-! ## Frames -/

/-- How a frame has been run: with calls that go through the kernel, from the state in which it
    was entered to the state in which it was left. -/
def FrameRecord.Ran (env : Env) (r : FrameRecord) : Prop :=
  ∃ (n : ℕ) (m m' : Machine) (value : ReturnValue), m.state = r.frame.start ∧
    m.context.activeNonreentrantContracts.contains r.frame.tx.target = true ∧
    callBody env (executeCall env n) r.frame.tx r.frame.msgSender m = .ok value m' ∧
    ∃ s, r.own.getLast? = some (s, m'.state)

/-- The frames of a call have been run. -/
theorem ran_executeCall (env : Env) (n : ℕ) : ∀ tx msgSender m,
    wp (executeCall env n tx msgSender)
      (fun _ m' => (m'.log.active = resumed m.state m'.state m.log.active ∧
        Grows m.state m'.state) ∧ ∀ r ∈ m'.log.finished, r ∈ m.log.finished ∨ r.Ran env)
      (fun _ _ => True) m := by
  refine wp_executeCall_of_frame (I := fun m f m' =>
    (∃ a, m'.log.active = a :: (m.enter f.tx f.msgSender).log.active.tail ∧ a.frame = f) ∧
      Grows m.state m'.state ∧ ∀ r ∈ m'.log.finished, r ∈ m.log.finished ∨ r.Ran env)
    ?_ (fun h hs => ⟨h.1, h.2.1.trans hs.grows, h.2.2⟩) ?_ ?_ n
  · intro m tx msgSender _
    exact ⟨⟨_, rfl, rfl⟩, .refl _, fun r hr => .inl (finished_enter m tx msgSender ▸ hr)⟩
  · rintro m f m₁ m₂ ⟨⟨a, ha, hf⟩, hg, hran⟩ ⟨⟨hactive, hg'⟩, hnew⟩
    rw [ha] at hactive
    exact ⟨⟨⟨_, hactive, hf⟩, hg.trans hg', fun r hr => (hnew r hr).elim (hran r) .inr⟩, hg'⟩
  · rintro n m tx msgSender m' value ⟨⟨a, ha, hf⟩, hg, hran⟩ hbody
    refine ⟨⟨active_leave ha, hg⟩, fun r hr => ?_⟩
    rw [finished_leave ha] at hr
    rcases List.mem_append.1 hr with hr | hr
    · exact hran r hr
    · -- the frame that is left is the one that was entered
      rw [List.mem_singleton.1 hr, hf]
      refine .inr ⟨n, m.enter tx msgSender, m', value, rfl, ?_, hbody, a.since, ?_⟩
      · simp [Machine.enter]
      · simp

theorem ran_of_mem_committedFrames {tx : Transaction} (h : r ∈ committedFrames env s tx) :
    r.Ran env := by
  unfold committedFrames at h
  split at h
  next hc =>
    obtain ⟨m, ⟨-, hm⟩, -, hf⟩ := of_commits hc (ran_executeCall env _ tx tx.sender _)
    rcases hm r (hf ▸ h) with hr | hr
    · simp [CallLog.empty] at hr
    · exact hr
  next => exact absurd h List.not_mem_nil

theorem ran_of_mem_runFrames {ops : List Op} (h : r ∈ runFrames env s ops) : r.Ran env := by
  obtain ⟨p, -, hr⟩ := List.mem_flatMap.1 h
  exact ran_of_mem_committedFrames hr

/-- What the method of a frame leads to, with calls that leave its numbers alone. -/
theorem FrameRecord.Ran.leads {s' : DeTTaState} {P : DeTTaState → Prop} (h : r.Ran env)
    (hlast : r.own.getLast? = some (s, s'))
    (hP : ∀ (call : ContractCall) (m : Machine) (record : ContractRecord), Shields call →
      m.state = r.frame.start → m.Active r.frame.tx.target →
      r.frame.start.contracts[r.frame.tx.target]? = some record →
      record.kind.offers r.frame.tx.method = true →
      Leads P (kindMethod env call r.frame.tx r.frame.msgSender record.kind) m) : P s' := by
  obtain ⟨n, m, m', value, hs, hact, hbody, s₁, hlast'⟩ := h
  obtain ⟨rfl, rfl⟩ : s₁ = s ∧ m'.state = s' := by
    rw [hlast', Option.some.injEq, Prod.mk.injEq] at hlast
    exact hlast
  apply wp.of_ok hbody
  refine .read (.okOr ⟨fun record hr => ?_, fun _ => trivial⟩)
  iterate 4 refine .skip (fun _ => ?_) fun _ => trivial
  cases ho : record.kind.offers r.frame.tx.method with
  | false => exact Handles.wp_kindMethod_of_not_offers env ho fun _ => trivial
  | true =>
    have hthere := Table.contains_iff.2 ⟨record, hr⟩
    exact hP _ m record (shields_executeCall env n) hs ⟨hact, hthere⟩ (hs ▸ hr) ho

/-! ## Arguments and payments -/

namespace Leads

variable {β : Type} {m : Machine} {P : DeTTaState → Prop} {k : Unit → Kernel β}
  {call : ContractCall} {tx : Transaction} {payer receiver : Principal}

/-- A payment leaves the numbers of an active contract alone. -/
theorem transferAssetBalance (hcall : Shields call) {contract : ContractId}
    (hact : m.Active contract) {ledger : AssetLedger} {asset : AssetId} {amount : Amount}
    (hk : ∀ m' : Machine, m'.Active contract → Grows m.state m'.state →
      m.state.SameOwn contract m'.state → Leads P (k ()) m') :
    Leads P (Detta.transferAssetBalance call tx ledger payer receiver asset amount >>= k) m := by
  cases ledger with
  | nativeToken token =>
    refine wp_bind.2 (wp_transferNativeAssetBalance (fun s' hmove _ => ?_) (fun _ _ => trivial)
      fun _ => trivial)
    refine hk _ (hact.mono rfl (.move hmove)) (.move hmove) fun key _ hl => ?_
    obtain ⟨-, _, -, rfl⟩ := DeTTaState.move_eq_some.1 hmove
    rw [Machine.state_withState, DeTTaState.storage_put_of_ne, DeTTaState.storage_put_of_ne]
    all_goals
      rintro rfl
      cases hl
  | aspectToken token =>
    unfold Detta.transferAssetBalance transferAspectAssetBalance
    refine .assoc (.skip fun _ => .assoc (.skip fun _ => .assoc (.ensure fun _ =>
      .assoc (.ensure fun _ => .assoc ?_))))
    refine wp_bind.2 ((hcall _ _ m).imp fun _ m' h => ?_)
    exact hk m' (hact.mono h.1 h.2.1) h.2.1 (h.2.2 contract hact)

theorem onlyIfTransfer (hcall : Shields call) {contract : ContractId} (hact : m.Active contract)
    {c : Prop} [Decidable c] {ledger : AssetLedger} {asset : AssetId} {amount : Amount}
    (hk : ∀ m' : Machine, m'.Active contract → Grows m.state m'.state →
      m.state.SameOwn contract m'.state → Leads P (k ()) m') :
    Leads P (Detta.onlyIf c
      (Detta.transferAssetBalance call tx ledger payer receiver asset amount) >>= k) m :=
  .onlyIf (fun _ => .transferAssetBalance hcall hact hk) fun _ => hk m hact (.refl _) (.refl _ _)

end Leads

end Detta
