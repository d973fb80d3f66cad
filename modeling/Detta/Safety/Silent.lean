import Detta.Safety.Sender

/-!
# Accounts that send nothing

A principal `o` who sends no transaction, and is not a contract, is never the caller of a
frame (`Stack.silent`). So nobody raises what `o` has allowed others to spend, but by a
permit for `o`; and the native balances of `o` go down only by a `transferFrom` of
somebody whom `o` has allowed to spend something (`Frame.Takes`).

Both need that no contract with the identifier `o` comes to be: whoever deploys one speaks
in the name of `o`.
-/

namespace Detta

open Kernel

/-! ## What an owner has allowed -/

/-- What can be spent of a grant. -/
def Grant.spendable (g : Grant) : ℕ :=
  if g.active = true ∧ g.revoked = false then g.remaining.val else 0

namespace DeTTaState

/-- What a spender can spend of an owner's tokens. -/
def spendable (s : DeTTaState) (token : ContractId) (owner spender : Principal)
    (asset : AssetId) : ℕ :=
  (s.registry[GrantKey.allowance token owner spender asset]?.map Grant.spendable).getD 0

/-- A grant matters only for its own key. -/
theorem spendable_grant (s : DeTTaState) (key : GrantKey) (g : Grant) (token : ContractId)
    (owner spender : Principal) (asset : AssetId) :
    (s.grant key g).spendable token owner spender asset =
      if key = .allowance token owner spender asset then g.spendable
      else s.spendable token owner spender asset := by
  simp only [spendable, grant, Std.ExtTreeMap.getElem?_insert, Std.LawfulEqCmp.compare_eq_iff_eq]
  split <;> simp

theorem spendable_congr {s s' : DeTTaState} (h : s'.registry = s.registry) (token : ContractId)
    (owner spender : Principal) (asset : AssetId) :
    s'.spendable token owner spender asset = s.spendable token owner spender asset := by
  rw [spendable, spendable, h]

end DeTTaState

/-- What is spent is not there to be spent again. -/
theorem Grant.spendable_spent_le {g : Grant} {amount spent : Amount}
    (h : g.spent.checkedAdd amount = some spent) :
    ({ g with spent := spent } : Grant).spendable ≤ g.spendable := by
  have hle : ({ g with spent := spent } : Grant).remaining.val ≤ g.remaining.val := by
    have hs := Word.checkedAdd_eq_some.1 h
    unfold Grant.remaining
    cases g.limit with
    | none => exact le_refl _
    | some limit =>
      simp only [Option.map_some, Option.getD_some, Word.val_saturatingSub]
      omega
  unfold Grant.spendable
  split <;> simp_all

/-- The frame is a permit of an owner. -/
def Frame.Permits (f : Frame) (o : Principal) : Prop :=
  f.tx.method = .permit ∧ f.tx.args[0]? = some (.principal o)

/-- The frame takes tokens of an owner who has allowed its caller to. -/
def Frame.Takes (f : Frame) (o : Principal) : Prop :=
  f.tx.method = .transferFrom ∧ f.tx.args[0]? = some (.principal o) ∧
    ∃ asset, 0 < f.start.spendable f.tx.target o f.msgSender asset

instance (f : Frame) (o : Principal) : Decidable (f.Permits o) :=
  inferInstanceAs (Decidable (_ ∧ _))

section Steps

variable {f : Frame} {s s' : DeTTaState} {o : Principal}

/-- A frame of another caller, that is not a permit of the owner, allows no more. -/
theorem OwnStep.spendable_le (h : OwnStep f s s') (ho : f.msgSender ≠ o) (hp : ¬f.Permits o)
    (token : ContractId) (spender : Principal) (asset : AssetId) :
    s'.spendable token o spender asset ≤ s.spendable token o spender asset := by
  cases h with
  | approve spender' asset' amount hm =>
    rw [DeTTaState.spendable_grant, if_neg (by simp [ho])]
  | @permit owner spender' asset' amount hm ha =>
    have hne : owner ≠ o := fun he => hp ⟨hm, he ▸ ha⟩
    rw [DeTTaState.spendable_grant, if_neg (by simp [hne])]
  | @consume owner asset' amount spent g hm hg hs =>
    rw [DeTTaState.spendable_grant]
    split
    next hk =>
      rw [hk] at hg
      simp only [DeTTaState.spendable, hg, Option.map_some, Option.getD_some]
      exact Grant.spendable_spent_le hs
    next => exact le_refl _
  | accountKey | admin => rw [DeTTaState.spendable_grant, if_neg (by simp)]
  | tokens ha =>
    obtain ⟨_, rfl⟩ := ha.onlyStorage
    exact (DeTTaState.spendable_congr rfl ..).le
  | deploy => exact (DeTTaState.spendable_congr (by simp [DeTTaState.withContract]) ..).le
  | _ => exact le_refl _

/-- A frame that neither acts for `o` nor takes from `o` lowers no balance of `o`. -/
theorem OwnStep.held_le_of_not_takes (h : OwnStep f s s') (hs : Owned s) (hsp : ¬f.Spends o)
    (ht : ¬f.Takes o) (token : ContractId) (asset : AssetId) :
    s.held token o asset ≤ s'.held token o asset := by
  rcases h.held_le hs token o asset with hle | ⟨amount, hp, hle⟩
  · exact hle
  · cases hp with
    | spends hp => exact absurd hp hsp
    | allowed hm htok ha _ hall =>
      obtain ⟨g, hg, hact, hrev, hrem⟩ := hall
      have hrem' : amount.val ≤ f.start.spendable token o f.msgSender asset := by
        simp only [DeTTaState.spendable, hg, Option.map_some, Option.getD_some, Grant.spendable,
          hact, hrev, and_self, if_true]
        exact hrem
      by_cases h0 : f.start.spendable token o f.msgSender asset = 0
      · omega
      · exact absurd ⟨hm, ha, asset, by rw [← htok]; omega⟩ ht

end Steps

variable {m : Machine} {outer tx : Transaction} {o : Principal} {f : Frame}

/-- Nobody calls in the name of `o`. -/
theorem Stack.silent {frames : List Frame} (h : Stack outer frames) (ho : outer.sender ≠ o)
    (ht : ∀ c ∈ frames.tail, c.tx.target ≠ o) :
    ∀ f ∈ frames, f.tx.sender ≠ o ∧ f.msgSender ≠ o := by
  induction h with
  | nil => simp
  | @cons frames s tx msgSender h hcall ih =>
    have hrest := ih fun c hc => ht c (List.mem_of_mem_tail hc)
    intro f hf
    rcases List.mem_cons.1 hf with rfl | hf
    · cases frames with
      | nil =>
        obtain ⟨rfl, rfl⟩ := hcall
        exact ⟨ho, ho⟩
      | cons c frames =>
        obtain ⟨hsender, hcaller⟩ := hrest c List.mem_cons_self
        have htarget := ht c List.mem_cons_self
        cases hcall.2 with
        | route => exact ⟨hsender, htarget⟩
        | host => exact ⟨hsender, htarget⟩
        | setUp => exact ⟨hsender, hsender⟩
        | settle _ _ hp =>
          cases hp with
          | caller => exact ⟨hcaller, hcaller⟩
          | self => exact ⟨htarget, htarget⟩
          | depositor => exact ⟨hsender, hsender⟩
    · exact hrest f hf

/-- Frames that call others are live. -/
theorem Stack.live {frames : List Frame} (h : Stack outer frames) :
    ∀ c ∈ frames.tail, c.Live := by
  induction h with
  | nil => simp
  | @cons frames s tx msgSender h hcall ih =>
    cases frames with
    | nil => simp
    | cons c frames =>
      intro d hd
      rcases List.mem_cons.1 hd with rfl | hd
      · exact hcall.1
      · exact ih d hd

/-! ## The log -/

/-- All frames of a log. -/
def CallLog.frames (log : CallLog) : List Frame :=
  log.active.map (·.frame) ++ log.finished.map (·.frame)

variable {frames : List Frame}

theorem mem_frames_enter {msgSender : Principal} :
    f ∈ (m.enter tx msgSender).log.frames ↔ f = ⟨tx, msgSender, m.state⟩ ∨ f ∈ m.log.frames := by
  cases hl : m.log.active <;>
    simp [Machine.enter, CallLog.enter, CallLog.frames, hl]

theorem mem_frames_leave :
    f ∈ m.leave.log.frames ↔ f ∈ m.log.frames := by
  cases hl : m.log.active with
  | nil => simp [Machine.leave, CallLog.leave, CallLog.frames, hl]
  | cons a rest =>
    simp only [CallLog.frames, frames_leave hl, finished_leave hl, hl, List.map_append,
      List.map_cons, List.map_nil, List.cons_append, List.mem_append, List.mem_cons,
      List.not_mem_nil, or_false]
    tauto

theorem Running.mem_frames (h : Running outer frames m) (hf : f ∈ frames) : f ∈ m.log.frames := by
  rw [CallLog.frames, h.active]
  exact List.mem_append_left _ hf

/-- After a transaction, the frames of the log are those of its calls. -/
theorem mem_frames_iff_of_running {env : Env} {s : DeTTaState} (hr : Running tx [] m)
    (hf : callFrames env s tx = m.log.finished) :
    f ∈ m.log.frames ↔ ∃ r ∈ callFrames env s tx, r.frame = f := by
  rw [CallLog.frames, hr.active, List.nil_append, ← hf, List.mem_map]

/-- Up to now there is no contract `o`, and no permit of `o`. -/
def Undisturbed (o : Principal) (m : Machine) : Prop :=
  m.state.contracts.contains o = false ∧ ∀ f ∈ m.log.frames, ¬f.Permits o

/-- During a transaction that starts in `s`, nobody may spend more of what `o` has. -/
structure Since (o : Principal) (s s' : DeTTaState) : Prop where
  grows : Grows s s'
  spendable : ∀ token spender asset,
    s'.spendable token o spender asset ≤ s.spendable token o spender asset

/-- What follows for the allowances and the balances of `o`, in a transaction that starts
    in `s`. -/
structure Silence (o : Principal) (s : DeTTaState) (m : Machine) : Prop where
  now : Since o s m.state
  starts : ∀ f ∈ m.log.frames, Since o s f.start
  held : (∀ f ∈ m.log.frames, ¬f.Takes o) → ∀ token asset,
    s.held token o asset ≤ m.state.held token o asset

theorem Undisturbed.of_enter {msgSender : Principal}
    (h : Undisturbed o (m.enter tx msgSender)) : Undisturbed o m :=
  ⟨h.1, fun f hf => h.2 f (mem_frames_enter.2 (.inr hf))⟩

theorem Undisturbed.of_leave (h : Undisturbed o m.leave) :
    Undisturbed o m :=
  ⟨h.1, fun f hf => h.2 f (mem_frames_leave.2 hf)⟩

theorem Undisturbed.of_withState {s' : DeTTaState} (h : Undisturbed o (m.withState s'))
    (hg : Grows m.state s') : Undisturbed o m := by
  refine ⟨?_, h.2⟩
  by_contra hc
  have hold := hg.contains (Bool.eq_true_of_not_eq_false hc)
  rw [← Machine.state_withState m s', h.1] at hold
  cases hold

/-- A contract that is active does not have the identifier `o`. -/
theorem Running.target_ne (hr : Running outer frames m)
    (ho : m.state.contracts.contains o = false) :
    ∀ f ∈ frames, f.Live → f.tx.target ≠ o := by
  rintro f hf hl rfl
  rw [hl.contains (hr.grows f hf)] at ho
  cases ho

/-- While nothing is disturbed, no active frame acts for `o`. -/
theorem Running.not_spends (hr : Running outer (f :: frames) m) (hl : f.Live)
    (ho : m.state.contracts.contains o = false) (hs : outer.sender ≠ o) :
    f.msgSender ≠ o ∧ ¬f.Spends o := by
  have ht := hr.target_ne ho
  obtain ⟨hsender, hcaller⟩ := hr.calls.silent hs
    (fun c hc => ht c (List.mem_of_mem_tail hc) (hr.calls.live c hc)) f List.mem_cons_self
  refine ⟨hcaller, fun hsp => ?_⟩
  cases hsp with
  | caller => exact hcaller rfl
  | self => exact ht f List.mem_cons_self hl rfl
  | depositor => exact hsender rfl

/-- Steps, calls and returns keep the silence. -/
theorem callInvariant_silence {env : Env} (hs : outer.sender ≠ o) (s : DeTTaState) :
    CallInvariant env outer (fun _ _ m => Owned m.state ∧ (Undisturbed o m → Silence o s m))
      fun _ => True where
  enter {_ _ m tx msgSender} _ hI _ _ := by
    refine ⟨hI.1, fun hu => ?_⟩
    have h := hI.2 hu.of_enter
    refine ⟨h.now, fun f hf => ?_, fun ht => ?_⟩
    · rcases mem_frames_enter.1 hf with rfl | hf
      · exact h.now
      · exact h.starts f hf
    · exact h.held fun f hf => ht f (mem_frames_enter.2 (.inr hf))
  own {_ f frames m s'} hr hl hI hstep := by
    refine ⟨hstep.owned (hl.contains (hr.grows _ List.mem_cons_self)) hI.1, fun hu => ?_⟩
    have hu' := hu.of_withState hstep.grows
    have h := hI.2 hu'
    have hf : f ∈ m.log.frames := hr.mem_frames List.mem_cons_self
    obtain ⟨hcaller, hsp⟩ := hr.not_spends hl hu'.1 hs
    refine ⟨⟨h.now.grows.trans hstep.grows, fun token spender asset => ?_⟩, h.starts,
      fun ht token asset => ?_⟩
    · exact (hstep.spendable_le hcaller (hu'.2 f hf) token spender asset).trans
        (h.now.spendable token spender asset)
    · exact (h.held ht token asset).trans
        (hstep.held_le_of_not_takes hI.1 hsp (ht f hf) token asset)
  attempt _ _ _ _ := trivial
  leave {_ _ _ m} _ _ hI := by
    refine ⟨hI.1, fun hu => ?_⟩
    have h := hI.2 hu.of_leave
    exact ⟨h.now, fun f hf => h.starts f (mem_frames_leave.1 hf),
      fun ht => h.held fun f hf => ht f (mem_frames_leave.2 hf)⟩
  fail _ _ := trivial
  abort _ := trivial
  exhaust _ _ _ := trivial

/-! ## Transactions -/

section Transactions

variable {env : Env} {s : DeTTaState} {tx : Transaction} {o : Principal}

/-- Contracts are never removed. -/
theorem contains_applyTransaction {contract : ContractId}
    (h : s.contracts.contains contract = true) :
    (applyTransaction env s tx).1.contracts.contains contract = true := by
  rcases applyTransaction_grows env s tx with ⟨-, -, hsame⟩ | ⟨-, -, hgrows⟩
  · rwa [hsame]
  · exact hgrows.contains h

/-- After a transaction that is committed and does not disturb `o`, silence is kept. -/
theorem silence_of_commits (hs : Owned s) (hc : Commits env s tx) (ho : tx.sender ≠ o)
    (hp : ∀ r ∈ callFrames env s tx, ¬r.frame.Permits o)
    (hn : (applyTransaction env s tx).1.contracts.contains o = false) :
    ∃ m, Silence o (s.useNonce tx) m ∧ (applyTransaction env s tx).1 = m.state ∧
      ∀ f, f ∈ m.log.frames ↔ f ∈ (callFrames env s tx).map (·.frame) := by
  have hinit : Silence o (s.useNonce tx)
      ⟨s.useNonce tx, CallContext.new tx.sender, CallLog.empty⟩ :=
    ⟨⟨.refl _, fun _ _ _ => le_refl _⟩, by simp [CallLog.frames, CallLog.empty],
      fun _ _ _ => le_refl _⟩
  obtain ⟨-, m, hr, hI, hm, hf⟩ :=
    (callInvariant_silence ho (s.useNonce tx)).of_commits (fun _ => ⟨hs, fun _ => hinit⟩) hc
  have hframes : ∀ f, f ∈ m.log.frames ↔ f ∈ (callFrames env s tx).map (·.frame) := fun f =>
    (mem_frames_iff_of_running hr hf).trans List.mem_map.symm
  refine ⟨m, hI.2 ⟨hm ▸ hn, fun f hmem => ?_⟩, hm, hframes⟩
  obtain ⟨r, hr, rfl⟩ := List.mem_map.1 ((hframes f).1 hmem)
  exact hp r hr

/-- If no permit of `o` is committed, and no contract `o` comes to be, a transaction of
    somebody else lets nobody spend more of what `o` has. -/
theorem applyTransaction_spendable_le (hs : Owned s) (ho : tx.sender ≠ o)
    (hp : Commits env s tx → ∀ r ∈ callFrames env s tx, ¬r.frame.Permits o)
    (hn : (applyTransaction env s tx).1.contracts.contains o = false) (token : ContractId)
    (spender : Principal) (asset : AssetId) :
    (applyTransaction env s tx).1.spendable token o spender asset ≤
      s.spendable token o spender asset := by
  by_cases hc : Commits env s tx
  · obtain ⟨m, h, hm, -⟩ := silence_of_commits hs hc ho (hp hc) hn
    rw [hm]
    exact h.now.spendable token spender asset
  · rcases eq_of_not_commits hc with h | h
    · rw [h]
    · rw [h]
      exact le_refl _

/-- If moreover nobody takes from `o`, no balance of `o` is lowered. -/
theorem applyTransaction_held_le (hs : Owned s) (ho : tx.sender ≠ o)
    (hp : Commits env s tx → ∀ r ∈ callFrames env s tx, ¬r.frame.Permits o)
    (hn : (applyTransaction env s tx).1.contracts.contains o = false)
    (ht : Commits env s tx → (∀ r ∈ callFrames env s tx, Since o (s.useNonce tx) r.frame.start) →
      ∀ r ∈ callFrames env s tx, ¬r.frame.Takes o)
    (token : ContractId) (asset : AssetId) :
    s.held token o asset ≤ (applyTransaction env s tx).1.held token o asset := by
  by_cases hc : Commits env s tx
  · obtain ⟨m, h, hm, hframes⟩ := silence_of_commits hs hc ho (hp hc) hn
    have hsince : ∀ r ∈ callFrames env s tx, Since o (s.useNonce tx) r.frame.start :=
      fun r hr => h.starts _ ((hframes _).2 (List.mem_map_of_mem hr))
    rw [hm]
    refine h.held (fun f hf => ?_) token asset
    obtain ⟨r, hr, rfl⟩ := List.mem_map.1 ((hframes f).1 hf)
    exact ht hc hsince r hr
  · rcases eq_of_not_commits hc with h | h
    · rw [h]
    · rw [h]
      exact le_refl _

end Transactions

end Detta
