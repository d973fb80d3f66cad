import Detta.Safety.Reach

/-!
# The calls of a run

A property of a chain may speak of the calls that have been committed: how often one of a
kind has been made, or what each of them has left behind. Such a property relates the calls
that have returned to the state.

Some methods write several parts of the state that belong together. Between these writes, no
such property holds. A frame of such a method counts *as a whole*: it has changed nothing
when it makes a call, and what it does in the end is one step (`HistoryInvariant`).

* What calls and their returns keep is kept by transactions (`HistoryInvariant.transaction`)
  and runs (`HistoryInvariant.run`).
-/

namespace Detta

open Kernel

/-- How a frame has returned: in some machine, of which the record keeps the stretches. -/
def FrameRecord.Returned (env : Env) (r : FrameRecord) : Prop :=
  ∃ (m : Machine) (a : Activation) (rest : List Activation), r.frame.Returns env m ∧
    m.log.active = a :: rest ∧ a.frame = r.frame ∧ r.own = a.own ++ [(a.since, m.state)]

namespace FrameRecord.Returned

variable {env : Env} {r : FrameRecord} (h : r.Returned env)

include h

/-- What a frame that has returned has done. -/
theorem whole {P : List (DeTTaState × DeTTaState) → Prop}
    (hP : ∀ (call : ContractCall) (m : Machine) (record : ContractRecord), Resumes call →
      m.state = r.frame.start → ∀ rest, m.log.active = ⟨r.frame, [], r.frame.start⟩ :: rest →
      r.frame.start.contracts[r.frame.tx.target]? = some record →
      record.kind.offers r.frame.tx.method = true →
      wp (kindMethod env call r.frame.tx r.frame.msgSender record.kind)
        (fun _ m' => ∃ a, m'.log.active = a :: rest ∧ P (a.own ++ [(a.since, m'.state)]))
        (fun _ _ => True) m) : P r.own := by
  obtain ⟨m, a, rest, hret, ha, -, hown⟩ := h
  have hend := hret.ends
    (P := fun m' => ∃ a rest, m'.log.active = a :: rest ∧ P (a.own ++ [(a.since, m'.state)]))
    fun call m record hcall hs ⟨rest, ha⟩ hr ho =>
      (hP call m record hcall hs rest ha hr ho).imp fun _ _ ⟨a, ha, h⟩ => ⟨a, rest, ha, h⟩
  obtain ⟨a', rest', ha', h⟩ := hend
  rw [ha, List.cons.injEq] at ha'
  obtain ⟨rfl, -⟩ := ha'
  exact hown ▸ h

/-- A frame that makes no calls is one stretch, which its method decides. -/
theorem quiet (hn : ∀ s tx msgSender, ¬Spawns r.frame s tx msgSender) {P : DeTTaState → Prop}
    (hP : ∀ (call : ContractCall) (m : Machine) (record : ContractRecord),
      m.state = r.frame.start → r.frame.start.contracts[r.frame.tx.target]? = some record →
      record.kind.offers r.frame.tx.method = true →
      Leads P (kindMethod env call r.frame.tx r.frame.msgSender record.kind) m) :
    ∃ s', r.own = [(r.frame.start, s')] ∧ P s' := by
  obtain ⟨m, a, rest, hret, ha, -, hown⟩ := h
  obtain ⟨call, m₀, value, -, hs, ⟨rest₀, ha₀⟩, hbody⟩ := id hret
  have hlog : m.log = m₀.log := by
    apply wp.of_ok hbody
    refine Handles.callBody (I := fun m => m.log = m₀.log) (fun _ => ?_) env rfl hs fun _ => trivial
    exact
      { own := fun h _ => h
        attempt := fun _ _ _ => trivial
        fail := fun _ _ _ => trivial
        spawn := fun _ hspawn => absurd hspawn (hn _ _ _) }
  rw [hlog, ha₀, List.cons.injEq] at ha
  obtain ⟨rfl, -⟩ := ha
  exact ⟨m.state, hown, hret.leads hP⟩

end FrameRecord.Returned

/-- A property of the calls that have returned, and of the state. The frames that are `whole`
    change nothing before they return. -/
structure HistoryInvariant (env : Env) (whole : Frame → Bool)
    (J : List FrameRecord → DeTTaState → Prop) : Prop where
  own : ∀ {f : Frame} {past : List FrameRecord} {s s' : DeTTaState}, whole f = false → f.Live →
    Grows f.start s → J past s → OwnStep f s s' → J past s'
  leave : ∀ {r : FrameRecord} {past : List FrameRecord} {s : DeTTaState}, whole r.frame = false →
    r.Returned env → Grows r.frame.start s → J past s → J (past ++ [r]) s
  idle : ∀ {r : FrameRecord}, whole r.frame = true → r.Returned env →
    ∀ p ∈ r.own.dropLast, p.1 = p.2
  step : ∀ {r : FrameRecord} {past : List FrameRecord} {s s' : DeTTaState},
    whole r.frame = true → r.Returned env → Grows r.frame.start s' →
    r.own.getLast? = some (s, s') → J past s → J (past ++ [r]) s'
  nonce : ∀ {past : List FrameRecord} {s : DeTTaState} (tx : Transaction), J past s →
    J past (s.useNonce tx)
  timeless : ∀ past, Timeless (J past)
  deploy : ∀ {past : List FrameRecord} {s s' : DeTTaState}, J past s → DeployStep env s s' →
    J past s'

/-! ## Transactions -/

section Transactions

variable {env : Env} {whole : Frame → Bool} {J : List FrameRecord → DeTTaState → Prop}

/-- The frames that are whole have changed nothing before they made their calls. -/
def CallLog.Idle (whole : Frame → Bool) (log : CallLog) : Prop :=
  ∀ a ∈ log.active, whole a.frame = true → ∀ p ∈ a.own, p.1 = p.2

/-- The state without what the frame on top has done since its last call, if it is whole. -/
def Machine.settled (whole : Frame → Bool) (m : Machine) : DeTTaState :=
  match m.log.active with
  | a :: _ => if whole a.frame then a.since else m.state
  | [] => m.state

variable {m : Machine} {tx : Transaction} {past : List FrameRecord}

theorem settled_of_active {a : Activation} {rest : List Activation} (h : m.log.active = a :: rest) :
    m.settled whole = if whole a.frame then a.since else m.state := by
  rw [Machine.settled, h]

/-- In the moment of a call, nothing is left to be settled. -/
theorem settled_enter (m : Machine) (tx : Transaction) (msgSender : Principal) :
    (m.enter tx msgSender).settled whole = m.state := by
  rw [settled_of_active rfl]
  exact ite_self _

theorem settled_leave (m : Machine) : m.leave.settled whole = m.state := by
  rw [Machine.settled, active_leave_eq]
  cases m.log.active.tail with
  | nil => rfl
  | cons b rest => exact ite_self _

/-- The frame on top has changed nothing that counts, when it makes a call. -/
theorem settled_eq_state_of_idle {msgSender : Principal}
    (h : (m.enter tx msgSender).log.Idle whole) : m.settled whole = m.state := by
  rcases hl : m.log.active with - | ⟨a, rest⟩
  · rw [Machine.settled, hl]
  · rw [settled_of_active hl]
    split
    next hw =>
      exact h { a with own := a.own ++ [(a.since, m.state)] }
        (by simp [Machine.enter, CallLog.enter, hl]) hw (a.since, m.state) (by simp)
    next => rfl

theorem idle_of_enter {msgSender : Principal}
    (h : (m.enter tx msgSender).log.Idle whole) : m.log.Idle whole := by
  intro a ha hw p hp
  rcases hl : m.log.active with - | ⟨b, rest⟩
  · simp [hl] at ha
  · rw [hl] at ha
    rcases List.mem_cons.1 ha with rfl | ha
    · exact h { a with own := a.own ++ [(a.since, m.state)] }
        (by simp [Machine.enter, CallLog.enter, hl]) hw p (List.mem_append_left _ hp)
    · exact h a (by simp [Machine.enter, CallLog.enter, hl, ha]) hw p hp

/-- The stretches of a frame that is left are those of its record. -/
theorem idle_of_leave {a : Activation} {rest : List Activation} (hl : m.log.active = a :: rest)
    (ha : whole a.frame = true → ∀ p ∈ a.own, p.1 = p.2) (h : m.leave.log.Idle whole) :
    m.log.Idle whole := by
  intro b hb hw p hp
  rw [hl] at hb
  rcases List.mem_cons.1 hb with rfl | hb
  · exact ha hw p hp
  · rcases rest with - | ⟨c, rest⟩
    · simp at hb
    · rcases List.mem_cons.1 hb with rfl | hb
      · exact h { b with since := m.state } (by simp [Machine.leave, CallLog.leave, hl]) hw p hp
      · exact h b (by simp [Machine.leave, CallLog.leave, hl, hb]) hw p hp

theorem HistoryInvariant.callInvariant (inv : HistoryInvariant env whole J)
    (outer : Transaction) (past : List FrameRecord) :
    CallInvariant env outer (fun _ _ m => m.log.Idle whole →
      J (past ++ m.log.finished) (m.settled whole)) fun _ => True where
  enter {_ _ m tx msgSender} _ hI _ _ hidle := by
    rw [settled_enter, ← settled_eq_state_of_idle hidle]
    exact hI (idle_of_enter hidle)
  own {_ f frames m s'} hr hl hI hs hidle := by
    have hJ := hI hidle
    obtain ⟨a, rest, ha, rfl, -⟩ := List.map_eq_cons_iff.1 hr.active
    rw [settled_of_active ha] at hJ
    rw [settled_of_active (m := m.withState s') ha]
    -- what a frame that is whole does now is looked at when it returns
    cases hw : whole a.frame with
    | true => simpa [hw] using hJ
    | false =>
      simp only [hw, Bool.false_eq_true, if_false] at hJ ⊢
      exact inv.own hw hl (hr.grows _ List.mem_cons_self) hJ hs
  attempt _ _ _ _ := trivial
  leave {_ f frames m} hr hret hI hidle := by
    obtain ⟨a, rest, ha, rfl, -⟩ := List.map_eq_cons_iff.1 hr.active
    let r : FrameRecord := ⟨a.frame, rest.map (·.frame), a.own ++ [(a.since, m.state)]⟩
    have hr' : r.Returned env := ⟨m, a, rest, hret, ha, rfl, rfl⟩
    have hown : whole a.frame = true → ∀ p ∈ a.own, p.1 = p.2 := fun hw p hp =>
      inv.idle hw hr' p (by simpa [r] using hp)
    have hJ := hI (idle_of_leave ha hown hidle)
    rw [settled_leave, finished_leave ha, ← List.append_assoc]
    rw [settled_of_active ha] at hJ
    have hg : Grows r.frame.start m.state := hr.grows _ List.mem_cons_self
    cases hw : whole a.frame with
    | true =>
      simp only [hw, if_true] at hJ
      exact inv.step (r := r) hw hr' hg (by simp [r]) hJ
    | false =>
      simp only [hw, Bool.false_eq_true, if_false] at hJ
      exact inv.leave (r := r) hw hr' hg hJ
  fail _ _ := trivial
  abort _ := trivial
  exhaust _ _ _ := trivial

/-- The calls of a transaction that is committed. -/
def committedFrames (env : Env) (s : DeTTaState) (tx : Transaction) : List FrameRecord :=
  if Commits env s tx then callFrames env s tx else []

/-- What a transaction does to the calls that have returned and to the state, if it is committed;
    if it is not, only a nonce may be used up. -/
theorem CallInvariant.transaction {I : ℕ → List Frame → Machine → Prop} {s : DeTTaState}
    (inv : CallInvariant env tx I fun _ => True)
    (hI : ∀ n, I n [] ⟨s.useNonce tx, CallContext.new tx.sender, CallLog.empty⟩) (hs : J past s)
    (hn : J past (s.useNonce tx))
    (hend : ∀ {n m}, Running tx [] m → I n [] m → J (past ++ m.log.finished) m.state) :
    J (past ++ committedFrames env s tx) (applyTransaction env s tx).1 := by
  by_cases hc : Commits env s tx
  · obtain ⟨n, m, hr, hm, hstate, hf⟩ := inv.of_commits hI hc
    rw [committedFrames, if_pos hc, hstate, hf]
    exact hend hr hm
  · rw [committedFrames, if_neg hc, List.append_nil]
    rcases eq_of_not_commits hc with he | he
    · rwa [he]
    · exact he ▸ hn

theorem HistoryInvariant.transaction (inv : HistoryInvariant env whole J) {s : DeTTaState}
    (h : J past s) (tx : Transaction) :
    J (past ++ committedFrames env s tx) (applyTransaction env s tx).1 := by
  have hn := inv.nonce tx h
  refine (inv.callInvariant tx past).transaction (fun _ _ => (List.append_nil past).symm ▸ hn) h hn
    fun {_ m} hr hJ => ?_
  have hnil : m.log.active = [] := List.map_eq_nil_iff.1 hr.active
  rw [← show m.settled whole = m.state by rw [Machine.settled, hnil]]
  exact hJ fun a ha => by simp [hnil] at ha

end Transactions

/-! ## Runs -/

/-- The calls of the committed transactions of a run, in the order of their return. -/
def runFrames (env : Env) (s : DeTTaState) (ops : List Op) : List FrameRecord :=
  (runTransactions env s ops).flatMap fun p => committedFrames env p.1 p.2

/-- A property of the calls that have returned, and of the state, that transactions and
    deployments keep. -/
structure RunInvariant (env : Env) (J : List FrameRecord → DeTTaState → Prop) : Prop where
  transaction : ∀ {past : List FrameRecord} {s : DeTTaState}, J past s → ∀ tx,
    J (past ++ committedFrames env s tx) (applyTransaction env s tx).1
  timeless : ∀ past, Timeless (J past)
  deploy : ∀ {past : List FrameRecord} {s s' : DeTTaState}, J past s → DeployStep env s s' →
    J past s'

section Runs

variable {env : Env} {whole : Frame → Bool} {J : List FrameRecord → DeTTaState → Prop}
  {past : List FrameRecord} {s : DeTTaState}

namespace RunInvariant

theorem transactions (inv : RunInvariant env J) (h : J past s) (txs : List Transaction) :
    J (past ++ (appliedTransactions env s txs).flatMap fun p => committedFrames env p.1 p.2)
      (applyTransactions env s txs).1 := by
  induction txs generalizing past s with
  | nil => simpa [appliedTransactions, applyTransactions] using h
  | cons tx txs ih =>
    have hrest := ih (inv.transaction h tx)
    rwa [List.append_assoc] at hrest

theorem op (inv : RunInvariant env J) (h : J past s) (op : Op) :
    J (past ++ (op.transactions env s).flatMap fun p => committedFrames env p.1 p.2)
      (op.apply env s) := by
  cases op with
  | deploy d =>
    simpa [Op.transactions, Op.apply] using applyDeployment_keeps (P := J past) h inv.deploy d
  | transaction tx => simpa [Op.transactions, Op.apply] using inv.transaction h tx
  | block b =>
    rcases Op.block_cases env s b with ⟨he, htxs⟩ | ⟨height, hash, he, htxs⟩
    · rw [he, htxs, List.flatMap_nil, List.append_nil]
      exact h
    · rw [he, htxs]
      exact inv.timeless _ _ _ (inv.transactions (inv.timeless past _ s.finalizedBlockHash h) _)

/-- What transactions and deployments keep is kept along a run. -/
theorem run (inv : RunInvariant env J) (h : J past s) (ops : List Op) :
    J (past ++ runFrames env s ops) (runOps env s ops) := by
  induction ops generalizing past s with
  | nil => simpa [runFrames, runTransactions, runOps] using h
  | cons op ops ih =>
    have hrest := ih (inv.op h op)
    rwa [List.append_assoc, runFrames, ← List.flatMap_append] at hrest

end RunInvariant

theorem HistoryInvariant.runInvariant (inv : HistoryInvariant env whole J) :
    RunInvariant env J := ⟨inv.transaction, inv.timeless, inv.deploy⟩

theorem HistoryInvariant.op (inv : HistoryInvariant env whole J) (h : J past s) (op : Op) :
    J (past ++ (op.transactions env s).flatMap fun p => committedFrames env p.1 p.2)
      (op.apply env s) := inv.runInvariant.op h op

theorem HistoryInvariant.run (inv : HistoryInvariant env whole J) (h : J past s)
    (ops : List Op) : J (past ++ runFrames env s ops) (runOps env s ops) :=
  inv.runInvariant.run h ops

/-- What holds when no calls have been made holds of the calls of a run. -/
theorem HistoryInvariant.runFrames (inv : HistoryInvariant env whole J) (h : J [] s)
    (ops : List Op) : J (runFrames env s ops) (runOps env s ops) := by
  have hrun := inv.run h ops
  rwa [List.nil_append] at hrun

/-- The calls of a run have returned. -/
theorem returned_of_mem_runFrames {ops : List Op} {r : FrameRecord}
    (h : r ∈ runFrames env s ops) : r.Returned env := by
  have inv : HistoryInvariant env (fun _ => false)
      fun past _ => ∀ r ∈ past, r.Returned env :=
    { own := fun _ _ _ h _ => h
      leave := fun _ hr _ h r' hr' => by
        rcases List.mem_append.1 hr' with hr' | hr'
        · exact h r' hr'
        · rwa [List.mem_singleton.1 hr']
      idle := nofun
      step := nofun
      nonce := fun _ h => h
      timeless := fun _ _ _ _ h => h
      deploy := fun h _ => h }
  exact inv.runFrames (s := s) (by simp) ops r h

/-- The chain of a run does not change. -/
theorem chainId_of_mem_runFrames {ops : List Op} {r : FrameRecord}
    (h : r ∈ runFrames env s ops) : r.frame.start.chainId = s.chainId := by
  have inv : HistoryInvariant env (fun _ => false)
      fun past s' => s'.chainId = s.chainId ∧ ∀ r ∈ past, r.frame.start.chainId = s.chainId :=
    { own := fun _ _ _ h hs => ⟨hs.grows.chainId.trans h.1, h.2⟩
      leave := fun _ _ hg h => ⟨h.1, fun r' hr' => by
        rcases List.mem_append.1 hr' with hr' | hr'
        · exact h.2 r' hr'
        · rw [List.mem_singleton.1 hr', ← hg.chainId, h.1]⟩
      idle := nofun
      step := nofun
      nonce := fun _ h => h
      timeless := fun _ _ _ _ h => h
      deploy := fun h hd => by
        cases hd with
        | contract => rwa [DeTTaState.puts_eq]
        | _ => exact h }
  exact (inv.runFrames (s := s) ⟨rfl, by simp⟩ ops).2 r h

end Runs

end Detta
