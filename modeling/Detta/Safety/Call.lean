import Detta.Safety.Methods

/-!
# Invariants of whole calls

From what each step of a frame keeps (`CallInvariant`) follows what a call keeps, with
all the calls inside of it (`executeCall_keeps`), by induction on the depth of the
calls.

An invariant is a property of the running transaction that may depend on the frames
that are active, the innermost first, and on how deep calls may still nest.
-/

namespace Detta

open Kernel

/-! ## Active frames -/

/-- The targets of frames. -/
def targets (frames : List Frame) : List ContractId := frames.map (·.tx.target)

/-- What is called from inside of the given frames, in a transaction `outer`. -/
def Calls (outer : Transaction) (s : DeTTaState) (tx : Transaction) (msgSender : Principal) :
    List Frame → Prop
  | [] => tx = outer ∧ msgSender = outer.sender
  | f :: _ => f.Live ∧ Spawns f s tx msgSender

/-- Frames, the innermost first, each of which is called by the next. -/
inductive Stack (outer : Transaction) : List Frame → Prop where
  | nil : Stack outer []
  | cons {frames : List Frame} {s : DeTTaState} {tx : Transaction} {msgSender : Principal}
      (h : Stack outer frames) (hc : Calls outer s tx msgSender frames) :
      Stack outer (⟨tx, msgSender, s⟩ :: frames)

variable {f : Frame} {m' : Machine} {tx : Transaction} {env : Env} {m : Machine} {a : Activation}

theorem Stack.tail {outer : Transaction} {frames : List Frame} (h : Stack outer (f :: frames)) :
    Stack outer frames := by
  cases h with
  | cons h => exact h

/-- The transaction is inside of the given frames. -/
structure Running (outer : Transaction) (frames : List Frame) (m : Machine) : Prop where
  calls : Stack outer frames
  grows : ∀ f ∈ frames, Grows f.start m.state
  active : m.log.active.map (·.frame) = frames
  stack : m.context.stack.map (·.contract) = targets frames
  entered : ∀ contract, m.context.activeNonreentrantContracts.contains contract = true ↔
    contract ∈ targets frames
  nodup : (targets frames).Nodup

namespace Running

variable {outer : Transaction} {frames : List Frame} {f : Frame} {m : Machine}

theorem withState (h : Running outer frames m) {s : DeTTaState} (hg : Grows m.state s) :
    Running outer frames (m.withState s) :=
  ⟨h.calls, fun f hf => (h.grows f hf).trans hg, h.active, h.stack, h.entered, h.nodup⟩

theorem init (outer : Transaction) (s : DeTTaState) (sender : Principal) :
    Running outer [] ⟨s, CallContext.new sender, CallLog.empty⟩ :=
  ⟨.nil, by simp, rfl, rfl, fun _ => by simp [CallContext.new, targets], .nil⟩

theorem enter (h : Running outer frames m) {tx : Transaction} {msgSender : Principal}
    (hc : Calls outer m.state tx msgSender frames) (ht : tx.target ∉ targets frames) :
    Running outer (⟨tx, msgSender, m.state⟩ :: frames) (m.enter tx msgSender) where
  calls := .cons h.calls hc
  grows f hf := by
    rcases List.mem_cons.1 hf with rfl | hf
    · exact .refl _
    · exact h.grows f hf
  active := by
    rw [← h.active]
    cases hl : m.log.active <;> simp [Machine.enter, CallLog.enter, hl]
  stack := by simp [Machine.enter, h.stack, targets]
  entered contract := by
    simp only [Machine.enter, Table.contains_insert_set, h.entered, targets, List.map_cons,
      List.mem_cons]
    exact or_congr_left eq_comm
  nodup := List.nodup_cons.2 ⟨ht, h.nodup⟩

theorem leave (h : Running outer (f :: frames) m) : Running outer frames m.leave := by
  have hstack := h.stack
  have hactive := h.active
  have hnodup := List.nodup_cons.1 h.nodup
  obtain ⟨top, stack, hs⟩ := List.exists_cons_of_ne_nil
    (l := m.context.stack) (by rintro he; simp [he, targets] at hstack)
  obtain ⟨a, active, ha⟩ := List.exists_cons_of_ne_nil
    (l := m.log.active) (by rintro he; simp [he] at hactive)
  simp only [hs, ha, targets, List.map_cons, List.cons.injEq] at hstack hactive
  refine ⟨h.calls.tail, fun f hf => h.grows f (List.mem_cons_of_mem _ hf), ?_, ?_,
    fun contract => ?_, hnodup.2⟩
  · rw [← hactive.2]
    cases active <;> simp [Machine.leave, CallLog.leave, ha]
  · simp [Machine.leave, CallContext.exit, hs, hstack.2, targets]
  · simp only [Machine.leave, CallContext.exit, hs, Std.ExtTreeSet.contains_erase, h.entered,
      Bool.and_eq_true, hstack.1]
    simp only [targets, List.map_cons, List.mem_cons, bne_iff_ne, ne_eq,
      Std.LawfulEqCmp.compare_eq_iff_eq]
    constructor
    · rintro ⟨hne, rfl | hmem⟩
      · exact absurd rfl hne
      · exact hmem
    · refine fun hmem => ⟨fun he => hnodup.1 ?_, .inr hmem⟩
      rw [← he] at hmem
      exact hmem

end Running

/-! ## Invariants -/

/-- The frame on top has made a call in state `s`, which has returned in state `s'`. -/
def resumed (s s' : DeTTaState) : List Activation → List Activation
  | a :: rest => { a with own := a.own ++ [(a.since, s)], since := s' } :: rest
  | [] => []

/-- After a call, the frame that has made it goes on, and no other frame has changed. -/
def Resumes (call : ContractCall) : Prop :=
  ∀ (tx : Transaction) (msgSender : Principal) (m : Machine),
    wp (call tx msgSender)
      (fun _ m' => m'.log.active = resumed m.state m'.state m.log.active ∧
        Grows m.state m'.state)
      (fun _ _ => True) m

theorem active_enter (m : Machine) (tx : Transaction) (msgSender : Principal) :
    ∃ rest, (m.enter tx msgSender).log.active = ⟨⟨tx, msgSender, m.state⟩, [], m.state⟩ :: rest :=
  ⟨_, rfl⟩

/-- The frames below the one that is left are those below the one that was entered. -/
theorem active_leave {msgSender : Principal}
    (h : m'.log.active = a :: (m.enter tx msgSender).log.active.tail) :
    m'.leave.log.active = resumed m.state m'.state m.log.active := by
  cases hl : m.log.active <;>
    simp [Machine.leave, CallLog.leave, h, Machine.enter, CallLog.enter, hl, resumed]

/-- When a frame is left, a new stretch of its caller begins. -/
theorem active_leave_eq (m : Machine) :
    m.leave.log.active = m.log.active.tail.modifyHead ({ · with since := m.state }) := by
  rcases hl : m.log.active with - | ⟨a, - | ⟨b, rest⟩⟩ <;>
    simp [Machine.leave, CallLog.leave, hl]

theorem finished_enter (m : Machine) (tx : Transaction) (msgSender : Principal) :
    (m.enter tx msgSender).log.finished = m.log.finished := by
  cases hl : m.log.active <;> simp [Machine.enter, CallLog.enter, hl]

theorem finished_leave {rest : List Activation}
    (ha : m.log.active = a :: rest) : m.leave.log.finished =
      m.log.finished ++ [⟨a.frame, rest.map (·.frame), a.own ++ [(a.since, m.state)]⟩] := by
  simp [Machine.leave, CallLog.leave, ha]

theorem frames_leave {rest : List Activation} (ha : m.log.active = a :: rest) :
    m.leave.log.active.map (·.frame) = rest.map (·.frame) := by
  rw [active_leave_eq, ha]
  cases rest <;> rfl

/-- What calls do, by induction on their depth: `I` holds in the frame of a call, whose calls do
    what `R` says, and `R` holds when the frame is left. -/
theorem wp_executeCall_of_frame {I : Machine → Frame → Machine → Prop}
    {R : Machine → Machine → Prop}
    (enter : ∀ {m tx} msgSender,
      m.context.activeNonreentrantContracts.contains tx.target = false →
      I m ⟨tx, msgSender, m.state⟩ (m.enter tx msgSender))
    (own : ∀ {m f m' s'}, I m f m' → OwnStep f m'.state s' → I m f (m'.withState s'))
    (call : ∀ {m f m₁ m₂}, I m f m₁ → R m₁ m₂ → I m f m₂ ∧ Grows m₁.state m₂.state)
    (leave : ∀ {n m tx msgSender m' value}, I m ⟨tx, msgSender, m.state⟩ m' →
      callBody env (executeCall env n) tx msgSender (m.enter tx msgSender) = .ok value m' →
      R m m'.leave)
    (n : ℕ) (tx : Transaction) (msgSender : Principal) (m : Machine) :
    wp (executeCall env n tx msgSender) (fun _ => R m) (fun _ _ => True) m := by
  induction n generalizing tx msgSender m with
  | zero => trivial
  | succ n ih =>
    refine .get (.ensure ⟨fun hn => ?_, fun _ => trivial⟩)
    refine .modify (wp_andThen.2 ?_)
    let f : Frame := ⟨tx, msgSender, m.state⟩
    have body : wp (callBody env (executeCall env n) f.tx f.msgSender) (fun _ => I m f)
        (fun _ _ => True) (m.enter tx msgSender) := by
      refine Handles.callBody (fun _ => ?_) env (enter msgSender hn) rfl fun _ => trivial
      exact
        { own := own
          attempt := fun _ _ _ => trivial
          fail := fun _ _ _ => trivial
          spawn := fun h _ => (ih _ _ _).imp fun _ _ => call h }
    exact (body.and (wp_self _ _)).imp fun _ _ h => leave h.1 h.2

/-- Calls return to where they were made. -/
theorem resumes_executeCall (env : Env) (n : ℕ) : Resumes (executeCall env n) := by
  -- the frames below the new one are not touched
  refine wp_executeCall_of_frame (I := fun m f m' =>
    (∃ a, m'.log.active = a :: (m.enter f.tx f.msgSender).log.active.tail) ∧
      Grows m.state m'.state) (fun _ _ => ⟨⟨_, rfl⟩, .refl _⟩)
    (fun h hs => ⟨h.1, h.2.trans hs.grows⟩) ?_ (fun ⟨⟨_, ha⟩, hg⟩ _ => ⟨active_leave ha, hg⟩) n
  rintro m f m₁ m₂ ⟨⟨a, ha⟩, hg⟩ ⟨hactive, hg'⟩
  rw [ha] at hactive
  exact ⟨⟨⟨_, hactive⟩, hg.trans hg'⟩, hg'⟩

/-- The body of the frame may end in a machine, with some way to make its calls. -/
def Frame.Returns (env : Env) (f : Frame) (m' : Machine) : Prop :=
  ∃ (call : ContractCall) (m : Machine) (value : ReturnValue), Resumes call ∧
    m.state = f.start ∧ (∃ rest, m.log.active = ⟨f, [], f.start⟩ :: rest) ∧
    callBody env call f.tx f.msgSender m = .ok value m'

/-- What the method of a frame leads to, whatever its calls do, as long as they return. -/
theorem Frame.Returns.ends {P : Machine → Prop} (h : f.Returns env m')
    (hP : ∀ (call : ContractCall) (m : Machine) (record : ContractRecord), Resumes call →
      m.state = f.start → (∃ rest, m.log.active = ⟨f, [], f.start⟩ :: rest) →
      f.start.contracts[f.tx.target]? = some record → record.kind.offers f.tx.method = true →
      wp (kindMethod env call f.tx f.msgSender record.kind) (fun _ m' => P m') (fun _ _ => True)
        m) : P m' := by
  obtain ⟨call, m, value, hcall, hs, ha, hm⟩ := h
  apply wp.of_ok hm
  refine .read (.okOr ⟨fun record hr => ?_, fun _ => trivial⟩)
  iterate 4 refine .skip (fun _ => ?_) fun _ => trivial
  cases ho : record.kind.offers f.tx.method with
  | false => exact Handles.wp_kindMethod_of_not_offers env ho fun _ => trivial
  | true => exact hP call m record hcall hs ha (hs ▸ hr) ho

/-- The same for the state alone. -/
theorem Frame.Returns.leads {P : DeTTaState → Prop} (h : f.Returns env m')
    (hP : ∀ (call : ContractCall) (m : Machine) (record : ContractRecord), m.state = f.start →
      f.start.contracts[f.tx.target]? = some record → record.kind.offers f.tx.method = true →
      Leads P (kindMethod env call f.tx f.msgSender record.kind) m) : P m'.state :=
  h.ends fun call m record _ hs _ hr ho => hP call m record hs hr ho

/-- An invariant of the calls of a transaction: it holds in a frame that is entered, is
    kept by the steps of the frame, and holds again when the frame is left. A failure
    leads to `E`, which does not depend on where the transaction is. -/
structure CallInvariant (env : Env) (outer : Transaction) (I : ℕ → List Frame → Machine → Prop)
    (E : Machine → Prop) : Prop where
  enter : ∀ {n : ℕ} {frames : List Frame} {m : Machine} {tx : Transaction} {msgSender : Principal},
    Running outer frames m → I (n + 1) frames m → Calls outer m.state tx msgSender frames →
    tx.target ∉ targets frames → I n (⟨tx, msgSender, m.state⟩ :: frames) (m.enter tx msgSender)
  own : ∀ {n : ℕ} {f : Frame} {frames : List Frame} {m : Machine} {s' : DeTTaState},
    Running outer (f :: frames) m → f.Live → I n (f :: frames) m → OwnStep f m.state s' →
    I n (f :: frames) (m.withState s')
  attempt : ∀ {n : ℕ} {f : Frame} {frames : List Frame} {m : Machine} {s' : DeTTaState}
    {token : ContractId} {asset : AssetId}, Running outer (f :: frames) m → f.Live →
    I n (f :: frames) m → Attempt f m.state token asset s' → E (m.withState s')
  leave : ∀ {n : ℕ} {f : Frame} {frames : List Frame} {m : Machine}, Running outer (f :: frames) m →
    f.Returns env m → I n (f :: frames) m → I (n + 1) frames m.leave
  fail : ∀ {n : ℕ} {frames : List Frame} {m : Machine}, Running outer frames m → I n frames m → E m
  abort : ∀ {m : Machine}, E m → E m.leave
  exhaust : ∀ {frames : List Frame} {m : Machine} {tx : Transaction} {msgSender : Principal},
    Running outer frames m → I 0 frames m → Calls outer m.state tx msgSender frames →
    E { m with log := { m.log with exhausted := true } }

theorem executeCall_keeps {outer : Transaction} {I : ℕ → List Frame → Machine → Prop}
    {E : Machine → Prop} (inv : CallInvariant env outer I E) {n : ℕ} {frames : List Frame}
    {msgSender : Principal} (hr : Running outer frames m) (hI : I n frames m)
    (hc : Calls outer m.state tx msgSender frames) :
    wp (executeCall env n tx msgSender)
      (fun _ m' => (Running outer frames m' ∧ I n frames m') ∧ Grows m.state m'.state)
      (fun _ => E) m := by
  -- a call of a frame is one level less deep than the call that opened the frame
  induction n generalizing frames m tx msgSender with
  | zero => exact inv.exhaust hr hI hc
  | succ n ih =>
    refine .get (.ensure ⟨fun ht => ?_, fun _ => inv.fail hr hI⟩)
    refine .modify (wp_andThen.2 ?_)
    have hfree : tx.target ∉ targets frames := fun hmem => by
      rw [(hr.entered _).2 hmem] at ht
      cases ht
    let f : Frame := ⟨tx, msgSender, m.state⟩
    have hr' := hr.enter hc hfree
    have hI' := inv.enter hr hI hc hfree
    have body : wp (callBody env (executeCall env n) f.tx f.msgSender)
        (fun _ m' => Running outer (f :: frames) m' ∧ I n (f :: frames) m') (fun _ => E)
        (m.enter tx msgSender) := by
      refine Handles.callBody
        (I := fun m' => Running outer (f :: frames) m' ∧ I n (f :: frames) m')
        (fun hlive => ?_) env ⟨hr', hI'⟩ rfl fun _ => inv.fail hr' hI'
      exact
        { own := fun h hs => ⟨h.1.withState hs.grows, inv.own h.1 hlive h.2 hs⟩
          attempt := fun _ h ha => inv.attempt h.1 hlive h.2 ha
          fail := fun _ _ h => inv.fail h.1 h.2
          spawn := fun h hs => ih h.1 h.2 ⟨hlive, hs⟩ }
    refine (body.and (wp_self _ _)).mono (fun value m' h => ?_) fun _ _ h => inv.abort h.1
    have hreturns : f.Returns env m' :=
      ⟨executeCall env n, m.enter tx msgSender, value, resumes_executeCall env n, rfl,
        active_enter m tx msgSender, h.2⟩
    exact ⟨⟨h.1.1.leave, inv.leave h.1.1 hreturns h.1.2⟩, h.1.1.grows f List.mem_cons_self⟩

/-- What the call of a transaction keeps. -/
theorem CallInvariant.run {I : ℕ → List Frame → Machine → Prop} {E : Machine → Prop}
    (inv : CallInvariant env tx I E) {s : DeTTaState} {n : ℕ}
    (hI : I n [] ⟨s, CallContext.new tx.sender, CallLog.empty⟩) :
    wp (executeCall env n tx tx.sender)
      (fun _ m => (Running tx [] m ∧ I n [] m) ∧ Grows s m.state) (fun _ => E)
      ⟨s, CallContext.new tx.sender, CallLog.empty⟩ :=
  executeCall_keeps inv (.init tx s tx.sender) hI ⟨rfl, rfl⟩

end Detta
