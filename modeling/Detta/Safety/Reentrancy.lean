import Detta.Safety.Agree
import Detta.Safety.Silent

/-!
# No contract is entered twice

The context of a call keeps the stack of frames, and the set of contracts that are active. A
contract that is active is not entered, so calls end even if contracts call each other in
circles.

What holds *during* a transaction is said by watching it: `watchedCall` looks at the context
before each call, when a frame is entered, and after each call, failed or not, and raises an
alarm if the context is not in order (`Machine.NonReentrant`). Whatever the alarm does, a
watched transaction does the same as one that is not watched (`watchedCall_eq_executeCall`).
-/

namespace Detta

open Kernel

/-! ## The context of a call -/

/-- The contracts on the stack, the innermost first. -/
def CallContext.contracts (c : CallContext) : List ContractId := c.stack.map (·.contract)

/-- No contract is on the stack twice, the active contracts are those on the stack, and there
    are no more frames than contracts and one. -/
structure Machine.NonReentrant (m : Machine) : Prop where
  nodup : m.context.contracts.Nodup
  active : ∀ contract, m.context.activeNonreentrantContracts.contains contract = true ↔
    contract ∈ m.context.contracts
  length : m.context.stack.length ≤ m.state.contracts.size + 1

instance (m : Machine) : Decidable m.NonReentrant :=
  decidable_of_iff (m.context.contracts.Nodup ∧
      (∀ contract ∈ m.context.activeNonreentrantContracts.toList,
        contract ∈ m.context.contracts) ∧
      (∀ contract ∈ m.context.contracts,
        m.context.activeNonreentrantContracts.contains contract = true) ∧
      m.context.stack.length ≤ m.state.contracts.size + 1)
    ⟨fun ⟨hn, ha, hc, hl⟩ => ⟨hn, fun contract => ⟨fun h => ha contract
        (Std.ExtTreeSet.mem_toList.2 h), hc contract⟩, hl⟩,
      fun h => ⟨h.nodup, fun contract hc => (h.active contract).1 (Std.ExtTreeSet.mem_toList.1 hc),
        fun contract => (h.active contract).2, h.length⟩⟩

variable {m : Machine} {E : ExecutionError → Machine → Prop}

/-- Leaving a frame undoes entering it. -/
theorem exit_context_enter {tx : Transaction}
    (h : m.context.activeNonreentrantContracts.contains tx.target = false) (msgSender : Principal) :
    (m.enter tx msgSender).context.exit = m.context := by
  have hset : (m.context.activeNonreentrantContracts.insert tx.target).erase tx.target =
      m.context.activeNonreentrantContracts := by
    refine Std.ExtTreeSet.ext_contains fun contract => ?_
    rw [Std.ExtTreeSet.contains_erase, Std.ExtTreeSet.contains_insert]
    by_cases he : tx.target = contract
    · subst he
      simp [h]
    · have hne : (compare tx.target contract == .eq) = false := by simp [he]
      simp only [bne, hne, Bool.not_false, Bool.true_and, Bool.false_or]
  simp only [Machine.enter, CallContext.exit, hset]

/-- A call leaves the context as it was, whether it fails or not. -/
theorem wp_context_executeCall (env : Env) (n : ℕ) (tx : Transaction) (msgSender : Principal)
    (m : Machine) :
    wp (executeCall env n tx msgSender)
      (fun _ m' => m'.context = m.context ∧ Grows m.state m'.state)
      (fun _ m' => m'.context = m.context) m := by
  induction n generalizing tx msgSender m with
  | zero => exact rfl
  | succ n ih =>
    refine .get (.ensure ⟨fun ht => ?_, fun _ => rfl⟩)
    refine .modify (wp_andThen.2 ?_)
    have hexit := exit_context_enter ht msgSender
    let f : Frame := ⟨tx, msgSender, m.state⟩
    have body : wp (callBody env (executeCall env n) f.tx f.msgSender)
        (fun _ m' => m'.context = (m.enter tx msgSender).context ∧ Grows m.state m'.state)
        (fun _ m' => m'.context = (m.enter tx msgSender).context) (m.enter tx msgSender) := by
      refine Handles.callBody (fun _ => ?_) env ⟨rfl, .refl _⟩ rfl fun _ => rfl
      exact
        { own := fun h hs => ⟨h.1, h.2.trans hs.grows⟩
          attempt := fun _ h _ => h.1
          fail := fun _ _ h => h.1
          spawn := fun {m₁ tx msgSender} h _ => (ih tx msgSender m₁).mono
            (fun _ _ h' => ⟨⟨h'.1.trans h.1, h.2.trans h'.2⟩, h'.2⟩) fun _ _ h' => h'.trans h.1 }
    exact body.mono (fun _ _ h => ⟨(congrArg CallContext.exit h.1).trans hexit, h.2⟩)
      fun _ _ h => (congrArg CallContext.exit h).trans hexit

/-- The contracts that call others are deployed. -/
theorem Running.nonReentrant {outer : Transaction} {frames : List Frame} {m' : Machine}
    (h : Running outer frames m) (hc : m'.context = m.context) (hg : Grows m.state m'.state) :
    m'.NonReentrant := by
  have hcontracts : m'.context.contracts = targets frames := by
    rw [hc]
    exact h.stack
  refine ⟨hcontracts ▸ h.nodup, fun contract => ?_, ?_⟩
  · rw [hcontracts, hc]
    exact h.entered contract
  · have hlength : m'.context.stack.length = frames.length := by
      have hl := congrArg List.length hcontracts
      rwa [CallContext.contracts, List.length_map, targets, List.length_map] at hl
    rw [hlength]
    -- all but the innermost contract are known to exist
    have hdeployed : targets frames.tail ⊆ m'.state.contracts.keys := by
      intro contract hmem
      obtain ⟨f, hf, rfl⟩ := List.mem_map.1 hmem
      have hlive := h.calls.live f hf
      have hgrows := (h.grows f (List.mem_of_mem_tail hf)).trans hg
      exact Std.ExtTreeMap.mem_keys.2 (hlive.contains hgrows)
    have hnodup : (targets frames.tail).Nodup := by
      rw [targets, List.map_tail]
      exact h.nodup.tail
    have hle := (List.subperm_of_subset hnodup hdeployed).length_le
    rw [Std.ExtTreeMap.length_keys, targets, List.length_map, List.length_tail] at hle
    omega

/-! ## Watched calls -/

/-- Run an action in the end, whether a computation has failed or not. -/
def afterwards {α : Type} (p : Kernel α) (q : Kernel Unit) : Kernel α := fun m =>
  match p m with
  | .ok a m' => (q >>= fun _ => pure a) m'
  | .error e m' => (q >>= fun _ => throw e) m'

theorem wp_afterwards {α : Type} {p : Kernel α} {q : Kernel Unit} {Q : α → Machine → Prop} :
    wp (afterwards p q) Q E m ↔ wp p (fun a m' => wp q (fun _ => Q a) E m')
      (fun e m' => wp q (fun _ => E e) E m') m := by
  cases hp : p m with
  | ok a m' =>
    have hq : afterwards p q m = (q >>= fun _ => pure a) m' := by simp only [afterwards, hp]
    rw [wp_of_ok hp, wp, hq]
    exact wp_bind
  | error e m' =>
    have hq : afterwards p q m = (q >>= fun _ => throw e) m' := by simp only [afterwards, hp]
    rw [wp_of_error hp, wp, hq]
    exact wp_bind

/-- Look at the context, and raise the alarm if it is not in order. -/
def watch (alarm : Kernel Unit) : Kernel Unit := do
  let m ← get
  onlyIf (¬m.NonReentrant) alarm

/-- Execute a call as `executeCall` does, and watch the context before it, when its frame is
    entered, and after it. -/
def watchedCall (env : Env) (alarm : Kernel Unit) : ℕ → ContractCall
  | 0, tx, msgSender => executeCall env 0 tx msgSender
  | depth + 1, tx, msgSender => do
    watch alarm
    afterwards (do
      let m ← get
      ensure (m.context.activeNonreentrantContracts.contains tx.target = false)
        .reentrancyViolation
      modify fun m => m.enter tx msgSender
      watch alarm
      andThen (callBody env (watchedCall env alarm depth) tx msgSender) Machine.leave)
      (watch alarm)

/-- Nothing is to be seen by watching. -/
theorem wp_watch {alarm : Kernel Unit} {Q : Unit → Machine → Prop} (h : m.NonReentrant)
    (hQ : Q () m) :
    wp (watch alarm) Q E m :=
  .get (wp_onlyIf.2 ⟨fun hn => absurd h hn, fun _ => hQ⟩)

theorem watch_pure (m : Machine) : watch (pure ()) m = .ok () m := by
  change (onlyIf (¬m.NonReentrant) (pure ()) : Kernel Unit) m = .ok () m
  unfold onlyIf
  split <;> rfl

/-- Watching without an alarm does nothing. -/
theorem watchedCall_pure (env : Env) (n : ℕ) : watchedCall env (pure ()) n = executeCall env n := by
  induction n with
  | zero => rfl
  | succ n ih =>
    have hwatch : watch (pure ()) = pure () := funext watch_pure
    have hafter {α : Type} (p : Kernel α) : afterwards p (pure ()) = p := by
      funext m
      unfold afterwards
      cases p m <;> rfl
    funext tx msgSender
    simp only [watchedCall, executeCall, frameCall, hwatch, hafter, ih]
    rfl

/-- Give up, with a mark in the log. -/
def giveUp : Kernel Unit := do
  modify fun m => { m with log := { m.log with exhausted := true } }
  throw .reentrancyViolation

theorem Agrees.giveUp (p : Kernel Unit) : Agrees p Detta.giveUp := fun _ => .inl ⟨_, _, rfl, rfl⟩

theorem Agrees.watch (alarm : Kernel Unit) :
    Agrees (Detta.watch alarm) (Detta.watch Detta.giveUp) :=
  .step fun _ => .onlyIf (.giveUp alarm)

/-- Watching takes no mark away. -/
theorem Agrees.afterwards {α : Type} {p p' : Kernel α} (h : Agrees p p') (alarm : Kernel Unit) :
    Agrees (Detta.afterwards p (Detta.watch alarm))
      (Detta.afterwards p' (Detta.watch Detta.giveUp)) := by
  intro m
  rcases h m with ⟨e, m', hp, hm⟩ | he
  · left
    simp only [Detta.afterwards, hp]
    change ∃ e' m'', EStateM.bind (Detta.onlyIf (¬m'.NonReentrant) Detta.giveUp) _ m' = _ ∧ _
    unfold Detta.onlyIf
    split
    next => exact ⟨_, _, rfl, rfl⟩
    next => exact ⟨e, m', rfl, hm⟩
  · simp only [Detta.afterwards, he]
    cases p' m with
    | ok a m' => exact (Agrees.watch alarm).bind (fun _ => .refl _) m'
    | error e m' => exact (Agrees.watch alarm).bind (fun _ => .refl _) m'

/-- A watched run does the same, unless there is something to see. -/
theorem agrees_watchedCall (env : Env) (alarm : Kernel Unit) (n : ℕ) (tx : Transaction)
    (msgSender : Principal) :
    Agrees (watchedCall env alarm n tx msgSender) (watchedCall env giveUp n tx msgSender) := by
  induction n generalizing tx msgSender with
  | zero => exact .refl _
  | succ n ih =>
    refine (Agrees.watch alarm).bind fun _ => Agrees.afterwards ?_ alarm
    refine .step fun _ => .step fun _ => .step fun _ => (Agrees.watch alarm).bind fun _ => ?_
    exact .leave (.callBody ih tx msgSender env)

/-! ## What is seen -/

/-- In a running transaction there is nothing to see, so nothing is given up. -/
theorem wp_watchedCall (env : Env) {outer : Transaction} {s : DeTTaState} {n : ℕ}
    {frames : List Frame} {tx : Transaction} {msgSender : Principal} (hr : Running outer frames m)
    (hb : Bounded outer s n frames m) (hc : Calls outer m.state tx msgSender frames) :
    wp (watchedCall env giveUp n tx msgSender)
      (fun _ m' => (Running outer frames m' ∧ Bounded outer s n frames m' ∧
        m'.context = m.context) ∧ Grows m.state m'.state)
      (fun _ m' => m'.context = m.context ∧ Grows m.state m'.state ∧ m'.log.exhausted = false)
      m := by
  have inv := callInvariant_bounded env outer s
  induction n generalizing frames m tx msgSender with
  | zero =>
    have hE := inv.exhaust hr hb hc
    exact absurd hE.2 (by simp)
  | succ n ih =>
    have hseen := hr.nonReentrant rfl (.refl _)
    refine wp_bind.2 (wp_watch hseen (wp_afterwards.2 (.get (wp_bind.2 ?_))))
    refine wp_ensure.2 ⟨fun ht => ?_, fun _ => wp_watch hseen ⟨rfl, .refl _, hb.exhausted⟩⟩
    have hfree : tx.target ∉ targets frames := fun hmem => by
      rw [(hr.entered _).2 hmem] at ht
      cases ht
    have hexit := exit_context_enter ht msgSender
    have hr' := hr.enter hc hfree
    have hb' := inv.enter hr hb hc hfree
    refine .modify (wp_bind.2 (wp_watch (hr'.nonReentrant rfl (.refl _)) ?_))
    refine wp_andThen.2 ?_
    let f : Frame := ⟨tx, msgSender, m.state⟩
    let I : Machine → Prop := fun m' => Running outer (f :: frames) m' ∧
      Bounded outer s n (f :: frames) m' ∧ m'.context = (m.enter tx msgSender).context
    have hfail {m' : Machine} (h : I m') : m'.context = (m.enter tx msgSender).context ∧
        Grows m.state m'.state ∧ m'.log.exhausted = false :=
      ⟨h.2.2, h.1.grows f List.mem_cons_self, h.2.1.exhausted⟩
    have body : wp (callBody env (watchedCall env giveUp n) f.tx f.msgSender) (fun _ => I)
        (fun _ m' => m'.context = (m.enter tx msgSender).context ∧ Grows m.state m'.state ∧
          m'.log.exhausted = false) (m.enter tx msgSender) := by
      refine Handles.callBody (I := I) (fun hlive => ?_) env ⟨hr', hb', rfl⟩ rfl
        fun _ => hfail ⟨hr', hb', rfl⟩
      exact
        { own := fun h hs => ⟨h.1.withState hs.grows, inv.own h.1 hlive h.2.1 hs, h.2.2⟩
          attempt := fun _ h ha => ⟨h.2.2, (hfail h).2.1.trans ha.grows, h.2.1.exhausted⟩
          fail := fun _ _ h => hfail h
          spawn := fun {m₁ _ _} h hs => (ih h.1 h.2.1 ⟨hlive, hs⟩).mono
            (fun _ _ h' => ⟨⟨h'.1.1, h'.1.2.1, h'.1.2.2.trans h.2.2⟩, h'.2⟩)
            fun _ _ h' => ⟨h'.1.trans h.2.2, (hfail h).2.1.trans h'.2.1, h'.2.2⟩ }
    refine body.mono (fun _ m' h => ?_) fun _ m' h => ?_
    · have hleave := h.1.leave
      exact wp_watch (hleave.nonReentrant rfl (.refl _))
        ⟨⟨hleave, h.2.1.leave, (congrArg CallContext.exit h.2.2).trans hexit⟩, (hfail h).2.1⟩
    · have hcontext := (congrArg CallContext.exit h.1).trans hexit
      exact wp_watch (hr.nonReentrant hcontext h.2.1)
        ⟨hcontext, h.2.1, (exhausted_leave m').trans h.2.2⟩

/-- A transaction whose calls are watched. -/
def watchedTransaction (env : Env) (alarm : Kernel Unit) (s : DeTTaState) (tx : Transaction) :
    EStateM.Result ExecutionError Machine ReturnValue :=
  watchedCall env alarm (callDepth s) tx tx.sender ⟨s, CallContext.new tx.sender, CallLog.empty⟩

/-- No alarm is ever raised. -/
theorem watchedTransaction_eq (env : Env) (alarm : Kernel Unit) (s : DeTTaState)
    (tx : Transaction) :
    watchedTransaction env alarm s tx = watchedTransaction env giveUp s tx := by
  have hinit : Bounded tx s (callDepth s) [] ⟨s, CallContext.new tx.sender, CallLog.empty⟩ :=
    ⟨.refl s, rfl, aspectsIn_init, by simp, rooms_init s tx⟩
  have hrun := wp_watchedCall env (.init tx s tx.sender) hinit ⟨rfl, rfl⟩
  rcases agrees_watchedCall env alarm (callDepth s) tx tx.sender
    ⟨s, CallContext.new tx.sender, CallLog.empty⟩ with ⟨e, m', he, hm⟩ | he
  · have hfalse := ((wp_of_error he).1 hrun).2.2
    rw [hm] at hfalse
    cases hfalse
  · exact he

/-- While a transaction runs, no contract is on the stack twice, the active contracts are those
    on the stack, and there are at most as many frames as contracts, and one: no alarm is raised
    by anyone who watches. Every call restores the context, also if it fails. And the depth to
    which calls are unrolled does not matter: it is never reached, and with any more of it a
    transaction does the same. -/
theorem reentrancy_free (env : Env) (s : DeTTaState) (tx : Transaction) :
    (∀ alarm, watchedTransaction env alarm s tx = runTransaction env s tx) ∧
    (∀ n tx' msgSender m, (finalMachine (executeCall env n tx' msgSender m)).context = m.context) ∧
    (finalMachine (runTransaction env s tx)).log.exhausted = false ∧
    ∀ n, callDepth s ≤ n → executeCall env n tx tx.sender
      ⟨s, CallContext.new tx.sender, CallLog.empty⟩ = runTransaction env s tx := by
  have hbounded := (recoverable_runTransaction env s tx).2
  refine ⟨fun alarm => ?_, fun n tx' msgSender m => ?_, hbounded, fun n hn => ?_⟩
  · rw [watchedTransaction_eq env alarm, ← watchedTransaction_eq env (pure ()),
      watchedTransaction, watchedCall_pure]
    rfl
  · exact finalMachine_of_wp ((wp_context_executeCall env n tx' msgSender m).mono
      (fun _ _ h => h.1) fun _ _ h => h)
  · rcases agrees_executeCall env hn tx tx.sender
      ⟨s, CallContext.new tx.sender, CallLog.empty⟩ with ⟨e, m', he, hm⟩ | he
    · rw [runTransaction, he] at hbounded
      rw [finalMachine, hm] at hbounded
      cases hbounded
    · exact he

end Detta
