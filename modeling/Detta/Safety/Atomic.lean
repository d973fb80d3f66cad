import Detta.Safety.Call

/-!
# Transactions are all or nothing

A call never nests deeper than it may, and never changes what a failed transaction
does not put back. So a transaction is committed, or leaves nothing behind but its
used nonce.
-/

namespace Detta

open Kernel

/-! ## How deep calls nest -/

/-- The new aspect contract that a transaction deploys, if it does. -/
def newAspects (outer : Transaction) : Finset ContractId :=
  match outer.method, (outer.args[0]? : Option Argument) with
  | .deployAspectContract, some (.text contract) => {contract}
  | _, _ => ∅

/-- All identifiers that aspect contracts may have during a transaction. -/
def aspectIds (outer : Transaction) (s : DeTTaState) : Finset ContractId :=
  s.contracts.keys.toFinset ∪ newAspects outer

/-- Those of them that are not active. -/
def idle (ids : Finset ContractId) (frames : List Frame) : ℕ :=
  (ids.filter (· ∉ targets frames)).card

/-- Aspect contracts may call native contracts and each other, native contracts call
    only aspect contracts. -/
def Method.reach : Method → ℕ
  | .other _ => 2
  | _ => 1

/-- There is room for the calls that the innermost frame may lead to. A `transferFrom`
    makes no call. -/
def Room (ids : Finset ContractId) (outer : Transaction) (n : ℕ) : List Frame → Prop
  | [] => 2 * ids.card + outer.method.reach + 1 ≤ n
  | f :: frames => f.tx.method ≠ .transferFrom → 2 * idle ids (f :: frames) + f.tx.method.reach ≤ n

/-- There is room in every frame that is active. -/
def Rooms (ids : Finset ContractId) (outer : Transaction) (n : ℕ) : List Frame → Prop
  | [] => Room ids outer n []
  | f :: frames => Room ids outer n (f :: frames) ∧ Rooms ids outer (n + 1) frames

variable {frames : List Frame} {ids : Finset ContractId}

theorem Rooms.room {outer : Transaction} {n : ℕ}
    (h : Rooms ids outer n frames) : Room ids outer n frames := by
  cases frames with
  | nil => exact h
  | cons f frames => exact h.1

theorem idle_le_card (ids : Finset ContractId) (frames : List Frame) : idle ids frames ≤ ids.card :=
  Finset.card_filter_le _ _

theorem filter_targets_cons_subset (ids : Finset ContractId) (frames : List Frame) (f : Frame) :
    ids.filter (· ∉ targets (f :: frames)) ⊆ ids.filter (· ∉ targets frames) := fun _ hc =>
  have ⟨hi, hn⟩ := Finset.mem_filter.1 hc
  Finset.mem_filter.2 ⟨hi, fun hm => hn (List.mem_cons_of_mem _ hm)⟩

/-- A frame on an idle contract makes one less idle. -/
theorem idle_cons_lt {f : Frame} (hi : f.tx.target ∈ ids)
    (ht : f.tx.target ∉ targets frames) : idle ids (f :: frames) < idle ids frames := by
  refine Finset.card_lt_card (Finset.ssubset_iff_of_subset ?_ |>.2 ⟨f.tx.target, ?_, ?_⟩)
  · exact filter_targets_cons_subset ids frames f
  · exact Finset.mem_filter.2 ⟨hi, ht⟩
  · simp [targets]

theorem idle_cons_le (ids : Finset ContractId) (frames : List Frame) (f : Frame) :
    idle ids (f :: frames) ≤ idle ids frames :=
  Finset.card_le_card (filter_targets_cons_subset ids frames f)

/-- All aspect contracts of the state are among the given ones. -/
def AspectsIn (ids : Finset ContractId) (s : DeTTaState) : Prop :=
  ∀ contract record, s.contracts[contract]? = some record → record.kind.isAspectModule = true →
    contract ∈ ids

/-- Native methods have names of their own. -/
theorem reach_of_parsePolicyMethod {name : String} {method : Method}
    (h : parsePolicyMethod name = some method) : method.reach = 1 := by
  unfold parsePolicyMethod at h
  split at h <;> first | (cases h; rfl) | cases h

/-- What holds all along a transaction that starts in `s`. -/
structure Bounded (outer : Transaction) (s : DeTTaState) (n : ℕ) (frames : List Frame)
    (m : Machine) : Prop where
  grows : Grows s m.state
  exhausted : m.log.exhausted = false
  aspects : AspectsIn (aspectIds outer s) m.state
  deploys : ∀ f ∈ frames, f.tx.method = .deployAspectContract → f.tx = outer
  rooms : Rooms (aspectIds outer s) outer n frames

section Bounded

variable {outer : Transaction} {s : DeTTaState}

variable {f : Frame} {tx : Transaction} {msgSender : Principal} {ids : Finset ContractId}

theorem aspectsIn_init : AspectsIn (aspectIds outer s) s := by
  intro contract record hr _
  refine Finset.mem_union_left _ (List.mem_toFinset.2 (Std.ExtTreeMap.mem_keys.2 ?_))
  exact Std.ExtTreeMap.mem_iff_isSome_getElem?.2 (by simp [hr])

theorem AspectsIn.insert (h : AspectsIn ids s) {contract : ContractId} {record : ContractRecord}
    (hn : record.kind.isAspectModule = true → contract ∈ ids) :
    AspectsIn ids (s.withContract contract record) := by
  intro c r hr hk
  rcases Table.of_getElem?_insert hr with ⟨rfl, rfl⟩ | hr
  · exact hn hk
  · exact h c r hr hk

/-- New aspect contracts have the identifier that the transaction gives. -/
theorem AspectsIn.own {s₁ s₂ : DeTTaState} (h : AspectsIn (aspectIds outer s) s₁)
    (hf : f.tx.method = .deployAspectContract → f.tx = outer) (hs : OwnStep f s₁ s₂) :
    AspectsIn (aspectIds outer s) s₂ := by
  cases hs with
  | tokens ha =>
    obtain ⟨_, rfl⟩ := ha.onlyStorage
    exact h
  | govern ho hk => exact h.insert fun hnew => h _ _ ho (hk ▸ hnew)
  | @deploy contract record entries hn hd _ =>
    have hnew : AspectsIn (aspectIds outer s)
        (s₁.withContract contract record) := by
      refine h.insert fun hnew => ?_
      cases hd with
      | token _ hk | ammPool _ hk => simp [hk, ContractKind.isAspectModule] at hnew
      | aspectModule hm ha =>
        refine Finset.mem_union_right _ ?_
        have ho := hf hm
        simp [newAspects, ← ho, hm, ha]
    intro c r hr
    rw [DeTTaState.contracts_puts] at hr
    exact hnew c r hr
  | _ => exact h

/-- A call of an aspect contract has room, and a call of a native one from an aspect
    contract too. -/
theorem Room.enter {n : ℕ} {frames : List Frame} {s₁ : DeTTaState} (start : DeTTaState)
    (h : Room ids outer (n + 1) (f :: frames)) (ha : AspectsIn ids s₁)
    (hs : Spawns f s₁ tx msgSender) (ht : tx.target ∉ targets (f :: frames)) :
    Room ids outer n (⟨tx, msgSender, start⟩ :: f :: frames) := by
  simp only [Room] at h ⊢
  -- calling an idle aspect contract leaves one less, and two levels more are free
  have haspect : f.tx.method ≠ .transferFrom → tx.target ∈ ids →
      2 * idle ids (⟨tx, msgSender, start⟩ :: f :: frames) + 2 ≤ n := by
    intro hm hi
    have hlt := idle_cons_lt (f := ⟨tx, msgSender, start⟩) hi ht
    have hroom := h hm
    have hreach : 1 ≤ f.tx.method.reach := by unfold Method.reach; split <;> omega
    omega
  cases hs with
  | settle _ _ _ hm hr hk =>
    exact fun _ => haspect (by rintro h; simp [h, Method.settles] at hm) (ha _ _ hr hk)
  | route _ hm => exact fun hne => absurd rfl hne
  | setUp _ hm hr hk => exact fun _ => haspect (by simp [hm]) (ha _ _ hr hk)
  | @host contract record name method projection args hm hr hh hn =>
    intro _
    unfold hostCallMethodForTarget at hh
    split at hh
    next hk =>
      cases hh
      exact haspect (by simp [hm]) (ha _ _ hr hk)
    next =>
      have hroom := h (by simp [hm])
      have hle := idle_cons_le ids (f :: frames)
        ⟨hostCallTx f.tx contract method args, f.tx.target, start⟩
      have hreach := reach_of_parsePolicyMethod hh
      have hf : f.tx.method.reach = 2 := by rw [hm]; rfl
      simp only [hostCallTx] at hle ⊢
      omega

/-- Only the transaction itself deploys aspect contracts. -/
theorem Spawns.method_ne_deploy (h : Spawns f s tx msgSender) :
    tx.method ≠ .deployAspectContract := by
  cases h with
  | settle | route | setUp => simp [settlementTx, erc20Transfer, routedTx, initializerTx]
  | host _ _ _ _ hh hn =>
    intro hm
    unfold hostCallMethodForTarget at hh
    split at hh
    next => cases hh; cases hm
    next hk =>
      have := hn (by simpa using hk)
      simp only [hostCallTx] at hm
      simp [hm, nativeMethodArgKinds] at this

theorem Spawns.method_ne_transferFrom (h : Spawns f s tx msgSender) :
    f.tx.method ≠ .transferFrom := by
  cases h with
  | settle _ _ _ hm => rintro h; simp [h, Method.settles] at hm
  | route _ hm | setUp _ hm | host _ _ hm => simp [hm]

end Bounded

/-! ## The transaction -/

/-- What holds after a failure: nothing is lost that is not put back. -/
def Recoverable (s : DeTTaState) (m : Machine) : Prop :=
  Grows s m.state ∧ m.log.exhausted = false

theorem exhausted_leave (m : Machine) : m.leave.log.exhausted = m.log.exhausted := by
  unfold Machine.leave CallLog.leave
  cases m.log.active <;> rfl

theorem Bounded.leave {outer : Transaction} {s : DeTTaState} {n : ℕ} {f : Frame} {m : Machine}
    (h : Bounded outer s n (f :: frames) m) : Bounded outer s (n + 1) frames m.leave :=
  ⟨h.grows, (exhausted_leave m).trans h.exhausted, h.aspects,
    fun g hg => h.deploys g (List.mem_cons_of_mem _ hg), h.rooms.2⟩

/-- Steps, calls and returns stay within the bounds. -/
theorem callInvariant_bounded (env : Env) (outer : Transaction) (s : DeTTaState) :
    CallInvariant env outer (Bounded outer s) (Recoverable s) where
  enter {n frames m tx msgSender} hr hI hc ht := by
    refine ⟨hI.grows, hI.exhausted, hI.aspects, fun f hf hm => ?_, ?_⟩
    · rcases List.mem_cons.1 hf with rfl | hf
      · cases frames with
        | nil => exact hc.1
        | cons f frames => exact absurd hm hc.2.method_ne_deploy
      · exact hI.deploys f hf hm
    · refine ⟨?_, hI.rooms⟩
      cases frames with
      | nil =>
        obtain ⟨rfl, rfl⟩ := hc
        have hroom := hI.rooms.room
        have hle := idle_le_card (aspectIds tx s) [⟨tx, tx.sender, m.state⟩]
        simp only [Room] at hroom ⊢
        omega
      | cons f frames => exact hI.rooms.room.enter m.state hI.aspects hc.2 ht
  own hr _ hI hs :=
    ⟨hI.grows.trans hs.grows, hI.exhausted,
      hI.aspects.own (hI.deploys _ List.mem_cons_self) hs, hI.deploys, hI.rooms⟩
  attempt _ _ hI ha := ⟨hI.grows.trans ha.grows, hI.exhausted⟩
  leave _ _ hI := hI.leave
  fail _ hI := ⟨hI.grows, hI.exhausted⟩
  abort hE := ⟨hE.1, (exhausted_leave _).trans hE.2⟩
  exhaust {frames m tx msgSender} _ hI hc := by
    have hroom := hI.rooms.room
    cases frames with
    | nil => simp [Room] at hroom
    | cons f frames =>
      have := hroom hc.2.method_ne_transferFrom
      unfold Method.reach at this
      split at this <;> omega

/-- The identifiers that matter are not many more than the contracts. -/
theorem rooms_init (s : DeTTaState) (tx : Transaction) :
    Rooms (aspectIds tx s) tx (callDepth s) [] := by
  have hkeys : s.contracts.keys.toFinset.card ≤ s.contracts.size :=
    (List.toFinset_card_le _).trans_eq Std.ExtTreeMap.length_keys
  have hunion := Finset.card_union_le s.contracts.keys.toFinset (newAspects tx)
  simp only [Rooms, Room, callDepth, aspectIds]
  unfold newAspects at hunion ⊢
  split at hunion
  next hm _ =>
    simp only [hm, Method.reach, Finset.card_singleton] at hunion ⊢
    omega
  next =>
    have hreach : tx.method.reach ≤ 2 := by unfold Method.reach; split <;> omega
    simp only [Finset.card_empty] at hunion
    omega

/-- The machine that a call ends in. -/
def finalMachine {α : Type} : EStateM.Result ExecutionError Machine α → Machine
  | .ok _ m => m
  | .error _ m => m

/-- What is true of a run is true of where it ends. -/
theorem finalMachine_of_wp {α : Type} {p : Kernel α} {P : Machine → Prop} {m : Machine}
    (h : wp p (fun _ => P) (fun _ => P) m) : P (finalMachine (p m)) := by
  unfold wp at h
  unfold finalMachine
  cases hp : p m <;> simp only [hp] at h <;> exact h

/-- A transaction stays within its bounds, and is recoverable. -/
theorem recoverable_runTransaction (env : Env) (s : DeTTaState) (tx : Transaction) :
    Recoverable s (finalMachine (runTransaction env s tx)) := by
  refine finalMachine_of_wp ?_
  have hinit : Bounded tx s (callDepth s) [] ⟨s, CallContext.new tx.sender, CallLog.empty⟩ :=
    ⟨.refl s, rfl, aspectsIn_init, by simp, rooms_init s tx⟩
  exact ((callInvariant_bounded env tx s).run hinit).mono
    (fun _ _ h => ⟨h.1.2.grows, h.1.2.exhausted⟩) fun _ _ h => h

/-- What is not put back has not changed. -/
theorem restore_eq {s s' : DeTTaState} (h : Grows s s') : s'.restore s = s := by
  obtain ⟨h1, h2, h3, h4, h5, -, -⟩ := h
  cases s
  cases s'
  simp_all [DeTTaState.restore]

theorem rejection_eq_none_iff {s : DeTTaState} {tx : Transaction} : rejection s tx = none ↔
    tx.chainId = s.chainId ∧ tx.signatureOk = true ∧
      (∀ height ∈ tx.validUntilHeight, s.height ≤ height) ∧
      s.usedNonces.contains ⟨tx.sender, tx.nonce⟩ = false := by
  unfold rejection
  split_ifs <;> simp_all [Option.any_eq_true, Word.le_def, Word.lt_def]
  exact Bool.eq_false_iff.2 ‹_›

/-- The outcomes of a transaction: the state in which its call has ended, the state
    before it, or that state with a nonce used up. -/
theorem applyTransaction_cases (env : Env) (s : DeTTaState) (tx : Transaction) :
    (Commits env s tx ∧ ∃ value m, runTransaction env (s.useNonce tx) tx = .ok value m ∧
      (applyTransaction env s tx).1 = m.state ∧ callFrames env s tx = m.log.finished) ∨
    ((applyTransaction env s tx).2.status = .rejected ∧ (applyTransaction env s tx).1 = s) ∨
    ((applyTransaction env s tx).2.status = .reverted ∧
      s.usedNonces.contains ⟨tx.sender, tx.nonce⟩ = false ∧
      (applyTransaction env s tx).1 = s.useNonce tx) := by
  have hrun := recoverable_runTransaction env (s.useNonce tx) tx
  unfold Commits callFrames applyTransaction
  split
  next error hrej => exact .inr (.inl ⟨rfl, rfl⟩)
  next hrej =>
    have hnonce := (rejection_eq_none_iff.1 hrej).2.2.2
    simp only
    split
    next => exact .inr (.inr ⟨rfl, hnonce, rfl⟩)
    next hunits =>
      cases hr : runTransaction env (s.useNonce tx) tx with
      | ok value m =>
        refine .inl ⟨rfl, value, m, rfl, rfl, ?_⟩
        rw [if_pos ⟨by simp [hrej], Nat.le_of_not_lt hunits⟩]
      | error e m =>
        rw [hr] at hrun
        exact .inr (.inr ⟨rfl, hnonce, restore_eq hrun.1⟩)

/-- A transaction is refused, and changes nothing, or its call leads on from where its nonce is
    used up. -/
theorem applyTransaction_grows (env : Env) (s : DeTTaState) (tx : Transaction) :
    (rejection s tx ≠ none ∧ (applyTransaction env s tx).2.status = .rejected ∧
      (applyTransaction env s tx).1 = s) ∨
    (rejection s tx = none ∧ (applyTransaction env s tx).2.status ≠ .rejected ∧
      Grows (s.useNonce tx) (applyTransaction env s tx).1) := by
  have hrun := recoverable_runTransaction env (s.useNonce tx) tx
  unfold applyTransaction
  split
  next error hrej => exact .inl ⟨by simp [hrej], rfl, rfl⟩
  next hrej =>
    refine .inr ⟨hrej, ?_⟩
    simp only
    split
    next => exact ⟨nofun, .refl _⟩
    next =>
      split
      next hr =>
        rw [hr] at hrun
        exact ⟨nofun, hrun.1⟩
      next hr =>
        rw [hr] at hrun
        exact ⟨nofun, restore_eq hrun.1 ▸ .refl _⟩

/-- A transaction is committed; or it is refused, and changes nothing; or it is reverted,
    and changes nothing but to use up its nonce, which was not used before. The depth to
    which calls are unrolled is never reached. -/
theorem applyTransaction_all_or_nothing (env : Env) (s : DeTTaState) (tx : Transaction) :
    ((applyTransaction env s tx).2.status = .committed ∨
      ((applyTransaction env s tx).2.status = .rejected ∧ (applyTransaction env s tx).1 = s) ∨
      ((applyTransaction env s tx).2.status = .reverted ∧
        s.usedNonces.contains ⟨tx.sender, tx.nonce⟩ = false ∧
        (applyTransaction env s tx).1 =
          { s with usedNonces := s.usedNonces.insert ⟨tx.sender, tx.nonce⟩ })) ∧
    (finalMachine (runTransaction env (s.useNonce tx) tx)).log.exhausted = false :=
  ⟨(applyTransaction_cases env s tx).imp_left And.left,
    (recoverable_runTransaction env (s.useNonce tx) tx).2⟩

end Detta
