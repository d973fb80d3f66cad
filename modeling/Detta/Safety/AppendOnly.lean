import Detta.Safety.LightClient

/-!
# The history of a chain

Events and outgoing messages are appended and never changed, and what has been used up stays
used up (`Extends`). A transaction that fails is put back to the state that it started in, so
what its calls have appended is gone, but nothing that was there before.

* `extends_transaction`, `extends_runOps`: every transaction, and every run, extends the history.
* `Indexed`: in every state of a chain, events are numbered by their positions.
-/

namespace Detta

/-- What was there is there still, and new events are numbered by their positions. -/
structure Extends (s s' : DeTTaState) : Prop where
  events : s.events <+: s'.events
  numbered : ∀ i event, s.events.length ≤ i → s'.events[i]? = some event →
    event.index = Word.ofNat 64 i
  crossShardOutbox : s.crossShardOutbox <+: s'.crossShardOutbox
  usedNonces : ∀ key, s.usedNonces.contains key = true → s'.usedNonces.contains key = true
  usedCertificateNonces : ∀ nonce, s.usedCertificateNonces.contains nonce = true →
    s'.usedCertificateNonces.contains nonce = true
  outboundMessageIds : ∀ id, s.outboundMessageIds.contains id = true →
    s'.outboundMessageIds.contains id = true

/-- Events are numbered by their positions. -/
def Indexed (s : DeTTaState) : Prop :=
  ∀ i event, s.events[i]? = some event → event.index = Word.ofNat 64 i

/-- The parts of a state that make up its history. -/
def DeTTaState.history (s : DeTTaState) :=
  (s.events, s.crossShardOutbox, s.usedNonces, s.usedCertificateNonces, s.outboundMessageIds)

namespace Extends

variable {s s' s'' : DeTTaState}

theorem of_history_eq (h : s'.history = s.history) : Extends s s' := by
  simp only [DeTTaState.history, Prod.mk.injEq] at h
  obtain ⟨he, ho, hn, hc, hi⟩ := h
  refine ⟨he ▸ List.prefix_rfl, fun i event hle hevent => ?_, ho ▸ List.prefix_rfl,
    fun _ hk => hn ▸ hk, fun _ hk => hc ▸ hk, fun _ hk => hi ▸ hk⟩
  rw [he, List.getElem?_eq_none hle] at hevent
  cases hevent

theorem refl (s : DeTTaState) : Extends s s := of_history_eq rfl

/-- What stands at a position stays there. -/
theorem getElem?_events (h : Extends s s') {i : ℕ} {event : Event}
    (hevent : s.events[i]? = some event) : s'.events[i]? = some event := by
  obtain ⟨new, hnew⟩ := h.events
  rw [← hnew, List.getElem?_append_left (List.getElem?_eq_some_iff.1 hevent).1, hevent]

theorem getElem?_crossShardOutbox (h : Extends s s') {i : ℕ} {message : CrossShardMessage}
    (hmessage : s.crossShardOutbox[i]? = some message) :
    s'.crossShardOutbox[i]? = some message := by
  obtain ⟨new, hnew⟩ := h.crossShardOutbox
  rw [← hnew, List.getElem?_append_left (List.getElem?_eq_some_iff.1 hmessage).1, hmessage]

theorem trans (h : Extends s s') (h' : Extends s' s'') : Extends s s'' where
  events := List.IsPrefix.trans h.events h'.events
  numbered i event hle hevent := by
    by_cases hi : s'.events.length ≤ i
    · exact h'.numbered i event hi hevent
    · -- the event was there already in between
      have hbetween := List.getElem?_eq_getElem (Nat.lt_of_not_le hi)
      have hsame := (h'.getElem?_events hbetween).symm.trans hevent
      exact h.numbered i event hle (hbetween.trans hsame)
  crossShardOutbox := List.IsPrefix.trans h.crossShardOutbox h'.crossShardOutbox
  usedNonces key hk := h'.usedNonces key (h.usedNonces key hk)
  usedCertificateNonces nonce hn := h'.usedCertificateNonces nonce (h.usedCertificateNonces nonce hn)
  outboundMessageIds id hi := h'.outboundMessageIds id (h.outboundMessageIds id hi)

theorem indexed (h : Extends s s') (hs : Indexed s) : Indexed s' := by
  intro i event hevent
  by_cases hi : s.events.length ≤ i
  · exact h.numbered i event hi hevent
  · have hbefore := List.getElem?_eq_getElem (Nat.lt_of_not_le hi)
    exact hs i event (hbefore.trans ((h.getElem?_events hbefore).symm.trans hevent))

end Extends

/-! ## Steps -/

variable {s s' : DeTTaState}

/-- An event gets the next number. -/
theorem extends_event (s : DeTTaState) (contract : ContractId) (txHash : TxHash)
    (payload : EventPayload) :
    Extends s { s with
      events := s.events ++ [⟨contract, txHash, Word.ofNat 64 s.events.length, payload⟩] } where
  events := List.prefix_append _ _
  numbered i event hle hevent := by
    rw [List.getElem?_append_right hle] at hevent
    obtain ⟨hi, rfl⟩ := List.getElem?_eq_some_iff.1 hevent
    have hlast : i = s.events.length := by
      rw [List.length_singleton] at hi
      omega
    subst hlast
    simp
  crossShardOutbox := List.prefix_rfl
  usedNonces _ h := h
  usedCertificateNonces _ h := h
  outboundMessageIds _ h := h

theorem Attempt.extends_history {f : Frame} {token : ContractId} {asset : AssetId}
    (h : Attempt f s token asset s') : Extends s s' := by
  obtain ⟨_, rfl⟩ := h.onlyStorage
  exact .of_history_eq rfl

theorem history_puts (s : DeTTaState) (entries : List (StateKey × Amount)) :
    (s.puts entries).history = s.history := by
  rw [DeTTaState.puts_eq]
  rfl

theorem OwnStep.extends_history {f : Frame} (h : OwnStep f s s') : Extends s s' := by
  cases h with
  | event payload => exact extends_event s _ _ payload
  | tokens h => exact h.extends_history
  | certificate nonce =>
    refine ⟨List.prefix_rfl, (Extends.refl s).numbered, List.prefix_rfl, fun _ h => h, ?_,
      fun _ h => h⟩
    exact fun other h => Table.contains_insert_set.2 (.inr h)
  | outbox message =>
    refine ⟨List.prefix_rfl, (Extends.refl s).numbered, List.prefix_append _ _, fun _ h => h,
      fun _ h => h, ?_⟩
    exact fun other h => Table.contains_insert_set.2 (.inr h)
  | deploy => exact .of_history_eq (history_puts _ _)
  | put | approve | permit | consume | accountKey | admin | pause | schedule | govern | module =>
    exact .of_history_eq rfl

theorem DeployStep.extends_history {env : Env} (h : DeployStep env s s') : Extends s s' := by
  cases h with
  | contract => exact .of_history_eq (history_puts _ _)
  | _ => exact .of_history_eq rfl

theorem extends_useNonce (s : DeTTaState) (tx : Transaction) : Extends s (s.useNonce tx) := by
  refine ⟨List.prefix_rfl, (Extends.refl s).numbered, List.prefix_rfl, ?_, fun _ h => h,
    fun _ h => h⟩
  exact fun other h => Table.contains_insert_set.2 (.inr h)

/-! ## Runs -/

/-- All along a transaction, the history is extended. -/
theorem callInvariant_extends (env : Env) (outer : Transaction) (s : DeTTaState) :
    CallInvariant env outer (fun _ _ m => Extends s m.state) fun _ => True where
  enter _ hI _ _ := hI
  own _ _ hI hs := hI.trans hs.extends_history
  attempt _ _ _ _ := trivial
  leave _ _ hI := hI
  fail _ _ := trivial
  abort _ := trivial
  exhaust _ _ _ := trivial

theorem extends_transaction (env : Env) (s : DeTTaState) (tx : Transaction) :
    Extends s (applyTransaction env s tx).1 :=
  (callInvariant_extends env tx s).keeps (fun _ => extends_useNonce s tx) (.refl s)
    (extends_useNonce s tx) fun _ _ _ h => h

theorem extends_op (env : Env) (s : DeTTaState) (op : Op) : Extends s (op.apply env s) := by
  refine Op.apply_keeps (fun _ _ h => h.trans (.of_history_eq rfl)) (.refl s) (fun d _ => ?_)
    fun p _ h => h.trans (extends_transaction env p.1 p.2)
  exact applyDeployment_keeps (.refl s) (fun h hstep => h.trans hstep.extends_history) d

theorem extends_runOps (env : Env) (s : DeTTaState) (ops : List Op) :
    Extends s (runOps env s ops) := by
  induction ops generalizing s with
  | nil => exact .refl s
  | cons op ops ih => exact (extends_op env s op).trans (ih _)

theorem Reachable.indexed {env : Env} (h : Reachable env s) : Indexed s := by
  induction h with
  | new chainId => exact fun i event h => by cases h
  | apply op _ ih => exact (extends_op env _ op).indexed ih

theorem history_append_only (env : Env) :
    (∀ s tx, Extends s (applyTransaction env s tx).1) ∧
    (∀ s block, (applyBlock env s block).2 = none → Extends s (applyBlock env s block).1) ∧
    (∀ s, Reachable env s → Indexed s) ∧
    ∀ (s : DeTTaState) (ops : List Op) (i : ℕ),
      (∀ event, s.events[i]? = some event →
        ∃ p, (runOps env s ops).eventProof env.hashing i = some p ∧ p.event = event ∧
          p.proof.root = (runOps env s ops).eventRoot env.hashing ∧
          p.verify env.hashing = true) ∧
      ∀ message, s.crossShardOutbox[i]? = some message →
        ∃ p, (runOps env s ops).outboxMessageProof env.hashing i = some p ∧
          p.message = message ∧ p.proof.root = (runOps env s ops).outboxRoot env.hashing ∧
          p.verify env.hashing = true := by
  refine ⟨extends_transaction env, fun s block _ => extends_op env s (.block block),
    fun _ => Reachable.indexed, fun s ops i => ⟨fun event hevent => ?_, fun message hmessage => ?_⟩⟩
  · exact eventProof_complete _ ((extends_runOps env s ops).getElem?_events hevent)
  · exact outboxMessageProof_complete _
      ((extends_runOps env s ops).getElem?_crossShardOutbox hmessage)

end Detta
