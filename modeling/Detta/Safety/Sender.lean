import Detta.Safety.Authority

/-!
# Senders of nested calls

The frames of a transaction form stacks: the outermost frame is that of the transaction
itself, and every other one is a call that the frame below it makes (`Stack`).

In a nested call the sender of the transaction should stay the same, and the caller
should be the contract of the enclosing frame (`SenderSemantics`). Contracts and routers
that call as themselves keep to this. The kernel does not when it settles a payment in
aspect tokens, nor when it sets up a new contract: there the call is made in the name of
who pays, or of who deploys.
-/

namespace Detta

open Kernel

/-! ## The log -/

/-- The log keeps stacks, of frames that have returned and of the active ones, and forgets
    no frame. -/
structure StackLog (outer : Transaction) (m : Machine) : Prop where
  finished : ∀ r ∈ m.log.finished, Stack outer (r.frame :: r.callers)
  active : Stack outer (m.log.active.map (·.frame))
  callers : ∀ r ∈ m.log.finished, ∀ c ∈ r.callers,
    c ∈ m.log.active.map (·.frame) ∨ c ∈ m.log.finished.map (·.frame)

theorem StackLog.leave {outer : Transaction} {m : Machine} (h : StackLog outer m) :
    StackLog outer m.leave := by
  cases hl : m.log.active with
  | nil =>
    have hsame : m.leave.log = m.log := by simp [Machine.leave, CallLog.leave, hl]
    exact ⟨hsame ▸ h.finished, hsame ▸ h.active, hsame ▸ h.callers⟩
  | cons a rest =>
    have hstack : Stack outer (a.frame :: rest.map (·.frame)) := by simpa [hl] using h.active
    have hactive := frames_leave hl
    have hfinished := finished_leave hl
    refine ⟨fun r hr => ?_, hactive ▸ hstack.tail, fun r hr c hc => ?_⟩
    · rw [hfinished, List.mem_append, List.mem_singleton] at hr
      rcases hr with hr | rfl
      · exact h.finished r hr
      · exact hstack
    · rw [hfinished, List.mem_append, List.mem_singleton] at hr
      rw [hactive, hfinished, List.map_append]
      rcases hr with hr | rfl
      · rcases h.callers r hr c hc with hc | hc
        · simp only [hl, List.map_cons, List.mem_cons] at hc
          rcases hc with rfl | hc
          · exact .inr (List.mem_append_right _ (by simp))
          · exact .inl hc
        · exact .inr (List.mem_append_left _ hc)
      · exact .inl hc

/-- All along a transaction, the frames form stacks. -/
theorem callInvariant_stackLog (env : Env) (outer : Transaction) :
    CallInvariant env outer (fun _ _ m => StackLog outer m) (StackLog outer) where
  enter {_ frames m tx msgSender} hr hI hc ht := by
    have hactive := (hr.enter hc ht).active
    refine ⟨hI.finished, hactive ▸ .cons hr.calls hc, fun r hmem c hcaller => ?_⟩
    rw [hactive, List.mem_cons, ← hr.active]
    exact (hI.callers r hmem c hcaller).imp_left .inr
  own _ _ hI _ := ⟨hI.finished, hI.active, hI.callers⟩
  attempt _ _ hI _ := ⟨hI.finished, hI.active, hI.callers⟩
  leave _ _ hI := hI.leave
  fail _ hI := hI
  abort hE := hE.leave
  exhaust _ hI _ := ⟨hI.finished, hI.active, hI.callers⟩

theorem stackLog_init (s : DeTTaState) (tx : Transaction) :
    StackLog tx ⟨s, CallContext.new tx.sender, CallLog.empty⟩ :=
  ⟨by simp [CallLog.empty], .nil, by simp [CallLog.empty]⟩

/-- The frames of a transaction, with the frames that they are called from, are stacks. -/
theorem stack_of_mem_callFrames {env : Env} {s : DeTTaState} {tx : Transaction} :
    ∀ r ∈ callFrames env s tx, Stack tx (r.frame :: r.callers) :=
  callFrames_of_wp
    (((callInvariant_stackLog env tx).run (n := callDepth _) (stackLog_init _ tx)).mono
      (fun _ _ h => h.1.2.finished) fun _ _ h => h.finished)

namespace Stack

variable {outer : Transaction} {frames : List Frame}

end Stack

open Proxy

end Detta
