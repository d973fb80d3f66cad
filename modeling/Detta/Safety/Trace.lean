import Detta.Safety.History
import Detta.Safety.Silent

/-!
# What frames have done

The log of a committed transaction keeps the stretches of code of each frame. Every stretch
is made of steps of its frame (`exists_step_of_own_ne`), and nothing happens outside of the
stretches (`exists_own_of_ne`). So a change that a transaction makes is made by a step of one
of its frames.
-/

namespace Detta

open Kernel

/-! ## Steps of a frame -/

/-- A step of the code of a frame whose contract is live. -/
structure Frame.Step (f : Frame) (s s' : DeTTaState) : Prop where
  live : f.Live
  grows : Grows f.start s
  own : OwnStep f s s'

/-- Some steps of the code of a frame. -/
abbrev Frame.Steps (f : Frame) : DeTTaState → DeTTaState → Prop := Relation.ReflTransGen f.Step

/-- What a stretch changes is changed by one of its steps. -/
theorem Frame.Steps.exists_of_ne {α : Type} {f : Frame} {s s' : DeTTaState}
    {g : DeTTaState → α} (h : f.Steps s s') (hne : g s' ≠ g s) :
    ∃ s₁ s₂, f.Step s₁ s₂ ∧ g s₂ ≠ g s₁ ∧ Grows s₂ s' := by
  induction h with
  | refl => exact absurd rfl hne
  | @tail s₁ s₂ _ hstep ih =>
    by_cases he : g s₁ = g s
    · exact ⟨s₁, s₂, hstep, he ▸ hne, .refl _⟩
    · obtain ⟨s₃, s₄, hstep', hne', hg⟩ := ih he
      exact ⟨s₃, s₄, hstep', hne', hg.trans hstep.own.grows⟩

/-! ## Stretches -/

/-- The stretches that are over, of all frames. -/
def CallLog.stretches (log : CallLog) : List (Frame × DeTTaState × DeTTaState) :=
  log.finished.flatMap (fun r => r.own.map (r.frame, ·)) ++
    log.active.flatMap fun a => a.own.map (a.frame, ·)

section Stretches

variable {m : Machine} {tx : Transaction} {msgSender : Principal}
  {x : Frame × DeTTaState × DeTTaState}

/-- A call ends a stretch of the caller. -/
theorem mem_stretches_enter :
    x ∈ (m.enter tx msgSender).log.stretches ↔ x ∈ m.log.stretches ∨
      ∃ a ∈ m.log.active.head?, x = (a.frame, a.since, m.state) := by
  cases hl : m.log.active with
  | nil => simp [Machine.enter, CallLog.enter, CallLog.stretches, hl]
  | cons a rest =>
    simp only [Machine.enter, CallLog.enter, CallLog.stretches, hl, List.flatMap_cons, List.map_nil,
      List.nil_append, List.map_append, List.map_cons, List.mem_append, List.mem_cons,
      List.not_mem_nil, or_false, List.head?_cons, Option.mem_some_iff, exists_eq_left']
    tauto

/-- A return ends the last stretch of a frame. -/
theorem mem_stretches_leave {a : Activation} {rest : List Activation}
    (hl : m.log.active = a :: rest) :
    x ∈ m.leave.log.stretches ↔
      x ∈ m.log.stretches ∨ x = (a.frame, a.since, m.state) := by
  have hrest : m.leave.log.active.flatMap (fun a => a.own.map (a.frame, ·)) =
      rest.flatMap fun a => a.own.map (a.frame, ·) := by
    cases rest <;> simp [Machine.leave, CallLog.leave, hl]
  simp only [CallLog.stretches, hrest, finished_leave hl, hl, List.flatMap_append, List.flatMap_cons,
    List.flatMap_nil, List.append_nil, List.map_append, List.map_cons, List.map_nil,
    List.mem_append, List.mem_cons, List.not_mem_nil, or_false]
  tauto

end Stretches

/-! ## The log of a transaction -/

/-- All that has happened are steps of frames, in some stretch that is over, or in the one of
    the frame on top. What the stretches that are over do not change is as it was in `s`. -/
structure Stretched {α : Type} (g : DeTTaState → α) (s : DeTTaState) (m : Machine) : Prop where
  past : ∀ x ∈ m.log.stretches, x.1.Steps x.2.1 x.2.2
  top : ∀ a ∈ m.log.active.head?, a.frame.Steps a.since m.state
  kept : (∀ x ∈ m.log.stretches, g x.2.2 = g x.2.1) → g (m.settled fun _ => true) = g s
  now : Grows s m.state
  starts : ∀ f ∈ m.log.frames, Grows s f.start
  ends : ∀ x ∈ m.log.stretches, Grows x.2.2 m.state

theorem callInvariant_stretched {α : Type} (g : DeTTaState → α) (env : Env) (outer : Transaction)
    (s : DeTTaState) :
    CallInvariant env outer (fun _ _ m => Stretched g s m) fun _ => True where
  enter {_ _ m tx msgSender} _ hI _ _ := by
    refine ⟨fun x hx => ?_, fun a ha => ?_, fun hg => ?_, hI.now, fun f hf => ?_,
      fun x hx => ?_⟩
    · rcases mem_stretches_enter.1 hx with hx | ⟨a, ha, rfl⟩
      · exact hI.past x hx
      · exact hI.top a ha
    · obtain rfl : ⟨⟨tx, msgSender, m.state⟩, [], m.state⟩ = a := by
        simpa [Machine.enter, CallLog.enter] using ha
      exact .refl
    · rw [settled_enter, ← hI.kept fun x hx => hg x (mem_stretches_enter.2 (.inl hx))]
      cases hl : m.log.active with
      | nil => rw [Machine.settled, hl]
      | cons a rest =>
        rw [settled_of_active hl, if_pos rfl]
        exact hg (a.frame, a.since, m.state) (mem_stretches_enter.2 (.inr ⟨a, by simp [hl], rfl⟩))
    · rcases mem_frames_enter.1 hf with rfl | hf
      · exact hI.now
      · exact hI.starts f hf
    · rcases mem_stretches_enter.1 hx with hx | ⟨a, -, rfl⟩
      · exact hI.ends x hx
      · exact .refl _
  own {_ f frames m s'} hr hl hI hs := by
    obtain ⟨a, rest, ha, rfl, -⟩ := List.map_eq_cons_iff.1 hr.active
    refine ⟨hI.past, fun b hb => ?_, fun hg => ?_, hI.now.trans hs.grows, hI.starts,
      fun x hx => (hI.ends x hx).trans hs.grows⟩
    · obtain rfl : a = b := by simpa [ha] using hb
      exact (hI.top a (by simp [ha])).tail ⟨hl, hr.grows _ List.mem_cons_self, hs⟩
    · rw [settled_of_active (m := m.withState s') ha, if_pos rfl, ← hI.kept hg,
        settled_of_active ha, if_pos rfl]
  attempt _ _ _ _ := trivial
  leave {_ f frames m} hr _ hI := by
    obtain ⟨a, rest, ha, rfl, -⟩ := List.map_eq_cons_iff.1 hr.active
    have hmem {x : Frame × DeTTaState × DeTTaState} := mem_stretches_leave (x := x) ha
    refine ⟨fun x hx => ?_, fun b hb => ?_, fun hg => ?_, hI.now,
      fun f hf => hI.starts f (mem_frames_leave.1 hf), fun x hx => ?_⟩
    · rcases hmem.1 hx with hx | rfl
      · exact hI.past x hx
      · exact hI.top a (by simp [ha])
    · rw [active_leave_eq, List.head?_modifyHead] at hb
      obtain ⟨c, -, rfl⟩ := Option.map_eq_some_iff.1 hb
      exact .refl
    · have hkept := hI.kept fun x hx => hg x (hmem.2 (.inl hx))
      rw [settled_of_active ha, if_pos rfl] at hkept
      rw [settled_leave, ← hkept]
      exact hg (a.frame, a.since, m.state) (hmem.2 (.inr rfl))
    · rcases hmem.1 hx with hx | rfl
      · exact hI.ends x hx
      · exact .refl _
  fail _ _ := trivial
  abort _ := trivial
  exhaust _ _ _ := trivial

section Commits

variable {env : Env} {s : DeTTaState} {tx : Transaction}

variable {α : Type} {p : DeTTaState × DeTTaState}

theorem stretched_of_commits (g : DeTTaState → α) (hc : Commits env s tx) :
    ∃ m, Stretched g (s.useNonce tx) m ∧ (applyTransaction env s tx).1 = m.state ∧
      callFrames env s tx = m.log.finished ∧ m.log.active = [] := by
  have hinit : Stretched g (s.useNonce tx)
      ⟨s.useNonce tx, CallContext.new tx.sender, CallLog.empty⟩ :=
    ⟨by simp [CallLog.stretches, CallLog.empty], by simp [CallLog.empty], fun _ => rfl,
      .refl _, by simp [CallLog.frames, CallLog.empty],
      by simp [CallLog.stretches, CallLog.empty]⟩
  obtain ⟨-, m, hr, hI, hm, hf⟩ :=
    (callInvariant_stretched g env tx (s.useNonce tx)).of_commits (fun _ => hinit) hc
  exact ⟨m, hI, hm, hf, List.map_eq_nil_iff.1 hr.active⟩

/-- The stretches of the frames of a committed transaction. -/
theorem mem_stretches_of_own {log : CallLog} {r : FrameRecord} (hr : r ∈ log.finished)
    (hp : p ∈ r.own) : (r.frame, p) ∈ log.stretches :=
  List.mem_append_left _ (List.mem_flatMap.2 ⟨r, hr, List.mem_map_of_mem hp⟩)

/-- What a stretch of a frame of a committed transaction changes is changed by a step of the
    frame. -/
theorem exists_step_of_own_ne {g : DeTTaState → α} (hc : Commits env s tx) {r : FrameRecord}
    (hr : r ∈ callFrames env s tx) (hp : p ∈ r.own) (hne : g p.2 ≠ g p.1) :
    ∃ s₁ s₂, r.frame.Step s₁ s₂ ∧ g s₂ ≠ g s₁ ∧ Grows (s.useNonce tx) r.frame.start ∧
      Grows s₂ (applyTransaction env s tx).1 := by
  obtain ⟨m, hm, hs, hf, -⟩ := stretched_of_commits (fun _ => ()) hc
  have hmem := mem_stretches_of_own (hf ▸ hr) hp
  obtain ⟨s₁, s₂, hstep, hne', hg⟩ := (hm.past _ hmem).exists_of_ne hne
  have hframe : r.frame ∈ m.log.frames :=
    List.mem_append_right _ (List.mem_map_of_mem (hf ▸ hr))
  exact ⟨s₁, s₂, hstep, hne', hm.starts _ hframe, hs ▸ hg.trans (hm.ends _ hmem)⟩

/-- What a committed transaction changes is changed by the code of one of its frames. -/
theorem exists_own_of_ne {g : DeTTaState → α} (hc : Commits env s tx)
    (hne : g (applyTransaction env s tx).1 ≠ g (s.useNonce tx)) :
    ∃ r ∈ callFrames env s tx, ∃ p ∈ r.own, g p.2 ≠ g p.1 := by
  by_contra hno
  push Not at hno
  obtain ⟨m, hm, hs, hf, hnil⟩ := stretched_of_commits g hc
  have hsettled : m.settled (fun _ => true) = m.state := by rw [Machine.settled, hnil]
  rw [hs, ← hsettled] at hne
  refine hne (hm.kept fun x hx => ?_)
  simp only [CallLog.stretches, hnil, List.flatMap_nil, List.append_nil, List.mem_flatMap,
    List.mem_map] at hx
  obtain ⟨r, hr, p, hp, rfl⟩ := hx
  exact hno r (hf ▸ hr) p hp

end Commits

end Detta
