import Detta.Safety.Isolation

/-!
# What one contract keeps

A contract whose methods read their numbers first, and write them last, is not disturbed by the
calls that they make in between: it cannot be entered again, and no other contract writes its
storage. So a property of its numbers that each of its calls keeps, from the state in which it
starts to the state in which it returns, is kept along every run (`LocalInvariant`).

* `LocalInvariant.runInvariant`: what the calls of one contract keep is kept by transactions.
-/

namespace Detta

open Kernel

/-- A property of the calls that have returned, and of the state, that steps of other contracts
    keep, and that the calls of the contract keep as a whole. -/
structure LocalInvariant (env : Env) (contract : ContractId)
    (J : List FrameRecord → DeTTaState → Prop) : Prop where
  own : ∀ {f : Frame} {past : List FrameRecord} {s s' : DeTTaState}, f.tx.target ≠ contract →
    f.Live → J past s → OwnStep f s s' → J past s'
  leave : ∀ {r : FrameRecord} {past : List FrameRecord} {s : DeTTaState},
    r.frame.tx.target ≠ contract → J past s → J (past ++ [r]) s
  step : ∀ {r : FrameRecord} {past : List FrameRecord} {s s' : DeTTaState},
    r.frame.tx.target = contract → r.Returned env → Grows r.frame.start s' →
    r.own.getLast? = some (s, s') → J past r.frame.start → J (past ++ [r]) s'
  nonce : ∀ {past : List FrameRecord} {s : DeTTaState} (tx : Transaction), J past s →
    J past (s.useNonce tx)
  timeless : ∀ past, Timeless (J past)
  deploy : ∀ {past : List FrameRecord} {s s' : DeTTaState}, J past s → DeployStep env s s' →
    J past s'

namespace LocalInvariant

variable {env : Env} {contract : ContractId} {J : List FrameRecord → DeTTaState → Prop}

/-- While a call of the contract is active, the property is one of the state in which the call
    has started. -/
theorem callInvariant (inv : LocalInvariant env contract J) (outer : Transaction)
    (past : List FrameRecord) :
    CallInvariant env outer (fun _ frames m =>
      (∀ f ∈ frames, f.tx.target = contract → J (past ++ m.log.finished) f.start) ∧
        (contract ∉ targets frames → J (past ++ m.log.finished) m.state)) fun _ => True where
  enter {_ frames m tx msgSender} _ hI _ hfree := by
    rw [finished_enter]
    refine ⟨fun f hf ht => ?_, fun hn => hI.2 fun hmem => hn (List.mem_cons_of_mem _ hmem)⟩
    rcases List.mem_cons.1 hf with rfl | hf
    · exact hI.2 (ht ▸ hfree)
    · exact hI.1 f hf ht
  own {_ f frames m s'} _ hl hI hs := by
    refine ⟨hI.1, fun hn => inv.own (fun ht => hn ?_) hl (hI.2 hn) hs⟩
    exact ht ▸ List.mem_cons_self
  attempt _ _ _ _ := trivial
  leave {_ f frames m} hr hret hI := by
    obtain ⟨a, rest, ha, rfl, -⟩ := List.map_eq_cons_iff.1 hr.active
    let r : FrameRecord := ⟨a.frame, rest.map (·.frame), a.own ++ [(a.since, m.state)]⟩
    rw [finished_leave ha, ← List.append_assoc]
    have hnodup : a.frame.tx.target ∉ targets frames := (List.nodup_cons.1 hr.nodup).1
    by_cases ht : a.frame.tx.target = contract
    · -- the call of the contract returns, and no other one is active
      refine ⟨fun g hg hgt => absurd ?_ hnodup, fun _ => ?_⟩
      · rw [ht, ← hgt]
        exact List.mem_map_of_mem hg
      · have hlast : r.own.getLast? = some (a.since, m.state) := by simp [r]
        exact inv.step (r := r) ht ⟨m, a, rest, hret, ha, rfl, rfl⟩
          (hr.grows _ List.mem_cons_self) hlast (hI.1 _ List.mem_cons_self ht)
    · refine ⟨fun g hg hgt => inv.leave (r := r) ht (hI.1 g (List.mem_cons_of_mem _ hg) hgt),
        fun hn => inv.leave (r := r) ht (hI.2 fun hmem => ?_)⟩
      rcases List.mem_cons.1 hmem with he | hmem
      · exact ht he.symm
      · exact hn hmem
  fail _ _ := trivial
  abort _ := trivial
  exhaust _ _ _ := trivial

theorem transaction (inv : LocalInvariant env contract J) {past : List FrameRecord}
    {s : DeTTaState} (h : J past s) (tx : Transaction) :
    J (past ++ committedFrames env s tx) (applyTransaction env s tx).1 := by
  have hn := inv.nonce tx h
  refine (inv.callInvariant tx past).transaction (fun _ => ⟨fun _ hf => absurd hf List.not_mem_nil,
    fun _ => (List.append_nil past).symm ▸ hn⟩) h hn fun _ hJ => ?_
  exact hJ.2 List.not_mem_nil

theorem runInvariant (inv : LocalInvariant env contract J) : RunInvariant env J :=
  ⟨inv.transaction, inv.timeless, inv.deploy⟩

end LocalInvariant

end Detta
