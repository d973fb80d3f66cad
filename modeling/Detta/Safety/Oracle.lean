import Detta.Safety.Lending

/-!
# Prices of oracles

A price is written by a call of `submitPrice`, together with a time that the updater supplies. The
price that a vault finds at the start of a call comes from such a call, which has returned before
(`dated_runFrames`).

A vault compares the time with the height of the chain, and not the height at which the price was
submitted. So a price is as recent as the vault asks for, as long as updaters do not supply times
that are still to come (`credit_prices_recent`).
-/

namespace Detta

open Kernel DeTTaState

/-! ## Where prices come from -/

/-- The call submits a price. -/
structure FrameRecord.Submits (q : FrameRecord) (oracle : ContractId) (asset : AssetId)
    (price timestamp : Amount) : Prop where
  target : q.frame.tx.target = oracle
  method : q.frame.tx.method = .submitPrice
  asset : q.frame.tx.args[0]? = some (.asset asset)
  price : q.frame.tx.args[1]? = some (.amount price)
  timestamp : q.frame.tx.args[2]? = some (.amount timestamp)

/-- Every price has been submitted by one of the calls, with its time. -/
def Priced (past : List FrameRecord) (s : DeTTaState) : Prop :=
  ∀ oracle asset, s.uintAt (.oraclePrice oracle asset) = 0 ∨
    ∃ q ∈ past, q.Submits oracle asset (s.uintAt (.oraclePrice oracle asset))
      (s.uintAt (.oracleTimestamp oracle asset))

/-- The prices that a call finds have been submitted by calls that have returned before. -/
def Dated (calls : List FrameRecord) : Prop :=
  ∀ before r after, calls = before ++ r :: after → Priced before r.frame.start

section Steps

variable {env : Env} {f : Frame} {past past' : List FrameRecord} {s s' : DeTTaState}

theorem Priced.mono (h : Priced past s) (hsub : past ⊆ past') : Priced past' s :=
  fun oracle asset => (h oracle asset).imp_right fun ⟨q, hq, hs⟩ => ⟨q, hsub hq, hs⟩

theorem Priced.of_eq (h : Priced past s)
    (hs : ∀ oracle asset, s'.uintAt (.oraclePrice oracle asset) = 0 ∨
      s'.uintAt (.oraclePrice oracle asset) = s.uintAt (.oraclePrice oracle asset) ∧
        s'.uintAt (.oracleTimestamp oracle asset) = s.uintAt (.oracleTimestamp oracle asset)) :
    Priced past s' := by
  intro oracle asset
  rcases hs oracle asset with hzero | ⟨hprice, htime⟩
  · exact .inl hzero
  · rw [hprice, htime]
    exact h oracle asset

theorem Dated.append {r : FrameRecord} (h : Dated past) (hr : Priced past r.frame.start) :
    Dated (past ++ [r]) := by
  intro before q after heq
  rcases List.eq_nil_or_concat after with rfl | ⟨after, last, rfl⟩
  · obtain ⟨rfl, hq⟩ := List.append_inj' heq rfl
    cases hq
    exact hr
  · rw [List.concat_eq_append, ← List.cons_append, ← List.append_assoc] at heq
    exact h before q after (List.append_inj' heq rfl).1

/-- A new oracle has no price. -/
theorem Founded.prices {contract : ContractId} {kind : ContractKind}
    {entries : List (StateKey × Amount)} (hf : Founded s contract kind entries) (s₁ : DeTTaState)
    (oracle : ContractId) (asset : AssetId) :
    (s₁.puts entries).uintAt (.oraclePrice oracle asset) = 0 ∨
      (s₁.puts entries).uintAt (.oraclePrice oracle asset) =
          s₁.uintAt (.oraclePrice oracle asset) ∧
        (s₁.puts entries).uintAt (.oracleTimestamp oracle asset) =
          s₁.uintAt (.oracleTimestamp oracle asset) := by
  cases hf with
  | @oracle asset' maxAge =>
    by_cases hkey : contract = oracle ∧ asset' = asset
    · left
      simp [DeTTaState.puts, uintAt_put, hkey]
    · right
      simp [DeTTaState.puts, uintAt_put, hkey]
  | token =>
    refine .inr ⟨uintAt_puts_of_ne s₁ fun e he => ?_,
      uintAt_puts_of_ne s₁ fun e he => ?_⟩
    all_goals
      rcases List.mem_append.1 he with he | he
      · obtain ⟨_, -, rfl⟩ := List.mem_map.1 he
        simp
      · simp [List.mem_singleton.1 he]
  | ammPool | staking | bare =>
    right
    simp [initialPool, initialStaking, DeTTaState.puts, uintAt_put]

/-- Only the calls that submit prices write them. -/
theorem OwnStep.priced (h : OwnStep f s s') (hm : f.tx.method ≠ .submitPrice)
    (hs : Priced past s) : Priced past s' := by
  refine hs.of_eq fun oracle asset => ?_
  cases h with
  | @put key value _ hk =>
    refine .inr ⟨uintAt_put_of_ne _ _ ?_, uintAt_put_of_ne _ _ ?_⟩
    all_goals
      rintro rfl
      have hw := hk.method
      cases hmethod : f.tx.method <;> simp [hmethod, Method.writes] at hw hm
  | deploy _ _ hf => exact hf.prices _ oracle asset
  | tokens ha =>
    obtain ⟨_, _, _, _, rfl | ⟨_, rfl⟩, rfl⟩ := ha.exists_put
    all_goals
      right
      simp [uintAt_put]
  | _ => exact .inr ⟨rfl, rfl⟩

theorem DeployStep.priced (h : DeployStep env s s') (hs : Priced past s) : Priced past s' := by
  cases h with
  | contract _ hf => exact hs.of_eq (hf.prices _)
  | _ => exact hs

/-- What a call that submits a price leaves behind. -/
theorem Frame.Returns.priced {m : Machine} {r : FrameRecord} (h : r.frame.Returns env m)
    (hm : r.frame.tx.method = .submitPrice) (hs : Priced past r.frame.start) :
    Priced (past ++ [r]) m.state := by
  refine h.leads (P := Priced (past ++ [r])) fun call m₀ record hstart _ ho => ?_
  cases hk : record.kind with
  | oracle oracleAsset maxAge =>
    rw [kindMethod, oracleMethod, hm, submitPrice]
    refine .skip fun _ => .expectAsset fun asset h₀ => .expectAmount fun price h₁ => ?_
    refine .expectAmount fun timestamp h₂ => .okOr fun time htime => ?_
    iterate 5 refine .skip fun _ => ?_
    refine .stateSet <| .stateSet <| .write <| .pure fun oracle asset' => ?_
    have hval := Word.ofNat?_eq_some.1 htime
    have hsame : time.toU128 = timestamp := Word.ext hval
    rw [hsame]
    by_cases hkey : r.frame.tx.target = oracle ∧ asset = asset'
    · obtain ⟨rfl, rfl⟩ := hkey
      refine .inr ⟨r, by simp, ?_⟩
      simpa [uintAt_events, uintAt_put] using ⟨rfl, hm, h₀, h₁, h₂⟩
    · have hold := hs.mono (List.subset_append_left _ [r]) oracle asset'
      rw [← hstart] at hold
      simpa [uintAt_events, uintAt_put, hkey] using hold
  | _ =>
    rw [hk, hm] at ho
    cases ho

theorem Spawns.method_ne_submitPrice {tx : Transaction} {msgSender : Principal}
    (h : Spawns f s tx msgSender) : f.tx.method ≠ .submitPrice := by
  intro hm
  cases h <;> simp_all [Method.settles]

end Steps

/-! ## Runs -/

/-- The state without what a call that submits a price has done so far. -/
def settledPrices (m : Machine) : List Frame → DeTTaState
  | f :: _ => if f.tx.method = .submitPrice then f.start else m.state
  | [] => m.state

/-- Nothing is left to be settled when a call is made, or returns. -/
theorem settledPrices_of_calls {outer tx : Transaction} {msgSender : Principal} {s : DeTTaState}
    {frames : List Frame} (h : Calls outer s tx msgSender frames) (m : Machine) :
    settledPrices m frames = m.state := by
  cases frames with
  | nil => rfl
  | cons f frames => exact if_neg h.2.method_ne_submitPrice

theorem callInvariant_priced (env : Env) (outer : Transaction) (past : List FrameRecord) :
    CallInvariant env outer (fun _ frames m =>
      Priced (past ++ m.log.finished) (settledPrices m frames) ∧
        (∀ f ∈ frames, Priced (past ++ m.log.finished) f.start) ∧
        Dated (past ++ m.log.finished)) fun _ => True where
  enter {_ frames m tx msgSender} _ hI hc _ := by
    rw [finished_enter]
    rw [settledPrices_of_calls hc] at hI
    refine ⟨?_, fun f hf => ?_, hI.2.2⟩
    · rw [settledPrices]
      split <;> exact hI.1
    · rcases List.mem_cons.1 hf with rfl | hf
      · exact hI.1
      · exact hI.2.1 f hf
  own {_ f frames m s'} _ _ hI hs := by
    refine ⟨?_, hI.2⟩
    have hold := hI.1
    rw [settledPrices] at hold ⊢
    split
    next hm => rwa [if_pos hm] at hold
    next hm =>
      rw [if_neg hm] at hold
      exact hs.priced hm hold
  attempt _ _ _ _ := trivial
  leave {_ f frames m} hr hret hI := by
    have hcalls (m' : Machine) : settledPrices m' frames = m'.state := by
      cases hr.calls with
      | cons _ hc => exact settledPrices_of_calls hc m'
    obtain ⟨a, rest, ha, rfl, -⟩ := List.map_eq_cons_iff.1 hr.active
    let r : FrameRecord := ⟨a.frame, rest.map (·.frame), a.own ++ [(a.since, m.state)]⟩
    have hstart := hI.2.1 _ List.mem_cons_self
    rw [finished_leave ha, hcalls, ← List.append_assoc]
    refine ⟨?_, fun g hg => ?_, hI.2.2.append hstart⟩
    · have hold := hI.1
      rw [settledPrices] at hold
      split at hold
      next hm => exact hret.priced (r := r) hm hold
      next => exact hold.mono (List.subset_append_left _ _)
    · exact (hI.2.1 g (List.mem_cons_of_mem _ hg)).mono (List.subset_append_left _ _)
  fail _ _ := trivial
  abort _ := trivial
  exhaust _ _ _ := trivial

/-- The calls of a run find prices that have been submitted before. -/
theorem runInvariant_priced (env : Env) :
    RunInvariant env fun past s => Priced past s ∧ Dated past where
  transaction {past s} h tx := by
    have hinit : Priced (past ++ []) s ∧ Dated (past ++ []) := (List.append_nil past).symm ▸ h
    refine (callInvariant_priced env tx past).transaction (J := fun past s => Priced past s ∧ Dated past)
      (fun _ => ⟨hinit.1, fun _ hf => absurd hf List.not_mem_nil, hinit.2⟩) h h fun _ hI => ?_
    exact ⟨hI.1, hI.2.2⟩
  timeless _ _ _ _ h := h
  deploy h hd := ⟨hd.priced h.1, h.2⟩

theorem dated_runFrames (env : Env) (chainId : ChainId) (ops : List Op) :
    Dated (runFrames env (.new chainId) ops) := by
  have hnew : Priced [] (.new chainId) ∧ Dated [] := by
    refine ⟨fun oracle asset => .inl ?_, fun before r after h => by simp at h⟩
    simp [DeTTaState.uintAt, DeTTaState.new]
  exact ((runInvariant_priced env).run hnew ops).2

/-! ## Credit -/

section Credit

variable {env : Env} {config : LendingConfig}

theorem Leads.of_const {α : Type} {p : Kernel α} {m : Machine} {c : Prop} (h : c) :
    Leads (fun _ => c) p m :=
  (wp_self p m).imp fun _ _ _ => h

/-- The time of the price of the collateral is recent. -/
def DeTTaState.FreshPrice (s : DeTTaState) (config : LendingConfig) : Prop :=
  s.uintAt (.oraclePrice config.oracleContract config.collateralAsset) ≠ 0 ∧
    s.height.val ≤ (s.uintAt (.oracleTimestamp config.oracleContract config.collateralAsset)).val +
      config.maxOracleAge.val

theorem Leads.freshPrice {β : Type} {m : Machine} {k : Amount → Kernel β} :
    Leads (fun _ => m.state.FreshPrice config)
      (Detta.freshLendingCollateralPrice config >>= k) m := by
  unfold Detta.freshLendingCollateralPrice
  refine .assoc <| .read <| .assoc <| .read <| .assoc <| .ensure fun hage => ?_
  refine .assoc <| .uintAt <| .assoc <| .ensure fun hprice => .of_const ⟨hprice, ?_⟩
  have htime : (m.state.oracleTimestamp config.oracleContract config.collateralAsset).val ≤
      (m.state.uintAt (.oracleTimestamp config.oracleContract config.collateralAsset)).val := by
    unfold DeTTaState.oracleTimestamp
    cases h : Word.ofNat? 64 _ with
    | none => exact Nat.zero_le _
    | some time => exact (Word.ofNat?_eq_some.1 h).le
  have hsum : m.state.height.val ≤ _ := hage
  rw [Word.val_saturatingAdd] at hsum
  omega

/-- Borrowing and liquidating need a recent price. -/
theorem FrameRecord.Returned.freshPrice {r : FrameRecord} {record : ContractRecord}
    (h : r.Returned env)
    (hrecord : r.frame.start.contracts[r.frame.tx.target]? = some record)
    (hkind : record.kind = config.kind)
    (hm : r.frame.tx.method = .borrow ∨ r.frame.tx.method = .liquidate) :
    r.frame.start.FreshPrice config := by
  obtain ⟨m, a, rest, hret, -⟩ := h
  refine hret.leads (P := fun _ => r.frame.start.FreshPrice config)
    fun call m record' hs hr' _ => ?_
  obtain rfl : record = record' := by simpa [hrecord] using hr'
  rw [hkind, ← hs]
  rcases hm with hm | hm <;> simp only [kindMethod, LendingConfig.kind, lendingVaultMethod, hm]
  · unfold borrow
    iterate 5 refine .skip fun _ => ?_
    exact .freshPrice
  · unfold liquidate
    iterate 5 refine .skip fun _ => ?_
    exact .freshPrice

/-- If no price is submitted with a time that is still to come, credit is given on recent
    prices. -/
theorem credit_prices_recent {chainId : ChainId} {ops : List Op} {before after : List FrameRecord}
    {r : FrameRecord} {record : ContractRecord}
    (htimes : ∀ q ∈ runFrames env (.new chainId) ops, ∀ oracle asset price timestamp,
      q.Submits oracle asset price timestamp → timestamp.val ≤ q.frame.start.height.val)
    (hrun : runFrames env (.new chainId) ops = before ++ r :: after)
    (hrecord : r.frame.start.contracts[r.frame.tx.target]? = some record)
    (hkind : record.kind = config.kind)
    (hm : r.frame.tx.method = .borrow ∨ r.frame.tx.method = .liquidate) :
    ∃ q ∈ before, ∃ timestamp,
      q.Submits config.oracleContract config.collateralAsset
        (r.frame.start.uintAt (.oraclePrice config.oracleContract config.collateralAsset))
        timestamp ∧
      r.frame.start.height.val ≤ q.frame.start.height.val + config.maxOracleAge.val := by
  have hmem : r ∈ runFrames env (.new chainId) ops := hrun ▸ List.mem_append_right _ (by simp)
  obtain ⟨hprice, hage⟩ := (returned_of_mem_runFrames hmem).freshPrice hrecord hkind hm
  rcases dated_runFrames env chainId ops before r after hrun config.oracleContract
    config.collateralAsset with hzero | ⟨q, hq, hsubmits⟩
  · exact absurd hzero hprice
  · refine ⟨q, hq, _, hsubmits, hage.trans (Nat.add_le_add_right ?_ _)⟩
    exact htimes q (hrun ▸ List.mem_append_left _ hq) _ _ _ _ hsubmits

end Credit

namespace Ahead

def config : LendingConfig := ⟨"A", "B", "o", 5000, 10, 0, 8000⟩

/-- `alice` submits a price, and borrows when the chain is at another height. -/
def ops (timestamp : Amount) (height : U64) : List Op :=
  [.deploy (.token "t" "A" [("alice", 1)]), .deploy (.token "u" "B" [("v", 100)]),
    .deploy (.oracle "o" "A" "alice" 10),
    .deploy (.lendingVault "v" "A" "B" "o" ⟨5000, 10, 0, 8000⟩),
    Deposits.call 0 "o" .submitPrice [.asset "A", .amount 200, .amount timestamp],
    Deposits.call 1 "v" .depositCollateral [.asset "A", .amount 1],
    .block (buildBlock Proxy.env (.new "c") height [] 0 "" "").1,
    Deposits.call 2 "v" .borrow [.asset "B", .amount 90]]

/-- A vault that lends on prices that are at most 10 blocks old. -/
abbrev IsBorrow (r : FrameRecord) (height : U64) : Prop :=
  (r.frame.start.contracts[r.frame.tx.target]?.map (·.kind)) = some config.kind ∧
    r.frame.tx.method = .borrow ∧ r.frame.start.height = height

set_option maxRecDepth 8000 in
/-- A price with the time 1000 is good for nearly as many blocks. -/
theorem credit_on_old_price : ∃ r ∈ runFrames Proxy.env (.new "c") (ops 1000 500), IsBorrow r 500 ∧
    ∀ q ∈ runFrames Proxy.env (.new "c") (ops 1000 500), q.frame.tx.method = .submitPrice →
      ¬500 ≤ q.frame.start.height.val + config.maxOracleAge.val := by
  decide

set_option maxRecDepth 8000 in
theorem evaluated : (∃ r ∈ runFrames Proxy.env (.new "c") (ops 0 5), IsBorrow r 5) ∧
    ∀ q ∈ runFrames Proxy.env (.new "c") (ops 0 5), q.frame.tx.method = .submitPrice →
      q.frame.tx.args[2]? = some (.amount 0) := by
  decide

theorem credit_prices_recent_soon : ∃ r ∈ runFrames Proxy.env (.new "c") (ops 0 5), IsBorrow r 5 ∧
    ∃ q ∈ runFrames Proxy.env (.new "c") (ops 0 5), ∃ price timestamp,
      q.Submits "o" "A" price timestamp ∧ 5 ≤ q.frame.start.height.val + 10 := by
  obtain ⟨⟨r, hr, hb⟩, htimes⟩ := evaluated
  obtain ⟨before, after, hrun⟩ := List.append_of_mem hr
  obtain ⟨record, hrecord, hkind⟩ := Option.map_eq_some_iff.1 hb.1
  obtain ⟨q, hq, timestamp, hsubmits, hage⟩ := credit_prices_recent
    (fun q hq oracle asset price timestamp hs => by
      have hzero := (htimes q hq hs.method).symm.trans hs.timestamp
      cases hzero
      exact Nat.zero_le _) hrun hrecord hkind (.inl hb.2.1)
  rw [hb.2.2] at hage
  exact ⟨r, hr, hb, q, hrun ▸ List.mem_append_left _ hq, _, timestamp, hsubmits, hage⟩

end Ahead

end Detta
