import Detta.Safety.Reach

/-!
# Totals and sums

Contracts keep totals next to the entries that they are the sums of: the supply of a
token, the shares of a pool, the stakes of a staking contract, and the stakes that are
being paid out (`Ledger`). In every state of a chain each total is the sum of its
entries.

A method may write the two sides one after the other, and make calls in between. So
along a transaction a total may be wrong only while a frame is active that writes it
(`Frame.Opens`), and such a frame checks the total before it returns
(`Frame.Returns.balanced`).
-/

namespace Detta

open Kernel

/-! ## Ledgers -/

/-- A total, with the entries that it is the sum of. -/
inductive Ledger where
  | balances (contract : ContractId) (asset : AssetId)
  | shares (contract : ContractId)
  | stakes (contract : ContractId) (asset : AssetId)
  | pending (contract : ContractId) (asset : AssetId)

namespace Ledger

def isEntry : Ledger → StateKey → Bool
  | balances contract asset => StateKey.isBalanceOf contract asset
  | shares contract => StateKey.isLpBalanceOf contract
  | stakes contract asset => StateKey.isStakeBalanceOf contract asset
  | pending contract asset => StateKey.isPendingUnbondOf contract asset

def total : Ledger → StateKey
  | balances contract asset => .totalSupply contract asset
  | shares contract => .lpSupply contract
  | stakes contract asset => .totalStaked contract asset
  | pending contract asset => .totalPendingUnbond contract asset

def contract : Ledger → ContractId
  | balances contract _ | shares contract | stakes contract _ | pending contract _ => contract

/-- The sum of the entries. -/
def sum (l : Ledger) (s : DeTTaState) : ℕ :=
  Table.sumWhere l.isEntry (fun value => value.asUint.val) s.storage

/-- The total is the sum of the entries. -/
def Balanced (l : Ledger) (s : DeTTaState) : Prop := l.sum s = (s.uintAt l.total).val

/-- The number is the total, or an entry. -/
def covers (l : Ledger) (key : StateKey) : Bool := l.isEntry key || key == l.total

variable {l : Ledger} {s s' : DeTTaState} {key : StateKey}

variable {entries : List (StateKey × Amount)} {asset : AssetId}

/-- The check that methods make is the equality of the total and the sum. -/
theorem sumMatches_iff : s.sumMatches l.isEntry l.total = true ↔ l.Balanced s := by
  rw [DeTTaState.sumMatches, beq_iff_eq, checkedSum_eq_some, List.map_map]
  rfl

/-- A number elsewhere does not matter. -/
theorem Balanced.put (h : l.Balanced s) (hk : l.covers key = false) (value : Amount) :
    l.Balanced (s.put key value) := by
  simp only [covers, Bool.or_eq_false_iff, beq_eq_false_iff_ne, ne_eq] at hk
  unfold Balanced sum
  rw [DeTTaState.uintAt_put_of_ne s value hk.2]
  exact (Table.sumWhere_insert_of_not _ _ _ hk.1 _).trans h

theorem Balanced.puts (h : l.Balanced s) (hk : ∀ e ∈ entries, l.covers e.1 = false) :
    l.Balanced (s.puts entries) := by
  induction entries generalizing s with
  | nil => exact h
  | cons e entries ih =>
    exact ih (h.put (hk e List.mem_cons_self) e.2) fun e' he' => hk e' (List.mem_cons_of_mem _ he')

/-- The numbers of a ledger belong to its contract. -/
theorem ownerContract_of_covers (h : l.covers key = true) : key.ownerContract = l.contract := by
  cases l <;> cases key <;> simp_all [covers, isEntry, total, contract, StateKey.ownerContract,
    StateKey.isBalanceOf, StateKey.isLpBalanceOf, StateKey.isStakeBalanceOf,
    StateKey.isPendingUnbondOf]

/-- Balances and supplies are in one ledger only. -/
theorem eq_balances_of_covers {token : ContractId} {o : Principal}
    (h : l.covers (.balance token o asset) = true ∨
      l.covers (.totalSupply token asset) = true) : l = .balances token asset := by
  cases l <;> simp [covers, isEntry, total, StateKey.isBalanceOf, StateKey.isLpBalanceOf,
    StateKey.isStakeBalanceOf, StateKey.isPendingUnbondOf] at h ⊢
  obtain ⟨rfl, rfl⟩ := h
  exact ⟨rfl, rfl⟩

/-- A movement of tokens that is checked leaves every ledger balanced. -/
theorem Balanced.tokens (h : l.Balanced s) {f : Frame} {token : ContractId}
    (ha : Attempt f s token asset s') (hi : s'.tokenInvariantsHold token asset = true) :
    l.Balanced s' := by
  by_cases hl : l = .balances token asset
  · subst hl
    exact sumMatches_iff.1 hi
  · have hb : ∀ owner, l.covers (.balance token owner asset) = false := fun owner =>
      Bool.eq_false_iff.2 fun hc => hl (eq_balances_of_covers (.inl hc))
    have ht : l.covers (.totalSupply token asset) = false :=
      Bool.eq_false_iff.2 fun hc => hl (eq_balances_of_covers (o := "") (.inr hc))
    obtain ⟨_, _, _, _, rfl | ⟨_, rfl⟩, rfl⟩ := ha.exists_put
    · exact (h.put ht _).put (hb _) _
    · exact (h.put (hb _) _).put (hb _) _

/-! ### New contracts -/

/-- A contract that is not deployed yet has nothing in its ledgers. -/
theorem getElem?_eq_none_of_covers (ho : Owned s) (hn : s.contracts.contains l.contract = false)
    (hk : l.covers key = true) : s.storage[key]? = none := by
  refine getElem?_eq_none_of_contains (Bool.eq_false_iff.2 fun hc => ?_)
  have := ho key hc
  rw [ownerContract_of_covers hk, hn] at this
  cases this

theorem sum_eq_zero (ho : Owned s) (hn : s.contracts.contains l.contract = false) :
    l.sum s = 0 := by
  refine Table.sumWhere_eq_zero _ _ fun key value hv => Bool.eq_false_iff.2 fun hk => ?_
  rw [getElem?_eq_none_of_covers ho hn (by simp [covers, hk])] at hv
  cases hv

theorem total_eq_zero (ho : Owned s) (hn : s.contracts.contains l.contract = false) :
    s.uintAt l.total = 0 := by
  have hnone : s.storage[l.total]? = none :=
    getElem?_eq_none_of_covers ho hn (by simp [covers])
  simp [DeTTaState.uintAt, hnone]

/-- New entries add to the sum. -/
theorem sum_puts (hd : (entries.map (·.1)).Nodup) (hn : ∀ e ∈ entries, s.storage[e.1]? = none)
    (he : ∀ e ∈ entries, l.isEntry e.1 = true) :
    l.sum (s.puts entries) = l.sum s + (entries.map fun e => e.2.val).sum := by
  induction entries generalizing s with
  | nil => simp [DeTTaState.puts]
  | cons e entries ih =>
    rw [List.map_cons, List.nodup_cons] at hd
    have hput : l.sum (s.put e.1 e.2) = l.sum s + e.2.val := by
      have := Table.sumWhere_insert l.isEntry (fun v : StateValue => v.asUint.val) s.storage
        (he e List.mem_cons_self) (.uInt e.2)
      rwa [hn e List.mem_cons_self] at this
    have hrest := ih (s := s.put e.1 e.2) hd.2 (fun e' he' => ?_)
      fun e' he' => he e' (List.mem_cons_of_mem _ he')
    · rw [List.map_cons, List.sum_cons]
      exact hrest.trans (by rw [hput]; omega)
    · have hne : e.1 ≠ e'.1 := fun h => hd.1 (h ▸ List.mem_map_of_mem he')
      simpa [DeTTaState.put, Std.ExtTreeMap.getElem?_insert, hne] using
        hn e' (List.mem_cons_of_mem _ he')

/-- Zeros leave a ledger at zero. -/
theorem balanced_puts_zero (hs : l.sum s = 0) (ht : s.uintAt l.total = 0)
    (hz : ∀ e ∈ entries, e.2 = 0 ∧ l.isEntry e.1 = false) : l.Balanced (s.puts entries) := by
  induction entries generalizing s with
  | nil => exact hs.trans (by rw [DeTTaState.puts, List.foldl_nil, ht]; rfl)
  | cons e entries ih =>
    obtain ⟨hv, he⟩ := hz e List.mem_cons_self
    refine ih (s := s.put e.1 e.2) ?_ ?_ fun e' he' => hz e' (List.mem_cons_of_mem _ he')
    · exact (Table.sumWhere_insert_of_not _ _ _ he _).trans hs
    · rw [DeTTaState.uintAt_put, hv, ht, ite_self]

/-- The first balances of a token add up to its first supply. -/
theorem balanced_token {contract : ContractId} {balances : List (Principal × Amount)}
    {total : Amount} (ho : Owned s) (hn : s.contracts.contains contract = false)
    (hd : (balances.map (·.1)).Nodup) (ht : total.val = amountSum balances) :
    (Ledger.balances contract asset).Balanced
      (s.puts (initialBalances contract asset balances ++
        [(.totalSupply contract asset, total)])) := by
  have hsum : (Ledger.balances contract asset).sum
      (s.puts (initialBalances contract asset balances)) =
        (Ledger.balances contract asset).sum s +
          ((initialBalances contract asset balances).map fun e => e.2.val).sum :=
    sum_puts ?_ ?_ ?_
  · rw [sum_eq_zero (l := .balances contract asset) ho hn, Nat.zero_add] at hsum
    rw [DeTTaState.puts, List.foldl_append]
    show sum _ (DeTTaState.put _ _ _) = (DeTTaState.uintAt (DeTTaState.put _ _ _) _).val
    rw [Ledger.total, DeTTaState.uintAt_put_self, ht]
    refine (Table.sumWhere_insert_of_not _ _ _ rfl _).trans (hsum.trans ?_)
    simp [initialBalances, amountSum, Function.comp_def]
  · have hinj : Function.Injective fun owner => StateKey.balance contract owner asset :=
      fun _ _ h => by injection h
    simpa [initialBalances, Function.comp_def] using hd.map hinj
  · intro e he
    obtain ⟨b, -, rfl⟩ := List.mem_map.1 he
    exact getElem?_eq_none_of_covers (l := .balances contract asset) ho hn
      (by simp [covers, isEntry, StateKey.isBalanceOf])
  · intro e he
    obtain ⟨b, -, rfl⟩ := List.mem_map.1 he
    simp [isEntry, StateKey.isBalanceOf]

/-- Deploying a contract leaves every ledger balanced. -/
theorem Balanced.founded (h : l.Balanced s) (ho : Owned s) {contract : ContractId}
    (record : ContractRecord) {kind : ContractKind} (hn : s.contracts.contains contract = false)
    (hf : Founded s contract kind entries) :
    l.Balanced ((s.withContract contract record).puts entries) := by
  rw [DeTTaState.puts_withContract]
  show l.Balanced (s.puts entries)
  by_cases hl : l.contract = contract
  · subst hl
    cases hf with
    | @token asset balances total hd hsum =>
      by_cases hb : l = .balances l.contract asset
      · have htoken : (Ledger.balances l.contract asset).Balanced
            (s.puts (initialBalances l.contract asset balances ++
              [(.totalSupply l.contract asset, total)])) := balanced_token ho hn hd hsum
        rwa [← hb] at htoken
      · refine h.puts fun e he => Bool.eq_false_iff.2 fun hc => hb ?_
        rcases List.mem_append.1 he with he | he
        · obtain ⟨b, -, rfl⟩ := List.mem_map.1 he
          exact eq_balances_of_covers (.inl hc)
        · obtain rfl := List.mem_singleton.1 he
          exact eq_balances_of_covers (o := "") (.inr hc)
    | ammPool | oracle | staking =>
      refine balanced_puts_zero (sum_eq_zero ho hn) (total_eq_zero ho hn) fun e he => ?_
      simp only [initialPool, initialStaking, List.mem_cons, List.not_mem_nil, or_false] at he
      rcases he with rfl | rfl | rfl | rfl | rfl <;> cases l <;> exact ⟨rfl, rfl⟩
    | bare => exact h
  · refine h.puts fun e he => Bool.eq_false_iff.2 fun hc => hl ?_
    rw [← ownerContract_of_covers hc, hf.ownerContract e he]

end Ledger

/-! ## Frames that write a ledger -/

/-- The frame writes a ledger of its own contract. -/
inductive Frame.Opens (f : Frame) : Ledger → Prop where
  | shares (hm : f.tx.method = .addLiquidity) : f.Opens (.shares f.tx.target)
  | stakes {asset : AssetId} (hs : f.Stakes asset)
      (hm : f.tx.method = .stake ∨ f.tx.method = .unstake ∨ f.tx.method = .requestUnstake) :
      f.Opens (.stakes f.tx.target asset)
  | pending {asset : AssetId} (hs : f.Stakes asset)
      (hm : f.tx.method = .requestUnstake ∨ f.tx.method = .completeUnstake) :
      f.Opens (.pending f.tx.target asset)

variable {f : Frame} {l : Ledger}

/-- What a frame writes in a ledger, it writes in a ledger that it opens. -/
theorem Frame.Writes.opens {key : StateKey} (h : f.Writes key)
    (hc : key.ownerContract = f.tx.target) (hl : l.covers key = true) : f.Opens l := by
  obtain ⟨hw, hs⟩ := h
  have ho := Ledger.ownerContract_of_covers hl
  rw [hc] at ho
  cases l with
  | balances contract asset =>
    cases key <;> simp [Ledger.covers, Ledger.isEntry, Ledger.total, StateKey.isBalanceOf] at hl
    all_goals cases hm : f.tx.method <;> simp [hm, Method.writes] at hw
  | shares contract =>
    change f.tx.target = contract at ho
    cases key <;> simp [Ledger.covers, Ledger.isEntry, Ledger.total, StateKey.isLpBalanceOf] at hl
    all_goals
      cases hm : f.tx.method <;> simp [hm, Method.writes] at hw
      exact ho ▸ .shares hm
  | stakes contract asset =>
    change f.tx.target = contract at ho
    cases key <;>
      simp [Ledger.covers, Ledger.isEntry, Ledger.total, StateKey.isStakeBalanceOf] at hl
    all_goals
      obtain ⟨rfl, rfl⟩ := hl
      cases hm : f.tx.method <;> simp [hm, Method.writes] at hw
      all_goals exact ho ▸ .stakes (hs _ rfl) (by simp [hm])
  | pending contract asset =>
    change f.tx.target = contract at ho
    cases key <;>
      simp [Ledger.covers, Ledger.isEntry, Ledger.total, StateKey.isPendingUnbondOf] at hl
    all_goals
      obtain ⟨rfl, rfl⟩ := hl
      cases hm : f.tx.method <;> simp [hm, Method.writes] at hw
      all_goals exact ho ▸ .pending (hs _ rfl) (by simp [hm])

/-! ## What frames check -/

section Checks

variable (call : ContractCall) (tx : Transaction) (msgSender : Principal)

/-- Events are in no ledger. -/
theorem Ledger.keeps_emit (l : Ledger) (contract : ContractId) (txHash : TxHash)
    (payload : EventPayload) :
    Keeps (fun m => l.Balanced m.state) (fun _ _ => True) (emit contract txHash payload) :=
  fun _ h => h

theorem leads_addLiquidity (assetA assetB : AssetId) (m : Machine) :
    Leads (Ledger.shares tx.target).Balanced (addLiquidity call tx msgSender assetA assetB) m := by
  unfold addLiquidity
  iterate 21 refine .after fun _ _ => ?_
  refine .first (.check fun h => Ledger.sumMatches_iff.1 h) fun _ => ?_
  exact .bind (Ledger.keeps_emit _ _ _ _) fun _ => .pure _

theorem leads_checkStakingTotals_stakes (contract : ContractId) (asset : AssetId) (m : Machine) :
    Leads (Ledger.stakes contract asset).Balanced (checkStakingTotals contract asset) m :=
  .first (.check fun h => Ledger.sumMatches_iff.1 h) fun _ => .reads fun _ _ _ => trivial

theorem leads_checkStakingTotals_pending (contract : ContractId) (asset : AssetId) (m : Machine) :
    Leads (Ledger.pending contract asset).Balanced (checkStakingTotals contract asset) m :=
  .after fun _ _ => .check fun h => Ledger.sumMatches_iff.1 h

variable {l : Ledger} {asset : AssetId}
  (h : ∀ m, Leads l.Balanced (checkStakingTotals tx.target asset) m)

include h in
theorem leads_stake (rewardPerBlock : Amount) (m : Machine) :
    Leads l.Balanced (stake call tx msgSender asset rewardPerBlock) m := by
  unfold stake
  iterate 10 refine .after fun _ _ => ?_
  exact .first (h _) fun _ => .bind (l.keeps_emit _ _ _) fun _ => .pure _

include h in
theorem leads_unstake (parameters : StakingParameters) (m : Machine) :
    Leads l.Balanced (unstake call tx msgSender asset parameters) m := by
  unfold unstake
  iterate 13 refine .after fun _ _ => ?_
  refine .first (h _) fun _ => .bind (.onlyIf (l.keeps_emit _ _ _)) fun _ => ?_
  exact .bind (l.keeps_emit _ _ _) fun _ => .pure _

include h in
theorem leads_requestUnstake (rewardPerBlock : Amount) (unbondingDelay unstakePenaltyBps : U64)
    (m : Machine) :
    Leads l.Balanced (requestUnstake tx msgSender asset rewardPerBlock unbondingDelay
      unstakePenaltyBps) m := by
  unfold requestUnstake
  iterate 19 refine .after fun _ _ => ?_
  refine .first (h _) fun _ => .bind (.onlyIf (l.keeps_emit _ _ _)) fun _ => ?_
  exact .bind (l.keeps_emit _ _ _) fun _ => .pure _

theorem leads_completeUnstake (asset : AssetId) (m : Machine) :
    Leads (Ledger.pending tx.target asset).Balanced
      (completeUnstake call tx msgSender asset) m := by
  unfold completeUnstake
  iterate 13 refine .after fun _ _ => ?_
  refine .first (.check fun h => Ledger.sumMatches_iff.1 h) fun _ => ?_
  exact .bind (Ledger.keeps_emit _ _ _ _) fun _ => .pure _

end Checks

/-- A frame that writes a ledger returns when the ledger is balanced. -/
theorem Frame.Returns.balanced {env : Env} {m' : Machine} (h : f.Returns env m') (ho : f.Opens l) :
    l.Balanced m'.state := by
  refine h.leads fun call m record _ hr hoffers => ?_
  cases ho with
  | shares hm =>
    rw [hm] at hoffers
    cases hk : record.kind <;> simp only [hk, ContractKind.offers, reduceCtorEq] at hoffers
    rw [kindMethod, ammPoolMethod, hm]
    exact leads_addLiquidity call f.tx f.msgSender _ _ m
  | stakes hs hm =>
    obtain ⟨record', hr', hk⟩ := hs
    cases hr.symm.trans hr'
    cases hkind : record.kind <;> simp only [hkind, ContractKind.stakedAsset, reduceCtorEq] at hk
    cases hk
    have hcheck := leads_checkStakingTotals_stakes f.tx.target ‹AssetId›
    rw [kindMethod, stakingMethod]
    rcases hm with hm | hm | hm <;> rw [hm]
    · exact leads_stake call f.tx f.msgSender hcheck _ m
    · exact leads_unstake call f.tx f.msgSender hcheck _ m
    · exact leads_requestUnstake f.tx f.msgSender hcheck _ _ _ m
  | pending hs hm =>
    obtain ⟨record', hr', hk⟩ := hs
    cases hr.symm.trans hr'
    cases hkind : record.kind <;> simp only [hkind, ContractKind.stakedAsset, reduceCtorEq] at hk
    cases hk
    have hcheck := leads_checkStakingTotals_pending f.tx.target ‹AssetId›
    rw [kindMethod, stakingMethod]
    rcases hm with hm | hm <;> rw [hm]
    · exact leads_requestUnstake f.tx f.msgSender hcheck _ _ _ m
    · exact leads_completeUnstake call f.tx f.msgSender _ m

/-! ## Runs -/

/-- A step of a frame changes no ledger but those that the frame opens. -/
theorem OwnStep.balanced {s s' : DeTTaState} (h : OwnStep f s s') (ho : Owned s) (hl : ¬f.Opens l)
    (hb : l.Balanced s) : l.Balanced s' := by
  cases h with
  | put value hc hk =>
    exact hb.put (Bool.eq_false_iff.2 fun hcov => hl (hk.opens hc hcov)) value
  | tokens ha hi => exact hb.tokens ha hi
  | deploy hn _ hf => exact hb.founded ho _ hn hf
  | _ => exact hb

/-- All along a transaction, the ledgers that no active frame opens are balanced. -/
theorem callInvariant_balanced (env : Env) (outer : Transaction) :
    CallInvariant env outer
      (fun _ frames m => Owned m.state ∧
        ∀ l : Ledger, (∀ f ∈ frames, ¬f.Opens l) → l.Balanced m.state)
      fun _ => True where
  enter _ hI _ _ := ⟨hI.1, fun l hl => hI.2 l fun f hf => hl f (List.mem_cons_of_mem _ hf)⟩
  own hr hlive hI hs := by
    refine ⟨hs.owned (hlive.contains (hr.grows _ List.mem_cons_self)) hI.1, fun l hl => ?_⟩
    exact hs.balanced hI.1 (hl _ List.mem_cons_self) (hI.2 l hl)
  attempt _ _ _ _ := trivial
  leave {_ f frames m} _ hreturns hI := by
    refine ⟨hI.1, fun l hl => ?_⟩
    by_cases hf : f.Opens l
    · exact hreturns.balanced hf
    · refine hI.2 l fun g hg => ?_
      rcases List.mem_cons.1 hg with rfl | hg
      · exact hf
      · exact hl g hg
  fail _ _ := trivial
  abort _ := trivial
  exhaust _ _ _ := trivial

theorem chainInvariant_balanced (env : Env) :
    ChainInvariant env fun s => Owned s ∧ ∀ l : Ledger, l.Balanced s where
  timeless _ _ h := h
  new chainId := by
    refine ⟨(chainInvariant_owned env).new chainId, fun l => ?_⟩
    refine (Table.sumWhere_eq_zero _ _ fun key value hv => ?_).trans ?_
    · simp [DeTTaState.new] at hv
    · simp [DeTTaState.new, DeTTaState.uintAt]
  deploy {s s'} h hd := by
    refine ⟨h.1.deploy hd, fun l => ?_⟩
    cases hd with
    | contract hn hf => exact (h.2 l).founded h.1 _ hn hf
    | _ => exact h.2 l
  transaction {s} tx h := by
    exact (callInvariant_balanced env tx).keeps (P := fun s => Owned s ∧ ∀ l : Ledger, l.Balanced s)
      (fun _ => ⟨h.1, fun l _ => h.2 l⟩) h h fun _ _ _ h' => ⟨h'.1, fun l => h'.2 l (by simp)⟩

/-- In every state of a chain, every total is the sum of its entries, and the sum fits. -/
theorem runOps_ledger_sum (env : Env) (chainId : ChainId) (ops : List Op) (l : Ledger) :
    l.sum (runOps env (DeTTaState.new chainId) ops) =
        ((runOps env (DeTTaState.new chainId) ops).uintAt l.total).val ∧
      l.sum (runOps env (DeTTaState.new chainId) ops) < 2 ^ 128 := by
  have h : l.Balanced (runOps env (DeTTaState.new chainId) ops) :=
    ((chainInvariant_balanced env).reachable (.runOps (.new chainId) ops)).2 l
  exact ⟨h, h ▸ (DeTTaState.uintAt _ _).isLt⟩

end Detta
