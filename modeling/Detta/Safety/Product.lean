import Detta.Safety.Local
import Detta.Safety.Solvency

/-!
# The product of the reserves of a pool

A swap takes from a pool at most what leaves the product of the two reserves as it is: what is
paid out is rounded down, and the fee stays in the pool. Adding liquidity makes both reserves
larger. So the product of the reserves never decreases, and reserves that are positive stay
positive (`Improves`).

The reserves are read at the start of a call and written at its end, with calls of aspect tokens
in between. They are followed through all calls of a run (`reservesAlong`).
-/

namespace Detta

open Kernel DeTTaState

/-! ## Constant products -/

/-- The reserves are the same, or positive and with a product that is not smaller. -/
def Improves (r r' : ℕ × ℕ) : Prop :=
  r' = r ∨ 0 < r'.1 ∧ 0 < r'.2 ∧ r.1 * r.2 ≤ r'.1 * r'.2

namespace Improves

variable {r r' r'' : ℕ × ℕ}

theorem refl (r : ℕ × ℕ) : Improves r r := .inl rfl

theorem trans (h : Improves r r') (h' : Improves r' r'') : Improves r r'' := by
  rcases h' with rfl | ⟨h₁, h₂, hle⟩
  · exact h
  · refine .inr ⟨h₁, h₂, le_trans ?_ hle⟩
    rcases h with rfl | ⟨-, -, hle'⟩
    · exact le_rfl
    · exact hle'

theorem swap (h : Improves r r') : Improves r.swap r'.swap := by
  rcases h with rfl | ⟨h₁, h₂, hle⟩
  · exact .inl rfl
  · refine .inr ⟨h₂, h₁, ?_⟩
    rw [Prod.fst_swap, Prod.snd_swap, Prod.fst_swap, Prod.snd_swap, Nat.mul_comm, Nat.mul_comm r'.2]
    exact hle

theorem mul_le (h : Improves r r') : r.1 * r.2 ≤ r'.1 * r'.2 := by
  rcases h with rfl | ⟨-, -, hle⟩
  · exact le_rfl
  · exact hle

theorem pos (h : Improves r r') (hr : 0 < r.1 ∧ 0 < r.2) : 0 < r'.1 ∧ 0 < r'.2 := by
  rcases h with rfl | ⟨h₁, h₂, -⟩
  · exact hr
  · exact ⟨h₁, h₂⟩

/-- No reserve gets smaller for nothing. -/
theorem not_drained (h : Improves r r') : ¬(r'.1 < r.1 ∧ r'.2 ≤ r.2) := by
  rintro ⟨hlt, hle⟩
  rcases h with rfl | ⟨-, hpos, hmul⟩
  · exact absurd hlt (lt_irrefl _)
  · have hless : r'.1 * r'.2 < r.1 * r'.2 := Nat.mul_lt_mul_of_pos_right hlt hpos
    have hmore : r.1 * r'.2 ≤ r.1 * r.2 := Nat.mul_le_mul_left _ hle
    omega

end Improves

variable {a b x : ℕ}

/-- What is paid for `x` is less than the reserve it is paid from. -/
theorem div_lt_reserve (ha : 0 < a) (hb : 0 < b) : b * x / (a + x) < b := by
  rw [Nat.div_lt_iff_lt_mul (Nat.add_pos_left ha x)]
  exact Nat.mul_lt_mul_of_pos_left (Nat.lt_add_of_pos_left ha) hb

/-- The product does not decrease if `x` of what comes in is paid for. -/
theorem improves_of_swap {input : ℕ} (ha : 0 < a) (hb : 0 < b) (hx : x ≤ input) :
    Improves (a, b) (a + input, b - b * x / (a + x)) := by
  have hlt := div_lt_reserve (x := x) ha hb
  refine .inr ⟨Nat.add_pos_left ha _, Nat.sub_pos_of_lt hlt, ?_⟩
  -- what is paid, times the new reserve, is no more than what has been asked for
  have hpaid : (a + x) * (b * x / (a + x)) ≤ b * x := Nat.mul_div_le _ _
  calc a * b = (a + x) * b - b * x := by rw [Nat.add_mul, Nat.mul_comm x b, Nat.add_sub_cancel]
    _ ≤ (a + x) * b - (a + x) * (b * x / (a + x)) := Nat.sub_le_sub_left hpaid _
    _ = (a + x) * (b - b * x / (a + x)) := (Nat.mul_sub _ _ _).symm
    _ ≤ (a + input) * (b - b * x / (a + x)) := Nat.mul_le_mul_right _ (Nat.add_le_add_left hx a)

theorem improves_of_add {y : ℕ} (hx : 0 < x) (hy : 0 < y) : Improves (a, b) (a + x, b + y) :=
  .inr ⟨Nat.add_pos_right a hx, Nat.add_pos_right b hy,
    Nat.mul_le_mul (Nat.le_add_right a x) (Nat.le_add_right b y)⟩

/-! ## One call -/

/-- The reserves of a pool. -/
def DeTTaState.reserves (s : DeTTaState) (pool : ContractId) (assetA assetB : AssetId) : ℕ × ℕ :=
  ((s.uintAt (.reserve pool assetA)).val, (s.uintAt (.reserve pool assetB)).val)

theorem DeTTaState.uintAt_events (s : DeTTaState) (events : List Event) (key : StateKey) :
    ({ s with events := events } : DeTTaState).uintAt key = s.uintAt key := rfl

section Calls

variable {m : Machine} {tx : Transaction} {msgSender : Principal} {assetA assetB : AssetId}
  {fee : U64} (call : ContractCall)

namespace Leads

variable {β : Type} {P : DeTTaState → Prop} {k : Amount → Kernel β}

theorem checkedMul {a b : Amount} (hk : ∀ c : Amount, c.val = a.val * b.val → Leads P (k c) m) :
    Leads P (Kernel.checkedMul a b >>= k) m :=
  .okOr fun c hc => hk c (Word.checkedMul_eq_some.1 hc)

/-- A fee makes an amount no larger. -/
theorem amountAfterFee {amount : Amount} {feeBps : U64}
    (hk : ∀ x : Amount, x.val ≤ amount.val → Leads P (k x) m) :
    Leads P (Detta.amountAfterFee amount feeBps >>= k) m := by
  unfold Detta.amountAfterFee
  refine .assoc (.ensure fun _ => .assoc (.checkedMul fun value hvalue => ?_))
  refine hk _ ?_
  have hrate : (10000 : Amount).val = 10000 := rfl
  rw [Word.val_div, hvalue, hrate, Word.val_saturatingSub, hrate]
  refine Nat.div_le_of_le_mul ?_
  rw [Nat.mul_comm]
  exact Nat.mul_le_mul_right _ (Nat.sub_le _ _)

end Leads

instance (asset : AssetId) : Reads (Kernel.resolveAssetLedger asset) := by
  unfold Kernel.resolveAssetLedger
  infer_instance

theorem improves_addLiquidity (hne : assetA ≠ assetB) :
    Leads (fun s => Improves (m.state.reserves tx.target assetA assetB)
      (s.reserves tx.target assetA assetB))
      (addLiquidity call tx msgSender assetA assetB) m := by
  unfold addLiquidity
  refine .skip fun _ => .skip fun amountA => .skip fun amountB => .ensure fun hpos => ?_
  refine .skip fun _ => .skip fun _ => .skip fun _ => ?_
  refine .uintAt <| .uintAt <| .uintAt <| .uintAt <| .after fun _ m₁ => .after fun _ m₂ => ?_
  refine .checkedAdd fun reserveA hreserveA => .stateSet ?_
  refine .checkedAdd fun reserveB hreserveB => .stateSet ?_
  refine .checkedAdd fun _ _ => .stateSet <| .checkedAdd fun _ _ => .stateSet <| .skip fun _ => ?_
  refine .write (.pure ?_)
  have hA : 0 < amountA.val := Nat.pos_of_ne_zero fun h => hpos.1 (Word.ext h)
  have hB : 0 < amountB.val := Nat.pos_of_ne_zero fun h => hpos.2 (Word.ext h)
  have hadd := improves_of_add (a := (m.state.uintAt (.reserve tx.target assetA)).val)
    (b := (m.state.uintAt (.reserve tx.target assetB)).val) hA hB
  rw [← hreserveA, ← hreserveB] at hadd
  simpa [DeTTaState.reserves, uintAt_events, uintAt_put, hne.symm] using hadd

/-- The fee is written to a number of its own. -/
theorem Leads.collectFee {β : Type} {P : DeTTaState → Prop} {frame : AuthorizedFrame}
    {feeKey : StateKey} {feeAmount : Amount} {k : Unit → Kernel β} (key : StateKey)
    (hkey : feeKey ≠ key)
    (hk : ∀ s : DeTTaState, s.uintAt key = m.state.uintAt key → Leads P (k ()) (m.withState s)) :
    Leads P (Detta.onlyIf (feeAmount ≠ 0) (do
      let currentFee ← Kernel.uintAt feeKey
      Kernel.stateSet frame feeKey (← Kernel.checkedAdd currentFee feeAmount)) >>= k) m := by
  refine .onlyIf (fun _ => ?_) fun _ => hk m.state rfl
  refine .assoc (.uintAt (.assoc (.checkedAdd fun _ _ => .stateSet (hk _ ?_))))
  exact uintAt_put_of_ne _ _ hkey

theorem improves_swap (hne : assetA ≠ assetB) :
    Leads (fun s => Improves (m.state.reserves tx.target assetA assetB)
      (s.reserves tx.target assetA assetB))
      (swap call tx msgSender assetA assetB fee) m := by
  unfold swap
  refine .skip fun _ => .skip fun inputAsset => .skip fun amountIn => .skip fun _ => ?_
  refine .skip fun _ => .okOr fun outputAsset hout => .skip fun _ => .skip fun _ => ?_
  refine .uintAt <| .uintAt <| .ensure fun hpos => .amountAfterFee fun x hx => ?_
  refine .checkedMul fun numerator hn => .checkedAdd fun denominator hd => ?_
  refine .skip fun _ => .skip fun _ => .after fun _ m₁ => .after fun _ m₂ => ?_
  refine .checkedAdd fun reserveIn hreserveIn => .stateSet ?_
  refine .collectFee (.reserve tx.target inputAsset) nofun fun s₃ hs₃ => .stateSet ?_
  refine .skip fun _ => .write (.pure ?_)
  have hIn := Nat.pos_of_ne_zero fun h => hpos.1 (Word.ext h)
  have hOut := Nat.pos_of_ne_zero fun h => hpos.2 (Word.ext h)
  have hswap := improves_of_swap hIn hOut hx
  rw [← hn, ← hd, ← hreserveIn, ← Word.val_div, ← Word.val_saturatingSub] at hswap
  have hreserve := hs₃.trans (uintAt_put_self _ _ _)
  rcases outputAssetOf_eq_some hout with ⟨rfl, rfl⟩ | ⟨rfl, rfl⟩
  · simpa [DeTTaState.reserves, uintAt_events, uintAt_put, hne.symm,
      hreserve] using hswap
  · simpa [DeTTaState.reserves, uintAt_events, uintAt_put, hne,
      hreserve] using hswap.swap

end Calls

/-! ## Pools -/

/-- The contract is a pool of two assets. -/
def DeTTaState.IsPool (s : DeTTaState) (pool : ContractId) (assetA assetB : AssetId) : Prop :=
  ∃ record fee, s.contracts[pool]? = some record ∧ record.kind = .ammPool assetA assetB fee

section Pools

variable {env : Env} {f : Frame} {s s' : DeTTaState} {pool : ContractId} {assetA assetB : AssetId}

theorem DeTTaState.IsPool.mono (h : s.IsPool pool assetA assetB) (hk : s.KeepsKinds s') :
    s'.IsPool pool assetA assetB := by
  obtain ⟨record, fee, hr, hkind⟩ := h
  obtain ⟨record', hr', hkind'⟩ := hk hr
  exact ⟨record', fee, hr', hkind'.trans hkind⟩

theorem DeTTaState.IsPool.contains (h : s.IsPool pool assetA assetB) :
    s.contracts.contains pool = true := by
  obtain ⟨record, fee, hr, -⟩ := h
  exact Table.contains_iff.2 ⟨record, hr⟩

/-- A contract is one that was there before, or a new one. -/
theorem OwnStep.kind_cases (h : OwnStep f s s') {contract : ContractId} {record : ContractRecord}
    (hr : s'.contracts[contract]? = some record) :
    (∃ old, s.contracts[contract]? = some old ∧ record.kind = old.kind) ∨
      ∃ entries, Founded s contract record.kind entries := by
  cases h with
  | tokens ha =>
    obtain ⟨_, rfl⟩ := ha.onlyStorage
    exact .inl ⟨record, hr, rfl⟩
  | @govern contract' old new ho hk =>
    rcases Table.of_getElem?_insert hr with ⟨rfl, rfl⟩ | hr
    · exact .inl ⟨old, ho, hk⟩
    · exact .inl ⟨record, hr, rfl⟩
  | @deploy contract' new entries _ _ hf =>
    rw [contracts_puts] at hr
    rcases Table.of_getElem?_insert hr with ⟨rfl, rfl⟩ | hr
    · exact .inr ⟨entries, hf⟩
    · exact .inl ⟨record, hr, rfl⟩
  | _ => exact .inl ⟨record, hr, rfl⟩

/-- The two assets of contracts over two assets are different. -/
def DeTTaState.Distinct (s : DeTTaState) : Prop :=
  ∀ (contract : ContractId) (record : ContractRecord), s.contracts[contract]? = some record →
    record.kind.distinct = true

theorem OwnStep.distinct (h : OwnStep f s s') (hs : s.Distinct) : s'.Distinct := by
  intro contract record hr
  rcases h.kind_cases hr with ⟨old, hold, hk⟩ | ⟨_, hf⟩
  · exact hk ▸ hs contract old hold
  · exact hf.distinct

theorem DeployStep.distinct (h : DeployStep env s s') (hs : s.Distinct) : s'.Distinct := by
  intro contract record hr
  cases h with
  | contract _ hf =>
    rw [contracts_puts] at hr
    rcases Table.of_getElem?_insert hr with ⟨rfl, rfl⟩ | hr
    · exact hf.distinct
    · exact hs contract record hr
  | _ => exact hs contract record hr

theorem chainInvariant_distinct (env : Env) : ChainInvariant env DeTTaState.Distinct :=
  .of_steps (fun _ _ h => h) (fun _ _ _ hr => by simp [DeTTaState.new] at hr)
    (fun hs hd => hd.distinct hs) (fun _ _ h => h) fun _ _ hs hstep => hstep.distinct hs

/-- The assets of a pool are different. -/
theorem Reachable.assets_ne (hr : Reachable env s) (hp : s.IsPool pool assetA assetB) :
    assetA ≠ assetB := by
  obtain ⟨record, fee, hrecord, hk⟩ := hp
  have hd := (chainInvariant_distinct env).reachable hr pool record hrecord
  simpa [hk, ContractKind.distinct] using hd

/-- Other contracts do not write the reserves of a pool. -/
theorem OwnStep.reserves_eq (h : OwnStep f s s') (ht : f.tx.target ≠ pool)
    (hp : s.IsPool pool assetA assetB) :
    s'.reserves pool assetA assetB = s.reserves pool assetA assetB := by
  have hkey (asset : AssetId) :
      s'.storage[StateKey.reserve pool asset]? = s.storage[StateKey.reserve pool asset]? := by
    refine h.storage_eq fun hreaches => ?_
    cases hreaches with
    | own hc => exact ht hc.symm
    | new hn => exact Bool.false_ne_true (hn.symm.trans hp.contains)
  simp only [DeTTaState.reserves, DeTTaState.uintAt, hkey]

theorem DeployStep.reserves_eq (h : DeployStep env s s') (hp : s.IsPool pool assetA assetB) :
    s'.reserves pool assetA assetB = s.reserves pool assetA assetB := by
  cases h with
  | @contract contract record entries hn hf =>
    have hkey (asset : AssetId) : ∀ e ∈ entries, e.1 ≠ .reserve pool asset := fun e he heq => by
      have hc : pool = contract := by
        rw [← hf.ownerContract e he, heq]
        rfl
      exact Bool.false_ne_true (hn.symm.trans (hc ▸ hp.contains))
    simp only [DeTTaState.reserves, uintAt_puts_of_ne _ (hkey _)]
    rfl
  | _ => rfl

/-- A call of a pool leaves better reserves. -/
theorem FrameRecord.Returned.improves {r : FrameRecord} (hr : r.Returned env)
    (hlast : r.own.getLast? = some (s, s'))
    (hp : r.frame.start.IsPool r.frame.tx.target assetA assetB) (hne : assetA ≠ assetB) :
    Improves (r.frame.start.reserves r.frame.tx.target assetA assetB)
      (s'.reserves r.frame.tx.target assetA assetB) := by
  obtain ⟨m, a, rest, hret, -, -, hown⟩ := hr
  have hend : s' = m.state := by
    rw [hown, List.getLast?_concat, Option.some.injEq, Prod.mk.injEq] at hlast
    exact hlast.2.symm
  obtain ⟨record, fee, hrecord, hk⟩ := hp
  rw [hend]
  refine hret.leads (P := fun s => Improves _ (s.reserves _ _ _)) fun call m₀ record' hs hr' ho => ?_
  obtain rfl : record = record' := by
    rw [hrecord, Option.some.injEq] at hr'
    exact hr'
  rw [hk] at ho ⊢
  rw [← hs]
  simp only [kindMethod, ammPoolMethod]
  split
  · exact improves_addLiquidity call hne
  · exact improves_swap call hne
  · exact trivial

end Pools

/-! ## Runs -/

/-- The reserves of a pool at the start and at the end of a call of it. -/
def FrameRecord.reserves (pool : ContractId) (assetA assetB : AssetId) (r : FrameRecord) :
    List (ℕ × ℕ) :=
  if r.frame.tx.target = pool then
    r.frame.start.reserves pool assetA assetB ::
      r.own.getLast?.toList.map (·.2.reserves pool assetA assetB)
  else []

/-- The reserves of a pool along a run: in the beginning, at the start and at the end of each
    committed call, and in the end. -/
def reservesAlong (env : Env) (s : DeTTaState) (ops : List Op) (pool : ContractId)
    (assetA assetB : AssetId) : List (ℕ × ℕ) :=
  s.reserves pool assetA assetB :: (runFrames env s ops).flatMap (·.reserves pool assetA assetB) ++
    [(runOps env s ops).reserves pool assetA assetB]

section Runs

variable {env : Env} {s : DeTTaState} {pool : ContractId} {assetA assetB : AssetId}

theorem pairwise_concat {l : List (ℕ × ℕ)} {r r' : ℕ × ℕ} (h : (l ++ [r]).Pairwise Improves)
    (hr : Improves r r') : (l ++ [r] ++ [r']).Pairwise Improves := by
  refine List.pairwise_append.2 ⟨h, List.pairwise_singleton _ _, fun x hx y hy => ?_⟩
  rw [List.mem_singleton.1 hy]
  rcases List.mem_append.1 hx with hx | hx
  · exact ((List.pairwise_append.1 h).2.2 x hx r (List.mem_singleton_self r)).trans hr
  · exact List.mem_singleton.1 hx ▸ hr

theorem localInvariant_reserves (env : Env) (pool : ContractId) (hne : assetA ≠ assetB)
    (first : ℕ × ℕ) :
    LocalInvariant env pool fun past s' => s'.IsPool pool assetA assetB ∧
      (first :: past.flatMap (·.reserves pool assetA assetB) ++
        [s'.reserves pool assetA assetB]).Pairwise Improves where
  own ht _ h hs := ⟨h.1.mono hs.grows.keepsKinds, by rw [hs.reserves_eq ht h.1]; exact h.2⟩
  leave {r past s} ht h := by
    have hnil : r.reserves pool assetA assetB = [] := if_neg ht
    rw [List.flatMap_append, List.flatMap_singleton, hnil, List.append_nil]
    exact h
  step {r past s s'} ht hr hg hlast h := by
    subst ht
    refine ⟨h.1.mono hg.keepsKinds, ?_⟩
    have hcall : r.reserves r.frame.tx.target assetA assetB =
        [r.frame.start.reserves r.frame.tx.target assetA assetB,
          s'.reserves r.frame.tx.target assetA assetB] := by
      rw [FrameRecord.reserves, if_pos rfl, hlast]
      rfl
    have hend := pairwise_concat (pairwise_concat h.2 (hr.improves hlast h.1 hne)) (.refl _)
    rw [List.flatMap_append, List.flatMap_singleton, hcall]
    simpa using hend
  nonce _ h := h
  timeless _ _ _ _ h := h
  deploy h hd := ⟨h.1.mono hd.keepsKinds, by rw [hd.reserves_eq h.1]; exact h.2⟩

/-- Along a run, the reserves of a pool only get better. -/
theorem pairwise_reservesAlong (hr : Reachable env s) (hp : s.IsPool pool assetA assetB)
    (ops : List Op) : (reservesAlong env s ops pool assetA assetB).Pairwise Improves := by
  have inv := localInvariant_reserves env pool (hr.assets_ne hp) (s.reserves pool assetA assetB)
  have hstart : s.IsPool pool assetA assetB ∧
      (s.reserves pool assetA assetB :: ([] : List FrameRecord).flatMap
        (·.reserves pool assetA assetB) ++ [s.reserves pool assetA assetB]).Pairwise Improves :=
    ⟨hp, by simpa using Improves.refl _⟩
  exact (inv.runInvariant.run hstart ops).2

theorem amm_product_never_decreases (hr : Reachable env s) (hp : s.IsPool pool assetA assetB)
    (ops : List Op) :
    (reservesAlong env s ops pool assetA assetB).Pairwise fun r r' =>
      r.1 * r.2 ≤ r'.1 * r'.2 ∧ (0 < r.1 ∧ 0 < r.2 → 0 < r'.1 ∧ 0 < r'.2) ∧
        ¬(r'.1 < r.1 ∧ r'.2 ≤ r.2) ∧ ¬(r'.2 < r.2 ∧ r'.1 ≤ r.1) := by
  refine (pairwise_reservesAlong hr hp ops).imp fun h => ?_
  exact ⟨h.mul_le, h.pos, h.not_drained, h.swap.not_drained⟩

end Runs

/-! ## A swap -/

namespace Trades

/-- Two tokens, and a pool of them. -/
def state : DeTTaState :=
  runOps Proxy.env (.new "c") [.deploy (.token "t" "A" [("alice", 100)]),
    .deploy (.token "u" "B" [("alice", 100)]), .deploy (.ammPool "p" "A" "B" ⟨30⟩)]

/-- `alice` fills the pool, and swaps. -/
def ops : List Op :=
  [Deposits.call 0 "p" .addLiquidity [.amount 20, .amount 30],
    Deposits.call 1 "p" .swap [.asset "A", .amount 10, .amount 1]]

set_option maxRecDepth 4000 in
theorem evaluated :
    (state.contracts["p"]?.map (·.kind)) = some (.ammPool "A" "B" 30) ∧
      reservesAlong Proxy.env state ops "p" "A" "B" =
        [(0, 0), (0, 0), (20, 30), (20, 30), (30, 21), (30, 21)] := by
  decide

theorem isPool : state.IsPool "p" "A" "B" := by
  obtain ⟨record, hr, hk⟩ := Option.map_eq_some_iff.1 evaluated.1
  exact ⟨record, 30, hr, hk⟩

theorem amm_product_never_decreases_evaluated :
    (reservesAlong Proxy.env state ops "p" "A" "B" =
        [(0, 0), (0, 0), (20, 30), (20, 30), (30, 21), (30, 21)]) ∧
      (reservesAlong Proxy.env state ops "p" "A" "B").Pairwise fun r r' =>
        r.1 * r.2 ≤ r'.1 * r'.2 ∧ (0 < r.1 ∧ 0 < r.2 → 0 < r'.1 ∧ 0 < r'.2) ∧
          ¬(r'.1 < r.1 ∧ r'.2 ≤ r.2) ∧ ¬(r'.2 < r.2 ∧ r'.1 ≤ r.1) :=
  ⟨evaluated.2, amm_product_never_decreases ((Reachable.new "c").runOps _) isPool ops⟩

end Trades

end Detta
