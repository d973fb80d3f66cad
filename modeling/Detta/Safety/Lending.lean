import Detta.Safety.Product
import Detta.Safety.Shield

/-!
# Debts and liquidations

The interest of a debt is added whenever the position is touched, and rounded down each time. So
touching a position often forgives some of the interest, but less than one unit at a time
(`steps_of_accrueAtEach`).

A liquidation repays a part of the debt, and seizes collateral of this value, rounded up. If no
collateral is left then, what is left of the debt is written off (`leads_liquidate`). A repayment
that is smaller than the collateral, but seizes all of it by the rounding, writes off more than
what the collateral does not cover (`shortfall_iff`).
-/

namespace Detta

open Kernel DeTTaState

/-! ## Interest -/

/-- A debt with the interest of some blocks, rounded down. -/
def withInterest (debt rate elapsed : ℕ) : ℕ := debt + debt * rate * elapsed / 10000

/-- What a borrower owes now: the debt, with the interest since it was last added. -/
def DeTTaState.accruedDebt (s : DeTTaState) (vault : ContractId) (borrower : Principal)
    (config : LendingConfig) : ℕ :=
  withInterest (s.uintAt (.debt vault borrower config.debtAsset)).val
    config.interestBpsPerBlock.val
    (s.height.val - (s.uintAt (.debtLastAccrualHeight vault borrower config.debtAsset)).val)

/-- The interest of a debt has been added. -/
structure DeTTaState.Accrues (s : DeTTaState) (vault : ContractId) (borrower : Principal)
    (asset : AssetId) (debt : Amount) (s' : DeTTaState) : Prop where
  debt : s'.uintAt (.debt vault borrower asset) = debt
  last : s'.uintAt (.debtLastAccrualHeight vault borrower asset) = s.height.toU128
  others : ∀ key, key ≠ .debt vault borrower asset →
    key ≠ .debtLastAccrualHeight vault borrower asset → s'.uintAt key = s.uintAt key
  grows : Grows s s'

section Interest

variable {m : Machine} {frame : AuthorizedFrame} {vault : ContractId} {borrower : Principal}
  {config : LendingConfig}

theorem wp_stateSet_of {Q : Unit → Machine → Prop} {key : StateKey} {value : Amount}
    (h : Q () (m.withState (m.state.put key value))) :
    wp (stateSet frame key value) Q (fun _ _ => True) m := by
  simp only [stateSet, wp_bind, wp_ensure, wp_write]
  exact ⟨fun _ => ⟨fun _ => h, fun _ => trivial⟩, fun _ => trivial⟩

theorem wp_accrueLendingDebt {Q : Amount → Machine → Prop}
    (hok : ∀ (debt : Amount) (s' : DeTTaState),
      debt.val = m.state.accruedDebt vault borrower config →
      m.state.Accrues vault borrower config.debtAsset debt s' → Q debt (m.withState s')) :
    wp (accrueLendingDebt frame vault borrower config) Q (fun _ _ => True) m := by
  unfold accrueLendingDebt
  refine wp_bind.2 (wp_uintAt.2 (wp_bind.2 (wp_uintAt.2 (.okOr ⟨fun last hlast => ?_,
    fun _ => trivial⟩))))
  refine .read (.okOr ⟨fun perBlock hperBlock => ?_,
    fun _ => trivial⟩)
  refine .okOr ⟨fun scaled hscaled => ?_, fun _ => trivial⟩
  refine .okOr ⟨fun debt hdebt => ?_, fun _ => trivial⟩
  rw [Word.ofNat?_eq_some] at hlast
  rw [Word.checkedMul_eq_some] at hperBlock hscaled
  rw [Word.checkedAdd_eq_some] at hdebt
  have hval : debt.val = m.state.accruedDebt vault borrower config := by
    rw [hdebt, Word.val_div, hscaled, hperBlock, Word.val_toU128, Word.val_toU128,
      Word.val_saturatingSub, hlast]
    rfl
  -- the debt is written only if there is interest
  refine wp_bind.2 (wp_onlyIf.2 ⟨fun _ => wp_stateSet_of ?_, fun hsame => ?_⟩)
  · refine wp_bind.2 (wp_stateSet_of (hok debt _ hval
      ⟨?_, ?_, fun key hd hl => ?_, (Grows.put ..).trans (.put ..)⟩))
    · simp [uintAt_put]
    · simp
    · rw [uintAt_put_of_ne _ _ hl.symm]
      exact uintAt_put_of_ne _ _ hd.symm
  · refine wp_bind.2 (wp_stateSet_of (hok debt _ hval ⟨?_, ?_, fun key hd hl => ?_, .put ..⟩))
    · have hne : StateKey.debtLastAccrualHeight vault borrower config.debtAsset ≠
          .debt vault borrower config.debtAsset := nofun
      rw [uintAt_put_of_ne _ _ hne]
      exact (not_not.1 hsame).symm
    · simp
    · exact uintAt_put_of_ne _ _ hl.symm

theorem Leads.accrueLendingDebt {β : Type} {P : DeTTaState → Prop} {k : Amount → Kernel β}
    (hk : ∀ (debt : Amount) (s' : DeTTaState),
      debt.val = m.state.accruedDebt vault borrower config →
      m.state.Accrues vault borrower config.debtAsset debt s' → Leads P (k debt) (m.withState s')) :
    Leads P (Detta.accrueLendingDebt frame vault borrower config >>= k) m :=
  wp_bind.2 (wp_accrueLendingDebt hk)

end Interest

/-! ## Touching a position -/

/-- Add the interest of a debt, at a height. -/
def accrueAt (frame : AuthorizedFrame) (vault : ContractId) (borrower : Principal)
    (config : LendingConfig) (height : U64) : Kernel Amount := do
  write fun s => { s with height := height }
  accrueLendingDebt frame vault borrower config

/-- Add the interest of a debt at one height after the other. -/
def accrueAtEach (frame : AuthorizedFrame) (vault : ContractId) (borrower : Principal)
    (config : LendingConfig) (heights : List U64) : Kernel Unit :=
  forEach heights fun height => do
    let _ ← accrueAt frame vault borrower config height

/-- Rounding down loses less than one unit. -/
theorem interest_step {debt first rate elapsed passed lost : ℕ} (hfirst : first ≤ debt)
    (h : 10000 * first + first * rate * passed ≤ 10000 * debt + 9999 * lost) :
    10000 * first + first * rate * (passed + elapsed) ≤
      10000 * withInterest debt rate elapsed + 9999 * (lost + 1) := by
  have hmono : first * rate * elapsed ≤ debt * rate * elapsed :=
    Nat.mul_le_mul_right _ (Nat.mul_le_mul_right _ hfirst)
  have hround : debt * rate * elapsed < 10000 * (debt * rate * elapsed / 10000) + 10000 :=
    Nat.lt_mul_div_succ _ (by decide)
  rw [withInterest, Nat.mul_add]
  omega

section Touching

variable {m m' : Machine} {frame : AuthorizedFrame} {vault : ContractId} {borrower : Principal}
  {config : LendingConfig}

theorem of_accrueAt {height : U64} {debt : Amount}
    (h : accrueAt frame vault borrower config height m = .ok debt m') :
    debt.val = withInterest (m.state.uintAt (.debt vault borrower config.debtAsset)).val
        config.interestBpsPerBlock.val (height.val -
          (m.state.uintAt (.debtLastAccrualHeight vault borrower config.debtAsset)).val) ∧
      m'.state.uintAt (.debt vault borrower config.debtAsset) = debt ∧
      (m'.state.uintAt (.debtLastAccrualHeight vault borrower config.debtAsset)).val =
        height.val := by
  apply wp.of_ok h
  refine .write ?_
  refine wp_accrueLendingDebt fun debt' s' hdebt hs' => ⟨hdebt, hs'.debt, ?_⟩
  rw [Machine.state_withState, hs'.last]
  rfl

/-- Touching a position again and again loses less than one unit each time. -/
theorem steps_of_accrueAtEach {heights : List U64} {first start lost : ℕ} {height : U64}
    (hlast : (m.state.uintAt (.debtLastAccrualHeight vault borrower config.debtAsset)).val =
      height.val)
    (hsorted : (height :: heights).Pairwise fun h h' => h.val ≤ h'.val) (hstart : start ≤ height.val)
    (hfirst : first ≤ (m.state.uintAt (.debt vault borrower config.debtAsset)).val)
    (hlost : 10000 * first + first * config.interestBpsPerBlock.val * (height.val - start) ≤
      10000 * (m.state.uintAt (.debt vault borrower config.debtAsset)).val + 9999 * lost)
    (h : accrueAtEach frame vault borrower config heights m = .ok () m') :
    10000 * first + first * config.interestBpsPerBlock.val *
        (((height :: heights).getLast (List.cons_ne_nil _ _)).val - start) ≤
      10000 * (m'.state.uintAt (.debt vault borrower config.debtAsset)).val +
        9999 * (lost + heights.length) := by
  induction heights generalizing m height lost with
  | nil =>
    cases h
    simpa using hlost
  | cons next heights ih =>
    obtain ⟨debt, m₂, hnext, hrest⟩ := wp.of_ok h (Q := fun _ m₁ => ∃ debt m₂,
        accrueAt frame vault borrower config next m = .ok debt m₂ ∧
          accrueAtEach frame vault borrower config heights m₂ = .ok () m₁) (by
      refine wp_bind.2 (wp_bind.2 ((wp_self _ m).imp fun debt m₂ h₂ => ?_))
      refine wp_pure.2 ?_
      exact (wp_self _ m₂).imp fun _ m₁ h₁ => ⟨debt, m₂, h₂, h₁⟩)
    obtain ⟨hdebt, hstored, hheight⟩ := of_accrueAt hnext
    obtain ⟨hle, hsorted⟩ := List.pairwise_cons.1 hsorted
    have hle := hle next List.mem_cons_self
    rw [hlast] at hdebt
    have hstep : 10000 * first + first * config.interestBpsPerBlock.val *
        (height.val - start + (next.val - height.val)) ≤
          10000 * withInterest _ _ (next.val - height.val) + 9999 * (lost + 1) :=
      interest_step hfirst hlost
    rw [← hdebt, ← hstored, show height.val - start + (next.val - height.val) = next.val - start by
      omega] at hstep
    have hgrown : first ≤ (m₂.state.uintAt (.debt vault borrower config.debtAsset)).val := by
      rw [hstored, hdebt]
      exact hfirst.trans (Nat.le_add_right _ _)
    have hend := ih hheight hsorted (hstart.trans hle) hgrown hstep hrest
    rw [List.getLast_cons (List.cons_ne_nil _ _), List.length_cons]
    omega

/-- Touching a position forgives interest, but less than one unit for each time but the last. -/
theorem touching_forgives_little {m₁ m₂ : Machine} {height : U64} {heights : List U64}
    {debt : Amount}
    (hlast : (m.state.uintAt (.debtLastAccrualHeight vault borrower config.debtAsset)).val =
      height.val)
    (hsorted : (height :: heights).Pairwise fun h h' => h.val ≤ h'.val)
    (hsteps : accrueAtEach frame vault borrower config heights m = .ok () m₁)
    (honce : accrueAt frame vault borrower config
      ((height :: heights).getLast (List.cons_ne_nil _ _)) m = .ok debt m₂) :
    debt.val ≤ (m₁.state.uintAt (.debt vault borrower config.debtAsset)).val +
      (heights.length - 1) := by
  obtain ⟨hdebt, -, -⟩ := of_accrueAt honce
  have hbound := steps_of_accrueAtEach hlast hsorted le_rfl le_rfl
    (show _ ≤ _ + 9999 * 0 by simp) hsteps
  rw [hlast] at hdebt
  rw [hdebt, withInterest]
  omega

end Touching

namespace Touched

/-- A debt of 5000 at one hundredth of a percent for each block. -/
def config : LendingConfig := ⟨"A", "B", "o", 5000, 10, 1, 7500⟩

def machine : Machine :=
  ⟨(DeTTaState.new "c").put (.debt "v" "bob" "B") 5000, CallContext.new "bob", CallLog.empty⟩

def frame : AuthorizedFrame :=
  ⟨"v", .ofList [StateKey.debt "v" "bob" "B", StateKey.debtLastAccrualHeight "v" "bob" "B"]⟩

/-- The debt after a computation that has not failed. -/
def debtAfter {α : Type} : EStateM.Result ExecutionError Machine α → Option ℕ
  | .ok _ m => some (m.state.uintAt (.debt "v" "bob" "B")).val
  | .error _ _ => none

theorem exists_of_debtAfter {α : Type} {r : EStateM.Result ExecutionError Machine α} {n : ℕ}
    (h : debtAfter r = some n) :
    ∃ a m, r = .ok a m ∧ (m.state.uintAt (.debt "v" "bob" "B")).val = n := by
  cases r with
  | ok a m => exact ⟨a, m, rfl, Option.some.inj h⟩
  | error => cases h

/-- Touched after one block, the position owes nothing for two blocks. -/
theorem touching_forgives :
    debtAfter (accrueAtEach frame "v" "bob" config [1, 2] machine) = some 5000 ∧
      debtAfter (accrueAt frame "v" "bob" config 2 machine) = some 5001 := by
  decide

theorem touching_forgives_little_twice : ∃ m₁ debt m₂,
    accrueAtEach frame "v" "bob" config [1, 3] machine = .ok () m₁ ∧
      accrueAt frame "v" "bob" config 3 machine = .ok debt m₂ ∧
      debt.val ≤ (m₁.state.uintAt (.debt "v" "bob" "B")).val + 1 := by
  obtain ⟨_, m₁, hsteps, -⟩ := exists_of_debtAfter (n := 5001)
    (r := accrueAtEach frame "v" "bob" config [1, 3] machine) (by decide)
  obtain ⟨debt, m₂, honce, -⟩ := exists_of_debtAfter (n := 5001)
    (r := accrueAt frame "v" "bob" config 3 machine) (by decide)
  have hlast : (machine.state.uintAt (.debtLastAccrualHeight "v" "bob" "B")).val =
      (0 : U64).val := by
    decide
  have hsorted : ([0, 1, 3] : List U64).Pairwise fun h h' => h.val ≤ h'.val := by decide
  exact ⟨m₁, debt, m₂, hsteps, honce, touching_forgives_little hlast hsorted hsteps honce⟩

end Touched

/-! ## Liquidations -/

/-- Debt and collateral of a borrower after a liquidation, and the debt that is written off. -/
structure DeTTaState.Liquidates (s : DeTTaState) (vault : ContractId) (borrower : Principal)
    (config : LendingConfig) (price repay : ℕ) (s' : DeTTaState) : Prop where
  price_pos : 0 < price
  repay_pos : 0 < repay
  collateral : (s'.uintAt (.collateral vault borrower config.collateralAsset)).val =
    (s.uintAt (.collateral vault borrower config.collateralAsset)).val -
      (min repay (s.accruedDebt vault borrower config) + (price - 1)) / price
  debt : ∃ left bad, left + bad = s.accruedDebt vault borrower config - repay ∧
    (s'.uintAt (.debt vault borrower config.debtAsset)).val = left ∧
    (s'.uintAt (.badDebt vault config.debtAsset)).val =
      (s.uintAt (.badDebt vault config.debtAsset)).val + bad ∧
    ((s'.uintAt (.collateral vault borrower config.collateralAsset)).val = 0 → left = 0) ∧
    ((s'.uintAt (.collateral vault borrower config.collateralAsset)).val ≠ 0 → bad = 0)

/-- What a liquidation writes off is not covered by the collateral, and what it seizes is paid
    for, up to one unit. -/
def DeTTaState.WritesOffShortfall (s : DeTTaState) (vault : ContractId) (borrower : Principal)
    (config : LendingConfig) (s' : DeTTaState) : Prop :=
  let debt := s.accruedDebt vault borrower config
  let collateral := (s.uintAt (.collateral vault borrower config.collateralAsset)).val
  let price := (s.uintAt (.oraclePrice config.oracleContract config.collateralAsset)).val
  let bad := (s'.uintAt (.badDebt vault config.debtAsset)).val -
    (s.uintAt (.badDebt vault config.debtAsset)).val
  let seized := collateral - (s'.uintAt (.collateral vault borrower config.collateralAsset)).val
  let repaid := debt - (s'.uintAt (.debt vault borrower config.debtAsset)).val - bad
  bad ≤ debt - collateral * price ∧ (0 < seized → (seized - 1) * price < repaid)

instance (s : DeTTaState) (vault : ContractId) (borrower : Principal) (config : LendingConfig)
    (s' : DeTTaState) : Decidable (s.WritesOffShortfall vault borrower config s') :=
  inferInstanceAs (Decidable (_ ∧ _))

section Liquidations

variable {m : Machine} {call : ContractCall} {tx : Transaction} {msgSender : Principal}
  {config : LendingConfig}

variable {β : Type} {P : DeTTaState → Prop}

theorem Leads.divCeil {k : Amount → Kernel β} {a b : Amount}
    (hk : ∀ c : Amount, 0 < b.val → c.val = (a.val + (b.val - 1)) / b.val → Leads P (k c) m) :
    Leads P (Detta.divCeil a b >>= k) m := by
  unfold Detta.divCeil
  refine .assoc (.ensure fun hb => .assoc (.checkedAdd fun c hc => ?_))
  refine hk _ (Nat.pos_of_ne_zero fun h => hb (Word.ext h)) ?_
  rw [Word.val_div, hc, Word.val_saturatingSub]
  rfl

/-- The debt that is left, and what is written off. -/
theorem Leads.settleDebt {k : Amount × Amount → Kernel β} {frame : AuthorizedFrame}
    {badDebtKey : StateKey} {price collateralAfter debtAfter : Amount}
    (hk : ∀ left bad s, left.val + bad.val = debtAfter.val →
      (collateralAfter.val = 0 → left.val = 0) → (collateralAfter.val ≠ 0 → bad.val = 0) →
      (s.uintAt badDebtKey).val = (m.state.uintAt badDebtKey).val + bad.val →
      (∀ key, badDebtKey ≠ key → s.uintAt key = m.state.uintAt key) →
      Grows m.state s → Leads P (k (left, bad)) (m.withState s)) :
    Leads P (Detta.settleDebt frame badDebtKey config price collateralAfter debtAfter >>= k) m := by
  unfold Detta.settleDebt
  split
  next h =>
    refine .assoc (.uintAt (.assoc (.checkedAdd fun sum hsum => .assoc (.stateSet ?_))))
    refine hk 0 debtAfter _ (Nat.zero_add _) (fun _ => rfl) (fun hne => ?_) ?_ (fun key hkey => ?_)
      (.put ..)
    · exact absurd (congrArg Word.val h.1) hne
    · rw [uintAt_put_self, hsum]
    · exact uintAt_put_of_ne _ _ hkey
  next h =>
    refine .assoc (.skip fun _ => .assoc (.ensure fun _ => ?_))
    refine hk debtAfter 0 m.state rfl (fun hzero => ?_) (fun _ => rfl) rfl (fun _ _ => rfl)
      (.refl _)
    exact congrArg Word.val (not_not.1 fun hne => h ⟨Word.ext hzero, hne⟩)

theorem Leads.freshLendingCollateralPrice {k : Amount → Kernel β} (hk : Leads P
      (k (m.state.uintAt (.oraclePrice config.oracleContract config.collateralAsset))) m) :
    Leads P (Detta.freshLendingCollateralPrice config >>= k) m := by
  unfold Detta.freshLendingCollateralPrice
  exact .assoc (.skip fun _ => .assoc (.skip fun _ => .assoc (.skip fun _ => .assoc (.uintAt
    (.assoc (.skip fun _ => hk))))))

theorem leads_liquidate {borrower : Principal} {repay : Amount} (hcall : Shields call)
    (hact : m.Active tx.target) (hb : tx.args[0]? = some (.principal borrower))
    (hn : tx.args[2]? = some (.amount repay)) :
    Leads (m.state.Liquidates tx.target borrower config
        (m.state.uintAt (.oraclePrice config.oracleContract config.collateralAsset)).val repay.val)
      (liquidate call tx msgSender config) m := by
  unfold liquidate
  refine .skip fun _ => .expectPrincipal fun b hb' => .skip fun _ => .expectAmount fun n hn' => ?_
  obtain rfl : borrower = b := by simpa [hb] using hb'
  obtain rfl : repay = n := by simpa [hn] using hn'
  refine .ensure fun hargs => .freshLendingCollateralPrice ?_
  refine .accrueLendingDebt fun debt s₁ hdebt hs₁ => ?_
  refine .ensure fun _ => .uintAt <| .skip fun _ => .skip fun _ => .divCeil fun seize hp hseize => ?_
  refine .settleDebt fun left bad s₂ hsum hnone hsome hbad hs₂ hg₂ => .skip fun _ => .skip fun _ => ?_
  have hact₂ : ((m.withState s₁).withState s₂).Active tx.target :=
    hact.mono rfl (hs₁.grows.trans hg₂)
  -- the payments leave the numbers of the vault alone
  refine .transferAssetBalance hcall hact₂ fun m₃ hact₃ _ hown₃ => ?_
  refine .onlyIfTransfer hcall hact₃ fun m₄ _ _ hown₄ => ?_
  refine .stateSet <| .stateSet <| .skip fun _ => .skip fun _ => .skip fun _ => .write (.pure ?_)
  have hcollateral : s₁.uintAt (.collateral tx.target borrower config.collateralAsset) =
      m.state.uintAt (.collateral tx.target borrower config.collateralAsset) :=
    hs₁.others _ nofun nofun
  have hbefore : s₁.uintAt (.badDebt tx.target config.debtAsset) =
      m.state.uintAt (.badDebt tx.target config.debtAsset) :=
    hs₁.others _ nofun nofun
  have hbad₄ : m₄.state.uintAt (.badDebt tx.target config.debtAsset) =
      s₂.uintAt (.badDebt tx.target config.debtAsset) :=
    DeTTaState.SameOwn.uintAt (hown₃.trans hown₄) rfl
  have hafter : (Word.saturatingSub (s₁.uintAt (.collateral tx.target borrower
      config.collateralAsset)) (minAmount seize (s₁.uintAt (.collateral tx.target borrower
      config.collateralAsset)))).val =
      (m.state.uintAt (.collateral tx.target borrower config.collateralAsset)).val - seize.val := by
    rw [Word.val_saturatingSub, val_minAmount, hcollateral]
    omega
  rw [Word.val_saturatingSub, val_minAmount, hdebt] at hsum
  rw [Machine.state_withState, hafter] at hnone hsome
  rw [Machine.state_withState, hbefore] at hbad
  rw [val_minAmount, hdebt] at hseize
  have hend (s₅ : DeTTaState) (hd : s₅.uintAt (.debt tx.target borrower config.debtAsset) = left)
      (hc : (s₅.uintAt (.collateral tx.target borrower config.collateralAsset)).val =
        (m.state.uintAt (.collateral tx.target borrower config.collateralAsset)).val - seize.val)
      (hb : s₅.uintAt (.badDebt tx.target config.debtAsset) =
        m₄.state.uintAt (.badDebt tx.target config.debtAsset)) :
      m.state.Liquidates tx.target borrower config
        (m.state.uintAt (.oraclePrice config.oracleContract config.collateralAsset)).val
        repay.val s₅ := by
    refine ⟨hp, Nat.pos_of_ne_zero fun h => hargs.2 (Word.ext h), hseize ▸ hc, left.val, bad.val,
      by omega, congrArg Word.val hd, ?_, ?_, ?_⟩
    · rw [hb, hbad₄, hbad]
    · exact fun h => hnone (hc.symm.trans h)
    · exact fun h => hsome (hc ▸ h)
  refine hend _ ?_ ((congrArg Word.val (uintAt_put_self _ _ _)).trans hafter) ?_
  all_goals simp [uintAt_events, uintAt_put]

/-- When the debt that is written off is not covered by the collateral: `c` is the collateral,
    `c'` what is left of it, `p` its price, `d` the debt and `n` what is repaid. -/
theorem shortfall_iff {c c' p d n left bad : ℕ} (hp : 0 < p) (hn : 0 < n)
    (hc : c' = c - (min n d + (p - 1)) / p) (hsum : left + bad = d - n)
    (hnone : c' = 0 → left = 0) (hsome : c' ≠ 0 → bad = 0) :
    (bad ≤ d - c * p ∧ (0 < c - c' → (c - c' - 1) * p < d - left - bad)) ↔
      d ≤ n ∨ c * p ≤ n ∨ n ≤ (c - 1) * p := by
  have hceil := Nat.lt_mul_div_succ (min n d + (p - 1)) hp
  have hfloor := Nat.mul_div_le (min n d + (p - 1)) p
  generalize (min n d + (p - 1)) / p = q at hc hceil hfloor
  rw [Nat.mul_succ] at hceil
  -- what is seized, but for one unit, is worth less than what is repaid
  have hpaid {k : ℕ} (hk : 0 < k) (hq : k ≤ q) : (k - 1) * p < min n d := by
    have hle : k * p ≤ p * q := Nat.mul_comm p q ▸ Nat.mul_le_mul_right p hq
    have hone : p ≤ k * p := Nat.le_mul_of_pos_left p hk
    rw [Nat.sub_mul]
    omega
  have hseized : 0 < c - c' → (c - c' - 1) * p < d - left - bad := fun hpos => by
    have := hpaid hpos (by omega)
    omega
  rw [and_iff_left hseized]
  by_cases hleft : c' = 0
  · have hzero := hnone hleft
    rcases Nat.eq_zero_or_pos c with rfl | hpos
    · omega
    · have := hpaid hpos (by omega)
      omega
  · have hzero := hsome hleft
    have hmore : q * p ≤ (c - 1) * p := Nat.mul_le_mul_right p (by omega)
    rw [Nat.mul_comm] at hmore
    omega

/-- A liquidation writes off what is not covered, unless what is repaid covers neither the debt
    nor the collateral, but more than the collateral without one unit. -/
theorem bad_debt_is_shortfall_iff {env : Env} {s₀ s s' : DeTTaState} {ops : List Op}
    {r : FrameRecord} {record : ContractRecord} {borrower : Principal} {repay : Amount}
    (hr : r ∈ runFrames env s₀ ops) (hlast : r.own.getLast? = some (s, s'))
    (hrecord : r.frame.start.contracts[r.frame.tx.target]? = some record)
    (hkind : record.kind = .lendingVault config.collateralAsset config.debtAsset
      config.oracleContract config.ltvBps config.maxOracleAge config.interestBpsPerBlock
      config.liquidationThresholdBps)
    (hmethod : r.frame.tx.method = .liquidate)
    (hb : r.frame.tx.args[0]? = some (.principal borrower))
    (hn : r.frame.tx.args[2]? = some (.amount repay)) :
    let debt := r.frame.start.accruedDebt r.frame.tx.target borrower config
    let collateral := (r.frame.start.uintAt
      (.collateral r.frame.tx.target borrower config.collateralAsset)).val
    let price := (r.frame.start.uintAt
      (.oraclePrice config.oracleContract config.collateralAsset)).val
    r.frame.start.WritesOffShortfall r.frame.tx.target borrower config s' ↔
      debt ≤ repay.val ∨ collateral * price ≤ repay.val ∨
        repay.val ≤ (collateral - 1) * price := by
  have hend := (ran_of_mem_runFrames hr).leads hlast
    (P := r.frame.start.Liquidates r.frame.tx.target borrower config (r.frame.start.uintAt
      (.oraclePrice config.oracleContract config.collateralAsset)).val repay.val)
    fun call m record' hcall hs hact hr' _ => by
      obtain rfl : record = record' := by simpa [hrecord] using hr'
      rw [hkind, kindMethod, lendingVaultMethod, hmethod, ← hs]
      exact leads_liquidate hcall hact hb hn
  obtain ⟨left, bad, hsum, hdebt, hbad, hnone, hsome⟩ := hend.debt
  intro debt collateral price
  rw [← shortfall_iff hend.price_pos hend.repay_pos hend.collateral hsum hnone hsome]
  simp only [DeTTaState.WritesOffShortfall, hdebt, hbad, Nat.add_sub_cancel_left]

end Liquidations

namespace Squeezed

/-- A vault that lends half of the price of the collateral. -/
def config : LendingConfig := ⟨"A", "B", "o", 5000, 10, 0, 8000⟩

def state : DeTTaState :=
  runOps Proxy.env (.new "c") [.deploy (.token "t" "A" [("alice", 1)]),
    .deploy (.token "u" "B" [("v", 100)]), .deploy (.oracle "o" "A" "alice" 10),
    .deploy (.lendingVault "v" "A" "B" "o" ⟨5000, 10, 0, 8000⟩)]

/-- `alice` borrows 90 on a unit that is worth 200, and then only 100, and repays something. -/
def ops (repay : Amount) : List Op :=
  [Deposits.call 0 "o" .submitPrice [.asset "A", .amount 200, .amount 0],
    Deposits.call 1 "v" .depositCollateral [.asset "A", .amount 1],
    Deposits.call 2 "v" .borrow [.asset "B", .amount 90],
    Deposits.call 3 "o" .submitPrice [.asset "A", .amount 100, .amount 0],
    Deposits.call 4 "v" .liquidate [.principal "alice", .asset "B", .amount repay]]

/-- The call that liquidates. -/
abbrev IsLiquidation (r : FrameRecord) (repay : Amount) : Prop :=
  (r.frame.start.contracts["v"]?.map (·.kind)) = some (.lendingVault "A" "B" "o" 5000 10 0 8000) ∧
    r.frame.tx.target = "v" ∧ r.frame.tx.method = .liquidate ∧
    r.frame.tx.args[0]? = some (.principal "alice") ∧ r.frame.tx.args[2]? = some (.amount repay) ∧
    r.frame.start.accruedDebt "v" "alice" config = 90 ∧
    (r.frame.start.uintAt (.collateral "v" "alice" "A")).val = 1 ∧
    (r.frame.start.uintAt (.oraclePrice "o" "A")).val = 100

set_option maxRecDepth 8000 in
/-- All of the debt is covered by the collateral, and most of it is written off. -/
theorem bad_debt_exceeds_shortfall :
    ∃ r ∈ runFrames Proxy.env state (ops 1), ∃ p ∈ r.own.getLast?, IsLiquidation r 1 ∧
      (p.2.uintAt (.badDebt "v" "B")).val = 89 ∧
      ¬r.frame.start.WritesOffShortfall "v" "alice" config p.2 := by
  decide

set_option maxRecDepth 8000 in
theorem evaluated : ∃ r ∈ runFrames Proxy.env state (ops 100), ∃ p ∈ r.own.getLast?,
    IsLiquidation r 100 := by
  decide

theorem bad_debt_is_shortfall_iff_repaid :
    ∃ r ∈ runFrames Proxy.env state (ops 100), ∃ p ∈ r.own.getLast?, IsLiquidation r 100 ∧
      r.frame.start.WritesOffShortfall "v" "alice" config p.2 := by
  obtain ⟨r, hr, p, hp, hliq⟩ := evaluated
  obtain ⟨hk, ht, hm, hb, hn, hdebt, -⟩ := id hliq
  obtain ⟨record, hrecord, hkind⟩ := Option.map_eq_some_iff.1 hk
  have hiff : r.frame.start.WritesOffShortfall r.frame.tx.target "alice" config p.2 ↔ _ :=
    bad_debt_is_shortfall_iff hr hp (ht ▸ hrecord) hkind hm hb hn
  rw [ht, hdebt] at hiff
  exact ⟨r, hr, p, hp, hliq, hiff.2 (.inl (by decide))⟩

end Squeezed

end Detta
