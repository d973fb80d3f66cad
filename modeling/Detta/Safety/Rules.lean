import Detta.Core.Chain

/-!
# Rules for the primitives of the kernel

What the primitives do to a running transaction, as preconditions (`wp_write`,
`wp_stateSet`, …), and which of them only read (the instances of `Reads`).
-/

namespace Detta

open Kernel

variable {α β : Type} {Q : α → Machine → Prop} {E : ExecutionError → Machine → Prop} {m : Machine}

namespace Machine

/-- A running transaction with another state. -/
def withState (m : Machine) (s : DeTTaState) : Machine := { m with state := s }

@[simp] theorem state_withState (m : Machine) (s : DeTTaState) : (m.withState s).state = s := rfl

@[simp] theorem context_withState (m : Machine) (s : DeTTaState) :
    (m.withState s).context = m.context := rfl

@[simp] theorem log_withState (m : Machine) (s : DeTTaState) : (m.withState s).log = m.log := rfl

@[simp] theorem withState_withState (m : Machine) (s s' : DeTTaState) :
    (m.withState s).withState s' = m.withState s' := rfl

@[simp] theorem withState_state (m : Machine) : m.withState m.state = m := rfl

end Machine

/-! ## Preconditions -/

variable {args : List Argument} {i : ℕ}

@[simp] theorem wp_read {f : DeTTaState → α} : wp (Kernel.read f) Q E m ↔ Q (f m.state) m := Iff.rfl

@[simp] theorem wp_write {Q : Unit → Machine → Prop} {f : DeTTaState → DeTTaState} :
    wp (write f) Q E m ↔ Q () (m.withState (f m.state)) := Iff.rfl

theorem wp.read {β : Type} {f : DeTTaState → β} {k : β → Kernel α} (h : wp (k (f m.state)) Q E m) :
    wp (Kernel.read f >>= k) Q E m :=
  wp_bind.2 h

theorem wp.write {f : DeTTaState → DeTTaState} {k : Unit → Kernel α}
    (h : wp (k ()) Q E (m.withState (f m.state))) : wp (Kernel.write f >>= k) Q E m :=
  wp_bind.2 h

@[simp] theorem wp_check {Q : Unit → Machine → Prop} {p : DeTTaState → Bool} {e : ExecutionError} :
    wp (check p e) Q E m ↔ (p m.state = true → Q () m) ∧ (p m.state = false → E e m) := by
  simp [check]

@[simp] theorem wp_uintAt {Q : Amount → Machine → Prop} {key : StateKey} :
    wp (uintAt key) Q E m ↔ Q (m.state.uintAt key) m := Iff.rfl

@[simp] theorem wp_ofExcept {r : Except ExecutionError α} :
    wp (Kernel.ofExcept r) Q E m ↔ (∀ a, r = .ok a → Q a m) ∧ (∀ e, r = .error e → E e m) := by
  cases r <;> simp [Kernel.ofExcept]

@[simp] theorem wp_stateSet {Q : Unit → Machine → Prop} {frame : AuthorizedFrame} {key : StateKey}
    {value : Amount} (hc : key.ownerContract = frame.contract)
    (hs : writeScopeContains frame.writeScope key = true) :
    wp (stateSet frame key value) Q E m ↔ Q () (m.withState (m.state.put key value)) := by
  simp [stateSet, hc, hs]

theorem wp_expectPrincipal {Q : Principal → Machine → Prop}
    (hok : ∀ p, args[i]? = some (.principal p) → Q p m) (hfail : ∀ e, E e m) :
    wp (expectPrincipal args i) Q E m := by
  refine wp_okOr.2 ⟨fun p hp => hok p ?_, fun _ => hfail _⟩
  split at hp
  next value hv => cases hp; exact hv
  next => cases hp

theorem wp_expectText {Q : String → Machine → Prop} (hok : ∀ t, args[i]? = some (.text t) → Q t m)
    (hfail : ∀ e, E e m) : wp (expectText args i) Q E m := by
  refine wp_okOr.2 ⟨fun t ht => hok t ?_, fun _ => hfail _⟩
  split at ht
  next value hv => cases ht; exact hv
  next => cases ht

theorem wp_expectAsset {Q : AssetId → Machine → Prop}
    (hok : ∀ a, args[i]? = some (.asset a) → Q a m) (hfail : ∀ e, E e m) :
    wp (expectAsset args i) Q E m := by
  refine wp_okOr.2 ⟨fun a ha => hok a ?_, fun _ => hfail _⟩
  split at ha
  next value hv => cases ha; exact hv
  next => cases ha

theorem wp_expectAmount {Q : Amount → Machine → Prop}
    (hok : ∀ n, args[i]? = some (.amount n) → Q n m) (hfail : ∀ e, E e m) :
    wp (expectAmount args i) Q E m := by
  refine wp_okOr.2 ⟨fun n hn => hok n ?_, fun _ => hfail _⟩
  split at hn
  next value hv => cases hn; exact hv
  next => cases hn

theorem wp_expectCertificate {Q : String → Machine → Prop}
    (hok : ∀ c, args[i]? = some (.certificate c) → Q c m) (hfail : ∀ e, E e m) :
    wp (expectCertificate args i) Q E m := by
  refine wp_okOr.2 ⟨fun c hc => hok c ?_, fun _ => hfail _⟩
  split at hc
  next value hv => cases hc; exact hv
  next => cases hc

/-- A live allowance is spent, or nothing happens. -/
theorem wp_consumeAllowance {Q : Unit → Machine → Prop} {contract : ContractId}
    {owner spender : Principal} {asset : AssetId} {amount : Amount}
    (hok : ∀ g spent, m.state.registry[GrantKey.allowance contract owner spender asset]? = some g →
      g.active = true → g.revoked = false → amount ≤ g.remaining →
      g.spent.checkedAdd amount = some spent →
      Q () (m.withState (m.state.grant (.allowance contract owner spender asset)
        { g with spent := spent })))
    (hfail : ∀ e, E e m) : wp (consumeAllowance contract owner spender asset amount) Q E m := by
  simp only [consumeAllowance, checkedAdd, wp_bind, wp_read, wp_okOr, wp_ensure, wp_write]
  refine ⟨fun g hg => ⟨fun ha => ⟨fun hr => ⟨fun _ => ⟨fun _ => ⟨fun hle => ⟨fun spent hs => ?_,
    ?_⟩, ?_⟩, ?_⟩, ?_⟩, ?_⟩, ?_⟩, ?_⟩
  · exact hok g spent hg ha hr hle hs
  all_goals exact fun _ => hfail _

/-! ## Reading -/

section Reading

instance (f : DeTTaState → α) : Reads (Kernel.read f) := ⟨fun _ => rfl⟩

instance (p : DeTTaState → Bool) (e : ExecutionError) : Reads (check p e) :=
  inferInstanceAs (Reads (Kernel.read p >>= fun holds => ensure (holds = true) e))

instance (key : StateKey) : Reads (uintAt key) :=
  inferInstanceAs (Reads (Kernel.read fun s => s.uintAt key))

instance (r : Except ExecutionError α) : Reads (Kernel.ofExcept r) := by
  cases r <;> simp only [Kernel.ofExcept] <;> infer_instance

variable (args : List Argument) (i : ℕ)

instance : Reads (expectArgs args i) :=
  inferInstanceAs (Reads (ensure _ _))

instance : Reads (expectPrincipal args i) := inferInstanceAs (Reads (okOr _ _))

instance : Reads (expectAsset args i) := inferInstanceAs (Reads (okOr _ _))

instance : Reads (expectAmount args i) := inferInstanceAs (Reads (okOr _ _))

instance : Reads (expectText args i) := inferInstanceAs (Reads (okOr _ _))

instance : Reads (expectCertificate args i) := inferInstanceAs (Reads (okOr _ _))

instance (a b : Amount) : Reads (checkedAdd a b) := inferInstanceAs (Reads (okOr _ _))

instance (a b : Amount) : Reads (checkedMul a b) := inferInstanceAs (Reads (okOr _ _))

instance (key : GrantKey) (subject : Principal) (right : GrantRight) (e : ExecutionError) :
    Reads (requireGrant key subject right e) := by
  unfold requireGrant
  infer_instance

instance (contract : ContractId) (updater : Principal) :
    Reads (requireOracleUpdater contract updater) :=
  inferInstanceAs (Reads (requireGrant _ _ _ _))

instance (contract : ContractId) (admin : Principal) :
    Reads (requireGovernanceAdmin contract admin) :=
  inferInstanceAs (Reads (requireGrant _ _ _ _))

instance (tx : Transaction) (msgSender : Principal) (policy : MethodPolicy) :
    Reads (enforceMethodAuthority tx msgSender policy) := by
  unfold enforceMethodAuthority
  split <;> infer_instance

instance (env : Env) (certificate : String) (expected : ExpectedBridgeMessage) :
    Reads (verifyBridgeFinalityProof env certificate expected) := by
  unfold verifyBridgeFinalityProof
  infer_instance

instance (amount : Amount) (feeBps : U64) : Reads (amountAfterFee amount feeBps) := by
  unfold amountAfterFee
  infer_instance

instance (config : LendingConfig) : Reads (freshLendingCollateralPrice config) := by
  unfold freshLendingCollateralPrice
  infer_instance

instance (collateral price : Amount) (bps : U64) :
    Reads (lendingDebtLimit collateral price bps) := by
  unfold lendingDebtLimit
  infer_instance

instance (a b : Amount) : Reads (divCeil a b) := by
  unfold divCeil
  infer_instance

instance (amount : Amount) (penaltyBps : U64) : Reads (applyStakingPenalty amount penaltyBps) := by
  unfold applyStakingPenalty
  infer_instance

instance (contract : ContractId) (asset : AssetId) : Reads (checkStakingTotals contract asset) := by
  unfold checkStakingTotals
  infer_instance

instance (tx : Transaction) (asset : AssetId) : Reads (stakingArgs tx asset) := by
  unfold stakingArgs
  infer_instance

instance (timelockDelay : U64) : Reads (timelockHeight timelockDelay) := by
  unfold timelockHeight
  infer_instance

instance (text : String) : Reads (validateNonempty text) :=
  inferInstanceAs (Reads (ensure _ _))

instance (env : Env) : Reads (submittedModule env args) := by
  unfold submittedModule
  split <;> infer_instance

end Reading

/-! ## Ending well -/

/-- The computation ends, if it does not fail, in a state with a property. -/
def Leads (P : DeTTaState → Prop) (p : Kernel α) (m : Machine) : Prop :=
  wp p (fun _ m' => P m'.state) (fun _ _ => True) m

namespace Leads

variable {P : DeTTaState → Prop} {p : Kernel α} {k : α → Kernel β} {k' : Unit → Kernel β}

variable {e : ExecutionError}

theorem assoc {γ : Type} {q : α → Kernel γ} {k : γ → Kernel β}
    (h : Leads P (p >>= fun a => q a >>= k) m) : Leads P ((p >>= q) >>= k) m :=
  wp_bind.2 (wp_bind.2 (wp.mono (wp_bind.1 h) (fun _ _ h' => wp_bind.1 h') fun _ _ h' => h'))

/-- Whatever happens before, the last part decides. -/
theorem after (hk : ∀ a m', Leads P (k a) m') : Leads P (p >>= k) m :=
  wp_bind.2 ((wp_self p m).imp fun a m' _ => hk a m')

/-- What is established first is not lost. -/
theorem first (hp : Leads P p m)
    (hk : ∀ a, Keeps (fun m => P m.state) (fun _ _ => True) (k a)) : Leads P (p >>= k) m :=
  wp_bind.2 (wp.mono hp (fun a m' h => hk a m' h) fun _ _ _ => trivial)

theorem skip [Reads p] (hk : ∀ a, Leads P (k a) m) : Leads P (p >>= k) m :=
  wp.skip hk fun _ => trivial

theorem pure {a : α} (h : P m.state) : Leads P (Pure.pure a) m := h

theorem check {test : DeTTaState → Bool} (h : test m.state = true → P m.state) :
    Leads P (Kernel.check test e) m :=
  wp_check.2 ⟨h, fun _ => trivial⟩

theorem ensure {c : Prop} [Decidable c] (hk : c → Leads P (k' ()) m) :
    Leads P (Detta.ensure c e >>= k') m :=
  wp.ensure ⟨hk, fun _ => trivial⟩

theorem okOr {o : Option α} (hk : ∀ a, o = some a → Leads P (k a) m) :
    Leads P (Detta.okOr o e >>= k) m :=
  wp.okOr ⟨hk, fun _ => trivial⟩

theorem uintAt {key : StateKey} {k : Amount → Kernel β}
    (hk : Leads P (k (m.state.uintAt key)) m) : Leads P (Kernel.uintAt key >>= k) m :=
  wp_bind.2 (wp_uintAt.2 hk)

theorem checkedAdd {a b : Amount} {k : Amount → Kernel β}
    (hk : ∀ c : Amount, c.val = a.val + b.val → Leads P (k c) m) :
    Leads P (Kernel.checkedAdd a b >>= k) m :=
  .okOr fun c hc => hk c (Word.checkedAdd_eq_some.1 hc)

theorem write {g : DeTTaState → DeTTaState} (hk : Leads P (k' ()) (m.withState (g m.state))) :
    Leads P (Kernel.write g >>= k') m :=
  wp.write hk

theorem stateSet {frame : AuthorizedFrame} {key : StateKey} {value : Amount}
    (hk : Leads P (k' ()) (m.withState (m.state.put key value))) :
    Leads P (Kernel.stateSet frame key value >>= k') m := by
  refine wp_bind.2 ?_
  simp only [Kernel.stateSet, wp_bind, wp_ensure, wp_write]
  exact ⟨fun _ => ⟨fun _ => hk, fun _ => trivial⟩, fun _ => trivial⟩

/-- An action that is not always done. -/
theorem onlyIf {c : Prop} [Decidable c] {p : Kernel Unit} (h : c → Leads P (p >>= k') m)
    (hn : ¬c → Leads P (k' ()) m) : Leads P (Detta.onlyIf c p >>= k') m :=
  wp_bind.2 (wp_onlyIf.2 ⟨fun hc => wp_bind.1 (h hc), hn⟩)

variable {args : List Argument} {i : ℕ}

theorem expectPrincipal {k : Principal → Kernel β}
    (hk : ∀ p, args[i]? = some (.principal p) → Leads P (k p) m) :
    Leads P (Kernel.expectPrincipal args i >>= k) m :=
  wp_bind.2 (wp_expectPrincipal hk fun _ => trivial)

theorem expectAsset {k : AssetId → Kernel β}
    (hk : ∀ a, args[i]? = some (.asset a) → Leads P (k a) m) :
    Leads P (Kernel.expectAsset args i >>= k) m :=
  wp_bind.2 (wp_expectAsset hk fun _ => trivial)

theorem expectAmount {k : Amount → Kernel β}
    (hk : ∀ n, args[i]? = some (.amount n) → Leads P (k n) m) :
    Leads P (Kernel.expectAmount args i >>= k) m :=
  wp_bind.2 (wp_expectAmount hk fun _ => trivial)

theorem read {α : Type} {f : DeTTaState → α} {k : α → Kernel β}
    (hk : Leads P (k (f m.state)) m) : Leads P (Kernel.read f >>= k) m :=
  wp.read hk

theorem expectText {k : String → Kernel β}
    (hk : ∀ t, args[i]? = some (.text t) → Leads P (k t) m) :
    Leads P (Kernel.expectText args i >>= k) m :=
  wp_bind.2 (wp_expectText hk fun _ => trivial)

theorem expectCertificate {k : String → Kernel β}
    (hk : ∀ c, args[i]? = some (.certificate c) → Leads P (k c) m) :
    Leads P (Kernel.expectCertificate args i >>= k) m :=
  wp_bind.2 (wp_expectCertificate hk fun _ => trivial)

end Leads

end Detta
