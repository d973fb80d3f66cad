import Detta.Safety.Reach

/-!
# Who pays in a frame

The call log keeps, for each frame, the stretches of its own code: from its start to
its first call, from one call to the next, and from the last call to its end. What the
frame takes from an account is what the account loses in these stretches
(`FrameRecord.ownDecrease`).

A frame takes native tokens only from its caller, from its own contract, and from
owners who have allowed its caller to spend as much (`FrameRecord.SpendsByRight`), with
one exception: the deposit of collateral takes from the sender of the transaction,
whoever calls it.
-/

namespace Detta

open Kernel

/-! ## Spending by right -/

namespace FrameRecord

variable (r : FrameRecord) (token : ContractId) (owner : Principal) (asset : AssetId)

end FrameRecord

/-! ## Stretches -/

/-- Between two states the code of a frame takes only from those it pays for. An owner
    who is not the caller or the contract pays once, from the start of the frame. -/
def Fair (f : Frame) (since now : DeTTaState) : Prop :=
  ∀ token owner asset, f.Spends owner ∨ since.held token owner asset ≤ now.held token owner asset ∨
    (f.tx.method = .transferFrom ∧ ∃ amount, f.Allowed token owner asset amount ∧
      since.held token owner asset ≤ now.held token owner asset + amount.val)

/-- What the log keeps of a frame: fair stretches, and only one of `transferFrom`. -/
structure Activation.Fair (a : Activation) : Prop where
  own : ∀ p ∈ a.own, Detta.Fair a.frame p.1 p.2
  single : a.frame.tx.method = .transferFrom → a.own = [] ∧ a.since = a.frame.start

variable {f : Frame} {s s' since : DeTTaState}

theorem Fair.refl (f : Frame) (s : DeTTaState) : Fair f s s := fun _ _ _ => .inr (.inl (le_refl _))

/-- A change that lowers only balances of those who pay is fair. -/
theorem Fair.step (h : Fair f since s) (hs : f.tx.method = .transferFrom → since = f.start)
    (hle : ∀ token owner asset, s.held token owner asset ≤ s'.held token owner asset ∨
      ∃ amount, f.Pays s token asset amount owner ∧
        s.held token owner asset ≤ s'.held token owner asset + amount.val) : Fair f since s' := by
  intro token owner asset
  rcases hle token owner asset with hle | ⟨amount, hp, hle⟩
  · rcases h token owner asset with h | h | ⟨hm, a, ha, h⟩
    · exact .inl h
    · exact .inr (.inl (h.trans hle))
    · exact .inr (.inr ⟨hm, a, ha, by omega⟩)
  · cases hp with
    | spends hp => exact .inl hp
    | allowed hm ht _ hst ha =>
      -- nothing has been written yet, so the stretch is this one step
      refine .inr (.inr ⟨hm, amount, ha, ?_⟩)
      have hsame : since.held token owner asset = s.held token owner asset := by
        rw [hs hm, DeTTaState.held, DeTTaState.held, DeTTaState.uintAt, DeTTaState.uintAt, hst]
      omega

/-! ## The log -/

/-- What the log says of the frames, in any moment: those that have returned were fair,
    and so are the active ones up to now. -/
structure FairLog (m : Machine) : Prop where
  finished : ∀ r ∈ m.log.finished, ∃ a : Activation, a.Fair ∧ ∃ now, Fair a.frame a.since now ∧
    r.frame = a.frame ∧ r.own = a.own ++ [(a.since, now)]
  top : ∀ a ∈ m.log.active.head?, a.Fair ∧ Fair a.frame a.since m.state
  callers : ∀ a ∈ m.log.active.tail, a.Fair ∧ a.frame.tx.method ≠ .transferFrom

namespace FairLog

variable {frames : List Frame} {m : Machine}

theorem withState (h : FairLog m) {outer : Transaction} (hr : Running outer (f :: frames) m)
    (hle : ∀ token owner asset, m.state.held token owner asset ≤ s'.held token owner asset ∨
      ∃ amount, f.Pays m.state token asset amount owner ∧
        m.state.held token owner asset ≤ s'.held token owner asset + amount.val) :
    FairLog (m.withState s') := by
  refine ⟨h.finished, fun a ha => ?_, h.callers⟩
  obtain ⟨hfair, hnow⟩ := h.top a ha
  obtain ⟨b, rest, hb, rfl, -⟩ := List.map_eq_cons_iff.1 hr.active
  obtain rfl : b = a := by simpa [hb] using ha
  exact ⟨hfair, hnow.step (fun hm => (hfair.single hm).2) hle⟩

theorem enter (h : FairLog m) {outer : Transaction} {tx : Transaction} {msgSender : Principal}
    (hr : Running outer frames m) (hc : Calls outer m.state tx msgSender frames) :
    FairLog (m.enter tx msgSender) := by
  refine ⟨h.finished, fun a ha => ?_, fun a ha => ?_⟩
  · obtain rfl : ⟨⟨tx, msgSender, m.state⟩, [], m.state⟩ = a := by
      simpa [Machine.enter, CallLog.enter] using ha
    exact ⟨⟨by simp, fun _ => ⟨rfl, rfl⟩⟩, .refl _ _⟩
  · cases hl : m.log.active with
    | nil => simp [Machine.enter, CallLog.enter, hl] at ha
    | cons b rest =>
      obtain rfl : b.frame :: rest.map (·.frame) = frames := by simpa [hl] using hr.active
      obtain ⟨hfair, hnow⟩ := h.top b (by simp [hl])
      -- a frame that calls is not a `transferFrom`
      have hm := hc.2.method_ne_transferFrom
      simp only [Machine.enter, CallLog.enter, hl, List.tail_cons, List.mem_cons] at ha
      rcases ha with rfl | ha
      · refine ⟨⟨fun p hp => ?_, fun hm' => absurd hm' hm⟩, hm⟩
        rcases List.mem_append.1 hp with hp | hp
        · exact hfair.own p hp
        · rw [List.mem_singleton.1 hp]
          exact hnow
      · exact h.callers a (by simpa [hl] using ha)

theorem leave (h : FairLog m) : FairLog m.leave := by
  refine ⟨fun r hr => ?_, fun b hb => ?_, fun b hb => ?_⟩
  · cases hl : m.log.active with
    | nil => exact h.finished r (by simpa [Machine.leave, CallLog.leave, hl] using hr)
    | cons a rest =>
      rw [finished_leave hl, List.mem_append, List.mem_singleton] at hr
      rcases hr with hr | rfl
      · exact h.finished r hr
      · obtain ⟨hfair, hnow⟩ := h.top a (by simp [hl])
        exact ⟨a, hfair, m.state, hnow, rfl, rfl⟩
  · rw [active_leave_eq, List.head?_modifyHead] at hb
    obtain ⟨c, hc, rfl⟩ := Option.map_eq_some_iff.1 hb
    obtain ⟨hfair, hm⟩ := h.callers c (List.mem_of_mem_head? hc)
    exact ⟨⟨hfair.own, fun hm' => absurd hm' hm⟩, .refl _ _⟩
  · rw [active_leave_eq, List.tail_modifyHead] at hb
    exact h.callers b (List.mem_of_mem_tail hb)

end FairLog

/-- The frames of a transaction are those of its log. -/
theorem callFrames_of_wp {env : Env} {tx : Transaction} {P : FrameRecord → Prop}
    (h : wp (executeCall env (callDepth (s.useNonce tx)) tx tx.sender)
      (fun _ m => ∀ r ∈ m.log.finished, P r) (fun _ m => ∀ r ∈ m.log.finished, P r)
      ⟨s.useNonce tx, CallContext.new tx.sender, CallLog.empty⟩) :
    ∀ r ∈ callFrames env s tx, P r := by
  unfold callFrames
  split
  next =>
    unfold runTransaction
    unfold wp at h
    split at h
    next hr => simpa only [hr] using h
    next hr => simpa only [hr] using h
  next => simp

namespace Proxy

/-- A module whose contracts pass calls on: `deposit` and `pay` call `depositCollateral` and
    `transfer` of the contract they are given. -/
def declarations : Declarations where
  types := []
  aspects := [⟨"P", false, ∅, ∅, ∅, ∅⟩]
  bundles := [⟨"P", .ofList ["P"], ∅, ∅⟩]
  projections := [
    ⟨"P", "deposit", .list ["=", .list ["P.deposit", "$c", "$a", "$n"],
      .list ["deposit", "$c", "$a", "$n"]]⟩,
    ⟨"P", "pay", .list ["=", .list ["P.pay", "$c", "$to", "$a", "$n"],
      .list ["pay", "$c", "$to", "$a", "$n"]]⟩]
  actions := [
    ⟨"P", "deposit", true, some (.list ["=", .list ["deposit", "$c", "$a", "$n"],
      .list ["begin", .list ["call-contract!", "$c", "depositCollateral", "$a", "$n"], "True"]])⟩,
    ⟨"P", "pay", true, some (.list ["=", .list ["pay", "$c", "$to", "$a", "$n"],
      .list ["begin", .list ["call-contract!", "$c", "transfer", "$to", "$a", "$n"], "True"]])⟩]
  storageSchema := []
  invariants := []
  abi := [
    ⟨"P", "deposit", .list ["args", .list ["c", "Address"], .list ["a", "Asset"],
      .list ["n", "Amount"]], "Bool"⟩,
    ⟨"P", "pay", .list ["args", .list ["c", "Address"], .list ["to", "Address"],
      .list ["a", "Asset"], .list ["n", "Amount"]], "Bool"⟩]
  policies := [
    ⟨"P", "deposit", .txSender, .ofList [EffectKind.callContract], ∅,
      .ofList [ContractPattern.mk .any "depositCollateral"], ∅⟩,
    ⟨"P", "pay", .txSender, .ofList [EffectKind.callContract], ∅,
      .ofList [ContractPattern.mk .any "transfer"], ∅⟩]

/-- The record of the module, all of whose roots are the same. -/
def module : AspectModuleRecord where
  moduleId := "P"
  moduleHash := "00"
  taxonomyVersion := "NormalizedBalanceFirst.v1"
  sourceRoot := "00"
  canonicalSource := none
  irRoot := "00"
  ir := some (declarations.lower "00")
  abiRoot := "00"
  policyRoot := "00"
  storageSchemaRoot := "00"
  registrySchemaRoot := "00"
  invariantRoot := "00"

/-- A front end that accepts the module, and a hash function with a single value. -/
def env : Env where
  hashing := ⟨fun _ => [], fun _ => [0]⟩
  parseFinalityProof _ := none
  parseModule source := some (source, declarations.lower "00")
  verifyModule _ := some ⟨"00", "00", "00", "00", "00", "00"⟩

/-- A token, a vault that takes it as collateral, a factory, and a contract `p` of the
    module. -/
def state : DeTTaState :=
  runOps env (.new "c") [.deploy (.token "t" "A" [("alice", 100)]),
    .deploy (.lendingVault "v" "A" "B" "o" ⟨5000, 10, 0, 5000⟩), .deploy (.factory "f"),
    .deploy (.aspectModule module), .deploy (.aspectContract "p" "00" "P")]

/-- A first transaction of a sender. -/
def call (sender : Principal) (target : ContractId) (method : Method) (args : List Argument) :
    Transaction where
  chainId := "c"
  txHash := "h"
  sender := sender
  nonce := 0
  validUntilHeight := none
  target := target
  method := method
  args := args
  signatureOk := true
  budget := 1000

/-- The sender of the transaction pays somebody. -/
def transfer : Transaction :=
  call "alice" "t" .transfer [.principal "bob", .asset "A", .amount 10]

theorem reachable_state : Reachable env state := (Reachable.new "c").runOps _

end Proxy

open Proxy

end Detta
