import Detta.Safety.Ledgers

/-!
# Paused contracts

A contract that is paused is not called: its methods are refused. Its storage does not change
while it is paused, with two exceptions. The contract may be unpaused and paused again in the
same transaction. And other native contracts move the tokens of a native token without a call,
when they settle in its asset.
-/

namespace Detta

open Kernel

/-- Nothing that a contract owns has changed, and it is paused. -/
structure Asleep (contract : ContractId) (s s' : DeTTaState) : Prop where
  paused : s'.pausedContracts.contains contract = true
  storage : ∀ key : StateKey, key.ownerContract = contract → s'.storage[key]? = s.storage[key]?

/-- The frame neither ends the pause of a contract nor settles in an asset that it keeps. -/
structure Frame.Spares (f : Frame) (contract : ContractId) (s : DeTTaState) : Prop where
  unpauses : ¬f.Unpauses contract
  moves : ∀ asset, f.Moves asset → ¬s.KeepsAsset contract asset

section Steps

variable {f : Frame} {s s₁ s₂ : DeTTaState} {contract : ContractId}

namespace Asleep

theorem of_eq (h : Asleep contract s s₁) (hp : s₂.pausedContracts = s₁.pausedContracts)
    (hs : s₂.storage = s₁.storage) : Asleep contract s s₂ :=
  ⟨hp ▸ h.paused, hs ▸ h.storage⟩

/-- Others may write what they own. -/
theorem put (h : Asleep contract s s₁) {key : StateKey} (value : Amount)
    (hk : key.ownerContract ≠ contract) : Asleep contract s (s₁.put key value) where
  paused := h.paused
  storage key' hk' := by
    rw [← h.storage key' hk', DeTTaState.put, Table.getElem?_insert_of_ne]
    rintro rfl
    exact hk hk'

theorem puts (h : Asleep contract s s₁) {entries : List (StateKey × Amount)}
    (hk : ∀ e ∈ entries, e.1.ownerContract ≠ contract) : Asleep contract s (s₁.puts entries) := by
  induction entries generalizing s₁ with
  | nil => exact h
  | cons e entries ih =>
    exact ih (h.put e.2 (hk e List.mem_cons_self)) fun e' he' => hk e' (List.mem_cons_of_mem _ he')

/-- What the contract keeps now it has kept before. -/
theorem keepsAsset (h : Asleep contract s s₁) (hg : Grows s s₁)
    (hd : s.contracts.contains contract = true) {asset : AssetId}
    (hk : s₁.KeepsAsset contract asset) : s.KeepsAsset contract asset := by
  constructor
  · obtain ⟨record, hr⟩ := Table.contains_iff.1 hd
    obtain ⟨record', hr', hkind, -⟩ := hg.contracts hr
    have ht := hk.isToken
    rw [DeTTaState.IsToken, hr', Option.map_some, hkind] at ht
    rw [DeTTaState.IsToken, hr, Option.map_some, ht]
  · have hs := hk.supply
    rwa [Table.contains_iff, h.storage _ rfl, ← Table.contains_iff] at hs

end Asleep

/-- Tokens of others are moved. -/
theorem Attempt.asleep {token : ContractId} {asset : AssetId}
    (h : Attempt f s₁ token asset s₂) (ha : Asleep contract s s₁) (ht : token ≠ contract) :
    Asleep contract s s₂ := by
  obtain ⟨_, _, _, _, rfl | ⟨_, rfl⟩, rfl⟩ := h.exists_put
  all_goals refine (ha.put _ ?_).put _ ?_ <;> exact ht

/-- A frame of another contract leaves a paused contract alone, if it does not settle in its
    asset. -/
theorem OwnStep.asleep (h : OwnStep f s₁ s₂) (ha : Asleep contract s s₁) (hg : Grows s s₁)
    (hd : s.contracts.contains contract = true) (ht : f.tx.target ≠ contract)
    (hf : f.Spares contract s) : Asleep contract s s₂ := by
  cases h with
  | put value hc => exact ha.put value (hc ▸ ht)
  | @tokens token asset _ hat =>
    refine hat.asleep ha ?_
    rintro rfl
    cases hat with
    | move _ _ _ hd' =>
      rcases hd' with rfl | ⟨hk, hm⟩
      · exact ht rfl
      · exact hf.moves asset hm.moves (ha.keepsAsset hg hd hk)
    | mint hk _ hm => exact hf.moves asset hm.moves (ha.keepsAsset hg hd hk)
  | pause paused _ hp =>
    refine ⟨?_, ha.storage⟩
    rcases hp contract ha.paused with hpaused | hu
    · exact hpaused
    · exact absurd hu hf.unpauses
  | @deploy new record entries hn _ hfound =>
    have hne : new ≠ contract := by
      rintro rfl
      rw [hg.contains hd] at hn
      cases hn
    have hnew : Asleep contract s (s₁.withContract new record) := ha.of_eq rfl rfl
    refine hnew.puts fun e he => ?_
    rw [hfound.ownerContract e he]
    exact hne
  | _ => exact ha.of_eq rfl rfl

end Steps

section Calls

variable {env : Env} {s : DeTTaState}

/-- All along a transaction, a paused contract is not called and stays as it is, while the frames
    spare it. -/
theorem callInvariant_asleep (env : Env) (outer : Transaction) (s : DeTTaState)
    (contract : ContractId) (hd : s.contracts.contains contract = true) :
    CallInvariant env outer (fun _ frames m => Grows s m.state ∧
      ((∀ f ∈ m.log.frames, f.Spares contract s) → Asleep contract s m.state ∧
        ∀ f ∈ frames, f.start.pausedContracts.contains contract = true)) fun _ => True where
  enter {_ _ m _ _} _ hI _ _ := by
    refine ⟨hI.1, fun hn => ?_⟩
    obtain ⟨ha, hstart⟩ := hI.2 fun f hf => hn f (mem_frames_enter.2 (.inr hf))
    refine ⟨ha, fun f hf => ?_⟩
    rcases List.mem_cons.1 hf with rfl | hf
    · exact ha.paused
    · exact hstart f hf
  own {_ f frames m s'} hr hl hI hs := by
    refine ⟨hI.1.trans hs.grows, fun hn => ?_⟩
    obtain ⟨ha, hstart⟩ := hI.2 hn
    have hf : f ∈ m.log.frames := hr.mem_frames List.mem_cons_self
    -- a frame of the contract itself has found it not to be paused
    have ht : f.tx.target ≠ contract := by
      rintro rfl
      obtain ⟨_, -, -, hp⟩ := hl
      rw [hstart f List.mem_cons_self] at hp
      cases hp
    exact ⟨hs.asleep ha hI.1 hd ht (hn f hf), hstart⟩
  attempt _ _ _ _ := trivial
  leave _ _ hI := by
    refine ⟨hI.1, fun hn => ?_⟩
    obtain ⟨ha, hstart⟩ := hI.2 fun f hf => hn f (mem_frames_leave.2 hf)
    exact ⟨ha, fun f hf => hstart f (List.mem_cons_of_mem _ hf)⟩
  fail _ _ := trivial
  abort _ := trivial
  exhaust _ _ _ := trivial

/-- A contract that is deployed and paused, and that no call of a transaction unpauses: nothing
    changes in its storage, except for what other native contracts settle in an asset that it
    keeps as a native token. -/
theorem paused_storage_eq (contract : ContractId) (hd : s.contracts.contains contract = true)
    (hp : s.pausedContracts.contains contract = true) (tx : Transaction)
    (hu : Commits env s tx → ∀ r ∈ callFrames env s tx, ¬r.frame.Unpauses contract)
    (hm : Commits env s tx → ∀ r ∈ callFrames env s tx, ∀ asset, r.frame.Moves asset →
      ¬s.KeepsAsset contract asset) (key : StateKey) (hk : key.ownerContract = contract) :
    (applyTransaction env s tx).1.storage[key]? = s.storage[key]? := by
  have hinit : Asleep contract (s.useNonce tx) (s.useNonce tx) := ⟨hp, fun _ _ => rfl⟩
  refine (callInvariant_asleep env tx (s.useNonce tx) contract hd).keeps
    (P := fun s' => s'.storage[key]? = s.storage[key]?)
    (fun _ => ⟨.refl _, fun _ => ⟨hinit, by simp⟩⟩) rfl rfl fun hc hf hr hI => ?_
  refine (hI.2 fun f hmem => ?_).1.storage key hk
  obtain ⟨r, hr', rfl⟩ := (mem_frames_iff_of_running hr hf).1 hmem
  exact ⟨hu hc r hr', fun asset hmoves hkeeps =>
    hm hc r hr' asset hmoves (hkeeps.of_eq rfl rfl)⟩

end Calls

/-! ## A paused token -/

namespace Sweeper

/-- A module whose contracts govern a token: `sweep` lets the token be used once, and pauses it
    again. -/
def declarations : Declarations where
  types := []
  aspects := [⟨"S", false, ∅, ∅, ∅, ∅⟩]
  bundles := [⟨"S", .ofList ["S"], ∅, ∅⟩]
  projections := [
    ⟨"S", "sweep", .list ["=", .list ["S.sweep", "$g", "$c", "$to", "$a", "$n"],
      .list ["sweep", "$g", "$c", "$to", "$a", "$n"]]⟩]
  actions := [
    ⟨"S", "sweep", true, some (.list ["=", .list ["sweep", "$g", "$c", "$to", "$a", "$n"],
      .list ["begin", .list ["call-contract!", "$g", "unpauseContract"],
        .list ["call-contract!", "$c", "transfer", "$to", "$a", "$n"],
        .list ["call-contract!", "$g", "pauseContract"], "True"]])⟩]
  storageSchema := []
  invariants := []
  abi := [
    ⟨"S", "sweep", .list ["args", .list ["g", "Address"], .list ["c", "Address"],
      .list ["to", "Address"], .list ["a", "Asset"], .list ["n", "Amount"]], "Bool"⟩]
  policies := [
    ⟨"S", "sweep", .txSender, .ofList [EffectKind.callContract], ∅,
      .ofList [ContractPattern.mk .any "unpauseContract", ContractPattern.mk .any "transfer",
        ContractPattern.mk .any "pauseContract"], ∅⟩]

def module : AspectModuleRecord :=
  { Proxy.module with moduleId := "S", ir := some (declarations.lower "00") }

def env : Env :=
  { Proxy.env with parseModule := fun source => some (source, declarations.lower "00") }

/-- Somebody has a contract `p` of the module pay from what it holds of a token. -/
def sweep (sender : Principal) : Transaction :=
  Proxy.call sender "p" (.other "sweep") [.principal "g", .principal "t", .principal "bob",
    .asset "A", .amount 1]

/-- Two tokens, of which the contract `p` governs one, a staking contract for its asset, and the
    contract `p`, which has paused the token after it has used it. -/
def state : DeTTaState :=
  runOps env (.new "c") [.deploy (.token "t" "A" [("p", 100), ("alice", 100)]),
    .deploy (.token "u" "B" [("alice", 100)]), .deploy (.staking "k" "A" ⟨5, 1, 100⟩),
    .deploy (.governance "g" "t" "p" 0), .deploy (.aspectModule module),
    .deploy (.aspectContract "p" "00" "S"), .transaction (sweep "carol")]

theorem reachable_state : Reachable env state := (Reachable.new "c").runOps _

/-- `alice` stakes some of the paused token. -/
def stake : Transaction := Proxy.call "alice" "k" .stake [.asset "A", .amount 10]

/-- After one more use of the contract `p`. -/
def swept : DeTTaState := (applyTransaction env state (sweep "mallory")).1

/-- After the stake of `alice`. -/
def staked : DeTTaState := (applyTransaction env state stake).1

/-- `alice` pays with the other token. -/
def transfer : Transaction :=
  Proxy.call "alice" "u" .transfer [.principal "bob", .asset "B", .amount 10]

set_option maxRecDepth 8000 in
/-- The three transactions, in the state in which the token is paused. -/
theorem evaluated :
    (state.pausedContracts.contains "t" = true ∧
      state.held "t" "p" "A" = 99 ∧ state.held "t" "alice" "A" = 100 ∧
      swept.pausedContracts.contains "t" = true ∧ swept.held "t" "p" "A" = 98 ∧
      staked.pausedContracts.contains "t" = true ∧ staked.held "t" "alice" "A" = 90) ∧
    state.contracts.contains "t" = true ∧ Commits env state transfer ∧
      ∀ r ∈ callFrames env state transfer, r.frame.tx.method = .transfer := by
  decide

end Sweeper

open Sweeper

/-- A transfer of a token settles in nothing. -/
theorem Frame.not_moves_of_transfer {f : Frame} (hm : f.tx.method = .transfer) (asset : AssetId) :
    ¬f.Moves asset := by
  rintro (⟨record, -, hmem⟩ | ⟨hm', -⟩)
  · rw [hm] at hmem
    cases hk : record.kind <;> simp [hk, ContractKind.moves] at hmem
  · rw [hm] at hm'
    rcases hm' with hm' | hm' <;> cases hm'

/-- The balances of a paused token stay when somebody uses another. -/
theorem paused_storage_eq_transfer :
    Commits env state Sweeper.transfer ∧
      (applyTransaction env state Sweeper.transfer).1.storage[
        StateKey.balance "t" "alice" "A"]? =
      state.storage[StateKey.balance "t" "alice" "A"]? := by
  obtain ⟨⟨hpaused, -⟩, hdeployed, hcommits, hmethod⟩ := evaluated
  refine ⟨hcommits, paused_storage_eq "t" hdeployed hpaused Sweeper.transfer
    (fun _ r hr hu => ?_) (fun _ r hr asset hm => ?_) _ rfl⟩
  · have := hmethod r hr
    rw [hu.1] at this
    cases this
  · exact absurd hm (Frame.not_moves_of_transfer (hmethod r hr) asset)

/-- A token is paused before and after a transaction that unpauses it, moves tokens, and pauses
    it again; and stakes in its asset move its tokens while it is paused. -/
theorem paused_token_moves :
    Reachable env state ∧
      state.pausedContracts.contains "t" = true ∧
      state.held "t" "p" "A" = 99 ∧ state.held "t" "alice" "A" = 100 ∧
      swept.pausedContracts.contains "t" = true ∧ swept.held "t" "p" "A" = 98 ∧
      staked.pausedContracts.contains "t" = true ∧
      staked.held "t" "alice" "A" = 90 :=
  ⟨reachable_state, evaluated.1⟩

end Detta
