import Detta.Safety.Pause
import Detta.Safety.Trace

/-!
# What a transaction cannot reach

The registry and the storage are two tables that all contracts share. Every entry that a
transaction changes is one that some frame of it may write.

* Grants are written under few keys (`Frame.Grants`), so a transaction gives nobody a right
  over a contract that was there before, and touches the keys of an account only in a call of
  this account.
* Numbers are written for the contract of a frame, for a contract that the transaction
  deploys, and for the token that is the ledger of an asset in which a frame settles
  (`Frame.Reaches`).
-/

namespace Detta

open Kernel

/-! ## Grants -/

/-- The grants that a step of a frame may write. -/
inductive Frame.Grants (f : Frame) (s : DeTTaState) : GrantKey → Prop where
  | allowance (token : ContractId) (owner spender : Principal) (asset : AssetId) :
      Grants f s (.allowance token owner spender asset)
  | accountSigner (key : String)
      (hm : f.tx.method = .registerAccountKey ∨ f.tx.method = .revokeAccountKey) :
      Grants f s (.accountSigner f.msgSender key)
  | governanceAdmin {contract : ContractId} (hm : f.tx.method = .deployAspectContract)
      (hn : f.start.contracts.contains contract = false)
      (hc : s.contracts.contains contract = true) :
      Grants f s (.governanceAdmin contract f.tx.sender)

theorem DeTTaState.registry_grant_of_ne (s : DeTTaState) {key key' : GrantKey} (g : Grant)
    (h : key ≠ key') : (s.grant key g).registry[key']? = s.registry[key']? := by
  simp [grant, Std.ExtTreeMap.getElem?_insert, h]

section Grants

variable {f : Frame} {s s' : DeTTaState} {key : GrantKey}

/-- Other grants stay. -/
theorem OwnStep.registry_eq (h : OwnStep f s s') (hn : ¬f.Grants s key) :
    s'.registry[key]? = s.registry[key]? := by
  have hne : ∀ {key'}, f.Grants s key' → key' ≠ key := fun hg he => hn (he ▸ hg)
  cases h with
  | approve | permit | consume => exact s.registry_grant_of_ne _ (hne (.allowance _ _ _ _))
  | accountKey _ hm => exact s.registry_grant_of_ne _ (hne (.accountSigner _ hm))
  | admin hm _ hnew hc => exact s.registry_grant_of_ne _ (hne (.governanceAdmin hm hnew hc))
  | tokens ha =>
    obtain ⟨_, rfl⟩ := ha.onlyStorage
    rfl
  | deploy => rw [DeTTaState.registry_puts]; rfl
  | _ => rfl

end Grants

section Privileges

variable {env : Env} {s : DeTTaState} {tx : Transaction}

/-- Aspect contracts are deployed by the transaction itself. -/
theorem tx_eq_of_deploys {r : FrameRecord} (hr : r ∈ callFrames env s tx)
    (hm : r.frame.tx.method = .deployAspectContract) : r.frame.tx = tx := by
  have hstack := stack_of_mem_callFrames r hr
  obtain ⟨⟨inner, msgSender, start⟩, callers, own⟩ := r
  cases hstack with
  | cons _ hcall =>
    cases callers with
    | nil => exact hcall.1
    | cons => exact absurd hm hcall.2.method_ne_deploy

/-- A grant that a frame of a committed transaction changes is one that it may write. -/
theorem grants_of_own_ne (hc : Commits env s tx) {r : FrameRecord}
    (hr : r ∈ callFrames env s tx) {p : DeTTaState × DeTTaState} (hp : p ∈ r.own) {key : GrantKey}
    (hne : p.2.registry[key]? ≠ p.1.registry[key]?) :
    Grows (s.useNonce tx) r.frame.start ∧
      ∃ s₁, r.frame.Grants s₁ key ∧ Grows s₁ (applyTransaction env s tx).1 := by
  obtain ⟨s₁, s₂, hstep, hne', hstart, hend⟩ :=
    exists_step_of_own_ne (g := fun s => s.registry[key]?) hc hr hp hne
  exact ⟨hstart, s₁, not_not.1 fun hn => hne' (hstep.own.registry_eq hn),
    hstep.own.grows.trans hend⟩

/-- A grant that a transaction changes is changed by the code of one of its frames. -/
theorem exists_own_of_registry_ne {key : GrantKey}
    (hne : (applyTransaction env s tx).1.registry[key]? ≠ s.registry[key]?) :
    Commits env s tx ∧ ∃ r ∈ callFrames env s tx, ∃ p ∈ r.own,
      p.2.registry[key]? ≠ p.1.registry[key]? := by
  have hc : Commits env s tx := by
    by_contra hn
    rcases eq_of_not_commits hn with he | he
    · exact hne (by rw [he])
    · exact hne (by rw [he]; rfl)
  exact ⟨hc, exists_own_of_ne (g := fun s => s.registry[key]?) hc hne⟩

/-- The administrator of a contract changes only if the contract is new, and is then the sender
    of the transaction. -/
theorem admin_of_registry_ne {contract : ContractId} {admin : Principal}
    (hne : (applyTransaction env s tx).1.registry[GrantKey.governanceAdmin contract admin]? ≠
      s.registry[GrantKey.governanceAdmin contract admin]?) :
    admin = tx.sender ∧ s.contracts.contains contract = false ∧
      (applyTransaction env s tx).1.contracts.contains contract = true := by
  obtain ⟨hc, r, hr, p, hp, hne'⟩ := exists_own_of_registry_ne hne
  obtain ⟨hstart, s₁, hg, hend⟩ := grants_of_own_ne hc hr hp hne'
  cases hg with
  | governanceAdmin hm hn hc' =>
    refine ⟨by rw [tx_eq_of_deploys hr hm], ?_, hend.contains hc'⟩
    by_contra hold
    rw [hstart.contains (Bool.eq_true_of_not_eq_false hold)] at hn
    cases hn

variable (env s tx)

/-- No transaction changes who may govern a contract that is there before it, or who may set the
    prices of an oracle. Who may govern a contract that it deploys is its sender. The keys of an
    account are changed only by the code of frames whose caller is the account. -/
theorem no_privilege_escalation :
    (∀ contract principal, s.contracts.contains contract = true →
      (applyTransaction env s tx).1.registry[GrantKey.governanceAdmin contract principal]? =
          s.registry[GrantKey.governanceAdmin contract principal]? ∧
        (applyTransaction env s tx).1.registry[GrantKey.oracleUpdater contract principal]? =
          s.registry[GrantKey.oracleUpdater contract principal]?) ∧
    (∀ contract principal,
      (applyTransaction env s tx).1.registry[GrantKey.governanceAdmin contract principal]? ≠
        s.registry[GrantKey.governanceAdmin contract principal]? →
      principal = tx.sender ∧ s.contracts.contains contract = false ∧
        (applyTransaction env s tx).1.contracts.contains contract = true) ∧
    ∀ account key,
      (Commits env s tx → ∀ r ∈ callFrames env s tx, ∀ p ∈ r.own,
        p.2.registry[GrantKey.accountSigner account key]? ≠
          p.1.registry[GrantKey.accountSigner account key]? → r.frame.msgSender = account) ∧
      ((applyTransaction env s tx).1.registry[GrantKey.accountSigner account key]? ≠
        s.registry[GrantKey.accountSigner account key]? →
        Commits env s tx ∧ ∃ r ∈ callFrames env s tx, r.frame.msgSender = account ∧ ∃ p ∈ r.own,
          p.2.registry[GrantKey.accountSigner account key]? ≠
            p.1.registry[GrantKey.accountSigner account key]?) := by
  have hsigner : ∀ {account : Principal} {key : String}, Commits env s tx →
      ∀ r ∈ callFrames env s tx, ∀ p ∈ r.own,
        p.2.registry[GrantKey.accountSigner account key]? ≠
          p.1.registry[GrantKey.accountSigner account key]? → r.frame.msgSender = account :=
    fun hc r hr p hp hne => by
      obtain ⟨-, s₁, hg, -⟩ := grants_of_own_ne hc hr hp hne
      cases hg
      rfl
  refine ⟨fun contract principal hold => ⟨?_, ?_⟩, fun _ _ => admin_of_registry_ne,
    fun account key => ⟨hsigner, fun hne => ?_⟩⟩
  · by_contra hne
    rw [(admin_of_registry_ne hne).2.1] at hold
    cases hold
  · by_contra hne
    obtain ⟨hc, r, hr, p, hp, hne'⟩ := exists_own_of_registry_ne hne
    obtain ⟨-, s₁, hg, -⟩ := grants_of_own_ne hc hr hp hne'
    cases hg
  · obtain ⟨hc, r, hr, p, hp, hne'⟩ := exists_own_of_registry_ne hne
    exact ⟨hc, r, hr, hsigner hc r hr p hp hne', p, hp, hne'⟩

end Privileges

/-! ## Numbers -/

/-- The numbers that a step of a frame may write. -/
inductive Frame.Reaches (f : Frame) (s s' : DeTTaState) : StateKey → Prop where
  | own {key : StateKey} (hc : key.ownerContract = f.tx.target) : Reaches f s s' key
  | balance {token : ContractId} {asset : AssetId} (owner : Principal)
      (h : f.SettlesOn token asset) : Reaches f s s' (.balance token owner asset)
  | supply {token : ContractId} {asset : AssetId} (h : f.SettlesOn token asset) :
      Reaches f s s' (.totalSupply token asset)
  | new {key : StateKey} (hn : s.contracts.contains key.ownerContract = false)
      (hc : s'.contracts.contains key.ownerContract = true) : Reaches f s s' key

theorem DeTTaState.storage_put_of_ne (s : DeTTaState) {key key' : StateKey} (value : Amount)
    (h : key ≠ key') : (s.put key value).storage[key']? = s.storage[key']? := by
  simp [put, Std.ExtTreeMap.getElem?_insert, h]

theorem DeTTaState.storage_puts_of_ne (s : DeTTaState) {entries : List (StateKey × Amount)}
    {key : StateKey} (h : ∀ e ∈ entries, e.1 ≠ key) :
    (s.puts entries).storage[key]? = s.storage[key]? := by
  induction entries generalizing s with
  | nil => rfl
  | cons e entries ih =>
    refine (ih _ fun e' he' => h e' (List.mem_cons_of_mem _ he')).trans ?_
    exact s.storage_put_of_ne e.2 (h e List.mem_cons_self)

section Numbers

variable {f : Frame} {s s' : DeTTaState} {key : StateKey}

theorem Attempt.storage_eq {token : ContractId} {asset : AssetId} (h : Attempt f s token asset s')
    {s₂ : DeTTaState} (hn : ¬f.Reaches s s₂ key) : s'.storage[key]? = s.storage[key]? := by
  have hne : ∀ {key'}, f.Reaches s s₂ key' → key' ≠ key := fun hr he => hn (he ▸ hr)
  cases h with
  | move _ _ hm hd =>
    obtain ⟨-, _, -, rfl⟩ := DeTTaState.move_eq_some.1 hm
    have hbalance : ∀ owner, StateKey.balance token owner asset ≠ key := fun owner => by
      rcases hd with ht | ⟨-, hs⟩
      · exact hne (.own ht)
      · exact hne (.balance owner hs)
    rw [DeTTaState.storage_put_of_ne _ _ (hbalance _), s.storage_put_of_ne _ (hbalance _)]
  | mint _ hm hs =>
    obtain ⟨_, -, _, -, rfl⟩ := DeTTaState.mint_eq_some.1 hm
    rw [DeTTaState.storage_put_of_ne _ _ (hne (.balance _ hs)),
      s.storage_put_of_ne _ (hne (.supply hs))]

/-- Other numbers stay. -/
theorem OwnStep.storage_eq (h : OwnStep f s s') (hn : ¬f.Reaches s s' key) :
    s'.storage[key]? = s.storage[key]? := by
  cases h with
  | put value hc => exact s.storage_put_of_ne value fun he => hn (.own (he ▸ hc))
  | tokens ha => exact ha.storage_eq hn
  | @deploy contract record entries hnew _ hf =>
    refine DeTTaState.storage_puts_of_ne _ fun e he heq => hn (.new ?_ ?_)
    · rw [← heq, hf.ownerContract e he]
      exact hnew
    · rw [← heq, hf.ownerContract e he, DeTTaState.contracts_puts]
      simp [DeTTaState.withContract]
  | _ => rfl

end Numbers

/-- The kinds of contracts that settle in assets: pools, vaults, staking contracts, bridges. -/
def ContractKind.settles : ContractKind → Bool
  | ammPool .. | lendingVault .. | staking .. | bridge _ => true
  | _ => false

/-- Only contracts of these kinds move or create assets on their ledgers. -/
theorem Frame.Live.settles {f : Frame} (h : f.Live) {asset : AssetId} (hm : f.Moves asset) :
    ∃ record, f.start.contracts[f.tx.target]? = some record ∧ record.kind.settles = true := by
  rcases hm with ⟨record, hr, hmem⟩ | ⟨hm, -⟩
  · refine ⟨record, hr, ?_⟩
    cases hk : record.kind <;> simp [hk, ContractKind.moves] at hmem <;> rfl
  · obtain ⟨record, hr, ho, -⟩ := h
    refine ⟨record, hr, ?_⟩
    rcases hm with hm | hm <;> rw [hm] at ho <;>
      cases hk : record.kind <;> simp [hk, ContractKind.offers] at ho <;> rfl

/-- A number that a committed transaction changes belongs to a contract that it has called or
    deployed, or is a balance or the supply of a token that was the ledger of an asset, for a
    frame of a pool, a vault, a staking contract or a bridge that moves or creates the asset. -/
theorem storage_change_isolated {env : Env} {s : DeTTaState} {tx : Transaction}
    (hc : Commits env s tx) {key : StateKey}
    (hne : (applyTransaction env s tx).1.storage[key]? ≠ s.storage[key]?) :
    (∃ r ∈ callFrames env s tx, r.frame.tx.target = key.ownerContract) ∨
    (s.contracts.contains key.ownerContract = false ∧
      (applyTransaction env s tx).1.contracts.contains key.ownerContract = true) ∨
    ∃ r ∈ callFrames env s tx, ∃ record token asset,
      r.frame.start.contracts[r.frame.tx.target]? = some record ∧ record.kind.settles = true ∧
      r.frame.Moves asset ∧
      r.frame.start.resolveAssetLedger asset = some (.nativeToken token) ∧
      ((∃ owner, key = .balance token owner asset) ∨ key = .totalSupply token asset) := by
  obtain ⟨r, hr, p, hp, hne'⟩ := exists_own_of_ne (g := fun s => s.storage[key]?) hc hne
  obtain ⟨s₁, s₂, hstep, hne'', hstart, hend⟩ :=
    exists_step_of_own_ne (g := fun s => s.storage[key]?) hc hr hp hne'
  have hreach : r.frame.Reaches s₁ s₂ key :=
    not_not.1 fun hn => hne'' (hstep.own.storage_eq hn)
  cases hreach with
  | own ho => exact .inl ⟨r, hr, ho.symm⟩
  | new hn hnew =>
    refine .inr (.inl ⟨?_, hend.contains hnew⟩)
    by_contra hold
    rw [hstep.grows.contains (hstart.contains (Bool.eq_true_of_not_eq_false hold))] at hn
    cases hn
  | @balance token asset owner hs =>
    obtain ⟨record, hrec, hk⟩ := hstep.live.settles hs.moves
    exact .inr (.inr ⟨r, hr, record, token, asset, hrec, hk, hs.moves, hs.ledger,
      .inl ⟨owner, rfl⟩⟩)
  | @supply token asset hs =>
    obtain ⟨record, hrec, hk⟩ := hstep.live.settles hs.moves
    exact .inr (.inr ⟨r, hr, record, token, asset, hrec, hk, hs.moves, hs.ledger, .inr rfl⟩)

open Sweeper in
set_option maxRecDepth 8000 in
/-- A stake changes a balance of the token that it is paid in, which is not called. -/
theorem storage_change_isolated_stake :
    Commits env state Sweeper.stake ∧
      ((∃ r ∈ callFrames env state Sweeper.stake, r.frame.tx.target = "t") ∨
      (state.contracts.contains "t" = false ∧
        (applyTransaction env state Sweeper.stake).1.contracts.contains "t" =
          true) ∨
      ∃ r ∈ callFrames env state Sweeper.stake, ∃ record token asset,
        r.frame.start.contracts[r.frame.tx.target]? = some record ∧ record.kind.settles = true ∧
        r.frame.Moves asset ∧
        r.frame.start.resolveAssetLedger asset = some (.nativeToken token) ∧
        ((∃ owner, StateKey.balance "t" "alice" "A" = .balance token owner asset) ∨
          StateKey.balance "t" "alice" "A" = .totalSupply token asset)) := by
  have hrun : Commits env state Sweeper.stake ∧
      (applyTransaction env state Sweeper.stake).1.storage[
        StateKey.balance "t" "alice" "A"]? ≠
          state.storage[StateKey.balance "t" "alice" "A"]? := by
    decide
  exact ⟨hrun.1, storage_change_isolated hrun.1 hrun.2⟩

end Detta
