import Detta.Safety.Orderly
import Detta.Safety.Silent

/-!
# Ledgers that stay

A ledger is found exactly if it is the only one. Among tokens this lasts: a token is
deployed only for an asset without a token. But anybody may deploy an aspect contract that
is called like an asset with a token, or a token of an asset with an aspect contract. As
long as nobody does, the ledger stays.
-/

namespace Detta

open Kernel

/-! ## Steps -/

/-- The aspect contract that the frame deploys cannot transfer: its bundle, in the module
    that is known when the frame starts, exports no such method. -/
def Frame.deploysInert (f : Frame) (contract : ContractId) : Bool :=
  match f.tx.args[1]?, f.tx.args[2]? with
  | some (Argument.text moduleHash), some (Argument.text bundleId) =>
    match f.start.aspectModules[moduleHash]? with
    | some module =>
      match ContractRecord.aspectModuleContract contract module bundleId with
      | .ok record => !record.exportedMethods.contains erc20Transfer
      | .error _ => false
    | none => false
  | _, _ => false

/-- The frame deploys a second ledger of an asset. -/
def Frame.Rivals (f : Frame) (asset : AssetId) : AssetLedger → Prop
  | .nativeToken _ => f.tx.method = .deployAspectContract ∧
    f.tx.args[0]? = some (.text asset) ∧ f.deploysInert asset = false
  | .aspectToken _ => f.tx.method = .deployToken ∧ f.tx.args[1]? = some (.asset asset)

instance (f : Frame) (asset : AssetId) (ledger : AssetLedger) :
    Decidable (f.Rivals asset ledger) := by
  cases ledger <;> exact inferInstanceAs (Decidable (_ ∧ _))

section Steps

variable {f : Frame} {s s' : DeTTaState} {asset : AssetId}

/-- An asset gets a token only by a deployment for it, if it has none. -/
theorem OwnStep.keepsAsset (h : OwnStep f s s') (ho : Owned s) {token : ContractId}
    (hk : s'.KeepsAsset token asset) :
    s.KeepsAsset token asset ∨ (∀ token', ¬s.KeepsAsset token' asset) ∧
      f.tx.method = .deployToken ∧ f.tx.args[1]? = some (.asset asset) := by
  cases h with
  | put value _ hw => exact .inl ((DeTTaState.keepsAsset_put (hw.ne_totalSupply _ _)).1 hk)
  | tokens ha => exact .inl (ha.keepsAsset.1 hk)
  | govern hold hkind => exact .inl ((keepsAsset_withContract hold hkind).1 hk)
  | deploy hn _ hf hs =>
    rcases keepsAsset_of_founded hn hf ho hk with hk' | ⟨rfl, hnone⟩
    · exact .inl hk'
    · -- the supply of a new contract is among the first numbers
      rcases contains_puts hk.supply with hold | ⟨e, he, hkey⟩
      · have hc := ho _ hold
        rw [StateKey.ownerContract, hn] at hc
        cases hc
      · exact .inr ⟨hnone, hs e he _ _ hkey⟩
  | _ => exact .inl (hk.of_eq rfl rfl)

/-- An asset gets an aspect contract only by a deployment of one that is called like it. -/
theorem OwnStep.aspectLedgerOf (h : OwnStep f s s') (hg : Grows f.start s) :
    s'.aspectLedgerOf asset = s.aspectLedgerOf asset ∨ s.contracts.contains asset = false ∧
      (f.tx.method = .deployAspectContract ∧ f.tx.args[0]? = some (.text asset) ∧
          f.deploysInert asset = false ∨ s'.aspectLedgerOf asset = none) := by
  have hcongr : ∀ {c : ContractId} {r : ContractRecord} {t : DeTTaState}, c ≠ asset →
      t.contracts = (s.withContract c r).contracts →
      t.aspectLedgerOf asset = s.aspectLedgerOf asset := by
    intro c r t hne ht
    simp [DeTTaState.aspectLedgerOf, ht, DeTTaState.withContract,
      Std.ExtTreeMap.getElem?_insert, hne]
  cases h with
  | tokens ha =>
    obtain ⟨_, rfl⟩ := ha.onlyStorage
    exact .inl rfl
  | @govern contract old new ho hk he =>
    by_cases hne : contract = asset
    · subst hne
      exact .inl (by simp [DeTTaState.aspectLedgerOf, DeTTaState.withContract, ho, hk, he])
    · exact .inl (hcongr hne rfl)
  | @deploy contract record entries hn hd hf hs =>
    by_cases hne : contract = asset
    · subst hne
      refine .inr ⟨hn, ?_⟩
      have hnew : ((s.withContract contract record).puts entries).contracts[contract]? =
          some record := by
        rw [DeTTaState.contracts_puts]
        exact Std.ExtTreeMap.getElem?_insert_self
      rw [DeTTaState.aspectLedgerOf, hnew]
      cases hd with
      | token _ hk => exact .inr (by simp [hk, ContractKind.isAspectModule])
      | ammPool _ hk => exact .inr (by simp [hk, ContractKind.isAspectModule])
      | aspectModule hm ha hh hb hs hr =>
        by_cases hinert : f.deploysInert contract = false
        · exact .inl ⟨hm, ha, hinert⟩
        · refine .inr (if_neg fun hx => hinert ?_)
          -- the module that the frame has found at its start is still the same
          unfold Frame.deploysInert
          rw [hh, hb]
          dsimp only
          split
          next module' hmod =>
            have he := hg.aspectModules hmod
            rw [hs, Option.some.injEq] at he
            simp only [← he, hr, Bool.not_eq_false']
            exact (Bool.and_eq_true_iff.1 hx).2
          next => rfl
    · exact .inl (hcongr hne (DeTTaState.contracts_puts _ _))
  | _ => exact .inl rfl

theorem aspectLedgerOf_eq_none (h : s.contracts.contains asset = false) :
    s.aspectLedgerOf asset = none := by
  rw [DeTTaState.aspectLedgerOf, getElem?_eq_none_of_contains h]

/-- A step that deploys no second ledger leaves the only one as it is. -/
theorem OwnStep.sole (h : OwnStep f s s') (hg : Grows f.start s) (ho : Owned s)
    {ledger : AssetLedger} (hr : ¬f.Rivals asset ledger) (hl : ledger.Sole s asset) :
    ledger.Sole s' asset := by
  cases ledger with
  | nativeToken token =>
    obtain ⟨⟨hkeeps, honly⟩, hnone⟩ := hl
    refine ⟨⟨h.grows.keepsAsset hkeeps, fun token' hk => ?_⟩, ?_⟩
    · rcases h.keepsAsset ho hk with hk | ⟨hfree, -⟩
      · exact honly token' hk
      · exact absurd hkeeps (hfree token)
    · rcases h.aspectLedgerOf hg with he | ⟨-, hrival | he⟩
      · rw [he, hnone]
      · exact absurd hrival hr
      · exact he
  | aspectToken contract =>
    obtain ⟨hsome, hnone⟩ := hl
    refine ⟨?_, fun token hk => ?_⟩
    · rcases h.aspectLedgerOf hg with he | ⟨hn, -⟩
      · rw [he, hsome]
      · rw [aspectLedgerOf_eq_none hn] at hsome
        cases hsome
    · rcases h.keepsAsset ho hk with hk | ⟨-, hrival⟩
      · exact hnone token hk
      · exact hr hrival

end Steps

/-! ## Runs -/

section Runs

variable {env : Env} {s : DeTTaState} {asset : AssetId} {ledger : AssetLedger}

/-- All along a transaction, the only ledger stays, while nobody deploys a second one. -/
theorem callInvariant_sole (env : Env) (outer : Transaction) (asset : AssetId)
    (ledger : AssetLedger) :
    CallInvariant env outer (fun _ _ m => Owned m.state ∧
      ((∀ f ∈ m.log.frames, ¬f.Rivals asset ledger) → ledger.Sole m.state asset))
      fun _ => True where
  enter _ hI _ _ := ⟨hI.1, fun hn => hI.2 fun f hf => hn f (mem_frames_enter.2 (.inr hf))⟩
  own {_ f frames m s'} hr hl hI hs := by
    refine ⟨hs.owned (hl.contains (hr.grows _ List.mem_cons_self)) hI.1, fun hn => ?_⟩
    have hf : f ∈ m.log.frames := hr.mem_frames List.mem_cons_self
    exact hs.sole (hr.grows f List.mem_cons_self) hI.1 (hn f hf) (hI.2 hn)
  attempt _ _ _ _ := trivial
  leave _ _ hI := ⟨hI.1, fun hn => hI.2 fun f hf => hn f (mem_frames_leave.2 hf)⟩
  fail _ _ := trivial
  abort _ := trivial
  exhaust _ _ _ := trivial

/-- A transaction that deploys no second ledger leaves the only one as it is. -/
theorem applyTransaction_sole (ho : Owned s) {tx : Transaction}
    (hn : Commits env s tx → ∀ r ∈ callFrames env s tx, ¬r.frame.Rivals asset ledger)
    (hl : ledger.Sole s asset) : ledger.Sole (applyTransaction env s tx).1 asset := by
  have hl' : ledger.Sole (s.useNonce tx) asset := hl.of_eq rfl rfl
  refine (callInvariant_sole env tx asset ledger).keeps (P := fun s => ledger.Sole s asset)
    (fun _ => ⟨ho, fun _ => hl'⟩) hl hl' fun hc hf hr hI => hI.2 fun f hmem => ?_
  obtain ⟨r, hr', rfl⟩ := (mem_frames_iff_of_running hr hf).1 hmem
  exact hn hc r hr'

/-- From every state of a chain: the ledger of an asset stays the ledger of the asset, along
    all transactions and blocks, as long as no committed transaction deploys an aspect
    contract with transfers that is called like an asset with a token, or a token of an asset
    with an aspect contract. -/
theorem resolveAssetLedger_of_no_rival (hr : Reachable env s)
    (hl : s.resolveAssetLedger asset = some ledger) (ops : List Op)
    (hd : ∀ d, Op.deploy d ∉ ops)
    (hn : ∀ p ∈ runTransactions env s ops, Commits env p.1 p.2 →
      ∀ r ∈ callFrames env p.1 p.2, ¬r.frame.Rivals asset ledger) :
    (runOps env s ops).resolveAssetLedger asset = some ledger := by
  rw [resolveAssetLedger_eq_some_iff] at hl ⊢
  have howned := hr.owned
  clear hr
  induction ops generalizing s with
  | nil => exact hl
  | cons op ops ih =>
    have hstep : Owned (op.apply env s) ∧ ledger.Sole (op.apply env s) asset := by
      refine Op.apply_keeps (P := fun s => Owned s ∧ ledger.Sole s asset)
        (fun _ _ h => ⟨h.1, h.2.of_eq rfl rfl⟩) ⟨howned, hl⟩
        (fun d hop => absurd (hop ▸ List.mem_cons_self) (hd d)) fun p hp h => ?_
      exact ⟨(chainInvariant_owned env).transaction p.2 h.1,
        applyTransaction_sole h.1 (hn p (List.mem_append_left _ hp)) h.2⟩
    exact ih hstep.2 (fun d hmem => hd d (List.mem_cons_of_mem _ hmem))
      (fun p hp => hn p (List.mem_append_right _ hp)) hstep.1

end Runs

open Proxy in
set_option maxRecDepth 4000 in
/-- The token of an asset stays its ledger when it is used. -/
theorem resolveAssetLedger_of_no_rival_transfer :
    Commits env state Proxy.transfer ∧
      (runOps env state [.transaction Proxy.transfer]).resolveAssetLedger "A" =
        some (.nativeToken "t") := by
  have hrun : Commits env state Proxy.transfer ∧
      state.resolveAssetLedger "A" = some (.nativeToken "t") ∧
      ∀ r ∈ callFrames env state Proxy.transfer,
        ¬r.frame.Rivals "A" (.nativeToken "t") := by
    decide
  refine ⟨hrun.1, resolveAssetLedger_of_no_rival reachable_state hrun.2.1 _ (by simp)
    fun p hp _ => ?_⟩
  obtain rfl : p = (state, Proxy.transfer) := by
    simpa [runTransactions, Op.transactions] using hp
  exact hrun.2.2

/-! ## A second ledger -/

namespace Rogue

/-- A module whose contracts can transfer, but do something else: they append a message `m`
    for a bridge of the asset `A` to the outbox. -/
def declarations : Declarations where
  types := []
  aspects := [⟨"R", false, ∅, ∅, ∅, ∅⟩]
  bundles := [⟨"R", .ofList ["R"], ∅, ∅⟩]
  projections := [
    ⟨"R", "ERC20-transfer", .list ["=", .list ["R.ERC20-transfer", "$to", "$n"],
      .list ["send", "$to", "$n"]]⟩]
  actions := [
    ⟨"R", "send", true, some (.list ["=", .list ["send", "$to", "$n"],
      .list ["begin", .list ["cross-shard-outbox-append!", "d", "b", "m", "$to", "A", "$n"],
        "True"]])⟩]
  storageSchema := []
  invariants := []
  abi := [
    ⟨"R", "ERC20-transfer", .list ["args", .list ["to", "Address"], .list ["n", "Amount"]],
      "Bool"⟩]
  policies := [
    ⟨"R", "ERC20-transfer", .txSender, .ofList [EffectKind.crossShardOutboxAppend], ∅, ∅, ∅⟩]

def module : AspectModuleRecord :=
  { Proxy.module with moduleId := "R", ir := some (declarations.lower "00") }

def env : Env :=
  { Proxy.env with parseModule := fun source => some (source, declarations.lower "00") }

/-- A token, a bridge, a factory, and the module. -/
def state : DeTTaState :=
  runOps env (.new "c") [.deploy (.token "t" "A" [("alice", 100)]), .deploy (.bridge "b" "d"),
    .deploy (.factory "f"), .deploy (.aspectModule module)]

/-- Somebody deploys a contract of the module, with a name of their choice. -/
def deploy (contract : ContractId) : Transaction :=
  Proxy.call "mallory" "f" .deployAspectContract [.text contract, .text "00", .text "R"]

end Rogue

open Rogue in
set_option maxRecDepth 4000 in
/-- Somebody deploys an aspect contract that is called like the asset of a token: the asset has
    no ledger any more. -/
theorem usurped_ledger :
    Reachable env state ∧
      state.resolveAssetLedger "A" = some (.nativeToken "t") ∧
      Commits env state (deploy "A") ∧
      (runOps env state [.transaction (deploy "A")]).resolveAssetLedger "A" =
        none :=
  ⟨(Reachable.new "c").runOps _, by decide⟩

end Detta
