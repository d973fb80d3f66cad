import Detta.Safety.Step

/-!
# What a deployment does

The states that the deployment helpers lead to: a new contract is added under an
unused identifier, and its first numbers are written.
-/

namespace Detta

open Kernel

variable {Q : Unit → Machine → Prop} {E : ExecutionError → Machine → Prop} {m : Machine}
  {contract : ContractId} {record : ContractRecord} {module : AspectModuleRecord}

@[simp] theorem wp_initStorage {key : StateKey} {value : Amount} :
    wp (initStorage key value) Q E m ↔ Q () (m.withState (m.state.put key value)) := Iff.rfl

@[simp] theorem wp_insertContract :
    wp (insertContract contract record) Q E m ↔
      Q () (m.withState (m.state.withContract contract record)) := Iff.rfl

theorem wp_validateNewContractId
    (hok : contract ≠ "" → m.state.contracts.contains contract = false → Q () m)
    (hfail : ∀ e, E e m) : wp (validateNewContractId contract) Q E m := by
  simp only [validateNewContractId, wp_bind, wp_read, wp_ensure]
  exact ⟨fun h => hok h.1 h.2, fun _ => hfail _⟩

/-! ## Manifests -/

/-- The authority that a manifest asks for a method. -/
def manifestAuthority (policies : List (Method × MethodPolicy)) (method : Method) :
    Option PolicyAuthority :=
  (policies.find? (·.1 = method)).map (·.2.authority)

/-- A manifest that declares the effects of its methods, and has the methods of the kind. -/
theorem ContractRecord.ByManifest.of_policies {codeHash : String} {kind : ContractKind}
    {policies : List (Method × MethodPolicy)} {invariants : List ContractInvariant}
    (h : (∀ p ∈ policies, ∀ e ∈ p.1.declares, p.2.effects.contains e = true) ∧
      policies.Pairwise fun p p' => p.1 ≠ p'.1)
    (ho : ∀ method, kind.offers method = true →
      manifestAuthority policies method = some method.authority) :
    (withPolicyManifest contract codeHash kind policies invariants).ByManifest where
  declared _ _ _ hp := h.1 _ (Table.mem_of_getElem?_ofList hp)
  exports _ method hoffers := by
    obtain ⟨p, hfind, hauthority⟩ := Option.map_eq_some_iff.1 (ho method hoffers)
    have hmem := List.mem_of_find?_eq_some hfind
    obtain rfl : p.1 = method := by simpa using List.find?_some hfind
    refine ⟨?_, p.2, ?_, hauthority⟩
    · exact Std.ExtTreeSet.contains_ofList.trans (by simpa using ⟨p.2, hmem⟩)
    · refine Std.ExtTreeMap.getElem?_ofList_of_mem Std.ReflCmp.compare_self ?_ hmem
      exact h.2.imp fun hne hc => hne (Std.LawfulEqCmp.compare_eq_iff_eq.1 hc)

/-! ## Tokens -/

/-- The total is the sum of the amounts, which are those of different owners. -/
theorem wp_initialSupply {Q : Amount → Machine → Prop} (balances : List (Principal × Amount))
    (seen : List Principal) (total : Amount)
    (hok : ∀ t : Amount, (balances.map (·.1)).Nodup → (∀ b ∈ balances, b.1 ∉ seen) →
      t.val = total.val + amountSum balances → Q t m)
    (hfail : ∀ e, E e m) : wp (initialSupply balances seen total) Q E m := by
  induction balances generalizing seen total with
  | nil => exact hok total .nil (by simp) (by simp [amountSum])
  | cons b balances ih =>
    obtain ⟨owner, amount⟩ := b
    simp only [initialSupply, validateNonempty, checkedAdd, wp_bind, wp_ensure, wp_okOr]
    refine ⟨fun _ => ⟨fun hs => ⟨fun next hn => ?_, fun _ => hfail _⟩, fun _ => hfail _⟩,
      fun _ => hfail _⟩
    refine ih _ _ fun t hd hseen ht => hok t ?_ ?_ ?_
    · refine List.nodup_cons.2 ⟨fun hmem => ?_, hd⟩
      obtain ⟨b, hb, rfl⟩ := List.mem_map.1 hmem
      exact hseen b hb List.mem_cons_self
    · intro b hb
      rcases List.mem_cons.1 hb with rfl | hb
      · exact hs
      · exact fun hmem => hseen b hb (List.mem_cons_of_mem _ hmem)
    · rw [ht, Word.checkedAdd_eq_some.1 hn]
      simp [amountSum, Nat.add_assoc]

theorem wp_forEach_initStorage (contract : ContractId) (asset : AssetId)
    (balances : List (Principal × Amount)) :
    wp (forEach balances fun b => initStorage (.balance contract b.1 asset) b.2) Q E m ↔
      Q () (m.withState (m.state.puts (initialBalances contract asset balances))) := by
  induction balances generalizing m with
  | nil => exact Iff.rfl
  | cons b balances ih =>
    rw [forEach, wp_bind, wp_initStorage, ih]
    rfl

/-- The state with a new token. -/
def DeTTaState.withToken (s : DeTTaState) (contract : ContractId) (codeHash : String)
    (asset : AssetId) (balances : List (Principal × Amount)) (total : Amount) : DeTTaState :=
  (s.withContract contract (ContractRecord.token contract codeHash)).puts
    (initialBalances contract asset balances ++ [(.totalSupply contract asset, total)])

theorem wp_deployToken {env : Env} {asset : AssetId} {balances : List (Principal × Amount)}
    (hrun : ∀ codeHash total, m.state.contracts.contains contract = false →
      (balances.map (·.1)).Nodup → total.val = amountSum balances →
      (∀ key ∈ m.state.storage.keys, isSupplyElsewhere contract asset key = false) →
      Q () (m.withState (m.state.withToken contract codeHash asset balances total)) ∧
      E .invariantViolation
        (m.withState (m.state.withToken contract codeHash asset balances total)))
    (hfail : ∀ e, E e m) : wp (deployToken env contract asset balances) Q E m := by
  unfold deployToken
  refine wp_bind.2 (wp_validateNewContractId (fun _ hn => ?_) hfail)
  refine .skip (fun _ => ?_) hfail
  refine wp_bind.2 (wp_initialSupply balances [] 0 (fun total hd _ ht => ?_) hfail)
  refine .read (.ensure ⟨fun hs => ?_, fun _ => hfail _⟩)
  have hr := hrun (env.hashing.rootOf (.arr [.str "detta-token-v1", .str contract])) total hn hd
    (by simpa using ht) (by simpa [List.any_eq_false] using hs)
  simp only [DeTTaState.withToken, DeTTaState.puts, List.foldl_append, List.foldl_cons,
    List.foldl_nil] at hr
  rw [wp_bind, wp_insertContract, wp_bind, wp_forEach_initStorage, wp_bind, wp_initStorage,
    wp_check]
  exact ⟨fun _ => hr.1, fun _ => hr.2⟩

/-! ## Pools -/

theorem wp_deployAmmPoolWithParameters {env : Env} {assetA assetB : AssetId}
    {parameters : AmmParameters}
    (hrun : ∀ codeHash, m.state.contracts.contains contract = false → assetA ≠ assetB →
      let s' := (m.state.withContract contract
        (ContractRecord.ammPool contract codeHash assetA assetB parameters)).puts
          (initialPool contract assetA assetB)
      Q () (m.withState s') ∧ E .invariantViolation (m.withState s'))
    (hfail : ∀ e, E e m) :
    wp (deployAmmPoolWithParameters env contract assetA assetB parameters) Q E m := by
  unfold deployAmmPoolWithParameters
  refine wp_bind.2 (wp_validateNewContractId (fun _ hn => ?_) hfail)
  refine .skip (fun _ => .skip (fun _ => ?_) hfail) hfail
  refine .ensure ⟨fun hab => ?_, fun _ => hfail _⟩
  refine .skip (fun _ => ?_) hfail
  simp only [Kernel.resolveAssetLedger, wp_bind, wp_read, wp_okOr]
  refine ⟨fun _ _ => ⟨fun _ _ => ?_, fun _ => hfail _⟩, fun _ => hfail _⟩
  have hr := hrun (env.hashing.rootOf (.arr [.str "detta-amm-v2", .str contract, .str assetA,
    .str assetB, Json.word parameters.swapFeeBps])) hn hab
  simp only [wp_bind, wp_insertContract, wp_initStorage, wp_check]
  exact ⟨fun _ => hr.1, fun _ => hr.2⟩

/-! ## Aspect contracts -/

/-- The record of an aspect contract is one of an aspect contract. -/
theorem isAspectModule_of_aspectModuleContract {bundleId : String}
    (h : ContractRecord.aspectModuleContract contract module bundleId = .ok record) :
    record.kind = .aspectModule module.moduleHash bundleId module.abiRoot module.policyRoot
      module.invariantRoot := by
  obtain ⟨policies, -, h⟩ := exists_of_bind_eq_ok h
  cases h
  rfl

/-- The policies of aspect contracts come from their modules. -/
theorem byManifest_aspectModuleContract {bundleId : String}
    (h : ContractRecord.aspectModuleContract contract module bundleId = .ok record) :
    record.ByManifest := by
  have hk := isAspectModule_of_aspectModuleContract h
  refine ⟨fun hn => ?_, fun hn => ?_⟩
  all_goals
    rw [hk] at hn
    cases hn

theorem wp_deployAspectContract {moduleHash bundleId : String}
    (hok : ∀ module record, m.state.contracts.contains contract = false →
      m.state.aspectModules[moduleHash]? = some module →
      ContractRecord.aspectModuleContract contract module bundleId = .ok record →
      Q () (m.withState (m.state.withContract contract record)))
    (hfail : ∀ e, E e m) : wp (deployAspectContract contract moduleHash bundleId) Q E m := by
  unfold deployAspectContract
  refine wp_bind.2 (wp_validateNewContractId (fun _ hn => ?_) hfail)
  refine .skip (fun _ => .skip (fun _ => ?_) hfail) hfail
  refine .read (.okOr ⟨fun module hm => ?_, fun _ => hfail _⟩)
  refine wp_bind.2 (wp_ofExcept.2 ⟨fun record hr => ?_, fun _ _ => hfail _⟩)
  exact wp_insertContract.2 (hok module record hn hm hr)

end Detta
