import Detta.Safety.Step

/-!
# The ledger of an asset

The ledger of an asset is found by looking for a token that keeps the asset, and for an
aspect contract that is called like it. If there is a second one, no ledger is found, and
nothing can be settled in the asset any more.

* A ledger is found exactly if it is the only one (`resolveAssetLedger_eq_some_iff`).
* It is a contract that is there to keep the balances (`known_of_resolve`), for good
  (`lasts_known`).
* What a frame writes for its own contract changes no ledger (`resolveAssetLedger_put`).
-/

namespace Detta

/-! ## Tokens of an asset -/

namespace DeTTaState

variable {s s' : DeTTaState} {token : ContractId} {asset : AssetId}

theorem KeepsAsset.of_eq (h : s'.KeepsAsset token asset)
    (hc : s'.contracts = s.contracts) (hs : s'.storage = s.storage) : s.KeepsAsset token asset :=
  ⟨by have := h.isToken; rwa [IsToken, hc] at this, hs ▸ h.supply⟩

theorem keepsAsset_congr (hc : s'.contracts = s.contracts) (hs : s'.storage = s.storage) :
    s'.KeepsAsset token asset ↔ s.KeepsAsset token asset :=
  ⟨fun h => h.of_eq hc hs, fun h => h.of_eq hc.symm hs.symm⟩

/-- Which token keeps an asset does not depend on other numbers. -/
theorem keepsAsset_put {key : StateKey} {value : Amount} (h : key ≠ .totalSupply token asset) :
    (s.put key value).KeepsAsset token asset ↔ s.KeepsAsset token asset := by
  have hsupply : (s.put key value).storage.contains (.totalSupply token asset) =
      s.storage.contains (.totalSupply token asset) := by
    simp [put, Std.ExtTreeMap.contains_insert, h]
  exact ⟨fun hk => ⟨hk.isToken, hsupply ▸ hk.supply⟩, fun hk => ⟨hk.isToken, hsupply ▸ hk.supply⟩⟩

end DeTTaState

variable {s : DeTTaState} {asset : AssetId}

/-- No method writes a supply as a number of its own contract. -/
theorem Frame.Writes.ne_totalSupply {f : Frame} {key : StateKey} (h : f.Writes key)
    (token : ContractId) (asset : AssetId) : key ≠ .totalSupply token asset := by
  rintro rfl
  have hw := h.method
  cases hm : f.tx.method <;> simp [hm, Method.writes] at hw

/-! ## The only ledger -/

/-- The token is the only one that keeps the asset. -/
def Books.OnlyLedger (s : DeTTaState) (token : ContractId) (asset : AssetId) : Prop :=
  s.KeepsAsset token asset ∧ ∀ token', s.KeepsAsset token' asset → token' = token

/-- The ledger is the only one of the asset. -/
def AssetLedger.Sole (s : DeTTaState) (asset : AssetId) : AssetLedger → Prop
  | .nativeToken token => Books.OnlyLedger s token asset ∧ s.aspectLedgerOf asset = none
  | .aspectToken contract =>
    s.aspectLedgerOf asset = some contract ∧ ∀ token, ¬s.KeepsAsset token asset

/-- Who keeps an asset depends only on the contracts and their storage. -/
theorem AssetLedger.Sole.of_eq {s' : DeTTaState} {ledger : AssetLedger} (h : ledger.Sole s asset)
    (hc : s'.contracts = s.contracts) (hs : s'.storage = s.storage) : ledger.Sole s' asset := by
  have hkeeps : ∀ token, s'.KeepsAsset token asset ↔ s.KeepsAsset token asset :=
    fun _ => DeTTaState.keepsAsset_congr hc hs
  have haspect : s'.aspectLedgerOf asset = s.aspectLedgerOf asset := by
    rw [DeTTaState.aspectLedgerOf, hc, DeTTaState.aspectLedgerOf]
  cases ledger with
  | nativeToken token =>
    exact ⟨⟨(hkeeps _).2 h.1.1, fun token' hk => h.1.2 token' ((hkeeps _).1 hk)⟩,
      haspect.trans h.2⟩
  | aspectToken contract => exact ⟨haspect.trans h.1, fun token hk => h.2 token ((hkeeps _).1 hk)⟩

section Resolve

variable {s s' : DeTTaState} {asset : AssetId}

variable {token : ContractId}

theorem nativeSupplyOf_eq_some {key : StateKey} :
    s.nativeSupplyOf asset key = some token ↔
      key = .totalSupply token asset ∧ s.IsToken token := by
  cases key <;> simp only [DeTTaState.nativeSupplyOf, reduceCtorEq, false_and]
  split
  next h =>
    simp only [Option.some.injEq, StateKey.totalSupply.injEq]
    constructor
    · rintro rfl
      exact ⟨⟨rfl, h.1⟩, h.2⟩
    · exact fun h' => h'.1.1
  next h =>
    simp only [reduceCtorEq, false_iff, StateKey.totalSupply.injEq]
    rintro ⟨⟨rfl, rfl⟩, ht⟩
    exact h ⟨rfl, ht⟩

/-- The tokens with a supply are those that keep the asset. -/
theorem mem_supplies :
    token ∈ s.storage.keys.filterMap (s.nativeSupplyOf asset) ↔ s.KeepsAsset token asset := by
  rw [List.mem_filterMap]
  constructor
  · rintro ⟨key, hkey, hc⟩
    rw [nativeSupplyOf_eq_some] at hc
    exact ⟨hc.2, Std.ExtTreeMap.mem_keys.1 (hc.1 ▸ hkey)⟩
  · intro h
    exact ⟨_, Std.ExtTreeMap.mem_keys.2 h.supply, nativeSupplyOf_eq_some.2 ⟨rfl, h.isToken⟩⟩

theorem nodup_supplies : (s.storage.keys.filterMap (s.nativeSupplyOf asset)).Nodup := by
  refine List.Nodup.filterMap (fun k k' token hk hk' => ?_) Std.ExtTreeMap.nodup_keys
  rw [Option.mem_def, nativeSupplyOf_eq_some] at hk hk'
  rw [hk.1, hk'.1]

theorem supplies_eq_singleton :
    s.storage.keys.filterMap (s.nativeSupplyOf asset) = [token] ↔
      Books.OnlyLedger s token asset := by
  constructor
  · intro h
    have hmem : ∀ token', s.KeepsAsset token' asset ↔ token' = token := fun token' => by
      rw [← mem_supplies, h, List.mem_singleton]
    exact ⟨(hmem token).2 rfl, fun token' hk => (hmem token').1 hk⟩
  · intro h
    refine List.perm_singleton.1
      ((List.perm_ext_iff_of_nodup nodup_supplies (List.nodup_singleton _)).2 fun token' => ?_)
    rw [mem_supplies, List.mem_singleton]
    exact ⟨h.2 token', fun he => he ▸ h.1⟩

theorem supplies_eq_nil :
    s.storage.keys.filterMap (s.nativeSupplyOf asset) = [] ↔
      ∀ token, ¬s.KeepsAsset token asset := by
  rw [List.eq_nil_iff_forall_not_mem]
  exact forall_congr' fun token => not_congr mem_supplies

/-- A ledger is found exactly if it is the only one. -/
theorem resolveAssetLedger_eq_some_iff {ledger : AssetLedger} :
    s.resolveAssetLedger asset = some ledger ↔ ledger.Sole s asset := by
  unfold DeTTaState.resolveAssetLedger
  cases ledger with
  | nativeToken token =>
    rw [AssetLedger.Sole, ← supplies_eq_singleton]
    split
    next h₁ h₂ => simp [h₁, h₂]
    next h₁ h₂ => simp [h₁, h₂]
    next hother _ =>
      simp only [reduceCtorEq, false_iff, not_and]
      exact fun h₁ h₂ => hother token h₁ h₂
  | aspectToken contract =>
    rw [AssetLedger.Sole, ← supplies_eq_nil]
    split
    next h₁ h₂ => simp [h₁, h₂]
    next h₁ h₂ => simp [h₁, h₂]
    next _ hother =>
      simp only [reduceCtorEq, false_iff, not_and]
      exact fun h₂ h₁ => hother contract h₁ h₂

/-- Numbers that are not supplies change no ledger. -/
theorem resolveAssetLedger_put {key : StateKey} {value : Amount}
    (h : ∀ token, key ≠ .totalSupply token asset) :
    (s.put key value).resolveAssetLedger asset = s.resolveAssetLedger asset := by
  have hkeeps : ∀ token, (s.put key value).KeepsAsset token asset ↔ s.KeepsAsset token asset :=
    fun token => DeTTaState.keepsAsset_put (h token)
  ext ledger
  rw [resolveAssetLedger_eq_some_iff, resolveAssetLedger_eq_some_iff]
  cases ledger with
  | nativeToken token => simp only [AssetLedger.Sole, Books.OnlyLedger, hkeeps]; rfl
  | aspectToken contract => simp only [AssetLedger.Sole, hkeeps]; rfl

end Resolve

/-! ## What is known of a ledger -/

/-- A fact about the state that is never lost. -/
def Lasts (P : DeTTaState → Prop) : Prop := ∀ ⦃s s'⦄, Grows s s' → P s → P s'

/-- Where the balances of an asset are kept, by a contract that is there to keep them. -/
def AssetLedger.Known (s : DeTTaState) (asset : AssetId) : AssetLedger → Prop
  | .nativeToken contract => s.KeepsAsset contract asset
  | .aspectToken contract => ∃ record, s.contracts[contract]? = some record ∧
      record.kind.isAspectModule = true

theorem lasts_isToken (contract : ContractId) : Lasts fun s => s.IsToken contract :=
  fun _ _ h ht => h.isToken ht

theorem lasts_known (asset : AssetId) (ledger : AssetLedger) :
    Lasts fun s => ledger.Known s asset := by
  intro s s' h hk
  cases ledger with
  | nativeToken contract => exact h.keepsAsset hk
  | aspectToken contract =>
    obtain ⟨record, hr, ha⟩ := hk
    obtain ⟨record', hr', hkind, -⟩ := h.contracts hr
    exact ⟨record', hr', hkind ▸ ha⟩

/-- An aspect contract that keeps an asset is one. -/
theorem isAspectModule_of_aspectLedgerOf {contract : ContractId}
    (h : s.aspectLedgerOf asset = some contract) :
    ∃ record, s.contracts[contract]? = some record ∧ record.kind.isAspectModule = true := by
  unfold DeTTaState.aspectLedgerOf at h
  split at h
  next record hr =>
    split at h
    next hx =>
      cases h
      exact ⟨record, hr, (Bool.and_eq_true_iff.1 hx).1⟩
    next => cases h
  next => cases h

/-- The ledger of an asset is a token, or an aspect contract. -/
theorem known_of_resolve {ledger : AssetLedger} (h : s.resolveAssetLedger asset = some ledger) :
    ledger.Known s asset := by
  rw [resolveAssetLedger_eq_some_iff] at h
  cases ledger with
  | nativeToken token => exact h.1.1
  | aspectToken contract => exact isAspectModule_of_aspectLedgerOf h.1

end Detta
