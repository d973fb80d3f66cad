import Detta.Safety.Settlement

/-!
# Orderly states

Among native contracts, no contract lets another account spend, an asset has one token,
and the outbox has messages of contracts only (`Orderly`). Deployments keep this order,
and so does every step of a frame. A deployment also leaves contracts solvent, and so does
every step of a method that moves no assets of its contract (`OwnStep.solvent`).
-/

namespace Detta

open Kernel DeTTaState

/-! ## Orderly states -/

/-- The contracts are native, and among given identifiers. -/
structure Within (C : ContractId → Prop) (s : DeTTaState) : Prop where
  native : s.NativeOnly
  contracts : ∀ contract, s.contracts.contains contract = true → C contract

/-- No contract lets another account spend, an asset has one token, and the outbox has
    messages of contracts only. -/
structure Orderly (C : ContractId → Prop) (s : DeTTaState) : Prop where
  owned : Owned s
  distinct : ∀ {contract : ContractId} {record : ContractRecord},
    s.contracts[contract]? = some record → record.kind.distinct = true
  unique : ∀ {token token' : ContractId} {asset : AssetId}, s.KeepsAsset token asset →
    s.KeepsAsset token' asset → token' = token
  consent : ∀ {token : ContractId} {owner spender : Principal} {asset : AssetId},
    s.registry.contains (.allowance token owner spender asset) = true → ¬C owner
  outbox : ∀ message ∈ s.crossShardOutbox, s.contracts.contains message.sourceContract = true

variable {C : ContractId → Prop} {s s' : DeTTaState}

variable {contract : ContractId} {kind : ContractKind} {entries : List (StateKey × Amount)}

theorem Within.of_contracts (h : Within C s')
    (hc : ∀ {contract : ContractId} {record : ContractRecord},
      s.contracts[contract]? = some record →
      ∃ record' : ContractRecord, s'.contracts[contract]? = some record' ∧
        record'.kind = record.kind) : Within C s := by
  refine ⟨fun contract record hr => ?_, fun contract hcontains => ?_⟩
  · obtain ⟨record', hr', hk⟩ := hc hr
    exact hk ▸ h.native contract record' hr'
  · obtain ⟨record, hr⟩ := Table.contains_iff.1 hcontains
    obtain ⟨record', hr', -⟩ := hc hr
    exact h.contracts contract (Table.contains_iff.2 ⟨record', hr'⟩)

theorem Within.of_eq (h : Within C s') (hc : s'.contracts = s.contracts) : Within C s :=
  h.of_contracts fun hr => ⟨_, hc.symm ▸ hr, rfl⟩

theorem Within.of_grows (h : Within C s') (hg : Grows s s') : Within C s :=
  h.of_contracts fun hr => by
    obtain ⟨record', hr', hk, -⟩ := hg.contracts hr
    exact ⟨record', hr', hk⟩

/-! ## Founding -/

theorem Founded.distinct (h : Founded s contract kind entries) : kind.distinct = true := by
  cases h with
  | ammPool hab => simpa [ContractKind.distinct] using hab
  | bare hk => exact hk
  | token | oracle | staking => rfl

/-- A new contract starts without claims. -/
theorem Founded.claims (h : Founded s contract kind entries) :
    ∀ e ∈ entries, e.1.isClaim = true → e.2 = 0 := by
  intro e he hc
  cases h with
  | token =>
    rcases List.mem_append.1 he with he | he
    · obtain ⟨_, -, rfl⟩ := List.mem_map.1 he
      cases hc
    · obtain rfl := List.mem_singleton.1 he
      cases hc
  | ammPool | oracle | staking =>
    simp only [initialPool, initialStaking, List.mem_cons, List.not_mem_nil, or_false] at he
    rcases he with rfl | rfl | rfl | rfl | rfl <;> rfl
  | bare => cases he

/-- A new contract brings a supply only of an asset that no token keeps yet. -/
theorem Founded.supply (h : Founded s contract kind entries)
    (hn : s.contracts.contains contract = false) {token : ContractId} {asset : AssetId} :
    ∀ e ∈ entries, e.1 = .totalSupply token asset →
      token = contract ∧ ∀ token', ¬s.KeepsAsset token' asset := by
  intro e he hkey
  cases h with
  | token hd ht hs =>
    rcases List.mem_append.1 he with he | he
    · obtain ⟨_, -, rfl⟩ := List.mem_map.1 he
      cases hkey
    · obtain rfl := List.mem_singleton.1 he
      cases hkey
      refine ⟨rfl, fun token' hk => ?_⟩
      have hne : token' ≠ contract := by
        rintro rfl
        rw [contains_of_isToken hk.isToken] at hn
        cases hn
      have := hs _ (Std.ExtTreeMap.mem_keys.2 hk.supply)
      simp [isSupplyElsewhere, hne] at this
  | ammPool | oracle | staking =>
    simp only [initialPool, initialStaking, List.mem_cons, List.not_mem_nil, or_false] at he
    rcases he with rfl | rfl | rfl | rfl | rfl <;> cases hkey
  | bare => cases he

section Founding

variable {contract : ContractId} {record : ContractRecord} {entries : List (StateKey × Amount)}

theorem contains_puts {key : StateKey} (h : (s.puts entries).storage.contains key = true) :
    s.storage.contains key = true ∨ ∃ e ∈ entries, e.1 = key := by
  induction entries generalizing s with
  | nil => exact .inl h
  | cons e entries ih =>
    rcases ih (s := s.put e.1 e.2) h with h | ⟨e', he', hkey⟩
    · exact (Table.contains_insert.1 h).symm.imp_right fun h => ⟨e, List.mem_cons_self, h⟩
    · exact .inr ⟨e', List.mem_cons_of_mem _ he', hkey⟩

variable (hn : s.contracts.contains contract = false)
  (hf : Founded s contract record.kind entries)

include hn hf

/-- After a deployment, an asset is kept by the token that has kept it, or by a new one
    if there has been none. -/
theorem keepsAsset_of_founded (ho : Owned s) {token : ContractId} {asset : AssetId}
    (h : ((s.withContract contract record).puts entries).KeepsAsset token asset) :
    s.KeepsAsset token asset ∨ token = contract ∧ ∀ token', ¬s.KeepsAsset token' asset := by
  rcases contains_puts h.supply with hs | ⟨e, he, hkey⟩
  · have hne : contract ≠ token := by
      rintro rfl
      rw [show s.contracts.contains contract = true from ho _ hs] at hn
      cases hn
    refine .inl ⟨?_, hs⟩
    have ht := h.isToken
    rwa [DeTTaState.IsToken, contracts_puts, withContract,
      Table.getElem?_insert_of_ne hne] at ht
  · exact .inr (hf.supply hn e he hkey)

omit hf in
theorem grows_founded :
    Grows s ((s.withContract contract record).puts entries) :=
  (Grows.ofNew hn).trans (.puts ..)

omit hn in
/-- A deployment changes nothing that others owe. -/
theorem liability_founded_of_ne {other : ContractId} (hne : contract ≠ other) (asset : AssetId) :
    ((s.withContract contract record).puts entries).liability other asset =
      s.liability other asset := by
  refine liability_congr ?_ (fun kind => ?_) ?_
  · simp [withContract, Std.ExtTreeMap.getElem?_insert, hne]
  · rw [puts_withContract]
    exact booked_puts_of_ne kind fun e he => hf.ownerContract e he ▸ hne
  · simp [DeTTaState.locked, withContract]

/-- A new contract owes nothing. -/
theorem liability_founded (ho : Orderly C s) (asset : AssetId) :
    ((s.withContract contract record).puts entries).liability contract asset = 0 := by
  have hbooked : (s.puts entries).booked record.kind contract asset = 0 := by
    refine booked_puts_zero ?_ hf.ownerContract hf.claims
    refine Table.sumWhere_eq_zero _ _ fun key value hv => Bool.eq_false_iff.2 fun hk => ?_
    simp only [Bool.and_eq_true, beq_iff_eq] at hk
    have := ho.owned key (Table.contains_iff.2 ⟨value, hv⟩)
    rw [hk.1, hn] at this
    cases this
  have hlocked : (s.puts entries).locked contract asset = 0 := by
    have hnil : (s.crossShardOutbox.filter fun message =>
        message.sourceContract == contract && message.asset == asset) = [] := by
      refine List.filter_eq_nil_iff.2 fun message hm hx => ?_
      simp only [Bool.and_eq_true, beq_iff_eq] at hx
      have := ho.outbox message hm
      rw [hx.1, hn] at this
      cases this
    simp [DeTTaState.locked, hnil]
  rw [puts_withContract]
  have hr : ((s.puts entries).withContract contract record).contracts[contract]? = some record := by
    simp [withContract]
  have hb : ((s.puts entries).withContract contract record).booked record.kind contract asset =
      (s.puts entries).booked record.kind contract asset := rfl
  have hl : ((s.puts entries).withContract contract record).locked contract asset =
      (s.puts entries).locked contract asset := rfl
  simp [DeTTaState.liability, hr, hb, hl, hbooked, hlocked]

theorem Orderly.founded (h : Orderly C s) :
    Orderly C ((s.withContract contract record).puts entries) := by
  refine ⟨h.owned.withNew record hn hf.ownerContract, fun {c r} hr => ?_, fun {t t' a} ht ht' => ?_,
    fun hc => h.consent (by simpa [withContract] using hc), fun message hm => ?_⟩
  · rw [contracts_puts] at hr
    rcases Table.of_getElem?_insert hr with ⟨-, rfl⟩ | hr
    · exact hf.distinct
    · exact h.distinct hr
  · rcases keepsAsset_of_founded hn hf h.owned ht with ht | ⟨rfl, hnone⟩
    · rcases keepsAsset_of_founded hn hf h.owned ht' with ht' | ⟨-, hnone⟩
      · exact h.unique ht ht'
      · exact absurd ht (hnone t)
    · rcases keepsAsset_of_founded hn hf h.owned ht' with ht' | ⟨rfl, -⟩
      · exact absurd ht' (hnone t')
      · rfl
  · rw [crossShardOutbox_puts] at hm
    exact (grows_founded hn).contains (h.outbox message hm)

theorem solvent_founded (ho : Orderly C s) (hs : s.Solvent) :
    ((s.withContract contract record).puts entries).Solvent := by
  intro other asset
  by_cases hne : contract = other
  · subst hne
    rw [liability_founded hn hf ho]
    exact ⟨fun _ _ => Nat.zero_le _, fun _ => rfl⟩
  · rw [liability_founded_of_ne hf hne]
    obtain ⟨hcover, hnone⟩ := hs other asset
    refine ⟨fun token hk => ?_, fun hk => hnone fun token ht => hk token ?_⟩
    · rcases keepsAsset_of_founded hn hf ho.owned hk with hk | ⟨-, hfree⟩
      · refine (hcover token hk).trans (le_of_eq ?_)
        refine Eq.trans (b := (s.withContract contract record).held token other asset) rfl ?_
        refine (held_puts_of_ne _ fun e he heq => ?_).symm
        have hc := hf.ownerContract e he
        rw [heq, StateKey.ownerContract] at hc
        rw [hc.symm, contains_of_isToken hk.isToken] at hn
        cases hn
      · rw [hnone hfree]
        exact Nat.zero_le _
    · exact (grows_founded hn).keepsAsset ht

end Founding

/-! ## Steps -/

/-- What is not lost is covered as before. -/
theorem DeTTaState.Solvent.mono (hs : s.Solvent)
    (hl : ∀ contract asset, s'.liability contract asset = s.liability contract asset)
    (hk : ∀ token asset, s'.KeepsAsset token asset ↔ s.KeepsAsset token asset)
    (hh : ∀ contract token asset, s.contracts.contains contract = true →
      s.held token contract asset ≤ s'.held token contract asset) : s'.Solvent := by
  intro contract asset
  obtain ⟨hcover, hnone⟩ := hs contract asset
  rw [hl]
  refine ⟨fun token ht => ?_, fun ht => hnone fun token hk' => ht token ((hk _ _).2 hk')⟩
  by_cases hc : s.contracts.contains contract = true
  · exact (hcover token ((hk _ _).1 ht)).trans (hh contract token asset hc)
  · rw [DeTTaState.liability, getElem?_eq_none_of_contains (Bool.eq_false_iff.2 hc)]
    exact Nat.zero_le _

/-- Only contracts, storage and outbox matter. -/
theorem DeTTaState.Solvent.congr (hs : s.Solvent) (hc : s'.contracts = s.contracts)
    (hst : s'.storage = s.storage) (ho : s'.crossShardOutbox = s.crossShardOutbox) :
    s'.Solvent := by
  refine hs.mono (fun contract asset => ?_) (fun _ _ => keepsAsset_congr hc hst) fun _ _ _ _ => ?_
  · refine liability_congr (by rw [hc]) (fun kind => ?_) ?_
    · rw [booked, booked, hst]
    · rw [locked, locked, ho]
  · rw [held, held, uintAt, uintAt, hst]

/-- The methods that move assets of their contract, or change what it owes. -/
def Method.custodial : Method → Bool
  | .addLiquidity | .swap | .queueBridgeMessage | .depositCollateral | .borrow | .liquidate
  | .stake | .unstake | .requestUnstake | .completeUnstake => true
  | _ => false

/-- The other methods write no claims. -/
theorem Method.isAside_of_writes {method : Method} {key : StateKey}
    (hc : method.custodial = false) (h : method.writes key = true) : key.isAside = true := by
  cases method <;> cases hc <;> cases key <;> first | rfl | cases h

section Steps

variable {f : Frame}

variable {token : ContractId} {asset : AssetId}

theorem keepsAsset_of_mint {receiver : Principal} {amount : Amount}
    (hk : s.KeepsAsset token asset) (h : s.mint token receiver asset amount = some s')
    {token' : ContractId} {asset' : AssetId} :
    s'.KeepsAsset token' asset' ↔ s.KeepsAsset token' asset' := by
  obtain ⟨_, -, _, -, rfl⟩ := mint_eq_some.1 h
  refine (keepsAsset_put (by simp)).trans ?_
  by_cases hsame : StateKey.totalSupply token asset = .totalSupply token' asset'
  · cases hsame
    exact ⟨fun _ => hk, fun hk => (Grows.put _ _ _).keepsAsset hk⟩
  · exact keepsAsset_put hsame

theorem Attempt.keepsAsset (h : Attempt f s token asset s') {token' : ContractId}
    {asset' : AssetId} : s'.KeepsAsset token' asset' ↔ s.KeepsAsset token' asset' := by
  cases h with
  | move _ _ hm => exact keepsAsset_of_move hm
  | mint hk hm => exact keepsAsset_of_mint hk hm

/-- Governance does not make a token of another contract. -/
theorem keepsAsset_withContract {contract : ContractId} {old new : ContractRecord}
    (ho : s.contracts[contract]? = some old) (hk : new.kind = old.kind) :
    (s.withContract contract new).KeepsAsset token asset ↔ s.KeepsAsset token asset := by
  have ht : (s.withContract contract new).IsToken token ↔ s.IsToken token := by
    unfold DeTTaState.IsToken withContract
    rw [Table.getElem?_insert]
    split
    next hc => simp [← hc, ho, hk]
    next => rfl
  exact ⟨fun h => ⟨ht.1 h.isToken, h.supply⟩, fun h => ⟨ht.2 h.isToken, h.supply⟩⟩

/-- Order is kept if nothing comes that is not in order. -/
theorem Orderly.mono (h : Orderly C s) (ho : Owned s')
    (hg : ∀ contract, s.contracts.contains contract = true → s'.contracts.contains contract = true)
    (hk : ∀ {token asset}, s'.KeepsAsset token asset → s.KeepsAsset token asset)
    (hd : ∀ {contract : ContractId} {record : ContractRecord},
      s'.contracts[contract]? = some record → record.kind.distinct = true)
    (hr : ∀ {token : ContractId} {owner spender : Principal} {asset : AssetId},
      s'.registry.contains (.allowance token owner spender asset) = true →
      s.registry.contains (.allowance token owner spender asset) = true ∨ ¬C owner)
    (hm : ∀ message ∈ s'.crossShardOutbox, message ∈ s.crossShardOutbox ∨
      s.contracts.contains message.sourceContract = true) : Orderly C s' where
  owned := ho
  distinct := hd
  unique ht ht' := h.unique (hk ht) (hk ht')
  consent hc := (hr hc).elim h.consent id
  outbox message hmem := hg _ ((hm message hmem).elim (h.outbox message) id)

/-- Only contracts, storage, grants and outbox matter. -/
theorem Orderly.of_eq (h : Orderly C s) (hc : s'.contracts = s.contracts)
    (hs : s'.storage = s.storage) (hr : s'.registry = s.registry)
    (ho : s'.crossShardOutbox = s.crossShardOutbox) : Orderly C s' := by
  refine h.mono ?_ (fun _ => by rw [hc]; exact id) (fun hk => hk.of_eq hc hs) ?_ ?_ ?_
  · intro key hk
    rw [hs] at hk
    rw [hc]
    exact h.owned key hk
  · rw [hc]
    exact h.distinct
  · rw [hr]
    exact .inl
  · rw [ho]
    exact fun _ => .inl

theorem contains_grant {key key' : GrantKey} {g : Grant}
    (h : (s.grant key g).registry.contains key' = true) :
    s.registry.contains key' = true ∨ key = key' := by
  exact (Table.contains_insert.1 h).symm

theorem OwnStep.orderly (h : OwnStep f s s') (ho : Orderly C s)
    (hl : s.contracts.contains f.tx.target = true)
    (hcaller : f.tx.method = .approve → ¬C f.msgSender) (hp : f.tx.method ≠ .permit) :
    Orderly C s' := by
  have howned := h.owned hl ho.owned
  have hg : ∀ contract, s.contracts.contains contract = true →
      s'.contracts.contains contract = true := fun _ => h.grows.contains
  cases h with
  | put value hc hk =>
    exact ho.mono howned hg (keepsAsset_put (hk.ne_totalSupply _ _)).1 ho.distinct .inl
      fun _ => .inl
  | tokens ha =>
    obtain ⟨_, rfl⟩ := ha.onlyStorage
    exact ho.mono howned hg ha.keepsAsset.1 ho.distinct .inl fun _ => .inl
  | deploy hn _ hf => exact ho.founded hn hf
  | govern hold hk =>
    refine ho.mono howned hg (keepsAsset_withContract hold hk).1 (fun {c r} hr => ?_) .inl
      fun _ => .inl
    rcases Table.of_getElem?_insert hr with ⟨-, rfl⟩ | hr
    · exact hk ▸ ho.distinct hold
    · exact ho.distinct hr
  | approve spender asset amount hm =>
    refine ho.mono howned hg (fun h => h.of_eq rfl rfl) ho.distinct (fun hc => ?_) fun _ => .inl
    refine (contains_grant hc).imp_right fun he => ?_
    cases he
    exact hcaller hm
  | permit _ _ _ hm => exact absurd hm hp
  | consume hm hgrant =>
    refine ho.mono howned hg (fun h => h.of_eq rfl rfl) ho.distinct (fun hc => ?_) fun _ => .inl
    refine .inl ((contains_grant hc).elim id fun he => ?_)
    cases he
    exact Table.contains_iff.2 ⟨_, hgrant⟩
  | accountKey | admin =>
    refine ho.mono howned hg (fun h => h.of_eq rfl rfl) ho.distinct (fun hc => ?_) fun _ => .inl
    exact (contains_grant hc).imp_right nofun
  | outbox message hc =>
    refine ho.mono howned hg (fun h => h.of_eq rfl rfl) ho.distinct .inl fun message' hmem => ?_
    refine (List.mem_append.1 hmem).imp_right fun hnew => ?_
    rw [List.mem_singleton.1 hnew, hc]
    exact hl
  | _ => exact ho.of_eq rfl rfl rfl rfl

/-- A movement that takes from no contract keeps contracts solvent. -/
theorem Attempt.solvent (h : Attempt f s token asset s') (hw : Within C s) (hs : s.Solvent)
    (hp : ∀ {token asset amount payer}, f.Pays s token asset amount payer → ¬C payer) :
    s'.Solvent := by
  refine hs.mono (fun contract a => ?_) (fun _ _ => h.keepsAsset) fun contract t a hc => ?_
  · cases h with
    | move _ _ hm => exact liability_of_move hm contract a
    | mint _ hm =>
      obtain ⟨_, -, _, -, rfl⟩ := mint_eq_some.1 hm
      exact (liability_put_of_not _ fun _ => rfl).trans
        (liability_put_of_not _ fun _ => rfl)
  · rcases h.held_le t contract a with hle | ⟨_, hpays, -⟩
    · exact hle
    · exact absurd (hw.contracts contract hc) (hp hpays)

/-- The contract of a frame is native, so the method is not one of an aspect contract. -/
theorem Frame.Live.method_ne_other (h : f.Live) (hg : Grows f.start s) (hn : s.NativeOnly)
    (projection : String) : f.tx.method ≠ .other projection := by
  intro hm
  obtain ⟨record, hr, ho⟩ := h
  obtain ⟨record', hr', hk, -⟩ := hg.contracts hr
  have hnative := hn _ _ hr'
  rw [hk] at hnative
  rw [hm] at ho
  cases hkind : record.kind <;>
    simp [hkind, ContractKind.isAspectModule, ContractKind.offers] at ho hnative

/-- A method that moves no assets of its contract is solvent step by step. -/
theorem OwnStep.solvent (h : OwnStep f s s') (ho : Orderly C s) (hw : Within C s)
    (hc : f.tx.method.custodial = false) (hother : ∀ projection, f.tx.method ≠ .other projection)
    (hp : ∀ {token asset amount payer}, f.Pays s token asset amount payer → ¬C payer)
    (hs : s.Solvent) : s'.Solvent := by
  cases h with
  | put value _ hk =>
    have hbooks := (Books.init C f.tx.target s).put (Method.isAside_of_writes hc hk.method) value
    exact hbooks.solvent hs hw.contracts fun _ => .inl (le_refl _)
  | tokens ha => exact ha.solvent hw hs hp
  | deploy hn _ hf => exact solvent_founded hn hf ho hs
  | govern hold hk =>
    refine hs.mono (fun contract asset => ?_) (fun _ _ => keepsAsset_withContract hold hk)
      fun _ _ _ _ => le_refl _
    refine liability_congr ?_ (fun _ => rfl) rfl
    rw [withContract, Table.getElem?_insert]
    split
    next he => simp [← he, hold, hk]
    next => rfl
  | outbox _ _ hm =>
    rcases hm with hm | ⟨projection, hm⟩
    · rw [hm] at hc
      cases hc
    · exact absurd hm (hother projection)
  | _ => exact hs.congr rfl rfl rfl

end Steps

end Detta
