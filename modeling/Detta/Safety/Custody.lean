import Detta.Safety.Reach

/-!
# Custody

Native contracts hold assets of others: pools hold reserves, staking contracts hold
stakes, vaults hold collateral, and bridges hold what they have locked. What a
contract owes by its own books (`liability`) is to be covered by what it holds on the
ledger of the asset (`Solvent`).

A method moves assets and writes the books one after the other. `Books` follows both
sides from the start of the method: it counts by how much the contract holds more than
it owes than at the start, so that a method is solvent if nothing is missing at its end
(`Books.solvent`).
-/

namespace Detta

open DeTTaState

/-! ## What contracts owe -/

/-- The numbers by which some contract owes an asset. -/
def StateKey.isClaim : StateKey → Bool
  | reserve _ _ | totalStaked _ _ | totalPendingUnbond _ _ | stakingPenaltyCollected _ _
  | collateral _ _ _ => true
  | _ => false

/-- The numbers by which a contract of a kind owes an asset. -/
def ContractKind.owes : ContractKind → AssetId → StateKey → Bool
  | ammPool assetA assetB _, asset, .reserve _ a =>
    a == asset && (asset == assetA || asset == assetB)
  | staking stakingAsset _ _ _, asset, .totalStaked _ a
  | staking stakingAsset _ _ _, asset, .totalPendingUnbond _ a
  | staking stakingAsset _ _ _, asset, .stakingPenaltyCollected _ a =>
    a == asset && asset == stakingAsset
  | lendingVault collateralAsset _ _ _ _ _ _, asset, .collateral _ _ _ => asset == collateralAsset
  | _, _, _ => false

/-- A contract that locks assets for other chains. -/
def ContractKind.isBridge : ContractKind → Bool
  | bridge _ => true
  | _ => false

theorem ContractKind.isClaim_of_owes {kind : ContractKind} {asset : AssetId} {key : StateKey}
    (h : kind.owes asset key = true) : key.isClaim = true := by
  cases kind <;> cases key <;> first | rfl | cases h

namespace DeTTaState

variable (s : DeTTaState)

/-- What a contract of a kind owes by its numbers. -/
def booked (kind : ContractKind) (contract : ContractId) (asset : AssetId) : ℕ :=
  Table.sumWhere (fun key => key.ownerContract == contract && kind.owes asset key)
    (fun value => value.asUint.val) s.storage

/-- What a contract has locked by messages to other chains. -/
def locked (contract : ContractId) (asset : AssetId) : ℕ :=
  ((s.crossShardOutbox.filter fun message =>
    message.sourceContract == contract && message.asset == asset).map fun message =>
      message.amount.val).sum

/-- What a contract owes of an asset. -/
def liability (contract : ContractId) (asset : AssetId) : ℕ :=
  match s.contracts[contract]? with
  | some record =>
    s.booked record.kind contract asset +
      if record.kind.isBridge then s.locked contract asset else 0
  | none => 0

/-- What contracts owe of an asset, they hold on the ledger of the asset; of an asset
    without a ledger nothing is owed. -/
def Solvent : Prop :=
  ∀ contract asset,
    (∀ token, s.KeepsAsset token asset →
      s.liability contract asset ≤ s.held token contract asset) ∧
    ((∀ token, ¬s.KeepsAsset token asset) → s.liability contract asset = 0)

variable {s} {contract : ContractId} {asset : AssetId} {key : StateKey}

variable {s' : DeTTaState} {kind : ContractKind} {entries : List (StateKey × Amount)}
  {payer receiver : Principal}

/-- What is owed depends on the kinds of contracts, the claims in their books and the
    outbox. -/
theorem liability_congr
    (hk : s'.contracts[contract]?.map (·.kind) = s.contracts[contract]?.map (·.kind))
    (hb : ∀ kind, s'.booked kind contract asset = s.booked kind contract asset)
    (ho : s'.locked contract asset = s.locked contract asset) :
    s'.liability contract asset = s.liability contract asset := by
  unfold liability
  cases h : s.contracts[contract]? with
  | none =>
    rw [h, Option.map_none, Option.map_eq_none_iff] at hk
    rw [hk]
  | some record =>
    rw [h, Option.map_some] at hk
    obtain ⟨record', hr', hkind⟩ := Option.map_eq_some_iff.1 hk
    simp only [hr', hkind, hb, ho]

theorem booked_eq_zero (h : ∀ key, kind.owes asset key = false) :
    s.booked kind contract asset = 0 :=
  Table.sumWhere_eq_zero _ _ fun key _ _ => by simp [h key]

/-- A number that is no claim on the contract does not matter. -/
theorem booked_put_of_not (value : Amount)
    (h : key.ownerContract = contract → kind.owes asset key = false) :
    (s.put key value).booked kind contract asset = s.booked kind contract asset := by
  refine Table.sumWhere_insert_of_not _ _ _ ?_ _
  by_cases hc : key.ownerContract = contract
  · simp [h hc]
  · simp [hc]

theorem booked_puts_of_ne (kind : ContractKind) (h : ∀ e ∈ entries, e.1.ownerContract ≠ contract) :
    (s.puts entries).booked kind contract asset = s.booked kind contract asset := by
  induction entries generalizing s with
  | nil => rfl
  | cons e entries ih =>
    refine (ih fun e' he' => h e' (List.mem_cons_of_mem _ he')).trans ?_
    exact booked_put_of_not e.2 fun hc => absurd hc (h e List.mem_cons_self)

theorem liability_put_of_not (value : Amount)
    (h : key.ownerContract = contract → key.isClaim = false) :
    (s.put key value).liability contract asset = s.liability contract asset := by
  refine liability_congr rfl (fun kind => booked_put_of_not value fun hc => ?_) rfl
  exact Bool.eq_false_iff.2 fun ho => by
    rw [ContractKind.isClaim_of_owes ho] at h
    cases h hc

/-- A claim changes what is owed by its own change. -/
theorem booked_put (kind : ContractKind) (asset : AssetId) (key : StateKey) (value : Amount) :
    (s.put key value).booked kind key.ownerContract asset +
        (if kind.owes asset key then (s.uintAt key).val else 0) =
      s.booked kind key.ownerContract asset + if kind.owes asset key then value.val else 0 := by
  by_cases ho : kind.owes asset key = true
  · have hsum := Table.sumWhere_insert
      (fun key' => key'.ownerContract == key.ownerContract && kind.owes asset key')
      (fun v : StateValue => v.asUint.val) s.storage (k := key) (by simp [ho]) ⟨value⟩
    have hold : (s.storage[key]?.map fun v : StateValue => v.asUint.val).getD 0 =
        (s.uintAt key).val := by
      unfold uintAt
      cases s.storage[key]? <;> rfl
    rw [hold] at hsum
    rw [if_pos ho, if_pos ho]
    exact hsum
  · rw [booked_put_of_not value fun _ => Bool.eq_false_iff.2 ho]
    rw [if_neg ho, if_neg ho]

/-- Claims of nothing book nothing. -/
theorem booked_puts_zero (hs : s.booked kind contract asset = 0)
    (hc : ∀ e ∈ entries, e.1.ownerContract = contract)
    (hz : ∀ e ∈ entries, e.1.isClaim = true → e.2 = 0) :
    (s.puts entries).booked kind contract asset = 0 := by
  induction entries generalizing s with
  | nil => exact hs
  | cons e entries ih =>
    refine ih (s := s.put e.1 e.2) ?_ (fun e' he' => hc e' (List.mem_cons_of_mem _ he'))
      fun e' he' => hz e' (List.mem_cons_of_mem _ he')
    have hput := booked_put (s := s) kind asset e.1 e.2
    rw [hc e List.mem_cons_self, hs] at hput
    split at hput
    next ho =>
      have : e.2.val = 0 := by rw [hz e List.mem_cons_self (ContractKind.isClaim_of_owes ho)]; rfl
      omega
    next => omega

theorem liability_put {record : ContractRecord} (asset : AssetId) (value : Amount)
    (hr : s.contracts[key.ownerContract]? = some record) :
    (s.put key value).liability key.ownerContract asset +
        (if record.kind.owes asset key then (s.uintAt key).val else 0) =
      s.liability key.ownerContract asset +
        if record.kind.owes asset key then value.val else 0 := by
  have hbooked := booked_put (s := s) record.kind asset key value
  have hr' : (s.put key value).contracts[key.ownerContract]? = some record := hr
  have hlocked : (s.put key value).locked key.ownerContract asset =
      s.locked key.ownerContract asset := rfl
  simp only [liability, hr, hr', hlocked]
  omega

/-- A message locks its amount, for its contract. -/
theorem locked_append (s : DeTTaState) (message : CrossShardMessage)
    (ids : Std.ExtTreeSet String) (contract : ContractId) (asset : AssetId) :
    DeTTaState.locked { s with
        outboundMessageIds := ids
        crossShardOutbox := s.crossShardOutbox ++ [message] } contract asset =
      s.locked contract asset +
        if contract = message.sourceContract ∧ asset = message.asset then message.amount.val
        else 0 := by
  simp only [locked, List.filter_append, List.map_append, List.sum_append]
  congr 1
  by_cases h : contract = message.sourceContract ∧ asset = message.asset
  · simp [h]
  · have hf : (message.sourceContract == contract && message.asset == asset) = false := by
      refine Bool.eq_false_iff.2 fun hx => h ?_
      simp only [Bool.and_eq_true, beq_iff_eq] at hx
      exact ⟨hx.1.symm, hx.2.symm⟩
    simp [h, hf]

/-- A movement of tokens is no change in the books. -/
theorem liability_of_move {token : ContractId} {moved : AssetId} {amount : Amount}
    (h : s.move token payer receiver moved amount = some s') (contract : ContractId)
    (asset : AssetId) :
    s'.liability contract asset = s.liability contract asset := by
  obtain ⟨-, _, -, rfl⟩ := move_eq_some.1 h
  exact (liability_put_of_not _ fun _ => rfl).trans (liability_put_of_not _ fun _ => rfl)

theorem keepsAsset_of_move {token : ContractId} {moved : AssetId} {amount : Amount}
    (h : s.move token payer receiver moved amount = some s')
    {token' : ContractId} : s'.KeepsAsset token' asset ↔ s.KeepsAsset token' asset := by
  obtain ⟨-, _, -, rfl⟩ := move_eq_some.1 h
  exact (keepsAsset_put (by simp)).trans (keepsAsset_put (by simp))

end DeTTaState

/-! ## Following the books of a contract -/

/-- A number that is no balance, no supply and no claim. -/
def StateKey.isAside : StateKey → Bool
  | balance _ _ _ | totalSupply _ _ => false
  | key => !key.isClaim

/-- From the state `s₀` to `s` a contract has written some claims, and holds of each
    asset more than it owes, by a surplus, than before. The other contracts, which are
    among `C`, have lost nothing and owe the same. -/
structure Books (C : ContractId → Prop) (holder : ContractId) (s₀ : DeTTaState)
    (written : List StateKey) (surplus : AssetId → ℤ) (s : DeTTaState) : Prop where
  contracts : s.contracts = s₀.contracts
  keeps : ∀ {token : ContractId} {asset : AssetId},
    s.KeepsAsset token asset ↔ s₀.KeepsAsset token asset
  unwritten : ∀ {key : StateKey}, key.isClaim = true → key.ownerContract = holder →
    key ∉ written → s.uintAt key = s₀.uintAt key
  others : ∀ {contract : ContractId} (asset : AssetId), C contract → contract ≠ holder →
    s.liability contract asset = s₀.liability contract asset ∧
      ∀ token, s₀.held token contract asset ≤ s.held token contract asset
  own : ∀ {token : ContractId} {asset : AssetId}, s₀.KeepsAsset token asset →
    (s.held token holder asset : ℤ) - s.liability holder asset =
      s₀.held token holder asset - s₀.liability holder asset + surplus asset
  orphan : ∀ {asset : AssetId}, (∀ token, ¬s₀.KeepsAsset token asset) →
    (s.liability holder asset : ℤ) = s₀.liability holder asset - surplus asset

namespace Books

variable {C : ContractId → Prop} {holder : ContractId} {s₀ s s' : DeTTaState}
  {written : List StateKey} {surplus : AssetId → ℤ} {record : ContractRecord}

theorem init (C : ContractId → Prop) (holder : ContractId) (s : DeTTaState) :
    Books C holder s [] 0 s :=
  ⟨rfl, Iff.rfl, fun _ _ _ => rfl, fun _ _ _ => ⟨rfl, fun _ => le_refl _⟩, fun _ => by simp,
    fun _ => by simp⟩

variable (h : Books C holder s₀ written surplus s)

include h

/-- Events are not in the books. -/
theorem event (events : List Event) :
    Books C holder s₀ written surplus { s with events := events } := by
  refine ⟨h.contracts, Iff.trans ?_ h.keeps, h.unwritten, h.others, h.own, h.orphan⟩
  exact keepsAsset_congr rfl rfl

/-- A number that matters for no account and no claim. -/
theorem put {key : StateKey} (hk : key.isAside = true)
    (value : Amount) : Books C holder s₀ written surplus (s.put key value) := by
  have hclaim : key.isClaim = false := by cases key <;> first | rfl | cases hk
  have hl : ∀ contract asset,
      (s.put key value).liability contract asset = s.liability contract asset :=
    fun _ _ => liability_put_of_not value fun _ => hclaim
  have hh : ∀ token owner asset,
      (s.put key value).held token owner asset = s.held token owner asset := by
    intro token owner asset
    rw [held_put, if_neg]
    rintro rfl
    cases hk
  refine ⟨h.contracts, ?_, fun hc hs hn => ?_, fun asset hC hne => ?_, fun hk => ?_,
    fun hk => ?_⟩
  · refine (keepsAsset_put ?_).trans h.keeps
    rintro rfl
    cases hk
  · refine (uintAt_put_of_ne s value ?_).trans (h.unwritten hc hs hn)
    rintro rfl
    rw [hc] at hclaim
    cases hclaim
  · simp only [hl, hh]
    exact h.others asset hC hne
  · rw [hl, hh]
    exact h.own hk
  · rw [hl]
    exact h.orphan hk

/-- A claim is written, by which an asset is owed. -/
theorem write {key : StateKey} {asset : AssetId}
    (value : Amount) (hr : s₀.contracts[holder]? = some record) (hc : key.ownerContract = holder)
    (hclaim : key.isClaim = true) (hn : key ∉ written)
    (ho : ∀ a, record.kind.owes a key = decide (a = asset)) :
    Books C holder s₀ (key :: written)
      (fun a => surplus a - if a = asset then (value.val : ℤ) - (s₀.uintAt key).val else 0)
      (s.put key value) := by
  subst hc
  have hl : ∀ a, (s.put key value).liability key.ownerContract a +
      (if a = asset then (s₀.uintAt key).val else 0) =
        s.liability key.ownerContract a + if a = asset then value.val else 0 := by
    intro a
    have := liability_put a value (h.contracts.symm ▸ hr)
    simpa only [ho, decide_eq_true_eq, h.unwritten hclaim rfl hn] using this
  have hh : ∀ t owner a, (s.put key value).held t owner a = s.held t owner a := by
    intro t owner a
    rw [held_put, if_neg]
    rintro rfl
    cases hclaim
  refine ⟨h.contracts, ?_, fun hc hs hmem => ?_, fun a hC hne => ?_, fun {t a} hka => ?_,
    fun {a} hka => ?_⟩
  · refine (keepsAsset_put ?_).trans h.keeps
    rintro rfl
    cases hclaim
  · rw [List.mem_cons, not_or] at hmem
    refine (uintAt_put_of_ne s value fun he => hmem.1 he.symm).trans ?_
    exact h.unwritten hc hs hmem.2
  · rw [liability_put_of_not value fun he => absurd he.symm hne]
    simpa only [hh] using h.others a hC hne
  · have hown := h.own hka
    have hla := hl a
    rw [hh]
    split_ifs at hla ⊢ <;> omega
  · have horphan := h.orphan hka
    have hla := hl a
    split_ifs at hla ⊢ <;> omega

/-- More claims may be called written. -/
theorem mono {written' : List StateKey}
    (hw : written ⊆ written') : Books C holder s₀ written' surplus s :=
  ⟨h.contracts, h.keeps, fun hc ho hn => h.unwritten hc ho fun hmem => hn (hw hmem), h.others,
    h.own, h.orphan⟩

/-- A bridge locks an amount, by a message of its own. -/
theorem lock (message : CrossShardMessage)
    (ids : Std.ExtTreeSet String) (hr : s₀.contracts[holder]? = some record)
    (hb : record.kind.isBridge = true) (hm : message.sourceContract = holder) :
    Books C holder s₀ written
      (fun a => surplus a - if a = message.asset then (message.amount.val : ℤ) else 0)
      { s with
        outboundMessageIds := ids
        crossShardOutbox := s.crossShardOutbox ++ [message] } := by
  have hl : ∀ contract a, DeTTaState.liability { s with
        outboundMessageIds := ids
        crossShardOutbox := s.crossShardOutbox ++ [message] } contract a =
      s.liability contract a +
        if contract = holder ∧ a = message.asset then message.amount.val else 0 := by
    intro contract a
    have hlocked := s.locked_append message ids contract a
    by_cases hc : contract = holder
    · subst hc
      have hrec : s.contracts[contract]? = some record := h.contracts.symm ▸ hr
      simp only [DeTTaState.liability, hrec, hb, if_true, hlocked, hm, true_and]
      rw [← Nat.add_assoc]
      rfl
    · rw [if_neg fun hx => hc hx.1]
      refine liability_congr rfl (fun _ => rfl) (hlocked.trans ?_)
      rw [if_neg fun hx => hc (hx.1.trans hm), Nat.add_zero]
  refine ⟨h.contracts, Iff.trans ?_ h.keeps, h.unwritten, fun a hC hne => ?_, fun {t a} hka => ?_,
    fun {a} hka => ?_⟩
  · exact keepsAsset_congr rfl rfl
  · rw [hl, if_neg fun hx => hne hx.1]
    exact h.others a hC hne
  · have hown := h.own hka
    rw [hl]
    simp only [true_and]
    have hheld : DeTTaState.held { s with
        outboundMessageIds := ids
        crossShardOutbox := s.crossShardOutbox ++ [message] } t holder a = s.held t holder a := rfl
    rw [hheld]
    split_ifs <;> omega
  · have horphan := h.orphan hka
    rw [hl]
    simp only [true_and]
    split_ifs <;> omega

section Movements

variable {token : ContractId} {asset : AssetId} {payer receiver : Principal} {amount : Amount}

/-- A movement of tokens between the contract and an account that is no contract. -/
theorem move (hl : OnlyLedger s₀ token asset)
    (hm : s.move token payer receiver asset amount = some s') (hp : payer ≠ receiver)
    (hc : ∀ contract, C contract → contract ≠ holder → contract ≠ payer) :
    Books C holder s₀ written
      (fun a => surplus a + (if a = asset ∧ holder = receiver then (amount.val : ℤ) else 0) -
        if a = asset ∧ holder = payer then (amount.val : ℤ) else 0) s' := by
  have hlia := liability_of_move hm
  have hheld := held_of_move hm hp
  refine ⟨?_, (keepsAsset_of_move hm).trans h.keeps, fun hclaim ho hn => ?_,
    fun {contract} a hC hne => ?_, fun {t a} hk => ?_, fun {a} hk => ?_⟩
  · obtain ⟨-, _, -, rfl⟩ := move_eq_some.1 hm
    exact h.contracts
  · obtain ⟨-, _, -, rfl⟩ := move_eq_some.1 hm
    rw [uintAt_put_of_ne, uintAt_put_of_ne]
    · exact h.unwritten hclaim ho hn
    all_goals
      rintro rfl
      cases hclaim
  · rw [hlia]
    refine ⟨(h.others a hC hne).1, fun t => ((h.others a hC hne).2 t).trans ?_⟩
    have := hheld t contract a
    rw [if_neg fun hpay => hc _ hC hne hpay.2.1] at this
    omega
  · have hown := h.own hk
    have hmoved := hheld t holder a
    rw [hlia]
    by_cases ha : a = asset
    · subst ha
      obtain rfl := hl.2 t hk
      simp only [true_and, and_true] at hmoved ⊢
      split_ifs at hmoved ⊢ <;> omega
    · simp only [ha, and_false, false_and, if_false] at hmoved ⊢
      omega
  · have hne : a ≠ asset := fun he => hk token (he ▸ hl.1)
    simp only [hlia, hne, false_and, if_false, add_zero, sub_zero]
    exact h.orphan hk

/-- The contract receives an amount. -/
theorem receive (hl : OnlyLedger s₀ token asset)
    (hh : C holder) (hp : ¬C payer) (hm : s.move token payer holder asset amount = some s') :
    Books C holder s₀ written (fun a => surplus a + if a = asset then (amount.val : ℤ) else 0)
      s' := by
  have hne : payer ≠ holder := fun he => hp (he ▸ hh)
  have := h.move hl hm hne fun contract hC _ he => hp (he ▸ hC)
  simpa only [hne.symm, and_true, and_false, if_false, sub_zero] using this

/-- The contract pays an amount. -/
theorem pay (hl : OnlyLedger s₀ token asset)
    (hh : C holder) (hr : ¬C receiver) (hm : s.move token holder receiver asset amount = some s') :
    Books C holder s₀ written (fun a => surplus a - if a = asset then (amount.val : ℤ) else 0)
      s' := by
  have hne : holder ≠ receiver := fun he => hr (he ▸ hh)
  have := h.move hl hm hne fun contract _ hne he => hne he
  simpa only [hne, and_true, and_false, if_false, add_zero] using this

end Movements

/-- If nothing is missing, the state stays solvent. -/
theorem solvent (hs : s₀.Solvent)
    (hC : ∀ contract, s₀.contracts.contains contract = true → C contract)
    (hd : ∀ asset, 0 ≤ surplus asset ∨ s.liability holder asset = 0) : s.Solvent := by
  intro contract asset
  obtain ⟨hcover, hnone⟩ := hs contract asset
  by_cases hh : contract = holder
  · subst hh
    refine ⟨fun token hk => ?_, fun hk => ?_⟩
    · rw [h.keeps] at hk
      have hown := h.own hk
      have hc := hcover token hk
      rcases hd asset with hd | hd
      · omega
      · rw [hd]
        exact Nat.zero_le _
    · have hk' : ∀ token, ¬s₀.KeepsAsset token asset := fun token ht => hk token (h.keeps.2 ht)
      have horphan := h.orphan hk'
      have hz := hnone hk'
      rcases hd asset with hd | hd
      · omega
      · exact hd
  · by_cases hc : s₀.contracts.contains contract = true
    · obtain ⟨hl, hheld⟩ := h.others asset (hC contract hc) hh
      refine ⟨fun token hk => ?_, fun hk => ?_⟩
      · rw [hl]
        exact (hcover token (h.keeps.1 hk)).trans (hheld token)
      · rw [hl]
        exact hnone fun token ht => hk token (h.keeps.2 ht)
    · have hz : s.liability contract asset = 0 := by
        rw [DeTTaState.liability, h.contracts,
          getElem?_eq_none_of_contains (Bool.eq_false_iff.2 hc)]
      exact ⟨fun token _ => hz ▸ Nat.zero_le _, fun _ => hz⟩

end Books

end Detta
