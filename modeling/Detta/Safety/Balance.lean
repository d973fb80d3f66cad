import Detta.Safety.Step

/-!
# How balances change

A step of a frame lowers a native balance only by moving tokens for an account that
the frame may pay for.
-/

namespace Detta

namespace DeTTaState

variable {s s' : DeTTaState} {entries : List (StateKey × Amount)}

theorem uintAt_put (s : DeTTaState) (key key' : StateKey) (value : Amount) :
    (s.put key value).uintAt key' = if key = key' then value else s.uintAt key' := by
  simp only [uintAt, put, Std.ExtTreeMap.getElem?_insert, Std.LawfulEqCmp.compare_eq_iff_eq]
  split <;> simp_all

@[simp] theorem uintAt_put_self (s : DeTTaState) (key : StateKey) (value : Amount) :
    (s.put key value).uintAt key = value := by
  simp [uintAt_put]

theorem uintAt_put_of_ne (s : DeTTaState) {key key' : StateKey} (value : Amount)
    (h : key ≠ key') : (s.put key value).uintAt key' = s.uintAt key' := by
  simp [uintAt_put, h]

/-- What is not written stays. -/
theorem uintAt_puts_of_ne (s : DeTTaState) {key : StateKey}
    (h : ∀ e ∈ entries, e.1 ≠ key) : (s.puts entries).uintAt key = s.uintAt key := by
  induction entries generalizing s with
  | nil => rfl
  | cons e entries ih =>
    refine (ih _ fun e' he' => h e' (List.mem_cons_of_mem _ he')).trans ?_
    exact uintAt_put_of_ne s e.2 (h e List.mem_cons_self)

/-- What an account holds of a native token. -/
def held (s : DeTTaState) (token : ContractId) (owner : Principal) (asset : AssetId) : ℕ :=
  (s.uintAt (.balance token owner asset)).val

theorem held_put (s : DeTTaState) (key : StateKey) (value : Amount) (token : ContractId)
    (owner : Principal) (asset : AssetId) :
    (s.put key value).held token owner asset =
      if key = .balance token owner asset then value.val else s.held token owner asset := by
  simp only [held, uintAt_put]
  split <;> rfl

variable {token : ContractId} {payer receiver : Principal} {asset : AssetId} {amount : Amount}

/-- A movement lowers only the payer's balance, and by no more than the amount. -/
theorem held_le_of_move (h : s.move token payer receiver asset amount = some s')
    (token' : ContractId) (owner : Principal) (asset' : AssetId) :
    s.held token' owner asset' ≤ s'.held token' owner asset' ∨
      (token' = token ∧ owner = payer ∧ asset' = asset ∧
        s.held token owner asset ≤ s'.held token owner asset + amount.val) := by
  obtain ⟨ha, received, hr, rfl⟩ := move_eq_some.1 h
  have hr' : received.val = s.held token receiver asset + amount.val := Word.checkedAdd_eq_some.1 hr
  simp only [held_put, StateKey.balance.injEq]
  by_cases hrecv : token = token' ∧ receiver = owner ∧ asset = asset'
  · obtain ⟨rfl, rfl, rfl⟩ := hrecv
    exact .inl (by simp [hr'])
  · by_cases hpay : token = token' ∧ payer = owner ∧ asset = asset'
    · obtain ⟨rfl, rfl, rfl⟩ := hpay
      have hne : receiver ≠ payer := fun he => hrecv ⟨rfl, he, rfl⟩
      refine .inr ⟨rfl, rfl, rfl, ?_⟩
      simp only [hne, true_and, and_true, if_false, if_true, Word.val_saturatingSub, held]
      omega
    · exact .inl (by rw [if_neg hrecv, if_neg hpay])

/-- A movement between two accounts, balance by balance. -/
theorem held_of_move (h : s.move token payer receiver asset amount = some s')
    (hne : payer ≠ receiver) (token' : ContractId) (owner : Principal) (asset' : AssetId) :
    s'.held token' owner asset' + (if token' = token ∧ owner = payer ∧ asset' = asset then
        amount.val else 0) =
      s.held token' owner asset' + (if token' = token ∧ owner = receiver ∧ asset' = asset then
        amount.val else 0) := by
  obtain ⟨ha, received, hr, rfl⟩ := move_eq_some.1 h
  have ha' : amount.val ≤ (s.uintAt (.balance token payer asset)).val := ha
  have hr' : received.val = s.held token receiver asset + amount.val := Word.checkedAdd_eq_some.1 hr
  simp only [held_put, StateKey.balance.injEq]
  by_cases hrecv : token = token' ∧ receiver = owner ∧ asset = asset'
  · obtain ⟨rfl, rfl, rfl⟩ := hrecv
    simp [hr', hne.symm]
  · by_cases hpay : token = token' ∧ payer = owner ∧ asset = asset'
    · obtain ⟨rfl, rfl, rfl⟩ := hpay
      simp only [hne, hne.symm, true_and, and_true, if_false, if_true, Word.val_saturatingSub, held]
      omega
    · rw [if_neg hrecv, if_neg hpay, if_neg (fun h => hpay ⟨h.1.symm, h.2.1.symm, h.2.2.symm⟩),
        if_neg (fun h => hrecv ⟨h.1.symm, h.2.1.symm, h.2.2.symm⟩)]

/-- Creating tokens lowers no balance. -/
theorem held_le_of_mint (h : s.mint token receiver asset amount = some s')
    (token' : ContractId) (owner : Principal) (asset' : AssetId) :
    s.held token' owner asset' ≤ s'.held token' owner asset' := by
  obtain ⟨supply, hs, received, hr, rfl⟩ := mint_eq_some.1 h
  have hr' : received.val = s.held token receiver asset + amount.val := Word.checkedAdd_eq_some.1 hr
  simp only [held_put, StateKey.balance.injEq, reduceCtorEq, if_false]
  split
  next h => obtain ⟨rfl, rfl, rfl⟩ := h; omega
  next => exact le_refl _

/-- A contract that is deployed with its first numbers lowers nothing of others. -/
theorem held_puts_of_ne (s : DeTTaState) (h : ∀ e ∈ entries, e.1 ≠ .balance token payer asset) :
    (s.puts entries).held token payer asset = s.held token payer asset := by
  rw [held, uintAt_puts_of_ne s h, held]

end DeTTaState

variable {f : Frame} {s s' : DeTTaState}

variable {token : ContractId}

/-- A movement lowers a balance only of an account that the frame pays for. -/
theorem Attempt.held_le {asset : AssetId} (h : Attempt f s token asset s') (token' : ContractId)
    (owner : Principal) (asset' : AssetId) :
    s.held token' owner asset' ≤ s'.held token' owner asset' ∨
      ∃ amount, f.Pays s token' asset' amount owner ∧
        s.held token' owner asset' ≤ s'.held token' owner asset' + amount.val := by
  cases h with
  | move _ hp hm =>
    rcases DeTTaState.held_le_of_move hm token' owner asset' with h | ⟨rfl, rfl, rfl, h⟩
    · exact .inl h
    · exact .inr ⟨_, hp, h⟩
  | mint _ hm => exact .inl (DeTTaState.held_le_of_mint hm token' owner asset')

/-- No method writes balances as numbers of its own contract. -/
theorem Method.writes_balance (method : Method) (token : ContractId) (owner : Principal)
    (asset : AssetId) : method.writes (.balance token owner asset) = false := by
  cases method <;> rfl

/-! ## Owners of storage -/

/-- Every number belongs to a contract that is deployed. -/
def Owned (s : DeTTaState) : Prop :=
  ∀ key, s.storage.contains key = true → s.contracts.contains key.ownerContract = true

namespace Owned

/-- A contract that is not deployed has no balances. -/
theorem held_eq_zero (h : Owned s) {token : ContractId}
    (hn : s.contracts.contains token = false) (owner : Principal) (asset : AssetId) :
    s.held token owner asset = 0 := by
  have hkey : s.storage.contains (.balance token owner asset) = false := by
    by_contra hc
    have := h _ (Bool.eq_true_of_not_eq_false hc)
    rw [StateKey.ownerContract, hn] at this
    cases this
  simp [DeTTaState.held, DeTTaState.uintAt, getElem?_eq_none_of_contains hkey]

theorem put (h : Owned s) {key : StateKey} (value : Amount)
    (hc : s.contracts.contains key.ownerContract = true) : Owned (s.put key value) := by
  intro key' hk
  rcases Table.contains_insert.1 hk with rfl | hk
  · exact hc
  · exact h key' hk

variable {entries : List (StateKey × Amount)}

theorem puts (h : Owned s) (hc : ∀ e ∈ entries, s.contracts.contains e.1.ownerContract = true) :
    Owned (s.puts entries) := by
  induction entries generalizing s with
  | nil => exact h
  | cons e entries ih =>
    exact ih (h.put e.2 (hc e List.mem_cons_self)) fun e' he' => hc e' (List.mem_cons_of_mem _ he')

/-- More contracts own no less. -/
theorem mono (h : Owned s) (hg : Grows s s') (hs : s'.storage = s.storage) : Owned s' := by
  intro key hk
  rw [hs] at hk
  exact hg.contains (h key hk)

theorem withNew (h : Owned s) {contract : ContractId} (record : ContractRecord)
    (hn : s.contracts.contains contract = false)
    (hc : ∀ e ∈ entries, e.1.ownerContract = contract) :
    Owned ((s.withContract contract record).puts entries) := by
  refine (h.mono (.ofNew hn) rfl).puts fun e he => ?_
  rw [hc e he]
  simp [DeTTaState.withContract]

end Owned

theorem contains_of_isToken (h : s.IsToken token) : s.contracts.contains token = true := by
  obtain ⟨_, hr, -⟩ := Option.map_eq_some_iff.1 h
  exact Table.contains_iff.2 ⟨_, hr⟩

theorem Attempt.owned {asset : AssetId} (h : Attempt f s token asset s') (ho : Owned s) :
    Owned s' := by
  have hc : s.contracts.contains token = true := by
    cases h with
    | move ht => exact contains_of_isToken ht
    | mint ht => exact contains_of_isToken ht.isToken
  obtain ⟨_, _, _, _, rfl | ⟨_, rfl⟩, rfl⟩ := h.exists_put
  all_goals
    refine Owned.put (Owned.put ho _ ?_) _ ?_
    all_goals exact hc

/-- The numbers of a new contract are its own. -/
theorem Founded.ownerContract {contract : ContractId} {kind : ContractKind}
    {entries : List (StateKey × Amount)} (h : Founded s contract kind entries) :
    ∀ e ∈ entries, e.1.ownerContract = contract := by
  intro e he
  cases h with
  | token =>
    rcases List.mem_append.1 he with he | he
    · obtain ⟨_, -, rfl⟩ := List.mem_map.1 he
      rfl
    · rw [List.mem_singleton.1 he, StateKey.ownerContract]
  | ammPool | oracle | staking =>
    simp only [initialPool, initialStaking, List.mem_cons, List.not_mem_nil, or_false] at he
    rcases he with rfl | rfl | rfl | rfl | rfl <;> rfl
  | bare => cases he

/-- The contract of a frame is still there. -/
theorem Frame.Live.contains (h : f.Live) (hg : Grows f.start s) :
    s.contracts.contains f.tx.target = true := by
  obtain ⟨_, hr, -⟩ := h
  obtain ⟨_, hr', -⟩ := hg.contracts hr
  exact Table.contains_iff.2 ⟨_, hr'⟩

theorem OwnStep.owned (h : OwnStep f s s') (hl : s.contracts.contains f.tx.target = true)
    (ho : Owned s) : Owned s' := by
  have hg := h.grows
  cases h with
  | put value hc => exact ho.put value (hc ▸ hl)
  | tokens ha => exact ha.owned ho
  | @deploy _ record _ hn _ hf => exact ho.withNew record hn hf.ownerContract
  | _ => exact ho.mono hg rfl

/-- A step lowers a balance only of an account that the frame pays for. -/
theorem OwnStep.held_le (h : OwnStep f s s') (ho : Owned s) (token : ContractId)
    (owner : Principal) (asset : AssetId) :
    s.held token owner asset ≤ s'.held token owner asset ∨
      ∃ amount, f.Pays s token asset amount owner ∧
        s.held token owner asset ≤ s'.held token owner asset + amount.val := by
  cases h with
  | @put key value hc hk =>
    refine .inl (le_of_eq ?_)
    rw [DeTTaState.held_put, if_neg]
    rintro rfl
    have hw := hk.method
    rw [Method.writes_balance] at hw
    cases hw
  | tokens ha => exact ha.held_le token owner asset
  | @deploy contract record entries hn _ hf =>
    refine .inl ?_
    by_cases hc : contract = token
    · rw [ho.held_eq_zero (hc ▸ hn)]
      exact Nat.zero_le _
    · refine le_of_eq (Eq.trans ?_ (DeTTaState.held_puts_of_ne _ fun e he heq => hc ?_).symm)
      · rfl
      · rw [← hf.ownerContract e he, heq, StateKey.ownerContract]
  | _ => exact .inl (le_refl _)

end Detta
