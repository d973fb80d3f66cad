import Detta.Core.Chain

/-!
# Values are determined by their encoding

The JSON tree of a value of the kernel determines the value: constructors and fields are
named, sets and maps are listed in the order of their keys, and what is left out of an
encoding (an allowlist without entries) is left out only if there is nothing to say.

* `Transaction.json_injective`, `Event.json_injective`, `ContractRecord.json_injective`,
  `AspectModuleRecord.json_injective`, and so on, down to the data they are made of.
-/

namespace Detta

open Json Function

/-! ## Numbers, lists and tables -/

namespace Json

variable {α V : Type}

theorem str_injective : Injective str := fun _ _ h => str.inj h

theorem word_injective {w : ℕ} : Injective (@word w) := fun _ _ h => Word.ext (num.inj h)

theorem list_injective {f : α → Json} (hf : Injective f) : Injective (list f) :=
  fun _ _ h => List.map_injective_iff.2 hf (arr.inj h)

/-- A value and nothing are told apart, if no value is encoded by nothing. -/
theorem opt_injective {f : α → Json} (hf : Injective f) (hn : ∀ a, f a ≠ null) :
    Injective (opt f) := by
  intro a b h
  match a, b, h with
  | none, none, _ => rfl
  | some a, none, h => exact absurd h (hn a)
  | none, some b, h => exact absurd h.symm (hn b)
  | some a, some b, h => rw [hf h]

theorem texts_injective : Injective texts := fun _ _ h =>
  Std.ExtTreeSet.toList_inj.1 (list_injective str_injective h)

/-- The elements of an ordered set determine it. -/
theorem items_injective [Ord α] [Std.TransOrd α] {f : α → Json} (hf : Injective f) :
    Injective fun s : Std.ExtTreeSet α => list f s.toList :=
  fun _ _ h => Std.ExtTreeSet.toList_inj.1 (list_injective hf h)

/-- The entries of an ordered map determine it. -/
theorem entries_injective {K : Type} [Ord K] [Std.TransOrd K] {β : Type} {f : K × V → β}
    (hf : Injective f) : Injective fun t : Std.ExtTreeMap K V => t.toList.map f :=
  fun _ _ h => Std.ExtTreeMap.toList_inj.1 (List.map_injective_iff.2 hf h)

theorem dict_injective {f : V → Json} (hf : Injective f) : Injective (dict f) := by
  intro t t' h
  refine entries_injective (fun e e' he => ?_) (obj.inj h)
  rw [Prod.mk.injEq] at he
  exact Prod.ext he.1 (hf he.2)

theorem pair_injective {K : Type} {f : K → Json} {g : V → Json} (hf : Injective f)
    (hg : Injective g) : Injective fun e : K × V => pair (f e.1) (g e.2) := by
  intro e e' h
  simp only [pair, arr.injEq, List.cons.injEq, and_true] at h
  exact Prod.ext (hf h.1) (hg h.2)

/-! ### Variants -/

/-- The name that the encoding of a variant starts with. -/
def tag : Json → String
  | obj ((name, _) :: _) => name
  | str name => name
  | _ => ""

/-- If the names of variants are listed, equal encodings are of the same variant. -/
theorem index_eq {json : α → Json} {index : α → ℕ} {names : List String}
    (h : ∀ a, names.idxOf (json a).tag = index a) {a b : α} (hjson : json a = json b) :
    index a = index b := by
  rw [← h a, ← h b, hjson]

end Json

/-! ## Methods, keys and grants -/

theorem Method.json_injective : Injective Method.json := by
  intro a b h
  cases a <;> cases b <;> simp_all [Method.json, variant]

theorem Argument.json_injective : Injective Argument.json := by
  intro a b h
  cases a <;> cases b <;> simp_all [Argument.json, variant, word_injective.eq_iff]

theorem Transaction.json_injective : Injective Transaction.json := by
  intro a b h
  have hopt := @opt_injective _ (@word 64) word_injective fun _ hn => by cases hn
  cases a
  cases b
  simp_all [Transaction.json, word_injective.eq_iff, hopt.eq_iff, Method.json_injective.eq_iff,
    (list_injective Argument.json_injective).eq_iff]

def StateKey.names : List String :=
  ["Balance", "TotalSupply", "Reserve", "AmmFeeCollected", "LpSupply", "LpBalance", "OraclePrice",
    "OracleTimestamp", "BridgeMessageConsumed", "Collateral", "Debt", "DebtLastAccrualHeight",
    "BadDebt", "StakeBalance", "TotalStaked", "PendingUnbond", "TotalPendingUnbond",
    "StakingPenaltyCollected", "UnbondReadyHeight", "StakingRewardBalance",
    "StakingLastRewardHeight", "AspectState"]

theorem StateKey.idxOf_tag (k : StateKey) : names.idxOf k.json.tag = k.ctorIdx := by
  cases k <;> rfl

theorem StateKey.json_injective : Injective StateKey.json := by
  intro a b h
  have hidx := index_eq idxOf_tag h
  -- different variants have different positions, and of one variant the fields are compared
  cases a <;> cases b <;> first
    | exact absurd hidx (Nat.ne_of_beq_eq_false rfl)
    | simp only [StateKey.json, record, variant, obj.injEq, List.cons.injEq, Prod.mk.injEq,
        str.injEq, true_and, and_true, (list_injective str_injective).eq_iff] at h
      simp only [h]

theorem StateValue.json_injective : Injective StateValue.json := by
  intro a b h
  cases a
  cases b
  simp_all [StateValue.json, variant, word_injective.eq_iff]

theorem GrantRight.json_injective : Injective GrantRight.json := by
  intro a b h
  cases a <;> cases b <;> simp_all [GrantRight.json]

theorem GrantKey.json_injective : Injective GrantKey.json := by
  intro a b h
  cases a <;> cases b <;> simp_all [GrantKey.json, record, variant]

theorem Grant.json_injective : Injective Grant.json := by
  intro a b h
  have hopt := @opt_injective _ (@word 128) word_injective fun _ hn => by cases hn
  have hrights := @items_injective _ _ _ _ GrantRight.json_injective
  cases a
  cases b
  simp_all [Grant.json, word_injective.eq_iff, hopt.eq_iff, hrights.eq_iff]

/-! ## Contracts and policies -/

theorem ContractKind.json_injective : Injective ContractKind.json := by
  intro a b h
  cases a <;> cases b <;> simp_all [ContractKind.json, record, variant, word_injective.eq_iff]

theorem ContractInvariant.json_injective : Injective ContractInvariant.json := by
  intro a b h
  cases a <;> cases b <;> simp_all [ContractInvariant.json, record, variant]

theorem PolicyAuthority.json_injective : Injective PolicyAuthority.json := by
  intro a b h
  cases a <;> cases b <;> simp_all [PolicyAuthority.json]

theorem PolicyEffect.json_injective : Injective PolicyEffect.json := by
  intro a b h
  cases a <;> cases b <;> simp_all [PolicyEffect.json]

theorem MethodPolicy.json_injective : Injective MethodPolicy.json := by
  intro a b h
  simp only [MethodPolicy.json, obj.injEq, List.cons.injEq, Prod.mk.injEq, true_and,
    and_true] at h
  obtain ⟨hauthority, heffects, hinvariants⟩ := h
  have hreentrancy : a.reentrancy = b.reentrancy := by cases a.reentrancy; cases b.reentrancy; rfl
  have h₁ := PolicyAuthority.json_injective hauthority
  have h₂ := items_injective PolicyEffect.json_injective heffects
  have h₃ := items_injective ContractInvariant.json_injective hinvariants
  cases a
  cases b
  simp_all

theorem ContractRecord.json_injective : Injective ContractRecord.json := by
  intro a b h
  simp only [ContractRecord.json, obj.injEq, List.cons.injEq, Prod.mk.injEq, true_and,
    and_true, str.injEq] at h
  obtain ⟨hid, hcode, hkind, hmethods, hpolicies, hinvariants⟩ := h
  have h₁ := ContractKind.json_injective hkind
  have h₂ := items_injective Method.json_injective hmethods
  have h₃ := entries_injective
    (pair_injective Method.json_injective MethodPolicy.json_injective) (arr.inj hpolicies)
  have h₄ := items_injective ContractInvariant.json_injective hinvariants
  cases a
  cases b
  simp_all

theorem ScheduledUpgrade.json_injective : Injective ScheduledUpgrade.json := by
  intro a b h
  cases a
  cases b
  simp_all [ScheduledUpgrade.json, word_injective.eq_iff]

theorem ScheduledPolicyUpdate.json_injective : Injective ScheduledPolicyUpdate.json := by
  intro a b h
  cases a
  cases b
  simp_all [ScheduledPolicyUpdate.json, word_injective.eq_iff, Method.json_injective.eq_iff,
    PolicyEffect.json_injective.eq_iff]

theorem CrossShardMessage.json_injective : Injective CrossShardMessage.json := by
  intro a b h
  cases a
  cases b
  simp_all [CrossShardMessage.json, word_injective.eq_iff]

theorem BridgeValidatorSet.json_injective : Injective BridgeValidatorSet.json := by
  intro a b h
  cases a
  cases b
  simp_all [BridgeValidatorSet.json, texts_injective.eq_iff]

theorem NonceKey.json_injective : Injective NonceKey.json := by
  intro a b h
  cases a
  cases b
  simp_all [NonceKey.json, pair, word_injective.eq_iff]

/-! ## Events -/

def EventPayload.names : List String :=
  ["Transfer", "Approval", "LiquidityAdded", "Swap", "PriceUpdated", "BridgeMessageRedeemed",
    "CrossShardMessageQueued", "ContractPaused", "ContractUnpaused", "UpgradeScheduled",
    "UpgradeExecuted", "PolicyUpdateScheduled", "PolicyUpdateExecuted", "CollateralDeposited",
    "Borrowed", "Liquidated", "Staked", "Unstaked", "UnstakeRequested", "UnbondingCompleted",
    "StakingRewardsClaimed", "ContractDeployed", "AspectModuleSubmitted", "AspectEvent",
    "AccountKeyRegistered", "AccountKeyRevoked", "StakingPenaltyApplied"]

theorem EventPayload.idxOf_tag (p : EventPayload) : names.idxOf p.json.tag = p.ctorIdx := by
  cases p <;> rfl

theorem EventPayload.json_injective : Injective EventPayload.json := by
  intro a b h
  have hidx := index_eq idxOf_tag h
  cases a <;> cases b <;> first
    | exact absurd hidx (Nat.ne_of_beq_eq_false rfl)
    | simp only [EventPayload.json, record, variant, obj.injEq, List.cons.injEq, Prod.mk.injEq,
        str.injEq, true_and, and_true, word_injective.eq_iff, Method.json_injective.eq_iff,
        PolicyEffect.json_injective.eq_iff] at h
      simp only [h]

theorem Event.json_injective : Injective Event.json := by
  intro a b h
  cases a
  cases b
  simp_all [Event.json, word_injective.eq_iff, EventPayload.json_injective.eq_iff]

/-! ## Aspect modules -/

mutual

theorem Expr.eq_of_json : ∀ {a b : Expr}, a.json = b.json → a = b
  | .atom a, .atom b, h => by simp_all [Expr.json, variant]
  | .list as, .list bs, h => by
    simp only [Expr.json, variant, obj.injEq, List.cons.injEq, Prod.mk.injEq, true_and, and_true,
      arr.injEq] at h
    rw [Expr.eq_of_jsons h]
  | .atom _, .list _, h => by simp [Expr.json, variant] at h
  | .list _, .atom _, h => by simp [Expr.json, variant] at h

theorem Expr.eq_of_jsons : ∀ {as bs : List Expr}, Expr.jsons as = Expr.jsons bs → as = bs
  | [], [], _ => rfl
  | a :: as, b :: bs, h => by
    rw [Expr.jsons, Expr.jsons, List.cons.injEq] at h
    rw [Expr.eq_of_json h.1, Expr.eq_of_jsons h.2]
  | [], _ :: _, h => by simp [Expr.jsons] at h
  | _ :: _, [], h => by simp [Expr.jsons] at h

end

theorem Expr.json_injective : Injective Expr.json := fun _ _ h => Expr.eq_of_json h

theorem AuthorityKind.json_injective : Injective AuthorityKind.json := by
  intro a b h
  cases a <;> cases b <;> simp_all [AuthorityKind.json, variant]

theorem EffectKind.json_injective : Injective EffectKind.json := by
  intro a b h
  cases a <;> cases b <;> simp_all [EffectKind.json]

theorem ContractPattern.json_injective (field : String) :
    Injective (ContractPattern.json field) := by
  intro a b h
  have htarget : Injective ContractCallTarget.json := by
    intro a b h
    cases a <;> cases b <;> simp_all [ContractCallTarget.json, variant]
  cases a
  cases b
  simp_all [ContractPattern.json, htarget.eq_iff]

/-- The reads that are allowed are listed, or there are none. -/
theorem MethodPolicyIr.json_injective : Injective MethodPolicyIr.json := by
  intro a b h
  have heffects := @items_injective _ _ _ _ EffectKind.json_injective
  have hcalls := @items_injective _ _ _ _ (ContractPattern.json_injective "method")
  have hreads := @items_injective _ _ _ _ (ContractPattern.json_injective "state")
  have hread : a.readAllowlist = b.readAllowlist := by
    simp only [MethodPolicyIr.json, obj.injEq, List.cons_append, List.nil_append,
      List.cons.injEq] at h
    obtain ⟨-, -, -, -, -, -, h⟩ := h
    by_cases ha : a.readAllowlist.isEmpty <;> by_cases hb : b.readAllowlist.isEmpty
    · rw [Std.ExtTreeSet.isEmpty_iff.1 ha, Std.ExtTreeSet.isEmpty_iff.1 hb]
    · simp [ha, hb] at h
    · simp [ha, hb] at h
    · simp only [ha, hb, if_false, Bool.false_eq_true, List.cons.injEq, Prod.mk.injEq, true_and,
        and_true] at h
      exact hreads h
  cases a
  cases b
  simp_all [MethodPolicyIr.json, AuthorityKind.json_injective.eq_iff, heffects.eq_iff,
    hcalls.eq_iff, texts_injective.eq_iff]

theorem AspectDef.json_injective : Injective AspectDef.json := by
  intro a b h
  cases a
  cases b
  simp_all [AspectDef.json, texts_injective.eq_iff]

theorem BundleDef.json_injective : Injective BundleDef.json := by
  intro a b h
  cases a
  cases b
  simp_all [BundleDef.json, texts_injective.eq_iff, (dict_injective Expr.json_injective).eq_iff]

theorem ProjectionDef.json_injective : Injective ProjectionDef.json := by
  intro a b h
  cases a
  cases b
  simp_all [ProjectionDef.json, Expr.json_injective.eq_iff]

theorem ActionDef.json_injective : Injective ActionDef.json := by
  intro a b h
  have hopt := opt_injective Expr.json_injective fun e => by cases e <;> exact nofun
  cases a
  cases b
  simp_all [ActionDef.json, hopt.eq_iff]

theorem StateSchema.json_injective : Injective StateSchema.json := by
  intro a b h
  cases a
  cases b
  simp_all [StateSchema.json, Expr.json_injective.eq_iff]

theorem RegistrySchema.json_injective : Injective RegistrySchema.json := by
  intro a b h
  cases a
  cases b
  simp_all [RegistrySchema.json, Expr.json_injective.eq_iff]

theorem InvariantDef.json_injective : Injective InvariantDef.json := by
  intro a b h
  cases a
  cases b
  simp_all [InvariantDef.json, Expr.json_injective.eq_iff]

theorem MethodAbiDef.json_injective : Injective MethodAbiDef.json := by
  intro a b h
  cases a
  cases b
  simp_all [MethodAbiDef.json, Expr.json_injective.eq_iff]

theorem AspectModuleIr.json_injective : Injective AspectModuleIr.json := by
  intro a b h
  cases a
  cases b
  simp_all [AspectModuleIr.json, (dict_injective Expr.json_injective).eq_iff,
    (dict_injective AspectDef.json_injective).eq_iff,
    (dict_injective BundleDef.json_injective).eq_iff,
    (dict_injective ProjectionDef.json_injective).eq_iff,
    (dict_injective ActionDef.json_injective).eq_iff,
    (dict_injective StateSchema.json_injective).eq_iff,
    (dict_injective RegistrySchema.json_injective).eq_iff,
    (dict_injective InvariantDef.json_injective).eq_iff,
    (dict_injective MethodAbiDef.json_injective).eq_iff,
    (dict_injective MethodPolicyIr.json_injective).eq_iff]

theorem AspectModuleRecord.json_injective : Injective AspectModuleRecord.json := by
  intro a b h
  have hsource := opt_injective str_injective nofun
  have hir := opt_injective AspectModuleIr.json_injective nofun
  cases a
  cases b
  simp_all [AspectModuleRecord.json, hsource.eq_iff, hir.eq_iff]

end Detta
