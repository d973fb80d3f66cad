import Detta.Safety.Call

/-!
# Runs that agree

A method does the same with two ways to make its calls that agree. Agreement here means: the
second run gives up, with a mark in the log, or both do the same (`Agrees`). Giving up ends a
run, so agreement goes through all the code that only passes calls on (`Agrees.callBody`).

So the depth to which calls are unrolled does not matter, once it is enough
(`agrees_executeCall`).
-/

namespace Detta

open Kernel

/-- The second computation fails with a mark in the log, or both are the same. -/
def Agrees {α : Type} (p q : Kernel α) : Prop :=
  ∀ m, (∃ e m', q m = .error e m' ∧ m'.log.exhausted = true) ∨ p m = q m

namespace Agrees

variable {α β : Type} {p q : Kernel α}

theorem refl (p : Kernel α) : Agrees p p := fun _ => .inr rfl

theorem bind {k l : α → Kernel β} (h : Agrees p q) (hk : ∀ a, Agrees (k a) (l a)) :
    Agrees (p >>= k) (q >>= l) := by
  intro m
  change (∃ e m', EStateM.bind q l m = .error e m' ∧ _) ∨ EStateM.bind p k m = EStateM.bind q l m
  rcases h m with ⟨e, m', hq, hm⟩ | he
  · exact .inl ⟨e, m', by simp only [EStateM.bind, hq], hm⟩
  · simp only [EStateM.bind, he]
    cases q m with
    | ok a m' => exact hk a m'
    | error e m' => exact .inr rfl

/-- What is the same in both runs. -/
theorem step {k l : α → Kernel β} (hk : ∀ a, Agrees (k a) (l a)) : Agrees (p >>= k) (p >>= l) :=
  bind (refl p) hk

theorem onlyIf {c : Prop} [Decidable c] {p q : Kernel Unit} (h : Agrees p q) :
    Agrees (Detta.onlyIf c p) (Detta.onlyIf c q) := by
  unfold Detta.onlyIf
  split
  next => exact h
  next => exact refl _

theorem forEach {l : List α} {f g : α → Kernel Unit} (h : ∀ a, Agrees (f a) (g a)) :
    Agrees (Detta.forEach l f) (Detta.forEach l g) := by
  induction l with
  | nil => exact refl _
  | cons a l ih => exact bind (h a) fun _ => ih

/-- Leaving a frame takes no mark away. -/
theorem leave (h : Agrees p q) : Agrees (andThen p Machine.leave) (andThen q Machine.leave) := by
  intro m
  rcases h m with ⟨e, m', hq, hm⟩ | he
  · refine .inl ⟨e, m'.leave, by simp only [andThen, hq], ?_⟩
    unfold Machine.leave CallLog.leave
    cases m'.log.active <;> exact hm
  · exact .inr (by simp only [andThen, he])

/-! ## Methods -/

section Methods

variable {call call' : ContractCall} (h : ∀ tx msgSender, Agrees (call tx msgSender)
  (call' tx msgSender))

include h

theorem transferAssetBalance (tx : Transaction) (ledger : AssetLedger)
    (sender receiver : Principal) (asset : AssetId) (amount : Amount) :
    Agrees (Detta.transferAssetBalance call tx ledger sender receiver asset amount)
      (Detta.transferAssetBalance call' tx ledger sender receiver asset amount) := by
  cases ledger with
  | nativeToken contract => exact refl _
  | aspectToken contract =>
    unfold Detta.transferAssetBalance transferAspectAssetBalance
    iterate 4 refine step fun _ => ?_
    exact bind (h _ _) fun _ => refl _

variable (tx : Transaction) (msgSender : Principal)

theorem routerMethod (token : ContractId) :
    Agrees (Detta.routerMethod call tx token) (Detta.routerMethod call' tx token) := by
  unfold Detta.routerMethod routeTransferFrom
  split
  · exact step fun _ => h _ _
  · exact refl _

theorem factoryMethod (env : Env) :
    Agrees (Detta.factoryMethod env call tx) (Detta.factoryMethod env call' tx) := by
  unfold Detta.factoryMethod
  split
  · exact refl _
  · exact refl _
  · exact refl _
  · unfold deployAspectContractFromFactory runInitializer
    iterate 7 refine step fun _ => ?_
    exact bind (onlyIf (step fun _ => bind (h _ _) fun _ => refl _)) fun _ => refl _
  · exact refl _

theorem applyAspectHostOp (env : Env) (host : AspectHostContext) (op : AspectHostOp) :
    Agrees (Detta.applyAspectHostOp env call tx host op)
      (Detta.applyAspectHostOp env call' tx host op) := by
  cases op with
  | callContract contract method args =>
    unfold Detta.applyAspectHostOp applyAspectCallContract
    iterate 7 refine step fun _ => ?_
    exact bind (h _ _) fun _ => refl _
  | _ => exact refl _

theorem executeAspectModuleMethod (env : Env) (moduleHash bundleId : String) :
    Agrees (Detta.executeAspectModuleMethod env call tx msgSender moduleHash bundleId)
      (Detta.executeAspectModuleMethod env call' tx msgSender moduleHash bundleId) := by
  unfold Detta.executeAspectModuleMethod
  iterate 9 refine step fun _ => ?_
  exact bind (forEach fun op => applyAspectHostOp h tx env _ op) fun _ => refl _

/-- What a frame does depends only on what its calls do. -/
theorem callBody (env : Env) :
    Agrees (Detta.callBody env call tx msgSender) (Detta.callBody env call' tx msgSender) := by
  unfold Detta.callBody
  iterate 6 refine step fun _ => ?_
  rename_i record _ _ _ _
  cases record.kind with
  | ammPool | bridge | lendingVault | staking =>
    -- the methods that pay in assets, which may take a call
    unfold kindMethod
    dsimp only
    first
      | unfold ammPoolMethod addLiquidity swap
      | unfold bridgeMethod queueBridgeMessage
      | unfold lendingVaultMethod depositCollateral borrow liquidate
      | unfold stakingMethod stake unstake completeUnstake
    split
    all_goals repeat first
      | with_reducible exact refl _
      | refine bind (transferAssetBalance h _ _ _ _ _ _) fun _ => ?_
      | refine bind (onlyIf (transferAssetBalance h _ _ _ _ _ _)) fun _ => ?_
      | refine step fun _ => ?_
  | router token => exact routerMethod h tx token
  | factory => exact factoryMethod h tx env
  | aspectModule moduleHash bundleId =>
    exact executeAspectModuleMethod h tx msgSender env moduleHash bundleId
  | token | oracle | governance | accountRegistry => exact refl _

end Methods

end Agrees

/-! ## Depth -/

/-- More depth changes nothing, unless the depth has been exceeded. -/
theorem agrees_executeCall (env : Env) {n n' : ℕ} (hn : n ≤ n') (tx : Transaction)
    (msgSender : Principal) : Agrees (executeCall env n' tx msgSender)
      (executeCall env n tx msgSender) := by
  induction n generalizing n' tx msgSender with
  | zero => exact fun m => .inl ⟨_, _, rfl, rfl⟩
  | succ n ih =>
    obtain ⟨n', rfl⟩ : ∃ k, n' = k + 1 := ⟨n' - 1, by omega⟩
    refine .step fun _ => .step fun _ => .step fun _ => .leave (.callBody (fun tx msgSender => ?_)
      tx msgSender env)
    exact ih (by omega) tx msgSender

end Detta
