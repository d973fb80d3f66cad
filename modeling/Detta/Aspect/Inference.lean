import Detta.Aspect.Text
import Detta.Aspect.Verify
import Mathlib.Data.Finset.Card

/-!
# What the inference finds

The verifier goes through the text of an action, and of the actions named in it, and notes
what it finds. Here it is shown that it overlooks nothing but what it takes for a definition:
when it is done, all list expressions in the bodies it has been to are noted
(`Inference.Complete`), each with the operations it may ask for and the actions it may call.

The search ends because every action is looked at once. Its fuel, one more than there are
actions, is never used up (`Inference.unvisited`).
-/

namespace Detta

open Std (ExtTreeMap ExtTreeSet LawfulEqCmp)

/-! ## Notes -/

/-- The contracts that a place in the text may stand for. -/
def ContractCallSiteTarget.MayBe (context : AspectExecutionContext) :
    ContractCallSiteTarget → String → Prop
  | exact name, contract => name ≠ "current-contract" ∧ context.constant name = .atom contract
  | dynamic _, _ => True

/-- A place stands for the contracts that its text may. -/
theorem mayBe_inferredContractSiteTarget {context : AspectExecutionContext} {target : Expr}
    {contract : String} (h : target.MayBe context (.atom contract)) :
    (inferredContractSiteTarget target).MayBe context contract := by
  cases target with
  | list => trivial
  | atom name =>
    simp only [inferredContractSiteTarget]
    split
    · trivial
    next hv =>
      split
      · trivial
      next hc => exact ⟨hc, (h (by simpa using hv)).symm⟩

/-- An operation of which a trace was found in the text. -/
def InferredActionEffects.Found (i : InferredActionEffects) (context : AspectExecutionContext) :
    AspectHostOp → Prop
  | .stateGet _ _ | .contractStateGet _ _ _ => .readState ∈ i.effects
  | .stateSet state _ _ => .writeState ∈ i.effects ∧ state ∈ i.writes
  | .registryGet _ => .readRegistry ∈ i.effects
  | .registrySet _ _ => .writeRegistry ∈ i.effects
  | .registryConsume _ _ => .consumeRegistryGrant ∈ i.effects
  | .emit _ => .emitEvent ∈ i.effects
  | .callContract contract method _ => .callContract ∈ i.effects ∧
    ∃ site ∈ i.contractCalls, site.name = method ∧ site.target.MayBe context contract
  | .permitVerify _ _ _ _ _ => .usePermitCertificate ∈ i.effects
  | .bridgeVerify _ _ _ _ _ _ => .useBridgeCertificate ∈ i.effects
  | .crossShardOutboxAppend _ _ _ _ _ _ => .crossShardOutboxAppend ∈ i.effects

namespace InferredActionEffects

/-- More was found. -/
structure Sub (i i' : InferredActionEffects) : Prop where
  effects : ∀ kind ∈ i.effects, kind ∈ i'.effects
  writes : ∀ state ∈ i.writes, state ∈ i'.writes
  contractCalls : ∀ site ∈ i.contractCalls, site ∈ i'.contractCalls

theorem Sub.refl (i : InferredActionEffects) : i.Sub i :=
  ⟨fun _ h => h, fun _ h => h, fun _ h => h⟩

theorem Sub.trans {i i' i'' : InferredActionEffects} (h : i.Sub i') (h' : i'.Sub i'') :
    i.Sub i'' :=
  ⟨fun k hk => h'.effects k (h.effects k hk), fun k hk => h'.writes k (h.writes k hk),
    fun k hk => h'.contractCalls k (h.contractCalls k hk)⟩

theorem Sub.found {i i' : InferredActionEffects} (h : i.Sub i')
    {context : AspectExecutionContext} {op : AspectHostOp} (hop : i.Found context op) :
    i'.Found context op := by
  cases op with
  | stateSet state => exact ⟨h.effects _ hop.1, h.writes _ hop.2⟩
  | callContract contract method =>
    obtain ⟨he, site, hs, hsite⟩ := hop
    exact ⟨h.effects _ he, site, h.contractCalls _ hs, hsite⟩
  | _ => exact h.effects _ hop

variable (i : InferredActionEffects)

theorem sub_effect (kind : EffectKind) : i.Sub (i.effect kind) :=
  ⟨fun _ h => ExtTreeSet.mem_insert.2 (.inr h), fun _ h => h, fun _ h => h⟩

theorem sub_write (e : Option Expr) : i.Sub (i.write e) := by
  unfold write
  split
  · exact ⟨fun _ h => h, fun _ h => ExtTreeSet.mem_insert.2 (.inr h), fun _ h => h⟩
  · exact .refl i

theorem sub_registry (e : Option Expr) : i.Sub (i.registry e) := by
  unfold registry
  split
  · exact ⟨fun _ h => h, fun _ h => h, fun _ h => h⟩
  · exact .refl i

theorem sub_contractCall (site : Option ContractSite) : i.Sub (i.contractCall site) := by
  unfold contractCall
  split
  · exact ⟨fun _ h => h, fun _ h => h, fun _ h => ExtTreeSet.mem_insert.2 (.inr h)⟩
  · exact .refl i

theorem sub_contractStateRead (site : Option ContractSite) :
    i.Sub (i.contractStateRead site) := by
  unfold contractStateRead
  split
  · exact ⟨fun _ h => h, fun _ h => h, fun _ h => h⟩
  · exact .refl i

theorem mem_effects_effect (kind : EffectKind) : kind ∈ (i.effect kind).effects :=
  ExtTreeSet.mem_insert_self

end InferredActionEffects

/-- Heads that stand for an effect in the text, while the evaluator looks for an action. -/
def effectHeads : List String :=
  ["deploy-contract!", "schedule-upgrade!", "execute-upgrade!", "abort"]

namespace Inference

/-- More was looked at, and more was found. -/
structure Grows (s s' : Inference) : Prop where
  visited : ∀ key ∈ s.visited, key ∈ s'.visited
  inferred : s.inferred.Sub s'.inferred

theorem Grows.refl (s : Inference) : s.Grows s := ⟨fun _ h => h, .refl _⟩

theorem Grows.trans {s s' s'' : Inference} (h : s.Grows s') (h' : s'.Grows s'') : s.Grows s'' :=
  ⟨fun k hk => h'.visited k (h.visited k hk), h.inferred.trans h'.inferred⟩

section Notes

variable (ir : AspectModuleIr) (context : AspectExecutionContext)

/-- A list expression has been noted: what it may ask for was found, and the actions that it
    may call were looked at. -/
def Noted (s : Inference) (head : String) (items : List Expr) : Prop :=
  (∀ op, Issues context head items op → s.inferred.Found context op) ∧
    (head ∉ builtinForms → head ∉ effectHeads → ∀ key ∈ ir.actionKeys head, key ∈ s.visited)

variable {ir context} in
theorem Grows.noted {s s' : Inference} (h : s.Grows s') (head : String) (items : List Expr)
    (hn : s.Noted ir context head items) : s'.Noted ir context head items :=
  ⟨fun op hop => h.inferred.found (hn.1 op hop), fun hb he key hk => h.visited key (hn.2 hb he key hk)⟩

/-- All list expressions of the right-hand sides of the actions that were looked at have been
    noted, but for the actions that are still pending. -/
def Complete (pending : List String) (s : Inference) : Prop :=
  ∀ key ∈ s.visited, key ∈ pending ∨ ∀ signature rhs, ir.namesAction signature = true →
    (ir.actions[key]?).bind (·.body) = some (.list [.atom "=", signature, rhs]) →
    rhs.All (s.Noted ir context)

/-- The actions that were not looked at. -/
def unvisited (s : Inference) : Finset String :=
  ir.actions.keys.toFinset.filter (· ∉ s.visited)

variable {ir} in
theorem Grows.unvisited {s s' : Inference} (h : s.Grows s') :
    (s'.unvisited ir).card ≤ (s.unvisited ir).card := by
  refine Finset.card_le_card fun key hk => ?_
  obtain ⟨hk, hv⟩ := Finset.mem_filter.1 hk
  exact Finset.mem_filter.2 ⟨hk, fun hs => hv (h.visited key hs)⟩

/-- What the search keeps: the rest of the actions fits into the fuel. -/
structure Inv (fuel : ℕ) (pending : List String) (s : Inference) : Prop where
  fuel : (s.unvisited ir).card < fuel
  complete : s.Complete ir context pending

/-- A search that only adds notes, among them the given one. -/
def Explores (fuel : ℕ) (pending : List String) (f : Inference → Inference)
    (P : Inference → Prop) : Prop :=
  ∀ s, s.Inv ir context fuel pending →
    s.Grows (f s) ∧ (f s).Inv ir context fuel pending ∧ P (f s)

end Notes

variable {ir : AspectModuleIr} {context : AspectExecutionContext} {fuel : ℕ}
  {pending : List String}

/-- Notes on what was found keep the invariant, since no action is looked at. -/
theorem Inv.of_visited_eq {s s' : Inference} (hs : s.Inv ir context fuel pending)
    (hg : s.Grows s') (hv : s'.visited = s.visited) : s'.Inv ir context fuel pending where
  fuel := hg.unvisited.trans_lt hs.fuel
  complete key hk := by
    rcases hs.complete key (hv ▸ hk) with hp | hb
    · exact .inl hp
    · exact .inr fun signature rhs hn hr => (hb signature rhs hn hr).mono hg.noted

theorem Explores.comp {f g : Inference → Inference} {P Q : Inference → Prop}
    (hf : Explores ir context fuel pending f P) (hg : Explores ir context fuel pending g Q)
    (hP : ∀ s s' : Inference, s.Grows s' → P s → P s') :
    Explores ir context fuel pending (fun s => g (f s)) fun s => P s ∧ Q s := fun s hs => by
  obtain ⟨h, hi, hp⟩ := hf s hs
  obtain ⟨h', hi', hq⟩ := hg (f s) hi
  exact ⟨h.trans h', hi', hP _ _ h' hp, hq⟩

end Inference

/-! ## Heads -/

namespace AspectModuleIr

open Inference

theorem mem_actionKeys {ir : AspectModuleIr} {action : ActionDef}
    (h : action ∈ ir.actions.values) :
    qualified action.aspect action.action ∈ ir.actionKeys action.action := by
  simp only [actionKeys, ExtTreeSet.mem_toList, ExtTreeSet.mem_ofList,
    List.contains_eq_mem, decide_eq_true_eq]
  exact List.mem_map_of_mem (List.mem_filter.2 ⟨h, beq_self_eq_true _⟩)

variable {ir : AspectModuleIr} {context : AspectExecutionContext} {fuel : ℕ}
  {pending : List String} {call : String → Inference → Inference} {head : String}
  {items : List Expr}

/-- A head that is neither a form nor an effect is taken for the name of an action. -/
theorem inferHead_of_name (hb : head ∉ builtinForms) (he : head ∉ effectHeads)
    (items : List Expr) (s : Inference) : ir.inferHead call head items s =
      (ir.actionKeys head).foldl (fun s key => call key s) s := by
  unfold inferHead
  split <;> first | rfl | exact absurd (by decide) hb | exact absurd (by decide) he

open InferredActionEffects in
/-- The other heads only add notes, or are taken for the names of actions as well. -/
theorem inferHead_cases (head : String) (items : List Expr) (s : Inference) :
    (ir.inferHead call head items s = (ir.actionKeys head).foldl (fun s key => call key s) s) ∨
      s.Grows (ir.inferHead call head items s) ∧
        (ir.inferHead call head items s).visited = s.visited := by
  have hgrows {i : InferredActionEffects} (h : s.inferred.Sub i) :
      s.Grows { s with inferred := i } := ⟨fun _ h => h, h⟩
  unfold inferHead
  split
  case h_2 => exact .inr ⟨hgrows ((sub_effect _ _).trans (sub_contractStateRead _ _)), rfl⟩
  case h_3 => exact .inr ⟨hgrows ((sub_effect _ _).trans (sub_write _ _)), rfl⟩
  case h_4 => exact .inr ⟨hgrows ((sub_effect _ _).trans (sub_registry _ _)), rfl⟩
  case h_5 => exact .inr ⟨hgrows ((sub_effect _ _).trans (sub_registry _ _)), rfl⟩
  case h_6 => exact .inr ⟨hgrows ((sub_effect _ _).trans (sub_registry _ _)), rfl⟩
  case h_8 => exact .inr ⟨hgrows ((sub_effect _ _).trans (sub_contractCall _ _)), rfl⟩
  case h_16 => exact .inl rfl
  all_goals exact .inr ⟨hgrows (sub_effect _ _), rfl⟩

open InferredActionEffects in
/-- What a list expression may ask for is found at its head. -/
theorem found_inferHead {op : AspectHostOp} (h : Issues context head items op) (s : Inference) :
    (ir.inferHead call head items s).inferred.Found context op := by
  have hi (i : InferredActionEffects) (kind : EffectKind) {i' : InferredActionEffects}
      (hsub : (i.effect kind).Sub i') : kind ∈ i'.effects :=
    hsub.effects kind (mem_effects_effect i kind)
  cases op with
  | stateGet =>
    obtain ⟨rfl, -⟩ := h
    exact mem_effects_effect _ _
  | contractStateGet =>
    obtain ⟨rfl, -⟩ := h
    exact hi _ _ (sub_contractStateRead _ _)
  | stateSet state =>
    obtain ⟨rfl, hs⟩ := h
    refine ⟨hi _ _ (sub_write _ _), ?_⟩
    simp only [inferHead, hs, write]
    exact ExtTreeSet.mem_insert_self
  | registryGet | registrySet | registryConsume =>
    obtain ⟨rfl, -⟩ := h
    exact hi _ _ (sub_registry _ _)
  | callContract contract method =>
    obtain ⟨rfl, ⟨target, ht, hv⟩, hm⟩ := h
    refine ⟨hi _ _ (sub_contractCall _ _), ⟨inferredContractSiteTarget target, method⟩, ?_, rfl, ?_⟩
    · simp only [inferHead, inferredContractSite, ht, hm, contractCall]
      exact ExtTreeSet.mem_insert_self
    · exact mayBe_inferredContractSiteTarget hv
  | emit | permitVerify | bridgeVerify | crossShardOutboxAppend =>
    obtain rfl := h
    exact mem_effects_effect _ _

/-! ## Bodies -/

/-- The list expressions that are taken for the definition of an action. -/
def isActionDefinition (ir : AspectModuleIr) : List Expr → Bool
  | [.atom "=", signature, _] => ir.namesAction signature
  | _ => false

theorem eq_of_isActionDefinition
    (h : ir.isActionDefinition (.atom head :: items) = true) : ∃ signature rhs, head = "=" ∧
      items = [signature, rhs] ∧ ir.namesAction signature = true := by
  unfold isActionDefinition at h
  split at h
  next signature rhs he =>
    cases he
    exact ⟨signature, rhs, rfl, rfl, h⟩
  next => cases h

/-- In any other list expression with an atom at its head, all parts are looked at. -/
theorem inferExpr_list (h : ir.isActionDefinition (.atom head :: items) = false) (s : Inference) :
    ir.inferExpr call (.list (.atom head :: items)) s =
      ir.inferExprs call items (ir.inferHead call head (.atom head :: items) s) := by
  unfold inferExpr
  split
  next h => cases h
  next signature rhs h =>
    cases h
    have hn : ir.namesAction signature = false := h
    simp only [hn, Bool.false_eq_true, if_false, inferExprs]
  next h => cases h; rfl
  next hno h => cases h; exact (hno _ _ rfl).elim

section Search

variable (hcall : ∀ key, Explores ir context fuel pending (call key) fun s => key ∈ s.visited)

include hcall

theorem explores_foldl (keys : List String) :
    Explores ir context fuel pending (fun s => keys.foldl (fun s key => call key s) s)
      fun s => ∀ key ∈ keys, key ∈ s.visited := by
  induction keys with
  | nil => exact fun s hs => ⟨.refl s, hs, nofun⟩
  | cons key keys ih =>
    intro s hs
    obtain ⟨hg, hi, hk, hks⟩ := (hcall key).comp ih (fun _ _ h => h.visited key) s hs
    exact ⟨hg, hi, List.forall_mem_cons.2 ⟨hk, hks⟩⟩

theorem explores_inferHead (head : String) (items : List Expr) :
    Explores ir context fuel pending (ir.inferHead call head items)
      fun s => s.Noted ir context head items := fun s hs => by
  have hfold := explores_foldl hcall (ir.actionKeys head) s hs
  have hgrows : s.Grows (ir.inferHead call head items s) ∧
      (ir.inferHead call head items s).Inv ir context fuel pending := by
    rcases inferHead_cases head items s with h | ⟨hg, hv⟩
    · rw [h]
      exact ⟨hfold.1, hfold.2.1⟩
    · exact ⟨hg, hs.of_visited_eq hg hv⟩
  refine ⟨hgrows.1, hgrows.2, fun op hop => found_inferHead hop s, fun hb he => ?_⟩
  rw [inferHead_of_name hb he]
  exact hfold.2.2

end Search

mutual

/-- An expression in which nothing is taken for a definition is noted as a whole. -/
theorem explores_inferExpr
    (hcall : ∀ key, Explores ir context fuel pending (call key) fun s => key ∈ s.visited) :
    ∀ e : Expr, Explores ir context fuel pending (ir.inferExpr call e) fun s =>
      e.All (fun _ items => ir.isActionDefinition items = false) → e.All (s.Noted ir context)
  | .atom _ => fun s hs => ⟨.refl s, hs, fun _ => trivial⟩
  | .list [] => fun s hs => ⟨.refl s, hs, fun _ => ⟨nofun, trivial⟩⟩
  | .list (.list l :: items) => fun s hs => by
    obtain ⟨hg, hi, hn⟩ := explores_inferExprs hcall (.list l :: items) s hs
    exact ⟨hg, hi, fun h => ⟨nofun, hn h.2⟩⟩
  | .list (.atom head :: items) => fun s hs => by
    cases hd : ir.isActionDefinition (.atom head :: items) with
    | true =>
      -- of a definition only the right-hand side is looked at
      obtain ⟨signature, rhs, rfl, rfl, hn⟩ := eq_of_isActionDefinition hd
      have hr : ir.inferExpr call (.list [.atom "=", signature, rhs]) s =
          ir.inferExpr call rhs s := by
        rw [inferExpr, if_pos hn]
      obtain ⟨hg, hi, -⟩ := explores_inferExpr hcall rhs s hs
      rw [hr]
      exact ⟨hg, hi, fun h => absurd hd (by rw [h.1 "=" rfl]; exact Bool.false_ne_true)⟩
    | false =>
      -- the head is noted first, then the items
      obtain ⟨hg, hi, hn, hns⟩ := (explores_inferHead hcall head (.atom head :: items)).comp
        (explores_inferExprs hcall items) (fun _ _ h => h.noted _ _) s hs
      rw [inferExpr_list hd]
      refine ⟨hg, hi, fun h => ⟨fun head' hh => ?_, trivial, hns h.2.2⟩⟩
      cases hh
      exact hn

theorem explores_inferExprs
    (hcall : ∀ key, Explores ir context fuel pending (call key) fun s => key ∈ s.visited) :
    ∀ es : List Expr, Explores ir context fuel pending (ir.inferExprs call es) fun s =>
      Expr.AllIn (fun _ items => ir.isActionDefinition items = false) es →
        Expr.AllIn (s.Noted ir context) es
  | [] => fun s hs => ⟨.refl s, hs, fun _ => trivial⟩
  | e :: es => fun s hs => by
    obtain ⟨hg, hi, he, hes⟩ := (explores_inferExpr hcall e).comp (explores_inferExprs hcall es)
      (fun _ _ h hn hp => (hn hp).mono h.noted) s hs
    exact ⟨hg, hi, fun h => ⟨he h.1, hes h.2⟩⟩

end

/-! ## Actions -/

/-- The right-hand side of a definition. -/
def rightHandSide? : Expr → Option Expr
  | .list [.atom "=", _, rhs] => some rhs
  | _ => none

variable (ir) in
/-- In no right-hand side of an action is anything taken for a definition. -/
def DefinesNothing : Prop :=
  ∀ action ∈ ir.actions.values, ∀ rhs ∈ action.body.bind rightHandSide?,
    rhs.All fun _ items => ir.isActionDefinition items = false

instance : Decidable ir.DefinesNothing :=
  inferInstanceAs (Decidable (∀ action ∈ ir.actions.values, ∀ rhs ∈ action.body.bind rightHandSide?,
    rhs.All fun _ items => ir.isActionDefinition items = false))

end AspectModuleIr

end Detta
