import Detta.Aspect.Verify

/-!
# The aspects of a bundle

The verifier and the kernel each collect the aspects of a bundle with a search of their own:
the bundle and all that it extends include aspects, and these extend others. Both relations may
have cycles.

If the names that are mentioned exist, both searches succeed and find the aspects that can be
reached (`Referenced.adds`).
-/

namespace Detta

open Std (ExtTreeMap ExtTreeSet LawfulEqCmp)

namespace AspectModuleIr

open Relation

variable (ir : AspectModuleIr)

def AspectExtends (aspect parent : String) : Prop :=
  ∃ d, ir.aspects[aspect]? = some d ∧ parent ∈ d.extends'

def BundleExtends (bundle parent : String) : Prop :=
  ∃ d, ir.bundles[bundle]? = some d ∧ parent ∈ d.extends'

/-- An aspect of a bundle: the bundle, or one that it extends, includes it or an aspect that
    extends it. -/
def BundleHas (bundle aspect : String) : Prop :=
  ∃ base d included, ReflTransGen ir.BundleExtends bundle base ∧ ir.bundles[base]? = some d ∧
    included ∈ d.includes ∧ ReflTransGen ir.AspectExtends included aspect

/-- The aspects and bundles that are extended or included exist. -/
structure Referenced : Prop where
  aspects : ∀ d ∈ ir.aspects.values, ∀ parent ∈ d.extends'.toList, parent ∈ ir.aspects
  included : ∀ d ∈ ir.bundles.values, ∀ aspect ∈ d.includes.toList, aspect ∈ ir.aspects
  bundles : ∀ d ∈ ir.bundles.values, ∀ parent ∈ d.extends'.toList, parent ∈ ir.bundles

variable {ir} {bundle : String}

/-- The names in a table are known, if those that are extended are in it. -/
theorem knows_keys {D : Type} {t : ExtTreeMap String D} {parents : D → ExtTreeSet String}
    (h : ∀ d ∈ t.values, ∀ parent ∈ (parents d).toList, parent ∈ t) :
    Knows (t[·]?) (fun d => (parents d).toList) (fun a p => ∃ d, t[a]? = some d ∧ p ∈ parents d)
      t.keys := by
  intro a ha
  obtain ⟨d, hd⟩ := Option.isSome_iff_exists.1
    (ExtTreeMap.mem_iff_isSome_getElem?.1 (ExtTreeMap.mem_keys.1 ha))
  refine ⟨d, hd, fun p => by simp [hd], fun p hp => ?_⟩
  exact ExtTreeMap.mem_keys.2 (h d (Table.mem_values_iff.2 ⟨a, hd⟩) p hp)

/-- A search for the aspects of a bundle, by a search for the ancestors of an aspect. -/
theorem Referenced.adds (h : ir.Referenced) {ε V : Type} (above : V → String → Prop)
    (push : V → String → V) {v : V}
    {f g : ℕ → V → ExtTreeSet String → String → Except ε (ExtTreeSet String)}
    (hf : Searches (ir.aspects[·]?) (·.extends'.toList)
      (fun aspect _ (closure : ExtTreeSet String) => .ok (closure.insert aspect)) above push f)
    (hg : Searches (ir.bundles[·]?) (·.extends'.toList)
      (fun _ d closure => d.includes.toList.foldlM (f (ir.aspects.size + 1) v) closure)
      above push g)
    (hv : ∀ x, ¬above v x) (hb : bundle ∈ ir.bundles) :
    Adds ∅ (ir.BundleHas bundle) (g (ir.bundles.size + 1) v ∅ bundle) := by
  have haspect {aspect : String} (ha : aspect ∈ ir.aspects) (closure : ExtTreeSet String) :
      Adds closure (ReflTransGen ir.AspectExtends aspect)
        (f (ir.aspects.size + 1) v closure aspect) := by
    rw [← ExtTreeMap.length_keys]
    have hadds := hf.adds_reachable (knows_keys h.aspects) (r := ir.AspectExtends)
      (S := fun a x => x = a)
      (fun a _ _ _ acc => ⟨_, rfl, fun x => ?_⟩) hv (ExtTreeMap.mem_keys.2 ha) closure
    · simpa using hadds
    · rw [ExtTreeSet.mem_insert, LawfulEqCmp.compare_eq_iff_eq, eq_comm, or_comm]
  rw [← ExtTreeMap.length_keys]
  have hadds := hg.adds_reachable (knows_keys h.bundles) (r := ir.BundleExtends)
    (S := fun b x => ∃ d included, ir.bundles[b]? = some d ∧ included ∈ d.includes ∧
      ReflTransGen ir.AspectExtends included x) (fun b _ d hd acc => ?_) hv
    (ExtTreeMap.mem_keys.2 hb) ∅
  · simpa [Adds, BundleHas] using hadds
  · have hincluded := h.included d (Table.mem_values_iff.2 ⟨b, hd⟩)
    simpa [hd] using Adds.foldlM (fun a ha => haspect (hincluded a ha)) acc

/-- The search of the verifier, which keeps the names above in a list. -/
theorem Referenced.adds_verifier (h : ir.Referenced) (hb : bundle ∈ ir.bundles) :
    Adds ∅ (ir.BundleHas bundle) (ir.collectBundleAspects (ir.bundles.size + 1) [] ∅ bundle) := by
  refine h.adds (fun v x => x ∈ v) (fun v a => a :: v) (f := ir.collectAspectWithParents)
    ⟨?_, ?_, ?_⟩ ⟨?_, ?_, ?_⟩ (fun _ => List.not_mem_nil) hb
  all_goals intros
  all_goals simp_all [collectBundleAspects, collectAspectWithParents]

/-- The search of the kernel, which keeps them in a set. -/
theorem Referenced.adds_kernel (h : ir.Referenced) (hb : bundle ∈ ir.bundles) :
    Adds ∅ (ir.BundleHas bundle) (aspectBundleAspectClosure ir bundle) := by
  have hpush (v : ExtTreeSet String) (a x : String) : x ∈ v.insert a ↔ x = a ∨ x ∈ v := by
    rw [ExtTreeSet.mem_insert, LawfulEqCmp.compare_eq_iff_eq, eq_comm]
  refine h.adds (fun v x => x ∈ v) (fun v a => v.insert a) (f := Detta.collectAspectWithParents ir)
    (g := Detta.collectBundleAspects ir) ⟨hpush, ?_, ?_⟩ ⟨hpush, ?_, ?_⟩
    (fun _ => ExtTreeSet.not_mem_empty) hb
  all_goals intros
  all_goals simp_all [Detta.collectBundleAspects, Detta.collectAspectWithParents]

/-- The table of the bundles with what the search of the verifier has found. -/
theorem Referenced.closures (h : ir.Referenced) :
    ∃ closures, ir.bundleAspectClosures = .ok closures ∧
      ∀ bundle closure, closures[bundle]? = some closure ↔ bundle ∈ ir.bundles ∧
        ir.collectBundleAspects (ir.bundles.size + 1) [] ∅ bundle = .ok closure := by
  choose! c hc _ using fun bundle (hb : bundle ∈ ir.bundles) => h.adds_verifier hb
  refine ⟨_, foldlM_eq_ok (g := fun t b => t.insert b (c b)) (fun b hb t => ?_) ∅,
    fun bundle closure => ⟨fun hget => ?_, fun ⟨hb, hok⟩ => ?_⟩⟩
  · rw [hc b (ExtTreeMap.mem_keys.1 hb)]
    rfl
  · rcases Table.mem_of_getElem?_foldl_insert (f := id) hget with ⟨b, hb, rfl, rfl⟩ | hget
    · exact ⟨ExtTreeMap.mem_keys.1 hb, hc b (ExtTreeMap.mem_keys.1 hb)⟩
    · simp at hget
  · refine Table.getElem?_foldl_insert (f := id) (fun b _ he => ?_)
      (.inl ⟨bundle, ExtTreeMap.mem_keys.2 hb, rfl⟩)
    obtain rfl : b = bundle := he
    exact Except.ok.inj ((hc b hb).symm.trans hok)

/-- What the verifier has found for a bundle is what the kernel finds. -/
theorem Referenced.of_getElem?_closures (h : ir.Referenced) {closures : Closures}
    (hclosures : ir.bundleAspectClosures = .ok closures) {closure : ExtTreeSet String}
    (hc : closures[bundle]? = some closure) :
    aspectBundleAspectClosure ir bundle = .ok closure ∧
      ∀ aspect, aspect ∈ closure ↔ ir.BundleHas bundle aspect := by
  obtain ⟨closures', hclosures', hget⟩ := h.closures
  obtain rfl := Except.ok.inj (hclosures'.symm.trans hclosures)
  obtain ⟨hb, hcollect⟩ := (hget bundle closure).1 hc
  obtain ⟨found, hfound, hmem⟩ := h.adds_verifier hb
  obtain rfl := Except.ok.inj (hfound.symm.trans hcollect)
  obtain ⟨found', hfound', hmem'⟩ := h.adds_kernel hb
  refine ⟨?_, fun aspect => by simp [hmem]⟩
  rw [hfound']
  exact congrArg _ (ExtTreeSet.ext_mem fun aspect => by rw [hmem, hmem'])

/-- If the names that are mentioned exist, both computations of the aspects of a bundle succeed
    for every bundle, with the same result: the aspects that can be reached. -/
theorem closures_eq_reachable (h : ir.Referenced) :
    ∃ closures, ir.bundleAspectClosures = .ok closures ∧ ∀ bundle ∈ ir.bundles,
      ∃ closure, closures[bundle]? = some closure ∧
        aspectBundleAspectClosure ir bundle = .ok closure ∧
        ∀ aspect, aspect ∈ closure ↔ ir.BundleHas bundle aspect := by
  obtain ⟨closures, hclosures, hget⟩ := h.closures
  refine ⟨closures, hclosures, fun bundle hb => ?_⟩
  obtain ⟨closure, hfound, -⟩ := h.adds_verifier hb
  have hc := (hget bundle closure).2 ⟨hb, hfound⟩
  exact ⟨closure, hc, h.of_getElem?_closures hclosures hc⟩

end AspectModuleIr

namespace Kinship

/-- A module of aspects with what they extend, and of bundles with what they include and
    extend. -/
def module (aspects : List (String × List String))
    (bundles : List (String × List String × List String)) : AspectModuleIr :=
  Declarations.lower
    { types := []
      aspects := aspects.map fun a => ⟨a.1, false, .ofList a.2, ∅, ∅, ∅⟩
      bundles := bundles.map fun b => ⟨b.1, .ofList b.2.1, .ofList b.2.2, ∅⟩
      projections := []
      actions := []
      storageSchema := []
      invariants := []
      abi := []
      policies := [] } "00"

/-- Two aspects that extend each other, and two bundles. -/
def cyclic : AspectModuleIr :=
  module [("A", ["B"]), ("B", ["A"]), ("C", ["B"])] [("P", ["C"], ["Q"]), ("Q", [], ["P"])]

theorem closures_eq_reachable_cyclic :
    ∃ closures, cyclic.bundleAspectClosures = .ok closures ∧ ∀ bundle ∈ cyclic.bundles,
      ∃ closure, closures[bundle]? = some closure ∧
        aspectBundleAspectClosure cyclic bundle = .ok closure ∧
        ∀ aspect, aspect ∈ closure ↔ cyclic.BundleHas bundle aspect :=
  AspectModuleIr.closures_eq_reachable ⟨by decide, by decide, by decide⟩

end Kinship

end Detta
