import Detta.Aspect.Verify
import Detta.Safety.Binding
import Detta.Safety.History

/-!
# Hashes of modules

Modules are kept under their hashes, which cover the name of a module and the roots of its
parts, but not its code. What is checked when a module is registered
(`AspectModuleRecord.Admitted`) holds of all modules of a chain (`Reachable.admitted`); so the
code that stands under a hash, if there is some, is determined by the hash. But a module may
also be submitted by its roots alone, and then there is none.
-/

namespace Detta

open Kernel

/-- The modules of a state have been checked, and stand under their hashes. -/
def DeTTaState.ModulesAdmitted (env : Env) (s : DeTTaState) : Prop :=
  ∀ {moduleHash : String} {r : AspectModuleRecord}, s.aspectModules[moduleHash]? = some r →
    r.Admitted env ∧ r.moduleHash = moduleHash

section Admitted

variable {env : Env} {s s' : DeTTaState} {f : Frame}

theorem DeTTaState.ModulesAdmitted.insert (h : s.ModulesAdmitted env)
    {module : AspectModuleRecord} (ha : module.Admitted env)
    (hs : s'.aspectModules = s.aspectModules.insert module.moduleHash module) :
    s'.ModulesAdmitted env := by
  intro moduleHash r hr
  rw [hs] at hr
  rcases Table.of_getElem?_insert hr with ⟨he, rfl⟩ | hr
  · exact ⟨ha, he⟩
  · exact h hr

end Admitted

/-! ## Code -/

/-- The verifier of an environment is the one of the source. -/
def Env.Verifies (env : Env) : Prop := env.verifyModule = fun ir => ir.verifiedRoots env.hashing

section Code

variable {env : Env}

/-- The code of a module, if it has some, has the root that the module states. -/
theorem AspectModuleRecord.Admitted.irRoot {r : AspectModuleRecord} (h : r.Admitted env)
    (hv : env.Verifies) {ir : AspectModuleIr} (hir : r.ir = some ir) :
    r.irRoot = env.hashing.rootOf ir.json := by
  have hcode := h.code
  rw [codeMatches, hir, hv] at hcode
  simp only [AspectModuleIr.verifiedRoots] at hcode
  cases hverify : ir.verifyModule with
  | error e => simp [hverify] at hcode
  | ok closures =>
    simp only [hverify, Bool.and_eq_true, beq_iff_eq] at hcode
    exact hcode.1.1.1.1.1.2

end Code

/-! ## A hash that is taken -/

namespace Squatting

/-- A module with a bundle that has nothing. -/
def declarations : Declarations where
  types := []
  aspects := []
  bundles := [⟨"M", ∅, ∅, ∅⟩]
  projections := []
  actions := []
  storageSchema := []
  invariants := []
  abi := []
  policies := []

def ir : AspectModuleIr := { declarations.lower "0" with taxonomyVersion := "v" }

/-- An injective hash function that is short for the parts of the module. -/
def shortHash (bytes : Bytes) : Bytes :=
  if bytes = ir.json.renderBytes then [1]
  else if bytes = [0x7b, 0x7d] then [2]
  else 0 :: bytes

/-- Hashes and an encoding that are injective, and the verifier of the source. -/
def env : Env where
  hashing := ⟨Json.renderBytes, shortHash⟩
  parseFinalityProof _ := none
  parseModule source := some (source, ir)
  verifyModule ir := ir.verifiedRoots ⟨Json.renderBytes, shortHash⟩

def factory : DeTTaState := runOps env (.new "c") [.deploy (.factory "f")]

/-- The module is submitted as source. -/
def submission : Transaction :=
  Proxy.call "alice" "f" .submitAspectModule [.text "M", .text "(bundle M)"]

/-- Its roots are submitted by somebody else. -/
def roots : Transaction :=
  let r := ir.artifactRoots env.hashing
  Proxy.call "mallory" "f" .submitAspectModule [.text "M", .text "v", .text "0",
    .text r.irRoot, .text r.abiRoot, .text r.policyRoot, .text r.storageSchemaRoot,
    .text r.registrySchemaRoot, .text r.invariantRoot]

def submitted : DeTTaState := (Op.transaction submission).apply env factory

def squatted : DeTTaState := (Op.transaction roots).apply env factory

def moduleHash : String :=
  (AspectModuleRecord.new env.hashing "M" "v" "0" (ir.artifactRoots env.hashing)).moduleHash

/-- The source is refused once the hash is taken. -/
theorem evaluated :
    (submitted.aspectModules[moduleHash]?).map (·.ir.isSome) = some true ∧
      (squatted.aspectModules[moduleHash]?).map (·.ir.isSome) = some false ∧
      ¬Commits env squatted submission := by
  decide +kernel

end Squatting

end Detta
