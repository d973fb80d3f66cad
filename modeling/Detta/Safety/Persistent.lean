import Detta.Base.Check
import Detta.Core.Persistent

/-!
# What operations leave alone

Most operations of a node are about its files, or about the authorizations that wait, and
leave everything else as it is. This is said once: an invariant that depends neither on the
authorizations that wait nor on the files, apart from the slashing records (`Insensitive`), is
kept by them.
-/

namespace Detta

/-! ## Files -/

namespace Storage

variable {env : NodeEnv} {α : Type} {st : FileStorage}
  {E : FileStorageError → FileStorage → Prop}

variable {Q : Unit → FileStorage → Prop} {replace : FileStorage → FileStorage}

/-- After an operation on files, another one may fail. -/
theorem wp_access (hQ : ∀ f, Q () { st with faults := f })
    (hE : ∀ e f, E e { st with faults := f }) : wp (access env) Q E st :=
  wp_bind.2 <| wp_get.2 <| wp_bind.2 <| wp_set.2 <|
    wp_ensure.2 ⟨fun _ => hQ _, fun _ => hE _ _⟩

/-- A file is replaced, or nothing is done. -/
theorem wp_writeJsonAtomic {value : StoredValue}
    (hQ : Fits env value → ∀ f, Q () (replace { st with faults := f }))
    (hE : ∀ e f, E e { st with faults := f }) : wp (writeJsonAtomic env value replace) Q E st :=
  wp_bind.2 <| wp_ensure.2 ⟨fun hfits => wp_bind.2 (wp_access (fun f => hQ hfits f) hE),
    fun _ => hE _ st.faults⟩

/-- If nothing fails, nothing happens. -/
theorem wp_access_of_works (hworks : st.faults = []) (hQ : Q () st) : wp (access env) Q E st := by
  have hsame : { st with faults := st.faults.tail } = st := by
    cases st
    cases hworks
    rfl
  refine .get (.set (wp_ensure.2 ⟨fun _ => ?_, fun h => ?_⟩))
  · rwa [hsame]
  · rw [hworks] at h
    exact absurd rfl h

/-- A file is replaced, if nothing fails and the content is not too long. -/
theorem wp_writeJsonAtomic_of_fits {value : StoredValue} (hworks : st.faults = [])
    (hfits : Fits env value) (hQ : Q () (replace st)) :
    wp (writeJsonAtomic env value replace) Q E st :=
  wp_bind.2 <| wp_ensure.2 ⟨fun _ => wp_bind.2 (wp_access_of_works hworks hQ),
    fun h => absurd hfits h⟩

end Storage

/-- A part of the files, which has nothing to do with the failures to come. -/
class IsFile {β : Type} (file : FileStorage → β) : Prop where
  faults : ∀ st f, file { st with faults := f } = file st

/-- A part of the files that only blocks and evidence may change. -/
class IsRecord {β : Type} (file : FileStorage → β) : Prop extends IsFile file where
  snapshot : ∀ st x, file { st with latestSnapshot := x } = file st
  roots : ∀ st x, file { st with latestSnapshotMetadataRoots := x } = file st
  requiredRoots : ∀ st x, file { st with latestRequiredSnapshotMetadataRoots := x } = file st
  validatorSet : ∀ st x, file { st with validatorSet := x } = file st
  authorizations : ∀ st x,
    file { st with pendingValidatorSetMetadataAuthorizations := x } = file st
  audit : ∀ st x, file { st with validatorSetMetadataAudit := x } = file st
  importAudit : ∀ st x, file { st with snapshotImportAudit := x } = file st
  importAuditConfig : ∀ st x, file { st with snapshotImportAuditConfig := x } = file st
  mempool : ∀ st x, file { st with mempool := x } = file st

instance : IsRecord FileStorage.slashings where
  faults _ _ := rfl
  snapshot _ _ := rfl
  roots _ _ := rfl
  requiredRoots _ _ := rfl
  validatorSet _ _ := rfl
  authorizations _ _ := rfl
  audit _ _ := rfl
  importAudit _ _ := rfl
  importAuditConfig _ _ := rfl
  mempool _ _ := rfl

instance : IsRecord FileStorage.blocks where
  faults _ _ := rfl
  snapshot _ _ := rfl
  roots _ _ := rfl
  requiredRoots _ _ := rfl
  validatorSet _ _ := rfl
  authorizations _ _ := rfl
  audit _ _ := rfl
  importAudit _ _ := rfl
  importAuditConfig _ _ := rfl
  mempool _ _ := rfl

/-- The step leaves a part of the files alone. -/
class KeepsFile {α β : Type} (file : FileStorage → β) (m : Storage α) : Prop where
  keeps : ∀ t, Keeps (fun st => file st = t) (fun _ st => file st = t) m

namespace KeepsFile

variable {α β γ : Type} {file : FileStorage → γ}

instance (m : Storage α) [Reads m] : KeepsFile file m := ⟨fun _ => Keeps.same⟩

instance (m : Storage α) (f : α → Storage β) [KeepsFile file m] [∀ a, KeepsFile file (f a)] :
    KeepsFile file (m >>= f) := ⟨fun t => (keeps t).bind fun _ => keeps t⟩

instance [IsFile file] (env : NodeEnv) : KeepsFile file (Storage.access env) where
  keeps _ := fun _ h => Storage.wp_access (fun _ => (IsFile.faults _ _).trans h)
    fun _ _ => (IsFile.faults _ _).trans h

instance [IsFile file] (env : NodeEnv) (stored : α → StoredValue) (content : α) :
    KeepsFile file (Storage.readJson env stored content) := by
  unfold Storage.readJson
  infer_instance

instance [IsFile file] (env : NodeEnv) (stored : α → StoredValue)
    (content : FileStorage → Option α) :
    KeepsFile file (Storage.maybeReadJson env stored content) := by
  unfold Storage.maybeReadJson
  have (st : FileStorage) : KeepsFile file (match content st with
      | none => pure none
      | some content => do return some (← Storage.readJson env stored content)) := by
    cases content st <;> infer_instance
  infer_instance

instance [IsFile file] (env : NodeEnv) (stored : α → StoredValue) (default : α)
    (content : FileStorage → Option α) :
    KeepsFile file (Storage.readJsonOr env stored default content) := by
  unfold Storage.readJsonOr
  infer_instance

/-- A file is replaced, and it is another one. -/
theorem write [IsFile file] (env : NodeEnv) (value : StoredValue)
    {replace : FileStorage → FileStorage} (h : ∀ st, file (replace st) = file st) :
    KeepsFile file (Storage.writeJsonAtomic env value replace) where
  keeps _ := fun _ hst => Storage.wp_writeJsonAtomic
    (fun _ _ => (h _).trans ((IsFile.faults _ _).trans hst))
    fun _ _ => (IsFile.faults _ _).trans hst

instance (r : Except StorageError α) : KeepsFile file (Storage.ofExcept r) := by
  cases r <;> exact ⟨fun _ _ h => h⟩

instance (env : NodeEnv) (block : Block) :
    KeepsFile FileStorage.slashings (Storage.commitBlock env block) :=
  write env _ fun _ => rfl

instance (env : NodeEnv) (record : SlashingRecord) :
    KeepsFile FileStorage.blocks (Storage.commitSlashingRecord env record) :=
  write env _ fun _ => rfl

section Records

variable [IsRecord file]

instance (env : NodeEnv) (snapshot : StateSnapshot) :
    KeepsFile file (Storage.commitSnapshot env snapshot) := by
  unfold Storage.commitSnapshot
  split
  next => infer_instance
  next => exact write env _ fun st => IsRecord.snapshot st _

instance (env : NodeEnv) (transactions : List Transaction) :
    KeepsFile file (Storage.commitMempool env transactions) :=
  write env _ fun st => IsRecord.mempool st _

instance (env : NodeEnv) (roots : Std.ExtTreeMap String String) :
    KeepsFile file (Storage.commitSnapshotMetadataRoots env roots) :=
  write env _ fun st => IsRecord.roots st _

instance (env : NodeEnv) (roots : Std.ExtTreeMap String String) :
    KeepsFile file (Storage.commitRequiredSnapshotMetadataRoots env roots) :=
  write env _ fun st => IsRecord.requiredRoots st _

instance (env : NodeEnv) (metadata : ValidatorSetMetadata) :
    KeepsFile file (Storage.commitValidatorSetMetadata env metadata) :=
  write env _ fun st => IsRecord.validatorSet st _

instance (env : NodeEnv) (authorizations : List (Signed ProtocolMessage)) :
    KeepsFile file (Storage.commitPendingValidatorSetMetadataAuthorizations env
      authorizations) :=
  write env _ fun st => IsRecord.authorizations st _

instance (env : NodeEnv) (config : SnapshotImportAuditConfig) :
    KeepsFile file (Storage.commitSnapshotImportAuditConfig env config) :=
  write env _ fun st => IsRecord.importAuditConfig st _

instance (env : NodeEnv) (record : ValidatorSetMetadataAuditRecord) (maxRecords : ℕ) :
    KeepsFile file
      (Storage.appendValidatorSetMetadataAuditRecordWithRetention env record maxRecords) := by
  unfold Storage.appendValidatorSetMetadataAuditRecordWithRetention
    Storage.loadValidatorSetMetadataAuditRecords
  have (records : List ValidatorSetMetadataAuditRecord) :
      KeepsFile file (Storage.writeJsonAtomic env (.validatorSetMetadataAudit records)
        fun st => { st with validatorSetMetadataAudit := some records }) :=
    write env _ fun st => IsRecord.audit st _
  infer_instance

instance (env : NodeEnv) (record : SnapshotImportAuditRecord) (maxRecords : ℕ) :
    KeepsFile file (Storage.appendSnapshotImportAuditRecordWithRetention env record
      maxRecords) := by
  unfold Storage.appendSnapshotImportAuditRecordWithRetention
  have (records : List SnapshotImportAuditRecord) :
      KeepsFile file (Storage.writeJsonAtomic env (.snapshotImportAudit records)
        fun st => { st with snapshotImportAudit := some records }) :=
    write env _ fun st => IsRecord.importAudit st _
  infer_instance

end Records

end KeepsFile

/-! ## Authorizations -/

namespace PersistentValidatorNode

variable {env : NodeEnv} {n : PersistentValidatorNode} {update : ValidatorSetMetadataUpdate}
  {signed : Signed ProtocolMessage}

/-- An authorization of an update by a validator is kept. -/
structure Takes (env : NodeEnv) (n : PersistentValidatorNode)
    (update : ValidatorSetMetadataUpdate) (signer : String) : Prop where
  unexpired : update.expired n.currentHeight = false
  fresh : n.hasAppliedValidatorSetUpdate update.updateId = false
  room : n.pendingAuthorizations.contains update.updateId = true ∨
    n.pendingAuthorizations.size < n.maxPendingUpdates
  rate : (n.authorizationsFor update.updateId).contains signer = true ∨
    n.pendingAuthorizationsOf signer < n.maxPendingAuthorizationsPerValidator
  same : ∀ existing ∈ (n.authorizationsFor update.updateId).values.head?,
    n.verifiedValidatorSetMetadataUpdate env existing = .ok update

theorem rejectExpiredValidatorSetMetadataUpdate_eq_ok :
    n.rejectExpiredValidatorSetMetadataUpdate update = .ok () ↔
      update.expired n.currentHeight = false := by
  unfold rejectExpiredValidatorSetMetadataUpdate ValidatorSetMetadataUpdate.expired
  cases update.expiresAtHeight with
  | none => simp
  | some e => by_cases h : e ≤ n.currentHeight <;> simp [Option.filter, h]

theorem checkExistingAuthorization_eq_ok :
    n.checkExistingAuthorization env update = .ok () ↔
      ∀ existing ∈ (n.authorizationsFor update.updateId).values.head?,
        n.verifiedValidatorSetMetadataUpdate env existing = .ok update := by
  unfold checkExistingAuthorization
  cases (n.authorizationsFor update.updateId).values.head? with
  | none => simp
  | some existing =>
    simp only [Option.mem_def, Option.some.injEq, forall_eq']
    cases n.verifiedValidatorSetMetadataUpdate env existing with
    | error e => simp [bind, Except.bind]
    | ok u => simp [bind, Except.bind]

theorem insertPendingValidatorSetMetadataAuthorization_eq_ok
    {next : PersistentValidatorNode} {count : ℕ} :
    n.insertPendingValidatorSetMetadataAuthorization env signed = .ok (next, count) ↔
      ∃ update, n.verifiedValidatorSetMetadataUpdate env signed = .ok update ∧
        n.Takes env update signed.signer ∧ next = n.addAuthorization update.updateId signed ∧
        count = (next.authorizationsFor update.updateId).size := by
  unfold insertPendingValidatorSetMetadataAuthorization
  cases n.verifiedValidatorSetMetadataUpdate env signed with
  | error e => simp [bind, Except.bind]
  | ok update =>
    have hbind (f : ValidatorSetMetadataUpdate → Except PersistentNodeError
      (PersistentValidatorNode × ℕ)) : (.ok update >>= f) = f update := rfl
    simp only [hbind, bind_eq_ok, ite_error_eq_ok, rejectExpiredValidatorSetMetadataUpdate_eq_ok,
      checkExistingAuthorization_eq_ok, Except.ok.injEq, pure, Except.pure, Prod.mk.injEq,
      not_and_or, Bool.not_eq_true, Bool.not_eq_false, not_le, exists_eq_left']
    constructor
    · rintro ⟨h₁, h₂, h₃, h₄, h₅, rfl, rfl⟩
      exact ⟨⟨h₁, h₂, h₃, h₄, h₅⟩, rfl, rfl⟩
    · rintro ⟨⟨h₁, h₂, h₃, h₄, h₅⟩, rfl, rfl⟩
      exact ⟨h₁, h₂, h₃, h₄, h₅, rfl, rfl⟩

end PersistentValidatorNode

/-! ## Nodes -/

namespace PersistentNode

variable {env : NodeEnv} {α : Type} {n : PersistentValidatorNode}
  {Q : α → PersistentValidatorNode → Prop}
  {E : PersistentNodeError → PersistentValidatorNode → Prop}

theorem wp_onStorage {m : Storage α} :
    wp (onStorage m) Q E n ↔
      wp m (fun a st => Q a { n with storage := st })
        (fun e st => E (.storage e) { n with storage := st }) n.storage := by
  unfold wp onStorage
  cases m n.storage <;> rfl

theorem wp_discard {m : PersistentNode α} {Q : Unit → PersistentValidatorNode → Prop} :
    wp (discard m) Q E n ↔ wp m (fun _ => Q ()) E n := wp_map

theorem wp_attempt {m : PersistentNode α}
    {Q : Except PersistentNodeError α → PersistentValidatorNode → Prop} :
    wp (attempt m) Q E n ↔ wp m (fun a => Q (.ok a)) (fun e => Q (.error e)) n := by
  unfold wp attempt
  cases m n <;> rfl

theorem wp_ofExcept {r : Except PersistentNodeError α} :
    wp (ofExcept r) Q E n ↔ (∀ a, r = .ok a → Q a n) ∧ ∀ e, r = .error e → E e n := by
  cases r <;> simp [ofExcept]

instance (r : Except PersistentNodeError α) : Reads (ofExcept r) where
  same _ := wp_ofExcept.2 ⟨fun _ _ => rfl, fun _ _ => rfl⟩

/-- A block that is accepted is stored. -/
theorem wp_importBlock {block : Block} {P : PersistentValidatorNode → Prop}
    (hrefused : (n.node.validateAndApply env.toEnv block).2 ≠ none → P n)
    (haccepted : (n.node.validateAndApply env.toEnv block).2 = none →
      wp (persistCommittedBlock env block) (fun _ => P) (fun _ => P)
        { n with node := (n.node.validateAndApply env.toEnv block).1 }) :
    wp (importBlock env block) (fun _ => P) (fun _ => P) n := by
  unfold importBlock
  refine .get ?_
  split
  next e heq => exact hrefused fun hnone => absurd ((congrArg Prod.snd heq).symm.trans hnone) nofun
  next node heq =>
    obtain rfl : (n.node.validateAndApply env.toEnv block).1 = node := congrArg Prod.fst heq
    exact .set (haccepted (congrArg Prod.snd heq))

/-- Steps over the files leave everything else alone. -/
def OnlyFiles (m : PersistentNode α) : Prop :=
  ∀ n, wp m (fun _ n' => ∃ st, n' = { n with storage := st })
    (fun _ n' => ∃ st, n' = { n with storage := st }) n

namespace OnlyFiles

variable {β : Type}

theorem bind {m : PersistentNode α} {f : α → PersistentNode β} (hm : OnlyFiles m)
    (hf : ∀ a, OnlyFiles (f a)) : OnlyFiles (m >>= f) := fun n => by
  refine (hm n).bind ?_
  rintro a n' ⟨st, rfl⟩
  exact hf a { n with storage := st }

theorem reads (m : PersistentNode α) [Reads m] : OnlyFiles m := fun n =>
  (Reads.same (m := m) n).mono (fun _ _ h => ⟨n.storage, h⟩) fun _ _ h => ⟨n.storage, h⟩

theorem onStorage (m : Storage α) : OnlyFiles (onStorage m) := fun _ =>
  wp_onStorage.2 <| (wp_self _ _).mono (fun _ st _ => ⟨st, rfl⟩) fun _ st _ => ⟨st, rfl⟩

theorem recordValidatorSetMetadataAudit (updateId : String)
    (outcome : ValidatorSetMetadataAuditOutcome) (signers : List String) (reason : String) :
    OnlyFiles (recordValidatorSetMetadataAudit env updateId outcome signers reason) :=
  (reads get).bind fun _ => (onStorage _).bind fun _ => onStorage _

theorem persistPendingValidatorSetMetadataAuthorizations :
    OnlyFiles (persistPendingValidatorSetMetadataAuthorizations env) :=
  (reads get).bind fun _ => onStorage _

theorem persistEquivocationEvidence (evidence : EquivocationEvidence) :
    OnlyFiles (persistEquivocationEvidence env evidence) :=
  (onStorage _).bind fun _ => reads (pure _)

end OnlyFiles

/-- The invariant survives that authorizations are kept and dropped, and does not depend on the
    files, apart from some records. -/
structure Insensitive {β : Type} (env : NodeEnv) (file : FileStorage → β)
    (I : PersistentValidatorNode → Prop) : Prop where
  take : ∀ n update signed, n.verifiedValidatorSetMetadataUpdate env signed = .ok update →
    n.Takes env update signed.signer → I n → I (n.addAuthorization update.updateId signed)
  drop : ∀ n updateId, I n →
    I { n with pendingAuthorizations := n.pendingAuthorizations.erase updateId }
  files : ∀ n st, file st = file n.storage → I n → I { n with storage := st }

namespace Insensitive

theorem of_keys (P : KeyRing → Prop) :
    Insensitive env FileStorage.slashings fun n => P n.toKeyRing where
  take _ _ _ _ _ h := h
  drop _ _ h := h
  files _ _ _ h := h

variable {β : Type} {file : FileStorage → β} {I : PersistentValidatorNode → Prop}
  (hI : Insensitive env file I)
include hI

theorem onStorage (m : Storage α) [KeepsFile file m] :
    Keeps I (fun _ => I) (onStorage m) := fun n h =>
  wp_onStorage.2 <| (KeepsFile.keeps (m := m) (file n.storage) n.storage rfl).mono
    (fun _ st hst => hI.files n st hst h) fun _ st hst => hI.files n st hst h

omit hI in
theorem reads (m : PersistentNode α) [Reads m] : Keeps I (fun _ => I) m :=
  Keeps.same

/-- Authorizations are taken from their file one after the other. -/
theorem loadAuthorizations (authorizations : List (Signed ProtocolMessage)) :
    Keeps I (fun _ => I) (loadAuthorizations env authorizations) := by
  induction authorizations with
  | nil => exact Keeps.pure ()
  | cons signed authorizations ih =>
    intro n hn
    unfold PersistentNode.loadAuthorizations
    refine .get (wp_bind.2 (wp_ofExcept.2 ⟨fun update _ => ?_, fun _ _ => hn⟩))
    split
    · exact ih n hn
    · refine wp_bind.2 (wp_ofExcept.2 ⟨fun r hr => ?_, fun _ _ => hn⟩)
      obtain ⟨u, hverified, htakes, hnext, -⟩ :=
        PersistentValidatorNode.insertPendingValidatorSetMetadataAuthorization_eq_ok.1 hr
      exact .set (ih _ (hnext ▸ hI.take _ _ _ hverified htakes hn))

variable [IsRecord file]

theorem recordValidatorSetMetadataAudit (updateId : String)
    (outcome : ValidatorSetMetadataAuditOutcome) (signers : List String) (reason : String) :
    Keeps I (fun _ => I)
      (recordValidatorSetMetadataAudit env updateId outcome signers reason) := by
  unfold PersistentNode.recordValidatorSetMetadataAudit persistCurrentSnapshotMetadataRoots
    Storage.loadSnapshotMetadataRoots Storage.validatorSetMetadataAuditRoot
    Storage.loadValidatorSetMetadataAuditRecords
  exact (reads get).bind fun _ => (hI.onStorage _).bind fun _ => hI.onStorage _

theorem persistPendingValidatorSetMetadataAuthorizations :
    Keeps I (fun _ => I) (persistPendingValidatorSetMetadataAuthorizations env) :=
  (reads get).bind fun _ => hI.onStorage _

theorem recordPendingAuthorization (signed : Signed ProtocolMessage) :
    Keeps I (fun _ => I) (recordPendingAuthorization env signed) := by
  intro n hn
  unfold PersistentNode.recordPendingAuthorization
  refine .get ?_
  split
  next error _ =>
    split
    next update _ =>
      exact ((hI.recordValidatorSetMetadataAudit _ _ _ _).bind fun _ =>
        reads (throw error)) n hn
    next => exact ((Keeps.pure ()).bind fun _ => reads (throw error)) n hn
  next next count hinsert =>
    obtain ⟨update, hverified, htakes, rfl, -⟩ :=
      PersistentValidatorNode.insertPendingValidatorSetMetadataAuthorization_eq_ok.1 hinsert
    refine .set ?_
    exact (hI.persistPendingValidatorSetMetadataAuthorizations.bind fun _ =>
      Keeps.pure count) _ (hI.take n update signed hverified htakes hn)

theorem pruneValidatorSetMetadataAuthorizations :
    Keeps I (fun _ => I) (pruneValidatorSetMetadataAuthorizations env) := by
  unfold PersistentNode.pruneValidatorSetMetadataAuthorizations
  refine (reads get).bind fun n => (reads (ofExcept _)).bind fun pruned => ?_
  refine (Keeps.onlyIf ?_).bind fun _ => Keeps.pure _
  refine (Keeps.forEach fun entry _ => ?_).bind fun _ =>
    hI.persistPendingValidatorSetMetadataAuthorizations
  exact (Keeps.update fun n hn => hI.drop n _ hn).bind fun _ =>
    hI.recordValidatorSetMetadataAudit _ _ _ _

theorem persistMempool : Keeps I (fun _ => I) (persistMempool env) :=
  (reads get).bind fun _ => hI.onStorage _

theorem persistCommittedBlock (block : Block) [KeepsFile file (Storage.commitBlock env block)] :
    Keeps I (fun _ => I) (persistCommittedBlock env block) :=
  (hI.onStorage _).bind fun _ => (reads get).bind fun _ => (hI.onStorage _).bind fun _ =>
    hI.persistMempool

theorem importSnapshotChunkSet (chunkSet : SnapshotChunkSet)
    (required : Std.ExtTreeMap String String) :
    Keeps I (fun _ => I) (importSnapshotChunkSet env chunkSet required) := by
  unfold PersistentNode.importSnapshotChunkSet
  split
  next error _ => exact reads (throw _)
  next snapshot _ =>
    exact (hI.onStorage _).bind fun _ => (hI.onStorage _).bind fun _ =>
      (hI.onStorage _).bind fun _ => (hI.onStorage _).bind fun _ => (reads get).bind fun _ =>
        (hI.onStorage _).bind fun _ => Keeps.pure _

section Node

variable (hnode : ∀ n node, I n → I { n with node := node })
include hnode

theorem submitTransaction (tx : Transaction) :
    Keeps I (fun _ => I) (submitTransaction env tx) := by
  intro n hn
  unfold PersistentNode.submitTransaction
  refine .get ?_
  split
  next => exact hn
  next node _ => exact .set (hI.persistMempool _ (hnode n node hn))

variable [∀ block, KeepsFile file (Storage.commitBlock env block)]

theorem importBlock (block : Block) : Keeps I (fun _ => I) (importBlock env block) := fun n hn =>
  wp_importBlock (fun _ => hn) fun _ => hI.persistCommittedBlock block _ (hnode n _ hn)

theorem produceBlock (height timestamp : U64) :
    Keeps I (fun _ => I) (produceBlock env height timestamp) := fun n hn =>
  wp_bind.2 <| wp_get.2 <| wp_bind.2 <| wp_set.2 <|
    ((hI.importBlock hnode _).bind fun _ => Keeps.pure _) _ (hnode n _ hn)

end Node

section Keys

variable (hkeys : ∀ n k, I n → I { n with toKeyRing := k })
include hkeys

theorem applyValidatorSetMetadataUpdate (update : ValidatorSetMetadataUpdate) :
    Keeps I (fun _ => I) (applyValidatorSetMetadataUpdate env update) :=
  (reads get).bind fun _ => (reads (ensure _ _)).bind fun _ => (reads (ofExcept _)).bind fun _ =>
    (hI.onStorage _).bind fun _ => Keeps.update fun n hn => hkeys n _ hn

theorem applyQuorumAuthorizedValidatorSetMetadataUpdateWithQuorum
    (messages : List ProtocolMessage) (quorum : ℕ) :
    Keeps I (fun _ => I)
      (applyQuorumAuthorizedValidatorSetMetadataUpdateWithQuorum env messages quorum) :=
  (reads get).bind fun _ => (reads (ofExcept _)).bind fun _ => (reads (ensure _ _)).bind fun _ =>
    (reads (okOr _ _)).bind fun _ => hI.applyValidatorSetMetadataUpdate hkeys _

theorem applyQuorumAuthorizedValidatorSetMetadataUpdate (messages : List ProtocolMessage) :
    Keeps I (fun _ => I) (applyQuorumAuthorizedValidatorSetMetadataUpdate env messages) :=
  (reads get).bind fun _ =>
    hI.applyQuorumAuthorizedValidatorSetMetadataUpdateWithQuorum hkeys _ _

theorem applyPendingValidatorSetMetadataUpdate (updateId : String) :
    Keeps I (fun _ => I) (applyPendingValidatorSetMetadataUpdate env updateId) := by
  unfold PersistentNode.applyPendingValidatorSetMetadataUpdate
  refine (reads get).bind fun n => (reads (okOr _ _)).bind fun authorizations => ?_
  refine Keeps.bind (fun n hn => wp_attempt.2
    (hI.applyQuorumAuthorizedValidatorSetMetadataUpdate hkeys _ n hn)) fun result => ?_
  cases result with
  | error error =>
    exact (hI.recordValidatorSetMetadataAudit _ _ _ _).bind fun _ => reads (throw error)
  | ok =>
    exact (hI.recordValidatorSetMetadataAudit _ _ _ _).bind fun _ =>
      (Keeps.update fun n hn => hI.drop n _ hn).bind fun _ =>
        hI.persistPendingValidatorSetMetadataAuthorizations

theorem deliverAuthorization (signed : Signed ProtocolMessage) (updateId : String) :
    Keeps I (fun _ => I) (deliverAuthorization env signed updateId) := by
  unfold PersistentNode.deliverAuthorization
  refine (hI.recordPendingAuthorization signed).bind fun count => (reads get).bind fun n => ?_
  split
  · exact (hI.applyPendingValidatorSetMetadataUpdate hkeys updateId).bind fun _ => Keeps.pure _
  · exact Keeps.pure _

theorem proposeValidatorSetMetadataUpdateAuthorization (signed : Signed ProtocolMessage) :
    Keeps I (fun _ => I) (proposeValidatorSetMetadataUpdateAuthorization env signed) :=
  (reads get).bind fun _ => (reads (ofExcept _)).bind fun _ =>
    (hI.deliverAuthorization hkeys signed _).bind fun _ => (reads get).bind fun _ => Keeps.pure _

theorem persistValidatorSetMetadata (networkId : String)
    (validatorKeys : List ValidatorPublicKey) :
    Keeps I (fun _ => I) (persistValidatorSetMetadata env networkId validatorKeys) := by
  unfold PersistentNode.persistValidatorSetMetadata
  refine (reads get).bind fun n => (reads (ofExcept _)).bind fun keyring => ?_
  exact (hI.onStorage _).bind fun _ => Keeps.update fun n hn =>
    hkeys n ⟨networkId, n.chainId, keyring, ∅⟩ hn

end Keys

end Insensitive

end PersistentNode

/-! ## Messages -/

/-- The message is some other one, or has it signed. -/
def ProtocolMessage.Bears (message content : ProtocolMessage) : Prop :=
  message = content ∨ ∃ signed, message = .signedValidator signed ∧ signed.message = content

namespace PersistentNode

variable {env : NodeEnv} {n : PersistentValidatorNode}

/-- A signed message that is verified does not have another signed message in it. -/
theorem not_verified_of_signedValidator {k : KeyRing} {signed inner : Signed ProtocolMessage}
    (h : signed.message = .signedValidator inner) :
    k.verifySignedValidatorMessage env signed ≠ .ok () := by
  unfold KeyRing.verifySignedValidatorMessage
  split
  next => simp
  next publicKey _ =>
    unfold Signed.verify
    simp only [h, ProtocolMessage.outline, expectedSignatureDomain]
    repeat' split
    all_goals simp [Except.mapError]

/-- What a message from the network can do. -/
theorem wp_ingestNetworkEnvelope {P : PersistentValidatorNode → Prop} {message : ProtocolMessage}
    (hsame : P n)
    (htx : ∀ tx, message.Bears (.transaction tx) →
      wp (submitTransaction env tx) (fun _ => P) (fun _ => P) n)
    (hblock : ∀ block, message.Bears (.block block) →
      wp (importBlock env block) (fun _ => P) (fun _ => P) n)
    (hevidence : ∀ evidence, message.Bears (.equivocationEvidence evidence) →
      wp (persistEquivocationEvidence env evidence) (fun _ => P) (fun _ => P) n)
    (hdeliver : ∀ signed update, message = .signedValidator signed →
      n.verifiedValidatorSetMetadataUpdate env signed = .ok update →
      wp (deliverAuthorization env signed update.updateId) (fun _ => P) (fun _ => P) n) :
    wp (ingestNetworkEnvelope env message) (fun _ => P) (fun _ => P) n := by
  have hplain {content : ProtocolMessage} (hb : message.Bears content)
      (hn : ∀ signed, content ≠ .signedValidator signed) :
      wp (ingestNetworkEnvelope env content) (fun _ => P) (fun _ => P) n := by
    cases content with
    | transaction tx =>
      unfold ingestNetworkEnvelope
      exact wp_bind.2 (htx tx hb)
    | block block =>
      unfold ingestNetworkEnvelope
      exact wp_bind.2 (hblock block hb)
    | equivocationEvidence evidence =>
      unfold ingestNetworkEnvelope
      exact wp_bind.2 (hevidence evidence hb)
    | signedValidator signed => exact absurd rfl (hn signed)
    | _ => exact hsame
  cases message with
  | signedValidator signed =>
    obtain ⟨signer, keyId, networkId, chainId, domain, content, signatureHex⟩ := signed
    unfold ingestNetworkEnvelope
    refine .get (wp_bind.2 (wp_ofExcept.2 ⟨fun _ hv => ?_, fun _ _ => hsame⟩))
    cases content with
    | validatorSetMetadataUpdate update =>
      refine (hdeliver _ update rfl ?_).bind ?_
      · simp [KeyRing.verifiedValidatorSetMetadataUpdate, hv, bind, Except.bind]
      · intro delivered n' hn'
        split <;> exact hn'
    | signedValidator inner => exact absurd hv (not_verified_of_signedValidator rfl)
    | _ => exact hplain (.inr ⟨_, rfl, rfl⟩) nofun
  | _ => exact hplain (.inl rfl) nofun

end PersistentNode

/-- The content that an operation brings: a transaction, a block or evidence. -/
inductive PersistentOp.Brings : PersistentOp → ProtocolMessage → Prop where
  | transaction (tx : Transaction) : Brings (.submitTransaction tx) (.transaction tx)
  | block (block : Block) : Brings (.importBlock block) (.block block)
  | evidence (evidence : EquivocationEvidence) :
      Brings (.persistEquivocationEvidence evidence) (.equivocationEvidence evidence)
  | message {message content : ProtocolMessage} (h : message.Bears content) :
      Brings (.ingestNetworkEnvelope message) content

namespace PersistentNode

variable {env : NodeEnv} {n : PersistentValidatorNode}

section Run

variable {I : PersistentValidatorNode → Prop} (hkeys : ∀ n k, I n → I { n with toKeyRing := k })
  (hlimits : ∀ n updates authorizations records imports, I n → I
    { n with
      maxPendingUpdates := updates
      maxPendingAuthorizationsPerValidator := authorizations
      maxValidatorSetMetadataAuditRecords := records
      maxSnapshotImportAuditRecords := imports })
  {op : PersistentOp} (h : I n)
include hkeys hlimits h

/-- An invariant that survives what happens to authorizations and keys is kept by an operation, if
    it is kept by what the operation brings. -/
theorem Insensitive.run_of_brings {β : Type} {file : FileStorage → β} [IsRecord file]
    (hI : Insensitive env file I)
    (htx : ∀ tx, op.Brings (.transaction tx) →
      wp (PersistentNode.submitTransaction env tx) (fun _ => I) (fun _ => I) n)
    (hblock : ∀ block, op.Brings (.block block) →
      wp (PersistentNode.importBlock env block) (fun _ => I) (fun _ => I) n)
    (hproduce : ∀ height timestamp, op = .produceBlock height timestamp →
      wp (PersistentNode.produceBlock env height timestamp) (fun _ => I) (fun _ => I) n)
    (hevidence : ∀ evidence, op.Brings (.equivocationEvidence evidence) →
      wp (PersistentNode.persistEquivocationEvidence env evidence) (fun _ => I) (fun _ => I) n) :
    wp (op.run env) (fun _ => I) (fun _ => I) n := by
  cases op with
  | submitTransaction tx => exact htx tx (.transaction tx)
  | produceBlock height timestamp => exact wp_discard.2 (hproduce height timestamp rfl)
  | importBlock block => exact hblock block (.block block)
  | ingestNetworkEnvelope message =>
    refine wp_discard.2 (wp_ingestNetworkEnvelope h ?_ ?_ ?_ ?_)
    · exact fun tx hb => htx tx (.message hb)
    · exact fun block hb => hblock block (.message hb)
    · exact fun evidence hb => hevidence evidence (.message hb)
    · exact fun signed update _ _ => hI.deliverAuthorization hkeys signed _ n h
  | recordPending message =>
    refine wp_discard.2 ?_
    unfold recordPendingValidatorSetMetadataAuthorization
    split
    next signed => exact hI.recordPendingAuthorization signed n h
    next => exact h
  | propose authorization =>
    exact wp_discard.2 (hI.proposeValidatorSetMetadataUpdateAuthorization hkeys authorization n h)
  | prune => exact wp_discard.2 (hI.pruneValidatorSetMetadataAuthorizations n h)
  | applyPending updateId => exact hI.applyPendingValidatorSetMetadataUpdate hkeys updateId n h
  | applyQuorumAuthorized messages =>
    exact hI.applyQuorumAuthorizedValidatorSetMetadataUpdate hkeys messages n h
  | applyQuorumAuthorizedWithQuorum messages quorum =>
    exact hI.applyQuorumAuthorizedValidatorSetMetadataUpdateWithQuorum hkeys messages quorum n h
  | persistEquivocationEvidence evidence =>
    exact wp_discard.2 (hevidence evidence (.evidence evidence))
  | importSnapshotChunkSet chunkSet required =>
    exact wp_discard.2 (hI.importSnapshotChunkSet chunkSet required n h)
  | setAuthorizationLimits maxPendingUpdates maxPendingAuthorizationsPerValidator =>
    exact hlimits n _ _ _ _ h
  | setValidatorSetMetadataAuditLimits maxRecords => exact hlimits n _ _ _ _ h
  | setSnapshotImportAuditLimits maxRecords maxPageSize =>
    exact .modify (hI.onStorage _ _ (hlimits n _ _ _ _ h))
  | setNetworkId networkId => exact hkeys n { n.toKeyRing with networkId := networkId } h
  | trustValidatorKey publicKey =>
    exact hkeys n { n.toKeyRing with
      validatorKeys := n.validatorKeys.insert publicKey.validatorId publicKey } h
  | persistValidatorSetMetadata networkId validatorKeys =>
    exact hI.persistValidatorSetMetadata hkeys networkId validatorKeys n h

/-- An invariant that depends on none of the things that are changed is kept by every
    operation, if it is kept by evidence. -/
theorem Insensitive.run (hI : Insensitive env FileStorage.slashings I)
    (hnode : ∀ n node, I n → I { n with node := node })
    (hevidence : ∀ evidence, op.Brings (.equivocationEvidence evidence) →
      wp (PersistentNode.persistEquivocationEvidence env evidence) (fun _ => I) (fun _ => I) n) :
    wp (op.run env) (fun _ => I) (fun _ => I) n :=
  hI.run_of_brings hkeys hlimits h (fun tx _ => hI.submitTransaction hnode tx n h)
    (fun block _ => hI.importBlock hnode block n h)
    (fun height timestamp _ => hI.produceBlock hnode height timestamp n h) hevidence

end Run

end PersistentNode

end Detta
