import Detta.Safety.Binding
import Detta.Safety.KeySet

/-!
# Receipts

A node looks up the receipt of a transaction by its hash, in memory (`getReceipt`) or in the
files of its blocks (`findReceipt`). The hash is a text that the sender of the transaction has
chosen, and nothing keeps others from choosing it again once the transaction is in a block. In
memory the last receipt of a hash is found, and in the files the first one.

As long as the blocks that are accepted bring no hash again, a receipt stays what it is; and as
long as they come at heights without a block as well, the receipts in memory are those in the
files (`receipts_stable`).
-/

namespace Detta

/-! ## The receipts of a block -/

theorem txHash_applyTransaction (env : Env) (s : DeTTaState) (tx : Transaction) :
    (applyTransaction env s tx).2.txHash = tx.txHash := by
  unfold applyTransaction
  split
  next => rfl
  next =>
    dsimp only
    split
    · rfl
    · split <;> rfl

theorem map_txHash_applyTransactions (env : Env) (s : DeTTaState) (txs : List Transaction) :
    (applyTransactions env s txs).2.map (·.txHash) = txs.map (·.txHash) := by
  induction txs generalizing s with
  | nil => rfl
  | cons tx txs ih =>
    rw [applyTransactions, List.map_cons, List.map_cons, ih, txHash_applyTransaction]

namespace ValidatorNode

variable {env : Env} {n : ValidatorNode} {block : Block} {txHash : TxHash} {r : Receipt}

/-- The receipts of an accepted block have the hashes of its transactions. -/
theorem map_txHash_of_accepted (h : (n.validateAndApply env block).2 = none) :
    block.receipts.map (·.txHash) = block.transactions.map (·.txHash) := by
  obtain ⟨state, happly, -⟩ := exists_of_accepted h
  rw [(of_applyBlock_eq_none (congrArg Prod.snd happly)).2.1, map_txHash_applyTransactions]

/-- A block leaves the receipts of other transactions alone. -/
theorem getReceipt_of_accepted (h : (n.validateAndApply env block).2 = none)
    (hnot : txHash ∉ block.transactions.map (·.txHash)) (hr : n.getReceipt txHash = some r) :
    (n.validateAndApply env block).1.getReceipt txHash = some r := by
  rw [← map_txHash_of_accepted h] at hnot
  obtain ⟨state, -, hnext⟩ := exists_of_accepted h
  rw [hnext]
  exact Table.getElem?_foldl_insert
    (fun a ha heq => absurd (heq ▸ List.mem_map_of_mem ha) hnot) (.inr hr)

/-- A receipt is one of the block, or was there before. -/
theorem mem_of_getReceipt (h : (n.validateAndApply env block).2 = none)
    (hr : (n.validateAndApply env block).1.getReceipt txHash = some r) :
    r ∈ block.receipts ∧ r.txHash = txHash ∨ n.getReceipt txHash = some r := by
  obtain ⟨state, -, hnext⟩ := exists_of_accepted h
  rw [hnext] at hr
  rcases Table.mem_of_getElem?_foldl_insert hr with ⟨a, ha, hhash, rfl⟩ | hold
  · exact .inl ⟨ha, hhash⟩
  · exact .inr hold

/-- The node knows of a transaction with this hash that was not refused. -/
def executed (n : ValidatorNode) (txHash : TxHash) : Bool :=
  (n.getReceipt txHash).any (·.status ≠ .rejected)

/-- The receipt of a transaction that was not refused stays, as long as no block brings its hash
    again. -/
theorem getReceipt_run (ops : List NodeOp) (hr : n.getReceipt txHash = some r)
    (hstatus : r.status ≠ .rejected)
    (h : ∀ p ∈ n.accepted env ops, ∀ tx ∈ p.2.transactions, p.1.executed tx.txHash = false) :
    (n.run env ops).getReceipt txHash = some r := by
  induction ops generalizing n with
  | nil => exact hr
  | cons op ops ih =>
    rcases apply_cases env n op with ⟨block, rfl, hok⟩ | ⟨-, -, hreceipts, hacc⟩
    · rw [accepted_cons_of_accepted hok] at h
      obtain ⟨hblock, hrest⟩ := List.forall_mem_cons.1 h
      refine ih (getReceipt_of_accepted hok (fun hmem => ?_) hr) hrest
      obtain ⟨tx, htx, rfl⟩ := List.mem_map.1 hmem
      have hnot := hblock tx htx
      simp [executed, hr, hstatus] at hnot
    · refine ih ?_ fun p hp => h p (hacc ops ▸ hp)
      rwa [getReceipt, hreceipts]

end ValidatorNode

/-! ## The files of blocks -/

/-- The receipts of the files, in the order of the heights. -/
def FileStorage.receipts (st : FileStorage) : List Receipt :=
  st.blocks.values.flatMap (·.receipts)

/-- All block files can be read, and no two receipts in them have the same hash. -/
structure FileStorage.Legible (env : NodeEnv) (st : FileStorage) : Prop where
  fits : ∀ block ∈ st.blocks.values, Storage.Fits env (.block block)
  nodup : (st.receipts.map (·.txHash)).Nodup

/-- The files take a block: it can be written, there is none at its height, and the hashes of its
    transactions are new. -/
structure FileStorage.Admits (env : NodeEnv) (st : FileStorage) (block : Block) : Prop where
  works : st.faults = []
  fits : Storage.Fits env (.block block)
  height : st.blocks[block.header.height]? = none
  nodup : (block.transactions.map (·.txHash)).Nodup
  unused : ∀ tx ∈ block.transactions, tx.txHash ∉ st.receipts.map (·.txHash)

instance (env : NodeEnv) (st : FileStorage) (block : Block) : Decidable (st.Admits env block) :=
  decidable_of_iff
    (st.faults = [] ∧ Storage.Fits env (.block block) ∧ st.blocks[block.header.height]? = none ∧
      (block.transactions.map (·.txHash)).Nodup ∧
      ∀ tx ∈ block.transactions, tx.txHash ∉ st.receipts.map (·.txHash))
    ⟨fun ⟨h₁, h₂, h₃, h₄, h₅⟩ => ⟨h₁, h₂, h₃, h₄, h₅⟩,
      fun ⟨h₁, h₂, h₃, h₄, h₅⟩ => ⟨h₁, h₂, h₃, h₄, h₅⟩⟩

namespace Storage

variable {env : NodeEnv} {st : FileStorage}

/-- A file is read, if nothing fails and it is not too long. -/
theorem wp_readJson {α : Type} {Q : α → FileStorage → Prop}
    {E : FileStorageError → FileStorage → Prop} {stored : α → StoredValue} {content : α}
    (hworks : st.faults = []) (hQ : Fits env (stored content) → Q content st)
    (hE : ¬Fits env (stored content) → ∀ e, E e st) :
    wp (readJson env stored content) Q E st :=
  wp_bind.2 <| wp_access_of_works hworks <| wp_bind.2 <| wp_ensure.2 ⟨hQ, fun h => hE h _⟩

theorem wp_mapM_readJson {blocks : List Block} (hworks : st.faults = [])
    (hfits : ∀ block ∈ blocks, Fits env (.block block)) :
    wp (blocks.mapM (readJson env .block)) (fun bs st' => bs = blocks ∧ st' = st)
      (fun _ _ => False) st := by
  induction blocks with
  | nil => exact ⟨rfl, rfl⟩
  | cons block blocks ih =>
    obtain ⟨hblock, hblocks⟩ := List.forall_mem_cons.1 hfits
    rw [List.mapM_cons]
    refine wp_bind.2 (wp_readJson hworks (fun _ => ?_) fun hnot => absurd hblock hnot)
    refine (ih hblocks).bind ?_
    rintro bs st' ⟨rfl, rfl⟩
    exact ⟨rfl, rfl⟩

/-- The first receipt of a hash is found. -/
theorem wp_findReceipt (hworks : st.faults = [])
    (hfits : ∀ block ∈ st.blocks.values, Fits env (.block block)) (txHash : TxHash) :
    wp (findReceipt env txHash) (fun r st' => r = st.receipts.find? (·.txHash = txHash) ∧ st' = st)
      (fun _ _ => False) st := by
  unfold findReceipt loadBlocks
  refine wp_bind.2 (wp_bind.2 (wp_access_of_works hworks (.get ?_)))
  refine (wp_mapM_readJson hworks hfits).mono ?_ fun _ _ h => h
  rintro bs st' ⟨rfl, rfl⟩
  exact wp_pure.2 ⟨(List.find?_flatMap ..).symm, rfl⟩

end Storage

namespace FileStorage

variable {env : NodeEnv} {st : FileStorage} {block : Block} {txHash : TxHash} {r : Receipt}

/-- In files without a second receipt of a hash, every receipt is found. -/
theorem Legible.findReceipt (h : st.Legible env) (hworks : st.faults = [])
    (hmem : r ∈ st.receipts) :
    (Storage.findReceipt env r.txHash).run' st = some (some r) := by
  have hfind : st.receipts.find? (·.txHash = r.txHash) = some r := by
    cases hfound : st.receipts.find? (·.txHash = r.txHash) with
    | none =>
      rw [List.find?_eq_none] at hfound
      simpa using hfound r hmem
    | some r' =>
      have hhash : r'.txHash = r.txHash := by simpa using List.find?_some hfound
      rw [List.inj_on_of_nodup_map h.nodup (List.mem_of_find?_eq_some hfound) hmem hhash]
  have hwp := Storage.wp_findReceipt hworks h.fits r.txHash
  cases hrun : Storage.findReceipt env r.txHash st with
  | error e st' => exact ((wp_of_error hrun).1 hwp).elim
  | ok found st' =>
    obtain ⟨rfl, -⟩ := (wp_of_ok hrun).1 hwp
    delta EStateM.run' EStateM.run
    rw [hrun, hfind]

/-- The blocks after one is stored at a new height. -/
theorem values_insert_perm {blocks : Std.ExtTreeMap U64 Block} {height : U64}
    (h : blocks[height]? = none) :
    (blocks.insert height block).values.Perm (block :: blocks.values) := by
  have hperm := Table.toList_perm_cons_erase
    (Std.ExtTreeMap.getElem?_insert_self (t := blocks) (k := height) (v := block))
  rw [Table.erase_insert, Table.erase_of_getElem?_eq_none h] at hperm
  rw [Table.values_eq_map_toList, Table.values_eq_map_toList]
  exact hperm.map Prod.snd

variable {n : ValidatorNode}

/-- The files with one more block. -/
def withBlock (st : FileStorage) (block : Block) : FileStorage :=
  { st with blocks := st.blocks.insert block.header.height block }

theorem receipts_withBlock_perm (h : st.blocks[block.header.height]? = none) :
    (st.withBlock block).receipts.Perm (block.receipts ++ st.receipts) :=
  (values_insert_perm h).flatMap_right _

/-- A block that the node accepts and the files take leaves them legible. -/
theorem Legible.withBlock (h : st.Legible env) (hadmits : st.Admits env block)
    (hok : (n.validateAndApply env.toEnv block).2 = none) : (st.withBlock block).Legible env := by
  have hhashes := ValidatorNode.map_txHash_of_accepted hok
  constructor
  case fits =>
    intro b hb
    rcases List.mem_cons.1 ((values_insert_perm hadmits.height).mem_iff.1 hb) with rfl | hb
    · exact hadmits.fits
    · exact h.fits b hb
  case nodup =>
    rw [((receipts_withBlock_perm hadmits.height).map _).nodup_iff, List.map_append, hhashes]
    refine hadmits.nodup.append h.nodup fun hash hnew hold => ?_
    obtain ⟨tx, htx, rfl⟩ := List.mem_map.1 hnew
    exact hadmits.unused tx htx hold

end FileStorage

/-! ## Nodes with files -/

/-- The block that an operation offers to a node, with the node that checks it. -/
def PersistentOp.offered (env : NodeEnv) (n : PersistentValidatorNode) :
    PersistentOp → Option (ValidatorNode × Block)
  | importBlock block | ingestNetworkEnvelope (.block block) => some (n.node, block)
  | ingestNetworkEnvelope (.signedValidator signed) =>
    match signed.message with
    | .block block => some (n.node, block)
    | _ => none
  | produceBlock height timestamp => some (n.node.proposePendingBlock env.toEnv height timestamp)
  | _ => none

/-- If the operation makes the node accept a block, the files take it. -/
def PersistentOp.BringsNew (env : NodeEnv) (n : PersistentValidatorNode) (op : PersistentOp) :
    Prop :=
  ∀ p ∈ op.offered env n, (p.1.validateAndApply env.toEnv p.2).2 = none →
    n.storage.Admits env p.2

instance (env : NodeEnv) (n : PersistentValidatorNode) (op : PersistentOp) :
    Decidable (op.BringsNew env n) := inferInstanceAs (Decidable (∀ p ∈ _, _ → _))

theorem PersistentOp.Brings.offered {op : PersistentOp} {block : Block}
    (h : op.Brings (.block block)) (env : NodeEnv) (n : PersistentValidatorNode) :
    op.offered env n = some (n.node, block) := by
  cases h with
  | block => rfl
  | message hbears =>
    rcases hbears with rfl | ⟨signed, rfl, hcontent⟩
    · rfl
    · simp only [PersistentOp.offered, hcontent]

namespace PersistentValidatorNode

open PersistentNode

variable {env : NodeEnv} {n : PersistentValidatorNode} {known : Std.ExtTreeMap TxHash Receipt}
  {block : Block}

/-- The receipts of the node are in its files, and those that are known already are among
    them. -/
structure Traceable (env : NodeEnv) (known : Std.ExtTreeMap TxHash Receipt)
    (n : PersistentValidatorNode) : Prop extends n.storage.Legible env where
  stored : ∀ txHash r, n.node.getReceipt txHash = some r →
    r ∈ n.storage.receipts ∧ r.txHash = txHash
  kept : ∀ txHash r, known[txHash]? = some r → n.node.getReceipt txHash = some r

theorem Traceable.of_eq (h : n.Traceable env known) {n' : PersistentValidatorNode}
    (hblocks : n'.storage.blocks = n.storage.blocks)
    (hreceipts : n'.node.receipts = n.node.receipts) : n'.Traceable env known := by
  have hfiles : n'.storage.receipts = n.storage.receipts := by
    rw [FileStorage.receipts, FileStorage.receipts, hblocks]
  refine ⟨⟨hblocks ▸ h.fits, hfiles ▸ h.nodup⟩, fun txHash r hr => ?_, fun txHash r hr => ?_⟩
  · rw [ValidatorNode.getReceipt, hreceipts] at hr
    exact hfiles ▸ h.stored txHash r hr
  · rw [ValidatorNode.getReceipt, hreceipts]
    exact h.kept txHash r hr

theorem insensitive_traceable (env : NodeEnv) (known : Std.ExtTreeMap TxHash Receipt) :
    Insensitive env FileStorage.blocks (Traceable env known) where
  take _ _ _ _ _ h := h.of_eq rfl rfl
  drop _ _ h := h.of_eq rfl rfl
  files _ _ hst h := h.of_eq hst rfl

/-- A block that is accepted and stored. -/
theorem Traceable.withBlock (h : n.Traceable env known)
    (hok : (n.node.validateAndApply env.toEnv block).2 = none)
    (hadmits : n.storage.Admits env block) :
    Traceable env known
      { n with
        node := (n.node.validateAndApply env.toEnv block).1
        storage := n.storage.withBlock block } := by
  have hhashes := ValidatorNode.map_txHash_of_accepted hok
  have hperm := FileStorage.receipts_withBlock_perm hadmits.height
  refine ⟨h.toLegible.withBlock hadmits hok, fun txHash r hr => ?_, fun txHash r hr => ?_⟩
  · rcases ValidatorNode.mem_of_getReceipt hok hr with ⟨hmem, hhash⟩ | hold
    · exact ⟨hperm.mem_iff.2 (List.mem_append_left _ hmem), hhash⟩
    · obtain ⟨hmem, hhash⟩ := h.stored txHash r hold
      exact ⟨hperm.mem_iff.2 (List.mem_append_right _ hmem), hhash⟩
  · -- the hash is in the files, so that no transaction of the block has it
    have hold := h.kept txHash r hr
    obtain ⟨hmem, rfl⟩ := h.stored txHash r hold
    refine ValidatorNode.getReceipt_of_accepted hok (fun hnew => ?_) hold
    obtain ⟨tx, htx, heq⟩ := List.mem_map.1 hnew
    exact hadmits.unused tx htx (heq ▸ List.mem_map_of_mem hmem)

theorem Traceable.importBlock (h : n.Traceable env known)
    (hnew : (n.node.validateAndApply env.toEnv block).2 = none → n.storage.Admits env block) :
    wp (importBlock env block) (fun _ => Traceable env known) (fun _ => Traceable env known) n := by
  have hI := insensitive_traceable env known
  refine wp_importBlock (fun _ => h) fun hok => ?_
  have hadmits := hnew hok
  have hnext := h.withBlock hok hadmits
  generalize (n.node.validateAndApply env.toEnv block).1 = node at hnext ⊢
  unfold persistCommittedBlock Storage.commitBlock
  refine wp_bind.2 (wp_onStorage.2 ?_)
  refine Storage.wp_writeJsonAtomic_of_fits hadmits.works hadmits.fits ?_
  refine .get ?_
  exact (hI.onStorage _ _ hnext).bind fun _ n' hn' => hI.persistMempool n' hn'

/-- Receipts stay traceable when the files take every block that is accepted. -/
theorem Traceable.run (h : n.Traceable env known) {op : PersistentOp} (hop : op.BringsNew env n) :
    wp (op.run env) (fun _ => Traceable env known) (fun _ => Traceable env known) n := by
  have hI := insensitive_traceable env known
  refine hI.run_of_brings (fun _ _ h => h.of_eq rfl rfl) (fun _ _ _ _ _ h => h.of_eq rfl rfl) h
    ?_ ?_ ?_ ?_
  · intro tx _
    unfold PersistentNode.submitTransaction ValidatorNode.submitTransaction
    refine .get ?_
    cases n.node.mempool.submit env.hashing n.node.state tx with
    | error e => exact h
    | ok mempool => exact .set (hI.persistMempool _ (h.of_eq rfl rfl))
  · exact fun block hb => h.importBlock (hop _ (hb.offered env n))
  · rintro height timestamp rfl
    unfold PersistentNode.produceBlock
    refine .get (.set ?_)
    have hdrained : Traceable env known
        { n with node := (n.node.proposePendingBlock env.toEnv height timestamp).1 } :=
      h.of_eq rfl rfl
    exact wp_bind.2 (hdrained.importBlock (hop _ rfl))
  · exact fun evidence _ => ((hI.onStorage _).bind fun _ => Keeps.pure _) n h

/-! ### New nodes -/

/-- A node that was started with new files or from old ones. -/
inductive Started (env : NodeEnv) : PersistentValidatorNode → Prop
  | genesis {validatorId : String} {state : DeTTaState} {storage : FileStorage}
      {n : PersistentValidatorNode}
      (h : writeGenesis env state (.ofNode validatorId (.new validatorId state) storage) =
        .ok () n) : Started env n
  | restart {validatorId : String} {storage : FileStorage} {n : PersistentValidatorNode}
      (h : restart env validatorId storage = .ok n) : Started env n

/-- What else is loaded when a node is started leaves the node itself alone. -/
theorem keeps_node_loadFiles (node : ValidatorNode) :
    Keeps (fun n => n.node = node) (fun _ n => n.node = node) (loadFiles env) := by
  unfold loadFiles loadValidatorSetMetadata loadSnapshotImportAuditConfig
    loadPendingValidatorSetMetadataAuthorizations
  have hI : Insensitive env FileStorage.slashings fun n => n.node = node :=
    ⟨fun _ _ _ _ _ h => h, fun _ _ h => h, fun _ _ _ h => h⟩
  have hfiles {α : Type} (m : Storage α) :
      Keeps (fun n => n.node = node) (fun _ n => n.node = node) (onStorage m) := fun n hn =>
    wp_onStorage.2 ((wp_self m _).mono (fun _ _ _ => hn) fun _ _ _ => hn)
  refine Keeps.bind ?_ fun _ => Keeps.bind ?_ fun _ => ?_
  · refine (hfiles _).bind fun metadata => ?_
    cases metadata with
    | none => exact Keeps.pure ()
    | some metadata =>
      intro n hn
      refine .get (.ensure ⟨fun _ => ?_, fun _ => hn⟩)
      exact wp_bind.2 (PersistentNode.wp_ofExcept.2 ⟨fun _ _ => wp_set.2 hn, fun _ _ => hn⟩)
  · refine (hfiles _).bind fun config => ?_
    cases config with
    | none => exact Keeps.pure ()
    | some config => exact Keeps.update fun _ hn => hn
  · refine (hfiles _).bind fun authorizations => ?_
    refine Keeps.bind (Keeps.update ?_) fun _ => ?_
    · exact fun _ hn => hn
    · exact (hI.loadAuthorizations authorizations).bind fun _ =>
        hI.persistPendingValidatorSetMetadataAuthorizations

theorem wp_loadNode_receipts (validatorId : String) (storage : FileStorage) :
    wp (loadNode env validatorId) (fun r _ => ∀ node, r = .ok node → node.receipts = ∅)
      (fun _ _ => True) storage := by
  unfold loadNode
  refine wp_bind.2 ((wp_self _ _).imp fun _ st _ => ?_)
  refine wp_bind.2 ((wp_self _ _).imp fun snapshot st _ => ?_)
  refine wp_bind.2 ((wp_self _ _).imp fun pending st _ => wp_pure.2 ?_)
  intro node hnode
  unfold ValidatorNode.withPendingTransactions at hnode
  cases hpool : Mempool.fromTransactions env.hashing snapshot.state pending with
  | error e =>
    rw [hpool] at hnode
    cases hnode
  | ok pool =>
    rw [hpool] at hnode
    cases hnode
    rfl

/-- A new node has no receipts in its memory. -/
theorem Started.receipts_eq_empty (h : Started env n) : n.node.receipts = ∅ := by
  cases h with
  | @genesis validatorId state storage n h =>
    have hfiles : OnlyFiles (writeGenesis env state) := .onStorage _
    obtain ⟨st, rfl⟩ := (wp_of_ok h).1 (hfiles _)
    rfl
  | @restart validatorId storage n h =>
    unfold PersistentNode.restart at h
    split at h
    next => exact absurd h nofun
    next => exact absurd h nofun
    next node storage' hnode =>
      have hreceipts := (wp_of_ok hnode).1 (wp_loadNode_receipts validatorId storage) node rfl
      split at h
      next u n' hload =>
        obtain rfl := Except.ok.inj h
        have hkept := (wp_of_ok hload).1 (keeps_node_loadFiles node _ rfl)
        rw [hkept, hreceipts]
      next => exact absurd h nofun

/-- In the files of a new node that are legible, everything can be found. -/
theorem Started.traceable (h : Started env n) (hfiles : n.storage.Legible env) :
    n.Traceable env ∅ := by
  refine ⟨hfiles, fun txHash r hr => ?_, fun txHash r hr => ?_⟩
  · simp [ValidatorNode.getReceipt, h.receipts_eq_empty] at hr
  · simp at hr

end PersistentValidatorNode

/-! ## Stability -/

/-- The receipt of a transaction that was executed stays in the memory of a node, as long as no
    block that the node accepts has a transaction with the hash of one that was executed. If all
    blocks that are accepted can be stored at new heights, and the hashes in them are new, then
    this receipt is also the one that is found in the files. -/
theorem receipts_stable (env : NodeEnv) (txHash : TxHash) (r : Receipt)
    (hstatus : r.status = .committed ∨ r.status = .reverted) :
    (∀ (n : ValidatorNode) (ops : List NodeOp), n.getReceipt txHash = some r →
      (∀ p ∈ n.accepted env.toEnv ops, ∀ tx ∈ p.2.transactions,
        p.1.executed tx.txHash = false) →
      (n.run env.toEnv ops).getReceipt txHash = some r) ∧
    ∀ (n : PersistentValidatorNode) (before after : List PersistentOp),
      PersistentValidatorNode.Started env n → n.storage.Legible env →
      (∀ p ∈ stepsFrom (PersistentOp.apply env) n (before ++ after), p.2.BringsNew env p.1) →
      (runFrom (PersistentOp.apply env) n before).node.getReceipt txHash = some r →
      (runFrom (PersistentOp.apply env) n (before ++ after)).storage.faults = [] →
      (runFrom (PersistentOp.apply env) n (before ++ after)).node.getReceipt txHash = some r ∧
        (Storage.findReceipt env txHash).run'
          (runFrom (PersistentOp.apply env) n (before ++ after)).storage = some (some r) := by
  refine ⟨fun n ops hr h => ?_, fun n before after hn hfiles hsteps hr hworks => ?_⟩
  · refine ValidatorNode.getReceipt_run ops hr ?_ h
    rcases hstatus with h | h <;> simp [h]
  · rw [stepsFrom_append, List.forall_mem_append] at hsteps
    rw [runFrom_append] at hworks ⊢
    have hbefore := (runFrom_invariant (hn.traceable hfiles)
      (fun n op hn hop => (hn.run hop).endState) hsteps.1).1
    have hafter := (runFrom_invariant (I := PersistentValidatorNode.Traceable env
        (runFrom (PersistentOp.apply env) n before).node.receipts)
      ⟨hbefore.toLegible, hbefore.stored, fun _ _ h => h⟩
      (fun n op hn hop => (hn.run hop).endState) hsteps.2).1
    have hend := hafter.kept txHash r hr
    obtain ⟨hmem, rfl⟩ := hafter.stored txHash r hend
    exact ⟨hend, hafter.toLegible.findReceipt hworks hmem⟩

namespace Reuse

/-! Somebody else uses the hash of a payment that was committed. -/

open PersistentNode

def env : NodeEnv where
  toEnv := Proxy.env
  messageBytes _ := some []
  readSnapshot _ := none
  isVerifyingKey _ := true
  verifies _ _ _ := true
  storedBytes _ := []
  ioMessage := "failed"

/-- What comes of writing the first files of a node with a token. -/
def genesis : EStateM.Result PersistentNodeError PersistentValidatorNode Unit :=
  writeGenesis env Proxy.state (.ofNode "v" (.new "v" Proxy.state) .empty)

def start : PersistentValidatorNode := endState genesis

/-- The receipt of the payment of `alice`. -/
def receipt : Receipt :=
  (applyTransaction Proxy.env { Proxy.state with height := 1 } Proxy.transfer).2

def payment : List PersistentOp := [.submitTransaction Proxy.transfer, .produceBlock 1 0]

/-- The node after the payment. -/
def paid : PersistentValidatorNode := runFrom (PersistentOp.apply env) start payment

/-- Another payment, which has a hash of its own. -/
def refund : Transaction :=
  { Proxy.call "bob" "t" .transfer [.principal "alice", .asset "A", .amount 5] with
    txHash := "g" }

def next : List PersistentOp := [.submitTransaction refund, .produceBlock 2 0]

/-- A block with the other payment, as somebody else proposes it. -/
def refundBlock : NodeOp :=
  .validateAndApply (paid.node.proposeBlock Proxy.env 2 [refund] 0)

/-- A payment that fails, with the hash of the first one. -/
def again : List PersistentOp :=
  [.submitTransaction
    (Proxy.call "mallory" "t" .transfer [.principal "alice", .asset "A", .amount 5]),
    .produceBlock 2 0]

set_option maxRecDepth 4000 in
theorem evaluated :
    (genesis matches .ok _ _) = true ∧ receipt.status = .committed ∧
      paid.node.getReceipt "h" = some receipt ∧
      (∀ p ∈ paid.node.accepted Proxy.env [refundBlock], ∀ tx ∈ p.2.transactions,
        p.1.executed tx.txHash = false) ∧
      (∀ p ∈ stepsFrom (PersistentOp.apply env) start (payment ++ next), p.2.BringsNew env p.1) ∧
      (runFrom (PersistentOp.apply env) start (payment ++ next)).storage.faults = [] ∧
      ((runFrom (PersistentOp.apply env) start (payment ++ again)).node.getReceipt "h").map
        (·.status) = some .reverted ∧
      (Storage.findReceipt env "h").run'
        (runFrom (PersistentOp.apply env) start (payment ++ again)).storage =
          some (some receipt) := by
  decide +kernel

theorem started_start : PersistentValidatorNode.Started env start := by
  obtain ⟨hok, -⟩ := evaluated
  cases h : genesis with
  | ok u n =>
    have hstart : start = n := congrArg endState h
    exact hstart ▸ .genesis h
  | error e n =>
    rw [h] at hok
    exact absurd hok Bool.false_ne_true

theorem legible_start : start.storage.Legible env := by
  have hempty : start.storage.blocks = ∅ := by rfl
  refine ⟨fun block hb => ?_, ?_⟩
  · rw [hempty] at hb
    exact absurd hb List.not_mem_nil
  · rw [FileStorage.receipts, hempty]
    exact .nil

/-- After another payment, the receipt of the first one is the same, in memory and in the
    files. -/
theorem receipts_stable_next :
    (paid.node.run Proxy.env [refundBlock]).getReceipt "h" = some receipt ∧
    (runFrom (PersistentOp.apply env) start (payment ++ next)).node.getReceipt "h" =
        some receipt ∧
      (Storage.findReceipt env "h").run'
        (runFrom (PersistentOp.apply env) start (payment ++ next)).storage =
          some (some receipt) := by
  obtain ⟨-, hstatus, hreceipt, hblocks, hsteps, hworks, -⟩ := evaluated
  have hstable := receipts_stable env "h" receipt (.inl hstatus)
  exact ⟨hstable.1 paid.node [refundBlock] hreceipt hblocks,
    hstable.2 start payment next started_start legible_start hsteps hreceipt hworks⟩

/-- The payment was committed, but then the memory has the receipt of another transaction, which
    failed, while the files still have the first one. -/
theorem receipt_replaced :
    PersistentValidatorNode.Started env start ∧ start.storage.Legible env ∧
      receipt.status = .committed ∧ paid.node.getReceipt "h" = some receipt ∧
      (runFrom (PersistentOp.apply env) start (payment ++ again)).node.getReceipt "h" ≠
        some receipt ∧
      (Storage.findReceipt env "h").run'
        (runFrom (PersistentOp.apply env) start (payment ++ again)).storage =
          some (some receipt) := by
  obtain ⟨-, hstatus, hreceipt, -, -, -, hagain, hfiles⟩ := evaluated
  refine ⟨started_start, legible_start, hstatus, hreceipt, fun h => ?_, hfiles⟩
  rw [h, Option.map_some, hstatus] at hagain
  exact absurd hagain (by decide)

end Reuse

end Detta
