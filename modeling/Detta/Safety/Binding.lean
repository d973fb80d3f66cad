import Detta.Base.Check
import Detta.Safety.Commitment
import Detta.Safety.Encoding
import Detta.Safety.Node

/-!
# What headers and snapshots bind

A header carries the roots of a block, and a snapshot the roots of a state. Both are Merkle
roots for the lists, so they determine the lists up to the repetitions that pad an odd
level.

* The header of an accepted block determines the transactions and the receipts, once their
  number is known. It does not determine their number: a block of three transactions that
  are refused has the header of a block of four.
* The global root determines the state, up to the hash of the last block, which is not in
  the root as the root is in the header of that block, and up to the numbers of events and
  of outgoing messages.
-/

namespace Detta

open Json

/-! ## Headers -/

variable {h : Hashing} {s : DeTTaState} {env : Env} {proposer certificate : String}

/-- What an accepted block has been checked for. -/
theorem of_blockError_eq_none {working : DeTTaState} {receipts : List Receipt} {b : Block}
    (heq : blockError h s working receipts b = none) :
    b.header.txRoot = h.merkleRoot (b.transactions.map Transaction.json) ∧
      receipts = b.receipts ∧ b.header.receiptRoot = h.merkleRoot (receipts.map Receipt.json) := by
  obtain ⟨-, heq⟩ := of_ite_eq_none heq
  obtain ⟨-, heq⟩ := of_ite_eq_none heq
  obtain ⟨-, heq⟩ := of_ite_eq_none heq
  obtain ⟨htx, heq⟩ := of_ite_eq_none heq
  obtain ⟨hreceipts, heq⟩ := of_ite_eq_none heq
  obtain ⟨hroot, -⟩ := of_ite_eq_none heq
  exact ⟨not_not.1 htx, not_not.1 hreceipts, not_not.1 hroot⟩

/-- An accepted block has the roots of its transactions and receipts, and their receipts. -/
theorem of_applyBlock_eq_none {b : Block} (h : (applyBlock env s b).2 = none) :
    b.header.txRoot = env.hashing.merkleRoot (b.transactions.map Transaction.json) ∧
      b.receipts =
        (applyTransactions env { s with height := b.header.height } b.transactions).2 ∧
      b.header.receiptRoot = env.hashing.merkleRoot (b.receipts.map Receipt.json) := by
  unfold applyBlock at h
  simp only at h
  split at h
  next => cases h
  next hnone =>
    obtain ⟨htx, hreceipts, hroot⟩ := of_blockError_eq_none hnone
    exact ⟨htx, hreceipts.symm, hreceipts ▸ hroot⟩

/-- The transactions of a block, as they are hashed. -/
def Block.txJson (b : Block) : List Json := b.transactions.map Transaction.json

/-- Two accepted blocks with the same header have the same transactions and receipts if and
    only if they have as many transactions. -/
theorem header_binds_body_iff (env : Env) (s : DeTTaState) (b b' : Block)
    (hf : env.hashing.Faithful)
    (hc : env.hashing.CollisionFree
      (env.hashing.merkleInputs b.txJson ++ env.hashing.merkleInputs b'.txJson))
    (h : (applyBlock env s b).2 = none) (h' : (applyBlock env s b').2 = none)
    (hheader : b.header = b'.header) :
    (b.transactions = b'.transactions ∧ b.receipts = b'.receipts) ↔
      b.transactions.length = b'.transactions.length := by
  obtain ⟨hroot, hreceipts, -⟩ := of_applyBlock_eq_none h
  obtain ⟨hroot', hreceipts', -⟩ := of_applyBlock_eq_none h'
  constructor
  · rintro ⟨htx, -⟩
    rw [htx]
  · intro hlength
    rw [hheader, hroot'] at hroot
    have htxs : b.txJson = b'.txJson :=
      Hashing.merkleRoot_inj hf hc hroot.symm
        (.inl (by rw [Block.txJson, Block.txJson, List.length_map, List.length_map, hlength]))
    have htx : b.transactions = b'.transactions :=
      List.map_injective_iff.2 Transaction.json_injective htxs
    -- the receipts are those of running the transactions again
    refine ⟨htx, ?_⟩
    rw [hreceipts, hreceipts', htx, hheader]

/-! ### Blocks of refused transactions -/

/-- A transaction that is refused can be repeated: it leaves the state as it is. -/
theorem applyTransactions_replicate {tx : Transaction} {e : ExecutionError}
    (h : rejection s tx = some e) (n : ℕ) :
    applyTransactions env s (List.replicate n tx) =
      (s, List.replicate n (rejectedReceipt env.hashing s tx.txHash e)) := by
  induction n with
  | zero => rfl
  | succ n ih =>
    have happly : applyTransaction env s tx = (s, rejectedReceipt env.hashing s tx.txHash e) := by
      rw [applyTransaction, h]
    rw [List.replicate_succ, applyTransactions, happly]
    dsimp only
    rw [ih, List.replicate_succ]

/-- Three equal values have the root of four. -/
theorem merkleRoot_three_eq_four (h : Hashing) (v : Json) :
    h.merkleRoot (List.replicate 3 v) = h.merkleRoot (List.replicate 4 v) := rfl

/-- Three refusals have the header of four. -/
theorem header_three_eq_four {height timestamp : U64} {tx : Transaction} {e : ExecutionError}
    (h : rejection { s with height := height } tx = some e) :
    (buildBlock env s height (List.replicate 3 tx) timestamp proposer certificate).1.header =
      (buildBlock env s height (List.replicate 4 tx) timestamp proposer certificate).1.header := by
  have hroot := fun v => merkleRoot_three_eq_four env.hashing v
  simp only [buildBlock, applyTransactions_replicate h, List.map_replicate, hroot]

namespace Refusals

/-- A transaction without a valid signature. -/
def tx : Transaction where
  chainId := "c"
  txHash := "h"
  sender := "mallory"
  nonce := 0
  validUntilHeight := none
  target := "t"
  method := .transfer
  args := []
  signatureOk := false
  budget := 0

/-- The block at height 1 with some copies of the transaction. -/
def block (env : Env) (n : ℕ) : Block :=
  (buildBlock env (.new "c") 1 (List.replicate n tx) 0 "p" "").1

theorem header_block (env : Env) : (block env 3).header = (block env 4).header :=
  header_three_eq_four (e := .invalidSignature) rfl

theorem accepted (env : Env) {n : ℕ}
    (h : blockResourceUnits (List.replicate n tx) ≤ defaultBlockResourceLimit) :
    (applyBlock env (.new "c") (block env n)).2 = none := by
  rw [block, applyBlock_buildBlock, if_pos h]

/-- The hashes of the source. -/
def standardEnv : Env := { Proxy.env with hashing := .standard }

/-- Hashes and an encoding that are both injective. -/
def injectiveEnv : Env := { Proxy.env with hashing := ⟨Json.renderBytes, id⟩ }

end Refusals

open Refusals

theorem header_binds_body_iff_refusals :
    (block standardEnv 3).header =
        (block standardEnv 4).header ∧
      (((block standardEnv 3).transactions =
          (block standardEnv 4).transactions ∧
        (block standardEnv 3).receipts =
          (block standardEnv 4).receipts) ↔
        (block standardEnv 3).transactions.length =
          (block standardEnv 4).transactions.length) :=
  ⟨header_block _, header_binds_body_iff _ (.new "c") _ _ Hashing.standard_faithful
    (.of_nodup (by decide +kernel)) (accepted _ (by decide))
    (accepted _ (by decide)) (header_block _)⟩

/-- Two accepted blocks with one header and different transactions. -/
theorem header_of_two_blocks :
    Function.Injective injectiveEnv.hashing.sha256 ∧
      Function.Injective injectiveEnv.hashing.canonicalBytes ∧
      (applyBlock injectiveEnv (.new "c") (block injectiveEnv 3)).2 =
        none ∧
      (applyBlock injectiveEnv (.new "c") (block injectiveEnv 4)).2 =
        none ∧
      (block injectiveEnv 3).header =
        (block injectiveEnv 4).header ∧
      (block injectiveEnv 3).transactions ≠
        (block injectiveEnv 4).transactions :=
  ⟨Function.injective_id, Json.renderBytes_injective,
    accepted _ (by decide), accepted _ (by decide), header_block _,
    fun heq => absurd (congrArg List.length heq) (by decide)⟩

/-! ## Snapshots -/

namespace DeTTaState

variable (h : Hashing) (s : DeTTaState)

/-- The lists that are hashed for the roots of a state. -/
def moduleJson : List Json := s.aspectModules.toList.map fun (k, r) => pair (str k) r.json

def storageJson : List Json := s.storage.toList.map fun (k, v) => pair k.json v.json

def registryJson : List Json := s.registry.toList.map fun (k, g) => pair k.json g.json

def eventJson : List Json := s.events.map Event.json

def outboxJson : List Json := s.crossShardOutbox.map CrossShardMessage.json

/-- The value whose hash is the global root. -/
def rootJson : Json :=
  arr [str s.chainId, word s.height, dict ContractRecord.json s.contracts,
    str (s.aspectModuleRoot h), str (s.storageRoot h), str (s.registryRoot h),
    str (s.policyRoot h), list NonceKey.json s.usedNonces.toList, texts s.usedCertificateNonces,
    texts s.pausedContracts, dict ScheduledUpgrade.json s.scheduledUpgrades,
    dict ScheduledPolicyUpdate.json s.scheduledPolicyUpdates,
    dict BridgeValidatorSet.json s.trustedBridgeValidatorSets, texts s.outboundMessageIds,
    str (s.outboxRoot h), str (s.eventRoot h)]

/-- The bytes that are hashed for the global root. The policies are part of the contracts. -/
def rootInputs : List Bytes :=
  h.rootInput (s.rootJson h) ::
    [s.moduleJson, s.storageJson, s.registryJson, s.eventJson, s.outboxJson].flatMap
      h.merkleInputs

end DeTTaState

theorem Hashing.CollisionFree.mono {inputs inputs' : List Bytes} (hc : h.CollisionFree inputs)
    (hsub : inputs' ⊆ inputs) : h.CollisionFree inputs' :=
  fun x hx y hy => hc x (hsub hx) y (hsub hy)

section Roots

variable {h : Hashing} {s s' : DeTTaState}

/-- Lists with the same root among those of two states. -/
theorem eq_of_merkleRoot_eq (hf : h.Faithful)
    (hc : h.CollisionFree (s.rootInputs h ++ s'.rootInputs h)) {vs vs' : List Json}
    (hvs : vs ∈ [s.moduleJson, s.storageJson, s.registryJson, s.eventJson, s.outboxJson])
    (hvs' : vs' ∈ [s'.moduleJson, s'.storageJson, s'.registryJson, s'.eventJson, s'.outboxJson])
    (heq : h.merkleRoot vs = h.merkleRoot vs')
    (hl : vs.length = vs'.length ∨ vs.Nodup ∧ vs'.Nodup) : vs = vs' := by
  refine Hashing.merkleRoot_inj hf (hc.mono fun x hx => ?_) heq hl
  rcases List.mem_append.1 hx with hx | hx
  · exact List.mem_append_left _ (List.mem_cons_of_mem _ (List.mem_flatMap.2 ⟨vs, hvs, hx⟩))
  · exact List.mem_append_right _ (List.mem_cons_of_mem _ (List.mem_flatMap.2 ⟨vs', hvs', hx⟩))

/-- The entries of a table are not repeated in what is hashed for it. -/
theorem nodup_entries {K V : Type} [Ord K] [Std.TransOrd K] [Std.LawfulEqOrd K]
    {f : K × V → Json} (hf : Function.Injective f) (t : Std.ExtTreeMap K V) :
    (t.toList.map f).Nodup :=
  (Table.nodup_toList t).map hf

/-- Tables with the same root among those of two states. -/
theorem table_eq_of_merkleRoot_eq (hf : h.Faithful)
    (hc : h.CollisionFree (s.rootInputs h ++ s'.rootInputs h)) {K V : Type} [Ord K]
    [Std.TransOrd K] [Std.LawfulEqOrd K] {f : K × V → Json} (hinj : Function.Injective f)
    {t t' : Std.ExtTreeMap K V}
    (ht : t.toList.map f ∈
      [s.moduleJson, s.storageJson, s.registryJson, s.eventJson, s.outboxJson])
    (ht' : t'.toList.map f ∈
      [s'.moduleJson, s'.storageJson, s'.registryJson, s'.eventJson, s'.outboxJson])
    (heq : h.merkleRoot (t.toList.map f) = h.merkleRoot (t'.toList.map f)) : t = t' :=
  entries_injective hinj (eq_of_merkleRoot_eq hf hc ht ht' heq
    (.inr ⟨nodup_entries hinj t, nodup_entries hinj t'⟩))

/-- The global root determines the state, up to the hash of the last block and the numbers
    of events and outgoing messages. -/
theorem eq_of_globalStateRoot_eq (hf : h.Faithful)
    (hc : h.CollisionFree (s.rootInputs h ++ s'.rootInputs h))
    (hroot : s.globalStateRoot h = s'.globalStateRoot h)
    (hblock : s.finalizedBlockHash = s'.finalizedBlockHash)
    (hevents : s.events.length = s'.events.length)
    (houtbox : s.crossShardOutbox.length = s'.crossShardOutbox.length) : s = s' := by
  have hjson : s.rootJson h = s'.rootJson h := by
    refine Hashing.rootOf_inj hf (hc.mono fun x hx => ?_) hroot
    rcases List.mem_cons.1 hx with rfl | hx
    · exact List.mem_append_left _ List.mem_cons_self
    · rw [List.mem_singleton.1 hx]
      exact List.mem_append_right _ List.mem_cons_self
  simp only [DeTTaState.rootJson, arr.injEq, List.cons.injEq, str.injEq, and_true] at hjson
  obtain ⟨hchain, hheight, hcontracts, hmodules, hstorage, hregistry, -, hnonces, hcerts,
    hpaused, hupgrades, hpolicies, hsets, hids, hout, hev⟩ := hjson
  have h₁ := table_eq_of_merkleRoot_eq hf hc
    (pair_injective str_injective AspectModuleRecord.json_injective)
    (by simp [DeTTaState.moduleJson]) (by simp [DeTTaState.moduleJson]) hmodules
  have h₂ := table_eq_of_merkleRoot_eq hf hc
    (pair_injective StateKey.json_injective StateValue.json_injective)
    (by simp [DeTTaState.storageJson]) (by simp [DeTTaState.storageJson]) hstorage
  have h₃ := table_eq_of_merkleRoot_eq hf hc
    (pair_injective GrantKey.json_injective Grant.json_injective)
    (by simp [DeTTaState.registryJson]) (by simp [DeTTaState.registryJson]) hregistry
  have h₄ : s.events = s'.events := List.map_injective_iff.2 Event.json_injective
    (eq_of_merkleRoot_eq hf hc (by simp [DeTTaState.eventJson]) (by simp [DeTTaState.eventJson]) hev
      (.inl (by rw [List.length_map, List.length_map, hevents])))
  have h₅ : s.crossShardOutbox = s'.crossShardOutbox :=
    List.map_injective_iff.2 CrossShardMessage.json_injective
      (eq_of_merkleRoot_eq hf hc (by simp [DeTTaState.outboxJson])
        (by simp [DeTTaState.outboxJson]) hout
        (.inl (by rw [List.length_map, List.length_map, houtbox])))
  have h₆ := word_injective hheight
  have h₇ := dict_injective ContractRecord.json_injective hcontracts
  have h₈ := items_injective NonceKey.json_injective hnonces
  have h₉ := dict_injective ScheduledUpgrade.json_injective hupgrades
  have h₁₀ := dict_injective ScheduledPolicyUpdate.json_injective hpolicies
  have h₁₁ := dict_injective BridgeValidatorSet.json_injective hsets
  have h₁₂ := texts_injective hcerts
  have h₁₃ := texts_injective hpaused
  have h₁₄ := texts_injective hids
  cases s
  cases s'
  simp_all only

end Roots

/-- A restored state is the one of the snapshot, and has its global root. -/
theorem of_fromSnapshot_eq_ok {a : StateSnapshot} (heq : fromSnapshot h a = .ok s) :
    a.state = s ∧ a.globalStateRoot = s.globalStateRoot h := by
  -- every check but the last one is for another root
  have hskip {c : Prop} [Decidable c] {e : SnapshotError} {rest : Except SnapshotError DeTTaState}
      (hif : (if c then .error e else rest) = .ok s) : ¬c ∧ rest = .ok s := by
    split at hif
    next => cases hif
    next hc => exact ⟨hc, hif⟩
  obtain ⟨-, heq⟩ := hskip heq
  obtain ⟨-, heq⟩ := hskip heq
  obtain ⟨-, heq⟩ := hskip heq
  obtain ⟨-, heq⟩ := hskip heq
  obtain ⟨-, heq⟩ := hskip heq
  obtain ⟨-, heq⟩ := hskip heq
  obtain ⟨hroot, heq⟩ := hskip heq
  cases heq
  exact ⟨rfl, not_not.1 hroot⟩

/-- The snapshot of a state is accepted. -/
theorem fromSnapshot_snapshot (h : Hashing) (s : DeTTaState) :
    fromSnapshot h (s.snapshot h) = .ok s := by
  simp [fromSnapshot, DeTTaState.snapshot]

/-- Accepted snapshots with the same global root, the same last block and as many events and
    outgoing messages restore the same state, from which every block has the same result. -/
theorem restored_state_eq (env : Env) (a b : StateSnapshot) (s s' : DeTTaState)
    (hf : env.hashing.Faithful)
    (hc : env.hashing.CollisionFree (s.rootInputs env.hashing ++ s'.rootInputs env.hashing))
    (hs : fromSnapshot env.hashing a = .ok s) (hs' : fromSnapshot env.hashing b = .ok s')
    (hroot : a.globalStateRoot = b.globalStateRoot)
    (hblock : s.finalizedBlockHash = s'.finalizedBlockHash)
    (hevents : s.events.length = s'.events.length)
    (houtbox : s.crossShardOutbox.length = s'.crossShardOutbox.length) :
    s = s' ∧ ∀ block, applyBlock env s block = applyBlock env s' block := by
  obtain ⟨-, hr⟩ := of_fromSnapshot_eq_ok hs
  obtain ⟨-, hr'⟩ := of_fromSnapshot_eq_ok hs'
  rw [hr, hr'] at hroot
  have heq := eq_of_globalStateRoot_eq hf hc hroot hblock hevents houtbox
  exact ⟨heq, fun block => by rw [heq]⟩

theorem blockResourceUnits_nil_le : blockResourceUnits [] ≤ defaultBlockResourceLimit := by
  decide

/-- An empty block changes the height and the hash of the last block. -/
theorem applyBlock_buildBlock_nil (env : Env) (s : DeTTaState) (height timestamp : U64)
    (proposer certificate : String) :
    applyBlock env s (buildBlock env s height [] timestamp proposer certificate).1 =
      ({ ({ s with height := height } : DeTTaState) with
        finalizedBlockHash :=
          (buildBlock env s height [] timestamp proposer certificate).1.blockHash
            env.hashing }, none) := by
  rw [applyBlock_buildBlock, if_pos blockResourceUnits_nil_le]
  rfl

/-- The hash of the last block is not part of the global root. -/
theorem globalStateRoot_snapshot_finalized (h : Hashing) (s : DeTTaState) (x y : String) :
    (({ s with finalizedBlockHash := x } : DeTTaState).snapshot h).globalStateRoot =
      (({ s with finalizedBlockHash := y } : DeTTaState).snapshot h).globalStateRoot := rfl

/-- A block that is built on another block is refused. -/
theorem applyBlock_buildBlock_of_ne {s' : DeTTaState} {height timestamp : U64}
    {txs : List Transaction} (hchain : s'.chainId = s.chainId)
    (hfits : blockResourceUnits txs ≤ defaultBlockResourceLimit)
    (hne : s'.finalizedBlockHash ≠ s.finalizedBlockHash) :
    (applyBlock env s (buildBlock env s' height txs timestamp proposer certificate).1).2 =
      some .previousBlockMismatch := by
  have hn : ¬defaultBlockResourceLimit < blockResourceUnits txs := Nat.not_lt.2 hfits
  simp [applyBlock, buildBlock, blockError, hchain, hn, hne]

namespace Restored

/-- A chain where a key is registered. -/
def state : DeTTaState :=
  (DeTTaState.new "c").grant (.accountSigner "alice" "00")
    ⟨"alice", "alice", .ofList [GrantRight.submitTransaction], none, 0, true, false⟩

/-- An empty block with the given timestamp on the initial state, and the state after it. -/
def block (timestamp : U64) : Block :=
  (buildBlock injectiveEnv (.new "c") 1 [] timestamp "p" "").1

def after (timestamp : U64) : DeTTaState :=
  { ({ DeTTaState.new "c" with height := 1 } : DeTTaState) with
    finalizedBlockHash := (block timestamp).blockHash injectiveEnv.hashing }

theorem applyBlock_block (timestamp : U64) :
    applyBlock injectiveEnv (.new "c") (block timestamp) = (after timestamp, none) :=
  applyBlock_buildBlock_nil injectiveEnv (.new "c") 1 timestamp "p" ""

/-- The hash of the block depends on its timestamp. -/
theorem finalizedBlockHash_ne : (after 0).finalizedBlockHash ≠ (after 1).finalizedBlockHash := by
  intro heq
  have hjson := Json.renderBytes_injective (hexLower_injective heq)
  simp only [BlockHeader.json, block, buildBlock, obj.injEq, List.cons.injEq, Prod.mk.injEq,
    true_and, and_true, word, num.injEq] at hjson
  exact absurd hjson (by decide)

/-- An empty block on top of the first of these states. -/
def next : Block := (buildBlock injectiveEnv (after 0) 2 [] 2 "p" "").1

theorem accepts : (applyBlock injectiveEnv (after 0) next).2 = none := by
  rw [next, applyBlock_buildBlock, if_pos blockResourceUnits_nil_le]

theorem refuses :
    (applyBlock injectiveEnv (after 1) next).2 = some .previousBlockMismatch := by
  exact applyBlock_buildBlock_of_ne rfl blockResourceUnits_nil_le finalizedBlockHash_ne

end Restored

open Restored

theorem restored_state_eq_key :
    fromSnapshot .standard (state.snapshot .standard) = .ok state ∧
      (state = state ∧
        ∀ block, applyBlock standardEnv state block =
          applyBlock standardEnv state block) :=
  ⟨fromSnapshot_snapshot _ _,
    restored_state_eq standardEnv _ _ _ _ Hashing.standard_faithful
      (.of_nodup (by decide +kernel)) (fromSnapshot_snapshot _ _) (fromSnapshot_snapshot _ _)
      rfl rfl rfl rfl⟩

/-- Two accepted snapshots with one global root, only one of which accepts a block. -/
theorem root_of_two_states :
    Function.Injective injectiveEnv.hashing.sha256 ∧
      Function.Injective injectiveEnv.hashing.canonicalBytes ∧
      applyBlock injectiveEnv (.new "c") (block 0) = (after 0, none) ∧
      applyBlock injectiveEnv (.new "c") (block 1) = (after 1, none) ∧
      fromSnapshot injectiveEnv.hashing
          ((after 0).snapshot injectiveEnv.hashing) = .ok (after 0) ∧
      fromSnapshot injectiveEnv.hashing
          ((after 1).snapshot injectiveEnv.hashing) = .ok (after 1) ∧
      ((after 0).snapshot injectiveEnv.hashing).globalStateRoot =
        ((after 1).snapshot injectiveEnv.hashing).globalStateRoot ∧
      (applyBlock injectiveEnv (after 0) next).2 = none ∧
      (applyBlock injectiveEnv (after 1) next).2 =
        some .previousBlockMismatch :=
  ⟨Function.injective_id, Json.renderBytes_injective, applyBlock_block 0,
    applyBlock_block 1, fromSnapshot_snapshot _ _, fromSnapshot_snapshot _ _,
    globalStateRoot_snapshot_finalized _ _ _ _, accepts, refuses⟩

end Detta
