import Detta.Base.Search
import Detta.Core.Chain

/-!
# Proofs for light clients

A node proves to a client, who has only the roots, that a key has a value, that a key is
absent, or that an event, an outgoing message or a receipt is at some position. What is
there is proved by a path to the root (`merkleProof`), what is absent by the paths of the
two keys between which it would have to be.
-/

namespace Detta

open Json

/-! ## Paths -/

namespace Hashing

variable (h : Hashing)

/-- The position of the node that a node is combined with; the last one of an odd level is
    combined with itself. -/
def siblingIndex (level : List Bytes) (i : ℕ) : ℕ :=
  if i % 2 = 0 then if i + 1 < level.length then i + 1 else i else i - 1

/-- The path from a node of a level to the root. -/
def pathFrom : ℕ → List Bytes → ℕ → List MerkleStep
  | n + 1, l :: r :: rest, i =>
    let level := l :: r :: rest
    let sibling := siblingIndex level i
    let side := if sibling < i then SiblingSide.left else SiblingSide.right
    ⟨side, hexLower (level.getD sibling [])⟩ :: pathFrom n (h.nextMerkleLevel level) (i / 2)
  | _, _, _ => []

/-- The proof that a value is at some position of a list. -/
def merkleProof (values : List Json) (index : ℕ) : Option MerkleProof :=
  if values.length ≤ index then none
  else
    let leaves := values.map h.merkleLeaf
    some
      { root := hexLower (h.merkleRootBytes leaves)
        leafHash := hexLower (leaves.getD index [])
        index := index
        leafCount := values.length
        path := h.pathFrom leaves.length leaves index }

end Hashing

/-! ## Entries of tables -/

/-- The proof that a key has a value. -/
structure EntryProof (K V : Type) where
  key : K
  value : V
  proof : MerkleProof

/-- The proof that a key is absent: the entries before and after it. -/
structure NonInclusionProof (K V : Type) where
  key : K
  root : String
  leafCount : ℕ
  predecessor : Option (EntryProof K V)
  successor : Option (EntryProof K V)

section Tables

variable {K V : Type} (h : Hashing) (json : K × V → Json)

def EntryProof.verify (p : EntryProof K V) : Bool := p.proof.verify h (json (p.key, p.value))

/-- The checks on a proof that a key is absent, given for each neighbour its key, its path
    and whether the path is valid. -/
def verifyNonInclusion [Ord K] (key : K) (root : String) (leafCount : ℕ)
    (predecessor successor : Option (K × MerkleProof × Bool)) : Bool :=
  if leafCount = 0 then
    predecessor.isNone && successor.isNone && root == h.merkleRoot []
  else
    match predecessor, successor with
    | some (predKey, predProof, predValid), some (succKey, succProof, succValid) =>
      predValid && succValid && compare predKey key == .lt && compare key succKey == .lt &&
        predProof.index + 1 == succProof.index && predProof.leafCount == leafCount &&
        succProof.leafCount == leafCount
    | none, some (succKey, succProof, succValid) =>
      succValid && compare key succKey == .lt && succProof.index == 0 &&
        succProof.leafCount == leafCount
    | some (predKey, predProof, predValid), none =>
      predValid && compare predKey key == .lt && predProof.index + 1 == leafCount &&
        predProof.leafCount == leafCount
    | none, none => false

def NonInclusionProof.verify [Ord K] (p : NonInclusionProof K V) : Bool :=
  let neighbour (q : EntryProof K V) := (q.key, q.proof, q.verify h json && q.proof.root == p.root)
  verifyNonInclusion h p.key p.root p.leafCount (p.predecessor.map neighbour)
    (p.successor.map neighbour)

/-- The proof that a key has a value, if it has one. -/
def entryProof [DecidableEq K] (entries : List (K × V)) (key : K) : Option (EntryProof K V) := do
  let index ← entries.findIdx? fun e => e.1 = key
  let (_, value) ← entries[index]?
  let proof ← h.merkleProof (entries.map json) index
  pure ⟨key, value, proof⟩

/-- The proof that a key is absent, if it is. The search would stop the node if it found
    the key, which has been excluded before. -/
def nonInclusionProof [DecidableEq K] [Ord K] [Std.TransOrd K] (table : Std.ExtTreeMap K V)
    (key : K) : Option (NonInclusionProof K V) :=
  if table.contains key then none
  else
    let entries := table.toList
    match binarySearchBy (fun e : K × V => compare e.1 key) entries with
    | .ok _ => none
    | .error insertionIndex => some
        { key := key
          root := h.merkleRoot (entries.map json)
          leafCount := entries.length
          predecessor :=
            if insertionIndex = 0 then none
            else entries[insertionIndex - 1]?.bind fun e => entryProof h json entries e.1
          successor := entries[insertionIndex]?.bind fun e => entryProof h json entries e.1 }

end Tables

/-! ## Storage, registry and modules -/

def storageEntryJson (e : StateKey × StateValue) : Json := pair e.1.json e.2.json

def registryEntryJson (e : GrantKey × Grant) : Json := pair e.1.json e.2.json

def moduleEntryJson (e : String × AspectModuleRecord) : Json := pair (str e.1) e.2.json

abbrev StorageProof := EntryProof StateKey StateValue

abbrev StorageNonInclusionProof := NonInclusionProof StateKey StateValue

abbrev RegistryProof := EntryProof GrantKey Grant

abbrev RegistryNonInclusionProof := NonInclusionProof GrantKey Grant

abbrev AspectModuleProof := EntryProof String AspectModuleRecord

def StorageProof.verify (h : Hashing) (p : StorageProof) : Bool :=
  EntryProof.verify h storageEntryJson p

def StorageNonInclusionProof.verify (h : Hashing) (p : StorageNonInclusionProof) : Bool :=
  NonInclusionProof.verify h storageEntryJson p

def RegistryProof.verify (h : Hashing) (p : RegistryProof) : Bool :=
  EntryProof.verify h registryEntryJson p

def RegistryNonInclusionProof.verify (h : Hashing) (p : RegistryNonInclusionProof) : Bool :=
  NonInclusionProof.verify h registryEntryJson p

def AspectModuleProof.verify (h : Hashing) (p : AspectModuleProof) : Bool :=
  EntryProof.verify h moduleEntryJson p

namespace DeTTaState

variable (h : Hashing) (s : DeTTaState)

def storageProof (key : StateKey) : Option StorageProof :=
  entryProof h storageEntryJson s.storage.toList key

def storageNonInclusionProof (key : StateKey) : Option StorageNonInclusionProof :=
  nonInclusionProof h storageEntryJson s.storage key

def registryProof (key : GrantKey) : Option RegistryProof :=
  entryProof h registryEntryJson s.registry.toList key

def registryNonInclusionProof (key : GrantKey) : Option RegistryNonInclusionProof :=
  nonInclusionProof h registryEntryJson s.registry key

def aspectModuleProof (moduleHash : String) : Option AspectModuleProof :=
  entryProof h moduleEntryJson s.aspectModules.toList moduleHash

end DeTTaState

/-! ## Lists -/

structure EventProof where
  event : Event
  proof : MerkleProof
deriving DecidableEq, Repr

structure ReceiptProof where
  receipt : Receipt
  proof : MerkleProof
deriving DecidableEq, Repr

def EventProof.verify (h : Hashing) (p : EventProof) : Bool := p.proof.verify h p.event.json

def ReceiptProof.verify (h : Hashing) (p : ReceiptProof) : Bool := p.proof.verify h p.receipt.json

def OutboxMessageProof.verify (h : Hashing) (p : OutboxMessageProof) : Bool :=
  p.proof.verify h p.message.json

namespace DeTTaState

variable (h : Hashing) (s : DeTTaState)

def eventProof (index : ℕ) : Option EventProof := do
  let event ← s.events[index]?
  let proof ← h.merkleProof (s.events.map Event.json) index
  pure ⟨event, proof⟩

def outboxMessageProof (index : ℕ) : Option OutboxMessageProof := do
  let message ← s.crossShardOutbox[index]?
  let proof ← h.merkleProof (s.crossShardOutbox.map CrossShardMessage.json) index
  pure ⟨message, proof⟩

end DeTTaState

def Block.receiptProof (h : Hashing) (b : Block) (index : ℕ) : Option ReceiptProof := do
  let receipt ← b.receipts[index]?
  let proof ← h.merkleProof (b.receipts.map Receipt.json) index
  pure ⟨receipt, proof⟩

end Detta
