import Detta.Base.Framing
import Detta.Base.MerkleTree
import Detta.Core.Encode
import Detta.Core.Render

/-!
# What roots commit to

A root is the hash of a value, or the digest of a Merkle tree over values. Nobody can
promise that a hash function has no collisions, and one with digests of a fixed length has
some; so what is assumed here is only that there is none among the bytes that are hashed
for the roots at hand (`rootInput`, `merkleInputs`, `proofInputs`).

* `rootOf_inj`: a hash determines the value.
* `merkleRoot_inj`: a Merkle root determines the values, if their number is known or none
  of them is repeated. It does not otherwise: an odd level is padded by its last node.
* `mem_of_verify`: a path to a Merkle root is a path from one of the values.
-/

namespace Detta

open MerkleTree

/-! ## Hexadecimal digits -/

theorem hexValue_hexDigit {n : ℕ} (h : n < 16) : hexValue (hexDigit n) = some n := by
  interval_cases n <;> rfl

theorem hexPairs_flatMap (bytes : Bytes) :
    hexPairs (bytes.flatMap fun b => [hexDigit (b.toNat / 16), hexDigit (b.toNat % 16)]) =
      some bytes := by
  induction bytes with
  | nil => rfl
  | cons b bytes ih =>
    have hb := b.toNat_lt
    have hbyte : UInt8.ofNat (16 * (b.toNat / 16) + b.toNat % 16) = b := by
      rw [Nat.div_add_mod, UInt8.ofNat_toNat]
    rw [List.flatMap_cons, List.cons_append, List.cons_append, List.nil_append, hexPairs,
      hexValue_hexDigit (by omega), hexValue_hexDigit (by omega), ih]
    simp only [Option.pure_def, Option.bind_eq_bind, Option.bind_some, hbyte]

/-- Digits are read back as the bytes they were written for. -/
theorem hexToBytes_hexLower (bytes : Bytes) : hexToBytes (hexLower bytes) = some bytes := by
  rw [hexToBytes, hexLower, String.toList_ofList, hexPairs_flatMap]

theorem hexLower_injective : Function.Injective hexLower := by
  intro b b' h
  have hread := congrArg hexToBytes h
  rwa [hexToBytes_hexLower, hexToBytes_hexLower, Option.some.injEq] at hread

/-! ## Lengths -/

theorem length_lengthBytes (n : ℕ) : (lengthBytes n).length = 8 := rfl

theorem lengthBytes_eq (n : ℕ) : lengthBytes n = bigEndian 8 n := by
  simp [lengthBytes, bigEndian, Nat.div_div_eq_div_mul]

/-- Eight bytes are enough for a length of 64 bits. -/
theorem lengthBytes_inj {a b : ℕ} (ha : a < 2 ^ 64) (hb : b < 2 ^ 64)
    (h : lengthBytes a = lengthBytes b) : a = b := by
  rw [lengthBytes_eq, lengthBytes_eq] at h
  exact bigEndian_inj ha hb h

namespace Hashing

variable (h : Hashing) {values : List Json} {t : MerkleTree Json} {inputs : List Bytes}

/-! ## What is hashed -/

/-- The bytes that are hashed for a value, a leaf, a node, and a tree without leaves. -/
def rootInput (value : Json) : Bytes := h.canonicalBytes value

def leafInput (value : Json) : Bytes :=
  textBytes "detta-merkle-leaf" ++ lengthBytes (h.canonicalBytes value).length ++
    h.canonicalBytes value

def nodeInput (left right : Bytes) : Bytes :=
  textBytes "detta-merkle-node" ++ lengthBytes left.length ++ left ++ lengthBytes right.length ++
    right

def emptyInput : Bytes := textBytes "detta-empty-merkle-root"

/-- What is documented of the hash function and of the encoding: digests have 32 bytes, and
    the bytes of a value determine it. -/
structure Faithful : Prop where
  length_sha256 : ∀ bytes, (h.sha256 bytes).length = 32
  canonicalBytes_injective : Function.Injective h.canonicalBytes

theorem standard_faithful : standard.Faithful := ⟨Detta.length_sha256, Json.renderBytes_injective⟩

/-- No two different inputs among the given ones have the same hash. -/
def CollisionFree (inputs : List Bytes) : Prop :=
  ∀ x ∈ inputs, ∀ y ∈ inputs, h.sha256 x = h.sha256 y → x = y

instance (inputs : List Bytes) : Decidable (h.CollisionFree inputs) :=
  inferInstanceAs (Decidable (∀ x ∈ inputs, ∀ y ∈ inputs, h.sha256 x = h.sha256 y → x = y))

variable {h} in
/-- It is enough that different inputs have different digests, each of them computed once. -/
theorem CollisionFree.of_nodup (hn : (inputs.dedup.map h.sha256).Nodup) :
    h.CollisionFree inputs := fun _ hx _ hy heq =>
  List.inj_on_of_nodup_map hn (List.mem_dedup.2 hx) (List.mem_dedup.2 hy) heq

/-- The tree over a list of values, with the digests of its nodes. -/
abbrev digest (t : MerkleTree Json) : Bytes := t.digest h.merkleLeaf h.merkleNode

/-- The digests that are combined for the Merkle root of some values. -/
def nodePairs (values : List Json) : List (Bytes × Bytes) :=
  match ofList values with
  | some t => t.pairs h.merkleLeaf h.merkleNode
  | none => []

/-- The bytes that are hashed for the Merkle root of some values. -/
def merkleInputs (values : List Json) : List Bytes :=
  emptyInput :: (values.map h.leafInput ++ (h.nodePairs values).map fun p => nodeInput p.1 p.2)

variable {h}

/-- The tags of the three kinds of input differ, already in their first 17 bytes. -/
theorem tags_differ :
    ((textBytes "detta-merkle-leaf").length = 17 ∧ (textBytes "detta-merkle-node").length = 17) ∧
      textBytes "detta-merkle-leaf" ≠ textBytes "detta-merkle-node" ∧
      emptyInput.take 17 ≠ textBytes "detta-merkle-leaf" ∧
      emptyInput.take 17 ≠ textBytes "detta-merkle-node" := by
  decide +kernel

theorem take_leafInput (v : Json) :
    (h.leafInput v).take 17 = textBytes "detta-merkle-leaf" := by
  rw [leafInput, List.append_assoc, List.take_left' tags_differ.1.1]

theorem take_nodeInput (l r : Bytes) : (nodeInput l r).take 17 = textBytes "detta-merkle-node" := by
  simp only [nodeInput, List.append_assoc]
  rw [List.take_left' tags_differ.1.2]

theorem leafInput_ne_nodeInput (v : Json) (l r : Bytes) : h.leafInput v ≠ nodeInput l r := by
  intro heq
  have htag := congrArg (List.take 17) heq
  rw [take_leafInput, take_nodeInput] at htag
  exact tags_differ.2.1 htag

theorem emptyInput_ne_leafInput (v : Json) : emptyInput ≠ h.leafInput v := by
  intro heq
  have htag := congrArg (List.take 17) heq
  rw [take_leafInput] at htag
  exact tags_differ.2.2.1 htag

theorem emptyInput_ne_nodeInput (l r : Bytes) : emptyInput ≠ nodeInput l r := by
  intro heq
  have htag := congrArg (List.take 17) heq
  rw [take_nodeInput] at htag
  exact tags_differ.2.2.2 htag

theorem leafInput_inj (hf : h.Faithful) {v v' : Json} (heq : h.leafInput v = h.leafInput v') :
    v = v' := by
  simp only [leafInput, List.append_assoc] at heq
  exact hf.canonicalBytes_injective (List.append_inj (List.append_inj heq rfl).2 rfl).2

/-- A node over two digests of 32 bytes is a node over nothing else. -/
theorem nodeInput_inj {l r l' r' : Bytes} (hl : l'.length = 32) (hr : r'.length = 32)
    (heq : nodeInput l r = nodeInput l' r') : l = l' ∧ r = r' := by
  have hlength := congrArg List.length heq
  simp only [nodeInput, List.append_assoc] at heq
  obtain ⟨hfirst, hrest⟩ := List.append_inj (List.append_inj heq rfl).2 rfl
  -- the first digest is not longer than both, so its length fits in eight bytes
  have hlen : l.length = l'.length := by
    simp only [nodeInput, List.length_append, length_lengthBytes] at hlength
    exact lengthBytes_inj (by omega) (by omega) hfirst
  obtain ⟨hleft, hright⟩ := List.append_inj hrest hlen
  exact ⟨hleft, (List.append_inj hright rfl).2⟩

theorem length_digest (hf : h.Faithful) (t : MerkleTree Json) : (h.digest t).length = 32 := by
  cases t <;> exact hf.length_sha256 _

theorem length_of_mem_pairs (hf : h.Faithful) {p : Bytes × Bytes}
    (hp : p ∈ t.pairs h.merkleLeaf h.merkleNode) : p.1.length = 32 ∧ p.2.length = 32 := by
  induction t with
  | leaf v => exact absurd hp List.not_mem_nil
  | node l r ihl ihr =>
    rcases List.mem_cons.1 hp with rfl | hp
    · exact ⟨length_digest hf l, length_digest hf r⟩
    · rcases List.mem_append.1 hp with hp | hp
      · exact ihl hp
      · exact ihr hp

/-! ## Roots -/

/-- The bytes hashed for a value are the only ones with that hash. -/
theorem rootOf_inj (hf : h.Faithful) {v v' : Json}
    (hc : h.CollisionFree [h.rootInput v, h.rootInput v']) (heq : h.rootOf v = h.rootOf v') :
    v = v' :=
  hf.canonicalBytes_injective
    (hc _ List.mem_cons_self _ (List.mem_cons_of_mem _ List.mem_cons_self)
      (hexLower_injective heq))

theorem nextMerkleLevel_map (ts : List (MerkleTree Json)) :
    h.nextMerkleLevel (ts.map h.digest) = (up ts).map h.digest := by
  induction ts using up.induct with
  | case1 => rfl
  | case2 t => rfl
  | case3 l r ts ih =>
    rw [List.map_cons, List.map_cons, nextMerkleLevel, ih]
    rfl

/-- The root over a level is the digest of the tree over it. -/
theorem merkleRootFrom_map (n : ℕ) (ts : List (MerkleTree Json)) :
    h.merkleRootFrom n (ts.map h.digest) =
      ((build n ts).map h.digest).getD (h.sha256 emptyInput) := by
  induction n generalizing ts with
  | zero => cases ts <;> rfl
  | succ n ih =>
    match ts with
    | [] => rfl
    | [t] => rfl
    | l :: r :: ts =>
      have hup := @nextMerkleLevel_map h (l :: r :: ts)
      rw [List.map_cons, List.map_cons] at hup ⊢
      rw [merkleRootFrom, hup, ih, build]

theorem merkleRootBytes_eq (values : List Json) :
    h.merkleRootBytes (values.map h.merkleLeaf) =
      ((ofList values).map h.digest).getD (h.sha256 emptyInput) := by
  have hleaves : values.map h.merkleLeaf = (values.map leaf).map h.digest := by
    rw [List.map_map]
    rfl
  rw [merkleRootBytes, hleaves, merkleRootFrom_map, List.length_map, List.length_map,
    ofList]

/-- The leaves of the tree over some values are among them. -/
theorem mem_leaves (ht : ofList values = some t) {v : Json}
    (hv : v ∈ t.leaves) : v ∈ values := by
  obtain ⟨rest, heq, hsub⟩ := leaves_of_ofList ht
  rw [heq] at hv
  rcases List.mem_append.1 hv with hv | hv
  · exact hv
  · exact hsub hv

theorem leafInput_mem {v : Json} (hv : v ∈ values) :
    h.leafInput v ∈ h.merkleInputs values :=
  List.mem_cons_of_mem _ (List.mem_append_left _ (List.mem_map_of_mem hv))

theorem nodeInput_mem (ht : ofList values = some t) {p : Bytes × Bytes}
    (hp : p ∈ t.pairs h.merkleLeaf h.merkleNode) :
    nodeInput p.1 p.2 ∈ h.merkleInputs values := by
  refine List.mem_cons_of_mem _ (List.mem_append_right _ (List.mem_map.2 ⟨p, ?_, rfl⟩))
  rw [nodePairs, ht]
  exact hp

/-- Without collisions among some inputs, the hashes tell apart the leaves and nodes of a
    tree from other leaves and nodes with inputs among them. -/
theorem apart (hf : h.Faithful) (hc : h.CollisionFree inputs)
    (ht : ofList values = some t) (hin : h.merkleInputs values ⊆ inputs) {as : List Json}
    {ps : List (Bytes × Bytes)} (has : ∀ a ∈ as, h.leafInput a ∈ inputs)
    (hps : ∀ p ∈ ps, nodeInput p.1 p.2 ∈ inputs) :
    Apart h.merkleLeaf h.merkleNode as t.leaves ps
      (t.pairs h.merkleLeaf h.merkleNode) where
  leaf a ha a' ha' heq :=
    leafInput_inj hf (hc _ (has a ha) _ (hin (leafInput_mem (mem_leaves ht ha'))) heq)
  node p hp p' hp' heq := by
    obtain ⟨hl, hr⟩ := length_of_mem_pairs hf hp'
    obtain ⟨h₁, h₂⟩ := nodeInput_inj hl hr (hc _ (hps p hp) _ (hin (nodeInput_mem ht hp')) heq)
    exact Prod.ext h₁ h₂
  leaf_node a ha p' hp' heq :=
    leafInput_ne_nodeInput a p'.1 p'.2 (hc _ (has a ha) _ (hin (nodeInput_mem ht hp')) heq)
  node_leaf p hp a' ha' heq :=
    leafInput_ne_nodeInput a' p.1 p.2
      (hc _ (hps p hp) _ (hin (leafInput_mem (mem_leaves ht ha'))) heq).symm

/-- A tree has not the root of the empty list. -/
theorem digest_ne_empty (hc : h.CollisionFree inputs) (ht : ofList values = some t)
    (hin : h.merkleInputs values ⊆ inputs) : h.digest t ≠ h.sha256 emptyInput := by
  intro heq
  have hempty : emptyInput ∈ inputs := hin List.mem_cons_self
  cases t with
  | leaf v =>
    have hv : h.leafInput v ∈ inputs :=
      hin (leafInput_mem (mem_leaves ht (List.mem_singleton.2 rfl)))
    exact emptyInput_ne_leafInput v (hc _ hempty _ hv heq.symm)
  | node l r =>
    have hp : nodeInput (h.digest l) (h.digest r) ∈ inputs :=
      hin (@nodeInput_mem h values _ ht (h.digest l, h.digest r) List.mem_cons_self)
    exact emptyInput_ne_nodeInput _ _ (hc _ hempty _ hp heq.symm)

/-- A Merkle root determines the values, among as many values, and among values that are
    not repeated. -/
theorem merkleRoot_inj (hf : h.Faithful) {values values' : List Json}
    (hc : h.CollisionFree (h.merkleInputs values ++ h.merkleInputs values'))
    (heq : h.merkleRoot values = h.merkleRoot values')
    (hl : values.length = values'.length ∨ values.Nodup ∧ values'.Nodup) : values = values' := by
  have hbytes := hexLower_injective heq
  rw [merkleRootBytes_eq, merkleRootBytes_eq] at hbytes
  match ht : ofList values, ht' : ofList values' with
  | none, none => rw [ofList_eq_none.1 ht, ofList_eq_none.1 ht']
  | some t, none =>
    rw [ht, ht'] at hbytes
    exact absurd hbytes (digest_ne_empty hc ht (List.subset_append_left _ _))
  | none, some t' =>
    rw [ht, ht'] at hbytes
    exact absurd hbytes.symm (digest_ne_empty hc ht' (List.subset_append_right _ _))
  | some t, some t' =>
    rw [ht, ht'] at hbytes
    have hleaf (v : Json) (hv : v ∈ t.leaves) :
        h.leafInput v ∈ h.merkleInputs values ++ h.merkleInputs values' :=
      List.mem_append_left _ (leafInput_mem (mem_leaves ht hv))
    have hapart := apart hf hc ht' (List.subset_append_right _ _) hleaf
      fun p hp => List.mem_append_left _ (nodeInput_mem ht hp)
    obtain rfl := digest_inj hapart hbytes
    exact eq_of_ofList_eq ht ht' hl

/-! ## Paths -/

/-- The siblings of a path, if they are all written in hexadecimal digits. -/
def steps : List MerkleStep → Option (List (MerkleTree.Step Bytes))
  | [] => some []
  | step :: path =>
    match hexToBytes step.hash, steps path with
    | some sibling, some rest =>
      match step.side with
      | .left => some (.left sibling :: rest)
      | .right => some (.right sibling :: rest)
    | _, _ => none

/-- The bytes that are hashed to verify a path from a value. -/
def proofInputs (h : Hashing) (p : MerkleProof) (value : Json) : List Bytes :=
  h.leafInput value ::
    (MerkleTree.climbed h.merkleNode (h.merkleLeaf value) ((steps p.path).getD [])).map
      fun q => nodeInput q.1 q.2

theorem climb_eq (d : Bytes) (path : List MerkleStep) :
    h.climb d path = (steps path).map (MerkleTree.climb h.merkleNode d) := by
  induction path generalizing d with
  | nil => rfl
  | cons step path ih =>
    rw [climb, steps]
    cases hexToBytes step.hash with
    | none => rfl
    | some sibling =>
      cases hside : step.side <;> simp only [ih] <;> cases steps path <;> rfl

/-- A path to the Merkle root of some values starts at one of the values. -/
theorem mem_of_verify (hf : h.Faithful) {p : MerkleProof} {value : Json}
    (hc : h.CollisionFree (h.merkleInputs values ++ h.proofInputs p value))
    (hroot : p.root = h.merkleRoot values) (hv : p.verify h value = true) : value ∈ values := by
  rw [MerkleProof.verify, Bool.and_eq_true, beq_iff_eq] at hv
  obtain ⟨hfirst, hclimb⟩ := hv
  rw [hfirst, hexToBytes_hexLower] at hclimb
  dsimp only at hclimb
  rw [climb_eq] at hclimb
  match hpath : steps p.path with
  | none =>
    rw [hpath] at hclimb
    cases hclimb
  | some path =>
    rw [hpath, Option.map_some, hroot] at hclimb
    have htop := hexLower_injective (beq_iff_eq.1 hclimb)
    rw [merkleRootBytes_eq] at htop
    have hnode (q : Bytes × Bytes)
        (hq : q ∈ MerkleTree.climbed h.merkleNode (h.merkleLeaf value) path) :
        nodeInput q.1 q.2 ∈ h.merkleInputs values ++ h.proofInputs p value := by
      refine List.mem_append_right _ (List.mem_cons_of_mem _ (List.mem_map.2 ⟨q, ?_, rfl⟩))
      rw [hpath]
      exact hq
    have hleaf : h.leafInput value ∈ h.merkleInputs values ++ h.proofInputs p value :=
      List.mem_append_right _ List.mem_cons_self
    match ht : ofList values with
    | none =>
      -- the top of the path is a leaf or a node, not the root of the empty list
      rw [ht] at htop
      have hempty : emptyInput ∈ h.merkleInputs values ++ h.proofInputs p value :=
        List.mem_append_left _ List.mem_cons_self
      induction path using List.reverseRecOn with
      | nil => exact absurd (hc _ hempty _ hleaf htop.symm) (emptyInput_ne_leafInput value)
      | append_singleton path step _ =>
        rw [MerkleTree.climb_append] at htop
        have hmem := hnode (step.pair (MerkleTree.climb h.merkleNode (h.merkleLeaf value) path))
          (by rw [MerkleTree.climbed_append]; simp)
        exact absurd (hc _ hempty _ hmem htop.symm) (emptyInput_ne_nodeInput _ _)
    | some t =>
      rw [ht] at htop
      refine mem_leaves ht (mem_leaves_of_climb ?_ htop)
      refine apart hf hc ht (List.subset_append_left _ _) (fun a ha => ?_) hnode
      rw [List.mem_singleton.1 ha]
      exact hleaf

end Hashing

end Detta
