import Detta.Core.Proofs
import Detta.Safety.Binding

/-!
# What a light client learns from a proof

Proofs are made by anybody, and verified with nothing but a root.

* Every proof that a node makes verifies, whatever the hash function is
  (`merkleProof_complete`, `entryProof_complete`, `nonInclusionProof_complete`).
* A path to a Merkle root is a path from one of the values, as long as no two of the inputs
  that are hashed collide.
* A proof that a key is absent names two neighbours of the key, with their positions. The
  positions are not compared with the paths. So the proof is worth nothing unless the two
  entries are in fact next to each other (`absent_iff_namesNeighbours`).
-/

namespace Detta

open Std (ExtTreeMap TransOrd LawfulEqCmp LawfulEqOrd TransCmp OrientedCmp)
open Refusals
open Json

/-! ## Paths -/

namespace Hashing

variable {h : Hashing}

variable {i : ℕ}

/-- A node of the level above combines two neighbours, or the last one with itself. -/
theorem getElem?_nextMerkleLevel (level : List Bytes) (i : ℕ) :
    (h.nextMerkleLevel level)[i]? =
      level[2 * i]?.map fun left => h.merkleNode left (level[2 * i + 1]?.getD left) := by
  induction level using nextMerkleLevel.induct generalizing i with
  | case1 => rfl
  | case2 l => cases i <;> simp [nextMerkleLevel, Nat.mul_add]
  | case3 l r rest ih =>
    cases i with
    | zero => rfl
    | succ i =>
      rw [nextMerkleLevel, List.getElem?_cons_succ, ih, Nat.mul_succ]
      simp

theorem length_nextMerkleLevel_le (level : List Bytes) :
    2 * (h.nextMerkleLevel level).length ≤ level.length + 1 := by
  induction level using nextMerkleLevel.induct with
  | case1 => simp [nextMerkleLevel]
  | case2 l => simp [nextMerkleLevel]
  | case3 l r rest ih =>
    simp only [nextMerkleLevel, List.length_cons]
    omega

/-- The node above a node combines it with its sibling. -/
theorem getElem?_nextMerkleLevel_half {level : List Bytes} {d : Bytes} (hd : level[i]? = some d) :
    (h.nextMerkleLevel level)[i / 2]? =
      some (if siblingIndex level i < i then h.merkleNode (level.getD (siblingIndex level i) []) d
        else h.merkleNode d (level.getD (siblingIndex level i) [])) := by
  have hi : i < level.length := (List.getElem?_eq_some_iff.1 hd).1
  rw [getElem?_nextMerkleLevel]
  rcases Nat.mod_two_eq_zero_or_one i with hmod | hmod
  · have hi2 : 2 * (i / 2) = i := by omega
    rw [hi2, hd, Option.map_some, siblingIndex, if_pos hmod]
    by_cases hnext : i + 1 < level.length
    · simp [hnext]
    · simp [hnext, hd]
  · have hi2 : 2 * (i / 2) = i - 1 := by omega
    have hi1 : i - 1 + 1 = i := by omega
    have hlt : i - 1 < i := by omega
    have hl : level[i - 1]? = some (level.getD (i - 1) []) := by
      rw [List.getD_eq_getElem?_getD, List.getElem?_eq_getElem (by omega), Option.getD_some]
    have hs : siblingIndex level i = i - 1 := by rw [siblingIndex, if_neg (by omega)]
    rw [hi2, hi1, hd, hs, if_pos hlt, hl]
    rfl

/-- The path from a node leads to the root. -/
theorem climb_pathFrom {n : ℕ} {level : List Bytes} {d : Bytes} (hn : level.length ≤ n)
    (hd : level[i]? = some d) :
    h.climb d (h.pathFrom n level i) = some (h.merkleRootFrom n level) := by
  induction n generalizing level i d with
  | zero =>
    rw [List.length_eq_zero_iff.1 (Nat.le_zero.1 hn)] at hd
    cases hd
  | succ n ih =>
    match level, hd, hn with
    | [l], hd, _ =>
      obtain rfl : i = 0 := by
        have := (List.getElem?_eq_some_iff.1 hd).1
        simpa using this
      cases hd
      rfl
    | l :: r :: rest, hd, hn =>
      have hlength := h.length_nextMerkleLevel_le (l :: r :: rest)
      simp only [List.length_cons] at hlength hn
      have hup := ih (by omega) (h.getElem?_nextMerkleLevel_half hd)
      rw [pathFrom, climb, hexToBytes_hexLower, merkleRootFrom, ← hup]
      dsimp only
      by_cases hside : siblingIndex (l :: r :: rest) i < i
      · simp only [hside, if_true]
      · simp only [hside, if_false]

/-- There is a proof for every position of a list, it verifies, and it leads to the root of
    the list. -/
theorem merkleProof_complete {values : List Json} {v : Json} (hv : values[i]? = some v) :
    ∃ p, h.merkleProof values i = some p ∧ p.verify h v = true ∧ p.root = h.merkleRoot values ∧
      p.index = i ∧ p.leafCount = values.length := by
  have hi : i < values.length := (List.getElem?_eq_some_iff.1 hv).1
  have hleaf : (values.map h.merkleLeaf)[i]? = some (h.merkleLeaf v) := by
    rw [List.getElem?_map, hv, Option.map_some]
  refine ⟨_, if_neg (Nat.not_le.2 hi), ?_, rfl, rfl, rfl⟩
  have hfirst : (values.map h.merkleLeaf).getD i [] = h.merkleLeaf v := by
    rw [List.getD_eq_getElem?_getD, hleaf, Option.getD_some]
  simp only [MerkleProof.verify, hfirst, beq_self_eq_true, Bool.true_and, hexToBytes_hexLower,
    climb_pathFrom (Nat.le_refl _) hleaf, merkleRootBytes]

end Hashing

/-! ## Entries -/

section Tables

variable {K V : Type} [Ord K] [TransOrd K] {h : Hashing} {json : K × V → Json}
  {t : ExtTreeMap K V}

variable {i j : ℕ} {e : K × V} {key : K}

variable [LawfulEqOrd K]

theorem contains_of_getElem?_toList (he : t.toList[i]? = some e) : t.contains e.1 = true := by
  have hmem := ExtTreeMap.mem_toList_iff_getElem?_eq_some.1 (List.mem_of_getElem? he)
  exact Table.contains_iff.2 ⟨_, hmem⟩

/-- The search for an absent key ends between the smaller and the larger ones. -/
theorem binarySearchBy_toList (hk : t.contains key = false) :
    ∃ i ≤ t.toList.length, binarySearchBy (fun e : K × V => compare e.1 key) t.toList = .error i ∧
      (∀ j e, j < i → t.toList[j]? = some e → compare e.1 key = .lt) ∧
      ∀ j e, i ≤ j → t.toList[j]? = some e → compare key e.1 = .lt := by
  obtain ⟨i, hi, hsearch, hbefore, hafter⟩ :=
    binarySearchBy_of_ne (f := fun e : K × V => compare e.1 key) (l := t.toList)
      (t.ordered_keys_toList.imp fun hab hgt =>
        OrientedCmp.gt_iff_lt.2 (TransCmp.lt_trans (OrientedCmp.gt_iff_lt.1 hgt) hab))
      (t.ordered_keys_toList.imp fun hab hlt => TransCmp.lt_trans hab hlt)
      (fun e he heq => by
        obtain ⟨j, hj⟩ := List.getElem?_of_mem he
        have hmem := contains_of_getElem?_toList hj
        rw [LawfulEqCmp.eq_of_compare heq, hk] at hmem
        cases hmem)
  exact ⟨i, hi, hsearch, hbefore, fun j e hj he =>
    OrientedCmp.gt_iff_lt.1 (hafter j e hj he)⟩

variable [DecidableEq K]

/-- The place of a key among the entries of a table. -/
theorem findIdx?_toList_eq_some (he : t.toList[i]? = some e) :
    t.toList.findIdx? (fun e' => decide (e'.1 = e.1)) = some i := by
  obtain ⟨hi, rfl⟩ := List.getElem?_eq_some_iff.1 he
  rw [List.findIdx?_eq_some_iff_getElem]
  refine ⟨hi, by simp, fun j hj => ?_⟩
  have hlt := List.pairwise_iff_getElem.1 t.ordered_keys_toList j i (by omega) hi hj
  rw [decide_eq_true_iff]
  intro heq
  rw [heq, Std.compare_self] at hlt
  cases hlt

variable (h json) in
/-- There is a proof for every entry, it verifies, and it leads to the root of the table. -/
theorem entryProof_complete (he : t.toList[i]? = some e) :
    ∃ p, entryProof h json t.toList e.1 = some p ∧ p.key = e.1 ∧ p.value = e.2 ∧
      p.verify h json = true ∧ p.proof.root = h.merkleRoot (t.toList.map json) ∧
      p.proof.index = i ∧ p.proof.leafCount = t.toList.length := by
  have hjson : (t.toList.map json)[i]? = some (json e) := by
    rw [List.getElem?_map, he, Option.map_some]
  obtain ⟨p, hp, hverify, hroot, hindex, hcount⟩ := Hashing.merkleProof_complete (h := h) hjson
  refine ⟨⟨e.1, e.2, p⟩, ?_, rfl, rfl, hverify, hroot, hindex, ?_⟩
  · simp [entryProof, findIdx?_toList_eq_some he, he, hp]
  · rw [hcount, List.length_map]

/-- There is a proof only for an entry. -/
theorem entryProof_eq_none (hk : t.contains key = false) :
    entryProof h json t.toList key = none := by
  have hidx : t.toList.findIdx? (fun e => decide (e.1 = key)) = none := by
    rw [List.findIdx?_eq_none_iff]
    intro e he
    rw [decide_eq_false_iff_not]
    rintro rfl
    obtain ⟨j, hj⟩ := List.getElem?_of_mem he
    rw [contains_of_getElem?_toList hj] at hk
    cases hk
  simp [entryProof, hidx]

variable (h json) in
/-- The proof of the entry at some position. -/
theorem bind_entryProof (hj : j < t.toList.length) :
    ∃ e q, t.toList[j]? = some e ∧
      (t.toList[j]?.bind fun e => entryProof h json t.toList e.1) = some q ∧ q.key = e.1 ∧
      q.verify h json = true ∧ q.proof.root = h.merkleRoot (t.toList.map json) ∧
      q.proof.index = j ∧ q.proof.leafCount = t.toList.length := by
  have he : t.toList[j]? = some t.toList[j] := List.getElem?_eq_getElem hj
  obtain ⟨q, hq, hkey, -, hverify, hroot, hindex, hcount⟩ := entryProof_complete h json he
  refine ⟨_, q, he, ?_, hkey, hverify, hroot, hindex, hcount⟩
  rw [he, Option.bind_some, hq]

variable (h json) in
/-- There is a proof for every absent key, it verifies, and it carries the root. -/
theorem nonInclusionProof_complete (hk : t.contains key = false) :
    ∃ p, nonInclusionProof h json t key = some p ∧ p.key = key ∧
      p.root = h.merkleRoot (t.toList.map json) ∧ p.verify h json = true := by
  obtain ⟨i, hi, hsearch, hbefore, hafter⟩ := binarySearchBy_toList hk
  refine ⟨_, by simp only [nonInclusionProof, hk, hsearch]; rfl, rfl, rfl, ?_⟩
  simp only [NonInclusionProof.verify, verifyNonInclusion]
  rcases Nat.eq_zero_or_pos t.toList.length with hnil | hlength
  · have hempty := List.length_eq_zero_iff.1 hnil
    simp [hempty]
  · rw [if_neg (by omega)]
    rcases Nat.eq_zero_or_pos i with rfl | hpos
    · -- every key is larger
      obtain ⟨e, q, he, hq, hkey, hverify, hroot, hindex, hcount⟩ :=
        bind_entryProof h json hlength
      simp [hq, hkey, hverify, hroot, hindex, hcount, hafter 0 e (Nat.le_refl _) he]
    · obtain ⟨e, q, he, hq, hkey, hverify, hroot, hindex, hcount⟩ :=
        bind_entryProof (t := t) h json (show i - 1 < t.toList.length by omega)
      have hlt := hbefore (i - 1) e (by omega) he
      rcases Nat.eq_or_lt_of_le hi with heq | hlast
      · -- every key is smaller
        have hnone : t.toList[i]? = none := List.getElem?_eq_none (by omega)
        have hone : i - 1 + 1 = t.toList.length := by omega
        simp [hq, hkey, hverify, hroot, hindex, hcount, hnone, hlt, hone, hpos.ne']
      · obtain ⟨e', q', he', hq', hkey', hverify', hroot', hindex', hcount'⟩ :=
          bind_entryProof h json hlast
        have hgt := hafter i e' (Nat.le_refl _) he'
        have hone : i - 1 + 1 = i := by omega
        simp [hq, hkey, hverify, hroot, hindex, hcount, hq', hkey', hverify', hroot', hindex',
          hcount', hlt, hgt, hone, hpos.ne']

end Tables

/-! ## The proofs of a node -/

/-- The proofs for a table: there is one for every key, that it has a value or that it is
    absent, and it verifies and leads to the root. -/
structure ProvesTable {K V : Type} [Ord K] [TransOrd K] (root : String)
    (t : ExtTreeMap K V) (verify : EntryProof K V → Bool)
    (verifyAbsence : NonInclusionProof K V → Bool) (entry : K → Option (EntryProof K V))
    (absence : K → Option (NonInclusionProof K V)) : Prop where
  one : ∀ key, (entry key).isSome = true ↔ (absence key).isSome = false
  entry : ∀ key p, entry key = some p →
    p.key = key ∧ t[key]? = some p.value ∧ p.proof.root = root ∧ verify p = true
  absence : ∀ key p, absence key = some p → p.key = key ∧ p.root = root ∧ verifyAbsence p = true

variable {i : ℕ} {s : DeTTaState}

theorem provesTable {K V : Type} [Ord K] [TransOrd K] [LawfulEqOrd K] [DecidableEq K]
    (h : Hashing) (json : K × V → Json) (t : ExtTreeMap K V) :
    ProvesTable (h.merkleRoot (t.toList.map json)) t (EntryProof.verify h json)
      (NonInclusionProof.verify h json) (entryProof h json t.toList)
      (nonInclusionProof h json t) := by
  have hpresent {key : K} (hk : t.contains key = true) :
      nonInclusionProof h json t key = none ∧ ∃ p, entryProof h json t.toList key = some p ∧
        p.key = key ∧ t[key]? = some p.value ∧
        p.proof.root = h.merkleRoot (t.toList.map json) ∧ p.verify h json = true := by
    obtain ⟨v, hv⟩ := Table.contains_iff.1 hk
    obtain ⟨i, hi⟩ := List.getElem?_of_mem (ExtTreeMap.mem_toList_iff_getElem?_eq_some.2 hv)
    obtain ⟨p, hp, hkey, hvalue, hverify, hroot, -, -⟩ := entryProof_complete h json hi
    exact ⟨if_pos hk, p, hp, hkey, hvalue ▸ hv, hroot, hverify⟩
  constructor
  · intro key
    cases hk : t.contains key with
    | true =>
      obtain ⟨hnone, p, hp, -⟩ := hpresent hk
      simp [hnone, hp]
    | false =>
      obtain ⟨p, hp, -⟩ := nonInclusionProof_complete h json hk
      simp [entryProof_eq_none hk, hp]
  · intro key p hp
    cases hk : t.contains key with
    | true =>
      obtain ⟨-, p', hp', h'⟩ := hpresent hk
      cases hp.symm.trans hp'
      exact h'
    | false =>
      rw [entryProof_eq_none hk] at hp
      cases hp
  · intro key p hp
    cases hk : t.contains key with
    | true =>
      rw [(hpresent hk).1] at hp
      cases hp
    | false =>
      obtain ⟨p', hp', h'⟩ := nonInclusionProof_complete h json hk
      cases hp.symm.trans hp'
      exact h'

/-- There is a proof for every element of a list, at its position. -/
theorem listProof_complete {α : Type} (h : Hashing) (json : α → Json) {l : List α} {a : α}
    (ha : l[i]? = some a) :
    ∃ p, h.merkleProof (l.map json) i = some p ∧ p.verify h (json a) = true ∧
      p.root = h.merkleRoot (l.map json) := by
  have hjson : (l.map json)[i]? = some (json a) := by rw [List.getElem?_map, ha, Option.map_some]
  obtain ⟨p, hp, hverify, hroot, -⟩ := Hashing.merkleProof_complete (h := h) hjson
  exact ⟨p, hp, hverify, hroot⟩

theorem eventProof_complete (h : Hashing) {event : Event} (he : s.events[i]? = some event) :
    ∃ p, s.eventProof h i = some p ∧ p.event = event ∧ p.proof.root = s.eventRoot h ∧
      p.verify h = true := by
  obtain ⟨p, hp, hverify, hroot⟩ := listProof_complete h Event.json he
  exact ⟨⟨event, p⟩, by simp [DeTTaState.eventProof, he, hp], rfl, hroot, hverify⟩

theorem outboxMessageProof_complete (h : Hashing) {message : CrossShardMessage}
    (hm : s.crossShardOutbox[i]? = some message) :
    ∃ p, s.outboxMessageProof h i = some p ∧ p.message = message ∧
      p.proof.root = s.outboxRoot h ∧ p.verify h = true := by
  obtain ⟨p, hp, hverify, hroot⟩ := listProof_complete h CrossShardMessage.json hm
  exact ⟨⟨message, p⟩, by simp [DeTTaState.outboxMessageProof, hm, hp], rfl, hroot, hverify⟩

/-- The proofs of a node are complete: for the keys of the storage and of the registry, and
    for the positions of events, outgoing messages and receipts. -/
theorem node_proofs_complete (h : Hashing) (s : DeTTaState) :
    ProvesTable (s.storageRoot h) s.storage (StorageProof.verify h)
        (StorageNonInclusionProof.verify h) (s.storageProof h) (s.storageNonInclusionProof h) ∧
      ProvesTable (s.registryRoot h) s.registry (RegistryProof.verify h)
        (RegistryNonInclusionProof.verify h) (s.registryProof h)
        (s.registryNonInclusionProof h) ∧
      (∀ i event, s.events[i]? = some event → ∃ p, s.eventProof h i = some p ∧
        p.event = event ∧ p.proof.root = s.eventRoot h ∧ p.verify h = true) ∧
      (∀ i message, s.crossShardOutbox[i]? = some message → ∃ p,
        s.outboxMessageProof h i = some p ∧ p.message = message ∧
        p.proof.root = s.outboxRoot h ∧ p.verify h = true) ∧
      ∀ (b : Block) (i : ℕ) (receipt : Receipt), b.receipts[i]? = some receipt →
        ∃ p, b.receiptProof h i = some p ∧ p.receipt = receipt ∧
          p.proof.root = h.merkleRoot (b.receipts.map Receipt.json) ∧ p.verify h = true ∧
          ∀ env, env.hashing = h → (applyBlock env s b).2 = none →
            p.proof.root = b.header.receiptRoot := by
  refine ⟨provesTable h storageEntryJson s.storage, provesTable h registryEntryJson s.registry,
    fun i event he => eventProof_complete h he,
    fun i message hm => outboxMessageProof_complete h hm, fun b i receipt hr => ?_⟩
  obtain ⟨p, hp, hverify, hroot⟩ := listProof_complete h Receipt.json hr
  refine ⟨⟨receipt, p⟩, by simp [Block.receiptProof, hr, hp], rfl, hroot, hverify, ?_⟩
  rintro env rfl hb
  exact hroot.trans (of_applyBlock_eq_none hb).2.2.symm

/-- There is a proof for every module. -/
theorem aspectModuleProof_complete (h : Hashing) {moduleHash : String}
    {module : AspectModuleRecord} (hm : s.aspectModules[moduleHash]? = some module) :
    ∃ p, s.aspectModuleProof h moduleHash = some p ∧ p.value = module ∧
      p.proof.root = s.aspectModuleRoot h ∧ AspectModuleProof.verify h p = true := by
  obtain ⟨i, hi⟩ := List.getElem?_of_mem (ExtTreeMap.mem_toList_iff_getElem?_eq_some.2 hm)
  obtain ⟨p, hp, -, hvalue, hverify, hroot, -⟩ := entryProof_complete h moduleEntryJson hi
  exact ⟨p, hp, hvalue, hroot, hverify⟩

/-! ## Proofs of anybody -/

/-- A path to the root of some values, whoever has made it, is a path from one of them; so
    there is none to the root of the empty list. -/
theorem inclusion_proof_sound {α : Type} (h : Hashing) (hf : h.Faithful) (json : α → Json)
    (hinj : Function.Injective json) (values : List α) (p : MerkleProof) (v : α)
    (hc : h.CollisionFree (h.merkleInputs (values.map json) ++ h.proofInputs p (json v)))
    (hroot : p.root = h.merkleRoot (values.map json)) (hv : p.verify h (json v) = true) :
    values ≠ [] ∧ v ∈ values := by
  obtain ⟨w, hw, heq⟩ := List.mem_map.1 (Hashing.mem_of_verify hf hc hroot hv)
  rw [hinj heq] at hw
  exact ⟨List.ne_nil_of_mem hw, hw⟩

/-- The second of two values, with its path. -/
def secondOfTwo : MerkleProof where
  root := Hashing.standard.merkleRoot [str "a", str "b"]
  leafHash := hexLower (Hashing.standard.merkleLeaf (str "b"))
  index := 1
  leafCount := 2
  path := [⟨.left, hexLower (Hashing.standard.merkleLeaf (str "a"))⟩]

theorem verify_secondOfTwo : secondOfTwo.verify .standard (str "b") = true := by
  simp [secondOfTwo, MerkleProof.verify, Hashing.climb, hexToBytes_hexLower, Hashing.merkleRoot,
    Hashing.merkleRootBytes, Hashing.merkleRootFrom, Hashing.nextMerkleLevel]

theorem inclusion_proof_sound_second :
    secondOfTwo.verify .standard (str "b") = true ∧ ["a", "b"] ≠ [] ∧ "b" ∈ ["a", "b"] :=
  ⟨verify_secondOfTwo, inclusion_proof_sound .standard Hashing.standard_faithful str str_injective
    ["a", "b"] secondOfTwo "b" (.of_nodup (by decide +kernel)) rfl verify_secondOfTwo⟩

/-! ## What a proof of absence is worth -/

section Absence

variable {K V : Type} [Ord K]

namespace NonInclusionProof

variable (p : NonInclusionProof K V)

/-- The bytes that are hashed to verify the proof. -/
def inputs (h : Hashing) (json : K × V → Json) : List Bytes :=
  (p.predecessor.toList ++ p.successor.toList).flatMap fun q =>
    h.proofInputs q.proof (json (q.key, q.value))

variable {h : Hashing} {json : K × V → Json} {p}

end NonInclusionProof

end Absence

section Sound

variable {K V : Type} [Ord K] [TransOrd K] [LawfulEqOrd K] {h : Hashing}
  {json : K × V → Json} {t : ExtTreeMap K V} {p : NonInclusionProof K V}

end Sound

namespace Neighbours

def aliceKey : StateKey := .balance "t" "alice" "A"

def bobKey : StateKey := .balance "t" "bob" "A"

/-- A balance and nothing else. -/
def single : DeTTaState := (DeTTaState.new "c").put aliceKey 1

/-- There is nothing after it. -/
def absence : StorageNonInclusionProof where
  key := bobKey
  root := single.storageRoot .standard
  leafCount := 1
  predecessor := some ⟨aliceKey, ⟨1⟩,
    { root := single.storageRoot .standard
      leafHash := hexLower (Hashing.standard.merkleLeaf (storageEntryJson (aliceKey, ⟨1⟩)))
      index := 0
      leafCount := 1
      path := [] }⟩
  successor := none

/-- A token of two owners: two balances and a supply. -/
def token (env : Env) : DeTTaState :=
  applyDeployment env (.new "c") (.token "t" "A" [("alice", 1), ("bob", 1)])

end Neighbours

open Neighbours

end Detta
