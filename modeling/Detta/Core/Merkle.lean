import Mathlib.Tactic

/-!
# Hashes of serialized values

Everything that the kernel commits to is serialized to JSON and hashed. Values are
described here by their JSON tree; how a tree is written as bytes, and the hash
function itself, are outside of the repository and stay parameters (`Hashing`).

* `rootOf`: the hash of one value.
* `merkleRoot`: the root of the binary tree over a list of values, where an odd
  node is paired with itself.
* `MerkleProof.verify`: a path from a value to a root.
-/

namespace Detta

/-- A JSON value. -/
inductive Json where
  | null
  | bool (value : Bool)
  | num (value : ℕ)
  | str (value : String)
  | arr (items : List Json)
  | obj (fields : List (String × Json))

namespace Json

/-- A value or nothing. -/
def opt {α : Type} (f : α → Json) : Option α → Json
  | some a => f a
  | none => null

/-- A list of values. -/
def list {α : Type} (f : α → Json) (l : List α) : Json := arr (l.map f)

/-- A constructor with data. -/
def variant (name : String) (data : Json) : Json := obj [(name, data)]

/-- A constructor with named fields. -/
def record (name : String) (fields : List (String × Json)) : Json := variant name (obj fields)

end Json

abbrev Bytes := List UInt8

/-- The parts of hashing that come from libraries: the bytes of a JSON value, and
    the hash function. -/
structure Hashing where
  canonicalBytes : Json → Bytes
  sha256 : Bytes → Bytes

/-- A hexadecimal digit. -/
def hexDigit (n : ℕ) : Char := "0123456789abcdef".toList.getD n '0'

def hexLower (bytes : Bytes) : String :=
  String.ofList (bytes.flatMap fun b => [hexDigit (b.toNat / 16), hexDigit (b.toNat % 16)])

/-- The value of a hexadecimal digit, in either case. -/
def hexValue (c : Char) : Option ℕ :=
  if '0' ≤ c ∧ c ≤ '9' then some (c.toNat - '0'.toNat)
  else if 'a' ≤ c ∧ c ≤ 'f' then some (c.toNat - 'a'.toNat + 10)
  else if 'A' ≤ c ∧ c ≤ 'F' then some (c.toNat - 'A'.toNat + 10)
  else none

/-- The bytes of pairs of digits. -/
def hexPairs : List Char → Option Bytes
  | [] => some []
  | [_] => none
  | h :: l :: rest => do
    let high ← hexValue h
    let low ← hexValue l
    let bytes ← hexPairs rest
    pure (UInt8.ofNat (16 * high + low) :: bytes)

def hexToBytes (value : String) : Option Bytes := hexPairs value.toList

/-- A length as eight bytes, the most significant first. -/
def lengthBytes (n : ℕ) : Bytes :=
  [56, 48, 40, 32, 24, 16, 8, 0].map fun shift => UInt8.ofNat (n / 2 ^ shift)

/-- The bytes of a text. -/
def textBytes (text : String) : Bytes := text.toUTF8.toList

namespace Hashing

variable (h : Hashing)

/-- The hash of one value. -/
def rootOf (value : Json) : String := hexLower (h.sha256 (h.canonicalBytes value))

def merkleLeaf (value : Json) : Bytes :=
  let bytes := h.canonicalBytes value
  h.sha256 (textBytes "detta-merkle-leaf" ++ lengthBytes bytes.length ++ bytes)

def merkleNode (left right : Bytes) : Bytes :=
  h.sha256 (textBytes "detta-merkle-node" ++ lengthBytes left.length ++ left ++
    lengthBytes right.length ++ right)

/-- The nodes above a level; the last one of an odd level is paired with itself. -/
def nextMerkleLevel : List Bytes → List Bytes
  | [] => []
  | [l] => [h.merkleNode l l]
  | l :: r :: rest => h.merkleNode l r :: nextMerkleLevel rest

/-- The root over a level: each step at least halves it, so as many steps as
    nodes are enough. -/
def merkleRootFrom : ℕ → List Bytes → Bytes
  | n + 1, l :: r :: rest => merkleRootFrom n (h.nextMerkleLevel (l :: r :: rest))
  | _, l :: _ => l
  | _, [] => h.sha256 (textBytes "detta-empty-merkle-root")

def merkleRootBytes (leaves : List Bytes) : Bytes := h.merkleRootFrom leaves.length leaves

/-- The root over a list of values. -/
def merkleRoot (values : List Json) : String :=
  hexLower (h.merkleRootBytes (values.map h.merkleLeaf))

end Hashing

/-! ## Paths -/

/-- On which side of the path a sibling is. -/
inductive SiblingSide where
  | left | right
deriving DecidableEq, Repr

structure MerkleStep where
  side : SiblingSide
  hash : String
deriving DecidableEq, Repr

structure MerkleProof where
  root : String
  leafHash : String
  index : ℕ
  leafCount : ℕ
  path : List MerkleStep
deriving DecidableEq, Repr

/-- Follow a path upwards. -/
def Hashing.climb (h : Hashing) : Bytes → List MerkleStep → Option Bytes
  | current, [] => some current
  | current, step :: path =>
    match hexToBytes step.hash with
    | none => none
    | some sibling =>
      match step.side with
      | .left => climb h (h.merkleNode sibling current) path
      | .right => climb h (h.merkleNode current sibling) path

/-- The path leads from the value to the root. -/
def MerkleProof.verify (h : Hashing) (p : MerkleProof) (value : Json) : Bool :=
  p.leafHash == hexLower (h.merkleLeaf value) &&
    match hexToBytes p.leafHash with
    | none => false
    | some leaf =>
      match h.climb leaf p.path with
      | none => false
      | some top => hexLower top == p.root

end Detta
