import Mathlib.Data.List.Induction
import Mathlib.Tactic

/-!
# Numbers and lists as bytes

Numbers are written with a fixed number of bytes, the most significant one first. A list of
bytes after its length (`lengthPrefixedWith`) can be told from what follows it, so that several of
them can be written one after the other. A list that is cut into pieces of the same length
(`pieces`) is put together again by `List.flatten`.

* `ofBigEndian_bigEndian`, `bigEndian_ofBigEndian`: the bytes of a number are read back.
* `lengthPrefixedWith_append_inj`: what stands first, and what follows it, are determined.
* `flatten_pieces`: nothing is lost, and nothing is added.
-/

namespace Detta

/-! ## Numbers -/

/-- The lower `w` bytes of a number. -/
def bigEndian : ℕ → ℕ → List UInt8
  | 0, _ => []
  | w + 1, n => bigEndian w (n / 256) ++ [UInt8.ofNat n]

/-- The number with these bytes. -/
def ofBigEndian (bytes : List UInt8) : ℕ := bytes.foldl (fun n b => 256 * n + b.toNat) 0

variable {w : ℕ}

@[simp] theorem length_bigEndian (w n : ℕ) : (bigEndian w n).length = w := by
  induction w generalizing n with
  | zero => rfl
  | succ w ih => rw [bigEndian, List.length_append, ih, List.length_singleton]

theorem ofBigEndian_append_singleton (bytes : List UInt8) (b : UInt8) :
    ofBigEndian (bytes ++ [b]) = 256 * ofBigEndian bytes + b.toNat := by
  rw [ofBigEndian, List.foldl_append]
  rfl

theorem ofBigEndian_bigEndian {n : ℕ} (h : n < 256 ^ w) : ofBigEndian (bigEndian w n) = n := by
  induction w generalizing n with
  | zero => exact (Nat.lt_one_iff.1 h).symm
  | succ w ih =>
    have hn : n / 256 < 256 ^ w := Nat.div_lt_of_lt_mul (by rwa [Nat.pow_succ'] at h)
    rw [bigEndian, ofBigEndian_append_singleton, ih hn, UInt8.toNat_ofNat']
    exact Nat.div_add_mod n 256

theorem bigEndian_ofBigEndian (bytes : List UInt8) :
    bigEndian bytes.length (ofBigEndian bytes) = bytes := by
  induction bytes using List.reverseRecOn with
  | nil => rfl
  | append_singleton bytes b ih =>
    have hb := b.toNat_lt
    have hdiv : (256 * ofBigEndian bytes + b.toNat) / 256 = ofBigEndian bytes := by omega
    have hlast : UInt8.ofNat (256 * ofBigEndian bytes + b.toNat) = b := by
      apply UInt8.toNat_inj.1
      rw [UInt8.toNat_ofNat']
      omega
    rw [List.length_append, List.length_singleton, ofBigEndian_append_singleton, bigEndian, hdiv,
      hlast, ih]

theorem bigEndian_inj {m n : ℕ} (hm : m < 256 ^ w) (hn : n < 256 ^ w)
    (h : bigEndian w m = bigEndian w n) : m = n := by
  rw [← ofBigEndian_bigEndian hm, h, ofBigEndian_bigEndian hn]

/-! ## Bytes of texts -/

theorem byteArray_toList_loop (bytes : ByteArray) (i : ℕ) (r : List UInt8) :
    ByteArray.toList.loop bytes i r = r.reverse ++ bytes.data.toList.drop i := by
  induction i, r using ByteArray.toList.loop.induct bytes with
  | case1 i r hi ih =>
    have hi' : i < bytes.data.toList.length := hi
    rw [ByteArray.toList.loop, if_pos hi, ih, List.drop_eq_getElem_cons hi', List.reverse_cons,
      List.append_assoc]
    simp [ByteArray.get!, hi]
  | case2 i r hi =>
    rw [ByteArray.toList.loop, if_neg hi, List.drop_of_length_le (Nat.not_lt.1 hi),
      List.append_nil]

theorem byteArray_toList (bytes : ByteArray) : bytes.toList = bytes.data.toList :=
  byteArray_toList_loop bytes 0 []

theorem byteArray_toList_injective : Function.Injective ByteArray.toList := by
  intro a b h
  rw [byteArray_toList, byteArray_toList] at h
  exact ByteArray.ext (Array.toList_inj.1 h)

/-! ## Lists after their lengths -/

/-- A list after the `w` bytes of its length. -/
def lengthPrefixedWith (w : ℕ) (value : List UInt8) : List UInt8 :=
  bigEndian w value.length ++ value

theorem lengthPrefixedWith_append_inj {a b rest rest' : List UInt8} (ha : a.length < 256 ^ w)
    (hb : b.length < 256 ^ w)
    (h : lengthPrefixedWith w a ++ rest = lengthPrefixedWith w b ++ rest') :
    a = b ∧ rest = rest' := by
  simp only [lengthPrefixedWith, List.append_assoc] at h
  obtain ⟨hlength, h⟩ := List.append_inj h (by simp)
  exact List.append_inj h (bigEndian_inj ha hb hlength)

/-! ## Pieces of a list -/

section Pieces

variable {α : Type*}

/-- The pieces of `n` elements each; the last one may be shorter. -/
def pieces (n : ℕ) (l : List α) : List (List α) :=
  (List.range ((l.length + n - 1) / n)).map fun i => (l.drop (i * n)).take n

/-- The first `k` pieces are the beginning of the list. -/
theorem flatten_pieces_range (n k : ℕ) (l : List α) :
    ((List.range k).map fun i => (l.drop (i * n)).take n).flatten = l.take (k * n) := by
  induction k with
  | zero => simp
  | succ k ih =>
    rw [List.range_succ, List.map_append, List.flatten_append, ih, List.map_singleton,
      List.flatten_singleton, Nat.succ_mul, List.take_add]

theorem flatten_pieces {n : ℕ} (hn : 0 < n) (l : List α) : (pieces n l).flatten = l := by
  have hall : l.length ≤ (l.length + n - 1) / n * n := by
    have hdiv := Nat.div_add_mod (l.length + n - 1) n
    have hmod := Nat.mod_lt (l.length + n - 1) hn
    rw [Nat.mul_comm] at hdiv
    omega
  rw [pieces, flatten_pieces_range, List.take_of_length_le hall]

@[simp] theorem length_pieces (n : ℕ) (l : List α) :
    (pieces n l).length = (l.length + n - 1) / n := by
  rw [pieces, List.length_map, List.length_range]

end Pieces

end Detta
