import Mathlib.Tactic
import Detta.Base.Word

/-!
# Ordered tables

Tables are the ordered maps `Std.ExtTreeMap` over keys with a lawful comparison.
This module adds what accounting over a table needs:

* orders given by ranking a key: a number and a list of texts, compared
  lexicographically, as for an enumeration whose constructors carry texts
  (`rankCompare`), with their lawfulness from injectivity;
* what is found in a table after some insertions (`getElem?_foldl_insert`);
* the sum over the entries whose key satisfies a predicate (`sumWhere`), and how
  it changes with one entry (`sumWhere_insert`, `sumWhere_insert_of_not`);
* checked sums of machine words (`checkedSum`), which are the exact sum or
  nothing.
-/

namespace Detta

/-! ## Keys compared by rank -/

section Rank

variable {α : Type*} (index : α → ℕ) (texts : α → List String)

/-- Comparison by a number first, and then by texts in lexicographic order. -/
def rankCompare : α → α → Ordering := compareLex (compareOn index) (compareOn texts)

instance : Std.TransCmp (rankCompare index texts) :=
  inferInstanceAs (Std.TransCmp (compareLex (compareOn index) (compareOn texts)))

/-- Equal ranks have equal numbers and texts. -/
theorem rankCompare_eq_eq {a b : α} :
    rankCompare index texts a b = .eq ↔ index a = index b ∧ texts a = texts b := by
  unfold rankCompare compareLex compareOn
  rw [Ordering.then_eq_eq, Std.LawfulEqCmp.compare_eq_iff_eq, Std.LawfulEqCmp.compare_eq_iff_eq]

/-- A comparison by rank is lawful when the rank determines the key. -/
theorem lawfulEqCmp_rankCompare (h : ∀ a b, index a = index b → texts a = texts b → a = b) :
    Std.LawfulEqCmp (rankCompare index texts) where
  compare_self := (rankCompare_eq_eq index texts).2 ⟨rfl, rfl⟩
  eq_of_compare hab := h _ _ ((rankCompare_eq_eq index texts).1 hab).1
    ((rankCompare_eq_eq index texts).1 hab).2

end Rank

/-! ## Sums over a table -/

namespace Table

open Std

variable {K V : Type*} [Ord K] [TransOrd K]

variable {t : ExtTreeMap K V} {k : K} {v : V}

theorem contains_iff : t.contains k = true ↔ ∃ v, t[k]? = some v := by
  rw [ExtTreeMap.contains_eq_isSome_getElem?, Option.isSome_iff_exists]

variable [LawfulEqOrd K]

/-- The entries of a table are pairwise different. -/
theorem nodup_toList (t : ExtTreeMap K V) : t.toList.Nodup := by
  refine t.distinct_keys_toList.imp fun {a b} h hab => h ?_
  rw [hab]
  exact ReflCmp.compare_self

/-- Inserting over an erased key is inserting over the key. -/
theorem erase_insert (t : ExtTreeMap K V) (k : K) (v : V) : (t.insert k v).erase k = t.erase k := by
  refine ExtTreeMap.ext_getElem? fun a => ?_
  rw [ExtTreeMap.getElem?_erase, ExtTreeMap.getElem?_erase, ExtTreeMap.getElem?_insert]
  split <;> rfl

/-- Erasing an absent key changes nothing. -/
theorem erase_of_getElem?_eq_none (h : t[k]? = none) : t.erase k = t := by
  refine ExtTreeMap.ext_getElem? fun a => ?_
  rw [ExtTreeMap.getElem?_erase]
  split
  next hka => rw [← LawfulEqCmp.eq_of_compare hka, h]
  next => rfl

section Insert

variable {a : K} {w : V}

/-- What is found after an insertion was inserted, or was there before. -/
theorem of_getElem?_insert (h : (t.insert k v)[a]? = some w) : k = a ∧ v = w ∨ t[a]? = some w := by
  rw [ExtTreeMap.getElem?_insert] at h
  split at h
  next heq => exact .inl ⟨LawfulEqCmp.eq_of_compare heq, Option.some.inj h⟩
  next => exact .inr h

theorem getElem?_insert_of_ne (h : k ≠ a) : (t.insert k v)[a]? = t[a]? := by
  rw [ExtTreeMap.getElem?_insert, if_neg fun he => h (LawfulEqCmp.eq_of_compare he)]

theorem getElem?_insert [DecidableEq K] :
    (t.insert k v)[a]? = if k = a then some v else t[a]? := by
  rw [ExtTreeMap.getElem?_insert]
  simp only [LawfulEqCmp.compare_eq_iff_eq]

theorem contains_insert : (t.insert k v).contains a = true ↔ k = a ∨ t.contains a = true := by
  rw [ExtTreeMap.contains_insert, Bool.or_eq_true, beq_iff_eq, LawfulEqCmp.compare_eq_iff_eq]

theorem contains_insert_set {t : ExtTreeSet K} :
    (t.insert k).contains a = true ↔ k = a ∨ t.contains a = true := by
  rw [ExtTreeSet.contains_insert, Bool.or_eq_true, beq_iff_eq, LawfulEqCmp.compare_eq_iff_eq]

end Insert

/-- The entries of a table are one of them and those of the other keys. -/
theorem toList_perm_cons_erase (h : t[k]? = some v) :
    t.toList.Perm ((k, v) :: (t.erase k).toList) := by
  have hk : (k, v) ∉ (t.erase k).toList := by simp [ExtTreeMap.mem_toList_iff_getElem?_eq_some]
  refine (List.perm_ext_iff_of_nodup (nodup_toList t)
    (List.nodup_cons.2 ⟨hk, nodup_toList _⟩)).2 fun ⟨a, b⟩ => ?_
  rw [List.mem_cons, ExtTreeMap.mem_toList_iff_getElem?_eq_some,
    ExtTreeMap.mem_toList_iff_getElem?_eq_some, ExtTreeMap.getElem?_erase]
  by_cases hka : compare k a = .eq
  · obtain rfl := LawfulEqCmp.eq_of_compare hka
    simp [h, eq_comm]
  · have hne : a ≠ k := fun e => hka (e ▸ ReflCmp.compare_self)
    simp [hka, hne]

/-- The values of a table are those of its entries. -/
theorem values_eq_map_toList {K V : Type*} [Ord K] [TransOrd K] (t : ExtTreeMap K V) :
    t.values = t.toList.map (·.2) := by
  have h : t.values = t.foldr (fun _ v l => v :: l) [] := rfl
  rw [h, ExtTreeMap.foldr_eq_foldr_toList]
  induction t.toList with
  | nil => rfl
  | cons e l ih => simp [ih]

theorem mem_values_iff : v ∈ t.values ↔ ∃ k : K, t[k]? = some v := by
  simp [values_eq_map_toList, ExtTreeMap.mem_toList_iff_getElem?_eq_some]

/-- A key into which only one value is inserted. -/
theorem getElem?_foldl_insert {α : Type*} {f : α → K} {g : α → V} {l : List α}
    (hv : ∀ a ∈ l, f a = k → g a = v) (h : (∃ a ∈ l, f a = k) ∨ t[k]? = some v) :
    (l.foldl (fun t a => t.insert (f a) (g a)) t)[k]? = some v := by
  induction l generalizing t with
  | nil => simpa using h
  | cons a l ih =>
    obtain ⟨ha, hl⟩ := List.forall_mem_cons.1 hv
    refine ih hl ?_
    by_cases hk : f a = k
    · exact .inr (by simp [ha hk, hk])
    · rcases h with ⟨b, hb, hbk⟩ | ht
      · rcases List.mem_cons.1 hb with rfl | hb
        · exact absurd hbk hk
        · exact .inl ⟨b, hb, hbk⟩
      · exact .inr ((getElem?_insert_of_ne hk).trans ht)

/-- What is found after some insertions was inserted, or was there before. -/
theorem mem_of_getElem?_foldl_insert {α : Type*} {f : α → K} {g : α → V} {l : List α}
    (h : (l.foldl (fun t a => t.insert (f a) (g a)) t)[k]? = some v) :
    (∃ a ∈ l, f a = k ∧ g a = v) ∨ t[k]? = some v := by
  induction l generalizing t with
  | nil => exact .inr h
  | cons a l ih =>
    rcases ih h with ⟨b, hb, hbk⟩ | ht
    · exact .inl ⟨b, List.mem_cons_of_mem a hb, hbk⟩
    · exact (of_getElem?_insert ht).imp_left fun h => ⟨a, List.mem_cons_self, h⟩

/-- What is found in a table is in the list it was made from. -/
theorem mem_of_getElem?_ofList {l : List (K × V)} (h : (ExtTreeMap.ofList l)[k]? = some v) :
    (k, v) ∈ l := by
  have hfold (t : ExtTreeMap K V) : t.insertMany l = l.foldl (fun t e => t.insert e.1 e.2) t := by
    clear h
    induction l generalizing t with
    | nil => simp
    | cons e l ih => rw [ExtTreeMap.insertMany_cons, ih, List.foldl_cons]
  rw [ExtTreeMap.ofList_eq_insertMany_empty, hfold] at h
  rcases mem_of_getElem?_foldl_insert h with ⟨e, he, rfl, rfl⟩ | h
  · exact he
  · simp at h

theorem getElem?_foldl_erase [DecidableEq K] (l : List K) (t : ExtTreeMap K V) (k : K) :
    (l.foldl (fun t k => t.erase k) t)[k]? = if k ∈ l then none else t[k]? := by
  induction l generalizing t with
  | nil => simp
  | cons a l ih =>
    rw [List.foldl_cons, ih, ExtTreeMap.getElem?_erase]
    by_cases ha : k = a
    · simp [ha]
    · simp [ha, Ne.symm ha]

/-! ### Sets -/

/-- The elements of a set are listed once. -/
theorem nodup_elements (t : ExtTreeSet K) : t.toList.Nodup := by
  refine t.distinct_toList.imp fun {a b} h hab => h ?_
  rw [hab]
  exact ReflCmp.compare_self

theorem card_elements [DecidableEq K] (t : ExtTreeSet K) : t.toList.toFinset.card = t.size := by
  rw [List.toFinset_card_of_nodup (nodup_elements t), ExtTreeSet.length_toList]

/-- A set that is made from a list has as many elements as the list has different ones. -/
theorem size_ofList [DecidableEq K] (l : List K) :
    (ExtTreeSet.ofList l).size = l.toFinset.card := by
  rw [← card_elements]
  congr 1
  ext a
  simp

/-- The sum of `f` over the entries whose key satisfies `p`. -/
def sumWhere (p : K → Bool) (f : V → ℕ) (t : ExtTreeMap K V) : ℕ :=
  ((t.toList.filter fun e => p e.1).map fun e => f e.2).sum

variable (p : K → Bool) (f : V → ℕ)

/-- A sum splits into the summand of one key and the sum over the others. -/
theorem sumWhere_eq_erase (t : ExtTreeMap K V) (k : K) :
    sumWhere p f t = (if p k then (t[k]?.map f).getD 0 else 0) + sumWhere p f (t.erase k) := by
  cases h : t[k]? with
  | none => simp [erase_of_getElem?_eq_none h]
  | some v =>
    have hperm := ((toList_perm_cons_erase h).filter fun e => p e.1).map fun e => f e.2
    unfold sumWhere
    rw [hperm.sum_eq]
    by_cases hp : p k <;> simp [hp]

/-- Writing one entry changes a sum by the change of that entry. -/
theorem sumWhere_insert (t : ExtTreeMap K V) (hk : p k = true) (v : V) :
    sumWhere p f (t.insert k v) + (t[k]?.map f).getD 0 = sumWhere p f t + f v := by
  rw [sumWhere_eq_erase p f (t.insert k v) k, sumWhere_eq_erase p f t k, erase_insert]
  simp only [hk, if_true, ExtTreeMap.getElem?_insert_self, Option.map_some, Option.getD_some]
  omega

/-- Writing an entry outside of the predicate leaves the sum. -/
theorem sumWhere_insert_of_not (t : ExtTreeMap K V) (hk : p k = false) (v : V) :
    sumWhere p f (t.insert k v) = sumWhere p f t := by
  rw [sumWhere_eq_erase p f (t.insert k v) k, sumWhere_eq_erase p f t k, erase_insert]
  simp [hk]

/-- A table without an entry in the predicate sums to zero. -/
theorem sumWhere_eq_zero (h : ∀ k v, t[k]? = some v → p k = false) : sumWhere p f t = 0 := by
  have hnil : (t.toList.filter fun e => p e.1) = [] := by
    refine List.filter_eq_nil_iff.2 fun ⟨k, v⟩ he => ?_
    simp [h k v (ExtTreeMap.mem_toList_iff_getElem?_eq_some.1 he)]
  simp [sumWhere, hnil]

end Table

/-! ## Checked sums -/

/-- The sum of machine words, `none` when it does not fit. -/
def checkedSum {w : ℕ} (l : List (Word w)) : Option (Word w) := l.foldlM Word.checkedAdd 0

/-- Summing from an accumulator, exactly or not at all. -/
theorem foldlM_checkedAdd_eq_some {w : ℕ} (l : List (Word w)) (acc t : Word w) :
    l.foldlM Word.checkedAdd acc = some t ↔ t.val = acc.val + (l.map Word.val).sum := by
  induction l generalizing acc with
  | nil => simp [Word.ext_iff, eq_comm]
  | cons a l ih =>
    simp only [List.foldlM_cons, Option.bind_eq_bind, Option.bind_eq_some_iff, ih,
      Word.checkedAdd_eq_some, List.map_cons, List.sum_cons]
    constructor
    · rintro ⟨b, hb, ht⟩
      omega
    · intro ht
      -- the partial sum fits, since the whole one does
      have hlt : acc.val + a.val < 2 ^ w := by have := t.isLt; omega
      exact ⟨⟨acc.val + a.val, hlt⟩, rfl, by simp only; omega⟩

/-- A checked sum is the exact sum, and exists as soon as that fits. -/
theorem checkedSum_eq_some {w : ℕ} {l : List (Word w)} {t : Word w} :
    checkedSum l = some t ↔ (l.map Word.val).sum = t.val := by
  rw [checkedSum, foldlM_checkedAdd_eq_some, Word.val_zero, Nat.zero_add, eq_comm]

end Detta
