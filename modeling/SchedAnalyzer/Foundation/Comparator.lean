import Mathlib.Data.List.OfFn
import Mathlib.Data.Set.Basic
import Mathlib.Order.Defs.LinearOrder

/-! # Comparators and `qsort`

A comparator answers with the sign of an integer. `qsort` promises a sorted
array only for a comparator that is an order on the entries, so a comparator
that follows a key is what makes the sorted array non-decreasing in that key.
-/

namespace Foundation.Comparator

universe uEntry uKey

variable {Entry : Type uEntry} {Key : Type uKey}

/-- A strict weak order in sign, on the given entries. -/
structure WeakOrderOn (cmp : Entry → Entry → Int) (entries : Set Entry) : Prop where
  antisymm : ∀ a ∈ entries, ∀ b ∈ entries, cmp a b < 0 ↔ 0 < cmp b a
  trans : ∀ a ∈ entries, ∀ b ∈ entries, ∀ c ∈ entries,
    cmp a b ≤ 0 → cmp b c ≤ 0 → cmp a c ≤ 0

/-- The sign is that of the comparison of keys. -/
structure Follows [LinearOrder Key] (cmp : Entry → Entry → Int) (key : Entry → Key)
    (entries : Set Entry) : Prop where
  neg : ∀ a ∈ entries, ∀ b ∈ entries, cmp a b < 0 ↔ key a < key b
  pos : ∀ a ∈ entries, ∀ b ∈ entries, 0 < cmp a b ↔ key b < key a

/-- A comparator of the opposite sign when the arguments are exchanged is total. -/
theorem WeakOrderOn.total {cmp : Entry → Entry → Int} {entries : Set Entry}
    (horder : WeakOrderOn cmp entries) {a b : Entry} (ha : a ∈ entries) (hb : b ∈ entries) :
    cmp a b ≤ 0 ∨ cmp b a ≤ 0 := by
  by_cases hle : cmp b a ≤ 0
  · exact Or.inr hle
  · have hneg := (horder.antisymm a ha b hb).mpr (by omega)
    exact Or.inl (by omega)

theorem Follows.le_zero_iff [LinearOrder Key] {cmp : Entry → Entry → Int} {key : Entry → Key}
    {entries : Set Entry} (hfollows : Follows cmp key entries) {a b : Entry} (ha : a ∈ entries)
    (hb : b ∈ entries) : cmp a b ≤ 0 ↔ key a ≤ key b := by
  rw [← not_lt, hfollows.pos a ha b hb, not_lt]

theorem Follows.weakOrderOn [LinearOrder Key] {cmp : Entry → Entry → Int} {key : Entry → Key}
    {entries : Set Entry} (hfollows : Follows cmp key entries) : WeakOrderOn cmp entries where
  antisymm a ha b hb := by rw [hfollows.neg a ha b hb, hfollows.pos b hb a ha]
  trans a ha b hb c hc hab hbc := by
    rw [hfollows.le_zero_iff ha hb] at hab
    rw [hfollows.le_zero_iff hb hc] at hbc
    rw [hfollows.le_zero_iff ha hc]
    exact le_trans hab hbc

/-- What is promised of `qsort`: the entries in some order, and in ascending
order when the comparator is one on them. -/
structure Qsort (Entry : Type uEntry) where
  sort : (Entry → Entry → Int) → List Entry → List Entry
  perm : ∀ cmp entries, (sort cmp entries).Perm entries
  sorted : ∀ cmp entries, WeakOrderOn cmp {a | a ∈ entries} →
    (sort cmp entries).Pairwise (fun a b => cmp a b ≤ 0)

/-- Merge sort keeps the promise. -/
def Qsort.ofMergeSort : Qsort Entry where
  sort cmp entries :=
    (entries.attach.mergeSort (fun a b => decide (cmp a.1 b.1 ≤ 0))).map Subtype.val
  perm cmp entries := by
    have hperm := (List.mergeSort_perm entries.attach
      (fun a b => decide (cmp a.1 b.1 ≤ 0))).map Subtype.val
    rwa [List.attach_map_subtype_val] at hperm
  sorted cmp entries horder := by
    rw [List.pairwise_map]
    have hsorted := @List.pairwise_mergeSort _ (fun a b : { x // x ∈ entries } =>
        decide (cmp a.1 b.1 ≤ 0))
      (fun a b c hab hbc => by
        rw [decide_eq_true_eq] at hab hbc ⊢
        exact horder.trans a.1 a.2 b.1 b.2 c.1 c.2 hab hbc)
      (fun a b => by
        rw [Bool.or_eq_true, decide_eq_true_eq, decide_eq_true_eq]
        exact horder.total a.2 b.2) entries.attach
    exact hsorted.imp (fun hle => of_decide_eq_true hle)

variable (qsort : Qsort Entry) {capacity : Nat}

theorem Qsort.length_sort (cmp : Entry → Entry → Int) (entries : List Entry) :
    (qsort.sort cmp entries).length = entries.length :=
  (qsort.perm cmp entries).length_eq

/-- `qsort` applied to an array in place. -/
def Qsort.sortArray (cmp : Entry → Entry → Int) (array : Fin capacity → Entry) :
    Fin capacity → Entry :=
  fun i => (qsort.sort cmp (List.ofFn array)).get
    (i.cast (by rw [qsort.length_sort, List.length_ofFn]))

theorem Qsort.sortArray_mem_range (cmp : Entry → Entry → Int) (array : Fin capacity → Entry)
    (i : Fin capacity) : qsort.sortArray cmp array i ∈ Set.range array := by
  have hmem := (qsort.perm cmp (List.ofFn array)).mem_iff.mp
    (List.get_mem (qsort.sort cmp (List.ofFn array))
      (i.cast (by rw [qsort.length_sort, List.length_ofFn])))
  exact (List.mem_ofFn' array _).mp hmem

theorem Qsort.mem_range_sortArray (cmp : Entry → Entry → Int) (array : Fin capacity → Entry)
    (i : Fin capacity) : array i ∈ Set.range (qsort.sortArray cmp array) := by
  have hmem : array i ∈ qsort.sort cmp (List.ofFn array) :=
    (qsort.perm cmp (List.ofFn array)).mem_iff.mpr ((List.mem_ofFn' array _).mpr ⟨i, rfl⟩)
  obtain ⟨j, hj⟩ := List.get_of_mem hmem
  exact ⟨j.cast (by rw [qsort.length_sort, List.length_ofFn]), hj⟩

/-- Sorting by a comparator that follows a key puts the keys in order. -/
theorem Qsort.monotone_sortArray [LinearOrder Key] {cmp : Entry → Entry → Int}
    {key : Entry → Key} {array : Fin capacity → Entry}
    (hfollows : Follows cmp key (Set.range array)) :
    ∀ i j, i ≤ j → key (qsort.sortArray cmp array i) ≤ key (qsort.sortArray cmp array j) := by
  have hrange : {a | a ∈ List.ofFn array} = Set.range array := by
    ext a
    exact List.mem_ofFn' array a
  have hsorted := qsort.sorted cmp (List.ofFn array) (hrange ▸ hfollows.weakOrderOn)
  intro i j hij
  rcases eq_or_lt_of_le hij with rfl | hlt
  · exact le_rfl
  · rw [← hfollows.le_zero_iff (qsort.sortArray_mem_range cmp array i)
      (qsort.sortArray_mem_range cmp array j)]
    exact List.pairwise_iff_getElem.mp hsorted _ _ _ _ hlt

/-- Behind as many entries as have keys below a bound, the keys of a sorted array
reach it. -/
theorem Qsort.le_sortArray_of_countP [LinearOrder Key] {cmp : Entry → Entry → Int}
    {key : Entry → Key} {array : Fin capacity → Entry}
    (hfollows : Follows cmp key (Set.range array)) {bound : Key} {i : Fin capacity}
    (hcount : (List.ofFn array).countP (fun entry => key entry < bound) ≤ i) :
    bound ≤ key (qsort.sortArray cmp array i) := by
  by_contra hbelow
  have hlength := qsort.length_sort cmp (List.ofFn array)
  rw [List.length_ofFn] at hlength
  -- Otherwise the entries up to this one are all below the bound.
  have hall : ((qsort.sort cmp (List.ofFn array)).take (i + 1)).countP
      (fun entry => key entry < bound) = i + 1 := by
    have htake : ((qsort.sort cmp (List.ofFn array)).take (i + 1)).length = i + 1 := by
      rw [List.length_take, hlength]
      omega
    conv_rhs => rw [← htake]
    apply List.countP_eq_length.mpr
    intro entry hentry
    obtain ⟨j, hj, rfl⟩ := List.mem_iff_getElem.mp hentry
    rw [htake] at hj
    have hle := qsort.monotone_sortArray hfollows ⟨j, by omega⟩ i (Fin.le_def.mpr (by simp; omega))
    rw [decide_eq_true_eq, List.getElem_take]
    exact lt_of_le_of_lt hle (not_le.mp hbelow)
  have hmost := (List.take_sublist (i + 1) (qsort.sort cmp (List.ofFn array))).countP_le
    (p := fun entry => decide (key entry < bound))
  rw [hall, (qsort.perm cmp (List.ofFn array)).countP_eq] at hmost
  omega

end Foundation.Comparator
