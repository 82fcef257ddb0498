import SchedAnalyzer.User.Kallsyms

/-! # The order of the symbol table

The search reads addresses as unsigned numbers, the comparator given to `qsort`
returns a 64-bit difference through an `int`. Its sign is that of the low half
of the difference.
-/

namespace SchedAnalyzer

open Foundation.Comparator

/-- The address as a number. -/
def Symbol.key (entry : Symbol) : Nat :=
  entry.address.toNat

/-- What sorting must establish for the search: `cmp` is an order on the entries,
the one of unsigned addresses, and the sorted table is non-decreasing in it. -/
structure OrdersTable {capacity : Nat} (qsort : Qsort Symbol) (symbols : Fin capacity → Symbol) :
    Prop where
  weakOrder : WeakOrderOn (fun i j => (cmp i j).toInt) (Set.range symbols)
  follows : Follows (fun i j => (cmp i j).toInt) Symbol.key (Set.range symbols)
  sorted : ∀ i j, i ≤ j →
    ((sortKallsyms qsort symbols).symbols i).address ≤
      ((sortKallsyms qsort symbols).symbols j).address

/-- The distance of two addresses fits the sign of an `int`: its low half is
neither zero nor `2^31` or more. -/
def SignFits (low high : UInt64) : Prop :=
  0 < (high.toNat - low.toNat) % 2 ^ 32 ∧ (high.toNat - low.toNat) % 2 ^ 32 < 2 ^ 31

theorem signFits_of_lt {low high : UInt64} (hlt : low < high) (hsmall : high.toNat < 2 ^ 31) :
    SignFits low high := by
  rw [UInt64.lt_iff_toNat_lt] at hlt
  unfold SignFits
  omega

/-- The result of `cmp` as a number. -/
theorem toInt_cmp (i j : Symbol) :
    (cmp i j).toInt = ((i.key : Int) - j.key).bmod (2 ^ 32) := by
  have hcut : (cmp i j).toInt = ((i.address - j.address).toNat : Int).bmod (2 ^ 32) := by
    have hlow : (i.address - j.address).toUInt32 =
        UInt32.ofNat (i.address - j.address).toNat := by
      apply UInt32.toNat_inj.mp
      simp
    rw [cmp, hlow, UInt32.toInt32_ofNat', Int32.toInt_ofNat']
    rfl
  have hi := i.address.toNat_lt
  have hj := j.address.toNat_lt
  rw [hcut, Symbol.key, Symbol.key, UInt64.toNat_sub]
  simp only [Int.bmod]
  omega

theorem cmp_neg_iff (i j : Symbol) :
    (cmp i j).toInt < 0 ↔ 2 ^ 31 ≤ ((i.key : Int) - j.key) % 2 ^ 32 := by
  rw [toInt_cmp]
  simp only [Int.bmod]
  omega

theorem cmp_pos_iff (i j : Symbol) :
    0 < (cmp i j).toInt ↔
      0 < ((i.key : Int) - j.key) % 2 ^ 32 ∧ ((i.key : Int) - j.key) % 2 ^ 32 < 2 ^ 31 := by
  rw [toInt_cmp]
  simp only [Int.bmod]
  omega

/-- The comparator follows the address order exactly when every distance fits. -/
theorem follows_cmp_iff (entries : Set Symbol) :
    Follows (fun i j => (cmp i j).toInt) Symbol.key entries ↔
      ∀ low ∈ entries, ∀ high ∈ entries, low.address < high.address →
        SignFits low.address high.address := by
  constructor
  · intro hfollows low hlow high hhigh hlt
    rw [UInt64.lt_iff_toNat_lt] at hlt
    have hpos := (hfollows.pos high hhigh low hlow).mpr hlt
    rw [cmp_pos_iff] at hpos
    simp only [SignFits, Symbol.key] at hpos ⊢
    omega
  · intro hfits
    have hdistance : ∀ low ∈ entries, ∀ high ∈ entries, low.key < high.key →
        0 < (high.key - low.key) % 2 ^ 32 ∧ (high.key - low.key) % 2 ^ 32 < 2 ^ 31 := by
      intro low hlow high hhigh hlt
      exact hfits low hlow high hhigh (UInt64.lt_iff_toNat_lt.mpr hlt)
    -- The distance the other way round is the complement modulo `2^32`.
    constructor
    · intro i hi j hj
      rw [cmp_neg_iff]
      rcases Nat.lt_trichotomy i.key j.key with hlt | heq | hlt
      · have := hdistance i hi j hj hlt
        omega
      · omega
      · have := hdistance j hj i hi hlt
        omega
    · intro i hi j hj
      rw [cmp_pos_iff]
      rcases Nat.lt_trichotomy i.key j.key with hlt | heq | hlt
      · have := hdistance i hi j hj hlt
        omega
      · omega
      · have := hdistance j hj i hi hlt
        omega

/-- Sorting establishes what the search relies on, if and only if the distance of
any two different addresses of the table fits the sign of an `int`. -/
theorem ordersTable_iff {capacity : Nat} (qsort : Qsort Symbol)
    (symbols : Fin capacity → Symbol) :
    OrdersTable qsort symbols ↔
      ∀ i j, (symbols i).address < (symbols j).address →
        SignFits (symbols i).address (symbols j).address := by
  have hrange : (∀ low ∈ Set.range symbols, ∀ high ∈ Set.range symbols,
      low.address < high.address → SignFits low.address high.address) ↔
        ∀ i j, (symbols i).address < (symbols j).address →
          SignFits (symbols i).address (symbols j).address := by
    simp only [Set.forall_mem_range]
  rw [← hrange, ← follows_cmp_iff]
  constructor
  · exact OrdersTable.follows
  · intro hfollows
    refine ⟨hfollows.weakOrderOn, hfollows, ?_⟩
    intro i j hij
    rw [UInt64.le_iff_toNat_le]
    exact qsort.monotone_sortArray hfollows i j hij

/-- A kernel text symbol in the first entry, and the rest of the table unused. -/
def oneTextSymbol : Fin maxNumSymbols → Symbol := fun i =>
  if i.val = 0 then ⟨0xffffffff81000000, "_stext".toList⟩ else ⟨0, []⟩

/-- `cmp` puts a kernel text address before the address 0 of an unused entry. -/
theorem ordersTable_fails_for_text_symbol :
    ¬ ∀ (qsort : Qsort Symbol) (symbols : Fin maxNumSymbols → Symbol),
      OrdersTable qsort symbols := by
  intro horders
  have hfollows := (horders .ofMergeSort oneTextSymbol).follows
  have hneg := hfollows.neg (oneTextSymbol ⟨0, by decide⟩) ⟨_, rfl⟩
    (oneTextSymbol ⟨1, by decide⟩) ⟨_, rfl⟩
  revert hneg
  decide

end SchedAnalyzer
