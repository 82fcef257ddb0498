import Mathlib.Algebra.BigOperators.Group.List.Basic
import Mathlib.Algebra.Order.Group.Unbundled.Basic
import Mathlib.Algebra.Order.Monoid.Defs
import Mathlib.Data.Fintype.Basic
import Mathlib.Data.List.ReduceOption
import Mathlib.Data.List.Sort

/-! # Tables of samples

A table is a list of rows with a label and cells that may be missing. The
operations are those of a data frame: dropping incomplete rows and repeated
labels, reindexing with a forward fill, differences of neighbouring labels and
sums over groups.
-/

namespace Foundation.DataFrame

/-- A row: its label, and a cell for every column. -/
structure Row (Time : Type) {Col : Type} (Cell : Col → Type) where
  ts : Time
  cell : ∀ column, Option (Cell column)

/-- The rows in the order of the table. -/
abbrev Frame (Time : Type) {Col : Type} (Cell : Col → Type) := List (Row Time Cell)

variable {Time Time' Col : Type} {Cell : Col → Type}

namespace Row

/-- The same cells under another label. -/
def relabel (row : Row Time Cell) (ts : Time') : Row Time' Cell :=
  ⟨ts, row.cell⟩

/-- A row without any cell. -/
def missing (ts : Time) : Row Time Cell :=
  ⟨ts, fun _ => none⟩

/-- No cell is missing. -/
def IsComplete (row : Row Time Cell) : Prop :=
  ∀ column, (row.cell column).isSome = true

instance [Fintype Col] (row : Row Time Cell) : Decidable row.IsComplete :=
  inferInstanceAs (Decidable (∀ _, _ = true))

end Row

/-- The rows in which no cell is missing. -/
def dropna [Fintype Col] (frame : Frame Time Cell) : Frame Time Cell :=
  frame.filter fun row => row.IsComplete

theorem dropna_eq_nil_iff [Fintype Col] {frame : Frame Time Cell} :
    dropna frame = [] ↔ ∀ row ∈ frame, ¬ row.IsComplete := by
  simp [dropna, List.filter_eq_nil_iff]

/-- Complete rows are kept. -/
theorem dropna_eq_self [Fintype Col] {frame : Frame Time Cell}
    (hcomplete : ∀ row ∈ frame, row.IsComplete) : dropna frame = frame :=
  List.filter_eq_self.mpr fun row hrow => decide_eq_true (hcomplete row hrow)

/-! ## Repeated labels -/

section Duplicates

variable [DecidableEq Time]

/-- The first row of every label. -/
def dropDuplicated : Frame Time Cell → Frame Time Cell
  | [] => []
  | row :: rest => row :: (dropDuplicated rest).filter fun other => other.ts ≠ row.ts

theorem mem_dropDuplicated_iff {frame : Frame Time Cell} {row : Row Time Cell} :
    row ∈ dropDuplicated frame ↔
      frame.find? (fun other => other.ts = row.ts) = some row := by
  induction frame with
  | nil => simp [dropDuplicated]
  | cons first rest ih =>
      rw [dropDuplicated, List.mem_cons, List.mem_filter, ih, List.find?_cons]
      by_cases heq : first.ts = row.ts
      · simp [heq, eq_comm]
      · have hne : row ≠ first := fun hrow => heq (congrArg Row.ts hrow.symm)
        simp [heq, hne, Ne.symm heq]

theorem dropDuplicated_sublist (frame : Frame Time Cell) :
    (dropDuplicated frame).Sublist frame := by
  induction frame with
  | nil => exact List.Sublist.refl _
  | cons first rest ih => exact (List.filter_sublist.trans ih).cons_cons first

theorem mem_of_mem_dropDuplicated {frame : Frame Time Cell} {row : Row Time Cell}
    (hrow : row ∈ dropDuplicated frame) : row ∈ frame :=
  (dropDuplicated_sublist frame).subset hrow

end Duplicates

/-! ## Forward fill -/

section Fill

variable [LinearOrder Time]

/-- Labels do not decrease. -/
def Sorted (frame : Frame Time Cell) : Prop :=
  frame.Pairwise fun row other => row.ts ≤ other.ts

/-- The last row with a label up to `label`. -/
def lastUpTo (frame : Frame Time Cell) (label : Time) : Option (Row Time Cell) :=
  (frame.filter fun row => row.ts ≤ label).getLast?

/-- The rows of a sorted table under new labels, each filled from the last row
up to it. -/
def reindexFfill (labels : List Time) (frame : Frame Time Cell) : Frame Time Cell :=
  labels.map fun label => ((lastUpTo frame label).getD (.missing label)).relabel label

theorem lastUpTo_eq_none_iff {frame : Frame Time Cell} {label : Time} :
    lastUpTo frame label = none ↔ ∀ row ∈ frame, label < row.ts := by
  simp [lastUpTo]

theorem mem_of_lastUpTo {frame : Frame Time Cell} {label : Time} {row : Row Time Cell}
    (hlast : lastUpTo frame label = some row) : row ∈ frame ∧ row.ts ≤ label := by
  have hmem := List.mem_of_getLast? hlast
  simpa using List.mem_filter.mp hmem

/-- The last row of a sorted table has the latest label. -/
theorem le_of_getLast? {frame : Frame Time Cell} (hsorted : Sorted frame) {last : Row Time Cell}
    (hlast : frame.getLast? = some last) {other : Row Time Cell} (hother : other ∈ frame) :
    other.ts ≤ last.ts := by
  obtain ⟨init, rfl⟩ := List.getLast?_eq_some_iff.mp hlast
  rcases List.mem_append.mp hother with hbefore | hsame
  · exact (List.pairwise_append.mp hsorted).2.2 other hbefore last (List.mem_singleton_self last)
  · rw [List.mem_singleton.mp hsame]

/-- No row up to the label is later than the last one. -/
theorem le_of_lastUpTo {frame : Frame Time Cell} (hsorted : Sorted frame) {label : Time}
    {row : Row Time Cell} (hlast : lastUpTo frame label = some row) {other : Row Time Cell}
    (hother : other ∈ frame) (hle : other.ts ≤ label) : other.ts ≤ row.ts :=
  le_of_getLast? (hsorted.filter fun row : Row Time Cell => decide (row.ts ≤ label)) hlast
    (List.mem_filter.mpr ⟨hother, decide_eq_true hle⟩)

theorem lastUpTo_of_getLast? {frame : Frame Time Cell} {label : Time} {last : Row Time Cell}
    (hlast : frame.getLast? = some last) (hle : last.ts ≤ label) :
    lastUpTo frame label = some last := by
  obtain ⟨init, rfl⟩ := List.getLast?_eq_some_iff.mp hlast
  rw [lastUpTo, List.filter_append, List.filter_cons, if_pos (decide_eq_true hle), List.filter_nil,
    List.getLast?_concat]

/-- The last row up to a label stays the last one of a selection that has it. -/
theorem lastUpTo_filter {frame : Frame Time Cell} {label : Time} {row : Row Time Cell}
    (hlast : lastUpTo frame label = some row) {keep : Row Time Cell → Bool}
    (hkeep : keep row = true) : lastUpTo (frame.filter keep) label = some row := by
  obtain ⟨init, hinit⟩ := List.getLast?_eq_some_iff.mp hlast
  rw [lastUpTo, List.filter_comm, hinit, List.filter_append, List.filter_cons, if_pos hkeep,
    List.filter_nil, List.getLast?_concat]

/-- Between two neighbours the first one is the last row. -/
theorem lastUpTo_of_between {before after : Frame Time Cell} {row next : Row Time Cell}
    (hsorted : Sorted (before ++ row :: next :: after)) {label : Time} (hle : row.ts ≤ label)
    (hlt : label < next.ts) : lastUpTo (before ++ row :: next :: after) label = some row := by
  have hafter : (next :: after).filter (fun other => other.ts ≤ label) = [] := by
    refine List.filter_eq_nil_iff.mpr fun other hother => ?_
    have hrest := (List.pairwise_cons.mp (List.pairwise_append.mp hsorted).2.1).2
    have hlater : next.ts ≤ other.ts := by
      rcases List.mem_cons.mp hother with rfl | hother
      · exact le_refl _
      · exact (List.pairwise_cons.mp hrest).1 other hother
    rw [decide_eq_true_eq, not_le]
    exact hlt.trans_le hlater
  rw [lastUpTo, List.filter_append, List.filter_cons, if_pos (decide_eq_true hle), hafter,
    List.getLast?_concat]

/-- The first of the rows that share the latest label up to `label`. -/
def firstOfLatest (frame : Frame Time Cell) (label : Time) : Option (Row Time Cell) :=
  (lastUpTo frame label).bind fun last => frame.find? fun row => row.ts = last.ts

theorem exists_firstOfLatest {frame : Frame Time Cell} {label : Time} {last : Row Time Cell}
    (hlast : lastUpTo frame label = some last) :
    ∃ first, firstOfLatest frame label = some first := by
  rw [firstOfLatest, hlast, Option.bind_some]
  exact Option.isSome_iff_exists.mp
    (List.find?_isSome.mpr ⟨last, (mem_of_lastUpTo hlast).1, decide_eq_true rfl⟩)

theorem mem_of_firstOfLatest {frame : Frame Time Cell} {label : Time} {first : Row Time Cell}
    (hfirst : firstOfLatest frame label = some first) : first ∈ frame ∧ first.ts ≤ label := by
  obtain ⟨last, hlast, hfind⟩ := Option.bind_eq_some_iff.mp hfirst
  have hsame : first.ts = last.ts := by simpa using List.find?_some hfind
  exact ⟨List.mem_of_find?_eq_some hfind, hsame ▸ (mem_of_lastUpTo hlast).2⟩

/-- Without the repeated labels, a fill sees the first row of the latest one. -/
theorem lastUpTo_dropDuplicated {frame : Frame Time Cell} (hsorted : Sorted frame)
    (label : Time) : lastUpTo (dropDuplicated frame) label = firstOfLatest frame label := by
  cases hlast : lastUpTo frame label with
  | none =>
      rw [firstOfLatest, hlast, Option.bind_none, lastUpTo_eq_none_iff]
      intro row hrow
      exact lastUpTo_eq_none_iff.mp hlast row (mem_of_mem_dropDuplicated hrow)
  | some last =>
      obtain ⟨hmem, hle⟩ := mem_of_lastUpTo hlast
      rw [firstOfLatest, hlast, Option.bind_some]
      obtain ⟨first, hfirst⟩ : ∃ first, frame.find? (fun row => row.ts = last.ts) = some first :=
        Option.isSome_iff_exists.mp (List.find?_isSome.mpr ⟨last, hmem, by simp⟩)
      have hsame : first.ts = last.ts := by simpa using List.find?_some hfirst
      have hkept : first ∈ dropDuplicated frame := by
        rw [mem_dropDuplicated_iff, hsame]
        exact hfirst
      rw [hfirst]
      cases hpick : lastUpTo (dropDuplicated frame) label with
      | none =>
          have hlate := lastUpTo_eq_none_iff.mp hpick first hkept
          exact absurd (hsame ▸ hlate) (not_lt.mpr hle)
      | some pick =>
          -- The pick is as late as the first one, and the only one with its label.
          obtain ⟨hpickMem, hpickLe⟩ := mem_of_lastUpTo hpick
          have hup : pick.ts ≤ last.ts :=
            le_of_lastUpTo hsorted hlast (mem_of_mem_dropDuplicated hpickMem) hpickLe
          have hdown : last.ts ≤ pick.ts := by
            rw [← hsame]
            exact le_of_lastUpTo (hsorted.sublist (dropDuplicated_sublist frame)) hpick hkept
              (hsame ▸ hle)
          have hfind := mem_dropDuplicated_iff.mp hpickMem
          rw [le_antisymm hup hdown, hfirst] at hfind
          exact hfind.symm

/-- A label that is the latest one only once is filled from its row. -/
theorem firstOfLatest_eq_of_unique {frame : Frame Time Cell} {label : Time}
    {last : Row Time Cell} (hlast : lastUpTo frame label = some last)
    (hunique : ∀ row ∈ frame, row.ts = last.ts → row = last) :
    firstOfLatest frame label = some last := by
  rw [firstOfLatest, hlast, Option.bind_some]
  cases hfind : frame.find? fun row => row.ts = last.ts with
  | none =>
      have hnone := List.find?_eq_none.mp hfind last (mem_of_lastUpTo hlast).1
      simp at hnone
  | some row =>
      have hsame : row.ts = last.ts := by simpa using List.find?_some hfind
      rw [hunique row (List.mem_of_find?_eq_some hfind) hsame]

end Fill

/-! ## Differences of labels -/

section Durations

variable {Time : Type} [AddCommGroup Time]

/-- Each label less the next one. The last has none. -/
def diffNext : List Time → List (Option Time)
  | [] => []
  | [_] => [none]
  | label :: next :: rest => some (label - next) :: diffNext (next :: rest)

/-- The rows with the time up to the next one. -/
def withDuration (frame : Frame Time Cell) : List (Row Time Cell × Option Time) :=
  frame.zip ((diffNext (frame.map Row.ts)).map fun difference => difference.map (-·))

theorem withDuration_cons_cons (row next : Row Time Cell) (rest : Frame Time Cell) :
    withDuration (row :: next :: rest) =
      (row, some (next.ts - row.ts)) :: withDuration (next :: rest) := by
  simp [withDuration, diffNext]

@[simp] theorem withDuration_singleton (row : Row Time Cell) :
    withDuration [row] = [(row, none)] := rfl

@[simp] theorem withDuration_nil : withDuration ([] : Frame Time Cell) = [] := rfl

/-- The sum of a column, missing values left out. -/
def sumPresent (column : List (Option Time)) : Time :=
  column.reduceOption.sum

@[simp] theorem sumPresent_nil : sumPresent ([] : List (Option Time)) = 0 := rfl

@[simp] theorem sumPresent_cons_none (column : List (Option Time)) :
    sumPresent (none :: column) = sumPresent column := by
  rw [sumPresent, List.reduceOption_cons_of_none, sumPresent]

@[simp] theorem sumPresent_cons_some (time : Time) (column : List (Option Time)) :
    sumPresent (some time :: column) = time + sumPresent column := by
  rw [sumPresent, List.reduceOption_cons_of_some, List.sum_cons, sumPresent]

/-- The total of the durations of the rows that satisfy a condition. -/
def durationOf (keep : Row Time Cell → Bool) (frame : Frame Time Cell) : Time :=
  sumPresent (((withDuration frame).filter fun timed => keep timed.1).map Prod.snd)

theorem durationOf_cons_cons (keep : Row Time Cell → Bool) (row next : Row Time Cell)
    (rest : Frame Time Cell) :
    durationOf keep (row :: next :: rest) =
      (if keep row then next.ts - row.ts else 0) + durationOf keep (next :: rest) := by
  rw [durationOf, durationOf, withDuration_cons_cons, List.filter_cons]
  by_cases hkeep : keep row = true
  · simp [hkeep]
  · simp [hkeep]

@[simp] theorem durationOf_singleton (keep : Row Time Cell → Bool) (row : Row Time Cell) :
    durationOf keep [row] = 0 := by
  rw [durationOf, withDuration_singleton, List.filter_cons]
  by_cases hkeep : keep row = true
  · simp [hkeep]
  · simp [hkeep]

@[simp] theorem durationOf_nil (keep : Row Time Cell → Bool) :
    durationOf keep ([] : Frame Time Cell) = 0 := rfl

/-- The time of the kept rows up to their next ones, row by row. -/
theorem durationOf_eq_sum_zip (keep : Row Time Cell → Bool) (frame : Frame Time Cell) :
    durationOf keep frame =
      (((frame.zip frame.tail).filter fun pair => keep pair.1).map
        fun pair => pair.2.ts - pair.1.ts).sum := by
  induction frame with
  | nil => rfl
  | cons row rest ih =>
      cases rest with
      | nil => simp
      | cons next rest =>
          rw [durationOf_cons_cons, ih, List.tail_cons, List.tail_cons, List.zip_cons_cons,
            List.filter_cons]
          by_cases hkeep : keep row = true
          · simp [hkeep]
          · simp [hkeep]

/-- Rows at equal distances have a distance each, except for the last one. -/
theorem durationOf_eq_countP {keep : Row Time Cell → Bool} {step : Time} {frame : Frame Time Cell}
    (hsteps : frame.IsChain fun row next => next.ts - row.ts = step) :
    durationOf keep frame = frame.dropLast.countP keep • step := by
  induction frame with
  | nil => simp
  | cons row rest ih =>
      cases rest with
      | nil => simp
      | cons next rest =>
          obtain ⟨hstep, hrest⟩ := List.isChain_cons_cons.mp hsteps
          rw [durationOf_cons_cons, ih hrest, hstep, List.dropLast_cons_cons, List.countP_cons,
            add_comm]
          by_cases hkeep : keep row = true
          · rw [if_pos hkeep, if_pos hkeep, succ_nsmul]
          · rw [if_neg hkeep, if_neg hkeep, add_zero, add_zero]

/-- Rows without a duration add nothing. -/
theorem sumPresent_filter_isSome (keep : Row Time Cell → Bool) (frame : Frame Time Cell) :
    sumPresent (((withDuration frame).filter
      fun timed => keep timed.1 && timed.2.isSome).map Prod.snd) = durationOf keep frame := by
  rw [durationOf]
  induction withDuration frame with
  | nil => rfl
  | cons timed rest ih =>
      obtain ⟨row, duration⟩ := timed
      rw [List.filter_cons, List.filter_cons]
      by_cases hkeep : keep row = true
      · cases duration with
        | none => simpa [hkeep] using ih
        | some duration => simpa [hkeep] using ih
      · simpa [hkeep] using ih

/-- Only the condition on the rows of the table matters. -/
theorem durationOf_congr {keep keep' : Row Time Cell → Bool} {frame : Frame Time Cell}
    (hsame : ∀ row ∈ frame, keep row = keep' row) :
    durationOf keep frame = durationOf keep' frame := by
  rw [durationOf_eq_sum_zip, durationOf_eq_sum_zip]
  congr 2
  apply List.filter_congr
  intro pair hpair
  exact hsame pair.1 (List.of_mem_zip hpair).1

end Durations

section Order

variable {Time : Type} [AddCommGroup Time] [LinearOrder Time] [IsOrderedAddMonoid Time]

/-- More rows take no less time. -/
theorem durationOf_mono {keep keep' : Row Time Cell → Bool} {frame : Frame Time Cell}
    (hsorted : Sorted frame) (himp : ∀ row, keep row = true → keep' row = true) :
    durationOf keep frame ≤ durationOf keep' frame := by
  induction frame with
  | nil => exact le_refl _
  | cons row rest ih =>
      cases rest with
      | nil => simp
      | cons next rest =>
          obtain ⟨hfirst, hrest⟩ := List.pairwise_cons.mp hsorted
          have hnonneg : 0 ≤ next.ts - row.ts := sub_nonneg.mpr (hfirst next List.mem_cons_self)
          rw [durationOf_cons_cons, durationOf_cons_cons]
          refine add_le_add ?_ (ih hrest)
          by_cases hkeep : keep row = true
          · rw [if_pos hkeep, if_pos (himp row hkeep)]
          · rw [if_neg hkeep]
            split
            · exact hnonneg
            · exact le_refl _

theorem durationOf_nonneg {keep : Row Time Cell → Bool} {frame : Frame Time Cell}
    (hsorted : Sorted frame) : 0 ≤ durationOf keep frame := by
  have hnone : durationOf (fun _ => false) frame = 0 := by
    rw [durationOf_eq_sum_zip]
    simp
  rw [← hnone]
  exact durationOf_mono hsorted fun row hfalse => Bool.noConfusion hfalse

end Order

/-! ## Groups -/

section Groups

variable {column : Col} [LinearOrder (Cell column)]

/-- The values of a column, in order. -/
def groupKeys (column : Col) [LinearOrder (Cell column)] (frame : Frame Time Cell) :
    List (Cell column) :=
  ((frame.filterMap fun row => row.cell column).dedup).insertionSort (· ≤ ·)

theorem mem_groupKeys_iff {frame : Frame Time Cell} {key : Cell column} :
    key ∈ groupKeys column frame ↔ ∃ row ∈ frame, row.cell column = some key := by
  simp [groupKeys]

theorem groupKeys_nodup (frame : Frame Time Cell) : (groupKeys column frame).Nodup :=
  (List.perm_insertionSort _ _).nodup_iff.mpr (List.nodup_dedup _)

/-- The values in the order in which they come first. -/
def unique {Value : Type} [DecidableEq Value] (values : List Value) : List Value :=
  values.reverse.dedup.reverse

theorem mem_unique {Value : Type} [DecidableEq Value] {values : List Value} {value : Value} :
    value ∈ unique values ↔ value ∈ values := by
  simp [unique]

theorem nodup_unique {Value : Type} [DecidableEq Value] (values : List Value) :
    (unique values).Nodup :=
  List.nodup_reverse.mpr (List.nodup_dedup _)

variable {Time : Type} [AddCommGroup Time]

/-- The sum of the durations for every value of a column. -/
def groupbyDuration (column : Col) [LinearOrder (Cell column)] (frame : Frame Time Cell) :
    List (Cell column × Time) :=
  (groupKeys column frame).map fun key =>
    (key, durationOf (fun row => row.cell column = some key) frame)

/-- The groups share out the time of the rows that have a value. -/
theorem sum_durationOf_keys {keys : List (Cell column)} (hnodup : keys.Nodup)
    {frame : Frame Time Cell}
    (hkeys : ∀ row ∈ frame, ∀ key, row.cell column = some key → key ∈ keys) :
    (keys.map fun key => durationOf (fun row => row.cell column = some key) frame).sum =
      durationOf (fun row => (row.cell column).isSome) frame := by
  induction frame with
  | nil => simp
  | cons row rest ih =>
      cases rest with
      | nil => simp
      | cons next rest =>
          have hrest := ih fun other hother => hkeys other (List.mem_cons_of_mem _ hother)
          simp only [durationOf_cons_cons, List.sum_map_add, hrest]
          congr 1
          cases hcell : row.cell column with
          | none => simp
          | some value =>
              have hmem := hkeys row List.mem_cons_self value hcell
              -- The one group with the value takes all of the row's time.
              have hothers : ∀ key, key ≠ value → key ∈ keys →
                  (if decide (some value = some key) = true then next.ts - row.ts else 0) = 0 :=
                fun key hne _ => if_neg (by simpa using hne.symm)
              rw [List.sum_map_eq_nsmul_single value _ hothers,
                List.count_eq_one_of_mem hnodup hmem, one_nsmul]
              simp

end Groups

end Foundation.DataFrame
