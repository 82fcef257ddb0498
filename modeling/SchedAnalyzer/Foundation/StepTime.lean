import Mathlib.Algebra.Order.Group.MinMax
import SchedAnalyzer.Foundation.DataFrame

/-! # The time of the steps of a table

Every row of a table lasts until the next one, the last until a given end. The
time of the rows inside an interval is compared with the differences of labels
that are left after the rows outside it are dropped.
-/

namespace Foundation.DataFrame

variable {K : Type} [AddCommGroup K] [LinearOrder K]

/-! ## Intervals -/

section Intervals

/-- The length of the part of one interval inside another. -/
def overlap (lo hi start stop : K) : K :=
  max 0 (min stop hi - max start lo)

theorem overlap_nonneg (lo hi start stop : K) : 0 ≤ overlap lo hi start stop :=
  le_max_left _ _

variable [IsOrderedAddMonoid K]

/-- An interval inside the other counts in full. -/
theorem overlap_of_inside {lo hi start stop : K} (hlo : lo ≤ start) (hhi : stop ≤ hi)
    (hle : start ≤ stop) : overlap lo hi start stop = stop - start := by
  rw [overlap, min_eq_left hhi, max_eq_left hlo, max_eq_right (sub_nonneg.mpr hle)]

/-- Adjacent intervals share out a third. -/
theorem overlap_add {lo mid hi : K} (hlo : lo ≤ mid) (hhi : mid ≤ hi) (start stop : K) :
    overlap lo mid start stop + overlap mid hi start stop = overlap lo hi start stop := by
  simp only [overlap]
  rcases le_total stop mid with hstop | hstop
  · -- All of it lies before the middle.
    rw [min_eq_left hstop, min_eq_left (hstop.trans hhi)]
    have hnone : stop - max start mid ≤ 0 :=
      sub_nonpos.mpr (hstop.trans (le_max_right start mid))
    rw [max_eq_left hnone, add_zero]
  · rcases le_total mid start with hstart | hstart
    · -- All of it lies after.
      rw [max_eq_left hstart, max_eq_left (hlo.trans hstart), min_eq_right hstop]
      have hnone : mid - start ≤ 0 := sub_nonpos.mpr hstart
      rw [max_eq_left hnone, zero_add]
    · rw [min_eq_right hstop, max_eq_right hstart]
      have hstartMax : max start lo ≤ mid := max_le hstart hlo
      have hstopMin : mid ≤ min stop hi := le_min hstop hhi
      rw [max_eq_right (sub_nonneg.mpr hstartMax), max_eq_right (sub_nonneg.mpr hstopMin),
        max_eq_right (sub_nonneg.mpr (hstartMax.trans hstopMin))]
      exact sub_add_sub_cancel' _ _ _

end Intervals

/-! ## Steps -/

section Steps

variable {Col : Type} {Cell : Col → Type}

/-- Every row with the one after it. -/
def successors (frame : Frame K Cell) : List (Row K Cell × Option (Row K Cell)) :=
  frame.zip (frame.tail.map some ++ [none])

omit [AddCommGroup K] [LinearOrder K] in
theorem successors_cons_cons (row next : Row K Cell) (rest : Frame K Cell) :
    successors (row :: next :: rest) = (row, some next) :: successors (next :: rest) := rfl

omit [AddCommGroup K] [LinearOrder K] in
theorem successors_singleton (row : Row K Cell) : successors [row] = [(row, none)] := rfl

/-- The time of a step inside an interval. -/
def stepOverlap (lo hi finish : K) (step : Row K Cell × Option (Row K Cell)) : K :=
  overlap lo hi step.1.ts ((step.2.map Row.ts).getD finish)

/-- The time inside an interval of the steps that satisfy a condition. -/
def stepTime (keep : Row K Cell → Bool) (lo hi finish : K) (frame : Frame K Cell) : K :=
  (((successors frame).filter fun step => keep step.1).map (stepOverlap lo hi finish)).sum

theorem stepTime_cons_cons (keep : Row K Cell → Bool) (lo hi finish : K)
    (row next : Row K Cell) (rest : Frame K Cell) :
    stepTime keep lo hi finish (row :: next :: rest) =
      (if keep row then overlap lo hi row.ts next.ts else 0) +
        stepTime keep lo hi finish (next :: rest) := by
  rw [stepTime, stepTime, successors_cons_cons, List.filter_cons]
  by_cases hkeep : keep row = true
  · simp [hkeep, stepOverlap]
  · simp [hkeep]

theorem stepTime_singleton (keep : Row K Cell → Bool) (lo hi finish : K) (row : Row K Cell) :
    stepTime keep lo hi finish [row] = if keep row then overlap lo hi row.ts finish else 0 := by
  rw [stepTime, successors_singleton, List.filter_cons]
  by_cases hkeep : keep row = true
  · simp [hkeep, stepOverlap]
  · simp [hkeep]

variable [IsOrderedAddMonoid K]

/-- The time in adjacent intervals adds up. -/
theorem stepTime_add {lo mid hi : K} (hlo : lo ≤ mid) (hhi : mid ≤ hi)
    (keep : Row K Cell → Bool) (finish : K) (frame : Frame K Cell) :
    stepTime keep lo mid finish frame + stepTime keep mid hi finish frame =
      stepTime keep lo hi finish frame := by
  rw [stepTime, stepTime, stepTime, ← List.sum_map_add]
  congr 1
  apply List.map_congr_left
  intro step _
  exact overlap_add hlo hhi _ _

/-! ## Rows inside an interval -/

/-- The rows with a label inside an interval. -/
def window (lo hi : K) (frame : Frame K Cell) : Frame K Cell :=
  frame.filter fun row => lo ≤ row.ts ∧ row.ts ≤ hi

omit [IsOrderedAddMonoid K] in
/-- A step counts after the rows outside were dropped, if it starts inside and
the next row is inside as well. -/
theorem durationOf_window_cons_cons {keep : Row K Cell → Bool} {lo hi : K}
    {row next : Row K Cell} {rest : Frame K Cell} (hsorted : Sorted (row :: next :: rest)) :
    durationOf keep (window lo hi (row :: next :: rest)) =
      (if keep row = true ∧ lo ≤ row.ts ∧ next.ts ≤ hi then next.ts - row.ts else 0) +
        durationOf keep (window lo hi (next :: rest)) := by
  obtain ⟨hfirst, hrest⟩ := List.pairwise_cons.mp hsorted
  have hstep : row.ts ≤ next.ts := hfirst next List.mem_cons_self
  by_cases hlo : lo ≤ row.ts
  · by_cases hhi : next.ts ≤ hi
    · have hrow : window lo hi (row :: next :: rest) = row :: next :: window lo hi rest := by
        simp [window, hlo, hhi, hstep.trans hhi, hlo.trans hstep]
      have hnext : window lo hi (next :: rest) = next :: window lo hi rest := by
        simp [window, hhi, hlo.trans hstep]
      rw [hrow, hnext, durationOf_cons_cons]
      simp [hlo, hhi]
    · -- All later rows lie behind the interval.
      have hnone : window lo hi (next :: rest) = [] := by
        refine List.filter_eq_nil_iff.mpr fun other hother => ?_
        have hlater : next.ts ≤ other.ts := by
          rcases List.mem_cons.mp hother with rfl | htail
          · exact le_refl _
          · exact (List.pairwise_cons.mp hrest).1 other htail
        simp only [decide_eq_true_eq, not_and, not_le]
        exact fun _ => (not_le.mp hhi).trans_le hlater
      have hsplit : window lo hi (row :: next :: rest) =
          window lo hi [row] ++ window lo hi (next :: rest) := List.filter_append [row] _
      rw [hsplit, hnone, List.append_nil, if_neg fun hcond => hhi hcond.2.2, zero_add]
      by_cases hrow : row.ts ≤ hi
      · simp [window, hlo, hrow]
      · simp [window, hrow]
  · have hdrop : window lo hi (row :: next :: rest) = window lo hi (next :: rest) := by
      simp [window, hlo]
    rw [hdrop, if_neg fun hcond => hlo hcond.2.1, zero_add]

/-- A step of the condition that lasts inside the interval starts in it, and so
does the next one. -/
def StepsInside (keep : Row K Cell → Bool) (lo hi finish : K) (frame : Frame K Cell) : Prop :=
  ∀ step ∈ successors frame, keep step.1 = true → 0 < stepOverlap lo hi finish step →
    lo ≤ step.1.ts ∧ ∃ next, step.2 = some next ∧ next.ts ≤ hi

theorem durationOf_window_step (lo hi : K) {start stop : K} (hle : start ≤ stop) (keep : Bool) :
    (if keep = true ∧ lo ≤ start ∧ stop ≤ hi then stop - start else 0) ≤
        (if keep then overlap lo hi start stop else 0) ∧
      ((if keep = true ∧ lo ≤ start ∧ stop ≤ hi then stop - start else 0) =
          (if keep then overlap lo hi start stop else 0) ↔
        (keep = true → 0 < overlap lo hi start stop → lo ≤ start ∧ stop ≤ hi)) := by
  have hnonneg := overlap_nonneg lo hi start stop
  cases keep with
  | false => simp
  | true =>
      by_cases hinside : lo ≤ start ∧ stop ≤ hi
      · rw [if_pos ⟨rfl, hinside⟩, if_pos rfl, overlap_of_inside hinside.1 hinside.2 hle]
        exact ⟨le_refl _, iff_of_true rfl fun _ _ => hinside⟩
      · rw [if_neg fun hcond => hinside hcond.2, if_pos rfl]
        refine ⟨hnonneg, ?_⟩
        constructor
        · intro heq _ hpositive
          exact absurd heq hpositive.ne
        · intro himp
          by_contra hne
          exact hinside (himp rfl (lt_of_le_of_ne hnonneg hne))

/-- The differences left after the rows outside were dropped never exceed the
time inside, and make it up if and only if all its steps are inside. -/
theorem durationOf_window (keep : Row K Cell → Bool) (lo hi finish : K) {frame : Frame K Cell}
    (hsorted : Sorted frame) :
    durationOf keep (window lo hi frame) ≤ stepTime keep lo hi finish frame ∧
      (durationOf keep (window lo hi frame) = stepTime keep lo hi finish frame ↔
        StepsInside keep lo hi finish frame) := by
  induction frame with
  | nil =>
      refine ⟨le_refl _, iff_of_true rfl fun step hstep => absurd hstep List.not_mem_nil⟩
  | cons row rest ih =>
      cases rest with
      | nil =>
          have hnone : durationOf keep (window lo hi [row]) = 0 := by
            by_cases hrow : lo ≤ row.ts ∧ row.ts ≤ hi
            · simp [window, hrow]
            · simp [window, hrow]
          have hnonneg := overlap_nonneg lo hi row.ts finish
          rw [hnone, stepTime_singleton]
          simp only [StepsInside, successors_singleton, List.forall_mem_singleton, stepOverlap]
          by_cases hkeep : keep row = true
          · simp only [hkeep, if_true]
            refine ⟨hnonneg, ?_⟩
            constructor
            · intro heq _ hpositive
              exact absurd heq hpositive.ne
            · intro himp
              by_contra hne
              obtain ⟨-, next, hnext, -⟩ := himp trivial (lt_of_le_of_ne hnonneg hne)
              exact absurd hnext.symm (Option.some_ne_none next)
          · simp [hkeep]
      | cons next rest =>
          obtain ⟨hfirst, hrest⟩ := List.pairwise_cons.mp hsorted
          obtain ⟨hstepLe, hstepIff⟩ := durationOf_window_step lo hi
            (hfirst next List.mem_cons_self) (keep row)
          obtain ⟨hrestLe, hrestIff⟩ := ih hrest
          rw [durationOf_window_cons_cons hsorted, stepTime_cons_cons]
          refine ⟨add_le_add hstepLe hrestLe, ?_⟩
          rw [add_eq_add_iff_eq_and_eq hstepLe hrestLe, hstepIff, hrestIff]
          simp only [StepsInside, successors_cons_cons, List.forall_mem_cons, stepOverlap,
            Option.map_some, Option.getD_some, Option.some.injEq, exists_eq_left']

end Steps

end Foundation.DataFrame
