import SchedAnalyzer.Foundation.Regex
import SchedAnalyzer.Post.Utils

/-! # The rows of a task

`get_df_tid` of `utils.py` takes the name of a task for a pattern before it compares
it. What the pattern does not find is gone by then.
-/

namespace SchedAnalyzer

open Foundation.DataFrame Foundation.Regex

variable {Time : Type}

/-- `df[df.text.str.contains(pattern).fillna(False)]`, for a column of text. A pattern
that is refused raises. -/
def strContains (engine : Engine) (text : Row Time StateCell → Option String) (pattern : String)
    (df : Frame Time StateCell) : Option (Frame Time StateCell) :=
  (engine.compile pattern.toList).map fun found =>
    df.filter fun row => (text row).any fun value => found value.toList

/-- `get_df_tid(thread, tid)`, with the number `int(tid)`. -/
def getDfTid (engine : Engine) (dfStates : Frame Time StateCell) (thread : String) (tid : ℕ) :
    Option (Frame Time StateCell) := do
  let df ← strContains engine (fun row => row.cell .name) thread dfStates
  let dfThread := df.filter fun row => row.cell .name = some thread
  return dfThread.filter fun row => row.cell .tid = some tid

/-- The row has the name and the tid. -/
def IsTaskRow (thread : String) (tid : ℕ) (row : Row Time StateCell) : Prop :=
  row.cell .name = some thread ∧ row.cell .tid = some tid

instance (thread : String) (tid : ℕ) (row : Row Time StateCell) :
    Decidable (IsTaskRow thread tid row) :=
  inferInstanceAs (Decidable (_ ∧ _))

/-- The rows of the task are returned, all of them and in order. -/
def FindsTask (engine : Engine) (dfStates : Frame Time StateCell) (thread : String) (tid : ℕ) :
    Prop :=
  getDfTid engine dfStates thread tid = some (dfStates.filter fun row => IsTaskRow thread tid row)

/-- The pattern removes rows of the task when it does not find the name, and no others. -/
theorem getDfTid_of_compile {engine : Engine} {thread : String} {found : List Char → Bool}
    (hcompile : engine.compile thread.toList = some found) (dfStates : Frame Time StateCell)
    (tid : ℕ) :
    getDfTid engine dfStates thread tid =
      some (dfStates.filter fun row => IsTaskRow thread tid row && found thread.toList) := by
  simp only [getDfTid, strContains, hcompile, Option.map_some, Option.bind_eq_bind,
    Option.bind_some, Option.pure_def, List.filter_filter]
  apply congrArg some
  apply List.filter_congr
  intro row _
  rw [Bool.eq_iff_iff]
  simp only [Bool.and_eq_true, decide_eq_true_eq]
  constructor
  · rintro ⟨⟨htid, hname⟩, hfound⟩
    rw [hname, Option.any_some] at hfound
    exact ⟨⟨hname, htid⟩, hfound⟩
  · rintro ⟨⟨hname, htid⟩, hfound⟩
    rw [hname, Option.any_some]
    exact ⟨⟨htid, rfl⟩, hfound⟩

/-- The rows of a task are returned, if and only if its name is a pattern that is
found in the name, or one that is valid when there are no rows to return. -/
theorem findsTask_iff (engine : Engine) (dfStates : Frame Time StateCell) (thread : String)
    (tid : ℕ) :
    FindsTask engine dfStates thread tid ↔
      ∃ found, engine.compile thread.toList = some found ∧
        ((∃ row ∈ dfStates, IsTaskRow thread tid row) → found thread.toList = true) := by
  cases hcompile : engine.compile thread.toList with
  | none =>
      refine iff_of_false (fun hfinds => ?_) nofun
      rw [FindsTask, getDfTid, strContains, hcompile] at hfinds
      cases hfinds
  | some found =>
      rw [FindsTask, getDfTid_of_compile hcompile, Option.some_inj]
      constructor
      · intro hrows
        refine ⟨found, rfl, fun ⟨row, hrow, htask⟩ => ?_⟩
        have hkept : row ∈ dfStates.filter fun row => IsTaskRow thread tid row :=
          List.mem_filter.mpr ⟨hrow, decide_eq_true htask⟩
        rw [← hrows, List.mem_filter, Bool.and_eq_true] at hkept
        exact hkept.2.2
      · rintro ⟨_, ⟨⟩, hfound⟩
        apply List.filter_congr
        intro row hrow
        by_cases htask : IsTaskRow thread tid row
        · rw [hfound ⟨row, hrow, htask⟩, Bool.and_true]
        · rw [decide_eq_false htask, Bool.false_and]

/-- A name without special characters is such a pattern. -/
theorem findsTask_of_isLiteral {thread : String} (hliteral : IsLiteral thread.toList)
    (engine : Engine) (dfStates : Frame Time StateCell) (tid : ℕ) :
    FindsTask engine dfStates thread tid := by
  rw [FindsTask, getDfTid_of_compile (engine.literal _ hliteral)]
  simp only [List.infix_refl, decide_true, Bool.and_true]

/-- A row of a thread that runs. -/
def runningRow (ts : ℤ) (thread : String) (tid : ℕ) (parent : String) : Row ℤ StateCell where
  ts := ts
  cell
    | .cpu => some 0
    | .state => some "Running"
    | .dur => some 1000000
    | .tid => some tid
    | .name => some thread
    | .parent => some parent

/-- As a pattern, a name with `+` in it means a repeated letter. -/
theorem findsTask_fails_for_plus :
    ¬ ∀ (engine : Engine) (dfStates : Frame ℤ StateCell) (thread : String) (tid : ℕ),
      FindsTask engine dfStates thread tid := by
  intro hfinds
  have hcount := congrArg (Option.map List.length)
    (hfinds .basic [runningRow 0 "sync+io" 42 "daemon"] "sync+io" 42)
  revert hcount
  decide

end SchedAnalyzer
