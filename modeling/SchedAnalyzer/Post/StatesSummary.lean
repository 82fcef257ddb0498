import Mathlib.Data.List.ProdSigma
import Mathlib.Data.String.Basic
import SchedAnalyzer.Foundation.Lists
import SchedAnalyzer.Post.TaskRows

/-! # The summaries of the threads of a parent

`states_summary` and `states_summary_parent` of `sched.py`. The names of the threads
of a parent are handed on as patterns, so a name is met again for each name that it
contains.
-/

namespace SchedAnalyzer

open Foundation.DataFrame Foundation.Lists Foundation.Regex

variable {Time : Type}

/-- What is printed for a thread: its title, and the rows that the charts and tables
are drawn from. -/
structure Summary (Time : Type) where
  tid : ℕ
  thread : String
  rows : Frame Time StateCell

/-- The rows that are taken for a parent. An empty name counts as none. -/
def takesParent (parent : Option String) (row : Row Time StateCell) : Bool :=
  match parent with
  | some parent => parent = "" ∨ row.cell .parent = some parent
  | none => true

/-- The inner loop of `states_summary`. -/
def summariesOf (df : Frame Time StateCell) (parent : Option String) (thread : String) :
    List (Summary Time) :=
  let dfThread := df.filter fun row => row.cell .name = some thread ∧ takesParent parent row
  (groupKeys .tid dfThread).map fun tid =>
    ⟨tid, thread, dfThread.filter fun row => row.cell .tid = some tid⟩

/-- `states_summary(plt, threads, parent)`. -/
def statesSummary (engine : Engine) (dfStates : Frame Time StateCell) (threads : List String)
    (parent : Option String) : Option (List (Summary Time)) :=
  if dfStates.isEmpty then some []
  else
    (threads.mapM fun thread => do
      let df ← strContains engine (fun row => row.cell .name) thread dfStates
      return (groupKeys StateCol.name df).flatMap (summariesOf df parent)).map List.flatten

/-- The names of the threads of a parent. A missing name is no pattern and raises. -/
def threadsOf (df : Frame Time StateCell) (parent : String) : Option (List String) :=
  let dfParent := df.filter fun row => row.cell .parent = some parent
  (dfParent.mapM fun row : Row Time StateCell => row.cell .name).map unique

/-- `states_summary_parent(plt, parents)`. -/
def statesSummaryParent (engine : Engine) (dfStates : Frame Time StateCell)
    (parents : List String) : Option (List (Summary Time)) :=
  if dfStates.isEmpty then some []
  else
    (parents.mapM fun pattern => do
      let df ← strContains engine (fun row => row.cell .parent) pattern dfStates
      let summaries ← (groupKeys StateCol.parent df).mapM fun parent => do
        statesSummary engine dfStates (← threadsOf df parent) (some parent)
      return List.flatten summaries).map List.flatten

/-! ## Threads -/

/-- A thread of a process. -/
@[ext]
structure ThreadKey where
  parent : String
  thread : String
  tid : ℕ
  deriving DecidableEq

namespace ThreadKey

/-- The row is one of the thread. -/
def Has (key : ThreadKey) (row : Row Time StateCell) : Prop :=
  IsTaskRow key.thread key.tid row ∧ row.cell .parent = some key.parent

instance (key : ThreadKey) (row : Row Time StateCell) : Decidable (key.Has row) :=
  inferInstanceAs (Decidable (_ ∧ _))

def summary (key : ThreadKey) (df : Frame Time StateCell) : Summary Time :=
  ⟨key.tid, key.thread, df.filter fun row => key.Has row⟩

/-- A summary with rows is the one of a single thread. -/
theorem eq_of_summary_eq {key other : ThreadKey} {df : Frame Time StateCell}
    {row : Row Time StateCell} (hrow : row ∈ df) (hhas : key.Has row)
    (heq : key.summary df = other.summary df) : key = other := by
  obtain ⟨htid, hthread, hrows⟩ := Summary.mk.injEq .. ▸ heq
  have hmem : row ∈ df.filter fun row => other.Has row :=
    hrows ▸ List.mem_filter.mpr ⟨hrow, decide_eq_true hhas⟩
  have hother : other.Has row := of_decide_eq_true (List.mem_filter.mp hmem).2
  apply ThreadKey.ext
  · exact Option.some.inj (hhas.2.symm.trans hother.2)
  · exact hthread
  · exact htid

end ThreadKey

/-- The thread has a name, a parent and a tid, and the name nothing special. -/
structure IsThreadTable (df : Frame Time StateCell) : Prop where
  name : ∀ row ∈ df, ∃ name, row.cell .name = some name ∧ IsLiteral name.toList
  parent : ∀ row ∈ df, ∃ parent, row.cell .parent = some parent
  tid : ∀ row ∈ df, ∃ tid, row.cell .tid = some tid

/-- One summary is printed for every thread whose parent has the pattern in its name. -/
def SummarizesOnce (engine : Engine) (df : Frame Time StateCell) (pattern : String) : Prop :=
  ∃ keys : List ThreadKey, keys.Nodup ∧
    (∀ key, key ∈ keys ↔ (∃ row ∈ df, key.Has row) ∧
      ∃ found, engine.compile pattern.toList = some found ∧ found key.parent.toList = true) ∧
    statesSummaryParent engine df [pattern] = some (keys.map fun key => key.summary df)

/-- No thread of these parents is met through another one: a row with the name of a
thread in its own name, of the same parent or of any if that one's name is empty, has
the same name and parent. -/
def NamesApart (found : List Char → Bool) (df : Frame Time StateCell) : Prop :=
  ∀ row ∈ df, ∀ other ∈ df, ∀ parent name otherName,
    row.cell .parent = some parent → row.cell .name = some name → found parent.toList = true →
      other.cell .name = some otherName → name.toList <:+: otherName.toList →
        takesParent (some parent) other = true →
          otherName = name ∧ other.cell .parent = some parent

/-! ## The visits of the loops -/

/-- The rows whose parent has the pattern. -/
def ofParents (found : List Char → Bool) (df : Frame Time StateCell) : Frame Time StateCell :=
  df.filter fun row => (row.cell .parent).any fun parent => found parent.toList

/-- The rows that have the pattern in their name. -/
def withName (pattern : String) (df : Frame Time StateCell) : Frame Time StateCell :=
  df.filter fun row => (row.cell .name).any fun name => pattern.toList <:+: name.toList

/-- The names of the threads of a parent, when none is missing. -/
def namesOf (df : Frame Time StateCell) (parent : String) : List String :=
  unique ((df.filter fun row => row.cell .parent = some parent).map
    fun row => (row.cell .name).getD "")

/-- The rows of a name that `states_summary` takes for a pattern and a parent. -/
def rowsFor (df : Frame Time StateCell) (parent pattern thread : String) :
    Frame Time StateCell :=
  (withName pattern df).filter fun row => row.cell .name = some thread ∧
    takesParent (some parent) row

/-- A parent, a name of its threads that is the pattern, a name that has it, and a tid. -/
abbrev Visit : Type := (_ : String) × (_ : String) × (_ : String) × ℕ

/-- The summaries that are printed, in order. -/
def visits (found : List Char → Bool) (df : Frame Time StateCell) : List Visit :=
  (groupKeys StateCol.parent (ofParents found df)).sigma fun parent =>
    (namesOf (ofParents found df) parent).sigma fun pattern =>
      (groupKeys StateCol.name (withName pattern df)).sigma fun thread =>
        groupKeys StateCol.tid (rowsFor df parent pattern thread)

def Visit.summary (visit : Visit) (df : Frame Time StateCell) : Summary Time :=
  let ⟨parent, pattern, thread, tid⟩ := visit
  ⟨tid, thread, (rowsFor df parent pattern thread).filter fun row => row.cell .tid = some tid⟩

theorem visits_nodup (found : List Char → Bool) (df : Frame Time StateCell) :
    (visits found df).Nodup :=
  (groupKeys_nodup _).sigma fun _ => (nodup_unique _).sigma fun _ =>
    (groupKeys_nodup _).sigma fun _ => groupKeys_nodup _

theorem mem_ofParents {found : List Char → Bool} {df : Frame Time StateCell} {parent : String}
    {row : Row Time StateCell} (hparent : row.cell .parent = some parent) :
    row ∈ ofParents found df ↔ row ∈ df ∧ found parent.toList = true := by
  rw [ofParents, List.mem_filter, hparent, Option.any_some]

theorem mem_rowsFor {df : Frame Time StateCell} {parent pattern thread : String}
    {row : Row Time StateCell} :
    row ∈ rowsFor df parent pattern thread ↔
      row ∈ df ∧ pattern.toList <:+: thread.toList ∧ row.cell .name = some thread ∧
        takesParent (some parent) row = true := by
  rw [rowsFor, withName, List.filter_filter, List.mem_filter, Bool.and_eq_true, decide_eq_true_eq]
  apply and_congr_right
  intro _
  constructor
  · rintro ⟨⟨hname, htakes⟩, hpattern⟩
    rw [hname, Option.any_some, decide_eq_true_eq] at hpattern
    exact ⟨hpattern, hname, htakes⟩
  · rintro ⟨hpattern, hname, htakes⟩
    rw [hname, Option.any_some, decide_eq_true_eq]
    exact ⟨⟨rfl, htakes⟩, hpattern⟩

theorem mem_namesOf {found : List Char → Bool} {df : Frame Time StateCell}
    (htable : IsThreadTable df) {parent pattern : String} :
    pattern ∈ namesOf (ofParents found df) parent ↔
      ∃ row ∈ df, row.cell .parent = some parent ∧ row.cell .name = some pattern ∧
        found parent.toList = true := by
  rw [namesOf, mem_unique, List.mem_map]
  constructor
  · rintro ⟨row, hrow, hname⟩
    obtain ⟨hrow, hparent⟩ := List.mem_filter.mp hrow
    rw [decide_eq_true_eq] at hparent
    obtain ⟨hmem, hfound⟩ := (mem_ofParents hparent).mp hrow
    obtain ⟨name, hcell, -⟩ := htable.name row hmem
    rw [hcell, Option.getD_some] at hname
    exact ⟨row, hmem, hparent, hname ▸ hcell, hfound⟩
  · rintro ⟨row, hrow, hparent, hname, hfound⟩
    refine ⟨row, List.mem_filter.mpr ⟨(mem_ofParents hparent).mpr ⟨hrow, hfound⟩, ?_⟩, ?_⟩
    · exact decide_eq_true hparent
    · rw [hname, Option.getD_some]

/-- A visit is a thread with the name of a thread of the parent in its own. -/
theorem mem_visits_iff {found : List Char → Bool} {df : Frame Time StateCell}
    (htable : IsThreadTable df) {parent pattern thread : String} {tid : ℕ} :
    ⟨parent, pattern, thread, tid⟩ ∈ visits found df ↔
      (∃ row ∈ df, row.cell .parent = some parent ∧ row.cell .name = some pattern ∧
        found parent.toList = true) ∧
      pattern.toList <:+: thread.toList ∧
        ∃ row ∈ df, IsTaskRow thread tid row ∧ takesParent (some parent) row = true := by
  rw [visits, List.mem_sigma, List.mem_sigma, List.mem_sigma, mem_namesOf htable,
    mem_groupKeys_iff, mem_groupKeys_iff, mem_groupKeys_iff]
  constructor
  · rintro ⟨-, hpattern, -, row, hrow, htid⟩
    obtain ⟨hmem, hpart, hname, htakes⟩ := mem_rowsFor.mp hrow
    exact ⟨hpattern, hpart, row, hmem, ⟨hname, htid⟩, htakes⟩
  · rintro ⟨hpattern, hpart, row, hmem, ⟨hname, htid⟩, htakes⟩
    obtain ⟨first, hfirst, hparent, -, hfound⟩ := id hpattern
    have hrow : row ∈ rowsFor df parent pattern thread :=
      mem_rowsFor.mpr ⟨hmem, hpart, hname, htakes⟩
    exact ⟨⟨first, (mem_ofParents hparent).mpr ⟨hfirst, hfound⟩, hparent⟩, hpattern,
      ⟨row, (List.mem_filter.mp hrow).1, hname⟩, row, hrow, htid⟩

/-- The rows of a visit. -/
theorem rowsFor_filter {df : Frame Time StateCell} {parent pattern thread : String}
    (hpart : pattern.toList <:+: thread.toList) (tid : ℕ) :
    ((rowsFor df parent pattern thread).filter fun row => row.cell .tid = some tid) =
      df.filter fun row => IsTaskRow thread tid row ∧ takesParent (some parent) row = true := by
  rw [rowsFor, withName, List.filter_filter, List.filter_filter]
  apply List.filter_congr
  intro row _
  rw [Bool.eq_iff_iff, Bool.and_eq_true, Bool.and_eq_true, decide_eq_true_eq, decide_eq_true_eq,
    decide_eq_true_eq]
  constructor
  · rintro ⟨⟨htid, hname, htakes⟩, -⟩
    exact ⟨⟨hname, htid⟩, htakes⟩
  · rintro ⟨⟨hname, htid⟩, htakes⟩
    rw [hname, Option.any_some, decide_eq_true_eq]
    exact ⟨⟨htid, rfl, htakes⟩, hpart⟩

/-- Names without special characters print a summary for each visit. -/
theorem statesSummary_of_literal (engine : Engine) {df : Frame Time StateCell} (hne : df ≠ [])
    {threads : List String} (hthreads : ∀ thread ∈ threads, IsLiteral thread.toList)
    (parent : Option String) :
    statesSummary engine df threads parent =
      some (threads.flatMap fun pattern =>
        (groupKeys StateCol.name (withName pattern df)).flatMap
          (summariesOf (withName pattern df) parent)) := by
  have hempty : ¬ df.isEmpty = true := fun hempty => hne (List.isEmpty_iff.mp hempty)
  rw [statesSummary, if_neg hempty, mapM_eq_some_map (g := fun pattern =>
    (groupKeys StateCol.name (withName pattern df)).flatMap
      (summariesOf (withName pattern df) parent)) fun pattern hpattern => ?_, Option.map_some]
  · rfl
  · rw [strContains, engine.literal _ (hthreads pattern hpattern)]
    rfl

theorem threadsOf_eq {found : List Char → Bool} {df : Frame Time StateCell}
    (htable : IsThreadTable df) (parent : String) :
    threadsOf (ofParents found df) parent = some (namesOf (ofParents found df) parent) := by
  rw [threadsOf, mapM_eq_some_map (g := fun row => (row.cell .name).getD "") fun row hrow => ?_]
  · rfl
  · obtain ⟨name, hname, -⟩ :=
      htable.name row (List.mem_filter.mp (List.mem_filter.mp hrow).1).1
    rw [hname, Option.getD_some]

theorem statesSummaryParent_eq {engine : Engine} {pattern : String} {found : List Char → Bool}
    (hcompile : engine.compile pattern.toList = some found) {df : Frame Time StateCell}
    (hne : df ≠ []) (htable : IsThreadTable df) :
    statesSummaryParent engine df [pattern] =
      some ((visits found df).map fun visit => visit.summary df) := by
  have hempty : ¬ df.isEmpty = true := fun hempty => hne (List.isEmpty_iff.mp hempty)
  have hparent : ∀ parent ∈ groupKeys StateCol.parent (ofParents found df),
      (do statesSummary engine df (← threadsOf (ofParents found df) parent) (some parent)) =
        some ((namesOf (ofParents found df) parent).flatMap fun pattern =>
          (groupKeys StateCol.name (withName pattern df)).flatMap
            (summariesOf (withName pattern df) (some parent))) := by
    intro parent _
    rw [threadsOf_eq htable]
    apply statesSummary_of_literal engine hne
    intro thread hthread
    obtain ⟨row, hrow, -, hname, -⟩ := (mem_namesOf htable).mp hthread
    obtain ⟨name, hcell, hliteral⟩ := htable.name row hrow
    exact Option.some.inj (hcell.symm.trans hname) ▸ hliteral
  have hprefilter : strContains engine (fun row => row.cell .parent) pattern df =
      some (ofParents found df) := by
    rw [strContains, hcompile]
    rfl
  rw [statesSummaryParent, if_neg hempty, mapM_eq_some_map (g := fun _ =>
    (visits found df).map fun visit => visit.summary df) fun item hitem => ?_]
  · simp
  · rw [List.mem_singleton.mp hitem, hprefilter]
    change Option.bind ((groupKeys StateCol.parent (ofParents found df)).mapM _) _ = _
    rw [mapM_eq_some_map hparent]
    simp only [visits, map_sigma]
    rfl

/-! ## Once for each thread -/

section Once

variable {engine : Engine} {pattern : String} {found : List Char → Bool}
variable (hcompile : engine.compile pattern.toList = some found) {df : Frame Time StateCell}
variable (hne : df ≠ []) (htable : IsThreadTable df)

/-- The thread of a visit, when the pattern is its name. -/
def Visit.key (visit : Visit) : ThreadKey :=
  let ⟨parent, _, thread, tid⟩ := visit
  ⟨parent, thread, tid⟩

theorem takesParent_of_eq {parent : String} {row : Row Time StateCell}
    (hparent : row.cell .parent = some parent) : takesParent (some parent) row = true :=
  decide_eq_true (Or.inr hparent)

include htable in
/-- When names are apart, a visit has the name of its pattern and rows of its parent only. -/
theorem visit_of_namesApart (hapart : NamesApart found df) {parent name thread : String} {tid : ℕ}
    (hvisit : ⟨parent, name, thread, tid⟩ ∈ visits found df) :
    thread = name ∧ ∀ row ∈ df, IsTaskRow thread tid row → takesParent (some parent) row = true →
      row.cell .parent = some parent := by
  obtain ⟨⟨first, hfirst, hparent, hname, hfound⟩, hpart, row, hrow, htask, htakes⟩ :=
    (mem_visits_iff htable).mp hvisit
  refine ⟨(hapart first hfirst row hrow parent name thread hparent hname hfound htask.1 hpart
    htakes).1, fun other hother htask' htakes' => ?_⟩
  exact (hapart first hfirst other hother parent name thread hparent hname hfound htask'.1 hpart
    htakes').2

include hcompile hne htable

theorem summarizesOnce_of_namesApart (hapart : NamesApart found df) :
    SummarizesOnce engine df pattern := by
  refine ⟨(visits found df).map Visit.key, ?_, ?_, ?_⟩
  · apply (visits_nodup found df).map_on
    rintro ⟨parent, name, thread, tid⟩ hvisit ⟨parent', name', thread', tid'⟩ hother heq
    obtain ⟨rfl, rfl, rfl⟩ := ThreadKey.mk.injEq .. ▸ heq
    rw [← (visit_of_namesApart htable hapart hvisit).1,
      ← (visit_of_namesApart htable hapart hother).1]
  · rintro ⟨parent, thread, tid⟩
    rw [List.mem_map, hcompile]
    constructor
    · rintro ⟨⟨_, name, _, _⟩, hvisit, ⟨⟩⟩
      obtain ⟨⟨_, _, _, _, hfound⟩, -, row, hrow, htask, htakes⟩ :=
        (mem_visits_iff htable).mp hvisit
      have hparent := (visit_of_namesApart htable hapart hvisit).2 row hrow htask htakes
      exact ⟨⟨row, hrow, htask, hparent⟩, found, rfl, hfound⟩
    · rintro ⟨⟨row, hrow, htask, hparent⟩, _, ⟨⟩, hfound⟩
      refine ⟨⟨parent, thread, thread, tid⟩, (mem_visits_iff htable).mpr ⟨?_, ?_, ?_⟩, rfl⟩
      · exact ⟨row, hrow, hparent, htask.1, hfound⟩
      · exact List.infix_refl _
      · exact ⟨row, hrow, htask, takesParent_of_eq hparent⟩
  · rw [statesSummaryParent_eq hcompile hne htable, List.map_map]
    apply congrArg some
    apply List.map_congr_left
    rintro ⟨parent, name, thread, tid⟩ hvisit
    obtain ⟨-, hpart, -⟩ := (mem_visits_iff htable).mp hvisit
    have hparents := (visit_of_namesApart htable hapart hvisit).2
    refine congrArg (Summary.mk tid thread) ((rowsFor_filter hpart tid).trans ?_)
    apply List.filter_congr
    intro row hrow
    apply decide_eq_decide.mpr
    exact and_congr_right fun htask => ⟨hparents row hrow htask, takesParent_of_eq⟩

/-- A thread that is met through another one is met once more through itself. -/
theorem namesApart_of_summarizesOnce (honce : SummarizesOnce engine df pattern) :
    NamesApart found df := by
  intro row hrow other hother parent name thread hparent hname hfound hthread hpart htakes
  obtain ⟨keys, hnodup, hkeys, hprinted⟩ := honce
  rw [statesSummaryParent_eq hcompile hne htable, Option.some_inj] at hprinted
  obtain ⟨tid, htid⟩ := htable.tid other hother
  have htask : IsTaskRow thread tid other := ⟨hthread, htid⟩
  have hvisit : ⟨parent, name, thread, tid⟩ ∈ visits found df :=
    (mem_visits_iff htable).mpr ⟨⟨row, hrow, hparent, hname, hfound⟩, hpart, other, hother,
      htask, htakes⟩
  have hrows : Visit.summary ⟨parent, name, thread, tid⟩ df =
      ⟨tid, thread, df.filter fun row => IsTaskRow thread tid row ∧
        takesParent (some parent) row = true⟩ :=
    congrArg (Summary.mk tid thread) (rowsFor_filter hpart tid)
  -- What is printed for it is the summary of the other row's own thread.
  obtain ⟨⟨otherParent, otherThread, otherTid⟩, hkey, hsummary⟩ :=
    List.mem_map.mp (hprinted ▸ List.mem_map_of_mem hvisit)
  have hkeyRows : (ThreadKey.summary ⟨otherParent, otherThread, otherTid⟩ df).rows =
      df.filter fun row => IsTaskRow thread tid row ∧ takesParent (some parent) row = true := by
    rw [hsummary, hrows]
  have hhas : ThreadKey.Has ⟨otherParent, otherThread, otherTid⟩ other := by
    have hmem : other ∈ (ThreadKey.summary ⟨otherParent, otherThread, otherTid⟩ df).rows :=
      hkeyRows ▸ List.mem_filter.mpr ⟨hother, decide_eq_true ⟨htask, htakes⟩⟩
    exact of_decide_eq_true (List.mem_filter.mp hmem).2
  obtain ⟨⟨hotherThread, hotherTid⟩, hotherParent⟩ := hhas
  obtain rfl : otherThread = thread := Option.some.inj (hotherThread.symm.trans hthread)
  obtain rfl : otherTid = tid := Option.some.inj (hotherTid.symm.trans htid)
  obtain ⟨-, _, hcompile', hotherFound⟩ := (hkeys _).mp hkey
  obtain rfl := Option.some.inj (hcompile.symm.trans hcompile')
  have hself : ⟨otherParent, otherThread, otherThread, otherTid⟩ ∈ visits found df :=
    (mem_visits_iff htable).mpr ⟨⟨other, hother, hotherParent, hthread, hotherFound⟩,
      List.infix_refl _, other, hother, htask, takesParent_of_eq hotherParent⟩
  -- Its own visit prints the same rows.
  have hsame : Visit.summary ⟨otherParent, otherThread, otherThread, otherTid⟩ df =
      Visit.summary ⟨parent, name, otherThread, otherTid⟩ df := by
    rw [hrows]
    refine congrArg (Summary.mk otherTid otherThread)
      ((rowsFor_filter (List.infix_refl _) otherTid).trans ?_)
    by_cases hempty : otherParent = ""
    · have hparentEmpty : parent = otherParent := by
        rcases of_decide_eq_true htakes with hnone | hequal
        · rw [hnone, hempty]
        · exact Option.some.inj (hequal.symm.trans hotherParent)
      rw [hparentEmpty]
    · rw [← hkeyRows]
      apply List.filter_congr
      intro row _
      apply decide_eq_decide.mpr
      exact and_congr_right fun _ => decide_eq_true_iff.trans (or_iff_right hempty)
  have hsummaries : ((visits found df).map fun visit => visit.summary df).Nodup := by
    rw [hprinted]
    apply hnodup.map_on
    intro key hkey key' _ heq
    obtain ⟨⟨row, hrow, hhas⟩, -⟩ := (hkeys key).mp hkey
    exact ThreadKey.eq_of_summary_eq hrow hhas heq
  have hvisits := List.inj_on_of_nodup_map hsummaries hself hvisit hsame
  have hequal : otherParent = parent := congrArg (fun visit : Visit => visit.1) hvisits
  exact ⟨congrArg (fun visit : Visit => visit.2.1) hvisits, hequal ▸ hotherParent⟩

end Once

/-- One summary is printed for every thread of the parents, if and only if the pattern
is valid and no name of their threads is part of another one that is taken with it, or
there is nothing to print. -/
theorem summarizesOnce_iff (engine : Engine) {df : Frame Time StateCell}
    (htable : IsThreadTable df) (pattern : String) :
    SummarizesOnce engine df pattern ↔
      df = [] ∨ ∃ found, engine.compile pattern.toList = some found ∧ NamesApart found df := by
  by_cases hne : df = []
  · subst hne
    refine iff_of_true ⟨[], List.nodup_nil, fun key => ?_, rfl⟩ (Or.inl rfl)
    simp
  · rw [or_iff_right hne]
    constructor
    · intro honce
      cases hcompile : engine.compile pattern.toList with
      | some found => exact ⟨found, rfl, namesApart_of_summarizesOnce hcompile hne htable honce⟩
      | none =>
          obtain ⟨keys, -, -, hprinted⟩ := honce
          have hempty : ¬ df.isEmpty = true := fun hempty => hne (List.isEmpty_iff.mp hempty)
          rw [statesSummaryParent, if_neg hempty, List.mapM_cons, strContains, hcompile] at hprinted
          cases hprinted
    · rintro ⟨found, hcompile, hapart⟩
      exact summarizesOnce_of_namesApart hcompile hne htable hapart

theorem isThreadTable_pair {parent first second : String} (hfirst : IsLiteral first.toList)
    (hsecond : IsLiteral second.toList) (ts ts' : ℤ) (tid tid' : ℕ) :
    IsThreadTable [runningRow ts first tid parent, runningRow ts' second tid' parent] := by
  refine ⟨?_, ?_, ?_⟩ <;> refine List.forall_mem_cons.mpr ⟨?_, List.forall_mem_singleton.mpr ?_⟩
  · exact ⟨first, rfl, hfirst⟩
  · exact ⟨second, rfl, hsecond⟩
  · exact ⟨parent, rfl⟩
  · exact ⟨parent, rfl⟩
  · exact ⟨tid, rfl⟩
  · exact ⟨tid', rfl⟩

/-- Two threads of a daemon. -/
def daemonThreads : Frame ℤ StateCell :=
  [runningRow 0 "net" 11 "daemon", runningRow 1000000 "disk" 12 "daemon"]

theorem summarizesOnce_daemonThreads : SummarizesOnce .basic daemonThreads "daemon" := by
  have htable : IsThreadTable daemonThreads := isThreadTable_pair (by decide) (by decide) ..
  refine (summarizesOnce_iff .basic htable "daemon").mpr (Or.inr ?_)
  refine ⟨_, Engine.basic.literal _ (by decide), ?_⟩
  intro row hrow other hother parent name otherName hparent hname _ hthread hpart _
  simp only [daemonThreads, List.mem_cons, List.not_mem_nil, or_false] at hrow hother
  rcases hrow with rfl | rfl <;> rcases hother with rfl | rfl <;> cases hparent <;> cases hname <;>
    cases hthread <;> first
      | exact ⟨rfl, rfl⟩
      | exact absurd hpart (by decide)

/-- The threads of an application, one named like it and one a worker. -/
def appThreads : Frame ℤ StateCell :=
  [runningRow 0 "app" 21 "app", runningRow 1000000 "app-worker" 22 "app"]

/-- The worker is printed twice. -/
theorem summarizesOnce_fails_for_worker :
    ¬ ∀ (engine : Engine) (df : Frame ℤ StateCell) (pattern : String), IsThreadTable df →
      (∀ row ∈ df, ∀ parent, row.cell .parent = some parent → IsLiteral parent.toList) →
        SummarizesOnce engine df pattern := by
  intro honce
  have hcompile := Engine.basic.literal "app".toList (by decide)
  have hparents : ∀ row ∈ appThreads, ∀ parent, row.cell .parent = some parent →
      IsLiteral parent.toList := by
    refine List.forall_mem_cons.mpr ⟨?_, List.forall_mem_singleton.mpr ?_⟩ <;> rintro _ ⟨⟩ <;>
      decide
  have htable : IsThreadTable appThreads := isThreadTable_pair (by decide) (by decide) ..
  have hapart := namesApart_of_summarizesOnce hcompile (List.cons_ne_nil _ _) htable
    (honce .basic appThreads "app" htable hparents)
  have hworker := (hapart _ List.mem_cons_self _ (List.mem_cons_of_mem _ List.mem_cons_self)
    "app" "app" "app-worker" rfl rfl (by decide) rfl (by decide) (by decide)).1
  exact absurd hworker (by decide)

end SchedAnalyzer
