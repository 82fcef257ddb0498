import Mathlib.Data.List.Sort
import Mathlib.Order.Defs.LinearOrder

/-! # Slices of a track

A track is a list of begin and end marks with times. A viewer puts them in the
order of their times, marks of one time as they were written, and an end closes
the innermost open slice. So slices lie next to each other or inside each other,
and marks that were meant to overlap are paired in another way.
-/

namespace Foundation.TimedBrackets

universe uLabel uTime

/-- A mark of a track. -/
inductive Edge (Label : Type uLabel)
  | opens (label : Label)
  | closes (label : Label)
  deriving DecidableEq, Repr

/-- A slice, by the mark that opens it and the one that closes it, if there is one. -/
structure Slice (Label : Type uLabel) where
  opened : Label
  closed : Option Label
  deriving DecidableEq, Repr

variable {Label : Type uLabel} {Time : Type uTime}

def Edge.label : Edge Label → Label
  | opens label => label
  | closes label => label

/-- The slices of marks in order, with `stack` open, innermost first. An end of
nothing is dropped. -/
def slicesFrom : List Label → List (Edge Label) → List (Slice Label)
  | stack, [] => stack.map fun opened => ⟨opened, none⟩
  | stack, .opens label :: rest => slicesFrom (label :: stack) rest
  | [], .closes _ :: rest => slicesFrom [] rest
  | opened :: stack, .closes label :: rest => ⟨opened, some label⟩ :: slicesFrom stack rest

section Order

variable [LinearOrder Time] (time : Label → Time)

/-- The order of the marks. -/
def NotAfter (first second : Edge Label) : Prop :=
  time first.label ≤ time second.label

instance (first second : Edge Label) : Decidable (NotAfter time first second) :=
  inferInstanceAs (Decidable (_ ≤ _))

instance : Std.Total (NotAfter time) where
  total _ _ := le_total _ _

instance : IsTrans (Edge Label) (NotAfter time) where
  trans _ _ _ := le_trans

/-- The marks as a viewer takes them. -/
def arrange (edges : List (Edge Label)) : List (Edge Label) :=
  edges.insertionSort (NotAfter time)

/-- The slices a viewer shows. -/
def slices (edges : List (Edge Label)) : List (Slice Label) :=
  slicesFrom [] (arrange time edges)

theorem mem_arrange {edges : List (Edge Label)} {edge : Edge Label} :
    edge ∈ arrange time edges ↔ edge ∈ edges :=
  List.mem_insertionSort _

theorem pairwise_arrange (edges : List (Edge Label)) :
    (arrange time edges).Pairwise (NotAfter time) :=
  List.pairwise_insertionSort _ edges

end Order

/-! ## Where slices come from -/

theorem opened_of_mem_slicesFrom {stack : List Label} {edges : List (Edge Label)}
    {slice : Slice Label} (hslice : slice ∈ slicesFrom stack edges) :
    slice.opened ∈ stack ∨ .opens slice.opened ∈ edges := by
  induction stack, edges using slicesFrom.induct with
  | case1 stack =>
      obtain ⟨opened, hopened, rfl⟩ := List.mem_map.mp hslice
      exact Or.inl hopened
  | case2 stack label rest ih =>
      rcases ih hslice with hstack | hrest
      · rcases List.mem_cons.mp hstack with rfl | hstack
        · exact Or.inr List.mem_cons_self
        · exact Or.inl hstack
      · exact Or.inr (List.mem_cons_of_mem _ hrest)
  | case3 label rest ih =>
      rcases ih hslice with hstack | hrest
      · exact Or.inl hstack
      · exact Or.inr (List.mem_cons_of_mem _ hrest)
  | case4 opened stack label rest ih =>
      rcases List.mem_cons.mp hslice with rfl | hslice
      · exact Or.inl List.mem_cons_self
      · rcases ih hslice with hstack | hrest
        · exact Or.inl (List.mem_cons_of_mem _ hstack)
        · exact Or.inr (List.mem_cons_of_mem _ hrest)

theorem closed_of_mem_slicesFrom {stack : List Label} {edges : List (Edge Label)}
    {slice : Slice Label} (hslice : slice ∈ slicesFrom stack edges) {label : Label}
    (hclosed : slice.closed = some label) : .closes label ∈ edges := by
  induction stack, edges using slicesFrom.induct with
  | case1 stack =>
      obtain ⟨opened, -, rfl⟩ := List.mem_map.mp hslice
      cases hclosed
  | case2 stack first rest ih => exact List.mem_cons_of_mem _ (ih hslice)
  | case3 first rest ih => exact List.mem_cons_of_mem _ (ih hslice)
  | case4 opened stack first rest ih =>
      rcases List.mem_cons.mp hslice with rfl | hslice
      · rw [Option.some.inj hclosed]
        exact List.mem_cons_self
      · exact List.mem_cons_of_mem _ (ih hslice)

theorem opens_mem_cons_closes {label first : Label} {rest : List (Edge Label)} :
    .opens label ∈ .closes first :: rest ↔ .opens label ∈ rest := by
  simp

/-- Every begin has its slice. -/
theorem exists_mem_slicesFrom {stack : List Label} {edges : List (Edge Label)} {label : Label}
    (hopens : label ∈ stack ∨ .opens label ∈ edges) :
    ∃ slice ∈ slicesFrom stack edges, slice.opened = label := by
  induction stack, edges using slicesFrom.induct with
  | case1 stack =>
      have hstack := hopens.resolve_right List.not_mem_nil
      exact ⟨⟨label, none⟩, List.mem_map_of_mem hstack, rfl⟩
  | case2 stack first rest ih =>
      apply ih
      rcases hopens with hstack | hedges
      · exact Or.inl (List.mem_cons_of_mem _ hstack)
      · rcases List.mem_cons.mp hedges with heq | hrest
        · exact Or.inl (Edge.opens.inj heq ▸ List.mem_cons_self)
        · exact Or.inr hrest
  | case3 first rest ih =>
      apply ih
      rcases hopens with hstack | hedges
      · exact Or.inl hstack
      · exact Or.inr (opens_mem_cons_closes.mp hedges)
  | case4 opened stack first rest ih =>
      rcases hopens with hstack | hedges
      · rcases List.mem_cons.mp hstack with rfl | hstack
        · exact ⟨_, List.mem_cons_self, rfl⟩
        · obtain ⟨slice, hslice, hlabel⟩ := ih (Or.inl hstack)
          exact ⟨slice, List.mem_cons_of_mem _ hslice, hlabel⟩
      · obtain ⟨slice, hslice, hlabel⟩ := ih (Or.inr (opens_mem_cons_closes.mp hedges))
        exact ⟨slice, List.mem_cons_of_mem _ hslice, hlabel⟩

/-! ## Slices are nested -/

section Order

variable [LinearOrder Time] {time : Label → Time}

/-- What is open began in the order of the stack, and before the marks to come. -/
structure OpenBefore (time : Label → Time) (stack : List Label) (edges : List (Edge Label)) :
    Prop where
  nested : stack.Pairwise fun inner outer => time outer ≤ time inner
  sorted : edges.Pairwise (NotAfter time)
  before : ∀ opened ∈ stack, ∀ edge ∈ edges, time opened ≤ time edge.label

theorem OpenBefore.opens {stack : List Label} {label : Label} {rest : List (Edge Label)}
    (hopen : OpenBefore time stack (.opens label :: rest)) :
    OpenBefore time (label :: stack) rest := by
  obtain ⟨hfirst, hrest⟩ := List.pairwise_cons.mp hopen.sorted
  refine ⟨List.pairwise_cons.mpr ⟨?_, hopen.nested⟩, hrest, ?_⟩
  · intro outer houter
    exact hopen.before outer houter (.opens label) List.mem_cons_self
  · intro opened hopened edge hedge
    rcases List.mem_cons.mp hopened with rfl | hstack
    · exact hfirst edge hedge
    · exact hopen.before opened hstack edge (List.mem_cons_of_mem _ hedge)

theorem OpenBefore.tail {stack : List Label} {edge : Edge Label} {rest : List (Edge Label)}
    (hopen : OpenBefore time stack (edge :: rest)) : OpenBefore time stack.tail rest := by
  refine ⟨hopen.nested.tail, (List.pairwise_cons.mp hopen.sorted).2, ?_⟩
  intro opened hopened other hother
  exact hopen.before opened (List.mem_of_mem_tail hopened) other (List.mem_cons_of_mem _ hother)

/-- The slices of marks to come begin with them or are open already. -/
theorem OpenBefore.opened_le_or {opened : Label} {stack : List Label} {label : Label}
    {rest : List (Edge Label)} (hopen : OpenBefore time (opened :: stack) (.closes label :: rest))
    {slice : Slice Label} (hslice : slice ∈ slicesFrom stack rest) :
    time slice.opened ≤ time opened ∨ time label ≤ time slice.opened := by
  rcases opened_of_mem_slicesFrom hslice with hstack | hrest
  · exact Or.inl ((List.pairwise_cons.mp hopen.nested).1 _ hstack)
  · exact Or.inr ((List.pairwise_cons.mp hopen.sorted).1 _ hrest)

/-- A slice ends after it begins. -/
theorem OpenBefore.opened_le_closed {stack : List Label} {edges : List (Edge Label)}
    (hopen : OpenBefore time stack edges) {slice : Slice Label}
    (hslice : slice ∈ slicesFrom stack edges) {label : Label}
    (hclosed : slice.closed = some label) : time slice.opened ≤ time label := by
  induction stack, edges using slicesFrom.induct with
  | case1 stack =>
      obtain ⟨opened, -, rfl⟩ := List.mem_map.mp hslice
      cases hclosed
  | case2 stack first rest ih => exact ih hopen.opens hslice
  | case3 first rest ih => exact ih hopen.tail hslice
  | case4 opened stack first rest ih =>
      rcases List.mem_cons.mp hslice with rfl | hslice
      · rw [← Option.some.inj hclosed]
        exact hopen.before opened List.mem_cons_self (.closes first) List.mem_cons_self
      · exact ih hopen.tail hslice

/-- A slice that begins inside of another one ends there. -/
theorem OpenBefore.closed_le_closed {stack : List Label} {edges : List (Edge Label)}
    (hopen : OpenBefore time stack edges) {outer inner : Slice Label}
    (houter : outer ∈ slicesFrom stack edges) (hinner : inner ∈ slicesFrom stack edges)
    {stop : Label} (hstop : outer.closed = some stop) (hafter : time outer.opened < time inner.opened)
    (hinside : time inner.opened < time stop) :
    ∃ label, inner.closed = some label ∧ time label ≤ time stop := by
  induction stack, edges using slicesFrom.induct with
  | case1 stack =>
      obtain ⟨opened, -, rfl⟩ := List.mem_map.mp houter
      cases hstop
  | case2 stack first rest ih => exact ih hopen.opens houter hinner
  | case3 first rest ih => exact ih hopen.tail houter hinner
  | case4 opened stack first rest ih =>
      rcases List.mem_cons.mp houter with rfl | houter
      · -- The innermost slice: the others began before it or will begin after its end.
        obtain rfl := Option.some.inj hstop
        rcases List.mem_cons.mp hinner with rfl | hinner
        · exact absurd hafter (lt_irrefl _)
        · rcases hopen.opened_le_or hinner with hle | hle
          · exact absurd hafter (not_lt.mpr hle)
          · exact absurd hinside (not_lt.mpr hle)
      · rcases List.mem_cons.mp hinner with rfl | hinner
        · refine ⟨first, rfl, ?_⟩
          exact (List.pairwise_cons.mp hopen.sorted).1 _ (closed_of_mem_slicesFrom houter hstop)
        · exact ih hopen.tail houter hinner

theorem openBefore_arrange (edges : List (Edge Label)) :
    OpenBefore time [] (arrange time edges) :=
  ⟨.nil, pairwise_arrange time edges, fun _ hopened => absurd hopened List.not_mem_nil⟩

/-! ## Marks written in pairs -/

/-- Each begin is written together with its end. -/
def spanEdges (stop : Label → Label) (labels : List Label) : List (Edge Label) :=
  labels.flatMap fun label => [.opens label, .closes (stop label)]

/-- The slice ends at the time that was written for it. -/
def Slice.Lasts (time : Label → Time) (stop : Label → Label) (slice : Slice Label) : Prop :=
  ∃ label, slice.closed = some label ∧ time label = time (stop slice.opened)

variable {stop : Label → Label} {labels : List Label}

theorem opens_mem_spanEdges {label : Label} (hlabel : label ∈ labels) :
    .opens label ∈ spanEdges stop labels :=
  List.mem_flatMap.mpr ⟨label, hlabel, List.mem_cons_self⟩

/-- Every span has a slice that begins with it. -/
theorem exists_mem_slices_spanEdges (time : Label → Time) (stop : Label → Label) {label : Label}
    (hlabel : label ∈ labels) :
    ∃ slice ∈ slices time (spanEdges stop labels), slice.opened = label :=
  exists_mem_slicesFrom (Or.inr ((mem_arrange time).mpr (opens_mem_spanEdges hlabel)))

theorem slicesFrom_spanEdges (stop : Label → Label) (labels : List Label) :
    slicesFrom [] (spanEdges stop labels) = labels.map fun label => ⟨label, some (stop label)⟩ := by
  induction labels with
  | nil => rfl
  | cons label rest ih => exact congrArg (List.cons _) ih

/-- Spans that follow each other are in order as they are written. -/
theorem pairwise_spanEdges (hforward : ∀ label ∈ labels, time label ≤ time (stop label))
    (hapart : labels.Pairwise fun first second => time (stop first) ≤ time second) :
    (spanEdges stop labels).Pairwise (NotAfter time) := by
  induction labels with
  | nil => exact .nil
  | cons label rest ih =>
      obtain ⟨hfirst, hrest⟩ := List.pairwise_cons.mp hapart
      have hstop := hforward label List.mem_cons_self
      have hlater : ∀ edge ∈ spanEdges stop rest, time (stop label) ≤ time edge.label := by
        intro edge hedge
        obtain ⟨other, hother, hmem⟩ := List.mem_flatMap.mp hedge
        have hle := hfirst other hother
        rcases List.mem_cons.mp hmem with rfl | hmem
        · exact hle
        · obtain rfl := List.mem_singleton.mp hmem
          exact hle.trans (hforward other (List.mem_cons_of_mem _ hother))
      have htail := ih (fun other hother => hforward other (List.mem_cons_of_mem _ hother)) hrest
      apply List.pairwise_cons.mpr
      refine ⟨?_, List.pairwise_cons.mpr ⟨hlater, htail⟩⟩
      intro edge hedge
      rcases List.mem_cons.mp hedge with rfl | hedge
      · exact hstop
      · exact hstop.trans (hlater edge hedge)

/-- So each of them is a slice. -/
theorem lasts_of_apart (hforward : ∀ label ∈ labels, time label ≤ time (stop label))
    (hapart : labels.Pairwise fun first second => time (stop first) ≤ time second)
    {slice : Slice Label} (hslice : slice ∈ slices time (spanEdges stop labels)) :
    slice.Lasts time stop := by
  rw [slices, arrange, (pairwise_spanEdges hforward hapart).insertionSort_eq,
    slicesFrom_spanEdges] at hslice
  obtain ⟨label, -, rfl⟩ := List.mem_map.mp hslice
  exact ⟨stop label, rfl, rfl⟩

/-- A span that is a slice ends after it begins. -/
theorem le_stop_of_lasts (hlasts : ∀ slice ∈ slices time (spanEdges stop labels),
    slice.Lasts time stop) {label : Label} (hlabel : label ∈ labels) :
    time label ≤ time (stop label) := by
  obtain ⟨slice, hslice, rfl⟩ := exists_mem_slices_spanEdges time stop hlabel
  obtain ⟨last, hclosed, hlast⟩ := hlasts slice hslice
  exact ((openBefore_arrange _).opened_le_closed hslice hclosed).trans hlast.le

/-- Spans that are all slices do not overlap, unless one is inside the other. -/
theorem apart_or_inside_of_lasts (hlasts : ∀ slice ∈ slices time (spanEdges stop labels),
    slice.Lasts time stop) {first second : Label} (hfirst : first ∈ labels)
    (hsecond : second ∈ labels) (hlt : time first < time second) :
    time (stop first) ≤ time second ∨ time (stop second) ≤ time (stop first) := by
  obtain ⟨outer, houter, rfl⟩ := exists_mem_slices_spanEdges time stop hfirst
  obtain ⟨inner, hinner, rfl⟩ := exists_mem_slices_spanEdges time stop hsecond
  obtain ⟨last, hclosed, hlast⟩ := hlasts outer houter
  obtain ⟨last', hclosed', hlast'⟩ := hlasts inner hinner
  rcases le_or_gt (time last) (time inner.opened) with hle | hinside
  · exact Or.inl (hlast ▸ hle)
  · obtain ⟨other, hother, hle⟩ :=
      (openBefore_arrange _).closed_le_closed houter hinner hclosed hlt hinside
    obtain rfl := Option.some.inj (hclosed'.symm.trans hother)
    exact Or.inr (hlast ▸ hlast' ▸ hle)

end Order

end Foundation.TimedBrackets
