import Mathlib.Data.List.Nodup
import SchedAnalyzer.Foundation.Transducer

/-! # Nested calls under a recorder that loses marks

Calls begin and end in a nested way on each track, and a recorder keeps some of
the marks. A viewer sees the marks only: a begin opens a slice, an end closes
the innermost open slice of its track. The viewer is right about an end exactly
when the begin of the same call was recorded and no call inside it was left
open.
-/

namespace Foundation.LossyBrackets

universe uTrack uLabel

/-- A call, told apart from all others by its number. -/
structure Tag (Label : Type uLabel) where
  id : Nat
  label : Label
  deriving DecidableEq, Repr

/-- A recorded mark, with the call it belongs to. -/
inductive Mark (Track : Type uTrack) (Label : Type uLabel)
  | opened (track : Track) (tag : Tag Label)
  | closed (track : Track) (tag : Tag Label)
  deriving DecidableEq, Repr

variable {Track : Type uTrack} {Label : Type uLabel}

/-- Every end closes the slice of its own call. -/
def Matched [DecidableEq Track] : (Track → List (Tag Label)) → List (Mark Track Label) → Prop
  | _, [] => True
  | slices, .opened track tag :: rest =>
      Matched (Function.update slices track (tag :: slices track)) rest
  | slices, .closed track tag :: rest =>
      (slices track).head? = some tag ∧
        Matched (Function.update slices track (slices track).tail) rest

/-- What is closed was open at the start or has been opened before. -/
theorem Matched.opened_before [DecidableEq Track] {slices : Track → List (Tag Label)}
    {before after : List (Mark Track Label)} {track : Track} {tag : Tag Label}
    (hmatched : Matched slices (before ++ .closed track tag :: after)) :
    tag ∈ slices track ∨ .opened track tag ∈ before := by
  induction before generalizing slices with
  | nil => exact Or.inl (List.mem_of_head? hmatched.1)
  | cons mark rest ih =>
      -- A mark of another track does not change what is open on this one.
      cases mark with
      | opened other first =>
          rcases ih hmatched with hopen | hrest
          · by_cases heq : track = other
            · subst heq
              rw [Function.update_self, List.mem_cons] at hopen
              rcases hopen with rfl | hopen
              · exact Or.inr List.mem_cons_self
              · exact Or.inl hopen
            · rw [Function.update_of_ne heq] at hopen
              exact Or.inl hopen
          · exact Or.inr (List.mem_cons_of_mem _ hrest)
      | closed other first =>
          rcases ih hmatched.2 with hopen | hrest
          · by_cases heq : track = other
            · subst heq
              rw [Function.update_self] at hopen
              exact Or.inl (List.mem_of_mem_tail hopen)
            · rw [Function.update_of_ne heq] at hopen
              exact Or.inl hopen
          · exact Or.inr (List.mem_cons_of_mem _ hrest)

/-- A call that has begun and not ended. `left` are the calls inside it whose
begin was recorded and whose end was not. -/
structure Call (Label : Type uLabel) where
  tag : Tag Label
  recorded : Bool
  left : List (Tag Label)
  deriving DecidableEq, Repr

namespace Call

variable (call : Call Label)

/-- The slices a call and those inside it keep open. -/
def slices : List (Tag Label) :=
  call.left ++ if call.recorded then [call.tag] else []

/-- The call with those left open inside it. -/
def tags : List (Tag Label) :=
  call.left ++ [call.tag]

theorem slices_sublist_tags : call.slices.Sublist call.tags := by
  apply List.Sublist.append_left
  split
  · exact List.Sublist.refl _
  · exact List.nil_sublist _

/-- The slices that a call leaves open when it ends. -/
def leaves (recorded : Bool) : List (Tag Label) :=
  if recorded then call.left else call.slices

theorem leaves_sublist_tags (recorded : Bool) : (call.leaves recorded).Sublist call.tags := by
  cases recorded with
  | true => exact List.sublist_append_left _ _
  | false => exact call.slices_sublist_tags

end Call

/-- What happened on one track: the calls that have not ended, innermost first,
and the slices left open outside of them. -/
structure TrackHistory (Label : Type uLabel) where
  calls : List (Call Label)
  left : List (Tag Label)
  deriving DecidableEq, Repr

namespace TrackHistory

variable (history : TrackHistory Label)

/-- The slices the viewer has open, if it was right so far. -/
def slices : List (Tag Label) :=
  history.calls.flatMap Call.slices ++ history.left

/-- Every call the history knows. -/
def tags : List (Tag Label) :=
  history.calls.flatMap Call.tags ++ history.left

theorem slices_cons (call : Call Label) (outer : List (Call Label)) (left : List (Tag Label)) :
    (⟨call :: outer, left⟩ : TrackHistory Label).slices =
      call.slices ++ (⟨outer, left⟩ : TrackHistory Label).slices := by
  simp [slices]

theorem tags_cons (call : Call Label) (outer : List (Call Label)) (left : List (Tag Label)) :
    (⟨call :: outer, left⟩ : TrackHistory Label).tags =
      call.tags ++ (⟨outer, left⟩ : TrackHistory Label).tags := by
  simp [tags]

theorem slices_sublist_tags : history.slices.Sublist history.tags := by
  apply List.Sublist.append_right
  induction history.calls with
  | nil => exact List.Sublist.refl _
  | cons call rest ih =>
      rw [List.flatMap_cons, List.flatMap_cons]
      exact List.Sublist.append call.slices_sublist_tags ih

/-- Slices left open are inside of the innermost call. -/
def addLeft (open_ : List (Tag Label)) : TrackHistory Label → TrackHistory Label
  | ⟨[], left⟩ => ⟨[], open_ ++ left⟩
  | ⟨call :: outer, left⟩ => ⟨{ call with left := open_ ++ call.left } :: outer, left⟩

@[simp] theorem slices_addLeft (open_ : List (Tag Label)) :
    (history.addLeft open_).slices = open_ ++ history.slices := by
  rcases history with ⟨_ | ⟨call, outer⟩, left⟩
  · simp [addLeft, slices]
  · simp [addLeft, slices, Call.slices]

@[simp] theorem tags_addLeft (open_ : List (Tag Label)) :
    (history.addLeft open_).tags = open_ ++ history.tags := by
  rcases history with ⟨_ | ⟨call, outer⟩, left⟩
  · simp [addLeft, tags]
  · simp [addLeft, tags, Call.tags]

/-- A call begins. -/
def enter (tag : Tag Label) (recorded : Bool) : TrackHistory Label :=
  { history with calls := ⟨tag, recorded, []⟩ :: history.calls }

/-- The innermost call ends. -/
def leave (recorded : Bool) : TrackHistory Label → TrackHistory Label
  | ⟨[], left⟩ => ⟨[], left⟩
  | ⟨call :: outer, left⟩ => addLeft (call.leaves recorded) ⟨outer, left⟩

theorem slices_enter (tag : Tag Label) (recorded : Bool) :
    (history.enter tag recorded).slices =
      if recorded then tag :: history.slices else history.slices := by
  cases recorded <;> simp [enter, slices, Call.slices]

theorem tags_enter (tag : Tag Label) (recorded : Bool) :
    (history.enter tag recorded).tags = tag :: history.tags := by
  simp [enter, tags, Call.tags]

/-- An end that is not recorded leaves the viewer as it was. -/
theorem slices_leave_lost : (history.leave false).slices = history.slices := by
  rcases history with ⟨_ | ⟨call, outer⟩, left⟩
  · rfl
  · rw [leave, slices_addLeft, slices_cons]
    rfl

theorem tags_leave_sublist (recorded : Bool) :
    (history.leave recorded).tags.Sublist history.tags := by
  rcases history with ⟨_ | ⟨call, outer⟩, left⟩
  · exact List.Sublist.refl _
  · rw [leave, tags_addLeft, tags_cons]
    exact (call.leaves_sublist_tags recorded).append_right _

/-- An end may be recorded: the begin was, and nothing inside is left open. -/
def Sound : Prop :=
  ∀ call, history.calls.head? = some call → call.recorded = true ∧ call.left = []

theorem slices_leave_sound {history : TrackHistory Label} (hsound : history.Sound)
    (hcalls : history.calls ≠ []) : (history.leave true).slices = history.slices.tail := by
  rcases history with ⟨_ | ⟨call, outer⟩, left⟩
  · exact absurd rfl hcalls
  · obtain ⟨hrecorded, hleft⟩ := hsound call rfl
    rw [leave, slices_addLeft, slices_cons]
    simp [Call.leaves, Call.slices, hleft, hrecorded]

/-- The viewer is right about the end of the innermost call exactly when it is sound. -/
theorem head?_slices_iff {history : TrackHistory Label} {call : Call Label}
    (hcall : history.calls.head? = some call) (hnodup : history.tags.Nodup) :
    history.slices.head? = some call.tag ↔ history.Sound := by
  rcases history with ⟨_ | ⟨first, outer⟩, left⟩
  · exact absurd hcall (by simp)
  · simp only [List.head?_cons, Option.some.injEq] at hcall
    subst hcall
    rw [tags_cons, Call.tags, List.append_assoc] at hnodup
    obtain ⟨-, houter, hdisjoint⟩ := List.nodup_append.mp hnodup
    constructor
    · intro hhead other hother
      simp only [List.head?_cons, Option.some.injEq] at hother
      subst hother
      -- A slice in front of the call's own would be another call with its tag.
      have hleft : first.left = [] := by
        cases hleft : first.left with
        | nil => rfl
        | cons tag rest =>
            rw [slices_cons, Call.slices, hleft] at hhead
            simp only [List.cons_append, List.head?_cons, Option.some.injEq] at hhead
            rw [hleft] at hdisjoint
            exact absurd hhead (hdisjoint tag List.mem_cons_self _ List.mem_cons_self)
      refine ⟨?_, hleft⟩
      by_contra hrecorded
      rw [slices_cons, Call.slices, hleft, if_neg hrecorded] at hhead
      have hmem := List.mem_of_head? hhead
      exact (List.nodup_cons.mp houter).1 ((slices_sublist_tags _).mem hmem)
    · intro hsound
      obtain ⟨hrecorded, hleft⟩ := hsound first rfl
      simp [slices_cons, Call.slices, hrecorded, hleft]

end TrackHistory

/-! ## All tracks -/

/-- The beginning or end of a call, and whether its mark is recorded. -/
structure Action (Track : Type uTrack) (Label : Type uLabel) where
  track : Track
  label : Label
  entry : Bool
  recorded : Bool
  deriving DecidableEq, Repr

/-- The histories of the tracks, and the number of the next call. -/
structure History (Track : Type uTrack) (Label : Type uLabel) where
  next : Nat
  tracks : Track → TrackHistory Label

namespace History

/-- No call was made. -/
def empty : History Track Label where
  next := 0
  tracks _ := ⟨[], []⟩

variable (history : History Track Label)

/-- The call an action is about: a new one, or the innermost one of its track. -/
def tagOf (action : Action Track Label) : Tag Label :=
  if action.entry then ⟨history.next, action.label⟩
  else
    match (history.tracks action.track).calls.head? with
    | some call => ⟨call.tag.id, action.label⟩
    | none => ⟨history.next, action.label⟩

/-- The mark an action leaves in the recording. -/
def marks (action : Action Track Label) : List (Mark Track Label) :=
  if action.recorded then
    [if action.entry then .opened action.track (history.tagOf action)
      else .closed action.track (history.tagOf action)]
  else []

/-- The slices the viewer has open, if it was right so far. -/
def slices (track : Track) : List (Tag Label) :=
  (history.tracks track).slices

/-- An end is that of the innermost call of its track. -/
def Nested (action : Action Track Label) : Prop :=
  action.entry = false →
    ∃ call, (history.tracks action.track).calls.head? = some call ∧
      call.tag.label = action.label

/-- A recorded end may be shown. -/
def Sound (action : Action Track Label) : Prop :=
  action.entry = false → action.recorded = true → (history.tracks action.track).Sound

instance decidableNested [DecidableEq Label] (action : Action Track Label) :
    Decidable (history.Nested action) :=
  decidable_of_iff (action.entry = true ∨
      ((history.tracks action.track).calls.head?.any
        fun call => call.tag.label == action.label) = true) (by
    cases hentry : action.entry <;>
      cases hhead : (history.tracks action.track).calls.head? <;> simp [Nested, hentry, hhead])

instance decidableSound [DecidableEq Label] (action : Action Track Label) :
    Decidable (history.Sound action) :=
  decidable_of_iff (action.entry = true ∨ action.recorded = false ∨
      ((history.tracks action.track).calls.head?.all
        fun call => call.recorded && call.left == []) = true) (by
    cases hentry : action.entry <;> cases hrecorded : action.recorded <;>
      cases hhead : (history.tracks action.track).calls.head? <;>
        simp [Sound, TrackHistory.Sound, hentry, hrecorded, hhead])

/-- The calls of a track are different ones and have been made before. -/
structure Valid : Prop where
  nodup : ∀ track, (history.tracks track).tags.Nodup
  old : ∀ track, ∀ tag ∈ (history.tracks track).tags, tag.id < history.next

theorem Valid.empty : (History.empty : History Track Label).Valid where
  nodup _ := List.nodup_nil
  old _ _ hmem := absurd hmem List.not_mem_nil

variable [DecidableEq Track]

/-- The histories after an action. -/
def act (action : Action Track Label) : History Track Label :=
  if action.entry then
    { next := history.next + 1
      tracks := Function.update history.tracks action.track
        ((history.tracks action.track).enter (history.tagOf action) action.recorded) }
  else
    { history with
      tracks := Function.update history.tracks action.track
        ((history.tracks action.track).leave action.recorded) }

theorem tracks_act_entry {action : Action Track Label} (hentry : action.entry = true) :
    (history.act action).tracks = Function.update history.tracks action.track
      ((history.tracks action.track).enter ⟨history.next, action.label⟩ action.recorded) := by
  simp [act, tagOf, hentry]

theorem next_act_entry {action : Action Track Label} (hentry : action.entry = true) :
    (history.act action).next = history.next + 1 := by
  simp [act, hentry]

theorem tracks_act_exit {action : Action Track Label} (hentry : action.entry = false) :
    (history.act action).tracks = Function.update history.tracks action.track
      ((history.tracks action.track).leave action.recorded) := by
  simp [act, hentry]

theorem next_act_exit {action : Action Track Label} (hentry : action.entry = false) :
    (history.act action).next = history.next := by
  simp [act, hentry]

/-- A new call has a number of its own. -/
theorem Valid.act_entry {history : History Track Label} (hvalid : history.Valid)
    {action : Action Track Label} (hentry : action.entry = true) :
    (history.act action).Valid := by
  constructor
  · intro track
    rw [history.tracks_act_entry hentry]
    by_cases heq : track = action.track
    · subst heq
      rw [Function.update_self, TrackHistory.tags_enter, List.nodup_cons]
      refine ⟨fun hmem => ?_, hvalid.nodup _⟩
      exact Nat.lt_irrefl _ (hvalid.old _ _ hmem)
    · rw [Function.update_of_ne heq]
      exact hvalid.nodup track
  · intro track tag hmem
    rw [history.tracks_act_entry hentry] at hmem
    rw [history.next_act_entry hentry]
    by_cases heq : track = action.track
    · subst heq
      rw [Function.update_self, TrackHistory.tags_enter, List.mem_cons] at hmem
      rcases hmem with rfl | hmem
      · exact Nat.lt_succ_self _
      · exact Nat.lt_succ_of_lt (hvalid.old _ tag hmem)
    · rw [Function.update_of_ne heq] at hmem
      exact Nat.lt_succ_of_lt (hvalid.old track tag hmem)

/-- An end forgets the call and at most moves what it left open. -/
theorem Valid.act_exit {history : History Track Label} (hvalid : history.Valid)
    {action : Action Track Label} (hentry : action.entry = false) :
    (history.act action).Valid := by
  have hsub : ∀ track, ((history.act action).tracks track).tags.Sublist
      (history.tracks track).tags := by
    intro track
    rw [history.tracks_act_exit hentry]
    by_cases heq : track = action.track
    · subst heq
      rw [Function.update_self]
      exact TrackHistory.tags_leave_sublist _ _
    · rw [Function.update_of_ne heq]
  constructor
  · intro track
    exact (hvalid.nodup track).sublist (hsub track)
  · intro track tag hmem
    rw [history.next_act_exit hentry]
    exact hvalid.old track tag ((hsub track).mem hmem)

theorem Valid.act {history : History Track Label} (hvalid : history.Valid)
    (action : Action Track Label) : (history.act action).Valid := by
  cases hentry : action.entry with
  | true => exact hvalid.act_entry hentry
  | false => exact hvalid.act_exit hentry

theorem slices_act_entry {action : Action Track Label} (hentry : action.entry = true) :
    (history.act action).slices =
      if action.recorded then
        Function.update history.slices action.track
          (history.tagOf action :: history.slices action.track)
      else history.slices := by
  funext track
  simp only [slices, act, hentry, if_true]
  by_cases heq : track = action.track
  · subst heq
    rw [Function.update_self, TrackHistory.slices_enter]
    cases action.recorded <;> simp [slices]
  · rw [Function.update_of_ne heq]
    cases action.recorded <;> simp [slices, Function.update_of_ne heq]

theorem slices_act_lost {action : Action Track Label} (hentry : action.entry = false)
    (hrecorded : action.recorded = false) : (history.act action).slices = history.slices := by
  funext track
  simp only [slices, act, hentry, hrecorded, Bool.false_eq_true, if_false]
  by_cases heq : track = action.track
  · subst heq
    rw [Function.update_self, TrackHistory.slices_leave_lost]
  · rw [Function.update_of_ne heq]

theorem slices_act_exit {history : History Track Label} {action : Action Track Label}
    (hnested : history.Nested action) (hentry : action.entry = false)
    (hrecorded : action.recorded = true) (hsound : (history.tracks action.track).Sound) :
    (history.act action).slices =
      Function.update history.slices action.track (history.slices action.track).tail := by
  obtain ⟨call, hcall, -⟩ := hnested hentry
  have hcalls : (history.tracks action.track).calls ≠ [] := by
    intro hnil
    rw [hnil] at hcall
    exact absurd hcall (by simp)
  funext track
  simp only [slices, act, hentry, hrecorded, Bool.false_eq_true, if_false]
  by_cases heq : track = action.track
  · subst heq
    rw [Function.update_self, Function.update_self,
      TrackHistory.slices_leave_sound hsound hcalls]
  · rw [Function.update_of_ne heq, Function.update_of_ne heq]
    rfl

/-- The viewer is right about what an action records, and about the rest,
exactly when the action is sound and the viewer is right about the rest. -/
theorem matched_act_iff {history : History Track Label} {action : Action Track Label}
    (hvalid : history.Valid) (hnested : history.Nested action)
    (rest : List (Mark Track Label)) :
    Matched history.slices (history.marks action ++ rest) ↔
      history.Sound action ∧ Matched (history.act action).slices rest := by
  cases hentry : action.entry with
  | true =>
      have hsound : history.Sound action := by
        intro hexit
        rw [hentry] at hexit
        exact Bool.noConfusion hexit
      rw [slices_act_entry history hentry]
      simp only [hsound, true_and, marks, hentry, if_true]
      cases action.recorded <;> rfl
  | false =>
      cases hrecorded : action.recorded with
      | false =>
          have hsound : history.Sound action := by
            intro _ hmark
            rw [hrecorded] at hmark
            exact Bool.noConfusion hmark
          rw [slices_act_lost history hentry hrecorded]
          simp [hsound, marks, hrecorded]
      | true =>
          -- The only mark that can be wrong: its tag must be on top of the open slices.
          obtain ⟨call, hcall, hlabel⟩ := hnested hentry
          have htag : history.tagOf action = call.tag := by
            simp [tagOf, hentry, hcall, ← hlabel]
          have hright := TrackHistory.head?_slices_iff hcall (hvalid.nodup action.track)
          have hsound_iff : history.Sound action ↔ (history.tracks action.track).Sound :=
            ⟨fun hsound => hsound hentry hrecorded, fun hsound _ _ => hsound⟩
          simp only [marks, hrecorded, hentry, if_true, Bool.false_eq_true, if_false,
            List.singleton_append, Matched, htag]
          rw [hsound_iff, ← hright]
          constructor
          · rintro ⟨hhead, hrest⟩
            rw [slices_act_exit hnested hentry hrecorded (hright.mp hhead)]
            exact ⟨hhead, hrest⟩
          · rintro ⟨hhead, hrest⟩
            rw [slices_act_exit hnested hentry hrecorded (hright.mp hhead)] at hrest
            exact ⟨hhead, hrest⟩

end History

end Foundation.LossyBrackets
