import Mathlib.Data.List.TakeWhile
import SchedAnalyzer.User.MainRun

/-! # What clean-up waits for

The loop of an event thread ends when `exiting` is set, which only the signal
handler does. Clean-up joins the threads that were created, whether it is reached
from the end of the collection or from a creation that failed.
-/

namespace SchedAnalyzer

open Foundation.LabelledSteps

/-! ## What joins and signals have to do with each other -/

/-- Whenever `main` waits for a thread, the thread has been told to stop. -/
def JoinsToldThreads (history : List MainEvent) : Prop :=
  ∀ before, before <+: history → ∀ s thread, mainRun before = some s →
    s.point = .joining thread → s.exiting = true

/-- What happened before the first `DESTROY_EVENT_THREAD`. -/
def beforeCleanup (history : List MainEvent) : List MainEvent :=
  history.takeWhile fun event => event != .destroys

/-- The creation of a thread failed. -/
def CreationFails (history : List MainEvent) : Prop :=
  ∃ result, result ≠ 0 ∧ .created result ∈ history

/-- When one thread was created and a later one was not, a signal arrives before
the clean-up begins. -/
def SignalledInTime (history : List MainEvent) : Prop :=
  .destroys ∈ history → .created 0 ∈ beforeCleanup history →
    CreationFails (beforeCleanup history) → .signal ∈ beforeCleanup history

/-! ## The time before clean-up -/

theorem beforeCleanup_eq_self {history : List MainEvent} (hnone : .destroys ∉ history) :
    beforeCleanup history = history := by
  apply List.takeWhile_eq_self_iff.mpr
  intro event hevent
  exact bne_iff_ne.mpr fun heq => hnone (heq ▸ hevent)

theorem destroys_notMem_beforeCleanup (history : List MainEvent) :
    .destroys ∉ beforeCleanup history := by
  intro hmem
  have htrue := List.mem_takeWhile_imp hmem
  exact bne_iff_ne.mp htrue rfl

theorem beforeCleanup_append_of_mem {first : List MainEvent} (hmem : .destroys ∈ first)
    (second : List MainEvent) : beforeCleanup (first ++ second) = beforeCleanup first := by
  rw [beforeCleanup, List.takeWhile_append, if_neg, beforeCleanup]
  intro hlen
  have hself : beforeCleanup first = first := (List.takeWhile_prefix _).eq_of_length hlen
  exact destroys_notMem_beforeCleanup first (hself.symm ▸ hmem)

/-- The first `DESTROY_EVENT_THREAD` comes right after what was before it. -/
theorem exists_beforeCleanup_append {history : List MainEvent} (hmem : .destroys ∈ history) :
    ∃ rest, history = beforeCleanup history ++ .destroys :: rest := by
  induction history with
  | nil => exact absurd hmem List.not_mem_nil
  | cons event tail ih =>
      by_cases heq : event = .destroys
      · subst heq
        exact ⟨tail, rfl⟩
      · obtain ⟨rest, hrest⟩ := ih ((List.mem_cons.mp hmem).resolve_left (Ne.symm heq))
        have hkeep : (event != .destroys) = true := bne_iff_ne.mpr heq
        refine ⟨rest, ?_⟩
        rw [beforeCleanup, List.takeWhile_cons, if_pos hkeep, List.cons_append]
        exact congrArg _ hrest

/-- One more event. -/
theorem mem_beforeCleanup_concat {history : List MainEvent} {event other : MainEvent}
    (hne : other ≠ event) :
    other ∈ beforeCleanup (history ++ [event]) ↔ other ∈ beforeCleanup history := by
  by_cases hmem : .destroys ∈ history
  · rw [beforeCleanup_append_of_mem hmem]
  · rw [beforeCleanup_eq_self hmem, beforeCleanup, List.takeWhile_append_of_pos]
    · rw [List.mem_append, or_iff_left]
      intro hlast
      exact hne (List.mem_singleton.mp ((List.takeWhile_prefix _).subset hlast))
    · intro event hevent
      exact bne_iff_ne.mpr fun heq => hmem (heq ▸ hevent)

theorem beforeCleanup_subset (history : List MainEvent) : beforeCleanup history ⊆ history :=
  (List.takeWhile_prefix _).subset

theorem beforeCleanup_subset_concat (history : List MainEvent) (event : MainEvent) :
    beforeCleanup history ⊆ beforeCleanup (history ++ [event]) := by
  by_cases hmem : .destroys ∈ history
  · rw [beforeCleanup_append_of_mem hmem]
    exact List.Subset.refl _
  · intro other hother
    have hne : other ≠ .destroys := fun heq => destroys_notMem_beforeCleanup _ (heq ▸ hother)
    by_cases heq : other = event
    · have hnone : .destroys ∉ history ++ [event] := by
        rw [List.mem_append, List.mem_singleton, not_or]
        exact ⟨hmem, fun hlast => hne (heq.trans hlast.symm)⟩
      rw [beforeCleanup_eq_self hnone]
      exact List.mem_append_left _ (beforeCleanup_subset _ hother)
    · exact (mem_beforeCleanup_concat heq).mpr hother

/-! ## What is known at each point -/

/-- The flag tells whether a signal arrived. -/
theorem exiting_iff {history : List MainEvent} {s : MainState} (hrun : mainRun history = some s) :
    s.exiting = true ↔ .signal ∈ history := by
  apply run_invariant (fun done s => s.exiting = true ↔ .signal ∈ done) _ _ hrun
  · exact iff_of_false Bool.noConfusion List.not_mem_nil
  · intro done s event next _ hs hstep
    have hsteps := stepsMain hstep
    rw [List.mem_append, List.mem_singleton, ← hs]
    cases hsteps with
    | signal => exact iff_of_true rfl (Or.inr rfl)
    | _ => exact (or_iff_left MainEvent.noConfusion).symm

/-- No thread was created. -/
def NoneCreated (history : List MainEvent) (s : MainState) : Prop :=
  .created 0 ∉ beforeCleanup history ∧ ∀ thread, s.threadErr thread ≠ 0

/-- The first thread was created. -/
def FirstCreated (history : List MainEvent) (s : MainState) : Prop :=
  .created 0 ∈ beforeCleanup history ∧ s.threadErr .rqPelt = 0

/-- The clean-up has a reason other than a failure to load or attach. -/
def StopsLate (history : List MainEvent) : Prop :=
  .signal ∈ beforeCleanup history ∨ CreationFails (beforeCleanup history)

/-- What is known at each point about the threads that were created, and about the
reason for the clean-up. -/
def KnowsThreads (history : List MainEvent) (s : MainState) : Prop :=
  match s.point with
  | .load | .attach | .create .rqPelt => .destroys ∉ history ∧ NoneCreated history s
  | .create _ | .collect => .destroys ∉ history ∧ FirstCreated history s
  | .destroy thread => (.destroys ∉ history → thread = .rqPelt) ∧
      (NoneCreated history s ∨ FirstCreated history s ∧ StopsLate history)
  | .joining _ => .destroys ∈ history ∧ FirstCreated history s ∧ StopsLate history
  | .returned _ => True

section Concat

variable {history : List MainEvent} {s next : MainState} {event : MainEvent}

theorem NoneCreated.concat (hs : NoneCreated history s) (hevent : .created 0 ≠ event)
    (herr : next.threadErr = s.threadErr) : NoneCreated (history ++ [event]) next := by
  refine ⟨mt (mem_beforeCleanup_concat hevent).mp hs.1, ?_⟩
  rw [herr]
  exact hs.2

theorem FirstCreated.concat (hs : FirstCreated history s)
    (herr : next.threadErr .rqPelt = s.threadErr .rqPelt) :
    FirstCreated (history ++ [event]) next :=
  ⟨beforeCleanup_subset_concat history event hs.1, herr.trans hs.2⟩

theorem StopsLate.concat (hhistory : StopsLate history) : StopsLate (history ++ [event]) := by
  have hsubset := beforeCleanup_subset_concat history event
  rcases hhistory with hsignal | ⟨result, hfails, hcreated⟩
  · exact Or.inl (hsubset hsignal)
  · exact Or.inr ⟨result, hfails, hsubset hcreated⟩

/-- Before the clean-up every event is kept. -/
theorem mem_beforeCleanup_concat_self (hnone : .destroys ∉ history) (hevent : .destroys ≠ event) :
    event ∈ beforeCleanup (history ++ [event]) := by
  rw [beforeCleanup_eq_self]
  · exact List.mem_append_right _ (List.mem_singleton.mpr rfl)
  · rw [List.mem_append, List.mem_singleton, not_or]
    exact ⟨hnone, hevent⟩

theorem destroys_notMem_concat (hnone : .destroys ∉ history) (hevent : .destroys ≠ event) :
    .destroys ∉ history ++ [event] := by
  rw [List.mem_append, List.mem_singleton, not_or]
  exact ⟨hnone, hevent⟩

theorem destroys_mem_concat (hmem : .destroys ∈ history) : .destroys ∈ history ++ [event] :=
  List.mem_append_left _ hmem

/-- An event that is no step of `main`, or one that leads nowhere. -/
theorem KnowsThreads.keep (hs : KnowsThreads history s) (hpoint : next.point = s.point)
    (herr : next.threadErr = s.threadErr) (hcreated : .created 0 ≠ event)
    (hdestroys : .destroys ≠ event) : KnowsThreads (history ++ [event]) next := by
  have hfirst := congrFun herr .rqPelt
  unfold KnowsThreads at hs ⊢
  rw [hpoint]
  split at hs
  · exact ⟨destroys_notMem_concat hs.1 hdestroys, hs.2.concat hcreated herr⟩
  · exact ⟨destroys_notMem_concat hs.1 hdestroys, hs.2.concat hcreated herr⟩
  · exact ⟨destroys_notMem_concat hs.1 hdestroys, hs.2.concat hcreated herr⟩
  · exact ⟨destroys_notMem_concat hs.1 hdestroys, hs.2.concat hfirst⟩
  · exact ⟨destroys_notMem_concat hs.1 hdestroys, hs.2.concat hfirst⟩
  · refine ⟨fun hnone => hs.1 fun hmem => hnone (destroys_mem_concat hmem), ?_⟩
    exact hs.2.imp (fun hnone => hnone.concat hcreated herr)
      fun hlate => ⟨hlate.1.concat hfirst, hlate.2.concat⟩
  · exact ⟨destroys_mem_concat hs.1, hs.2.1.concat hfirst, hs.2.2.concat⟩
  · trivial

/-- The threads before the one that is created next. -/
theorem KnowsThreads.creating (hs : KnowsThreads history s) {thread : EventThread}
    (hpoint : s.point = .create thread) :
    .destroys ∉ history ∧ (thread = .rqPelt ∧ NoneCreated history s ∨
      thread ≠ .rqPelt ∧ FirstCreated history s) := by
  rw [KnowsThreads, hpoint] at hs
  cases thread
  case rqPelt => exact ⟨hs.1, Or.inl ⟨rfl, hs.2⟩⟩
  all_goals exact ⟨hs.1, Or.inr ⟨EventThread.noConfusion, hs.2⟩⟩

/-- From `DESTROY_EVENT_THREAD` on. -/
theorem KnowsThreads.destroyed (hmem : .destroys ∈ history ++ [event])
    (hreason : NoneCreated (history ++ [event]) s ∨
      FirstCreated (history ++ [event]) s ∧ StopsLate (history ++ [event]))
    (thread : EventThread) (err : Int32) :
    KnowsThreads (history ++ [event]) (s.destroyed thread err) := by
  have hfirst : ∀ thread : EventThread, .destroys ∉ history ++ [event] → thread = .rqPelt :=
    fun _ hnone => absurd hmem hnone
  cases thread
  case ipi => trivial
  all_goals exact ⟨hfirst _, hreason⟩

end Concat

theorem KnowsThreads.step {history : List MainEvent} {s next : MainState} {event : MainEvent}
    (hs : KnowsThreads history s) (hsignal : s.exiting = true → .signal ∈ history)
    (hstep : mainStep s event = some next) : KnowsThreads (history ++ [event]) next := by
  have hsteps := stepsMain hstep
  cases hsteps with
  | signal => exact hs.keep rfl rfl MainEvent.noConfusion MainEvent.noConfusion
  | ringBuffer => exact hs.keep rfl rfl MainEvent.noConfusion MainEvent.noConfusion
  | threadSleeps => exact hs.keep rfl rfl MainEvent.noConfusion MainEvent.noConfusion
  | threadStops => exact hs.keep rfl rfl MainEvent.noConfusion MainEvent.noConfusion
  | sleeps => exact hs.keep rfl rfl MainEvent.noConfusion MainEvent.noConfusion
  | loads hpoint =>
      rw [KnowsThreads, hpoint] at hs
      exact ⟨destroys_notMem_concat hs.1 MainEvent.noConfusion,
        hs.2.concat MainEvent.noConfusion rfl⟩
  | attaches hpoint =>
      rw [KnowsThreads, hpoint] at hs
      exact ⟨destroys_notMem_concat hs.1 MainEvent.noConfusion,
        hs.2.concat MainEvent.noConfusion rfl⟩
  | loadFails hpoint _ =>
      rw [KnowsThreads, hpoint] at hs
      exact ⟨fun _ => rfl, Or.inl (hs.2.concat MainEvent.noConfusion rfl)⟩
  | attachFails hpoint _ =>
      rw [KnowsThreads, hpoint] at hs
      exact ⟨fun _ => rfl, Or.inl (hs.2.concat MainEvent.noConfusion rfl)⟩
  | @creates thread hpoint =>
      obtain ⟨hnone, hthread⟩ := hs.creating hpoint
      have hfirst : FirstCreated (history ++ [.created 0]) { s with
          threadErr := Function.update s.threadErr thread 0
          threads := Function.update s.threads thread .started
          point := (thread.next?.map MainPoint.create).getD .collect } := by
        rcases hthread with ⟨rfl, -⟩ | ⟨hne, hfirst⟩
        · exact ⟨mem_beforeCleanup_concat_self hnone MainEvent.noConfusion,
            Function.update_self EventThread.rqPelt 0 s.threadErr⟩
        · exact hfirst.concat (Function.update_of_ne (Ne.symm hne) _ _)
      cases thread <;> exact ⟨destroys_notMem_concat hnone MainEvent.noConfusion, hfirst⟩
  | @createFails thread result hpoint hfails =>
      obtain ⟨hnone, hthread⟩ := hs.creating hpoint
      have hevent : MainEvent.created 0 ≠ .created result := fun heq =>
        hfails (MainEvent.created.inj heq).symm
      refine ⟨fun _ => rfl, ?_⟩
      rcases hthread with ⟨-, hnothing⟩ | ⟨hne, hfirst⟩
      · refine Or.inl ⟨mt (mem_beforeCleanup_concat hevent).mp hnothing.1, ?_⟩
        intro other
        by_cases heq : other = thread
        · subst heq
          exact (Function.update_self other result s.threadErr).trans_ne hfails
        · exact (Function.update_of_ne heq result s.threadErr).trans_ne (hnothing.2 other)
      · refine Or.inr ⟨hfirst.concat (Function.update_of_ne (Ne.symm hne) _ _), Or.inr ?_⟩
        exact ⟨result, hfails, mem_beforeCleanup_concat_self hnone MainEvent.noConfusion⟩
  | stops hpoint hexiting =>
      rw [KnowsThreads, hpoint] at hs
      have hbefore := (beforeCleanup_eq_self hs.1).symm ▸ hsignal hexiting
      exact ⟨fun _ => rfl, Or.inr ⟨hs.2.concat rfl, StopsLate.concat (Or.inl hbefore)⟩⟩
  | @skips thread hpoint herr =>
      rw [KnowsThreads, hpoint] at hs
      apply KnowsThreads.destroyed (List.mem_append_right _ (List.mem_singleton.mpr rfl))
      exact hs.2.imp (fun hnone => hnone.concat MainEvent.noConfusion rfl)
        fun hlate => ⟨hlate.1.concat rfl, hlate.2.concat⟩
  | @joins thread hpoint herr =>
      rw [KnowsThreads, hpoint] at hs
      rcases hs.2 with hnone | hlate
      · exact absurd herr (hnone.2 thread)
      · exact ⟨List.mem_append_right _ (List.mem_singleton.mpr rfl), hlate.1.concat rfl,
          hlate.2.concat⟩
  | @joined thread result hpoint _ =>
      rw [KnowsThreads, hpoint] at hs
      apply KnowsThreads.destroyed (destroys_mem_concat hs.1)
      exact Or.inr ⟨hs.2.1.concat rfl, hs.2.2.concat⟩

theorem knowsThreads {history : List MainEvent} {s : MainState}
    (hrun : mainRun history = some s) : KnowsThreads history s := by
  apply run_invariant KnowsThreads _ _ hrun
  · refine ⟨List.not_mem_nil, List.not_mem_nil, ?_⟩
    intro thread
    change (-1 : Int32) ≠ 0
    decide
  · intro done s event next hdone hs hstep
    exact hs.step (exiting_iff hdone).mp hstep

/-! ## When the threads have been told -/

/-- A run that waits only for threads that were told to stop has a signal before
the first of its joins. -/
theorem JoinsToldThreads.signalledInTime {history : List MainEvent} {final : MainState}
    (hrun : mainRun history = some final) (htold : JoinsToldThreads history) :
    SignalledInTime history := by
  intro hmem hcreated _
  obtain ⟨rest, hsplit⟩ := exists_beforeCleanup_append hmem
  have hbegins : beforeCleanup history ++ [.destroys] <+: history := by
    refine ⟨rest, ?_⟩
    rw [List.append_assoc, List.singleton_append]
    exact hsplit.symm
  obtain ⟨next, hnext⟩ := exists_run_of_prefix hrun hbegins
  obtain ⟨s, hs, hstep⟩ := run_concat_eq_some.mp hnext
  have hnone := destroys_notMem_beforeCleanup history
  have hknows := knowsThreads hs
  rw [← exiting_iff hs]
  have hsteps := stepsMain hstep
  cases hsteps with
  | @skips thread hpoint herr =>
      rw [KnowsThreads, hpoint] at hknows
      obtain rfl := hknows.1 hnone
      rcases hknows.2 with hnothing | ⟨hfirst, -⟩
      · rw [NoneCreated, beforeCleanup_eq_self hnone] at hnothing
        exact absurd hcreated hnothing.1
      · exact absurd hfirst.2 herr
  | joins hpoint herr =>
      -- The flag is as it was when the join was issued.
      have hexiting := htold _ hbegins _ _ hnext rfl
      exact hexiting

/-- Clean-up never waits for a thread that was not told to stop, if and only if a
signal arrives in time whenever a creation fails after another one. -/
theorem joinsToldThreads_iff {history : List MainEvent} {final : MainState}
    (hrun : mainRun history = some final) :
    JoinsToldThreads history ↔ SignalledInTime history := by
  refine ⟨fun htold => htold.signalledInTime hrun, ?_⟩
  intro htime before hbefore s thread hs hpoint
  have hknows := knowsThreads hs
  rw [KnowsThreads, hpoint] at hknows
  obtain ⟨hmem, hfirst, hlate⟩ := hknows
  rw [exiting_iff hs]
  have hsame : beforeCleanup history = beforeCleanup before := by
    obtain ⟨rest, rfl⟩ := hbefore
    exact beforeCleanup_append_of_mem hmem rest
  rcases hlate with hsignal | hfails
  · exact beforeCleanup_subset before hsignal
  · rw [SignalledInTime, hsame] at htime
    exact beforeCleanup_subset before (htime (hbefore.subset hmem) hfirst.1 hfails)

/-- `main` waits for a thread whose loop runs on. -/
structure WaitsFor (thread : EventThread) (s : MainState) : Prop where
  joining : s.point = .joining thread
  polling : s.threads thread = .polling
  notTold : s.exiting = false

/-- Nothing but a signal or the failure of the join ends the wait. -/
theorem WaitsFor.step {thread : EventThread} {s next : MainState} {event : MainEvent}
    (hs : WaitsFor thread s) (hstep : mainStep s event = some next) (hsignal : event ≠ .signal)
    (hjoin : ∀ result, event = .joined result → result = 0) : WaitsFor thread next := by
  have hsteps := stepsMain hstep
  have hpoint := hs.joining
  cases hsteps with
  | signal => exact absurd rfl hsignal
  | @joined other result hother hended =>
      obtain rfl : thread = other := MainPoint.joining.inj (hpoint.symm.trans hother)
      have hend := hended (hjoin result rfl)
      rw [hs.polling] at hend
      cases hend
  | @ringBuffer other created hstarted =>
      have hne : thread ≠ other := fun heq => by
        rw [← heq, hs.polling] at hstarted
        cases hstarted
      refine ⟨hpoint, ?_, hs.notTold⟩
      exact (Function.update_of_ne hne _ s.threads).trans hs.polling
  | threadSleeps => exact hs
  | threadStops _ hexiting =>
      rw [hs.notTold] at hexiting
      cases hexiting
  | loads hother | loadFails hother | attaches hother | attachFails hother | creates hother
  | createFails hother | sleeps hother | stops hother | skips hother | joins hother =>
      rw [hpoint] at hother
      cases hother

/-- The wait lasts until a signal arrives. -/
theorem WaitsFor.run {thread : EventThread} {s final : MainState} {history : List MainEvent}
    (hs : WaitsFor thread s) (hrun : run mainStep s history = some final)
    (hsignal : .signal ∉ history) (hjoin : ∀ result, .joined result ∈ history → result = 0) :
    WaitsFor thread final := by
  induction history using List.reverseRecOn generalizing final with
  | nil => exact Option.some.inj hrun ▸ hs
  | append_singleton done event ih =>
      obtain ⟨middle, hdone, hlast⟩ := run_concat_eq_some.mp hrun
      rw [List.mem_append, List.mem_singleton, not_or] at hsignal
      have hmiddle := ih hdone hsignal.1 fun result hmem =>
        hjoin result (List.mem_append_left _ hmem)
      refine hmiddle.step hlast (Ne.symm hsignal.2) ?_
      intro result heq
      exact hjoin result (List.mem_append_right _ (List.mem_singleton.mpr heq.symm))

/-- The second thread cannot be created, and then a signal arrives. -/
def interruptedFailure : List MainEvent :=
  [.loaded 0, .attached 0, .created 0, .created 11, .signal, .destroys]

theorem joinsToldThreads_interruptedFailure : JoinsToldThreads interruptedFailure := by
  have hrun : mainRun interruptedFailure = some _ := rfl
  apply (joinsToldThreads_iff hrun).mpr
  intro _ _ _
  decide

/-- The second thread cannot be created, and no signal arrives. -/
def quietFailure : List MainEvent :=
  [.loaded 0, .attached 0, .created 0, .created 11, .destroys]

/-- `main` waits for the first thread, which nobody told to stop. -/
theorem joinsToldThreads_fails_for_quiet_failure :
    ¬ ∀ (history : List MainEvent) (final : MainState), mainRun history = some final →
      JoinsToldThreads history := by
  intro htold
  have hexiting := htold quietFailure _ rfl quietFailure List.prefix_rfl _ .rqPelt rfl rfl
  exact absurd hexiting (by decide)

end SchedAnalyzer
