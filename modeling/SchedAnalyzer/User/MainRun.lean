import Mathlib.Logic.Function.Basic
import SchedAnalyzer.Foundation.LabelledSteps

/-! # The run of main

From the opened skeleton to the exit: programs are loaded and attached, a thread
is created for each ring buffer, `main` sleeps until `exiting` is set, and joins
the threads. A signal can arrive between any two steps. A failed start goes to
the clean-up at once.
-/

namespace SchedAnalyzer

open Foundation.LabelledSteps

/-- The event threads, in the order they are created and joined. -/
inductive EventThread
  | rqPelt
  | taskPelt
  | rqNrRunning
  | schedSwitch
  | freqIdle
  | softirq
  | lb
  | ipi
  deriving DecidableEq, Repr

def EventThread.next? : EventThread → Option EventThread
  | .rqPelt => some .taskPelt
  | .taskPelt => some .rqNrRunning
  | .rqNrRunning => some .schedSwitch
  | .schedSwitch => some .freqIdle
  | .freqIdle => some .softirq
  | .softirq => some .lb
  | .lb => some .ipi
  | .ipi => none

/-- Where the function of an event thread is. -/
inductive ThreadPoint
  | absent
  | started
  | polling
  | ended
  deriving DecidableEq, Repr

/-- Where `main` is. -/
inductive MainPoint
  | load
  | attach
  | create (thread : EventThread)
  | collect
  | destroy (thread : EventThread)
  | joining (thread : EventThread)
  | returned (value : Int32)
  deriving DecidableEq, Repr

/-- The variables of `main`, `exiting`, and where the threads are. -/
structure MainState where
  point : MainPoint
  exiting : Bool
  err : Int32
  threadErr : EventThread → Int32
  threads : EventThread → ThreadPoint

/-- The skeleton is open. `INIT_EVENT_THREAD` sets every error to `-1`. -/
def MainState.opened : MainState where
  point := .load
  exiting := false
  err := 0
  threadErr _ := -1
  threads _ := .absent

/-- What can happen. The calls of `main` come with their results. -/
inductive MainEvent
  | signal
  | loaded (result : Int32)
  | attached (result : Int32)
  | created (result : Int32)
  | checked
  | destroys
  | joined (result : Int32)
  | ringBuffer (thread : EventThread) (created : Bool)
  | threadChecked (thread : EventThread)
  deriving DecidableEq, Repr

namespace MainState

variable (s : MainState)

/-- `if (err) goto cleanup`, for the two steps of the skeleton. -/
def skeletonStep (result : Int32) (next : MainPoint) : MainState :=
  { s with err := result, point := if result = 0 then next else .destroy .rqPelt }

/-- `CREATE_EVENT_THREAD(event)`. -/
def createEventThread (thread : EventThread) (result : Int32) : MainState :=
  if result = 0 then
    { s with
      threadErr := Function.update s.threadErr thread result
      threads := Function.update s.threads thread .started
      point := (thread.next?.map MainPoint.create).getD .collect }
  else
    { s with
      threadErr := Function.update s.threadErr thread result
      point := .destroy .rqPelt }

/-- The end of `DESTROY_EVENT_THREAD(event)`, and of `main` after the last one. -/
def destroyed (thread : EventThread) (err : Int32) : MainState :=
  { s with
    err := err
    point := (thread.next?.map MainPoint.destroy).getD (.returned (if err < 0 then -err else 0)) }

/-- The beginning of `DESTROY_EVENT_THREAD(event)`: a thread that was created is joined. -/
def destroyEventThread (thread : EventThread) : MainState :=
  if s.threadErr thread = 0 then { s with point := .joining thread } else s.destroyed thread 0

def setThread (thread : EventThread) (point : ThreadPoint) : MainState :=
  { s with threads := Function.update s.threads thread point }

end MainState

/-- One step. A join that succeeds waits for the end of the thread. -/
def mainStep (s : MainState) (event : MainEvent) : Option MainState :=
  match event, s.point with
  | .signal, _ => some { s with exiting := true }
  | .loaded result, .load => some (s.skeletonStep result .attach)
  | .attached result, .attach => some (s.skeletonStep result (.create .rqPelt))
  | .created result, .create thread => some (s.createEventThread thread result)
  | .checked, .collect => some (if s.exiting then { s with point := .destroy .rqPelt } else s)
  | .destroys, .destroy thread => some (s.destroyEventThread thread)
  | .joined result, .joining thread =>
      if result = 0 ∧ s.threads thread ≠ .ended then none else some (s.destroyed thread result)
  | .ringBuffer thread created, _ =>
      if s.threads thread = .started then
        some (s.setThread thread (if created then .polling else .ended))
      else none
  | .threadChecked thread, _ =>
      if s.threads thread = .polling then
        some (if s.exiting then s.setThread thread .ended else s)
      else none
  | _, _ => none

/-- The state after a history. -/
def mainRun (history : List MainEvent) : Option MainState :=
  run mainStep .opened history

/-- The status the process exits with. -/
def exitStatus (value : Int32) : UInt8 :=
  value.toUInt32.toUInt8

/-- A failure to load, to attach or to create a thread. -/
def MainEvent.fails : MainEvent → Bool
  | .loaded result => result != 0
  | .attached result => result != 0
  | .created result => result != 0
  | _ => false

/-! ## What a step can do -/

/-- All that one step can do. -/
inductive StepsMain (s : MainState) : MainEvent → MainState → Prop
  | signal : StepsMain s .signal { s with exiting := true }
  | loads (hpoint : s.point = .load) : StepsMain s (.loaded 0) { s with err := 0, point := .attach }
  | loadFails {result : Int32} (hpoint : s.point = .load) (hfails : result ≠ 0) :
      StepsMain s (.loaded result) { s with err := result, point := .destroy .rqPelt }
  | attaches (hpoint : s.point = .attach) :
      StepsMain s (.attached 0) { s with err := 0, point := .create .rqPelt }
  | attachFails {result : Int32} (hpoint : s.point = .attach) (hfails : result ≠ 0) :
      StepsMain s (.attached result) { s with err := result, point := .destroy .rqPelt }
  | creates {thread : EventThread} (hpoint : s.point = .create thread) :
      StepsMain s (.created 0)
        { s with
          threadErr := Function.update s.threadErr thread 0
          threads := Function.update s.threads thread .started
          point := (thread.next?.map MainPoint.create).getD .collect }
  | createFails {thread : EventThread} {result : Int32} (hpoint : s.point = .create thread)
      (hfails : result ≠ 0) :
      StepsMain s (.created result)
        { s with
          threadErr := Function.update s.threadErr thread result
          point := .destroy .rqPelt }
  | sleeps (hpoint : s.point = .collect) (hexiting : s.exiting = false) : StepsMain s .checked s
  | stops (hpoint : s.point = .collect) (hexiting : s.exiting = true) :
      StepsMain s .checked { s with point := .destroy .rqPelt }
  | skips {thread : EventThread} (hpoint : s.point = .destroy thread)
      (herr : s.threadErr thread ≠ 0) :
      StepsMain s .destroys (s.destroyed thread 0)
  | joins {thread : EventThread} (hpoint : s.point = .destroy thread)
      (herr : s.threadErr thread = 0) :
      StepsMain s .destroys { s with point := .joining thread }
  | joined {thread : EventThread} {result : Int32} (hpoint : s.point = .joining thread)
      (hended : result = 0 → s.threads thread = .ended) :
      StepsMain s (.joined result) (s.destroyed thread result)
  | ringBuffer {thread : EventThread} (created : Bool) (hstarted : s.threads thread = .started) :
      StepsMain s (.ringBuffer thread created)
        (s.setThread thread (if created then .polling else .ended))
  | threadSleeps {thread : EventThread} (hpolling : s.threads thread = .polling)
      (hexiting : s.exiting = false) :
      StepsMain s (.threadChecked thread) s
  | threadStops {thread : EventThread} (hpolling : s.threads thread = .polling)
      (hexiting : s.exiting = true) :
      StepsMain s (.threadChecked thread) (s.setThread thread .ended)

theorem stepsMain {s next : MainState} {event : MainEvent} (hstep : mainStep s event = some next) :
    StepsMain s event next := by
  obtain ⟨point, exiting, err, threadErr, threads⟩ := s
  cases event with
  | signal => exact Option.some.inj hstep ▸ .signal
  | loaded result =>
      cases point
      case load =>
        rw [← Option.some.inj hstep, MainState.skeletonStep]
        split
        next hzero => exact hzero ▸ .loads rfl
        next hfails => exact .loadFails rfl hfails
      all_goals cases hstep
  | attached result =>
      cases point
      case attach =>
        rw [← Option.some.inj hstep, MainState.skeletonStep]
        split
        next hzero => exact hzero ▸ .attaches rfl
        next hfails => exact .attachFails rfl hfails
      all_goals cases hstep
  | created result =>
      cases point
      case create thread =>
        rw [← Option.some.inj hstep, MainState.createEventThread]
        split
        next hzero => exact hzero ▸ .creates rfl
        next hfails => exact .createFails rfl hfails
      all_goals cases hstep
  | checked =>
      cases point
      case collect =>
        rw [← Option.some.inj hstep]
        split
        next hexiting => exact .stops rfl hexiting
        next hexiting => exact .sleeps rfl (Bool.eq_false_iff.mpr hexiting)
      all_goals cases hstep
  | destroys =>
      cases point
      case destroy thread =>
        rw [← Option.some.inj hstep, MainState.destroyEventThread]
        split
        next herr => exact .joins rfl herr
        next herr => exact .skips rfl herr
      all_goals cases hstep
  | joined result =>
      cases point
      case joining thread =>
        change (if _ then none else some _) = some next at hstep
        split at hstep
        next => cases hstep
        next hended =>
          have hends : result = 0 → threads thread = .ended := fun hzero =>
            not_not.mp fun hrunning => hended ⟨hzero, hrunning⟩
          exact Option.some.inj hstep ▸ .joined rfl hends
      all_goals cases hstep
  | ringBuffer thread created =>
      change (if _ then some _ else none) = some next at hstep
      split at hstep
      next hstarted => exact Option.some.inj hstep ▸ .ringBuffer created hstarted
      next => cases hstep
  | threadChecked thread =>
      change (if _ then some _ else none) = some next at hstep
      split at hstep
      next hpolling =>
        rw [← Option.some.inj hstep]
        split
        next hexiting => exact .threadStops hpolling hexiting
        next hexiting => exact .threadSleeps hpolling (Bool.eq_false_iff.mpr hexiting)
      next => cases hstep

/-! ## The exit of a failed start -/

/-- Whether a start failed. -/
def startFailed (history : List MainEvent) : Bool :=
  history.any MainEvent.fails

@[simp] theorem startFailed_concat (history : List MainEvent) (event : MainEvent) :
    startFailed (history ++ [event]) = (startFailed history || event.fails) := by
  simp [startFailed]

/-- What is known at each point when the last thread decides: its error is not zero
before it is created, nor if the start failed. -/
def LosesError (failed : Bool) (s : MainState) : Prop :=
  match s.point with
  | .load | .attach | .create _ => failed = false ∧ s.threadErr .ipi ≠ 0
  | .collect => failed = false
  | .destroy _ => failed = true → s.threadErr .ipi ≠ 0
  | .joining thread => s.threadErr thread = 0 ∧ (failed = true → s.threadErr .ipi ≠ 0)
  | .returned value => failed = true → value = 0

theorem LosesError.of_point {failed : Bool} {s : MainState} (hs : LosesError failed s)
    {next : MainState} (hpoint : next.point = s.point) (herr : next.threadErr = s.threadErr) :
    LosesError failed next := by
  unfold LosesError at hs ⊢
  rw [hpoint, herr]
  exact hs

theorem LosesError.step {history : List MainEvent} {s next : MainState} {event : MainEvent}
    (hs : LosesError (startFailed history) s) (hstep : mainStep s event = some next) :
    LosesError (startFailed (history ++ [event])) next := by
  have hsteps := stepsMain hstep
  rw [startFailed_concat]
  cases hsteps with
  | signal => exact Bool.or_false _ ▸ hs.of_point rfl rfl
  | loads hpoint =>
      rw [LosesError, hpoint] at hs
      exact ⟨by rw [hs.1]; rfl, hs.2⟩
  | attaches hpoint =>
      rw [LosesError, hpoint] at hs
      exact ⟨by rw [hs.1]; rfl, hs.2⟩
  | loadFails hpoint _ =>
      rw [LosesError, hpoint] at hs
      exact fun _ => hs.2
  | attachFails hpoint _ =>
      rw [LosesError, hpoint] at hs
      exact fun _ => hs.2
  | @creates thread hpoint =>
      rw [LosesError, hpoint] at hs
      have hfailed : (startFailed history || (MainEvent.created 0).fails) = false := by
        rw [hs.1]
        rfl
      cases thread
      case ipi => exact hfailed
      all_goals
        refine ⟨hfailed, ?_⟩
        exact hs.2
  | @createFails thread result hpoint hfails =>
      rw [LosesError, hpoint] at hs
      intro _
      by_cases heq : EventThread.ipi = thread
      · subst heq
        change Function.update s.threadErr .ipi result .ipi ≠ 0
        rw [Function.update_self]
        exact hfails
      · change Function.update s.threadErr thread result .ipi ≠ 0
        rw [Function.update_of_ne heq]
        exact hs.2
  | sleeps => exact Bool.or_false _ ▸ hs
  | stops hpoint _ =>
      rw [LosesError, hpoint] at hs
      intro hfailed
      rw [hs] at hfailed
      exact Bool.noConfusion hfailed
  | @skips thread hpoint herr =>
      rw [LosesError, hpoint] at hs
      rw [show MainEvent.destroys.fails = false from rfl, Bool.or_false]
      cases thread
      case ipi => exact fun _ => rfl
      all_goals exact hs
  | joins hpoint herr =>
      rw [LosesError, hpoint] at hs
      exact ⟨herr, Bool.or_false _ ▸ hs⟩
  | @joined thread result hpoint _ =>
      rw [LosesError, hpoint] at hs
      rw [show (MainEvent.joined result).fails = false from rfl, Bool.or_false]
      cases thread
      case ipi => exact fun hfailed => absurd hs.1 (hs.2 hfailed)
      all_goals exact hs.2
  | ringBuffer => exact Bool.or_false _ ▸ hs.of_point rfl rfl
  | threadSleeps => exact Bool.or_false _ ▸ hs
  | threadStops => exact Bool.or_false _ ▸ hs.of_point rfl rfl

/-- A run that ended after a failed start. -/
structure FailedStart where
  history : List MainEvent
  value : Int32
  returns : (mainRun history).map MainState.point = some (.returned value)
  fails : startFailed history = true

/-- The caller is told of the failure. -/
def FailedStart.ReportsFailure (start : FailedStart) : Prop :=
  exitStatus start.value ≠ 0

theorem losesError_opened : LosesError (startFailed []) .opened :=
  ⟨rfl, by decide⟩

/-- Whatever fails, and whatever the joins return, the exit status is zero. -/
theorem not_reportsFailure (start : FailedStart) : ¬ start.ReportsFailure := by
  obtain ⟨history, value, hreturns, hfails⟩ := start
  obtain ⟨final, hrun, hpoint⟩ := Option.map_eq_some_iff.mp hreturns
  have hfinal : LosesError (startFailed history) final := by
    apply run_invariant (fun done s => LosesError (startFailed done) s) losesError_opened _ hrun
    intro done s event next _ hs hstep
    exact hs.step hstep
  rw [LosesError, hpoint] at hfinal
  obtain rfl := hfinal hfails
  exact fun hreports => hreports rfl

/-- The kernel refuses the programs. -/
def loadFails : FailedStart where
  history := .loaded (-22) :: List.replicate 8 .destroys
  value := 0
  returns := by decide
  fails := by decide

theorem reportsFailure_fails_for_load : ¬ ∀ start : FailedStart, start.ReportsFailure :=
  fun hreports => hreports loadFails (by decide)

end SchedAnalyzer
