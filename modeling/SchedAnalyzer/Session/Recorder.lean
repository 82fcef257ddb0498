import SchedAnalyzer.Foundation.Channels
import SchedAnalyzer.Session.Gating
import SchedAnalyzer.User.MainRun

/-! # The recording session

The programs that `main` attaches submit records to eight ring buffers, and a
thread for each ring buffer handles them while `main` starts the trace, sleeps,
and stops it. All of this can interleave. Whatever the order, the calls made for
an option are the first of those that one handler after the other would make, and
those made while the tracing session runs are the ones between its start and its stop.
-/

namespace SchedAnalyzer

open Foundation Foundation.LabelledSteps

/-! ## The state -/

/-- The ring buffer that an event thread polls. -/
def EventThread.ring : EventThread → Ring
  | .rqPelt => .rqPelt
  | .taskPelt => .taskPelt
  | .rqNrRunning => .rqNrRunning
  | .schedSwitch => .schedSwitch
  | .freqIdle => .freqIdle
  | .softirq => .softirq
  | .lb => .lb
  | .ipi => .ipi

/-- What `tracing_session` points to. -/
inductive TracingSession
  | null
  | running
  | stopped
  deriving DecidableEq, Repr

/-- Where `main` is between the creation of the last thread and the clean-up. -/
inductive CollectPoint
  | beforeStart
  | sleeping
  | afterStop
  deriving DecidableEq, Repr

/-- The processes and what they share. `calls` are the `trace_*` calls made so far,
and `inSession` are those of them made while a tracing session was running. -/
structure RecorderState where
  main : MainState
  collect : CollectPoint
  attached : Bool
  maps : BpfMaps
  rings : Ring → List Record
  fd : Int32
  session : TracingSession
  calls : List TraceCall
  inSession : List TraceCall

/-- The skeleton is open; `tracing_session` and `fd` are static. -/
def RecorderState.opened : RecorderState where
  main := .opened
  collect := .beforeStart
  attached := false
  maps := .empty
  rings _ := []
  fd := 0
  session := .null
  calls := []
  inSession := []

/-- What can happen. Opening the output file comes with its result. -/
inductive RecorderEvent
  | main (event : MainEvent)
  | startsTrace (fd : Int32)
  | stopsTrace
  | fires (f : Firing)
  | handles (thread : EventThread)

/-! ## Steps -/

/-- The end of `start_perfetto_trace()`: no session is set up without a file. -/
def startPerfettoTrace (fd : Int32) (session : TracingSession) : TracingSession :=
  if fd < 0 then session else .running

/-- `stop_perfetto_trace()`. There is no result when it dereferences a null pointer. -/
def stopPerfettoTrace (fd : Int32) (session : TracingSession) : Option TracingSession :=
  if fd < 0 then some session
  else
    match session with
    | .null => none
    | _ => some .stopped

theorem stopPerfettoTrace_of_neg {fd : Int32} (hfd : fd < 0) (session : TracingSession) :
    stopPerfettoTrace fd session = some session :=
  if_pos hfd

theorem stopPerfettoTrace_running {fd : Int32} (hfd : ¬ fd < 0) :
    stopPerfettoTrace fd .running = some .stopped :=
  if_neg hfd

theorem stopPerfettoTrace_ne_running {fd : Int32} {session next : TracingSession}
    (hsession : session ≠ .running) (hstop : stopPerfettoTrace fd session = some next) :
    next ≠ .running := by
  unfold stopPerfettoTrace at hstop
  split at hstop
  next => exact Option.some.inj hstop ▸ hsession
  next =>
    split at hstop
    next => cases hstop
    next => exact Option.some.inj hstop ▸ TracingSession.noConfusion

/-- `main` has returned. -/
def MainPoint.isReturned : MainPoint → Bool
  | .returned _ => true
  | _ => false

namespace RecorderState

variable (s : RecorderState)

/-- The loop of `main` runs between the start and the stop of the trace, and is left
through the stop. -/
def mainMay : MainEvent → Bool
  | .checked => s.collect == if s.main.exiting then .afterStop else .sleeping
  | _ => true

/-- The programs that `main` left enabled run from the attach until `main` returns. -/
def programMayRun (opts : SaOpts) (program : Program) : Bool :=
  s.attached && !s.main.point.isReturned && autoload opts program

/-- A program submits its records to their ring buffers. -/
def fired (k : KernelInfo) (f : Firing) : RecorderState :=
  { s with
    maps := (fire k s.maps f).1
    rings := fun ring =>
      s.rings ring ++ (fire k s.maps f).2.filter fun record => record.ring = ring }

/-- The handler of a ring buffer consumes a record. -/
def handled (user : UserState) (ring : Ring) (record : Record) (rest : List Record) :
    RecorderState :=
  { s with
    rings := Function.update s.rings ring rest
    calls := s.calls ++ handleRecord user record
    inSession :=
      if s.session = .running then s.inSession ++ handleRecord user record else s.inSession }

end RecorderState

/-- One step of the recorder. -/
def recorderStep (k : KernelInfo) (user : UserState) (s : RecorderState) :
    RecorderEvent → Option RecorderState
  | .main event =>
      if s.mainMay event then
        (mainStep s.main event).map fun next =>
          { s with main := next, attached := s.attached || event == .loaded 0 }
      else none
  | .startsTrace fd =>
      if s.main.point = .collect ∧ s.collect = .beforeStart then
        some { s with collect := .sleeping, fd := fd, session := startPerfettoTrace fd s.session }
      else none
  | .stopsTrace =>
      if s.main.point = .collect ∧ s.collect = .sleeping ∧ s.main.exiting = true then
        (stopPerfettoTrace s.fd s.session).map fun session =>
          { s with collect := .afterStop, session := session }
      else none
  | .fires f =>
      if s.programMayRun user.opts f.hook.program then some (s.fired k f) else none
  | .handles thread =>
      if s.main.threads thread = .polling then
        match s.rings thread.ring with
        | [] => none
        | record :: rest => some (s.handled user thread.ring record rest)
      else none

/-- The state after a history. -/
def recorderRun (k : KernelInfo) (user : UserState) (history : List RecorderEvent) :
    Option RecorderState :=
  run (recorderStep k user) .opened history

/-- All that one step of the recorder can do. -/
inductive StepsRecorder (k : KernelInfo) (user : UserState) (s : RecorderState) :
    RecorderEvent → RecorderState → Prop
  | main {event : MainEvent} {next : MainState} (hmay : s.mainMay event = true)
      (hnext : mainStep s.main event = some next) :
      StepsRecorder k user s (.main event)
        { s with main := next, attached := s.attached || event == .loaded 0 }
  | startsTrace {fd : Int32} (hpoint : s.main.point = .collect)
      (hcollect : s.collect = .beforeStart) :
      StepsRecorder k user s (.startsTrace fd)
        { s with collect := .sleeping, fd := fd, session := startPerfettoTrace fd s.session }
  | stopsTrace {session : TracingSession} (hpoint : s.main.point = .collect)
      (hcollect : s.collect = .sleeping)
      (hstop : stopPerfettoTrace s.fd s.session = some session) :
      StepsRecorder k user s .stopsTrace { s with collect := .afterStop, session := session }
  | fires {f : Firing} (hautoload : autoload user.opts f.hook.program = true) :
      StepsRecorder k user s (.fires f) (s.fired k f)
  | handles {thread : EventThread} {record : Record} {rest : List Record}
      (hring : s.rings thread.ring = record :: rest) :
      StepsRecorder k user s (.handles thread) (s.handled user thread.ring record rest)

theorem stepsRecorder {k : KernelInfo} {user : UserState} {s next : RecorderState}
    {event : RecorderEvent} (hstep : recorderStep k user s event = some next) :
    StepsRecorder k user s event next := by
  cases event with
  | main event =>
      simp only [recorderStep] at hstep
      split at hstep
      next hmay =>
        obtain ⟨main, hmain, rfl⟩ := Option.map_eq_some_iff.mp hstep
        exact .main hmay hmain
      next => cases hstep
  | startsTrace fd =>
      simp only [recorderStep] at hstep
      split at hstep
      next hguard => exact Option.some.inj hstep ▸ .startsTrace hguard.1 hguard.2
      next => cases hstep
  | stopsTrace =>
      simp only [recorderStep] at hstep
      split at hstep
      next hguard =>
        obtain ⟨session, hstop, rfl⟩ := Option.map_eq_some_iff.mp hstep
        exact .stopsTrace hguard.1 hguard.2.1 hstop
      next => cases hstep
  | fires f =>
      simp only [recorderStep, RecorderState.programMayRun, Bool.and_eq_true] at hstep
      split at hstep
      next hguard => exact Option.some.inj hstep ▸ .fires hguard.2
      next => cases hstep
  | handles thread =>
      simp only [recorderStep] at hstep
      split at hstep
      next =>
        split at hstep
        next => cases hstep
        next record rest hring => exact Option.some.inj hstep ▸ .handles hring
      next => cases hstep

/-! ## The ring buffers are queues -/

/-- The enabled programs, from hook invocations to submitted records. -/
def sessionSubmitter (k : KernelInfo) (opts : SaOpts) : Transducer BpfMaps Firing Record where
  step maps f := if autoload opts f.hook.program then fire k maps f else (maps, [])

theorem sessionSubmitter_step {k : KernelInfo} {opts : SaOpts} {f : Firing}
    (hautoload : autoload opts f.hook.program = true) (maps : BpfMaps) :
    (sessionSubmitter k opts).step maps f = fire k maps f := by
  simp only [sessionSubmitter, hautoload, if_true]

/-- What an event does to the ring buffers. -/
def RecorderEvent.channelEvent? : RecorderEvent → Option (ChannelEvent Firing Ring)
  | .fires f => some (.feeds f)
  | .handles thread => some (.takes thread.ring)
  | _ => none

/-- The hook invocation of an event. -/
def RecorderEvent.firing? : RecorderEvent → Option Firing
  | .fires f => some f
  | _ => none

/-- The recorder is a network of queues whose taken records were handled. -/
structure Simulates (user : UserState) (s : RecorderState) (c : Channels BpfMaps Ring Record) :
    Prop where
  maps : s.maps = c.state
  rings : s.rings = c.queues
  calls : s.calls = c.taken.flatMap (handleRecord user)

theorem Simulates.step {k : KernelInfo} {user : UserState} {s next : RecorderState}
    {c : Channels BpfMaps Ring Record} {event : RecorderEvent} (hs : Simulates user s c)
    (hsteps : StepsRecorder k user s event next) :
    ∃ c', run (Channels.step (sessionSubmitter k user.opts) Record.ring) c
        event.channelEvent?.toList = some c' ∧ Simulates user next c' := by
  cases hsteps with
  | main | startsTrace | stopsTrace => exact ⟨c, run_nil c, ⟨hs.maps, hs.rings, hs.calls⟩⟩
  | @fires f hautoload =>
      have hfire : (sessionSubmitter k user.opts).step c.state f = fire k s.maps f := by
        rw [hs.maps, sessionSubmitter_step hautoload]
      refine ⟨c.feed (sessionSubmitter k user.opts) Record.ring f, ?_, ?_, ?_, ?_⟩
      · have hevent : (RecorderEvent.fires f).channelEvent?.toList = [.feeds f] := rfl
        rw [hevent, run_singleton, Channels.step_feeds]
      · rw [Channels.feed, hfire]
        rfl
      · rw [Channels.feed, hfire, ← hs.rings]
        rfl
      · rw [RecorderState.fired, Channels.feed]
        exact hs.calls
  | @handles thread record rest hring =>
      rw [hs.rings] at hring
      have hevent : (RecorderEvent.handles thread).channelEvent?.toList = [.takes thread.ring] := rfl
      refine ⟨{ c with
        queues := Function.update c.queues thread.ring rest
        taken := c.taken ++ [record] }, ?_, ?_, ?_, ?_⟩
      · rw [hevent, run_singleton, Channels.step_takes]
        exact Channels.take_eq_some.mpr ⟨record, rest, hring, rfl⟩
      · exact hs.maps
      · change Function.update s.rings thread.ring rest = _
        rw [hs.rings]
      · change s.calls ++ _ = (c.taken ++ [record]).flatMap _
        rw [hs.calls, List.flatMap_append, List.flatMap_singleton]

/-- Every run of the recorder is a run of the network of its ring buffers. -/
theorem exists_simulates {k : KernelInfo} {user : UserState} {history : List RecorderEvent}
    {s : RecorderState} (hrun : recorderRun k user history = some s) :
    ∃ c, run (Channels.step (sessionSubmitter k user.opts) Record.ring) (Channels.start .empty)
        (history.filterMap RecorderEvent.channelEvent?) = some c ∧ Simulates user s c := by
  apply run_invariant (fun done s => ∃ c,
    run (Channels.step (sessionSubmitter k user.opts) Record.ring) (Channels.start .empty)
      (done.filterMap RecorderEvent.channelEvent?) = some c ∧ Simulates user s c) _ _ hrun
  · exact ⟨_, run_nil _, ⟨rfl, rfl, rfl⟩⟩
  · intro done s event next _ hs hstep
    obtain ⟨c, hc, hs⟩ := hs
    obtain ⟨c', hc', hnext⟩ := hs.step (stepsRecorder hstep)
    refine ⟨c', ?_, hnext⟩
    rw [List.filterMap_append, run_append, hc, Option.bind_some, ← hc']
    rfl

theorem filterMap_input_channelEvent (history : List RecorderEvent) :
    (history.filterMap RecorderEvent.channelEvent?).filterMap ChannelEvent.input? =
      history.filterMap RecorderEvent.firing? := by
  rw [List.filterMap_filterMap]
  apply List.filterMap_congr
  intro event _
  cases event <;> rfl

/-- After a run, what was handled and what waits are the records of the hooks fired. -/
theorem exists_accounts {k : KernelInfo} {user : UserState} {history : List RecorderEvent}
    {s : RecorderState} (hrun : recorderRun k user history = some s) :
    ∃ c, Channels.Accounts (sessionSubmitter k user.opts) Record.ring .empty
        (history.filterMap RecorderEvent.firing?) c ∧ Simulates user s c := by
  obtain ⟨c, hc, hs⟩ := exists_simulates hrun
  exact ⟨c, filterMap_input_channelEvent history ▸ Channels.accounts_run hc, hs⟩

/-! ## The calls of an option -/

/-- The ring buffer whose handler makes the calls of an option in a session. -/
def SaOption.ring : SaOption → Ring
  | .loadAvgCpu | .runnableAvgCpu | .utilAvgCpu | .utilEstCpu | .utilAvgRt | .utilAvgDl
  | .utilAvgIrq | .loadAvgThermal => .rqPelt
  | .loadAvgTask | .runnableAvgTask | .utilAvgTask | .utilEstTask => .taskPelt
  | .cpuNrRunning => .rqNrRunning
  | .cpuIdle => .freqIdle
  | .loadBalance => .lb
  | .ipi => .ipi

/-- The calls of an option, in order. -/
def callsOf (option : SaOption) (calls : List TraceCall) : List TraceCall :=
  calls.filter fun call => call.option = option

@[simp] theorem callsOf_append (option : SaOption) (first second : List TraceCall) :
    callsOf option (first ++ second) = callsOf option first ++ callsOf option second :=
  List.filter_append ..

/-- Only the handler of context switches shares options with another, and no context
switch is submitted in a session. -/
theorem ring_eq_of_mem_options {ring : Ring} {option : SaOption} (hoption : option ∈ ring.options)
    (hring : ring ≠ .schedSwitch) : ring = option.ring := by
  revert hoption hring
  cases ring <;> cases option <;> decide

theorem ring_ne_schedSwitch_of_mem_outputs {k : KernelInfo} {opts : SaOpts} {maps : BpfMaps}
    {firings : List Firing} {r : Record} (hr : r ∈ (sessionSubmitter k opts).outputs maps firings) :
    r.ring ≠ .schedSwitch := by
  revert r
  apply Transducer.forall_mem_outputs
  intro current f _ r hr
  simp only [sessionSubmitter] at hr
  split at hr
  next hautoload =>
    rw [ring_of_mem_fire hr]
    exact (isOn_of_autoload hautoload).2.2
  next => exact absurd hr List.not_mem_nil

/-- The calls of an option come from the records of its ring buffer. -/
theorem callsOf_flatMap_handleRecord {user : UserState} {records : List Record}
    (hswitch : ∀ r ∈ records, r.ring ≠ .schedSwitch) (option : SaOption) :
    callsOf option (records.flatMap (handleRecord user)) =
      callsOf option
        ((Channels.ofChannel Record.ring option.ring records).flatMap (handleRecord user)) := by
  induction records with
  | nil => rfl
  | cons r rest ih =>
      have ih := ih fun r hr => hswitch r (List.mem_cons_of_mem _ hr)
      rw [List.flatMap_cons, callsOf_append, ih, Channels.ofChannel_cons]
      split
      next => rw [List.flatMap_cons, callsOf_append]
      next hring =>
        have hnone : callsOf option (handleRecord user r) = [] := by
          apply List.filter_eq_nil_iff.mpr
          intro call hcall hoption
          have hown : option ∈ r.ring.options :=
            of_decide_eq_true hoption ▸ option_mem_ring hcall
          have hsame := ring_eq_of_mem_options hown (hswitch r List.mem_cons_self)
          exact hring hsame
        rw [hnone, List.nil_append]

/-- One handler after the other: the calls for the records of the hooks. -/
theorem outputs_sessionTracer (k : KernelInfo) (user : UserState) (maps : BpfMaps)
    (firings : List Firing) :
    (sessionTracer k user).outputs maps firings =
      ((sessionSubmitter k user.opts).outputs maps firings).flatMap (handleRecord user) := by
  induction firings generalizing maps with
  | nil => rfl
  | cons f rest ih =>
      rw [Transducer.outputs_cons, Transducer.outputs_cons, List.flatMap_append, ih]
      cases hautoload : autoload user.opts f.hook.program <;>
        simp only [sessionTracer, sessionSubmitter, tracer, hautoload, if_true, Bool.false_eq_true,
          if_false, List.flatMap_nil]

/-- In every interleaving, the calls made for an option, followed by those for the
records that still wait in its ring buffer, are the calls that handling each record
at once would make: none is lost, made twice or out of order. -/
theorem callsOf_recorderRun {k : KernelInfo} {user : UserState} {history : List RecorderEvent}
    {s : RecorderState} (hrun : recorderRun k user history = some s) (option : SaOption) :
    callsOf option s.calls ++
        callsOf option ((s.rings option.ring).flatMap (handleRecord user)) =
      callsOf option ((sessionTracer k user).outputs .empty
        (history.filterMap RecorderEvent.firing?)) := by
  obtain ⟨c, hc, hs⟩ := exists_accounts hrun
  have htaken : ∀ r ∈ c.taken, r.ring ≠ .schedSwitch := by
    intro r hr
    have hmem : r ∈ Channels.ofChannel Record.ring r.ring c.taken ++ c.queues r.ring :=
      List.mem_append_left _ (List.mem_filter.mpr ⟨hr, decide_eq_true rfl⟩)
    rw [hc.conserved] at hmem
    exact ring_ne_schedSwitch_of_mem_outputs (List.mem_of_mem_filter hmem)
  rw [outputs_sessionTracer,
    callsOf_flatMap_handleRecord (fun r hr => ring_ne_schedSwitch_of_mem_outputs hr),
    ← hc.conserved, hs.calls, hs.rings, callsOf_flatMap_handleRecord htaken, List.flatMap_append,
    callsOf_append]

/-! ## The tracing session -/

/-- What is known of the session at each point of the collection: it runs only between
the start and the stop, if there is a file, and the calls made in it are a part of the
calls without a gap. -/
def SessionSegment (s : RecorderState) : Prop :=
  match s.collect with
  | .beforeStart => s.session = .null ∧ s.inSession = []
  | .sleeping =>
      s.main.point = .collect ∧
        (s.fd < 0 ∧ s.session = .null ∧ s.inSession = [] ∨
          ¬ s.fd < 0 ∧ s.session = .running ∧ s.inSession <:+ s.calls)
  | .afterStop => s.session ≠ .running ∧ s.inSession <:+: s.calls

theorem sessionSegment_opened : SessionSegment .opened :=
  ⟨rfl, rfl⟩

/-- Handling a record extends the calls of the session exactly while it runs. -/
theorem SessionSegment.handled {s : RecorderState} (hs : SessionSegment s) (user : UserState)
    (ring : Ring) (record : Record) (rest : List Record) :
    SessionSegment (s.handled user ring record rest) := by
  unfold SessionSegment at hs ⊢
  change match s.collect with
    | .beforeStart => _
    | .sleeping => _
    | .afterStop => _
  cases hcollect : s.collect with
  | beforeStart =>
      rw [hcollect] at hs
      obtain ⟨hsession, hcalls⟩ := hs
      refine ⟨hsession, ?_⟩
      rw [RecorderState.handled, hsession]
      exact hcalls
  | sleeping =>
      rw [hcollect] at hs
      obtain ⟨hpoint, ⟨hfd, hsession, hcalls⟩ | ⟨hfd, hsession, hcalls⟩⟩ := hs
      · refine ⟨hpoint, Or.inl ⟨hfd, hsession, ?_⟩⟩
        rw [RecorderState.handled, hsession]
        exact hcalls
      · refine ⟨hpoint, Or.inr ⟨hfd, hsession, ?_⟩⟩
        obtain ⟨early, hcalls⟩ := hcalls
        refine ⟨early, ?_⟩
        rw [RecorderState.handled, hsession, ← hcalls]
        exact (List.append_assoc ..).symm
  | afterStop =>
      rw [hcollect] at hs
      obtain ⟨hsession, early, late, hcalls⟩ := hs
      refine ⟨hsession, early, late ++ handleRecord user record, ?_⟩
      simp only [RecorderState.handled, hsession, if_false, ← hcalls, List.append_assoc]

/-- While `main` sleeps it only looks at `exiting`. -/
theorem point_of_mainStep {s next : MainState} {event : MainEvent} (hpoint : s.point = .collect)
    (hchecked : event = .checked → s.exiting = false) (hnext : mainStep s event = some next) :
    next.point = .collect := by
  have hsteps := stepsMain hnext
  cases hsteps with
  | signal | sleeps | threadSleeps | ringBuffer | threadStops => exact hpoint
  | stops _ hexiting =>
      rw [hchecked rfl] at hexiting
      cases hexiting
  | loads h | loadFails h | attaches h | attachFails h | creates h | createFails h | skips h
  | joins h | joined h =>
      rw [hpoint] at h
      cases h

theorem SessionSegment.step {k : KernelInfo} {user : UserState} {s next : RecorderState}
    {event : RecorderEvent} (hs : SessionSegment s) (hsteps : StepsRecorder k user s event next) :
    SessionSegment next := by
  cases hsteps with
  | @main event main hmay hnext =>
      unfold SessionSegment at hs ⊢
      cases hcollect : s.collect with
      | beforeStart | afterStop =>
          rw [hcollect] at hs
          exact hs
      | sleeping =>
          rw [hcollect] at hs
          refine ⟨point_of_mainStep hs.1 ?_ hnext, hs.2⟩
          rintro rfl
          rw [RecorderState.mainMay, hcollect] at hmay
          cases hexiting : s.main.exiting with
          | false => rfl
          | true =>
              rw [hexiting] at hmay
              cases hmay
  | @startsTrace fd hpoint hcollect =>
      rw [SessionSegment, hcollect] at hs
      obtain ⟨hsession, hcalls⟩ := hs
      refine ⟨hpoint, ?_⟩
      by_cases hfd : fd < 0
      · refine Or.inl ⟨hfd, ?_, hcalls⟩
        rw [startPerfettoTrace, if_pos hfd, hsession]
      · refine Or.inr ⟨hfd, if_neg hfd, ?_⟩
        rw [hcalls]
        exact List.nil_suffix
  | @stopsTrace session hpoint hcollect hstop =>
      rw [SessionSegment, hcollect] at hs
      obtain ⟨-, ⟨hfd, hsession, hcalls⟩ | ⟨hfd, hsession, hcalls⟩⟩ := hs
      · rw [stopPerfettoTrace_of_neg hfd, hsession] at hstop
        obtain rfl := Option.some.inj hstop
        refine ⟨TracingSession.noConfusion, ?_⟩
        rw [hcalls]
        exact List.nil_infix
      · rw [hsession, stopPerfettoTrace_running hfd] at hstop
        obtain rfl := Option.some.inj hstop
        exact ⟨TracingSession.noConfusion, hcalls.isInfix⟩
  | fires =>
      unfold SessionSegment at hs ⊢
      exact hs
  | handles => exact hs.handled user _ _ _

theorem sessionSegment_run {k : KernelInfo} {user : UserState} {history : List RecorderEvent}
    {s : RecorderState} (hrun : recorderRun k user history = some s) : SessionSegment s := by
  apply run_invariant (fun _ s => SessionSegment s) sessionSegment_opened _ hrun
  intro _ s event next _ hs hstep
  exact hs.step (stepsRecorder hstep)

theorem SessionSegment.part {s : RecorderState} (hs : SessionSegment s) : s.inSession <:+: s.calls := by
  unfold SessionSegment at hs
  split at hs
  next => exact hs.2 ▸ List.nil_infix
  next =>
    obtain ⟨-, ⟨-, -, hcalls⟩ | ⟨-, -, hcalls⟩⟩ := hs
    · exact hcalls ▸ List.nil_infix
    · exact hcalls.isInfix
  next => exact hs.2

/-- Where no session runs and none is set up, no call is made in one. -/
theorem inSession_run_of_idle {k : KernelInfo} {user : UserState} {before s : RecorderState}
    {history : List RecorderEvent} (hrun : run (recorderStep k user) before history = some s)
    (hsession : before.session ≠ .running)
    (hstarts : before.collect = .beforeStart → ∀ fd, .startsTrace fd ∈ history → fd < 0) :
    s.inSession = before.inSession := by
  have hidle : s.session ≠ .running ∧ (s.collect = .beforeStart → before.collect = .beforeStart) ∧
      s.inSession = before.inSession := by
    apply run_invariant (fun done s =>
      (before.collect = .beforeStart → ∀ fd, .startsTrace fd ∈ done → fd < 0) →
        s.session ≠ .running ∧ (s.collect = .beforeStart → before.collect = .beforeStart) ∧
          s.inSession = before.inSession) _ _ hrun hstarts
    · exact fun _ => ⟨hsession, id, rfl⟩
    · intro done s event next _ ih hstep hstarts
      obtain ⟨hsession, hcollect, hsame⟩ := ih fun hbefore fd hfd =>
        hstarts hbefore fd (List.mem_append_left _ hfd)
      have hsteps := stepsRecorder hstep
      cases hsteps with
      | main | fires => exact ⟨hsession, hcollect, hsame⟩
      | @startsTrace fd _ hnow =>
          have hfd : fd < 0 := hstarts (hcollect hnow) fd (List.mem_append_right _ (by simp))
          refine ⟨?_, CollectPoint.noConfusion, hsame⟩
          rw [startPerfettoTrace, if_pos hfd]
          exact hsession
      | @stopsTrace session _ _ hstop =>
          exact ⟨stopPerfettoTrace_ne_running hsession hstop, CollectPoint.noConfusion, hsame⟩
      | handles =>
          refine ⟨hsession, hcollect, ?_⟩
          rw [RecorderState.handled, if_neg hsession]
          exact hsame
  exact hidle.2.2

/-- Until the session is stopped, all calls are made in it. -/
theorem calls_run_of_running {k : KernelInfo} {user : UserState} {before s : RecorderState}
    {history : List RecorderEvent} (hrun : run (recorderStep k user) before history = some s)
    (hcollect : before.collect = .sleeping) (hsession : before.session = .running)
    (hstop : .stopsTrace ∉ history) :
    s.session = .running ∧ s.collect = .sleeping ∧
      ∃ calls, s.calls = before.calls ++ calls ∧ s.inSession = before.inSession ++ calls := by
  apply run_invariant (fun done s => .stopsTrace ∉ done → s.session = .running ∧
    s.collect = .sleeping ∧
      ∃ calls, s.calls = before.calls ++ calls ∧ s.inSession = before.inSession ++ calls) _ _ hrun
    hstop
  · exact fun _ => ⟨hsession, hcollect, [], (List.append_nil _).symm, (List.append_nil _).symm⟩
  · intro done s event next _ ih hstep hstop
    obtain ⟨hsession, hcollect, calls, hcalls, hinSession⟩ := ih fun hmem =>
      hstop (List.mem_append_left _ hmem)
    have hsteps := stepsRecorder hstep
    cases hsteps with
    | main | fires => exact ⟨hsession, hcollect, calls, hcalls, hinSession⟩
    | startsTrace _ hnow =>
        rw [hcollect] at hnow
        cases hnow
    | stopsTrace => exact absurd (List.mem_append_right _ List.mem_cons_self) hstop
    | @handles _ record =>
        refine ⟨hsession, hcollect, calls ++ handleRecord user record, ?_, ?_⟩
        · rw [RecorderState.handled, hcalls]
          exact List.append_assoc ..
        · rw [RecorderState.handled, if_pos hsession, hinSession]
          exact List.append_assoc ..

/-- The calls made from the start of a session on are its own. -/
theorem calls_run_of_started {k : KernelInfo} {user : UserState} {opened closed : RecorderState}
    {fd : Int32} {during : List RecorderEvent}
    (hrun : run (recorderStep k user) opened (.startsTrace fd :: during) = some closed)
    (hsegment : SessionSegment opened) (hfd : ¬ fd < 0) (hstop : .stopsTrace ∉ during) :
    closed.calls = opened.calls ++ closed.inSession := by
  obtain ⟨started, hstart, hduring⟩ := run_cons_eq_some.mp hrun
  have hstarts := stepsRecorder hstart
  cases hstarts with
  | startsTrace _ hcollect =>
      rw [SessionSegment, hcollect] at hsegment
      have hstarted : startPerfettoTrace fd opened.session = .running := if_neg hfd
      obtain ⟨-, -, calls, hcalls, hinSession⟩ := calls_run_of_running hduring rfl hstarted hstop
      rw [hcalls, hinSession, hsegment.2, List.nil_append]

/-- From the stop on, no call is made in a session. -/
theorem inSession_run_of_stopped {k : KernelInfo} {user : UserState} {closed s : RecorderState}
    {rest : List RecorderEvent}
    (hrun : run (recorderStep k user) closed (.stopsTrace :: rest) = some s)
    (hsegment : SessionSegment closed) : s.inSession = closed.inSession := by
  obtain ⟨stopped, hstop, hrest⟩ := run_cons_eq_some.mp hrun
  have hstops := stepsRecorder hstop
  have hstopped := hsegment.step hstops
  cases hstops with
  | stopsTrace =>
      have hidle := inSession_run_of_idle hrest hstopped.1 CollectPoint.noConfusion
      exact hidle

/-- The tracing session of a history: the events up to its start, and those from there to
its stop, or to the end. There is none without a file. -/
def IsSession (history early session : List RecorderEvent) : Prop :=
  ∃ fd during late, ¬ fd < 0 ∧ session = .startsTrace fd :: during ∧ .stopsTrace ∉ during ∧
    history = early ++ session ++ late ∧ (late = [] ∨ ∃ rest, late = .stopsTrace :: rest)

/-- The calls made while the session runs are those between its start and its stop. -/
theorem calls_of_isSession {k : KernelInfo} {user : UserState} {history : List RecorderEvent}
    {s : RecorderState} (hrun : recorderRun k user history = some s)
    {early session : List RecorderEvent} (hsession : IsSession history early session) :
    ∃ opened closed, recorderRun k user early = some opened ∧
      recorderRun k user (early ++ session) = some closed ∧
        closed.calls = opened.calls ++ s.inSession := by
  obtain ⟨fd, during, late, hfd, rfl, hstop, rfl, hlate⟩ := hsession
  rw [recorderRun, run_append, Option.bind_eq_some_iff] at hrun
  obtain ⟨closed, hclosed, hrest⟩ := hrun
  have hearly := hclosed
  rw [run_append, Option.bind_eq_some_iff] at hearly
  obtain ⟨opened, hopened, hafter⟩ := hearly
  refine ⟨opened, closed, hopened, hclosed, ?_⟩
  have hsame : s.inSession = closed.inSession := by
    rcases hlate with rfl | ⟨rest, rfl⟩
    · rw [run_nil] at hrest
      rw [Option.some.inj hrest]
    · exact inSession_run_of_stopped hrest (sessionSegment_run hclosed)
  rw [hsame]
  exact calls_run_of_started hafter (sessionSegment_run hopened) hfd hstop

/-- In every interleaving, the calls made for an option while the session runs are a part
without a gap of those that handling each record at once would make. -/
theorem callsOf_inSession_part {k : KernelInfo} {user : UserState} {history : List RecorderEvent}
    {s : RecorderState} (hrun : recorderRun k user history = some s) (option : SaOption) :
    callsOf option s.inSession <:+: callsOf option ((sessionTracer k user).outputs .empty
      (history.filterMap RecorderEvent.firing?)) := by
  rw [← callsOf_recorderRun hrun option]
  have hcalls : callsOf option s.inSession <:+: callsOf option s.calls :=
    (sessionSegment_run hrun).part.filter _
  exact hcalls.trans (List.prefix_append _ _).isInfix

/-- What the recorder made of the hooks that fired. Option by option, against the calls
that handling each record at once would make, the calls made so far lack at the end
those for the records that still wait, and those made while the session runs are a
part without a gap: all that are made between its start and its stop. -/
structure RecordsInOrder (k : KernelInfo) (user : UserState) (history : List RecorderEvent)
    (s : RecorderState) : Prop where
  handled : ∀ option, callsOf option s.calls ++
      callsOf option ((s.rings option.ring).flatMap (handleRecord user)) =
    callsOf option ((sessionTracer k user).outputs .empty
      (history.filterMap RecorderEvent.firing?))
  part : ∀ option, callsOf option s.inSession <:+: callsOf option
    ((sessionTracer k user).outputs .empty (history.filterMap RecorderEvent.firing?))
  inSession : ∀ early session, IsSession history early session →
    ∃ opened closed, recorderRun k user early = some opened ∧
      recorderRun k user (early ++ session) = some closed ∧
        closed.calls = opened.calls ++ s.inSession
  withoutFile : (∀ fd, .startsTrace fd ∈ history → fd < 0) → s.inSession = []

/-- In every interleaving of the programs, the event threads and `main`, no call is lost
while its thread polls, made twice or out of order, and the calls made while the
session runs are those between its start and its stop. -/
theorem recordsInOrder_run {k : KernelInfo} {user : UserState} {history : List RecorderEvent}
    {s : RecorderState} (hrun : recorderRun k user history = some s) :
    RecordsInOrder k user history s where
  handled := callsOf_recorderRun hrun
  part := callsOf_inSession_part hrun
  inSession _ _ hsession := calls_of_isSession hrun hsession
  withoutFile hnone := inSession_run_of_idle hrun TracingSession.noConfusion fun _ => hnone

/-- A task is added on CPU 0. -/
def taskAdded (now : UInt64) : RecorderEvent :=
  .fires ((Hook.schedUpdateNrRunning (.unused 0) 1).firing now 0)

/-- Of three records, one is handled before the trace is started, one while it runs,
and one is left when its thread ends. -/
def threeRecords : List RecorderEvent :=
  [.main (.loaded 0), .main (.attached 0)] ++ List.replicate 8 (.main (.created 0)) ++
    [.main (.ringBuffer .rqNrRunning true), taskAdded 1000, .handles .rqNrRunning,
      .startsTrace 3, taskAdded 2000, taskAdded 3000, .handles .rqNrRunning, .main .signal,
      .main (.threadChecked .rqNrRunning), .stopsTrace]

/-- The options of a run that counts tasks. -/
def nrRunningUser : UserState :=
  .initial { SaOpts.initial with cpuNrRunning := true }

theorem exists_threeRecords :
    ∃ s, recorderRun (.complete 0) nrRunningUser threeRecords = some s :=
  Option.isSome_iff_exists.mp (by decide)

theorem recordsInOrder_threeRecords :
    ∃ s, recorderRun (.complete 0) nrRunningUser threeRecords = some s ∧
      RecordsInOrder (.complete 0) nrRunningUser threeRecords s := by
  obtain ⟨s, hrun⟩ := exists_threeRecords
  exact ⟨s, hrun, recordsInOrder_run hrun⟩

/-- Only the second of the three is in the trace. -/
example :
    (recorderRun (.complete 0) nrRunningUser threeRecords).map (fun s => s.inSession) =
      some [.cpu .nrRunning 2000 0 0] := by
  decide

/-- `main` never stops a session that was not set up, and leaves none running. -/
structure SessionSafe (s : RecorderState) : Prop where
  stops : s.collect = .sleeping → stopPerfettoTrace s.fd s.session ≠ none
  ends : s.main.point ≠ .collect → s.session ≠ .running

theorem sessionSafe_run {k : KernelInfo} {user : UserState} {history : List RecorderEvent}
    {s : RecorderState} (hrun : recorderRun k user history = some s) : SessionSafe s := by
  have hs := sessionSegment_run hrun
  constructor
  · intro hcollect
    rw [SessionSegment, hcollect] at hs
    obtain ⟨-, ⟨hfd, -, -⟩ | ⟨hfd, hsession, -⟩⟩ := hs
    · rw [stopPerfettoTrace_of_neg hfd]
      exact Option.some_ne_none _
    · rw [hsession, stopPerfettoTrace_running hfd]
      exact Option.some_ne_none _
  · intro hpoint hrunning
    unfold SessionSegment at hs
    split at hs
    next => rw [hs.1] at hrunning; cases hrunning
    next => exact hpoint hs.1
    next => exact hs.1 hrunning

/-- `main` sees that it has to stop, and goes on to the clean-up. -/
def leftLoop : List RecorderEvent :=
  threeRecords ++ [.main .checked]

theorem sessionSafe_threeRecords :
    (∃ s, recorderRun (.complete 0) nrRunningUser threeRecords.dropLast = some s ∧
      s.collect = .sleeping ∧ SessionSafe s) ∧
    ∃ s, recorderRun (.complete 0) nrRunningUser leftLoop = some s ∧
      s.main.point ≠ .collect ∧ SessionSafe s := by
  constructor
  · obtain ⟨s, hrun, hcollect⟩ : ∃ s, recorderRun (.complete 0) nrRunningUser
        threeRecords.dropLast = some s ∧ s.collect = .sleeping :=
      Option.map_eq_some_iff.mp (by decide)
    exact ⟨s, hrun, hcollect, sessionSafe_run hrun⟩
  · obtain ⟨s, hrun, hpoint⟩ : ∃ s, recorderRun (.complete 0) nrRunningUser leftLoop = some s ∧
        s.main.point = .destroy .rqPelt :=
      Option.map_eq_some_iff.mp (by decide)
    exact ⟨s, hrun, hpoint ▸ MainPoint.noConfusion, sessionSafe_run hrun⟩

end SchedAnalyzer
