import SchedAnalyzer.Foundation.LossyBrackets
import SchedAnalyzer.User.Main

/-! # Load-balance slices

Entry and exit hooks of the load-balance phases are nested on each CPU. A lost
reservation loses a begin or an end mark, and the end mark does not say what it
ends, so a lost one shifts those around it.
-/

namespace SchedAnalyzer

open Foundation Foundation.LossyBrackets

/-- The phase of a load-balance hook, and whether it is the entry. -/
def Hook.lbPhase : Hook → Option (LbPhase × Bool)
  | .nohzIdleBalanceEntry _ => some (.nohzIdleBalance, true)
  | .nohzIdleBalanceExit => some (.nohzIdleBalance, false)
  | .runRebalanceDomainsEntry => some (.runRebalanceDomains, true)
  | .runRebalanceDomainsExit => some (.runRebalanceDomains, false)
  | .rebalanceDomainsEntry _ _ => some (.rebalanceDomains, true)
  | .rebalanceDomainsExit => some (.rebalanceDomains, false)
  | .balanceFairEntry _ => some (.balanceFair, true)
  | .balanceFairExit => some (.balanceFair, false)
  | .pickNextTaskFairEntry _ => some (.pickNextTaskFair, true)
  | .pickNextTaskFairExit => some (.pickNextTaskFair, false)
  | .newidleBalanceEntry _ => some (.newidleBalance, true)
  | .newidleBalanceExit => some (.newidleBalance, false)
  | .loadBalanceEntry _ _ => some (.loadBalance, true)
  | .loadBalanceExit => some (.loadBalance, false)
  | _ => none

/-! ## The slices of a run -/

/-- The calls on every CPU, under the names of their phases. -/
abbrev LbHistory := History Int32 String

/-- The slice mark of a trace call, attributed to a call of a phase. -/
def TraceCall.lbMark (id : Nat) (phase : LbPhase) : TraceCall → Option (Mark Int32 String)
  | .lbEntry _ thisCpu _ name => some (.opened thisCpu ⟨id, name⟩)
  | .lbExit _ thisCpu _ => some (.closed thisCpu ⟨id, phase.label⟩)
  | _ => none

/-- Whether a load-balance hook gets its record: its reservation succeeds, and
an exit finds what its entry left in `lb_map`, which `run_rebalance_domains`
does not use. -/
def Firing.getsRecord (maps : BpfMaps) (f : Firing) (phase : LbPhase) (entry : Bool) : Bool :=
  f.reserved && (entry || phase == .runRebalanceDomains ||
    (maps.lbMap.lookup (lbKey phase f.thisCpu)).isSome)

/-- What a load-balance hook does to the nesting of its CPU. -/
def Firing.lbAction (maps : BpfMaps) (f : Firing) : Option (Action Int32 String) :=
  f.hook.lbPhase.map fun (phase, entry) =>
    ⟨f.thisCpu, phase.label, entry, f.getsRecord maps phase entry⟩

/-- The slice marks of a run, in the order of the records, each attributed to
the call its hook belongs to. -/
def lbSlices (k : KernelInfo) (state : UserState) :
    Transducer (BpfMaps × LbHistory) Firing (Mark Int32 String) where
  step current f :=
    let result := (tracer k state).step current.1 f
    match f.lbAction current.1, f.hook.lbPhase with
    | some action, some (phase, _) =>
        ((result.1, current.2.act action),
          result.2.filterMap (TraceCall.lbMark (current.2.tagOf action).id phase))
    | _, _ => ((result.1, current.2), [])

/-- The hooks of a run are properly nested on every CPU. -/
def LbNested (current : BpfMaps × LbHistory) (f : Firing) : Prop :=
  ∀ action ∈ f.lbAction current.1, current.2.Nested action

/-- An exit that gets its record belongs to a call whose entry got one and inside
which no call got an entry record only. -/
def LbComplete (current : BpfMaps × LbHistory) (f : Firing) : Prop :=
  ∀ action ∈ f.lbAction current.1, current.2.Sound action

/-- What a viewer of the slices should find: every end closes the slice of its
own call, and there is none for a call that was not opened. -/
structure LbPaired (marks : List (Mark Int32 String)) : Prop where
  innermost : Matched (fun _ => []) marks
  opened : ∀ before track tag after, marks = before ++ .closed track tag :: after →
    .opened track tag ∈ before

/-! ## One hook -/

/-- Every record has one mark, on the CPU it was taken on. -/
theorem filterMap_lbMark_handleLbEvent (opts : SaOpts) (e : LbEvent) (id : Nat)
    (phase : LbPhase) :
    (handleLbEvent opts e).filterMap (TraceCall.lbMark id phase) =
      [if e.entry then
          .opened e.thisCpu ⟨id, ((LbPhase.ofCode e.phase).map LbPhase.label).getD "unknown"⟩
        else .closed e.thisCpu ⟨id, phase.label⟩] := by
  have hcounter : ∀ condition call, TraceCall.lbMark id phase call = none →
      (callsIf condition [call]).filterMap (TraceCall.lbMark id phase) = [] := by
    intro condition call hcall
    cases condition <;> simp [hcall]
  simp only [handleLbEvent, List.filterMap_append]
  rw [hcounter _ _ rfl, hcounter _ _ rfl, hcounter _ _ rfl, hcounter _ _ rfl]
  cases e.entry <;> rfl

/-- The marks of a program that fills its record, if it gets one. -/
theorem filterMap_lbMark_records (state : UserState) (id : Nat) (phase : LbPhase)
    (entry : Bool) (thisCpu : Int32) (slot : Option LbEvent) (fill : LbEvent → LbEvent)
    (hfill : ∀ content, (fill content).entry = entry ∧ (fill content).thisCpu = thisCpu ∧
      (fill content).phase = phase.code) :
    (((slot.map fill).map Record.lb).toList.flatMap (handleRecord state)).filterMap
        (TraceCall.lbMark id phase) =
      if slot.isSome then
        [if entry then .opened thisCpu ⟨id, phase.label⟩ else .closed thisCpu ⟨id, phase.label⟩]
      else [] := by
  cases slot with
  | none => rfl
  | some content =>
      obtain ⟨hentry, hcpu, hphase⟩ := hfill content
      simp only [Option.map_some, Option.toList_some, List.flatMap_cons, List.flatMap_nil,
        List.append_nil, handleRecord, filterMap_lbMark_handleLbEvent, hentry, hcpu, hphase,
        LbPhase.ofCode_code, Option.getD_some, Option.isSome_some, if_true]

theorem isSome_reserve {Event : Type} (succeeds : Bool) (content : Event) :
    (reserve succeeds content).isSome = succeeds := by
  cases succeeds <;> rfl

theorem filterMap_lbMark_lbExit (state : UserState) (id : Nat) (phase : LbPhase)
    (maps : BpfMaps) (now : UInt64) (thisCpu : Int32) (reserved : Bool) (content : LbEvent) :
    ((lbResult maps (lbExit phase maps.lbMap now thisCpu (reserve reserved content))).2.flatMap
        (handleRecord state)).filterMap (TraceCall.lbMark id phase) =
      if reserved && (maps.lbMap.lookup (lbKey phase thisCpu)).isSome then
        [.closed thisCpu ⟨id, phase.label⟩]
      else [] := by
  unfold lbExit
  cases maps.lbMap.lookup (lbKey phase thisCpu) with
  | none => simp [lbResult]
  | some lbCpu =>
      have hmarks := filterMap_lbMark_records state id phase false thisCpu
        (reserve reserved content) (fillLb phase false now thisCpu lbCpu .none)
        (fun _ => ⟨rfl, rfl, rfl⟩)
      rw [isSome_reserve] at hmarks
      simpa [lbResult] using hmarks

/-- A load-balance hook adds one mark for its phase, if it gets a record. -/
theorem lbMarks_step (k : KernelInfo) (state : UserState) (maps : BpfMaps) {f : Firing}
    {phase : LbPhase} {entry : Bool} (hphase : f.hook.lbPhase = some (phase, entry)) (id : Nat) :
    ((tracer k state).step maps f).2.filterMap (TraceCall.lbMark id phase) =
      if f.getsRecord maps phase entry then
        [if entry then .opened f.thisCpu ⟨id, phase.label⟩
          else .closed f.thisCpu ⟨id, phase.label⟩]
      else [] := by
  obtain ⟨hook, now, nowNext, thisCpu, reserved, reservedNext, slots⟩ := f
  have hexit : ∀ phase : LbPhase, phase ≠ .runRebalanceDomains →
      ((lbResult maps (lbExit phase maps.lbMap now thisCpu (reserve reserved slots.lb))).2.flatMap
        (handleRecord state)).filterMap (TraceCall.lbMark id phase) =
      if reserved && (false || phase == .runRebalanceDomains ||
          (maps.lbMap.lookup (lbKey phase thisCpu)).isSome) then
        [.closed thisCpu ⟨id, phase.label⟩]
      else [] := by
    intro phase hne
    rw [filterMap_lbMark_lbExit, beq_eq_false_iff_ne.mpr hne, Bool.false_or, Bool.false_or]
  have hfilled : ∀ (phase : LbPhase) (entry : Bool) (fill : LbEvent → LbEvent),
      (∀ content, (fill content).entry = entry ∧ (fill content).thisCpu = thisCpu ∧
        (fill content).phase = phase.code) →
      ((((reserve reserved slots.lb).map fill).map Record.lb).toList.flatMap
          (handleRecord state)).filterMap (TraceCall.lbMark id phase) =
        if reserved && true then
          [if entry then .opened thisCpu ⟨id, phase.label⟩ else .closed thisCpu ⟨id, phase.label⟩]
        else [] := by
    intro phase entry fill hfill
    rw [filterMap_lbMark_records state id phase entry thisCpu _ fill hfill, isSome_reserve,
      Bool.and_true]
  -- Six exits go through the map, all other programs fill what they reserve.
  cases hook <;> simp only [Hook.lbPhase, Option.some.injEq, Prod.mk.injEq, reduceCtorEq] at hphase
  all_goals obtain ⟨rfl, rfl⟩ := hphase
  case nohzIdleBalanceExit => exact hexit _ (by decide)
  case rebalanceDomainsExit => exact hexit _ (by decide)
  case balanceFairExit => exact hexit _ (by decide)
  case pickNextTaskFairExit => exact hexit _ (by decide)
  case newidleBalanceExit => exact hexit _ (by decide)
  case loadBalanceExit => exact hexit _ (by decide)
  all_goals exact hfilled _ _ _ (fun _ => ⟨rfl, rfl, rfl⟩)

/-! ## The marks are those of the trace -/

/-- What a trace shows of a slice mark: its track, and a name if it opens one. -/
def TraceCall.sliceShown : TraceCall → Option (Int32 × Option String)
  | .lbEntry _ thisCpu _ name => some (thisCpu, some name)
  | .lbExit _ thisCpu _ => some (thisCpu, none)
  | _ => none

/-- The same of an attributed mark. -/
def shownOfMark : Mark Int32 String → Int32 × Option String
  | .opened track tag => (track, some tag.label)
  | .closed track _ => (track, none)

theorem map_shownOfMark_filterMap (id : Nat) (phase : LbPhase) (calls : List TraceCall) :
    (calls.filterMap (TraceCall.lbMark id phase)).map shownOfMark =
      calls.filterMap TraceCall.sliceShown := by
  rw [List.map_filterMap]
  congr 1
  funext call
  cases call <;> rfl

/-- No other handler makes a slice call of load balancing. -/
theorem sliceShown_of_not_lb {r : Record} (hlb : ∀ e, r ≠ .lb e) (state : UserState) :
    (handleRecord state r).filterMap TraceCall.sliceShown = [] := by
  cases r
  case lb e => exact absurd rfl (hlb e)
  case rqPelt e =>
    have hutil : (rqUtilAvgCalls state.opts e).filterMap TraceCall.sliceShown = [] := by
      unfold rqUtilAvgCalls
      split <;> simp [TraceCall.sliceShown, List.filterMap_cons, -List.filterMap_eq_nil_iff]
    simp [handleRecord, handleRqPeltEvent, TraceCall.sliceShown, hutil]
  case taskPelt e =>
    simp only [handleRecord, handleTaskPeltEvent]
    split <;> simp [TraceCall.sliceShown, List.filterMap_cons, -List.filterMap_eq_nil_iff]
  case schedSwitch e =>
    simp only [handleRecord, handleSchedSwitchEvent]
    split <;> simp [TraceCall.sliceShown, List.filterMap_cons, -List.filterMap_eq_nil_iff]
  all_goals
    simp [handleRecord, handleRqNrRunningEvent, handleFreqIdleEvent, handleSoftirqEvent,
      handleIpiEvent, TraceCall.sliceShown]

/-- The programs of the other hooks submit no load-balance record. -/
theorem not_lb_of_mem_fire {k : KernelInfo} {maps : BpfMaps} {f : Firing}
    (hphase : f.hook.lbPhase = none) : ∀ r ∈ (fire k maps f).2, ∀ e, r ≠ .lb e := by
  rintro r hr e rfl
  have hring := ring_of_mem_fire hr
  cases hhook : f.hook <;> rw [hhook] at hphase hring <;>
    simp [Hook.lbPhase, Hook.program, Program.ring, Record.ring] at hphase hring

theorem sliceShown_step_of_other (k : KernelInfo) (state : UserState) (maps : BpfMaps)
    {f : Firing} (hphase : f.hook.lbPhase = none) :
    ((tracer k state).step maps f).2.filterMap TraceCall.sliceShown = [] := by
  have hother : ∀ r ∈ (fire k maps f).2, ∀ e, r ≠ .lb e := not_lb_of_mem_fire hphase
  simp only [tracer, List.filterMap_flatMap, List.flatMap_eq_nil_iff]
  intro r hr
  exact sliceShown_of_not_lb (hother r hr) state

/-- What the viewer reads is what the trace shows, mark by mark. -/
theorem lbSlices_shown (k : KernelInfo) (state : UserState) (maps : BpfMaps)
    (history : LbHistory) (run : List Firing) :
    ((lbSlices k state).outputs (maps, history) run).map shownOfMark =
      ((tracer k state).outputs maps run).filterMap TraceCall.sliceShown := by
  induction run generalizing maps history with
  | nil => rfl
  | cons f rest ih =>
      rw [Transducer.outputs_cons, Transducer.outputs_cons, List.map_append,
        List.filterMap_append]
      cases hphase : f.hook.lbPhase with
      | none =>
          rw [sliceShown_step_of_other k state maps hphase]
          simp only [lbSlices, Firing.lbAction, hphase, Option.map_none, List.map_nil]
          exact congrArg _ (ih _ history)
      | some phase =>
          simp only [lbSlices, Firing.lbAction, hphase, Option.map_some,
            map_shownOfMark_filterMap]
          exact congrArg _ (ih _ _)

/-! ## Runs -/

/-- A load-balance hook takes the step of its action on the nesting, and any
other hook none. -/
theorem lbSlices_step (k : KernelInfo) (state : UserState) (maps : BpfMaps)
    (history : LbHistory) (f : Firing) :
    (lbSlices k state).step (maps, history) f =
      ((((tracer k state).step maps f).1, (f.lbAction maps).elim history history.act),
        (f.lbAction maps).elim [] history.marks) := by
  cases hphase : f.hook.lbPhase with
  | none => simp [lbSlices, Firing.lbAction, hphase]
  | some pair =>
      obtain ⟨phase, entry⟩ := pair
      have haction : f.lbAction maps =
          some ⟨f.thisCpu, phase.label, entry, f.getsRecord maps phase entry⟩ := by
        simp [Firing.lbAction, hphase]
      have hstep : (lbSlices k state).step (maps, history) f =
          ((((tracer k state).step maps f).1,
            history.act ⟨f.thisCpu, phase.label, entry, f.getsRecord maps phase entry⟩),
            ((tracer k state).step maps f).2.filterMap (TraceCall.lbMark (history.tagOf
              ⟨f.thisCpu, phase.label, entry, f.getsRecord maps phase entry⟩).id phase)) := by
        simp only [lbSlices, haction, hphase]
      rw [hstep, haction, lbMarks_step k state maps hphase]
      simp only [Option.elim_some, History.marks]
      congr 2
      cases entry with
      | true => rfl
      | false =>
          simp only [History.tagOf, Bool.false_eq_true, if_false]
          cases (history.tracks f.thisCpu).calls.head? <;> rfl

/-- The step lemma: under the invariant, the viewer is right about a hook and
the rest of the run exactly when the hook is complete and the viewer is right
about the rest. -/
theorem matched_step_iff {k : KernelInfo} {state : UserState} {maps : BpfMaps}
    {history : LbHistory} {f : Firing} (hvalid : history.Valid)
    (hnested : LbNested (maps, history) f) (rest : List (Mark Int32 String)) :
    Matched history.slices (((lbSlices k state).step (maps, history) f).2 ++ rest) ↔
      LbComplete (maps, history) f ∧
        Matched ((lbSlices k state).step (maps, history) f).1.2.slices rest := by
  rw [lbSlices_step]
  cases haction : f.lbAction maps with
  | none =>
      have hcomplete : LbComplete (maps, history) f := by
        intro action hsome
        rw [Option.mem_def, haction] at hsome
        exact absurd hsome (by simp)
      simp [hcomplete]
  | some action =>
      have hcomplete : LbComplete (maps, history) f ↔ history.Sound action := by
        simp [LbComplete, haction]
      rw [hcomplete]
      exact History.matched_act_iff hvalid (hnested action haction) rest

theorem valid_step (k : KernelInfo) (state : UserState) (maps : BpfMaps) {history : LbHistory}
    (hvalid : history.Valid) (f : Firing) :
    ((lbSlices k state).step (maps, history) f).1.2.Valid := by
  rw [lbSlices_step]
  cases f.lbAction maps with
  | none => exact hvalid
  | some action => exact hvalid.act action

theorem matched_run_iff {k : KernelInfo} {state : UserState} {maps : BpfMaps}
    {history : LbHistory} {run : List Firing} (hvalid : history.Valid)
    (hnested : (lbSlices k state).Along LbNested (maps, history) run) :
    Matched history.slices ((lbSlices k state).outputs (maps, history) run) ↔
      (lbSlices k state).Along LbComplete (maps, history) run := by
  induction run generalizing maps history with
  | nil => exact Iff.rfl
  | cons f rest ih =>
      obtain ⟨hfirst, hrest⟩ := hnested
      rw [Transducer.outputs_cons, Transducer.along_cons, matched_step_iff hvalid hfirst]
      exact and_congr_right fun _ => ih (valid_step k state maps hvalid f) hrest

/-- In a run whose load-balance hooks are properly nested on every CPU, every end
closes the slice of its own call if and only if, at every exit that gets a
record, the entry of the same call got one and no call inside it got an entry
record only. -/
theorem lbPaired_iff {k : KernelInfo} {state : UserState} {maps : BpfMaps} {run : List Firing}
    (hnested : (lbSlices k state).Along LbNested (maps, .empty) run) :
    LbPaired ((lbSlices k state).outputs (maps, .empty) run) ↔
      (lbSlices k state).Along LbComplete (maps, .empty) run := by
  have hempty : (History.empty : LbHistory).slices = fun _ => [] := rfl
  rw [← matched_run_iff History.Valid.empty hnested, hempty]
  constructor
  · exact LbPaired.innermost
  · intro hmatched
    refine ⟨hmatched, ?_⟩
    intro before track tag after hsplit
    rw [hsplit] at hmatched
    rcases hmatched.opened_before with hopen | hbefore
    · exact absurd hopen List.not_mem_nil
    · exact hbefore

instance decidableLbNested (current : BpfMaps × LbHistory) (f : Firing) :
    Decidable (LbNested current f) :=
  inferInstanceAs (Decidable (∀ action ∈ f.lbAction current.1, current.2.Nested action))

instance decidableLbComplete (current : BpfMaps × LbHistory) (f : Firing) :
    Decidable (LbComplete current f) :=
  inferInstanceAs (Decidable (∀ action ∈ f.lbAction current.1, current.2.Sound action))

/-- `--load_balance`. -/
def balanceOpts : SaOpts :=
  { SaOpts.initial with loadBalance := true }

/-- A `balance_fair` call on CPU 0 around a `load_balance` call. -/
def nestedBalance : List Firing :=
  [(Hook.balanceFairEntry (.unused 0)).firing 1000 0,
    (Hook.loadBalanceEntry 1 (.unused 1)).firing 2000 0,
    Hook.loadBalanceExit.firing 3000 0,
    Hook.balanceFairExit.firing 4000 0]

theorem lbPaired_nestedBalance :
    LbPaired ((lbSlices (.complete (kernelVersion 6 6 0)) (.initial balanceOpts)).outputs
      (.empty, .empty) nestedBalance) :=
  (lbPaired_iff (by decide)).mpr (by decide)

/-- A `balance_fair` call whose entry record is lost. -/
def lostBalanceEntry : List Firing :=
  [{ (Hook.balanceFairEntry (.unused 0)).firing 1000 0 with reserved := false },
    Hook.balanceFairExit.firing 2000 0]

/-- The exit finds the pending state and ends a slice that was never opened. -/
theorem lbPaired_fails_for_lost_entry :
    (lbSlices (.complete (kernelVersion 6 6 0)) (.initial balanceOpts)).Along LbNested
        (.empty, .empty) lostBalanceEntry ∧
      ¬ LbPaired ((lbSlices (.complete (kernelVersion 6 6 0)) (.initial balanceOpts)).outputs
        (.empty, .empty) lostBalanceEntry) := by
  have hmarks : (lbSlices (.complete (kernelVersion 6 6 0)) (.initial balanceOpts)).outputs
      (.empty, .empty) lostBalanceEntry = [.closed 0 ⟨0, "balance_fair()"⟩] := by decide
  refine ⟨by decide, ?_⟩
  rw [hmarks]
  intro hpaired
  exact absurd hpaired.innermost.1 (by simp)

end SchedAnalyzer
