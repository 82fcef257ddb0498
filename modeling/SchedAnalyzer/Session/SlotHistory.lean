import Mathlib.Data.List.Forall2
import SchedAnalyzer.Session.Gating

/-! # What a reserved slot held before

A reservation does not clear the slot. Two records read the same when they
agree on everything their handler looks at: the string in a `char` array and
the levels in front of the terminator, not the bytes behind. Programs that
store every field submit records that read the same whatever their slots held.
-/

namespace SchedAnalyzer

open Foundation Foundation.CString

/-! ## Records that read the same -/

/-- The record's handler cannot tell one from the other. -/
def Record.SameReading : Record → Record → Prop
  | .taskPelt e, .taskPelt e' =>
      cstr e.comm = cstr e'.comm ∧ { e with comm := [] } = { e' with comm := [] }
  | .schedSwitch e, .schedSwitch e' =>
      cstr e.comm = cstr e'.comm ∧ { e with comm := [] } = { e' with comm := [] }
  | .softirq e, .softirq e' => e = e'
  | .lb e, .lb e' =>
      { e with sdStats := e'.sdStats } = e' ∧
        (LbPhase.ofCode e.phase = some .rebalanceDomains → e.entry = true →
          e.sdStats.cpu = e'.sdStats.cpu ∧ e.sdStats.levels = e'.sdStats.levels)
  | .rqPelt e, .rqPelt e' => e = e'
  | .rqNrRunning e, .rqNrRunning e' => e = e'
  | .freqIdle e, .freqIdle e' => e = e'
  | .ipi e, .ipi e' => e = e'
  | _, _ => False

theorem ignorePidComm_congr {comm comm' : List Char} (hcomm : cstr comm = cstr comm')
    (opts : SaOpts) (pid : Int32) :
    ignorePidComm opts pid comm = ignorePidComm opts pid comm' := by
  have hstrstr : ∀ filter, strstr comm filter = strstr comm' filter := by
    intro filter
    rw [Bool.eq_iff_iff, strstr_iff, strstr_iff, hcomm]
  simp only [ignorePidComm, hstrstr]

theorem handleTaskPeltEvent_congr {e e' : TaskPeltEvent} (hcomm : cstr e.comm = cstr e'.comm)
    (hrest : { e with comm := [] } = { e' with comm := [] }) (opts : SaOpts) :
    handleTaskPeltEvent opts e = handleTaskPeltEvent opts e' := by
  cases e
  cases e'
  simp only [TaskPeltEvent.mk.injEq, true_and] at hrest hcomm
  obtain ⟨rfl, rfl, rfl, rfl, rfl, rfl, rfl, rfl, rfl, rfl, rfl⟩ := hrest
  simp only [handleTaskPeltEvent, hcomm, ignorePidComm_congr hcomm]

theorem handleSchedSwitchEvent_congr {e e' : SchedSwitchEvent}
    (hcomm : cstr e.comm = cstr e'.comm)
    (hrest : { e with comm := [] } = { e' with comm := [] }) (opts : SaOpts) :
    handleSchedSwitchEvent opts e = handleSchedSwitchEvent opts e' := by
  cases e
  cases e'
  simp only [SchedSwitchEvent.mk.injEq, true_and] at hrest hcomm
  obtain ⟨rfl, rfl, rfl, rfl⟩ := hrest
  simp only [handleSchedSwitchEvent, hcomm, ignorePidComm_congr hcomm]

theorem handleLbEvent_congr {e e' : LbEvent} (hrest : { e with sdStats := e'.sdStats } = e')
    (hstats : LbPhase.ofCode e.phase = some .rebalanceDomains → e.entry = true →
      e.sdStats.cpu = e'.sdStats.cpu ∧ e.sdStats.levels = e'.sdStats.levels) (opts : SaOpts) :
    handleLbEvent opts e = handleLbEvent opts e' := by
  rw [← hrest]
  simp only [handleLbEvent]
  congr 4
  by_cases hread : LbPhase.ofCode e.phase = some .rebalanceDomains ∧ e.entry = true
  · obtain ⟨hcpu, hlevels⟩ := hstats hread.1 hread.2
    rw [hcpu, hlevels]
  · have hskip : (LbPhase.ofCode e.phase == some .rebalanceDomains && e.entry) = false := by
      rw [Bool.eq_false_iff, ne_eq, Bool.and_eq_true, beq_iff_eq]
      exact hread
    rw [hskip, callsIf_false, callsIf_false]

theorem handleRecord_congr {r r' : Record} (hsame : r.SameReading r') (state : UserState) :
    handleRecord state r = handleRecord state r' := by
  cases r <;> cases r' <;> simp only [Record.SameReading] at hsame
  case taskPelt e e' => exact handleTaskPeltEvent_congr hsame.1 hsame.2 state.opts
  case schedSwitch e e' => exact handleSchedSwitchEvent_congr hsame.1 hsame.2 state.opts
  case lb e e' => exact handleLbEvent_congr hsame.1 hsame.2 state.opts
  all_goals rw [hsame]

theorem flatMap_handleRecord_congr {records records' : List Record}
    (hsame : List.Forall₂ Record.SameReading records records') (state : UserState) :
    records.flatMap (handleRecord state) = records'.flatMap (handleRecord state) := by
  induction hsame with
  | nil => rfl
  | cons hhead _ ih => rw [List.flatMap_cons, List.flatMap_cons, handleRecord_congr hhead, ih]

/-! ## The levels in front of the terminator -/

/-- Equal statistics up to a level. -/
structure LbSdStats.AgreeBelow (bound : Nat) (stats stats' : LbSdStats) : Prop where
  cpu : stats.cpu = stats'.cpu
  level : ∀ i < bound, stats.level i = stats'.level i
  balanceInterval : ∀ i < bound, stats.balanceInterval i = stats'.balanceInterval i

namespace LbSdStats

variable {bound : Nat} {stats stats' : LbSdStats}

/-- Storing a level and its interval settles one more entry. -/
theorem AgreeBelow.store (hagree : AgreeBelow bound stats stats') (hbound : bound < maxSdLevels)
    (level : Int32) (interval : UInt32) :
    AgreeBelow (bound + 1) ((stats.storeLevel bound level).storeBalanceInterval bound interval)
      ((stats'.storeLevel bound level).storeBalanceInterval bound interval) := by
  simp only [storeLevel, storeBalanceInterval, if_pos hbound]
  refine ⟨hagree.cpu, ?_, ?_⟩
  · intro i hi
    by_cases heq : i = bound
    · subst heq
      simp
    · simp only [Function.update_of_ne heq]
      exact hagree.level i (by omega)
  · intro i hi
    by_cases heq : i = bound
    · subst heq
      simp
    · simp only [Function.update_of_ne heq]
      exact hagree.balanceInterval i (by omega)

/-- The store one past the levels goes to the first interval of both. -/
theorem AgreeBelow.store_past (hagree : AgreeBelow maxSdLevels stats stats') (level : Int32)
    (interval : UInt32) :
    AgreeBelow maxSdLevels
      ((stats.storeLevel maxSdLevels level).storeBalanceInterval maxSdLevels interval)
      ((stats'.storeLevel maxSdLevels level).storeBalanceInterval maxSdLevels interval) := by
  have hpast : maxSdLevels < 2 * maxSdLevels := by decide
  simp only [storeLevel, storeBalanceInterval, if_neg (Nat.lt_irrefl maxSdLevels), if_pos hpast,
    Nat.sub_self]
  refine ⟨hagree.cpu, hagree.level, ?_⟩
  intro i hi
  by_cases heq : i = 0
  · subst heq
    simp
  · simp only [Function.update_of_ne heq]
    exact hagree.balanceInterval i hi

/-- The entry of a level. -/
def entryAt (stats : LbSdStats) (i : Nat) : Int32 × UInt32 :=
  (stats.level i, stats.balanceInterval i)

theorem levels_eq (stats : LbSdStats) :
    stats.levels = ((List.range maxSdLevels).map stats.entryAt).takeWhile
      (fun entry => !(entry.1 == -1 && entry.2 == 0)) := rfl

/-- What is read stops at a terminator. -/
theorem levels_congr (hagree : AgreeBelow bound stats stats') (hbound : bound ≤ maxSdLevels)
    (hstop : bound = maxSdLevels ∨ ∃ i < bound, stats.entryAt i = (-1, 0)) :
    stats.levels = stats'.levels := by
  have hentry : ∀ i < bound, stats.entryAt i = stats'.entryAt i := by
    intro i hi
    rw [entryAt, entryAt, hagree.level i hi, hagree.balanceInterval i hi]
  have hmap : (List.range bound).map stats.entryAt = (List.range bound).map stats'.entryAt := by
    apply List.map_congr_left
    intro i hi
    exact hentry i (List.mem_range.mp hi)
  rw [levels_eq, levels_eq]
  rcases hstop with rfl | ⟨i, hi, hterminator⟩
  · rw [hmap]
  · obtain ⟨rest, hrest⟩ := Nat.exists_eq_add_of_le hbound
    rw [hrest, List.range_add, List.map_append, List.map_append, hmap, List.takeWhile_append,
      List.takeWhile_append]
    have hshort : (((List.range bound).map stats'.entryAt).takeWhile
        (fun entry => !(entry.1 == -1 && entry.2 == 0))).length ≠
          ((List.range bound).map stats'.entryAt).length := by
      intro hlen
      have hall := (List.takeWhile_prefix _).eq_of_length hlen
      rw [List.takeWhile_eq_self_iff] at hall
      have hfail := hall (stats'.entryAt i)
        (List.mem_map_of_mem (List.mem_range.mpr hi))
      rw [← hentry i hi, hterminator] at hfail
      exact absurd hfail (by decide)
    rw [if_neg hshort, if_neg hshort]

end LbSdStats

/-- The loop over the domains ends at the same level for both, with equal
entries up to it. -/
theorem genSchedDomainLoop_agree (busy : Bool) (domains : List SchedDomain) {start : Nat}
    {stats stats' : LbSdStats} (hagree : stats.AgreeBelow start stats')
    (hstart : start ≤ maxSdLevels) :
    ∃ stop filled filled', stop ≤ maxSdLevels ∧
      genSchedDomainLoop busy domains start stats = (stop, filled) ∧
      genSchedDomainLoop busy domains start stats' = (stop, filled') ∧
      filled.AgreeBelow stop filled' := by
  induction domains generalizing start stats stats' with
  | nil => exact ⟨start, stats, stats', hstart, rfl, rfl, hagree⟩
  | cons sd parents ih =>
      simp only [genSchedDomainLoop]
      by_cases hlt : start < maxSdLevels
      · simp only [if_pos hlt]
        exact ih (hagree.store hlt sd.level (sdInterval busy sd)) hlt
      · simp only [if_neg hlt]
        exact ⟨start, stats, stats', hstart, rfl, rfl, hagree⟩

/-- Whatever the slot held, the statistics of a runqueue are read the same. -/
theorem genSchedDomainStats_reading (rq : Rq) (idle : CpuIdleType) (stats stats' : LbSdStats) :
    (genSchedDomainStats rq idle stats).cpu = (genSchedDomainStats rq idle stats').cpu ∧
      (genSchedDomainStats rq idle stats).levels =
        (genSchedDomainStats rq idle stats').levels := by
  have hinit : LbSdStats.AgreeBelow 0 { stats with cpu := rq.cpu } { stats' with cpu := rq.cpu } :=
    ⟨rfl, fun i hi => absurd hi (Nat.not_lt_zero i), fun i hi => absurd hi (Nat.not_lt_zero i)⟩
  obtain ⟨stop, filled, filled', hstop, hloop, hloop', hagree⟩ :=
    genSchedDomainLoop_agree (rqBusy rq idle) rq.sd hinit (Nat.zero_le _)
  simp only [genSchedDomainStats, hloop, hloop']
  rcases Nat.lt_or_eq_of_le hstop with hlt | rfl
  · have hnext := hagree.store hlt (-1) 0
    refine ⟨hnext.cpu, LbSdStats.levels_congr hnext hlt (Or.inr ⟨stop, by omega, ?_⟩)⟩
    simp [LbSdStats.entryAt, LbSdStats.storeLevel, LbSdStats.storeBalanceInterval, hlt]
  · -- All levels are in use and the terminator lands in the intervals.
    have hpast := hagree.store_past (-1) 0
    exact ⟨hpast.cpu, LbSdStats.levels_congr hpast le_rfl (Or.inl rfl)⟩

/-! ## Producers -/

/-- A reservation that may fail, of either of two slots, filled by one program. -/
theorem forall₂_reserve {Event : Type} {wrap : Event → Record} {fill : Event → Event}
    (hfill : ∀ content content', (wrap (fill content)).SameReading (wrap (fill content')))
    (reserved : Bool) (content content' : Event) :
    List.Forall₂ Record.SameReading
      (((reserve reserved content).map fill).map wrap).toList
      (((reserve reserved content').map fill).map wrap).toList := by
  cases reserved with
  | true => exact .cons (hfill content content') .nil
  | false => exact .nil

theorem fillLb_sameReading (phase : LbPhase) (entry : Bool)
    (hstats : ¬ (phase = .rebalanceDomains ∧ entry = true)) (now : UInt64)
    (thisCpu lbCpu : Int32) (load : LbLoad) (content content' : LbEvent) :
    (Record.lb (fillLb phase entry now thisCpu lbCpu load content)).SameReading
      (.lb (fillLb phase entry now thisCpu lbCpu load content')) := by
  refine ⟨rfl, ?_⟩
  intro hphase hentry
  simp only [fillLb, LbPhase.ofCode_code, Option.some.injEq] at hphase
  exact absurd ⟨hphase, hentry⟩ hstats

theorem lbEntry_sameReading {phase : LbPhase} (hphase : phase ≠ .rebalanceDomains)
    (maps : BpfMaps) (now : UInt64) (thisCpu lbCpu : Int32) (load : LbLoad) (reserved : Bool)
    (content content' : LbEvent) :
    List.Forall₂ Record.SameReading
      (lbResult maps (lbEntry phase maps.lbMap now thisCpu lbCpu load
        (reserve reserved content))).2
      (lbResult maps (lbEntry phase maps.lbMap now thisCpu lbCpu load
        (reserve reserved content'))).2 :=
  forall₂_reserve (fillLb_sameReading phase true (fun h => hphase h.1) now thisCpu lbCpu load)
    reserved content content'

theorem lbExit_sameReading (phase : LbPhase) (maps : BpfMaps) (now : UInt64) (thisCpu : Int32)
    (reserved : Bool) (content content' : LbEvent) :
    List.Forall₂ Record.SameReading
      (lbResult maps (lbExit phase maps.lbMap now thisCpu (reserve reserved content))).2
      (lbResult maps (lbExit phase maps.lbMap now thisCpu (reserve reserved content'))).2 := by
  unfold lbExit
  cases maps.lbMap.lookup (lbKey phase thisCpu) with
  | none => exact .nil
  | some lbCpu =>
      exact forall₂_reserve
        (fillLb_sameReading phase false (fun h => Bool.noConfusion h.2) now thisCpu lbCpu .none)
        reserved content content'

/-- The hook whose record keeps the type tag of its slot. -/
def Firing.keepsType (k : KernelInfo) (f : Firing) : Bool :=
  match f.hook with
  | .utilEstCfs cfsRq => cfsRqIsRoot k cfsRq && f.reserved
  | _ => false

theorem submitClassPelt_sameReading (fieldExists : Bool) (type : PeltType)
    (loadAvg utilAvg now : UInt64) (rq : Rq) (reserved : Bool) (content content' : RqPeltEvent) :
    List.Forall₂ Record.SameReading
      ((submitClassPelt fieldExists type loadAvg utilAvg now rq
        (reserve reserved content)).map Record.rqPelt).toList
      ((submitClassPelt fieldExists type loadAvg utilAvg now rq
        (reserve reserved content')).map Record.rqPelt).toList := by
  cases fieldExists with
  | true =>
      refine forall₂_reserve ?_ reserved content content'
      exact fun _ _ => rfl
  | false => exact .nil

/-- Every other program stores all that is read. -/
theorem fire_sameReading {k : KernelInfo} (maps : BpfMaps) {f : Firing}
    (hstores : f.keepsType k = false) (slots slots' : Slots) :
    List.Forall₂ Record.SameReading
      (fire k maps { f with slots := slots }).2 (fire k maps { f with slots := slots' }).2 := by
  obtain ⟨hook, now, nowNext, thisCpu, reserved, reservedNext, held⟩ := f
  cases hook
  case peltSe se =>
    simp only [fire, handlePeltSe]
    split
    · refine forall₂_reserve ?_ reserved _ _
      exact fun _ _ => ⟨by simp, rfl⟩
    · exact .nil
  case utilEstSe se =>
    simp only [fire, handleUtilEstSe]
    split
    · refine forall₂_reserve ?_ reserved _ _
      exact fun _ _ => ⟨by simp, rfl⟩
    · exact .nil
  case peltCfs cfsRq =>
    simp only [fire, handlePeltCfs]
    split
    · cases rqOf k cfsRq with
      | none => exact .nil
      | some rq => cases reserved <;> first | exact .cons rfl .nil | exact .nil
    · exact .nil
  case utilEstCfs cfsRq =>
    -- No record is submitted, so the missing store does not show.
    simp only [Firing.keepsType, Bool.and_eq_false_iff] at hstores
    simp only [fire, handleUtilEstCfs]
    rcases hstores with hroot | hreserved
    · simp only [hroot]
      exact .nil
    · simp only [hreserved]
      split
      · cases rqOf k cfsRq <;> exact .nil
      · exact .nil
  case peltRt rq => exact submitClassPelt_sameReading _ _ _ _ _ rq reserved _ _
  case peltDl rq => exact submitClassPelt_sameReading _ _ _ _ _ rq reserved _ _
  case peltIrq rq => exact submitClassPelt_sameReading _ _ _ _ _ rq reserved _ _
  case peltThermal rq => exact submitClassPelt_sameReading _ _ _ _ _ rq reserved _ _
  case schedUpdateNrRunning rq change =>
    refine forall₂_reserve ?_ reserved _ _
    exact fun _ _ => rfl
  case schedSwitch prev next =>
    simp only [fire, handleSchedSwitch, List.map_append, ← Option.toList_map]
    refine List.rel_append ?_ ?_
    · refine forall₂_reserve ?_ reserved _ _
      exact fun _ _ => ⟨by simp, rfl⟩
    · refine forall₂_reserve ?_ reservedNext _ _
      exact fun _ _ => ⟨by simp, rfl⟩
  case schedProcessFree p =>
    refine forall₂_reserve ?_ reserved _ _
    exact fun _ _ => ⟨by simp, rfl⟩
  case cpuFrequency frequency cpu =>
    refine forall₂_reserve ?_ reserved _ _
    exact fun _ _ => rfl
  case cpuIdle state cpu =>
    refine forall₂_reserve ?_ reserved _ _
    exact fun _ _ => rfl
  case cpuIdleMiss cpu state below =>
    refine forall₂_reserve ?_ reserved _ _
    exact fun _ _ => rfl
  case softirqEntry vecNr => exact .nil
  case softirqExit vecNr =>
    simp only [fire, handleSoftirqExit]
    split
    · exact .nil
    · refine forall₂_reserve ?_ reserved _ _
      exact fun _ _ => rfl
  case nohzIdleBalanceEntry rq => exact lbEntry_sameReading (by decide) maps _ _ _ _ reserved _ _
  case runRebalanceDomainsEntry =>
    exact forall₂_reserve (fillLb_sameReading _ true (by decide) _ _ _ _) reserved _ _
  case runRebalanceDomainsExit =>
    exact forall₂_reserve (fillLb_sameReading _ false (by decide) _ _ _ _) reserved _ _
  case rebalanceDomainsEntry rq idle =>
    refine forall₂_reserve ?_ reserved _ _
    intro content content'
    exact ⟨rfl, fun _ _ => genSchedDomainStats_reading rq idle _ _⟩
  case balanceFairEntry rq => exact lbEntry_sameReading (by decide) maps _ _ _ _ reserved _ _
  case pickNextTaskFairEntry rq => exact lbEntry_sameReading (by decide) maps _ _ _ _ reserved _ _
  case newidleBalanceEntry rq => exact lbEntry_sameReading (by decide) maps _ _ _ _ reserved _ _
  case loadBalanceEntry lbCpu lbRq =>
    exact lbEntry_sameReading (by decide) maps _ _ _ _ reserved _ _
  case ipiSendCpu cpu callsite callback =>
    refine forall₂_reserve ?_ reserved _ _
    exact fun _ _ => rfl
  -- The remaining programs are the exits that use the map.
  all_goals exact lbExit_sameReading _ maps _ _ reserved _ _

/-! ## Independence -/

/-- The calls made for an invocation are the same whatever its slots held. -/
def SlotIndependent (k : KernelInfo) (state : UserState) (maps : BpfMaps) (f : Firing) : Prop :=
  ∀ slots slots', ((tracer k state).step maps { f with slots := slots }).2 =
    ((tracer k state).step maps { f with slots := slots' }).2

theorem autoload_of_keepsType {k : KernelInfo} {f : Firing} (hkeeps : f.keepsType k = true)
    {opts : SaOpts} : autoload opts f.hook.program = opts.utilEstCpu := by
  unfold Firing.keepsType at hkeeps
  split at hkeeps
  next cfsRq hhook =>
    rw [autoload_eq, hhook]
    simp [Hook.program, alwaysDisabled, Program.enabledBy, SaOpts.isOn]
  next => exact Bool.noConfusion hkeeps

/-- A record of `handle_util_est_cfs` is dispatched on the type its slot held. -/
theorem calls_of_keepsType {k : KernelInfo} {f : Firing} (state : UserState) (maps : BpfMaps)
    (hkeeps : f.keepsType k = true) :
    ∃ cpu enqueued, ∀ slots, ((tracer k state).step maps { f with slots := slots }).2 =
      callsIf (slots.rqPelt.type == PeltType.thermal.code && state.opts.loadAvgThermal)
          [.cpu .loadAvgThermal f.now cpu (toCInt absent)] ++
        callsIf (state.opts.utilEstCpu && enqueued != absent)
          [.cpu .utilEstEnqueued f.now cpu (toCInt enqueued)] := by
  obtain ⟨hook, now, nowNext, thisCpu, reserved, reservedNext, held⟩ := f
  cases hook
  case utilEstCfs cfsRq =>
    simp only [Firing.keepsType, Bool.and_eq_true] at hkeeps
    obtain ⟨hroot, rfl⟩ := hkeeps
    obtain ⟨rq, hrq, -⟩ := cfsRqIsRoot_eq_true.mp hroot
    refine ⟨rq.cpu, maskUtilEst (readUtilEst k cfsRq.avg).1, fun slots => ?_⟩
    simp [tracer, fire, handleUtilEstCfs, hroot, hrq, handleRecord, handleRqPeltEvent]
  all_goals exact absurd hkeeps (by simp [Firing.keepsType])

theorem slotIndependent_of_stores {k : KernelInfo} {f : Firing} (hstores : f.keepsType k = false)
    (state : UserState) (maps : BpfMaps) : SlotIndependent k state maps f := fun slots slots' =>
  flatMap_handleRecord_congr (fire_sameReading maps hstores slots slots') state

theorem slotIndependent_iff_of_keepsType {k : KernelInfo} {f : Firing}
    (hkeeps : f.keepsType k = true) (state : UserState) (maps : BpfMaps) :
    SlotIndependent k state maps f ↔ state.opts.loadAvgThermal = false := by
  obtain ⟨cpu, enqueued, hcalls⟩ := calls_of_keepsType state maps hkeeps
  constructor
  · intro hindependent
    -- The tag of a thermal record adds a call that the tag of a CFS record does not.
    have heq := hindependent
      { Slots.fresh with rqPelt := { Slots.fresh.rqPelt with type := PeltType.thermal.code } }
      { Slots.fresh with rqPelt := { Slots.fresh.rqPelt with type := PeltType.cfs.code } }
    rw [hcalls, hcalls, List.append_left_inj] at heq
    cases hopt : state.opts.loadAvgThermal with
    | false => rfl
    | true => simp [hopt] at heq
  · intro hopt slots slots'
    rw [hcalls, hcalls, hopt, Bool.and_false, Bool.and_false]

/-- What is emitted never depends on an earlier record, if and only if no record
of `handle_util_est_cfs` is submitted while `load_avg_thermal` is on. -/
theorem slotIndependent_iff (k : KernelInfo) (state : UserState) (maps : BpfMaps) (f : Firing) :
    SlotIndependent k state maps f ↔
      ¬ (state.opts.loadAvgThermal = true ∧ f.keepsType k = true) := by
  cases hkeeps : f.keepsType k with
  | false =>
      simp only [Bool.false_eq_true, and_false, not_false_eq_true, iff_true]
      exact slotIndependent_of_stores hkeeps state maps
  | true =>
      simp only [and_true, Bool.not_eq_true]
      exact slotIndependent_iff_of_keepsType hkeeps state maps

/-- In a session the program has to be loaded, which takes `util_est` of CPUs. -/
theorem session_slots_iff (k : KernelInfo) (state : UserState) (maps : BpfMaps) (f : Firing) :
    (∀ slots slots', ((sessionTracer k state).step maps { f with slots := slots }).2 =
        ((sessionTracer k state).step maps { f with slots := slots' }).2) ↔
      ¬ (state.opts.loadAvgThermal = true ∧ state.opts.utilEstCpu = true ∧
        f.keepsType k = true) := by
  cases hautoload : autoload state.opts f.hook.program with
  | false =>
      simp only [sessionTracer, hautoload, Bool.false_eq_true, if_false, implies_true,
        true_iff]
      rintro ⟨-, hest, hkeeps⟩
      rw [autoload_of_keepsType hkeeps, hest] at hautoload
      exact Bool.noConfusion hautoload
  | true =>
      simp only [sessionTracer, hautoload, if_true]
      change SlotIndependent k state maps f ↔ _
      cases hkeeps : f.keepsType k with
      | false =>
          refine iff_of_true (slotIndependent_of_stores hkeeps state maps) ?_
          exact fun hall => Bool.noConfusion hall.2.2
      | true =>
          rw [slotIndependent_iff_of_keepsType hkeeps,
            (autoload_of_keepsType hkeeps).symm.trans hautoload]
          simp

/-- A root CFS runqueue of CPU 0. -/
def rootCfsRq : CfsRq where
  addr := 0
  rq := some (.unused 0)
  container := .unused 0
  avg := .zero

/-- A slot that last held a thermal record turns a CFS estimate into a sample
of `-1` on the thermal counter. -/
theorem slotIndependent_fails_after_thermal :
    ¬ SlotIndependent (.complete (kernelVersion 6 6 0))
      (.initial { SaOpts.initial with loadAvgThermal := true, utilEstCpu := true }) .empty
      ((Hook.utilEstCfs rootCfsRq).firing 1000 0) := by
  intro hindependent
  have heq := hindependent
    { Slots.fresh with rqPelt := { Slots.fresh.rqPelt with type := PeltType.thermal.code } } .fresh
  revert heq
  decide

end SchedAnalyzer
