import SchedAnalyzer.Bpf.LoadBalance
import SchedAnalyzer.Bpf.Sched

/-! # Firing a BPF program

A hook invocation carries the kernel state its program reads, the clock, the
CPU it runs on, whether its reservations succeed, and what the reserved slots
hold. Firing it updates the maps and submits records.
-/

namespace SchedAnalyzer

open Foundation

/-- The BPF programs of the skeleton. -/
inductive Program
  | handlePeltSe
  | handleUtilEstSe
  | handlePeltCfs
  | handleUtilEstCfs
  | handlePeltRt
  | handlePeltDl
  | handlePeltIrq
  | handlePeltThermal
  | handleSchedUpdateNrRunning
  | handleSchedSwitch
  | handleSchedProcessFree
  | handleCpuFrequency
  | handleCpuIdle
  | handleCpuIdleMiss
  | handleSoftirqEntry
  | handleSoftirqExit
  | handleNohzIdleBalanceEntry
  | handleNohzIdleBalanceExit
  | handleRunRebalanceDomainsEntry
  | handleRunRebalanceDomainsExit
  | handleRebalanceDomainsEntry
  | handleRebalanceDomainsExit
  | handleBalanceFairEntry
  | handleBalanceFairExit
  | handlePickNextTaskFairEntry
  | handlePickNextTaskFairExit
  | handleNewidleBalanceEntry
  | handleNewidleBalanceExit
  | handleLoadBalanceEntry
  | handleLoadBalanceExit
  | handleIpiSendCpu
  deriving DecidableEq, Repr

/-- A hook with the arguments and kernel state its program reads. -/
inductive Hook
  | peltSe (se : SchedEntity)
  | utilEstSe (se : SchedEntity)
  | peltCfs (cfsRq : CfsRq)
  | utilEstCfs (cfsRq : CfsRq)
  | peltRt (rq : Rq)
  | peltDl (rq : Rq)
  | peltIrq (rq : Rq)
  | peltThermal (rq : Rq)
  | schedUpdateNrRunning (rq : Rq) (change : Int32)
  | schedSwitch (prev next : TaskStruct)
  | schedProcessFree (p : TaskStruct)
  | cpuFrequency (frequency cpu : UInt32)
  | cpuIdle (state cpu : UInt32)
  | cpuIdleMiss (cpu state : UInt32) (below : Bool)
  | softirqEntry (vecNr : UInt32)
  | softirqExit (vecNr : UInt32)
  | nohzIdleBalanceEntry (rq : Rq)
  | nohzIdleBalanceExit
  | runRebalanceDomainsEntry
  | runRebalanceDomainsExit
  | rebalanceDomainsEntry (rq : Rq) (idle : CpuIdleType)
  | rebalanceDomainsExit
  | balanceFairEntry (rq : Rq)
  | balanceFairExit
  | pickNextTaskFairEntry (rq : Rq)
  | pickNextTaskFairExit
  | newidleBalanceEntry (rq : Rq)
  | newidleBalanceExit
  | loadBalanceEntry (lbCpu : Int32) (lbRq : Rq)
  | loadBalanceExit
  | ipiSendCpu (cpu : Int32) (callsite callback : UInt64)

/-- The program attached to a hook. -/
def Hook.program : Hook → Program
  | peltSe _ => .handlePeltSe
  | utilEstSe _ => .handleUtilEstSe
  | peltCfs _ => .handlePeltCfs
  | utilEstCfs _ => .handleUtilEstCfs
  | peltRt _ => .handlePeltRt
  | peltDl _ => .handlePeltDl
  | peltIrq _ => .handlePeltIrq
  | peltThermal _ => .handlePeltThermal
  | schedUpdateNrRunning _ _ => .handleSchedUpdateNrRunning
  | schedSwitch _ _ => .handleSchedSwitch
  | schedProcessFree _ => .handleSchedProcessFree
  | cpuFrequency _ _ => .handleCpuFrequency
  | cpuIdle _ _ => .handleCpuIdle
  | cpuIdleMiss _ _ _ => .handleCpuIdleMiss
  | softirqEntry _ => .handleSoftirqEntry
  | softirqExit _ => .handleSoftirqExit
  | nohzIdleBalanceEntry _ => .handleNohzIdleBalanceEntry
  | nohzIdleBalanceExit => .handleNohzIdleBalanceExit
  | runRebalanceDomainsEntry => .handleRunRebalanceDomainsEntry
  | runRebalanceDomainsExit => .handleRunRebalanceDomainsExit
  | rebalanceDomainsEntry _ _ => .handleRebalanceDomainsEntry
  | rebalanceDomainsExit => .handleRebalanceDomainsExit
  | balanceFairEntry _ => .handleBalanceFairEntry
  | balanceFairExit => .handleBalanceFairExit
  | pickNextTaskFairEntry _ => .handlePickNextTaskFairEntry
  | pickNextTaskFairExit => .handlePickNextTaskFairExit
  | newidleBalanceEntry _ => .handleNewidleBalanceEntry
  | newidleBalanceExit => .handleNewidleBalanceExit
  | loadBalanceEntry _ _ => .handleLoadBalanceEntry
  | loadBalanceExit => .handleLoadBalanceExit
  | ipiSendCpu _ _ _ => .handleIpiSendCpu

/-- What the slots that a hook could reserve hold before its program writes. -/
structure Slots where
  rqPelt : RqPeltEvent
  taskPelt : TaskPeltEvent
  rqNrRunning : RqNrRunningEvent
  schedSwitch : SchedSwitchEvent
  schedSwitchNext : SchedSwitchEvent
  freqIdle : FreqIdleEvent
  softirq : SoftirqEvent
  lb : LbEvent
  ipi : IpiEvent

/-- One invocation. `reserved` is the outcome of its reservation; a context
switch has a second one, with a second clock reading. -/
structure Firing where
  hook : Hook
  now : UInt64
  nowNext : UInt64
  thisCpu : Int32
  reserved : Bool
  reservedNext : Bool
  slots : Slots

/-- The slots of a ring buffer that was never written to. -/
def Slots.fresh : Slots where
  rqPelt := ⟨0, 0, 0, 0, 0, 0, 0, 0, 0, 0⟩
  taskPelt := ⟨0, 0, 0, List.replicate taskCommLen CString.nul, 0, 0, 0, 0, 0, 0, 0, 0⟩
  rqNrRunning := ⟨0, 0, 0, 0⟩
  schedSwitch := ⟨0, 0, 0, List.replicate taskCommLen CString.nul, 0⟩
  schedSwitchNext := ⟨0, 0, 0, List.replicate taskCommLen CString.nul, 0⟩
  freqIdle := ⟨0, 0, 0, 0, 0⟩
  softirq := ⟨0, 0, List.replicate taskCommLen CString.nul, 0⟩
  lb := ⟨0, 0, 0, 0, false, 0, 0, 0, ⟨0, fun _ => 0, fun _ => 0⟩⟩
  ipi := ⟨0, 0, 0, 0, 0⟩

/-- An invocation of a hook that gets a fresh slot. -/
def Hook.firing (hook : Hook) (now : UInt64) (thisCpu : Int32) : Firing where
  hook := hook
  now := now
  nowNext := now
  thisCpu := thisCpu
  reserved := true
  reservedNext := true
  slots := .fresh

/-- The hash maps shared by the programs. -/
structure BpfMaps where
  schedSwitch : SchedSwitchMap
  softirqEntry : SoftirqEntryMap
  lbMap : LbMap

/-- The maps when the programs are loaded. -/
def BpfMaps.empty : BpfMaps :=
  ⟨.empty, .empty, .empty⟩

/-- `bpf_ringbuf_reserve`: a slot with its old content, or nothing. -/
def reserve {Event : Type} (succeeds : Bool) (content : Event) : Option Event :=
  if succeeds then some content else none

@[simp] theorem reserve_true {Event : Type} (content : Event) :
    reserve true content = some content := rfl

@[simp] theorem reserve_false {Event : Type} (content : Event) :
    reserve false content = none := rfl

/-- The new `lb_map` and the record of a load-balance program. -/
def lbResult (maps : BpfMaps) (result : LbMap × Option LbEvent) : BpfMaps × List Record :=
  ({ maps with lbMap := result.1 }, (result.2.map Record.lb).toList)

/-- Run the program of a hook. -/
def fire (k : KernelInfo) (maps : BpfMaps) (f : Firing) : BpfMaps × List Record :=
  let rqPelt := reserve f.reserved f.slots.rqPelt
  let taskPelt := reserve f.reserved f.slots.taskPelt
  let freqIdle := reserve f.reserved f.slots.freqIdle
  let lb := reserve f.reserved f.slots.lb
  let ofRqPelt (event : Option RqPeltEvent) := (maps, (event.map Record.rqPelt).toList)
  let ofTaskPelt (event : Option TaskPeltEvent) := (maps, (event.map Record.taskPelt).toList)
  let ofFreqIdle (event : Option FreqIdleEvent) := (maps, (event.map Record.freqIdle).toList)
  match f.hook with
  | .peltSe se => ofTaskPelt (handlePeltSe k maps.schedSwitch f.now se taskPelt)
  | .utilEstSe se => ofTaskPelt (handleUtilEstSe k maps.schedSwitch f.now se taskPelt)
  | .peltCfs cfsRq => ofRqPelt (handlePeltCfs k f.now cfsRq rqPelt)
  | .utilEstCfs cfsRq => ofRqPelt (handleUtilEstCfs k f.now cfsRq rqPelt)
  | .peltRt rq => ofRqPelt (handlePeltRt k f.now rq rqPelt)
  | .peltDl rq => ofRqPelt (handlePeltDl k f.now rq rqPelt)
  | .peltIrq rq => ofRqPelt (handlePeltIrq k f.now rq rqPelt)
  | .peltThermal rq => ofRqPelt (handlePeltThermal k f.now rq rqPelt)
  | .schedUpdateNrRunning rq change =>
      (maps, ((handleSchedUpdateNrRunning f.now rq change
        (reserve f.reserved f.slots.rqNrRunning)).map Record.rqNrRunning).toList)
  | .schedSwitch prev next =>
      let result := handleSchedSwitch k maps.schedSwitch f.now f.nowNext prev next
        (reserve f.reserved f.slots.schedSwitch) (reserve f.reservedNext f.slots.schedSwitchNext)
      ({ maps with schedSwitch := result.1 }, result.2.map Record.schedSwitch)
  | .schedProcessFree p => ofTaskPelt (handleSchedProcessFree k f.now p taskPelt)
  | .cpuFrequency frequency cpu => ofFreqIdle (handleCpuFrequency f.now frequency cpu freqIdle)
  | .cpuIdle state cpu => ofFreqIdle (handleCpuIdle f.now state cpu freqIdle)
  | .cpuIdleMiss cpu state below =>
      ofFreqIdle (handleCpuIdleMiss f.now cpu state below freqIdle)
  | .softirqEntry _ =>
      ({ maps with softirqEntry := handleSoftirqEntry maps.softirqEntry f.now f.thisCpu }, [])
  | .softirqExit vecNr =>
      let result := handleSoftirqExit maps.softirqEntry f.now f.thisCpu vecNr
        (reserve f.reserved f.slots.softirq)
      ({ maps with softirqEntry := result.1 }, (result.2.map Record.softirq).toList)
  | .nohzIdleBalanceEntry rq =>
      lbResult maps (handleNohzIdleBalanceEntry maps.lbMap f.now f.thisCpu rq lb)
  | .nohzIdleBalanceExit =>
      lbResult maps (handleNohzIdleBalanceExit maps.lbMap f.now f.thisCpu lb)
  | .runRebalanceDomainsEntry =>
      lbResult maps (maps.lbMap, handleRunRebalanceDomainsEntry f.now f.thisCpu lb)
  | .runRebalanceDomainsExit =>
      lbResult maps (maps.lbMap, handleRunRebalanceDomainsExit f.now f.thisCpu lb)
  | .rebalanceDomainsEntry rq idle =>
      lbResult maps (handleRebalanceDomainsEntry maps.lbMap f.now f.thisCpu rq idle lb)
  | .rebalanceDomainsExit =>
      lbResult maps (handleRebalanceDomainsExit maps.lbMap f.now f.thisCpu lb)
  | .balanceFairEntry rq =>
      lbResult maps (handleBalanceFairEntry maps.lbMap f.now f.thisCpu rq lb)
  | .balanceFairExit => lbResult maps (handleBalanceFairExit maps.lbMap f.now f.thisCpu lb)
  | .pickNextTaskFairEntry rq =>
      lbResult maps (handlePickNextTaskFairEntry maps.lbMap f.now f.thisCpu rq lb)
  | .pickNextTaskFairExit =>
      lbResult maps (handlePickNextTaskFairExit maps.lbMap f.now f.thisCpu lb)
  | .newidleBalanceEntry rq =>
      lbResult maps (handleNewidleBalanceEntry maps.lbMap f.now f.thisCpu rq lb)
  | .newidleBalanceExit =>
      lbResult maps (handleNewidleBalanceExit maps.lbMap f.now f.thisCpu lb)
  | .loadBalanceEntry lbCpu lbRq =>
      lbResult maps (handleLoadBalanceEntry maps.lbMap f.now f.thisCpu lbCpu lbRq lb)
  | .loadBalanceExit => lbResult maps (handleLoadBalanceExit maps.lbMap f.now f.thisCpu lb)
  | .ipiSendCpu cpu callsite callback =>
      (maps, ((handleIpiSendCpu f.now f.thisCpu cpu callsite callback
        (reserve f.reserved f.slots.ipi)).map Record.ipi).toList)

/-! ## Ring buffers -/

/-- The ring buffers. -/
inductive Ring
  | rqPelt
  | taskPelt
  | rqNrRunning
  | schedSwitch
  | freqIdle
  | softirq
  | lb
  | ipi
  deriving DecidableEq, Repr

/-- The ring buffer of a record. -/
def Record.ring : Record → Ring
  | .rqPelt _ => .rqPelt
  | .taskPelt _ => .taskPelt
  | .rqNrRunning _ => .rqNrRunning
  | .schedSwitch _ => .schedSwitch
  | .freqIdle _ => .freqIdle
  | .softirq _ => .softirq
  | .lb _ => .lb
  | .ipi _ => .ipi

/-- The ring buffer a program submits to. -/
def Program.ring : Program → Ring
  | .handlePeltSe | .handleUtilEstSe | .handleSchedProcessFree => .taskPelt
  | .handlePeltCfs | .handleUtilEstCfs | .handlePeltRt | .handlePeltDl | .handlePeltIrq
  | .handlePeltThermal => .rqPelt
  | .handleSchedUpdateNrRunning => .rqNrRunning
  | .handleSchedSwitch => .schedSwitch
  | .handleCpuFrequency | .handleCpuIdle | .handleCpuIdleMiss => .freqIdle
  | .handleSoftirqEntry | .handleSoftirqExit => .softirq
  | .handleIpiSendCpu => .ipi
  | _ => .lb

theorem ring_of_mem_fire {k : KernelInfo} {maps : BpfMaps} {f : Firing} {r : Record}
    (hr : r ∈ (fire k maps f).2) : r.ring = f.hook.program.ring := by
  obtain ⟨hook, now, nowNext, thisCpu, reserved, reservedNext, slots⟩ := f
  cases hook
  case schedSwitch prev next =>
    simp only [fire, List.mem_map] at hr
    obtain ⟨event, -, rfl⟩ := hr
    rfl
  case softirqEntry vecNr => exact absurd hr List.not_mem_nil
  all_goals
    simp only [fire, lbResult, Option.mem_toList, Option.map_eq_some_iff] at hr
    obtain ⟨event, -, rfl⟩ := hr
    rfl

end SchedAnalyzer
