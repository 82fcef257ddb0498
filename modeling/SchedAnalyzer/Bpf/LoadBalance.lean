import SchedAnalyzer.Bpf.Events
import SchedAnalyzer.Bpf.Kernel
import SchedAnalyzer.Foundation.BoundedMap

/-! # The load-balance programs

An entry program notes the CPU it balances for in `lb_map`, under a key packed
from its phase and CPU, and its exit program takes it out again. The two
programs of `run_rebalance_domains` do not use the map.
-/

namespace SchedAnalyzer

open Foundation

/-- The `lb_map` map. -/
abbrev LbMap := BoundedMap Int32 Int32 8192

/-- `LB_PHASE << 16 | this_cpu`. -/
def lbKey (phase : LbPhase) (thisCpu : Int32) : Int32 :=
  (phase.code <<< 16 ||| thisCpu.toUInt32).toInt32

/-! ## Sched-domain statistics -/

/-- The balance interval reported for a domain. -/
def sdInterval (busy : Bool) (sd : SchedDomain) : UInt32 :=
  if busy then sd.balanceInterval * sd.busyFactor else sd.balanceInterval

/-- The loop over the domain chain, from slot `i` on, with the slot it ends at. -/
def genSchedDomainLoop (busy : Bool) :
    List SchedDomain → Nat → LbSdStats → Nat × LbSdStats
  | [], i, stats => (i, stats)
  | sd :: parents, i, stats =>
      if i < maxSdLevels then
        genSchedDomainLoop busy parents (i + 1)
          ((stats.storeLevel i sd.level).storeBalanceInterval i (sdInterval busy sd))
      else (i, stats)

/-- Whether the intervals of a runqueue are those of a busy CPU. -/
def rqBusy (rq : Rq) (idle : CpuIdleType) : Bool :=
  let schedIdle := rq.nrRunning == rq.cfsIdleHNrRunning && rq.nrRunning != 0
  idle != .cpuIdle && !schedIdle

def genSchedDomainStats (rq : Rq) (idle : CpuIdleType) (stats : LbSdStats) : LbSdStats :=
  let filled := genSchedDomainLoop (rqBusy rq idle) rq.sd 0 { stats with cpu := rq.cpu }
  (filled.2.storeLevel filled.1 (-1)).storeBalanceInterval filled.1 0

/-! ## Entry and exit records -/

/-- The root-domain flags and misfit load an entry record carries. -/
structure LbLoad where
  overloaded : UInt32
  overutilized : UInt32
  misfitTaskLoad : UInt64

/-- No load information. -/
def LbLoad.none : LbLoad :=
  ⟨absent32, absent32, absent⟩

/-- The load information of a runqueue. -/
def LbLoad.ofRq (rq : Rq) : LbLoad :=
  ⟨rq.rd.overload.toUInt32, rq.rd.overutilized.toUInt32, rq.misfitTaskLoad⟩

/-- Fill a load-balance record; only `sd_stats` is left as it was. -/
def fillLb (phase : LbPhase) (entry : Bool) (now : UInt64) (thisCpu lbCpu : Int32)
    (load : LbLoad) (e : LbEvent) : LbEvent :=
  { e with
    ts := now
    thisCpu := thisCpu
    lbCpu := lbCpu
    phase := phase.code
    entry := entry
    overloaded := load.overloaded
    overutilized := load.overutilized
    misfitTaskLoad := load.misfitTaskLoad }

/-- The body of the entry programs that use the map. -/
def lbEntry (phase : LbPhase) (map : LbMap) (now : UInt64) (thisCpu lbCpu : Int32)
    (load : LbLoad) (slot : Option LbEvent) : LbMap × Option LbEvent :=
  (map.update (lbKey phase thisCpu) lbCpu,
    slot.map (fillLb phase true now thisCpu lbCpu load))

/-- The body of the exit programs that use the map. -/
def lbExit (phase : LbPhase) (map : LbMap) (now : UInt64) (thisCpu : Int32)
    (slot : Option LbEvent) : LbMap × Option LbEvent :=
  match map.lookup (lbKey phase thisCpu) with
  | none => (map, none)
  | some lbCpu =>
      (map.delete (lbKey phase thisCpu),
        slot.map (fillLb phase false now thisCpu lbCpu .none))

def handleNohzIdleBalanceEntry (map : LbMap) (now : UInt64) (thisCpu : Int32) (rq : Rq) :
    Option LbEvent → LbMap × Option LbEvent :=
  lbEntry .nohzIdleBalance map now thisCpu rq.cpu
    { LbLoad.ofRq rq with misfitTaskLoad := absent }

def handleNohzIdleBalanceExit (map : LbMap) (now : UInt64) (thisCpu : Int32) :
    Option LbEvent → LbMap × Option LbEvent :=
  lbExit .nohzIdleBalance map now thisCpu

def handleRunRebalanceDomainsEntry (now : UInt64) (thisCpu : Int32)
    (slot : Option LbEvent) : Option LbEvent :=
  slot.map (fillLb .runRebalanceDomains true now thisCpu thisCpu .none)

def handleRunRebalanceDomainsExit (now : UInt64) (thisCpu : Int32)
    (slot : Option LbEvent) : Option LbEvent :=
  slot.map (fillLb .runRebalanceDomains false now thisCpu thisCpu .none)

def handleRebalanceDomainsEntry (map : LbMap) (now : UInt64) (thisCpu : Int32) (rq : Rq)
    (idle : CpuIdleType) (slot : Option LbEvent) : LbMap × Option LbEvent :=
  (map.update (lbKey .rebalanceDomains thisCpu) rq.cpu,
    slot.map fun e =>
      let filled := fillLb .rebalanceDomains true now thisCpu rq.cpu (.ofRq rq) e
      { filled with sdStats := genSchedDomainStats rq idle filled.sdStats })

def handleRebalanceDomainsExit (map : LbMap) (now : UInt64) (thisCpu : Int32) :
    Option LbEvent → LbMap × Option LbEvent :=
  lbExit .rebalanceDomains map now thisCpu

def handleBalanceFairEntry (map : LbMap) (now : UInt64) (thisCpu : Int32) (rq : Rq) :
    Option LbEvent → LbMap × Option LbEvent :=
  lbEntry .balanceFair map now thisCpu rq.cpu (.ofRq rq)

def handleBalanceFairExit (map : LbMap) (now : UInt64) (thisCpu : Int32) :
    Option LbEvent → LbMap × Option LbEvent :=
  lbExit .balanceFair map now thisCpu

def handlePickNextTaskFairEntry (map : LbMap) (now : UInt64) (thisCpu : Int32) (rq : Rq) :
    Option LbEvent → LbMap × Option LbEvent :=
  lbEntry .pickNextTaskFair map now thisCpu rq.cpu (.ofRq rq)

def handlePickNextTaskFairExit (map : LbMap) (now : UInt64) (thisCpu : Int32) :
    Option LbEvent → LbMap × Option LbEvent :=
  lbExit .pickNextTaskFair map now thisCpu

def handleNewidleBalanceEntry (map : LbMap) (now : UInt64) (thisCpu : Int32) (rq : Rq) :
    Option LbEvent → LbMap × Option LbEvent :=
  lbEntry .newidleBalance map now thisCpu rq.cpu (.ofRq rq)

def handleNewidleBalanceExit (map : LbMap) (now : UInt64) (thisCpu : Int32) :
    Option LbEvent → LbMap × Option LbEvent :=
  lbExit .newidleBalance map now thisCpu

def handleLoadBalanceEntry (map : LbMap) (now : UInt64) (thisCpu lbCpu : Int32) (lbRq : Rq) :
    Option LbEvent → LbMap × Option LbEvent :=
  lbEntry .loadBalance map now thisCpu lbCpu (.ofRq lbRq)

def handleLoadBalanceExit (map : LbMap) (now : UInt64) (thisCpu : Int32) :
    Option LbEvent → LbMap × Option LbEvent :=
  lbExit .loadBalance map now thisCpu

end SchedAnalyzer
