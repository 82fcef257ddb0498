import SchedAnalyzer.Foundation.TimedBrackets
import SchedAnalyzer.Trace.Wrapper

/-! # Slices and their tracks

The slices of idle misses, load balancing and IPIs live on tracks numbered by
family and CPU. An end closes whatever is open on its track, so families and CPUs
are told apart only as far as the numbers are.
-/

namespace SchedAnalyzer

open Foundation.TimedBrackets

/-- A timestamp on a track, and the call that wrote it there. -/
structure SliceMark where
  call : TraceCall
  ts : UInt64
  deriving DecidableEq

def SliceMark.time (mark : SliceMark) : ℕ :=
  mark.ts.toNat

/-- The mark an event makes on a numbered track. The end of a scope is for the track
of the calling thread. -/
def TrackEvent.edge? (call : TraceCall) (track : ℤ) : TrackEvent → Option (Edge SliceMark)
  | .sliceBegin _ _ (.uuid id) ts _ => if id = track then some (.opens ⟨call, ts⟩) else none
  | .sliceEnd _ (.uuid id) (some ts) => if id = track then some (.closes ⟨call, ts⟩) else none
  | _ => none

/-- The marks of calls on a track, as they are written. -/
def trackEdges (track : ℤ) (calls : List TraceCall) : List (Edge SliceMark) :=
  calls.flatMap fun call => call.run.filterMap (TrackEvent.edge? call track)

/-- What is shown on a track. -/
def trackSlices (track : ℤ) (calls : List TraceCall) : List (Slice SliceMark) :=
  slices SliceMark.time (trackEdges track calls)

/-- `TRACK_ID(family) + cpu`. -/
def trackId (family : SliceFamily) (cpu : Int32) : ℤ :=
  family.code * trackSpacing + cpu.toInt

theorem sliceTrack_eq (family : SliceFamily) (cpu : Int32) :
    sliceTrack family cpu = .uuid (trackId family cpu) := rfl

/-- The family and CPU of a call that writes to a numbered track. -/
def TraceCall.slicer? : TraceCall → Option (SliceFamily × Int32)
  | .cpuIdleMiss _ onCpu _ _ => some (.cpuIdleMiss, onCpu)
  | .lbEntry _ thisCpu _ _ => some (.loadBalance, thisCpu)
  | .lbExit _ thisCpu _ => some (.loadBalance, thisCpu)
  | .ipiSendCpu _ fromCpu _ _ _ _ _ => some (.ipi, fromCpu)
  | _ => none

/-- The events of one track come from one family and one CPU, and no end closes the
slice of another. -/
structure Isolated (calls : List TraceCall) : Prop where
  oneSlicer : ∀ track, ∀ edge ∈ trackEdges track calls, ∀ other ∈ trackEdges track calls,
    edge.label.call.slicer? = other.label.call.slicer?
  ownEnds : ∀ track, ∀ slice ∈ trackSlices track calls, ∀ mark, slice.closed = some mark →
    mark.call.slicer? = slice.opened.call.slicer?

/-- Calls of the functions that write slices, on a machine with so many CPUs. -/
def OnMachine (cpus : ℕ) (calls : List TraceCall) : Prop :=
  ∀ call ∈ calls, ∃ family cpu, call.slicer? = some (family, cpu) ∧
    0 ≤ cpu.toInt ∧ cpu.toInt < cpus

/-! ## What is on a track -/

/-- The marks of a call, on whatever track. -/
def TraceCall.marks (call : TraceCall) : List (Edge SliceMark) :=
  match call with
  | .cpuIdleMiss ts _ _ _ => [.opens ⟨call, ts⟩, .closes ⟨call, ts + fakeDuration⟩]
  | .lbEntry ts _ _ _ => [.opens ⟨call, ts⟩]
  | .lbExit ts _ _ => [.closes ⟨call, ts⟩]
  | .ipiSendCpu ts _ _ _ _ _ _ => [.opens ⟨call, ts⟩, .closes ⟨call, ts + fakeDuration⟩]
  | _ => []

theorem TraceCall.call_of_mem_marks {call : TraceCall} {edge : Edge SliceMark}
    (hedge : edge ∈ call.marks) : edge.label.call = call := by
  cases call <;> simp only [marks, List.mem_cons, List.not_mem_nil, or_false] at hedge
  case cpuIdleMiss => rcases hedge with rfl | rfl <;> rfl
  case lbEntry => exact hedge ▸ rfl
  case lbExit => exact hedge ▸ rfl
  case ipiSendCpu => rcases hedge with rfl | rfl <;> rfl

/-- Counters leave no mark. -/
theorem filterMap_edge?_of_none {call : TraceCall} (hslicer : call.slicer? = none) (track : ℤ) :
    call.run.filterMap (TrackEvent.edge? call track) = [] := by
  cases call <;> try cases hslicer
  case cpu signal ts onCpu value => cases signal <;> rfl
  case task signal ts name pid value => cases signal <;> rfl
  case lbSdStats ts onCpu levels =>
    rw [List.filterMap_eq_nil_iff]
    intro event hevent
    obtain ⟨level, -, rfl⟩ := List.mem_map.mp hevent
    rfl
  all_goals rfl

/-- The other calls leave theirs on the track of their family and CPU. -/
theorem filterMap_edge? {call : TraceCall} {family : SliceFamily} {cpu : Int32}
    (hslicer : call.slicer? = some (family, cpu)) (track : ℤ) :
    call.run.filterMap (TrackEvent.edge? call track) =
      if trackId family cpu = track then call.marks else [] := by
  by_cases htrack : trackId family cpu = track
  · rw [if_pos htrack]
    cases call <;> cases hslicer <;>
      simp [TraceCall.run, traceCpuIdleMiss, traceLbEntry, traceLbExit, traceIpiSendCpu, traceEvent,
        sliceTrack_eq, TraceCall.marks, TrackEvent.edge?, htrack]
  · rw [if_neg htrack]
    cases call <;> cases hslicer <;>
      simp [TraceCall.run, traceCpuIdleMiss, traceLbEntry, traceLbExit, traceIpiSendCpu, traceEvent,
        sliceTrack_eq, TrackEvent.edge?, htrack]

/-- A mark on a track comes from a call for the family and CPU of the track. -/
theorem mem_trackEdges {track : ℤ} {calls : List TraceCall} {edge : Edge SliceMark} :
    edge ∈ trackEdges track calls ↔ ∃ call ∈ calls, edge ∈ call.marks ∧ ∃ family cpu,
      call.slicer? = some (family, cpu) ∧ trackId family cpu = track := by
  rw [trackEdges, List.mem_flatMap]
  apply exists_congr
  intro call
  apply and_congr_right
  intro _
  cases hslicer : call.slicer? with
  | none => simp [filterMap_edge?_of_none hslicer]
  | some slicer =>
      obtain ⟨family, cpu⟩ := slicer
      rw [filterMap_edge? hslicer]
      by_cases htrack : trackId family cpu = track
      · simp [htrack]
      · simp [htrack]

/-! ## Families and CPUs -/

/-- Below the spacing, the numbers tell families and CPUs apart. -/
theorem trackId_injective {family family' : SliceFamily} {cpu cpu' : Int32}
    (hcpu : 0 ≤ cpu.toInt) (hlt : cpu.toInt < trackSpacing) (hcpu' : 0 ≤ cpu'.toInt)
    (hlt' : cpu'.toInt < trackSpacing) (htrack : trackId family cpu = trackId family' cpu') :
    family = family' ∧ cpu = cpu' := by
  simp only [trackId, trackSpacing] at *
  have hcode : family.code = family'.code := by omega
  have hfamily : family = family' := by
    cases family <;> cases family' <;> first | rfl | exact absurd hcode (by decide)
  refine ⟨hfamily, Int32.toInt_inj.mp ?_⟩
  rw [hcode] at htrack
  exact add_left_cancel htrack

/-- When the calls on a track have the same family and CPU, so have the two marks of a
slice. -/
theorem isolated_of_oneSlicer {calls : List TraceCall}
    (hone : ∀ track, ∀ edge ∈ trackEdges track calls, ∀ other ∈ trackEdges track calls,
      edge.label.call.slicer? = other.label.call.slicer?) : Isolated calls where
  oneSlicer := hone
  ownEnds track slice hslice mark hclosed := by
    have hcloses := (mem_arrange _).mp (closed_of_mem_slicesFrom hslice hclosed)
    have hopens := (opened_of_mem_slicesFrom hslice).resolve_left List.not_mem_nil
    exact hone track _ hcloses _ ((mem_arrange _).mp hopens)

theorem isolated_of_le {cpus : ℕ} (hcpus : cpus ≤ trackSpacing) {calls : List TraceCall}
    (hcalls : OnMachine cpus calls) : Isolated calls := by
  apply isolated_of_oneSlicer
  intro track edge hedge other hother
  obtain ⟨call, hcall, hmem, family, cpu, hslicer, htrack⟩ := mem_trackEdges.mp hedge
  obtain ⟨call', hcall', hmem', family', cpu', hslicer', htrack'⟩ := mem_trackEdges.mp hother
  rw [TraceCall.call_of_mem_marks hmem, TraceCall.call_of_mem_marks hmem', hslicer, hslicer']
  have hrange : ∀ call ∈ calls, ∀ family cpu, call.slicer? = some (family, cpu) →
      0 ≤ cpu.toInt ∧ cpu.toInt < trackSpacing := by
    intro call hcall family cpu hslicer
    obtain ⟨first, second, hsome, hlow, hhigh⟩ := hcalls call hcall
    obtain ⟨rfl, rfl⟩ := Prod.mk.inj (Option.some.inj (hslicer.symm.trans hsome))
    exact ⟨hlow, hhigh.trans_le hcpus⟩
  obtain ⟨hlow, hhigh⟩ := hrange call hcall family cpu hslicer
  obtain ⟨hlow', hhigh'⟩ := hrange call' hcall' family' cpu' hslicer'
  obtain ⟨rfl, rfl⟩ := trackId_injective hlow hhigh hlow' hhigh' (htrack.trans htrack'.symm)
  rfl

/-- An idle miss on the CPU after the last that has a number of its own, and load
balancing on the first. -/
def sharedTrack : List TraceCall :=
  [.cpuIdleMiss 1000 1000 0 1, .lbEntry 2000 0 0 "load_balance()"]

theorem not_isolated_sharedTrack : ¬ Isolated sharedTrack := by
  intro hisolated
  have hshared := hisolated.oneSlicer 2000
  revert hshared
  decide

theorem onMachine_sharedTrack {cpus : ℕ} (hcpus : trackSpacing < cpus) :
    OnMachine cpus sharedTrack := by
  have hpositive : (0 : ℤ) < cpus := lt_trans (by decide) hcpus
  intro call hcall
  rcases List.mem_cons.mp hcall with rfl | hcall
  · exact ⟨.cpuIdleMiss, 1000, rfl, by decide, hcpus⟩
  · obtain rfl := List.mem_singleton.mp hcall
    exact ⟨.loadBalance, 0, rfl, by decide, hpositive⟩

/-- Every run of the slice functions keeps families and CPUs apart, if and only if the
machine has no more CPUs than `TRACK_SPACING`. -/
theorem isolated_iff (cpus : ℕ) :
    (∀ calls, OnMachine cpus calls → Isolated calls) ↔ cpus ≤ trackSpacing := by
  constructor
  · intro hisolated
    by_contra hmore
    exact not_isolated_sharedTrack (hisolated _ (onMachine_sharedTrack (not_le.mp hmore)))
  · intro hcpus calls
    exact isolated_of_le hcpus

/-- The maps are sized for more CPUs than that. -/
theorem isolated_fails_above_spacing :
    ¬ ∀ cpus : ℕ, cpus ≤ 8192 → ∀ calls, OnMachine cpus calls → Isolated calls := by
  intro hisolated
  have hmachine : OnMachine 1001 sharedTrack := onMachine_sharedTrack (by decide)
  exact not_isolated_sharedTrack (hisolated 1001 (by decide) _ hmachine)

end SchedAnalyzer
