import SchedAnalyzer.Trace.TrackSlices
import SchedAnalyzer.User.Main

/-! # Slices of a made-up length

An IPI and an idle miss are points in time. They are shown as slices, with an end
written along with the begin, at a time that has not come yet.
-/

namespace SchedAnalyzer

open Foundation.TimedBrackets

/-- The family, CPU and time of a call that writes a slice by itself. -/
def TraceCall.instant? : TraceCall → Option (SliceFamily × Int32 × UInt64)
  | .cpuIdleMiss ts onCpu _ _ => some (.cpuIdleMiss, onCpu, ts)
  | .ipiSendCpu ts fromCpu _ _ _ _ _ => some (.ipi, fromCpu, ts)
  | _ => none

/-- Calls of one family on one CPU, at these times. -/
def CallsAt (family : SliceFamily) (cpu : Int32) (calls : List TraceCall)
    (timestamps : List UInt64) : Prop :=
  List.Forall₂ (fun call ts => call.instant? = some (family, cpu, ts)) calls timestamps

/-- Every slice on the track goes from its own time to `FAKE_DURATION` later. -/
def SpansExactly (family : SliceFamily) (cpu : Int32) (calls : List TraceCall) : Prop :=
  ∀ slice ∈ trackSlices (trackId family cpu) calls, ∃ mark, slice.closed = some mark ∧
    mark.ts.toNat = slice.opened.ts.toNat + fakeDuration.toNat

/-- The calls are `FAKE_DURATION` apart or more, and the end of none is past the last
timestamp there is. -/
structure FarApart (timestamps : List UInt64) : Prop where
  noWrap : ∀ ts ∈ timestamps, ts.toNat + fakeDuration.toNat < 2 ^ 64
  apart : timestamps.Pairwise fun first second =>
    first.toNat + fakeDuration.toNat ≤ second.toNat

/-! ## The marks of such calls -/

/-- The end that is written with a begin. -/
def fakeStop (mark : SliceMark) : SliceMark :=
  { mark with ts := mark.ts + fakeDuration }

theorem time_fakeStop {mark : SliceMark} (hnowrap : mark.time + fakeDuration.toNat < 2 ^ 64) :
    (fakeStop mark).time = mark.time + fakeDuration.toNat := by
  rw [SliceMark.time, fakeStop, UInt64.toNat_add]
  exact Nat.mod_eq_of_lt hnowrap

/-- An end that is not before its begin did not wrap. -/
theorem noWrap_of_le {mark : SliceMark} (hle : mark.time ≤ (fakeStop mark).time) :
    mark.time + fakeDuration.toNat < 2 ^ 64 := by
  have hlt : mark.time < 2 ^ 64 := mark.ts.toNat_lt
  have hfake : fakeDuration.toNat = 10000 := rfl
  rw [SliceMark.time, SliceMark.time, fakeStop, UInt64.toNat_add] at hle
  change mark.ts.toNat < 2 ^ 64 at hlt
  change mark.ts.toNat + fakeDuration.toNat < 2 ^ 64
  omega

/-- Each call writes both of its marks on the track of its CPU. -/
theorem CallsAt.exists_marks {family : SliceFamily} {cpu : Int32} {calls : List TraceCall}
    {timestamps : List UInt64} (hcalls : CallsAt family cpu calls timestamps) :
    ∃ marks : List SliceMark, timestamps = marks.map SliceMark.ts ∧
      trackEdges (trackId family cpu) calls = spanEdges fakeStop marks := by
  induction hcalls with
  | nil => exact ⟨[], rfl, rfl⟩
  | @cons call ts rest later hcall _ ih =>
      obtain ⟨marks, rfl, hrest⟩ := ih
      have hboth : call.slicer? = some (family, cpu) ∧
          call.marks = [.opens ⟨call, ts⟩, .closes (fakeStop ⟨call, ts⟩)] := by
        cases call <;> cases hcall <;> exact ⟨rfl, rfl⟩
      refine ⟨⟨call, ts⟩ :: marks, rfl, ?_⟩
      have hmarks := filterMap_edge? hboth.1 (trackId family cpu)
      rw [if_pos rfl, hboth.2] at hmarks
      rw [trackEdges, List.flatMap_cons, hmarks, spanEdges, List.flatMap_cons]
      exact congrArg _ hrest

/-- What is shown is exact if and only if every slice has the end that was written for it. -/
theorem spansExactly_iff_lasts {family : SliceFamily} {cpu : Int32} {calls : List TraceCall}
    {marks : List SliceMark}
    (hmarks : trackEdges (trackId family cpu) calls = spanEdges fakeStop marks) :
    SpansExactly family cpu calls ↔
      ∀ slice ∈ slices SliceMark.time (spanEdges fakeStop marks),
        slice.Lasts SliceMark.time fakeStop := by
  rw [SpansExactly, trackSlices, hmarks]
  constructor
  · intro hexact slice hslice
    obtain ⟨mark, hclosed, hlength⟩ := hexact slice hslice
    refine ⟨mark, hclosed, ?_⟩
    rw [time_fakeStop]
    · exact hlength
    · exact hlength.symm.trans_lt mark.ts.toNat_lt
  · intro hlasts slice hslice
    obtain ⟨mark, hclosed, hlength⟩ := hlasts slice hslice
    have hle := (openBefore_arrange _).opened_le_closed hslice hclosed
    refine ⟨mark, hclosed, ?_⟩
    exact hlength.trans (time_fakeStop (noWrap_of_le (hle.trans hlength.le)))

section Length

variable {family : SliceFamily} {cpu : Int32} {calls : List TraceCall}
  {timestamps : List UInt64}

/-- Slices of the length that was meant do not overlap. -/
theorem farApart_of_spansExactly (hcalls : CallsAt family cpu calls timestamps)
    (hincreasing : timestamps.Pairwise (· < ·)) (hexact : SpansExactly family cpu calls) :
    FarApart timestamps := by
  obtain ⟨marks, rfl, hmarks⟩ := hcalls.exists_marks
  have hlasts := (spansExactly_iff_lasts hmarks).mp hexact
  have hnowrap : ∀ mark ∈ marks, mark.time + fakeDuration.toNat < 2 ^ 64 :=
    fun mark hmark => noWrap_of_le (le_stop_of_lasts hlasts hmark)
  refine ⟨List.forall_mem_map.mpr hnowrap, List.pairwise_map.mpr ?_⟩
  apply (List.pairwise_map.mp hincreasing).imp_of_mem
  intro first second hfirst hsecond hlt
  have hlt' : first.time < second.time := UInt64.lt_iff_toNat_lt.mp hlt
  have hstop := time_fakeStop (hnowrap first hfirst)
  have hstop' := time_fakeStop (hnowrap second hsecond)
  have hapart : first.time + fakeDuration.toNat ≤ second.time := by
    have hspans := apart_or_inside_of_lasts hlasts hfirst hsecond hlt'
    omega
  exact hapart

/-- Slices that follow each other have that length. -/
theorem spansExactly_of_farApart (hcalls : CallsAt family cpu calls timestamps)
    (hfar : FarApart timestamps) : SpansExactly family cpu calls := by
  obtain ⟨marks, rfl, hmarks⟩ := hcalls.exists_marks
  apply (spansExactly_iff_lasts hmarks).mpr
  intro slice hslice
  have hstop : ∀ mark ∈ marks, (fakeStop mark).time = mark.time + fakeDuration.toNat :=
    fun mark hmark => time_fakeStop (List.forall_mem_map.mp hfar.noWrap mark hmark)
  apply lasts_of_apart _ _ hslice
  · intro mark hmark
    rw [hstop mark hmark]
    exact Nat.le_add_right _ _
  · apply (List.pairwise_map.mp hfar.apart).imp_of_mem
    intro first second hfirst _ happart
    rw [hstop first hfirst]
    exact happart

/-- The slices of IPIs or of idle misses on one CPU all have the length they were
given, if and only if their times are that far apart. -/
theorem spansExactly_iff (hcalls : CallsAt family cpu calls timestamps)
    (hincreasing : timestamps.Pairwise (· < ·)) :
    SpansExactly family cpu calls ↔ FarApart timestamps := by
  constructor
  · exact farApart_of_spansExactly hcalls hincreasing
  · exact spansExactly_of_farApart hcalls

end Length

/-! ## IPIs -/

/-- Each invocation sends an IPI from this CPU. -/
def SendsIpis (cpu : Int32) (run : List Firing) : Prop :=
  ∀ f ∈ run, f.thisCpu = cpu ∧ ∃ target callsite callback,
    f.hook = .ipiSendCpu target callsite callback

/-- The calls for IPIs of a CPU are those that were not lost, with the times of
their invocations. -/
theorem callsAt_outputs (k : KernelInfo) (state : UserState) {cpu : Int32} {run : List Firing}
    (hrun : SendsIpis cpu run) (maps : BpfMaps) :
    CallsAt .ipi cpu ((tracer k state).outputs maps run)
      ((run.filter Firing.reserved).map Firing.now) := by
  induction run generalizing maps with
  | nil => exact .nil
  | cons f rest ih =>
      obtain ⟨⟨hcpu, target, callsite, callback, hhook⟩, hrest⟩ := List.forall_mem_cons.mp hrun
      obtain ⟨hook, now, nowNext, thisCpu, reserved, reservedNext, slots⟩ := f
      change thisCpu = cpu at hcpu
      change hook = _ at hhook
      subst hcpu hhook
      cases reserved with
      | false => exact ih hrest _
      | true => exact .cons rfl (ih hrest _)

/-- IPIs sent at these times. -/
def ipisAt (timestamps : List UInt64) : List Firing :=
  timestamps.map fun ts => (Hook.ipiSendCpu 1 0 0).firing ts 0

theorem sendsIpis_ipisAt (timestamps : List UInt64) : SendsIpis 0 (ipisAt timestamps) := by
  intro f hf
  obtain ⟨ts, -, rfl⟩ := List.mem_map.mp hf
  exact ⟨rfl, 1, 0, 0, rfl⟩

/-- `--ipi`. -/
def ipiOn : SaOpts :=
  { SaOpts.initial with ipi := true }

/-- Two IPIs that are far enough from each other. -/
theorem spansExactly_separateIpis :
    SpansExactly .ipi 0
      ((tracer (.complete 0) (.initial ipiOn)).outputs .empty (ipisAt [1000, 11000])) := by
  apply (spansExactly_iff (callsAt_outputs _ _ (sendsIpis_ipisAt [1000, 11000]) _) (by decide)).mpr
  refine ⟨?_, by decide⟩
  intro ts hts
  have htimes : ts ∈ [1000, 11000] := hts
  simp only [List.mem_cons, List.not_mem_nil, or_false] at htimes
  rcases htimes with rfl | rfl <;> decide

/-- Two IPIs of a broadcast: the end of the first closes the second. -/
theorem spansExactly_fails_for_broadcast :
    ¬ ∀ run : List Firing, SendsIpis 0 run →
      (run.map Firing.now).Pairwise (· < ·) →
      SpansExactly .ipi 0 ((tracer (.complete 0) (.initial ipiOn)).outputs .empty run) := by
  intro hexact
  have hrun := sendsIpis_ipisAt [1000, 2000]
  have hfar : FarApart [1000, 2000] :=
    farApart_of_spansExactly (callsAt_outputs _ _ hrun _) (by decide) (hexact _ hrun (by decide))
  have hapart : (2000 : UInt64).toNat ≥ (1000 : UInt64).toNat + fakeDuration.toNat :=
    (List.pairwise_cons.mp hfar.apart).1 2000 List.mem_cons_self
  exact absurd hapart (by decide)

end SchedAnalyzer
