import SchedAnalyzer.Post.TaskTracks
import SchedAnalyzer.Session.TaskReadings

/-! # Which calls write to a track

All counters are written by name, so calls of different kinds could meet on one
track. The name of a CPU-level counter tells the CPU and the signal, that of a task
the task and the signal if nothing was cut, and no other call writes under it.
-/

namespace SchedAnalyzer

open Foundation.CString Foundation.Lists Foundation.SqlLike

/-! ## Samples of a track -/

/-- The sample that an event puts on a track. -/
def TrackEvent.sampleOn (track : List Char) : TrackEvent → Option (UInt64 × Int)
  | .counter _ name ts value => if name = track then some (ts, value) else none
  | _ => none

/-- The samples that a call puts on a track, in order. -/
def TraceCall.samplesOn (track : List Char) (call : TraceCall) : List (UInt64 × Int) :=
  call.run.filterMap (TrackEvent.sampleOn track)

/-- A call that writes one counter. -/
theorem samplesOn_counter {call : TraceCall} {category : String} {name : List Char} {ts : UInt64}
    {value : Int} (hrun : call.run = [.counter category name ts value]) (track : List Char) :
    call.samplesOn track = if name = track then [(ts, value)] else [] := by
  rw [TraceCall.samplesOn, hrun, List.filterMap_cons, TrackEvent.sampleOn]
  split
  next hnone => simpa using hnone
  next sample hsample =>
    obtain ⟨hname, hsome⟩ := Option.ite_none_right_eq_some.mp hsample
    rw [if_pos hname, ← Option.some.inj hsome]
    rfl

/-! ## Names of CPU-level counters -/

/-- The name of a CPU-level counter tells the CPU, and what was kept of the signal. -/
theorem cpuTrackName_inj {signal signal' : String} (hblank : ' ' ∉ signal.toList)
    (hblank' : ' ' ∉ signal'.toList) {cpu cpu' : Int32}
    (heq : cpuTrackName signal cpu = cpuTrackName signal' cpu') :
    cpu = cpu' ∧ ∃ kept kept', 16 ≤ kept ∧ 16 ≤ kept' ∧
      signal.toList.take kept = signal'.toList.take kept' := by
  obtain ⟨kept, hkept, hname⟩ := cpuTrackName_eq signal cpu
  obtain ⟨kept', hkept', hname'⟩ := cpuTrackName_eq signal' cpu'
  rw [hname, hname'] at heq
  obtain ⟨hhead, htail⟩ := append_cons_inj_of_notMem_tail
    (fun hmem => hblank (List.mem_of_mem_take hmem))
    (fun hmem => hblank' (List.mem_of_mem_take hmem)) heq
  refine ⟨?_, kept, kept', hkept, hkept', htail⟩
  exact Int32.toInt_inj.mp (formatInt_injective (List.append_cancel_left hhead))

/-- What is kept of a text of at most sixteen characters is all of it. -/
theorem eq_format_of_take {signal : CpuSignal} {text : String} {kept kept' : Nat}
    (hkept : 16 ≤ kept) (hlength : text.toList.length ≤ 16) (hkept' : 16 ≤ kept')
    (heq : signal.format.toList.take kept = text.toList.take kept') :
    text.toList = signal.format.toList ∨ text.toList = "util_est.enqueue".toList := by
  rw [List.take_of_length_le (hlength.trans hkept')] at heq
  rcases signal.format_take hkept with hfull | ⟨-, hcut⟩
  · exact Or.inl (heq.symm.trans hfull)
  · exact Or.inr (heq.symm.trans hcut)

/-- The counters of one name are of one CPU, and of signals with one text. -/
theorem CpuSignal.format_eq_of_cpuTrackName_eq {signal signal' : CpuSignal} {cpu cpu' : Int32}
    (heq : cpuTrackName signal.format cpu = cpuTrackName signal'.format cpu') :
    cpu = cpu' ∧ signal.format = signal'.format := by
  obtain ⟨hcpu, kept, kept', hkept, hkept', htake⟩ :=
    cpuTrackName_inj signal.blank_notMem_format signal'.blank_notMem_format heq
  refine ⟨hcpu, ?_⟩
  rcases signal.format_take hkept with hfull | ⟨rfl, hcut⟩
  · rcases signal'.format_take hkept' with hfull' | ⟨rfl, hcut'⟩
    · rw [hfull, hfull'] at htake
      exact String.toList_inj.mp htake
    · rw [hfull, hcut'] at htake
      revert htake
      cases signal <;> decide
  · rcases signal'.format_take hkept' with hfull' | ⟨rfl, hcut'⟩
    · rw [hcut, hfull'] at htake
      revert htake
      cases signal' <;> decide
    · rfl

/-- No other text of at most sixteen characters makes the name of a counter. -/
theorem cpuTrackName_ne_format {signal : CpuSignal} {text : String} (hblank : ' ' ∉ text.toList)
    (hlength : text.toList.length ≤ 16) (hformat : text ≠ signal.format)
    (hcut : text ≠ "util_est.enqueue") (cpu cpu' : Int32) :
    cpuTrackName text cpu ≠ cpuTrackName signal.format cpu' := by
  intro heq
  obtain ⟨-, kept, kept', hkept, hkept', htake⟩ :=
    cpuTrackName_inj hblank signal.blank_notMem_format heq
  rcases eq_format_of_take hkept' hlength hkept htake.symm with htext | htext
  · exact hformat (String.toList_inj.mp htext)
  · exact hcut (String.toList_inj.mp htext)

theorem blank_mem_cpuTrackName (signal : String) (cpu : Int32) :
    ' ' ∈ cpuTrackName signal cpu := by
  obtain ⟨kept, -, hname⟩ := cpuTrackName_eq signal cpu
  rw [hname]
  exact List.mem_append_right _ List.mem_cons_self

/-- The name of a counter of a CPU that exists has no dash. -/
theorem dash_notMem_cpuTrackName (signal : CpuSignal) {cpu : Int32} (hcpu : 0 ≤ cpu) :
    '-' ∉ cpuTrackName signal.format cpu := by
  obtain ⟨number, hnumber⟩ : ∃ number : Nat, cpu.toInt = number :=
    Int.eq_ofNat_of_zero_le (Int32.le_iff_toInt_le.mp hcpu)
  obtain ⟨kept, -, hname⟩ := cpuTrackName_eq signal.format cpu
  rw [hname, hnumber, formatInt_natCast]
  intro hmem
  rcases List.mem_append.mp hmem with hhead | htail
  · rcases List.mem_append.mp hhead with htext | hdigits
    · revert htext
      decide
    · exact notMem_formatNat (by decide) hdigits
  · rcases List.mem_cons.mp htail with hblank | htext
    · revert hblank
      decide
    · have hformat := List.mem_of_mem_take htext
      revert hformat
      cases signal <;> decide

/-- The dash after a comm is always kept. -/
theorem dash_mem_taskTrackName (signal : String) {name : List Char} (hname : name.length ≤ 15)
    (pid : Int32) : '-' ∈ taskTrackName signal name pid := by
  rw [taskTrackName, trackName, List.append_assoc, List.cons_append,
    snprintf_append_cons (by omega)]
  exact List.mem_append_right _ List.mem_cons_self

/-! ## Calls -/

/-- The name and pid that a call carries are those of a task. -/
def TraceCall.OfTask : TraceCall → Prop
  | .task _ _ name pid _ => ∃ comm : TaskComm, ∃ p : Pid, name = comm.text ∧ pid = p.toInt32
  | _ => True

theorem CpuSignal.run_cpu (signal : CpuSignal) (ts : UInt64) (cpu value : Int32) :
    ∃ category, (TraceCall.cpu signal ts cpu value).run =
      [.counter category (cpuTrackName signal.format cpu) ts value.toInt] := by
  cases signal <;> exact ⟨_, rfl⟩

/-- The sample of a call for a CPU-level counter that is named with a text. -/
def TraceCall.named? (text : String) (cpu : Int32) : TraceCall → Option (UInt64 × Int)
  | .cpu signal ts cpu' value =>
      if signal.format = text ∧ cpu' = cpu then some (ts, value.toInt) else none
  | _ => none

/-- The intervals of the domains are on tracks without a blank. -/
theorem blank_notMem_sdStatsName (cpu level : Int32) :
    ' ' ∉ snprintf 64 ("CPU".toList ++ formatInt cpu.toInt ++ ".level".toList ++
      formatInt level.toInt ++ ".balance_interval".toList) := by
  intro hmem
  have hnumber : ∀ i : Int, ' ' ∉ formatInt i := fun i => notMem_formatInt (by decide) (by decide)
  simp only [snprintf] at hmem
  have hmem := List.mem_of_mem_take hmem
  simp only [List.mem_append, hnumber, or_false] at hmem
  revert hmem
  decide

theorem ne_of_blank_mem {name track : List Char} (hblank : ' ' ∈ track) (hname : ' ' ∉ name) :
    name ≠ track := by
  rintro rfl
  exact hname hblank

theorem samplesOn_sdStats {track : List Char} (hblank : ' ' ∈ track) (ts : UInt64) (cpu : Int32)
    (levels : List (Int32 × UInt32)) :
    (TraceCall.lbSdStats ts cpu levels).samplesOn track = [] := by
  apply List.filterMap_eq_nil_iff.mpr
  intro event hevent
  obtain ⟨⟨level, interval⟩, -, rfl⟩ := List.mem_map.mp hevent
  exact if_neg (ne_of_blank_mem hblank (blank_notMem_sdStatsName cpu level))

/-- Nothing but calls of its signal writes to the track of a counter. -/
theorem samplesOn_cpuTrackName {call : TraceCall} (htask : call.OfTask) (signal : CpuSignal)
    {cpu : Int32} (hcpu : 0 ≤ cpu) :
    call.samplesOn (cpuTrackName signal.format cpu) =
      (call.named? signal.format cpu).toList := by
  have hblank := blank_mem_cpuTrackName signal.format cpu
  cases call with
  | cpu signal' ts cpu' value =>
      obtain ⟨category, hrun⟩ := signal'.run_cpu ts cpu' value
      rw [samplesOn_counter hrun]
      by_cases hsame : signal'.format = signal.format ∧ cpu' = cpu
      · rw [TraceCall.named?, if_pos hsame, if_pos (by rw [hsame.1, hsame.2])]
        rfl
      · rw [TraceCall.named?, if_neg hsame, if_neg]
        · rfl
        · intro heq
          obtain ⟨hcpu, hformat⟩ := CpuSignal.format_eq_of_cpuTrackName_eq heq
          exact hsame ⟨hformat, hcpu⟩
  | task signal' ts name pid value =>
      rw [samplesOn_counter (signal'.run_task ts name pid value), if_neg]
      · rfl
      intro heq
      obtain ⟨comm, p, rfl, -⟩ := htask
      exact dash_notMem_cpuTrackName signal hcpu (heq ▸ dash_mem_taskTrackName _ comm.fits pid)
  | cpuIdle ts cpu' state =>
      rw [samplesOn_counter rfl, if_neg]
      · rfl
      apply cpuTrackName_ne_format
      all_goals first | decide | (cases signal <;> decide)
  | cpuIdleMiss => rfl
  | lbEntry => rfl
  | lbExit => rfl
  | lbSdStats ts cpu' levels => exact samplesOn_sdStats hblank ts cpu' levels
  | lbOverloaded ts value =>
      rw [samplesOn_counter rfl, if_neg (ne_of_blank_mem hblank (by decide))]
      rfl
  | lbOverutilized ts value =>
      rw [samplesOn_counter rfl, if_neg (ne_of_blank_mem hblank (by decide))]
      rfl
  | lbMisfit ts cpu' misfitTaskLoad =>
      rw [samplesOn_counter rfl, if_neg]
      · rfl
      apply cpuTrackName_ne_format
      all_goals first | decide | (cases signal <;> decide)
  | ipiSendCpu => rfl

/-! ## Task-level counters -/

/-- No name of a CPU is one of a task, but for a task that is called so. -/
theorem cpuTrackName_ne_track {text : String} (hblank : ' ' ∉ text.toList) (cpu : Int32)
    {signal : TaskSignal} {comm : TaskComm} (hcomm : comm.text ≠ "CPU".toList) (pid : Pid) :
    cpuTrackName text cpu ≠ signal.track comm pid := by
  intro heq
  obtain ⟨kept, -, hname⟩ := cpuTrackName_eq text cpu
  rw [hname, signal.track_eq] at heq
  obtain ⟨hhead, -⟩ := append_cons_inj_of_notMem_tail
    (fun hmem => hblank (List.mem_of_mem_take hmem))
    (fun hmem => signal.blank_notMem_format (List.mem_of_mem_take hmem)) heq
  have hdigits : ∀ n, '-' ∉ formatNat n := fun n => notMem_formatNat (by decide)
  cases hnumber : cpu.toInt with
  | ofNat number =>
      rw [hnumber] at hhead
      have hdash : '-' ∈ "CPU".toList ++ formatNat number :=
        hhead ▸ List.mem_append_right _ List.mem_cons_self
      rcases List.mem_append.mp hdash with htext | hmem
      · revert htext
        decide
      · exact hdigits number hmem
  | negSucc number =>
      rw [hnumber] at hhead
      obtain ⟨hcpu, -⟩ := append_cons_inj_of_notMem_tail (hdigits _) (hdigits _) hhead
      exact hcomm hcpu.symm

theorem blank_mem_track (signal : TaskSignal) (comm : TaskComm) (pid : Pid) :
    ' ' ∈ signal.track comm pid := by
  rw [signal.track_eq]
  exact List.mem_append_right _ List.mem_cons_self

/-- A name that is not cut is the name of one task and signal. -/
theorem TaskSignal.eq_of_track_eq {signal signal' : TaskSignal} {comm comm' : TaskComm}
    {pid pid' : Pid}
    (hfits : comm.text.length + (formatNat pid.number).length + 2 +
      signal.format.toList.length ≤ 31)
    (heq : signal'.track comm' pid' = signal.track comm pid) :
    comm' = comm ∧ pid' = pid ∧ signal' = signal := by
  have hlength := length_taskPrefix comm pid
  obtain ⟨rfl, rfl, hsignal⟩ := TaskSignal.track_inj heq.symm
  rw [List.take_of_length_le (by omega)] at hsignal
  exact ⟨rfl, rfl, (TaskSignal.eq_of_prefix (hsignal ▸ List.take_prefix _ _)).symm⟩

/-- And the option of the signal selects it. -/
theorem TaskSignal.like_track (collation : Collation) {signal : TaskSignal} {comm : TaskComm}
    {pid : Pid} {option : PpSignal} (hoption : option ∈ signal.ppSignal)
    (hfits : comm.text.length + (formatNat pid.number).length + 2 +
      signal.format.toList.length ≤ 31) :
    like collation ('%' :: ' ' :: option.pattern) (signal.track comm pid) = true := by
  have hlength := length_taskPrefix comm pid
  rw [TaskSignal.track_of_fits (by omega)]
  exact like_percent_append _ (like_blank_cons.mpr ⟨rfl, like_format collation hoption⟩)

/-- Nothing but calls of its task and signal writes to the track of a task's counter, if
the name was not cut. -/
theorem samplesOn_track {call : TraceCall} (htask : call.OfTask) {signal : TaskSignal}
    {comm : TaskComm} {pid : Pid} (hcomm : comm.text ≠ "CPU".toList)
    (hfits : comm.text.length + (formatNat pid.number).length + 2 +
      signal.format.toList.length ≤ 31) :
    call.samplesOn (signal.track comm pid) = (call.taskValue? signal comm pid).toList := by
  have hblank := blank_mem_track signal comm pid
  cases call with
  | cpu signal' ts cpu value =>
      obtain ⟨category, hrun⟩ := signal'.run_cpu ts cpu value
      rw [samplesOn_counter hrun, if_neg (cpuTrackName_ne_track signal'.blank_notMem_format cpu
        hcomm pid)]
      rfl
  | task signal' ts name pid' value =>
      obtain ⟨comm', p, rfl, rfl⟩ := htask
      rw [samplesOn_counter (signal'.run_task ts _ _ value), TraceCall.taskValue?]
      by_cases hsame : signal' = signal ∧ comm'.text = comm.text ∧ p.toInt32 = pid.toInt32
      · obtain ⟨rfl, htext, hpid⟩ := hsame
        have hname : taskTrackName signal'.format comm.text pid.toInt32 =
            signal'.track comm pid := rfl
        rw [htext, hpid, if_pos hname, if_pos ⟨rfl, rfl, rfl⟩]
        rfl
      · rw [if_neg hsame, if_neg]
        · rfl
        · intro heq
          obtain ⟨rfl, rfl, rfl⟩ := TaskSignal.eq_of_track_eq hfits heq
          exact hsame ⟨rfl, rfl, rfl⟩
  | cpuIdle ts cpu state =>
      rw [samplesOn_counter rfl, if_neg (cpuTrackName_ne_track (by decide) cpu hcomm pid)]
      rfl
  | cpuIdleMiss => rfl
  | lbEntry => rfl
  | lbExit => rfl
  | lbSdStats ts cpu levels => exact samplesOn_sdStats hblank ts cpu levels
  | lbOverloaded ts value =>
      rw [samplesOn_counter rfl, if_neg (ne_of_blank_mem hblank (by decide))]
      rfl
  | lbOverutilized ts value =>
      rw [samplesOn_counter rfl, if_neg (ne_of_blank_mem hblank (by decide))]
      rfl
  | lbMisfit ts cpu misfitTaskLoad =>
      rw [samplesOn_counter rfl, if_neg (cpuTrackName_ne_track (by decide) cpu hcomm pid)]
      rfl
  | ipiSendCpu => rfl

end SchedAnalyzer
