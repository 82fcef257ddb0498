import SchedAnalyzer.Foundation.KeyedPairs
import SchedAnalyzer.Session.LbMap

/-! # The spans of softirqs

The entry program of softirqs notes the clock under the CPU, and the exit program
submits the span since then. The CPUs share one map.
-/

namespace SchedAnalyzer

open Foundation Foundation.BoundedMap

/-- The program of a softirq. -/
def Hook.IsSoftirq : Hook → Prop
  | .softirqEntry _ => True
  | .softirqExit _ => True
  | _ => False

instance : DecidablePred Hook.IsSoftirq := fun hook => by
  cases hook <;> first | exact isTrue trivial | exact isFalse id

/-- The softirq hooks of a CPU. -/
def softirqsOn (cpu : Int32) (run : List Firing) : List Firing :=
  run.filter fun f => f.hook.IsSoftirq ∧ f.thisCpu = cpu

/-- The span of an entry and the exit right behind it, when the exit gets a slot. -/
def softirqSpan (pair : Firing × Firing) : Option SoftirqEvent :=
  match pair.1.hook, pair.2.hook with
  | .softirqEntry _, .softirqExit vecNr =>
      if pair.2.reserved then
        some ⟨pair.1.now, pair.2.thisCpu, copySoftirq vecNr, pair.2.now - pair.1.now⟩
      else none
  | _, _ => none

/-- A softirq record of a CPU. -/
def Record.softirqOf (cpu : Int32) : Record → Option SoftirqEvent
  | .softirq e => if e.cpu = cpu then some e else none
  | _ => none

/-- The clock does not go back on a CPU. -/
def ClockOnCpus (run : List Firing) : Prop :=
  run.Pairwise fun f later => f.thisCpu = later.thisCpu → f.now ≤ later.now

/-- The records of a CPU are its spans, one after the other. -/
structure ShowsSoftirqs (run : List Firing) (cpu : Int32) (records : List SoftirqEvent) :
    Prop where
  spans : records = (neighbours (softirqsOn cpu run)).filterMap softirqSpan
  disjoint : records.Pairwise fun e later => e.ts.toNat + e.duration.toNat ≤ later.ts.toNat

/-! ## One hook -/

/-- What a hook does to the map. -/
def Firing.softirqOperation (f : Firing) : Option (Operation Int32 UInt64) :=
  match f.hook with
  | .softirqEntry _ => some (.update f.thisCpu f.now)
  | .softirqExit _ => some (.delete f.thisCpu)
  | _ => none

/-- The record of an exit hook for the time of an entry. -/
def Firing.softirqRecord (entryTs : UInt64) (f : Firing) : Option SoftirqEvent :=
  match f.hook with
  | .softirqExit vecNr =>
      if f.reserved then some ⟨entryTs, f.thisCpu, copySoftirq vecNr, f.now - entryTs⟩ else none
  | _ => none

theorem softirqEntry_fire (k : KernelInfo) (maps : BpfMaps) (f : Firing) :
    (fire k maps f).1.softirqEntry = maps.softirqEntry.run f.softirqOperation.toList := by
  obtain ⟨hook, now, nowNext, thisCpu, reserved, reservedNext, slots⟩ := f
  cases hook
  case softirqExit vecNr =>
    change (handleSoftirqExit maps.softirqEntry now thisCpu vecNr _).1 =
      maps.softirqEntry.delete thisCpu
    unfold handleSoftirqExit
    cases hfound : maps.softirqEntry.lookup thisCpu with
    | none => exact (delete_of_lookup_eq_none hfound).symm
    | some entryTs => rfl
  all_goals rfl

theorem not_softirq_of_mem_fire {k : KernelInfo} {maps : BpfMaps} {f : Firing}
    (hother : ¬ f.hook.IsSoftirq) : ∀ r ∈ (fire k maps f).2, ∀ e, r ≠ .softirq e := by
  intro r hr e heq
  have hring := ring_of_mem_fire hr
  rw [heq] at hring
  cases hhook : f.hook <;> rw [hhook] at hother hring <;>
    simp [Hook.IsSoftirq, Hook.program, Program.ring, Record.ring] at hother hring

theorem softirqs_exchanged (k : KernelInfo) (cpu : Int32) (run : List Firing) :
    Exchanges (submitter k) BpfMaps.softirqEntry Firing.softirqOperation cpu
      (Record.softirqOf cpu) Firing.softirqRecord run where
  map_step := softirqEntry_fire k
  exits maps f _ hexit := by
    obtain ⟨hook, now, nowNext, thisCpu, reserved, reservedNext, slots⟩ := f
    cases hook <;> cases hexit
    change ((handleSoftirqExit maps.softirqEntry now thisCpu _
      (reserve reserved slots.softirq)).2.map Record.softirq).toList.filterMap _ = _
    unfold handleSoftirqExit
    cases maps.softirqEntry.lookup thisCpu with
    | none => rfl
    | some entryTs =>
        cases reserved <;> simp [Record.softirqOf, Firing.softirqRecord, reserve]
  others maps f _ hother := by
    apply List.filterMap_eq_nil_iff.mpr
    intro r hr
    by_cases hsoftirq : f.hook.IsSoftirq
    · obtain ⟨hook, now, nowNext, thisCpu, reserved, reservedNext, slots⟩ := f
      cases hook <;> try exact hsoftirq.elim
      case softirqEntry => exact absurd hr List.not_mem_nil
      case softirqExit vecNr _ =>
        -- The exit is on another CPU, and so is its record.
        have hcpu : thisCpu ≠ cpu := fun hcpu => hother (hcpu ▸ rfl)
        change r ∈ ((handleSoftirqExit maps.softirqEntry now thisCpu vecNr
          (reserve reserved slots.softirq)).2.map Record.softirq).toList at hr
        unfold handleSoftirqExit at hr
        cases hfound : maps.softirqEntry.lookup thisCpu with
        | none =>
            rw [hfound] at hr
            exact absurd hr List.not_mem_nil
        | some entryTs =>
            rw [hfound] at hr
            simp only [Option.mem_toList, Option.map_eq_some_iff] at hr
            obtain ⟨_, ⟨content, -, rfl⟩, rfl⟩ := hr
            exact if_neg hcpu
    · have hno := not_softirq_of_mem_fire hsoftirq r hr
      cases r
      case softirq e => exact absurd rfl (hno e)
      all_goals rfl

/-! ## Runs -/

theorem about_softirqOperation (cpu : Int32) (run : List Firing) :
    about Firing.softirqOperation cpu run = softirqsOn cpu run := by
  apply List.filter_congr
  intro f _
  apply decide_eq_decide.mpr
  obtain ⟨hook, now, nowNext, thisCpu, reserved, reservedNext, slots⟩ := f
  cases hook <;> simp [IsAbout, Firing.softirqOperation, Hook.IsSoftirq, Operation.key]

theorem exchanged_softirqOperation :
    exchanged Firing.softirqOperation Firing.softirqRecord = softirqSpan := by
  funext pair
  obtain ⟨entry, exit⟩ := pair
  rw [exchanged, softirqSpan, Firing.softirqOperation, Firing.softirqOperation]
  cases entry.hook
  case softirqEntry vecNr =>
    cases hexit : exit.hook
    case softirqExit vecNr => simp [Firing.softirqRecord, hexit]
    all_goals rfl
  case softirqExit vecNr => cases exit.hook <;> rfl
  all_goals rfl

/-- The times of a pair are those of its hooks. -/
theorem times_of_softirqSpan {pair : Firing × Firing} {e : SoftirqEvent}
    (hspan : softirqSpan pair = some e) :
    e.ts = pair.1.now ∧ e.duration = pair.2.now - pair.1.now := by
  unfold softirqSpan at hspan
  split at hspan
  next =>
    split at hspan
    next =>
      cases hspan
      exact ⟨rfl, rfl⟩
    next => cases hspan
  next => cases hspan

theorem softirqsOn_pairwise {run : List Firing} (hclock : ClockOnCpus run) (cpu : Int32) :
    (softirqsOn cpu run).Pairwise fun f later => f.now ≤ later.now := by
  apply List.Pairwise.imp_of_mem _ (hclock.filter _)
  intro f later hf hlater hle
  have hcpu := (of_decide_eq_true (List.mem_filter.mp hf).2).2
  have hcpu' := (of_decide_eq_true (List.mem_filter.mp hlater).2).2
  exact hle (hcpu.trans hcpu'.symm)

/-- Spans of neighbouring hooks do not overlap. -/
theorem softirqSpans_disjoint {hooks : List Firing}
    (hclock : hooks.Pairwise fun f later => f.now ≤ later.now) :
    ((neighbours hooks).filterMap softirqSpan).Pairwise fun e later =>
      e.ts.toNat + e.duration.toNat ≤ later.ts.toNat := by
  have hordered : ∀ pair ∈ neighbours hooks, pair.1.now ≤ pair.2.now := by
    intro pair hpair
    exact neighbours_rel hclock hpair
  apply List.pairwise_filterMap.mpr
  apply List.Pairwise.imp_of_mem _ (neighbours_pairwise (fun f => UInt64.le_refl f.now) hclock)
  intro pair later hpair _ hle e hspan e' hspan'
  obtain ⟨hts, hduration⟩ := times_of_softirqSpan hspan
  obtain ⟨hts', -⟩ := times_of_softirqSpan hspan'
  have hle' := UInt64.le_iff_toNat_le.mp (hordered pair hpair)
  rw [hts, hduration, hts', UInt64.toNat_sub_of_le _ _ (hordered pair hpair)]
  have hnext := UInt64.le_iff_toNat_le.mp hle
  omega

/-- On at most as many CPUs as the map has room for, the softirq records of a CPU are the
spans between each entry and the exit right behind it, and they do not overlap. -/
theorem showsSoftirqs (k : KernelInfo) {run : List Firing} (cpus : Finset Int32)
    (hroom : cpus.card ≤ 8192) (hcpus : ∀ f ∈ run, f.thisCpu ∈ cpus) (hclock : ClockOnCpus run)
    (cpu : Int32) :
    ShowsSoftirqs run cpu
      (((submitter k).outputs .empty run).filterMap (Record.softirqOf cpu)) := by
  have hfits : Fits 8192 (run.filterMap Firing.softirqOperation) := by
    apply fits_of_updates hroom
    intro key value hupdate
    obtain ⟨f, hf, hoperation⟩ := List.mem_filterMap.mp hupdate
    unfold Firing.softirqOperation at hoperation
    split at hoperation <;> cases hoperation
    exact hcpus f hf
  have hempty : BpfMaps.empty.softirqEntry = .empty := rfl
  have hspans := (softirqs_exchanged k cpu run).outputs_eq hempty hfits
  rw [about_softirqOperation, exchanged_softirqOperation] at hspans
  rw [hspans]
  exact ⟨rfl, softirqSpans_disjoint (softirqsOn_pairwise hclock cpu)⟩

/-- Softirqs on two CPUs at a time, and an exit without an entry. -/
def twoSoftirqs : List Firing :=
  [(Hook.softirqExit 1).firing 500 1,
    (Hook.softirqEntry 3).firing 1000 0,
    (Hook.softirqEntry 7).firing 1500 1,
    (Hook.softirqExit 3).firing 2000 0,
    (Hook.softirqExit 7).firing 4000 1]

theorem showsSoftirqs_twoSoftirqs :
    ShowsSoftirqs twoSoftirqs 1
      (((submitter (.complete (kernelVersion 6 6 0))).outputs .empty twoSoftirqs).filterMap
        (Record.softirqOf 1)) :=
  showsSoftirqs _ {0, 1} (by decide) (by decide) (by unfold ClockOnCpus; decide) 1

example :
    (neighbours (softirqsOn 1 twoSoftirqs)).filterMap softirqSpan =
      [⟨1500, 1, copySoftirq 7, 2500⟩] := by
  decide

end SchedAnalyzer
