import Mathlib.Data.Finset.Prod
import SchedAnalyzer.Session.SoftirqSpans

/-! # The exits of load balancing

While `lb_map` has room for all phases of all CPUs, no exit is missed: the exit records
of a phase on a CPU are those of the exits right behind an entry, with the CPU that the
entry noted.
-/

namespace SchedAnalyzer

open Foundation Foundation.BoundedMap

instance (phase : LbPhase) (cpu : Int32) (f : Firing) : Decidable (f.IsOn phase cpu) :=
  inferInstanceAs (Decidable (_ ∧ _))

/-- The hooks of a phase on a CPU. -/
def lbHooksOn (phase : LbPhase) (cpu : Int32) (run : List Firing) : List Firing :=
  run.filter fun f => f.IsOn phase cpu

/-- The exit record of an entry and the exit right behind it, when the exit gets a slot. -/
def lbExitRecord (pair : Firing × Firing) : Option LbEvent :=
  match pair.1.hook.notes, pair.2.hook.lbPhase with
  | some (_, lbCpu), some (phase, false) =>
      (reserve pair.2.reserved pair.2.slots.lb).map
        (fillLb phase false pair.2.now pair.2.thisCpu lbCpu .none)
  | _, _ => none

/-- An exit record of a phase on a CPU. -/
def Record.lbExitOf (phase : LbPhase) (cpu : Int32) : Record → Option LbEvent
  | .lb e => if e.phase = phase.code ∧ e.thisCpu = cpu ∧ e.entry = false then some e else none
  | _ => none

/-- CPUs whose numbers fit the key, and that are few enough for the map. -/
structure CpusFitMap (cpus : Finset Int32) : Prop where
  fit_key : ∀ cpu ∈ cpus, 0 ≤ cpu.toInt ∧ cpu.toInt < 65536
  room : 6 * cpus.card ≤ 8192

/-- The phases that use the map. -/
def mapPhases : Finset LbPhase :=
  {.nohzIdleBalance, .rebalanceDomains, .balanceFair, .pickNextTaskFair, .newidleBalance,
    .loadBalance}

theorem mem_mapPhases {phase : LbPhase} : phase ∈ mapPhases ↔ phase ≠ .runRebalanceDomains := by
  cases phase <;> decide

/-! ## One hook -/

/-- The record of an exit hook for what an entry has noted. -/
def Firing.lbRecord (lbCpu : Int32) (f : Firing) : Option LbEvent :=
  match f.hook.lbPhase with
  | some (phase, false) =>
      (reserve f.reserved f.slots.lb).map (fillLb phase false f.now f.thisCpu lbCpu .none)
  | _ => none

/-- Entry hooks note what they are about. -/
theorem lbPhase_of_notes {hook : Hook} {phase : LbPhase} {lbCpu : Int32}
    (hnotes : hook.notes = some (phase, lbCpu)) :
    hook.lbPhase = some (phase, true) ∧ phase ≠ .runRebalanceDomains := by
  cases hook <;> simp only [Hook.notes, Option.some.injEq, Prod.mk.injEq, reduceCtorEq] at hnotes
  all_goals
    obtain ⟨rfl, -⟩ := hnotes
    exact ⟨rfl, nofun⟩

/-- Only an exit hook deletes, and under the key of its phase and CPU. -/
theorem delete_of_lbOperation {f : Firing} {key : Int32}
    (hoperation : f.lbOperation = some (.delete key)) :
    ∃ phase, f.hook.lbPhase = some (phase, false) ∧ phase ≠ .runRebalanceDomains ∧
      key = lbKey phase f.thisCpu := by
  obtain ⟨hook, now, nowNext, thisCpu, reserved, reservedNext, slots⟩ := f
  cases hook <;> cases hoperation <;> exact ⟨_, rfl, nofun, rfl⟩

/-- An exit hook of a phase that uses the map. -/
theorem fire_of_lbExit (k : KernelInfo) (maps : BpfMaps) {f : Firing} {phase : LbPhase}
    (hphase : f.hook.lbPhase = some (phase, false)) (hused : phase ≠ .runRebalanceDomains) :
    fire k maps f = lbResult maps
      (lbExit phase maps.lbMap f.now f.thisCpu (reserve f.reserved f.slots.lb)) := by
  obtain ⟨hook, now, nowNext, thisCpu, reserved, reservedNext, slots⟩ := f
  cases hook <;> cases hphase
  case runRebalanceDomainsExit => exact absurd rfl hused
  all_goals rfl

theorem lbOperation_of_exit {f : Firing} {phase : LbPhase}
    (hphase : f.hook.lbPhase = some (phase, false)) (hused : phase ≠ .runRebalanceDomains) :
    f.lbOperation = some (.delete (lbKey phase f.thisCpu)) := by
  obtain ⟨hook, now, nowNext, thisCpu, reserved, reservedNext, slots⟩ := f
  cases hook <;> cases hphase
  case runRebalanceDomainsExit => exact absurd rfl hused
  all_goals rfl

section Hooks

variable {phase : LbPhase} {cpu : Int32} {f : Firing}

/-- An exit record of the phase and CPU comes from an exit hook of the two. -/
theorem lbExitOf_eq_none {k : KernelInfo} {maps : BpfMaps} (hused : phase ≠ .runRebalanceDomains)
    (hnot : ¬ (f.hook.lbPhase = some (phase, false) ∧ f.thisCpu = cpu)) {r : Record}
    (hr : r ∈ (fire k maps f).2) : r.lbExitOf phase cpu = none := by
  cases r
  case lb e =>
    apply if_neg
    rintro ⟨hphase, hcpu, hentry⟩
    have hexit : e.phase ≠ LbPhase.runRebalanceDomains.code := by
      intro hrun
      have hcode := congrArg LbPhase.ofCode (hphase.symm.trans hrun)
      rw [LbPhase.ofCode_code, LbPhase.ofCode_code] at hcode
      exact hused (Option.some.inj hcode)
    obtain ⟨phase', hlb, hphase', hcpu', -⟩ := exit_of_mem_fire hr hentry hexit
    have hcode := congrArg LbPhase.ofCode (hphase'.symm.trans hphase)
    rw [LbPhase.ofCode_code, LbPhase.ofCode_code] at hcode
    exact hnot ⟨Option.some.inj hcode ▸ hlb, hcpu'.symm.trans hcpu⟩
  all_goals rfl

end Hooks

theorem lbExits_exchanged (k : KernelInfo) {run : List Firing} {cpus : Finset Int32}
    (hfit : CpusFitMap cpus) (hcpus : ∀ f ∈ run, f.thisCpu ∈ cpus) {phase : LbPhase}
    (hused : phase ≠ .runRebalanceDomains) {cpu : Int32} (hcpu : cpu ∈ cpus) :
    Exchanges (submitter k) BpfMaps.lbMap Firing.lbOperation (lbKey phase cpu)
      (Record.lbExitOf phase cpu) Firing.lbRecord run where
  map_step := lbMap_fire k
  exits maps f hf hexit := by
    obtain ⟨phase', hphase', hused', hkey⟩ := delete_of_lbOperation hexit
    have hhere := hfit.fit_key cpu hcpu
    have hthere := hfit.fit_key f.thisCpu (hcpus f hf)
    obtain ⟨rfl, hsame⟩ := lbKey_injective hhere.1 hhere.2 hthere.1 hthere.2 hkey
    change (fire k maps f).2.filterMap _ = _
    rw [fire_of_lbExit k maps hphase' hused', hsame, lbExit]
    cases maps.lbMap.lookup (lbKey phase f.thisCpu) with
    | none => rfl
    | some lbCpu =>
        rw [Option.bind_some, Firing.lbRecord, hphase']
        cases f.reserved <;> simp [lbResult, reserve, Record.lbExitOf, fillLb]
  others maps f hf hother := by
    apply List.filterMap_eq_nil_iff.mpr
    intro r hr
    apply lbExitOf_eq_none hused _ hr
    rintro ⟨hphase, rfl⟩
    exact hother (lbOperation_of_exit hphase hused)

/-! ## Runs -/

section Runs

variable {run : List Firing} {cpus : Finset Int32} {phase : LbPhase} {cpu : Int32}

theorem about_lbOperation (hfit : CpusFitMap cpus) (hcpus : ∀ f ∈ run, f.thisCpu ∈ cpus)
    (hused : phase ≠ .runRebalanceDomains) (hcpu : cpu ∈ cpus) :
    about Firing.lbOperation (lbKey phase cpu) run = lbHooksOn phase cpu run := by
  apply List.filter_congr
  intro f hf
  apply decide_eq_decide.mpr
  constructor
  · rintro ⟨operation, hoperation, hkey⟩
    have hhere := hfit.fit_key cpu hcpu
    have hthere := hfit.fit_key f.thisCpu (hcpus f hf)
    have hsame : ∀ phase', operation.key = lbKey phase' f.thisCpu →
        phase = phase' ∧ cpu = f.thisCpu := by
      intro phase' hkey'
      exact lbKey_injective hhere.1 hhere.2 hthere.1 hthere.2 (hkey.symm.trans hkey')
    cases operation with
    | update key lbCpu =>
        obtain ⟨phase', hnotes, hkey'⟩ := update_of_lbOperation hoperation
        obtain ⟨rfl, rfl⟩ := hsame phase' hkey'
        exact ⟨congrArg (Option.map Prod.fst) (lbPhase_of_notes hnotes).1, rfl⟩
    | delete key =>
        obtain ⟨phase', hphase, -, hkey'⟩ := delete_of_lbOperation hoperation
        obtain ⟨rfl, rfl⟩ := hsame phase' hkey'
        exact ⟨congrArg (Option.map Prod.fst) hphase, rfl⟩
  · intro hon
    exact lbOperation_of_isOn hon hused

theorem exchanged_lbOperation (hused : phase ≠ .runRebalanceDomains) {pair : Firing × Firing}
    (hon : pair.2.IsOn phase cpu) :
    exchanged Firing.lbOperation Firing.lbRecord pair = lbExitRecord pair := by
  obtain ⟨entry, exit⟩ := pair
  have hexit : exit.lbOperation = some (.delete (lbKey phase exit.thisCpu)) ∧
        exit.hook.lbPhase = some (phase, false) ∨
      (∃ lbCpu, exit.lbOperation = some (.update (lbKey phase exit.thisCpu) lbCpu)) ∧
        exit.hook.lbPhase = some (phase, true) := by
    obtain ⟨hook, now, nowNext, thisCpu, reserved, reservedNext, slots⟩ := exit
    obtain ⟨hphase, rfl⟩ := hon
    cases hook <;> simp only [Hook.lbPhase, Option.map_some, Option.map_none, Option.some.injEq,
      reduceCtorEq] at hphase
    all_goals subst hphase
    case runRebalanceDomainsEntry => exact absurd rfl hused
    case runRebalanceDomainsExit => exact absurd rfl hused
    all_goals first
      | exact .inl ⟨rfl, rfl⟩
      | exact .inr ⟨⟨_, rfl⟩, rfl⟩
  rw [exchanged, lbExitRecord]
  rcases hexit with ⟨hdelete, hphase⟩ | ⟨⟨lbCpu, hupdate⟩, hphase⟩
  · rw [hdelete, hphase]
    cases hnotes : entry.hook.notes with
    | none =>
        have hentry : ∀ key value, entry.lbOperation ≠ some (.update key value) := by
          intro key value hupdate
          obtain ⟨_, hsome, -⟩ := update_of_lbOperation hupdate
          rw [hnotes] at hsome
          cases hsome
        cases hoperation : entry.lbOperation with
        | none => rfl
        | some operation =>
            cases operation with
            | delete key => rfl
            | update key value => exact absurd hoperation (hentry key value)
    | some noted =>
        have hentry : entry.lbOperation = some (.update (lbKey noted.1 entry.thisCpu) noted.2) := by
          rw [Firing.lbOperation, hnotes]
        rw [hentry]
        change Firing.lbRecord noted.2 exit = _
        rw [Firing.lbRecord, hphase]
  · rw [hupdate, hphase]
    cases entry.hook.notes <;> cases entry.lbOperation with
    | none => rfl
    | some operation => cases operation <;> rfl

theorem fits_lbOperations (hfit : CpusFitMap cpus) (hcpus : ∀ f ∈ run, f.thisCpu ∈ cpus) :
    Fits 8192 (run.filterMap Firing.lbOperation) := by
  have hcard : ((mapPhases ×ˢ cpus).image fun noted => lbKey noted.1 noted.2).card ≤ 8192 := by
    apply Finset.card_image_le.trans
    rw [Finset.card_product]
    exact hfit.room
  apply fits_of_updates hcard
  intro key lbCpu hupdate
  obtain ⟨f, hf, hoperation⟩ := List.mem_filterMap.mp hupdate
  obtain ⟨phase, hnotes, rfl⟩ := update_of_lbOperation hoperation
  have hphase := mem_mapPhases.mpr (lbPhase_of_notes hnotes).2
  exact Finset.mem_image.mpr ⟨(phase, f.thisCpu), Finset.mk_mem_product hphase (hcpus f hf), rfl⟩

/-- The exit records of a phase on a CPU are those of the exits right behind an entry
that get a slot, with the CPU that the entry noted. -/
theorem lbExits_eq (k : KernelInfo) (hfit : CpusFitMap cpus) (hcpus : ∀ f ∈ run, f.thisCpu ∈ cpus)
    (hused : phase ≠ .runRebalanceDomains) (hcpu : cpu ∈ cpus) :
    ((submitter k).outputs .empty run).filterMap (Record.lbExitOf phase cpu) =
      (neighbours (lbHooksOn phase cpu run)).filterMap lbExitRecord := by
  have hempty : BpfMaps.empty.lbMap = .empty := rfl
  rw [(lbExits_exchanged k hfit hcpus hused hcpu).outputs_eq hempty (fits_lbOperations hfit hcpus),
    about_lbOperation hfit hcpus hused hcpu]
  apply List.filterMap_congr
  intro pair hpair
  have hon := (List.mem_filter.mp (snd_mem_of_mem_neighbours hpair)).2
  exact exchanged_lbOperation hused (of_decide_eq_true hon)

end Runs

theorem lbExits_eq_interleavedBalance :
    (((submitter (.complete (kernelVersion 6 6 0))).outputs .empty interleavedBalance).filterMap
        (Record.lbExitOf .loadBalance 2)) =
      (neighbours (lbHooksOn .loadBalance 2 interleavedBalance)).filterMap lbExitRecord :=
  lbExits_eq _ (show CpusFitMap {0, 2} from ⟨by simp, by decide⟩) (by decide) nofun (by decide)

end SchedAnalyzer
