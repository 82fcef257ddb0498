import SchedAnalyzer.Session.LbSlices

/-! # What `lb_map` holds

All phases and CPUs share one map. Its key packs the two, and an exit record
takes its `lb_cpu` from what the entry of the same phase and CPU stored last.
-/

namespace SchedAnalyzer

open Foundation Foundation.BoundedMap

/-- The programs attached to the hooks of a run, and the records they submit. -/
def submitter (k : KernelInfo) : Transducer BpfMaps Firing Record where
  step := fire k

/-- The phase of an entry hook that uses the map, and the CPU it notes there. -/
def Hook.notes : Hook → Option (LbPhase × Int32)
  | .nohzIdleBalanceEntry rq => some (.nohzIdleBalance, rq.cpu)
  | .rebalanceDomainsEntry rq _ => some (.rebalanceDomains, rq.cpu)
  | .balanceFairEntry rq => some (.balanceFair, rq.cpu)
  | .pickNextTaskFairEntry rq => some (.pickNextTaskFair, rq.cpu)
  | .newidleBalanceEntry rq => some (.newidleBalance, rq.cpu)
  | .loadBalanceEntry lbCpu _ => some (.loadBalance, lbCpu)
  | _ => none

/-- An entry or exit hook of a phase on a CPU. -/
def Firing.IsOn (phase : LbPhase) (cpu : Int32) (f : Firing) : Prop :=
  f.hook.lbPhase.map Prod.fst = some phase ∧ f.thisCpu = cpu

/-- CPUs whose numbers fit the low half of a key. -/
def CpusFitKey (run : List Firing) : Prop :=
  ∀ f ∈ run, 0 ≤ f.thisCpu.toInt ∧ f.thisCpu.toInt < 65536

/-- An exit record that a hook submits for a phase that uses the map carries what
the last entry of its phase and CPU noted, and there is no hook of the two in
between, so that no other exit has used the entry. -/
def ExitsUseEntries (k : KernelInfo) (run : List Firing) : Prop :=
  ∀ before f after, run = before ++ f :: after →
    ∀ e, .lb e ∈ (fire k ((submitter k).final .empty before) f).2 →
      e.entry = false → e.phase ≠ LbPhase.runRebalanceDomains.code →
        ∃ phase, f.hook.lbPhase = some (phase, false) ∧ e.phase = phase.code ∧
          e.thisCpu = f.thisCpu ∧
            ∃ earlier g since, before = earlier ++ g :: since ∧
              g.hook.notes = some (phase, e.lbCpu) ∧ g.thisCpu = f.thisCpu ∧
                ∀ h ∈ since, ¬ h.IsOn phase f.thisCpu

/-! ## Keys -/

/-- A key is the phase and the CPU next to each other. -/
theorem toNat_lbKey (phase : LbPhase) {cpu : Int32} (hlo : 0 ≤ cpu.toInt)
    (hhi : cpu.toInt < 65536) :
    (lbKey phase cpu).toUInt32.toNat = phase.code.toNat * 65536 + cpu.toInt.toNat := by
  have hcpu : cpu.toUInt32.toNat = cpu.toInt.toNat :=
    Int32.toNat_toUInt32_of_le (Int32.le_iff_toInt_le.mpr hlo)
  have hcode : phase.code.toNat <<< 16 < 2 ^ 32 := by
    cases phase <;> decide
  rw [lbKey, UInt32.toUInt32_toInt32, UInt32.toNat_or, UInt32.toNat_shiftLeft]
  change phase.code.toNat <<< 16 % 2 ^ 32 ||| cpu.toUInt32.toNat = _
  -- The CPU leaves the bits of the phase alone.
  rw [Nat.mod_eq_of_lt hcode, ← Nat.shiftLeft_add_eq_or_of_lt (by omega), hcpu,
    Nat.shiftLeft_eq]

theorem lbKey_injective {phase phase' : LbPhase} {cpu cpu' : Int32} (hlo : 0 ≤ cpu.toInt)
    (hhi : cpu.toInt < 65536) (hlo' : 0 ≤ cpu'.toInt) (hhi' : cpu'.toInt < 65536)
    (hkey : lbKey phase cpu = lbKey phase' cpu') : phase = phase' ∧ cpu = cpu' := by
  have hsum := congrArg (fun key => key.toUInt32.toNat) hkey
  simp only [toNat_lbKey phase hlo hhi, toNat_lbKey phase' hlo' hhi'] at hsum
  have hcode : phase.code = phase'.code := UInt32.toNat_inj.mp (by omega)
  refine ⟨?_, Int32.toInt_inj.mp (by omega)⟩
  exact Option.some.inj ((LbPhase.ofCode_code phase).symm.trans
    ((congrArg LbPhase.ofCode hcode).trans (LbPhase.ofCode_code phase')))

/-! ## One hook -/

/-- What a hook does to the map. -/
def Firing.lbOperation (f : Firing) : Option (Operation Int32 Int32) :=
  match f.hook.notes, f.hook.lbPhase with
  | some (phase, lbCpu), _ => some (.update (lbKey phase f.thisCpu) lbCpu)
  | none, some (phase, _) =>
      if phase = .runRebalanceDomains then none else some (.delete (lbKey phase f.thisCpu))
  | none, none => none

theorem lbMap_lbExit (phase : LbPhase) (maps : BpfMaps) (now : UInt64) (thisCpu : Int32)
    (slot : Option LbEvent) :
    (lbResult maps (lbExit phase maps.lbMap now thisCpu slot)).1.lbMap =
      maps.lbMap.delete (lbKey phase thisCpu) := by
  unfold lbExit
  cases hfound : maps.lbMap.lookup (lbKey phase thisCpu) with
  | none => exact (delete_of_lookup_eq_none hfound).symm
  | some lbCpu => rfl

theorem lbMap_fire (k : KernelInfo) (maps : BpfMaps) (f : Firing) :
    (fire k maps f).1.lbMap = maps.lbMap.run f.lbOperation.toList := by
  obtain ⟨hook, now, nowNext, thisCpu, reserved, reservedNext, slots⟩ := f
  cases hook
  case nohzIdleBalanceExit => exact lbMap_lbExit ..
  case rebalanceDomainsExit => exact lbMap_lbExit ..
  case balanceFairExit => exact lbMap_lbExit ..
  case pickNextTaskFairExit => exact lbMap_lbExit ..
  case newidleBalanceExit => exact lbMap_lbExit ..
  case loadBalanceExit => exact lbMap_lbExit ..
  all_goals rfl

/-- The map after a run has seen the operations of its hooks. -/
theorem lbMap_final (k : KernelInfo) (maps : BpfMaps) (run : List Firing) :
    ((submitter k).final maps run).lbMap =
      maps.lbMap.run (run.filterMap Firing.lbOperation) := by
  induction run generalizing maps with
  | nil => rfl
  | cons f rest ih =>
      rw [Transducer.final_cons, ih]
      change (fire k maps f).1.lbMap.run _ = _
      rw [lbMap_fire, List.filterMap_cons]
      cases f.lbOperation with
      | none => rfl
      | some operation => rfl

/-- An exit record carries what the map holds for its phase and CPU. -/
theorem mem_lbExit {phase : LbPhase} {maps : BpfMaps} {now : UInt64} {thisCpu : Int32}
    {slot : Option LbEvent} {e : LbEvent}
    (he : .lb e ∈ (lbResult maps (lbExit phase maps.lbMap now thisCpu slot)).2) :
    e.phase = phase.code ∧ e.thisCpu = thisCpu ∧
      maps.lbMap.lookup (lbKey phase thisCpu) = some e.lbCpu := by
  unfold lbExit at he
  cases hfound : maps.lbMap.lookup (lbKey phase thisCpu) with
  | none =>
      rw [hfound] at he
      exact absurd he List.not_mem_nil
  | some lbCpu =>
      rw [hfound] at he
      simp only [lbResult, Option.mem_toList, Option.map_eq_some_iff] at he
      obtain ⟨_, ⟨content, -, rfl⟩, hrecord⟩ := he
      cases hrecord
      exact ⟨rfl, rfl, rfl⟩

theorem exit_of_mem_fire {k : KernelInfo} {maps : BpfMaps} {f : Firing} {e : LbEvent}
    (he : .lb e ∈ (fire k maps f).2) (hentry : e.entry = false)
    (hphase : e.phase ≠ LbPhase.runRebalanceDomains.code) :
    ∃ phase, f.hook.lbPhase = some (phase, false) ∧ e.phase = phase.code ∧
      e.thisCpu = f.thisCpu ∧
        maps.lbMap.lookup (lbKey phase f.thisCpu) = some e.lbCpu := by
  cases hlb : f.hook.lbPhase with
  | none => exact absurd rfl (not_lb_of_mem_fire hlb _ he e)
  | some hook =>
      obtain ⟨phase, entry⟩ := hook
      obtain ⟨hook, now, nowNext, thisCpu, reserved, reservedNext, slots⟩ := f
      have hfilled : ∀ (slot : Option LbEvent) (fill : LbEvent → LbEvent),
          .lb e ∈ ((slot.map fill).map Record.lb).toList →
            (∀ content, (fill content).entry = true ∨
              (fill content).phase = LbPhase.runRebalanceDomains.code) → False := by
        intro slot fill hmem hfill
        simp only [Option.mem_toList, Option.map_eq_some_iff] at hmem
        obtain ⟨_, ⟨content, -, rfl⟩, hrecord⟩ := hmem
        cases hrecord
        rcases hfill content with htrue | hrun
        · exact Bool.noConfusion (hentry.symm.trans htrue)
        · exact hphase hrun
      cases hook <;> simp only [Hook.lbPhase, Option.some.injEq, Prod.mk.injEq, reduceCtorEq] at hlb
      all_goals obtain ⟨rfl, rfl⟩ := hlb
      case nohzIdleBalanceExit => exact ⟨_, rfl, mem_lbExit he⟩
      case rebalanceDomainsExit => exact ⟨_, rfl, mem_lbExit he⟩
      case balanceFairExit => exact ⟨_, rfl, mem_lbExit he⟩
      case pickNextTaskFairExit => exact ⟨_, rfl, mem_lbExit he⟩
      case newidleBalanceExit => exact ⟨_, rfl, mem_lbExit he⟩
      case loadBalanceExit => exact ⟨_, rfl, mem_lbExit he⟩
      case runRebalanceDomainsExit => exact (hfilled _ _ he fun _ => Or.inr rfl).elim
      all_goals exact (hfilled _ _ he fun _ => Or.inl rfl).elim

/-! ## Runs -/

/-- Only an entry hook stores, and under the key of its phase and CPU. -/
theorem update_of_lbOperation {f : Firing} {key value : Int32}
    (hoperation : f.lbOperation = some (.update key value)) :
    ∃ phase, f.hook.notes = some (phase, value) ∧ key = lbKey phase f.thisCpu := by
  unfold Firing.lbOperation at hoperation
  split at hoperation
  next phase lbCpu hnotes =>
    cases hoperation
    exact ⟨phase, hnotes, rfl⟩
  next =>
    split at hoperation <;> cases hoperation
  next => cases hoperation

/-- Every hook of a phase that uses the map has an operation on its key. -/
theorem lbOperation_of_isOn {f : Firing} {phase : LbPhase} {cpu : Int32} (hon : f.IsOn phase cpu)
    (hphase : phase ≠ .runRebalanceDomains) :
    ∃ operation, f.lbOperation = some operation ∧ operation.key = lbKey phase cpu := by
  obtain ⟨hook, now, nowNext, thisCpu, reserved, reservedNext, slots⟩ := f
  obtain ⟨hhook, rfl⟩ := hon
  cases hook <;> simp only [Hook.lbPhase, Option.map_some, Option.map_none, Option.some.injEq,
    reduceCtorEq] at hhook
  all_goals subst hhook
  case runRebalanceDomainsEntry => exact absurd rfl hphase
  case runRebalanceDomainsExit => exact absurd rfl hphase
  all_goals exact ⟨_, rfl, rfl⟩

/-- On CPUs whose numbers fit the key, every exit record of a phase that uses the
map carries the CPU noted by the last entry of its phase on its CPU, and that
entry was not used before. -/
theorem exitsUseEntries (k : KernelInfo) (run : List Firing) (hcpus : CpusFitKey run) :
    ExitsUseEntries k run := by
  rintro before f after rfl e he hentry hphase
  obtain ⟨phase, hexit, hcode, hcpu, hfound⟩ := exit_of_mem_fire he hentry hphase
  refine ⟨phase, hexit, hcode, hcpu, ?_⟩
  rw [lbMap_final] at hfound
  obtain ⟨earlier, since, hoperations, hsince⟩ := lookup_run_eq_some hfound
  obtain ⟨past, tail, rfl, -, htail⟩ := List.filterMap_eq_append_iff.mp hoperations
  obtain ⟨skipped, g, rest, rfl, hskipped, hg, hrest⟩ := List.filterMap_eq_cons_iff.mp htail
  obtain ⟨noted, hnotes, hkey⟩ := update_of_lbOperation hg
  have hhere := hcpus f (by simp)
  have hthere := hcpus g (by simp)
  obtain ⟨rfl, hsame⟩ := lbKey_injective hhere.1 hhere.2 hthere.1 hthere.2 hkey
  refine ⟨past ++ skipped, g, rest, by simp, hnotes, hsame.symm, ?_⟩
  intro h hmem hon
  have hused : phase ≠ .runRebalanceDomains := fun hrun => hphase (hrun ▸ hcode)
  obtain ⟨operation, hoperation, hopkey⟩ := lbOperation_of_isOn hon hused
  refine hsince operation ?_ hopkey
  rw [← hrest]
  exact List.mem_filterMap.mpr ⟨h, hmem, hoperation⟩

/-- Interleaved calls on two CPUs; the second entry on CPU 0 comes without an exit
in between. -/
def interleavedBalance : List Firing :=
  [(Hook.loadBalanceEntry 1 (.unused 1)).firing 1000 0,
    (Hook.loadBalanceEntry 3 (.unused 3)).firing 2000 2,
    (Hook.loadBalanceEntry 4 (.unused 4)).firing 3000 0,
    Hook.loadBalanceExit.firing 4000 0,
    Hook.loadBalanceExit.firing 5000 2]

theorem exitsUseEntries_interleavedBalance :
    ExitsUseEntries (.complete (kernelVersion 6 6 0)) interleavedBalance :=
  exitsUseEntries _ _ (by
    unfold CpusFitKey
    decide)

end SchedAnalyzer
