import SchedAnalyzer.Session.SlotHistory
import SchedAnalyzer.Trace.Wrapper

/-! # What the reader makes of the domain statistics

`gen_sched_domain_stats` writes the chain of domains into two arrays and ends
them with an entry no domain has; `trace_lb_sd_stats` reads up to that entry.
The writer stops after the last slot, and then has none left for the end.
-/

namespace SchedAnalyzer

/-! ## The stores of the writer -/

/-- A store of `gen_sched_domain_stats` into one of the arrays. -/
inductive SdStore
  | level (i : Nat) (value : Int32)
  | balanceInterval (i : Nat) (value : UInt32)
  deriving DecidableEq, Repr

namespace SdStore

def index : SdStore → Nat
  | level i _ => i
  | balanceInterval i _ => i

/-- The slot is one of the array the store names. -/
def InBounds (store : SdStore) : Prop :=
  store.index < maxSdLevels

instance (store : SdStore) : Decidable store.InBounds :=
  inferInstanceAs (Decidable (_ < _))

def apply (stats : LbSdStats) : SdStore → LbSdStats
  | level i value => stats.storeLevel i value
  | balanceInterval i value => stats.storeBalanceInterval i value

end SdStore

/-- The stores of the loop from slot `i` on, and those of the end after it. -/
def sdStoresFrom (busy : Bool) : List SchedDomain → Nat → List SdStore
  | [], i => [.level i (-1), .balanceInterval i 0]
  | sd :: parents, i =>
      if i < maxSdLevels then
        .level i sd.level :: .balanceInterval i (sdInterval busy sd) ::
          sdStoresFrom busy parents (i + 1)
      else [.level i (-1), .balanceInterval i 0]

/-- The stores of `gen_sched_domain_stats`, in the order it makes them. -/
def genSchedDomainStores (rq : Rq) (idle : CpuIdleType) : List SdStore :=
  sdStoresFrom (rqBusy rq idle) rq.sd 0

theorem foldl_sdStoresFrom (busy : Bool) (domains : List SchedDomain) (i : Nat)
    (stats : LbSdStats) :
    (sdStoresFrom busy domains i).foldl SdStore.apply stats =
      (((genSchedDomainLoop busy domains i stats).2.storeLevel
        (genSchedDomainLoop busy domains i stats).1 (-1)).storeBalanceInterval
          (genSchedDomainLoop busy domains i stats).1 0) := by
  induction domains generalizing i stats with
  | nil => rfl
  | cons sd parents ih =>
      simp only [sdStoresFrom, genSchedDomainLoop]
      by_cases hroom : i < maxSdLevels
      · simp only [if_pos hroom, List.foldl_cons]
        exact ih (i + 1) _
      · simp only [if_neg hroom]
        rfl

/-- The stores make up the function. -/
theorem genSchedDomainStats_eq_foldl (rq : Rq) (idle : CpuIdleType) (stats : LbSdStats) :
    genSchedDomainStats rq idle stats =
      (genSchedDomainStores rq idle).foldl SdStore.apply { stats with cpu := rq.cpu } :=
  (foldl_sdStoresFrom _ _ _ _).symm

/-- Every store hits its array, if and only if the chain leaves a slot for the end. -/
theorem sdStoresFrom_inBounds_iff (busy : Bool) {domains : List SchedDomain} {i : Nat} :
    (∀ store ∈ sdStoresFrom busy domains i, store.InBounds) ↔
      i + domains.length < maxSdLevels := by
  induction domains generalizing i with
  | nil => simp [sdStoresFrom, SdStore.InBounds, SdStore.index]
  | cons sd parents ih =>
      simp only [sdStoresFrom]
      by_cases hroom : i < maxSdLevels
      · rw [if_pos hroom, List.forall_mem_cons, List.forall_mem_cons, ih, List.length_cons]
        simp only [SdStore.InBounds, SdStore.index]
        omega
      · simp only [if_neg hroom, List.forall_mem_cons, SdStore.InBounds, SdStore.index,
          List.length_cons]
        omega

/-! ## The entries they leave -/

/-- The pair a domain is reported with. -/
def sdEntry (busy : Bool) (sd : SchedDomain) : Int32 × UInt32 :=
  (sd.level, sdInterval busy sd)

namespace LbSdStats

theorem entryAt_store {stats : LbSdStats} {i : Nat} (hroom : i < maxSdLevels) (level : Int32)
    (interval : UInt32) (j : Nat) :
    ((stats.storeLevel i level).storeBalanceInterval i interval).entryAt j =
      if j = i then (level, interval) else stats.entryAt j := by
  simp only [entryAt, storeLevel, storeBalanceInterval, if_pos hroom]
  by_cases heq : j = i
  · subst heq
    simp
  · simp [heq]

/-- The first entries, as a list. -/
def firstEntries (stats : LbSdStats) (count : Nat) : List (Int32 × UInt32) :=
  (List.range count).map stats.entryAt

/-- A store after the first entries adds one to them. -/
theorem firstEntries_store {stats : LbSdStats} {i : Nat} (hroom : i < maxSdLevels)
    (level : Int32) (interval : UInt32) :
    ((stats.storeLevel i level).storeBalanceInterval i interval).firstEntries (i + 1) =
      stats.firstEntries i ++ [(level, interval)] := by
  rw [firstEntries, List.range_succ, List.map_append, List.map_singleton, entryAt_store hroom,
    if_pos rfl]
  congr 1
  apply List.map_congr_left
  intro j hj
  have hlt := List.mem_range.mp hj
  rw [entryAt_store hroom, if_neg (by omega)]

/-- Without a slot left, the end is stored over the first interval. -/
theorem firstEntries_store_past (stats : LbSdStats) :
    ((stats.storeLevel maxSdLevels (-1)).storeBalanceInterval maxSdLevels 0).firstEntries
        maxSdLevels =
      match stats.firstEntries maxSdLevels with
      | [] => []
      | entry :: rest => (entry.1, 0xffffffff) :: rest := by
  have hpast : maxSdLevels < 2 * maxSdLevels := by decide
  have hrange : List.range maxSdLevels = 0 :: (List.range 9).map Nat.succ := by decide
  simp only [storeLevel, storeBalanceInterval, if_neg (Nat.lt_irrefl maxSdLevels), if_pos hpast,
    Nat.sub_self, firstEntries, hrange, List.map_cons, List.map_map]
  congr 1

/-- What is read is what stands before the first end. -/
theorem levels_of_end {stats : LbSdStats} {entries : List (Int32 × UInt32)}
    (hlength : entries.length < maxSdLevels)
    (hentries : stats.firstEntries (entries.length + 1) = entries ++ [(-1, 0)])
    (hnone : ∀ entry ∈ entries, entry.1 ≠ -1) : stats.levels = entries := by
  obtain ⟨rest, hrest⟩ := Nat.exists_eq_add_of_le (Nat.succ_le_of_lt hlength)
  have hkept : ∀ entry ∈ entries, (!(entry.1 == -1 && entry.2 == 0)) = true := by
    intro entry hentry
    simp [hnone entry hentry]
  rw [levels_eq, hrest, List.range_add, List.map_append]
  change List.takeWhile _ (stats.firstEntries (entries.length + 1) ++ _) = _
  rw [hentries, List.append_assoc, List.takeWhile_append_of_pos hkept]
  simp

end LbSdStats

/-- The loop from slot `i` on adds the entries of the domains it has slots for. -/
theorem genSchedDomainLoop_entries (busy : Bool) (domains : List SchedDomain) {i : Nat}
    (hi : i ≤ maxSdLevels) (stats : LbSdStats) {kept : List SchedDomain}
    (hkept : domains.take (maxSdLevels - i) = kept) :
    (genSchedDomainLoop busy domains i stats).1 = i + kept.length ∧
      (genSchedDomainLoop busy domains i stats).2.cpu = stats.cpu ∧
        (genSchedDomainLoop busy domains i stats).2.firstEntries (i + kept.length) =
          stats.firstEntries i ++ kept.map (sdEntry busy) := by
  induction domains generalizing i stats kept with
  | nil =>
      rw [List.take_nil] at hkept
      simp [genSchedDomainLoop, ← hkept]
  | cons sd parents ih =>
      by_cases hslot : i < maxSdLevels
      · rw [show maxSdLevels - i = maxSdLevels - (i + 1) + 1 by omega, List.take_succ_cons] at hkept
        obtain ⟨hstop, hcpu, hentries⟩ := ih hslot
          ((stats.storeLevel i sd.level).storeBalanceInterval i (sdInterval busy sd)) rfl
        subst hkept
        rw [List.length_cons, Nat.add_comm _ 1, ← Nat.add_assoc]
        simp only [genSchedDomainLoop, if_pos hslot]
        refine ⟨hstop, ?_, ?_⟩
        · rw [hcpu]
          simp only [LbSdStats.storeLevel, LbSdStats.storeBalanceInterval, if_pos hslot]
        · rw [hentries, LbSdStats.firstEntries_store hslot, List.append_assoc]
          rfl
      · rw [Nat.sub_eq_zero_of_le (Nat.le_of_not_lt hslot), List.take_zero] at hkept
        subst hkept
        simp [genSchedDomainLoop, hslot]

/-- No domain of non-negative level is taken for the end. -/
theorem sdEntry_level_ne {domains : List SchedDomain} (hlevels : ∀ sd ∈ domains, 0 ≤ sd.level)
    (busy : Bool) {entry : Int32 × UInt32} (hentry : entry ∈ domains.map (sdEntry busy)) :
    entry.1 ≠ -1 := by
  obtain ⟨sd, hsd, rfl⟩ := List.mem_map.mp hentry
  intro heq
  have hnonneg := hlevels sd hsd
  rw [show sd.level = -1 from heq] at hnonneg
  exact absurd hnonneg (by decide)

/-- A chain that leaves a slot for the end is read back. -/
theorem genSchedDomainStats_levels {rq : Rq} {idle : CpuIdleType}
    (hlevels : ∀ sd ∈ rq.sd, 0 ≤ sd.level) (hroom : rq.sd.length < maxSdLevels)
    (stats : LbSdStats) :
    (genSchedDomainStats rq idle stats).cpu = rq.cpu ∧
      (genSchedDomainStats rq idle stats).levels = rq.sd.map (sdEntry (rqBusy rq idle)) := by
  obtain ⟨hstop, hcpu, hentries⟩ := genSchedDomainLoop_entries (rqBusy rq idle) rq.sd
    (Nat.zero_le maxSdLevels) { stats with cpu := rq.cpu }
    (List.take_of_length_le (Nat.le_of_lt hroom))
  rw [Nat.zero_add] at hstop hentries
  simp only [genSchedDomainStats, hstop]
  constructor
  · simp only [LbSdStats.storeLevel, LbSdStats.storeBalanceInterval, if_pos hroom]
    exact hcpu
  · apply LbSdStats.levels_of_end
    · rw [List.length_map]
      exact hroom
    · rw [List.length_map, LbSdStats.firstEntries_store hroom, hentries]
      rfl
    · exact fun entry => sdEntry_level_ne hlevels _

/-- A chain that fills the arrays has its end written over the first interval. -/
theorem genSchedDomainStats_levels_of_full {rq : Rq} {idle : CpuIdleType} {sd : SchedDomain}
    {parents : List SchedDomain} (hchain : rq.sd.take maxSdLevels = sd :: parents)
    (hlevels : ∀ sd ∈ rq.sd, 0 ≤ sd.level) (hfull : maxSdLevels ≤ rq.sd.length)
    (stats : LbSdStats) :
    (genSchedDomainStats rq idle stats).levels =
      (sd.level, 0xffffffff) :: parents.map (sdEntry (rqBusy rq idle)) := by
  obtain ⟨hstop, -, hentries⟩ := genSchedDomainLoop_entries (rqBusy rq idle) rq.sd
    (Nat.zero_le maxSdLevels) { stats with cpu := rq.cpu } hchain
  have hlength : (sd :: parents).length = maxSdLevels := by
    rw [← hchain, List.length_take]
    omega
  rw [hlength, Nat.zero_add] at hstop hentries
  simp only [genSchedDomainStats, hstop]
  generalize (genSchedDomainLoop _ rq.sd 0 _).2 = filled at hentries
  have hread : ((filled.storeLevel maxSdLevels (-1)).storeBalanceInterval
      maxSdLevels 0).firstEntries maxSdLevels =
        (sd.level, 0xffffffff) :: parents.map (sdEntry (rqBusy rq idle)) := by
    rw [LbSdStats.firstEntries_store_past, hentries]
    rfl
  rw [LbSdStats.levels_eq]
  refine (congrArg (List.takeWhile _) hread).trans ?_
  rw [List.takeWhile_eq_self_iff]
  intro entry hentry
  rcases List.mem_cons.mp hentry with rfl | hparent
  · simp
  · have hsd : ∀ domain ∈ sd :: parents, 0 ≤ domain.level := by
      intro domain hdomain
      rw [← hchain] at hdomain
      exact hlevels domain (List.mem_of_mem_take hdomain)
    have hne := sdEntry_level_ne hsd (rqBusy rq idle) (List.mem_cons_of_mem _ hparent)
    simp [hne]

/-! ## Writer and reader -/

/-- The counters are those of the first domains, and no store misses its array. -/
structure ReadsBackDomains (rq : Rq) (idle : CpuIdleType) (stats : LbSdStats) (ts : UInt64) :
    Prop where
  counters : traceLbSdStats ts (genSchedDomainStats rq idle stats).cpu
      (genSchedDomainStats rq idle stats).levels =
    traceLbSdStats ts rq.cpu ((rq.sd.take maxSdLevels).map (sdEntry (rqBusy rq idle)))
  inBounds : ∀ store ∈ genSchedDomainStores rq idle, store.InBounds

/-- The domains are read back, with every store in its array, if and only if
there are fewer of them than the arrays have slots. -/
theorem readsBackDomains_iff {rq : Rq} (hlevels : ∀ sd ∈ rq.sd, 0 ≤ sd.level)
    (idle : CpuIdleType) (stats : LbSdStats) (ts : UInt64) :
    ReadsBackDomains rq idle stats ts ↔ rq.sd.length < maxSdLevels := by
  have hbounds : (∀ store ∈ genSchedDomainStores rq idle, store.InBounds) ↔
      rq.sd.length < maxSdLevels := by
    rw [genSchedDomainStores, sdStoresFrom_inBounds_iff, Nat.zero_add]
  constructor
  · rintro ⟨-, hin⟩
    exact hbounds.mp hin
  · intro hroom
    obtain ⟨hcpu, hread⟩ := genSchedDomainStats_levels hlevels hroom stats
    refine ⟨?_, hbounds.mpr hroom⟩
    rw [hcpu, hread, List.take_of_length_le (Nat.le_of_lt hroom)]

/-- A runqueue of CPU 0 with nothing on it but a chain of domains. -/
def domainsRq (chain : List SchedDomain) : Rq where
  cpu := 0
  nrRunning := 1
  cfsAddr := 0
  cfsIdleHNrRunning := 0
  uclamp _ := 0
  avgRt := ⟨0, 0, 0, 0, ⟨0, 0⟩⟩
  avgDl := ⟨0, 0, 0, 0, ⟨0, 0⟩⟩
  avgIrq := ⟨0, 0, 0, 0, ⟨0, 0⟩⟩
  avgThermal := ⟨0, 0, 0, 0, ⟨0, 0⟩⟩
  rd := ⟨0, 0⟩
  misfitTaskLoad := 0
  sd := chain

/-- The statistics of a fresh slot. -/
def zeroSdStats : LbSdStats :=
  ⟨0, fun _ => 0, fun _ => 0⟩

/-- Domains of levels `0`, `1` and on. -/
def numberedDomains (count : Nat) : List SchedDomain :=
  (List.range count).map fun level => ⟨.ofNat level, 8, 16⟩

theorem readsBackDomains_two :
    ReadsBackDomains (domainsRq (numberedDomains 2)) .cpuNotIdle zeroSdStats 0 :=
  (readsBackDomains_iff (by decide) .cpuNotIdle zeroSdStats 0).mpr (by decide)

/-- With as many domains as slots, the first interval is read as that of no domain. -/
theorem readsBackDomains_fails_for_ten :
    ¬ ∀ (rq : Rq) (idle : CpuIdleType) (stats : LbSdStats) (ts : UInt64),
      (∀ sd ∈ rq.sd, 0 ≤ sd.level) → ReadsBackDomains rq idle stats ts := by
  intro hreads
  have hlevels : ∀ sd ∈ (domainsRq (numberedDomains 10)).sd, 0 ≤ sd.level := by decide
  have hfull : maxSdLevels ≤ (domainsRq (numberedDomains 10)).sd.length := by decide
  have hcounters := (hreads _ .cpuIdle zeroSdStats 0 hlevels).counters
  have hread : (genSchedDomainStats (domainsRq (numberedDomains 10)) .cpuIdle zeroSdStats).levels =
      (0, 0xffffffff) :: (numberedDomains 10).tail.map (sdEntry false) :=
    genSchedDomainStats_levels_of_full rfl hlevels hfull zeroSdStats
  have hchain : ((domainsRq (numberedDomains 10)).sd.take maxSdLevels).map
      (sdEntry (rqBusy (domainsRq (numberedDomains 10)) .cpuIdle)) =
        (0, 8) :: (numberedDomains 10).tail.map (sdEntry false) := by decide
  rw [hread, hchain, traceLbSdStats, traceLbSdStats, List.map_cons, List.map_cons] at hcounters
  injection (List.cons.inj hcounters).1 with _ _ _ hvalue
  exact absurd hvalue (by decide)

end SchedAnalyzer
