import Mathlib.Data.Nat.Order.Lemmas
import SchedAnalyzer.User.Kallsyms

/-! # What the symbol search finds

The search halves the table around pivots and scans what is left. A pivot is
compared for equality, the scan takes the first pair of neighbours around the
address, so the same address can be found at either entry of a pair.
-/

namespace SchedAnalyzer

namespace SymbolTable

variable {capacity : Nat} (table : SymbolTable capacity)

/-- Addresses do not decrease. -/
def Sorted : Prop :=
  ∀ i j, i ≤ j → (table.symbols i).address ≤ (table.symbols j).address

/-- The order the search relies on: addresses do not decrease, and only unused
entries share one. -/
structure Searchable : Prop where
  sorted : table.Sorted
  distinct : ∀ i j, (table.symbols i).address ≠ 0 →
    (table.symbols i).address = (table.symbols j).address → i = j

/-- The positions that halving an interval can compare, whatever the table holds. -/
inductive Pivot : Nat → Nat → Nat → Nat → Prop
  | here {start pivot stop : Nat} (hlong : 100 < stop - start) : Pivot start pivot stop pivot
  | right {start pivot stop i : Nat} (hlong : 100 < stop - start)
      (hright : Pivot pivot (pivot + (stop - pivot) / 2) stop i) : Pivot start pivot stop i
  | left {start pivot stop i : Nat} (hlong : 100 < stop - start)
      (hleft : Pivot start (start + (pivot - start) / 2) pivot i) : Pivot start pivot stop i

/-- The pivots of a whole table. -/
def IsPivot (capacity i : Nat) : Prop :=
  Pivot 0 (capacity / 2) (capacity - 1) i

/-- A long interval has its pivot inside. -/
def Halves (start pivot stop : Nat) : Prop :=
  start < stop ∧ (100 < stop - start → start < pivot ∧ pivot < stop)

theorem halves_right {start pivot stop : Nat} (hhalves : Halves start pivot stop)
    (hlong : 100 < stop - start) : Halves pivot (pivot + (stop - pivot) / 2) stop := by
  obtain ⟨-, hinside⟩ := hhalves
  have := hinside hlong
  constructor <;> omega

theorem halves_left {start pivot stop : Nat} (hhalves : Halves start pivot stop)
    (hlong : 100 < stop - start) : Halves start (start + (pivot - start) / 2) pivot := by
  obtain ⟨-, hinside⟩ := hhalves
  have := hinside hlong
  constructor <;> omega

/-- Pivots lie strictly inside. -/
theorem Pivot.inside {start pivot stop i : Nat} (hpivot : Pivot start pivot stop i)
    (hhalves : Halves start pivot stop) : start < i ∧ i < stop := by
  induction hpivot with
  | here hlong => exact hhalves.2 hlong
  | right hlong _ ih =>
      have hinside := hhalves.2 hlong
      have := ih (halves_right hhalves hlong)
      omega
  | left hlong _ ih =>
      have hinside := hhalves.2 hlong
      have := ih (halves_left hhalves hlong)
      omega

theorem halves_table (hcapacity : 2 ≤ capacity) : Halves 0 (capacity / 2) (capacity - 1) := by
  constructor <;> omega

/-! ## The scan -/

variable {table}

/-- An entry that is read is one of the table. -/
theorem exists_of_read {i : Nat} {entry : Symbol} (hread : table.read i = some entry) :
    ∃ j, table.symbols j = entry := by
  rw [read] at hread
  split at hread
  next hi => exact ⟨⟨i, hi⟩, Option.some.inj hread⟩
  next => cases hread

theorem exists_of_scanKallsyms {address : UInt64} {fuel start stop : Nat} {symbol : List Char}
    (hfound : table.scanKallsyms address fuel start stop = .found symbol) :
    ∃ j, (table.symbols j).symbol = symbol := by
  induction fuel generalizing start with
  | zero => cases hfound
  | succ fuel ih =>
      rw [scanKallsyms] at hfound
      split at hfound
      next =>
        split at hfound
        next => cases hfound
        next entry hread =>
          split at hfound
          next =>
            split at hfound
            next => cases hfound
            next =>
              split at hfound
              next =>
                obtain ⟨j, rfl⟩ := exists_of_read hread
                exact ⟨j, FindResult.found.inj hfound⟩
              next => exact ih hfound
          next => exact ih hfound
      next => cases hfound

/-- The scan ends at the first pair of neighbours around the address. -/
theorem scanKallsyms_eq_found {address : UInt64} {fuel start stop s : Nat}
    (hcapacity : stop < capacity) (hstart : start ≤ s) (hstop : s < stop)
    (hfuel : s - start < fuel)
    (hlow : (table.symbols ⟨s, by omega⟩).address ≤ address)
    (hhigh : address ≤ (table.symbols ⟨s + 1, by omega⟩).address)
    (hfirst : ∀ j (hj : j < s), start ≤ j →
      (table.symbols ⟨j + 1, by omega⟩).address < address) :
    table.scanKallsyms address fuel start stop = .found (table.symbols ⟨s, by omega⟩).symbol := by
  induction fuel generalizing start with
  | zero => exact absurd hfuel (Nat.not_lt_zero _)
  | succ fuel ih =>
      have hloop : start ≤ unsignedSub stop 1 := by
        rw [unsignedSub_of_le (by omega)]
        omega
      simp only [scanKallsyms, if_pos hloop, table.read_of_lt (show start < capacity by omega),
        table.read_of_lt (show start + 1 < capacity by omega)]
      -- Before `s` the second neighbour is still below the address.
      rcases Nat.eq_or_lt_of_le hstart with heq | hlt
      · subst heq
        rw [if_pos hlow, if_pos hhigh]
      · have hnext := ih hlt (by omega) hlow hhigh fun j hj hle => hfirst j hj (by omega)
        rw [if_neg (UInt64.not_le.mpr (hfirst start hlt (Nat.le_refl _))), hnext, ite_self]

/-! ## The halving -/

/-- The entries at the two ends are on their side of the address, or the first
and last of the table. -/
structure Brackets (table : SymbolTable capacity) (address : UInt64) (start stop : Nat) :
    Prop where
  stop_lt : stop < capacity
  low : ∀ i : Fin capacity, i.val = start → start = 0 ∨ (table.symbols i).address < address
  high : ∀ i : Fin capacity, i.val = stop →
    stop + 1 = capacity ∨ address < (table.symbols i).address

/-- How halving an interval ends: at a pivot, or in a scan around the address. -/
inductive SearchEnds (table : SymbolTable capacity) (address : UInt64) (start pivot stop : Nat) :
    FindResult → Prop
  | atPivot {i : Fin capacity} (hpivot : Pivot start pivot stop i)
      (haddress : (table.symbols i).address = address) :
      SearchEnds table address start pivot stop (.found (table.symbols i).symbol)
  | inScan {low high : Nat} (hlt : low < high) (hbrackets : table.Brackets address low high)
      (hmissed : ∀ i : Fin capacity, Pivot start pivot stop i →
        (table.symbols i).address ≠ address) :
      SearchEnds table address start pivot stop (table.scanKallsyms address capacity low high)

theorem SearchEnds.right {address : UInt64} {start pivot stop : Nat} {result : FindResult}
    (hsorted : table.Sorted) (hhalves : Halves start pivot stop)
    (hlong : 100 < stop - start) {middle : Fin capacity} (hmiddle : middle.val = pivot)
    (hless : (table.symbols middle).address < address)
    (hends : table.SearchEnds address pivot (pivot + (stop - pivot) / 2) stop result) :
    table.SearchEnds address start pivot stop result := by
  cases hends with
  | atPivot hpivot haddress => exact .atPivot (.right hlong hpivot) haddress
  | inScan hlt hbrackets hmissed =>
      refine .inScan hlt hbrackets fun i hpivot => ?_
      -- The pivots that are never reached lie below the address.
      have hbefore : i ≤ middle → (table.symbols i).address ≠ address := fun hle =>
        UInt64.ne_of_lt (UInt64.lt_of_le_of_lt (hsorted i middle hle) hless)
      cases hpivot with
      | here => exact hbefore (Fin.le_def.mpr (by omega))
      | right _ hright => exact hmissed i hright
      | left _ hleft =>
          have := hleft.inside (halves_left hhalves hlong)
          exact hbefore (Fin.le_def.mpr (by omega))

theorem SearchEnds.left {address : UInt64} {start pivot stop : Nat} {result : FindResult}
    (hsorted : table.Sorted) (hhalves : Halves start pivot stop)
    (hlong : 100 < stop - start) {middle : Fin capacity} (hmiddle : middle.val = pivot)
    (hless : address < (table.symbols middle).address)
    (hends : table.SearchEnds address start (start + (pivot - start) / 2) pivot result) :
    table.SearchEnds address start pivot stop result := by
  cases hends with
  | atPivot hpivot haddress => exact .atPivot (.left hlong hpivot) haddress
  | inScan hlt hbrackets hmissed =>
      refine .inScan hlt hbrackets fun i hpivot => ?_
      -- Here they lie above it.
      have hafter : middle ≤ i → (table.symbols i).address ≠ address := fun hle heq =>
        UInt64.ne_of_lt (UInt64.lt_of_lt_of_le hless (hsorted middle i hle)) heq.symm
      cases hpivot with
      | here => exact hafter (Fin.le_def.mpr (by omega))
      | right _ hright =>
          have := hright.inside (halves_right hhalves hlong)
          exact hafter (Fin.le_def.mpr (by omega))
      | left _ hleft => exact hmissed i hleft

/-- The halving ends, with the address still between the ends of the scan. -/
theorem searchEnds (hsorted : table.Sorted) {address : UInt64}
    {fuel start pivot stop : Nat} (hhalves : Halves start pivot stop)
    (hbrackets : table.Brackets address start stop) (hfuel : stop - start < fuel) :
    table.SearchEnds address start pivot stop
      (table.searchKallsyms address fuel start pivot stop) := by
  induction fuel generalizing start pivot stop with
  | zero => exact absurd hfuel (Nat.not_lt_zero _)
  | succ fuel ih =>
      have hstop := hbrackets.stop_lt
      have hordered := hhalves.1
      rw [searchKallsyms, unsignedSub_of_le (Nat.le_of_lt hordered)]
      by_cases hshort : stop - start ≤ 100
      · rw [if_pos hshort]
        refine .inScan hordered hbrackets fun i hpivot => ?_
        cases hpivot <;> omega
      · have hlong := Nat.lt_of_not_le hshort
        obtain ⟨hleft, hright⟩ := hhalves.2 hlong
        let middle : Fin capacity := ⟨pivot, by omega⟩
        rw [if_neg hshort, table.read_of_lt middle.isLt, unsignedSub_of_le (Nat.le_of_lt hleft),
          unsignedSub_of_le (Nat.le_of_lt hright)]
        change table.SearchEnds address start pivot stop
          (if address = (table.symbols middle).address then .found (table.symbols middle).symbol
          else _)
        by_cases heq : address = (table.symbols middle).address
        · rw [if_pos heq]
          exact .atPivot (.here hlong) heq.symm
        · rw [if_neg heq]
          by_cases hless : (table.symbols middle).address < address
          · rw [if_pos hless]
            refine .right hsorted hhalves hlong rfl hless
              (ih (halves_right hhalves hlong) ⟨hstop, ?_, hbrackets.high⟩ (by omega))
            rintro i rfl
            exact Or.inr hless
          · have hgreater : address < (table.symbols middle).address :=
              UInt64.lt_of_le_of_ne (UInt64.not_lt.mp hless) heq
            rw [if_neg hless, if_pos hgreater]
            refine .left hsorted hhalves hlong rfl hgreater
              (ih (halves_left hhalves hlong) ⟨by omega, hbrackets.low, ?_⟩ (by omega))
            rintro i rfl
            exact Or.inr hgreater

theorem exists_of_searchKallsyms {address : UInt64} {fuel start pivot stop : Nat}
    {symbol : List Char}
    (hfound : table.searchKallsyms address fuel start pivot stop = .found symbol) :
    ∃ j, (table.symbols j).symbol = symbol := by
  induction fuel generalizing start pivot stop with
  | zero => cases hfound
  | succ fuel ih =>
      rw [searchKallsyms] at hfound
      split at hfound
      next => exact exists_of_scanKallsyms hfound
      next =>
        split at hfound
        next => cases hfound
        next middle hread =>
          split at hfound
          next =>
            obtain ⟨j, rfl⟩ := exists_of_read hread
            exact ⟨j, FindResult.found.inj hfound⟩
          next =>
            split at hfound
            next => exact ih hfound
            next =>
              split at hfound
              next => exact ih hfound
              next => cases hfound

/-- A symbol that is found is the one of an entry. -/
theorem exists_of_findKallsyms {address : UInt64} {symbol : List Char}
    (hfound : table.findKallsyms address = .found symbol) :
    ∃ j, (table.symbols j).symbol = symbol := by
  rw [findKallsyms] at hfound
  split at hfound
  next => cases hfound
  next => exact exists_of_searchKallsyms hfound

/-- An address that is not in the table is left to a scan around it. -/
theorem findKallsyms_eq_scan (hcapacity : 2 ≤ capacity) (hready : table.ready = true)
    (hsorted : table.Sorted) {address : UInt64} (hpositive : address ≠ 0)
    (hgap : ∀ j, (table.symbols j).address ≠ address) :
    ∃ low high, low < high ∧ table.Brackets address low high ∧
      table.findKallsyms address = table.scanKallsyms address capacity low high := by
  have hbrackets : table.Brackets address 0 (capacity - 1) :=
    ⟨by omega, fun _ _ => Or.inl rfl, fun _ _ => Or.inl (by omega)⟩
  have hends := searchEnds hsorted (halves_table hcapacity) hbrackets
    (show capacity - 1 - 0 < capacity by omega)
  have hguard : ¬ (address = 0 ∨ table.ready = false) := by
    simp [hpositive, hready]
  rw [findKallsyms, if_neg hguard]
  generalize table.searchKallsyms _ capacity 0 (capacity / 2) (capacity - 1) = result at hends
  cases hends with
  | atPivot _ hsame => exact absurd hsame (hgap _)
  | inScan hlt hscan _ => exact ⟨_, _, hlt, hscan, rfl⟩

/-! ## Addresses inside a function -/

section Between

variable {i : Nat} (hnext : i + 1 < capacity) {address : UInt64}
  (hbelow : (table.symbols ⟨i, Nat.lt_of_succ_lt hnext⟩).address < address)
  (habove : address < (table.symbols ⟨i + 1, hnext⟩).address)

include hbelow habove

/-- No entry has an address that lies strictly between two neighbours. -/
theorem address_ne_of_between (hsorted : table.Sorted) (j : Fin capacity) :
    (table.symbols j).address ≠ address := by
  intro heq
  rcases Nat.lt_or_ge i j.val with hafter | hbefore
  · have hle := hsorted ⟨i + 1, hnext⟩ j (Fin.le_def.mpr hafter)
    exact UInt64.not_le.mpr habove (heq ▸ hle)
  · have hle := hsorted j ⟨i, by omega⟩ (Fin.le_def.mpr hbefore)
    exact UInt64.not_le.mpr hbelow (heq ▸ hle)

/-- A scan with the address between its ends has the two neighbours in it, and
they are the first pair around the address. -/
theorem scanKallsyms_between (hsorted : table.Sorted) {low high : Nat} (hlt : low < high)
    (hbrackets : table.Brackets address low high) :
    table.scanKallsyms address capacity low high =
      .found (table.symbols ⟨i, Nat.lt_of_succ_lt hnext⟩).symbol := by
  have hstop := hbrackets.stop_lt
  have hlow : low ≤ i := by
    rcases hbrackets.low ⟨low, by omega⟩ rfl with hzero | hless
    · omega
    · refine Nat.le_of_not_lt fun hgt => UInt64.not_le.mpr (UInt64.lt_trans hless habove) ?_
      exact hsorted _ _ (Fin.le_def.mpr hgt)
  have hhigh : i < high := by
    rcases hbrackets.high ⟨high, hstop⟩ rfl with hlast | hless
    · omega
    · refine Nat.lt_of_not_le fun hle => UInt64.not_le.mpr (UInt64.lt_trans hbelow hless) ?_
      exact hsorted _ _ (Fin.le_def.mpr hle)
  refine scanKallsyms_eq_found hstop hlow hhigh (by omega) (UInt64.le_of_lt hbelow)
    (UInt64.le_of_lt habove) fun j hj _ => ?_
  have hle := hsorted ⟨j + 1, by omega⟩ ⟨i, by omega⟩ (Fin.le_def.mpr hj)
  exact UInt64.lt_of_le_of_lt hle hbelow

/-- An address strictly between two neighbours resolves to the first of them,
whatever addresses the table repeats. -/
theorem findKallsyms_between (hready : table.ready = true) (hsorted : table.Sorted) :
    table.findKallsyms address = .found (table.symbols ⟨i, Nat.lt_of_succ_lt hnext⟩).symbol := by
  have hpositive : address ≠ 0 := fun hzero => UInt64.not_lt_zero (hzero ▸ hbelow)
  obtain ⟨low, high, hlt, hscan, hfound⟩ := findKallsyms_eq_scan (by omega) hready hsorted
    hpositive (address_ne_of_between hnext hbelow habove hsorted)
  rw [hfound]
  exact scanKallsyms_between hnext hbelow habove hsorted hlt hscan

end Between

/-- An address between two entries that is not in the table is resolved to an entry
before it, no lower than the first of the two. -/
theorem exists_findKallsyms_between (hready : table.ready = true) (hsorted : table.Sorted)
    {low high : Fin capacity} {address : UInt64} (hlow : (table.symbols low).address < address)
    (hhigh : address < (table.symbols high).address)
    (hgap : ∀ j, (table.symbols j).address ≠ address) :
    ∃ i, table.findKallsyms address = .found (table.symbols i).symbol ∧
      (table.symbols low).address ≤ (table.symbols i).address ∧
        (table.symbols i).address < address := by
  obtain ⟨i, hbefore, hnext, hafter⟩ := Nat.exists_not_and_succ_of_not_zero_of_exists
    (p := fun i => ∃ hi : i < capacity, address < (table.symbols ⟨i, hi⟩).address)
    (fun ⟨hzero, habove⟩ => UInt64.lt_asymm habove
      (UInt64.lt_of_le_of_lt (hsorted ⟨0, hzero⟩ low (Fin.le_def.mpr (Nat.zero_le _))) hlow))
    ⟨high, high.isLt, hhigh⟩
  let here : Fin capacity := ⟨i, Nat.lt_of_succ_lt hnext⟩
  have hbelow : (table.symbols here).address < address :=
    UInt64.lt_of_le_of_ne (UInt64.not_lt.mp fun habove => hbefore ⟨here.isLt, habove⟩) (hgap here)
  have hpositive : address ≠ 0 := fun hzero => UInt64.not_lt_zero (hzero ▸ hbelow)
  obtain ⟨start, stop, hlt, hscan, hfound⟩ :=
    findKallsyms_eq_scan (by omega) hready hsorted hpositive hgap
  rw [hfound]
  refine ⟨here, scanKallsyms_between hnext hbelow hafter hsorted hlt hscan, ?_, hbelow⟩
  -- The entry behind it is above the address, so the first of the two is not.
  refine hsorted low here (Fin.le_def.mpr (Nat.le_of_not_lt fun hlt => ?_))
  have hle := hsorted ⟨i + 1, hnext⟩ low (Fin.le_def.mpr hlt)
  exact UInt64.lt_asymm hlow (UInt64.lt_of_lt_of_le hafter hle)

/-- Unused entries, an alias, and the two functions around a callsite. -/
def callsiteSymbols : SymbolTable 5 where
  symbols i :=
    if i.val < 2 then ⟨0, []⟩
    else if i.val = 2 then ⟨0x1000, "smp_call_function".toList⟩
    else if i.val = 3 then ⟨0x1000, "smp_call_function_many".toList⟩
    else ⟨0x2000, "on_each_cpu".toList⟩
  ready := true

theorem callsiteSymbols_findKallsyms :
    callsiteSymbols.findKallsyms 0x1004 = .found "smp_call_function_many".toList :=
  findKallsyms_between (show 3 + 1 < 5 by decide) (by decide) (by decide) rfl
    (by unfold Sorted; decide)

/-! ## Start addresses -/

/-- The search resolves the start address of an entry to that entry. -/
def ResolvesStart (table : SymbolTable capacity) (i : Fin capacity) : Prop :=
  table.findKallsyms (table.symbols i).address = .found (table.symbols i).symbol

/-- What a scan around the start address of an entry finds: the entry before it. -/
theorem scanKallsyms_start (hsearchable : table.Searchable) {i : Fin capacity}
    (haddress : (table.symbols i).address ≠ 0) {low high : Nat} (hlt : low < high)
    (hbrackets : table.Brackets (table.symbols i).address low high) :
    ∃ hit : Fin capacity, (i.val = 0 ∧ hit = i ∨ hit.val + 1 = i.val) ∧
      table.scanKallsyms (table.symbols i).address capacity low high =
        .found (table.symbols hit).symbol := by
  have hstop := hbrackets.stop_lt
  have hlow : low = 0 ∨ low < i.val := by
    refine (hbrackets.low ⟨low, by omega⟩ rfl).imp_right fun hless => ?_
    refine Nat.lt_of_not_le fun hle => UInt64.not_le.mpr hless ?_
    exact hsearchable.sorted _ _ (Fin.le_def.mpr hle)
  have hhigh : i.val ≤ high := by
    rcases hbrackets.high ⟨high, hstop⟩ rfl with hlast | hless
    · omega
    · refine Nat.le_of_not_lt fun hgt => UInt64.not_le.mpr hless ?_
      exact hsearchable.sorted _ _ (Fin.le_def.mpr (Nat.le_of_lt hgt))
  -- The comparison with the next entry is not strict, so the scan stops one entry early.
  by_cases hzero : i.val = 0
  · refine ⟨i, Or.inl ⟨hzero, rfl⟩, ?_⟩
    have hindex : i = ⟨0, by omega⟩ := Fin.ext hzero
    rw [hindex]
    exact scanKallsyms_eq_found hstop (by omega) (by omega) (by omega) (UInt64.le_refl _)
      (hsearchable.sorted _ _ (Fin.le_def.mpr (Nat.zero_le _)))
      fun j hj => absurd hj (Nat.not_lt_zero j)
  · obtain ⟨s, hs⟩ := Nat.exists_eq_succ_of_ne_zero hzero
    refine ⟨⟨s, by omega⟩, Or.inr hs.symm, ?_⟩
    refine scanKallsyms_eq_found hstop (by omega) (by omega) (by omega) ?_ ?_ ?_
    · exact hsearchable.sorted _ _ (Fin.le_def.mpr (by simp only; omega))
    · exact hsearchable.sorted _ _ (Fin.le_def.mpr (Nat.le_of_eq hs))
    · intro j hj hle
      refine UInt64.lt_of_le_of_ne ?_ fun heq => ?_
      · exact hsearchable.sorted _ _ (Fin.le_def.mpr (by simp only; omega))
      · have hsame := congrArg Fin.val (hsearchable.distinct i _ haddress heq.symm)
        simp only at hsame
        omega

/-- The first entry and the pivots are found themselves, all others through the
entry before them. -/
theorem findKallsyms_start (hcapacity : 2 ≤ capacity) (hready : table.ready = true)
    (hsearchable : table.Searchable) {i : Fin capacity}
    (haddress : (table.symbols i).address ≠ 0) :
    ∃ hit : Fin capacity,
      ((i.val = 0 ∨ IsPivot capacity i) ∧ hit = i ∨ ¬ IsPivot capacity i ∧ hit.val + 1 = i.val) ∧
        table.findKallsyms (table.symbols i).address = .found (table.symbols hit).symbol := by
  have hbrackets : table.Brackets (table.symbols i).address 0 (capacity - 1) :=
    ⟨by omega, fun _ _ => Or.inl rfl, fun _ _ => Or.inl (by omega)⟩
  have hends := searchEnds hsearchable.sorted (halves_table hcapacity) hbrackets
    (show capacity - 1 - 0 < capacity by omega)
  have hguard : ¬ ((table.symbols i).address = 0 ∨ table.ready = false) := by
    simp [haddress, hready]
  rw [findKallsyms, if_neg hguard]
  generalize table.searchKallsyms _ capacity 0 (capacity / 2) (capacity - 1) = result at hends
  cases hends with
  | @atPivot pivot hpivot hsame =>
      have hindex := hsearchable.distinct i pivot haddress hsame.symm
      exact ⟨i, Or.inl ⟨Or.inr (hindex ▸ hpivot), rfl⟩, by rw [hindex]⟩
  | inScan hlt hscan hmissed =>
      have hnot : ¬ IsPivot capacity i := fun hpivot => hmissed i hpivot rfl
      obtain ⟨hit, hplace, hfound⟩ := scanKallsyms_start hsearchable haddress hlt hscan
      refine ⟨hit, ?_, hfound⟩
      exact hplace.imp (fun hfirst => ⟨Or.inl hfirst.1, hfirst.2⟩) fun hbefore => ⟨hnot, hbefore⟩

/-- The start address of an entry is resolved to that entry, if and only if the
table is ready and the entry is the first one, or a pivot, or named like the one
before it. -/
theorem resolvesStart_iff (hcapacity : 2 ≤ capacity) (hsearchable : table.Searchable)
    (i : Fin capacity) (haddress : (table.symbols i).address ≠ 0) :
    table.ResolvesStart i ↔
      table.ready = true ∧
        (i.val = 0 ∨ IsPivot capacity i ∨
          ∃ before : Fin capacity, before.val + 1 = i.val ∧
            (table.symbols before).symbol = (table.symbols i).symbol) := by
  by_cases hready : table.ready = true
  · obtain ⟨hit, hplace, hfound⟩ := findKallsyms_start hcapacity hready hsearchable haddress
    rw [ResolvesStart, hfound, FindResult.found.injEq]
    constructor
    · intro hsymbol
      refine ⟨hready, ?_⟩
      rcases hplace with ⟨hitself, -⟩ | ⟨-, hbefore⟩
      · exact hitself.imp_right Or.inl
      · exact Or.inr (Or.inr ⟨hit, hbefore, hsymbol⟩)
    · rintro ⟨-, hcondition⟩
      rcases hplace with ⟨-, rfl⟩ | ⟨hnot, hbefore⟩
      · rfl
      · rcases hcondition with hzero | hpivot | ⟨before, hprevious, hsymbol⟩
        · omega
        · exact absurd hpivot hnot
        · have hindex : hit = before := Fin.ext (by omega)
          rw [hindex, hsymbol]
  · have hguard : (table.symbols i).address = 0 ∨ table.ready = false :=
      Or.inr (Bool.eq_false_iff.mpr hready)
    rw [ResolvesStart, findKallsyms, if_pos hguard]
    exact iff_of_false (fun hfound => FindResult.noConfusion hfound) fun hcondition =>
      hready hcondition.1

/-- A table of two symbols. -/
def twoSymbols : SymbolTable 2 where
  symbols i := if i = 0 then ⟨0x1000, "first".toList⟩ else ⟨0x2000, "second".toList⟩
  ready := true

theorem twoSymbols_searchable : twoSymbols.Searchable := by
  constructor
  · unfold Sorted
    decide
  · decide

theorem twoSymbols_resolvesStart_first : twoSymbols.ResolvesStart 0 :=
  (resolvesStart_iff (by decide) twoSymbols_searchable 0 (by decide)).mpr ⟨rfl, Or.inl rfl⟩

/-- The symbols at the end of a table of the code's size, the rest unused. -/
def twoLastSymbols : SymbolTable maxNumSymbols where
  symbols i :=
    if i.val + 2 = maxNumSymbols then ⟨0xffffffc010000000, "_stext".toList⟩
    else if i.val + 1 = maxNumSymbols then ⟨0xffffffc010000100, "do_one_initcall".toList⟩
    else ⟨0, []⟩
  ready := true

theorem twoLastSymbols_searchable : twoLastSymbols.Searchable := by
  constructor
  · intro i j hle
    have hlast := j.isLt
    rw [Fin.le_def] at hle
    simp only [twoLastSymbols]
    split
    next =>
      split
      next => decide
      next =>
        rw [if_pos (by omega)]
        decide
    next hi =>
      split
      next =>
        rw [if_neg (by omega), if_pos (by omega)]
        exact UInt64.le_refl _
      next => exact UInt64.zero_le
  · intro i j haddress heq
    apply Fin.ext
    simp only [twoLastSymbols] at haddress heq
    split at heq
    next hi =>
      split at heq
      next hj => omega
      next hj =>
        split at heq <;> exact absurd heq (by decide)
    next hi =>
      rw [if_neg hi] at haddress
      split at heq
      next hlast =>
        split at heq
        next hj => exact absurd heq (by decide)
        next hj =>
          split at heq
          next => omega
          next => exact absurd heq (by decide)
      next hunused =>
        rw [if_neg hunused] at haddress
        exact absurd rfl haddress

/-- The last symbol of a table is always taken for the one before it. -/
theorem resolvesStart_fails_for_last_symbol :
    ¬ ∀ (table : SymbolTable maxNumSymbols) (i : Fin maxNumSymbols),
      table.ready = true → table.Searchable → (table.symbols i).address ≠ 0 →
        table.ResolvesStart i := by
  intro hresolves
  have hfound := hresolves twoLastSymbols ⟨499999, by decide⟩ rfl twoLastSymbols_searchable
    (by decide)
  obtain ⟨hit, hplace, hsearch⟩ := findKallsyms_start (by decide) rfl twoLastSymbols_searchable
    (i := ⟨499999, by decide⟩) (by decide)
  rw [ResolvesStart, hsearch, FindResult.found.injEq] at hfound
  rcases hplace with ⟨hzero | hpivot, -⟩ | ⟨-, hbefore⟩
  · exact absurd hzero (by decide)
  · have hinside := hpivot.inside (halves_table (by decide))
    simp only [maxNumSymbols] at hinside
    omega
  · have hindex : hit = ⟨499998, by decide⟩ := Fin.ext (Nat.succ.inj hbefore)
    rw [hindex] at hfound
    exact absurd hfound (by decide)

end SymbolTable

end SchedAnalyzer
