import SchedAnalyzer.User.KallsymsSearch

/-! # What the symbol search does with its indices

The search written down with its reads of the table and its subtractions of
unsigned integers. None of it depends on the order of the entries.
-/

namespace SchedAnalyzer

/-- A read `symbols[index]`, or the subtraction `a - b` of unsigned integers. -/
inductive IndexOp
  | read (index : Nat)
  | sub (a b : Nat)
  deriving DecidableEq, Repr

/-- The read is inside the table, and the subtraction does not wrap. -/
def IndexOp.Safe (capacity : Nat) : IndexOp → Prop
  | read index => index < capacity
  | sub a b => b ≤ a

/-- A search with the operations it does. -/
abbrev TracedResult := List IndexOp × FindResult

/-- Operations that come before the rest of a search. -/
def TracedResult.after (ops : List IndexOp) (rest : TracedResult) : TracedResult :=
  (ops ++ rest.1, rest.2)

namespace SymbolTable

variable {capacity : Nat} (table : SymbolTable capacity)

open TracedResult

/-- `____find_kallsyms(start, stop, address)` with its operations. -/
def scanTraced (address : UInt64) : Nat → Nat → Nat → TracedResult
  | 0, _, _ => ([], .outOfFuel)
  | fuel + 1, start, stop =>
      after [.sub stop 1] <|
        if start ≤ unsignedSub stop 1 then
          after [.read start] <|
            match table.read start with
            | none => ([], .outOfBounds)
            | some entry =>
                if entry.address ≤ address then
                  after [.read (start + 1)] <|
                    match table.read (start + 1) with
                    | none => ([], .outOfBounds)
                    | some next =>
                        if address ≤ next.address then ([], .found entry.symbol)
                        else scanTraced address fuel (start + 1) stop
                else scanTraced address fuel (start + 1) stop
        else ([], .notFound)

/-- `__find_kallsyms(start, pivot, stop, address)` with its operations. -/
def searchTraced (address : UInt64) : Nat → Nat → Nat → Nat → TracedResult
  | 0, _, _, _ => ([], .outOfFuel)
  | fuel + 1, start, pivot, stop =>
      after [.sub stop start] <|
        if unsignedSub stop start ≤ 100 then table.scanTraced address capacity start stop
        else
          after [.read pivot] <|
            match table.read pivot with
            | none => ([], .outOfBounds)
            | some middle =>
                if address = middle.address then ([], .found middle.symbol)
                else if middle.address < address then
                  after [.sub stop pivot]
                    (searchTraced address fuel pivot (pivot + unsignedSub stop pivot / 2) stop)
                else if address < middle.address then
                  after [.sub pivot start]
                    (searchTraced address fuel start (start + unsignedSub pivot start / 2) pivot)
                else ([], .unexpectedPath)

/-- `find_kallsyms(address)` with its operations. -/
def findTraced (address : UInt64) : TracedResult :=
  if address = 0 ∨ table.ready = false then ([], .notReady)
  else table.searchTraced address capacity 0 (capacity / 2) (capacity - 1)

/-! ## The same search -/

theorem scanTraced_result (address : UInt64) (fuel start stop : Nat) :
    (table.scanTraced address fuel start stop).2 = table.scanKallsyms address fuel start stop := by
  induction fuel generalizing start with
  | zero => rfl
  | succ fuel ih =>
      rw [scanTraced, scanKallsyms, after]
      split
      · rw [after]
        cases table.read start with
        | none => rfl
        | some entry =>
            dsimp only
            split
            · rw [after]
              cases table.read (start + 1) with
              | none => rfl
              | some next =>
                  dsimp only
                  split
                  · rfl
                  · exact ih (start + 1)
            · exact ih (start + 1)
      · rfl

theorem searchTraced_result (address : UInt64) (fuel start pivot stop : Nat) :
    (table.searchTraced address fuel start pivot stop).2 =
      table.searchKallsyms address fuel start pivot stop := by
  induction fuel generalizing start pivot stop with
  | zero => rfl
  | succ fuel ih =>
      rw [searchTraced, searchKallsyms, after]
      split
      · exact table.scanTraced_result address capacity start stop
      · rw [after]
        cases table.read pivot with
        | none => rfl
        | some middle =>
            dsimp only
            split
            · rfl
            · split
              · exact ih _ _ _
              · split
                · exact ih _ _ _
                · rfl

theorem findTraced_result (address : UInt64) :
    (table.findTraced address).2 = table.findKallsyms address := by
  rw [findTraced, findKallsyms]
  split
  · rfl
  · exact table.searchTraced_result address _ _ _ _

/-! ## Bounds -/

/-- A search that ends inside the table, with one of the results it is written for. -/
structure EndsInside (capacity : Nat) (traced : TracedResult) : Prop where
  ops : ∀ op ∈ traced.1, op.Safe capacity
  terminates : traced.2 ≠ .outOfFuel
  inBounds : traced.2 ≠ .outOfBounds
  expected : traced.2 ≠ .unexpectedPath

theorem EndsInside.after {ops : List IndexOp} {rest : TracedResult}
    (hrest : EndsInside capacity rest) (hops : ∀ op ∈ ops, op.Safe capacity) :
    EndsInside capacity (rest.after ops) := by
  refine ⟨?_, hrest.terminates, hrest.inBounds, hrest.expected⟩
  intro op hop
  rcases List.mem_append.mp hop with hfirst | hlater
  · exact hops op hfirst
  · exact hrest.ops op hlater

theorem EndsInside.read {i : Nat} {rest : TracedResult} (hi : i < capacity)
    (hrest : EndsInside capacity rest) : EndsInside capacity (rest.after [.read i]) := by
  apply hrest.after
  intro op hop
  exact List.mem_singleton.mp hop ▸ hi

theorem EndsInside.sub {a b : Nat} {rest : TracedResult} (hle : b ≤ a)
    (hrest : EndsInside capacity rest) : EndsInside capacity (rest.after [.sub a b]) := by
  apply hrest.after
  intro op hop
  exact List.mem_singleton.mp hop ▸ hle

/-- A search that is over. -/
theorem EndsInside.over {result : FindResult} (hterminates : result ≠ .outOfFuel)
    (hbounds : result ≠ .outOfBounds) (hexpected : result ≠ .unexpectedPath) :
    EndsInside capacity ([], result) :=
  ⟨fun _ hop => absurd hop List.not_mem_nil, hterminates, hbounds, hexpected⟩

theorem endsInside_found (symbol : List Char) : EndsInside capacity ([], .found symbol) :=
  .over FindResult.noConfusion FindResult.noConfusion FindResult.noConfusion

/-- The scan reads up to `stop`, whatever it finds on the way. -/
theorem scanTraced_endsInside (address : UInt64) {fuel start stop : Nat} (hstart : start ≤ stop)
    (hpositive : 0 < stop) (hstop : stop < capacity) (hfuel : stop - start < fuel) :
    EndsInside capacity (table.scanTraced address fuel start stop) := by
  induction fuel generalizing start with
  | zero => exact absurd hfuel (Nat.not_lt_zero _)
  | succ fuel ih =>
      rw [scanTraced, unsignedSub_of_le hpositive]
      apply EndsInside.sub hpositive
      split
      next hloop =>
        have hnext : start + 1 ≤ stop := by omega
        have hrest := ih hnext (by omega)
        rw [table.read_of_lt (show start < capacity by omega),
          table.read_of_lt (show start + 1 < capacity by omega)]
        apply EndsInside.read (by omega)
        dsimp only
        split
        · apply EndsInside.read (by omega)
          split
          · exact endsInside_found _
          · exact hrest
        · exact hrest
      next => exact .over (by decide) (by decide) (by decide)

/-- Halving keeps the pivot inside the interval, so the interval gets shorter. -/
theorem searchTraced_endsInside (address : UInt64) {fuel start pivot stop : Nat}
    (hhalves : Halves start pivot stop) (hstop : stop < capacity) (hfuel : stop - start < fuel) :
    EndsInside capacity (table.searchTraced address fuel start pivot stop) := by
  induction fuel generalizing start pivot stop with
  | zero => exact absurd hfuel (Nat.not_lt_zero _)
  | succ fuel ih =>
      have hordered := hhalves.1
      rw [searchTraced, unsignedSub_of_le (Nat.le_of_lt hordered)]
      apply EndsInside.sub (Nat.le_of_lt hordered)
      split
      next =>
        exact table.scanTraced_endsInside address (Nat.le_of_lt hordered) (by omega) hstop (by omega)
      next hshort =>
        have hlong := Nat.lt_of_not_le hshort
        obtain ⟨hleft, hright⟩ := hhalves.2 hlong
        have hpivot : pivot < capacity := Nat.lt_trans hright hstop
        rw [table.read_of_lt hpivot, unsignedSub_of_le (Nat.le_of_lt hleft),
          unsignedSub_of_le (Nat.le_of_lt hright)]
        apply EndsInside.read hpivot
        dsimp only
        split
        next => exact endsInside_found _
        next hne =>
          split
          next =>
            apply EndsInside.sub (Nat.le_of_lt hright)
            exact ih (halves_right hhalves hlong) hstop (by omega)
          next hnotbelow =>
            -- Neither equal nor below leaves above only.
            have habove := UInt64.lt_of_le_of_ne (UInt64.not_lt.mp hnotbelow) hne
            rw [if_pos habove]
            apply EndsInside.sub (Nat.le_of_lt hleft)
            exact ih (halves_left hhalves hlong) hpivot (by omega)

/-- With room for two entries, sorted or not, the search ends, stays inside the
table, never wraps and never takes the last branch. -/
theorem findTraced_endsInside (hcapacity : 2 ≤ capacity) (address : UInt64) :
    EndsInside capacity (table.findTraced address) ∧
      (table.findTraced address).2 = table.findKallsyms address := by
  refine ⟨?_, table.findTraced_result address⟩
  rw [findTraced]
  split
  · exact .over (by decide) (by decide) (by decide)
  · exact table.searchTraced_endsInside address (halves_table hcapacity) (by omega) (by omega)

/-- A table that is out of order, and too long to be scanned at once. -/
def unsortedTable : SymbolTable 300 where
  symbols i := if i.val % 2 = 0 then ⟨7, ['b']⟩ else ⟨3, ['a']⟩
  ready := true

/-- The search halves it twice. -/
example : (unsortedTable.findTraced 5).1.take 6 =
    [.sub 299 0, .read 150, .sub 150 0, .sub 150 0, .read 75, .sub 150 75] := by
  decide

theorem endsInside_unsortedTable :
    EndsInside 300 (unsortedTable.findTraced 5) ∧
      (unsortedTable.findTraced 5).2 = unsortedTable.findKallsyms 5 :=
  unsortedTable.findTraced_endsInside (by decide) 5

end SymbolTable

end SchedAnalyzer
