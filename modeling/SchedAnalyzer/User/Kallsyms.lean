import Mathlib.Algebra.Group.Int.Defs
import Mathlib.Algebra.Group.Nat.Defs
import SchedAnalyzer.Foundation.CString
import SchedAnalyzer.Foundation.Comparator

/-! # Symbol lookup

The sorted symbol table and the search of `find_kallsyms`. Indices are natural
numbers, as those of any table that `unsigned int` can index; where the source
subtracts unsigned integers the result wraps as there.
A read outside the table ends the search with its own result, as does a search
that would not end.
-/

namespace SchedAnalyzer

open Foundation.Comparator Foundation.CString

/-- `struct symbol`, with the content of its array. -/
structure Symbol where
  address : UInt64
  symbol : List Char
  deriving DecidableEq, Repr

/-- `MAX_NUM_SYMBOLS`. -/
def maxNumSymbols : Nat := 500000

/-- `SYMBOL_LEN`. -/
def symbolLen : Nat := 128

/-- An entry of static storage that was never written. -/
def Symbol.zero : Symbol :=
  ⟨0, List.replicate symbolLen nul⟩

/-- The static table, with any number of entries, and its `ready` flag. -/
structure SymbolTable (capacity : Nat) where
  symbols : Fin capacity → Symbol
  ready : Bool

/-- The static table before `parse_kallsyms`. -/
def SymbolTable.initial (capacity : Nat) : SymbolTable capacity where
  symbols _ := .zero
  ready := false

/-- `cmp(a, b)`: the difference of the addresses, cut to an `int`. -/
def cmp (i j : Symbol) : Int32 :=
  (i.address - j.address).toUInt32.toInt32

/-- The end of `parse_kallsyms`: sort the whole table and mark it ready. -/
def sortKallsyms {capacity : Nat} (qsort : Qsort Symbol) (symbols : Fin capacity → Symbol) :
    SymbolTable capacity where
  symbols := qsort.sortArray (fun i j => (cmp i j).toInt) symbols
  ready := true

/-- What a search ends with. All but the first are `NULL` to the caller or no
result at all. -/
inductive FindResult
  | found (symbol : List Char)
  | notReady
  | notFound
  | unexpectedPath
  | outOfBounds
  | outOfFuel
  deriving DecidableEq, Repr

/-- The string the caller sees through the pointer. -/
def FindResult.toPointer : FindResult → Option (List Char)
  | found symbol => some (cstr symbol)
  | _ => none

/-- Subtraction of `unsigned int`s. -/
def unsignedSub (a b : Nat) : Nat :=
  if b ≤ a then a - b else a + 2 ^ 32 - b

theorem unsignedSub_of_le {a b : Nat} (hle : b ≤ a) : unsignedSub a b = a - b :=
  if_pos hle

namespace SymbolTable

variable {capacity : Nat} (table : SymbolTable capacity)

/-- `symbols[i]`, when `i` is an index of the table. -/
def read (i : Nat) : Option Symbol :=
  if hi : i < capacity then some (table.symbols ⟨i, hi⟩) else none

theorem read_of_lt {i : Nat} (hi : i < capacity) :
    table.read i = some (table.symbols ⟨i, hi⟩) :=
  dif_pos hi

/-- `____find_kallsyms(start, stop, address)`. -/
def scanKallsyms (address : UInt64) : Nat → Nat → Nat → FindResult
  | 0, _, _ => .outOfFuel
  | fuel + 1, start, stop =>
      if start ≤ unsignedSub stop 1 then
        match table.read start with
        | none => .outOfBounds
        | some entry =>
            if entry.address ≤ address then
              match table.read (start + 1) with
              | none => .outOfBounds
              | some next =>
                  if address ≤ next.address then .found entry.symbol
                  else scanKallsyms address fuel (start + 1) stop
            else scanKallsyms address fuel (start + 1) stop
      else .notFound

/-- `__find_kallsyms(start, pivot, stop, address)`. -/
def searchKallsyms (address : UInt64) : Nat → Nat → Nat → Nat → FindResult
  | 0, _, _, _ => .outOfFuel
  | fuel + 1, start, pivot, stop =>
      if unsignedSub stop start ≤ 100 then
        table.scanKallsyms address capacity start stop
      else
        match table.read pivot with
        | none => .outOfBounds
        | some middle =>
            if address = middle.address then .found middle.symbol
            else if middle.address < address then
              searchKallsyms address fuel pivot (pivot + unsignedSub stop pivot / 2) stop
            else if address < middle.address then
              searchKallsyms address fuel start (start + unsignedSub pivot start / 2) pivot
            else .unexpectedPath

/-- `find_kallsyms(address)`. -/
def findKallsyms (address : UInt64) : FindResult :=
  if address = 0 ∨ table.ready = false then .notReady
  else table.searchKallsyms address capacity 0 (capacity / 2) (capacity - 1)

end SymbolTable

end SchedAnalyzer
