import Mathlib.Data.Finset.Max
import Mathlib.Data.Fintype.Basic
import SchedAnalyzer.User.KallsymsNames

/-! # The symbols of a kernel

What `find_kallsyms` answers for the file of a kernel. Where `cmp` orders the
addresses as the search reads them, an address inside a function is resolved to the
line of the function. Where it orders them as signed numbers, the kernel's own
addresses come before the unused entries, and a table that is at most half full of
them resolves none.
-/

namespace SchedAnalyzer

open Foundation.Comparator Foundation.CString

/-! ## The entries of a file -/

/-- The entry of a line that fits the buffer. -/
def KallsymsLine.entry (line : KallsymsLine) : Symbol :=
  ⟨UInt64.ofNat line.value, storeName Symbol.zero.symbol (line.lastField ++ ['\n'])⟩

/-- The entries of lines, with the rest of the table unused. -/
def fileEntries (capacity : Nat) (lines : List KallsymsLine) : List Symbol :=
  lines.map KallsymsLine.entry ++ List.replicate (capacity - lines.length) .zero

theorem parseEntries_lines {capacity : Nat} {lines : List KallsymsLine}
    (hfits : ∀ line ∈ lines, line.text.length < lineSize) (hcount : lines.length ≤ capacity) :
    parseEntries (List.replicate capacity .zero) (lines.flatMap KallsymsLine.text) =
      fileEntries capacity lines := by
  induction lines generalizing capacity with
  | nil => exact parseEntries_nil _
  | cons line rest ih =>
      obtain ⟨count, rfl⟩ := Nat.exists_eq_add_one_of_ne_zero (Nat.ne_zero_of_lt hcount)
      rw [List.flatMap_cons, List.replicate_succ, parseEntries_text (hfits line List.mem_cons_self),
        ih (fun other hother => hfits other (List.mem_cons_of_mem _ hother))
          (Nat.le_of_succ_le_succ hcount), fileEntries, fileEntries, List.length_cons,
        Nat.add_sub_add_right]
      rfl

/-- The string that is stored for a line: a token goes on to the next blank, so the
newline is part of it. -/
theorem cstr_entry {line : KallsymsLine} (hname : line.lastField.length + 1 < symbolLen - 1) :
    cstr line.entry.symbol = line.lastField ++ ['\n'] := by
  have hclean := cstr_of_notMem line.lastToken_clean.2.2
  rw [KallsymsLine.entry, cstr_storeName_zero, hclean]
  rw [hclean, List.length_append, List.length_singleton]
  exact hname

/-! ## Addresses in unsigned order -/

/-- `cmp` orders the addresses of the table as unsigned numbers. -/
def SortsUnsigned (entries : List Symbol) : Prop :=
  ∀ low ∈ entries, ∀ high ∈ entries, low.address < high.address →
    SignFits low.address high.address

section Unsigned

variable {capacity : Nat} {text : List Char}

/-- The table after `parse_kallsyms` holds what the loop left. -/
theorem exists_symbols_eq (qsort : Qsort Symbol) {entry : Symbol}
    (hentry : entry ∈ parseEntries (List.replicate capacity .zero) text) :
    ∃ i, (sortKallsyms qsort (parseTable (SymbolTable.initial capacity).symbols text)).symbols i =
      entry := by
  obtain ⟨j, rfl⟩ := mem_range_parseTable.mpr hentry
  exact qsort.mem_range_sortArray _ _ j

theorem mem_parseEntries (qsort : Qsort Symbol) (i : Fin capacity) :
    (sortKallsyms qsort (parseTable (SymbolTable.initial capacity).symbols text)).symbols i ∈
      parseEntries (List.replicate capacity .zero) text :=
  mem_range_parseTable.mp (qsort.sortArray_mem_range _ _ i)

theorem sorted_of_sortsUnsigned (qsort : Qsort Symbol)
    (hsorts : SortsUnsigned (parseEntries (List.replicate capacity .zero) text)) :
    (sortKallsyms qsort (parseTable (SymbolTable.initial capacity).symbols text)).Sorted := by
  have hfollows := (follows_cmp_iff _).mpr fun low hlow high hhigh =>
    hsorts low (mem_range_parseTable.mp hlow) high (mem_range_parseTable.mp hhigh)
  intro i j hle
  exact UInt64.le_iff_toNat_le.mpr (qsort.monotone_sortArray hfollows i j hle)

/-- An address between two entries that is not in the table is resolved to one with
the greatest address before it. -/
theorem exists_findKallsyms_greatest (qsort : Qsort Symbol)
    (hsorts : SortsUnsigned (parseEntries (List.replicate capacity .zero) text))
    {address : UInt64} (hbelow : ∃ entry ∈ parseEntries (List.replicate capacity .zero) text,
      entry.address < address)
    (habove : ∃ entry ∈ parseEntries (List.replicate capacity .zero) text,
      address < entry.address)
    (hgap : ∀ entry ∈ parseEntries (List.replicate capacity .zero) text,
      entry.address ≠ address) :
    ∃ entry ∈ parseEntries (List.replicate capacity .zero) text,
      (sortKallsyms qsort (parseTable (SymbolTable.initial capacity).symbols text)).findKallsyms
        address = .found entry.symbol ∧ entry.address < address ∧
          ∀ other ∈ parseEntries (List.replicate capacity .zero) text,
            other.address < address → other.address ≤ entry.address := by
  obtain ⟨above, habove, hlt⟩ := habove
  obtain ⟨high, rfl⟩ := exists_symbols_eq qsort habove
  obtain ⟨first, hfirst, hless⟩ := hbelow
  obtain ⟨start, rfl⟩ := exists_symbols_eq qsort hfirst
  generalize htable : sortKallsyms qsort
    (parseTable (SymbolTable.initial capacity).symbols text) = table at *
  have hmem : ∀ i, table.symbols i ∈ parseEntries (List.replicate capacity .zero) text :=
    fun i => htable ▸ mem_parseEntries qsort i
  have hsorted : table.Sorted := htable ▸ sorted_of_sortsUnsigned qsort hsorts
  have hready : table.ready = true := htable ▸ rfl
  -- Of the entries before the address, one with the greatest of their addresses.
  obtain ⟨low, hlow, hgreatest⟩ := Finset.exists_max_image
    (Finset.univ.filter fun i => (table.symbols i).address < address)
    (fun i => (table.symbols i).address.toNat) ⟨start, by simpa using hless⟩
  rw [Finset.mem_filter] at hlow
  obtain ⟨i, hfound, hge, hi⟩ := SymbolTable.exists_findKallsyms_between hready hsorted hlow.2 hlt
    fun j => hgap _ (hmem j)
  refine ⟨_, hmem i, hfound, hi, ?_⟩
  intro other hother hbefore
  obtain ⟨j, rfl⟩ : ∃ j, table.symbols j = other := htable ▸ exists_symbols_eq qsort hother
  have hle := hgreatest j (Finset.mem_filter.mpr ⟨Finset.mem_univ j, hbefore⟩)
  exact UInt64.le_trans (UInt64.le_iff_toNat_le.mpr hle) hge

end Unsigned

/-- The address lies behind the start of a function and in front of that of another
one, and is not a start itself. -/
structure InsideFunction (lines : List KallsymsLine) (address : UInt64) : Prop where
  behind : ∃ line ∈ lines, UInt64.ofNat line.value ≠ 0 ∧ UInt64.ofNat line.value < address
  inFront : ∃ line ∈ lines, address < UInt64.ofNat line.value
  inside : ∀ line ∈ lines, UInt64.ofNat line.value ≠ address

/-- The answer for an address is the last field of a line, up to its newline, whose
start is the greatest before the address. -/
def NamesFunction (lines : List KallsymsLine) (address : UInt64)
    (answer : Option (List Char)) : Prop :=
  ∃ line ∈ lines, answer = some (line.lastField ++ ['\n']) ∧ UInt64.ofNat line.value < address ∧
    ∀ other ∈ lines, UInt64.ofNat other.value < address →
      UInt64.ofNat other.value ≤ UInt64.ofNat line.value

/-- A file of the kernel whose lines fit the buffer and the table, and their names the
arrays. -/
structure FitsTable (capacity : Nat) (lines : List KallsymsLine) : Prop where
  fits : ∀ line ∈ lines, line.text.length < lineSize
  count : lines.length ≤ capacity
  names : ∀ line ∈ lines, line.lastField.length + 1 < symbolLen - 1

/-- When `cmp` orders the addresses, one inside a function is resolved to it. -/
theorem findKallsyms_namesFunction (qsort : Qsort Symbol) {capacity : Nat}
    {lines : List KallsymsLine} (hfile : FitsTable capacity lines)
    (hsorts : SortsUnsigned (fileEntries capacity lines)) {address : UInt64}
    (hinside : InsideFunction lines address) {kptrRestrict : Option (List Char)}
    (hvisible : kptrVisible kptrRestrict = true) :
    NamesFunction lines address ((parseKallsyms qsort kptrRestrict
      (some (lines.flatMap KallsymsLine.text)) (.initial capacity)).findKallsyms
        address).toPointer := by
  have hentries := parseEntries_lines hfile.fits hfile.count
  have hline : ∀ line ∈ lines, line.entry ∈ fileEntries capacity lines :=
    fun line hline => List.mem_append_left _ (List.mem_map_of_mem hline)
  have hcases : ∀ entry ∈ fileEntries capacity lines,
      (∃ line ∈ lines, line.entry = entry) ∨ entry = .zero := by
    intro entry hentry
    rcases List.mem_append.mp hentry with hstored | hunused
    · exact Or.inl (List.mem_map.mp hstored)
    · exact Or.inr (List.eq_of_mem_replicate hunused)
  obtain ⟨⟨first, hfirst, hpositive, hless⟩, ⟨last, hlast, hgreater⟩, hmissed⟩ := hinside
  rw [parseKallsyms, if_pos hvisible]
  obtain ⟨entry, hentry, hfound, hbefore, hgreatest⟩ := exists_findKallsyms_greatest qsort
    (hentries ▸ hsorts) ⟨_, hentries ▸ hline first hfirst, hless⟩
    ⟨_, hentries ▸ hline last hlast, hgreater⟩ (by
      intro entry hentry
      rcases hcases entry (hentries ▸ hentry) with ⟨line, hline, rfl⟩ | rfl
      · exact hmissed line hline
      · intro hzero
        exact UInt64.not_lt_zero (hzero ▸ hless))
  rw [hentries] at hentry hgreatest
  rw [hfound]
  rcases hcases entry hentry with ⟨line, hmem, rfl⟩ | rfl
  · refine ⟨line, hmem, congrArg some (cstr_entry (hfile.names line hmem)), hbefore, ?_⟩
    exact fun other hother => hgreatest other.entry (hline other hother)
  · -- An unused entry is not the greatest, as the first function starts behind it.
    have hle := hgreatest first.entry (hline first hfirst) hless
    exact absurd (UInt64.le_antisymm hle UInt64.zero_le) hpositive

/-! ## Addresses in signed order -/

/-- The address as a signed number. -/
def Symbol.signed (entry : Symbol) : Int :=
  if entry.key < 2 ^ 63 then entry.key else entry.key - 2 ^ 64

/-- `cmp` orders the addresses of the table as signed numbers. -/
def SortsSigned (entries : List Symbol) : Prop :=
  ∀ low ∈ entries, ∀ high ∈ entries, high.signed - low.signed < 2 ^ 31

theorem toInt_cmp_of_signed {low high : Symbol} (hlow : low.signed - high.signed < 2 ^ 31)
    (hhigh : high.signed - low.signed < 2 ^ 31) :
    (cmp low high).toInt = low.signed - high.signed := by
  -- The signed numbers are apart as the addresses are, but for multiples of `2^64`.
  have hmod : ((low.key : Int) - high.key) % 2 ^ 32 = (low.signed - high.signed) % 2 ^ 32 := by
    unfold Symbol.signed
    split <;> split <;> omega
  have hcut := toInt_cmp low high
  simp only [Int.bmod] at hcut
  omega

theorem follows_cmp_signed {entries : Set Symbol}
    (hsorts : ∀ low ∈ entries, ∀ high ∈ entries, high.signed - low.signed < 2 ^ 31) :
    Follows (fun i j => (cmp i j).toInt) Symbol.signed entries := by
  constructor
  · intro i hi j hj
    rw [toInt_cmp_of_signed (hsorts j hj i hi) (hsorts i hi j hj)]
    omega
  · intro i hi j hj
    rw [toInt_cmp_of_signed (hsorts j hj i hi) (hsorts i hi j hj)]
    omega

namespace SymbolTable

variable {capacity : Nat} {table : SymbolTable capacity} {address : UInt64}

/-- The scan finds nothing where the address is behind all entries. -/
theorem scanKallsyms_eq_notFound {fuel start stop : Nat} (hstart : start ≤ stop)
    (hpositive : 0 < stop) (hstop : stop < capacity) (hfuel : stop - start < fuel)
    (hbelow : ∀ i : Fin capacity, start ≤ i.val → (table.symbols i).address < address) :
    table.scanKallsyms address fuel start stop = .notFound := by
  induction fuel generalizing start with
  | zero => exact absurd hfuel (Nat.not_lt_zero _)
  | succ fuel ih =>
      rw [scanKallsyms, unsignedSub_of_le hpositive]
      split
      next hloop =>
        have hnext := hbelow ⟨start + 1, by omega⟩ (Nat.le_add_right start 1)
        have hrest := ih (show start + 1 ≤ stop by omega) (by omega)
          fun i hi => hbelow i (Nat.le_of_succ_le hi)
        simp only [table.read_of_lt (show start < capacity by omega),
          table.read_of_lt (show start + 1 < capacity by omega),
          if_neg (UInt64.not_le.mpr hnext), hrest, ite_self]
      next => rfl

/-- Nor does the halving, when they are those that it can go on to: every pivot sends it
to the right. -/
theorem searchKallsyms_eq_notFound {fuel start pivot stop first : Nat}
    (hhalves : Halves start pivot stop) (hstop : stop < capacity) (hfuel : stop - start < fuel)
    (hfirst : first ≤ start ∨ 100 < stop - start ∧ first ≤ pivot)
    (hbelow : ∀ i : Fin capacity, first ≤ i.val → (table.symbols i).address < address) :
    table.searchKallsyms address fuel start pivot stop = .notFound := by
  induction fuel generalizing start pivot with
  | zero => exact absurd hfuel (Nat.not_lt_zero _)
  | succ fuel ih =>
      have hordered := hhalves.1
      rw [searchKallsyms, unsignedSub_of_le (Nat.le_of_lt hordered)]
      split
      next hshort =>
        have hstart : first ≤ start := hfirst.resolve_right fun hlong => by omega
        exact scanKallsyms_eq_notFound (by omega) (by omega) hstop (by omega)
          fun i hi => hbelow i (Nat.le_trans hstart hi)
      next hshort =>
        have hlong := Nat.lt_of_not_le hshort
        obtain ⟨hleft, hright⟩ := hhalves.2 hlong
        have hmiddle := hbelow ⟨pivot, by omega⟩ (by simp only; omega)
        rw [table.read_of_lt (show pivot < capacity by omega),
          unsignedSub_of_le (Nat.le_of_lt hright)]
        dsimp only
        rw [if_neg fun heq => UInt64.ne_of_lt hmiddle heq.symm, if_pos hmiddle]
        exact ih (halves_right hhalves hlong) (by omega) (by omega)

/-- An address behind all entries of the second half of a table is not found. -/
theorem findKallsyms_eq_notFound (hcapacity : 101 < capacity) (hready : table.ready = true)
    (hbelow : ∀ i : Fin capacity, capacity / 2 ≤ i.val → (table.symbols i).address < address) :
    table.findKallsyms address = .notFound := by
  have hmiddle := hbelow ⟨capacity / 2, by omega⟩ (Nat.le_refl _)
  have hguard : ¬ (address = 0 ∨ table.ready = false) := by
    rintro (hzero | hnot)
    · exact UInt64.not_lt_zero (hzero ▸ hmiddle)
    · exact Bool.noConfusion (hready.symm.trans hnot)
  rw [findKallsyms, if_neg hguard]
  apply searchKallsyms_eq_notFound (halves_table (by omega)) (by omega) (by omega) _ hbelow
  exact Or.inr ⟨by omega, Nat.le_refl _⟩

end SymbolTable

/-- A file that leaves the upper half of the addresses to at most half of the table, which
`cmp` orders as signed numbers. -/
structure LeavesRoom (capacity : Nat) (text : List Char) : Prop where
  sorts : SortsSigned (parseEntries (List.replicate capacity .zero) text)
  room : (parseEntries (List.replicate capacity .zero) text).countP
    (fun entry => entry.signed < 0) ≤ capacity / 2

theorem signed_nonneg_iff {entry : Symbol} : 0 ≤ entry.signed ↔ entry.key < 2 ^ 63 := by
  have hkey := entry.address.toNat_lt
  unfold Symbol.signed Symbol.key
  split <;> omega

theorem ofFn_parseTable (capacity : Nat) (text : List Char) :
    List.ofFn (parseTable (SymbolTable.initial capacity).symbols text) =
      parseEntries (List.replicate capacity .zero) text := by
  have hunused : List.ofFn (SymbolTable.initial capacity).symbols =
      List.replicate capacity .zero := List.ofFn_const capacity Symbol.zero
  apply List.ext_getElem
  · rw [List.length_ofFn, length_parseEntries, List.length_replicate]
  · intro i _ _
    simp only [List.getElem_ofFn, parseTable, List.get_eq_getElem, Fin.val_cast, hunused]

/-- The address 0 is not looked up. -/
theorem findKallsyms_zero {capacity : Nat} (table : SymbolTable capacity) :
    (table.findKallsyms 0).toPointer = none := by
  rw [SymbolTable.findKallsyms, if_pos (Or.inl rfl)]
  rfl

/-- Then no address of the kernel is resolved, whatever symbols the file has. -/
theorem findKallsyms_of_leavesRoom (qsort : Qsort Symbol) {capacity : Nat}
    (hcapacity : 101 < capacity) {text : List Char} (hroom : LeavesRoom capacity text)
    (kptrRestrict : Option (List Char)) {address : UInt64} (hkernel : 2 ^ 63 ≤ address.toNat) :
    ((parseKallsyms qsort kptrRestrict (some text) (.initial capacity)).findKallsyms
      address).toPointer = none := by
  rw [parseKallsyms]
  split
  next =>
    rw [SymbolTable.findKallsyms_eq_notFound hcapacity rfl]
    · rfl
    · intro i hi
      have hfollows : Follows (fun i j => (cmp i j).toInt) Symbol.signed
          (Set.range (parseTable (SymbolTable.initial capacity).symbols text)) :=
        follows_cmp_signed fun low hlow high hhigh =>
          hroom.sorts low (mem_range_parseTable.mp hlow) high (mem_range_parseTable.mp hhigh)
      -- Behind the kernel's own addresses there are the small ones only.
      have hcount : (List.ofFn (parseTable (SymbolTable.initial capacity).symbols text)).countP
          (fun entry => entry.signed < 0) ≤ i.val := by
        rw [ofFn_parseTable]
        exact le_trans hroom.room hi
      have hsmall := qsort.le_sortArray_of_countP hfollows hcount
      rw [UInt64.lt_iff_toNat_lt]
      exact lt_of_lt_of_le (signed_nonneg_iff.mp hsmall) hkernel
  next =>
    have hready : (SymbolTable.initial capacity).ready = false := rfl
    rw [SymbolTable.findKallsyms, if_pos (Or.inr hready)]
    rfl

end SchedAnalyzer
