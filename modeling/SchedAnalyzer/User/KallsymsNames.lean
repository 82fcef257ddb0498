import SchedAnalyzer.User.KallsymsEntries

/-! # The NUL behind a stored name

The loop puts the character `'0'` where the last NUL of an array would be, so a
stored name ends only where `strncpy` has padded it.
-/

namespace SchedAnalyzer

open Foundation.Comparator Foundation.CString

/-- The lines whose entries the loop stores. -/
def storedLines (capacity : Nat) (text : List Char) : List (List Char) :=
  ((kallsymsLines text).take capacity).takeWhile fun line => (lineEntry line).isSome

/-- The third token of every stored line, with the newline and the module that it
may include, is shorter than `SYMBOL_LEN - 1`. -/
def NamesFit (capacity : Nat) (text : List Char) : Prop :=
  ∀ line ∈ storedLines capacity text, (nameToken line).length < symbolLen - 1

/-- Every symbol that a search returns has a NUL in its array. -/
def FindsTerminated (capacity : Nat) (text : List Char) : Prop :=
  ∀ (qsort : Qsort Symbol) (kptrRestrict : Option (List Char)) (address : UInt64)
    (symbol : List Char),
    (parseKallsyms qsort kptrRestrict (some text) (.initial capacity)).findKallsyms address =
      .found symbol → nul ∈ symbol

theorem storedLines_nil (capacity : Nat) : storedLines capacity [] = [] := by
  rw [storedLines, kallsymsLines, fgetsLines_nil, List.take_nil]
  rfl

theorem storedLines_succ {text line rest : List Char} (htext : text ≠ [])
    (hline : readUpTo (lineSize - 1) text = (line, rest)) (capacity : Nat) :
    storedLines (capacity + 1) text =
      if (lineEntry line).isSome then line :: storedLines capacity rest else [] := by
  rw [storedLines, kallsymsLines_eq htext hline, List.take_succ_cons, List.takeWhile_cons]
  rfl

/-! ## The arrays of the table -/

/-- The arrays that the loop leaves: a name for each stored line, in their order, and
unused ones. -/
theorem map_symbol_parseEntries (capacity : Nat) (text : List Char) :
    (parseEntries (List.replicate capacity .zero) text).map Symbol.symbol =
      (storedLines capacity text).map (fun line => storeName Symbol.zero.symbol (nameToken line)) ++
        List.replicate (capacity - (storedLines capacity text).length) Symbol.zero.symbol := by
  induction capacity generalizing text with
  | zero => rfl
  | succ capacity ih =>
      by_cases htext : text = []
      · subst htext
        rw [parseEntries_nil, storedLines_nil, List.map_replicate]
        rfl
      · obtain ⟨line, rest, hline⟩ : ∃ line rest, readUpTo (lineSize - 1) text = (line, rest) :=
          ⟨_, _, rfl⟩
        rw [parseEntries_replicate_succ capacity htext, storedLines_succ htext hline, hline]
        cases hentry : lineEntry line with
        | some entry =>
            obtain ⟨hsymbol, -⟩ := symbol_of_lineEntry hentry
            simp only [Option.isSome_some, if_true, List.map_cons, List.length_cons,
              List.cons_append, Nat.add_sub_add_right, hsymbol, ih rest]
        | none =>
            -- Only the address of the entry was written.
            simp only [Option.isSome_none, Bool.false_eq_true, if_false, List.map_cons,
              List.map_replicate, List.map_nil, List.nil_append, List.length_nil, Nat.sub_zero,
              List.replicate_succ]

/-- A stored name is terminated exactly when it fits. -/
theorem nul_mem_stored {capacity : Nat} {text line : List Char}
    (hline : line ∈ storedLines capacity text) :
    nul ∈ storeName Symbol.zero.symbol (nameToken line) ↔
      (nameToken line).length < symbolLen - 1 := by
  have hsome : (lineEntry line).isSome = true :=
    List.mem_takeWhile_imp (p := fun line => (lineEntry line).isSome) hline
  obtain ⟨entry, hentry⟩ := Option.isSome_iff_exists.mp hsome
  obtain ⟨-, -, hnul⟩ := symbol_of_lineEntry hentry
  rw [nul_mem_storeName_zero, cstr_of_notMem hnul]

theorem namesFit_iff (capacity : Nat) (text : List Char) :
    (∀ entry ∈ parseEntries (List.replicate capacity .zero) text, nul ∈ entry.symbol) ↔
      NamesFit capacity text := by
  have hunused : nul ∈ Symbol.zero.symbol := by decide
  rw [← List.forall_mem_map (P := fun symbol => nul ∈ symbol), map_symbol_parseEntries]
  constructor
  · intro hentries line hline
    exact (nul_mem_stored hline).mp
      (hentries _ (List.mem_append_left _ (List.mem_map_of_mem hline)))
  · intro hfit symbol hsymbol
    rcases List.mem_append.mp hsymbol with hmem | hmem
    · obtain ⟨line, hline, rfl⟩ := List.mem_map.mp hmem
      exact (nul_mem_stored hline).mpr (hfit line hline)
    · rw [List.eq_of_mem_replicate hmem]
      exact hunused

/-- In a file of lines of the kernel that fit the buffer, a name fits if it is shorter
than the array by more than its newline and the `'0'`. -/
theorem namesFit_of_fits {lines : List KallsymsLine}
    (hfits : ∀ line ∈ lines, line.text.length < lineSize) (capacity : Nat) :
    NamesFit capacity (lines.flatMap KallsymsLine.text) ↔
      ∀ line ∈ lines.take capacity, line.lastField.length + 1 < symbolLen - 1 := by
  have hstored : storedLines capacity (lines.flatMap KallsymsLine.text) =
      (lines.take capacity).map KallsymsLine.text := by
    rw [storedLines, kallsymsLines_of_fits hfits, ← List.map_take, List.takeWhile_eq_self_iff]
    intro text htext
    obtain ⟨line, -, rfl⟩ := List.mem_map.mp htext
    rw [line.lineEntry_text]
    rfl
  have htoken : ∀ line : KallsymsLine,
      (nameToken line.text).length = line.lastField.length + 1 := by
    intro line
    obtain ⟨hne, hblank, hnul⟩ := line.lastToken_clean
    rw [nameToken, line.text_eq_field, line.tokens_field hne hblank hnul]
    exact List.length_append
  rw [NamesFit, hstored, List.forall_mem_map]
  exact forall₂_congr fun line _ => by rw [htoken]

/-! ## What a search returns -/

theorem NamesFit.findsTerminated {capacity : Nat} {text : List Char}
    (hfit : NamesFit capacity text) : FindsTerminated capacity text := by
  intro qsort kptrRestrict address symbol hfound
  obtain ⟨i, rfl⟩ := SymbolTable.exists_of_findKallsyms hfound
  rcases parseKallsyms_symbols qsort kptrRestrict text i with hunused | hmem
  · rw [hunused]
    decide
  · exact (namesFit_iff capacity text).mpr hfit _ hmem

/-- Every array of the table has a NUL, if and only if every stored token is shorter
than `SYMBOL_LEN - 1`. Then a search returns none without. -/
theorem terminatesNames_iff (capacity : Nat) (text : List Char) :
    ((∀ i, nul ∈ (parseTable (SymbolTable.initial capacity).symbols text i).symbol) ↔
      NamesFit capacity text) ∧ (NamesFit capacity text → FindsTerminated capacity text) := by
  refine ⟨?_, NamesFit.findsTerminated⟩
  rw [← namesFit_iff, ← Set.forall_mem_range (p := fun entry => nul ∈ Symbol.symbol entry)]
  exact forall_congr' fun entry => imp_congr_left mem_range_parseTable

/-- In a table that the comparator can order, an address behind an entry without a NUL
and in front of the next one is resolved to that entry. -/
theorem not_findsTerminated {capacity : Nat} {text : List Char} {entry next : Symbol}
    {address : UInt64}
    (hfits : ∀ low ∈ parseEntries (List.replicate capacity .zero) text,
      ∀ high ∈ parseEntries (List.replicate capacity .zero) text,
        low.address < high.address → SignFits low.address high.address)
    (hentry : entry ∈ parseEntries (List.replicate capacity .zero) text)
    (hnext : next ∈ parseEntries (List.replicate capacity .zero) text)
    (hbelow : entry.address < address) (habove : address < next.address)
    (hgap : ∀ other ∈ parseEntries (List.replicate capacity .zero) text,
      entry.address < other.address → address < other.address)
    (hnul : ∀ other ∈ parseEntries (List.replicate capacity .zero) text,
      other.address = entry.address → nul ∉ other.symbol) :
    ¬ FindsTerminated capacity text := by
  intro hfinds
  let table :=
    sortKallsyms Qsort.ofMergeSort (parseTable (SymbolTable.initial capacity).symbols text)
  have hmem : ∀ i, table.symbols i ∈ parseEntries (List.replicate capacity .zero) text := fun i =>
    mem_range_parseTable.mp (Qsort.ofMergeSort.sortArray_mem_range _ _ i)
  have hindex : ∀ other ∈ parseEntries (List.replicate capacity .zero) text,
      ∃ i, table.symbols i = other := by
    intro other hother
    obtain ⟨j, rfl⟩ := mem_range_parseTable.mpr hother
    exact Qsort.ofMergeSort.mem_range_sortArray _ _ j
  have hsorted : table.Sorted := by
    have hfollows := (follows_cmp_iff _).mpr fun low hlow high hhigh =>
      hfits low (mem_range_parseTable.mp hlow) high (mem_range_parseTable.mp hhigh)
    intro i j hle
    exact UInt64.le_iff_toNat_le.mpr (Qsort.ofMergeSort.monotone_sortArray hfollows i j hle)
  obtain ⟨low, hlow⟩ := hindex entry hentry
  obtain ⟨high, hhigh⟩ := hindex next hnext
  have hmissed : ∀ i, (table.symbols i).address ≠ address := by
    intro i heq
    have hless := hgap _ (hmem i) (heq.symm ▸ hbelow)
    rw [heq] at hless
    exact UInt64.lt_irrefl _ hless
  obtain ⟨i, hfound, hge, hlt⟩ := SymbolTable.exists_findKallsyms_between rfl hsorted
    (hlow ▸ hbelow) (hhigh ▸ habove) hmissed
  have hsame : (table.symbols i).address = entry.address := by
    refine UInt64.le_antisymm (UInt64.not_lt.mp fun hgreater => ?_) (hlow ▸ hge)
    exact UInt64.lt_asymm hlt (hgap _ (hmem i) hgreater)
  exact hnul _ (hmem i) hsame (hfinds .ofMergeSort none address _ hfound)

/-- A symbol with a name of 127 bytes. -/
def longNameLine : KallsymsLine :=
  { stextLine with
    address := "1000".toList
    address_ne_nil := by decide
    address_length := by decide
    address_digits := List.all_eq_true.mp (by decide)
    name := List.replicate 127 'n'
    name_ne_nil := List.cons_ne_nil _ _
    name_length := by
      rw [List.length_replicate]
      decide
    name_word := by
      intro c hc
      rw [List.eq_of_mem_replicate hc]
      decide }

/-- The symbol behind it. -/
def nextNameLine : KallsymsLine :=
  { stextLine with
    address := "2000".toList
    address_ne_nil := by decide
    address_length := by decide
    address_digits := List.all_eq_true.mp (by decide) }

theorem length_lastField_longNameLine : longNameLine.lastField.length = symbolLen - 1 := by
  rw [longNameLine.lastField_of_builtin rfl]
  exact List.length_replicate

/-- The entries of the two lines, with any number of unused ones. -/
theorem parseEntries_longName (count : Nat) :
    parseEntries (List.replicate (count + 1 + 1) .zero) (longNameLine.text ++ nextNameLine.text) =
      ⟨0x1000, storeName Symbol.zero.symbol (longNameLine.lastField ++ ['\n'])⟩ ::
        ⟨0x2000, storeName Symbol.zero.symbol (nextNameLine.lastField ++ ['\n'])⟩ ::
          List.replicate count .zero := by
  have hfits : longNameLine.text.length < lineSize := by
    rw [KallsymsLine.text, List.length_append, KallsymsLine.length_body,
      length_lastField_longNameLine]
    decide
  rw [List.replicate_succ, parseEntries_text hfits, List.replicate_succ,
    ← List.append_nil nextNameLine.text, parseEntries_text (by decide), parseEntries_nil]
  rfl

/-- The text of the two lines. -/
def longNameText : List Char :=
  longNameLine.text ++ nextNameLine.text

theorem parseEntries_longNameText :
    parseEntries (List.replicate maxNumSymbols .zero) longNameText =
      ⟨0x1000, storeName Symbol.zero.symbol (longNameLine.lastField ++ ['\n'])⟩ ::
        ⟨0x2000, storeName Symbol.zero.symbol (nextNameLine.lastField ++ ['\n'])⟩ ::
          List.replicate 499998 .zero :=
  parseEntries_longName 499998

theorem cases_of_mem_longNameText {entry : Symbol}
    (hmem : entry ∈ parseEntries (List.replicate maxNumSymbols .zero) longNameText) :
    entry.address = 0x1000 ∧ nul ∉ entry.symbol ∨ entry.address = 0x2000 ∨ entry.address = 0 := by
  rw [parseEntries_longNameText] at hmem
  rcases List.mem_cons.mp hmem with rfl | hmem
  · refine Or.inl ⟨rfl, ?_⟩
    rw [nul_mem_storeName_zero, cstr_of_notMem longNameLine.lastToken_clean.2.2,
      List.length_append, length_lastField_longNameLine]
    exact Nat.not_lt.mpr (Nat.le_add_right _ _)
  · rcases List.mem_cons.mp hmem with rfl | hmem
    · exact Or.inr (Or.inl rfl)
    · exact Or.inr (Or.inr (congrArg Symbol.address (List.eq_of_mem_replicate hmem)))

/-- The array of a name of 127 bytes has no NUL, and 0x1800 is resolved to it. -/
theorem terminatesNames_fails_for_long_name :
    ¬ ∀ text : List Char, FindsTerminated maxNumSymbols text := by
  intro hfinds
  have hentries := parseEntries_longNameText
  have habove : (0x1800 : UInt64) < 0x2000 := by decide
  refine not_findsTerminated ?_ (hentries ▸ List.mem_cons_self)
    (hentries ▸ List.mem_cons_of_mem _ List.mem_cons_self) (by decide) habove ?_ ?_
    (hfinds longNameText)
  · intro low _ high hhigh hlt
    apply signFits_of_lt hlt
    rcases cases_of_mem_longNameText hhigh with ⟨hh, -⟩ | hh | hh <;> rw [hh] <;> decide
  · intro other hother
    rcases cases_of_mem_longNameText hother with ⟨ho, -⟩ | ho | ho <;> rw [ho] <;> decide
  · intro other hother hsame
    rcases cases_of_mem_longNameText hother with ⟨-, hnul⟩ | hothers
    · exact hnul
    · rw [hsame] at hothers
      exact absurd hothers (by decide)

end SchedAnalyzer
