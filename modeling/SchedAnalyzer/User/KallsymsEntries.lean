import SchedAnalyzer.User.KallsymsLines
import SchedAnalyzer.User.KallsymsOrder
import SchedAnalyzer.User.KallsymsSearch

/-! # The entries left by any file

The loop stops at the first line that it cannot parse. What it has written for
that line stays, and the whole table is sorted and published.
-/

namespace SchedAnalyzer

open Foundation.Comparator Foundation.CString Foundation.Lists

/-- What the loop takes for the lines of a file: what one call of `fgets` after the
other returns, so a line that does not fit the buffer is cut. -/
def kallsymsLines (text : List Char) : List (List Char) :=
  fgetsLines lineSize two_le_lineSize text

theorem kallsymsLines_of_ne_nil {text : List Char} (htext : text ≠ []) :
    kallsymsLines text =
      (readUpTo (lineSize - 1) text).1 :: kallsymsLines (readUpTo (lineSize - 1) text).2 :=
  fgetsLines_of_ne_nil two_le_lineSize htext

/-- The lines of a file as the kernel prints it, when all of them fit the buffer. -/
theorem kallsymsLines_of_fits {lines : List KallsymsLine}
    (hfits : ∀ line ∈ lines, line.text.length < lineSize) :
    kallsymsLines (lines.flatMap KallsymsLine.text) = lines.map KallsymsLine.text := by
  have hbodies : ∀ body ∈ lines.map KallsymsLine.body,
      '\n' ∉ body ∧ body.length + 2 ≤ lineSize := by
    intro body hbody
    obtain ⟨line, hline, rfl⟩ := List.mem_map.mp hbody
    have hlen := hfits line hline
    rw [KallsymsLine.text, List.length_append, List.length_singleton] at hlen
    exact ⟨line.newline_notMem_body, hlen⟩
  have hlines := fgetsLines_flatten two_le_lineSize hbodies
  rwa [List.flatMap_map, List.map_map] at hlines

/-! ## The published table -/

/-- The entries that the loop leaves in the table. -/
theorem mem_range_parseTable {capacity : Nat} {text : List Char} {entry : Symbol} :
    entry ∈ Set.range (parseTable (SymbolTable.initial capacity).symbols text) ↔
      entry ∈ parseEntries (List.replicate capacity .zero) text := by
  have hunused : List.ofFn (SymbolTable.initial capacity).symbols =
      List.replicate capacity .zero := List.ofFn_const capacity Symbol.zero
  rw [← hunused, List.mem_iff_get]
  constructor
  · rintro ⟨i, hi⟩
    exact ⟨_, hi⟩
  · rintro ⟨j, hj⟩
    exact ⟨j.cast (by rw [length_parseEntries, List.length_ofFn]), hj⟩

/-- An entry of the table after `parse_kallsyms` is one that the loop left, or was
never written. -/
theorem parseKallsyms_symbols {capacity : Nat} (qsort : Qsort Symbol)
    (kptrRestrict : Option (List Char)) (text : List Char) (i : Fin capacity) :
    (parseKallsyms qsort kptrRestrict (some text) (.initial capacity)).symbols i = .zero ∨
      (parseKallsyms qsort kptrRestrict (some text) (.initial capacity)).symbols i ∈
        parseEntries (List.replicate capacity .zero) text := by
  rw [parseKallsyms]
  split
  next => exact Or.inr (mem_range_parseTable.mp (qsort.sortArray_mem_range _ _ i))
  next => exact Or.inl rfl

/-! ## Complete lines -/

/-- The entries of complete lines up to the first one that is not, as far as the table
has room. -/
def entriesOf (capacity : Nat) (read : List (List Char)) : List Symbol :=
  leadingSome ((read.take capacity).map lineEntry)

/-- The loop leaves the entries of the complete lines before the first one that fails to
parse and nothing else, so that every entry with an address has a name. -/
structure LeavesCompleteEntries (capacity : Nat) (text : List Char) : Prop where
  entries : parseEntries (List.replicate capacity .zero) text =
    entriesOf capacity (lines text) ++
      List.replicate (capacity - (entriesOf capacity (lines text)).length) .zero
  named : ∀ entry ∈ parseEntries (List.replicate capacity .zero) text,
    entry.address ≠ 0 → cstr entry.symbol ≠ []

/-- `find_kallsyms` returns an empty name for no entry that has an address. -/
def FindsNames (capacity : Nat) (text : List Char) : Prop :=
  ∀ (qsort : Qsort Symbol) (kptrRestrict : Option (List Char)) (address : UInt64)
    (table : SymbolTable capacity) (i : Fin capacity),
    table = parseKallsyms qsort kptrRestrict (some text) (.initial capacity) →
      table.findKallsyms address = .found (table.symbols i).symbol →
        (table.symbols i).address ≠ 0 → cstr (table.symbols i).symbol ≠ []

/-- Every name of the table is there to be found. -/
theorem LeavesCompleteEntries.findsNames {capacity : Nat} {text : List Char}
    (hleaves : LeavesCompleteEntries capacity text) : FindsNames capacity text := by
  rintro qsort kptrRestrict address table i rfl - haddress
  rcases parseKallsyms_symbols qsort kptrRestrict text i with hunused | hmem
  · rw [hunused] at haddress
    exact absurd rfl haddress
  · exact hleaves.named _ hmem haddress

/-! ### Where the loop stops -/

/-- If the loop stops at what it takes for a line, that does not start with a number
other than 0. -/
def StopsWithoutAddress (capacity : Nat) (text : List Char) : Prop :=
  ∀ before line after, kallsymsLines text = before ++ line :: after → before.length < capacity →
    (∀ earlier ∈ before, (lineEntry earlier).isSome) → lineEntry line = none →
      strayAddress line = 0

/-- What the loop takes for lines has the entries of the lines. -/
def KeepsEntries (capacity : Nat) (text : List Char) : Prop :=
  entriesOf capacity (kallsymsLines text) = entriesOf capacity (lines text)

/-- The line of the file comes before the table is full, behind complete lines that fit
the buffer. -/
structure ReachesLine (capacity : Nat) (text : List Char) (before : List (List Char))
    (line : List Char) (after : List (List Char)) : Prop where
  split : lines text = before ++ line :: after
  room : before.length < capacity
  complete : ∀ earlier ∈ before, earlier.length < lineSize ∧ (lineEntry earlier).isSome

/-- A line that fits the buffer and fails to parse does not start with a number other
than 0, and one that is cut makes no difference. -/
structure StopsCleanly (capacity : Nat) (text : List Char) : Prop where
  address : ∀ before line after, ReachesLine capacity text before line after →
    line.length < lineSize → lineEntry line = none → strayAddress line = 0
  whole : ∀ before line after, ReachesLine capacity text before line after →
    lineSize ≤ line.length →
      StopsWithoutAddress (capacity - before.length) (line :: after).flatten ∧
        KeepsEntries (capacity - before.length) (line :: after).flatten

/-- What is stored for a name that is not empty. -/
theorem cstr_storeName_ne_nil {token : List Char} (hne : token ≠ []) (hnul : nul ∉ token) :
    cstr (storeName Symbol.zero.symbol token) ≠ [] := by
  obtain ⟨c, rest, rfl⟩ := List.exists_cons_of_ne_nil hne
  have hc : c ≠ nul := fun heq => hnul (heq ▸ List.mem_cons_self)
  obtain ⟨tail, htail⟩ := take_prefix_storeName_zero (c :: rest)
  rw [← htail, cstr_of_notMem hnul, cstr]
  have hsize : symbolLen - 1 = symbolLen - 2 + 1 := by decide
  rw [hsize, List.take_succ_cons, List.cons_append, List.takeWhile_cons,
    if_pos (bne_iff_ne.mpr hc)]
  exact List.cons_ne_nil _ _

/-- The third token of a complete line is its name. -/
def nameToken (line : List Char) : List Char :=
  (tokens ' ' line).getD 2 []

theorem symbol_of_lineEntry {line : List Char} {entry : Symbol}
    (hentry : lineEntry line = some entry) :
    entry.symbol = storeName Symbol.zero.symbol (nameToken line) ∧
      nameToken line ≠ [] ∧ nul ∉ nameToken line := by
  unfold lineEntry at hentry
  split at hentry
  next address type name rest htokens =>
    have hname : nameToken line = name := by
      rw [nameToken, htokens]
      rfl
    have hmem : name ∈ tokens ' ' line := by
      rw [htokens]
      simp
    dsimp only at hentry
    split at hentry
    next =>
      cases hentry
      rw [hname]
      exact ⟨rfl, of_mem_tokens hmem⟩
    next => cases hentry
  next => cases hentry

/-! ### The loop and what it takes for lines -/

theorem entriesOf_cons_of_some {capacity : Nat} {line : List Char} {read : List (List Char)}
    {entry : Symbol} (hentry : lineEntry line = some entry) :
    entriesOf (capacity + 1) (line :: read) = entry :: entriesOf capacity read := by
  rw [entriesOf, List.take_succ_cons, List.map_cons, hentry]
  rfl

theorem entriesOf_cons_of_none {capacity : Nat} {line : List Char} {read : List (List Char)}
    (hentry : lineEntry line = none) : entriesOf (capacity + 1) (line :: read) = [] := by
  rw [entriesOf, List.take_succ_cons, List.map_cons, hentry]
  rfl

/-- The entry of a complete line has a name. -/
theorem zero_notMem_entriesOf (capacity : Nat) (read : List (List Char)) :
    Symbol.zero ∉ entriesOf capacity read := by
  intro hmem
  obtain ⟨line, -, hentry⟩ := List.mem_map.mp ((mem_of_mem_leadingSome hmem))
  obtain ⟨hsymbol, hne, hnul⟩ := symbol_of_lineEntry hentry
  exact cstr_storeName_ne_nil hne hnul (hsymbol ▸ show cstr Symbol.zero.symbol = [] by decide)

section Step

variable {capacity : Nat} {text line rest : List Char}
variable (htext : text ≠ []) (hline : readUpTo (lineSize - 1) text = (line, rest))
include htext hline

theorem kallsymsLines_eq : kallsymsLines text = line :: kallsymsLines rest := by
  rw [kallsymsLines_of_ne_nil htext, hline]

theorem parseEntries_of_some {entry : Symbol} (hentry : lineEntry line = some entry) :
    parseEntries (List.replicate (capacity + 1) .zero) text =
      entry :: parseEntries (List.replicate capacity .zero) rest := by
  rw [parseEntries_replicate_succ capacity htext, hline]
  simp only [hentry]

theorem parseEntries_of_none (hentry : lineEntry line = none) :
    parseEntries (List.replicate (capacity + 1) .zero) text =
      { Symbol.zero with address := strayAddress line } :: List.replicate capacity .zero := by
  rw [parseEntries_replicate_succ capacity htext, hline]
  simp only [hentry]

theorem stopsWithoutAddress_of_some {entry : Symbol} (hentry : lineEntry line = some entry) :
    StopsWithoutAddress (capacity + 1) text ↔ StopsWithoutAddress capacity rest := by
  have hlines := kallsymsLines_eq htext hline
  constructor
  · intro hstops before other after hsplit hcount hbefore hnone
    refine hstops (line :: before) other after (by rw [hlines, hsplit]; rfl)
      (Nat.succ_lt_succ hcount) (List.forall_mem_cons.mpr ⟨?_, hbefore⟩) hnone
    rw [hentry]
    rfl
  · intro hstops before other after hsplit hcount hbefore hnone
    rw [hlines] at hsplit
    cases before with
    | nil =>
        obtain ⟨rfl, -⟩ := List.cons_eq_cons.mp hsplit
        exact absurd (hentry.symm.trans hnone) nofun
    | cons first before =>
        obtain ⟨-, hrest⟩ := List.cons_eq_cons.mp hsplit
        exact hstops before other after hrest (Nat.lt_of_succ_lt_succ hcount)
          (fun earlier hearlier => hbefore earlier (List.mem_cons_of_mem _ hearlier)) hnone

theorem stopsWithoutAddress_of_none (hentry : lineEntry line = none) :
    StopsWithoutAddress (capacity + 1) text ↔ strayAddress line = 0 := by
  have hlines := kallsymsLines_eq htext hline
  constructor
  · intro hstops
    exact hstops [] line _ hlines (Nat.succ_pos capacity) (by simp) hentry
  · intro hzero before other after hsplit _ hbefore _
    rw [hlines] at hsplit
    cases before with
    | nil =>
        obtain ⟨rfl, -⟩ := List.cons_eq_cons.mp hsplit
        exact hzero
    | cons first before =>
        obtain ⟨rfl, -⟩ := List.cons_eq_cons.mp hsplit
        have hsome := hbefore line List.mem_cons_self
        rw [hentry] at hsome
        exact absurd hsome (by decide)

end Step

theorem kallsymsLines_nil : kallsymsLines [] = [] :=
  fgetsLines_nil lineSize two_le_lineSize

/-- An address without a name is only left where the loop stops. -/
theorem named_iff (capacity : Nat) (text : List Char) :
    (∀ entry ∈ parseEntries (List.replicate capacity .zero) text,
        entry.address ≠ 0 → cstr entry.symbol ≠ []) ↔ StopsWithoutAddress capacity text := by
  induction capacity generalizing text with
  | zero =>
      refine iff_of_true ?_ fun before _ _ _ hcount => absurd hcount (Nat.not_lt_zero _)
      exact fun entry hmem => absurd hmem List.not_mem_nil
  | succ capacity ih =>
      by_cases htext : text = []
      · subst htext
        refine iff_of_true ?_ ?_
        · rw [parseEntries_nil]
          intro entry hmem haddress
          rw [List.eq_of_mem_replicate hmem] at haddress
          exact absurd rfl haddress
        · intro before line after hsplit
          exact absurd (kallsymsLines_nil.symm.trans hsplit) (by simp)
      · obtain ⟨line, rest, hline⟩ : ∃ line rest, readUpTo (lineSize - 1) text = (line, rest) :=
          ⟨_, _, rfl⟩
        cases hentry : lineEntry line with
        | some entry =>
            obtain ⟨hsymbol, hne, hnul⟩ := symbol_of_lineEntry hentry
            rw [parseEntries_of_some htext hline hentry,
              stopsWithoutAddress_of_some htext hline hentry, ← ih rest, List.forall_mem_cons]
            exact and_iff_right fun _ => hsymbol ▸ cstr_storeName_ne_nil hne hnul
        | none =>
            rw [parseEntries_of_none htext hline hentry,
              stopsWithoutAddress_of_none htext hline hentry, List.forall_mem_cons]
            constructor
            · rintro ⟨hnamed, -⟩
              by_contra hne
              exact hnamed hne (show cstr Symbol.zero.symbol = [] by decide)
            · intro hzero
              refine ⟨fun haddress => absurd hzero haddress, ?_⟩
              intro entry hmem haddress
              rw [List.eq_of_mem_replicate hmem] at haddress
              exact absurd rfl haddress

/-- Then it leaves the entries of what it takes for lines. -/
theorem parseEntries_of_stops {capacity : Nat} {text : List Char}
    (hstops : StopsWithoutAddress capacity text) :
    parseEntries (List.replicate capacity .zero) text =
      entriesOf capacity (kallsymsLines text) ++
        List.replicate (capacity - (entriesOf capacity (kallsymsLines text)).length) .zero := by
  induction capacity generalizing text with
  | zero => rfl
  | succ capacity ih =>
      by_cases htext : text = []
      · subst htext
        rw [parseEntries_nil, kallsymsLines_nil]
        rfl
      · obtain ⟨line, rest, hline⟩ : ∃ line rest, readUpTo (lineSize - 1) text = (line, rest) :=
          ⟨_, _, rfl⟩
        rw [kallsymsLines_eq htext hline]
        cases hentry : lineEntry line with
        | some entry =>
            have hrest := ih ((stopsWithoutAddress_of_some htext hline hentry).mp hstops)
            rw [parseEntries_of_some htext hline hentry, entriesOf_cons_of_some hentry, hrest,
              List.cons_append, List.length_cons, Nat.add_sub_add_right]
        | none =>
            rw [parseEntries_of_none htext hline hentry, entriesOf_cons_of_none hentry,
              (stopsWithoutAddress_of_none htext hline hentry).mp hstops]
            rfl

/-- The entries of the lines are left if what is taken for lines has them. -/
theorem leavesCompleteEntries_iff_keeps (capacity : Nat) (text : List Char) :
    LeavesCompleteEntries capacity text ↔
      StopsWithoutAddress capacity text ∧ KeepsEntries capacity text := by
  constructor
  · rintro ⟨hentries, hnamed⟩
    have hstops := (named_iff capacity text).mp hnamed
    refine ⟨hstops, ?_⟩
    rw [parseEntries_of_stops hstops] at hentries
    exact eq_of_append_replicate (zero_notMem_entriesOf _ _) (zero_notMem_entriesOf _ _) hentries
  · rintro ⟨hstops, hkeeps⟩
    refine ⟨?_, (named_iff capacity text).mpr hstops⟩
    rw [parseEntries_of_stops hstops, hkeeps]

/-! ### Line after line -/

section Lines

variable {capacity : Nat} {text first : List Char} {later : List (List Char)}
variable (hlines : lines text = first :: later)
include hlines

theorem reachesLine_nil : ReachesLine (capacity + 1) text [] first later where
  split := hlines
  room := Nat.succ_pos capacity
  complete := by simp

/-- A line behind the first one is a line of the rest. -/
theorem reachesLine_cons_iff {rest : List Char} (hrest : lines rest = later)
    (hfits : first.length < lineSize) (hsome : (lineEntry first).isSome = true)
    {before : List (List Char)} {line : List Char} {after : List (List Char)} :
    ReachesLine (capacity + 1) text (first :: before) line after ↔
      ReachesLine capacity rest before line after := by
  constructor
  · rintro ⟨hsplit, hroom, hcomplete⟩
    rw [hlines, List.cons_append, List.cons.injEq] at hsplit
    exact ⟨hrest.trans hsplit.2, Nat.lt_of_succ_lt_succ hroom,
      (List.forall_mem_cons.mp hcomplete).2⟩
  · rintro ⟨hsplit, hroom, hcomplete⟩
    refine ⟨?_, Nat.succ_lt_succ hroom, List.forall_mem_cons.mpr ⟨⟨hfits, hsome⟩, hcomplete⟩⟩
    rw [hlines, ← hrest, hsplit, List.cons_append]

/-- Nothing is reached behind a first line that is cut or fails to parse. -/
theorem ReachesLine.eq_nil {before : List (List Char)} {line : List Char}
    {after : List (List Char)} (hreaches : ReachesLine (capacity + 1) text before line after)
    (hstop : ¬ (first.length < lineSize ∧ (lineEntry first).isSome = true)) :
    before = [] ∧ line = first ∧ after = later := by
  have hsplit := hlines.symm.trans hreaches.split
  cases before with
  | nil =>
      obtain ⟨rfl, rfl⟩ := List.cons_eq_cons.mp hsplit
      exact ⟨rfl, rfl, rfl⟩
  | cons earlier before =>
      obtain ⟨rfl, -⟩ := List.cons_eq_cons.mp hsplit
      exact absurd (hreaches.complete first List.mem_cons_self) hstop

theorem stopsCleanly_of_some {rest : List Char} (hrest : lines rest = later)
    (hfits : first.length < lineSize) (hsome : (lineEntry first).isSome = true) :
    StopsCleanly (capacity + 1) text ↔ StopsCleanly capacity rest := by
  have hreaches : ∀ {before line after}, ReachesLine (capacity + 1) text (first :: before) line
      after ↔ ReachesLine capacity rest before line after :=
    reachesLine_cons_iff hlines hrest hfits hsome
  constructor
  · rintro ⟨haddress, hwhole⟩
    refine ⟨fun before line after hline => haddress _ line after (hreaches.mpr hline), ?_⟩
    intro before line after hline hlong
    have hcut := hwhole _ line after (hreaches.mpr hline) hlong
    rwa [List.length_cons, Nat.add_sub_add_right] at hcut
  · rintro ⟨haddress, hwhole⟩
    constructor
    · intro before line after hline hshort hnone
      cases before with
      | nil =>
          obtain ⟨rfl, -⟩ := List.cons_eq_cons.mp (hlines.symm.trans hline.split)
          rw [hnone] at hsome
          exact absurd hsome Bool.false_ne_true
      | cons earlier before =>
          obtain ⟨rfl, -⟩ := List.cons_eq_cons.mp (hlines.symm.trans hline.split)
          exact haddress before line after (hreaches.mp hline) hshort hnone
    · intro before line after hline hlong
      cases before with
      | nil =>
          obtain ⟨rfl, -⟩ := List.cons_eq_cons.mp (hlines.symm.trans hline.split)
          exact absurd hfits (Nat.not_lt.mpr hlong)
      | cons earlier before =>
          obtain ⟨rfl, -⟩ := List.cons_eq_cons.mp (hlines.symm.trans hline.split)
          rw [List.length_cons, Nat.add_sub_add_right]
          exact hwhole before line after (hreaches.mp hline) hlong

theorem stopsCleanly_of_none (hfits : first.length < lineSize) (hnone : lineEntry first = none) :
    StopsCleanly (capacity + 1) text ↔ strayAddress first = 0 := by
  have hstop : ¬ (first.length < lineSize ∧ (lineEntry first).isSome = true) := by
    rw [hnone]
    exact fun hboth => Bool.false_ne_true hboth.2
  constructor
  · intro hcleanly
    exact hcleanly.address [] first later (reachesLine_nil hlines) hfits hnone
  · intro hzero
    constructor
    · intro before line after hline _ _
      obtain ⟨-, rfl, -⟩ := hline.eq_nil hlines hstop
      exact hzero
    · intro before line after hline hlong
      obtain ⟨-, rfl, -⟩ := hline.eq_nil hlines hstop
      exact absurd hfits (Nat.not_lt.mpr hlong)

theorem stopsCleanly_of_long (hlong : lineSize ≤ first.length) :
    StopsCleanly (capacity + 1) text ↔
      StopsWithoutAddress (capacity + 1) text ∧ KeepsEntries (capacity + 1) text := by
  have hstop : ¬ (first.length < lineSize ∧ (lineEntry first).isSome = true) :=
    fun hboth => absurd hboth.1 (Nat.not_lt.mpr hlong)
  have hflatten : (first :: later).flatten = text := hlines ▸ flatten_lines text
  constructor
  · intro hcleanly
    have hcut := hcleanly.whole [] first later (reachesLine_nil hlines) hlong
    rwa [hflatten] at hcut
  · intro hcut
    constructor
    · intro before line after hline hfits _
      obtain ⟨-, rfl, -⟩ := hline.eq_nil hlines hstop
      exact absurd hfits (Nat.not_lt.mpr hlong)
    · intro before line after hline _
      obtain ⟨rfl, rfl, rfl⟩ := hline.eq_nil hlines hstop
      rw [hflatten]
      exact hcut

end Lines

/-- Up to a line that is cut, what the loop takes for lines are the lines. -/
theorem stopsCleanly_iff (capacity : Nat) (text : List Char) :
    StopsCleanly capacity text ↔
      StopsWithoutAddress capacity text ∧ KeepsEntries capacity text := by
  induction capacity generalizing text with
  | zero =>
      refine iff_of_true ⟨?_, ?_⟩ ⟨?_, rfl⟩
      · exact fun before line after hline => absurd hline.room (Nat.not_lt_zero _)
      · exact fun before line after hline => absurd hline.room (Nat.not_lt_zero _)
      · exact fun before _ _ _ hcount => absurd hcount (Nat.not_lt_zero _)
  | succ capacity ih =>
      by_cases htext : text = []
      · subst htext
        have hnone : ∀ before line after, ¬ ReachesLine (capacity + 1) [] before line after :=
          fun before line after hline => absurd hline.split (by simp)
        refine iff_of_true ⟨?_, ?_⟩ ⟨?_, ?_⟩
        · exact fun before line after hline => absurd hline (hnone before line after)
        · exact fun before line after hline => absurd hline (hnone before line after)
        · exact fun before line after hsplit =>
            absurd (kallsymsLines_nil.symm.trans hsplit) (by simp)
        · rw [KeepsEntries, kallsymsLines_nil, lines_nil]
      · obtain ⟨first, later, hlines⟩ := List.exists_cons_of_ne_nil (lines_ne_nil htext)
        by_cases hfits : first.length < lineSize
        · obtain ⟨rest, hread, hrest⟩ := readUpTo_first hlines (Nat.le_sub_one_of_lt hfits)
          cases hentry : lineEntry first with
          | some entry =>
              have hsome : (lineEntry first).isSome = true := by rw [hentry]; rfl
              rw [stopsCleanly_of_some hlines hrest hfits hsome, ih rest,
                stopsWithoutAddress_of_some htext hread hentry, KeepsEntries, KeepsEntries,
                kallsymsLines_eq htext hread, hlines, hrest, entriesOf_cons_of_some hentry,
                entriesOf_cons_of_some hentry, List.cons_inj_right]
          | none =>
              rw [stopsCleanly_of_none hlines hfits hentry,
                stopsWithoutAddress_of_none htext hread hentry, KeepsEntries,
                kallsymsLines_eq htext hread, hlines, entriesOf_cons_of_none hentry,
                entriesOf_cons_of_none hentry]
              exact (and_iff_left rfl).symm
        · exact stopsCleanly_of_long hlines (Nat.not_lt.mp hfits)

/-- The loop on unused entries leaves the entries of the complete lines and nothing
else, and no entry that is found lacks a name, if and only if the line it stops at does
not start with a number other than 0 and no line that is cut makes a difference. -/
theorem leavesCompleteEntries_iff (capacity : Nat) (text : List Char) :
    (LeavesCompleteEntries capacity text ∧ FindsNames capacity text) ↔
      StopsCleanly capacity text := by
  rw [stopsCleanly_iff, ← leavesCompleteEntries_iff_keeps]
  exact and_iff_left_of_imp LeavesCompleteEntries.findsNames

/-- A line without a name leaves its address. -/
theorem leavesCompleteEntries_fails_without_name :
    ¬ ∀ text, LeavesCompleteEntries maxNumSymbols text ∧ FindsNames maxNumSymbols text := by
  intro hleaves
  have hline : readUpTo (lineSize - 1) "2000 T\n".toList = ("2000 T\n".toList, []) := by decide
  have hstops := ((leavesCompleteEntries_iff_keeps _ _).mp (hleaves "2000 T\n".toList).1).1
  have hcapacity : maxNumSymbols = 499999 + 1 := rfl
  rw [hcapacity] at hstops
  have hzero : strayAddress "2000 T\n".toList = 0 :=
    (stopsWithoutAddress_of_none (by decide) hline (by decide)).mp hstops
  exact absurd hzero (by decide)

end SchedAnalyzer
