import SchedAnalyzer.User.KallsymsParse

/-! # Well-formed lines of `/proc/kallsyms`

What the loop makes of the lines the kernel prints. A line that does not fit the
buffer is read in pieces, and a line is split at blanks only.
-/

namespace SchedAnalyzer

open Foundation.CString

/-- Nothing in it ends a field or a line. -/
def IsWord (text : List Char) : Prop :=
  ∀ c ∈ text, c ≠ ' ' ∧ c ≠ '\t' ∧ c ≠ '\n' ∧ c ≠ nul

instance decidableIsWord (text : List Char) : Decidable (IsWord text) :=
  List.decidableBAll _ text

/-- The fields of a line as the kernel prints it. -/
structure KallsymsLine where
  address : List Char
  type : Char
  name : List Char
  moduleName : Option (List Char)
  address_ne_nil : address ≠ []
  address_length : address.length ≤ 16
  address_digits : ∀ c ∈ address, isDigitIn 16 c = true
  type_word : IsWord [type]
  name_ne_nil : name ≠ []
  name_length : name.length ≤ 511
  name_word : IsWord name
  module_word : ∀ text ∈ moduleName, IsWord text

namespace KallsymsLine

variable (line : KallsymsLine)

/-- The address as a number. -/
def value : Nat :=
  digitsValue 16 line.address

/-- What follows the last blank: the name, and the module of the symbol. -/
def lastField : List Char :=
  line.name ++
    match line.moduleName with
    | none => []
    | some text => '\t' :: '[' :: text ++ [']']

/-- The line without its newline. -/
def body : List Char :=
  line.address ++ ' ' :: ([line.type] ++ ' ' :: line.lastField)

/-- `hex-address type name`, a tab and the module for a symbol of a module, and a
newline. -/
def text : List Char :=
  line.body ++ ['\n']

/-- What the buffer holds of the rest of a line that it has cut. -/
def overhang : List Char :=
  (readUpTo (lineSize - 1) (line.text.drop (lineSize - 1))).1

/-! ## Fields -/

theorem address_clean {c : Char} (hc : isDigitIn 16 c = false) : c ∉ line.address :=
  notMem_of_isDigitIn line.address_digits hc

/-- A blank, a newline and a NUL are not part of the last field. -/
theorem lastField_clean : ' ' ∉ line.lastField ∧ '\n' ∉ line.lastField ∧ nul ∉ line.lastField := by
  have hword : ∀ {text : List Char}, IsWord text → ' ' ∉ text ∧ '\n' ∉ text ∧ nul ∉ text := by
    intro text htext
    exact ⟨fun hmem => (htext _ hmem).1 rfl, fun hmem => (htext _ hmem).2.2.1 rfl,
      fun hmem => (htext _ hmem).2.2.2 rfl⟩
  have hname := hword line.name_word
  have htag : ∀ c, c ≠ '\t' → c ≠ '[' → c ≠ ']' → (∀ text ∈ line.moduleName, c ∉ text) →
      c ∉ line.name → c ∉ line.lastField := by
    intro c htab hopen hclose hmodule hc hmem
    rcases List.mem_append.mp hmem with hmem | hmem
    · exact hc hmem
    · split at hmem
      next => exact absurd hmem List.not_mem_nil
      next text htext =>
        simp only [List.cons_append, List.mem_cons, List.mem_append, List.not_mem_nil,
          or_false] at hmem
        rcases hmem with rfl | rfl | hmem | rfl
        · exact htab rfl
        · exact hopen rfl
        · exact hmodule text htext hmem
        · exact hclose rfl
  exact ⟨htag _ (by decide) (by decide) (by decide)
      (fun text htext => (hword (line.module_word text htext)).1) hname.1,
    htag _ (by decide) (by decide) (by decide)
      (fun text htext => (hword (line.module_word text htext)).2.1) hname.2.1,
    htag _ (by decide) (by decide) (by decide)
      (fun text htext => (hword (line.module_word text htext)).2.2) hname.2.2⟩

theorem newline_notMem_body : '\n' ∉ line.body := by
  obtain ⟨-, hfield, -⟩ := line.lastField_clean
  have htype := line.type_word line.type (List.mem_singleton_self _)
  simp only [body, List.mem_append, List.mem_cons, List.not_mem_nil, or_false, not_or]
  exact ⟨line.address_clean (by decide), by decide, Ne.symm htype.2.2.1, by decide, hfield⟩

theorem lastField_of_builtin (hmodule : line.moduleName = none) : line.lastField = line.name := by
  rw [lastField, hmodule]
  exact List.append_nil _

theorem lastField_ne_nil : line.lastField ≠ [] :=
  List.append_ne_nil_of_left_ne_nil line.name_ne_nil _

/-- The fields in front of the last one and their blanks. -/
theorem length_body : line.body.length = line.address.length + 3 + line.lastField.length := by
  simp only [body, List.length_append, List.length_cons, List.length_nil]
  omega

/-! ## One piece of the file -/

/-- The tokens of a piece with the first two fields and any part of the last one. -/
theorem tokens_field {field : List Char} (hne : field ≠ []) (hblank : ' ' ∉ field)
    (hnul : nul ∉ field) :
    tokens ' ' (line.address ++ ' ' :: ([line.type] ++ ' ' :: field)) =
      [line.address, [line.type], field] := by
  have htype := line.type_word line.type (List.mem_singleton_self _)
  rw [tokens_append_cons line.address_ne_nil (line.address_clean (by decide))
      (line.address_clean (by decide)) (by decide),
    tokens_append_cons (List.cons_ne_nil _ _) (by simpa using Ne.symm htype.1)
      (by simpa using Ne.symm htype.2.2.2) (by decide),
    tokens_eq_singleton hne hblank hnul]

/-- Such a piece has an entry. -/
theorem lineEntry_field {field : List Char} (hne : field ≠ []) (hblank : ' ' ∉ field)
    (hnul : nul ∉ field) :
    lineEntry (line.address ++ ' ' :: ([line.type] ++ ' ' :: field)) =
      some ⟨UInt64.ofNat line.value, storeName Symbol.zero.symbol field⟩ := by
  have hpos : 0 < line.address.length := List.length_pos_iff.mpr line.address_ne_nil
  simp only [lineEntry, line.tokens_field hne hblank hnul, strtoul_hexadecimal line.address_ne_nil
    line.address_digits line.address_length, hpos, and_self, if_true, value]

/-- The line itself is one: a newline is part of the last token. -/
theorem text_eq_field :
    line.text = line.address ++ ' ' :: ([line.type] ++ ' ' :: (line.lastField ++ ['\n'])) := by
  simp [text, body]

/-- Its last token is clean. -/
theorem lastToken_clean :
    line.lastField ++ ['\n'] ≠ [] ∧ ' ' ∉ line.lastField ++ ['\n'] ∧
      nul ∉ line.lastField ++ ['\n'] := by
  obtain ⟨hblank, -, hnul⟩ := line.lastField_clean
  refine ⟨List.append_ne_nil_of_left_ne_nil line.lastField_ne_nil _, ?_, ?_⟩
  · simpa using hblank
  · simpa [nul] using hnul

theorem lineEntry_text :
    lineEntry line.text =
      some ⟨UInt64.ofNat line.value, storeName Symbol.zero.symbol (line.lastField ++ ['\n'])⟩ := by
  obtain ⟨hne, hblank, hnul⟩ := line.lastToken_clean
  rw [text_eq_field, line.lineEntry_field hne hblank hnul]

/-- A line that fits is read as it stands. -/
theorem readUpTo_text (hfits : line.text.length < lineSize) (rest : List Char) :
    readUpTo (lineSize - 1) (line.text ++ rest) = (line.text, rest) := by
  rw [text, List.length_append, List.length_singleton] at hfits
  rw [text, List.append_assoc, List.singleton_append]
  exact readUpTo_line line.newline_notMem_body (Nat.lt_sub_of_add_lt hfits) rest

/-- Any other is cut inside its last field. -/
theorem readUpTo_text_long (hlong : lineSize ≤ line.text.length) (rest : List Char) :
    readUpTo (lineSize - 1) (line.text ++ rest) =
      (line.body.take (lineSize - 1), line.text.drop (lineSize - 1) ++ rest) := by
  rw [text, List.length_append, List.length_singleton] at hlong
  have hbody : lineSize - 1 ≤ line.body.length := Nat.sub_le_of_le_add hlong
  have hroom : (line.body.take (lineSize - 1)).length = lineSize - 1 :=
    List.length_take_of_le hbody
  have hpieces : line.text ++ rest =
      line.body.take (lineSize - 1) ++ (line.text.drop (lineSize - 1) ++ rest) := by
    rw [text, List.drop_append_of_le_length hbody, ← List.append_assoc, ← List.append_assoc,
      List.take_append_drop]
  have hnewline : '\n' ∉ line.body.take (lineSize - 1) :=
    fun hmem => line.newline_notMem_body (List.mem_of_mem_take hmem)
  have hread := readUpTo_long hnewline (line.text.drop (lineSize - 1) ++ rest)
  rwa [hroom, ← hpieces] at hread

end KallsymsLine

/-! ## The stored name -/

/-- The loop stores the entry of a line, and its string is the name of the line. -/
def StoresName (line : KallsymsLine) (later : List Symbol) (rest : List Char) : Prop :=
  ∃ entry entries, parseEntries (.zero :: later) (line.text ++ rest) = entry :: entries ∧
    cstr entry.symbol = line.name

/-- A line that fits the buffer is one turn of the loop. -/
theorem parseEntries_text {line : KallsymsLine} (hfits : line.text.length < lineSize)
    (later : List Symbol) (rest : List Char) :
    parseEntries (.zero :: later) (line.text ++ rest) =
      ⟨UInt64.ofNat line.value, storeName Symbol.zero.symbol (line.lastField ++ ['\n'])⟩ ::
        parseEntries later rest := by
  have hne : line.text ++ rest ≠ [] := by
    simp [KallsymsLine.text]
  rw [parseEntries, fgets, if_neg hne, line.readUpTo_text hfits rest]
  simp only [parseLine_zero, line.lineEntry_text, if_true]

/-- The name that is stored is never the name of the line: a token goes on to the
next blank, so the newline and the module are part of it. -/
theorem not_storesName {line : KallsymsLine} (hfits : line.text.length < lineSize)
    (hname : line.name.length < symbolLen - 1) (later : List Symbol) (rest : List Char) :
    ¬ StoresName line later rest := by
  rintro ⟨entry, entries, hparse, hsymbol⟩
  rw [parseEntries_text hfits] at hparse
  obtain ⟨rfl, -⟩ := List.cons_eq_cons.mp hparse
  have hfield : cstr (line.lastField ++ ['\n']) = line.lastField ++ ['\n'] :=
    cstr_of_notMem line.lastToken_clean.2.2
  have hlonger : line.name.length < (line.lastField ++ ['\n']).length := by
    rw [KallsymsLine.lastField, List.length_append, List.length_append, List.length_singleton]
    omega
  by_cases hshort : (line.lastField ++ ['\n']).length < symbolLen - 1
  · rw [cstr_storeName_zero (hfield.symm ▸ hshort), hfield] at hsymbol
    exact absurd (congrArg List.length hsymbol) (Nat.ne_of_gt hlonger)
  · -- The array has no room for a NUL then.
    have hnone : nul ∉ storeName Symbol.zero.symbol (line.lastField ++ ['\n']) := by
      rwa [nul_mem_storeName_zero, hfield]
    have hlen := congrArg List.length hsymbol
    rw [cstr_of_notMem hnone, length_storeName_zero] at hlen
    omega

/-- A line of the kernel's own text. -/
def stextLine : KallsymsLine where
  address := "ffffffff81000000".toList
  type := 'T'
  name := "_stext".toList
  moduleName := none
  address_ne_nil := by decide
  address_length := by decide
  address_digits := List.all_eq_true.mp (by decide)
  type_word := by decide
  name_ne_nil := by decide
  name_length := by decide
  name_word := by decide
  module_word := by decide

theorem not_storesName_stextLine : ¬ StoresName stextLine [.zero] [] :=
  not_storesName (by decide) (by decide) _ _

/-- The string stored for `_stext` ends with the newline. -/
theorem storesName_fails_for_stext :
    ¬ ∀ (line : KallsymsLine) (later : List Symbol) (rest : List Char),
      line.text.length < lineSize → line.name.length < symbolLen - 1 →
        StoresName line later rest := by
  intro hstores
  obtain ⟨entry, entries, hparse, hsymbol⟩ := hstores stextLine [] [] (by decide) (by decide)
  rw [parseEntries_text (by decide)] at hparse
  obtain ⟨rfl, -⟩ := List.cons_eq_cons.mp hparse
  rw [cstr_storeName_zero (by decide)] at hsymbol
  exact absurd hsymbol (by decide)

/-! ## The entries of a file -/

/-- The entry has the address of the line, and as much of its name as an entry holds. -/
def IsEntryOf (entry : Symbol) (line : KallsymsLine) : Prop :=
  entry.address = UInt64.ofNat line.value ∧ line.name.take (symbolLen - 1) <+: entry.symbol

/-- The loop leaves one entry for each line, in the order of the lines, and the
entries after these unused. -/
def StoresEveryLine (capacity : Nat) (lines : List KallsymsLine) : Prop :=
  ∃ stored, List.Forall₂ IsEntryOf stored lines ∧
    parseEntries (List.replicate capacity .zero) (lines.flatMap KallsymsLine.text) =
      stored ++ List.replicate (capacity - lines.length) .zero

/-- No line is cut by the buffer, unless it is the last one and the table is full
after it, or what is left of it does not start with a number other than 0. -/
def ReadsWhole (capacity : Nat) (lines : List KallsymsLine) : Prop :=
  ∀ before line after, lines = before ++ line :: after → lineSize ≤ line.text.length →
    after = [] ∧ (lines.length = capacity ∨ (strtoul 16 line.overhang).value = 0)

namespace KallsymsLine

variable (line : KallsymsLine)

/-- The rest of a line that was cut has no blank in it. -/
theorem overhang_clean (hlong : lineSize ≤ line.text.length) :
    line.overhang ≠ [] ∧ ' ' ∉ line.overhang ∧ nul ∉ line.overhang := by
  obtain ⟨-, hblank, hnul⟩ := line.lastToken_clean
  have hrest : ∀ c ∈ line.overhang, c ∈ line.lastField ++ ['\n'] := by
    intro c hc
    have hmem := mem_of_mem_readUpTo hc
    have hsplit : line.text =
        (line.address ++ [' ', line.type, ' ']) ++ (line.lastField ++ ['\n']) := by
      simp [text, body]
    have hfront : (line.address ++ [' ', line.type, ' ']).length ≤ lineSize - 1 := by
      have hlen := line.address_length
      rw [List.length_append]
      simp only [List.length_cons, List.length_nil, lineSize]
      omega
    rw [hsplit, List.drop_append, List.drop_eq_nil_of_le hfront, List.nil_append] at hmem
    exact List.mem_of_mem_drop hmem
  refine ⟨readUpTo_ne_nil (by decide) ?_, fun hmem => ?_, fun hmem => ?_⟩
  · exact List.ne_nil_of_length_pos (by rw [List.length_drop]; simp only [lineSize] at *; omega)
  · exact hblank (hrest _ hmem)
  · exact hnul (hrest _ hmem)

/-- It fails to parse, and leaves the number it starts with. -/
theorem lineEntry_overhang (hlong : lineSize ≤ line.text.length) :
    lineEntry line.overhang = none ∧
      strayAddress line.overhang = UInt64.ofNat (strtoul 16 line.overhang).value := by
  obtain ⟨hne, hblank, hnul⟩ := line.overhang_clean hlong
  rw [lineEntry, strayAddress, tokens_eq_singleton hne hblank hnul]
  exact ⟨rfl, rfl⟩

/-- An entry with the address of a line and the start of its last field is its entry. -/
theorem isEntryOf_field {field : List Char} (hnul : nul ∉ field)
    (hfield : line.name.take (symbolLen - 1) <+: field.take (symbolLen - 1)) :
    IsEntryOf ⟨UInt64.ofNat line.value, storeName Symbol.zero.symbol field⟩ line := by
  have hstored := take_prefix_storeName_zero field
  rw [cstr_of_notMem hnul] at hstored
  exact ⟨rfl, hfield.trans hstored⟩

/-- What the buffer holds of a line that it cuts has the entry of the line. -/
theorem lineEntry_take :
    ∃ entry, lineEntry (line.body.take (lineSize - 1)) = some entry ∧ IsEntryOf entry line := by
  obtain ⟨hblank, -, hnul⟩ := line.lastField_clean
  have haddress := line.address_length
  have hcut : line.body.take (lineSize - 1) =
      line.address ++ ' ' :: ([line.type] ++
        ' ' :: line.lastField.take (lineSize - 1 - line.address.length - 3)) := by
    have hrest : lineSize - 1 - line.address.length =
        lineSize - 1 - line.address.length - 3 + 1 + 1 + 1 := by
      simp only [lineSize]
      omega
    rw [body, List.take_append, List.take_of_length_le (by simp only [lineSize]; omega), hrest,
      List.take_succ_cons, List.singleton_append, List.take_succ_cons, List.take_succ_cons]
    rfl
  have hroom : symbolLen - 1 ≤ lineSize - 1 - line.address.length - 3 := by
    simp only [symbolLen, lineSize]
    omega
  have hnul' : nul ∉ line.lastField.take (lineSize - 1 - line.address.length - 3) :=
    nul_notMem_take hnul _
  refine ⟨_, hcut ▸ line.lineEntry_field ?_ (fun hmem => hblank (List.mem_of_mem_take hmem)) hnul',
    line.isEntryOf_field hnul' ?_⟩
  · rw [List.take_take, Nat.min_eq_left hroom]
    exact (List.prefix_append _ _).take _
  · rw [ne_eq, List.take_eq_nil_iff, not_or]
    exact ⟨by simp only [lineSize]; omega, line.lastField_ne_nil⟩

end KallsymsLine

/-! ## Line after line -/

/-- A line that fits adds its entry. -/
theorem storesEveryLine_cons {capacity : Nat} {line : KallsymsLine}
    (hfits : line.text.length < lineSize) (lines : List KallsymsLine) :
    StoresEveryLine (capacity + 1) (line :: lines) ↔ StoresEveryLine capacity lines := by
  have hentry := line.isEntryOf_field line.lastToken_clean.2.2 (by
    rw [KallsymsLine.lastField, List.append_assoc]
    exact (List.prefix_append _ _).take _)
  rw [StoresEveryLine, StoresEveryLine, List.flatMap_cons, List.replicate_succ,
    parseEntries_text hfits, List.length_cons, Nat.add_sub_add_right]
  constructor
  · rintro ⟨stored, hstored, hparse⟩
    cases hstored with
    | cons _ hlater => exact ⟨_, hlater, (List.cons_eq_cons.mp hparse).2⟩
  · rintro ⟨stored, hstored, hparse⟩
    exact ⟨_ :: stored, hstored.cons hentry, congrArg _ hparse⟩

theorem readsWhole_cons {capacity : Nat} {line : KallsymsLine}
    (hfits : line.text.length < lineSize) (lines : List KallsymsLine) :
    ReadsWhole (capacity + 1) (line :: lines) ↔ ReadsWhole capacity lines := by
  constructor
  · intro hreads before other after hsplit hlong
    have hrest := hreads (line :: before) other after (congrArg _ hsplit) hlong
    rwa [List.length_cons, Nat.add_right_cancel_iff] at hrest
  · intro hreads before other after hsplit hlong
    cases before with
    | nil =>
        obtain ⟨rfl, -⟩ := List.cons_eq_cons.mp hsplit
        exact absurd hfits (Nat.not_lt.mpr hlong)
    | cons first before =>
        rw [List.length_cons, Nat.add_right_cancel_iff]
        exact hreads before other after (List.cons_eq_cons.mp hsplit).2 hlong

/-- The loop on a line that does not fit: its entry, and the number its rest starts
with. -/
theorem parseEntries_long (capacity : Nat) {line : KallsymsLine}
    (hlong : lineSize ≤ line.text.length) (rest : List Char) :
    ∃ entry, IsEntryOf entry line ∧
      parseEntries (List.replicate (capacity + 1) .zero) (line.text ++ rest) =
        entry ::
          match capacity with
          | 0 => []
          | later + 1 =>
              { Symbol.zero with address := UInt64.ofNat (strtoul 16 line.overhang).value } ::
                List.replicate later .zero := by
  have hne : line.text ++ rest ≠ [] := by
    simp [KallsymsLine.text]
  obtain ⟨entry, hentry, hisEntry⟩ := line.lineEntry_take
  refine ⟨entry, hisEntry, ?_⟩
  rw [parseEntries_replicate_succ _ hne, line.readUpTo_text_long hlong rest]
  simp only [hentry]
  cases capacity with
  | zero => rfl
  | succ later =>
      have hbody : lineSize - 1 ≤ line.body.length := by
        rw [KallsymsLine.text, List.length_append, List.length_singleton] at hlong
        exact Nat.sub_le_of_le_add hlong
      have htail : line.text.drop (lineSize - 1) = line.body.drop (lineSize - 1) ++ ['\n'] := by
        rw [KallsymsLine.text, List.drop_append_of_le_length hbody]
      have hread : (readUpTo (lineSize - 1) (line.text.drop (lineSize - 1) ++ rest)).1 =
          line.overhang := by
        rw [KallsymsLine.overhang, htail, List.append_assoc, List.singleton_append,
          readUpTo_append_newline]
      obtain ⟨hnone, hstray⟩ := line.lineEntry_overhang hlong
      have hmore : line.text.drop (lineSize - 1) ++ rest ≠ [] := by
        rw [htail]
        simp
      rw [parseEntries_replicate_succ _ hmore, hread]
      simp only [hnone, hstray]

/-- After a line that does not fit no other line has an entry. -/
theorem not_storesEveryLine_of_long {capacity : Nat} {line next : KallsymsLine}
    {lines : List KallsymsLine} (hlong : lineSize ≤ line.text.length)
    (hcount : (line :: next :: lines).length ≤ capacity) :
    ¬ StoresEveryLine capacity (line :: next :: lines) := by
  rintro ⟨stored, hstored, hparse⟩
  obtain ⟨count, rfl⟩ : ∃ count, capacity = count + 1 + 1 :=
    ⟨capacity - 2, by simp only [List.length_cons] at hcount; omega⟩
  obtain ⟨entry, -, hlines⟩ :=
    parseEntries_long (count + 1) hlong ((next :: lines).flatMap KallsymsLine.text)
  rw [List.flatMap_cons, hlines] at hparse
  cases hstored with
  | cons _ hmore =>
      cases hmore with
      | cons hnext _ =>
          -- The array behind the rest of the line was not written.
          obtain ⟨-, hsecond⟩ := List.cons_eq_cons.mp hparse
          obtain ⟨rfl, -⟩ := List.cons_eq_cons.mp hsecond
          obtain ⟨c, rest, hname⟩ := List.exists_cons_of_ne_nil next.name_ne_nil
          have hc : c ∈ next.name.take (symbolLen - 1) := by
            rw [hname]
            exact List.mem_cons_self
          have hzero := List.eq_of_mem_replicate (hnext.2.subset hc)
          exact (next.name_word c (List.mem_of_mem_take hc)).2.2.2 hzero

/-- The last line, when it does not fit. -/
theorem storesEveryLine_singleton_of_long {capacity : Nat} {line : KallsymsLine}
    (hlong : lineSize ≤ line.text.length) :
    StoresEveryLine (capacity + 1) [line] ↔
      capacity = 0 ∨ (strtoul 16 line.overhang).value = 0 := by
  obtain ⟨entry, hentry, hparse⟩ := parseEntries_long capacity hlong []
  rw [StoresEveryLine, List.flatMap_singleton, ← List.append_nil line.text, hparse]
  cases capacity with
  | zero => exact iff_of_true ⟨[entry], .cons hentry .nil, rfl⟩ (Or.inl rfl)
  | succ later =>
      have hstray : UInt64.ofNat (strtoul 16 line.overhang).value = 0 ↔
          (strtoul 16 line.overhang).value = 0 := by
        have hle := strtoul_value_le 16 line.overhang
        rw [← UInt64.toNat_inj, UInt64.toNat_ofNat_of_lt' (Nat.lt_of_le_of_lt hle (by decide))]
        rfl
      rw [or_iff_right (Nat.succ_ne_zero later), ← hstray]
      constructor
      · rintro ⟨stored, hstored, heq⟩
        cases hstored with
        | cons _ hmore =>
            cases hmore
            obtain ⟨-, hrest⟩ := List.cons_eq_cons.mp heq
            exact congrArg Symbol.address (List.cons_eq_cons.mp hrest).1
      · intro hzero
        refine ⟨[entry], .cons hentry .nil, ?_⟩
        rw [hzero]
        rfl

/-- The loop stores one entry for each line of a file, if and only if no line is
cut by the buffer, or only the last one and without a trace. -/
theorem storesEveryLine_iff {capacity : Nat} {lines : List KallsymsLine}
    (hcount : lines.length ≤ capacity) :
    StoresEveryLine capacity lines ↔ ReadsWhole capacity lines := by
  induction lines generalizing capacity with
  | nil =>
      refine iff_of_true ⟨[], .nil, parseEntries_nil _⟩ ?_
      intro before line after hsplit
      exact absurd hsplit (by simp)
  | cons line lines ih =>
      obtain ⟨count, rfl⟩ := Nat.exists_eq_add_one_of_ne_zero (Nat.ne_zero_of_lt hcount)
      by_cases hfits : line.text.length < lineSize
      · rw [storesEveryLine_cons hfits, readsWhole_cons hfits]
        exact ih (Nat.le_of_succ_le_succ hcount)
      · have hlong := Nat.not_lt.mp hfits
        cases lines with
        | cons next lines =>
            refine iff_of_false (not_storesEveryLine_of_long hlong hcount) fun hreads => ?_
            exact absurd (hreads [] line _ rfl hlong).1 (List.cons_ne_nil _ _)
        | nil =>
            rw [storesEveryLine_singleton_of_long hlong]
            constructor
            · intro htrace before other after hsplit _
              cases before with
              | nil =>
                  obtain ⟨rfl, rfl⟩ := List.cons_eq_cons.mp hsplit
                  exact ⟨rfl, htrace.imp_left fun hzero => (congrArg Nat.succ hzero).symm⟩
              | cons first before => exact absurd hsplit (by simp)
            · intro hreads
              have htrace := (hreads [] line [] rfl hlong).2
              exact htrace.imp_left fun hone => (Nat.succ.inj hone).symm

/-- Two functions of a kernel and one of a module. -/
def textLines : List KallsymsLine :=
  [{ stextLine with
      address := "ffffffc010000000".toList
      address_ne_nil := by decide
      address_length := by decide
      address_digits := List.all_eq_true.mp (by decide) },
    { stextLine with
      address := "ffffffc010001000".toList
      address_ne_nil := by decide
      address_length := by decide
      address_digits := List.all_eq_true.mp (by decide)
      name := "do_one_initcall".toList
      name_ne_nil := by decide
      name_length := by decide
      name_word := by decide },
    { stextLine with
      address := "ffffffc008000000".toList
      address_ne_nil := by decide
      address_length := by decide
      address_digits := List.all_eq_true.mp (by decide)
      type := 't'
      type_word := by decide
      name := "drm_open".toList
      name_ne_nil := by decide
      name_length := by decide
      name_word := by decide
      moduleName := some "[drm]".toList
      module_word := by decide }]

theorem storesEveryLine_textLines : StoresEveryLine maxNumSymbols textLines := by
  refine (storesEveryLine_iff (show textLines.length ≤ maxNumSymbols by decide)).mpr ?_
  intro before line after hsplit hlong
  have hfits : ∀ line ∈ textLines, line.text.length < lineSize := by decide
  have hline : line ∈ textLines := hsplit ▸ List.mem_append_right before List.mem_cons_self
  exact absurd (hfits line hline) (Nat.not_lt.mpr hlong)

/-- A symbol of a module with a name of 300 bytes. -/
def mangledLine : KallsymsLine where
  address := "ffffffffc0000000".toList
  type := 't'
  name := List.replicate 300 'n'
  moduleName := some "drm".toList
  address_ne_nil := by decide
  address_length := by decide
  address_digits := List.all_eq_true.mp (by decide)
  type_word := by decide
  name_ne_nil := List.cons_ne_nil _ _
  name_length := by
    rw [List.length_replicate]
    decide
  name_word := by
    intro c hc
    rw [List.eq_of_mem_replicate hc]
    decide
  module_word := by decide

/-- The rest of a line that does not fit ends the loop. -/
theorem storesEveryLine_fails_for_long_name :
    ¬ ∀ lines : List KallsymsLine, lines.length ≤ maxNumSymbols →
      StoresEveryLine maxNumSymbols lines := by
  intro hstores
  have hcount : [mangledLine, stextLine].length ≤ maxNumSymbols := by
    rw [List.length_cons, List.length_singleton]
    decide
  have hname : 300 ≤ mangledLine.lastField.length := by
    rw [KallsymsLine.lastField, List.length_append]
    exact Nat.le_add_right_of_le (Nat.le_of_eq List.length_replicate.symm)
  have hlong : lineSize ≤ mangledLine.text.length := by
    have hbody := mangledLine.length_body
    rw [KallsymsLine.text, List.length_append, List.length_singleton]
    generalize mangledLine.body.length = length at hbody
    unfold lineSize
    omega
  have hstored := hstores [mangledLine, stextLine] hcount
  revert hstored
  apply not_storesEveryLine_of_long hlong
  exact hcount

end SchedAnalyzer
