import SchedAnalyzer.Foundation.LineReader
import SchedAnalyzer.Foundation.Strtol
import SchedAnalyzer.User.Kallsyms

/-! # Parsing `/proc/kallsyms`

The loop of `parse_kallsyms` reads the file through a buffer of `LINE_SIZE` bytes
and takes what is in the buffer for a line. It writes the address of a line into
the table before it has looked at the rest of the line.
-/

namespace SchedAnalyzer

open Foundation.Comparator Foundation.CString

/-- `LINE_SIZE`. -/
def lineSize : Nat := 256

theorem two_le_lineSize : 2 ≤ lineSize := by decide

/-! ## The loop -/

/-- The two stores of a name: a bounded copy, and the character `'0'` in the last byte. -/
def storeName (symbol token : List Char) : List Char :=
  (strncpy symbol token (symbolLen - 1)).set (symbolLen - 1) '0'

/-- The body of the loop, on the entry it writes: what it leaves there, and whether
the loop goes on. `strtoul` reads the buffer itself, which the first `strtok` has
cut behind the token. -/
def parseLine (entry : Symbol) (line : List Char) : Symbol × Bool :=
  match strtok ' ' line with
  -- "Error parsing kallsyms"
  | none => (entry, false)
  | some (token, rest) =>
      let blanks := (cstr line).takeWhile fun c => c == ' '
      let read := strtoul 16 (blanks ++ token)
      let entry := { entry with address := UInt64.ofNat read.value }
      -- "Unsupported address value"
      if read.erange then (entry, false)
      -- "address: no digits were found"
      else if read.consumed = 0 then (entry, false)
      else
        match strtok ' ' rest with
        | none => (entry, false)
        | some (_, rest) =>
            match strtok ' ' rest with
            | none => (entry, false)
            | some (token, _) =>
                ({ entry with symbol := storeName entry.symbol token }, true)

/-- The loop, on the entries from the index `i` on: it ends with the table, with the
file, or where a line fails to parse. -/
def parseEntries : List Symbol → List Char → List Symbol
  | [], _ => []
  | entry :: later, text =>
      match fgets lineSize text with
      | none => entry :: later
      | some (line, rest) =>
          let parsed := parseLine entry line
          if parsed.2 then parsed.1 :: parseEntries later rest else parsed.1 :: later

theorem length_parseEntries (entries : List Symbol) (text : List Char) :
    (parseEntries entries text).length = entries.length := by
  induction entries generalizing text with
  | nil => rfl
  | cons entry later ih =>
      rw [parseEntries]
      split
      next => rfl
      next line rest _ =>
        dsimp only
        split
        next => rw [List.length_cons, ih, List.length_cons]
        next => rfl

/-- The table after the loop. -/
def parseTable {capacity : Nat} (symbols : Fin capacity → Symbol) (text : List Char) :
    Fin capacity → Symbol :=
  fun i => (parseEntries (List.ofFn symbols) text).get
    (i.cast (by rw [length_parseEntries, List.length_ofFn]))

/-- Whether `kptr_restrict`, if it can be read, lets addresses be seen. -/
def kptrVisible (kptrRestrict : Option (List Char)) : Bool :=
  match kptrRestrict.bind (fgets lineSize) with
  | none => true
  | some (line, _) => (Int32.ofInt (strtol 0 line).value).toInt < 2

/-- `parse_kallsyms()`, given the content of the two files that can be opened. -/
def parseKallsyms {capacity : Nat} (qsort : Qsort Symbol)
    (kptrRestrict kallsyms : Option (List Char)) (table : SymbolTable capacity) : SymbolTable capacity :=
  if kptrVisible kptrRestrict then
    match kallsyms with
    | none => table
    | some text => sortKallsyms qsort (parseTable table.symbols text)
  else table

/-! ## One line -/

/-- The array of an unused entry after the two stores. -/
theorem storeName_zero (token : List Char) :
    storeName Symbol.zero.symbol token =
      (cstr token).take (symbolLen - 1) ++
        List.replicate (symbolLen - 1 - (cstr token).length) nul ++ ['0'] := by
  have hlen : ((cstr token).take (symbolLen - 1) ++
      List.replicate (symbolLen - 1 - (cstr token).length) nul).length = symbolLen - 1 := by
    rw [List.length_append, List.length_take, List.length_replicate]
    omega
  rw [storeName, strncpy, List.set_append_right _ _ (Nat.le_of_eq hlen), hlen, Nat.sub_self]
  rfl

theorem length_storeName_zero (token : List Char) :
    (storeName Symbol.zero.symbol token).length = symbolLen := by
  rw [storeName_zero, List.length_append, List.length_append, List.length_take,
    List.length_replicate, List.length_singleton]
  have hlen : 0 < symbolLen := by decide
  omega

theorem take_prefix_storeName_zero (token : List Char) :
    (cstr token).take (symbolLen - 1) <+: storeName Symbol.zero.symbol token := by
  rw [storeName_zero, List.append_assoc]
  exact List.prefix_append _ _

/-- The stores leave a NUL behind a name that is shorter than `SYMBOL_LEN - 1`, and
only behind such. -/
theorem nul_mem_storeName_zero (token : List Char) :
    nul ∈ storeName Symbol.zero.symbol token ↔ (cstr token).length < symbolLen - 1 := by
  have hname : nul ∉ (cstr token).take (symbolLen - 1) :=
    nul_notMem_take (nul_notMem_cstr token) _
  have hzero : nul ≠ '0' := by decide
  rw [storeName_zero, List.append_assoc, List.mem_append, List.mem_append, List.mem_replicate,
    List.mem_singleton]
  simp only [hname, hzero, and_true, or_false, false_or]
  omega

/-- Such a name is the string that is stored. -/
theorem cstr_storeName_zero {token : List Char} (hlen : (cstr token).length < symbolLen - 1) :
    cstr (storeName Symbol.zero.symbol token) = cstr token := by
  obtain ⟨gap, hgap⟩ := Nat.exists_eq_add_of_lt hlen
  have hpad : symbolLen - 1 - (cstr token).length = gap + 1 := by omega
  rw [storeName_zero, List.take_of_length_le (Nat.le_of_lt hlen), hpad, List.replicate_succ,
    List.append_assoc, List.cons_append]
  exact cstr_append_nul (nul_notMem_cstr token) _

/-- The entry of a complete line: three tokens, of which the first starts with a
hexadecimal number in range. -/
def lineEntry (line : List Char) : Option Symbol :=
  match tokens ' ' line with
  | address :: _ :: name :: _ =>
      let read := strtoul 16 address
      if read.erange = false ∧ 0 < read.consumed then
        some ⟨UInt64.ofNat read.value, storeName Symbol.zero.symbol name⟩
      else none
  | _ => none

/-- The address that a line without an entry leaves in the table. -/
def strayAddress (line : List Char) : UInt64 :=
  match tokens ' ' line with
  | [] => 0
  | address :: _ => UInt64.ofNat (strtoul 16 address).value

/-- An unused entry after the body of the loop. -/
theorem parseLine_zero (line : List Char) :
    parseLine .zero line =
      match lineEntry line with
      | some entry => (entry, true)
      | none => ({ Symbol.zero with address := strayAddress line }, false) := by
  rw [parseLine, lineEntry, strayAddress]
  cases hfirst : strtok ' ' line with
  | none =>
      rw [tokens_of_strtok_none hfirst]
      rfl
  | some first =>
      obtain ⟨address, afterAddress⟩ := first
      have hblanks : ∀ c ∈ (cstr line).takeWhile (fun c => c == ' '), c = ' ' := by
        intro c hc
        have hblank := List.mem_takeWhile_imp hc
        exact beq_iff_eq.mp hblank
      obtain ⟨hvalue, herange, hconsumed⟩ := strtoul_blanks hblanks 16 address
      simp only [tokens_of_strtok_some hfirst, hvalue, herange, hconsumed]
      cases hsecond : strtok ' ' afterAddress with
      | none => simp only [tokens_of_strtok_none hsecond, ite_self]
      | some second =>
          obtain ⟨type, afterType⟩ := second
          simp only [tokens_of_strtok_some hsecond]
          cases hthird : strtok ' ' afterType with
          | none => simp only [tokens_of_strtok_none hthird, ite_self]
          | some third =>
              simp only [tokens_of_strtok_some hthird]
              cases (strtoul 16 address).erange with
              | true => simp
              | false => by_cases hdigits : (strtoul 16 address).consumed = 0 <;>
                  simp [hdigits, Nat.pos_iff_ne_zero]

/-- The loop on unused entries, line by line. -/
theorem parseEntries_replicate_succ (count : Nat) {text : List Char} (htext : text ≠ []) :
    parseEntries (List.replicate (count + 1) .zero) text =
      match lineEntry (readUpTo (lineSize - 1) text).1 with
      | some entry =>
          entry :: parseEntries (List.replicate count .zero) (readUpTo (lineSize - 1) text).2
      | none =>
          { Symbol.zero with address := strayAddress (readUpTo (lineSize - 1) text).1 } ::
            List.replicate count .zero := by
  rw [List.replicate_succ, parseEntries, fgets, if_neg htext]
  simp only [parseLine_zero]
  cases lineEntry (readUpTo (lineSize - 1) text).1 <;> rfl

theorem parseEntries_nil (entries : List Symbol) : parseEntries entries [] = entries := by
  cases entries <;> rfl

end SchedAnalyzer
