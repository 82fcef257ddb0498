import Mathlib.Data.List.Basic
import SchedAnalyzer.Foundation.Strtol

/-! # Strings as Python reads them

`str.split()` splits at whitespace and drops empty words; `str.rsplit(sep, 1)`
splits at the last separator; `int(text)` reads the decimal digits of every script.
-/

namespace Foundation.PyString

open Foundation.CString

/-- `str.isspace` on one character. -/
def isWhitespace (c : Char) : Bool :=
  let code := c.toNat
  (9 ≤ code && code ≤ 13) || (28 ≤ code && code ≤ 32) || code = 0x85 || code = 0xa0 ||
    code = 0x1680 || (0x2000 ≤ code && code ≤ 0x200a) || code = 0x2028 || code = 0x2029 ||
    code = 0x202f || code = 0x205f || code = 0x3000

/-- In printable ASCII only the blank is whitespace. -/
theorem isWhitespace_of_printable {c : Char} (hlow : 32 < c.toNat) (hhigh : c.toNat < 127) :
    isWhitespace c = false := by
  simp only [isWhitespace, Bool.or_eq_false_iff, Bool.and_eq_false_iff, decide_eq_false_iff_not]
  omega

theorem isWhitespace_of_isDigit {c : Char} (hdigit : c.isDigit = true) :
    isWhitespace c = false := by
  obtain ⟨hlow, hhigh⟩ := Char.isDigit_iff_toNat.mp hdigit
  apply isWhitespace_of_printable
  · exact Nat.lt_of_lt_of_le (by decide) hlow
  · exact Nat.lt_of_le_of_lt hhigh (by decide)

/-- `text.split()`. -/
def split (text : List Char) : List (List Char) :=
  (text.splitOnP isWhitespace).filter fun word => !word.isEmpty

/-- A word in front of whitespace is the first one. -/
theorem split_append_cons {word : List Char} (hne : word ≠ [])
    (hword : ∀ c ∈ word, isWhitespace c = false) {space : Char} (hspace : isWhitespace space = true)
    (rest : List Char) : split (word ++ space :: rest) = word :: split rest := by
  rw [split, List.splitOnP_append_cons_of_forall_mem hword space hspace, List.filter_cons_of_pos]
  · rfl
  · simpa using hne

/-- No part between separators holds one; the part that is read comes reversed. -/
theorem notMem_of_mem_splitOnPPrepend {α : Type*} {separator : α → Bool} {text read part : List α}
    (hread : ∀ item ∈ read, separator item = false)
    (hpart : part ∈ List.splitOnPPrepend separator text read) :
    ∀ item ∈ part, separator item = false := by
  induction text generalizing read with
  | nil =>
      rw [List.splitOnPPrepend_nil, List.mem_singleton] at hpart
      subst hpart
      exact fun item hitem => hread item (List.mem_reverse.mp hitem)
  | cons first rest ih =>
      rw [List.splitOnPPrepend_cons_eq_if] at hpart
      split at hpart
      next =>
        rcases List.mem_cons.mp hpart with rfl | hrest
        · exact fun item hitem => hread item (List.mem_reverse.mp hitem)
        · exact ih (fun item hitem => absurd hitem List.not_mem_nil) hrest
      next hfirst =>
        exact ih (List.forall_mem_cons.mpr ⟨Bool.eq_false_iff.mpr hfirst, hread⟩) hpart

/-- A word has no whitespace in it. -/
theorem isWhitespace_of_mem_split {text word : List Char} (hword : word ∈ split text) :
    ∀ c ∈ word, isWhitespace c = false :=
  notMem_of_mem_splitOnPPrepend (fun _ hc => absurd hc List.not_mem_nil)
    (List.mem_of_mem_filter hword)

/-- The parts in front of the last separator and after it. -/
def partitionLast (separator : Char) : List Char → Option (List Char × List Char)
  | [] => none
  | c :: rest =>
      match partitionLast separator rest with
      | some (head, tail) => some (c :: head, tail)
      | none => if c = separator then some ([], rest) else none

/-- `text.rsplit(separator, 1)`. -/
def rsplit (separator : Char) (text : List Char) : List (List Char) :=
  match partitionLast separator text with
  | some (head, tail) => [head, tail]
  | none => [text]

theorem partitionLast_eq_none {separator : Char} {text : List Char} (htext : separator ∉ text) :
    partitionLast separator text = none := by
  induction text with
  | nil => rfl
  | cons c rest ih =>
      obtain ⟨hc, hrest⟩ := not_or.mp (List.mem_cons.not.mp htext)
      rw [partitionLast, ih hrest]
      exact if_neg (Ne.symm hc)

theorem partitionLast_append_cons (head : List Char) {separator : Char} {tail : List Char}
    (htail : separator ∉ tail) :
    partitionLast separator (head ++ separator :: tail) = some (head, tail) := by
  induction head with
  | nil =>
      rw [List.nil_append, partitionLast, partitionLast_eq_none htail]
      exact if_pos rfl
  | cons c rest ih => rw [List.cons_append, partitionLast, ih]

theorem eq_of_partitionLast {separator : Char} {text head tail : List Char}
    (hparts : partitionLast separator text = some (head, tail)) :
    text = head ++ separator :: tail := by
  induction text generalizing head with
  | nil => cases hparts
  | cons c rest ih =>
      rw [partitionLast] at hparts
      split at hparts
      next hrest =>
        cases hparts
        rw [ih hrest, List.cons_append]
      next =>
        split at hparts
        next hc =>
          cases hparts
          rw [hc, List.nil_append]
        next => cases hparts

/-! ## Integers -/

/-- The zeros of the scripts, as of Unicode 15. The other digits of a script follow its zero. -/
def decimalZeros : List Nat :=
  [0x30, 0x660, 0x6f0, 0x7c0, 0x966, 0x9e6, 0xa66, 0xae6, 0xb66, 0xbe6, 0xc66, 0xce6, 0xd66,
    0xde6, 0xe50, 0xed0, 0xf20, 0x1040, 0x1090, 0x17e0, 0x1810, 0x1946, 0x19d0, 0x1a80, 0x1a90,
    0x1b50, 0x1bb0, 0x1c40, 0x1c50, 0xa620, 0xa8d0, 0xa900, 0xa9d0, 0xa9f0, 0xaa50, 0xabf0,
    0xff10, 0x104a0, 0x10d30, 0x11066, 0x110f0, 0x11136, 0x111d0, 0x112f0, 0x11450, 0x114d0,
    0x11650, 0x116c0, 0x11730, 0x118e0, 0x11950, 0x11c50, 0x11d50, 0x11da0, 0x11f50, 0x16a60,
    0x16ac0, 0x16b50, 0x1d7ce, 0x1d7d8, 0x1d7e2, 0x1d7ec, 0x1d7f6, 0x1e140, 0x1e2f0, 0x1e4d0,
    0x1e950, 0x1fbf0]

/-- The value of a decimal digit. -/
def decimalDigit (c : Char) : Option Nat :=
  (decimalZeros.find? fun first => first ≤ c.toNat ∧ c.toNat < first + 10).map (c.toNat - ·)

/-- The text behind a sign. -/
def dropPlus : List Char → List Char
  | '+' :: rest => rest
  | text => text

/-- `int(text)`, of a text without blanks around it and without a minus: groups of digits with
single underscores in between. -/
def pyInt (text : List Char) : Option Nat :=
  let body := dropPlus text
  if (body.splitOn '_').all fun group =>
      !group.isEmpty && group.all fun c => (decimalDigit c).isSome then
    some ((body.filterMap decimalDigit).foldl (fun number digit => 10 * number + digit) 0)
  else none

theorem decimalDigit_of_isDigit {c : Char} (hc : c.isDigit = true) :
    decimalDigit c = some (c.toNat - 48) := by
  obtain ⟨hlow, hhigh⟩ := isDigit_toNat hc
  rw [decimalDigit, decimalZeros, List.find?_cons_of_pos]
  · rfl
  · exact decide_eq_true ⟨hlow, Nat.lt_succ_of_le hhigh⟩

theorem dropPlus_of_notMem {text : List Char} (hplus : '+' ∉ text) : dropPlus text = text := by
  unfold dropPlus
  split
  next => exact absurd List.mem_cons_self hplus
  next => rfl

/-- The number that was printed is read back. -/
theorem pyInt_formatNat (number : Nat) : pyInt (formatNat number) = some number := by
  have hunder : ∀ c ∈ formatNat number, (c == '_') = false := by
    intro c hc
    apply beq_false_of_ne
    rintro rfl
    exact notMem_formatNat (by decide) hc
  have hsplit : (formatNat number).splitOn '_' = [formatNat number] := by
    rw [List.splitOn_eq_splitOnP, List.splitOnP_eq_singleton hunder]
  have hdigit : ∀ c ∈ formatNat number, decimalDigit c = some (c.toNat - 48) := fun c hc =>
    decimalDigit_of_isDigit (isDigit_of_mem_formatNat hc)
  have hall : ((formatNat number).all fun c => (decimalDigit c).isSome) = true := by
    apply List.all_eq_true.mpr
    intro c hc
    rw [hdigit c hc]
    rfl
  have hvalues : (formatNat number).filterMap decimalDigit =
      (formatNat number).map fun c => c.toNat - 48 := by
    rw [← List.filterMap_eq_map]
    exact List.filterMap_congr hdigit
  have hread : ((formatNat number).map fun c => c.toNat - 48).foldl
      (fun read digit => 10 * read + digit) 0 = number := by
    rw [List.foldl_map]
    exact Nat.ofDigitChars_ten_toDigits
  have hne : (formatNat number).isEmpty = false :=
    List.isEmpty_eq_false_iff.mpr (formatNat_ne_nil number)
  simp only [pyInt, dropPlus_of_notMem (notMem_formatNat (by decide) : '+' ∉ formatNat number),
    hsplit, hvalues, hread, List.all_cons, List.all_nil, hall, hne]
  rfl

/-- Digits of another script are read too. -/
example : pyInt "\u0661_2".toList = some 12 := by
  decide

end Foundation.PyString
