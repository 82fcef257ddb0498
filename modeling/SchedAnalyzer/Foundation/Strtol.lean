import SchedAnalyzer.Foundation.CString

/-! # `strtol` and `strtoul`

Blanks, a sign, a prefix that may choose the base, and the longest run of
digits in that base. Without digits nothing is consumed; a value outside `long`
or `unsigned long` is clamped and reported as a range error.
-/

namespace Foundation.CString

/-- `isspace` in the C locale. -/
def isSpace (c : Char) : Bool :=
  c == ' ' || (9 ≤ c.toNat && c.toNat ≤ 13)

/-- The value of a digit or letter. -/
def digitValue (c : Char) : Option Nat :=
  if c.isDigit then some (c.toNat - 48)
  else if c.isLower then some (c.toNat - 87)
  else if c.isUpper then some (c.toNat - 55)
  else none

/-- Whether a character is a digit of a base. -/
def isDigitIn (base : Nat) (c : Char) : Bool :=
  match digitValue c with
  | some value => value < base
  | none => false

/-- The number a run of digits denotes. -/
def digitsValue (base : Nat) (digits : List Char) : Nat :=
  digits.foldl (fun acc c => base * acc + (digitValue c).getD 0) 0

/-- A leading sign, and the text after it. -/
def splitSign : List Char → Bool × List Char
  | '-' :: rest => (true, rest)
  | '+' :: rest => (false, rest)
  | rest => (false, rest)

/-- The base in use and the text of the digits: base 0 is settled by a `0x` or
`0` in front, and a `0x` counts only before a hexadecimal digit. -/
def splitBase (base : Nat) (text : List Char) : Nat × List Char :=
  match text with
  | '0' :: x :: d :: rest =>
      if (base = 0 ∨ base = 16) ∧ (x = 'x' ∨ x = 'X') ∧ isDigitIn 16 d = true then
        (16, d :: rest)
      else (if base = 0 then 8 else base, text)
  | '0' :: _ => (if base = 0 then 8 else base, text)
  | _ => (if base = 0 then 10 else base, text)

/-- What `strtol` returns, whether it sets `errno` to `ERANGE`, and how many
characters its end pointer is past the start. -/
structure StrtolResult where
  value : Int
  erange : Bool
  consumed : Nat
  deriving DecidableEq, Repr

/-- `LONG_MIN` and `LONG_MAX`. -/
def longMin : Int := -2 ^ 63

def longMax : Int := 2 ^ 63 - 1

/-- `strtol(text, &end_ptr, base)`. -/
def strtol (base : Nat) (text : List Char) : StrtolResult :=
  let text := cstr text
  let (negative, unsigned) := splitSign (text.dropWhile isSpace)
  let (base, body) := splitBase base unsigned
  let digits := body.takeWhile (isDigitIn base)
  if digits.isEmpty then ⟨0, false, 0⟩
  else
    let magnitude : Int := digitsValue base digits
    let value := if negative then -magnitude else magnitude
    let consumed := text.length - body.length + digits.length
    if value < longMin then ⟨longMin, true, consumed⟩
    else if longMax < value then ⟨longMax, true, consumed⟩
    else ⟨value, false, consumed⟩

/-- The integer that the whole of a string denotes: digits in the range of `long`,
and nothing after them. -/
def wholeInteger (base : Nat) (text : List Char) : Option Int :=
  let read := strtol base text
  if read.erange = false ∧ 0 < read.consumed ∧ read.consumed = (cstr text).length then
    some read.value
  else none

/-- How a call ends: without digits, with a value cut to the range of `long`, or
with one inside it. -/
inductive StrtolEnds : StrtolResult → Prop
  | noDigits : StrtolEnds ⟨0, false, 0⟩
  | below {consumed : Nat} (hconsumed : 0 < consumed) : StrtolEnds ⟨longMin, true, consumed⟩
  | above {consumed : Nat} (hconsumed : 0 < consumed) : StrtolEnds ⟨longMax, true, consumed⟩
  | inRange {value : Int} {consumed : Nat} (hconsumed : 0 < consumed) (hlo : longMin ≤ value)
      (hhi : value ≤ longMax) : StrtolEnds ⟨value, false, consumed⟩

theorem strtol_ends (base : Nat) (text : List Char) : StrtolEnds (strtol base text) := by
  simp only [strtol]
  generalize splitBase base (splitSign ((cstr text).dropWhile isSpace)).2 = digits
  generalize (splitSign ((cstr text).dropWhile isSpace)).1 = negative
  generalize (if negative then _ else _ : Int) = value
  split
  next => exact .noDigits
  next hdigits =>
    have hlen : 0 < (digits.2.takeWhile (isDigitIn digits.1)).length :=
      List.length_pos_iff.mpr fun hnil => hdigits (List.isEmpty_iff.mpr hnil)
    have hconsumed := Nat.lt_of_lt_of_le hlen
      (Nat.le_add_left _ ((cstr text).length - digits.2.length))
    split
    next => exact .below hconsumed
    next hlo =>
      split
      next => exact .above hconsumed
      next hhi => exact .inRange hconsumed (Int.not_lt.mp hlo) (Int.not_lt.mp hhi)

theorem wholeInteger_eq_some_iff {base : Nat} {text : List Char} {value : Int} {consumed : Nat}
    (hread : strtol base text = ⟨value, false, consumed⟩) (hconsumed : 0 < consumed)
    (number : Int) :
    wholeInteger base text = some number ↔ consumed = (cstr text).length ∧ value = number := by
  simp only [wholeInteger, hread, hconsumed, true_and, Option.ite_none_right_eq_some,
    Option.some.injEq]

/-! ## Decimal numerals are read back -/

theorem digitValue_of_isDigit {c : Char} (hc : c.isDigit = true) :
    digitValue c = some (c.toNat - 48) := by
  rw [digitValue, if_pos hc]

theorem isDigit_toNat {c : Char} (hc : c.isDigit = true) : 48 ≤ c.toNat ∧ c.toNat ≤ 57 := by
  simp only [Char.isDigit, ge_iff_le, Bool.and_eq_true, decide_eq_true_eq] at hc
  exact ⟨UInt32.le_iff_toNat_le.mp hc.1, UInt32.le_iff_toNat_le.mp hc.2⟩

theorem isDigitIn_ten {c : Char} (hc : c.isDigit = true) : isDigitIn 10 c = true := by
  have hbound := isDigit_toNat hc
  simp only [isDigitIn, digitValue_of_isDigit hc, decide_eq_true_eq]
  omega

theorem digitsValue_eq_ofDigitChars {digits : List Char} (hdigits : ∀ c ∈ digits, c.isDigit)
    (init : Nat) :
    digits.foldl (fun acc c => 10 * acc + (digitValue c).getD 0) init =
      Nat.ofDigitChars 10 digits init := by
  induction digits generalizing init with
  | nil => rfl
  | cons c rest ih =>
      rw [List.foldl_cons, Nat.ofDigitChars_cons,
        digitValue_of_isDigit (hdigits c List.mem_cons_self)]
      exact ih (fun d hd => hdigits d (List.mem_cons_of_mem c hd)) _

theorem digitsValue_formatNat (n : Nat) : digitsValue 10 (formatNat n) = n := by
  rw [digitsValue, digitsValue_eq_ofDigitChars fun c hc => isDigit_of_mem_formatNat hc]
  exact Nat.ofDigitChars_ten_toDigits

/-- A positive numeral does not start with a zero. -/
theorem formatNat_eq_cons {n : Nat} (hpos : 0 < n) :
    ∃ lead rest, formatNat n = lead :: rest ∧ lead.isDigit = true ∧ lead ≠ '0' := by
  induction n using Nat.strongRecOn with
  | ind n ih =>
      by_cases hsmall : n < 10
      · refine ⟨n.digitChar, [], Nat.toDigits_of_lt_base hsmall, ?_, ?_⟩
        · simpa using hsmall
        · simpa using Nat.pos_iff_ne_zero.mp hpos
      · obtain ⟨lead, rest, heq, hdigit, hzero⟩ := ih (n / 10) (by omega) (by omega)
        refine ⟨lead, rest ++ [(n % 10).digitChar], ?_, hdigit, hzero⟩
        have hsplit : formatNat n = formatNat (n / 10) ++ [(n % 10).digitChar] :=
          Nat.toDigits_of_base_le (by decide) (by omega)
        rw [hsplit, heq, List.cons_append]

/-- A decimal numeral is read in base ten, down to its last digit; zero, which
base 0 takes for octal, has the same value there. -/
theorem splitBase_formatNat (n : Nat) :
    ∃ base, splitBase 0 (formatNat n) = (base, formatNat n) ∧
      (formatNat n).takeWhile (isDigitIn base) = formatNat n ∧
      digitsValue base (formatNat n) = n := by
  by_cases hzero : n = 0
  · -- A lone `0` is an octal numeral.
    subst hzero
    exact ⟨8, by decide, by decide, by decide⟩
  · refine ⟨10, ?_, ?_, digitsValue_formatNat n⟩
    · obtain ⟨lead, rest, heq, -, hlead⟩ := formatNat_eq_cons (Nat.pos_of_ne_zero hzero)
      rw [heq]
      unfold splitBase
      split
      next hcons => exact absurd (List.cons.inj hcons).1 hlead
      next hcons => exact absurd (List.cons.inj hcons).1 hlead
      next => rfl
    · rw [List.takeWhile_eq_self_iff]
      intro c hc
      exact isDigitIn_ten (isDigit_of_mem_formatNat hc)

/-- Digits and letters come after the blanks and signs. -/
theorem toNat_of_isDigitIn {base : Nat} {c : Char} (hc : isDigitIn base c = true) :
    48 ≤ c.toNat := by
  unfold isDigitIn digitValue at hc
  split at hc
  next value hvalue =>
    split at hvalue
    next hdigit => exact (isDigit_toNat hdigit).1
    next =>
      split at hvalue
      next hlower =>
        obtain ⟨hlow, -⟩ := Bool.and_eq_true_iff.mp hlower
        have hletter : 'a'.val ≤ c.val := of_decide_eq_true hlow
        exact Nat.le_trans (by decide) (UInt32.le_iff_toNat_le.mp hletter)
      next =>
        split at hvalue
        next hupper =>
          have hletter : 'A'.val ≤ c.val := (of_decide_eq_true hupper).1
          exact Nat.le_trans (by decide) (UInt32.le_iff_toNat_le.mp hletter)
        next => cases hvalue
  next => cases hc

theorem isSpace_of_isDigitIn {base : Nat} {c : Char} (hc : isDigitIn base c = true) :
    isSpace c = false := by
  have hlow := toNat_of_isDigitIn hc
  have hblank : c ≠ ' ' := by
    rintro rfl
    exact absurd hlow (by decide)
  simp only [isSpace, beq_eq_false_iff_ne.mpr hblank, Bool.false_or, Bool.and_eq_false_iff,
    decide_eq_false_iff_not]
  omega

theorem splitSign_of_digits {base : Nat} {digits : List Char}
    (hdigits : ∀ c ∈ digits, isDigitIn base c = true) : splitSign digits = (false, digits) := by
  unfold splitSign
  split
  next => exact absurd (toNat_of_isDigitIn (hdigits '-' List.mem_cons_self)) (by decide)
  next => exact absurd (toNat_of_isDigitIn (hdigits '+' List.mem_cons_self)) (by decide)
  next => rfl

theorem nul_notMem_formatInt (i : Int) : nul ∉ formatInt i :=
  notMem_formatInt (by decide) (by decide)

/-- Skipping blanks and the sign of a numeral leaves its digits. -/
theorem splitSign_formatInt (i : Int) :
    splitSign ((formatInt i).dropWhile isSpace) = (decide (i < 0), formatNat i.natAbs) := by
  cases i with
  | ofNat n =>
      have hdigits : ∀ c ∈ formatNat n, isDigitIn 10 c = true := fun c hc =>
        isDigitIn_ten (isDigit_of_mem_formatNat hc)
      have hdrop : (formatNat n).dropWhile isSpace = formatNat n := by
        obtain ⟨lead, rest, heq⟩ := List.exists_cons_of_ne_nil (formatNat_ne_nil n)
        rw [heq] at hdigits ⊢
        rw [List.dropWhile_cons, isSpace_of_isDigitIn (hdigits lead List.mem_cons_self)]
        rfl
      change splitSign ((formatNat n).dropWhile isSpace) = (decide (Int.ofNat n < 0), formatNat n)
      rw [hdrop, splitSign_of_digits hdigits, decide_eq_false]
      exact Int.not_lt.mpr (Int.natCast_nonneg n)
  | negSucc n =>
      have hdigits : formatInt (Int.negSucc n) = '-' :: formatNat (n + 1) := rfl
      rw [hdigits, List.dropWhile_cons_of_neg (by decide)]
      simp [splitSign, Int.negSucc_lt_zero]

/-- `strtol` with base 0 reads back the decimal numeral of every `long`, to its
end and without a range error. -/
theorem strtol_formatInt {i : Int} (hlo : longMin ≤ i) (hhi : i ≤ longMax) :
    strtol 0 (formatInt i) = ⟨i, false, (formatInt i).length⟩ := by
  obtain ⟨base, hsplit, hall, hvalue⟩ := splitBase_formatNat i.natAbs
  have hlen : (formatNat i.natAbs).length ≤ (formatInt i).length := by
    cases i with
    | ofNat n => exact Nat.le_refl _
    | negSucc n => exact Nat.le_succ _
  have hmagnitude : (if decide (i < 0) = true then -(i.natAbs : Int) else i.natAbs) = i := by
    simp only [decide_eq_true_eq]
    split <;> omega
  have hnonempty : (formatNat i.natAbs).isEmpty = false := by
    rw [List.isEmpty_eq_false_iff]
    exact formatNat_ne_nil _
  unfold strtol
  simp only [cstr_of_notMem (nul_notMem_formatInt i), splitSign_formatInt, hsplit, hall,
    hvalue, hnonempty, hmagnitude, Bool.false_eq_true, if_false, if_neg (Int.not_lt.mpr hlo),
    if_neg (Int.not_lt.mpr hhi), StrtolResult.mk.injEq, true_and]
  omega

/-! ## `strtoul` -/

/-- The same of `strtoul`. -/
structure StrtoulResult where
  value : Nat
  erange : Bool
  consumed : Nat
  deriving DecidableEq, Repr

/-- `ULONG_MAX`. -/
def ulongMax : Nat := 2 ^ 64 - 1

/-- `strtoul(text, &end_ptr, base)`; a minus negates in `unsigned long`. -/
def strtoul (base : Nat) (text : List Char) : StrtoulResult :=
  let text := cstr text
  let (negative, unsigned) := splitSign (text.dropWhile isSpace)
  let (base, body) := splitBase base unsigned
  let digits := body.takeWhile (isDigitIn base)
  if digits.isEmpty then ⟨0, false, 0⟩
  else
    let magnitude := digitsValue base digits
    let consumed := text.length - body.length + digits.length
    if ulongMax < magnitude then ⟨ulongMax, true, consumed⟩
    else ⟨if negative then (2 ^ 64 - magnitude) % 2 ^ 64 else magnitude, false, consumed⟩

theorem strtoul_value_le (base : Nat) (text : List Char) :
    (strtoul base text).value ≤ ulongMax := by
  simp only [strtoul]
  split
  next => exact Nat.zero_le _
  next =>
    split
    next => exact Nat.le_refl _
    next hrange =>
      dsimp only
      split
      next => exact Nat.le_sub_one_of_lt (Nat.mod_lt _ (by decide))
      next => exact Nat.le_of_not_lt hrange

/-- Blanks in front only move the end pointer, and not off the start. -/
theorem strtoul_blanks {blanks : List Char} (hblanks : ∀ c ∈ blanks, c = ' ') (base : Nat)
    (text : List Char) :
    (strtoul base (blanks ++ text)).value = (strtoul base text).value ∧
      (strtoul base (blanks ++ text)).erange = (strtoul base text).erange ∧
        ((strtoul base (blanks ++ text)).consumed = 0 ↔ (strtoul base text).consumed = 0) := by
  have hcstr : cstr (blanks ++ text) = blanks ++ cstr text := by
    rw [cstr, List.takeWhile_append_of_pos, cstr]
    intro c hc
    rw [hblanks c hc]
    rfl
  have hdrop : (blanks ++ cstr text).dropWhile isSpace = (cstr text).dropWhile isSpace := by
    apply List.dropWhile_append_of_pos
    intro c hc
    rw [hblanks c hc]
    rfl
  simp only [strtoul, hcstr, hdrop]
  generalize splitBase base (splitSign ((cstr text).dropWhile isSpace)).2 = digits
  split
  next => exact ⟨rfl, rfl, Iff.rfl⟩
  next hdigits =>
    have hlen : 0 < (digits.2.takeWhile (isDigitIn digits.1)).length :=
      List.length_pos_iff.mpr fun hnil => hdigits (List.isEmpty_iff.mpr hnil)
    have hconsumed (skipped : Nat) :
        skipped + (digits.2.takeWhile (isDigitIn digits.1)).length ≠ 0 := by omega
    split
    next => exact ⟨rfl, rfl, iff_of_false (hconsumed _) (hconsumed _)⟩
    next => exact ⟨rfl, rfl, iff_of_false (hconsumed _) (hconsumed _)⟩

/-- A character that is no digit of a base is none of its numerals. -/
theorem notMem_of_isDigitIn {base : Nat} {digits : List Char} {c : Char}
    (hdigits : ∀ d ∈ digits, isDigitIn base d = true) (hc : isDigitIn base c = false) :
    c ∉ digits := by
  intro hmem
  exact absurd (hdigits c hmem) (Bool.eq_false_iff.mp hc)

theorem digitsValue_lt {base : Nat} {digits : List Char}
    (hdigits : ∀ c ∈ digits, isDigitIn base c = true) :
    digitsValue base digits < base ^ digits.length := by
  have hfold : ∀ init, digits.foldl (fun acc c => base * acc + (digitValue c).getD 0) init <
      (init + 1) * base ^ digits.length := by
    induction digits with
    | nil => exact fun init => by simp
    | cons c rest ih =>
        intro init
        have hdigit : (digitValue c).getD 0 < base := by
          have hc := hdigits c List.mem_cons_self
          unfold isDigitIn at hc
          split at hc
          next value hvalue =>
            rw [hvalue]
            exact of_decide_eq_true hc
          next => cases hc
        have hrest := ih (fun d hd => hdigits d (List.mem_cons_of_mem c hd))
          (base * init + (digitValue c).getD 0)
        rw [List.foldl_cons, List.length_cons, Nat.pow_succ']
        refine Nat.lt_of_lt_of_le hrest ?_
        rw [← Nat.mul_assoc]
        apply Nat.mul_le_mul_right
        rw [Nat.add_mul, Nat.mul_comm init, Nat.one_mul]
        omega
  simpa [digitsValue] using hfold 0

/-- Hexadecimal digits have no prefix of a base. -/
theorem splitBase_of_digits {digits : List Char} (hdigits : ∀ c ∈ digits, isDigitIn 16 c = true) :
    splitBase 16 digits = (16, digits) := by
  have hx : 'x' ∉ digits := notMem_of_isDigitIn hdigits (by decide)
  have hX : 'X' ∉ digits := notMem_of_isDigitIn hdigits (by decide)
  unfold splitBase
  split
  next x d rest =>
    have hno : ¬ (x = 'x' ∨ x = 'X') := by
      rintro (rfl | rfl)
      · exact hx (by simp)
      · exact hX (by simp)
    rw [if_neg fun hall => hno hall.2.1]
    rfl
  next => rfl
  next => rfl

/-- Sixteen hexadecimal digits at most are read to their end and in range. -/
theorem strtoul_hexadecimal {digits : List Char} (hne : digits ≠ [])
    (hdigits : ∀ c ∈ digits, isDigitIn 16 c = true) (hlen : digits.length ≤ 16) :
    strtoul 16 digits = ⟨digitsValue 16 digits, false, digits.length⟩ := by
  have hcstr : cstr digits = digits := cstr_of_notMem (notMem_of_isDigitIn hdigits (by decide))
  have hdrop : digits.dropWhile isSpace = digits := by
    obtain ⟨lead, rest, rfl⟩ := List.exists_cons_of_ne_nil hne
    rw [List.dropWhile_cons, isSpace_of_isDigitIn (hdigits lead List.mem_cons_self)]
    rfl
  have hall : digits.takeWhile (isDigitIn 16) = digits :=
    List.takeWhile_eq_self_iff.mpr hdigits
  have hrange : ¬ ulongMax < digitsValue 16 digits := by
    have hlt := digitsValue_lt hdigits
    have hpow := Nat.pow_le_pow_right (show 0 < 16 by decide) hlen
    unfold ulongMax
    omega
  simp only [strtoul, hcstr, hdrop, splitSign_of_digits hdigits, splitBase_of_digits hdigits, hall,
    List.isEmpty_eq_false_iff.mpr hne, if_neg hrange, Bool.false_eq_true, if_false, Nat.sub_self,
    Nat.zero_add]

end Foundation.CString
