import Mathlib.Computability.RegularExpressions
import Mathlib.Data.List.Infix

/-! # Searching a text for a pattern

A pattern is a text that an engine reads as a regular expression. Engines differ in
the syntax they know; text without special characters is found as it stands by all.
-/

namespace Foundation.Regex

/-! ## Searching -/

section Search

variable {α : Type*} [DecidableEq α]

/-- Something in front of the text is matched. -/
def matchesFront : RegularExpression α → List α → Bool
  | P, [] => P.matchEpsilon
  | P, a :: rest => P.matchEpsilon || matchesFront (P.deriv a) rest

theorem matchesFront_iff {P : RegularExpression α} {text : List α} :
    matchesFront P text = true ↔ ∃ piece, piece <+: text ∧ P.rmatch piece = true := by
  induction text generalizing P with
  | nil =>
      simp only [List.prefix_nil, exists_eq_left]
      rfl
  | cons a rest ih =>
      rw [matchesFront, Bool.or_eq_true, ih]
      constructor
      · rintro (hempty | ⟨piece, hpiece, hmatch⟩)
        · exact ⟨[], List.nil_prefix, hempty⟩
        · exact ⟨a :: piece, List.cons_prefix_cons.mpr ⟨rfl, hpiece⟩, hmatch⟩
      · rintro ⟨piece, hpiece, hmatch⟩
        cases piece with
        | nil => exact Or.inl hmatch
        | cons b piece =>
            obtain ⟨rfl, hrest⟩ := List.cons_prefix_cons.mp hpiece
            exact Or.inr ⟨piece, hrest, hmatch⟩

/-- Something in the text is matched. -/
def search (P : RegularExpression α) (text : List α) : Bool :=
  text.tails.any (matchesFront P)

theorem search_iff {P : RegularExpression α} {text : List α} :
    search P text = true ↔ ∃ piece, piece <:+: text ∧ P.rmatch piece = true := by
  simp only [search, List.any_eq_true, List.mem_tails, matchesFront_iff,
    List.infix_iff_prefix_suffix]
  constructor
  · rintro ⟨rest, hrest, piece, hpiece, hmatch⟩
    exact ⟨piece, ⟨rest, hpiece, hrest⟩, hmatch⟩
  · rintro ⟨piece, ⟨rest, hpiece, hrest⟩, hmatch⟩
    exact ⟨rest, hrest, piece, hpiece, hmatch⟩

/-- A text that is all that a pattern matches is searched as it stands. -/
theorem search_eq_decide {P : RegularExpression α} {word : List α} (hword : P.matches' = {word})
    (text : List α) : search P text = decide (word <:+: text) := by
  rw [Bool.eq_iff_iff, search_iff, decide_eq_true_eq]
  simp only [RegularExpression.rmatch_iff_matches', hword]
  constructor
  · rintro ⟨piece, hpiece, rfl⟩
    exact hpiece
  · intro hpart
    exact ⟨word, hpart, rfl⟩

end Search

/-! ## Engines -/

/-- The characters with a meaning of their own. -/
def special : List Char :=
  ['.', '^', '$', '*', '+', '?', '\x7b', '\x7d', '[', ']', '\\', '|', '(', ')']

/-- Every character stands for itself. -/
def IsLiteral (pattern : List Char) : Prop :=
  ∀ c ∈ pattern, c ∉ special

instance decidableIsLiteral (pattern : List Char) : Decidable (IsLiteral pattern) :=
  List.decidableBAll _ pattern

/-- A pattern is refused, or compiled to a search. Literal patterns are found where
they occur. -/
structure Engine where
  compile : List Char → Option (List Char → Bool)
  literal : ∀ pattern, IsLiteral pattern →
    compile pattern = some fun text => decide (pattern <:+: text)

/-! ## The syntax that engines share -/

/-- What is read of a group: the alternatives in front, the sequence so far, and its
last item while it can still be repeated. -/
structure Level where
  before : RegularExpression Char
  done : RegularExpression Char
  last : Option (RegularExpression Char)

namespace Level

def start : Level :=
  ⟨0, 1, none⟩

variable (level : Level)

def sequence : RegularExpression Char :=
  level.done * level.last.getD 1

def close : RegularExpression Char :=
  level.before + level.sequence

def push (item : RegularExpression Char) : Level :=
  ⟨level.before, level.sequence, some item⟩

/-- There must be something to repeat, and not repeated already. -/
def repeatLast (f : RegularExpression Char → RegularExpression Char) : Option Level :=
  level.last.map fun item => ⟨level.before, level.done * f item, none⟩

end Level

/-- One character of a pattern made of characters, groups, alternatives, `*`, `+`
and `?`. The groups that are open wait outside. -/
def readChar (state : Level × List Level) (c : Char) : Option (Level × List Level) :=
  let (level, outer) := state
  if c = '(' then some (.start, level :: outer)
  else if c = ')' then
    match outer with
    | [] => none
    | enclosing :: outer => some (enclosing.push level.close, outer)
  else if c = '|' then some (⟨level.close, 1, none⟩, outer)
  else if c = '*' then (level.repeatLast fun item => item.star).map fun level => (level, outer)
  else if c = '+' then
    (level.repeatLast fun item => item * item.star).map fun level => (level, outer)
  else if c = '?' then (level.repeatLast fun item => item + 1).map fun level => (level, outer)
  else if c ∈ special then none
  else some (level.push (.char c), outer)

/-- A whole pattern. -/
def read (pattern : List Char) : Option (RegularExpression Char) :=
  (pattern.foldlM readChar (.start, [])).bind fun (level, outer) =>
    if outer.isEmpty then some level.close else none

theorem readChar_of_notMem {c : Char} (hc : c ∉ special) (state : Level × List Level) :
    readChar state c = some (state.1.push (.char c), state.2) := by
  have hne : ∀ other ∈ special, c ≠ other := fun other hother heq => hc (heq ▸ hother)
  obtain ⟨level, outer⟩ := state
  simp only [readChar, hne _ (show '(' ∈ special by decide), hne _ (show ')' ∈ special by decide),
    hne _ (show '|' ∈ special by decide), hne _ (show '*' ∈ special by decide),
    hne _ (show '+' ∈ special by decide), hne _ (show '?' ∈ special by decide), hc, if_false]

/-- A literal pattern goes on spelling what is in front of it. -/
theorem foldlM_readChar {pattern : List Char} (hpattern : IsLiteral pattern) {level : Level}
    {word : List Char} (hword : level.sequence.matches' = {word}) (outer : List Level) :
    ∃ last : Level, pattern.foldlM readChar (level, outer) = some (last, outer) ∧
      last.before = level.before ∧ last.sequence.matches' = {word ++ pattern} := by
  induction pattern generalizing level word with
  | nil => exact ⟨level, rfl, rfl, by rw [List.append_nil, hword]⟩
  | cons c rest ih =>
      obtain ⟨hc, hrest⟩ := List.forall_mem_cons.mp hpattern
      have hpush : (level.push (.char c)).sequence.matches' = {word ++ [c]} := by
        change (level.sequence * RegularExpression.char c).matches' = _
        rw [RegularExpression.matches'_mul, hword, RegularExpression.matches'_char,
          Language.mul_def]
        exact Set.image2_singleton
      obtain ⟨last, hread, hbefore, hspells⟩ := ih hrest hpush
      refine ⟨last, ?_, hbefore, ?_⟩
      · rw [List.foldlM_cons, readChar_of_notMem hc]
        exact hread
      · rw [hspells, List.append_assoc]
        rfl

/-- A literal pattern matches itself only. -/
theorem read_of_isLiteral {pattern : List Char} (hpattern : IsLiteral pattern) :
    ∃ P, read pattern = some P ∧ P.matches' = {pattern} := by
  have hstart : Level.start.sequence.matches' = {[]} := by
    change (1 * 1 : RegularExpression Char).matches' = _
    rw [RegularExpression.matches'_mul, RegularExpression.matches'_epsilon, mul_one]
    rfl
  obtain ⟨last, hread, hbefore, hspells⟩ := foldlM_readChar hpattern hstart []
  refine ⟨last.close, ?_, ?_⟩
  · rw [read, hread]
    rfl
  · rw [Level.close, hbefore, RegularExpression.matches'_add, hspells]
    exact zero_add _

/-- The engine of this syntax. It refuses patterns that need more. -/
def Engine.basic : Engine where
  compile pattern := (read pattern).map search
  literal pattern hpattern := by
    obtain ⟨P, hread, hspells⟩ := read_of_isLiteral hpattern
    rw [hread, Option.map_some]
    apply congrArg some
    funext text
    exact search_eq_decide hspells text

/-- `+` repeats the letter in front of it, which the pattern itself does not. -/
example : (Engine.basic.compile "a+b".toList).map (fun found => found "a+b".toList) =
    some false := by decide

end Foundation.Regex
