import Mathlib.Data.List.Infix

/-! # The SQL `LIKE` operator

In a pattern `%` stands for any string and `_` for any one character; every
other character stands for itself, up to the case folding of the database.
-/

namespace Foundation.SqlLike

/-- Whether `LIKE` tells lower case from upper case. -/
inductive Collation
  | caseSensitive
  | asciiNoCase
  deriving DecidableEq, Repr

/-- The representative compared for a character. -/
def Collation.fold : Collation → Char → Char
  | .caseSensitive => id
  | .asciiNoCase => Char.toLower

/-- `text LIKE pattern`. -/
def like (collation : Collation) : List Char → List Char → Bool
  | [], text => text.isEmpty
  | '%' :: pattern, text => text.tails.any (like collation pattern)
  | '_' :: pattern, text =>
      match text with
      | [] => false
      | _ :: rest => like collation pattern rest
  | literal :: pattern, text =>
      match text with
      | [] => false
      | c :: rest => collation.fold literal == collation.fold c && like collation pattern rest

variable {collation : Collation}

theorem like_percent {pattern text : List Char} :
    like collation ('%' :: pattern) text = true ↔
      ∃ before rest, text = before ++ rest ∧ like collation pattern rest = true := by
  simp only [like, List.any_eq_true, List.mem_tails]
  constructor
  · rintro ⟨rest, ⟨before, rfl⟩, hmatch⟩
    exact ⟨before, rest, rfl, hmatch⟩
  · rintro ⟨before, rest, rfl, hmatch⟩
    exact ⟨rest, List.suffix_append before rest, hmatch⟩

theorem like_percent_append {pattern rest : List Char} (before : List Char)
    (hmatch : like collation pattern rest = true) :
    like collation ('%' :: pattern) (before ++ rest) = true :=
  like_percent.mpr ⟨before, rest, rfl, hmatch⟩

/-- No letter folds to a blank. -/
theorem Collation.fold_eq_blank (c : Char) (hfold : collation.fold c = ' ') : c = ' ' := by
  cases collation with
  | caseSensitive => exact hfold
  | asciiNoCase =>
      simp only [fold] at hfold
      unfold Char.toLower at hfold
      split at hfold
      next hupper =>
        obtain ⟨hlo, hhi⟩ := hupper
        have hval := congrArg (fun d : Char => d.val.toNat) hfold
        rw [ge_iff_le, UInt32.le_iff_toNat_le] at hlo
        rw [UInt32.le_iff_toNat_le] at hhi
        simp [UInt32.toNat_add] at hval hlo hhi
        omega
      next => exact hfold

theorem like_blank_cons {pattern rest : List Char} {c : Char} :
    like collation (' ' :: pattern) (c :: rest) = true ↔
      c = ' ' ∧ like collation pattern rest = true := by
  have hfold : collation.fold ' ' = ' ' := by cases collation <;> rfl
  have hunfold : like collation (' ' :: pattern) (c :: rest) =
      (collation.fold ' ' == collation.fold c && like collation pattern rest) := by
    rw [like] <;> decide
  rw [hunfold, hfold, Bool.and_eq_true, beq_iff_eq]
  constructor
  · rintro ⟨hblank, hmatch⟩
    exact ⟨Collation.fold_eq_blank c hblank.symm, hmatch⟩
  · rintro ⟨rfl, hmatch⟩
    exact ⟨hfold.symm, hmatch⟩

/-- In a text with a single blank, `% suffix` compares the suffix with what
follows the blank. -/
theorem like_after_blank {pattern before rest : List Char}
    (hbefore : ' ' ∉ before) (hrest : ' ' ∉ rest) :
    like collation ('%' :: ' ' :: pattern) (before ++ ' ' :: rest) =
      like collation pattern rest := by
  rw [Bool.eq_iff_iff, like_percent]
  constructor
  · rintro ⟨start, tail, heq, hmatch⟩
    cases tail with
    | nil => simp [like] at hmatch
    | cons c tail =>
        obtain ⟨rfl, htail⟩ := like_blank_cons.mp hmatch
        obtain ⟨-, -, rfl⟩ := (List.append_cons_inj_of_notMem hbefore hrest).mp heq
        exact htail
  · intro hmatch
    exact ⟨before, ' ' :: rest, rfl, like_blank_cons.mpr ⟨rfl, hmatch⟩⟩

end Foundation.SqlLike
