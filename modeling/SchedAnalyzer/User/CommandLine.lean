import SchedAnalyzer.User.OptionArrays

/-! # What a command line leaves in the arrays

Six options collect their arguments in arrays of the same length. The arrays of
`--pid` and `--comm` stop growing when they are full. A store past one of the
other four ends the run.
-/

namespace SchedAnalyzer

open Foundation.CString Foundation.Lists

/-! ## Options -/

/-- An option of a command line on which every pid is a decimal number. -/
inductive CliOption
  | pid (value : Int32)
  | comm (text : List Char)
  | other (key : OptKey) (arg : List Char) (hpid : key ≠ .filterPid) (hcomm : key ≠ .filterComm)

namespace CliOption

/-- The option as `parse_arg` gets it. -/
def toArg : CliOption → OptKey × List Char
  | pid value => (.filterPid, formatInt value.toInt)
  | comm text => (.filterComm, text)
  | other key arg _ _ => (key, arg)

/-- The pid that is asked for. -/
def pid? : CliOption → Option Int32
  | pid value => some value
  | _ => none

/-- The comm that is asked for. -/
def comm? : CliOption → Option (List Char)
  | comm text => some text
  | _ => none

/-- The array that the option is stored to without a check. -/
def array? : CliOption → Option UncheckedArray
  | other .ftraceEvent _ _ _ => some .ftraceEvent
  | other .atraceCat _ _ _ => some .atraceCat
  | other .functionGraph _ _ _ => some .functionGraph
  | other .functionFilter _ _ _ => some .functionFilter
  | _ => none

/-- Whether the option is one that `parse_arg` rejects. -/
def refused : CliOption → Bool
  | other .maxSize arg _ _ => (strtol 0 arg).erange || (strtol 0 arg).consumed == 0
  | other .argpKeyArg _ _ _ => true
  | other .unknown _ _ _ => true
  | _ => false

end CliOption

/-- All that `parse_arg` can do with an option. -/
inductive ParsesArg (opts : SaOpts) (option : CliOption) : ParseResult → Prop
  | accepted {next : SaOpts} {message : List Char}
      (haccepted : option.refused = false)
      (hpid : next.pid = (opts.pid ++ option.pid?.toList).take maxFiltersNum)
      (hcomm : next.comm = (opts.comm ++ option.comm?.toList.map commEntry).take maxFiltersNum)
      (hlength : ∀ array, (next.unchecked array).length =
        (opts.unchecked array).length + if option.array? = some array then 1 else 0)
      (hwithin : next.WithinArrays) :
      ParsesArg opts option (.accepted next message)
  | rejected {left : SaOpts} {error : ArgError} {message : List Char}
      (hrefused : option.refused = true) :
      ParsesArg opts option (.rejected left error message)
  | outOfBounds {array : UncheckedArray}
      (haccepted : option.refused = false)
      (harray : option.array? = some array)
      (hfull : (opts.unchecked array).length = maxFiltersNum) :
      ParsesArg opts option .outOfBounds

variable {opts : SaOpts}

theorem strtol_formatInt_toInt (value : Int32) : strtol 0 (formatInt value.toInt) =
    ⟨value.toInt, false, (formatInt value.toInt).length⟩ :=
  strtol_formatInt (Int.le_trans (by decide) value.le_toInt)
    (Int.le_trans (Int.le_of_lt value.toInt_lt) (by decide))

namespace CliOption

/-- A decimal number is no pid to reject. -/
theorem refuses_toArg (pids : Nat) (option : CliOption) :
    refuses pids option.toArg.1 option.toArg.2 = option.refused := by
  cases option with
  | pid value => simp [toArg, refuses, refused, strtol_formatInt_toInt, formatInt_ne_nil]
  | comm text => rfl
  | other key arg hpid hcomm =>
      cases key
      case filterPid => exact absurd rfl hpid
      all_goals rfl

theorem argFor_filterPid_toArg (option : CliOption) :
    (argFor .filterPid option.toArg.1 option.toArg.2).map pidEntry = option.pid?.toList := by
  cases option with
  | pid value =>
      simp [toArg, argFor_self, pidEntry, pid?, strtol_formatInt_toInt]
  | comm text => rfl
  | other key arg hpid hcomm => simp [toArg, argFor_of_ne hpid, pid?]

theorem argFor_filterComm_toArg (option : CliOption) :
    argFor .filterComm option.toArg.1 option.toArg.2 = option.comm?.toList := by
  cases option with
  | pid value => rfl
  | comm text => rfl
  | other key arg hpid hcomm => simp [toArg, argFor_of_ne hcomm, comm?]

theorem length_argFor_toArg (option : CliOption) (array : UncheckedArray) :
    (argFor array.key option.toArg.1 option.toArg.2).length =
      if option.array? = some array then 1 else 0 := by
  cases option with
  | pid value => cases array <;> rfl
  | comm text => cases array <;> rfl
  | other key arg hpid hcomm => cases key <;> cases array <;> rfl

/-- The option of an array is never rejected. -/
theorem array?_of_key {option : CliOption} {array : UncheckedArray}
    (hkey : array.key = option.toArg.1) : option.array? = some array := by
  have hone := length_argFor_toArg option array
  rw [← hkey, argFor_self] at hone
  by_contra hnone
  rw [if_neg hnone] at hone
  exact Nat.one_ne_zero hone

end CliOption

/-- What `parse_arg` does with any option. -/
theorem parsesArg (hwithin : opts.WithinArrays) (option : CliOption) :
    ParsesArg opts option (parseArg opts option.toArg.1 option.toArg.2) := by
  have hstep := stepsArg hwithin option.toArg.1 option.toArg.2
  generalize parseArg opts option.toArg.1 option.toArg.2 = result at hstep
  cases hstep with
  | accepted haccepted hstores _ =>
      rw [option.refuses_toArg] at haccepted
      refine .accepted haccepted ?_ ?_ ?_ hstores.within
      · rw [hstores.pid, option.argFor_filterPid_toArg]
      · rw [hstores.comm, option.argFor_filterComm_toArg]
      · intro array
        rw [hstores.unchecked, List.length_append, option.length_argFor_toArg]
  | rejected hrefused _ _ => exact .rejected (option.refuses_toArg _ ▸ hrefused)
  | outOfBounds haccepted hkey hfull =>
      rw [option.refuses_toArg] at haccepted
      exact .outOfBounds haccepted (CliOption.array?_of_key hkey) hfull

/-! ## The whole command line -/

/-- The pids a command line asks for. -/
def pids (line : List CliOption) : List Int32 :=
  line.filterMap CliOption.pid?

/-- The comms a command line asks for. -/
def comms (line : List CliOption) : List (List Char) :=
  line.filterMap CliOption.comm?

/-- How many options are stored to an array, up to the first that is rejected. -/
def storeCount (line : List CliOption) (array : UncheckedArray) : Nat :=
  (line.takeWhile fun option => !option.refused).countP fun option =>
    option.array? = some array

/-- No option is stored past its array. -/
def FitsArrays (line : List CliOption) : Prop :=
  ∀ array, storeCount line array ≤ maxFiltersNum

/-- Likewise, when the arrays are in use already. -/
def FitsAfter (opts : SaOpts) (line : List CliOption) : Prop :=
  ∀ array, (opts.unchecked array).length + storeCount line array ≤ maxFiltersNum

theorem fitsAfter_initial_iff (line : List CliOption) :
    FitsAfter .initial line ↔ FitsArrays line := by
  have hempty : ∀ array, (SaOpts.initial.unchecked array).length = 0 := by
    intro array
    cases array <;> rfl
  simp only [FitsAfter, FitsArrays, hempty, Nat.zero_add]

theorem storeCount_cons_of_refused {option : CliOption} (hrefused : option.refused = true)
    (rest : List CliOption) (array : UncheckedArray) :
    storeCount (option :: rest) array = 0 := by
  rw [storeCount, List.takeWhile_cons_of_neg (by simp [hrefused]), List.countP_nil]

theorem storeCount_cons {option : CliOption} (haccepted : option.refused = false)
    (rest : List CliOption) (array : UncheckedArray) :
    storeCount (option :: rest) array =
      storeCount rest array + if option.array? = some array then 1 else 0 := by
  rw [storeCount, List.takeWhile_cons_of_pos (by simp [haccepted]), List.countP_cons, storeCount]
  simp only [decide_eq_true_eq]

/-- All that a command line can end with. -/
inductive ParsesLine (opts : SaOpts) (line : List CliOption) : ParseResult → Prop
  | accepted {final : SaOpts} {message : List Char}
      (hfits : FitsAfter opts line)
      (hpid : final.pid = (opts.pid ++ pids line).take maxFiltersNum)
      (hcomm : final.comm = (opts.comm ++ (comms line).map commEntry).take maxFiltersNum) :
      ParsesLine opts line (.accepted final message)
  | rejected {left : SaOpts} {error : ArgError} {message : List Char}
      (hfits : FitsAfter opts line) :
      ParsesLine opts line (.rejected left error message)
  | outOfBounds
      (hover : ¬ FitsAfter opts line) :
      ParsesLine opts line .outOfBounds

theorem ParsesLine.after {line : List CliOption} {result : ParseResult}
    (hresult : ParsesLine opts line result) (message : List Char) :
    ParsesLine opts line (result.after message) := by
  cases hresult with
  | accepted hfits hpid hcomm => exact .accepted hfits hpid hcomm
  | rejected hfits => exact .rejected hfits
  | outOfBounds hover => exact .outOfBounds hover

/-- An accepted option leaves the rest of the line to its own arrays. -/
theorem ParsesLine.cons {option : CliOption} {rest : List CliOption} {next : SaOpts}
    {result : ParseResult} (haccepted : option.refused = false)
    (hpid : next.pid = (opts.pid ++ option.pid?.toList).take maxFiltersNum)
    (hcomm : next.comm = (opts.comm ++ option.comm?.toList.map commEntry).take maxFiltersNum)
    (hlength : ∀ array, (next.unchecked array).length =
      (opts.unchecked array).length + if option.array? = some array then 1 else 0)
    (hrest : ParsesLine next rest result) : ParsesLine opts (option :: rest) result := by
  have hfits : FitsAfter opts (option :: rest) ↔ FitsAfter next rest := by
    simp only [FitsAfter, storeCount_cons haccepted, hlength]
    exact forall_congr' fun array => by omega
  have hpids : pids (option :: rest) = option.pid?.toList ++ pids rest := by
    cases option <;> rfl
  have hcomms : comms (option :: rest) = option.comm?.toList ++ comms rest := by
    cases option <;> rfl
  cases hrest with
  | accepted hrestFits hrestPid hrestComm =>
      refine .accepted (hfits.mpr hrestFits) ?_ ?_
      · rw [hrestPid, hpid, hpids, take_take_append]
      · rw [hrestComm, hcomm, hcomms, List.map_append, take_take_append]
  | rejected hrestFits => exact .rejected (hfits.mpr hrestFits)
  | outOfBounds hover => exact .outOfBounds (mt hfits.mp hover)

/-- What `parse_arg` does over a whole command line. -/
theorem parsesLine (line : List CliOption) (hwithin : opts.WithinArrays) :
    ParsesLine opts line (parseCommandLine opts (line.map CliOption.toArg)) := by
  induction line generalizing opts with
  | nil =>
      refine .accepted hwithin.unchecked ?_ ?_
      · exact (take_append_nil hwithin.pid).symm
      · exact (take_append_nil hwithin.comm).symm
  | cons option rest ih =>
      have hstep := parsesArg hwithin option
      rw [List.map_cons, parseCommandLine]
      generalize parseArg opts option.toArg.1 option.toArg.2 = result at hstep
      cases hstep with
      | accepted haccepted hpid hcomm hlength hnext =>
          exact .cons haccepted hpid hcomm hlength ((ih hnext).after _)
      | rejected hrefused =>
          -- The rest of the line is not looked at.
          refine .rejected fun array => ?_
          rw [storeCount_cons_of_refused hrefused]
          exact hwithin.unchecked array
      | @outOfBounds array haccepted harray hfull =>
          refine .outOfBounds fun hfits => ?_
          have hcount := hfits array
          rw [storeCount_cons haccepted, if_pos harray] at hcount
          omega

end SchedAnalyzer
