import SchedAnalyzer.User.OptionArrays

/-! # The arguments a command line collects

After any number of options the six arrays hold the first arguments of their own
kind, as long as none of the four unchecked stores came once too often.
-/

namespace SchedAnalyzer

open Foundation.Lists

/-! ## The options that are processed -/

/-- The arguments of one kind, in order. -/
def argsOf (wanted : OptKey) (line : CommandLine) : List (List Char) :=
  line.flatMap fun (key, arg) => argFor wanted key arg

theorem argsOf_append (wanted : OptKey) (first second : CommandLine) :
    argsOf wanted (first ++ second) = argsOf wanted first ++ argsOf wanted second :=
  List.flatMap_append

theorem argsOf_singleton (wanted key : OptKey) (arg : List Char) :
    argsOf wanted [(key, arg)] = argFor wanted key arg :=
  List.append_nil _

/-- The options before the first that `parse_arg` rejects, after `pids` pids. -/
def acceptedFrom (pids : Nat) : CommandLine → CommandLine
  | [] => []
  | (key, arg) :: rest =>
      if refuses pids key arg then []
      else (key, arg) :: acceptedFrom (pids + (argFor .filterPid key arg).length) rest

/-- More options leave the accepted ones as they are. -/
theorem acceptedFrom_prefix_append (pids : Nat) (first second : CommandLine) :
    acceptedFrom pids first <+: acceptedFrom pids (first ++ second) := by
  induction first generalizing pids with
  | nil => exact List.nil_prefix
  | cons option rest ih =>
      obtain ⟨key, arg⟩ := option
      rw [List.cons_append, acceptedFrom, acceptedFrom]
      split
      · exact List.prefix_rfl
      · exact (List.prefix_cons_inj _).mpr (ih _)

theorem refuses_congr {pids pids' : Nat}
    (hroom : pids < maxFiltersNum ↔ pids' < maxFiltersNum) (key : OptKey) (arg : List Char) :
    refuses pids key arg = refuses pids' key arg := by
  cases key
  case filterPid => simp only [refuses, hroom]
  all_goals rfl

/-- No unchecked array gets more arguments than it has entries. -/
def LineFits (line : CommandLine) : Prop :=
  ∀ array : UncheckedArray, (argsOf array.key line).length ≤ maxFiltersNum

/-! ## The state after a prefix -/

/-- The arrays after the accepted options `line`. -/
structure Collected (line : CommandLine) (opts : SaOpts) : Prop where
  unchecked : ∀ array, opts.unchecked array = argsOf array.key line
  pid : opts.pid = ((argsOf .filterPid line).map pidEntry).take maxFiltersNum
  comm : opts.comm = ((argsOf .filterComm line).map commEntry).take maxFiltersNum
  within : opts.WithinArrays

theorem collected_initial : Collected [] .initial where
  unchecked array := by cases array <;> rfl
  pid := rfl
  comm := rfl
  within := SaOpts.withinArrays_initial

namespace Collected

variable {done : CommandLine} {opts next : SaOpts} {key : OptKey} {arg : List Char}

/-- The pid counter tells as much as the number of pid options. -/
theorem pid_room (hdone : Collected done opts) :
    opts.pid.length < maxFiltersNum ↔ (argsOf .filterPid done).length < maxFiltersNum := by
  rw [hdone.pid, List.length_take, List.length_map]
  omega

theorem refuses_eq (hdone : Collected done opts) (key : OptKey) (arg : List Char) :
    refuses opts.pid.length key arg = refuses (argsOf .filterPid done).length key arg :=
  refuses_congr hdone.pid_room key arg

/-- One more accepted option. -/
theorem stores (hdone : Collected done opts) (hstores : opts.Stores key arg next) :
    Collected (done ++ [(key, arg)]) next where
  unchecked array := by
    rw [hstores.unchecked, hdone.unchecked, argsOf_append, argsOf_singleton]
  pid := by
    rw [hstores.pid, hdone.pid, argsOf_append, argsOf_singleton, List.map_append]
    exact take_take_append [] _ _ _
  comm := by
    rw [hstores.comm, hdone.comm, argsOf_append, argsOf_singleton, List.map_append]
    exact take_take_append [] _ _ _
  within := hstores.within

/-- A rejected option adds nothing. -/
theorem sameArrays (hdone : Collected done opts) (hsame : opts.SameArrays next) :
    Collected done next where
  unchecked array := (hsame.unchecked array).trans (hdone.unchecked array)
  pid := hsame.pid.trans hdone.pid
  comm := hsame.comm.trans hdone.comm
  within :=
    ⟨fun array => hsame.unchecked array ▸ hdone.within.unchecked array,
      hsame.pid ▸ hdone.within.pid, hsame.comm ▸ hdone.within.comm⟩

theorem lineFits (hdone : Collected done opts) : LineFits done := fun array =>
  hdone.unchecked array ▸ hdone.within.unchecked array

end Collected

/-- All that a command line can end with after the accepted options `done`. -/
inductive RunsLine (done line : CommandLine) : ParseResult → Prop
  | accepted {final : SaOpts} {message : List Char}
      (hall : acceptedFrom (argsOf .filterPid done).length line = line)
      (hcollected : Collected (done ++ line) final) :
      RunsLine done line (.accepted final message)
  | rejected {left : SaOpts} {error : ArgError} {message : List Char}
      (hcollected :
        Collected (done ++ acceptedFrom (argsOf .filterPid done).length line) left) :
      RunsLine done line (.rejected left error message)
  | outOfBounds
      (hover : ¬ LineFits (done ++ acceptedFrom (argsOf .filterPid done).length line)) :
      RunsLine done line .outOfBounds

theorem RunsLine.after {done line : CommandLine} {result : ParseResult}
    (hresult : RunsLine done line result) (message : List Char) :
    RunsLine done line (result.after message) := by
  cases hresult with
  | accepted hall hcollected => exact .accepted hall hcollected
  | rejected hcollected => exact .rejected hcollected
  | outOfBounds hover => exact .outOfBounds hover

theorem acceptedFrom_cons {done : CommandLine} {key : OptKey} {arg : List Char}
    (haccepted : refuses (argsOf .filterPid done).length key arg = false) (rest : CommandLine) :
    acceptedFrom (argsOf .filterPid done).length ((key, arg) :: rest) =
      (key, arg) :: acceptedFrom (argsOf .filterPid (done ++ [(key, arg)])).length rest := by
  rw [acceptedFrom, haccepted, argsOf_append, argsOf_singleton, List.length_append]
  rfl

/-- An accepted option joins those before it. -/
theorem RunsLine.cons {done rest : CommandLine} {key : OptKey} {arg : List Char}
    {result : ParseResult}
    (haccepted : refuses (argsOf .filterPid done).length key arg = false)
    (hrest : RunsLine (done ++ [(key, arg)]) rest result) :
    RunsLine done ((key, arg) :: rest) result := by
  have hsplit := acceptedFrom_cons haccepted rest
  have hassoc : ∀ tail : CommandLine, done ++ (key, arg) :: tail = done ++ [(key, arg)] ++ tail :=
    fun tail => (List.append_cons done (key, arg) tail)
  cases hrest with
  | accepted hall hcollected =>
      refine .accepted ?_ ?_
      · rw [hsplit, hall]
      · rw [hassoc]
        exact hcollected
  | rejected hcollected =>
      refine .rejected ?_
      rw [hsplit, hassoc]
      exact hcollected
  | outOfBounds hover =>
      refine .outOfBounds ?_
      rw [hsplit, hassoc]
      exact hover

/-- What `parse_arg` does over a whole command line. -/
theorem runsLine (line : CommandLine) {done : CommandLine} {opts : SaOpts}
    (hdone : Collected done opts) : RunsLine done line (parseCommandLine opts line) := by
  induction line generalizing done opts with
  | nil => exact .accepted rfl ((List.append_nil done).symm ▸ hdone)
  | cons option rest ih =>
      obtain ⟨key, arg⟩ := option
      have hstep := stepsArg hdone.within key arg
      rw [parseCommandLine]
      generalize parseArg opts key arg = result at hstep
      cases hstep with
      | accepted haccepted hstores _ =>
          rw [hdone.refuses_eq] at haccepted
          exact .cons haccepted ((ih (hdone.stores hstores)).after _)
      | rejected hrefused hsame _ =>
          rw [hdone.refuses_eq] at hrefused
          refine .rejected ?_
          rw [acceptedFrom, if_pos hrefused, List.append_nil]
          exact hdone.sameArrays hsame
      | @outOfBounds array haccepted hkey hfull =>
          rw [hdone.refuses_eq] at haccepted
          refine .outOfBounds fun hfits => ?_
          have hcount := hfits array
          rw [acceptedFrom_cons haccepted, List.append_cons, argsOf_append, argsOf_append,
            argsOf_singleton, ← hdone.unchecked, ← hkey, argFor_self, List.length_append,
            List.length_append, List.length_singleton] at hcount
          omega

/-! ## What every prefix is to leave behind -/

/-- The options left by a run whose stores all hit their array. -/
def ParseResult.opts? : ParseResult → Option SaOpts
  | accepted opts _ => some opts
  | rejected opts _ _ => some opts
  | outOfBounds => none

/-- No counter is past its array, and the arrays hold the first arguments of
their kinds. -/
structure HoldsArguments (line : CommandLine) (opts : SaOpts) : Prop where
  within : opts.WithinArrays
  unchecked : ∀ array, opts.unchecked array = (argsOf array.key line).take maxFiltersNum
  pid : opts.pid = ((argsOf .filterPid line).take maxFiltersNum).map pidEntry
  comm : opts.comm = ((argsOf .filterComm line).take maxFiltersNum).map commEntry

/-- An option leaves the arrays of other kinds alone, and one that is for an
array the event flags. -/
structure OptionFrame (opts : SaOpts) (key : OptKey) (next : SaOpts) : Prop where
  unchecked : ∀ array : UncheckedArray, key ≠ array.key →
    next.unchecked array = opts.unchecked array
  pid : key ≠ .filterPid → next.pid = opts.pid
  comm : key ≠ .filterComm → next.comm = opts.comm
  events : key.fillsArray = true → opts.SameEvents next

/-- After every prefix of the line no store has left its array, the arrays hold
their arguments, and the next option that is processed keeps to its own array. -/
structure CollectsArguments (line : CommandLine) : Prop where
  holds : ∀ before, before <+: line →
    ∃ opts, (parseCommandLine .initial before).opts? = some opts ∧
      HoldsArguments (acceptedFrom 0 before) opts
  frame : ∀ before key arg, before ++ [(key, arg)] <+: line →
    ∀ opts message, parseCommandLine .initial before = .accepted opts message →
      ∃ next, (parseArg opts key arg).opts? = some next ∧ OptionFrame opts key next

theorem Collected.holdsArguments {line : CommandLine} {opts : SaOpts}
    (hline : Collected line opts) : HoldsArguments line opts where
  within := hline.within
  unchecked array := by rw [hline.unchecked, List.take_of_length_le (hline.lineFits array)]
  pid := by rw [hline.pid, List.map_take]
  comm := by rw [hline.comm, List.map_take]

/-- A run whose stores all hit their array leaves what it collected. -/
theorem collected_of_opts? {line : CommandLine} {opts : SaOpts}
    (hopts : (parseCommandLine .initial line).opts? = some opts) :
    Collected (acceptedFrom 0 line) opts := by
  have hrun := runsLine line collected_initial
  generalize parseCommandLine .initial line = result at hrun hopts
  cases hrun with
  | accepted hall hcollected =>
      rw [show acceptedFrom 0 line = line from hall, ← Option.some.inj hopts]
      exact hcollected
  | rejected hcollected => exact Option.some.inj hopts ▸ hcollected
  | outOfBounds => exact absurd hopts.symm (Option.some_ne_none opts)

/-- The stores of a line that fits all hit their array. -/
theorem opts?_of_lineFits {line : CommandLine} (hfits : LineFits (acceptedFrom 0 line)) :
    ∃ opts, (parseCommandLine .initial line).opts? = some opts := by
  have hrun := runsLine line collected_initial
  generalize parseCommandLine .initial line = result at hrun
  cases hrun with
  | @accepted final _ _ _ => exact ⟨final, rfl⟩
  | @rejected left _ _ _ => exact ⟨left, rfl⟩
  | outOfBounds hover => exact absurd hfits hover

theorem LineFits.of_prefix {before line : CommandLine} (hfits : LineFits line)
    (hbeginning : before <+: line) : LineFits before := by
  obtain ⟨rest, rfl⟩ := hbeginning
  intro array
  have hcount := hfits array
  rw [argsOf_append, List.length_append] at hcount
  omega

/-- A prefix of a line that fits does so too. -/
theorem lineFits_of_acceptedFrom {before line : CommandLine}
    (hfits : LineFits (acceptedFrom 0 line)) (hbeginning : before <+: line) :
    LineFits (acceptedFrom 0 before) := by
  obtain ⟨rest, rfl⟩ := hbeginning
  exact hfits.of_prefix (acceptedFrom_prefix_append 0 before rest)

theorem ParseResult.opts?_after (result : ParseResult) (message : List Char) :
    (result.after message).opts? = result.opts? := by
  cases result <;> rfl

/-- One option after an accepted line. -/
theorem opts?_parseCommandLine_concat {before : CommandLine} {start opts : SaOpts}
    {message : List Char} (hbefore : parseCommandLine start before = .accepted opts message)
    (key : OptKey) (arg : List Char) :
    (parseCommandLine start (before ++ [(key, arg)])).opts? = (parseArg opts key arg).opts? := by
  induction before generalizing start message with
  | nil =>
      obtain ⟨rfl, -⟩ := ParseResult.accepted.inj hbefore
      rw [List.nil_append, parseCommandLine]
      cases parseArg start key arg <;> rfl
  | cons option rest ih =>
      rw [List.cons_append, parseCommandLine]
      rw [parseCommandLine] at hbefore
      cases hstep : parseArg start option.1 option.2 with
      | accepted next text =>
          simp only [hstep] at hbefore ⊢
          cases hrest : parseCommandLine next rest with
          | accepted final message =>
              rw [hrest] at hbefore
              obtain ⟨rfl, -⟩ := ParseResult.accepted.inj hbefore
              rw [ParseResult.opts?_after]
              exact ih hrest
          | rejected left error message =>
              rw [hrest] at hbefore
              exact ParseResult.noConfusion hbefore
          | outOfBounds =>
              rw [hrest] at hbefore
              exact ParseResult.noConfusion hbefore
      | rejected left error text =>
          simp only [hstep] at hbefore
          exact ParseResult.noConfusion hbefore
      | outOfBounds =>
          simp only [hstep] at hbefore
          exact ParseResult.noConfusion hbefore

theorem StepsArg.optionFrame {opts next : SaOpts} {key : OptKey} {arg : List Char}
    {result : ParseResult} (hstep : StepsArg opts key arg result) (hwithin : opts.WithinArrays)
    (hnext : result.opts? = some next) : OptionFrame opts key next := by
  cases hstep with
  | accepted _ hstores hevents =>
      obtain rfl := Option.some.inj hnext
      refine ⟨?_, ?_, ?_, hevents⟩
      · intro array hne
        rw [hstores.unchecked, argFor_of_ne hne, List.append_nil]
      · intro hne
        rw [hstores.pid, argFor_of_ne hne]
        exact take_append_nil hwithin.pid
      · intro hne
        rw [hstores.comm, argFor_of_ne hne]
        exact take_append_nil hwithin.comm
  | rejected _ hsame hevents =>
      obtain rfl := Option.some.inj hnext
      exact ⟨fun array _ => hsame.unchecked array, fun _ => hsame.pid, fun _ => hsame.comm, hevents⟩
  | outOfBounds => exact absurd hnext.symm (Option.some_ne_none next)

/-- The arrays collect their arguments, if and only if none of the four unchecked
ones gets more than it has entries before the first option that is rejected. -/
theorem collectsArguments_iff (line : CommandLine) :
    CollectsArguments line ↔ LineFits (acceptedFrom 0 line) := by
  constructor
  · intro hcollects
    obtain ⟨opts, hopts, -⟩ := hcollects.holds line List.prefix_rfl
    exact (collected_of_opts? hopts).lineFits
  · intro hfits
    constructor
    · intro before hbeginning
      obtain ⟨opts, hopts⟩ := opts?_of_lineFits (lineFits_of_acceptedFrom hfits hbeginning)
      exact ⟨opts, hopts, (collected_of_opts? hopts).holdsArguments⟩
    · intro before key arg hbeginning opts message hbefore
      obtain ⟨next, hnext⟩ := opts?_of_lineFits (lineFits_of_acceptedFrom hfits hbeginning)
      rw [opts?_parseCommandLine_concat hbefore] at hnext
      have hwithin := (collected_of_opts? (congrArg ParseResult.opts? hbefore)).within
      exact ⟨next, hnext, (stepsArg hwithin key arg).optionFrame hwithin hnext⟩

/-- Nothing of a repeated option is rejected, when the option never is. -/
theorem acceptedFrom_replicate {key : OptKey} {arg : List Char}
    (haccepted : ∀ pids, refuses pids key arg = false) (count pids : Nat) :
    acceptedFrom pids (List.replicate count (key, arg)) = List.replicate count (key, arg) := by
  induction count generalizing pids with
  | zero => rfl
  | succ count ih =>
      rw [List.replicate_succ, acceptedFrom, haccepted, ih]
      rfl

theorem length_argsOf_replicate (key : OptKey) (arg : List Char) (count : Nat) :
    (argsOf key (List.replicate count (key, arg))).length = count := by
  induction count with
  | zero => rfl
  | succ count ih =>
      rw [List.replicate_succ', argsOf_append, argsOf_singleton, argFor_self, List.length_append,
        ih, List.length_singleton]

/-- One function filter more than the array has entries. -/
def overfullLine : CommandLine :=
  List.replicate (maxFiltersNum + 1) (.functionFilter, "vfs_*".toList)

theorem collectsArguments_fails_past_array : ¬ ∀ line, CollectsArguments line := by
  intro hcollects
  obtain ⟨opts, hopts, -⟩ := (hcollects overfullLine).holds overfullLine List.prefix_rfl
  have hcount := (collected_of_opts? hopts).lineFits .functionFilter
  rw [overfullLine, acceptedFrom_replicate fun _ => rfl] at hcount
  exact absurd (length_argsOf_replicate .functionFilter _ _ ▸ hcount) (Nat.not_succ_le_self _)

end SchedAnalyzer
