import SchedAnalyzer.User.CollectedArguments
import SchedAnalyzer.User.Main
import SchedAnalyzer.User.TaskFilters

/-! # Event options and filters in any order

A command line of event options and filters leaves flags and lists of filters
behind. Nothing that is read later tells two lines apart that ask for the same
events and tasks.
-/

namespace SchedAnalyzer

open Foundation.CString

/-! ## Options -/

/-- The event options, some of which stand for others. -/
inductive EventOption
  | loadAvg
  | runnableAvg
  | utilAvg
  | loadAvgCpu
  | runnableAvgCpu
  | utilAvgCpu
  | loadAvgTask
  | runnableAvgTask
  | utilAvgTask
  | utilAvgRt
  | utilAvgDl
  | utilAvgIrq
  | loadAvgThermal
  | utilEst
  | utilEstCpu
  | utilEstTask
  | cpuNrRunning
  | cpuIdle
  | loadBalance
  | ipi
  | irq
  deriving DecidableEq, Repr

namespace EventOption

/-- The key `parse_arg` is called with. -/
def key : EventOption → OptKey
  | loadAvg => .loadAvg
  | runnableAvg => .runnableAvg
  | utilAvg => .utilAvg
  | loadAvgCpu => .loadAvgCpu
  | runnableAvgCpu => .runnableAvgCpu
  | utilAvgCpu => .utilAvgCpu
  | loadAvgTask => .loadAvgTask
  | runnableAvgTask => .runnableAvgTask
  | utilAvgTask => .utilAvgTask
  | utilAvgRt => .utilAvgRt
  | utilAvgDl => .utilAvgDl
  | utilAvgIrq => .utilAvgIrq
  | loadAvgThermal => .loadAvgThermal
  | utilEst => .utilEst
  | utilEstCpu => .utilEstCpu
  | utilEstTask => .utilEstTask
  | cpuNrRunning => .cpuNrRunning
  | cpuIdle => .cpuIdle
  | loadBalance => .loadBalance
  | ipi => .ipi
  | irq => .irq

/-- The individual options that a group option stands for. -/
def parts : EventOption → List EventOption
  | loadAvg => [loadAvgCpu, loadAvgTask, loadAvgThermal]
  | runnableAvg => [runnableAvgCpu, runnableAvgTask]
  | utilAvg => [utilAvgCpu, utilAvgTask, utilAvgRt, utilAvgDl, utilAvgIrq]
  | utilEst => [utilEstCpu, utilEstTask]
  | option => [option]

/-- What an individual option turns on. `--irq` is for the recording only. -/
def signal? : EventOption → Option SaOption
  | loadAvgCpu => some .loadAvgCpu
  | runnableAvgCpu => some .runnableAvgCpu
  | utilAvgCpu => some .utilAvgCpu
  | loadAvgTask => some .loadAvgTask
  | runnableAvgTask => some .runnableAvgTask
  | utilAvgTask => some .utilAvgTask
  | utilAvgRt => some .utilAvgRt
  | utilAvgDl => some .utilAvgDl
  | utilAvgIrq => some .utilAvgIrq
  | loadAvgThermal => some .loadAvgThermal
  | utilEstCpu => some .utilEstCpu
  | utilEstTask => some .utilEstTask
  | cpuNrRunning => some .cpuNrRunning
  | cpuIdle => some .cpuIdle
  | loadBalance => some .loadBalance
  | ipi => some .ipi
  | _ => none

/-- No event option takes an argument that is kept. -/
theorem fillsArray_key (option : EventOption) : option.key.fillsArray = false := by
  cases option <;> rfl

end EventOption

/-- `strtol` finds a number in range. -/
def ValidPid (arg : List Char) : Prop :=
  (strtol 0 arg).erange = false ∧ (strtol 0 arg).consumed ≠ 0

instance (arg : List Char) : Decidable (ValidPid arg) :=
  inferInstanceAs (Decidable (_ ∧ _))

/-- An option for events, or for the tasks to report. -/
inductive TraceOption
  | event (option : EventOption)
  | pid (arg : List Char) (hvalid : ValidPid arg)
  | comm (text : List Char)
  deriving DecidableEq

namespace TraceOption

/-- The option as `parse_arg` gets it. -/
def toArg : TraceOption → OptKey × List Char
  | event option => (option.key, [])
  | pid arg _ => (.filterPid, arg)
  | comm text => (.filterComm, text)

/-- The option, or the individual ones if it is a group. -/
def parts : TraceOption → List TraceOption
  | event option => option.parts.map event
  | option => [option]

/-- What an individual option turns on. -/
def signal? : TraceOption → Option SaOption
  | event option => option.signal?
  | _ => none

/-- Whether an option turns a signal on, by itself or in a group. -/
def turnsOn (option : TraceOption) (signal : SaOption) : Bool :=
  option.parts.any fun part => part.signal? == some signal

end TraceOption

/-- The options as `parse_arg` gets them. -/
def commandLine (line : List TraceOption) : CommandLine :=
  line.map TraceOption.toArg

/-- The same options in any order and number, a group as good as its parts. -/
def SameOptions (first second : List TraceOption) : Prop :=
  ∀ option, option ∈ first.flatMap TraceOption.parts ↔ option ∈ second.flatMap TraceOption.parts

/-- No filter is one too many. -/
structure FitsFilters (line : List TraceOption) : Prop where
  pid : (argsOf .filterPid (commandLine line)).length ≤ maxFiltersNum
  comm : (argsOf .filterComm (commandLine line)).length ≤ maxFiltersNum

/-- The state `main` gives to the handlers. The symbols of the kernel are read for
`--ipi` only. -/
def mainState (opts : SaOpts) (parsed : SymbolTable maxNumSymbols) : UserState where
  opts := opts
  kallsyms := if opts.ipi then parsed else .initial maxNumSymbols

/-- The same programs are enabled, the same tasks ignored and the same calls made. -/
structure TracesAlike (opts opts' : SaOpts) : Prop where
  autoload : ∀ program, autoload opts program = autoload opts' program
  ignorePidComm : ∀ pid comm, ignorePidComm opts pid comm = ignorePidComm opts' pid comm
  handleRecord : ∀ parsed record,
    handleRecord (mainState opts parsed) record = handleRecord (mainState opts' parsed) record

/-! ## One option -/

/-- An event option turns on its signals and leaves the others. -/
theorem isOn_of_parseArg_event {opts next : SaOpts} {message : List Char} {option : EventOption}
    {arg : List Char} (hparse : parseArg opts option.key arg = .accepted next message)
    (signal : SaOption) :
    next.isOn signal = (opts.isOn signal || (TraceOption.event option).turnsOn signal) := by
  have hsplit : parseArg opts option.key arg = .done next := by
    cases option <;> obtain ⟨rfl, -⟩ := ParseResult.accepted.inj hparse <;> rfl
  cases option <;> obtain ⟨rfl, -⟩ := ParseResult.accepted.inj hsplit <;> cases signal <;>
    first | exact (Bool.or_true _).symm | exact (Bool.or_false _).symm

namespace TraceOption

/-- `parse_arg` rejects none of these options. -/
theorem refuses_toArg (option : TraceOption) (pids : Nat) :
    refuses pids option.toArg.1 option.toArg.2 = false := by
  cases option with
  | event option => cases option <;> rfl
  | pid arg hvalid =>
      simp [toArg, refuses, hvalid.1, hvalid.2]
  | comm text => rfl

/-- None of them is for an array without a check. -/
theorem key_ne_toArg (option : TraceOption) (array : UncheckedArray) :
    array.key ≠ option.toArg.1 := by
  cases option with
  | event option => cases array <;> cases option <;> exact OptKey.noConfusion
  | pid arg hvalid => cases array <;> exact OptKey.noConfusion
  | comm text => cases array <;> exact OptKey.noConfusion

/-- The flags after an option. -/
theorem isOn_of_parseArg {opts next : SaOpts} {message : List Char} {option : TraceOption}
    (hparse : parseArg opts option.toArg.1 option.toArg.2 = .accepted next message)
    (hevents : option.toArg.1.fillsArray = true → opts.SameEvents next) (signal : SaOption) :
    next.isOn signal = (opts.isOn signal || option.turnsOn signal) := by
  cases option with
  | event option => exact isOn_of_parseArg_event hparse signal
  | pid arg hvalid => exact ((hevents rfl).isOn signal).trans (Bool.or_false _).symm
  | comm text => exact ((hevents rfl).isOn signal).trans (Bool.or_false _).symm

end TraceOption

/-! ## The whole line -/

/-- The flags and arrays after a line. -/
structure ReadsLine (line : List TraceOption) (opts : SaOpts) : Prop where
  isOn : ∀ signal, opts.isOn signal = line.any fun option => option.turnsOn signal
  collected : Collected (commandLine line) opts

theorem readsLine_initial : ReadsLine [] .initial where
  isOn signal := by cases signal <;> rfl
  collected := collected_initial

/-- Every option is accepted and joins those before it. -/
theorem ReadsLine.step {done : List TraceOption} {opts : SaOpts} (hdone : ReadsLine done opts)
    (option : TraceOption) :
    ∃ next message, parseArg opts option.toArg.1 option.toArg.2 = .accepted next message ∧
      ReadsLine (done ++ [option]) next := by
  have hstep := stepsArg hdone.collected.within option.toArg.1 option.toArg.2
  have hflags : ∀ next message,
      parseArg opts option.toArg.1 option.toArg.2 = .accepted next message →
        (option.toArg.1.fillsArray = true → opts.SameEvents next) →
          ∀ signal, next.isOn signal = (opts.isOn signal || option.turnsOn signal) :=
    fun _ _ hparse => TraceOption.isOn_of_parseArg hparse
  generalize parseArg opts option.toArg.1 option.toArg.2 = result at hstep hflags
  cases hstep with
  | @accepted next message _ hstores hevents =>
      refine ⟨next, message, rfl, ?_, ?_⟩
      · intro signal
        rw [hflags next message rfl hevents, hdone.isOn, List.any_append, List.any_cons,
          List.any_nil, Bool.or_false]
      · rw [commandLine, List.map_append]
        exact hdone.collected.stores hstores
  | rejected hrefused =>
      rw [option.refuses_toArg] at hrefused
      exact Bool.noConfusion hrefused
  | outOfBounds _ hkey => exact absurd hkey (option.key_ne_toArg _)

/-- A line of these options is accepted. -/
theorem ReadsLine.run {done : List TraceOption} {opts : SaOpts} (hdone : ReadsLine done opts)
    (line : List TraceOption) :
    ∃ final message, parseCommandLine opts (commandLine line) = .accepted final message ∧
      ReadsLine (done ++ line) final := by
  induction line generalizing done opts with
  | nil =>
      rw [List.append_nil]
      exact ⟨opts, [], rfl, hdone⟩
  | cons option rest ih =>
      obtain ⟨next, text, hparse, hnext⟩ := hdone.step option
      obtain ⟨final, message, hrest, hfinal⟩ := ih hnext
      refine ⟨final, text ++ message, ?_, ?_⟩
      · have hrest' : parseCommandLine next (rest.map TraceOption.toArg) =
            .accepted final message := hrest
        rw [commandLine, List.map_cons, parseCommandLine, hparse]
        simp only [hrest', ParseResult.after]
      · rw [List.append_cons]
        exact hfinal

/-! ## The same options -/

theorem mem_argsOf {wanted : OptKey} {line : CommandLine} {arg : List Char} :
    arg ∈ argsOf wanted line ↔ (wanted, arg) ∈ line := by
  rw [argsOf, List.mem_flatMap]
  constructor
  · rintro ⟨⟨key, text⟩, hoption, harg⟩
    change arg ∈ argFor wanted key text at harg
    by_cases heq : key = wanted
    · subst heq
      rw [argFor_self, List.mem_singleton] at harg
      exact harg ▸ hoption
    · rw [argFor_of_ne heq] at harg
      exact absurd harg List.not_mem_nil
  · intro hoption
    refine ⟨(wanted, arg), hoption, ?_⟩
    change arg ∈ argFor wanted wanted arg
    rw [argFor_self]
    exact List.mem_singleton.mpr rfl

namespace SameOptions

variable {first second : List TraceOption}

theorem symm (hsame : SameOptions first second) : SameOptions second first :=
  fun option => (hsame option).symm

/-- Filters are not part of a group. -/
theorem mem_of_filter (hsame : SameOptions first second) {option : TraceOption}
    (hparts : option.parts = [option]) (hevent : ∀ event, option ≠ .event event)
    (hmem : option ∈ first) : option ∈ second := by
  have hpart : option ∈ first.flatMap TraceOption.parts := by
    refine List.mem_flatMap.mpr ⟨option, hmem, ?_⟩
    rw [hparts]
    exact List.mem_singleton.mpr rfl
  obtain ⟨whole, hwhole, hinside⟩ := List.mem_flatMap.mp ((hsame option).mp hpart)
  cases whole with
  | event event =>
      obtain ⟨part, -, heq⟩ := List.mem_map.mp hinside
      exact absurd heq.symm (hevent part)
  | pid arg hvalid => exact (List.mem_singleton.mp hinside).symm ▸ hwhole
  | comm text => exact (List.mem_singleton.mp hinside).symm ▸ hwhole

/-- The same arguments are given to a filter option. -/
theorem mem_argsOf_filter (hsame : SameOptions first second) {wanted : OptKey}
    (hfilter : wanted.fillsArray = true) {arg : List Char}
    (hmem : arg ∈ argsOf wanted (commandLine first)) :
    arg ∈ argsOf wanted (commandLine second) := by
  rw [mem_argsOf, commandLine] at hmem ⊢
  obtain ⟨option, hoption, harg⟩ := List.mem_map.mp hmem
  rw [← harg]
  apply List.mem_map_of_mem
  cases option with
  | event option =>
      rw [← (Prod.mk.inj harg).1, option.fillsArray_key] at hfilter
      exact Bool.noConfusion hfilter
  | pid text hvalid => exact hsame.mem_of_filter rfl (fun _ => TraceOption.noConfusion) hoption
  | comm text => exact hsame.mem_of_filter rfl (fun _ => TraceOption.noConfusion) hoption

/-- The same signals are turned on. -/
theorem any_turnsOn (hsame : SameOptions first second) (signal : SaOption) :
    (first.any fun option => option.turnsOn signal) =
      second.any fun option => option.turnsOn signal := by
  have hparts : ∀ line : List TraceOption,
      (line.any fun option => option.turnsOn signal) =
        (line.flatMap TraceOption.parts).any fun part => part.signal? == some signal :=
    fun line => List.any_flatMap.symm
  rw [hparts, hparts, Bool.eq_iff_iff, List.any_eq_true, List.any_eq_true]
  exact exists_congr fun option => and_congr_left fun _ => hsame option

end SameOptions

/-! ## What is read later -/

/-- Options with the same flags and filters, and nothing else. -/
def SaOpts.request (opts : SaOpts) : SaOpts :=
  { SaOpts.initial with
    loadAvgCpu := opts.isOn .loadAvgCpu
    runnableAvgCpu := opts.isOn .runnableAvgCpu
    utilAvgCpu := opts.isOn .utilAvgCpu
    loadAvgTask := opts.isOn .loadAvgTask
    runnableAvgTask := opts.isOn .runnableAvgTask
    utilAvgTask := opts.isOn .utilAvgTask
    utilAvgRt := opts.isOn .utilAvgRt
    utilAvgDl := opts.isOn .utilAvgDl
    utilAvgIrq := opts.isOn .utilAvgIrq
    loadAvgThermal := opts.isOn .loadAvgThermal
    utilEstCpu := opts.isOn .utilEstCpu
    utilEstTask := opts.isOn .utilEstTask
    cpuNrRunning := opts.isOn .cpuNrRunning
    cpuIdle := opts.isOn .cpuIdle
    loadBalance := opts.isOn .loadBalance
    ipi := opts.isOn .ipi
    pid := opts.pid
    comm := opts.comm }

theorem disabledPrograms_request (opts : SaOpts) :
    disabledPrograms opts = disabledPrograms opts.request := rfl

theorem handleRecord_request (opts : SaOpts) (kallsyms : SymbolTable maxNumSymbols)
    (record : Record) :
    handleRecord ⟨opts, kallsyms⟩ record = handleRecord ⟨opts.request, kallsyms⟩ record := by
  cases record <;> rfl

/-- The same flags, and filters that are the same in any order and number. -/
structure SameRequest (opts opts' : SaOpts) : Prop where
  isOn : ∀ signal, opts.isOn signal = opts'.isOn signal
  pid : ∀ pid, pid ∈ opts.pid ↔ pid ∈ opts'.pid
  comm : ∀ comm, comm ∈ opts.comm ↔ comm ∈ opts'.comm

namespace SameRequest

variable {opts opts' : SaOpts}

/-- `ignore_pid_comm` looks for a filter that matches, in whatever place. -/
theorem ignorePidComm (hsame : SameRequest opts opts') (pid : Int32) (comm : List Char) :
    ignorePidComm opts pid comm = SchedAnalyzer.ignorePidComm opts' pid comm := by
  have hnopid : opts.pid = [] ↔ opts'.pid = [] := by
    simp only [List.eq_nil_iff_forall_not_mem, hsame.pid]
  have hnocomm : opts.comm = [] ↔ opts'.comm = [] := by
    simp only [List.eq_nil_iff_forall_not_mem, hsame.comm]
  rw [← Bool.not_inj_iff, Bool.eq_iff_iff, Bool.not_eq_true', Bool.not_eq_true',
    ignorePidComm_eq_false_iff, ignorePidComm_eq_false_iff]
  simp only [hnopid, hnocomm, hsame.pid, hsame.comm]

/-- `main` looks at the flags only. -/
theorem autoload (hsame : SameRequest opts opts') (program : Program) :
    autoload opts program = SchedAnalyzer.autoload opts' program := by
  have hflags : opts.isOn = opts'.isOn := funext hsame.isOn
  rw [SchedAnalyzer.autoload, SchedAnalyzer.autoload, disabledPrograms_request opts,
    disabledPrograms_request opts', SaOpts.request, SaOpts.request, hflags]
  rfl

/-- The handlers look at the flags, and at the filters through `ignore_pid_comm`. -/
theorem handleRecord (hsame : SameRequest opts opts') (kallsyms : SymbolTable maxNumSymbols)
    (record : Record) :
    handleRecord ⟨opts, kallsyms⟩ record = SchedAnalyzer.handleRecord ⟨opts', kallsyms⟩ record := by
  have hflags : opts.isOn = opts'.isOn := funext hsame.isOn
  have hignore : ∀ pid comm, SchedAnalyzer.ignorePidComm opts.request pid comm =
      SchedAnalyzer.ignorePidComm opts'.request pid comm := hsame.ignorePidComm
  rw [handleRecord_request, handleRecord_request opts']
  cases record
  case taskPelt e =>
    simp only [SchedAnalyzer.handleRecord, handleTaskPeltEvent, hignore]
    split
    · rfl
    · simp only [SaOpts.request, hflags]
  case schedSwitch e =>
    simp only [SchedAnalyzer.handleRecord, handleSchedSwitchEvent, hignore]
    split
    · rfl
    · simp only [SaOpts.request, hflags]
  all_goals
    rw [SaOpts.request, SaOpts.request, hflags]
    rfl

end SameRequest

/-- What follows the parser tells such options not apart. -/
theorem SameRequest.tracesAlike {opts opts' : SaOpts} (hsame : SameRequest opts opts') :
    TracesAlike opts opts' where
  autoload := hsame.autoload
  ignorePidComm := hsame.ignorePidComm
  handleRecord parsed record := by
    have hipi : opts.ipi = opts'.ipi := hsame.isOn .ipi
    rw [mainState, mainState, hipi]
    exact hsame.handleRecord _ record

/-- Lines with the same options make the same request, when no filter is one too many. -/
theorem ReadsLine.sameRequest {first second : List TraceOption} {opts opts' : SaOpts}
    (hfirst : ReadsLine first opts) (hsecond : ReadsLine second opts')
    (hfits : FitsFilters first) (hfits' : FitsFilters second)
    (hsame : SameOptions first second) : SameRequest opts opts' where
  isOn signal := by
    rw [hfirst.isOn, hsecond.isOn]
    exact hsame.any_turnsOn signal
  pid pid := by
    rw [hfirst.collected.pid, hsecond.collected.pid, ← List.map_take, ← List.map_take,
      List.take_of_length_le hfits.pid, List.take_of_length_le hfits'.pid, List.mem_map,
      List.mem_map]
    exact exists_congr fun arg => and_congr_left fun _ =>
      ⟨hsame.mem_argsOf_filter rfl, hsame.symm.mem_argsOf_filter rfl⟩
  comm comm := by
    rw [hfirst.collected.comm, hsecond.collected.comm, ← List.map_take, ← List.map_take,
      List.take_of_length_le hfits.comm, List.take_of_length_le hfits'.comm, List.mem_map,
      List.mem_map]
    exact exists_congr fun text => and_congr_left fun _ =>
      ⟨hsame.mem_argsOf_filter rfl, hsame.symm.mem_argsOf_filter rfl⟩

/-- Lines with the same options are accepted, and alike for all that follows. -/
theorem tracesAlike_of_sameOptions {first second : List TraceOption}
    (hfirst : FitsFilters first) (hsecond : FitsFilters second)
    (hsame : SameOptions first second) :
    ∃ opts opts' message message',
      parseCommandLine .initial (commandLine first) = .accepted opts message ∧
      parseCommandLine .initial (commandLine second) = .accepted opts' message' ∧
        TracesAlike opts opts' := by
  obtain ⟨opts, message, hparse, hreads⟩ := readsLine_initial.run first
  obtain ⟨opts', message', hparse', hreads'⟩ := readsLine_initial.run second
  refine ⟨opts, opts', message, message', hparse, hparse', ?_⟩
  exact (hreads.sameRequest hreads' hfirst hsecond hsame).tracesAlike

/-- `--util_est --pid 7 --ipi`. -/
def groupedLine : List TraceOption :=
  [.event .utilEst, .pid ['7'] (by decide), .event .ipi]

/-- `--ipi --util_est_task --pid 7 --util_est_cpu --pid 7`. -/
def expandedLine : List TraceOption :=
  [.event .ipi, .event .utilEstTask, .pid ['7'] (by decide), .event .utilEstCpu,
    .pid ['7'] (by decide)]

theorem tracesAlike_groupedLine :
    ∃ opts opts' message message',
      parseCommandLine .initial (commandLine groupedLine) = .accepted opts message ∧
      parseCommandLine .initial (commandLine expandedLine) = .accepted opts' message' ∧
        TracesAlike opts opts' :=
  tracesAlike_of_sameOptions ⟨by decide, by decide⟩ ⟨by decide, by decide⟩ fun option => by
    simp [groupedLine, expandedLine, TraceOption.parts, EventOption.parts]
    tauto

end SchedAnalyzer
