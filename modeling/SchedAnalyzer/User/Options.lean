import SchedAnalyzer.Foundation.Strtol
import SchedAnalyzer.Bpf.Events

/-! # Options

The global `sa_opts` and the option parser that fills it. An array with its
counter is the list of its entries in use. Four of the arrays are stored to
without looking at the counter; a store past such an array is undefined and
ends the model's run.
-/

namespace SchedAnalyzer

open Foundation.CString

/-- `MAX_FILTERS_NUM`. -/
def maxFiltersNum : Nat := 128

/-- `struct sa_opts`. -/
structure SaOpts where
  system : Bool
  app : Bool
  output : List Char
  outputPath : Option (List Char)
  maxSize : Int64
  ftraceEvent : List (List Char)
  atraceCat : List (List Char)
  functionGraph : List (List Char)
  functionFilter : List (List Char)
  loadAvgCpu : Bool
  runnableAvgCpu : Bool
  utilAvgCpu : Bool
  loadAvgTask : Bool
  runnableAvgTask : Bool
  utilAvgTask : Bool
  utilAvgRt : Bool
  utilAvgDl : Bool
  utilAvgIrq : Bool
  loadAvgThermal : Bool
  utilEstCpu : Bool
  utilEstTask : Bool
  cpuNrRunning : Bool
  cpuIdle : Bool
  loadBalance : Bool
  ipi : Bool
  irq : Bool
  pid : List Int32
  comm : List (List Char)
  deriving DecidableEq

/-- The initial value of `sa_opts`. -/
def SaOpts.initial : SaOpts where
  system := true
  app := false
  output := "sched-analyzer.perfetto-trace".toList
  outputPath := none
  maxSize := 250 * 1024 * 1024
  ftraceEvent := []
  atraceCat := []
  functionGraph := []
  functionFilter := []
  loadAvgCpu := false
  runnableAvgCpu := false
  utilAvgCpu := false
  loadAvgTask := false
  runnableAvgTask := false
  utilAvgTask := false
  utilAvgRt := false
  utilAvgDl := false
  utilAvgIrq := false
  loadAvgThermal := false
  utilEstCpu := false
  utilEstTask := false
  cpuNrRunning := false
  cpuIdle := false
  loadBalance := false
  ipi := false
  irq := false
  pid := []
  comm := []

/-- The keys `parse_arg` is called with: `enum sa_opts_flags`, the keys argp
adds, and any other. -/
inductive OptKey
  | system
  | app
  | output
  | outputPath
  | maxSize
  | ftraceEvent
  | atraceCat
  | functionGraph
  | functionFilter
  | loadAvg
  | runnableAvg
  | utilAvg
  | loadAvgCpu
  | runnableAvgCpu
  | utilAvgCpu
  | loadAvgTask
  | runnableAvgTask
  | utilAvgTask
  | utilAvgRt
  | utilAvgDl
  | utilAvgIrq
  | loadAvgThermal
  | utilEst
  | utilEstCpu
  | utilEstTask
  | cpuNrRunning
  | cpuIdle
  | loadBalance
  | ipi
  | irq
  | filterPid
  | filterComm
  | argpKeyArg
  | argpKeyEnd
  | unknown
  deriving DecidableEq, Repr

/-- `EINVAL` and `ARGP_ERR_UNKNOWN`. -/
def einval : Int := 22

def argpErrUnknown : Int := 7

/-- What `parse_arg` returns when it rejects an option: `errno` as `perror` leaves it, or a
number of its own. -/
inductive ArgError
  | errno
  | number (value : Int)
  deriving DecidableEq

/-- It tells `argp_parse` to stop. `perror` never sets `errno` to zero. -/
def ArgError.IsFailure : ArgError → Prop
  | errno => True
  | number value => value ≠ 0

instance : DecidablePred ArgError.IsFailure
  | .errno => inferInstanceAs (Decidable True)
  | .number value => inferInstanceAs (Decidable (value ≠ 0))

/-- How a call of `parse_arg` ends. Rejection keeps what was stored before it. -/
inductive ParseResult
  | accepted (opts : SaOpts) (message : List Char)
  | rejected (opts : SaOpts) (error : ArgError) (message : List Char)
  | outOfBounds
  deriving DecidableEq

/-- Accept without a message. -/
def ParseResult.done (opts : SaOpts) : ParseResult :=
  .accepted opts []

/-- The store `array[num] = arg; num++` into an array of `MAX_FILTERS_NUM`. -/
def storeUnchecked (array : List (List Char)) (arg : List Char)
    (set : List (List Char) → SaOpts) : ParseResult :=
  if array.length < maxFiltersNum then .done (set (array ++ [arg])) else .outOfBounds

/-- The `--max_size` branch: the product is stored before the checks. -/
def parseMaxSize (opts : SaOpts) (arg : List Char) : ParseResult :=
  let read := strtol 0 arg
  let opts := { opts with maxSize := Int64.ofInt read.value * 1024 * 1024 }
  if read.erange then .rejected opts .errno "Unsupported max_size value\n".toList
  else if read.consumed = 0 then
    .rejected opts (.number (-einval)) "max_size: no digits were found\n".toList
  else .done opts

/-- The `--pid` branch. The value is narrowed to `pid_t` by the store. -/
def parseFilterPid (opts : SaOpts) (arg : List Char) : ParseResult :=
  if maxFiltersNum ≤ opts.pid.length then
    .accepted opts ("Can't accept more --pid, dropping ".toList ++ arg ++ ['\n'])
  else
    let read := strtol 0 arg
    if read.erange then .rejected opts .errno "Unsupported pid value\n".toList
    else if read.consumed = 0 then
      .rejected opts (.number (-einval)) "pid: no digits were found\n".toList
    else .done { opts with pid := opts.pid ++ [Int32.ofInt read.value] }

/-- The `--comm` branch; the stored entry is a zeroed array before the copy. -/
def parseFilterComm (opts : SaOpts) (arg : List Char) : ParseResult :=
  if maxFiltersNum ≤ opts.comm.length then
    .accepted opts ("Can't accept more --comm, dropping ".toList ++ arg ++ ['\n'])
  else
    .done { opts with
      comm := opts.comm ++
        [(strncpy (List.replicate taskCommLen nul) arg (taskCommLen - 1)).take (taskCommLen - 1)
          ++ [nul]] }

/-- `parse_arg(key, arg, state)`. `argp_usage` does not return. -/
def parseArg (opts : SaOpts) (key : OptKey) (arg : List Char) : ParseResult :=
  match key with
  | .system => .done { opts with system := true, app := false }
  | .app => .done { opts with system := false, app := true }
  | .output => .done { opts with output := arg }
  | .outputPath => .done { opts with outputPath := some arg }
  | .maxSize => parseMaxSize opts arg
  | .ftraceEvent =>
      storeUnchecked opts.ftraceEvent arg fun array => { opts with ftraceEvent := array }
  | .atraceCat =>
      storeUnchecked opts.atraceCat arg fun array => { opts with atraceCat := array }
  | .functionGraph =>
      storeUnchecked opts.functionGraph arg fun array => { opts with functionGraph := array }
  | .functionFilter =>
      storeUnchecked opts.functionFilter arg fun array => { opts with functionFilter := array }
  | .loadAvg =>
      .done { opts with loadAvgCpu := true, loadAvgTask := true, loadAvgThermal := true }
  | .runnableAvg => .done { opts with runnableAvgCpu := true, runnableAvgTask := true }
  | .utilAvg =>
      .done { opts with
        utilAvgCpu := true
        utilAvgTask := true
        utilAvgRt := true
        utilAvgDl := true
        utilAvgIrq := true }
  | .loadAvgCpu => .done { opts with loadAvgCpu := true }
  | .runnableAvgCpu => .done { opts with runnableAvgCpu := true }
  | .utilAvgCpu => .done { opts with utilAvgCpu := true }
  | .loadAvgTask => .done { opts with loadAvgTask := true }
  | .runnableAvgTask => .done { opts with runnableAvgTask := true }
  | .utilAvgTask => .done { opts with utilAvgTask := true }
  | .utilAvgRt => .done { opts with utilAvgRt := true }
  | .utilAvgDl => .done { opts with utilAvgDl := true }
  | .utilAvgIrq => .done { opts with utilAvgIrq := true }
  | .loadAvgThermal => .done { opts with loadAvgThermal := true }
  | .utilEst => .done { opts with utilEstCpu := true, utilEstTask := true }
  | .utilEstCpu => .done { opts with utilEstCpu := true }
  | .utilEstTask => .done { opts with utilEstTask := true }
  | .cpuNrRunning => .done { opts with cpuNrRunning := true }
  | .cpuIdle => .done { opts with cpuIdle := true }
  | .loadBalance => .done { opts with loadBalance := true }
  | .ipi => .done { opts with ipi := true }
  | .irq => .done { opts with irq := true }
  | .filterPid => parseFilterPid opts arg
  | .filterComm => parseFilterComm opts arg
  | .argpKeyArg => .rejected opts (.number (-einval)) []
  | .argpKeyEnd => .done opts
  | .unknown => .rejected opts (.number argpErrUnknown) []

/-- A command line: the options argp finds, in order, with their arguments. -/
abbrev CommandLine := List (OptKey × List Char)

/-- A result, with what was printed before it. -/
def ParseResult.after (message : List Char) : ParseResult → ParseResult
  | accepted opts rest => .accepted opts (message ++ rest)
  | rejected opts error rest => .rejected opts error (message ++ rest)
  | outOfBounds => .outOfBounds

/-- `argp_parse` calls `parse_arg` for one option after the other and ends at the
first it rejects. -/
def parseCommandLine (opts : SaOpts) : CommandLine → ParseResult
  | [] => .done opts
  | (key, arg) :: rest =>
      match parseArg opts key arg with
      | .accepted next message => (parseCommandLine next rest).after message
      | .rejected left error message => .rejected left error message
      | .outOfBounds => .outOfBounds

end SchedAnalyzer
