import SchedAnalyzer.Foundation.Lists
import SchedAnalyzer.User.Signals

/-! # The arrays of the options

Six options collect their arguments in arrays of the same length. Two of them
compare their counter with it and drop what does not fit, four do not compare.
-/

namespace SchedAnalyzer

open Foundation.CString Foundation.Lists

/-! ## The arrays -/

/-- The arrays that are stored to without a look at their counters. -/
inductive UncheckedArray
  | ftraceEvent
  | atraceCat
  | functionGraph
  | functionFilter
  deriving DecidableEq, Repr

/-- The entries of an array. -/
def SaOpts.unchecked (opts : SaOpts) : UncheckedArray → List (List Char)
  | .ftraceEvent => opts.ftraceEvent
  | .atraceCat => opts.atraceCat
  | .functionGraph => opts.functionGraph
  | .functionFilter => opts.functionFilter

/-- An array replaced. -/
def SaOpts.store (opts : SaOpts) (entries : List (List Char)) : UncheckedArray → SaOpts
  | .ftraceEvent => { opts with ftraceEvent := entries }
  | .atraceCat => { opts with atraceCat := entries }
  | .functionGraph => { opts with functionGraph := entries }
  | .functionFilter => { opts with functionFilter := entries }

@[simp] theorem SaOpts.store_pid (opts : SaOpts) (entries : List (List Char))
    (array : UncheckedArray) : (opts.store entries array).pid = opts.pid := by
  cases array <;> rfl

@[simp] theorem SaOpts.store_comm (opts : SaOpts) (entries : List (List Char))
    (array : UncheckedArray) : (opts.store entries array).comm = opts.comm := by
  cases array <;> rfl

@[simp] theorem SaOpts.store_unchecked_self (opts : SaOpts) (entries : List (List Char))
    (array : UncheckedArray) : (opts.store entries array).unchecked array = entries := by
  cases array <;> rfl

theorem SaOpts.store_unchecked_of_ne (opts : SaOpts) (entries : List (List Char))
    {array other : UncheckedArray} (hne : other ≠ array) :
    (opts.store entries array).unchecked other = opts.unchecked other := by
  cases array <;> cases other <;> first | rfl | exact absurd rfl hne

/-- No counter is past its array. -/
structure SaOpts.WithinArrays (opts : SaOpts) : Prop where
  unchecked : ∀ array, (opts.unchecked array).length ≤ maxFiltersNum
  pid : opts.pid.length ≤ maxFiltersNum
  comm : opts.comm.length ≤ maxFiltersNum

theorem SaOpts.withinArrays_initial : SaOpts.initial.WithinArrays where
  unchecked array := by cases array <;> exact Nat.zero_le _
  pid := Nat.zero_le _
  comm := Nat.zero_le _

/-- The array element that a `--comm` argument becomes. -/
def commEntry (text : List Char) : List Char :=
  (strncpy (List.replicate taskCommLen nul) text (taskCommLen - 1)).take (taskCommLen - 1) ++ [nul]

theorem cstr_commEntry (text : List Char) :
    cstr (commEntry text) = (cstr text).take (taskCommLen - 1) :=
  cstr_strncpy_terminated _ _ _

/-- The array element that a `--pid` argument becomes. -/
def pidEntry (arg : List Char) : Int32 :=
  Int32.ofInt (strtol 0 arg).value

/-! ## One option -/

/-- The option that stores to an array without a check. -/
def UncheckedArray.key : UncheckedArray → OptKey
  | .ftraceEvent => .ftraceEvent
  | .atraceCat => .atraceCat
  | .functionGraph => .functionGraph
  | .functionFilter => .functionFilter

theorem UncheckedArray.key_injective : Function.Injective UncheckedArray.key := by
  intro array other heq
  cases array <;> cases other <;> first | rfl | exact OptKey.noConfusion heq

/-- Whether an option is for one of the six arrays. -/
def OptKey.fillsArray : OptKey → Bool
  | .ftraceEvent | .atraceCat | .functionGraph | .functionFilter | .filterPid | .filterComm => true
  | _ => false

/-- The argument, when the option is of the wanted kind. -/
def argFor (wanted key : OptKey) (arg : List Char) : List (List Char) :=
  if key = wanted then [arg] else []

theorem argFor_self (key : OptKey) (arg : List Char) : argFor key key arg = [arg] :=
  if_pos rfl

theorem argFor_of_ne {wanted key : OptKey} (hne : key ≠ wanted) (arg : List Char) :
    argFor wanted key arg = [] :=
  if_neg hne

/-- Whether `parse_arg` rejects an option that comes after `pids` accepted pids. -/
def refuses (pids : Nat) (key : OptKey) (arg : List Char) : Bool :=
  match key with
  | .maxSize => (strtol 0 arg).erange || (strtol 0 arg).consumed == 0
  | .filterPid =>
      decide (pids < maxFiltersNum) && ((strtol 0 arg).erange || (strtol 0 arg).consumed == 0)
  | .argpKeyArg => true
  | .unknown => true
  | _ => false

/-- Nothing in the arrays changed. -/
structure SaOpts.SameArrays (opts next : SaOpts) : Prop where
  unchecked : ∀ array, next.unchecked array = opts.unchecked array
  pid : next.pid = opts.pid
  comm : next.comm = opts.comm

/-- The argument went to the array of its option, and to no other. -/
structure SaOpts.Stores (opts : SaOpts) (key : OptKey) (arg : List Char) (next : SaOpts) :
    Prop where
  unchecked : ∀ array, next.unchecked array = opts.unchecked array ++ argFor array.key key arg
  pid : next.pid = (opts.pid ++ (argFor .filterPid key arg).map pidEntry).take maxFiltersNum
  comm : next.comm = (opts.comm ++ (argFor .filterComm key arg).map commEntry).take maxFiltersNum
  within : next.WithinArrays

/-- The event flags are the same. -/
structure SaOpts.SameEvents (opts next : SaOpts) : Prop where
  isOn : ∀ option, next.isOn option = opts.isOn option
  irq : next.irq = opts.irq

/-- All that `parse_arg` can do with an option. -/
inductive StepsArg (opts : SaOpts) (key : OptKey) (arg : List Char) : ParseResult → Prop
  | accepted {next : SaOpts} {message : List Char}
      (haccepted : refuses opts.pid.length key arg = false)
      (hstores : opts.Stores key arg next)
      (hevents : key.fillsArray = true → opts.SameEvents next) :
      StepsArg opts key arg (.accepted next message)
  | rejected {left : SaOpts} {error : ArgError} {message : List Char}
      (hrefused : refuses opts.pid.length key arg = true)
      (hsame : opts.SameArrays left)
      (hevents : key.fillsArray = true → opts.SameEvents left) :
      StepsArg opts key arg (.rejected left error message)
  | outOfBounds {array : UncheckedArray}
      (haccepted : refuses opts.pid.length key arg = false)
      (hkey : array.key = key)
      (hfull : (opts.unchecked array).length = maxFiltersNum) :
      StepsArg opts key arg .outOfBounds

variable {opts : SaOpts}

theorem SaOpts.SameEvents.refl (opts : SaOpts) : opts.SameEvents opts :=
  ⟨fun _ => rfl, rfl⟩

theorem SaOpts.store_sameEvents (opts : SaOpts) (entries : List (List Char))
    (array : UncheckedArray) : opts.SameEvents (opts.store entries array) := by
  cases array <;> exact ⟨fun option => by cases option <;> rfl, rfl⟩

/-- Without an argument for the arrays, they stay. -/
theorem SaOpts.SameArrays.stores {next : SaOpts} {key : OptKey} {arg : List Char}
    (hsame : opts.SameArrays next) (hwithin : opts.WithinArrays)
    (hother : key.fillsArray = false) : opts.Stores key arg next := by
  have hnone : ∀ wanted : OptKey, wanted.fillsArray = true → argFor wanted key arg = [] := by
    intro wanted hwanted
    refine argFor_of_ne (fun heq => ?_) arg
    rw [heq, hwanted] at hother
    exact Bool.noConfusion hother
  refine ⟨?_, ?_, ?_, ?_, ?_, ?_⟩
  · intro array
    rw [hnone array.key (by cases array <;> rfl), List.append_nil]
    exact hsame.unchecked array
  · rw [hnone .filterPid rfl, hsame.pid]
    exact (take_append_nil hwithin.pid).symm
  · rw [hnone .filterComm rfl, hsame.comm]
    exact (take_append_nil hwithin.comm).symm
  · exact fun array => hsame.unchecked array ▸ hwithin.unchecked array
  · exact hsame.pid ▸ hwithin.pid
  · exact hsame.comm ▸ hwithin.comm

/-- A pid is appended while there is room, and dropped after that. -/
theorem stepsArg_filterPid (hwithin : opts.WithinArrays) (arg : List Char) :
    StepsArg opts .filterPid arg (parseArg opts .filterPid arg) := by
  simp only [parseArg, parseFilterPid]
  split
  next hfull =>
    have hlength := Nat.le_antisymm hwithin.pid hfull
    refine .accepted ?_ ⟨?_, ?_, ?_, hwithin⟩ fun _ => .refl opts
    · simp [refuses, Nat.not_lt.mpr hfull]
    · intro array
      rw [argFor_of_ne (by cases array <;> exact OptKey.noConfusion), List.append_nil]
    · exact (List.take_left' hlength).symm
    · exact (take_append_nil hwithin.comm).symm
  next hroom =>
    have hlt := Nat.lt_of_not_le hroom
    by_cases hbad : (strtol 0 arg).erange = true ∨ (strtol 0 arg).consumed = 0
    · have hrefused : refuses opts.pid.length .filterPid arg = true := by
        simpa [refuses, hlt] using hbad
      have hsame : opts.SameArrays opts := ⟨fun _ => rfl, rfl, rfl⟩
      by_cases hrange : (strtol 0 arg).erange = true
      · rw [if_pos hrange]
        exact .rejected hrefused hsame fun _ => .refl opts
      · rw [if_neg hrange, if_pos (hbad.resolve_left hrange)]
        exact .rejected hrefused hsame fun _ => .refl opts
    · obtain ⟨hrange, hdigits⟩ := not_or.mp hbad
      rw [if_neg hrange, if_neg hdigits]
      have hlength : (opts.pid ++ [pidEntry arg]).length ≤ maxFiltersNum := by
        rw [List.length_append, List.length_singleton]
        exact hlt
      refine .accepted ?_ ⟨?_, ?_, ?_, hwithin.unchecked, hlength, hwithin.comm⟩
        fun _ => ⟨fun option => by cases option <;> rfl, rfl⟩
      · simp [refuses, hrange, hdigits]
      · intro array
        rw [argFor_of_ne (by cases array <;> exact OptKey.noConfusion), List.append_nil]
        cases array <;> rfl
      · exact (List.take_of_length_le hlength).symm
      · exact (take_append_nil hwithin.comm).symm

/-- Likewise a comm. -/
theorem stepsArg_filterComm (hwithin : opts.WithinArrays) (arg : List Char) :
    StepsArg opts .filterComm arg (parseArg opts .filterComm arg) := by
  have hunchecked : ∀ array : UncheckedArray, argFor array.key .filterComm arg = [] := fun array =>
    argFor_of_ne (by cases array <;> exact OptKey.noConfusion) arg
  simp only [parseArg, parseFilterComm]
  split
  next hfull =>
    have hlength := Nat.le_antisymm hwithin.comm hfull
    refine .accepted rfl ⟨?_, ?_, ?_, hwithin⟩ fun _ => .refl opts
    · intro array
      rw [hunchecked, List.append_nil]
    · exact (take_append_nil hwithin.pid).symm
    · exact (List.take_left' hlength).symm
  next hroom =>
    have hlength : (opts.comm ++ [commEntry arg]).length ≤ maxFiltersNum := by
      rw [List.length_append, List.length_singleton]
      exact Nat.lt_of_not_le hroom
    refine .accepted rfl ⟨?_, ?_, ?_, hwithin.unchecked, hwithin.pid, hlength⟩
      fun _ => ⟨fun option => by cases option <;> rfl, rfl⟩
    · intro array
      rw [hunchecked, List.append_nil]
      cases array <;> rfl
    · exact (take_append_nil hwithin.pid).symm
    · exact (List.take_of_length_le hlength).symm

/-- A store without a check either has room or leaves the array. -/
theorem stepsArg_storeUnchecked (hwithin : opts.WithinArrays) (array : UncheckedArray)
    (arg : List Char) :
    StepsArg opts array.key arg
      (storeUnchecked (opts.unchecked array) arg fun entries => opts.store entries array) := by
  have haccepted : refuses opts.pid.length array.key arg = false := by cases array <;> rfl
  have hpid : argFor .filterPid array.key arg = [] :=
    argFor_of_ne (by cases array <;> exact OptKey.noConfusion) arg
  have hcomm : argFor .filterComm array.key arg = [] :=
    argFor_of_ne (by cases array <;> exact OptKey.noConfusion) arg
  rw [storeUnchecked]
  split
  next hroom =>
    have hentries : ∀ other, (opts.store (opts.unchecked array ++ [arg]) array).unchecked other =
        opts.unchecked other ++ argFor other.key array.key arg := by
      intro other
      by_cases heq : other = array
      · subst heq
        rw [SaOpts.store_unchecked_self, argFor_self]
      · have hne : array.key ≠ other.key := fun hkey =>
          heq (UncheckedArray.key_injective hkey).symm
        rw [SaOpts.store_unchecked_of_ne _ _ heq, argFor_of_ne hne, List.append_nil]
    refine .accepted haccepted ⟨hentries, ?_, ?_, ?_, ?_, ?_⟩ fun _ => opts.store_sameEvents _ array
    · rw [SaOpts.store_pid, hpid]
      exact (take_append_nil hwithin.pid).symm
    · rw [SaOpts.store_comm, hcomm]
      exact (take_append_nil hwithin.comm).symm
    · intro other
      by_cases heq : other = array
      · subst heq
        rw [SaOpts.store_unchecked_self, List.length_append, List.length_singleton]
        exact hroom
      · rw [SaOpts.store_unchecked_of_ne _ _ heq]
        exact hwithin.unchecked other
    · rw [SaOpts.store_pid]
      exact hwithin.pid
    · rw [SaOpts.store_comm]
      exact hwithin.comm
  next hfull =>
    exact .outOfBounds haccepted rfl
      (Nat.le_antisymm (hwithin.unchecked array) (Nat.le_of_not_lt hfull))

/-- What `parse_arg` does with any option. -/
theorem stepsArg (hwithin : opts.WithinArrays) (key : OptKey) (arg : List Char) :
    StepsArg opts key arg (parseArg opts key arg) := by
  cases key
  case filterPid => exact stepsArg_filterPid hwithin arg
  case filterComm => exact stepsArg_filterComm hwithin arg
  case ftraceEvent => exact stepsArg_storeUnchecked hwithin .ftraceEvent arg
  case atraceCat => exact stepsArg_storeUnchecked hwithin .atraceCat arg
  case functionGraph => exact stepsArg_storeUnchecked hwithin .functionGraph arg
  case functionFilter => exact stepsArg_storeUnchecked hwithin .functionFilter arg
  case maxSize =>
    have hsame : ∀ maxSize, opts.SameArrays { opts with maxSize := maxSize } := fun maxSize =>
      ⟨fun array => by cases array <;> rfl, rfl, rfl⟩
    change StepsArg opts .maxSize arg (parseMaxSize opts arg)
    rw [parseMaxSize]
    by_cases hrange : (strtol 0 arg).erange = true
    · rw [if_pos hrange]
      exact .rejected (by simp [refuses, hrange]) (hsame _) Bool.noConfusion
    · rw [if_neg hrange]
      by_cases hnone : (strtol 0 arg).consumed = 0
      · rw [if_pos hnone]
        exact .rejected (by simp [refuses, hnone]) (hsame _) Bool.noConfusion
      · rw [if_neg hnone]
        exact .accepted (by simp [refuses, hrange, hnone]) ((hsame _).stores hwithin rfl)
          Bool.noConfusion
  case argpKeyArg => exact .rejected rfl ⟨fun _ => rfl, rfl, rfl⟩ fun _ => .refl opts
  case unknown => exact .rejected rfl ⟨fun _ => rfl, rfl, rfl⟩ fun _ => .refl opts
  -- All others store to a flag or to a path.
  all_goals
    refine .accepted rfl ?_ Bool.noConfusion
    refine SaOpts.SameArrays.stores ⟨?_, rfl, rfl⟩ hwithin rfl
    intro array
    cases array <;> rfl

end SchedAnalyzer
