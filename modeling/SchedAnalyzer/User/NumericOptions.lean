import SchedAnalyzer.User.TaskFilters

/-! # Options with a number

`--pid` and `--max_size` read their argument with `strtol` and look at what it
reports, not at where the number ends. What is stored is the number cut to a
`pid_t`, or its product with the size of a MiB, and that before the checks.
-/

namespace SchedAnalyzer

open Foundation.CString

/-! ## Pids -/

/-- A `--pid` that there is room for stores the integer its argument denotes, so
that the tasks of this pid are let through and no others, or it is refused and
stores nothing. -/
def StoresPid (opts : SaOpts) (arg : List Char) : Prop :=
  match parseArg opts .filterPid arg with
  | .accepted left _ => ∃ pid : Int32, wholeInteger 0 arg = some pid.toInt ∧
      left = { opts with pid := opts.pid ++ [pid] } ∧
        ∀ other comm, ignorePidComm left other comm = false ↔
          other = pid ∨ other ∈ opts.pid ∨ ∃ filter ∈ opts.comm, cstr filter <:+: cstr comm
  | .rejected left error _ => error.IsFailure ∧ left = opts
  | .outOfBounds => False

/-- A number that `strtol` finds ends its string and is one of a `pid_t`. -/
def PidText (arg : List Char) : Prop :=
  (strtol 0 arg).erange = false → 0 < (strtol 0 arg).consumed →
    (strtol 0 arg).consumed = (cstr arg).length ∧
      -2 ^ 31 ≤ (strtol 0 arg).value ∧ (strtol 0 arg).value < 2 ^ 31

/-- One more pid lets through the tasks of that pid. -/
theorem ignorePidComm_append_pid (opts : SaOpts) (pid other : Int32) (comm : List Char) :
    ignorePidComm { opts with pid := opts.pid ++ [pid] } other comm = false ↔
      other = pid ∨ other ∈ opts.pid ∨ ∃ filter ∈ opts.comm, cstr filter <:+: cstr comm := by
  have hsome : opts.pid ++ [pid] ≠ [] := List.append_ne_nil_of_right_ne_nil _ (by simp)
  rw [ignorePidComm_eq_false_iff]
  simp only [hsome, false_and, false_or, List.mem_append, List.mem_singleton]
  rw [or_comm (a := other ∈ opts.pid), or_assoc]

/-- With room for one more, the argument of `--pid` is stored as it stands or
refused, if and only if a number in front ends the string and is in range. -/
theorem storesPid_iff (opts : SaOpts) (arg : List Char)
    (hroom : opts.pid.length < maxFiltersNum) : StoresPid opts arg ↔ PidText arg := by
  simp only [StoresPid, PidText, parseArg, parseFilterPid, if_neg (Nat.not_le.mpr hroom)]
  have hends := strtol_ends 0 arg
  generalize hread : strtol 0 arg = read at hends
  cases hends with
  | noDigits =>
      refine iff_of_true ⟨by decide, rfl⟩ ?_
      intro _ hconsumed
      exact absurd hconsumed (Nat.lt_irrefl 0)
  | below => exact iff_of_true ⟨by decide, rfl⟩ fun herange => Bool.noConfusion herange
  | above => exact iff_of_true ⟨by decide, rfl⟩ fun herange => Bool.noConfusion herange
  | @inRange value consumed hconsumed _ _ =>
      have hwhole := wholeInteger_eq_some_iff hread hconsumed
      simp only [Bool.false_eq_true, if_false, if_neg (Nat.pos_iff_ne_zero.mp hconsumed),
        ParseResult.done, hwhole]
      constructor
      · rintro ⟨pid, ⟨hend, hvalue⟩, -⟩ - -
        exact ⟨hend, hvalue ▸ pid.le_toInt, hvalue ▸ pid.toInt_lt⟩
      · intro htext
        obtain ⟨hend, hlo, hhi⟩ := htext trivial hconsumed
        refine ⟨Int32.ofInt value, ⟨hend, ?_⟩, rfl, ignorePidComm_append_pid opts _⟩
        exact (Int32.toInt_ofInt_of_le hlo hhi).symm

theorem storesPid_of_room : StoresPid .initial "1234".toList :=
  (storesPid_iff .initial "1234".toList (by decide)).mpr (by
    unfold PidText
    decide)

/-- A number past `pid_t` is stored as another pid. -/
theorem storesPid_fails_past_pid_t :
    ¬ ∀ (opts : SaOpts) (arg : List Char), opts.pid.length < maxFiltersNum →
      StoresPid opts arg := by
  intro hstores
  have hpid := hstores .initial "4294967297".toList (by decide)
  rw [StoresPid] at hpid
  obtain ⟨pid, hwhole, hleft, -⟩ := hpid
  have hstored : pid = 1 := by
    have hlist := congrArg SaOpts.pid hleft
    exact (List.singleton_inj.mp hlist).symm
  subst hstored
  exact absurd hwhole (by decide)

/-! ## The size of the trace -/

/-- What `start_perfetto_trace` gives to `set_max_file_size_bytes`. -/
def SaOpts.maxFileSizeBytes (opts : SaOpts) : UInt64 :=
  opts.maxSize.toUInt64

/-- A `--max_size` stores the size its argument denotes, which is the one the
recording is limited to, or it is refused and stores nothing. -/
def StoresMaxSize (opts : SaOpts) (arg : List Char) : Prop :=
  match parseArg opts .maxSize arg with
  | .accepted left _ => ∃ size : Nat, wholeInteger 0 arg = some (size : Int) ∧
      left.maxSize.toInt = size * 2 ^ 20 ∧ left.maxFileSizeBytes.toNat = size * 2 ^ 20
  | .rejected left error _ => error.IsFailure ∧ left.maxSize = opts.maxSize
  | .outOfBounds => False

/-- A number that `strtol` finds ends its string and is a size of less than
`2^43` MiB; where it finds none, or one past `long`, the previous size is what
the product of its result wraps to. -/
def MaxSizeText (previous : Int64) (arg : List Char) : Prop :=
  if (strtol 0 arg).erange = false ∧ 0 < (strtol 0 arg).consumed then
    (strtol 0 arg).consumed = (cstr arg).length ∧
      0 ≤ (strtol 0 arg).value ∧ (strtol 0 arg).value < 2 ^ 43
  else previous.toInt = if (strtol 0 arg).value = longMax then -2 ^ 20 else 0

/-- The stored product, as a number. -/
theorem toInt_mebibytes (value : Int) :
    (Int64.ofInt value * 1024 * 1024).toInt = (value * 2 ^ 20).bmod (2 ^ 64) := by
  have hproduct : Int64.ofInt value * 1024 * 1024 = Int64.ofInt (value * 2 ^ 20) := by
    rw [Int64.ofInt_mul, Int64.mul_assoc]
    rfl
  rw [hproduct, Int64.toInt_ofInt]
  rfl

/-- It is a size below `2^43` times a MiB without wrapping, and the size of the file. -/
theorem stored_mebibytes (value : Int) :
    (∃ size : Nat, value = size ∧
      (Int64.ofInt value * 1024 * 1024).toInt = size * 2 ^ 20 ∧
        (Int64.ofInt value * 1024 * 1024).toUInt64.toNat = size * 2 ^ 20) ↔
      0 ≤ value ∧ value < 2 ^ 43 := by
  have hproduct := toInt_mebibytes value
  generalize Int64.ofInt value * 1024 * 1024 = product at hproduct
  constructor
  · rintro ⟨size, rfl, hsize, -⟩
    have hbound := product.toInt_lt
    rw [hsize] at hbound
    refine ⟨Int.natCast_nonneg size, ?_⟩
    omega
  · rintro ⟨hnonneg, hsmall⟩
    obtain ⟨size, rfl⟩ := Int.eq_ofNat_of_zero_le hnonneg
    have hexact : product.toInt = size * 2 ^ 20 := by
      rw [hproduct, Int.bmod_eq_of_le_mul_two] <;> omega
    refine ⟨size, rfl, hexact, ?_⟩
    rw [Int64.toNat_toUInt64_of_le, Int64.toNatClampNeg, hexact]
    · omega
    · rw [Int64.le_iff_toInt_le, hexact]
      exact Int.mul_nonneg hnonneg (by decide)

/-- The argument of `--max_size` is stored as it stands or refused and nothing
stored, if and only if a number in front ends the string and is less than `2^43`;
a refusal leaves the size as it was only where that is what it stored. -/
theorem storesMaxSize_iff (opts : SaOpts) (arg : List Char) :
    StoresMaxSize opts arg ↔ MaxSizeText opts.maxSize arg := by
  have hrefused : ∀ value : Int, Int64.ofInt value * 1024 * 1024 = opts.maxSize ↔
      opts.maxSize.toInt = (value * 2 ^ 20).bmod (2 ^ 64) := by
    intro value
    rw [← Int64.toInt_inj, toInt_mebibytes]
    exact eq_comm
  simp only [StoresMaxSize, MaxSizeText, parseArg, parseMaxSize]
  have hends := strtol_ends 0 arg
  generalize hread : strtol 0 arg = read at hends
  cases hends with
  | noDigits =>
      simp only [Bool.false_eq_true, if_false, if_true, Nat.lt_irrefl, and_false, hrefused]
      exact and_iff_right (by decide)
  | below =>
      simp only [if_true, Bool.true_eq_false, false_and, if_false, hrefused]
      exact and_iff_right (by decide)
  | above =>
      simp only [if_true, Bool.true_eq_false, false_and, if_false, hrefused]
      exact and_iff_right (by decide)
  | @inRange value consumed hconsumed _ _ =>
      have hwhole := wholeInteger_eq_some_iff hread hconsumed
      simp only [Bool.false_eq_true, if_false, if_neg (Nat.pos_iff_ne_zero.mp hconsumed),
        ParseResult.done, hwhole, hconsumed, and_self, if_true, SaOpts.maxFileSizeBytes, and_assoc,
        exists_and_left, stored_mebibytes]

/-- The product of a size past `2^43` wraps. -/
theorem storesMaxSize_fails_past_int64 :
    ¬ ∀ (opts : SaOpts) (arg : List Char), StoresMaxSize opts arg := by
  intro hstores
  obtain ⟨size, hwhole, hsize, -⟩ := hstores .initial "17592186044416".toList
  have hstored :
      (Int64.ofInt (strtol 0 "17592186044416".toList).value * 1024 * 1024).toInt = 0 := by
    decide
  have hzero : size = 0 := by
    have hproduct := hstored.symm.trans hsize
    omega
  subst hzero
  exact absurd hwhole (by decide)

end SchedAnalyzer
