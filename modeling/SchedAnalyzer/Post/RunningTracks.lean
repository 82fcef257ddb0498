import SchedAnalyzer.Foundation.PyString
import SchedAnalyzer.Trace.TaskNames

/-! # The task of a track

The reports of the time a task runs take the task from the name of its track. A
comm with a blank is split where the name ends.
-/

namespace SchedAnalyzer

open Foundation.CString Foundation.Lists Foundation.PyString

/-- The thread and the tid that `__multiply_df_tid_running` reads from a track's
name. An index out of range raises, and the data are not filtered. -/
def decodeTrack (track : List Char) : Option (List Char × List Char) := do
  let first ← (split track)[0]?
  let thread ← (rsplit '-' first)[0]?
  let tid ← (rsplit '-' first)[1]?
  return (thread, tid)

/-- The task is read from the first word, at its last dash. -/
theorem decodeTrack_of_word {word rest : List Char} (hword : ∀ c ∈ word, isWhitespace c = false)
    {thread tid : List Char} (htid : '-' ∉ tid) (hparts : word = thread ++ '-' :: tid) :
    decodeTrack (word ++ ' ' :: rest) = some (thread, tid) := by
  have hne : word ≠ [] := hparts ▸ List.append_ne_nil_of_right_ne_nil _ (List.cons_ne_nil _ _)
  have hsplit : rsplit '-' word = [thread, tid] := by
    rw [rsplit, hparts, partitionLast_append_cons thread htid]
  rw [decodeTrack, split_append_cons hne hword (by decide)]
  change ((rsplit '-' word)[0]?.bind fun thread => (rsplit '-' word)[1]?.bind fun tid =>
    some (thread, tid)) = _
  rw [hsplit]
  rfl

/-- A thread that is read from a name has no whitespace in it. -/
theorem isWhitespace_of_decodeTrack {track thread tid : List Char}
    (hdecode : decodeTrack track = some (thread, tid)) : ∀ c ∈ thread, isWhitespace c = false := by
  simp only [decodeTrack, Option.bind_eq_bind, Option.bind_eq_some_iff] at hdecode
  obtain ⟨first, hfirst, head, hhead, tail, htail, hresult⟩ := hdecode
  cases hresult
  intro c hc
  refine isWhitespace_of_mem_split (List.mem_of_getElem? hfirst) c ?_
  rw [rsplit] at hhead htail
  split at hhead
  next head tail hparts =>
    cases hhead
    rw [eq_of_partitionLast hparts]
    exact List.mem_append_left _ hc
  next hparts =>
    rw [hparts] at htail
    cases htail

/-- The name of a track that fits its buffer. -/
theorem taskTrackName_of_fits {signal : String} {name : List Char} {pid : Int32}
    (hfits : name.length + 1 + (formatInt pid.toInt).length + 1 + signal.toList.length ≤ 31) :
    taskTrackName signal name pid =
      (name ++ '-' :: formatInt pid.toInt) ++ ' ' :: signal.toList := by
  rw [taskTrackName, trackName, snprintf, List.append_assoc, List.take_of_length_le]
  simp only [List.length_append, List.length_cons]
  omega

/-- Only printable ASCII, the blank included. -/
def IsPrintable (text : List Char) : Prop :=
  ∀ c ∈ text, 32 ≤ c.toNat ∧ c.toNat < 127

instance (text : List Char) : Decidable (IsPrintable text) :=
  List.decidableBAll _ text

/-- The task's name and pid are read back, if and only if the name has no blank. -/
theorem decodeTrack_taskTrackName_iff (signal : TaskSignal) {comm : List Char} {pid : Int32}
    (hprintable : IsPrintable comm) (hpid : 0 < pid)
    (hfits : comm.length + 1 + (formatInt pid.toInt).length + 1 +
      signal.format.toList.length ≤ 31) :
    decodeTrack (taskTrackName signal.format comm pid) = some (comm, formatInt pid.toInt) ↔
      ' ' ∉ comm := by
  constructor
  · intro hdecode hblank
    have hspace := isWhitespace_of_decodeTrack hdecode ' ' hblank
    revert hspace
    decide
  · intro hblank
    obtain ⟨number, hnumber⟩ : ∃ number : ℕ, pid.toInt = number :=
      Int.eq_ofNat_of_zero_le (Int.le_of_lt (Int32.lt_iff_toInt_lt.mp hpid))
    rw [taskTrackName_of_fits hfits, hnumber, formatInt_natCast]
    refine decodeTrack_of_word (fun c hc => ?_) (notMem_formatNat (by decide)) rfl
    rcases List.mem_append.mp hc with hcomm | htail
    · obtain ⟨hlow, hhigh⟩ := hprintable c hcomm
      refine isWhitespace_of_printable (Nat.lt_of_le_of_ne hlow fun heq => ?_) hhigh
      have hc : c = ' ' := Char.toNat_inj.mp heq.symm
      exact hblank (hc ▸ hcomm)
    · rcases List.mem_cons.mp htail with rfl | hdigit
      · decide
      · exact isWhitespace_of_isDigit (isDigit_of_mem_formatNat hdigit)

theorem decodeTrack_taskTrackName_dashes :
    decodeTrack (taskTrackName "util_avg" "kworker-u8-1".toList 42) =
      some ("kworker-u8-1".toList, "42".toList) ↔ ' ' ∉ "kworker-u8-1".toList :=
  decodeTrack_taskTrackName_iff .utilAvg (by decide) (by decide) (by decide)

/-- Of a comm with a blank only the first word is read, which names no tid. -/
theorem decodeTrack_taskTrackName_fails_for_blank :
    ¬ ∀ (signal : TaskSignal) (comm : List Char) (pid : Int32), comm.length ≤ 15 →
      IsPrintable comm → 0 < pid →
        comm.length + 1 + (formatInt pid.toInt).length + 1 + signal.format.toList.length ≤ 31 →
          decodeTrack (taskTrackName signal.format comm pid) =
            some (comm, formatInt pid.toInt) := by
  intro hdecodes
  have hdecode := hdecodes .loadAvg "Web Content".toList 1234 (by decide) (by decide) (by decide)
    (by decide)
  revert hdecode
  decide

end SchedAnalyzer
