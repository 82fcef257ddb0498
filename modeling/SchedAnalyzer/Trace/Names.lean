import SchedAnalyzer.Foundation.SqlLike
import SchedAnalyzer.Trace.Wrapper

/-! # Track names

How much of a signal's name survives in the 32-byte buffer, and what a suffix
pattern sees of it.
-/

namespace SchedAnalyzer

open Foundation.CString Foundation.SqlLike

/-- Whatever the CPU number, at least sixteen characters of the signal are kept. -/
theorem cpuTrackName_eq (signal : String) (cpu : Int32) :
    ∃ kept, 16 ≤ kept ∧
      cpuTrackName signal cpu =
        ("CPU".toList ++ formatInt cpu.toInt) ++ ' ' :: signal.toList.take kept := by
  have hlen : (formatInt cpu.toInt).length ≤ 11 := formatInt_length_le cpu.le_toInt cpu.toInt_lt
  have hprefix : ("CPU".toList ++ formatInt cpu.toInt).length ≤ 14 := by
    rw [List.length_append]
    change 3 + _ ≤ 14
    omega
  refine ⟨32 - 2 - ("CPU".toList ++ formatInt cpu.toInt).length, by omega, ?_⟩
  rw [cpuTrackName, trackName]
  exact snprintf_append_cons (by omega) ' ' signal.toList

/-- A `% suffix` pattern is compared with what the buffer kept of the signal. -/
theorem like_cpuTrackName (collation : Collation) (pattern : List Char) {signal : String}
    (hblank : ' ' ∉ signal.toList) (cpu : Int32) :
    ∃ kept, 16 ≤ kept ∧
      like collation ('%' :: ' ' :: pattern) (cpuTrackName signal cpu) =
        like collation pattern (signal.toList.take kept) := by
  obtain ⟨kept, hkept, heq⟩ := cpuTrackName_eq signal cpu
  refine ⟨kept, hkept, ?_⟩
  rw [heq]
  apply like_after_blank
  · intro hmem
    rcases List.mem_append.mp hmem with hcpu | hnumber
    · revert hcpu
      decide
    · exact notMem_formatInt (by decide) (by decide) hnumber
  · exact fun hmem => hblank (List.mem_of_mem_take hmem)

end SchedAnalyzer
