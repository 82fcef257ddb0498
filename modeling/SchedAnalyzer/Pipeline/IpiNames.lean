import SchedAnalyzer.Pipeline.CounterPlots
import SchedAnalyzer.User.KallsymsFile

/-! # The functions of an IPI

The slice of an IPI names the function that sent it and the one that it runs. The names
come from `/proc/kallsyms`, which `main` reads once, and go through the whole recorder.
-/

namespace SchedAnalyzer

open Foundation Foundation.Comparator Foundation.CString

/-- The state when the threads are created: `main` has parsed the options, and the
symbols if they ask for IPIs. -/
def UserState.parsed (qsort : Qsort Symbol) (kptrRestrict kallsyms : Option (List Char))
    (opts : SaOpts) : UserState where
  opts := opts
  kallsyms :=
    if opts.ipi then parseKallsyms qsort kptrRestrict kallsyms (.initial maxNumSymbols)
    else .initial maxNumSymbols

/-- What is shown for each address of a call that is about an IPI. -/
def TraceCall.ForIpi (shown : UInt64 → Option (List Char) → Prop) : TraceCall → Prop
  | .ipiSendCpu _ _ _ callsite callsitep callback callbackp =>
      shown callsitep callsite ∧ shown callbackp callback
  | _ => True

theorem TraceCall.ForIpi.imp {shown shown' : UInt64 → Option (List Char) → Prop}
    (himp : ∀ address answer, shown address answer → shown' address answer) {call : TraceCall}
    (hcall : call.ForIpi shown) : call.ForIpi shown' := by
  cases call
  case ipiSendCpu => exact ⟨himp _ _ hcall.1, himp _ _ hcall.2⟩
  all_goals trivial

/-- A call of a session shows what the table answers, and only if IPIs are asked for. -/
theorem forIpi_of_mem_step {k : KernelInfo} {user : UserState} {maps : BpfMaps} {f : Firing}
    {call : TraceCall} (hcall : call ∈ ((sessionTracer k user).step maps f).2) :
    call.ForIpi fun address answer => user.opts.ipi = true ∧
      answer = (user.kallsyms.findKallsyms address).toPointer := by
  have hon := isOn_of_mem_step hcall
  cases call with
  | ipiSendCpu ts fromCpu targetCpu callsite callsitep callback callbackp =>
      cases hautoload : autoload user.opts f.hook.program with
      | false =>
          rw [step_sessionTracer_of_disabled hautoload] at hcall
          exact absurd hcall List.not_mem_nil
      | true =>
          rw [step_sessionTracer_of_enabled hautoload] at hcall
          obtain ⟨r, -, hmem⟩ := List.mem_flatMap.mp hcall
          -- Only the records of IPIs have calls under this option.
          have honly : ∀ ring : Ring, .ipi ∈ ring.options → ring = .ipi := by
            intro ring
            cases ring <;> decide
          have hring := honly _ (option_mem_ring hmem)
          cases r with
          | ipi e =>
              cases List.mem_singleton.mp hmem
              exact ⟨⟨hon, rfl⟩, ⟨hon, rfl⟩⟩
          | _ => cases hring
  | _ => trivial

/-- So do all calls that are made, in every interleaving. -/
theorem forIpi_of_mem_calls {k : KernelInfo} {user : UserState} {history : List RecorderEvent}
    {s : RecorderState} (hrun : recorderRun k user history = some s) :
    ∀ call ∈ s.calls, call.ForIpi fun address answer => user.opts.ipi = true ∧
      answer = (user.kallsyms.findKallsyms address).toPointer :=
  forall_mem_calls hrun fun _ _ _ => forIpi_of_mem_step

section Run

variable {k : KernelInfo} {qsort : Qsort Symbol} {kptrRestrict : Option (List Char)}
  {opts : SaOpts} {history : List RecorderEvent} {s : RecorderState}

/-- From the file to the slice: when `cmp` orders the addresses of the kernel, every
address of an IPI that is inside a function is shown as that function. There is no
name for the address 0, which an IPI without a callback has. -/
theorem ipis_name_functions {lines : List KallsymsLine}
    (hrun : recorderRun k (.parsed qsort kptrRestrict (some (lines.flatMap KallsymsLine.text)) opts)
      history = some s)
    (hfile : FitsTable maxNumSymbols lines)
    (hsorts : SortsUnsigned (fileEntries maxNumSymbols lines))
    (hvisible : kptrVisible kptrRestrict = true) :
    ∀ call ∈ s.calls, call.ForIpi fun address answer =>
      (InsideFunction lines address → NamesFunction lines address answer) ∧
        (address = 0 → answer = none) := by
  intro call hcall
  apply (forIpi_of_mem_calls hrun call hcall).imp
  intro address answer hanswer
  obtain ⟨hipi, rfl⟩ := hanswer
  have htable : (UserState.parsed qsort kptrRestrict (some (lines.flatMap KallsymsLine.text))
      opts).kallsyms = parseKallsyms qsort kptrRestrict (some (lines.flatMap KallsymsLine.text))
        (.initial maxNumSymbols) := if_pos hipi
  rw [htable]
  constructor
  · intro hinside
    exact findKallsyms_namesFunction qsort hfile hsorts hinside hvisible
  · rintro rfl
    exact findKallsyms_zero _

/-- When the addresses of the kernel take up no more than half of the table and `cmp`
orders them as signed numbers, no IPI ever names a function of the kernel. -/
theorem ipis_name_nothing {text : List Char}
    (hrun : recorderRun k (.parsed qsort kptrRestrict (some text) opts) history = some s)
    (hroom : LeavesRoom maxNumSymbols text) :
    ∀ call ∈ s.calls, call.ForIpi fun address answer =>
      address = 0 ∨ 2 ^ 63 ≤ address.toNat → answer = none := by
  intro call hcall
  apply (forIpi_of_mem_calls hrun call hcall).imp
  intro address answer hanswer hkernel
  obtain ⟨hipi, rfl⟩ := hanswer
  have htable : (UserState.parsed qsort kptrRestrict (some text) opts).kallsyms =
      parseKallsyms qsort kptrRestrict (some text) (.initial maxNumSymbols) := if_pos hipi
  rw [htable]
  rcases hkernel with rfl | hkernel
  · exact findKallsyms_zero _
  · exact findKallsyms_of_leavesRoom qsort (by decide) hroom kptrRestrict hkernel

end Run

/-- IPIs are reported. -/
def ipiOpts : SaOpts :=
  { SaOpts.initial with ipi := true }

/-- An IPI that is sent from the first function of the kernel's text, without a callback. -/
def sentIpi : Firing :=
  (Hook.ipiSendCpu 1 0xffffffc010000800 0).firing 1000 0

/-- The addresses of these functions, and that of the unused entries. -/
def textStarts : List UInt64 :=
  [0xffffffc010000000, 0xffffffc010001000, 0xffffffc008000000, 0]

theorem sortsUnsigned_textLines : SortsUnsigned (fileEntries maxNumSymbols textLines) := by
  have haddress : ∀ entry ∈ fileEntries maxNumSymbols textLines,
      entry.address ∈ textStarts := by
    intro entry hentry
    rcases List.mem_append.mp hentry with hline | hunused
    · have hlines : ∀ line ∈ textLines,
          line.entry.address ∈ textStarts := by decide +kernel
      obtain ⟨line, hmem, rfl⟩ := List.mem_map.mp hline
      exact hlines line hmem
    · rw [List.eq_of_mem_replicate hunused]
      decide
  have hfits : ∀ low ∈ textStarts, ∀ high ∈ textStarts, low < high → SignFits low high := by
    intro low hlow high hhigh
    simp only [textStarts, List.mem_cons, List.not_mem_nil, or_false] at hlow hhigh
    unfold SignFits
    rcases hlow with rfl | rfl | rfl | rfl <;> rcases hhigh with rfl | rfl | rfl | rfl <;> decide
  intro low hlow high hhigh
  exact hfits _ (haddress low hlow) _ (haddress high hhigh)

theorem ipis_name_functions_text :
    ∃ s, recorderRun (.complete 0) (.parsed .ofMergeSort none
        (some (textLines.flatMap KallsymsLine.text)) ipiOpts)
          (shortRecording .ipi [sentIpi]) = some s ∧
      s.inSession.length = 1 ∧ InsideFunction textLines 0xffffffc010000800 ∧
        ∀ call ∈ s.calls, call.ForIpi fun address answer =>
          (InsideFunction textLines address → NamesFunction textLines address answer) ∧
            (address = 0 → answer = none) := by
  obtain ⟨s, hrun, hlength⟩ : ∃ s, recorderRun (.complete 0) (.parsed .ofMergeSort none
      (some (textLines.flatMap KallsymsLine.text)) ipiOpts)
        (shortRecording .ipi [sentIpi]) = some s ∧ s.inSession.length = 1 :=
    Option.map_eq_some_iff.mp (by decide +kernel)
  have hfile : FitsTable maxNumSymbols textLines :=
    ⟨by decide, by decide, by decide⟩
  have hinside : InsideFunction textLines 0xffffffc010000800 :=
    ⟨by decide +kernel, by decide +kernel, by decide +kernel⟩
  exact ⟨s, hrun, hlength, hinside,
    ipis_name_functions hrun hfile sortsUnsigned_textLines (by decide)⟩

/-- The start of the kernel's text alone, with the rest of the table unused. -/
theorem leavesRoom_stext : LeavesRoom maxNumSymbols stextLine.text := by
  have hentries : parseEntries (List.replicate maxNumSymbols .zero) stextLine.text =
      fileEntries maxNumSymbols [stextLine] := by
    rw [← parseEntries_lines (by decide) (by decide), List.flatMap_singleton]
  have hsigned : ∀ entry ∈ fileEntries maxNumSymbols [stextLine],
      -2 ^ 31 < entry.signed ∧ entry.signed ≤ 0 := by
    intro entry hentry
    rcases List.mem_append.mp hentry with hline | hunused
    · have hvalue : stextLine.entry.signed = -0x7f000000 := by decide +kernel
      obtain ⟨line, hline, rfl⟩ := List.mem_map.mp hline
      rw [List.mem_singleton.mp hline, hvalue]
      decide
    · rw [List.eq_of_mem_replicate hunused]
      decide
  constructor
  · rw [hentries]
    intro low hlow high hhigh
    have hlow := hsigned low hlow
    have hhigh := hsigned high hhigh
    omega
  · rw [hentries, fileEntries, List.countP_append, List.countP_replicate]
    decide

/-- An IPI that is sent from there. -/
def sentKernelIpi : Firing :=
  (Hook.ipiSendCpu 1 0xffffffff81000010 0).firing 1000 0

theorem ipis_name_nothing_stext :
    ∃ s, recorderRun (.complete 0) (.parsed .ofMergeSort none (some stextLine.text) ipiOpts)
        (shortRecording .ipi [sentKernelIpi]) = some s ∧
      s.inSession.length = 1 ∧ ∀ call ∈ s.calls, call.ForIpi fun address answer =>
        address = 0 ∨ 2 ^ 63 ≤ address.toNat → answer = none := by
  obtain ⟨s, hrun, hlength⟩ : ∃ s, recorderRun (.complete 0)
      (.parsed .ofMergeSort none (some stextLine.text) ipiOpts)
        (shortRecording .ipi [sentKernelIpi]) = some s ∧ s.inSession.length = 1 :=
    Option.map_eq_some_iff.mp (by decide +kernel)
  exact ⟨s, hrun, hlength, ipis_name_nothing hrun leavesRoom_stext⟩

end SchedAnalyzer
