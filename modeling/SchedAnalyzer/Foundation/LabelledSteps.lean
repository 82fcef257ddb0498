import Mathlib.Data.List.Basic
import Mathlib.Data.List.Induction

/-! # Runs of labelled steps

A system takes a step for a label, or cannot take it. A history is a list of
labels, and what holds after every history is shown one step at a time, from a
predicate of the history and the state it leads to.
-/

namespace Foundation.LabelledSteps

universe uState uLabel

variable {State : Type uState} {Label : Type uLabel} {step : State → Label → Option State}

/-- The state a history leads to, when each of its steps can be taken. -/
def run (step : State → Label → Option State) (start : State) (history : List Label) :
    Option State :=
  history.foldlM step start

@[simp] theorem run_nil (start : State) : run step start [] = some start := rfl

@[simp] theorem run_singleton (start : State) (label : Label) :
    run step start [label] = step start label :=
  bind_pure _

theorem run_append (start : State) (first second : List Label) :
    run step start (first ++ second) =
      (run step start first).bind fun middle => run step middle second :=
  List.foldlM_append

theorem run_concat (start : State) (history : List Label) (label : Label) :
    run step start (history ++ [label]) =
      (run step start history).bind fun state => step state label := by
  rw [run_append]
  congr 1
  funext state
  exact run_singleton state label

/-- The first step of a run. -/
theorem run_cons_eq_some {start final : State} {label : Label} {rest : List Label} :
    run step start (label :: rest) = some final ↔
      ∃ state, step start label = some state ∧ run step state rest = some final := by
  rw [run, List.foldlM_cons]
  exact Option.bind_eq_some_iff

/-- The last step of a run. -/
theorem run_concat_eq_some {start final : State} {history : List Label} {label : Label} :
    run step start (history ++ [label]) = some final ↔
      ∃ state, run step start history = some state ∧ step state label = some final := by
  rw [run_concat, Option.bind_eq_some_iff]

/-- The beginning of a run is one. -/
theorem exists_run_of_prefix {start final : State} {before history : List Label}
    (hrun : run step start history = some final) (hbefore : before <+: history) :
    ∃ middle, run step start before = some middle := by
  obtain ⟨rest, rfl⟩ := hbefore
  rw [run_append, Option.bind_eq_some_iff] at hrun
  obtain ⟨middle, hmiddle, -⟩ := hrun
  exact ⟨middle, hmiddle⟩

/-- What holds at the start and is kept by every step of a run holds after every run. -/
theorem run_invariant (invariant : List Label → State → Prop) {start final : State}
    (hstart : invariant [] start)
    (hstep : ∀ done state label next, run step start done = some state → invariant done state →
      step state label = some next → invariant (done ++ [label]) next)
    {history : List Label} (hrun : run step start history = some final) :
    invariant history final := by
  induction history using List.reverseRecOn generalizing final with
  | nil => exact Option.some.inj hrun ▸ hstart
  | append_singleton done label ih =>
      obtain ⟨state, hdone, hlast⟩ := run_concat_eq_some.mp hrun
      exact hstep done state label final hdone (ih hdone) hlast

end Foundation.LabelledSteps
