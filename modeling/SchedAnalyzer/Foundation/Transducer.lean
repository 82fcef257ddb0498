import Mathlib.Data.List.Basic

/-! # Deterministic machines with outputs

A transducer consumes one input at a time and answers each with a finite list
of outputs. Facts about a whole run come from facts about one step: an output
predicate, an invariant, or a condition that every step meets in the state it
starts from.
-/

namespace Foundation

universe uState uInput uOutput

/-- One step reads the state and an input, and returns the next state with the
outputs of the step. -/
structure Transducer (State : Type uState) (Input : Type uInput) (Output : Type uOutput) where
  step : State → Input → State × List Output

namespace Transducer

variable {State : Type uState} {Input : Type uInput} {Output : Type uOutput}
variable (machine : Transducer State Input Output)

/-- All outputs of a run, in order. -/
def outputs : State → List Input → List Output
  | _, [] => []
  | state, input :: rest =>
      (machine.step state input).2 ++ outputs (machine.step state input).1 rest

@[simp] theorem outputs_nil (state : State) : machine.outputs state [] = [] := rfl

@[simp] theorem outputs_cons (state : State) (input : Input) (rest : List Input) :
    machine.outputs state (input :: rest) =
      (machine.step state input).2 ++ machine.outputs (machine.step state input).1 rest := rfl

/-- The state a run ends in. -/
def final : State → List Input → State
  | state, [] => state
  | state, input :: rest => final (machine.step state input).1 rest

@[simp] theorem final_nil (state : State) : machine.final state [] = state := rfl

@[simp] theorem final_cons (state : State) (input : Input) (rest : List Input) :
    machine.final state (input :: rest) = machine.final (machine.step state input).1 rest := rfl

theorem outputs_append (state : State) (first second : List Input) :
    machine.outputs state (first ++ second) =
      machine.outputs state first ++ machine.outputs (machine.final state first) second := by
  induction first generalizing state with
  | nil => rfl
  | cons input rest ih => rw [List.cons_append, outputs_cons, outputs_cons, ih, List.append_assoc,
      final_cons]

theorem final_append (state : State) (first second : List Input) :
    machine.final state (first ++ second) =
      machine.final (machine.final state first) second := by
  induction first generalizing state with
  | nil => rfl
  | cons input rest ih => exact ih _

/-- A predicate on outputs that every step respects holds of the whole run. -/
theorem forall_mem_outputs {good : Output → Prop} {inputs : List Input}
    (hstep : ∀ state, ∀ input ∈ inputs, ∀ output ∈ (machine.step state input).2, good output)
    (state : State) : ∀ output ∈ machine.outputs state inputs, good output := by
  induction inputs generalizing state with
  | nil => simp
  | cons input rest ih =>
      intro output hmem
      rw [outputs_cons, List.mem_append] at hmem
      rcases hmem with hfirst | hrest
      · exact hstep state input List.mem_cons_self output hfirst
      · exact ih (fun s i hi => hstep s i (List.mem_cons_of_mem _ hi)) _ output hrest

/-- The same, in states with an invariant that every step keeps. -/
theorem forall_mem_outputs_of_invariant {good : Output → Prop} {invariant : State → Prop}
    (hkept : ∀ state, invariant state → ∀ input, invariant (machine.step state input).1)
    (hgood : ∀ state, invariant state → ∀ input, ∀ output ∈ (machine.step state input).2,
      good output)
    {state : State} (hstate : invariant state) (inputs : List Input) :
    ∀ output ∈ machine.outputs state inputs, good output := by
  induction inputs generalizing state with
  | nil => simp
  | cons input rest ih =>
      intro output hmem
      rw [outputs_cons, List.mem_append] at hmem
      rcases hmem with hfirst | hrest
      · exact hgood state hstate input output hfirst
      · exact ih (hkept state hstate input) output hrest

/-- When no step's outputs depend on the state, a run's outputs are those of
its inputs one after the other. -/
theorem outputs_eq_flatMap {answer : Input → List Output} {inputs : List Input}
    (hstep : ∀ state, ∀ input ∈ inputs, (machine.step state input).2 = answer input)
    (state : State) : machine.outputs state inputs = inputs.flatMap answer := by
  induction inputs generalizing state with
  | nil => rfl
  | cons input rest ih =>
      rw [outputs_cons, List.flatMap_cons, hstep state input List.mem_cons_self,
        ih (fun s i hi => hstep s i (List.mem_cons_of_mem _ hi))]

/-- When what is selected of a step's outputs depends on the input only, so does what
is selected of a run's. -/
theorem filterMap_outputs_eq_flatMap {Sample : Type*} {select : Output → Option Sample}
    {answer : Input → List Sample} {inputs : List Input}
    (hstep : ∀ state, ∀ input ∈ inputs,
      (machine.step state input).2.filterMap select = answer input)
    (state : State) :
    (machine.outputs state inputs).filterMap select = inputs.flatMap answer := by
  induction inputs generalizing state with
  | nil => rfl
  | cons input rest ih =>
      rw [outputs_cons, List.filterMap_append, List.flatMap_cons,
        hstep state input List.mem_cons_self,
        ih (fun s i hi => hstep s i (List.mem_cons_of_mem _ hi))]

/-- Every input of the run meets the condition in the state it is applied to. -/
def Along (condition : State → Input → Prop) : State → List Input → Prop
  | _, [] => True
  | state, input :: rest =>
      condition state input ∧ Along condition (machine.step state input).1 rest

@[simp] theorem along_cons {condition : State → Input → Prop} {state : State} {input : Input}
    {rest : List Input} :
    machine.Along condition state (input :: rest) ↔
      condition state input ∧ machine.Along condition (machine.step state input).1 rest :=
  Iff.rfl

instance decidableAlong (condition : State → Input → Prop)
    [∀ state input, Decidable (condition state input)] :
    (state : State) → (inputs : List Input) → Decidable (machine.Along condition state inputs)
  | _, [] => isTrue trivial
  | state, input :: rest =>
      have := decidableAlong condition (machine.step state input).1 rest
      inferInstanceAs (Decidable (condition state input ∧ _))

end Transducer

end Foundation
