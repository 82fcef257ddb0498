import Mathlib.Logic.Function.Basic
import SchedAnalyzer.Foundation.LabelledSteps
import SchedAnalyzer.Foundation.Transducer

/-! # Outputs that wait in queues

A machine appends each of its outputs to the queue of the output's channel, and
readers take them from the front of the queues, in any interleaving. Of each
channel, what was taken and what still waits are the machine's outputs, in order.
-/

namespace Foundation

universe uState uInput uOutput uChannel

/-- The state of the machine, the waiting outputs, and those taken so far. -/
structure Channels (State : Type uState) (Channel : Type uChannel) (Output : Type uOutput) where
  state : State
  queues : Channel → List Output
  taken : List Output

/-- The machine takes an input, or a reader takes the front of a queue. -/
inductive ChannelEvent (Input : Type uInput) (Channel : Type uChannel)
  | feeds (input : Input)
  | takes (channel : Channel)

/-- The input of an event of the machine. -/
def ChannelEvent.input? {Input : Type uInput} {Channel : Type uChannel} :
    ChannelEvent Input Channel → Option Input
  | .feeds input => some input
  | .takes _ => none

namespace Channels

open LabelledSteps

variable {State : Type uState} {Input : Type uInput} {Output : Type uOutput}
variable {Channel : Type uChannel} [DecidableEq Channel]
variable (machine : Transducer State Input Output) (channel : Output → Channel)

/-- Nothing waits and nothing was taken. -/
def start (state : State) : Channels State Channel Output :=
  ⟨state, fun _ => [], []⟩

/-- The outputs of a channel. -/
def ofChannel (c : Channel) (outputs : List Output) : List Output :=
  outputs.filter fun output => channel output = c

@[simp] theorem ofChannel_nil (c : Channel) : ofChannel channel c [] = [] := rfl

theorem ofChannel_cons (c : Channel) (output : Output) (rest : List Output) :
    ofChannel channel c (output :: rest) =
      if channel output = c then output :: ofChannel channel c rest
      else ofChannel channel c rest := by
  simp only [ofChannel, List.filter_cons, decide_eq_true_eq]

@[simp] theorem ofChannel_append (c : Channel) (first second : List Output) :
    ofChannel channel c (first ++ second) =
      ofChannel channel c first ++ ofChannel channel c second :=
  List.filter_append ..

/-- The machine takes an input and appends its outputs to their queues. -/
def feed (s : Channels State Channel Output) (input : Input) : Channels State Channel Output where
  state := (machine.step s.state input).1
  queues c := s.queues c ++ ofChannel channel c (machine.step s.state input).2
  taken := s.taken

/-- The front of a queue is taken, if there is one. -/
def take (s : Channels State Channel Output) (c : Channel) :
    Option (Channels State Channel Output) :=
  match s.queues c with
  | [] => none
  | output :: rest =>
      some { s with queues := Function.update s.queues c rest, taken := s.taken ++ [output] }

def step (s : Channels State Channel Output) :
    ChannelEvent Input Channel → Option (Channels State Channel Output)
  | .feeds input => some (s.feed machine channel input)
  | .takes c => s.take c

@[simp] theorem step_feeds (s : Channels State Channel Output) (input : Input) :
    step machine channel s (.feeds input) = some (s.feed machine channel input) := rfl

@[simp] theorem step_takes (s : Channels State Channel Output) (c : Channel) :
    step machine channel s (.takes c) = s.take c := rfl

theorem take_eq_some {s next : Channels State Channel Output} {c : Channel} :
    s.take c = some next ↔
      ∃ output rest, s.queues c = output :: rest ∧
        next = { s with queues := Function.update s.queues c rest, taken := s.taken ++ [output] } := by
  unfold take
  split
  next hempty => simp [hempty]
  next output rest hqueue =>
    rw [hqueue, Option.some.injEq]
    constructor
    · intro hnext
      exact ⟨output, rest, rfl, hnext.symm⟩
    · intro hnext
      obtain ⟨output', rest', hcons, rfl⟩ := hnext
      obtain ⟨rfl, rfl⟩ := List.cons.inj hcons
      rfl

/-- What is known after some inputs: the machine's state, that each queue holds its
own channel only, and that nothing was lost, repeated or put out of order. -/
structure Accounts (start : State) (inputs : List Input) (s : Channels State Channel Output) :
    Prop where
  state : s.state = machine.final start inputs
  own : ∀ c, ∀ output ∈ s.queues c, channel output = c
  conserved : ∀ c, ofChannel channel c s.taken ++ s.queues c =
    ofChannel channel c (machine.outputs start inputs)

theorem accounts_start (start : State) :
    Accounts machine channel start [] (Channels.start start) where
  state := rfl
  own _ _ hmem := absurd hmem List.not_mem_nil
  conserved _ := rfl

variable {machine channel}

theorem Accounts.feed {start : State} {inputs : List Input} {s : Channels State Channel Output}
    (hs : Accounts machine channel start inputs s) (input : Input) :
    Accounts machine channel start (inputs ++ [input]) (s.feed machine channel input) where
  state := by
    rw [Channels.feed, hs.state, machine.final_append]
    rfl
  own c output hmem := by
    rcases List.mem_append.mp hmem with hold | hnew
    · exact hs.own c output hold
    · simpa using (List.mem_filter.mp hnew).2
  conserved c := by
    change ofChannel channel c s.taken ++
      (s.queues c ++ ofChannel channel c (machine.step s.state input).2) = _
    rw [← List.append_assoc, hs.conserved, machine.outputs_append, ofChannel_append, hs.state,
      machine.outputs_cons, machine.outputs_nil, List.append_nil]

theorem Accounts.take {start : State} {inputs : List Input} {s next : Channels State Channel Output}
    (hs : Accounts machine channel start inputs s) {c : Channel} (htake : s.take c = some next) :
    Accounts machine channel start inputs next := by
  obtain ⟨output, rest, hqueue, rfl⟩ := take_eq_some.mp htake
  have hchannel : channel output = c := hs.own c output (hqueue ▸ List.mem_cons_self)
  refine ⟨hs.state, ?_, ?_⟩
  · intro d other hmem
    change other ∈ Function.update s.queues c rest d at hmem
    by_cases hd : d = c
    · subst hd
      rw [Function.update_self] at hmem
      exact hs.own d other (hqueue ▸ List.mem_cons_of_mem _ hmem)
    · rw [Function.update_of_ne hd] at hmem
      exact hs.own d other hmem
  · intro d
    change ofChannel channel d (s.taken ++ [output]) ++ Function.update s.queues c rest d = _
    rw [← hs.conserved d, ofChannel_append, List.append_assoc]
    congr 1
    by_cases hd : d = c
    · -- The taken output moves from the front of its queue to the end of what was taken.
      subst hd
      rw [Function.update_self, hqueue]
      simp [ofChannel, hchannel]
    · rw [Function.update_of_ne hd]
      have hother : channel output ≠ d := fun heq => hd (heq ▸ hchannel)
      simp [ofChannel, hother]

/-- Whatever the interleaving, a run accounts for the inputs it was fed. -/
theorem accounts_run {start : State} {history : List (ChannelEvent Input Channel)}
    {s : Channels State Channel Output}
    (hrun : run (step machine channel) (Channels.start start) history = some s) :
    Accounts machine channel start (history.filterMap ChannelEvent.input?) s := by
  apply run_invariant
    (fun done s => Accounts machine channel start (done.filterMap ChannelEvent.input?) s)
    (accounts_start machine channel start) _ hrun
  intro done s event next _ hs hstep
  rw [List.filterMap_append]
  cases event with
  | feeds input => exact Option.some.inj hstep ▸ hs.feed input
  | takes c =>
      rw [show [(.takes c : ChannelEvent Input Channel)].filterMap ChannelEvent.input? = [] from rfl,
        List.append_nil]
      exact hs.take hstep

end Channels

end Foundation
