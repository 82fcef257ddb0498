import SchedAnalyzer.Foundation.BoundedMap
import SchedAnalyzer.Foundation.Transducer

/-! # Entries and exits through a map

A machine notes something in a map when a key is entered, and takes it out again when
the key is left. While the map is large enough, what it finds at the exits of a key are
the entries right in front of them.
-/

namespace Foundation.BoundedMap

universe uKey uValue uState uInput uOutput uSample

/-! ## Neighbours -/

section Neighbours

variable {α : Type uInput}

/-- Each item with the next one. -/
def neighbours (items : List α) : List (α × α) :=
  items.zip items.tail

theorem neighbours_concat (items : List α) (last : α) :
    neighbours (items ++ [last]) =
      neighbours items ++ (items.getLast?.map fun item => (item, last)).toList := by
  induction items with
  | nil => rfl
  | cons item rest ih =>
      cases rest with
      | nil => rfl
      | cons next rest =>
          rw [List.getLast?_cons_cons]
          exact congrArg (List.cons (item, next)) ih

theorem fst_mem_of_mem_neighbours {items : List α} {pair : α × α}
    (hpair : pair ∈ neighbours items) : pair.1 ∈ items :=
  (List.of_mem_zip hpair).1

theorem snd_mem_of_mem_neighbours {items : List α} {pair : α × α}
    (hpair : pair ∈ neighbours items) : pair.2 ∈ items :=
  List.mem_of_mem_tail (List.of_mem_zip hpair).2

/-- The two of a pair are in the order of the list. -/
theorem neighbours_rel {relation : α → α → Prop} {items : List α}
    (hitems : items.Pairwise relation) {pair : α × α} (hpair : pair ∈ neighbours items) :
    relation pair.1 pair.2 := by
  induction items with
  | nil => exact absurd hpair List.not_mem_nil
  | cons item rest ih =>
      cases rest with
      | nil => exact absurd hpair List.not_mem_nil
      | cons next rest =>
          rcases List.mem_cons.mp hpair with rfl | hpair
          · exact List.rel_of_pairwise_cons hitems List.mem_cons_self
          · exact ih hitems.of_cons hpair

/-- In an ordered list a pair ends before the next one starts. -/
theorem neighbours_pairwise {relation : α → α → Prop} (hrefl : ∀ a, relation a a)
    {items : List α} (hitems : items.Pairwise relation) :
    (neighbours items).Pairwise fun pair later => relation pair.2 later.1 := by
  induction items with
  | nil => exact List.Pairwise.nil
  | cons item rest ih =>
      cases rest with
      | nil => exact List.Pairwise.nil
      | cons next rest =>
          have hrest := hitems.of_cons
          refine List.pairwise_cons.mpr ⟨?_, ih hrest⟩
          intro later hlater
          rcases List.mem_cons.mp (fst_mem_of_mem_neighbours hlater) with hnext | hmem
          · rw [hnext]
            exact hrefl next
          · exact List.rel_of_pairwise_cons hrest hmem

end Neighbours

/-! ## Operations of inputs -/

variable {Key : Type uKey} {Value : Type uValue} [DecidableEq Key] {capacity : Nat}
  {State : Type uState} {Input : Type uInput} {Output : Type uOutput} {Sample : Type uSample}

section About

variable (operation : Input → Option (Operation Key Value))

/-- The input has an operation on a key. -/
def IsAbout (key : Key) (input : Input) : Prop :=
  ∃ op ∈ operation input, op.key = key

instance (key : Key) (input : Input) : Decidable (IsAbout operation key input) :=
  decidable_of_iff ((operation input).any (fun op => op.key = key) = true) <| by
    rw [Option.any_eq_true]
    simp [IsAbout]

/-- The inputs with an operation on a key. -/
def about (key : Key) (inputs : List Input) : List Input :=
  inputs.filter fun input => IsAbout operation key input

/-- What an entry and the exit right behind it have exchanged. -/
def exchanged (answer : Value → Input → Option Sample) (pair : Input × Input) : Option Sample :=
  match operation pair.1, operation pair.2 with
  | some (.update _ value), some (.delete _) => answer value pair.2
  | _, _ => none

variable {operation}

theorem about_concat_of_not {key : Key} {input : Input} (hnot : ¬ IsAbout operation key input)
    (inputs : List Input) : about operation key (inputs ++ [input]) = about operation key inputs := by
  rw [about, List.filter_append, List.filter_cons_of_neg (by simpa using hnot), List.filter_nil,
    List.append_nil, about]

theorem about_concat {key : Key} {input : Input} (habout : IsAbout operation key input)
    (inputs : List Input) :
    about operation key (inputs ++ [input]) = about operation key inputs ++ [input] := by
  rw [about, List.filter_append, List.filter_cons_of_pos (by simpa using habout), List.filter_nil,
    about]

/-- What is left under a key was left by the last input about it. -/
theorem latest_filterMap (key : Key) (inputs : List Input) :
    latest (inputs.filterMap operation) key =
      ((about operation key inputs).getLast?.bind operation).bind Operation.value := by
  induction inputs using List.reverseRecOn with
  | nil => rfl
  | append_singleton rest input ih =>
      rw [List.filterMap_append]
      by_cases habout : IsAbout operation key input
      · obtain ⟨op, hop, rfl⟩ := habout
        have hsome : operation input = some op := hop
        rw [about_concat ⟨op, hop, rfl⟩, List.getLast?_concat, Option.bind_some, hsome,
          Option.bind_some, List.filterMap_cons_some hsome, List.filterMap_nil, latest_concat_self]
      · rw [about_concat_of_not habout, ← ih]
        cases hop : operation input with
        | none => rw [List.filterMap_cons_none hop, List.filterMap_nil, List.append_nil]
        | some op =>
            rw [List.filterMap_cons_some hop, List.filterMap_nil]
            exact latest_concat_of_ne _ fun hkey => habout ⟨op, hop, hkey⟩

end About

/-! ## Machines -/

/-- A machine with a map that answers at the exits of a key with what it finds there. -/
structure Exchanges (machine : Transducer State Input Output)
    (map : State → BoundedMap Key Value capacity) (operation : Input → Option (Operation Key Value))
    (key : Key) (select : Output → Option Sample) (answer : Value → Input → Option Sample)
    (inputs : List Input) : Prop where
  map_step : ∀ state input,
    map (machine.step state input).1 = (map state).run (operation input).toList
  exits : ∀ state, ∀ input ∈ inputs, operation input = some (.delete key) →
    (machine.step state input).2.filterMap select =
      (((map state).lookup key).bind fun value => answer value input).toList
  others : ∀ state, ∀ input ∈ inputs, operation input ≠ some (.delete key) →
    (machine.step state input).2.filterMap select = []

section Machine

variable {machine : Transducer State Input Output} {map : State → BoundedMap Key Value capacity}
  {operation : Input → Option (Operation Key Value)} {key : Key} {select : Output → Option Sample}
  {answer : Value → Input → Option Sample} {inputs : List Input}

/-- The map after a run has seen the operations of its inputs. -/
theorem map_final
    (hstep : ∀ state input,
      map (machine.step state input).1 = (map state).run (operation input).toList)
    (state : State) (inputs : List Input) :
    map (machine.final state inputs) = (map state).run (inputs.filterMap operation) := by
  induction inputs generalizing state with
  | nil => rfl
  | cons input rest ih =>
      rw [Transducer.final_cons, ih, hstep, List.filterMap_cons]
      cases operation input with
      | none => rfl
      | some op => rfl

theorem Exchanges.of_prefix {before : List Input}
    (hexchanges : Exchanges machine map operation key select answer inputs)
    (hpart : before <+: inputs) :
    Exchanges machine map operation key select answer before where
  map_step := hexchanges.map_step
  exits state input hinput := hexchanges.exits state input (hpart.subset hinput)
  others state input hinput := hexchanges.others state input (hpart.subset hinput)

/-- The answers at the exits of a key are those to the entries right in front of them. -/
theorem Exchanges.outputs_eq
    (hexchanges : Exchanges machine map operation key select answer inputs) {state : State}
    (hempty : map state = empty) (hfits : Fits capacity (inputs.filterMap operation)) :
    (machine.outputs state inputs).filterMap select =
      (neighbours (about operation key inputs)).filterMap (exchanged operation answer) := by
  induction inputs using List.reverseRecOn with
  | nil => rfl
  | append_singleton rest input ih =>
      have hpart : rest <+: rest ++ [input] := List.prefix_append rest [input]
      have hrest : Fits capacity (rest.filterMap operation) :=
        hfits.of_prefix (hpart.filterMap operation)
      have hmem : input ∈ rest ++ [input] := List.mem_append_right rest List.mem_cons_self
      rw [Transducer.outputs_append, List.filterMap_append, ih (hexchanges.of_prefix hpart) hrest,
        Transducer.outputs_cons, Transducer.outputs_nil, List.append_nil]
      by_cases hexit : operation input = some (.delete key)
      · have habout : IsAbout operation key input := ⟨.delete key, hexit, rfl⟩
        rw [hexchanges.exits _ input hmem hexit, map_final hexchanges.map_step, hempty,
          lookup_run_eq_latest hrest, latest_filterMap, about_concat habout, neighbours_concat,
          List.filterMap_append]
        congr 1
        cases hlast : (about operation key rest).getLast? with
        | none => rfl
        | some last =>
            have hanswer : exchanged operation answer (last, input) =
                ((operation last).bind Operation.value).bind fun value => answer value input := by
              rw [exchanged, hexit]
              cases operation last with
              | none => rfl
              | some op => cases op <;> rfl
            rw [Option.bind_some, Option.map_some, ← hanswer]
            cases hsample : exchanged operation answer (last, input) <;> simp [hsample]
      · rw [hexchanges.others _ input hmem hexit, List.append_nil]
        by_cases habout : IsAbout operation key input
        · rw [about_concat habout, neighbours_concat, List.filterMap_append]
          obtain ⟨op, hop, rfl⟩ := habout
          have hsome : operation input = some op := hop
          cases op with
          | delete key => exact absurd hsome hexit
          | update key value =>
              have hnone : ∀ last : Input, exchanged operation answer (last, input) = none := by
                intro last
                rw [exchanged, hsome]
                cases operation last with
                | none => rfl
                | some op => cases op <;> rfl
              cases (about operation (Operation.update key value).key rest).getLast? with
              | none => exact (List.append_nil _).symm
              | some last => simp [hnone last]
        · rw [about_concat_of_not habout]

end Machine

end Foundation.BoundedMap
