import Mathlib.Data.Finset.Card
import Mathlib.Data.List.AList
import Mathlib.Data.List.Induction

/-! # Hash maps of bounded size

A map that holds at most a fixed number of keys. An update of a key that is
present always succeeds, an update that adds a key to a full map is dropped.
-/

namespace Foundation

universe uKey uValue

/-- An association list with distinct keys, at most `capacity` of them. -/
structure BoundedMap (Key : Type uKey) (Value : Type uValue) [DecidableEq Key]
    (capacity : Nat) where
  table : AList (fun _ : Key => Value)
  bounded : table.keys.length ≤ capacity

namespace BoundedMap

variable {Key : Type uKey} {Value : Type uValue} [DecidableEq Key] {capacity : Nat}

/-- The map without keys. -/
def empty : BoundedMap Key Value capacity where
  table := ∅
  bounded := by simp

/-- The number of keys in use. -/
def size (map : BoundedMap Key Value capacity) : Nat :=
  map.table.keys.length

def lookup (map : BoundedMap Key Value capacity) (key : Key) : Option Value :=
  map.table.lookup key

theorem length_keys_insert (table : AList (fun _ : Key => Value)) (key : Key) (value : Value) :
    (table.insert key value).keys.length =
      if key ∈ table then table.keys.length else table.keys.length + 1 := by
  rw [AList.keys_insert, List.length_cons]
  split
  next hmem =>
    have hpos : 0 < table.keys.length := List.length_pos_of_mem (AList.mem_keys.mp hmem)
    rw [List.length_erase_of_mem (AList.mem_keys.mp hmem)]
    omega
  next hmem => rw [List.erase_of_not_mem (fun hkey => hmem (AList.mem_keys.mpr hkey))]

/-- Insert or replace; dropped when the key is new and the map is full. -/
def update (map : BoundedMap Key Value capacity) (key : Key) (value : Value) :
    BoundedMap Key Value capacity :=
  if hroom : key ∈ map.table ∨ map.size < capacity then
    { table := map.table.insert key value
      bounded := by
        have hbound := map.bounded
        unfold size at hroom
        rw [length_keys_insert]
        rcases hroom with hmem | hlt
        · rw [if_pos hmem]
          exact hbound
        · split <;> omega }
  else map

def delete (map : BoundedMap Key Value capacity) (key : Key) :
    BoundedMap Key Value capacity where
  table := map.table.erase key
  bounded := by
    rw [AList.keys_erase]
    exact Nat.le_trans List.erase_sublist.length_le map.bounded

@[simp] theorem lookup_empty (key : Key) :
    (empty : BoundedMap Key Value capacity).lookup key = none :=
  AList.lookup_empty key

theorem lookup_update_of_ne (map : BoundedMap Key Value capacity) {key other : Key}
    (hne : other ≠ key) (value : Value) :
    (map.update key value).lookup other = map.lookup other := by
  unfold update
  split
  · exact AList.lookup_insert_ne hne
  · rfl

@[simp] theorem lookup_delete_self (map : BoundedMap Key Value capacity) (key : Key) :
    (map.delete key).lookup key = none :=
  AList.lookup_erase key map.table

theorem lookup_delete_of_ne (map : BoundedMap Key Value capacity) {key other : Key}
    (hne : other ≠ key) : (map.delete key).lookup other = map.lookup other :=
  AList.lookup_erase_ne hne

/-- Deleting a key that is absent changes nothing. -/
theorem delete_of_lookup_eq_none {map : BoundedMap Key Value capacity} {key : Key}
    (habsent : map.lookup key = none) : map.delete key = map := by
  obtain ⟨table, hbounded⟩ := map
  have hkey : key ∉ table.keys := by
    rw [← AList.mem_keys, ← AList.lookup_eq_none]
    exact habsent
  have herase : table.erase key = table := AList.ext (List.kerase_of_notMem_keys hkey)
  simp only [delete, herase]

/-! ## Operations in a row -/

/-- An update or a delete. -/
inductive Operation (Key : Type uKey) (Value : Type uValue)
  | update (key : Key) (value : Value)
  | delete (key : Key)

/-- The key it is about. -/
def Operation.key : Operation Key Value → Key
  | .update key _ => key
  | .delete key => key

def apply (map : BoundedMap Key Value capacity) :
    Operation Key Value → BoundedMap Key Value capacity
  | .update key value => map.update key value
  | .delete key => map.delete key

def run (map : BoundedMap Key Value capacity) (operations : List (Operation Key Value)) :
    BoundedMap Key Value capacity :=
  operations.foldl apply map

/-- A dropped update leaves its key absent, so what is found is what was given. -/
theorem eq_of_lookup_update_self {map : BoundedMap Key Value capacity} {key : Key}
    {value found : Value} (hfound : (map.update key value).lookup key = some found) :
    value = found := by
  unfold update at hfound
  split at hfound
  next => exact Option.some.inj ((AList.lookup_insert map.table).symm.trans hfound)
  next hfull =>
    have hpresent : key ∈ map.table := AList.lookup_isSome.mp (Option.isSome_of_eq_some hfound)
    exact absurd (Or.inl hpresent) hfull

/-- A value found was stored by the operation, or the operation is about another
key and the value was there before. -/
theorem lookup_apply_eq_some {map : BoundedMap Key Value capacity}
    {operation : Operation Key Value} {key : Key} {value : Value}
    (hfound : (map.apply operation).lookup key = some value) :
    operation = .update key value ∨ operation.key ≠ key ∧ map.lookup key = some value := by
  by_cases hkey : operation.key = key
  · subst hkey
    cases operation with
    | update key stored => exact Or.inl (congrArg _ (eq_of_lookup_update_self hfound))
    | delete key => exact absurd (hfound.symm.trans (lookup_delete_self map key)) nofun
  · refine Or.inr ⟨hkey, ?_⟩
    cases operation with
    | update other stored =>
        have hne : key ≠ other := Ne.symm hkey
        rwa [apply, lookup_update_of_ne map hne] at hfound
    | delete other =>
        have hne : key ≠ other := Ne.symm hkey
        rwa [apply, lookup_delete_of_ne map hne] at hfound

/-- A value found after operations on the empty map was stored by one of them,
and those after it are about other keys. -/
theorem lookup_run_eq_some {operations : List (Operation Key Value)} {key : Key} {value : Value}
    (hfound : ((empty : BoundedMap Key Value capacity).run operations).lookup key = some value) :
    ∃ earlier since, operations = earlier ++ .update key value :: since ∧
      ∀ operation ∈ since, operation.key ≠ key := by
  induction operations using List.reverseRecOn with
  | nil => exact absurd (hfound.symm.trans (lookup_empty key)) nofun
  | append_singleton rest operation ih =>
      rw [run, List.foldl_append] at hfound
      rcases lookup_apply_eq_some hfound with rfl | ⟨hother, hbefore⟩
      · exact ⟨rest, [], rfl, fun _ hmem => absurd hmem List.not_mem_nil⟩
      · obtain ⟨earlier, since, rfl, hsince⟩ := ih hbefore
        refine ⟨earlier, since ++ [operation], by simp, ?_⟩
        intro other hmem
        rcases List.mem_append.mp hmem with hold | hlast
        · exact hsince other hold
        · rwa [List.mem_singleton.mp hlast]

/-! ## Maps that are large enough -/

/-- What an operation leaves under its key. -/
def Operation.value : Operation Key Value → Option Value
  | .update _ value => some value
  | .delete _ => none

/-- What a map without a bound has under a key: what the last operation on it left. -/
def latest (operations : List (Operation Key Value)) (key : Key) : Option Value :=
  (operations.reverse.find? fun operation => operation.key = key).bind Operation.value

@[simp] theorem latest_nil (key : Key) : latest ([] : List (Operation Key Value)) key = none := rfl

theorem latest_concat_self (operations : List (Operation Key Value))
    (operation : Operation Key Value) :
    latest (operations ++ [operation]) operation.key = operation.value := by
  simp [latest]

theorem latest_concat_of_ne (operations : List (Operation Key Value))
    {operation : Operation Key Value} {key : Key} (hne : operation.key ≠ key) :
    latest (operations ++ [operation]) key = latest operations key := by
  simp [latest, hne]

/-- The keys that a map without a bound has in between are never more than the capacity. -/
def Fits (capacity : Nat) (operations : List (Operation Key Value)) : Prop :=
  ∀ before, before <+: operations → ∃ keys : Finset Key, keys.card ≤ capacity ∧
    ∀ key, (latest before key).isSome = true → key ∈ keys

theorem Fits.of_prefix {operations before : List (Operation Key Value)}
    (hfits : Fits capacity operations) (hpart : before <+: operations) : Fits capacity before :=
  fun earlier hearlier => hfits earlier (hearlier.trans hpart)

theorem mem_keys_iff {map : BoundedMap Key Value capacity} {key : Key} :
    key ∈ map.table.keys ↔ (map.lookup key).isSome = true := by
  rw [← AList.mem_keys, lookup, AList.lookup_isSome]

/-- With a set of keys within the capacity that has a new one, there is room for it. -/
theorem size_lt_of_subset {map : BoundedMap Key Value capacity} {keys : Finset Key} {key : Key}
    (hcard : keys.card ≤ capacity) (hnew : (map.lookup key).isSome = false) (hkey : key ∈ keys)
    (hsubset : ∀ other, (map.lookup other).isSome = true → other ∈ keys) :
    map.size < capacity := by
  have hnotMem : key ∉ map.table.keys := by
    rw [mem_keys_iff, hnew]
    exact Bool.false_ne_true
  have hnodup : (key :: map.table.keys).Nodup :=
    List.nodup_cons.mpr ⟨hnotMem, map.table.keys_nodup⟩
  have hmem : (key :: map.table.keys).toFinset ⊆ keys := by
    intro other hother
    rcases List.mem_cons.mp (List.mem_toFinset.mp hother) with rfl | hother
    · exact hkey
    · exact hsubset other (mem_keys_iff.mp hother)
  have hlength := (Finset.card_le_card hmem).trans hcard
  rw [List.toFinset_card_of_nodup hnodup, List.length_cons] at hlength
  exact hlength

theorem lookup_update_self {map : BoundedMap Key Value capacity} {key : Key} (value : Value)
    (hroom : (map.lookup key).isSome = true ∨ map.size < capacity) :
    (map.update key value).lookup key = some value := by
  have hupdates : key ∈ map.table ∨ map.size < capacity := by
    rwa [← AList.lookup_isSome]
  rw [update, dif_pos hupdates]
  exact AList.lookup_insert map.table

/-- An update that fits finds its key, or room for it. -/
theorem Fits.room {rest : List (Operation Key Value)} {key : Key} {value : Value}
    (hfits : Fits capacity (rest ++ [.update key value])) {map : BoundedMap Key Value capacity}
    (hmap : ∀ other, map.lookup other = latest rest other) :
    (map.lookup key).isSome = true ∨ map.size < capacity := by
  by_cases hpresent : (map.lookup key).isSome = true
  · exact Or.inl hpresent
  · obtain ⟨keys, hcard, hkeys⟩ := hfits _ List.prefix_rfl
    have hsome : (latest (rest ++ [.update key value]) key).isSome = true :=
      congrArg Option.isSome (latest_concat_self rest (.update key value))
    refine Or.inr (size_lt_of_subset hcard (Bool.eq_false_iff.mpr hpresent) (hkeys key hsome) ?_)
    intro other hother
    apply hkeys
    by_cases hsame : key = other
    · exact hsame ▸ hsome
    · have hkept : latest (rest ++ [.update key value]) other = latest rest other :=
        latest_concat_of_ne rest hsame
      rw [hkept, ← hmap other]
      exact hother

/-- Operations that fit leave the map as one without a bound. -/
theorem lookup_run_eq_latest {operations : List (Operation Key Value)}
    (hfits : Fits capacity operations) (key : Key) :
    ((empty : BoundedMap Key Value capacity).run operations).lookup key =
      latest operations key := by
  induction operations using List.reverseRecOn generalizing key with
  | nil => exact lookup_empty key
  | append_singleton rest operation ih =>
      have hrest := ih (hfits.of_prefix (List.prefix_append rest [operation]))
      rw [run, List.foldl_concat, ← run]
      by_cases hkey : operation.key = key
      · subst hkey
        rw [latest_concat_self]
        cases operation with
        | delete key => exact lookup_delete_self _ key
        | update key value =>
            exact lookup_update_self value (hfits.room hrest)
      · rw [latest_concat_of_ne rest hkey, ← hrest key]
        cases operation with
        | update other value => exact lookup_update_of_ne _ (Ne.symm hkey) value
        | delete other => exact lookup_delete_of_ne _ (Ne.symm hkey)

/-- A value left under a key was stored there. -/
theorem exists_update_of_latest {operations : List (Operation Key Value)} {key : Key}
    {value : Value} (hlatest : latest operations key = some value) :
    .update key value ∈ operations := by
  obtain ⟨operation, hfind, hvalue⟩ := Option.bind_eq_some_iff.mp hlatest
  have hkey : operation.key = key := by simpa using List.find?_some hfind
  cases operation with
  | delete key => cases hvalue
  | update key stored =>
      cases hvalue
      cases hkey
      exact List.mem_reverse.mp (List.mem_of_find?_eq_some hfind)

/-- A map with room for all keys that are ever stored fits. -/
theorem fits_of_updates {operations : List (Operation Key Value)} {keys : Finset Key}
    (hcard : keys.card ≤ capacity)
    (hkeys : ∀ key value, .update key value ∈ operations → key ∈ keys) :
    Fits capacity operations := by
  intro before hpart
  refine ⟨keys, hcard, ?_⟩
  intro key hsome
  obtain ⟨value, hvalue⟩ := Option.isSome_iff_exists.mp hsome
  exact hkeys key value (hpart.subset (exists_update_of_latest hvalue))

/-- One more operation fits if the keys behind it do. -/
theorem Fits.concat {operations : List (Operation Key Value)} {operation : Operation Key Value}
    (hfits : Fits capacity operations) {keys : Finset Key} (hcard : keys.card ≤ capacity)
    (hkeys : ∀ key, (latest (operations ++ [operation]) key).isSome = true → key ∈ keys) :
    Fits capacity (operations ++ [operation]) := by
  intro before hpart
  rcases List.prefix_concat_iff.mp hpart with rfl | hbefore
  · exact ⟨keys, hcard, hkeys⟩
  · exact hfits before hbefore

theorem latest_concat_delete (operations : List (Operation Key Value)) (key other : Key) :
    latest (operations ++ [.delete key]) other =
      if key = other then none else latest operations other := by
  split
  next heq =>
    subst heq
    exact latest_concat_self operations (.delete key)
  next hne => exact latest_concat_of_ne operations hne

theorem latest_concat_update (operations : List (Operation Key Value)) (key other : Key)
    (value : Value) :
    latest (operations ++ [.update key value]) other =
      if key = other then some value else latest operations other := by
  split
  next heq =>
    subst heq
    exact latest_concat_self operations (.update key value)
  next hne => exact latest_concat_of_ne operations hne

/-- A delete always fits. -/
theorem Fits.concat_delete {operations : List (Operation Key Value)}
    (hfits : Fits capacity operations) (key : Key) :
    Fits capacity (operations ++ [.delete key]) := by
  obtain ⟨keys, hcard, hkeys⟩ := hfits _ List.prefix_rfl
  apply hfits.concat hcard
  intro other hsome
  rw [latest_concat_delete] at hsome
  split at hsome
  next => exact Bool.noConfusion hsome
  next => exact hkeys other hsome

end BoundedMap

end Foundation
