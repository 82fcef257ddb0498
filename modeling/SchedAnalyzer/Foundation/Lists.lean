import Mathlib.Data.List.Basic
import Mathlib.Data.List.Induction

/-! # Facts about lists

Splitting a list at an item with a property, and what the length of a part says
about it.
-/

namespace Foundation.Lists

universe u v

variable {α : Type u} {β : Type v}

/-- A separator that occurs in neither tail splits a text in one way. -/
theorem append_cons_inj_of_notMem_tail {a : α} {head head' tail tail' : List α}
    (htail : a ∉ tail) (htail' : a ∉ tail') (heq : head ++ a :: tail = head' ++ a :: tail') :
    head = head' ∧ tail = tail' := by
  induction head generalizing head' with
  | nil =>
      cases head' with
      | nil => exact ⟨rfl, List.tail_eq_of_cons_eq heq⟩
      | cons b rest =>
          obtain ⟨-, htails⟩ := List.cons_eq_cons.mp heq
          exact absurd (htails ▸ List.mem_append_right rest List.mem_cons_self) htail
  | cons b rest ih =>
      cases head' with
      | nil =>
          obtain ⟨-, htails⟩ := List.cons_eq_cons.mp heq
          exact absurd (htails ▸ List.mem_append_right rest List.mem_cons_self) htail'
      | cons c rest' =>
          obtain ⟨rfl, htails⟩ := List.cons_eq_cons.mp heq
          obtain ⟨rfl, rfl⟩ := ih htails
          exact ⟨rfl, rfl⟩

/-- An item that is not in the second part of a list is in the first. -/
theorem split_before {before after first second : List α} {item middle : α}
    (heq : first ++ item :: second = before ++ middle :: after) (hne : item ≠ middle)
    (hafter : item ∉ after) :
    ∃ rest, before = first ++ item :: rest ∧ second = rest ++ middle :: after := by
  rcases List.append_eq_append_iff.mp heq with ⟨rest, hbefore, htail⟩ | ⟨rest, -, htail⟩
  · cases rest with
    | nil => exact absurd (List.cons_eq_cons.mp htail).1 hne
    | cons head rest =>
        obtain ⟨rfl, rfl⟩ := List.cons_eq_cons.mp htail
        exact ⟨rest, hbefore, rfl⟩
  · have hmem : item ∈ middle :: after := htail ▸ List.mem_append_right rest List.mem_cons_self
    rcases List.mem_cons.mp hmem with rfl | hmem
    · exact absurd rfl hne
    · exact absurd hmem hafter

/-- What holds of every item and those before it, for one more item. -/
theorem forall_splits_concat {holds : List α → α → Prop} {items : List α} {last : α}
    (hitems : ∀ before item after, items = before ++ item :: after → holds before item)
    (hlast : holds items last) :
    ∀ before item after, items ++ [last] = before ++ item :: after → holds before item := by
  intro before item after hsplit
  rcases List.eq_nil_or_concat after with rfl | ⟨rest, other, rfl⟩
  · obtain ⟨rfl, hsame⟩ := List.append_inj' hsplit rfl
    obtain rfl := List.singleton_inj.mp hsame
    exact hlast
  · rw [List.concat_eq_append, ← List.cons_append, ← List.append_assoc] at hsplit
    exact hitems before item rest (List.append_inj' hsplit rfl).1

/-- Looking for an item of a list finds it. -/
theorem find?_eq_self [DecidableEq α] {items : List α} {item : α} (hitem : item ∈ items) :
    items.find? (fun other => other = item) = some item := by
  induction items with
  | nil => cases hitem
  | cons head rest ih =>
      rw [List.find?_cons]
      by_cases hhead : head = item
      · rw [decide_eq_true hhead, hhead]
      · rw [decide_eq_false hhead]
        exact ih ((List.mem_cons.mp hitem).resolve_left (Ne.symm hhead))

/-- The last output comes from the last item that has any. -/
theorem exists_last_of_getLast?_flatMap {answer : α → List β} {items : List α}
    {output : β} (hlast : (items.flatMap answer).getLast? = some output) :
    ∃ before item after, items = before ++ item :: after ∧ (answer item).getLast? = some output ∧
      ∀ later ∈ after, answer later = [] := by
  induction items using List.reverseRecOn with
  | nil => exact absurd hlast (by simp)
  | append_singleton init item ih =>
      rw [List.flatMap_append, List.flatMap_singleton] at hlast
      by_cases hnil : answer item = []
      · rw [hnil, List.append_nil] at hlast
        obtain ⟨before, found, after, rfl, hfound, hafter⟩ := ih hlast
        refine ⟨before, found, after ++ [item], by simp, hfound, ?_⟩
        intro later hlater
        rcases List.mem_append.mp hlater with hlater | hlater
        · exact hafter later hlater
        · rw [List.mem_singleton.mp hlater, hnil]
      · rw [List.getLast?_append_of_ne_nil _ hnil] at hlast
        exact ⟨init, item, [], rfl, hlast, by simp⟩

theorem length_flatMap_append (extra expected : α → List β) (items : List α) :
    (items.flatMap fun x => extra x ++ expected x).length =
      (items.flatMap extra).length + (items.flatMap expected).length := by
  induction items with
  | nil => rfl
  | cons x rest ih =>
      simp only [List.flatMap_cons, List.length_append, ih]
      omega

/-- Interleaving something into every part keeps the whole only if it is nothing. -/
theorem eq_nil_of_flatMap_append_eq {extra expected : α → List β} {items : List α}
    (heq : (items.flatMap fun x => extra x ++ expected x) = items.flatMap expected) :
    ∀ x ∈ items, extra x = [] := by
  have hlen := length_flatMap_append extra expected items
  rw [heq] at hlen
  have hextra : items.flatMap extra = [] := List.eq_nil_of_length_eq_zero (by omega)
  exact List.flatMap_eq_nil_iff.mp hextra

/-- Of two filters, one implying the other, only equal ones keep as many elements. -/
theorem eq_of_length_filter_eq {keep more : α → Bool} {items : List α}
    (himp : ∀ x, keep x = true → more x = true)
    (hlen : (items.filter keep).length = (items.filter more).length) :
    ∀ x ∈ items, keep x = more x := by
  have hsub : (items.filter keep).Sublist (items.filter more) :=
    List.monotone_filter_right items himp
  have heq : items.filter keep = items.filter more := hsub.eq_of_length hlen
  intro x hx
  rw [Bool.eq_iff_iff]
  refine ⟨himp x, fun hmore => ?_⟩
  have hmem : x ∈ items.filter more := List.mem_filter.mpr ⟨hx, hmore⟩
  rw [← heq] at hmem
  exact (List.mem_filter.mp hmem).2

/-- A list within the bound is kept whole. -/
theorem take_append_nil {entries : List α} {bound : Nat}
    (hle : entries.length ≤ bound) : (entries ++ []).take bound = entries := by
  rw [List.append_nil, List.take_of_length_le hle]

/-- Appending to a list that keeps its first entries. -/
theorem take_take_append (entries more last : List α) (bound : Nat) :
    ((entries ++ more).take bound ++ last).take bound =
      (entries ++ (more ++ last)).take bound := by
  rw [← List.append_assoc]
  generalize entries ++ more = kept
  rw [List.take_append, List.take_append, List.take_take, Nat.min_self, List.length_take]
  by_cases hle : bound ≤ kept.length
  · rw [Nat.min_eq_left hle, Nat.sub_self, Nat.sub_eq_zero_of_le hle]
  · rw [Nat.min_eq_right (Nat.le_of_not_le hle)]

/-- What is in a part between separators is in the whole. -/
theorem mem_of_mem_splitOnP {separator : α → Bool} {items part : List α}
    (hpart : part ∈ items.splitOnP separator) : ∀ item ∈ part, item ∈ items := by
  induction items generalizing part with
  | nil =>
      rw [List.splitOnP_nil, List.mem_singleton] at hpart
      subst hpart
      exact fun item hitem => hitem
  | cons head rest ih =>
      rw [List.splitOnP_cons_eq_if_modifyHead] at hpart
      intro item hitem
      split at hpart
      next =>
        rcases List.mem_cons.mp hpart with rfl | hrest
        · exact absurd hitem List.not_mem_nil
        · exact List.mem_cons_of_mem head (ih hrest item hitem)
      next =>
        obtain ⟨first, others, hparts⟩ :=
          List.exists_cons_of_ne_nil (List.splitOnP_ne_nil separator rest)
        rw [hparts, List.modifyHead_cons] at hpart
        rcases List.mem_cons.mp hpart with rfl | hothers
        · rcases List.mem_cons.mp hitem with rfl | hitem
          · exact List.mem_cons_self
          · exact List.mem_cons_of_mem head (ih (hparts ▸ List.mem_cons_self) item hitem)
        · exact List.mem_cons_of_mem head
            (ih (hparts ▸ List.mem_cons_of_mem first hothers) item hitem)

/-- The items in front of the first that is missing. -/
def leadingSome : List (Option α) → List α
  | some item :: rest => item :: leadingSome rest
  | _ => []

theorem mem_of_mem_leadingSome {items : List (Option α)} {item : α}
    (hitem : item ∈ leadingSome items) : some item ∈ items := by
  induction items with
  | nil => exact absurd hitem List.not_mem_nil
  | cons first rest ih =>
      cases first with
      | none => exact absurd hitem List.not_mem_nil
      | some head =>
          rcases List.mem_cons.mp hitem with rfl | hrest
          · exact List.mem_cons_self
          · exact List.mem_cons_of_mem _ (ih hrest)

/-- Padding with an item that is in neither list does not hide a difference. -/
theorem eq_of_append_replicate {first second : List α} {pad : α} (hfirst : pad ∉ first)
    (hsecond : pad ∉ second) {count count' : ℕ}
    (heq : first ++ List.replicate count pad = second ++ List.replicate count' pad) :
    first = second := by
  classical
  have hkept : ∀ (items : List α) (count : ℕ), pad ∉ items →
      (items ++ List.replicate count pad).filter (fun item => item ≠ pad) = items := by
    intro items count hitems
    rw [List.filter_append, List.filter_eq_self.mpr, List.filter_eq_nil_iff.mpr, List.append_nil]
    · intro item hitem
      simp [List.eq_of_mem_replicate hitem]
    · intro item hitem
      exact decide_eq_true fun hpad => hitems (hpad ▸ hitem)
  rw [← hkept first count hfirst, heq, hkept second count' hsecond]

/-- A traversal in which nothing fails. -/
theorem mapM_eq_some_map {f : α → Option β} {g : α → β} {items : List α}
    (hall : ∀ item ∈ items, f item = some (g item)) : items.mapM f = some (items.map g) := by
  induction items with
  | nil => rfl
  | cons item rest ih =>
      obtain ⟨hitem, hrest⟩ := List.forall_mem_cons.mp hall
      rw [List.mapM_cons, hitem, ih hrest]
      rfl

/-- Nested loops over the pairs of a dependent product. -/
theorem map_sigma {σ : α → Type*} (outer : List α) (inner : ∀ a, List (σ a)) (f : Sigma σ → β) :
    (outer.sigma inner).map f = outer.flatMap fun a => (inner a).map fun b => f ⟨a, b⟩ := by
  rw [List.sigma, List.map_flatMap]
  simp only [List.map_map]
  rfl

/-- A part of a chain without gaps is a chain. -/
theorem isChain_filter_of_convex {relation : α → α → Prop} {keep : α → Bool} {items : List α}
    (hconvex : ∀ first between last, [first, between, last].Sublist items →
      keep first = true → keep last = true → keep between = true)
    (hchain : items.IsChain relation) : (items.filter keep).IsChain relation := by
  induction items with
  | nil => exact List.IsChain.nil
  | cons first rest ih =>
      have hrest : (rest.filter keep).IsChain relation :=
        ih (fun a b c hsub => hconvex a b c (hsub.cons first)) hchain.of_cons
      by_cases hfirst : keep first = true
      · rw [List.filter_cons_of_pos hfirst]
        cases rest with
        | nil => exact List.IsChain.singleton first
        | cons next rest =>
            by_cases hnext : keep next = true
            · rw [List.filter_cons_of_pos hnext] at hrest ⊢
              exact List.isChain_cons_cons.mpr ⟨(List.isChain_cons_cons.mp hchain).1, hrest⟩
            · -- Nothing is kept any more.
              have hnone : (next :: rest).filter keep = [] := by
                apply List.filter_eq_nil_iff.mpr
                intro item hitem hkeep
                rcases List.mem_cons.mp hitem with rfl | hitem
                · exact hnext hkeep
                · apply hnext
                  apply hconvex first next item _ hfirst hkeep
                  exact ((List.singleton_sublist.mpr hitem).cons_cons next).cons_cons first
              rw [hnone]
              exact List.IsChain.singleton first
      · rwa [List.filter_cons_of_neg hfirst]

end Foundation.Lists
