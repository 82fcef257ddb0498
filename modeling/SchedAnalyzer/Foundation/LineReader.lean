import SchedAnalyzer.Foundation.CString
import SchedAnalyzer.Foundation.Lists

/-! # Lines through a buffer, and their tokens

`fgets` reads up to a newline or until its buffer is full, so what it returns is
a line, or a piece of one where lines are longer than the buffer. `strtok` takes
one token after the other out of a string.
-/

namespace Foundation.CString

/-! ## Lines -/

/-- The characters up to a newline and with it, but at most `room` of them, and
what comes after them. -/
def readUpTo : Nat → List Char → List Char × List Char
  | 0, text => ([], text)
  | _ + 1, [] => ([], [])
  | room + 1, c :: rest =>
      if c = '\n' then ([c], rest)
      else (c :: (readUpTo room rest).1, (readUpTo room rest).2)

/-- `fgets(buffer, size, stream)`: what it stores in front of the NUL, and what is
left of the stream. Nothing is stored at the end of the stream. -/
def fgets (size : Nat) (text : List Char) : Option (List Char × List Char) :=
  if text = [] then none else some (readUpTo (size - 1) text)

theorem readUpTo_append (room : Nat) (text : List Char) :
    (readUpTo room text).1 ++ (readUpTo room text).2 = text := by
  induction room generalizing text with
  | zero => rfl
  | succ room ih =>
      cases text with
      | nil => rfl
      | cons c rest =>
          rw [readUpTo]
          split
          next => rfl
          next => exact congrArg (c :: ·) (ih rest)

theorem mem_of_mem_readUpTo {room : Nat} {text : List Char} {c : Char}
    (hc : c ∈ (readUpTo room text).1) : c ∈ text := by
  rw [← readUpTo_append room text]
  exact List.mem_append_left _ hc

/-- Something is read as long as there is room. -/
theorem readUpTo_ne_nil {room : Nat} (hroom : 0 < room) {text : List Char} (htext : text ≠ []) :
    (readUpTo room text).1 ≠ [] := by
  obtain ⟨room, rfl⟩ := Nat.exists_eq_add_one_of_ne_zero (Nat.pos_iff_ne_zero.mp hroom)
  obtain ⟨c, rest, rfl⟩ := List.exists_cons_of_ne_nil htext
  rw [readUpTo]
  split
  next => exact List.cons_ne_nil _ _
  next => exact List.cons_ne_nil _ _

theorem length_readUpTo_snd_lt {room : Nat} (hroom : 0 < room) {text : List Char}
    (htext : text ≠ []) : (readUpTo room text).2.length < text.length := by
  have hlen := congrArg List.length (readUpTo_append room text)
  have hread := List.length_pos_iff.mpr (readUpTo_ne_nil hroom htext)
  rw [List.length_append] at hlen
  omega

/-- A line that leaves room for its newline is read as it stands. -/
theorem readUpTo_line {room : Nat} {body : List Char} (hbody : '\n' ∉ body)
    (hroom : body.length < room) (rest : List Char) :
    readUpTo room (body ++ '\n' :: rest) = (body ++ ['\n'], rest) := by
  induction body generalizing room with
  | nil =>
      obtain ⟨room, rfl⟩ := Nat.exists_eq_add_one_of_ne_zero (Nat.pos_iff_ne_zero.mp hroom)
      exact if_pos rfl
  | cons c body ih =>
      obtain ⟨room, rfl⟩ := Nat.exists_eq_add_one_of_ne_zero (Nat.ne_zero_of_lt hroom)
      obtain ⟨hc, hrest⟩ := not_or.mp (List.mem_cons.not.mp hbody)
      rw [List.cons_append, readUpTo, if_neg (Ne.symm hc), ih hrest (Nat.lt_of_succ_lt_succ hroom)]
      rfl

/-- A longer one is cut where the room ends. -/
theorem readUpTo_long {body : List Char} (hbody : '\n' ∉ body) (rest : List Char) :
    readUpTo body.length (body ++ rest) = (body, rest) := by
  induction body with
  | nil => rfl
  | cons c body ih =>
      obtain ⟨hc, hrest⟩ := not_or.mp (List.mem_cons.not.mp hbody)
      rw [List.cons_append, List.length_cons, readUpTo, if_neg (Ne.symm hc), ih hrest]

/-- A newline keeps what comes after it out of the line. -/
theorem readUpTo_append_newline (room : Nat) (body rest : List Char) :
    (readUpTo room (body ++ '\n' :: rest)).1 = (readUpTo room (body ++ ['\n'])).1 := by
  induction body generalizing room with
  | nil =>
      cases room with
      | zero => rfl
      | succ room =>
          rw [List.nil_append, List.nil_append, readUpTo, readUpTo, if_pos rfl, if_pos rfl]
  | cons c body ih =>
      cases room with
      | zero => rfl
      | succ room =>
          rw [List.cons_append, List.cons_append, readUpTo, readUpTo]
          split
          next => rfl
          next => exact congrArg (c :: ·) (ih room)

/-- What calls of `fgets` return, one after the other. -/
def fgetsLines (size : Nat) (hsize : 2 ≤ size) (text : List Char) : List (List Char) :=
  if htext : text = [] then []
  else (readUpTo (size - 1) text).1 :: fgetsLines size hsize (readUpTo (size - 1) text).2
termination_by text.length
decreasing_by exact length_readUpTo_snd_lt (Nat.sub_pos_of_lt hsize) htext

theorem fgetsLines_nil (size : Nat) (hsize : 2 ≤ size) : fgetsLines size hsize [] = [] := by
  rw [fgetsLines, dif_pos rfl]

theorem fgetsLines_of_ne_nil {size : Nat} (hsize : 2 ≤ size) {text : List Char}
    (htext : text ≠ []) :
    fgetsLines size hsize text =
      (readUpTo (size - 1) text).1 :: fgetsLines size hsize (readUpTo (size - 1) text).2 := by
  rw [fgetsLines, dif_neg htext]

/-- Lines that fit the buffer are read as they stand. -/
theorem fgetsLines_flatten {size : Nat} (hsize : 2 ≤ size) {bodies : List (List Char)}
    (hbodies : ∀ body ∈ bodies, '\n' ∉ body ∧ body.length + 2 ≤ size) :
    fgetsLines size hsize (bodies.flatMap fun body => body ++ ['\n']) =
      bodies.map fun body => body ++ ['\n'] := by
  induction bodies with
  | nil => exact fgetsLines_nil size hsize
  | cons body rest ih =>
      obtain ⟨hbody, hlen⟩ := hbodies body List.mem_cons_self
      have htext : (body ++ ['\n']) ++ rest.flatMap (fun body => body ++ ['\n']) ≠ [] := by simp
      rw [List.flatMap_cons, fgetsLines_of_ne_nil hsize htext, List.append_assoc,
        List.singleton_append, readUpTo_line hbody (by omega), List.map_cons,
        ih fun other hother => hbodies other (List.mem_cons_of_mem _ hother)]

/-! ## The lines of a text -/

/-- The lines of a text with their newlines. The last one may have none. -/
def lines : List Char → List (List Char)
  | [] => []
  | c :: rest =>
      if c = '\n' then [c] :: lines rest
      else
        match lines rest with
        | [] => [[c]]
        | line :: later => (c :: line) :: later

@[simp] theorem lines_nil : lines [] = [] := rfl

theorem lines_ne_nil {text : List Char} (htext : text ≠ []) : lines text ≠ [] := by
  obtain ⟨c, rest, rfl⟩ := List.exists_cons_of_ne_nil htext
  rw [lines]
  split
  next => exact List.cons_ne_nil _ _
  next =>
    split
    next => exact List.cons_ne_nil _ _
    next => exact List.cons_ne_nil _ _

theorem flatten_lines (text : List Char) : (lines text).flatten = text := by
  induction text with
  | nil => rfl
  | cons c text ih =>
      rw [lines]
      split
      next => exact congrArg (c :: ·) ih
      next =>
        split
        next hnone =>
          rw [hnone] at ih
          exact congrArg (c :: ·) ih
        next line later hsome =>
          rw [hsome] at ih
          exact congrArg (c :: ·) ih

/-- A first line that the room has space for is read as it stands, and the lines behind
it stay. -/
theorem readUpTo_first {room : Nat} {text line : List Char} {later : List (List Char)}
    (hlines : lines text = line :: later) (hroom : line.length ≤ room) :
    ∃ rest, readUpTo room text = (line, rest) ∧ lines rest = later := by
  induction text generalizing room line later with
  | nil => cases hlines
  | cons c text ih =>
      rw [lines] at hlines
      split at hlines
      next hc =>
        obtain ⟨rfl, rfl⟩ := List.cons_eq_cons.mp hlines
        obtain ⟨room, rfl⟩ := Nat.exists_eq_add_one_of_ne_zero (Nat.ne_zero_of_lt hroom)
        exact ⟨text, by rw [readUpTo, if_pos hc], rfl⟩
      next hc =>
        split at hlines
        next hnone =>
          obtain ⟨rfl, rfl⟩ := List.cons_eq_cons.mp hlines
          obtain ⟨room, rfl⟩ := Nat.exists_eq_add_one_of_ne_zero (Nat.ne_zero_of_lt hroom)
          have htext : text = [] := by_contra fun htext => lines_ne_nil htext hnone
          subst htext
          refine ⟨[], ?_, rfl⟩
          rw [readUpTo, if_neg hc]
          cases room <;> rfl
        next first others hfirst =>
          obtain ⟨rfl, rfl⟩ := List.cons_eq_cons.mp hlines
          obtain ⟨room, rfl⟩ := Nat.exists_eq_add_one_of_ne_zero (Nat.ne_zero_of_lt hroom)
          obtain ⟨rest, hread, hrest⟩ := ih hfirst (Nat.le_of_succ_le_succ hroom)
          exact ⟨rest, by rw [readUpTo, if_neg hc, hread], hrest⟩

/-! ## Tokens -/

/-- `strtok(text, delim)` with one delimiter: the first token, and the text from
which `strtok(NULL, delim)` goes on. -/
def strtok (delim : Char) (text : List Char) : Option (List Char × List Char) :=
  let start := (cstr text).dropWhile (fun c => c == delim)
  if start = [] then none
  else some (start.takeWhile (fun c => c != delim), (start.dropWhile (fun c => c != delim)).drop 1)

/-- The tokens of a string: its parts between delimiters, without the empty ones. -/
def tokens (delim : Char) (text : List Char) : List (List Char) :=
  ((cstr text).splitOnP fun c => c == delim).filter fun token => !token.isEmpty

/-- Delimiters in front make no token. -/
theorem tokens_dropWhile (delim : Char) (text : List Char) :
    ((text.dropWhile fun c => c == delim).splitOnP fun c => c == delim).filter
        (fun token => !token.isEmpty) =
      (text.splitOnP fun c => c == delim).filter fun token => !token.isEmpty := by
  induction text with
  | nil => rfl
  | cons c rest ih =>
      by_cases hc : (c == delim) = true
      · rw [List.dropWhile_cons, if_pos hc, ih, List.splitOnP_cons_eq_if_modifyHead, if_pos hc]
        rfl
      · rw [List.dropWhile_cons, if_neg hc]

theorem tokens_of_strtok_none {delim : Char} {text : List Char}
    (hnone : strtok delim text = none) : tokens delim text = [] := by
  simp only [strtok, ite_eq_left_iff, reduceCtorEq, imp_false, not_not] at hnone
  rw [tokens, ← tokens_dropWhile, hnone]
  rfl

/-- `strtok` returns the first token, and the rest holds the others. -/
theorem tokens_of_strtok_some {delim : Char} {text token rest : List Char}
    (hsome : strtok delim text = some (token, rest)) :
    tokens delim text = token :: tokens delim rest := by
  simp only [strtok, Option.ite_none_left_eq_some, Option.some.injEq, Prod.mk.injEq] at hsome
  obtain ⟨hstart, rfl, rfl⟩ := hsome
  rw [tokens, ← tokens_dropWhile]
  have hnul : nul ∉ (cstr text).dropWhile fun c => c == delim :=
    fun hmem => nul_notMem_cstr text ((List.dropWhile_sublist _).mem hmem)
  have hhead := List.head_dropWhile_not _ hstart
  generalize (cstr text).dropWhile (fun c => c == delim) = start at hstart hnul hhead
  have hsplit : start.takeWhile (fun c => c != delim) ++ start.dropWhile (fun c => c != delim) =
      start := List.takeWhile_append_dropWhile
  have htoken : ∀ c ∈ start.takeWhile (fun c => c != delim), (c == delim) = false := by
    intro c hc
    simpa using List.mem_takeWhile_imp hc
  have hne : start.takeWhile (fun c => c != delim) ≠ [] := by
    obtain ⟨c, more, rfl⟩ := List.exists_cons_of_ne_nil hstart
    rw [List.takeWhile_cons_of_pos (by simpa using hhead)]
    exact List.cons_ne_nil _ _
  generalize start.takeWhile (fun c => c != delim) = token at hsplit htoken hne
  have hkept (more : List (List Char)) : ((token :: more).filter fun token => !token.isEmpty) =
      token :: more.filter fun token => !token.isEmpty :=
    List.filter_cons_of_pos (by simpa using hne)
  -- The token ends the string, or a delimiter ends the token.
  cases htail : start.dropWhile (fun c => c != delim) with
  | nil =>
      rw [htail, List.append_nil] at hsplit
      subst hsplit
      rw [List.splitOnP_eq_singleton htoken, hkept]
      rfl
  | cons c rest =>
      have hc : (c == delim) = true := by
        have hstop :=
          List.head_dropWhile_not (fun c => c != delim) (htail ▸ List.cons_ne_nil c rest)
        simpa [htail] using hstop
      have hrest : nul ∉ rest := by
        rw [← hsplit, htail] at hnul
        exact fun hmem => hnul (List.mem_append_right token (List.mem_cons_of_mem c hmem))
      rw [← hsplit, htail, List.splitOnP_append_cons_of_forall_mem htoken c hc,
        hkept, List.drop_one, List.tail_cons, tokens, cstr_of_notMem hrest]

/-- A text without delimiters is one token. -/
theorem tokens_eq_singleton {delim : Char} {word : List Char} (hne : word ≠ [])
    (hword : delim ∉ word) (hnul : nul ∉ word) : tokens delim word = [word] := by
  have hsplit : ∀ c ∈ word, (c == delim) = false := by
    intro c hc
    exact beq_eq_false_iff_ne.mpr fun heq => hword (heq ▸ hc)
  rw [tokens, cstr_of_notMem hnul, List.splitOnP_eq_singleton hsplit]
  exact List.filter_cons_of_pos (by simpa using hne)

/-- A delimiter ends the first token. -/
theorem tokens_append_cons {delim : Char} {word : List Char} (hne : word ≠ [])
    (hword : delim ∉ word) (hnul : nul ∉ word) (hdelim : delim ≠ nul) (rest : List Char) :
    tokens delim (word ++ delim :: rest) = word :: tokens delim rest := by
  have hsplit : ∀ c ∈ word, (c == delim) = false := by
    intro c hc
    exact beq_eq_false_iff_ne.mpr fun heq => hword (heq ▸ hc)
  have hcstr : cstr (word ++ delim :: rest) = word ++ delim :: cstr rest := by
    rw [cstr, List.takeWhile_append_of_pos, List.takeWhile_cons_of_pos]
    · rfl
    · exact bne_iff_ne.mpr hdelim
    · intro c hc
      exact bne_iff_ne.mpr fun heq => hnul (heq ▸ hc)
  rw [tokens, hcstr, List.splitOnP_append_cons_of_forall_mem hsplit delim (beq_self_eq_true delim)]
  exact List.filter_cons_of_pos (by simpa using hne)

theorem of_mem_tokens {delim : Char} {text token : List Char}
    (htoken : token ∈ tokens delim text) : token ≠ [] ∧ nul ∉ token := by
  obtain ⟨hpart, hne⟩ := List.mem_filter.mp htoken
  refine ⟨by simpa using hne, fun hnul => ?_⟩
  exact nul_notMem_cstr text (Lists.mem_of_mem_splitOnP hpart nul hnul)

end Foundation.CString
