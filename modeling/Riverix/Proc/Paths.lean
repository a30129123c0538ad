import Riverix.Lib.Path

/-!
# Path normalisation (`proc.c`)

`proc_normalize_path` reads the working directory, for a relative path, and then the path
itself component by component into a stack of at most 24 names of at most 31 bytes, and joins
the stack behind slashes into a buffer of `max_length` bytes. A string is the list of its bytes
before the terminator.

The reading loop is a fold over the pieces between the slashes (`consumePath_eq`), and where
it does not fail it is the lexical resolution of `Lib.Path`. The joining loop fails exactly if
the whole result does not fit (`joinFrom_eq`). **`normalizePath_spec`** puts the two together.
-/

namespace Riverix.Proc

open Riverix.Lib

/-- `PROC_PATH_COMPONENT_MAX` -/
abbrev pathComponentMax : Nat := 32

/-- `PROC_PATH_COMPONENTS_MAX` -/
abbrev pathComponentsMax : Nat := 24

/-- `proc_push_component` -/
def pushComponent (stack : List (List Byte)) (source : List Byte) : Option (List (List Byte)) :=
  if source.length = 0 ∨ source.length ≥ pathComponentMax ∨ stack.length ≥ pathComponentsMax then
    none
  else some (stack ++ [source])

/-- The loop of `proc_consume_path`, with the cursor behind the slashes it has skipped. -/
def consumeFrom (stack : List (List Byte)) : List Byte → Option (List (List Byte))
  | [] => some stack
  | b :: cursor =>
    let component := firstComponent (b :: cursor)
    if component = dot then consumeFrom stack (afterComponent (b :: cursor))
    else if component = dotDot then consumeFrom stack.dropLast (afterComponent (b :: cursor))
    else
      match pushComponent stack component with
      | none => none
      | some stack => consumeFrom stack (afterComponent (b :: cursor))
termination_by cursor => cursor.length
decreasing_by all_goals exact afterComponent_length b cursor

/-- `proc_consume_path` -/
def consumePath (stack : List (List Byte)) (path : List Byte) : Option (List (List Byte)) :=
  consumeFrom stack (skipSlashes path)

/-- The joining loop of `proc_normalize_path`; `out` is what has been written. -/
def joinFrom (maxLength : Nat) (out : List Byte) : List (List Byte) → Option (List Byte)
  | [] => some out
  | c :: cs =>
    if out.length + c.length + 1 ≥ maxLength then none
    else joinFrom maxLength (if cs = [] then out ++ c else out ++ c ++ [slash]) cs

/-- `proc_normalize_path`, for a task with working directory `cwd`. -/
def normalizePath (cwd path : List Byte) (maxLength : Nat) : Option (List Byte) :=
  if maxLength < 2 ∨ path = [] then none
  else
    match if path.head? = some slash then some [] else consumePath [] cwd with
    | none => none
    | some stack =>
      match consumePath stack path with
      | none => none
      | some stack => joinFrom maxLength [slash] stack

/-! ## Reading -/

/-- What the reading loop does with one piece. -/
def applyPiece (stack : List (List Byte)) (piece : List Byte) : Option (List (List Byte)) :=
  if piece = [] ∨ piece = dot then some stack
  else if piece = dotDot then some stack.dropLast
  else pushComponent stack piece

variable {stack stack' : List (List Byte)} {cwd path result : List Byte} {maxLength : Nat}

theorem consumeFrom_cons (b : Byte) (cursor : List Byte) (stack : List (List Byte))
    (hb : isSlash b = false) :
    consumeFrom stack (b :: cursor) = (applyPiece stack (firstComponent (b :: cursor))).bind
      fun stack => consumeFrom stack (afterComponent (b :: cursor)) := by
  have hne : firstComponent (b :: cursor) ≠ [] := by
    unfold firstComponent
    rw [List.takeWhile_cons, if_pos (by simp [hb])]
    exact List.cons_ne_nil _ _
  rw [consumeFrom]
  unfold applyPiece
  generalize firstComponent (b :: cursor) = name at hne
  by_cases hdot : name = dot
  · rw [if_pos hdot, if_pos (Or.inr hdot)]
    rfl
  have hskip : ¬(name = [] ∨ name = dot) := by simp [hne, hdot]
  rw [if_neg hdot, if_neg hskip]
  by_cases hup : name = dotDot
  · rw [if_pos hup, if_pos hup]
    rfl
  · rw [if_neg hup, if_neg hup]
    cases pushComponent stack name <;> rfl

/-- The loop is a fold over the components. -/
theorem consumeFrom_eq (cursor : List Byte) (stack : List (List Byte))
    (hat : ∀ b ∈ cursor.head?, isSlash b = false) :
    consumeFrom stack cursor = (components cursor).foldlM applyPiece stack := by
  induction hn : cursor.length using Nat.strong_induction_on generalizing cursor stack with
  | _ n ih =>
    cases cursor with
    | nil => rw [consumeFrom]; rfl
    | cons b cursor =>
      have hb : isSlash b = false := hat b rfl
      have hlt := afterComponent_length b cursor
      have hnext : ∀ c ∈ (afterComponent (b :: cursor)).head?, isSlash c = false := by
        intro c hc
        have hstop := List.head?_dropWhile_not isSlash ((b :: cursor).dropWhile fun b => !isSlash b)
        unfold afterComponent skipSlashes at hc
        rw [Option.mem_def] at hc
        rw [hc] at hstop
        simpa using hstop
      rw [consumeFrom_cons b cursor stack hb, components_cursor hb, List.foldlM_cons]
      cases applyPiece stack (firstComponent (b :: cursor)) with
      | none => rfl
      | some stack => exact ih _ (hn ▸ hlt) _ stack hnext rfl

/-- Empty pieces do not matter. -/
theorem foldlM_components (path : List Byte) (stack : List (List Byte)) :
    (components path).foldlM applyPiece stack = (pieces path).foldlM applyPiece stack := by
  unfold components pieces
  generalize path.splitOnP isSlash = ps
  induction ps generalizing stack with
  | nil => rfl
  | cons p ps ih =>
    by_cases hp : p = []
    · rw [List.filter_cons_of_neg (by simp [hp]), ih, List.foldlM_cons,
        show applyPiece stack p = some stack from if_pos (Or.inl hp)]
      rfl
    · rw [List.filter_cons_of_pos (by simp [hp]), List.foldlM_cons, List.foldlM_cons]
      cases applyPiece stack p with
      | none => rfl
      | some stack => exact ih stack

theorem consumePath_eq (path : List Byte) (stack : List (List Byte)) :
    consumePath stack path = (pieces path).foldlM applyPiece stack := by
  have hat : ∀ b ∈ (skipSlashes path).head?, isSlash b = false := by
    intro b hb
    have hstop := List.head?_dropWhile_not isSlash path
    unfold skipSlashes at hb
    rw [Option.mem_def] at hb
    rw [hb] at hstop
    simpa using hstop
  unfold consumePath
  rw [consumeFrom_eq _ _ hat, components_skipSlashes, foldlM_components]

/-- The pieces that are read: those of the working directory only for a relative path. -/
def readPieces (cwd path : List Byte) : List (List Byte) :=
  (if path.head? = some slash then [] else pieces cwd) ++ pieces path

theorem normalizePath_eq (h : ¬(maxLength < 2 ∨ path = [])) :
    normalizePath cwd path maxLength
      = ((readPieces cwd path).foldlM applyPiece []).bind (joinFrom maxLength [slash]) := by
  unfold normalizePath readPieces
  rw [if_neg h]
  split
  next hnone =>
    split at hnone
    · cases hnone
    next hrel =>
      rw [consumePath_eq] at hnone
      rw [if_neg hrel, List.foldlM_append, hnone]
      rfl
  next stack hsome =>
  have hfirst : (if path.head? = some slash then [] else pieces cwd).foldlM applyPiece []
      = some stack := by
    split at hsome
    next habs =>
      rw [if_pos habs]
      exact hsome
    next hrel =>
      rw [if_neg hrel, ← consumePath_eq]
      exact hsome
  rw [List.foldlM_append, hfirst, consumePath_eq]
  show _ = ((pieces path).foldlM applyPiece stack).bind _
  cases (pieces path).foldlM applyPiece stack <;> rfl

/-! ## What the stack holds -/

/-- What is on the stack can be joined and read again. -/
structure Normal (stack : List (List Byte)) : Prop where
  names : ∀ c ∈ stack, Names c
  short : ∀ c ∈ stack, c.length < pathComponentMax
  whole : ∀ c ∈ stack, ∀ b ∈ c, isSlash b = false
  count : stack.length ≤ pathComponentsMax

theorem Normal.nil : Normal [] :=
  ⟨fun _ h => absurd h List.not_mem_nil, fun _ h => absurd h List.not_mem_nil,
    fun _ h => absurd h List.not_mem_nil, Nat.zero_le _⟩

theorem Normal.dropLast (h : Normal stack) : Normal stack.dropLast :=
  ⟨fun c hc => h.names c (List.dropLast_subset _ hc),
    fun c hc => h.short c (List.dropLast_subset _ hc),
    fun c hc => h.whole c (List.dropLast_subset _ hc),
    le_trans (by rw [List.length_dropLast]; exact Nat.sub_le _ _) h.count⟩

theorem Normal.push {name : List Byte} (h : Normal stack) (hname : Names name)
    (hshort : name.length < pathComponentMax) (hwhole : ∀ b ∈ name, isSlash b = false)
    (hcount : stack.length < pathComponentsMax) : Normal (stack ++ [name]) := by
  have hmem : ∀ c ∈ stack ++ [name], c ∈ stack ∨ c = name := fun c hc => by
    simpa using List.mem_append.mp hc
  refine ⟨fun c hc => ?_, fun c hc => ?_, fun c hc => ?_, ?_⟩
  · rcases hmem c hc with hc | rfl
    · exact h.names c hc
    · exact hname
  · rcases hmem c hc with hc | rfl
    · exact h.short c hc
    · exact hshort
  · rcases hmem c hc with hc | rfl
    · exact h.whole c hc
    · exact hwhole
  · rw [List.length_append, List.length_singleton]
    exact hcount

/-- A piece is skipped or pops, and then resolves as in `Lib.Path`, or it is a name. -/
theorem applyPiece_cases (stack : List (List Byte)) (piece : List Byte) :
    (applyPiece stack piece = some (resolveStep stack piece)
        ∧ (resolveStep stack piece = stack ∨ resolveStep stack piece = stack.dropLast))
      ∨ (Names piece ∧ applyPiece stack piece = pushComponent stack piece) := by
  unfold applyPiece resolveStep
  by_cases hskip : piece = [] ∨ piece = dot
  · rw [if_pos hskip, if_pos hskip]
    exact .inl ⟨rfl, .inl rfl⟩
  rw [if_neg hskip, if_neg hskip]
  by_cases hup : piece = dotDot
  · rw [if_pos hup, if_pos hup]
    exact .inl ⟨rfl, .inr rfl⟩
  · rw [if_neg hup]
    exact .inr ⟨⟨fun h => hskip (.inl h), fun h => hskip (.inr h), hup⟩, rfl⟩

theorem pushComponent_some {name : List Byte} (h : pushComponent stack name = some stack') :
    stack' = stack ++ [name] ∧ name.length < pathComponentMax
      ∧ stack.length < pathComponentsMax := by
  unfold pushComponent at h
  split at h
  · cases h
  next hfits =>
    cases h
    exact ⟨rfl, by omega, by omega⟩

/-- A step that succeeds resolves the piece and keeps the stack normal. -/
theorem applyPiece_some {piece : List Byte} (h : applyPiece stack piece = some stack')
    (hwhole : ∀ b ∈ piece, isSlash b = false) (hs : Normal stack) :
    stack' = resolveStep stack piece ∧ Normal stack' := by
  rcases applyPiece_cases stack piece with ⟨heq, hor⟩ | ⟨hname, heq⟩
  · rw [heq] at h
    cases h
    refine ⟨rfl, ?_⟩
    rcases hor with hor | hor <;> rw [hor]
    · exact hs
    · exact hs.dropLast
  · rw [heq] at h
    obtain ⟨rfl, hshort, hcount⟩ := pushComponent_some h
    exact ⟨(resolveStep_name hname).symm, hs.push hname hshort hwhole hcount⟩

theorem foldlM_some (names : List (List Byte)) (h : names.foldlM applyPiece stack = some stack')
    (hwhole : ∀ c ∈ names, ∀ b ∈ c, isSlash b = false) (hs : Normal stack) :
    stack' = resolve stack names ∧ Normal stack' := by
  induction names generalizing stack with
  | nil =>
    cases h
    exact ⟨rfl, hs⟩
  | cons c names ih =>
    rw [List.foldlM_cons] at h
    cases hstep : applyPiece stack c with
    | none => rw [hstep] at h; cases h
    | some next =>
      rw [hstep] at h
      obtain ⟨rfl, hnext⟩ := applyPiece_some hstep (hwhole c (List.mem_cons_self ..)) hs
      exact ih h (fun d hd => hwhole d (List.mem_cons_of_mem _ hd)) hnext

/-- A name that does not fit ends the fold: it is too long, or the stack is full. -/
theorem foldlM_none (names : List (List Byte)) (h : names.foldlM applyPiece stack = none)
    (hwhole : ∀ c ∈ names, ∀ b ∈ c, isSlash b = false) (hs : Normal stack) :
    ∃ before name after, names = before ++ name :: after ∧ Names name
      ∧ (pathComponentMax ≤ name.length
        ∨ pathComponentsMax < (resolve stack (before ++ [name])).length) := by
  induction names generalizing stack with
  | nil => cases h
  | cons c names ih =>
    rw [List.foldlM_cons] at h
    cases hstep : applyPiece stack c with
    | none =>
      rcases applyPiece_cases stack c with ⟨heq, -⟩ | ⟨hname, heq⟩
      · rw [heq] at hstep
        cases hstep
      refine ⟨[], c, names, rfl, hname, ?_⟩
      have hpos : 0 < c.length := List.length_pos_iff.mpr hname.ne_nil
      have hfull : ¬(c.length < pathComponentMax ∧ stack.length < pathComponentsMax) := by
        rintro ⟨hshort, hcount⟩
        rw [heq] at hstep
        unfold pushComponent at hstep
        rw [if_neg (by omega)] at hstep
        cases hstep
      show _ ∨ pathComponentsMax < (resolveStep stack c).length
      rw [resolveStep_name hname, List.length_append, List.length_singleton]
      omega
    | some next =>
      rw [hstep] at h
      obtain ⟨rfl, hnext⟩ := applyPiece_some hstep (hwhole c (List.mem_cons_self ..)) hs
      obtain ⟨before, name, after, heq, hname, hbig⟩ :=
        ih h (fun d hd => hwhole d (List.mem_cons_of_mem _ hd)) hnext
      exact ⟨c :: before, name, after, by rw [heq]; rfl, hname, hbig⟩

/-- The names of a normal stack are pushed one after the other. -/
theorem foldlM_normal (names : List (List Byte)) (hs : Normal (stack ++ names)) :
    names.foldlM applyPiece stack = some (stack ++ names) := by
  induction names generalizing stack with
  | nil => rw [List.append_nil]; rfl
  | cons c names ih =>
    have hmem : c ∈ stack ++ c :: names := List.mem_append_right _ (List.mem_cons_self ..)
    have hname := hs.names c hmem
    have hpos : 0 < c.length := List.length_pos_iff.mpr hname.ne_nil
    have hshort := hs.short c hmem
    have hcount := hs.count
    rw [List.length_append, List.length_cons] at hcount
    have hpush : applyPiece stack c = some (stack ++ [c]) := by
      unfold applyPiece
      rw [if_neg (by simp [hname.ne_nil, hname.ne_dot]), if_neg hname.ne_dotDot]
      unfold pushComponent
      exact if_neg (by omega)
    rw [List.append_cons] at hs ⊢
    rw [List.foldlM_cons, hpush]
    exact ih hs

/-! ## Joining -/

/-- The checks of the single components come to one check of the whole text: the one before
the last component is the strictest. -/
theorem joinFrom_eq (c : List Byte) (cs : List (List Byte)) (out : List Byte) :
    joinFrom maxLength out (c :: cs)
      = if maxLength ≤ (out ++ [slash].intercalate (c :: cs)).length + 1 then none
        else some (out ++ [slash].intercalate (c :: cs)) := by
  induction cs generalizing c out with
  | nil =>
    rw [joinFrom, List.intercalate_singleton, List.length_append]
    rfl
  | cons d cs ih =>
    have htext : out ++ [slash].intercalate (c :: d :: cs)
        = out ++ c ++ [slash] ++ [slash].intercalate (d :: cs) := by
      rw [List.intercalate_cons_cons]
      simp only [List.append_assoc]
    rw [joinFrom, if_neg (List.cons_ne_nil d cs), ih, htext]
    split
    next hover =>
      rw [if_pos]
      simp only [List.length_append, List.length_singleton]
      omega
    · rfl

theorem joinFrom_absolute (maxLength : Nat) (stack : List (List Byte)) :
    joinFrom maxLength [slash] stack
      = if stack ≠ [] ∧ maxLength ≤ (absolute stack).length + 1 then none
        else some (absolute stack) := by
  cases stack with
  | nil => rfl
  | cons c cs =>
    rw [joinFrom_eq]
    simp only [ne_eq, reduceCtorEq, not_false_eq_true, true_and]
    rfl

/-! ## The whole function -/

theorem readPieces_whole (cwd path : List Byte) :
    ∀ c ∈ readPieces cwd path, ∀ b ∈ c, isSlash b = false := by
  intro c hc
  unfold readPieces at hc
  rcases List.mem_append.mp hc with hc | hc
  · split at hc
    · exact absurd hc List.not_mem_nil
    · exact mem_pieces hc
  · exact mem_pieces hc

/-- The text of a normal stack is read as that stack, whatever the working directory. -/
theorem foldlM_absolute (h : Normal stack) (cwd : List Byte) :
    (readPieces cwd (absolute stack)).foldlM applyPiece [] = some stack := by
  have hread : readPieces cwd (absolute stack) = [] :: pieces ((absolute stack).drop 1) := by
    unfold readPieces absolute pieces
    rw [List.head?_cons, if_pos rfl, List.splitOnP_cons_eq_if_modifyHead, if_pos (by decide)]
    rfl
  rw [hread, List.foldlM_cons]
  show (pieces ((absolute stack).drop 1)).foldlM applyPiece [] = some stack
  by_cases hne : stack = []
  · subst hne
    rfl
  · rw [pieces_absolute hne h.whole]
    exact foldlM_normal stack h

/-- **`proc_normalize_path` is lexical resolution within its limits.** A result is the text of
the resolved stack, made of names only, without a slash at its end unless it is the root, short
enough for the buffer, and its own normal form. A failure is a name of 32 or more bytes, a
25th name, or a text of `max_length - 1` or more characters. -/
theorem normalizePath_spec (cwd path : List Byte) (maxLength : Nat) (hpath : path ≠ []) :
    (∀ result, normalizePath cwd path maxLength = some result →
      result = absolute (resolve [] (readPieces cwd path))
        ∧ (result ≠ [slash] →
          (∀ piece ∈ pieces (result.drop 1), Names piece) ∧ result.getLast? ≠ some slash)
        ∧ result.length + 1 ≤ maxLength
        ∧ ∀ cwd', normalizePath cwd' result maxLength = some result)
      ∧ (normalizePath cwd path maxLength = none →
        (∃ before name after, readPieces cwd path = before ++ name :: after ∧ Names name
          ∧ (pathComponentMax ≤ name.length
            ∨ pathComponentsMax < (resolve [] (before ++ [name])).length))
          ∨ maxLength - 1 ≤ (absolute (resolve [] (readPieces cwd path))).length) := by
  have hwhole := readPieces_whole cwd path
  by_cases hlow : maxLength < 2 ∨ path = []
  · have hnone : normalizePath cwd path maxLength = none := if_pos hlow
    rw [hnone]
    refine ⟨fun _ h => (by cases h), fun _ => .inr ?_⟩
    rcases hlow with hlow | hlow
    · omega
    · exact absurd hlow hpath
  · rw [normalizePath_eq hlow]
    cases hfold : (readPieces cwd path).foldlM applyPiece [] with
    | none =>
      exact ⟨fun _ h => (by cases h), fun _ => .inl (foldlM_none _ hfold hwhole .nil)⟩
    | some stack =>
      obtain ⟨rfl, hstack⟩ := foldlM_some _ hfold hwhole .nil
      generalize resolve [] (readPieces cwd path) = stack at hstack
      rw [Option.bind_some, joinFrom_absolute]
      split
      next hover => exact ⟨fun _ h => (by cases h), fun _ => .inr (by omega)⟩
      next hfits =>
        refine ⟨fun result h => ?_, fun h => by cases h⟩
        cases h
        refine ⟨rfl, fun hroot => ?_, ?_, fun cwd' => ?_⟩
        · have hne : stack ≠ [] := fun h => hroot (by rw [h]; rfl)
          rw [pieces_absolute hne hstack.whole]
          exact ⟨hstack.names,
            absolute_getLast hne (fun c hc => (hstack.names c hc).ne_nil) hstack.whole⟩
        · by_cases hne : stack = []
          · subst hne
            show 2 ≤ maxLength
            omega
          · have hlt : ¬(maxLength ≤ (absolute stack).length + 1) := fun h => hfits ⟨hne, h⟩
            omega
        · have hlow' : ¬(maxLength < 2 ∨ absolute stack = []) := fun h =>
            hlow (h.imp_right fun h => nomatch h)
          rw [normalizePath_eq hlow', foldlM_absolute hstack, Option.bind_some,
            joinFrom_absolute, if_neg hfits]

/-- `a/./../b//c` from `/h` in a buffer of 128 bytes. -/
theorem normalizePath_spec_relative :
    normalizePath [0x2F, 0x68] [0x61, 0x2F, 0x2E, 0x2F, 0x2E, 0x2E, 0x2F, 0x62, 0x2F,
      0x2F, 0x63] 128
        = some [0x2F, 0x68, 0x2F, 0x62, 0x2F, 0x63]
      ∧ ∀ cwd', normalizePath cwd' [0x2F, 0x68, 0x2F, 0x62, 0x2F, 0x63] 128
        = some [0x2F, 0x68, 0x2F, 0x62, 0x2F, 0x63] := by
  have h : normalizePath [0x2F, 0x68]
      [0x61, 0x2F, 0x2E, 0x2F, 0x2E, 0x2E, 0x2F, 0x62, 0x2F, 0x2F, 0x63] 128
        = some [0x2F, 0x68, 0x2F, 0x62, 0x2F, 0x63] := by decide +kernel
  exact ⟨h, ((normalizePath_spec _ _ 128 (List.cons_ne_nil _ _)).1 _ h).2.2.2⟩

end Riverix.Proc
