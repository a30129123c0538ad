import Mathlib.Data.List.TakeWhile
import Mathlib.Data.List.Range
import Riverix.Lib.Store

/-!
# Paths as text

A path is a text with slashes in it, and its components are the non-empty runs between
them. A walk along a path reads it with a cursor: skip slashes, take a component, go on
behind it. `components_cursor` is one step of such a walk, and `lastSlash_entry` is where
a path is cut into the directory and the name in it. `resolve` is the meaning of `.` and
`..`, as a fold over a stack of names.
-/

namespace Riverix.Lib

/-- The separator, `'/'`. -/
def slash : Byte := 0x2F

def isSlash (b : Byte) : Bool := b == slash

/-- The non-empty runs between the slashes. -/
def components (path : List Byte) : List (List Byte) :=
    (path.splitOnP isSlash).filter fun c => c ≠ []

/-- The text from its first byte on that is not a slash. -/
def skipSlashes (path : List Byte) : List Byte := path.dropWhile isSlash

/-- What stands before the first slash. -/
def firstComponent (path : List Byte) : List Byte := path.takeWhile fun b => !isSlash b

/-- What is left behind the first component and the slashes after it. -/
def afterComponent (path : List Byte) : List Byte :=
  skipSlashes (path.dropWhile fun b => !isSlash b)

/-- The index of the last slash, 0 if there is none. -/
def lastSlash (path : List Byte) : Nat :=
  (List.range path.length).foldl (fun last i => if isSlash (path.getD i 0) then i else last) 0

variable {path parent leaf : List Byte} {b : Byte}

@[simp] theorem components_nil : components [] = [] := rfl

theorem components_slash (path parent : List Byte) :
    components (parent ++ slash :: path) = components parent ++ components path := by
  unfold components
  rw [List.splitOnP_append_cons _ _ (by decide), List.filter_append]

theorem components_skipSlashes (path : List Byte) :
    components (skipSlashes path) = components path := by
  induction path with
  | nil => rfl
  | cons b path ih =>
    unfold skipSlashes
    rw [List.dropWhile_cons]
    split
    next hb =>
      have hb : b = slash := by simpa [isSlash] using hb
      have hcons := components_slash path []
      rw [hb, show slash :: path = [] ++ slash :: path from rfl, hcons]
      exact ih
    · rfl

/-- A text without slashes is one component. -/
theorem components_name (hne : leaf ≠ []) (h : ∀ b ∈ leaf, isSlash b = false) :
    components leaf = [leaf] := by
  unfold components
  rw [List.splitOnP_eq_singleton h]
  simp [hne]

/-- One step of a walk along a path. -/
theorem components_cursor (hb : isSlash b = false) :
    components (b :: path) = firstComponent (b :: path) :: components
      (afterComponent (b :: path)) := by
  have hname : ∀ c ∈ firstComponent (b :: path), isSlash c = false := by
    intro c hc
    simpa using List.mem_takeWhile_imp hc
  have hne : firstComponent (b :: path) ≠ [] := by
    unfold firstComponent
    rw [List.takeWhile_cons, if_pos (by simp [hb])]
    exact List.cons_ne_nil _ _
  have hsplit : firstComponent (b :: path) ++ (b :: path).dropWhile (fun c => !isSlash c)
      = b :: path :=
    List.takeWhile_append_dropWhile
  have hstop := List.head?_dropWhile_not (fun c => !isSlash c) (b :: path)
  unfold afterComponent
  rw [components_skipSlashes]
  generalize firstComponent (b :: path) = name at hname hne hsplit ⊢
  generalize (b :: path).dropWhile (fun c => !isSlash c) = rest at hsplit hstop ⊢
  rw [← hsplit]
  cases rest with
  | nil => rw [List.append_nil, components_name hne hname, components_nil]
  | cons c rest =>
    -- the name ends at a slash
    have hc : c = slash := by simpa [isSlash] using hstop
    have hskip := components_slash rest []
    rw [hc, components_slash, components_name hne hname]
    rw [List.nil_append, components_nil, List.nil_append] at hskip
    rw [hskip]
    rfl

theorem skipSlashes_length (path : List Byte) : (skipSlashes path).length ≤ path.length := by
  unfold skipSlashes
  exact (List.dropWhile_sublist _).length_le

/-- A walk along a path comes to its end. -/
theorem afterComponent_length (b : Byte) (path : List Byte) :
    (afterComponent (b :: path)).length < (b :: path).length := by
  unfold afterComponent
  rw [List.dropWhile_cons]
  split
  · refine Nat.lt_succ_of_le (Nat.le_trans (skipSlashes_length _) ?_)
    exact (List.dropWhile_sublist _).length_le
  next hb =>
    unfold skipSlashes
    rw [List.dropWhile_cons, if_pos (by simpa using hb)]
    exact Nat.lt_succ_of_le (List.dropWhile_sublist _).length_le

theorem length_entry (parent leaf : List Byte) :
    (parent ++ slash :: leaf).length = parent.length + 1 + leaf.length := by
  rw [List.length_append, List.length_cons]
  omega

/-- Behind the last slash stands the name. -/
theorem lastSlash_entry (h : ∀ b ∈ leaf, isSlash b = false) :
    lastSlash (parent ++ slash :: leaf) = parent.length := by
  have hlen := length_entry parent leaf
  -- no byte of the name moves the index
  have hstay : ∀ (is : List Nat) (last : Nat), (∀ i ∈ is, i < leaf.length) →
      (is.map fun i => parent.length + 1 + i).foldl
        (fun last i => if isSlash ((parent ++ slash :: leaf).getD i 0) then i else last)
          last = last := by
    intro is
    induction is with
    | nil => exact fun _ _ => rfl
    | cons i is ih =>
      intro last his
      have hi := his i (List.mem_cons_self ..)
      have hget : (parent ++ slash :: leaf).getD (parent.length + 1 + i) 0 = leaf.getD i 0 := by
        rw [List.getD_append_right _ _ _ _ (by omega),
          show parent.length + 1 + i - parent.length = i + 1 by omega]
        rfl
      have hmem : leaf.getD i 0 ∈ leaf := by
        rw [List.getD_eq_getElem _ _ hi]
        exact List.getElem_mem hi
      rw [List.map_cons, List.foldl_cons, hget, if_neg (by rw [h _ hmem]; simp)]
      exact ih last fun j hj => his j (List.mem_cons_of_mem _ hj)
  unfold lastSlash
  rw [hlen, List.range_add, List.range_succ, List.foldl_append, List.foldl_append,
    hstay _ _ (by simp),
    List.foldl_cons, List.foldl_nil, List.getD_append_right _ _ _ _ (Nat.le_refl _), Nat.sub_self,
    if_pos (show isSlash ((slash :: leaf).getD 0 0) = true from rfl)]

/-- An absolute path that does not end in a slash is a directory and a name in it. -/
theorem exists_entry (habs : path.head? = some slash) (hend : path.getLast? ≠ some slash) :
    ∃ parent leaf, path = parent ++ slash :: leaf ∧ (parent = [] ∨ parent.head? = some slash) ∧
      leaf ≠ [] ∧ ∀ b ∈ leaf, isSlash b = false := by
  have hmem : slash ∈ path.reverse := List.mem_reverse.mpr (List.mem_of_mem_head? habs)
  -- the last slash is the first one from behind
  obtain ⟨leaf, parent, hpath, hfree⟩ := List.eq_append_cons_of_mem hmem
  have hpath : path = parent.reverse ++ slash :: leaf.reverse := by
    rw [← List.reverse_reverse path, hpath]
    simp
  refine ⟨parent.reverse, leaf.reverse, hpath, ?_, ?_, ?_⟩
  · rw [hpath] at habs
    cases hp : parent.reverse with
    | nil => exact Or.inl rfl
    | cons b rest =>
      rw [hp] at habs
      exact Or.inr habs
  · intro hnil
    rw [hpath, hnil] at hend
    exact hend List.getLast?_concat
  · intro b hb
    have hne : b ≠ slash := by
      rintro rfl
      exact hfree (List.mem_reverse.mp hb)
    simpa [isSlash] using hne

/-! ## Lexical resolution

The pieces between the slashes are folded over a stack of names: empty pieces and `.` are
skipped and `..` removes the last name. `absolute` writes a stack as a path again. -/

def dot : List Byte := [0x2E]

def dotDot : List Byte := [0x2E, 0x2E]

/-- The text between the slashes, empty pieces included. -/
def pieces (path : List Byte) : List (List Byte) := path.splitOnP isSlash

/-- A piece that stands for itself. -/
structure Names (piece : List Byte) : Prop where
  ne_nil : piece ≠ []
  ne_dot : piece ≠ dot
  ne_dotDot : piece ≠ dotDot

def resolveStep (stack : List (List Byte)) (piece : List Byte) : List (List Byte) :=
  if piece = [] ∨ piece = dot then stack
  else if piece = dotDot then stack.dropLast
  else stack ++ [piece]

def resolve (stack names : List (List Byte)) : List (List Byte) := names.foldl resolveStep stack

/-- A slash, and the names joined by slashes. -/
def absolute (stack : List (List Byte)) : List Byte := slash :: [slash].intercalate stack

theorem resolveStep_name {stack : List (List Byte)} {piece : List Byte} (h : Names piece) :
    resolveStep stack piece = stack ++ [piece] := by
  unfold resolveStep
  rw [if_neg (by simp [h.ne_nil, h.ne_dot]), if_neg h.ne_dotDot]

theorem absolute_cons (c d : List Byte) (stack : List (List Byte)) :
    absolute (c :: d :: stack) = slash :: c ++ absolute (d :: stack) := by
  unfold absolute
  rw [List.intercalate_cons_cons]
  simp

/-- Behind its first slash an absolute path is made of the names of its stack. -/
theorem pieces_absolute {stack : List (List Byte)} (hne : stack ≠ [])
    (h : ∀ c ∈ stack, ∀ b ∈ c, isSlash b = false) : pieces ((absolute stack).drop 1) = stack := by
  induction stack with
  | nil => exact absurd rfl hne
  | cons c stack ih =>
    have hc := h c (List.mem_cons_self ..)
    cases stack with
    | nil =>
      show ([slash].intercalate [c]).splitOnP isSlash = [c]
      rw [List.intercalate_singleton, List.splitOnP_eq_singleton hc]
    | cons d stack =>
      have hrest := ih (List.cons_ne_nil _ _) fun e he => h e (List.mem_cons_of_mem _ he)
      show ([slash].intercalate (c :: d :: stack)).splitOnP isSlash = _
      rw [List.intercalate_cons_cons, List.append_assoc, List.singleton_append,
        List.splitOnP_append_cons _ _ (by decide), List.splitOnP_eq_singleton hc]
      exact congrArg (c :: ·) hrest

/-- Only the root ends in a slash. -/
theorem absolute_getLast {stack : List (List Byte)} (hne : stack ≠ [])
    (hnames : ∀ c ∈ stack, c ≠ []) (h : ∀ c ∈ stack, ∀ b ∈ c, isSlash b = false) :
    (absolute stack).getLast? ≠ some slash := by
  induction stack with
  | nil => exact absurd rfl hne
  | cons c stack ih =>
    have hc : c ∈ c :: stack := List.mem_cons_self ..
    cases stack with
    | nil =>
      have hend := List.getLast_mem (hnames c hc)
      unfold absolute
      rw [List.intercalate_singleton, List.getLast?_cons_of_ne_nil (hnames c hc),
        List.getLast?_eq_some_getLast (hnames c hc)]
      intro heq
      rw [Option.some.inj heq] at hend
      exact absurd (h c hc slash hend) (by decide)
    | cons d stack =>
      have hmore : absolute (d :: stack) ≠ [] := List.cons_ne_nil _ _
      rw [absolute_cons, List.getLast?_append_of_ne_nil _ hmore]
      exact ih (List.cons_ne_nil _ _) (fun e he => hnames e (List.mem_cons_of_mem _ he))
        fun e he => h e (List.mem_cons_of_mem _ he)

/-- The pieces of a path are free of slashes. -/
theorem mem_pieces {piece : List Byte} (h : piece ∈ pieces path) :
    ∀ b ∈ piece, isSlash b = false := by
  unfold pieces at h
  induction path generalizing piece with
  | nil =>
    rw [List.splitOnP_nil, List.mem_singleton] at h
    rw [h]
    exact fun b hb => absurd hb List.not_mem_nil
  | cons c path ih =>
    rw [List.splitOnP_cons_eq_if_modifyHead] at h
    split at h
    · rcases List.mem_cons.mp h with rfl | h
      · exact fun b hb => absurd hb List.not_mem_nil
      · exact ih h
    next hc =>
    cases hsplit : path.splitOnP isSlash with
    | nil => exact absurd hsplit (List.splitOnP_ne_nil _ _)
    | cons p ps =>
      rw [hsplit, List.modifyHead_cons] at h
      rcases List.mem_cons.mp h with rfl | h
      · intro b hb
        rcases List.mem_cons.mp hb with rfl | hb
        · simpa using hc
        · exact ih (by rw [hsplit]; exact List.mem_cons_self ..) b hb
      · exact ih (by rw [hsplit]; exact List.mem_cons_of_mem _ h)

end Riverix.Lib
