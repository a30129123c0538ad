import Riverix.User.Reading

/-!
# The path of a command (`sh.c`, `libc/stdio.c`, `libc/string.c`)

A line of at most 127 characters is read (`readlineFd`) and cut up; the first word of each
stage names the program. `resolve_command_path` copies it into a buffer of 128 bytes, behind
`/bin/` if there is no slash in it, and does not look at the buffer's size.

A word is part of the line (`readLine_words`), so it has at most 127 bytes and fits with its
terminator, but not behind five more: **`commandPath_safe_iff`**.
-/

namespace Riverix.User

open Riverix.Lib Store

/-! ## Reading a line -/

/-- The loop of `readline_fd`, with `room` bytes left before the last. `input` is what the reads
return: a character, or a failure; at the end of the file there is nothing more. -/
def readlineFrom : Nat → Store → Nat → List (Option Byte) → Option (Store × Nat)
  | 0, buffer, count, _ => some (buffer, count)
  | _ + 1, buffer, count, [] => some (buffer, count)
  | _ + 1, _, _, none :: _ => none
  | room + 1, buffer, count, some ch :: input =>
    if ch = 0x0A then some (Function.update buffer count ch, count + 1)
    else readlineFrom room (Function.update buffer count ch) (count + 1) input

/-- `readline_fd`: the buffer and the number of characters, or a failure. -/
def readlineFd (buffer : Store) (capacity : Nat) (input : List (Option Byte)) :
    Option (Store × Nat) :=
  if capacity = 0 then none
  else (readlineFrom (capacity - 1) buffer 0 input).map fun r => (terminate r.1 r.2, r.2)

variable {buffer line : Store} {text command : List Byte}

/-- The loop appends characters, at most `room` of them. -/
theorem readlineFrom_reads (room : Nat) {count n : Nat} (input : List (Option Byte))
    (h : readlineFrom room buffer count input = some (line, n)) :
    ∃ text : List Byte, text.length ≤ room ∧ n = count + text.length ∧
      line = buffer.write count text := by
  induction room generalizing buffer count input with
  | zero =>
    cases h
    exact ⟨[], le_refl _, rfl, (write_nil _ _).symm⟩
  | succ room ih =>
    match input with
    | [] =>
      cases h
      exact ⟨[], Nat.zero_le _, rfl, (write_nil _ _).symm⟩
    | none :: _ => cases h
    | some ch :: input =>
      unfold readlineFrom at h
      split at h
      · cases h
        exact ⟨[ch], Nat.succ_le_succ (Nat.zero_le _), rfl, (write_singleton ..).symm⟩
      · obtain ⟨text, hlen, hn, hline⟩ := ih input h
        refine ⟨ch :: text, Nat.succ_le_succ hlen, by rw [List.length_cons]; omega, ?_⟩
        rw [hline, write_cons]

/-- What is read is a text of fewer bytes than the buffer has. -/
theorem readlineFd_holds {capacity n : Nat} {input : List (Option Byte)}
    (h : readlineFd buffer capacity input = some (line, n)) :
    ∃ text : List Byte, text.length < capacity ∧ line.Holds 0 text := by
  unfold readlineFd at h
  split at h
  · cases h
  next hcap =>
  obtain ⟨⟨read, count⟩, hloop, heq⟩ := Option.map_eq_some_iff.mp h
  obtain ⟨bytes, hlen, rfl, rfl⟩ := readlineFrom_reads _ input hloop
  cases heq
  refine ⟨bytes.takeWhile (· != 0), ?_, ?_⟩
  · have hle := (List.takeWhile_sublist (l := bytes) (· != 0)).length_le
    omega
  · have hhold := holds_write buffer 0 bytes
    rw [write_append, write_singleton] at hhold
    exact hhold

/-! ## Words are parts of the line -/

theorem tokenizeText_words (turns : Nat) {argc : Nat} {words : List (List Byte)}
    {redirect : Option (List Byte)} (h : tokenizeText turns argc text = some (words, redirect)) :
    ∀ word ∈ words, word.Sublist text := by
  induction turns generalizing argc text words redirect with
  | zero => cases h
  | succ turns ih =>
    unfold tokenizeText at h
    have hskip := List.dropWhile_sublist (l := text) isSpace
    split at h
    · cases h
      exact fun word hw => absurd hw List.not_mem_nil
    next b rest hdrop =>
    rw [hdrop] at hskip
    split at h
    · cases h
      exact fun word hw => absurd hw List.not_mem_nil
    split at h
    · split at h
      · cases h
      next c path hpath =>
      obtain ⟨later, hlater, heq⟩ := Option.map_eq_some_iff.mp h
      cases heq
      have hrest := List.dropWhile_sublist (l := rest) isSpace
      rw [hpath] at hrest
      intro word hw
      exact ((ih hlater word hw).trans ((List.tail_sublist _).trans
        (List.dropWhile_sublist isPathByte))).trans
          (hrest.trans ((List.sublist_cons_self b rest).trans hskip))
    split at h
    · cases h
    obtain ⟨later, hlater, heq⟩ := Option.map_eq_some_iff.mp h
    cases heq
    intro word hw
    rcases List.mem_cons.mp hw with rfl | hw
    · exact (List.takeWhile_sublist isWordByte).trans hskip
    · exact ((ih hlater word hw).trans (afterWord_sublist _)).trans hskip

theorem trimmed_sublist (text : List Byte) : (trimmed text).Sublist text := by
  have hback := (List.dropWhile_sublist (l := (text.dropWhile isSpace).reverse) isSpace).reverse
  rw [List.reverse_reverse] at hback
  exact hback.trans (List.dropWhile_sublist isSpace)

theorem splitText_stages (room : Nat) {stages : List (List Byte)}
    (h : splitText text room = some stages) : ∀ stage ∈ stages, stage.Sublist text := by
  induction room generalizing text stages with
  | zero =>
    unfold splitText at h
    split at h
    · cases h
      exact List.forall_mem_nil _
    split at h
    · cases h
    split at h
    · cases h
      exact List.forall_mem_nil _
    · cases h
  | succ room ih =>
    unfold splitText at h
    split at h
    · cases h
      exact List.forall_mem_nil _
    split at h
    · cases h
    next b stage₁ htrim =>
    split at h
    · cases h
      exact List.forall_mem_nil _
    obtain ⟨later, hlater, rfl⟩ := Option.map_eq_some_iff.mp h
    intro stage hs
    rcases List.mem_cons.mp hs with rfl | hs
    · rw [← htrim]
      exact (trimmed_sublist _).trans (List.takeWhile_sublist _)
    · exact (ih hlater stage hs).trans ((List.tail_sublist _).trans (List.dropWhile_sublist _))

theorem readStages_words (stages : List (List Byte)) {p : Pipeline} (h : readStages stages = some p)
    (hstages : ∀ stage ∈ stages, stage.Sublist text) :
    ∀ argv ∈ p.argvs, ∀ word ∈ argv, word.Sublist text := by
  induction stages generalizing p with
  | nil =>
    cases h
    exact fun argv ha => absurd ha List.not_mem_nil
  | cons stage stages ih =>
    unfold readStages at h
    split at h
    · cases h
    next words redirect htokens =>
    split at h
    · cases h
    split at h
    · cases h
    obtain ⟨later, hlater, rfl⟩ := Option.map_eq_some_iff.mp h
    intro argv ha word hw
    rcases List.mem_cons.mp ha with rfl | ha
    · exact (tokenizeText_words _ htokens word hw).trans
        (hstages stage (List.mem_cons_self ..))
    · exact ih hlater (fun s hs => hstages s (List.mem_cons_of_mem _ hs)) argv ha word hw

/-- The words that the shell reads are taken out of the line. -/
theorem readLine_words {p : Pipeline} (h : readLine text = some p) :
    ∀ argv ∈ p.argvs, ∀ word ∈ argv, word.Sublist text := by
  unfold readLine at h
  split at h
  · cases h
  next stages hsplit =>
    exact readStages_words stages h fun stage hs =>
      (splitText_stages _ hsplit stage hs).trans (List.takeWhile_sublist _)

/-! ## The path -/

/-- `SH_PATH_MAX` -/
abbrev pathMax : Nat := 128

/-- `strcpy` of a text. -/
def strcpy (m : Store) (destination : Nat) : List Byte → Store
  | [] => terminate m destination
  | b :: source => strcpy (Function.update m destination b) (destination + 1) source

/-- `contains_slash` -/
def containsSlash (text : List Byte) : Bool := text.any (· == 0x2F)

/-- `"/bin/"` -/
def binDir : List Byte := [0x2F, 0x62, 0x69, 0x6E, 0x2F]

/-- `resolve_command_path`; the capacity is ignored. -/
def resolveCommandPath (m : Store) (buffer : Nat) (command : List Byte) : Store :=
  if containsSlash command then strcpy m buffer command
  else strcpy (strcpy m buffer binDir) (buffer + 5) command

/-- The path that is to be run. -/
def commandPath (command : List Byte) : List Byte :=
  if containsSlash command then command else binDir ++ command

theorem strcpy_eq (m : Store) (destination : Nat) (source : List Byte) :
    strcpy m destination source = m.write destination (source ++ [0]) := by
  induction source generalizing m destination with
  | nil => exact (write_singleton ..).symm
  | cons b source ih => rw [strcpy, ih, List.cons_append, write_cons]

/-- In one piece: the path with its terminator is stored, and nothing else. -/
theorem resolveCommandPath_eq (m : Store) (buffer : Nat) (command : List Byte) :
    resolveCommandPath m buffer command = m.write buffer (commandPath command ++ [0]) := by
  unfold resolveCommandPath commandPath
  split
  · exact strcpy_eq ..
  -- the second copy starts at the terminator of the first
  rw [strcpy_eq, strcpy_eq, List.append_assoc, write_append m buffer binDir [0],
    write_append m buffer binDir (command ++ [0])]
  refine write_over _ _ ?_
  rw [List.length_append]
  exact Nat.le_add_left _ _

theorem commandPath_nonzero (h : ∀ b ∈ command, b ≠ 0) : ∀ b ∈ commandPath command, b ≠ 0 := by
  unfold commandPath
  split
  · exact h
  · have hdir : ∀ b ∈ binDir, b ≠ 0 := by decide
    intro b hb
    exact (List.mem_append.mp hb).elim (hdir b) (h b)

theorem resolveCommandPath_holds (m : Store) (buffer : Nat) (h : ∀ b ∈ command, b ≠ 0) :
    (resolveCommandPath m buffer command).Holds buffer (commandPath command) := by
  have hhold := holds_write m buffer (commandPath command)
  rw [List.takeWhile_eq_self_iff.mpr fun b hb => bne_iff_ne.mpr
    (commandPath_nonzero h b hb)] at hhold
  rw [resolveCommandPath_eq]
  exact hhold

/-- Only bytes of the buffer change, whatever is around it. -/
def StaysInBuffer (command : List Byte) : Prop :=
  ∀ (m : Store) (buffer x : Nat), x < buffer ∨ buffer + pathMax ≤ x →
    resolveCommandPath m buffer command x = m x

theorem staysInBuffer_iff (command : List Byte) :
    StaysInBuffer command ↔ (commandPath command).length < pathMax := by
  have hlen : (commandPath command ++ [0]).length = (commandPath command).length + 1 := by
    rw [List.length_append, List.length_singleton]
  constructor
  · intro h
    by_contra hlong
    -- the byte stored behind the buffer differs from what some memory holds there
    have hstored : ∀ m : Store, m (0 + pathMax) = (commandPath command ++ [0]).getD pathMax 0 := by
      intro m
      have hsame := h m 0 (0 + pathMax) (Or.inr (le_refl _))
      rw [resolveCommandPath_eq, write_inside (by omega)] at hsame
      exact hsame.symm
    have hone := (hstored fun _ => 0).trans (hstored fun _ => 1).symm
    exact absurd hone (by decide)
  · intro hshort m buffer x hx
    rw [resolveCommandPath_eq, write_outside (by omega)]

/-- **When the path of a command is safe.** Of a line that was read, for every stage: the path is
the command itself or `/bin/` and the command, and it stays inside its 128 bytes exactly if the
command has a slash in it or at most 122 bytes. -/
theorem commandPath_safe_iff (buffer : Store) (input : List (Option Byte)) (line : Store) (n : Nat)
    (p : Pipeline) (argv : List (List Byte)) (command : List Byte)
    (hread : readlineFd buffer lineMax input = some (line, n)) (hparse : parseLine line = some p)
    (hargv : argv ∈ p.argvs) (hcommand : argv.head? = some command) :
    ((StaysInBuffer command ∧ ∀ m buffer, (resolveCommandPath m buffer command).Holds buffer
          (if containsSlash command then command else binDir ++ command))
      ↔ containsSlash command ∨ command.length ≤ 122) := by
  obtain ⟨text, hlen, hholds⟩ := readlineFd_holds hread
  rw [parseLine_readLine hholds (Nat.le_of_lt hlen)] at hparse
  have hpart := readLine_words hparse argv hargv command (List.mem_of_mem_head? hcommand)
  have hnonzero : ∀ b ∈ command, b ≠ 0 := fun b hb => hholds.nonzero b (hpart.subset hb)
  have hshort : command.length < lineMax := lt_of_le_of_lt hpart.length_le hlen
  have hpath : (commandPath command).length
      = if containsSlash command then command.length else 5 + command.length := by
    unfold commandPath
    split
    · rfl
    · rw [List.length_append]
      rfl
  have hfits : (commandPath command).length < pathMax
      ↔ containsSlash command ∨ command.length ≤ 122 := by
    rw [hpath]
    by_cases hslash : containsSlash command = true
    · rw [if_pos hslash]
      exact ⟨fun _ => Or.inl hslash, fun _ => hshort⟩
    · rw [if_neg hslash, or_iff_right hslash, show pathMax = 128 from rfl]
      omega
  rw [← hfits, ← staysInBuffer_iff]
  exact and_iff_left fun m buffer => resolveCommandPath_holds m buffer hnonzero

/-- `ls` and a line end. -/
theorem commandPath_safe_ls :
    StaysInBuffer [0x6C, 0x73] ∧ ∀ m buffer, (resolveCommandPath m buffer [0x6C, 0x73]).Holds buffer
      [0x2F, 0x62, 0x69, 0x6E, 0x2F, 0x6C, 0x73] :=
  (commandPath_safe_iff (fun _ => 0) [some 0x6C, some 0x73, some 0x0A]
    (terminate (Function.update (Function.update (Function.update (fun _ => 0) 0 0x6C) 1 0x73) 2
      0x0A) 3)
    3 ⟨[[[0x6C, 0x73]]], none⟩ [[0x6C, 0x73]] [0x6C, 0x73] rfl (by decide +kernel)
    (List.mem_singleton_self _) rfl).mpr (Or.inr (by decide))

/-- A command of 123 characters: the terminator of its path is stored behind the buffer. -/
theorem long_command_overruns :
    (readlineFd (fun _ => 0) lineMax (List.replicate 123 (some 0x61))).bind (fun r => parseLine r.1)
        = some ⟨[[List.replicate 123 0x61]], none⟩
      ∧ resolveCommandPath (fun _ => 1) 0 (List.replicate 123 0x61) pathMax = 0 := by
  decide +kernel

end Riverix.User
