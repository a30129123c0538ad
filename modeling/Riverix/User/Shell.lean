import Riverix.Lib.Text

/-!
# The parser of the shell (`sh.c`)

A line is parsed in the buffer it was read into. `split_pipeline` cuts it at the bars and
trims the stages, `tokenize_stage` cuts each stage into words; both store zero bytes, and
what they return are addresses. The words are read when the programs are started, that is,
after all of the line has been cut up (`parseLine`).

The loops that walk a cursor over the text are `skipWhile`, which gives up at the size of
the buffer; so does the loop over the words. With a text in the buffer neither comes to
that.
-/

namespace Riverix.User

open Riverix.Lib

/-- `SH_LINE_MAX`, `SH_MAX_ARGS` and `SH_MAX_STAGES` -/
abbrev lineMax : Nat := 128
abbrev maxArgs : Nat := 8
abbrev maxStages : Nat := 4

/-- `'|'`, `'>'` and `'#'` -/
def bar : Byte := 0x7C
def angle : Byte := 0x3E
def hash : Byte := 0x23

/-- `is_space` -/
def isSpace (ch : Byte) : Bool := ch == 0x20 || ch == 0x09 || ch == 0x0D || ch == 0x0A

/-- A byte of a path to redirect to, and of a word. -/
def isPathByte (ch : Byte) : Bool := !isSpace ch
def isWordByte (ch : Byte) : Bool := !isSpace ch && ch != angle

/-- `'\r'` and `'\n'` -/
def isLineEnd (ch : Byte) : Bool := ch == 0x0D || ch == 0x0A

/-- `*cursor = '\0'` -/
def terminate (line : Store) (cursor : Nat) : Store := Function.update line cursor 0

/-- `strip_line_end` -/
def stripLineEnd (line : Store) : Store :=
  let index := line.skipWhile (fun ch => ch != 0 && !isLineEnd ch) lineMax 0
  if line index ≠ 0 then terminate line index else line

/-- `trim_spaces`: the buffer and the new start. -/
def trimSpaces (line : Store) (start : Nat) : Store × Nat :=
  let cursor := line.skipWhile isSpace lineMax start
  let stop := line.skipWhile (fun ch => ch != 0) lineMax cursor
  (terminate line (line.skipBack isSpace cursor stop), cursor)

/-- A stage that was cut off the line, and where the rest starts. -/
structure Cut where
  line : Store
  stage : Nat
  next : Nat

/-- One turn of `split_pipeline`: the stage ends at the bar and is trimmed. -/
def cutStage (line : Store) (cursor : Nat) : Cut :=
  let stop := line.skipWhile (fun ch => ch != 0 && ch != bar) lineMax cursor
  let rest := if line stop = bar then (terminate line stop, stop + 1) else (line, stop)
  let trimmed := trimSpaces rest.1 cursor
  ⟨trimmed.1, trimmed.2, rest.2⟩

/-- `split_pipeline`; `room` is how many stages may still come. -/
def splitPipeline (line : Store) (cursor room : Nat) : Option (Store × List Nat) :=
  if line cursor = 0 then some (line, [])
  else
    let cut := cutStage line cursor
    if cut.line cut.stage = 0 then none
    else if cut.line cut.stage = hash then some (cut.line, [])
    else
      match room with
      | 0 => none
      | room + 1 =>
        match splitPipeline cut.line cut.next room with
        | none => none
        | some (line, stages) => some (line, cut.stage :: stages)

/-- A stage that was cut up: the addresses of the words, and of the path to redirect to. -/
structure Words where
  line : Store
  argv : List Nat
  redirect : Option Nat

/-- `if (*cursor != '\0') *cursor++ = '\0'` -/
def endToken (line : Store) (cursor : Nat) : Store × Nat :=
  if line cursor ≠ 0 then (terminate line cursor, cursor + 1) else (line, cursor)

/-- The loop of `tokenize_stage`. -/
def tokenizeFrom : Nat → Store → Nat → List Nat → Option Nat → Option Words
  | 0, _, _, _, _ => none
  | turns + 1, line, cursor, argv, redirect =>
    if line cursor = 0 then some ⟨line, argv, redirect⟩
    else
      let cursor := line.skipWhile isSpace lineMax cursor
      if line cursor = 0 ∨ line cursor = hash then some ⟨line, argv, redirect⟩
      else if line cursor = angle then
        let path := line.skipWhile isSpace lineMax (cursor + 1)
        if line path = 0 then none
        else
          let stop := line.skipWhile (fun ch => ch != 0 && isPathByte ch) lineMax path
          tokenizeFrom turns (endToken line stop).1 (endToken line stop).2 argv (some path)
      else if argv.length + 1 ≥ maxArgs then none
      else
        let stop := line.skipWhile (fun ch => ch != 0 && isWordByte ch) lineMax cursor
        -- the next turn starts at the zero byte that has just been stored
        if line stop = angle then tokenizeFrom turns (terminate line stop) stop
          (argv ++ [cursor]) redirect
        else tokenizeFrom turns (endToken line stop).1 (endToken line stop).2
          (argv ++ [cursor]) redirect

/-- `tokenize_stage` -/
def tokenizeStage (line : Store) (stage : Nat) :
    Option Words := tokenizeFrom lineMax line stage [] none

/-- A line that was cut up: the words of its stages, and the path to redirect to. -/
structure Command where
  line : Store
  argvs : List (List Nat)
  redirect : Option Nat

/-- The loop of `run_shell` over the stages, which reports a failure or goes on with the
next line. -/
def tokenizeStages (line : Store) : List Nat → Option Command
  | [] => some ⟨line, [], none⟩
  | stage :: stages =>
    match tokenizeStage line stage with
    | none => none
    | some words =>
      if words.argv.length = 0 then none
      else if stages ≠ [] ∧ words.redirect ≠ none then none
      else
        match tokenizeStages words.line stages with
        | none => none
        | some command => some ⟨command.line, words.argv :: command.argvs,
            if stages = [] then words.redirect else command.redirect⟩

/-- What the shell is about to run: the words of each stage, and where the output of the
last one goes. -/
structure Pipeline where
  argvs : List (List (List Byte))
  redirect : Option (List Byte)
  deriving DecidableEq, Repr

/-- What the pointers point to. -/
def Command.pipeline (command : Command) : Pipeline where
  argvs := command.argvs.map fun argv => argv.map (command.line.textAt lineMax)
  redirect := command.redirect.map (command.line.textAt lineMax)

/-- `run_shell`, from the line that was read to what is run; nothing if a failure was
reported. -/
def parseLine (line : Store) : Option Pipeline :=
  match splitPipeline (stripLineEnd line) 0 maxStages with
  | none => none
  | some (line, stages) => (tokenizeStages line stages).map Command.pipeline

/-- The buffer with a line in it. -/
def bufferOf (text : List Byte) : Store := fun k => text.getD k 0

-- `echo hi > f` and `a|b`
example :
    parseLine (bufferOf [0x65, 0x63, 0x68, 0x6F, 0x20, 0x68, 0x69, 0x20, 0x3E, 0x20, 0x66, 0x0A])
    = some ⟨[[[0x65, 0x63, 0x68, 0x6F], [0x68, 0x69]]], some [0x66]⟩ := by decide +kernel

example : parseLine (bufferOf [0x61, 0x7C, 0x62, 0x0A]) = some ⟨[[[0x61]], [[0x62]]], none⟩ := by
  decide +kernel

end Riverix.User
