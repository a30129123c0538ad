import Mathlib.Data.List.Forall2
import Riverix.User.Shell

/-!
# What the shell reads

The two passes over the buffer, as functions on texts. A zero byte that was stored is the
end of a text here, and an address in the buffer is the text at it; what was cut out of the
line stays what it is because later stores are outside of it. **`parseLine_readLine`**: with
a line in the buffer, `parseLine` returns what `readLine` says of its text.

The proof goes down the passes in the order of the code. `strip_line_end` and `trim_spaces`
leave a shorter text at an address of the buffer (`Holds`); each says which bytes it stores
and that it keeps all others. `split_pipeline` leaves the stages one behind the other, each
with its zero byte (`Laid`); cutting one stage off is a step lemma, and the line is an
induction on the room for stages. `tokenize_stage` turns one text into words inside of it
(`Inside`); `Ended` is one word cut off, by white space or by the `>` behind it, and
`Tokenized` is what the turns from there on come to. Last, the stages are tokenized from the
left, and a later one stores nothing in an earlier one, so all words are still there when
the programs are started.

Nothing here says that this is what a user means: `readLine` keeps the faults of the code,
such as the text that is lost behind a `>` at the end of a word (`afterWord`).
-/

namespace Riverix.User

open Riverix.Lib Store

/-! ## On texts -/

/-- The text without white space around it. -/
def trimmed (text : List Byte) : List Byte := (text.dropWhile isSpace).rdropWhile isSpace

/-- The first stage, up to the bar, and what is behind the bar. -/
def firstStage (text : List Byte) : List Byte := text.takeWhile (· != bar)
def laterStages (text : List Byte) : List Byte := (text.dropWhile (· != bar)).tail

/-- `split_pipeline` -/
def splitText (text : List Byte) (room : Nat) : Option (List (List Byte)) :=
  if text = [] then some []
  else
    match trimmed (firstStage text) with
    | [] => none
    | b :: stage =>
      if b = hash then some []
      else
        match room with
        | 0 => none
        | room + 1 => (splitText (laterStages text) room).map ((b :: stage) :: ·)

/-- What is left behind a word: nothing, if it ends at the angle. -/
def afterWord (text : List Byte) : List Byte :=
  match text.dropWhile isWordByte with
  | [] => []
  | c :: later => if c = angle then [] else later

theorem afterWord_sublist (text : List Byte) : (afterWord text).Sublist text := by
  have hdrop : (text.dropWhile isWordByte).Sublist text := List.dropWhile_sublist isWordByte
  unfold afterWord
  split
  · exact List.nil_sublist _
  next c later heq =>
  rw [heq] at hdrop
  split
  · exact List.nil_sublist _
  · exact (List.sublist_cons_self c later).trans hdrop

/-- `tokenize_stage`, with `argc` words found before: the words and the last path. -/
def tokenizeText : Nat → Nat → List Byte → Option (List (List Byte) × Option (List Byte))
  | 0, _, _ => none
  | turns + 1, argc, text =>
    match text.dropWhile isSpace with
    | [] => some ([], none)
    | b :: rest =>
      if b = hash then some ([], none)
      else if b = angle then
        match rest.dropWhile isSpace with
        | [] => none
        | c :: path =>
          (tokenizeText turns argc ((c :: path).dropWhile isPathByte).tail).map fun later =>
            (later.1, later.2.or (some ((c :: path).takeWhile isPathByte)))
      else if argc + 1 ≥ maxArgs then none
      else
        (tokenizeText turns (argc + 1) (afterWord (b :: rest))).map fun later =>
          ((b :: rest).takeWhile isWordByte :: later.1, later.2)

/-- The loop of `run_shell` over the stages. -/
def readStages : List (List Byte) → Option Pipeline
  | [] => some ⟨[], none⟩
  | stage :: stages =>
    match tokenizeText lineMax 0 stage with
    | none => none
    | some (words, redirect) =>
      if words = [] then none
      else if stages ≠ [] ∧ redirect ≠ none then none
      else (readStages stages).map fun later =>
        ⟨words :: later.argvs, if stages = [] then redirect else later.redirect⟩

/-- The line, without what follows the first line end. -/
def lineText (text : List Byte) : List Byte := text.takeWhile fun ch => !isLineEnd ch

/-- **What the shell makes of a line.** -/
def readLine (text : List Byte) : Option Pipeline :=
  match splitText (lineText text) maxStages with
  | none => none
  | some stages => readStages stages

/-! ## Cutting the line -/

variable {line line' : Store} {text : List Byte} {cursor room : Nat}

/-- The buffer holds the text up to its line end. -/
theorem stripLineEnd_holds (h : line.Holds 0 text) (hn : text.length ≤ lineMax) :
    (stripLineEnd line).Holds 0 (lineText text) := by
  obtain ⟨hindex, hrest⟩ := skipText_holds (p := fun ch => !isLineEnd ch) h hn
  unfold stripLineEnd
  dsimp only
  split
  next hend =>
    cases hdrop : text.dropWhile (fun ch => !isLineEnd ch) with
    | nil =>
      rw [hdrop] at hrest
      exact absurd hrest hend
    | cons b rest =>
      rw [hindex, terminate]
      exact (h.cutWhile hdrop).1
  next hend =>
  rw [not_not, holds_zero_iff hrest] at hend
  have hall : lineText text = text := by
    have := List.takeWhile_append_dropWhile (p := fun ch => !isLineEnd ch) (l := text)
    rwa [hend, List.append_nil] at this
  rw [hall]
  exact h

theorem length_takeWhile_add (p : Byte → Bool) (text : List Byte) :
    (text.takeWhile p).length + (text.dropWhile p).length = text.length := by
  rw [← List.length_append, List.takeWhile_append_dropWhile]

/-- Trimming leaves the trimmed text, and stores nothing outside of the old one. -/
theorem trimSpaces_holds {start : Nat} (h : line.Holds start text) (hn : text.length ≤ lineMax) :
    (trimSpaces line start).1.Holds (trimSpaces line start).2 (trimmed text) ∧
      start ≤ (trimSpaces line start).2 ∧
      (trimSpaces line start).2 + (trimmed text).length ≤ start + text.length ∧
      (∀ x, x < start ∨ start + text.length < x → (trimSpaces line start).1 x = line x) ∧
      ∀ x, line x = 0 → (trimSpaces line start).1 x = 0 := by
  obtain ⟨hcursor, hrest⟩ := skipWhile_holds (p := isSpace) h (by decide) hn
  have hsum := length_takeWhile_add isSpace text
  have hstop : line.skipWhile (fun ch => ch != 0) lineMax (line.skipWhile isSpace lineMax start)
      = line.skipWhile isSpace lineMax start + (text.dropWhile isSpace).length := by
    have hwalk :=
      (skipWhile_holds (p := fun ch => ch != 0) (n := lineMax) hrest (by simp) (by omega)).1
    rw [List.takeWhile_eq_self_iff.mpr fun b hb => by simpa using hrest.nonzero b hb] at hwalk
    exact hwalk
  have hback := skipBack_read (p := isSpace) hrest.read
  have hle : (trimmed text).length ≤ (text.dropWhile isSpace).length :=
    (List.rdropWhile_prefix ..).length_le
  unfold trimSpaces
  dsimp only
  rw [hstop, hback]
  generalize line.skipWhile isSpace lineMax start = cursor at hcursor hrest
  have hparts : trimmed text ++ (text.dropWhile isSpace).rtakeWhile isSpace
      = text.dropWhile isSpace :=
    List.rdropWhile_append_rtakeWhile ..
  refine ⟨?_, by omega, by omega, fun x hx => Function.update_of_ne ?_ .., fun x hx => ?_⟩
  · rw [← hparts] at hrest
    exact hrest.shorten
  · show x ≠ cursor + (trimmed text).length
    omega
  · unfold terminate
    rw [Function.update_apply, hx, ite_self]

/-- Texts that lie one behind the other, from `low` on. -/
def Laid (line : Store) : Nat → List Nat → List (List Byte) → Prop
  | _, [], [] => True
  | low, a :: starts, text :: texts =>
    low ≤ a ∧ text.length ≤ lineMax ∧ line.Holds a text ∧
      Laid line (a + text.length + 1) starts texts
  | _, _, _ => False

theorem Laid.mono {low low' : Nat} {starts : List Nat} {texts : List (List Byte)}
    (h : Laid line low starts texts) (hlow : low' ≤ low) : Laid line low' starts texts := by
  cases starts with
  | nil => cases texts <;> exact h
  | cons a starts =>
    cases texts with
    | nil => exact h
    | cons text texts => exact ⟨hlow.trans h.1, h.2⟩

/-- The first stage is cut off and trimmed. -/
theorem cutStage_holds (h : line.Holds cursor text) (hn : text.length ≤ lineMax) :
    (cutStage line cursor).line.Holds (cutStage line cursor).stage (trimmed (firstStage text)) ∧
      (cutStage line cursor).line.Holds (cutStage line cursor).next (laterStages text) ∧
      cursor ≤ (cutStage line cursor).stage ∧
      (laterStages text = [] ∨
        (cutStage line cursor).stage + (trimmed (firstStage text)).length
          < (cutStage line cursor).next) ∧
      ∀ x, x < cursor → (cutStage line cursor).line x = line x := by
  obtain ⟨hstop, hrest⟩ := skipText_holds (p := (· != bar)) h hn
  replace hstop : line.skipWhile (fun ch => ch != 0 && ch != bar) lineMax cursor
      = cursor + (firstStage text).length := hstop
  have hlen : (firstStage text).length ≤ text.length := (List.takeWhile_prefix _).length_le
  -- the buffer with the bar overwritten, and where the rest starts
  obtain ⟨cut, hcut⟩ : ∃ cut, cut = if line (cursor + (firstStage text).length) = bar
      then (terminate line (cursor + (firstStage text).length),
        cursor + (firstStage text).length + 1)
      else (line, cursor + (firstStage text).length) := ⟨_, rfl⟩
  have hheld : cut.1.Holds cursor (firstStage text) ∧ cut.1.Holds cut.2 (laterStages text) ∧
      (laterStages text = [] ∧ cut.2 = cursor + (firstStage text).length ∨
        cut.2 = cursor + (firstStage text).length + 1) ∧
      ∀ x, x < cursor → cut.1 x = line x := by
    replace hrest : line.Holds (cursor + (firstStage text).length) (text.dropWhile (· != bar)) :=
      hstop ▸ hrest
    cases hdrop : text.dropWhile (· != bar) with
    | nil =>
      rw [hdrop] at hrest
      have hzero : line (cursor + (firstStage text).length) = 0 := hrest
      rw [hcut, hzero, if_neg (by decide)]
      have hall : firstStage text = text := by
        have := List.takeWhile_append_dropWhile (p := (· != bar)) (l := text)
        rwa [hdrop, List.append_nil] at this
      have hnone : laterStages text = [] := by
        unfold laterStages
        rw [hdrop]
        rfl
      refine ⟨by rw [hall]; exact h, by rw [hnone]; exact hzero, Or.inl ⟨hnone, rfl⟩,
        fun _ _ => rfl⟩
    | cons b later =>
      rw [hdrop] at hrest
      have hb : b = bar := by
        have hhead := List.head_dropWhile_not (· != bar) (show text.dropWhile (· != bar)
          ≠ [] by rw [hdrop]; simp)
        simpa [hdrop] using hhead
      have hbar : line (cursor + (firstStage text).length) = bar := hb ▸ hrest.2.1
      rw [hcut, hbar, if_pos rfl]
      have hlater : laterStages text = later := by
        unfold laterStages
        rw [hdrop]
        rfl
      obtain ⟨hfirst, hsecond⟩ := h.cutWhile hdrop
      refine ⟨hfirst, by rw [hlater]; exact hsecond, Or.inr rfl,
        fun x hx => Function.update_of_ne ?_ ..⟩
      omega
  obtain ⟨hfirst, hlater, hnext, hbelow⟩ := hheld
  obtain ⟨htrim, hge, hle, hsame, hzero⟩ := trimSpaces_holds hfirst (hlen.trans hn)
  have heq : cutStage line cursor = ⟨(trimSpaces cut.1 cursor).1,
      (trimSpaces cut.1 cursor).2, cut.2⟩ := by
    unfold cutStage
    rw [hstop, hcut]
  rw [heq]
  dsimp only
  refine ⟨htrim, ?_, hge, ?_, fun x hx => (hsame x (Or.inl hx)).trans (hbelow x hx)⟩
  · rcases hnext with ⟨hnone, hend⟩ | hend
    · -- nothing follows: the zero byte at the end is still there
      rw [hnone] at hlater ⊢
      exact hzero _ hlater
    · refine hlater.congr fun x hx _ => hsame x (Or.inr ?_)
      omega
  · rcases hnext with ⟨hnone, -⟩ | hend
    · exact Or.inl hnone
    · right
      omega

/-- Texts that are laid out are not touched by stores below them. -/
theorem Laid.congr {low : Nat} {starts : List Nat} {texts : List (List Byte)}
    (h : Laid line low starts texts) (hx : ∀ x, low ≤ x → line' x = line x) :
    Laid line' low starts texts := by
  induction starts generalizing low texts with
  | nil => cases texts <;> exact h
  | cons a starts ih =>
    cases texts with
    | nil => exact h
    | cons text texts =>
      obtain ⟨hlow, hlen, hheld, hlater⟩ := h
      exact ⟨hlow, hlen, hheld.congr fun x ha _ => hx x (by omega),
        ih hlater fun x ha => hx x (by omega)⟩

theorem trimmed_length (text : List Byte) : (trimmed text).length ≤ text.length :=
  ((List.rdropWhile_prefix ..).length_le).trans (List.dropWhile_sublist isSpace).length_le

theorem firstStage_length (text : List Byte) : (firstStage text).length ≤ text.length :=
  (List.takeWhile_prefix _).length_le

theorem laterStages_length (text : List Byte) : (laterStages text).length ≤ text.length := by
  have hdrop := (List.dropWhile_sublist (· != bar) (l := text)).length_le
  unfold laterStages
  rw [List.length_tail]
  omega

/-- **`split_pipeline`** cuts the line into its stages, or finds the same fault. -/
theorem splitPipeline_splitText (room : Nat) : ∀ {line : Store} {cursor : Nat} {text : List Byte},
    line.Holds cursor text → text.length ≤ lineMax →
    (splitPipeline line cursor room = none ∧ splitText text room = none) ∨
      ∃ line' starts stages, splitPipeline line cursor room = some (line', starts) ∧
        splitText text room = some stages ∧ Laid line' cursor starts stages ∧
        ∀ x, x < cursor → line' x = line x := by
  induction room using Nat.strong_induction_on with
  | h room ih =>
    intro line cursor text h hn
    have hcut := cutStage_holds h hn
    rw [splitPipeline.eq_def, splitText.eq_def]
    by_cases hne : text = []
    · rw [if_pos ((holds_zero_iff h).mpr hne), if_pos hne]
      exact Or.inr ⟨line, [], [], rfl, rfl, trivial, fun _ _ => rfl⟩
    rw [if_neg fun h0 => hne ((holds_zero_iff h).mp h0), if_neg hne]
    generalize cutStage line cursor = cut at hcut
    obtain ⟨line₁, start, next⟩ := cut
    obtain ⟨hstage, hnext, hge, hlt, hbelow⟩ := hcut
    have hlen := ((trimmed_length _).trans (firstStage_length text)).trans hn
    cases htrim : trimmed (firstStage text) with
    | nil =>
      rw [htrim] at hstage
      rw [if_pos ((holds_zero_iff hstage).mpr rfl)]
      exact Or.inl ⟨rfl, rfl⟩
    | cons b stage =>
      rw [htrim] at hstage hlt hlen
      rw [if_neg fun h0 => hstage.1 (hstage.2.1.symm.trans h0)]
      by_cases hb : b = hash
      · rw [if_pos (hstage.2.1.trans hb)]
        exact Or.inr ⟨_, [], [], rfl, if_pos hb, trivial, hbelow⟩
      rw [if_neg fun h0 => hb (hstage.2.1.symm.trans h0)]
      dsimp only
      rw [if_neg hb]
      cases room with
      | zero => exact Or.inl ⟨rfl, rfl⟩
      | succ room =>
        dsimp only
        rcases hlt with hnone | hlt
        · -- the last stage: the rest starts at a zero byte
          rw [hnone] at hnext ⊢
          rw [splitPipeline.eq_def, if_pos (show line₁ next = 0 from hnext),
            splitText.eq_def, if_pos rfl]
          exact Or.inr ⟨line₁, _, _, rfl, rfl, ⟨hge, hlen, hstage, trivial⟩, hbelow⟩
        rcases ih room (Nat.lt_succ_self room) hnext ((laterStages_length text).trans hn) with
          ⟨h₁, h₂⟩ | ⟨line', starts, stages, h₁, h₂, hlaid, hsame⟩
        · rw [h₁, h₂]
          exact Or.inl ⟨rfl, rfl⟩
        · rw [h₁, h₂]
          refine Or.inr ⟨line', _, _, rfl, rfl, ⟨hge, hlen, ?_, hlaid.mono hlt⟩, fun x hx => ?_⟩
          · exact hstage.congr fun x _ hx => hsame x (by omega)
          · exact (hsame x (by omega)).trans (hbelow x hx)

/-! ## Cutting a stage -/

/-- The text at `a`, in the part of the buffer from `low` to `high`. -/
structure Inside (line : Store) (low high a : Nat) (text : List Byte) : Prop where
  low : low ≤ a
  high : a + text.length ≤ high
  holds : line.Holds a text

/-- A text stays where no byte of its range changes. -/
theorem Inside.congr {low high a : Nat} (h : Inside line low high a text)
    (hx : ∀ x, low ≤ x → x ≤ high → line' x = line x) : Inside line' low high a text :=
  ⟨h.low, h.high, h.holds.congr fun x ha hle => hx x (h.low.trans ha) (hle.trans h.high)⟩

theorem Inside.mono {low high low' high' a : Nat} (h : Inside line low high a text)
    (hlow : low' ≤ low) (hhigh : high ≤ high') : Inside line low' high' a text :=
  ⟨hlow.trans h.low, h.high.trans hhigh, h.holds⟩

/-- A token ends where the walk over it stops. -/
theorem endToken_holds {p : Byte → Bool} {a stop : Nat} (h : line.Holds a text)
    (hstop : stop = a + (text.takeWhile p).length) :
    (endToken line stop).1.Holds a (text.takeWhile p) ∧
      (endToken line stop).1.Holds (endToken line stop).2 (text.dropWhile p).tail ∧
      (endToken line stop).2 + (text.dropWhile p).tail.length = a + text.length ∧
      (stop < (endToken line stop).2 ∨ (text.dropWhile p).tail = [] ∧
        (endToken line stop).2 = stop) ∧
      ∀ x, x < a ∨ a + text.length ≤ x → (endToken line stop).1 x = line x := by
  have hsum := length_takeWhile_add p text
  have hrest : line.Holds stop (text.dropWhile p) := by
    rw [hstop]
    refine Holds.append ?_
    rw [List.takeWhile_append_dropWhile]
    exact h
  unfold endToken
  cases hdrop : text.dropWhile p with
  | nil =>
    rw [hdrop] at hrest hsum
    have hall : text.takeWhile p = text := by
      have := List.takeWhile_append_dropWhile (p := p) (l := text)
      rwa [hdrop, List.append_nil] at this
    rw [if_neg (not_not.mpr (show line stop = 0 from hrest)), hall]
    rw [hall] at hstop
    exact ⟨h, hrest, by simpa using hstop, Or.inr ⟨rfl, rfl⟩, fun _ _ => rfl⟩
  | cons b later =>
    rw [hdrop] at hrest hsum
    rw [if_pos fun h0 => hrest.1 (hrest.2.1.symm.trans h0)]
    obtain ⟨htoken, hlater⟩ := h.cutWhile hdrop
    rw [← hstop] at htoken hlater
    rw [List.length_cons] at hsum
    refine ⟨htoken, hlater, ?_, Or.inl (Nat.lt_succ_self stop),
      fun x hx => Function.update_of_ne ?_ ..⟩
    · show stop + 1 + later.length = a + text.length
      omega
    · omega

/-- What `tokenize_stage` leaves behind: the words and the path, inside of the stage, and
the buffer as it was outside of it. -/
structure Tokenized (line : Store) (cursor : Nat) (text : List Byte) (argv : List Nat)
    (redirect : Option Nat) (words : Words) (texts : List (List Byte))
    (path : Option (List Byte)) : Prop where
  argv : ∃ starts, words.argv = argv ++ starts ∧
    List.Forall₂ (Inside words.line cursor (cursor + text.length)) starts texts
  redirect : path = none ∧ words.redirect = redirect ∨
    ∃ a t, path = some t ∧ words.redirect = some a ∧
      Inside words.line cursor (cursor + text.length) a t
  frame : ∀ x, x < cursor ∨ cursor + text.length ≤ x → words.line x = line x

/-- At the end of a stage there are no more words. -/
theorem Tokenized.done (line : Store) (cursor : Nat) (text : List Byte) (argv : List Nat)
    (redirect : Option Nat) :
    Tokenized line cursor text argv redirect ⟨line, argv, redirect⟩ [] none :=
  ⟨⟨[], (List.append_nil argv).symm, List.Forall₂.nil⟩, Or.inl ⟨rfl, rfl⟩, fun _ _ => rfl⟩

section Token

variable {line₁ : Store} {start next : Nat} {token rest : List Byte} {argv : List Nat}
  {redirect : Option Nat}
  {words : Words} {texts : List (List Byte)} {path : Option (List Byte)}

/-- A token that is cut off, and what is left behind it. -/
structure Ended (line : Store) (cursor : Nat) (text : List Byte) (line₁ : Store) (start : Nat)
    (token : List Byte) (next : Nat) (rest : List Byte) : Prop where
  cutOff : Inside line₁ cursor (cursor + text.length) start token
  behind : line₁.Holds next rest
  low : cursor ≤ next
  high : next + rest.length ≤ cursor + text.length
  apart : start + token.length < next ∨ rest = [] ∧ next = start + token.length
  frame : ∀ x, x < cursor ∨ cursor + text.length ≤ x → line₁ x = line x

/-- What the later turns store is behind the word that was cut off. -/
theorem Ended.keeps (h : Ended line cursor text line₁ start token next rest)
    (ht : ∀ x, x < next ∨ next + rest.length ≤ x → line' x = line₁ x) :
    Inside line' cursor (cursor + text.length) start token ∧
      ∀ x, x < cursor ∨ cursor + text.length ≤ x → line' x = line x := by
  refine ⟨⟨h.cutOff.low, h.cutOff.high, h.cutOff.holds.congr fun x _ hx => ht x ?_⟩, fun x hx => ?_⟩
  · rcases h.apart with hlt | ⟨rfl, hend⟩
    · omega
    · rw [List.length_nil]
      omega
  · have hlow := h.low
    have hhigh := h.high
    exact (ht x (by omega)).trans (h.frame x hx)

/-- The word is the next of the words. -/
theorem Ended.asWord (h : Ended line cursor text line₁ start token next rest)
    (ht : Tokenized line₁ next rest (argv ++ [start]) redirect words texts path) :
    Tokenized line cursor text argv redirect words (token :: texts) path := by
  obtain ⟨htoken, hframe⟩ := h.keeps ht.frame
  obtain ⟨starts, hargv, hstarts⟩ := ht.argv
  refine ⟨⟨start :: starts, by rw [hargv, List.append_assoc]; rfl, ?_⟩, ?_, hframe⟩
  · exact List.Forall₂.cons htoken (hstarts.imp fun _ _ hin => hin.mono h.low h.high)
  · rcases ht.redirect with hnone | ⟨a, t, hpath, hred, hin⟩
    · exact Or.inl hnone
    · exact Or.inr ⟨a, t, hpath, hred, hin.mono h.low h.high⟩

/-- The word is where the output goes, unless a later one is. -/
theorem Ended.asPath (h : Ended line cursor text line₁ start token next rest)
    (ht : Tokenized line₁ next rest argv (some start) words texts path) :
    Tokenized line cursor text argv redirect words texts (path.or (some token)) := by
  obtain ⟨htoken, hframe⟩ := h.keeps ht.frame
  obtain ⟨starts, hargv, hstarts⟩ := ht.argv
  refine ⟨⟨starts, hargv, hstarts.imp fun _ _ hin => hin.mono h.low h.high⟩, Or.inr ?_, hframe⟩
  rcases ht.redirect with ⟨rfl, hred⟩ | ⟨a, t, rfl, hred, hin⟩
  · exact ⟨start, token, rfl, hred, htoken⟩
  · exact ⟨a, t, rfl, hred, hin.mono h.low h.high⟩

/-- A token that ends at white space, or with the stage. -/
theorem endToken_ended {p : Byte → Bool} {stop : Nat} (h : line.Holds start rest)
    (hlow : cursor ≤ start) (hhigh : start + rest.length = cursor + text.length)
    (hstop : stop = start + (rest.takeWhile p).length) :
    Ended line cursor text (endToken line stop).1 start (rest.takeWhile p) (endToken line stop).2
      (rest.dropWhile p).tail := by
  obtain ⟨htoken, hbehind, hsize, hapart, hframe⟩ := endToken_holds h hstop
  refine ⟨⟨hlow, by omega, htoken⟩,
    hbehind, by omega, by omega, ?_, fun x hx => hframe x (by omega)⟩
  rcases hapart with hlt | ⟨hnone, hend⟩
  · exact Or.inl (by omega)
  · exact Or.inr ⟨hnone, by omega⟩

/-- A word that ends at the angle: nothing is left behind the zero byte in its place. -/
theorem glued_ended {stop : Nat} {later : List Byte} (h : line.Holds start rest)
    (hlow : cursor ≤ start) (hhigh : start + rest.length = cursor + text.length)
    (hstop : stop = start + (rest.takeWhile isWordByte).length)
    (hdrop : rest.dropWhile isWordByte = angle :: later) :
    Ended line cursor text (terminate line stop) start (rest.takeWhile isWordByte) stop [] := by
  have hsum := length_takeWhile_add isWordByte rest
  rw [hdrop, List.length_cons] at hsum
  have hword := (h.cutWhile hdrop).1
  rw [← hstop] at hword
  refine ⟨⟨hlow, by omega, hword⟩, Function.update_self .., by omega, ?_, Or.inr ⟨rfl, hstop⟩,
    fun x hx => Function.update_of_ne ?_ ..⟩
  · rw [List.length_nil]
    omega
  · omega

end Token

/-- **`tokenize_stage`** cuts a stage into its words and the path, or finds the same fault. -/
theorem tokenizeFrom_tokenizeText (turns : Nat) : ∀ {line : Store} {cursor : Nat} {text : List Byte}
    (argv : List Nat) (redirect : Option Nat), line.Holds cursor text → text.length ≤ lineMax →
    (tokenizeFrom turns line cursor argv redirect = none ∧
      tokenizeText turns argv.length text = none) ∨
      ∃ words texts path, tokenizeFrom turns line cursor argv redirect = some words ∧
        tokenizeText turns argv.length text = some (texts, path) ∧
        Tokenized line cursor text argv redirect words texts path := by
  induction turns with
  | zero => exact fun _ _ _ _ => Or.inl ⟨rfl, rfl⟩
  | succ turns ih =>
    intro line cursor text argv redirect h hn
    rw [tokenizeFrom, tokenizeText]
    by_cases hne : text = []
    · subst hne
      rw [if_pos (show line cursor = 0 from h)]
      exact Or.inr ⟨_, [], none, rfl, rfl, Tokenized.done ..⟩
    rw [if_neg fun h0 => hne ((holds_zero_iff h).mp h0)]
    obtain ⟨hskip, hrest⟩ := skipWhile_holds (p := isSpace) h (by decide) hn
    have hsum := length_takeWhile_add isSpace text
    generalize line.skipWhile isSpace lineMax cursor = start at hskip hrest ⊢
    cases hdrop : text.dropWhile isSpace with
    | nil =>
      rw [hdrop] at hrest
      rw [if_pos (Or.inl (show line start = 0 from hrest))]
      exact Or.inr ⟨_, [], none, rfl, rfl, Tokenized.done ..⟩
    | cons b rest =>
      rw [hdrop] at hrest hsum
      have hb := hrest.2.1
      by_cases hhash : b = hash
      · rw [if_pos (Or.inr (hb.trans hhash))]
        exact Or.inr ⟨_, [], none, rfl, if_pos hhash, Tokenized.done ..⟩
      rw [if_neg (not_or.mpr ⟨fun h0 => hrest.1 (hb.symm.trans h0),
        fun h0 => hhash (hb.symm.trans h0)⟩)]
      dsimp only
      rw [if_neg hhash]
      by_cases hangle : b = angle
      · rw [if_pos (hb.trans hangle), if_pos hangle]
        obtain ⟨hskip', hpath⟩ := skipWhile_holds (p := isSpace) (n := lineMax)
          hrest.2.2 (by decide)
          (by rw [List.length_cons] at hsum; omega)
        have hsum' := length_takeWhile_add isSpace rest
        generalize line.skipWhile isSpace lineMax (start + 1) = path at hskip' hpath ⊢
        cases hdrop' : rest.dropWhile isSpace with
        | nil =>
          rw [hdrop'] at hpath
          rw [if_pos (show line path = 0 from hpath)]
          exact Or.inl ⟨rfl, rfl⟩
        | cons c later =>
          rw [hdrop'] at hpath hsum'
          rw [List.length_cons] at hsum
          rw [if_neg fun h0 => hpath.1 (hpath.2.1.symm.trans h0)]
          obtain ⟨hstop, -⟩ := skipText_holds (p := isPathByte) (n := lineMax) hpath (by omega)
          generalize line.skipWhile (fun b => b != 0 && isPathByte b) lineMax path = stop at hstop ⊢
          have hended : Ended line cursor text _ _ _ _ _ :=
            endToken_ended hpath (by omega) (by omega) hstop
          dsimp only
          have hlow := hended.low
          have hhigh := hended.high
          rcases ih argv (some path) hended.behind (by omega) with
            ⟨h₁, h₂⟩ | ⟨words, texts, later', h₁, h₂, ht⟩
          · rw [h₁, h₂]
            exact Or.inl ⟨rfl, rfl⟩
          · rw [h₁, h₂]
            exact Or.inr ⟨words, texts, _, rfl, rfl, hended.asPath ht⟩
      rw [if_neg fun h0 => hangle (hb.symm.trans h0), if_neg hangle]
      by_cases hfull : argv.length + 1 ≥ maxArgs
      · rw [if_pos hfull, if_pos hfull]
        exact Or.inl ⟨rfl, rfl⟩
      rw [if_neg hfull, if_neg hfull]
      obtain ⟨hstop, hend⟩ := skipText_holds (p := isWordByte) (n := lineMax) hrest (by omega)
      generalize line.skipWhile (fun b => b != 0 && isWordByte b) lineMax start
        = stop at hstop hend ⊢
      -- both ways to go on end the word and leave the text behind it
      obtain ⟨line₁, next, hgo, hended⟩ : ∃ line₁ next,
          (if line stop = angle then tokenizeFrom turns (terminate line stop) stop
            (argv ++ [start]) redirect
            else tokenizeFrom turns (endToken line stop).1 (endToken line stop).2
              (argv ++ [start]) redirect)
            = tokenizeFrom turns line₁ next (argv ++ [start]) redirect ∧
          Ended line cursor text line₁ start ((b :: rest).takeWhile isWordByte)
            next (afterWord (b :: rest)) := by
        have hlast := endToken_ended (p := isWordByte) hrest (show cursor ≤ start by omega)
          (show start + (b :: rest).length = cursor + text.length by omega) hstop
        unfold afterWord
        cases hword : (b :: rest).dropWhile isWordByte with
        | nil =>
          rw [hword] at hend hlast
          rw [if_neg (by rw [show line stop = 0 from hend]; decide)]
          exact ⟨_, _, rfl, hlast⟩
        | cons c later =>
          rw [hword] at hend hlast
          dsimp only
          by_cases hc : c = angle
          · rw [if_pos (hend.2.1.trans hc), if_pos hc]
            exact ⟨_, _, rfl, glued_ended hrest (by omega) (by omega) hstop (hc ▸ hword)⟩
          · rw [if_neg fun h0 => hc (hend.2.1.symm.trans h0), if_neg hc]
            exact ⟨_, _, rfl, hlast⟩
      have hlow := hended.low
      have hhigh := hended.high
      have hnext := ih (argv ++ [start]) redirect hended.behind (by omega)
      rw [List.length_append, List.length_singleton] at hnext
      rw [hgo]
      rcases hnext with ⟨h₁, h₂⟩ | ⟨words, texts, path, h₁, h₂, ht⟩
      · rw [h₁, h₂]
        exact Or.inl ⟨rfl, rfl⟩
      · rw [h₁, h₂]
        exact Or.inr ⟨words, _, path, rfl, rfl, hended.asWord ht⟩

/-! ## The whole line -/

/-- What the pointers of a stage point to when the whole line has been cut up. -/
theorem Tokenized.texts {words : Words} {texts : List (List Byte)} {path : Option (List Byte)}
    (h : Tokenized line cursor text [] none words texts path) (hn : text.length ≤ lineMax)
    (hx : ∀ x, x ≤ cursor + text.length → line' x = words.line x) :
    words.argv.map (line'.textAt lineMax) = texts ∧
      words.redirect.map (line'.textAt lineMax) = path := by
  have hread : ∀ a t, Inside words.line cursor (cursor + text.length) a t →
      line'.textAt lineMax a = t := by
    intro a t hin
    have hlow := hin.low
    have hhigh := hin.high
    exact textAt_holds (hin.congr fun x _ hle => hx x hle).holds (by omega)
  obtain ⟨starts, hargv, hstarts⟩ := h.argv
  constructor
  · rw [hargv, List.nil_append, ← List.forall₂_eq_eq_eq]
    exact List.forall₂_map_left_iff.mpr (hstarts.imp hread)
  · rcases h.redirect with ⟨rfl, hred⟩ | ⟨a, t, rfl, hred, hin⟩
    · rw [hred]
      rfl
    · rw [hred, Option.map_some, hread a t hin]

/-- The stages, by induction: those that follow are not touched by the first. -/
theorem tokenizeStages_readStages (starts : List Nat) :
    ∀ {line : Store} {low : Nat} {stages : List (List Byte)},
    Laid line low starts stages →
    (tokenizeStages line starts = none ∧ readStages stages = none) ∨
      ∃ command, tokenizeStages line starts = some command ∧
        readStages stages = some command.pipeline ∧
        ∀ x, x < low → command.line x = line x := by
  induction starts with
  | nil =>
    intro line low stages h
    cases stages with
    | nil => exact Or.inr ⟨_, rfl, rfl, fun _ _ => rfl⟩
    | cons => exact absurd h id
  | cons start starts ih =>
    intro line low stages h
    cases stages with
    | nil => exact absurd h id
    | cons stage stages =>
      obtain ⟨hlow, hlen, hheld, hlater⟩ := h
      have hnil : starts = [] ↔ stages = [] := by
        cases starts <;> cases stages <;> simp_all [Laid]
      rw [tokenizeStages, readStages]
      unfold tokenizeStage
      rcases tokenizeFrom_tokenizeText lineMax [] none hheld hlen with
        ⟨h₁, h₂⟩ | ⟨words, texts, path, h₁, h₂, ht⟩
      · rw [List.length_nil] at h₂
        rw [h₁, h₂]
        exact Or.inl ⟨rfl, rfl⟩
      rw [List.length_nil] at h₂
      rw [h₁, h₂]
      dsimp only
      obtain ⟨hargv, hred⟩ := ht.texts hlen fun _ _ => rfl
      have hempty : words.argv.length = 0 ↔ texts = [] := by
        rw [← hargv, List.map_eq_nil_iff, List.length_eq_zero_iff]
      have hnone : words.redirect ≠ none ↔ path ≠ none := by
        rw [← hred, Ne, Ne, Option.map_eq_none_iff]
      by_cases hwords : texts = []
      · rw [if_pos (hempty.mpr hwords), if_pos hwords]
        exact Or.inl ⟨rfl, rfl⟩
      rw [if_neg (hempty.not.mpr hwords), if_neg hwords]
      by_cases hmid : stages ≠ [] ∧ path ≠ none
      · rw [if_pos ⟨hnil.not.mpr hmid.1, hnone.mpr hmid.2⟩, if_pos hmid]
        exact Or.inl ⟨rfl, rfl⟩
      rw [if_neg fun hm => hmid ⟨hnil.not.mp hm.1, hnone.mp hm.2⟩, if_neg hmid]
      have hrest : Laid words.line (start + stage.length + 1) starts stages :=
        hlater.congr fun x hx => ht.frame x (Or.inr (by omega))
      rcases ih hrest with ⟨h₃, h₄⟩ | ⟨command, h₃, h₄, hframe⟩
      · rw [h₃, h₄]
        exact Or.inl ⟨rfl, rfl⟩
      rw [h₃, h₄]
      obtain ⟨hargv, hred⟩ := ht.texts hlen fun x hx => hframe x (Nat.lt_succ_of_le hx)
      refine Or.inr ⟨_, rfl, ?_, fun x hx => (hframe x (by omega)).trans
        (ht.frame x (Or.inl (by omega)))⟩
      rw [Option.map_some, ← hargv, ← hred]
      unfold Command.pipeline
      by_cases hlast : stages = []
      · simp [hlast, hnil.mpr hlast]
      · simp [hlast, hnil.not.mpr hlast]

/-- **The parser reads the line**: with a text in the buffer, it finds what `readLine` says. -/
theorem parseLine_readLine (h : line.Holds 0 text) (hn : text.length ≤ lineMax) :
    parseLine line = readLine text := by
  have hstrip := stripLineEnd_holds h hn
  have hle : (lineText text).length ≤ lineMax := ((List.takeWhile_prefix _).length_le).trans hn
  unfold parseLine readLine
  rcases splitPipeline_splitText maxStages hstrip hle with ⟨h₁, h₂⟩ | ⟨line', starts, stages,
    h₁, h₂, hlaid, -⟩
  · rw [h₁, h₂]
  rw [h₁, h₂]
  dsimp only
  rcases tokenizeStages_readStages starts hlaid with ⟨h₃, h₄⟩ | ⟨command, h₃, h₄, -⟩
  · rw [h₃, h₄]
    rfl
  · rw [h₃, h₄]
    rfl

end Riverix.User
