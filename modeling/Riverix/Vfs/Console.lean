import Riverix.Vfs.Pipe

/-!
# Reading lines from the console (`console_inode_read`, `input.c`)

What is typed waits in a ring of 256 characters. A read takes characters off it, maps the
carriage return to a newline and lets an erase key remove the last character it holds; it ends
with a newline, a full buffer or an empty queue. The characters that it holds are all it knows
of the line: what an earlier read has handed over cannot be erased any more.

The proof follows the typed line with the bytes that earlier reads delivered (`D`), what is left
of them in the edited line (`E`) and what the read at work holds. The held characters end the
edited line, so once `D` is longer than `E` it stays so.
-/

namespace Riverix.Vfs

open Riverix.Lib

/-- `input_queue` with `INPUT_QUEUE_CAPACITY` cells. -/
abbrev InputQueue := Ring Byte 256

/-- `input_queue_push_locked`: what does not fit is dropped. -/
def inputPush (q : InputQueue) (ch : Byte) : InputQueue :=
  if h : q.buffered < 256 then q.push ch h else q

/-- Backspace and DEL. -/
def isErase (ch : Byte) : Bool := ch == 0x08 || ch == 0x7F

/-- What the loop of `console_inode_read` leaves: the queue, the bytes and what was echoed. -/
structure ConsoleRead where
  queue : InputQueue
  bytes : List Byte
  echo : List Byte

/-- The loop of `console_inode_read`. -/
def consoleReadLoop (length : Nat) (q : InputQueue) (bytes echo : List Byte) : ConsoleRead :=
  if bytes.length < length then
    if h : q.buffered ≠ 0 then
      let ch := if q.front = 0x0D then 0x0A else q.front
      if isErase ch then
        if bytes = [] then consoleReadLoop length (q.pop h) bytes echo
        else consoleReadLoop length (q.pop h) bytes.dropLast (echo ++ [0x08, 0x20, 0x08])
      else if ch = 0x0A then ⟨q.pop h, bytes ++ [ch], echo ++ [ch]⟩
      else consoleReadLoop length (q.pop h) (bytes ++ [ch]) (echo ++ [ch])
    else ⟨q, bytes, echo⟩
  else ⟨q, bytes, echo⟩
termination_by q.buffered
decreasing_by all_goals exact Nat.sub_one_lt h

/-- `console_inode_read` -/
def consoleInodeRead (q : InputQueue) (length : Nat) : InputQueue × ReadResult :=
  if length = 0 then (q, .data [])
  else
    let out := consoleReadLoop length q [] []
    (out.queue, if out.bytes = [] then .wouldBlock else .data out.bytes)

/-! ## A reader and its line -/

/-- The reader issues a read, or somebody goes on typing. A read system call of more than 256
bytes is several of these. -/
inductive ConsoleEvent
  | read (length : Nat)
  | typed (ch : Byte)

/-- The bytes that the reader gets, up to the read that brings the newline. -/
def delivered : InputQueue → List ConsoleEvent → List Byte
  | _, [] => []
  | q, .typed ch :: es => delivered (inputPush q ch) es
  | q, .read length :: es =>
    let bytes := (consoleInodeRead q length).2.bytes
    if 0x0A ∈ bytes then bytes else bytes ++ delivered (consoleInodeRead q length).1 es

/-- The line after one more key. -/
def editKey (line : List Byte) (ch : Byte) : List Byte :=
  if isErase ch then line.dropLast else line ++ [ch]

/-- The line that the keys give. -/
def editedLine (keys : List Byte) : List Byte := keys.foldl editKey []

/-- The lengths of the reads that ask for something. -/
def readLengths : List ConsoleEvent → List Nat
  | [] => []
  | .typed _ :: es => readLengths es
  | .read length :: es => if length = 0 then readLengths es else length :: readLengths es

/-- No erase key comes first in a read after characters were delivered: `sent` characters of the
line were delivered, the read at work holds `held` of `length`, and `lengths` follow. -/
def erasesInTime : (keys : List Byte) → (sent held length : Nat) → (lengths : List Nat) → Bool
  | [], _, _, _, _ => true
  | ch :: keys, sent, held, length, lengths =>
    if isErase ch then
      if held = 0 then sent == 0 && erasesInTime keys sent 0 length lengths
      else erasesInTime keys sent (held - 1) length lengths
    else if held + 1 < length then erasesInTime keys sent (held + 1) length lengths
    else match lengths with
      | [] => true
      | next :: lengths => erasesInTime keys (sent + held + 1) 0 next lengths

/-- The same at the beginning of a read. -/
def erasesInReads (keys : List Byte) (sent : Nat) : List Nat → Bool
  | [] => true
  | length :: lengths => erasesInTime keys sent 0 length lengths

variable {q : InputQueue} {keys rest bytes echo D E : List Byte} {ch nl : Byte} {length : Nat}
  {es : List ConsoleEvent}

/-- The queue holds the keys of a line, the key that ends it and whatever follows. -/
structure HoldsLine (q : InputQueue) (keys : List Byte) (nl : Byte) (rest : List Byte) : Prop where
  contents : q.contents = keys ++ nl :: rest
  ends : nl = 0x0A ∨ nl = 0x0D
  inside : ∀ ch ∈ keys, ch ≠ 0x0A ∧ ch ≠ 0x0D

theorem contents_inputPush (q : InputQueue) (ch : Byte) :
    ∃ more, (inputPush q ch).contents = q.contents ++ more := by
  unfold inputPush
  split
  next h => exact ⟨[ch], q.contents_push ch h⟩
  · exact ⟨[], (List.append_nil _).symm⟩

theorem HoldsLine.typed (h : HoldsLine q keys nl rest) (ch : Byte) :
    ∃ rest', HoldsLine (inputPush q ch) keys nl rest' := by
  obtain ⟨more, hmore⟩ := contents_inputPush q ch
  refine ⟨rest ++ more, ?_, h.ends, h.inside⟩
  rw [hmore, h.contents, List.append_assoc, List.cons_append]

/-- The next key of the line is popped. -/
theorem HoldsLine.pop (h : HoldsLine q (ch :: keys) nl rest) :
    ∃ hne : q.buffered ≠ 0, q.front = ch ∧ HoldsLine (q.pop hne) keys nl rest := by
  have hne : q.buffered ≠ 0 := by
    rw [← q.contents_length, h.contents]
    simp
  have hc := h.contents
  rw [q.contents_pop hne, List.cons_append] at hc
  obtain ⟨hfront, hrest⟩ := List.cons.inj hc
  exact ⟨hne, hfront, hrest, h.ends, fun ch' hch => h.inside ch' (List.mem_cons_of_mem _ hch)⟩

/-! ## One read -/

theorem consoleReadLoop_key (h : HoldsLine q (ch :: keys) nl rest) (hroom : bytes.length < length)
    (echo : List Byte) :
    ∃ q' echo', HoldsLine q' keys nl rest ∧ consoleReadLoop length q bytes echo
      = consoleReadLoop length q' (if isErase ch then bytes.dropLast else bytes ++ [ch]) echo' := by
  obtain ⟨hne, hfront, hrest⟩ := h.pop
  obtain ⟨hnl, hcr⟩ := h.inside ch (List.mem_cons_self ..)
  conv => enter [1, q', 1, echo', 2, 1]; rw [consoleReadLoop]
  simp only [if_pos hroom, dif_pos hne, hfront, if_neg hcr, if_neg hnl]
  by_cases he : isErase ch = true
  · simp only [if_pos he]
    by_cases hb : bytes = []
    · subst hb
      exact ⟨_, _, hrest, rfl⟩
    · rw [if_neg hb]
      exact ⟨_, _, hrest, rfl⟩
  · simp only [if_neg he]
    exact ⟨_, _, hrest, rfl⟩

theorem consoleReadLoop_full (h : ¬ bytes.length < length) :
    consoleReadLoop length q bytes echo = ⟨q, bytes, echo⟩ := by
  rw [consoleReadLoop, if_neg h]

theorem consoleReadLoop_end (h : HoldsLine q [] nl rest) (hroom : bytes.length < length) :
    (consoleReadLoop length q bytes echo).bytes = bytes ++ [0x0A] := by
  have hne : q.buffered ≠ 0 := by
    rw [← q.contents_length, h.contents]
    simp
  have hc := h.contents
  rw [q.contents_pop hne] at hc
  have hfront : (if q.front = 0x0D then (0x0A : Byte) else q.front) = 0x0A := by
    rw [(List.cons.inj hc).1]
    rcases h.ends with rfl | rfl <;> rfl
  rw [consoleReadLoop]
  simp only [if_pos hroom, dif_pos hne, hfront]
  rfl

/-- What the reader gets when the read at work holds these bytes. -/
def finished (length : Nat) (q : InputQueue) (bytes echo : List Byte) (es : List ConsoleEvent) :
    List Byte :=
  let out := consoleReadLoop length q bytes echo
  if 0x0A ∈ out.bytes then out.bytes else out.bytes ++ delivered out.queue es

theorem delivered_read (hl : length ≠ 0) :
    delivered q (.read length :: es) = finished length q [] [] es := by
  have hbytes : (consoleInodeRead q length).2.bytes = (consoleReadLoop length q [] []).bytes := by
    unfold consoleInodeRead
    rw [if_neg hl]
    dsimp only
    split
    next h => rw [h]; rfl
    · rfl
  have hqueue : (consoleInodeRead q length).1 = (consoleReadLoop length q [] []).queue := by
    unfold consoleInodeRead
    rw [if_neg hl]
  unfold delivered finished
  rw [hbytes, hqueue]

/-! ## The whole line -/

/-- The reader gets the edited line exactly if nothing was delivered that was erased later, and
no erase key comes too late from here on. -/
def LineIff (nl : Byte) (keys : List Byte) : Prop :=
  ∀ {q rest bytes echo D E length es}, HoldsLine q keys nl rest → bytes.length < length →
    0x0A ∉ bytes → D = E ∨ E.length < D.length → 0x0A ∈ finished length q bytes echo es →
    (D ++ finished length q bytes echo es = keys.foldl editKey (E ++ bytes) ++ [0x0A] ↔
      D = E ∧ erasesInTime keys D.length bytes.length length (readLengths es) = true)

/-- The same between two reads. -/
theorem LineIff.delivered (hi : LineIff nl keys) (h : HoldsLine q keys nl rest)
    (hDE : D = E ∨ E.length < D.length) (hnl : 0x0A ∈ delivered q es) :
    D ++ delivered q es = keys.foldl editKey E ++ [0x0A] ↔
      D = E ∧ erasesInReads keys D.length (readLengths es) = true := by
  induction es generalizing q rest with
  | nil => cases hnl
  | cons e es ih =>
    cases e with
    | typed ch =>
      obtain ⟨rest', h'⟩ := h.typed ch
      exact ih h' hnl
    | read length =>
      by_cases hl : length = 0
      · subst hl
        exact ih h hnl
      rw [delivered_read hl] at hnl ⊢
      have := hi h (Nat.pos_of_ne_zero hl) List.not_mem_nil hDE hnl
      rw [List.append_nil] at this
      rw [this, readLengths, if_neg hl]
      rfl

theorem lineIff (nl : Byte) (keys : List Byte) : LineIff nl keys := by
  induction keys with
  | nil =>
    intro q rest bytes echo D E length es h hroom hbytes hDE hnl
    have hend : finished length q bytes echo es = bytes ++ [0x0A] := by
      unfold finished
      dsimp only
      rw [consoleReadLoop_end h hroom, if_pos (List.mem_append_right _ (List.mem_singleton_self _))]
    rw [hend, ← List.append_assoc]
    simp [erasesInTime]
  | cons ch keys ih =>
    intro q rest bytes echo D E length es h hroom hbytes hDE hnl
    obtain ⟨q', echo', h', hloop⟩ := consoleReadLoop_key h hroom echo
    have hfin : finished length q bytes echo es
        = finished length q' (if isErase ch then bytes.dropLast else bytes ++ [ch]) echo' es := by
      unfold finished
      rw [hloop]
    rw [hfin] at hnl ⊢
    rw [List.foldl_cons, editKey]
    unfold erasesInTime
    by_cases he : isErase ch = true
    · simp only [if_pos he] at hnl ⊢
      by_cases hb : bytes = []
      · subst hb
        rw [List.append_nil, List.length_nil, if_pos rfl, List.dropLast_nil]
        have hlen : E.dropLast.length = E.length - 1 := List.length_dropLast
        have hiff : D = E.dropLast ↔ D = E ∧ D.length = 0 := by
          constructor
          · intro hD
            rw [← hD] at hlen
            rcases hDE with hDE | hDE
            · exact ⟨hDE, by rw [hDE] at hlen ⊢; omega⟩
            · omega
          · rintro ⟨rfl, h0⟩
            rw [List.length_eq_zero_iff.mp h0]
            rfl
        have hDE' : D = E.dropLast ∨ E.dropLast.length < D.length := by
          rw [hiff, hlen]
          rcases hDE with rfl | hDE
          · rcases Nat.eq_zero_or_pos D.length with h0 | h0
            · exact .inl ⟨rfl, h0⟩
            · exact .inr (by omega)
          · exact .inr (by omega)
        have := ih h' hroom List.not_mem_nil hDE' hnl
        rw [List.append_nil, hiff, and_assoc] at this
        rw [this, Bool.and_eq_true, beq_iff_eq]
        rfl
      have hpos := List.length_pos_iff.mpr hb
      rw [List.dropLast_append_of_ne_nil hb, if_neg (by omega)]
      have := ih h' (by rw [List.length_dropLast]; omega)
        (fun hm => hbytes (List.dropLast_subset _ hm)) hDE hnl
      rwa [List.length_dropLast] at this
    simp only [if_neg he] at hnl ⊢
    have hmore : 0x0A ∉ bytes ++ [ch] := by
      intro hm
      rcases List.mem_append.mp hm with hm | hm
      · exact hbytes hm
      · exact (h.inside ch (List.mem_cons_self ..)).1 (List.mem_singleton.mp hm).symm
    by_cases hfull : bytes.length + 1 < length
    · rw [if_pos hfull, List.append_assoc]
      have := ih h' (by rw [List.length_append]; exact hfull) hmore hDE hnl
      rwa [List.length_append] at this
    -- the read is full, and the next one knows nothing of these bytes
    have hread : finished length q' (bytes ++ [ch]) echo' es
        = (bytes ++ [ch]) ++ delivered q' es := by
      unfold finished
      rw [consoleReadLoop_full (by rw [List.length_append]; exact hfull), if_neg hmore]
    rw [hread] at hnl ⊢
    have hnl' := (List.mem_append.mp hnl).resolve_left hmore
    have hDE' : D ++ (bytes ++ [ch]) = E ++ (bytes ++ [ch]) ∨
        (E ++ (bytes ++ [ch])).length < (D ++ (bytes ++ [ch])).length := by
      rw [List.append_left_inj]
      simpa using hDE
    have := ih.delivered h' hDE' hnl'
    rw [List.append_left_inj, List.append_assoc D, List.length_append, List.length_append] at this
    rw [if_neg hfull, List.append_assoc E, this]
    cases readLengths es <;> rfl

/-- **The reads together deliver the edited line exactly when every erase key comes in time.**
For every line in the queue, every way to go on typing and every sequence of reads that gets to
the newline. -/
theorem delivered_iff_erasesInReads (q : InputQueue) (keys rest : List Byte) (nl : Byte)
    (es : List ConsoleEvent) (h : HoldsLine q keys nl rest) (hnl : 0x0A ∈ delivered q es) :
    delivered q es = editedLine keys ++ [0x0A] ↔
      erasesInReads keys 0 (readLengths es) = true := by
  have := LineIff.delivered (D := []) (E := []) (@lineIff nl keys) h (.inl rfl) hnl
  simpa [editedLine] using this

/-- The queue after these keys, typed into an empty one. -/
def typedQueue (keys : List Byte) : InputQueue := keys.foldl inputPush (Ring.empty 0 (by decide))

/-- `ab`, backspace and return, read in one piece. -/
theorem delivered_block :
    delivered (typedQueue [0x61, 0x62, 0x08, 0x0D]) [.read 16] = [0x61, 0x0A] :=
  (delivered_iff_erasesInReads _ [0x61, 0x62, 0x08] [] 0x0D [.read 16]
    ⟨by decide +kernel, .inr rfl, by decide⟩ (by decide +kernel)).mpr (by decide +kernel)

/-- The same keys read one byte at a time, as `readline_fd` does: the `b` is delivered. -/
theorem single_reads_keep_erased :
    HoldsLine (typedQueue [0x61, 0x62, 0x08, 0x0D]) [0x61, 0x62, 0x08] 0x0D [] ∧
      delivered (typedQueue [0x61, 0x62, 0x08, 0x0D]) [.read 1, .read 1, .read 1]
        = [0x61, 0x62, 0x0A] ∧
      editedLine [0x61, 0x62, 0x08] ++ [0x0A] = [0x61, 0x0A] :=
  ⟨⟨by decide +kernel, .inr rfl, by decide⟩, by decide +kernel, by decide⟩

end Riverix.Vfs
