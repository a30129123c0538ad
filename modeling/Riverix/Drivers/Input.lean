import Riverix.Vfs.Console

/-!
# Scancodes (`input.c`)

`input_process_xt_scancode` keeps three flags: a shift key is held, caps lock is on, the next
code follows an `E0` or `E1`. Both shift keys set and clear the one flag, so a key let go while
the other is held clears it too early.

`Keys` is what the codes say of the keys themselves. It runs beside the driver, and `Tracks`
says what the flags are in its terms. **`scancode_handled_iff`**: after any events, a code is
handled as the keys ask exactly if the queue has room for its character and no shift key was let
go under the other one, but for the characters that shift does not change.
-/

namespace Riverix.Drivers

open Riverix.Lib Riverix.Vfs

/-! ## The driver -/

/-- `ascii_is_alpha` -/
def asciiIsAlpha (ch : Byte) : Bool := 0x61 ≤ ch.toNat && ch.toNat ≤ 0x7A

/-- `ascii_to_upper` -/
def asciiToUpper (ch : Byte) : Byte := if asciiIsAlpha ch then ch - 0x20 else ch

/-- The character of a key in a table that starts at the code 2. -/
def tableChar (table : List Byte) (scancode : Byte) : Byte :=
  (0 :: 0 :: table).getD (scancode &&& 0x7F).toNat 0

/-- `i8042_unshifted_char` -/
def i8042UnshiftedChar : Byte → Byte := tableChar
  [0x31, 0x32, 0x33, 0x34, 0x35, 0x36, 0x37, 0x38, 0x39, 0x30, 0x2D, 0x3D, 0x08, 0x09,
    -- qwertyuiop[] and return
    0x71, 0x77, 0x65, 0x72, 0x74, 0x79, 0x75, 0x69, 0x6F, 0x70, 0x5B, 0x5D, 0x0A, 0,
    -- asdfghjkl;' and the grave accent
    0x61, 0x73, 0x64, 0x66, 0x67, 0x68, 0x6A, 0x6B, 0x6C, 0x3B, 0x27, 0x60, 0,
    -- \zxcvbnm,./ and space
    0x5C, 0x7A, 0x78, 0x63, 0x76, 0x62, 0x6E, 0x6D, 0x2C, 0x2E, 0x2F, 0, 0, 0, 0x20]

/-- `i8042_shifted_char` -/
def i8042ShiftedChar : Byte → Byte := tableChar
  [0x21, 0x40, 0x23, 0x24, 0x25, 0x5E, 0x26, 0x2A, 0x28, 0x29, 0x5F, 0x2B, 0x08, 0x09,
    -- QWERTYUIOP, braces and return
    0x51, 0x57, 0x45, 0x52, 0x54, 0x59, 0x55, 0x49, 0x4F, 0x50, 0x7B, 0x7D, 0x0A, 0,
    -- ASDFGHJKL:"~
    0x41, 0x53, 0x44, 0x46, 0x47, 0x48, 0x4A, 0x4B, 0x4C, 0x3A, 0x22, 0x7E, 0,
    -- |ZXCVBNM<>? and space
    0x7C, 0x5A, 0x58, 0x43, 0x56, 0x42, 0x4E, 0x4D, 0x3C, 0x3E, 0x3F, 0, 0, 0, 0x20]

/-- The statics of `input.c` that a scancode can change. -/
structure Keyboard where
  shift : Bool
  capsLock : Bool
  extendedPrefix : Bool
  queue : InputQueue

/-- `i8042_translate_char` -/
def Keyboard.translateChar (k : Keyboard) (scancode : Byte) : Byte :=
  let base := i8042UnshiftedChar scancode
  if base = 0 then 0
  else if !asciiIsAlpha base then if k.shift then i8042ShiftedChar scancode else base
  else if k.shift ^^ k.capsLock then asciiToUpper base
  else base

/-- `code` -/
def keyOf (scancode : Byte) : Byte := scancode &&& 0x7F

/-- `released` -/
def isRelease (scancode : Byte) : Bool := scancode &&& 0x80 != 0

def isPrefixCode (scancode : Byte) : Bool := scancode == 0xE0 || scancode == 0xE1

/-- `input_process_xt_scancode` -/
def Keyboard.processScancode (k : Keyboard) (scancode : Byte) : Keyboard :=
  if isPrefixCode scancode then { k with extendedPrefix := true }
  else if k.extendedPrefix then { k with extendedPrefix := false }
  else if keyOf scancode = 0x2A ∨ keyOf scancode = 0x36 then
    { k with shift := !isRelease scancode }
  else if keyOf scancode = 0x3A ∧ isRelease scancode = false then
    { k with capsLock := !k.capsLock }
  else if isRelease scancode then k
  else
    let ch := k.translateChar (keyOf scancode)
    if ch = 0 then k else { k with queue := inputPush k.queue ch }

/-! ## The keys -/

/-- What a sequence of codes says of the keys. `masked`: a shift key was let go while the other
was held, and neither was touched since. -/
structure Keys where
  left : Bool
  right : Bool
  caps : Bool
  prefixed : Bool
  masked : Bool

def Keys.held (s : Keys) : Bool := s.left || s.right

def Keys.next (s : Keys) (scancode : Byte) : Keys :=
  if isPrefixCode scancode then { s with prefixed := true }
  else if s.prefixed then { s with prefixed := false }
  else if keyOf scancode = 0x2A then
    { s with left := !isRelease scancode, masked := isRelease scancode && s.right }
  else if keyOf scancode = 0x36 then
    { s with right := !isRelease scancode, masked := isRelease scancode && s.left }
  else if keyOf scancode = 0x3A ∧ isRelease scancode = false then { s with caps := !s.caps }
  else s

/-- A code without a prefix that presses a key with a character. -/
def Keys.Prints (s : Keys) (scancode : Byte) : Prop :=
  isPrefixCode scancode = false ∧ s.prefixed = false ∧ isRelease scancode = false ∧
    i8042UnshiftedChar (keyOf scancode) ≠ 0

/-- A code without a prefix of a shift key, or one that presses caps lock. -/
def Keys.Modifies (s : Keys) (scancode : Byte) : Prop :=
  isPrefixCode scancode = false ∧ s.prefixed = false ∧
    (keyOf scancode = 0x2A ∨ keyOf scancode = 0x36 ∨
      keyOf scancode = 0x3A ∧ isRelease scancode = false)

/-- The character that the key should give. -/
def Keys.character (s : Keys) (scancode : Byte) : Byte :=
  let shifted := if asciiIsAlpha (i8042UnshiftedChar (keyOf scancode)) then s.held ^^ s.caps
    else s.held
  if shifted then i8042ShiftedChar (keyOf scancode) else i8042UnshiftedChar (keyOf scancode)

/-! ## Both together -/

/-- The driver, and the keys beside it. -/
structure Typing where
  keyboard : Keyboard
  keys : Keys

/-- A scancode, a character from another backend, or a reader that takes one. -/
inductive InputEvent
  | scancode (scancode : Byte)
  | char (ch : Byte)
  | read

def Typing.step (t : Typing) : InputEvent → Typing
  | .scancode scancode => ⟨t.keyboard.processScancode scancode, t.keys.next scancode⟩
  | .char ch => { t with keyboard.queue := inputPush t.keyboard.queue ch }
  | .read =>
    if h : t.keyboard.queue.buffered ≠ 0 then
      { t with keyboard.queue := t.keyboard.queue.pop h }
    else t

theorem inputQueue_pos : 0 < 256 := by decide

/-- After `input_init`, with no key held. -/
def Typing.init : Typing where
  keyboard := ⟨false, false, false, Ring.empty 0 inputQueue_pos⟩
  keys := ⟨false, false, false, false, false⟩

/-- A code is handled as the keys ask. -/
structure Handled (t : Typing) (scancode : Byte) : Prop where
  prints : t.keys.Prints scancode → (t.keyboard.processScancode scancode).queue.contents
    = t.keyboard.queue.contents ++ [t.keys.character scancode]
  silent : ¬t.keys.Prints scancode →
    (t.keyboard.processScancode scancode).queue = t.keyboard.queue
  modifiers : ¬t.keys.Modifies scancode →
    (t.keyboard.processScancode scancode).shift = t.keyboard.shift ∧
      (t.keyboard.processScancode scancode).capsLock = t.keyboard.capsLock

/-- The queue has room for the character, and a masked shift key does not matter to it. -/
def Clear (t : Typing) (scancode : Byte) : Prop :=
  t.keyboard.queue.buffered < 256 ∧ (t.keys.masked = true →
    i8042UnshiftedChar (keyOf scancode) = i8042ShiftedChar (keyOf scancode))

/-- The flags are those of the keys, but for the shift flag while it is masked. -/
structure Tracks (t : Typing) : Prop where
  shift : t.keyboard.shift = (t.keys.held && !t.keys.masked)
  masked : t.keys.masked = true → t.keys.held = true
  caps : t.keyboard.capsLock = t.keys.caps
  prefixed : t.keyboard.extendedPrefix = t.keys.prefixed

variable {t : Typing} {k : Keyboard} {scancode : Byte}

theorem Tracks.next (h : Tracks t) (scancode : Byte) : Tracks (t.step (.scancode scancode)) := by
  obtain ⟨hshift, hmasked, hcaps, hprefixed⟩ := h
  unfold Typing.step Keyboard.processScancode Keys.next
  dsimp only
  rw [hprefixed]
  split
  · exact ⟨hshift, hmasked, hcaps, rfl⟩
  split
  · exact ⟨hshift, hmasked, hcaps, rfl⟩
  by_cases hl : keyOf scancode = 0x2A
  · rw [if_pos (Or.inl hl), if_pos hl]
    refine ⟨?_, ?_, hcaps, rfl⟩ <;> cases isRelease scancode <;> simp [Keys.held]
  by_cases hr : keyOf scancode = 0x36
  · rw [if_pos (Or.inr hr), if_neg hl, if_pos hr]
    refine ⟨?_, ?_, hcaps, rfl⟩ <;> cases isRelease scancode <;> simp [Keys.held]
  rw [if_neg (not_or.mpr ⟨hl, hr⟩), if_neg hl, if_neg hr]
  split
  · exact ⟨hshift, hmasked, congrArg (!·) hcaps, rfl⟩
  split
  · exact ⟨hshift, hmasked, hcaps, hprefixed⟩
  split
  · exact ⟨hshift, hmasked, hcaps, hprefixed⟩
  · exact ⟨hshift, hmasked, hcaps, rfl⟩

theorem run_tracks (events : List InputEvent) : Tracks (run Typing.step .init events) := by
  refine run_invariant (fun t event h => ?_) events ⟨rfl, by simp [Typing.init], rfl, rfl⟩
  cases event with
  | scancode scancode => exact h.next scancode
  | char ch => exact ⟨h.shift, h.masked, h.caps, h.prefixed⟩
  | read =>
    unfold Typing.step
    dsimp only
    split
    · exact ⟨h.shift, h.masked, h.caps, h.prefixed⟩
    · exact h

/-! ## One code -/

/-- The table of the shifted characters has the capital letters. -/
theorem asciiToUpper_unshifted : ∀ code : Byte, asciiIsAlpha (i8042UnshiftedChar code) = true →
    asciiToUpper (i8042UnshiftedChar code) = i8042ShiftedChar code := by
  decide +kernel

theorem shifted_ne_zero : ∀ code : Byte, i8042UnshiftedChar code ≠ 0 →
    i8042ShiftedChar code ≠ 0 := by
  decide +kernel

/-- The keys of the modifiers have no character. -/
theorem unshifted_modifier : ∀ code : Byte, code = 0x2A ∨ code = 0x36 ∨ code = 0x3A →
    i8042UnshiftedChar code = 0 := by
  decide +kernel

/-- The driver shifts a character by its own flag. -/
theorem translateChar_eq (hchar : i8042UnshiftedChar scancode ≠ 0) : k.translateChar scancode =
    if (if asciiIsAlpha (i8042UnshiftedChar scancode) then k.shift ^^ k.capsLock else k.shift)
    then i8042ShiftedChar scancode else i8042UnshiftedChar scancode := by
  unfold Keyboard.translateChar
  rw [if_neg hchar]
  cases halpha : asciiIsAlpha (i8042UnshiftedChar scancode) with
  | false => rfl
  | true => rw [asciiToUpper_unshifted scancode halpha]; rfl

theorem translateChar_ne_zero (hchar : i8042UnshiftedChar scancode ≠ 0) :
    k.translateChar scancode ≠ 0 := by
  rw [translateChar_eq hchar]
  generalize (if asciiIsAlpha _ then _ else _) = shifted
  split
  · exact shifted_ne_zero scancode hchar
  · exact hchar

/-- A key with a character puts it into the queue, and the shift flag decides which one. -/
theorem Tracks.press_iff (h : Tracks t) (hprints : t.keys.Prints scancode) :
    (t.keyboard.processScancode scancode).queue.contents
      = t.keyboard.queue.contents ++ [t.keys.character scancode] ↔ Clear t scancode := by
  obtain ⟨hcode, hprefixed, hpressed, hchar⟩ := hprints
  have hkey := fun hkey => hchar (unshifted_modifier (keyOf scancode) hkey)
  have hright : t.keyboard.translateChar (keyOf scancode) = t.keys.character scancode ↔
      (t.keys.masked = true →
        i8042UnshiftedChar (keyOf scancode) = i8042ShiftedChar (keyOf scancode)) := by
    rw [translateChar_eq hchar, Keys.character, h.shift, h.caps]
    cases hmasked : t.keys.masked with
    | false => simp
    | true =>
      rw [h.masked hmasked]
      cases asciiIsAlpha (i8042UnshiftedChar (keyOf scancode)) <;> cases t.keys.caps <;>
        simp [eq_comm]
  unfold Keyboard.processScancode Clear
  rw [if_neg (by simp [hcode]), if_neg (by simp [h.prefixed, hprefixed]),
    if_neg fun hk => hkey (hk.imp_right Or.inl), if_neg fun hk => hkey (Or.inr (Or.inr hk.1)),
    if_neg (by simp [hpressed]), if_neg (translateChar_ne_zero hchar), ← hright, inputPush]
  split
  next hroom => simp [Ring.contents_push _ _ hroom, hroom]
  next hfull => simp [hfull]

/-- Every other code leaves the queue alone. -/
theorem Tracks.silent (h : Tracks t) (hprints : ¬t.keys.Prints scancode) :
    (t.keyboard.processScancode scancode).queue = t.keyboard.queue := by
  unfold Keyboard.processScancode
  rw [h.prefixed]
  split
  · rfl
  next hcode =>
  split
  · rfl
  next hprefixed =>
  split
  · rfl
  split
  · rfl
  split
  · rfl
  next hpressed =>
    refine congrArg Keyboard.queue (if_pos (if_pos (not_not.mp fun hchar => hprints ?_)))
    exact ⟨by simpa using hcode, by simpa using hprefixed, by simpa using hpressed, hchar⟩

/-- Only the modifiers change the flags. -/
theorem Tracks.modifiers (h : Tracks t) (hmodifies : ¬t.keys.Modifies scancode) :
    (t.keyboard.processScancode scancode).shift = t.keyboard.shift ∧
      (t.keyboard.processScancode scancode).capsLock = t.keyboard.capsLock := by
  unfold Keyboard.processScancode
  rw [h.prefixed]
  split
  · exact ⟨rfl, rfl⟩
  next hcode =>
  split
  · exact ⟨rfl, rfl⟩
  next hprefixed =>
  rw [Bool.not_eq_true] at hcode hprefixed
  split
  next hk => exact absurd ⟨hcode, hprefixed, hk.imp_right Or.inl⟩ hmodifies
  split
  next hk => exact absurd ⟨hcode, hprefixed, Or.inr (Or.inr hk)⟩ hmodifies
  split
  · exact ⟨rfl, rfl⟩
  dsimp only
  split
  · exact ⟨rfl, rfl⟩
  · exact ⟨rfl, rfl⟩

/-! ## Every sequence -/

/-- **A code is handled as the keys ask exactly if** it gives no character, or the queue has room
and no shift key was let go under the other one, where that makes a difference. -/
theorem scancode_handled_iff (events : List InputEvent) (scancode : Byte) :
    Handled (run Typing.step .init events) scancode ↔
      ((run Typing.step .init events).keys.Prints scancode →
        Clear (run Typing.step .init events) scancode) := by
  have h := run_tracks events
  constructor
  · intro hh hprints
    exact (h.press_iff hprints).mp (hh.prints hprints)
  · intro hclear
    exact ⟨fun hprints => (h.press_iff hprints).mpr (hclear hprints), h.silent, h.modifiers⟩

/-- Both shift keys down, the left one up: the key A gives a small letter though the right
shift key is held. -/
theorem scancode_forgets_shift :
    let t := run Typing.step .init [.scancode 0x2A, .scancode 0x36, .scancode 0xAA]
    t.keys.right = true ∧ t.keys.caps = false ∧ t.keys.character 0x1E = 0x41 ∧
      (t.keyboard.processScancode 0x1E).queue.contents = [0x61] := by
  decide +kernel

end Riverix.Drivers
