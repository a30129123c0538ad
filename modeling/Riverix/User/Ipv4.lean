import Riverix.Lib.Store
import Mathlib.Data.List.Basic

/-!
# Dotted quads (`ping.c`)

`parse_ipv4` walks the text with the octet read so far and the number of dots. It does not note
whether a digit was read, so an octet may be empty and counts as 0.

`parseLoop_eq_some` says what the walk leaves in terms of the pieces between the dots, for which
the grammar is easy to state. **`parseIpv4_exact_iff`**: a text is judged as the grammar asks
exactly if it is not four runs of digits with an empty one among them, and what `append_ipv4`
writes is always read back.
-/

namespace Riverix.User

open Riverix.Lib

/-- `.` -/
abbrev dot : Byte := 0x2E

def isDecimal (ch : Byte) : Bool := 0x30 ≤ ch.toNat && ch.toNat ≤ 0x39

/-! ## Parsing -/

/-- The loop of `parse_ipv4`: `value`, `octet` and `octet_count` at the end of the text. -/
def parseLoop : List Byte → Nat → Nat → Nat → Option (Nat × Nat × Nat)
  | [], value, octet, octetCount => some (value, octet, octetCount)
  | ch :: text, value, octet, octetCount =>
    if isDecimal ch then
      let octet := (octet * 10 + (ch.toNat - 0x30)) % 2 ^ 32
      if octet > 255 then none else parseLoop text value octet octetCount
    else if ch = dot then
      if octetCount ≥ 3 then none
      else parseLoop text (2 ^ 8 * value % 2 ^ 32 ||| octet) 0 (octetCount + 1)
    else none

/-- `parse_ipv4` -/
def parseIpv4 (text : List Byte) : Option Nat :=
  match parseLoop text 0 0 0 with
  | none => none
  | some (value, octet, octetCount) =>
    if octetCount ≠ 3 then none else some (2 ^ 8 * value % 2 ^ 32 ||| octet)

/-! ## Formatting -/

/-- `append_char`, for a buffer of `capacity` bytes that holds `text`. -/
def appendChar (capacity : Nat) (text : List Byte) (ch : Byte) : List Byte :=
  if text.length + 1 ≥ capacity then text else text ++ [ch]

/-- The first loop of `append_dec`: at most `room` digits, the last one first. -/
def decDigits : Nat → Nat → List Byte
  | 0, _ => []
  | room + 1, value =>
    if value = 0 then [] else BitVec.ofNat 8 (0x30 + value % 10) :: decDigits room (value / 10)

/-- `append_dec` -/
def appendDec (capacity : Nat) (text : List Byte) (value : Nat) : List Byte :=
  if value = 0 then appendChar capacity text 0x30
  else (decDigits 10 value).reverse.foldl (appendChar capacity) text

/-- `append_ipv4` -/
def appendIpv4 (capacity : Nat) (text : List Byte) (address : Nat) : List Byte :=
  let text := appendDec capacity text (address / 2 ^ 24 % 256)
  let text := appendDec capacity (appendChar capacity text dot) (address / 2 ^ 16 % 256)
  let text := appendDec capacity (appendChar capacity text dot) (address / 2 ^ 8 % 256)
  appendDec capacity (appendChar capacity text dot) (address % 256)

/-! ## The grammar -/

/-- The number that a run of digits denotes. -/
def decimalValue (digits : List Byte) : Nat :=
    digits.foldl (fun n ch => n * 10 + (ch.toNat - 0x30)) 0

/-- A run of digits, with a value of at most 255. -/
def IsOctet (piece : List Byte) : Prop := (∀ ch ∈ piece, isDecimal ch = true) ∧
    decimalValue piece ≤ 255

/-- Four octets and the address that they denote. -/
structure Quad (text : List Byte) (a b c d : List Byte) : Prop where
  pieces : text.splitOn dot = [a, b, c, d]
  octets : IsOctet a ∧ IsOctet b ∧ IsOctet c ∧ IsOctet d

def quadValue (a b c d : List Byte) : Nat :=
  ((decimalValue a * 256 + decimalValue b) * 256 + decimalValue c) * 256 + decimalValue d

/-- The text is the dotted quad of the address: four non-empty decimal numbers of at most 255. -/
def DottedQuad (text : List Byte) (address : Nat) : Prop :=
  ∃ a b c d, Quad text a b c d ∧ (a ≠ [] ∧ b ≠ [] ∧ c ≠ [] ∧ d ≠ []) ∧ address = quadValue a b c d

/-- Four octets, one of which is empty. -/
def HasEmptyOctet (text : List Byte) : Prop :=
  ∃ a b c d, Quad text a b c d ∧ (a = [] ∨ b = [] ∨ c = [] ∨ d = [])

/-! ## What is accepted -/

/-- The digits of a piece, after those read so far. -/
def addDigits (octet : Nat) (piece : List Byte) : Nat :=
  piece.foldl (fun n ch => n * 10 + (ch.toNat - 0x30)) octet

theorem le_addDigits (piece : List Byte) (octet : Nat) : octet ≤ addDigits octet piece := by
  induction piece generalizing octet with
  | nil => exact le_refl octet
  | cons ch piece ih => exact le_trans (by omega) (ih (octet * 10 + (ch.toNat - 0x30)))

/-- What the loop leaves in `value` and `octet` after the pieces that follow. -/
def joinOctets (value octet : Nat) : List (List Byte) → Nat × Nat
  | [] => (value, octet)
  | piece :: pieces => joinOctets (2 ^ 8 * value % 2 ^ 32 ||| octet) (decimalValue piece) pieces

/-- The loop reads the piece to its end, and so the pieces that follow. -/
structure Reads (piece : List Byte) (pieces : List (List Byte)) (value octet octetCount : Nat)
    (result : Nat × Nat × Nat) : Prop where
  digits : ∀ ch ∈ piece, isDecimal ch = true
  small : addDigits octet piece ≤ 255
  octets : ∀ next ∈ pieces, IsOctet next
  dots : octetCount + pieces.length ≤ 3
  left : (result.1, result.2.1) = joinOctets value (addDigits octet piece) pieces
  count : result.2.2 = octetCount + pieces.length

theorem parseLoop_eq_some (text : List Byte) : ∀ {piece : List Byte} {pieces : List (List Byte)}
    {value octet octetCount : Nat} {result : Nat × Nat × Nat}, text.splitOn dot = piece :: pieces →
    octet ≤ 255 → octetCount ≤ 3 → (parseLoop text value octet octetCount = some result ↔
      Reads piece pieces value octet octetCount result) := by
  induction text with
  | nil =>
    intro piece pieces value octet octetCount result hsplit ho hc
    rw [List.splitOn_nil, List.cons.injEq] at hsplit
    obtain ⟨rfl, rfl⟩ := hsplit
    constructor
    · intro h
      obtain rfl := Option.some.inj h
      exact ⟨by simp, ho, by simp, hc, rfl, rfl⟩
    · intro h
      exact congrArg some (Prod.ext (Prod.mk.inj h.left).1.symm
        (Prod.ext (Prod.mk.inj h.left).2.symm h.count.symm))
  | cons ch text ih =>
    intro piece pieces value octet octetCount result hsplit ho hc
    obtain ⟨next, rest, hnext⟩ := List.exists_cons_of_ne_nil (List.splitOnP_ne_nil (· == dot) text)
    have hnext : text.splitOn dot = next :: rest := hnext
    rw [List.splitOn_cons_eq_if_modifyHead, hnext] at hsplit
    unfold parseLoop
    by_cases hdot : ch = dot
    · -- the next piece begins
      rw [if_pos (by simp [hdot]), List.cons.injEq] at hsplit
      obtain ⟨rfl, rfl⟩ := hsplit
      rw [if_neg (by rw [hdot]; decide), if_pos hdot]
      split
      next hthree =>
        exact ⟨by simp, fun h => by have := h.dots; simp at this; omega⟩
      next hthree =>
      rw [ih hnext (Nat.zero_le _) (by omega)]
      constructor
      · rintro ⟨hd, hs, ho', hdots, hleft, hcount⟩
        refine ⟨by simp, ho, ?_, by simp; omega, hleft, by simp; omega⟩
        exact List.forall_mem_cons.mpr ⟨⟨hd, hs⟩, ho'⟩
      · rintro ⟨-, -, ho', hdots, hleft, hcount⟩
        obtain ⟨⟨hd, hs⟩, ho'⟩ := List.forall_mem_cons.mp ho'
        rw [List.length_cons] at hdots hcount
        exact ⟨hd, hs, ho', by omega, hleft, by omega⟩
    rw [if_neg (by simpa using hdot), List.modifyHead_cons, List.cons.injEq] at hsplit
    obtain ⟨rfl, rfl⟩ := hsplit
    dsimp only
    rw [Nat.mod_eq_of_lt (by omega), if_neg hdot]
    have hge := le_addDigits next (octet * 10 + (ch.toNat - 0x30))
    split
    next hdigit =>
      split
      next hbig =>
        refine ⟨by simp, fun h => ?_⟩
        have hsmall : addDigits (octet * 10 + (ch.toNat - 0x30)) next ≤ 255 := h.small
        omega
      next hfits =>
      rw [ih hnext (by omega) hc]
      constructor
      · rintro ⟨hd, hs, ho', hdots, hleft, hcount⟩
        exact ⟨List.forall_mem_cons.mpr ⟨hdigit, hd⟩, hs, ho', hdots, hleft, hcount⟩
      · rintro ⟨hd, hs, ho', hdots, hleft, hcount⟩
        exact ⟨(List.forall_mem_cons.mp hd).2, hs, ho', hdots, hleft, hcount⟩
    next hdigit =>
      exact ⟨by simp, fun h => absurd (h.digits ch List.mem_cons_self) hdigit⟩

theorem shift_or {value octet : Nat} (hv : value < 2 ^ 24) (ho : octet < 2 ^ 8) :
    2 ^ 8 * value % 2 ^ 32 ||| octet = value * 256 + octet := by
  rw [Nat.mod_eq_of_lt (by omega), ← Nat.two_pow_add_eq_or_of_lt ho]
  omega

/-- Four octets give the address. -/
theorem joinOctets_four {a b c d : List Byte}
    (h : IsOctet a ∧ IsOctet b ∧ IsOctet c ∧ IsOctet d) :
    2 ^ 8 * (joinOctets 0 (decimalValue a) [b, c, d]).1 % 2 ^ 32
      ||| (joinOctets 0 (decimalValue a) [b, c, d]).2 = quadValue a b c d := by
  obtain ⟨⟨-, ha⟩, ⟨-, hb⟩, ⟨-, hc⟩, ⟨-, hd⟩⟩ := h
  simp (disch := omega) only [joinOctets, quadValue, shift_or, Nat.zero_mul, Nat.zero_add]

/-- The texts that `parse_ipv4` accepts: four octets, empty ones included. -/
theorem parseIpv4_eq_some {text : List Byte} {address : Nat} : parseIpv4 text = some address ↔
    ∃ a b c d, Quad text a b c d ∧ address = quadValue a b c d := by
  unfold parseIpv4
  constructor
  · intro h
    obtain ⟨a, pieces, hsplit⟩ := List.exists_cons_of_ne_nil (List.splitOnP_ne_nil (· == dot) text)
    split at h
    · simp at h
    next value octet octetCount hread =>
    split at h
    · simp at h
    next hthree =>
    have hr := (parseLoop_eq_some text hsplit (Nat.zero_le _) (Nat.zero_le _)).mp hread
    have hlen : pieces.length = 3 := by
      have hcount : octetCount = 0 + pieces.length := hr.count
      omega
    obtain ⟨b, c, d, rfl⟩ := List.length_eq_three.mp hlen
    have ho : IsOctet a ∧ IsOctet b ∧ IsOctet c ∧ IsOctet d := by
      simpa [IsOctet] using And.intro (show IsOctet a from ⟨hr.digits, hr.small⟩) hr.octets
    refine ⟨a, b, c, d, ⟨hsplit, ho⟩, ?_⟩
    have hleft : (value, octet) = joinOctets 0 (decimalValue a) [b, c, d] := hr.left
    rw [← Option.some.inj h, ← joinOctets_four ho, ← hleft]
  · rintro ⟨a, b, c, d, ⟨hpieces, hoctets⟩, rfl⟩
    obtain ⟨p, hp⟩ : ∃ p, joinOctets 0 (decimalValue a) [b, c, d] = p := ⟨_, rfl⟩
    have hread : parseLoop text 0 0 0 = some (p.1, p.2, 3) :=
      (parseLoop_eq_some text hpieces (Nat.zero_le _) (Nat.zero_le _)).mpr
        ⟨hoctets.1.1, hoctets.1.2, by simpa using hoctets.2, le_refl 3, hp.symm, rfl⟩
    rw [hread, ← joinOctets_four hoctets, hp]
    rfl

/-! ## What is written -/

theorem foldl_appendChar {capacity : Nat} (chars : List Byte) : ∀ {text : List Byte},
    text.length + chars.length < capacity → chars.foldl (appendChar capacity) text
      = text ++ chars := by
  induction chars with
  | nil => exact fun _ => (List.append_nil _).symm
  | cons ch chars ih =>
    intro text hroom
    rw [List.length_cons] at hroom
    rw [List.foldl_cons, appendChar, if_neg (by omega), ih (by simp; omega), List.append_assoc]
    rfl

/-- What `append_dec` writes. -/
def decText (value : Nat) : List Byte := if value = 0 then [0x30] else (decDigits 10 value).reverse

theorem appendDec_eq {capacity : Nat} (text : List Byte) (value : Nat)
    (hroom : text.length + (decText value).length < capacity) :
    appendDec capacity text value = text ++ decText value := by
  unfold appendDec
  unfold decText at hroom ⊢
  split at hroom
  · rw [if_pos ‹_›, if_pos ‹_›]
    exact foldl_appendChar [0x30] hroom
  · rw [if_neg ‹_›, if_neg ‹_›]
    exact foldl_appendChar _ hroom

/-- An octet is written as one. -/
theorem decText_octet : ∀ value < 256, (decText value).length ≤ 3 ∧ dot ∉ decText value ∧
    (decText value).all isDecimal = true ∧ decimalValue (decText value) = value := by
  decide +kernel

theorem appendChar_eq {capacity : Nat} (text : List Byte) (ch : Byte)
    (hroom : text.length + 1 < capacity) : appendChar capacity text ch = text ++ [ch] :=
    if_neg (by omega)

/-- The four numbers that `append_ipv4` writes. -/
def quadPieces (address : Nat) : List (List Byte) :=
  [decText (address / 2 ^ 24 % 256), decText (address / 2 ^ 16 % 256),
    decText (address / 2 ^ 8 % 256), decText (address % 256)]

theorem appendIpv4_eq {capacity : Nat} {text : List Byte} (address : Nat)
    (hroom : text.length + 16 ≤ capacity) :
    appendIpv4 capacity text address = text ++ [dot].intercalate (quadPieces address) := by
  have hlen : ∀ n, (decText (n % 256)).length ≤ 3 :=
    fun n => (decText_octet _ (Nat.mod_lt n (by decide))).1
  have h₁ := hlen (address / 2 ^ 24)
  have h₂ := hlen (address / 2 ^ 16)
  have h₃ := hlen (address / 2 ^ 8)
  have h₄ := hlen address
  unfold appendIpv4 quadPieces
  generalize address / 2 ^ 24 % 256 = a at h₁ ⊢
  generalize address / 2 ^ 16 % 256 = b at h₂ ⊢
  generalize address / 2 ^ 8 % 256 = c at h₃ ⊢
  generalize address % 256 = d at h₄ ⊢
  dsimp only
  rw [appendDec_eq text _ (by omega), appendChar_eq (text ++ _) _ (by simp; omega),
    appendDec_eq (text ++ _ ++ _) _ (by simp; omega),
    appendChar_eq (text ++ _ ++ _ ++ _) _ (by simp; omega),
    appendDec_eq (text ++ _ ++ _ ++ _ ++ _) _ (by simp; omega),
    appendChar_eq (text ++ _ ++ _ ++ _ ++ _ ++ _) _ (by simp; omega),
    appendDec_eq _ _ (by simp; omega)]
  simp [List.intercalate]

theorem parse_quadPieces {address : Nat} (h : address < 2 ^ 32) :
    parseIpv4 ([dot].intercalate (quadPieces address)) = some address := by
  have hoctet : ∀ n, IsOctet (decText (n % 256)) ∧ dot ∉ decText (n % 256) ∧
      decimalValue (decText (n % 256)) = n % 256 := by
    intro n
    obtain ⟨-, hdot, hall, hvalue⟩ := decText_octet (n % 256) (Nat.mod_lt n (by decide))
    exact ⟨⟨List.all_eq_true.mp hall, by rw [hvalue]; omega⟩, hdot, hvalue⟩
  have hsplit : List.splitOn dot ([dot].intercalate (quadPieces address)) = quadPieces address := by
    refine List.splitOn_intercalate dot (fun piece hp => ?_) (by simp [quadPieces])
    simp only [quadPieces, List.mem_cons, List.not_mem_nil, or_false] at hp
    rcases hp with rfl | rfl | rfl | rfl <;> exact (hoctet _).2.1
  refine parseIpv4_eq_some.mpr ⟨_, _, _, _,
    ⟨hsplit, (hoctet _).1, (hoctet _).1, (hoctet _).1, (hoctet _).1⟩, ?_⟩
  unfold quadValue
  rw [(hoctet _).2.2, (hoctet _).2.2, (hoctet _).2.2, (hoctet _).2.2]
  omega

/-! ## The contract -/

/-- `parse_ipv4` accepts the text exactly if it is a dotted quad, with the address it denotes. -/
def ParsesExactly (text : List Byte) : Prop :=
  ∀ address, parseIpv4 text = some address ↔ DottedQuad text address

/-- **Parsing is exact except for empty octets**, and it undoes the formatting, in any buffer with
room for it. -/
theorem parseIpv4_exact_iff (text : List Byte) (address : UInt32) (before : List Byte)
    (room : Nat) :
    (ParsesExactly text ↔ ¬ HasEmptyOctet text) ∧
    ∃ quad, appendIpv4 (before.length + 16 + room) before address.toNat = before ++ quad ∧
      parseIpv4 quad = some address.toNat := by
  refine ⟨⟨?_, ?_⟩, _, appendIpv4_eq _ (by omega), parse_quadPieces address.toNat_lt⟩
  · rintro hexact ⟨a, b, c, d, hquad, hempty⟩
    obtain ⟨a', b', c', d', hquad', hfull, -⟩ :=
      (hexact _).mp (parseIpv4_eq_some.mpr ⟨a, b, c, d, hquad, rfl⟩)
    -- a text has only one list of pieces
    have heq := hquad.pieces.symm.trans hquad'.pieces
    simp only [List.cons.injEq, and_true] at heq
    obtain ⟨rfl, rfl, rfl, rfl⟩ := heq
    rcases hempty with h | h | h | h
    · exact hfull.1 h
    · exact hfull.2.1 h
    · exact hfull.2.2.1 h
    · exact hfull.2.2.2 h
  · intro hfull address
    rw [parseIpv4_eq_some]
    constructor
    · rintro ⟨a, b, c, d, hquad, hvalue⟩
      refine ⟨a, b, c, d, hquad, ⟨?_, ?_, ?_, ?_⟩, hvalue⟩ <;> intro he <;>
        exact hfull ⟨a, b, c, d, hquad, by simp [he]⟩
    · rintro ⟨a, b, c, d, hquad, -, hvalue⟩
      exact ⟨a, b, c, d, hquad, hvalue⟩

/-- `1..2.3` is read as `1.0.2.3`, and `...` as `0.0.0.0`. -/
theorem parseIpv4_accepts_empty_octet :
    parseIpv4 [0x31, 0x2E, 0x2E, 0x32, 0x2E, 0x33] = some 0x01000203 ∧
      ¬ DottedQuad [0x31, 0x2E, 0x2E, 0x32, 0x2E, 0x33] 0x01000203 ∧
      parseIpv4 [0x2E, 0x2E, 0x2E] = some 0 := by
  refine ⟨by decide, ?_, by decide⟩
  rintro ⟨a, b, c, d, ⟨hpieces, -⟩, ⟨-, hb, -⟩, -⟩
  have hsplit : List.splitOn dot [0x31, 0x2E, 0x2E, 0x32, 0x2E, 0x33]
      = [[0x31], [], [0x32], [0x33]] := by decide
  rw [hsplit] at hpieces
  simp only [List.cons.injEq] at hpieces
  exact hb hpieces.2.1.symm

end Riverix.User
