import Mathlib.Data.List.DropRight
import Riverix.Lib.Store

/-!
# Texts in memory

A text is a run of bytes in a store that ends with a zero byte. Code walks over it with a
cursor (`skipWhile`, `skipBack`) and cuts it by storing zero bytes. `Holds` says which text
starts at an address; a walk is then `dropWhile` on the text, a cut is taking it apart
(`Holds.cut`), and a text is unaffected by stores outside of it (`Holds.congr`).
-/

namespace Riverix.Lib

namespace Store

variable {m m' : Store} {a n : Nat} {p : Byte → Bool} {text rest : List Byte}

/-- At `a` stands this text, and then a zero byte. -/
def Holds (m : Store) : Nat → List Byte → Prop
  | a, [] => m a = 0
  | a, b :: text => b ≠ 0 ∧ m a = b ∧ m.Holds (a + 1) text

/-- `while (p(*cursor)) cursor++`, at most `n` times. -/
def skipWhile (m : Store) (p : Byte → Bool) : Nat → Nat → Nat
  | 0, a => a
  | n + 1, a => if p (m a) then m.skipWhile p n (a + 1) else a

/-- `while (end > low && p(end[-1])) end--` -/
def skipBack (m : Store) (p : Byte → Bool) (low : Nat) : Nat → Nat
  | 0 => 0
  | n + 1 => if low < n + 1 ∧ p (m n) then m.skipBack p low n else n + 1

/-- The text at `a`, up to `n` bytes of it. -/
def textAt (m : Store) : Nat → Nat → List Byte
  | 0, _ => []
  | n + 1, a => if m a = 0 then [] else m a :: m.textAt n (a + 1)

theorem Holds.append (h : m.Holds a (text ++ rest)) : m.Holds (a + text.length) rest := by
  induction text generalizing a with
  | nil => exact h
  | cons b text ih =>
    rw [List.length_cons, show a + (text.length + 1) = a + 1 + text.length by omega]
    exact ih h.2.2

theorem Holds.nonzero (h : m.Holds a text) : ∀ b ∈ text, b ≠ 0 := by
  induction text generalizing a with
  | nil => exact fun b hb => absurd hb List.not_mem_nil
  | cons c text ih =>
    intro b hb
    rcases List.mem_cons.mp hb with rfl | hb
    · exact h.1
    · exact ih h.2.2 b hb

/-- Two stores that agree on the text and its zero byte. -/
theorem Holds.congr (h : m.Holds a text) (hm : ∀ x, a ≤ x → x ≤ a + text.length → m' x = m x) :
    m'.Holds a text := by
  induction text generalizing a with
  | nil => exact (hm a le_rfl le_rfl).trans h
  | cons b text ih =>
    refine ⟨h.1, (hm a le_rfl (by omega)).trans h.2.1, ih h.2.2 fun x hx hle => hm x (by omega) ?_⟩
    rw [List.length_cons]
    omega

/-- Bytes with a zero byte behind them hold the text up to the first zero byte. -/
theorem holds_write (m : Store) (a : Nat) (bytes : List Byte) :
    (m.write a (bytes ++ [0])).Holds a (bytes.takeWhile (· != 0)) := by
  induction bytes generalizing m a with
  | nil => exact write_inside (k := 0) Nat.one_pos
  | cons b bytes ih =>
    have hfirst : m.write a (b :: bytes ++ [0]) a = b :=
      write_inside (k := 0) (Nat.succ_pos _)
    by_cases hb : b = 0
    · rw [List.takeWhile_cons_of_neg (by simp [hb])]
      exact hfirst.trans hb
    · rw [List.takeWhile_cons_of_pos (p := (· != 0)) (bne_iff_ne.mpr hb)]
      refine ⟨hb, hfirst, ?_⟩
      rw [List.cons_append, write_cons]
      exact ih _ _

theorem holds_zero_iff (h : m.Holds a text) : m a = 0 ↔ text = [] := by
  cases text with
  | nil => exact ⟨fun _ => rfl, fun _ => h⟩
  | cons b text => exact ⟨fun h0 => absurd (h.2.1.symm.trans h0) h.1, fun h0 => absurd h0 (by simp)⟩

/-- A text is cut in two by a zero byte in the place of `b`. -/
theorem Holds.cut {b : Byte} (h : m.Holds a (text ++ b :: rest)) :
    Holds (Function.update m (a + text.length) 0) a text ∧
      Holds (Function.update m (a + text.length) 0) (a + text.length + 1) rest := by
  have hrest := h.append
  constructor
  · induction text generalizing a with
    | nil =>
      show Function.update m (a + 0) 0 a = 0
      exact Function.update_self ..
    | cons c text ih =>
      have ha : a ≠ a + (c :: text).length := by
        rw [List.length_cons]
        omega
      refine ⟨h.1, (Function.update_of_ne ha ..).trans h.2.1, ?_⟩
      have htail := ih h.2.2 h.2.2.append
      rwa [show a + 1 + text.length
        = a + (c :: text).length by rw [List.length_cons]; omega] at htail
  · refine Holds.congr hrest.2.2 fun x hx _ => Function.update_of_ne (by omega) ..

/-- A text is shortened by a zero byte. -/
theorem Holds.shorten (h : m.Holds a (text ++ rest)) :
    Holds (Function.update m (a + text.length) 0) a text := by
  cases rest with
  | nil =>
    rw [List.append_nil] at h
    have hend : m (a + text.length) = 0 := by
      have hrest : m.Holds (a + text.length) [] := Holds.append (by rwa [List.append_nil])
      exact hrest
    rw [← hend, Function.update_eq_self]
    exact h
  | cons b rest => exact h.cut.1

theorem skipWhile_holds (h : m.Holds a text) (hp : p 0 = false) (hn : text.length ≤ n) :
    m.skipWhile p n a = a + (text.takeWhile p).length ∧
      m.Holds (m.skipWhile p n a) (text.dropWhile p) := by
  have hend : m.skipWhile p n a = a + (text.takeWhile p).length := by
    induction text generalizing a n with
    | nil =>
      cases n with
      | zero => rfl
      | succ n =>
        have h0 : m a = 0 := h
        rw [skipWhile, h0, hp]
        rfl
    | cons b text ih =>
      cases n with
      | zero => simp at hn
      | succ n =>
        rw [skipWhile, h.2.1, List.takeWhile_cons]
        split
        · rw [ih h.2.2 (by rw [List.length_cons] at hn; omega), List.length_cons]
          omega
        · rfl
  refine ⟨hend, ?_⟩
  rw [hend]
  have hsplit : m.Holds a (text.takeWhile p ++ text.dropWhile p) := by
    rw [List.takeWhile_append_dropWhile]
    exact h
  exact hsplit.append

theorem takeWhile_nonzero (h : ∀ b ∈ text, b ≠ 0) :
    text.takeWhile (fun b => b != 0 && p b) = text.takeWhile p ∧
      text.dropWhile (fun b => b != 0 && p b) = text.dropWhile p := by
  induction text with
  | nil => exact ⟨rfl, rfl⟩
  | cons b text ih =>
    obtain ⟨htake, hdrop⟩ := ih fun c hc => h c (List.mem_cons_of_mem b hc)
    have hb : (b != 0 && p b) = p b := by
      rw [bne_iff_ne.mpr (h b List.mem_cons_self), Bool.true_and]
    rw [List.takeWhile_cons, List.takeWhile_cons, List.dropWhile_cons, List.dropWhile_cons,
      hb, htake, hdrop]
    exact ⟨rfl, rfl⟩

/-- A walk that also stops at the end of the text. -/
theorem skipText_holds (h : m.Holds a text) (hn : text.length ≤ n) :
    m.skipWhile (fun b => b != 0 && p b) n a = a + (text.takeWhile p).length ∧
      m.Holds (m.skipWhile (fun b => b != 0 && p b) n a) (text.dropWhile p) := by
  have hwalk := skipWhile_holds (p := fun b => b != 0 && p b) h (by simp) hn
  rw [(takeWhile_nonzero h.nonzero).1, (takeWhile_nonzero h.nonzero).2] at hwalk
  exact hwalk

/-- The text is cut where such a walk stops. -/
theorem Holds.cutWhile {b : Byte} (h : m.Holds a text) (hrest : text.dropWhile p = b :: rest) :
    Holds (Function.update m (a + (text.takeWhile p).length) 0) a (text.takeWhile p) ∧
      Holds (Function.update m (a + (text.takeWhile p).length) 0)
        (a + (text.takeWhile p).length + 1) rest := by
  refine Holds.cut (b := b) ?_
  rw [← hrest, List.takeWhile_append_dropWhile]
  exact h

theorem Holds.read (h : m.Holds a text) : m.read a text.length = text := by
  induction text generalizing a with
  | nil => rfl
  | cons b text ih => rw [List.length_cons, read_succ, h.2.1, ih h.2.2]

theorem skipBack_read (h : m.read a text.length = text) :
    m.skipBack p a (a + text.length) = a + (text.rdropWhile p).length := by
  induction text using List.reverseRecOn with
  | nil =>
    rw [List.rdropWhile_nil, List.length_nil]
    cases a with
    | zero => rfl
    | succ a =>
      show m.skipBack p (a + 1) (a + 1) = a + 1
      rw [skipBack, if_neg (by omega)]
  | append_singleton text b ih =>
    rw [List.length_append, List.length_singleton, read_add] at h
    obtain ⟨htext, hb⟩ := List.append_inj h (by rw [read_length])
    replace hb : m (a + text.length) = b := List.head_eq_of_cons_eq hb
    rw [List.rdropWhile_concat, List.length_append, List.length_singleton,
      ← Nat.add_assoc, skipBack, hb]
    by_cases hpb : p b = true
    · rw [if_pos ⟨by omega, hpb⟩, if_pos hpb, ih htext]
    · rw [if_neg fun h => hpb h.2, if_neg hpb, List.length_append, List.length_singleton]
      rfl

theorem textAt_holds (h : m.Holds a text) (hn : text.length ≤ n) : m.textAt n a = text := by
  induction text generalizing a n with
  | nil =>
    cases n with
    | zero => rfl
    | succ n => exact if_pos h
  | cons b text ih =>
    cases n with
    | zero => simp at hn
    | succ n =>
      rw [textAt, h.2.1, if_neg h.1, ih h.2.2 (by rw [List.length_cons] at hn; omega)]

-- the bounds are large numbers in the uses, which must not be unfolded
attribute [irreducible] skipWhile skipBack textAt

end Store

end Riverix.Lib
