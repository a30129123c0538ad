import Mathlib.Logic.Function.Basic
import Mathlib.Data.Nat.Basic

/-!
# Bitmaps over an array of words

A bitmap is an array of `w`-bit words; member `i` is bit `i % w` of word
`i / w`. The three operations are the usual mask idioms: test with `&`, mark
with `|`, clear with `& ~`. `test_mark` and `test_clear` say that they are the
membership test, insertion and removal of a set of numbers, for every width;
`markRange` and `clearRange` are the loops that mark a run of members.
-/

namespace Riverix.Lib

/-- An array of `w`-bit words, one bit a member. -/
abbrev Bitmap (w : Nat) := Nat → BitVec w

namespace Bitmap

variable {w : Nat} {bm : Bitmap w} {i j start count : Nat}

/-- The single-bit mask of member `i` inside its word. -/
def mask (w i : Nat) : BitVec w := 1#w <<< (i % w)

/-- Is member `i` set? -/
def test (bm : Bitmap w) (i : Nat) : Bool := (bm (i / w) &&& mask w i) != 0#w

/-- Set member `i`. -/
def mark (bm : Bitmap w) (i : Nat) : Bitmap w :=
  Function.update bm (i / w) (bm (i / w) ||| mask w i)

/-- Clear member `i`. -/
def clear (bm : Bitmap w) (i : Nat) : Bitmap w :=
  Function.update bm (i / w) (bm (i / w) &&& ~~~mask w i)

theorem getLsbD_mask (hw : 0 < w) (i k : Nat) (hk : k < w) :
    (mask w i).getLsbD k = decide (i % w = k) := by
  unfold mask
  rw [BitVec.getLsbD_shiftLeft, BitVec.getLsbD_one]
  by_cases hik : i % w = k
  · simp [hik, hk]; omega
  · by_cases hlt : k < i % w
    · simp [hlt, hik]
    · have : ¬ k - i % w = 0 := by omega
      simp [hik, this]

/-- The mask test reads exactly one bit. -/
theorem test_eq_getLsbD (hw : 0 < w) (bm : Bitmap w) (i : Nat) :
    bm.test i = (bm (i / w)).getLsbD (i % w) := by
  have him : i % w < w := Nat.mod_lt i hw
  rw [Bool.eq_iff_iff]
  unfold test
  rw [bne_iff_ne]
  constructor
  · intro hne
    by_contra hbit
    apply hne
    apply BitVec.eq_of_getLsbD_eq
    intro k hk
    rw [BitVec.getLsbD_and, getLsbD_mask hw i k hk]
    by_cases hik : i % w = k
    · subst hik; simp at hbit; simp [hbit]
    · simp [hik]
  · intro hbit hz
    have h := congrArg (fun v => v.getLsbD (i % w)) hz
    simp only [BitVec.getLsbD_and, getLsbD_mask hw i _ him, hbit] at h
    simp at h

theorem div_mod_inj (h₁ : i / w = j / w) (h₂ : i % w = j % w) : i = j := by
  rw [← Nat.div_add_mod i w, ← Nat.div_add_mod j w, h₁, h₂]

/-- Marking is insertion. -/
theorem test_mark (hw : 0 < w) (bm : Bitmap w) (i j : Nat) :
    (bm.mark i).test j = (decide (j = i) || bm.test j) := by
  have hjm : j % w < w := Nat.mod_lt j hw
  rw [test_eq_getLsbD hw, test_eq_getLsbD hw, mark]
  by_cases hq : j / w = i / w
  · rw [hq, Function.update_self, BitVec.getLsbD_or, getLsbD_mask hw i _ hjm, Bool.or_comm]
    congr 1
    rw [decide_eq_decide]
    exact ⟨fun hr => div_mod_inj hq hr.symm, fun h => by rw [h]⟩
  · rw [Function.update_of_ne hq]
    have hne : j ≠ i := fun h => hq (by rw [h])
    simp [hne]

/-- Clearing is removal. -/
theorem test_clear (hw : 0 < w) (bm : Bitmap w) (i j : Nat) :
    (bm.clear i).test j = (!decide (j = i) && bm.test j) := by
  have hjm : j % w < w := Nat.mod_lt j hw
  rw [test_eq_getLsbD hw, test_eq_getLsbD hw, clear]
  by_cases hq : j / w = i / w
  · rw [hq, Function.update_self, BitVec.getLsbD_and, BitVec.getLsbD_not,
      getLsbD_mask hw i _ hjm, Bool.and_comm]
    congr 1
    simp only [hjm, decide_true, Bool.true_and]
    congr 1
    rw [decide_eq_decide]
    exact ⟨fun hr => div_mod_inj hq hr.symm, fun h => by rw [h]⟩
  · rw [Function.update_of_ne hq]
    have hne : j ≠ i := fun h => hq (by rw [h])
    simp [hne]

/-! ## Runs of members -/

/-- Set the members `start`, `start + 1`, …, `count` of them. -/
def markRange (bm : Bitmap w) (start : Nat) : Nat → Bitmap w
  | 0 => bm
  | count + 1 => (markRange bm start count).mark (start + count)

/-- Clear the members `start`, `start + 1`, …, `count` of them. -/
def clearRange (bm : Bitmap w) (start : Nat) : Nat → Bitmap w
  | 0 => bm
  | count + 1 => (clearRange bm start count).clear (start + count)

theorem test_markRange (hw : 0 < w) (bm : Bitmap w) (start count j : Nat) :
    (bm.markRange start count).test j
      = (decide (start ≤ j ∧ j < start + count) || bm.test j) := by
  induction count with
  | zero =>
    have : ¬(start ≤ j ∧ j < start + 0) := by omega
    rw [markRange, decide_eq_false this, Bool.false_or]
  | succ count ih =>
    rw [markRange, test_mark hw, ih, ← Bool.or_assoc]
    congr 1
    rw [Bool.eq_iff_iff]
    simp only [Bool.or_eq_true, decide_eq_true_eq]
    omega

theorem test_clearRange (hw : 0 < w) (bm : Bitmap w) (start count j : Nat) :
    (bm.clearRange start count).test j
      = (!decide (start ≤ j ∧ j < start + count) && bm.test j) := by
  induction count with
  | zero =>
    have : ¬(start ≤ j ∧ j < start + 0) := by omega
    rw [clearRange, decide_eq_false this, Bool.not_false, Bool.true_and]
  | succ count ih =>
    rw [clearRange, test_clear hw, ih, ← Bool.and_assoc]
    congr 1
    rw [Bool.eq_iff_iff]
    simp only [Bool.and_eq_true, Bool.not_eq_true', decide_eq_false_iff_not]
    omega

/-! ## Equality -/

/-- A bitmap is the set of its members. -/
theorem ext_test {bm' : Bitmap w} (hw : 0 < w) (h : ∀ i, bm.test i = bm'.test i) : bm = bm' := by
  funext q
  refine BitVec.eq_of_getLsbD_eq fun k hk => ?_
  have hq := h (w * q + k)
  rw [test_eq_getLsbD hw, test_eq_getLsbD hw, Nat.mul_add_div hw, Nat.div_eq_of_lt hk,
    Nat.mul_add_mod, Nat.mod_eq_of_lt hk] at hq
  exact hq

/-- Clearing undoes the marking of a member that was not set. -/
theorem clear_mark (hw : 0 < w) (h : bm.test i = false) : (bm.mark i).clear i = bm := by
  refine ext_test hw fun j => ?_
  rw [test_clear hw, test_mark hw]
  by_cases hj : j = i
  · subst hj
    simp [h]
  · simp [hj]

/-- Clearing undoes the marking of a run that was not set. -/
theorem clearRange_markRange (hw : 0 < w)
    (h : ∀ j, start ≤ j → j < start + count → bm.test j = false) :
    (bm.markRange start count).clearRange start count = bm := by
  refine ext_test hw fun j => ?_
  rw [test_clearRange hw, test_markRange hw]
  by_cases hj : start ≤ j ∧ j < start + count
  · rw [h j hj.1 hj.2]
    simp [hj]
  · simp [hj]

end Bitmap

end Riverix.Lib
