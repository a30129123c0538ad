import Mathlib.Data.Nat.Bitwise

/-!
# Masks of a machine word

A page-table entry, like many packed words, is a frame number above `k` flag
bits. These lemmas turn the masks that take such a word apart and put it
together (`x &&& low`, `x &&& high`, `base ||| flags`) into division, remainder
and addition, so that the rest is linear arithmetic.
-/

namespace Riverix.Lib

/-- The low mask is the remainder. -/
theorem and_low_mask (x k : Nat) : x &&& (2 ^ k - 1) = x % 2 ^ k :=
  Nat.and_two_pow_sub_one_eq_mod x k

/-- The high mask of a `w`-bit word clears the low `k` bits. -/
theorem and_high_mask {x w k : Nat} (hx : x < 2 ^ w) (hk : k ≤ w) :
    x &&& (2 ^ w - 2 ^ k) = x / 2 ^ k * 2 ^ k := by
  have hmask : 2 ^ w - 2 ^ k = (2 ^ (w - k) - 1) * 2 ^ k := by
    rw [Nat.sub_mul, one_mul, ← pow_add, Nat.sub_add_cancel hk]
  rw [hmask]
  apply Nat.eq_of_testBit_eq
  intro i
  rw [Nat.testBit_and, Nat.testBit_mul_two_pow, Nat.testBit_mul_two_pow,
    Nat.testBit_two_pow_sub_one, Nat.testBit_div_two_pow]
  by_cases hi : k ≤ i
  · have hadd : i - k + k = i := Nat.sub_add_cancel hi
    rw [hadd]
    by_cases hiw : i < w
    · have : i - k < w - k := by omega
      simp [hi, this]
    · -- past the word both sides are zero
      have hz : x.testBit i = false :=
        Nat.testBit_lt_two_pow (lt_of_lt_of_le hx (Nat.pow_le_pow_right (by decide) (by omega)))
      simp [hz]
  · simp [hi]

/-- A mask of flag bits only sees the low `k` bits. -/
theorem and_flags {f k : Nat} (x : Nat) (hf : f < 2 ^ k) : x &&& f = x % 2 ^ k &&& f := by
  have hself : (2 ^ k - 1) &&& f = f := by
    rw [Nat.and_comm, and_low_mask, Nat.mod_eq_of_lt hf]
  rw [← and_low_mask, Nat.and_assoc, hself]

/-- Or-ing flags into an aligned word adds them. -/
theorem or_flags {f k : Nat} (q : Nat) (hf : f < 2 ^ k) : q * 2 ^ k ||| f = q * 2 ^ k + f := by
  rw [Nat.mul_comm, ← Nat.two_pow_add_eq_or_of_lt hf]

/-- A one-bit flag test is a bit test. -/
theorem and_bit_ne_zero (x i : Nat) : x &&& 2 ^ i ≠ 0 ↔ x.testBit i = true := by
  rw [Nat.and_two_pow]
  cases x.testBit i <;> simp

/-- All bits of a mask are set. -/
theorem and_eq_mask_iff (x a : Nat) :
    x &&& a = a ↔ ∀ i, a.testBit i = true → x.testBit i = true := by
  constructor
  · intro h i hi
    have hb : (x &&& a).testBit i = true := by rw [h, hi]
    rw [Nat.testBit_and, Bool.and_eq_true] at hb
    exact hb.1
  · intro h
    apply Nat.eq_of_testBit_eq
    intro i
    rw [Nat.testBit_and]
    cases ha : a.testBit i with
    | false => simp
    | true => simp [h i ha]

/-- A test for several flags at once is the test for each. -/
theorem and_or_eq_mask_iff (x a b : Nat) :
    x &&& (a ||| b) = (a ||| b) ↔ x &&& a = a ∧ x &&& b = b := by
  simp only [and_eq_mask_iff, Nat.testBit_or, Bool.or_eq_true]
  constructor
  · intro h
    exact ⟨fun i hi => h i (Or.inl hi), fun i hi => h i (Or.inr hi)⟩
  · rintro ⟨h1, h2⟩ i (hi | hi)
    · exact h1 i hi
    · exact h2 i hi

theorem and_bit_eq_iff (x i : Nat) : x &&& 2 ^ i = 2 ^ i ↔ x &&& 2 ^ i ≠ 0 := by
  have hpos := Nat.two_pow_pos i
  rw [Nat.and_two_pow]
  cases x.testBit i <;> simp [hpos.ne]

/-- A word of `k` bits stays one under a mask. -/
theorem and_lt_two_pow {x y k : Nat} (hx : x < 2 ^ k) : x &&& y < 2 ^ k :=
  lt_of_le_of_lt Nat.and_le_left hx

end Riverix.Lib
