import Mathlib.Data.Finset.Card

/-!
# Counting references

Slots point to objects, or to nothing. `uses` is the number of slots that point to an
object: what a reference count has to be. The lemmas say how it changes when one slot is
filled or cleared.
-/

namespace Riverix.Lib

universe u v

variable {ι : Type u} {α : Type v} [DecidableEq α] {I : Finset ι} {g g' : ι → Option α}
  {i : ι} {a : α}

/-- The number of slots in `I` that point to `a`. -/
def uses (I : Finset ι) (g : ι → Option α) (a : α) : Nat := (I.filter fun i => g i = some a).card

theorem uses_eq_zero_iff : uses I g a = 0 ↔ ∀ i ∈ I, g i ≠ some a := by
  unfold uses
  rw [Finset.card_eq_zero, Finset.filter_eq_empty_iff]

theorem uses_pos (hi : i ∈ I) (hg : g i = some a) : 0 < uses I g a := by
  rw [Nat.pos_iff_ne_zero]
  intro h
  exact uses_eq_zero_iff.mp h i hi hg

variable [DecidableEq ι]

/-- A slot that pointed to nothing points to `a` now. -/
theorem uses_fill (hi : i ∈ I) (hg : g i = none) (b : α) :
    uses I (Function.update g i (some a)) b = uses I g b + if a = b then 1 else 0 := by
  unfold uses
  by_cases hab : a = b
  · subst hab
    have hset : (I.filter fun j => Function.update g i (some a) j = some a)
        = insert i (I.filter fun j => g j = some a) := by
      ext j
      by_cases hj : j = i
      · subst hj
        simp [hi]
      · simp [hj]
    rw [if_pos rfl, hset, Finset.card_insert_of_notMem (by simp [hg])]
  rw [if_neg hab, Nat.add_zero]
  refine congrArg Finset.card (Finset.filter_congr fun j _ => ?_)
  by_cases hj : j = i
  · subst hj
    simp [hg, hab]
  · rw [Function.update_of_ne hj]

/-- A slot that pointed to `a` points to nothing now. -/
theorem uses_clear (hi : i ∈ I) (hg : g i = some a) (b : α) :
    uses I (Function.update g i none) b + (if a = b then 1 else 0) = uses I g b := by
  have hback : Function.update (Function.update g i none) i (some a) = g := by
    rw [Function.update_idem, ← hg, Function.update_eq_self]
  rw [← uses_fill hi (Function.update_self i none g) b, hback]

end Riverix.Lib
