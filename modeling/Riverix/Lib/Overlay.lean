import Mathlib.Data.List.Basic

/-!
# Overlays

What a routine does to a buffer that it fills only in part: a pattern says for every cell what
is stored there, or that the cell keeps what it held. A front part of the result is the same
whatever the buffer held if and only if the pattern leaves no cell of that part alone
(`take_overlay_determined_iff`).
-/

namespace Riverix.Lib

variable {α : Type*} {p q : List (Option α)} {k : Nat}

/-- `some a` is stored, `none` keeps the old cell. -/
def overlay (pattern : List (Option α)) (old : List α) : List α :=
  List.zipWith (fun cell b => cell.getD b) pattern old

@[simp] theorem overlay_cons (cell : Option α) (pattern : List (Option α)) (b : α) (old : List α) :
    overlay (cell :: pattern) (b :: old) = cell.getD b :: overlay pattern old := rfl

theorem overlay_append {x y : List α} (h : p.length = x.length) :
    overlay (p ++ q) (x ++ y) = overlay p x ++ overlay q y :=
  List.zipWith_append h

theorem take_overlay (p : List (Option α)) (old : List α) (k : Nat) :
    (overlay p old).take k = overlay (p.take k) (old.take k) :=
  List.take_zipWith

/-- A pattern that leaves nothing alone hides the old cells. -/
theorem overlay_full (hp : none ∉ p) {x y : List α} (hx : x.length = p.length)
    (hy : y.length = p.length) : overlay p x = overlay p y := by
  induction p generalizing x y with
  | nil => rfl
  | cons cell p ih =>
    obtain ⟨b, x, rfl⟩ := List.exists_cons_of_length_eq_add_one hx
    obtain ⟨c, y, rfl⟩ := List.exists_cons_of_length_eq_add_one hy
    obtain ⟨hcell, hrest⟩ := not_or.mp (List.mem_cons.not.mp hp)
    cases cell with
    | none => exact absurd rfl hcell
    | some a =>
      rw [overlay_cons, overlay_cons, ih hrest (by simpa using hx) (by simpa using hy)]; rfl

/-- Over two constant buffers a cell that is left alone shows. -/
theorem overlay_replicate_ne {a b : α} (hab : a ≠ b) (hp : none ∈ p) :
    overlay p (List.replicate p.length a) ≠ overlay p (List.replicate p.length b) := by
  induction p with
  | nil => exact absurd hp List.not_mem_nil
  | cons cell p ih =>
    rw [List.length_cons, List.replicate_succ, List.replicate_succ, overlay_cons, overlay_cons]
    intro heq
    obtain ⟨hhead, htail⟩ := List.cons.inj heq
    rcases List.mem_cons.mp hp with hcell | hrest
    · subst hcell
      exact hab hhead
    · exact ih hrest htail

/-- **A front part does not depend on the old buffer if and only if every cell of it is
stored.** -/
theorem take_overlay_determined_iff [Nontrivial α] (p : List (Option α)) (k : Nat) :
    (∀ x y : List α, x.length = p.length → y.length = p.length →
      (overlay p x).take k = (overlay p y).take k) ↔ none ∉ p.take k := by
  have htake : ∀ x : List α, x.length = p.length → (x.take k).length = (p.take k).length :=
    fun x hx => by rw [List.length_take, List.length_take, hx]
  constructor
  · intro h hnone
    obtain ⟨a, b, hab⟩ := exists_pair_ne α
    have heq := h (List.replicate p.length a) (List.replicate p.length b)
      List.length_replicate List.length_replicate
    rw [take_overlay, take_overlay, List.take_replicate, List.take_replicate,
      ← List.length_take] at heq
    exact overlay_replicate_ne hab hnone heq
  · intro hfull x y hx hy
    rw [take_overlay, take_overlay]
    exact overlay_full hfull (htake x hx) (htake y hy)

end Riverix.Lib
