import Mathlib.Data.List.Range

/-!
# Ring buffers

A ring of `cap` cells with a read index, a write index and a count. The indices agree by
construction: a `Ring` carries the facts that make it one. `contents` is the queue that it
stands for; `push` appends to it and `pop` takes its head, and `put` and `take` do so with
many elements, as far as there is room or there are any.
-/

namespace Riverix.Lib

universe u

/-- A ring of `cap` cells. -/
structure Ring (α : Type u) (cap : Nat) where
  cells : Nat → α
  readIndex : Nat
  writeIndex : Nat
  buffered : Nat
  inside : readIndex < cap
  bounded : buffered ≤ cap
  wraps : writeIndex = (readIndex + buffered) % cap

namespace Ring

variable {α : Type u} {cap : Nat}

/-- The empty ring. -/
def empty (a : α) (h : 0 < cap) : Ring α cap :=
  ⟨fun _ => a, 0, 0, 0, h, Nat.zero_le _, (Nat.zero_mod _).symm⟩

/-- The cell that is read next. -/
def front (r : Ring α cap) : α := r.cells r.readIndex

theorem pop_wraps (r : Ring α cap) (h : r.buffered ≠ 0) :
    r.writeIndex = ((r.readIndex + 1) % cap + (r.buffered - 1)) % cap := by
  rw [r.wraps, Nat.mod_add_mod]
  congr 1
  omega

/-- One element is read. -/
def pop (r : Ring α cap) (h : r.buffered ≠ 0) : Ring α cap where
  cells := r.cells
  readIndex := (r.readIndex + 1) % cap
  writeIndex := r.writeIndex
  buffered := r.buffered - 1
  inside := Nat.mod_lt _ (Nat.zero_lt_of_lt r.inside)
  bounded := Nat.le_trans (Nat.sub_le _ _) r.bounded
  wraps := r.pop_wraps h

theorem push_wraps (r : Ring α cap) :
    (r.writeIndex + 1) % cap = (r.readIndex + (r.buffered + 1)) % cap := by
  rw [r.wraps, Nat.mod_add_mod, Nat.add_assoc]

/-- One element is written. -/
def push (r : Ring α cap) (a : α) (h : r.buffered < cap) : Ring α cap where
  cells := Function.update r.cells r.writeIndex a
  readIndex := r.readIndex
  writeIndex := (r.writeIndex + 1) % cap
  buffered := r.buffered + 1
  inside := r.inside
  bounded := h
  wraps := r.push_wraps

/-- The elements, oldest first. -/
def contents (r : Ring α cap) : List α :=
  (List.range r.buffered).map fun k => r.cells ((r.readIndex + k) % cap)

@[simp] theorem contents_length (r : Ring α cap) : r.contents.length = r.buffered := by
  simp [contents]

theorem contents_pop (r : Ring α cap) (h : r.buffered ≠ 0) :
    r.contents = r.front :: (r.pop h).contents := by
  obtain ⟨n, hn⟩ := Nat.exists_eq_succ_of_ne_zero h
  unfold contents front
  rw [hn, List.range_succ_eq_map, List.map_cons, List.map_map, Nat.add_zero,
    Nat.mod_eq_of_lt r.inside]
  refine congrArg (r.cells r.readIndex :: ·) ?_
  show _ = (List.range (r.buffered - 1)).map fun k => r.cells (((r.readIndex + 1) % cap + k) % cap)
  rw [hn, Nat.succ_sub_one]
  refine List.map_congr_left fun k _ => ?_
  show r.cells ((r.readIndex + (k + 1)) % cap) = _
  rw [Nat.mod_add_mod]
  congr 2
  omega

/-- Cells less than a turn apart are different ones. -/
theorem index_ne {i k n cap : Nat} (hk : k < n) (hn : n < cap) : (i + k) % cap ≠ (i + n) % cap := by
  intro he
  have hd : cap ∣ (i + n) - (i + k) := Nat.dvd_of_mod_eq_zero
    (Nat.sub_mod_eq_zero_of_mod_eq he.symm)
  have hz : (i + n) - (i + k) = 0 := Nat.eq_zero_of_dvd_of_lt hd (by omega)
  omega

theorem contents_push (r : Ring α cap) (a : α) (h : r.buffered < cap) :
    (r.push a h).contents = r.contents ++ [a] := by
  unfold contents push
  dsimp only
  rw [List.range_succ, List.map_append, List.map_singleton, r.wraps]
  refine congrArg₂ (· ++ ·) (List.map_congr_left fun k hk => ?_) ?_
  · rw [Function.update_of_ne (index_ne (List.mem_range.mp hk) h)]
  · rw [Function.update_self]

/-- At most `n` elements are read. -/
def take : Nat → Ring α cap → List α × Ring α cap
  | 0, r => ([], r)
  | n + 1, r =>
    if h : r.buffered ≠ 0 then
      let rest := take n (r.pop h)
      (r.front :: rest.1, rest.2)
    else ([], r)

/-- Elements are written as far as there is room; the count tells how many. -/
def put : List α → Ring α cap → Nat × Ring α cap
  | [], r => (0, r)
  | a :: as, r =>
    if h : r.buffered < cap then
      let rest := put as (r.push a h)
      (rest.1 + 1, rest.2)
    else (0, r)

/-- What is read is the front of the queue. -/
theorem take_append (n : Nat) (r : Ring α cap) :
    (r.take n).1 ++ (r.take n).2.contents = r.contents := by
  induction n generalizing r with
  | zero => rfl
  | succ n ih =>
    unfold take
    split
    next h =>
      rw [r.contents_pop h, ← ih (r.pop h)]
      rfl
    · rfl

/-- What is written goes to its end. -/
theorem put_append (as : List α) (r : Ring α cap) :
    (r.put as).2.contents = r.contents ++ as.take (r.put as).1 := by
  induction as generalizing r with
  | nil => exact (List.append_nil _).symm
  | cons a as ih =>
    unfold put
    split
    next h =>
      rw [ih, contents_push, List.append_assoc, List.take_succ_cons]
      rfl
    · exact (List.append_nil _).symm

/-- With room for all of it. -/
theorem put_room (as : List α) (r : Ring α cap) (h : r.buffered + as.length ≤ cap) :
    (r.put as).2.contents = r.contents ++ as ∧ (r.put as).2.readIndex = r.readIndex ∧
      (r.put as).2.buffered = r.buffered + as.length := by
  induction as generalizing r with
  | nil => exact ⟨(List.append_nil _).symm, rfl, rfl⟩
  | cons a as ih =>
    rw [List.length_cons] at h ⊢
    have hroom : r.buffered < cap := by omega
    obtain ⟨hc, hr, hb⟩ := ih (r.push a hroom) (by show r.buffered + 1 + as.length ≤ cap; omega)
    unfold put
    rw [dif_pos hroom]
    refine ⟨?_, hr, ?_⟩
    · rw [hc, contents_push, List.append_assoc]
      rfl
    · rw [hb]
      show r.buffered + 1 + as.length = _
      omega

/-- With as many elements as asked for. -/
theorem take_room (n : Nat) (r : Ring α cap) (h : n ≤ r.buffered) :
    (r.take n).2.contents = r.contents.drop n ∧ (r.take n).2.cells = r.cells ∧
      (r.take n).2.readIndex = (r.readIndex + n) % cap ∧ (r.take n).2.writeIndex = r.writeIndex ∧
      (r.take n).2.buffered = r.buffered - n := by
  induction n generalizing r with
  | zero => exact ⟨rfl, rfl, (Nat.mod_eq_of_lt r.inside).symm, rfl, rfl⟩
  | succ n ih =>
    have hne : r.buffered ≠ 0 := by omega
    obtain ⟨hc, hcells, hr, hw, hb⟩ := ih (r.pop hne) (by show n ≤ r.buffered - 1; omega)
    unfold take
    rw [dif_pos hne]
    refine ⟨?_, hcells, ?_, hw, ?_⟩
    · rw [hc, contents_pop r hne, List.drop_succ_cons]
    · rw [hr]
      show ((r.readIndex + 1) % cap + n) % cap = _
      rw [Nat.mod_add_mod]
      congr 1
      omega
    · rw [hb]
      show r.buffered - 1 - n = _
      omega

end Ring

end Riverix.Lib
