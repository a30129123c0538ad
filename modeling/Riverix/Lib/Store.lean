import Mathlib.Data.List.GetD
import Mathlib.Tactic.Ring

/-!
# Byte stores

A `Store` is a byte-addressed memory: physical RAM, a disk seen as one long
run of bytes, an on-stack buffer. It is total, so an access never fails; who
may access what is the business of the code above it. Three operations carry
everything that is stored in one: `read` a run of bytes, `write` a run of
bytes, and the little-endian 32-bit words laid over them (`load32`, `store32`).

The lemmas say what a write does to a later read: it is seen whole where the
ranges agree (`read_write_same`), not at all where they are disjoint
(`read_write_disjoint`), and byte by byte otherwise (`write_inside`,
`write_outside`).
-/

namespace Riverix.Lib

/-- A byte of memory. -/
abbrev Byte := BitVec 8

/-- A byte-addressed store. -/
abbrev Store := Nat → Byte

namespace Store

variable {m m' : Store} {a b n k x : Nat} {bs cs : List Byte}

/-- The `n` bytes from address `a` on. -/
def read (m : Store) (a n : Nat) : List Byte :=
  (List.range n).map fun i => m (a + i)

/-- Overwrite the bytes from address `a` on with `bs`. -/
def write (m : Store) (a : Nat) (bs : List Byte) : Store := fun x =>
  if a ≤ x then bs.getD (x - a) (m x) else m x

@[simp] theorem read_length (m : Store) (a n : Nat) : (m.read a n).length = n := by
  simp [read]

@[simp] theorem read_zero (m : Store) (a : Nat) : m.read a 0 = [] := rfl

theorem read_getElem? (h : k < n) : (m.read a n)[k]? = some (m (a + k)) := by
  simp [read, h]

theorem read_getD (h : k < n) (d : Byte) : (m.read a n).getD k d = m (a + k) := by
  rw [List.getD_eq_getElem?_getD, read_getElem? h]
  rfl

/-- Two reads agree exactly when the stores agree on every byte read. -/
theorem read_congr_iff : m.read a n = m'.read b n ↔ ∀ i < n, m (a + i) = m' (b + i) := by
  constructor
  · intro h i hi
    have hg := congrArg (fun l => l[i]?) h
    simp only [read_getElem? hi, Option.some.injEq] at hg
    exact hg
  · intro h
    apply List.map_congr_left
    intro i hi
    exact h i (List.mem_range.mp hi)

theorem read_congr (h : ∀ i < n, m (a + i) = m' (a + i)) : m.read a n = m'.read a n :=
  read_congr_iff.mpr h

/-- A read splits at any point. -/
theorem read_add (m : Store) (a n k : Nat) :
    m.read a (n + k) = m.read a n ++ m.read (a + n) k := by
  simp [read, List.range_add, Nat.add_assoc]

theorem read_succ (m : Store) (a n : Nat) : m.read a (n + 1) = m a :: m.read (a + 1) n := by
  rw [Nat.add_comm n 1, read_add]
  simp [read]

theorem read_take (h : k ≤ n) : (m.read a n).take k = m.read a k := by
  obtain ⟨j, rfl⟩ := Nat.exists_eq_add_of_le h
  rw [read_add, List.take_left' (read_length m a k)]

theorem read_drop (m : Store) (a n k : Nat) : (m.read a n).drop k = m.read (a + k) (n - k) := by
  rcases Nat.le_total k n with h | h
  · obtain ⟨j, rfl⟩ := Nat.exists_eq_add_of_le h
    rw [read_add, List.drop_left' (read_length m a k), Nat.add_sub_cancel_left]
  · rw [List.drop_eq_nil_of_le (by simpa using h), Nat.sub_eq_zero_of_le h, read_zero]

/-- A byte outside the written range keeps its value. -/
theorem write_outside (h : x < a ∨ a + bs.length ≤ x) : m.write a bs x = m x := by
  unfold write
  split
  · rw [List.getD_eq_getElem?_getD, List.getElem?_eq_none (by omega)]
    rfl
  · rfl

/-- A byte inside the written range is the byte written there. -/
theorem write_inside (h : k < bs.length) : m.write a bs (a + k) = bs.getD k 0 := by
  unfold write
  rw [if_pos (Nat.le_add_right a k), Nat.add_sub_cancel_left]
  rw [List.getD_eq_getElem?_getD, List.getD_eq_getElem?_getD, List.getElem?_eq_getElem h]
  rfl

@[simp] theorem write_nil (m : Store) (a : Nat) : m.write a [] = m := by
  funext x
  exact write_outside (by simp; omega)

theorem read_write_same (m : Store) (a : Nat) (bs : List Byte) :
    (m.write a bs).read a bs.length = bs := by
  apply List.ext_getElem?
  intro i
  rcases Nat.lt_or_ge i bs.length with hi | hi
  · rw [read_getElem? hi, write_inside hi, List.getElem?_eq_getElem hi,
      List.getD_eq_getElem?_getD, List.getElem?_eq_getElem hi]
    rfl
  · rw [List.getElem?_eq_none (by simpa using hi), List.getElem?_eq_none hi]

theorem read_write_disjoint (h : a + n ≤ b ∨ b + bs.length ≤ a) :
    (m.write b bs).read a n = m.read a n := by
  apply read_congr
  intro i hi
  exact write_outside (by omega)

/-- A write of the bytes already there changes nothing. -/
theorem write_read (m : Store) (a n : Nat) : m.write a (m.read a n) = m := by
  funext x
  by_cases hx : a ≤ x ∧ x < a + n
  · obtain ⟨k, rfl⟩ := Nat.exists_eq_add_of_le hx.1
    rw [write_inside (by simp; omega), read_getD (by omega)]
  · exact write_outside (by simp only [read_length]; omega)

/-- Writing two adjacent runs is writing their concatenation. -/
theorem write_append (m : Store) (a : Nat) (bs cs : List Byte) :
    m.write a (bs ++ cs) = (m.write a bs).write (a + bs.length) cs := by
  funext x
  by_cases h1 : x < a
  · rw [write_outside (.inl h1), write_outside (.inl (by omega)), write_outside (.inl h1)]
  obtain ⟨k, rfl⟩ := Nat.exists_eq_add_of_le (Nat.not_lt.mp h1)
  by_cases h2 : k < bs.length
  · rw [write_inside (by rw [List.length_append]; omega), write_outside (.inl (by omega)),
      write_inside h2, List.getD_append _ _ _ _ h2]
  by_cases h3 : k < bs.length + cs.length
  · rw [write_inside (by rw [List.length_append]; exact h3)]
    obtain ⟨j, rfl⟩ := Nat.exists_eq_add_of_le (Nat.not_lt.mp h2)
    rw [← Nat.add_assoc, write_inside (by omega), List.getD_append_right _ _ _ _ (by omega),
      Nat.add_sub_cancel_left]
  · rw [write_outside (.inr (by rw [List.length_append]; omega)),
      write_outside (.inr (by omega)), write_outside (.inr (by omega))]

/-- A longer run over a shorter one. -/
theorem write_over (m : Store) (a : Nat) (h : bs.length ≤ cs.length) :
    (m.write a bs).write a cs = m.write a cs := by
  funext x
  by_cases hx : a ≤ x ∧ x < a + cs.length
  · obtain ⟨k, rfl⟩ := Nat.exists_eq_add_of_le hx.1
    rw [write_inside (by omega), write_inside (by omega)]
  · rw [write_outside (by omega), write_outside (by omega), write_outside (by omega)]

theorem write_singleton (m : Store) (a : Nat) (b : Byte) :
    m.write a [b] = Function.update m a b := by
  funext x
  by_cases hx : x = a
  · rw [hx, Function.update_self]
    exact write_inside (k := 0) Nat.one_pos
  · rw [Function.update_of_ne hx, write_outside]
    rw [List.length_singleton]
    omega

theorem write_cons (m : Store) (a : Nat) (b : Byte) (bs : List Byte) :
    m.write a (b :: bs) = Store.write (Function.update m a b) (a + 1) bs := by
  rw [← List.singleton_append, write_append, write_singleton, List.length_singleton]

/-! ## Pasting from another store -/

/-- Overwrite the `n` bytes from address `a` on with those of `src`. -/
def paste (m : Store) (a n : Nat) (src : Store) : Store := fun x =>
  if a ≤ x ∧ x < a + n then src (x - a) else m x

theorem paste_outside {src : Store} (h : x < a ∨ a + n ≤ x) : m.paste a n src x = m x := by
  rw [paste, if_neg (by omega)]

/-! ## Little-endian words -/

/-- The 32-bit little-endian word at address `a`. -/
def load32 (m : Store) (a : Nat) : Nat :=
  (m a).toNat + 256 * (m (a + 1)).toNat + 65536 * (m (a + 2)).toNat
    + 16777216 * (m (a + 3)).toNat

end Store

/-- The four little-endian bytes of a 32-bit value. -/
def enc32 (n : Nat) : List Byte :=
  [BitVec.ofNat 8 n, BitVec.ofNat 8 (n / 256), BitVec.ofNat 8 (n / 65536),
    BitVec.ofNat 8 (n / 16777216)]

/-- The value of four little-endian bytes (missing ones read as zero). -/
def dec32 (bs : List Byte) : Nat :=
  (bs.getD 0 0).toNat + 256 * (bs.getD 1 0).toNat + 65536 * (bs.getD 2 0).toNat
    + 16777216 * (bs.getD 3 0).toNat

@[simp] theorem enc32_length (n : Nat) : (enc32 n).length = 4 := rfl

theorem dec32_lt (bs : List Byte) : dec32 bs < 2 ^ 32 := by
  unfold dec32
  have h0 := (bs.getD 0 0).isLt
  have h1 := (bs.getD 1 0).isLt
  have h2 := (bs.getD 2 0).isLt
  have h3 := (bs.getD 3 0).isLt
  omega

theorem dec32_enc32 (n : Nat) (rest : List Byte) : dec32 (enc32 n ++ rest) = n % 2 ^ 32 := by
  simp only [dec32, enc32, List.cons_append, List.getD_cons_zero, List.getD_cons_succ,
    BitVec.toNat_ofNat]
  omega

/-- The little-endian value of a run of bytes. -/
def leValue : List Byte → Nat
  | [] => 0
  | b :: bs => b.toNat + 256 * leValue bs

/-- The `n` little-endian bytes of a value. -/
def leBytes : Nat → Nat → List Byte
  | 0, _ => []
  | n + 1, x => BitVec.ofNat 8 x :: leBytes n (x / 256)

@[simp] theorem leBytes_length (n x : Nat) : (leBytes n x).length = n := by
  induction n generalizing x with
  | zero => rfl
  | succ n ih => rw [leBytes, List.length_cons, ih]

theorem leValue_leBytes (n x : Nat) : leValue (leBytes n x) = x % 256 ^ n := by
  induction n generalizing x with
  | zero => rw [pow_zero, Nat.mod_one]; rfl
  | succ n ih =>
    rw [leBytes, leValue, ih, BitVec.toNat_ofNat, pow_succ' 256 n]
    exact Nat.mod_mul.symm

theorem leValue_lt : ∀ {n : Nat} {bs : List Byte}, bs.length ≤ n → leValue bs < 256 ^ n
  | n, [], _ => Nat.pow_pos (by decide)
  | n + 1, b :: bs, h => by
    have ih := leValue_lt (Nat.le_of_succ_le_succ h)
    rw [leValue, pow_succ]
    omega

namespace Store

variable {m : Store} {a b w : Nat}

theorem load32_eq_dec32 (m : Store) (a : Nat) : m.load32 a = dec32 (m.read a 4) := rfl

theorem load32_lt (m : Store) (a : Nat) : m.load32 a < 2 ^ 32 := by
  rw [load32_eq_dec32]
  exact dec32_lt _

/-- Store a 32-bit little-endian word at address `a`. -/
def store32 (m : Store) (a w : Nat) : Store := m.write a (enc32 w)

theorem load32_store32_same (m : Store) (a : Nat) (h : w < 2 ^ 32) :
    (m.store32 a w).load32 a = w := by
  rw [load32_eq_dec32, store32, ← enc32_length w, read_write_same]
  have := dec32_enc32 w []
  rw [List.append_nil] at this
  rw [this, Nat.mod_eq_of_lt h]

theorem load32_congr {m m' : Store} {a : Nat} (h : ∀ i < 4, m (a + i) = m' (a + i)) :
    m.load32 a = m'.load32 a := by
  rw [load32_eq_dec32, load32_eq_dec32, read_congr h]

theorem load32_write_disjoint {bs : List Byte} (h : a + 4 ≤ b ∨ b + bs.length ≤ a) :
    (m.write b bs).load32 a = m.load32 a := by
  rw [load32_eq_dec32, read_write_disjoint h, load32_eq_dec32]

theorem load32_store32_disjoint (h : a + 4 ≤ b ∨ b + 4 ≤ a) :
    (m.store32 b w).load32 a = m.load32 a :=
  load32_write_disjoint (by rw [enc32_length]; exact h)

theorem enc32_load32 (m : Store) (a : Nat) : enc32 (m.load32 a) = m.read a 4 := by
  have h0 := (m a).isLt
  have h1 := (m (a + 1)).isLt
  have h2 := (m (a + 2)).isLt
  have h3 := (m (a + 3)).isLt
  have hread : m.read a 4 = [m a, m (a + 1), m (a + 2), m (a + 3)] := rfl
  rw [hread]
  unfold enc32 load32
  congr 1
  · exact BitVec.eq_of_toNat_eq (by rw [BitVec.toNat_ofNat]; omega)
  congr 1
  · exact BitVec.eq_of_toNat_eq (by rw [BitVec.toNat_ofNat]; omega)
  congr 1
  · exact BitVec.eq_of_toNat_eq (by rw [BitVec.toNat_ofNat]; omega)
  congr 1
  exact BitVec.eq_of_toNat_eq (by rw [BitVec.toNat_ofNat]; omega)

/-- Storing a word where it is already changes nothing. -/
theorem store32_load32 (m : Store) (a : Nat) : m.store32 a (m.load32 a) = m := by
  unfold store32
  rw [enc32_load32, write_read]

/-- Storing the old word again undoes a store. -/
theorem store32_restore (m : Store) (a w : Nat) : (m.store32 a w).store32 a (m.load32 a) = m := by
  unfold store32
  rw [enc32_load32]
  funext x
  by_cases hx : x < a ∨ a + 4 ≤ x
  · rw [write_outside (by rw [read_length]; exact hx),
      write_outside (by rw [enc32_length]; exact hx)]
  · obtain ⟨k, rfl⟩ := Nat.exists_eq_add_of_le (show a ≤ x by omega)
    have hk : k < 4 := by omega
    rw [write_inside (by rw [read_length]; exact hk), read_getD hk]

/-- A word of a zeroed run is zero. -/
theorem load32_zeros {n : Nat} (h : b ≤ a) (h' : a + 4 ≤ b + n) :
    (m.write b (List.replicate n 0)).load32 a = 0 := by
  have hz : ∀ i < 4, (m.write b (List.replicate n 0)) (a + i) = 0 := by
    intro i hi
    obtain ⟨k, hk⟩ := Nat.exists_eq_add_of_le (show b ≤ a + i by omega)
    rw [hk, write_inside (by rw [List.length_replicate]; omega)]
    rw [List.getD_eq_getElem?_getD, List.getElem?_replicate]
    split <;> rfl
  have h0 := hz 0 (by omega)
  rw [Nat.add_zero] at h0
  unfold load32
  rw [h0, hz 1 (by omega), hz 2 (by omega), hz 3 (by omega)]
  rfl

end Store

end Riverix.Lib
