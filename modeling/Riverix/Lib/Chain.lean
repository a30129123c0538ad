import Mathlib.Data.List.Chain
import Riverix.Lib.Store

/-!
# Blocks laid end to end

A run of memory cut into blocks, each a header of four words (payload size, free flag,
address of the next block, address of the previous one) in front of its payload.
`Chain m prev a bs next` says that the store `m` holds the headers of the blocks `bs`,
back to back from address `a` on, linked both ways: `prev` is what the first header says
about its predecessor and `next` what the last one says about its successor.

The addresses follow from the sizes, so a chain that holds tiles its run of memory. The
lemmas take it apart at a block (`chain_append`), keep it where only other bytes change
(`Chain.congr`), and say what one store to a field does to it.
-/

namespace Riverix.Lib

/-- The payload size and the flag of a block. -/
structure Block where
  size : Nat
  free : Bool
  deriving DecidableEq, Repr

/-- The bytes of a block: its header and its payload. -/
def Block.span (b : Block) : Nat := 16 + b.size

/-- The bytes of the blocks together. -/
def total : List Block → Nat
  | [] => 0
  | b :: bs => b.span + total bs

/-- The store holds the header of `b` at address `a`. -/
structure Header (m : Store) (a : Nat) (b : Block) (next prev : Nat) : Prop where
  size : m.load32 a = b.size
  free : m.load32 (a + 4) = if b.free then 1 else 0
  next : m.load32 (a + 8) = next
  prev : m.load32 (a + 12) = prev

/-- The store holds the headers of `bs` from address `a` on. -/
def Chain (m : Store) : Nat → Nat → List Block → Nat → Prop
  | _, _, [], _ => True
  | prev, a, b :: bs, next =>
    Header m a b (if bs = [] then next else a + b.span) prev ∧ Chain m a (a + b.span) bs next

/-- The address of the last block, if there is one. -/
def lastAddr (prev : Nat) : Nat → List Block → Nat
  | _, [] => prev
  | a, b :: bs => lastAddr a (a + b.span) bs

/-- The byte `x` belongs to a header. -/
def InHeader : Nat → List Block → Nat → Prop
  | _, [], _ => False
  | a, b :: bs, x => (a ≤ x ∧ x < a + 16) ∨ InHeader (a + b.span) bs x

/-- The payloads of the used blocks: address and size. -/
def payloads : Nat → List Block → List (Nat × Nat)
  | _, [] => []
  | a, b :: bs => (if b.free then [] else [(a + 16, b.size)]) ++ payloads (a + b.span) bs

variable {m m' : Store} {a prev next x v n p : Nat} {b c : Block} {bs xs ys : List Block}

/-! ## Spans -/

@[simp] theorem total_nil : total [] = 0 := rfl

@[simp] theorem total_cons (b : Block) (bs : List Block) :
    total (b :: bs) = b.span + total bs := rfl

@[simp] theorem total_append (xs ys : List Block) : total (xs ++ ys) = total xs + total ys := by
  induction xs with
  | nil => simp
  | cons b xs ih => simp only [List.cons_append, total_cons, ih, Nat.add_assoc]

@[simp] theorem span_mk (n : Nat) (f : Bool) : Block.span ⟨n, f⟩ = 16 + n := rfl

theorem span_pos (b : Block) : 16 ≤ b.span := Nat.le_add_right ..

theorem length_le_total (bs : List Block) : 16 * bs.length ≤ total bs := by
  induction bs with
  | nil => exact Nat.le_refl _
  | cons b bs ih =>
    have := span_pos b
    rw [List.length_cons, total_cons]
    omega

@[simp] theorem lastAddr_append_singleton (prev a : Nat) (xs : List Block) (b : Block) :
    lastAddr prev a (xs ++ [b]) = a + total xs := by
  induction xs generalizing prev a with
  | nil => rfl
  | cons c xs ih =>
    rw [List.cons_append, lastAddr, ih, total_cons, Nat.add_assoc]

/-! ## Taking a chain apart -/

@[simp] theorem chain_nil : Chain m prev a [] next := trivial

theorem chain_cons : Chain m prev a (b :: bs) next ↔
    Header m a b (if bs = [] then next else a + b.span) prev ∧ Chain m a (a + b.span) bs next :=
  Iff.rfl

/-- A chain is a chain up to a block and a chain from there on; each knows the seam. -/
theorem chain_append : Chain m prev a (xs ++ ys) next ↔
    Chain m prev a xs (if ys = [] then next else a + total xs) ∧
      Chain m (lastAddr prev a xs) (a + total xs) ys next := by
  induction xs generalizing prev a with
  | nil => simp [lastAddr]
  | cons b xs ih =>
    rw [List.cons_append, chain_cons, chain_cons, ih, and_assoc, total_cons, Nat.add_assoc]
    refine and_congr ?_ Iff.rfl
    by_cases hx : xs = []
    · subst hx
      by_cases hy : ys = [] <;> simp [hy]
    · simp [hx]

/-- The chain around one block. -/
theorem chain_focus : Chain m prev a (xs ++ b :: ys) next ↔
    Chain m prev a xs (a + total xs) ∧
      Header m (a + total xs) b (if ys = [] then next else a + total xs + b.span)
        (lastAddr prev a xs) ∧
      Chain m (a + total xs) (a + total xs + b.span) ys next := by
  rw [chain_append, if_neg (by simp), chain_cons]

/-- The last block of a chain points to what follows. -/
theorem chain_snoc : Chain m prev a (xs ++ [b]) next ↔
    Chain m prev a xs (a + total xs) ∧ Header m (a + total xs) b next (lastAddr prev a xs) := by
  rw [chain_focus]
  simp

/-! ## What a chain depends on -/

theorem Header.congr {next prev : Nat} (h : Header m a b next prev)
    (hm : ∀ x, a ≤ x → x < a + 16 → m' x = m x) : Header m' a b next prev := by
  have hw : ∀ k, k + 4 ≤ 16 → m'.load32 (a + k) = m.load32 (a + k) := fun k hk =>
    Store.load32_congr fun i hi => hm _ (by omega) (by omega)
  refine ⟨?_, ?_, ?_, ?_⟩
  · exact (hw 0 (by omega)).trans h.size
  · exact (hw 4 (by omega)).trans h.free
  · exact (hw 8 (by omega)).trans h.next
  · exact (hw 12 (by omega)).trans h.prev

/-- A chain depends on its headers only. -/
theorem Chain.congr (h : Chain m prev a bs next) (hm : ∀ x, InHeader a bs x → m' x = m x) :
    Chain m' prev a bs next := by
  induction bs generalizing prev a with
  | nil => trivial
  | cons b bs ih =>
    rw [chain_cons] at h ⊢
    refine ⟨h.1.congr fun x h₁ h₂ => hm x (Or.inl ⟨h₁, h₂⟩), ih h.2 fun x hx => hm x (Or.inr hx)⟩

theorem InHeader.range (h : InHeader a bs x) : a ≤ x ∧ x < a + total bs := by
  induction bs generalizing a with
  | nil => exact h.elim
  | cons b bs ih =>
    have hb := span_pos b
    rw [total_cons]
    rcases h with h | h
    · omega
    · have := ih h
      omega

/-- A store outside the run of the chain. -/
theorem Chain.store_outside (h : Chain m prev a bs next) (hx : x + 4 ≤ a ∨ a + total bs ≤ x) :
    Chain (m.store32 x v) prev a bs next := by
  refine h.congr fun y hy => Store.write_outside ?_
  have := hy.range
  rw [enc32_length]
  omega

theorem Header.store_outside {next prev : Nat} (h : Header m a b next prev)
    (hx : x + 4 ≤ a ∨ a + 16 ≤ x) : Header (m.store32 x v) a b next prev := by
  refine h.congr fun y h₁ h₂ => Store.write_outside ?_
  rw [enc32_length]
  omega

/-! ## Stores to the fields of a header -/

section Fields

variable {next prev : Nat} (h : Header m a b next prev) (hv : v < 2 ^ 32)

include h hv

theorem Header.store_size : Header (m.store32 a v) a { b with size := v } next prev := by
  refine ⟨Store.load32_store32_same m a hv, ?_, ?_, ?_⟩
  · exact (Store.load32_store32_disjoint (by omega)).trans h.free
  · exact (Store.load32_store32_disjoint (by omega)).trans h.next
  · exact (Store.load32_store32_disjoint (by omega)).trans h.prev

theorem Header.store_next : Header (m.store32 (a + 8) v) a b v prev := by
  refine ⟨?_, ?_, Store.load32_store32_same m _ hv, ?_⟩
  · exact (Store.load32_store32_disjoint (by omega)).trans h.size
  · exact (Store.load32_store32_disjoint (by omega)).trans h.free
  · exact (Store.load32_store32_disjoint (by omega)).trans h.prev

theorem Header.store_prev : Header (m.store32 (a + 12) v) a b next v := by
  refine ⟨?_, ?_, ?_, Store.load32_store32_same m _ hv⟩
  · exact (Store.load32_store32_disjoint (by omega)).trans h.size
  · exact (Store.load32_store32_disjoint (by omega)).trans h.free
  · exact (Store.load32_store32_disjoint (by omega)).trans h.next

end Fields

theorem Header.store_free {next prev : Nat} (h : Header m a b next prev) (f : Bool) :
    Header (m.store32 (a + 4) (if f then 1 else 0)) a { b with free := f } next prev := by
  refine ⟨?_, Store.load32_store32_same m _ (by cases f <;> decide), ?_, ?_⟩
  · exact (Store.load32_store32_disjoint (by omega)).trans h.size
  · exact (Store.load32_store32_disjoint (by omega)).trans h.next
  · exact (Store.load32_store32_disjoint (by omega)).trans h.prev

/-- The four stores that make a header. -/
def storeHeader (m : Store) (a size free next prev : Nat) : Store :=
  (((m.store32 a size).store32 (a + 4) free).store32 (a + 8) next).store32 (a + 12) prev

theorem storeHeader_header (m : Store) (a : Nat) {size next prev : Nat} (free : Bool)
    (hs : size < 2 ^ 32) (hn : next < 2 ^ 32) (hp : prev < 2 ^ 32) :
    Header (storeHeader m a size (if free then 1 else 0) next prev) a ⟨size, free⟩ next prev := by
  unfold storeHeader
  refine ⟨?_, ?_, ?_, Store.load32_store32_same _ _ hp⟩
  · rw [Store.load32_store32_disjoint (by omega), Store.load32_store32_disjoint (by omega),
      Store.load32_store32_disjoint (by omega), Store.load32_store32_same m a hs]
  · rw [Store.load32_store32_disjoint (by omega), Store.load32_store32_disjoint (by omega),
      Store.load32_store32_same _ _ (by cases free <;> decide)]
  · rw [Store.load32_store32_disjoint (by omega), Store.load32_store32_same _ _ hn]

theorem storeHeader_outside {size free next prev : Nat} (hx : x < a ∨ a + 16 ≤ x) :
    storeHeader m a size free next prev x = m x := by
  unfold storeHeader Store.store32
  rw [Store.write_outside (by rw [enc32_length]; omega),
    Store.write_outside (by rw [enc32_length]; omega),
    Store.write_outside (by rw [enc32_length]; omega),
    Store.write_outside (by rw [enc32_length]; omega)]

/-- The first block of a chain gets another predecessor. -/
theorem Chain.store_prev (h : Chain m prev a (b :: bs) next) (hv : v < 2 ^ 32) :
    Chain (m.store32 (a + 12) v) v a (b :: bs) next := by
  have hb := span_pos b
  rw [chain_cons] at h ⊢
  exact ⟨h.1.store_prev hv, h.2.store_outside (by omega)⟩

/-- The last block of a chain gets another successor. -/
theorem Chain.store_next (h : Chain m prev a (xs ++ [b]) next) (hv : v < 2 ^ 32) :
    Chain (m.store32 (a + total xs + 8) v) prev a (xs ++ [b]) v := by
  rw [chain_snoc] at h ⊢
  exact ⟨h.1.store_outside (by omega), h.2.store_next hv⟩

/-- One block of a chain changes its flag. -/
theorem Chain.store_free (h : Chain m prev a (xs ++ b :: ys) next) (f : Bool) :
    Chain (m.store32 (a + total xs + 4) (if f then 1 else 0)) prev a
      (xs ++ { b with free := f } :: ys) next := by
  have hb := span_pos b
  rw [chain_focus] at h ⊢
  exact ⟨h.1.store_outside (by omega), h.2.1.store_free f, h.2.2.store_outside (by omega)⟩

/-! ## Payloads -/

theorem payloads_append (a : Nat) (xs ys : List Block) :
    payloads a (xs ++ ys) = payloads a xs ++ payloads (a + total xs) ys := by
  induction xs generalizing a with
  | nil => simp [payloads]
  | cons b xs ih =>
    simp only [List.cons_append, payloads, ih, List.append_assoc, total_cons, Nat.add_assoc]

theorem payloads_cons_free (h : b.free = true) (a : Nat) (bs : List Block) :
    payloads a (b :: bs) = payloads (a + b.span) bs := by
  simp [payloads, h]

theorem payloads_cons_used (h : b.free = false) (a : Nat) (bs : List Block) :
    payloads a (b :: bs) = (a + 16, b.size) :: payloads (a + b.span) bs := by
  simp [payloads, h]

/-- A payload is that of a used block somewhere in the chain. -/
theorem mem_payloads (h : (p, n) ∈ payloads a bs) :
    ∃ xs b ys, bs = xs ++ b :: ys ∧ b.free = false ∧ p = a + total xs + 16 ∧ n = b.size := by
  induction bs generalizing a with
  | nil => exact absurd h List.not_mem_nil
  | cons b bs ih =>
    rw [payloads, List.mem_append] at h
    rcases h with h | h
    · split at h
      · exact absurd h List.not_mem_nil
      next hf =>
        rw [List.mem_singleton, Prod.mk.injEq] at h
        exact ⟨[], b, bs, rfl, by simpa using hf, h.1, h.2⟩
    · obtain ⟨xs, c, ys, hbs, hc, hp, hn⟩ := ih h
      refine ⟨b :: xs, c, ys, by rw [hbs]; rfl, hc, ?_, hn⟩
      rw [hp, total_cons, Nat.add_assoc a b.span]

/-- A payload lies behind its header and inside the run. -/
theorem payload_range (h : (p, n) ∈ payloads a bs) : a + 16 ≤ p ∧ p + n ≤ a + total bs := by
  obtain ⟨xs, b, ys, hbs, -, hp, hn⟩ := mem_payloads h
  rw [hbs, total_append, total_cons, Block.span]
  omega

/-- No byte of a payload belongs to a header. -/
theorem payload_not_inHeader (h : (p, n) ∈ payloads a bs) (hx : p ≤ x) (hx' : x < p + n) :
    ¬ InHeader a bs x := by
  induction bs generalizing a with
  | nil => exact id
  | cons b bs ih =>
    rw [payloads, List.mem_append] at h
    intro hin
    rcases h with h | h
    · split at h
      · exact absurd h List.not_mem_nil
      rw [List.mem_singleton, Prod.mk.injEq] at h
      rcases hin with hin | hin
      · omega
      · have := hin.range
        unfold Block.span at this
        omega
    · have hr := payload_range h
      rcases hin with hin | hin
      · omega
      · exact ih h hin

/-- There is a header between two payloads. -/
theorem payloads_apart : (payloads a bs).Pairwise fun u v => u.1 + u.2 + 16 ≤ v.1 := by
  induction bs generalizing a with
  | nil => exact List.Pairwise.nil
  | cons b bs ih =>
    rw [payloads, List.pairwise_append]
    refine ⟨?_, ih, ?_⟩
    · split
      · exact List.Pairwise.nil
      · exact List.pairwise_singleton ..
    · intro u hu v hv
      split at hu
      · exact absurd hu List.not_mem_nil
      rw [List.mem_singleton] at hu
      have := payload_range (p := v.1) (n := v.2) hv
      rw [hu]
      unfold Block.span at this
      omega

end Riverix.Lib
