import Riverix.Lib.Chain

/-!
# The kernel heap (`kheap.c`)

The heap is a run of mapped pages from `KERNEL_HEAP_BASE` on, cut into blocks that are
linked both ways. `kmalloc` takes the first free block that is large enough and splits
off what is left over; `kfree` marks its block free and joins it with a free neighbour on
either side; `kheap_expand` maps more pages behind the last block.

The functions work on the bytes of the heap. Each that rewrites headers has one lemma that
says what it does to the blocks they describe: `splitBlock_chain`, `coalesceForward_chain`
and `coalesce_chain`, with `mergeNext` and `join` for what happens to the list.
-/

namespace Riverix.Memory

open Riverix.Lib

/-- The statics of `kheap.c`, and the memory they point into. -/
structure Kheap where
  mem : Store
  heapHead : Nat
  heapEnd : Nat
  committedPages : Nat
  kheapReady : Bool

namespace Kheap

/-- `KERNEL_HEAP_BASE` -/
def base : Nat := 0xF8000000

/-- `KERNEL_HEAP_LIMIT` -/
def limit : Nat := 0xFC000000

/-- `align_up_size`, for a power of two. -/
def alignUpSize (value alignment : Nat) : Nat :=
    (value + alignment - 1) % 2 ^ 32 / alignment * alignment

/-- The headers that there is room for between base and limit, which is what bounds the
loops over the blocks. -/
def maxBlocks : Nat := 0x400000

/-- The loop of `kheap_last_block`. -/
def lastFrom (m : Store) : Nat → Nat → Nat
  | 0, block => block
  | fuel + 1, block =>
    if m.load32 (block + 8) = 0 then block else lastFrom m fuel (m.load32 (block + 8))

/-- `kheap_last_block` -/
def lastBlock (h : Kheap) : Nat :=
  if h.heapHead = 0 then 0 else lastFrom h.mem maxBlocks h.heapHead

/-- `kheap_split_block` -/
def splitBlock (m : Store) (block size : Nat) : Store :=
  if block = 0 ∨ m.load32 block < (size + 32) % 2 ^ 32 then m
  else
    let tail := block + 16 + size
    let next := m.load32 (block + 8)
    let m := storeHeader m tail (m.load32 block - size - 16) 1 next block
    let m := if next ≠ 0 then m.store32 (next + 12) tail else m
    (m.store32 block size).store32 (block + 8) tail

/-- `kheap_coalesce_forward` -/
def coalesceForward (m : Store) (block : Nat) : Store :=
  if block = 0 ∨ m.load32 (block + 4) = 0 then m
  else
    let next := m.load32 (block + 8)
    if next = 0 ∨ m.load32 (next + 4) = 0 then m
    else
      let m := m.store32 block ((m.load32 block + (16 + m.load32 next)) % 2 ^ 32)
      let after := m.load32 (next + 8)
      let m := m.store32 (block + 8) after
      if after ≠ 0 then m.store32 (after + 12) block else m

/-- `kheap_coalesce` -/
def coalesce (m : Store) (block : Nat) : Store :=
  if block = 0 then m
  else if m.load32 (block + 12) ≠ 0 ∧ m.load32 (m.load32 (block + 12) + 4) ≠ 0 then
    let prev := m.load32 (block + 12)
    coalesceForward (coalesceForward m prev) prev
  else coalesceForward m block

/-- The pages that `kheap_expand` asks for: at least `KHEAP_INITIAL_PAGES`. -/
def expandPages (minimumPayload : Nat) : Nat :=
  max 4 (alignUpSize ((minimumPayload + 16) % 2 ^ 32) 4096 / 4096)

/-- The end of `kheap_expand`: a new block is linked behind the last one. -/
def appendBlock (h : Kheap) (block : Nat) : Kheap :=
  let tail := h.lastBlock
  if tail = 0 then { h with heapHead := block }
  else
    let m := (h.mem.store32 (tail + 8) block).store32 (block + 12) tail
    { h with mem := coalesce m block }

/-- `kheap_expand`; `mappable` is the number of pages that can be allocated and
mapped, and `false` is the return value -1. Pages that were mapped before the first
failure are zeroed, counted and given back. -/
def expand (h : Kheap) (minimumPayload mappable : Nat) : Kheap × Bool :=
  let pages := expandPages minimumPayload
  if (h.heapEnd + pages * 4096) % 2 ^ 32 > limit then (h, false)
  else if mappable < pages then
    ({ h with
        mem := h.mem.write h.heapEnd (List.replicate (mappable * 4096) 0)
        committedPages := (h.committedPages + mappable) % 2 ^ 32 }, false)
  else
    let block := h.heapEnd
    let m := h.mem.write block (List.replicate (pages * 4096) 0)
    let h := { h with
      mem := storeHeader m block (pages * 4096 - 16) 1 0 0
      heapEnd := h.heapEnd + pages * 4096
      committedPages := (h.committedPages + pages) % 2 ^ 32 }
    (h.appendBlock block, true)

/-- `kheap_init`, on memory with any contents. -/
def init (mem : Store) (mappable : Nat) : Kheap :=
  let h : Kheap := ⟨mem, 0, base, 0, false⟩
  match h.expand 4096 mappable with
  | (h, false) => h
  | (h, true) => { h with kheapReady := true }

/-- The search of `kmalloc`: the first free block that is large enough. -/
def findFit (m : Store) (alignedSize : Nat) : Nat → Nat → Option Nat
  | 0, _ => none
  | fuel + 1, block =>
    if block = 0 then none
    else if m.load32 (block + 4) = 0 ∨ m.load32 block < alignedSize then
      findFit m alignedSize fuel (m.load32 (block + 8))
    else some block

/-- The outer loop of `kmalloc`; `mappable` has an entry for each call of `kheap_expand`,
and when they run out there are no more pages. -/
def kmallocLoop (alignedSize : Nat) : List Nat → Kheap → Kheap × Nat
  | mappable, h =>
    match findFit h.mem alignedSize (maxBlocks + 1) h.heapHead with
    | some block =>
      ({ h with mem := (splitBlock h.mem block alignedSize).store32 (block + 4) 0 }, block + 16)
    | none =>
      match mappable with
      | [] => ((h.expand alignedSize 0).1, 0)
      | pages :: mappable =>
        match h.expand alignedSize pages with
        | (h, false) => (h, 0)
        | (h, true) => kmallocLoop alignedSize mappable h

/-- `kmalloc`; 0 is the null pointer. -/
def kmalloc (h : Kheap) (size : Nat) (mappable : List Nat) : Kheap × Nat :=
  if !h.kheapReady || size = 0 then (h, 0) else kmallocLoop (alignUpSize size 16) mappable h

/-- `kzalloc` -/
def kzalloc (h : Kheap) (size : Nat) (mappable : List Nat) : Kheap × Nat :=
  match h.kmalloc size mappable with
  | (h, buffer) =>
    (if buffer ≠ 0 then { h with mem := h.mem.write buffer (List.replicate size 0) } else h, buffer)

/-- `kfree` -/
def kfree (h : Kheap) (pointer : Nat) : Kheap :=
  if pointer = 0 then h
  else { h with mem := coalesce (h.mem.store32 (pointer - 16 + 4) 1) (pointer - 16) }

/-! ## What the functions do to a chain of blocks -/

section Blocks

variable {m : Store} {a prev size : Nat} {b : Block} {xs ys : List Block}

/-- Splitting a block leaves its front part and a free block. -/
theorem splitBlock_chain (h : Chain m prev a (xs ++ b :: ys) 0) (ha : 0 < a)
    (hend : a + total (xs ++ b :: ys) < 2 ^ 32) (hsize : size + 32 ≤ b.size) :
    Chain (splitBlock m (a + total xs) size) prev a
      (xs ++ ⟨size, b.free⟩ :: ⟨b.size - size - 16, true⟩ :: ys) 0 := by
  rw [total_append, total_cons] at hend
  obtain ⟨hxs, hb, hys⟩ := chain_focus.mp h
  generalize hA : a + total xs = A at hxs hb hys ⊢
  have hspan : b.span = 16 + b.size := rfl
  have hbig : ¬ (A = 0 ∨ m.load32 A < (size + 32) % 2 ^ 32) := by
    rw [hb.size]
    omega
  unfold splitBlock
  rw [if_neg hbig, hb.size, hb.next]
  dsimp only
  -- the header of the tail lies in the payload of the block
  generalize hm₁ : storeHeader m (A + 16 + size) (b.size - size - 16) 1
    (if ys = [] then 0 else A + b.span) A = m₁
  have hout : ∀ x, (x < A + 16 ∨ A + b.span ≤ x) → m₁ x = m x := by
    intro x hx
    rw [← hm₁]
    exact storeHeader_outside (by omega)
  have htail : Header m₁ (A + 16 + size) ⟨b.size - size - 16, true⟩
      (if ys = [] then 0 else A + b.span) A := by
    rw [← hm₁]
    exact storeHeader_header m _ true (by omega) (by split <;> omega) (by omega)
  have hxs₁ : Chain m₁ _ _ _ _ := hxs.congr fun x hx => hout x (by have := hx.range; omega)
  have hb₁ : Header m₁ _ _ _ _ := hb.congr fun x _ hx => hout x (by omega)
  have hys₁ : Chain m₁ _ _ _ _ := hys.congr fun x hx => hout x (by have := hx.range; omega)
  -- the block behind it learns about its new predecessor
  generalize hm₂ : (if (if ys = [] then 0 else A + b.span) ≠ 0
    then m₁.store32 ((if ys = [] then 0 else A + b.span) + 12) (A + 16 + size) else m₁) = m₂
  have hstep : Chain m₂ prev a xs A ∧ Header m₂ A b (if ys = [] then 0 else A + b.span)
      (lastAddr prev a xs) ∧ Header m₂ (A + 16 + size) ⟨b.size - size - 16, true⟩
      (if ys = [] then 0 else A + b.span) A ∧ Chain m₂ (A + 16 + size) (A + b.span) ys 0 := by
    cases ys with
    | nil =>
      rw [if_pos rfl, if_neg (by simp)] at hm₂
      rw [← hm₂]
      exact ⟨hxs₁, hb₁, htail, trivial⟩
    | cons c ys =>
      rw [if_neg (List.cons_ne_nil c ys), if_pos (by omega)] at hm₂
      rw [← hm₂]
      exact ⟨hxs₁.store_outside (by omega), hb₁.store_outside (by omega),
        htail.store_outside (by omega), hys₁.store_prev (by omega)⟩
  obtain ⟨hxs₂, hb₂, ht₂, hys₂⟩ := hstep
  -- the block itself
  rw [chain_focus, hA]
  refine ⟨?_, ?_, ?_⟩
  · exact (hxs₂.store_outside (by omega)).store_outside (by omega)
  · have hb₃ := (hb₂.store_size (v := size) (by omega)).store_next (v := A + 16 + size) (by omega)
    rw [if_neg (List.cons_ne_nil _ _), span_mk, ← Nat.add_assoc]
    exact hb₃
  · have ht : A + 16 + size + (16 + (b.size - size - 16)) = A + b.span := by omega
    rw [chain_cons, span_mk, span_mk, ← Nat.add_assoc A 16, ht]
    exact ⟨(ht₂.store_outside (by omega)).store_outside (by omega),
      (hys₂.store_outside (by omega)).store_outside (by omega)⟩

/-- What `kheap_coalesce_forward` makes of a block and those behind it. -/
def mergeNext (b : Block) : List Block → List Block
  | [] => [b]
  | c :: ys => if b.free && c.free then ⟨b.size + (16 + c.size), true⟩ :: ys else b :: c :: ys

theorem mergeNext_cons (b c : Block) (ys : List Block) : mergeNext b (c :: ys) =
    if b.free && c.free then ⟨b.size + (16 + c.size), true⟩ :: ys else b :: c :: ys := rfl

theorem coalesceForward_chain (h : Chain m prev a (xs ++ b :: ys) 0) (ha : 0 < a)
    (hend : a + total (xs ++ b :: ys) < 2 ^ 32) :
    Chain (coalesceForward m (a + total xs)) prev a (xs ++ mergeNext b ys) 0 := by
  rw [total_append, total_cons] at hend
  have hfocus := chain_focus.mp h
  generalize hA : a + total xs = A at hfocus ⊢
  obtain ⟨hxs, hb, hys⟩ := hfocus
  unfold coalesceForward
  rw [hb.free, hb.next]
  by_cases hbf : b.free = true
  · rw [if_neg (by simp [hbf]; omega)]
    dsimp only
    cases ys with
    | nil =>
      rw [if_pos rfl, if_pos (Or.inl rfl)]
      exact h
    | cons c ys =>
      rw [if_neg (List.cons_ne_nil c ys)]
      obtain ⟨hc, hys⟩ := chain_cons.mp hys
      rw [hc.free]
      by_cases hcf : c.free = true
      · have hspan : b.span = 16 + b.size := rfl
        have hcspan : c.span = 16 + c.size := rfl
        rw [total_cons] at hend
        rw [if_neg (by simp [hcf]; omega), hb.size, hc.size,
          Nat.mod_eq_of_lt (by omega : b.size + (16 + c.size) < 2 ^ 32)]
        -- the joined block, then the block behind it
        have hnext : (m.store32 A (b.size + (16 + c.size))).load32 (A + b.span + 8)
            = if ys = [] then 0 else A + b.span + c.span := by
          rw [Store.load32_store32_disjoint (by omega), hc.next]
        rw [hnext]
        have hmerge : mergeNext b (c :: ys) = ⟨b.size + (16 + c.size), true⟩ :: ys := by
          simp [mergeNext, hbf, hcf]
        rw [hmerge, chain_focus, hA]
        have hs : A + Block.span ⟨b.size + (16 + c.size), true⟩ = A + b.span + c.span := by
          show A + (16 + (b.size + (16 + c.size))) = _
          omega
        rw [hs]
        have hxs₁ : Chain ((m.store32 A (b.size + (16 + c.size))).store32 (A + 8)
            (if ys = [] then 0 else A + b.span + c.span)) prev a xs A :=
          (hxs.store_outside (by omega)).store_outside (by omega)
        have hb₁ := (hb.store_size (v := b.size + (16 + c.size)) (by omega)).store_next
          (v := if ys = [] then 0 else A + b.span + c.span) (by split <;> omega)
        have hys₁ : Chain ((m.store32 A (b.size + (16 + c.size))).store32 (A + 8)
            (if ys = [] then 0 else A + b.span + c.span)) (A + b.span) (A + b.span + c.span) ys 0 :=
          (hys.store_outside (by omega)).store_outside (by omega)
        rw [hbf] at hb₁
        cases ys with
        | nil =>
          rw [if_neg (by simp)]
          exact ⟨hxs₁, hb₁, trivial⟩
        | cons d ys =>
          rw [if_pos (by simp; omega)]
          rw [if_neg (by simp)] at hxs₁ hb₁ hys₁ ⊢
          exact ⟨hxs₁.store_outside (by omega), hb₁.store_outside (by omega),
            hys₁.store_prev (by omega)⟩
      · rw [if_pos (Or.inr (by simp [hcf]))]
        rw [show mergeNext b (c :: ys) = b :: c :: ys by simp [mergeNext, hcf]]
        exact h
  rw [if_pos (Or.inr (by simp [hbf]))]
  have hmerge : mergeNext b ys = b :: ys := by
    cases ys with
    | nil => rfl
    | cons c ys => simp [mergeNext, hbf]
  rw [hmerge]
  exact h

/-- What `kheap_coalesce` makes of a free block between `xs` and `ys`. -/
def join (xs : List Block) (b : Block) (ys : List Block) : List Block :=
  match xs.getLast? with
  | some p =>
    if p.free then xs.dropLast ++ mergeNext ⟨p.size + (16 + b.size), true⟩ ys
    else xs ++ mergeNext b ys
  | none => mergeNext b ys

@[simp] theorem join_snoc (xs : List Block) (p b : Block) (ys : List Block) :
    join (xs ++ [p]) b ys = if p.free then xs ++ mergeNext ⟨p.size + (16 + b.size), true⟩ ys
      else xs ++ [p] ++ mergeNext b ys := by
  unfold join
  rw [List.getLast?_concat, List.dropLast_concat]

theorem coalesce_chain (h : Chain m 0 a (xs ++ b :: ys) 0) (ha : 0 < a) (hb : b.free = true)
    (hend : a + total (xs ++ b :: ys) < 2 ^ 32) :
    Chain (coalesce m (a + total xs)) 0 a (join xs b ys) 0 := by
  have hhead := (chain_focus.mp h).2.1
  unfold coalesce
  rw [if_neg (by omega), hhead.prev]
  rcases List.eq_nil_or_concat' xs with rfl | ⟨zs, p, rfl⟩
  · rw [if_neg (by simp [lastAddr])]
    exact coalesceForward_chain h ha hend
  rw [List.append_assoc, List.singleton_append] at h hend
  have hp := (chain_focus.mp h).2.1
  rw [lastAddr_append_singleton, hp.free, join_snoc]
  by_cases hpf : p.free = true
  · rw [if_pos (by simp [hpf]; omega), if_pos hpf]
    -- first into the predecessor, then what follows into both
    have h₁ := coalesceForward_chain h ha hend
    have hmerge : mergeNext p (b :: ys) = ⟨p.size + (16 + b.size), true⟩ :: ys := by
      simp [mergeNext, hpf, hb]
    rw [hmerge] at h₁
    refine coalesceForward_chain h₁ ha ?_
    simp only [total_append, total_cons, Block.span] at hend ⊢
    omega
  · rw [if_neg (by simp [hpf]), if_neg hpf]
    rw [← List.singleton_append, ← List.append_assoc] at h hend
    exact coalesceForward_chain h ha hend

end Blocks

/-! ## Joining blocks -/

section Join

variable {a : Nat} {b c p : Block} {xs ys bs : List Block}

/-- No two neighbouring blocks are both free. -/
def Apart (bs : List Block) : Prop := bs.IsChain fun b c => ¬ (b.free = true ∧ c.free = true)

/-- Joining keeps the bytes and the payloads in use. -/
theorem mergeNext_total (b : Block) (ys : List Block) :
    total (mergeNext b ys) = total (b :: ys) := by
  cases ys with
  | nil => rfl
  | cons c ys =>
    rw [mergeNext_cons]
    split
    · simp only [total_cons, Block.span]
      omega
    · rfl

theorem mergeNext_payloads (a : Nat) (b : Block) (ys : List Block) :
    payloads a (mergeNext b ys) = payloads a (b :: ys) := by
  cases ys with
  | nil => rfl
  | cons c ys =>
    rw [mergeNext_cons]
    split
    next h =>
      rw [Bool.and_eq_true] at h
      rw [payloads_cons_free rfl, payloads_cons_free h.1, payloads_cons_free h.2]
      congr 1
      simp only [Block.span]
      omega
    · rfl

theorem mergeNext_aligned (hb : b.size % 16 = 0) (hys : ∀ c ∈ ys, c.size % 16 = 0) :
    ∀ c ∈ mergeNext b ys, c.size % 16 = 0 := by
  cases ys with
  | nil =>
    intro c hc
    rw [List.mem_singleton.mp hc]
    exact hb
  | cons d ys =>
    have hd := hys d (List.mem_cons_self ..)
    rw [mergeNext_cons]
    split
    · intro c hc
      rcases List.mem_cons.mp hc with hc | hc
      · rw [hc]
        dsimp only
        omega
      · exact hys c (List.mem_cons_of_mem _ hc)
    intro c hc
    rcases List.mem_cons.mp hc with hc | hc
    · rw [hc]
      exact hb
    · exact hys c hc

theorem Apart.tail (h : Apart (b :: ys)) : Apart ys := by
  cases ys with
  | nil => exact List.IsChain.nil
  | cons c ys => exact (List.isChain_cons_cons.mp h).2

/-- The joined block is free, and the one behind it is not. -/
theorem mergeNext_apart (hb : b.free = true) (hys : Apart ys) :
    Apart (mergeNext b ys) ∧ ∃ c rest, mergeNext b ys = c :: rest ∧ c.free = true := by
  cases ys with
  | nil => exact ⟨List.IsChain.singleton _, b, [], rfl, hb⟩
  | cons c ys =>
    rw [mergeNext_cons]
    split
    next h =>
      rw [Bool.and_eq_true] at h
      refine ⟨?_, _, ys, rfl, rfl⟩
      cases ys with
      | nil => exact List.IsChain.singleton _
      | cons d ys =>
        obtain ⟨hcd, hd⟩ := List.isChain_cons_cons.mp hys
        exact List.isChain_cons_cons.mpr ⟨fun hf => hcd ⟨h.2, hf.2⟩, hd⟩
    next h =>
      refine ⟨List.isChain_cons_cons.mpr ⟨fun hf => h (by simp [hf]), hys⟩, b, c :: ys, rfl, hb⟩

theorem join_ne_nil (xs : List Block) (b : Block) (ys : List Block) : join xs b ys ≠ [] := by
  have hmerge : ∀ c, mergeNext c ys ≠ [] := by
    intro c
    cases ys with
    | nil => exact List.cons_ne_nil _ _
    | cons d ys =>
      rw [mergeNext_cons]
      split <;> exact List.cons_ne_nil _ _
  unfold join
  split
  · split <;> exact List.append_ne_nil_of_right_ne_nil _ (hmerge _)
  · exact hmerge b

theorem join_total (xs : List Block) (b : Block) (ys : List Block) :
    total (join xs b ys) = total (xs ++ b :: ys) := by
  rcases List.eq_nil_or_concat' xs with rfl | ⟨zs, p, rfl⟩
  · exact mergeNext_total b ys
  rw [join_snoc]
  split
  · simp only [total_append, mergeNext_total, total_cons, Block.span, total_nil]
    omega
  · simp only [total_append, mergeNext_total]

theorem join_payloads (a : Nat) (hb : b.free = true) (xs ys : List Block) :
    payloads a (join xs b ys) = payloads a (xs ++ b :: ys) := by
  rcases List.eq_nil_or_concat' xs with rfl | ⟨zs, p, rfl⟩
  · exact mergeNext_payloads a b ys
  rw [join_snoc]
  split
  next hp =>
    rw [payloads_append, mergeNext_payloads, payloads_cons_free rfl, List.append_assoc,
      payloads_append, List.singleton_append, payloads_cons_free hp, payloads_cons_free hb]
    congr 2
    simp only [Block.span]
    omega
  · rw [payloads_append, mergeNext_payloads, ← payloads_append]

theorem join_aligned (h : ∀ c ∈ xs ++ b :: ys, c.size % 16 = 0) :
    ∀ c ∈ join xs b ys, c.size % 16 = 0 := by
  have hb := h b (by simp)
  have hys : ∀ c ∈ ys, c.size % 16 = 0 := fun c hc => h c (by simp [hc])
  rcases List.eq_nil_or_concat' xs with rfl | ⟨zs, p, rfl⟩
  · exact mergeNext_aligned hb hys
  have hp := h p (by simp)
  rw [join_snoc]
  intro c hc
  split at hc
  · rcases List.mem_append.mp hc with hc | hc
    · exact h c (by simp [hc])
    · refine mergeNext_aligned ?_ hys c hc
      dsimp only
      omega
  · rcases List.mem_append.mp hc with hc | hc
    · exact h c (List.mem_append_left _ hc)
    · exact mergeNext_aligned hb hys c hc

/-- What comes behind a used block, or at the front, may start with a free one. -/
theorem Apart.append_free (hxs : Apart xs) (hys : Apart ys)
    (hlast : ∀ p ∈ xs.getLast?, p.free = false) :
    Apart (xs ++ ys) := by
  refine List.isChain_append.mpr ⟨hxs, hys, ?_⟩
  intro p hp c _ hf
  rw [hlast p hp] at hf
  exact absurd hf.1 (by simp)

theorem join_apart (hb : b.free = true) (hxs : Apart xs) (hys : Apart ys) :
    Apart (join xs b ys) := by
  rcases List.eq_nil_or_concat' xs with rfl | ⟨zs, p, rfl⟩
  · exact (mergeNext_apart hb hys).1
  rw [join_snoc]
  split
  next hp =>
    refine Apart.append_free (List.isChain_append.mp hxs).1 (mergeNext_apart rfl hys).1 ?_
    intro q hq
    by_contra hqf
    exact (List.isChain_append.mp hxs).2.2 q hq p (by simp) ⟨by simpa using hqf, hp⟩
  next hp =>
  refine Apart.append_free hxs (mergeNext_apart hb hys).1 ?_
  intro q hq
  rw [List.getLast?_concat, Option.mem_some_iff] at hq
  rw [← hq]
  simpa using hp

end Join

end Kheap

end Riverix.Memory
