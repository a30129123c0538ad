import Riverix.Lib.Run
import Riverix.Memory.Kheap

/-!
# Heap integrity over runs

`Sound h bs` is the heap's invariant: the bytes of the heap are the blocks `bs`, laid end
to end from `KERNEL_HEAP_BASE` to `heap_end`, with sizes that are multiples of 16 and no
two free neighbours. `expand_sound`, `kmalloc_sound` and `kfree_sound` say how each call
changes the payloads in use; `Owns` ties them to what the clients hold, and
**`run_heap_intact`** is the result over whole runs.

The headers are bytes of the heap like any others, and the calls walk them by address. That
a walk meets the blocks of the list in order, and that a store to one header leaves the
others alone, is `Riverix.Lib.Chain`; here the lists are cut at the block a call works on.
A client may write anything to the payload it holds, which no header overlaps.
-/

namespace Riverix.Memory

open Riverix.Lib

namespace Kheap

variable {h h' : Kheap} {m : Store} {a prev need fuel : Nat} {b : Block} {bs xs ys : List Block}

/-- The heap is the blocks `bs`, from its base to its end. -/
structure Tiles (h : Kheap) (bs : List Block) : Prop where
  head : h.heapHead = if bs = [] then 0 else base
  chain : Chain h.mem 0 base bs 0
  ends : base + total bs = h.heapEnd

structure Sound (h : Kheap) (bs : List Block) : Prop extends Tiles h bs where
  aligned : ∀ b ∈ bs, b.size % 16 = 0
  apart : Apart bs
  limit : h.heapEnd ≤ Kheap.limit

theorem base_pos : 0 < base := by decide

theorem Sound.lt (h : Sound h' bs) : base + total bs < 2 ^ 32 := by
  have := h.limit
  unfold Kheap.limit at this
  rw [h.ends]
  omega

/-! ## The searches -/

/-- The loops take no more steps than there are headers. -/
theorem length_le_maxBlocks (h : base + total bs ≤ limit) : bs.length ≤ maxBlocks := by
  have := length_le_total bs
  unfold base limit at h
  unfold maxBlocks
  omega

theorem Sound.length_le (hs : Sound h bs) : bs.length ≤ maxBlocks :=
  length_le_maxBlocks (by rw [hs.ends]; exact hs.limit)

/-- The search stops at the first block that fits, or has seen that none does. -/
theorem findFit_chain (need : Nat) (hc : Chain m prev a bs 0) (ha : 0 < a) (hf : bs.length < fuel) :
    (∃ xs b ys, bs = xs ++ b :: ys ∧ b.free = true ∧ need ≤ b.size ∧
        findFit m need fuel (if bs = [] then 0 else a) = some (a + total xs)) ∨
      (findFit m need fuel (if bs = [] then 0 else a) = none ∧
        ∀ b ∈ bs, b.free = true → b.size < need) := by
  induction bs generalizing prev a fuel with
  | nil =>
    right
    cases fuel with
    | zero => exact ⟨rfl, fun b hb => absurd hb List.not_mem_nil⟩
    | succ fuel => exact ⟨by simp [findFit], fun b hb => absurd hb List.not_mem_nil⟩
  | cons b bs ih =>
    obtain ⟨hb, hbs⟩ := chain_cons.mp hc
    cases fuel with
    | zero => exact absurd hf (Nat.not_lt_zero _)
    | succ fuel =>
      rw [List.length_cons] at hf
      rw [if_neg (List.cons_ne_nil b bs)]
      unfold findFit
      rw [if_neg (by omega), hb.free, hb.size, hb.next]
      by_cases hfit : b.free = true ∧ need ≤ b.size
      · left
        refine ⟨[], b, bs, rfl, hfit.1, hfit.2, ?_⟩
        rw [if_neg (by simp [hfit.1]; omega)]
        rfl
      have hskip : (if b.free then 1 else 0) = 0 ∨ b.size < need := by
        by_cases hbf : b.free = true
        · exact Or.inr (by by_contra hge; exact hfit ⟨hbf, by omega⟩)
        · exact Or.inl (by simp [hbf])
      rw [if_pos hskip]
      have hfuel : bs.length < fuel := by omega
      rcases ih hbs (by omega) hfuel with ⟨xs, c, ys, he, hcf, hcs, hres⟩ | ⟨hres, hall⟩
      · left
        refine ⟨b :: xs, c, ys, by rw [he]; rfl, hcf, hcs, ?_⟩
        rw [hres, total_cons, Nat.add_assoc]
      right
      refine ⟨hres, ?_⟩
      intro c hmem hcf
      rcases List.mem_cons.mp hmem with he | hmem
      · by_contra hge
        exact hfit (he ▸ ⟨hcf, by omega⟩)
      · exact hall c hmem hcf

/-- The walk ends at the last block. -/
theorem lastFrom_chain (hc : Chain m prev a (xs ++ [b]) 0) (ha : 0 < a) (hf : xs.length ≤ fuel) :
    lastFrom m fuel a = a + total xs := by
  induction xs generalizing prev a fuel with
  | nil =>
    cases fuel with
    | zero => rfl
    | succ fuel =>
      have hnext : m.load32 (a + 8) = 0 := (chain_snoc.mp hc).2.next
      unfold lastFrom
      rw [if_pos hnext]
      rfl
  | cons c xs ih =>
    cases fuel with
    | zero => exact absurd hf (Nat.not_succ_le_zero _)
    | succ fuel =>
      obtain ⟨hhead, hrest⟩ := chain_cons.mp hc
      rw [if_neg (by simp)] at hhead
      unfold lastFrom
      rw [hhead.next, if_neg (by omega), ih hrest (by omega) (Nat.le_of_succ_le_succ hf),
        total_cons, Nat.add_assoc]

theorem lastBlock_nil (hh : h.heapHead = 0) : h.lastBlock = 0 := by
  unfold lastBlock
  rw [if_pos hh]

theorem lastBlock_snoc (hh : h.heapHead = base) (hc : Chain h.mem 0 base (xs ++ [b]) 0)
    (hlen : xs.length ≤ maxBlocks) : h.lastBlock = base + total xs := by
  unfold lastBlock
  rw [if_neg (by rw [hh]; decide), hh, lastFrom_chain hc base_pos hlen]

/-! ## Expansion -/

/-- The new block has room for the payload asked for. -/
theorem expandPages_spec {payload : Nat} (h : payload ≤ 0x2000000) :
    payload + 16 ≤ expandPages payload * 4096 ∧ 4 ≤ expandPages payload ∧
      expandPages payload ≤ 0x2001 := by
  unfold expandPages alignUpSize
  omega

/-- Bytes past the end of the heap do not matter. -/
theorem Tiles.write_past (ht : Tiles h bs) (bytes : List Byte) :
    Chain (h.mem.write h.heapEnd bytes) 0 base bs 0 := by
  refine ht.chain.congr fun x hx => Store.write_outside (Or.inl ?_)
  have := hx.range
  have := ht.ends
  omega

/-- A block put behind the others. -/
theorem chain_extend {size : Nat} (hc : Chain m 0 base (xs ++ [b]) 0)
    (hnew : Header m (base + total (xs ++ [b])) ⟨size, true⟩ 0 0)
    (hend : base + total (xs ++ [b]) < 2 ^ 32) :
    Chain ((m.store32 (base + total xs + 8) (base + total (xs ++ [b]))).store32
      (base + total (xs ++ [b]) + 12) (base + total xs)) 0 base
        (xs ++ [b] ++ [⟨size, true⟩]) 0 := by
  have hspan := span_pos b
  have hE : base + total (xs ++ [b]) = base + total xs + b.span := by
    rw [total_append, total_cons, total_nil]
    omega
  rw [chain_snoc, lastAddr_append_singleton]
  refine ⟨(hc.store_next hend).store_outside (Or.inr (by omega)), ?_⟩
  exact (hnew.store_outside (by omega)).store_prev (by omega)

/-- The heap with `bs` blocks and, behind them, a free block not yet linked. -/
structure Grown (h : Kheap) (bs : List Block) (size : Nat) : Prop where
  head : h.heapHead = if bs = [] then 0 else base
  chain : Chain h.mem 0 base bs 0
  block : Header h.mem (base + total bs) ⟨size, true⟩ 0 0
  ends : base + total bs + (16 + size) = h.heapEnd
  limit : h.heapEnd ≤ Kheap.limit

/-- The new block joins a free block in front of it. -/
theorem appendBlock_sound {size : Nat} (hg : Grown h bs size) (hal : ∀ b ∈ bs, b.size % 16 = 0)
    (hsize : size % 16 = 0) (hap : Apart bs) :
    Sound (h.appendBlock (base + total bs)) (join bs ⟨size, true⟩ []) := by
  have hends := hg.ends
  have hlim : h.heapEnd < 2 ^ 32 := Nat.lt_of_le_of_lt hg.limit (by decide)
  have haligned : ∀ b ∈ join bs ⟨size, true⟩ [], b.size % 16 = 0 := by
    refine join_aligned ?_
    intro b hb
    rcases List.mem_append.mp hb with hb | hb
    · exact hal b hb
    · rw [List.mem_singleton.mp hb]
      exact hsize
  have htotal : base + total (join bs ⟨size, true⟩ []) = h.heapEnd := by
    rw [join_total, total_append, total_cons, total_nil, span_mk]
    omega
  unfold appendBlock
  rcases List.eq_nil_or_concat' bs with rfl | ⟨xs, b, rfl⟩
  · -- the first block of all
    have hhead : h.heapHead = 0 := by simpa using hg.head
    rw [if_pos (lastBlock_nil hhead)]
    exact ⟨⟨rfl, ⟨hg.block, trivial⟩, htotal⟩, haligned, List.IsChain.singleton _, hg.limit⟩
  have hhead : h.heapHead = base := by simpa using hg.head
  have hlen : xs.length ≤ maxBlocks := by
    refine length_le_maxBlocks (Nat.le_trans ?_ hg.limit)
    rw [total_append] at hends
    omega
  have hlast := lastBlock_snoc hhead hg.chain hlen
  rw [hlast, if_neg (by have := base_pos; omega)]
  have hnew := chain_extend hg.chain hg.block (by omega)
  refine ⟨⟨?_, coalesce_chain hnew base_pos rfl ?_, htotal⟩, haligned,
    join_apart rfl hap List.IsChain.nil, hg.limit⟩
  · rw [if_neg (join_ne_nil _ _ _)]
    exact hhead
  · rw [← join_total, htotal]
    exact hlim

theorem four_le_expandPages (payload : Nat) : 4 ≤ expandPages payload := Nat.le_max_left _ _

theorem join_free (bs : List Block) (size : Nat) :
    ∃ b ∈ join bs ⟨size, true⟩ [], b.free = true ∧ size ≤ b.size := by
  rcases List.eq_nil_or_concat' bs with rfl | ⟨xs, p, rfl⟩
  · exact ⟨⟨size, true⟩, List.mem_singleton_self _, rfl, Nat.le_refl _⟩
  rw [join_snoc]
  split
  · exact ⟨⟨p.size + (16 + size), true⟩, by simp [mergeNext], rfl, by dsimp only; omega⟩
  · exact ⟨⟨size, true⟩, by simp [mergeNext], rfl, Nat.le_refl _⟩

theorem appendBlock_heapEnd (h : Kheap) (block : Nat) :
    (h.appendBlock block).heapEnd = h.heapEnd := by
  unfold appendBlock
  dsimp only
  split <;> rfl

theorem appendBlock_committed (h : Kheap) (block : Nat) :
    (h.appendBlock block).committedPages = h.committedPages := by
  unfold appendBlock
  dsimp only
  split <;> rfl

/-- An expansion for which there are pages and room: a free block that is large enough joins
the others. -/
structure Expanded (h : Kheap) (bs : List Block) (pages : Nat) (h' : Kheap) : Prop where
  heapEnd : h'.heapEnd = h.heapEnd + pages * 4096
  committed : h'.committedPages = (h.committedPages + pages) % 2 ^ 32
  ready : h'.kheapReady = h.kheapReady
  sound : ∃ bs', Sound h' bs' ∧ payloads base bs' = payloads base bs ∧
    ∃ b ∈ bs', b.free = true ∧ pages * 4096 - 16 ≤ b.size

theorem expand_room (hs : Sound h bs) {payload mappable : Nat}
    (hfits : h.heapEnd + expandPages payload * 4096 ≤ Kheap.limit)
    (hm : expandPages payload ≤ mappable) :
    (h.expand payload mappable).2 = true ∧
      Expanded h bs (expandPages payload) (h.expand payload mappable).1 := by
  have hmin := four_le_expandPages payload
  have hends := hs.ends
  unfold expand
  generalize expandPages payload = pages at hmin hfits hm ⊢
  have hlt : h.heapEnd + pages * 4096 < 2 ^ 32 := Nat.lt_of_le_of_lt hfits (by decide)
  rw [if_neg (by rw [Nat.mod_eq_of_lt hlt]; omega), if_neg (by omega)]
  have hzero := hs.write_past (List.replicate (pages * 4096) 0)
  refine ⟨rfl, ?_, ?_, ?_, join bs ⟨pages * 4096 - 16, true⟩ [], ?_, ?_, join_free bs _⟩
  · dsimp only
    rw [appendBlock_heapEnd]
  · dsimp only
    rw [appendBlock_committed]
  · dsimp only [appendBlock]
    split <;> rfl
  · rw [← hends] at hzero ⊢
    have hsize : (pages * 4096 - 16) % 16 = 0 := by omega
    refine appendBlock_sound ⟨hs.head, ?_, ?_, ?_, ?_⟩ hs.aligned hsize hs.apart
    · exact hzero.congr fun x hx => storeHeader_outside (Or.inl (by have := hx.range; omega))
    · exact storeHeader_header _ _ true (by omega) (by decide) (by decide)
    · show base + total bs + (16 + (pages * 4096 - 16)) = base + total bs + pages * 4096
      omega
    · rw [hends]
      exact hfits
  · rw [join_payloads base rfl, payloads_append, payloads_cons_free rfl]
    exact List.append_nil _

/-- Bytes past the end and the page counter do not matter to the blocks. -/
theorem Sound.scribble (hs : Sound h bs) (bytes : List Byte) (committed : Nat) :
    Sound { h with mem := h.mem.write h.heapEnd bytes, committedPages := committed } bs :=
  ⟨⟨hs.head, hs.write_past _, hs.ends⟩, hs.aligned, hs.apart, hs.limit⟩

/-- What `kheap_expand` does: on success a free block joins the others, on failure
nothing changes. No payload in use moves. -/
theorem expand_sound (hs : Sound h bs) {payload : Nat} (hp : payload ≤ 0x2000000) (mappable : Nat) :
    ∃ bs', Sound (h.expand payload mappable).1 bs' ∧ payloads base bs' = payloads base bs := by
  obtain ⟨-, -, hmax⟩ := expandPages_spec hp
  have hlim := hs.limit
  by_cases hfits : h.heapEnd + expandPages payload * 4096 ≤ Kheap.limit ∧
      expandPages payload ≤ mappable
  · obtain ⟨bs', hs', hps, -⟩ := (expand_room hs hfits.1 hfits.2).2.sound
    exact ⟨bs', hs', hps⟩
  unfold expand
  dsimp only
  split
  · exact ⟨bs, hs, rfl⟩
  next hroom =>
  have hin : h.heapEnd + expandPages payload * 4096 ≤ Kheap.limit := by
    unfold Kheap.limit at hlim hroom ⊢
    omega
  rw [if_pos (by omega)]
  exact ⟨bs, hs.scribble _ _, rfl⟩

/-! ## Allocation -/

theorem alignUpSize_spec {size : Nat} (h : size ≤ 0x2000000) :
    size ≤ alignUpSize size 16 ∧ alignUpSize size 16 ≤ 0x2000000 ∧
      alignUpSize size 16 % 16 = 0 := by
  unfold alignUpSize
  omega

/-- A change of the payloads in use: a new one of at least `need` bytes at `p`. -/
def Adds (ps ps' : List (Nat × Nat)) (p need : Nat) : Prop :=
  ∃ us vs n, ps = us ++ vs ∧ ps' = us ++ (p, n) :: vs ∧ need ≤ n

/-- The block that was found is taken: a front part of it, or all of it if what would be
left is too small for a block. -/
theorem take_sound (hs : Sound h (xs ++ b :: ys)) (hfree : b.free = true) (hneed : need ≤ b.size)
    (halign : need % 16 = 0) :
    ∃ bs', Sound { h with
        mem := (splitBlock h.mem (base + total xs) need).store32 (base + total xs + 4) 0 } bs' ∧
      Adds (payloads base (xs ++ b :: ys)) (payloads base bs') (base + total xs + 16) need := by
  have hlim := hs.lt
  have hends := hs.ends
  have hhead := hs.head
  rw [if_neg (by simp)] at hhead
  have hbal := hs.aligned b (by simp)
  have hbound : b.size < 0x8000000 := by
    rw [total_append, total_cons] at hlim
    unfold base Block.span at hlim
    omega
  obtain ⟨hxs, hbys⟩ := List.isChain_split.mp hs.apart
  have hys : Apart ys := Apart.tail hbys
  have hxs' : Apart xs := (List.isChain_append.mp hxs).1
  have husedHead : ∀ (c : Block) (zs : List Block), c.free = false → Apart zs →
      Apart (c :: zs) := by
    intro c zs hc hzs
    cases zs with
    | nil => exact List.IsChain.singleton _
    | cons d zs =>
      refine List.isChain_cons_cons.mpr ⟨fun hf => ?_, hzs⟩
      rw [hc] at hf
      exact absurd hf.1 (by simp)
  have happend : ∀ (c : Block) (zs : List Block), c.free = false → Apart (c :: zs) →
      Apart (xs ++ c :: zs) := by
    intro c zs hc hzs
    refine List.isChain_append.mpr ⟨hxs', hzs, ?_⟩
    intro x _ y hy hf
    rw [List.head?_cons, Option.mem_some_iff] at hy
    rw [← hy, hc] at hf
    exact absurd hf.2 (by simp)
  by_cases hsplit : need + 32 ≤ b.size
  · -- what is left over becomes a free block
    have hc := (splitBlock_chain hs.chain base_pos hlim hsplit).store_free false
    refine ⟨xs ++ ⟨need, false⟩ :: ⟨b.size - need - 16, true⟩ :: ys,
      ⟨⟨?_, hc, ?_⟩, ?_, ?_, hs.limit⟩,
      payloads base xs, payloads (base + total xs + b.span) ys, need, ?_, ?_, Nat.le_refl _⟩
    · rw [if_neg (by simp)]
      exact hhead
    · show base + total _ = h.heapEnd
      simp only [total_append, total_cons, Block.span] at hends ⊢
      omega
    · intro c hc
      simp only [List.mem_append, List.mem_cons] at hc
      rcases hc with hc | hc | hc | hc
      · exact hs.aligned c (by simp [hc])
      · rw [hc]
        exact halign
      · rw [hc]
        dsimp only
        omega
      · exact hs.aligned c (by simp [hc])
    · refine happend _ _ rfl (husedHead _ _ rfl ?_)
      cases ys with
      | nil => exact List.IsChain.singleton _
      | cons d ys =>
        obtain ⟨hbd, hd⟩ := List.isChain_cons_cons.mp hbys
        exact List.isChain_cons_cons.mpr ⟨fun hf => hbd ⟨hfree, hf.2⟩, hd⟩
    · rw [payloads_append, payloads_cons_free hfree]
    · rw [payloads_append, payloads_cons_used rfl, payloads_cons_free rfl]
      congr 3
      simp only [Block.span]
      omega
  have hnone : splitBlock h.mem (base + total xs) need = h.mem := by
    unfold splitBlock
    rw [(chain_focus.mp hs.chain).2.1.size, if_pos (Or.inr (by omega))]
  have hc := hs.chain.store_free false
  rw [hnone]
  refine ⟨xs ++ { b with free := false } :: ys, ⟨⟨?_, hc, ?_⟩, ?_, ?_, hs.limit⟩,
    payloads base xs, payloads (base + total xs + b.span) ys, b.size, ?_, ?_, hneed⟩
  · rw [if_neg (by simp)]
    exact hhead
  · show base + total _ = h.heapEnd
    simp only [total_append, total_cons, Block.span] at hends ⊢
    omega
  · intro c hc
    simp only [List.mem_append, List.mem_cons] at hc
    rcases hc with hc | hc | hc
    · exact hs.aligned c (by simp [hc])
    · rw [hc]
      exact hbal
    · exact hs.aligned c (by simp [hc])
  · exact happend _ _ rfl (husedHead _ _ rfl hys)
  · rw [payloads_append, payloads_cons_free hfree]
  · rw [payloads_append, payloads_cons_used rfl]
    rfl

/-- A turn of the outer loop finds a block and takes it, or finds none. -/
theorem findFit_sound (hs : Sound h bs) (halign : need % 16 = 0) :
    (findFit h.mem need (maxBlocks + 1) h.heapHead = none ∧ ∀ b ∈ bs, b.free = true →
      b.size < need) ∨
      ∃ block, findFit h.mem need (maxBlocks + 1) h.heapHead = some block ∧
        ∃ bs', Sound { h with mem := (splitBlock h.mem block need).store32 (block + 4) 0 } bs' ∧
          Adds (payloads base bs) (payloads base bs') (block + 16) need := by
  have hfind := findFit_chain need hs.chain base_pos (Nat.lt_succ_of_le hs.length_le)
  rw [← hs.head] at hfind
  rcases hfind with ⟨xs, b, ys, hbs, hf, hn, hres⟩ | hnone
  · subst hbs
    exact Or.inr ⟨_, hres, take_sound hs hf hn halign⟩
  · exact Or.inl hnone

/-- What `kmalloc` does: it fails and moves no payload, or adds one that is large
enough. -/
theorem kmallocLoop_sound (hs : Sound h bs) (halign : need % 16 = 0) (hmax : need ≤ 0x2000000)
    (mappable : List Nat) :
    ∃ bs', Sound (kmallocLoop need mappable h).1 bs' ∧
      (((kmallocLoop need mappable h).2 = 0 ∧ payloads base bs' = payloads base bs) ∨
        Adds (payloads base bs) (payloads base bs') (kmallocLoop need mappable h).2 need) := by
  induction mappable generalizing h bs with
  | nil =>
    unfold kmallocLoop
    rcases findFit_sound hs halign with ⟨hres, -⟩ | ⟨block, hres, bs', hs', hadd⟩ <;> rw [hres]
    · obtain ⟨bs', hs', hp⟩ := expand_sound hs hmax 0
      exact ⟨bs', hs', Or.inl ⟨rfl, hp⟩⟩
    · exact ⟨bs', hs', Or.inr hadd⟩
  | cons pages mappable ih =>
    unfold kmallocLoop
    rcases findFit_sound hs halign with ⟨hres, -⟩ | ⟨block, hres, bs', hs', hadd⟩ <;> rw [hres]
    · obtain ⟨bs', hs', hp⟩ := expand_sound hs hmax pages
      dsimp only
      split
      next h' he =>
        rw [he] at hs'
        exact ⟨bs', hs', Or.inl ⟨rfl, hp⟩⟩
      next h' he =>
      -- with the new block the search starts over
      rw [he] at hs'
      rw [← hp]
      exact ih hs'
    · exact ⟨bs', hs', Or.inr hadd⟩

theorem kmalloc_sound (hs : Sound h bs) {size : Nat} (hsize : size ≤ 0x2000000)
    (mappable : List Nat) :
    ∃ bs', Sound (h.kmalloc size mappable).1 bs' ∧
      (((h.kmalloc size mappable).2 = 0 ∧ payloads base bs' = payloads base bs) ∨
        Adds (payloads base bs) (payloads base bs') (h.kmalloc size mappable).2 size) := by
  obtain ⟨hle, hmax, halign⟩ := alignUpSize_spec hsize
  unfold kmalloc
  split
  · exact ⟨bs, hs, Or.inl ⟨rfl, rfl⟩⟩
  · obtain ⟨bs', hs', hcase⟩ := kmallocLoop_sound hs halign hmax mappable
    refine ⟨bs', hs', hcase.imp id ?_⟩
    intro ⟨us, vs, n, hp, hp', hn⟩
    exact ⟨us, vs, n, hp, hp', Nat.le_trans hle hn⟩

/-- Bytes of a payload in use do not matter to the heap. -/
theorem Sound.write_payload (hs : Sound h bs) {p n k : Nat} {bytes : List Byte}
    (hp : (p, n) ∈ payloads base bs) (hk : k + bytes.length ≤ n) :
    Sound { h with mem := h.mem.write (p + k) bytes } bs := by
  refine ⟨⟨hs.head, hs.chain.congr fun x hx => Store.write_outside ?_, hs.ends⟩, hs.aligned,
    hs.apart, hs.limit⟩
  by_contra hin
  exact payload_not_inHeader hp (by omega) (by omega) hx

theorem kzalloc_sound (hs : Sound h bs) {size : Nat} (hsize : size ≤ 0x2000000)
    (mappable : List Nat) :
    (h.kzalloc size mappable).2 = (h.kmalloc size mappable).2 ∧
    ∃ bs', Sound (h.kzalloc size mappable).1 bs' ∧
      (((h.kzalloc size mappable).2 = 0 ∧ payloads base bs' = payloads base bs) ∨
        Adds (payloads base bs) (payloads base bs') (h.kzalloc size mappable).2 size) := by
  obtain ⟨bs', hs', hcase⟩ := kmalloc_sound hs hsize mappable
  unfold kzalloc
  dsimp only
  refine ⟨rfl, bs', ?_, hcase⟩
  split
  next hne =>
    rcases hcase with ⟨h0, -⟩ | ⟨us, vs, n, -, hp', hn⟩
    · exact absurd h0 hne
    · refine hs'.write_payload (n := n) (k := 0) (by rw [hp']; simp) ?_
      rw [List.length_replicate]
      omega
  · exact hs'

/-- What `kzalloc` returns is zero. -/
theorem kzalloc_zero {size i : Nat} (h : Kheap) (mappable : List Nat)
    (hne : (h.kzalloc size mappable).2 ≠ 0) (hi : i < size) :
    (h.kzalloc size mappable).1.mem ((h.kzalloc size mappable).2 + i) = 0 := by
  have hne : (h.kmalloc size mappable).2 ≠ 0 := hne
  unfold kzalloc
  dsimp only
  rw [if_pos hne]
  show Store.write _ _ _ _ = 0
  rw [Store.write_inside (by rwa [List.length_replicate]), List.getD_eq_getElem?_getD,
    List.getElem?_replicate, if_pos hi]
  rfl

/-- `kfree` of a payload in use takes it out and moves no other. -/
theorem kfree_sound (hs : Sound h bs) {p n : Nat} (hp : (p, n) ∈ payloads base bs) :
    ∃ bs' us vs, Sound (h.kfree p) bs' ∧ payloads base bs = us ++ (p, n) :: vs ∧
      payloads base bs' = us ++ vs := by
  obtain ⟨xs, b, ys, hbs, hused, hpe, hn⟩ := mem_payloads hp
  subst hbs
  have hA : p - 16 = base + total xs := by omega
  have hends := hs.ends
  have hspan : Block.span { b with free := true } = b.span := rfl
  have htotal : total (xs ++ { b with free := true } :: ys) = total (xs ++ b :: ys) := by
    rw [total_append, total_append, total_cons, total_cons, hspan]
  have hfree := hs.chain.store_free true
  have hlt : base + total (xs ++ { b with free := true } :: ys) < 2 ^ 32 := by
    rw [htotal]
    exact hs.lt
  obtain ⟨hxs, hbys⟩ := List.isChain_split.mp hs.apart
  unfold kfree
  rw [if_neg (by omega), hA]
  refine ⟨join xs { b with free := true } ys, payloads base xs,
    payloads (base + total xs + b.span) ys,
    ⟨⟨?_, coalesce_chain hfree base_pos rfl hlt, ?_⟩, join_aligned ?_,
      join_apart rfl (List.isChain_append.mp hxs).1 (Apart.tail hbys), hs.limit⟩, ?_, ?_⟩
  · have hhead := hs.head
    rw [if_neg (by simp)] at hhead
    rw [if_neg (join_ne_nil _ _ _)]
    exact hhead
  · show base + total (join _ _ _) = h.heapEnd
    rw [join_total, htotal]
    exact hends
  · intro c hc
    rcases List.mem_append.mp hc with hc | hc
    · exact hs.aligned c (List.mem_append_left _ hc)
    · rcases List.mem_cons.mp hc with hc | hc
      · rw [hc]
        exact hs.aligned b (by simp)
      · exact hs.aligned c (by simp [hc])
  · rw [payloads_append, payloads_cons_used hused, hpe, hn]
  · rw [join_payloads base rfl, payloads_append, payloads_cons_free rfl, hspan]

end Kheap

/-! ## Runs -/

/-- The heap and what its clients hold: each live pointer with the size asked for. -/
structure HeapUse where
  heap : Kheap
  live : List (Nat × Nat)

namespace HeapUse

variable {u u' : HeapUse} {bs bs' : List Block} {p n : Nat}

/-- A call of the heap, or a client writing to memory it holds. Each allocation comes
with the pages that its expansions find. -/
inductive Call where
  | kmalloc (size : Nat) (mappable : List Nat)
  | kzalloc (size : Nat) (mappable : List Nat)
  | kfree (pointer : Nat)
  | write (pointer offset : Nat) (bytes : List Byte)

/-- The client that gets a null pointer holds nothing. -/
def hold (u : HeapUse) (size : Nat) (r : Kheap × Nat) : HeapUse :=
  ⟨r.1, if r.2 = 0 then u.live else (r.2, size) :: u.live⟩

def step (u : HeapUse) : Call → HeapUse
  | .kmalloc size mappable => u.hold size (u.heap.kmalloc size mappable)
  | .kzalloc size mappable => u.hold size (u.heap.kzalloc size mappable)
  | .kfree pointer => ⟨u.heap.kfree pointer, u.live.filter fun a => a.1 ≠ pointer⟩
  | .write pointer offset bytes =>
    ⟨{ u.heap with mem := u.heap.mem.write (pointer + offset) bytes }, u.live⟩

/-- Sizes are at most 32 MiB, and clients free and write only what they hold. -/
def Proper (u : HeapUse) : Call → Prop
  | .kmalloc size _ => size ≤ 0x2000000
  | .kzalloc size _ => size ≤ 0x2000000
  | .kfree pointer => pointer = 0 ∨ ∃ a ∈ u.live, a.1 = pointer
  | .write pointer offset bytes => ∃ a ∈ u.live, a.1 = pointer ∧ offset + bytes.length ≤ a.2

instance (u : HeapUse) : (call : Call) → Decidable (u.Proper call)
  | .kmalloc size _ => inferInstanceAs (Decidable (size ≤ 0x2000000))
  | .kzalloc size _ => inferInstanceAs (Decidable (size ≤ 0x2000000))
  | .kfree pointer => inferInstanceAs (Decidable (pointer = 0 ∨ ∃ a ∈ u.live, a.1 = pointer))
  | .write pointer offset bytes =>
    inferInstanceAs (Decidable (∃ a ∈ u.live, a.1 = pointer ∧ offset + bytes.length ≤ a.2))

/-- Every live pointer is a payload in use, large enough, and no two are the same. -/
structure Owns (live : List (Nat × Nat)) (ps : List (Nat × Nat)) : Prop where
  nodup : (live.map Prod.fst).Nodup
  inUse : ∀ a ∈ live, ∃ n, (a.1, n) ∈ ps ∧ a.2 ≤ n

theorem Owns.of_subset {live ps ps' : List (Nat × Nat)} (h : Owns live ps)
    (hs : ∀ x ∈ ps, x ∈ ps') :
    Owns live ps' := by
  refine ⟨h.nodup, ?_⟩
  intro a ha
  obtain ⟨n, hn, hle⟩ := h.inUse a ha
  exact ⟨n, hs _ hn, hle⟩

/-- A new payload is not one that anybody holds. -/
theorem Owns.add {live : List (Nat × Nat)} {a size : Nat} (h : Owns live (payloads a bs))
    (hadd : Kheap.Adds (payloads a bs) (payloads a bs') p size) :
    Owns ((p, size) :: live) (payloads a bs') := by
  obtain ⟨us, vs, n, hp, hp', hn⟩ := hadd
  have hold : Owns live (payloads a bs') := by
    refine h.of_subset ?_
    rw [hp, hp']
    intro x hx
    simp only [List.mem_append, List.mem_cons] at hx ⊢
    exact hx.imp id Or.inr
  refine ⟨?_, ?_⟩
  · rw [List.map_cons, List.nodup_cons]
    refine ⟨?_, h.nodup⟩
    intro hmem
    obtain ⟨b, hb, hbp⟩ := List.mem_map.mp hmem
    obtain ⟨k, hk, -⟩ := h.inUse b hb
    have hbp : b.1 = p := hbp
    rw [hbp, hp] at hk
    -- there is a header between the new payload and any other
    have hapart : (us ++ (p, n) :: vs).Pairwise fun u v => u.1 + u.2 + 16 ≤ v.1 := by
      rw [← hp']
      exact payloads_apart
    obtain ⟨-, hcons, hcross⟩ := List.pairwise_append.mp hapart
    rcases List.mem_append.mp hk with hk | hk
    · have hlt : p + k + 16 ≤ p := hcross (p, k) hk (p, n) (List.mem_cons_self ..)
      omega
    · have hlt : p + n + 16 ≤ p := (List.pairwise_cons.mp hcons).1 (p, k) hk
      omega
  · intro b hb
    rcases List.mem_cons.mp hb with hb | hb
    · rw [hb, hp']
      exact ⟨n, by simp, hn⟩
    · exact hold.inUse b hb

theorem Owns.remove {live us vs : List (Nat × Nat)} (h : Owns live (us ++ (p, n) :: vs)) :
    Owns (live.filter fun a => a.1 ≠ p) (us ++ vs) := by
  constructor
  · exact h.nodup.sublist (List.filter_sublist.map Prod.fst)
  · intro a ha
    obtain ⟨hmem, hne⟩ := List.mem_filter.mp ha
    have hne : a.1 ≠ p := by simpa using hne
    obtain ⟨k, hk, hle⟩ := h.inUse a hmem
    refine ⟨k, ?_, hle⟩
    simp only [List.mem_append, List.mem_cons, Prod.mk.injEq] at hk ⊢
    rcases hk with hk | hk | hk
    · exact Or.inl hk
    · exact absurd hk.1 hne
    · exact Or.inr hk

/-- The invariant of a run. -/
def Ok (u : HeapUse) : Prop := ∃ bs, Kheap.Sound u.heap bs ∧ Owns u.live (payloads Kheap.base bs)

/-- An allocation, with or without zeroing. -/
theorem hold_ok {r : Kheap × Nat} {size : Nat} (howns : Owns u.live (payloads Kheap.base bs))
    (h : ∃ bs', Kheap.Sound r.1 bs' ∧
      ((r.2 = 0 ∧ payloads Kheap.base bs' = payloads Kheap.base bs) ∨
        Kheap.Adds (payloads Kheap.base bs) (payloads Kheap.base bs') r.2 size)) :
    (u.hold size r).Ok := by
  obtain ⟨bs', hs', hcase⟩ := h
  refine ⟨bs', hs', ?_⟩
  unfold hold
  rcases hcase with ⟨h0, hp⟩ | hadd
  · rw [if_pos h0, hp]
    exact howns
  split
  · obtain ⟨us, vs, n, hp, hp', -⟩ := hadd
    refine howns.of_subset ?_
    rw [hp, hp']
    intro x hx
    simp only [List.mem_append, List.mem_cons] at hx ⊢
    exact hx.imp id Or.inr
  · exact howns.add hadd

theorem step_ok (u : HeapUse) (call : Call) (h : u.Ok) (hp : u.Proper call) : (u.step call).Ok := by
  obtain ⟨bs, hs, howns⟩ := h
  cases call with
  | kmalloc size mappable => exact hold_ok howns (Kheap.kmalloc_sound hs hp mappable)
  | kzalloc size mappable => exact hold_ok howns (Kheap.kzalloc_sound hs hp mappable).2
  | kfree pointer =>
    rcases hp with h0 | ⟨a, ha, hap⟩
    · -- nobody holds the null pointer
      have hnull : ∀ a ∈ u.live, a.1 ≠ 0 := by
        intro a ha h0
        obtain ⟨n, hn, -⟩ := howns.inUse a ha
        have := (payload_range hn).1
        omega
      have hlive : u.live.filter (fun a => a.1 ≠ pointer) = u.live := by
        rw [List.filter_eq_self]
        intro a ha
        rw [h0]
        simpa using hnull a ha
      refine ⟨bs, ?_, ?_⟩
      · show Kheap.Sound (u.heap.kfree pointer) bs
        rw [h0]
        exact hs
      · show Owns (u.live.filter fun a => a.1 ≠ pointer) _
        rw [hlive]
        exact howns
    obtain ⟨n, hn, -⟩ := howns.inUse a ha
    rw [hap] at hn
    obtain ⟨bs', us, vs, hs', hps, hps'⟩ := Kheap.kfree_sound hs hn
    refine ⟨bs', hs', ?_⟩
    rw [hps] at howns
    rw [hps']
    exact howns.remove
  | write pointer offset bytes =>
    obtain ⟨a, ha, hap, hfits⟩ := hp
    obtain ⟨n, hn, hle⟩ := howns.inUse a ha
    rw [hap] at hn
    exact ⟨bs, hs.write_payload hn (Nat.le_trans hfits hle), howns⟩

/-- What the heap promises: its blocks tile it, in sizes that are multiples of 16 and with
no free neighbours, and live allocations are aligned, inside a block in use of at least
the size asked for, and apart from each other. -/
def Intact (u : HeapUse) : Prop :=
  ∃ bs, Kheap.Tiles u.heap bs ∧ (∀ b ∈ bs, b.size % 16 = 0) ∧ Kheap.Apart bs ∧
    (∀ a ∈ u.live, a.1 % 16 = 0 ∧ ∃ n, (a.1, n) ∈ payloads Kheap.base bs ∧ a.2 ≤ n) ∧
    u.live.Pairwise fun a b => a.1 + a.2 ≤ b.1 ∨ b.1 + b.2 ≤ a.1

theorem payload_aligned {a : Nat} (ha : a % 16 = 0) (hbs : ∀ b ∈ bs, b.size % 16 = 0)
    (h : (p, n) ∈ payloads a bs) : p % 16 = 0 := by
  have htotal : ∀ xs : List Block, (∀ b ∈ xs, b.size % 16 = 0) → total xs % 16 = 0 := by
    intro xs hxs
    induction xs with
    | nil => rfl
    | cons b xs ih =>
      have := hxs b (List.mem_cons_self ..)
      have := ih fun c hc => hxs c (List.mem_cons_of_mem _ hc)
      rw [total_cons, Block.span]
      omega
  obtain ⟨xs, b, ys, he, -, hp, -⟩ := mem_payloads h
  have := htotal xs fun c hc => hbs c (by rw [he]; simp [hc])
  omega

/-- Two payloads at different addresses do not meet. -/
theorem payloads_disjoint {a q k : Nat} (h : (p, n) ∈ payloads a bs) (h' : (q, k) ∈ payloads a bs)
    (hne : p ≠ q) : p + n ≤ q ∨ q + k ≤ p := by
  have hpair : (payloads a bs).Pairwise fun u v => u.1 + u.2 ≤ v.1 ∨ v.1 + v.2 ≤ u.1 :=
    payloads_apart.imp fun huv => Or.inl (by omega)
  have : Std.Symm fun u v : Nat × Nat => u.1 + u.2 ≤ v.1 ∨ v.1 + v.2 ≤ u.1 := ⟨fun _ _ => Or.symm⟩
  exact hpair.forall h h' fun he => hne (congrArg Prod.fst he)

theorem Ok.intact (h : u.Ok) : u.Intact := by
  obtain ⟨bs, hs, howns⟩ := h
  refine ⟨bs, hs.toTiles, hs.aligned, hs.apart, ?_, ?_⟩
  · intro a ha
    obtain ⟨n, hn, hle⟩ := howns.inUse a ha
    exact ⟨payload_aligned (by decide) hs.aligned hn, n, hn, hle⟩
  · refine (List.pairwise_map.mp howns.nodup).imp_of_mem ?_
    intro a b ha hb hne
    obtain ⟨n, hn, hle⟩ := howns.inUse a ha
    obtain ⟨k, hk, hle'⟩ := howns.inUse b hb
    rcases payloads_disjoint hn hk hne with hc | hc
    · exact Or.inl (by omega)
    · exact Or.inr (by omega)

/-- The heap after `kheap_init`. -/
def boot (mem : Store) (mappable : Nat) : HeapUse := ⟨Kheap.init mem mappable, []⟩

theorem boot_ok (mem : Store) (mappable : Nat) : (boot mem mappable).Ok := by
  have hempty : Kheap.Sound ⟨mem, 0, Kheap.base, 0, false⟩ [] :=
    ⟨⟨rfl, trivial, rfl⟩, fun b hb => absurd hb List.not_mem_nil, List.IsChain.nil,
      (by decide : Kheap.base ≤ Kheap.limit)⟩
  have hnone : ∀ ps, Owns [] ps := fun ps => ⟨List.nodup_nil,
    fun a ha => absurd ha List.not_mem_nil⟩
  obtain ⟨bs, hs, -⟩ := Kheap.expand_sound hempty (by decide : 4096 ≤ 0x2000000) mappable
  unfold boot Kheap.init
  dsimp only
  split
  next h he =>
    rw [he] at hs
    exact ⟨bs, hs, hnone _⟩
  next h he =>
    rw [he] at hs
    exact ⟨bs, ⟨⟨hs.head, hs.chain, hs.ends⟩, hs.aligned, hs.apart, hs.limit⟩, hnone _⟩

/-- **Heap integrity.** After any calls with sizes up to 32 MiB, with clients that free and
write only what they hold and expansions that succeed or fail in any pattern, the heap is
intact, and what a `kzalloc` returns from there is zero. -/
theorem run_heap_intact (mem : Store) (mappable : Nat) (calls : List Call)
    (hcalls : Guarded step Proper (boot mem mappable) calls) :
    (run step (boot mem mappable) calls).Intact ∧
      ∀ (size : Nat) (pages : List Nat),
        ((run step (boot mem mappable) calls).heap.kzalloc size pages).2 ≠ 0 → ∀ i < size,
          ((run step (boot mem mappable) calls).heap.kzalloc size pages).1.mem
            (((run step (boot mem mappable) calls).heap.kzalloc size pages).2 + i) = 0 := by
  refine ⟨(guarded_invariant step_ok calls (boot_ok mem mappable) hcalls).intact, ?_⟩
  intro size pages hne i hi
  exact Kheap.kzalloc_zero _ pages hne hi

/-- The self test of the heap, with a client that fills what it was given. -/
theorem run_heap_intact_selftest :
    (run step (boot (fun _ => 0xAA) 4) [.kmalloc 24 [], .write 0xF8000010 0 (List.replicate 24 1),
      .kzalloc 64 [], .kfree 0xF8000010, .kmalloc 16 [], .kfree 0xF8000010,
        .kfree 0xF8000040]).Intact := by
  exact (run_heap_intact (fun _ => 0xAA) 4 _ (by decide +kernel)).1

end HeapUse

end Riverix.Memory
