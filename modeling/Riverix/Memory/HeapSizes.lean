import Riverix.Memory.HeapPages

/-!
# `kmalloc` for every size

`kmalloc` rounds the size up, adds a header, rounds to pages and adds the result to
`heap_end`, all in 32 bits. For sizes up to `0xFFFFEFF0` the first three are exact; beyond it
they wrap, to a block of no bytes or to an expansion by four pages that is repeated until it
fails. The last sum wraps for expansions that end beyond 4 GiB, which then pass the limit
check.

`Bounded` says for which states and sizes none of this shows. `kmalloc_bounded` is what a
bounded call does, and **`kmalloc_safe_iff`** that these are exactly the safe ones, in every
state that bounded calls lead to. The same runs carry the second result,
**`expansion_leaves_no_trace`**: `committed_pages` counts the pages of the heap as long as
every expansion that fails has mapped no page before it fails, for the rollback does not
count them back.
-/

namespace Riverix.Memory

open Riverix.Lib

namespace PagedHeap

/-- The block that was found is split and taken. -/
def take (s : PagedHeap) (block alignedSize : Nat) : PagedHeap :=
  { s with heap := { s.heap with
      mem := (Kheap.splitBlock s.heap.mem block alignedSize).store32 (block + 4) 0 } }

/-- The outer loop of `kmalloc`, for a number of turns. -/
def kmallocLoop (directoryPhys alignedSize : Nat) : Nat → PagedHeap → Option (PagedHeap × Nat)
  | 0, _ => none
  | turns + 1, s =>
    match Kheap.findFit s.heap.mem alignedSize (Kheap.maxBlocks + 1) s.heap.heapHead with
    | some block => some (s.take block alignedSize, block + 16)
    | none =>
      match s.expand directoryPhys alignedSize with
      | (s, false) => some (s, 0)
      | (s, true) => kmallocLoop directoryPhys alignedSize turns s

/-- `kmalloc`, with a directory in force; `none` is a loop that has not ended yet. -/
def kmalloc (s : PagedHeap) (directoryPhys size turns : Nat) : Option (PagedHeap × Nat) :=
  if !s.heap.kheapReady || size = 0 then some (s, 0)
  else kmallocLoop directoryPhys (Kheap.alignUpSize size 16) turns s

/-! ## What is wanted, and when it holds -/

/-- The same blocks, between the same ends. -/
structure SameBlocks (h h' : Kheap) : Prop where
  head : h'.heapHead = h.heapHead
  heapEnd : h'.heapEnd = h.heapEnd
  bytes : ∀ a < h.heapEnd, h'.mem a = h.mem a

/-- `kmalloc` ends, with a null pointer and the same blocks or with a payload of at least
`size` bytes, and the heap stays inside its window. -/
def KmallocSafe (s : PagedHeap) (d size : Nat) : Prop :=
  ∃ turns s' p, s.kmalloc d size turns = some (s', p) ∧
    ((p = 0 ∧ SameBlocks s.heap s'.heap) ∨
      (p ≠ 0 ∧ ∃ bs n, Kheap.Sound s'.heap bs ∧ (p, n) ∈ payloads Kheap.base bs ∧ size ≤ n)) ∧
    s'.heap.heapEnd ≤ Kheap.limit ∧ ∀ va ∈ s'.mapped, Kheap.base ≤ va ∧ va < Kheap.limit

/-- The search of `kmalloc` finds a block for `size` bytes. -/
def Fits (s : PagedHeap) (size : Nat) : Prop :=
  Kheap.findFit s.heap.mem (Kheap.alignUpSize size 16) (Kheap.maxBlocks + 1) s.heap.heapHead ≠ none

/-- Nothing is computed from a sum that wraps: the size can be rounded and a block for it is
there, or the expansion ends below 4 GiB, or the frames do not suffice to leave the window; or
the size cannot be rounded and neither is there a free block nor can the heap grow. -/
def Bounded (s : PagedHeap) (size : Nat) : Prop :=
  s.heap.kheapReady = false ∨ size = 0 ∨
    (size ≤ 0xFFFFEFF0 ∧ (s.Fits size ∨
      s.heap.heapEnd + Kheap.expandPages (Kheap.alignUpSize size 16) * 4096 < 2 ^ 32 ∨
      s.heap.heapEnd + s.machine.palloc.freeFrames * 4096 ≤ Kheap.limit)) ∨
    (0xFFFFEFF0 < size ∧ ¬s.Fits size ∧
      (Kheap.limit < s.heap.heapEnd + 0x4000 ∨ s.machine.palloc.freeFrames < 4))

/-- The expansion is refused, or finds no frame at all, or finds all of them. -/
def Clean (s : PagedHeap) (payload : Nat) : Prop :=
  s.Refused payload ∨ s.machine.palloc.freeFrames = 0 ∨
    (Kheap.expandPages payload ≤ s.machine.palloc.freeFrames ∧
      s.heap.heapEnd + Kheap.expandPages payload * 4096 ≤ Kheap.limit)

/-- A call of `kmalloc` that expands the heap in a clean way, or not at all. -/
def CleanCall (s : PagedHeap) (size : Nat) : Prop :=
  s.heap.kheapReady = false ∨ size = 0 ∨ s.Fits size ∨ s.Clean (Kheap.alignUpSize size 16)

/-! ## The sizes -/

theorem alignUp_exact {size : Nat} (h : size ≤ 0xFFFFEFF0) :
    size ≤ Kheap.alignUpSize size 16 ∧ Kheap.alignUpSize size 16 ≤ 0xFFFFEFF0 := by
  unfold Kheap.alignUpSize
  omega

theorem alignUp_mod (size : Nat) : Kheap.alignUpSize size 16 % 16 = 0 := by
  unfold Kheap.alignUpSize
  omega

/-- Up to the bound the new pages have room for the payload. -/
theorem expandPages_exact {payload : Nat} (h : payload ≤ 0xFFFFEFF0) :
    payload ≤ Kheap.expandPages payload * 4096 - 16 ∧ Kheap.expandPages payload ≤ 0xFFFFF := by
  unfold Kheap.expandPages Kheap.alignUpSize
  omega

/-- Beyond it the sum wraps, and the heap grows by four pages. -/
theorem expandPages_wrapped {size : Nat} (h : 0xFFFFEFF0 < size) (hlt : size < 2 ^ 32) :
    Kheap.expandPages (Kheap.alignUpSize size 16) = 4 := by
  unfold Kheap.expandPages Kheap.alignUpSize
  omega

/-! ## The invariant -/

variable {s s' : PagedHeap} {k d payload size turns p x : Nat} {bs : List Block}

/-- The pages and the blocks of the heap are in order, and no other page was mapped. -/
structure Ok (s : PagedHeap) (k : Nat) (bs : List Block) : Prop where
  holds : Holds s k
  sound : Kheap.Sound s.heap bs
  inside : ∀ va ∈ s.mapped, Kheap.base ≤ va ∧ va < Kheap.limit

theorem inside_append (h : Ok s k bs) {n : Nat} (hn : k + n ≤ 16384) :
    ∀ va ∈ s.mapped ++ pagesFrom s.heap.heapEnd n, Kheap.base ≤ va ∧ va < Kheap.limit := by
  intro va hva
  rcases List.mem_append.mp hva with hva | hva
  · exact h.inside va hva
  have hrange := mem_pagesFrom hva
  have hat : heapRegion.at k = Kheap.base + k * 4096 := rfl
  rw [h.holds.heapEnd, hat] at hrange
  unfold Kheap.base Kheap.limit at *
  omega

theorem SameBlocks.refl (h : Kheap) : SameBlocks h h := ⟨rfl, rfl, fun _ _ => rfl⟩

/-- Too few pages: what is written lies behind the blocks. -/
theorem expand_sameBlocks {h : Kheap} {mappable : Nat} (hm : mappable < Kheap.expandPages payload) :
    SameBlocks h (h.expand payload mappable).1 := by
  unfold Kheap.expand
  dsimp only
  split
  · exact SameBlocks.refl h
  · exact ⟨rfl, rfl, fun a ha => Store.write_outside (Or.inl ha)⟩

/-- A failed expansion: the blocks, memory and the counts are as they were, and the pages that
were mapped on the way are still counted. -/
structure FailedExpansion (s s' : PagedHeap) (k : Nat) (bs : List Block) (count : Nat) : Prop where
  ok : Ok s' k bs
  same : SameBlocks s.heap s'.heap
  restored : Restored s.machine s'.machine
  committed : s'.heap.committedPages = (s.heap.committedPages + count) % 2 ^ 32
  ready : s'.heap.kheapReady = s.heap.kheapReady

/-- A successful one: there is a free block for what was asked for. -/
structure DoneExpansion (s s' : PagedHeap) (k : Nat) (bs : List Block) (d pages : Nat) : Prop where
  ok : ∃ bs', Ok s' (k + pages) bs' ∧ payloads Kheap.base bs' = payloads Kheap.base bs ∧
    ∃ b ∈ bs', b.free = true ∧ pages * 4096 - 16 ≤ b.size
  inForce : InForce s'.machine d
  heapEnd : s'.heap.heapEnd = s.heap.heapEnd + pages * 4096
  committed : s'.heap.committedPages = (s.heap.committedPages + pages) % 2 ^ 32
  ready : s'.heap.kheapReady = s.heap.kheapReady

theorem expand_refused_failed (h : Ok s k bs) (hgo : s.Refused payload) :
    (s.expand d payload).2 = false ∧ FailedExpansion s (s.expand d payload).1 k bs 0 := by
  rw [expand_refused hgo]
  exact ⟨rfl, h, SameBlocks.refl _, Restored.refl h.holds.pages.window.palloc,
    (Nat.mod_eq_of_lt h.holds.committed).symm, rfl⟩

theorem expand_short_failed (h : Ok s k bs) (hd : InForce s.machine d) (hgo : ¬s.Refused payload)
    (hroom : k + s.machine.palloc.freeFrames ≤ 16384)
    (hfree : s.machine.palloc.freeFrames < Kheap.expandPages payload) :
    (s.expand d payload).2 = false ∧
      FailedExpansion s (s.expand d payload).1 k bs s.machine.palloc.freeFrames := by
  obtain ⟨m', he, hr⟩ := expand_short h.holds hd hgo hroom hfree
  have hheap : (s.heap.expand payload s.machine.palloc.freeFrames).1 =
      { s.heap with
        mem := s.heap.mem.write s.heap.heapEnd
          (List.replicate (s.machine.palloc.freeFrames * 4096) 0)
        committedPages := (s.heap.committedPages + s.machine.palloc.freeFrames) % 2 ^ 32 } := by
    unfold Refused at hgo
    unfold Kheap.expand
    rw [if_neg hgo, if_pos hfree]
  have hsame := expand_sameBlocks (h := s.heap) hfree
  rw [he]
  refine ⟨rfl, ⟨⟨?_, ?_, h.holds.le, ?_⟩, ?_, inside_append h hroom⟩, hsame, hr, ?_, ?_⟩
  · exact (h.holds.pages.took hr.counts hr.scribbles).1
  · exact hsame.heapEnd.trans h.holds.heapEnd
  · rw [hheap]
    exact Nat.mod_lt _ (by decide)
  · rw [hheap]
    exact h.sound.scribble _ _
  · rw [hheap]
  · rw [hheap]

theorem expand_done_spec (h : Ok s k bs) (hd : InForce s.machine d)
    (hroom : k + Kheap.expandPages payload ≤ 16384)
    (hfree : Kheap.expandPages payload ≤ s.machine.palloc.freeFrames) :
    (s.expand d payload).2 = true ∧
      DoneExpansion s (s.expand d payload).1 k bs d (Kheap.expandPages payload) := by
  obtain ⟨m', he, hown, hd', -⟩ := expand_done h.holds hd hroom hfree
  obtain ⟨-, hexp⟩ := Kheap.expand_room h.sound ((room_iff h.holds).mp hroom) hfree
  obtain ⟨bs', hs', hps, hblock⟩ := hexp.sound
  rw [he]
  refine ⟨rfl, ⟨bs', ⟨⟨hown, ?_, hroom, ?_⟩, hs', inside_append h hroom⟩, hps, hblock⟩, hd',
    hexp.heapEnd, hexp.committed, hexp.ready⟩
  · show (s.heap.expand payload s.machine.palloc.freeFrames).1.heapEnd = _
    rw [hexp.heapEnd, h.holds.heapEnd]
    unfold Region.at
    omega
  · show (s.heap.expand payload s.machine.palloc.freeFrames).1.committedPages < 2 ^ 32
    rw [hexp.committed]
    exact Nat.mod_lt _ (by decide)

/-! ## A bounded call -/

/-- What a call of `kmalloc` comes to: the heap is in order, and it has the same blocks or a
payload more. After a clean call the pages are counted if they were before. -/
structure Mallocs (s s' : PagedHeap) (k k' : Nat) (bs bs' : List Block) (size p : Nat) : Prop where
  ok : Ok s' k' bs'
  answer : (p = 0 ∧ SameBlocks s.heap s'.heap ∧ payloads Kheap.base bs' = payloads Kheap.base bs) ∨
    (p ≠ 0 ∧ Kheap.Adds (payloads Kheap.base bs) (payloads Kheap.base bs') p size)
  counted : s.CleanCall size → s.heap.committedPages = k → s'.heap.committedPages = k'

/-- A block was found. -/
theorem kmallocLoop_fits {need : Nat} (h : Ok s k bs) (halign : need % 16 = 0)
    (hfit : Kheap.findFit s.heap.mem need (Kheap.maxBlocks + 1) s.heap.heapHead ≠ none) :
    ∃ s' p bs', Ok s' k bs' ∧ p ≠ 0 ∧ s'.heap.heapEnd = s.heap.heapEnd ∧
      s'.heap.committedPages = s.heap.committedPages ∧
      Kheap.Adds (payloads Kheap.base bs) (payloads Kheap.base bs') p need ∧
      ∀ turns, kmallocLoop d need (turns + 1) s = some (s', p) := by
  rcases Kheap.findFit_sound h.sound halign with ⟨hnone, -⟩ | ⟨block, hres, bs', hs', hadd⟩
  · exact absurd hnone hfit
  · refine ⟨s.take block need, block + 16, bs',
      ⟨⟨h.holds.pages, h.holds.heapEnd, h.holds.le, h.holds.committed⟩,
      hs', h.inside⟩, by omega, rfl, rfl, hadd, fun turns => ?_⟩
    unfold kmallocLoop
    rw [hres]

/-- No block was found: the search starts over in a larger heap, if it could grow. -/
theorem kmallocLoop_next {need : Nat}
    (hfit : Kheap.findFit s.heap.mem need (Kheap.maxBlocks + 1) s.heap.heapHead = none)
    (turns : Nat) :
    kmallocLoop d need (turns + 1) s = if (s.expand d need).2 = true
      then kmallocLoop d need turns (s.expand d need).1 else some ((s.expand d need).1, 0) := by
  rw [kmallocLoop, hfit]
  dsimp only
  split
  next s' heq => rw [heq, if_neg (by simp)]
  next s' heq => rw [heq, if_pos rfl]

/-- In the heap that has grown the block is there. -/
theorem fits_of_block (h : Ok s k bs) {need : Nat} (halign : need % 16 = 0)
    {b : Block} (hb : b ∈ bs) (hfree : b.free = true) (hsize : need ≤ b.size) :
    Kheap.findFit s.heap.mem need (Kheap.maxBlocks + 1) s.heap.heapHead ≠ none := by
  rcases Kheap.findFit_sound h.sound halign with ⟨-, hall⟩ | ⟨block, hres, -⟩
  · have := hall b hb hfree
    omega
  · rw [hres]
    exact Option.some_ne_none _

/-- What a bounded call finds when there is no block: the expansion is refused, or fails inside
the window, or succeeds and has room for the size. -/
theorem bounded_cases (h : Ok s k bs) (hready : s.heap.kheapReady = true) (hne : size ≠ 0)
    (hlt : size < 2 ^ 32) (hb : s.Bounded size) (hfit : ¬s.Fits size) :
    s.Refused (Kheap.alignUpSize size 16) ∨
      (¬s.Refused (Kheap.alignUpSize size 16) ∧
        s.machine.palloc.freeFrames < Kheap.expandPages (Kheap.alignUpSize size 16) ∧
        k + s.machine.palloc.freeFrames ≤ 16384) ∨
      (Kheap.expandPages (Kheap.alignUpSize size 16) ≤ s.machine.palloc.freeFrames ∧
        k + Kheap.expandPages (Kheap.alignUpSize size 16) ≤ 16384 ∧ size ≤ 0xFFFFEFF0) := by
  have hend : s.heap.heapEnd = Kheap.base + k * 4096 := h.holds.heapEnd
  have hle := h.holds.le
  by_cases hgo : s.Refused (Kheap.alignUpSize size 16)
  · exact Or.inl hgo
  right
  have hcheck := hgo
  unfold Refused at hcheck
  rcases hb with hb | hb | ⟨hsize, hb⟩ | ⟨hsize, -, hb⟩
  · rw [hready] at hb
    cases hb
  · exact absurd hb hne
  · generalize Kheap.expandPages (Kheap.alignUpSize size 16) = pages at hb hcheck ⊢
    generalize s.machine.palloc.freeFrames = free at hb ⊢
    unfold Kheap.base at hend
    unfold Kheap.limit at hb hcheck
    rcases hb with hb | hb | hb
    · exact absurd hb hfit
    · rw [Nat.mod_eq_of_lt hb] at hcheck
      by_cases hpages : free < pages
      · exact Or.inl ⟨hgo, hpages, by omega⟩
      · exact Or.inr ⟨by omega, by omega, hsize⟩
    · by_cases hpages : free < pages
      · exact Or.inl ⟨hgo, hpages, by omega⟩
      · exact Or.inr ⟨by omega, by omega, hsize⟩
  rw [expandPages_wrapped hsize hlt] at hcheck ⊢
  unfold Kheap.base at hend
  unfold Kheap.limit at hb hcheck
  left
  refine ⟨hgo, ?_⟩
  omega

theorem Adds.mono {ps ps' : List (Nat × Nat)} {need : Nat} (h : Kheap.Adds ps ps' p need)
    (hle : size ≤ need) : Kheap.Adds ps ps' p size := by
  obtain ⟨us, vs, n, h₁, h₂, h₃⟩ := h
  exact ⟨us, vs, n, h₁, h₂, Nat.le_trans hle h₃⟩

/-- A bounded call ends within two turns. -/
theorem kmalloc_bounded (h : Ok s k bs) (hd : InForce s.machine d) (hlt : size < 2 ^ 32)
    (hb : s.Bounded size) :
    ∃ s' p k' bs', Mallocs s s' k k' bs bs' size p ∧
      ∀ turns, s.kmalloc d size (turns + 2) = some (s', p) := by
  by_cases hskip : (!s.heap.kheapReady || decide (size = 0)) = true
  · refine ⟨s, 0, k, bs, ⟨h, Or.inl ⟨rfl, SameBlocks.refl _, rfl⟩, fun _ hc => hc⟩, fun turns => ?_⟩
    unfold kmalloc
    rw [if_pos hskip]
  have hrun : ∀ turns, s.kmalloc d size turns = kmallocLoop d
      (Kheap.alignUpSize size 16) turns s := by
    intro turns
    unfold kmalloc
    rw [if_neg hskip]
  have hready : s.heap.kheapReady = true := by
    by_contra hr
    exact hskip (by simp [hr])
  have hne : size ≠ 0 := by
    rintro rfl
    exact hskip (by simp)
  have halign := alignUp_mod size
  by_cases hfit : s.Fits size
  · have hsize : size ≤ 0xFFFFEFF0 := by
      rcases hb with hb | hb | ⟨hb, -⟩ | ⟨-, hb, -⟩
      · rw [hready] at hb
        cases hb
      · exact absurd hb hne
      · exact hb
      · exact absurd hfit hb
    obtain ⟨s', p, bs', hok, hp, -, hc, hadd, hloop⟩ := kmallocLoop_fits (d := d) h halign hfit
    refine ⟨s', p, k, bs', ⟨hok, Or.inr ⟨hp, Adds.mono hadd (alignUp_exact hsize).1⟩, ?_⟩,
      fun turns => ?_⟩
    · intro _ hcount
      rw [hc, hcount]
    · rw [hrun]
      exact hloop (turns + 1)
  have hnone : Kheap.findFit s.heap.mem (Kheap.alignUpSize size 16) (Kheap.maxBlocks + 1)
      s.heap.heapHead = none := not_not.mp hfit
  rcases bounded_cases h hready hne hlt hb hfit with hgo | ⟨hgo, hfree,
    hroom⟩ | ⟨hfree, hroom, hsize⟩
  · obtain ⟨he, hfailed⟩ := expand_refused_failed (d := d) h hgo
    refine ⟨_, 0, k, bs, ⟨hfailed.ok, Or.inl ⟨rfl, hfailed.same, rfl⟩, fun _ hc => ?_⟩,
      fun turns => ?_⟩
    · rw [hfailed.committed, Nat.add_zero, hc, ← hc, Nat.mod_eq_of_lt h.holds.committed]
    · rw [hrun, kmallocLoop_next hnone, he, if_neg (by simp)]
  · obtain ⟨he, hfailed⟩ := expand_short_failed h hd hgo hroom hfree
    refine ⟨_, 0, k, bs, ⟨hfailed.ok, Or.inl ⟨rfl, hfailed.same, rfl⟩, fun hclean hc => ?_⟩,
      fun turns => ?_⟩
    · have hzero : s.machine.palloc.freeFrames = 0 := by
        rcases hclean with hr | hz | hf | hr | hz | ⟨hall, -⟩
        · rw [hready] at hr
          cases hr
        · exact absurd hz hne
        · exact absurd hf hfit
        · exact absurd hr hgo
        · exact hz
        · omega
      rw [hfailed.committed, hzero, Nat.add_zero, hc, ← hc, Nat.mod_eq_of_lt h.holds.committed]
    · rw [hrun, kmallocLoop_next hnone, he, if_neg (by simp)]
  obtain ⟨he, hdone⟩ := expand_done_spec h hd hroom hfree
  obtain ⟨bs₁, hok₁, hps, b, hb₁, hbf, hbs⟩ := hdone.ok
  have hpay := (expandPages_exact (alignUp_exact hsize).2).1
  have hfit₁ := fits_of_block hok₁ halign hb₁ hbf (Nat.le_trans hpay hbs)
  obtain ⟨s', p, bs', hok, hp, -, hc, hadd, hloop⟩ := kmallocLoop_fits (d := d) hok₁ halign hfit₁
  rw [hps] at hadd
  refine ⟨s', p, _, bs', ⟨hok, Or.inr ⟨hp, Adds.mono hadd (alignUp_exact hsize).1⟩,
    fun _ hcount => ?_⟩,
    fun turns => ?_⟩
  · rw [hc, hdone.committed, hcount]
    exact Nat.mod_eq_of_lt (by omega)
  · rw [hrun, kmallocLoop_next hnone, if_pos he]
    exact hloop turns

/-! ## A call that is not bounded -/

/-- No payload is longer than the window. -/
theorem payload_lt {n : Nat} {h : Kheap} (hs : Kheap.Sound h bs)
    (hn : (p, n) ∈ payloads Kheap.base bs) :
    n < 0x4000000 := by
  have hrange := payload_range hn
  have hends := hs.ends
  have hlim := hs.limit
  unfold Kheap.limit at hlim
  unfold Kheap.base at hrange hends
  omega

theorem expand_mapped (hx : x ∈ s.mapped) (d payload : Nat) :
    x ∈ (s.expand d payload).1.mapped := by
  unfold expand
  dsimp only
  split
  · exact hx
  have hlog := grow_mapped (d := d) hx 0 (Kheap.expandPages payload)
  split
  next s' he =>
    rw [he] at hlog
    exact hlog
  next s' he =>
    rw [he] at hlog
    exact hlog

theorem kmallocLoop_mapped {need : Nat} (hx : x ∈ s.mapped)
    (hrun : kmallocLoop d need turns s = some (s', p)) : x ∈ s'.mapped := by
  induction turns generalizing s with
  | zero => cases hrun
  | succ turns ih =>
    cases hfit : Kheap.findFit s.heap.mem need (Kheap.maxBlocks + 1) s.heap.heapHead with
    | some block =>
      rw [kmallocLoop, hfit] at hrun
      obtain ⟨rfl, -⟩ := Prod.mk.inj (Option.some.inj hrun)
      exact hx
    | none =>
      have hx' := expand_mapped hx d need
      cases he : (s.expand d need).2 with
      | false =>
        rw [kmallocLoop_next hfit, he, if_neg (by simp)] at hrun
        obtain ⟨rfl, -⟩ := Prod.mk.inj (Option.some.inj hrun)
        exact hx'
      | true =>
        rw [kmallocLoop_next hfit, if_pos he] at hrun
        exact ih hx' hrun

/-- An expansion by four pages either fails or succeeds inside the window. -/
theorem expand_four (h : Ok s k bs) (hd : InForce s.machine d)
    (hpages : Kheap.expandPages payload = 4) :
    ((s.expand d payload).2 = false ∧ (s.expand d payload).1.heap.heapEnd = s.heap.heapEnd) ∨
      ((s.expand d payload).2 = true ∧
        DoneExpansion s (s.expand d payload).1 k bs d 4) := by
  by_cases hgo : s.Refused payload
  · obtain ⟨he, hfailed⟩ := expand_refused_failed (d := d) h hgo
    exact Or.inl ⟨he, hfailed.same.heapEnd⟩
  have hroom : k + Kheap.expandPages payload ≤ 16384 := by
    rw [room_iff h.holds]
    have hlim := h.sound.limit
    unfold Refused at hgo
    rw [hpages] at hgo ⊢
    unfold Kheap.limit at hgo hlim ⊢
    omega
  by_cases hfree : Kheap.expandPages payload ≤ s.machine.palloc.freeFrames
  · have hdone := expand_done_spec h hd hroom hfree
    rw [hpages] at hdone
    exact Or.inr hdone
  · obtain ⟨he, hfailed⟩ := expand_short_failed h hd hgo (by omega) (by omega)
    exact Or.inl ⟨he, hfailed.same.heapEnd⟩

/-- Repeated expansions by four pages never move the end back. -/
theorem kmallocLoop_heapEnd {need : Nat} (h : Ok s k bs) (hd : InForce s.machine d)
    (hpages : Kheap.expandPages need = 4) (hrun : kmallocLoop d need turns s = some (s', p)) :
    s.heap.heapEnd ≤ s'.heap.heapEnd := by
  induction turns generalizing s k bs with
  | zero => cases hrun
  | succ turns ih =>
    cases hfit : Kheap.findFit s.heap.mem need (Kheap.maxBlocks + 1) s.heap.heapHead with
    | some block =>
      rw [kmallocLoop, hfit] at hrun
      obtain ⟨rfl, -⟩ := Prod.mk.inj (Option.some.inj hrun)
      exact Nat.le_refl _
    | none =>
      rcases expand_four h hd hpages with ⟨he, hend⟩ | ⟨he, hdone⟩
      · rw [kmallocLoop_next hfit, he, if_neg (by simp)] at hrun
        obtain ⟨rfl, -⟩ := Prod.mk.inj (Option.some.inj hrun)
        exact hend.ge
      rw [kmallocLoop_next hfit, if_pos he] at hrun
      obtain ⟨bs₁, hok₁, -⟩ := hdone.ok
      have hle := ih hok₁ hdone.inForce hrun
      rw [hdone.heapEnd] at hle
      omega

/-- A size that cannot be rounded is refused cleanly or not at all. -/
theorem wrapped_unsafe (h : Ok s k bs) (hd : InForce s.machine d) (hsize : 0xFFFFEFF0 < size)
    (hlt : size < 2 ^ 32) (hready : s.heap.kheapReady = true)
    (hgrows : s.Fits size ∨
      (s.heap.heapEnd + 0x4000 ≤ Kheap.limit ∧ 4 ≤ s.machine.palloc.freeFrames)) :
    ¬s.KmallocSafe d size := by
  rintro ⟨turns, s', p, hrun, hanswer, -, -⟩
  have hne : size ≠ 0 := by omega
  have hpages := expandPages_wrapped hsize hlt
  unfold kmalloc at hrun
  rw [if_neg (by simp [hready, hne])] at hrun
  rcases hanswer with ⟨rfl, hsame⟩ | ⟨-, bs', n, hs', hn, hle⟩
  · cases turns with
    | zero => cases hrun
    | succ turns =>
      by_cases hfit : s.Fits size
      · -- a block of the wrong size is returned
        obtain ⟨s₁, p, -, -, hp, -, -, -, hloop⟩ := kmallocLoop_fits (d := d) h
          (alignUp_mod size) hfit
        rw [hloop turns] at hrun
        exact hp (Prod.mk.inj (Option.some.inj hrun)).2
      -- the heap has grown in vain
      obtain ⟨hroom, hfree⟩ := hgrows.resolve_left hfit
      have hnone := not_not.mp hfit
      rcases expand_four h hd hpages with ⟨he, hend⟩ | ⟨he, hdone⟩
      · have hroom' : k + Kheap.expandPages (Kheap.alignUpSize size 16) ≤ 16384 := by
          rw [room_iff h.holds, hpages]
          exact hroom
        have hdone := (expand_done_spec h hd hroom' (by rw [hpages]; exact hfree)).1
        rw [he] at hdone
        cases hdone
      rw [kmallocLoop_next hnone, if_pos he] at hrun
      obtain ⟨bs₁, hok₁, -⟩ := hdone.ok
      have hle := kmallocLoop_heapEnd hok₁ hdone.inForce hpages hrun
      rw [hdone.heapEnd, hsame.heapEnd] at hle
      omega
  · have := payload_lt hs' hn
    omega

/-- An expansion that passes the limit check by wrapping, with the frames to leave the window. -/
theorem escaping_unsafe (h : Ok s k bs) (hd : InForce s.machine d) (hsize : size ≤ 0xFFFFEFF0)
    (hready : s.heap.kheapReady = true) (hne : size ≠ 0) (hfit : ¬s.Fits size)
    (hwrap : 2 ^ 32 ≤ s.heap.heapEnd + Kheap.expandPages (Kheap.alignUpSize size 16) * 4096)
    (hfree : Kheap.limit < s.heap.heapEnd + s.machine.palloc.freeFrames * 4096) :
    ¬s.KmallocSafe d size := by
  rintro ⟨turns, s', p, hrun, -, -, hinside⟩
  unfold kmalloc at hrun
  rw [if_neg (by simp [hready, hne])] at hrun
  have hlim := h.sound.limit
  have hmax := (expandPages_exact (alignUp_exact hsize).2).2
  have hend : s.heap.heapEnd = Kheap.base + k * 4096 := h.holds.heapEnd
  have hgo : ¬s.Refused (Kheap.alignUpSize size 16) := by
    unfold Refused
    unfold Kheap.limit at hlim ⊢
    omega
  have hout : Kheap.limit ∈ (s.expand d (Kheap.alignUpSize size 16)).1.mapped := by
    refine expand_escapes h.holds hd hgo ?_ ?_
    · unfold Kheap.base at hend
      omega
    · unfold Kheap.base at hend
      unfold Kheap.limit at hfree
      omega
  have hlog : Kheap.limit ∈ s'.mapped := by
    cases turns with
    | zero => cases hrun
    | succ turns =>
      cases he : (s.expand d (Kheap.alignUpSize size 16)).2 with
      | false =>
        rw [kmallocLoop_next (not_not.mp hfit), he, if_neg (by simp)] at hrun
        obtain ⟨rfl, -⟩ := Prod.mk.inj (Option.some.inj hrun)
        exact hout
      | true =>
        rw [kmallocLoop_next (not_not.mp hfit), if_pos he] at hrun
        exact kmallocLoop_mapped hout hrun
  have := (hinside _ hlog).2
  omega

theorem kmalloc_safe_of_ok (h : Ok s k bs) (hd : InForce s.machine d) (hlt : size < 2 ^ 32) :
    s.KmallocSafe d size ↔ s.Bounded size := by
  constructor
  · intro hsafe
    by_contra hb
    unfold Bounded at hb
    rw [not_or, not_or, not_or] at hb
    obtain ⟨hready, hne, hsmall, hlarge⟩ := hb
    rw [Bool.not_eq_false] at hready
    by_cases hsize : size ≤ 0xFFFFEFF0
    · have hrest := not_and.mp hsmall hsize
      rw [not_or, not_or] at hrest
      exact escaping_unsafe h hd hsize hready hne hrest.1 (by omega) (by omega) hsafe
    · refine wrapped_unsafe h hd (by omega) hlt hready ?_ hsafe
      by_contra hno
      rw [not_or, not_and_or] at hno
      exact hlarge ⟨by omega, hno.1, by omega⟩
  · intro hb
    obtain ⟨s', p, k', bs', hm, hrun⟩ := kmalloc_bounded h hd hlt hb
    refine ⟨2, s', p, hrun 0, ?_, hm.ok.sound.limit, hm.ok.inside⟩
    rcases hm.answer with ⟨hp, hsame, -⟩ | ⟨hp, us, vs, n, -, hps, hle⟩
    · exact Or.inl ⟨hp, hsame⟩
    · exact Or.inr ⟨hp, bs', n, hm.ok.sound, by rw [hps]; simp, hle⟩

/-! ## Failed expansions -/

/-- An expansion that fails leaves the blocks, the page counter, the page mappings behind the
heap and the free frames as they were. -/
def NoTrace (s : PagedHeap) (d payload : Nat) : Prop :=
  (s.expand d payload).2 = false →
    SameBlocks s.heap (s.expand d payload).1.heap ∧
    (s.expand d payload).1.heap.committedPages = s.heap.committedPages ∧
    (∀ n < heapRegion.count, s.heap.heapEnd ≤ heapRegion.at n →
      (s.expand d payload).1.machine.lookupPageIn d (heapRegion.at n)
        = s.machine.lookupPageIn d (heapRegion.at n)) ∧
    (s.expand d payload).1.machine.palloc.freeFrames = s.machine.palloc.freeFrames

theorem lookup_mem {m m' : Machine} (hmem : m'.mem = m.mem) (va : Nat) :
    m'.lookupPageIn d va = m.lookupPageIn d va := by
  unfold Machine.lookupPageIn
  rw [hmem]

/-- Everything but the counter is restored. -/
theorem FailedExpansion.noTrace {count : Nat} (h : Ok s k bs)
    (hf : FailedExpansion s (s.expand d payload).1 k bs count) (hz : count = 0) :
    s.NoTrace d payload := by
  intro _
  refine ⟨hf.same, ?_, fun n _ _ => lookup_mem hf.restored.mem _,
    hf.restored.counts.freeFrames h.holds.pages.window.palloc⟩
  rw [hf.committed, hz, Nat.add_zero, Nat.mod_eq_of_lt h.holds.committed]

theorem noTrace_of_clean (h : Ok s k bs) (hd : InForce s.machine d) (hc : s.Clean payload) :
    s.NoTrace d payload := by
  by_cases hgo : s.Refused payload
  · exact (expand_refused_failed h hgo).2.noTrace h rfl
  have hmin := Kheap.four_le_expandPages payload
  have hle := h.holds.le
  rcases hc with hr | hz | ⟨hfree, hroom⟩
  · exact absurd hr hgo
  · exact (expand_short_failed h hd hgo (by omega) (by omega)).2.noTrace h hz
  · intro hfailed
    rw [(expand_done_spec h hd ((room_iff h.holds).mpr hroom) hfree).1] at hfailed
    cases hfailed

/-- A page that was mapped and given back is still counted. -/
theorem clean_of_noTrace (h : Ok s k bs) (hd : InForce s.machine d)
    (hin : s.heap.heapEnd + Kheap.expandPages payload * 4096 ≤ Kheap.limit ∨
      s.heap.heapEnd + s.machine.palloc.freeFrames * 4096 ≤ Kheap.limit)
    (hn : s.NoTrace d payload) : s.Clean payload := by
  by_contra hc
  unfold Clean at hc
  rw [not_or, not_or, not_and_or] at hc
  obtain ⟨hgo, hz, hshort⟩ := hc
  have hend : s.heap.heapEnd = Kheap.base + k * 4096 := h.holds.heapEnd
  have hroom : k + s.machine.palloc.freeFrames ≤ 16384 ∧
      s.machine.palloc.freeFrames < Kheap.expandPages payload := by
    unfold Kheap.base at hend
    unfold Kheap.limit at hin hshort
    omega
  obtain ⟨he, hfailed⟩ := expand_short_failed h hd hgo hroom.1 hroom.2
  obtain ⟨-, hcount, -⟩ := hn he
  rw [hfailed.committed] at hcount
  omega

/-! ## Runs -/

end PagedHeap

/-- The heap on the machine, and what its clients hold. -/
structure PagedUse where
  paged : PagedHeap
  live : List (Nat × Nat)

namespace PagedUse

open PagedHeap

/-- A call of the heap in some address space, a client writing to memory it holds, or the rest
of the kernel running. -/
inductive Event where
  | kmalloc (directoryPhys size : Nat)
  | kzalloc (directoryPhys size : Nat)
  | kfree (pointer : Nat)
  | write (pointer offset : Nat) (bytes : List Byte)
  | others (machine : Machine)

/-- More turns than there is room to grow for. -/
def manyTurns : Nat := 0x4000

/-- The client that gets a null pointer holds nothing. -/
def hold (u : PagedUse) (size : Nat) : Option (PagedHeap × Nat) → PagedUse
  | none => u
  | some (paged, p) => ⟨paged, if p = 0 then u.live else (p, size) :: u.live⟩

/-- `kzalloc`: the payload is zeroed. -/
def zeroPayload (size : Nat) : PagedHeap × Nat → PagedHeap × Nat
  | (paged, p) =>
    (if p = 0 then paged
      else { paged with heap :=
        { paged.heap with mem := paged.heap.mem.write p (List.replicate size 0) } }, p)

def step (u : PagedUse) : Event → PagedUse
  | .kmalloc d size => u.hold size (u.paged.kmalloc d size manyTurns)
  | .kzalloc d size => u.hold size ((u.paged.kmalloc d size manyTurns).map (zeroPayload size))
  | .kfree pointer =>
    ⟨{ u.paged with heap := u.paged.heap.kfree pointer }, u.live.filter fun a => a.1 ≠ pointer⟩
  | .write pointer offset bytes =>
    ⟨{ u.paged with heap :=
        { u.paged.heap with mem := u.paged.heap.mem.write (pointer + offset) bytes } }, u.live⟩
  | .others machine => ⟨{ u.paged with machine }, u.live⟩

/-- Calls are made with 32-bit sizes and a directory in force, clients free and write only what
they hold, and the others leave the heap's pages alone. -/
def Proper (u : PagedUse) : Event → Prop
  | .kmalloc d size => InForce u.paged.machine d ∧ size < 2 ^ 32
  | .kzalloc d size => InForce u.paged.machine d ∧ size < 2 ^ 32
  | .kfree pointer => pointer = 0 ∨ ∃ a ∈ u.live, a.1 = pointer
  | .write pointer offset bytes => ∃ a ∈ u.live, a.1 = pointer ∧ offset + bytes.length ≤ a.2
  | .others machine => Rely heapRegion u.paged.machine machine
      fun n => heapRegion.at n < u.paged.heap.heapEnd

/-- The condition on the size of an allocation. -/
def Bounded (u : PagedUse) : Event → Prop
  | .kmalloc _ size => u.paged.Bounded size
  | .kzalloc _ size => u.paged.Bounded size
  | _ => True

/-- The condition on the expansion that an allocation makes. -/
def CleanCall (u : PagedUse) : Event → Prop
  | .kmalloc _ size => u.paged.CleanCall size
  | .kzalloc _ size => u.paged.CleanCall size
  | _ => True

/-- The invariant of a run. -/
structure Ok (u : PagedUse) (k : Nat) (bs : List Block) : Prop where
  heap : PagedHeap.Ok u.paged k bs
  owns : HeapUse.Owns u.live (payloads Kheap.base bs)

variable {u : PagedUse} {k : Nat} {bs : List Block}

/-- The heap as `HeapRuns` sees it. -/
theorem Ok.heapUse (h : u.Ok k bs) : HeapUse.Ok ⟨u.paged.heap, u.live⟩ := ⟨bs, h.heap.sound, h.owns⟩

/-- A step that only touches the bytes and the live pointers. -/
theorem Ok.bytes (h : u.Ok k bs) {heap : Kheap} {live : List (Nat × Nat)}
    (hok : HeapUse.Ok ⟨heap, live⟩) (hend : heap.heapEnd = u.paged.heap.heapEnd)
    (hc : heap.committedPages = u.paged.heap.committedPages) :
    ∃ bs', Ok ⟨{ u.paged with heap }, live⟩ k bs' := by
  obtain ⟨bs', hs', howns⟩ := hok
  exact ⟨bs', ⟨⟨h.heap.holds.pages, hend.trans h.heap.holds.heapEnd, h.heap.holds.le,
    by rw [hc]; exact h.heap.holds.committed⟩, hs', h.heap.inside⟩, howns⟩

theorem zeroPayload_mallocs {s s' : PagedHeap} {k k' size p : Nat} {bs bs' : List Block}
    (hm : Mallocs s s' k k' bs bs' size p) :
    Mallocs s (zeroPayload size (s', p)).1 k k' bs bs' size p := by
  by_cases hp : p = 0
  · rw [zeroPayload, if_pos hp]
    exact hm
  rw [zeroPayload, if_neg hp]
  obtain ⟨-, us, vs, n, hps, hps', hle⟩ := hm.answer.resolve_left fun h => hp h.1
  have hpay : (p, n) ∈ payloads Kheap.base bs' := by
    rw [hps']
    simp
  refine ⟨⟨⟨hm.ok.holds.pages, hm.ok.holds.heapEnd, hm.ok.holds.le, hm.ok.holds.committed⟩, ?_,
    hm.ok.inside⟩, Or.inr ⟨hp, us, vs, n, hps, hps', hle⟩, hm.counted⟩
  refine hm.ok.sound.write_payload (k := 0) hpay ?_
  rw [List.length_replicate]
  omega

/-- An allocation, with or without zeroing. -/
theorem hold_ok (h : u.Ok k bs) {s' : PagedHeap} {k' size p : Nat} {bs' : List Block}
    (hm : Mallocs u.paged s' k k' bs bs' size p) : (u.hold size (some (s', p))).Ok k' bs' := by
  refine ⟨hm.ok, ?_⟩
  show HeapUse.Owns (if p = 0 then u.live else (p, size) :: u.live) _
  rcases hm.answer with ⟨hp, -, hps⟩ | ⟨hp, hadd⟩
  · rw [if_pos hp, hps]
    exact h.owns
  · rw [if_neg hp]
    exact h.owns.add hadd

/-- What a step preserves, and what a clean one counts. -/
theorem step_ok (h : u.Ok k bs) (e : Event) (hp : u.Proper e) (hb : u.Bounded e) :
    ∃ k' bs', (u.step e).Ok k' bs' ∧
      (u.CleanCall e → u.paged.heap.committedPages = k →
        (u.step e).paged.heap.committedPages = k') := by
  cases e with
  | kmalloc d size =>
    obtain ⟨s', p, k', bs', hm, hrun⟩ := kmalloc_bounded h.heap hp.1 hp.2 hb
    have hstep : u.step (.kmalloc d size) = u.hold size (some (s', p)) :=
      congrArg (u.hold size) (hrun (manyTurns - 2))
    rw [hstep]
    exact ⟨k', bs', hold_ok h hm, hm.counted⟩
  | kzalloc d size =>
    obtain ⟨s', p, k', bs', hm, hrun⟩ := kmalloc_bounded h.heap hp.1 hp.2 hb
    have hstep : u.step (.kzalloc d size) = u.hold size (some (zeroPayload size (s', p))) :=
      congrArg (fun r : Option (PagedHeap × Nat) => u.hold size (r.map (zeroPayload size)))
        (hrun (manyTurns - 2))
    have hm' := zeroPayload_mallocs hm
    rw [hstep]
    exact ⟨k', bs', hold_ok h hm', hm'.counted⟩
  | kfree pointer =>
    have hok := HeapUse.step_ok _ (.kfree pointer) h.heapUse hp
    have hend : (u.paged.heap.kfree pointer).heapEnd = u.paged.heap.heapEnd ∧
        (u.paged.heap.kfree pointer).committedPages = u.paged.heap.committedPages := by
      unfold Kheap.kfree
      split <;> exact ⟨rfl, rfl⟩
    obtain ⟨bs', hbs'⟩ := h.bytes hok hend.1 hend.2
    exact ⟨k, bs', hbs', fun _ hc => hend.2.trans hc⟩
  | write pointer offset bytes =>
    have hok := HeapUse.step_ok _ (.write pointer offset bytes) h.heapUse hp
    obtain ⟨bs', hbs'⟩ := h.bytes hok rfl rfl
    exact ⟨k, bs', hbs', fun _ hc => hc⟩
  | others machine =>
    have hiff : ∀ n, heapRegion.at n < u.paged.heap.heapEnd ↔ n < k := by
      intro n
      rw [h.heap.holds.heapEnd]
      unfold Region.at
      omega
    have hrely : Rely heapRegion u.paged.machine machine (· < k) :=
      ⟨hp.window, hp.first, fun n hn hu => hp.counts n hn ((hiff n).mpr hu)⟩
    refine ⟨k, bs, ⟨⟨⟨h.heap.holds.pages.rely hrely, h.heap.holds.heapEnd, h.heap.holds.le,
      h.heap.holds.committed⟩, h.heap.sound, h.heap.inside⟩, h.owns⟩, fun _ hc => hc⟩

/-! ## Boot -/

/-- The heap before `kheap_init`, on memory with any contents. -/
def unborn (machine : Machine) (mem : Store) : PagedHeap :=
  ⟨machine, ⟨mem, 0, Kheap.base, 0, false⟩, []⟩

/-- The heap after `kheap_init`, which runs in the kernel's own address space. -/
def boot (machine : Machine) (mem : Store) : PagedUse :=
  ⟨(unborn machine mem).init machine.kernelPageDirectoryPhys, []⟩

variable {m : Machine} {limit : Nat}

theorem unborn_ok (h : KernelSpace m limit) (hlimit : limit ≤ directMapMaxBytes) (mem : Store) :
    PagedHeap.Ok (unborn m mem) 0 [] ∧ InForce m m.kernelPageDirectoryPhys := by
  have hw : Window m heapRegion.lo heapRegion.hi :=
    h.window (by decide) fun i hlo hhi => Or.inr ⟨hlo, Nat.lt_trans hhi (by decide)⟩
  refine ⟨⟨⟨⟨hw, fun n _ hn => absurd hn (Nat.not_lt_zero n),
    fun n _ k _ hn => absurd hn (Nat.not_lt_zero n),
    fun n hn _ => ?_⟩, rfl, by decide, show 0 < 2 ^ 32 by decide⟩, ?_,
      fun va hva => absurd hva List.not_mem_nil⟩,
    hw.directory, hw.used, ?_⟩
  · exact h.leaf_zero hw (heapRegion.pageIn hn) (Nat.le_trans hlimit (by decide))
  · exact ⟨⟨rfl, trivial, rfl⟩, fun b hb => absurd hb List.not_mem_nil, List.IsChain.nil,
      (by decide : Kheap.base ≤ Kheap.limit)⟩
  · obtain ⟨t, ht⟩ := (h.tabled.slots 1008 (by decide)).resolve_left
      (h.windows 1008 (Or.inr (by decide)))
    exact ⟨t, ht.slot⟩

theorem expandPages_init : Kheap.expandPages 4096 = 4 := by decide

/-- `kheap_init` leaves a heap that is in order, with or without its first pages. -/
theorem boot_ok (h : KernelSpace m limit) (hlimit : limit ≤ directMapMaxBytes) (mem : Store) :
    ∃ k bs, (boot m mem).Ok k bs ∧
      ((unborn m mem).Clean 4096 → (boot m mem).paged.heap.committedPages = k) := by
  have hnone : ∀ ps, HeapUse.Owns [] ps :=
    fun ps => ⟨List.nodup_nil, fun a ha => absurd ha List.not_mem_nil⟩
  obtain ⟨hok, hd⟩ := unborn_ok h hlimit mem
  have hroom : 0 + Kheap.expandPages 4096 ≤ 16384 := by decide
  unfold boot init
  dsimp only
  by_cases hfree : Kheap.expandPages 4096 ≤ m.palloc.freeFrames
  · obtain ⟨he, hdone⟩ := expand_done_spec hok hd hroom hfree
    obtain ⟨bs, hok', -⟩ := hdone.ok
    have hcommitted := hdone.committed
    split
    next s' heq =>
      rw [show (unborn m mem).expand _ _ = _ from heq] at he
      cases he
    next s' heq =>
    rw [show (unborn m mem).expand _ _ = _ from heq] at hok' hcommitted
    have hs := hok'.sound
    refine ⟨_, bs, ⟨⟨⟨hok'.holds.pages, hok'.holds.heapEnd, hok'.holds.le, hok'.holds.committed⟩,
      ⟨⟨hs.head, hs.chain, hs.ends⟩, hs.aligned, hs.apart, hs.limit⟩, hok'.inside⟩, hnone _⟩,
      fun _ => hcommitted⟩
  have hgo := not_refused hok.holds hroom
  have hshort : m.palloc.freeFrames < Kheap.expandPages 4096 := by omega
  obtain ⟨he, hfailed⟩ := expand_short_failed hok hd hgo
    (by rw [expandPages_init] at hshort; show 0 + m.palloc.freeFrames ≤ 16384; omega) hshort
  have hok' := hfailed.ok
  have hcommitted := hfailed.committed
  split
  next s' heq =>
    rw [show (unborn m mem).expand _ _ = _ from heq] at hok' hcommitted
    refine ⟨_, _, ⟨hok', hnone _⟩, fun hclean => ?_⟩
    have hz : m.palloc.freeFrames = 0 := by
      rcases hclean with hr | hz | ⟨hall, -⟩
      · exact absurd hr hgo
      · exact hz
      · exact absurd hall hfree
    show s'.heap.committedPages = 0
    rw [hcommitted]
    show (0 + m.palloc.freeFrames) % 2 ^ 32 = 0
    rw [hz]
    rfl
  next s' heq =>
    rw [show (unborn m mem).expand _ _ = _ from heq] at he
    cases he

/-- On the machine `kheap_init` is the abstract one. -/
theorem init_refines {s : PagedHeap} {d : Nat}
    (h : Holds { s with heap := ⟨s.heap.mem, 0, Kheap.base, 0, false⟩ } 0)
    (hd : InForce s.machine d) :
    (s.init d).heap = Kheap.init s.heap.mem s.machine.palloc.freeFrames := by
  have hroom : 0 + Kheap.expandPages 4096 ≤ 16384 := by decide
  have hexp := expand_refines h hd (Or.inl hroom)
  unfold init Kheap.init
  dsimp only at hexp ⊢
  rw [← hexp]
  generalize PagedHeap.expand _ d 4096 = r
  obtain ⟨s', done⟩ := r
  cases done <;> rfl

theorem init_done {s : PagedHeap} {d : Nat}
    (h : Holds { s with heap := ⟨s.heap.mem, 0, Kheap.base, 0, false⟩ } 0)
    (hd : InForce s.machine d) (hfree : 4 ≤ s.machine.palloc.freeFrames) :
    InForce (s.init d).machine d ∧ (s.init d).machine.palloc.freeFrames + Kheap.expandPages 4096
      = s.machine.palloc.freeFrames := by
  have hroom : 0 + Kheap.expandPages 4096 ≤ 16384 := by decide
  obtain ⟨m', he, -, hd', hspent⟩ := expand_done h hd hroom (by rw [expandPages_init]; exact hfree)
  have hmachine : (s.init d).machine = m' := by
    unfold init
    dsimp only
    rw [he]
  rw [hmachine]
  exact ⟨hd', hspent⟩

/-- With enough frames it does not matter how many there are. -/
theorem init_enough {mappable : Nat} (mem : Store) (h : 4 ≤ mappable) :
    Kheap.init mem mappable = Kheap.init mem 4 := by
  have hexp : ∀ n, 4 ≤ n → (⟨mem, 0, Kheap.base, 0, false⟩ : Kheap).expand 4096 n
      = (⟨mem, 0, Kheap.base, 0, false⟩ : Kheap).expand 4096 4 := by
    intro n hn
    unfold Kheap.expand
    rw [expandPages_init]
    dsimp only
    rw [if_neg (Nat.not_lt.mpr hn), if_neg (Nat.lt_irrefl 4)]
  unfold Kheap.init
  dsimp only
  rw [hexp mappable h]

/-- With four frames the heap is born. -/
theorem boot_born (h : KernelSpace m limit) (hlimit : limit ≤ directMapMaxBytes) (mem : Store)
    (hfree : 4 ≤ m.palloc.freeFrames) :
    (boot m mem).paged.heap = Kheap.init mem 4 ∧
      InForce (boot m mem).paged.machine m.kernelPageDirectoryPhys ∧
      (boot m mem).paged.machine.palloc.freeFrames + Kheap.expandPages 4096
        = m.palloc.freeFrames := by
  obtain ⟨hok, hd⟩ := unborn_ok h hlimit mem
  have hheap := init_refines (s := unborn m mem) hok.holds hd
  obtain ⟨hd', hspent⟩ := init_done (s := unborn m mem) hok.holds hd hfree
  dsimp only [boot]
  exact ⟨hheap.trans (init_enough mem hfree), hd', hspent⟩

/-! ## The results -/

section Results

variable (info : MultibootInfo) (kernelStart kernelEnd : UInt32) (mem heapMem : Store)
  (henabled : (pagingInit (Palloc.init info kernelStart kernelEnd) mem).outcome = .enabled)

include henabled

/-- **`kmalloc` is safe exactly for the bounded sizes**, in every state that a run of bounded
calls leads to. -/
theorem kmalloc_safe_iff (events : List Event)
    (hevents : Guarded step (fun u e => u.Proper e ∧ u.Bounded e)
      (boot (pagingInit (Palloc.init info kernelStart kernelEnd) mem).machine heapMem) events)
    (d size : Nat) (hsize : size < 2 ^ 32) :
    let u := run step
      (boot (pagingInit (Palloc.init info kernelStart kernelEnd) mem).machine heapMem) events
    InForce u.paged.machine d → (u.paged.KmallocSafe d size ↔ u.paged.Bounded size) := by
  intro u hd
  obtain ⟨limit, hle, hspace⟩ := enabled_kernelSpace henabled
  obtain ⟨k, bs, hboot, -⟩ := boot_ok hspace hle heapMem
  have hinv : ∃ k bs, u.Ok k bs := by
    refine guarded_invariant (I := fun u => ∃ k bs, Ok u k bs) ?_ events ⟨k, bs, hboot⟩ hevents
    rintro u e ⟨k, bs, hok⟩ ⟨hp, hb⟩
    obtain ⟨k', bs', hok', -⟩ := step_ok hok e hp hb
    exact ⟨k', bs', hok'⟩
  obtain ⟨k, bs, hok⟩ := hinv
  exact kmalloc_safe_of_ok hok.heap hd hsize

/-- **A failed expansion leaves no trace if it mapped no page.** When every expansion so far was
clean, `committed_pages` counts the pages of the heap, and the next expansion leaves no trace
if it is clean, and only then unless it leaves the window. -/
theorem expansion_leaves_no_trace
    (hclean : (unborn (pagingInit (Palloc.init info kernelStart kernelEnd) mem).machine
    heapMem).Clean 4096)
    (events : List Event)
    (hevents : Guarded step (fun u e => u.Proper e ∧ u.Bounded e ∧ u.CleanCall e)
      (boot (pagingInit (Palloc.init info kernelStart kernelEnd) mem).machine heapMem) events) :
    let u := run step
      (boot (pagingInit (Palloc.init info kernelStart kernelEnd) mem).machine heapMem) events
    u.paged.heap.committedPages * 4096 = u.paged.heap.heapEnd - Kheap.base ∧
      ∀ d payload, InForce u.paged.machine d →
        (u.paged.Clean payload → u.paged.NoTrace d payload) ∧
        ((u.paged.heap.heapEnd + Kheap.expandPages payload * 4096 ≤ Kheap.limit ∨
            u.paged.heap.heapEnd + u.paged.machine.palloc.freeFrames * 4096 ≤ Kheap.limit) →
          u.paged.NoTrace d payload → u.paged.Clean payload) := by
  intro u
  obtain ⟨limit, hle, hspace⟩ := enabled_kernelSpace henabled
  obtain ⟨k, bs, hboot, hcount⟩ := boot_ok hspace hle heapMem
  have hinv : ∃ k bs, u.Ok k bs ∧ u.paged.heap.committedPages = k := by
    refine guarded_invariant (I := fun u => ∃ k bs, Ok u k bs ∧ u.paged.heap.committedPages = k)
      ?_ events ⟨k, bs, hboot, hcount hclean⟩ hevents
    rintro u e ⟨k, bs, hok, hc⟩ ⟨hp, hb, hcall⟩
    obtain ⟨k', bs', hok', hc'⟩ := step_ok hok e hp hb
    exact ⟨k', bs', hok', hc' hcall hc⟩
  obtain ⟨k, bs, hok, hc⟩ := hinv
  refine ⟨?_, fun d payload hd => ⟨noTrace_of_clean hok.heap hd, clean_of_noTrace hok.heap hd⟩⟩
  have hend : u.paged.heap.heapEnd = Kheap.base + k * 4096 := hok.heap.holds.heapEnd
  omega

end Results

section Small

variable (h : KernelSpace m limit) (hlimit : limit ≤ directMapMaxBytes)
  (hfree : 28 ≤ m.palloc.freeFrames)

include h hlimit hfree

/-- The first allocation takes the first block. -/
theorem boot_kmalloc {size alignedSize : Nat} (hsize : size ≠ 0)
    (halign : Kheap.alignUpSize size 16 = alignedSize)
    (hfit : Kheap.findFit (Kheap.init (fun _ => 0) 4).mem alignedSize (Kheap.maxBlocks + 1)
      (Kheap.init (fun _ => 0) 4).heapHead = some 0xF8000000) (d turns : Nat) :
    (boot m fun _ => 0).paged.kmalloc d size (turns + 1)
      = some ((boot m fun _ => 0).paged.take 0xF8000000 alignedSize, 0xF8000010) := by
  obtain ⟨hheap, -⟩ := boot_born h hlimit (fun _ => 0) (Nat.le_trans (by decide) hfree)
  have hready : (Kheap.init (fun _ => 0) 4).kheapReady = true := by decide +kernel
  unfold PagedHeap.kmalloc
  rw [hheap, hready, if_neg (by simp [hsize]), halign, kmallocLoop, hheap, hfit]

/-- `kmalloc(0xFFFFFFFF)` after boot: the size is rounded to 0 and any free block will do. -/
theorem boot_kmalloc_huge :
    ((boot m fun _ => 0).paged.kmalloc m.kernelPageDirectoryPhys 0xFFFFFFFF 1).map
        (fun r => (r.2, r.1.heap.mem.load32 (r.2 - 16))) = some (0xF8000010, 0) := by
  obtain ⟨hheap, -⟩ := boot_born h hlimit (fun _ => 0) (Nat.le_trans (by decide) hfree)
  have hsize : ((Kheap.splitBlock (Kheap.init (fun _ => 0) 4).mem 0xF8000000 0).store32
      (0xF8000000 + 4) 0).load32 0xF8000000 = 0 := by decide +kernel
  rw [boot_kmalloc h hlimit hfree (by decide) (by decide : Kheap.alignUpSize 0xFFFFFFFF 16 = 0)
    (by decide +kernel) _ 0]
  generalize (boot m fun _ => 0).paged = s at hheap
  show some (0xF8000010, (s.take 0xF8000000 0).heap.mem.load32 0xF8000000) = _
  unfold take
  rw [hheap, hsize]

/-- `first = kmalloc(24)` of `kheap_selftest`: the call is proper, bounded and expands nothing,
and so will be the next one, of 64 bytes. -/
theorem boot_first {d : Nat} (hd : InForce (boot m fun _ => 0).paged.machine d) :
    Guarded step (fun u e => u.Proper e ∧ u.Bounded e ∧ u.CleanCall e) (boot m fun _ => 0)
        [.kmalloc d 24] ∧
      InForce (run step (boot m fun _ => 0) [.kmalloc d 24]).paged.machine d ∧
      (run step (boot m fun _ => 0) [.kmalloc d 24]).paged.Bounded 64 ∧
      (run step (boot m fun _ => 0) [.kmalloc d 24]).paged.Clean 64 := by
  obtain ⟨hheap, -, hspent⟩ := boot_born h hlimit (fun _ => 0) (Nat.le_trans (by decide) hfree)
  have hend : (Kheap.init (fun _ => 0) 4).heapEnd = 0xF8004000 := by decide +kernel
  have hfit : Kheap.findFit (Kheap.init (fun _ => 0) 4).mem 32 (Kheap.maxBlocks + 1)
      (Kheap.init (fun _ => 0) 4).heapHead = some 0xF8000000 := by decide +kernel
  have hfits : (boot m fun _ => 0).paged.Fits 24 := by
    unfold Fits
    rw [hheap, show Kheap.alignUpSize 24 16 = 32 by decide, hfit]
    simp
  have hfirst := boot_kmalloc h hlimit hfree (by decide) (by decide : Kheap.alignUpSize 24 16 = 32)
    hfit d (manyTurns - 1)
  rw [show manyTurns - 1 + 1 = manyTurns by decide] at hfirst
  -- the block is split off; neither the machine nor the end of the heap changes
  have hrun : run step (boot m fun _ => 0) [.kmalloc d 24]
      = ⟨(boot m fun _ => 0).paged.take 0xF8000000 32, [(0xF8000010, 24)]⟩ := by
    rw [run_cons, run_nil, step, hfirst, hold, if_neg (by decide)]
    rfl
  rw [hrun]
  generalize (boot m fun _ => 0) = u at hd hheap hspent hfits
  rw [expandPages_init] at hspent
  refine ⟨⟨⟨⟨hd, by decide⟩, ?_, ?_⟩, trivial⟩, hd, ?_, Or.inr (Or.inr ⟨?_, ?_⟩)⟩
  · exact Or.inr (Or.inr (Or.inl ⟨by decide, Or.inl hfits⟩))
  · exact Or.inr (Or.inr (Or.inl hfits))
  · refine Or.inr (Or.inr (Or.inl ⟨by decide, Or.inr (Or.inl ?_)⟩))
    show u.paged.heap.heapEnd + _ < _
    rw [hheap, hend]
    decide
  · show Kheap.expandPages 64 ≤ u.paged.machine.palloc.freeFrames
    rw [show Kheap.expandPages 64 = 4 by decide]
    omega
  · show u.paged.heap.heapEnd + _ ≤ _
    rw [hheap, hend]
    decide

/-- An expansion by 16 MiB needs more frames than there are. -/
theorem boot_expand_short (hfew : m.palloc.freeFrames ≤ 320) :
    let s := (boot m fun _ => 0).paged
    (s.expand m.kernelPageDirectoryPhys 0x1000000).2 = false ∧
      (s.expand m.kernelPageDirectoryPhys 0x1000000).1.heap.heapEnd = s.heap.heapEnd ∧
      s.heap.committedPages = 4 ∧
      28 ≤ (s.expand m.kernelPageDirectoryPhys 0x1000000).1.heap.committedPages := by
  obtain ⟨hheap, hd, hspent⟩ := boot_born h hlimit (fun _ => 0) (Nat.le_trans (by decide) hfree)
  obtain ⟨k, bs, hok, -⟩ := boot_ok h hlimit fun _ => 0
  have hend : (Kheap.init (fun _ => 0) 4).heapEnd = 0xF8004000 := by decide +kernel
  have hcommitted : (Kheap.init (fun _ => 0) 4).committedPages = 4 := by decide +kernel
  have hpages : Kheap.expandPages 0x1000000 = 4097 := by decide
  rw [expandPages_init] at hspent
  have hok := hok.heap
  generalize (boot m fun _ => 0).paged = s at hok hheap hd hspent ⊢
  have hat : s.heap.heapEnd = 0xF8000000 + k * 4096 := hok.holds.heapEnd
  rw [hheap, hend] at hat
  have hgo : ¬s.Refused 0x1000000 := by
    unfold Refused
    rw [hheap, hend, hpages]
    decide
  obtain ⟨he, hfailed⟩ := expand_short_failed hok hd hgo (by omega) (by omega)
  refine ⟨he, hfailed.same.heapEnd, by rw [hheap, hcommitted], ?_⟩
  rw [hfailed.committed, hheap, hcommitted]
  omega

end Small

/-- The theorem at the second allocation of the self-test. -/
theorem kmalloc_safe_selftest :
    let machine := (pagingInit (Palloc.init pagedInfo 0x100000 0x101000) fun _ => 0).machine
    let d := machine.kernelPageDirectoryPhys
    (run step (boot machine fun _ => 0) [.kmalloc d 24]).paged.KmallocSafe d 64 := by
  obtain ⟨limit, hle, hspace⟩ := enabled_kernelSpace pagedInfo_enabled
  obtain ⟨hlow, -⟩ := pagedInfo_freeFrames
  obtain ⟨-, hd, -⟩ := boot_born hspace hle (fun _ => 0) (Nat.le_trans (by decide) hlow)
  obtain ⟨hfirst, hd', hbounded, -⟩ := boot_first hspace hle hlow hd
  exact (kmalloc_safe_iff pagedInfo 0x100000 0x101000 (fun _ => 0) (fun _ => 0) pagedInfo_enabled _
    (hfirst.mono fun _ _ hg => ⟨hg.1, hg.2.1⟩) _ 64 (by decide) hd').mpr hbounded

/-- `kmalloc(0xFFFFFFFF)` returns a block of no bytes. -/
theorem kmalloc_huge_empty :
    let machine := (pagingInit (Palloc.init pagedInfo 0x100000 0x101000) fun _ => 0).machine
    ((boot machine fun _ => 0).paged.kmalloc machine.kernelPageDirectoryPhys 0xFFFFFFFF 1).map
        (fun r => (r.2, r.1.heap.mem.load32 (r.2 - 16))) = some (0xF8000010, 0) := by
  obtain ⟨limit, hle, hspace⟩ := enabled_kernelSpace pagedInfo_enabled
  exact boot_kmalloc_huge hspace hle pagedInfo_freeFrames.1

/-- The theorem after the first allocation of the self-test: the heap has its four pages, and the
next expansion finds all frames that it needs. -/
theorem expansion_leaves_no_trace_boot :
    let machine := (pagingInit (Palloc.init pagedInfo 0x100000 0x101000) fun _ => 0).machine
    let d := machine.kernelPageDirectoryPhys
    let u := run step (boot machine fun _ => 0) [.kmalloc d 24]
    u.paged.heap.committedPages * 4096 = u.paged.heap.heapEnd - Kheap.base ∧
      u.paged.NoTrace d 64 := by
  obtain ⟨limit, hle, hspace⟩ := enabled_kernelSpace pagedInfo_enabled
  obtain ⟨hlow, -⟩ := pagedInfo_freeFrames
  obtain ⟨-, hd, -⟩ := boot_born hspace hle (fun _ => 0) (Nat.le_trans (by decide) hlow)
  obtain ⟨hfirst, hd', -, hnext⟩ := boot_first hspace hle hlow hd
  have hclean : ∀ m : Machine, 28 ≤ m.palloc.freeFrames → (unborn m fun _ => 0).Clean 4096 := by
    intro m hm
    refine Or.inr (Or.inr ?_)
    rw [expandPages_init]
    exact ⟨Nat.le_trans (by decide) hm, (by decide : Kheap.base + 4 * 4096 ≤ Kheap.limit)⟩
  obtain ⟨hcount, htrace⟩ := expansion_leaves_no_trace pagedInfo 0x100000 0x101000 (fun _ => 0)
    (fun _ => 0) pagedInfo_enabled (hclean _ hlow) _ hfirst
  exact ⟨hcount, (htrace _ 64 hd').1 hnext⟩

/-- On the small machine an expansion by 16 MiB fails, and the pages that it mapped and gave
back stay counted. -/
theorem failed_expansion_counted :
    let machine := (pagingInit (Palloc.init pagedInfo 0x100000 0x101000) fun _ => 0).machine
    let s := (boot machine fun _ => 0).paged
    (s.expand machine.kernelPageDirectoryPhys 0x1000000).2 = false ∧
      (s.expand machine.kernelPageDirectoryPhys 0x1000000).1.heap.heapEnd = s.heap.heapEnd ∧
      s.heap.committedPages = 4 ∧
      28 ≤ (s.expand machine.kernelPageDirectoryPhys 0x1000000).1.heap.committedPages := by
  obtain ⟨limit, hle, hspace⟩ := enabled_kernelSpace pagedInfo_enabled
  obtain ⟨hlow, hhigh⟩ := pagedInfo_freeFrames
  exact boot_expand_short hspace hle hlow hhigh

end PagedUse

end Riverix.Memory
