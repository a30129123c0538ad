import Riverix.Memory.HeapRuns
import Riverix.Memory.Region

/-!
# The heap's pages

`Kheap` takes the number of pages that an expansion finds as given. Here the heap runs on the
machine: `kheap_expand` takes frames from the allocator, maps them behind `heap_end` and, when
it runs out, unmaps and frees what it has mapped. The bytes of the heap are kept at the
addresses the kernel sees them at (`heap.mem`), the page tables and the allocator in
`machine`; `mapped` records every page that was ever mapped.

`grow_room` and `grow_short` are the two ends of the expansion loop: with enough frames it
maps all pages, otherwise it maps every free frame and the rollback restores memory and the
reference counts, last page first. Together they make `PagedHeap.expand` the abstract
`Kheap.expand` with the free frames as its pages (`expand_refines`) as long as the loop stays
inside the window; `grow_escapes` says what happens otherwise.
-/

namespace Riverix.Memory

open Riverix.Lib

/-- The heap and the machine it runs on. -/
structure PagedHeap where
  machine : Machine
  heap : Kheap
  mapped : List Nat

namespace PagedHeap

/-- The rollback of `kheap_expand`. -/
def rollBack (directoryPhys : Nat) : Nat → PagedHeap → PagedHeap
  | 0, s => s
  | mapped + 1, s =>
    let heapEnd := (s.heap.heapEnd + (2 ^ 32 - 4096)) % 2 ^ 32
    rollBack directoryPhys mapped
      { s with
        machine := s.machine.releasePage directoryPhys heapEnd
        heap := { s.heap with heapEnd } }

theorem rollBack_succ (d mapped : Nat) (s : PagedHeap) : rollBack d (mapped + 1) s =
    rollBack d mapped
      { s with
        machine := s.machine.releasePage d ((s.heap.heapEnd + (2 ^ 32 - 4096)) % 2 ^ 32)
        heap := { s.heap with heapEnd := (s.heap.heapEnd + (2 ^ 32 - 4096)) % 2 ^ 32 } } := rfl

/-- A page has been mapped at `heap_end`: it is zeroed and counted. -/
def addPage (s : PagedHeap) (machine : Machine) : PagedHeap where
  machine
  heap := { s.heap with
    mem := s.heap.mem.write s.heap.heapEnd (List.replicate 4096 0)
    heapEnd := (s.heap.heapEnd + 4096) % 2 ^ 32
    committedPages := (s.heap.committedPages + 1) % 2 ^ 32 }
  mapped := s.mapped ++ [s.heap.heapEnd]

/-- The loop of `kheap_expand`: `mapped` pages are in place and `count` are to come. The page
that could not be mapped is not given back. -/
def grow (directoryPhys : Nat) : Nat → Nat → PagedHeap → PagedHeap × Bool
  | _, 0, s => (s, true)
  | mapped, count + 1, s =>
    match s.machine.palloc.allocPage with
    | (palloc, physicalPage) =>
      if physicalPage = 0 then
        (rollBack directoryPhys mapped { s with machine := { s.machine with palloc } }, false)
      else
        match { s.machine with palloc }.mapPageIn directoryPhys s.heap.heapEnd physicalPage
            pageWritable with
        | (machine, false) => (rollBack directoryPhys mapped { s with machine }, false)
        | (machine, true) => grow directoryPhys (mapped + 1) count (s.addPage machine)

/-- The end of `kheap_expand`: the new pages become a block. -/
def link (s : PagedHeap) (expansionBase pages : Nat) : PagedHeap :=
  let mem := storeHeader s.heap.mem expansionBase (pages * 4096 - 16) 1 0 0
  { s with heap := { s.heap with mem }.appendBlock expansionBase }

/-- `kheap_expand` with a directory in force; `false` is the return value -1. -/
def expand (s : PagedHeap) (directoryPhys minimumPayload : Nat) : PagedHeap × Bool :=
  let pages := Kheap.expandPages minimumPayload
  let expansionBase := s.heap.heapEnd
  if (expansionBase + pages * 4096) % 2 ^ 32 > Kheap.limit then (s, false)
  else
    match grow directoryPhys 0 pages s with
    | (s, false) => ({ s with heap := { s.heap with heapEnd := expansionBase } }, false)
    | (s, true) => (s.link expansionBase pages, true)

/-- `kheap_init` -/
def init (s : PagedHeap) (directoryPhys : Nat) : PagedHeap :=
  let s := { s with heap := ⟨s.heap.mem, 0, Kheap.base, 0, false⟩ }
  match s.expand directoryPhys 4096 with
  | (s, false) => s
  | (s, true) => { s with heap := { s.heap with kheapReady := true } }

/-! ## The pages of the heap -/

/-- The heap window. -/
def heapRegion : Region where
  lo := 992
  hi := 1008
  base := Kheap.base
  count := 16384
  page n hn :=
    ⟨by unfold Kheap.base; omega, by unfold Kheap.base; omega, by unfold Kheap.base; omega⟩

/-- The first `k` pages of the window are the heap's and the others are empty. -/
structure Holds (s : PagedHeap) (k : Nat) : Prop where
  pages : OwnPages heapRegion s.machine (· < k)
  heapEnd : s.heap.heapEnd = heapRegion.at k
  le : k ≤ 16384
  committed : s.heap.committedPages < 2 ^ 32

/-- A directory that the heap can be expanded with: it has the tables of the heap window and
the first one behind it, which is the first of the kernel stacks. -/
structure InForce (m : Machine) (d : Nat) : Prop where
  directory : Directory m heapRegion d
  held : m.palloc.frameRefcounts (d / 4096) ≠ 0
  beyond : ∃ t, entry m.mem d 1008 = t * 4096 + 3

variable {s s' : PagedHeap} {m m' : Machine} {d k n mapped count : Nat}

theorem at_lt (hk : k ≤ 16384) : heapRegion.at k ≤ Kheap.limit := by
  unfold Region.at heapRegion Kheap.base Kheap.limit
  dsimp only
  omega

theorem at_succ (k : Nat) : heapRegion.at k + 4096 = heapRegion.at (k + 1) := by
  unfold Region.at
  omega

/-- The pages from `va` on. -/
def pagesFrom (va : Nat) : Nat → List Nat
  | 0 => []
  | n + 1 => va :: pagesFrom (va + 4096) n

theorem mem_pagesFrom {va x : Nat} (h : x ∈ pagesFrom va n) :
    va ≤ x ∧ x + 4096 ≤ va + n * 4096 := by
  induction n generalizing va with
  | zero => exact absurd h List.not_mem_nil
  | succ n ih =>
    rcases List.mem_cons.mp h with rfl | h
    · omega
    · have := ih h
      omega

/-- The heap with `n` more pages, before they become a block. -/
def zeroed (h : Kheap) (n : Nat) : Kheap :=
  { h with
    mem := h.mem.write h.heapEnd (List.replicate (n * 4096) 0)
    heapEnd := h.heapEnd + n * 4096
    committedPages := (h.committedPages + n) % 2 ^ 32 }

theorem zeroed_succ (h : Kheap) (n : Nat) (hlt : h.heapEnd + 4096 < 2 ^ 32) :
    zeroed { h with
      mem := h.mem.write h.heapEnd (List.replicate 4096 0)
      heapEnd := (h.heapEnd + 4096) % 2 ^ 32
      committedPages := (h.committedPages + 1) % 2 ^ 32 } n = zeroed h (n + 1) := by
  have hmem : (h.mem.write h.heapEnd (List.replicate 4096 0)).write (h.heapEnd + 4096)
      (List.replicate (n * 4096) 0) = h.mem.write h.heapEnd
        (List.replicate ((n + 1) * 4096) 0) := by
    have happ := Store.write_append h.mem h.heapEnd (List.replicate 4096 0)
      (List.replicate (n * 4096) 0)
    rw [List.length_replicate, List.replicate_append_replicate] at happ
    rw [← happ, show 4096 + n * 4096 = (n + 1) * 4096 by omega]
  unfold zeroed
  rw [Nat.mod_eq_of_lt hlt, hmem, show h.heapEnd + 4096 + n * 4096
    = h.heapEnd + (n + 1) * 4096 by omega,
    Nat.mod_add_mod, show h.committedPages + 1 + n = h.committedPages + (n + 1) by omega]

/-! ## One turn of the loop -/

theorem allocPage_free {p : Palloc} (h : p.Ok) (h0 : p.frameRefcounts 0 ≠ 0)
    (hfree : 0 < p.freeFrames) : ∃ p' f, p.allocPage = (p', f * 4096) ∧ Palloc.Taken p p' f := by
  rcases ha : p.allocPage with ⟨p', a⟩
  by_cases hz : a = 0
  · subst hz
    have := (Palloc.exhausted_of_allocPage h h0 ha).2.freeFrames h
    omega
  · obtain ⟨f, rfl, ht⟩ := Palloc.allocPage_some h ha hz
    exact ⟨p', f, rfl, ht⟩

theorem allocPage_exhausted {p : Palloc} (h : p.Ok) (h0 : p.frameRefcounts 0 ≠ 0)
    (hfree : p.freeFrames = 0) : p.allocPage = (p, 0) := by
  rcases ha : p.allocPage with ⟨p', a⟩
  by_cases hz : a = 0
  · subst hz
    rw [Palloc.allocPage_none h h0 ha]
  · obtain ⟨f, rfl, ht⟩ := Palloc.allocPage_some h ha hz
    have := ht.freeFrames h
    omega

theorem grow_out (h : Holds s k) (hfree : s.machine.palloc.freeFrames = 0) :
    grow d mapped (count + 1) s = (rollBack d mapped s, false) := by
  have hw := h.pages.window
  unfold grow
  rw [allocPage_exhausted hw.palloc hw.frameZero hfree]
  rfl

/-- The machine after a turn: a frame is taken and mapped behind the heap. -/
structure Turned (m m' : Machine) (k f : Nat) : Prop where
  took : Palloc.Took m.palloc m'.palloc [f]
  mem : m'.mem = (m.setLeaf (heapRegion.at k) (f * 4096 + 3)).mem
  kernel : m'.kernelPageDirectoryPhys = m.kernelPageDirectoryPhys

theorem grow_turn (h : Holds s k) (hk : k < 16384) (hd : InForce s.machine d)
    (hfree : 0 < s.machine.palloc.freeFrames) (mapped count : Nat) :
    ∃ m' f, grow d mapped (count + 1) s = grow d (mapped + 1) count (s.addPage m') ∧
      Turned s.machine m' k f ∧ Holds (s.addPage m') (k + 1) ∧ InForce m' d := by
  have hw := h.pages.window
  obtain ⟨p', f, ha, ht⟩ := allocPage_free hw.palloc hw.frameZero hfree
  have htook : Palloc.Took s.machine.palloc p' [f] := (Palloc.Took.refl hw.palloc).take ht
  have hscribbles : Scribbles s.machine { s.machine with palloc := p' } := ⟨rfl, fun _ _ => rfl⟩
  obtain ⟨hown, hhand⟩ := h.pages.took htook hscribbles
  have hdir := hd.directory.scribbles hw hd.held hscribbles
  have hpage := heapRegion.pageIn hk
  have hne := ht.ne_zero
  have hmap : grow d mapped (count + 1) s = grow d (mapped + 1) count (s.addPage
      ({ s.machine with palloc := p' }.setLeaf (heapRegion.at k) (f * 4096 + 3))) := by
    rw [grow]
    rw [ha]
    dsimp only
    rw [if_neg (by omega), h.heapEnd, mapPageIn_window hown.window hdir.shares hpage]
  have hend : (heapRegion.at k + 4096) % 2 ^ 32 = heapRegion.at (k + 1) := by
    rw [at_succ]
    exact Nat.mod_eq_of_lt (Nat.lt_of_le_of_lt (at_lt hk) (by decide))
  refine ⟨_, f, hmap, ⟨htook, rfl, rfl⟩, ⟨?_, ?_, hk, Nat.mod_lt _ (by decide)⟩, ?_, ?_, ?_⟩
  · refine (hown.map (hhand f (List.mem_singleton_self f)) hk (Nat.lt_irrefl k)).congr fun n _ => ?_
    omega
  · show (s.heap.heapEnd + 4096) % 2 ^ 32 = _
    rw [h.heapEnd]
    exact hend
  · exact hdir.setLeaf hown hk _
  · show p'.frameRefcounts (d / 4096) ≠ 0
    rw [ht.refcounts, Function.update_apply]
    split
    · exact Nat.one_ne_zero
    · exact hd.held
  · obtain ⟨t, hslot⟩ := hd.beyond
    refine ⟨t, Eq.trans ?_ hslot⟩
    have htab := hdir.apart _ hpage.index.1 hpage.index.2
    have hal := hdir.aligned
    refine entry_setEntry_ne (Nat.mul_mod_left _ _) hal (Nat.mod_lt _ (by decide)) (by decide)
      (Or.inl fun heq => htab ?_)
    show Machine.tableOf { s.machine with palloc := p' } (heapRegion.at k) = d / 4096
    omega

theorem Turned.freeFrames {f : Nat} (ht : Turned m m' k f) (h : m.palloc.Ok) :
    m'.palloc.freeFrames + 1 = m.palloc.freeFrames := ht.took.freeFrames h

/-! ## Enough frames -/

/-- With frames and room for all the pages, all are mapped. -/
theorem grow_room (h : Holds s k) (hd : InForce s.machine d) (hroom : k + count ≤ 16384)
    (hfree : count ≤ s.machine.palloc.freeFrames) (mapped : Nat) :
    ∃ m', grow d mapped count s
        = (⟨m', zeroed s.heap count, s.mapped ++ pagesFrom s.heap.heapEnd count⟩, true) ∧
      OwnPages heapRegion m' (· < k + count) ∧ InForce m' d ∧
      m'.palloc.freeFrames + count = s.machine.palloc.freeFrames := by
  induction count generalizing s k mapped with
  | zero =>
    refine ⟨s.machine, ?_, h.pages, hd, rfl⟩
    have hsame : zeroed s.heap 0 = s.heap := by
      unfold zeroed
      rw [Nat.zero_mul, List.replicate_zero, Store.write_nil, Nat.add_zero, Nat.add_zero,
        Nat.mod_eq_of_lt h.committed]
    rw [hsame, show pagesFrom s.heap.heapEnd 0 = [] from rfl, List.append_nil]
    rfl
  | succ count ih =>
    obtain ⟨m₁, f, hturn, ht, hholds, hd₁⟩ := grow_turn h (by omega) hd (by omega) mapped count
    have hspent := ht.freeFrames h.pages.window.palloc
    obtain ⟨m', hgrow, hown, hd', hfree'⟩ := ih hholds hd₁ (by omega)
      (show count ≤ m₁.palloc.freeFrames by omega) (mapped + 1)
    have hlt : s.heap.heapEnd + 4096 < 2 ^ 32 := by
      rw [h.heapEnd, at_succ]
      exact Nat.lt_of_le_of_lt (at_lt (by omega)) (by decide)
    have hlog : s.mapped ++ [s.heap.heapEnd] ++ pagesFrom ((s.heap.heapEnd + 4096) % 2 ^ 32) count
        = s.mapped ++ pagesFrom s.heap.heapEnd (count + 1) := by
      rw [Nat.mod_eq_of_lt hlt, List.append_assoc]
      rfl
    refine ⟨m', ?_, ?_, hd', ?_⟩
    · rw [hturn, hgrow, ← zeroed_succ s.heap count hlt, ← hlog]
      rfl
    · rwa [show k + (count + 1) = k + 1 + count by omega]
    · have hfree' : m'.palloc.freeFrames + count = m₁.palloc.freeFrames := hfree'
      omega

/-! ## The rollback -/

theorem setLeaf_mem {va v : Nat} (hmem : m'.mem = m.mem)
    (hk : m'.kernelPageDirectoryPhys = m.kernelPageDirectoryPhys) :
    (m'.setLeaf va v).mem = (m.setLeaf va v).mem := by
  unfold Machine.setLeaf Machine.tableOf
  rw [hmem, hk]

/-- The machine after a failed expansion: memory and the counts are as they were. -/
structure Restored (m m' : Machine) : Prop where
  mem : m'.mem = m.mem
  kernel : m'.kernelPageDirectoryPhys = m.kernelPageDirectoryPhys
  counts : Palloc.Took m.palloc m'.palloc []

theorem Restored.scribbles (h : Restored m m') : Scribbles m m' :=
  ⟨h.kernel, fun a _ => by rw [h.mem]⟩

/-- The page of a turn, given back. -/
theorem Turned.undo {m₁ m₂ : Machine} {f : Nat} (h : Holds s k) (hk : k < 16384)
    (ht : Turned s.machine m₁ k f) (hholds : Holds (s.addPage m₁) (k + 1)) (hd : InForce m₁ d)
    (hr : Restored m₁ m₂) : Restored s.machine (m₂.releasePage d (heapRegion.at k)) := by
  have hw := h.pages.window
  have hpage := heapRegion.pageIn hk
  obtain ⟨h0, hlt, -⟩ := ht.took.fresh f (List.mem_singleton_self f)
  have hbound : f * 4096 + 3 < 2 ^ 32 := by
    have := hw.palloc.frame_lt hlt
    omega
  have hown₂ : OwnPages heapRegion m₂ (· < k + 1) := (hholds.pages.took hr.counts hr.scribbles).1
  have hd₂ := hd.directory.scribbles hholds.pages.window hd.held hr.scribbles
  have hmem : m₂.mem = (s.machine.setLeaf (heapRegion.at k) (f * 4096 + 3)).mem :=
    hr.mem.trans ht.mem
  have hkernel : m₂.kernelPageDirectoryPhys = s.machine.kernelPageDirectoryPhys :=
    hr.kernel.trans ht.kernel
  have hleaf : m₂.leaf (heapRegion.at k) = f * 4096 + 3 := by
    have hset := hw.leaf_setLeaf_same hpage hbound
    unfold Machine.leaf at hset ⊢
    rw [hmem, hkernel]
    exact hset
  rw [hown₂.releasePage_eq hd₂.shares hk hleaf h0]
  refine ⟨?_, hkernel, ?_⟩
  · show (m₂.setLeaf (heapRegion.at k) 0).mem = s.machine.mem
    rw [setLeaf_mem (m := s.machine.setLeaf (heapRegion.at k) (f * 4096 + 3)) hmem hkernel,
      hw.setLeaf_restore hpage (h.pages.empty k hk (Nat.lt_irrefl k))]
  · exact Palloc.Took.drop [] (ht.took.trans_nil hr.counts)

theorem Restored.refl (h : m.palloc.Ok) : Restored m m := ⟨rfl, rfl, Palloc.Took.refl h⟩

/-- With too few frames each one is mapped, zeroed and counted, and all are given back. -/
theorem grow_short (h : Holds s k) (hd : InForce s.machine d)
    (hroom : k + s.machine.palloc.freeFrames ≤ 16384)
    (hfree : s.machine.palloc.freeFrames < count) (mapped : Nat) :
    ∃ m', grow d mapped count s = (rollBack d mapped
        ⟨m', { zeroed s.heap s.machine.palloc.freeFrames with heapEnd := s.heap.heapEnd },
          s.mapped ++ pagesFrom s.heap.heapEnd s.machine.palloc.freeFrames⟩, false) ∧
      Restored s.machine m' := by
  induction count generalizing s k mapped with
  | zero => exact absurd hfree (Nat.not_lt_zero _)
  | succ count ih =>
    rcases Nat.eq_zero_or_pos s.machine.palloc.freeFrames with hz | hpos
    · refine ⟨s.machine, ?_, Restored.refl h.pages.window.palloc⟩
      have hsame : { zeroed s.heap 0 with heapEnd := s.heap.heapEnd } = s.heap := by
        unfold zeroed
        dsimp only
        rw [Nat.zero_mul, List.replicate_zero, Store.write_nil, Nat.add_zero,
          Nat.mod_eq_of_lt h.committed]
      rw [grow_out h hz, hz, hsame, show pagesFrom s.heap.heapEnd 0 = [] from rfl, List.append_nil]
    obtain ⟨m₁, f, hturn, ht, hholds, hd₁⟩ := grow_turn h (by omega) hd hpos mapped count
    have hspent := ht.freeFrames h.pages.window.palloc
    obtain ⟨m₂, hgrow, hr⟩ := ih hholds hd₁ (show k + 1 + m₁.palloc.freeFrames ≤ 16384 by omega)
      (show m₁.palloc.freeFrames < count by omega) (mapped + 1)
    have hlt : s.heap.heapEnd + 4096 < 2 ^ 32 := by
      rw [h.heapEnd, at_succ]
      exact Nat.lt_of_le_of_lt (at_lt (by omega)) (by decide)
    refine ⟨_, ?_, Turned.undo h (by omega) ht hholds hd₁ hr⟩
    have hback : ((s.addPage m₁).heap.heapEnd + (2 ^ 32 - 4096)) % 2 ^ 32 = s.heap.heapEnd := by
      show ((s.heap.heapEnd + 4096) % 2 ^ 32 + (2 ^ 32 - 4096)) % 2 ^ 32 = s.heap.heapEnd
      omega
    have hzeroed : zeroed (s.addPage m₁).heap (s.addPage m₁).machine.palloc.freeFrames
        = zeroed s.heap s.machine.palloc.freeFrames := by
      rw [← hspent]
      exact zeroed_succ s.heap m₁.palloc.freeFrames hlt
    have hlog : (s.addPage m₁).mapped ++ pagesFrom (s.addPage m₁).heap.heapEnd
          (s.addPage m₁).machine.palloc.freeFrames
        = s.mapped ++ pagesFrom s.heap.heapEnd s.machine.palloc.freeFrames := by
      rw [← hspent]
      show s.mapped ++ [s.heap.heapEnd] ++ pagesFrom ((s.heap.heapEnd + 4096) % 2 ^ 32) _ = _
      rw [Nat.mod_eq_of_lt hlt, List.append_assoc]
      rfl
    rw [hturn, hgrow, hzeroed, hlog, rollBack_succ, hback, ← h.heapEnd]

/-! ## Past the window -/

theorem rollBack_mapped (n : Nat) (s : PagedHeap) : (rollBack d n s).mapped = s.mapped := by
  induction n generalizing s with
  | zero => rfl
  | succ n ih =>
    rw [rollBack_succ, ih]

/-- The record only grows. -/
theorem grow_mapped {x : Nat} (hx : x ∈ s.mapped) (mapped count : Nat) :
    x ∈ (grow d mapped count s).1.mapped := by
  induction count generalizing s mapped with
  | zero => exact hx
  | succ count ih =>
    unfold grow
    split
    next palloc page _ =>
    split
    · rw [rollBack_mapped]
      exact hx
    · split
      · rw [rollBack_mapped]
        exact hx
      · exact ih (List.mem_append_left _ hx) (mapped + 1)

/-- With more frames than room, and more pages asked for, the loop leaves the window: the
first page behind it is mapped. -/
theorem grow_escapes (h : Holds s k) (hd : InForce s.machine d) (hcount : 16384 < k + count)
    (hfree : 16384 < k + s.machine.palloc.freeFrames) (mapped : Nat) :
    Kheap.limit ∈ (grow d mapped count s).1.mapped := by
  have hle := h.le
  induction count generalizing s k mapped with
  | zero => omega
  | succ count ih =>
    by_cases hk : k < 16384
    · obtain ⟨m₁, f, hturn, ht, hholds, hd₁⟩ := grow_turn h hk hd (by omega) mapped count
      have hspent := ht.freeFrames h.pages.window.palloc
      rw [hturn]
      exact ih hholds hd₁ (by omega) (show 16384 < k + 1 + m₁.palloc.freeFrames by omega)
        (mapped + 1) hk
    have hk : k = 16384 := by omega
    subst hk
    have hw := h.pages.window
    obtain ⟨p', f, ha, ht⟩ := allocPage_free hw.palloc hw.frameZero (by omega)
    obtain ⟨t, hslot⟩ := hd.beyond
    have hne := ht.ne_zero
    have hmap : Machine.mapPageIn { s.machine with palloc := p' } d Kheap.limit (f * 4096)
        pageWritable = (_, true) :=
      mapPageIn_kernel hd.directory.shares.ne_zero (by decide) (Nat.mul_mod_left f 4096) hslot
        (by decide) (by decide)
    have hend : s.heap.heapEnd = Kheap.limit := h.heapEnd
    unfold grow
    rw [ha]
    dsimp only
    rw [if_neg (by omega), hend, hmap]
    refine grow_mapped ?_ (mapped + 1) count
    show Kheap.limit ∈ s.mapped ++ [s.heap.heapEnd]
    rw [hend]
    exact List.mem_append_right _ (List.mem_singleton_self _)

/-! ## Expansion -/

variable {payload : Nat}

theorem room_iff (h : Holds s k) :
    k + Kheap.expandPages payload ≤ 16384 ↔
      s.heap.heapEnd + Kheap.expandPages payload * 4096 ≤ Kheap.limit := by
  rw [h.heapEnd]
  unfold Region.at heapRegion Kheap.base Kheap.limit
  dsimp only
  omega

/-- The limit check. -/
def Refused (s : PagedHeap) (payload : Nat) : Prop :=
  (s.heap.heapEnd + Kheap.expandPages payload * 4096) % 2 ^ 32 > Kheap.limit

instance : Decidable (s.Refused payload) := inferInstanceAs (Decidable (_ > _))

theorem expand_refused (h : s.Refused payload) : s.expand d payload = (s, false) := by
  unfold Refused at h
  unfold expand
  rw [if_pos h]

theorem not_refused (h : Holds s k) (hroom : k + Kheap.expandPages payload ≤ 16384) :
    ¬s.Refused payload := by
  rw [room_iff h] at hroom
  have hlt : s.heap.heapEnd + Kheap.expandPages payload * 4096 < 2 ^ 32 :=
    Nat.lt_of_le_of_lt hroom (by decide)
  unfold Refused
  rw [Nat.mod_eq_of_lt hlt]
  omega

/-- The expansion succeeds. -/
theorem expand_done (h : Holds s k) (hd : InForce s.machine d)
    (hroom : k + Kheap.expandPages payload ≤ 16384)
    (hfree : Kheap.expandPages payload ≤ s.machine.palloc.freeFrames) :
    ∃ m', s.expand d payload = (⟨m', (s.heap.expand payload s.machine.palloc.freeFrames).1,
        s.mapped ++ pagesFrom s.heap.heapEnd (Kheap.expandPages payload)⟩, true) ∧
      OwnPages heapRegion m' (· < k + Kheap.expandPages payload) ∧ InForce m' d ∧
      m'.palloc.freeFrames + Kheap.expandPages payload = s.machine.palloc.freeFrames := by
  have hgo := not_refused h hroom
  obtain ⟨m', hgrow, hrest⟩ := grow_room h hd hroom hfree 0
  refine ⟨m', ?_, hrest⟩
  unfold Refused at hgo
  unfold expand Kheap.expand
  rw [if_neg hgo, hgrow, if_neg hgo, if_neg (by omega)]
  rfl

/-- The expansion fails for want of frames. -/
theorem expand_short (h : Holds s k) (hd : InForce s.machine d) (hgo : ¬s.Refused payload)
    (hroom : k + s.machine.palloc.freeFrames ≤ 16384)
    (hfree : s.machine.palloc.freeFrames < Kheap.expandPages payload) :
    ∃ m', s.expand d payload = (⟨m', (s.heap.expand payload s.machine.palloc.freeFrames).1,
        s.mapped ++ pagesFrom s.heap.heapEnd s.machine.palloc.freeFrames⟩, false) ∧
      Restored s.machine m' := by
  obtain ⟨m', hgrow, hr⟩ := grow_short h hd hroom hfree 0
  refine ⟨m', ?_, hr⟩
  unfold Refused at hgo
  unfold expand Kheap.expand
  rw [if_neg hgo, hgrow, if_neg hgo, if_pos hfree]
  rfl

/-- **On the machine an expansion is the abstract one**, with the free frames as the pages
that can be mapped, as long as it does not leave the window. -/
theorem expand_refines (h : Holds s k) (hd : InForce s.machine d)
    (hin : k + Kheap.expandPages payload ≤ 16384 ∨ k + s.machine.palloc.freeFrames ≤ 16384) :
    ((s.expand d payload).1.heap, (s.expand d payload).2)
      = s.heap.expand payload s.machine.palloc.freeFrames := by
  by_cases hgo : s.Refused payload
  · rw [expand_refused hgo]
    unfold Refused at hgo
    unfold Kheap.expand
    rw [if_pos hgo]
  have hflag : (s.heap.expand payload s.machine.palloc.freeFrames).2
      = decide (Kheap.expandPages payload ≤ s.machine.palloc.freeFrames) := by
    unfold Refused at hgo
    unfold Kheap.expand
    rw [if_neg hgo]
    split
    next hlt => exact (decide_eq_false (by omega)).symm
    next hge => exact (decide_eq_true (by omega)).symm
  by_cases hfree : Kheap.expandPages payload ≤ s.machine.palloc.freeFrames
  · obtain ⟨m', he, -⟩ := expand_done h hd (by omega) hfree
    rw [he]
    exact Prod.ext rfl (by rw [hflag, decide_eq_true hfree])
  · obtain ⟨m', he, -⟩ := expand_short h hd hgo (by omega) (by omega)
    rw [he]
    exact Prod.ext rfl (by rw [hflag, decide_eq_false hfree])

/-- An expansion that has more frames than room maps a page outside the heap. -/
theorem expand_escapes (h : Holds s k) (hd : InForce s.machine d) (hgo : ¬s.Refused payload)
    (hcount : 16384 < k + Kheap.expandPages payload)
    (hfree : 16384 < k + s.machine.palloc.freeFrames) :
    Kheap.limit ∈ (s.expand d payload).1.mapped := by
  have hlog := grow_escapes h hd hcount hfree 0
  unfold Refused at hgo
  unfold expand
  rw [if_neg hgo]
  split
  next s' he =>
    rw [he] at hlog
    exact hlog
  next s' he =>
    rw [he] at hlog
    exact hlog

end PagedHeap

end Riverix.Memory
