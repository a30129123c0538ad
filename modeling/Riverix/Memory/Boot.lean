import Riverix.Memory.BootMap
import Riverix.Memory.Built

/-!
# The kernel's own address space (`paging_init`)

`paging_init` maps every managed frame twice, at its own address and at
`KERNEL_DIRECT_MAP_BASE` above it, through the same page tables, and then gives the heap,
the MMIO window and the kernel stacks the page tables they will ever need.

All tables it builds obey one formula: the table in slot `i` of the directory maps the
frames from `i % 768 * 1024` on as far as the direct map reaches, and nothing beyond. The
tables of the windows are the ones that lie beyond, so they start out empty. `Tabled` says
this of a directory under construction, `Tabled.attach` adds one table to it, and the two
loops of the source are runs of that.

The result is a `KernelSpace`.
-/

namespace Riverix.Memory

open Riverix.Lib

/-! ## `paging_init` -/

/-- `KERNEL_DIRECT_MAP_BASE` -/
abbrev kernelDirectMapBase : Nat := 0xC0000000

/-- `KERNEL_MMIO_BASE` -/
abbrev kernelMmioBase : Nat := 0xF7000000

/-- `KERNEL_MMIO_LIMIT` -/
abbrev kernelMmioLimit : Nat := 0xF7800000

/-- `KERNEL_HEAP_BASE` -/
abbrev kernelHeapBase : Nat := 0xF8000000

/-- `KERNEL_HEAP_LIMIT` -/
abbrev kernelHeapLimit : Nat := 0xFC000000

/-- `KERNEL_STACK_BASE` -/
abbrev kernelStackBase : Nat := 0xFC000000

/-- `KERNEL_STACK_LIMIT` -/
abbrev kernelStackLimit : Nat := 0xFFC00000

/-- `PAGE_TABLE_SPAN` -/
abbrev pageTableSpan : Nat := 0x400000

/-- `DIRECT_MAP_MAX_BYTES` -/
abbrev directMapMaxBytes : Nat := (kernelHeapBase >>> 22 - directMapDirectoryIndex) * pageTableSpan

/-- `palloc_managed_bytes` -/
def Palloc.managedBytes (p : Palloc) : Nat := p.firstUnusableFrame * 4096 % 2 ^ 32

/-- `align_up` of `paging.c`; `~(alignment - 1)` is `2 ^ 32 - alignment` on 32 bits. -/
def alignUp (value alignment : Nat) : Nat :=
  (value + alignment - 1) % 2 ^ 32 &&& (2 ^ 32 - alignment)

/-- `paging_phys_to_virt` -/
def physToVirt (physicalAddress : Nat) : Nat := (kernelDirectMapBase + physicalAddress) % 2 ^ 32

/-- How `paging_init` ends. -/
inductive PagingOutcome where
  | noManagedMemory
  | noPageDirectory
  | noPageTable
  | noSharedTable
  | enabled
  deriving DecidableEq

namespace Machine

/-- The inner loop of `paging_init` from `entryIndex` on, which stops at the end of the
direct map. -/
def fillTable (mem : Store) (pageTablePhys directoryOffset directMapLimit entryIndex : Nat) :
    Nat → Store
  | 0 => mem
  | remaining + 1 =>
    let physicalAddress := directoryOffset + entryIndex * 4096
    if physicalAddress ≥ directMapLimit then mem
    else
      fillTable (setEntry mem pageTablePhys entryIndex (physicalAddress ||| pageFlags))
        pageTablePhys directoryOffset directMapLimit (entryIndex + 1) remaining

/-- The outer loop of `paging_init`, from `tableIndex` on for the given number of tables. -/
def mapDirectTables (m : Machine) (directoryPhys directMapLimit tableIndex : Nat) :
    Nat → Machine × Bool
  | 0 => (m, true)
  | remaining + 1 =>
    let (palloc, pageTablePhys) := m.palloc.allocPage
    if pageTablePhys = 0 then ({ m with palloc }, false)
    else
      let mem := fillTable (zeroPage m.mem pageTablePhys) pageTablePhys (tableIndex * pageTableSpan)
        directMapLimit 0 1024
      let mem := setEntry mem directoryPhys tableIndex (pageTablePhys ||| pageFlags)
      let mem := setEntry mem directoryPhys (directMapDirectoryIndex + tableIndex)
        (pageTablePhys ||| pageFlags)
      mapDirectTables { m with palloc, mem } directoryPhys directMapLimit (tableIndex + 1) remaining

/-- `paging_prepare_shared_tables` over the given directory indices. -/
def prepareSharedTables (m : Machine) (directoryPhys : Nat) : List Nat → Machine × Bool
  | [] => (m, true)
  | index :: indices =>
    if entry m.mem directoryPhys index &&& pagePresent ≠ 0 then
      prepareSharedTables m directoryPhys indices
    else
      let (palloc, tablePhys) := m.palloc.allocPage
      if tablePhys = 0 then ({ m with palloc }, false)
      else
        let mem := setEntry (zeroPage m.mem tablePhys) directoryPhys index (tablePhys ||| pageFlags)
        prepareSharedTables { m with palloc, mem } directoryPhys indices

/-- The directory indices of a window. -/
def windowIndices (base limit : Nat) : List Nat :=
  List.range' (base >>> 22) (limit >>> 22 - base >>> 22)

/-- The three windows, in the order `paging_init` prepares them. -/
def prepareWindows (m : Machine) (directoryPhys : Nat) : Machine × Bool :=
  match m.prepareSharedTables directoryPhys (windowIndices kernelHeapBase kernelHeapLimit) with
  | (m, false) => (m, false)
  | (m, true) =>
    match m.prepareSharedTables directoryPhys (windowIndices kernelMmioBase kernelMmioLimit) with
    | (m, false) => (m, false)
    | (m, true) =>
      m.prepareSharedTables directoryPhys (windowIndices kernelStackBase kernelStackLimit)

end Machine

/-- What `paging_init` leaves: the machine, `direct_map_limit` and how it ended. -/
structure PagingInit where
  machine : Machine
  directMapLimit : Nat
  outcome : PagingOutcome

/-- `direct_map_limit` before the clamp, and after it. -/
def clampDirectMap (limit : Nat) :
    Nat := if limit > directMapMaxBytes then directMapMaxBytes else limit

/-- The last step of `paging_init`. -/
def setRecursiveSlot (m : Machine) (directoryPhys : Nat) : Machine :=
  { m with
    mem := setEntry m.mem directoryPhys recursiveDirectoryIndex (directoryPhys ||| pageFlags) }

/-- `paging_init` from the allocation of the directory on. -/
def buildKernelSpace (palloc : Palloc) (mem : Store) (directMapLimit : Nat) : PagingInit :=
  match palloc.allocPage with
  | (palloc, directoryPhys) =>
    if directoryPhys = 0 then ⟨⟨mem, palloc, directoryPhys⟩, directMapLimit, .noPageDirectory⟩
    else
      match Machine.mapDirectTables ⟨zeroPage mem directoryPhys, palloc,
        directoryPhys⟩ directoryPhys
          directMapLimit 0 (alignUp directMapLimit pageTableSpan / pageTableSpan) with
      | (m, false) => ⟨m, directMapLimit, .noPageTable⟩
      | (m, true) =>
        match m.prepareWindows directoryPhys with
        | (m, false) => ⟨m, directMapLimit, .noSharedTable⟩
        | (m, true) => ⟨setRecursiveSlot m directoryPhys, directMapLimit, .enabled⟩

/-- `paging_init`, on the allocator that `palloc_init` left and any contents of memory. -/
def pagingInit (palloc : Palloc) (mem : Store) : PagingInit :=
  if alignUp palloc.managedBytes 4096 = 0 then ⟨⟨mem, palloc, 0⟩, 0, .noManagedMemory⟩
  else buildKernelSpace palloc mem (clampDirectMap (alignUp palloc.managedBytes 4096))

/-! ## A directory under construction -/

/-- The entry that maps frame `n` of the direct map. -/
def directEntry (limit n : Nat) : Nat := if n * 4096 < limit then n * 4096 + 3 else 0

/-- Slot `i` of the directory has a table of its own, in a frame held for it, that obeys
the formula. -/
structure TableAt (m : Machine) (directory limit i t : Nat) : Prop where
  slot : entry m.mem directory i = t * 4096 + 3
  ne_zero : t ≠ 0
  lt : t < 2 ^ 20
  used : m.palloc.frameRefcounts t ≠ 0
  ne_directory : t ≠ directory / 4096
  leaves : ∀ j < 1024, entry m.mem (t * 4096) j = directEntry limit (i % 768 * 1024 + j)

/-- The directory under construction: its slots are empty or have a table, and above the
direct map's base no two share one. -/
structure Tabled (m : Machine) (directory limit : Nat) : Prop where
  palloc : m.palloc.Ok
  frameZero : m.palloc.frameRefcounts 0 ≠ 0
  aligned : directory % 4096 = 0
  ne_zero : directory ≠ 0
  used : m.palloc.frameRefcounts (directory / 4096) ≠ 0
  slots : ∀ i < 1023, entry m.mem directory i = 0 ∨ ∃ t, TableAt m directory limit i t
  apart : ∀ i j, 768 ≤ i → i < 1023 → 768 ≤ j → j < 1023 → entry m.mem directory i ≠ 0 →
    entry m.mem directory i = entry m.mem directory j → i = j

variable {m m' : Machine} {directory limit i j t : Nat}

theorem present_three (t : Nat) : (t * 4096 + 3) &&& pagePresent ≠ 0 := by
  rw [and_flag_mod _ (by decide), show (t * 4096 + 3) % 4096 = 3 by omega]
  decide

/-- A new table `t` in the slots `S` of the directory. -/
structure Attached (m m' : Machine) (directory limit : Nat) (S : Nat → Prop) (t : Nat) : Prop where
  taken : Palloc.Taken m.palloc m'.palloc t
  other : ∀ a, a / 4096 ≠ t → a / 4096 ≠ directory / 4096 → m'.mem a = m.mem a
  inside : ∀ i < 1024, S i → entry m'.mem directory i = t * 4096 + 3
  outside : ∀ i < 1024, ¬S i → entry m'.mem directory i = entry m.mem directory i
  leaves : ∀ i < 1023, S i →
    ∀ j < 1024, entry m'.mem (t * 4096) j = directEntry limit (i % 768 * 1024 + j)
  single : ∀ i j, 768 ≤ i → i < 1023 → S i → 768 ≤ j → j < 1023 → S j → i = j

theorem Attached.refcounts {S : Nat → Prop} (ha : Attached m m' directory limit S t) {f : Nat}
    (hf : m.palloc.frameRefcounts f ≠ 0) : f ≠ t ∧ m'.palloc.frameRefcounts f ≠ 0 := by
  have hne : f ≠ t := by
    rintro rfl
    exact hf ha.taken.was_free
  refine ⟨hne, ?_⟩
  rw [ha.taken.refcounts, Function.update_of_ne hne]
  exact hf

/-- The tables that were there keep their slots and their entries. -/
theorem TableAt.attach {S : Nat → Prop} {t' : Nat} (h : TableAt m directory limit i t)
    (ha : Attached m m' directory limit S t') (hi : i < 1023) (hS : ¬S i) :
    TableAt m' directory limit i t where
  slot := by
    rw [ha.outside i (by omega) hS]
    exact h.slot
  ne_zero := h.ne_zero
  lt := h.lt
  used := (ha.refcounts h.used).2
  ne_directory := h.ne_directory
  leaves j hj := by
    rw [← h.leaves j hj]
    refine entry_congr_frame hj fun a hat => ?_
    exact ha.other a (by rw [hat]; exact (ha.refcounts h.used).1)
      (by rw [hat]; exact h.ne_directory)

theorem Tabled.attach {S : Nat → Prop} (h : Tabled m directory limit)
    (ha : Attached m m' directory limit S t) : Tabled m' directory limit := by
  have hdir := ha.refcounts h.used
  have hnew : ∀ i < 1023, S i → TableAt m' directory limit i t := by
    intro i hi hS
    refine ⟨ha.inside i (by omega) hS, ha.taken.ne_zero, h.palloc.frame_lt ha.taken.lt, ?_,
      hdir.1.symm, ha.leaves i hi hS⟩
    rw [ha.taken.refcounts, Function.update_self]
    exact Nat.one_ne_zero
  -- an old table lies in another frame than the new one
  have hold : ∀ i < 1023, ¬S i → entry m'.mem directory i ≠ t * 4096 + 3 := by
    intro i hi hS heq
    rw [ha.outside i (by omega) hS] at heq
    rcases h.slots i hi with hz | ⟨t', ht'⟩
    · omega
    · have hslot := ht'.slot
      have hne := (ha.refcounts ht'.used).1
      omega
  refine ⟨ha.taken.ok, (ha.refcounts h.frameZero).2, h.aligned, h.ne_zero, hdir.2, ?_, ?_⟩
  · intro i hi
    by_cases hS : S i
    · exact Or.inr ⟨t, hnew i hi hS⟩
    rcases h.slots i hi with hz | ⟨t', ht'⟩
    · left
      rw [ha.outside i (by omega) hS]
      exact hz
    · exact Or.inr ⟨t', ht'.attach ha hi hS⟩
  intro i j hi hi' hj hj' hne heq
  by_cases hSi : S i
  · by_cases hSj : S j
    · exact ha.single i j hi hi' hSi hj hj' hSj
    · rw [ha.inside i (by omega) hSi] at heq
      exact absurd heq.symm (hold j hj' hSj)
  by_cases hSj : S j
  · rw [ha.inside j (by omega) hSj] at heq
    exact absurd heq (hold i hi' hSi)
  · rw [ha.outside i (by omega) hSi] at hne
    rw [ha.outside i (by omega) hSi, ha.outside j (by omega) hSj] at heq
    exact h.apart i j hi hi' hj hj' hne heq

/-! ## One turn of each loop -/

/-- The filled table maps the frames up to the limit and keeps the entries beyond. -/
theorem fillTable_entry {mem : Store} {offset first n : Nat} (ht : t % 4096 = 0)
    (hoff : offset % 4096 = 0) (hlimit : limit ≤ 2 ^ 32) (hn : first + n ≤ 1024) (hj : j < 1024) :
    entry (Machine.fillTable mem t offset limit first n) t j =
      if first ≤ j ∧ j < first + n ∧ offset + j * 4096 < limit then offset + j * 4096 + 3
      else entry mem t j := by
  induction n generalizing mem first with
  | zero => rw [if_neg (by omega), Machine.fillTable]
  | succ n ih =>
    rw [Machine.fillTable]
    split
    next hend => rw [if_neg (by omega)]
    next hend =>
    have hflags : (offset + first * 4096) ||| pageFlags = offset + first * 4096 + 3 := by
      have hq : offset + first * 4096 = (offset / 4096 + first) * 4096 := by omega
      rw [hq]
      exact frame_or_flags _ (by decide)
    rw [ih (by omega), hflags]
    by_cases hfj : first = j
    · rw [if_neg (by omega), hfj, entry_setEntry_same (by omega), if_pos (by omega)]
    · rw [entry_setEntry_ne ht ht (by omega) hj (Or.inr hfj)]
      by_cases hin : first + 1 ≤ j ∧ j < first + 1 + n ∧ offset + j * 4096 < limit
      · rw [if_pos hin, if_pos (by omega)]
      · rw [if_neg hin, if_neg (by omega)]

theorem fillTable_byte_other {mem : Store} {offset first n a : Nat} (ht : t % 4096 = 0)
    (hn : first + n ≤ 1024) (ha : a / 4096 ≠ t / 4096) :
    Machine.fillTable mem t offset limit first n a = mem a := by
  induction n generalizing mem first with
  | zero => rfl
  | succ n ih =>
    rw [Machine.fillTable]
    split
    · rfl
    · rw [ih (by omega), setEntry_byte_other ht (by omega) ha]

/-- The memory after one turn of the outer loop of `paging_init`. -/
def directTableMem (mem : Store) (directory limit k a : Nat) : Store :=
  setEntry
    (setEntry (Machine.fillTable (zeroPage mem a) a (k * 0x400000) limit 0 1024) directory k
      (a ||| pageFlags))
    directory (768 + k) (a ||| pageFlags)

theorem taken_frame (h : Tabled m directory limit) {p' : Palloc}
    (ht : Palloc.Taken m.palloc p' t) : t ≠ directory / 4096 := by
  rintro rfl
  exact h.used ht.was_free

theorem attached_direct (h : Tabled m directory limit) {p' : Palloc} {k : Nat}
    (ht : Palloc.Taken m.palloc p' t) (hk : k < 224) (hlimit : limit ≤ 2 ^ 32) :
    Attached m { m with palloc := p', mem := directTableMem m.mem directory limit k (t * 4096) }
      directory limit (fun i => i = k ∨ i = 768 + k) t := by
  have hoff : k * 0x400000 % 4096 = 0 := by omega
  have hdir := h.aligned
  have hne := taken_frame h ht
  have hlt := h.palloc.frame_lt ht.lt
  have hal : t * 4096 % 4096 = 0 := Nat.mul_mod_left t 4096
  have hdiv : t * 4096 / 4096 = t := Nat.mul_div_cancel t (by decide)
  have hflags : t * 4096 ||| pageFlags = t * 4096 + 3 := frame_or_flags t (by decide)
  have hout : ∀ a, a / 4096 ≠ directory / 4096 →
      directTableMem m.mem directory limit k (t * 4096) a
        = Machine.fillTable (zeroPage m.mem (t * 4096)) (t * 4096) (k * 0x400000) limit
          0 1024 a := by
    intro a ha
    unfold directTableMem
    rw [setEntry_byte_other hdir (by omega) ha, setEntry_byte_other hdir (by omega) ha]
  refine ⟨ht, ?_, ?_, ?_, ?_, ?_⟩
  · intro a hat had
    show directTableMem m.mem directory limit k (t * 4096) a = m.mem a
    rw [hout a had, fillTable_byte_other hal (by omega) (by rw [hdiv]; exact hat),
      zeroPage_byte_other hal (by rw [hdiv]; exact hat)]
  · rintro i hi (rfl | rfl)
    · unfold directTableMem
      rw [entry_setEntry_ne hdir hdir (by omega) hi (Or.inr (by omega)), hflags,
        entry_setEntry_same (by omega)]
    · unfold directTableMem
      rw [hflags, entry_setEntry_same (by omega)]
  · intro i hi hS
    unfold directTableMem
    rw [entry_setEntry_ne hdir hdir (by omega) hi (Or.inr (by omega)),
      entry_setEntry_ne hdir hdir (by omega) hi (Or.inr (by omega))]
    have hframe : directory = directory / 4096 * 4096 := by omega
    rw [hframe]
    refine entry_congr_frame hi fun a ha => ?_
    have hat : a / 4096 ≠ t * 4096 / 4096 := by rw [hdiv, ha]; exact hne.symm
    rw [fillTable_byte_other hal (by omega) hat, zeroPage_byte_other hal hat]
  · intro i hi hS j hj
    have hmod : i % 768 = k := by omega
    have hsum : k * 0x400000 + j * 4096 = (k * 1024 + j) * 4096 := by omega
    have hlater : entry (directTableMem m.mem directory limit k (t * 4096)) (t * 4096) j
        = entry (Machine.fillTable (zeroPage m.mem (t * 4096)) (t * 4096) (k * 0x400000) limit 0
            1024) (t * 4096) j := by
      refine entry_congr_frame hj fun a ha => ?_
      exact hout a (by rw [ha]; exact hne)
    rw [hlater, fillTable_entry hal hoff hlimit (Nat.le_refl 1024) hj,
      entry_zeroPage hj, hmod, hsum]
    clear hlater hout
    unfold directEntry
    by_cases hin : (k * 1024 + j) * 4096 < limit
    · rw [if_pos (by omega), if_pos hin]
    · rw [if_neg (by omega), if_neg hin]
  · intro i j hi hi' hSi hj hj' hSj
    omega

/-- The memory after one turn of `paging_prepare_shared_tables`. -/
def windowTableMem (mem : Store) (directory i a : Nat) : Store :=
  setEntry (zeroPage mem a) directory i (a ||| pageFlags)

/-- A table beyond the direct map is an empty one. -/
theorem attached_window (h : Tabled m directory limit) {p' : Palloc}
    (ht : Palloc.Taken m.palloc p' t) (hi : i < 1023) (hbeyond : limit ≤ i % 768 * 0x400000) :
    Attached m { m with palloc := p', mem := windowTableMem m.mem directory i (t * 4096) }
      directory limit (fun j => j = i) t := by
  have hdir := h.aligned
  have hne := taken_frame h ht
  have hlt := h.palloc.frame_lt ht.lt
  have hal : t * 4096 % 4096 = 0 := Nat.mul_mod_left t 4096
  have hdiv : t * 4096 / 4096 = t := Nat.mul_div_cancel t (by decide)
  have hflags : t * 4096 ||| pageFlags = t * 4096 + 3 := frame_or_flags t (by decide)
  refine ⟨ht, ?_, ?_, ?_, ?_, ?_⟩
  · intro a hat had
    show windowTableMem m.mem directory i (t * 4096) a = m.mem a
    unfold windowTableMem
    rw [setEntry_byte_other hdir (by omega) had, zeroPage_byte_other hal (by rw [hdiv]; exact hat)]
  · rintro j hj rfl
    unfold windowTableMem
    rw [hflags, entry_setEntry_same (by omega)]
  · intro j hj hS
    unfold windowTableMem
    rw [entry_setEntry_ne hdir hdir (by omega) hj (Or.inr (Ne.symm hS)),
      entry_zeroPage_other hal hdir hj (by omega)]
  · rintro k hk rfl j hj
    unfold windowTableMem
    rw [entry_setEntry_ne hdir hal (by omega) hj (Or.inl (by omega)), entry_zeroPage hj]
    unfold directEntry
    rw [if_neg (by omega)]
  · rintro k l - - rfl - - rfl
    rfl

/-! ## The loops -/

/-- No frame is free. -/
def Palloc.Exhausted (p : Palloc) : Prop := ∀ f, p.frameIsUsed f = true

/-- What the loops keep of a directory, for at most `cost` frames. -/
structure Grown (m m' : Machine) (directory limit cost : Nat) : Prop where
  tabled : Tabled m' directory limit
  kernel : m'.kernelPageDirectoryPhys = m.kernelPageDirectoryPhys
  first : m'.palloc.firstUnusableFrame = m.palloc.firstUnusableFrame
  slots : ∀ i < 1023, entry m.mem directory i ≠ 0 → entry m'.mem directory i ≠ 0
  spent : m.palloc.freeFrames ≤ m'.palloc.freeFrames + cost

theorem Grown.refl (h : Tabled m directory limit) (cost : Nat) : Grown m m directory limit cost :=
  ⟨h, rfl, rfl, fun _ _ hne => hne, Nat.le_add_right _ _⟩

theorem Grown.trans {m₁ m₂ m₃ : Machine} {c₁ c₂ c : Nat} (h₁ : Grown m₁ m₂ directory limit c₁)
    (h₂ : Grown m₂ m₃ directory limit c₂) (hc : c₁ + c₂ ≤ c) : Grown m₁ m₃ directory limit c := by
  refine ⟨h₂.tabled, h₂.kernel.trans h₁.kernel, h₂.first.trans h₁.first,
    fun i hi hne => h₂.slots i hi (h₁.slots i hi hne), ?_⟩
  have hs₁ := h₁.spent
  have hs₂ := h₂.spent
  omega

/-- A frame taken is one free frame less. -/
theorem Palloc.Taken.freeFrames {p p' : Palloc} {f : Nat} (ht : Taken p p' f) (h : p.Ok) :
    p'.freeFrames + 1 = p.freeFrames := by
  have hmem : f ∈ p.freeSet := mem_freeSet.mpr ⟨ht.lt, ht.was_free⟩
  have hset : p'.freeSet = p.freeSet.erase f := by
    ext g
    rw [Finset.mem_erase, mem_freeSet, mem_freeSet, ht.first, ht.refcounts, Function.update_apply]
    by_cases hg : g = f
    · simp [hg]
    · simp [hg]
  rw [ht.ok.free_eq, h.free_eq, hset, Finset.card_erase_add_one hmem]

theorem Tabled.grown {S : Nat → Prop} (h : Tabled m directory limit)
    (ha : Attached m m' directory limit S t)
    (hk : m'.kernelPageDirectoryPhys = m.kernelPageDirectoryPhys) :
    Grown m m' directory limit 1 := by
  refine ⟨h.attach ha, hk, ha.taken.first, fun i hi hne => ?_, (ha.taken.freeFrames h.palloc).ge⟩
  by_cases hS : S i
  · rw [ha.inside i (by omega) hS]
    omega
  · rw [ha.outside i (by omega) hS]
    exact hne

/-- An allocation fails only if no frame is free. -/
theorem Palloc.exhausted_of_allocPage {p p' : Palloc} (h : p.Ok) (h0 : p.frameRefcounts 0 ≠ 0)
    (ha : p.allocPage = (p', 0)) : p' = p ∧ p.Exhausted := by
  refine ⟨allocPage_none h h0 ha, fun f => ?_⟩
  by_contra hfree
  rw [Bool.not_eq_true] at hfree
  obtain ⟨n, hn⟩ := alloc_reaches (counted_ok h) ((h.bit_iff 0).mpr h0) hfree
  -- a failed allocation leaves the allocator as it was, so it fails again
  have hstill : ∀ n, run step p (List.replicate n .allocPage) = p := by
    intro n
    induction n with
    | zero => rfl
    | succ n ih =>
      rw [List.replicate_succ, run_cons]
      have hstep : p.step .allocPage = p := by
        show p.allocPage.1 = p
        rw [ha]
        exact allocPage_none h h0 ha
      rw [hstep, ih]
  rw [hstill, ha] at hn
  have hf : f = 0 := by
    omega
  rw [hf, (h.bit_iff 0).mpr h0] at hfree
  simp at hfree

/-- What a loop ends with: a grown directory, and either its work done or no frame left. -/
structure Finished (r : Machine × Bool) (m : Machine) (directory limit cost : Nat)
    (done : Machine → Prop) : Prop where
  grown : Grown m r.1 directory limit cost
  done : r.2 = true → done r.1
  exhausted : r.2 = false → r.1.palloc.Exhausted

theorem mapDirectTables_spec (h : Tabled m directory limit) {k n : Nat} (hk : k + n ≤ 224)
    (hlimit : limit ≤ 2 ^ 32) :
    Finished (m.mapDirectTables directory limit k n) m directory limit n fun m' =>
      ∀ i, k ≤ i → i < k + n → entry m'.mem directory (768 + i) ≠ 0 := by
  induction n generalizing m k with
  | zero =>
    refine ⟨Grown.refl h 0, fun _ i hi hi' => by omega, fun hf => ?_⟩
    exact absurd hf (by simp [Machine.mapDirectTables])
  | succ n ih =>
    rcases halloc : m.palloc.allocPage with ⟨p', a⟩
    rw [Machine.mapDirectTables]
    simp only [halloc]
    split
    next ha =>
      rw [ha] at halloc
      obtain ⟨rfl, hex⟩ := Palloc.exhausted_of_allocPage h.palloc h.frameZero halloc
      exact ⟨Grown.refl h _, by simp, fun _ => hex⟩
    next ha =>
    obtain ⟨t, rfl, ht⟩ := Palloc.allocPage_some h.palloc halloc ha
    have hatt := attached_direct h ht (k := k) (by omega) hlimit
    have hgrown := h.grown hatt rfl
    obtain ⟨hg, hd, he⟩ := ih hgrown.tabled (k := k + 1) (by omega)
    refine ⟨hgrown.trans hg (by omega), fun hok i hi hi' => ?_, he⟩
    by_cases hik : i = k
    · rw [hik]
      refine hg.slots (768 + k) (by omega) ?_
      rw [hatt.inside (768 + k) (by omega) (Or.inr rfl)]
      exact Nat.succ_ne_zero _
    · exact hd hok i (by omega) (by omega)

theorem TableAt.present (h : TableAt m directory limit i t) :
    entry m.mem directory i &&& pagePresent ≠ 0 := by
  rw [h.slot]
  exact present_three t

theorem prepareSharedTables_spec (h : Tabled m directory limit) (indices : List Nat)
    (hbeyond : ∀ i ∈ indices, i < 1023 ∧
      (entry m.mem directory i = 0 → limit ≤ i % 768 * 0x400000)) :
    Finished (m.prepareSharedTables directory indices) m directory limit indices.length fun m' =>
      ∀ i ∈ indices, entry m'.mem directory i ≠ 0 := by
  induction indices generalizing m with
  | nil =>
    refine ⟨Grown.refl h 0, fun _ i hi => absurd hi List.not_mem_nil, fun hf => ?_⟩
    exact absurd hf (by simp [Machine.prepareSharedTables])
  | cons i indices ih =>
    obtain ⟨hi, hlimit⟩ := hbeyond i (List.mem_cons_self ..)
    -- slots that are filled stay filled, so the indices to come meet their condition
    have hrest : ∀ {m' c}, Grown m m' directory limit c → ∀ j ∈ indices, j < 1023 ∧
        (entry m'.mem directory j = 0 → limit ≤ j % 768 * 0x400000) := by
      intro m' c hg j hj
      obtain ⟨hj', hjlim⟩ := hbeyond j (List.mem_cons_of_mem _ hj)
      refine ⟨hj', fun hz => hjlim ?_⟩
      by_contra hne
      exact hg.slots j hj' hne hz
    rw [Machine.prepareSharedTables]
    split
    next hp =>
      obtain ⟨hg, hd, he⟩ := ih h (hrest (Grown.refl h 0))
      refine ⟨(Grown.refl h 1).trans hg (by rw [List.length_cons]; omega), fun hok j hj => ?_, he⟩
      rcases List.mem_cons.mp hj with rfl | hj
      · refine hg.slots j hi ?_
        intro hz
        rw [hz] at hp
        exact hp rfl
      · exact hd hok j hj
    next hp =>
    have hz : entry m.mem directory i = 0 := by
      rcases h.slots i hi with hz | ⟨t, ht⟩
      · exact hz
      · exact absurd ht.present (by simpa using hp)
    rcases halloc : m.palloc.allocPage with ⟨p', a⟩
    dsimp only
    split
    next ha =>
      rw [ha] at halloc
      obtain ⟨rfl, hex⟩ := Palloc.exhausted_of_allocPage h.palloc h.frameZero halloc
      exact ⟨Grown.refl h _, by simp, fun _ => hex⟩
    next ha =>
    obtain ⟨t, rfl, ht⟩ := Palloc.allocPage_some h.palloc halloc ha
    have hatt := attached_window h ht hi (hlimit hz)
    have hgrown := h.grown hatt rfl
    obtain ⟨hg, hd, he⟩ := ih hgrown.tabled (hrest hgrown)
    refine ⟨hgrown.trans hg (by rw [List.length_cons]; omega), fun hok j hj => ?_, he⟩
    rcases List.mem_cons.mp hj with rfl | hj
    · refine hg.slots j hi ?_
      rw [hatt.inside j (by omega) rfl]
      exact Nat.succ_ne_zero _
    · exact hd hok j hj

/-! ## The kernel's address space -/

/-- A directory index of the MMIO, heap or stack window. -/
def WindowIndex (i : Nat) : Prop := (988 ≤ i ∧ i < 990) ∨ (992 ≤ i ∧ i < 1023)

theorem mem_windowIndices :
    i ∈ Machine.windowIndices kernelHeapBase kernelHeapLimit ∨
      i ∈ Machine.windowIndices kernelMmioBase kernelMmioLimit ∨
      i ∈ Machine.windowIndices kernelStackBase kernelStackLimit ↔ WindowIndex i := by
  have hheap : Machine.windowIndices kernelHeapBase kernelHeapLimit = List.range' 992 16 := rfl
  have hmmio : Machine.windowIndices kernelMmioBase kernelMmioLimit = List.range' 988 2 := rfl
  have hstack : Machine.windowIndices kernelStackBase kernelStackLimit = List.range' 1008 15 := rfl
  rw [hheap, hmmio, hstack, List.mem_range'_1, List.mem_range'_1, List.mem_range'_1]
  unfold WindowIndex
  omega

theorem prepareWindows_spec (h : Tabled m directory limit)
    (hbeyond : ∀ i, WindowIndex i → entry m.mem directory i = 0 → limit ≤ i % 768 * 0x400000) :
    Finished (m.prepareWindows directory) m directory limit 33 fun m' =>
      ∀ i, WindowIndex i → entry m'.mem directory i ≠ 0 := by
  have hlt : ∀ i, WindowIndex i → i < 1023 := by
    intro i hi
    unfold WindowIndex at hi
    omega
  -- the condition on the slots to come survives the growth of the directory
  have hnext : ∀ {m' c} {indices : List Nat}, Grown m m' directory limit c →
      (∀ i ∈ indices, WindowIndex i) →
      ∀ i ∈ indices, i < 1023 ∧ (entry m'.mem directory i = 0 → limit ≤ i % 768 * 0x400000) := by
    intro m' c indices hg hw i hi
    refine ⟨hlt i (hw i hi), fun hz => hbeyond i (hw i hi) ?_⟩
    by_contra hne
    exact hg.slots i (hlt i (hw i hi)) hne hz
  unfold Machine.prepareWindows
  have h₁ := prepareSharedTables_spec h _
    (hnext (Grown.refl h 0) fun i hi => mem_windowIndices.mp (Or.inl hi))
  split
  next m₁ he =>
    rw [he] at h₁
    exact ⟨(Grown.refl h 0).trans h₁.grown (by decide), by simp, h₁.exhausted⟩
  next m₁ he =>
  rw [he] at h₁
  have hg₁ : Grown m m₁ directory limit 16 := h₁.grown
  have h₂ := prepareSharedTables_spec hg₁.tabled _
    (hnext hg₁ fun i hi => mem_windowIndices.mp (Or.inr (Or.inl hi)))
  split
  next m₂ he₂ =>
    rw [he₂] at h₂
    exact ⟨hg₁.trans h₂.grown (by decide), by simp, h₂.exhausted⟩
  next m₂ he₂ =>
  rw [he₂] at h₂
  have hg₂ : Grown m₁ m₂ directory limit 2 := h₂.grown
  have h₃ := prepareSharedTables_spec hg₂.tabled _
    (hnext (hg₁.trans hg₂ le_rfl) fun i hi => mem_windowIndices.mp (Or.inr (Or.inr hi)))
  refine ⟨(hg₁.trans hg₂ le_rfl).trans h₃.grown (by decide), fun hok i hi => ?_, h₃.exhausted⟩
  rcases mem_windowIndices.mpr hi with hi' | hi' | hi'
  · exact (hg₂.trans h₃.grown le_rfl).slots i (hlt i hi) (h₁.done rfl i hi')
  · exact h₃.grown.slots i (hlt i hi) (h₂.done rfl i hi')
  · exact h₃.done hok i hi'

/-- The kernel's address space as `paging_init` leaves it: the direct map as far as `limit`,
and a table for every slot of the windows. -/
structure KernelSpace (m : Machine) (limit : Nat) : Prop where
  tabled : Tabled m m.kernelPageDirectoryPhys limit
  direct : ∀ i, i * 0x400000 < limit → entry m.mem m.kernelPageDirectoryPhys (768 + i) ≠ 0
  windows : ∀ i, WindowIndex i → entry m.mem m.kernelPageDirectoryPhys i ≠ 0

/-- A store to the last slot, which the formula does not speak about. -/
theorem Tabled.set_self (h : Tabled m directory limit) (v : Nat) :
    Tabled { m with mem := setEntry m.mem directory 1023 v } directory limit := by
  have hslot : ∀ i < 1023, entry (setEntry m.mem directory 1023 v) directory i
      = entry m.mem directory i :=
    fun i hi => entry_setEntry_ne h.aligned h.aligned (by omega) (by omega) (Or.inr (by omega))
  refine ⟨h.palloc, h.frameZero, h.aligned, h.ne_zero, h.used, ?_, ?_⟩
  · intro i hi
    rcases h.slots i hi with hz | ⟨t, ht⟩
    · left
      exact (hslot i hi).trans hz
    refine Or.inr ⟨t, (hslot i hi).trans ht.slot, ht.ne_zero, ht.lt, ht.used, ht.ne_directory, ?_⟩
    intro j hj
    rw [← ht.leaves j hj]
    have hal := h.aligned
    have hne := ht.ne_directory
    exact entry_setEntry_ne hal (Nat.mul_mod_left t 4096) (by omega) hj (Or.inl (by omega))
  · intro i j hi hi' hj hj' hne heq
    have hne : entry m.mem directory i ≠ 0 := by
      rw [← hslot i hi']
      exact hne
    refine h.apart i j hi hi' hj hj' hne ?_
    rw [← hslot i hi', ← hslot j hj']
    exact heq

/-- The recursive slot completes the address space. -/
theorem Tabled.kernelSpace (h : Tabled m directory limit)
    (hk : m.kernelPageDirectoryPhys = directory) (hlimit : limit ≤ 0x38000000)
    (hdirect : ∀ i, i * 0x400000 < limit → entry m.mem directory (768 + i) ≠ 0)
    (hwin : ∀ i, WindowIndex i → entry m.mem directory i ≠ 0) :
    KernelSpace (setRecursiveSlot m directory) limit := by
  have hal := h.aligned
  have hset : ∀ i < 1023, entry (setRecursiveSlot m directory).mem directory i
      = entry m.mem directory i :=
    fun i hi => entry_setEntry_ne hal hal (by decide) (by omega) (Or.inr (show 1023 ≠ i by omega))
  subst hk
  refine ⟨h.set_self _, fun i hi => ?_, fun i hi => ?_⟩
  · exact ne_of_eq_of_ne (hset (768 + i) (by omega)) (hdirect i hi)
  · have hi' : i < 1023 := by
      unfold WindowIndex at hi
      omega
    exact ne_of_eq_of_ne (hset i hi') (hwin i hi)

theorem alignUp_page {n : Nat} (hn : n % 4096 = 0) (hlt : n < 2 ^ 32) : alignUp n 4096 = n := by
  have h := and_high_mask (x := n + 4096 - 1) (w := 32) (k := 12) (by omega) (by decide)
  unfold alignUp
  rw [Nat.mod_eq_of_lt (by omega)]
  exact h.trans (by omega)

theorem alignUp_span {n : Nat} (hlt : n ≤ 0x38000000) :
    alignUp n pageTableSpan = (n + 0x3FFFFF) / 0x400000 * 0x400000 := by
  have h := and_high_mask (x := n + 0x400000 - 1) (w := 32) (k := 22) (by omega) (by decide)
  unfold alignUp pageTableSpan
  rw [Nat.mod_eq_of_lt (by omega)]
  exact h.trans (by omega)

/-- What `paging_init` does once it has memory to map. -/
structure Build (p : Palloc) (s : PagingInit) (limit : Nat) : Prop where
  limit_eq : s.directMapLimit = limit
  has_memory : s.outcome ≠ .noManagedMemory
  palloc : s.machine.palloc.Ok
  frameZero : s.machine.palloc.frameRefcounts 0 ≠ 0
  first : s.machine.palloc.firstUnusableFrame = p.firstUnusableFrame
  enabled : s.outcome = .enabled → KernelSpace s.machine limit
  exhausted : s.outcome ≠ .enabled → s.machine.palloc.Exhausted
  spent : p.freeFrames ≤ s.machine.palloc.freeFrames + (34 + (limit + 0x3FFFFF) / 0x400000)

theorem tabled_empty {p p' : Palloc} (mem : Store) (h0 : p.frameRefcounts 0 ≠ 0)
    (ht : Palloc.Taken p p' t) (limit : Nat) :
    Tabled ⟨zeroPage mem (t * 4096), p', t * 4096⟩ (t * 4096) limit := by
  have hslot : ∀ i < 1023, entry (zeroPage mem (t * 4096)) (t * 4096) i = 0 :=
    fun i hi => entry_zeroPage (by omega)
  have hdiv : t * 4096 / 4096 = t := Nat.mul_div_cancel t (by decide)
  have hne := ht.ne_zero
  refine ⟨ht.ok, ?_, Nat.mul_mod_left t 4096, by omega, ?_, fun i hi => Or.inl (hslot i hi), ?_⟩
  · show p'.frameRefcounts 0 ≠ 0
    rw [ht.refcounts, Function.update_of_ne hne.symm]
    exact h0
  · show p'.frameRefcounts (t * 4096 / 4096) ≠ 0
    rw [hdiv, ht.refcounts, Function.update_self]
    exact Nat.one_ne_zero
  · intro i j hi hi' hj hj' hnz heq
    exact absurd (hslot i hi') hnz

/-- The tables of the direct map reach as far as the limit, so the window slots that are
still empty lie beyond it. -/
theorem window_beyond (hlimit : limit ≤ 0x38000000)
    (hdirect : ∀ i, i < (limit + 0x3FFFFF) / 0x400000 → entry m.mem directory (768 + i) ≠ 0)
    (hw : WindowIndex i) (hz : entry m.mem directory i = 0) : limit ≤ i % 768 * 0x400000 := by
  have hge : (limit + 0x3FFFFF) / 0x400000 ≤ i - 768 := by
    by_contra hlt
    have hne := hdirect (i - 768) (by omega)
    unfold WindowIndex at hw
    rw [show 768 + (i - 768) = i by omega] at hne
    exact hne hz
  unfold WindowIndex at hw
  omega

theorem clampDirectMap_le (n : Nat) : clampDirectMap n ≤ 0x38000000 := by
  have hmax : directMapMaxBytes = 0x38000000 := rfl
  unfold clampDirectMap
  split <;> omega

theorem buildKernelSpace_spec {p : Palloc} (h : p.Ok) (h0 : p.frameRefcounts 0 ≠ 0) (mem : Store)
    (hle : limit ≤ 0x38000000) : Build p (buildKernelSpace p mem limit) limit := by
  unfold buildKernelSpace
  split
  next p' a halloc =>
  split
  next ha =>
    rw [ha] at halloc
    obtain ⟨rfl, hex⟩ := Palloc.exhausted_of_allocPage h h0 halloc
    exact ⟨rfl, by simp, h, h0, rfl, by simp, fun _ => hex,
      Nat.le_add_right _ _⟩
  next ha =>
  obtain ⟨t, rfl, ht⟩ := Palloc.allocPage_some h halloc ha
  have hcount : alignUp limit pageTableSpan / pageTableSpan = (limit + 0x3FFFFF) / 0x400000 := by
    rw [alignUp_span hle]
    exact Nat.mul_div_cancel _ (by decide)
  rw [hcount]
  have htaken := ht.freeFrames h
  have hmap := mapDirectTables_spec (tabled_empty mem h0 ht limit) (k := 0)
    (n := (limit + 0x3FFFFF) / 0x400000) (by omega) (by omega)
  split
  next m₁ he =>
    rw [he] at hmap
    exact ⟨rfl, by simp, hmap.grown.tabled.palloc, hmap.grown.tabled.frameZero,
      hmap.grown.first.trans ht.first, by simp,
      fun _ => hmap.exhausted rfl, by have := hmap.grown.spent; dsimp only at this ⊢; omega⟩
  next m₁ he =>
  rw [he] at hmap
  have hg₁ : Grown _ m₁ (t * 4096) limit _ := hmap.grown
  have hdirect : ∀ i, i < (limit + 0x3FFFFF) / 0x400000 →
      entry m₁.mem (t * 4096) (768 + i) ≠ 0 :=
    fun i hi => hmap.done rfl i (Nat.zero_le i) (by omega)
  have hwin := prepareWindows_spec hg₁.tabled fun i hw hz => window_beyond hle hdirect hw hz
  split
  next m₂ he₂ =>
    rw [he₂] at hwin
    exact ⟨rfl, by simp, hwin.grown.tabled.palloc, hwin.grown.tabled.frameZero,
      (hg₁.trans hwin.grown le_rfl).first.trans ht.first,
      by simp, fun _ => hwin.exhausted rfl,
      by have := (hg₁.trans hwin.grown le_rfl).spent; dsimp only at this ⊢; omega⟩
  next m₂ he₂ =>
  rw [he₂] at hwin
  have hg₂ : Grown m₁ m₂ (t * 4096) limit _ := hwin.grown
  have hg := hg₁.trans hg₂ le_rfl
  have hk : m₂.kernelPageDirectoryPhys = t * 4096 := hg.kernel
  refine ⟨rfl, by simp, hg₂.tabled.palloc, hg₂.tabled.frameZero,
    hg.first.trans ht.first, fun _ => ?_, fun hf => absurd rfl hf,
    by have := hg.spent; show p.freeFrames ≤ m₂.palloc.freeFrames + _; dsimp only at this; omega⟩
  exact hg₂.tabled.kernelSpace hk hle
    (fun i hi => hg₂.slots (768 + i) (by omega) (hdirect i (by omega))) (hwin.done rfl)

theorem pagingInit_build {p : Palloc} (h : p.Ok) (h0 : p.frameRefcounts 0 ≠ 0) (mem : Store)
    (hne : p.managedBytes ≠ 0) :
    Build p (pagingInit p mem) (clampDirectMap p.managedBytes) := by
  have hmanaged : alignUp p.managedBytes 4096 = p.managedBytes := by
    unfold Palloc.managedBytes
    exact alignUp_page (by omega) (by omega)
  unfold pagingInit
  rw [hmanaged, if_neg hne]
  exact buildKernelSpace_spec h h0 mem (clampDirectMap_le _)

theorem Palloc.Exhausted.freeFrames {p : Palloc} (he : p.Exhausted) (h : p.Ok) :
    p.freeFrames = 0 := by
  rw [h.free_eq, Finset.card_eq_zero, Finset.eq_empty_iff_forall_notMem]
  intro f hf
  exact (h.bit_iff f).mp (he f) (mem_freeSet.mp hf).2

/-- With frames for the directory and every table, and one left, `paging_init` completes. -/
theorem pagingInit_enabled {p : Palloc} (h : p.Ok) (h0 : p.frameRefcounts 0 ≠ 0) (mem : Store)
    (hne : p.managedBytes ≠ 0)
    (henough : 34 + (clampDirectMap p.managedBytes + 0x3FFFFF) / 0x400000 < p.freeFrames) :
    (pagingInit p mem).outcome = .enabled := by
  have hb := pagingInit_build h h0 mem hne
  by_contra hout
  have hzero := (hb.exhausted hout).freeFrames hb.palloc
  have hspent := hb.spent
  omega

/-- The machine that `paging_init` leaves, if it gets to enable paging. -/
theorem enabled_kernelSpace {info : MultibootInfo} {kernelStart kernelEnd : UInt32} {mem : Store}
    (henabled : (pagingInit (Palloc.init info kernelStart kernelEnd) mem).outcome = .enabled) :
    ∃ limit ≤ directMapMaxBytes,
      KernelSpace (pagingInit (Palloc.init info kernelStart kernelEnd) mem).machine limit := by
  have hok := Palloc.init_ok info kernelStart kernelEnd
  have h0 := (hok.bit_iff 0).mp (Palloc.init_zero_used info kernelStart kernelEnd)
  have hne : (Palloc.init info kernelStart kernelEnd).managedBytes ≠ 0 := by
    intro hz
    unfold pagingInit at henabled
    rw [hz, if_pos (show alignUp 0 4096 = 0 by decide)] at henabled
    cases henabled
  exact ⟨_, clampDirectMap_le _, (pagingInit_build hok h0 mem hne).enabled henabled⟩

/-- The entries of the kernel's directory and of its tables are closed to user mode. -/
theorem and_user_three (t : Nat) : (t * 4096 + 3) &&& pageUser = 0 := by
  rw [and_flag_mod _ (by decide), show (t * 4096 + 3) % 4096 = 3 by omega]
  rfl

/-- The kernel's address space is one that user spaces can be built on, as long as the direct
map reaches every frame. -/
theorem KernelSpace.kernelOk (h : KernelSpace m limit)
    (hreach : m.palloc.firstUnusableFrame * 4096 ≤ 0x38000000) : KernelOk m := by
  have htable : ∀ i < 1023, entry m.mem m.kernelPageDirectoryPhys i &&& pagePresent ≠ 0 →
      ∃ t, TableAt m m.kernelPageDirectoryPhys limit i t := by
    intro i hi hp
    refine (h.tabled.slots i hi).resolve_left fun hz => hp ?_
    rw [hz]
    rfl
  have hframe : ∀ {i t}, TableAt m m.kernelPageDirectoryPhys limit i t →
      entry m.mem m.kernelPageDirectoryPhys i / 4096 = t := by
    intro i t ht
    rw [ht.slot]
    omega
  refine ⟨h.tabled.palloc, h.tabled.frameZero, hreach, h.tabled.aligned, h.tabled.ne_zero,
    h.tabled.used, fun i hi => ?_, fun i hi hp => ?_, fun i hi hp j hj => ?_⟩
  · rcases h.tabled.slots i hi with hz | ⟨t, ht⟩
    · rw [hz]
      rfl
    · rw [ht.slot]
      exact and_user_three t
  · obtain ⟨t, ht⟩ := htable i hi hp
    rw [hframe ht]
    exact ⟨ht.ne_zero, ht.used⟩
  · obtain ⟨t, ht⟩ := htable i hi hp
    rw [hframe ht, ht.leaves j hj]
    unfold directEntry
    split
    · exact and_user_three _
    · rfl

/-- **The machine that `paging_init` leaves** is one that address spaces are built on: up to
the 896 MiB of the direct map, which `Built` starts from. -/
theorem enabled_built {info : MultibootInfo} {kernelStart kernelEnd : UInt32} {mem : Store}
    (henabled : (pagingInit (Palloc.init info kernelStart kernelEnd) mem).outcome = .enabled)
    (hreach : (pagingInit (Palloc.init info kernelStart kernelEnd)
    mem).machine.palloc.firstUnusableFrame
      * 4096 ≤ 0x38000000) :
    Built (pagingInit (Palloc.init info kernelStart kernelEnd) mem).machine [] [] := by
  obtain ⟨limit, -, hspace⟩ := enabled_kernelSpace henabled
  exact .boot (hspace.kernelOk hreach)

/-- A machine with 256 KiB above the first megabyte. -/
def pagedInfo : MultibootInfo := { Palloc.smallInfo with memUpper := 256 }

theorem pagedInfo_enabled :
    (pagingInit (Palloc.init pagedInfo 0x100000 0x101000) fun _ => 0).outcome = .enabled := by
  have hok := Palloc.init_ok pagedInfo 0x100000 0x101000
  refine pagingInit_enabled hok ((hok.bit_iff 0).mp (Palloc.init_zero_used ..)) _ ?_ ?_ <;>
    decide +kernel

theorem Palloc.Ok.freeFrames_le {p : Palloc} (h : p.Ok) : p.freeFrames ≤ p.firstUnusableFrame := by
  rw [h.free_eq]
  exact (Finset.card_filter_le _ _).trans_eq (Finset.card_range _)

/-- Some frames are left on it. -/
theorem pagedInfo_freeFrames :
    28 ≤ (pagingInit (Palloc.init pagedInfo 0x100000 0x101000)
      fun _ => 0).machine.palloc.freeFrames ∧
      (pagingInit (Palloc.init pagedInfo 0x100000 0x101000) fun _ => 0).machine.palloc.freeFrames
        ≤ 320 := by
  have hok := Palloc.init_ok pagedInfo 0x100000 0x101000
  have hbuild := pagingInit_build hok ((hok.bit_iff 0).mp (Palloc.init_zero_used ..)) (fun _ => 0)
    (by decide +kernel)
  have hspent := hbuild.spent
  have hle := hbuild.palloc.freeFrames_le
  rw [hbuild.first, show (Palloc.init pagedInfo 0x100000 0x101000).firstUnusableFrame = 320 by
    decide +kernel] at hle
  rw [show (Palloc.init pagedInfo 0x100000 0x101000).freeFrames = 63 by decide +kernel,
    show clampDirectMap (Palloc.init pagedInfo 0x100000 0x101000).managedBytes = 1310720 by
      decide +kernel] at hspent
  exact ⟨by omega, hle⟩

end Riverix.Memory
