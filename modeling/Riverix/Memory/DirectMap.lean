import Riverix.Memory.Boot

/-!
# Every frame that palloc can return is addressable

The kernel reaches a frame through the direct map, at `paging_phys_to_virt` of its address.
A page of the heap, of a kernel stack or of a device is mapped by a store to a table of its
window, and as long as the direct map ends below the windows no table serves both, so such
a store replaces no entry of the direct map (`DirectMap.run`).

The direct map starts from `palloc_managed_bytes`, and three things are wrong with that.
`first_unusable_frame` is raised by the end of every AVAILABLE entry, whether or not the
entry has a whole frame in it; its product with the page size is one of 32 bits, and 0 if an
entry reaches 4 GiB; and the clamp of the direct map is computed from the heap, although the
MMIO window lies below it, so a frame beyond 880 MiB puts the direct map into that window.

**`frames_addressable_iff`** says for which memory maps this is harmless (`Handled`), and
what is harmless about it (`FramesAddressable`) does not mention the code's own mark: the
managed frames are those that some AVAILABLE entry has as a whole (`Managed`). The argument
is about that mark all the same. It is the largest end of an entry (`init_first_le`); where
it is at most 880 MiB the rest follows from what `paging_init` builds
(`addressable_of_first_le`), and beyond that two ranges of the kernel overlap
(`first_le_of_apart`).
-/

namespace Riverix.Memory

open Riverix.Lib

variable {m m' : Machine} {directory limit i j t : Nat}

/-! ## The direct map while the windows are in use -/

/-- A page of the MMIO, heap or stack window. -/
def InWindow (va : Nat) : Prop :=
  (kernelMmioBase ≤ va ∧ va < kernelMmioLimit) ∨ (kernelHeapBase ≤ va ∧ va < kernelStackLimit)

instance (va : Nat) : Decidable (InWindow va) := inferInstanceAs (Decidable (_ ∨ _))

theorem InWindow.index {va : Nat} (h : InWindow va) : WindowIndex (va / 4194304) := by
  unfold InWindow kernelMmioBase kernelMmioLimit kernelHeapBase kernelStackLimit at h
  unfold WindowIndex
  omega

/-- What the kernel does to its own mappings after `paging_init`. -/
inductive WindowCall where
  | mapPage (virtualAddress physicalAddress flags : Nat)
  | unmapPage (virtualAddress : Nat)

def WindowCall.page : WindowCall → Nat
  | .mapPage virtualAddress _ _ => virtualAddress
  | .unmapPage virtualAddress => virtualAddress

def windowStep (m : Machine) : WindowCall → Machine
  | .mapPage virtualAddress physicalAddress flags =>
    (m.mapPageIn m.kernelPageDirectoryPhys virtualAddress physicalAddress flags).1
  | .unmapPage virtualAddress => m.unmapPageIn m.kernelPageDirectoryPhys virtualAddress

/-- The direct map as far as `limit`, whatever the window tables hold. -/
structure DirectMap (m : Machine) (limit : Nat) : Prop where
  below : limit ≤ 0x37000000
  aligned : m.kernelPageDirectoryPhys % 4096 = 0
  ne_zero : m.kernelPageDirectoryPhys ≠ 0
  direct : ∀ i, i * 0x400000 < limit → ∃ t,
    entry m.mem m.kernelPageDirectoryPhys (768 + i) = t * 4096 + 3 ∧
      t ≠ m.kernelPageDirectoryPhys / 4096 ∧
      ∀ j < 1024, entry m.mem (t * 4096) j = directEntry limit (i * 1024 + j)
  windows : ∀ i, WindowIndex i → ∃ t, entry m.mem m.kernelPageDirectoryPhys i = t * 4096 + 3 ∧
    t ≠ m.kernelPageDirectoryPhys / 4096
  apart : ∀ i j, i * 0x400000 < limit → WindowIndex j →
    entry m.mem m.kernelPageDirectoryPhys (768 + i) ≠ entry m.mem m.kernelPageDirectoryPhys j

/-- Below the MMIO window the direct map shares no table with the windows. -/
theorem KernelSpace.directMap (h : KernelSpace m limit) (hlimit : limit ≤ 0x37000000) :
    DirectMap m limit := by
  have htable : ∀ i < 1023, entry m.mem m.kernelPageDirectoryPhys i ≠ 0 →
      ∃ t, TableAt m m.kernelPageDirectoryPhys limit i t :=
    fun i hi hne => (h.tabled.slots i hi).resolve_left hne
  refine ⟨hlimit, h.tabled.aligned, h.tabled.ne_zero, ?_, ?_, ?_⟩
  · intro i hi
    obtain ⟨t, ht⟩ := htable (768 + i) (by omega) (h.direct i hi)
    refine ⟨t, ht.slot, ht.ne_directory, fun j hj => ?_⟩
    rw [ht.leaves j hj, show (768 + i) % 768 = i by omega]
  · intro i hi
    obtain ⟨t, ht⟩ := htable i (by unfold WindowIndex at hi; omega) (h.windows i hi)
    exact ⟨t, ht.slot, ht.ne_directory⟩
  · intro i j hi hj heq
    unfold WindowIndex at hj
    have := h.tabled.apart (768 + i) j (by omega) (by omega) (by omega) (by omega)
      (h.direct i hi) heq
    omega

/-- A store to an entry of a window table. -/
theorem DirectMap.set_window (h : DirectMap m limit) {k v : Nat} (hi : WindowIndex i)
    (hk : k < 1024) (ht : entry m.mem m.kernelPageDirectoryPhys i = t * 4096 + 3) :
    DirectMap { m with mem := setEntry m.mem (t * 4096) k v } limit := by
  have hal := h.aligned
  have hne : t ≠ m.kernelPageDirectoryPhys / 4096 := by
    obtain ⟨t', ht', hne'⟩ := h.windows i hi
    rw [ht] at ht'
    rwa [show t = t' by omega]
  have hslot : ∀ j < 1024, entry (setEntry m.mem (t * 4096) k v) m.kernelPageDirectoryPhys j
      = entry m.mem m.kernelPageDirectoryPhys j :=
    fun j hj => entry_setEntry_ne (Nat.mul_mod_left t 4096) hal hk hj (Or.inl (by omega))
  have hwin : ∀ {j}, WindowIndex j → j < 1024 := by
    intro j hj
    unfold WindowIndex at hj
    omega
  have hbelow := h.below
  refine ⟨h.below, hal, h.ne_zero, ?_, ?_, ?_⟩
  · intro j hj
    obtain ⟨t', hslot', hne', hleaves⟩ := h.direct j hj
    refine ⟨t', (hslot (768 + j) (by omega)).trans hslot', hne', fun l hl => ?_⟩
    rw [← hleaves l hl]
    have htt : t ≠ t' := by
      rintro rfl
      exact h.apart j i hj hi (hslot'.trans ht.symm)
    exact entry_setEntry_ne (Nat.mul_mod_left t 4096) (Nat.mul_mod_left t' 4096) hk hl
      (Or.inl (by omega))
  · intro j hj
    obtain ⟨t', hslot', hne'⟩ := h.windows j hj
    exact ⟨t', (hslot j (hwin hj)).trans hslot', hne'⟩
  · intro j l hj hl heq
    have hj' := hslot (768 + j) (by omega)
    have hl' := hslot l (hwin hl)
    exact h.apart j l hj hl (hj'.symm.trans (heq.trans hl'))

theorem tableFromEntry_eq (t : Nat) {e : Nat} (he : e = t * 4096 + 3) (hlt : e < 2 ^ 32) :
    tableFromEntry e = t * 4096 := by
  unfold tableFromEntry
  rw [frameMask_eq hlt, he]
  omega

/-- With a table in the slot, nothing is allocated; user mode is refused. -/
theorem ensureTable_kernel (hslot : entry m.mem directory i = t * 4096 + 3) (hi : 768 ≤ i)
    (flags : Nat) :
    m.ensureTable directory i flags = (m, decide (flags &&& pageUser = 0)) := by
  have hclosed : (t * 4096 + 3) &&& pageUser = 0 := by
    rw [and_flag_mod _ (by decide), show (t * 4096 + 3) % 4096 = 3 by omega]
    rfl
  unfold Machine.ensureTable
  rw [hslot, if_neg (present_three t)]
  by_cases hu : flags &&& pageUser = 0
  · rw [if_neg (fun hc => hc.1 hu), decide_eq_true hu]
  · rw [if_pos ⟨hu, hclosed⟩, if_pos (Or.inr hi), decide_eq_false hu]

/-- `paging_map_page_in` in the kernel's half, where the table is there. -/
theorem mapPageIn_kernel {va pa flags : Nat} (hd : directory ≠ 0) (hva : va % 4096 = 0)
    (hpa : pa % 4096 = 0) (hslot : entry m.mem directory (va / 4194304) = t * 4096 + 3)
    (hi : 768 ≤ va / 4194304) (hu : flags &&& pageUser = 0) :
    m.mapPageIn directory va pa flags =
      ({ m with
          mem := setEntry m.mem (t * 4096) (va / 4096 % 1024) (pa ||| (flags ||| pagePresent)) },
        true) := by
  unfold Machine.mapPageIn
  rw [if_neg (by rw [offsetMask_eq, offsetMask_eq, hva, hpa]; simp), if_neg hd,
    pageDirectoryIndex_eq]
  dsimp only
  rw [ensureTable_kernel hslot hi, decide_eq_true hu]
  dsimp only
  rw [tableFromEntry_eq t hslot (entry_lt ..), pageTableIndex_eq]

/-- `paging_unmap_page_in` where the table is there. -/
theorem unmapPageIn_kernel {va : Nat} (hd : directory ≠ 0) (hva : va % 4096 = 0)
    (hslot : entry m.mem directory (va / 4194304) = t * 4096 + 3) :
    m.unmapPageIn directory va =
      { m with mem := setEntry m.mem (t * 4096) (va / 4096 % 1024) 0 } := by
  unfold Machine.unmapPageIn
  rw [if_neg (by rw [offsetMask_eq, hva]; simp [hd]), pageDirectoryIndex_eq]
  rw [if_neg (by rw [hslot]; exact present_three t), tableFromEntry_eq t hslot (entry_lt ..),
    pageTableIndex_eq]

/-- What a call in a window does: nothing, or a store to an entry of the window's table. -/
theorem windowStep_cases (h : DirectMap m limit) {call : WindowCall} (hw : InWindow call.page) :
    windowStep m call = m ∨ ∃ i t k v, WindowIndex i ∧ k < 1024 ∧
      entry m.mem m.kernelPageDirectoryPhys i = t * 4096 + 3 ∧
      windowStep m call = { m with mem := setEntry m.mem (t * 4096) k v } := by
  have hidx := hw.index
  obtain ⟨t, ht, -⟩ := h.windows _ hidx
  have hkernel : 768 ≤ call.page / 4194304 := by
    unfold WindowIndex at hidx
    omega
  cases call with
  | mapPage va pa flags =>
    by_cases hal : va % 4096 = 0 ∧ pa % 4096 = 0
    · by_cases hu : flags &&& pageUser = 0
      · refine Or.inr ⟨_, t, va / 4096 % 1024, pa ||| (flags ||| pagePresent), hidx,
          Nat.mod_lt _ (by decide), ht, ?_⟩
        exact congrArg Prod.fst (mapPageIn_kernel h.ne_zero hal.1 hal.2 ht hkernel hu)
      left
      have ht : entry m.mem m.kernelPageDirectoryPhys (va / 4194304) = t * 4096 + 3 := ht
      unfold windowStep Machine.mapPageIn
      dsimp only
      rw [if_neg (by rw [offsetMask_eq, offsetMask_eq, hal.1, hal.2]; simp), if_neg h.ne_zero,
        pageDirectoryIndex_eq, ensureTable_kernel ht hkernel, decide_eq_false hu]
    · left
      unfold windowStep Machine.mapPageIn
      dsimp only
      rw [if_pos (by rw [offsetMask_eq, offsetMask_eq]; omega)]
  | unmapPage va =>
    by_cases hal : va % 4096 = 0
    · exact Or.inr ⟨_, t, va / 4096 % 1024, _, hidx, Nat.mod_lt _ (by decide), ht,
        unmapPageIn_kernel h.ne_zero hal ht⟩
    · left
      unfold windowStep Machine.unmapPageIn
      dsimp only
      rw [if_pos (by rw [offsetMask_eq]; omega)]

theorem DirectMap.step (h : DirectMap m limit) {call : WindowCall} (hw : InWindow call.page) :
    DirectMap (windowStep m call) limit := by
  rcases windowStep_cases h hw with he | ⟨i, t, k, v, hi, hk, ht, he⟩
  · rw [he]
    exact h
  · rw [he]
    exact h.set_window hi hk ht

theorem DirectMap.run (h : DirectMap m limit) {calls : List WindowCall}
    (hw : Guarded windowStep (fun _ call => InWindow call.page) m calls) :
    DirectMap (run windowStep m calls) limit :=
  guarded_invariant (I := fun m => DirectMap m limit) (fun _ _ hm hcall => hm.step hcall) calls h hw

/-- A frame below the limit is mapped writable at its place in the direct map. -/
theorem DirectMap.lookup (h : DirectMap m limit) {f : Nat} (hf : f * 4096 < limit) :
    m.lookupPageIn m.kernelPageDirectoryPhys (physToVirt (f * 4096)) = some (f * 4096, 3) := by
  have hbelow := h.below
  have hspan : f / 1024 * (1024 * 4096) < limit := by
    rw [← Nat.mul_assoc]
    exact Nat.lt_of_le_of_lt (Nat.mul_le_mul_right 4096 (Nat.div_mul_le_self f 1024)) hf
  have hva : physToVirt (f * 4096) = 0xC0000000 + f * 4096 := by
    unfold physToVirt kernelDirectMapBase
    omega
  obtain ⟨t, hslot, -, hleaves⟩ := h.direct (f / 1024) hspan
  have hleaf : leafEntry m.mem m.kernelPageDirectoryPhys (physToVirt (f * 4096))
      = f * 4096 + 3 := by
    unfold leafEntry
    have hdir : physToVirt (f * 4096) / 4194304 = 768 + f / 1024 := by omega
    have htab : physToVirt (f * 4096) / 4096 % 1024 = f % 1024 := by omega
    rw [hdir, htab, hslot, if_neg (present_three t),
      show (t * 4096 + 3) / 4096 * 4096 = t * 4096 by omega, hleaves _ (by omega),
      show f / 1024 * 1024 + f % 1024 = f by omega]
    exact if_pos hf
  rw [lookupPageIn_eq h.ne_zero, hleaf, if_neg (present_three f),
    show (f * 4096 + 3) / 4096 * 4096 = f * 4096 by omega,
    show (f * 4096 + 3) % 4096 = 3 by omega]

/-! ## Which memory maps are handled -/

/-- The parts of the kernel's half of the address space. -/
def kernelRanges (directMapLimit : Nat) : List (Nat × Nat) :=
  [(kernelDirectMapBase, kernelDirectMapBase + directMapLimit), (kernelMmioBase, kernelMmioLimit),
    (kernelHeapBase, kernelHeapLimit), (kernelStackBase, kernelStackLimit),
    (kernelStackLimit, 2 ^ 32)]

/-- Two ranges do not overlap. -/
def Apart (r s : Nat × Nat) : Prop := r.2 ≤ s.1 ∨ s.2 ≤ r.1

/-- The frame is mapped writable at `paging_phys_to_virt` of its address. -/
def MappedWritable (m : Machine) (f : Nat) : Prop :=
  ∃ flags, flags &&& pageWritable ≠ 0 ∧
    m.lookupPageIn m.kernelPageDirectoryPhys (physToVirt (f * 4096)) = some (f * 4096, flags)

/-- A managed frame: some range of the memory map releases it. It may be held for the kernel
or a boot structure since. -/
def Managed (info : MultibootInfo) (f : Nat) : Prop :=
  ∃ range ∈ Palloc.releasedRanges info, Palloc.Releases range f

/-- The number just past the last managed frame: 0 if no frame is managed. -/
def PastLast (info : MultibootInfo) (n : Nat) : Prop :=
  ∀ m, n ≤ m ↔ ∀ f, Managed info f → f < m

/-- Every frame that palloc can return is addressable, from `paging_init` on and while the
windows are in use: the managed bytes end with the last managed frame, memory is found
wanting only if no frame is managed, every such frame is mapped and stays so, and the parts
of the kernel's half are apart. -/
structure FramesAddressable (info : MultibootInfo) (p : Palloc) (s : PagingInit) : Prop where
  managed : ∃ n, p.managedBytes = n * 4096 ∧ PastLast info n
  gives_up : s.outcome = .noManagedMemory → ∀ f, ¬Managed info f
  mapped : ∀ f, s.machine.palloc.CanReturn f →
    ∀ calls, Guarded windowStep (fun _ call => InWindow call.page) s.machine calls →
      MappedWritable (run windowStep s.machine calls) f
  apart : (kernelRanges s.directMapLimit).Pairwise Apart

namespace Palloc

theorem freeRange_first {p : Palloc} (range : Nat × Nat) (n : Nat) :
    (p.freeRange range.1 range.2).firstUnusableFrame ≤ n ↔
      p.firstUnusableFrame ≤ n ∧ alignDownToPage (clipRangeEnd range.2) ≤ n := by
  unfold freeRange
  generalize alignDownToPage (clipRangeEnd range.2) = last
  have hfold : ∀ (frames : List Nat) (q : Palloc),
      (frames.foldl releaseFrame q).firstUnusableFrame = q.firstUnusableFrame := by
    intro frames
    induction frames with
    | nil => exact fun _ => rfl
    | cons f frames ih =>
      intro q
      rw [List.foldl_cons, ih]
      unfold releaseFrame
      split <;> rfl
  rw [hfold]
  split
  next hlt =>
    show last ≤ n ↔ _
    omega
  next hle => omega

theorem foldl_freeRange_first {p : Palloc} (ranges : List (Nat × Nat)) (n : Nat) :
    (ranges.foldl (fun p range => p.freeRange range.1 range.2) p).firstUnusableFrame ≤ n ↔
      p.firstUnusableFrame ≤ n ∧
        ∀ range ∈ ranges, alignDownToPage (clipRangeEnd range.2) ≤ n := by
  induction ranges generalizing p with
  | nil => simp
  | cons range ranges ih =>
    rw [List.foldl_cons, ih, freeRange_first, and_assoc, List.forall_mem_cons]

theorem foldl_reserveRange_first {p : Palloc} (ranges : List (Nat × Nat)) :
    (ranges.foldl (fun p range => p.reserveRange range.1 range.2) p).firstUnusableFrame
      = p.firstUnusableFrame := by
  have hframes : ∀ (frames : List Nat) (q : Palloc),
      (frames.foldl reserveFrame q).firstUnusableFrame = q.firstUnusableFrame := by
    intro frames
    induction frames with
    | nil => exact fun _ => rfl
    | cons f frames ih =>
      intro q
      rw [List.foldl_cons, ih]
      unfold reserveFrame
      split <;> rfl
  induction ranges generalizing p with
  | nil => rfl
  | cons range ranges ih =>
    rw [List.foldl_cons, ih]
    exact hframes _ p

/-- The frame in which a range ends, as `free_range` computes it. -/
def endFrame (range : Nat × Nat) : Nat := alignDownToPage (clipRangeEnd range.2)

/-- The high-water mark is the end of the highest AVAILABLE entry, rounded down. -/
theorem init_first_le (info : MultibootInfo) (kernelStart kernelEnd : UInt32) (n : Nat) :
    (init info kernelStart kernelEnd).firstUnusableFrame ≤ n ↔
      ∀ range ∈ releasedRanges info, endFrame range ≤ n := by
  have hinit : (init info kernelStart kernelEnd).firstUnusableFrame
      = (held.releaseMemory info).firstUnusableFrame := by
    unfold init
    dsimp only
    rw [reserveBootStructures_eq, foldl_reserveRange_first]
  rw [hinit, releaseMemory_eq, foldl_freeRange_first]
  have h0 : held.firstUnusableFrame = 0 := rfl
  rw [h0]
  exact and_iff_right (Nat.zero_le n)

end Palloc

section Booted

variable {p : Palloc} (h : p.Ok) (h0 : p.frameRefcounts 0 ≠ 0) (mem : Store)
include h h0

/-- Beyond 880 MiB the direct map runs into the MMIO window. -/
theorem first_le_of_apart (hmanaged : p.managedBytes = p.firstUnusableFrame * 4096)
    (hapart : (kernelRanges (pagingInit p mem).directMapLimit).Pairwise Apart) :
    p.firstUnusableFrame ≤ 0x37000 := by
  by_contra hgt
  have hne : p.managedBytes ≠ 0 := by omega
  have hlimit := (pagingInit_build h h0 mem hne).limit_eq
  rw [hlimit] at hapart
  unfold kernelRanges at hapart
  rw [List.pairwise_cons] at hapart
  have hmmio := hapart.1 (kernelMmioBase, kernelMmioLimit) (by simp)
  unfold Apart kernelDirectMapBase kernelMmioBase kernelMmioLimit at hmmio
  unfold clampDirectMap directMapMaxBytes at hmmio
  have hmax : (kernelHeapBase >>> 22 - directMapDirectoryIndex) * pageTableSpan = 0x38000000 := rfl
  rw [hmax] at hmmio
  split at hmmio <;> omega

omit h h0 in
theorem kernelRanges_apart {limit : Nat} (hlimit : limit ≤ 0x37000000) :
    (kernelRanges limit).Pairwise Apart := by
  unfold kernelRanges Apart kernelDirectMapBase kernelMmioBase kernelMmioLimit kernelHeapBase
    kernelHeapLimit kernelStackBase kernelStackLimit
  simp only [List.pairwise_cons, List.mem_cons, List.not_mem_nil, or_false, forall_eq_or_imp,
    forall_eq, false_imp_iff, implies_true, List.Pairwise.nil, and_true]
  omega

/-- Where the managed bytes are 0, `paging_init` gives up, and that is right if no frame is
managed. -/
theorem addressable_of_empty (hzero : p.managedBytes = 0) {info : MultibootInfo}
    (hnone : ∀ f, ¬Managed info f) (hused : ∀ f, p.frameIsUsed f = true) :
    FramesAddressable info p (pagingInit p mem) := by
  have hinit : pagingInit p mem = ⟨⟨mem, p, 0⟩, 0, .noManagedMemory⟩ := by
    unfold pagingInit
    rw [hzero]
    rfl
  rw [hinit]
  refine ⟨⟨0, by rw [hzero, Nat.zero_mul], fun m => ?_⟩, fun _ => hnone, fun f hf => ?_,
    kernelRanges_apart (Nat.zero_le _)⟩
  · exact ⟨fun _ f hf => absurd hf (hnone f), fun _ => Nat.zero_le m⟩
  · rw [Palloc.canReturn_iff (Palloc.counted_ok h) ((h.bit_iff 0).mpr h0), hused f] at hf
    simp at hf

theorem addressable_of_first_le (hle : p.firstUnusableFrame ≤ 0x37000)
    (hpos : p.firstUnusableFrame ≠ 0) {info : MultibootInfo}
    (hlast : PastLast info p.firstUnusableFrame) :
    FramesAddressable info p (pagingInit p mem) := by
  have hmanaged : p.managedBytes = p.firstUnusableFrame * 4096 := by
    unfold Palloc.managedBytes
    omega
  have hclamp : clampDirectMap p.managedBytes = p.firstUnusableFrame * 4096 := by
    rw [hmanaged]
    refine if_neg ?_
    have hmax : directMapMaxBytes = 0x38000000 := rfl
    omega
  have hb := pagingInit_build h h0 mem (by omega)
  rw [hclamp] at hb
  refine ⟨⟨_, hmanaged, hlast⟩, fun hf => absurd hf hb.has_memory, fun f hf calls hcalls => ?_, ?_⟩
  · rw [Palloc.canReturn_iff (Palloc.counted_ok hb.palloc)
      ((hb.palloc.bit_iff 0).mpr hb.frameZero)] at hf
    by_cases hen : (pagingInit p mem).outcome = .enabled
    · have hlt := (hb.palloc.free_of_not_used hf).1
      rw [hb.first] at hlt
      have hdm := ((hb.enabled hen).directMap (by omega)).run hcalls
      exact ⟨3, by decide, hdm.lookup (by omega)⟩
    · rw [hb.exhausted hen f] at hf
      simp at hf
  · rw [hb.limit_eq]
    exact kernelRanges_apart (by omega)

/-- The memory maps that are handled: no range ends beyond 880 MiB, nor past the last frame
that some range has as a whole. Or no range has a whole frame and one reaches 4 GiB: there
the wrapped product is right by chance. -/
def Handled (info : MultibootInfo) : Prop :=
  (∀ range ∈ Palloc.releasedRanges info, Palloc.endFrame range ≤ 0x37000 ∧
    (Palloc.endFrame range = 0 ∨ ∃ f, Managed info f ∧ Palloc.endFrame range ≤ f + 1)) ∨
  (∀ f, ¬Managed info f) ∧ ∃ range ∈ Palloc.releasedRanges info, Palloc.endFrame range = 2 ^ 20

/-- What `palloc_init` has made of the memory map: the mark is the largest end of a range, and
only frames of ranges are free. -/
structure Marked (info : MultibootInfo) (p : Palloc) : Prop where
  first : ∀ n, p.firstUnusableFrame ≤ n ↔
    ∀ range ∈ Palloc.releasedRanges info, Palloc.endFrame range ≤ n
  free : ∀ f, p.frameIsUsed f = false → Managed info f

variable {info : MultibootInfo}

omit h h0 in
theorem Marked.below (hm : Marked info p) {f : Nat} (hf : Managed info f) :
    f < p.firstUnusableFrame := by
  obtain ⟨range, hmem, _, hlt⟩ := hf
  exact Nat.lt_of_lt_of_le hlt ((hm.first _).mp le_rfl range hmem)

theorem handled_of_addressable (hm : Marked info p)
    (ha : FramesAddressable info p (pagingInit p mem)) : Handled info := by
  have hmax : p.firstUnusableFrame ≤ 2 ^ 20 := h.limit
  obtain ⟨n, hbytes, hlast⟩ := ha.managed
  have hn : n ≤ p.firstUnusableFrame := (hlast _).mpr fun _ => hm.below
  unfold Palloc.managedBytes at hbytes
  by_cases hwrap : p.firstUnusableFrame = 2 ^ 20
  · -- the product is 0, so no frame is managed, and the mark comes from some range
    have hn0 : n ≤ 0 := by omega
    refine Or.inr ⟨fun f hf => absurd ((hlast 0).mp hn0 f hf) (Nat.not_lt_zero f), ?_⟩
    by_contra hno
    have hlow : p.firstUnusableFrame ≤ 2 ^ 20 - 1 := (hm.first _).mpr fun range hmem => by
      have hle := (hm.first _).mp hmax range hmem
      have hne : Palloc.endFrame range ≠ 2 ^ 20 := fun he => hno ⟨range, hmem, he⟩
      omega
    omega
  · have heq : n = p.firstUnusableFrame := by omega
    have hproduct : p.managedBytes = p.firstUnusableFrame * 4096 := by
      rw [Palloc.managedBytes, hbytes, heq]
    have hsmall := first_le_of_apart h h0 mem hproduct ha.apart
    refine Or.inl fun range hmem => ⟨(hm.first _).mp hsmall range hmem, ?_⟩
    have hend := (hm.first _).mp le_rfl range hmem
    by_contra hno
    rw [not_or] at hno
    have hlow : n ≤ Palloc.endFrame range - 1 := (hlast _).mpr fun f hf => by
      by_contra hge
      exact hno.2 ⟨f, hf, by omega⟩
    omega

theorem addressable_of_handled (hm : Marked info p) (hh : Handled info) :
    FramesAddressable info p (pagingInit p mem) := by
  have hmax : p.firstUnusableFrame ≤ 2 ^ 20 := h.limit
  -- a mark of 0 or of 4 GiB gives 0 bytes
  have hempty : (∀ f, ¬Managed info f) → p.firstUnusableFrame * 4096 % 2 ^ 32 = 0 →
      FramesAddressable info p (pagingInit p mem) := fun hno hzero =>
    addressable_of_empty h h0 mem hzero hno fun f => by
      by_contra hf
      exact hno f (hm.free f (by simpa using hf))
  rcases hh with hranges | ⟨hno, range, hmem, htop⟩
  · have hsmall := (hm.first 0x37000).mpr fun range hmem => (hranges range hmem).1
    by_cases hzero : p.firstUnusableFrame = 0
    · refine hempty (fun f hf => ?_) (by omega)
      have := hm.below hf
      omega
    refine addressable_of_first_le h h0 mem hsmall hzero fun m =>
      ⟨fun hle f hf => Nat.lt_of_lt_of_le (hm.below hf) hle, fun hall => (hm.first m).mpr ?_⟩
    intro range hmem
    rcases (hranges range hmem).2 with hend | ⟨f, hf, hend⟩
    · omega
    · have := hall f hf
      omega
  · have hge := (hm.first _).mp le_rfl range hmem
    exact hempty hno (by omega)

end Booted

/-- **Every allocatable frame is addressable, exactly for the memory maps that are handled**:
the ranges are those that `palloc_init` releases, with the ends it computes. -/
theorem frames_addressable_iff (info : MultibootInfo) (kernelStart kernelEnd : UInt32)
    (mem : Store) :
    FramesAddressable info (Palloc.init info kernelStart kernelEnd)
        (pagingInit (Palloc.init info kernelStart kernelEnd) mem) ↔ Handled info := by
  have h := Palloc.init_ok info kernelStart kernelEnd
  have h0 := (h.bit_iff 0).mp (Palloc.init_zero_used info kernelStart kernelEnd)
  have hm : Marked info (Palloc.init info kernelStart kernelEnd) :=
    ⟨Palloc.init_first_le info kernelStart kernelEnd, fun f hf =>
      ((Palloc.init_free_iff info kernelStart kernelEnd).mp hf).1⟩
  exact ⟨handled_of_addressable h h0 mem hm, addressable_of_handled h h0 mem hm⟩

/-- The small machine with a second region, just above 4 GiB. -/
def largeInfo : MultibootInfo :=
  { Palloc.smallInfo with
    flags := 0x40
    mmap := [⟨0x100000, 0x10000, 1⟩, ⟨0x100000000, 0x10000, 1⟩] }

/-- The region above 4 GiB adds no frame, but with it `palloc_managed_bytes` is 0 and
`paging_init` finds no memory, although frames are managed and free. -/
theorem large_memory_gives_up :
    let p := Palloc.init largeInfo 0x100000 0x101000
    p.firstUnusableFrame = 0x100000 ∧ p.freeFrames = 15 ∧ p.managedBytes = 0 ∧
      (pagingInit p fun _ => 0).outcome = .noManagedMemory := by
  refine ⟨?_, ?_, ?_, ?_⟩ <;> decide +kernel

end Riverix.Memory
