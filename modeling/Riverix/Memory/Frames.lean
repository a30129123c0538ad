import Riverix.Lib.Run
import Riverix.Memory.Palloc

/-!
# The page allocator over whole runs

`palloc_init` builds the bitmap from whatever memory map the boot loader hands over:
every frame starts out held, the available ranges are released, and what the kernel
and the boot structures occupy is held again. After that the allocator is driven by
its five operations, with arguments that need not make sense.

`Ok` (in `Palloc`) survives all of it. **`run_frames_consistent`** says what that
means for a whole run: bits, counts and the free counter agree, and an allocation only
hands out frames that nobody holds.
-/

namespace Riverix.Memory

open Riverix.Lib

/-- An entry of the boot loader's memory map. -/
structure MemoryMapEntry where
  addr : UInt64
  len : UInt64
  type : UInt32

/-- `multiboot_module_t` -/
structure MultibootModule where
  modStart : UInt32
  modEnd : UInt32
  cmdline : UInt32

/-- The fields of `multiboot_info_t` that `palloc_init` reads; `address` is where the
structure itself lies, `mmap` what the walk over the memory map meets and `modules`
the array at `mods_addr`. -/
structure MultibootInfo where
  address : UInt32
  flags : UInt32
  memUpper : UInt32
  cmdline : UInt32
  modsCount : UInt32
  modsAddr : UInt32
  mmapLength : UInt32
  mmapAddr : UInt32
  framebufferAddr : UInt64
  framebufferPitch : UInt32
  framebufferHeight : UInt32
  mmap : List MemoryMapEntry
  modules : Nat → MultibootModule

namespace Palloc

variable {p p' : Palloc} {f g a start count limit : Nat}

/-! ## `palloc_init` -/

/-- `clip_range_end` -/
def clipRangeEnd (end' : Nat) : Nat := if end' > 0x100000000 then 0x100000000 else end'

/-- `align_up_to_page`, on a 64-bit address with a 32-bit result. -/
def alignUpToPage (address : Nat) : Nat := (address + 4095) % 2 ^ 64 / 4096 % 2 ^ 32

/-- `align_down_to_page` -/
def alignDownToPage (address : Nat) : Nat := address / 4096 % 2 ^ 32

/-- The body of the loop of `free_range`. -/
def releaseFrame (p : Palloc) (frame : Nat) : Palloc :=
  if p.frameIsUsed frame then
    { p.markFrameFree frame with
      frameRefcounts := Function.update p.frameRefcounts frame 0
      freeFrames := (p.freeFrames + 1) % 2 ^ 32 }
  else p

/-- `free_range` -/
def freeRange (p : Palloc) (start end' : Nat) : Palloc :=
  let firstFrame := alignUpToPage start
  let lastFrame := alignDownToPage (clipRangeEnd end')
  let p := if lastFrame > p.firstUnusableFrame then { p with firstUnusableFrame := lastFrame }
    else p
  (List.range' firstFrame (lastFrame - firstFrame)).foldl releaseFrame p

/-- The body of the loop of `reserve_range`. -/
def reserveFrame (p : Palloc) (frame : Nat) : Palloc :=
  if p.frameIsUsed frame then p
  else
    { p.markFrameUsed frame with
      frameRefcounts := Function.update p.frameRefcounts frame 1
      freeFrames := (p.freeFrames + 0xFFFFFFFF) % 2 ^ 32 }

/-- `reserve_range` -/
def reserveRange (p : Palloc) (start end' : Nat) : Palloc :=
  let firstFrame := alignDownToPage start
  let lastFrame := min (alignUpToPage (clipRangeEnd end')) p.firstUnusableFrame
  (List.range' firstFrame (lastFrame - firstFrame)).foldl reserveFrame p

/-- One module of `reserve_boot_structures`. -/
def reserveModule (p : Palloc) (module : MultibootModule) : Palloc :=
  let p := p.reserveRange module.modStart.toNat module.modEnd.toNat
  if module.cmdline ≠ 0 then p.reserveRange module.cmdline.toNat (module.cmdline + 256).toNat else p

/-- `reserve_boot_structures` -/
def reserveBootStructures (p : Palloc) (info : MultibootInfo) : Palloc :=
  let p := p.reserveRange info.address.toNat (info.address + 116).toNat
  let p := if info.flags &&& 0x40 ≠ 0
    then p.reserveRange info.mmapAddr.toNat (info.mmapAddr + info.mmapLength).toNat else p
  let p := if info.flags &&& 0x4 ≠ 0 ∧ info.cmdline ≠ 0
    then p.reserveRange info.cmdline.toNat (info.cmdline + 256).toNat else p
  let p := if info.flags &&& 0x1000 ≠ 0 ∧ info.framebufferAddr ≠ 0 ∧ info.framebufferPitch ≠ 0
      ∧ info.framebufferHeight ≠ 0
    then p.reserveRange info.framebufferAddr.toNat (info.framebufferAddr
      + info.framebufferPitch.toUInt64 * info.framebufferHeight.toUInt64).toNat else p
  if info.flags &&& 0x8 = 0 ∨ info.modsCount = 0 then p
  else
    let p := p.reserveRange info.modsAddr.toNat (info.modsAddr + info.modsCount * 16).toNat
    (List.range info.modsCount.toNat).foldl (fun p index => p.reserveModule (info.modules index)) p

/-- Every frame held, none managed. -/
def held : Palloc where
  frameBitmap _ := BitVec.allOnes 32
  frameRefcounts _ := 1
  firstUnusableFrame := 0
  totalUsableFrames := 0
  freeFrames := 0
  nextSearchFrame := 0

/-- What the memory map makes available. -/
def releaseMemory (p : Palloc) (info : MultibootInfo) : Palloc :=
  if info.flags &&& 0x40 ≠ 0 then
    info.mmap.foldl (fun p entry =>
      if entry.type = 1 then p.freeRange entry.addr.toNat (entry.addr + entry.len).toNat else p) p
  else if info.flags &&& 0x1 ≠ 0 then p.freeRange 0x100000 (0x100000 + info.memUpper.toNat * 1024)
  else p

/-- `palloc_init` -/
def init (info : MultibootInfo) (kernelStart kernelEnd : UInt32) : Palloc :=
  let p := held.releaseMemory info
  let p := { p with totalUsableFrames := p.freeFrames }
  let p := p.reserveRange 0 0x100000
  let p := p.reserveRange kernelStart.toNat kernelEnd.toNat
  let p := p.reserveBootStructures info
  { p with nextSearchFrame := alignUpToPage kernelEnd.toNat }

/-! ## Runs of frames -/

/-- The inner loop of `palloc_alloc_pages`: the first used frame of a run. -/
def firstUsed (p : Palloc) (start count : Nat) : Option Nat :=
  (List.range' start count).find? p.frameIsUsed

theorem firstUsed_ge (h : p.firstUsed start count = some f) : start ≤ f := by
  have hmem := List.mem_of_find?_eq_some h
  rw [List.mem_range'_1] at hmem
  exact hmem.1

/-- The outer loop of `palloc_alloc_pages`, which goes on after a used frame. -/
def searchRun (p : Palloc) (count start limit : Nat) : Option Nat :=
  if start ≤ limit then
    match h : p.firstUsed start count with
    | none => some start
    | some frame => p.searchRun count (frame + 1) limit
  else none
termination_by limit + 1 - start
decreasing_by
  have := firstUsed_ge h
  omega

/-- The body shared by the two searches of `palloc_alloc_pages`. -/
def takeRun (p : Palloc) (start count : Nat) : Palloc × Nat :=
  ({ p with
      frameBitmap := p.frameBitmap.markRange start count
      frameRefcounts := fun f => if start ≤ f ∧ f < start + count then 1 else p.frameRefcounts f
      freeFrames := (p.freeFrames + 2 ^ 32 - count) % 2 ^ 32
      nextSearchFrame := start + count },
    start * 4096)

/-- `palloc_alloc_pages` -/
def allocPages (p : Palloc) (pageCount : Nat) : Palloc × Nat :=
  if pageCount = 0 then (p, 0)
  else if pageCount = 1 then p.allocPage
  else if pageCount > p.firstUnusableFrame ∨ pageCount > p.freeFrames then (p, 0)
  else
    match p.searchRun pageCount p.nextSearchFrame (p.firstUnusableFrame - pageCount) with
    | some start => p.takeRun start pageCount
    | none =>
      if p.nextSearchFrame ≥ pageCount then
        match p.searchRun pageCount 0 (p.nextSearchFrame - pageCount) with
        | some start => p.takeRun start pageCount
        | none => (p, 0)
      else (p, 0)

/-- `palloc_free_pages_range`; the address of a page wraps. -/
def freePagesRange (p : Palloc) (physicalAddress pageCount : Nat) : Palloc :=
  if physicalAddress % 4096 ≠ 0 then p
  else (List.range pageCount).foldl
    (fun p index => p.freePage ((physicalAddress + index * 4096) % 2 ^ 32)) p

/-! ## The invariant after `palloc_init` -/

/-- A change of the free counter, the totals or the hint that keeps the counter right. -/
theorem Ok.congr (h : p.Ok) (hbits : p'.frameBitmap = p.frameBitmap)
    (hcounts : p'.frameRefcounts = p.frameRefcounts)
    (hfirst : p'.firstUnusableFrame = p.firstUnusableFrame) (hfree : p'.freeFrames = p.freeFrames) :
    p'.Ok := by
  refine ⟨?_, ?_, ?_, ?_⟩
  · intro f
    unfold frameIsUsed
    rw [hbits, hcounts]
    exact h.bit_iff f
  · rw [hfirst, hcounts]
    exact h.beyond
  · rw [hfirst]
    exact h.limit
  · unfold freeSet
    rw [hfree, hfirst, hcounts]
    exact h.free_eq

theorem held_ok : held.Ok := by
  refine ⟨?_, ?_, by decide, ?_⟩
  · intro f
    unfold frameIsUsed held
    rw [Bitmap.test_eq_getLsbD (by decide), BitVec.getLsbD_allOnes]
    simp [Nat.mod_lt f (show 0 < 32 by decide)]
  · intro f _
    exact Nat.one_ne_zero
  · rfl

/-- Releasing a held frame adds it to the free set. -/
theorem releaseFrame_ok (h : p.Ok) (hf : f < p.firstUnusableFrame) :
    (p.releaseFrame f).Ok ∧ (p.releaseFrame f).firstUnusableFrame = p.firstUnusableFrame := by
  unfold releaseFrame
  split
  next hused =>
    have hr := (h.bit_iff f).mp hused
    refine ⟨⟨?_, ?_, h.limit, ?_⟩, rfl⟩
    · intro g
      show (p.frameBitmap.clear f).test g = true ↔ Function.update p.frameRefcounts f 0 g ≠ 0
      rw [Bitmap.test_clear (by decide)]
      by_cases hg : g = f
      · rw [hg, Function.update_self]
        simp
      · have := h.bit_iff g
        simp only [hg, decide_false, Bool.not_false, Bool.true_and, Function.update_of_ne hg]
        exact this
    · intro g hg
      show Function.update p.frameRefcounts f 0 g ≠ 0
      have hg : p.firstUnusableFrame ≤ g := hg
      rw [Function.update_of_ne (by omega)]
      exact h.beyond g hg
    have hnot : f ∉ p.freeSet := by
      rw [mem_freeSet]
      exact fun hm => hr hm.2
    have hset : (Finset.range p.firstUnusableFrame).filter
        (fun g => Function.update p.frameRefcounts f 0 g = 0) = insert f p.freeSet := by
      ext g
      rw [Finset.mem_filter, Finset.mem_range, Finset.mem_insert, mem_freeSet]
      by_cases hg : g = f
      · rw [hg, Function.update_self]
        simp [hf]
      · rw [Function.update_of_ne hg]
        simp [hg]
    -- the free frames are managed ones, so the counter does not wrap
    have hle : (insert f p.freeSet).card ≤ p.firstUnusableFrame := by
      rw [← hset]
      exact (Finset.card_filter_le _ _).trans_eq (Finset.card_range _)
    have hlim := h.limit
    unfold maxPageFrames at hlim
    show (p.freeFrames + 1) % 2 ^ 32 = ((Finset.range p.firstUnusableFrame).filter
      (fun g => Function.update p.frameRefcounts f 0 g = 0)).card
    rw [hset]
    rw [Finset.card_insert_of_notMem hnot, ← h.free_eq] at hle ⊢
    omega
  · exact ⟨h, rfl⟩

/-- Holding a free frame removes it from the free set. -/
theorem reserveFrame_ok (h : p.Ok) (f : Nat) :
    (p.reserveFrame f).Ok ∧ (p.reserveFrame f).firstUnusableFrame = p.firstUnusableFrame := by
  unfold reserveFrame
  split
  · exact ⟨h, rfl⟩
  next hfree =>
    rw [Bool.not_eq_true] at hfree
    exact ⟨(takeFrame_ok h hfree).congr rfl rfl rfl rfl, rfl⟩

/-- A loop over frames keeps what its body keeps. -/
theorem foldl_frames_ok {body : Palloc → Nat → Palloc} {n : Nat} (frames : List Nat)
    (hbody : ∀ p f, f ∈ frames → p.Ok → p.firstUnusableFrame = n →
      (body p f).Ok ∧ (body p f).firstUnusableFrame = n)
    (h : p.Ok) (hn : p.firstUnusableFrame = n) :
    (frames.foldl body p).Ok ∧ (frames.foldl body p).firstUnusableFrame = n := by
  induction frames generalizing p with
  | nil => exact ⟨h, hn⟩
  | cons f frames ih =>
    obtain ⟨h', hn'⟩ := hbody p f (List.mem_cons_self ..) h hn
    exact ih (fun p g hg => hbody p g (List.mem_cons_of_mem _ hg)) h' hn'

theorem alignDownToPage_clip (a : Nat) : alignDownToPage (clipRangeEnd a) ≤ maxPageFrames := by
  unfold alignDownToPage clipRangeEnd maxPageFrames
  split <;> omega

/-- Raising the last managed frame leaves the frames in between held. -/
theorem Ok.raise (h : p.Ok) {last : Nat} (hlast : last > p.firstUnusableFrame)
    (hmax : last ≤ maxPageFrames) : ({ p with firstUnusableFrame := last } : Palloc).Ok := by
  refine ⟨h.bit_iff, ?_, hmax, ?_⟩
  · intro f hf
    have hf : last ≤ f := hf
    exact h.beyond f (by omega)
  show p.freeFrames = ((Finset.range last).filter fun f => p.frameRefcounts f = 0).card
  rw [h.free_eq]
  congr 1
  ext f
  rw [mem_freeSet, Finset.mem_filter, Finset.mem_range]
  constructor
  · rintro ⟨hf, hz⟩
    exact ⟨by omega, hz⟩
  · rintro ⟨-, hz⟩
    refine ⟨?_, hz⟩
    by_contra hge
    exact h.beyond f (by omega) hz

theorem freeRange_ok (h : p.Ok) (start end' : Nat) : (p.freeRange start end').Ok := by
  unfold freeRange
  dsimp only
  have hmax := alignDownToPage_clip end'
  generalize alignDownToPage (clipRangeEnd end') = last at hmax
  -- afterwards the range lies below the last managed frame
  obtain ⟨q, hq⟩ : ∃ q, q = if last > p.firstUnusableFrame
      then { p with firstUnusableFrame := last } else p := ⟨_, rfl⟩
  have hok : q.Ok ∧ last ≤ q.firstUnusableFrame := by
    rw [hq]
    split
    next hlt => exact ⟨h.raise hlt hmax, le_rfl⟩
    next hle => exact ⟨h, by omega⟩
  rw [← hq]
  refine (foldl_frames_ok _ ?_ hok.1 rfl).1
  intro p' f hf h' hn
  rw [List.mem_range'_1] at hf
  have hrel := releaseFrame_ok (f := f) h' (by omega)
  rw [hn] at hrel
  exact hrel

theorem reserveRange_ok (h : p.Ok) (start end' : Nat) : (p.reserveRange start end').Ok := by
  refine (foldl_frames_ok _ ?_ h rfl).1
  intro p' f _ h' hn
  have hres := reserveFrame_ok h' f
  rw [hn] at hres
  exact hres

theorem reserveModule_ok (h : p.Ok) (module : MultibootModule) : (p.reserveModule module).Ok := by
  unfold reserveModule
  split
  · exact reserveRange_ok (reserveRange_ok h _ _) _ _
  · exact reserveRange_ok h _ _

/-- An optional step. -/
theorem ok_ite (h : p.Ok) {c : Prop} [Decidable c] {q : Palloc} (hq : q.Ok) :
    (if c then q else p).Ok := by
  split
  · exact hq
  · exact h

theorem reserveBootStructures_ok (h : p.Ok) (info : MultibootInfo) :
    (p.reserveBootStructures info).Ok := by
  unfold reserveBootStructures
  dsimp only
  have h₁ := reserveRange_ok h info.address.toNat (info.address + 116).toNat
  generalize p.reserveRange info.address.toNat (info.address + 116).toNat = p₁ at h₁
  have h₂ := ok_ite (c := info.flags &&& 0x40 ≠ 0) h₁
    (reserveRange_ok h₁ info.mmapAddr.toNat (info.mmapAddr + info.mmapLength).toNat)
  generalize (if info.flags &&& 0x40 ≠ 0
    then p₁.reserveRange info.mmapAddr.toNat (info.mmapAddr + info.mmapLength).toNat else p₁)
      = p₂ at h₂
  have h₃ := ok_ite (c := info.flags &&& 0x4 ≠ 0 ∧ info.cmdline ≠ 0) h₂
    (reserveRange_ok h₂ info.cmdline.toNat (info.cmdline + 256).toNat)
  generalize (if info.flags &&& 0x4 ≠ 0 ∧ info.cmdline ≠ 0
    then p₂.reserveRange info.cmdline.toNat (info.cmdline + 256).toNat else p₂) = p₃ at h₃
  have h₄ := ok_ite (c := info.flags &&& 0x1000 ≠ 0 ∧ info.framebufferAddr ≠ 0 ∧
      info.framebufferPitch ≠ 0 ∧ info.framebufferHeight ≠ 0) h₃
    (reserveRange_ok h₃ info.framebufferAddr.toNat (info.framebufferAddr
      + info.framebufferPitch.toUInt64 * info.framebufferHeight.toUInt64).toNat)
  generalize (if info.flags &&& 0x1000 ≠ 0 ∧ info.framebufferAddr ≠ 0 ∧ info.framebufferPitch ≠ 0 ∧
      info.framebufferHeight ≠ 0 then p₃.reserveRange info.framebufferAddr.toNat
        (info.framebufferAddr
      + info.framebufferPitch.toUInt64 * info.framebufferHeight.toUInt64).toNat else p₃) = p₄ at h₄
  split
  · exact h₄
  have h₅ := reserveRange_ok h₄ info.modsAddr.toNat (info.modsAddr + info.modsCount * 16).toNat
  generalize p₄.reserveRange info.modsAddr.toNat (info.modsAddr + info.modsCount * 16).toNat
    = p₅ at h₅
  induction List.range info.modsCount.toNat generalizing p₅ with
  | nil => exact h₅
  | cons index indices ih => exact ih _ (reserveModule_ok h₅ _)

theorem releaseMemory_ok (h : p.Ok) (info : MultibootInfo) : (p.releaseMemory info).Ok := by
  unfold releaseMemory
  split
  next =>
    induction info.mmap generalizing p with
    | nil => exact h
    | cons entry entries ih =>
      refine ih ?_
      exact ok_ite h (freeRange_ok h _ _)
  next =>
    split
    · exact freeRange_ok h _ _
    · exact h

/-- `palloc_init` establishes the invariant, whatever the boot loader says. -/
theorem init_ok (info : MultibootInfo) (kernelStart kernelEnd : UInt32) :
    (init info kernelStart kernelEnd).Ok := by
  have h₁ : ({ held.releaseMemory info with
      totalUsableFrames := (held.releaseMemory info).freeFrames } : Palloc).Ok :=
    (releaseMemory_ok held_ok info).congr rfl rfl rfl rfl
  have h₂ := reserveRange_ok (reserveRange_ok h₁ 0 0x100000) kernelStart.toNat kernelEnd.toNat
  exact (reserveBootStructures_ok h₂ info).congr rfl rfl rfl rfl

/-! ## The invariant in a run -/

theorem firstUsed_none (h : p.firstUsed start count = none) (hs : start ≤ f)
    (hf : f < start + count) :
    p.frameIsUsed f = false := by
  have hnone := List.find?_eq_none.mp h f (List.mem_range'_1.mpr ⟨hs, hf⟩)
  rwa [Bool.not_eq_true] at hnone

/-- The search ends at a run of free frames. -/
theorem searchRun_some (h : p.searchRun count start limit = some g) :
    g ≤ limit ∧ p.firstUsed g count = none := by
  fun_induction searchRun p count start limit with
  | case1 start hle hnone =>
    rw [Option.some.injEq] at h
    rw [← h]
    exact ⟨hle, hnone⟩
  | case2 start hle frame hsome ih => exact ih h
  | case3 start hgt => simp at h

/-- Every frame of the run is free. -/
def RunFree (p : Palloc) (start count : Nat) : Prop :=
  ∀ f, start ≤ f → f < start + count → p.frameIsUsed f = false

/-- Taking a run of free frames keeps the invariant. -/
theorem takeRun_ok (h : p.Ok) (hfree : p.RunFree start count) : (p.takeRun start count).1.Ok := by
  have hz : ∀ f, start ≤ f → f < start + count → f < p.firstUnusableFrame ∧
      p.frameRefcounts f = 0 :=
    fun f hs hf => h.free_of_not_used (hfree f hs hf)
  refine ⟨?_, ?_, h.limit, ?_⟩
  · intro f
    show (p.frameBitmap.markRange start count).test f = true ↔
      (if start ≤ f ∧ f < start + count then 1 else p.frameRefcounts f) ≠ 0
    rw [Bitmap.test_markRange (by decide)]
    by_cases hin : start ≤ f ∧ f < start + count
    · simp [hin]
    · have := h.bit_iff f
      simp only [hin, decide_false, Bool.false_or, if_false]
      exact this
  · intro f hf
    show (if start ≤ f ∧ f < start + count then 1 else p.frameRefcounts f) ≠ 0
    split
    · exact Nat.one_ne_zero
    · exact h.beyond f hf
  have hsub : Finset.Ico start (start + count) ⊆ p.freeSet := by
    intro f hf
    rw [Finset.mem_Ico] at hf
    exact mem_freeSet.mpr (hz f hf.1 hf.2)
  have hset : (p.takeRun start count).1.freeSet = p.freeSet \ Finset.Ico start (start + count) := by
    ext f
    rw [Finset.mem_sdiff, mem_freeSet, mem_freeSet, Finset.mem_Ico]
    show f < p.firstUnusableFrame ∧
      (if start ≤ f ∧ f < start + count then 1 else p.frameRefcounts f) = 0 ↔ _
    split
    next hin => simp [hin]
    next hin => simp [hin]
  have hcard := Finset.card_le_card hsub
  rw [Nat.card_Ico, ← h.free_eq] at hcard
  have hlt := h.freeFrames_lt
  rw [hset, Finset.card_sdiff_of_subset hsub, Nat.card_Ico, ← h.free_eq]
  show (p.freeFrames + 2 ^ 32 - count) % 2 ^ 32 = _
  omega

/-- What `palloc_alloc_pages` can do for more than one page: fail and change nothing,
or hand out a run of frames that were free. -/
theorem allocPages_cases (p : Palloc) (hc : count ≠ 1) :
    p.allocPages count = (p, 0) ∨
      ∃ start, p.RunFree start count ∧ p.allocPages count = p.takeRun start count := by
  unfold allocPages
  split
  · exact Or.inl rfl
  split
  · exact Or.inl rfl
  split
  next start hs =>
    exact Or.inr ⟨start, fun f => firstUsed_none (searchRun_some hs).2, rfl⟩
  split
  · split
    next start hs =>
      exact Or.inr ⟨start, fun f => firstUsed_none (searchRun_some hs).2, rfl⟩
    · exact Or.inl rfl
  · exact Or.inl rfl

theorem liveFrame_some (h : p.liveFrame a = some f) :
    a = f * 4096 ∧ f < p.firstUnusableFrame ∧ p.frameRefcounts f ≠ 0 := by
  unfold liveFrame at h
  split at h
  · simp at h
  next hal =>
  split at h
  · simp at h
  next hlt =>
  split at h
  · simp at h
  next hlive =>
  rw [Option.some.injEq] at h
  rw [h] at hlt hlive
  refine ⟨by omega, by omega, ?_⟩
  intro hz
  exact hlive (by simp [hz])

theorem allocPage_ok (h : p.Ok) : p.allocPage.1.Ok := by
  rcases allocPage_cases p with hc | ⟨f, hf, hc⟩
  · rw [hc]
    exact h
  · rw [hc]
    exact takeFrame_ok h hf

theorem allocPages_ok (h : p.Ok) (count : Nat) : (p.allocPages count).1.Ok := by
  by_cases hc : count = 1
  · rw [hc]
    exact allocPage_ok h
  rcases allocPages_cases p hc with he | ⟨start, hfree, he⟩
  · rw [he]
    exact h
  · rw [he]
    exact takeRun_ok h hfree

theorem retainPage_ok (h : p.Ok) (hfits : ∀ f, p.liveFrame a = some f →
    p.frameRefcounts f < 65535) :
    (p.retainPage a).1.Ok := by
  cases hl : p.liveFrame a with
  | none =>
    unfold retainPage
    rw [hl]
    exact h
  | some f =>
    obtain ⟨ha, hlt, hr⟩ := liveFrame_some hl
    obtain ⟨p', he, hok, -⟩ := retainPage_spec h hlt hr (hfits f hl)
    rw [ha, he]
    exact hok

theorem freePage_ok (h : p.Ok) (a : Nat) : (p.freePage a).Ok := by
  cases hl : p.liveFrame a with
  | none =>
    unfold freePage
    rw [hl]
    exact h
  | some f =>
    obtain ⟨ha, hlt, hr⟩ := liveFrame_some hl
    rw [ha]
    exact (freePage_spec h hlt hr).1

theorem freePagesRange_ok (h : p.Ok) (a count : Nat) : (p.freePagesRange a count).Ok := by
  unfold freePagesRange
  split
  · exact h
  · induction List.range count generalizing p with
    | nil => exact h
    | cons index indices ih => exact ih (freePage_ok h _)

/-- The calls of the allocator. -/
inductive Call where
  | allocPage
  | allocPages (pageCount : UInt32)
  | retainPage (physicalAddress : UInt32)
  | freePage (physicalAddress : UInt32)
  | freePagesRange (physicalAddress pageCount : UInt32)

def step (p : Palloc) : Call → Palloc
  | .allocPage => p.allocPage.1
  | .allocPages pageCount => (p.allocPages pageCount.toNat).1
  | .retainPage physicalAddress => (p.retainPage physicalAddress.toNat).1
  | .freePage physicalAddress => p.freePage physicalAddress.toNat
  | .freePagesRange physicalAddress pageCount =>
    p.freePagesRange physicalAddress.toNat pageCount.toNat

/-- The 16-bit count of a frame that is retained has room for one more reference,
which it has as long as no frame is retained 65535 times. -/
def RetainFits (p : Palloc) : Call → Prop
  | .retainPage physicalAddress =>
    ∀ f ∈ p.liveFrame physicalAddress.toNat, p.frameRefcounts f < 65535
  | _ => True

instance (p : Palloc) : (call : Call) → Decidable (p.RetainFits call)
  | .allocPage => isTrue trivial
  | .allocPages _ => isTrue trivial
  | .retainPage physicalAddress => inferInstanceAs (Decidable
      (∀ f ∈ p.liveFrame physicalAddress.toNat, p.frameRefcounts f < 65535))
  | .freePage _ => isTrue trivial
  | .freePagesRange _ _ => isTrue trivial

theorem step_ok (h : p.Ok) (call : Call) (hfits : p.RetainFits call) : (p.step call).Ok := by
  cases call with
  | allocPage => exact allocPage_ok h
  | allocPages pageCount => exact allocPages_ok h _
  | retainPage physicalAddress => exact retainPage_ok h hfits
  | freePage physicalAddress => exact freePage_ok h _
  | freePagesRange physicalAddress pageCount => exact freePagesRange_ok h _ _

/-- `free_frames` counts the clear bits of the bitmap. -/
theorem Ok.freeFrames_eq (h : p.Ok) :
    p.freeFrames = ((Finset.range maxPageFrames).filter fun f => p.frameIsUsed f = false).card := by
  rw [h.free_eq]
  refine congrArg Finset.card (Finset.ext fun f => ?_)
  rw [mem_freeSet, Finset.mem_filter, Finset.mem_range]
  constructor
  · intro hf
    refine ⟨Nat.lt_of_lt_of_le hf.1 h.limit, ?_⟩
    by_contra hne
    exact (h.bit_iff f).mp (by simpa using hne) hf.2
  · intro hf
    exact h.free_of_not_used hf.2

/-- `p` hands out the frames `[start, start + count)`: nobody holds any of them, and
afterwards each has its first reference. -/
structure HandsOut (p p' : Palloc) (start count : Nat) : Prop where
  was_free : ∀ f, start ≤ f → f < start + count → p.frameIsUsed f = false ∧ p.frameRefcounts f = 0
  counts : ∀ f, p'.frameRefcounts f = if start ≤ f ∧
    f < start + count then 1 else p.frameRefcounts f

theorem allocPage_handsOut (h : p.Ok) (hne : p.allocPage.2 ≠ 0) :
    ∃ start, p.allocPage.2 = start * 4096 ∧ HandsOut p p.allocPage.1 start 1 := by
  rcases allocPage_cases p with hc | ⟨f, hf, hc⟩
  · rw [hc] at hne
    exact absurd rfl hne
  refine ⟨f, by rw [hc]; rfl, ?_, ?_⟩
  · intro g hs hg
    have hgf : g = f := by omega
    rw [hgf]
    exact ⟨hf, (h.free_of_not_used hf).2⟩
  · intro g
    rw [hc]
    show Function.update p.frameRefcounts f 1 g = _
    rw [Function.update_apply]
    by_cases hg : g = f
    · rw [if_pos hg, if_pos (by omega)]
    · rw [if_neg hg, if_neg (by omega)]

theorem allocPages_handsOut (h : p.Ok) (hne : (p.allocPages count).2 ≠ 0) :
    ∃ start, (p.allocPages count).2 = start * 4096 ∧
      HandsOut p (p.allocPages count).1 start count := by
  by_cases hc : count = 1
  · rw [hc] at hne ⊢
    exact allocPage_handsOut h hne
  rcases allocPages_cases p hc with he | ⟨start, hfree, he⟩
  · rw [he] at hne
    exact absurd rfl hne
  refine ⟨start, by rw [he]; rfl, ?_, ?_⟩
  · intro f hs hf
    exact ⟨hfree f hs hf, (h.free_of_not_used (hfree f hs hf)).2⟩
  · intro f
    rw [he]
    rfl

/-- **The allocator's books balance in every run**: after `palloc_init` on any boot
information and any calls, a frame's bit is set exactly while it is referenced,
`free_frames` is the number of clear bits, the clear bits are those of managed frames,
and a non-zero result of an allocation names frames that nobody held. -/
theorem run_frames_consistent (info : MultibootInfo) (kernelStart kernelEnd : UInt32)
    (calls : List Call) (hfits : Guarded step RetainFits (init info kernelStart kernelEnd) calls) :
    let p := run step (init info kernelStart kernelEnd) calls
    (∀ f, p.frameIsUsed f = true ↔ 1 ≤ p.frameRefcounts f) ∧
    p.freeFrames = ((Finset.range maxPageFrames).filter fun f => p.frameIsUsed f = false).card ∧
    (∀ f, p.frameIsUsed f = false → f < p.firstUnusableFrame) ∧
    (p.allocPage.2 ≠ 0 →
      ∃ start, p.allocPage.2 = start * 4096 ∧ HandsOut p p.allocPage.1 start 1) ∧
    (∀ pageCount : UInt32, (p.allocPages pageCount.toNat).2 ≠ 0 →
      ∃ start, (p.allocPages pageCount.toNat).2 = start * 4096 ∧
        HandsOut p (p.allocPages pageCount.toNat).1 start pageCount.toNat) := by
  have h : (run step (init info kernelStart kernelEnd) calls).Ok :=
    guarded_invariant (I := Ok) (fun p call hok hfit => step_ok hok call hfit) calls
      (init_ok info kernelStart kernelEnd) hfits
  refine ⟨?_, h.freeFrames_eq, ?_, ?_, ?_⟩
  · intro f
    rw [h.bit_iff f, Nat.one_le_iff_ne_zero]
  · intro f hf
    exact (h.free_of_not_used hf).1
  · intro hne
    exact allocPage_handsOut h hne
  · intro pageCount hne
    exact allocPages_handsOut h hne

/-- A machine with 64 KiB above the first megabyte. -/
def smallInfo : MultibootInfo where
  address := 0x9000
  flags := 1
  memUpper := 64
  cmdline := 0
  modsCount := 0
  modsAddr := 0
  mmapLength := 0
  mmapAddr := 0
  framebufferAddr := 0
  framebufferPitch := 0
  framebufferHeight := 0
  mmap := []
  modules _ := ⟨0, 0, 0⟩

/-- On the small machine a page is allocated, shared and freed, a bogus address is freed
and a run of three pages follows it. -/
theorem run_frames_consistent_small :
    let p := run step (init smallInfo 0x100000 0x101000) [.allocPage, .retainPage 0x101000,
      .freePage 0x101000, .freePage 0x7, .allocPages 3, .freePagesRange 0x102000 2]
    (∀ f, p.frameIsUsed f = true ↔ 1 ≤ p.frameRefcounts f) ∧ p.freeFrames = 13 := by
  have h := run_frames_consistent smallInfo 0x100000 0x101000 [.allocPage, .retainPage 0x101000,
    .freePage 0x101000, .freePage 0x7, .allocPages 3, .freePagesRange 0x102000 2]
      (by decide +kernel)
  exact ⟨h.1, by decide +kernel⟩

end Palloc

end Riverix.Memory
