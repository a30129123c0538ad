import Riverix.Lib.Store
import Riverix.Memory.Contiguous

/-!
# What `palloc_init` makes of the memory map

The boot loader's map is applied in one pass: the ranges of its AVAILABLE entries are
released, rounded inwards to whole frames, and then what the kernel and the boot structures
occupy is held again, rounded outwards. So the frames that are free after `palloc_init` can
be read off two lists of ranges (`init_free_iff`), and they are the frames that an
allocation can return as long as callers give back only what they were handed
(`canReturn_iff`).

The rounding is sound for ranges that fit the arithmetic. What does not: the frame number
of an entry that starts beyond 16 TiB is cut to 32 bits, so the entry releases frames that
it has nothing to do with; the end of a boot structure is a 32-bit sum; of a command line
256 bytes are held, however long it is; and an entry of another type is not looked at, so
nothing takes out the part of an AVAILABLE entry it overlaps. **`handed_out_genuine_iff`**
says that these are the only faults.
-/

namespace Riverix.Memory

open Riverix.Lib

namespace Palloc

variable {p p₀ : Palloc} {f g start end' : Nat}

/-! ## Ranges of frames -/

theorem releaseFrame_free :
    (p.releaseFrame g).frameIsUsed f = false ↔ p.frameIsUsed f = false ∨ f = g := by
  unfold releaseFrame
  split
  next hused =>
    show (p.frameBitmap.clear g).test f = false ↔ _
    rw [Bitmap.test_clear (by decide)]
    by_cases hf : f = g
    · simp [hf]
    · simp [hf, frameIsUsed]
  next hused =>
  constructor
  · exact Or.inl
  · rintro (hfree | rfl)
    · exact hfree
    · simpa using hused

theorem reserveFrame_free :
    (p.reserveFrame g).frameIsUsed f = false ↔ p.frameIsUsed f = false ∧ f ≠ g := by
  unfold reserveFrame
  split
  next hused =>
    constructor
    · intro hfree
      refine ⟨hfree, ?_⟩
      rintro rfl
      rw [hused] at hfree
      simp at hfree
    · exact And.left
  next hused =>
  show (p.frameBitmap.mark g).test f = false ↔ _
  rw [Bitmap.test_mark (by decide)]
  by_cases hf : f = g
  · simp [hf]
  · simp [hf, frameIsUsed]

theorem foldl_releaseFrame_free (frames : List Nat) :
    (frames.foldl releaseFrame p).frameIsUsed f = false ↔ p.frameIsUsed f = false ∨ f ∈ frames := by
  induction frames generalizing p with
  | nil => simp
  | cons g frames ih => rw [List.foldl_cons, ih, releaseFrame_free, List.mem_cons, or_assoc]

theorem foldl_reserveFrame_free (frames : List Nat) :
    (frames.foldl reserveFrame p).frameIsUsed f = false ↔
      p.frameIsUsed f = false ∧ f ∉ frames := by
  induction frames generalizing p with
  | nil => simp
  | cons g frames ih =>
    rw [List.foldl_cons, ih, reserveFrame_free, List.mem_cons, not_or, and_assoc]

/-- The frames that `free_range` releases. -/
def Releases (range : Nat × Nat) (f : Nat) : Prop :=
  alignUpToPage range.1 ≤ f ∧ f < alignDownToPage (clipRangeEnd range.2)

/-- The frames that `reserve_range` holds. -/
def Reserves (range : Nat × Nat) (f : Nat) : Prop :=
  alignDownToPage range.1 ≤ f ∧ f < alignUpToPage (clipRangeEnd range.2)

instance (range : Nat × Nat) (f : Nat) : Decidable (Releases range f) :=
  inferInstanceAs (Decidable (_ ∧ _))

instance (range : Nat × Nat) (f : Nat) : Decidable (Reserves range f) :=
  inferInstanceAs (Decidable (_ ∧ _))

theorem freeRange_free (range : Nat × Nat) :
    (p.freeRange range.1 range.2).frameIsUsed f = false ↔
      p.frameIsUsed f = false ∨ Releases range f := by
  unfold freeRange Releases
  rw [foldl_releaseFrame_free, List.mem_range'_1]
  have hbits : ∀ n, frameIsUsed
      (if n > p.firstUnusableFrame then { p with firstUnusableFrame := n } else p) f
      = p.frameIsUsed f := by
    intro n
    split <;> rfl
  rw [hbits]
  refine or_congr Iff.rfl ⟨fun h => ?_, fun h => ?_⟩ <;> omega

/-- A free frame is managed, so cutting a range at the last managed frame loses nothing. -/
theorem reserveRange_free (h : p.Ok) (range : Nat × Nat) :
    (p.reserveRange range.1 range.2).frameIsUsed f = false ↔
      p.frameIsUsed f = false ∧ ¬Reserves range f := by
  unfold reserveRange Reserves
  rw [foldl_reserveFrame_free, List.mem_range'_1]
  refine and_congr_right fun hfree => ?_
  have hlt := (h.free_of_not_used hfree).1
  constructor <;> intro hn hin <;> apply hn <;> omega

/-! ## The two lists -/

/-- The ranges that `palloc_init` releases, with the sums the code computes. -/
def releasedRanges (info : MultibootInfo) : List (Nat × Nat) :=
  if info.flags &&& 0x40 ≠ 0 then
    (info.mmap.filter fun entry => entry.type = 1).map
      fun entry => (entry.addr.toNat, (entry.addr + entry.len).toNat)
  else if info.flags &&& 0x1 ≠ 0 then [(0x100000, 0x100000 + info.memUpper.toNat * 1024)]
  else []

/-- The ranges held for one module. -/
def moduleRanges (module : MultibootModule) : List (Nat × Nat) :=
  (module.modStart.toNat, module.modEnd.toNat) ::
    if module.cmdline ≠ 0 then [(module.cmdline.toNat, (module.cmdline + 256).toNat)] else []

/-- The ranges that `palloc_init` holds, with the sums the code computes. -/
def reservedRanges (info : MultibootInfo) (kernelStart kernelEnd : UInt32) : List (Nat × Nat) :=
  [(0, 0x100000), (kernelStart.toNat, kernelEnd.toNat),
    (info.address.toNat, (info.address + 116).toNat)] ++
  (if info.flags &&& 0x40 ≠ 0
    then [(info.mmapAddr.toNat, (info.mmapAddr + info.mmapLength).toNat)] else []) ++
  (if info.flags &&& 0x4 ≠ 0 ∧ info.cmdline ≠ 0
    then [(info.cmdline.toNat, (info.cmdline + 256).toNat)] else []) ++
  (if info.flags &&& 0x1000 ≠ 0 ∧ info.framebufferAddr ≠ 0 ∧ info.framebufferPitch ≠ 0
      ∧ info.framebufferHeight ≠ 0
    then [(info.framebufferAddr.toNat, (info.framebufferAddr
      + info.framebufferPitch.toUInt64 * info.framebufferHeight.toUInt64).toNat)] else []) ++
  (if info.flags &&& 0x8 = 0 ∨ info.modsCount = 0 then []
    else (info.modsAddr.toNat, (info.modsAddr + info.modsCount * 16).toNat) ::
      (List.range info.modsCount.toNat).flatMap fun index => moduleRanges (info.modules index))

theorem releaseMemory_eq (info : MultibootInfo) :
    p.releaseMemory info
      = (releasedRanges info).foldl (fun p range => p.freeRange range.1 range.2) p := by
  unfold releaseMemory releasedRanges
  split
  next =>
    rw [List.foldl_map]
    induction info.mmap generalizing p with
    | nil => rfl
    | cons entry entries ih =>
      rw [List.foldl_cons, ih, List.filter_cons]
      by_cases ht : entry.type = 1
      · simp [ht]
      · simp [ht]
  next =>
    split
    · rw [List.foldl_cons, List.foldl_nil]
    · rw [List.foldl_nil]

theorem reserveModule_eq (module : MultibootModule) :
    p.reserveModule module
      = (moduleRanges module).foldl (fun p range => p.reserveRange range.1 range.2) p := by
  unfold reserveModule moduleRanges
  split
  · rw [List.foldl_cons, List.foldl_cons, List.foldl_nil]
  · rw [List.foldl_cons, List.foldl_nil]

/-- An optional range. -/
theorem foldl_ite_range (c : Prop) [Decidable c] (range : Nat × Nat) :
    (if c then [range] else []).foldl (fun p range => p.reserveRange range.1 range.2) p
      = if c then p.reserveRange range.1 range.2 else p := by
  split
  · rw [List.foldl_cons, List.foldl_nil]
  · rw [List.foldl_nil]

theorem reserveBootStructures_eq (info : MultibootInfo) (kernelStart kernelEnd : UInt32) :
    ((p.reserveRange 0 0x100000).reserveRange kernelStart.toNat
      kernelEnd.toNat).reserveBootStructures
        info
      = (reservedRanges info kernelStart kernelEnd).foldl
          (fun p range => p.reserveRange range.1 range.2) p := by
  unfold reservedRanges
  rw [List.foldl_append, List.foldl_append, List.foldl_append, List.foldl_append, foldl_ite_range,
    foldl_ite_range, foldl_ite_range]
  unfold reserveBootStructures
  dsimp only [List.foldl_cons, List.foldl_nil]
  split
  · rfl
  · rw [List.foldl_cons, List.foldl_flatMap]
    simp only [reserveModule_eq]

/-- The frames that the two lists leave over. -/
def LeftOver (info : MultibootInfo) (kernelStart kernelEnd : UInt32) (f : Nat) : Prop :=
  (∃ range ∈ releasedRanges info, Releases range f) ∧
    ∀ range ∈ reservedRanges info kernelStart kernelEnd, ¬Reserves range f

theorem foldl_freeRange_free (ranges : List (Nat × Nat)) :
    (ranges.foldl (fun p range => p.freeRange range.1 range.2) p).frameIsUsed f = false ↔
      p.frameIsUsed f = false ∨ ∃ range ∈ ranges, Releases range f := by
  induction ranges generalizing p with
  | nil => simp
  | cons range ranges ih =>
    rw [List.foldl_cons, ih, freeRange_free, or_assoc]
    simp only [List.mem_cons, exists_eq_or_imp]

theorem foldl_reserveRange_free (h : p.Ok) (ranges : List (Nat × Nat)) :
    (ranges.foldl (fun p range => p.reserveRange range.1 range.2) p).frameIsUsed f = false ↔
      p.frameIsUsed f = false ∧ ∀ range ∈ ranges, ¬Reserves range f := by
  induction ranges generalizing p with
  | nil => simp
  | cons range ranges ih =>
    rw [List.foldl_cons, ih (reserveRange_ok h _ _), reserveRange_free h, and_assoc,
      List.forall_mem_cons]

theorem held_used (f : Nat) : held.frameIsUsed f = true :=
  (held_ok.bit_iff f).mpr Nat.one_ne_zero

/-- **The free frames after `palloc_init`** are those the two lists leave over. -/
theorem init_free_iff (info : MultibootInfo) (kernelStart kernelEnd : UInt32) :
    (init info kernelStart kernelEnd).frameIsUsed f = false ↔
      LeftOver info kernelStart kernelEnd f := by
  have hok : ({ held.releaseMemory info with
      totalUsableFrames := (held.releaseMemory info).freeFrames } : Palloc).Ok :=
    (releaseMemory_ok held_ok info).congr rfl rfl rfl rfl
  have hres := foldl_reserveRange_free (f := f) hok (reservedRanges info kernelStart kernelEnd)
  rw [← reserveBootStructures_eq] at hres
  have hrel := foldl_freeRange_free (p := held) (f := f) (releasedRanges info)
  rw [← releaseMemory_eq, held_used] at hrel
  refine Iff.trans hres (and_congr_left fun _ => hrel.trans ?_)
  simp

/-! ## The frames that palloc can return -/

/-- The call gives back only frames that were free in `p₀`. -/
def GivesBackOwn (p₀ : Palloc) : Call → Prop
  | .freePage physicalAddress => p₀.frameIsUsed (physicalAddress.toNat / 4096) = false
  | .freePagesRange physicalAddress pageCount => ∀ index < pageCount.toNat,
    p₀.frameIsUsed ((physicalAddress.toNat + index * 4096) % 2 ^ 32 / 4096) = false
  | _ => True

/-- After calls that give back only what allocations have handed out, an allocation returns
a run that has the frame in it. -/
def CanReturn (p₀ : Palloc) (f : Nat) : Prop :=
  ∃ (calls : List Call) (pageCount : UInt32),
    Guarded step (fun _ => p₀.GivesBackOwn) p₀ calls ∧
    let a := ((run step p₀ calls).allocPages pageCount.toNat).2
    a ≠ 0 ∧ a / 4096 ≤ f ∧ f < a / 4096 + pageCount.toNat

/-- Every frame used in `p₀` is used in `p`. -/
def UsedStay (p₀ p : Palloc) : Prop := ∀ f, p₀.frameIsUsed f = true → p.frameIsUsed f = true

theorem takeRun_used (h : p.frameIsUsed f = true) (start count : Nat) :
    (p.takeRun start count).1.frameIsUsed f = true := by
  show (p.frameBitmap.markRange start count).test f = true
  rw [Bitmap.test_markRange (by decide)]
  have hused : p.frameBitmap.test f = true := h
  simp [hused]

theorem takeFrame_used (h : p.frameIsUsed f = true) (g : Nat) :
    (p.takeFrame g).1.frameIsUsed f = true := by
  show (p.frameBitmap.mark g).test f = true
  rw [Bitmap.test_mark (by decide)]
  have hused : p.frameBitmap.test f = true := h
  simp [hused]

theorem allocPages_used (h : p.frameIsUsed f = true) (count : Nat) :
    (p.allocPages count).1.frameIsUsed f = true := by
  by_cases hc : count = 1
  · have he : p.allocPages count = p.allocPage := by rw [hc]; rfl
    rw [he]
    rcases allocPage_cases p with hcase | ⟨g, -, hcase⟩
    · rw [hcase]
      exact h
    · rw [hcase]
      exact takeFrame_used h g
  rcases allocPages_cases p hc with hcase | ⟨start, -, hcase⟩
  · rw [hcase]
    exact h
  · rw [hcase]
    exact takeRun_used h start count

theorem freePage_used (h : p.frameIsUsed f = true) {a : Nat} (hne : f ≠ a / 4096) :
    (p.freePage a).frameIsUsed f = true := by
  cases hl : p.liveFrame a with
  | none =>
    unfold freePage
    rw [hl]
    exact h
  | some g =>
    have hg : g ≠ f := by
      have ha := (liveFrame_some hl).1
      omega
    unfold freePage
    rw [hl]
    dsimp only
    split
    · exact h
    · show (p.frameBitmap.clear g).test f = true
      rw [Bitmap.test_clear (by decide)]
      have hused : p.frameBitmap.test f = true := h
      simp [hused, hg.symm]

theorem UsedStay.step (h : UsedStay p₀ p) (call : Call) (hown : p₀.GivesBackOwn call) :
    UsedStay p₀ (p.step call) := by
  -- a frame that is given back was free, so it is not the used one
  have hne : ∀ {f a : Nat}, p₀.frameIsUsed f = true → p₀.frameIsUsed (a / 4096) = false →
      f ≠ a / 4096 := by
    rintro f a hused hfree rfl
    rw [hused] at hfree
    simp at hfree
  intro f hused
  cases call with
  | allocPage => exact allocPages_used (h f hused) 1
  | allocPages pageCount => exact allocPages_used (h f hused) _
  | retainPage physicalAddress =>
    show (p.retainPage physicalAddress.toNat).1.frameIsUsed f = true
    have hsame : (p.retainPage physicalAddress.toNat).1.frameIsUsed f = p.frameIsUsed f := by
      unfold retainPage
      split <;> rfl
    rw [hsame]
    exact h f hused
  | freePage physicalAddress => exact freePage_used (h f hused) (hne hused hown)
  | freePagesRange physicalAddress pageCount =>
    show (p.freePagesRange physicalAddress.toNat pageCount.toNat).frameIsUsed f = true
    unfold freePagesRange
    split
    · exact h f hused
    have hall : ∀ index ∈ List.range pageCount.toNat,
        f ≠ (physicalAddress.toNat + index * 4096) % 2 ^ 32 / 4096 :=
      fun index hi => hne hused (hown index (List.mem_range.mp hi))
    have hf := h f hused
    generalize List.range pageCount.toNat = indices at hall
    clear hown h
    induction indices generalizing p with
    | nil => exact hf
    | cons index indices ih =>
      rw [List.foldl_cons]
      refine ih (freePage_used hf (hall index (List.mem_cons_self ..))) ?_
      exact fun i hi => hall i (List.mem_cons_of_mem _ hi)

/-- A run that is handed out was free. -/
theorem allocPages_was_free (h : p.counted.Ok) {count : Nat} (hc : count ≠ 0)
    (hne : (p.allocPages count).2 ≠ 0) (hge : (p.allocPages count).2 / 4096 ≤ f)
    (hlt : f < (p.allocPages count).2 / 4096 + count) : p.frameIsUsed f = false := by
  rcases allocPages_result h hc with ⟨start, hpick, hres⟩ | ⟨-, hres⟩
  · rw [hres, Nat.mul_div_cancel start (by decide)] at hge hlt
    exact hpick.1.2 f hge hlt
  · exact absurd hres hne

/-- Allocating one page after the other gets to every free frame. -/
theorem alloc_reaches (h : p.counted.Ok) (h0 : p.frameIsUsed 0 = true)
    (hfree : p.frameIsUsed f = false) :
    ∃ n, (run step p (List.replicate n .allocPage)).allocPage.2 = f * 4096 := by
  -- the number of free frames falls with every page handed out
  induction hn : p.freeFrames using Nat.strong_induction_on generalizing p with
  | _ n ih =>
    have hrun : p.FreeRun f 1 := (runFree_one.mpr hfree).freeRun h Nat.one_ne_zero
    rcases allocPage_cases p with hcase | ⟨g, hg, hcase⟩
    · -- with a free frame the allocation does not fail
      exfalso
      rcases allocPage_result h with ⟨start, hpick, hres⟩ | ⟨hnone, -⟩
      · rw [hcase] at hres
        have hs : start = 0 := by
          omega
        have hfree0 := hpick.1.2 0 (by omega) (by omega)
        rw [h0] at hfree0
        exact absurd hfree0 (by simp)
      · by_cases hside : p.nextSearchFrame ≤ f
        · exact hnone.1 f hside hrun
        · exact hnone.2 f (by omega) hrun
    by_cases hgf : g = f
    · refine ⟨0, ?_⟩
      show p.allocPage.2 = f * 4096
      rw [hcase, hgf]
      rfl
    have hstill : p.allocPage.1.frameIsUsed f = false := by
      rw [hcase]
      show (p.frameBitmap.mark g).test f = false
      rw [Bitmap.test_mark (by decide)]
      have hclear : p.frameBitmap.test f = false := hfree
      simp [hclear, Ne.symm hgf]
    have hpos : 0 < p.freeFrames := hrun.count_le h
    have hless : p.allocPage.1.freeFrames < n := by
      rw [hcase]
      show (p.freeFrames + 0xFFFFFFFF) % 2 ^ 32 < n
      omega
    obtain ⟨k, hk⟩ := ih p.allocPage.1.freeFrames hless (counted_allocPages_ok h 1)
      (allocPages_used h0 1) hstill rfl
    exact ⟨k + 1, hk⟩

theorem guarded_allocs (p : Palloc) (n : Nat) :
    Guarded step (fun _ => p₀.GivesBackOwn) p (List.replicate n .allocPage) := by
  induction n generalizing p with
  | zero => trivial
  | succ n ih => exact ⟨trivial, ih _⟩

/-- **The frames that palloc can return** are those that were free to begin with. -/
theorem canReturn_iff (h : p.counted.Ok) (h0 : p.frameIsUsed 0 = true) :
    p.CanReturn f ↔ p.frameIsUsed f = false := by
  constructor
  · rintro ⟨calls, pageCount, hown, hne, hge, hlt⟩
    have hstay : (run step p calls).counted.Ok ∧ UsedStay p (run step p calls) :=
      guarded_invariant (I := fun q : Palloc => q.counted.Ok ∧ UsedStay p q)
        (fun q call hq hcall => ⟨counted_step_ok hq.1 call, hq.2.step call hcall⟩) calls
        ⟨h, fun _ hused => hused⟩ hown
    by_contra hused
    have hq := hstay.2 f (by simpa using hused)
    have hc : pageCount.toNat ≠ 0 := by
      intro hz
      rw [hz] at hlt hge
      omega
    rw [allocPages_was_free hstay.1 hc hne hge hlt] at hq
    simp at hq
  · intro hfree
    obtain ⟨n, hn⟩ := alloc_reaches h h0 hfree
    have hf0 : f ≠ 0 := by
      rintro rfl
      rw [h0] at hfree
      simp at hfree
    refine ⟨List.replicate n .allocPage, 1, guarded_allocs p n, ?_⟩
    intro a
    have ha : a = f * 4096 := hn
    have hone : (1 : UInt32).toNat = 1 := rfl
    omega

theorem init_zero_used (info : MultibootInfo) (kernelStart kernelEnd : UInt32) :
    (init info kernelStart kernelEnd).frameIsUsed 0 = true := by
  by_contra hfree
  rw [Bool.not_eq_true, init_free_iff] at hfree
  exact hfree.2 (0, 0x100000) (by simp [reservedRanges]) (by decide)

/-! ## Genuinely free memory -/

/-- Some byte of the frame lies in `[start, end')`. -/
def Meets (f start end' : Nat) : Prop := ∃ x, start ≤ x ∧ x < end' ∧ x / 4096 = f

/-- The frame lies in `[start, end')` and below 4 GiB. -/
def Inside (f start end' : Nat) : Prop :=
  start ≤ f * 4096 ∧ (f + 1) * 4096 ≤ end' ∧ (f + 1) * 4096 ≤ 0x100000000

/-- The entries of the memory map, if there is one. -/
def mapEntries (info : MultibootInfo) : List MemoryMapEntry :=
  if info.flags &&& 0x40 ≠ 0 then info.mmap else []

/-- The memory that the boot loader calls available: the AVAILABLE entries of its map or,
where it gives none, the upper memory whose size it reports. -/
def availableRanges (info : MultibootInfo) : List (Nat × Nat) :=
  if info.flags &&& 0x40 ≠ 0 then
    (info.mmap.filter fun entry => entry.type = 1).map
      fun entry => (entry.addr.toNat, entry.addr.toNat + entry.len.toNat)
  else if info.flags &&& 0x1 ≠ 0 then [(0x100000, 0x100000 + info.memUpper.toNat * 1024)]
  else []

/-- Address and length of the multiboot structure, the memory map and the module table. -/
def bootTables (info : MultibootInfo) : List (Nat × Nat) :=
  (info.address.toNat, 116) ::
  (if info.flags &&& 0x40 ≠ 0 then [(info.mmapAddr.toNat, info.mmapLength.toNat)] else []) ++
  (if info.flags &&& 0x8 ≠ 0 then [(info.modsAddr.toNat, info.modsCount.toNat * 16)] else [])

def bootModules (info : MultibootInfo) : List MultibootModule :=
  if info.flags &&& 0x8 ≠ 0 then (List.range info.modsCount.toNat).map info.modules else []

/-- Where the command lines of the kernel and of the modules start. -/
def commandLines (info : MultibootInfo) : List Nat :=
  (if info.flags &&& 0x4 ≠ 0 ∧ info.cmdline ≠ 0 then [info.cmdline.toNat] else []) ++
  ((bootModules info).filter fun module => module.cmdline ≠ 0).map fun module =>
    module.cmdline.toNat

/-- The framebuffer; one at address 0 is none. -/
def framebufferRange (info : MultibootInfo) : Nat × Nat :=
  if info.flags &&& 0x1000 ≠ 0 ∧ info.framebufferAddr ≠ 0 then
    (info.framebufferAddr.toNat, info.framebufferAddr.toNat
      + info.framebufferPitch.toNat * info.framebufferHeight.toNat)
  else (0, 0)

/-- The byte at `x` belongs to the string at `start`, its terminator included. -/
def InString (memory : Store) (start x : Nat) : Prop :=
  start ≤ x ∧ ∀ y, start ≤ y → y < x → memory y ≠ 0

/-- The frame is available memory that nothing else lies in. -/
structure Genuine (info : MultibootInfo) (memory : Store) (kernelStart kernelEnd : UInt32)
    (f : Nat) : Prop where
  available : ∃ range ∈ availableRanges info, Inside f range.1 range.2
  other_type : ∀ entry ∈ mapEntries info, entry.type ≠ 1 →
    ¬Meets f entry.addr.toNat (entry.addr.toNat + entry.len.toNat)
  low : ¬Meets f 0 0x100000
  kernel : ¬Meets f kernelStart.toNat kernelEnd.toNat
  tables : ∀ table ∈ bootTables info, ¬Meets f table.1 (table.1 + table.2)
  modules : ∀ module ∈ bootModules info, ¬Meets f module.modStart.toNat module.modEnd.toNat
  command_lines : ∀ start ∈ commandLines info, ∀ x, InString memory start x → x / 4096 ≠ f
  framebuffer : ¬Meets f (framebufferRange info).1 (framebufferRange info).2

/-! ## Where the rounding is exact -/

theorem clipRangeEnd_eq (a : Nat) : clipRangeEnd a = min a 0x100000000 := by
  unfold clipRangeEnd
  split <;> omega

theorem LeftOver.lt {info : MultibootInfo} {kernelStart kernelEnd : UInt32}
    (h : LeftOver info kernelStart kernelEnd f) : f < 0x100000 := by
  obtain ⟨⟨range, -, -, hlt⟩, -⟩ := h
  have hmax := alignDownToPage_clip range.2
  unfold maxPageFrames at hmax
  omega

/-- A range that starts below 16 TiB is held in full. -/
theorem not_meets_of_not_reserves {range : Nat × Nat} (h : ¬Reserves range f) (hf : f < 0x100000)
    (hstart : range.1 < 2 ^ 44) : ¬Meets f range.1 range.2 := by
  rintro ⟨x, hge, hlt, hx⟩
  apply h
  unfold Reserves alignDownToPage alignUpToPage
  rw [clipRangeEnd_eq]
  omega

/-- The release of a range that starts below 16 TiB takes in whole frames only. -/
theorem inside_of_releases {range : Nat × Nat} (h : Releases range f) (hf : f < 0x100000)
    (hnear : range.1 ≤ 2 ^ 44 - 4096) : Inside f range.1 range.2 := by
  unfold Releases alignDownToPage alignUpToPage at h
  rw [clipRangeEnd_eq] at h
  unfold Inside
  omega

/-- The maps that the code's arithmetic handles: for every frame left over,
the frame lies in available memory even if an entry beyond 16 TiB released it,
no entry of another type overlaps it,
it lies below every table whose 32-bit end wraps, and
no command line reaches it with a byte past the 256 that are held. -/
structure SoundMap (info : MultibootInfo) (memory : Store) (kernelStart kernelEnd : UInt32) :
    Prop where
  far : ∀ f, LeftOver info kernelStart kernelEnd f →
    ∀ range ∈ releasedRanges info, 2 ^ 44 - 4096 < range.1 → Releases range f →
      ∃ range ∈ availableRanges info, Inside f range.1 range.2
  apart : ∀ f, LeftOver info kernelStart kernelEnd f →
    ∀ entry ∈ mapEntries info, entry.type ≠ 1 →
      ¬Meets f entry.addr.toNat (entry.addr.toNat + entry.len.toNat)
  tables : ∀ f, LeftOver info kernelStart kernelEnd f →
    ∀ table ∈ bootTables info, 2 ^ 32 ≤ table.1 + table.2 → f < table.1 / 4096
  strings : ∀ f, LeftOver info kernelStart kernelEnd f →
    ∀ start ∈ commandLines info, ∀ x, InString memory start x →
      start + 256 ≤ x ∨ 2 ^ 32 ≤ start + 256 → x / 4096 ≠ f

section

variable {info : MultibootInfo} {memory : Store} {kernelStart kernelEnd : UInt32}

/-- A near range that is released is one of the available ones. -/
theorem LeftOver.available (h : LeftOver info kernelStart kernelEnd f)
    {range : Nat × Nat} (hmem : range ∈ releasedRanges info) (hrel : Releases range f)
    (hnear : range.1 ≤ 2 ^ 44 - 4096) :
    ∃ range ∈ availableRanges info, Inside f range.1 range.2 := by
  have hin := inside_of_releases hrel h.lt hnear
  unfold releasedRanges at hmem
  unfold availableRanges
  split at hmem
  next hmap =>
    rw [if_pos hmap]
    obtain ⟨entry, hentry, rfl⟩ := List.mem_map.mp hmem
    refine ⟨_, List.mem_map.mpr ⟨entry, hentry, rfl⟩, hin.1, ?_, hin.2.2⟩
    -- the 64-bit end is at most the true one
    have hle : (entry.addr + entry.len).toNat ≤ entry.addr.toNat + entry.len.toNat := by
      rw [UInt64.toNat_add]
      exact Nat.mod_le _ _
    exact Nat.le_trans hin.2.1 hle
  next hmap =>
    rw [if_neg hmap]
    exact ⟨range, hmem, hin⟩

/-- What is held for a range of 32-bit addresses keeps its frames from being left over. -/
theorem LeftOver.not_meets (h : LeftOver info kernelStart kernelEnd f) {range : Nat × Nat}
    (hmem : range ∈ reservedRanges info kernelStart kernelEnd) (hstart : range.1 < 2 ^ 44) :
    ¬Meets f range.1 range.2 :=
  not_meets_of_not_reserves (h.2 range hmem) h.lt hstart

theorem mem_reservedRanges_low : (0, 0x100000) ∈ reservedRanges info kernelStart kernelEnd := by
  simp [reservedRanges]

theorem mem_reservedRanges_kernel :
    (kernelStart.toNat, kernelEnd.toNat) ∈ reservedRanges info kernelStart kernelEnd := by
  simp [reservedRanges]

theorem mem_reservedRanges_module {module : MultibootModule} (hm : module ∈ bootModules info)
    {range : Nat × Nat} (hr : range ∈ moduleRanges module) :
    range ∈ reservedRanges info kernelStart kernelEnd := by
  unfold bootModules at hm
  split at hm
  next hflag =>
    obtain ⟨index, hindex, rfl⟩ := List.mem_map.mp hm
    have hcount : info.modsCount ≠ 0 := by
      intro hz
      rw [hz] at hindex
      exact absurd (List.mem_range.mp hindex) (by simp)
    unfold reservedRanges
    refine List.mem_append_right _ ?_
    rw [if_neg (not_or.mpr ⟨hflag, hcount⟩)]
    exact List.mem_cons_of_mem _ (List.mem_flatMap.mpr ⟨index, hindex, hr⟩)
  · exact absurd hm List.not_mem_nil

/-- A table whose end does not wrap is held. -/
theorem mem_reservedRanges_table {table : Nat × Nat} (ht : table ∈ bootTables info)
    (hpos : table.2 ≠ 0) (hfits : table.1 + table.2 < 2 ^ 32) :
    (table.1, table.1 + table.2) ∈ reservedRanges info kernelStart kernelEnd := by
  unfold bootTables at ht
  unfold reservedRanges
  rw [List.cons_append, List.mem_cons, List.mem_append] at ht
  rcases ht with rfl | ht | ht
  · have hend : (info.address + 116).toNat = info.address.toNat + 116 := by
      rw [UInt32.toNat_add]
      exact Nat.mod_eq_of_lt hfits
    simp [hend]
  · split at ht
    next hflag =>
      obtain rfl := List.mem_singleton.mp ht
      have hend : (info.mmapAddr + info.mmapLength).toNat
          = info.mmapAddr.toNat + info.mmapLength.toNat := by
        rw [UInt32.toNat_add]
        exact Nat.mod_eq_of_lt hfits
      simp only [List.mem_append]
      refine Or.inl (Or.inl (Or.inl (Or.inr ?_)))
      rw [if_pos hflag, hend]
      exact List.mem_singleton_self _
    · exact absurd ht List.not_mem_nil
  split at ht
  next hflag =>
    obtain rfl := List.mem_singleton.mp ht
    have hend : (info.modsAddr + info.modsCount * 16).toNat
        = info.modsAddr.toNat + info.modsCount.toNat * 16 := by
      have hsix : (16 : UInt32).toNat = 16 := rfl
      rw [UInt32.toNat_add, UInt32.toNat_mul, hsix]
      rw [Nat.mod_eq_of_lt (show info.modsCount.toNat * 16 < 2 ^ 32 by omega)]
      exact Nat.mod_eq_of_lt hfits
    have hcount : info.modsCount ≠ 0 := by
      intro hz
      rw [hz] at hpos
      exact hpos rfl
    refine List.mem_append_right _ ?_
    rw [if_neg (not_or.mpr ⟨hflag, hcount⟩), hend]
    exact List.mem_cons_self ..
  · exact absurd ht List.not_mem_nil

/-- The first 256 bytes of a command line are held, unless they cross 4 GiB. -/
theorem mem_reservedRanges_commandLine {start : Nat} (hs : start ∈ commandLines info)
    (hfits : start + 256 < 2 ^ 32) :
    (start, start + 256) ∈ reservedRanges info kernelStart kernelEnd := by
  have hend : ∀ line : UInt32, line.toNat + 256 < 2 ^ 32 →
      (line + 256).toNat = line.toNat + 256 := by
    intro line hline
    rw [UInt32.toNat_add]
    exact Nat.mod_eq_of_lt hline
  unfold commandLines at hs
  rcases List.mem_append.mp hs with hs | hs
  · split at hs
    next hc =>
      obtain rfl := List.mem_singleton.mp hs
      unfold reservedRanges
      simp only [List.mem_append]
      refine Or.inl (Or.inl (Or.inr ?_))
      rw [if_pos hc, hend _ hfits]
      exact List.mem_singleton_self _
    · exact absurd hs List.not_mem_nil
  obtain ⟨module, hm, rfl⟩ := List.mem_map.mp hs
  rw [List.mem_filter] at hm
  have hc : module.cmdline ≠ 0 := by simpa using hm.2
  refine mem_reservedRanges_module hm.1 ?_
  unfold moduleRanges
  rw [if_pos hc, hend _ hfits]
  simp

/-- The framebuffer is held: a 64-bit sum that wraps starts far above the frames. -/
theorem LeftOver.framebuffer (h : LeftOver info kernelStart kernelEnd f) :
    ¬Meets f (framebufferRange info).1 (framebufferRange info).2 := by
  unfold framebufferRange
  split
  next hc =>
    rintro ⟨x, hge, hlt, hx⟩
    have hf := h.lt
    have hpitch : info.framebufferPitch ≠ 0 := by
      intro hz
      rw [hz] at hlt
      simp only [UInt32.toNat_zero, Nat.zero_mul] at hlt
      omega
    have hheight : info.framebufferHeight ≠ 0 := by
      intro hz
      rw [hz] at hlt
      simp only [UInt32.toNat_zero, Nat.mul_zero] at hlt
      omega
    have hprod : info.framebufferPitch.toNat * info.framebufferHeight.toNat
        ≤ (2 ^ 32 - 1) * (2 ^ 32 - 1) := by
      have h₁ := info.framebufferPitch.toNat_lt
      have h₂ := info.framebufferHeight.toNat_lt
      exact Nat.mul_le_mul (by omega) (by omega)
    have hend : (info.framebufferAddr + info.framebufferPitch.toUInt64
          * info.framebufferHeight.toUInt64).toNat
        = info.framebufferAddr.toNat
          + info.framebufferPitch.toNat * info.framebufferHeight.toNat := by
      rw [UInt64.toNat_add, UInt64.toNat_mul, UInt32.toNat_toUInt64, UInt32.toNat_toUInt64]
      generalize info.framebufferPitch.toNat * info.framebufferHeight.toNat = n at hprod
      omega
    have hmem : (info.framebufferAddr.toNat, info.framebufferAddr.toNat
          + info.framebufferPitch.toNat * info.framebufferHeight.toNat)
        ∈ reservedRanges info kernelStart kernelEnd := by
      unfold reservedRanges
      simp only [List.mem_append]
      refine Or.inl (Or.inr ?_)
      rw [if_pos ⟨hc.1, hc.2, hpitch, hheight⟩, hend]
      exact List.mem_singleton_self _
    have hnear : info.framebufferAddr.toNat < 2 ^ 44 := by omega
    exact h.not_meets hmem hnear ⟨x, hge, hlt, hx⟩
  next =>
    rintro ⟨x, -, hlt, -⟩
    exact absurd hlt (Nat.not_lt_zero x)

theorem SoundMap.genuine (hs : SoundMap info memory kernelStart kernelEnd)
    (h : LeftOver info kernelStart kernelEnd f) :
    Genuine info memory kernelStart kernelEnd f where
  available := by
    obtain ⟨range, hmem, hrel⟩ := h.1
    by_cases hnear : range.1 ≤ 2 ^ 44 - 4096
    · exact h.available hmem hrel hnear
    · exact hs.far f h range hmem (Nat.lt_of_not_le hnear) hrel
  other_type := hs.apart f h
  low := h.not_meets mem_reservedRanges_low (show 0 < 2 ^ 44 by decide)
  kernel := by
    refine h.not_meets mem_reservedRanges_kernel ?_
    have := kernelStart.toNat_lt
    omega
  tables := by
    rintro table ht ⟨x, hge, hlt, hx⟩
    by_cases hfits : table.1 + table.2 < 2 ^ 32
    · exact h.not_meets (mem_reservedRanges_table ht (by omega) hfits)
        (show table.1 < 2 ^ 44 by omega) ⟨x, hge, hlt, hx⟩
    · have hbelow := hs.tables f h table ht (by omega)
      omega
  modules := by
    intro module hm
    refine h.not_meets (mem_reservedRanges_module hm (List.mem_cons_self ..)) ?_
    have := module.modStart.toNat_lt
    omega
  command_lines := by
    intro start hstart x hx hxf
    by_cases hpast : start + 256 ≤ x ∨ 2 ^ 32 ≤ start + 256
    · exact hs.strings f h start hstart x hx hpast hxf
    · have hge := hx.1
      exact h.not_meets (mem_reservedRanges_commandLine hstart (by omega))
        (show start < 2 ^ 44 by omega) ⟨x, hge, show x < start + 256 by omega, hxf⟩
  framebuffer := h.framebuffer

/-- A table that runs past 4 GiB meets every frame from its own on. -/
theorem below_of_not_meets {start length : Nat} (h : ¬Meets f start (start + length))
    (hwrap : 2 ^ 32 ≤ start + length) (hf : f < 0x100000) : f < start / 4096 := by
  by_contra hge
  apply h
  by_cases hin : start ≤ f * 4096
  · exact ⟨f * 4096, hin, by omega, by omega⟩
  · exact ⟨start, le_rfl, by omega, by omega⟩

theorem soundMap_of_genuine (h : ∀ f, LeftOver info kernelStart kernelEnd f →
    Genuine info memory kernelStart kernelEnd f) : SoundMap info memory kernelStart kernelEnd where
  far f hleft _ _ _ _ := (h f hleft).available
  apart f hleft := (h f hleft).other_type
  tables f hleft table ht hwrap := below_of_not_meets ((h f hleft).tables table ht) hwrap hleft.lt
  strings f hleft start hs x hx _ := (h f hleft).command_lines start hs x hx

end

/-- **Only genuinely free memory is handed out, exactly if the map is sound**: every frame
that palloc can return after `palloc_init` is available memory that nothing else lies in. -/
theorem handed_out_genuine_iff (info : MultibootInfo) (memory : Store)
    (kernelStart kernelEnd : UInt32) :
    (∀ f, (init info kernelStart kernelEnd).CanReturn f →
        Genuine info memory kernelStart kernelEnd f) ↔
      SoundMap info memory kernelStart kernelEnd := by
  have hfree : ∀ f, (init info kernelStart kernelEnd).CanReturn f ↔
      LeftOver info kernelStart kernelEnd f := by
    intro f
    rw [canReturn_iff (counted_ok (init_ok info kernelStart kernelEnd))
      (init_zero_used info kernelStart kernelEnd), init_free_iff]
  constructor
  · intro h
    exact soundMap_of_genuine fun f hleft => h f ((hfree f).mpr hleft)
  · intro h f hreturn
    exact h.genuine ((hfree f).mp hreturn)

/-- 64 KiB above the first megabyte, one page of which is also in a reserved entry, and
64 KiB at 16 TiB + 4 GiB - 64 KiB. -/
def overlappingInfo : MultibootInfo :=
  { smallInfo with
    flags := 0x40
    mmap := [⟨0x100000, 0x10000, 1⟩, ⟨0x108000, 0x1000, 2⟩, ⟨0x1000FFFF0000, 0x10000, 1⟩] }

/-- The reserved page is handed out, and so is the last page below 4 GiB, where there is no
memory. -/
theorem reserved_memory_handed_out :
    (init overlappingInfo 0x100000 0x101000).CanReturn 0x108 ∧
    ¬Genuine overlappingInfo (fun _ => 0) 0x100000 0x101000 0x108 ∧
    (init overlappingInfo 0x100000 0x101000).CanReturn 0xFFFFF ∧
    ¬Genuine overlappingInfo (fun _ => 0) 0x100000 0x101000 0xFFFFF := by
  have hreturn : ∀ f, (init overlappingInfo 0x100000 0x101000).frameIsUsed f = false →
      (init overlappingInfo 0x100000 0x101000).CanReturn f := by
    intro f
    exact (canReturn_iff (counted_ok (init_ok _ _ _)) (init_zero_used _ _ _)).mpr
  refine ⟨hreturn _ (by decide +kernel), ?_, hreturn _ (by decide +kernel), ?_⟩
  · intro h
    refine h.other_type ⟨0x108000, 0x1000, 2⟩ ?_ (by decide) ⟨0x108000, ?_⟩
    · exact List.mem_cons_of_mem _ (List.mem_cons_self ..)
    · decide
  · intro h
    obtain ⟨range, hmem, hin⟩ := h.available
    have hranges : availableRanges overlappingInfo
        = [(0x100000, 0x110000), (0x1000FFFF0000, 0x100100000000)] := by decide +kernel
    rw [hranges] at hmem
    simp only [List.mem_cons, List.not_mem_nil, or_false] at hmem
    unfold Inside at hin
    rcases hmem with rfl | rfl <;> omega

end Palloc

end Riverix.Memory
