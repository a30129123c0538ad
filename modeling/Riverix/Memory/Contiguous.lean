import Riverix.Memory.Frames

/-!
# Which runs of frames `palloc_alloc_pages` finds

The search for a run of frames is cut at `next_search_frame`: an upper scan looks for a
run that starts at the hint or above it, a lower scan for one that ends at the hint or
below it. Each scan is complete on its side (`searchRun_none`), and it takes the lowest run
there is (`searchRun_some_least`). Between the two a run is lost: one that has the hint in
its middle. Freeing a frame moves the hint down onto that frame, and the frame below may be
free already, so such runs do arise.

The bookkeeping needs the bits only. A 16-bit reference count can wrap, so `Ok` does not
hold of every run; `counted` forgets the counts, and `Ok` of what is left does
(`run_counted`). **`allocPages_complete_iff`** then says exactly when a result of 0 means
that there is no run.
-/

namespace Riverix.Memory

open Riverix.Lib

namespace Palloc

variable {p p' : Palloc} {f g a start count limit : Nat}

/-! ## The allocator without its reference counts -/

/-- Every used frame counted once. -/
def counted (p : Palloc) : Palloc :=
  { p with frameRefcounts := fun f => if p.frameIsUsed f then 1 else 0 }

theorem counted_ok (h : p.Ok) : p.counted.Ok := by
  have hzero : ∀ f, (if p.frameIsUsed f then 1 else 0) = 0 ↔ p.frameRefcounts f = 0 := by
    intro f
    have hbit := h.bit_iff f
    cases hu : p.frameIsUsed f with
    | false =>
      rw [hu] at hbit
      have hz : p.frameRefcounts f = 0 := by
        by_contra hne
        exact absurd (hbit.mpr hne) (by simp)
      simp [hz]
    | true => simp [hbit.mp hu]
  refine ⟨?_, ?_, h.limit, ?_⟩
  · intro f
    show p.frameIsUsed f = true ↔ (if p.frameIsUsed f then 1 else 0) ≠ 0
    cases p.frameIsUsed f <;> simp
  · intro f hf
    show (if p.frameIsUsed f then 1 else 0) ≠ 0
    rw [Ne, hzero f]
    exact h.beyond f hf
  · show p.freeFrames = p.counted.freeSet.card
    rw [h.free_eq]
    refine congrArg Finset.card (Finset.ext fun f => ?_)
    rw [mem_freeSet, mem_freeSet]
    exact and_congr_right fun _ => (hzero f).symm

/-- Two allocators with the same counts in front of the same fields are equal. -/
theorem eq_of_refcounts {q : Palloc} (hc : p.frameRefcounts = q.frameRefcounts)
    (hrest : { p with frameRefcounts := q.frameRefcounts } = q) : p = q := by
  rw [← hrest, ← hc]

theorem counted_takeFrame (f : Nat) : (p.takeFrame f).1.counted = (p.counted.takeFrame f).1 := by
  refine eq_of_refcounts (funext fun g => ?_) rfl
  show (if (p.frameBitmap.mark f).test g then 1 else 0)
    = Function.update (fun g => if p.frameIsUsed g then 1 else 0) f 1 g
  rw [Bitmap.test_mark (by decide), Function.update_apply]
  by_cases hg : g = f
  · simp [hg]
  · simp only [hg, decide_false, Bool.false_or, if_false]
    rfl

theorem counted_takeRun (start count : Nat) :
    (p.takeRun start count).1.counted = (p.counted.takeRun start count).1 := by
  refine eq_of_refcounts (funext fun g => ?_) rfl
  show (if (p.frameBitmap.markRange start count).test g then 1 else 0)
    = if start ≤ g ∧ g < start + count then 1 else if p.frameIsUsed g then 1 else 0
  rw [Bitmap.test_markRange (by decide)]
  by_cases hg : start ≤ g ∧ g < start + count
  · simp [hg]
  · simp only [hg, decide_false, Bool.false_or, if_false]
    rfl

theorem counted_allocPages_ok (h : p.counted.Ok) (count : Nat) :
    (p.allocPages count).1.counted.Ok := by
  by_cases hc : count = 1
  · have he : p.allocPages count = p.allocPage := by rw [hc]; rfl
    rw [he]
    rcases allocPage_cases p with hcase | ⟨f, hf, hcase⟩
    · rw [hcase]
      exact h
    · rw [hcase, counted_takeFrame]
      exact takeFrame_ok h hf
  rcases allocPages_cases p hc with hcase | ⟨start, hfree, hcase⟩
  · rw [hcase]
    exact h
  · rw [hcase, counted_takeRun]
    exact takeRun_ok h hfree

theorem counted_retainPage (a : Nat) : (p.retainPage a).1.counted = p.counted := by
  unfold retainPage
  split <;> rfl

theorem liveFrame_used (h : p.liveFrame a = some f) : p.frameIsUsed f = true := by
  unfold liveFrame at h
  split at h
  · simp at h
  split at h
  · simp at h
  split at h
  · simp at h
  next hlive =>
  rw [Option.some.injEq] at h
  rw [h] at hlive
  by_contra hu
  exact hlive (by simp [hu])

/-- A freed page drops a count or clears the bit of a used frame. -/
theorem counted_freePage (h : p.counted.Ok) (a : Nat) :
    (p.freePage a).counted = p.counted ∨
      ∃ f, p.frameIsUsed f = true ∧ f < p.firstUnusableFrame ∧
        (p.freePage a).counted = p.counted.freePage (f * 4096) := by
  cases hl : p.liveFrame a with
  | none =>
    left
    unfold freePage
    rw [hl]
  | some f =>
    obtain ⟨-, hlt, hr⟩ := liveFrame_some hl
    have hused := liveFrame_used hl
    by_cases hlast : p.frameRefcounts f - 1 = 0
    · right
      refine ⟨f, hused, hlt, ?_⟩
      have hlive : p.counted.liveFrame (f * 4096) = some f :=
        liveFrame_eq h hlt ((h.bit_iff f).mp hused)
      have hc : p.counted.frameRefcounts f = 1 := if_pos hused
      unfold freePage
      rw [hl, hlive]
      simp only [Function.update_self, hlast, hc, Nat.sub_self, ne_eq, not_true_eq_false, if_false]
      refine eq_of_refcounts (funext fun g => ?_) rfl
      show (if (p.frameBitmap.clear f).test g then 1 else 0)
        = Function.update (fun g => if p.frameIsUsed g then 1 else 0) f 0 g
      rw [Bitmap.test_clear (by decide), Function.update_apply]
      by_cases hg : g = f
      · simp [hg]
      · simp only [hg, decide_false, Bool.not_false, Bool.true_and, if_false]
        rfl
    left
    unfold freePage
    rw [hl]
    simp only [Function.update_self]
    rw [if_pos hlast]
    rfl

theorem counted_freePage_ok (h : p.counted.Ok) (a : Nat) : (p.freePage a).counted.Ok := by
  rcases counted_freePage h a with he | ⟨f, hused, hlt, he⟩
  · rw [he]
    exact h
  · rw [he]
    exact (freePage_spec h hlt ((h.bit_iff f).mp hused)).1

theorem counted_freePagesRange_ok (h : p.counted.Ok) (a count : Nat) :
    (p.freePagesRange a count).counted.Ok := by
  unfold freePagesRange
  split
  · exact h
  · induction List.range count generalizing p with
    | nil => exact h
    | cons index indices ih => exact ih (counted_freePage_ok h _)

theorem counted_step_ok (h : p.counted.Ok) (call : Call) : (p.step call).counted.Ok := by
  cases call with
  | allocPage => exact counted_allocPages_ok h 1
  | allocPages pageCount => exact counted_allocPages_ok h _
  | retainPage physicalAddress =>
    show (p.retainPage physicalAddress.toNat).1.counted.Ok
    rw [counted_retainPage]
    exact h
  | freePage physicalAddress => exact counted_freePage_ok h _
  | freePagesRange physicalAddress pageCount => exact counted_freePagesRange_ok h _ _

/-- The bits and the free counter agree after any calls, even if a count has wrapped. -/
theorem run_counted (info : MultibootInfo) (kernelStart kernelEnd : UInt32) (calls : List Call) :
    (run step (init info kernelStart kernelEnd) calls).counted.Ok :=
  run_invariant (I := fun p : Palloc => p.counted.Ok) (fun _ call h => counted_step_ok h call) calls
    (counted_ok (init_ok info kernelStart kernelEnd))

/-! ## The two scans -/

theorem firstUsed_some (h : p.firstUsed start count = some f) :
    start ≤ f ∧ f < start + count ∧ p.frameIsUsed f = true := by
  have hmem := List.mem_of_find?_eq_some h
  rw [List.mem_range'_1] at hmem
  exact ⟨hmem.1, hmem.2, List.find?_some h⟩

/-- A run that starts at or before a used frame of the window holds that frame. -/
theorem RunFree.after_used (hrun : p.RunFree g count) (hused : p.firstUsed start count = some f)
    (hg : start ≤ g) : f < g := by
  obtain ⟨hsf, hlt, hu⟩ := firstUsed_some hused
  by_contra hle
  have hfree := hrun f (by omega) (by omega)
  rw [hu] at hfree
  simp at hfree

/-- A scan that finds nothing has passed over no run. -/
theorem searchRun_none (h : p.searchRun count start limit = none) (hs : start ≤ g)
    (hl : g ≤ limit) :
    ¬p.RunFree g count := by
  fun_induction searchRun p count start limit with
  | case1 start hle hnone => simp at h
  | case2 start hle frame hsome ih =>
    intro hrun
    exact ih h (hrun.after_used hsome hs) hrun
  | case3 start hgt => omega

/-- A scan takes the lowest run it can. -/
theorem searchRun_some_least (h : p.searchRun count start limit = some f) :
    start ≤ f ∧ ∀ g, start ≤ g → g < f → ¬p.RunFree g count := by
  fun_induction searchRun p count start limit with
  | case1 start hle hnone =>
    rw [Option.some.injEq] at h
    rw [← h]
    exact ⟨le_rfl, fun g hs hg => by omega⟩
  | case2 start hle frame hsome ih =>
    obtain ⟨hge, hleast⟩ := ih h
    have hsf := firstUsed_ge hsome
    refine ⟨by omega, fun g hs hg hrun => ?_⟩
    exact hleast g (hrun.after_used hsome hs) hg hrun
  | case3 start hgt => simp at h

theorem runFree_one : p.RunFree f 1 ↔ p.frameIsUsed f = false := by
  constructor
  · intro h
    exact h f le_rfl (by omega)
  · intro h g hge hlt
    rw [show g = f by omega]
    exact h

/-- The scans of `palloc_alloc_page` are those for a run of one frame. -/
theorem searchFrame_eq_searchRun (p : Palloc) (start limit : Nat) :
    p.searchFrame start (limit + 1) = p.searchRun 1 start limit := by
  fun_induction searchRun p 1 start limit with
  | case1 start hle hnone =>
    unfold searchFrame
    rw [show limit + 1 - start = (limit - start) + 1 by omega, List.range'_succ, List.find?_cons]
    rw [firstUsed_none hnone le_rfl (by omega)]
    rfl
  | case2 start hle frame hsome ih =>
    obtain ⟨hsf, hlt, hu⟩ := firstUsed_some hsome
    have hfs : frame = start := by omega
    rw [← ih, hfs]
    unfold searchFrame
    rw [show limit + 1 - start = (limit - start) + 1 by omega, List.range'_succ, List.find?_cons]
    rw [hfs] at hu
    rw [hu, show limit + 1 - (start + 1) = limit - start by omega]
    rfl
  | case3 start hgt =>
    unfold searchFrame
    rw [show limit + 1 - start = 0 by omega]
    rfl

/-! ## What the allocation takes -/

/-- A run of `count` free frames among the managed ones. -/
def FreeRun (p : Palloc) (start count : Nat) : Prop :=
  start + count ≤ p.firstUnusableFrame ∧ p.RunFree start count

/-- Frames that are free are managed, so a free run lies below `first_unusable_frame`. -/
theorem RunFree.freeRun (hrun : p.RunFree start count) (h : p.counted.Ok) (hc : count ≠ 0) :
    p.FreeRun start count := by
  have hlast : p.counted.frameIsUsed (start + count - 1) = false :=
    hrun (start + count - 1) (by omega) (by omega)
  have hlt : start + count - 1 < p.firstUnusableFrame := (h.free_of_not_used hlast).1
  exact ⟨by omega, hrun⟩

/-- A run has no more frames than are free. -/
theorem FreeRun.count_le (hrun : p.FreeRun start count) (h : p.counted.Ok) :
    count ≤ p.freeFrames := by
  have hsub : Finset.Ico start (start + count) ⊆ p.counted.freeSet := by
    intro f hf
    rw [Finset.mem_Ico] at hf
    have hfree : p.counted.frameIsUsed f = false := hrun.2 f hf.1 hf.2
    exact mem_freeSet.mpr (h.free_of_not_used hfree)
  have hcard := Finset.card_le_card hsub
  rw [Nat.card_Ico, ← h.free_eq] at hcard
  have hfree : p.counted.freeFrames = p.freeFrames := rfl
  omega

/-- The run that the search takes: the lowest one at or above the hint, or else the lowest
one below it. -/
def Picked (p : Palloc) (count start : Nat) : Prop :=
  p.FreeRun start count ∧
    ((p.nextSearchFrame ≤ start ∧
        ∀ g, p.nextSearchFrame ≤ g → g < start → ¬p.FreeRun g count) ∨
      (start + count ≤ p.nextSearchFrame ∧
        (∀ g, p.nextSearchFrame ≤ g → ¬p.FreeRun g count) ∧ ∀ g, g < start → ¬p.FreeRun g count))

/-- Neither scan has a run on its side. -/
def NoneInReach (p : Palloc) (count : Nat) : Prop :=
  (∀ g, p.nextSearchFrame ≤ g → ¬p.FreeRun g count) ∧
    ∀ g, g + count ≤ p.nextSearchFrame → ¬p.FreeRun g count

theorem upperScan_some
    (hs : p.searchRun count p.nextSearchFrame (p.firstUnusableFrame - count) = some start)
    (hle : count ≤ p.firstUnusableFrame) : p.Picked count start := by
  obtain ⟨hlim, hfree⟩ := searchRun_some hs
  obtain ⟨hge, hleast⟩ := searchRun_some_least hs
  exact ⟨⟨by omega, fun f => firstUsed_none hfree⟩,
    Or.inl ⟨hge, fun g hg hlt hrun => hleast g hg hlt hrun.2⟩⟩

theorem upperScan_none
    (hs : p.searchRun count p.nextSearchFrame (p.firstUnusableFrame - count) = none)
    (hg : p.nextSearchFrame ≤ g) : ¬p.FreeRun g count := by
  intro hrun
  have hle := hrun.1
  exact searchRun_none hs hg (by omega) hrun.2

theorem lowerScan_some (h : p.counted.Ok) (hc : count ≠ 0) (hle : count ≤ p.nextSearchFrame)
    (hup : ∀ g, p.nextSearchFrame ≤ g → ¬p.FreeRun g count)
    (hs : p.searchRun count 0 (p.nextSearchFrame - count) = some start) : p.Picked count start := by
  obtain ⟨hlim, hfree⟩ := searchRun_some hs
  obtain ⟨-, hleast⟩ := searchRun_some_least hs
  have hrun : p.RunFree start count := fun f => firstUsed_none hfree
  exact ⟨hrun.freeRun h hc,
    Or.inr ⟨by omega, hup, fun g hlt hg => hleast g (Nat.zero_le g) hlt hg.2⟩⟩

theorem lowerScan_none (hs : p.searchRun count 0 (p.nextSearchFrame - count) = none)
    (hg : g + count ≤ p.nextSearchFrame) : ¬p.FreeRun g count :=
  fun hrun => searchRun_none hs (Nat.zero_le g) (by omega) hrun.2

/-- One frame is searched for as a run of one. -/
theorem allocPage_result (h : p.counted.Ok) :
    (∃ start, p.Picked 1 start ∧ p.allocPage.2 = start * 4096) ∨
      (p.NoneInReach 1 ∧ p.allocPage.2 = 0) := by
  unfold allocPage
  have hupper : p.searchFrame p.nextSearchFrame p.firstUnusableFrame
      = if p.firstUnusableFrame = 0 then none
        else p.searchRun 1 p.nextSearchFrame (p.firstUnusableFrame - 1) := by
    split
    next h0 =>
      unfold searchFrame
      rw [h0, Nat.zero_sub]
      rfl
    next h0 =>
      have hpred : p.firstUnusableFrame - 1 + 1 = p.firstUnusableFrame := by omega
      rw [← searchFrame_eq_searchRun, hpred]
  have hlower : p.searchFrame 0 p.nextSearchFrame
      = if p.nextSearchFrame = 0 then none else p.searchRun 1 0 (p.nextSearchFrame - 1) := by
    split
    next h0 =>
      rw [h0]
      rfl
    next h0 =>
      have hpred : p.nextSearchFrame - 1 + 1 = p.nextSearchFrame := by omega
      rw [← searchFrame_eq_searchRun, hpred]
  rw [hupper, hlower]
  split
  next start hs =>
    left
    split at hs
    · simp at hs
    next h0 => exact ⟨start, upperScan_some hs (by omega), rfl⟩
  next hs =>
  have hup : ∀ g, p.nextSearchFrame ≤ g → ¬p.FreeRun g 1 := by
    intro g hg hrun
    have hle := hrun.1
    rw [if_neg (by omega)] at hs
    exact upperScan_none hs hg hrun
  split
  next start hl =>
    left
    split at hl
    · simp at hl
    next h0 => exact ⟨start, lowerScan_some h Nat.one_ne_zero (by omega) hup hl, rfl⟩
  next hl =>
  right
  refine ⟨⟨hup, fun g hg hrun => ?_⟩, rfl⟩
  rw [if_neg (by omega)] at hl
  exact lowerScan_none hl hg hrun

/-- **What `palloc_alloc_pages` returns**: the run it picks, or 0 if neither side of the
hint has one. -/
theorem allocPages_result (h : p.counted.Ok) (hc : count ≠ 0) :
    (∃ start, p.Picked count start ∧ (p.allocPages count).2 = start * 4096) ∨
      (p.NoneInReach count ∧ (p.allocPages count).2 = 0) := by
  unfold allocPages
  rw [if_neg hc]
  split
  next h1 =>
    rw [h1]
    exact allocPage_result h
  split
  next hbig =>
    -- the two early exits are right: there is no run at all
    have hno : ∀ g, ¬p.FreeRun g count := by
      intro g hrun
      have hfree := hrun.count_le h
      have hfirst := hrun.1
      omega
    exact Or.inr ⟨⟨fun g _ => hno g, fun g _ => hno g⟩, rfl⟩
  next hbig =>
  split
  next start hs => exact Or.inl ⟨start, upperScan_some hs (by omega), rfl⟩
  next hs =>
  have hup : ∀ g, p.nextSearchFrame ≤ g → ¬p.FreeRun g count := fun g hg => upperScan_none hs hg
  split
  next hle =>
    split
    next start hl => exact Or.inl ⟨start, lowerScan_some h hc hle hup hl, rfl⟩
    next hl => exact Or.inr ⟨⟨hup, fun g hg => lowerScan_none hl hg⟩, rfl⟩
  next hle =>
    refine Or.inr ⟨⟨hup, fun g hg => ?_⟩, rfl⟩
    omega

/-! ## When a result of 0 means that there is no run -/

/-- If there is a run at all, there is one on one side of the hint. -/
def RunInReach (p : Palloc) (count : Nat) : Prop :=
  (∃ start, p.FreeRun start count) →
    ∃ start, p.FreeRun start count ∧
      (p.nextSearchFrame ≤ start ∨ start + count ≤ p.nextSearchFrame)

/-- Frame 0, which `palloc_init` holds, has been given back and starts the run that is
taken: its address is the value that reports failure. -/
def TakesFrameZero (p : Palloc) (count : Nat) : Prop :=
  p.FreeRun 0 count ∧ (p.nextSearchFrame = 0 ∨
    (count ≤ p.nextSearchFrame ∧ ∀ start, p.nextSearchFrame ≤ start → ¬p.FreeRun start count))

theorem picked_zero : p.Picked count 0 ↔ p.TakesFrameZero count := by
  constructor
  · rintro ⟨hrun, ⟨hn, -⟩ | ⟨hle, hup, -⟩⟩
    · exact ⟨hrun, Or.inl (by omega)⟩
    · exact ⟨hrun, Or.inr ⟨by omega, hup⟩⟩
  · rintro ⟨hrun, hn | ⟨hle, hup⟩⟩
    · exact ⟨hrun, Or.inl ⟨by omega, fun g _ hg => absurd hg (Nat.not_lt_zero g)⟩⟩
    · exact ⟨hrun, Or.inr ⟨by omega, hup, fun g hg => absurd hg (Nat.not_lt_zero g)⟩⟩

/-- The two scans take one run only. -/
theorem Picked.unique {g : Nat} (hf : p.Picked count f) (hg : p.Picked count g) : f = g := by
  obtain ⟨hrf, ⟨hf₁, hf₂⟩ | ⟨hf₁, hf₂, hf₃⟩⟩ := hf
  · obtain ⟨hrg, ⟨hg₁, hg₂⟩ | ⟨-, hg₂, -⟩⟩ := hg
    · by_contra hne
      rcases Nat.lt_or_gt_of_ne hne with hlt | hlt
      · exact hg₂ f hf₁ hlt hrf
      · exact hf₂ g hg₁ hlt hrg
    · exact absurd hrf (hg₂ f hf₁)
  obtain ⟨hrg, ⟨hg₁, -⟩ | ⟨-, -, hg₃⟩⟩ := hg
  · exact absurd hrg (hf₂ g hg₁)
  · by_contra hne
    rcases Nat.lt_or_gt_of_ne hne with hlt | hlt
    · exact hg₃ f hlt hrf
    · exact hf₃ g hlt hrg

/-- **A result of 0 means that no run is free exactly if the hint splits no run that is
needed** and frame 0 is not the run taken, in every state that calls of the allocator
reach. -/
theorem allocPages_complete_iff (info : MultibootInfo) (kernelStart kernelEnd : UInt32)
    (calls : List Call) (pageCount : UInt32) (hcount : 1 ≤ pageCount.toNat) :
    let p := run step (init info kernelStart kernelEnd) calls
    ((p.allocPages pageCount.toNat).2 = 0 → ¬∃ start, p.FreeRun start pageCount.toNat) ↔
      p.RunInReach pageCount.toNat ∧ ¬p.TakesFrameZero pageCount.toNat := by
  intro p
  have h : p.counted.Ok := run_counted info kernelStart kernelEnd calls
  rcases allocPages_result h (Nat.one_le_iff_ne_zero.mp hcount) with
    ⟨start, hpick, hres⟩ | ⟨hnone, hres⟩
  · -- a run is taken: the answer misleads only if it is the run at frame 0
    rw [hres]
    have hreach : p.RunInReach pageCount.toNat := by
      intro _
      refine ⟨start, hpick.1, ?_⟩
      rcases hpick.2 with ⟨hge, -⟩ | ⟨hle, -⟩
      · exact Or.inl hge
      · exact Or.inr hle
    rw [← picked_zero]
    constructor
    · intro hno
      refine ⟨hreach, fun hzero => ?_⟩
      have hs : start = 0 := hpick.unique hzero
      exact hno (by rw [hs]) ⟨start, hpick.1⟩
    · rintro ⟨-, hzero⟩ hs
      have hs : start = 0 := by omega
      rw [hs] at hpick
      exact absurd hpick hzero
  · -- none is taken: the answer misleads if a run lies across the hint
    rw [hres]
    constructor
    · intro hno
      refine ⟨fun hrun => absurd hrun (hno rfl), fun hzero => ?_⟩
      exact hno rfl ⟨0, hzero.1⟩
    · rintro ⟨hreach, -⟩ - hrun
      obtain ⟨start, hfree, hge | hle⟩ := hreach hrun
      · exact hnone.1 start hge hfree
      · exact hnone.2 start hle hfree

/-- On the small machine: the two pages at 0x101000 are the only free ones, and the hint
stands between them. -/
def splitRun : List Call :=
  [.allocPage, .allocPage, .allocPage, .freePage 0x101000, .allocPages 2, .allocPages 10,
    .freePage 0x102000]

theorem allocPages_misses_run :
    let p := run step (init smallInfo 0x100000 0x101000) splitRun
    (p.allocPages 2).2 = 0 ∧ p.FreeRun 257 2 := by
  refine ⟨by decide +kernel, by decide +kernel, ?_⟩
  intro f hge hlt
  have hf : f = 257 ∨ f = 258 := by omega
  rcases hf with rfl | rfl <;> decide +kernel

/-- The hint stands behind the kernel image and two pages; a page before it is free again, and
ten pages are taken behind it. -/
theorem allocPages_complete_iff_small :
    let p := run step (init smallInfo 0x100000 0x101000) [.allocPage, .allocPage,
      .freePage 0x101000]
    (p.allocPages 10).2 = 0x103000 ∧
      (((p.allocPages 10).2 = 0 → ¬∃ start, p.FreeRun start 10) ↔
        p.RunInReach 10 ∧ ¬p.TakesFrameZero 10) :=
  ⟨by decide +kernel, allocPages_complete_iff smallInfo 0x100000 0x101000 _ 10 (by decide)⟩

end Palloc

end Riverix.Memory
