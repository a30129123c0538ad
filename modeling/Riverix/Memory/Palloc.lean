import Riverix.Lib.Bitmap
import Mathlib.Order.Interval.Finset.Nat

/-!
# The physical page allocator (`palloc.c`)

One bit and one 16-bit reference count for each 4 KiB frame. A frame is handed
out by the first-fit search from `next_search_frame` (wrapping once around),
shared by `palloc_retain_page` and given back by `palloc_free_page`, which
returns it to the free set when the count reaches zero.

`Palloc.Ok` is the allocator's invariant, and each operation has one spec lemma
over it: `allocPage_some`, `retainPage_spec`, `freePage_spec`. Nothing above
this file looks at the bitmap words again.
-/

namespace Riverix.Memory

open Riverix.Lib

/-- `MAX_PAGE_FRAMES`; a frame is `PAGE_SIZE` = 4096 bytes throughout. -/
def maxPageFrames : Nat := 1048576

/-- The statics of `palloc.c`. -/
structure Palloc where
  frameBitmap : Bitmap 32
  frameRefcounts : Nat → Nat
  firstUnusableFrame : Nat
  totalUsableFrames : Nat
  freeFrames : Nat
  nextSearchFrame : Nat

namespace Palloc

variable {p p' : Palloc} {f g a : Nat}

def frameIsUsed (p : Palloc) (frame : Nat) : Bool := p.frameBitmap.test frame

def markFrameUsed (p : Palloc) (frame : Nat) : Palloc :=
  { p with frameBitmap := p.frameBitmap.mark frame }

def markFrameFree (p : Palloc) (frame : Nat) : Palloc :=
  { p with frameBitmap := p.frameBitmap.clear frame }

/-- The body shared by the two search loops of `palloc_alloc_page`. -/
def takeFrame (p : Palloc) (frame : Nat) : Palloc × Nat :=
  ({ p.markFrameUsed frame with
      frameRefcounts := Function.update p.frameRefcounts frame 1
      freeFrames := (p.freeFrames + 0xFFFFFFFF) % 2 ^ 32
      nextSearchFrame := frame + 1 },
    frame * 4096)

/-- The first free frame at or after `start`, below `limit`. -/
def searchFrame (p : Palloc) (start limit : Nat) : Option Nat :=
  (List.range' start (limit - start)).find? fun frame => !p.frameIsUsed frame

/-- `palloc_alloc_page`: 0 when no frame is free. -/
def allocPage (p : Palloc) : Palloc × Nat :=
  match p.searchFrame p.nextSearchFrame p.firstUnusableFrame with
  | some frame => p.takeFrame frame
  | none =>
    match p.searchFrame 0 p.nextSearchFrame with
    | some frame => p.takeFrame frame
    | none => (p, 0)

/-- The frame number of a physical address that names a managed, used frame:
the checks that `palloc_retain_page` and `palloc_free_page` start with. -/
def liveFrame (p : Palloc) (physicalAddress : Nat) : Option Nat :=
  if physicalAddress % 4096 ≠ 0 then none
  else if physicalAddress / 4096 ≥ p.firstUnusableFrame then none
  else if !p.frameIsUsed (physicalAddress / 4096)
      || p.frameRefcounts (physicalAddress / 4096) = 0 then none
  else some (physicalAddress / 4096)

/-- `palloc_retain_page`: `false` is the return value -1. -/
def retainPage (p : Palloc) (physicalAddress : Nat) : Palloc × Bool :=
  match p.liveFrame physicalAddress with
  | none => (p, false)
  | some frame =>
    ({ p with
        frameRefcounts :=
          Function.update p.frameRefcounts frame ((p.frameRefcounts frame + 1) % 65536) }, true)

/-- `palloc_free_page` -/
def freePage (p : Palloc) (physicalAddress : Nat) : Palloc :=
  match p.liveFrame physicalAddress with
  | none => p
  | some frame =>
    let p := { p with
      frameRefcounts := Function.update p.frameRefcounts frame (p.frameRefcounts frame - 1) }
    if p.frameRefcounts frame ≠ 0 then p
    else
      { p.markFrameFree frame with
        freeFrames := (p.freeFrames + 1) % 2 ^ 32
        nextSearchFrame := if frame < p.nextSearchFrame then frame else p.nextSearchFrame }

/-- `palloc_page_refcount` -/
def pageRefcount (p : Palloc) (physicalAddress : Nat) : Nat :=
  if physicalAddress % 4096 ≠ 0 then 0
  else if physicalAddress / 4096 ≥ p.firstUnusableFrame
      || !p.frameIsUsed (physicalAddress / 4096) then 0
  else p.frameRefcounts (physicalAddress / 4096)

/-! ## The allocator invariant -/

/-- The free frames: the managed ones nobody holds a reference to. -/
def freeSet (p : Palloc) : Finset Nat :=
  (Finset.range p.firstUnusableFrame).filter fun f => p.frameRefcounts f = 0

/-- The bit of a frame is set exactly while it is referenced, every frame past
the last managed one is held for good, and `free_frames` counts the free set. -/
structure Ok (p : Palloc) : Prop where
  bit_iff : ∀ f, p.frameIsUsed f = true ↔ p.frameRefcounts f ≠ 0
  beyond : ∀ f, p.firstUnusableFrame ≤ f → p.frameRefcounts f ≠ 0
  limit : p.firstUnusableFrame ≤ maxPageFrames
  free_eq : p.freeFrames = p.freeSet.card

theorem mem_freeSet : f ∈ p.freeSet ↔ f < p.firstUnusableFrame ∧ p.frameRefcounts f = 0 := by
  simp [freeSet]

theorem searchFrame_some {start limit : Nat} (h : p.searchFrame start limit = some f) :
    p.frameIsUsed f = false := by
  have := List.find?_some h
  simpa using this

theorem Ok.free_of_not_used (h : p.Ok) (hf : p.frameIsUsed f = false) :
    f < p.firstUnusableFrame ∧ p.frameRefcounts f = 0 := by
  have hz : p.frameRefcounts f = 0 := by
    by_contra hne
    rw [(h.bit_iff f).mpr hne] at hf
    simp at hf
  refine ⟨?_, hz⟩
  by_contra hge
  exact h.beyond f (Nat.not_lt.mp hge) hz

theorem Ok.freeFrames_lt (h : p.Ok) : p.freeFrames < 2 ^ 32 := by
  rw [h.free_eq]
  have hle : p.freeSet.card ≤ p.firstUnusableFrame :=
    (Finset.card_filter_le _ _).trans_eq (Finset.card_range _)
  have hlim := h.limit
  unfold maxPageFrames at hlim
  omega

/-- Taking a free frame keeps the invariant. -/
theorem takeFrame_ok (h : p.Ok) (hf : p.frameIsUsed f = false) : (p.takeFrame f).1.Ok := by
  obtain ⟨hlt, hz⟩ := h.free_of_not_used hf
  have hcard := h.freeFrames_lt
  refine ⟨?_, ?_, h.limit, ?_⟩
  · intro g
    show (p.frameBitmap.mark f).test g = true ↔ Function.update p.frameRefcounts f 1 g ≠ 0
    rw [Bitmap.test_mark (by decide)]
    by_cases hg : g = f
    · subst hg; simp
    · have := h.bit_iff g
      simp only [hg, decide_false, Bool.false_or, Function.update_of_ne hg]
      exact this
  · intro g hg
    show Function.update p.frameRefcounts f 1 g ≠ 0
    have hne : g ≠ f := by
      intro he
      subst he
      exact absurd hlt (Nat.not_lt.mpr hg)
    rw [Function.update_of_ne hne]
    exact h.beyond g hg
  have hmem : f ∈ p.freeSet := mem_freeSet.mpr ⟨hlt, hz⟩
  have hset : (p.takeFrame f).1.freeSet = p.freeSet.erase f := by
    ext g
    rw [Finset.mem_erase, mem_freeSet, mem_freeSet]
    show g < p.firstUnusableFrame ∧ Function.update p.frameRefcounts f 1 g = 0 ↔ _
    by_cases hg : g = f
    · subst hg; simp
    · simp [hg]
  rw [hset, Finset.card_erase_of_mem hmem, ← h.free_eq]
  show (p.freeFrames + 0xFFFFFFFF) % 2 ^ 32 = p.freeFrames - 1
  have hpos : 0 < p.freeFrames := by
    rw [h.free_eq]
    exact Finset.card_pos.mpr ⟨f, hmem⟩
  omega

/-- What `palloc_alloc_page` can do: fail and change nothing, or hand out a
frame that was free. -/
theorem allocPage_cases (p : Palloc) :
    p.allocPage = (p, 0) ∨ ∃ f, p.frameIsUsed f = false ∧ p.allocPage = p.takeFrame f := by
  unfold allocPage
  split
  next f hs => exact Or.inr ⟨f, searchFrame_some hs, rfl⟩
  next =>
    split
    next f hs => exact Or.inr ⟨f, searchFrame_some hs, rfl⟩
    · exact Or.inl rfl

/-- `p'` is `p` with the free frame `f` handed out. -/
structure Taken (p p' : Palloc) (f : Nat) : Prop where
  ne_zero : f ≠ 0
  lt : f < p.firstUnusableFrame
  was_free : p.frameRefcounts f = 0
  ok : p'.Ok
  refcounts : p'.frameRefcounts = Function.update p.frameRefcounts f 1
  first : p'.firstUnusableFrame = p.firstUnusableFrame

/-- The spec of a successful allocation: a frame with no references gets its
first one. -/
theorem allocPage_some (h : p.Ok) (ha : p.allocPage = (p', a)) (hne : a ≠ 0) :
    ∃ f, a = f * 4096 ∧ Taken p p' f := by
  rcases allocPage_cases p with hc | ⟨f, hf, hc⟩
  · rw [hc] at ha
    exact absurd (Prod.mk.inj ha).2.symm hne
  obtain ⟨hlt, hz⟩ := h.free_of_not_used hf
  rw [hc] at ha
  obtain ⟨hp, hav⟩ := Prod.mk.inj ha
  subst hp
  have hav : a = f * 4096 := hav.symm
  refine ⟨f, hav, ?_, hlt, hz, takeFrame_ok h hf, rfl, rfl⟩
  intro hf0
  rw [hf0, Nat.zero_mul] at hav
  exact hne hav

theorem Ok.frame_lt (h : p.Ok) (hf : f < p.firstUnusableFrame) : f < 2 ^ 20 :=
  Nat.lt_of_lt_of_le hf h.limit

/-- A failed allocation changes nothing, unless frame 0 itself was free (the
address 0 is how failure is reported). -/
theorem allocPage_none (h : p.Ok) (h0 : p.frameRefcounts 0 ≠ 0) (ha : p.allocPage = (p', 0)) :
    p' = p := by
  rcases allocPage_cases p with hc | ⟨f, hf, hc⟩
  · rw [hc] at ha
    exact (Prod.mk.inj ha).1.symm
  exfalso
  rw [hc] at ha
  have hav : f * 4096 = 0 := (Prod.mk.inj ha).2
  have hf0 : f = 0 := by omega
  subst hf0
  exact h0 (h.free_of_not_used hf).2

/-- The frame checks pass exactly for managed frames with a reference. -/
theorem liveFrame_eq (h : p.Ok) (hf : f < p.firstUnusableFrame) (hr : p.frameRefcounts f ≠ 0) :
    p.liveFrame (f * 4096) = some f := by
  have hm : f * 4096 % 4096 = 0 := Nat.mul_mod_left f 4096
  have hd : f * 4096 / 4096 = f := Nat.mul_div_cancel f (by decide)
  unfold liveFrame
  rw [if_neg (by rw [hm]; simp), hd, if_neg (Nat.not_le.mpr hf), (h.bit_iff f).mpr hr, if_neg]
  simp [hr]

/-- Retaining a referenced frame adds one reference. -/
theorem retainPage_spec (h : p.Ok) (hf : f < p.firstUnusableFrame)
    (hr : p.frameRefcounts f ≠ 0) (hmax : p.frameRefcounts f < 65535) :
    ∃ p', p.retainPage (f * 4096) = (p', true) ∧ p'.Ok ∧
      p'.frameRefcounts = Function.update p.frameRefcounts f (p.frameRefcounts f + 1) ∧
      p'.firstUnusableFrame = p.firstUnusableFrame ∧ p'.freeFrames = p.freeFrames := by
  unfold retainPage
  rw [liveFrame_eq h hf hr]
  have hmod : (p.frameRefcounts f + 1) % 65536 = p.frameRefcounts f + 1 := by omega
  refine ⟨_, rfl, ⟨?_, ?_, h.limit, ?_⟩, by rw [hmod], rfl, rfl⟩
  · intro g
    show p.frameIsUsed g = true ↔ Function.update p.frameRefcounts f _ g ≠ 0
    by_cases hg : g = f
    · subst hg
      rw [Function.update_self, hmod]
      exact ⟨fun _ => by omega, fun _ => (h.bit_iff g).mpr hr⟩
    · rw [Function.update_of_ne hg]
      exact h.bit_iff g
  · intro g hg
    show Function.update p.frameRefcounts f _ g ≠ 0
    by_cases hgf : g = f
    · subst hgf; rw [Function.update_self, hmod]; omega
    · rw [Function.update_of_ne hgf]; exact h.beyond g hg
  · show p.freeFrames = _
    rw [h.free_eq]
    congr 1
    ext g
    rw [mem_freeSet, mem_freeSet]
    show _ ↔ g < p.firstUnusableFrame ∧ Function.update p.frameRefcounts f _ g = 0
    by_cases hgf : g = f
    · subst hgf; rw [Function.update_self, hmod]; simp [hr]
    · rw [Function.update_of_ne hgf]

/-- Freeing a referenced frame drops one reference. -/
theorem freePage_spec (h : p.Ok) (hf : f < p.firstUnusableFrame)
    (hr : p.frameRefcounts f ≠ 0) :
    (p.freePage (f * 4096)).Ok ∧
      (p.freePage (f * 4096)).frameRefcounts
        = Function.update p.frameRefcounts f (p.frameRefcounts f - 1) ∧
      (p.freePage (f * 4096)).firstUnusableFrame = p.firstUnusableFrame := by
  have hused : p.frameIsUsed f = true := (h.bit_iff f).mpr hr
  have hbit : ∀ g, g ≠ f → (p.frameIsUsed g = true ↔
      Function.update p.frameRefcounts f (p.frameRefcounts f - 1) g ≠ 0) := by
    intro g hg
    rw [Function.update_of_ne hg]
    exact h.bit_iff g
  have hbey : ∀ g, p.firstUnusableFrame ≤ g →
      Function.update p.frameRefcounts f (p.frameRefcounts f - 1) g ≠ 0 := by
    intro g hg
    rw [Function.update_of_ne (by omega)]
    exact h.beyond g hg
  unfold freePage
  rw [liveFrame_eq h hf hr]
  simp only [Function.update_self]
  split
  next hlast =>
    -- other references remain: only the count changes
    refine ⟨⟨?_, hbey, h.limit, ?_⟩, rfl, rfl⟩
    · intro g
      by_cases hg : g = f
      · subst hg
        show p.frameIsUsed g = true ↔ Function.update p.frameRefcounts g _ g ≠ 0
        rw [Function.update_self]
        exact ⟨fun _ => hlast, fun _ => hused⟩
      · exact hbit g hg
    · show p.freeFrames = _
      rw [h.free_eq]
      congr 1
      ext g
      rw [mem_freeSet, mem_freeSet]
      show _ ↔ g < p.firstUnusableFrame ∧ Function.update p.frameRefcounts f _ g = 0
      by_cases hgf : g = f
      · subst hgf; rw [Function.update_self]; simp [hr, hlast]
      · rw [Function.update_of_ne hgf]
  next hlast =>
  -- the last reference: the frame returns to the free set
  have hone : p.frameRefcounts f - 1 = 0 := by omega
  refine ⟨⟨?_, hbey, h.limit, ?_⟩, rfl, rfl⟩
  · intro g
    show (p.frameBitmap.clear f).test g = true ↔ _
    rw [Bitmap.test_clear (by decide)]
    by_cases hg : g = f
    · subst hg
      show _ ↔ Function.update p.frameRefcounts g _ g ≠ 0
      rw [Function.update_self]
      simp [hone]
    · have := hbit g hg
      simp only [hg, decide_false, Bool.not_false, Bool.true_and]
      exact this
  have hnot : f ∉ p.freeSet := by
    rw [mem_freeSet]
    exact fun hm => hr hm.2
  have hset : (Finset.filter (fun g =>
      Function.update p.frameRefcounts f (p.frameRefcounts f - 1) g = 0)
      (Finset.range p.firstUnusableFrame)) = insert f p.freeSet := by
    ext g
    rw [Finset.mem_filter, Finset.mem_range, Finset.mem_insert, mem_freeSet]
    by_cases hgf : g = f
    · subst hgf; rw [Function.update_self]; simp [hf, hone]
    · rw [Function.update_of_ne hgf]; simp [hgf]
  show (p.freeFrames + 1) % 2 ^ 32 = (Finset.filter (fun g =>
      Function.update p.frameRefcounts f (p.frameRefcounts f - 1) g = 0)
      (Finset.range p.firstUnusableFrame)).card
  have hle : (insert f p.freeSet).card ≤ p.firstUnusableFrame := by
    rw [← hset]
    exact (Finset.card_filter_le _ _).trans_eq (Finset.card_range _)
  have hlim := h.limit
  unfold maxPageFrames at hlim
  rw [hset, Finset.card_insert_of_notMem hnot, ← h.free_eq] at *
  omega

/-- The reference count as `palloc_page_refcount` reports it. -/
theorem pageRefcount_eq (h : p.Ok) (hf : f < p.firstUnusableFrame) :
    p.pageRefcount (f * 4096) = p.frameRefcounts f := by
  have hm : f * 4096 % 4096 = 0 := Nat.mul_mod_left f 4096
  have hd : f * 4096 / 4096 = f := Nat.mul_div_cancel f (by decide)
  unfold pageRefcount
  rw [if_neg (by rw [hm]; simp), hd]
  split
  next hc =>
    by_contra hne
    have hu := (h.bit_iff f).mpr (fun hz => hne hz.symm)
    simp [hu] at hc
    omega
  · rfl

/-! ## The allocator after `palloc_init` -/

/-- Every frame held, then the frames `[low, low + count)` released: what
`palloc_init` leaves on a machine with one block of available memory. -/
def initial (low count : Nat) : Palloc where
  frameBitmap := Bitmap.clearRange (fun _ => BitVec.allOnes 32) low count
  frameRefcounts := fun f => if low ≤ f ∧ f < low + count then 0 else 1
  firstUnusableFrame := low + count
  totalUsableFrames := count
  freeFrames := count
  nextSearchFrame := low

theorem initial_ok {low count : Nat} (h : low + count ≤ maxPageFrames) :
    (initial low count).Ok := by
  refine ⟨?_, ?_, h, ?_⟩
  · intro f
    show Bitmap.test (Bitmap.clearRange _ low count) f = true ↔ (if _ then 0 else 1) ≠ 0
    rw [Bitmap.test_clearRange (by decide)]
    have hones : Bitmap.test (w := 32) (fun _ => BitVec.allOnes 32) f = true := by
      rw [Bitmap.test_eq_getLsbD (by decide), BitVec.getLsbD_allOnes]
      exact decide_eq_true (Nat.mod_lt f (by decide))
    rw [hones, Bool.and_true]
    by_cases hin : low ≤ f ∧ f < low + count
    · simp [hin]
    · rw [if_neg hin, decide_eq_false hin]
      decide
  · intro f hf
    have hge : low + count ≤ f := hf
    show (if low ≤ f ∧ f < low + count then 0 else 1) ≠ 0
    rw [if_neg (by omega)]
    decide
  · show count = (Finset.filter _ (Finset.range (low + count))).card
    have hset : (initial low count).freeSet = Finset.Ico low (low + count) := by
      ext f
      rw [mem_freeSet, Finset.mem_Ico]
      show f < low + count ∧ (if low ≤ f ∧ f < low + count then 0 else 1) = 0 ↔ _
      split <;> simp_all
    show count = (initial low count).freeSet.card
    rw [hset, Nat.card_Ico]
    omega

end Palloc

end Riverix.Memory
