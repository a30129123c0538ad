import Riverix.Memory.Window

/-!
# Regions of pages with frames of their own

The heap and the kernel stacks fill their windows page by page: a frame is taken from the
allocator, mapped at a page that was empty, and one day unmapped and given back. `OwnPages`
says that this is in order: the pages in use are mapped writable to frames that have one
reference and are mapped nowhere else in the region, and the other pages are empty.

A frame between the allocator and the page tables is `InHand`. `took` takes frames in hand,
`map` puts one into a page, `unmap` takes it out again and `free` gives it back. Loops and
rollbacks are runs of these.
-/

namespace Riverix.Memory

open Riverix.Lib

/-- A run of pages inside a window. -/
structure Region where
  lo : Nat
  hi : Nat
  base : Nat
  count : Nat
  page : ∀ n < count, PageIn lo hi (base + n * 4096)

/-- The address of page `n`. -/
def Region.at (R : Region) (n : Nat) : Nat := R.base + n * 4096

/-- The pages in use are mapped writable to frames with one reference, each to its own. -/
structure OwnPages (R : Region) (m : Machine) (used : Nat → Prop) : Prop where
  window : Window m R.lo R.hi
  mapped : ∀ n < R.count, used n → ∃ f, m.leaf (R.at n) = f * 4096 + 3 ∧
    m.palloc.frameRefcounts f = 1 ∧ f ≠ 0 ∧ f < m.palloc.firstUnusableFrame ∧
    ¬KernelFrame m R.lo R.hi f
  own : ∀ n < R.count, ∀ k < R.count, used n → used k → m.leaf (R.at n) = m.leaf (R.at k) → n = k
  empty : ∀ n < R.count, ¬used n → m.leaf (R.at n) = 0

/-- The frame is held once and mapped at no page of the region. -/
structure InHand (R : Region) (m : Machine) (used : Nat → Prop) (f : Nat) : Prop where
  one : m.palloc.frameRefcounts f = 1
  ne_zero : f ≠ 0
  lt : f < m.palloc.firstUnusableFrame
  free : ¬KernelFrame m R.lo R.hi f
  unmapped : ∀ n < R.count, used n → m.leaf (R.at n) ≠ f * 4096 + 3

variable {R : Region} {m m' : Machine} {used : Nat → Prop} {f g n k : Nat}

theorem Region.pageIn (R : Region) (hn : n < R.count) : PageIn R.lo R.hi (R.at n) := R.page n hn

theorem Region.at_ne (R : Region) (h : n ≠ k) : R.at n ≠ R.at k := by
  unfold Region.at
  omega

/-! ## The environment -/

/-- The other parts of the kernel leave the region's frames alone. -/
structure Rely (R : Region) (m m' : Machine) (used : Nat → Prop) : Prop where
  window : Respects m m' R.lo R.hi
  first : m'.palloc.firstUnusableFrame = m.palloc.firstUnusableFrame
  counts : ∀ n < R.count, used n → ∀ f, m.leaf (R.at n) = f * 4096 + 3 →
    m'.palloc.frameRefcounts f = m.palloc.frameRefcounts f

theorem Respects.kernelFrame_iff (hr : Respects m m' R.lo R.hi) (h : Window m R.lo R.hi) :
    KernelFrame m' R.lo R.hi f ↔ KernelFrame m R.lo R.hi f := by
  have hb := h.bounds
  unfold KernelFrame
  rw [hr.kernel]
  refine or_congr Iff.rfl (exists_congr fun i => and_congr_right fun hlo =>
    and_congr_right fun hhi => ?_)
  rw [hr.slot_eq h (by omega)]

theorem OwnPages.rely (h : OwnPages R m used) (hr : Rely R m m' used) : OwnPages R m' used := by
  have hleaf : ∀ n < R.count, m'.leaf (R.at n) = m.leaf (R.at n) :=
    fun n hn => hr.window.leaf_eq h.window (R.pageIn hn)
  refine ⟨h.window.respects hr.window, ?_, ?_, ?_⟩
  · intro n hn hu
    obtain ⟨f, hf, hone, h0, hlt, hk⟩ := h.mapped n hn hu
    refine ⟨f, (hleaf n hn).trans hf, (hr.counts n hn hu f hf).trans hone, h0, ?_, ?_⟩
    · rw [hr.first]
      exact hlt
    · rw [hr.window.kernelFrame_iff h.window]
      exact hk
  · intro n hn k hk hun huk heq
    rw [hleaf n hn, hleaf k hk] at heq
    exact h.own n hn k hk hun huk heq
  · intro n hn hu
    rw [hleaf n hn]
    exact h.empty n hn hu

/-- A page in use holds another frame than the one in hand. -/
theorem InHand.ne_of_leaf (hg : InHand R m used g) (hn : n < R.count) (hu : used n)
    (hf : m.leaf (R.at n) = f * 4096 + 3) : f ≠ g := by
  rintro rfl
  exact hg.unmapped n hn hu hf

/-! ## Taking frames -/

/-- The allocator has handed out the frames `fs` and done nothing else. -/
structure Palloc.Took (p p' : Palloc) (fs : List Nat) : Prop where
  ok : p'.Ok
  first : p'.firstUnusableFrame = p.firstUnusableFrame
  fresh : ∀ f ∈ fs, f ≠ 0 ∧ f < p.firstUnusableFrame ∧ p.frameRefcounts f = 0
  nodup : fs.Nodup
  counts : ∀ g, p'.frameRefcounts g = if g ∈ fs then 1 else p.frameRefcounts g

section Took

variable {p p' p'' : Palloc} {fs gs : List Nat}

theorem Palloc.Took.refl (h : p.Ok) : Took p p [] :=
  ⟨h, rfl, fun _ hf => absurd hf List.not_mem_nil, List.nodup_nil, fun _ => by simp⟩

/-- One frame more. -/
theorem Palloc.Took.take (h : Took p p' fs) (ht : Taken p' p'' f) : Took p p'' (fs ++ [f]) := by
  have hnew : f ∉ fs := by
    intro hf
    have := h.counts f
    rw [if_pos hf, ht.was_free] at this
    simp at this
  have hfree : p.frameRefcounts f = 0 := by
    rw [← ht.was_free, h.counts, if_neg hnew]
  refine ⟨ht.ok, ht.first.trans h.first, ?_, ?_, fun g => ?_⟩
  · intro g hg
    rcases List.mem_append.mp hg with hg | hg
    · exact h.fresh g hg
    · rw [List.mem_singleton.mp hg]
      exact ⟨ht.ne_zero, h.first ▸ ht.lt, hfree⟩
  · rw [List.nodup_append]
    refine ⟨h.nodup, List.nodup_singleton f, ?_⟩
    rintro g hg g' hg' rfl
    exact hnew (List.mem_singleton.mp hg' ▸ hg)
  · rw [ht.refcounts, Function.update_apply, h.counts]
    by_cases hg : g = f
    · simp [hg]
    · simp [hg]

/-- Counts that stay. -/
theorem Palloc.Took.trans_nil (h : Took p p' fs) (h' : Took p' p'' []) : Took p p'' fs :=
  ⟨h'.ok, h'.first.trans h.first, h.fresh, h.nodup, fun g => by
    rw [h'.counts, if_neg List.not_mem_nil]
    exact h.counts g⟩

/-- Giving back one of them. -/
theorem Palloc.Took.drop (fs : List Nat) (h : Took p p' (fs ++ f :: gs)) :
    Took p (p'.freePage (f * 4096)) (fs ++ gs) := by
  have hmem : f ∈ fs ++ f :: gs := List.mem_append_right _ List.mem_cons_self
  obtain ⟨-, hlt, hfree⟩ := h.fresh f hmem
  have hone : p'.frameRefcounts f = 1 := by
    rw [h.counts, if_pos hmem]
  obtain ⟨hok, hcounts, hfirst⟩ := freePage_spec h.ok (h.first ▸ hlt)
    (by rw [hone]; exact Nat.one_ne_zero)
  have hnd := List.nodup_middle.mp h.nodup
  obtain ⟨hnot, hrest⟩ := List.nodup_cons.mp hnd
  refine ⟨hok, hfirst.trans h.first, fun g hg => h.fresh g ?_, hrest, fun g => ?_⟩
  · rcases List.mem_append.mp hg with hg | hg
    · exact List.mem_append_left _ hg
    · exact List.mem_append_right _ (List.mem_cons_of_mem _ hg)
  · rw [hcounts, Function.update_apply, hone, h.counts]
    by_cases hg : g = f
    · rw [if_pos hg, hg, if_neg hnot, hfree]
    · rw [if_neg hg]
      refine if_congr ?_ rfl rfl
      simp [hg]

/-- Each frame taken is one free frame less. -/
theorem Palloc.Took.freeFrames (h : Took p p' fs) (hp : p.Ok) :
    p'.freeFrames + fs.length = p.freeFrames := by
  have hset : p.freeSet = p'.freeSet ∪ fs.toFinset := by
    ext g
    rw [Finset.mem_union, mem_freeSet, mem_freeSet, h.first, h.counts, List.mem_toFinset]
    by_cases hg : g ∈ fs
    · have := h.fresh g hg
      simp [hg, this]
    · simp [hg]
  have hdisj : Disjoint p'.freeSet fs.toFinset := by
    rw [Finset.disjoint_right]
    intro g hg hfree
    have hone := h.counts g
    rw [if_pos (List.mem_toFinset.mp hg), (mem_freeSet.mp hfree).2] at hone
    simp at hone
  rw [h.ok.free_eq, hp.free_eq, hset, Finset.card_union_of_disjoint hdisj,
    List.toFinset_card_of_nodup h.nodup]

end Took

/-- Memory changes only in frames that nobody held. -/
structure Scribbles (m m' : Machine) : Prop where
  kernel : m'.kernelPageDirectoryPhys = m.kernelPageDirectoryPhys
  bytes : ∀ a, m.palloc.frameRefcounts (a / 4096) ≠ 0 → m'.mem a = m.mem a

/-- The frames that were taken are in hand, whatever was written into them. -/
theorem OwnPages.took (h : OwnPages R m used) {fs : List Nat}
    (ht : Palloc.Took m.palloc m'.palloc fs) (hs : Scribbles m m') :
    OwnPages R m' used ∧ ∀ f ∈ fs, InHand R m' used f := by
  have hkeep : ∀ g, m.palloc.frameRefcounts g ≠ 0 →
      m'.palloc.frameRefcounts g = m.palloc.frameRefcounts g := by
    intro g hg
    rw [ht.counts, if_neg fun hmem => hg (ht.fresh g hmem).2.2]
  have hheld : ∀ g, m.palloc.frameRefcounts g ≠ 0 → m'.palloc.frameRefcounts g ≠ 0 := by
    intro g hg
    rw [hkeep g hg]
    exact hg
  have hr : Respects m m' R.lo R.hi :=
    ⟨hs.kernel, ht.ok, hheld 0 h.window.frameZero, fun g hg => hheld g (h.window.held hg),
      fun a ha => hs.bytes a (h.window.held ha)⟩
  have hused : ∀ n < R.count, used n → ∀ g, m.leaf (R.at n) = g * 4096 + 3 →
      m.palloc.frameRefcounts g ≠ 0 := by
    intro n hn hu g hg
    obtain ⟨g', hg', hone, -⟩ := h.mapped n hn hu
    have hgg : g' = g := by omega
    rw [← hgg, hone]
    exact Nat.one_ne_zero
  refine ⟨h.rely ⟨hr, ht.first, fun n hn hu g hg => hkeep g (hused n hn hu g hg)⟩, fun f hf => ?_⟩
  obtain ⟨h0, hlt, hfree⟩ := ht.fresh f hf
  refine ⟨by rw [ht.counts, if_pos hf], h0, by rw [ht.first]; exact hlt, ?_,
    fun n hn hu hleaf => ?_⟩
  · rw [hr.kernelFrame_iff h.window]
    exact h.window.not_kernelFrame hfree
  · rw [hr.leaf_eq h.window (R.pageIn hn)] at hleaf
    exact hused n hn hu f hleaf hfree

/-! ## Mapping, unmapping and giving back -/

/-- A store to a leaf of the region keeps the window's frames. -/
theorem OwnPages.kernelFrame_setLeaf (h : OwnPages R m used) (hn : n < R.count) (v : Nat) :
    KernelFrame (m.setLeaf (R.at n) v) R.lo R.hi f ↔ KernelFrame m R.lo R.hi f := by
  have hb := h.window.bounds
  unfold KernelFrame
  refine or_congr Iff.rfl (exists_congr fun i => and_congr_right fun hlo =>
    and_congr_right fun hhi => ?_)
  have hslot := h.window.setLeaf_slot (v := v) (R.pageIn hn) (show i < 1024 by omega)
  show entry (m.setLeaf (R.at n) v).mem m.kernelPageDirectoryPhys i / 4096 = f ↔ _
  rw [hslot]

/-- Mapping the frame in hand at an empty page. -/
theorem OwnPages.map (h : OwnPages R m used) (hf : InHand R m used f) (hn : n < R.count)
    (hu : ¬used n) : OwnPages R (m.setLeaf (R.at n) (f * 4096 + 3)) fun k => used k ∨ k = n := by
  have hlt : f * 4096 + 3 < 2 ^ 32 := by
    have := h.window.palloc.frame_lt hf.lt
    omega
  have hsame : (m.setLeaf (R.at n) (f * 4096 + 3)).leaf (R.at n) = f * 4096 + 3 :=
    h.window.leaf_setLeaf_same (R.pageIn hn) hlt
  have hother : ∀ k < R.count, k ≠ n →
      (m.setLeaf (R.at n) (f * 4096 + 3)).leaf (R.at k) = m.leaf (R.at k) :=
    fun k hk hne => h.window.leaf_setLeaf_ne (R.pageIn hn) (R.pageIn hk) (R.at_ne (Ne.symm hne))
  refine ⟨h.window.setLeaf (R.pageIn hn) _, ?_, ?_, ?_⟩
  · rintro k hk (huk | rfl)
    · have hne : k ≠ n := by
        rintro rfl
        exact hu huk
      obtain ⟨g, hg, hone, h0, hglt, hkf⟩ := h.mapped k hk huk
      refine ⟨g, (hother k hk hne).trans hg, hone, h0, hglt, ?_⟩
      rw [h.kernelFrame_setLeaf hn]
      exact hkf
    · refine ⟨f, hsame, hf.one, hf.ne_zero, hf.lt, ?_⟩
      rw [h.kernelFrame_setLeaf hn]
      exact hf.free
  · intro a ha b hb hua hub heq
    by_cases han : a = n
    · by_cases hbn : b = n
      · rw [han, hbn]
      · rw [han, hsame, hother b hb hbn] at heq
        exact absurd heq.symm (hf.unmapped b hb (hub.resolve_right hbn))
    by_cases hbn : b = n
    · rw [hbn, hsame, hother a ha han] at heq
      exact absurd heq (hf.unmapped a ha (hua.resolve_right han))
    · rw [hother a ha han, hother b hb hbn] at heq
      exact h.own a ha b hb (hua.resolve_right han) (hub.resolve_right hbn) heq
  · intro k hk huk
    rw [hother k hk (fun he => huk (Or.inr he))]
    exact h.empty k hk fun hu' => huk (Or.inl hu')

theorem InHand.map (hg : InHand R m used g) (h : OwnPages R m used) (hn : n < R.count)
    (hu : ¬used n) (hlt : f * 4096 + 3 < 2 ^ 32) (hne : g ≠ f) :
    InHand R (m.setLeaf (R.at n) (f * 4096 + 3)) (fun k => used k ∨ k = n) g := by
  refine ⟨hg.one, hg.ne_zero, hg.lt, ?_, ?_⟩
  · rw [h.kernelFrame_setLeaf hn]
    exact hg.free
  · rintro k hk (huk | rfl)
    · have hkn : k ≠ n := by
        rintro rfl
        exact hu huk
      rw [h.window.leaf_setLeaf_ne (R.pageIn hn) (R.pageIn hk) (R.at_ne (Ne.symm hkn))]
      exact hg.unmapped k hk huk
    · rw [h.window.leaf_setLeaf_same (R.pageIn hn) hlt]
      omega

/-- Unmapping a page takes its frame in hand. -/
theorem OwnPages.unmap (h : OwnPages R m used) (hn : n < R.count) (hu : used n)
    (hf : m.leaf (R.at n) = f * 4096 + 3) :
    OwnPages R (m.setLeaf (R.at n) 0) (fun k => used k ∧ k ≠ n) ∧
      InHand R (m.setLeaf (R.at n) 0) (fun k => used k ∧ k ≠ n) f := by
  have hother : ∀ k < R.count, k ≠ n → (m.setLeaf (R.at n) 0).leaf (R.at k) = m.leaf (R.at k) :=
    fun k hk hne => h.window.leaf_setLeaf_ne (R.pageIn hn) (R.pageIn hk) (R.at_ne (Ne.symm hne))
  obtain ⟨f', hf', hone, h0, hlt, hkf⟩ := h.mapped n hn hu
  have hff : f' = f := by omega
  subst hff
  refine ⟨⟨h.window.setLeaf (R.pageIn hn) _, ?_, ?_, ?_⟩, hone, h0, hlt, ?_, ?_⟩
  · rintro k hk ⟨huk, hne⟩
    obtain ⟨g, hg, hgone, hg0, hglt, hgk⟩ := h.mapped k hk huk
    refine ⟨g, (hother k hk hne).trans hg, hgone, hg0, hglt, ?_⟩
    rw [h.kernelFrame_setLeaf hn]
    exact hgk
  · rintro a ha b hb ⟨hua, hna⟩ ⟨hub, hnb⟩ heq
    rw [hother a ha hna, hother b hb hnb] at heq
    exact h.own a ha b hb hua hub heq
  · intro k hk huk
    by_cases hkn : k = n
    · rw [hkn]
      exact h.window.leaf_setLeaf_same (R.pageIn hn) (by decide)
    · rw [hother k hk hkn]
      exact h.empty k hk fun hu' => huk ⟨hu', hkn⟩
  · rw [h.kernelFrame_setLeaf hn]
    exact hkf
  · rintro k hk ⟨huk, hne⟩ heq
    rw [hother k hk hne, ← hf'] at heq
    exact hne (h.own k hk n hn huk hu heq)

/-- Giving back the frame in hand. -/
theorem OwnPages.free (h : OwnPages R m used) (hf : InHand R m used f) :
    OwnPages R { m with palloc := m.palloc.freePage (f * 4096) } used := by
  have hr : m.palloc.frameRefcounts f ≠ 0 := by
    rw [hf.one]
    exact Nat.one_ne_zero
  obtain ⟨-, hcounts, hfirst⟩ := Palloc.freePage_spec h.window.palloc hf.lt hr
  refine h.rely ⟨h.window.respects_free hf.lt hr hf.free hf.ne_zero, hfirst, fun n hn hu g hg => ?_⟩
  show (m.palloc.freePage (f * 4096)).frameRefcounts g = _
  rw [hcounts, Function.update_of_ne (hf.ne_of_leaf hn hu hg)]

/-- A frame held once becomes free. -/
theorem InHand.freeFrames (hf : InHand R m used f) (h : OwnPages R m used) :
    (m.palloc.freePage (f * 4096)).freeFrames = m.palloc.freeFrames + 1 := by
  have hr : m.palloc.frameRefcounts f ≠ 0 := by
    rw [hf.one]
    exact Nat.one_ne_zero
  obtain ⟨hok, hcounts, hfirst⟩ := Palloc.freePage_spec h.window.palloc hf.lt hr
  -- read backwards, giving it back is taking it
  have ht : Palloc.Taken (m.palloc.freePage (f * 4096)) m.palloc f := by
    refine ⟨hf.ne_zero, by rw [hfirst]; exact hf.lt, ?_, h.window.palloc, ?_, hfirst.symm⟩
    · rw [hcounts, Function.update_self, hf.one]
    · rw [hcounts, Function.update_idem]
      exact (Function.update_eq_self_iff.mpr hf.one.symm).symm
  exact (ht.freeFrames hok).symm

theorem OwnPages.congr (h : OwnPages R m used) {used' : Nat → Prop}
    (hiff : ∀ n < R.count, used' n ↔ used n) : OwnPages R m used' :=
  ⟨h.window, fun n hn hu => h.mapped n hn ((hiff n hn).mp hu),
    fun n hn k hk hu hu' => h.own n hn k hk ((hiff n hn).mp hu) ((hiff k hk).mp hu'),
    fun n hn hu => h.empty n hn fun hu' => hu ((hiff n hn).mpr hu')⟩

/-! ## Through a directory -/

/-- A directory that the region can be reached through. -/
structure Directory (m : Machine) (R : Region) (d : Nat) : Prop where
  shares : Shares m R.lo R.hi d
  aligned : d % 4096 = 0
  apart : ∀ i, R.lo ≤ i → i < R.hi → entry m.mem m.kernelPageDirectoryPhys i / 4096 ≠ d / 4096

theorem Window.directory (h : Window m R.lo R.hi) : Directory m R m.kernelPageDirectoryPhys := by
  refine ⟨Shares.kernel h, h.aligned, fun i hlo hhi => ?_⟩
  obtain ⟨t, ht, -, hne⟩ := h.table i hlo hhi
  rw [ht, show (t * 4096 + 3) / 4096 = t by omega]
  exact hne

/-- The directory of a user space has the kernel's tables. -/
theorem SpaceOk.directory {owner : Nat → Role} {ds : List Nat} {d : Nat} (h : SpaceOk owner m ds)
    (hd : d ∈ ds) (hw : Window m R.lo R.hi) : Directory m R d := by
  have hb := hw.bounds
  refine ⟨⟨h.dir_ne_zero hd, fun i hlo hhi => h.shared d hd i (Or.inr (by omega))⟩,
    h.dir_aligned d hd, fun i hlo hhi => ?_⟩
  obtain ⟨t, ht, -, -⟩ := hw.table i hlo hhi
  have hkernel := (h.kernel_entry i (by omega)).role (by rw [ht]; exact present_three t)
  exact ne_of_role hkernel (h.dir_owner d hd) (by simp)

theorem Directory.setLeaf {d : Nat} (hd : Directory m R d) (h : OwnPages R m used)
    (hn : n < R.count) (v : Nat) : Directory (m.setLeaf (R.at n) v) R d := by
  have hp := R.pageIn hn
  have hb := h.window.bounds
  refine ⟨hd.shares.setLeaf h.window hp hd.aligned (Ne.symm (hd.apart _ hp.index.1 hp.index.2)) v,
    hd.aligned, fun i hlo hhi => ?_⟩
  have hslot := h.window.setLeaf_slot (v := v) hp (show i < 1024 by omega)
  show entry (m.setLeaf (R.at n) v).mem m.kernelPageDirectoryPhys i / 4096 ≠ _
  rw [hslot]
  exact hd.apart i hlo hhi

/-- Scribbling in free frames leaves the directory alone. -/
theorem Directory.scribbles {d : Nat} (hd : Directory m R d) (hw : Window m R.lo R.hi)
    (hheld : m.palloc.frameRefcounts (d / 4096) ≠ 0) (hs : Scribbles m m') : Directory m' R d := by
  have hb := hw.bounds
  have hal := hd.aligned
  have hkal := hw.aligned
  have hentry : ∀ {t : Nat}, t % 4096 = 0 → m.palloc.frameRefcounts (t / 4096) ≠ 0 → ∀ i < 1024,
      entry m'.mem t i = entry m.mem t i := by
    intro t ht hheld i hi
    have he : entry m'.mem (t / 4096 * 4096) i = entry m.mem (t / 4096 * 4096) i :=
      entry_congr_frame hi fun a ha => hs.bytes a (by rw [ha]; exact hheld)
    rwa [show t / 4096 * 4096 = t by omega] at he
  have hkernel : ∀ i < 1024, entry m'.mem m'.kernelPageDirectoryPhys i
      = entry m.mem m.kernelPageDirectoryPhys i := by
    rw [hs.kernel]
    exact hentry hkal hw.used
  refine ⟨⟨hd.shares.ne_zero, fun i hlo hhi => ?_⟩, hal, fun i hlo hhi => ?_⟩
  · rw [hentry hal hheld i (by omega), hkernel i (by omega)]
    exact hd.shares.slots i hlo hhi
  · rw [hkernel i (by omega)]
    exact hd.apart i hlo hhi

namespace Machine

/-- What `kheap_expand` and `kstack_free` do with each page they give back. -/
def releasePage (m : Machine) (directoryPhys virtualAddress : Nat) : Machine :=
  let physicalPage := m.resolvePhysicalIn directoryPhys virtualAddress
  if physicalPage = 0 then m
  else
    let m := m.unmapPageIn directoryPhys virtualAddress
    { m with palloc := m.palloc.freePage physicalPage }

end Machine

/-- A page that is mapped writable, as the walk sees it. -/
theorem OwnPages.lookup {d : Nat} (hs : Shares m R.lo R.hi d) (hn : n < R.count)
    (hf : m.leaf (R.at n) = f * 4096 + 3) : m.lookupPageIn d (R.at n) = some (f * 4096, 3) := by
  have hframe : (f * 4096 + 3) / 4096 = f := by omega
  have hflags : (f * 4096 + 3) % 4096 = 3 := by omega
  rw [lookupPageIn_window hs (R.pageIn hn), hf, if_neg (present_three f), hframe, hflags]

theorem OwnPages.releasePage_eq {d : Nat} (h : OwnPages R m used) (hs : Shares m R.lo R.hi d)
    (hn : n < R.count) (hf : m.leaf (R.at n) = f * 4096 + 3) (h0 : f ≠ 0) :
    m.releasePage d (R.at n)
      = { m.setLeaf (R.at n) 0 with palloc := m.palloc.freePage (f * 4096) } := by
  have hres : m.resolvePhysicalIn d (R.at n) = f * 4096 := by
    unfold Machine.resolvePhysicalIn
    rw [OwnPages.lookup hs hn hf]
  unfold Machine.releasePage
  rw [hres, if_neg (by omega), unmapPageIn_window h.window hs (R.pageIn hn)]
  rfl

/-- Giving a page back: its frame is free again and the page is empty. -/
theorem OwnPages.releasePage {d : Nat} (h : OwnPages R m used) (hd : Directory m R d)
    (hn : n < R.count) (hu : used n) :
    OwnPages R (m.releasePage d (R.at n)) (fun k => used k ∧ k ≠ n) ∧
      Directory (m.releasePage d (R.at n)) R d ∧
      (m.releasePage d (R.at n)).palloc.freeFrames = m.palloc.freeFrames + 1 := by
  obtain ⟨f, hf, -, h0, -⟩ := h.mapped n hn hu
  obtain ⟨hown, hhand⟩ := h.unmap hn hu hf
  rw [h.releasePage_eq hd.shares hn hf h0]
  have hd' := hd.setLeaf h hn 0
  exact ⟨hown.free hhand, ⟨⟨hd'.shares.ne_zero, hd'.shares.slots⟩, hd'.aligned, hd'.apart⟩,
    hhand.freeFrames hown⟩

/-- Unmapping a page that is empty. -/
theorem OwnPages.unmap_empty {d : Nat} (h : OwnPages R m used) (hs : Shares m R.lo R.hi d)
    (hn : n < R.count) (hu : ¬used n) : m.unmapPageIn d (R.at n) = m := by
  rw [unmapPageIn_window h.window hs (R.pageIn hn)]
  exact h.window.setLeaf_self (R.pageIn hn) (h.empty n hn hu)

/-- The loop of `paging_map_pages_in` puts the frames in hand into the pages from `n` on. -/
theorem OwnPages.mapPagesFrom {d : Nat} {fs : List Nat} (h : OwnPages R m used)
    (hd : Directory m R d) (hfs : ∀ f ∈ fs, InHand R m used f) (hnd : fs.Nodup) {index : Nat}
    (hn : n + index + fs.length ≤ R.count) (hu : ∀ i < fs.length, ¬used (n + index + i)) :
    ∃ m', Machine.mapPagesFrom d (R.at n) pageWritable index (fs.map (· * 4096)) m = (m', true) ∧
      OwnPages R m' (fun k => used k ∨ (n + index ≤ k ∧ k < n + index + fs.length)) ∧
      m'.palloc = m.palloc := by
  induction fs generalizing m used index with
  | nil =>
    refine ⟨m, rfl, h.congr fun k _ => or_iff_left ?_, rfl⟩
    rw [List.length_nil]
    omega
  | cons f fs ih =>
    rw [List.length_cons] at hn hu
    obtain ⟨hf, hrest⟩ := List.forall_mem_cons.mp hfs
    obtain ⟨hnew, hnd⟩ := List.nodup_cons.mp hnd
    have hlt : n + index < R.count := by omega
    have hfree : ¬used (n + index) := hu 0 (by omega)
    have hva : (R.at n + index * 4096) % 2 ^ 32 = R.at (n + index) := by
      have hp := (R.pageIn hlt).lt
      have hb := h.window.bounds.2
      have hat : R.at n + index * 4096 = R.at (n + index) := by
        unfold Region.at
        omega
      rw [hat]
      exact Nat.mod_eq_of_lt (by omega)
    have hbound : f * 4096 + 3 < 2 ^ 32 := by
      have := h.window.palloc.frame_lt hf.lt
      omega
    have hclear : ∀ i < fs.length, ¬(used (n + (index + 1) + i) ∨
        n + (index + 1) + i = n + index) := by
      rintro i hi (hused | he)
      · refine hu (i + 1) (by omega) ?_
        rw [show n + index + (i + 1) = n + (index + 1) + i by omega]
        exact hused
      · omega
    obtain ⟨m', hm', hown, hp⟩ := ih (h.map hf hlt hfree) (hd.setLeaf h hlt (f * 4096 + 3))
      (fun g hg => (hrest g hg).map h hlt hfree hbound (by rintro rfl; exact hnew hg)) hnd
      (show n + (index + 1) + fs.length ≤ R.count by omega) hclear
    refine ⟨m', ?_, hown.congr fun k _ => ?_, hp⟩
    · rw [List.map_cons, Machine.mapPagesFrom, hva,
        mapPageIn_window h.window hd.shares (R.pageIn hlt) f]
      exact hm'
    · rw [List.length_cons, or_assoc]
      refine or_congr Iff.rfl ?_
      omega

end Riverix.Memory
