import Riverix.Fs.Populate

/-!
# Windows of the slot pool

A directory's slots are a window of 32 slots of one pool. `Windows` says that the
windows handed out lie in the pool and do not overlap; a store below index 32 of a
window is then invisible to every other directory (`Windows.kept_modify`).

The pool is one array in the kernel and windows are addresses into it, so the
statements are about slots of the pool; `childAt` reads one through a directory. A
window is handed out by `simplefs_alloc_dir_slots` (`Windows.takeWindow`) and never
taken back. `Kept` says that a step has left a directory's window and its slots alone;
it composes, and the walk (`Riverix.Fs.Walk`) carries it through whole subtrees.
-/

namespace Riverix.Fs

open Riverix.Lib

namespace Simplefs

variable {fs fs' : Simplefs} {d i j k x : Nat}

/-- The windows lie in the pool, have 32 slots each and do not overlap. -/
structure Windows (fs : Simplefs) : Prop where
  children : ∀ i, (fs.nodes i).vfs.children = (fs.nodes i).dirSlotBase
  capacity : ∀ i b, (fs.nodes i).dirSlotBase = some b → (fs.nodes i).vfs.childCapacity = 32
  below : ∀ i b, (fs.nodes i).dirSlotBase = some b → b + 32 ≤ fs.nextDirEntrySlot
  apart : ∀ i j b c, i ≠ j → (fs.nodes i).dirSlotBase = some b → (fs.nodes j).dirSlotBase = some c →
    b + 32 ≤ c ∨ c + 32 ≤ b
  pool : fs.nextDirEntrySlot ≤ 512

/-- The window of a runtime inode. -/
def window (fs : Simplefs) (i : Nat) : Option Nat × Option Nat × Nat :=
  ((fs.nodes i).dirSlotBase, (fs.nodes i).vfs.children, (fs.nodes i).vfs.childCapacity)

theorem window_inj (h : fs'.window i = fs.window j) :
    (fs'.nodes i).dirSlotBase = (fs.nodes j).dirSlotBase ∧
      (fs'.nodes i).vfs.children = (fs.nodes j).vfs.children ∧
      (fs'.nodes i).vfs.childCapacity = (fs.nodes j).vfs.childCapacity := by
  simpa only [window, Prod.mk.injEq] using h

/-- Each inode keeps its window, or has none any more. -/
theorem Windows.congr (h : Windows fs)
    (hwin : ∀ i, fs'.window i = fs.window i ∨
      (fs'.nodes i).dirSlotBase = none ∧ (fs'.nodes i).vfs.children = none)
    (hnext : fs'.nextDirEntrySlot = fs.nextDirEntrySlot) : Windows fs' := by
  have hbase : ∀ i b, (fs'.nodes i).dirSlotBase = some b →
      (fs.nodes i).dirSlotBase = some b ∧
        (fs'.nodes i).vfs.childCapacity = (fs.nodes i).vfs.childCapacity := by
    intro i b hb
    rcases hwin i with hi | hi
    · obtain ⟨h1, -, h3⟩ := window_inj hi
      exact ⟨by rw [← h1, hb], h3⟩
    · rw [hi.1] at hb
      simp at hb
  refine ⟨fun i => ?_, fun i b hb => ?_, fun i b hb => ?_, fun i j b c hij hb hc => ?_, ?_⟩
  · rcases hwin i with hi | hi
    · obtain ⟨h1, h2, -⟩ := window_inj hi
      rw [h1, h2, h.children]
    · rw [hi.1, hi.2]
  · rw [(hbase i b hb).2, h.capacity i b (hbase i b hb).1]
  · rw [hnext]
    exact h.below i b (hbase i b hb).1
  · exact h.apart i j b c hij (hbase i b hb).1 (hbase j c hc).1
  · rw [hnext]
    exact h.pool

theorem Windows.same (h : Windows fs) (hwin : ∀ i, fs'.window i = fs.window i)
    (hnext : fs'.nextDirEntrySlot = fs.nextDirEntrySlot) : Windows fs' :=
  h.congr (fun i => Or.inl (hwin i)) hnext

theorem takeWindow_nodes_self (fs : Simplefs) (d : Nat) : (fs.takeWindow d).nodes d =
    { fs.nodes d with
      dirSlotBase := some fs.nextDirEntrySlot
      vfs := { (fs.nodes d).vfs with
        children := some fs.nextDirEntrySlot
        childCapacity := directoryCapacity } } :=
  Function.update_self ..

theorem takeWindow_nodes_ne (fs : Simplefs) (h : j ≠ d) :
    (fs.takeWindow d).nodes j = fs.nodes j :=
  Function.update_of_ne h ..

/-- A new window starts where the ones handed out before end. -/
theorem Windows.takeWindow (h : Windows fs) (hroom : fs.nextDirEntrySlot + 32 ≤ 512) :
    Windows (fs.takeWindow d) := by
  have hself := takeWindow_nodes_self fs d
  have hne : ∀ {j}, j ≠ d → (fs.takeWindow d).nodes j = fs.nodes j := takeWindow_nodes_ne fs
  have hnext : (fs.takeWindow d).nextDirEntrySlot = fs.nextDirEntrySlot + 32 := rfl
  refine ⟨fun i => ?_, fun i b hb => ?_, fun i b hb => ?_, fun i j b c hij hb hc => ?_, by omega⟩
  · by_cases hi : i = d
    · rw [hi, hself]
    · rw [hne hi, h.children]
  · by_cases hi : i = d
    · rw [hi, hself]
    · rw [hne hi] at hb ⊢
      exact h.capacity i b hb
  · by_cases hi : i = d
    · rw [hi, hself] at hb
      have : fs.nextDirEntrySlot = b := Option.some.inj hb
      omega
    · rw [hne hi] at hb
      have := h.below i b hb
      omega
  by_cases hi : i = d
  · have hj : j ≠ d := fun hj => hij (hi.trans hj.symm)
    rw [hi, hself] at hb
    rw [hne hj] at hc
    have : fs.nextDirEntrySlot = b := Option.some.inj hb
    have := h.below j c hc
    omega
  rw [hne hi] at hb
  by_cases hj : j = d
  · rw [hj, hself] at hc
    have : fs.nextDirEntrySlot = c := Option.some.inj hc
    have := h.below i b hb
    omega
  · rw [hne hj] at hc
    exact h.apart i j b c hij hb hc

/-! ## Slots -/

/-- A change of slots that stays below index 32. -/
def Local (f : (Nat → Option NodeRef) → Nat → Option NodeRef) : Prop :=
  ∀ slots k, 32 ≤ k → f slots k = slots k

@[simp] theorem setSlots_next (fs : Simplefs) (d : Nat)
    (f : (Nat → Option NodeRef) → Nat → Option NodeRef) :
    (fs.setSlots d f).nextDirEntrySlot = fs.nextDirEntrySlot := by
  unfold setSlots
  split <;> rfl

@[simp] theorem setSlots_stores (fs : Simplefs) (d : Nat)
    (f : (Nat → Option NodeRef) → Nat → Option NodeRef) : (fs.setSlots d f).stores = fs.stores := by
  unfold setSlots
  split <;> rfl

theorem childAt_setSlots_self (fs : Simplefs) (d k : Nat)
    (f : (Nat → Option NodeRef) → Nat → Option NodeRef) :
    (fs.setSlots d f).childAt d k = f (fs.childAt d) k := by
  unfold childAt setSlots
  cases hb : (fs.nodes d).vfs.children with
  | none => simp [hb]
  | some base => simp [hb]

/-- A local change of one directory's slots is invisible to the others. -/
theorem Windows.childAt_setSlots_ne (h : Windows fs)
    {f : (Nat → Option NodeRef) → Nat → Option NodeRef} (hf : Local f)
    (hd : (fs.nodes d).dirSlotBase ≠ none) (hj : j ≠ d) (hk : k < 32) :
    (fs.setSlots d f).childAt j k = fs.childAt j k := by
  obtain ⟨b, hb⟩ := Option.ne_none_iff_exists'.mp hd
  unfold childAt
  rw [setSlots_nodes]
  unfold setSlots
  rw [h.children d, hb, h.children j]
  cases hc : (fs.nodes j).dirSlotBase with
  | none => rfl
  | some c =>
    dsimp only
    split
    next hle =>
      have := h.apart d j b c (Ne.symm hj) hb hc
      rw [hf _ _ (by omega)]
      congr 1
      omega
    · rfl

/-- The inode keeps everything but its name, and its slots. -/
def Kept (fs fs' : Simplefs) (x : Nat) : Prop :=
  (∃ name, fs'.nodes x = { fs.nodes x with name }) ∧ ∀ k < 32, fs'.childAt x k = fs.childAt x k

theorem Kept.refl (fs : Simplefs) (x : Nat) : Kept fs fs x := ⟨⟨_, rfl⟩, fun _ _ => rfl⟩

theorem Kept.trans {fs₁ fs₂ fs₃ : Simplefs} (h : Kept fs₁ fs₂ x) (h' : Kept fs₂ fs₃ x) :
    Kept fs₁ fs₃ x := by
  obtain ⟨⟨_, h1⟩, h2⟩ := h
  obtain ⟨⟨name', h1'⟩, h2'⟩ := h'
  refine ⟨⟨name', by rw [h1', h1]⟩, fun k hk => by rw [h2' k hk, h2 k hk]⟩

theorem Kept.of_eq (hn : fs'.nodes x = fs.nodes x) (hd : fs'.dirEntries = fs.dirEntries)
    (h0 : fs'.nullEntries = fs.nullEntries) : Kept fs fs' x := by
  refine ⟨⟨_, hn⟩, fun k _ => ?_⟩
  unfold childAt
  rw [hn, hd, h0]

section Fields

variable (h : Kept fs fs' x)

include h

theorem Kept.populated : (fs'.nodes x).populated = (fs.nodes x).populated := by
  obtain ⟨⟨_, h⟩, -⟩ := h; rw [h]

theorem Kept.base : (fs'.nodes x).dirSlotBase = (fs.nodes x).dirSlotBase := by
  obtain ⟨⟨_, h⟩, -⟩ := h; rw [h]

theorem Kept.vfs : (fs'.nodes x).vfs = (fs.nodes x).vfs := by
  obtain ⟨⟨_, h⟩, -⟩ := h; rw [h]

theorem Kept.disk : (fs'.nodes x).disk = (fs.nodes x).disk := by
  obtain ⟨⟨_, h⟩, -⟩ := h; rw [h]

theorem Kept.window : fs'.window x = fs.window x := by
  unfold Simplefs.window
  rw [h.base, h.vfs]

end Fields

/-! ## Opening and filling a window -/

theorem clearWindow_nodes_self (fs : Simplefs) (d : Nat) : (fs.clearWindow d).nodes d =
    { fs.nodes d with vfs := { (fs.nodes d).vfs with childCount := 0 } } := by
  unfold clearWindow modifyVfs
  rw [modify_nodes_self, setSlots_nodes]

theorem clearWindow_nodes_ne (fs : Simplefs) (h : j ≠ d) :
    (fs.clearWindow d).nodes j = fs.nodes j := by
  unfold clearWindow modifyVfs
  rw [modify_nodes_ne _ _ h, setSlots_nodes]

/-- The slots are those of the state before a change that keeps them and the windows. -/
theorem childAt_congr (fs fs' : Simplefs)
    (hc : (fs'.nodes x).vfs.children = (fs.nodes x).vfs.children)
    (hd : fs'.dirEntries = fs.dirEntries) (h0 : fs'.nullEntries = fs.nullEntries) (k : Nat) :
    fs'.childAt x k = fs.childAt x k := by
  unfold childAt
  rw [hc, hd, h0]

/-- Slots of `d` change below index 32, and its node as `f` says. -/
theorem Windows.kept_modify (h : Windows fs) (hd : (fs.nodes d).dirSlotBase ≠ none)
    {g : (Nat → Option NodeRef) → Nat → Option NodeRef} (hg : Local g)
    (f : RuntimeInode → RuntimeInode) (hx : x ≠ d) : Kept fs ((fs.setSlots d g).modify d f) x := by
  have hn : ((fs.setSlots d g).modify d f).nodes x = fs.nodes x := by
    rw [modify_nodes_ne _ _ hx, setSlots_nodes]
  refine ⟨⟨_, hn⟩, fun k hk => ?_⟩
  rw [childAt_congr (fs.setSlots d g) ((fs.setSlots d g).modify d f)
    (by rw [modify_nodes_ne _ f hx]) rfl rfl k, h.childAt_setSlots_ne hg hd hx hk]

/-- The window of the directory is there and empty. -/
structure Opened (fs fs' : Simplefs) (d : Nat) : Prop where
  windows : Windows fs'
  core : fs'.core = fs.core
  kept : ∀ x, x ≠ d → Kept fs fs' x
  owned : (fs'.nodes d).dirSlotBase ≠ none
  populated : (fs'.nodes d).populated = (fs.nodes d).populated
  empty : (fs'.nodes d).vfs.childCount = 0
  name : ∀ c, (fs'.nodes c).name = (fs.nodes c).name

theorem open_spec {fs₁ fs₂ : Simplefs} {count : Nat} {out : Option Store} (h : Windows fs)
    (ha : fs.allocDirSlots d = (fs₁, true))
    (hr : (fs₁.clearWindow d).readDirEntries d count = (fs₂, out)) : Opened fs fs₂ d := by
  have hcore₁ := allocDirSlots_core fs d
  rw [ha] at hcore₁
  have halloc : Windows fs₁ ∧ (fs₁.nodes d).dirSlotBase ≠ none ∧
      (fs₁.nodes d).populated = (fs.nodes d).populated ∧ (∀ x, x ≠ d → Kept fs fs₁ x) ∧
      ∀ c, (fs₁.nodes c).name = (fs.nodes c).name := by
    rcases allocDirSlots_true ha with ⟨hb, rfl⟩ | ⟨hroom, rfl⟩
    · exact ⟨h, hb, rfl, fun x _ => Kept.refl _ x, fun _ => rfl⟩
    refine ⟨h.takeWindow hroom, ?_, ?_, fun x hx => Kept.of_eq (takeWindow_nodes_ne fs hx) rfl rfl,
      fun c => ?_⟩
    · rw [takeWindow_nodes_self]
      simp
    · rw [takeWindow_nodes_self]
    · by_cases hc : c = d
      · rw [hc, takeWindow_nodes_self]
      · rw [takeWindow_nodes_ne fs hc]
  obtain ⟨hw, hown, hpop, hkept, hname⟩ := halloc
  have hself := clearWindow_nodes_self fs₁ d
  obtain ⟨dev, -, -, hshape⟩ := readDirEntries_shape (fs₁.clearWindow d) d count
  rw [hr] at hshape
  have hfs₂ : fs₂ = { fs₁.clearWindow d with dev } := hshape
  have hwin : ∀ i, fs₂.window i = fs₁.window i := by
    intro i
    rw [hfs₂]
    unfold window
    by_cases hi : i = d
    · rw [hi, hself]
    · show (((fs₁.clearWindow d).nodes i).dirSlotBase, _) = _
      rw [clearWindow_nodes_ne fs₁ hi]
  have hnext : fs₂.nextDirEntrySlot = fs₁.nextDirEntrySlot := by
    rw [hfs₂]
    exact setSlots_next fs₁ d _
  refine ⟨hw.same hwin hnext, ?_, fun x hx => ?_, ?_, ?_, ?_, fun c => ?_⟩
  · rw [hfs₂]
    exact (clearWindow_core fs₁ d).trans hcore₁
  · have hclear : Kept fs₁ (fs₁.clearWindow d) x := by
      unfold clearWindow modifyVfs
      exact hw.kept_modify hown (fun _ _ hk => if_neg (Nat.not_lt.mpr hk)) _ hx
    rw [hfs₂]
    exact (hkept x hx).trans (hclear.trans (Kept.of_eq rfl rfl rfl))
  · rw [(window_inj (hwin d)).1]
    exact hown
  · rw [hfs₂, ← hpop]
    show ((fs₁.clearWindow d).nodes d).populated = _
    rw [hself]
  · rw [hfs₂]
    show ((fs₁.clearWindow d).nodes d).vfs.childCount = _
    rw [hself]
  · rw [hfs₂, ← hname]
    show ((fs₁.clearWindow d).nodes c).name = _
    by_cases hc : c = d
    · rw [hc, hself]
    · rw [clearWindow_nodes_ne fs₁ hc]

/-- One more slot of `d` is in use. -/
structure Appended (fs fs' : Simplefs) (d : Nat) (ref : NodeRef) : Prop where
  windows : Windows fs'
  core : fs'.core = fs.core
  kept : ∀ x, x ≠ d → Kept fs fs' x
  owned : (fs'.nodes d).dirSlotBase = (fs.nodes d).dirSlotBase
  populated : (fs'.nodes d).populated = (fs.nodes d).populated
  count : (fs'.nodes d).vfs.childCount = (fs.nodes d).vfs.childCount + 1
  slots : ∀ k, fs'.childAt d k
    = if k = (fs.nodes d).vfs.childCount then some ref else fs.childAt d k

theorem appendChild_spec (h : Windows fs) (hown : (fs.nodes d).dirSlotBase ≠ none)
    (hcount : (fs.nodes d).vfs.childCount < 32) (ref : NodeRef) :
    Appended fs (fs.appendChild d ref) d ref := by
  have hself : (fs.appendChild d ref).nodes d = { fs.nodes d with
      vfs := { (fs.nodes d).vfs with childCount := (fs.nodes d).vfs.childCount + 1 } } := by
    unfold appendChild modifyVfs setChildAt
    rw [modify_nodes_self, setSlots_nodes]
  have hkept : ∀ x, x ≠ d → Kept fs (fs.appendChild d ref) x := by
    intro x hx
    unfold appendChild modifyVfs setChildAt
    refine h.kept_modify hown (fun slots k hk => ?_) _ hx
    exact Function.update_of_ne (by omega) ..
  refine ⟨h.same (fun i => ?_) (setSlots_next fs d _), appendChild_core fs d ref, hkept, ?_, ?_, ?_,
    fun k => ?_⟩
  · by_cases hi : i = d
    · unfold window
      rw [hi, hself]
    · exact (hkept i hi).window
  · rw [hself]
  · rw [hself]
  · rw [hself]
  · rw [childAt_congr (fs.setChildAt d (fs.nodes d).vfs.childCount (some ref))
      (fs.appendChild d ref) (by unfold setChildAt; rw [hself, setSlots_nodes]) rfl rfl k]
    unfold setChildAt
    rw [childAt_setSlots_self, Function.update_apply]

theorem kept_rename (fs : Simplefs) (i x : Nat) (name : List Byte) :
    Kept fs (fs.modify i fun n => { n with name }) x := by
  have hn : ∃ name', (fs.modify i fun n => { n with name }).nodes x
      = { fs.nodes x with name := name' } := by
    by_cases hx : x = i
    · rw [hx, modify_nodes_self]
      exact ⟨name, rfl⟩
    · rw [modify_nodes_ne _ _ hx]
      exact ⟨_, rfl⟩
  obtain ⟨name', hn⟩ := hn
  refine ⟨⟨name', hn⟩, fun k _ => childAt_congr _ _ ?_ ?_ ?_ k⟩
  · rw [hn]
  · rfl
  · rfl

theorem enterChild_spec (h : Windows fs) (hown : (fs.nodes d).dirSlotBase ≠ none)
    (hcount : (fs.nodes d).vfs.childCount < 32) (child : Nat) (name : List Byte) :
    Appended fs (fs.enterChild d child name) d (.node child) := by
  obtain ⟨fs₁, hfs₁⟩ : ∃ fs₁, fs₁ = fs.modify child fun n => { n with name } := ⟨_, rfl⟩
  have hk : ∀ x, Kept fs fs₁ x := fun x => by rw [hfs₁]; exact kept_rename fs child x name
  have hw : Windows fs₁ := h.same (fun i => (hk i).window) (by rw [hfs₁]; rfl)
  have happ := appendChild_spec hw (by rw [(hk d).base]; exact hown)
    (by rw [(hk d).vfs]; exact hcount) (.node child)
  have hat : ∀ k, fs₁.childAt d k = fs.childAt d k := fun k =>
    childAt_congr fs fs₁ (by rw [(hk d).vfs]) (by rw [hfs₁]; rfl) (by rw [hfs₁]; rfl) k
  unfold enterChild
  rw [← hfs₁]
  refine ⟨happ.windows, ?_, fun x hx => (hk x).trans (happ.kept x hx), ?_, ?_, ?_, fun k => ?_⟩
  · rw [happ.core, hfs₁, modify_core rfl]
  · rw [happ.owned, (hk d).base]
  · rw [happ.populated, (hk d).populated]
  · rw [happ.count, (hk d).vfs]
  · rw [happ.slots, (hk d).vfs, hat]

end Simplefs

end Riverix.Fs
