import Mathlib.Order.Interval.Finset.Nat
import Riverix.Fs.SlotStores

/-!
# Slot windows are never given back

`simplefs_alloc_dir_slots` hands out windows of 32 slots from a pool of 512 by counting
`next_dir_entry_slot` up; nothing counts it down. So the counter is 32 times the number of
directories in use that own a window only as long as two things do not happen.

* A directory is removed. `simplefs_remove_child` resets its inode, and the window is
  nobody's; it even gives the directory a window first, to see whether it is empty.
* A directory that is not in use gets a window. A record can name an inode whose bit is
  clear; `simplefs_populate_directory` does not look at the bit, and walks into it if its
  record says that it is a directory. Such inodes are on the image or nowhere: the kernel
  clears the record of an inode with its bit.

**`guarded_run_windows_owned`** excludes the second on the image (`DirsUsed`) and the first
in every step (`DropsNoDirectory`). The argument is an invariant of three parts (`Recycled`):
the counter, that only directories own windows, and that directories are in use. A creation
takes an inode that is not in use, so it takes no window from anyone.

**`makeAndRemove_loses_window`** is what the first costs: after a directory has been made and
removed 14 times no directory can be removed.
-/

namespace Riverix.Fs

open Riverix.Lib

namespace Simplefs

variable {fs fs' : Simplefs} {d i : Nat}

/-- The directories in use that own a window. -/
def windowOwners (fs : Simplefs) : Finset Nat :=
  {i ∈ Finset.range fs.sb.inodeCount | fs.inodeUsed i = true ∧
    (fs.nodes i).disk.kind = kindDir ∧ (fs.nodes i).dirSlotBase ≠ none}

/-- Every window that was handed out has its directory. -/
def WindowsOwned (fs : Simplefs) : Prop := fs.nextDirEntrySlot = 32 * fs.windowOwners.card

/-- Every inode of the table that says it is a directory is in use. -/
def DirsUsed (fs : Simplefs) : Prop :=
  ∀ i < fs.sb.inodeCount, (fs.nodes i).disk.kind = kindDir → fs.inodeUsed i = true

instance (fs : Simplefs) : Decidable fs.DirsUsed :=
  inferInstanceAs (Decidable (∀ i < fs.sb.inodeCount, _ → _))

/-- The count with what carries it: only directories own windows, and directories are
inodes of the table that are in use. -/
structure Recycled (fs : Simplefs) : Prop where
  count : WindowsOwned fs
  owners : ∀ i, (fs.nodes i).dirSlotBase ≠ none → (fs.nodes i).disk.kind = kindDir
  table : ∀ i, (fs.nodes i).disk.kind = kindDir → i < fs.sb.inodeCount
  used : DirsUsed fs

/-- Where every directory is in use, the bits do not matter to who owns a window. -/
theorem DirsUsed.windowOwners (h : DirsUsed fs) : fs.windowOwners =
    {i ∈ Finset.range fs.sb.inodeCount |
      (fs.nodes i).disk.kind = kindDir ∧ (fs.nodes i).dirSlotBase ≠ none} :=
  Finset.filter_congr fun i hi => and_iff_right_of_imp fun hdir =>
    h i (Finset.mem_range.mp hi) hdir.1

/-- Nothing happened to the windows: the inodes that own one own the same, and the others
still own none. -/
theorem Recycled.congr (h : Recycled fs) (hsb : fs'.sb = fs.sb)
    (hnext : fs'.nextDirEntrySlot = fs.nextDirEntrySlot)
    (hbase : ∀ i, (fs'.nodes i).dirSlotBase = (fs.nodes i).dirSlotBase)
    (hkind : ∀ i, (fs'.nodes i).disk.kind = (fs.nodes i).disk.kind ∨
      (fs.nodes i).dirSlotBase = none ∧ i < fs.sb.inodeCount)
    (hused : DirsUsed fs') : Recycled fs' := by
  have howners : fs'.windowOwners = fs.windowOwners := by
    rw [hused.windowOwners, h.used.windowOwners, hsb]
    refine Finset.filter_congr fun i _ => ?_
    rw [hbase]
    rcases hkind i with hk | ⟨hn, -⟩
    · rw [hk]
    · rw [hn]
      simp
  refine ⟨?_, fun i hi => ?_, fun i hi => ?_, hused⟩
  · unfold WindowsOwned
    rw [howners, hnext]
    exact h.count
  · rw [hbase] at hi
    rcases hkind i with hk | ⟨hn, -⟩
    · rw [hk]
      exact h.owners i hi
    · exact absurd hn hi
  · rw [hsb]
    rcases hkind i with hk | ⟨-, hlt⟩
    · rw [hk] at hi
      exact h.table i hi
    · exact hlt

/-- The same, with the kinds and the bits as they were. -/
theorem Recycled.keep (h : Recycled fs) (hsb : fs'.sb = fs.sb)
    (hbits : fs'.inodeBitmap = fs.inodeBitmap)
    (hnext : fs'.nextDirEntrySlot = fs.nextDirEntrySlot)
    (hbase : ∀ i, (fs'.nodes i).dirSlotBase = (fs.nodes i).dirSlotBase)
    (hkind : ∀ i, (fs'.nodes i).disk.kind = (fs.nodes i).disk.kind) : Recycled fs' := by
  refine h.congr hsb hnext hbase (fun i => .inl (hkind i)) fun i hi hk => ?_
  rw [hsb] at hi
  rw [hkind] at hk
  rw [inodeUsed, hbits]
  exact h.used i hi hk

theorem Recycled.of_tree (h : Recycled fs) (ht : fs'.tree = fs.tree) : Recycled fs' :=
  h.keep (congrArg Tree.sb ht) (congrArg Tree.inodeBitmap ht) (congrArg Tree.nextDirEntrySlot ht)
    (fun i => congrArg (fun t => (t.nodes i).dirSlotBase) ht)
    fun i => congrArg (fun t => (t.nodes i).disk.kind) ht

theorem Recycled.onDevice (hd : OnDevice fs fs') (h : Recycled fs) : Recycled fs' :=
  h.of_tree hd.tree

/-- A change of one runtime inode that keeps its kind and its window. -/
theorem Recycled.modify (h : Recycled fs) {f : RuntimeInode → RuntimeInode}
    (hbase : (f (fs.nodes i)).dirSlotBase = (fs.nodes i).dirSlotBase)
    (hkind : (f (fs.nodes i)).disk.kind = (fs.nodes i).disk.kind) : Recycled (fs.modify i f) :=
  h.keep rfl rfl rfl (congrFun (modify_keeps (fun n => n.dirSlotBase) hbase))
    (congrFun (modify_keeps (fun n => n.disk.kind) hkind))

/-- An inode without a window becomes another one without a window, which is in use if it
is a directory. -/
theorem Recycled.replace (h : Recycled fs) {bits : Bitmap 8} {n : RuntimeInode}
    (hlt : i < fs.sb.inodeCount) (hi : (fs.nodes i).dirSlotBase = none) (hn : n.dirSlotBase = none)
    (hbits : ∀ j, j ≠ i → bits.test j = fs.inodeBitmap.test j)
    (hset : n.disk.kind = kindDir → bits.test i = true) :
    Recycled (({ fs with inodeBitmap := bits } : Simplefs).modify i fun _ => n) := by
  refine h.congr rfl rfl (fun j => ?_) (fun j => ?_) fun j hj hk => ?_ <;> by_cases hji : j = i
  · rw [hji, modify_nodes_self, hn, hi]
  · rw [modify_nodes_ne _ _ hji]
  · rw [hji]
    exact .inr ⟨hi, hlt⟩
  · exact .inl (by rw [modify_nodes_ne _ _ hji])
  · rw [hji, modify_nodes_self] at hk
    rw [hji]
    exact hset hk
  · rw [modify_nodes_ne _ _ hji] at hk
    exact (hbits j hji).trans (h.used j hj hk)

theorem Recycled.setSlots (h : Recycled fs) (d : Nat)
    (f : (Nat → Option NodeRef) → Nat → Option NodeRef) : Recycled (fs.setSlots d f) := by
  have hcore := setSlots_core fs d f
  exact h.keep (congrArg Core.sb hcore) (congrArg Core.inodeBitmap hcore) (setSlots_next fs d f)
    (fun i => by rw [setSlots_nodes]) fun i => by rw [setSlots_nodes]

theorem Recycled.appendChild (h : Recycled fs) (d : Nat) (ref : NodeRef) :
    Recycled (fs.appendChild d ref) := by
  unfold Simplefs.appendChild modifyVfs setChildAt
  exact Recycled.modify (h.setSlots d _) rfl rfl

/-- A directory that had no window gets the next one. -/
theorem Recycled.takeWindow (h : Recycled fs) (hk : (fs.nodes d).disk.kind = kindDir)
    (hn : (fs.nodes d).dirSlotBase = none) : Recycled (fs.takeWindow d) := by
  have hkind : ∀ i, ((fs.takeWindow d).nodes i).disk.kind = (fs.nodes i).disk.kind := by
    intro i
    by_cases hi : i = d
    · rw [hi, takeWindow_nodes_self]
    · rw [takeWindow_nodes_ne fs hi]
  have hused : DirsUsed (fs.takeWindow d) := fun i hi hdir => h.used i hi
    ((hkind i).symm.trans hdir)
  have howners : (fs.takeWindow d).windowOwners = insert d fs.windowOwners := by
    rw [hused.windowOwners, h.used.windowOwners]
    ext i
    rw [Finset.mem_insert, Finset.mem_filter, Finset.mem_filter, hkind]
    show i ∈ Finset.range fs.sb.inodeCount ∧ _ ↔ _
    by_cases hi : i = d
    · rw [hi, takeWindow_nodes_self]
      simp [hk, h.table d hk]
    · rw [takeWindow_nodes_ne fs hi]
      simp [hi]
  have hnot : d ∉ fs.windowOwners := by
    unfold windowOwners
    simp [hn]
  refine ⟨?_, fun i hi => ?_, fun i hi => ?_, hused⟩
  · unfold WindowsOwned
    rw [howners, Finset.card_insert_of_notMem hnot]
    have := h.count
    unfold WindowsOwned at this
    show fs.nextDirEntrySlot + 32 = _
    omega
  · rw [hkind]
    by_cases hid : i = d
    · rw [hid]
      exact hk
    · rw [takeWindow_nodes_ne fs hid] at hi
      exact h.owners i hi
  · rw [hkind] at hi
    exact h.table i hi

/-- Populating hands out windows to directories that have none. -/
theorem populate_recycled (h : Recycled fs) (d : Nat) : Recycled (fs.populate d).1 := by
  have hopen : ∀ {fs fs₁ fs₂ : Simplefs} {d count : Nat} {out : Option Store}, Recycled fs →
      (fs.nodes d).disk.kind = kindDir → fs.allocDirSlots d = (fs₁, true) →
      (fs₁.clearWindow d).readDirEntries d count = (fs₂, out) → Recycled fs₂ := by
    intro fs fs₁ fs₂ d count out h hk ha hr
    have h₁ : Recycled fs₁ := by
      unfold allocDirSlots at ha
      split at ha
      · exact (Prod.mk.inj ha).1 ▸ h
      next hn =>
        split at ha
        · exact absurd (Prod.mk.inj ha).2 (by simp)
        · exact (Prod.mk.inj ha).1 ▸ h.takeWindow hk (not_not.mp hn)
    have h₂ : Recycled (fs₁.clearWindow d) := by
      unfold clearWindow modifyVfs
      exact Recycled.modify (h₁.setSlots d _) rfl rfl
    exact h₂.onDevice (via (readDirEntries_onDevice ..) hr)
  have henter : ∀ {fs : Simplefs} (d child : Nat) (name : List Byte), Recycled fs →
      Recycled (fs.enterChild d child name) := fun d child name h =>
    Recycled.appendChild (h.modify rfl rfl) d _
  have hrule : PopulateRule (fun _ _ fs _ => Recycled fs) (fun _ _ _ fs' _ => Recycled fs')
      (fun _ _ _ _ _ _ fs₁ => Recycled fs₁) :=
    { deep := id
      other := fun h _ => h
      done := fun h _ => h
      refused := fun h _ _ _ => h
      full := fun h _ _ _ => h
      unread := fun h hop ha hr => hopen h hop.kind ha hr
      start := fun h hop ha hr => hopen h hop.kind ha hr
      bad := fun h _ _ => h
      leaf := fun h _ _ he _ => by subst he; exact henter _ _ _ h
      call := fun h _ _ he _ => by subst he; exact henter _ _ _ h
      back := fun _ _ _ _ _ h => h
      stop := fun _ _ _ _ _ h => h
      finish := fun h => h.modify rfl rfl }
  exact hrule.populate populateDepth [] fs d h

theorem writeDirEntries_recycled (h : Recycled fs) (d : Nat) (entries : Store) (count : Nat) :
    Recycled (fs.writeDirEntries d entries count).1 := by
  have ht := writeDirEntries_tree fs d entries count
  split at ht
  · exact Recycled.of_tree (h.modify rfl rfl) ht
  · exact h.of_tree ht

theorem writeDirEntries_windows (fs : Simplefs) (d : Nat) (entries : Store) (count : Nat) :
    (fs.writeDirEntries d entries count).1.sb = fs.sb ∧
      ((fs.writeDirEntries d entries count).1.nodes i).dirSlotBase = (fs.nodes i).dirSlotBase := by
  have ht := writeDirEntries_tree fs d entries count
  have hbase : ((fs.recordCount d count).nodes i).dirSlotBase = (fs.nodes i).dirSlotBase :=
    congrFun (modify_keeps (fun n => n.dirSlotBase) rfl) i
  split at ht
  · exact ⟨congrArg Tree.sb ht, (congrArg (fun t => (t.nodes i).dirSlotBase) ht).trans hbase⟩
  · exact ⟨congrArg Tree.sb ht, congrArg (fun t => (t.nodes i).dirSlotBase) ht⟩

/-! ## Creating -/

theorem Recycled.takeInode (h : Recycled fs) {n : RuntimeInode} (hlt : i < fs.sb.inodeCount)
    (hi : (fs.nodes i).dirSlotBase = none) (hn : n.dirSlotBase = none) :
    Recycled (fs.takeInode i n) := by
  refine h.replace hlt hi hn (fun j hj => ?_) fun _ => ?_ <;> rw [Bitmap.test_mark (by omega)]
  · simp [hj]
  · simp

theorem Recycled.giveInode (h : Recycled fs) (hlt : i < fs.sb.inodeCount)
    (hi : (fs.nodes i).dirSlotBase = none) : Recycled (fs.giveInode i) := by
  refine h.replace hlt hi rfl (fun j hj => ?_) fun hdir => absurd hdir (by decide)
  rw [Bitmap.test_clear (by omega)]
  simp [hj]

/-- Only a directory has a window to lose. -/
theorem Recycled.unowned (h : Recycled fs) (hk : (fs.nodes i).disk.kind ≠ kindDir) :
    (fs.nodes i).dirSlotBase = none := not_not.mp fun hb => hk (h.owners i hb)

theorem createChild_recycled (h : Recycled fs) (d : Nat) (isDir : Bool)
    (name : List Byte) (mode uid gid : Nat) :
    Recycled (fs.createChild d isDir name mode uid gid).1 := by
  refine createChild_rule Recycled.onDevice h (populate_recycled h d)
    fun fs₁ entries child fs₂ ok had h₁ hwrite => ?_
  -- the inode that is taken is not in use, so it is no directory
  obtain ⟨hlt, hfree⟩ := freeInode_some had.free
  have hnone : (fs₁.nodes child).dirSlotBase = none := h₁.unowned fun hdir =>
    absurd ((h₁.used child hlt hdir).symm.trans hfree) (by simp)
  have h₂ := h₁.takeInode hlt hnone (n := newChild isDir name mode uid gid) rfl
  have hset : Recycled fs₂ := via (writeDirEntries_recycled h₂ _ _ _) hwrite
  cases ok with
  | false =>
    have hkept := writeDirEntries_windows (i := child) (fs₁.takeInode child
      (newChild isDir name mode uid gid)) d (addEntry entries
        (fs.nodes d).disk.childCount child name)
      ((fs.nodes d).disk.childCount + 1)
    rw [hwrite] at hkept
    refine hset.giveInode (by rw [hkept.1]; exact hlt) ?_
    rw [hkept.2, takeInode, modify_nodes_self]
    rfl
  | true =>
    have hlog : Recycled (fs₂.logStore d) := hset.keep rfl rfl rfl (fun _ => rfl) fun _ => rfl
    exact hlog.appendChild d _

/-! ## Removing -/

theorem dropChild_recycled (h : Recycled fs) (d : Nat) {child : Nat}
    (hlt : child < fs.sb.inodeCount) (hnone : (fs.nodes child).dirSlotBase = none) (k : Nat)
    (entries : Store) : Recycled (fs.dropChild d child k entries).1 := by
  have hempty : Recycled (fs.emptyChild child) :=
    Recycled.modify (h.of_tree (releaseExtent_aside fs child).tree) rfl rfl
  have h₂ : Recycled (fs.unslotted d child k) := by
    unfold unslotted
    dsimp only
    split
    · exact hempty.setSlots d _
    · exact hempty
  refine dropChild_rule Recycled.onDevice
    (fun _ _ _ hw => via (writeDirEntries_recycled h₂ _ _ _) hw)
    fun records count fs₁ _ _ _ _ _ hw => ?_
  have h₃ : Recycled fs₁ := via (writeDirEntries_recycled h₂ _ _ _) hw
  have hkept := writeDirEntries_windows (i := child) (fs.unslotted d child k) d records count
  rw [hw] at hkept
  have h₄ : Recycled (fs₁.decrementCount d) := by
    unfold decrementCount modifyVfs
    exact Recycled.modify h₃ rfl rfl
  refine h₄.giveInode ?_ ?_
  · show child < fs₁.sb.inodeCount
    rw [hkept.1, (unslotted_steady fs d child k).sb]
    exact hlt
  · have hdec : ((fs₁.decrementCount d).nodes child).dirSlotBase
        = (fs₁.nodes child).dirSlotBase := by
      unfold decrementCount modifyVfs
      exact congrFun (modify_keeps (fun n => n.dirSlotBase) rfl) child
    rw [hdec, hkept.2, unslotted_nodes, emptyChild_nodes_self]
    exact hnone

theorem removeChild_recycled (h : Recycled fs) (name : List Byte)
    (hkind : ∀ child, fs.removes d name = some child → (fs.nodes child).disk.kind ≠ kindDir) :
    Recycled (fs.removeChild d name).1 := by
  refine removeChild_rule Recycled.onDevice (fun x h => populate_recycled h x) h
    fun a entries k h hdrop hrem => dropChild_recycled h d hdrop.inside (h.unowned ?_) k entries
  rw [disk_of_core hdrop.core]
  exact hkind _ hrem

/-! ## Runs -/

/-- What the step removes is not a directory. -/
def DropsNoDirectory (fs : Simplefs) : VfsOp → Prop
  | .tree (.remove dir name) => ∀ d child, fs.resolveDir dir = some d →
      fs.removes d name = some child → (fs.nodes child).disk.kind ≠ kindDir
  | _ => True

theorem attachDevices_recycled (h : Recycled fs) (hat : fs.attachDevices = some fs') :
    Recycled fs' := by
  obtain ⟨-, hd⟩ := attachDevices_rule (P := fun _ => Recycled) hat (fun _ _ => h)
    fun d a ref ha _ _ => ha.appendChild d ref
  exact hd

theorem perform_recycled (fs : Simplefs) (op : VfsOp) (h : Recycled fs)
    (hop : DropsNoDirectory fs op) : Recycled (fs.perform op) := by
  cases op with
  | attach =>
    unfold perform
    cases hat : fs.attachDevices with
    | none => exact h
    | some fs' => exact attachDevices_recycled h hat
  | tree e =>
    cases e with
    | create dir name isDir mode uid gid =>
      unfold perform step
      dsimp only
      split
      next d hres => exact createChild_recycled h d _ _ _ _ _
      · exact h
    | remove dir name =>
      unfold perform step
      dsimp only
      split
      next d hres => exact removeChild_recycled h name fun child hr => hop d child hres hr
      · exact h
    | write file offset buffer =>
      unfold perform step
      dsimp only
      split
      next i _ => exact h.of_tree (regularWrite_aside fs i _ _).tree
      · exact h
    | resize file size =>
      unfold perform step
      dsimp only
      split
      next i _ => exact h.of_tree (resizeNode_aside fs i _).tree
      · exact h

theorem mount_recycled {dev : Device} {amb : Ambient} (h : mount dev amb = some fs)
    (hused : DirsUsed fs) : Recycled fs := by
  obtain ⟨dev', sb, table, inodeBits, blockBits, hpop⟩ := mount_populated h
  have hcore := populate_core (loaded dev' amb sb table inodeBits blockBits) sb.rootInode
  rw [hpop] at hcore
  have hloaded : Recycled (loaded dev' amb sb table inodeBits blockBits) := by
    have hbare : ∀ i, ((loaded dev' amb sb table inodeBits blockBits).nodes i).dirSlotBase = none :=
      fun i => (loaded_bare i).2.1
    refine ⟨?_, fun i hi => absurd (hbare i) hi, fun i hi => ?_, fun i hi hk => ?_⟩
    · have hempty : (loaded dev' amb sb table inodeBits blockBits).windowOwners = ∅ :=
        Finset.filter_eq_empty_iff.mpr fun i _ hi => hi.2.2 (hbare i)
      unfold WindowsOwned
      rw [hempty]
      rfl
    · by_contra hge
      unfold loaded at hi
      dsimp only at hi hge
      rw [if_neg (show ¬ i < sb.inodeCount from hge)] at hi
      exact absurd hi (by decide)
    · -- the root is populated between the two, which leaves the table and the bits alone
      have hbits : fs.inodeBitmap = (loaded dev' amb sb table inodeBits blockBits).inodeBitmap :=
        congrArg Core.inodeBitmap hcore
      have hsb : fs.sb = (loaded dev' amb sb table inodeBits blockBits).sb := congrArg Core.sb hcore
      rw [inodeUsed, ← hbits]
      exact hused i (by rw [hsb]; exact hi) (by rw [disk_of_core hcore]; exact hk)
  have hdone := populate_recycled hloaded sb.rootInode
  rw [hpop] at hdone
  exact hdone

/-- **Where windows are kept.** In every run from a mount whose directories are in use,
whose extents stay inside the block bitmap and whose steps remove no directory, the counter
of slots is 32 times the number of directories in use that own a window. -/
theorem guarded_run_windows_owned {dev : Device} {amb : Ambient} {fs₀ : Simplefs}
    (hm : mount dev amb = some fs₀) (hused : DirsUsed fs₀) {ops : List VfsOp}
    (hops : Guarded perform (fun fs op => fs.Bounded ∧ DropsNoDirectory fs op) fs₀ ops) :
    WindowsOwned (run perform fs₀ ops) :=
  (guarded_invariant perform_recycled ops (mount_recycled hm hused)
    (hops.mono fun _ _ => And.right)).count

/-- A file is made and removed in the small image. -/
theorem guarded_run_windows_owned_sample :
    WindowsOwned (run perform sampleFs
      [.tree (.create [] ⟨[0x61], by decide⟩ false 0 0 0),
        .tree (.remove [] ⟨[0x61], by decide⟩)]) := by
  refine guarded_run_windows_owned sampleFs_mounted (by decide +kernel)
    ⟨⟨by decide +kernel, trivial⟩, ⟨by decide +kernel, fun d child hd hchild => ?_⟩, trivial⟩
  have hroot : (sampleFs.perform (.tree (.create [] ⟨[0x61], by decide⟩ false 0 0 0))).resolveDir []
      = some 0 := by decide +kernel
  obtain rfl := Option.some.inj (hroot.symm.trans hd)
  have hfile : (sampleFs.perform (.tree (.create [] ⟨[0x61], by decide⟩ false 0 0 0))).removes 0
      [0x61] = some 2 := by decide +kernel
  obtain rfl := Option.some.inj (hfile.symm.trans hchild)
  decide +kernel

/-- A directory is made and removed. -/
def makeAndRemove : List VfsOp :=
  [.tree (.create [] ⟨[0x61], letterA_text⟩ true 0 0 0), .tree (.remove [] ⟨[0x61], letterA_text⟩)]

/-- Once costs a window, and after 14 times no directory can be removed any more. -/
theorem makeAndRemove_loses_window :
    ¬ WindowsOwned (run perform sampleFs makeAndRemove) ∧
      ((sampleFs.createChild 0 true [0x62] 0 0 0).1.removeChild 0 [0x62]).2 = true ∧
      (((run perform sampleFs (List.replicate 14 makeAndRemove).flatten).createChild 0 true [0x62]
        0 0 0).1.removeChild 0 [0x62]).2 = false := by
  refine ⟨?_, ?_, ?_⟩
  · unfold WindowsOwned
    decide +kernel
  · decide +kernel
  · decide +kernel

end Simplefs

end Riverix.Fs
