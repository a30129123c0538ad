import Riverix.Fs.Blocks
import Riverix.Fs.Mount
import Riverix.Lib.Run

/-!
# Two views of the state

Most functions of `simplefs.c` work on one side of the state only. Those that move
blocks leave the *tree* alone: names, slots and windows, which inodes are in use,
their kinds, modes and owners, and how many records a directory has. Those that
build the tree in memory leave the *core* alone: the bitmaps, the disk records and
what `vfs_stat` reports of them. This file says so once for each of them, as an
equation between views.
-/

namespace Riverix.Fs

open Riverix.Lib

namespace RuntimeInode

/-- A runtime inode without what block operations change: its size and extent. -/
def tree (n : RuntimeInode) : RuntimeInode :=
  { n with
    disk := { n.disk with size := 0, dataBlock := 0, blockCount := 0 }
    vfs := { n.vfs with size := 0 } }

/-- A runtime inode without what building the tree changes: its name and window. -/
def core (n : RuntimeInode) : RuntimeInode :=
  { n with
    name := []
    populated := false
    dirSlotBase := none
    vfs := { n.vfs with children := none, childCount := 0, childCapacity := 0 } }

end RuntimeInode

/-- The view of the state that block operations keep. -/
structure Tree where
  sb : Superblock
  inodeBitmap : Bitmap 8
  nodes : Nat → RuntimeInode
  dirEntries : Nat → Option NodeRef
  nullEntries : Nat → Option NodeRef
  nextDirEntrySlot : Nat
  nullName : List Byte
  above : Store
  stores : List SlotStore

/-- The view of the state that building the tree keeps. -/
structure Core where
  sb : Superblock
  inodeBitmap : Bitmap 8
  blockBitmap : Bitmap 8
  inodeTableImage : Nat → DiskInode
  nodes : Nat → RuntimeInode

namespace Simplefs

variable {fs fs' fs'' : Simplefs} {d i : Nat}

def core (fs : Simplefs) : Core where
  sb := fs.sb
  inodeBitmap := fs.inodeBitmap
  blockBitmap := fs.blockBitmap
  inodeTableImage := fs.inodeTableImage
  nodes j := (fs.nodes j).core

def tree (fs : Simplefs) : Tree where
  sb := fs.sb
  inodeBitmap := fs.inodeBitmap
  nodes j := (fs.nodes j).tree
  dirEntries := fs.dirEntries
  nullEntries := fs.nullEntries
  nextDirEntrySlot := fs.nextDirEntrySlot
  nullName := fs.nullName
  above := fs.above
  stores := fs.stores

theorem disk_of_core (h : fs'.core = fs.core) (j : Nat) : (fs'.nodes j).disk = (fs.nodes j).disk :=
  congrArg (fun c => (c.nodes j).disk) h

theorem kind_of_core (h : fs'.core = fs.core) (j : Nat) :
    (fs'.nodes j).vfs.kind = (fs.nodes j).vfs.kind :=
  congrArg (fun c => (c.nodes j).vfs.kind) h

/-- Two states with the same tree differ, at an inode, in its size and extent. -/
theorem node_of_tree (h : fs'.tree = fs.tree) (j : Nat) :
    ∃ size dataBlock blockCount vsize, fs'.nodes j = { fs.nodes j with
      disk := { (fs.nodes j).disk with size, dataBlock, blockCount }
      vfs := { (fs.nodes j).vfs with size := vsize } } := by
  have hj : (fs'.nodes j).tree = (fs.nodes j).tree := congrArg (fun t => t.nodes j) h
  exact ⟨(fs'.nodes j).disk.size, (fs'.nodes j).disk.dataBlock, (fs'.nodes j).disk.blockCount,
    (fs'.nodes j).vfs.size, congrArg (fun t : RuntimeInode => { t with
      disk := { t.disk with
        size := (fs'.nodes j).disk.size
        dataBlock := (fs'.nodes j).disk.dataBlock
        blockCount := (fs'.nodes j).disk.blockCount }
      vfs := { t.vfs with size := (fs'.nodes j).vfs.size } }) hj⟩

theorem modify_nodes_self (fs : Simplefs) (i : Nat) (f : RuntimeInode → RuntimeInode) :
    (fs.modify i f).nodes i = f (fs.nodes i) :=
  Function.update_self ..

theorem modify_nodes_ne {j : Nat} (fs : Simplefs) (f : RuntimeInode → RuntimeInode) (h : j ≠ i) :
    (fs.modify i f).nodes j = fs.nodes j :=
  Function.update_of_ne h ..

/-- A part of every runtime inode that `f` keeps. -/
theorem modify_keeps {α : Type} (part : RuntimeInode → α) {f : RuntimeInode → RuntimeInode}
    (h : part (f (fs.nodes i)) = part (fs.nodes i)) :
    (fun j => part ((fs.modify i f).nodes j)) = fun j => part (fs.nodes j) := by
  funext j
  by_cases hj : j = i
  · subst hj
    rw [modify_nodes_self, h]
  · rw [modify_nodes_ne fs f hj]

theorem modify_tree {f : RuntimeInode → RuntimeInode}
    (h : (f (fs.nodes i)).tree = (fs.nodes i).tree) : (fs.modify i f).tree = fs.tree := by
  have := modify_keeps RuntimeInode.tree h
  unfold tree
  rw [this]
  rfl

theorem modify_core {f : RuntimeInode → RuntimeInode}
    (h : (f (fs.nodes i)).core = (fs.nodes i).core) : (fs.modify i f).core = fs.core := by
  have := modify_keeps RuntimeInode.core h
  unfold core
  rw [this]
  rfl

/-- What a change of one runtime inode does to the tree is a function of the tree. -/
theorem modify_tree_congr {f : RuntimeInode → RuntimeInode}
    (hf : ∀ n n' : RuntimeInode, n.tree = n'.tree → (f n).tree = (f n').tree)
    (h : fs'.tree = fs.tree) : (fs'.modify i f).tree = (fs.modify i f).tree := by
  have hn : (fun j => ((fs'.modify i f).nodes j).tree)
      = fun j => ((fs.modify i f).nodes j).tree := by
    funext j
    have hj : (fs'.nodes j).tree = (fs.nodes j).tree := congrArg (fun t => t.nodes j) h
    by_cases hji : j = i
    · subst hji
      rw [modify_nodes_self, modify_nodes_self]
      exact hf _ _ hj
    · rw [modify_nodes_ne fs' f hji, modify_nodes_ne fs f hji, hj]
  show ({ fs'.tree with nodes := fun j => ((fs'.modify i f).nodes j).tree } : Tree) = _
  rw [hn, h]
  rfl

theorem freeInode_some {child : Nat} (h : fs.freeInode = some child) :
    child < fs.sb.inodeCount ∧ fs.inodeUsed child = false := by
  refine ⟨List.mem_range.mp (List.mem_of_find?_eq_some h), ?_⟩
  simpa using List.find?_some h

theorem childIndex_lt {name : List Byte} (h : fs.childIndex d name = some k) :
    k < (fs.nodes d).vfs.childCount :=
  List.mem_range.mp (List.mem_of_find?_eq_some h)

theorem emptyChild_nodes_ne (fs : Simplefs) {child : Nat} (h : i ≠ child) :
    (fs.emptyChild child).nodes i = fs.nodes i := by
  unfold emptyChild releaseExtent modifyDisk
  rw [modify_nodes_ne _ _ h]
  rw [modify_nodes_ne _ _ h]
  split <;> rfl

theorem emptyChild_nodes_self (fs : Simplefs) (child : Nat) :
    (fs.emptyChild child).nodes child = { fs.nodes child with
      disk :=
        { (fs.nodes child).disk with dataBlock := 0, blockCount := 0, size := 0, childCount := 0 }
      vfs := { (fs.nodes child).vfs with size := 0 } } := by
  unfold emptyChild releaseExtent modifyDisk
  rw [modify_nodes_self]
  rw [modify_nodes_self]
  split <;> rfl

/-- More records than a directory can have are refused. -/
theorem writeDirEntries_too_many {entries : Store} {count : Nat} (h : count > directoryCapacity) :
    fs.writeDirEntries d entries count = (fs, false) := by
  unfold writeDirEntries
  rw [if_pos (Or.inr (Or.inr h))]

theorem dirRequiredBlocks_eq {count : Nat} (h : count ≤ directoryCapacity) :
    dirRequiredBlocks count = (count + 15) / 16 := by
  have h : count ≤ 32 := h
  unfold dirRequiredBlocks alignedUnits
  split
  · omega
  · omega

/-! ## Functions that leave the tree alone -/

/-- What no operation changes: the superblock in memory and the device itself, its size,
whether it takes writes, and, if it refuses nothing, that it refuses nothing. -/
structure Steady (fs fs' : Simplefs) : Prop where
  sb : fs'.sb = fs.sb
  blocks : fs'.dev.blockCount = fs.dev.blockCount
  readOnly : fs'.dev.readOnly = fs.dev.readOnly
  faults : fs.dev.faults = [] → fs'.dev.faults = []

theorem Steady.refl (fs : Simplefs) : Steady fs fs := ⟨rfl, rfl, rfl, fun h => h⟩

theorem Steady.trans (h : Steady fs fs') (h' : Steady fs' fs'') : Steady fs fs'' :=
  ⟨h'.sb.trans h.sb, h'.blocks.trans h.blocks, h'.readOnly.trans h.readOnly,
    fun hf => h'.faults (h.faults hf)⟩

/-- A change of the memory only. -/
theorem Steady.of_dev (hsb : fs'.sb = fs.sb) (hdev : fs'.dev = fs.dev) : Steady fs fs' :=
  ⟨hsb, by rw [hdev], by rw [hdev], fun h => by rw [hdev]; exact h⟩

/-- Only the device was used, and the copy of the inode table that goes there. -/
structure OnDevice (fs fs' : Simplefs) : Prop where
  eq : ∃ dev image, fs' = { fs with dev := dev, inodeTableImage := image }
  steady : Steady fs fs'

/-- A function that moves blocks keeps the tree. -/
structure Aside (fs fs' : Simplefs) : Prop where
  tree : fs'.tree = fs.tree
  steady : Steady fs fs'

theorem OnDevice.refl (fs : Simplefs) : OnDevice fs fs := ⟨⟨_, _, rfl⟩, Steady.refl fs⟩

theorem OnDevice.trans (h : OnDevice fs fs') (h' : OnDevice fs' fs'') : OnDevice fs fs'' := by
  refine ⟨?_, h.steady.trans h'.steady⟩
  obtain ⟨_, _, rfl⟩ := h.eq
  obtain ⟨dev, image, rfl⟩ := h'.eq
  exact ⟨dev, image, rfl⟩

theorem OnDevice.aside (h : OnDevice fs fs') : Aside fs fs' := by
  refine ⟨?_, h.steady⟩
  obtain ⟨_, _, rfl⟩ := h.eq
  rfl

theorem OnDevice.tree (h : OnDevice fs fs') : fs'.tree = fs.tree := h.aside.tree

theorem Aside.refl (fs : Simplefs) : Aside fs fs := ⟨rfl, Steady.refl fs⟩

theorem Aside.trans (h : Aside fs fs') (h' : Aside fs' fs'') : Aside fs fs'' :=
  ⟨h'.tree.trans h.tree, h.steady.trans h'.steady⟩

/-- A change of the block bitmap. -/
theorem Aside.bitmap (fs : Simplefs) (blockBitmap : Bitmap 8) : Aside fs { fs with blockBitmap } :=
  ⟨rfl, Steady.of_dev rfl rfl⟩

/-- A change of the size or of the extent of an inode. -/
theorem Aside.modify {f : RuntimeInode → RuntimeInode}
    (h : (f (fs.nodes i)).tree = (fs.nodes i).tree) : Aside fs (fs.modify i f) :=
  ⟨modify_tree h, Steady.of_dev rfl rfl⟩

theorem Aside.modifyDisk {f : DiskInode → DiskInode}
    (h : ({ fs.nodes i with disk := f (fs.nodes i).disk } : RuntimeInode).tree
    = (fs.nodes i).tree) :
    Aside fs (fs.modifyDisk i f) := Aside.modify h

/-- What a loop does, if each of its turns does so. -/
theorem loop_rel {R : Simplefs → Simplefs → Prop} (hrefl : ∀ fs, R fs fs)
    (htrans : ∀ {a b c}, R a b → R b c → R a c) {body : Simplefs → Nat → Simplefs × Bool}
    (h : ∀ fs x, R fs (body fs x).1) (xs : List Nat) : ∀ fs, R fs (loop body xs fs).1 := by
  induction xs with
  | nil => exact hrefl
  | cons x xs ih =>
    intro fs
    rw [loop]
    split
    next he => exact htrans (via (h fs x) he) (ih _)
    next he => exact via (h fs x) he

theorem readBlocks_onDevice (fs : Simplefs) (start count : Nat) :
    OnDevice fs (fs.readBlocks start count).1 := by
  have h := Device.read_kept fs.dev start count
  exact ⟨⟨_, _, rfl⟩, rfl, h.blockCount, h.readOnly, h.faults⟩

theorem writeBlocks_onDevice (fs : Simplefs) (start count : Nat) (buffer : Store) :
    OnDevice fs (fs.writeBlocks start count buffer).1 := by
  obtain ⟨hb, hr⟩ := Device.write_same fs.dev start count buffer
  refine ⟨⟨_, _, rfl⟩, rfl, hb, hr, fun hf => ?_⟩
  show (fs.dev.write start count buffer).1.faults = []
  unfold Device.write
  rw [hf]
  split
  · exact hf
  · exact hf

theorem zeroExtent_onDevice (fs : Simplefs) (start : Nat) (indices : List Nat) :
    OnDevice fs (fs.zeroExtent start indices).1 :=
  loop_rel OnDevice.refl OnDevice.trans (fun _ _ => writeBlocks_onDevice ..) indices fs

theorem copyExtent_onDevice (fs : Simplefs) (fromBlock toBlock count : Nat) :
    OnDevice fs (fs.copyExtent fromBlock toBlock count).1 := by
  refine loop_rel OnDevice.refl OnDevice.trans (fun fs x => ?_) _ fs
  have h := readBlocks_onDevice fs (fromBlock + x) 1
  unfold copyBlock
  split
  next he => exact via h he
  next he => exact (via h he).trans (writeBlocks_onDevice ..)

theorem zeroRange_onDevice (fs : Simplefs) (i offset length : Nat) :
    OnDevice fs (fs.zeroRange i offset length).1 := by
  induction length using Nat.strongRecOn generalizing fs offset with
  | _ length ih =>
    rw [zeroRange]
    split
    · exact OnDevice.refl fs
    dsimp only
    have hread := readBlocks_onDevice fs ((fs.nodes i).disk.dataBlock + offset / 512) 1
    split
    next he => exact via hread he
    next fs₁ scratch he =>
    have hwrite := (via hread he).trans (writeBlocks_onDevice fs₁
      ((fs.nodes i).disk.dataBlock + offset / 512) 1
      (scratch.write (offset % 512) (List.replicate (min length (512 - offset % 512)) 0)))
    split
    next he => exact via hwrite he
    next he => exact (via hwrite he).trans (ih _ (by omega) _ _)

theorem readLoop_onDevice (fs : Simplefs) (i offset length : Nat) (done : List Byte) :
    OnDevice fs (fs.readLoop i offset length done).1 := by
  induction length using Nat.strongRecOn generalizing fs offset done with
  | _ length ih =>
    unfold readLoop
    dsimp only
    split
    · exact OnDevice.refl fs
    split
    · exact OnDevice.refl fs
    · have hread := readBlocks_onDevice fs ((fs.nodes i).disk.dataBlock + offset / 512) 1
      split
      next he => exact via hread he
      next he => exact (via hread he).trans (ih _ (by omega) _ _ _)

theorem regularRead_onDevice (fs : Simplefs) (i offset length : Nat) :
    OnDevice fs (fs.regularRead i offset length).1 := by
  unfold regularRead
  dsimp only
  split
  · exact OnDevice.refl fs
  · have h := readLoop_onDevice fs i offset (min length ((fs.nodes i).disk.size - offset)) []
    split
    next he => exact via h he
    next he => exact via h he

theorem writeLoop_onDevice (fs : Simplefs) (i offset : Nat) (buffer : List Byte) (written : Nat) :
    OnDevice fs (fs.writeLoop i offset buffer written).1 := by
  obtain ⟨length, hlen⟩ : ∃ length, length = buffer.length := ⟨_, rfl⟩
  induction length using Nat.strongRecOn generalizing fs offset buffer written with
  | _ length ih =>
    rw [writeLoop]
    split
    · exact OnDevice.refl fs
    have hdrop : (buffer.drop (min buffer.length (512 - offset % 512))).length < length := by
      rw [List.length_drop]
      omega
    dsimp only
    split
    · have hwrite := writeBlocks_onDevice fs ((fs.nodes i).disk.dataBlock + offset / 512) 1
        fun k => buffer.getD k 0
      split
      next he => exact via hwrite he
      next he => exact (via hwrite he).trans (ih _ hdrop _ _ _ _ rfl)
    have hread := readBlocks_onDevice fs ((fs.nodes i).disk.dataBlock + offset / 512) 1
    split
    next he => exact via hread he
    next fs₁ scratch he =>
    have hwrite := (via hread he).trans (writeBlocks_onDevice fs₁
      ((fs.nodes i).disk.dataBlock + offset / 512) 1 (scratch.write (offset % 512)
        (buffer.take (min buffer.length (512 - offset % 512)))))
    split
    next he => exact via hwrite he
    next he => exact (via hwrite he).trans (ih _ hdrop _ _ _ _ rfl)

theorem readDirEntries_onDevice (fs : Simplefs) (d count : Nat) :
    OnDevice fs (fs.readDirEntries d count).1 := by
  unfold readDirEntries
  dsimp only
  split
  · exact OnDevice.refl fs
  split
  · exact OnDevice.refl fs
  · have hread := readBlocks_onDevice fs (fs.nodes d).disk.dataBlock (dirRequiredBlocks count)
    split
    next he => exact via hread he
    next he => exact via hread he

theorem flushMetadata_onDevice (fs : Simplefs) : OnDevice fs fs.flushMetadata.1 := by
  unfold flushMetadata
  split
  · exact OnDevice.refl fs
  have h₁ : OnDevice fs fs.flushSuperblock.1 := writeBlocks_onDevice ..
  split
  next he => exact via h₁ he
  next fs₁ he =>
  have h₂ : OnDevice fs fs₁.flushInodeTable.1 := by
    refine OnDevice.trans ?_ (writeBlocks_onDevice ..)
    exact (via h₁ he).trans ⟨⟨_, _, rfl⟩, Steady.of_dev rfl rfl⟩
  split
  next he => exact via h₂ he
  next fs₂ he =>
  have h₃ : OnDevice fs fs₂.flushInodeBitmap.1 := (via h₂ he).trans (writeBlocks_onDevice ..)
  split
  next he => exact via h₃ he
  next he => exact (via h₃ he).trans (writeBlocks_onDevice ..)

theorem allocateExtent_aside (fs : Simplefs) (count : Nat) :
    Aside fs (fs.allocateExtent count).1 := by
  unfold allocateExtent
  split
  · exact Aside.refl fs
  · split
    · exact Aside.refl fs
    · exact Aside.bitmap ..

theorem releaseExtent_aside (fs : Simplefs) (i : Nat) : Aside fs (fs.releaseExtent i) := by
  unfold releaseExtent
  refine Aside.trans ?_ (Aside.modifyDisk rfl)
  split
  · exact Aside.bitmap ..
  · exact Aside.refl fs

theorem released_aside (fs : Simplefs) (d : Nat) : Aside fs (fs.released d) := by
  unfold released
  split
  · exact releaseExtent_aside fs d
  · exact Aside.refl fs

theorem moveExtent_aside (fs : Simplefs) (i required : Nat) :
    Aside fs (fs.moveExtent i required).1 := by
  unfold moveExtent
  dsimp only
  have halloc := allocateExtent_aside fs required
  split
  next he => exact via halloc he
  next fs₁ start he =>
  have hcopy := (via halloc he).trans (copyExtent_onDevice fs₁ (fs.nodes i).disk.dataBlock start
    (fs.nodes i).disk.blockCount).aside
  split
  next he => exact (via hcopy he).trans (Aside.bitmap ..)
  next fs₂ he =>
  have hzero := (via hcopy he).trans (zeroExtent_onDevice fs₂ start
    (List.range' (fs.nodes i).disk.blockCount (required - (fs.nodes i).disk.blockCount))).aside
  split
  next he => exact (via hzero he).trans (Aside.bitmap ..)
  next he =>
    dsimp only
    exact ((via hzero he).trans (Aside.bitmap ..)).trans (Aside.modifyDisk rfl)

theorem ensureExtent_aside (fs : Simplefs) (i required : Nat) :
    Aside fs (fs.ensureExtent i required).1 := by
  unfold ensureExtent
  dsimp only
  split
  · exact Aside.refl fs
  split
  · have halloc := allocateExtent_aside fs required
    unfold firstExtent
    split
    next he => exact via halloc he
    next he =>
      exact ((via halloc he).trans (Aside.modifyDisk rfl)).trans (zeroExtent_onDevice ..).aside
  split
  · unfold growExtent
    dsimp only
    have hzero := (Aside.bitmap fs _).trans (zeroExtent_onDevice (fs.markExtent
      ((fs.nodes i).disk.dataBlock + (fs.nodes i).disk.blockCount)
      (required - (fs.nodes i).disk.blockCount))
      ((fs.nodes i).disk.dataBlock + (fs.nodes i).disk.blockCount)
      (List.range (required - (fs.nodes i).disk.blockCount))).aside
    split
    next he => exact via hzero he
    next he =>
      dsimp only
      exact (via hzero he).trans (Aside.modifyDisk rfl)
  · exact moveExtent_aside fs i required

theorem fitDirectory_aside (fs : Simplefs) (d required : Nat) :
    Aside fs (fs.fitDirectory d required).1 := by
  have hrel := released_aside fs d
  unfold fitDirectory
  split
  · exact hrel
  split
  · exact Aside.refl fs
  have halloc := hrel.trans (allocateExtent_aside (fs.released d) required)
  split
  next he => exact via halloc he
  next fs₁ start he =>
  have hzero := ((via halloc he).trans (Aside.modifyDisk rfl)).trans (zeroExtent_onDevice
    (fs₁.modifyDisk d fun n => { n with dataBlock := start, blockCount := required }) start
    (List.range required)).aside
  dsimp only
  split
  next he => exact (via hzero he).trans (releaseExtent_aside ..)
  next he => exact via hzero he

theorem recordCount_tree (h : fs'.tree = fs.tree) (d count : Nat) :
    (fs'.recordCount d count).tree = (fs.recordCount d count).tree := by
  refine modify_tree_congr (fun n n' hn => ?_) h
  exact congrArg (fun t : RuntimeInode =>
    ({ t with disk := { t.disk with childCount := count } } : RuntimeInode)) hn

/-- Storing records changes how many there are, or nothing. -/
theorem writeDirEntries_stored (fs : Simplefs) (d : Nat) (entries : Store) (count : Nat) :
    Steady fs (fs.writeDirEntries d entries count).1 ∧
      (fs.writeDirEntries d entries count).1.tree = if (fs.writeDirEntries d entries count).2
        then (fs.recordCount d count).tree else fs.tree := by
  unfold writeDirEntries
  split
  · exact ⟨Steady.refl fs, rfl⟩
  have hfit := fitDirectory_aside fs d (dirRequiredBlocks count)
  split
  next he => exact ⟨(via hfit he).steady, (via hfit he).tree⟩
  next fs₁ he =>
  replace hfit := via hfit he
  unfold storeDirectory
  dsimp only
  split
  · exact ⟨hfit.steady.trans (Steady.of_dev rfl rfl), recordCount_tree hfit.tree d count⟩
  have hwrite := hfit.trans (writeBlocks_onDevice fs₁ (fs₁.nodes d).disk.dataBlock
    (dirRequiredBlocks count) entries).aside
  split
  next he =>
    have hrel := (via hwrite he).trans (releaseExtent_aside _ d)
    exact ⟨hrel.steady, hrel.tree⟩
  next he =>
    exact ⟨(via hwrite he).steady.trans (Steady.of_dev rfl rfl),
      recordCount_tree (via hwrite he).tree d count⟩

theorem writeDirEntries_tree (fs : Simplefs) (d : Nat) (entries : Store) (count : Nat) :
    (fs.writeDirEntries d entries count).1.tree = if (fs.writeDirEntries d entries count).2
      then (fs.recordCount d count).tree else fs.tree :=
  (writeDirEntries_stored fs d entries count).2

theorem resizeExtent_aside (fs : Simplefs) (i newSize : Nat) :
    Aside fs (fs.resizeExtent i newSize).1 := by
  unfold resizeExtent
  dsimp only
  split
  · have hens := ensureExtent_aside fs i (requiredBlocks newSize)
    split
    next he => exact via hens he
    next he =>
      split
      · exact (via hens he).trans (zeroRange_onDevice ..).aside
      · exact via hens he
  split
  · split
    · exact releaseExtent_aside fs i
    split
    · refine Aside.trans ?_ (zeroRange_onDevice ..).aside
      exact (Aside.bitmap ..).trans (Aside.modifyDisk rfl)
    · dsimp only
      exact (Aside.bitmap ..).trans (Aside.modifyDisk rfl)
  · exact Aside.refl fs

theorem resizeNode_aside (fs : Simplefs) (i newSize : Nat) :
    Aside fs (fs.resizeNode i newSize).1 := by
  have hextent := resizeExtent_aside fs i newSize
  unfold resizeNode
  split
  · exact Aside.refl fs
  · split
    next he => exact via hextent he
    next he =>
      exact ((via hextent he).trans (Aside.modify rfl)).trans (flushMetadata_onDevice _).aside

theorem regularWrite_aside (fs : Simplefs) (i offset : Nat) (buffer : List Byte) :
    Aside fs (fs.regularWrite i offset buffer).1 := by
  unfold regularWrite
  dsimp only
  split
  · exact Aside.refl fs
  split
  · exact Aside.refl fs
  split
  · exact Aside.refl fs
  have hgrown : Aside fs (if offset + buffer.length > (fs.nodes i).disk.size
      then fs.resizeNode i (offset + buffer.length) else (fs, true)).1 := by
    split
    · exact resizeNode_aside ..
    · exact Aside.refl fs
  split
  next he => exact via hgrown he
  next fs₁ he =>
  have hloop := (via hgrown he).trans (writeLoop_onDevice fs₁ i offset buffer 0).aside
  split
  next he => exact via hloop he
  next he => exact via hloop he

/-! ## Functions that leave the disk alone -/

/-- On a device without faults a read changes nothing. -/
theorem readBlocks_fst (hf : fs.dev.faults = []) (start count : Nat) :
    (fs.readBlocks start count).1 = fs := by
  have : (fs.dev.read start count).1 = fs.dev := by
    unfold Device.read
    rw [hf]
    split <;> rfl
  unfold readBlocks
  rw [this]

theorem readDirEntries_fst (hf : fs.dev.faults = []) (d count : Nat) :
    (fs.readDirEntries d count).1 = fs := by
  unfold readDirEntries
  dsimp only
  split
  · rfl
  split
  · rfl
  · have hr := readBlocks_fst hf (fs.nodes d).disk.dataBlock (dirRequiredBlocks count)
    split
    next h => rw [h] at hr; exact hr
    next h => rw [h] at hr; exact hr

@[simp] theorem setSlots_core (fs : Simplefs) (d : Nat)
    (f : (Nat → Option NodeRef) → Nat → Option NodeRef) : (fs.setSlots d f).core = fs.core := by
  unfold setSlots
  split <;> rfl

@[simp] theorem setSlots_dev (fs : Simplefs) (d : Nat)
    (f : (Nat → Option NodeRef) → Nat → Option NodeRef) : (fs.setSlots d f).dev = fs.dev := by
  unfold setSlots
  split <;> rfl

@[simp] theorem setSlots_nodes (fs : Simplefs) (d : Nat)
    (f : (Nat → Option NodeRef) → Nat → Option NodeRef) : (fs.setSlots d f).nodes = fs.nodes := by
  unfold setSlots
  split <;> rfl

@[simp] theorem appendChild_core (fs : Simplefs) (d : Nat) (ref : NodeRef) :
    (fs.appendChild d ref).core = fs.core := by
  unfold appendChild modifyVfs setChildAt
  rw [modify_core rfl, setSlots_core]

@[simp] theorem clearWindow_core (fs : Simplefs) (d : Nat) : (fs.clearWindow d).core = fs.core := by
  unfold clearWindow modifyVfs
  rw [modify_core rfl, setSlots_core]

@[simp] theorem allocDirSlots_core (fs : Simplefs) (d : Nat) :
    (fs.allocDirSlots d).1.core = fs.core := by
  unfold allocDirSlots
  split
  · rfl
  split
  · rfl
  · unfold takeWindow
    rw [modify_core rfl]
    rfl

theorem findChild_fst (fs : Simplefs) (d : Nat) (name : List Byte) :
    (fs.findChild d name).1 = (fs.populate d).1 := by
  unfold findChild
  split
  next h => rw [h]
  next h => rw [h]

end Simplefs

end Riverix.Fs
