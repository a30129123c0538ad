import Riverix.Fs.Device

/-!
# The file system (`simplefs.c`)

The state is the statics of the file: the mounted device and superblock, the two
bitmaps, the table of runtime inodes and the pool of directory slots. A directory
owns a *window* of 32 slots of the pool once it has been populated; its entries
are kept twice, as 32-byte records in the directory's blocks and as references in
its window, and the two copies are kept in step by index.

Pointers are modelled by what they point to. A slot refers to a runtime inode or
to one of the two device nodes that `vfs.c` attaches; its name is the name buffer
of that node. The page at address 0 is mapped, so a directory without a window is
not caught: its slots are then the words at address 0 (`nullEntries`), and a null
name is the text there. The 32 records of an entry buffer lie on the stack, and
the bytes above them (`above`) are what the caller's frame holds.

`stores` logs the slot stores of `simplefs_create_child`.
-/

namespace Riverix.Fs

open Riverix.Lib

/-- `SIMPLEFS_NAME_MAX` -/
abbrev nameMax : Nat := 28

/-- `SIMPLEFS_DIRECTORY_CAPACITY` -/
abbrev directoryCapacity : Nat := 32

/-- `SIMPLEFS_MAX_MOUNT_DIRENTS` -/
abbrev maxMountDirents : Nat := 512

/-- `SIMPLEFS_MAX_MOUNT_INODES` -/
abbrev maxMountInodes : Nat := 64

/-- `SIMPLEFS_MAX_MOUNT_BLOCKS` -/
abbrev maxMountBlocks : Nat := 32768

/-- A C string: its bytes without the terminator. -/
abbrev Name := { text : List Byte // (0 : Byte) ∉ text }

/-- `vfs_inode_kind_t` -/
inductive VfsKind
  | none
  | dev
  | reg
  | dir
  deriving DecidableEq, Repr

/-- What a directory slot points to: an inode of the table, or a node of `vfs.c`. -/
inductive NodeRef
  | node (i : Nat)
  | console
  | tty
  deriving DecidableEq, Repr

/-- The part of `vfs_inode_t` that is kept here; `children` is the first slot of
the window, if any. -/
structure VfsInode where
  kind : VfsKind
  refCount : Nat
  size : Nat
  children : Option Nat
  childCount : Nat
  childCapacity : Nat
  mode : Nat
  uid : Nat
  gid : Nat
  links : Nat
  deriving DecidableEq, Repr

/-- `simplefs_runtime_inode_t` -/
structure RuntimeInode where
  disk : DiskInode
  vfs : VfsInode
  name : List Byte
  populated : Bool
  dirSlotBase : Option Nat
  deriving DecidableEq, Repr

/-- A slot store of `simplefs_create_child`: into which window, at which index,
and what the capacity was. -/
structure SlotStore where
  directory : Nat
  window : Option Nat
  index : Nat
  capacity : Nat
  deriving DecidableEq, Repr

/-- The statics of `simplefs.c`. -/
structure Simplefs where
  dev : Device
  sb : Superblock
  inodeBitmap : Bitmap 8
  blockBitmap : Bitmap 8
  nodes : Nat → RuntimeInode
  inodeTableImage : Nat → DiskInode
  dirEntries : Nat → Option NodeRef
  nullEntries : Nat → Option NodeRef
  nextDirEntrySlot : Nat
  nullName : List Byte
  above : Store
  stores : List SlotStore

/-- `align_up(value, alignment) / alignment`, on 32-bit values. -/
def alignedUnits (value alignment : Nat) : Nat := (value + alignment - 1) % 2 ^ 32 / alignment

/-- `simplefs_required_blocks` -/
def requiredBlocks (size : Nat) : Nat := if size = 0 then 0 else alignedUnits size 512

/-- `simplefs_dir_required_blocks` -/
def dirRequiredBlocks (entryCount : Nat) : Nat :=
  if entryCount = 0 then 0 else alignedUnits (entryCount * 32 % 2 ^ 32) 512

namespace Simplefs

/-- The bit of the inode is set, whether or not there is such an inode. -/
def inodeUsed (fs : Simplefs) (i : Nat) : Bool := fs.inodeBitmap.test i

def blockUsed (fs : Simplefs) (b : Nat) : Bool := fs.blockBitmap.test b

/-- Change a runtime inode. -/
def modify (fs : Simplefs) (i : Nat) (f : RuntimeInode → RuntimeInode) : Simplefs :=
  { fs with nodes := Function.update fs.nodes i (f (fs.nodes i)) }

/-- Change the disk record of a runtime inode. -/
def modifyDisk (fs : Simplefs) (i : Nat) (f : DiskInode → DiskInode) : Simplefs :=
  fs.modify i fun n => { n with disk := f n.disk }

/-- Change the `vfs` part of a runtime inode. -/
def modifyVfs (fs : Simplefs) (i : Nat) (f : VfsInode → VfsInode) : Simplefs :=
  fs.modify i fun n => { n with vfs := f n.vfs }

/-! ## Blocks -/

/-- `simplefs_read_blocks` -/
def readBlocks (fs : Simplefs) (start count : Nat) : Simplefs × Option Store :=
  ({ fs with dev := (fs.dev.read start count).1 }, (fs.dev.read start count).2)

/-- `simplefs_write_blocks` -/
def writeBlocks (fs : Simplefs) (start count : Nat) (buffer : Store) : Simplefs × Bool :=
  ({ fs with dev := (fs.dev.write start count buffer).1 }, (fs.dev.write start count buffer).2)

/-- A loop over block numbers or indices that stops at the first failure. -/
def loop (body : Simplefs → Nat → Simplefs × Bool) : List Nat → Simplefs → Simplefs × Bool
  | [], fs => (fs, true)
  | x :: xs, fs =>
    match body fs x with
    | (fs, true) => loop body xs fs
    | (fs, false) => (fs, false)

/-- `simplefs_flush_superblock` -/
def flushSuperblock (fs : Simplefs) : Simplefs × Bool :=
  fs.writeBlocks 0 1 (encodeSuperblock fs.sb)

/-- `simplefs_flush_inode_table` -/
def flushInodeTable (fs : Simplefs) : Simplefs × Bool :=
  let image i := if i < fs.sb.inodeCount then (fs.nodes i).disk else fs.inodeTableImage i
  { fs with inodeTableImage := image }.writeBlocks fs.sb.inodeTableStart fs.sb.inodeTableBlocks
    (encodeTable image)

/-- `simplefs_flush_inode_bitmap` -/
def flushInodeBitmap (fs : Simplefs) : Simplefs × Bool :=
  fs.writeBlocks fs.sb.inodeBitmapStart fs.sb.inodeBitmapBlocks fs.inodeBitmap

/-- `simplefs_flush_block_bitmap` -/
def flushBlockBitmap (fs : Simplefs) : Simplefs × Bool :=
  fs.writeBlocks fs.sb.blockBitmapStart fs.sb.blockBitmapBlocks fs.blockBitmap

/-- `simplefs_flush_metadata` -/
def flushMetadata (fs : Simplefs) : Simplefs × Bool :=
  if fs.dev.readOnly then (fs, false)
  else
    match fs.flushSuperblock with
    | (fs, false) => (fs, false)
    | (fs, true) =>
      match fs.flushInodeTable with
      | (fs, false) => (fs, false)
      | (fs, true) =>
        match fs.flushInodeBitmap with
        | (fs, false) => (fs, false)
        | (fs, true) => fs.flushBlockBitmap

/-- `simplefs_zero_block` -/
def zeroBlock (fs : Simplefs) (b : Nat) : Simplefs × Bool := fs.writeBlocks b 1 fun _ => 0

/-! ## Extents -/

/-- The numbers of the image are such as the arrays and words of `simplefs.c` are made for:
the data area starts inside the file system, and no extent reaches past the
`SIMPLEFS_MAX_MOUNT_BLOCKS` bits of `block_bitmap`. `simplefs_mount` checks neither.

The bitmap of this model has no end and its block numbers are natural numbers. The code marks
and clears bits without a check of the index, so with a larger extent it stores into the
statics behind `block_bitmap[4096]`, and its sums of block numbers wrap at 32 bits. What is
proved of a run of the code asks for `Bounded` before every step; the theorems about single
functions say what they ask for. -/
structure Bounded (fs : Simplefs) : Prop where
  area : fs.sb.dataBlockStart ≤ fs.sb.totalBlocks
  extents : ∀ i < fs.sb.inodeCount,
    (fs.nodes i).disk.dataBlock + (fs.nodes i).disk.blockCount ≤ maxMountBlocks

instance (fs : Simplefs) : Decidable fs.Bounded :=
  decidable_of_iff (_ ∧ _) ⟨fun h => ⟨h.1, h.2⟩, fun h => ⟨h.area, h.extents⟩⟩

/-- `simplefs_extent_is_free` -/
def extentIsFree (fs : Simplefs) (start count : Nat) : Bool :=
  !(decide (start < fs.sb.dataBlockStart) || decide (start + count > fs.sb.totalBlocks))
    && (List.range count).all fun index => !fs.blockUsed (start + index)

/-- `simplefs_mark_extent`, with `used` set; the index is not checked, see `Bounded`. -/
def markExtent (fs : Simplefs) (start count : Nat) : Simplefs :=
  { fs with blockBitmap := fs.blockBitmap.markRange start count }

/-- `simplefs_mark_extent`, with `used` clear; the index is not checked, see `Bounded`. -/
def unmarkExtent (fs : Simplefs) (start count : Nat) : Simplefs :=
  { fs with blockBitmap := fs.blockBitmap.clearRange start count }

/-- The first free run of `count` blocks of the data area. The sums are those of the source
below `2 ^ 32`, so for a data area that starts inside the disk (`allocateExtent32_eq`). -/
def findExtent (fs : Simplefs) (count : Nat) : Option Nat :=
  (List.range' fs.sb.dataBlockStart
    (fs.sb.totalBlocks + 1 - (fs.sb.dataBlockStart + count))).find? (fs.extentIsFree · count)

/-- `simplefs_allocate_extent` -/
def allocateExtent (fs : Simplefs) (count : Nat) : Simplefs × Option Nat :=
  if count = 0 then (fs, none)
  else
    match fs.findExtent count with
    | none => (fs, none)
    | some start => (fs.markExtent start count, some start)

/-- `simplefs_release_extent` -/
def releaseExtent (fs : Simplefs) (i : Nat) : Simplefs :=
  let fs := if (fs.nodes i).disk.blockCount ≠ 0
    then fs.unmarkExtent (fs.nodes i).disk.dataBlock (fs.nodes i).disk.blockCount else fs
  fs.modifyDisk i fun n => { n with dataBlock := 0, blockCount := 0 }

/-- One turn of `simplefs_copy_extent`. -/
def copyBlock (fromBlock toBlock : Nat) (fs : Simplefs) (index : Nat) : Simplefs × Bool :=
  match fs.readBlocks (fromBlock + index) 1 with
  | (fs, none) => (fs, false)
  | (fs, some scratch) => fs.writeBlocks (toBlock + index) 1 scratch

/-- `simplefs_copy_extent` -/
def copyExtent (fs : Simplefs) (fromBlock toBlock count : Nat) : Simplefs × Bool :=
  loop (copyBlock fromBlock toBlock) (List.range count) fs

/-- Zero the blocks of a run, in the given order of indices. -/
def zeroExtent (fs : Simplefs) (start : Nat) (indices : List Nat) : Simplefs × Bool :=
  loop (fun fs index => fs.zeroBlock (start + index)) indices fs

/-- `simplefs_ensure_extent`, for a node without blocks. -/
def firstExtent (fs : Simplefs) (i required : Nat) : Simplefs × Bool :=
  match fs.allocateExtent required with
  | (fs, none) => (fs, false)
  | (fs, some start) =>
    let fs := fs.modifyDisk i fun n => { n with dataBlock := start, blockCount := required }
    fs.zeroExtent start (List.range required).reverse

/-- `simplefs_ensure_extent`, when the blocks after the extent are free. -/
def growExtent (fs : Simplefs) (i required : Nat) : Simplefs × Bool :=
  let n := (fs.nodes i).disk
  let fs := fs.markExtent (n.dataBlock + n.blockCount) (required - n.blockCount)
  match fs.zeroExtent (n.dataBlock + n.blockCount) (List.range (required - n.blockCount)) with
  | (fs, false) => (fs, false)
  | (fs, true) => (fs.modifyDisk i fun n => { n with blockCount := required }, true)

/-- `simplefs_ensure_extent`, when the extent has to move. -/
def moveExtent (fs : Simplefs) (i required : Nat) : Simplefs × Bool :=
  let n := (fs.nodes i).disk
  match fs.allocateExtent required with
  | (fs, none) => (fs, false)
  | (fs, some start) =>
    match fs.copyExtent n.dataBlock start n.blockCount with
    | (fs, false) => (fs.unmarkExtent start required, false)
    | (fs, true) =>
      match fs.zeroExtent start (List.range' n.blockCount (required - n.blockCount)) with
      | (fs, false) => (fs.unmarkExtent start required, false)
      | (fs, true) =>
        ((fs.unmarkExtent n.dataBlock n.blockCount).modifyDisk i fun n =>
          { n with dataBlock := start, blockCount := required }, true)

/-- `simplefs_ensure_extent` -/
def ensureExtent (fs : Simplefs) (i required : Nat) : Simplefs × Bool :=
  let n := (fs.nodes i).disk
  if required ≤ n.blockCount then (fs, true)
  else if n.blockCount = 0 then fs.firstExtent i required
  else if fs.extentIsFree (n.dataBlock + n.blockCount) (required - n.blockCount) then
    fs.growExtent i required
  else fs.moveExtent i required

/-! ## Directories -/

/-- The 32 zeroed records of an entry buffer, and the stack above them. -/
def entryBuffer (fs : Simplefs) : Store := fun k => if k < 1024 then 0 else fs.above (k - 1024)

/-- The inode number of record `k` of an entry buffer. -/
def entryInode (entries : Store) (k : Nat) : Nat := entries.load32 (32 * k)

/-- The C string at the name field of record `k`, up to one byte more than a name
may have: nothing looks further than whether the string is too long. -/
def entryName (entries : Store) (k : Nat) : List Byte :=
  (entries.read (32 * k + 4) (nameMax + 1)).takeWhile (· != 0)

/-- `simplefs_read_dir_entries` -/
def readDirEntries (fs : Simplefs) (d entryCount : Nat) : Simplefs × Option Store :=
  let n := (fs.nodes d).disk
  let required := dirRequiredBlocks entryCount
  if entryCount = 0 then (fs, some fs.entryBuffer)
  else if n.dataBlock = 0 ∨ n.blockCount ≠ required then (fs, none)
  else
    match fs.readBlocks n.dataBlock required with
    | (fs, none) => (fs, none)
    | (fs, some blocks) => (fs, some (fs.entryBuffer.paste 0 (512 * required) blocks))

/-- A directory that has given its blocks back, if it had any. -/
def released (fs : Simplefs) (d : Nat) : Simplefs :=
  if (fs.nodes d).disk.blockCount ≠ 0 then fs.releaseExtent d else fs

/-- `simplefs_write_dir_entries`, the part that gives the directory exactly the
blocks it needs. -/
def fitDirectory (fs : Simplefs) (d required : Nat) : Simplefs × Bool :=
  if required = 0 then (fs.released d, true)
  else if (fs.nodes d).disk.blockCount = required then (fs, true)
  else
    -- the old blocks are given back before the new ones are known to exist
    match (fs.released d).allocateExtent required with
    | (fs, none) => (fs, false)
    | (fs, some start) =>
      let fs := fs.modifyDisk d fun n => { n with dataBlock := start, blockCount := required }
      match fs.zeroExtent start (List.range required) with
      | (fs, false) => (fs.releaseExtent d, false)
      | (fs, true) => (fs, true)

/-- `simplefs_write_dir_entries`, the new number of records. -/
def recordCount (fs : Simplefs) (d entryCount : Nat) : Simplefs :=
  fs.modify d fun n =>
    { n with
      disk := { n.disk with childCount := entryCount, size := entryCount * 32 }
      vfs := { n.vfs with size := entryCount * 32 } }

/-- `simplefs_write_dir_entries`, the part that stores the records. -/
def storeDirectory (fs : Simplefs) (d : Nat) (entries : Store) (entryCount : Nat) :
    Simplefs × Bool :=
  let required := dirRequiredBlocks entryCount
  if required = 0 then (fs.recordCount d entryCount, true)
  else
    match fs.writeBlocks (fs.nodes d).disk.dataBlock required entries with
    | (fs, false) => (fs.releaseExtent d, false)
    | (fs, true) => (fs.recordCount d entryCount, true)

/-- `simplefs_write_dir_entries` -/
def writeDirEntries (fs : Simplefs) (d : Nat) (entries : Store) (entryCount : Nat) :
    Simplefs × Bool :=
  if fs.dev.readOnly ∨ (fs.nodes d).disk.kind ≠ kindDir ∨ entryCount > directoryCapacity then
    (fs, false)
  else
    match fs.fitDirectory d (dirRequiredBlocks entryCount) with
    | (fs, false) => (fs, false)
    | (fs, true) => fs.storeDirectory d entries entryCount

/-- The directory gets the next 32 slots of the pool. -/
def takeWindow (fs : Simplefs) (d : Nat) : Simplefs :=
  { fs with nextDirEntrySlot := fs.nextDirEntrySlot + directoryCapacity }.modify d fun n =>
    { n with
      dirSlotBase := some fs.nextDirEntrySlot
      vfs := { n.vfs with
        children := some fs.nextDirEntrySlot
        childCapacity := directoryCapacity } }

/-- `simplefs_alloc_dir_slots` -/
def allocDirSlots (fs : Simplefs) (d : Nat) : Simplefs × Bool :=
  if (fs.nodes d).dirSlotBase ≠ none then (fs, true)
  else if fs.nextDirEntrySlot + directoryCapacity > maxMountDirents then (fs, false)
  else (fs.takeWindow d, true)

/-- `directory->vfs.children[k]` -/
def childAt (fs : Simplefs) (d k : Nat) : Option NodeRef :=
  match (fs.nodes d).vfs.children with
  | some base => fs.dirEntries (base + k)
  | none => fs.nullEntries k

/-- Replace the slots of a directory. -/
def setSlots (fs : Simplefs) (d : Nat) (f : (Nat → Option NodeRef) → Nat → Option NodeRef) :
    Simplefs :=
  match (fs.nodes d).vfs.children with
  | some base =>
    { fs with dirEntries := fun k =>
        if base ≤ k then f (fun j => fs.dirEntries (base + j)) (k - base) else fs.dirEntries k }
  | none => { fs with nullEntries := f fs.nullEntries }

/-- `directory->vfs.children[k] = ...` -/
def setChildAt (fs : Simplefs) (d k : Nat) (ref : Option NodeRef) : Simplefs :=
  fs.setSlots d fun slots => Function.update slots k ref

/-- Add a slot at the end of `directory->vfs.children`. -/
def appendChild (fs : Simplefs) (d : Nat) (ref : NodeRef) : Simplefs :=
  (fs.setChildAt d (fs.nodes d).vfs.childCount (some ref)).modifyVfs d fun v =>
    { v with childCount := v.childCount + 1 }

/-- The directory before its entries are read: no children, all slots empty. -/
def clearWindow (fs : Simplefs) (d : Nat) : Simplefs :=
  (fs.setSlots d fun slots k => if k < directoryCapacity then none else slots k).modifyVfs d
    fun v => { v with childCount := 0 }

/-- A child that was read from the disk gets its name and the next slot. -/
def enterChild (fs : Simplefs) (d child : Nat) (name : List Byte) : Simplefs :=
  (fs.modify child fun n => { n with name }).appendChild d (.node child)

/-- One turn of the loop of `simplefs_populate_directory`; `populate` is the
recursive call. -/
def populateEntry (populate : Simplefs → Nat → Simplefs × Bool) (d : Nat) (entries : Store)
    (fs : Simplefs) (index : Nat) : Simplefs × Bool :=
  let child := entryInode entries index
  let name := entryName entries index
  if child ≥ fs.sb.inodeCount ∨ name.length = 0 ∨ name.length > nameMax then (fs, false)
  else
    let fs := fs.enterChild d child name
    if (fs.nodes child).disk.kind = kindDir ∧ (fs.nodes child).populated = false then
      populate fs child
    else (fs, true)

/-- `simplefs_populate_directory`; `active` holds the directories whose calls are
under way. A directory met again among them is where the C code recurses for ever:
the call does not succeed. The distinct ones are inodes of the table, so the depth
of the calls is bounded by its size. -/
def populateDirectory : Nat → List Nat → Simplefs → Nat → Simplefs × Bool
  | 0, _, fs, _ => (fs, false)
  | fuel + 1, active, fs, d =>
    let n := fs.nodes d
    if n.disk.kind ≠ kindDir then (fs, false)
    else if n.populated then (fs, true)
    else if d ∈ active ∨ n.disk.childCount > directoryCapacity then (fs, false)
    else
      match fs.allocDirSlots d with
      | (fs, false) => (fs, false)
      | (fs, true) =>
        match (fs.clearWindow d).readDirEntries d n.disk.childCount with
        | (fs, none) => (fs, false)
        | (fs, some entries) =>
          match loop (populateEntry (populateDirectory fuel (d :: active)) d entries)
              (List.range n.disk.childCount) fs with
          | (fs, false) => (fs, false)
          | (fs, true) => (fs.modify d fun n => { n with populated := true }, true)

/-- Deeper than the 64 inodes can nest. -/
abbrev populateDepth : Nat := maxMountInodes + 1

def populate (fs : Simplefs) (d : Nat) : Simplefs × Bool := populateDirectory populateDepth [] fs d

/-- The name of what a slot refers to. -/
def slotName (fs : Simplefs) : Option NodeRef → List Byte
  | some (.node i) => (fs.nodes i).name
  | some .console => [0x63, 0x6F, 0x6E, 0x73, 0x6F, 0x6C, 0x65]
  | some .tty => [0x74, 0x74, 0x79]
  | none => fs.nullName

/-- The first slot of the directory with this name. -/
def childIndex (fs : Simplefs) (d : Nat) (name : List Byte) : Option Nat :=
  (List.range (fs.nodes d).vfs.childCount).find? fun k => fs.slotName (fs.childAt d k) == name

/-- `simplefs_find_child` -/
def findChild (fs : Simplefs) (d : Nat) (name : List Byte) : Simplefs × Option Nat :=
  match fs.populate d with
  | (fs, false) => (fs, none)
  | (fs, true) => (fs, fs.childIndex d name)

/-- The inode that `simplefs_alloc_inode` finds. -/
def freeInode (fs : Simplefs) : Option Nat :=
  (List.range fs.sb.inodeCount).find? fun i => !fs.inodeUsed i

end Simplefs

/-- `simplefs_reset_runtime_inode` -/
def RuntimeInode.reset : RuntimeInode where
  disk := .zero
  vfs := ⟨.none, 0, 0, none, 0, 0, 0, 0, 0, 0⟩
  name := []
  populated := false
  dirSlotBase := none

namespace Simplefs

/-- The runtime inode of a new child. -/
def newChild (isDir : Bool) (name : List Byte) (mode uid gid : Nat) : RuntimeInode :=
  { RuntimeInode.reset with
    disk := { DiskInode.zero with kind := if isDir then kindDir else kindFile, mode, uid, gid }
    vfs := { RuntimeInode.reset.vfs with
      kind := if isDir then .dir else .reg
      mode, uid, gid
      links := 1 }
    name }

/-- The inode found by `simplefs_alloc_inode` is marked and initialised. -/
def takeInode (fs : Simplefs) (i : Nat) (n : RuntimeInode) : Simplefs :=
  { fs with inodeBitmap := fs.inodeBitmap.mark i }.modify i fun _ => n

/-- An inode is marked free and reset. -/
def giveInode (fs : Simplefs) (i : Nat) : Simplefs :=
  { fs with inodeBitmap := fs.inodeBitmap.clear i }.modify i fun _ => RuntimeInode.reset

/-- The slot store that is about to happen is logged. -/
def logStore (fs : Simplefs) (d : Nat) : Simplefs :=
  let v := (fs.nodes d).vfs
  { fs with stores := ⟨d, v.children, v.childCount, v.childCapacity⟩ :: fs.stores }

/-- The new child gets the next slot of the directory. -/
def linkChild (fs : Simplefs) (d child : Nat) : Simplefs :=
  (fs.logStore d).appendChild d (.node child)

/-- The entry buffer with a record added at position `k`. -/
def addEntry (entries : Store) (k inode : Nat) (name : List Byte) : Store :=
  (entries.store32 (32 * k) inode).write (32 * k + 4) name

/-- `simplefs_create_child`, once the name is known to be free. -/
def addChild (fs : Simplefs) (d : Nat) (isDir : Bool) (name : List Byte) (mode uid gid : Nat) :
    Simplefs × Option Nat :=
  let count := (fs.nodes d).disk.childCount
  if count ≥ directoryCapacity then (fs, none)
  else
    match fs.readDirEntries d count with
    | (fs, none) => (fs, none)
    | (fs, some entries) =>
      match fs.freeInode with
      | none => (fs, none)
      | some child =>
        let fs := fs.takeInode child (newChild isDir name mode uid gid)
        match fs.writeDirEntries d (addEntry entries count child name) (count + 1) with
        | (fs, false) => (fs.giveInode child, none)
        | (fs, true) =>
          match (fs.linkChild d child).flushMetadata with
          | (fs, false) => (fs, none)
          | (fs, true) => (fs, some child)

/-- `simplefs_create_child` -/
def createChild (fs : Simplefs) (d : Nat) (isDir : Bool) (name : List Byte) (mode uid gid : Nat) :
    Simplefs × Option Nat :=
  if (fs.nodes d).disk.kind ≠ kindDir ∨ fs.dev.readOnly ∨ name.length = 0 ∨ name.length > nameMax
  then (fs, none)
  else
    -- a directory that cannot be populated counts as one without the name
    match fs.findChild d name with
    | (fs, some _) => (fs, none)
    | (fs, none) => fs.addChild d isDir name mode uid gid

/-- The entry buffer with record `k` of `count` taken out: the later ones move up and
the last one is zeroed. -/
def dropEntry (entries : Store) (k count : Nat) : Store := fun a =>
  if 32 * k ≤ a ∧ a < 32 * (count - 1) then entries (a + 32)
  else if 32 * (count - 1) ≤ a ∧ a < 32 * count then 0
  else entries a

/-- The slots with slot `k` taken out, by the same indices as the records. -/
def dropSlot (k count : Nat) (slots : Nat → Option NodeRef) (j : Nat) : Option NodeRef :=
  if k ≤ j ∧ j < count - 1 then slots (j + 1)
  else if j = count - 1 then none
  else slots j

/-- The child loses its blocks and its size. -/
def emptyChild (fs : Simplefs) (child : Nat) : Simplefs :=
  (fs.releaseExtent child).modify child fun n =>
    { n with
      disk := { n.disk with size := 0, childCount := 0 }
      vfs := { n.vfs with size := 0 } }

/-- The directory has one child less. -/
def decrementCount (fs : Simplefs) (d : Nat) : Simplefs :=
  fs.modifyVfs d fun v => { v with childCount := v.childCount - 1 }

/-- `simplefs_remove_child`, once the child is known to be removable. -/
def dropChild (fs : Simplefs) (d child k : Nat) (entries : Store) : Simplefs × Bool :=
  let fs := fs.emptyChild child
  let count := (fs.nodes d).disk.childCount
  -- the count has just become 0 if the entry names its own directory
  let fs := if count ≠ 0 then fs.setSlots d (dropSlot k count) else fs
  let entries := if count ≠ 0 then dropEntry entries k count else entries
  match fs.writeDirEntries d entries ((count + 2 ^ 32 - 1) % 2 ^ 32) with
  | (fs, false) => (fs, false)
  | (fs, true) => ((fs.decrementCount d).giveInode child).flushMetadata

/-- `simplefs_remove_child`, the checks on the child. -/
def removeEntry (fs : Simplefs) (d k : Nat) (entries : Store) : Simplefs × Bool :=
  let child := entryInode entries k
  if child ≥ fs.sb.inodeCount ∨ fs.inodeUsed child = false
      ∨ (fs.nodes child).vfs.refCount ≠ 0 then (fs, false)
  else if (fs.nodes child).disk.kind = kindDir then
    match fs.populate child with
    | (fs, false) => (fs, false)
    | (fs, true) =>
      if (fs.nodes child).vfs.childCount ≠ 0 then (fs, false) else fs.dropChild d child k entries
  else fs.dropChild d child k entries

/-- `simplefs_remove_child` -/
def removeChild (fs : Simplefs) (d : Nat) (name : List Byte) : Simplefs × Bool :=
  if (fs.nodes d).disk.kind ≠ kindDir ∨ fs.dev.readOnly then (fs, false)
  else
    match fs.populate d with
    | (fs, false) => (fs, false)
    | (fs, true) =>
      match fs.findChild d name with
      | (fs, none) => (fs, false)
      | (fs, some k) =>
        if k ≥ (fs.nodes d).disk.childCount then (fs, false)
        else
          match fs.readDirEntries d (fs.nodes d).disk.childCount with
          | (fs, none) => (fs, false)
          | (fs, some entries) => fs.removeEntry d k entries

/-! ## Files -/

/-- `simplefs_zero_range` -/
def zeroRange (fs : Simplefs) (i offset length : Nat) : Simplefs × Bool :=
  if length = 0 then (fs, true)
  else
    let block := (fs.nodes i).disk.dataBlock + offset / 512
    let chunk := min length (512 - offset % 512)
    match fs.readBlocks block 1 with
    | (fs, none) => (fs, false)
    | (fs, some scratch) =>
      match fs.writeBlocks block 1 (scratch.write (offset % 512) (List.replicate chunk 0)) with
      | (fs, false) => (fs, false)
      | (fs, true) => fs.zeroRange i (offset + chunk) (length - chunk)
termination_by length
decreasing_by omega

/-- `simplefs_resize_node`, the part that changes the extent. -/
def resizeExtent (fs : Simplefs) (i newSize : Nat) : Simplefs × Bool :=
  let n := (fs.nodes i).disk
  let required := requiredBlocks newSize
  if required > n.blockCount then
    match fs.ensureExtent i required with
    | (fs, false) => (fs, false)
    | (fs, true) =>
      if newSize > n.size then fs.zeroRange i n.size (newSize - n.size) else (fs, true)
  else if required < n.blockCount then
    if required = 0 then (fs.releaseExtent i, true)
    else
      let fs := fs.unmarkExtent (n.dataBlock + required) (n.blockCount - required)
      let fs := fs.modifyDisk i fun n => { n with blockCount := required }
      if newSize % 512 ≠ 0 then fs.zeroRange i newSize (512 - newSize % 512) else (fs, true)
  else (fs, true)

/-- `simplefs_resize_node`, the new size. -/
def setSize (fs : Simplefs) (i newSize : Nat) : Simplefs :=
  fs.modify i fun n =>
    { n with
      disk := { n.disk with size := newSize }
      vfs := { n.vfs with size := newSize } }

/-- `simplefs_resize_node` -/
def resizeNode (fs : Simplefs) (i newSize : Nat) : Simplefs × Bool :=
  if fs.dev.readOnly ∨ (fs.nodes i).disk.kind ≠ kindFile then (fs, false)
  else
    match fs.resizeExtent i newSize with
    | (fs, false) => (fs, false)
    | (fs, true) => (fs.setSize i newSize).flushMetadata

/-- The loop of `simplefs_regular_read`: the bytes read so far are in `done`, and
`false` means that it stopped early. -/
def readLoop (fs : Simplefs) (i offset length : Nat) (done : List Byte) :
    Simplefs × List Byte × Bool :=
  if length = 0 then (fs, done, true)
  else
    let n := (fs.nodes i).disk
    let chunk := min length (512 - offset % 512)
    if offset / 512 ≥ n.blockCount then (fs, done, false)
    else
      match fs.readBlocks (n.dataBlock + offset / 512) 1 with
      | (fs, none) => (fs, done, false)
      | (fs, some scratch) =>
        fs.readLoop i (offset + chunk) (length - chunk) (done ++ scratch.read (offset % 512) chunk)
termination_by length
decreasing_by omega

/-- `simplefs_regular_read`: the bytes delivered and the new offset, or -1. -/
def regularRead (fs : Simplefs) (i offset length : Nat) : Simplefs × Option (List Byte × Nat) :=
  let n := (fs.nodes i).disk
  if offset ≥ n.size then (fs, some ([], offset))
  else
    match fs.readLoop i offset (min length (n.size - offset)) [] with
    | (fs, done, true) => (fs, some (done, offset + done.length))
    -- an early stop reports what was read and leaves the offset alone
    | (fs, done, false) => (fs, if done.length ≠ 0 then some (done, offset) else none)

/-- The loop of `simplefs_regular_write`: `buffer` is what is left to write. -/
def writeLoop (fs : Simplefs) (i offset : Nat) (buffer : List Byte) (written : Nat) :
    Simplefs × Nat × Bool :=
  if buffer.length = 0 then (fs, written, true)
  else
    let block := (fs.nodes i).disk.dataBlock + offset / 512
    let chunk := min buffer.length (512 - offset % 512)
    if offset % 512 = 0 ∧ chunk = 512 then
      match fs.writeBlocks block 1 fun k => buffer.getD k 0 with
      | (fs, false) => (fs, written, false)
      | (fs, true) => fs.writeLoop i (offset + chunk) (buffer.drop chunk) (written + chunk)
    else
      match fs.readBlocks block 1 with
      | (fs, none) => (fs, written, false)
      | (fs, some scratch) =>
        match fs.writeBlocks block 1 (scratch.write (offset % 512) (buffer.take chunk)) with
        | (fs, false) => (fs, written, false)
        | (fs, true) => fs.writeLoop i (offset + chunk) (buffer.drop chunk) (written + chunk)
termination_by buffer.length
decreasing_by all_goals (rw [List.length_drop]; omega)

/-- `simplefs_regular_write`: the number of bytes written and the new offset, or -1. -/
def regularWrite (fs : Simplefs) (i offset : Nat) (buffer : List Byte) :
    Simplefs × Option (Nat × Nat) :=
  let n := (fs.nodes i).disk
  if fs.dev.readOnly ∨ n.kind ≠ kindFile then (fs, none)
  else if buffer.length = 0 then (fs, some (0, offset))
  -- `end_offset` wraps
  else if offset + buffer.length ≥ 2 ^ 32 then (fs, none)
  else
    let grown := if offset + buffer.length > n.size then fs.resizeNode i (offset + buffer.length)
      else (fs, true)
    match grown with
    | (fs, false) => (fs, none)
    | (fs, true) =>
      match fs.writeLoop i offset buffer 0 with
      | (fs, written, true) => (fs, some (written, offset + written))
      | (fs, written, false) => (fs, if written ≠ 0 then some (written, offset) else none)

end Simplefs

end Riverix.Fs
