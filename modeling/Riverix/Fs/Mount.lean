import Riverix.Fs.Simplefs

/-!
# Mounting and walking the tree (`simplefs_mount`, `vfs.c`)

`mount` reads the metadata of a device into the statics and populates the tree
from the root; `resolve` is the walk of `vfs_resolve_path` over the components of
a path, and `attachDevices` the end of `vfs_init`. The operations on the tree
reach their inode by a path, as the callers in `vfs.c` do; permissions are left
out, so every caller is one that may do everything.
-/

namespace Riverix.Fs

open Riverix.Lib

/-- What the mount does not initialise. -/
structure Ambient where
  inodeTableImage : Nat → DiskInode
  nullEntries : Nat → Option NodeRef
  nullName : List Byte
  above : Store

/-- The checks of `simplefs_mount` on the superblock. -/
def Superblock.accepted (sb : Superblock) (blockCount : Nat) : Bool :=
  sb.magic == 0x31534653 && sb.version == 3 && sb.blockSize == 512
    && sb.totalBlocks != 0 && decide (sb.totalBlocks ≤ blockCount)
    && decide (sb.totalBlocks ≤ maxMountBlocks)
    && sb.inodeCount != 0 && decide (sb.inodeCount ≤ maxMountInodes)
    && decide (sb.rootInode < sb.inodeCount)
    && alignedUnits (sb.inodeCount * 32) 512 == sb.inodeTableBlocks
    && sb.inodeBitmapBlocks == 1
    && sb.blockBitmapBlocks == alignedUnits (alignedUnits sb.totalBlocks 8) 512

/-- The runtime inode made from the disk record of inode `i`. -/
def loadInode (disk : DiskInode) (used : Bool) : RuntimeInode :=
  { RuntimeInode.reset with
    disk
    vfs := { RuntimeInode.reset.vfs with
      kind :=
        if used = false then .none
        else if disk.kind = kindDir then .dir
        else .reg
      size := disk.size
      mode := disk.mode
      uid := disk.uid
      gid := disk.gid
      links := 1 } }

namespace Simplefs

/-- A zeroed buffer after a read of `count` blocks into it. -/
def filled (count : Nat) (blocks : Store) : Store :=
    fun k => if k < 512 * count then blocks k else 0

/-- The statics before the tree is populated. -/
def loaded (dev : Device) (amb : Ambient) (sb : Superblock) (table inodeBits blockBits : Store) :
    Simplefs where
  dev := dev
  sb := sb
  inodeBitmap := filled 1 inodeBits
  blockBitmap := filled sb.blockBitmapBlocks blockBits
  nodes i :=
    if i < sb.inodeCount then
      let node := loadInode (decodeInode table i) (Bitmap.test (w := 8) (filled 1 inodeBits) i)
      if i = sb.rootInode then { node with name := [0x2F] } else node
    else RuntimeInode.reset
  inodeTableImage := amb.inodeTableImage
  dirEntries _ := none
  nullEntries := amb.nullEntries
  nextDirEntrySlot := 0
  nullName := amb.nullName
  above := amb.above
  stores := []

/-- `simplefs_mount` -/
def mount (dev : Device) (amb : Ambient) : Option Simplefs :=
  match dev.read 0 1 with
  | (_, none) => none
  | (dev, some block) =>
    let sb := decodeSuperblock block
    if sb.accepted dev.blockCount = false then none
    else
      match dev.read sb.inodeTableStart sb.inodeTableBlocks with
      | (_, none) => none
      | (dev, some table) =>
        match dev.read sb.inodeBitmapStart sb.inodeBitmapBlocks with
        | (_, none) => none
        | (dev, some inodeBits) =>
          match dev.read sb.blockBitmapStart sb.blockBitmapBlocks with
          | (_, none) => none
          | (dev, some blockBits) =>
            let fs := loaded dev amb sb table inodeBits blockBits
            -- a used inode is a directory or a file
            if (List.range sb.inodeCount).all fun i =>
                !fs.inodeUsed i || (fs.nodes i).disk.kind == kindDir
                  || (fs.nodes i).disk.kind == kindFile then
              match fs.populate sb.rootInode with
              | (_, false) => none
              | (fs, true) => some fs
            else none

/-! ### What a successful mount says about the device -/

section Accepted

variable {dev : Device} {amb : Ambient} {sb : Superblock} {table inodeBits blockBits : Store}
  {i n : Nat}

/-- The bounds that the checks on the superblock establish. -/
structure AcceptedBounds (sb : Superblock) (blockCount : Nat) : Prop where
  total_pos : sb.totalBlocks ≠ 0
  total_le : sb.totalBlocks ≤ blockCount
  total_max : sb.totalBlocks ≤ maxMountBlocks
  inode_max : sb.inodeCount ≤ maxMountInodes
  root_lt : sb.rootInode < sb.inodeCount
  table_blocks : sb.inodeTableBlocks = alignedUnits (sb.inodeCount * 32) 512
  bitmap_blocks : sb.inodeBitmapBlocks = 1
  block_bitmap_blocks : sb.blockBitmapBlocks = alignedUnits (alignedUnits sb.totalBlocks 8) 512

theorem accepted_bounds (h : sb.accepted n = true) : AcceptedBounds sb n := by
  unfold Superblock.accepted at h
  simp only [Bool.and_eq_true, beq_iff_eq, bne_iff_ne, decide_eq_true_eq] at h
  obtain ⟨⟨⟨⟨⟨⟨⟨⟨⟨⟨⟨-, -⟩, -⟩, h1⟩, h2⟩, h3⟩, -⟩, h5⟩, h6⟩, h7⟩, h8⟩, h9⟩ := h
  exact ⟨h1, h2, h3, h5, h6, h7.symm, h8, h9⟩

theorem loaded_disk (h : i < sb.inodeCount) :
    ((loaded dev amb sb table inodeBits blockBits).nodes i).disk = decodeInode table i := by
  unfold loaded
  dsimp only
  rw [if_pos h]
  split <;> rfl

/-- What `vfs.c` may open after loading is in use. -/
theorem loaded_kind (h : ((loaded dev amb sb table inodeBits blockBits).nodes i).vfs.kind ≠ .none) :
    i < sb.inodeCount ∧ (loaded dev amb sb table inodeBits blockBits).inodeUsed i = true := by
  unfold inodeUsed loaded at *
  dsimp only at *
  by_cases hi : i < sb.inodeCount
  · refine ⟨hi, ?_⟩
    rw [if_pos hi] at h
    by_contra hu
    rw [Bool.not_eq_true] at hu
    refine h ?_
    split <;> simp [loadInode, hu]
  · rw [if_neg hi] at h
    exact absurd rfl h

/-- Nothing is populated after loading. -/
theorem loaded_bare (i : Nat) :
    ((loaded dev amb sb table inodeBits blockBits).nodes i).populated = false ∧
      ((loaded dev amb sb table inodeBits blockBits).nodes i).dirSlotBase = none ∧
      ((loaded dev amb sb table inodeBits blockBits).nodes i).vfs.children = none ∧
      (((loaded dev amb sb table inodeBits blockBits).nodes i).vfs.kind = .dir →
        ((loaded dev amb sb table inodeBits blockBits).nodes i).disk.kind = kindDir) := by
  have hload : ∀ disk used, (loadInode disk used).vfs.kind = .dir → disk.kind = kindDir := by
    intro disk used h
    unfold loadInode at h
    split at h
    · simp at h
    · split at h
      next hk => exact hk
      · simp at h
  unfold loaded
  dsimp only
  split
  · split <;> exact ⟨rfl, rfl, rfl, hload _ _⟩
  · exact ⟨rfl, rfl, rfl, fun h => absurd h (by decide)⟩

/-- A mount that succeeds has populated the root of what it loaded. -/
theorem mount_populated {fs : Simplefs} (h : mount dev amb = some fs) :
    ∃ dev' sb table inodeBits blockBits,
      (loaded dev' amb sb table inodeBits blockBits).populate sb.rootInode = (fs, true) := by
  unfold mount at h
  split at h
  · simp at h
  dsimp only at h
  split at h
  · simp at h
  split at h
  · simp at h
  split at h
  · simp at h
  split at h
  · simp at h
  split at h
  next =>
    split at h
    · simp at h
    next hpop => exact ⟨_, _, _, _, _, (Option.some.inj h) ▸ hpop⟩
  · simp at h

/-- What a mount that succeeds has read and found. -/
theorem mount_some {fs : Simplefs} (hf : dev.faults = []) (h : mount dev amb = some fs) :
    ∃ sb, sb = decodeSuperblock (dev.blocks 0) ∧ sb.accepted dev.blockCount = true ∧
      (∀ i < sb.inodeCount, (loaded dev amb sb (dev.blocks sb.inodeTableStart)
          (dev.blocks sb.inodeBitmapStart) (dev.blocks sb.blockBitmapStart)).inodeUsed i = true →
        (decodeInode (dev.blocks sb.inodeTableStart) i).kind = kindDir ∨
          (decodeInode (dev.blocks sb.inodeTableStart) i).kind = kindFile) ∧
      (loaded dev amb sb (dev.blocks sb.inodeTableStart) (dev.blocks sb.inodeBitmapStart)
        (dev.blocks sb.blockBitmapStart)).populate sb.rootInode = (fs, true) := by
  -- a read either fails or delivers the blocks of the same device
  have hread : ∀ {start count : Nat} {dev' : Device} {blocks : Store},
      dev.read start count = (dev', some blocks) → dev' = dev ∧ blocks = dev.blocks start := by
    intro start count dev' blocks hr
    unfold Device.read at hr
    rw [hf] at hr
    split at hr
    · obtain ⟨rfl, hb⟩ := Prod.mk.inj hr
      exact ⟨rfl, (Option.some.inj hb).symm⟩
    · exact absurd (Prod.mk.inj hr).2 (by simp)
  unfold mount at h
  split at h
  · simp at h
  next dev₁ block h₁ =>
  obtain ⟨rfl, rfl⟩ := hread h₁
  dsimp only at h
  split at h
  · simp at h
  next hacc =>
  split at h
  · simp at h
  next dev₂ table h₂ =>
  obtain ⟨rfl, rfl⟩ := hread h₂
  split at h
  · simp at h
  next dev₃ inodeBits h₃ =>
  obtain ⟨rfl, rfl⟩ := hread h₃
  split at h
  · simp at h
  next dev₄ blockBits h₄ =>
  obtain ⟨rfl, rfl⟩ := hread h₄
  split at h
  next hall =>
    split at h
    · simp at h
    next fs₁ hpop =>
    obtain rfl := Option.some.inj h
    refine ⟨_, rfl, by simpa using hacc, fun i hi hu => ?_, hpop⟩
    have hk := List.all_eq_true.mp hall i (List.mem_range.mpr hi)
    rw [hu, loaded_disk hi] at hk
    simpa using hk
  · simp at h

end Accepted

/-! ## Paths -/

/-- The walk of `vfs_resolve_path` over the components of a path. -/
def resolveFrom (fs : Simplefs) : NodeRef → List Name → Option NodeRef
  | ref, [] => some ref
  | .node d, name :: path =>
    if (fs.nodes d).vfs.kind = .dir then
      match fs.childIndex d name with
      | none => none
      | some k =>
        match fs.childAt d k with
        | none => none
        | some ref => resolveFrom fs ref path
    else none
  | .console, _ :: _ => none
  | .tty, _ :: _ => none

/-- `vfs_resolve_path` -/
def resolve (fs : Simplefs) (path : List Name) : Option NodeRef :=
  fs.resolveFrom (.node fs.sb.rootInode) path

/-- `vfs_append_child` -/
def vfsAppendChild (fs : Simplefs) (d : Nat) (ref : NodeRef) : Simplefs × Bool :=
  let v := (fs.nodes d).vfs
  if v.kind ≠ .dir ∨ v.children = none ∨ v.childCount ≥ v.childCapacity then (fs, false)
  else (fs.appendChild d ref, true)

/-- The name of the directory of the device nodes. -/
def devName : Name := ⟨[0x64, 0x65, 0x76], by decide⟩

/-- The end of `vfs_init`: the device nodes are attached to `/dev`, or there is no
root. -/
def attachDevices (fs : Simplefs) : Option Simplefs :=
  match fs.resolve [devName] with
  | some (.node d) =>
    match fs.vfsAppendChild d .console with
    | (_, false) => none
    | (fs, true) =>
      match fs.vfsAppendChild d .tty with
      | (_, false) => none
      | (fs, true) => some fs
  | _ => none

end Simplefs

/-! ## Operations on the tree -/

/-- What a caller asks for. Numbers that the callers pass in registers are 32 bits
wide. -/
inductive Event
  | create (dir : List Name) (name : Name) (isDir : Bool) (mode uid gid : UInt32)
  | remove (dir : List Name) (name : Name)
  | write (file : List Name) (offset : UInt32) (buffer : List Byte)
  | resize (file : List Name) (size : UInt32)

namespace Simplefs

/-- The directory a path leads to. -/
def resolveDir (fs : Simplefs) (path : List Name) : Option Nat :=
  match fs.resolve path with
  | some (.node d) => if (fs.nodes d).vfs.kind = .dir then some d else none
  | _ => none

/-- The regular file a path leads to. -/
def resolveFile (fs : Simplefs) (path : List Name) : Option Nat :=
  match fs.resolve path with
  | some (.node i) => if (fs.nodes i).vfs.kind = .reg then some i else none
  | _ => none

theorem resolveDir_some {fs : Simplefs} {d : Nat} {path : List Name}
    (h : fs.resolveDir path = some d) :
    fs.resolve path = some (.node d) ∧ (fs.nodes d).vfs.kind = .dir := by
  unfold resolveDir at h
  split at h
  next d' hres =>
    split at h
    next hk =>
      obtain rfl := Option.some.inj h
      exact ⟨hres, hk⟩
    · simp at h
  · simp at h

theorem resolveFile_some {fs : Simplefs} {i : Nat} {path : List Name}
    (h : fs.resolveFile path = some i) :
    fs.resolve path = some (.node i) ∧ (fs.nodes i).vfs.kind = .reg := by
  unfold resolveFile at h
  split at h
  next i' hres =>
    split at h
    next hk =>
      obtain rfl := Option.some.inj h
      exact ⟨hres, hk⟩
    · simp at h
  · simp at h

/-- One operation; a path that leads nowhere changes nothing. -/
def step (fs : Simplefs) : Event → Simplefs
  | .create dir name isDir mode uid gid =>
    match fs.resolveDir dir with
    | some d => (fs.createChild d isDir name mode.toNat uid.toNat gid.toNat).1
    | none => fs
  | .remove dir name =>
    match fs.resolveDir dir with
    | some d => (fs.removeChild d name).1
    | none => fs
  | .write file offset buffer =>
    match fs.resolveFile file with
    | some i => (fs.regularWrite i offset.toNat buffer).1
    | none => fs
  | .resize file size =>
    match fs.resolveFile file with
    | some i => (fs.resizeNode i size.toNat).1
    | none => fs

/-! ### The smallest root -/

/-- An image of 16 blocks: four of metadata, one for the records of the root. -/
def sampleSuperblock : Superblock where
  magic := 0x31534653
  version := 3
  blockSize := 512
  totalBlocks := 16
  inodeCount := 4
  inodeTableStart := 1
  inodeTableBlocks := 1
  inodeBitmapStart := 2
  inodeBitmapBlocks := 1
  blockBitmapStart := 3
  blockBitmapBlocks := 1
  dataBlockStart := 4
  rootInode := 0
  reserved := 0

/-- The root, with one record, and an empty `/dev`. -/
def sampleTable : Nat → DiskInode
  | 0 =>
    { DiskInode.zero with
      kind := kindDir, size := 32, dataBlock := 4, blockCount := 1, childCount := 1 }
  | 1 => { DiskInode.zero with kind := kindDir }
  | _ => .zero

def sampleBytes : Store := fun a =>
  if a < 512 then encodeSuperblock sampleSuperblock a
  else if a < 1024 then encodeTable sampleTable (a - 512)
  else if a = 1024 then 0x03
  else if a = 1536 then 0x1F
  -- the record of inode 1, called `dev`
  else if a = 2048 then 0x01
  else if a = 2052 then 0x64
  else if a = 2053 then 0x65
  else if a = 2054 then 0x76
  else 0

def sampleDevice : Device := ⟨16, false, sampleBytes, []⟩

def sampleAmbient : Ambient := ⟨fun _ => .zero, fun _ => none, [], fun _ => 0⟩

theorem sampleDevice_works : sampleDevice.Works := ⟨rfl, rfl⟩

/-- The image, mounted. -/
def sampleFs : Simplefs := (mount sampleDevice sampleAmbient).get (by decide +kernel)

theorem letterA_text : (0 : Byte) ∉ [0x61] := by decide

theorem sampleFs_mounted : mount sampleDevice sampleAmbient = some sampleFs :=
  (Option.some_get _).symm

theorem sampleFs_sb : sampleFs.sb = sampleSuperblock := by decide +kernel

end Simplefs

end Riverix.Fs
