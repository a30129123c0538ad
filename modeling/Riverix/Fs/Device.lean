import Riverix.Lib.Bitmap
import Riverix.Lib.Store

/-!
# Block devices and the on-disk records (`block.c`, `simplefs_format.h`)

A device is a run of bytes addressed in blocks of 512. Requests outside the
device fail, and so do those the driver refuses; `faults` holds the driver's
answers to the requests to come, and a device with no faults left serves every
request in range.

The superblock and the inodes are packed arrays of little-endian 32-bit words.
Their encoders are what the flush functions write and their decoders what the
mount reads.
-/

namespace Riverix.Fs

open Riverix.Lib

/-- `block_device_t` -/
structure Device where
  blockCount : Nat
  readOnly : Bool
  bytes : Store
  faults : List Bool

namespace Device

variable {d d' : Device} {start count a : Nat} {buffer : Store}

/-- The bytes of the device from block `start` on. -/
def blocks (d : Device) (start : Nat) : Store := fun k => d.bytes (512 * start + k)

/-- The request lies inside the device. -/
def InRange (d : Device) (start count : Nat) : Prop :=
  count ≠ 0 ∧ start < d.blockCount ∧ count ≤ d.blockCount - start

instance (d : Device) (start count : Nat) : Decidable (d.InRange start count) :=
  inferInstanceAs (Decidable (_ ∧ _))

/-- `block_read`; a request that fails delivers nothing. -/
def read (d : Device) (start count : Nat) : Device × Option Store :=
  if d.InRange start count then
    match d.faults with
    | [] => (d, some (d.blocks start))
    | fault :: faults =>
      ({ d with faults }, if fault then none else some (d.blocks start))
  else (d, none)

/-- The device with `count` blocks replaced. -/
def put (d : Device) (start count : Nat) (buffer : Store) : Device :=
  { d with bytes := d.bytes.paste (512 * start) (512 * count) buffer }

/-- `block_write` of `count` blocks from a buffer. -/
def write (d : Device) (start count : Nat) (buffer : Store) : Device × Bool :=
  if d.readOnly = false ∧ d.InRange start count then
    match d.faults with
    | [] => (d.put start count buffer, true)
    | fault :: faults =>
      if fault then ({ d with faults }, false)
      else ({ d.put start count buffer with faults }, true)
  else (d, false)

theorem read_bytes (d : Device) (start count : Nat) :
    (d.read start count).1.bytes = d.bytes ∧
      (d.read start count).1.blockCount = d.blockCount ∧
      (d.read start count).1.readOnly = d.readOnly := by
  unfold read
  split
  · split <;> exact ⟨rfl, rfl, rfl⟩
  · exact ⟨rfl, rfl, rfl⟩

/-- The device was only read: it answers fewer requests than before, and that is all. -/
structure Kept (d d' : Device) : Prop where
  bytes : d'.bytes = d.bytes
  blockCount : d'.blockCount = d.blockCount
  readOnly : d'.readOnly = d.readOnly
  faults : d.faults = [] → d'.faults = []

theorem Kept.refl (d : Device) : Kept d d := ⟨rfl, rfl, rfl, fun h => h⟩

theorem Kept.trans {d'' : Device} (h : Kept d d') (h' : Kept d' d'') : Kept d d'' :=
  ⟨h'.bytes.trans h.bytes, h'.blockCount.trans h.blockCount, h'.readOnly.trans h.readOnly,
    fun hf => h'.faults (h.faults hf)⟩

theorem read_kept (d : Device) (start count : Nat) : Kept d (d.read start count).1 := by
  obtain ⟨hb, hc, hr⟩ := read_bytes d start count
  refine ⟨hb, hc, hr, fun hf => ?_⟩
  unfold read
  rw [hf]
  split
  · exact hf
  · exact hf

theorem read_some (h : d.read start count = (d', some buffer)) :
    d.InRange start count ∧ buffer = d.blocks start := by
  unfold read at h
  split at h
  next hr =>
    refine ⟨hr, ?_⟩
    split at h
    · exact (Option.some.inj (Prod.mk.inj h).2).symm
    have hb := (Prod.mk.inj h).2
    split at hb
    · simp at hb
    · exact (Option.some.inj hb).symm
  · exact absurd (Prod.mk.inj h).2 (by simp)

theorem write_same (d : Device) (start count : Nat) (buffer : Store) :
    (d.write start count buffer).1.blockCount = d.blockCount ∧
      (d.write start count buffer).1.readOnly = d.readOnly := by
  unfold write
  split
  next =>
    split
    · exact ⟨rfl, rfl⟩
    · split <;> exact ⟨rfl, rfl⟩
  · exact ⟨rfl, rfl⟩

/-- A device that works. -/
structure Works (d : Device) : Prop where
  writable : d.readOnly = false
  no_faults : d.faults = []

theorem read_works (hf : d.faults = []) (hr : d.InRange start count) :
    d.read start count = (d, some (d.blocks start)) := by
  rw [read, if_pos hr, hf]

theorem write_works (h : d.Works) (hr : d.InRange start count) :
    d.write start count buffer = (d.put start count buffer, true) := by
  rw [write, if_pos ⟨h.writable, hr⟩, h.no_faults]

end Device

/-- `SIMPLEFS_INODE_DIR` -/
abbrev kindDir : Nat := 1

/-- `SIMPLEFS_INODE_FILE` -/
abbrev kindFile : Nat := 2

/-- `simplefs_superblock_t` -/
structure Superblock where
  magic : Nat
  version : Nat
  blockSize : Nat
  totalBlocks : Nat
  inodeCount : Nat
  inodeTableStart : Nat
  inodeTableBlocks : Nat
  inodeBitmapStart : Nat
  inodeBitmapBlocks : Nat
  blockBitmapStart : Nat
  blockBitmapBlocks : Nat
  dataBlockStart : Nat
  rootInode : Nat
  reserved : Nat
  deriving DecidableEq, Repr

/-- `simplefs_inode_disk_t` -/
structure DiskInode where
  kind : Nat
  size : Nat
  dataBlock : Nat
  blockCount : Nat
  childCount : Nat
  mode : Nat
  uid : Nat
  gid : Nat
  deriving DecidableEq, Repr

/-- An inode of zero bytes. -/
def DiskInode.zero : DiskInode := ⟨0, 0, 0, 0, 0, 0, 0, 0⟩

/-! ## Records of words -/

/-- The bytes of a packed array of words: word `k / 4`, byte `k % 4`. -/
def wordBytes (word : Nat → Nat) : Store := fun k => (enc32 (word (k / 4))).getD (k % 4) 0

/-- The words of an inode, in the order of the record. -/
def DiskInode.words (n : DiskInode) : List Nat :=
  [n.kind, n.size, n.dataBlock, n.blockCount, n.childCount, n.mode, n.uid, n.gid]

/-- The bytes of an inode table. -/
def encodeTable (table : Nat → DiskInode) : Store :=
  wordBytes fun k => (table (k / 8)).words.getD (k % 8) 0

/-- Inode `i` of a table of bytes. -/
def decodeInode (buffer : Store) (i : Nat) : DiskInode where
  kind := buffer.load32 (32 * i)
  size := buffer.load32 (32 * i + 4)
  dataBlock := buffer.load32 (32 * i + 8)
  blockCount := buffer.load32 (32 * i + 12)
  childCount := buffer.load32 (32 * i + 16)
  mode := buffer.load32 (32 * i + 20)
  uid := buffer.load32 (32 * i + 24)
  gid := buffer.load32 (32 * i + 28)

/-- The words of a superblock, in the order of the record. -/
def Superblock.words (sb : Superblock) : List Nat :=
  [sb.magic, sb.version, sb.blockSize, sb.totalBlocks, sb.inodeCount, sb.inodeTableStart,
    sb.inodeTableBlocks, sb.inodeBitmapStart, sb.inodeBitmapBlocks, sb.blockBitmapStart,
    sb.blockBitmapBlocks, sb.dataBlockStart, sb.rootInode, sb.reserved]

/-- The first block: the superblock, then zeros. -/
def encodeSuperblock (sb : Superblock) : Store := wordBytes fun k => sb.words.getD k 0

/-- The superblock at the start of a block. -/
def decodeSuperblock (buffer : Store) : Superblock where
  magic := buffer.load32 0
  version := buffer.load32 4
  blockSize := buffer.load32 8
  totalBlocks := buffer.load32 12
  inodeCount := buffer.load32 16
  inodeTableStart := buffer.load32 20
  inodeTableBlocks := buffer.load32 24
  inodeBitmapStart := buffer.load32 28
  inodeBitmapBlocks := buffer.load32 32
  blockBitmapStart := buffer.load32 36
  blockBitmapBlocks := buffer.load32 40
  dataBlockStart := buffer.load32 44
  rootInode := buffer.load32 48
  reserved := buffer.load32 52

end Riverix.Fs
