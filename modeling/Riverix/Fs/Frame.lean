import Riverix.Fs.BlockMap
import Riverix.Fs.Live

/-!
# Writing the metadata

The superblock and the three metadata areas lie below the data area and apart from each other
(`Layout`), so that `simplefs_flush_metadata` puts each of them where a mount finds it and
leaves the blocks of the files alone.
-/

namespace Riverix.Fs

open Riverix.Lib

/-- The superblock and the three metadata areas lie below the data area and apart from
each other. -/
structure Layout (sb : Superblock) : Prop where
  data : sb.dataBlockStart ≤ sb.totalBlocks
  table_blocks : sb.inodeTableBlocks ≠ 0
  inode_blocks : sb.inodeBitmapBlocks ≠ 0
  block_blocks : sb.blockBitmapBlocks ≠ 0
  table : 1 ≤ sb.inodeTableStart ∧ sb.inodeTableStart + sb.inodeTableBlocks ≤ sb.dataBlockStart
  inodes : 1 ≤ sb.inodeBitmapStart ∧ sb.inodeBitmapStart + sb.inodeBitmapBlocks ≤ sb.dataBlockStart
  blocks : 1 ≤ sb.blockBitmapStart ∧ sb.blockBitmapStart + sb.blockBitmapBlocks ≤ sb.dataBlockStart
  table_inodes : sb.inodeTableStart + sb.inodeTableBlocks ≤ sb.inodeBitmapStart ∨
    sb.inodeBitmapStart + sb.inodeBitmapBlocks ≤ sb.inodeTableStart
  table_bits : sb.inodeTableStart + sb.inodeTableBlocks ≤ sb.blockBitmapStart ∨
    sb.blockBitmapStart + sb.blockBitmapBlocks ≤ sb.inodeTableStart
  inodes_bits : sb.inodeBitmapStart + sb.inodeBitmapBlocks ≤ sb.blockBitmapStart ∨
    sb.blockBitmapStart + sb.blockBitmapBlocks ≤ sb.inodeBitmapStart

namespace Simplefs

variable {fs : Simplefs}

/-- The device after all four areas were written. -/
def flushedBytes (fs : Simplefs) : Store :=
  (((fs.dev.bytes.paste 0 512 (encodeSuperblock fs.sb)).paste
    (512 * fs.sb.inodeTableStart) (512 * fs.sb.inodeTableBlocks)
      (encodeTable fun i => if i < fs.sb.inodeCount then (fs.nodes i).disk
        else fs.inodeTableImage i)).paste
    (512 * fs.sb.inodeBitmapStart) (512 * fs.sb.inodeBitmapBlocks) fs.inodeBitmap).paste
    (512 * fs.sb.blockBitmapStart) (512 * fs.sb.blockBitmapBlocks) fs.blockBitmap

/-- The four areas are on the device. -/
structure Areas (fs : Simplefs) : Prop where
  superblock : fs.dev.InRange 0 1
  table : fs.dev.InRange fs.sb.inodeTableStart fs.sb.inodeTableBlocks
  inodes : fs.dev.InRange fs.sb.inodeBitmapStart fs.sb.inodeBitmapBlocks
  blocks : fs.dev.InRange fs.sb.blockBitmapStart fs.sb.blockBitmapBlocks

/-- `simplefs_flush_metadata` on a device that works. -/
theorem Areas.flushMetadata (h : Areas fs) (hw : fs.dev.Works) :
    fs.flushMetadata = ({ fs.setBytes fs.flushedBytes with
      inodeTableImage := fun i =>
        if i < fs.sb.inodeCount then (fs.nodes i).disk else fs.inodeTableImage i }, true) := by
  unfold Simplefs.flushMetadata flushSuperblock
  rw [hw.writable, if_neg (by simp), writeBlocks_works hw h.superblock]
  dsimp only
  unfold flushInodeTable
  rw [writeBlocks_works (by exact ⟨hw.writable, hw.no_faults⟩) (by exact h.table)]
  dsimp only
  unfold flushInodeBitmap
  rw [writeBlocks_works (by exact ⟨hw.writable, hw.no_faults⟩) (by exact h.inodes)]
  dsimp only
  unfold flushBlockBitmap
  rw [writeBlocks_works (by exact ⟨hw.writable, hw.no_faults⟩) (by exact h.blocks)]
  rfl

theorem flushMetadata_works (hs : Sound fs) (hl : Layout fs.sb) :
    fs.flushMetadata = ({ fs.setBytes fs.flushedBytes with
      inodeTableImage := fun i =>
        if i < fs.sb.inodeCount then (fs.nodes i).disk else fs.inodeTableImage i }, true) := by
  have hfits := hs.fits
  have htable := hl.table
  have hdata := hl.data
  have hrange : ∀ {start count : Nat}, count ≠ 0 → start + count ≤ fs.sb.dataBlockStart →
      fs.dev.InRange start count := fun h0 hle => ⟨h0, by omega, by omega⟩
  exact Areas.flushMetadata ⟨hrange (by omega) (by omega), hrange hl.table_blocks hl.table.2,
    hrange hl.inode_blocks hl.inodes.2, hrange hl.block_blocks hl.blocks.2⟩ hs.works

/-- The data area is not written. -/
theorem flushedBytes_data (hl : Layout fs.sb) {a : Nat} (ha : fs.sb.dataBlockStart ≤ a / 512) :
    fs.flushedBytes a = fs.dev.bytes a := by
  have htable := hl.table
  have hinodes := hl.inodes
  have hblocks := hl.blocks
  unfold flushedBytes
  rw [Store.paste_outside (by omega), Store.paste_outside (by omega),
    Store.paste_outside (by omega),
    Store.paste_outside (by omega)]

end Simplefs

end Riverix.Fs
