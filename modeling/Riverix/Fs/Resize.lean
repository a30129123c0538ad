import Riverix.Fs.Frame

/-!
# What a resize does to the contents of a file

The contents of a file are the first `size` bytes of its extent. A resize is meant
to cut them or to fill them up with zeros. It zeroes the bytes it adds only when
the extent grows: between two sizes that need the same blocks, or towards a size
that needs fewer, it adds whatever the blocks hold, and a shrink inside the last
block has left the old bytes there. Near 2³² the rounding of the size wraps, and a
size that needs no block by that count gets none.
-/

namespace Riverix.Fs

open Riverix.Lib

namespace Simplefs

variable {fs fs' : Simplefs} {i newSize start : Nat}

/-- The contents of a file. -/
def contents (fs : Simplefs) (i : Nat) : List Byte :=
  fs.dev.bytes.read (512 * (fs.nodes i).disk.dataBlock) (fs.nodes i).disk.size

/-- A working device, a superblock whose areas do not overlap, an exact bitmap, and
files that fit in their extents. -/
structure Consistent (fs : Simplefs) : Prop where
  sound : Sound fs
  layout : Layout fs.sb
  sizes : ∀ i < fs.sb.inodeCount, fs.inodeUsed i = true → (fs.nodes i).disk.kind = kindFile →
    (fs.nodes i).disk.size ≤ 512 * (fs.nodes i).disk.blockCount

/-- What a resize is for: it fails and changes nothing of the file, or the contents
are the old ones, cut or filled up with zeros, and lie in the extent. -/
structure Resizes (fs : Simplefs) (i newSize : Nat) : Prop where
  failed : (fs.resizeNode i newSize).2 = false →
    (fs.resizeNode i newSize).1.nodes i = fs.nodes i ∧
      (fs.resizeNode i newSize).1.blockBitmap = fs.blockBitmap ∧
      (fs.resizeNode i newSize).1.contents i = fs.contents i
  done : (fs.resizeNode i newSize).2 = true →
    ((fs.resizeNode i newSize).1.nodes i).disk.size = newSize ∧
      newSize ≤ 512 * ((fs.resizeNode i newSize).1.nodes i).disk.blockCount ∧
      (fs.resizeNode i newSize).1.contents i
        = (fs.contents i).take newSize
            ++ List.replicate (newSize - (fs.nodes i).disk.size) 0

/-- The new size does not wrap when it is rounded up, and where the extent does not
grow the blocks already hold zeros from the old size to the new one. -/
structure ResizesClean (fs : Simplefs) (i newSize : Nat) : Prop where
  rounds : newSize ≤ 2 ^ 32 - 512
  zeros : requiredBlocks newSize ≤ (fs.nodes i).disk.blockCount →
    ∀ k, (fs.nodes i).disk.size ≤ k → k < newSize →
      fs.dev.bytes (512 * (fs.nodes i).disk.dataBlock + k) = 0

/-- Cut or filled up with zeros, byte by byte. -/
theorem read_eq_resized {m m' : Store} {a a' size : Nat} :
    m'.read a' newSize = (m.read a size).take newSize ++ List.replicate (newSize - size) 0 ↔
      (∀ k < newSize, k < size → m' (a' + k) = m (a + k)) ∧
        ∀ k < newSize, size ≤ k → m' (a' + k) = 0 := by
  have hcut : (m.read a size).take newSize = m.read a (min newSize size) := by
    rcases Nat.le_total newSize size with h | h
    · rw [Store.read_take h, Nat.min_eq_left h]
    · rw [List.take_of_length_le (by rw [Store.read_length]; exact h), Nat.min_eq_right h]
  have hzeros : List.replicate (newSize - size) (0 : Byte)
      = Store.read (fun _ => 0) 0 (newSize - size) := by
    refine List.ext_getElem? fun k => ?_
    rcases Nat.lt_or_ge k (newSize - size) with hk | hk
    · rw [Store.read_getElem? hk, List.getElem?_replicate, if_pos hk]
    · rw [List.getElem?_eq_none (by rw [List.length_replicate]; exact hk),
        List.getElem?_eq_none (by rw [Store.read_length]; exact hk)]
  have hsplit : m'.read a' newSize
      = m'.read a' (min newSize size) ++ m'.read (a' + min newSize size) (newSize - size) := by
    rw [← Store.read_add, show min newSize size + (newSize - size) = newSize by omega]
  have hlen : (m'.read a' (min newSize size)).length = (m.read a (min newSize size)).length := by
    rw [Store.read_length, Store.read_length]
  rw [hcut, hzeros, hsplit]
  constructor
  · intro h
    obtain ⟨hold, hnew⟩ := List.append_inj h hlen
    rw [Store.read_congr_iff] at hold hnew
    refine ⟨fun k hk hk' => hold k (by omega), fun k hk hk' => ?_⟩
    have := hnew (k - size) (by omega)
    rwa [show a' + min newSize size + (k - size) = a' + k by omega] at this
  · intro ⟨hold, hnew⟩
    congr 1
    · exact Store.read_congr_iff.mpr fun k hk => hold k (by omega) (by omega)
    · refine Store.read_congr_iff.mpr fun k hk => ?_
      rw [show a' + min newSize size + k = a' + (size + k) by omega]
      exact hnew _ (by omega) (by omega)

/-- A resize whose extent does not change reports the failure alone. -/
theorem resizes_of_failed (hc : Consistent fs) (hk : (fs.nodes i).disk.kind = kindFile)
    (he : fs.resizeExtent i newSize = (fs, false)) : fs.Resizes i newSize := by
  have hr : fs.resizeNode i newSize = (fs, false) := by
    unfold resizeNode
    rw [hc.sound.works.writable, hk, if_neg (by simp), he]
  refine ⟨fun _ => ?_, fun ht => ?_⟩
  · rw [hr]
    exact ⟨rfl, rfl, rfl⟩
  · rw [hr] at ht
    simp at ht

section Resize

variable (hc : Consistent fs) (hi : i < fs.sb.inodeCount) (hu : fs.inodeUsed i = true)
  (hk : (fs.nodes i).disk.kind = kindFile)

include hc hi hu hk

/-- The end of `simplefs_resize_node`: the new size is recorded and the data area is left
alone. -/
theorem resizeNode_done {count : Nat} (he : fs.resizeExtent i newSize = (fs', true))
    (hext : Extended fs fs' i start count) :
    ∃ fs'', fs.resizeNode i newSize = (fs'', true) ∧
      (fs''.nodes i).disk = { (fs.nodes i).disk with
        size := newSize, dataBlock := start, blockCount := count } ∧
      ∀ k < 512 * count, fs''.dev.bytes (512 * start + k) = fs'.dev.bytes (512 * start + k) := by
  have hs' : Sound (fs'.setSize i newSize) := by
    have h := hext.sound hc.sound
    exact ⟨h.exact.congr rfl rfl (owns_modify rfl rfl), h.works, h.fits⟩
  have hl' : Layout (fs'.setSize i newSize).sb := by
    show Layout fs'.sb
    rw [hext.sb]
    exact hc.layout
  have hdisk : ((fs'.setSize i newSize).nodes i).disk = { (fs.nodes i).disk with
      size := newSize, dataBlock := start, blockCount := count } := by
    rw [setSize, modify_nodes_self]
    rw [hext.disk_self]
  refine ⟨(fs'.setSize i newSize).flushMetadata.1, ?_, ?_, fun k hlt => ?_⟩
  · unfold resizeNode
    rw [hc.sound.works.writable, hk, if_neg (by simp), he]
    dsimp only
    rw [flushMetadata_works hs' hl']
  · rw [flushMetadata_works hs' hl']
    exact hdisk
  rw [flushMetadata_works hs' hl']
  refine flushedBytes_data hl' ?_
  have hown : Owns (fs'.setSize i newSize) i ((512 * start + k) / 512) := by
    refine ⟨?_, ?_, ?_⟩
    · show i < fs'.sb.inodeCount
      rw [hext.sb]
      exact hi
    · show fs'.inodeBitmap.test i = true
      rw [hext.inodeBitmap]
      exact hu
    · rw [hdisk]
      dsimp only
      omega
  exact (hs'.exact.inside i _ hown).1

/-- A resize that comes to its end, byte by byte. -/
theorem resizes_iff_bytes {count : Nat} (he : fs.resizeExtent i newSize = (fs', true))
    (hext : Extended fs fs' i start count) : fs.Resizes i newSize ↔ newSize ≤ 512 * count ∧
      (∀ k < newSize, k < (fs.nodes i).disk.size →
        fs'.dev.bytes (512 * start + k)
          = fs.dev.bytes (512 * (fs.nodes i).disk.dataBlock + k)) ∧
      ∀ k < newSize, (fs.nodes i).disk.size ≤ k → fs'.dev.bytes (512 * start + k) = 0 := by
  obtain ⟨fs'', hr, hdisk, hbytes⟩ := resizeNode_done hc hi hu hk he hext
  have hcontents : newSize ≤ 512 * count →
      fs''.contents i = fs'.dev.bytes.read (512 * start) newSize := by
    intro hle
    unfold contents
    rw [hdisk]
    exact Store.read_congr fun k hlt => hbytes k (Nat.lt_of_lt_of_le hlt hle)
  constructor
  · intro h
    have hdone := h.done (by rw [hr])
    rw [hr] at hdone
    have hle := hdone.2.1
    rw [hdisk] at hle
    refine ⟨hle, read_eq_resized.mp ?_⟩
    rw [← hcontents hle]
    exact hdone.2.2
  · intro ⟨hle, hmatch⟩
    refine ⟨fun hf => ?_, fun _ => ?_⟩
    · rw [hr] at hf
      simp at hf
    · rw [hr]
      refine ⟨by rw [hdisk], by rw [hdisk]; exact hle, ?_⟩
      rw [hcontents hle]
      exact read_eq_resized.mpr hmatch

end Resize

/-- A size that wraps when it is rounded needs no block. -/
theorem requiredBlocks_wraps (hsize : newSize < 2 ^ 32) (h : ¬ newSize ≤ 2 ^ 32 - 512) :
    requiredBlocks newSize = 0 := by
  unfold requiredBlocks alignedUnits
  rw [if_neg (by omega)]
  omega

theorem requiredBlocks_le (h : newSize ≤ 2 ^ 32 - 512) :
    newSize ≤ 512 * requiredBlocks newSize := by
  unfold requiredBlocks alignedUnits
  split <;> omega

/-- **When a resize keeps to its contract.** In a consistent state it does so exactly when
the new size does not wrap and the bytes it adds without growing the extent are zeros
already. -/
theorem resizes_iff (hc : Consistent fs) (hi : i < fs.sb.inodeCount)
    (hu : fs.inodeUsed i = true) (hk : (fs.nodes i).disk.kind = kindFile)
    (hsize : newSize < 2 ^ 32) : fs.Resizes i newSize ↔ fs.ResizesClean i newSize := by
  have hold := hc.sizes i hi hu hk
  rcases Nat.lt_or_ge (fs.nodes i).disk.blockCount (requiredBlocks newSize) with hgt | hle
  · -- the extent grows, or there is no room for it
    have hbounds := requiredBlocks_bounds hsize (by omega)
    have hclean : fs.ResizesClean i newSize := by
      refine ⟨?_, fun h => by omega⟩
      by_contra hwrap
      rw [requiredBlocks_wraps hsize hwrap] at hgt
      omega
    refine ⟨fun _ => hclean, fun _ => ?_⟩
    rcases resizeExtent_grow hc.sound hi hu hsize hgt with he | ⟨fs₁, fs', start, he, hg, hext, hb⟩
    · exact resizes_of_failed hc hk he
    · refine (resizes_iff_bytes hc hi hu hk he hext).mpr ⟨hbounds.1, fun k _ hlt => ?_,
        fun k hlt hge => ?_⟩
      · rw [hb, Store.write_outside (by omega), hg.kept k (by omega)]
      · obtain ⟨j, rfl⟩ := Nat.exists_eq_add_of_le hge
        rw [hb, ← Nat.add_assoc, Store.write_inside (by rw [List.length_replicate]; omega),
          List.getD_eq_getElem?_getD, List.getElem?_replicate, if_pos (by omega)]
        rfl
  · obtain ⟨fs', start, he, hext, hkept⟩ := resizeExtent_shrink hc.sound hi hu hsize hle
    rw [resizes_iff_bytes hc hi hu hk he hext]
    constructor
    · intro ⟨hfit, _, hnew⟩
      refine ⟨?_, fun _ k hge hlt => ?_⟩
      · by_contra hwrap
        rw [requiredBlocks_wraps hsize hwrap] at hfit
        omega
      · obtain ⟨rfl, hsame⟩ := hkept (by omega)
        rw [← hsame k hlt]
        exact hnew k hlt hge
    · intro hclean
      have hfit := requiredBlocks_le hclean.rounds
      refine ⟨hfit, fun k hlt hlt' => ?_, fun k hlt hge => ?_⟩
      · obtain ⟨rfl, hsame⟩ := hkept (by omega)
        exact hsame k hlt
      · obtain ⟨rfl, hsame⟩ := hkept (by omega)
        rw [hsame k hlt]
        exact hclean.zeros hle k hge hlt

/-- The small image after a file of three bytes was cut to one. -/
def cutFs : Simplefs :=
  run step sampleFs
    [.create [] ⟨[0x61], letterA_text⟩ false 0 0 0, .write [⟨[0x61], letterA_text⟩] 0 [1, 2, 3],
      .resize [⟨[0x61], letterA_text⟩] 1]

theorem sampleSuperblock_layout : Layout sampleSuperblock := by
  constructor <;> decide

theorem cutFs_consistent : Consistent cutFs := by
  have hsb : cutFs.sb = sampleSuperblock := by decide +kernel
  refine ⟨?_, ?_, ?_⟩
  · exact (run_invariant step_alloc _
      (mount_alloc sampleDevice_works sampleFs_mounted sampleFs_exact)).sound
  · rw [hsb]
    exact sampleSuperblock_layout
  · rw [hsb]
    have h : ∀ i < 4, (cutFs.nodes i).disk.size ≤ 512 * (cutFs.nodes i).disk.blockCount := by
      decide +kernel
    exact fun i hi _ _ => h i hi

/-- Growing the file by one block fills it up with zeros. -/
theorem resizes_iff_next_block : cutFs.Resizes 2 600 :=
  (resizes_iff cutFs_consistent (by decide +kernel) (by decide +kernel) (by decide +kernel)
    (by decide)).mpr ⟨by decide, fun h => absurd h (by decide +kernel)⟩

/-- Growing it back brings the cut bytes back, and a size near 2³² leaves it without
blocks. -/
theorem resize_exposes_old_bytes : Consistent cutFs ∧ cutFs.contents 2 = [1] ∧
    (cutFs.resizeNode 2 3).2 = true ∧ (cutFs.resizeNode 2 3).1.contents 2 = [1, 2, 3] ∧
    ¬ cutFs.Resizes 2 3 ∧ ¬ cutFs.Resizes 2 (2 ^ 32 - 1) := by
  have hdone : (cutFs.resizeNode 2 3).2 = true := by decide +kernel
  have hbytes : (cutFs.resizeNode 2 3).1.contents 2 = [1, 2, 3] := by decide +kernel
  have hold : cutFs.contents 2 = [1] := by decide +kernel
  have hsize : (cutFs.nodes 2).disk.size = 1 := by decide +kernel
  have hwrap : (cutFs.resizeNode 2 (2 ^ 32 - 1)).2 = true ∧
      ((cutFs.resizeNode 2 (2 ^ 32 - 1)).1.nodes 2).disk.blockCount = 0 := by decide +kernel
  refine ⟨cutFs_consistent, hold, hdone, hbytes, fun h => ?_, fun h => ?_⟩
  · have := (h.done hdone).2.2
    rw [hbytes, hold, hsize] at this
    exact absurd this (by decide)
  · have := (h.done hwrap.1).2.1
    rw [hwrap.2] at this
    exact absurd this (by decide)

end Simplefs

end Riverix.Fs
