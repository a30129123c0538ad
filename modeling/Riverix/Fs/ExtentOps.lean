import Riverix.Fs.Extents

/-!
# The functions that move extents

One statement each for `simplefs_ensure_extent`, the extent part of
`simplefs_resize_node` and `simplefs_write_dir_entries`: what the inode's extent is
afterwards, which bytes it holds, and that nothing else moved. On a device that
works they fail for lack of space only.
-/

namespace Riverix.Fs

open Riverix.Lib

namespace Simplefs

variable {fs fs' : Simplefs} {i j b start count required : Nat} {bytes : Store} {bm : Bitmap 8}

/-- Inode `i` got a larger extent: the old blocks keep their bytes, the new ones
are zero. -/
structure Grown (fs fs' : Simplefs) (i start count : Nat) : Prop
    extends Extended fs fs' i start count where
  kept : ∀ k < 512 * (fs.nodes i).disk.blockCount,
    fs'.dev.bytes (512 * start + k) = fs.dev.bytes (512 * (fs.nodes i).disk.dataBlock + k)
  fresh : ∀ k, 512 * (fs.nodes i).disk.blockCount ≤ k → k < 512 * count →
    fs'.dev.bytes (512 * start + k) = 0

section Grow

variable (hs : Sound fs) (hi : i < fs.sb.inodeCount) (hu : fs.inodeUsed i = true)

include hs hi hu

theorem firstExtent_spec (h0 : (fs.nodes i).disk.blockCount = 0) (hreq : required ≠ 0) :
    fs.firstExtent i required = (fs, false) ∨
      ∃ fs' start, fs.firstExtent i required = (fs', true) ∧ Grown fs fs' i start required := by
  unfold firstExtent allocateExtent
  rw [if_neg hreq]
  cases hfind : fs.findExtent required with
  | none => exact Or.inl rfl
  | some start =>
    refine Or.inr ?_
    have hrun := findExtent_some hfind
    have hext := claim_spec hs.exact hi hu h0 hrun
    obtain ⟨bytes, he, hb⟩ := zeroExtent_works (fs.withExtent i fs.dev.bytes
        (fs.blockBitmap.markRange start required) start required) start
      (List.range required).reverse ⟨hs.works.writable, hs.works.no_faults⟩
      (by
        intro k hk
        have := List.mem_range.mp (List.mem_reverse.mp hk)
        have := hrun.inside.2
        have := hs.fits
        show start + k < fs.dev.blockCount
        omega)
    have hb : ∀ a, bytes a = if start ≤ a / 512 ∧ a / 512 < start + required then 0
        else fs.dev.bytes a := by
      intro a
      rw [hb]
      refine if_congr ?_ rfl rfl
      simp only [List.mem_reverse, List.mem_range]
      constructor
      · rintro ⟨k, hk, hk'⟩
        omega
      · intro h
        exact ⟨a / 512 - start, by omega, by omega⟩
    refine ⟨_, start, he, ⟨hext.setBytes _ (fun a ha => ?_) hi hu, ?_, ?_⟩⟩
    · rw [hb, if_neg ha]
      rfl
    · intro k hk
      omega
    · intro k _ hk
      rw [setBytes_bytes, hb, if_pos (by omega)]

theorem growExtent_spec (h0 : (fs.nodes i).disk.blockCount ≠ 0)
    (hlt : (fs.nodes i).disk.blockCount < required)
    (hrun : FreeRun fs ((fs.nodes i).disk.dataBlock + (fs.nodes i).disk.blockCount)
      (required - (fs.nodes i).disk.blockCount)) :
    ∃ fs', fs.growExtent i required = (fs', true) ∧
      Grown fs fs' i (fs.nodes i).disk.dataBlock required := by
  have hext := extend_spec hs.exact hi hu h0 hlt hrun
  have hfits := hs.fits
  have hin := hrun.inside
  obtain ⟨n, hn⟩ : ∃ n, (fs.nodes i).disk = n := ⟨_, rfl⟩
  obtain ⟨bytes, he, hb⟩ := zeroExtent_works (fs.markExtent (n.dataBlock + n.blockCount)
      (required - n.blockCount)) (n.dataBlock + n.blockCount)
    (List.range (required - n.blockCount)) ⟨hs.works.writable, hs.works.no_faults⟩
    (by
      intro k hk
      have := List.mem_range.mp hk
      show n.dataBlock + n.blockCount + k < fs.dev.blockCount
      rw [hn] at hin
      omega)
  have hb : ∀ a, bytes a = if n.dataBlock + n.blockCount ≤ a / 512 ∧
      a / 512 < n.dataBlock + required
      then 0 else fs.dev.bytes a := by
    intro a
    rw [hb]
    refine if_congr ?_ rfl rfl
    simp only [List.mem_range]
    constructor
    · rintro ⟨k, hk, hk'⟩
      omega
    · intro h
      exact ⟨a / 512 - (n.dataBlock + n.blockCount), by omega, by omega⟩
  have heq : fs.growExtent i required = ((fs.withExtent i fs.dev.bytes (fs.blockBitmap.markRange
      (n.dataBlock + n.blockCount) (required - n.blockCount)) n.dataBlock required).setBytes bytes,
        true) := by
    subst hn
    unfold growExtent
    dsimp only
    rw [he]
    rfl
  rw [hn] at hext hlt ⊢
  refine ⟨_, heq, ⟨hext.setBytes bytes (fun a ha => ?_) hi hu, ?_, ?_⟩⟩
  · rw [hb, if_neg (by omega)]
    rfl
  · intro k hk
    rw [hn] at hk ⊢
    show bytes _ = _
    rw [hb, if_neg (by omega)]
  · intro k hk hk'
    rw [hn] at hk
    show bytes _ = _
    rw [hb, if_pos (by omega)]

theorem moveExtent_spec (h0 : (fs.nodes i).disk.blockCount ≠ 0)
    (hlt : (fs.nodes i).disk.blockCount < required) :
    fs.moveExtent i required = (fs, false) ∨
      ∃ fs' start, fs.moveExtent i required = (fs', true) ∧ Grown fs fs' i start required := by
  have hle := hs.exact.extent_le hi hu h0
  have hfits := hs.fits
  obtain ⟨n, hn⟩ : ∃ n, (fs.nodes i).disk = n := ⟨_, rfl⟩
  cases hfind : fs.findExtent required with
  | none =>
    refine Or.inl ?_
    unfold moveExtent allocateExtent
    rw [if_neg (by omega), hfind]
  | some start =>
    refine Or.inr ?_
    have hrun := findExtent_some hfind
    have hext := move_spec hs.exact hi hu hrun
    have hin := hrun.inside
    rw [hn] at h0 hlt hle hext
    -- the old extent is marked, so the new run does not meet it
    have hdisj : n.dataBlock + n.blockCount ≤ start ∨ start + required ≤ n.dataBlock := by
      by_contra hcon
      have hown : Owns fs i (max n.dataBlock start) := by
        refine ⟨hi, hu, ?_⟩
        rw [hn]
        omega
      exact hrun.not_owned hs.exact (by omega) (by omega) hown
    obtain ⟨bytes, he, hb⟩ := copyExtent_works (fs.markExtent start required)
      n.dataBlock start n.blockCount
      ⟨hs.works.writable, hs.works.no_faults⟩
      (show n.dataBlock + n.blockCount ≤ fs.dev.blockCount by omega)
      (show start + n.blockCount ≤ fs.dev.blockCount by omega) (by omega)
    obtain ⟨bytes', he', hb'⟩ := zeroExtent_works ((fs.markExtent start required).setBytes bytes)
      start (List.range' n.blockCount (required - n.blockCount))
      ⟨hs.works.writable, hs.works.no_faults⟩
      (by
        intro k hk
        have := List.mem_range'_1.mp hk
        show start + k < fs.dev.blockCount
        omega)
    have heq : fs.moveExtent i required = ((fs.withExtent i fs.dev.bytes
        ((fs.blockBitmap.markRange start required).clearRange n.dataBlock n.blockCount)
          start required).setBytes bytes', true) := by
      subst hn
      unfold moveExtent allocateExtent
      rw [if_neg (by omega), hfind]
      dsimp only
      rw [he]
      dsimp only
      rw [he']
      rfl
    have hnew : ∀ a, bytes' a = if start + n.blockCount ≤ a / 512 ∧
        a / 512 < start + required then 0
        else bytes a := by
      intro a
      rw [hb']
      refine if_congr ?_ rfl rfl
      constructor
      · rintro ⟨k, hk, hk'⟩
        have := List.mem_range'_1.mp hk
        omega
      · intro h
        exact ⟨a / 512 - start, List.mem_range'_1.mpr (by omega), by omega⟩
    refine ⟨_, start, heq, ⟨hext.setBytes _ (fun a ha => ?_) hi hu, ?_, ?_⟩⟩
    · rw [hnew, if_neg (by omega), hb, if_neg (by omega)]
      rfl
    · intro k hk
      rw [hn] at hk ⊢
      show bytes' _ = _
      rw [hnew, if_neg (by omega), hb, if_pos (by omega), Nat.add_sub_cancel_left]
      rfl
    · intro k hk hk'
      rw [hn] at hk
      show bytes' _ = _
      rw [hnew, if_pos (by omega)]

/-- `simplefs_ensure_extent`: no change for lack of space, or an extent that is
large enough. -/
theorem ensureExtent_spec (required : Nat) :
    fs.ensureExtent i required = (fs, false) ∨
      ∃ fs' start, fs.ensureExtent i required = (fs', true) ∧
        Grown fs fs' i start (max (fs.nodes i).disk.blockCount required) := by
  unfold ensureExtent
  dsimp only
  split
  next hle =>
    rw [Nat.max_eq_left hle]
    exact Or.inr ⟨fs, _, rfl, Extended.refl hs.exact i, fun _ _ => rfl, fun k hk hk' => by omega⟩
  next hgt =>
  rw [Nat.max_eq_right (by omega)]
  split
  next h0 => exact firstExtent_spec hs hi hu h0 (by omega)
  next h0 =>
  split
  next hfree =>
    obtain ⟨fs', he, hg⟩ := growExtent_spec hs hi hu h0 (by omega)
      ((extentIsFree_iff ..).mp hfree)
    exact Or.inr ⟨fs', _, he, hg⟩
  · exact moveExtent_spec hs hi hu h0 (by omega)

end Grow

/-! ## Directories and sizes -/

section Shrink

variable (he : Exact fs) (hi : i < fs.sb.inodeCount) (hu : fs.inodeUsed i = true)

include he hi hu

theorem released_spec : ∃ start, Extended fs (fs.released i) i start 0 := by
  unfold released
  by_cases h0 : (fs.nodes i).disk.blockCount = 0
  · rw [if_neg (by simp [h0])]
    have := Extended.refl he i
    rw [h0] at this
    exact ⟨_, this⟩
  · rw [if_pos h0]
    exact ⟨0, releaseExtent_spec he hi hu⟩

/-- An extent that loses its last blocks. -/
theorem shrink_spec {count : Nat} (hlt : count < (fs.nodes i).disk.blockCount) :
    Extended fs (fs.withExtent i fs.dev.bytes (fs.blockBitmap.clearRange
        ((fs.nodes i).disk.dataBlock + count) ((fs.nodes i).disk.blockCount - count))
        (fs.nodes i).disk.dataBlock count)
      i (fs.nodes i).disk.dataBlock count := by
  obtain ⟨n, hn⟩ : ∃ n, (fs.nodes i).disk = n := ⟨_, rfl⟩
  have hown : ∀ b, n.dataBlock ≤ b → b < n.dataBlock + n.blockCount → Owns fs i b := by
    intro b h1 h2
    rw [← hn] at h1 h2
    exact ⟨hi, hu, h1, h2⟩
  rw [hn] at hlt ⊢
  refine ⟨⟨_, _, rfl⟩, he.withExtent hi hu (fun b h1 h2 => ?_) (fun j b hj ho hin => ?_)
    (fun b hb => ?_), fun _ _ => rfl⟩
  · exact he.inside i b (hown b h1 (by omega))
  · exact hj (he.disjoint j i b ho (hown b hin.1 (by omega)))
  have hm := he.marked_from hi hu hb
  rw [hn] at hm
  rw [Bitmap.test_clearRange (by omega)]
  simp only [Bool.and_eq_true, Bool.not_eq_true', decide_eq_false_iff_not]
  change _ ∧ fs.blockUsed b = true ↔ _
  rw [hm]
  constructor
  · rintro ⟨hout, h | h | h⟩
    · exact Or.inl h
    · exact Or.inr (Or.inl h)
    · exact Or.inr (Or.inr (by omega))
  · intro h
    refine ⟨fun hin => ?_, h.imp id (Or.imp id fun h => by omega)⟩
    have ho := hown b (by omega) (by omega)
    rcases h with h | ⟨j, hj, ho'⟩ | h
    · have := (he.inside i b ho).1
      omega
    · exact hj (he.disjoint j i b ho' ho)
    · omega

end Shrink

/-- The blocks of a size that does not wrap. -/
theorem requiredBlocks_bounds {size : Nat} (hsize : size < 2 ^ 32) (h : requiredBlocks size ≠ 0) :
    size ≤ 512 * requiredBlocks size ∧ 512 * requiredBlocks size < size + 512 := by
  unfold requiredBlocks alignedUnits at h ⊢
  split at h
  · exact absurd rfl h
  · rw [if_neg (by assumption)]
    omega

/-- A write inside a run of blocks leaves the other blocks alone. -/
theorem write_outside_run {m : Store} {bs : List Byte} {a offset : Nat}
    (h : offset + bs.length ≤ 512 * count) (ha : ¬(start ≤ a / 512 ∧ a / 512 < start + count)) :
    m.write (512 * start + offset) bs a = m a :=
  Store.write_outside (by omega)

section Resize

variable (hs : Sound fs) (hi : i < fs.sb.inodeCount) (hu : fs.inodeUsed i = true)

include hs hi hu

/-- `simplefs_zero_range` inside the extent the inode has just got. -/
theorem zeroRange_extended (hext : Extended fs fs' i start count) (offset length : Nat)
    (hl : offset + length ≤ 512 * count) :
    ∃ fs'', fs'.zeroRange i offset length = (fs'', true) ∧ Extended fs fs'' i start count ∧
      fs''.dev.bytes = fs'.dev.bytes.write (512 * start + offset) (List.replicate length 0) := by
  have hs' := hext.sound hs
  have hdisk := hext.disk_self
  by_cases h0 : length = 0
  · refine ⟨fs', ?_, hext, ?_⟩
    · rw [zeroRange, if_pos h0]
    · rw [h0, List.replicate_zero, Store.write_nil]
  have hle : start + count ≤ fs'.dev.blockCount := by
    have := hs'.exact.extent_le (i := i) (by rw [hext.sb]; exact hi)
      (by rw [inodeUsed, hext.inodeBitmap]; exact hu) (by rw [hdisk]; show count ≠ 0; omega)
    rw [hdisk] at this
    exact this.trans hs'.fits
  have hz := zeroRange_works fs' i offset length hs'.works (by
    rw [hdisk]
    show 512 * start + offset + length ≤ _
    omega)
  rw [hdisk] at hz
  refine ⟨_, hz, hext.setBytes _ (fun a ha => ?_) hi hu, rfl⟩
  exact write_outside_run (by rw [List.length_replicate]; exact hl) ha

/-- The branch of `simplefs_resize_node` that grows the extent. -/
theorem resizeExtent_grow {newSize : Nat} (hsize : newSize < 2 ^ 32)
    (hgt : (fs.nodes i).disk.blockCount < requiredBlocks newSize) :
    fs.resizeExtent i newSize = (fs, false) ∨
      ∃ fs' fs'' start, fs.resizeExtent i newSize = (fs'', true) ∧
        Grown fs fs' i start (requiredBlocks newSize) ∧
        Extended fs fs'' i start (requiredBlocks newSize) ∧
        fs''.dev.bytes = fs'.dev.bytes.write (512 * start + (fs.nodes i).disk.size)
          (List.replicate (newSize - (fs.nodes i).disk.size) 0) := by
  have hbounds := requiredBlocks_bounds hsize (by omega)
  unfold resizeExtent
  rw [if_pos hgt]
  rcases ensureExtent_spec hs hi hu (requiredBlocks newSize) with he | ⟨fs', start, he, hg⟩
  · rw [he]
    exact Or.inl rfl
  rw [he]
  rw [Nat.max_eq_right (by omega)] at hg
  refine Or.inr ?_
  dsimp only
  split
  next hlt =>
    obtain ⟨fs'', hz, hext, hb⟩ := zeroRange_extended hs hi hu hg.toExtended
      (fs.nodes i).disk.size (newSize - (fs.nodes i).disk.size) (by omega)
    exact ⟨fs', fs'', start, hz, hg, hext, hb⟩
  next hge =>
    refine ⟨fs', fs', start, rfl, hg, hg.toExtended, ?_⟩
    rw [Nat.sub_eq_zero_of_le (by omega), List.replicate_zero, Store.write_nil]

/-- The branches of `simplefs_resize_node` that do not grow the extent: the bytes up to
the new size stay where they are. -/
theorem resizeExtent_shrink {newSize : Nat} (hsize : newSize < 2 ^ 32)
    (hle : requiredBlocks newSize ≤ (fs.nodes i).disk.blockCount) :
    ∃ fs' start, fs.resizeExtent i newSize = (fs', true) ∧
      Extended fs fs' i start (requiredBlocks newSize) ∧
      (requiredBlocks newSize ≠ 0 → start = (fs.nodes i).disk.dataBlock ∧
        ∀ k < newSize, fs'.dev.bytes (512 * start + k) = fs.dev.bytes (512 * start + k)) := by
  unfold resizeExtent
  dsimp only
  rw [if_neg (by omega)]
  split
  next hlt =>
    split
    next h0 =>
      rw [h0]
      exact ⟨_, 0, rfl, releaseExtent_spec hs.exact hi hu, fun h => absurd rfl h⟩
    next h0 =>
    have hbounds := requiredBlocks_bounds hsize h0
    have hext := shrink_spec hs.exact hi hu hlt
    have heq : (fs.unmarkExtent ((fs.nodes i).disk.dataBlock + requiredBlocks newSize)
        ((fs.nodes i).disk.blockCount - requiredBlocks newSize)).modifyDisk i
          (fun n => { n with blockCount := requiredBlocks newSize })
        = fs.withExtent i fs.dev.bytes (fs.blockBitmap.clearRange
          ((fs.nodes i).disk.dataBlock + requiredBlocks newSize)
          ((fs.nodes i).disk.blockCount - requiredBlocks newSize))
          (fs.nodes i).disk.dataBlock (requiredBlocks newSize) := rfl
    rw [heq]
    split
    next hmod =>
      obtain ⟨fs', hz, hext', hbytes⟩ := zeroRange_extended hs hi hu hext newSize
        (512 - newSize % 512) (by omega)
      refine ⟨fs', _, hz, hext', fun _ => ⟨rfl, fun k hk => ?_⟩⟩
      rw [hbytes]
      exact Store.write_outside (by omega)
    · exact ⟨_, _, rfl, hext, fun _ => ⟨rfl, fun _ _ => rfl⟩⟩
  next hge =>
    have := Extended.refl hs.exact i
    rw [show (fs.nodes i).disk.blockCount = requiredBlocks newSize by omega] at this
    exact ⟨fs, _, rfl, this, fun _ => ⟨rfl, fun _ _ => rfl⟩⟩

/-- `simplefs_resize_node`, the extent: no change for lack of space, or exactly the
blocks the new size needs. -/
theorem resizeExtent_spec {newSize : Nat} (hsize : newSize < 2 ^ 32) :
    fs.resizeExtent i newSize = (fs, false) ∨
      ∃ fs' start, fs.resizeExtent i newSize = (fs', true) ∧
        Extended fs fs' i start (requiredBlocks newSize) := by
  rcases Nat.lt_or_ge (fs.nodes i).disk.blockCount (requiredBlocks newSize) with hgt | hle
  · rcases resizeExtent_grow hs hi hu hsize hgt with h | ⟨-, fs'', start, he, -, hext, -⟩
    · exact Or.inl h
    · exact Or.inr ⟨fs'', start, he, hext⟩
  · obtain ⟨fs', start, he, hext, -⟩ := resizeExtent_shrink hs hi hu hsize hle
    exact Or.inr ⟨fs', start, he, hext⟩

end Resize

end Simplefs

end Riverix.Fs
