import Riverix.Fs.Resize
import Riverix.Fs.Transfers

/-!
# What a failing device does to the allocation state

A failing request never touches the books; what can go wrong is that a function has
changed one half of them and returns before it has changed the other. Two places do. The
in-place growth of an extent marks the new blocks before it zeroes them and enters them in
the inode afterwards, so a failed zeroing leaks them. And a shrink gives blocks back before
it clears the rest of the last one, so when that fails the size is left larger than the
extent. Every other path restores the books, and creating or removing an entry always does.
-/

namespace Riverix.Fs

open Riverix.Lib

namespace Simplefs

variable {fs fs' fs'' : Simplefs} {i d start count required newSize : Nat}

theorem device_books (fs : Simplefs) (dev : Device) : { fs with dev }.books = fs.books := rfl

/-- The block bitmap marks exactly the extents, and every file fits in its own. -/
structure Accounted (fs : Simplefs) : Prop where
  exact : Exact fs
  fit : FilesFit fs

theorem Accounted.ledger (ha : Accounted fs) : Ledger True fs := ⟨ha.exact, fun _ => ha.fit⟩

theorem Ledger.accounted (h : Ledger True fs) : Accounted fs := ⟨h.exact, h.fit trivial⟩

theorem Accounted.of_books (ha : Accounted fs) (h : fs'.books = fs.books) : Accounted fs' :=
  (ha.ledger.of_books h).accounted

theorem unmarkExtent_books (h : fs'.books = fs.books) (start count : Nat) :
    (fs'.unmarkExtent start count).books = (fs.unmarkExtent start count).books :=
  congrArg (fun b : Books => { b with blockBitmap := b.blockBitmap.clearRange start count }) h

/-- The files fit if the one that moved does. -/
theorem Placed.accounted (h : Placed fs fs' i start count) (ha : Accounted fs)
    (hsize : (fs.nodes i).disk.kind = kindFile → (fs.nodes i).disk.size ≤ 512 * count) :
    Accounted fs' := by
  refine ⟨h.exact, fun j hj hu hk => ?_⟩
  rw [h.sb] at hj
  rw [h.used] at hu
  by_cases hji : j = i
  · subst hji
    rw [h.disk_self] at hk ⊢
    exact hsize hk
  · rw [h.disk_ne hji] at hk ⊢
    exact ha.fit j hj hu hk

/-! ## Growing -/

/-- Zeroing a run inside the device succeeds as long as its requests are served. -/
theorem zeroExtent_ok (fs : Simplefs) (hw : fs.dev.readOnly = false) (start : Nat)
    (indices : List Nat) (hr : ∀ k ∈ indices, start + k < fs.dev.blockCount) :
    (fs.zeroExtent start indices).2 = true ↔ ∀ r < indices.length, fs.dev.fault r = false := by
  unfold zeroExtent
  induction indices generalizing fs with
  | nil => exact ⟨fun _ r hr => absurd hr (Nat.not_lt_zero r), fun _ => rfl⟩
  | cons k ks ih =>
    have hk := hr k (List.mem_cons_self ..)
    rw [loop, zeroBlock, writeBlocks, Device.write_one hw hk]
    by_cases hf : fs.dev.fault 0 = true
    · rw [if_pos hf]
      refine ⟨by simp, fun h => ?_⟩
      rw [h 0 (by simp)] at hf
      exact absurd hf (by decide)
    rw [if_neg hf]
    refine (ih { fs with dev := (fs.dev.put (start + k) 1 fun _ => 0).answered } hw
      fun j hj => hr j (List.mem_cons_of_mem _ hj)).trans ?_
    have hrest : ∀ r, ((fs.dev.put (start + k) 1 fun _ => 0).answered).fault r
        = fs.dev.fault (r + 1) := fun r => Device.answered_fault _ r
    constructor
    · intro h r hlt
      cases r with
      | zero => exact Bool.not_eq_true _ |>.mp hf
      | succ r =>
        rw [← hrest]
        exact h r (by rw [List.length_cons] at hlt; omega)
    · intro h r hlt
      show ((fs.dev.put (start + k) 1 fun _ => 0).answered).fault r = false
      rw [hrest]
      exact h (r + 1) (by rw [List.length_cons]; omega)

/-- A run that was free is free again once it is unmarked. -/
theorem unmark_books (hrun : FreeRun fs start required)
    (h : fs'.books = (fs.markExtent start required).books) :
    (fs'.unmarkExtent start required).books = fs.books := by
  rw [unmarkExtent_books h]
  exact congrArg (fun bm => (⟨fs.sb, fs.inodeBitmap, bm, fun j => (fs.nodes j).disk⟩ : Books))
    (Bitmap.clearRange_markRange (by omega) hrun.free)

/-- The growth of an extent into the free blocks after it. -/
structure GrowsInPlace (fs : Simplefs) (i required : Nat) : Prop where
  some_blocks : (fs.nodes i).disk.blockCount ≠ 0
  more : (fs.nodes i).disk.blockCount < required
  free : fs.extentIsFree ((fs.nodes i).disk.dataBlock + (fs.nodes i).disk.blockCount)
    (required - (fs.nodes i).disk.blockCount) = true

theorem zeroExtent_books {start : Nat} {indices : List Nat} {ok : Bool}
    (h : fs.zeroExtent start indices = (fs', ok)) : fs'.books = fs.books := by
  have hbooks := (zeroExtent_onDevice fs start indices).books
  rwa [h] at hbooks

/-- A growth that fails has marked blocks that nobody owns. -/
theorem growExtent_leaks (he : Exact fs) (hg : GrowsInPlace fs i required)
    (hok : (fs.growExtent i required).2 = false) : ¬ Exact (fs.growExtent i required).1 := by
  have hrun := (extentIsFree_iff ..).mp hg.free
  have hmore := hg.more
  have hin := hrun.inside
  unfold growExtent at hok ⊢
  dsimp only at hok ⊢
  split at hok
  next fs₁ heq =>
    intro hexact
    have hexact : Exact (fs.markExtent
        ((fs.nodes i).disk.dataBlock + (fs.nodes i).disk.blockCount)
        (required - (fs.nodes i).disk.blockCount)) := hexact.of_books (zeroExtent_books heq).symm
    obtain ⟨b, hb⟩ : ∃ b, b = (fs.nodes i).disk.dataBlock + (fs.nodes i).disk.blockCount :=
      ⟨_, rfl⟩
    have hlt : b < fs.sb.totalBlocks := by omega
    have hmarked : (fs.blockBitmap.markRange
        ((fs.nodes i).disk.dataBlock + (fs.nodes i).disk.blockCount)
        (required - (fs.nodes i).disk.blockCount)).test b = true := by
      rw [Bitmap.test_markRange (by omega), decide_eq_true (by omega), Bool.true_or]
    rcases (hexact.marked b hlt).mp hmarked with hmeta | ⟨j, hown⟩
    · have : fs.sb.dataBlockStart ≤ b := by omega
      exact absurd hmeta (Nat.not_lt.mpr this)
    · exact hrun.not_owned he (by omega) (by omega) (show Owns fs j b from hown)
  · simp at hok

theorem growExtent_ok (hw : fs.dev.readOnly = false) (hfits : fs.sb.totalBlocks ≤ fs.dev.blockCount)
    (hg : GrowsInPlace fs i required) : (fs.growExtent i required).2 = true ↔
      ∀ r < required - (fs.nodes i).disk.blockCount, fs.dev.fault r = false := by
  have hin := ((extentIsFree_iff ..).mp hg.free).inside
  have hiff := zeroExtent_ok (fs.markExtent
      ((fs.nodes i).disk.dataBlock + (fs.nodes i).disk.blockCount)
      (required - (fs.nodes i).disk.blockCount)) hw
    ((fs.nodes i).disk.dataBlock + (fs.nodes i).disk.blockCount)
    (List.range (required - (fs.nodes i).disk.blockCount)) (by
      intro k hk
      have := List.mem_range.mp hk
      show _ < fs.dev.blockCount
      omega)
  rw [List.length_range] at hiff
  refine Iff.trans ?_ hiff
  unfold growExtent
  dsimp only
  split
  next heq => rw [heq]
  next heq => rw [heq]

section Ensure

variable (he : Exact fs) (hi : i < fs.sb.inodeCount) (hu : fs.inodeUsed i = true)

include he hi hu

theorem firstExtent_placed (h0 : (fs.nodes i).disk.blockCount = 0) (hreq : required ≠ 0) :
    ∃ start count, Placed fs (fs.firstExtent i required).1 i start count ∧
      ((fs.firstExtent i required).2 = true → count = required) := by
  unfold firstExtent allocateExtent
  rw [if_neg hreq]
  cases hfind : fs.findExtent required with
  | none => exact ⟨_, _, Placed.refl he i, by simp⟩
  | some start =>
    have hext := claim_spec he hi hu h0 (findExtent_some hfind)
    exact ⟨start, required, hext.placed.device (zeroExtent_onDevice _ _ _).books, fun _ => rfl⟩

theorem moveExtent_placed (hlt : (fs.nodes i).disk.blockCount < required) :
    ∃ start count, Placed fs (fs.moveExtent i required).1 i start count ∧
      (fs.nodes i).disk.blockCount ≤ count ∧
      ((fs.moveExtent i required).2 = true → count = required) := by
  unfold moveExtent allocateExtent
  rw [if_neg (by omega)]
  cases hfind : fs.findExtent required with
  | none => exact ⟨_, _, Placed.refl he i, le_refl _, by simp⟩
  | some start =>
    have hrun := findExtent_some hfind
    have hcopy := (copyExtent_onDevice (fs.markExtent start required) (fs.nodes i).disk.dataBlock
      start (fs.nodes i).disk.blockCount).books
    dsimp only
    split
    next fs₁ heq =>
      rw [heq] at hcopy
      exact ⟨_, _, (Placed.refl he i).device (unmark_books hrun hcopy), le_refl _,
        by simp⟩
    next fs₁ heq =>
    rw [heq] at hcopy
    have hzero := (zeroExtent_onDevice fs₁ start
      (List.range' (fs.nodes i).disk.blockCount (required - (fs.nodes i).disk.blockCount))).books
    split
    next fs₂ heq' =>
      rw [heq'] at hzero
      exact ⟨_, _, (Placed.refl he i).device (unmark_books hrun (hzero.trans hcopy)), le_refl _,
        by simp⟩
    next fs₂ heq' =>
    rw [heq'] at hzero
    have hext := move_spec he hi hu hrun
    refine ⟨start, required, hext.placed.device ?_, by omega, fun _ => rfl⟩
    exact modifyDisk_books (unmarkExtent_books (hzero.trans hcopy) _ _) i _

theorem growExtent_placed (hg : GrowsInPlace fs i required)
    (hok : (fs.growExtent i required).2 = true) :
    Placed fs (fs.growExtent i required).1 i (fs.nodes i).disk.dataBlock required := by
  have hext := extend_spec he hi hu hg.some_blocks hg.more ((extentIsFree_iff ..).mp hg.free)
  refine hext.placed.device ?_
  unfold growExtent at hok ⊢
  dsimp only at hok ⊢
  split at hok
  · simp at hok
  next fs₁ heq => exact modifyDisk_books (zeroExtent_books heq) i _

/-- An extent that is to grow: it has grown, or stayed, or moved, whatever the device did;
only the growth in place must not be cut short. -/
theorem ensureExtent_placed (hmore : (fs.nodes i).disk.blockCount < required)
    (hgrow : GrowsInPlace fs i required → (fs.growExtent i required).2 = true) :
    ∃ start count, Placed fs (fs.ensureExtent i required).1 i start count ∧
      (fs.nodes i).disk.blockCount ≤ count ∧
      ((fs.ensureExtent i required).2 = true → count = required) := by
  unfold ensureExtent
  rw [if_neg (by omega)]
  by_cases h0 : (fs.nodes i).disk.blockCount = 0
  · rw [if_pos h0]
    obtain ⟨start, count, hp, hok⟩ := firstExtent_placed he hi hu h0 (show required ≠ 0 by omega)
    exact ⟨start, count, hp, by omega, hok⟩
  rw [if_neg h0]
  by_cases hfree : fs.extentIsFree ((fs.nodes i).disk.dataBlock + (fs.nodes i).disk.blockCount)
      (required - (fs.nodes i).disk.blockCount) = true
  · rw [if_pos hfree]
    have hg : GrowsInPlace fs i required := ⟨h0, hmore, hfree⟩
    exact ⟨_, _, growExtent_placed he hi hu hg (hgrow hg), by omega, fun _ => rfl⟩
  · rw [if_neg hfree]
    exact moveExtent_placed he hi hu hmore

end Ensure

/-! ## Resizing -/

/-- Zeroing a part of one block needs two requests. -/
theorem zeroRange_ok (fs : Simplefs) (i offset : Nat) {length : Nat}
    (hw : fs.dev.readOnly = false) (hl : length ≠ 0)
    (hone : offset % 512 + length ≤ 512)
    (hb : (fs.nodes i).disk.dataBlock + offset / 512 < fs.dev.blockCount) :
    (fs.zeroRange i offset length).2 = true ↔ fs.dev.fault 0 = false ∧ fs.dev.fault 1 = false := by
  rw [zeroRange, if_neg hl, show min length (512 - offset % 512) = length by omega]
  simp only [readBlocks, Device.read_one hb]
  by_cases hf : fs.dev.fault 0 = true
  · simp only [if_pos hf]
    simp [hf]
  simp only [if_neg hf, writeBlocks, Device.write_one (d := fs.dev.answered) hw hb,
    Device.answered_fault]
  by_cases hf' : fs.dev.fault 1 = true
  · simp only [if_pos hf']
    simp [hf']
  · simp only [if_neg hf', Nat.sub_self]
    rw [zeroRange, if_pos rfl]
    simp [hf, hf']

/-- The new size is recorded: the books balance if it fits in the extent. -/
theorem setSize_accounted (ha : Accounted fs) (hi : i < fs.sb.inodeCount)
    (hu : fs.inodeUsed i = true) (hk : (fs.nodes i).disk.kind = kindFile)
    (hp : Placed fs fs' i start count) :
    Accounted (fs'.setSize i newSize).flushMetadata.1 ↔ newSize ≤ 512 * count := by
  have hb := (flushMetadata_onDevice (fs'.setSize i newSize)).books
  have hdisk : ((fs'.setSize i newSize).nodes i).disk = { (fs.nodes i).disk with
      size := newSize, dataBlock := start, blockCount := count } := by
    rw [setSize, modify_nodes_self]
    rw [hp.disk_self]
  constructor
  · intro h
    have := (h.of_books hb.symm).fit i (by show i < fs'.sb.inodeCount; rw [hp.sb]; exact hi)
      (by show fs'.inodeUsed i = true; rw [hp.used]; exact hu) (by rw [hdisk]; exact hk)
    rw [hdisk] at this
    exact this
  · intro hle
    refine Accounted.of_books ?_ hb
    refine ⟨hp.exact.congr rfl rfl (owns_modify rfl rfl), fun j hj hju hjk => ?_⟩
    by_cases hji : j = i
    · rw [hji, hdisk]
      exact hle
    have hne : (fs'.setSize i newSize).nodes j = fs'.nodes j := modify_nodes_ne _ _ hji
    rw [hne, hp.disk_ne hji] at hjk ⊢
    refine ha.fit j ?_ ?_ hjk
    · rw [← hp.sb]
      exact hj
    · rw [← hp.used]
      exact hju

/-- When a resize leaves the books in order: its size does not wrap when it is rounded, a
growth in place gets all its blocks zeroed, and a shrink below the old size gets the rest
of the last block cleared. -/
structure ResizeSafe (fs : Simplefs) (i newSize : Nat) : Prop where
  rounds : newSize ≤ 2 ^ 32 - 512
  tail : GrowsInPlace fs i (requiredBlocks newSize) →
    ∀ r < requiredBlocks newSize - (fs.nodes i).disk.blockCount, fs.dev.fault r = false
  cut : requiredBlocks newSize < (fs.nodes i).disk.blockCount →
    512 * requiredBlocks newSize < (fs.nodes i).disk.size → newSize % 512 ≠ 0 →
    fs.dev.fault 0 = false ∧ fs.dev.fault 1 = false

section Resize

variable (ha : Accounted fs) (hi : i < fs.sb.inodeCount) (hu : fs.inodeUsed i = true)
  (hk : (fs.nodes i).disk.kind = kindFile) (hw : fs.dev.readOnly = false)
  (hfits : fs.sb.totalBlocks ≤ fs.dev.blockCount) (hsize : newSize < 2 ^ 32)

include ha hi hu hk hw hfits hsize

theorem resizeNode_grow_iff (hgt : (fs.nodes i).disk.blockCount < requiredBlocks newSize) :
    Accounted (fs.resizeNode i newSize).1 ↔ fs.ResizeSafe i newSize := by
  have hbounds := requiredBlocks_bounds hsize (by omega)
  have hrounds : newSize ≤ 2 ^ 32 - 512 := by
    by_contra hwrap
    rw [requiredBlocks_wraps hsize hwrap] at hgt
    omega
  have hold := ha.fit i hi hu hk
  unfold resizeNode resizeExtent
  rw [hw, hk, if_neg (by simp)]
  rw [if_pos hgt]
  by_cases hleak : GrowsInPlace fs i (requiredBlocks newSize) ∧
      (fs.growExtent i (requiredBlocks newSize)).2 = false
  · obtain ⟨hg, hfail⟩ := hleak
    have hens : fs.ensureExtent i (requiredBlocks newSize)
        = fs.growExtent i (requiredBlocks newSize) := by
      unfold ensureExtent
      rw [if_neg (by omega), if_neg hg.some_blocks, if_pos hg.free]
    refine ⟨fun h => ?_, fun h => ?_⟩
    · have hnot := growExtent_leaks ha.exact hg hfail
      rw [hens] at h
      generalize fs.growExtent i (requiredBlocks newSize) = r at hfail hnot h
      obtain ⟨fs₁, ok⟩ := r
      cases hfail
      exact absurd h.exact hnot
    · have := (growExtent_ok hw hfits hg).mpr (h.tail hg)
      rw [hfail] at this
      simp at this
  have hgrow : GrowsInPlace fs i (requiredBlocks newSize) →
      (fs.growExtent i (requiredBlocks newSize)).2 = true := fun hg =>
    Bool.not_eq_false _ |>.mp fun hf => hleak ⟨hg, hf⟩
  have hsafe : fs.ResizeSafe i newSize :=
    ⟨hrounds, fun hg => (growExtent_ok hw hfits hg).mp (hgrow hg), fun h => by omega⟩
  refine ⟨fun _ => hsafe, fun _ => ?_⟩
  obtain ⟨start, count, hp, hcount, hok⟩ := ensureExtent_placed ha.exact hi hu hgt hgrow
  generalize fs.ensureExtent i (requiredBlocks newSize) = r at hp hok
  obtain ⟨fs₁, ok⟩ := r
  cases ok with
  | false => exact hp.accounted ha fun _ => by omega
  | true =>
    obtain rfl := hok rfl
    dsimp only
    have hzero := (zeroRange_onDevice fs₁ i (fs.nodes i).disk.size
      (newSize - (fs.nodes i).disk.size)).books
    split
    next heq =>
      split at heq
      · rw [heq] at hzero
        exact (hp.device hzero).accounted ha fun _ => by omega
      · simp at heq
    next fs₂ heq =>
    have hp₂ : Placed fs fs₂ i start (requiredBlocks newSize) := by
      split at heq
      · rw [heq] at hzero
        exact hp.device hzero
      · cases heq
        exact hp
    exact (setSize_accounted ha hi hu hk hp₂).mpr hbounds.1

theorem resizeNode_shrink_iff (hle : requiredBlocks newSize ≤ (fs.nodes i).disk.blockCount) :
    Accounted (fs.resizeNode i newSize).1 ↔ fs.ResizeSafe i newSize := by
  have htail : GrowsInPlace fs i (requiredBlocks newSize) →
      ∀ r < requiredBlocks newSize - (fs.nodes i).disk.blockCount, fs.dev.fault r = false :=
    fun hg => absurd hg.more (by omega)
  have hround : newSize ≤ 512 * requiredBlocks newSize ↔ newSize ≤ 2 ^ 32 - 512 := by
    refine ⟨fun h => ?_, requiredBlocks_le⟩
    by_contra hwrap
    rw [requiredBlocks_wraps hsize hwrap] at h
    omega
  unfold resizeNode resizeExtent
  rw [hw, hk, if_neg (by simp)]
  dsimp only
  rw [if_neg (by omega)]
  by_cases hlt : requiredBlocks newSize < (fs.nodes i).disk.blockCount
  · rw [if_pos hlt]
    by_cases h0 : requiredBlocks newSize = 0
    · rw [if_pos h0]
      rw [setSize_accounted ha hi hu hk (releaseExtent_spec ha.exact hi hu).placed]
      rw [h0] at hround
      refine hround.trans ⟨fun h => ⟨h, htail, fun _ _ hmod => ?_⟩, fun h => h.rounds⟩
      have := hround.mpr h
      omega
    rw [if_neg h0]
    have hbounds := requiredBlocks_bounds hsize h0
    have hp := (shrink_spec ha.exact hi hu hlt).placed
    have hlast := ha.exact.extent_le hi hu (by omega)
    have hclean : fs.ResizeSafe i newSize ↔ (512 * requiredBlocks newSize < (fs.nodes i).disk.size →
        newSize % 512 ≠ 0 → fs.dev.fault 0 = false ∧ fs.dev.fault 1 = false) :=
      ⟨fun h => h.cut hlt, fun h => ⟨hround.mp hbounds.1, htail, fun _ => h⟩⟩
    -- the state that has given the blocks back
    obtain ⟨fs₁, hfs₁⟩ : ∃ fs₁, fs₁ = fs.withExtent i fs.dev.bytes (fs.blockBitmap.clearRange
        ((fs.nodes i).disk.dataBlock + requiredBlocks newSize)
        ((fs.nodes i).disk.blockCount - requiredBlocks newSize))
        (fs.nodes i).disk.dataBlock (requiredBlocks newSize) := ⟨_, rfl⟩
    have heq : (fs.unmarkExtent ((fs.nodes i).disk.dataBlock + requiredBlocks newSize)
        ((fs.nodes i).disk.blockCount - requiredBlocks newSize)).modifyDisk i
          (fun n => { n with blockCount := requiredBlocks newSize }) = fs₁ := by
      rw [hfs₁]
      rfl
    rw [← hfs₁] at hp
    rw [heq, hclean]
    by_cases hmod : newSize % 512 = 0
    · rw [if_neg (not_not.mpr hmod)]
      rw [setSize_accounted ha hi hu hk hp]
      exact ⟨fun _ _ h => absurd hmod h, fun _ => hbounds.1⟩
    rw [if_pos hmod]
    have hok := zeroRange_ok fs₁ i newSize (by rw [hfs₁]; exact hw)
      (show 512 - newSize % 512 ≠ 0 by omega) (by omega) (by
        rw [hp.disk_self, hfs₁]
        show (fs.nodes i).disk.dataBlock + newSize / 512 < fs.dev.blockCount
        omega)
    have hdev : fs₁.dev.faults = fs.dev.faults := by rw [hfs₁]; rfl
    unfold Device.fault at hok ⊢
    rw [hdev] at hok
    rw [← hok]
    have hzero := (zeroRange_onDevice fs₁ i newSize (512 - newSize % 512)).books
    generalize fs₁.zeroRange i newSize (512 - newSize % 512) = r at hzero
    obtain ⟨fs₂, ok⟩ := r
    have hp₂ := hp.device hzero
    cases ok with
    | false =>
      refine ⟨fun h hcut _ => ?_, fun h => hp₂.accounted ha fun _ => ?_⟩
      · have := h.fit i (by rw [hp₂.sb]; exact hi) (by rw [hp₂.used]; exact hu)
          (by rw [hp₂.disk_self]; exact hk)
        rw [hp₂.disk_self] at this
        exact absurd this (Nat.not_le.mpr hcut)
      · by_contra hcut
        exact absurd (h (by omega) hmod) (by simp)
    | true =>
      exact ⟨fun _ _ _ => rfl, fun _ => (setSize_accounted ha hi hu hk hp₂).mpr hbounds.1⟩
  · rw [if_neg hlt]
    rw [setSize_accounted ha hi hu hk (Placed.refl ha.exact i),
      show (fs.nodes i).disk.blockCount = requiredBlocks newSize by omega]
    exact hround.trans ⟨fun h => ⟨h, htail, fun h' => absurd h' hlt⟩, fun h => h.rounds⟩

end Resize

theorem resizeNode_accounted_iff (ha : Accounted fs) (hi : i < fs.sb.inodeCount)
    (hu : fs.inodeUsed i = true) (hfits : fs.sb.totalBlocks ≤ fs.dev.blockCount) {newSize : Nat}
    (hsize : newSize < 2 ^ 32) : Accounted (fs.resizeNode i newSize).1 ↔
      (fs.dev.readOnly = false → (fs.nodes i).disk.kind = kindFile → fs.ResizeSafe i newSize) := by
  by_cases hgo : fs.dev.readOnly = false ∧ (fs.nodes i).disk.kind = kindFile
  · obtain ⟨hw, hk⟩ := hgo
    have hiff : Accounted (fs.resizeNode i newSize).1 ↔ fs.ResizeSafe i newSize := by
      rcases Nat.lt_or_ge (fs.nodes i).disk.blockCount (requiredBlocks newSize) with hgt | hle
      · exact resizeNode_grow_iff ha hi hu hk hw hfits hsize hgt
      · exact resizeNode_shrink_iff ha hi hu hk hw hfits hsize hle
    exact hiff.trans ⟨fun h _ _ => h, fun h => h hw hk⟩
  refine ⟨fun _ hw hk => absurd ⟨hw, hk⟩ hgo, fun _ => ?_⟩
  unfold resizeNode
  rw [if_pos]
  · exact ha
  · by_cases hw : fs.dev.readOnly = true
    · exact .inl hw
    · exact .inr fun hk => hgo ⟨Bool.not_eq_true _ |>.mp hw, hk⟩

/-! ## All operations -/

/-- The operations that change the allocation state. -/
inductive Operation
  | write (i offset : Nat) (buffer : List Byte)
  | resize (i : Nat) (newSize : UInt32)
  | create (d : Nat) (isDir : Bool) (name : List Byte) (mode uid gid : Nat)
  | remove (d : Nat) (name : List Byte)

/-- The inode that an operation is given. -/
def Operation.target : Operation → Nat
  | write i .. => i
  | resize i _ => i
  | create d .. => d
  | remove d _ => d

/-- The state after an operation, whatever it returned. -/
def after (fs : Simplefs) : Operation → Simplefs
  | .write i offset buffer => (fs.regularWrite i offset buffer).1
  | .resize i newSize => (fs.resizeNode i newSize.toNat).1
  | .create d isDir name mode uid gid => (fs.createChild d isDir name mode uid gid).1
  | .remove d name => (fs.removeChild d name).1

/-- The operation does not reach one of the two places where an error is not undone, nor a
size that wraps: a write does so through the resize that it needs. -/
def Survives (fs : Simplefs) : Operation → Prop
  | .write i offset buffer =>
    fs.dev.readOnly = false → (fs.nodes i).disk.kind = kindFile → buffer.length ≠ 0 →
      offset + buffer.length < 2 ^ 32 → (fs.nodes i).disk.size < offset + buffer.length →
      fs.ResizeSafe i (offset + buffer.length)
  | .resize i newSize =>
    fs.dev.readOnly = false → (fs.nodes i).disk.kind = kindFile → fs.ResizeSafe i newSize.toNat
  | .create .. => True
  | .remove .. => True

theorem regularWrite_accounted_iff (ha : Accounted fs) (hi : i < fs.sb.inodeCount)
    (hu : fs.inodeUsed i = true) (hfits : fs.sb.totalBlocks ≤ fs.dev.blockCount) (offset : Nat)
    (buffer : List Byte) : Accounted (fs.regularWrite i offset buffer).1 ↔
      fs.Survives (.write i offset buffer) := by
  unfold regularWrite Survives
  dsimp only
  split
  next hstop =>
    refine ⟨fun _ hw hk => ?_, fun _ => ha⟩
    rw [hw, hk] at hstop
    simp at hstop
  split
  next hl => exact ⟨fun _ _ _ hl' => absurd hl hl', fun _ => ha⟩
  next hl =>
  split
  next hwrap => exact ⟨fun _ _ _ _ hlt => by omega, fun _ => ha⟩
  next hwrap =>
  have hlt : offset + buffer.length < 2 ^ 32 := by omega
  generalize hmade : (if offset + buffer.length > (fs.nodes i).disk.size
    then fs.resizeNode i (offset + buffer.length) else (fs, true)) = made
  have hiff : Accounted made.1 ↔ fs.Survives (.write i offset buffer) := by
    rw [← hmade]
    split
    next hgt =>
      rw [resizeNode_accounted_iff ha hi hu hfits hlt]
      exact ⟨fun h hw hk _ _ _ => h hw hk, fun h hw hk => h hw hk hl hlt hgt⟩
    next hle => exact ⟨fun _ _ _ _ _ hgt => absurd hgt hle, fun _ => ha⟩
  refine Iff.trans ?_ hiff
  obtain ⟨fs₁, ok⟩ := made
  cases ok with
  | false => exact Iff.rfl
  | true =>
    -- the loop itself leaves the books alone
    have hb := (writeLoop_onDevice fs₁ i offset buffer 0).books
    dsimp only
    generalize fs₁.writeLoop i offset buffer 0 = r at hb
    obtain ⟨fs₂, written, ok⟩ := r
    cases ok with
    | false => exact ⟨fun h => h.of_books hb.symm, fun h => h.of_books hb⟩
    | true => exact ⟨fun h => h.of_books hb.symm, fun h => h.of_books hb⟩

/-- **Which errors the allocation state survives.** After any operation with any pattern of
failing requests the books balance, exactly unless the operation reaches a growth in place
that is cut short, a shrink whose last block cannot be cleared, or a size that wraps. -/
theorem accounted_after_iff (ha : Accounted fs) (hfits : fs.sb.totalBlocks ≤ fs.dev.blockCount)
    (op : Operation) (ht : op.target < fs.sb.inodeCount) (hu : fs.inodeUsed op.target = true) :
    Accounted (fs.after op) ↔ fs.Survives op := by
  cases op with
  | write i offset buffer => exact regularWrite_accounted_iff ha ht hu hfits offset buffer
  | resize i newSize => exact resizeNode_accounted_iff ha ht hu hfits newSize.toNat_lt
  | create d isDir name mode uid gid =>
    exact ⟨fun _ => trivial, fun _ => (createChild_ledger ha.ledger ht hu isDir name mode uid
      gid).accounted⟩
  | remove d name =>
    exact ⟨fun _ => trivial, fun _ => (removeChild_ledger ha.ledger ht hu name).accounted⟩

/-- The small image with a file of one byte, on a device that refuses the next request. -/
def leakyFs : Simplefs := { cutFs with dev := { cutFs.dev with faults := [true] } }

theorem leakyFs_accounted : Accounted leakyFs :=
  Accounted.of_books ⟨cutFs_consistent.sound.exact, cutFs_consistent.sizes⟩
    (device_books cutFs { cutFs.dev with faults := [true] })

/-- The refused request costs the creation of a file nothing. -/
theorem accounted_after_iff_create : Accounted (leakyFs.after (.create 0 false [0x62] 0 0 0)) :=
  (accounted_after_iff leakyFs_accounted (by decide +kernel) _ (by decide +kernel)
    (by decide +kernel)).mpr trivial

theorem shortFs_accounted : Accounted shortFs := by
  have hsb : fileFs.sb = sampleSuperblock := by decide +kernel
  have hfit : ∀ i < 4, (fileFs.nodes i).disk.size ≤ 512 * (fileFs.nodes i).disk.blockCount := by
    decide +kernel
  have hrun : Alloc fileFs := run_invariant step_alloc _
    (mount_alloc sampleDevice_works sampleFs_mounted sampleFs_exact)
  refine Accounted.of_books ⟨hrun.sound.exact, fun i hi _ _ => hfit i ?_⟩
    (device_books fileFs { fileFs.dev with faults := [false, true] })
  rw [hsb] at hi
  exact hi

/-- A growth in place that is refused leaks its block, and a shrink whose last block
cannot be cleared leaves a file larger than its extent. -/
theorem refused_resize_breaks_books :
    (Accounted leakyFs ∧ ¬ Accounted (leakyFs.after (.resize 2 600))) ∧
      Accounted shortFs ∧ ¬ Accounted (shortFs.after (.resize 2 1)) := by
  refine ⟨⟨leakyFs_accounted, fun h => ?_⟩, shortFs_accounted, fun h => ?_⟩
  · have hsafe := (resizeNode_accounted_iff leakyFs_accounted (i := 2) (by decide +kernel)
      (by decide +kernel) (by decide +kernel) (show 600 < 2 ^ 32 by decide)).mp h
      (by decide +kernel) (by decide +kernel)
    have := hsafe.tail ⟨by decide +kernel, by decide +kernel, by decide +kernel⟩ 0
      (by decide +kernel)
    exact absurd this (by decide +kernel)
  · have hsafe := (resizeNode_accounted_iff shortFs_accounted (i := 2) (by decide +kernel)
      (by decide +kernel) (by decide +kernel) (show 1 < 2 ^ 32 by decide)).mp h
      (by decide +kernel) (by decide +kernel)
    have := hsafe.cut (by decide +kernel) (by decide +kernel) (by decide)
    exact absurd this.2 (by decide +kernel)

end Simplefs

end Riverix.Fs
