import Riverix.Fs.Parts

/-!
# Extents and the block bitmap

Every used inode owns the run of blocks `[data_block, data_block + block_count)`.
`Exact` says that the block bitmap marks these runs and the metadata blocks and
nothing else, that the runs are disjoint and that they lie in the data area.

A step that gives one inode another extent ends in a state of the form
`withExtent`. `Extended` is the statement made about such a step: the bitmap is
exact again, and no byte of the metadata or of another inode's blocks has changed.
-/

namespace Riverix.Fs

open Riverix.Lib

namespace Simplefs

variable {fs fs' : Simplefs} {i j b start count required : Nat} {bytes : Store} {bm : Bitmap 8}

/-- Inode `i` is in use and block `b` belongs to its extent. -/
def Owns (fs : Simplefs) (i b : Nat) : Prop :=
  i < fs.sb.inodeCount ∧ fs.inodeUsed i = true ∧ (fs.nodes i).disk.dataBlock ≤ b ∧
    b < (fs.nodes i).disk.dataBlock + (fs.nodes i).disk.blockCount

/-- The block bitmap marks the metadata and the extents, exactly. -/
structure Exact (fs : Simplefs) : Prop where
  inside : ∀ i b, Owns fs i b → fs.sb.dataBlockStart ≤ b ∧ b < fs.sb.totalBlocks
  disjoint : ∀ i j b, Owns fs i b → Owns fs j b → i = j
  marked : ∀ b < fs.sb.totalBlocks,
    fs.blockUsed b = true ↔ b < fs.sb.dataBlockStart ∨ ∃ i, Owns fs i b

theorem Exact.congr (h : Exact fs) (hsb : fs'.sb = fs.sb) (hbm : fs'.blockBitmap = fs.blockBitmap)
    (howns : ∀ i b, Owns fs' i b ↔ Owns fs i b) : Exact fs' := by
  refine ⟨?_, ?_, ?_⟩
  · intro i b hi
    rw [hsb]
    exact h.inside i b ((howns i b).mp hi)
  · intro i j b hi hj
    exact h.disjoint i j b ((howns i b).mp hi) ((howns j b).mp hj)
  · intro b hb
    rw [hsb] at hb
    rw [hsb, blockUsed, hbm]
    simp only [howns]
    exact h.marked b hb

/-- The state after an inode got another extent. -/
def withExtent (fs : Simplefs) (i : Nat) (bytes : Store) (bm : Bitmap 8) (start count : Nat) :
    Simplefs :=
  { fs.modifyDisk i fun n => { n with dataBlock := start, blockCount := count } with
    dev := { fs.dev with bytes }
    blockBitmap := bm }

theorem withExtent_self (fs : Simplefs) (i : Nat) :
    fs.withExtent i fs.dev.bytes fs.blockBitmap (fs.nodes i).disk.dataBlock
      (fs.nodes i).disk.blockCount = fs := by
  have : Function.update fs.nodes i (fs.nodes i) = fs.nodes := Function.update_eq_self i fs.nodes
  unfold withExtent modifyDisk modify
  rw [this]

theorem withExtent_disk_self (fs : Simplefs) (i : Nat) (bytes : Store) (bm : Bitmap 8)
    (start count : Nat) : ((fs.withExtent i bytes bm start count).nodes i).disk
      = { (fs.nodes i).disk with dataBlock := start, blockCount := count } := by
  unfold withExtent modifyDisk
  rw [modify_nodes_self]

theorem withExtent_nodes_ne (fs : Simplefs) (bytes : Store) (bm : Bitmap 8) (start count : Nat)
    (h : j ≠ i) : (fs.withExtent i bytes bm start count).nodes j = fs.nodes j := by
  unfold withExtent modifyDisk
  rw [modify_nodes_ne fs _ h]

theorem owns_withExtent_ne (h : j ≠ i) :
    Owns (fs.withExtent i bytes bm start count) j b ↔ Owns fs j b := by
  unfold Owns
  rw [withExtent_nodes_ne fs bytes bm start count h]
  exact Iff.rfl

theorem owns_withExtent_self (hi : i < fs.sb.inodeCount) (hu : fs.inodeUsed i = true) :
    Owns (fs.withExtent i bytes bm start count) i b ↔ start ≤ b ∧ b < start + count := by
  unfold Owns
  rw [withExtent_disk_self]
  exact ⟨fun h => h.2.2, fun h => ⟨hi, hu, h⟩⟩

/-- A new extent that lies in the data area, clear of the others, and is marked. -/
theorem Exact.withExtent (h : Exact fs) (hi : i < fs.sb.inodeCount) (hu : fs.inodeUsed i = true)
    (hin : ∀ b, start ≤ b → b < start + count → fs.sb.dataBlockStart ≤ b ∧ b < fs.sb.totalBlocks)
    (hclear : ∀ j b, j ≠ i → Owns fs j b → ¬(start ≤ b ∧ b < start + count))
    (hmark : ∀ b < fs.sb.totalBlocks, bm.test b = true ↔ b < fs.sb.dataBlockStart ∨
      (∃ j, j ≠ i ∧ Owns fs j b) ∨ (start ≤ b ∧ b < start + count)) :
    Exact (fs.withExtent i bytes bm start count) := by
  have howns : ∀ j b, Owns (fs.withExtent i bytes bm start count) j b ↔
      (j = i ∧ start ≤ b ∧ b < start + count) ∨ (j ≠ i ∧ Owns fs j b) := by
    intro j b
    by_cases hj : j = i
    · subst hj
      rw [owns_withExtent_self hi hu]
      simp
    · rw [owns_withExtent_ne hj]
      simp [hj]
  refine ⟨?_, ?_, ?_⟩
  · intro j b hj
    rcases (howns j b).mp hj with ⟨-, h1, h2⟩ | ⟨-, hj⟩
    · exact hin b h1 h2
    · exact h.inside j b hj
  · intro j k b hj hk
    rcases (howns j b).mp hj with ⟨hji, hb⟩ | ⟨hji, hj'⟩ <;>
      rcases (howns k b).mp hk with ⟨hki, hb'⟩ | ⟨hki, hk'⟩
    · rw [hji, hki]
    · exact absurd hb (hclear k b hki hk')
    · exact absurd hb' (hclear j b hji hj')
    · exact h.disjoint j k b hj' hk'
  intro b hb
  show bm.test b = true ↔ _
  rw [hmark b hb]
  constructor
  · rintro (h1 | ⟨j, hji, hj⟩ | hb')
    · exact Or.inl h1
    · exact Or.inr ⟨j, (howns j b).mpr (Or.inr ⟨hji, hj⟩)⟩
    · exact Or.inr ⟨i, (howns i b).mpr (Or.inl ⟨rfl, hb'⟩)⟩
  · rintro (h1 | ⟨j, hj⟩)
    · exact Or.inl h1
    · rcases (howns j b).mp hj with ⟨-, hb'⟩ | ⟨hji, hj⟩
      · exact Or.inr (Or.inr hb')
      · exact Or.inr (Or.inl ⟨j, hji, hj⟩)

/-- What `Exact` says about a block, seen from one inode. -/
theorem Exact.marked_from (h : Exact fs) (hi : i < fs.sb.inodeCount) (hu : fs.inodeUsed i = true)
    (hb : b < fs.sb.totalBlocks) : fs.blockUsed b = true ↔ b < fs.sb.dataBlockStart ∨
      (∃ j, j ≠ i ∧ Owns fs j b) ∨ ((fs.nodes i).disk.dataBlock ≤ b ∧
        b < (fs.nodes i).disk.dataBlock + (fs.nodes i).disk.blockCount) := by
  rw [h.marked b hb]
  constructor
  · rintro (h1 | ⟨j, hj⟩)
    · exact Or.inl h1
    · by_cases hji : j = i
      · subst hji
        exact Or.inr (Or.inr hj.2.2)
      · exact Or.inr (Or.inl ⟨j, hji, hj⟩)
  · rintro (h1 | ⟨j, -, hj⟩ | hb')
    · exact Or.inl h1
    · exact Or.inr ⟨j, hj⟩
    · exact Or.inr ⟨i, hi, hu, hb'⟩

/-! ## Finding free blocks -/

/-- A run of free blocks of the data area. -/
structure FreeRun (fs : Simplefs) (start count : Nat) : Prop where
  inside : fs.sb.dataBlockStart ≤ start ∧ start + count ≤ fs.sb.totalBlocks
  free : ∀ b, start ≤ b → b < start + count → fs.blockUsed b = false

theorem extentIsFree_iff (fs : Simplefs) (start count : Nat) :
    fs.extentIsFree start count = true ↔ FreeRun fs start count := by
  unfold extentIsFree
  simp only [Bool.and_eq_true, Bool.not_eq_true', Bool.or_eq_false_iff, decide_eq_false_iff_not,
    List.all_eq_true, List.mem_range]
  constructor
  · rintro ⟨⟨h1, h2⟩, h3⟩
    refine ⟨⟨by omega, by omega⟩, fun b hb hb' => ?_⟩
    have := h3 (b - start) (by omega)
    rwa [show start + (b - start) = b by omega] at this
  · rintro ⟨⟨h1, h2⟩, h3⟩
    exact ⟨⟨by omega, by omega⟩, fun k hk => h3 (start + k) (by omega) (by omega)⟩

theorem findExtent_some (h : fs.findExtent count = some start) : FreeRun fs start count :=
  (extentIsFree_iff fs start count).mp (List.find?_some (p := (fs.extentIsFree · count)) h)

/-- Nobody owns a free block. -/
theorem FreeRun.not_owned (h : FreeRun fs start count) (he : Exact fs) (h1 : start ≤ b)
    (h2 : b < start + count) : ¬ Owns fs j b := by
  intro hj
  have hfree := h.free b h1 h2
  rw [(he.marked b (by have := h.inside; omega)).mpr (Or.inr ⟨j, hj⟩)] at hfree
  simp at hfree

/-! ## Changing one extent -/

/-- An exact bitmap over a working device that is large enough. -/
structure Sound (fs : Simplefs) : Prop where
  exact : Exact fs
  works : fs.dev.Works
  fits : fs.sb.totalBlocks ≤ fs.dev.blockCount

/-- Inode `i` got the extent `[start, start + count)` and nothing else moved. -/
structure Extended (fs fs' : Simplefs) (i start count : Nat) : Prop where
  eq : ∃ bytes bm, fs' = fs.withExtent i bytes bm start count
  exact : Exact fs'
  outside : ∀ a, a / 512 < fs.sb.dataBlockStart ∨ (∃ j, j ≠ i ∧ Owns fs j (a / 512)) →
    fs'.dev.bytes a = fs.dev.bytes a

theorem Extended.sound (h : Extended fs fs' i start count) (hs : Sound fs) : Sound fs' := by
  obtain ⟨bytes, bm, rfl⟩ := h.eq
  exact ⟨h.exact, ⟨hs.works.writable, hs.works.no_faults⟩, hs.fits⟩

theorem Extended.refl (h : Exact fs) (i : Nat) :
    Extended fs fs i (fs.nodes i).disk.dataBlock (fs.nodes i).disk.blockCount :=
  ⟨⟨_, _, (withExtent_self fs i).symm⟩, h, fun _ _ => rfl⟩

/-- The other inodes own what they owned. -/
theorem Extended.owns_ne (h : Extended fs fs' i start count) (hj : j ≠ i) :
    Owns fs' j b ↔ Owns fs j b := by
  obtain ⟨bytes, bm, rfl⟩ := h.eq
  exact owns_withExtent_ne hj

theorem Extended.sb (h : Extended fs fs' i start count) : fs'.sb = fs.sb := by
  obtain ⟨bytes, bm, rfl⟩ := h.eq
  rfl

theorem Extended.inodeBitmap (h : Extended fs fs' i start count) :
    fs'.inodeBitmap = fs.inodeBitmap := by
  obtain ⟨bytes, bm, rfl⟩ := h.eq
  rfl

theorem Extended.disk_self (h : Extended fs fs' i start count) :
    (fs'.nodes i).disk = { (fs.nodes i).disk with dataBlock := start, blockCount := count } := by
  obtain ⟨bytes, bm, rfl⟩ := h.eq
  exact withExtent_disk_self ..

theorem withExtent_withExtent (fs : Simplefs) (i : Nat) (bytes bytes' : Store) (bm bm' : Bitmap 8)
    (start start' count count' : Nat) :
    (fs.withExtent i bytes bm start count).withExtent i bytes' bm' start' count'
      = fs.withExtent i bytes' bm' start' count' := by
  unfold withExtent modifyDisk modify
  simp only [Function.update_self, Function.update_idem]

/-- Two changes of the same extent in a row. -/
theorem Extended.trans {fs'' : Simplefs} {start' count' : Nat} (h : Extended fs fs' i start count)
    (h' : Extended fs' fs'' i start' count') : Extended fs fs'' i start' count' := by
  refine ⟨?_, h'.exact, fun a ha => ?_⟩
  · obtain ⟨bytes, bm, rfl⟩ := h.eq
    obtain ⟨bytes', bm', rfl⟩ := h'.eq
    exact ⟨bytes', bm', withExtent_withExtent ..⟩
  · rw [h'.outside a ?_, h.outside a ha]
    rw [h.sb]
    refine ha.imp id ?_
    rintro ⟨j, hj, ho⟩
    exact ⟨j, hj, (h.owns_ne hj).mpr ho⟩

/-- Writing inside the inode's own extent. -/
theorem Extended.setBytes (h : Extended fs fs' i start count) (bytes : Store)
    (hb : ∀ a, ¬(start ≤ a / 512 ∧ a / 512 < start + count) → bytes a = fs'.dev.bytes a)
    (hi : i < fs.sb.inodeCount) (hu : fs.inodeUsed i = true) :
    Extended fs (fs'.setBytes bytes) i start count := by
  refine ⟨?_, ?_, fun a ha => ?_⟩
  · obtain ⟨bytes', bm, rfl⟩ := h.eq
    exact ⟨bytes, bm, rfl⟩
  · exact h.exact.congr rfl rfl fun _ _ => Iff.rfl
  · rw [← h.outside a ha]
    refine hb a fun hin => ?_
    have hown : Owns fs' i (a / 512) := by
      obtain ⟨bytes', bm, rfl⟩ := h.eq
      exact (owns_withExtent_self hi hu).mpr hin
    rcases ha with hmeta | ⟨j, hj, ho⟩
    · have := (h.exact.inside i _ hown).1
      rw [h.sb] at this
      omega
    · exact hj (h.exact.disjoint j i _ ((h.owns_ne hj).mpr ho) hown)

section Change

variable (he : Exact fs) (hi : i < fs.sb.inodeCount) (hu : fs.inodeUsed i = true)

include he hi hu

theorem Exact.extent_le : (fs.nodes i).disk.blockCount ≠ 0 →
    (fs.nodes i).disk.dataBlock + (fs.nodes i).disk.blockCount ≤ fs.sb.totalBlocks := by
  intro h0
  have := (he.inside i ((fs.nodes i).disk.dataBlock + (fs.nodes i).disk.blockCount - 1)
    ⟨hi, hu, by omega, by omega⟩).2
  omega

/-- `simplefs_release_extent` -/
theorem releaseExtent_spec : Extended fs (fs.releaseExtent i) i 0 0 := by
  by_cases h0 : (fs.nodes i).disk.blockCount = 0
  · have heq : fs.releaseExtent i = fs.withExtent i fs.dev.bytes fs.blockBitmap 0 0 := by
      unfold releaseExtent
      rw [if_neg (by simp [h0])]
      rfl
    rw [heq]
    refine ⟨⟨_, _, rfl⟩, he.withExtent hi hu (fun b _ h => by omega)
      (fun j b _ _ h => by omega) (fun b hb => ?_), fun _ _ => rfl⟩
    have := he.marked_from hi hu hb
    rw [h0] at this
    refine this.trans ?_
    refine or_congr_right (or_congr_right ⟨fun h => by omega, fun h => by omega⟩)
  have heq : fs.releaseExtent i = fs.withExtent i fs.dev.bytes
      (fs.blockBitmap.clearRange (fs.nodes i).disk.dataBlock (fs.nodes i).disk.blockCount) 0 0 := by
    unfold releaseExtent
    rw [if_pos h0]
    rfl
  rw [heq]
  refine ⟨⟨_, _, rfl⟩, he.withExtent hi hu (fun b _ h => by omega)
    (fun j b _ _ h => by omega) (fun b hb => ?_), fun _ _ => rfl⟩
  have hm := he.marked_from hi hu hb
  rw [Bitmap.test_clearRange (by omega)]
  simp only [Bool.and_eq_true, Bool.not_eq_true', decide_eq_false_iff_not]
  constructor
  · rintro ⟨hout, hused⟩
    rcases hm.mp hused with h1 | h2 | h3
    · exact Or.inl h1
    · exact Or.inr (Or.inl h2)
    · exact absurd h3 hout
  · -- the blocks of the others are outside the extent that is cleared
    intro h
    refine ⟨fun hin => ?_, hm.mpr (h.imp id (Or.imp id fun h => by omega))⟩
    have hown : Owns fs i b := ⟨hi, hu, hin⟩
    rcases h with h1 | ⟨j, hj, ho⟩ | h3
    · have := (he.inside i b hown).1
      omega
    · exact hj (he.disjoint j i b ho hown)
    · omega

/-- A free run given to an inode without blocks. -/
theorem claim_spec (h0 : (fs.nodes i).disk.blockCount = 0) (hrun : FreeRun fs start count) :
    Extended fs (fs.withExtent i fs.dev.bytes (fs.blockBitmap.markRange start count) start count)
      i start count := by
  refine ⟨⟨_, _, rfl⟩, he.withExtent hi hu (fun b h1 h2 => ?_) (fun j b _ ho hin => ?_)
    (fun b hb => ?_), fun _ _ => rfl⟩
  · have := hrun.inside
    omega
  · exact hrun.not_owned he hin.1 hin.2 ho
  have hm := he.marked_from hi hu hb
  rw [Bitmap.test_markRange (by omega)]
  simp only [Bool.or_eq_true, decide_eq_true_eq]
  change _ ∨ fs.blockUsed b = true ↔ _
  rw [hm, h0]
  constructor
  · rintro (h | h | h | h)
    · exact Or.inr (Or.inr h)
    · exact Or.inl h
    · exact Or.inr (Or.inl h)
    · omega
  · rintro (h | h | h)
    · exact Or.inr (Or.inl h)
    · exact Or.inr (Or.inr (Or.inl h))
    · exact Or.inl h

/-- The free blocks after an extent added to it. -/
theorem extend_spec (h0 : (fs.nodes i).disk.blockCount ≠ 0)
    (hlt : (fs.nodes i).disk.blockCount < required)
    (hrun : FreeRun fs ((fs.nodes i).disk.dataBlock + (fs.nodes i).disk.blockCount)
      (required - (fs.nodes i).disk.blockCount)) :
    Extended fs (fs.withExtent i fs.dev.bytes (fs.blockBitmap.markRange
        ((fs.nodes i).disk.dataBlock + (fs.nodes i).disk.blockCount)
        (required - (fs.nodes i).disk.blockCount)) (fs.nodes i).disk.dataBlock required)
      i (fs.nodes i).disk.dataBlock required := by
  obtain ⟨n, hn⟩ : ∃ n, (fs.nodes i).disk = n := ⟨_, rfl⟩
  rw [hn] at h0 hlt hrun ⊢
  have hown : ∀ b, n.dataBlock ≤ b → b < n.dataBlock + n.blockCount → Owns fs i b := by
    intro b h1 h2
    rw [← hn] at h1 h2
    exact ⟨hi, hu, h1, h2⟩
  refine ⟨⟨_, _, rfl⟩, he.withExtent hi hu (fun b h1 h2 => ?_) (fun j b hj ho hin => ?_)
    (fun b hb => ?_), fun _ _ => rfl⟩
  · have := (he.inside i n.dataBlock (hown _ (by omega) (by omega))).1
    have := hrun.inside
    omega
  · by_cases hb : b < n.dataBlock + n.blockCount
    · exact hj (he.disjoint j i b ho (hown b hin.1 hb))
    · exact hrun.not_owned he (by omega) (by omega) ho
  have hm := he.marked_from hi hu hb
  rw [hn] at hm
  rw [Bitmap.test_markRange (by omega)]
  simp only [Bool.or_eq_true, decide_eq_true_eq]
  change _ ∨ fs.blockUsed b = true ↔ _
  rw [hm]
  constructor
  · rintro (h | h | h | h)
    · exact Or.inr (Or.inr (by omega))
    · exact Or.inl h
    · exact Or.inr (Or.inl h)
    · exact Or.inr (Or.inr (by omega))
  · rintro (h | h | h)
    · exact Or.inr (Or.inl h)
    · exact Or.inr (Or.inr (Or.inl h))
    · by_cases hlt : b < n.dataBlock + n.blockCount
      · exact Or.inr (Or.inr (Or.inr (by omega)))
      · exact Or.inl (by omega)

/-- An extent exchanged for a free run. -/
theorem move_spec (hrun : FreeRun fs start required) :
    Extended fs (fs.withExtent i fs.dev.bytes ((fs.blockBitmap.markRange start required).clearRange
        (fs.nodes i).disk.dataBlock (fs.nodes i).disk.blockCount) start required)
      i start required := by
  obtain ⟨n, hn⟩ : ∃ n, (fs.nodes i).disk = n := ⟨_, rfl⟩
  have hown : ∀ b, n.dataBlock ≤ b → b < n.dataBlock + n.blockCount → Owns fs i b := by
    intro b h1 h2
    rw [← hn] at h1 h2
    exact ⟨hi, hu, h1, h2⟩
  rw [hn]
  refine ⟨⟨_, _, rfl⟩, he.withExtent hi hu (fun b h1 h2 => ?_) (fun j b _ ho hin => ?_)
    (fun b hb => ?_), fun _ _ => rfl⟩
  · have := hrun.inside
    omega
  · exact hrun.not_owned he hin.1 hin.2 ho
  have hm := he.marked_from hi hu hb
  rw [hn] at hm
  rw [Bitmap.test_clearRange (by omega), Bitmap.test_markRange (by omega)]
  simp only [Bool.and_eq_true, Bool.or_eq_true, Bool.not_eq_true', decide_eq_false_iff_not,
    decide_eq_true_eq]
  change _ ∧ (_ ∨ fs.blockUsed b = true) ↔ _
  rw [hm]
  constructor
  · rintro ⟨hout, h | h | h | h⟩
    · exact Or.inr (Or.inr h)
    · exact Or.inl h
    · exact Or.inr (Or.inl h)
    · exact absurd h hout
  · intro h
    refine ⟨fun hin => ?_, ?_⟩
    · have ho := hown b hin.1 hin.2
      rcases h with h | ⟨j, hj, ho'⟩ | h
      · have := (he.inside i b ho).1
        omega
      · exact hj (he.disjoint j i b ho' ho)
      · exact hrun.not_owned he h.1 h.2 ho
    · rcases h with h | h | h
      · exact Or.inr (Or.inl h)
      · exact Or.inr (Or.inr (Or.inl h))
      · exact Or.inl h

end Change

end Simplefs

end Riverix.Fs
