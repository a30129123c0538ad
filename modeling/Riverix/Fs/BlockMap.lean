import Riverix.Fs.Ledger

/-!
# The block bitmap stays exact

Starting from a mount whose bitmap marks exactly the metadata and the extents of
the used inodes, no sequence of operations leaks a block, hands one out twice or
hands out one outside the data area: **`run_blocks_exact`**. Operations that fail
for lack of space are included, and so is every size, also those that wrap.

Nothing is assumed about the contents of the device beyond that it works. What a
directory block holds decides which child an unlink frees, but not whether the
bitmap is right afterwards.

**`allocateExtent_firstFit`** is the search itself: first-fit and complete.
-/

namespace Riverix.Fs

open Riverix.Lib

namespace Simplefs

variable {fs fs' : Simplefs} {i d : Nat}

/-- What `vfs.c` can open is in use. -/
def KindsUsed (fs : Simplefs) : Prop :=
  ∀ i, (fs.nodes i).vfs.kind ≠ .none → i < fs.sb.inodeCount ∧ fs.inodeUsed i = true

/-- The bitmap is exact, too. -/
structure Alloc (fs : Simplefs) : Prop where
  sound : Sound fs
  kinds : KindsUsed fs

theorem Alloc.congr (h : Alloc fs) (hsb : fs'.sb = fs.sb) (hw : fs'.dev.Works)
    (hd : fs'.dev.blockCount = fs.dev.blockCount) (hbm : fs'.blockBitmap = fs.blockBitmap)
    (howns : ∀ i b, Owns fs' i b ↔ Owns fs i b)
    (hkinds : ∀ i, (fs'.nodes i).vfs.kind ≠ .none →
      i < fs.sb.inodeCount ∧ fs'.inodeUsed i = true) : Alloc fs' := by
  refine ⟨⟨h.sound.exact.congr hsb hbm howns, hw, ?_⟩, fun i hi => ?_⟩
  · rw [hsb, hd]
    exact h.sound.fits
  · rw [hsb]
    exact hkinds i hi

theorem Alloc.extended (h : Alloc fs) {start count : Nat} (he : Extended fs fs' i start count) :
    Alloc fs' := by
  refine ⟨he.sound h.sound, fun j hj => ?_⟩
  have hkind : (fs'.nodes j).vfs.kind = (fs.nodes j).vfs.kind := by
    obtain ⟨bytes, bm, rfl⟩ := he.eq
    by_cases hji : j = i
    · subst hji
      unfold withExtent modifyDisk
      rw [modify_nodes_self]
    · rw [withExtent_nodes_ne fs bytes bm start count hji]
  rw [hkind] at hj
  rw [he.sb, inodeUsed, he.inodeBitmap]
  exact h.kinds j hj

/-- A change of one inode that keeps its extent and its kind. -/
theorem Alloc.modify (h : Alloc fs) {f : RuntimeInode → RuntimeInode}
    (hdata : (f (fs.nodes i)).disk.dataBlock = (fs.nodes i).disk.dataBlock)
    (hcount : (f (fs.nodes i)).disk.blockCount = (fs.nodes i).disk.blockCount)
    (hkind : (f (fs.nodes i)).vfs.kind = (fs.nodes i).vfs.kind) : Alloc (fs.modify i f) := by
  have hk : (fun j => ((fs.modify i f).nodes j).vfs.kind) = _ :=
    modify_keeps (fun n => n.vfs.kind) hkind
  refine h.congr rfl h.sound.works rfl rfl (owns_modify hdata hcount) fun j hj => ?_
  rw [show ((fs.modify i f).nodes j).vfs.kind = (fs.nodes j).vfs.kind from congrFun hk j] at hj
  exact h.kinds j hj

/-- A device that works goes on working. -/
theorem Alloc.onDevice (hd : OnDevice fs fs') (h : Alloc fs) : Alloc fs' := by
  have hw : fs'.dev.Works := ⟨hd.steady.readOnly.trans h.sound.works.writable,
    hd.steady.faults h.sound.works.no_faults⟩
  have hb := hd.steady.blocks
  obtain ⟨_, _, rfl⟩ := hd.eq
  exact h.congr rfl hw hb rfl (fun _ _ => Iff.rfl) h.kinds

/-! ## Files -/

theorem resizeNode_alloc (h : Alloc fs) (hi : i < fs.sb.inodeCount) (hu : fs.inodeUsed i = true)
    {size : Nat} (hsize : size < 2 ^ 32) : Alloc (fs.resizeNode i size).1 := by
  unfold resizeNode
  split
  · exact h
  rcases resizeExtent_spec h.sound hi hu hsize with he | ⟨fs', start, he, hext⟩
  · rw [he]
    exact h
  · rw [he]
    exact ((h.extended hext).modify rfl rfl rfl).onDevice (flushMetadata_onDevice _)

theorem regularWrite_alloc (h : Alloc fs) (hi : i < fs.sb.inodeCount) (hu : fs.inodeUsed i = true)
    (offset : Nat) (buffer : List Byte) : Alloc (fs.regularWrite i offset buffer).1 := by
  unfold regularWrite
  dsimp only
  split
  · exact h
  split
  · exact h
  split
  · exact h
  next hwrap =>
  have hg : Alloc (if offset + buffer.length > (fs.nodes i).disk.size
      then fs.resizeNode i (offset + buffer.length) else (fs, true)).1 := by
    split
    · exact resizeNode_alloc h hi hu (by omega)
    · exact h
  split
  next he => exact via hg he
  next fs₁ he =>
  have hloop := (via hg he).onDevice (writeLoop_onDevice fs₁ i offset buffer 0)
  split
  next he => exact via hloop he
  next he => exact via hloop he

/-! ## Directories -/

theorem KindsUsed.congr (h : KindsUsed fs) (hsb : fs'.sb = fs.sb)
    (hbits : fs'.inodeBitmap = fs.inodeBitmap)
    (hkind : ∀ i, (fs'.nodes i).vfs.kind = (fs.nodes i).vfs.kind) : KindsUsed fs' := by
  intro i hi
  rw [hkind] at hi
  rw [hsb, inodeUsed, hbits]
  exact h i hi

theorem KindsUsed.of_core (h : KindsUsed fs) (hc : fs'.core = fs.core) : KindsUsed fs' :=
  h.congr (congrArg Core.sb hc) (congrArg Core.inodeBitmap hc) (kind_of_core hc)

theorem KindsUsed.of_tree (h : KindsUsed fs) (ht : fs'.tree = fs.tree) : KindsUsed fs' :=
  h.congr (congrArg Tree.sb ht) (congrArg Tree.inodeBitmap ht)
    fun i => congrArg (fun t => (t.nodes i).vfs.kind) ht

theorem KindsUsed.onDevice (hd : OnDevice fs fs') (h : KindsUsed fs) : KindsUsed fs' :=
  h.of_tree hd.tree

theorem KindsUsed.writeDirEntries (h : KindsUsed fs) (d : Nat) (entries : Store) (count : Nat) :
    KindsUsed (fs.writeDirEntries d entries count).1 := by
  have ht := writeDirEntries_tree fs d entries count
  split at ht
  · have hrec : KindsUsed (fs.recordCount d count) :=
      h.congr rfl rfl (congrFun (modify_keeps (fun n => n.vfs.kind) rfl))
    exact hrec.of_tree ht
  · exact h.of_tree ht

/-- One inode is replaced, and is in use if it is of any kind. -/
theorem KindsUsed.replace (h : KindsUsed fs) {bits : Bitmap 8} {n : RuntimeInode}
    (hbits : ∀ j, j ≠ i → bits.test j = fs.inodeBitmap.test j)
    (hn : n.vfs.kind ≠ .none → i < fs.sb.inodeCount ∧ bits.test i = true) :
    KindsUsed (({ fs with inodeBitmap := bits } : Simplefs).modify i fun _ => n) := by
  intro j hj
  show j < fs.sb.inodeCount ∧ bits.test j = true
  by_cases hji : j = i
  · subst hji
    rw [modify_nodes_self] at hj
    exact hn hj
  · rw [modify_nodes_ne _ _ hji] at hj
    rw [hbits j hji]
    exact h j hj

theorem KindsUsed.giveInode (h : KindsUsed fs) (child : Nat) : KindsUsed (fs.giveInode child) := by
  refine h.replace (fun j hj => ?_) fun hn => absurd rfl hn
  rw [Bitmap.test_clear (by omega)]
  simp [hj]

theorem createChild_kindsUsed (h : KindsUsed fs) (d : Nat) (isDir : Bool) (name : List Byte)
    (mode uid gid : Nat) : KindsUsed (fs.createChild d isDir name mode uid gid).1 := by
  refine createChild_rule KindsUsed.onDevice h (h.of_core (populate_core fs d))
    fun fs₁ entries child fs₂ ok had h₁ hwrite => ?_
  have htake : KindsUsed (fs₁.takeInode child (newChild isDir name mode uid gid)) := by
    refine h₁.replace (fun j hj => ?_) fun _ => ⟨(freeInode_some had.free).1, ?_⟩
    · rw [Bitmap.test_mark (by omega)]
      simp [hj]
    · rw [Bitmap.test_mark (by omega)]
      simp
  have hput : KindsUsed fs₂ := via (htake.writeDirEntries _ _ _) hwrite
  cases ok with
  | false => exact hput.giveInode child
  | true => exact hput.of_core (linkChild_core fs₂ d child)

theorem removeChild_kindsUsed (h : KindsUsed fs) (d : Nat) (name : List Byte) :
    KindsUsed (fs.removeChild d name).1 := by
  have hpop : ∀ {a : Simplefs} x, KindsUsed a → KindsUsed (a.populate x).1 := fun x h =>
    h.of_core (populate_core _ x)
  refine removeChild_rule KindsUsed.onDevice hpop h fun a entries k h _ _ => ?_
  have hempty : KindsUsed (a.emptyChild (entryInode entries k)) := by
    refine KindsUsed.congr (h.of_tree (releaseExtent_aside a _).tree) rfl rfl ?_
    exact congrFun (modify_keeps (fun n => n.vfs.kind) rfl)
  have hslots := hempty.of_core (unslotted_core a d (entryInode entries k) k)
  refine dropChild_rule KindsUsed.onDevice
    (fun _ _ _ hw => via (hslots.writeDirEntries _ _ _) hw) fun _ _ fs₁ _ _ _ _ _ hw => ?_
  have hput : KindsUsed fs₁ := via (hslots.writeDirEntries _ _ _) hw
  exact (hput.of_core (decrementCount_core fs₁ d)).giveInode _

/-- The two halves, of a device that stays as it is. -/
theorem Alloc.of_parts (h : Alloc fs) (hst : Steady fs fs') (hl : Ledger False fs')
    (hk : KindsUsed fs') : Alloc fs' := by
  refine ⟨⟨hl.exact, ⟨hst.readOnly.trans h.sound.works.writable,
    hst.faults h.sound.works.no_faults⟩,
    ?_⟩, hk⟩
  rw [hst.sb, hst.blocks]
  exact h.sound.fits

theorem createChild_alloc (h : Alloc fs) (hd : d < fs.sb.inodeCount) (hu : fs.inodeUsed d = true)
    (isDir : Bool) (name : List Byte) (mode uid gid : Nat) :
    Alloc (fs.createChild d isDir name mode uid gid).1 :=
  h.of_parts (createChild_steady ..)
    (createChild_ledger ⟨h.sound.exact, fun hf => hf.elim⟩ hd hu ..)
    (createChild_kindsUsed h.kinds d isDir name mode uid gid)

theorem removeChild_alloc (h : Alloc fs) (hd : d < fs.sb.inodeCount) (hu : fs.inodeUsed d = true)
    (name : List Byte) : Alloc (fs.removeChild d name).1 :=
  h.of_parts (removeChild_steady ..)
    (removeChild_ledger ⟨h.sound.exact, fun hf => hf.elim⟩ hd hu name)
    (removeChild_kindsUsed h.kinds d name)

/-! ## Runs -/

/-- Every operation keeps the bitmap exact. -/
theorem step_alloc (fs : Simplefs) (e : Event) (h : Alloc fs) : Alloc (fs.step e) := by
  cases e with
  | create dir name isDir mode uid gid =>
    rw [step]
    split
    next d hd =>
      obtain ⟨hlt, hu⟩ := h.kinds d (by rw [(resolveDir_some hd).2]; simp)
      exact createChild_alloc h hlt hu ..
    · exact h
  | remove dir name =>
    rw [step]
    split
    next d hd =>
      obtain ⟨hlt, hu⟩ := h.kinds d (by rw [(resolveDir_some hd).2]; simp)
      exact removeChild_alloc h hlt hu _
    · exact h
  | write file offset buffer =>
    rw [step]
    split
    next i hi =>
      obtain ⟨hlt, hu⟩ := h.kinds i (by rw [(resolveFile_some hi).2]; simp)
      exact regularWrite_alloc h hlt hu _ _
    · exact h
  | resize file size =>
    rw [step]
    split
    next i hi =>
      obtain ⟨hlt, hu⟩ := h.kinds i (by rw [(resolveFile_some hi).2]; simp)
      exact resizeNode_alloc h hlt hu size.toNat_lt
    · exact h

theorem mount_alloc {dev : Device} {amb : Ambient} (hw : dev.Works)
    (hm : mount dev amb = some fs) (h : Exact fs) : Alloc fs := by
  obtain ⟨sb, -, hacc, -, hpop⟩ := mount_some hw.no_faults hm
  have hcore := populate_core (loaded dev amb sb (dev.blocks sb.inodeTableStart)
    (dev.blocks sb.inodeBitmapStart) (dev.blocks sb.blockBitmapStart)) sb.rootInode
  have hdev : (Simplefs.populate _ sb.rootInode).1.dev = dev :=
    populate_dev (show (loaded dev amb sb (dev.blocks sb.inodeTableStart)
      (dev.blocks sb.inodeBitmapStart) (dev.blocks sb.blockBitmapStart)).dev.faults = [] from
      hw.no_faults) sb.rootInode
  rw [hpop] at hcore hdev
  have hsb : fs.sb = sb := congrArg Core.sb hcore
  have hdev : fs.dev = dev := hdev
  refine ⟨⟨h, by rw [hdev]; exact hw, ?_⟩, fun i hi => ?_⟩
  · rw [hsb, hdev]
    exact (accepted_bounds hacc).total_le
  · rw [kind_of_core hcore] at hi
    obtain ⟨hlt, hused⟩ := loaded_kind hi
    rw [hsb, inodeUsed, show fs.inodeBitmap = _ from congrArg Core.inodeBitmap hcore]
    exact ⟨hlt, hused⟩

/-- **The block bitmap stays exact.** From a mounted file system with an exact
bitmap on a working device, every sequence of operations ends in a state with an
exact bitmap. -/
theorem run_blocks_exact {dev : Device} {amb : Ambient} {fs₀ : Simplefs} (hw : dev.Works)
    (hm : mount dev amb = some fs₀) (h : Exact fs₀) (es : List Event) : Exact (run step fs₀ es) :=
  (run_invariant step_alloc es (mount_alloc hw hm h)).sound.exact

/-- The one used extent of the small image is block 4, for the root. -/
theorem sampleFs_owns (i b : Nat) : Owns sampleFs i b ↔ i = 0 ∧ b = 4 := by
  have hextents : ∀ i < 4, (sampleFs.inodeUsed i, (sampleFs.nodes i).disk.dataBlock,
      (sampleFs.nodes i).disk.blockCount) = if i = 0 then (true, 4, 1)
        else (decide (i = 1), 0, 0) := by
    decide +kernel
  unfold Owns
  rw [sampleFs_sb]
  constructor
  · rintro ⟨hi, hu, h1, h2⟩
    have he := hextents i hi
    by_cases h0 : i = 0
    · rw [if_pos h0] at he
      simp only [Prod.mk.injEq] at he
      omega
    · rw [if_neg h0] at he
      simp only [Prod.mk.injEq] at he
      omega
  · rintro ⟨rfl, rfl⟩
    have he := hextents 0 (by omega)
    simp only [if_true, Prod.mk.injEq] at he
    exact ⟨by decide, he.1, by omega, by omega⟩

theorem sampleFs_exact : Exact sampleFs := by
  refine ⟨?_, ?_, ?_⟩
  · intro i b h
    obtain ⟨-, rfl⟩ := (sampleFs_owns i b).mp h
    rw [sampleFs_sb]
    decide
  · intro i j b hi hj
    rw [((sampleFs_owns i b).mp hi).1, ((sampleFs_owns j b).mp hj).1]
  have hbits : ∀ b < 16, sampleFs.blockUsed b = true ↔ b < 5 := by decide +kernel
  intro b hb
  rw [sampleFs_sb] at hb ⊢
  rw [hbits b hb]
  simp only [sampleFs_owns]
  show b < 5 ↔ b < 4 ∨ _
  constructor
  · intro h
    rcases Nat.lt_or_ge b 4 with h4 | h4
    · exact Or.inl h4
    · exact Or.inr ⟨0, rfl, by omega⟩
  · rintro (h | ⟨-, -, rfl⟩) <;> omega

/-- A file is made in the small image, written, resized past the wrap and removed. -/
theorem run_blocks_exact_sample :
    Exact (run step sampleFs
      [.create [] ⟨[0x61], by decide⟩ false 0 0 0, .write [⟨[0x61], by decide⟩] 600 [1, 2, 3],
        .resize [⟨[0x61], by decide⟩] 0xFFFFFFFF, .remove [] ⟨[0x61], by decide⟩]) :=
  run_blocks_exact sampleDevice_works sampleFs_mounted sampleFs_exact _

/-! ## The search for free blocks

`allocateExtent` states the search as the first of the runs that fit. Here is the loop with the
arithmetic of the source, which stays below `2 ^ 32` for every disk whose data area starts inside
it (`dataBlockStart ≤ totalBlocks`; `simplefs_mount` does not check that) and every request that
is made. -/

section Search

variable {start count : Nat}

/-- `simplefs_extent_is_free`, in 32-bit arithmetic. -/
def extentIsFree32 (fs : Simplefs) (start count : Nat) : Bool :=
  if start < fs.sb.dataBlockStart ∨ (start + count) % 2 ^ 32 > fs.sb.totalBlocks then false
  else (List.range count).all fun index => !fs.blockUsed ((start + index) % 2 ^ 32)

/-- The loop of `simplefs_allocate_extent`, in 32-bit arithmetic, for `turns` turns. -/
def searchExtent (fs : Simplefs) (count : Nat) : Nat → Nat → Option Nat
  | 0, _ => none
  | turns + 1, start =>
    if (start + count) % 2 ^ 32 ≤ fs.sb.totalBlocks then
      if fs.extentIsFree32 start count then some start
      else fs.searchExtent count turns ((start + 1) % 2 ^ 32)
    else none

/-- `simplefs_allocate_extent`, with at most `turns` turns of its loop. -/
def allocateExtent32 (fs : Simplefs) (turns count : Nat) : Simplefs × Option Nat :=
  if count = 0 then (fs, none)
  else
    match fs.searchExtent count turns fs.sb.dataBlockStart with
    | none => (fs, none)
    | some start => (fs.markExtent start count, some start)

theorem extentIsFree32_eq (hfit : start + count < 2 ^ 32) :
    fs.extentIsFree32 start count = fs.extentIsFree start count := by
  have hall : (List.range count).all (fun index => !fs.blockUsed ((start + index) % 2 ^ 32))
      = (List.range count).all fun index => !fs.blockUsed (start + index) := by
    rw [Bool.eq_iff_iff, List.all_eq_true, List.all_eq_true]
    refine forall₂_congr fun index hi => ?_
    rw [Nat.mod_eq_of_lt (by have := List.mem_range.mp hi; omega)]
  unfold extentIsFree32 extentIsFree
  rw [hall, Nat.mod_eq_of_lt hfit]
  by_cases hb : start < fs.sb.dataBlockStart ∨ start + count > fs.sb.totalBlocks
  · rw [if_pos hb]
    rcases hb with hb | hb <;> simp [hb]
  · rw [if_neg hb]
    rw [not_or] at hb
    simp [hb]

/-- The loop ends with the first free run, once it has a turn for every block. -/
theorem searchExtent_eq (hsmall : fs.sb.totalBlocks + count + 1 < 2 ^ 32) :
    ∀ (turns : Nat) {start : Nat},
        fs.sb.totalBlocks < start + turns → start ≤ fs.sb.totalBlocks + 1 →
    fs.searchExtent count turns start
      = (List.range' start (fs.sb.totalBlocks + 1 - (start + count))).find?
        (fs.extentIsFree · count)
  | 0, start, hturns, _ => by
    rw [show fs.sb.totalBlocks + 1 - (start + count) = 0 by omega]
    rfl
  | turns + 1, start, hturns, hstart => by
    unfold searchExtent
    by_cases hin : start + count ≤ fs.sb.totalBlocks
    · rw [Nat.mod_eq_of_lt (show start + count < 2 ^ 32 by omega), if_pos hin,
        extentIsFree32_eq (by omega), show fs.sb.totalBlocks + 1 - (start + count)
          = fs.sb.totalBlocks + 1 - (start + 1 + count) + 1 by omega, List.range'_succ,
        List.find?_cons]
      cases hfree : fs.extentIsFree start count with
      | true => rfl
      | false =>
        rw [if_neg (by simp), Nat.mod_eq_of_lt (show start + 1 < 2 ^ 32 by omega)]
        exact searchExtent_eq hsmall turns (by omega) (by omega)
    · rw [show fs.sb.totalBlocks + 1 - (start + count) = 0 by omega, if_neg]
      · rfl
      · rw [Nat.mod_eq_of_lt (by omega)]
        exact hin

/-- The loop computes what `allocateExtent` states. -/
theorem allocateExtent32_eq {turns : Nat} (hdata : fs.sb.dataBlockStart ≤ fs.sb.totalBlocks)
    (hsmall : fs.sb.totalBlocks + count + 1 < 2 ^ 32) (hturns : fs.sb.totalBlocks < turns) :
    fs.allocateExtent32 turns count = fs.allocateExtent count := by
  have hsearch : fs.searchExtent count turns fs.sb.dataBlockStart = fs.findExtent count :=
    searchExtent_eq hsmall turns (by omega) (by omega)
  unfold allocateExtent32 allocateExtent
  cases hfind : fs.findExtent count with
  | none => simp only [hsearch, hfind]
  | some start => simp only [hsearch, hfind]

theorem findExtent_least (h : fs.findExtent count = some start) {other : Nat}
    (hother : FreeRun fs other count) : start ≤ other := by
  obtain ⟨-, before, after, hlist, hnot⟩ := List.find?_eq_some_iff_append.mp h
  by_contra hlt
  have hin := hother.inside
  -- `other` comes before `start` in the list of candidates, so it was tried and not free
  have hmem : other ∈ before := by
    have hsorted := List.pairwise_lt_range' (s := fs.sb.dataBlockStart)
      (n := fs.sb.totalBlocks + 1 - (fs.sb.dataBlockStart + count))
    have hcand : other ∈ before ++ start :: after := by
      rw [← hlist, List.mem_range'_1]
      omega
    rw [hlist] at hsorted
    rcases List.mem_append.mp hcand with hb | hb
    · exact hb
    · rcases List.mem_cons.mp hb with he | ha
      · omega
      · have := List.rel_of_pairwise_cons (List.pairwise_append.mp hsorted).2.1 ha
        omega
  have hno := hnot other hmem
  rw [(extentIsFree_iff fs other count).mpr hother] at hno
  simp at hno

theorem findExtent_none (h : fs.findExtent count = none) : ¬ FreeRun fs start count := by
  intro hrun
  have hin := hrun.inside
  have hmem : start ∈ List.range' fs.sb.dataBlockStart
      (fs.sb.totalBlocks + 1 - (fs.sb.dataBlockStart + count)) := by
    rw [List.mem_range'_1]
    omega
  exact List.find?_eq_none.mp h start hmem ((extentIsFree_iff fs start count).mpr hrun)

/-- The set of blocks that a bitmap marks. -/
def blocksOf (bm : Bitmap 8) : Set Nat := { b | bm.test b = true }

/-- What a first-fit allocation of `count` blocks does. -/
structure FirstFit (fs : Simplefs) (count : Nat) (result : Simplefs × Option Nat) : Prop where
  found : result.2 ≠ none ↔ ∃ start, FreeRun fs start count
  lowest : ∀ start ∈ result.2, FreeRun fs start count ∧
    ∀ other, FreeRun fs other count → start ≤ other
  marks : ∀ start ∈ result.2, ∃ bm, result.1 = { fs with blockBitmap := bm } ∧
    blocksOf bm = blocksOf fs.blockBitmap ∪ { b | start ≤ b ∧ b < start + count }
  fails : result.2 = none → result.1 = fs

/-- **The extent search is first-fit and complete**, and the byte masks of the bitmap are the
operations of a set of blocks. -/
theorem allocateExtent_firstFit (fs : Simplefs) (count turns : Nat)
    (hdata : fs.sb.dataBlockStart ≤ fs.sb.totalBlocks) (hmax : fs.sb.totalBlocks ≤ 32768)
    (hpos : 1 ≤ count) (hcount : count ≤ 2 ^ 23) (hturns : fs.sb.totalBlocks < turns) :
    FirstFit fs count (fs.allocateExtent32 turns count) ∧
      ∀ (bm : Bitmap 8) (b : Nat), (bm.test b = true ↔ b ∈ blocksOf bm) ∧
        blocksOf (bm.mark b) = insert b (blocksOf bm) ∧
          blocksOf (bm.clear b) = blocksOf bm \ {b} := by
  constructor
  · rw [allocateExtent32_eq hdata (by omega) hturns]
    unfold allocateExtent
    rw [if_neg (by omega)]
    cases hfind : fs.findExtent count with
    | none =>
      exact ⟨⟨fun h => absurd rfl h, fun ⟨start, hrun⟩ => absurd hrun (findExtent_none hfind)⟩,
        by simp, by simp, fun _ => rfl⟩
    | some start =>
      have hrun := findExtent_some hfind
      refine ⟨⟨fun _ => ⟨start, hrun⟩, fun _ => by simp⟩, ?_, ?_, by simp⟩
      · rintro _ ⟨rfl⟩
        exact ⟨hrun, fun other hother => findExtent_least hfind hother⟩
      · rintro _ ⟨rfl⟩
        refine ⟨_, rfl, Set.ext fun b => ?_⟩
        show (fs.blockBitmap.markRange start count).test b = true ↔ _
        rw [Bitmap.test_markRange (by omega), Bool.or_eq_true, decide_eq_true_eq]
        exact or_comm
  · refine fun bm b => ⟨Iff.rfl, Set.ext fun j => ?_, Set.ext fun j => ?_⟩
    · show (bm.mark b).test j = true ↔ j = b ∨ bm.test j = true
      rw [Bitmap.test_mark (by omega), Bool.or_eq_true, decide_eq_true_eq]
    · show (bm.clear b).test j = true ↔ bm.test j = true ∧ j ≠ b
      rw [Bitmap.test_clear (by omega), Bool.and_eq_true, Bool.not_eq_true',
        decide_eq_false_iff_not]
      exact and_comm

/-- The small image: the first five blocks are taken, and six more are asked for. -/
theorem allocateExtent_firstFit_sample : FirstFit sampleFs 6 (sampleFs.allocateExtent32 20 6) :=
  (allocateExtent_firstFit sampleFs 6 20 (by rw [sampleFs_sb]; decide) (by rw [sampleFs_sb]; decide)
    (by decide) (by decide) (by rw [sampleFs_sb]; decide)).1

end Search

end Simplefs

end Riverix.Fs
