import Riverix.Fs.Recycling
import Riverix.Fs.Termination

/-!
# Failed calls

`simplefs_create_child` and `simplefs_remove_child` fail in many places, and nearly
all of them come before anything has changed, but for the reading of a directory that
nobody has looked into yet. The one place that does not is the new extent of the
directory: `simplefs_write_dir_entries` gives the old blocks back before it looks for
new ones, and if there are none the records are gone. `HasRoom` says when they are
found. **`guarded_run_fails_unchanged`**: in every state reached, for every directory
and name, a call that fails leaves everything as it was exactly if the directory has
room, or had no blocks to lose.
-/

namespace Riverix.Fs

open Riverix.Lib

namespace Simplefs

variable {fs fs' fs₁ fs₂ : Simplefs} {d i count : Nat}

/-- What the slots of a directory refer to. -/
def childList (fs : Simplefs) (d : Nat) : List (Option NodeRef) :=
  (List.range (fs.nodes d).vfs.childCount).map (fs.childAt d)

/-- The inode is a child of a directory that a path leads to. -/
def Listed (fs : Simplefs) (i : Nat) : Prop :=
  ∃ path x, fs.resolveDir path = some x ∧ some (.node i) ∈ fs.childList x

/-- The inode table, the bitmaps and what is on the device are as they were, and so is the
child list of every directory that a path leads to: it has the same nodes, under the same
names. Which directories own a window is not compared, and neither are the names of inodes
that no such list shows. -/
structure Unchanged (fs fs' : Simplefs) : Prop where
  table : ∀ i, (fs'.nodes i).disk = (fs.nodes i).disk
  inodes : fs'.inodeBitmap = fs.inodeBitmap
  blocks : fs'.blockBitmap = fs.blockBitmap
  device : fs'.dev.bytes = fs.dev.bytes
  children : ∀ path x, fs.resolveDir path = some x → fs'.childList x = fs.childList x
  names : ∀ i, Listed fs i → (fs'.nodes i).name = (fs.nodes i).name

/-! ## Reading a directory for the first time -/

/-- What populating does as far as anyone can tell. -/
structure Reread (fs fs' : Simplefs) : Prop where
  core : fs'.core = fs.core
  dev : fs'.dev = fs.dev
  settled : ∀ x, Settled fs x → Settled fs' x
  children : ∀ x, Settled fs x → fs'.childList x = fs.childList x

theorem Reread.refl (fs : Simplefs) : Reread fs fs := ⟨rfl, rfl, fun _ h => h, fun _ _ => rfl⟩

theorem Reread.trans (h : Reread fs fs₁) (h' : Reread fs₁ fs₂) : Reread fs fs₂ :=
  ⟨h'.core.trans h.core, h'.dev.trans h.dev, fun x hx => h'.settled x (h.settled x hx),
    fun x hx => (h'.children x (h.settled x hx)).trans (h.children x hx)⟩

/-- A directory without slots has no children. -/
theorem childList_nil (h : (fs.nodes d).vfs.childCount = 0) : fs.childList d = [] := by
  unfold childList
  rw [h]
  rfl

theorem populate_reread (hl : Live fs) (hf : fs.dev.faults = []) (d : Nat) :
    Reread fs (fs.populate d).1 := by
  obtain ⟨hv, -⟩ := populate_visit hl.walk d
  have hdev := populate_dev hf d
  generalize (fs.populate d).1 = fs' at hv hdev
  refine ⟨hv.core, hdev, hv.settled, fun x hx => ?_⟩
  rcases hx with hp | ⟨hrec, hnone⟩
  · -- the slots of a populated directory are in a window of its own
    have hk := hv.kept x (Or.inl hp)
    have h32 := hl.walk.count x hp
    unfold childList
    rw [hk.vfs]
    refine List.map_congr_left fun k hmem => hk.2 k ?_
    have := List.mem_range.mp hmem
    omega
  rw [childList_nil hnone]
  refine childList_nil ?_
  rcases hv.settled x (Or.inr ⟨hrec, hnone⟩) with hp | hp
  · rcases hv.counted x hp with hq | hq
    · rw [(hv.kept x (Or.inl hq)).vfs]
      exact hnone
    · rw [← hq, disk_of_core hv.core]
      exact hrec
  · exact hp.2

/-- The same, if no inode gets another name. -/
structure Looked (fs fs' : Simplefs) : Prop extends Reread fs fs' where
  names : ∀ i, (fs'.nodes i).name = (fs.nodes i).name

theorem Looked.refl (fs : Simplefs) : Looked fs fs := ⟨Reread.refl fs, fun _ => rfl⟩

theorem Looked.trans (h : Looked fs fs₁) (h' : Looked fs₁ fs₂) : Looked fs fs₂ :=
  ⟨h.toReread.trans h'.toReread, fun i => (h'.names i).trans (h.names i)⟩

theorem Looked.unchanged (h : Looked fs fs') (hl : Live fs) : Unchanged fs fs' where
  table := disk_of_core h.core
  inodes := congrArg Core.inodeBitmap h.core
  blocks := congrArg Core.blockBitmap h.core
  device := by rw [h.dev]
  children path x hx := by
    obtain ⟨hres, hdir⟩ := resolveDir_some hx
    exact h.children x (hl.resolve hres hdir)
  names i _ := h.names i

theorem modify_name {f : RuntimeInode → RuntimeInode}
    (h : (f (fs.nodes d)).name = (fs.nodes d).name) (i : Nat) :
    ((fs.modify d f).nodes i).name = (fs.nodes i).name :=
  congrFun (modify_keeps RuntimeInode.name h) i

/-- What is no directory is not populated, and a settled directory is populated already or
has nothing to enter. -/
theorem populate_looked (hl : Live fs) (hf : fs.dev.faults = [])
    (hs : (fs.nodes d).disk.kind = kindDir → Settled fs d) : Looked fs (fs.populate d).1 := by
  refine ⟨populate_reread hl hf d, fun i => ?_⟩
  by_cases hk : (fs.nodes d).disk.kind = kindDir
  case neg =>
    unfold populate
    rw [populateDirectory, if_pos hk]
  rcases hs hk with hp | ⟨h0, -⟩
  · rw [populate_done hk hp]
  unfold populate
  rw [populateDirectory, if_neg (not_not.mpr hk)]
  split
  · rfl
  rw [if_neg (by rw [h0]; simp), h0]
  have hslots : ((fs.allocDirSlots d).1.nodes i).name = (fs.nodes i).name := by
    unfold allocDirSlots
    split
    · rfl
    split
    · rfl
    · show ((fs.takeWindow d).nodes i).name = (fs.nodes i).name
      unfold takeWindow
      exact modify_name (by rfl) i
  split
  next fs₁ ha =>
    rw [ha] at hslots
    exact hslots
  next fs₁ ha =>
  rw [ha] at hslots
  rw [readDirEntries, if_pos rfl]
  have hclear : ((fs₁.clearWindow d).nodes i).name = (fs₁.nodes i).name := by
    unfold clearWindow modifyVfs
    refine (modify_name (by rfl) i).trans ?_
    unfold setSlots
    split
    · rfl
    · rfl
  have hdone : (((fs₁.clearWindow d).modify d fun n => { n with populated := true }).nodes i).name
      = ((fs₁.clearWindow d).nodes i).name := modify_name rfl i
  exact hdone.trans (hclear.trans hslots)

/-! ## The blocks of a directory -/

/-- `simplefs_write_dir_entries` can store this many records: the blocks of the directory
will do, or there are others once these are given back. -/
def HasRoom (fs : Simplefs) (d count : Nat) : Prop :=
  dirRequiredBlocks count ≠ 0 →
    if (fs.nodes d).disk.blockCount = dirRequiredBlocks count
    then fs.dev.InRange (fs.nodes d).disk.dataBlock (dirRequiredBlocks count)
    else (fs.released d).findExtent (dirRequiredBlocks count) ≠ none

instance (fs : Simplefs) (d count : Nat) : Decidable (fs.HasRoom d count) := by
  unfold HasRoom
  infer_instance

theorem released_blockBitmap (fs : Simplefs) (d : Nat) : (fs.released d).blockBitmap
    = if (fs.nodes d).disk.blockCount ≠ 0
      then fs.blockBitmap.clearRange (fs.nodes d).disk.dataBlock (fs.nodes d).disk.blockCount
      else fs.blockBitmap := by
  unfold released releaseExtent
  split
  · rfl
  · rfl

/-- Which blocks can be had depends on the block bitmap and on the record of the directory. -/
theorem HasRoom.congr (hsb : fs'.sb = fs.sb) (hdev : fs'.dev.blockCount = fs.dev.blockCount)
    (hbm : fs'.blockBitmap = fs.blockBitmap) (hdisk : (fs'.nodes d).disk = (fs.nodes d).disk) :
    fs'.HasRoom d count ↔ fs.HasRoom d count := by
  have hrange : ∀ start n, fs'.dev.InRange start n ↔ fs.dev.InRange start n := by
    intro start n
    unfold Device.InRange
    rw [hdev]
  have hbits : (fs'.released d).blockBitmap = (fs.released d).blockBitmap := by
    rw [released_blockBitmap, released_blockBitmap, hbm, hdisk]
  have hfind : ∀ n, (fs'.released d).findExtent n = (fs.released d).findExtent n := by
    intro n
    unfold findExtent extentIsFree blockUsed
    rw [(released_aside fs' d).steady.sb, (released_aside fs d).steady.sb, hsb, hbits]
  unfold HasRoom
  rw [hdisk, hrange, hfind]

/-- Storing the records succeeds exactly if there is room, and otherwise the blocks of the
directory are gone. -/
theorem writeDirEntries_room (hw : fs.dev.Works) (hfits : fs.sb.totalBlocks ≤ fs.dev.blockCount)
    (hkind : (fs.nodes d).disk.kind = kindDir) (hcount : count ≤ 32) (entries : Store) :
    (fs.HasRoom d count → (fs.writeDirEntries d entries count).2 = true) ∧
      (¬fs.HasRoom d count → ∃ fs', fs.writeDirEntries d entries count = (fs', false) ∧
        (fs'.nodes d).disk.blockCount = 0 ∧ ((fs.nodes d).disk.blockCount = 0 → fs' = fs)) := by
  have hgone : ∀ g : Simplefs, ((g.releaseExtent d).nodes d).disk.blockCount = 0 := by
    intro g
    unfold releaseExtent modifyDisk
    rw [modify_nodes_self]
  have hgo : ¬(fs.dev.readOnly = true ∨ (fs.nodes d).disk.kind ≠ kindDir ∨
      count > directoryCapacity) := by
    rintro (h | h | h)
    · rw [hw.writable] at h
      simp at h
    · exact h hkind
    · exact absurd hcount (Nat.not_le.mpr h)
  unfold writeDirEntries
  rw [if_neg hgo]
  unfold fitDirectory
  by_cases h0 : dirRequiredBlocks count = 0
  · rw [if_pos h0]
    refine ⟨fun _ => ?_, fun h => absurd (fun hne => absurd h0 hne) h⟩
    show (storeDirectory _ d entries count).2 = true
    unfold storeDirectory
    rw [if_pos h0]
  rw [if_neg h0]
  by_cases hb : (fs.nodes d).disk.blockCount = dirRequiredBlocks count
  · have hroom : fs.HasRoom d count ↔
        fs.dev.InRange (fs.nodes d).disk.dataBlock (dirRequiredBlocks count) := by
      unfold HasRoom
      rw [if_pos hb]
      exact ⟨fun h => h h0, fun h _ => h⟩
    rw [if_pos hb, hroom]
    dsimp only
    unfold storeDirectory
    rw [if_neg h0]
    constructor
    · intro hr
      rw [writeBlocks_works hw hr]
    · intro hr
      have hno : fs.writeBlocks (fs.nodes d).disk.dataBlock (dirRequiredBlocks count) entries
          = (fs, false) := by
        unfold writeBlocks Device.write
        rw [if_neg fun h => hr h.2]
      rw [hno]
      exact ⟨_, rfl, hgone fs, fun hz => absurd (hb.symm.trans hz) h0⟩
  have hroom : fs.HasRoom d count ↔
      (fs.released d).findExtent (dirRequiredBlocks count) ≠ none := by
    unfold HasRoom
    rw [if_neg hb]
    exact ⟨fun h => h h0, fun h _ => h⟩
  rw [if_neg hb, hroom]
  unfold allocateExtent
  rw [if_neg h0]
  cases hfind : (fs.released d).findExtent (dirRequiredBlocks count) with
  | none =>
    refine ⟨fun h => absurd rfl h, fun _ => ⟨_, rfl, ?_, fun hz => ?_⟩⟩
    · unfold released
      split
      · exact hgone fs
      next hz => exact not_not.mp hz
    · unfold released
      rw [if_neg (not_not.mpr hz)]
  | some start =>
    refine ⟨fun _ => ?_, fun h => absurd (by simp) h⟩
    have hrun := (findExtent_some hfind).inside
    have hst := (released_aside fs d).steady
    rw [hst.sb] at hrun
    obtain ⟨g, hg⟩ : ∃ g,
      g = ((fs.released d).markExtent start (dirRequiredBlocks count)).modifyDisk d
      fun n => { n with dataBlock := start, blockCount := dirRequiredBlocks count } := ⟨_, rfl⟩
    have hgdev : g.dev = (fs.released d).dev := by rw [hg]; rfl
    have hgw : g.dev.Works := by
      rw [hgdev]
      exact ⟨hst.readOnly.trans hw.writable, hst.faults hw.no_faults⟩
    have hgb : g.dev.blockCount = fs.dev.blockCount := by rw [hgdev, hst.blocks]
    have hgd : (g.nodes d).disk.dataBlock = start := by
      rw [hg, modifyDisk, modify_nodes_self]
    obtain ⟨bytes, hzero, -⟩ := zeroExtent_works g start (List.range (dirRequiredBlocks count)) hgw
      (fun k hk => by
        have := List.mem_range.mp hk
        omega)
    dsimp only
    rw [← hg, hzero]
    dsimp only
    unfold storeDirectory
    rw [if_neg h0, setBytes_nodes, hgd,
      writeBlocks_works (setBytes_works hgw) ⟨h0, by show start < g.dev.blockCount; omega,
        by show _ ≤ g.dev.blockCount - _; omega⟩]

/-! ## Mounted file systems -/

/-- A device that refuses nothing, with everything on it that was mounted from it. -/
structure Working (fs : Simplefs) : Prop where
  faults : fs.dev.faults = []
  fits : fs.sb.totalBlocks ≤ fs.dev.blockCount
  areas : Areas fs

theorem Working.steady (h : Working fs) (hs : Steady fs fs') : Working fs' := by
  have hrange : ∀ {start n}, fs.dev.InRange start n → fs'.dev.InRange start n := by
    intro start n hr
    unfold Device.InRange
    rw [hs.blocks]
    exact hr
  refine ⟨hs.faults h.faults, by rw [hs.sb, hs.blocks]; exact h.fits, hrange h.areas.superblock, ?_,
    ?_, ?_⟩
  · rw [hs.sb]
    exact hrange h.areas.table
  · rw [hs.sb]
    exact hrange h.areas.inodes
  · rw [hs.sb]
    exact hrange h.areas.blocks

/-- The metadata can be written whenever the device takes writes. -/
theorem Working.flushed (h : Working fs) (hro : fs.dev.readOnly = false) :
    fs.flushMetadata.2 = true := by
  rw [h.areas.flushMetadata ⟨hro, h.faults⟩]

theorem mount_working {dev : Device} {amb : Ambient} (hf : dev.faults = [])
    (hm : mount dev amb = some fs) : Working fs := by
  rw [mount_eq] at hm
  obtain ⟨fs₀, hready, hpop⟩ := Option.bind_eq_some_iff.mp hm
  have hr := mountReady_some hready
  have hworking : Working fs₀ := ⟨hr.faults hf, hr.bounds.total_le, hr.areas⟩
  have hs := populate_steady fs₀ fs₀.sb.rootInode
  split at hpop
  · simp at hpop
  next he =>
    obtain rfl := Option.some.inj hpop
    exact hworking.steady (via hs he)

/-! ## Creating -/

/-- The records of the directory can be read. -/
def Readable (fs : Simplefs) (d : Nat) : Prop :=
  (fs.readDirEntries d (fs.nodes d).disk.childCount).2 ≠ none

instance (fs : Simplefs) (d : Nat) : Decidable (fs.Readable d) := by
  unfold Readable
  infer_instance

theorem Reread.readable (h : Reread fs fs') : fs'.Readable d ↔ fs.Readable d := by
  unfold Readable readDirEntries readBlocks
  rw [disk_of_core h.core, h.dev]
  dsimp only
  split
  · exact ⟨fun _ => by simp, fun _ => by simp⟩
  split
  · rfl
  cases (fs.dev.read (fs.nodes d).disk.dataBlock
      (dirRequiredBlocks (fs.nodes d).disk.childCount)).2 with
  | none => exact Iff.rfl
  | some blocks => exact ⟨fun _ => by simp, fun _ => by simp⟩

theorem Reread.freeInode (h : Reread fs fs') : fs'.freeInode = fs.freeInode := by
  unfold Simplefs.freeInode inodeUsed
  rw [show fs'.sb = fs.sb from congrArg Core.sb h.core,
    show fs'.inodeBitmap = fs.inodeBitmap from congrArg Core.inodeBitmap h.core]

/-- In a settled directory the search before the directory is read finds the same. -/
theorem findChild_settled (hl : Live fs) (hdir : (fs.nodes d).vfs.kind = .dir) (hs : Settled fs d)
    (name : List Byte) : (fs.findChild d name).2 = fs.childIndex d name := by
  unfold findChild
  rcases hs with hp | hp
  · rw [populate_done (hl.walk.kinds d hdir) hp]
  have hnone : fs.childIndex d name = none := by
    unfold childIndex
    rw [hp.2]
    rfl
  rw [hnone]
  obtain ⟨hv, hdone⟩ := populate_visit hl.walk d
  split
  · rfl
  next fs₁ he =>
  rw [he] at hv hdone
  have hcount : (fs₁.nodes d).vfs.childCount = 0 := by
    rcases hv.counted d (hdone rfl) with hq | hq
    · rw [(hv.kept d (Or.inl hq)).vfs]
      exact hp.2
    · rw [← hq, disk_of_core hv.core]
      exact hp.1
  unfold childIndex
  rw [hcount]
  rfl

/-- The inode is in use, as one of this kind. -/
structure Taken (fs : Simplefs) (child kind : Nat) : Prop where
  used : fs.inodeUsed child = true
  kind : (fs.nodes child).disk.kind = kind

theorem Taken.of_tree {child kind : Nat} (h : Taken fs child kind) (ht : fs'.tree = fs.tree) :
    Taken fs' child kind := by
  obtain ⟨_, _, _, _, hnode⟩ := node_of_tree ht child
  refine ⟨?_, by rw [hnode]; exact h.kind⟩
  unfold inodeUsed
  rw [show fs'.inodeBitmap = fs.inodeBitmap from congrArg Tree.inodeBitmap ht]
  exact h.used

theorem Taken.of_core {child kind : Nat} (h : Taken fs child kind) (hc : fs'.core = fs.core) :
    Taken fs' child kind := by
  refine ⟨?_, by rw [disk_of_core hc]; exact h.kind⟩
  unfold inodeUsed
  rw [show fs'.inodeBitmap = fs.inodeBitmap from congrArg Core.inodeBitmap hc]
  exact h.used

theorem takeInode_taken (fs : Simplefs) (child : Nat) (n : RuntimeInode) :
    Taken (fs.takeInode child n) child n.disk.kind := by
  refine ⟨?_, by rw [takeInode, modify_nodes_self]⟩
  show (fs.inodeBitmap.mark child).test child = true
  rw [Bitmap.test_mark (by omega)]
  simp

/-- The last steps of a creation keep the inode and succeed. -/
theorem linkChild_flushed (hw : Working fs) (hro : fs.dev.readOnly = false) (d : Nat)
    {child kind : Nat} (ht : Taken fs child kind) :
    ∃ fs', (fs.linkChild d child).flushMetadata = (fs', true) ∧ Taken fs' child kind := by
  have hlinked := ht.of_core (appendChild_core (fs.logStore d) d (.node child))
  have hlink : Steady fs (fs.linkChild d child) := by
    have hlog : Steady fs (fs.logStore d) := Steady.of_dev rfl rfl
    exact hlog.trans (appendChild_steady ..)
  have hflush := (hw.steady hlink).flushed (hlink.readOnly.trans hro)
  exact ⟨_, Prod.ext rfl hflush,
    hlinked.of_tree (flushMetadata_onDevice (fs.linkChild d child)).tree⟩

/-- The ways a creation ends: it fails before it has changed anything, because the name
cannot be added; or it can, and then the room for one more record decides. -/
theorem createChild_ends (hl : Live fs) (hw : Working fs) (hdir : (fs.nodes d).vfs.kind = .dir)
    (hs : Settled fs d) (isDir : Bool) (name : List Byte) (mode uid gid : Nat) :
    (¬(Adds fs d name ∧ fs.Readable d) ∧
      ∃ fs₁, fs.createChild d isDir name mode uid gid = (fs₁, none) ∧ Looked fs fs₁) ∨
    ∃ child fs₁, (Adds fs d name ∧ fs.Readable d) ∧ fs.freeInode = some child ∧ Looked fs fs₁ ∧
      (fs.HasRoom d ((fs.nodes d).disk.childCount + 1) →
        ∃ fs₂, fs.createChild d isDir name mode uid gid = (fs₂, some child) ∧
          Taken fs₂ child (if isDir then kindDir else kindFile)) ∧
      (¬fs.HasRoom d ((fs.nodes d).disk.childCount + 1) →
        ∃ fs₂, fs.createChild d isDir name mode uid gid = (fs₂.giveInode child, none) ∧
          (fs₂.nodes d).disk.blockCount = 0 ∧
          ((fs.nodes d).disk.blockCount = 0 →
            fs₂ = fs₁.takeInode child (newChild isDir name mode uid gid))) := by
  have hk := hl.walk.kinds d hdir
  have hfound := findChild_settled hl hdir hs name
  have hfst := findChild_fst fs d name
  have hpop := populate_looked hl hw.faults fun _ => hs
  unfold createChild
  split
  next hno =>
    refine Or.inl ⟨fun h => ?_, _, rfl, Looked.refl fs⟩
    rcases hno with hno | hno | hno | hno
    · exact hno hk
    · rw [h.1.writable] at hno
      simp at hno
    · exact h.1.name_fits.1 hno
    · exact absurd h.1.name_fits.2 (Nat.not_le.mpr hno)
  next hok =>
  simp only [not_or, not_not, Bool.not_eq_true, Nat.not_lt] at hok
  obtain ⟨-, hro, hname⟩ := hok
  obtain ⟨⟨fs₁, out⟩, he⟩ : ∃ p, fs.findChild d name = p := ⟨_, rfl⟩
  rw [he] at hfound hfst ⊢
  obtain rfl : fs₁ = (fs.populate d).1 := hfst
  generalize (fs.populate d).1 = fs₁ at hpop
  have hdisk := disk_of_core hpop.core d
  cases out with
  | some k =>
    refine Or.inl ⟨fun h => ?_, _, rfl, hpop⟩
    rw [h.1.new] at hfound
    simp at hfound
  | none =>
    dsimp only
    unfold addChild
    rw [hdisk]
    by_cases hfull : (fs.nodes d).disk.childCount ≥ directoryCapacity
    · rw [if_pos hfull]
      exact Or.inl ⟨fun h => absurd h.1.records (Nat.not_lt.mpr hfull), _, rfl, hpop⟩
    rw [if_neg hfull]
    have hread := readDirEntries_fst (show fs₁.dev.faults = [] by rw [hpop.dev]; exact hw.faults) d
      (fs.nodes d).disk.childCount
    have hreadable := hpop.readable (d := d)
    unfold Readable at hreadable
    rw [hdisk] at hreadable
    generalize fs₁.readDirEntries d (fs.nodes d).disk.childCount = r at hread hreadable ⊢
    obtain ⟨fs₁', out⟩ := r
    obtain rfl : fs₁' = fs₁ := hread
    cases out with
    | none => exact Or.inl ⟨fun h => hreadable.mpr h.2 rfl, _, rfl, hpop⟩
    | some entries =>
      dsimp only
      rw [hpop.freeInode]
      cases hfree : fs.freeInode with
      | none => exact Or.inl ⟨fun h => h.1.inode hfree, _, rfl, hpop⟩
      | some child =>
        have hadds : Adds fs d name :=
          ⟨hro, hname, hfound.symm, Nat.not_le.mp hfull, by rw [hfree]; simp⟩
        refine Or.inr ⟨child, fs₁', ⟨hadds, hreadable.mp (by simp)⟩, rfl, hpop, ?_⟩
        obtain ⟨-, hunused⟩ := freeInode_some hfree
        -- `d` is in use, so it is not the inode that is taken
        have hne : d ≠ child := by
          rintro rfl
          have hu := (hl.used d (by rw [hdir]; simp)).2
          rw [hu] at hunused
          simp at hunused
        have hsb : fs₁'.sb = fs.sb := congrArg Core.sb hpop.core
        have hnode : (fs₁'.takeInode child (newChild isDir name mode uid gid)).nodes d
            = fs₁'.nodes d :=
          modify_nodes_ne _ _ hne
        have hroom : (fs₁'.takeInode child (newChild isDir name mode uid gid)).HasRoom d
            ((fs.nodes d).disk.childCount + 1) ↔ fs.HasRoom d ((fs.nodes d).disk.childCount + 1) :=
          HasRoom.congr hsb (by show fs₁'.dev.blockCount = _; rw [hpop.dev])
            (congrArg Core.blockBitmap hpop.core) (by rw [hnode, hdisk])
        have htaken : Taken _ child (if isDir then kindDir else kindFile) :=
          takeInode_taken fs₁' child (newChild isDir name mode uid gid)
        have hsteady : Steady fs (fs₁'.takeInode child (newChild isDir name mode uid gid)) :=
          Steady.of_dev hsb hpop.dev
        have hw₂ := hw.steady hsteady
        have hro₂ := hsteady.readOnly.trans hro
        have hwrite := writeDirEntries_room ⟨hro₂, hw₂.faults⟩ hw₂.fits
          (by rw [hnode, hdisk]; exact hk)
          (show (fs.nodes d).disk.childCount + 1 ≤ 32 from Nat.not_le.mp hfull)
          (addEntry entries (fs.nodes d).disk.childCount child name)
        obtain ⟨hst, htree⟩ := writeDirEntries_stored (fs₁'.takeInode child
          (newChild isDir name mode uid gid)) d
          (addEntry entries (fs.nodes d).disk.childCount child name)
          ((fs.nodes d).disk.childCount + 1)
        rw [hroom, hnode, hdisk] at hwrite
        dsimp only
        generalize fs₁'.takeInode child (newChild isDir name mode uid gid) = fs₂ at *
        constructor
        · intro h
          have hok := hwrite.1 h
          generalize fs₂.writeDirEntries d (addEntry entries
            (fs.nodes d).disk.childCount child name)
            ((fs.nodes d).disk.childCount + 1) = r at hok hst htree
          obtain ⟨fs₃, ok⟩ := r
          obtain rfl : ok = true := hok
          have hkept : Taken (fs₂.recordCount d ((fs.nodes d).disk.childCount + 1)) child
              (if isDir then kindDir else kindFile) := by
            refine ⟨htaken.used, ?_⟩
            rw [recordCount, modify_nodes_ne _ _ hne.symm]
            exact htaken.kind
          obtain ⟨fs₄, hflush, hend⟩ := linkChild_flushed (hw₂.steady hst)
            (hst.readOnly.trans hro₂) d (hkept.of_tree htree)
          dsimp only
          rw [hflush]
          exact ⟨fs₄, rfl, hend⟩
        · intro h
          obtain ⟨fs₃, heq, hzero, hsame⟩ := hwrite.2 h
          rw [heq]
          exact ⟨fs₃, rfl, hzero, hsame⟩

/-- A failed creation of this name leaves everything as it was: it cannot be added, or
there is room for its record, or the directory has no blocks to lose and the inode that
was tried is blank and has no name that a child list shows. -/
def CreateKeeps (fs : Simplefs) (d : Nat) (name : List Byte) : Prop :=
  Adds fs d name → fs.Readable d → fs.HasRoom d ((fs.nodes d).disk.childCount + 1) ∨
    (fs.nodes d).disk.blockCount = 0 ∧
      ∀ child, fs.freeInode = some child → (fs.nodes child).disk = .zero ∧
        (Listed fs child → (fs.nodes child).name = [])

theorem giveInode_takeInode_nodes (fs : Simplefs) (child : Nat) (n : RuntimeInode) :
    ((fs.takeInode child n).giveInode child).nodes child = RuntimeInode.reset ∧
      ∀ x, x ≠ child → ((fs.takeInode child n).giveInode child).nodes x = fs.nodes x := by
  refine ⟨modify_nodes_self .., fun x hx => ?_⟩
  rw [giveInode, modify_nodes_ne _ _ hx]
  show (fs.takeInode child n).nodes x = fs.nodes x
  exact modify_nodes_ne _ _ hx

/-- Taking a free inode and giving it back leaves the bitmaps alone. -/
theorem giveInode_takeInode_bits (h : Reread fs fs₁) {child : Nat}
    (hfree : fs.freeInode = some child) (n : RuntimeInode) :
    ((fs₁.takeInode child n).giveInode child).inodeBitmap = fs.inodeBitmap ∧
      ((fs₁.takeInode child n).giveInode child).blockBitmap = fs.blockBitmap := by
  refine ⟨?_, congrArg Core.blockBitmap h.core⟩
  show (fs₁.inodeBitmap.mark child).clear child = fs.inodeBitmap
  rw [show fs₁.inodeBitmap = fs.inodeBitmap from congrArg Core.inodeBitmap h.core]
  exact Bitmap.clear_mark (by omega) (freeInode_some hfree).2

/-- A directory in the tree is in use, so it is not the inode that was taken. -/
theorem giveInode_takeInode_children (hl : Live fs) (h : Reread fs fs₁) {child : Nat}
    (hfree : fs.freeInode = some child) (n : RuntimeInode) {path : List Name} {x : Nat}
    (hx : fs.resolveDir path = some x) :
    ((fs₁.takeInode child n).giveInode child).childList x = fs.childList x := by
  obtain ⟨hres, hdir⟩ := resolveDir_some hx
  have hxc : x ≠ child := by
    rintro rfl
    have hu := (hl.used x (by rw [hdir]; simp)).2
    rw [(freeInode_some hfree).2] at hu
    simp at hu
  rw [← h.children x (hl.resolve hres hdir)]
  unfold childList childAt
  rw [(giveInode_takeInode_nodes fs₁ child n).2 x hxc]
  rfl

/-- An inode that was taken and given back. -/
theorem giveInode_takeInode (hl : Live fs) (h : Looked fs fs₁) {child : Nat}
    (hfree : fs.freeInode = some child) (hblank : (fs.nodes child).disk = .zero)
    (hname : Listed fs child → (fs.nodes child).name = []) (n : RuntimeInode) :
    Unchanged fs ((fs₁.takeInode child n).giveInode child) := by
  obtain ⟨hself, hother⟩ := giveInode_takeInode_nodes fs₁ child n
  obtain ⟨hinodes, hblocks⟩ := giveInode_takeInode_bits h.toReread hfree n
  refine ⟨fun i => ?_, hinodes, hblocks, congrArg Device.bytes h.dev,
    fun path x hx => giveInode_takeInode_children hl h.toReread hfree n hx, fun i hi => ?_⟩
  · by_cases hic : i = child
    · rw [hic, hself, hblank]
      rfl
    · rw [hother i hic]
      exact disk_of_core h.core i
  · by_cases hic : i = child
    · rw [hic] at hi ⊢
      rw [hself, hname hi]
      rfl
    · rw [hother i hic]
      exact h.names i

theorem createChild_keeps_iff (hl : Live fs) (hw : Working fs) (hdir : (fs.nodes d).vfs.kind = .dir)
    (hs : Settled fs d) (isDir : Bool) (name : List Byte) (mode uid gid : Nat) :
    ((fs.createChild d isDir name mode uid gid).2 = none →
      Unchanged fs (fs.createChild d isDir name mode uid gid).1) ↔ CreateKeeps fs d name := by
  rcases createChild_ends hl hw hdir hs isDir name mode uid gid with
    ⟨hno, fs₁, heq, hre⟩ | ⟨child, fs₁, hadds, hfree, hre, hroom, hlost⟩
  · rw [heq]
    exact ⟨fun _ ha hr => absurd ⟨ha, hr⟩ hno, fun _ _ => hre.unchanged hl⟩
  by_cases hr : fs.HasRoom d ((fs.nodes d).disk.childCount + 1)
  · obtain ⟨fs₂, heq, -⟩ := hroom hr
    rw [heq]
    exact ⟨fun _ _ _ => Or.inl hr, by simp⟩
  obtain ⟨fs₂, heq, hzero, hsame⟩ := hlost hr
  obtain ⟨-, hunused⟩ := freeInode_some hfree
  have hne : d ≠ child := by
    rintro rfl
    have hu := (hl.used d (by rw [hdir]; simp)).2
    rw [hu] at hunused
    simp at hunused
  rw [heq]
  constructor
  · intro h _ _
    have hun := h rfl
    refine Or.inr ⟨?_, fun c hc => ?_⟩
    · rw [← hun.table d]
      show ((fs₂.giveInode child).nodes d).disk.blockCount = 0
      rw [giveInode, modify_nodes_ne _ _ hne]
      exact hzero
    · obtain rfl := Option.some.inj (hfree.symm.trans hc)
      have hreset : (fs₂.giveInode child).nodes child = RuntimeInode.reset := modify_nodes_self ..
      refine ⟨?_, fun hlisted => ?_⟩
      · rw [← hun.table child, hreset]
        rfl
      · rw [← hun.names child hlisted, hreset]
        rfl
  · intro h _
    obtain ⟨h0, hblank⟩ := (h hadds.1 hadds.2).resolve_left hr
    rw [hsame h0]
    obtain ⟨hdisk, hname⟩ := hblank child hfree
    exact giveInode_takeInode hl hre hfree hdisk hname _

/-! ## Removing -/

theorem emptyChild_blockBitmap (fs : Simplefs) (child : Nat) : (fs.emptyChild child).blockBitmap
    = if (fs.nodes child).disk.blockCount ≠ 0
      then fs.blockBitmap.clearRange (fs.nodes child).disk.dataBlock
        (fs.nodes child).disk.blockCount
      else fs.blockBitmap := by
  unfold emptyChild releaseExtent
  split
  · rfl
  · rfl

theorem emptyChild_steady (fs : Simplefs) (child : Nat) : Steady fs (fs.emptyChild child) :=
  (releaseExtent_aside fs child).steady.trans (modify_steady ..)

/-- Once the child is known to be removable, the room for one record less decides. -/
theorem dropChild_ends (hw : Working fs) (hro : fs.dev.readOnly = false)
    (hk : (fs.nodes d).disk.kind = kindDir) {child : Nat} (hne : d ≠ child)
    (hpos : (fs.nodes d).disk.childCount ≠ 0) (h32 : (fs.nodes d).disk.childCount ≤ 32) (k : Nat)
    (entries : Store) :
    ((fs.emptyChild child).HasRoom d ((fs.nodes d).disk.childCount - 1) →
      (fs.dropChild d child k entries).2 = true) ∧
    (¬(fs.emptyChild child).HasRoom d ((fs.nodes d).disk.childCount - 1) →
      (fs.dropChild d child k entries).2 = false ∧
        ((fs.dropChild d child k entries).1.nodes d).disk.blockCount = 0) := by
  have hst := emptyChild_steady fs child
  have hnode : (fs.emptyChild child).nodes d = fs.nodes d := emptyChild_nodes_ne fs hne
  unfold dropChild
  dsimp only
  rw [hnode, if_pos hpos, if_pos hpos,
    show ((fs.nodes d).disk.childCount + 2 ^ 32 - 1) % 2 ^ 32 = (fs.nodes d).disk.childCount - 1 by
      omega]
  generalize fs.emptyChild child = fs₁ at hst hnode ⊢
  have hslots := setSlots_steady fs₁ d (dropSlot k (fs.nodes d).disk.childCount)
  have hroom : (fs₁.setSlots d (dropSlot k (fs.nodes d).disk.childCount)).HasRoom d
      ((fs.nodes d).disk.childCount - 1) ↔ fs₁.HasRoom d ((fs.nodes d).disk.childCount - 1) :=
    HasRoom.congr hslots.sb hslots.blocks (congrArg Core.blockBitmap (setSlots_core fs₁ d _))
      (disk_of_core (setSlots_core fs₁ d _) d)
  have hkind : ((fs₁.setSlots d (dropSlot k (fs.nodes d).disk.childCount)).nodes d).disk.kind
      = kindDir := by
    rw [disk_of_core (setSlots_core fs₁ d _), hnode]
    exact hk
  have hst₂ := hst.trans hslots
  have hw₂ := hw.steady hst₂
  have hwrite := writeDirEntries_room ⟨hst₂.readOnly.trans hro, hw₂.faults⟩ hw₂.fits hkind
    (show (fs.nodes d).disk.childCount - 1 ≤ 32 by omega)
    (dropEntry entries k (fs.nodes d).disk.childCount)
  obtain ⟨hst₃, -⟩ :=
    writeDirEntries_stored (fs₁.setSlots d (dropSlot k (fs.nodes d).disk.childCount)) d
    (dropEntry entries k (fs.nodes d).disk.childCount) ((fs.nodes d).disk.childCount - 1)
  rw [hroom] at hwrite
  constructor
  · intro h
    have hok := hwrite.1 h
    generalize writeDirEntries _ d (dropEntry entries k (fs.nodes d).disk.childCount)
      ((fs.nodes d).disk.childCount - 1) = r at hok hst₃
    obtain ⟨fs₃, ok⟩ := r
    obtain rfl : ok = true := hok
    have hlast : Steady fs₃ ((fs₃.decrementCount d).giveInode child) := Steady.of_dev rfl rfl
    have hall := (hst₂.trans hst₃).trans hlast
    exact (hw.steady hall).flushed (hall.readOnly.trans hro)
  · intro h
    obtain ⟨fs₃, heq, hzero, -⟩ := hwrite.2 h
    rw [heq]
    exact ⟨rfl, hzero⟩

/-- A failed removal of this name leaves everything as it was: it is refused at once, or
there is room for one record less. -/
def RemoveKeeps (fs : Simplefs) (d : Nat) (name : List Byte) : Prop :=
  ∀ child, fs.removes d name = some child →
    (fs.emptyChild child).HasRoom d ((fs.nodes d).disk.childCount - 1)

/-- Every directory in use has been read, or has nothing to read. Mounting reads those that
paths lead to, so an unread one was on the image without a record that leads to it. -/
def Explored (fs : Simplefs) : Prop :=
  ∀ x < fs.sb.inodeCount, fs.inodeUsed x = true → (fs.nodes x).disk.kind = kindDir → Settled fs x

instance (fs : Simplefs) : Decidable fs.Explored := by
  unfold Explored Settled
  infer_instance

theorem Explored.reread (h : Explored fs) (hre : Reread fs fs') : Explored fs' := by
  intro x hlt hu hk
  rw [disk_of_core hre.core] at hk
  obtain ⟨hlt, hu⟩ := used_of_core hre.core.symm hlt hu
  exact hre.settled x (h x hlt hu hk)

theorem removeChild_ends (hl : Live fs) (hw : Working fs) (hs : Settled fs d) (hex : Explored fs)
    (name : List Byte) :
    (fs.removes d name = none ∧ Looked fs (fs.removeChild d name).1) ∨
    ∃ child, fs.removes d name = some child ∧ (fs.nodes d).disk.blockCount ≠ 0 ∧
      ((fs.emptyChild child).HasRoom d ((fs.nodes d).disk.childCount - 1) →
        (fs.removeChild d name).2 = true) ∧
      (¬(fs.emptyChild child).HasRoom d ((fs.nodes d).disk.childCount - 1) →
        (fs.removeChild d name).2 = false ∧
          ((fs.removeChild d name).1.nodes d).disk.blockCount = 0) := by
  refine removeChild_cases
    (P := fun a => Looked fs a ∧ Steady fs a ∧ Live a ∧ (a.nodes d).populated = true)
    (Q := fun r => (fs.removes d name = none ∧ Looked fs r.1) ∨
      ∃ child, fs.removes d name = some child ∧ (fs.nodes d).disk.blockCount ≠ 0 ∧
        ((fs.emptyChild child).HasRoom d ((fs.nodes d).disk.childCount - 1) → r.2 = true) ∧
        (¬(fs.emptyChild child).HasRoom d ((fs.nodes d).disk.childCount - 1) →
          r.2 = false ∧ (r.1.nodes d).disk.blockCount = 0))
    (fun {a} n h => ?_) (fun {a} x hx h => ?_) (fun hno h => Or.inl ⟨hno, h.1⟩)
    (fun hno => Or.inl ⟨hno, Looked.refl fs⟩) (fun fs₁ ok he => ?_) ?_
  · -- a read that is not refused changes nothing
    rw [readDirEntries_fst (h.2.1.faults hw.faults)]
    exact h
  · obtain ⟨hre, hst, hla, hp⟩ := h
    have hsettled : (a.nodes x).disk.kind = kindDir → Settled a x := fun hk => by
      rcases hx with rfl | ⟨hlt, hu⟩
      · exact Or.inl hp
      · exact hex.reread hre.toReread x hlt hu hk
    refine ⟨hre.trans (populate_looked hla (hst.faults hw.faults) hsettled),
      hst.trans (populate_steady a x), hla.populate x, ?_⟩
    rw [((populate_visit hla.walk x).1.kept d (Or.inl hp)).populated]
    exact hp
  · have hpop := populate_looked hl hw.faults fun _ => hs
    have hlive := hl.populate d
    have hsteady := populate_steady fs d
    obtain ⟨-, hdone⟩ := populate_visit hl.walk d
    rw [he] at hpop hlive hsteady hdone
    cases ok with
    | false => exact fun hno => Or.inl ⟨hno, hpop⟩
    | true => exact ⟨hpop, hsteady, hlive, hdone rfl⟩
  -- the child is dropped in a state that looks like the one before the call
  rintro a entries k ⟨hre, hst, hla, hp⟩ hdrop hrem -
  have hdisk := disk_of_core hre.core
  have hslot := hdrop.slot
  have hcount := (hla.orderly d).counted hp
  have h32 := hcount.trans (hla.walk.count d hp)
  rw [hdisk] at hcount h32
  have hblocks : (fs.nodes d).disk.blockCount ≠ 0 := by
    obtain ⟨b, c, hcore, hread⟩ := hdrop.read
    have hb := disk_of_core hcore d
    rw [← hb] at hread
    have hrec := records_of_read (by rw [hb]; omega) hread
    unfold records at hrec
    dsimp only at hrec
    split at hrec
    · simp at hrec
    next hgood =>
      rw [not_or, not_or, not_not, hb] at hgood
      rw [hgood.2.1, dirRequiredBlocks_eq h32]
      omega
  -- a directory that lists itself has a child
  have hne : d ≠ entryInode entries k := by
    intro hd
    have hempty := hdrop.empty
    rw [← hd, hdisk] at hempty
    have := hempty hdrop.kind
    omega
  have hempty := emptyChild_steady fs (entryInode entries k)
  have hempty₁ := emptyChild_steady a (entryInode entries k)
  have hroom : (a.emptyChild (entryInode entries k)).HasRoom d
      ((fs.nodes d).disk.childCount - 1) ↔ (fs.emptyChild (entryInode entries k)).HasRoom d
      ((fs.nodes d).disk.childCount - 1) := by
    refine HasRoom.congr (hempty₁.sb.trans (hst.sb.trans hempty.sb.symm))
      (hempty₁.blocks.trans (hst.blocks.trans hempty.blocks.symm)) ?_ ?_
    · rw [emptyChild_blockBitmap, emptyChild_blockBitmap, hdisk,
        show a.blockBitmap = fs.blockBitmap from congrArg Core.blockBitmap hre.core]
    · rw [emptyChild_nodes_ne a hne, emptyChild_nodes_ne fs hne, hdisk]
  have h := dropChild_ends (hw.steady hst) (hst.readOnly.trans hdrop.writable)
    (by rw [hdisk]; exact hdrop.kind) hne (by rw [hdisk]; omega) (by rw [hdisk]; exact h32) k
    entries
  rw [hdisk, hroom] at h
  exact Or.inr ⟨_, hrem, hblocks, h⟩

theorem removeChild_keeps_iff (hl : Live fs) (hw : Working fs) (hs : Settled fs d)
    (hex : Explored fs) (name : List Byte) :
    ((fs.removeChild d name).2 = false → Unchanged fs (fs.removeChild d name).1) ↔
      RemoveKeeps fs d name := by
  rcases removeChild_ends hl hw hs hex name with ⟨hno, hre⟩ | ⟨child, hchild, hblocks, hroom, hlost⟩
  · refine ⟨fun _ child hchild => ?_, fun _ _ => hre.unchanged hl⟩
    rw [hno] at hchild
    simp at hchild
  constructor
  · intro h c hc
    obtain rfl := Option.some.inj (hchild.symm.trans hc)
    by_contra hr
    obtain ⟨hfalse, hzero⟩ := hlost hr
    rw [(h hfalse).table d] at hzero
    exact hblocks hzero
  · intro h hfalse
    rw [hroom (h child hchild)] at hfalse
    simp at hfalse

/-! ## Runs -/

/-- What happens to a tree that is in use: an operation, or an open or a close that leaves
an inode with another number of references. -/
inductive UseOp
  | op (op : VfsOp)
  | references (i n : Nat)

def serve (fs : Simplefs) : UseOp → Simplefs
  | .op op => fs.perform op
  | .references i n => fs.modifyVfs i fun v => { v with refCount := n }

/-- A create that adds a child finds a slot for it. -/
def ServesSlot (fs : Simplefs) : UseOp → Prop
  | .op op => FindsSlot fs op
  | .references _ _ => True

theorem serve_steady (fs : Simplefs) (op : UseOp) : Steady fs (fs.serve op) := by
  cases op with
  | op op => exact perform_steady fs op
  | references i n => exact Steady.of_dev rfl rfl

theorem Live.references (hl : Live fs) (i n : Nat) :
    Live (fs.modifyVfs i fun v => { v with refCount := n }) := by
  have hset : ∀ f : RuntimeInode → RuntimeInode, (f (fs.nodes i)).populated
      = (fs.nodes i).populated →
      (f (fs.nodes i)).disk = (fs.nodes i).disk →
      (f (fs.nodes i)).vfs.childCount = (fs.nodes i).vfs.childCount →
      Settled fs i → Settled (fs.modify i f) i := by
    intro f hp hd hc hs
    unfold Settled
    rw [modify_nodes_self, hp, hd, hc]
    exact hs
  unfold modifyVfs
  refine hl.modify (hl.walk.modify rfl rfl rfl rfl rfl le_rfl rfl rfl fun hs => hs) rfl
    (hset _ rfl rfl rfl) ?_
  exact ⟨(hl.orderly i).counted, (hl.orderly i).bare⟩

theorem serve_live (fs : Simplefs) (op : UseOp) (hl : Live fs) (hop : ServesSlot fs op) :
    Live (fs.serve op) := by
  cases op with
  | op op => exact perform_live fs op hl hop
  | references i n => exact hl.references i n

/-- An image whose root has sixteen files, `a` to `p`, and of which one has all the blocks
that the root does not have. -/
def crammedDevice : Device where
  blockCount := 16
  readOnly := false
  faults := []
  bytes a :=
    if a < 512 then
      encodeSuperblock { sampleSuperblock with
        inodeCount := 20
        inodeTableBlocks := 2
        inodeBitmapStart := 3
        blockBitmapStart := 4
        dataBlockStart := 5 } a
    else if a < 1536 then
      encodeTable (fun i =>
        if i = 0 then { DiskInode.zero with
          kind := kindDir, size := 512, dataBlock := 5, blockCount := 1, childCount := 16 }
        else if i = 1 then { DiskInode.zero with
          kind := kindFile, size := 5120, dataBlock := 6, blockCount := 10 }
        else if i ≤ 16 then { DiskInode.zero with kind := kindFile }
        else .zero) (a - 512)
    else if a = 1536 ∨ a = 1537 then 0xFF
    else if a = 1538 then 0x01
    else if a = 2048 ∨ a = 2049 then 0xFF
    else if 2560 ≤ a ∧ a < 3072 then
      if a % 32 = 0 then BitVec.ofNat 8 ((a - 2560) / 32 + 1)
      else if a % 32 = 4 then BitVec.ofNat 8 ((a - 2560) / 32 + 0x61)
      else 0
    else 0

def crammedFs : Simplefs := (mount crammedDevice sampleAmbient).get (by decide +kernel)

end Simplefs

end Riverix.Fs
