import Riverix.Fs.Rules

/-!
# The reference counts of inodes

`vfs.c` counts the open files of an inode in the inode itself. The file system reads the
count when it removes an inode, and sets it to 0 when it gives one back or takes one. So
removing keeps every count, and creating keeps them as long as nobody has the inode open
that is taken. That one is free in the bitmap, but a directory record may name it all the
same: `simplefs_populate_directory` does not ask.
-/

namespace Riverix.Fs

open Riverix.Lib

namespace Simplefs

variable {fs fs' : Simplefs} {d i : Nat}

/-- Every inode has the same reference count. -/
def SameRefs (fs fs' : Simplefs) : Prop :=
  ∀ j, (fs'.nodes j).vfs.refCount = (fs.nodes j).vfs.refCount

theorem SameRefs.refl (fs : Simplefs) : SameRefs fs fs := fun _ => rfl

theorem SameRefs.trans {fs₁ fs₂ fs₃ : Simplefs} (h : SameRefs fs₁ fs₂) (h' : SameRefs fs₂ fs₃) :
    SameRefs fs₁ fs₃ := fun j => (h' j).trans (h j)

theorem SameRefs.of_tree (h : fs'.tree = fs.tree) : SameRefs fs fs' := by
  intro j
  obtain ⟨s, a, b, v, hn⟩ := node_of_tree h j
  rw [hn]

theorem SameRefs.onDevice {fs₁ fs₂ : Simplefs} (h : OnDevice fs₁ fs₂) (h' : SameRefs fs fs₁) :
    SameRefs fs fs₂ := h'.trans (SameRefs.of_tree h.tree)

theorem SameRefs.of_core (h : fs'.core = fs.core) : SameRefs fs fs' := fun j =>
  congrArg (fun c => (c.nodes j).vfs.refCount) h

theorem SameRefs.modify {f : RuntimeInode → RuntimeInode}
    (h : (f (fs.nodes i)).vfs.refCount = (fs.nodes i).vfs.refCount) :
    SameRefs fs (fs.modify i f) := by
  intro j
  by_cases hj : j = i
  · rw [hj, modify_nodes_self, h]
  · rw [modify_nodes_ne fs f hj]

theorem SameRefs.of_nodes (h : fs'.nodes = fs.nodes) : SameRefs fs fs' := fun j => by rw [h]

theorem takeInode_sameRefs {n : RuntimeInode} (hn : n.vfs.refCount = 0)
    (h : (fs.nodes i).vfs.refCount = 0) : SameRefs fs (fs.takeInode i n) := by
  have hmark : SameRefs fs { fs with inodeBitmap := fs.inodeBitmap.mark i } := SameRefs.of_nodes rfl
  exact hmark.trans (SameRefs.modify (hn.trans h.symm))

theorem giveInode_sameRefs (h : (fs.nodes i).vfs.refCount = 0) : SameRefs fs (fs.giveInode i) := by
  have hclear : SameRefs fs { fs with inodeBitmap := fs.inodeBitmap.clear i } :=
    SameRefs.of_nodes rfl
  exact hclear.trans (SameRefs.modify ((rfl : RuntimeInode.reset.vfs.refCount = 0).trans h.symm))

theorem writeDirEntries_sameRefs (fs : Simplefs) (d : Nat) (entries : Store) (count : Nat) :
    SameRefs fs (fs.writeDirEntries d entries count).1 := by
  have h := writeDirEntries_tree fs d entries count
  split at h
  · exact (SameRefs.modify rfl : SameRefs fs (fs.recordCount d count)).trans (SameRefs.of_tree h)
  · exact SameRefs.of_tree h

/-! ## Creating -/

/-- The inode that `simplefs_create_child` takes for the child, if it comes to that. -/
def takenInode (fs : Simplefs) (d : Nat) (name : List Byte) : Option Nat :=
  if (fs.nodes d).disk.kind ≠ kindDir ∨ fs.dev.readOnly ∨ name.length = 0 ∨ name.length > nameMax
  then none
  else
    match fs.findChild d name with
    | (_, some _) => none
    | (fs, none) =>
      if (fs.nodes d).disk.childCount ≥ directoryCapacity then none
      else
        match fs.readDirEntries d (fs.nodes d).disk.childCount with
        | (_, none) => none
        | (fs, some _) => fs.freeInode

/-- Creating keeps the counts if nobody has the inode open that is taken. -/
theorem createChild_sameRefs {name : List Byte}
    (h : ∀ i, fs.takenInode d name = some i → (fs.nodes i).vfs.refCount = 0) (isDir : Bool)
    (mode uid gid : Nat) : SameRefs fs (fs.createChild d isDir name mode uid gid).1 := by
  refine createChild_rule SameRefs.onDevice (SameRefs.refl fs)
    (SameRefs.of_core (populate_core fs d))
    fun fs₁ entries child fs₂ ok had hsame hwrite => ?_
  have h0 : (fs₁.nodes child).vfs.refCount = 0 := by
    refine (hsame child).trans (h child ?_)
    unfold takenInode
    rw [if_neg (by simp [had.kind, had.writable, had.name_fits]), had.found]
    dsimp only
    rw [disk_of_core (populate_core fs d), if_neg (Nat.not_le.mpr had.room), had.read]
    exact had.free
  have htake := takeInode_sameRefs (n := newChild isDir name mode uid gid) rfl h0
  have hput := htake.trans (via (writeDirEntries_sameRefs _ _ _ _) hwrite)
  cases ok with
  | false => exact (hsame.trans hput).trans (giveInode_sameRefs ((hput child).trans h0))
  | true =>
    have hlink : SameRefs fs₂ (fs₂.linkChild d child) :=
      SameRefs.of_core (appendChild_core (fs₂.logStore d) d (.node child))
    exact (hsame.trans hput).trans hlink

/-! ## Removing -/

theorem dropChild_sameRefs {child : Nat} (h : (fs.nodes child).vfs.refCount = 0) (d k : Nat)
    (entries : Store) : SameRefs fs (fs.dropChild d child k entries).1 := by
  have hempty : SameRefs fs (fs.unslotted d child k) := by
    intro j
    rw [unslotted_nodes]
    by_cases hj : j = child
    · rw [hj, emptyChild_nodes_self]
    · rw [emptyChild_nodes_ne fs hj]
  refine dropChild_rule SameRefs.onDevice
    (fun _ _ _ hw => hempty.trans (via (writeDirEntries_sameRefs _ _ _ _) hw))
    fun _ _ fs₁ _ _ _ _ _ hw => ?_
  have hput := hempty.trans (via (writeDirEntries_sameRefs _ _ _ _) hw)
  have hdec : SameRefs fs (fs₁.decrementCount d) := hput.trans (SameRefs.of_core (modify_core rfl))
  exact hdec.trans (giveInode_sameRefs ((hdec child).trans h))

/-- Removing keeps the counts: an inode that is open is not removed. -/
theorem removeChild_sameRefs (fs : Simplefs) (d : Nat) (name : List Byte) :
    SameRefs fs (fs.removeChild d name).1 := by
  have hpop : ∀ {a} x, SameRefs fs a → SameRefs fs (a.populate x).1 := fun x h =>
    h.trans (SameRefs.of_core (populate_core _ x))
  exact removeChild_rule SameRefs.onDevice hpop (SameRefs.refl fs) fun a entries k h hdrop _ =>
    h.trans (dropChild_sameRefs hdrop.closed d k entries)

/-! ## Mounting -/

/-- Nothing is open on a file system that has just been mounted. -/
theorem mount_refCount {dev : Device} {amb : Ambient} (h : mount dev amb = some fs) (j : Nat) :
    (fs.nodes j).vfs.refCount = 0 := by
  obtain ⟨dev', sb, table, inodeBits, blockBits, hpop⟩ := mount_populated h
  have hcore := populate_core (loaded dev' amb sb table inodeBits blockBits) sb.rootInode
  rw [hpop] at hcore
  rw [SameRefs.of_core hcore j]
  unfold loaded
  dsimp only
  split
  · split <;> rfl
  · rfl

theorem attachDevices_sameRefs (h : fs.attachDevices = some fs') : SameRefs fs fs' := by
  obtain ⟨-, hd⟩ := attachDevices_rule (P := fun _ => SameRefs fs) h (fun _ _ => SameRefs.refl fs)
    fun d a ref ha _ _ => ha.trans (SameRefs.of_core (appendChild_core a d ref))
  exact hd

end Simplefs

end Riverix.Fs
