import Riverix.Fs.Atomic
import Riverix.Vfs.Moves

/-!
# A failed open

`proc_open_fd` looks for a descriptor, opens or creates the file, and truncates it. Nearly
every failure is found before anything has changed, and a file that could not be truncated
is released again. Two are not. `vfs_create_path` creates the file before it looks for an
entry of the file table; without one the call fails and the file stays. And the creation
itself can fail after the directory has lost its records (`Riverix.Fs.Atomic`).

**`openFd_keeps_iff`** says that these are all: a failed open leaves no trace exactly if
`OpenKeeps` holds of the state before it.
-/

namespace Riverix.Vfs

open Riverix.Lib Riverix.Fs Simplefs

namespace VfsState

variable {trusted : Prop} {v v' : VfsState} {held : List Nat} {f c flags : Nat}
  {credentials : Option Credentials} {path : List Byte}

/-- The call has left no trace. The bitmaps, the device, all reference counts and all of the
file and descriptor tables are as they were; every inode that is in use, or that a directory
of the tree shows, holds what it held, on the disk and in memory, under the same name; and
every directory of the tree has the same children. What a free inode holds that nothing
shows is not compared. -/
structure NoTrace (v v' : VfsState) : Prop where
  inodeBits : v'.fs.inodeBitmap = v.fs.inodeBitmap
  blockBits : v'.fs.blockBitmap = v.fs.blockBitmap
  device : v'.fs.dev.bytes = v.fs.dev.bytes
  references : ∀ i, (v'.fs.nodes i).vfs.refCount = (v.fs.nodes i).vfs.refCount
  inodes : ∀ i, v.fs.inodeUsed i = true ∨ Listed v.fs i →
    (v'.fs.nodes i).core = (v.fs.nodes i).core ∧ (v'.fs.nodes i).name = (v.fs.nodes i).name
  children : ∀ path x, v.fs.resolveDir path = some x → v'.fs.childList x = v.fs.childList x
  tables : v' = { v with fs := v'.fs }

theorem NoTrace.refl (v : VfsState) : NoTrace v v :=
  ⟨rfl, rfl, rfl, fun _ => rfl, fun _ _ => ⟨rfl, rfl⟩, fun _ _ _ => rfl, rfl⟩

theorem NoTrace.inodeUsed (h : NoTrace v v') (i : Nat) : v'.fs.inodeUsed i = v.fs.inodeUsed i :=
  congrArg (fun bits => bits.test i) h.inodeBits

theorem node_core_of_core {fs fs' : Simplefs} (h : fs'.core = fs.core) (i : Nat) :
    (fs'.nodes i).core = (fs.nodes i).core := congrArg (fun core => core.nodes i) h

theorem NoTrace.of_looked {fs : Simplefs} (hl : Live v.fs) (h : Looked v.fs fs) :
    NoTrace v { v with fs } where
  inodeBits := congrArg Core.inodeBitmap h.core
  blockBits := congrArg Core.blockBitmap h.core
  device := congrArg Device.bytes h.dev
  references i := congrArg (fun n => n.vfs.refCount) (node_core_of_core h.core i)
  inodes i _ := ⟨node_core_of_core h.core i, h.names i⟩
  children path x hx := by
    obtain ⟨hres, hdir⟩ := resolveDir_some hx
    exact h.children x (hl.resolve hres hdir)
  tables := rfl

/-! ## Paths lead to settled directories -/

/-- An entry of a directory is one of its slots. -/
theorem lookup_slot {fs : Simplefs} {d next : Nat} {component : List Byte}
    (h : (treeOf fs).lookup (nodeId (.node d)) component = some next) :
    ∃ k < (fs.nodes d).vfs.childCount, ∃ ref, fs.childAt d k = some ref ∧ nodeId ref = next := by
  unfold Tree.lookup at h
  split at h
  next child hfind =>
    have hmem := List.mem_of_find?_eq_some hfind
    have hchildren : ((treeOf fs).inodes (nodeId (.node d))).children
        = (List.range (fs.nodes d).vfs.childCount).map fun k =>
            (fs.slotName (fs.childAt d k), (fs.childAt d k).map nodeId) := by
      show (nodeInode fs (nodeOf (nodeId (.node d)))).children = _
      rw [nodeOf_nodeId]
      rfl
    rw [hchildren] at hmem
    obtain ⟨k, hk, rfl⟩ := List.mem_map.mp hmem
    obtain ⟨ref, href, hid⟩ := Option.map_eq_some_iff.mp h
    exact ⟨k, List.mem_range.mp hk, ref, href, hid⟩
  · simp at h

theorem inodes_dir {fs : Simplefs} {id d : Nat} (hd : nodeOf id = .node d) :
    ((treeOf fs).inodes id).kind = .dir ↔ (fs.nodes d).vfs.kind = .dir := by
  show (nodeInode fs (nodeOf id)).kind = .dir ↔ _
  rw [hd]
  show InodeKind.ofVfs (fs.nodes d).vfs.kind = .dir ↔ _
  cases (fs.nodes d).vfs.kind <;> simp [InodeKind.ofVfs]

theorem resolveFrom_settled {fs : Simplefs} (hl : Live fs) {id d : Nat} (hd : nodeOf id = .node d)
    (hdir : (fs.nodes d).vfs.kind = .dir) (n : Nat) : ∀ (cursor : List Byte) (ref : NodeRef),
      cursor.length = n → (∀ x, ref = .node x → (fs.nodes x).vfs.kind = .dir → Settled fs x) →
      (treeOf fs).resolveFrom credentials (nodeId ref) cursor = .ok id → Settled fs d := by
  induction n using Nat.strong_induction_on with
  | h n ih =>
    intro cursor ref hn hs h
    cases cursor with
    | nil =>
      rw [Tree.resolveFrom] at h
      rw [← Except.ok.inj h, nodeOf_nodeId] at hd
      exact hs d hd hdir
    | cons b cursor =>
      have hlen := afterComponent_length b cursor
      rw [Tree.resolveFrom] at h
      split at h
      · simp at h
      next hkind =>
      split at h
      · simp at h
      split at h
      · simp at h
      split at h
      · simp at h
      next next hnext =>
      cases ref with
      | node x =>
        -- the directory is settled, and a slot of it is that of a populated one
        have hx := (inodes_dir (nodeOf_nodeId _)).mp (not_not.mp hkind)
        obtain ⟨k, hk, child, hchild, rfl⟩ := lookup_slot hnext
        refine ih _ (by omega) _ child rfl (fun y hy hdir => ?_) h
        rw [hy] at hchild
        exact hl.walk.closed x ((hs x rfl hx).populated hk) k hk y hchild hdir
      | console => exact absurd hkind (by simp [treeOf, nodeInode, deviceInode, nodeId, nodeOf])
      | tty => exact absurd hkind (by simp [treeOf, nodeInode, deviceInode, nodeId, nodeOf])

theorem resolvePath_settled {fs : Simplefs} (hl : Live fs) {id d : Nat}
    (h : (treeOf fs).resolvePath path credentials = .ok id) (hd : nodeOf id = .node d)
    (hdir : (fs.nodes d).vfs.kind = .dir) : Settled fs d := by
  unfold Tree.resolvePath at h
  split at h
  · simp at h
  next root hroot =>
  split at h
  · simp at h
  · obtain rfl : nodeId (.node fs.sb.rootInode) = root := Option.some.inj hroot
    refine resolveFrom_settled hl hd hdir _ _ _ rfl (fun x hx _ => ?_) h
    rw [← NodeRef.node.inj hx]
    exact hl.root

/-- What is known once there is a place for a new entry. -/
theorem createParent_ok {t : Tree} {parent : Nat} {leafName : List Byte}
    (h : t.createParent path credentials = .ok (parent, leafName)) :
    (∃ refusal, t.resolvePath path credentials = .error refusal) ∧ (t.inodes parent).kind = .dir ∧
      ∃ dirPath, t.resolvePath dirPath credentials = .ok parent := by
  unfold Tree.createParent at h
  split at h
  · simp at h
  next refusal hrefusal =>
  refine ⟨⟨refusal, hrefusal⟩, ?_⟩
  split at h
  · simp at h
  next parent' leafName' hparent =>
  split at h
  · simp at h
  split at h
  · simp at h
  obtain ⟨rfl, rfl⟩ := Prod.mk.inj (Except.ok.inj h)
  unfold Tree.resolveParent at hparent
  dsimp only at hparent
  split at hparent
  · simp at hparent
  split at hparent
  · simp at hparent
  split at hparent
  · simp at hparent
  split at hparent
  · simp at hparent
  split at hparent
  · simp at hparent
  next id hid =>
  split at hparent
  next hkind =>
    obtain ⟨rfl, -⟩ := Prod.mk.inj (Except.ok.inj hparent)
    exact ⟨hkind, _, hid⟩
  · simp at hparent

/-- A directory is an inode of the mounted file system. -/
theorem parent_node {fs : Simplefs} {id : Nat} (h : ((treeOf fs).inodes id).kind = .dir) :
    ∃ d, id = nodeId (.node d) := by
  have hk : (nodeInode fs (nodeOf id)).kind = .dir := h
  match id with
  | 0 => exact absurd hk (by simp [nodeOf, nodeInode, deviceInode])
  | 1 => exact absurd hk (by simp [nodeOf, nodeInode, deviceInode])
  | d + 2 => exact ⟨d, rfl⟩

/-- Where something is created is a settled directory. -/
theorem createParent_settled {fs : Simplefs} (hl : Live fs) {parent d : Nat} {leafName : List Byte}
    (h : (treeOf fs).createParent path credentials = .ok (parent, leafName))
    (hd : nodeOf parent = .node d) : (fs.nodes d).vfs.kind = .dir ∧ Settled fs d := by
  obtain ⟨-, hkind, dirPath, hpath⟩ := createParent_ok h
  have hdir := (inodes_dir hd).mp hkind
  exact ⟨hdir, resolvePath_settled hl hpath hd hdir⟩

/-! ## Opening and closing again -/

/-- An entry of the file table that refers to nothing is cleared. -/
def Vacant (v : VfsState) : Prop :=
  ∀ f, (v.files f).inode = none →
    (v.files f).flags = 0 ∧ (v.files f).offset = 0 ∧ (v.files f).grant = none

theorem Vacant.free (hv : Vacant v) (hc : FilesCounted trusted v held) (h : v.allocFile = some f) :
    v.files f = File.free := by
  obtain ⟨-, hnone, -, -⟩ := hc.free h
  obtain ⟨hflags, hoffset, hgrant⟩ := hv f hnone
  have hcount := (hc.named f).mpr hnone
  show (⟨v.inodeAt f, (v.files f).flags, (v.files f).offset, (v.files f).refCount,
    (v.files f).grant⟩ : File) = File.free
  rw [hnone, hflags, hoffset, hcount, hgrant]
  rfl

/-- The count of an inode is set, and set back. -/
theorem setInodeRefs_back (v : VfsState) (ref : NodeRef) (n : Nat) :
    (v.setInodeRefs (.entry ref) n).setInodeRefs (.entry ref) (v.inodeRefs (.entry ref)) = v := by
  cases ref with
  | node i =>
    have hnodes : Function.update (Function.update v.fs.nodes i
        { v.fs.nodes i with vfs := { (v.fs.nodes i).vfs with refCount := n } }) i (v.fs.nodes i)
        = v.fs.nodes := by rw [Function.update_idem, Function.update_eq_self]
    unfold setInodeRefs inodeRefs Simplefs.modifyVfs Simplefs.modify
    dsimp only
    rw [Function.update_self]
    exact congrArg (fun nodes => { v with fs := { v.fs with nodes } }) hnodes
  | console => rfl
  | tty => rfl

/-- A file that was opened and is released at once. -/
theorem releaseFile_openInode (hv : Vacant v) (hc : FilesCounted trusted v held) {ref : NodeRef}
    {grant : Option Grant} (h : v.openInode (.entry ref) flags grant = (v', some f)) :
    v'.releaseFile f = v := by
  obtain ⟨hf, rfl⟩ := openInode_some h
  have hfree := hv.free hc hf
  have hback : (v.setFile f ⟨some (.entry ref), flags, 0, 1, grant⟩).setFile f File.free = v := by
    unfold setFile
    rw [Function.update_idem, ← hfree, Function.update_eq_self]
  unfold releaseFile
  rw [(setInodeRefs_keeps ..).1, setFile_self]
  dsimp only
  rw [if_neg (by omega), if_neg (by omega)]
  have hcount : (v.setFile f ⟨some (.entry ref), flags, 0, 1, grant⟩).inodeRefs (.entry ref)
      = v.inodeRefs (.entry ref) := by
    cases ref <;> rfl
  have hrefs := setInodeRefs_back (v.setFile f ⟨some (.entry ref), flags, 0, 1, grant⟩) ref
    (v.inodeRefs (.entry ref) + 1)
  rw [hcount] at hrefs
  unfold releaseInode
  rw [inodeRefs_setInodeRefs, if_pos rfl, Nat.add_sub_cancel, hrefs]
  exact hback

/-! ## Truncating -/

/-- Giving all blocks of a file back needs nothing but a device that takes writes. -/
theorem resizeNode_zero {fs : Simplefs} {i : Nat} (hw : Working fs) (hro : fs.dev.readOnly = false)
    (hk : (fs.nodes i).disk.kind = kindFile) : (fs.resizeNode i 0).2 = true := by
  have hextent : ∃ fs₁, fs.resizeExtent i 0 = (fs₁, true) ∧ Steady fs fs₁ := by
    unfold resizeExtent
    rw [show requiredBlocks 0 = 0 from rfl, if_neg (Nat.not_lt_zero _)]
    split
    · exact ⟨_, rfl, (releaseExtent_aside fs i).steady⟩
    · exact ⟨_, rfl, Steady.refl fs⟩
  obtain ⟨fs₁, heq, hs⟩ := hextent
  have hsize : Steady fs₁ (fs₁.setSize i 0) := Steady.of_dev rfl rfl
  unfold resizeNode
  rw [if_neg (by rw [hro, hk]; simp), heq]
  exact (hw.steady (hs.trans hsize)).flushed ((hs.trans hsize).readOnly.trans hro)

/-- A file is not truncated on a device that takes no writes, and if it is none. -/
theorem truncateFile_fails (hw : Working v.fs) (h : (v.truncateFile f 0).2 = false) :
    (v.truncateFile f 0).1 = v ∧ ∀ i, (v.files f).inode = some (.entry (.node i)) →
      v.fs.dev.readOnly = true ∨ (v.fs.nodes i).disk.kind ≠ kindFile := by
  unfold truncateFile at h ⊢
  split at h
  next i hi =>
    have hrefused : v.fs.dev.readOnly = true ∨ (v.fs.nodes i).disk.kind ≠ kindFile := by
      by_contra hgood
      rw [not_or, Bool.not_eq_true, not_not] at hgood
      have hok := resizeNode_zero hw hgood.1 hgood.2
      generalize v.fs.resizeNode i 0 = r at h hok
      obtain ⟨fs, ok⟩ := r
      obtain rfl : ok = true := hok
      simp at h
    have hsame : v.fs.resizeNode i 0 = (v.fs, false) := by
      unfold resizeNode
      exact if_pos hrefused
    refine ⟨?_, fun j hj => ?_⟩
    · rw [hsame]
    · obtain rfl : i = j := by
        have := hi.symm.trans hj
        simpa using this
      exact hrefused
  next hnone => exact ⟨rfl, fun i hi => absurd hi (hnone i)⟩

/-- Opening changes a count only. -/
theorem openInode_fs {r : InodeRef} {grant : Option Grant}
    (h : v.openInode r flags grant = (v', some f)) :
    Steady v.fs v'.fs ∧ ∀ i, (v'.fs.nodes i).disk = (v.fs.nodes i).disk := by
  obtain ⟨-, rfl⟩ := openInode_some h
  unfold setInodeRefs
  split
  next i =>
    refine ⟨Steady.of_dev rfl rfl, fun j => ?_⟩
    have hkeep : ∀ n, (fun j => ((v.fs.modifyVfs i fun w => { w with refCount := n }).nodes j).disk)
        = fun j => (v.fs.nodes j).disk := fun n => modify_keeps RuntimeInode.disk rfl
    exact congrFun (hkeep _) j
  all_goals exact ⟨Steady.refl _, fun _ => rfl⟩

/-! ## The call -/

/-- The call gets as far as the directory `d` with a name that can be added to it. -/
structure Creating (v : VfsState) (c : Nat) (credentials : Credentials) (path : List Byte)
    (flags d : Nat) (leafName : List Byte) : Prop where
  access : flags &&& 3 ≠ 0
  known : flags < 16
  create : flags &&& 4 ≠ 0
  descriptor : v.allocateFdSlot c ≠ none
  place : (treeOf v.fs).createParent path (some credentials) = .ok (nodeId (.node d), leafName)
  adds : Adds v.fs d leafName
  readable : v.fs.Readable d

/-- To reset this inode leaves no trace: nobody has it open, and if a directory of the tree
shows it there is nothing in it to see. -/
def Blank (fs : Simplefs) (i : Nat) : Prop :=
  (fs.nodes i).vfs.refCount = 0 ∧
    (Listed fs i → (fs.nodes i).core = RuntimeInode.reset.core ∧ (fs.nodes i).name = [])

/-- **When a failed open leaves no trace**: if a file is to be created, there is room for its
record and an entry of the file table for it; or there is no room, but the directory has no
blocks to lose and the inode that was tried is blank. -/
def OpenKeeps (v : VfsState) (c : Nat) (credentials : Credentials) (path : List Byte)
    (flags : Nat) : Prop :=
  ∀ d leafName, Creating v c credentials path flags d leafName →
    if v.fs.HasRoom d ((v.fs.nodes d).disk.childCount + 1) then v.allocFile ≠ none
    else (v.fs.nodes d).disk.blockCount = 0 ∧ ∀ child, v.fs.freeInode = some child →
      Blank v.fs child

/-- A creation that found no room, in a directory without blocks, with a blank inode. -/
theorem NoTrace.of_given {fs₁ : Simplefs} {child : Nat} (hl : Live v.fs) (h : Looked v.fs fs₁)
    (hfree : v.fs.freeInode = some child) (hblank : Blank v.fs child) (n : RuntimeInode) :
    NoTrace v { v with fs := (fs₁.takeInode child n).giveInode child } := by
  obtain ⟨hself, hother⟩ := giveInode_takeInode_nodes fs₁ child n
  obtain ⟨hinodes, hblocks⟩ := giveInode_takeInode_bits h.toReread hfree n
  have hcore := node_core_of_core h.core
  refine ⟨hinodes, hblocks, congrArg Device.bytes h.dev, fun i => ?_, fun i hi => ?_,
    fun path x hx => giveInode_takeInode_children hl h.toReread hfree n hx, rfl⟩
  · show (((fs₁.takeInode child n).giveInode child).nodes i).vfs.refCount = _
    by_cases hic : i = child
    · rw [hic, hself, hblank.1]
      rfl
    · rw [hother i hic]
      exact congrArg (fun n => n.vfs.refCount) (hcore i)
  · show (((fs₁.takeInode child n).giveInode child).nodes i).core = _ ∧
      (((fs₁.takeInode child n).giveInode child).nodes i).name = _
    by_cases hic : i = child
    · rw [hic] at hi ⊢
      -- the inode was free, so it matters only if it is shown
      obtain ⟨hreset, hname⟩ := hblank.2 (hi.resolve_left fun hu => by
        rw [(freeInode_some hfree).2] at hu
        simp at hu)
      rw [hself, hreset, hname]
      exact ⟨rfl, rfl⟩
    · rw [hother i hic]
      exact ⟨hcore i, h.names i⟩

theorem createPath_eq {d : Nat} {leafName : List Byte}
    (hp : (treeOf v.fs).createParent path credentials = .ok (nodeId (.node d), leafName)) :
    v.createPath path flags credentials
      = match v.fs.createChild d false leafName fileMode (uidOf credentials)
        (gidOf credentials) with
        | (fs, none) => ({ v with fs }, none)
        | (fs, some i) =>
          { v with fs }.openInode (.entry (.node i)) flags (some ⟨credentials, inodeOf fs i⟩) := by
  unfold createPath createChild
  rw [hp]
  dsimp only
  rw [nodeOf_nodeId]
  dsimp only
  generalize v.fs.createChild d false leafName fileMode (uidOf credentials)
    (gidOf credentials) = made
  obtain ⟨fs, result⟩ := made
  cases result <;> rfl

/-- Creating fails without a trace, or its outcome is that of the room for the record and
of the entry of the file table. -/
theorem createPath_keeps_iff {d : Nat} {leafName : List Byte} (flags : Nat) (hl : Live v.fs)
    (hw : Working v.fs)
    (hp : (treeOf v.fs).createParent path credentials = .ok (nodeId (.node d), leafName)) :
    ((v.createPath path flags credentials).2 = none →
      NoTrace v (v.createPath path flags credentials).1) ↔
      (Adds v.fs d leafName ∧ v.fs.Readable d →
        if v.fs.HasRoom d ((v.fs.nodes d).disk.childCount + 1) then v.allocFile ≠ none
        else (v.fs.nodes d).disk.blockCount = 0 ∧
          ∀ child, v.fs.freeInode = some child → Blank v.fs child) := by
  obtain ⟨hdir, hs⟩ := createParent_settled hl hp (nodeOf_nodeId _)
  rw [createPath_eq hp]
  rcases createChild_ends hl hw hdir hs false leafName fileMode (uidOf credentials)
    (gidOf credentials) with
    ⟨hno, fs₁, heq, hlook⟩ | ⟨child, fs₁, hadds, hfree, hlook, hroom, hlost⟩
  · rw [heq]
    exact ⟨fun _ h => absurd h hno, fun _ _ => NoTrace.of_looked hl hlook⟩
  obtain ⟨-, hunused⟩ := freeInode_some hfree
  by_cases hr : v.fs.HasRoom d ((v.fs.nodes d).disk.childCount + 1)
  · obtain ⟨fs₂, heq, htaken⟩ := hroom hr
    rw [heq, if_pos hr]
    dsimp only
    unfold openInode
    have halloc : ({ v with fs := fs₂ } : VfsState).allocFile = v.allocFile := rfl
    rw [halloc]
    cases hf : v.allocFile with
    | some f => exact ⟨fun _ _ => by simp, by simp⟩
    | none =>
      -- the file stays: its inode is in use now
      refine ⟨fun h => ?_, fun h => absurd rfl (h hadds)⟩
      have hused : fs₂.inodeUsed child = v.fs.inodeUsed child := (h rfl).inodeUsed child
      rw [htaken.used, hunused] at hused
      simp at hused
  obtain ⟨fs₂, heq, hzero, hsame⟩ := hlost hr
  have hne : d ≠ child := by
    rintro rfl
    rw [(hl.used d (by rw [hdir]; simp)).2] at hunused
    simp at hunused
  have hself : (fs₂.giveInode child).nodes child = RuntimeInode.reset := modify_nodes_self ..
  rw [heq, if_neg hr]
  constructor
  · intro h _
    have hkept : NoTrace v { v with fs := fs₂.giveInode child } := h rfl
    refine ⟨?_, fun c hc => ?_⟩
    · have hcore := (hkept.inodes d (.inl (hl.used d (by rw [hdir]; simp)).2)).1
      have hdisk : ((fs₂.giveInode child).nodes d).disk = (v.fs.nodes d).disk :=
        (congrArg RuntimeInode.disk hcore :)
      rw [← hdisk, giveInode, modify_nodes_ne _ _ hne]
      exact hzero
    · obtain rfl := Option.some.inj (hfree.symm.trans hc)
      have hrefs : ((fs₂.giveInode child).nodes child).vfs.refCount
        = (v.fs.nodes child).vfs.refCount := hkept.references child
      refine ⟨by rw [← hrefs, hself]; rfl, fun hlisted => ?_⟩
      have hshown : ((fs₂.giveInode child).nodes child).core = _ ∧
        ((fs₂.giveInode child).nodes child).name = _ := hkept.inodes child (.inr hlisted)
      rw [hself] at hshown
      exact ⟨hshown.1.symm, hshown.2.symm⟩
  · intro h _
    obtain ⟨h0, hblank⟩ := h hadds
    rw [hsame h0]
    exact NoTrace.of_given hl hlook hfree (hblank child hfree) _

/-- What has just been created can be truncated. -/
theorem createPath_truncates {d : Nat} {leafName : List Byte} (hl : Live v.fs) (hw : Working v.fs)
    (hp : (treeOf v.fs).createParent path credentials = .ok (nodeId (.node d), leafName))
    (h : v.createPath path flags credentials = (v', some f)) : (v'.truncateFile f 0).2 = true := by
  obtain ⟨hdir, hs⟩ := createParent_settled hl hp (nodeOf_nodeId _)
  have hsteady := createChild_steady v.fs d false leafName fileMode (uidOf credentials)
    (gidOf credentials)
  rw [createPath_eq hp] at h
  rcases createChild_ends hl hw hdir hs false leafName fileMode (uidOf credentials)
    (gidOf credentials) with
    ⟨-, fs₁, heq, -⟩ | ⟨child, fs₁, hadds, -, -, hroom, hlost⟩
  · rw [heq] at h
    exact absurd (Prod.mk.inj h).2 (by simp)
  by_cases hr : v.fs.HasRoom d ((v.fs.nodes d).disk.childCount + 1)
  · obtain ⟨fs₂, heq, htaken⟩ := hroom hr
    rw [heq] at h hsteady
    obtain ⟨hopened, hdisk⟩ := openInode_fs h
    have hall : Steady v.fs v'.fs := Steady.trans hsteady hopened
    obtain ⟨hfile, -⟩ := openInode_files h
    by_contra hfails
    rcases (truncateFile_fails (hw.steady hall) (Bool.not_eq_true _ ▸ hfails)).2 child
      (by rw [hfile]) with
      hro | hkind
    · rw [hall.readOnly, hadds.1.writable] at hro
      simp at hro
    · rw [hdisk child] at hkind
      exact hkind htaken.kind
  · obtain ⟨fs₂, heq, -⟩ := hlost hr
    rw [heq] at h
    exact absurd (Prod.mk.inj h).2 (by simp)

/-- Once a file is open the call fails only if it cannot be truncated; it is then released. -/
theorem openFd_opened {credentials : Credentials} {fd : Nat}
    (hflags : ¬(flags &&& 3 = 0 ∨ flags ≥ 16)) (hfd : v.allocateFdSlot c = some fd)
    (ho : v.openOrCreate path flags (some credentials) = (v', some f)) :
    ((v.openFd c credentials path flags).2 = none → (v'.truncateFile f 0).2 = false) ∧
      ((v.openFd c credentials path flags).2 = none →
        (v.openFd c credentials path flags).1 = (v'.truncateFile f 0).1.releaseFile f) := by
  unfold openFd
  rw [if_neg hflags, hfd]
  rw [ho]
  dsimp only
  split
  · generalize v'.truncateFile f 0 = r
    obtain ⟨v₂, ok⟩ := r
    cases ok with
    | false => exact ⟨fun _ => rfl, fun _ => rfl⟩
    | true => exact ⟨by simp, by simp⟩
  · exact ⟨by simp, by simp⟩

theorem openFd_failed {credentials : Credentials} {fd : Nat}
    (hflags : ¬(flags &&& 3 = 0 ∨ flags ≥ 16)) (hfd : v.allocateFdSlot c = some fd)
    (ho : v.openOrCreate path flags (some credentials) = (v', none)) :
    v.openFd c credentials path flags = (v', none) := by
  unfold openFd
  rw [if_neg hflags, hfd]
  rw [ho]

/-- The condition speaks of the one directory and name that the path leads to. -/
theorem openKeeps_iff {credentials : Credentials} {path leafName : List Byte} {d : Nat}
    (hflags : ¬(flags &&& 3 = 0 ∨ flags ≥ 16)) (hcreate : flags &&& 4 ≠ 0)
    (hfd : v.allocateFdSlot c ≠ none)
    (hp : (treeOf v.fs).createParent path (some credentials) = .ok (nodeId (.node d), leafName)) :
    OpenKeeps v c credentials path flags ↔ (Adds v.fs d leafName ∧ v.fs.Readable d →
      if v.fs.HasRoom d ((v.fs.nodes d).disk.childCount + 1) then v.allocFile ≠ none
      else (v.fs.nodes d).disk.blockCount = 0 ∧
        ∀ child, v.fs.freeInode = some child → Blank v.fs child) := by
  refine ⟨fun h hadds => h d leafName ⟨fun h0 => hflags (Or.inl h0),
    Nat.not_le.mp fun h16 => hflags (Or.inr h16), hcreate, hfd, hp, hadds.1, hadds.2⟩,
    fun h d' leafName' hd => ?_⟩
  obtain ⟨hid, rfl⟩ := Prod.mk.inj (Except.ok.inj (hp.symm.trans hd.place))
  obtain rfl : d = d' := by
    have := congrArg nodeOf hid
    rw [nodeOf_nodeId, nodeOf_nodeId] at this
    exact NodeRef.node.inj this
  exact h ⟨hd.adds, hd.readable⟩

/-- **A failed open** leaves no trace exactly if `OpenKeeps` holds before it. -/
theorem openFd_keeps_iff (hl : Live v.fs) (hw : Working v.fs) (hv : Vacant v)
    (hc : FilesCounted trusted v held) (c : Nat) (credentials : Credentials) (path : List Byte)
    (flags : Nat) :
    ((v.openFd c credentials path flags).2 = none →
      NoTrace v (v.openFd c credentials path flags).1) ↔
      OpenKeeps v c credentials path flags := by
  -- where nothing is created there is nothing to show of the condition
  have hearly : v.openFd c credentials path flags = (v, none) →
      (∀ d leafName, ¬Creating v c credentials path flags d leafName) →
      (((v.openFd c credentials path flags).2 = none →
        NoTrace v (v.openFd c credentials path flags).1) ↔
        OpenKeeps v c credentials path flags) := by
    intro heq hno
    rw [heq]
    exact ⟨fun _ d leafName hd => absurd hd (hno d leafName), fun _ _ => NoTrace.refl v⟩
  by_cases hflags : flags &&& 3 = 0 ∨ flags ≥ 16
  · refine hearly ?_ fun d leafName hd => ?_
    · unfold openFd
      rw [if_pos hflags]
    · exact hflags.elim hd.access (Nat.not_le.mpr hd.known)
  cases hfd : v.allocateFdSlot c with
  | none =>
    refine hearly ?_ fun d leafName hd => hd.descriptor hfd
    unfold openFd
    rw [if_neg hflags, hfd]
  | some fd =>
    cases ho : v.openPath path (flags &&& 0xB) (some credentials) with
    | mk v₁ opened =>
      cases opened with
      | some f =>
        -- the file was there: if it cannot be truncated it is released
        have hfile : v.openOrCreate path flags (some credentials) = (v₁, some f) := by
          unfold openOrCreate
          rw [ho]
        obtain ⟨hfails, hstate⟩ := openFd_opened hflags hfd hfile
        unfold openPath at ho
        split at ho
        · exact absurd (Prod.mk.inj ho).2 (by simp)
        next id hid =>
        refine ⟨fun _ d leafName hd => ?_, fun _ hnone => ?_⟩
        · obtain ⟨⟨refusal, hrefusal⟩, -⟩ := createParent_ok hd.place
          unfold Tree.openPath at hid
          rw [hrefusal] at hid
          simp at hid
        · obtain ⟨hsteady, -⟩ := openInode_fs ho
          rw [hstate hnone, (truncateFile_fails (hw.steady hsteady) (hfails hnone)).1,
            releaseFile_openInode hv hc ho]
          exact NoTrace.refl v
      | none =>
        obtain rfl := openPath_none ho
        by_cases hcreate : flags &&& 4 = 0
        · refine hearly (openFd_failed hflags hfd ?_) fun d leafName hd => hd.create hcreate
          unfold openOrCreate
          rw [ho]
          exact if_pos hcreate
        have hgoes : v₁.openOrCreate path flags (some credentials)
            = v₁.createPath path (flags &&& 0xB) (some credentials) := by
          unfold openOrCreate
          rw [ho]
          exact if_neg hcreate
        cases hp : (treeOf v₁.fs).createParent path (some credentials) with
        | error refusal =>
          refine hearly (openFd_failed hflags hfd ?_) fun d leafName hd => ?_
          · rw [hgoes]
            unfold createPath
            rw [hp]
          · exact absurd (hp.symm.trans hd.place) (by simp)
        | ok place =>
          obtain ⟨parent, leafName⟩ := place
          obtain ⟨-, hkind, -⟩ := createParent_ok hp
          obtain ⟨d, rfl⟩ := parent_node hkind
          have hcreated := createPath_keeps_iff (flags &&& 0xB) hl hw hp
          rw [openKeeps_iff hflags hcreate (by rw [hfd]; simp) hp, ← hcreated]
          cases hmade : v₁.createPath path (flags &&& 0xB) (some credentials) with
          | mk v₂ made =>
            cases made with
            | none => rw [openFd_failed hflags hfd (hgoes.trans hmade)]
            | some f =>
              obtain ⟨hfails, -⟩ := openFd_opened hflags hfd (hgoes.trans hmade)
              refine ⟨by simp, fun _ h => ?_⟩
              rw [createPath_truncates hl hw hp hmade] at hfails
              exact absurd (hfails h) (by simp)

end VfsState

end Riverix.Vfs
