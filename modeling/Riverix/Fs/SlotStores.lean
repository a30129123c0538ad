import Riverix.Fs.Live
import Riverix.Fs.Rules

/-!
# Where new children are stored

`simplefs_create_child` stores the new child at `children[child_count]` after a check
of the number of records on the disk. Neither the window nor the number of slots in
use is checked, and a directory that could not be populated passes for one without
the name. Two histories lead to a store outside the window: the pool of 16 windows is
used up and a new directory has none, or `/dev` has its 30 records and the two device
nodes. **`guarded_run_stores_in_window`**: in every run whose steps avoid the two, all
stores go into a window of the pool and no two windows overlap.
-/

namespace Riverix.Fs

open Riverix.Lib

namespace Simplefs

variable {fs fs' : Simplefs} {d i k x : Nat}

/-! ## Paths lead to settled directories -/

/-- A directory with a slot is populated. -/
theorem Settled.populated (h : Settled fs d) (hk : k < (fs.nodes d).vfs.childCount) :
    (fs.nodes d).populated = true := by
  rcases h with hp | hp
  · exact hp
  · omega

theorem resolveFrom_settled (hw : Walk fs) (path : List Name) : ∀ ref : NodeRef,
    (∀ x, ref = .node x → (fs.nodes x).vfs.kind = .dir → Settled fs x) →
    fs.resolveFrom ref path = some (.node d) → (fs.nodes d).vfs.kind = .dir → Settled fs d := by
  induction path with
  | nil =>
    intro ref href hres
    rw [resolveFrom] at hres
    exact href d (Option.some.inj hres)
  | cons name path ih =>
    intro ref href hres
    cases ref with
    | node x =>
      rw [resolveFrom] at hres
      split at hres
      next hdir =>
        split at hres
        · simp at hres
        next k hk =>
        split at hres
        · simp at hres
        next ref' hat =>
        have hlt := childIndex_lt hk
        have hp := (href x rfl hdir).populated hlt
        refine ih ref' (fun c hc hcdir => ?_) hres
        rw [hc] at hat
        exact hw.closed x hp k hlt c hat hcdir
      · simp at hres
    | console => exact absurd hres (by simp [resolveFrom])
    | tty => exact absurd hres (by simp [resolveFrom])

theorem Live.resolve (hl : Live fs) {path : List Name} (h : fs.resolve path = some (.node d))
    (hdir : (fs.nodes d).vfs.kind = .dir) : Settled fs d := by
  refine resolveFrom_settled hl.walk path _ (fun x hx _ => ?_) h hdir
  obtain rfl := NodeRef.node.inj hx
  exact hl.root

/-! ## Creating -/

theorem Walk.logStore (h : Walk fs) (d : Nat) : Walk (fs.logStore d) :=
  ⟨⟨h.windows.children, h.windows.capacity, h.windows.below, h.windows.apart, h.windows.pool⟩,
    h.owned, h.count, h.closed, h.kinds⟩

/-- The new child gets its slot, in a populated directory with a slot to spare. -/
theorem Live.link (hl : Live fs) {n child : Nat} (hp : (fs.nodes d).populated = true)
    (hcount : (fs.nodes d).vfs.childCount < 32) (hn : (fs.nodes d).disk.childCount = n)
    (hchild : Settled fs child)
    (ht : fs'.tree = (fs.recordCount d (n + 1)).tree) : Live (fs'.linkChild d child) := by
  have hself : (fs.recordCount d (n + 1)).nodes d = { fs.nodes d with
      disk := { (fs.nodes d).disk with childCount := n + 1, size := (n + 1) * 32 }
      vfs := { (fs.nodes d).vfs with size := (n + 1) * 32 } } := modify_nodes_self fs d _
  have hother : ∀ x, x ≠ d → (fs.recordCount d (n + 1)).nodes x = fs.nodes x := fun x hx =>
    modify_nodes_ne fs _ hx
  obtain ⟨s, a, b, v, hd⟩ := node_of_tree ht d
  rw [hself] at hd
  have hset : ∀ x, Settled fs x → Settled fs' x := by
    intro x hx
    refine settled_of_tree ht ?_
    unfold Settled
    by_cases hxd : x = d
    · rw [hxd, hself]
      exact Or.inl hp
    · rw [hother x hxd]
      exact hx
  have hw : Walk fs' := (hl.walk.recordCount hp (n + 1)).of_tree ht
  have hp' : (fs'.nodes d).populated = true := by rw [hd]; exact hp
  have hcount' : (fs'.nodes d).vfs.childCount < 32 := by rw [hd]; exact hcount
  have hsb : fs'.sb = fs.sb := congrArg Tree.sb ht
  obtain ⟨base, hbase⟩ := Option.ne_none_iff_exists'.mp (hw.owned d hp')
  have hroot : Settled fs' fs'.sb.rootInode := by
    rw [hsb]
    exact hset _ hl.root
  refine live_append (hw.logStore d) (fun x hx => ?_) ?_ hroot (fun i hi => ?_) (fun st hst => ?_)
    (appendChild_spec (hw.logStore d).windows (hw.owned d hp') hcount' _) hp' hcount'
    fun c hc _ => ?_
  · obtain ⟨s, a, b, v, hxn⟩ := node_of_tree ht x
    rw [hother x hx] at hxn
    show (fs'.nodes x).Orderly
    rw [hxn]
    exact ⟨(hl.orderly x).counted, (hl.orderly x).bare⟩
  · show (fs'.nodes d).disk.childCount ≤ (fs'.nodes d).vfs.childCount + 1
    rw [hd]
    have := (hl.orderly d).counted hp
    show n + 1 ≤ (fs.nodes d).vfs.childCount + 1
    omega
  · have hkind : (fs'.nodes i).vfs.kind = (fs.nodes i).vfs.kind := by
      obtain ⟨s, a, b, v, hin⟩ := node_of_tree ht i
      rw [hin]
      by_cases hid : i = d
      · rw [hid, hself]
      · rw [hother i hid]
    have hi' : (fs'.nodes i).vfs.kind ≠ .none := hi
    rw [hkind] at hi'
    show i < fs'.sb.inodeCount ∧ fs'.inodeBitmap.test i = true
    rw [hsb, show fs'.inodeBitmap = fs.inodeBitmap from congrArg Tree.inodeBitmap ht]
    exact hl.used i hi'
  · have hlog : (fs'.linkChild d child).stores = (fs'.logStore d).stores := setSlots_stores _ d _
    have hst : st ∈ (fs'.logStore d).stores := hlog ▸ hst
    rcases List.mem_cons.mp hst with rfl | hold
    · have hcap := hw.windows.capacity d base hbase
      refine ⟨base, (hw.windows.children d).trans hbase, ?_, hcap, ?_⟩
      · exact le_trans (hw.windows.below d base hbase) hw.windows.pool
      · show (fs'.nodes d).vfs.childCount < (fs'.nodes d).vfs.childCapacity
        rw [hcap]
        exact hcount'
    · rw [show fs'.stores = fs.stores from congrArg Tree.stores ht] at hold
      exact hl.stores st hold
  · obtain rfl := NodeRef.node.inj hc
    exact hset _ hchild

theorem Live.onDevice (hd : OnDevice fs fs') (hl : Live fs) : Live fs' := hl.of_tree hd.tree

/-- A child with this name would be added to the directory, if the blocks for its
record can be had. -/
structure Adds (fs : Simplefs) (d : Nat) (name : List Byte) : Prop where
  writable : fs.dev.readOnly = false
  name_fits : name.length ≠ 0 ∧ name.length ≤ 28
  new : fs.childIndex d name = none
  records : (fs.nodes d).disk.childCount < 32
  inode : fs.freeInode ≠ none

/-- The directory has a window or there is one left, and a slot of it is free. -/
structure HasSlot (fs : Simplefs) (d : Nat) : Prop where
  window : (fs.nodes d).dirSlotBase ≠ none ∨ fs.nextDirEntrySlot + 32 ≤ 512
  slot : (fs.nodes d).vfs.childCount < 32

theorem createChild_live (hl : Live fs) (hd : (fs.nodes d).vfs.kind = .dir) (hs : Settled fs d)
    {name : List Byte} (hroom : Adds fs d name → HasSlot fs d) (isDir : Bool) (mode uid gid : Nat) :
    Live (fs.createChild d isDir name mode uid gid).1 := by
  have hk := hl.walk.kinds d hd
  obtain ⟨hv, hdone⟩ := populate_visit hl.walk d
  refine createChild_rule Live.onDevice hl (hl.populate d)
    fun fs₁ entries child fs₂ ok had hl₁ hwrite => ?_
  have hnew : fs.childIndex d name = none := by
    rcases hs with hp | hp
    · -- the search was over the same slots
      have hfound := had.found
      unfold findChild at hfound
      rw [populate_done hk hp] at hfound
      exact (Prod.mk.inj hfound).2
    · unfold childIndex
      rw [hp.2]
      rfl
  obtain ⟨hwindow, hslot⟩ := hroom
    ⟨had.writable, had.name_fits, hnew, had.room, by rw [had.unused.2.2]; simp⟩
  have hp := hdone (populate_settled hk hs hwindow)
  have hcount : ((fs.populate d).1.nodes d).vfs.childCount < 32 := by
    rcases hv.counted d hp with hq | hq
    · rw [(hv.kept d (Or.inl hq)).vfs]
      exact hslot
    · rw [← hq, disk_of_core hv.core]
      exact had.room
  obtain ⟨s, a, b, v, hn⟩ := node_of_tree had.onDevice.tree d
  obtain ⟨hchild, hunused⟩ := freeInode_some had.free
  have hne : child ≠ d := by
    rintro rfl
    rw [(hl₁.used child (by rw [kind_of_core had.core, hd]; simp)).2] at hunused
    simp at hunused
  have hl₂ := hl₁.takeInode (newChild_fresh isDir name mode uid gid) hchild
  have hnd : (fs₁.takeInode child (newChild isDir name mode uid gid)).nodes d = fs₁.nodes d :=
    modify_nodes_ne _ _ (Ne.symm hne)
  have hnc : (fs₁.takeInode child (newChild isDir name mode uid gid)).nodes child
    = newChild isDir name mode uid gid := modify_nodes_self ..
  generalize fs₁.takeInode child (newChild isDir name mode uid gid) = fs₃ at hl₂ hnd hnc hwrite
  have ht := writeDirEntries_tree fs₃ d (addEntry entries (fs.nodes d).disk.childCount child name)
    ((fs.nodes d).disk.childCount + 1)
  rw [hwrite] at ht
  cases ok with
  | false => exact (hl₂.of_tree ht).giveInode child
  | true =>
    refine hl₂.link ?_ ?_ ?_ (Or.inr ?_) ht
    · rw [hnd, hn]
      exact hp
    · rw [hnd, hn]
      exact hcount
    · rw [hnd, disk_of_core had.core]
    · rw [hnc]
      exact ⟨rfl, rfl⟩

/-! ## Removing -/

theorem dropChild_live (hl : Live fs) (hp : (fs.nodes d).populated = true) {child : Nat}
    (hc : (fs.nodes child).vfs.kind = .dir → (fs.nodes child).populated = true) (k : Nat)
    (entries : Store) : Live (fs.dropChild d child k entries).1 := by
  have hl₁ := hl.emptyChild hc
  have hp₁ : ((fs.emptyChild child).nodes d).populated = true := by
    by_cases hdc : d = child
    · rw [hdc, emptyChild_nodes_self]
      rw [hdc] at hp
      exact hp
    · rw [emptyChild_nodes_ne fs hdc]
      exact hp
  have hl₂ : Live (fs.unslotted d child k) := by
    unfold unslotted
    dsimp only
    split
    · exact hl₁.dropSlot hp₁ ((hl₁.orderly d).counted hp₁) k
    · exact hl₁
  refine dropChild_rule Live.onDevice (fun records count fs₁ hw => ?_)
    fun records count fs₁ hne hsome _ hcount hle hw => ?_
  · have ht := writeDirEntries_tree (fs.unslotted d child k) d records count
    rw [hw] at ht
    exact hl₂.of_tree ht
  have ht := writeDirEntries_tree (fs.unslotted d child k) d records count
  rw [hw] at ht
  have ht : fs₁.tree = ((fs.unslotted d child k).recordCount d count).tree := ht
  have hnode : (fs.unslotted d child k).nodes d = fs.nodes d := by
    rw [unslotted_nodes, emptyChild_nodes_ne fs hne.symm]
  have hrec := (hl.orderly d).counted hp
  have h32 := hl.walk.count d hp
  have hl₃ : Live fs₁ :=
    (hl₂.recordCount (by rw [hnode]; exact hp) (by rw [hnode]; omega)).of_tree ht
  obtain ⟨s, a, b, v, hd⟩ := node_of_tree ht d
  have hself : ((fs.unslotted d child k).recordCount d count).nodes d = _ :=
    modify_nodes_self (fs.unslotted d child k) d _
  rw [hself, hnode] at hd
  refine Live.giveInode (hl₃.decrementCount (by rw [hd]; exact hp) ?_) child
  rw [hd]
  show count ≤ (fs.nodes d).vfs.childCount - 1
  omega

theorem removeChild_live (hl : Live fs) (name : List Byte) : Live (fs.removeChild d name).1 := by
  refine removeChild_cases (P := fun a => Live a ∧ (a.nodes d).populated = true)
    (Q := fun r => Live r.1) (fun {a} n h => ?_) (fun x _ h => ⟨h.1.populate x, ?_⟩)
      (fun _ h => h.1)
    (fun _ => hl) (fun fs₁ ok he => ?_) fun a entries k h _ _ hdir => ?_
  · have hd := readDirEntries_onDevice a d n
    refine ⟨h.1.onDevice hd, ?_⟩
    obtain ⟨s, a, b, v, hn⟩ := node_of_tree hd.tree d
    rw [hn]
    exact h.2
  · rw [((populate_visit h.1.walk x).1.kept d (Or.inl h.2)).populated]
    exact h.2
  · have hpop := hl.populate d
    obtain ⟨-, hdone⟩ := populate_visit hl.walk d
    rw [he] at hpop hdone
    cases ok with
    | false => exact fun _ => hpop
    | true => exact ⟨hpop, hdone rfl⟩
  · refine dropChild_live h.1 h.2 (fun hkind => ?_) k entries
    obtain ⟨b, hb, he⟩ := hdir (h.1.walk.kinds _ hkind)
    have hdone := (populate_visit hb.1.walk (entryInode entries k)).2
    rw [he] at hdone
    exact hdone rfl

/-! ## Runs -/

theorem mount_live {dev : Device} {amb : Ambient} (h : mount dev amb = some fs) : Live fs := by
  obtain ⟨dev', sb, table, inodeBits, blockBits, hpop⟩ := mount_populated h
  have hbare := @loaded_bare dev' amb sb table inodeBits blockBits
  have hkind := @loaded_kind dev' amb sb table inodeBits blockBits
  have hsb : (loaded dev' amb sb table inodeBits blockBits).sb = sb := rfl
  have hnext : (loaded dev' amb sb table inodeBits blockBits).nextDirEntrySlot = 0 := rfl
  have hlog : (loaded dev' amb sb table inodeBits blockBits).stores = [] := rfl
  generalize loaded dev' amb sb table inodeBits blockBits = fs₀ at hpop hbare hkind hsb hnext hlog
  obtain ⟨hv, hdone⟩ := populate_visit (walk_of_bare hbare hnext) sb.rootInode
  have hstores := populate_stores fs₀ sb.rootInode
  rw [hpop] at hv hdone hstores
  have hsb' : fs.sb = sb := (congrArg Core.sb hv.core).trans hsb
  refine ⟨hv.walk, fun x => ⟨fun hp => ?_, fun _ hb => ?_⟩, ?_, fun i hi => ?_, ?_⟩
  · rcases hv.counted x hp with hq | hq
    · rw [(hbare x).1] at hq
      simp at hq
    · exact Nat.le_of_eq hq
  · rcases hv.bare x hb with hq | hq
    · exact absurd (hbare x).2.1 hq
    · exact hq
  · rw [hsb']
    exact Or.inl (hdone rfl)
  · rw [kind_of_core hv.core] at hi
    rw [hsb', inodeUsed, show fs.inodeBitmap = fs₀.inodeBitmap from congrArg
      Core.inodeBitmap hv.core]
    exact hkind hi
  · rw [show fs.stores = fs₀.stores from hstores, hlog]
    exact fun st hst => absurd hst (by simp)

/-- A device node is attached only to a populated directory with a slot to spare. -/
theorem attachDevices_live (hl : Live fs) (h : fs.attachDevices = some fs') : Live fs' := by
  refine (attachDevices_rule
    (P := fun d a => Live a ∧ ((a.nodes d).vfs.kind = .dir → Settled a d)) h
    (fun d hres => ⟨hl, hl.resolve hres⟩) fun d a ref ⟨ha, hs⟩ ⟨hdir, hwindow, hcount⟩ href =>
      ?_).elim fun _ hd => hd.1
  rw [ha.walk.windows.children] at hwindow
  have hp : (a.nodes d).populated = true := by
    rcases hs hdir with hp | hp
    · exact hp
    · rcases (ha.orderly d).bare hdir hwindow with hq | hq
      · exact hq
      · exact absurd hp.1 hq
  obtain ⟨base, hbase⟩ := Option.ne_none_iff_exists'.mp hwindow
  rw [ha.walk.windows.capacity d base hbase] at hcount
  have hrec := (ha.orderly d).counted hp
  have happ := appendChild_spec ha.walk.windows hwindow hcount ref
  have hstores : (a.appendChild d ref).stores = a.stores := setSlots_stores a d _
  refine ⟨live_append ha.walk (fun x _ => ha.orderly x) (by omega) ha.root ha.used ?_ happ hp hcount
    fun c hc => absurd hc (href c), fun _ => Or.inl ?_⟩
  · rw [hstores]
    exact ha.stores
  · rw [happ.populated]
    exact hp

end Simplefs

/-- What happens to a mounted tree: an operation, or the end of `vfs_init`. -/
inductive VfsOp
  | tree (e : Event)
  | attach

namespace Simplefs

variable {fs fs' : Simplefs} {d i k x : Nat}

/-- Without `/dev` nothing is attached, and there is no root to work on. -/
def perform (fs : Simplefs) : VfsOp → Simplefs
  | .tree e => fs.step e
  | .attach => fs.attachDevices.getD fs

/-- A create that adds a child finds a slot for it. -/
def FindsSlot (fs : Simplefs) : VfsOp → Prop
  | .tree (.create dir name _ _ _ _) =>
    ∀ d, fs.resolveDir dir = some d → Adds fs d name → HasSlot fs d
  | _ => True

theorem perform_live (fs : Simplefs) (op : VfsOp) (hl : Live fs) (hop : FindsSlot fs op) :
    Live (fs.perform op) := by
  cases op with
  | attach =>
    unfold perform
    cases hatt : fs.attachDevices with
    | none => exact hl
    | some fs' => exact attachDevices_live hl hatt
  | tree e =>
    rw [perform]
    cases e with
    | create dir name isDir mode uid gid =>
      rw [step]
      split
      next d hd =>
        obtain ⟨hres, hdir⟩ := resolveDir_some hd
        exact createChild_live hl hdir (hl.resolve hres hdir) (hop d hd) ..
      · exact hl
    | remove dir name =>
      rw [step]
      split
      next d hd => exact removeChild_live hl _
      · exact hl
    | write file offset buffer =>
      rw [step]
      split
      next i hi => exact hl.of_tree (regularWrite_aside ..).tree
      · exact hl
    | resize file size =>
      rw [step]
      split
      next i hi => exact hl.of_tree (resizeNode_aside ..).tree
      · exact hl

theorem step_steady (fs : Simplefs) (e : Event) : Steady fs (fs.step e) := by
  cases e with
  | create dir name isDir mode uid gid =>
    rw [step]
    split
    · exact createChild_steady ..
    · exact Steady.refl fs
  | remove dir name =>
    rw [step]
    split
    · exact removeChild_steady ..
    · exact Steady.refl fs
  | write file offset buffer =>
    rw [step]
    split
    · exact (regularWrite_aside ..).steady
    · exact Steady.refl fs
  | resize file size =>
    rw [step]
    split
    · exact (resizeNode_aside ..).steady
    · exact Steady.refl fs

theorem perform_steady (fs : Simplefs) (op : VfsOp) : Steady fs (fs.perform op) := by
  cases op with
  | tree e => exact step_steady fs e
  | attach =>
    unfold perform
    cases h : fs.attachDevices with
    | none => exact Steady.refl fs
    | some fs' => exact attachDevices_steady h

/-- Every new child so far was stored below the end of its directory's window, and
the windows lie in the pool and do not overlap. -/
structure StoresInWindow (fs : Simplefs) : Prop where
  stores : ∀ st ∈ fs.stores, st.InWindow
  inside : ∀ i b, (fs.nodes i).vfs.children = some b → b + 32 ≤ 512
  apart : ∀ i j b c, i ≠ j → (fs.nodes i).vfs.children = some b →
    (fs.nodes j).vfs.children = some c → b + 32 ≤ c ∨ c + 32 ≤ b

/-- **Slot windows are not overrun.** In every run from a mount whose creates find a slot
and whose extents stay inside the block bitmap, whatever else the image says and the device
does, every store of a new child goes into a window and the windows stay apart. -/
theorem guarded_run_stores_in_window {dev : Device} {amb : Ambient} {fs₀ : Simplefs}
    (hm : mount dev amb = some fs₀) {ops : List VfsOp}
    (hops : Guarded perform (fun fs op => fs.Bounded ∧ FindsSlot fs op) fs₀ ops) :
    StoresInWindow (run perform fs₀ ops) := by
  have hl := guarded_invariant perform_live ops (mount_live hm) (hops.mono fun _ _ => And.right)
  have hw := hl.walk.windows
  refine ⟨hl.stores, fun i b hb => ?_, fun i j b c hij hb hc => ?_⟩
  · rw [hw.children] at hb
    exact le_trans (hw.below i b hb) hw.pool
  · rw [hw.children] at hb hc
    exact hw.apart i j b c hij hb hc

/-- A file is made in the root of the small image before the devices are attached. -/
theorem guarded_run_stores_in_window_sample :
    StoresInWindow (run perform sampleFs
      [.tree (.create [] ⟨[0x61], by decide⟩ false 0 0 0), .attach]) := by
  refine guarded_run_stores_in_window sampleFs_mounted
    ⟨⟨by decide +kernel, fun d hd _ => ?_⟩, ⟨by decide +kernel, trivial⟩, trivial⟩
  have hroot : sampleFs.resolveDir [] = some 0 := by decide +kernel
  obtain rfl : 0 = d := Option.some.inj (hroot.symm.trans hd)
  exact ⟨Or.inl (by decide +kernel), by decide +kernel⟩

/-! ### The two ways out of the window -/

/-- An image whose root has fifteen empty directories, `a` to `o`: mounting it takes
all sixteen windows. -/
def fullDevice : Device where
  blockCount := 16
  readOnly := false
  faults := []
  bytes a :=
    if a < 512 then
      encodeSuperblock { sampleSuperblock with
        inodeCount := 20
        inodeTableBlocks := 2
        inodeBitmapStart := 3
        blockBitmapStart := 4
        dataBlockStart := 5 } a
    else if a < 1536 then
      encodeTable (fun i =>
        if i = 0 then { DiskInode.zero with
          kind := kindDir, size := 480, dataBlock := 5, blockCount := 1, childCount := 15 }
        else if i ≤ 15 then { DiskInode.zero with kind := kindDir }
        else .zero) (a - 512)
    else if a = 1536 ∨ a = 1537 then 0xFF
    else if a = 2048 then 0x3F
    else if 2560 ≤ a ∧ a < 3040 then
      if a % 32 = 0 then BitVec.ofNat 8 ((a - 2560) / 32 + 1)
      else if a % 32 = 4 then BitVec.ofNat 8 ((a - 2560) / 32 + 0x61)
      else 0
    else 0

/-- An image whose `/dev` has thirty records. -/
def crowdedDevice : Device where
  blockCount := 16
  readOnly := false
  faults := []
  bytes a :=
    if 512 ≤ a ∧ a < 1024 then
      encodeTable (fun i =>
        if i = 1 then { DiskInode.zero with
          kind := kindDir, size := 960, dataBlock := 5, blockCount := 2, childCount := 30 }
        else if i = 2 then { DiskInode.zero with kind := kindFile }
        else sampleTable i) (a - 512)
    else if a = 1024 then 0x07
    else if a = 1536 then 0x7F
    else if 2560 ≤ a ∧ a < 3520 then
      if a % 32 = 0 then 2
      else if a % 32 = 4 then BitVec.ofNat 8 ((a - 2560) / 32 + 0x30)
      else 0
    else sampleBytes a

def fullFs : Simplefs := (mount fullDevice sampleAmbient).get (by decide +kernel)

def crowdedFs : Simplefs := (mount crowdedDevice sampleAmbient).get (by decide +kernel)

/-- `mkdir /p` and a file in it, when every window is taken: the file goes to slot 0
of no window. And a file in `/dev`, when its window is full: it goes to slot 32. -/
theorem createChild_stores_outside_window :
    ¬StoresInWindow (run perform fullFs
      [.tree (.create [] ⟨[0x70], by decide⟩ true 0 0 0),
        .tree (.create [⟨[0x70], by decide⟩] ⟨[0x78], by decide⟩ false 0 0 0)]) ∧
    ¬StoresInWindow (run perform crowdedFs
      [.attach, .tree (.create [devName] ⟨[0x78], by decide⟩ false 0 0 0)]) := by
  constructor
  · intro h
    have hlog : ⟨16, none, 0, 0⟩ ∈ (run perform fullFs
        [.tree (.create [] ⟨[0x70], by decide⟩ true 0 0 0),
          .tree (.create [⟨[0x70], by decide⟩] ⟨[0x78], by decide⟩ false 0 0 0)]).stores := by
      decide +kernel
    obtain ⟨base, hbase, -⟩ := h.stores _ hlog
    simp at hbase
  · intro h
    have hlog : ⟨1, some 32, 32, 32⟩ ∈ (run perform crowdedFs
        [.attach, .tree (.create [devName] ⟨[0x78], by decide⟩ false 0 0 0)]).stores := by
      decide +kernel
    obtain ⟨-, -, -, -, hlt⟩ := h.stores _ hlog
    simp at hlt

end Simplefs

end Riverix.Fs
