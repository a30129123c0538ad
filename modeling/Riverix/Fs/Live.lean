import Riverix.Fs.Walk

/-!
# The live tree

`Live` is the walk's invariant between operations: every directory a path leads to
is populated or still empty, so no operation walks further than the directory it
works on, and every slot store so far went into a window. It is a property of the
tree alone. This file has one lemma for each change that `simplefs_create_child` and
`simplefs_remove_child` make to the tree.
-/

namespace Riverix.Fs

open Riverix.Lib

/-- The store went below the end of a window of the pool. -/
def SlotStore.InWindow (st : SlotStore) : Prop :=
  ∃ base, st.window = some base ∧ base + 32 ≤ 512 ∧ st.capacity = 32 ∧ st.index < st.capacity

/-- A populated directory has a slot for each of its records, and one that is not
populated has a window only if it has records. -/
structure RuntimeInode.Orderly (n : RuntimeInode) : Prop where
  counted : n.populated = true → n.disk.childCount ≤ n.vfs.childCount
  bare : n.vfs.kind = .dir → n.dirSlotBase ≠ none → n.populated = true ∨ n.disk.childCount ≠ 0

/-- An inode that was just taken or given back. -/
structure RuntimeInode.Fresh (n : RuntimeInode) : Prop where
  populated : n.populated = false
  records : n.disk.childCount = 0
  count : n.vfs.childCount = 0
  base : n.dirSlotBase = none
  children : n.vfs.children = none
  kinds : n.vfs.kind = .dir → n.disk.kind = kindDir

theorem RuntimeInode.Fresh.orderly {n : RuntimeInode} (h : n.Fresh) : n.Orderly :=
  ⟨fun hp => absurd (h.populated.symm.trans hp) (by simp), fun _ hb => absurd h.base hb⟩

theorem RuntimeInode.reset_fresh : RuntimeInode.reset.Fresh :=
  ⟨rfl, rfl, rfl, rfl, rfl, fun h => absurd h (by decide)⟩

theorem newChild_fresh (isDir : Bool) (name : List Byte) (mode uid gid : Nat) :
    (Simplefs.newChild isDir name mode uid gid).Fresh := by
  refine ⟨rfl, rfl, rfl, rfl, rfl, fun h => ?_⟩
  cases isDir with
  | true => rfl
  | false => exact absurd h (by simp [Simplefs.newChild])

namespace Simplefs

variable {fs fs' : Simplefs} {d i k x : Nat}

/-- The invariant between operations. -/
structure Live (fs : Simplefs) : Prop where
  walk : Walk fs
  orderly : ∀ x, (fs.nodes x).Orderly
  root : Settled fs fs.sb.rootInode
  used : ∀ i, (fs.nodes i).vfs.kind ≠ .none → i < fs.sb.inodeCount ∧ fs.inodeUsed i = true
  stores : ∀ st ∈ fs.stores, st.InWindow

/-! ## Changes that the tree does not show -/

theorem childAt_of_tree (h : fs'.tree = fs.tree) (x k : Nat) : fs'.childAt x k = fs.childAt x k :=
  childAt_congr fs fs' (congrArg (fun t => (t.nodes x).vfs.children) h)
    (congrArg Tree.dirEntries h) (congrArg Tree.nullEntries h) k

theorem settled_of_tree (h : fs'.tree = fs.tree) (hx : Settled fs x) : Settled fs' x := by
  obtain ⟨s, a, b, v, hn⟩ := node_of_tree h x
  unfold Settled
  rw [hn]
  exact hx

theorem Walk.of_tree (hw : Walk fs) (h : fs'.tree = fs.tree) : Walk fs' := by
  have hwin : ∀ i, fs'.window i = fs.window i := by
    intro i
    obtain ⟨s, a, b, v, hn⟩ := node_of_tree h i
    unfold window
    rw [hn]
  refine ⟨hw.windows.same hwin (congrArg Tree.nextDirEntrySlot h), fun x hx => ?_, fun x hx => ?_,
    fun x hx k hk c hc hdir => ?_, fun x hx => ?_⟩
  · obtain ⟨s, a, b, v, hn⟩ := node_of_tree h x
    rw [hn] at hx ⊢
    exact hw.owned x hx
  · obtain ⟨s, a, b, v, hn⟩ := node_of_tree h x
    rw [hn] at hx ⊢
    exact hw.count x hx
  · obtain ⟨s, a, b, v, hn⟩ := node_of_tree h x
    obtain ⟨s', a', b', v', hn'⟩ := node_of_tree h c
    rw [hn] at hx hk
    rw [hn'] at hdir
    rw [childAt_of_tree h] at hc
    exact settled_of_tree h (hw.closed x hx k hk c hc hdir)
  · obtain ⟨s, a, b, v, hn⟩ := node_of_tree h x
    rw [hn] at hx ⊢
    exact hw.kinds x hx

theorem Live.of_tree (hl : Live fs) (h : fs'.tree = fs.tree) : Live fs' := by
  have hsb : fs'.sb = fs.sb := congrArg Tree.sb h
  refine ⟨hl.walk.of_tree h, fun x => ?_, ?_, fun i hi => ?_, ?_⟩
  · obtain ⟨s, a, b, v, hn⟩ := node_of_tree h x
    rw [hn]
    exact ⟨(hl.orderly x).counted, (hl.orderly x).bare⟩
  · rw [hsb]
    exact settled_of_tree h hl.root
  · obtain ⟨s, a, b, v, hn⟩ := node_of_tree h i
    rw [hn] at hi
    rw [hsb, inodeUsed, show fs'.inodeBitmap = fs.inodeBitmap from congrArg Tree.inodeBitmap h]
    exact hl.used i hi
  · rw [show fs'.stores = fs.stores from congrArg Tree.stores h]
    exact hl.stores

/-! ## Populating -/

theorem populate_stores (fs : Simplefs) (d : Nat) : (fs.populate d).1.stores = fs.stores := by
  refine populateDirectory_rel (R := fun fs fs' => fs'.stores = fs.stores) (fun _ => rfl)
    (fun h h' => h'.trans h) (fun fs d count => ?_) (fun fs d => ?_) (fun fs d => ?_)
    (fun fs d child name => ?_) (fun _ _ => rfl) populateDepth [] fs d
  · obtain ⟨dev, -, -, h⟩ := readDirEntries_shape fs d count
    rw [h]
  · unfold allocDirSlots
    split
    · rfl
    · split <;> rfl
  · exact setSlots_stores fs d _
  · exact setSlots_stores _ d _

theorem Live.populate (hl : Live fs) (d : Nat) : Live (fs.populate d).1 := by
  obtain ⟨hv, -⟩ := populate_visit hl.walk d
  have hstores := populate_stores fs d
  generalize (fs.populate d).1 = fs' at hv hstores
  have hsb : fs'.sb = fs.sb := congrArg Core.sb hv.core
  refine ⟨hv.walk, fun x => ⟨fun hp => ?_, fun hk hb => ?_⟩, ?_, fun i hi => ?_, ?_⟩
  · rcases hv.counted x hp with hq | hq
    · have hkx := hv.kept x (Or.inl hq)
      rw [hkx.disk, hkx.vfs]
      exact (hl.orderly x).counted hq
    · exact Nat.le_of_eq hq
  · rcases hv.bare x hb with hq | hq
    · rw [kind_of_core hv.core] at hk
      rcases (hl.orderly x).bare hk hq with hr | hr
      · exact Or.inl (by rw [(hv.kept x (Or.inl hr)).populated]; exact hr)
      · exact Or.inr (by rw [disk_of_core hv.core]; exact hr)
    · exact hq
  · rw [hsb]
    exact hv.settled _ hl.root
  · rw [kind_of_core hv.core] at hi
    rw [hsb, inodeUsed, show fs'.inodeBitmap = fs.inodeBitmap from congrArg
      Core.inodeBitmap hv.core]
    exact hl.used i hi
  · rw [hstores]
    exact hl.stores

/-! ## Changes of one inode -/

/-- A change of one inode that keeps its window, its slots and its kinds, and leaves
it settled if it was. -/
theorem Walk.modify (hw : Walk fs) {f : RuntimeInode → RuntimeInode} {n : RuntimeInode}
    (hn : f (fs.nodes i) = n)
    (hbase : n.dirSlotBase = (fs.nodes i).dirSlotBase)
    (hchildren : n.vfs.children = (fs.nodes i).vfs.children)
    (hcapacity : n.vfs.childCapacity = (fs.nodes i).vfs.childCapacity)
    (hpop : n.populated = (fs.nodes i).populated)
    (hcount : n.vfs.childCount ≤ (fs.nodes i).vfs.childCount)
    (hkind : n.vfs.kind = (fs.nodes i).vfs.kind) (hdisk : n.disk.kind = (fs.nodes i).disk.kind)
    (hset : Settled fs i → n.populated = true ∨ n.disk.childCount = 0 ∧ n.vfs.childCount = 0) :
    Walk (fs.modify i f) := by
  obtain ⟨fs', hfs'⟩ : ∃ fs', fs' = fs.modify i f := ⟨_, rfl⟩
  have hself : fs'.nodes i = n := by rw [hfs', modify_nodes_self, hn]
  have hne : ∀ {x}, x ≠ i → fs'.nodes x = fs.nodes x :=
    fun hx => by rw [hfs', modify_nodes_ne _ _ hx]
  have hsettled : ∀ x, Settled fs x → Settled fs' x := by
    intro x hx
    unfold Settled
    by_cases hxi : x = i
    · rw [hxi] at hx ⊢
      rw [hself]
      exact hset hx
    · rw [hne hxi]
      exact hx
  have hfields : ∀ x, fs'.window x = fs.window x ∧
      (fs'.nodes x).populated = (fs.nodes x).populated ∧
      (fs'.nodes x).vfs.childCount ≤ (fs.nodes x).vfs.childCount ∧
      (fs'.nodes x).vfs.kind = (fs.nodes x).vfs.kind ∧
      (fs'.nodes x).disk.kind = (fs.nodes x).disk.kind := by
    intro x
    unfold window
    by_cases hxi : x = i
    · rw [hxi, hself, hbase, hchildren, hcapacity]
      exact ⟨rfl, hpop, hcount, hkind, hdisk⟩
    · rw [hne hxi]
      exact ⟨rfl, rfl, le_rfl, rfl, rfl⟩
  rw [← hfs']
  refine ⟨hw.windows.same (fun x => (hfields x).1) (by rw [hfs']; rfl), fun x hx => ?_,
    fun x hx => ?_, fun x hx k hk c hc hdir => ?_, fun x hx => ?_⟩ <;> obtain ⟨hwin, hp, hcnt, hkd,
      hdk⟩ := hfields x
  · rw [hp] at hx
    rw [(window_inj hwin).1]
    exact hw.owned x hx
  · rw [hp] at hx
    exact le_trans hcnt (hw.count x hx)
  · rw [hp] at hx
    rw [childAt_congr fs fs' (window_inj hwin).2.1 (by rw [hfs']; rfl) (by rw [hfs']; rfl)] at hc
    rw [(hfields c).2.2.2.1] at hdir
    exact hsettled c (hw.closed x hx k (by omega) c hc hdir)
  · rw [hkd] at hx
    rw [hdk]
    exact hw.kinds x hx

/-- An inode is taken or given back. -/
theorem Walk.replace (hw : Walk fs) {n : RuntimeInode} (hn : n.Fresh) (bitmap : Bitmap 8) :
    Walk ({ fs with inodeBitmap := bitmap }.modify i fun _ => n) ∧
      ∀ x, Settled fs x → Settled ({ fs with inodeBitmap := bitmap }.modify i fun _ => n) x := by
  obtain ⟨fs', hfs'⟩ : ∃ fs', fs' = { fs with inodeBitmap := bitmap }.modify i fun _ => n :=
    ⟨_, rfl⟩
  have hself : fs'.nodes i = n := by rw [hfs', modify_nodes_self]
  have hne : ∀ {x}, x ≠ i → fs'.nodes x = fs.nodes x := fun hx => by
    rw [hfs', modify_nodes_ne _ _ hx]
  have hsettled : ∀ x, Settled fs x → Settled fs' x := by
    intro x hx
    unfold Settled
    by_cases hxi : x = i
    · rw [hxi, hself]
      exact Or.inr ⟨hn.records, hn.count⟩
    · rw [hne hxi]
      exact hx
  have hpop : ∀ {x}, (fs'.nodes x).populated = true → x ≠ i := by
    rintro x hx rfl
    rw [hself, hn.populated] at hx
    simp at hx
  rw [← hfs']
  refine ⟨⟨hw.windows.congr (fun x => ?_) (by rw [hfs']; rfl), fun x hx => ?_, fun x hx => ?_,
    fun x hx k hk c hc hdir => ?_, fun x hx => ?_⟩, hsettled⟩
  · by_cases hxi : x = i
    · rw [hxi, hself]
      exact Or.inr ⟨hn.base, hn.children⟩
    · refine Or.inl ?_
      unfold window
      rw [hne hxi]
  · have hxi := hpop hx
    rw [hne hxi] at hx ⊢
    exact hw.owned x hx
  · have hxi := hpop hx
    rw [hne hxi] at hx ⊢
    exact hw.count x hx
  · have hxi := hpop hx
    rw [childAt_congr fs fs' (by rw [hne hxi]) (by rw [hfs']; rfl) (by rw [hfs']; rfl)] at hc
    rw [hne hxi] at hx hk
    by_cases hci : c = i
    · rw [hci]
      exact Or.inr (by rw [hself]; exact ⟨hn.records, hn.count⟩)
    · rw [hne hci] at hdir
      exact hsettled c (hw.closed x hx k hk c hc hdir)
  · by_cases hxi : x = i
    · rw [hxi, hself] at hx ⊢
      exact hn.kinds hx
    · rw [hne hxi] at hx ⊢
      exact hw.kinds x hx

theorem Live.replace (hl : Live fs) {n : RuntimeInode} (hn : n.Fresh) (bitmap : Bitmap 8)
    (hused : ∀ j, j ≠ i → fs.inodeUsed j = true → bitmap.test j = true)
    (hi : n.vfs.kind ≠ .none → i < fs.sb.inodeCount ∧ bitmap.test i = true) :
    Live ({ fs with inodeBitmap := bitmap }.modify i fun _ => n) := by
  obtain ⟨hw, hset⟩ := hl.walk.replace (i := i) hn bitmap
  refine ⟨hw, fun x => ?_, hset _ hl.root, fun j hj => ?_, hl.stores⟩
  · by_cases hxi : x = i
    · rw [hxi, modify_nodes_self]
      exact hn.orderly
    · rw [modify_nodes_ne _ _ hxi]
      exact hl.orderly x
  · by_cases hji : j = i
    · rw [hji, modify_nodes_self] at hj
      rw [hji]
      exact hi hj
    · rw [modify_nodes_ne _ _ hji] at hj
      exact ⟨(hl.used j hj).1, hused j hji (hl.used j hj).2⟩

theorem Live.takeInode (hl : Live fs) {n : RuntimeInode} (hn : n.Fresh)
    (hi : i < fs.sb.inodeCount) :
    Live (fs.takeInode i n) := by
  refine hl.replace hn _ (fun j hj hu => ?_) fun _ => ⟨hi, ?_⟩
  · rw [Bitmap.test_mark (by omega), Bool.or_eq_true]
    exact Or.inr hu
  · rw [Bitmap.test_mark (by omega)]
    simp

theorem Live.giveInode (hl : Live fs) (i : Nat) : Live (fs.giveInode i) := by
  refine hl.replace RuntimeInode.reset_fresh _ (fun j hj hu => ?_) fun hk => absurd rfl hk
  rw [Bitmap.test_clear (by omega)]
  simp only [hj, decide_false, Bool.not_false, Bool.true_and]
  exact hu

/-- A change of one inode of a live tree. -/
theorem Live.modify (hl : Live fs) {f : RuntimeInode → RuntimeInode} (hw : Walk (fs.modify i f))
    (hkind : (f (fs.nodes i)).vfs.kind = (fs.nodes i).vfs.kind)
    (hset : Settled fs i → Settled (fs.modify i f) i) (ho : (f (fs.nodes i)).Orderly) :
    Live (fs.modify i f) := by
  refine ⟨hw, fun x => ?_, ?_, fun j hj => ?_, hl.stores⟩
  · by_cases hxi : x = i
    · rw [hxi, modify_nodes_self]
      exact ho
    · rw [modify_nodes_ne _ _ hxi]
      exact hl.orderly x
  · show Settled _ fs.sb.rootInode
    by_cases hxi : fs.sb.rootInode = i
    · have := hl.root
      rw [hxi] at this ⊢
      exact hset this
    · unfold Settled
      rw [modify_nodes_ne _ _ hxi]
      exact hl.root
  · refine hl.used j ?_
    by_cases hji : j = i
    · rw [hji, modify_nodes_self, hkind] at hj
      rw [hji]
      exact hj
    · rw [modify_nodes_ne _ _ hji] at hj
      exact hj

theorem Walk.recordCount (hw : Walk fs) (hp : (fs.nodes d).populated = true) (n : Nat) :
    Walk (fs.recordCount d n) := by
  refine hw.modify rfl rfl rfl rfl rfl le_rfl rfl rfl fun _ => Or.inl ?_
  exact hp

theorem Live.recordCount (hl : Live fs) (hp : (fs.nodes d).populated = true) {n : Nat}
    (hn : n ≤ (fs.nodes d).vfs.childCount) : Live (fs.recordCount d n) := by
  refine hl.modify (hl.walk.recordCount hp n) rfl (fun _ => Or.inl ?_) ⟨fun _ => hn,
    fun _ _ => Or.inl hp⟩
  rw [modify_nodes_self]
  exact hp

theorem Live.decrementCount (hl : Live fs) (hp : (fs.nodes d).populated = true)
    (hn : (fs.nodes d).disk.childCount ≤ (fs.nodes d).vfs.childCount - 1) :
    Live (fs.decrementCount d) := by
  unfold Simplefs.decrementCount modifyVfs
  refine hl.modify (hl.walk.modify rfl rfl rfl rfl rfl (Nat.sub_le _ _) rfl rfl fun _ => Or.inl hp)
    rfl (fun _ => Or.inl ?_) ⟨fun _ => hn, fun _ _ => Or.inl hp⟩
  rw [modify_nodes_self]
  exact hp

/-- A child loses its records; a directory is populated by then. -/
theorem Live.emptyChild (hl : Live fs) {child : Nat}
    (hc : (fs.nodes child).vfs.kind = .dir → (fs.nodes child).populated = true) :
    Live (fs.emptyChild child) := by
  have htree := (releaseExtent_aside fs child).tree
  have hl' := hl.of_tree htree
  obtain ⟨s, a, b, v, hn⟩ := node_of_tree htree child
  unfold Simplefs.emptyChild
  generalize fs.releaseExtent child = fs₁ at hl' hn
  have hc' : (fs₁.nodes child).vfs.kind = .dir → (fs₁.nodes child).populated = true := by
    rw [hn]
    exact hc
  refine hl'.modify (hl'.walk.modify rfl rfl rfl rfl rfl le_rfl rfl rfl ?_) rfl ?_
    ⟨fun _ => Nat.zero_le _, fun hk _ => Or.inl (hc' hk)⟩
  · rintro (hp | hp)
    · exact Or.inl hp
    · exact Or.inr ⟨rfl, hp.2⟩
  · unfold Settled
    rw [modify_nodes_self]
    rintro (hp | hp)
    · exact Or.inl hp
    · exact Or.inr ⟨rfl, hp.2⟩

/-! ## Changes of slots -/

/-- The slots of a populated directory are changed among themselves. -/
theorem Live.setSlots (hl : Live fs) (hp : (fs.nodes d).populated = true)
    {g : (Nat → Option NodeRef) → Nat → Option NodeRef} (hg : Local g)
    (hslots : ∀ k < (fs.nodes d).vfs.childCount, ∀ c, g (fs.childAt d) k = some (.node c) →
      ∃ j < (fs.nodes d).vfs.childCount, fs.childAt d j = some (.node c)) :
    Live (fs.setSlots d g) := by
  have hn : (fs.setSlots d g).nodes = fs.nodes := setSlots_nodes fs d g
  have hcore : (fs.setSlots d g).core = fs.core := setSlots_core fs d g
  have hset : ∀ x, Settled fs x → Settled (fs.setSlots d g) x := fun x hx => by
    unfold Settled
    rw [hn]
    exact hx
  have hw : Walk (fs.setSlots d g) := by
    refine ⟨hl.walk.windows.same (fun i => ?_) (setSlots_next fs d g), ?_, ?_,
      fun x hx k hk c hc hdir => ?_, ?_⟩
    · unfold window
      rw [hn]
    · rw [hn]
      exact hl.walk.owned
    · rw [hn]
      exact hl.walk.count
    · rw [hn] at hx hk hdir
      by_cases hxd : x = d
      · rw [hxd] at hk hc
        rw [childAt_setSlots_self] at hc
        obtain ⟨j, hj, hc'⟩ := hslots k hk c hc
        exact hset c (hl.walk.closed d hp j hj c hc' hdir)
      · have := hl.walk.count x hx
        rw [hl.walk.windows.childAt_setSlots_ne hg (hl.walk.owned d hp) hxd (by omega)] at hc
        exact hset c (hl.walk.closed x hx k hk c hc hdir)
    · rw [hn]
      exact hl.walk.kinds
  have hsb : (fs.setSlots d g).sb = fs.sb := congrArg Core.sb hcore
  refine ⟨hw, by rw [hn]; exact hl.orderly, ?_, fun i hi => ?_, ?_⟩
  · rw [hsb]
    exact hset _ hl.root
  · rw [hn] at hi
    rw [hsb, inodeUsed,
      show (fs.setSlots d g).inodeBitmap = fs.inodeBitmap from congrArg Core.inodeBitmap hcore]
    exact hl.used i hi
  · rw [setSlots_stores]
    exact hl.stores

/-- A slot is taken out by the number of records. -/
theorem Live.dropSlot (hl : Live fs) (hp : (fs.nodes d).populated = true) {n : Nat}
    (hn : n ≤ (fs.nodes d).vfs.childCount) (k : Nat) :
    Live (fs.setSlots d (dropSlot k n)) := by
  have h32 := hl.walk.count d hp
  refine hl.setSlots hp (fun slots j hj => ?_) fun j hj c hc => ?_
  · unfold Simplefs.dropSlot
    rw [if_neg (by omega), if_neg (by omega)]
  · unfold Simplefs.dropSlot at hc
    split at hc
    next h => exact ⟨j + 1, by omega, hc⟩
    next =>
      split at hc
      · simp at hc
      · exact ⟨j, hj, hc⟩

theorem Walk.append (hw : Walk fs) {ref : NodeRef} (happ : Appended fs fs' d ref)
    (hp : (fs.nodes d).populated = true) (hc : (fs.nodes d).vfs.childCount < 32)
    (href : ∀ c, ref = .node c → (fs.nodes c).vfs.kind = .dir → Settled fs c) :
    Walk fs' ∧ ∀ x, Settled fs x → Settled fs' x := by
  have hpop : ∀ x, (fs'.nodes x).populated = (fs.nodes x).populated := by
    intro x
    by_cases hx : x = d
    · rw [hx, happ.populated]
    · exact (happ.kept x hx).populated
  have hset : ∀ x, Settled fs x → Settled fs' x := by
    intro x hx
    by_cases hxd : x = d
    · rw [hxd]
      exact Or.inl (by rw [hpop]; exact hp)
    · exact (happ.kept x hxd).settled hx
  refine ⟨⟨happ.windows, fun x hx => ?_, fun x hx => ?_, fun x hx k hk c hat hdir => ?_,
    fun x hx => ?_⟩, hset⟩
  · rw [hpop] at hx
    by_cases hxd : x = d
    · rw [hxd, happ.owned]
      exact hw.owned d hp
    · rw [(happ.kept x hxd).base]
      exact hw.owned x hx
  · rw [hpop] at hx
    by_cases hxd : x = d
    · rw [hxd, happ.count]
      omega
    · rw [(happ.kept x hxd).vfs]
      exact hw.count x hx
  · rw [hpop] at hx
    rw [kind_of_core happ.core] at hdir
    refine hset c ?_
    by_cases hxd : x = d
    · rw [hxd] at hk hat
      rw [happ.count] at hk
      rw [happ.slots] at hat
      split at hat
      · exact href c (Option.some.inj hat) hdir
      next hne => exact hw.closed d hp k (by omega) c hat hdir
    · have := hw.count x hx
      rw [(happ.kept x hxd).vfs] at hk
      rw [(happ.kept x hxd).2 k (by omega)] at hat
      exact hw.closed x hx k hk c hat hdir
  · rw [kind_of_core happ.core] at hx
    rw [disk_of_core happ.core]
    exact hw.kinds x hx

/-- A populated directory gets one more slot; it may have one record more than slots
before. -/
theorem live_append (hw : Walk fs) (ho : ∀ x, x ≠ d → (fs.nodes x).Orderly)
    (hrec : (fs.nodes d).disk.childCount ≤ (fs.nodes d).vfs.childCount + 1)
    (hroot : Settled fs fs.sb.rootInode)
    (hused : ∀ i, (fs.nodes i).vfs.kind ≠ .none → i < fs.sb.inodeCount ∧ fs.inodeUsed i = true)
    (hstores : ∀ st ∈ fs'.stores, st.InWindow) {ref : NodeRef} (happ : Appended fs fs' d ref)
    (hp : (fs.nodes d).populated = true) (hc : (fs.nodes d).vfs.childCount < 32)
    (href : ∀ c, ref = .node c → (fs.nodes c).vfs.kind = .dir → Settled fs c) : Live fs' := by
  obtain ⟨hw', hset⟩ := hw.append happ hp hc href
  have hsb : fs'.sb = fs.sb := congrArg Core.sb happ.core
  refine ⟨hw', fun x => ?_, ?_, fun i hi => ?_, hstores⟩
  · by_cases hxd : x = d
    · rw [hxd]
      refine ⟨fun _ => ?_, fun _ _ => Or.inl (by rw [happ.populated]; exact hp)⟩
      rw [disk_of_core happ.core, happ.count]
      exact hrec
    · obtain ⟨⟨name, hn⟩, -⟩ := happ.kept x hxd
      rw [hn]
      exact ⟨(ho x hxd).counted, (ho x hxd).bare⟩
  · rw [hsb]
    exact hset _ hroot
  · rw [kind_of_core happ.core] at hi
    rw [hsb, inodeUsed,
      show fs'.inodeBitmap = fs.inodeBitmap from congrArg Core.inodeBitmap happ.core]
    exact hused i hi

end Simplefs

end Riverix.Fs
