import Riverix.Fs.ExtentOps
import Riverix.Fs.Rules

/-!
# The books of the file system

The *books* are what the file system keeps in memory about blocks: the two bitmaps and the
disk records. No request to the device touches them, so what a function does to them does
not depend on which requests fail. Creating and removing an entry keep the books in order
whatever the device does: **`createChild_ledger`** and **`removeChild_ledger`**.

In order means that a bit is set exactly if the block belongs to the metadata or to one inode
in use, and to that one only. Between taking an extent and storing it in the record the two
disagree, so the lemmas are about the pairs of such steps: releasing an extent and taking
another one, taking an inode and giving it back.
-/

namespace Riverix.Fs

open Riverix.Lib

/-- The allocation state in memory. -/
structure Books where
  sb : Superblock
  inodeBitmap : Bitmap 8
  blockBitmap : Bitmap 8
  disk : Nat → DiskInode

namespace Simplefs

variable {fs fs' fs'' : Simplefs} {i d child start count : Nat} {strict : Prop}

def books (fs : Simplefs) : Books where
  sb := fs.sb
  inodeBitmap := fs.inodeBitmap
  blockBitmap := fs.blockBitmap
  disk j := (fs.nodes j).disk

theorem OnDevice.books (h : OnDevice fs fs') : fs'.books = fs.books := by
  obtain ⟨_, _, rfl⟩ := h.eq
  rfl

theorem books_of_core (h : fs'.core = fs.core) : fs'.books = fs.books :=
  congrArg (fun c : Core => (⟨c.sb, c.inodeBitmap, c.blockBitmap,
    fun j => (c.nodes j).disk⟩ : Books)) h

theorem disk_of_books (h : fs'.books = fs.books) (j : Nat) :
    (fs'.nodes j).disk = (fs.nodes j).disk := congrArg (fun b => b.disk j) h

theorem used_of_books (h : fs'.books = fs.books) (j : Nat) : fs'.inodeUsed j = fs.inodeUsed j :=
  congrArg (fun b => b.inodeBitmap.test j) h

/-- Every file fits in its extent. -/
def FilesFit (fs : Simplefs) : Prop :=
  ∀ i < fs.sb.inodeCount, fs.inodeUsed i = true → (fs.nodes i).disk.kind = kindFile →
    (fs.nodes i).disk.size ≤ 512 * (fs.nodes i).disk.blockCount

/-- The same inodes own the same blocks. -/
theorem owns_congr (hsb : fs'.sb = fs.sb) (hbits : fs'.inodeBitmap = fs.inodeBitmap)
    (hdata : ∀ j, (fs'.nodes j).disk.dataBlock = (fs.nodes j).disk.dataBlock)
    (hcount : ∀ j, (fs'.nodes j).disk.blockCount = (fs.nodes j).disk.blockCount) (i b : Nat) :
    Owns fs' i b ↔ Owns fs i b := by
  unfold Owns inodeUsed
  rw [hsb, hbits, hdata, hcount]

/-- A change of one inode that keeps its extent. -/
theorem owns_modify {f : RuntimeInode → RuntimeInode}
    (hdata : (f (fs.nodes i)).disk.dataBlock = (fs.nodes i).disk.dataBlock)
    (hcount : (f (fs.nodes i)).disk.blockCount = (fs.nodes i).disk.blockCount) :
    ∀ j b, Owns (fs.modify i f) j b ↔ Owns fs j b :=
  owns_congr rfl rfl (congrFun (modify_keeps (fun n => n.disk.dataBlock) hdata))
    (congrFun (modify_keeps (fun n => n.disk.blockCount) hcount))

theorem Exact.of_books (he : Exact fs) (h : fs'.books = fs.books) : Exact fs' :=
  he.congr (congrArg Books.sb h) (congrArg Books.blockBitmap h)
    (owns_congr (congrArg Books.sb h) (congrArg Books.inodeBitmap h)
      (fun j => by rw [disk_of_books h]) fun j => by rw [disk_of_books h])

/-- The block bitmap is exact and, where `strict` asks for it, every file fits in its
extent. -/
structure Ledger (strict : Prop) (fs : Simplefs) : Prop where
  exact : Exact fs
  fit : strict → FilesFit fs

theorem Ledger.of_books (h : fs'.books = fs.books) (hl : Ledger strict fs) : Ledger strict fs' := by
  refine ⟨hl.exact.of_books h, fun hs i hi hu hk => ?_⟩
  rw [show fs'.sb = fs.sb from congrArg Books.sb h] at hi
  rw [used_of_books h] at hu
  rw [disk_of_books h] at hk ⊢
  exact hl.fit hs i hi hu hk

theorem Ledger.onDevice (h : OnDevice fs fs') (hl : Ledger strict fs) : Ledger strict fs' :=
  hl.of_books h.books

theorem Ledger.of_core (h : fs'.core = fs.core) (hl : Ledger strict fs) : Ledger strict fs' :=
  hl.of_books (books_of_core h)

/-! ## One inode with another extent -/

theorem modifyDisk_books (h : fs'.books = fs.books) (i : Nat) (f : DiskInode → DiskInode) :
    (fs'.modifyDisk i f).books = (fs.modifyDisk i f).books := by
  have hdisk : ∀ g : Simplefs, (fun j => ((g.modifyDisk i f).nodes j).disk)
      = Function.update (fun j => (g.nodes j).disk) i (f (g.nodes i).disk) := by
    intro g
    funext j
    by_cases hj : j = i
    · subst hj
      rw [modifyDisk, modify_nodes_self, Function.update_self]
    · rw [modifyDisk, modify_nodes_ne _ _ hj, Function.update_of_ne hj]
  have hbooks : ∀ g : Simplefs, (g.modifyDisk i f).books
      = { g.books with disk := Function.update g.books.disk i (f (g.books.disk i)) } := fun g =>
    congrArg (fun disk => (⟨g.sb, g.inodeBitmap, g.blockBitmap, disk⟩ : Books)) (hdisk g)
  rw [hbooks, hbooks, h]

/-- The books after inode `i` got the extent `[start, start + count)`, and they balance. -/
structure Placed (fs fs' : Simplefs) (i start count : Nat) : Prop where
  books : ∃ bm, fs'.books = (fs.withExtent i fs.dev.bytes bm start count).books
  exact : Exact fs'

theorem Extended.placed (h : Extended fs fs' i start count) : Placed fs fs' i start count := by
  obtain ⟨bytes, bm, rfl⟩ := h.eq
  exact ⟨⟨bm, rfl⟩, h.exact⟩

theorem Placed.refl (he : Exact fs) (i : Nat) :
    Placed fs fs i (fs.nodes i).disk.dataBlock (fs.nodes i).disk.blockCount :=
  (Extended.refl he i).placed

/-- The device may go on as it likes. -/
theorem Placed.device (h : Placed fs fs' i start count) (hb : fs''.books = fs'.books) :
    Placed fs fs'' i start count := by
  obtain ⟨bm, hbm⟩ := h.books
  exact ⟨⟨bm, hb.trans hbm⟩, h.exact.of_books hb⟩

theorem Placed.sb (h : Placed fs fs' i start count) : fs'.sb = fs.sb := by
  obtain ⟨bm, hbm⟩ := h.books
  exact congrArg Books.sb hbm

theorem Placed.used (h : Placed fs fs' i start count) (j : Nat) :
    fs'.inodeUsed j = fs.inodeUsed j := by
  obtain ⟨bm, hbm⟩ := h.books
  exact used_of_books hbm j

theorem Placed.disk_self (h : Placed fs fs' i start count) :
    (fs'.nodes i).disk = { (fs.nodes i).disk with dataBlock := start, blockCount := count } := by
  obtain ⟨bm, hbm⟩ := h.books
  rw [disk_of_books hbm, withExtent_disk_self]

theorem Placed.disk_ne (h : Placed fs fs' i start count) {j : Nat} (hj : j ≠ i) :
    (fs'.nodes j).disk = (fs.nodes j).disk := by
  obtain ⟨bm, hbm⟩ := h.books
  rw [disk_of_books hbm, withExtent_nodes_ne _ _ _ _ _ hj]

/-- Two changes of the same extent in a row. -/
theorem Placed.trans {start' count' : Nat} (h : Placed fs fs' i start count)
    (h' : Placed fs' fs'' i start' count') : Placed fs fs'' i start' count' := by
  obtain ⟨bm, hbm⟩ := h.books
  obtain ⟨bm', hbm'⟩ := h'.books
  refine ⟨⟨bm', ?_⟩, h'.exact⟩
  have hnext : (fs'.withExtent i fs'.dev.bytes bm' start' count').books
      = ((fs.withExtent i fs.dev.bytes bm start count).withExtent i fs.dev.bytes bm' start'
          count').books :=
    congrArg (fun b : Books => { b with blockBitmap := bm' })
      (modifyDisk_books hbm i fun n => { n with dataBlock := start', blockCount := count' })
  rw [hbm', hnext, withExtent_withExtent]

theorem Placed.release (h : Placed fs fs' i start count) (hi : i < fs.sb.inodeCount)
    (hu : fs.inodeUsed i = true) : Placed fs (fs'.releaseExtent i) i 0 0 := by
  refine h.trans (releaseExtent_spec h.exact ?_ ?_).placed
  · rw [h.sb]
    exact hi
  · rw [h.used]
    exact hu

/-! ## Directories -/

/-- `simplefs_write_dir_entries`: whatever the device does, the directory owns what is
marked, and no other inode is touched. -/
theorem fitDirectory_placed (he : Exact fs) (hd : d < fs.sb.inodeCount) (hu : fs.inodeUsed d = true)
    (required : Nat) : ∃ start count, Placed fs (fs.fitDirectory d required).1 d start count := by
  obtain ⟨start₀, hrel⟩ := released_spec he hd hu
  unfold fitDirectory
  split
  · exact ⟨start₀, 0, hrel.placed⟩
  next h0 =>
  split
  · exact ⟨_, _, Placed.refl he d⟩
  unfold allocateExtent
  rw [if_neg h0]
  have hd₀ : d < (fs.released d).sb.inodeCount := by rw [hrel.sb]; exact hd
  have hu₀ : (fs.released d).inodeUsed d = true := by
    rw [inodeUsed, hrel.inodeBitmap]
    exact hu
  have hcount₀ : ((fs.released d).nodes d).disk.blockCount = 0 := by rw [hrel.disk_self]
  cases hfind : (fs.released d).findExtent required with
  | none => exact ⟨start₀, 0, hrel.placed⟩
  | some start =>
    have hext := hrel.trans (claim_spec hrel.exact hd₀ hu₀ hcount₀ (findExtent_some hfind))
    have hzero := (zeroExtent_onDevice (((fs.released d).markExtent start required).modifyDisk d
      fun n => { n with dataBlock := start, blockCount := required }) start
      (List.range required)).books
    dsimp only
    split
    next heq =>
      rw [heq] at hzero
      exact ⟨0, 0, Placed.release (hext.placed.device hzero) hd hu⟩
    next heq =>
      rw [heq] at hzero
      exact ⟨start, required, hext.placed.device hzero⟩

/-- Only inode `d` has moved, and the books balance. -/
structure Balanced (strict : Prop) (d : Nat) (fs fs' : Simplefs) : Prop where
  ledger : Ledger strict fs'
  sb : fs'.sb = fs.sb
  bits : fs'.inodeBitmap = fs.inodeBitmap
  others : ∀ j, j ≠ d → (fs'.nodes j).disk = (fs.nodes j).disk

theorem Placed.balanced (h : Placed fs fs' d start count) (hl : Ledger strict fs)
    (hk : (fs.nodes d).disk.kind = kindDir) : Balanced strict d fs fs' := by
  obtain ⟨bm, hbm⟩ := h.books
  refine ⟨⟨h.exact, fun hs j hj hu hf => ?_⟩, h.sb, congrArg Books.inodeBitmap hbm,
    fun j hj => h.disk_ne hj⟩
  rw [h.sb] at hj
  rw [h.used] at hu
  by_cases hjd : j = d
  · rw [hjd, h.disk_self, hk] at hf
    exact absurd hf (by decide)
  · rw [h.disk_ne hjd] at hf ⊢
    exact hl.fit hs j hj hu hf

/-- A change of one inode that keeps its extent, and leaves no larger file. -/
theorem Ledger.modify (hl : Ledger strict fs) {f : RuntimeInode → RuntimeInode}
    (hdata : (f (fs.nodes i)).disk.dataBlock = (fs.nodes i).disk.dataBlock)
    (hcount : (f (fs.nodes i)).disk.blockCount = (fs.nodes i).disk.blockCount)
    (hfit : strict → i < fs.sb.inodeCount → fs.inodeUsed i = true →
      (f (fs.nodes i)).disk.kind = kindFile →
      (f (fs.nodes i)).disk.size ≤ 512 * (fs.nodes i).disk.blockCount) :
    Ledger strict (fs.modify i f) := by
  refine ⟨hl.exact.congr rfl rfl (owns_modify hdata hcount), fun hs j hj hu hk => ?_⟩
  by_cases hji : j = i
  · subst hji
    rw [modify_nodes_self] at hk ⊢
    rw [hcount]
    exact hfit hs hj hu hk
  · rw [modify_nodes_ne _ _ hji] at hk ⊢
    exact hl.fit hs j hj hu hk

/-- The new number of records. -/
theorem Placed.record (h : Placed fs fs' d start count) (hl : Ledger strict fs)
    (hk : (fs.nodes d).disk.kind = kindDir) (n : Nat) :
    Balanced strict d fs (fs'.recordCount d n) := by
  have hs := h.balanced hl hk
  refine ⟨hs.ledger.modify rfl rfl fun _ _ _ hf => ?_, hs.sb, hs.bits, fun j hj => ?_⟩
  · have hf : (fs'.nodes d).disk.kind = kindFile := hf
    rw [h.disk_self, hk] at hf
    exact absurd hf (by decide)
  · rw [← hs.others j hj, recordCount, modify_nodes_ne _ _ hj]

theorem writeDirEntries_balanced (hl : Ledger strict fs) (hd : d < fs.sb.inodeCount)
    (hu : fs.inodeUsed d = true) (entries : Store) (n : Nat) :
    Balanced strict d fs (fs.writeDirEntries d entries n).1 := by
  unfold writeDirEntries
  split
  · exact ⟨hl, rfl, rfl, fun _ _ => rfl⟩
  next hgo =>
  have hk : (fs.nodes d).disk.kind = kindDir := not_not.mp fun hk => hgo (.inr (.inl hk))
  obtain ⟨start, count, hp⟩ := fitDirectory_placed hl.exact hd hu (dirRequiredBlocks n)
  split
  next heq =>
    rw [heq] at hp
    exact hp.balanced hl hk
  next fs₁ heq =>
  rw [heq] at hp
  unfold storeDirectory
  dsimp only
  split
  · exact hp.record hl hk n
  have hwrite := hp.device (writeBlocks_onDevice fs₁ (fs₁.nodes d).disk.dataBlock
    (dirRequiredBlocks n) entries).books
  split
  next heq =>
    rw [heq] at hwrite
    exact (hwrite.release hd hu).balanced hl hk
  next heq =>
    rw [heq] at hwrite
    exact hwrite.record hl hk n

/-! ## Creating -/

/-- Another inode in place of one that owns nothing, and that owns nothing itself. -/
theorem Ledger.replace (hl : Ledger strict fs) {bits : Bitmap 8} {n : RuntimeInode}
    (hbits : ∀ j, j ≠ child → bits.test j = fs.inodeBitmap.test j)
    (hold : fs.inodeUsed child = false ∨ (fs.nodes child).disk.blockCount = 0)
    (hn : n.disk.blockCount = 0) (hsize : n.disk.size = 0) :
    Ledger strict (({ fs with inodeBitmap := bits } : Simplefs).modify child fun _ => n) := by
  refine ⟨hl.exact.congr rfl rfl fun j b => ?_, fun hs j hj hu hk => ?_⟩
  · unfold Owns
    by_cases hj : j = child
    · subst hj
      rw [modify_nodes_self, hn]
      refine ⟨fun hc => by omega, fun hc => ?_⟩
      rcases hold with hfree | hnone
      · rw [hfree] at hc
        exact absurd hc.2.1 (by simp)
      · omega
    · rw [modify_nodes_ne _ _ hj]
      show _ ∧ bits.test j = true ∧ _ ↔ _
      rw [hbits j hj]
      exact Iff.rfl
  · by_cases hjc : j = child
    · subst hjc
      rw [modify_nodes_self, hsize]
      exact Nat.zero_le _
    · rw [modify_nodes_ne _ _ hjc] at hk ⊢
      refine hl.fit hs j hj ?_ hk
      rw [← show bits.test j = fs.inodeUsed j from hbits j hjc]
      exact hu

/-- A free inode is taken, without blocks. -/
theorem takeInode_ledger (hl : Ledger strict fs) (hfree : fs.inodeUsed child = false)
    {n : RuntimeInode} (hn : n.disk.blockCount = 0) (hsize : n.disk.size = 0) :
    Ledger strict (fs.takeInode child n) := by
  refine hl.replace (fun j hj => ?_) (.inl hfree) hn hsize
  rw [Bitmap.test_mark (by omega)]
  simp [hj]

/-- An inode without blocks is given back. -/
theorem giveInode_ledger (hl : Ledger strict fs) (hn : (fs.nodes child).disk.blockCount = 0) :
    Ledger strict (fs.giveInode child) := by
  refine hl.replace (fun j hj => ?_) (.inr hn) rfl rfl
  rw [Bitmap.test_clear (by omega)]
  simp [hj]

theorem linkChild_core (fs : Simplefs) (d child : Nat) : (fs.linkChild d child).core = fs.core := by
  unfold linkChild
  rw [appendChild_core]
  rfl

theorem createChild_ledger (hl : Ledger strict fs) (hd : d < fs.sb.inodeCount)
    (hu : fs.inodeUsed d = true) (isDir : Bool) (name : List Byte) (mode uid gid : Nat) :
    Ledger strict (fs.createChild d isDir name mode uid gid).1 := by
  refine createChild_rule Ledger.onDevice hl (hl.of_core (populate_core fs d))
    fun fs₁ entries child fs₂ ok had hl₁ hwrite => ?_
  obtain ⟨hd₁, hu₁⟩ := used_of_core had.core hd hu
  have hfree := (freeInode_some had.free).2
  have hne : child ≠ d := by
    rintro rfl
    rw [hu₁] at hfree
    simp at hfree
  have hu₂ : (fs₁.takeInode child (newChild isDir name mode uid gid)).inodeUsed d = true := by
    show (fs₁.inodeBitmap.mark child).test d = true
    rw [Bitmap.test_mark (by omega), Bool.or_eq_true]
    exact .inr hu₁
  have htake := takeInode_ledger hl₁ hfree (n := newChild isDir name mode uid gid) rfl rfl
  have hset := writeDirEntries_balanced htake hd₁ hu₂
    (addEntry entries (fs.nodes d).disk.childCount child name) ((fs.nodes d).disk.childCount + 1)
  rw [hwrite] at hset
  cases ok with
  | false =>
    refine giveInode_ledger hset.ledger ?_
    rw [hset.others child hne, takeInode, modify_nodes_self]
    rfl
  | true => exact hset.ledger.of_core (linkChild_core fs₂ d child)

/-! ## Removing -/

theorem decrementCount_core (fs : Simplefs) (d : Nat) : (fs.decrementCount d).core = fs.core :=
  modify_core rfl

theorem emptyChild_ledger (hl : Ledger strict fs) (hlt : child < fs.sb.inodeCount)
    (hu : fs.inodeUsed child = true) : Ledger strict (fs.emptyChild child) := by
  have hp := (releaseExtent_spec hl.exact hlt hu).placed
  refine ⟨hp.exact.congr rfl rfl (owns_modify rfl rfl), fun hs j hj hju hjk => ?_⟩
  by_cases hjc : j = child
  · rw [hjc, emptyChild_nodes_self]
    exact Nat.zero_le _
  · rw [emptyChild_nodes_ne fs hjc] at hjk ⊢
    exact hl.fit hs j (hp.sb ▸ hj) ((hp.used j).symm.trans hju) hjk

theorem dropChild_ledger (hl : Ledger strict fs) (hd : d < fs.sb.inodeCount)
    (hu : fs.inodeUsed d = true) (hlt : child < fs.sb.inodeCount) (huc : fs.inodeUsed child = true)
    (k : Nat) (entries : Store) : Ledger strict (fs.dropChild d child k entries).1 := by
  have hp := (releaseExtent_spec hl.exact hlt huc).placed
  obtain ⟨hd₂, hu₂⟩ := used_of_core (unslotted_core fs d child k)
    (show d < (fs.releaseExtent child).sb.inodeCount from hp.sb ▸ hd)
    ((hp.used d).trans hu)
  have hset := writeDirEntries_balanced ((emptyChild_ledger hl hlt huc).of_core
    (unslotted_core fs d child k)) hd₂ hu₂
  refine dropChild_rule Ledger.onDevice (fun _ _ _ hw => (via (hset _ _) hw).ledger)
    fun records count fs₁ hne _ _ _ _ hw => ?_
  have hput : Balanced strict d _ fs₁ := via (hset _ _) hw
  refine giveInode_ledger (hput.ledger.of_core (decrementCount_core fs₁ d)) ?_
  rw [disk_of_core (decrementCount_core fs₁ d), hput.others child hne, unslotted_nodes,
    emptyChild_nodes_self]

theorem removeChild_ledger (hl : Ledger strict fs) (hd : d < fs.sb.inodeCount)
    (hu : fs.inodeUsed d = true) (name : List Byte) : Ledger strict (fs.removeChild d name).1 := by
  have hpop : ∀ {a : Simplefs} x, Ledger strict a → Ledger strict (a.populate x).1 := fun x h =>
    h.of_core (populate_core _ x)
  refine removeChild_rule Ledger.onDevice hpop hl fun a entries k h hdrop _ => ?_
  obtain ⟨hd₁, hu₁⟩ := used_of_core hdrop.core hd hu
  exact dropChild_ledger h hd₁ hu₁ hdrop.inside hdrop.used k entries

end Simplefs

end Riverix.Fs
