import Riverix.Fs.Populate

/-!
# Proof rules for creating and removing

`simplefs_create_child` and `simplefs_remove_child` are long runs of steps with an exit
after each. What a property of the state needs to survive them is said here once: that the
device may be used, that directories may be populated, and what happens at the one point
where the tree changes. The properties of the later files are instances.
-/

namespace Riverix.Fs

open Riverix.Lib

namespace Simplefs

variable {fs fs' : Simplefs} {d i child k : Nat} {entries : Store} {P : Simplefs → Prop}

/-- The tree half may change in between. -/
theorem used_of_core (hc : fs'.core = fs.core) (hd : d < fs.sb.inodeCount)
    (hu : fs.inodeUsed d = true) : d < fs'.sb.inodeCount ∧ fs'.inodeUsed d = true := by
  rw [show fs'.sb = fs.sb from congrArg Core.sb hc, inodeUsed,
    show fs'.inodeBitmap = fs.inodeBitmap from congrArg Core.inodeBitmap hc]
  exact ⟨hd, hu⟩

/-! ## Creating -/

/-- What is known when `simplefs_create_child` takes an inode: the directory was populated
and its records were read. -/
structure Adding (fs : Simplefs) (d : Nat) (name : List Byte) (fs₁ : Simplefs) (entries : Store)
    (child : Nat) : Prop where
  kind : (fs.nodes d).disk.kind = kindDir
  writable : fs.dev.readOnly = false
  name_fits : name.length ≠ 0 ∧ name.length ≤ nameMax
  found : fs.findChild d name = ((fs.populate d).1, none)
  room : (fs.nodes d).disk.childCount < directoryCapacity
  read : (fs.populate d).1.readDirEntries d (fs.nodes d).disk.childCount = (fs₁, some entries)
  core : fs₁.core = fs.core
  free : fs₁.freeInode = some child

theorem Adding.onDevice {name : List Byte} (h : Adding fs d name fs' entries child) :
    OnDevice (fs.populate d).1 fs' := via (readDirEntries_onDevice ..) h.read

/-- The inode that is taken was free. -/
theorem Adding.unused {name : List Byte} (h : Adding fs d name fs' entries child) :
    child < fs.sb.inodeCount ∧ fs.inodeUsed child = false ∧ fs.freeInode = some child := by
  have hfree : fs.freeInode = some child := by
    rw [← h.free]
    unfold freeInode inodeUsed
    rw [show fs'.sb = fs.sb from congrArg Core.sb h.core,
      show fs'.inodeBitmap = fs.inodeBitmap from congrArg Core.inodeBitmap h.core]
  exact ⟨(freeInode_some hfree).1, (freeInode_some hfree).2, hfree⟩

/-- A property that creating keeps: the new inode is taken and the records are written, and
then the child is linked or the inode given back. -/
theorem createChild_rule (hdev : ∀ {a b}, OnDevice a b → P a → P b) (h : P fs)
    (hpop : P (fs.populate d).1) {isDir : Bool} {name : List Byte} {mode uid gid : Nat}
    (hadd : ∀ fs₁ entries child fs₂ ok, Adding fs d name fs₁ entries child → P fs₁ →
      (fs₁.takeInode child (newChild isDir name mode uid gid)).writeDirEntries d
        (addEntry entries (fs.nodes d).disk.childCount child name)
        ((fs.nodes d).disk.childCount + 1) = (fs₂, ok) →
      P (if ok then fs₂.linkChild d child else fs₂.giveInode child)) :
    P (fs.createChild d isDir name mode uid gid).1 := by
  have hfst := findChild_fst fs d name
  have hcore := populate_core fs d
  unfold createChild
  split
  · exact h
  next hok =>
  simp only [not_or, not_not, Bool.not_eq_true, Nat.not_lt] at hok
  split
  next he =>
    rw [← hfst] at hpop
    exact via hpop he
  next fs₀ he =>
  rw [he] at hfst
  obtain rfl : fs₀ = (fs.populate d).1 := hfst
  have hread := hdev (readDirEntries_onDevice (fs.populate d).1 d (fs.nodes d).disk.childCount) hpop
  have hrcore := (readDirEntries_core (fs.populate d).1 d (fs.nodes d).disk.childCount).trans hcore
  unfold addChild
  dsimp only
  rw [disk_of_core hcore]
  split
  · exact hpop
  next hroom =>
  split
  next he => exact via hread he
  next fs₁ entries hr =>
  rw [hr] at hrcore
  split
  · exact via hread hr
  next child hfree =>
  have hput := fun fs₂ ok => hadd fs₁ entries child fs₂ ok
    ⟨hok.1, hok.2.1, hok.2.2, he, Nat.not_le.mp hroom, hr, hrcore, hfree⟩ (via hread hr)
  split
  next fs₂ hw => exact hput fs₂ false hw
  next fs₂ hw =>
  have hflush := hdev (flushMetadata_onDevice _) (hput fs₂ true hw)
  split
  next he => exact via hflush he
  next he => exact via hflush he

/-! ## Removing -/

/-- The inode that `simplefs_remove_child` drops, if it does not refuse before. -/
def removes (fs : Simplefs) (d : Nat) (name : List Byte) : Option Nat :=
  if (fs.nodes d).disk.kind ≠ kindDir ∨ fs.dev.readOnly then none
  else
    match fs.populate d with
    | (_, false) => none
    | (fs, true) =>
      match fs.findChild d name with
      | (_, none) => none
      | (fs, some k) =>
        if k ≥ (fs.nodes d).disk.childCount then none
        else
          match fs.readDirEntries d (fs.nodes d).disk.childCount with
          | (_, none) => none
          | (fs, some entries) =>
            let child := entryInode entries k
            if child ≥ fs.sb.inodeCount ∨ fs.inodeUsed child = false
                ∨ (fs.nodes child).vfs.refCount ≠ 0 then none
            else if (fs.nodes child).disk.kind = kindDir then
              match fs.populate child with
              | (_, false) => none
              | (fs, true) => if (fs.nodes child).vfs.childCount ≠ 0 then none else some child
            else some child

/-- What is known of the child in record `k` when it is dropped: the state is the first one,
populated. -/
structure Droppable (fs₀ fs : Simplefs) (d : Nat) (entries : Store) (k : Nat) : Prop where
  kind : (fs₀.nodes d).disk.kind = kindDir
  writable : fs₀.dev.readOnly = false
  slot : k < (fs₀.nodes d).disk.childCount
  read : ∃ a b : Simplefs, a.core = fs₀.core ∧
    a.readDirEntries d (fs₀.nodes d).disk.childCount = (b, some entries)
  core : fs.core = fs₀.core
  inside : entryInode entries k < fs.sb.inodeCount
  used : fs.inodeUsed (entryInode entries k) = true
  closed : (fs.nodes (entryInode entries k)).vfs.refCount = 0
  empty : (fs.nodes (entryInode entries k)).disk.kind = kindDir →
    (fs.nodes (entryInode entries k)).vfs.childCount = 0

/-- How a removal ends: `P` holds once the directory is populated, until it is refused or the
child is dropped. What is populated in between is the directory itself or an inode in use. -/
theorem removeChild_cases {Q : Simplefs × Bool → Prop} {name : List Byte}
    (hread : ∀ {a} n, P a → P (a.readDirEntries d n).1)
    (hpop : ∀ {a} x, (x = d ∨ x < a.sb.inodeCount ∧ a.inodeUsed x = true) → P a →
      P (a.populate x).1)
    (hstop : ∀ {a}, fs.removes d name = none → P a → Q (a, false))
    (h : fs.removes d name = none → Q (fs, false))
    (hfirst : ∀ fs₁ ok, fs.populate d = (fs₁, ok) →
      if ok then P fs₁ else fs.removes d name = none → Q (fs₁, false))
    (hdrop : ∀ a entries k, P a → Droppable fs a d entries k →
      fs.removes d name = some (entryInode entries k) →
      ((a.nodes (entryInode entries k)).disk.kind = kindDir →
        ∃ b, P b ∧ b.populate (entryInode entries k) = (a, true)) →
      Q (a.dropChild d (entryInode entries k) k entries)) :
    Q (fs.removeChild d name) := by
  unfold removes at hstop h hfirst hdrop
  unfold removeChild
  split
  next hgo => exact h (if_pos hgo)
  next hgo =>
  rw [if_neg hgo] at hstop hfirst hdrop
  rw [not_or, not_not, Bool.not_eq_true] at hgo
  have hcore₁ := populate_core fs d
  split
  next he =>
    rw [he] at hfirst
    exact hfirst _ false rfl rfl
  next fs₁ he =>
  rw [he] at hstop hfirst hdrop hcore₁
  have h₁ : P fs₁ := hfirst _ true rfl
  have hfst := findChild_fst fs₁ d name
  have h₂ := hpop d (.inl rfl) h₁
  have hcore₂ := (populate_core fs₁ d).trans hcore₁
  rw [← hfst] at h₂ hcore₂
  dsimp only at hstop hdrop
  split
  next he =>
    rw [he] at hstop h₂
    exact hstop rfl h₂
  next fs₂ k he =>
  rw [he] at hstop hdrop h₂ hcore₂
  dsimp only at hstop hdrop
  have hcount := disk_of_core hcore₂ d
  split
  next hk => exact hstop (if_pos hk) h₂
  next hk =>
  rw [if_neg hk] at hstop hdrop
  have h₃ := hread (fs₂.nodes d).disk.childCount h₂
  have hcore₃ := (readDirEntries_core fs₂ d (fs₂.nodes d).disk.childCount).trans hcore₂
  split
  next he =>
    rw [he] at hstop h₃
    exact hstop rfl h₃
  next fs₃ entries he =>
  rw [he] at hstop hdrop h₃ hcore₃
  rw [hcount] at hk he
  dsimp only at hstop hdrop
  unfold removeEntry
  dsimp only
  split
  next hchild => exact hstop (if_pos hchild) h₃
  next hchild =>
  rw [if_neg hchild] at hstop hdrop
  simp only [not_or, Nat.not_le, Bool.not_eq_false, not_not] at hchild
  obtain ⟨hlt, hused, hclosed⟩ := hchild
  split
  next hdir =>
    rw [if_pos hdir] at hstop hdrop
    have h₄ := hpop (entryInode entries k) (.inr ⟨hlt, hused⟩) h₃
    have hcore₄ := populate_core fs₃ (entryInode entries k)
    split
    next he =>
      rw [he] at hstop h₄
      exact hstop rfl h₄
    next fs₄ he₄ =>
    rw [he₄] at hstop hdrop h₄ hcore₄
    dsimp only at hstop hdrop
    split
    next hfull => exact hstop (if_pos hfull) h₄
    next hempty =>
    rw [if_neg hempty] at hdrop
    have hcore₄ : fs₄.core = fs₃.core := hcore₄
    obtain ⟨hlt₄, hused₄⟩ := used_of_core hcore₄ hlt hused
    refine hdrop fs₄ entries k h₄ ⟨hgo.1, hgo.2, Nat.not_le.mp hk,
      ⟨fs₂, fs₃, hcore₂, he⟩, hcore₄.trans hcore₃, hlt₄, hused₄, ?_,
      fun _ => not_not.mp hempty⟩ rfl fun _ => ⟨fs₃, h₃, he₄⟩
    rw [show (fs₄.nodes (entryInode entries k)).vfs.refCount = _ from
      congrArg (fun c => (c.nodes (entryInode entries k)).vfs.refCount) hcore₄]
    exact hclosed
  next hfile =>
  rw [if_neg hfile] at hdrop
  exact hdrop fs₃ entries k h₃ ⟨hgo.1, hgo.2, Nat.not_le.mp hk,
    ⟨fs₂, fs₃, hcore₂, he⟩, hcore₃, hlt, hused, hclosed,
    fun hdir => absurd hdir hfile⟩ rfl fun hdir => absurd hdir hfile

/-- A property that removing keeps. -/
theorem removeChild_rule {name : List Byte} (hdev : ∀ {a b}, OnDevice a b → P a → P b)
    (hpop : ∀ {a} x, P a → P (a.populate x).1) (h : P fs)
    (hdrop : ∀ a entries k, P a → Droppable fs a d entries k →
      fs.removes d name = some (entryInode entries k) →
      P (a.dropChild d (entryInode entries k) k entries).1) :
    P (fs.removeChild d name).1 := by
  refine removeChild_cases (Q := fun r => P r.1) (fun n => hdev (readDirEntries_onDevice _ d n))
    (fun x _ => hpop x) (fun _ h => h) (fun _ => h) (fun fs₁ ok he => ?_)
    fun a entries k ha hd hrem _ => hdrop a entries k ha hd hrem
  have h₁ : P fs₁ := via (hpop d h) he
  split
  · exact h₁
  · exact fun _ => h₁

/-- The child is empty and out of the slots of its directory; its record is still there. -/
def unslotted (fs : Simplefs) (d child k : Nat) : Simplefs :=
  let fs := fs.emptyChild child
  let count := (fs.nodes d).disk.childCount
  if count ≠ 0 then fs.setSlots d (dropSlot k count) else fs

theorem unslotted_nodes (fs : Simplefs) (d child k : Nat) :
    (fs.unslotted d child k).nodes = (fs.emptyChild child).nodes := by
  unfold unslotted
  dsimp only
  split
  · exact setSlots_nodes ..
  · rfl

theorem unslotted_core (fs : Simplefs) (d child k : Nat) :
    (fs.unslotted d child k).core = (fs.emptyChild child).core := by
  unfold unslotted
  dsimp only
  split
  · exact setSlots_core ..
  · rfl

theorem unslotted_steady (fs : Simplefs) (d child k : Nat) :
    Steady fs (fs.unslotted d child k) := by
  refine (releaseExtent_aside fs child).steady.trans ?_
  refine Steady.of_dev (congrArg Core.sb (unslotted_core ..)) ?_
  unfold unslotted
  dsimp only
  split
  · exact setSlots_dev ..
  · rfl

/-- A property that dropping keeps. Where the records could be written, the directory had
one, and it is not the child itself: its count would have become 0, and a count of
`2 ^ 32 - 1` is refused. -/
theorem dropChild_rule (hdev : ∀ {a b}, OnDevice a b → P a → P b)
    (hwrite : ∀ records count fs₁,
      (fs.unslotted d child k).writeDirEntries d records count = (fs₁, false) → P fs₁)
    (hdone : ∀ records count fs₁, child ≠ d → (fs.nodes d).disk.childCount ≠ 0 →
      fs.unslotted d child k
        = (fs.emptyChild child).setSlots d (dropSlot k (fs.nodes d).disk.childCount) →
      count = ((fs.nodes d).disk.childCount + 2 ^ 32 - 1) % 2 ^ 32 → count ≤ directoryCapacity →
      (fs.unslotted d child k).writeDirEntries d records count = (fs₁, true) →
      P ((fs₁.decrementCount d).giveInode child)) :
    P (fs.dropChild d child k entries).1 := by
  unfold dropChild
  dsimp only
  rw [show (if ((fs.emptyChild child).nodes d).disk.childCount ≠ 0
    then (fs.emptyChild child).setSlots d (dropSlot k
      ((fs.emptyChild child).nodes d).disk.childCount)
    else fs.emptyChild child) = fs.unslotted d child k from rfl]
  split
  next fs₁ he => exact hwrite _ _ fs₁ he
  next fs₁ he =>
  refine hdev (flushMetadata_onDevice _) ?_
  have hle : (((fs.emptyChild child).nodes d).disk.childCount + 2 ^ 32 - 1) % 2 ^ 32
      ≤ directoryCapacity := by
    by_contra hbig
    rw [writeDirEntries_too_many (Nat.not_le.mp hbig)] at he
    exact absurd (Prod.mk.inj he).2 (by simp)
  have hsome : ((fs.emptyChild child).nodes d).disk.childCount ≠ 0 := by
    intro h0
    rw [h0] at hle
    exact absurd hle (by decide)
  have hne : child ≠ d := by
    rintro rfl
    rw [emptyChild_nodes_self] at hsome
    exact hsome rfl
  have hslots : fs.unslotted d child k = (fs.emptyChild child).setSlots d
      (dropSlot k ((fs.emptyChild child).nodes d).disk.childCount) := if_pos hsome
  rw [emptyChild_nodes_ne fs hne.symm] at hsome hle hslots he
  exact hdone _ _ fs₁ hne hsome hslots rfl hle he

/-! ## What no operation changes -/

theorem setSlots_steady (fs : Simplefs) (d : Nat)
    (f : (Nat → Option NodeRef) → Nat → Option NodeRef) : Steady fs (fs.setSlots d f) :=
  Steady.of_dev (congrArg Core.sb (setSlots_core fs d f)) (setSlots_dev fs d f)

theorem modify_steady (fs : Simplefs) (i : Nat) (f : RuntimeInode → RuntimeInode) :
    Steady fs (fs.modify i f) := Steady.of_dev rfl rfl

theorem appendChild_steady (fs : Simplefs) (d : Nat) (ref : NodeRef) :
    Steady fs (fs.appendChild d ref) := by
  unfold appendChild modifyVfs setChildAt
  exact (setSlots_steady ..).trans (modify_steady ..)

theorem Steady.onDevice {fs₁ fs₂ : Simplefs} (h : OnDevice fs₁ fs₂) (h' : Steady fs fs₁) :
    Steady fs fs₂ := h'.trans h.steady

theorem populate_steady (fs : Simplefs) (d : Nat) : Steady fs (fs.populate d).1 := by
  refine populateDirectory_rel Steady.refl Steady.trans
    (fun fs d n => (readDirEntries_onDevice fs d n).steady) (fun fs d => ?_) (fun fs d => ?_)
    (fun fs d child name => ?_) (fun fs d => modify_steady ..) populateDepth [] fs d
  · unfold allocDirSlots
    split
    · exact Steady.refl fs
    · split
      · exact Steady.refl fs
      · exact Steady.of_dev rfl rfl
  · unfold clearWindow modifyVfs
    exact (setSlots_steady ..).trans (modify_steady ..)
  · exact (modify_steady fs child fun n => { n with name }).trans (appendChild_steady ..)

theorem createChild_steady (fs : Simplefs) (d : Nat) (isDir : Bool) (name : List Byte)
    (mode uid gid : Nat) : Steady fs (fs.createChild d isDir name mode uid gid).1 := by
  refine createChild_rule Steady.onDevice (Steady.refl fs) (populate_steady fs d)
    fun fs₁ entries child fs₂ ok _ h hwrite => ?_
  have htake : Steady fs₁ (fs₁.takeInode child (newChild isDir name mode uid gid)) :=
    Steady.of_dev rfl rfl
  have hput := (h.trans htake).trans (via (writeDirEntries_stored ..).1 hwrite)
  cases ok with
  | false => exact hput.trans (Steady.of_dev rfl rfl)
  | true =>
    have hlog : Steady fs₂ (fs₂.logStore d) := Steady.of_dev rfl rfl
    exact (hput.trans hlog).trans (appendChild_steady ..)

theorem removeChild_steady (fs : Simplefs) (d : Nat) (name : List Byte) :
    Steady fs (fs.removeChild d name).1 := by
  have hpop : ∀ {a} x, Steady fs a → Steady fs (a.populate x).1 := fun x h =>
    h.trans (populate_steady _ x)
  refine removeChild_rule Steady.onDevice hpop (Steady.refl fs) fun a entries k h _ _ => ?_
  have hslots := h.trans (unslotted_steady a d (entryInode entries k) k)
  refine dropChild_rule Steady.onDevice
    (fun _ _ _ hw => hslots.trans (via (writeDirEntries_stored ..).1 hw))
    fun _ _ fs₁ _ _ _ _ _ hw => ?_
  refine (hslots.trans (via (writeDirEntries_stored ..).1 hw)).trans ?_
  exact Steady.of_dev rfl rfl

/-! ## Attaching -/

/-- A property of the state and of `/dev` that attaching a device node keeps. -/
theorem attachDevices_rule {P : Nat → Simplefs → Prop} (hat : fs.attachDevices = some fs')
    (h : ∀ d, fs.resolve [devName] = some (.node d) → P d fs)
    (happ : ∀ d a ref, P d a → (a.nodes d).vfs.kind = .dir ∧ (a.nodes d).vfs.children ≠ none ∧
      (a.nodes d).vfs.childCount < (a.nodes d).vfs.childCapacity → (∀ c, ref ≠ .node c) →
      P d (a.appendChild d ref)) : ∃ d, P d fs' := by
  have hone : ∀ {d a b ref}, P d a → (∀ c, ref ≠ .node c) → a.vfsAppendChild d ref = (b, true) →
      P d b := by
    intro d a b ref ha href he
    unfold vfsAppendChild at he
    dsimp only at he
    split at he
    · exact absurd (Prod.mk.inj he).2 (by simp)
    next hok =>
      simp only [not_or, not_not, Nat.not_le] at hok
      exact (Prod.mk.inj he).1 ▸ happ d a ref ha hok href
  unfold attachDevices at hat
  split at hat
  next d hres =>
    split at hat
    · simp at hat
    next fs₁ he₁ =>
    split at hat
    · simp at hat
    next fs₂ he₂ =>
      rw [← Option.some.inj hat]
      exact ⟨d, hone (hone (h d hres) (by simp) he₁) (by simp) he₂⟩
  · simp at hat

theorem attachDevices_steady (h : fs.attachDevices = some fs') : Steady fs fs' := by
  obtain ⟨-, hd⟩ := attachDevices_rule (P := fun _ => Steady fs) h (fun _ _ => Steady.refl fs)
    fun d a ref ha _ _ => ha.trans (appendChild_steady a d ref)
  exact hd

end Simplefs

end Riverix.Fs
