import Mathlib.Data.Finset.Prod
import Riverix.Fs.Refs
import Riverix.Lib.RefCount
import Riverix.Proc.Task
import Riverix.Vfs.Files

/-!
# The counts of the open files

`FilesCounted` says that the count of a file is the number of descriptors that point to
it, and the count of an inode the number of files that name it. In the middle of a call
the kernel itself holds files that are in no descriptor table yet, or no longer; they
are in the list `held`. `PipesCounted` says the same of the two ends of a pipe, and that
a pipe is freed once all its files are gone.

A file system with stale records can have wrong counts in its inodes. What is said about
those holds if the file system is `trusted`; the rest holds all the same.

Every call is a sequence of five moves: a file is opened, retained, put into a
descriptor, taken out of one, or released. There is a lemma for each move.
-/

namespace Riverix.Vfs

open Riverix.Lib Riverix.Fs Riverix.Proc

/-- The descriptors of all tasks. -/
def fdSlots : Finset (Nat × Nat) := Finset.range maxTasks ×ˢ Finset.range maxFds

/-- The entries of the file table. -/
def fileSlots : Finset Nat := Finset.range maxFiles

theorem mem_fdSlots {c fd : Nat} : (c, fd) ∈ fdSlots ↔ c < maxTasks ∧ fd < maxFds := by
  simp [fdSlots]

namespace VfsState

variable {trusted : Prop} {v v' : VfsState} {held : List Nat} {f c fd p : Nat}
  {r : InodeRef} {flags : Nat}
  {grant : Option Grant}

/-- The inode that a file names. -/
def inodeAt (v : VfsState) (f : Nat) : Option InodeRef := (v.files f).inode

/-- The pipe that a file is the read end, or the write end, of. -/
def endAt (v : VfsState) (isRead : Bool) (f : Nat) : Option Nat :=
  match (v.files f).inode with
  | some (.pipe p) => if (v.files f).flags &&& endFlag isRead ≠ 0 then some p else none
  | _ => none

/-- The inode's count is exact, or the inode belongs to a file system that is not trusted. -/
def InodeRef.Reliable (trusted : Prop) : InodeRef → Prop
  | .entry (.node _) => trusted
  | _ => True

/-- The counts of files and inodes are exact. -/
structure FilesCounted (trusted : Prop) (v : VfsState) (held : List Nat) : Prop where
  slots : ∀ s f, v.fds s = some f → s ∈ fdSlots
  files : ∀ f, (v.files f).refCount = uses fdSlots v.fds f + held.count f
  named : ∀ f, (v.files f).refCount = 0 ↔ v.inodeAt f = none
  table : ∀ f, v.inodeAt f ≠ none → f ∈ fileSlots
  inodes : ∀ r, InodeRef.Reliable trusted r → v.inodeRefs r = uses fileSlots v.inodeAt r

/-- The counts of pipe ends are exact, and a pipe without files has been freed once. -/
structure PipesCounted (v : VfsState) : Prop where
  fresh : ∀ f p, v.inodeAt f = some (.pipe p) → p < v.nextPipe
  ends : ∀ isRead p, (v.pipes p).endCount isRead = uses fileSlots (v.endAt isRead) p
  single : ∀ isRead p, uses fileSlots (v.endAt isRead) p ≤ 1
  freed : ∀ p, v.freed.count p = if p < v.nextPipe ∧ v.inodeRefs (.pipe p) = 0 then 1 else 0

structure Counted (trusted : Prop) (v : VfsState) (held : List Nat) : Prop where
  files : FilesCounted trusted v held
  pipes : PipesCounted v

/-! ## Changes that the counts do not see -/

/-- The descriptors, the counts and what the files name are the same. -/
structure SameCounts (trusted : Prop) (v v' : VfsState) : Prop where
  fds : v'.fds = v.fds
  refCount : ∀ f, (v'.files f).refCount = (v.files f).refCount
  inode : ∀ f, (v'.files f).inode = (v.files f).inode
  flags : ∀ f, (v'.files f).flags = (v.files f).flags
  inodes : ∀ r, InodeRef.Reliable trusted r → v'.inodeRefs r = v.inodeRefs r
  pipes : ∀ p, Pipe.SameEnds (v.pipes p) (v'.pipes p)
  nextPipe : v'.nextPipe = v.nextPipe
  freed : v'.freed = v.freed

theorem SameCounts.inodeAt (h : SameCounts trusted v v') : v'.inodeAt = v.inodeAt := funext h.inode

theorem SameCounts.endAt (h : SameCounts trusted v v') (isRead : Bool) :
    v'.endAt isRead = v.endAt isRead := by
  funext f
  unfold VfsState.endAt
  rw [h.inode f, h.flags f]

theorem FilesCounted.same (hc : FilesCounted trusted v held) (h : SameCounts trusted v v') :
    FilesCounted trusted v' held := by
  refine ⟨?_, fun f => ?_, fun f => ?_, fun f => ?_, fun r => ?_⟩
  · rw [h.fds]
    exact hc.slots
  · rw [h.refCount, h.fds]
    exact hc.files f
  · rw [h.refCount, h.inodeAt]
    exact hc.named f
  · rw [h.inodeAt]
    exact hc.table f
  · intro hr
    rw [h.inodes r hr, h.inodeAt]
    exact hc.inodes r hr

theorem PipesCounted.same (hc : PipesCounted v) (h : SameCounts trusted v v') :
    PipesCounted v' := by
  refine ⟨?_, fun isRead p => ?_, fun isRead p => ?_, fun p => ?_⟩
  · rw [h.inodeAt, h.nextPipe]
    exact hc.fresh
  · rw [(h.pipes p).endCount, h.endAt]
    exact hc.ends isRead p
  · rw [h.endAt]
    exact hc.single isRead p
  · rw [h.freed, h.nextPipe, h.inodes (.pipe p) trivial]
    exact hc.freed p

theorem Counted.same (hc : Counted trusted v held) (h : SameCounts trusted v v') :
    Counted trusted v' held :=
  ⟨hc.files.same h, hc.pipes.same h⟩

/-- The file system has changed, but not its counts. -/
theorem SameCounts.of_fs {fs : Simplefs} (h : trusted → Simplefs.SameRefs v.fs fs) :
    SameCounts trusted v { v with fs } := by
  refine ⟨rfl, fun _ => rfl, fun _ => rfl, fun _ => rfl, fun r hr => ?_,
    fun _ => Pipe.SameEnds.refl _, rfl, rfl⟩
  cases r with
  | pipe p => rfl
  | entry ref =>
    cases ref with
    | node i => exact h hr i
    | console => rfl
    | tty => rfl

/-- A file has another offset. -/
theorem SameCounts.setOffset (v : VfsState) (f offset : Nat) :
    SameCounts trusted v (v.setFile f { v.files f with offset }) := by
  have hf : ∀ j, (v.setFile f { v.files f with offset }).files j = v.files j ∨
      (j = f ∧ (v.setFile f { v.files f with offset }).files j = { v.files f with offset }) := by
    intro j
    by_cases hj : j = f
    · subst hj
      exact Or.inr ⟨rfl, Function.update_self ..⟩
    · exact Or.inl (Function.update_of_ne hj _ _)
  refine ⟨rfl, fun j => ?_, fun j => ?_, fun j => ?_, fun r _ => ?_,
    fun _ => Pipe.SameEnds.refl _, rfl, rfl⟩
  · rcases hf j with h | ⟨rfl, h⟩ <;> rw [h]
  · rcases hf j with h | ⟨rfl, h⟩ <;> rw [h]
  · rcases hf j with h | ⟨rfl, h⟩ <;> rw [h]
  · cases r with
    | pipe p => rfl
    | entry ref => cases ref <;> rfl

/-- Bytes have moved through a pipe. -/
theorem SameCounts.setPipe {pipe : Pipe} (h : Pipe.SameEnds (v.pipes p) pipe) :
    SameCounts trusted v (v.setPipe p pipe) := by
  have hp : ∀ q, Pipe.SameEnds (v.pipes q) ((v.setPipe p pipe).pipes q) := by
    intro q
    by_cases hq : q = p
    · subst hq
      show Pipe.SameEnds _ (Function.update v.pipes q pipe q)
      rw [Function.update_self]
      exact h
    · show Pipe.SameEnds _ (Function.update v.pipes p pipe q)
      rw [Function.update_of_ne hq]
      exact Pipe.SameEnds.refl _
  refine ⟨rfl, fun _ => rfl, fun _ => rfl, fun _ => rfl, fun r _ => ?_, hp, rfl, rfl⟩
  cases r with
  | pipe q => exact (hp q).inodeRefs
  | entry ref => cases ref <;> rfl

/-! ## The moves -/

theorem setFile_self (v : VfsState) (f : Nat) (file : File) : (v.setFile f file).files f = file :=
  Function.update_self ..

theorem setFile_ne {j : Nat} (v : VfsState) (file : File) (h : j ≠ f) :
    (v.setFile f file).files j = v.files j :=
  Function.update_of_ne h ..

theorem setFile_inodeAt (v : VfsState) (f : Nat) (file : File) :
    (v.setFile f file).inodeAt = Function.update v.inodeAt f file.inode := by
  funext j
  unfold inodeAt
  by_cases hj : j = f
  · rw [hj, setFile_self, Function.update_self]
  · rw [setFile_ne v file hj, Function.update_of_ne hj]

theorem setFile_inodeRefs (v : VfsState) (f : Nat) (file : File) (r : InodeRef) :
    (v.setFile f file).inodeRefs r = v.inodeRefs r := by
  cases r with
  | pipe p => rfl
  | entry ref => cases ref <;> rfl

theorem setInodeRefs_keeps (v : VfsState) (r : InodeRef) (n : Nat) :
    (v.setInodeRefs r n).files = v.files ∧ (v.setInodeRefs r n).fds = v.fds ∧
      (v.setInodeRefs r n).nextPipe = v.nextPipe ∧ (v.setInodeRefs r n).freed = v.freed := by
  cases r with
  | pipe p => exact ⟨rfl, rfl, rfl, rfl⟩
  | entry ref => cases ref <;> exact ⟨rfl, rfl, rfl, rfl⟩

theorem setInodeRefs_inodeAt (v : VfsState) (r : InodeRef) (n : Nat) :
    (v.setInodeRefs r n).inodeAt = v.inodeAt := by
  funext f
  unfold inodeAt
  rw [(setInodeRefs_keeps v r n).1]

theorem setInodeRefs_endAt (v : VfsState) (r : InodeRef) (n : Nat) (isRead : Bool) :
    (v.setInodeRefs r n).endAt isRead = v.endAt isRead := by
  funext f
  unfold endAt
  rw [(setInodeRefs_keeps v r n).1]

theorem setInodeRefs_endCount (v : VfsState) (r : InodeRef) (n p : Nat) (isRead : Bool) :
    ((v.setInodeRefs r n).pipes p).endCount isRead = (v.pipes p).endCount isRead := by
  cases r with
  | entry ref => cases ref <;> rfl
  | pipe q =>
    show (Function.update v.pipes q _ p).endCount isRead = _
    by_cases hp : p = q
    · rw [hp, Function.update_self]
      rfl
    · rw [Function.update_of_ne hp]

theorem inodeRefs_setInodeRefs (v : VfsState) (r r' : InodeRef) (n : Nat) :
    (v.setInodeRefs r n).inodeRefs r' = if r' = r then n else v.inodeRefs r' := by
  cases r with
  | pipe q =>
    cases r' with
    | entry ref => cases ref <;> rfl
    | pipe p =>
      show (Function.update v.pipes q _ p).inodeRefs = _
      by_cases hp : p = q
      · rw [hp, Function.update_self, if_pos rfl]
      · rw [Function.update_of_ne hp, if_neg (by simp [hp])]
        rfl
  | entry ref =>
    cases ref with
    | console => cases r' with
      | pipe p => rfl
      | entry ref' => cases ref' <;> simp [setInodeRefs, inodeRefs]
    | tty => cases r' with
      | pipe p => rfl
      | entry ref' => cases ref' <;> simp [setInodeRefs, inodeRefs]
    | node i =>
      cases r' with
      | pipe p => rfl
      | entry ref' =>
        cases ref' with
        | console => simp [setInodeRefs, inodeRefs]
        | tty => simp [setInodeRefs, inodeRefs]
        | node j =>
          simp only [setInodeRefs, inodeRefs, Simplefs.modifyVfs]
          by_cases hj : j = i
          · rw [hj, if_pos rfl, Simplefs.modify_nodes_self]
          · rw [if_neg (by simp [hj]), Simplefs.modify_nodes_ne v.fs _ hj]

theorem allocFile_some (h : v.allocFile = some f) : f ∈ fileSlots ∧ (v.files f).refCount = 0 := by
  have hf := List.find?_some h
  rw [beq_iff_eq] at hf
  exact ⟨Finset.mem_range.mpr (List.mem_range.mp (List.mem_of_find?_eq_some h)), hf⟩

theorem openInode_some (h : v.openInode r flags grant = (v', some f)) :
    v.allocFile = some f ∧
      v' = (v.setFile f ⟨some r, flags, 0, 1, grant⟩).setInodeRefs r (v.inodeRefs r + 1) := by
  unfold openInode at h
  split at h
  · exact absurd (Prod.mk.inj h).2 (by simp)
  next f' hf =>
    obtain ⟨rfl, hs⟩ := Prod.mk.inj h
    rw [← Option.some.inj hs]
    exact ⟨hf, rfl⟩

/-- The first file of the table that is free names nothing. -/
theorem FilesCounted.free (hc : FilesCounted trusted v held) (h : v.allocFile = some f) :
    f ∈ fileSlots ∧ v.inodeAt f = none ∧ uses fdSlots v.fds f = 0 ∧ held.count f = 0 := by
  obtain ⟨hm, h0⟩ := allocFile_some h
  have hfiles := hc.files f
  rw [h0] at hfiles
  exact ⟨hm, (hc.named f).mp h0, by omega, by omega⟩

theorem openInode_inodeAt (h : v.openInode r flags grant = (v', some f)) :
    v'.inodeAt = Function.update v.inodeAt f (some r) := by
  obtain ⟨-, rfl⟩ := openInode_some h
  rw [setInodeRefs_inodeAt, setFile_inodeAt]

/-- A file is opened; the kernel holds it. -/
theorem FilesCounted.openInode (hc : FilesCounted trusted v held)
    (h : v.openInode r flags grant = (v', some f)) :
    FilesCounted trusted v' (f :: held) := by
  have hat := openInode_inodeAt h
  obtain ⟨halloc, rfl⟩ := openInode_some h
  obtain ⟨hm, hnone, hu, hh⟩ := hc.free halloc
  have hkeep := setInodeRefs_keeps (v.setFile f ⟨some r, flags, 0, 1, grant⟩) r (v.inodeRefs r + 1)
  refine ⟨?_, fun j => ?_, fun j => ?_, fun j => ?_, fun r' hr' => ?_⟩
  · rw [hkeep.2.1]
    exact hc.slots
  · rw [hkeep.1, hkeep.2.1, List.count_cons]
    show _ = uses fdSlots v.fds j + _
    by_cases hj : j = f
    · rw [hj, setFile_self, hu, hh]
      simp
    · rw [setFile_ne v _ hj, hc.files j, if_neg (by simp [Ne.symm hj]), Nat.add_zero]
  · rw [hkeep.1, hat]
    by_cases hj : j = f
    · rw [hj, setFile_self, Function.update_self]
      simp
    · rw [setFile_ne v _ hj, Function.update_of_ne hj]
      exact hc.named j
  · rw [hat]
    by_cases hj : j = f
    · rw [hj]
      exact fun _ => hm
    · rw [Function.update_of_ne hj]
      exact hc.table j
  · rw [hat, uses_fill hm hnone, inodeRefs_setInodeRefs]
    split
    next he =>
      rw [he] at hr' ⊢
      rw [if_pos rfl, hc.inodes r hr']
    next he => rw [if_neg (Ne.symm he), setFile_inodeRefs, hc.inodes r' hr', Nat.add_zero]

/-- An inode of the tree is opened; the pipes do not see it. -/
theorem PipesCounted.openEntry {ref : NodeRef} (hp : PipesCounted v)
    (hc : FilesCounted trusted v held) (h : v.openInode (.entry ref) flags grant = (v', some f)) :
    PipesCounted v' := by
  have hat := openInode_inodeAt h
  obtain ⟨halloc, rfl⟩ := openInode_some h
  obtain ⟨-, hnone, -, -⟩ := hc.free halloc
  have hkeep := setInodeRefs_keeps (v.setFile f ⟨some (.entry ref), flags, 0, 1,
    grant⟩) (.entry ref)
    (v.inodeRefs (.entry ref) + 1)
  have hend : ∀ isRead, (v.setFile f ⟨some (.entry ref), flags, 0, 1, grant⟩).endAt isRead
      = v.endAt isRead := by
    intro isRead
    funext j
    unfold endAt
    by_cases hj : j = f
    · rw [hj, setFile_self, show (v.files f).inode = none from hnone]
    · rw [setFile_ne v _ hj]
  refine ⟨fun j p hj => ?_, fun isRead p => ?_, fun isRead p => ?_, fun p => ?_⟩
  · rw [hkeep.2.2.1]
    rw [hat] at hj
    by_cases hjf : j = f
    · rw [hjf, Function.update_self] at hj
      exact absurd (Option.some.inj hj) (by simp)
    · rw [Function.update_of_ne hjf] at hj
      exact hp.fresh j p hj
  · rw [setInodeRefs_endCount, setInodeRefs_endAt, hend]
    exact hp.ends isRead p
  · rw [setInodeRefs_endAt, hend]
    exact hp.single isRead p
  · have hpipe := inodeRefs_setInodeRefs (v.setFile f ⟨some (.entry ref), flags, 0, 1,
      grant⟩) (.entry ref)
      (.pipe p) (v.inodeRefs (.entry ref) + 1)
    rw [if_neg (by simp), setFile_inodeRefs] at hpipe
    rw [hkeep.2.2.1, hkeep.2.2.2, hpipe]
    exact hp.freed p

theorem Counted.openEntry {ref : NodeRef} (hc : Counted trusted v held)
    (h : v.openInode (.entry ref) flags grant = (v', some f)) : Counted trusted v' (f :: held) :=
  ⟨hc.files.openInode h, hc.pipes.openEntry hc.files h⟩

theorem openInode_none (h : v.openInode r flags grant = (v', none)) : v' = v := by
  unfold openInode at h
  split at h
  · exact (Prod.mk.inj h).1.symm
  · exact absurd (Prod.mk.inj h).2 (by simp)

theorem openInode_fds (v : VfsState) (r : InodeRef) (flags : Nat) (grant : Option Grant) :
    (v.openInode r flags grant).1.fds = v.fds := by
  unfold openInode
  split
  · rfl
  · exact (setInodeRefs_keeps ..).2.1

theorem setRefs_endAt (v : VfsState) (f n : Nat) (isRead : Bool) :
    (v.setFile f { v.files f with refCount := n }).endAt isRead = v.endAt isRead := by
  funext j
  unfold endAt
  by_cases hj : j = f
  · rw [hj, setFile_self]
  · rw [setFile_ne v _ hj]

theorem setRefs_inodeAt (v : VfsState) (f n : Nat) :
    (v.setFile f { v.files f with refCount := n }).inodeAt = v.inodeAt := by
  rw [setFile_inodeAt]
  exact Function.update_eq_self f v.inodeAt

/-- The number of references to an open file changes, and so does what is held. -/
theorem Counted.setRefs {held' : List Nat} {n : Nat} (hc : Counted trusted v held)
    (h0 : (v.files f).refCount ≠ 0) (hn : n = uses fdSlots v.fds f + held'.count f) (hpos : n ≠ 0)
    (hne : ∀ j, j ≠ f → held'.count j = held.count j) :
    Counted trusted (v.setFile f { v.files f with refCount := n }) held' := by
  have hat := setRefs_inodeAt v f n
  refine ⟨⟨hc.files.slots, fun j => ?_, fun j => ?_, fun j => ?_, fun r => ?_⟩,
    ⟨fun j p hj => ?_, fun isRead p => ?_, fun isRead p => ?_, fun p => ?_⟩⟩
  · by_cases hj : j = f
    · rw [hj, setFile_self]
      exact hn
    · rw [setFile_ne v _ hj, hne j hj]
      exact hc.files.files j
  · rw [hat]
    by_cases hj : j = f
    · rw [hj, setFile_self, ← hc.files.named f]
      exact ⟨fun h => absurd h hpos, fun h => absurd h h0⟩
    · rw [setFile_ne v _ hj]
      exact hc.files.named j
  · rw [hat]
    exact hc.files.table j
  · rw [setFile_inodeRefs, hat]
    exact hc.files.inodes r
  · rw [hat] at hj
    exact hc.pipes.fresh j p hj
  · rw [setRefs_endAt]
    exact hc.pipes.ends isRead p
  · rw [setRefs_endAt]
    exact hc.pipes.single isRead p
  · rw [setFile_inodeRefs]
    exact hc.pipes.freed p

/-- A file that is open is retained. -/
theorem Counted.retainFile (hc : Counted trusted v held) (h0 : (v.files f).refCount ≠ 0) :
    Counted trusted (v.retainFile f) (f :: held) := by
  unfold VfsState.retainFile
  rw [if_pos h0]
  refine hc.setRefs h0 ?_ (Nat.succ_ne_zero _) fun j hj => ?_
  · rw [hc.files.files f, List.count_cons_self, Nat.add_assoc]
  · rw [List.count_cons_of_ne (Ne.symm hj)]

/-! ## Releasing -/

theorem setPipe_self (v : VfsState) (p : Nat) (pipe : Pipe) : (v.setPipe p pipe).pipes p = pipe :=
  Function.update_self ..

theorem setPipe_ne {q : Nat} (v : VfsState) (pipe : Pipe) (h : q ≠ p) :
    (v.setPipe p pipe).pipes q = v.pipes q :=
  Function.update_of_ne h ..

/-- A pipe loses an end. -/
theorem releaseInode_pipe (v : VfsState) (q flags : Nat) :
    ∃ freed, v.releaseInode (.pipe q) flags =
        { v.setPipe q ({ v.pipes q with inodeRefs := (v.pipes q).inodeRefs - 1 }.dropEnd flags)
          with freed } ∧
      freed = if (v.pipes q).inodeRefs - 1 = 0 then q :: v.freed else v.freed := by
  have hset : ∀ a b : Pipe, (v.setPipe q a).setPipe q b = v.setPipe q b := by
    intro a b
    unfold setPipe
    rw [Function.update_idem]
  unfold releaseInode setInodeRefs inodeRefs
  dsimp only
  rw [hset, setPipe_self, setPipe_self]
  split
  next h => exact ⟨_, rfl, (if_pos h).symm⟩
  next h => exact ⟨_, rfl, (if_neg h).symm⟩

theorem releaseInode_keeps (v : VfsState) (r : InodeRef) (flags : Nat) :
    (v.releaseInode r flags).files = v.files ∧ (v.releaseInode r flags).fds = v.fds ∧
      (v.releaseInode r flags).nextPipe = v.nextPipe := by
  cases r with
  | entry ref =>
    have h := setInodeRefs_keeps v (.entry ref) (v.inodeRefs (.entry ref) - 1)
    exact ⟨h.1, h.2.1, h.2.2.1⟩
  | pipe q =>
    obtain ⟨freed, h, -⟩ := releaseInode_pipe v q flags
    rw [h]
    exact ⟨rfl, rfl, rfl⟩

theorem releaseInode_inodeRefs (v : VfsState) (r r' : InodeRef) (flags : Nat) :
    (v.releaseInode r flags).inodeRefs r' = if r' = r then v.inodeRefs r - 1
      else v.inodeRefs r' := by
  cases r with
  | entry ref => exact inodeRefs_setInodeRefs v (.entry ref) r' (v.inodeRefs (.entry ref) - 1)
  | pipe q =>
    obtain ⟨freed, h, -⟩ := releaseInode_pipe v q flags
    rw [h]
    cases r' with
    | entry ref => cases ref <;> rfl
    | pipe p =>
      show ((v.setPipe q _).pipes p).inodeRefs = _
      by_cases hp : p = q
      · rw [hp, setPipe_self, if_pos rfl]
        rfl
      · rw [setPipe_ne v _ hp, if_neg (by simp [hp])]
        rfl

theorem releaseInode_endCount (v : VfsState) (r : InodeRef) (flags p : Nat) (isRead : Bool) :
    ((v.releaseInode r flags).pipes p).endCount isRead
      = if r = .pipe p ∧ flags &&& endFlag isRead ≠ 0 then (v.pipes p).endCount isRead - 1
        else (v.pipes p).endCount isRead := by
  cases r with
  | entry ref =>
    rw [if_neg (by simp)]
    exact setInodeRefs_endCount v (.entry ref) _ p isRead
  | pipe q =>
    obtain ⟨freed, h, -⟩ := releaseInode_pipe v q flags
    rw [h]
    show ((v.setPipe q _).pipes p).endCount isRead = _
    by_cases hp : p = q
    · rw [hp, setPipe_self, Pipe.dropEnd_endCount]
      simp only [true_and]
      rfl
    · rw [setPipe_ne v _ hp, if_neg (by simp [Ne.symm hp])]

theorem releaseInode_freed (v : VfsState) (r : InodeRef) (flags p : Nat) :
    (v.releaseInode r flags).freed.count p
      = v.freed.count p + if r = .pipe p ∧ v.inodeRefs r - 1 = 0 then 1 else 0 := by
  cases r with
  | entry ref =>
    rw [if_neg (by simp), Nat.add_zero]
    exact congrArg (List.count p) (setInodeRefs_keeps v (.entry ref) _).2.2.2
  | pipe q =>
    obtain ⟨freed, h, hfreed⟩ := releaseInode_pipe v q flags
    rw [h]
    show freed.count p = _
    rw [hfreed]
    show _ = v.freed.count p + if InodeRef.pipe q = .pipe p ∧
      (v.pipes q).inodeRefs - 1 = 0 then 1 else 0
    by_cases h0 : (v.pipes q).inodeRefs - 1 = 0
    · rw [if_pos h0, List.count_cons]
      simp [h0]
    · rw [if_neg h0, if_neg (by simp [h0]), Nat.add_zero]

theorem releaseInode_inodeAt (v : VfsState) (r : InodeRef) (flags : Nat) :
    (v.releaseInode r flags).inodeAt = v.inodeAt := by
  funext j
  unfold inodeAt
  rw [(releaseInode_keeps v r flags).1]

/-- The last reference to a file goes. -/
theorem releaseFile_last (h1 : (v.files f).refCount = 1) (hr : v.inodeAt f = some r) :
    v.releaseFile f = (v.releaseInode r (v.files f).flags).setFile f File.free := by
  have hr : (v.files f).inode = some r := hr
  unfold releaseFile
  simp only [h1, hr]
  rfl

theorem releaseFile_fds (v : VfsState) (f : Nat) : (v.releaseFile f).fds = v.fds := by
  unfold releaseFile
  dsimp only
  split
  · rfl
  split
  · rfl
  · split
    · rfl
    · exact (releaseInode_keeps ..).2.1

theorem endAt_some {isRead : Bool} (h : v.endAt isRead f = some p) :
    v.inodeAt f = some (.pipe p) ∧ (v.files f).flags &&& endFlag isRead ≠ 0 := by
  unfold endAt at h
  split at h
  next q hq =>
    split at h
    next hfl =>
      rw [← Option.some.inj h]
      exact ⟨hq, hfl⟩
    · simp at h
  · simp at h

/-- The ends of the pipes without the file. -/
theorem freeFile_endAt (v : VfsState) (f : Nat) (isRead : Bool) :
    (v.setFile f File.free).endAt isRead = Function.update (v.endAt isRead) f none := by
  funext j
  by_cases hj : j = f
  · rw [hj, Function.update_self]
    unfold endAt
    rw [setFile_self]
    rfl
  · rw [Function.update_of_ne hj]
    unfold endAt
    rw [setFile_ne v _ hj]

theorem FilesCounted.release_last (hc : FilesCounted trusted v (f :: held))
    (h1 : (v.files f).refCount = 1) (hr : v.inodeAt f = some r) :
    FilesCounted trusted ((v.releaseInode r flags).setFile f File.free) held := by
  have hkeep := releaseInode_keeps v r flags
  have hat : ((v.releaseInode r flags).setFile f File.free).inodeAt
      = Function.update v.inodeAt f none := by
    rw [setFile_inodeAt, releaseInode_inodeAt]
    rfl
  have hm : f ∈ fileSlots := hc.table f (by rw [hr]; simp)
  have hf := hc.files f
  rw [h1, List.count_cons_self] at hf
  refine ⟨?_, fun j => ?_, fun j => ?_, fun j => ?_, fun r' hr' => ?_⟩
  · show ∀ s f, (v.releaseInode r flags).fds s = some f → s ∈ fdSlots
    rw [hkeep.2.1]
    exact hc.slots
  · show _ = uses fdSlots (v.releaseInode r flags).fds j + _
    rw [hkeep.2.1]
    by_cases hj : j = f
    · rw [hj, setFile_self]
      show 0 = _
      omega
    · rw [setFile_ne _ _ hj, hkeep.1, hc.files j, List.count_cons_of_ne (Ne.symm hj)]
  · rw [hat]
    by_cases hj : j = f
    · rw [hj, setFile_self, Function.update_self]
      simp [File.free]
    · rw [setFile_ne _ _ hj, hkeep.1, Function.update_of_ne hj]
      exact hc.named j
  · rw [hat]
    by_cases hj : j = f
    · rw [hj]
      exact fun _ => hm
    · rw [Function.update_of_ne hj]
      exact hc.table j
  have hu := uses_clear hm hr r'
  rw [setFile_inodeRefs, hat, releaseInode_inodeRefs]
  split
  next he =>
    rw [he] at hr' hu ⊢
    rw [if_pos rfl] at hu
    rw [hc.inodes r hr']
    omega
  next he =>
    rw [if_neg (Ne.symm he)] at hu
    rw [hc.inodes r' hr']
    exact hu.symm

theorem PipesCounted.release_last (hp : PipesCounted v) (hc : FilesCounted trusted v (f :: held))
    (hr : v.inodeAt f = some r) :
    PipesCounted ((v.releaseInode r (v.files f).flags).setFile f File.free) := by
  have hkeep := releaseInode_keeps v r (v.files f).flags
  have hm : f ∈ fileSlots := hc.table f (by rw [hr]; simp)
  have hend : ∀ isRead, ((v.releaseInode r (v.files f).flags).setFile f File.free).endAt isRead
      = Function.update (v.endAt isRead) f none := by
    intro isRead
    rw [freeFile_endAt]
    unfold endAt
    rw [hkeep.1]
  -- the file was the end of at most one pipe, and of none if its flags do not say so
  have huses : ∀ isRead p, uses fileSlots (Function.update (v.endAt isRead) f none) p
      = if r = .pipe p ∧ (v.files f).flags &&& endFlag isRead ≠ 0
        then uses fileSlots (v.endAt isRead) p - 1 else uses fileSlots (v.endAt isRead) p := by
    intro isRead p
    cases he : v.endAt isRead f with
    | some q =>
      obtain ⟨hq, hfl⟩ := endAt_some he
      have hrq : r = .pipe q := Option.some.inj (hr.symm.trans hq)
      have hu := uses_clear hm he p
      by_cases hpq : q = p
      · rw [if_pos hpq] at hu
        rw [if_pos ⟨by rw [hrq, hpq], hfl⟩]
        omega
      · rw [if_neg hpq] at hu
        rw [if_neg (by rw [hrq]; simp [hpq])]
        exact hu
    | none =>
      rw [← he, Function.update_eq_self, if_neg]
      intro hn
      unfold endAt at he
      rw [show (v.files f).inode = some (.pipe p) from hr.trans (congrArg some hn.1)] at he
      simp [hn.2] at he
  refine ⟨fun j p hj => ?_, fun isRead p => ?_, fun isRead p => ?_, fun p => ?_⟩
  · show p < (v.releaseInode r (v.files f).flags).nextPipe
    rw [hkeep.2.2]
    rw [setFile_inodeAt, releaseInode_inodeAt] at hj
    by_cases hjf : j = f
    · rw [hjf, Function.update_self] at hj
      exact absurd hj (by simp [File.free])
    · rw [Function.update_of_ne hjf] at hj
      exact hp.fresh j p hj
  · rw [hend, huses]
    show ((v.releaseInode r (v.files f).flags).pipes p).endCount isRead = _
    rw [releaseInode_endCount, hp.ends]
  · have h1 := hp.single isRead p
    rw [hend, huses]
    split
    · omega
    · exact h1
  have hnext : ((v.releaseInode r (v.files f).flags).setFile f File.free).nextPipe = v.nextPipe :=
    hkeep.2.2
  have hfreed : ((v.releaseInode r (v.files f).flags).setFile f File.free).freed
      = (v.releaseInode r (v.files f).flags).freed := rfl
  rw [hnext, hfreed, setFile_inodeRefs, releaseInode_inodeRefs, releaseInode_freed, hp.freed p]
  by_cases hrp : r = .pipe p
  · subst hrp
    have hlt := hp.fresh f p hr
    have hrefs : v.inodeRefs (.pipe p) ≠ 0 := by
      rw [hc.inodes (.pipe p) trivial]
      exact Nat.ne_of_gt (uses_pos hm hr)
    rw [if_pos rfl, if_neg (by simp [hrefs])]
    simp [hlt]
  · rw [if_neg (Ne.symm hrp)]
    simp [hrp]

/-- A file that was held is released. -/
theorem Counted.releaseFile (hc : Counted trusted v (f :: held)) :
    Counted trusted (v.releaseFile f) held := by
  have hf := hc.files.files f
  rw [List.count_cons_self] at hf
  have h0 : (v.files f).refCount ≠ 0 := by omega
  by_cases h1 : (v.files f).refCount = 1
  · cases hr : v.inodeAt f with
    | none => exact absurd ((hc.files.named f).mpr hr) h0
    | some r =>
      rw [releaseFile_last h1 hr]
      exact ⟨hc.files.release_last h1 hr, hc.pipes.release_last hc.files hr⟩
  · unfold VfsState.releaseFile
    rw [if_neg h0, if_pos h1]
    refine hc.setRefs h0 (by omega) (by omega) fun j hj => ?_
    rw [List.count_cons_of_ne (Ne.symm hj)]

end VfsState

end Riverix.Vfs
