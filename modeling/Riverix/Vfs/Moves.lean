import Riverix.Vfs.FdCounts

/-!
# What the file layer does, move by move

Every call on files is a sequence of a few moves: a file is opened, retained or released, it
is put into a descriptor or taken out of one, its offset changes, bytes go through a pipe, a
pipe is made, and the file system does its part. A move is taken in a state together with
the files that the kernel holds. `changes` says how the file system may change, and `only`
whose descriptors may.

What every move keeps every call keeps: the counts (`Moves.counted`) and the descriptors of
all other tasks (`Moves.others`).
-/

namespace Riverix.Vfs

open Riverix.Lib Riverix.Fs Riverix.Proc

namespace VfsState

/-- The files of a pipe that was made. -/
def pipeFiles : Option (Nat × Nat) → List Nat
  | none => []
  | some (a, b) => [a, b]

inductive Move (changes : Simplefs → Simplefs → Prop) (only : Nat → Prop) :
    VfsState × List Nat → VfsState × List Nat → Prop
  | change {v held fs} (h : changes v.fs fs) : Move changes only (v, held) ({ v with fs }, held)
  | offset {v held f} (h : f ∈ held ∨ (v.files f).inode ≠ none) (offset : Nat) :
    Move changes only (v, held) (v.setFile f { v.files f with offset }, held)
  | transfer (v held) (p : Nat) (ring : Ring Byte pipeBufferSize) :
    Move changes only (v, held) (v.setPipe p { v.pipes p with ring }, held)
  | openEntry {v v' held ref flags grant f} (h : v.openInode (.entry ref) flags grant
    = (v', some f)) :
    Move changes only (v, held) (v', f :: held)
  | retain {v : VfsState} {held f s} (h : v.fds s = some f) :
    Move changes only (v, held) (v.retainFile f, f :: held)
  | clone {v : VfsState} {held f s} (h : v.fds s = some f) :
    Move changes only (v, held)
      (v.setFile f { v.files f with refCount := (v.files f).refCount + 1 }, f :: held)
  | release (v f held) : Move changes only (v, f :: held) (v.releaseFile f, held)
  | install {v : VfsState} {held f c fd} (hc : only c) (hm : (c, fd) ∈ fdSlots)
    (h : v.fds (c, fd) = none) :
    Move changes only (v, f :: held) (v.setFd c fd (some f), held)
  | uninstall {v : VfsState} {held f c fd} (hc : only c) (h : v.fds (c, fd) = some f) :
    Move changes only (v, held) (v.setFd c fd none, f :: held)
  | createPipe (v : VfsState) (held) (allocated : Bool) :
    Move changes only (v, held) ((v.createPipe allocated).1,
      pipeFiles (v.createPipe allocated).2 ++ held)
  | reorder (v) {held held' : List Nat} (h : held.Perm held') : Move changes only (v,
    held) (v, held')

/-- Any number of moves. -/
def Moves (changes : Simplefs → Simplefs → Prop) (only : Nat → Prop) :
    VfsState × List Nat → VfsState × List Nat → Prop := Relation.ReflTransGen (Move changes only)

variable {changes : Simplefs → Simplefs → Prop} {only : Nat → Prop} {trusted : Prop}
  {a b d : VfsState × List Nat} {v v' : VfsState} {held : List Nat} {f c fd flags : Nat}
  {credentials : Option Credentials} {path : List Byte}

theorem Moves.refl : Moves changes only a a := Relation.ReflTransGen.refl

theorem Moves.trans (h : Moves changes only a b) (h' : Moves changes only b d) :
    Moves changes only a d :=
  Relation.ReflTransGen.trans h h'

theorem Moves.step (h : Moves changes only a b) (h' : Move changes only b d) :
    Moves changes only a d :=
  Relation.ReflTransGen.tail h h'

theorem Moves.result {α : Type} {p : VfsState × α} {out : α} (h : Moves changes only a (p.1, held))
    (he : p = (v', out)) : Moves changes only a (v', held) := by
  rw [he] at h
  exact h

theorem Move.moves (h : Move changes only a b) :
    Moves changes only a b := Relation.ReflTransGen.single h

/-- What every move keeps. -/
theorem Moves.keeps {T : VfsState × List Nat → Prop}
    (hmove : ∀ a b, Move changes only a b → T a → T b) (h : Moves changes only a b)
    (ha : T a) : T b := by
  induction h with
  | refl => exact ha
  | tail _ hm ih => exact hmove _ _ hm ih

theorem Move.counted (hsame : ∀ fs fs', changes fs fs' → trusted → Simplefs.SameRefs fs fs')
    (h : Move changes only a b) (hc : Counted trusted a.1 a.2) : Counted trusted b.1 b.2 := by
  cases h with
  | change h => exact hc.same (SameCounts.of_fs (hsame _ _ h))
  | offset _ n => exact hc.same (SameCounts.setOffset ..)
  | transfer v held p ring => exact hc.same (SameCounts.setPipe ⟨rfl, rfl, rfl⟩)
  | openEntry h => exact hc.openEntry h
  | retain h => exact hc.retainFile (hc.refCount_ne_zero h)
  | clone h =>
    have hret := hc.retainFile (hc.refCount_ne_zero h)
    unfold VfsState.retainFile at hret
    rw [if_pos (hc.refCount_ne_zero h)] at hret
    exact hret
  | release v f held => exact hc.releaseFile
  | install _ hm h => exact hc.install h hm
  | uninstall _ h => exact hc.uninstall h
  | createPipe v held allocated =>
    have hp := createPipe_opened hc allocated
    cases hr : (v.createPipe allocated).2 with
    | none => exact hp.failed hr
    | some ends => exact (hp.opened ends.1 ends.2 hr).perm (List.Perm.swap ..)
  | reorder v h => exact hc.perm h

/-- The counts are kept if the file system keeps those of its inodes. -/
theorem Moves.counted (hsame : ∀ fs fs', changes fs fs' → trusted → Simplefs.SameRefs fs fs')
    (h : Moves changes only a b) (hc : Counted trusted a.1 a.2) : Counted trusted b.1 b.2 :=
  h.keeps (T := fun a => Counted trusted a.1 a.2) (fun _ _ hm => hm.counted hsame) hc

theorem Move.others (h : Move changes only a b) {s : Nat × Nat} (hs : ¬only s.1) :
    b.1.fds s = a.1.fds s := by
  have hne : ∀ {c fd}, only c → s ≠ (c, fd) := fun hc he => hs (by rw [he]; exact hc)
  cases h with
  | @openEntry v v' held ref flags grant f h =>
    have hfds := openInode_fds v (.entry ref) flags grant
    exact congrFun (via (P := fun v' => v'.fds = v.fds) hfds h) s
  | retain h => exact congrFun (retainFile_fds ..) s
  | release v f held => exact congrFun (releaseFile_fds ..) s
  | install hc _ _ => exact Function.update_of_ne (hne hc) ..
  | uninstall hc _ => exact Function.update_of_ne (hne hc) ..
  | createPipe v held allocated => exact congrFun (createPipe_fds ..) s
  | _ => rfl

/-- The descriptors of the other tasks stay. -/
theorem Moves.others (h : Moves changes only a b) {s : Nat × Nat} (hs : ¬only s.1) :
    b.1.fds s = a.1.fds s :=
  h.keeps (T := fun b => b.1.fds s = a.1.fds s) (fun _ _ hm he => (hm.others hs).trans he) rfl

theorem Moves.fds (h : Moves changes (fun _ => False) a b) : b.1.fds = a.1.fds :=
  funext fun _ => h.others id

/-- A loop whose turns are moves. -/
theorem foldl_moves {α : Type} {turn : VfsState → α → VfsState}
    (h : ∀ v x, Moves changes only (v, held) (turn v x, held)) (l : List α) :
    ∀ v, Moves changes only (v, held) (l.foldl turn v, held) := by
  induction l with
  | nil => exact fun v => Moves.refl
  | cons x l ih => exact fun v => (h v x).trans (ih _)

/-! ## Descriptors -/

theorem closeFd_moves (hc : only c) (v : VfsState) (fd : Nat) :
    Moves changes only (v, held) ((v.closeFd c fd).1, held) := by
  unfold closeFd
  split
  · exact Moves.refl
  next f h => exact (Move.uninstall hc (lookupFd_some h).2).moves.step (.release ..)

/-- A file in a descriptor gets another one, which is free. -/
theorem copyFd_moves (hc : only c) {s : Nat × Nat} (hsome : v.fds s = some f)
    (hm : (c, fd) ∈ fdSlots) (hnone : v.fds (c, fd) = none) :
    Moves changes only (v, held) ((v.retainFile f).setFd c fd (some f), held) :=
  (Move.retain hsome).moves.step (.install hc hm (by rw [retainFile_fds]; exact hnone))

theorem dup_moves (hc : only c) (hlt : c < maxTasks) (v : VfsState) (fd : Nat) :
    Moves changes only (v, held) ((v.dup c fd).1, held) := by
  unfold dup
  split
  · exact Moves.refl
  next f hf =>
  split
  · exact Moves.refl
  next newFd hn =>
    obtain ⟨hfd, hnone⟩ := allocateFdSlot_some hn
    exact copyFd_moves hc (lookupFd_some hf).2 (mem_fdSlots.mpr ⟨hlt, hfd⟩) hnone

theorem dup2_moves (hc : only c) (hlt : c < maxTasks) (v : VfsState) (oldFd newFd : Nat) :
    Moves changes only (v, held) ((v.dup2 c oldFd newFd).1, held) := by
  unfold dup2
  split
  · exact Moves.refl
  next f hf =>
  split
  · exact Moves.refl
  next hnew =>
  rw [Nat.not_le] at hnew
  split
  · exact Moves.refl
  next hne =>
  refine (closeFd_moves hc v newFd).trans (copyFd_moves hc (s := (c, oldFd)) ?_
    (mem_fdSlots.mpr ⟨hlt, hnew⟩) (closeFd_closes v c hnew))
  rw [closeFd_fds v c newFd _ (by simp [hne])]
  exact (lookupFd_some hf).2

theorem sysPipe_moves (hc : only c) (hlt : c < maxTasks) (v : VfsState) (allocated copied : Bool) :
    Moves changes only (v, held) ((v.sysPipe c allocated copied).1, held) := by
  unfold sysPipe
  split
  · exact Moves.refl
  next readFd hr =>
  obtain ⟨hrlt, hrnone⟩ := allocateFdSlot_some hr
  split
  · exact Moves.refl
  next writeFd hw =>
  obtain ⟨hwlt, hne, hwnone⟩ := allocateFdSlotExcluding_some hw
  have hp : Moves changes only _ _ := (Move.createPipe v held allocated).moves
  have hfds := createPipe_fds v allocated
  split
  next v₁ h =>
    rw [h] at hp
    exact hp
  next v₁ a b h =>
  rw [h] at hp hfds
  have hboth : Moves changes only (v, held)
      ((v₁.setFd c readFd (some a)).setFd c writeFd (some b), held) := by
    refine (hp.step (.install hc (mem_fdSlots.mpr ⟨hlt, hrlt⟩) ?_)).step
      (.install hc (mem_fdSlots.mpr ⟨hlt, hwlt⟩) ?_)
    · rw [hfds]
      exact hrnone
    · show Function.update v₁.fds (c, readFd) (some a) (c, writeFd) = none
      rw [Function.update_of_ne (by simp [hne]), hfds]
      exact hwnone
  split
  · exact hboth
  · exact (hboth.trans (closeFd_moves hc _ readFd)).trans (closeFd_moves hc _ writeFd)

theorem detachFds_moves (hc : only c) (v : VfsState) :
    Moves changes only (v, held) (v.detachFds c, held) := by
  refine foldl_moves (fun v fd => ?_) _ v
  unfold detachFd
  split
  · exact Moves.refl
  next f hf =>
    rw [← releaseFile_setFd]
    exact (Move.uninstall hc hf).moves.step (.release ..)

theorem detachFds_others (v : VfsState) {s : Nat × Nat} (hs : s.1 ≠ c) :
    (v.detachFds c).fds s = v.fds s := by
  have hm : Moves (fun _ _ => True) (· = c) (v, []) (v.detachFds c, []) := by
    refine detachFds_moves ?_ v
    rfl
  exact hm.others hs

/-- The new task had no descriptors. -/
theorem cloneFds_moves {parent child : Nat} (hc : only child) (hchild : child < maxTasks)
    (hnone : ∀ fd, v.fds (child, fd) = none) :
    Moves changes only (v, held) (v.cloneFds parent child, held) := by
  have hturn : ∀ (v : VfsState) (fd : Nat), fd < maxFds → v.fds (child, fd) = none →
      Moves changes only (v, held) (cloneFd parent child v fd, held) := by
    intro v fd hlt hnone
    unfold cloneFd
    split
    next =>
      have hsame : v.setFd child fd none = v := by
        unfold VfsState.setFd
        rw [← hnone, Function.update_eq_self]
      rw [hsame]
      exact Moves.refl
    next f hf =>
      exact (Move.clone hf).moves.step (.install hc (mem_fdSlots.mpr ⟨hchild, hlt⟩) hnone)
  have hfold : ∀ (l : List Nat) (v : VfsState), l.Nodup →
      (∀ fd ∈ l, fd < maxFds ∧ v.fds (child, fd) = none) →
      Moves changes only (v, held) (l.foldl (cloneFd parent child) v, held) := by
    intro l
    induction l with
    | nil => exact fun v _ _ => Moves.refl
    | cons fd l ih =>
      intro v hnd hnone
      rw [List.nodup_cons] at hnd
      obtain ⟨hlt, hfree⟩ := hnone fd List.mem_cons_self
      refine (hturn v fd hlt hfree).trans (ih _ hnd.2 fun fd' hfd' => ?_)
      obtain ⟨hlt', hfree'⟩ := hnone fd' (List.mem_cons_of_mem _ hfd')
      rw [cloneFd_fds, Function.update_of_ne]
      · exact ⟨hlt', hfree'⟩
      · intro he
        rw [(Prod.mk.inj he).2] at hfd'
        exact hnd.1 hfd'
  exact hfold _ v List.nodup_range fun fd hfd => ⟨List.mem_range.mp hfd, hnone fd⟩

/-! ## Paths -/

theorem openInode_files {r : InodeRef} {grant : Option Grant}
    (h : v.openInode r flags grant = (v', some f)) :
    v'.files f = ⟨some r, flags, 0, 1, grant⟩ ∧ ∀ j, j ≠ f → v'.files j = v.files j := by
  obtain ⟨-, rfl⟩ := openInode_some h
  rw [(setInodeRefs_keeps ..).1]
  exact ⟨setFile_self .., fun j hj => setFile_ne v _ hj⟩

theorem openEntry_moves (v : VfsState) (ref : NodeRef) (flags : Nat) (grant : Option Grant) :
    Moves changes only (v, held) ((v.openInode (.entry ref) flags grant).1,
      (v.openInode (.entry ref) flags grant).2.toList ++ held) := by
  cases h : v.openInode (.entry ref) flags grant with
  | mk v' opened =>
    cases opened with
    | none =>
      rw [openInode_none h]
      exact Moves.refl
    | some f => exact (Move.openEntry h).moves

theorem openPath_moves (v : VfsState) (path : List Byte) (flags : Nat)
    (credentials : Option Credentials) :
    Moves changes only (v, held) ((v.openPath path flags credentials).1,
      (v.openPath path flags credentials).2.toList ++ held) := by
  unfold openPath
  split
  · exact Moves.refl
  · exact openEntry_moves ..

theorem openPath_none (h : v.openPath path flags credentials = (v', none)) : v' = v := by
  unfold openPath at h
  split at h
  · exact (Prod.mk.inj h).1.symm
  · exact openInode_none h

/-- An open that fails was refused: it asked whether there is a file to open. -/
theorem openPath_refused (h : v.openPath path flags credentials = (v', none)) :
    ∃ refusal, (treeOf v.fs).openPath path flags credentials v.allocFile.isSome
      = .error refusal := by
  unfold openPath at h
  split at h
  next refusal he => exact ⟨refusal, he⟩
  next id he =>
  cases hf : v.allocFile with
  | some f =>
    unfold openInode at h
    rw [hf] at h
    exact absurd (Prod.mk.inj h).2 (by simp)
  | none =>
    rw [hf] at he
    unfold Tree.openPath at he
    split at he
    · simp at he
    split at he
    · simp at he
    split at he
    · simp at he
    split at he
    · simp at he
    · simp at he

/-- The file system may change as a creation at this path makes it change. -/
def Creates (changes : Simplefs → Simplefs → Prop) (v : VfsState) (path : List Byte) (isDir : Bool)
    (mode : Nat) (credentials : Option Credentials) : Prop :=
  ∀ parent name d, (treeOf v.fs).createParent path credentials = .ok (parent, name) →
    nodeOf parent = .node d →
    changes v.fs (v.fs.createChild d isDir name mode (uidOf credentials) (gidOf credentials)).1

theorem createChild_moves {parent : Nat} {isDir : Bool} {name : List Byte} {mode : Nat}
    (hp : (treeOf v.fs).createParent path credentials = .ok (parent, name))
    (h : Creates changes v path isDir mode credentials) :
    Moves changes only (v, held) ((v.createChild parent isDir name mode credentials).1, held) := by
  unfold createChild
  split
  next d hd => exact (Move.change (h parent name d hp hd)).moves
  · exact Moves.refl

theorem createPath_moves (h : Creates changes v path false fileMode credentials) (flags : Nat) :
    Moves changes only (v, held) ((v.createPath path flags credentials).1,
      (v.createPath path flags credentials).2.toList ++ held) := by
  unfold createPath
  split
  · exact Moves.refl
  next parent name hp =>
  have hmade : Moves changes only (v, held) _ := createChild_moves hp h
  split
  next v₁ h₁ => exact hmade.result h₁
  next v₁ i h₁ => exact (hmade.result h₁).trans (openEntry_moves ..)

theorem openOrCreate_moves
    (h : flags &&& 4 ≠ 0 →
      (∃ refusal, (treeOf v.fs).openPath path (flags &&& 0xB) credentials v.allocFile.isSome
        = .error refusal) →
      Creates changes v path false fileMode credentials) :
    Moves changes only (v, held) ((v.openOrCreate path flags credentials).1,
      (v.openOrCreate path flags credentials).2.toList ++ held) := by
  unfold openOrCreate
  split
  next v₁ f h₁ =>
    have ho : Moves changes only (v, held) _ := openPath_moves v path (flags &&& 0xB) credentials
    rw [h₁] at ho
    exact ho
  next v₁ h₁ =>
  have hr := openPath_refused h₁
  rw [openPath_none h₁]
  split
  · exact Moves.refl
  next hflag => exact createPath_moves (h hflag hr) _

theorem openOrCreate_fds (v : VfsState) (path : List Byte) (flags : Nat)
    (credentials : Option Credentials) : (v.openOrCreate path flags credentials).1.fds = v.fds :=
  (openOrCreate_moves fun _ _ _ _ _ _ _ => trivial : Moves (fun _ _ => True) _ (v, []) _).fds

/-! ## What may change besides -/

/-- The file system may change in every way but by a creation. -/
structure Works (changes : Simplefs → Simplefs → Prop) : Prop where
  reads : ∀ fs i offset length, changes fs (fs.regularRead i offset length).1
  writes : ∀ fs i offset data, changes fs (fs.regularWrite i offset data).1
  resizes : ∀ fs i length, changes fs (fs.resizeNode i length).1
  removes : ∀ fs d name, changes fs (fs.removeChild d name).1
  devices : ∀ (fs : Simplefs) (dev : Device), fs.dev.Kept dev → changes fs { fs with dev }

section Works

variable (hw : Works changes)

include hw

theorem truncateFile_moves (v : VfsState) (f length : Nat) :
    Moves changes only (v, held) ((v.truncateFile f length).1, held) := by
  unfold truncateFile
  split
  next i hi =>
    have h := hw.resizes v.fs i length
    split
    next fs he => exact (Move.change (via h he)).moves
    next fs he =>
    refine (Move.change (via h he)).moves.step (Move.offset (f := f) (Or.inr ?_) _)
    show (v.files f).inode ≠ none
    rw [hi]
    simp
  · exact Moves.refl

omit hw in
theorem truncateFile_fds (v : VfsState) (f length : Nat) :
    (v.truncateFile f length).1.fds = v.fds :=
  (truncateFile_moves (by constructor <;> intros <;> trivial) v f length :
    Moves (fun _ _ => True) _ (v, []) _).fds

/-- `proc_open_fd`: the descriptor is still free when the file has been opened. -/
theorem openFd_moves {credentials : Credentials} (hc : only c) (hlt : c < maxTasks)
    (h : ¬(flags &&& 3 = 0 ∨ flags ≥ 16 ∨ flags &&& 4 = 0 ∨ v.allocateFdSlot c = none) →
      (∃ refusal, (treeOf v.fs).openPath path (flags &&& 0xB) (some credentials) v.allocFile.isSome
        = .error refusal) → Creates changes v path false fileMode (some credentials)) :
    Moves changes only (v, held) ((v.openFd c credentials path flags).1, held) := by
  unfold openFd
  split
  · exact Moves.refl
  next hflags =>
  split
  · exact Moves.refl
  next fd hfd =>
  obtain ⟨hfdlt, hfree⟩ := allocateFdSlot_some hfd
  have ho : Moves changes only (v, held) ((v.openOrCreate path flags (some credentials)).1,
      (v.openOrCreate path flags (some credentials)).2.toList ++ held) := by
    refine openOrCreate_moves fun hcreate => h ?_
    rw [hfd]
    simp only [not_or] at hflags ⊢
    exact ⟨hflags.1, hflags.2, hcreate, by simp⟩
  have hfds := openOrCreate_fds v path flags (some credentials)
  split
  next v₁ h₁ =>
    rw [h₁] at ho
    exact ho
  next v₁ f h₁ =>
  rw [h₁] at ho hfds
  have hm : (c, fd) ∈ fdSlots := mem_fdSlots.mpr ⟨hlt, hfdlt⟩
  have hnone : v₁.fds (c, fd) = none := (congrFun hfds _).trans hfree
  split
  · have ht : Moves changes only (v₁, f :: held) _ := truncateFile_moves hw v₁ f 0
    have hfds' := truncateFile_fds v₁ f 0
    split
    next v₂ h₂ => exact (ho.trans (ht.result h₂)).step (.release ..)
    next v₂ h₂ =>
      rw [h₂] at hfds'
      exact (ho.trans (ht.result h₂)).step (.install hc hm ((congrFun hfds' _).trans hnone))
  · exact ho.step (.install hc hm hnone)

theorem unlinkPath_moves (v : VfsState) (path : List Byte) (credentials : Option Credentials) :
    Moves changes only (v, held) ((v.unlinkPath path credentials).1, held) := by
  unfold unlinkPath
  split
  · exact Moves.refl
  split
  · exact Moves.refl
  · unfold removeChild
    split
    · exact (Move.change (hw.removes ..)).moves
    · exact Moves.refl

/-! ## Reading, writing and seeking -/

theorem readFile_moves (v : VfsState) (f length : Nat) (device : ReadResult) :
    Moves changes only (v, held) ((v.readFile f length device).1, held) := by
  unfold readFile
  dsimp only
  split
  · exact Moves.refl
  split
  · exact Moves.refl
  · exact (Move.transfer ..).moves
  next i hi =>
    split
    · have h := hw.reads v.fs i (v.files f).offset length
      split
      next fs he => exact (Move.change (via h he)).moves
      next fs bytes offset he =>
      refine (Move.change (via h he)).moves.step (Move.offset (f := f) (Or.inr ?_) offset)
      show (v.files f).inode ≠ none
      rw [hi]
      simp
    · exact Moves.refl
  · exact Moves.refl

theorem writeFile_moves (v : VfsState) (f : Nat) (data : List Byte) :
    Moves changes only (v, held) ((v.writeFile f data).1, held) := by
  unfold writeFile
  dsimp only
  split
  · exact Moves.refl
  split
  · exact Moves.refl
  next p hp =>
    have heq : ((v.pipes p).write data).1
        = { v.pipes p with ring := ((v.pipes p).write data).1.ring } := by
      unfold Pipe.write
      split <;> rfl
    rw [heq]
    exact (Move.transfer ..).moves
  next i hi =>
    split
    · have h := hw.writes v.fs i (v.files f).offset data
      split
      next fs he => exact (Move.change (via h he)).moves
      next fs count offset he =>
      refine (Move.change (via h he)).moves.step (Move.offset (f := f) (Or.inr ?_) offset)
      show (v.files f).inode ≠ none
      rw [hi]
      simp
    · exact Moves.refl
  · exact Moves.refl

theorem readLoop_moves (f length : Nat) (device : Nat → ReadResult) (copies : Nat → Bool)
    (turns : Nat) :
    ∀ (v : VfsState) (done : List Byte),
      Moves changes only (v, held) ((readLoop f length device copies turns v done).1, held) := by
  induction turns with
  | zero => exact fun v done => Moves.refl
  | succ turns ih =>
    intro v done
    have hm : Moves changes only (v, held) _ :=
      readFile_moves hw v f (min (length - done.length) ioChunk) (device done.length)
    unfold readLoop
    split
    · exact Moves.refl
    dsimp only
    split
    next v₁ h => exact hm.result h
    next v₁ h => exact hm.result h
    next v₁ bytes h =>
    split
    · exact hm.result h
    split
    · exact hm.result h
    split
    · exact hm.result h
    · exact (hm.result h).trans (ih v₁ _)

theorem writeLoop_moves (f : Nat) (data : List Byte) (copies : Nat → Bool) (turns : Nat) :
    ∀ (v : VfsState) (done : Nat),
      Moves changes only (v, held) ((writeLoop f data copies turns v done).1, held) := by
  induction turns with
  | zero => exact fun v done => Moves.refl
  | succ turns ih =>
    intro v done
    have hm : Moves changes only (v, held) _ :=
      writeFile_moves hw v f ((data.drop done).take (min (data.length - done) ioChunk))
    unfold writeLoop
    split
    · exact Moves.refl
    dsimp only
    split
    · exact Moves.refl
    split
    next v₁ h => exact hm.result h
    next v₁ h => exact hm.result h
    next v₁ n h =>
      split
      · exact hm.result h
      · exact (hm.result h).trans (ih v₁ _)

end Works

theorem seekFile_moves (v : VfsState) (f : Nat) (offset : Int) (whence : Nat) :
    Moves changes only (v, held) ((v.seekFile f offset whence).1, held) := by
  unfold seekFile
  split
  · exact Moves.refl
  next r hr =>
    split
    · exact Moves.refl
    · exact (Move.offset (Or.inr (by rw [hr]; simp)) _).moves

theorem mkdirPath_moves (h : Creates changes v path true dirMode credentials) :
    Moves changes only (v, held) ((v.mkdirPath path credentials).1, held) := by
  unfold mkdirPath
  split
  · exact Moves.refl
  next parent name hp => exact createChild_moves hp h

/-- A task with no descriptors gets its standard files. -/
theorem attachStdio_moves {credentials : Credentials} (hc : only c) (hlt : c < maxTasks)
    (hnone : ∀ fd, v.fds (c, fd) = none) (h : v.attachStdio c credentials = (v', true)) :
    Moves changes only (v, []) (v', []) := by
  have hm : ∀ fd, fd < 3 → (c, fd) ∈ fdSlots := fun fd hfd =>
    mem_fdSlots.mpr ⟨hlt, Nat.lt_trans hfd (by decide)⟩
  have hopen : ∀ {changes only} {w w' : VfsState} {held : List Nat} {flags f : Nat},
      w.openPath consolePath flags (some credentials) = (w', some f) →
      Moves changes only (w, held) (w', f :: held) := by
    intro changes only w w' held flags f ho
    have hmoves : Moves changes only (w, held) _ :=
      openPath_moves w consolePath flags (some credentials)
    rw [ho] at hmoves
    exact hmoves
  unfold attachStdio at h
  split at h
  · exact absurd (Prod.mk.inj h).2 (by simp)
  next v₁ stdin h₁ =>
  split at h
  · exact absurd (Prod.mk.inj h).2 (by simp)
  next v₂ stdout h₂ =>
  split at h
  · exact absurd (Prod.mk.inj h).2 (by simp)
  next v₃ stderr h₃ =>
  have hopened : ∀ {changes only}, Moves changes only (v, []) (v₃, [stdin, stdout, stderr]) :=
    (((hopen h₁).trans (hopen h₂)).trans (hopen h₃)).step
      (.reorder v₃ (List.reverse_perm [stdin, stdout, stderr]))
  have hfds : v₃.fds = v.fds := (hopened : Moves (fun _ _ => True) _ _ _).fds
  rw [← (Prod.mk.inj h).1]
  refine ((hopened.step (.install hc (hm 0 (by decide)) ?_)).step
    (.install hc (hm 1 (by decide)) ?_)).step (.install hc (hm 2 (by decide)) ?_)
  · rw [hfds]
    exact hnone 0
  · show Function.update v₃.fds (c, 0) _ (c, 1) = none
    rw [Function.update_of_ne (by simp), hfds]
    exact hnone 1
  · show Function.update (Function.update v₃.fds (c, 0) _) (c, 1) _ (c, 2) = none
    rw [Function.update_of_ne (by simp), Function.update_of_ne (by simp), hfds]
    exact hnone 2

/-! ## The reference counts of the inodes -/

/-- The inode that a creation at this path takes, if it comes to that. -/
def createTakes (v : VfsState) (path : List Byte) (credentials : Option Credentials) : Option Nat :=
  match (treeOf v.fs).createParent path credentials with
  | .error _ => none
  | .ok (parent, leafName) =>
    match nodeOf parent with
    | .node d => v.fs.takenInode d leafName
    | _ => none

/-- The inode that `proc_open_fd` takes, if it has to create one. -/
def openTakes (v : VfsState) (c : Nat) (credentials : Credentials) (path : List Byte)
    (flags : Nat) : Option Nat :=
  if flags &&& 3 = 0 ∨ flags ≥ 16 ∨ flags &&& 4 = 0 ∨ v.allocateFdSlot c = none then none
  else
    match (treeOf v.fs).openPath path (flags &&& 0xB) (some credentials) v.allocFile.isSome with
    | .ok _ => none
    | .error _ => v.createTakes path (some credentials)

/-- Nobody has the inode open. -/
def Closed (v : VfsState) (taken : Option Nat) : Prop :=
  ∀ i, taken = some i → (v.fs.nodes i).vfs.refCount = 0

instance (v : VfsState) (taken : Option Nat) : Decidable (v.Closed taken) :=
  match taken with
  | none => isTrue fun _ h => absurd h (by simp)
  | some i => decidable_of_iff ((v.fs.nodes i).vfs.refCount = 0)
    ⟨fun h _ hj => Option.some.inj hj ▸ h, fun h => h i rfl⟩

/-- The inodes keep their counts, in a file system that is trusted. -/
def KeepsRefs (trusted : Prop) (fs fs' : Simplefs) : Prop := trusted → Simplefs.SameRefs fs fs'

theorem keepsRefs_works : Works (KeepsRefs trusted) where
  reads _ _ _ _ _ := .of_tree (Simplefs.regularRead_onDevice ..).tree
  writes _ _ _ _ _ := .of_tree (Simplefs.regularWrite_aside ..).tree
  resizes _ _ _ _ := .of_tree (Simplefs.resizeNode_aside ..).tree
  removes fs d name _ := Simplefs.removeChild_sameRefs fs d name
  devices _ _ _ _ := .of_nodes rfl

/-- Creating keeps them if nobody has the inode open that is taken. -/
theorem keepsRefs_creates (h : trusted → v.Closed (v.createTakes path credentials)) (isDir : Bool)
    (mode : Nat) :
    Creates (KeepsRefs trusted) v path isDir mode credentials := by
  intro parent name d hp hd ht
  refine Simplefs.createChild_sameRefs (fun i hi => h ht i ?_) isDir mode _ _
  unfold createTakes
  rw [hp]
  dsimp only
  rw [hd]
  exact hi

end VfsState

end Riverix.Vfs
