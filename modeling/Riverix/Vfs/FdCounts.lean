import Riverix.Vfs.Counts

/-!
# Descriptors and new pipes

Putting a file into a descriptor or taking it out of one keeps the counts, and so does
`vfs_create_pipe`, with every way in which it can fail half-way: a pipe that is being made is
the one thing for which the counts do not hold in between (`Building`).

A file that the kernel has in its hands, between its opening and the descriptor it is for, is
in the list `held` of `Counted`, and counts there once for each time it is in it. So opening
moves a file into the list, installing it moves it on into the descriptor, and on a failure it
is released from the list; none of these changes a sum. The ends of a pipe are different:
`vfs_create_pipe` sets both counts at once, after both files are open, and up to then they are
too small by the files that already name the pipe.
-/

namespace Riverix.Vfs

open Riverix.Lib Riverix.Fs Riverix.Proc

namespace VfsState

variable {trusted : Prop} {v v' : VfsState} {held : List Nat} {f c fd p : Nat}
  {r : InodeRef} {flags : Nat}
  {grant : Option Grant}

theorem setFd_inodeRefs (v : VfsState) (c fd : Nat) (file : Option Nat) (r : InodeRef) :
    (v.setFd c fd file).inodeRefs r = v.inodeRefs r := by
  cases r with
  | pipe p => rfl
  | entry ref => cases ref <;> rfl

/-- Only the descriptors are different, and they point where the counts say. -/
theorem Counted.setFd {held' : List Nat} {file : Option Nat} (hc : Counted trusted v held)
    (hslots : file ≠ none → (c, fd) ∈ fdSlots)
    (hfiles : ∀ j, uses fdSlots (Function.update v.fds (c, fd) file) j + held'.count j
      = uses fdSlots v.fds j + held.count j) : Counted trusted (v.setFd c fd file) held' := by
  refine ⟨⟨fun s j hj => ?_, fun j => (hc.files.files j).trans (hfiles j).symm, hc.files.named,
    hc.files.table, fun r => ?_⟩, ⟨hc.pipes.fresh, hc.pipes.ends, hc.pipes.single, hc.pipes.freed⟩⟩
  · replace hj : Function.update v.fds (c, fd) file s = some j := hj
    by_cases hs : s = (c, fd)
    · rw [hs, Function.update_self] at hj
      rw [hs]
      exact hslots (by rw [hj]; simp)
    · rw [Function.update_of_ne hs] at hj
      exact hc.files.slots s j hj
  · rw [setFd_inodeRefs]
    exact hc.files.inodes r

/-- The order in which files are held does not matter. -/
theorem Counted.perm {held' : List Nat} (hc : Counted trusted v held) (h : held.Perm held') :
    Counted trusted v held' :=
  ⟨⟨hc.files.slots, fun j => by rw [hc.files.files j, h.count_eq], hc.files.named, hc.files.table,
    hc.files.inodes⟩, hc.pipes⟩

/-- A file that was held is put into a descriptor. -/
theorem Counted.install (hc : Counted trusted v (f :: held)) (hnone : v.fds (c, fd) = none)
    (hm : (c, fd) ∈ fdSlots) : Counted trusted (v.setFd c fd (some f)) held := by
  refine hc.setFd (fun _ => hm) fun j => ?_
  rw [uses_fill hm hnone, List.count_cons]
  by_cases hj : f = j
  · simp [hj]
    omega
  · simp [hj]

/-- A file is taken out of a descriptor and held. -/
theorem Counted.uninstall (hc : Counted trusted v held) (hsome : v.fds (c, fd) = some f) :
    Counted trusted (v.setFd c fd none) (f :: held) := by
  have hm := hc.files.slots _ _ hsome
  refine hc.setFd (fun h => absurd rfl h) fun j => ?_
  have hu := uses_clear hm hsome j
  rw [List.count_cons]
  by_cases hj : f = j
  · rw [if_pos hj] at hu
    simp [hj]
    omega
  · rw [if_neg hj] at hu
    simp [hj]
    omega

/-- A file in a descriptor is open. -/
theorem Counted.refCount_ne_zero (hc : Counted trusted v held) (hsome : v.fds (c, fd) = some f) :
    (v.files f).refCount ≠ 0 := by
  rw [hc.files.files f]
  have := uses_pos (hc.files.slots _ _ hsome) hsome
  omega

theorem lookupFd_some (h : v.lookupFd c fd = some f) : fd < maxFds ∧ v.fds (c, fd) = some f := by
  unfold lookupFd at h
  split at h
  next hlt => exact ⟨hlt, h⟩
  · simp at h

theorem allocateFdSlot_some (h : v.allocateFdSlot c = some fd) :
    fd < maxFds ∧ v.fds (c, fd) = none := by
  have hf := List.find?_some h
  rw [beq_iff_eq] at hf
  exact ⟨List.mem_range.mp (List.mem_of_find?_eq_some h), hf⟩

theorem allocateFdSlotExcluding_some {excluded : Nat}
    (h : v.allocateFdSlotExcluding c excluded = some fd) :
    fd < maxFds ∧ fd ≠ excluded ∧ v.fds (c, fd) = none := by
  have hf := List.find?_some h
  simp only [Bool.and_eq_true, bne_iff_ne, beq_iff_eq] at hf
  exact ⟨List.mem_range.mp (List.mem_of_find?_eq_some h), hf⟩

/-! ## `proc_close_fd`, `proc_dup` and `proc_dup2` -/

theorem closeFd_fds (v : VfsState) (c fd : Nat) (s : Nat × Nat) (hs : s ≠ (c, fd)) :
    (v.closeFd c fd).1.fds s = v.fds s := by
  unfold closeFd
  split
  · rfl
  · rw [releaseFile_fds]
    exact Function.update_of_ne hs ..

theorem closeFd_closes (v : VfsState) (c : Nat) (hfd : fd < maxFds) :
    (v.closeFd c fd).1.fds (c, fd) = none := by
  unfold closeFd
  split
  next h =>
    unfold lookupFd at h
    rw [if_pos hfd] at h
    exact h
  next =>
    rw [releaseFile_fds]
    exact Function.update_self ..

theorem retainFile_fds (v : VfsState) (f : Nat) : (v.retainFile f).fds = v.fds := by
  unfold retainFile
  split <;> rfl

/-! ## `proc_pipe` -/

/-- The pipe `p` has been allocated, and no file names it yet. -/
structure Building (trusted : Prop) (v : VfsState) (held : List Nat) (p : Nat) : Prop where
  files : FilesCounted trusted v held
  fresh : ∀ f q, v.inodeAt f = some (.pipe q) → q < v.nextPipe
  ends : ∀ isRead q, (v.pipes q).endCount isRead = uses fileSlots (v.endAt isRead) q
  single : ∀ isRead q, uses fileSlots (v.endAt isRead) q ≤ 1
  freed : ∀ q, v.freed.count q = if q < v.nextPipe ∧ q ≠ p ∧ v.inodeRefs (.pipe q) = 0 then 1 else 0
  allocated : p < v.nextPipe
  unnamed : ∀ f, v.inodeAt f ≠ some (.pipe p)

theorem FilesCounted.unused (hc : FilesCounted trusted v held)
    (h : ∀ f, v.inodeAt f ≠ some (.pipe p)) :
    v.inodeRefs (.pipe p) = 0 := by
  rw [hc.inodes (.pipe p) trivial]
  exact uses_eq_zero_iff.mpr fun f _ => h f

theorem uses_endAt_zero (h : ∀ f, v.inodeAt f ≠ some (.pipe p)) (isRead : Bool) :
    uses fileSlots (v.endAt isRead) p = 0 :=
  uses_eq_zero_iff.mpr fun f _ he => h f (endAt_some he).1

theorem allocPipe_building (hc : Counted trusted v held) :
    Building trusted v.allocPipe held v.nextPipe := by
  have hunnamed : ∀ f, v.inodeAt f ≠ some (.pipe v.nextPipe) := fun f hf =>
    absurd (hc.pipes.fresh f _ hf) (Nat.lt_irrefl _)
  have hrefs : ∀ r, v.allocPipe.inodeRefs r = v.inodeRefs r := by
    intro r
    cases r with
    | entry ref => cases ref <;> rfl
    | pipe q =>
      show ((v.setPipe v.nextPipe Pipe.new).pipes q).inodeRefs = _
      by_cases hq : q = v.nextPipe
      · rw [hq, setPipe_self, hc.files.unused hunnamed]
        rfl
      · rw [setPipe_ne v _ hq]
        rfl
  refine ⟨⟨hc.files.slots, hc.files.files, hc.files.named, hc.files.table, fun r => ?_⟩,
    fun f q hq => Nat.lt_succ_of_lt (hc.pipes.fresh f q hq), fun isRead q => ?_,
      hc.pipes.single, fun q => ?_,
    Nat.lt_succ_self _, hunnamed⟩
  · rw [hrefs]
    exact hc.files.inodes r
  · show ((v.setPipe v.nextPipe Pipe.new).pipes q).endCount isRead
      = uses fileSlots (v.endAt isRead) q
    by_cases hq : q = v.nextPipe
    · rw [hq, setPipe_self, uses_endAt_zero hunnamed]
      cases isRead <;> rfl
    · rw [setPipe_ne v _ hq]
      exact hc.pipes.ends isRead q
  · have hnext : v.allocPipe.nextPipe = v.nextPipe + 1 := rfl
    have hfreed : v.allocPipe.freed = v.freed := rfl
    rw [hfreed, hnext, hrefs, hc.pipes.freed q]
    refine if_congr ?_ rfl rfl
    constructor
    · intro h
      exact ⟨by omega, by omega, h.2⟩
    · intro h
      exact ⟨by omega, h.2.2⟩

/-- The ends of the pipes with one more file. -/
theorem openInode_endAt (h : v.openInode (.pipe p) flags grant = (v', some f)) (isRead : Bool) :
    v'.endAt isRead
      = Function.update (v.endAt isRead) f (if flags &&& endFlag isRead ≠ 0 then some p
        else none) := by
  obtain ⟨-, rfl⟩ := openInode_some h
  rw [setInodeRefs_endAt]
  funext j
  by_cases hj : j = f
  · rw [hj, Function.update_self]
    unfold endAt
    rw [setFile_self]
  · rw [Function.update_of_ne hj]
    unfold endAt
    rw [setFile_ne v _ hj]

/-- A pipe that nobody names gets one file, which is closed again. -/
theorem Building.abandon (hb : Building trusted v held p)
    (h : v.openInode (.pipe p) flags grant = (v', some f)) :
    Counted trusted (v'.releaseFile f) held := by
  have hopen := hb.files.openInode h
  have hat := openInode_inodeAt h
  have hend := openInode_endAt h
  obtain ⟨halloc, rfl⟩ := openInode_some h
  obtain ⟨hm, hnone, hu, hh⟩ := hb.files.free halloc
  generalize hw : (v.setFile f ⟨some (.pipe p), flags, 0, 1, grant⟩).setInodeRefs (.pipe p)
    (v.inodeRefs (.pipe p) + 1) = w at hopen hat hend
  have hkeep : w.files = (v.setFile f ⟨some (.pipe p), flags, 0, 1, grant⟩).files ∧
      w.nextPipe = v.nextPipe ∧
      w.freed = v.freed := by
    rw [← hw]
    have := setInodeRefs_keeps (v.setFile f ⟨some (.pipe p), flags, 0, 1, grant⟩) (.pipe p)
      (v.inodeRefs (.pipe p) + 1)
    exact ⟨this.1, this.2.2.1, this.2.2.2⟩
  have hrefs : ∀ r, w.inodeRefs r = if r = .pipe p then 1 else v.inodeRefs r := by
    intro r
    rw [← hw, inodeRefs_setInodeRefs, hb.files.unused hb.unnamed, setFile_inodeRefs]
  have hcount : ∀ isRead q, (w.pipes q).endCount isRead = (v.pipes q).endCount isRead := by
    intro isRead q
    rw [← hw, setInodeRefs_endCount]
    rfl
  have hfile : w.files f = ⟨some (.pipe p), flags, 0, 1, grant⟩ := by rw [hkeep.1, setFile_self]
  have hr : w.inodeAt f = some (.pipe p) := by rw [hat, Function.update_self]
  have h1 : (w.files f).refCount = 1 := by rw [hfile]
  have hflags : (w.files f).flags = flags := by rw [hfile]
  have hfree : FilesCounted trusted ((w.releaseInode (.pipe p) flags).setFile f File.free) held :=
    hopen.release_last h1 hr
  rw [releaseFile_last h1 hr, hflags]
  have hnext : ((w.releaseInode (.pipe p) flags).setFile f File.free).nextPipe = v.nextPipe :=
    (releaseInode_keeps w (.pipe p) flags).2.2.trans hkeep.2.1
  have hback : ∀ isRead, ((w.releaseInode (.pipe p) flags).setFile f File.free).endAt isRead
      = v.endAt isRead := by
    intro isRead
    have hnend : v.endAt isRead f = none := by
      unfold endAt
      rw [show (v.files f).inode = none from hnone]
    rw [freeFile_endAt]
    have : (w.releaseInode (.pipe p) flags).endAt isRead = w.endAt isRead := by
      unfold endAt
      rw [(releaseInode_keeps w (.pipe p) flags).1]
    rw [this, hend, Function.update_idem, ← hnend, Function.update_eq_self]
  refine ⟨hfree, ⟨fun j q hj => ?_, fun isRead q => ?_, fun isRead q => ?_, fun q => ?_⟩⟩
  · rw [hnext]
    rw [setFile_inodeAt, releaseInode_inodeAt, hat, Function.update_idem] at hj
    by_cases hjf : j = f
    · rw [hjf, Function.update_self] at hj
      exact absurd hj (by simp [File.free])
    · rw [Function.update_of_ne hjf] at hj
      exact hb.fresh j q hj
  · rw [hback]
    show ((w.releaseInode (.pipe p) flags).pipes q).endCount isRead = _
    rw [releaseInode_endCount, hcount, hb.ends]
    split
    next he => rw [← InodeRef.pipe.inj he.1, uses_endAt_zero hb.unnamed]
    · rfl
  · rw [hback]
    exact hb.single isRead q
  · have hfreed : ((w.releaseInode (.pipe p) flags).setFile f File.free).freed
        = (w.releaseInode (.pipe p) flags).freed := rfl
    rw [hnext, hfreed, setFile_inodeRefs, releaseInode_inodeRefs, releaseInode_freed,
      hkeep.2.2, hb.freed q,
      hrefs (.pipe p), if_pos rfl, hrefs (.pipe q)]
    have hlt := hb.allocated
    by_cases hq : q = p
    · simp [hq, hlt]
    · simp [hq, Ne.symm hq]

/-- What `vfs_create_pipe` leaves: no new file, or two files that the kernel holds. -/
structure PipeOpened (trusted : Prop) (held : List Nat) (result : VfsState × Option (Nat × Nat)) :
    Prop where
  failed : result.2 = none → Counted trusted result.1 held
  opened : ∀ a b, result.2 = some (a, b) → Counted trusted result.1 (b :: a :: held)

theorem Building.opened {a b : Nat} {v₁ v₂ : VfsState} (hb : Building trusted v held p)
    (h₁ : v.openInode (.pipe p) 1 none = (v₁, some a))
    (h₂ : v₁.openInode (.pipe p) 2 none = (v₂, some b)) :
    Counted trusted (v₂.setPipe p { v₂.pipes p with readers := 1, writers := 1 })
      (b :: a :: held) := by
  have hfiles := (hb.files.openInode h₁).openInode h₂
  have hat₁ := openInode_inodeAt h₁
  have hat₂ := openInode_inodeAt h₂
  have hend₁ := openInode_endAt h₁
  have hend₂ := openInode_endAt h₂
  obtain ⟨halloc₁, hv₁⟩ := openInode_some h₁
  obtain ⟨halloc₂, hv₂⟩ := openInode_some h₂
  obtain ⟨hma, hnone₁, -, -⟩ := hb.files.free halloc₁
  obtain ⟨hmb, hnone₂, -, -⟩ := (hb.files.openInode h₁).free halloc₂
  have hnend : ∀ {w : VfsState} {f : Nat}, w.inodeAt f = none →
      ∀ isRead, w.endAt isRead f = none := by
    intro w f h isRead
    unfold endAt
    rw [show (w.files f).inode = none from h]
  -- each end has got one file
  have huses : ∀ isRead q, uses fileSlots (v₂.endAt isRead) q
      = uses fileSlots (v.endAt isRead) q + if p = q then 1 else 0 := by
    intro isRead q
    have e₁ := hend₁ isRead
    have e₂ := hend₂ isRead
    cases isRead with
    | true =>
      rw [if_pos (by decide)] at e₁
      rw [if_neg (by decide), ← hnend hnone₂ true, Function.update_eq_self] at e₂
      rw [e₂, e₁, uses_fill hma (hnend hnone₁ true)]
    | false =>
      rw [if_neg (by decide), ← hnend hnone₁ false, Function.update_eq_self] at e₁
      rw [if_pos (by decide)] at e₂
      rw [e₂, uses_fill hmb (hnend hnone₂ false), e₁]
  have hkeep : v₂.nextPipe = v.nextPipe ∧ v₂.freed = v.freed := by
    rw [hv₂, (setInodeRefs_keeps ..).2.2.1, (setInodeRefs_keeps ..).2.2.2]
    show v₁.nextPipe = v.nextPipe ∧ v₁.freed = v.freed
    rw [hv₁, (setInodeRefs_keeps ..).2.2.1, (setInodeRefs_keeps ..).2.2.2]
    exact ⟨rfl, rfl⟩
  have hrefs : ∀ q, q ≠ p → v₂.inodeRefs (.pipe q) = v.inodeRefs (.pipe q) := by
    intro q hq
    rw [hv₂, inodeRefs_setInodeRefs, if_neg (by simp [hq]), setFile_inodeRefs, hv₁,
      inodeRefs_setInodeRefs, if_neg (by simp [hq]), setFile_inodeRefs]
  have hcount : ∀ isRead q, (v₂.pipes q).endCount isRead = (v.pipes q).endCount isRead := by
    intro isRead q
    rw [hv₂, setInodeRefs_endCount]
    show (v₁.pipes q).endCount isRead = _
    rw [hv₁, setInodeRefs_endCount]
    rfl
  have hset : ∀ r, (v₂.setPipe p { v₂.pipes p with readers := 1, writers := 1 }).inodeRefs r
      = v₂.inodeRefs r := by
    intro r
    cases r with
    | entry ref => cases ref <;> rfl
    | pipe q =>
      show ((v₂.setPipe p _).pipes q).inodeRefs = _
      by_cases hq : q = p
      · rw [hq, setPipe_self]
        rfl
      · rw [setPipe_ne v₂ _ hq]
        rfl
  refine ⟨⟨hfiles.slots, hfiles.files, hfiles.named, hfiles.table, fun r => ?_⟩,
    ⟨fun j q hj => ?_, fun isRead q => ?_, fun isRead q => ?_, fun q => ?_⟩⟩
  · rw [hset]
    exact hfiles.inodes r
  · show q < v₂.nextPipe
    rw [hkeep.1]
    replace hj : v₂.inodeAt j = some (.pipe q) := hj
    rw [hat₂, hat₁] at hj
    by_cases hjb : j = b
    · rw [hjb, Function.update_self] at hj
      rw [← InodeRef.pipe.inj (Option.some.inj hj)]
      exact hb.allocated
    rw [Function.update_of_ne hjb] at hj
    by_cases hja : j = a
    · rw [hja, Function.update_self] at hj
      rw [← InodeRef.pipe.inj (Option.some.inj hj)]
      exact hb.allocated
    · rw [Function.update_of_ne hja] at hj
      exact hb.fresh j q hj
  · show ((v₂.setPipe p _).pipes q).endCount isRead = uses fileSlots (v₂.endAt isRead) q
    rw [huses]
    by_cases hq : q = p
    · rw [hq, setPipe_self, uses_endAt_zero hb.unnamed, if_pos rfl]
      cases isRead <;> rfl
    · rw [setPipe_ne v₂ _ hq, hcount, hb.ends, if_neg (Ne.symm hq), Nat.add_zero]
  · show uses fileSlots (v₂.endAt isRead) q ≤ 1
    rw [huses]
    by_cases hq : q = p
    · rw [hq, uses_endAt_zero hb.unnamed, if_pos rfl]
    · rw [if_neg (Ne.symm hq), Nat.add_zero]
      exact hb.single isRead q
  · have hnext : (v₂.setPipe p { v₂.pipes p with readers := 1, writers := 1 }).nextPipe
      = v.nextPipe := hkeep.1
    have hfreed : (v₂.setPipe p { v₂.pipes p with readers := 1, writers := 1 }).freed = v.freed :=
      hkeep.2
    rw [hnext, hfreed, hset, hb.freed q]
    by_cases hq : q = p
    · have hpos : v₂.inodeRefs (.pipe p) ≠ 0 := by
        rw [hfiles.inodes (.pipe p) trivial, hat₂]
        exact Nat.ne_of_gt (uses_pos hmb (Function.update_self ..))
      simp [hq, hpos]
    · rw [hrefs q hq]
      simp [hq]

theorem openPipe_opened (hb : Building trusted v held p) :
    PipeOpened trusted held (v.openPipe p) := by
  unfold openPipe
  split
  next v₁ h₁ =>
    refine ⟨fun _ => ?_, fun a b h => absurd h (by simp)⟩
    rw [openInode_none h₁]
    refine ⟨⟨hb.files.slots, hb.files.files, hb.files.named, hb.files.table, fun r => ?_⟩,
      ⟨hb.fresh, hb.ends, hb.single, fun q => ?_⟩⟩
    · have hr := hb.files.inodes r
      cases r with
      | pipe q => exact hr
      | entry ref => cases ref <;> exact hr
    · show (p :: v.freed).count q = if q < v.nextPipe ∧ v.inodeRefs (.pipe q) = 0 then 1 else 0
      have h0 := hb.files.unused hb.unnamed
      have hlt := hb.allocated
      rw [List.count_cons, hb.freed q]
      by_cases hq : q = p
      · simp [hq, h0, hlt]
      · simp [hq, Ne.symm hq]
  next v₁ a h₁ =>
  split
  next v₂ h₂ =>
    refine ⟨fun _ => ?_, fun a b h => absurd h (by simp)⟩
    rw [openInode_none h₂]
    exact hb.abandon h₁
  next v₂ b h₂ =>
    refine ⟨by simp, fun a' b' h => ?_⟩
    obtain ⟨rfl, rfl⟩ := Prod.mk.inj (Option.some.inj h)
    exact hb.opened h₁ h₂

theorem createPipe_opened (hc : Counted trusted v held) (allocated : Bool) :
    PipeOpened trusted held (v.createPipe allocated) := by
  unfold createPipe
  split
  · exact openPipe_opened (allocPipe_building hc)
  · exact ⟨fun _ => hc, fun a b h => absurd h (by simp)⟩

theorem createPipe_fds (v : VfsState) (allocated : Bool) :
    (v.createPipe allocated).1.fds = v.fds := by
  have hopen : ∀ {w w' : VfsState} {r flags result}, w.openInode r flags none = (w', result) →
      w'.fds = w.fds := by
    intro w w' r flags result h
    have hfds := openInode_fds w r flags none
    rw [h] at hfds
    exact hfds
  unfold createPipe
  split
  · unfold openPipe
    split
    next v₁ h₁ =>
      have hfds := hopen h₁
      exact hfds
    next v₁ a h₁ =>
    have hfds := hopen h₁
    split
    next v₂ h₂ => exact (releaseFile_fds v₂ a).trans ((hopen h₂).trans hfds)
    next v₂ b h₂ => exact (hopen h₂).trans hfds
  · rfl

/-! ## `vfs_detach_fds` and `vfs_clone_fds` -/

theorem releaseInode_setFd (v : VfsState) (c fd : Nat) (file : Option Nat) (r : InodeRef)
    (flags : Nat) :
    (v.setFd c fd file).releaseInode r flags = (v.releaseInode r flags).setFd c fd file := by
  cases r with
  | entry ref => cases ref <;> rfl
  | pipe q =>
    unfold releaseInode
    dsimp only
    by_cases h : (((v.setInodeRefs (.pipe q) (v.inodeRefs (.pipe q) - 1)).setPipe q
        (((v.setInodeRefs (.pipe q) (v.inodeRefs (.pipe q) - 1)).pipes q).dropEnd flags)).pipes
          q).inodeRefs = 0
    · rw [if_pos h]
      exact if_pos h
    · rw [if_neg h]
      exact if_neg h

/-- Releasing a file does not look at the descriptors. -/
theorem releaseFile_setFd (v : VfsState) (c fd : Nat) (file : Option Nat) (f : Nat) :
    (v.setFd c fd file).releaseFile f = (v.releaseFile f).setFd c fd file := by
  unfold releaseFile
  rw [show (v.setFd c fd file).files = v.files from rfl]
  by_cases h0 : (v.files f).refCount = 0
  · rw [if_pos h0, if_pos h0]
  rw [if_neg h0, if_neg h0]
  by_cases h1 : (v.files f).refCount ≠ 1
  · rw [if_pos h1, if_pos h1]
    rfl
  rw [if_neg h1, if_neg h1]
  cases (v.files f).inode with
  | none => rfl
  | some r =>
    dsimp only
    rw [releaseInode_setFd]
    rfl

theorem detachFd_fds (v : VfsState) (c fd : Nat) :
    (detachFd c v fd).fds = Function.update v.fds (c, fd) none := by
  unfold detachFd
  split
  next h => rw [← h, Function.update_eq_self]
  next f h =>
    show Function.update (v.releaseFile f).fds (c, fd) none = _
    rw [releaseFile_fds]

/-- The task has no descriptors any more. -/
theorem detachFds_closes (v : VfsState) (c : Nat) (hfd : fd < maxFds) :
    (v.detachFds c).fds (c, fd) = none := by
  have hfold : ∀ (l : List Nat) (v : VfsState), fd ∈ l ∨ v.fds (c, fd) = none →
      (l.foldl (detachFd c) v).fds (c, fd) = none := by
    intro l
    induction l with
    | nil => exact fun v h => h.resolve_left List.not_mem_nil
    | cons fd' l ih =>
      intro v h
      refine ih _ ?_
      rw [detachFd_fds]
      by_cases hs : fd = fd'
      · rw [hs, Function.update_self]
        exact Or.inr rfl
      · rw [Function.update_of_ne (by simp [hs])]
        exact h.imp_left fun hm => (List.mem_cons.mp hm).resolve_left hs
  exact hfold _ v (Or.inl (List.mem_range.mpr hfd))

theorem cloneFd_fds (parent child : Nat) (v : VfsState) (fd : Nat) :
    (cloneFd parent child v fd).fds = Function.update v.fds (child, fd) (v.fds (parent, fd)) := by
  unfold cloneFd
  split
  next h => rw [h]; rfl
  next f h => rw [h]; rfl

end VfsState

end Riverix.Vfs
