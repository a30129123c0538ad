import Riverix.Sys.Effects
import Riverix.Vfs.Opening

/-!
# Failed opens, in every state reached

The statement about one call (`Riverix.Vfs.Opening`) needs a file system whose directories are
settled and whose device works, and a file table whose free entries are cleared. Every call
keeps that, as long as a child that is added finds a slot: the file system then changes in a
`Tame` way, and what each move keeps the whole run keeps. **`guarded_run_failed_open`** puts the two
together; **`failed_open_leaves_file`** is a run of a few pipes that fills the file table, after
which an open fails and leaves a new file.
-/

namespace Riverix.Sys

open Riverix.Lib Riverix.Fs Riverix.Proc Riverix.Vfs Simplefs VfsState

variable {trusted : Prop} {k : Kernel} {v v' : VfsState} {c : Nat} {e : Call}

/-- What a failed open relies on. -/
structure Tidy (v : VfsState) : Prop where
  live : Live v.fs
  working : Working v.fs
  vacant : Vacant v

/-- A change that keeps the file system sound. -/
def Tame (fs fs' : Simplefs) : Prop := Live fs ∧ Working fs → Live fs' ∧ Working fs'

/-! ## Every move keeps it -/

theorem Tidy.of_same (h : Tidy v) (hfs : v'.fs = v.fs) (hfiles : v'.files = v.files) : Tidy v' := by
  refine ⟨hfs ▸ h.live, hfs ▸ h.working, fun f hf => ?_⟩
  rw [hfiles] at hf ⊢
  exact h.vacant f hf

/-- A file gets another count or offset, or an inode. -/
theorem Tidy.setFile (h : Tidy v) {f : Nat} {file : File}
    (hfile : file.inode = none → file.flags = 0 ∧ file.offset = 0 ∧ file.grant = none) :
    Tidy (v.setFile f file) := by
  refine ⟨h.live, h.working, fun j hj => ?_⟩
  by_cases hjf : j = f
  · subst hjf
    rw [setFile_self] at hj ⊢
    exact hfile hj
  · rw [setFile_ne v _ hjf] at hj ⊢
    exact h.vacant j hj

theorem Tidy.setInodeRefs (h : Tidy v) (r : InodeRef) (n : Nat) : Tidy (v.setInodeRefs r n) := by
  unfold VfsState.setInodeRefs
  split
  next i => exact ⟨h.live.references i n, h.working.steady (Steady.of_dev rfl rfl), h.vacant⟩
  · exact h.of_same rfl rfl
  · exact h.of_same rfl rfl
  · exact h.of_same rfl rfl

theorem Tidy.openInode (h : Tidy v) (r : InodeRef) (flags : Nat) (grant : Option Grant) :
    Tidy (v.openInode r flags grant).1 := by
  unfold VfsState.openInode
  split
  · exact h
  · exact (h.setFile fun hnone => absurd hnone (by simp)).setInodeRefs ..

theorem Tidy.releaseInode (h : Tidy v) (r : InodeRef) (flags : Nat) :
    Tidy (v.releaseInode r flags) := by
  have hrefs := h.setInodeRefs r (v.inodeRefs r - 1)
  unfold VfsState.releaseInode
  dsimp only
  split
  · exact hrefs
  · split
    · exact hrefs.of_same rfl rfl
    · exact hrefs.of_same rfl rfl

theorem Tidy.releaseFile (h : Tidy v) (f : Nat) : Tidy (v.releaseFile f) := by
  unfold VfsState.releaseFile
  dsimp only
  split
  · exact h
  split
  · exact h.setFile fun hnone => h.vacant f hnone
  · split
    · exact h.setFile fun _ => ⟨rfl, rfl, rfl⟩
    · exact (h.releaseInode ..).setFile fun _ => ⟨rfl, rfl, rfl⟩

theorem Tidy.createPipe (h : Tidy v) (allocated : Bool) : Tidy (v.createPipe allocated).1 := by
  have hopen : ∀ {w w' : VfsState} {r flags result}, Tidy w →
      w.openInode r flags none = (w', result) →
      Tidy w' := fun hw he => via (hw.openInode ..) he
  unfold VfsState.createPipe
  split
  · have halloc : Tidy v.allocPipe := h.of_same rfl rfl
    unfold openPipe
    split
    next v₁ h₁ => exact (hopen halloc h₁).of_same rfl rfl
    next v₁ a h₁ =>
      split
      next v₂ h₂ => exact (hopen (hopen halloc h₁) h₂).releaseFile a
      next v₂ b h₂ => exact (hopen (hopen halloc h₁) h₂).of_same rfl rfl
  · exact h

/-- A file that is held names an inode. -/
theorem Counted.named {held : List Nat} (hc : Counted trusted v held) {f : Nat} (hf : f ∈ held) :
    (v.files f).inode ≠ none := by
  intro hnone
  have h0 := (hc.files.named f).mpr hnone
  rw [hc.files.files f] at h0
  have hpos := List.count_pos_iff.mpr hf
  omega

theorem Move.tidy {only : Nat → Prop} {a b : VfsState × List Nat} (hm : Move Tame only a b)
    (hc : Counted False a.1 a.2) (h : Tidy a.1) : Tidy b.1 := by
  cases hm with
  | change hchange =>
    obtain ⟨hl, hw⟩ := hchange ⟨h.live, h.working⟩
    exact ⟨hl, hw, h.vacant⟩
  | offset hnamed n =>
    exact h.setFile fun hnone => absurd hnone (hnamed.elim (Counted.named hc) id)
  | openEntry he => exact via (h.openInode ..) he
  | @retain v held f s hs =>
    unfold VfsState.retainFile
    split
    · exact h.setFile fun hnone => h.vacant f hnone
    · exact h
  | @clone v held f s hs => exact h.setFile fun hnone => h.vacant f hnone
  | release v f held => exact h.releaseFile f
  | createPipe v held allocated => exact h.createPipe allocated
  | _ => exact h.of_same rfl rfl

theorem Moves.tidy {only : Nat → Prop} (hm : Moves Tame only (v, []) (v', []))
    (hc : Counted False v []) (h : Tidy v) : Tidy v' :=
  (hm.keeps (T := fun a => Counted False a.1 a.2 ∧ Tidy a.1)
    (fun _ _ hm ha => ⟨hm.counted (fun _ _ _ hf => hf.elim) ha.1, Move.tidy hm ha.1 ha.2⟩)
    ⟨hc, h⟩).2

/-! ## Every call makes such moves -/

/-- What leaves the tree and the superblock alone. -/
theorem tame_of_aside {fs fs' : Simplefs} (ha : Aside fs fs') : Tame fs fs' :=
  fun h => ⟨h.1.of_tree ha.tree, h.2.steady ha.steady⟩

theorem tame_works : Works Tame where
  reads _ _ _ _ := tame_of_aside (regularRead_onDevice ..).aside
  writes _ _ _ _ := tame_of_aside (regularWrite_aside ..)
  resizes _ _ _ := tame_of_aside (resizeNode_aside ..)
  removes _ _ name h := ⟨removeChild_live h.1 name, h.2.steady (removeChild_steady ..)⟩
  devices _ _ hkept := tame_of_aside ⟨rfl, rfl, hkept.blockCount, hkept.readOnly, hkept.faults⟩

/-- A child that is added at this path finds a slot of its directory. -/
def FindsSlotAt (v : VfsState) (path : List Byte) (credentials : Option Credentials) : Prop :=
  ∀ d leafName, (treeOf v.fs).createParent path credentials = .ok (nodeId (.node d), leafName) →
    Adds v.fs d leafName → HasSlot v.fs d

theorem tame_creates {path : List Byte} {credentials : Option Credentials}
    (h : FindsSlotAt v path credentials) (isDir : Bool) (mode : Nat) :
    Creates Tame v path isDir mode credentials := by
  intro parent name d hp hd hfs
  obtain ⟨hdir, hs⟩ := createParent_settled hfs.1 hp hd
  obtain ⟨d', rfl⟩ := parent_node (createParent_ok hp).2.1
  rw [nodeOf_nodeId] at hd
  obtain rfl := NodeRef.node.inj hd
  exact ⟨createChild_live hfs.1 hdir hs (h d' name hp) isDir mode _ _,
    hfs.2.steady (createChild_steady ..)⟩

/-- The guard on a call: where it adds a child there is a slot for it. -/
def CallFindsSlot (k : Kernel) : Call → Prop
  | .openFd path flags => flags &&& 4 ≠ 0 → ∀ c, k.proc.current = some c →
      FindsSlotAt k.vfs path (some (k.creds c))
  | .mkdir path => ∀ c, k.proc.current = some c → FindsSlotAt k.vfs path (some (k.creds c))
  | _ => True

theorem admits_tame (h : CallFindsSlot k e) (hc : k.proc.current = some c) : Admits Tame k c e := by
  cases e with
  | openFd path flags =>
    exact fun hflags _ => tame_creates (h (fun h4 => hflags (Or.inr (Or.inr (Or.inl h4)))) c hc) _ _
  | mkdir path => exact tame_creates (h c hc) _ _
  | _ => exact trivial

/-- The invariant of the runs. -/
structure Orderly (k : Kernel) : Prop where
  balanced : Balanced False k
  tidy : Tidy k.vfs

theorem step_orderly (k : Kernel) (e : Call) (h : Orderly k) (he : CallFindsSlot k e) :
    Orderly (k.step e) := by
  obtain ⟨hb, hm⟩ := step_effect tame_works (fun _ _ _ hf => hf.elim) h.balanced
    fun _ hc _ => admits_tame he hc
  exact ⟨hb, Moves.tidy hm h.balanced.counted h.tidy⟩

theorem boot_orderly {dev : Device} {amb : Ambient}
    {init workerA workerB recovery ramdiskRoot : Bool} {disk : Option Device} (hf : dev.faults = [])
    (hself : ∀ v ∈ bootVfs dev amb, FindsSlotAt v bootcountPath none)
    (h : Kernel.boot dev amb init workerA workerB recovery ramdiskRoot disk = some k) :
    Orderly k := by
  obtain ⟨hb, v, hv, hinit, hmoves⟩ := boot_effect tame_works (fun _ _ _ (hf : False) => hf.elim)
    (fun v hv => tame_creates (hself v hv) false fileMode) h
  obtain ⟨⟨mounted, fs, hm, hfs, rfl⟩, -⟩ := bootVfs_some hv
  refine ⟨hb, Moves.tidy hmoves hinit ⟨?_, ?_, fun f _ => ⟨rfl, rfl, rfl⟩⟩⟩
  · exact attachDevices_live (mount_live hm) hfs
  · exact (mount_working hf hm).steady (attachDevices_steady hfs)

/-- **A failed open leaves no trace**, in every state that calls whose creations find a slot
lead to from the start (where `/var/bootcount` finds one, too), on a device that refuses
nothing and with extents that stay inside the block bitmap: for every task, path and flags,
exactly if `OpenKeeps` holds before the call. -/
theorem guarded_run_failed_open {dev : Device} {amb : Ambient}
    {init workerA workerB recovery ramdiskRoot : Bool} {disk : Option Device} (hf : dev.faults = [])
    (hself : ∀ v ∈ bootVfs dev amb, v.fs.Bounded ∧ FindsSlotAt v bootcountPath none)
    (hboot : Kernel.boot dev amb init workerA workerB recovery ramdiskRoot disk = some k)
    {es : List Call} (hes : Guarded Kernel.step (fun k e => k.vfs.fs.Bounded ∧
    CallFindsSlot k e) k es)
    (_ : (run Kernel.step k es).vfs.fs.Bounded) (c : Nat) (credentials : Credentials)
    (path : List Byte) (flags : Nat) :
    (((run Kernel.step k es).vfs.openFd c credentials path flags).2 = none →
        NoTrace (run Kernel.step k es).vfs ((run Kernel.step k es).vfs.openFd c credentials
          path flags).1) ↔
      OpenKeeps (run Kernel.step k es).vfs c credentials path flags := by
  have h := guarded_invariant step_orderly es
    (boot_orderly hf (fun v hv => (hself v hv).2) hboot) (hes.mono fun _ _ => And.right)
  exact openFd_keeps_iff h.tidy.live h.tidy.working h.tidy.vacant
    h.balanced.counted.files c credentials
    path flags

/-- The smallest system: a file is created at `/y`, a pipe is opened, and then `/q/z` is to be
created, but there is no `/q`. -/
theorem guarded_run_failed_open_sample :
    ((run Kernel.step sampleKernel [.openFd [0x2F, 0x79] 7, .pipe true true]).vfs.openFd 1 ⟨0, 0⟩
        [0x2F, 0x71, 0x2F, 0x7A] 7).2 = none ∧
      NoTrace (run Kernel.step sampleKernel [.openFd [0x2F, 0x79] 7, .pipe true true]).vfs
        ((run Kernel.step sampleKernel [.openFd [0x2F, 0x79] 7, .pipe true true]).vfs.openFd 1
          ⟨0, 0⟩ [0x2F, 0x71, 0x2F, 0x7A] 7).1 := by
  have hfails : ((run Kernel.step sampleKernel [.openFd [0x2F, 0x79] 7, .pipe true true]).vfs.openFd
      1 ⟨0, 0⟩ [0x2F, 0x71, 0x2F, 0x7A] 7).2 = none := by decide +kernel
  have hslots : Guarded Kernel.step (fun k e => k.vfs.fs.Bounded ∧ CallFindsSlot k e) sampleKernel
      [.openFd [0x2F, 0x79] 7, .pipe true true] := by
    refine ⟨⟨by decide +kernel, fun _ c hc d leafName hp _ => ?_⟩,
      ⟨by decide +kernel, trivial⟩, trivial⟩
    obtain rfl : 1 = c :=
      Option.some.inj ((by decide +kernel : sampleKernel.proc.current = some 1).symm.trans hc)
    have hroot : (treeOf sampleKernel.vfs.fs).createParent [0x2F, 0x79]
        (some (sampleKernel.creds 1))
        = .ok (nodeId (.node 0), [0x79]) := by decide +kernel
    obtain ⟨hid, -⟩ := Prod.mk.inj (Except.ok.inj (hroot.symm.trans hp))
    obtain rfl : 0 = d := by
      have := congrArg nodeOf hid
      rw [nodeOf_nodeId, nodeOf_nodeId] at this
      exact NodeRef.node.inj this
    exact ⟨Or.inl (by decide +kernel), by decide +kernel⟩
  have hself : ∀ v ∈ bootVfs sampleDevice sampleAmbient, v.fs.Bounded ∧
      FindsSlotAt v bootcountPath none := by
    intro v hv
    have hvar : ∀ v ∈ bootVfs sampleDevice sampleAmbient, v.fs.Bounded ∧
        (treeOf v.fs).createParent bootcountPath none = .error .failed := by decide +kernel
    exact ⟨(hvar v hv).1, fun d leafName hp => absurd ((hvar v hv).2.symm.trans hp) (by simp)⟩
  refine ⟨hfails, (guarded_run_failed_open rfl hself sampleKernel_boot hslots
    (by decide +kernel) 1 ⟨0, 0⟩
    [0x2F, 0x71, 0x2F, 0x7A] 7).mpr (fun d leafName hd => ?_) hfails⟩
  have hnone : (treeOf (run Kernel.step sampleKernel [.openFd [0x2F, 0x79] 7,
      .pipe true true]).vfs.fs).createParent
      [0x2F, 0x71, 0x2F, 0x7A] (some ⟨0, 0⟩) = .error .failed := by decide +kernel
  exact absurd (hnone.symm.trans hd.place) (by simp)

/-! ### A file without a descriptor -/

/-- Init and its child fill the file table with pipes: both have room for more descriptors. -/
def fillingCalls : List Call :=
  .fork true true :: (List.replicate 6 (.pipe true true)
    ++ .schedule ⟨0, fun _ => false, fun _ _ => .failed, fun _ _ => true⟩
    :: (List.replicate 6 (.pipe true true) ++ [.close 0, .close 1, .pipe true true]))

/-- The file table is full: opening `/y` to write and create fails, but inode 2 has become the
new file. -/
theorem failed_open_leaves_file :
    ((run Kernel.step sampleKernel fillingCalls).vfs.openFd 2 ⟨0, 0⟩ [0x2F, 0x79] 6).2 = none ∧
      ¬NoTrace (run Kernel.step sampleKernel fillingCalls).vfs
        ((run Kernel.step sampleKernel fillingCalls).vfs.openFd 2 ⟨0, 0⟩ [0x2F, 0x79] 6).1 := by
  refine ⟨by decide +kernel, fun h => ?_⟩
  have hbefore : (run Kernel.step sampleKernel fillingCalls).vfs.fs.inodeUsed 2
      = false := by decide +kernel
  have hafter : ((run Kernel.step sampleKernel fillingCalls).vfs.openFd 2 ⟨0, 0⟩
      [0x2F, 0x79] 6).1.fs.inodeUsed 2 = true := by decide +kernel
  rw [h.inodeUsed, hbefore] at hafter
  simp at hafter

end Riverix.Sys
