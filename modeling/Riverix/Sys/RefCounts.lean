import Riverix.Sys.Effects

/-!
# Reference counts in every run

Between system calls nothing is held, so the counts of the files are the numbers of
descriptors that point to them. A task that is not in use has no descriptors: `fork` fills
an empty table, and whoever releases a task detaches its files.

The one thing that can break the counts is an inode that is open while the bitmap says it
is free. A directory record on the disk may name such an inode, and then a creation takes
it and sets its count to 0. **`guarded_run_counts_references`** excludes just that.
-/

namespace Riverix.Sys

open Riverix.Lib Riverix.Fs Riverix.Proc Riverix.Vfs VfsState

variable {trusted : Prop} {k k' : Kernel} {c i : Nat} {e : Call} {env : KernelEnv} {v : VfsState}

/-! ## The steps -/

/-- The inode that a call takes to create a file or a directory, if it comes to that. -/
def Kernel.takes (k : Kernel) (e : Call) : Option Nat :=
  match k.proc.current with
  | none => none
  | some c =>
    if (k.proc.tasks c).kind = .kernel then none
    else
      match e with
      | .openFd path flags => k.vfs.openTakes c (k.creds c) path flags
      | .mkdir path => k.vfs.createTakes path (some (k.creds c))
      | _ => none

/-- The call does not take an inode that is open. -/
def TakesClosed (k : Kernel) (e : Call) : Prop := k.vfs.Closed (k.takes e)

instance (k : Kernel) (e : Call) : Decidable (TakesClosed k e) :=
  inferInstanceAs (Decidable (k.vfs.Closed (k.takes e)))

/-- A call that takes no open inode keeps the counts of the inodes. -/
theorem admits_keepsRefs (hcur : k.proc.current = some c) (hu : (k.proc.tasks c).kind = .user)
    (ht : trusted → TakesClosed k e) : Admits (KeepsRefs trusted) k c e := by
  unfold TakesClosed Kernel.takes at ht
  rw [hcur] at ht
  dsimp only at ht
  rw [if_neg (by rw [hu]; simp)] at ht
  cases e with
  | openFd path flags =>
    rintro hflags ⟨refusal, herr⟩
    refine keepsRefs_creates (fun hf => ?_) false fileMode
    have hclosed := ht hf
    dsimp only at hclosed
    unfold openTakes at hclosed
    rw [if_neg hflags, herr] at hclosed
    exact hclosed
  | mkdir path => exact keepsRefs_creates ht true dirMode
  | _ => exact trivial

theorem step_balanced (k : Kernel) (e : Call) (h : Balanced True k) (ht : TakesClosed k e) :
    Balanced True (k.step e) :=
  (step_effect keepsRefs_works (fun _ _ h => h) h fun _ hcur hu => admits_keepsRefs hcur hu
    fun _ => ht).1

/-! ## Every run -/

/-- The counts say what they are for: `uses` is the number of descriptors of all tasks
that point to a file, and a file is live while its count is not 0. -/
structure CountsReferences (v : VfsState) : Prop where
  files : ∀ f, (v.files f).refCount = uses fdSlots v.fds f
  unused : ∀ f, (v.files f).refCount = 0 → ∀ s, v.fds s ≠ some f
  inodes : ∀ r, v.inodeRefs r = (fileSlots.filter fun f =>
    (v.files f).refCount ≠ 0 ∧ (v.files f).inode = some r).card
  ends : ∀ isRead p, (v.pipes p).endCount isRead
    = if ∃ f ∈ fileSlots, (v.files f).refCount ≠ 0 ∧ v.endAt isRead f = some p then 1 else 0
  freed : ∀ p, v.freed.count p
    = if p < v.nextPipe ∧ ∀ f ∈ fileSlots, (v.files f).refCount ≠ 0 →
      (v.files f).inode ≠ some (.pipe p)
      then 1 else 0

/-- What a file names is live. -/
theorem live_of_inodeAt {held : List Nat} (hc : FilesCounted trusted v held) {f : Nat}
    {r : InodeRef} (h : v.inodeAt f = some r) : (v.files f).refCount ≠ 0 := by
  intro h0
  rw [(hc.named f).mp h0] at h
  simp at h

theorem countsReferences_of_counted (hc : Counted True v []) : CountsReferences v := by
  have hrel : ∀ r, InodeRef.Reliable True r := fun r => by
    unfold InodeRef.Reliable
    split <;> trivial
  have hlive : ∀ f r, (v.files f).refCount ≠ 0 ∧ (v.files f).inode = some r ↔
      v.inodeAt f = some r :=
    fun f r => ⟨And.right, fun h => ⟨live_of_inodeAt hc.files h, h⟩⟩
  refine ⟨fun f => ?_, fun f h0 s hs => ?_, fun r => ?_, fun isRead p => ?_, fun p => ?_⟩
  · rw [hc.files.files f]
    rfl
  · have hpos := uses_pos (hc.files.slots s f hs) hs
    rw [hc.files.files f] at h0
    omega
  · rw [hc.files.inodes r (hrel r), uses]
    exact congrArg Finset.card (Finset.filter_congr fun f _ => (hlive f r).symm)
  · rw [hc.pipes.ends isRead p]
    have h1 := hc.pipes.single isRead p
    split
    next hex =>
      obtain ⟨f, hf, -, he⟩ := hex
      have hpos := uses_pos hf he
      omega
    next hno =>
      refine uses_eq_zero_iff.mpr fun f hf he => hno ⟨f, hf, ?_, he⟩
      exact live_of_inodeAt hc.files (endAt_some he).1
  · rw [hc.pipes.freed p, hc.files.inodes _ (hrel _)]
    refine if_congr (and_congr_right fun _ => uses_eq_zero_iff.trans (forall₂_congr fun f _ => ?_))
      rfl rfl
    rw [ne_eq, ← hlive, not_and]

/-- **The counts are right at every system call boundary** of a run in which no call takes
an open inode to create a file and no extent leaves the block bitmap, from the mount on: the
count of a file is the number of descriptors that point to it, the count of an inode is the
number of live files that name it, the ends of a pipe are counted while their files are
live, and a pipe is freed once, with its last file. -/
theorem guarded_run_counts_references {dev : Device} {amb : Ambient}
    {init workerA workerB recovery ramdiskRoot : Bool} {disk : Option Device}
    (_ : ∀ v ∈ bootVfs dev amb, v.fs.Bounded)
    (hboot : Kernel.boot dev amb init workerA workerB recovery ramdiskRoot disk = some k)
    (es : List Call) (hes : Guarded Kernel.step (fun k e => k.vfs.fs.Bounded ∧
    TakesClosed k e) k es) :
    CountsReferences (run Kernel.step k es).vfs := by
  obtain ⟨hb, -⟩ := boot_effect keepsRefs_works (fun _ _ h => h)
    (fun v hv => keepsRefs_creates (fun _ _ _ => (bootVfs_some hv).2 _) false fileMode) hboot
  exact countsReferences_of_counted (guarded_invariant step_balanced es hb
    (hes.mono fun _ _ => And.right)).counted

/-- A file is created, a pipe made, both are duplicated and a child shares them. -/
theorem guarded_run_counts_references_sample :
    CountsReferences (run Kernel.step sampleKernel
      [.openFd [0x2F, 0x79] 7, .pipe true true, .dup 3, .fork true true, .close 3]).vfs :=
  guarded_run_counts_references
    (by decide +kernel : ∀ v ∈ bootVfs Simplefs.sampleDevice Simplefs.sampleAmbient, v.fs.Bounded)
    sampleKernel_boot _ (by decide +kernel)

/-- A root with a record `x` for inode 2, which the bitmap says is free. -/
def staleBytes : Store := fun a =>
  if 512 ≤ a ∧ a < 1024 then encodeTable (fun
    | 0 =>
      { DiskInode.zero with
        kind := kindDir, size := 64, dataBlock := 4, blockCount := 1, childCount := 2 }
    | 1 => { DiskInode.zero with kind := kindDir }
    | _ => .zero) (a - 512)
  else if a = 2080 then 0x02
  else if a = 2084 then 0x78
  else Simplefs.sampleBytes a

def staleDevice : Device := ⟨16, false, staleBytes, []⟩

/-- Init opens `/x` and then creates `/y`, which takes the same inode: two files name it,
and its count is 1. -/
theorem create_takes_open_inode :
    ∃ k, Kernel.boot staleDevice Simplefs.sampleAmbient true false false false false none = some k ∧
      ¬ CountsReferences (run Kernel.step k [.openFd [0x2F, 0x78] 1,
        .openFd [0x2F, 0x79] 7]).vfs := by
  refine ⟨(Kernel.boot staleDevice Simplefs.sampleAmbient true false false false false none).get
    (by decide +kernel), (Option.some_get _).symm, fun h => ?_⟩
  exact absurd (h.inodes (.entry (.node 2))) (by decide +kernel)

end Riverix.Sys
