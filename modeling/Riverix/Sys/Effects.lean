import Riverix.Proc.Resume
import Riverix.Sys.Kernel
import Riverix.Vfs.Moves

/-!
# What a system call does

A call makes some moves on the files and returns, or it ends in the scheduler, which makes
the moves of the blocked reads and writes. The task table takes one step at most. `Acted`
says both of the state before the released tasks are cleaned up, and `step_effect` of the
whole call: whatever every move keeps (`Riverix.Vfs.Moves`) holds after it.

The moves come with two parameters. `changes` is what may happen to the file system: the
results about counts and about failed opens choose it and show that reads, writes and the
other calls stay within it (`Works`), so that only the creations are left to the guard of a
run (`Admits`). `only` is whose descriptors may change: it is the caller's alone, and for the
tasks that are released any. The start of the kernel is made of moves, too (`boot_effect`).
-/

namespace Riverix.Sys

open Riverix.Lib Riverix.Fs Riverix.Proc Riverix.Vfs VfsState

variable {changes : Simplefs → Simplefs → Prop} {only : Nat → Prop} {trusted : Prop} {k k' : Kernel}
  {c i : Nat} {e : Call} {env : KernelEnv} {v : VfsState}

/-! ## What a call does to the task table -/

/-- The table after the call is the one before, perhaps with a result for the caller, or
the one after a step of the table alone. -/
inductive ProcStep (c : Nat) (s : ProcState) : ProcState → Prop
  | same : ProcStep c s s
  | answer (result : Int) : ProcStep c s (s.answer c result)
  | step (e : Proc.Event) : ProcStep c s (s.step e)

theorem schedule_proc (hcur : k.proc.current = some c) (env : KernelEnv) :
    ProcStep c k.proc (k.schedule env).proc := by
  have h : (k.schedule env).proc
      = k.proc.step (.schedule (k.procEnv env (k.serviceBlockedIo env).completed)) := by
    unfold ProcState.step
    rw [hcur]
    rfl
  rw [h]
  exact .step _

/-- Entering a call and then running the scheduler is a step of the table. -/
theorem procCall_proc (hcur : k.proc.current = some c) (hu : (k.proc.tasks c).kind = .user)
    {e : Proc.Event} (henv : ∀ env' ∈ e.scheduling, env'.ticks = env.ticks) :
    ProcStep c k.proc (k.procCall c e env).proc := by
  unfold Kernel.procCall
  split
  next p h =>
    have hstep := step_enter hcur (e := e) (Or.inl hu)
    rw [h] at hstep
    show ProcStep c k.proc p
    rw [show p = k.proc.step e from hstep.symm]
    exact .step e
  next p env' h =>
  obtain ⟨e', he'⟩ := step_of_enter hcur (Or.inl hu) h
    ({ k with proc := p }.procEnv env (Kernel.serviceBlockedIo { k with proc := p } env).completed)
    (henv env' (enter_scheduling h)).symm
  show ProcStep c k.proc (p.schedule _)
  rw [← he']
  exact .step e'

/-- A read or write that blocks is a step of the table. -/
theorem blocked_proc (hcur : k.proc.current = some c) (hu : (k.proc.tasks c).kind = .user)
    {reason : BlockReason} (hr : reason = .ioRead ∨ reason = .ioWrite)
    (hk : k'.proc = k.proc.waitFor c reason) : ProcStep c k.proc (k'.schedule env).proc := by
  have hnk : (k.proc.tasks c).kind ≠ .kernel := by
    rw [hu]
    simp
  show ProcStep c k.proc (k'.proc.schedule _)
  rw [hk]
  generalize k'.procEnv env _ = penv
  rcases hr with rfl | rfl
  · have h : (k.proc.waitFor c .ioRead).schedule penv = k.proc.step (.read penv) := by
      unfold ProcState.step
      rw [hcur]
      exact (if_neg hnk).symm
    rw [h]
    exact .step _
  have h : (k.proc.waitFor c .ioWrite).schedule penv = k.proc.step (.write penv) := by
    unfold ProcState.step
    rw [hcur]
    exact (if_neg hnk).symm
  rw [h]
  exact .step _

/-! ## What a call does to the files -/

/-- The state before the released tasks are cleaned up. -/
structure Acted (changes : Simplefs → Simplefs → Prop) (c : Nat) (k k' : Kernel) : Prop where
  proc : ProcStep c k.proc k'.proc
  moves : Moves changes (fun _ => True) (k.vfs, []) (k'.vfs, [])
  idle : ∀ i, i ≠ c → (k.proc.tasks i).state = .unused → (k'.proc.tasks i).state = .unused →
    ∀ fd < maxFds, k'.vfs.fds (i, fd) = k.vfs.fds (i, fd)

/-- Moves that touch the descriptors of the caller only. -/
def OwnMoves (changes : Simplefs → Simplefs → Prop) (c : Nat) (v v' : VfsState) : Prop :=
  ∀ only : Nat → Prop, only c → Moves changes only (v, []) (v', [])

theorem Acted.of_own (hp : ProcStep c k.proc k'.proc) (hm : OwnMoves changes c k.vfs k'.vfs) :
    Acted changes c k k' :=
  ⟨hp, hm _ trivial, fun _ hi _ _ _ _ => (hm (· = c) rfl).others hi⟩

/-- A call on the descriptors of the caller, which returns at once. -/
theorem Acted.answer (hm : OwnMoves changes c k.vfs v) (result : Int) :
    Acted changes c k ({ k with vfs := v }.answer c result) := .of_own (.answer result) hm

theorem Acted.refuse (result : Int) : Acted changes c k (k.answer c result) :=
  .of_own (.answer result) fun _ _ => Moves.refl

/-- The slot that `fork` fills is in use then. -/
theorem sysFork_born {s : ProcState} (h : s.findUnused = some i) (hu : (s.tasks c).kind = .user)
    (hne : i ≠ c) : ((s.sysFork c true).tasks i).state = .runnable := by
  unfold ProcState.sysFork
  rw [h]
  dsimp only
  rw [if_neg (by rw [hu]; simp), setTask_ne _ _ hne]
  exact congrArg Task.state (setTask_self s i _)

theorem sysFork_acted (hcur : k.proc.current = some c) (hu : (k.proc.tasks c).kind = .user)
    (hlive : (k.proc.tasks c).state ≠ .unused)
    (hempty : ∀ i, (k.proc.tasks i).state = .unused → ∀ fd, k.vfs.fds (i, fd) = none)
    (stack space : Bool) : Acted changes c k (k.sysFork c stack space) := by
  unfold Kernel.sysFork
  split
  · exact Acted.refuse _
  next i hi =>
  obtain ⟨hlt, hun⟩ := findUnused_some hi
  have hne : i ≠ c := fun he => hlive (he ▸ hun)
  have hclone : OwnMoves changes i k.vfs (k.vfs.cloneFds c i) := fun _ hc =>
    cloneFds_moves hc hlt (hempty i hun)
  have hkeep : ∀ j fd, j ≠ i → (k.vfs.cloneFds c i).fds (j, fd) = k.vfs.fds (j, fd) :=
    fun j fd hj =>
    (hclone (· = i) rfl).others hj
  split
  · exact Acted.refuse _
  split
  · refine ⟨.answer _, (hclone _ trivial).trans (detachFds_moves trivial _),
      fun j _ hj _ fd hfd => ?_⟩
    show ((k.vfs.cloneFds c i).detachFds i).fds (j, fd) = _
    by_cases hji : j = i
    · rw [hji, detachFds_closes _ i hfd, hempty i hun]
    · rw [← hkeep j fd hji]
      exact detachFds_others _ hji
  have hstep : k.proc.sysFork c true = k.proc.step (.fork true) := by
    unfold ProcState.step
    rw [hcur]
    exact (if_neg (by rw [hu]; simp)).symm
  refine ⟨?_, hclone _ trivial, fun j _ _ hnew fd _ => ?_⟩
  · show ProcStep c k.proc (k.proc.sysFork c true)
    rw [hstep]
    exact .step _
  · have hji : j ≠ i := by
      intro he
      rw [he] at hnew
      exact absurd ((sysFork_born hi hu hne).symm.trans hnew) (by simp)
    exact hkeep j fd hji

/-- The device that `vfs_reinstall_rootfs` reads from is only read. -/
theorem reinstallLoop_source (chunks : List Nat) : ∀ source destination : Device,
    source.Kept (Kernel.reinstallLoop chunks source destination).1 := by
  induction chunks with
  | nil => exact fun source _ => Device.Kept.refl source
  | cons b chunks ih =>
    intro source destination
    have hread := source.read_kept b (min (source.blockCount - b) Kernel.reinstallChunk)
    unfold Kernel.reinstallLoop
    split
    next s h =>
      rw [h] at hread
      exact hread
    next s buffer h =>
    rw [h] at hread
    split
    · exact hread
    · exact hread.trans (ih s _)

section Works

variable (hw : Works changes)

include hw

theorem serviceBlockedIo_moves (k : Kernel) (env : KernelEnv) :
    Moves changes only (k.vfs, []) ((k.serviceBlockedIo env).vfs, []) := by
  have hslot : ∀ (a : Service) (i : Nat),
      Moves changes only (a.vfs, []) ((serviceSlot k.proc.tasks k.pending env a i).vfs, []) := by
    intro a i
    unfold serviceSlot
    split
    · exact Moves.refl
    split
    · unfold retryBlockedRead
      split
      · exact Moves.refl
      next f _ =>
      have hm : Moves changes only (a.vfs, []) _ :=
        readLoop_moves hw f (k.pending i).length (env.device i)
        (env.copies i) (k.pending i).length a.vfs []
      split
      next h => exact hm.result h
      next h => exact hm.result h
    split
    · unfold retryBlockedWrite
      split
      · exact Moves.refl
      next f _ =>
      have hm : Moves changes only (a.vfs, []) _ :=
        writeLoop_moves hw f (k.pending i).data (env.copies i)
        (k.pending i).data.length a.vfs 0
      split
      next h => exact hm.result h
      next h => exact hm.result h
    · exact Moves.refl
  have hfold : ∀ (l : List Nat) (a : Service),
      Moves changes only (a.vfs, []) ((l.foldl (serviceSlot k.proc.tasks k.pending env)
        a).vfs, []) := by
    intro l
    induction l with
    | nil => exact fun a => Moves.refl
    | cons i l ih => exact fun a => (hslot a i).trans (ih _)
  exact hfold _ ⟨k.vfs, []⟩

/-- The scheduler runs at the end of a call. -/
theorem Acted.schedule (hp : ProcStep c k.proc (k'.schedule env).proc)
    (hm : OwnMoves changes c k.vfs k'.vfs) :
    Acted changes c k (k'.schedule env) :=
  .of_own hp fun only hc => (hm only hc).trans (serviceBlockedIo_moves hw k' env)

theorem procCall_acted (hcur : k.proc.current = some c) (hu : (k.proc.tasks c).kind = .user)
    {e : Proc.Event} (henv : ∀ env' ∈ e.scheduling, env'.ticks = env.ticks)
    (hm : OwnMoves changes c k.vfs v) :
    Acted changes c k ({ k with vfs := v }.procCall c e env) := by
  have hp : ProcStep c k.proc ({ k with vfs := v }.procCall c e env).proc :=
    procCall_proc (k := { k with vfs := v }) hcur hu henv
  unfold Kernel.procCall at hp ⊢
  split
  next p h =>
    rw [h] at hp
    exact .of_own hp hm
  next p env' h =>
    rw [h] at hp
    exact Acted.schedule hw hp hm

theorem sysRead_acted (hcur : k.proc.current = some c) (hu : (k.proc.tasks c).kind = .user)
    (fd buffer length : Nat) (device : Nat → ReadResult) (copies : Nat → Bool) :
    Acted changes c k (k.sysRead c fd buffer length device copies env) := by
  unfold Kernel.sysRead
  split
  · exact Acted.refuse _
  split
  · exact Acted.refuse _
  next f _ =>
  have hm : ∀ only, Moves changes only (k.vfs, []) _ := fun only =>
    readLoop_moves hw f length device copies length k.vfs []
  split
  next v bytes result h => exact .of_own (.answer result) fun only _ => (hm only).result h
  next v bytes h =>
    exact Acted.schedule hw (blocked_proc hcur hu (Or.inl rfl) rfl) fun only _ => (hm only).result h

theorem sysWrite_acted (hcur : k.proc.current = some c) (hu : (k.proc.tasks c).kind = .user)
    (fd buffer : Nat) (data : List Byte) (copies : Nat → Bool) :
    Acted changes c k (k.sysWrite c fd buffer data copies env) := by
  unfold Kernel.sysWrite
  split
  · exact Acted.refuse _
  split
  · exact Acted.refuse _
  next f _ =>
  have hm : ∀ only, Moves changes only (k.vfs, []) _ := fun only =>
    writeLoop_moves hw f data copies data.length k.vfs 0
  split
  next v done result h => exact .of_own (.answer result) fun only _ => (hm only).result h
  next v done h =>
    exact Acted.schedule hw (blocked_proc hcur hu (Or.inr rfl) rfl) fun only _ => (hm only).result h

theorem sysExecv_acted (c : Nat) (path : List Byte) (prepared : Bool) (reads : List (Nat × Nat))
    (loaded : Bool) : Acted changes c k (k.sysExecv c path prepared reads loaded) := by
  unfold Kernel.sysExecv
  split
  · exact Acted.refuse _
  split
  · exact Acted.refuse _
  split
  next v h =>
    rw [openPath_none h]
    exact Acted.refuse _
  next v f h =>
  refine Acted.answer (fun only _ => ?_) _
  have ho : Moves changes only (k.vfs, []) _ := openPath_moves k.vfs path 1 none
  rw [h] at ho
  refine (ho.trans (foldl_moves (fun w part => ?_) reads v)).step (.release ..)
  exact (Move.offset (Or.inl List.mem_cons_self) part.1).moves.trans
    (readFile_moves hw _ f part.2 .failed)

theorem sysReinstall_acted (c : Nat) (buffer : Bool) :
    Acted changes c k (k.sysReinstall c buffer) := by
  unfold Kernel.sysReinstall
  split
  · exact Acted.refuse _
  split
  · exact Acted.refuse _
  · exact .of_own (.answer _) fun only _ => (Move.change
      (hw.devices _ _ (reinstallLoop_source ..))).moves

/-- The creations of a call are changes that are allowed. -/
def Admits (changes : Simplefs → Simplefs → Prop) (k : Kernel) (c : Nat) : Call → Prop
  | .openFd path flags =>
    ¬(flags &&& 3 = 0 ∨ flags ≥ 16 ∨ flags &&& 4 = 0 ∨ k.vfs.allocateFdSlot c = none) →
    (∃ refusal, (treeOf k.vfs.fs).openPath path (flags &&& 0xB) (some (k.creds c))
      k.vfs.allocFile.isSome
      = .error refusal) → Creates changes k.vfs path false fileMode (some (k.creds c))
  | .mkdir path => Creates changes k.vfs path true dirMode (some (k.creds c))
  | _ => True

theorem perform_acted (hlt : c < maxTasks) (hlive : (k.proc.tasks c).state ≠ .unused)
    (hempty : ∀ i, (k.proc.tasks i).state = .unused → ∀ fd, k.vfs.fds (i, fd) = none)
    (hcur : k.proc.current = some c) (hu : (k.proc.tasks c).kind = .user)
    (h : Admits changes k c e) :
    Acted changes c k (k.perform c e) := by
  cases e with
  | openFd path flags => exact Acted.answer (fun _ hc => openFd_moves hw hc hlt h) _
  | close fd => exact Acted.answer (fun _ hc => closeFd_moves hc k.vfs fd) _
  | dup fd => exact Acted.answer (fun _ hc => dup_moves hc hlt k.vfs fd) _
  | dup2 oldFd newFd => exact Acted.answer (fun _ hc => dup2_moves hc hlt k.vfs oldFd newFd) _
  | pipe allocated copied =>
    exact Acted.answer (fun _ hc => sysPipe_moves hc hlt k.vfs allocated copied) _
  | fork stack space => exact sysFork_acted hcur hu hlive hempty stack space
  | execv path prepared reads loaded => exact sysExecv_acted hw c path prepared reads loaded
  | exit status copied env =>
    exact procCall_acted hw hcur hu (e := .exit status copied (Kernel.enterEnv env))
      (fun _ he => congrArg Env.ticks (Option.some.inj he).symm) fun _ hc =>
        detachFds_moves hc k.vfs
  | read fd buffer length device copies env =>
    exact sysRead_acted hw hcur hu fd buffer length device copies
  | write fd buffer data copies env => exact sysWrite_acted hw hcur hu fd buffer data copies
  | seek fd offset whence =>
    unfold Kernel.perform
    dsimp only
    split
    · exact Acted.refuse _
    next f _ => exact Acted.answer (fun _ _ => seekFile_moves k.vfs f offset whence) _
  | mkdir path => exact Acted.answer (fun _ _ => mkdirPath_moves h) _
  | unlink path => exact Acted.answer (fun _ _ => unlinkPath_moves hw k.vfs path _) _
  | waitpid pid statusUser writable copied env =>
    exact procCall_acted hw hcur hu (e := .waitpid pid statusUser writable copied
      (Kernel.enterEnv env))
      (fun _ he => congrArg Env.ticks (Option.some.inj he).symm) fun _ _ => Moves.refl
  | sleep ticks env =>
    exact procCall_acted hw hcur hu (e := .sleep ticks (Kernel.enterEnv env))
      (fun _ he => congrArg Env.ticks (Option.some.inj he).symm) fun _ _ => Moves.refl
  | ping env =>
    exact procCall_acted hw hcur hu (e := .ping (Kernel.enterEnv env))
      (fun _ he => congrArg Env.ticks (Option.some.inj he).symm) fun _ _ => Moves.refl
  | setuid uid =>
    show Acted changes c k (k.sysSetuid c uid)
    unfold Kernel.sysSetuid
    split
    · exact Acted.refuse _
    · exact .of_own (.answer _) fun _ _ => Moves.refl
  | setgid gid =>
    show Acted changes c k (k.sysSetgid c gid)
    unfold Kernel.sysSetgid
    split
    · exact Acted.refuse _
    · exact .of_own (.answer _) fun _ _ => Moves.refl
  | reinstall buffer => exact sysReinstall_acted hw c buffer
  | schedule env => exact Acted.schedule hw (schedule_proc hcur env) fun _ _ => Moves.refl

end Works

theorem ProcStep.scheduled {s s' : ProcState} (h : ProcStep c s s') (hs : Scheduled s)
    (hcur : s.current = some c) (hu : (s.tasks c).kind = .user) : Scheduled s' := by
  cases h with
  | same => exact hs
  | answer result => exact hs.setTask hcur hu rfl
  | step e => exact step_scheduled s e hs

/-- The invariant between calls. -/
structure Balanced (trusted : Prop) (k : Kernel) : Prop where
  sched : Scheduled k.proc
  counted : Counted trusted k.vfs []
  empty : ∀ i, (k.proc.tasks i).state = .unused → ∀ fd, k.vfs.fds (i, fd) = none

/-- A call of a user task, or the scheduler, whoever runs. -/
theorem act_acted (hw : Works changes) (hb : Balanced trusted k) (hcur : k.proc.current = some c)
    (h : (k.proc.tasks c).kind = .user → Admits changes k c e) :
    Acted changes c k (k.act e) ∧ Scheduled (k.act e).proc := by
  have hcall : (k.proc.tasks c).kind ≠ .kernel →
      Acted changes c k (k.perform c e) ∧ Scheduled (k.perform c e).proc := by
    intro hkind
    have hu : (k.proc.tasks c).kind = .user := by
      cases hk : (k.proc.tasks c).kind with
      | kernel => exact absurd hk hkind
      | user => rfl
    obtain ⟨hlt, hrun⟩ := hb.sched.running hcur
    have ha := perform_acted hw hlt (by rw [hrun]; simp) hb.empty hcur hu (h hu)
    exact ⟨ha, ha.proc.scheduled hb.sched hcur hu⟩
  unfold Kernel.act
  rw [hcur]
  cases e with
  | schedule env =>
    exact ⟨Acted.schedule hw (schedule_proc hcur env) fun _ _ => Moves.refl,
      hb.sched.toSettled.schedule _⟩
  | _ =>
    dsimp only
    split
    · exact ⟨.of_own .same fun _ _ => Moves.refl, hb.sched⟩
    next hkind => exact hcall hkind

/-! ## Cleaning up -/

theorem clean_moves (old : ProcState) (k : Kernel) :
    Moves changes (fun _ => True) (k.vfs, []) ((k.clean old).vfs, []) := by
  have hfold : ∀ (l : List Nat) (k : Kernel),
      Moves changes (fun _ => True) (k.vfs, []) ((l.foldl (Kernel.cleanSlot old) k).vfs, []) := by
    intro l
    induction l with
    | nil => exact fun k => Moves.refl
    | cons i l ih =>
      refine fun k => Moves.trans ?_ (ih _)
      unfold Kernel.cleanSlot
      split
      · exact detachFds_moves trivial k.vfs
      · exact Moves.refl
  exact hfold _ k

/-- The tables that the cleaning has emptied. -/
theorem clean_slots (old : ProcState) {fd : Nat} (hfd : fd < maxFds) (i : Nat)
    (l : List Nat) : ∀ k : Kernel, (l.foldl (Kernel.cleanSlot old) k).proc = k.proc ∧
    (l.foldl (Kernel.cleanSlot old) k).vfs.fds (i, fd) = if i ∈ l ∧ (old.tasks i).state ≠ .unused ∧
      (k.proc.tasks i).state = .unused then none else k.vfs.fds (i, fd) := by
  induction l with
  | nil => exact fun k => ⟨rfl, by simp⟩
  | cons j l ih =>
    intro k
    have hslot : (Kernel.cleanSlot old k j).proc = k.proc ∧
        (Kernel.cleanSlot old k j).vfs.fds (i, fd) = if i = j ∧ (old.tasks i).state ≠ .unused ∧
          (k.proc.tasks i).state = .unused then none else k.vfs.fds (i, fd) := by
      unfold Kernel.cleanSlot
      split
      next h =>
        refine ⟨rfl, ?_⟩
        show (k.vfs.detachFds j).fds (i, fd) = _
        by_cases hi : i = j
        · subst hi
          rw [detachFds_closes k.vfs i hfd, if_pos ⟨rfl, h⟩]
        · rw [if_neg fun hn => hi hn.1]
          exact detachFds_others _ hi
      next h =>
        refine ⟨rfl, (if_neg ?_).symm⟩
        rintro ⟨rfl, hn⟩
        exact h hn
    obtain ⟨hproc, hfds⟩ := hslot
    obtain ⟨hproc', hfds'⟩ := ih (Kernel.cleanSlot old k j)
    refine ⟨hproc'.trans hproc, ?_⟩
    rw [List.foldl_cons, hfds', hfds, hproc]
    by_cases hst : (old.tasks i).state ≠ .unused ∧ (k.proc.tasks i).state = .unused
    · by_cases hl : i ∈ l
      · rw [if_pos ⟨hl, hst⟩, if_pos ⟨List.mem_cons_of_mem j hl, hst⟩]
      · rw [if_neg fun h => hl h.1]
        refine if_congr ?_ rfl rfl
        rw [List.mem_cons, or_iff_left hl]
    · rw [if_neg fun h => hst h.2, if_neg fun h => hst h.2, if_neg fun h => hst h.2]

/-- **Every step** is a sequence of moves on the files, and keeps the invariant if the moves
keep the counts. -/
theorem step_effect (hw : Works changes)
    (hsame : ∀ fs fs', changes fs fs' → trusted → Simplefs.SameRefs fs fs')
    (hb : Balanced trusted k) (h : ∀ c, k.proc.current = some c → (k.proc.tasks c).kind = .user →
    Admits changes k c e) :
    Balanced trusted (k.step e) ∧ Moves changes (fun _ => True) (k.vfs, [])
      ((k.step e).vfs, []) := by
  obtain ⟨c, -, hcur, -⟩ := hb.sched.current
  obtain ⟨ha, hsched⟩ := act_acted hw hb hcur (h c hcur)
  have hm : Moves changes (fun _ => True) (k.vfs, []) ((k.step e).vfs, []) :=
    ha.moves.trans (clean_moves k.proc (k.act e))
  have hcounted : Counted trusted (k.step e).vfs [] := hm.counted hsame hb.counted
  have hslots := fun fd hfd i => @clean_slots k.proc fd hfd i (List.range maxTasks) (k.act e)
  have hproc : (k.step e).proc = (k.act e).proc := (hslots 0 (by decide) 0).1
  refine ⟨⟨by rw [hproc]; exact hsched, hcounted, fun i hi fd => ?_⟩, hm⟩
  rw [hproc] at hi
  -- beyond the tables there are no descriptors at all
  by_cases hin : i < maxTasks ∧ fd < maxFds
  · refine ((hslots fd hin.2 i).2).trans ?_
    split
    · rfl
    next hn =>
    by_cases hold : (k.proc.tasks i).state = .unused
    · obtain ⟨-, hrun⟩ := hb.sched.running hcur
      have hic : i ≠ c := by
        intro he
        rw [he, hrun] at hold
        simp at hold
      rw [ha.idle i hic hold hi fd hin.2]
      exact hb.empty i hold fd
    · exact absurd ⟨List.mem_range.mpr hin.1, hold, hi⟩ hn
  · cases hs : (k.step e).vfs.fds (i, fd) with
    | none => rfl
    | some f => exact absurd (mem_fdSlots.mp (hcounted.files.slots _ _ hs)) hin

/-! ## Starting -/

/-- The boot tasks get their standard files, and nobody else gets any. -/
theorem attachAll_moves (p : ProcState) : ∀ (l : List Nat) (v v' : VfsState), l.Nodup →
    (∀ i ∈ l, i < maxTasks) → (∀ i ∈ l, (p.tasks i).state ≠ .unused → only i) →
    (∀ i ∈ l, ∀ fd, v.fds (i, fd) = none) → attachAll p l v = some v' →
    Moves changes only (v, []) (v', []) := by
  intro l
  induction l with
  | nil =>
    intro v v' _ _ _ _ h
    obtain rfl := Option.some.inj h
    exact Moves.refl
  | cons i l ih =>
    intro v v' hnd hlt honly hnone h
    obtain ⟨hi, hnd⟩ := List.nodup_cons.mp hnd
    have hltl : ∀ j ∈ l, j < maxTasks := fun j hj => hlt j (List.mem_cons_of_mem i hj)
    have honlyl : ∀ j ∈ l, (p.tasks j).state ≠ .unused → only j := fun j hj =>
      honly j (List.mem_cons_of_mem i hj)
    have hnonel : ∀ j ∈ l, ∀ fd, v.fds (j, fd) = none :=
      fun j hj => hnone j (List.mem_cons_of_mem i hj)
    unfold attachAll at h
    split at h
    · exact ih v v' hnd hltl honlyl hnonel h
    next hlive =>
    split at h
    · simp at h
    next v₁ hatt =>
    have hm : ∀ {changes only}, only i → Moves changes only (v, []) (v₁, []) := fun hc =>
      attachStdio_moves hc (hlt i List.mem_cons_self) (hnone i List.mem_cons_self) hatt
    refine (hm (honly i List.mem_cons_self hlive)).trans
      (ih v₁ v' hnd hltl honlyl (fun j hj fd => ?_) h)
    have hother : Moves (fun _ _ => True) (· = i) (v, []) (v₁, []) := by
      refine hm ?_
      rfl
    exact (hother.others (s := (j, fd)) fun he => hi (he ▸ hj)).trans (hnonel j hj fd)

theorem initVfs_counted {fs : Simplefs} (h : ∀ j, (fs.nodes j).vfs.refCount = 0) :
    Counted trusted (initVfs fs) [] := by
  have hfds : ∀ f, uses fdSlots (initVfs fs).fds f = 0 := fun f =>
    uses_eq_zero_iff.mpr fun _ _ => by simp [initVfs]
  have hinodes : ∀ r, uses fileSlots (initVfs fs).inodeAt r = 0 := fun r =>
    uses_eq_zero_iff.mpr fun _ _ => by simp [initVfs, VfsState.inodeAt, File.free]
  have hends : ∀ isRead p, uses fileSlots ((initVfs fs).endAt isRead) p = 0 := fun isRead p =>
    uses_eq_zero_iff.mpr fun _ _ => by simp [initVfs, VfsState.endAt, File.free]
  refine ⟨⟨fun _ _ hs => absurd hs (by simp [initVfs]), fun f => ?_,
    fun f => ⟨fun _ => rfl, fun _ => rfl⟩,
    fun f hf => absurd rfl hf, fun r _ => ?_⟩, ⟨fun f p hf => ?_, fun isRead p => ?_,
      fun isRead p => ?_,
    fun p => ?_⟩⟩
  · rw [hfds]
    rfl
  · rw [hinodes]
    cases r with
    | pipe p => rfl
    | entry ref =>
      cases ref with
      | node i => exact h i
      | console => rfl
      | tty => rfl
  · exact absurd hf (by simp [initVfs, VfsState.inodeAt, File.free])
  · rw [hends]
    cases isRead <;> rfl
  · rw [hends]
    exact Nat.zero_le 1
  · exact (if_neg fun hp => absurd hp.1 (Nat.not_lt_zero p)).symm

theorem countBoot_moves (hw : Works changes) (v : VfsState) (f : Nat) :
    Moves changes only (v, [f]) (countBoot v f, []) := by
  have hread : Moves changes only (v, [f]) _ := readFile_moves hw v f 8 .failed
  unfold countBoot
  split
  next v₁ bytes h₁ =>
    have hcut : Moves changes only (v₁, [f]) _ := truncateFile_moves hw v₁ f 0
    split
    next v₂ h₂ => exact ((hread.result h₁).trans (hcut.result h₂)).step (.release ..)
    next v₂ h₂ =>
      refine ((((hread.result h₁).trans (hcut.result h₂)).step (.offset ?_ 0)).trans
        (writeFile_moves hw _ f _)).step (.release ..)
      exact Or.inl List.mem_cons_self
  next v₁ r _ h₁ => exact (hread.result h₁).step (.release ..)

/-- The count of the boots opens one file and closes it. -/
theorem storageSelftest_moves (hw : Works changes)
    (h : Creates changes v bootcountPath false fileMode none) :
    Moves changes only (v, []) (storageSelftest v, []) := by
  have hopen : Moves changes only (v, []) _ := openPath_moves v bootcountPath 3 none
  have hmade : Moves changes only (v, []) _ := createPath_moves h 3
  unfold storageSelftest
  split
  next v₁ f h₁ =>
    rw [h₁] at hopen
    exact hopen.trans (countBoot_moves hw v₁ f)
  next v₁ h₁ =>
    rw [openPath_none h₁]
    split
    next v₂ f h₂ =>
      rw [h₂] at hmade
      exact hmade.trans (countBoot_moves hw v₂ f)
    next v₂ h₂ =>
      rw [h₂] at hmade
      exact hmade

/-- What has been mounted, and that nobody has opened anything yet. -/
theorem bootVfs_some {dev : Device} {amb : Ambient} (h : bootVfs dev amb = some v) :
    (∃ mounted fs, Simplefs.mount dev amb = some mounted ∧ mounted.attachDevices = some fs ∧
      v = initVfs fs) ∧ ∀ j, (v.fs.nodes j).vfs.refCount = 0 := by
  obtain ⟨fs, hfs, rfl⟩ := Option.map_eq_some_iff.mp h
  obtain ⟨mounted, hm, ha⟩ := Option.bind_eq_some_iff.mp hfs
  refine ⟨⟨mounted, fs, hm, ha, rfl⟩, fun j => ?_⟩
  exact (Simplefs.attachDevices_sameRefs ha j).trans (Simplefs.mount_refCount hm j)

/-- The kernel starts with the count of the boots and the moves of the standard files. -/
theorem boot_effect {dev : Device} {amb : Ambient}
    {init workerA workerB recovery ramdiskRoot : Bool} {disk : Option Device} (hw : Works changes)
    (hsame : ∀ fs fs', changes fs fs' → trusted → Simplefs.SameRefs fs fs')
    (hcreates : ∀ v ∈ bootVfs dev amb, Creates changes v bootcountPath false fileMode none)
    (h : Kernel.boot dev amb init workerA workerB recovery ramdiskRoot disk = some k) :
    Balanced trusted k ∧ ∃ v, bootVfs dev amb = some v ∧ Counted trusted v [] ∧
      Moves changes (fun _ => True) (v, []) (k.vfs, []) := by
  unfold Kernel.boot at h
  split at h
  · simp at h
  next v hv =>
  obtain ⟨⟨_, fs, -, -, rfl⟩, hrefs⟩ := bootVfs_some hv
  have hsched := (Machine.boot_started init workerA workerB).1.sched
  dsimp only at h
  generalize (Machine.boot init workerA workerB).proc = p at h hsched
  split at h
  · simp at h
  next v' hatt =>
  have hself : ∀ only, Moves changes only (initVfs fs, [])
      (if dev.readOnly then initVfs fs else storageSelftest (initVfs fs), []) := by
    intro only
    split
    · exact Moves.refl
    · exact storageSelftest_moves hw (hcreates _ hv)
  have hmoves : ∀ only : Nat → Prop, (∀ i, (p.tasks i).state ≠ .unused → only i) →
      Moves changes only (_, []) (v', []) := fun only honly =>
    attachAll_moves p _ _ _ List.nodup_range (fun i hi => List.mem_range.mp hi) (fun i _ => honly i)
      (fun i _ fd => congrFun (hself _).fds (i, fd)) hatt
  have hinit : Counted trusted (initVfs fs) [] := initVfs_counted hrefs
  obtain rfl := Option.some.inj h
  have hall := (hself _).trans (hmoves (fun _ => True) fun _ _ => trivial)
  refine ⟨⟨hsched, hall.counted hsame hinit, fun i hi fd => ?_⟩, _, hv, hinit, hall⟩
  have hother := (hmoves _ fun _ hl => hl).others (s := (i, fd)) fun hn => hn hi
  exact hother.trans (congrFun (hself _).fds (i, fd))

end Riverix.Sys
