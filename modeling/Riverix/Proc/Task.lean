import Mathlib.Algebra.Group.Nat.Defs
import Mathlib.Data.List.Range

/-!
# Tasks, waiting and scheduling (`proc.c`)

The task table of eight slots, the two ways a parent learns of a child's exit
(`proc_collect_zombie_now`, and `proc_finish_blocked_wait` for a parent that is
already blocked), the deferred collector that runs inside `proc_schedule`, and
the round-robin choice of the next task.

What other modules decide is part of the event: whether a fork finds its
resources, whether the status buffer is writable and the copy to it succeeds,
the tick count, and which blocked reads, writes and pings complete. Two ghost
logs record what the theorems read: the pids `waitpid` returned, and the
tasks `task_release_resources` released.
-/

namespace Riverix.Proc

/-- `MAX_TASKS` -/
abbrev maxTasks : Nat := 8

/-- `task_state_t` -/
inductive TaskState
  | unused
  | runnable
  | running
  | blocked
  | sleeping
  | zombie
  deriving DecidableEq, Repr

/-- `task_kind_t` -/
inductive TaskKind
  | kernel
  | user
  deriving DecidableEq, Repr

/-- `task_block_reason_t` -/
inductive BlockReason
  | none
  | waitpid
  | ioRead
  | ioWrite
  | netPing
  deriving DecidableEq, Repr

/-- The fields of `task_t` that waiting and scheduling use; `savedEax` is the
`eax` of the saved frame, the value the task's system call returns. -/
structure Task where
  pid : Nat
  parentPid : Nat
  state : TaskState
  kind : TaskKind
  savedEax : Int
  exitStatus : Int
  waitTargetPid : Int
  waitStatusUser : Nat
  wakeTick : Nat
  reapReady : Bool
  blockReason : BlockReason
  deriving DecidableEq, Repr

/-- `task_reset` -/
def Task.reset : Task where
  pid := 0
  parentPid := 0
  state := .unused
  kind := .kernel
  savedEax := 0
  exitStatus := 0
  waitTargetPid := -1
  waitStatusUser := 0
  wakeTick := 0
  reapReady := false
  blockReason := .none

/-- A `waitpid` of the task `waiter` returned the pid `child`. -/
structure Return where
  waiter : Nat
  child : Nat
  deriving DecidableEq, Repr

/-- `task_release_resources` released the task `child`; `parent` is its parent at
that moment, and `parentAlive` tells whether that parent was alive. -/
structure Release where
  child : Nat
  parent : Nat
  parentAlive : Bool
  deriving DecidableEq, Repr

/-- The statics of `proc.c`, with the two logs. -/
structure ProcState where
  tasks : Nat → Task
  current : Option Nat
  idle : Option Nat
  init : Option Nat
  nextPid : Nat
  returned : List Return
  released : List Release

/-- What the rest of the kernel contributes to one run of the scheduler. -/
structure Env where
  ticks : Nat
  completes : Nat → Bool

namespace ProcState

def setTask (s : ProcState) (i : Nat) (t : Task) : ProcState :=
  { s with tasks := Function.update s.tasks i t }

/-- `task_find_by_pid` -/
def findByPid (s : ProcState) (pid : Nat) : Option Nat :=
  if pid = 0 then none
  else (List.range maxTasks).find? fun i =>
    (s.tasks i).state != .unused && (s.tasks i).pid == pid

/-- `task_find_unused` (the slot is reset by the caller's assignments here). -/
def findUnused (s : ProcState) : Option Nat :=
  (List.range maxTasks).find? fun i => (s.tasks i).state == .unused

/-- `proc_wait_matches` -/
def waitMatches (parent child : Task) (targetPid : Int) : Bool :=
  if child.state = .unused ∨ child.parentPid ≠ parent.pid then false
  else if targetPid < 0 then true
  else child.pid == targetPid.toNat

/-- `proc_has_child` -/
def hasChild (s : ProcState) (parent : Task) (targetPid : Int) : Bool :=
  (List.range maxTasks).any fun i => waitMatches parent (s.tasks i) targetPid

/-- `proc_find_zombie_child` -/
def findZombieChild (s : ProcState) (parent : Task) (targetPid : Int) : Option Nat :=
  (List.range maxTasks).find? fun i =>
    waitMatches parent (s.tasks i) targetPid && (s.tasks i).state == .zombie

/-- Some task with this pid exists and has not exited. -/
def isAlive (s : ProcState) (pid : Nat) : Bool :=
  (List.range maxTasks).any fun i =>
    (s.tasks i).state != .unused && (s.tasks i).state != .zombie && (s.tasks i).pid == pid

/-- `task_release_resources`, as far as the task table goes. -/
def releaseResources (s : ProcState) (i : Nat) : ProcState :=
  { s.setTask i Task.reset with
    init := if s.init = some i then none else s.init
    idle := if s.idle = some i then none else s.idle
    released :=
      ⟨(s.tasks i).pid, (s.tasks i).parentPid, s.isAlive (s.tasks i).parentPid⟩ :: s.released }

/-- One turn of the loop of `proc_collect_reapable_zombies`. -/
def collectSlot (s : ProcState) (i : Nat) : ProcState :=
  if s.current = some i ∨ (s.tasks i).state ≠ .zombie ∨ (s.tasks i).reapReady = false then s
  else s.releaseResources i

/-- `proc_collect_reapable_zombies` -/
def collectReapableZombies (s : ProcState) : ProcState :=
  (List.range maxTasks).foldl collectSlot s

/-- Where the round-robin search of `proc_pick_next` starts. -/
def startIndex (s : ProcState) : Nat :=
  match s.current with
  | some c => c + 1
  | none => 0

/-- `proc_pick_next` -/
def pickNext (s : ProcState) : Option Nat :=
  match ((List.range maxTasks).map fun k => (s.startIndex + k) % maxTasks).find? fun i =>
      s.idle != some i && (s.tasks i).state == .runnable with
  | some i => some i
  | none =>
    match s.idle with
    | some i => if (s.tasks i).state = .runnable then some i else s.current
    | none => s.current

/-- `proc_wake_sleepers`, for one task. -/
def wakeSleeper (ticks : Nat) (t : Task) : Task :=
  -- `(int32_t)(ticks - wake_tick) < 0` means not yet
  if t.state = .sleeping ∧ (ticks + 2 ^ 32 - t.wakeTick) % 2 ^ 32 < 2 ^ 31 then
    { t with wakeTick := 0, state := .runnable }
  else t

/-- `proc_service_blocked_net` and `proc_service_blocked_io`, for one task: a
blocked ping, read or write completes when the device says so. -/
def serviceBlocked (completes : Bool) (t : Task) : Task :=
  if t.state = .blocked ∧ t.blockReason ≠ .waitpid ∧ t.blockReason ≠ .none ∧ completes then
    { t with blockReason := .none, state := .runnable }
  else t

/-- The part of `proc_schedule` before the collector runs. -/
def beforeCollect (s : ProcState) (env : Env) : ProcState :=
  let s : ProcState := match s.current with
    | some c =>
      if (s.tasks c).state = .running then s.setTask c { s.tasks c with state := .runnable } else s
    | none => s
  { s with tasks := fun i =>
      serviceBlocked (env.completes i) (wakeSleeper env.ticks (s.tasks i)) }

/-- `proc_activate_task` -/
def activateTask (s : ProcState) (i : Nat) : ProcState :=
  { s.setTask i { s.tasks i with state := .running } with current := some i }

/-- `proc_schedule` -/
def schedule (s : ProcState) (env : Env) : ProcState :=
  let s := (s.beforeCollect env).collectReapableZombies
  match s.pickNext with
  | none => s
  | some i => s.activateTask i

/-- `proc_reparent_children`, for one task. -/
def reparent (parentPid newParentPid : Nat) (child : Task) : Task :=
  if child.state = .unused ∨ child.parentPid ≠ parentPid then child
  else
    { child with
      parentPid := newParentPid
      reapReady := if newParentPid = 0 ∧ child.state = .zombie then true else child.reapReady }

/-- The pid that adopts the children of the task in slot `c`. -/
def adopter (s : ProcState) (c : Nat) : Nat :=
  match s.init with
  | some i =>
    if i ≠ c ∧ (s.tasks i).state ≠ .unused ∧ (s.tasks i).state ≠ .zombie then (s.tasks i).pid else 0
  | none => 0

/-- `proc_reparent_children` -/
def reparentChildren (s : ProcState) (c : Nat) : ProcState :=
  { s with tasks := fun i => reparent (s.tasks c).pid (s.adopter c) (s.tasks i) }

/-- `proc_finish_blocked_wait`; `copied` is the success of the status copy. -/
def finishBlockedWait (s : ProcState) (parent child : Nat) (copied : Bool) : ProcState :=
  let ok : Bool := (s.tasks parent).waitStatusUser == 0 || copied
  let woken : Task :=
    { s.tasks parent with
      savedEax := if ok then (s.tasks child).pid else -1
      waitTargetPid := -1
      waitStatusUser := 0
      blockReason := .none
      state := if (s.tasks parent).state = .blocked then .runnable else (s.tasks parent).state }
  let s := if ok then
      { s with returned := ⟨(s.tasks parent).pid, (s.tasks child).pid⟩ :: s.returned } else s
  let s := s.setTask parent woken
  s.setTask child { s.tasks child with reapReady := true }

/-- `proc_notify_parent_exit` -/
def notifyParentExit (s : ProcState) (child : Nat) (copied : Bool) : ProcState :=
  if (s.tasks child).parentPid = 0 then
    s.setTask child { s.tasks child with reapReady := true }
  else
    match s.findByPid (s.tasks child).parentPid with
    | none => s.setTask child { s.tasks child with parentPid := 0, reapReady := true }
    | some p =>
      if (s.tasks p).state ≠ .blocked ∨ (s.tasks p).blockReason ≠ .waitpid
          ∨ waitMatches (s.tasks p) (s.tasks child) (s.tasks p).waitTargetPid = false then s
      else s.finishBlockedWait p child copied

/-- `proc_sys_exit` of the current task `c`. -/
def sysExit (s : ProcState) (c : Nat) (status : Int) (copied : Bool) (env : Env) : ProcState :=
  let s := s.reparentChildren c
  let s := s.setTask c
    { s.tasks c with
      exitStatus := status
      waitTargetPid := -1
      waitStatusUser := 0
      blockReason := .none
      state := .zombie
      reapReady := (s.tasks c).parentPid == 0 }
  (s.notifyParentExit c copied).schedule env

/-- `proc_collect_zombie_now` for the waiting task `c` and its child `i`. -/
def collectZombieNow (s : ProcState) (c i : Nat) (statusUser : Nat) (copied : Bool) : ProcState :=
  if statusUser ≠ 0 ∧ copied = false then s.setTask c { s.tasks c with savedEax := -1 }
  else
    let child := (s.tasks i).pid
    let s := { s with returned := ⟨(s.tasks c).pid, child⟩ :: s.returned }
    (s.setTask c { s.tasks c with savedEax := child }).releaseResources i

/-- `proc_sys_waitpid` of the current task `c`. -/
def sysWaitpid (s : ProcState) (c : Nat) (pid : Int) (statusUser : Nat) (writable copied : Bool)
    (env : Env) : ProcState :=
  if (s.tasks c).kind ≠ .user then s.setTask c { s.tasks c with savedEax := -1 }
  else if pid = 0 ∨ (statusUser ≠ 0 ∧ writable = false) then
    s.setTask c { s.tasks c with savedEax := -1 }
  else
    match s.findZombieChild (s.tasks c) pid with
    | some i => s.collectZombieNow c i statusUser copied
    | none =>
      if s.hasChild (s.tasks c) pid then
        (s.setTask c
          { s.tasks c with
            waitTargetPid := pid
            waitStatusUser := statusUser
            blockReason := .waitpid
            state := .blocked }).schedule env
      else s.setTask c { s.tasks c with savedEax := -1 }

/-- `proc_sys_fork` of the current task `c`; `resources` tells whether the
kernel stack, the descriptors and the address space could be set up. -/
def sysFork (s : ProcState) (c : Nat) (resources : Bool) : ProcState :=
  match s.findUnused with
  | none => s.setTask c { s.tasks c with savedEax := -1 }
  | some i =>
    if (s.tasks c).kind ≠ .user ∨ resources = false then
      s.setTask c { s.tasks c with savedEax := -1 }
    else
      let child : Task :=
        { Task.reset with
          kind := .user
          pid := s.nextPid
          parentPid := (s.tasks c).pid
          state := .runnable }
      let s := { s.setTask i child with nextPid := (s.nextPid + 1) % 2 ^ 32 }
      s.setTask c { s.tasks c with savedEax := child.pid }

/-- `proc_sys_sleep` of the current task `c`. -/
def sysSleep (s : ProcState) (c : Nat) (ticks : Nat) (env : Env) : ProcState :=
  if ticks = 0 then (s.setTask c { s.tasks c with savedEax := 0 }).schedule env
  else
    (s.setTask c
      { s.tasks c with
        savedEax := 0
        wakeTick := (env.ticks + ticks) % 2 ^ 32
        state := .sleeping }).schedule env

/-- A read, write or ping of the current task `c` that has to wait. -/
def blockOn (s : ProcState) (c : Nat) (reason : BlockReason) (env : Env) : ProcState :=
  (s.setTask c { s.tasks c with blockReason := reason, state := .blocked }).schedule env

end ProcState

/-- What the running task, or the timer, does next. -/
inductive Event
  | fork (resources : Bool)
  | exit (status : Int) (copied : Bool) (env : Env)
  | waitpid (pid : Int) (statusUser : Nat) (writable copied : Bool) (env : Env)
  | sleep (ticks : Nat) (env : Env)
  | read (env : Env)
  | write (env : Env)
  | ping (env : Env)
  | schedule (env : Env)

/-- One event of the running task. Kernel tasks (idle and the workers) only
yield and are preempted; a yield and a timer tick are both `proc_schedule`. -/
def ProcState.step (s : ProcState) (e : Event) : ProcState :=
  match s.current with
  | none => s
  | some c =>
    match e with
    | .schedule env => s.schedule env
    | e =>
      if (s.tasks c).kind = .kernel then s
      else
        match e with
        | .fork resources => s.sysFork c resources
        | .exit status copied env => s.sysExit c status copied env
        | .waitpid pid statusUser writable copied env =>
          s.sysWaitpid c pid statusUser writable copied env
        | .sleep ticks env => s.sysSleep c ticks env
        | .read env => s.blockOn c .ioRead env
        | .write env => s.blockOn c .ioWrite env
        | .ping env => s.blockOn c .netPing env
        | .schedule env => s.schedule env

end Riverix.Proc
