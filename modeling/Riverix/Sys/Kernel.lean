import Riverix.Proc.Stacks
import Riverix.Vfs.Files

/-!
# The system calls on files (`proc.c`, `syscall.c`)

The task table, the credentials of the tasks and the open files together. A call of the
running task does its work on the files and returns, or blocks and ends in
`proc_schedule`; there the blocked reads and writes are tried again
(`proc_service_blocked_io`), and zombies that nobody waits for are released.

Paths are those that `proc_normalize_path` and `proc_effective_path` make of the user's
argument. `blocked_done` is left out: a blocked call has transferred nothing yet. Calls
that read the state only (`getpid`, `stat`, `readdir`, ...) are left out as well.

The start (`Kernel.boot`) is what `kernel_main` does with the files: the root is mounted, the
boots are counted in `/var/bootcount` (`storageSelftest`), and the boot tasks get their
standard files.
-/

namespace Riverix.Sys

open Riverix.Lib Riverix.Fs Riverix.Proc Riverix.Vfs

/-- What a blocked task waits to read or write. -/
structure Pending where
  fd : Nat
  length : Nat
  data : List Byte

/-- What the rest of the kernel contributes to a run of the scheduler: the ticks, which
pings complete, what the console delivers to a task, and whether copies to and from its
memory succeed. -/
structure KernelEnv where
  ticks : Nat
  pings : Nat → Bool
  device : Nat → Nat → ReadResult
  copies : Nat → Nat → Bool

/-- `ramdiskRoot` tells whether the root is mounted from `rootfs0`, and `disk` is the root
file system's partition on the disk, if there is one. -/
structure Kernel where
  proc : ProcState
  creds : Nat → Credentials
  vfs : VfsState
  pending : Nat → Pending
  recovery : Bool
  ramdiskRoot : Bool
  disk : Option Device

/-! ## Blocked reads and writes -/

/-- `proc_service_blocked_io` so far: the files, and the tasks whose calls are complete. -/
structure Service where
  vfs : VfsState
  completed : List Nat

/-- `proc_retry_blocked_read` -/
def retryBlockedRead (a : Service) (i : Nat) (pending : Pending) (device : Nat → ReadResult)
    (copies : Nat → Bool) : Service :=
  match a.vfs.lookupFd i pending.fd with
  | none => { a with completed := i :: a.completed }
  | some f =>
    match VfsState.readLoop f pending.length device copies pending.length a.vfs [] with
    | (v, _, .blocks) => { a with vfs := v }
    | (v, _, .returns _) => ⟨v, i :: a.completed⟩

/-- `proc_retry_blocked_write` -/
def retryBlockedWrite (a : Service) (i : Nat) (pending : Pending) (copies : Nat → Bool) : Service :=
  match a.vfs.lookupFd i pending.fd with
  | none => { a with completed := i :: a.completed }
  | some f =>
    match VfsState.writeLoop f pending.data copies pending.data.length a.vfs 0 with
    | (v, _, .blocks) => { a with vfs := v }
    | (v, _, .returns _) => ⟨v, i :: a.completed⟩

/-- One turn of `proc_service_blocked_io`. -/
def serviceSlot (tasks : Nat → Task) (pending : Nat → Pending) (env : KernelEnv)
    (a : Service) (i : Nat) :
    Service :=
  if (tasks i).state ≠ .blocked then a
  else if (tasks i).blockReason = .ioRead then
    retryBlockedRead a i (pending i) (env.device i) (env.copies i)
  else if (tasks i).blockReason = .ioWrite then
    retryBlockedWrite a i (pending i) (env.copies i)
  else a

namespace Kernel

/-- `proc_service_blocked_io` -/
def serviceBlockedIo (k : Kernel) (env : KernelEnv) : Service :=
  (List.range maxTasks).foldl (serviceSlot k.proc.tasks k.pending env) ⟨k.vfs, []⟩

/-- What completes in a run of the scheduler. -/
def procEnv (k : Kernel) (env : KernelEnv) (completed : List Nat) : Env where
  ticks := env.ticks
  completes i :=
    if (k.proc.tasks i).blockReason = .netPing then env.pings i else completed.contains i

/-- `proc_schedule` -/
def schedule (k : Kernel) (env : KernelEnv) : Kernel :=
  let service := k.serviceBlockedIo env
  { k with
    proc := k.proc.schedule (k.procEnv env service.completed)
    vfs := service.vfs }

/-- The result of a call that returns at once. -/
def answer (k : Kernel) (c : Nat) (result : Int) :
    Kernel := { k with proc := k.proc.answer c result }

/-- A descriptor or -1. -/
def fdResult : Option Nat → Int
  | none => -1
  | some fd => fd

/-- 0 or -1. -/
def okResult (ok : Bool) : Int := if ok then 0 else -1

/-- `proc_sys_read` of the current task `c`. -/
def sysRead (k : Kernel) (c fd buffer length : Nat) (device : Nat → ReadResult)
    (copies : Nat → Bool) (env : KernelEnv) : Kernel :=
  if buffer = 0 then k.answer c (-1)
  else
    match k.vfs.lookupFd c fd with
    | none => k.answer c (if length = 0 then 0 else -1)
    | some f =>
      match VfsState.readLoop f length device copies length k.vfs [] with
      | (v, _, .returns result) => { k with vfs := v }.answer c result
      | (v, _, .blocks) =>
        { k with
          vfs := v
          pending := Function.update k.pending c ⟨fd, length, []⟩
          proc := k.proc.waitFor c .ioRead }.schedule env

/-- `proc_sys_write` of the current task `c`; `data` is what the user's buffer holds. -/
def sysWrite (k : Kernel) (c fd buffer : Nat) (data : List Byte) (copies : Nat → Bool)
    (env : KernelEnv) : Kernel :=
  if buffer = 0 then k.answer c (-1)
  else
    match k.vfs.lookupFd c fd with
    | none => k.answer c (if data.length = 0 then 0 else -1)
    | some f =>
      match VfsState.writeLoop f data copies data.length k.vfs 0 with
      | (v, _, .returns result) => { k with vfs := v }.answer c result
      | (v, _, .blocks) =>
        { k with
          vfs := v
          pending := Function.update k.pending c ⟨fd, data.length, data⟩
          proc := k.proc.waitFor c .ioWrite }.schedule env

/-- `proc_sys_fork` of the current task `c`; `stack` tells whether there is a kernel stack,
`space` whether the address space can be set up once the descriptors are cloned. -/
def sysFork (k : Kernel) (c : Nat) (stack space : Bool) : Kernel :=
  match k.proc.findUnused with
  | none => k.answer c (-1)
  | some i =>
    if stack = false then k.answer c (-1)
    else if space = false then { k with vfs := (k.vfs.cloneFds c i).detachFds i }.answer c (-1)
    else
      { k with
        vfs := k.vfs.cloneFds c i
        proc := k.proc.sysFork c true
        creds := Function.update k.creds i (k.creds c) }

/-- `exec_read_exact`: the program is read at this offset. -/
def readAt (f : Nat) (v : VfsState) (part : Nat × Nat) : VfsState :=
  ((v.setFile f { v.files f with offset := part.1 }).readFile f part.2 .failed).1

/-- `proc_sys_execv` of the current task `c`: `prepared` tells whether the arguments and a
new address space are there, `reads` are the parts of the program that are read, and
`loaded` tells whether it could be loaded from them. -/
def sysExecv (k : Kernel) (c : Nat) (path : List Byte) (prepared : Bool) (reads : List (Nat × Nat))
    (loaded : Bool) : Kernel :=
  match (treeOf k.vfs.fs).resolvePath path (some (k.creds c)) with
  | .error _ => k.answer c (-1)
  | .ok id =>
    if prepared = false ∨
        hasAccess ((treeOf k.vfs.fs).inodes id) (some (k.creds c)) accessExec = false then
      k.answer c (-1)
    else
      match k.vfs.openPath path 1 none with
      | (v, none) => { k with vfs := v }.answer c (-1)
      | (v, some f) =>
        { k with vfs := (reads.foldl (readAt f) v).releaseFile f }.answer c (okResult loaded)

/-- `proc_setuid` and `proc_setgid` of the current task `c` -/
def sysSetuid (k : Kernel) (c uid : Nat) : Kernel :=
  if (k.creds c).uid ≠ 0 then k.answer c (-1)
  else { k with creds := Function.update k.creds c { k.creds c with uid } }.answer c 0

def sysSetgid (k : Kernel) (c gid : Nat) : Kernel :=
  if (k.creds c).uid ≠ 0 then k.answer c (-1)
  else { k with creds := Function.update k.creds c { k.creds c with gid } }.answer c 0

/-- `VFS_REINSTALL_CHUNK_BLOCKS` -/
abbrev reinstallChunk : Nat := 8

/-- The loop of `vfs_reinstall_rootfs` over the chunks. -/
def reinstallLoop : List Nat → Device → Device → Device × Device × Bool
  | [], source, destination => (source, destination, true)
  | b :: chunks, source, destination =>
    match source.read b (min (source.blockCount - b) reinstallChunk) with
    | (source, none) => (source, destination, false)
    | (source, some buffer) =>
      match destination.write b (min (source.blockCount - b) reinstallChunk) buffer with
      | (destination, false) => (source, destination, false)
      | (destination, true) => reinstallLoop chunks source destination

/-- `vfs_reinstall_rootfs`; `buffer` is the success of `kmalloc`. -/
def sysReinstall (k : Kernel) (c : Nat) (buffer : Bool) : Kernel :=
  match k.disk with
  | none => k.answer c (-1)
  | some disk =>
    if k.recovery = false ∨ k.ramdiskRoot = false ∨ disk.readOnly
        ∨ k.vfs.fs.dev.blockCount ≠ disk.blockCount ∨ buffer = false then k.answer c (-1)
    else
      let chunks := (List.range ((disk.blockCount + reinstallChunk - 1) / reinstallChunk)).map
        (reinstallChunk * ·)
      let copied := reinstallLoop chunks k.vfs.fs.dev disk
      { k with
        vfs := { k.vfs with fs := { k.vfs.fs with dev := copied.1 } }
        disk := some copied.2.1 }.answer c (okResult copied.2.2)

end Kernel

/-- What the running task, or the timer, does. -/
inductive Call
  | openFd (path : List Byte) (flags : Nat)
  | close (fd : Nat)
  | dup (fd : Nat)
  | dup2 (oldFd newFd : Nat)
  | pipe (allocated copied : Bool)
  | fork (stack space : Bool)
  | execv (path : List Byte) (prepared : Bool) (reads : List (Nat × Nat)) (loaded : Bool)
  | exit (status : Int) (copied : Bool) (env : KernelEnv)
  | read (fd buffer length : Nat) (device : Nat → ReadResult) (copies : Nat →
    Bool) (env : KernelEnv)
  | write (fd buffer : Nat) (data : List Byte) (copies : Nat → Bool) (env : KernelEnv)
  | seek (fd : Nat) (offset : Int) (whence : Nat)
  | mkdir (path : List Byte)
  | unlink (path : List Byte)
  | waitpid (pid : Int) (statusUser : Nat) (writable copied : Bool) (env : KernelEnv)
  | sleep (ticks : Nat) (env : KernelEnv)
  | ping (env : KernelEnv)
  | setuid (uid : Nat)
  | setgid (gid : Nat)
  | reinstall (buffer : Bool)
  | schedule (env : KernelEnv)

namespace Kernel

/-- The part of the environment that the task table looks at before the scheduler. -/
def enterEnv (env : KernelEnv) : Env := ⟨env.ticks, env.pings⟩

/-- A call that works on the task table only. -/
def procCall (k : Kernel) (c : Nat) (e : Proc.Event) (env : KernelEnv) : Kernel :=
  match k.proc.enter c e with
  | (p, none) => { k with proc := p }
  | (p, some _) => { k with proc := p }.schedule env

/-- `syscall_dispatch`, for the current user task `c`. -/
def perform (k : Kernel) (c : Nat) : Call → Kernel
  | .openFd path flags =>
    let opened := k.vfs.openFd c (k.creds c) path flags
    { k with vfs := opened.1 }.answer c (fdResult opened.2)
  | .close fd =>
    let closed := k.vfs.closeFd c fd
    { k with vfs := closed.1 }.answer c (okResult closed.2)
  | .dup fd =>
    let new := k.vfs.dup c fd
    { k with vfs := new.1 }.answer c (fdResult new.2)
  | .dup2 oldFd newFd =>
    let new := k.vfs.dup2 c oldFd newFd
    { k with vfs := new.1 }.answer c (fdResult new.2)
  | .pipe allocated copied =>
    let piped := k.vfs.sysPipe c allocated copied
    { k with vfs := piped.1 }.answer c (okResult piped.2)
  | .fork stack space => k.sysFork c stack space
  | .execv path prepared reads loaded => k.sysExecv c path prepared reads loaded
  | .exit status copied env =>
    { k with vfs := k.vfs.detachFds c }.procCall c (.exit status copied (enterEnv env)) env
  | .read fd buffer length device copies env => k.sysRead c fd buffer length device copies env
  | .write fd buffer data copies env => k.sysWrite c fd buffer data copies env
  | .seek fd offset whence =>
    match k.vfs.lookupFd c fd with
    | none => k.answer c (-1)
    | some f =>
      let sought := k.vfs.seekFile f offset whence
      { k with vfs := sought.1 }.answer c (fdResult sought.2)
  | .mkdir path =>
    let made := k.vfs.mkdirPath path (some (k.creds c))
    { k with vfs := made.1 }.answer c (okResult made.2)
  | .unlink path =>
    let removed := k.vfs.unlinkPath path (some (k.creds c))
    { k with vfs := removed.1 }.answer c (okResult removed.2)
  | .waitpid pid statusUser writable copied env =>
    k.procCall c (.waitpid pid statusUser writable copied (enterEnv env)) env
  | .sleep ticks env => k.procCall c (.sleep ticks (enterEnv env)) env
  | .ping env => k.procCall c (.ping (enterEnv env)) env
  | .setuid uid => k.sysSetuid c uid
  | .setgid gid => k.sysSetgid c gid
  | .reinstall buffer => k.sysReinstall c buffer
  | .schedule env => k.schedule env

/-- `task_release_resources` of a task that has just been released: its descriptors are
detached and its credentials reset. -/
def cleanSlot (old : ProcState) (k : Kernel) (i : Nat) : Kernel :=
  if (old.tasks i).state ≠ .unused ∧ (k.proc.tasks i).state = .unused then
    { k with vfs := k.vfs.detachFds i, creds := Function.update k.creds i ⟨0, 0⟩ }
  else k

/-- The tasks that the call or the scheduler released. -/
def clean (old : ProcState) (k : Kernel) : Kernel := (List.range maxTasks).foldl (cleanSlot old) k

/-- The call, or the interrupt, up to what it releases. Kernel tasks yield and are
preempted; what they write goes to their console. -/
def act (k : Kernel) (e : Call) : Kernel :=
  match k.proc.current with
  | none => k
  | some c =>
    match e with
    | .schedule env => k.schedule env
    | e => if (k.proc.tasks c).kind = .kernel then k else k.perform c e

/-- One system call, or one interrupt of the timer. -/
def step (k : Kernel) (e : Call) : Kernel := (k.act e).clean k.proc

end Kernel

/-- `vfs_init` for the mounted root. -/
def initVfs (fs : Simplefs) : VfsState where
  fs := fs
  consoleRefs := 0
  ttyRefs := 0
  files _ := File.free
  fds _ := none
  pipes _ := Pipe.new
  nextPipe := 0
  freed := []

/-- `task_setup_stdio` for the tasks that exist. -/
def attachAll (p : ProcState) : List Nat → VfsState → Option VfsState
  | [], v => some v
  | i :: slots, v =>
    if (p.tasks i).state = .unused then attachAll p slots v
    else
      match v.attachStdio i ⟨0, 0⟩ with
      | (_, false) => none
      | (v, true) => attachAll p slots v

/-- The files once the root is mounted and the devices are attached. -/
def bootVfs (dev : Device) (amb : Ambient) : Option VfsState :=
  ((Simplefs.mount dev amb).bind Simplefs.attachDevices).map initVfs

/-! ### The count of the boots -/

/-- The value of a digit in `parse_hex32`. -/
def hexValue (ch : Byte) : Option (BitVec 32) :=
  if 0x30 ≤ ch ∧ ch ≤ 0x39 then some ((ch - 0x30).zeroExtend 32)
  else if 0x41 ≤ ch ∧ ch ≤ 0x46 then some ((ch - 0x41 + 10).zeroExtend 32)
  else if 0x61 ≤ ch ∧ ch ≤ 0x66 then some ((ch - 0x61 + 10).zeroExtend 32)
  else none

/-- `parse_hex32`, with the value so far: a byte that is no digit makes it 0. -/
def parseHex32 : List Byte → BitVec 32 → BitVec 32
  | [], value => value
  | ch :: text, value =>
    match hexValue ch with
    | none => 0
    | some digit => parseHex32 text (value <<< 4 ||| digit)

/-- `format_hex32` -/
def formatHex32 (value : BitVec 32) : List Byte :=
  (List.range 8).map fun index =>
    let digit := (value >>> ((7 - index) * 4) &&& 0xF).toNat
    BitVec.ofNat 8 (if digit < 10 then 0x30 + digit else 0x37 + digit)

example : formatHex32 0x1AF = [0x30, 0x30, 0x30, 0x30, 0x30, 0x31, 0x41, 0x46] ∧
    parseHex32 (formatHex32 0x1AF) 0 = 0x1AF := by decide

/-- `"/var/bootcount"` -/
def bootcountPath : List Byte :=
  [0x2F, 0x76, 0x61, 0x72, 0x2F, 0x62, 0x6F, 0x6F, 0x74, 0x63, 0x6F, 0x75, 0x6E, 0x74]

/-- `vfs_storage_selftest`, once the file is open. Whatever fails, the file is closed. -/
def countBoot (v : VfsState) (f : Nat) : VfsState :=
  match v.readFile f 8 .failed with
  | (v, .data bytes) =>
    match v.truncateFile f 0 with
    | (v, false) => v.releaseFile f
    | (v, true) =>
      let v := v.setFile f { v.files f with offset := 0 }
      (v.writeFile f (formatHex32 (parseHex32 bytes 0 + 1))).1.releaseFile f
  | (v, _) => v.releaseFile f

/-- `vfs_storage_selftest` on a root that can be written. -/
def storageSelftest (v : VfsState) : VfsState :=
  match v.openPath bootcountPath 3 none with
  | (v, some f) => countBoot v f
  | (v, none) =>
    match v.createPath bootcountPath 3 none with
    | (v, some f) => countBoot v f
    | (v, none) => v

/-- The kernel has started: the root is mounted and the devices are attached (`vfs_init`), the
boots are counted if the root can be written, and the boot tasks have their standard files.
Without a console there is no idle task, and nothing starts. -/
def Kernel.boot (dev : Device) (amb : Ambient) (init workerA workerB recovery ramdiskRoot : Bool)
    (disk : Option Device) : Option Kernel :=
  match bootVfs dev amb with
  | none => none
  | some v =>
    let p := (Machine.boot init workerA workerB).proc
    match attachAll p (List.range maxTasks) (if dev.readOnly then v else storageSelftest v) with
    | none => none
    | some v =>
      some
        { proc := p
          creds := fun _ => ⟨0, 0⟩
          vfs := v
          pending := fun _ => ⟨0, 0, []⟩
          recovery := recovery
          ramdiskRoot := ramdiskRoot
          disk := disk }

/-! ### The smallest system -/

/-- The kernel on the smallest root, with the init task. -/
def sampleKernel : Kernel :=
  (Kernel.boot Simplefs.sampleDevice Simplefs.sampleAmbient true false false false false none).get
    (by decide +kernel)

theorem sampleKernel_boot :
    Kernel.boot Simplefs.sampleDevice Simplefs.sampleAmbient true false false false
    false none = some sampleKernel :=
  (Option.some_get _).symm

end Riverix.Sys
