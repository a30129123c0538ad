import Riverix.Fs.Mount
import Riverix.Vfs.Access
import Riverix.Vfs.Pipe

/-!
# Open files (`vfs.c`, and the descriptor calls of `proc.c`)

The file table has 32 entries, shared by all tasks; a task has 16 descriptors that point
into it. Counts are kept on three levels: how many descriptors point to a file, how many
files name an inode, and how many readers and writers a pipe has. The inodes are those of
the mounted file system, the two device nodes, and one in each pipe.

Pipes are numbered in the order of their allocation, so that the number of a block that
was freed is not used again; `freed` logs the calls of `kfree`. A file keeps a note of who
opened it and what the inode was like then (`grant`), which nothing but the statements
reads.
-/

namespace Riverix.Vfs

open Riverix.Lib Riverix.Fs

/-! ## The tree that paths are resolved in -/

/-- A number for each inode that a path can lead to. -/
def nodeId : NodeRef → Nat
  | .console => 0
  | .tty => 1
  | .node i => i + 2

/-- The inode with this number. -/
def nodeOf : Nat → NodeRef
  | 0 => .console
  | 1 => .tty
  | i + 2 => .node i

@[simp] theorem nodeOf_nodeId (ref : NodeRef) : nodeOf (nodeId ref) = ref := by
  cases ref <;> rfl

def InodeKind.ofVfs : VfsKind → InodeKind
  | .none => .none
  | .dev => .dev
  | .reg => .reg
  | .dir => .dir

/-- `console_inode` and `tty_inode`, which differ in their names only. -/
def deviceInode : Inode := ⟨.dev, true, false, 0x1B6, 0, 0, 0, 1, []⟩

/-- An inode of the mounted file system, as `vfs.c` sees it; only regular files have
`ops`. -/
def inodeOf (fs : Simplefs) (i : Nat) : Inode where
  kind := .ofVfs (fs.nodes i).vfs.kind
  writeOp := (fs.nodes i).vfs.kind == .reg
  inodeOps := true
  mode := (fs.nodes i).vfs.mode
  uid := (fs.nodes i).vfs.uid
  gid := (fs.nodes i).vfs.gid
  size := (fs.nodes i).vfs.size
  links := (fs.nodes i).vfs.links
  children := (List.range (fs.nodes i).vfs.childCount).map fun k =>
    (fs.slotName (fs.childAt i k), (fs.childAt i k).map nodeId)

def nodeInode (fs : Simplefs) : NodeRef → Inode
  | .node i => inodeOf fs i
  | .console => deviceInode
  | .tty => deviceInode

/-- The mounted file system with the device nodes. -/
def treeOf (fs : Simplefs) : Tree where
  inodes id := nodeInode fs (nodeOf id)
  root := some (nodeId (.node fs.sb.rootInode))
  dirOps id h := by
    cases hn : nodeOf id with
    | node i => rfl
    | console => exact absurd h (by rw [hn]; simp [nodeInode, deviceInode])
    | tty => exact absurd h (by rw [hn]; simp [nodeInode, deviceInode])

/-! ## Files -/

/-- `VFS_MAX_FILES` and `VFS_MAX_FDS` -/
abbrev maxFiles : Nat := 32
abbrev maxFds : Nat := 16

/-- What a file refers to: an inode that a path leads to, or the one inside a pipe. -/
inductive InodeRef
  | entry (ref : NodeRef)
  | pipe (p : Nat)
  deriving DecidableEq, Repr

/-- The caller and the inode when a file was opened. -/
structure Grant where
  credentials : Option Credentials
  inode : Inode

/-- `vfs_file_t` -/
structure File where
  inode : Option InodeRef
  flags : Nat
  offset : Nat
  refCount : Nat
  grant : Option Grant

/-- An entry of the table that is free. -/
def File.free : File := ⟨none, 0, 0, 0, none⟩

/-- The statics of `vfs.c`, and the descriptor tables of the tasks. -/
structure VfsState where
  fs : Simplefs
  consoleRefs : Nat
  ttyRefs : Nat
  files : Nat → File
  fds : Nat × Nat → Option Nat
  pipes : Nat → Pipe
  nextPipe : Nat
  freed : List Nat

namespace VfsState

def setFile (v : VfsState) (f : Nat) (file : File) : VfsState :=
  { v with files := Function.update v.files f file }

def setPipe (v : VfsState) (p : Nat) (pipe : Pipe) : VfsState :=
  { v with pipes := Function.update v.pipes p pipe }

def setFd (v : VfsState) (c fd : Nat) (file : Option Nat) : VfsState :=
  { v with fds := Function.update v.fds (c, fd) file }

/-- `inode->ref_count` -/
def inodeRefs (v : VfsState) : InodeRef → Nat
  | .entry (.node i) => (v.fs.nodes i).vfs.refCount
  | .entry .console => v.consoleRefs
  | .entry .tty => v.ttyRefs
  | .pipe p => (v.pipes p).inodeRefs

def setInodeRefs (v : VfsState) (r : InodeRef) (n : Nat) : VfsState :=
  match r with
  | .entry (.node i) => { v with fs := v.fs.modifyVfs i fun w => { w with refCount := n } }
  | .entry .console => { v with consoleRefs := n }
  | .entry .tty => { v with ttyRefs := n }
  | .pipe p => v.setPipe p { v.pipes p with inodeRefs := n }

/-- `vfs_alloc_file` -/
def allocFile (v : VfsState) : Option Nat :=
  (List.range maxFiles).find? fun f => (v.files f).refCount == 0

/-- `vfs_open_inode` -/
def openInode (v : VfsState) (r : InodeRef) (flags : Nat) (grant : Option Grant) :
    VfsState × Option Nat :=
  match v.allocFile with
  | none => (v, none)
  | some f =>
    ((v.setFile f ⟨some r, flags, 0, 1, grant⟩).setInodeRefs r (v.inodeRefs r + 1), some f)

/-- `vfs_retain_file` -/
def retainFile (v : VfsState) (f : Nat) : VfsState :=
  if (v.files f).refCount ≠ 0 then
    v.setFile f { v.files f with refCount := (v.files f).refCount + 1 }
  else v

/-- `vfs_release_file`, what the last reference leaves behind at the inode. -/
def releaseInode (v : VfsState) (r : InodeRef) (flags : Nat) : VfsState :=
  let v := v.setInodeRefs r (v.inodeRefs r - 1)
  match r with
  | .entry _ => v
  | .pipe p =>
    let v := v.setPipe p ((v.pipes p).dropEnd flags)
    if (v.pipes p).inodeRefs = 0 then { v with freed := p :: v.freed } else v

/-- `vfs_release_file` -/
def releaseFile (v : VfsState) (f : Nat) : VfsState :=
  let file := v.files f
  if file.refCount = 0 then v
  else if file.refCount ≠ 1 then v.setFile f { file with refCount := file.refCount - 1 }
  else
    (match file.inode with
      | none => v
      | some r => v.releaseInode r file.flags).setFile f File.free

/-- `vfs_open_path` -/
def openPath (v : VfsState) (path : List Byte) (flags : Nat) (credentials : Option Credentials) :
    VfsState × Option Nat :=
  match (treeOf v.fs).openPath path flags credentials v.allocFile.isSome with
  | .error _ => (v, none)
  | .ok id =>
    v.openInode (.entry (nodeOf id)) flags (some ⟨credentials, (treeOf v.fs).inodes id⟩)

/-- `VFS_MODE_FILE_DEFAULT` and `VFS_MODE_DIR_DEFAULT` -/
def fileMode : Nat := 0x1A4
def dirMode : Nat := 0x1ED

def uidOf (credentials : Option Credentials) : Nat := credentials.elim 0 Credentials.uid
def gidOf (credentials : Option Credentials) : Nat := credentials.elim 0 Credentials.gid

/-- `create_child` of the directory with this number. -/
def createChild (v : VfsState) (parent : Nat) (isDir : Bool) (name : List Byte) (mode : Nat)
    (credentials : Option Credentials) : VfsState × Option Nat :=
  match nodeOf parent with
  | .node d =>
    let made := v.fs.createChild d isDir name mode (uidOf credentials) (gidOf credentials)
    ({ v with fs := made.1 }, made.2)
  | _ => (v, none)

/-- `vfs_create_path` -/
def createPath (v : VfsState) (path : List Byte) (flags : Nat) (credentials : Option Credentials) :
    VfsState × Option Nat :=
  match (treeOf v.fs).createParent path credentials with
  | .error _ => (v, none)
  | .ok (parent, leafName) =>
    match v.createChild parent false leafName fileMode credentials with
    | (v, none) => (v, none)
    | (v, some i) => v.openInode (.entry (.node i)) flags (some ⟨credentials, inodeOf v.fs i⟩)

/-- `vfs_mkdir_path` -/
def mkdirPath (v : VfsState) (path : List Byte) (credentials : Option Credentials) :
    VfsState × Bool :=
  match (treeOf v.fs).createParent path credentials with
  | .error _ => (v, false)
  | .ok (parent, leafName) =>
    let made := v.createChild parent true leafName dirMode credentials
    (made.1, made.2.isSome)

/-- `remove_child` of the directory with this number. -/
def removeChild (v : VfsState) (parent : Nat) (name : List Byte) : VfsState × Bool :=
  match nodeOf parent with
  | .node d => ({ v with fs := (v.fs.removeChild d name).1 }, (v.fs.removeChild d name).2)
  | _ => (v, false)

/-- `vfs_unlink_path`: the checks find the entry, and then it is removed. -/
def unlinkPath (v : VfsState) (path : List Byte) (credentials : Option Credentials) :
    VfsState × Bool :=
  match (treeOf v.fs).unlinkPath path credentials fun _ _ => true with
  | .error _ => (v, false)
  | .ok () =>
    match (treeOf v.fs).resolveParent path credentials with
    | .error _ => (v, false)
    | .ok (parent, leafName) => v.removeChild parent leafName

/-- `vfs_truncate_file` -/
def truncateFile (v : VfsState) (f length : Nat) : VfsState × Bool :=
  match (v.files f).inode with
  | some (.entry (.node i)) =>
    match v.fs.resizeNode i length with
    | (fs, false) => ({ v with fs }, false)
    | (fs, true) =>
      ({ v with fs }.setFile f { v.files f with offset := min (v.files f).offset length }, true)
  | _ => (v, false)

/-- The block of a new pipe, whose fields are cleared. -/
def allocPipe (v : VfsState) : VfsState :=
  { v.setPipe v.nextPipe Pipe.new with nextPipe := v.nextPipe + 1 }

/-- `vfs_create_pipe`, once there is a block: the two files are the reader's and the
writer's. -/
def openPipe (v : VfsState) (p : Nat) : VfsState × Option (Nat × Nat) :=
  match v.openInode (.pipe p) 1 none with
  | (v, none) => ({ v with freed := p :: v.freed }, none)
  | (v, some readFile) =>
    match v.openInode (.pipe p) 2 none with
    | (v, none) => (v.releaseFile readFile, none)
    | (v, some writeFile) =>
      (v.setPipe p { v.pipes p with readers := 1, writers := 1 }, some (readFile, writeFile))

/-- `vfs_create_pipe`; `allocated` is the success of `kzalloc`. -/
def createPipe (v : VfsState) (allocated : Bool) : VfsState × Option (Nat × Nat) :=
  if allocated then v.allocPipe.openPipe v.nextPipe else (v, none)

/-! ## Descriptors -/

/-- `proc_lookup_fd` -/
def lookupFd (v : VfsState) (c fd : Nat) : Option Nat := if fd < maxFds then v.fds (c, fd) else none

/-- `proc_allocate_fd_slot` -/
def allocateFdSlot (v : VfsState) (c : Nat) : Option Nat :=
  (List.range maxFds).find? fun fd => v.fds (c, fd) == none

/-- `proc_allocate_fd_slot_excluding` -/
def allocateFdSlotExcluding (v : VfsState) (c excluded : Nat) : Option Nat :=
  (List.range maxFds).find? fun fd => fd != excluded && v.fds (c, fd) == none

/-- The file that `proc_open_fd` opens, or creates and opens. -/
def openOrCreate (v : VfsState) (path : List Byte) (flags : Nat)
    (credentials : Option Credentials) :
    VfsState × Option Nat :=
  match v.openPath path (flags &&& 0xB) credentials with
  | (v, some f) => (v, some f)
  | (v, none) =>
    if flags &&& 4 = 0 then (v, none) else v.createPath path (flags &&& 0xB) credentials

/-- `proc_open_fd`, with the path that `proc_normalize_path` and `proc_effective_path`
make of the argument. The descriptor is chosen first and is still free at the end. -/
def openFd (v : VfsState) (c : Nat) (credentials : Credentials) (path : List Byte) (flags : Nat) :
    VfsState × Option Nat :=
  if flags &&& 3 = 0 ∨ flags ≥ 16 then (v, none)
  else
    match v.allocateFdSlot c with
    | none => (v, none)
    | some fd =>
      match v.openOrCreate path flags (some credentials) with
      | (v, none) => (v, none)
      | (v, some f) =>
        if flags &&& 8 ≠ 0 ∧ flags &&& 2 ≠ 0 then
          match v.truncateFile f 0 with
          | (v, false) => (v.releaseFile f, none)
          | (v, true) => (v.setFd c fd (some f), some fd)
        else (v.setFd c fd (some f), some fd)

/-- `proc_close_fd` -/
def closeFd (v : VfsState) (c fd : Nat) : VfsState × Bool :=
  match v.lookupFd c fd with
  | none => (v, false)
  | some f => ((v.setFd c fd none).releaseFile f, true)

/-- `proc_dup` -/
def dup (v : VfsState) (c fd : Nat) : VfsState × Option Nat :=
  match v.lookupFd c fd with
  | none => (v, none)
  | some f =>
    match v.allocateFdSlot c with
    | none => (v, none)
    | some newFd => ((v.retainFile f).setFd c newFd (some f), some newFd)

/-- `proc_dup2` -/
def dup2 (v : VfsState) (c oldFd newFd : Nat) : VfsState × Option Nat :=
  match v.lookupFd c oldFd with
  | none => (v, none)
  | some f =>
    if newFd ≥ maxFds then (v, none)
    else if oldFd = newFd then (v, some newFd)
    else (((v.closeFd c newFd).1.retainFile f).setFd c newFd (some f), some newFd)

/-- `proc_pipe`, with the copy of the descriptors to the user (`proc_sys_pipe`). -/
def sysPipe (v : VfsState) (c : Nat) (allocated copied : Bool) : VfsState × Bool :=
  match v.allocateFdSlot c with
  | none => (v, false)
  | some readFd =>
    match v.allocateFdSlotExcluding c readFd with
    | none => (v, false)
    | some writeFd =>
      match v.createPipe allocated with
      | (v, none) => (v, false)
      | (v, some (readFile, writeFile)) =>
        let v := (v.setFd c readFd (some readFile)).setFd c writeFd (some writeFile)
        if copied then (v, true) else ((((v.closeFd c readFd).1).closeFd c writeFd).1, false)

/-- One turn of `vfs_clone_fds`. -/
def cloneFd (parent child : Nat) (v : VfsState) (fd : Nat) : VfsState :=
  match v.fds (parent, fd) with
  | none => v.setFd child fd none
  | some f =>
    (v.setFile f { v.files f with refCount := (v.files f).refCount + 1 }).setFd child fd (some f)

/-- `vfs_clone_fds`, into the table of the new task, which `task_reset` has cleared. -/
def cloneFds (v : VfsState) (parent child : Nat) : VfsState :=
  (List.range maxFds).foldl (cloneFd parent child) v

/-- One turn of `vfs_detach_fds`. -/
def detachFd (c : Nat) (v : VfsState) (fd : Nat) : VfsState :=
  match v.fds (c, fd) with
  | none => v
  | some f => (v.releaseFile f).setFd c fd none

/-- `vfs_detach_fds` -/
def detachFds (v : VfsState) (c : Nat) : VfsState := (List.range maxFds).foldl (detachFd c) v

/-- The path `/dev/console`. -/
def consolePath : List Byte :=
  [0x2F, 0x64, 0x65, 0x76, 0x2F, 0x63, 0x6F, 0x6E, 0x73, 0x6F, 0x6C, 0x65]

/-- `vfs_attach_stdio`, for a task with an empty table. -/
def attachStdio (v : VfsState) (c : Nat) (credentials : Credentials) : VfsState × Bool :=
  match v.openPath consolePath 1 (some credentials) with
  | (v, none) => (v, false)
  | (v, some stdin) =>
    match v.openPath consolePath 2 (some credentials) with
    | (v, none) => (v.releaseFile stdin, false)
    | (v, some stdout) =>
      match v.openPath consolePath 2 (some credentials) with
      | (v, none) => ((v.releaseFile stdin).releaseFile stdout, false)
      | (v, some stderr) =>
        (((v.setFd c 0 (some stdin)).setFd c 1 (some stdout)).setFd c 2 (some stderr), true)

/-! ## Reading, writing and seeking -/

/-- `vfs_read_file`; `device` is what the console delivers. -/
def readFile (v : VfsState) (f length : Nat) (device : ReadResult) : VfsState × ReadResult :=
  let file := v.files f
  if file.flags &&& 1 = 0 then (v, .failed)
  else
    match file.inode with
    | none => (v, .failed)
    | some (.pipe p) => (v.setPipe p ((v.pipes p).read length).1, ((v.pipes p).read length).2)
    | some (.entry (.node i)) =>
      if (v.fs.nodes i).vfs.kind = .reg then
        match v.fs.regularRead i file.offset length with
        | (fs, none) => ({ v with fs }, .failed)
        | (fs, some (bytes, offset)) => ({ v with fs }.setFile f { file with offset }, .data bytes)
      else (v, .failed)
    | some (.entry _) => (v, device)

/-- `vfs_write_file`; the console takes everything. -/
def writeFile (v : VfsState) (f : Nat) (data : List Byte) : VfsState × WriteResult :=
  let file := v.files f
  if file.flags &&& 2 = 0 then (v, .failed)
  else
    match file.inode with
    | none => (v, .failed)
    | some (.pipe p) => (v.setPipe p ((v.pipes p).write data).1, ((v.pipes p).write data).2)
    | some (.entry (.node i)) =>
      if (v.fs.nodes i).vfs.kind = .reg then
        match v.fs.regularWrite i file.offset data with
        | (fs, none) => ({ v with fs }, .failed)
        | (fs, some (count, offset)) => ({ v with fs }.setFile f { file with offset }, .count count)
      else (v, .failed)
    | some (.entry _) => (v, .count data.length)

/-- The offset that `vfs_seek_file` is asked for; the pipe's inode has size 0. -/
def seekTarget (v : VfsState) (f : Nat) (r : InodeRef) (offset : Int) (whence : Nat) : Option Nat :=
  let inode : Inode := match r with
    | .entry ref => nodeInode v.fs ref
    | .pipe _ => { deviceInode with kind := .pipe }
  let base := if whence = 0 then 0 else if whence = 1 then (v.files f).offset else inode.size
  let target : Int := base + offset
  if inode.kind = .dir ∨ whence > 2 ∨ target < 0 ∨
    target > 0x7FFFFFFF then none else some target.toNat

/-- `vfs_seek_file` -/
def seekFile (v : VfsState) (f : Nat) (offset : Int) (whence : Nat) : VfsState × Option Nat :=
  match (v.files f).inode with
  | none => (v, none)
  | some r =>
    match v.seekTarget f r offset whence with
    | none => (v, none)
    | some target => (v.setFile f { v.files f with offset := target }, some target)

end VfsState

/-- How the loop of a read or write call ends: the task has to wait, or the call returns. -/
inductive Outcome
  | blocks
  | returns (result : Int)
  deriving DecidableEq, Repr

/-- The result of a call that stops with an error: what was done before counts. -/
def Outcome.stopped (done : Nat) : Outcome := .returns (if done ≠ 0 then done else -1)

/-- `PROC_IO_CHUNK` -/
abbrev ioChunk : Nat := 256

namespace VfsState

/-- The loop of `proc_sys_read`, and the same loop in `proc_retry_blocked_read`, with the
bytes handed over so far. `copies` is the success of the copy to the user at this point.
The loop makes progress in every turn, so `length` turns are enough. -/
def readLoop (f length : Nat) (device : Nat → ReadResult) (copies : Nat → Bool) :
    Nat → VfsState → List Byte → VfsState × List Byte × Outcome
  | 0, v, done => (v, done, .returns done.length)
  | turns + 1, v, done =>
    if done.length ≥ length then (v, done, .returns done.length)
    else
      let chunk := min (length - done.length) ioChunk
      match v.readFile f chunk (device done.length) with
      | (v, .wouldBlock) => (v, done, if done.length ≠ 0 then .returns done.length else .blocks)
      | (v, .failed) => (v, done, .stopped done.length)
      | (v, .data bytes) =>
        if bytes = [] then (v, done, .returns done.length)
        else if copies done.length = false then (v, done, .stopped done.length)
        else if bytes.length < chunk then (v, done ++ bytes, .returns (done ++ bytes).length)
        else readLoop f length device copies turns v (done ++ bytes)

/-- The loop of `proc_sys_write` and `proc_retry_blocked_write`, with the number of bytes
written so far. -/
def writeLoop (f : Nat) (data : List Byte) (copies : Nat → Bool) :
    Nat → VfsState → Nat → VfsState × Nat × Outcome
  | 0, v, done => (v, done, .returns done)
  | turns + 1, v, done =>
    if done ≥ data.length then (v, done, .returns done)
    else
      let chunk := min (data.length - done) ioChunk
      if copies done = false then (v, done, .stopped done)
      else
        match v.writeFile f ((data.drop done).take chunk) with
        | (v, .wouldBlock) => (v, done, if done ≠ 0 then .returns done else .blocks)
        | (v, .failed) => (v, done, .stopped done)
        | (v, .count n) =>
          if n < chunk then (v, done + n, .returns ((done + n : Nat) : Int))
          else writeLoop f data copies turns v (done + n)

end VfsState

end Riverix.Vfs
