import Riverix.Lib.Overlay
import Riverix.Proc.Paths
import Riverix.Proc.Task
import Riverix.Vfs.Access

/-!
# What `readdir` and `procinfo` copy out (`syscall.c`, `proc.c`)

Both handlers fill a structure on the kernel stack and copy the whole of it to the caller. The
words are all assigned, but the texts are filled by `string_copy`, which stops behind the
terminator, and nothing clears the structure first. `Lib.Overlay` describes such a fill; its
rule for front parts gives exactly when the copied bytes depend on what the stack held
(**`copied_determined_iff`**).

A copy to a user buffer can end early, at a page that is not there. Which pages can be written
is a parameter, `writable`: it stands for the lookups of `user_copy_to`, with the resolution of
copy-on-write.
-/

namespace Riverix.Sys

open Riverix.Lib Riverix.Proc Riverix.Vfs

/-- `SYS_NAME_MAX` -/
abbrev nameMax : Nat := 32

/-- The loop of `string_copy` from an index on; `room` is what `max_length - 1` leaves. -/
def stringCopyLoop : Nat → List Byte → List Byte → List Byte
  | room + 1, _ :: destination, b :: source => b :: stringCopyLoop room destination source
  | _, _ :: destination, _ => 0 :: destination
  | _, [], _ => []

/-- `string_copy`, for a source given by its bytes before the terminator. -/
def stringCopy (destination source : List Byte) (maxLength : Nat) : List Byte :=
  if maxLength = 0 then destination else stringCopyLoop (maxLength - 1) destination source

theorem stringCopyLoop_length (room : Nat) (destination source : List Byte) :
    (stringCopyLoop room destination source).length = destination.length := by
  fun_induction stringCopyLoop room destination source with
  | case1 room c destination b source ih => rw [List.length_cons, ih, List.length_cons]
  | case2 => rfl
  | case3 => rfl

theorem stringCopy_length (destination source : List Byte) (maxLength : Nat) :
    (stringCopy destination source maxLength).length = destination.length := by
  unfold stringCopy
  split
  · rfl
  · exact stringCopyLoop_length _ _ _

/-! ## The structures -/

/-- `sys_dirent_t` -/
structure Dirent where
  kind : Nat
  size : Nat
  mode : Nat
  uid : Nat
  gid : Nat
  links : Nat
  name : List Byte
  name_length : name.length = nameMax

/-- The words of a structure as they lie in memory. -/
def encodeWords (words : List Nat) : List Byte := words.flatMap enc32

/-- The `sizeof(sys_dirent_t)` bytes; there is no padding. -/
def Dirent.bytes (e : Dirent) : List Byte :=
  encodeWords [e.kind, e.size, e.mode, e.uid, e.gid, e.links] ++ e.name

/-- `sys_procinfo_t` -/
structure Procinfo where
  pid : Nat
  parentPid : Nat
  sid : Nat
  pgid : Nat
  state : Nat
  kind : Nat
  runTicks : Nat
  uid : Nat
  gid : Nat
  name : List Byte
  tty : List Byte
  name_length : name.length = nameMax
  tty_length : tty.length = nameMax

/-- The `sizeof(sys_procinfo_t)` bytes. -/
def Procinfo.bytes (i : Procinfo) : List Byte :=
  encodeWords [i.pid, i.parentPid, i.sid, i.pgid, i.state, i.kind, i.runTicks, i.uid, i.gid]
    ++ (i.name ++ i.tty)

/-- A task with the fields that only `proc_procinfo` reads. -/
structure ListedTask extends Task where
  sessionId : Nat
  processGroupId : Nat
  runTicks : Nat
  uid : Nat
  gid : Nat
  name : List Byte
  ttyName : List Byte

/-- What the two calls read: the directory tree, the working directory and the credentials of
`current_task`, and the task table. -/
structure View where
  tree : Tree
  current : Option (List Byte × Credentials)
  tasks : Nat → ListedTask

/-- The numbers of `vfs_inode_kind_t`. -/
def inodeKindCode : InodeKind → Nat
  | .none => 0
  | .dev => 1
  | .reg => 2
  | .dir => 3
  | .pipe => 4

/-- The numbers of `task_state_t`. -/
def taskStateCode : TaskState → Nat
  | .unused => 0
  | .runnable => 1
  | .running => 2
  | .blocked => 3
  | .sleeping => 4
  | .zombie => 5

/-- The numbers of `task_kind_t`. -/
def taskKindCode : TaskKind → Nat
  | .kernel => 0
  | .user => 1

/-! ## `proc_readdir` and `proc_procinfo` -/

/-- What `vfs_readdir_path` finds for the caller: the directory entry with its name cut to 31
bytes, nothing past the last one, or a refusal. -/
def View.lookup (s : View) (path : List Byte) (index : Nat) :
    Option (Option (List Byte × Option Nat)) :=
  match s.current with
  | none => none
  | some (cwd, credentials) =>
    match normalizePath cwd path 128 with
    | none => none
    | some absolutePath => (s.tree.readdirPath absolutePath (some credentials) index).toOption

/-- A field of the entry's inode, 0 if there is none. -/
def View.field (s : View) (inode : Option Nat) (f : Inode → Nat) : Nat :=
  inode.elim 0 fun i => f (s.tree.inodes i)

/-- The assignments of `proc_readdir` to `*entry`. -/
def View.fillDirent (s : View) (name : List Byte) (inode : Option Nat)
    (entry : Dirent) : Dirent where
  kind := s.field inode fun i => inodeKindCode i.kind
  size := s.field inode Inode.size
  mode := s.field inode Inode.mode
  uid := s.field inode Inode.uid
  gid := s.field inode Inode.gid
  links := s.field inode Inode.links
  name := stringCopy entry.name name nameMax
  name_length := (stringCopy_length ..).trans entry.name_length

/-- `proc_readdir` -/
def procReaddir (s : View) (path : List Byte) (index : Nat) (entry : Dirent) : Int × Dirent :=
  match s.lookup path index with
  | none => (-1, entry)
  | some none => (1, entry)
  | some (some (name, inode)) => (0, s.fillDirent name inode entry)

/-- The loop of `proc_procinfo`: the slot of the task with this index among those in use. -/
def findListed (tasks : Nat → ListedTask) (index : Nat) : List Nat → Nat → Option Nat
  | [], _ => none
  | slot :: slots, seen =>
    if (tasks slot).state = .unused then findListed tasks index slots seen
    else if seen ≠ index then findListed tasks index slots (seen + 1)
    else some slot

/-- The assignments of `proc_procinfo` to `*info`. -/
def ListedTask.fillProcinfo (task : ListedTask) (info : Procinfo) : Procinfo where
  pid := task.pid
  parentPid := task.parentPid
  sid := task.sessionId
  pgid := task.processGroupId
  state := taskStateCode task.state
  kind := taskKindCode task.kind
  runTicks := task.runTicks
  uid := task.uid
  gid := task.gid
  name := stringCopy info.name task.name nameMax
  tty := stringCopy info.tty task.ttyName nameMax
  name_length := (stringCopy_length ..).trans info.name_length
  tty_length := (stringCopy_length ..).trans info.tty_length

/-- `proc_procinfo` -/
def procProcinfo (s : View) (index : Nat) (info : Procinfo) : Int × Procinfo :=
  match findListed s.tasks index (List.range maxTasks) 0 with
  | none => (1, info)
  | some slot => (0, (s.tasks slot).fillProcinfo info)

/-! ## The handlers -/

/-- The caller's buffer: its address, whether the caller is a user (`interrupt_from_user`), and
which pages `user_copy_to` can write to. -/
structure Buffer where
  address : Nat
  fromUser : Bool
  writable : Nat → Bool

/-- The loop of `user_copy_to_in`: the bytes it stores, and whether it gets through. -/
def userCopyTo (writable : Nat → Bool) (address copied : Nat) (source : List Byte) :
    List Byte × Bool :=
  if 0 < source.length then
    let virtualAddress := (address + copied) % 2 ^ 32
    if writable (virtualAddress / 4096) then
      let chunk := min source.length (4096 - virtualAddress % 4096)
      let rest := userCopyTo writable address (copied + chunk) (source.drop chunk)
      (source.take chunk ++ rest.1, rest.2)
    else ([], false)
  else ([], true)
  termination_by source.length
  decreasing_by
    rw [List.length_drop]
    omega

/-- The end of both handlers: the return value, and the bytes stored in the buffer. -/
def copyOut (buffer : Buffer) (bytes : List Byte) : Int × List Byte :=
  if buffer.fromUser then
    let r := userCopyTo buffer.writable buffer.address 0 bytes
    (if r.2 then 0 else -1, r.1)
  else (0, bytes)

/-- `sys_readdir_handler`; `path` is what `copy_path_from_frame` brings in, and `entry` the
structure on the kernel stack as the call finds it. -/
def sysReaddirHandler (s : View) (path : Option (List Byte)) (index : Nat) (buffer : Buffer)
    (entry : Dirent) : Int × List Byte :=
  if buffer.address = 0 then (-1, [])
  else
    match path with
    | none => (-1, [])
    | some path =>
      match procReaddir s path index entry with
      | (result, entry) => if result ≠ 0 then (result, []) else copyOut buffer entry.bytes

/-- `sys_procinfo_handler` -/
def sysProcinfoHandler (s : View) (index : Nat) (buffer : Buffer) (info : Procinfo) :
    Int × List Byte :=
  if buffer.address = 0 then (-1, [])
  else
    match procProcinfo s index info with
    | (result, info) => if result ≠ 0 then (result, []) else copyOut buffer info.bytes

/-! ## How far a copy gets -/

/-- How many bytes from the start of the buffer lie in pages that can be written. -/
def reachable (writable : Nat → Bool) (address : Nat) (offsets : List Nat) : Nat :=
  (offsets.takeWhile fun k => writable ((address + k) % 2 ^ 32 / 4096)).length

/-- How many of `length` bytes the handlers can store. -/
def Buffer.reach (buffer : Buffer) (length : Nat) : Nat :=
  if buffer.address = 0 then 0
  else if buffer.fromUser then reachable buffer.writable buffer.address (List.range length)
  else length

/-- The loop stores the bytes up to the first page that cannot be written. -/
theorem userCopyTo_eq (writable : Nat → Bool) (address copied : Nat) (source : List Byte) :
    userCopyTo writable address copied source
      = (source.take (reachable writable address (List.range' copied source.length)),
        decide (reachable writable address (List.range' copied source.length)
          = source.length)) := by
  fun_induction userCopyTo writable address copied source with
  | case1 copied source hpos virtualAddress hwritable chunk rest ih =>
    -- the chunk lies in one page, so the count goes on behind it
    have hchunk : chunk ≤ source.length := Nat.min_le_left _ _
    have hsplit : List.range' copied source.length
        = List.range' copied chunk ++ List.range' (copied + chunk) (source.length - chunk) := by
      rw [List.range'_append_1, Nat.add_sub_cancel' hchunk]
    have hin : ∀ k ∈ List.range' copied chunk, writable ((address + k) % 2 ^ 32 / 4096) = true := by
      intro k hk
      obtain ⟨hlow, hhigh⟩ := List.mem_range'_1.mp hk
      rw [show (address + k) % 2 ^ 32 / 4096 = virtualAddress / 4096 by omega]
      exact hwritable
    have hreach : reachable writable address (List.range' copied source.length)
        = chunk + reachable writable address
          (List.range' (copied + chunk) (source.length - chunk)) := by
      unfold reachable
      rw [hsplit, List.takeWhile_append_of_pos hin, List.length_append, List.length_range']
    have hrest : rest = userCopyTo writable address (copied + chunk) (source.drop chunk) := rfl
    rw [List.length_drop] at ih
    rw [hrest, ih, hreach, List.take_add]
    refine Prod.ext rfl (decide_eq_decide.mpr ?_)
    omega
  | case2 copied source hpos virtualAddress hclosed =>
    have hnone : reachable writable address (List.range' copied source.length) = 0 := by
      obtain ⟨n, hn⟩ := Nat.exists_eq_add_of_lt hpos
      unfold reachable
      rw [hn, Nat.zero_add, List.range'_succ, List.takeWhile_cons, if_neg hclosed]
      rfl
    rw [hnone, List.take_zero]
    exact Prod.ext rfl (decide_eq_false (by omega)).symm
  | case3 copied source hnone =>
    rw [List.length_eq_zero_iff.mp (Nat.eq_zero_of_not_pos hnone)]
    rfl

/-- What is stored is a front part of the structure, and the rest of the outcome does not
depend on its bytes. -/
theorem copyOut_eq_iff {buffer : Buffer} (haddress : buffer.address ≠ 0) {x y : List Byte}
    (h : x.length = y.length) : copyOut buffer x = copyOut buffer y
      ↔ x.take (buffer.reach x.length) = y.take (buffer.reach x.length) := by
  unfold copyOut Buffer.reach
  rw [if_neg haddress]
  by_cases huser : buffer.fromUser
  · simp only [huser, if_true]
    rw [userCopyTo_eq, userCopyTo_eq, ← h, List.range_eq_range', Prod.ext_iff]
    exact ⟨fun h => h.2, fun h => ⟨rfl, h⟩⟩
  · simp only [huser, Bool.false_eq_true, if_false]
    rw [List.take_length, h, List.take_length, Prod.ext_iff]
    exact ⟨fun h => h.2, fun h => ⟨rfl, h⟩⟩

/-! ## What a text leaves alone -/

/-- What `string_copy` does to a field: the text, the terminator, and the rest left alone. -/
def textPattern (source : List Byte) (maxLength : Nat) : List (Option Byte) :=
  (source.take (maxLength - 1)).map some
    ++ some 0 :: List.replicate (maxLength - 1 - source.length) none

theorem textPattern_length (source : List Byte) {maxLength : Nat} (h : 0 < maxLength) :
    (textPattern source maxLength).length = maxLength := by
  unfold textPattern
  rw [List.length_append, List.length_map, List.length_take, List.length_cons,
    List.length_replicate]
  omega

theorem stringCopyLoop_eq (room : Nat) (destination source : List Byte)
    (h : destination.length = room + 1) :
    stringCopyLoop room destination source
      = overlay (textPattern source (room + 1)) destination := by
  have hkeep : ∀ (l : List Byte), overlay (List.replicate l.length none) l = l := by
    intro l
    induction l with
    | nil => rfl
    | cons b l ih => rw [List.length_cons, List.replicate_succ, overlay_cons, ih]; rfl
  fun_induction stringCopyLoop room destination source with
  | case1 room c destination b source ih =>
    rw [ih (by simpa using h)]
    unfold textPattern
    simp only [Nat.add_sub_cancel, List.take_succ_cons, List.map_cons, List.cons_append,
      overlay_cons, List.length_cons, Nat.succ_eq_add_one, Nat.add_sub_add_right,
      Option.getD_some]
  | case2 room c destination source hstop =>
    have hlen : destination.length = room := by simpa using h
    unfold textPattern
    rcases Nat.eq_zero_or_pos room with hroom | hroom
    · subst hroom
      rw [List.length_eq_zero_iff.mp hlen]
      simp [overlay]
    have hsource : source = [] := by
      cases source with
      | nil => rfl
      | cons b source =>
        exact (hstop (room - 1) b source (by omega) rfl).elim
    subst hsource
    rw [Nat.add_sub_cancel, List.take_nil, List.map_nil, List.nil_append, overlay_cons,
      List.length_nil, Nat.sub_zero, ← hlen, hkeep]
    rfl
  | case3 => simp at h

theorem stringCopy_eq (destination source : List Byte) (h : destination.length = nameMax) :
    stringCopy destination source nameMax = overlay (textPattern source nameMax) destination :=
  stringCopyLoop_eq 31 destination source h

/-- The part of a structure that `reach` bytes cover ends within the text at `offset`, or the
text fills its field. -/
def Fills (reach offset : Nat) (text : List Byte) : Prop :=
  reach ≤ offset + text.length + 1 ∨ nameMax ≤ text.length + 1

theorem textPattern_full_iff (reach offset : Nat) (text : List Byte) :
    none ∉ (textPattern text nameMax).take (reach - offset) ↔ Fills reach offset text := by
  have htext : none ∉ ((text.take 31).map some).take (reach - offset) := fun h => by
    obtain ⟨b, -, hb⟩ := List.mem_map.mp (List.mem_of_mem_take h)
    cases hb
  have hrest : none ∈ (some (0 : Byte) :: List.replicate (31 - text.length) none).take
      (reach - offset - min 31 text.length)
        ↔ offset + text.length + 1 < reach ∧ text.length < 31 := by
    rcases hj : reach - offset - min 31 text.length with _ | j
    · rw [List.take_zero]
      exact ⟨fun h => absurd h List.not_mem_nil, fun h => by omega⟩
    · rw [List.take_succ_cons, List.take_replicate, List.mem_cons, List.mem_replicate]
      simp only [reduceCtorEq, false_or, and_true]
      omega
  unfold textPattern Fills
  rw [show nameMax - 1 = 31 from rfl, show nameMax = 32 from rfl, List.take_append,
    List.mem_append, List.length_map, List.length_take, hrest, or_iff_right htext]
  omega

/-! ## The structures do not hide what the stack held -/

instance : Nontrivial Byte := ⟨0, 1, by decide⟩

/-- The words in front of the texts are always stored. -/
theorem take_words_eq_iff (words x y : List Byte) (k : Nat) :
    (words ++ x).take k = (words ++ y).take k
      ↔ x.take (k - words.length) = y.take (k - words.length) := by
  rw [List.take_append, List.take_append, List.append_cancel_left_eq]

theorem dirent_determined_iff (s : View) (name : List Byte) (inode : Option Nat) (k : Nat) :
    (∀ e e' : Dirent, (s.fillDirent name inode e).bytes.take k
        = (s.fillDirent name inode e').bytes.take k) ↔ Fills k 24 name := by
  rw [← textPattern_full_iff, ← take_overlay_determined_iff, textPattern_length _ (by decide)]
  have hbytes : ∀ e e' : Dirent, ((s.fillDirent name inode e).bytes.take k
      = (s.fillDirent name inode e').bytes.take k)
        ↔ (overlay (textPattern name nameMax) e.name).take (k - 24)
          = (overlay (textPattern name nameMax) e'.name).take (k - 24) := fun e e' => by
    rw [← stringCopy_eq _ _ e.name_length, ← stringCopy_eq _ _ e'.name_length]
    exact take_words_eq_iff _ _ _ k
  constructor
  · intro h x y hx hy
    exact (hbytes ⟨0, 0, 0, 0, 0, 0, x, hx⟩ ⟨0, 0, 0, 0, 0, 0, y, hy⟩).mp (h _ _)
  · intro h e e'
    exact (hbytes e e').mpr (h _ _ e.name_length e'.name_length)

theorem procinfo_determined_iff (task : ListedTask) (k : Nat) :
    (∀ i i' : Procinfo, (task.fillProcinfo i).bytes.take k = (task.fillProcinfo i').bytes.take k)
      ↔ Fills k 36 task.name ∧ Fills k 68 task.ttyName := by
  have hlen : ∀ text, (textPattern text nameMax).length = nameMax := fun text =>
    textPattern_length text (by decide)
  have hfull : none ∉ (textPattern task.name nameMax ++ textPattern task.ttyName nameMax).take
      (k - 36) ↔ Fills k 36 task.name ∧ Fills k 68 task.ttyName := by
    rw [List.take_append, List.mem_append, not_or, hlen, Nat.sub_sub,
      show 36 + nameMax = 68 from rfl, textPattern_full_iff, textPattern_full_iff]
  rw [← hfull, ← take_overlay_determined_iff, List.length_append, hlen, hlen]
  have hbytes : ∀ i i' : Procinfo, ((task.fillProcinfo i).bytes.take k
      = (task.fillProcinfo i').bytes.take k)
        ↔ (overlay (textPattern task.name nameMax ++ textPattern task.ttyName nameMax)
            (i.name ++ i.tty)).take (k - 36)
          = (overlay (textPattern task.name nameMax ++ textPattern task.ttyName nameMax)
            (i'.name ++ i'.tty)).take (k - 36) := fun i i' => by
    rw [overlay_append ((hlen _).trans i.name_length.symm),
      overlay_append ((hlen _).trans i'.name_length.symm), ← stringCopy_eq _ _ i.name_length,
      ← stringCopy_eq _ _ i'.name_length, ← stringCopy_eq _ _ i.tty_length,
      ← stringCopy_eq _ _ i'.tty_length]
    exact take_words_eq_iff _ _ _ k
  constructor
  · intro h x y hx hy
    -- any 64 bytes are the two texts of some structure
    have hsplit : ∀ z : List Byte, z.length = nameMax + nameMax →
        (z.take nameMax).length = nameMax ∧ (z.drop nameMax).length = nameMax := fun z hz => by
      rw [List.length_take, List.length_drop]
      omega
    have heq := (hbytes
      ⟨0, 0, 0, 0, 0, 0, 0, 0, 0, x.take nameMax, x.drop nameMax, (hsplit x hx).1, (hsplit x hx).2⟩
      ⟨0, 0, 0, 0, 0, 0, 0, 0, 0, y.take nameMax, y.drop nameMax, (hsplit y hy).1,
        (hsplit y hy).2⟩).mp
      (h _ _)
    rwa [List.take_append_drop, List.take_append_drop] at heq
  · intro h i i'
    refine (hbytes i i').mpr (h _ _ ?_ ?_)
    · rw [List.length_append, i.name_length, i.tty_length]
    · rw [List.length_append, i'.name_length, i'.tty_length]

theorem Dirent.bytes_length (e : Dirent) : e.bytes.length = 56 := by
  unfold Dirent.bytes
  rw [List.length_append, e.name_length]
  rfl

theorem Procinfo.bytes_length (i : Procinfo) : i.bytes.length = 100 := by
  unfold Procinfo.bytes
  rw [List.length_append, List.length_append, i.name_length, i.tty_length]
  rfl

/-! ## The two handlers -/

variable {s : View} {path : List Byte} {index : Nat} {buffer : Buffer}

theorem sysReaddirHandler_found {name : List Byte} {inode : Option Nat}
    (haddress : buffer.address ≠ 0) (h : s.lookup path index = some (some (name, inode)))
    (entry : Dirent) : sysReaddirHandler s (some path) index buffer entry
      = copyOut buffer (s.fillDirent name inode entry).bytes := by
  unfold sysReaddirHandler procReaddir
  dsimp only
  rw [if_neg haddress, h]
  rfl

/-- Without an entry nothing is copied. -/
theorem sysReaddirHandler_nothing
    (h : ∀ name inode, s.lookup path index ≠ some (some (name, inode))) (e e' : Dirent) :
    sysReaddirHandler s (some path) index buffer e
      = sysReaddirHandler s (some path) index buffer e' := by
  unfold sysReaddirHandler procReaddir
  dsimp only
  rcases hlookup : s.lookup path index with _ | _ | ⟨name, inode⟩
  · rfl
  · rfl
  · exact absurd hlookup (h name inode)

theorem sysReaddir_determined_iff (haddress : buffer.address ≠ 0) :
    (∀ e e' : Dirent, sysReaddirHandler s (some path) index buffer e
        = sysReaddirHandler s (some path) index buffer e')
      ↔ ∀ name inode, s.lookup path index = some (some (name, inode)) →
        Fills (buffer.reach 56) 24 name := by
  have hcopy : ∀ name inode, s.lookup path index = some (some (name, inode)) →
      ((∀ e e' : Dirent, sysReaddirHandler s (some path) index buffer e
        = sysReaddirHandler s (some path) index buffer e') ↔ Fills (buffer.reach 56) 24 name) := by
    intro name inode hfound
    rw [← dirent_determined_iff s name inode]
    refine forall₂_congr fun e e' => ?_
    rw [sysReaddirHandler_found haddress hfound, sysReaddirHandler_found haddress hfound,
      copyOut_eq_iff haddress (by rw [Dirent.bytes_length, Dirent.bytes_length]),
      Dirent.bytes_length]
  constructor
  · exact fun h name inode hfound => (hcopy name inode hfound).mp h
  · intro h
    by_cases hfound : ∃ name inode, s.lookup path index = some (some (name, inode))
    · obtain ⟨name, inode, hfound⟩ := hfound
      exact (hcopy name inode hfound).mpr (h name inode hfound)
    · exact sysReaddirHandler_nothing fun name inode hsome => hfound ⟨name, inode, hsome⟩

theorem sysProcinfoHandler_found {slot : Nat} (haddress : buffer.address ≠ 0)
    (h : findListed s.tasks index (List.range maxTasks) 0 = some slot) (info : Procinfo) :
    sysProcinfoHandler s index buffer info
      = copyOut buffer ((s.tasks slot).fillProcinfo info).bytes := by
  unfold sysProcinfoHandler procProcinfo
  rw [if_neg haddress, h]
  rfl

theorem sysProcinfo_determined_iff (haddress : buffer.address ≠ 0) :
    (∀ i i' : Procinfo, sysProcinfoHandler s index buffer i = sysProcinfoHandler s index buffer i')
      ↔ ∀ slot, findListed s.tasks index (List.range maxTasks) 0 = some slot →
        Fills (buffer.reach 100) 36 (s.tasks slot).name
          ∧ Fills (buffer.reach 100) 68 (s.tasks slot).ttyName := by
  cases hfound : findListed s.tasks index (List.range maxTasks) 0 with
  | none =>
    refine ⟨fun _ slot hslot => (by cases hslot), fun _ i i' => ?_⟩
    unfold sysProcinfoHandler procProcinfo
    rw [hfound]
    rfl
  | some slot =>
    simp only [Option.some.injEq, forall_eq']
    rw [← procinfo_determined_iff (s.tasks slot)]
    refine forall₂_congr fun i i' => ?_
    rw [sysProcinfoHandler_found haddress hfound, sysProcinfoHandler_found haddress hfound,
      copyOut_eq_iff haddress (by rw [Procinfo.bytes_length, Procinfo.bytes_length]),
      Procinfo.bytes_length]

/-- **When the copied bytes do not depend on the kernel stack.** For both calls: if nothing is
found, or if the bytes that the buffer takes end within the name, or the name fills its field;
for `procinfo` the same has to hold of the terminal's name. -/
theorem copied_determined_iff (s : View) (path : Option (List Byte)) (index : Nat)
    (buffer : Buffer) :
    ((∀ e e' : Dirent,
        sysReaddirHandler s path index buffer e = sysReaddirHandler s path index buffer e')
      ↔ ∀ p ∈ path, ∀ name inode, s.lookup p index = some (some (name, inode)) →
        Fills (buffer.reach 56) 24 name)
    ∧ ((∀ i i' : Procinfo, sysProcinfoHandler s index buffer i
      = sysProcinfoHandler s index buffer i')
      ↔ ∀ slot, findListed s.tasks index (List.range maxTasks) 0 = some slot →
        Fills (buffer.reach 100) 36 (s.tasks slot).name
          ∧ Fills (buffer.reach 100) 68 (s.tasks slot).ttyName) := by
  by_cases haddress : buffer.address = 0
  · -- a null buffer is refused before anything is filled
    have hfills : ∀ (n offset : Nat) (text : List Byte), Fills (buffer.reach n) offset text :=
      fun n offset text => .inl (by unfold Buffer.reach; rw [if_pos haddress]; exact Nat.zero_le _)
    refine ⟨iff_of_true (fun e e' => ?_) fun p _ name inode _ => hfills 56 24 name,
      iff_of_true (fun i i' => ?_) fun slot _ => ⟨hfills 100 36 _, hfills 100 68 _⟩⟩
    · unfold sysReaddirHandler
      rw [if_pos haddress, if_pos haddress]
    · unfold sysProcinfoHandler
      rw [if_pos haddress, if_pos haddress]
  · refine ⟨?_, sysProcinfo_determined_iff haddress⟩
    cases path with
    | none => exact iff_of_true (fun e e' => rfl) fun p hp => by cases hp
    | some p =>
      rw [sysReaddir_determined_iff haddress]
      simp only [Option.mem_some_iff, forall_eq']

/-- A root directory with one entry `a`, and a task `b` without a terminal. -/
def shortNames : View where
  tree :=
    { inodes := fun i => if i = 0 then ⟨.dir, false, true, 0x1ED, 0, 0, 0, 1, [([0x61], some 1)]⟩
        else ⟨.reg, false, true, 0x1A4, 0, 0, 0, 1, []⟩
      root := some 0
      dirOps := fun i _ => by split <;> rfl }
  current := some ([0x2F], ⟨0, 0⟩)
  tasks := fun _ => { Task.reset with
    pid := 1, state := .running, sessionId := 1, processGroupId := 1, runTicks := 0, uid := 0,
    gid := 0, name := [0x62], ttyName := [] }

/-- A stack that holds the same byte everywhere. -/
def staleDirent (b : Byte) : Dirent :=
  ⟨0, 0, 0, 0, 0, 0, List.replicate nameMax b, List.length_replicate⟩

def staleProcinfo (b : Byte) : Procinfo :=
  ⟨0, 0, 0, 0, 0, 0, 0, 0, 0, List.replicate nameMax b, List.replicate nameMax b,
    List.length_replicate, List.length_replicate⟩

/-- Behind a short name the caller reads what the kernel stack held. -/
theorem short_names_leak :
    (sysReaddirHandler shortNames (some [0x2F]) 0 ⟨0x400000, true, fun _ => true⟩
      (staleDirent 0x55)).2
        = encodeWords [2, 0, 0x1A4, 0, 0, 1] ++ 0x61 :: 0 :: List.replicate 30 0x55
      ∧ (sysReaddirHandler shortNames (some [0x2F]) 0 ⟨0x400000, true, fun _ => true⟩
          (staleDirent 0x55)).2
        ≠ (sysReaddirHandler shortNames (some [0x2F]) 0 ⟨0x400000, true, fun _ => true⟩
          (staleDirent 0xAA)).2
      ∧ (sysProcinfoHandler shortNames 0 ⟨0x400000, true, fun _ => true⟩ (staleProcinfo 0x55)).2
        ≠ (sysProcinfoHandler shortNames 0 ⟨0x400000, true, fun _ => true⟩
          (staleProcinfo 0xAA)).2 := by
  decide +kernel

end Riverix.Sys
