import Riverix.Lib.Path
import Riverix.Lib.Word

/-!
# Paths and permissions (`vfs.c`)

A path is walked from the root, one component at a time, and every directory on the way
has to grant its search bit. The operations at the end of the walk ask for more: read or
write on the inode, write and search on the parent, and in a sticky directory a caller
who owns the directory or the entry.

The functions here stop where the code stops, and tell a permission check that failed
(`denied`) from every other reason (`failed`), which the code reports with the same -1.
`Grants` and the rules built on it are the mode-bit rule in its own terms, and
**`access_is_mode_bit_rule`** says that the checks are exactly that. The walk to the end of
a path and the one to its directory are the same walk over the components (`Tree.walk`), so
they agree (**`walkers_agree`**).
-/

namespace Riverix.Vfs

open Riverix.Lib

/-- `vfs_credentials_t`; a null pointer to one stands for the kernel itself. -/
structure Credentials where
  uid : Nat
  gid : Nat
  deriving DecidableEq, Repr

/-- `vfs_inode_kind_t` -/
inductive InodeKind
  | none
  | dev
  | reg
  | dir
  | pipe
  deriving DecidableEq, Repr

/-- The part of `vfs_inode_t` that paths and permissions use. `writeOp` tells whether
`ops->write` is there, `inodeOps` whether `inode_ops` is (there is one such table, and it
has all three operations). -/
structure Inode where
  kind : InodeKind
  writeOp : Bool
  inodeOps : Bool
  mode : Nat
  uid : Nat
  gid : Nat
  size : Nat
  links : Nat
  children : List (List Byte × Option Nat)

/-- The inodes and `root_inode`; directories are those of a mounted file system, which
come with their operations. -/
structure Tree where
  inodes : Nat → Inode
  root : Option Nat
  dirOps : ∀ i, (inodes i).kind = .dir → (inodes i).inodeOps = true

/-- Why a call returns -1. -/
inductive Refusal
  | denied
  | failed
  deriving DecidableEq, Repr

/-! ## `vfs_has_access` -/

/-- `VFS_ACCESS_EXEC`, `VFS_ACCESS_WRITE` and `VFS_ACCESS_READ` -/
def accessExec : Nat := 1
def accessWrite : Nat := 2
def accessRead : Nat := 4

/-- `vfs_is_superuser` -/
def isSuperuser (credentials : Option Credentials) : Bool :=
  match credentials with
  | none => true
  | some c => c.uid == 0

/-- The access that three bits of the mode allow. -/
def classAccess (mode r w x : Nat) : Nat :=
  let allowed := if mode &&& r ≠ 0 then accessRead else 0
  let allowed := if mode &&& w ≠ 0 then allowed ||| accessWrite else allowed
  if mode &&& x ≠ 0 then allowed ||| accessExec else allowed

/-- `vfs_allowed_access` -/
def allowedAccess (inode : Inode) (credentials : Option Credentials) : Nat :=
  match credentials with
  | none => accessRead ||| accessWrite ||| accessExec
  | some c =>
    if isSuperuser credentials then accessRead ||| accessWrite ||| accessExec
    else if c.uid = inode.uid then classAccess inode.mode 0x100 0x080 0x040
    else if c.gid = inode.gid then classAccess inode.mode 0x020 0x010 0x008
    else classAccess inode.mode 0x004 0x002 0x001

/-- `vfs_has_access` -/
def hasAccess (inode : Inode) (credentials : Option Credentials) (accessMask : Nat) : Bool :=
  allowedAccess inode credentials &&& accessMask == accessMask

/-! ## Paths -/

namespace Tree

/-- The search of `vfs_resolve_path` for a component among the children. -/
def lookup (t : Tree) (directory : Nat) (component : List Byte) : Option Nat :=
  match (t.inodes directory).children.find? fun child => child.1 == component with
  | some child => child.2
  | none => none

/-- The loop of `vfs_resolve_path`. -/
def resolveFrom (t : Tree) (credentials : Option Credentials) : Nat → List Byte → Except Refusal Nat
  | current, [] => .ok current
  | current, b :: cursor =>
    if (t.inodes current).kind ≠ .dir then .error .failed
    else if !hasAccess (t.inodes current) credentials accessExec then .error .denied
    -- the component has to fit into 32 bytes with its terminator
    else if (firstComponent (b :: cursor)).length ≥ 32 then .error .failed
    else
      match t.lookup current (firstComponent (b :: cursor)) with
      | none => .error .failed
      | some next => t.resolveFrom credentials next (afterComponent (b :: cursor))
termination_by _ cursor => cursor.length
decreasing_by exact afterComponent_length b cursor

/-- `vfs_resolve_path` -/
def resolvePath (t : Tree) (path : List Byte) (credentials : Option Credentials) :
    Except Refusal Nat :=
  match t.root with
  | none => .error .failed
  | some root =>
    if path.head? ≠ some slash then .error .failed
    else t.resolveFrom credentials root (skipSlashes path)

/-- `vfs_resolve_parent`: the directory and the name in it. -/
def resolveParent (t : Tree) (path : List Byte) (credentials : Option Credentials) :
    Except Refusal (Nat × List Byte) :=
  if path.head? ≠ some slash ∨ path.length < 2 then .error .failed
  else
    let last := lastSlash path
    let leafName := path.drop (last + 1)
    if last = path.length - 1 then .error .failed
    else if leafName.length ≥ 32 then .error .failed
    else if last ≠ 0 ∧ last ≥ 128 then .error .failed
    else
      match t.resolvePath (if last = 0 then [slash] else path.take last) credentials with
      | .error refusal => .error refusal
      | .ok parent =>
        if (t.inodes parent).kind = .dir then .ok (parent, leafName) else .error .failed

/-! ## The operations -/

/-- The access that the flags of an open ask for. -/
def requiredAccess (flags : Nat) : Nat :=
  let required := if flags &&& 1 ≠ 0 then accessRead else 0
  if flags &&& 2 ≠ 0 then required ||| accessWrite else required

/-- `vfs_open_path`: the inode that a new file refers to. `slot` tells whether the file
table has a free entry. -/
def openPath (t : Tree) (path : List Byte) (flags : Nat) (credentials : Option Credentials)
    (slot : Bool) : Except Refusal Nat :=
  match t.resolvePath path credentials with
  | .error refusal => .error refusal
  | .ok inode =>
    if (t.inodes inode).kind = .dir then .error .failed
    else if requiredAccess flags ≠ 0 ∧ !hasAccess (t.inodes inode) credentials
      (requiredAccess flags) then
      .error .denied
    else if flags &&& 2 ≠ 0 ∧ !(t.inodes inode).writeOp then .error .failed
    else if slot then .ok inode
    else .error .failed

/-- The checks that `vfs_create_path` and `vfs_mkdir_path` share: where the new entry
goes and under which name. -/
def createParent (t : Tree) (path : List Byte) (credentials : Option Credentials) :
    Except Refusal (Nat × List Byte) :=
  match t.resolvePath path credentials with
  | .ok _ => .error .failed
  | .error _ =>
    match t.resolveParent path credentials with
    | .error refusal => .error refusal
    | .ok (parent, leafName) =>
      if !hasAccess (t.inodes parent) credentials (accessWrite ||| accessExec) then .error .denied
      else if !(t.inodes parent).inodeOps then .error .failed
      else .ok (parent, leafName)

/-- `vfs_create_path`; `create` is what `create_child` makes of it. -/
def createPath (t : Tree) (path : List Byte) (credentials : Option Credentials)
    (create : Nat → List Byte → Option Nat) (slot : Bool) : Except Refusal Nat :=
  match t.createParent path credentials with
  | .error refusal => .error refusal
  | .ok (parent, leafName) =>
    match create parent leafName with
    | none => .error .failed
    | some inode => if slot then .ok inode else .error .failed

/-- `vfs_mkdir_path` -/
def mkdirPath (t : Tree) (path : List Byte) (credentials : Option Credentials)
    (create : Nat → List Byte → Option Nat) : Except Refusal Nat :=
  match t.createParent path credentials with
  | .error refusal => .error refusal
  | .ok (parent, leafName) =>
    match create parent leafName with
    | none => .error .failed
    | some inode => .ok inode

/-- `VFS_MODE_ISVTX` -/
def sticky (mode : Nat) : Bool := mode &&& 0x200 != 0

/-- The caller is neither the owner of the directory nor that of the entry. -/
def stranger (credentials : Option Credentials) (parent child : Inode) : Bool :=
  match credentials with
  | none => false
  | some c => c.uid != parent.uid && c.uid != child.uid

/-- `vfs_unlink_path`; `remove` is the result of `remove_child`. -/
def unlinkPath (t : Tree) (path : List Byte) (credentials : Option Credentials)
    (remove : Nat → List Byte → Bool) : Except Refusal Unit :=
  if path.head? ≠ some slash ∨ path.length = 1 then .error .failed
  else
    match t.resolveParent path credentials with
    | .error refusal => .error refusal
    | .ok (parent, leafName) =>
      if !hasAccess (t.inodes parent) credentials (accessWrite ||| accessExec) then .error .denied
      else if !(t.inodes parent).inodeOps then .error .failed
      else
        match t.resolvePath path credentials with
        | .error refusal => .error refusal
        | .ok child =>
          if sticky (t.inodes parent).mode && !isSuperuser credentials
              && stranger credentials (t.inodes parent) (t.inodes child) then .error .denied
          else if remove parent leafName then .ok ()
          else .error .failed

/-- `vfs_readdir_path`: the name and the inode of an entry, or nothing past the last. -/
def readdirPath (t : Tree) (path : List Byte) (credentials : Option Credentials) (index : Nat) :
    Except Refusal (Option (List Byte × Option Nat)) :=
  match t.resolvePath path credentials with
  | .error refusal => .error refusal
  | .ok directory =>
    if (t.inodes directory).kind ≠ .dir then .error .failed
    else if !hasAccess (t.inodes directory) credentials accessRead then .error .denied
    -- the name is cut to fit into 32 bytes
    else .ok ((t.inodes directory).children[index]?.map fun child => (child.1.take 31, child.2))

end Tree

/-! ## The rule -/

/-- What a caller may ask of an inode; the numbers are those of the bits in a class. -/
inductive Access
  | exec
  | write
  | read
  deriving DecidableEq, Repr

def Access.bit : Access → Nat
  | .exec => 0
  | .write => 1
  | .read => 2

/-- The class of the caller: the owner's bits, else the group's, else the others'. -/
def classShift (c : Credentials) (inode : Inode) : Nat :=
  if c.uid = inode.uid then 6 else if c.gid = inode.gid then 3 else 0

/-- The mode-bit rule: the superuser may do anything, anyone else what the bits of their
class say. -/
def Grants (credentials : Option Credentials) (inode : Inode) (access : Access) : Prop :=
  ∀ c ∈ credentials, c.uid = 0 ∨ inode.mode.testBit (classShift c inode + access.bit) = true

instance (credentials : Option Credentials) (inode : Inode) (access : Access) :
    Decidable (Grants credentials inode access) :=
  inferInstanceAs (Decidable (∀ c ∈ credentials, _))

/-- The directories that a path leads through and the inode it ends at, with no regard
to permissions. -/
def Tree.follow (t : Tree) : Nat → List (List Byte) → Option (List Nat × Nat)
  | i, [] => some ([], i)
  | i, name :: names =>
    if (t.inodes i).kind = .dir then
      match t.lookup i name with
      | none => none
      | some j => (t.follow j names).map fun r => (i :: r.1, r.2)
    else none

/-- The search bit of every directory on the way. -/
def MaySearch (t : Tree) (credentials : Option Credentials) (dirs : List Nat) : Prop :=
  ∀ d ∈ dirs, Grants credentials (t.inodes d) .exec

instance (t : Tree) (credentials : Option Credentials) (dirs : List Nat) :
    Decidable (MaySearch t credentials dirs) :=
  inferInstanceAs (Decidable (∀ d ∈ dirs, _))

/-- An entry of `parent` may be made or removed. -/
def MayChange (t : Tree) (credentials : Option Credentials) (dirs : List Nat)
    (parent : Nat) : Prop :=
  MaySearch t credentials dirs ∧ Grants credentials (t.inodes parent) .write ∧
    Grants credentials (t.inodes parent) .exec

instance (t : Tree) (credentials : Option Credentials) (dirs : List Nat) (parent : Nat) :
    Decidable (MayChange t credentials dirs parent) :=
  inferInstanceAs (Decidable (_ ∧ _ ∧ _))

/-- In a sticky directory only the owner of the directory or of the entry removes it. -/
def StickyAllows (credentials : Option Credentials) (parent child : Inode) : Prop :=
  parent.mode.testBit 9 = true → ∀ c ∈ credentials, c.uid = 0 ∨ c.uid = parent.uid ∨
    c.uid = child.uid

instance (credentials : Option Credentials) (parent child : Inode) :
    Decidable (StickyAllows credentials parent child) :=
  inferInstanceAs (Decidable (_ → ∀ c ∈ credentials, _))

/-! ## The checks are the rule -/

section Checks

variable {credentials : Option Credentials} {inode : Inode} {t : Tree}

theorem classAccess_testBit (mode s : Nat) (access : Access) :
    (classAccess mode (2 ^ (s + 2)) (2 ^ (s + 1)) (2 ^ s)).testBit access.bit
      = mode.testBit (s + access.bit) := by
  unfold classAccess
  simp only [and_bit_ne_zero]
  cases h₂ : mode.testBit (s + 2) <;> cases h₁ : mode.testBit (s + 1) <;> cases h₀ :
    mode.testBit s <;>
    cases access <;> simp [Access.bit, h₂, h₁, h₀, accessRead, accessWrite, accessExec] <;> decide

theorem allowedAccess_testBit (access : Access) :
    (allowedAccess inode credentials).testBit access.bit = true ↔
      Grants credentials inode access := by
  have hall : (accessRead ||| accessWrite ||| accessExec).testBit access.bit = true := by
    cases access <;> decide
  unfold allowedAccess Grants
  cases credentials with
  | none =>
    simp only [hall, true_iff]
    exact fun c hc => absurd hc (by simp)
  | some c =>
    simp only [Option.mem_some_iff, forall_eq', isSuperuser, beq_iff_eq]
    by_cases h0 : c.uid = 0
    · simp only [h0, if_true, hall, true_or]
    unfold classShift
    simp only [h0, if_false, false_or]
    by_cases hu : c.uid = inode.uid
    · simp only [hu, if_true]
      exact Iff.of_eq (congrArg (· = true) (classAccess_testBit inode.mode 6 access))
    simp only [hu, if_false]
    by_cases hg : c.gid = inode.gid
    · simp only [hg, if_true]
      exact Iff.of_eq (congrArg (· = true) (classAccess_testBit inode.mode 3 access))
    · simp only [hg, if_false]
      exact Iff.of_eq (congrArg (· = true) (classAccess_testBit inode.mode 0 access))

/-- A mask of access bits is granted bit by bit. -/
theorem hasAccess_iff {mask : Nat} (hmask : mask < 8) :
    hasAccess inode credentials mask = true ↔
      ∀ access : Access, mask.testBit access.bit = true → Grants credentials inode access := by
  unfold hasAccess
  rw [beq_iff_eq, and_eq_mask_iff]
  constructor
  · intro h access hbit
    exact allowedAccess_testBit access |>.mp (h access.bit hbit)
  · intro h i hi
    have hi3 : i < 3 := by
      by_contra hge
      have hpow : 2 ^ 3 ≤ 2 ^ i := Nat.pow_le_pow_right (by decide) (Nat.not_lt.mp hge)
      rw [Nat.testBit_lt_two_pow (Nat.lt_of_lt_of_le hmask hpow)] at hi
      simp at hi
    have hcases : i = 0 ∨ i = 1 ∨ i = 2 := by omega
    rcases hcases with hi' | hi' | hi' <;> subst hi'
    · exact allowedAccess_testBit .exec |>.mpr (h .exec hi)
    · exact allowedAccess_testBit .write |>.mpr (h .write hi)
    · exact allowedAccess_testBit .read |>.mpr (h .read hi)

theorem hasAccess_exec : hasAccess inode credentials accessExec = true ↔
    Grants credentials inode .exec := by
  rw [hasAccess_iff (by decide)]
  refine ⟨fun h => h .exec rfl, ?_⟩
  intro h access
  cases access with
  | exec => exact fun _ => h
  | write => exact fun hbit => absurd hbit (by decide)
  | read => exact fun hbit => absurd hbit (by decide)

theorem hasAccess_read : hasAccess inode credentials accessRead = true ↔
    Grants credentials inode .read := by
  rw [hasAccess_iff (by decide)]
  refine ⟨fun h => h .read rfl, ?_⟩
  intro h access
  cases access with
  | exec => exact fun hbit => absurd hbit (by decide)
  | write => exact fun hbit => absurd hbit (by decide)
  | read => exact fun _ => h

theorem hasAccess_change : hasAccess inode credentials (accessWrite ||| accessExec) = true ↔
    Grants credentials inode .write ∧ Grants credentials inode .exec := by
  rw [hasAccess_iff (by decide)]
  refine ⟨fun h => ⟨h .write rfl, h .exec rfl⟩, ?_⟩
  intro h access
  cases access with
  | exec => exact fun _ => h.2
  | write => exact fun _ => h.1
  | read => exact fun hbit => absurd hbit (by decide)

theorem requiredAccess_testBit (flags : Nat) (access : Access) :
    (Tree.requiredAccess flags).testBit access.bit = true ↔
      (access = .read ∧ flags.testBit 0 = true) ∨ (access = .write ∧ flags.testBit 1 = true) := by
  have h₀ : flags &&& 1 ≠ 0 ↔ flags.testBit 0 = true := and_bit_ne_zero flags 0
  have h₁ : flags &&& 2 ≠ 0 ↔ flags.testBit 1 = true := and_bit_ne_zero flags 1
  unfold Tree.requiredAccess
  simp only [h₀, h₁]
  cases flags.testBit 0 <;> cases flags.testBit 1 <;> cases access <;> decide

theorem requiredAccess_lt (flags : Nat) : Tree.requiredAccess flags < 8 := by
  unfold Tree.requiredAccess
  split <;> split <;> decide

/-- An open asks for what its flags say. -/
theorem hasAccess_required (flags : Nat) :
    ¬ (Tree.requiredAccess flags ≠ 0 ∧ (!hasAccess inode credentials (Tree.requiredAccess flags))
      = true) ↔
      (flags.testBit 0 = true → Grants credentials inode .read) ∧
        (flags.testBit 1 = true → Grants credentials inode .write) := by
  have hmask : hasAccess inode credentials (Tree.requiredAccess flags) = true ↔
      (flags.testBit 0 = true → Grants credentials inode .read) ∧
        (flags.testBit 1 = true → Grants credentials inode .write) := by
    rw [hasAccess_iff (requiredAccess_lt flags)]
    constructor
    · intro h
      exact ⟨fun h₀ => h .read ((requiredAccess_testBit flags .read).mpr (Or.inl ⟨rfl, h₀⟩)),
        fun h₁ => h .write ((requiredAccess_testBit flags .write).mpr (Or.inr ⟨rfl, h₁⟩))⟩
    · intro h access hbit
      rcases (requiredAccess_testBit flags access).mp hbit with ⟨ha, h₀⟩ | ⟨ha, h₁⟩
      · rw [ha]
        exact h.1 h₀
      · rw [ha]
        exact h.2 h₁
  rw [← hmask]
  constructor
  · intro h
    by_contra hno
    refine h ⟨?_, by simpa using hno⟩
    intro h0
    -- an empty mask is granted to everybody
    rw [h0] at hno
    exact hno (by simp [hasAccess])
  · intro h hc
    rw [h] at hc
    exact absurd hc.2 (by simp)

end Checks

/-! ## The walk -/

section Walk

variable {credentials : Option Credentials} {t : Tree} {i j : Nat} {path : List Byte}
  {dirs : List Nat}

/-- A cursor that stands on a component or at the end. -/
def AtComponent (cursor : List Byte) : Prop := ∀ b ∈ cursor.head?, isSlash b = false

theorem skipSlashes_atComponent (path : List Byte) : AtComponent (skipSlashes path) := by
  intro b hb
  have h := List.head?_dropWhile_not isSlash path
  unfold skipSlashes at hb
  rw [Option.mem_def] at hb
  rw [hb] at h
  simpa using h

theorem follow_cons {name : List Byte} {names : List (List Byte)}
    (h : t.follow i (name :: names) = some (dirs, j)) :
    (t.inodes i).kind = .dir ∧ ∃ k ds, t.lookup i name = some k ∧ t.follow k names = some (ds, j) ∧
      dirs = i :: ds := by
  unfold Tree.follow at h
  split at h
  next hk =>
    split at h
    · simp at h
    next k hl =>
      obtain ⟨r, hr, he⟩ := Option.map_eq_some_iff.mp h
      rw [Prod.mk.injEq] at he
      exact ⟨hk, k, r.1, hl, by rw [hr, ← he.2], he.1.symm⟩
  · simp at h

theorem maySearch_nil : MaySearch t credentials [] := fun _ hd => absurd hd List.not_mem_nil

theorem maySearch_cons {d : Nat} : MaySearch t credentials (d :: dirs) ↔
    Grants credentials (t.inodes d) .exec ∧ MaySearch t credentials dirs := by
  unfold MaySearch
  rw [List.forall_mem_cons]

/-- The walk over the components that are left. Each has to fit into 32 bytes with its
terminator. -/
def Tree.walk (t : Tree) (credentials : Option Credentials) :
    Nat → List (List Byte) → Except Refusal Nat
  | i, [] => .ok i
  | i, name :: names =>
    if (t.inodes i).kind ≠ .dir then .error .failed
    else if !hasAccess (t.inodes i) credentials accessExec then .error .denied
    else if name.length ≥ 32 then .error .failed
    else
      match t.lookup i name with
      | none => .error .failed
      | some next => t.walk credentials next names

/-- The cursor reads off the components of the path. -/
theorem resolveFrom_walk {cursor : List Byte} (hat : AtComponent cursor) :
    t.resolveFrom credentials i cursor = t.walk credentials i (components cursor) := by
  fun_induction Tree.resolveFrom t credentials i cursor with
  | case1 current => rfl
  | case2 current b cursor hk => rw [components_cursor (hat b rfl), Tree.walk, if_pos hk]
  | case3 current b cursor hk hx =>
    rw [components_cursor (hat b rfl), Tree.walk, if_neg hk, if_pos hx]
  | case4 current b cursor hk hx hlong =>
    rw [components_cursor (hat b rfl), Tree.walk, if_neg hk, if_neg hx, if_pos hlong]
  | case5 current b cursor hk hx hlong hl =>
    rw [components_cursor (hat b rfl), Tree.walk, if_neg hk, if_neg hx, if_neg hlong, hl]
  | case6 current b cursor hk hx hlong next hl ih =>
    rw [components_cursor (hat b rfl), Tree.walk, if_neg hk, if_neg hx, if_neg hlong, hl]
    exact ih (skipSlashes_atComponent _)

theorem walk_append (names names' : List (List Byte)) :
    t.walk credentials i (names ++ names')
      = (t.walk credentials i names).bind fun j => t.walk credentials j names' := by
  induction names generalizing i with
  | nil => rfl
  | cons name names ih =>
    rw [List.cons_append, Tree.walk, Tree.walk]
    split
    · rfl
    split
    · rfl
    split
    · rfl
    split
    · rfl
    · exact ih

/-- The last step of a walk. -/
theorem walk_child_iff {name : List Byte} : t.walk credentials i [name] = .ok j ↔
    (t.inodes i).kind = .dir ∧ hasAccess (t.inodes i) credentials accessExec = true ∧
      name.length < 32 ∧ t.lookup i name = some j := by
  rw [Tree.walk]
  by_cases hk : (t.inodes i).kind = .dir
  · cases hx : hasAccess (t.inodes i) credentials accessExec with
    | false => simp [hk]
    | true =>
      by_cases hlong : name.length ≥ 32
      · simp [hk, hlong, Nat.not_lt.mpr hlong]
      · rw [if_neg (not_not.mpr hk), if_neg (by simp), if_neg hlong]
        cases t.lookup i name <;> simp [hk, Nat.not_le.mp hlong, Tree.walk]
  · simp [hk]

/-- The walk ends where the path leads, or is stopped at the first directory that does
not grant its search bit. -/
theorem walk_follow {names : List (List Byte)} (hnames : ∀ c ∈ names, c.length < 32)
    (h : t.follow i names = some (dirs, j)) :
    t.walk credentials i names = if MaySearch t credentials dirs then .ok j
      else .error .denied := by
  induction names generalizing i dirs with
  | nil =>
    rw [Tree.follow, Option.some.injEq, Prod.mk.injEq] at h
    rw [← h.1, ← h.2, if_pos maySearch_nil, Tree.walk]
  | cons name names ih =>
    obtain ⟨hk, k, ds, hl, hrest, rfl⟩ := follow_cons h
    obtain ⟨hname, hnames⟩ := List.forall_mem_cons.mp hnames
    rw [Tree.walk, if_neg (not_not.mpr hk)]
    simp only [maySearch_cons, ← hasAccess_exec]
    cases hasAccess (t.inodes i) credentials accessExec with
    | false => simp
    | true =>
      rw [if_neg (by simp), if_neg (Nat.not_le.mpr hname), hl]
      simp only [true_and]
      exact ih hnames hrest

end Walk

/-! ## The operations -/

section Operations

variable {credentials : Option Credentials} {t : Tree} {root i d : Nat}
  {path parent leaf : List Byte}
  {dirs : List Nat} (hroot : t.root = some root)

/-- The path leads to the inode `i` through the directories `dirs`, under names that fit. -/
structure Leads (t : Tree) (root : Nat) (path : List Byte) (dirs : List Nat) (i : Nat) : Prop where
  absolute : path.head? = some slash
  names : ∀ c ∈ components path, c.length < 32
  follow : t.follow root (components path) = some (dirs, i)

include hroot in
theorem resolvePath_walk (habs : path.head? = some slash) :
    t.resolvePath path credentials = t.walk credentials root (components path) := by
  unfold Tree.resolvePath
  rw [hroot]
  dsimp only
  rw [if_neg (not_not.mpr habs), resolveFrom_walk (skipSlashes_atComponent path),
    components_skipSlashes]

include hroot in
theorem resolvePath_leads (h : Leads t root path dirs i) :
    t.resolvePath path credentials
      = if MaySearch t credentials dirs then .ok i else .error .denied := by
  rw [resolvePath_walk hroot h.absolute, walk_follow h.names h.follow]

include hroot in
/-- **Opening**: search on the way, and read or write as the flags ask. -/
theorem openPath_rule (h : Leads t root path dirs i) (hk : (t.inodes i).kind ≠ .dir) (flags : Nat)
    (slot : Bool) :
    t.openPath path flags credentials slot ≠ .error .denied ↔
      MaySearch t credentials dirs ∧
        (flags.testBit 0 = true → Grants credentials (t.inodes i) .read) ∧
        (flags.testBit 1 = true → Grants credentials (t.inodes i) .write) := by
  unfold Tree.openPath
  rw [resolvePath_leads hroot h, ← hasAccess_required]
  by_cases hs : MaySearch t credentials dirs
  · rw [if_pos hs]
    dsimp only
    rw [if_neg hk]
    by_cases hr : Tree.requiredAccess flags ≠ 0 ∧
        (!hasAccess (t.inodes i) credentials (Tree.requiredAccess flags)) = true
    · simp [hs, hr]
    rw [if_neg hr]
    refine ⟨fun _ => ⟨hs, hr⟩, fun _ => ?_⟩
    split
    · simp
    · split <;> simp
  · simp [hs]

include hroot in
/-- **Listing**: search on the way and read on the directory. -/
theorem readdirPath_rule (h : Leads t root path dirs i) (hk : (t.inodes i).kind = .dir)
    (index : Nat) :
    t.readdirPath path credentials index ≠ .error .denied ↔
      MaySearch t credentials dirs ∧ Grants credentials (t.inodes i) .read := by
  unfold Tree.readdirPath
  rw [resolvePath_leads hroot h, ← hasAccess_read]
  by_cases hs : MaySearch t credentials dirs
  · rw [if_pos hs]
    dsimp only
    rw [if_neg (not_not.mpr hk)]
    cases hasAccess (t.inodes i) credentials accessRead <;> simp [hs]
  · simp [hs]

/-- The text `parent/leaf` names an entry: the last component is there, and the part
before it fits into `VFS_PATH_MAX` bytes with its terminator. -/
structure Entry (parent leaf : List Byte) : Prop where
  absolute : parent = [] ∨ parent.head? = some slash
  fits : parent.length < 128
  named : leaf ≠ []
  name : ∀ b ∈ leaf, isSlash b = false
  short : leaf.length < 32

/-- The text of the directory: the root's is a slash. -/
def dirText (parent : List Byte) : List Byte := if parent = [] then [slash] else parent

theorem components_dirText (parent : List Byte) :
    components (dirText parent) = components parent := by
  unfold dirText
  split
  next h =>
    rw [h]
    rfl
  · rfl

theorem dirText_head (habs : parent = [] ∨ parent.head? = some slash) :
    (dirText parent).head? = some slash ∧ (parent ++ slash :: leaf).head? = some slash := by
  unfold dirText
  rcases habs with hp | hp
  · rw [hp]
    exact ⟨rfl, rfl⟩
  · cases parent with
    | nil => simp at hp
    | cons b parent => exact ⟨hp, hp⟩

/-- The last step of the walk is a step in the directory. -/
theorem resolvePath_entry (habs : parent = [] ∨ parent.head? = some slash) (hne : leaf ≠ [])
    (hname : ∀ b ∈ leaf, isSlash b = false) :
    t.resolvePath (parent ++ slash :: leaf) credentials
      = (t.resolvePath (dirText parent) credentials).bind fun d => t.walk credentials d [leaf] := by
  cases hroot : t.root with
  | none =>
    unfold Tree.resolvePath
    rw [hroot]
    rfl
  | some root =>
    obtain ⟨hdir, hpath⟩ := @dirText_head parent leaf habs
    rw [resolvePath_walk hroot hpath, resolvePath_walk hroot hdir, components_dirText,
      components_slash,
      components_name hne hname, walk_append]

/-- The path is cut at its last slash. -/
theorem resolveParent_entry (habs : parent = [] ∨ parent.head? = some slash)
    (hfits : parent.length < 128) (hne : leaf ≠ []) (hname : ∀ b ∈ leaf, isSlash b = false) :
    t.resolveParent (parent ++ slash :: leaf) credentials =
      if leaf.length ≥ 32 then .error .failed
      else
        match t.resolvePath (dirText parent) credentials with
        | .error refusal => .error refusal
        | .ok d => if (t.inodes d).kind = .dir then .ok (d, leaf) else .error .failed := by
  have hlen := length_entry parent leaf
  have hpos : 0 < leaf.length := List.length_pos_iff.mpr hne
  have hleaf : (parent ++ slash :: leaf).drop (parent.length + 1) = leaf := by
    rw [List.drop_append, List.drop_eq_nil_of_le (Nat.le_succ _)]
    simp
  have hdir : (if parent.length = 0 then [slash] else (parent ++ slash :: leaf).take parent.length)
      = dirText parent := by
    unfold dirText
    rw [List.take_left' rfl]
    simp only [List.length_eq_zero_iff]
  unfold Tree.resolveParent
  rw [if_neg (by rw [(dirText_head habs).2, hlen]; simp; omega)]
  dsimp only
  rw [lastSlash_entry hname, hleaf, hlen, hdir, if_neg (by omega),
    if_neg (show ¬(parent.length ≠ 0 ∧ parent.length ≥ 128) by omega)]

variable (hentry : Entry parent leaf) (hdir : Leads t root (dirText parent) dirs d)
  (hd : (t.inodes d).kind = .dir)

include hroot hentry hdir hd in
theorem resolveParent_leads : t.resolveParent (parent ++ slash :: leaf) credentials
    = if MaySearch t credentials dirs then .ok (d, leaf) else .error .denied := by
  rw [resolveParent_entry hentry.absolute hentry.fits hentry.named hentry.name,
    if_neg (Nat.not_le.mpr hentry.short), resolvePath_leads hroot hdir]
  by_cases hs : MaySearch t credentials dirs
  · simp only [hs, if_true, hd]
  · simp only [hs, if_false]

include hroot hentry hdir in
/-- A name that is not there is not found. -/
theorem resolvePath_missing (hmissing : t.lookup d leaf = none) :
    ∃ refusal, t.resolvePath (parent ++ slash :: leaf) credentials = .error refusal := by
  cases hres : t.resolvePath (parent ++ slash :: leaf) credentials with
  | error refusal => exact ⟨refusal, rfl⟩
  | ok j =>
    exfalso
    rw [resolvePath_entry hentry.absolute hentry.named hentry.name,
      resolvePath_leads hroot hdir] at hres
    split at hres
    next =>
      have hlookup := (walk_child_iff.mp hres).2.2.2
      rw [hmissing] at hlookup
      simp at hlookup
    · exact absurd hres (by simp [Except.bind])

include hroot hentry hdir hd in
/-- **Creating**: search on the way, write and search on the directory. -/
theorem createParent_rule (hmissing : t.lookup d leaf = none) :
    t.createParent (parent ++ slash :: leaf) credentials
      = if MayChange t credentials dirs d then .ok (d, leaf) else .error .denied := by
  obtain ⟨refusal, hres⟩ : ∃ refusal,
      t.resolvePath (parent ++ slash :: leaf) credentials = .error refusal :=
    resolvePath_missing hroot hentry hdir hmissing
  unfold Tree.createParent
  rw [hres, resolveParent_leads hroot hentry hdir hd]
  by_cases hs : MaySearch t credentials dirs
  · rw [if_pos hs]
    dsimp only
    by_cases hw : Grants credentials (t.inodes d) .write ∧ Grants credentials (t.inodes d) .exec
    · rw [if_neg (by rw [hasAccess_change.mpr hw]; simp), if_neg (by rw [t.dirOps d hd]; simp),
        if_pos ⟨hs, hw⟩]
    · have hno : hasAccess (t.inodes d) credentials (accessWrite ||| accessExec) = false := by
        rw [← Bool.not_eq_true, hasAccess_change]
        exact hw
      rw [if_pos (by rw [hno]; rfl), if_neg (fun hall => hw hall.2)]
  · rw [if_neg hs, if_neg (fun hall => hs hall.1)]

theorem sticky_iff (mode : Nat) : Tree.sticky mode = true ↔ mode.testBit 9 = true := by
  unfold Tree.sticky
  rw [bne_iff_ne]
  exact and_bit_ne_zero mode 9

/-- The sticky check of `vfs_unlink_path`. -/
theorem stickyCheck_iff (parent child : Inode) :
    (Tree.sticky parent.mode && !isSuperuser credentials && Tree.stranger credentials parent child)
      = false ↔ StickyAllows credentials parent child := by
  unfold StickyAllows
  rw [← sticky_iff]
  cases credentials with
  | none => simp [isSuperuser]
  | some c =>
    cases Tree.sticky parent.mode with
    | false => simp
    | true =>
      simp only [isSuperuser, Tree.stranger, Option.mem_some_iff, forall_eq', Bool.true_and]
      by_cases h0 : c.uid = 0 <;> by_cases hp : c.uid = parent.uid <;>
        by_cases hc : c.uid = child.uid <;> simp [h0, hp, hc]

include hroot hentry hdir hd in
/-- **Removing**: as for creating, and what a sticky directory asks. -/
theorem unlinkPath_rule (hchild : t.lookup d leaf = some i) (remove : Nat → List Byte → Bool) :
    t.unlinkPath (parent ++ slash :: leaf) credentials remove ≠ .error .denied ↔
      MayChange t credentials dirs d ∧ StickyAllows credentials (t.inodes d) (t.inodes i) := by
  have hlen : (parent ++ slash :: leaf).length ≠ 1 := by
    have hpos : 0 < leaf.length := List.length_pos_iff.mpr hentry.named
    rw [List.length_append, List.length_cons]
    omega
  unfold Tree.unlinkPath
  rw [if_neg (by rw [(dirText_head hentry.absolute).2]; simpa using hlen),
    resolveParent_leads hroot hentry hdir hd]
  by_cases hs : MaySearch t credentials dirs
  · rw [if_pos hs]
    dsimp only
    by_cases hw : Grants credentials (t.inodes d) .write ∧ Grants credentials (t.inodes d) .exec
    · have hpath : t.resolvePath (parent ++ slash :: leaf) credentials = .ok i := by
        rw [resolvePath_entry hentry.absolute hentry.named hentry.name,
          resolvePath_leads hroot hdir,
          if_pos hs]
        exact walk_child_iff.mpr ⟨hd, hasAccess_exec.mpr hw.2, hentry.short, hchild⟩
      rw [if_neg (by rw [hasAccess_change.mpr hw]; simp),
        if_neg (by rw [t.dirOps d hd]; simp), hpath,
        ← stickyCheck_iff]
      dsimp only
      cases Tree.sticky (t.inodes d).mode && !isSuperuser credentials &&
          Tree.stranger credentials (t.inodes d) (t.inodes i) with
      | true => simp
      | false =>
        refine ⟨fun _ => ⟨⟨hs, hw⟩, rfl⟩, fun _ => ?_⟩
        cases remove d leaf <;> simp
    have hno : hasAccess (t.inodes d) credentials (accessWrite ||| accessExec) = false := by
      rw [← Bool.not_eq_true, hasAccess_change]
      exact hw
    rw [if_pos (by rw [hno]; rfl)]
    exact ⟨fun h => absurd rfl h, fun h => absurd h.1.2 hw⟩
  · rw [if_neg hs]
    exact ⟨fun h => absurd rfl h, fun h => absurd h.1.1 hs⟩

/-- A path that ends in a slash, or whose directory part is too long, is refused before
any permission is looked at. -/
theorem resolveParent_unfit (hname : ∀ b ∈ leaf, isSlash b = false)
    (h : leaf = [] ∨ 128 ≤ parent.length) :
    t.resolveParent (parent ++ slash :: leaf) credentials = .error .failed := by
  have hlen := length_entry parent leaf
  unfold Tree.resolveParent
  dsimp only
  rw [lastSlash_entry hname, hlen]
  split
  · rfl
  split
  · rfl
  next hlast =>
  split
  · rfl
  rcases h with h | h
  · rw [h] at hlast
    exact absurd rfl hlast
  · rw [if_pos ⟨by omega, h⟩]

end Operations

/-- What the permission checks of the five operations come to, for a caller in a tree.
An operation passes its checks if it is not `denied`. -/
structure ModeBitRule (t : Tree) (root : Nat) (credentials : Option Credentials) : Prop where
  /-- Opening asks for search on the way, and for what the flags say. -/
  openFile : ∀ path dirs i, Leads t root path dirs i → (t.inodes i).kind ≠ .dir → ∀ flags slot,
    (t.openPath path flags credentials slot ≠ .error .denied ↔
      MaySearch t credentials dirs ∧
        (flags.testBit 0 = true → Grants credentials (t.inodes i) .read) ∧
        (flags.testBit 1 = true → Grants credentials (t.inodes i) .write))
  /-- A directory is not opened at all, whatever its bits. -/
  openDirectory : ∀ path dirs i, Leads t root path dirs i → (t.inodes i).kind = .dir →
    ∀ flags slot, t.openPath path flags credentials slot
      = .error (if MaySearch t credentials dirs then .failed else .denied)
  /-- Listing asks for search on the way and read on the directory. -/
  list : ∀ path dirs i, Leads t root path dirs i → (t.inodes i).kind = .dir → ∀ index,
    (t.readdirPath path credentials index ≠ .error .denied ↔
      MaySearch t credentials dirs ∧ Grants credentials (t.inodes i) .read)
  /-- What is no directory is not listed, whatever its bits. -/
  listFile : ∀ path dirs i, Leads t root path dirs i → (t.inodes i).kind ≠ .dir →
    ∀ index, t.readdirPath path credentials index
      = .error (if MaySearch t credentials dirs then .failed else .denied)
  /-- Creating asks for search on the way, and write and search on the directory. -/
  create : ∀ parent leaf dirs d, Entry parent leaf → Leads t root (dirText parent) dirs d →
    (t.inodes d).kind = .dir → t.lookup d leaf = none → ∀ create slot,
    (t.createPath (parent ++ slash :: leaf) credentials create slot ≠ .error .denied ↔
      MayChange t credentials dirs d) ∧
    (t.mkdirPath (parent ++ slash :: leaf) credentials create ≠ .error .denied ↔
      MayChange t credentials dirs d)
  /-- Removing asks for the same, and for what a sticky directory says. -/
  unlink : ∀ parent leaf dirs d i, Entry parent leaf → Leads t root (dirText parent) dirs d →
    (t.inodes d).kind = .dir → t.lookup d leaf = some i → ∀ remove,
    (t.unlinkPath (parent ++ slash :: leaf) credentials remove ≠ .error .denied ↔
      MayChange t credentials dirs d ∧ StickyAllows credentials (t.inodes d) (t.inodes i))
  /-- A path that names no entry, or is too long, changes nothing, whoever the caller is. -/
  unfit : ∀ parent leaf, (∀ b ∈ leaf, isSlash b = false) → leaf = [] ∨ 128 ≤ parent.length →
    ∀ create slot remove,
    t.createPath (parent ++ slash :: leaf) credentials create slot = .error .failed ∧
    t.mkdirPath (parent ++ slash :: leaf) credentials create = .error .failed ∧
    t.unlinkPath (parent ++ slash :: leaf) credentials remove = .error .failed

/-- **Access control is exactly the mode-bit rule**, for every tree, caller and path: the
five operations are denied unless the rule grants what they ask for, and never when it
does. -/
theorem access_is_mode_bit_rule (t : Tree) {root : Nat} (hroot : t.root = some root)
    (credentials : Option Credentials) : ModeBitRule t root credentials where
  openFile path dirs i h hk flags slot := openPath_rule hroot h hk flags slot
  openDirectory path dirs i h hk flags slot := by
    unfold Tree.openPath
    rw [resolvePath_leads hroot h]
    by_cases hs : MaySearch t credentials dirs <;> simp [hs, hk]
  list path dirs i h hk index := readdirPath_rule hroot h hk index
  listFile path dirs i h hk index := by
    unfold Tree.readdirPath
    rw [resolvePath_leads hroot h]
    by_cases hs : MaySearch t credentials dirs <;> simp [hs, hk]
  create parent leaf dirs d hentry hdir hd hmissing create slot := by
    unfold Tree.createPath Tree.mkdirPath
    rw [createParent_rule hroot hentry hdir hd hmissing]
    by_cases hc : MayChange t credentials dirs d
    · simp only [hc, if_true, iff_true]
      cases create d leaf with
      | none => exact ⟨by simp, by simp⟩
      | some i => cases slot <;> exact ⟨by simp, by simp⟩
    · simp [hc]
  unlink parent leaf dirs d i hentry hdir hd hchild remove :=
    unlinkPath_rule hroot hentry hdir hd hchild remove
  unfit parent leaf hname h create slot remove := by
    have hparent : t.createParent (parent ++ slash :: leaf) credentials = .error .failed := by
      unfold Tree.createParent
      rw [resolveParent_unfit hname h]
      split <;> rfl
    unfold Tree.createPath Tree.mkdirPath Tree.unlinkPath
    rw [hparent, resolveParent_unfit hname h]
    exact ⟨rfl, rfl, ite_self _⟩

/-- `/tmp` is sticky and open to everyone, and a user has a file there. -/
def sampleTree : Tree where
  inodes
    | 0 => ⟨.dir, false, true, 0x1ED, 0, 0, 0, 2, [([0x74], some 1)]⟩
    | 1 => ⟨.dir, false, true, 0x3FF, 0, 0, 0, 2, [([0x66], some 2)]⟩
    | _ => ⟨.reg, true, true, 0x1A0, 1000, 1000, 0, 1, []⟩
  root := some 0
  dirOps := fun i => by rcases i with _ | _ | i <;> simp

/-- Another user of the group reads `/t/f` and does not write or remove it, though they may
make an entry of their own next to it. -/
theorem access_is_mode_bit_rule_sample :
    let other := some ⟨1001, 1000⟩
    let file := [slash, 0x74] ++ slash :: [0x66]
    sampleTree.openPath file 1 other true ≠ .error .denied ∧
    sampleTree.openPath file 3 other true = .error .denied ∧
    sampleTree.unlinkPath file other (fun _ _ => true) = .error .denied ∧
    sampleTree.createPath ([slash, 0x74] ++ slash :: [0x67]) other (fun _ _ => some 3) true
      ≠ .error .denied := by
  have rule := @access_is_mode_bit_rule sampleTree 0 rfl (some ⟨1001, 1000⟩)
  have hfile : Leads sampleTree 0 ([slash, 0x74] ++ slash :: [0x66]) [0, 1] 2 :=
    ⟨rfl, by decide, rfl⟩
  have hdir : Leads sampleTree 0 (dirText [slash, 0x74]) [0] 1 := ⟨rfl, by decide, rfl⟩
  refine ⟨?_, ?_, ?_, ?_⟩
  · exact (rule.openFile _ _ _ hfile (by decide) 1 true).mpr (by decide)
  · exact not_not.mp fun h =>
      absurd ((rule.openFile _ _ _ hfile (by decide) 3 true).mp h) (by decide)
  · exact not_not.mp fun h =>
      absurd ((rule.unlink _ _ _ _ 2 ⟨by decide, by decide, by decide, by decide, by decide⟩ hdir
        rfl rfl _).mp h).2 (by decide)
  · exact (rule.create _ _ _ _ ⟨by decide, by decide, by decide, by decide, by decide⟩ hdir rfl rfl
      _ true).1.mpr (by decide)

/-- A root directory of mode 0711. -/
def searchOnlyTree : Tree where
  inodes _ := ⟨.dir, false, true, 0x1C9, 0, 0, 0, 2, []⟩
  root := some 0
  dirOps := fun _ => by simp

/-- **A directory is refused for being one, before its bits are looked at**: a stranger may
not read `/`, but to open it for reading is no matter of permissions. So the rule says
whether an open is denied only of what is no directory. -/
theorem open_directory_ignores_bits :
    let other := some ⟨5, 5⟩
    Leads searchOnlyTree 0 [slash] [] 0 ∧ MaySearch searchOnlyTree other [] ∧
    ¬ Grants other (searchOnlyTree.inodes 0) .read ∧
    searchOnlyTree.openPath [slash] 1 other true = .error .failed ∧
    ¬ (searchOnlyTree.openPath [slash] 1 other true ≠ .error .denied ↔
      MaySearch searchOnlyTree other [] ∧ Grants other (searchOnlyTree.inodes 0) .read) := by
  have hleads : Leads searchOnlyTree 0 [slash] [] 0 := ⟨rfl, by decide, rfl⟩
  have hopen : searchOnlyTree.openPath [slash] 1 (some ⟨5, 5⟩) true = .error .failed := by
    unfold Tree.openPath
    rw [resolvePath_leads rfl hleads, if_pos (by decide)]
    rfl
  have hread : ¬ Grants (some ⟨5, 5⟩) (searchOnlyTree.inodes 0) .read := by decide
  refine ⟨hleads, by decide, hread, hopen, fun h => hread (h.mp ?_).2⟩
  rw [hopen]
  simp

/-! ## The two walkers -/

/-- The end of `vfs_unlink_path` as it is meant: the owner that counts is that of the entry
`leafName` of the directory, which is the one to be removed. -/
def Tree.unlinkEntry (t : Tree) (parent : Nat) (leafName : List Byte)
    (credentials : Option Credentials) (remove : Nat → List Byte → Bool) : Except Refusal Unit :=
  match t.lookup parent leafName with
  | none => .error .failed
  | some child =>
    if sticky (t.inodes parent).mode && !isSuperuser credentials
        && stranger credentials (t.inodes parent) (t.inodes child) then .error .denied
    else if remove parent leafName then .ok ()
    else .error .failed

theorem lookup_eq_some_iff {t : Tree} {d i : Nat} {name : List Byte} : t.lookup d name = some i ↔
    ∃ child, (t.inodes d).children.find? (fun child => child.1 == name) = some child ∧
      child.2 = some i := by
  unfold Tree.lookup
  cases (t.inodes d).children.find? fun child => child.1 == name <;> simp

/-- What `vfs_resolve_parent` finds is the directory and the text behind its last slash. -/
theorem resolveParent_ok_iff {t : Tree} {credentials : Option Credentials}
    {dir leaf leafName : List Byte} {parent : Nat} (hdir : dir = [] ∨ dir.head? = some slash)
    (hfits : dir.length < 128) (hne : leaf ≠ []) (hname : ∀ b ∈ leaf, isSlash b = false) :
    t.resolveParent (dir ++ slash :: leaf) credentials = .ok (parent, leafName) ↔
      t.resolvePath (dirText dir) credentials = .ok parent ∧ (t.inodes parent).kind = .dir ∧
        leaf.length < 32 ∧ leaf = leafName := by
  rw [resolveParent_entry hdir hfits hne hname]
  split
  next hlong => simp [Nat.not_lt.mpr hlong]
  next hshort =>
  cases t.resolvePath (dirText dir) credentials with
  | error refusal => simp
  | ok d =>
    dsimp only
    split
    next hk =>
      simp only [Except.ok.injEq, Prod.mk.injEq, Nat.not_le.mp hshort, true_and]
      exact and_congr_right fun hd => (and_iff_right (hd ▸ hk)).symm
    next hk =>
      refine ⟨by simp, fun ⟨hd, hk', _⟩ => absurd hk' ?_⟩
      rw [← Except.ok.inj hd]
      exact hk

/-- **The two walkers agree**: `vfs_resolve_path` arrives exactly where `vfs_resolve_parent`
finds a directory that may be searched with an entry of that name, and then at the first
such entry. So the owner that `vfs_unlink_path` checks is that of the entry it removes. -/
theorem walkers_agree (t : Tree) (credentials : Option Credentials) (path : List Byte)
    (habs : path.head? = some slash) (hlen : path.length < 128)
    (hend : path.getLast? ≠ some slash) :
    (∀ i, t.resolvePath path credentials = .ok i ↔
      ∃ parent leafName, t.resolveParent path credentials = .ok (parent, leafName) ∧
        hasAccess (t.inodes parent) credentials accessExec = true ∧
        ∃ child, (t.inodes parent).children.find? (fun child => child.1 == leafName) = some child ∧
          child.2 = some i) ∧
    ((∀ d, ∀ child ∈ (t.inodes d).children, child.2 ≠ none) →
      ((∃ i, t.resolvePath path credentials = .ok i) ↔
        ∃ parent leafName, t.resolveParent path credentials = .ok (parent, leafName) ∧
          hasAccess (t.inodes parent) credentials accessExec = true ∧
          ∃ child ∈ (t.inodes parent).children, child.1 = leafName)) ∧
    ∀ parent leafName remove, t.resolveParent path credentials = .ok (parent, leafName) →
      hasAccess (t.inodes parent) credentials (accessWrite ||| accessExec) = true →
      t.unlinkPath path credentials remove = t.unlinkEntry parent leafName credentials remove := by
  obtain ⟨dir, leaf, rfl, hdir, hne, hname⟩ := exists_entry habs hend
  have hpos := List.length_pos_iff.mpr hne
  simp only [List.length_append, List.length_cons] at hlen
  have hparent := fun {parent leafName} =>
    @resolveParent_ok_iff t credentials dir leaf leafName parent hdir (by omega) hne hname
  have hpath := @resolvePath_entry credentials t dir leaf hdir hne hname
  have hiff : ∀ i, t.resolvePath (dir ++ slash :: leaf) credentials = .ok i ↔
      ∃ parent leafName, t.resolveParent (dir ++ slash :: leaf) credentials
        = .ok (parent, leafName) ∧
        hasAccess (t.inodes parent) credentials accessExec = true ∧
        t.lookup parent leafName = some i := by
    intro i
    rw [hpath]
    constructor
    · intro h
      cases hd : t.resolvePath (dirText dir) credentials with
      | error refusal =>
        rw [hd] at h
        exact absurd h (by simp [Except.bind])
      | ok d =>
        rw [hd] at h
        obtain ⟨hk, hx, hshort, hl⟩ := walk_child_iff.mp h
        exact ⟨d, leaf, hparent.mpr ⟨hd, hk, hshort, rfl⟩, hx, hl⟩
    · rintro ⟨parent, leafName, h, hx, hl⟩
      obtain ⟨hd, hk, hshort, rfl⟩ := hparent.mp h
      rw [hd]
      exact walk_child_iff.mpr ⟨hk, hx, hshort, hl⟩
  refine ⟨fun i => ?_, fun hinodes => ⟨?_, ?_⟩, ?_⟩
  · rw [hiff]
    simp only [lookup_eq_some_iff]
  · rintro ⟨i, hi⟩
    obtain ⟨parent, leafName, h, hx, hchild⟩ := (hiff i).mp hi
    obtain ⟨child, hfind, -⟩ := lookup_eq_some_iff.mp hchild
    exact ⟨parent, leafName, h, hx, child, List.mem_of_find?_eq_some hfind,
      by simpa using List.find?_some hfind⟩
  · rintro ⟨parent, leafName, h, hx, child, hmem, hnamed⟩
    obtain ⟨first, hfind⟩ := Option.isSome_iff_exists.mp
      ((List.find?_isSome (p := fun child => child.1 == leafName)).mpr
        ⟨child, hmem, by simpa using hnamed⟩)
    obtain ⟨i, hi⟩ := Option.ne_none_iff_exists'.mp
      (hinodes parent first (List.mem_of_find?_eq_some hfind))
    exact ⟨i, (hiff i).mpr ⟨parent, leafName, h, hx, lookup_eq_some_iff.mpr ⟨first, hfind, hi⟩⟩⟩
  · intro parent leafName remove h hchange
    obtain ⟨hd, hk, hshort, rfl⟩ := hparent.mp h
    have hx := hasAccess_exec.mpr (hasAccess_change.mp hchange).2
    unfold Tree.unlinkPath Tree.unlinkEntry
    rw [if_neg (by simp [habs]; omega), h]
    dsimp only
    rw [if_neg (by rw [hchange]; simp), if_neg (by rw [t.dirOps parent hk]; simp), hpath, hd]
    simp only [Except.bind, Tree.walk, hk, hx, Nat.not_le.mpr hshort, ne_eq, not_true_eq_false,
      if_false, Bool.not_true, Bool.false_eq_true]
    cases t.lookup parent leaf <;> rfl

/-- Another user finds `/t/f`, and its owner is the one who counts. -/
theorem walkers_agree_sample :
    let other := some ⟨1001, 1000⟩
    let file := [slash, 0x74] ++ slash :: [0x66]
    sampleTree.resolvePath file other = .ok 2 ∧
    sampleTree.unlinkPath file other (fun _ _ => true) = .error .denied := by
  have hdir : Leads sampleTree 0 (dirText [slash, 0x74]) [0] 1 := ⟨rfl, by decide, rfl⟩
  have hparent : sampleTree.resolveParent ([slash, 0x74] ++ slash :: [0x66]) (some ⟨1001, 1000⟩)
      = .ok (1, [0x66]) := by
    rw [resolveParent_leads rfl ⟨by decide, by decide, by decide, by decide, by decide⟩ hdir rfl,
      if_pos (by decide)]
  obtain ⟨hpath, -, hunlink⟩ := walkers_agree sampleTree (some ⟨1001, 1000⟩)
    ([slash, 0x74] ++ slash :: [0x66]) rfl (by decide) (by decide)
  exact ⟨(hpath 2).mpr ⟨1, [0x66], hparent, by decide, _, rfl, rfl⟩,
    (hunlink 1 [0x66] _ hparent (by decide)).trans rfl⟩

end Riverix.Vfs
