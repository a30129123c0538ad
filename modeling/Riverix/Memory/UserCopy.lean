import Riverix.Memory.CopyOnWrite

/-!
# Copies between the kernel and user memory (`usercopy.c`)

`user_copy_from_in` and `user_copy_to_in` walk the buffer page by page: look
the page up, check its flags, copy the chunk that lies in it. Both loops return,
next to their result, the list of accesses they made through a user-supplied
address; the kernel buffer on the other side is the list of bytes. The null
checks on that buffer have no counterpart here.
-/

namespace Riverix.Memory

open Riverix.Lib

/-- One access of a copy loop: `length` bytes at the user-supplied virtual
address `va`, made at the physical address `pa`. -/
structure Access where
  va : Nat
  pa : Nat
  length : Nat
  deriving DecidableEq, Repr

namespace Machine

/-- What `user_copy_from_in` returns: the bytes read, success, its accesses. -/
structure CopyFrom where
  data : List Byte
  ok : Bool
  touched : List Access

/-- The loop of `user_copy_from_in`. -/
def copyFromLoop (m : Machine) (directoryPhys sourceAddress length copied : Nat) : CopyFrom :=
  if copied < length then
    let virtualAddress := (sourceAddress + copied) % 2 ^ 32
    match m.lookupPageIn directoryPhys virtualAddress with
    | none => ⟨[], false, []⟩
    | some (physicalPage, flags) =>
      if flags &&& pageUser = 0 then ⟨[], false, []⟩
      else
        let pageOffset := virtualAddress % 4096
        let chunk := min (length - copied) (4096 - pageOffset)
        let rest := copyFromLoop m directoryPhys sourceAddress length (copied + chunk)
        ⟨m.mem.read (physicalPage + pageOffset) chunk ++ rest.data, rest.ok,
          ⟨virtualAddress, physicalPage + pageOffset, chunk⟩ :: rest.touched⟩
  else ⟨[], true, []⟩
  termination_by length - copied
  decreasing_by omega

/-- `user_copy_from_in` -/
def userCopyFromIn (m : Machine) (directoryPhys sourceAddress length : Nat) : CopyFrom :=
  m.copyFromLoop directoryPhys sourceAddress length 0

/-- The lookup of `user_copy_to_in`, which resolves copy-on-write on the way:
the physical page to write to, if there is one. -/
def writablePage (m : Machine) (directoryPhys virtualAddress : Nat) : Machine × Option Nat :=
  match m.lookupPageIn directoryPhys virtualAddress with
  | none => (m, none)
  | some (physicalPage, flags) =>
    if flags &&& pageUser = 0 then (m, none)
    else if flags &&& pageWritable = 0 then
      if flags &&& pageCopyOnWrite = 0 then (m, none)
      else
        match m.resolveCopyOnWriteIn directoryPhys virtualAddress with
        | (m, false) => (m, none)
        | (m, true) =>
          match m.lookupPageIn directoryPhys virtualAddress with
          | none => (m, none)
          | some (physicalPage, flags) =>
            if flags &&& (pageUser ||| pageWritable) ≠ (pageUser ||| pageWritable) then (m, none)
            else (m, some physicalPage)
    else (m, some physicalPage)

/-- What `user_copy_to_in` leaves: the machine, success, its accesses. -/
structure CopyTo where
  machine : Machine
  ok : Bool
  touched : List Access

/-- The loop of `user_copy_to_in`; `source` is what remains to be copied. -/
def copyToLoop (m : Machine) (directoryPhys destinationAddress copied : Nat)
    (source : List Byte) : CopyTo :=
  if 0 < source.length then
    let virtualAddress := (destinationAddress + copied) % 2 ^ 32
    match m.writablePage directoryPhys virtualAddress with
    | (m, none) => ⟨m, false, []⟩
    | (m, some physicalPage) =>
      let pageOffset := virtualAddress % 4096
      let chunk := min source.length (4096 - pageOffset)
      let m := { m with mem := m.mem.write (physicalPage + pageOffset) (source.take chunk) }
      let rest := copyToLoop m directoryPhys destinationAddress (copied + chunk)
        (source.drop chunk)
      ⟨rest.machine, rest.ok, ⟨virtualAddress, physicalPage + pageOffset, chunk⟩ :: rest.touched⟩
  else ⟨m, true, []⟩
  termination_by source.length
  decreasing_by
    rw [List.length_drop]
    omega

/-- `user_copy_to_in` -/
def userCopyToIn (m : Machine) (directoryPhys destinationAddress : Nat) (source : List Byte) :
    CopyTo :=
  m.copyToLoop directoryPhys destinationAddress 0 source

end Machine

/-! ## The page a copy writes to -/

section Writable

variable {owner : Nat → Role} {m m' : Machine} {ds : List Nat} {d va : Nat}

theorem SpaceOk.leaf_page (h : SpaceOk owner m ds) (hd : d ∈ ds) (hva : UserAddress va)
    (hp : leafEntry m.mem d va &&& pagePresent ≠ 0) :
    leafEntry m.mem d va &&& pageUser ≠ 0 ∧ owner (leafEntry m.mem d va / 4096) = .page :=
  (h.leaf_user hd hva).resolve_left hp

/-- The second lookup of `user_copy_to_in` finds the resolved entry. -/
theorem lookup_resolved {e f : Nat} (hd : d ≠ 0) (hu : e &&& pageUser ≠ 0)
    (hl : leafEntry m.mem d va = resolvedEntry e f) :
    m.lookupPageIn d va = some (f * 4096, resolvedEntry e f % 4096) ∧
      ¬ (resolvedEntry e f % 4096 &&& (pageUser ||| pageWritable)
        ≠ (pageUser ||| pageWritable)) := by
  constructor
  · rw [lookupPageIn_eq hd, hl, if_neg (resolvedEntry_present e f), resolvedEntry_div]
  · rw [not_not, and_or_eq_mask_iff, ← and_flag_mod _ (by decide : pageUser < 4096),
      ← and_flag_mod _ (by decide : pageWritable < 4096), show pageUser = 2 ^ 2 from rfl,
      show pageWritable = 2 ^ 1 from rfl, and_bit_eq_iff, and_bit_eq_iff]
    exact ⟨resolvedEntry_user f hu, resolvedEntry_writable e f⟩

end Writable

end Riverix.Memory
