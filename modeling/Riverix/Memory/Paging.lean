import Riverix.Lib.Store
import Riverix.Lib.Word
import Riverix.Memory.Palloc

/-!
# Two-level page tables (`paging.c`)

A machine is its physical memory, the page allocator and the kernel page
directory. Directories and tables are ordinary frames: an entry is a 32-bit
word of physical memory, and the kernel reaches every frame through the direct
map, so a physical address is used here as the pointer `paging_phys_to_virt`
makes of it. TLB invalidation has no effect on the model.

The functions follow the source one by one. Below them are the lemmas that the
rest of the development uses in their place: how an entry is read back after a
store to a frame, and what each operation does to the entries of a directory.
-/

namespace Riverix.Memory

open Riverix.Lib

/-- `PAGE_PRESENT` -/
abbrev pagePresent : Nat := 0x001

/-- `PAGE_WRITABLE` -/
abbrev pageWritable : Nat := 0x002

/-- `PAGE_USER` -/
abbrev pageUser : Nat := 0x004

/-- `PAGE_COPY_ON_WRITE` -/
abbrev pageCopyOnWrite : Nat := 0x200

/-- `PAGE_FLAGS` -/
abbrev pageFlags : Nat := pagePresent ||| pageWritable

/-- `PAGE_FRAME_MASK` -/
abbrev pageFrameMask : Nat := 0xFFFFF000

/-- `~PAGE_FRAME_MASK`, the bits of an entry that are flags. -/
abbrev pageFlagMask : Nat := 0xFFF

/-- `RECURSIVE_DIRECTORY_INDEX` -/
abbrev recursiveDirectoryIndex : Nat := 1023

/-- `DIRECT_MAP_DIRECTORY_INDEX` -/
abbrev directMapDirectoryIndex : Nat := 768

/-- `KERNEL_SHARED_LOW_DIRECTORY_COUNT` -/
abbrev kernelSharedLowDirectoryCount : Nat := 1

/-- `USER_VIRT_BASE` -/
abbrev userVirtBase : Nat := 0x400000

/-- `USER_VIRT_LIMIT` -/
abbrev userVirtLimit : Nat := 0xC0000000

/-- The machine as the memory code sees it. -/
structure Machine where
  mem : Store
  palloc : Palloc
  kernelPageDirectoryPhys : Nat

/-- Entry `i` of the directory or table at a physical address. -/
def entry (mem : Store) (table i : Nat) : Nat := mem.load32 (table + 4 * i)

/-- Store entry `i` of a directory or table. -/
def setEntry (mem : Store) (table i value : Nat) : Store := mem.store32 (table + 4 * i) value

def zeroPage (mem : Store) (physicalAddress : Nat) : Store :=
  mem.write physicalAddress (List.replicate 4096 0)

def copyPageBytes (mem : Store) (destination source : Nat) : Store :=
  mem.write destination (mem.read source 4096)

def pageDirectoryIndex (virtualAddress : Nat) : Nat := virtualAddress >>> 22

def pageTableIndex (virtualAddress : Nat) : Nat := (virtualAddress >>> 12) &&& 0x3FF

/-- The physical address of the table a directory entry points to. -/
def tableFromEntry (e : Nat) : Nat := e &&& pageFrameMask

namespace Machine

/-- `paging_lookup_page_in`: the frame address and the flags of the leaf entry. -/
def lookupPageIn (m : Machine) (directoryPhys virtualAddress : Nat) : Option (Nat × Nat) :=
  if directoryPhys = 0 then none
  else
    let directoryEntry := entry m.mem directoryPhys (pageDirectoryIndex virtualAddress)
    if directoryEntry &&& pagePresent = 0 then none
    else
      let pageEntry := entry m.mem (tableFromEntry directoryEntry) (pageTableIndex virtualAddress)
      if pageEntry &&& pagePresent = 0 then none
      else some (pageEntry &&& pageFrameMask, pageEntry &&& pageFlagMask)

/-- `paging_resolve_physical_in`: the entries are read as `paging_lookup_page_in` reads
them. -/
def resolvePhysicalIn (m : Machine) (directoryPhys virtualAddress : Nat) : Nat :=
  match m.lookupPageIn directoryPhys virtualAddress with
  | none => 0
  | some (physicalPage, _) => physicalPage

/-- The directory-entry part of `paging_map_page_in`: allocate the table of a
missing entry, or open a present one to user mode where that is allowed. -/
def ensureTable (m : Machine) (directoryPhys directoryIndex flags : Nat) : Machine × Bool :=
  let directoryEntry := entry m.mem directoryPhys directoryIndex
  if directoryEntry &&& pagePresent = 0 then
    let (palloc, pageTablePhys) := m.palloc.allocPage
    if pageTablePhys = 0 then ({ m with palloc }, false)
    else
      let directoryFlags :=
        if flags &&& pageUser ≠ 0 then pageFlags ||| pageUser else pageFlags
      ({ m with
          palloc
          mem := setEntry (zeroPage m.mem pageTablePhys) directoryPhys directoryIndex
            (pageTablePhys ||| directoryFlags) }, true)
  else if flags &&& pageUser ≠ 0 ∧ directoryEntry &&& pageUser = 0 then
    if directoryIndex < kernelSharedLowDirectoryCount
        ∨ directoryIndex ≥ directMapDirectoryIndex then (m, false)
    else
      ({ m with mem := setEntry m.mem directoryPhys directoryIndex
                  (directoryEntry ||| pageUser) }, true)
  else (m, true)

/-- `paging_map_page_in` -/
def mapPageIn (m : Machine) (directoryPhys virtualAddress physicalAddress flags : Nat) :
    Machine × Bool :=
  if virtualAddress &&& 0xFFF ≠ 0 ∨ physicalAddress &&& 0xFFF ≠ 0 then (m, false)
  else if directoryPhys = 0 then (m, false)
  else
    let directoryIndex := pageDirectoryIndex virtualAddress
    match m.ensureTable directoryPhys directoryIndex flags with
    | (m, false) => (m, false)
    | (m, true) =>
      let pageTable := tableFromEntry (entry m.mem directoryPhys directoryIndex)
      ({ m with mem := setEntry m.mem pageTable (pageTableIndex virtualAddress)
                  (physicalAddress ||| (flags ||| pagePresent)) }, true)

/-- `paging_unmap_page_in` -/
def unmapPageIn (m : Machine) (directoryPhys virtualAddress : Nat) : Machine :=
  if directoryPhys = 0 ∨ virtualAddress &&& 0xFFF ≠ 0 then m
  else
    let directoryEntry := entry m.mem directoryPhys (pageDirectoryIndex virtualAddress)
    if directoryEntry &&& pagePresent = 0 then m
    else
      { m with mem :=
          setEntry m.mem (tableFromEntry directoryEntry) (pageTableIndex virtualAddress) 0 }

/-- `paging_unmap_pages_in` -/
def unmapPagesIn (m : Machine) (directoryPhys virtualAddress pageCount : Nat) : Machine :=
  (List.range pageCount).foldl
    (fun m index => m.unmapPageIn directoryPhys ((virtualAddress + index * 4096) % 2 ^ 32)) m

/-- The loop of `paging_map_pages_in`, at page `index`. -/
def mapPagesFrom (directoryPhys virtualAddress flags : Nat) :
    Nat → List Nat → Machine → Machine × Bool
  | _, [], m => (m, true)
  | index, physicalPage :: physicalPages, m =>
    match m.mapPageIn directoryPhys ((virtualAddress + index * 4096) % 2 ^ 32)
      physicalPage flags with
    | (m, false) => (m.unmapPagesIn directoryPhys virtualAddress index, false)
    | (m, true) => mapPagesFrom directoryPhys virtualAddress flags (index + 1) physicalPages m

/-- `paging_map_pages_in` -/
def mapPagesIn (m : Machine) (directoryPhys virtualAddress : Nat) (physicalPages : List Nat)
    (flags : Nat) : Machine × Bool :=
  mapPagesFrom directoryPhys virtualAddress flags 0 physicalPages m

/-- The directory entries every address space shares with the kernel. -/
def sharedDirectoryIndices : List Nat :=
  List.range kernelSharedLowDirectoryCount
    ++ List.range' directMapDirectoryIndex (recursiveDirectoryIndex - directMapDirectoryIndex)

/-- `paging_create_address_space`: 0 when no frame is free. -/
def createAddressSpace (m : Machine) : Machine × Nat :=
  let (palloc, directoryPhys) := m.palloc.allocPage
  if directoryPhys = 0 then ({ m with palloc }, 0)
  else
    let shared := sharedDirectoryIndices.foldl
      (fun mem index =>
        setEntry mem directoryPhys index (entry mem m.kernelPageDirectoryPhys index))
      (zeroPage m.mem directoryPhys)
    ({ m with
        palloc
        mem := setEntry shared directoryPhys recursiveDirectoryIndex
          (directoryPhys ||| pageFlags) }, directoryPhys)

/-- `paging_resolve_copy_on_write_in` -/
def resolveCopyOnWriteIn (m : Machine) (directoryPhys virtualAddress : Nat) : Machine × Bool :=
  let pageVirtual := virtualAddress &&& pageFrameMask
  match m.lookupPageIn directoryPhys pageVirtual with
  | none => (m, false)
  | some (physicalPage, flags) =>
    let wanted := pagePresent ||| pageUser ||| pageCopyOnWrite
    if flags &&& wanted ≠ wanted ∨ flags &&& pageWritable ≠ 0 then (m, false)
    else
      -- `~PAGE_COPY_ON_WRITE` of the source, on 32 bits
      let writableFlags := (flags ||| pageWritable) &&& 0xFFFFFDFF
      let refcount := m.palloc.pageRefcount physicalPage
      if refcount = 0 then (m, false)
      else if refcount = 1 then m.mapPageIn directoryPhys pageVirtual physicalPage writableFlags
      else
        let (palloc, newPage) := m.palloc.allocPage
        if newPage = 0 then ({ m with palloc }, false)
        else
          let m := { m with palloc, mem := copyPageBytes m.mem newPage physicalPage }
          match m.mapPageIn directoryPhys pageVirtual newPage writableFlags with
          | (m, false) => ({ m with palloc := m.palloc.freePage newPage }, false)
          | (m, true) => ({ m with palloc := m.palloc.freePage physicalPage }, true)

end Machine

/-! ## Entries and frames -/

section Entries

variable {mem : Store} {t t' i j : Nat}

theorem entry_lt (mem : Store) (t i : Nat) : entry mem t i < 2 ^ 32 := Store.load32_lt mem _

theorem entry_setEntry_same {v : Nat} (hv : v < 2 ^ 32) :
    entry (setEntry mem t i v) t i = v :=
  Store.load32_store32_same mem _ hv

/-- A store to one entry leaves every other entry of every table alone. -/
theorem entry_setEntry_ne {v : Nat} (ht : t % 4096 = 0) (ht' : t' % 4096 = 0) (hi : i < 1024)
    (hj : j < 1024) (h : t ≠ t' ∨ i ≠ j) :
    entry (setEntry mem t i v) t' j = entry mem t' j :=
  Store.load32_store32_disjoint (by omega)

/-- Stores inside one frame leave the entries of the others alone. -/
theorem entry_write_other {bs : List Byte} {a : Nat} (ht : t % 4096 = 0) (hj : j < 1024)
    (ha : a % 4096 + bs.length ≤ 4096) (hne : a / 4096 ≠ t / 4096) :
    entry (mem.write a bs) t j = entry mem t j :=
  Store.load32_write_disjoint (by omega)

theorem entry_zeroPage (hj : j < 1024) : entry (zeroPage mem t) t j = 0 :=
  Store.load32_zeros (by omega) (by omega)

theorem entry_zeroPage_other (ht : t % 4096 = 0) (ht' : t' % 4096 = 0) (hj : j < 1024)
    (hne : t ≠ t') : entry (zeroPage mem t) t' j = entry mem t' j :=
  entry_write_other ht' hj (by rw [List.length_replicate]; omega) (by omega)

theorem entry_copyPageBytes_other {s : Nat} (ht : t % 4096 = 0) (ht' : t' % 4096 = 0)
    (hj : j < 1024) (hne : t ≠ t') : entry (copyPageBytes mem t s) t' j = entry mem t' j :=
  entry_write_other ht' hj (by simp [ht]) (by omega)

/-- A store to an entry changes no byte of another frame. -/
theorem setEntry_byte_other {v a : Nat} (ht : t % 4096 = 0) (hi : i < 1024)
    (hne : a / 4096 ≠ t / 4096) : setEntry mem t i v a = mem a :=
  Store.write_outside (by rw [enc32_length]; omega)

/-- An entry is determined by the bytes of its frame. -/
theorem entry_congr_frame {mem' : Store} {f : Nat} (hj : j < 1024)
    (h : ∀ a, a / 4096 = f → mem' a = mem a) :
    entry mem' (f * 4096) j = entry mem (f * 4096) j :=
  Store.load32_congr fun k hk => h _ (by omega)

theorem zeroPage_byte_other {a : Nat} (ht : t % 4096 = 0) (hne : a / 4096 ≠ t / 4096) :
    zeroPage mem t a = mem a :=
  Store.write_outside (by rw [List.length_replicate]; omega)

end Entries

/-! ## Flags and frames of an entry -/

theorem frame_add_div {f k : Nat} (hk : k < 4096) : (f * 4096 + k) / 4096 = f := by omega

theorem frameMask_eq {e : Nat} (he : e < 2 ^ 32) : e &&& pageFrameMask = e / 4096 * 4096 :=
  and_high_mask (w := 32) (k := 12) he (by decide)

theorem flagMask_eq (e : Nat) : e &&& pageFlagMask = e % 4096 := and_low_mask e 12

theorem offsetMask_eq (a : Nat) : a &&& 0xFFF = a % 4096 := and_low_mask a 12

theorem pageTableIndex_eq (va : Nat) : pageTableIndex va = va / 4096 % 1024 := by
  unfold pageTableIndex
  rw [Nat.shiftRight_eq_div_pow]
  exact and_low_mask _ 10

theorem pageDirectoryIndex_eq (va : Nat) : pageDirectoryIndex va = va / 4194304 := by
  unfold pageDirectoryIndex
  rw [Nat.shiftRight_eq_div_pow]

/-- A flag test on an entry is one on its flag bits. -/
theorem and_flag_mod {f : Nat} (e : Nat) (hf : f < 4096) : e &&& f = e % 4096 &&& f :=
  and_flags (k := 12) e hf

/-- An entry made of a frame and flags. -/
theorem frame_or_flags {f : Nat} (q : Nat) (hf : f < 4096) : q * 4096 ||| f = q * 4096 + f :=
  or_flags (k := 12) q hf

end Riverix.Memory
