import Riverix.Lib.Store

/-!
# The root partition (`partition_register_rootfs`)

The header of the partition table is block 1; the entries are read one block at a time,
through a buffer that is filled when the scan comes to the next block. The first entry with
a type and the name `riverix-rootfs` becomes a block device whose requests are moved by the
start of the partition.

The scan looks at the blocks that `entry_lba` names modulo `2 ^ 32`: the field has 64 bits
and is narrowed before it is added to. For a table that lies beyond that, the code reads
another part of the disk. **`register_exact_iff`** says that this is the only way to be
wrong; what is registered is always confined to its partition.
-/

namespace Riverix.Block

open Riverix.Lib

/-! ## The model -/

/-- A disk as a `block_device_t`: what it holds, and which reads its driver answers. -/
structure Disk where
  blockSize : Nat
  blockCount : Nat
  fits : blockCount < 2 ^ 32
  readOnly : Bool
  writes : Bool
  answers : Nat → Nat → Bool
  bytes : Store

/-- The test of a request in `block_read`, and again in `partition_read`. -/
abbrev OutOfRange (blockCount index count : Nat) : Prop :=
  index ≥ blockCount ∨ count > blockCount - index

/-- `block_read` on a disk: the request that reaches the driver -/
def Disk.blockRead (d : Disk) (index count : Nat) : Option (Nat × Nat) :=
  if count = 0 then none else if OutOfRange d.blockCount index count then none
    else some (index, count)

/-- `block_write` on a disk -/
def Disk.blockWrite (d : Disk) (index count : Nat) : Option (Nat × Nat) :=
  if count = 0 ∨ d.readOnly = true ∨ d.writes = false then none
  else if OutOfRange d.blockCount index count then none else some (index, count)

/-- Block `index` of the disk. -/
def Disk.block (d : Disk) (index : Nat) : Store := fun k => d.bytes (512 * index + k)

/-- One block, if it can be read. -/
def Disk.readBlock (d : Disk) (index : Nat) : Option Store :=
  match d.blockRead index 1 with
  | none => none
  | some (index, count) => if d.answers index count then some (d.block index) else none

/-- `gpt_header_t`, the fields that are looked at. -/
structure Header where
  signature : Nat
  entryLba : Nat
  entryCount : Nat
  entrySize : Nat

def Header.ofBytes (block : Store) : Header where
  signature := leValue (block.read 0 8)
  entryLba := leValue (block.read 72 8)
  entryCount := leValue (block.read 80 4)
  entrySize := leValue (block.read 84 4)

/-- `gpt_partition_entry_t`, the fields that are looked at. -/
structure Entry where
  typeGuid : List Byte
  firstLba : Nat
  lastLba : Nat
  name : Nat → Nat

def Entry.ofBytes (block : Store) (offset : Nat) : Entry where
  typeGuid := block.read offset 16
  firstLba := leValue (block.read (offset + 32) 8)
  lastLba := leValue (block.read (offset + 40) 8)
  name i := leValue (block.read (offset + 56 + 2 * i) 2)

/-- `guid_is_zero` -/
def guidIsZero (guid : List Byte) : Bool := guid.all (· == 0)

/-- `gpt_entry_name_equals`, from a character on -/
def entryNameEquals (name : Nat → Nat) : Nat → List Byte → Bool
  | index, [] => decide (index < 36) && name index == 0
  | index, c :: cs =>
    if index ≥ 36 then false
    else if name index ≠ c.toNat then false
    else entryNameEquals name (index + 1) cs

/-- `"riverix-rootfs"` -/
def rootfsName : List Byte :=
  [0x72, 0x69, 0x76, 0x65, 0x72, 0x69, 0x78, 0x2D, 0x72, 0x6F, 0x6F, 0x74, 0x66, 0x73]

/-- The buffer with the block of the next entry: `current` is the block that is in it. -/
def fetch (d : Disk) (h : Header) (block current : Nat) (buffer : Store) : Option Store :=
  if block ≠ current then d.readBlock ((h.entryLba % 2 ^ 32 + block) % 2 ^ 32) else some buffer

/-- The loop over the entries, with `left` of them to go. -/
def scanEntries (d : Disk) (h : Header) : Nat → Nat → Nat → Store → Option Entry
  | 0, _, _, _ => none
  | left + 1, index, current, buffer =>
    let block := index / (512 / h.entrySize)
    match fetch d h block current buffer with
    | none => none
    | some buffer =>
      let entry := Entry.ofBytes buffer (index % (512 / h.entrySize) * h.entrySize)
      if guidIsZero entry.typeGuid then scanEntries d h left (index + 1) block buffer
      else if entryNameEquals entry.name 0 rootfsName = false then
        scanEntries d h left (index + 1) block buffer
      else if entry.lastLba < entry.firstLba ∨ entry.lastLba ≥ d.blockCount then none
      else some entry

/-- `partition_context_t` and the device on it. -/
structure Partition where
  startBlock : Nat
  blockCount : Nat
  readOnly : Bool
  deriving DecidableEq

/-- A slot of the device table: the one partition device, or another device. -/
inductive Slot
  | rootfs
  | other (name : List Byte)
  deriving DecidableEq

/-- `block_register` of the partition device, whose name and operations are set by then. The
slots in use come first; one that holds the device itself has its name. -/
def blockRegister (slots : List Slot) (name : List Byte) (blockCount : Nat) : Bool :=
  blockCount ≠ 0 && slots.length < 8 && slots.all fun s => s ≠ .rootfs && s ≠ .other name

/-- `partition_register_rootfs` -/
def partitionRegisterRootfs (d : Disk) (slots : List Slot) (name : List Byte) : Option Partition :=
  if d.blockSize ≠ 512 then none
  else
    match d.readBlock 1 with
    | none => none
    | some block =>
      let h := Header.ofBytes block
      if h.signature % 2 ^ 32 ≠ 0x20494645 ∨ h.signature / 2 ^ 32 ≠ 0x54524150 then none
      else if h.entrySize < 128 ∨ h.entrySize > 512 ∨ 512 % h.entrySize ≠ 0 then none
      else
        match scanEntries d h (min h.entryCount 128) 0 0xFFFFFFFF block with
        | none => none
        | some entry =>
          let count := (entry.lastLba - entry.firstLba + 1) % 2 ^ 32
          if blockRegister slots name count then some ⟨entry.firstLba % 2 ^ 32, count, d.readOnly⟩
          else none

namespace Partition

/-- `block_read` on the partition device, and `partition_read` behind it -/
def blockRead (p : Partition) (d : Disk) (index count : Nat) : Option (Nat × Nat) :=
  if count = 0 then none
  else if OutOfRange p.blockCount index count then none
  else if OutOfRange p.blockCount index count then none
  else d.blockRead ((p.startBlock + index) % 2 ^ 32) count

/-- `block_write` on the partition device, and `partition_write` behind it -/
def blockWrite (p : Partition) (d : Disk) (index count : Nat) : Option (Nat × Nat) :=
  if count = 0 ∨ p.readOnly = true then none
  else if OutOfRange p.blockCount index count then none
  else if OutOfRange p.blockCount index count then none
  else d.blockWrite ((p.startBlock + index) % 2 ^ 32) count

end Partition

/-! ## What a partition table says -/

/-- A block of the disk that can be read. -/
structure Readable (d : Disk) (index : Nat) : Prop where
  inside : index < d.blockCount
  answered : d.answers index 1 = true

/-- The header that is on the disk. -/
def Disk.header (d : Disk) : Header := Header.ofBytes (d.block 1)

/-- The block of entry `k`, counted from the first one. -/
def Header.entryBlock (h : Header) (k : Nat) : Nat := k / (512 / h.entrySize)

/-- Entry `k` of the array that starts at block `lba`. -/
def Disk.entry (d : Disk) (lba k : Nat) : Entry :=
  Entry.ofBytes (d.block (lba + d.header.entryBlock k))
    (k % (512 / d.header.entrySize) * d.header.entrySize)

/-- An entry in use with the name of the root partition, which ends in a zero. -/
structure IsRootfs (e : Entry) : Prop where
  type : ∃ b ∈ e.typeGuid, b ≠ 0
  name : ∀ i < 14, e.name i = (rootfsName.getD i 0).toNat
  ends : e.name 14 = 0

/-- Entry `k` is the first one of the root partition, among those that are looked at. -/
structure FirstRootfs (d : Disk) (lba k : Nat) : Prop where
  scanned : k < min d.header.entryCount 128
  rootfs : IsRootfs (d.entry lba k)
  first : ∀ j < k, ¬IsRootfs (d.entry lba j)

/-- The table whose entries start at block `lba` describes a root partition: its header is
in order, the first entry for it is within the disk, and the blocks up to it can be read. -/
structure Describes (d : Disk) (lba : Nat) : Prop where
  blocks : d.blockSize = 512
  header : Readable d 1
  signature : d.header.signature % 2 ^ 32 = 0x20494645 ∧ d.header.signature / 2 ^ 32 = 0x54524150
  entrySize : 128 ≤ d.header.entrySize ∧ d.header.entrySize ≤ 512 ∧ 512 % d.header.entrySize = 0
  entry : ∃ k, FirstRootfs d lba k ∧ (∀ j ≤ k, Readable d (lba + d.header.entryBlock j)) ∧
    (d.entry lba k).firstLba ≤ (d.entry lba k).lastLba ∧ (d.entry lba k).lastLba < d.blockCount

/-- There is a slot for the device, and none with its name. -/
structure RoomFor (slots : List Slot) (name : List Byte) : Prop where
  free : slots.length < 8
  unregistered : Slot.rootfs ∉ slots
  new : Slot.other name ∉ slots

/-! ## The scan -/

section Scan

variable {d : Disk} {h : Header} {index : Nat} {e : Entry}

theorem readBlock_readable (hr : Readable d index) : d.readBlock index = some (d.block index) := by
  have hin := hr.inside
  unfold Disk.readBlock Disk.blockRead
  rw [if_neg (by decide), if_neg (by omega)]
  exact if_pos hr.answered

theorem readBlock_unreadable (hr : ¬Readable d index) : d.readBlock index = none := by
  unfold Disk.readBlock Disk.blockRead
  rw [if_neg (by decide)]
  by_cases hout : OutOfRange d.blockCount index 1
  · rw [if_pos hout]
  · rw [if_neg hout]
    exact if_neg fun ha => hr ⟨by omega, ha⟩

theorem entryNameEquals_iff (name : Nat → Nat) (cs : List Byte) (index : Nat) :
    entryNameEquals name index cs = true ↔ index + cs.length < 36 ∧
      (∀ i < cs.length, name (index + i) = (cs.getD i 0).toNat) ∧ name (index + cs.length) = 0 := by
  induction cs generalizing index with
  | nil => simp [entryNameEquals]
  | cons c cs ih =>
    rw [entryNameEquals, List.length_cons]
    by_cases hend : index ≥ 36
    · rw [if_pos hend]
      exact ⟨by simp, fun hl => by omega⟩
    rw [if_neg hend]
    by_cases hc : name index = c.toNat
    · rw [if_neg (not_not.mpr hc), ih, Nat.add_right_comm, Nat.add_assoc index cs.length 1]
      refine and_congr_right fun _ => and_congr_left fun _ => ⟨fun hs i hi => ?_, fun hs i hi => ?_⟩
      · cases i with
        | zero => exact hc
        | succ i =>
          rw [List.getD_cons_succ, ← Nat.add_assoc, Nat.add_right_comm]
          exact hs i (by omega)
      · rw [Nat.add_right_comm, Nat.add_assoc]
        exact hs (i + 1) (by omega)
    · rw [if_pos hc]
      refine ⟨by simp, fun hs => absurd (hs.2.1 0 (by omega)) ?_⟩
      exact hc

theorem isRootfs_iff (e : Entry) :
    IsRootfs e ↔ guidIsZero e.typeGuid = false ∧ entryNameEquals e.name 0 rootfsName = true := by
  have hguid : guidIsZero e.typeGuid = false ↔ ∃ b ∈ e.typeGuid, b ≠ 0 := by
    simp [guidIsZero]
  rw [hguid, entryNameEquals_iff]
  constructor
  · intro hr
    exact ⟨hr.type, by decide, fun i hi => by rw [Nat.zero_add]; exact hr.name i hi, hr.ends⟩
  · rintro ⟨ht, -, hn, he⟩
    exact ⟨ht, fun i hi => by rw [← hn i hi, Nat.zero_add], he⟩

/-- The block that the code reads for entry `k`. -/
def Header.readFrom (h : Header) (k : Nat) : Nat := (h.entryLba % 2 ^ 32 + h.entryBlock k) % 2 ^ 32

/-- The entry that the code looks at. -/
def seen (d : Disk) (h : Header) (k : Nat) : Entry :=
  Entry.ofBytes (d.block (h.readFrom k)) (k % (512 / h.entrySize) * h.entrySize)

/-- What is in the buffer. -/
def Cached (d : Disk) (h : Header) (current : Nat) (buffer : Store) : Prop :=
  current = 0xFFFFFFFF ∨ Readable d ((h.entryLba % 2 ^ 32 + current) % 2 ^ 32) ∧
    buffer = d.block ((h.entryLba % 2 ^ 32 + current) % 2 ^ 32)

/-- The loop finds the first entry of the root partition, if it can read as far as that. -/
theorem scanEntries_eq_some : ∀ left index current buffer, Cached d h current buffer →
    index + left ≤ 128 → (scanEntries d h left index current buffer = some e ↔
      ∃ k, index ≤ k ∧ k < index + left ∧ (∀ j, index ≤ j → j ≤ k → Readable d (h.readFrom j)) ∧
        (∀ j, index ≤ j → j < k → ¬IsRootfs (seen d h j)) ∧ IsRootfs (seen d h k) ∧
        (seen d h k).firstLba ≤ (seen d h k).lastLba ∧ (seen d h k).lastLba < d.blockCount ∧
        e = seen d h k) := by
  intro left
  induction left with
  | zero =>
    intro index current buffer _ _
    exact ⟨fun hf => absurd hf (by simp [scanEntries]), fun ⟨k, hk, hk', _⟩ => by omega⟩
  | succ left ih =>
    intro index current buffer hcached hle
    have hblock : h.entryBlock index < 0xFFFFFFFF :=
      Nat.lt_of_le_of_lt (Nat.div_le_self _ _) (by omega)
    rw [scanEntries]
    by_cases hr : Readable d (h.readFrom index)
    · have hfetch : fetch d h (index / (512 / h.entrySize)) current buffer
          = some (d.block (h.readFrom index)) := by
        unfold fetch
        split
        · exact readBlock_readable hr
        next hsame =>
        rw [not_not] at hsame
        rcases hcached with hnone | ⟨-, hbuf⟩
        · rw [← hsame] at hnone
          exact absurd hnone (Nat.ne_of_lt hblock)
        · rw [hbuf, ← hsame]
          rfl
      rw [hfetch]
      dsimp only
      rw [show Entry.ofBytes (d.block (h.readFrom index))
        (index % (512 / h.entrySize) * h.entrySize) = seen d h index from rfl]
      by_cases hroot : IsRootfs (seen d h index)
      · obtain ⟨hguid, hname⟩ := (isRootfs_iff _).mp hroot
        rw [if_neg (by rw [hguid]; simp), if_neg (by rw [hname]; simp)]
        split
        next hbad =>
          refine ⟨by simp, fun ⟨k, hk, _, _, hno, _, hb, hb', _⟩ => ?_⟩
          obtain rfl : k = index := by
            by_contra hne
            exact hno index (Nat.le_refl _) (by omega) hroot
          omega
        next hok =>
        rw [Option.some.injEq]
        constructor
        · rintro rfl
          refine ⟨index,
            Nat.le_refl _, by omega, fun j hj hj' => ?_, fun j hj hj' => by omega, hroot,
            by omega, by omega, rfl⟩
          obtain rfl : j = index := by omega
          exact hr
        · rintro ⟨k, hk, _, _, hno, _, _, _, he⟩
          obtain rfl : k = index := by
            by_contra hne
            exact hno index (Nat.le_refl _) (by omega) hroot
          exact he.symm
      have hgo : (if guidIsZero (seen d h index).typeGuid = true
          then scanEntries d h left (index + 1) (index / (512 / h.entrySize))
            (d.block (h.readFrom index))
          else if entryNameEquals (seen d h index).name 0 rootfsName = false
            then scanEntries d h left (index + 1) (index / (512 / h.entrySize))
              (d.block (h.readFrom index))
            else if (seen d h index).lastLba < (seen d h index).firstLba
                ∨ (seen d h index).lastLba ≥ d.blockCount then none else some (seen d h index))
          = scanEntries d h left (index + 1) (index / (512 / h.entrySize))
            (d.block (h.readFrom index)) := by
        split
        · rfl
        next hguid =>
          rw [if_pos]
          by_contra hname
          exact hroot ((isRootfs_iff _).mpr ⟨by simpa using hguid, by simpa using hname⟩)
      rw [hgo, ih (index + 1) (index / (512 / h.entrySize)) (d.block (h.readFrom index))
        (Or.inr ⟨hr, rfl⟩) (by omega)]
      constructor
      · rintro ⟨k, hk, hk', hread, hno, hrest⟩
        refine ⟨k, by omega, by omega, fun j hj hjk => ?_, fun j hj hjk => ?_, hrest⟩
        · by_cases hji : j = index
          · rw [hji]
            exact hr
          · exact hread j (by omega) hjk
        · by_cases hji : j = index
          · rw [hji]
            exact hroot
          · exact hno j (by omega) hjk
      · rintro ⟨k, hk, hk', hread, hno, hk'', hrest⟩
        have hne : k ≠ index := by
          rintro rfl
          exact hroot hk''
        exact ⟨k, by omega, by omega, fun j hj hjk => hread j (by omega) hjk,
          fun j hj hjk => hno j (by omega) hjk, hk'', hrest⟩
    have hfetch : fetch d h (index / (512 / h.entrySize)) current buffer = none := by
      unfold fetch
      split
      · exact readBlock_unreadable hr
      next hsame =>
      rw [not_not] at hsame
      rcases hcached with hnone | ⟨hread, -⟩
      · rw [← hsame] at hnone
        exact absurd hnone (Nat.ne_of_lt hblock)
      · rw [← hsame] at hread
        exact absurd hread hr
    rw [hfetch]
    exact ⟨by simp,
      fun ⟨k, hk, _, hread, _⟩ => absurd (hread index (Nat.le_refl _) hk) hr⟩

end Scan

/-! ## The narrowed address -/

section Narrowed

variable {d : Disk} {k : Nat} {e : Entry} {slots : List Slot} {name : List Byte} {p : Partition}

/-- Where the code looks for the entries. -/
def Disk.narrowLba (d : Disk) : Nat := d.header.entryLba % 2 ^ 32

theorem readFrom_narrow (j : Nat) :
    d.header.readFrom j = (d.narrowLba + d.header.entryBlock j) % 2 ^ 32 := by
  unfold Disk.narrowLba Header.readFrom
  rfl

theorem narrowLba_lt : d.narrowLba < 2 ^ 32 := Nat.mod_lt _ (by decide)

/-- The sum does not wrap as long as every block on the way can be read: block `2 ^ 32 - 1`
cannot. -/
theorem readFrom_eq (hsize : 128 ≤ d.header.entrySize ∧ d.header.entrySize ≤ 512)
    (hread : ∀ j ≤ k, Readable d (d.header.readFrom j)) (j : Nat) (hj : j ≤ k) :
    d.header.readFrom j = d.narrowLba + d.header.entryBlock j := by
  have hpos : 0 < 512 / d.header.entrySize := Nat.div_pos hsize.2 (by omega)
  have hfits := d.fits
  have hinside : ∀ b ≤ d.header.entryBlock k, d.narrowLba + b < d.blockCount := by
    intro b
    induction b with
    | zero =>
      intro _
      have h0 := (hread 0 (Nat.zero_le _)).inside
      rw [readFrom_narrow, Header.entryBlock, Nat.zero_div, Nat.add_zero,
        Nat.mod_eq_of_lt narrowLba_lt] at h0
      rw [Nat.add_zero]
      exact h0
    | succ b ih =>
      intro hb
      have hnext := (hread _ ((Nat.le_div_iff_mul_le hpos).mp hb)).inside
      rw [readFrom_narrow, Header.entryBlock, Nat.mul_div_cancel _ hpos,
        Nat.mod_eq_of_lt (by omega)] at hnext
      exact hnext
  have hlt := hinside (d.header.entryBlock j) (Nat.div_le_div_right hj)
  rw [readFrom_narrow]
  exact Nat.mod_eq_of_lt (by omega)

theorem readFrom_of_readable {j : Nat} (hread : Readable d (d.narrowLba + d.header.entryBlock j)) :
    d.header.readFrom j = d.narrowLba + d.header.entryBlock j := by
  have hin := hread.inside
  have hfits := d.fits
  rw [readFrom_narrow]
  exact Nat.mod_eq_of_lt (by omega)

theorem seen_eq {j : Nat} (h : d.header.readFrom j = d.narrowLba + d.header.entryBlock j) :
    seen d d.header j = d.entry d.narrowLba j := by
  unfold seen Disk.entry
  rw [h]

/-- What the loop returns, in terms of the table. -/
theorem scan_eq_some (hsize : 128 ≤ d.header.entrySize ∧ d.header.entrySize ≤ 512) :
    scanEntries d d.header (min d.header.entryCount 128) 0 0xFFFFFFFF (d.block 1) = some e ↔
      ∃ k, FirstRootfs d d.narrowLba k ∧
        (∀ j ≤ k, Readable d (d.narrowLba + d.header.entryBlock j)) ∧
        (d.entry d.narrowLba k).firstLba ≤ (d.entry d.narrowLba k).lastLba ∧
        (d.entry d.narrowLba k).lastLba < d.blockCount ∧ e = d.entry d.narrowLba k := by
  rw [scanEntries_eq_some _ _ _ _ (Or.inl rfl) (by omega), Nat.zero_add]
  constructor
  · rintro ⟨k, -, hk, hread, hno, hroot, hb, hb', he⟩
    have hfrom := readFrom_eq hsize fun j hj => hread j (Nat.zero_le _) hj
    rw [seen_eq (hfrom k (Nat.le_refl _))] at hroot hb hb' he
    refine ⟨k, ⟨hk, hroot, fun j hj => ?_⟩, fun j hj => ?_, hb, hb', he⟩
    · rw [← seen_eq (hfrom j (Nat.le_of_lt hj))]
      exact hno j (Nat.zero_le _) hj
    · rw [← hfrom j hj]
      exact hread j (Nat.zero_le _) hj
  · rintro ⟨k, hfirst, hread, hb, hb', he⟩
    have hfrom := fun j hj => readFrom_of_readable (hread j hj)
    rw [← seen_eq (hfrom k (Nat.le_refl _))] at hb hb' he
    refine ⟨k, Nat.zero_le _, hfirst.scanned, fun j _ hj => ?_, fun j _ hj => ?_, ?_, hb, hb', he⟩
    · rw [hfrom j hj]
      exact hread j hj
    · rw [seen_eq (hfrom j (Nat.le_of_lt hj))]
      exact hfirst.first j hj
    · rw [seen_eq (hfrom k (Nat.le_refl _))]
      exact hfirst.rootfs

theorem blockRegister_iff {count : Nat} (hc : count ≠ 0) :
    blockRegister slots name count = true ↔ RoomFor slots name := by
  unfold blockRegister
  simp only [Bool.and_eq_true, decide_eq_true_eq, List.all_eq_true]
  constructor
  · rintro ⟨⟨-, hlen⟩, hall⟩
    exact ⟨hlen, fun hm => (hall _ hm).1 rfl, fun hm => (hall _ hm).2 rfl⟩
  · intro hr
    refine ⟨⟨hc, hr.free⟩, fun s hs => ⟨?_, ?_⟩⟩
    · rintro rfl
      exact hr.unregistered hs
    · rintro rfl
      exact hr.new hs

/-- The partition that entry `e` describes. -/
def Entry.partition (e : Entry) (d : Disk) : Partition :=
  ⟨e.firstLba, e.lastLba - e.firstLba + 1, d.readOnly⟩

theorem FirstRootfs.unique {lba k k' : Nat} (h : FirstRootfs d lba k) (h' : FirstRootfs d lba k') :
    k = k' := by
  rcases Nat.lt_trichotomy k k' with hlt | heq | hgt
  · exact absurd h.rootfs (h'.first k hlt)
  · exact heq
  · exact absurd h'.rootfs (h.first k' hgt)

/-- Within the disk nothing of the entry is lost in the 32 bits of the device. -/
theorem partition_narrow (hle : e.firstLba ≤ e.lastLba) (hlt : e.lastLba < d.blockCount) :
    (⟨e.firstLba % 2 ^ 32, (e.lastLba - e.firstLba + 1) % 2 ^ 32, d.readOnly⟩ : Partition)
      = e.partition d := by
  have hfits := d.fits
  rw [Entry.partition, Nat.mod_eq_of_lt (by omega), Nat.mod_eq_of_lt (by omega)]

/-- What is registered, in terms of the table at the narrowed address. -/
theorem partitionRegisterRootfs_eq_some : partitionRegisterRootfs d slots name = some p ↔
    Describes d d.narrowLba ∧ RoomFor slots name ∧
      ∀ k, FirstRootfs d d.narrowLba k → p = (d.entry d.narrowLba k).partition d := by
  unfold partitionRegisterRootfs
  constructor
  · intro h
    split at h
    · cases h
    next hb =>
    by_cases hr : Readable d 1
    · rw [readBlock_readable hr] at h
      dsimp only at h
      split at h
      · cases h
      next hs =>
      split at h
      · cases h
      next hz =>
      split at h
      · cases h
      next e he =>
      have hz' : 128 ≤ d.header.entrySize ∧ d.header.entrySize ≤ 512 ∧
          512 % d.header.entrySize = 0 := by
        change ¬(d.header.entrySize < 128 ∨ d.header.entrySize > 512 ∨
          512 % d.header.entrySize ≠ 0) at hz
        omega
      obtain ⟨k, hfirst, hread, hle, hlt, rfl⟩ := (scan_eq_some ⟨hz'.1, hz'.2.1⟩).mp he
      have hfits := d.fits
      rw [partition_narrow hle hlt, Nat.mod_eq_of_lt (by omega)] at h
      split at h
      next hreg =>
        obtain rfl := Option.some.inj h
        refine ⟨⟨not_not.mp hb, hr, ?_, hz', k, hfirst, hread, hle, hlt⟩,
          (blockRegister_iff (by omega)).mp hreg, fun k' hk' => by rw [hfirst.unique hk']⟩
        exact ⟨not_not.mp fun hn => hs (Or.inl hn), not_not.mp fun hn => hs (Or.inr hn)⟩
      · cases h
    · rw [readBlock_unreadable hr] at h
      cases h
  · rintro ⟨hd, hroom, hp⟩
    obtain ⟨k, hfirst, hread, hle, hlt⟩ := hd.entry
    have hfits := d.fits
    rw [if_neg (not_not.mpr hd.blocks), readBlock_readable hd.header]
    change (if d.header.signature % 2 ^ 32 ≠ 0x20494645 ∨ d.header.signature / 2 ^ 32 ≠ 0x54524150
      then none else if d.header.entrySize < 128 ∨ d.header.entrySize > 512 ∨
        512 % d.header.entrySize ≠ 0 then none
      else match scanEntries d d.header (min d.header.entryCount 128) 0 0xFFFFFFFF (d.block 1) with
        | none => none
        | some entry => _) = _
    have hscan := (scan_eq_some ⟨hd.entrySize.1, hd.entrySize.2.1⟩).mpr
      ⟨k, hfirst, hread, hle, hlt, rfl⟩
    rw [if_neg (by rw [hd.signature.1, hd.signature.2]; decide),
      if_neg (by have := hd.entrySize; omega), hscan]
    dsimp only
    rw [partition_narrow hle hlt, Nat.mod_eq_of_lt (by omega),
      if_pos ((blockRegister_iff (by omega)).mpr hroom), hp k hfirst]

end Narrowed

/-! ## The result -/

section Result

variable {d : Disk} {e : Entry}

/-- Every request that `p` passes on lies within the blocks of `e`. -/
def Confined (p : Partition) (d : Disk) (e : Entry) : Prop :=
  ∀ index count request, p.blockRead d index count = some request ∨
    p.blockWrite d index count = some request →
    request = (e.firstLba + index, count) ∧ 0 < count ∧
      e.firstLba + index + count ≤ e.lastLba + 1

theorem partition_confined (hle : e.firstLba ≤ e.lastLba) (hlt : e.lastLba < d.blockCount) :
    Confined (e.partition d) d e := by
  have hfits := d.fits
  intro index count request h
  have hpass : count ≠ 0 ∧ ¬OutOfRange (e.lastLba - e.firstLba + 1) index count ∧
      request = ((e.firstLba + index) % 2 ^ 32, count) := by
    rcases h with h | h
    · unfold Partition.blockRead Disk.blockRead at h
      split at h
      · cases h
      next hc =>
      split at h
      · cases h
      next hin =>
      split at h
      · cases h
      · exact ⟨hc, hin, (Option.some.inj h).symm⟩
    unfold Partition.blockWrite Disk.blockWrite at h
    split at h
    · cases h
    next hc =>
    split at h
    · cases h
    next hin =>
    split at h
    · cases h
    split at h
    · cases h
    · exact ⟨fun hz => hc (Or.inl hz), hin, (Option.some.inj h).symm⟩
  obtain ⟨hc, hin, rfl⟩ := hpass
  have hend : e.firstLba + index + count ≤ e.lastLba + 1 := by
    unfold OutOfRange at hin
    omega
  rw [Nat.mod_eq_of_lt (by omega)]
  exact ⟨rfl, Nat.pos_of_ne_zero hc, hend⟩

/-- The device is registered exactly if the table that the header points at describes the
root partition, and it stays within the blocks that the table gives it. -/
def RegistersExactly (d : Disk) (slots : List Slot) (name : List Byte) : Prop :=
  ((partitionRegisterRootfs d slots name).isSome = true ↔
    Describes d d.header.entryLba ∧ RoomFor slots name) ∧
  ∀ p, partitionRegisterRootfs d slots name = some p →
    ∀ k, FirstRootfs d d.header.entryLba k → Confined p d (d.entry d.header.entryLba k)

/-- **The table has to start below block `2 ^ 32`, or there must be nothing that looks like
one at the block that is read in its place.** -/
theorem register_exact_iff (d : Disk) (slots : List Slot) (name : List Byte) :
    RegistersExactly d slots name ↔ d.header.entryLba < 2 ^ 32 ∨
      ¬(Describes d d.narrowLba ∧ RoomFor slots name) := by
  have hsome : (partitionRegisterRootfs d slots name).isSome = true ↔
      Describes d d.narrowLba ∧ RoomFor slots name := by
    rw [Option.isSome_iff_exists]
    constructor
    · rintro ⟨p, hp⟩
      obtain ⟨hd, hroom, -⟩ := partitionRegisterRootfs_eq_some.mp hp
      exact ⟨hd, hroom⟩
    · rintro ⟨hd, hroom⟩
      obtain ⟨k, hfirst, -⟩ := hd.entry
      refine ⟨(d.entry d.narrowLba k).partition d, partitionRegisterRootfs_eq_some.mpr
        ⟨hd, hroom, fun k' hk' => ?_⟩⟩
      rw [hfirst.unique hk']
  constructor
  · intro h
    by_cases hlba : d.header.entryLba < 2 ^ 32
    · exact Or.inl hlba
    · refine Or.inr fun hn => ?_
      -- the table itself is beyond the disk
      obtain ⟨k, -, hread, -⟩ := (h.1.mp (hsome.mpr hn)).1.entry
      have hin := (hread 0 (Nat.zero_le _)).inside
      have hfits := d.fits
      omega
  · rintro (hlba | hnone)
    · have hsame : d.narrowLba = d.header.entryLba := Nat.mod_eq_of_lt hlba
      rw [hsame] at hsome
      refine ⟨hsome, fun p hp k hk => ?_⟩
      obtain ⟨hd, -, hpart⟩ := partitionRegisterRootfs_eq_some.mp hp
      rw [hsame] at hd hpart
      obtain ⟨k', hfirst, -, hle, hlt⟩ := hd.entry
      rw [hpart k hk]
      obtain rfl := hfirst.unique hk
      exact partition_confined hle hlt
    · have hno := mt hsome.mp hnone
      refine ⟨⟨fun h => absurd h hno, fun ⟨hd, hroom⟩ => ?_⟩, fun p hp => ?_⟩
      · obtain ⟨k, -, hread, -⟩ := hd.entry
        have hin := (hread 0 (Nat.zero_le _)).inside
        have hfits := d.fits
        have hsame : d.narrowLba = d.header.entryLba := Nat.mod_eq_of_lt (by omega)
        exact absurd ⟨hsame ▸ hd, hroom⟩ hnone
      · rw [hp] at hno
        exact absurd rfl hno

/-- A disk of eight blocks with a table at block 2, whose header says `0x1_0000_0002`. -/
def farTable : Disk where
  blockSize := 512
  blockCount := 8
  fits := by decide
  readOnly := false
  writes := true
  answers _ _ := true
  bytes k :=
    if k < 512 then 0
    else if k < 520 then [0x45, 0x46, 0x49, 0x20, 0x50, 0x41, 0x52, 0x54].getD (k - 512) 0
    else if k = 584 then 2
    else if k = 588 then 1
    else if k = 592 then 1
    else if k = 596 then 128
    else if k = 1024 then 1
    else if k = 1056 then 4
    else if k = 1064 then 5
    else if k < 1080 then 0
    else if k % 2 = 0 then rootfsName.getD ((k - 1080) / 2) 0
    else 0

/-- The entry at block 2 is taken, though the header does not point at it. -/
theorem register_reads_elsewhere :
    farTable.header.entryLba = 0x100000002 ∧ ¬Describes farTable farTable.header.entryLba ∧
      partitionRegisterRootfs farTable [] [0x78] = some ⟨4, 2, false⟩ := by
  have hlba : farTable.header.entryLba = 0x100000002 := by decide +kernel
  refine ⟨hlba, fun hd => ?_, by decide +kernel⟩
  obtain ⟨k, -, hread, -⟩ := hd.entry
  have hin : farTable.header.entryLba + farTable.header.entryBlock 0 < 8 :=
    (hread 0 (Nat.zero_le _)).inside
  omega

end Result

end Riverix.Block
