import Riverix.Memory.Paging

/-!
# AHCI transfers (`ahci.c`)

`ahci_transfer` cuts a request into commands of at most `AHCI_MAX_TRANSFER_BYTES`, and
`ahci_build_prdt` lists the physical memory behind each command's part of the buffer, one entry
a page. The cut does not look at the buffer, and 128 entries hold that many bytes only if the
buffer begins at a page.

`Command.blocks` and `Command.bytes` are what a controller reads from its slot.
**`transfer_exact_iff`**: if it accepts every command, a request is carried out exactly if the
buffer is not null and the first command's part of it lies in 128 pages.
-/

namespace Riverix.Drivers

open Riverix.Lib Riverix.Memory

/-! ## The driver -/

/-- `ahci_prdt_entry_t` -/
structure PrdtEntry where
  dba : Nat
  dbau : Nat
  reserved : Nat
  dbcI : Nat

/-- What `ahci_issue_transfer` leaves in the slot: the header's `flags` and `prdtl`, and the
table. -/
structure Command where
  flags : Nat
  prdtl : Nat
  cfis : Nat → Nat
  prdt : List PrdtEntry

/-- The port: whether it gets idle, and whether it completes a command. -/
structure Port where
  idle : Bool
  completes : Command → Bool

/-- A device that accepts every command. -/
def Port.willing : Port := ⟨true, fun _ => true⟩

/-- `AHCI_MAX_PRDT_ENTRIES` -/
abbrev ahciMaxPrdtEntries : Nat := 128

/-- `AHCI_MAX_TRANSFER_BYTES` -/
abbrev ahciMaxTransferBytes : Nat := ahciMaxPrdtEntries * 4096

/-- The `block_size` of `ahci0_device`. -/
abbrev ahciBlockSize : Nat := 512

/-- The loop of `ahci_build_prdt`, with `slots` entries left; `directoryPhys` is the current
page directory. -/
def buildPrdt (m : Machine) (directoryPhys : Nat) : Nat → Nat → Nat → Option (List PrdtEntry)
  | 0, _, remaining => if remaining = 0 then some [] else none
  | slots + 1, cursor, remaining =>
    if remaining = 0 then some []
    else
      let physicalAddress := m.resolvePhysicalIn directoryPhys cursor
      let pageOffset := cursor % 4096
      if physicalAddress = 0 then none
      else
        let chunk := if 4096 - pageOffset > remaining then remaining else 4096 - pageOffset
        (buildPrdt m directoryPhys slots ((cursor + chunk) % 2 ^ 32) (remaining - chunk)).map
          (⟨(physicalAddress + pageOffset) % 2 ^ 32, 0, 0, chunk - 1⟩ :: ·)

/-- `ahci_build_fis` -/
def buildFis (command lba device sectorCount : Nat) : Nat → Nat
  | 0 => 0x27
  | 1 => 0x80
  | 2 => command
  | 4 => lba % 2 ^ 8
  | 5 => lba / 2 ^ 8 % 2 ^ 8
  | 6 => lba / 2 ^ 16 % 2 ^ 8
  | 7 => device
  | 8 => lba / 2 ^ 24 % 2 ^ 8
  | 9 => lba / 2 ^ 32 % 2 ^ 8
  | 10 => lba / 2 ^ 40 % 2 ^ 8
  | 12 => sectorCount % 2 ^ 8
  | 13 => sectorCount / 2 ^ 8 % 2 ^ 8
  | _ => 0

/-- `ahci_issue_transfer`: the command, if one is issued, and whether it completes. -/
def issueTransfer (m : Machine) (directoryPhys : Nat) (port : Port)
    (command lba device sectorCount buffer byteCount : Nat) (isWrite : Bool) :
    List Command × Bool :=
  if port.idle = false then ([], false)
  else
    match buildPrdt m directoryPhys ahciMaxPrdtEntries buffer byteCount with
    | none => ([], false)
    | some prdt =>
      let issued : Command := ⟨5 ||| if isWrite then 2 ^ 6 else 0, prdt.length % 2 ^ 16,
        buildFis command lba device sectorCount, prdt⟩
      ([issued], port.completes issued)

/-- The loop of `ahci_transfer`, and the commands it issues. -/
def transferLoop (m : Machine) (directoryPhys : Nat) (port : Port) (isWrite : Bool)
    (currentLba bytes remainingBlocks : Nat) : List Command × Bool :=
  if remainingBlocks = 0 then ([], true)
  else
    let maxBlocks := ahciMaxTransferBytes / ahciBlockSize
    let chunkBlocks := (if remainingBlocks > maxBlocks then maxBlocks else remainingBlocks) % 2 ^ 16
    let chunkBytes := chunkBlocks * ahciBlockSize
    match issueTransfer m directoryPhys port (if isWrite then 0x35 else 0x25) currentLba (2 ^ 6)
        chunkBlocks bytes chunkBytes isWrite with
    | (issued, false) => (issued, false)
    | (issued, true) =>
      let rest := transferLoop m directoryPhys port isWrite (currentLba + chunkBlocks)
        ((bytes + chunkBytes) % 2 ^ 32) (remainingBlocks - chunkBlocks)
      (issued ++ rest.1, rest.2)
termination_by remainingBlocks
decreasing_by
  rw [show ahciMaxTransferBytes / ahciBlockSize = 1024 from rfl]
  split <;> omega

/-- `ahci_transfer` -/
def ahciTransfer (m : Machine) (directoryPhys : Nat) (port : Port)
    (blockIndex blockCount buffer : Nat) (isWrite : Bool) : List Command × Bool :=
  if buffer = 0 then ([], false)
  else transferLoop m directoryPhys port isWrite blockIndex buffer blockCount

/-! ## What a controller reads -/

/-- The first block, from the six bytes of the FIS. -/
def Command.lba (c : Command) : Nat :=
  c.cfis 4 + c.cfis 5 * 2 ^ 8 + c.cfis 6 * 2 ^ 16 + c.cfis 8 * 2 ^ 24 + c.cfis 9 * 2 ^ 32
    + c.cfis 10 * 2 ^ 40

/-- A count of 0 stands for 65536 sectors. -/
def Command.sectors (c : Command) : Nat :=
  let count := c.cfis 12 + c.cfis 13 * 2 ^ 8
  if count = 0 then 65536 else count

def Command.blocks (c : Command) : List Nat := List.range' c.lba c.sectors

/-- An entry holds one byte less than its length, in 22 bits. -/
def PrdtEntry.bytes (e : PrdtEntry) : List Nat := List.range' e.dba (e.dbcI % 2 ^ 22 + 1)

def Command.bytes (c : Command) : List Nat := (c.prdt.take c.prdtl).flatMap PrdtEntry.bytes

/-- The physical bytes behind a part of the buffer. -/
def bufferBytes (m : Machine) (directoryPhys buffer count : Nat) : List Nat :=
  (List.range count).map fun k =>
    m.resolvePhysicalIn directoryPhys ((buffer + k) % 2 ^ 32) + (buffer + k) % 2 ^ 32 % 4096

/-- The request is carried out: every block once and in order, each command on its own part of
the buffer. -/
structure Exact (m : Machine) (directoryPhys blockIndex blockCount buffer : Nat)
    (r : List Command × Bool) : Prop where
  done : r.2 = true
  blocks : r.1.flatMap Command.blocks = List.range' blockIndex blockCount
  entries : ∀ c ∈ r.1, c.prdt.length ≤ ahciMaxPrdtEntries
  bytes : ∀ c ∈ r.1, c.bytes = bufferBytes m directoryPhys
    (buffer + ahciBlockSize * (c.lba - blockIndex)) (ahciBlockSize * c.sectors)

/-! ## One command -/

section

variable {m : Machine} {d cursor n lba bytes : Nat}

theorem resolvePhysicalIn_page {va va' : Nat} (h : va / 4096 = va' / 4096) :
    m.resolvePhysicalIn d va = m.resolvePhysicalIn d va' := by
  have htable : va >>> 12 = va' >>> 12 := by
    rw [Nat.shiftRight_eq_div_pow, Nat.shiftRight_eq_div_pow]
    exact h
  have hdirectory : va >>> 22 = va' >>> 22 := by
    rw [show 22 = 12 + 10 from rfl, Nat.shiftRight_add, Nat.shiftRight_add, htable]
  unfold Machine.resolvePhysicalIn Machine.lookupPageIn pageDirectoryIndex pageTableIndex
  rw [htable, hdirectory]

theorem resolvePhysicalIn_frame (m : Machine) (d va : Nat) :
    m.resolvePhysicalIn d va % 4096 = 0 ∧ m.resolvePhysicalIn d va < 2 ^ 32 := by
  have hmask : ∀ e : Nat, (e &&& pageFrameMask) % 4096 = 0 ∧ e &&& pageFrameMask < 2 ^ 32 := by
    intro e
    refine ⟨?_, Nat.lt_of_le_of_lt Nat.and_le_right (by decide)⟩
    rw [show 4096 = 2 ^ 12 from rfl, Nat.and_mod_two_pow]
    exact Nat.and_zero _
  unfold Machine.resolvePhysicalIn Machine.lookupPageIn
  dsimp only
  split
  · exact ⟨rfl, by decide⟩
  next h =>
    split_ifs at h
    rw [← (Prod.mk.inj (Option.some.inj h)).1]
    exact hmask _

theorem bufferBytes_add (a b : Nat) : bufferBytes m d cursor (a + b)
    = bufferBytes m d cursor a ++ bufferBytes m d ((cursor + a) % 2 ^ 32) b := by
  unfold bufferBytes
  rw [List.range_add, List.map_append, List.map_map]
  refine congrArg _ (List.map_congr_left fun k _ => ?_)
  rw [Function.comp_apply, show (cursor + (a + k)) % 2 ^ 32
    = ((cursor + a) % 2 ^ 32 + k) % 2 ^ 32 by
    omega]

/-- Inside a page the bytes follow each other. -/
theorem bufferBytes_page (hc : cursor < 2 ^ 32) (hn : cursor % 4096 + n ≤ 4096) :
    bufferBytes m d cursor n = List.range' (m.resolvePhysicalIn d cursor + cursor % 4096) n := by
  unfold bufferBytes
  rw [List.range'_eq_map_range]
  refine List.map_congr_left fun k hk => ?_
  have hk := List.mem_range.mp hk
  rw [show (cursor + k) % 2 ^ 32 = cursor + k by omega,
    resolvePhysicalIn_page (show (cursor + k) / 4096 = cursor / 4096 by omega)]
  omega

/-- With `slots` entries left, as many pages can be listed. -/
theorem buildPrdt_spec {slots : Nat} (hc : cursor < 2 ^ 32)
    (hmapped : ∀ k < n, m.resolvePhysicalIn d ((cursor + k) % 2 ^ 32) ≠ 0) :
    buildPrdt m d slots cursor n = none ∧ n ≠ 0 ∧ 4096 * slots < cursor % 4096 + n ∨
    ∃ prdt, buildPrdt m d slots cursor n = some prdt ∧
      (n = 0 ∨ cursor % 4096 + n ≤ 4096 * slots) ∧ prdt.length ≤ slots ∧
      prdt.flatMap PrdtEntry.bytes = bufferBytes m d cursor n := by
  induction slots generalizing cursor n with
  | zero =>
    rw [buildPrdt]
    by_cases h0 : n = 0
    · exact Or.inr ⟨[], if_pos h0, Or.inl h0, Nat.le_refl 0, by rw [h0]; rfl⟩
    · exact Or.inl ⟨if_neg h0, h0, by omega⟩
  | succ slots ih =>
    rw [buildPrdt]
    by_cases h0 : n = 0
    · exact Or.inr ⟨[], if_pos h0, Or.inl h0, Nat.zero_le _, by rw [h0]; rfl⟩
    have hpage := hmapped 0 (by omega)
    rw [Nat.add_zero, Nat.mod_eq_of_lt hc] at hpage
    rw [if_neg h0]
    dsimp only
    rw [if_neg hpage]
    -- the chunk is what is left of the buffer or of the page
    obtain ⟨chunk, hchunk, hpos, hle, hin, hlast⟩ : ∃ chunk,
        (if 4096 - cursor % 4096 > n then n else 4096 - cursor % 4096) = chunk ∧
          0 < chunk ∧ chunk ≤ n ∧
        cursor % 4096 + chunk ≤ 4096 ∧ (n = chunk ∨ cursor % 4096 + chunk = 4096) :=
      ⟨_, rfl, by split <;> omega⟩
    rw [hchunk]
    have hrest := @ih ((cursor + chunk) % 2 ^ 32) (n - chunk) (Nat.mod_lt _ (by decide))
      fun k hk => by
      rw [show ((cursor + chunk) % 2 ^ 32 + k) % 2 ^ 32 = (cursor + (chunk + k)) % 2 ^ 32 by omega]
      exact hmapped _ (by omega)
    rcases hrest with ⟨hnone, hmore, hover⟩ | ⟨prdt, hsome, hfits, hlen, hbytes⟩
    · exact Or.inl ⟨by rw [hnone]; rfl, h0, by omega⟩
    have hframe := resolvePhysicalIn_frame m d cursor
    rw [hsome]
    refine Or.inr ⟨_, rfl, by omega, Nat.succ_le_succ hlen, ?_⟩
    rw [List.flatMap_cons, hbytes, show n = chunk + (n - chunk) by omega, bufferBytes_add,
      bufferBytes_page hc hin, Nat.add_sub_cancel_left, PrdtEntry.bytes,
        Nat.mod_eq_of_lt (by omega),
      show (chunk - 1) % 2 ^ 22 + 1 = chunk by omega]

theorem Command.read (c : Command) {command device sectorCount : Nat}
    (hfis : c.cfis = buildFis command lba device sectorCount) (hlba : lba < 2 ^ 48)
    (hn : 0 < sectorCount ∧ sectorCount < 2 ^ 16) : c.lba = lba ∧ c.sectors = sectorCount := by
  unfold Command.lba Command.sectors
  simp only [hfis, buildFis]
  refine ⟨by omega, ?_⟩
  rw [if_neg (by omega)]
  omega

/-- A command is issued if its part of the buffer lies in 128 pages. -/
theorem issueTransfer_spec (hb : bytes < 2 ^ 32) (hlba : lba < 2 ^ 48) (hn : 0 < n ∧ n ≤ 1024)
    (hmapped : ∀ k < n * 512, m.resolvePhysicalIn d ((bytes + k) % 2 ^ 32) ≠ 0)
    (command device : Nat) (isWrite : Bool) {r : List Command × Bool}
    (hr : issueTransfer m d .willing command lba device n bytes (n * 512) isWrite = r) :
    r = ([], false) ∧ 524288 < bytes % 4096 + n * 512 ∨
    ∃ c, r = ([c], true) ∧ bytes % 4096 + n * 512 ≤ 524288 ∧ c.lba = lba ∧ c.sectors = n ∧
      c.prdt.length ≤ 128 ∧ c.bytes = bufferBytes m d bytes (n * 512) := by
  unfold issueTransfer at hr
  rw [if_neg (by simp [Port.willing])] at hr
  rcases @buildPrdt_spec m d bytes (n * 512) 128 hb hmapped with
    ⟨hnone, -, hover⟩ | ⟨prdt, hsome, hfits, hlen, hbytes⟩
  · rw [hnone] at hr
    exact Or.inl ⟨hr.symm, hover⟩
  rw [hsome] at hr
  obtain ⟨hl, hs⟩ := Command.read ⟨5 ||| if isWrite then 2 ^ 6 else 0, prdt.length % 2 ^ 16,
    buildFis command lba device n, prdt⟩ rfl hlba ⟨hn.1, by omega⟩
  refine Or.inr ⟨_, hr.symm, by omega, hl, hs, hlen, ?_⟩
  unfold Command.bytes
  rw [Nat.mod_eq_of_lt (by omega), List.take_length, hbytes]

/-! ## The request -/

theorem Command.lba_mem (c : Command) : c.lba ∈ c.blocks := by
  unfold Command.blocks Command.sectors
  rw [List.mem_range'_1]
  dsimp only
  split <;> omega

/-- The first command decides: the buffer has the same place in its page for all of them. -/
theorem transferLoop_spec {isWrite : Bool} (hb : bytes < 2 ^ 32) (hlba : lba + n < 2 ^ 48)
    (hmapped : ∀ k < n * 512, m.resolvePhysicalIn d ((bytes + k) % 2 ^ 32) ≠ 0) :
    (transferLoop m d .willing isWrite lba bytes n).2 = false ∧
      524288 < bytes % 4096 + min n 1024 * 512 ∨
    bytes % 4096 + min n 1024 * 512 ≤ 524288 ∧
      Exact m d lba n bytes (transferLoop m d .willing isWrite lba bytes n) := by
  induction n using Nat.strong_induction_on generalizing lba bytes with
  | _ n ih =>
    rw [transferLoop]
    by_cases h0 : n = 0
    · rw [if_pos h0, h0]
      exact Or.inr ⟨by omega, rfl, rfl, by simp, by simp⟩
    obtain ⟨q, hq, hpos, hle, hlast⟩ : ∃ q, min n 1024 = q ∧ 0 < q ∧ q ≤ n ∧
      (q = n ∧ n ≤ 1024 ∨ q = 1024) := ⟨_, rfl, by omega, by omega, by omega⟩
    have hchunk : (if n > ahciMaxTransferBytes / ahciBlockSize then
        ahciMaxTransferBytes / ahciBlockSize
        else n) % 2 ^ 16 = q := by
      rw [show ahciMaxTransferBytes / ahciBlockSize = 1024 from rfl]
      split <;> omega
    rw [if_neg h0, hq]
    dsimp only
    rw [hchunk, show ahciBlockSize = 512 from rfl]
    clear hq hchunk
    have hnext := @ih (n - q) (by omega) (lba + q) ((bytes + q * 512) % 2 ^ 32)
      (Nat.mod_lt _ (by decide)) (by omega) fun k hk => by
        rw [show ((bytes + q * 512) % 2 ^ 32 + k) % 2 ^ 32
          = (bytes + (q * 512 + k)) % 2 ^ 32 by omega]
        exact hmapped _ (by omega)
    generalize transferLoop m d .willing isWrite (lba + q) _ (n - q) = rest at hnext ⊢
    obtain ⟨r, hr⟩ : ∃ r, issueTransfer m d .willing (if isWrite then 0x35 else 0x25) lba (2 ^ 6) q
      bytes (q * 512) isWrite = r := ⟨_, rfl⟩
    rw [hr]
    rcases issueTransfer_spec hb (by omega) (by omega)
      (fun k hk => hmapped k (hk.trans_le (Nat.mul_le_mul_right 512 hle))) _ _ _ hr with
      ⟨rfl, hover⟩ | ⟨c, rfl, hfits, hl, hs, hlen, hbytes⟩
    · exact Or.inl ⟨rfl, hover⟩
    have hrest : Exact m d (lba + q) (n - q) ((bytes + q * 512) % 2 ^ 32) rest := by
      refine (hnext.resolve_left fun h => ?_).2
      have hmin : min (n - q) 1024 ≤ 1024 ∧ min (n - q) 1024 ≤ n - q :=
        ⟨min_le_right .., min_le_left ..⟩
      generalize min (n - q) 1024 = k at h hmin
      omega
    show _ ∨ _ ∧ Exact m d lba n bytes (c :: rest.1, rest.2)
    refine Or.inr ⟨hfits, hrest.done, ?_, List.forall_mem_cons.mpr ⟨hlen, hrest.entries⟩,
      List.forall_mem_cons.mpr ⟨?_, fun c' hc' => ?_⟩⟩
    · rw [List.flatMap_cons, hrest.blocks, Command.blocks, hl, hs,
        List.range'_append_1, Nat.add_sub_cancel' hle]
    · rw [hbytes, hl, hs, Nat.sub_self, Nat.mul_zero, Nat.add_zero, Nat.mul_comm]
    · have hmem := List.mem_flatMap.mpr ⟨c', hc', c'.lba_mem⟩
      rw [hrest.blocks, List.mem_range'_1] at hmem
      rw [hrest.bytes c' hc']
      unfold bufferBytes
      refine List.map_congr_left fun k _ => ?_
      rw [show ((bytes + q * 512) % 2 ^ 32 + 512 * (c'.lba - (lba + q)) + k) % 2 ^ 32
        = (bytes + 512 * (c'.lba - lba) + k) % 2 ^ 32 by omega]

end

/-- **A request is carried out exactly if the buffer is not null and its first command's part
lies in 128 pages**: every block once and in order, and each command on the physical bytes
behind its own part of the buffer. -/
theorem transfer_exact_iff (m : Machine) (directoryPhys : Nat)
    (blockIndex blockCount buffer : UInt32) (isWrite : Bool)
    (hmapped : ∀ k < blockCount.toNat * ahciBlockSize,
      m.resolvePhysicalIn directoryPhys ((buffer.toNat + k) % 2 ^ 32) ≠ 0) :
    Exact m directoryPhys blockIndex.toNat blockCount.toNat buffer.toNat
        (ahciTransfer m directoryPhys .willing blockIndex.toNat blockCount.toNat
          buffer.toNat isWrite) ↔
      buffer ≠ 0 ∧
        buffer.toNat % 4096 + min blockCount.toNat 1024 * ahciBlockSize ≤ ahciMaxTransferBytes := by
  have hlba : blockIndex.toNat + blockCount.toNat < 2 ^ 48 := by
    have := blockIndex.toNat_lt
    have := blockCount.toNat_lt
    omega
  unfold ahciTransfer
  rw [ne_eq, ← UInt32.toNat_inj]
  split
  next hz => exact ⟨fun h => absurd h.done (by simp), fun h => absurd hz h.1⟩
  next hz =>
    rcases transferLoop_spec buffer.toNat_lt hlba hmapped with ⟨hfail, hover⟩ | ⟨hfits, hexact⟩
    · refine ⟨fun h => ?_, fun h => absurd h.2 (Nat.not_le.mpr hover)⟩
      have hdone := h.done
      rw [hfail] at hdone
      simp at hdone
    · exact ⟨fun _ => ⟨hz, hfits⟩, fun _ => hexact⟩

/-- A machine on which every page is mapped, to one frame. -/
def oneFrame : Machine := ⟨fun _ => 1, ⟨fun _ => 0, fun _ => 0, 0, 0, 0, 0⟩, 4096⟩

theorem oneFrame_mapped (va : Nat) : oneFrame.resolvePhysicalIn 4096 va ≠ 0 := by
  have hentry : ∀ t i, entry oneFrame.mem t i = 0x01010101 := by
    simp [entry, Store.load32, oneFrame]
  simp only [Machine.resolvePhysicalIn, Machine.lookupPageIn, hentry]
  decide

theorem transfer_exact_iff_aligned :
    Exact oneFrame 4096 5 2048 0x10000 (ahciTransfer oneFrame 4096 .willing 5 2048 0x10000 false) :=
  (transfer_exact_iff oneFrame 4096 5 2048 0x10000 false fun k _ => oneFrame_mapped _).mpr
    (by decide)

/-- 512 KiB to a buffer that does not begin at a page are refused. -/
theorem unaligned_transfer_fails : (∀ va, oneFrame.resolvePhysicalIn 4096 va ≠ 0) ∧
    (ahciTransfer oneFrame 4096 .willing 0 1024 0x10200 false).2 = false := by
  refine ⟨oneFrame_mapped, ?_⟩
  unfold ahciTransfer
  rw [if_neg (by decide)]
  exact (transferLoop_spec (by decide) (by decide) fun k _ => oneFrame_mapped _).elim And.left
    fun h => absurd h.1 (by decide)

end Riverix.Drivers
