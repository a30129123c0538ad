import Riverix.Memory.Window

/-!
# Device memory (`mmio.c`)

`mmio_map_region` maps the pages of a physical range one after the other into the window from
`KERNEL_MMIO_BASE` to `KERNEL_MMIO_LIMIT`, whose page tables `paging_init` has prepared. The
drivers call it while the kernel runs on its own directory.

Four sums of 32 bits guard the window: the end of the range, its rounding to a page, the end of
the mapping and the next free address. `Sane` says that none of them wraps, or that the range is
refused. Every run of such calls keeps to the window (`Disciplined`).
-/

namespace Riverix.Memory

open Riverix.Lib

/-- `KERNEL_MMIO_BASE` and `KERNEL_MMIO_LIMIT` -/
abbrev mmioBase : Nat := 0xF7000000
abbrev mmioLimit : Nat := 0xF7800000

/-- `PAGE_WRITABLE | PAGE_CACHE_DISABLE` -/
abbrev mmioFlags : Nat := 0x012

/-- A call that has returned an address. -/
structure MmioRegion where
  virtualAddress : Nat
  physicalAddress : Nat
  length : Nat

/-- The machine, `mmio_next_virtual`, and the calls so far. -/
structure Mmio where
  machine : Machine
  nextVirtual : Nat
  regions : List MmioRegion

/-- `align_down(physical_address, PAGE_SIZE)` -/
def physicalBase (physicalAddress : Nat) : Nat := physicalAddress / 4096 * 4096

/-- `align_up(physical_address + length, PAGE_SIZE)` -/
def physicalEnd (physicalAddress length : Nat) : Nat :=
  ((physicalAddress + length) % 2 ^ 32 + 4095) % 2 ^ 32 / 4096 * 4096

/-- `map_length`, behind the test that it is not negative. -/
def mapLength (physicalAddress length : Nat) : Nat :=
  physicalEnd physicalAddress length - physicalBase physicalAddress

/-- The loop of `mmio_map_region` over the pages that are left. -/
def mapMmioPages (virtualBase physicalBase : Nat) : Nat → Nat → Machine → Machine × Bool
  | _, 0, m => (m, true)
  | offset, pages + 1, m =>
    match m.mapPageIn m.kernelPageDirectoryPhys ((virtualBase + offset) % 2 ^ 32)
        ((physicalBase + offset) % 2 ^ 32) mmioFlags with
    | (m, false) => (m, false)
    | (m, true) => mapMmioPages virtualBase physicalBase (offset + 4096) pages m

namespace Mmio

/-- `mmio_init` -/
def init (m : Machine) : Mmio := ⟨m, mmioBase, []⟩

/-- `mmio_map_region` -/
def mapRegion (s : Mmio) (physicalAddress length : Nat) : Mmio × Nat :=
  if length = 0 then (s, 0)
  else if physicalEnd physicalAddress length < physicalBase physicalAddress then (s, 0)
  else if (s.nextVirtual + mapLength physicalAddress length) % 2 ^ 32 > mmioLimit then (s, 0)
  else
    match mapMmioPages s.nextVirtual (physicalBase physicalAddress) 0
        (mapLength physicalAddress length / 4096) s.machine with
    | (m, false) => ({ s with machine := m }, 0)
    | (m, true) =>
      let v := (s.nextVirtual + (physicalAddress - physicalBase physicalAddress)) % 2 ^ 32
      ({ machine := m
         nextVirtual := (s.nextVirtual + mapLength physicalAddress length) % 2 ^ 32
         regions := if v = 0 then s.regions else ⟨v, physicalAddress, length⟩ :: s.regions }, v)

/-- A call with its two 32-bit arguments. -/
def step (s : Mmio) (call : BitVec 32 × BitVec 32) : Mmio :=
  (s.mapRegion call.1.toNat call.2.toNat).1

end Mmio

/-! ## Mapping pages -/

variable {m m' : Machine} {va vb pb pages offset : Nat}

/-- The byte `a` belongs to the leaf entry of the page. -/
def EntryByte (m : Machine) (va a : Nat) : Prop :=
  m.tableOf va * 4096 + 4 * (va / 4096 % 1024) ≤ a ∧
    a < m.tableOf va * 4096 + 4 * (va / 4096 % 1024) + 4

/-- What the loop leaves: the pages are mapped, and nothing else was written. -/
structure MapsPages (m m' : Machine) (start physical length : Nat) : Prop where
  window : Window m' 988 990
  kernel : m'.kernelPageDirectoryPhys = m.kernelPageDirectoryPhys
  tables : ∀ va, PageIn 988 990 va → m'.tableOf va = m.tableOf va
  leaf : ∀ va, PageIn 988 990 va → m'.leaf va =
    if start ≤ va ∧ va < start + length then physical + (va - start) + 0x13 else m.leaf va
  others : ∀ a, m'.mem a ≠ m.mem a → ∃ va, PageIn 988 990 va ∧ EntryByte m va a

theorem mapPageIn_mmio (h : Window m 988 990) (hp : PageIn 988 990 va) {pa : Nat}
    (hpa : pa % 4096 = 0) : m.mapPageIn m.kernelPageDirectoryPhys va pa mmioFlags
      = (m.setLeaf va (pa + 0x13), true) := by
  have hidx := hp.index
  rw [mapPageIn_kernel h.ne_zero hp.aligned hpa (h.tableOf_slot hp).1 (by omega) (by decide)]
  have hflags := frame_or_flags (pa / 4096) (show (0x13 : Nat) < 4096 by decide)
  rw [show pa / 4096 * 4096 = pa by omega] at hflags
  rw [show mmioFlags ||| pagePresent = 0x13 by decide, hflags]
  rfl

theorem mapMmioPages_maps (offset pages : Nat) (h : Window m 988 990) (hvb : vb % 4096 = 0)
    (hpb : pb % 4096 = 0) (hoff : offset % 4096 = 0) (hlow : 0xF7000000 ≤ vb)
    (hhigh : vb + offset + pages * 4096 ≤ 0xF7800000)
    (hphys : pb + offset + pages * 4096 < 2 ^ 32) :
    ∃ m', mapMmioPages vb pb offset pages m = (m', true) ∧
      MapsPages m m' (vb + offset) (pb + offset) (pages * 4096) := by
  induction pages generalizing m offset with
  | zero =>
    refine ⟨m, rfl, h, rfl, fun _ _ => rfl, fun va _ => ?_, fun a ha => absurd rfl ha⟩
    rw [if_neg (by omega)]
  | succ pages ih =>
    have hp : PageIn 988 990 (vb + offset) := ⟨by omega, by omega, by omega⟩
    unfold mapMmioPages
    rw [Nat.mod_eq_of_lt (a := vb + offset) (by omega),
      Nat.mod_eq_of_lt (a := pb + offset) (by omega),
      mapPageIn_mmio h hp (by omega)]
    have h₁ := h.setLeaf hp (pb + offset + 0x13)
    obtain ⟨m', hloop, hm⟩ := ih (offset + 4096) h₁ (by omega) (by omega) (by omega)
    have htables : ∀ va, PageIn 988 990 va →
        (m.setLeaf (vb + offset) (pb + offset + 0x13)).tableOf va = m.tableOf va :=
      fun va hva => h.setLeaf_tableOf hp hva
    refine ⟨m', hloop, hm.window, hm.kernel, fun va hva => (hm.tables va hva).trans
      (htables va hva),
      fun va hva => ?_, fun a ha => ?_⟩
    · rw [hm.leaf va hva]
      have halign := hva.aligned
      by_cases hsame : va = vb + offset
      · subst hsame
        rw [if_neg (by omega), if_pos (by omega), h.leaf_setLeaf_same hp (by omega)]
        omega
      rw [h.leaf_setLeaf_ne hp hva (Ne.symm hsame)]
      by_cases hin : vb + (offset + 4096) ≤ va ∧ va < vb + (offset + 4096) + pages * 4096
      · rw [if_pos hin, if_pos (by omega)]
        omega
      · rw [if_neg hin, if_neg (by omega)]
    by_cases hrest : m'.mem a = (m.setLeaf (vb + offset) (pb + offset + 0x13)).mem a
    · refine ⟨vb + offset, hp, ?_⟩
      by_contra hout
      refine ha (hrest.trans (Store.write_outside ?_))
      unfold EntryByte at hout
      rw [enc32_length]
      omega
    · obtain ⟨va, hva, hbyte⟩ := hm.others a hrest
      unfold EntryByte at hbyte ⊢
      rw [htables va hva] at hbyte
      exact ⟨va, hva, hbyte⟩

/-! ## The window over a run -/

/-- The bytes of the region are mapped to the bytes from its physical address on, page by page. -/
def MmioRegion.Mapped (m : Machine) (r : MmioRegion) : Prop :=
  ∀ k < r.length, m.leaf ((r.virtualAddress + k) / 4096 * 4096)
      = (r.physicalAddress + k) / 4096 * 4096 + 0x13 ∧
    (r.virtualAddress + k) % 4096 = (r.physicalAddress + k) % 4096

/-- Neither the end of the range, nor its rounding, nor the end of the mapping wraps, or the range
is refused. -/
def Sane (s : Mmio) (call : BitVec 32 × BitVec 32) : Prop :=
  call.2.toNat = 0 ∨ physicalEnd call.1.toNat call.2.toNat < physicalBase call.1.toNat ∨
    call.1.toNat + call.2.toNat ≤ 0xFFFFF000 ∧
      s.nextVirtual + mapLength call.1.toNat call.2.toNat < 2 ^ 32

namespace Mmio

variable {s : Mmio} {m₀ : Machine}

/-- What a run keeps. -/
structure Ok (m₀ : Machine) (s : Mmio) : Prop where
  window : Window s.machine 988 990
  kernel : s.machine.kernelPageDirectoryPhys = m₀.kernelPageDirectoryPhys
  tables : ∀ va, PageIn 988 990 va → s.machine.tableOf va = m₀.tableOf va
  aligned : s.nextVirtual % 4096 = 0
  inside : 0xF7000000 ≤ s.nextVirtual ∧ s.nextVirtual ≤ 0xF7800000
  mapped : ∀ r ∈ s.regions, r.Mapped s.machine
  placed : ∀ r ∈ s.regions, 0xF7000000 ≤ r.virtualAddress ∧
    r.virtualAddress + r.length ≤ s.nextVirtual
  disjoint : s.regions.Pairwise fun r r' => r'.virtualAddress + r'.length ≤ r.virtualAddress
  others : ∀ a, s.machine.mem a ≠ m₀.mem a → ∃ va, PageIn 988 990 va ∧ EntryByte m₀ va a

theorem init_ok (h : Window m₀ 988 990) : (init m₀).Ok m₀ :=
  ⟨h, rfl, fun _ _ => rfl, (by decide : 0xF7000000 % 4096 = 0),
    ⟨le_rfl, (by decide : 0xF7000000 ≤ 0xF7800000)⟩, by simp [init], by simp [init], .nil,
    fun _ ha => absurd rfl ha⟩

/-- A mapping behind everything that was mapped before. -/
theorem Ok.add (h : s.Ok m₀) {p l L : Nat}
    (hm : MapsPages s.machine m' s.nextVirtual (physicalBase p) L) (hL : L % 4096 = 0)
    (hfits : p % 4096 + l ≤ L) (hend : s.nextVirtual + L ≤ 0xF7800000) :
    Ok m₀ ⟨m', s.nextVirtual + L, ⟨s.nextVirtual + p % 4096, p, l⟩ :: s.regions⟩ := by
  have halign := h.aligned
  obtain ⟨hlow, hhigh⟩ := h.inside
  have hpage : ∀ va, 0xF7000000 ≤ va → va < 0xF7800000 → PageIn 988 990 (va / 4096 * 4096) :=
    fun va h₁ h₂ => ⟨by omega, by omega, by omega⟩
  refine ⟨hm.window, hm.kernel.trans h.kernel, fun va hva => (hm.tables va hva).trans
    (h.tables va hva),
    (by show (s.nextVirtual + L) % 4096 = 0; omega), ⟨(by show _ ≤ s.nextVirtual + L; omega), hend⟩,
    fun r hr k hk => ?_, fun r hr => ?_, ?_, fun a ha => ?_⟩
  · rcases List.mem_cons.mp hr with rfl | hr
    · dsimp only at hk ⊢
      unfold physicalBase at hm
      rw [hm.leaf _ (hpage _ (by omega) (by omega)), if_pos (by omega)]
      omega
    · have hplace := h.placed r hr
      rw [hm.leaf _ (hpage _ (by omega) (by omega)), if_neg (by omega)]
      exact h.mapped r hr k hk
  · rcases List.mem_cons.mp hr with rfl | hr
    · show _ ≤ s.nextVirtual + p % 4096 ∧ s.nextVirtual + p % 4096 + l ≤ s.nextVirtual + L
      omega
    · have hplace := h.placed r hr
      show _ ∧ _ ≤ s.nextVirtual + L
      omega
  · refine List.pairwise_cons.mpr ⟨fun r hr => ?_, h.disjoint⟩
    have hplace := h.placed r hr
    show _ ≤ s.nextVirtual + p % 4096
    omega
  · by_cases hrest : m'.mem a = s.machine.mem a
    · exact h.others a (fun he => ha (hrest.trans he))
    · obtain ⟨va, hva, hbyte⟩ := hm.others a hrest
      unfold EntryByte at hbyte ⊢
      rw [h.tables va hva] at hbyte
      exact ⟨va, hva, hbyte⟩

theorem Ok.step (h : s.Ok m₀) {call : BitVec 32 × BitVec 32} (hsane : Sane s call) :
    (s.step call).Ok m₀ := by
  obtain ⟨hlow, hhigh⟩ := h.inside
  unfold Mmio.step mapRegion
  unfold Sane at hsane
  generalize call.1.toNat = p at *
  generalize call.2.toNat = l at *
  split
  · exact h
  next hl =>
  split
  · exact h
  next hend =>
  obtain ⟨hsum, hnext⟩ := (hsane.resolve_left hl).resolve_left hend
  rw [Nat.mod_eq_of_lt hnext]
  split
  · exact h
  next hlimit =>
  have hL : mapLength p l = (p + l + 4095) / 4096 * 4096 - p / 4096 * 4096 := by
    unfold mapLength physicalEnd physicalBase
    omega
  have hpages : mapLength p l / 4096 * 4096 = mapLength p l := by omega
  have hfit : s.nextVirtual + mapLength p l ≤ 0xF7800000 := Nat.not_lt.mp hlimit
  obtain ⟨m', hloop, hm⟩ := mapMmioPages_maps 0 (mapLength p l / 4096) h.window h.aligned
    (show physicalBase p % 4096 = 0 by unfold physicalBase; omega) rfl hlow
    (by omega) (by unfold physicalBase; omega)
  rw [hloop]
  have hv : (s.nextVirtual + (p - physicalBase p)) % 2 ^ 32 = s.nextVirtual + p % 4096 := by
    unfold physicalBase
    omega
  dsimp only
  rw [hv, if_neg (by omega)]
  rw [hpages, Nat.add_zero, Nat.add_zero] at hm
  exact h.add hm (by omega) (by omega) hfit

/-- The window discipline, over a run from `m₀`. -/
structure Disciplined (m₀ : Machine) (s : Mmio) : Prop where
  /-- The next address does not leave the window. -/
  next : mmioBase ≤ s.nextVirtual ∧ s.nextVirtual ≤ mmioLimit
  /-- What a call returned lies in the window. -/
  inside : ∀ r ∈ s.regions, mmioBase ≤ r.virtualAddress ∧ r.virtualAddress + r.length ≤ mmioLimit
  /-- Its bytes are the consecutive physical bytes. -/
  mapped : ∀ r ∈ s.regions, ∀ k < r.length, ∃ page,
    s.machine.lookupPageIn s.machine.kernelPageDirectoryPhys (r.virtualAddress + k)
      = some (page, mmioFlags ||| pagePresent) ∧
    page + (r.virtualAddress + k) % 4096 = r.physicalAddress + k
  disjoint : s.regions.Pairwise fun r r' => r'.virtualAddress + r'.length ≤ r.virtualAddress ∨
    r.virtualAddress + r.length ≤ r'.virtualAddress
  /-- Only leaf entries of pages in the window were written. -/
  others : ∀ a, s.machine.mem a ≠ m₀.mem a → ∃ va, PageIn 988 990 va ∧ EntryByte m₀ va a

theorem Ok.disciplined (h : s.Ok m₀) : s.Disciplined m₀ := by
  refine ⟨h.inside, fun r hr => ?_, fun r hr k hk => ?_, h.disjoint.imp .inl, h.others⟩
  · have hplace := h.placed r hr
    have hin := h.inside
    exact ⟨hplace.1, hplace.2.trans hin.2⟩
  · obtain ⟨hleaf, hoffset⟩ := h.mapped r hr k hk
    refine ⟨(r.physicalAddress + k) / 4096 * 4096, ?_, by omega⟩
    unfold Machine.leaf at hleaf
    rw [leafEntry_page] at hleaf
    rw [show mmioFlags ||| pagePresent
      = 0x13 by decide, lookupPageIn_eq h.window.ne_zero, hleaf,
      and_flag_mod _ (by decide : pagePresent < 4096),
      show ((r.physicalAddress + k) / 4096 * 4096 + 0x13) % 4096
        = 0x13 by omega, if_neg (by decide),
      show ((r.physicalAddress + k) / 4096 * 4096 + 0x13) / 4096 * 4096
        = (r.physicalAddress + k) / 4096 * 4096 by omega]

/-- **The window discipline holds over every run of sane calls.** From the machine that
`paging_init` leaves, and whatever the arguments are otherwise. -/
theorem mapRegion_disciplined (info : MultibootInfo) (kernelStart kernelEnd : UInt32) (mem : Store)
    (henabled : (pagingInit (Palloc.init info kernelStart kernelEnd) mem).outcome = .enabled)
    (calls : List (BitVec 32 × BitVec 32))
    (hsane : Guarded step Sane
      (init (pagingInit (Palloc.init info kernelStart kernelEnd) mem).machine) calls) :
    (run step (init (pagingInit (Palloc.init info kernelStart kernelEnd) mem).machine)
      calls).Disciplined
      (pagingInit (Palloc.init info kernelStart kernelEnd) mem).machine := by
  obtain ⟨limit, -, hspace⟩ := enabled_kernelSpace henabled
  have hwindow : Window (pagingInit (Palloc.init info kernelStart kernelEnd) mem).machine 988 990 :=
    hspace.window (by decide) fun i h₁ h₂ => .inl ⟨h₁, h₂⟩
  exact (guarded_invariant (fun _ _ h hc => h.step hc) calls (init_ok hwindow) hsane).disciplined

/-- The registers of a device at the top of the address space. -/
theorem mapRegion_disciplined_registers :
    (run step (init (pagingInit (Palloc.init pagedInfo 0x100000 0x101000) fun _ => 0).machine)
      [(0xFEBC0010, 0x2000)]).Disciplined
      (pagingInit (Palloc.init pagedInfo 0x100000 0x101000) fun _ => 0).machine :=
  mapRegion_disciplined pagedInfo 0x100000 0x101000 _ pagedInfo_enabled _
    ⟨.inr (.inr ⟨by decide, by show 0xF7000000 + _ < _; decide⟩), trivial⟩

/-- A range from the first page to the end of the address space: its end and the rounding of it
come out as 0, and an address is returned that has nothing mapped behind it. -/
theorem mapRegion_whole (m : Machine) : (init m).mapRegion 1 0xFFFFFFFF
    = (⟨m, mmioBase, [⟨0xF7000001, 1, 0xFFFFFFFF⟩]⟩, 0xF7000001) := by
  have hlength : mapLength 1 0xFFFFFFFF = 0 := by decide
  unfold mapRegion
  rw [hlength, if_neg (by decide), if_neg (by decide)]
  rfl

theorem whole_range_undisciplined :
    ¬ (run step (init (pagingInit (Palloc.init pagedInfo 0x100000 0x101000) fun _ => 0).machine)
      [(1, 0xFFFFFFFF)]).Disciplined
      (pagingInit (Palloc.init pagedInfo 0x100000 0x101000) fun _ => 0).machine := by
  generalize (pagingInit (Palloc.init pagedInfo 0x100000 0x101000) fun _ => 0).machine = m
  intro h
  have hrun : run step (init m) [(1, 0xFFFFFFFF)]
      = ⟨m, mmioBase, [⟨0xF7000001, 1, 0xFFFFFFFF⟩]⟩ := congrArg Prod.fst (mapRegion_whole m)
  rw [hrun] at h
  exact absurd (h.inside _ (List.mem_singleton_self _)).2 (by decide)

end Mmio

end Riverix.Memory
