import Riverix.Memory.DirectMap

/-!
# A window of the kernel's address space

The heap and the kernel stacks each live in a window of directory slots whose page tables
`paging_init` has prepared. In such a window mapping a page is one store to a leaf entry,
`setLeaf`, and unmapping it is another: nothing is allocated and nothing else changes
(`mapPageIn_window`, `unmapPageIn_window`). What the two clients need of the page tables is
therefore a map from page addresses to leaf entries, read by `leafEntry`, and the lemmas
below say how it is updated and what leaves it alone.

A system call may run in the address space of any task. Its directory has the same slots as
the kernel's there (`Shares`), so a page mapped through it is mapped in all of them.
-/

namespace Riverix.Memory

open Riverix.Lib

/-- The tables of the directory slots from `lo` up to `hi`, each in a frame of its own. -/
structure Window (m : Machine) (lo hi : Nat) : Prop where
  bounds : 768 ≤ lo ∧ hi ≤ 1023
  palloc : m.palloc.Ok
  frameZero : m.palloc.frameRefcounts 0 ≠ 0
  aligned : m.kernelPageDirectoryPhys % 4096 = 0
  ne_zero : m.kernelPageDirectoryPhys ≠ 0
  used : m.palloc.frameRefcounts (m.kernelPageDirectoryPhys / 4096) ≠ 0
  table : ∀ i, lo ≤ i → i < hi → ∃ t, entry m.mem m.kernelPageDirectoryPhys i = t * 4096 + 3 ∧
    m.palloc.frameRefcounts t ≠ 0 ∧ t ≠ m.kernelPageDirectoryPhys / 4096
  apart : ∀ i j, lo ≤ i → i < hi → lo ≤ j → j < hi →
    entry m.mem m.kernelPageDirectoryPhys i = entry m.mem m.kernelPageDirectoryPhys j → i = j

/-- A page of the window. -/
structure PageIn (lo hi va : Nat) : Prop where
  aligned : va % 4096 = 0
  ge : lo * 4194304 ≤ va
  lt : va < hi * 4194304

/-- The directory has the kernel's slots in the window. -/
structure Shares (m : Machine) (lo hi d : Nat) : Prop where
  ne_zero : d ≠ 0
  slots : ∀ i, lo ≤ i → i < hi → entry m.mem d i = entry m.mem m.kernelPageDirectoryPhys i

namespace Machine

/-- The frame of the kernel table that maps `va`. -/
def tableOf (m : Machine) (va : Nat) : Nat :=
  entry m.mem m.kernelPageDirectoryPhys (va / 4194304) / 4096

/-- A store to the leaf entry of `va`. -/
def setLeaf (m : Machine) (va v : Nat) : Machine :=
  { m with mem := setEntry m.mem (m.tableOf va * 4096) (va / 4096 % 1024) v }

/-- The leaf entry of `va` in the kernel's directory. -/
def leaf (m : Machine) (va : Nat) : Nat := leafEntry m.mem m.kernelPageDirectoryPhys va

end Machine

variable {m : Machine} {lo hi d va va' v : Nat}

theorem Shares.kernel (h : Window m lo hi) : Shares m lo hi m.kernelPageDirectoryPhys :=
  ⟨h.ne_zero, fun _ _ _ => rfl⟩

theorem PageIn.index (h : PageIn lo hi va) : lo ≤ va / 4194304 ∧ va / 4194304 < hi := by
  have hge := h.ge
  have hlt := h.lt
  exact ⟨(Nat.le_div_iff_mul_le (by decide)).mpr hge, Nat.div_lt_of_lt_mul (by omega)⟩

/-- Two pages with the same place in the same table are the same page. -/
theorem PageIn.eq_of_index (h : PageIn lo hi va) (h' : PageIn lo hi va')
    (hdir : va / 4194304 = va' / 4194304) (htab : va / 4096 % 1024 = va' / 4096 % 1024) :
    va = va' := by
  have h₁ := h.aligned
  have h₂ := h'.aligned
  have hd : va / 4194304 = va / 4096 / 1024 := (Nat.div_div_eq_div_mul va 4096 1024).symm
  have hd' : va' / 4194304 = va' / 4096 / 1024 := (Nat.div_div_eq_div_mul va' 4096 1024).symm
  rw [hd, hd'] at hdir
  omega

theorem Window.tableOf_slot (h : Window m lo hi) (hp : PageIn lo hi va) :
    entry m.mem m.kernelPageDirectoryPhys (va / 4194304) = m.tableOf va * 4096 + 3 ∧
      m.palloc.frameRefcounts (m.tableOf va) ≠ 0 ∧
      m.tableOf va ≠ m.kernelPageDirectoryPhys / 4096 := by
  obtain ⟨t, ht, hused, hne⟩ := h.table _ hp.index.1 hp.index.2
  have htab : m.tableOf va = t := by
    unfold Machine.tableOf
    rw [ht]
    omega
  rw [htab]
  exact ⟨ht, hused, hne⟩

/-- In the window the walk ends in the slot's table. -/
theorem Window.leaf_eq (h : Window m lo hi) (hp : PageIn lo hi va) :
    m.leaf va = entry m.mem (m.tableOf va * 4096) (va / 4096 % 1024) := by
  have hslot := (h.tableOf_slot hp).1
  unfold Machine.leaf leafEntry
  rw [hslot, if_neg (present_three _), show (m.tableOf va * 4096 + 3) / 4096 * 4096
    = m.tableOf va * 4096 by omega]

/-- Tables of different slots are in different frames. -/
theorem Window.tableOf_ne (h : Window m lo hi) (hp : PageIn lo hi va) (hp' : PageIn lo hi va')
    (hne : va / 4194304 ≠ va' / 4194304) : m.tableOf va ≠ m.tableOf va' := by
  intro heq
  apply hne
  refine h.apart _ _ hp.index.1 hp.index.2 hp'.index.1 hp'.index.2 ?_
  rw [(h.tableOf_slot hp).1, (h.tableOf_slot hp').1, heq]

/-! ## Stores to the window -/

/-- A store to a leaf leaves the slots of every directory alone. -/
theorem Window.setLeaf_slot (h : Window m lo hi) (hp : PageIn lo hi va) {i : Nat} (hi' : i < 1024) :
    entry (m.setLeaf va v).mem m.kernelPageDirectoryPhys i
      = entry m.mem m.kernelPageDirectoryPhys i := by
  have hal := h.aligned
  have hne := (h.tableOf_slot hp).2.2
  exact entry_setEntry_ne (Nat.mul_mod_left _ _) hal (Nat.mod_lt _ (by decide)) hi'
    (Or.inl (by omega))

theorem Window.setLeaf_tableOf (h : Window m lo hi) (hp : PageIn lo hi va)
    (hp' : PageIn lo hi va') :
    (m.setLeaf va v).tableOf va' = m.tableOf va' := by
  unfold Machine.tableOf
  have hlt := hp'.index.2
  have hb := h.bounds
  have hslot := h.setLeaf_slot (v := v) hp (show va' / 4194304 < 1024 by omega)
  show entry (m.setLeaf va v).mem m.kernelPageDirectoryPhys (va' / 4194304) / 4096 = _
  rw [hslot]

theorem Window.setLeaf (h : Window m lo hi) (hp : PageIn lo hi va) (v : Nat) :
    Window (m.setLeaf va v) lo hi := by
  have hb := h.bounds
  refine ⟨hb, h.palloc, h.frameZero, h.aligned, h.ne_zero, h.used, ?_, ?_⟩
  · intro i hlo hhi
    obtain ⟨t, ht, hrest⟩ := h.table i hlo hhi
    exact ⟨t, (h.setLeaf_slot hp (by omega)).trans ht, hrest⟩
  · intro i j hi₁ hi₂ hj₁ hj₂ heq
    refine h.apart i j hi₁ hi₂ hj₁ hj₂ ?_
    exact (h.setLeaf_slot hp (by omega)).symm.trans (heq.trans (h.setLeaf_slot hp (by omega)))

theorem Window.leaf_setLeaf_same (h : Window m lo hi) (hp : PageIn lo hi va) (hv : v < 2 ^ 32) :
    (m.setLeaf va v).leaf va = v := by
  rw [(h.setLeaf hp v).leaf_eq hp, h.setLeaf_tableOf hp hp]
  exact entry_setEntry_same hv

theorem Window.leaf_setLeaf_ne (h : Window m lo hi) (hp : PageIn lo hi va) (hp' : PageIn lo hi va')
    (hne : va ≠ va') : (m.setLeaf va v).leaf va' = m.leaf va' := by
  rw [(h.setLeaf hp v).leaf_eq hp', h.setLeaf_tableOf hp hp', h.leaf_eq hp']
  refine entry_setEntry_ne (Nat.mul_mod_left _ _) (Nat.mul_mod_left _ _)
    (Nat.mod_lt _ (by decide)) (Nat.mod_lt _ (by decide)) ?_
  by_cases hdir : va / 4194304 = va' / 4194304
  · right
    intro htab
    exact hne (hp.eq_of_index hp' hdir htab)
  · left
    have := h.tableOf_ne hp hp' hdir
    omega

/-- A zero leaf is four zero bytes, so storing a zero over a new leaf restores memory. -/
theorem Window.setLeaf_restore (h : Window m lo hi) (hp : PageIn lo hi va) (hz : m.leaf va = 0)
    (v : Nat) : (m.setLeaf va v).setLeaf va 0 = m := by
  have htab : (m.setLeaf va v).tableOf va = m.tableOf va := h.setLeaf_tableOf hp hp
  unfold Machine.setLeaf at htab ⊢
  rw [htab]
  have hzero : entry m.mem (m.tableOf va * 4096) (va / 4096 % 1024) = 0 := by
    rw [← h.leaf_eq hp]
    exact hz
  have hmem : setEntry (setEntry m.mem (m.tableOf va * 4096) (va / 4096 % 1024) v)
      (m.tableOf va * 4096) (va / 4096 % 1024) 0 = m.mem := by
    have hrestore := Store.store32_restore m.mem (m.tableOf va * 4096 + 4 * (va / 4096 % 1024)) v
    rw [show m.mem.load32 _ = 0 from hzero] at hrestore
    exact hrestore
  rw [hmem]

/-- Clearing a clear leaf changes nothing. -/
theorem Window.setLeaf_self (h : Window m lo hi) (hp : PageIn lo hi va) (hz : m.leaf va = 0) :
    m.setLeaf va 0 = m := by
  rw [h.leaf_eq hp] at hz
  have hmem : setEntry m.mem (m.tableOf va * 4096) (va / 4096 % 1024) 0 = m.mem := by
    rw [← hz]
    exact Store.store32_load32 m.mem _
  unfold Machine.setLeaf
  rw [hmem]

/-! ## Mapping and unmapping -/

theorem Shares.slot (hs : Shares m lo hi d) (h : Window m lo hi) (hp : PageIn lo hi va) :
    entry m.mem d (va / 4194304) = m.tableOf va * 4096 + 3 := by
  rw [hs.slots _ hp.index.1 hp.index.2]
  exact (h.tableOf_slot hp).1

/-- Mapping a page writable is a store to its leaf. -/
theorem mapPageIn_window (h : Window m lo hi) (hs : Shares m lo hi d) (hp : PageIn lo hi va)
    (f : Nat) : m.mapPageIn d va (f * 4096) pageWritable = (m.setLeaf va (f * 4096 + 3), true) := by
  have hkernel : 768 ≤ va / 4194304 := Nat.le_trans h.bounds.1 hp.index.1
  rw [mapPageIn_kernel hs.ne_zero hp.aligned (Nat.mul_mod_left f 4096) (hs.slot h hp)
    hkernel (by decide)]
  have hflags : f * 4096 ||| (pageWritable ||| pagePresent) = f * 4096 + 3 :=
    frame_or_flags f (by decide)
  rw [hflags]
  rfl

/-- Unmapping a page clears its leaf. -/
theorem unmapPageIn_window (h : Window m lo hi) (hs : Shares m lo hi d) (hp : PageIn lo hi va) :
    m.unmapPageIn d va = m.setLeaf va 0 :=
  unmapPageIn_kernel hs.ne_zero hp.aligned (hs.slot h hp)

/-- A lookup reads the leaf. -/
theorem lookupPageIn_window (hs : Shares m lo hi d) (hp : PageIn lo hi va) :
    m.lookupPageIn d va = if m.leaf va &&& pagePresent = 0 then none
      else some (m.leaf va / 4096 * 4096, m.leaf va % 4096) := by
  have hleaf : leafEntry m.mem d va = m.leaf va := by
    unfold Machine.leaf leafEntry
    rw [hs.slots _ hp.index.1 hp.index.2]
  rw [lookupPageIn_eq hs.ne_zero, hleaf]

theorem Shares.setLeaf (hs : Shares m lo hi d) (h : Window m lo hi) (hp : PageIn lo hi va)
    (hd : d % 4096 = 0) (hne : d / 4096 ≠ m.tableOf va) (v : Nat) :
    Shares (m.setLeaf va v) lo hi d := by
  have hb := h.bounds
  refine ⟨hs.ne_zero, fun i hlo hhi => ?_⟩
  have hslot : entry (m.setLeaf va v).mem d i = entry m.mem d i :=
    entry_setEntry_ne (Nat.mul_mod_left _ _) hd (Nat.mod_lt _ (by decide)) (by omega)
      (Or.inl (by omega))
  rw [hslot, hs.slots i hlo hhi]
  exact (h.setLeaf_slot hp (by omega)).symm

/-! ## What leaves the window alone -/

/-- The frame holds the kernel directory or a table of the window. -/
def KernelFrame (m : Machine) (lo hi f : Nat) : Prop :=
  f = m.kernelPageDirectoryPhys / 4096 ∨
    ∃ i, lo ≤ i ∧ i < hi ∧ entry m.mem m.kernelPageDirectoryPhys i / 4096 = f

/-- Whatever happens to `m`, the frames of the window stay held and keep their bytes. -/
structure Respects (m m' : Machine) (lo hi : Nat) : Prop where
  kernel : m'.kernelPageDirectoryPhys = m.kernelPageDirectoryPhys
  palloc : m'.palloc.Ok
  frameZero : m'.palloc.frameRefcounts 0 ≠ 0
  held : ∀ f, KernelFrame m lo hi f → m'.palloc.frameRefcounts f ≠ 0
  bytes : ∀ a, KernelFrame m lo hi (a / 4096) → m'.mem a = m.mem a

variable {m' : Machine} {f : Nat}

theorem Window.held (h : Window m lo hi) (hf : KernelFrame m lo hi f) :
    m.palloc.frameRefcounts f ≠ 0 := by
  rcases hf with rfl | ⟨i, hlo, hhi, rfl⟩
  · exact h.used
  · obtain ⟨t, ht, hused, -⟩ := h.table i hlo hhi
    rw [ht, show (t * 4096 + 3) / 4096 = t by omega]
    exact hused

/-- The entries of the window's frames stay as they are. -/
theorem Respects.entry_eq (hr : Respects m m' lo hi) (hf : KernelFrame m lo hi f) {j : Nat}
    (hj : j < 1024) : entry m'.mem (f * 4096) j = entry m.mem (f * 4096) j :=
  entry_congr_frame hj fun a ha => hr.bytes a (by rw [ha]; exact hf)

theorem Respects.slot_eq (hr : Respects m m' lo hi) (h : Window m lo hi) {j : Nat} (hj : j < 1024) :
    entry m'.mem m.kernelPageDirectoryPhys j = entry m.mem m.kernelPageDirectoryPhys j := by
  have hal := h.aligned
  have hq : m.kernelPageDirectoryPhys = m.kernelPageDirectoryPhys / 4096 * 4096 := by omega
  have he := hr.entry_eq (f := m.kernelPageDirectoryPhys / 4096) (Or.inl rfl) hj
  rwa [← hq] at he

theorem Window.respects (h : Window m lo hi) (hr : Respects m m' lo hi) : Window m' lo hi := by
  have hb := h.bounds
  have hslot : ∀ {i}, i < hi →
      entry m'.mem m'.kernelPageDirectoryPhys i = entry m.mem m.kernelPageDirectoryPhys i := by
    intro i hlt
    rw [hr.kernel]
    exact hr.slot_eq h (by omega)
  refine ⟨hb, hr.palloc, hr.frameZero, ?_, ?_, ?_, ?_, ?_⟩
  · rw [hr.kernel]
    exact h.aligned
  · rw [hr.kernel]
    exact h.ne_zero
  · rw [hr.kernel]
    exact hr.held _ (Or.inl rfl)
  · intro i hlo hhi
    obtain ⟨t, ht, -, hne⟩ := h.table i hlo hhi
    have hf : KernelFrame m lo hi t := Or.inr ⟨i, hlo, hhi, by rw [ht]; omega⟩
    refine ⟨t, (hslot hhi).trans ht, hr.held t hf, ?_⟩
    rw [hr.kernel]
    exact hne
  · intro i j hi₁ hi₂ hj₁ hj₂ heq
    refine h.apart i j hi₁ hi₂ hj₁ hj₂ ?_
    rw [← hslot hi₂, ← hslot hj₂]
    exact heq

theorem Respects.leaf_eq (hr : Respects m m' lo hi) (h : Window m lo hi) (hp : PageIn lo hi va) :
    m'.leaf va = m.leaf va := by
  have hb := h.bounds
  have hlt := hp.index.2
  have htab : m'.tableOf va = m.tableOf va := by
    unfold Machine.tableOf
    rw [hr.kernel, hr.slot_eq h (by omega)]
  have hf : KernelFrame m lo hi (m.tableOf va) := Or.inr ⟨_, hp.index.1, hlt, rfl⟩
  rw [(h.respects hr).leaf_eq hp, htab, h.leaf_eq hp]
  exact hr.entry_eq hf (Nat.mod_lt _ (by decide))

/-- A frame that was free is none of the window's. -/
theorem Window.not_kernelFrame (h : Window m lo hi) (hf : m.palloc.frameRefcounts f = 0) :
    ¬KernelFrame m lo hi f :=
  fun hk => h.held hk hf

/-- Dropping a reference to a frame that is none of the window's. -/
theorem Window.respects_free (h : Window m lo hi) (hlt : f < m.palloc.firstUnusableFrame)
    (hr : m.palloc.frameRefcounts f ≠ 0) (hf : ¬KernelFrame m lo hi f) (h0 : f ≠ 0) :
    Respects m { m with palloc := m.palloc.freePage (f * 4096) } lo hi := by
  obtain ⟨hok, hcounts, -⟩ := Palloc.freePage_spec h.palloc hlt hr
  have hkeep : ∀ g, g ≠ f → (m.palloc.freePage (f * 4096)).frameRefcounts g
      = m.palloc.frameRefcounts g := by
    intro g hg
    rw [hcounts, Function.update_of_ne hg]
  refine ⟨rfl, hok, ?_, ?_, fun _ _ => rfl⟩
  · show (m.palloc.freePage (f * 4096)).frameRefcounts 0 ≠ 0
    rw [hkeep 0 (Ne.symm h0)]
    exact h.frameZero
  · intro g hg
    show (m.palloc.freePage (f * 4096)).frameRefcounts g ≠ 0
    rw [hkeep g (by rintro rfl; exact hf hg)]
    exact h.held hg

/-! ## The windows after `paging_init` -/

theorem KernelSpace.window {limit : Nat} (h : KernelSpace m limit) (hbounds : 768 ≤ lo ∧ hi ≤ 1023)
    (hwin : ∀ i, lo ≤ i → i < hi → WindowIndex i) : Window m lo hi := by
  have htab := h.tabled
  refine ⟨hbounds, htab.palloc, htab.frameZero, htab.aligned, htab.ne_zero, htab.used, ?_, ?_⟩
  · intro i hlo hhi
    obtain ⟨t, ht⟩ := (htab.slots i (by omega)).resolve_left (h.windows i (hwin i hlo hhi))
    exact ⟨t, ht.slot, ht.used, ht.ne_directory⟩
  · intro i j hi₁ hi₂ hj₁ hj₂ heq
    exact htab.apart i j (by omega) (by omega) (by omega) (by omega)
      (h.windows i (hwin i hi₁ hi₂)) heq

/-- Beyond the direct map nothing is mapped yet. -/
theorem KernelSpace.leaf_zero {limit : Nat} (h : KernelSpace m limit) (hw : Window m lo hi)
    (hp : PageIn lo hi va) (hbeyond : limit ≤ (lo - 768) * 0x400000) : m.leaf va = 0 := by
  have hb := hw.bounds
  have hlo := hp.index.1
  have hhi := hp.index.2
  rcases h.tabled.slots (va / 4194304) (by omega) with hz | ⟨t, ht⟩
  · unfold Machine.leaf leafEntry
    rw [hz]
    rfl
  have htab : m.tableOf va = t := by
    unfold Machine.tableOf
    rw [ht.slot]
    omega
  rw [hw.leaf_eq hp, htab, ht.leaves _ (Nat.mod_lt _ (by decide))]
  unfold directEntry
  refine if_neg ?_
  generalize va / 4194304 = i at hlo hhi
  generalize va / 4096 % 1024 = k
  omega

end Riverix.Memory
