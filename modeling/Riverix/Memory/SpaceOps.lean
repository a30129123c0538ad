import Riverix.Memory.Spaces

/-!
# What the paging operations do to an address space

One spec lemma for each operation of `paging.c` on a machine that meets
`SpaceOk`: `createAddressSpace_spec`, `ensureTable_spec` and `mapPageIn_spec`
say everything the operation can do, failure included, so that later files
never unfold it. What a lookup finds is `SpaceOk.leaf_user`, `leaf_kernel` and
`leaf_recursive`, one for each part of the address space.
-/

namespace Riverix.Memory

open Riverix.Lib

variable {owner : Nat → Role} {m m' : Machine} {ds : List Nat} {d i va : Nat}

/-! ## Creating an address space -/

/-- The loop that copies directory entries touches the new directory only. -/
theorem copyEntries_byte_other {t k a : Nat} (ht : t % 4096 = 0) (hne : a / 4096 ≠ t / 4096) :
    ∀ (is : List Nat) (mem : Store), (∀ i ∈ is, i < 1024) →
      is.foldl (fun mem i => setEntry mem t i (entry mem k i)) mem a = mem a
  | [], _, _ => rfl
  | i :: is, mem, his => by
    rw [List.foldl_cons, copyEntries_byte_other ht hne is _ fun x hx => his x (by simp [hx])]
    exact setEntry_byte_other ht (his i (by simp)) hne

/-- After the loop the copied slots agree with the source directory. -/
theorem copyEntries_entry {t k j : Nat} (ht : t % 4096 = 0) (hk : k % 4096 = 0) (hne : t ≠ k)
    (hj : j < 1024) :
    ∀ (is : List Nat) (mem : Store), (∀ i ∈ is, i < 1024) →
      entry (is.foldl (fun mem i => setEntry mem t i (entry mem k i)) mem) t j
        = if j ∈ is then entry mem k j else entry mem t j
  | [], _, _ => by simp
  | i :: is, mem, his => by
    have hi : i < 1024 := his i (by simp)
    rw [List.foldl_cons, copyEntries_entry ht hk hne hj is _ fun x hx => his x (by simp [hx]),
      entry_setEntry_ne ht hk hi hj (Or.inl hne)]
    by_cases hij : i = j
    · subst hij
      rw [entry_setEntry_same (entry_lt mem k i)]
      simp
    · rw [entry_setEntry_ne ht ht hi hj (Or.inr hij)]
      simp [Ne.symm hij]

theorem mem_sharedDirectoryIndices {j : Nat} :
    j ∈ Machine.sharedDirectoryIndices ↔ KernelIndex j := by
  simp only [Machine.sharedDirectoryIndices, List.mem_append, List.mem_range, List.mem_range',
    KernelIndex, kernelSharedLowDirectoryCount, directMapDirectoryIndex, recursiveDirectoryIndex]
  constructor
  · rintro (h | ⟨k, hk, rfl⟩)
    · left; omega
    · right; omega
  · rintro (h | h)
    · left; omega
    · exact Or.inr ⟨j - 768, by omega, by omega⟩

/-- What `paging_create_address_space` does to the machine. -/
structure Created (m m' : Machine) (f : Nat) : Prop where
  taken : m.palloc.Taken m'.palloc f
  kdir : m'.kernelPageDirectoryPhys = m.kernelPageDirectoryPhys
  bytes : ∀ a, a / 4096 ≠ f → m'.mem a = m.mem a
  entries : ∀ j < 1024, entry m'.mem (f * 4096) j =
    if j = 1023 then f * 4096 + 3
    else if j ∈ Machine.sharedDirectoryIndices then entry m.mem m.kernelPageDirectoryPhys j
    else 0

theorem SpaceOk.frameZero_used (h : SpaceOk owner m ds) : m.palloc.frameRefcounts 0 ≠ 0 := by
  rw [Ne, ← h.free_iff, h.zero]
  simp

/-- A failed allocation leaves the allocator as it was: frame 0 is never free. -/
theorem SpaceOk.allocPage_zero (h : SpaceOk owner m ds) {p' : Palloc}
    (ha : m.palloc.allocPage = (p', 0)) : p' = m.palloc :=
  Palloc.allocPage_none h.palloc h.frameZero_used ha

theorem createAddressSpace_spec (h : SpaceOk owner m ds) :
    m.createAddressSpace = (m, 0) ∨
      ∃ f m', m.createAddressSpace = (m', f * 4096) ∧ Created m m' f := by
  unfold Machine.createAddressSpace
  cases hc : m.palloc.allocPage with
  | mk p' a =>
    by_cases ha : a = 0
    · subst ha
      rw [h.allocPage_zero hc]
      exact Or.inl (by simp)
    obtain ⟨f, rfl, htaken⟩ := Palloc.allocPage_some h.palloc hc ha
    have hmod : f * 4096 % 4096 = 0 := Nat.mul_mod_left f 4096
    have hdiv : f * 4096 / 4096 = f := Nat.mul_div_cancel f (by decide)
    have hlt := h.palloc.frame_lt htaken.lt
    have hne : f * 4096 ≠ m.kernelPageDirectoryPhys :=
      Ne.symm (addr_ne_of_role h.kdir_owner ((h.free_iff f).mpr htaken.was_free) (by simp))
    have hidx : ∀ i ∈ Machine.sharedDirectoryIndices, i < 1024 := fun i hi => by
      have := (mem_sharedDirectoryIndices.mp hi).lt
      omega
    dsimp only
    rw [if_neg ha]
    refine Or.inr ⟨f, _, rfl, htaken, rfl, ?_, ?_⟩
    · intro a hfa
      show setEntry _ _ _ _ a = _
      rw [setEntry_byte_other hmod (by decide) (by rwa [hdiv]),
        copyEntries_byte_other hmod (by rwa [hdiv]) _ _ hidx,
        zeroPage_byte_other hmod (by rwa [hdiv])]
    · intro j hj
      show entry (setEntry _ _ _ _) _ _ = _
      rw [show f * 4096 ||| pageFlags = f * 4096 + 3 from frame_or_flags f (by decide)]
      by_cases hj' : j = 1023
      · subst hj'
        rw [if_pos rfl, entry_setEntry_same (by omega)]
      · rw [if_neg hj', entry_setEntry_ne hmod hmod (by decide) hj (Or.inr (Ne.symm hj')),
          copyEntries_entry hmod h.kdir_aligned hne hj _ _ hidx, entry_zeroPage hj,
          entry_zeroPage_other hmod h.kdir_aligned hj hne]

/-- The new directory joins the address spaces of the machine. -/
theorem Created.spaceOk {f : Nat} (hc : Created m m' f) (h : SpaceOk owner m ds) :
    SpaceOk (Function.update owner f .directory) m' (f * 4096 :: ds) := by
  have hfree : owner f = .free := (h.free_iff f).mpr hc.taken.was_free
  have hdiv : f * 4096 / 4096 = f := Nat.mul_div_cancel f (by decide)
  have hlt := h.palloc.frame_lt hc.taken.lt
  have hold : SpaceOk (Function.update owner f .directory) m' ds := by
    refine h.frame ?_ (h.role_taken hc.taken) hc.taken.ok (h.free_iff_taken hc.taken (by simp))
      hc.kdir
    intro g hg j hj
    refine entry_congr_frame hj fun a ha => hc.bytes a ?_
    rintro rfl
    rw [← ha, hfree] at hg
    exact hg
  have hkd : ∀ j < 1024, entry m'.mem m'.kernelPageDirectoryPhys j
      = entry m.mem m.kernelPageDirectoryPhys j := by
    intro j hj
    have hk : m.kernelPageDirectoryPhys / 4096 * 4096 = m.kernelPageDirectoryPhys := by
      have := h.kdir_aligned
      omega
    rw [hc.kdir, ← hk]
    refine entry_congr_frame hj fun a ha => hc.bytes a ?_
    rw [ha]
    exact ne_of_role h.kdir_owner hfree (by simp)
  refine ⟨hold.palloc, hold.zero, hold.free_iff, hold.kdir_aligned, hold.kdir_owner,
    hold.kernel_entry, ?_, ?_, ?_, ?_, ?_, ?_⟩ <;> intro d hd <;>
    rcases List.mem_cons.mp hd with rfl | hd
  · exact Nat.mul_mod_left f 4096
  · exact hold.dir_aligned d hd
  · omega
  · exact hold.dir_lt d hd
  · rw [hdiv, Function.update_self]
  · exact hold.dir_owner d hd
  · intro i hi
    have hi' := hi.lt
    rw [hc.entries i (by omega), if_neg (by omega), if_pos (mem_sharedDirectoryIndices.mpr hi),
      hkd i (by omega)]
  · exact hold.shared d hd
  · rw [hc.entries 1023 (by omega), if_pos rfl]
  · exact hold.self d hd
  · intro i h1 h2
    refine Or.inl ?_
    rw [hc.entries i (by omega), if_neg (by omega), if_neg]
    rw [mem_sharedDirectoryIndices]
    rintro (hi | hi) <;> omega
  · exact hold.user_entry d hd

/-! ## Walking the tables -/

/-- The leaf entry the two-level walk ends in, 0 where the directory has none. -/
def leafEntry (mem : Store) (d va : Nat) : Nat :=
  if entry mem d (va / 4194304) &&& pagePresent = 0 then 0
  else entry mem (entry mem d (va / 4194304) / 4096 * 4096) (va / 4096 % 1024)

/-- The walk depends on the page only. -/
theorem leafEntry_page (mem : Store) (d va : Nat) :
    leafEntry mem d (va / 4096 * 4096) = leafEntry mem d va := by
  unfold leafEntry
  rw [show va / 4096 * 4096 / 4194304 = va / 4194304 by omega,
    show va / 4096 * 4096 / 4096 % 1024 = va / 4096 % 1024 by omega]

/-- A lookup is the leaf entry taken apart. -/
theorem lookupPageIn_eq (hd : d ≠ 0) :
    m.lookupPageIn d va =
      if leafEntry m.mem d va &&& pagePresent = 0 then none
      else some (leafEntry m.mem d va / 4096 * 4096, leafEntry m.mem d va % 4096) := by
  unfold Machine.lookupPageIn leafEntry tableFromEntry
  simp only [if_neg hd, pageDirectoryIndex_eq, pageTableIndex_eq]
  split
  · rfl
  · rw [frameMask_eq (entry_lt ..)]
    split
    · rfl
    · rw [frameMask_eq (entry_lt ..), flagMask_eq]

/-- An address inside the user range. -/
def UserAddress (va : Nat) : Prop := userVirtBase ≤ va ∧ va < userVirtLimit

instance (va : Nat) : Decidable (UserAddress va) := inferInstanceAs (Decidable (_ ∧ _))

theorem UserAddress.index (h : UserAddress va) : 1 ≤ va / 4194304 ∧ va / 4194304 < 768 := by
  simp only [UserAddress, userVirtBase, userVirtLimit] at h
  omega

theorem present_seven (t : Nat) : (t * 4096 + 7) &&& pagePresent ≠ 0 := by
  rw [and_flag_mod _ (by decide), show (t * 4096 + 7) % 4096 = 7 by omega]
  decide

/-- In the user range the walk goes through the table of the slot. -/
theorem leafEntry_of_table {t : Nat} (ht : entry m.mem d (va / 4194304) = t * 4096 + 7) :
    leafEntry m.mem d va = entry m.mem (t * 4096) (va / 4096 % 1024) := by
  unfold leafEntry
  rw [ht, if_neg (present_seven t), show (t * 4096 + 7) / 4096 * 4096 = t * 4096 by omega]

theorem leafEntry_of_empty (ht : entry m.mem d (va / 4194304) = 0) :
    leafEntry m.mem d va = 0 := by
  unfold leafEntry
  rw [ht]
  rfl

/-- User range: a leaf is absent or a user page. -/
theorem SpaceOk.leaf_user (h : SpaceOk owner m ds) (hd : d ∈ ds) (hva : UserAddress va) :
    LeafOk owner (leafEntry m.mem d va) := by
  obtain ⟨h1, h2⟩ := hva.index
  rcases h.user_entry d hd _ h1 h2 with he | ⟨t, he, -, hl⟩
  · rw [leafEntry_of_empty he]
    exact Or.inl rfl
  · rw [leafEntry_of_table he]
    exact hl _ (by omega)

/-- Kernel part: no leaf is open to user mode. -/
theorem SpaceOk.leaf_kernel (h : SpaceOk owner m ds) (hd : d ∈ ds) (hlt : va < 0xFFC00000)
    (hva : ¬ UserAddress va) : leafEntry m.mem d va &&& pageUser = 0 := by
  have hk : KernelIndex (va / 4194304) := by
    simp only [UserAddress, userVirtBase, userVirtLimit] at hva
    unfold KernelIndex
    omega
  have hke := h.kernel_entry _ hk.lt
  unfold leafEntry
  rw [h.shared d hd _ hk]
  split
  · rfl
  next hp => exact hke.leaves hp _ (by omega)

/-- Recursive slot: the walk ends in the directory itself, so its "leaf
entries" are the directory entries. -/
theorem SpaceOk.leaf_recursive (h : SpaceOk owner m ds) (hd : d ∈ ds) (hge : 0xFFC00000 ≤ va)
    (hlt : va < 2 ^ 32) : leafEntry m.mem d va = entry m.mem d (va / 4096 % 1024) := by
  have hi : va / 4194304 = 1023 := by omega
  have hal := h.dir_aligned d hd
  have hpres : (d + 3) &&& pagePresent ≠ 0 := by
    rw [and_flag_mod _ (by decide), show (d + 3) % 4096 = 3 by omega]
    decide
  unfold leafEntry
  rw [hi, h.self d hd, if_neg hpres, show (d + 3) / 4096 * 4096 = d by omega]

/-! ## Mapping a page -/

/-- `paging_map_page_in` gave slot `i` of directory `d` the new table `t`. -/
structure TableAdded (m m' : Machine) (d i t : Nat) : Prop where
  empty : entry m.mem d i = 0
  taken : m.palloc.Taken m'.palloc t
  kdir : m'.kernelPageDirectoryPhys = m.kernelPageDirectoryPhys
  mem : m'.mem = setEntry (zeroPage m.mem (t * 4096)) d i (t * 4096 + 7)

/-- What the directory-entry step of `paging_map_page_in` does in a user slot. -/
theorem ensureTable_spec (h : SpaceOk owner m ds) (hd : d ∈ ds) (h1 : 1 ≤ i) (h2 : i < 768)
    {flags : Nat} (hu : flags &&& pageUser ≠ 0) :
    (m.ensureTable d i flags = (m, false) ∧ entry m.mem d i = 0 ∧ m.palloc.allocPage.2 = 0) ∨
    (∃ t, entry m.mem d i = t * 4096 + 7 ∧ m.ensureTable d i flags = (m, true)) ∨
    ∃ t m', m.ensureTable d i flags = (m', true) ∧ TableAdded m m' d i t := by
  unfold Machine.ensureTable
  rcases h.user_entry d hd i h1 h2 with he | ⟨t, he, -, -⟩
  · simp only [he, Nat.zero_and, if_true]
    cases hc : m.palloc.allocPage with
    | mk p' a =>
      by_cases ha : a = 0
      · subst ha
        rw [h.allocPage_zero hc]
        exact Or.inl (by simp)
      · obtain ⟨t, rfl, htaken⟩ := Palloc.allocPage_some h.palloc hc ha
        rw [if_neg ha, if_pos hu, show t * 4096 ||| (pageFlags ||| pageUser) = t * 4096 + 7 from
          frame_or_flags t (by decide)]
        exact Or.inr (Or.inr ⟨t, _, rfl, he, htaken, rfl, rfl⟩)
  have hup : (t * 4096 + 7) &&& pageUser ≠ 0 := by
    rw [and_flag_mod _ (by decide), show (t * 4096 + 7) % 4096 = 7 by omega]
    decide
  refine Or.inr (Or.inl ⟨t, he, ?_⟩)
  simp only [he]
  rw [if_neg (present_seven t), if_neg (fun hc => hup hc.2)]

section Link

variable {t : Nat}

/-- Only the directory and the new table change. -/
theorem TableAdded.byte_other (ha : TableAdded m m' d i t) (hal : d % 4096 = 0) (hi : i < 1024)
    {a : Nat} (hd : a / 4096 ≠ d / 4096) (ht : a / 4096 ≠ t) : m'.mem a = m.mem a := by
  rw [ha.mem, setEntry_byte_other hal hi hd,
    zeroPage_byte_other (Nat.mul_mod_left t 4096) (by rwa [Nat.mul_div_cancel t (by decide)])]

theorem TableAdded.spaceOk (ha : TableAdded m m' d i t) (h : SpaceOk owner m ds) (hd : d ∈ ds)
    (h1 : 1 ≤ i) (h2 : i < 768) : SpaceOk (Function.update owner t (.table d i)) m' ds := by
  have hfree : owner t = .free := (h.free_iff t).mpr ha.taken.was_free
  have hz : SpaceOk owner { m with mem := zeroPage m.mem (t * 4096) } ds := by
    refine h.write_page ?_ (by rw [List.length_replicate]; omega)
    rw [Nat.mul_div_cancel t (by decide), hfree]
    exact id
  have hlink := hz.link_table hd h1 h2 ha.taken fun j hj => entry_zeroPage hj
  have hm : m' = { m with palloc := m'.palloc, mem := m'.mem } := by
    cases m'
    simp [← ha.kdir]
  rw [hm, ha.mem]
  exact hlink

/-- An empty table in place of an empty slot changes no leaf. -/
theorem TableAdded.leaf (ha : TableAdded m m' d i t) (h : SpaceOk owner m ds) (hd : d ∈ ds)
    (hi : i < 768) {d' : Nat} (hd' : d' ∈ ds) (hva : UserAddress va) :
    leafEntry m'.mem d' va = leafEntry m.mem d' va := by
  have hfree : owner t = .free := (h.free_iff t).mpr ha.taken.was_free
  have hal := h.dir_aligned d hd
  have htal : t * 4096 % 4096 = 0 := Nat.mul_mod_left t 4096
  have hdt : d ≠ t * 4096 := addr_ne_of_role (h.dir_owner d hd) hfree (by simp)
  have hlt := h.palloc.frame_lt ha.taken.lt
  obtain ⟨h1, h2⟩ := hva.index
  by_cases hs : d = d' ∧ i = va / 4194304
  · obtain ⟨rfl, hi'⟩ := hs
    have hnew : entry m'.mem d (va / 4194304) = t * 4096 + 7 := by
      rw [ha.mem, ← hi', entry_setEntry_same (by omega)]
    rw [leafEntry_of_table hnew, leafEntry_of_empty (by rw [← hi']; exact ha.empty), ha.mem,
      entry_setEntry_ne hal htal (by omega) (by omega) (Or.inl hdt), entry_zeroPage (by omega)]
  have hsame : entry m'.mem d' (va / 4194304) = entry m.mem d' (va / 4194304) := by
    have hal' := h.dir_aligned d' hd'
    rw [ha.mem, entry_setEntry_ne hal hal' (by omega) (by omega) (not_and_or.mp hs),
      entry_zeroPage_other htal hal' (by omega)
        (Ne.symm (addr_ne_of_role (h.dir_owner d' hd') hfree (by simp)))]
  rcases h.user_entry d' hd' _ h1 h2 with he | ⟨t', he, ho, -⟩
  · rw [leafEntry_of_empty he, leafEntry_of_empty (hsame.trans he)]
  · rw [leafEntry_of_table he, leafEntry_of_table (hsame.trans he)]
    refine entry_congr_frame (by omega) fun a hat => ha.byte_other hal (by omega) ?_ ?_
    · rw [hat]; exact ne_of_role ho (h.dir_owner d hd) (by simp)
    · rw [hat]; exact ne_of_role ho hfree (by simp)

end Link

/-- Replacing a leaf entry changes the walk of that page only. -/
theorem SpaceOk.leaf_set_leaf (h : SpaceOk owner m ds) {t e : Nat} (hd : d ∈ ds)
    (hva : UserAddress va) (ht : entry m.mem d (va / 4194304) = t * 4096 + 7) (he : e < 2 ^ 32)
    {d' va' : Nat} (hd' : d' ∈ ds) (hva' : UserAddress va') :
    leafEntry (setEntry m.mem (t * 4096) (va / 4096 % 1024) e) d' va' =
      if d' = d ∧ va' / 4096 = va / 4096 then e else leafEntry m.mem d' va' := by
  obtain ⟨h1, h2⟩ := hva.index
  obtain ⟨h1', h2'⟩ := hva'.index
  have hto : owner t = .table d (va / 4194304) := by
    rcases h.user_entry d hd _ h1 h2 with h0 | ⟨t', h', ho, -⟩
    · omega
    · rwa [show t' = t by omega] at ho
  have htal : t * 4096 % 4096 = 0 := Nat.mul_mod_left t 4096
  have hdir : entry (setEntry m.mem (t * 4096) (va / 4096 % 1024) e) d' (va' / 4194304)
      = entry m.mem d' (va' / 4194304) :=
    entry_setEntry_ne htal (h.dir_aligned d' hd') (by omega) (by omega)
      (Or.inl (Ne.symm (addr_ne_of_role (h.dir_owner d' hd') hto (by simp))))
  rcases h.user_entry d' hd' _ h1' h2' with h0 | ⟨t', ht', ho', -⟩
  · have hne : ¬ (d' = d ∧ va' / 4096 = va / 4096) := by
      rintro ⟨rfl, hv⟩
      rw [show va' / 4194304 = va / 4194304 by omega] at h0
      omega
    rw [if_neg hne, leafEntry_of_empty h0]
    unfold leafEntry
    rw [hdir, h0]
    rfl
  have hl : leafEntry (setEntry m.mem (t * 4096) (va / 4096 % 1024) e) d' va'
      = entry (setEntry m.mem (t * 4096) (va / 4096 % 1024) e) (t' * 4096)
          (va' / 4096 % 1024) :=
    leafEntry_of_table (m := { m with mem := setEntry m.mem (t * 4096) _ e }) (hdir.trans ht')
  rw [hl, leafEntry_of_table ht']
  by_cases hc : d' = d ∧ va' / 4096 = va / 4096
  · obtain ⟨rfl, hv⟩ := hc
    have htt : t' = t := by
      rw [show va' / 4194304 = va / 4194304 by omega] at ht'
      omega
    rw [if_pos ⟨rfl, hv⟩, htt, hv, entry_setEntry_same he]
  rw [if_neg hc]
  refine entry_setEntry_ne htal (Nat.mul_mod_left _ _) (by omega) (by omega) ?_
  by_cases htt : t = t'
  · -- the same table belongs to one directory slot
    rw [← htt, hto] at ho'
    injection ho' with hdd hii
    right
    intro hj
    exact hc ⟨hdd.symm, by omega⟩
  · left; omega

/-- The effect of a successful `paging_map_page_in`: the leaf entry `e` at the
page of `va`, possibly in a table allocated for it, and nothing else. -/
structure Mapped (owner owner' : Nat → Role) (m m' : Machine) (ds : List Nat) (d va e : Nat) :
    Prop where
  ok : SpaceOk owner' m' ds
  kdir : m'.kernelPageDirectoryPhys = m.kernelPageDirectoryPhys
  leaf : ∀ d' ∈ ds, ∀ va', UserAddress va' → leafEntry m'.mem d' va' =
    if d' = d ∧ va' / 4096 = va / 4096 then e else leafEntry m.mem d' va'
  page_bytes : ∀ a, owner (a / 4096) = .page → m'.mem a = m.mem a
  frames : (owner' = owner ∧ m'.palloc = m.palloc) ∨
    ∃ t, owner' = Function.update owner t (.table d (va / 4194304)) ∧
      entry m.mem d (va / 4194304) = 0 ∧ m.palloc.Taken m'.palloc t

theorem or_present_lt {flags : Nat} (h : flags < 4096) : flags ||| pagePresent < 4096 :=
  Nat.or_lt_two_pow (n := 12) h (by decide)

theorem mapPageIn_spec (h : SpaceOk owner m ds) (hd : d ∈ ds) (hva : UserAddress va)
    (hal : va % 4096 = 0) {f flags : Nat} (hf : f < 2 ^ 20) (hfl : flags < 4096)
    (hu : flags &&& pageUser ≠ 0) (hpage : owner f = .page) :
    (m.mapPageIn d va (f * 4096) flags = (m, false) ∧ entry m.mem d (va / 4194304) = 0 ∧
      m.palloc.allocPage.2 = 0) ∨
    ∃ m' owner', m.mapPageIn d va (f * 4096) flags = (m', true) ∧
      Mapped owner owner' m m' ds d va (f * 4096 + (flags ||| pagePresent)) := by
  obtain ⟨h1, h2⟩ := hva.index
  have hfp := or_present_lt hfl
  have hor : f * 4096 ||| (flags ||| pagePresent) = f * 4096 + (flags ||| pagePresent) :=
    frame_or_flags f hfp
  have hleaf : ∀ {o : Nat → Role}, o f = .page →
      LeafOk o (f * 4096 + (flags ||| pagePresent)) := by
    intro o ho
    refine Or.inr ⟨?_, by rwa [show (f * 4096 + (flags ||| pagePresent)) / 4096 = f by omega]⟩
    rw [and_flag_mod _ (by decide),
      show (f * 4096 + (flags ||| pagePresent)) % 4096 = flags ||| pagePresent by omega,
      Nat.and_or_distrib_right]
    simpa using fun hz => absurd hz hu
  have htfe : ∀ t, tableFromEntry (t * 4096 + 7) = t * 4096 ∨ 2 ^ 32 ≤ t * 4096 + 7 := by
    intro t
    by_cases hlt : t * 4096 + 7 < 2 ^ 32
    · left
      unfold tableFromEntry
      rw [frameMask_eq hlt]
      omega
    · exact Or.inr (by omega)
  unfold Machine.mapPageIn
  rw [if_neg (by rw [offsetMask_eq, offsetMask_eq]; omega), if_neg (h.dir_ne_zero hd)]
  simp only [pageDirectoryIndex_eq, pageTableIndex_eq, hor]
  rcases ensureTable_spec h hd h1 h2 hu with ⟨he, hz⟩ | ⟨t, ht, he⟩ | ⟨t, m₁, he, ha⟩
  · rw [he]
    exact Or.inl ⟨rfl, hz⟩
  · rw [he]
    have ht' : tableFromEntry (t * 4096 + 7) = t * 4096 :=
      (htfe t).resolve_right (by have := entry_lt m.mem d (va / 4194304); omega)
    refine Or.inr ⟨_, owner, rfl, ?_, rfl, ?_, ?_, Or.inl ⟨rfl, rfl⟩⟩ <;> simp only [ht, ht']
    · exact h.set_leaf hd h1 h2 ht (by omega) (by omega) (hleaf hpage)
    · intro d' hd' va' hva'
      exact h.leaf_set_leaf hd hva ht (by omega) hd' hva'
    · intro a ha
      refine setEntry_byte_other (Nat.mul_mod_left _ _) (by omega) ?_
      rw [Nat.mul_div_cancel t (by decide)]
      rcases h.user_entry d hd _ h1 h2 with h0 | ⟨t', h', ho, -⟩
      · omega
      · rw [show t' = t by omega] at ho
        exact ne_of_role ha ho (by simp)
  rw [he]
  have hlt := h.palloc.frame_lt ha.taken.lt
  have hok := ha.spaceOk h hd h1 h2
  have hfree : owner t = .free := (h.free_iff t).mpr ha.taken.was_free
  have ht : entry m₁.mem d (va / 4194304) = t * 4096 + 7 := by
    rw [ha.mem, entry_setEntry_same (by omega)]
  have ht' : tableFromEntry (t * 4096 + 7) = t * 4096 := (htfe t).resolve_right (by omega)
  refine Or.inr ⟨_, _, rfl, ?_, ha.kdir, ?_, ?_, Or.inr ⟨t, rfl, ha.empty, ha.taken⟩⟩ <;>
    simp only [ht, ht']
  · refine hok.set_leaf hd h1 h2 ht (by omega) (by omega) (hleaf ?_)
    rw [h.role_taken ha.taken f (by rw [hpage]; simp), hpage]
  · intro d' hd' va' hva'
    rw [hok.leaf_set_leaf hd hva ht (by omega) hd' hva', ha.leaf h hd h2 hd' hva']
  · intro a hpa
    rw [setEntry_byte_other (Nat.mul_mod_left _ _) (by omega)
      (by rw [Nat.mul_div_cancel t (by decide)]; exact ne_of_role hpa hfree (by simp))]
    exact ha.byte_other (h.dir_aligned d hd) (by omega)
      (ne_of_role hpa (h.dir_owner d hd) (by simp)) (ne_of_role hpa hfree (by simp))

/-- Mapping a page gives no frame in use a new role. -/
theorem Mapped.role {owner' : Nat → Role} {e : Nat} (hm : Mapped owner owner' m m' ds d va e)
    (h : SpaceOk owner m ds) (f : Nat) (hf : owner f ≠ .free) : owner' f = owner f := by
  rcases hm.frames with ⟨rfl, -⟩ | ⟨t, rfl, -, ht⟩
  · rfl
  · exact h.role_taken ht f hf

theorem Mapped.first {owner' : Nat → Role} {e : Nat} (hm : Mapped owner owner' m m' ds d va e) :
    m'.palloc.firstUnusableFrame = m.palloc.firstUnusableFrame := by
  rcases hm.frames with ⟨-, hp⟩ | ⟨t, -, -, ht⟩
  · rw [hp]
  · exact ht.first

end Riverix.Memory
