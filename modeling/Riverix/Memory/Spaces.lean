import Riverix.Memory.Paging

/-!
# Address spaces built by the paging code

`SpaceOk owner m ds` is the shape every machine keeps while the directories
`ds` are built by `paging_create_address_space` and filled by
`paging_map_page_in`. Each frame has one `Role`: free, part of the kernel's own
tables, a page directory, the page table of one directory slot, or a page. The
ghost map `owner` makes the sharing argument local: two frames with different
roles are different frames, so a store to one cannot be seen through the other.

The second half says what a lookup finds in such a space, region by region:
user pages below `USER_VIRT_LIMIT`, supervisor pages in the kernel part, and in
the recursive slot the directory's own entries.
-/

namespace Riverix.Memory

open Riverix.Lib

/-- What a frame is used for. `page` is every frame in use that is not part of
a page-table structure. -/
inductive Role
  | free
  | kernel
  | directory
  | table (directory index : Nat)
  | page
  deriving DecidableEq

/-- The frame holds translation entries. -/
def Role.IsPaging : Role → Prop
  | .free | .page => False
  | .kernel | .directory | .table _ _ => True

/-- A directory slot that `paging_create_address_space` copies from the kernel. -/
def KernelIndex (i : Nat) : Prop := i = 0 ∨ (768 ≤ i ∧ i < 1023)

/-- A leaf entry of a user page table. -/
def LeafOk (owner : Nat → Role) (e : Nat) : Prop :=
  e &&& pagePresent = 0 ∨ (e &&& pageUser ≠ 0 ∧ owner (e / 4096) = .page)

/-- A kernel directory entry: closed to user mode, and so is everything its
table maps. -/
structure KernelEntryOk (owner : Nat → Role) (mem : Store) (e : Nat) : Prop where
  closed : e &&& pageUser = 0
  role : e &&& pagePresent ≠ 0 → owner (e / 4096) = .kernel
  leaves : e &&& pagePresent ≠ 0 → ∀ j < 1024, entry mem (e / 4096 * 4096) j &&& pageUser = 0

/-- A user directory entry: empty, or a table of its own with present, writable
and user set. -/
def UserEntryOk (owner : Nat → Role) (mem : Store) (d i e : Nat) : Prop :=
  e = 0 ∨ ∃ t, e = t * 4096 + 7 ∧ owner t = .table d i ∧
    ∀ j < 1024, LeafOk owner (entry mem (t * 4096) j)

/-- The invariant of a machine with the user directories `ds`. -/
structure SpaceOk (owner : Nat → Role) (m : Machine) (ds : List Nat) : Prop where
  palloc : m.palloc.Ok
  zero : owner 0 = .page
  free_iff : ∀ f, owner f = .free ↔ m.palloc.frameRefcounts f = 0
  kdir_aligned : m.kernelPageDirectoryPhys % 4096 = 0
  kdir_owner : owner (m.kernelPageDirectoryPhys / 4096) = .kernel
  kernel_entry : ∀ i < 1023,
    KernelEntryOk owner m.mem (entry m.mem m.kernelPageDirectoryPhys i)
  dir_aligned : ∀ d ∈ ds, d % 4096 = 0
  dir_lt : ∀ d ∈ ds, d < 2 ^ 32
  dir_owner : ∀ d ∈ ds, owner (d / 4096) = .directory
  shared : ∀ d ∈ ds, ∀ i, KernelIndex i →
    entry m.mem d i = entry m.mem m.kernelPageDirectoryPhys i
  self : ∀ d ∈ ds, entry m.mem d 1023 = d + 3
  user_entry : ∀ d ∈ ds, ∀ i, 1 ≤ i → i < 768 → UserEntryOk owner m.mem d i (entry m.mem d i)

variable {owner owner' : Nat → Role} {m m' : Machine} {ds : List Nat} {d i : Nat}

/-! ## Changes that keep the invariant -/

theorem KernelIndex.lt (h : KernelIndex i) : i < 1023 := by
  rcases h with h | h <;> omega

theorem LeafOk.mono {e : Nat} (h : LeafOk owner e)
    (hown : ∀ f, owner f ≠ .free → owner' f = owner f) : LeafOk owner' e := by
  rcases h with h | ⟨hu, hp⟩
  · exact Or.inl h
  · exact Or.inr ⟨hu, by rw [hown _ (by rw [hp]; simp), hp]⟩

theorem SpaceOk.dir_ne_zero (h : SpaceOk owner m ds) (hd : d ∈ ds) : d ≠ 0 := by
  intro h0
  have := h.dir_owner d hd
  rw [h0, Nat.zero_div, h.zero] at this
  exact Role.noConfusion this

/-- Two frames of different roles are different. -/
theorem ne_of_role {f g : Nat} {r s : Role} (hf : owner f = r) (hg : owner g = s) (h : r ≠ s) :
    f ≠ g :=
  fun he => h (by rw [← hf, ← hg, he])

/-- The same for the addresses of two frames. -/
theorem addr_ne_of_role {a f : Nat} {r s : Role} (ha : owner (a / 4096) = r) (hf : owner f = s)
    (h : r ≠ s) : a ≠ f * 4096 := by
  have := ne_of_role ha hf h
  omega

/-- The update rule: a step that leaves the kernel's tables and the shared part
of every directory alone has only its user entries to account for. -/
theorem SpaceOk.update (h : SpaceOk owner m ds)
    (hown : ∀ f, owner f ≠ .free → owner' f = owner f)
    (hpalloc : m'.palloc.Ok) (hfree : ∀ f, owner' f = .free ↔ m'.palloc.frameRefcounts f = 0)
    (hkdir : m'.kernelPageDirectoryPhys = m.kernelPageDirectoryPhys)
    (hkernel : ∀ f, owner f = .kernel → ∀ j < 1024,
      entry m'.mem (f * 4096) j = entry m.mem (f * 4096) j)
    (hdir : ∀ d ∈ ds, ∀ j, KernelIndex j ∨ j = 1023 → entry m'.mem d j = entry m.mem d j)
    (huser : ∀ d ∈ ds, ∀ i, 1 ≤ i → i < 768 →
      UserEntryOk owner' m'.mem d i (entry m'.mem d i)) : SpaceOk owner' m' ds := by
  have hkeep : ∀ {f r}, owner f = r → r ≠ .free → owner' f = r := by
    intro f r hr hne
    rw [hown f (by rw [hr]; exact hne), hr]
  have hk : ∀ i < 1023,
      entry m'.mem m.kernelPageDirectoryPhys i = entry m.mem m.kernelPageDirectoryPhys i := by
    intro i hi
    have := hkernel _ h.kdir_owner i (by omega)
    rwa [Nat.div_mul_cancel (Nat.dvd_of_mod_eq_zero h.kdir_aligned)] at this
  refine ⟨hpalloc, hkeep h.zero (by simp), hfree, by rw [hkdir]; exact h.kdir_aligned,
    by rw [hkdir]; exact hkeep h.kdir_owner (by simp), ?_, h.dir_aligned, h.dir_lt,
    fun d hd => hkeep (h.dir_owner d hd) (by simp), ?_, ?_, huser⟩
  · intro i hi
    rw [hkdir, hk i hi]
    have hke := h.kernel_entry i hi
    refine ⟨hke.closed, fun hp => hkeep (hke.role hp) (by simp), fun hp j hj => ?_⟩
    rw [hkernel _ (hke.role hp) j hj]
    exact hke.leaves hp j hj
  · intro d hd i hi
    rw [hkdir, hk i hi.lt, hdir d hd i (Or.inl hi)]
    exact h.shared d hd i hi
  · intro d hd
    rw [hdir d hd 1023 (Or.inr rfl)]
    exact h.self d hd

/-- The frame rule: what happens outside the translation frames (to pages and
to frames that were free) keeps the invariant. -/
theorem SpaceOk.frame (h : SpaceOk owner m ds)
    (hent : ∀ f, (owner f).IsPaging → ∀ j < 1024,
      entry m'.mem (f * 4096) j = entry m.mem (f * 4096) j)
    (hown : ∀ f, owner f ≠ .free → owner' f = owner f)
    (hpalloc : m'.palloc.Ok) (hfree : ∀ f, owner' f = .free ↔ m'.palloc.frameRefcounts f = 0)
    (hkdir : m'.kernelPageDirectoryPhys = m.kernelPageDirectoryPhys) :
    SpaceOk owner' m' ds := by
  have hd : ∀ d ∈ ds, ∀ i < 1024, entry m'.mem d i = entry m.mem d i := by
    intro d hd i hi
    have := hent _ (by rw [h.dir_owner d hd]; trivial) i hi
    rwa [Nat.div_mul_cancel (Nat.dvd_of_mod_eq_zero (h.dir_aligned d hd))] at this
  refine h.update hown hpalloc hfree hkdir (fun f hf => hent f (by rw [hf]; trivial))
    (fun d hdm j hj => hd d hdm j (by unfold KernelIndex at hj; omega)) fun d hdm i h1 h2 => ?_
  rw [hd d hdm i (by omega)]
  rcases h.user_entry d hdm i h1 h2 with he | ⟨t, he, ht, hl⟩
  · exact Or.inl he
  · have ht' : owner' t = .table d i := by rw [hown t (by rw [ht]; simp), ht]
    refine Or.inr ⟨t, he, ht', fun j hj => ?_⟩
    rw [hent t (by rw [ht]; trivial) j hj]
    exact (hl j hj).mono hown

/-- Stores that stay inside a frame without translation entries. -/
theorem SpaceOk.write_page (h : SpaceOk owner m ds) {a : Nat} {bs : List Byte}
    (hp : ¬ (owner (a / 4096)).IsPaging) (ha : a % 4096 + bs.length ≤ 4096) :
    SpaceOk owner { m with mem := m.mem.write a bs } ds := by
  refine h.frame (fun f hf j hj => ?_) (fun _ _ => rfl) h.palloc h.free_iff rfl
  refine entry_write_other (Nat.mul_mod_left f 4096) hj ha ?_
  rw [Nat.mul_div_cancel f (by decide)]
  intro he
  rw [he] at hp
  exact hp hf

/-- Taking a free frame gives no other frame a new role. -/
theorem SpaceOk.role_taken (h : SpaceOk owner m ds) {p' : Palloc} {f : Nat} {r : Role}
    (hf : m.palloc.Taken p' f) (g : Nat) (hg : owner g ≠ .free) :
    Function.update owner f r g = owner g :=
  Function.update_of_ne (ne_of_role rfl ((h.free_iff f).mpr hf.was_free) hg) ..

theorem SpaceOk.free_iff_taken (h : SpaceOk owner m ds) {p' : Palloc} {f : Nat} {r : Role}
    (hf : m.palloc.Taken p' f) (hr : r ≠ .free) (g : Nat) :
    Function.update owner f r g = .free ↔ p'.frameRefcounts g = 0 := by
  rw [hf.refcounts]
  by_cases hg : g = f
  · subst hg; simp [hr]
  · rw [Function.update_of_ne hg, Function.update_of_ne hg]
    exact h.free_iff g

/-- A frame taken from the allocator becomes a page. -/
theorem SpaceOk.alloc_page (h : SpaceOk owner m ds) {p' : Palloc} {f : Nat}
    (hf : m.palloc.Taken p' f) :
    SpaceOk (Function.update owner f .page) { m with palloc := p' } ds :=
  h.frame (fun _ _ _ _ => rfl) (h.role_taken hf) hf.ok (h.free_iff_taken hf (by simp)) rfl

/-- A zeroed free frame linked into an empty user slot becomes the slot's table. -/
theorem SpaceOk.link_table (h : SpaceOk owner m ds) {t : Nat} {p' : Palloc} (hd : d ∈ ds)
    (h1 : 1 ≤ i) (h2 : i < 768) (ht : m.palloc.Taken p' t)
    (hzero : ∀ j < 1024, entry m.mem (t * 4096) j = 0) :
    SpaceOk (Function.update owner t (.table d i))
      { m with palloc := p', mem := setEntry m.mem d i (t * 4096 + 7) } ds := by
  have hal := h.dir_aligned d hd
  have hfree : owner t = .free := (h.free_iff t).mpr ht.was_free
  have htlt := h.palloc.frame_lt ht.lt
  -- an entry that is not slot `i` of `d` keeps its value
  have hent : ∀ a j, a % 4096 = 0 → j < 1024 → (d ≠ a ∨ i ≠ j) →
      entry (setEntry m.mem d i (t * 4096 + 7)) a j = entry m.mem a j :=
    fun a j ha hj hne => entry_setEntry_ne hal ha (by omega) hj hne
  have htab : ∀ f j, owner f ≠ .directory → j < 1024 →
      entry (setEntry m.mem d i (t * 4096 + 7)) (f * 4096) j = entry m.mem (f * 4096) j :=
    fun f j hf hj => hent _ j (Nat.mul_mod_left _ _) hj
      (Or.inl (addr_ne_of_role (h.dir_owner d hd) rfl (Ne.symm hf)))
  refine h.update (h.role_taken ht) ht.ok (h.free_iff_taken ht (by simp)) rfl
    (fun f hf j hj => htab f j (by rw [hf]; simp) hj)
    (fun d' hd' j hj => hent d' j (h.dir_aligned d' hd') (by unfold KernelIndex at hj; omega)
      (Or.inr (by unfold KernelIndex at hj; omega))) fun d' hd' i' hi1 hi2 => ?_
  show UserEntryOk _ _ _ _ (entry (setEntry _ _ _ _) _ _)
  by_cases hsame : d = d' ∧ i = i'
  · obtain ⟨rfl, rfl⟩ := hsame
    rw [entry_setEntry_same (by omega)]
    refine Or.inr ⟨t, rfl, Function.update_self .., fun j hj => Or.inl ?_⟩
    rw [htab _ j (by rw [hfree]; simp) hj, hzero j hj]
    rfl
  rw [hent _ i' (h.dir_aligned d' hd') (by omega) (not_and_or.mp hsame)]
  rcases h.user_entry d' hd' i' hi1 hi2 with he | ⟨t', he, ht', hl⟩
  · exact Or.inl he
  · refine Or.inr ⟨t', he, ?_, fun j hj => ?_⟩
    · rw [h.role_taken ht t' (by rw [ht']; simp), ht']
    · rw [htab _ j (by rw [ht']; simp) hj]
      exact (hl j hj).mono (h.role_taken ht)

/-- A leaf entry of a user table is replaced. -/
theorem SpaceOk.set_leaf (h : SpaceOk owner m ds) {t k e : Nat} (hd : d ∈ ds)
    (h1 : 1 ≤ i) (h2 : i < 768) (ht : entry m.mem d i = t * 4096 + 7) (hk : k < 1024)
    (he : e < 2 ^ 32) (hleaf : LeafOk owner e) :
    SpaceOk owner { m with mem := setEntry m.mem (t * 4096) k e } ds := by
  have hto : owner t = .table d i := by
    rcases h.user_entry d hd i h1 h2 with h0 | ⟨t', h', ho, -⟩
    · omega
    · have : t' = t := by omega
      rwa [this] at ho
  -- frames of another role than this table are untouched
  have hoff : ∀ a j, a % 4096 = 0 → owner (a / 4096) ≠ .table d i → j < 1024 →
      entry (setEntry m.mem (t * 4096) k e) a j = entry m.mem a j := fun a j ha hr hj =>
    entry_setEntry_ne (Nat.mul_mod_left _ _) ha hk hj
      (Or.inl (Ne.symm (addr_ne_of_role rfl hto hr)))
  have hdir : ∀ d' ∈ ds, ∀ j < 1024,
      entry (setEntry m.mem (t * 4096) k e) d' j = entry m.mem d' j := fun d' hd' j hj =>
    hoff d' j (h.dir_aligned d' hd') (by rw [h.dir_owner d' hd']; simp) hj
  refine h.update (fun _ _ => rfl) h.palloc h.free_iff rfl
    (fun f hf j hj => hoff _ j (Nat.mul_mod_left _ _)
      (by rw [Nat.mul_div_cancel f (by decide), hf]; simp) hj)
    (fun d' hd' j hj => hdir d' hd' j (by unfold KernelIndex at hj; omega))
    fun d' hd' i' hi1 hi2 => ?_
  show UserEntryOk _ _ _ _ (entry (setEntry _ _ _ _) _ _)
  rw [hdir d' hd' i' (by omega)]
  rcases h.user_entry d' hd' i' hi1 hi2 with h0 | ⟨t', he', ht', hl⟩
  · exact Or.inl h0
  refine Or.inr ⟨t', he', ht', fun j hj => ?_⟩
  by_cases hsame : t * 4096 = t' * 4096 ∧ k = j
  · rw [← hsame.1, ← hsame.2, entry_setEntry_same he]
    exact hleaf
  · rw [entry_setEntry_ne (Nat.mul_mod_left _ _) (Nat.mul_mod_left _ _) hk hj
      (not_and_or.mp hsame)]
    exact hl j hj

end Riverix.Memory
