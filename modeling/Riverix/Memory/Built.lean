import Riverix.Memory.SpaceOps

/-!
# Machines with user address spaces

`Built m ds pages` collects the machines the paging code can reach: a kernel
whose own mappings are closed to user mode, any number of address spaces `ds`
made by `paging_create_address_space`, and user pages taken from the allocator,
filled, shared and mapped by `paging_map_page_in`. `Built.pagesOk` gives every
such machine the roles of `SpaceOk`.
-/

namespace Riverix.Memory

open Riverix.Lib

variable {m : Machine} {ds pages : List Nat}

/-! ## The kernel before the first address space -/

/-- The kernel after `paging_init`: nothing it maps is open to user mode, and
the direct map covers every frame the allocator manages. -/
structure KernelOk (m : Machine) : Prop where
  palloc : m.palloc.Ok
  frameZero : m.palloc.frameRefcounts 0 ≠ 0
  directMap : m.palloc.firstUnusableFrame * 4096 ≤ 0x38000000
  kdir_aligned : m.kernelPageDirectoryPhys % 4096 = 0
  kdir_ne_zero : m.kernelPageDirectoryPhys ≠ 0
  kdir_used : m.palloc.frameRefcounts (m.kernelPageDirectoryPhys / 4096) ≠ 0
  closed : ∀ i < 1023, entry m.mem m.kernelPageDirectoryPhys i &&& pageUser = 0
  table_used : ∀ i < 1023, entry m.mem m.kernelPageDirectoryPhys i &&& pagePresent ≠ 0 →
    entry m.mem m.kernelPageDirectoryPhys i / 4096 ≠ 0 ∧
      m.palloc.frameRefcounts (entry m.mem m.kernelPageDirectoryPhys i / 4096) ≠ 0
  leaves : ∀ i < 1023, entry m.mem m.kernelPageDirectoryPhys i &&& pagePresent ≠ 0 →
    ∀ j < 1024,
      entry m.mem (entry m.mem m.kernelPageDirectoryPhys i / 4096 * 4096) j &&& pageUser = 0

/-- `f` holds the kernel directory or one of its tables. -/
def KernelTable (m : Machine) (f : Nat) : Prop :=
  f = m.kernelPageDirectoryPhys / 4096 ∨
    ∃ i < 1023, entry m.mem m.kernelPageDirectoryPhys i &&& pagePresent ≠ 0 ∧
      entry m.mem m.kernelPageDirectoryPhys i / 4096 = f

open Classical in
/-- The roles of the frames before any address space exists. -/
noncomputable def kernelRole (m : Machine) (f : Nat) : Role :=
  if m.palloc.frameRefcounts f = 0 then .free
  else if KernelTable m f then .kernel
  else .page

theorem KernelOk.spaceOk (h : KernelOk m) : SpaceOk (kernelRole m) m [] := by
  have hkernel : ∀ f, m.palloc.frameRefcounts f ≠ 0 → KernelTable m f →
      kernelRole m f = .kernel := by
    intro f hf hk
    simp [kernelRole, hf, hk]
  refine ⟨h.palloc, ?_, ?_, h.kdir_aligned, hkernel _ h.kdir_used (Or.inl rfl),
    ?_, by simp, by simp,
    by simp, by simp, by simp, by simp⟩
  · have hnot : ¬ KernelTable m 0 := by
      rintro (h0 | ⟨i, hi, hp, h0⟩)
      · have := h.kdir_ne_zero
        have := h.kdir_aligned
        omega
      · exact (h.table_used i hi hp).1 h0
    simp [kernelRole, h.frameZero, hnot]
  · intro f
    unfold kernelRole
    split
    next hf => simp [hf]
    next hf => split <;> simp [hf]
  · intro i hi
    exact ⟨h.closed i hi, fun hp => hkernel _ (h.table_used i hi hp).2 (Or.inr ⟨i, hi, hp, rfl⟩),
      h.leaves i hi⟩

/-! ## Building address spaces -/

/-- The machines with the user directories `ds` and the user pages `pages`
(frame numbers). -/
inductive Built : Machine → List Nat → List Nat → Prop
  | boot {m : Machine} (h : KernelOk m) : Built m [] []
  | create {m m' : Machine} {ds pages : List Nat} {d : Nat} (h : Built m ds pages)
      (hc : m.createAddressSpace = (m', d))
      (hd : d ≠ 0) : Built m' (d :: ds) pages
  | alloc {m : Machine} {ds pages : List Nat} {p' : Palloc} {a : Nat} (h : Built m ds pages)
      (ha : m.palloc.allocPage = (p', a)) (hne : a ≠ 0) : Built { m with palloc := p' } ds
        (a / 4096 :: pages)
  | retain {m : Machine} {ds pages : List Nat} {f : Nat} (h : Built m ds pages) (hf : f ∈ pages)
      (hmax : m.palloc.frameRefcounts f < 65535) :
      Built { m with palloc := (m.palloc.retainPage (f * 4096)).1 } ds pages
  | fill {m : Machine} {ds pages : List Nat} {f : Nat} (h : Built m ds pages) (hf : f ∈ pages)
      (offset : Nat) (bytes : List Byte) (hin : offset + bytes.length ≤ 4096) :
      Built { m with mem := m.mem.write (f * 4096 + offset) bytes } ds pages
  | map {m m' : Machine} {ds pages : List Nat} {d va f flags : Nat} {ok : Bool}
      (h : Built m ds pages) (hd : d ∈ ds) (hf : f ∈ pages) (hva : UserAddress va)
        (hal : va % 4096 = 0) (hflags : flags < 4096)
      (hu : flags &&& pageUser ≠ 0) (hm : m.mapPageIn d va (f * 4096) flags = (m', ok)) :
      Built m' ds pages

/-- The roles of a built machine: its pages are pages, in managed frames. -/
structure PagesOk (owner : Nat → Role) (m : Machine) (ds pages : List Nat) : Prop where
  space : SpaceOk owner m ds
  page : ∀ f ∈ pages, owner f = .page
  managed : ∀ f ∈ pages, f < m.palloc.firstUnusableFrame

/-- A step that keeps the roles in use and the managed frames keeps the pages. -/
theorem PagesOk.keep {owner owner' : Nat → Role} {m' : Machine} {ds' : List Nat}
    (h : PagesOk owner m ds pages) (hs : SpaceOk owner' m' ds')
    (hown : ∀ f, owner f ≠ .free → owner' f = owner f)
    (hfirst : m'.palloc.firstUnusableFrame = m.palloc.firstUnusableFrame) :
    PagesOk owner' m' ds' pages := by
  refine ⟨hs, fun f hf => ?_, fun f hf => ?_⟩
  · rw [hown f (by rw [h.page f hf]; simp), h.page f hf]
  · rw [hfirst]
    exact h.managed f hf

theorem Built.pagesOk (h : Built m ds pages) : ∃ owner, PagesOk owner m ds pages := by
  induction h with
  | boot h => exact ⟨_, h.spaceOk, by simp, by simp⟩
  | @create m m' ds pages d _ hc hd ih =>
    obtain ⟨owner, ih⟩ := ih
    rcases createAddressSpace_spec ih.space with hz | ⟨f, m₁, he, hcr⟩
    · rw [hz] at hc
      exact absurd (Prod.mk.inj hc).2.symm hd
    · rw [he] at hc
      obtain ⟨rfl, rfl⟩ := Prod.mk.inj hc
      exact ⟨_, ih.keep (hcr.spaceOk ih.space) (ih.space.role_taken hcr.taken) hcr.taken.first⟩
  | @alloc m ds pages p' a _ ha hne ih =>
    obtain ⟨owner, ih⟩ := ih
    obtain ⟨f, rfl, ht⟩ := Palloc.allocPage_some ih.space.palloc ha hne
    rw [Nat.mul_div_cancel f (by decide)]
    have hk := ih.keep (ih.space.alloc_page ht) (ih.space.role_taken ht) ht.first
    refine ⟨_, hk.space, fun g hg => ?_, fun g hg => ?_⟩ <;>
      rcases List.mem_cons.mp hg with rfl | hg
    · exact Function.update_self ..
    · exact hk.page g hg
    · exact ht.first ▸ ht.lt
    · exact hk.managed g hg
  | @retain m ds pages f _ hf hmax ih =>
    obtain ⟨owner, ih⟩ := ih
    have hused : m.palloc.frameRefcounts f ≠ 0 := by
      rw [Ne, ← ih.space.free_iff, ih.page f hf]
      simp
    obtain ⟨p', he, hok, href, hfirst, -⟩ :=
      Palloc.retainPage_spec ih.space.palloc (ih.managed f hf) hused hmax
    rw [he]
    refine ⟨owner, ih.keep (ih.space.frame (fun _ _ _ _ => rfl) (fun _ _ => rfl) hok
      (fun g => ?_) rfl) (fun _ _ => rfl) hfirst⟩
    show _ ↔ p'.frameRefcounts g = 0
    rw [href, ih.space.free_iff g]
    by_cases hg : g = f
    · subst hg
      rw [Function.update_self]
      omega
    · rw [Function.update_of_ne hg]
  | @fill m ds pages f _ hf offset bytes hin ih =>
    obtain ⟨owner, ih⟩ := ih
    by_cases hb : bytes = []
    · subst hb
      simp only [Store.write_nil]
      exact ⟨owner, ih⟩
    have hpos : 0 < bytes.length := List.length_pos_iff.mpr hb
    refine ⟨owner, ih.space.write_page ?_ ?_, ih.page, ih.managed⟩
    · rw [frame_add_div (by omega), ih.page f hf]
      exact id
    · rw [show (f * 4096 + offset) % 4096 = offset by omega]
      exact hin
  | @map m m' ds pages d va f flags ok _ hd hf hva hal hflags hu hm ih =>
    obtain ⟨owner, ih⟩ := ih
    rcases mapPageIn_spec ih.space hd hva hal (ih.space.palloc.frame_lt (ih.managed f hf)) hflags hu
        (ih.page f hf) with ⟨he, -⟩ | ⟨m₁, owner', he, hmap⟩ <;> rw [he] at hm <;>
      obtain ⟨rfl, -⟩ := Prod.mk.inj hm
    · exact ⟨owner, ih⟩
    · exact ⟨owner', ih.keep hmap.ok (hmap.role ih.space) hmap.first⟩

/-! ## A machine with one user page -/

/-- A kernel with an empty directory in frame 1 and six free frames. -/
def sampleKernel : Machine where
  mem := fun _ => 0
  palloc := Palloc.initial 2 6
  kernelPageDirectoryPhys := 4096

theorem sampleKernel_ok : KernelOk sampleKernel := by
  have hzero : ∀ a i, entry sampleKernel.mem a i = 0 := fun _ _ => rfl
  refine ⟨Palloc.initial_ok (by decide), by decide, by decide, by decide, by decide, by decide,
    ?_, ?_, ?_⟩
  · intro i _
    rw [hzero]
    rfl
  · intro i _ hp
    rw [hzero] at hp
    exact absurd rfl hp
  · intro i _ hp
    rw [hzero] at hp
    exact absurd rfl hp

/-- One address space, one page taken for it. -/
def samplePaged : Machine :=
  { sampleKernel.createAddressSpace.1 with
    palloc := sampleKernel.createAddressSpace.1.palloc.allocPage.1 }

/-- The page mapped writable at `USER_VIRT_BASE`. -/
def sampleMachine : Machine := (samplePaged.mapPageIn 8192 userVirtBase (3 * 4096) 7).1

theorem samplePaged_built : Built samplePaged [8192] [3] :=
  .alloc (a := 3 * 4096) (.create (d := 8192) (.boot sampleKernel_ok) rfl (by decide)) rfl
    (by decide)

theorem sampleMachine_built : Built sampleMachine [8192] [3] :=
  .map samplePaged_built (List.mem_singleton_self 8192) (List.mem_singleton_self 3)
    (by decide : UserAddress userVirtBase) (by decide) (by decide : 7 < 4096) (by decide)
    Prod.mk.eta.symm

end Riverix.Memory
