import Riverix.Memory.Built
import Riverix.Memory.UserCopy

/-!
# How far a user-supplied address reaches

A system call passes addresses to `user_copy_from_in` and `user_copy_to_in`
unchecked. `Confined` is what the copies should keep to on a machine that is
`Built`: the bytes of user pages in the user range.

The copy loops check the leaf entry of each page and not the address. Below the
recursive slot that is enough: a run that starts in the user range stops at
`USER_VIRT_LIMIT`, and every other run stops before its first access. In the
recursive slot the leaf entries are the directory entries, which are open to
user mode wherever a user page table exists, so a copy there goes straight to
the page table. **`userCopy_confined_iff`** gives the exact boundary.
-/

namespace Riverix.Memory

open Riverix.Lib

variable {owner : Nat → Role} {m m' : Machine} {ds pages : List Nat} {d va : Nat}

/-! ## Staying inside the user pages -/

/-- `va` lies in the user range and the directory maps it, as a user page, to
the byte `pa`. -/
def UserMapped (m : Machine) (d va pa : Nat) : Prop :=
  UserAddress va ∧ ∃ page flags, m.lookupPageIn d va = some (page, flags) ∧
    flags &&& pageUser ≠ 0 ∧ pa = page + va % 4096

/-- `f` holds a page directory or a page table, of the kernel or of a user
address space. -/
def PagingFrame (m : Machine) (ds : List Nat) (f : Nat) : Prop :=
  KernelTable m f ∨ ∃ d ∈ ds, f = d / 4096 ∨
    ∃ i < 1023, entry m.mem d i &&& pagePresent ≠ 0 ∧ entry m.mem d i / 4096 = f

/-- The accesses of a copy of `length` bytes at `address` stay inside user
pages, and the copy only succeeds where all of its range is user pages. -/
structure Confined (m : Machine) (ds : List Nat) (d address length : Nat) (ok : Bool)
    (touched : List Access) : Prop where
  inside : ∀ x ∈ touched, ∀ k < x.length, UserMapped m d (x.va + k) (x.pa + k)
  apart : ∀ x ∈ touched, ∀ k < x.length, ¬ PagingFrame m ds ((x.pa + k) / 4096)
  refused : ok = true → ∀ k < length, ∃ pa, UserMapped m d ((address + k) % 2 ^ 32) pa

/-- A frame with the role of a page is no translation frame. -/
theorem SpaceOk.not_pagingFrame (h : SpaceOk owner m ds) {f : Nat} (hf : owner f = .page) :
    ¬ PagingFrame m ds f := by
  rintro ((rfl | ⟨i, hi, hp, rfl⟩) | ⟨d, hd, rfl | ⟨i, hi, hp, rfl⟩⟩)
  · rw [h.kdir_owner] at hf; exact Role.noConfusion hf
  · rw [(h.kernel_entry i hi).role hp] at hf; exact Role.noConfusion hf
  · rw [h.dir_owner d hd] at hf; exact Role.noConfusion hf
  by_cases hk : KernelIndex i
  · rw [h.shared d hd i hk] at hp hf
    rw [(h.kernel_entry i hi).role hp] at hf
    exact Role.noConfusion hf
  have hi1 : 1 ≤ i ∧ i < 768 := by unfold KernelIndex at hk; omega
  rcases h.user_entry d hd i hi1.1 hi1.2 with h0 | ⟨t, he, ho, -⟩
  · rw [h0] at hp; exact hp rfl
  · rw [he, show (t * 4096 + 7) / 4096 = t by omega, ho] at hf
    exact Role.noConfusion hf

theorem leafEntry_same_page {mem : Store} {a b : Nat} (h : a / 4096 = b / 4096) :
    leafEntry mem d a = leafEntry mem d b := by
  rw [← leafEntry_page mem d a, ← leafEntry_page mem d b, h]

theorem UserAddress.same_page {a b : Nat} (ha : UserAddress a) (h : b / 4096 = a / 4096) :
    UserAddress b := by
  simp only [UserAddress, userVirtBase, userVirtLimit] at ha ⊢
  omega

/-- Every byte of the page of `va` is mapped when its leaf is present and open
to user mode. -/
theorem userMapped_of_leaf {e k : Nat} (hd : d ≠ 0) (hva : UserAddress va)
    (hl : leafEntry m.mem d va = e) (hp : e &&& pagePresent ≠ 0) (hu : e &&& pageUser ≠ 0)
    (hk : va % 4096 + k < 4096) :
    UserMapped m d (va + k) (e / 4096 * 4096 + va % 4096 + k) := by
  have hpage : (va + k) / 4096 = va / 4096 := by omega
  refine ⟨hva.same_page hpage, e / 4096 * 4096, e % 4096, ?_, ?_, by omega⟩
  · rw [lookupPageIn_eq hd, leafEntry_same_page hpage, hl, if_neg hp]
  · rwa [← and_flag_mod _ (by decide : pageUser < 4096)]

/-! ## Reading -/

/-- Below the recursive slot every access of the read loop is to a user page,
and the loop gets to the end only through user pages. -/
theorem copyFromLoop_confined (h : SpaceOk owner m ds) (hd : d ∈ ds) (source length : Nat) :
    ∀ copied, (source + copied) % 2 ^ 32 < 0xFFC00000 →
      (∀ x ∈ (m.copyFromLoop d source length copied).touched, ∀ k < x.length,
        UserMapped m d (x.va + k) (x.pa + k) ∧ owner ((x.pa + k) / 4096) = .page) ∧
      ((m.copyFromLoop d source length copied).ok = true → ∀ k, copied ≤ k → k < length →
        ∃ pa, UserMapped m d ((source + k) % 2 ^ 32) pa) := by
  have hd0 := h.dir_ne_zero hd
  intro copied
  fun_induction Machine.copyFromLoop m d source length copied with
  | case1 copied hlt va hn => intro _; simp
  | case2 copied hlt va page flags hl hu => intro _; simp
  | case3 copied hlt va page flags hl hu offset chunk rest ih =>
    intro hva
    rw [lookupPageIn_eq hd0] at hl
    by_cases hp : leafEntry m.mem d va &&& pagePresent = 0
    · rw [if_pos hp] at hl
      simp at hl
    rw [if_neg hp] at hl
    obtain ⟨rfl, rfl⟩ := Prod.mk.inj (Option.some.inj hl)
    rw [← and_flag_mod _ (by decide : pageUser < 4096)] at hu
    have huser : UserAddress va := by
      by_contra hnot
      exact hu (h.leaf_kernel hd hva hnot)
    have hpage := (h.leaf_page hd huser hp).2
    have hmapped : ∀ k, va % 4096 + k < 4096 →
        UserMapped m d (va + k) (leafEntry m.mem d va / 4096 * 4096 + va % 4096 + k) :=
      fun k hk => userMapped_of_leaf hd0 huser rfl hp hu hk
    have hlimit : va < 0xC0000000 := huser.2
    have hnext : (source + (copied + chunk)) % 2 ^ 32 < 0xFFC00000 := by omega
    obtain ⟨ih1, ih2⟩ := ih hnext
    constructor
    · intro x hx k hk
      rcases List.mem_cons.mp hx with rfl | hx
      · have hk : k < chunk := hk
        refine ⟨hmapped k (by omega), ?_⟩
        show owner ((leafEntry m.mem d va / 4096 * 4096 + va % 4096 + k) / 4096) = .page
        rw [Nat.add_assoc, frame_add_div (by omega)]
        exact hpage
      · exact ih1 x hx k hk
    · intro hok k hk1 hk2
      by_cases hin : k < copied + chunk
      · have hka : (source + k) % 2 ^ 32 = va + (k - copied) := by omega
        rw [hka]
        exact ⟨_, hmapped (k - copied) (by omega)⟩
      · exact ih2 hok k (by omega) hk2
  | case4 copied hlt =>
    intro _
    refine ⟨by simp, fun _ k hk1 hk2 => ?_⟩
    omega

/-! ## Writing -/

/-- The page the write loop is about to store to, in the machine the lookup
left behind. -/
structure Prepared (owner owner' : Nat → Role) (m m' : Machine) (ds : List Nat) (d va e : Nat) :
    Prop where
  space : SpaceOk owner' m' ds
  role : ∀ f, owner f = .page → owner' f = .page
  leaf : leafEntry m'.mem d va = e
  present : e &&& pagePresent ≠ 0
  user : e &&& pageUser ≠ 0
  page : owner' (e / 4096) = .page
  others : ∀ va', UserAddress va' → va' / 4096 ≠ va / 4096 →
    leafEntry m'.mem d va' = leafEntry m.mem d va'

theorem writablePage_prepared (h : SpaceOk owner m ds) (hd : d ∈ ds) (hva : UserAddress va) :
    m.writablePage d va = (m, none) ∨
      ∃ m' owner' e, m.writablePage d va = (m', some (e / 4096 * 4096)) ∧
        Prepared owner owner' m m' ds d va e := by
  have hd0 := h.dir_ne_zero hd
  unfold Machine.writablePage
  rw [lookupPageIn_eq hd0]
  by_cases hp : leafEntry m.mem d va &&& pagePresent = 0
  · rw [if_pos hp]
    exact Or.inl rfl
  obtain ⟨hu, hpage⟩ := h.leaf_page hd hva hp
  rw [if_neg hp]
  dsimp only
  rw [← and_flag_mod _ (by decide : pageUser < 4096), if_neg hu,
    ← and_flag_mod _ (by decide : pageWritable < 4096),
    ← and_flag_mod _ (by decide : pageCopyOnWrite < 4096)]
  by_cases hw : leafEntry m.mem d va &&& pageWritable = 0
  · rw [if_pos hw]
    split
    · exact Or.inl rfl
    rcases resolveCopyOnWriteIn_spec h hd hva with he | ⟨owner', f, m', he, hr, -, -⟩
    · rw [he]
      exact Or.inl rfl
    have hl := hr.leaf d hd va hva
    rw [if_pos ⟨rfl, rfl⟩] at hl
    obtain ⟨hlk, hfl⟩ := lookup_resolved hd0 hu hl
    rw [he]
    dsimp only
    rw [hlk]
    dsimp only
    rw [if_neg hfl]
    refine Or.inr ⟨m', owner', _, ?_, hr.ok, hr.pages, hl, resolvedEntry_present _ _,
      resolvedEntry_user _ hu, ?_, fun va' hva' hne => ?_⟩
    · rw [resolvedEntry_div]
    · rw [resolvedEntry_div]
      exact hr.frame
    · rw [hr.leaf d hd va' hva', if_neg fun hc => hne hc.2]
  · rw [if_neg hw]
    exact Or.inr ⟨m, owner, _, rfl, h, fun _ hf => hf, rfl, hp, hu, hpage, fun _ _ _ => rfl⟩

/-- A leaf that is absent or closed to user mode is refused before anything
happens. -/
theorem writablePage_closed (hd : d ≠ 0) (hc : leafEntry m.mem d va &&& pagePresent = 0 ∨
    leafEntry m.mem d va &&& pageUser = 0) : m.writablePage d va = (m, none) := by
  unfold Machine.writablePage
  rw [lookupPageIn_eq hd]
  by_cases hp : leafEntry m.mem d va &&& pagePresent = 0
  · rw [if_pos hp]
  · rw [if_neg hp]
    dsimp only
    rw [← and_flag_mod _ (by decide : pageUser < 4096), if_pos (hc.resolve_left hp)]

/-- Storing into a page keeps the address spaces and every leaf. -/
theorem SpaceOk.leaf_write_page (h : SpaceOk owner m ds) {a : Nat} {bs : List Byte}
    (hp : owner (a / 4096) = .page) (ha : a % 4096 + bs.length ≤ 4096) (hd : d ∈ ds)
    (hva : UserAddress va) : leafEntry (m.mem.write a bs) d va = leafEntry m.mem d va := by
  refine h.leaf_congr (fun f hf j hj => ?_) hd hva
  refine entry_write_other (Nat.mul_mod_left f 4096) hj ha ?_
  rw [Nat.mul_div_cancel f (by decide)]
  rintro rfl
  rw [hp] at hf
  exact hf

/-- What the write loop leaves behind below the recursive slot: the address
spaces are intact, the pages it has passed keep their leaf, and every access was
to a user page. -/
structure LoopConfined (owner : Nat → Role) (m : Machine) (ds : List Nat) (d address copied : Nat)
    (source : List Byte) (r : Machine.CopyTo) : Prop where
  space : ∃ owner', SpaceOk owner' r.machine ds ∧ (∀ f, owner f = .page → owner' f = .page) ∧
    ∀ x ∈ r.touched, ∀ k < x.length, owner' ((x.pa + k) / 4096) = .page
  passed : ∀ va', UserAddress va' →
    source = [] ∨ va' / 4096 < (address + copied) % 2 ^ 32 / 4096 →
    leafEntry r.machine.mem d va' = leafEntry m.mem d va'
  inside : ∀ x ∈ r.touched, ∀ k < x.length, UserMapped r.machine d (x.va + k) (x.pa + k)
  complete : r.ok = true → ∀ k < source.length,
    ∃ pa, UserMapped r.machine d ((address + (copied + k)) % 2 ^ 32) pa

theorem copyToLoop_confined (hd : d ∈ ds) (address : Nat) (m : Machine) (copied : Nat)
    (source : List Byte) : ∀ {owner}, SpaceOk owner m ds →
      (address + copied) % 2 ^ 32 < 0xFFC00000 →
      LoopConfined owner m ds d address copied source
        (m.copyToLoop d address copied source) := by
  fun_induction Machine.copyToLoop m d address copied source with
  | case1 m copied source hpos va m₁ =>
    rename_i hw
    intro owner h hva
    -- refused: the lookup left the machine as it was
    have hm : m₁ = m := by
      by_cases huser : UserAddress va
      · rcases writablePage_prepared h hd huser with hn | ⟨m', owner', e, hs, -⟩
        · rw [hn] at hw
          exact (Prod.mk.inj hw).1.symm
        · rw [hs] at hw
          exact absurd (Prod.mk.inj hw).2 (by simp)
      · rw [writablePage_closed (h.dir_ne_zero hd) (Or.inr (h.leaf_kernel hd hva huser))] at hw
        exact (Prod.mk.inj hw).1.symm
    subst hm
    exact ⟨⟨owner, h, fun _ hf => hf, by simp⟩, fun _ _ _ => rfl, by simp, by simp⟩
  | case2 m copied source hpos va m₁ page hw offset chunk m₂ rest =>
    rename_i ih
    intro owner h hva
    have hd0 := h.dir_ne_zero hd
    have huser : UserAddress va := by
      by_contra hnot
      rw [writablePage_closed hd0 (Or.inr (h.leaf_kernel hd hva hnot))] at hw
      exact absurd (Prod.mk.inj hw).2 (by simp)
    rcases writablePage_prepared h hd huser with hn | ⟨m', owner₁, e, hs, hprep⟩
    · rw [hn] at hw
      exact absurd (Prod.mk.inj hw).2 (by simp)
    rw [hs] at hw
    obtain ⟨rfl, hpg⟩ := Prod.mk.inj hw
    obtain rfl := Option.some.inj hpg
    have hlimit : va < 0xC0000000 := huser.2
    have htake : (source.take chunk).length = chunk := by
      rw [List.length_take]
      omega
    -- the store goes to the page just looked up
    have hin : owner₁ ((e / 4096 * 4096 + va % 4096) / 4096) = .page := by
      rw [frame_add_div (by omega)]
      exact hprep.page
    have hfit : (e / 4096 * 4096 + va % 4096) % 4096 + (source.take chunk).length ≤ 4096 := by
      rw [htake]
      omega
    have h₂ : SpaceOk owner₁ m₂ ds :=
      hprep.space.write_page (by rw [hin]; exact id) hfit
    have hleaf₂ : ∀ va', UserAddress va' → leafEntry m₂.mem d va' = leafEntry m'.mem d va' :=
      fun va' hva' => hprep.space.leaf_write_page hin hfit hd hva'
    have hnext : (address + (copied + chunk)) % 2 ^ 32 < 0xFFC00000 := by omega
    have hrest := ih h₂ hnext
    obtain ⟨owner', hsp, hrole, htouch⟩ := hrest.space
    -- either this was the last chunk or the next one starts on a later page
    have hdone : source.drop chunk = [] ∨
        va / 4096 < (address + (copied + chunk)) % 2 ^ 32 / 4096 := by
      by_cases hlast : source.length ≤ chunk
      · exact Or.inl (List.drop_eq_nil_of_le hlast)
      · right
        omega
    have hkeep : leafEntry rest.machine.mem d va = e := by
      rw [hrest.passed va huser hdone, hleaf₂ va huser, hprep.leaf]
    have hmapped : ∀ k, va % 4096 + k < 4096 →
        UserMapped rest.machine d (va + k) (e / 4096 * 4096 + va % 4096 + k) :=
      fun k hk => userMapped_of_leaf hd0 huser hkeep hprep.present hprep.user hk
    refine ⟨⟨owner', hsp, fun f hf => hrole f (hprep.role f hf), ?_⟩, ?_, ?_, ?_⟩
    · intro x hx k hk
      rcases List.mem_cons.mp hx with rfl | hx
      · have hk : k < chunk := hk
        show owner' ((e / 4096 * 4096 + va % 4096 + k) / 4096) = .page
        rw [Nat.add_assoc, frame_add_div (by omega)]
        exact hrole _ hprep.page
      · exact htouch x hx k hk
    · intro va' hva' hc
      have hlt : va' / 4096 < va / 4096 := hc.resolve_left fun h0 => by
        rw [h0] at hpos
        simp at hpos
      rw [hrest.passed va' hva' (Or.inr (by omega)), hleaf₂ va' hva',
        hprep.others va' hva' (by omega)]
    · intro x hx k hk
      rcases List.mem_cons.mp hx with rfl | hx
      · have hk : k < chunk := hk
        exact hmapped k (by omega)
      · exact hrest.inside x hx k hk
    · intro hok k hk
      by_cases hin : k < chunk
      · have hka : (address + (copied + k)) % 2 ^ 32 = va + k := by omega
        rw [hka]
        exact ⟨_, hmapped k (by omega)⟩
      · have := hrest.complete hok (k - chunk) (by rw [List.length_drop]; omega)
        rwa [show copied + chunk + (k - chunk) = copied + k by omega] at this
  | case3 m copied source hpos =>
    intro owner h _
    refine ⟨⟨owner, h, fun _ hf => hf, by simp⟩, fun _ _ _ => rfl, by simp, fun _ k hk => ?_⟩
    exact absurd hk (by omega)

/-! ## The boundary -/

theorem confined_nil {address length : Nat} {ok : Bool} (h : ok = false ∨ length = 0) :
    Confined m ds d address length ok [] := by
  refine ⟨by simp, by simp, fun hok k hk => ?_⟩
  rcases h with h | h
  · rw [h] at hok
    simp at hok
  · omega

/-- The directory entry that the recursive slot shows at `address` is present
and open to user mode. -/
def RecursiveOpen (m : Machine) (d address : Nat) : Prop :=
  entry m.mem d (pageTableIndex address) &&& (pagePresent ||| pageUser)
    = (pagePresent ||| pageUser)

theorem recursiveOpen_iff {address : Nat} : RecursiveOpen m d address ↔
    entry m.mem d (address / 4096 % 1024) &&& pagePresent ≠ 0 ∧
      entry m.mem d (address / 4096 % 1024) &&& pageUser ≠ 0 := by
  unfold RecursiveOpen
  rw [pageTableIndex_eq, and_or_eq_mask_iff, show pagePresent = 2 ^ 0 from rfl,
    show pageUser = 2 ^ 2 from rfl, and_bit_eq_iff, and_bit_eq_iff]

/-- An open directory entry is the entry of a user page table. -/
theorem SpaceOk.open_is_table (h : SpaceOk owner m ds) (hd : d ∈ ds) {i : Nat} (hi : i < 1024)
    (hu : entry m.mem d i &&& pageUser ≠ 0) :
    ∃ t, entry m.mem d i = t * 4096 + 7 ∧ owner t = .table d i := by
  by_cases hk : KernelIndex i
  · exact absurd (by rw [h.shared d hd i hk]; exact (h.kernel_entry i hk.lt).closed) hu
  by_cases h23 : i = 1023
  · exfalso
    have hal := h.dir_aligned d hd
    rw [h23, h.self d hd, and_flag_mod _ (by decide), show (d + 3) % 4096 = 3 by omega] at hu
    exact hu (by decide)
  · have hi1 : 1 ≤ i ∧ i < 768 := by unfold KernelIndex at hk; omega
    rcases h.user_entry d hd i hi1.1 hi1.2 with h0 | ⟨t, he, ho, -⟩
    · rw [h0] at hu; exact absurd rfl hu
    · exact ⟨t, he, ho⟩

/-- In the recursive slot a copy to an open entry stores into the page table. -/
theorem writablePage_recursive (h : SpaceOk owner m ds) (hd : d ∈ ds) (hge : 0xFFC00000 ≤ va)
    (hlt : va < 2 ^ 32) (ho : RecursiveOpen m d va) :
    ∃ t, PagingFrame m ds t ∧ m.lookupPageIn d va = some (t * 4096, 7) ∧
      m.writablePage d va = (m, some (t * 4096)) := by
  obtain ⟨hp, hu⟩ := recursiveOpen_iff.mp ho
  obtain ⟨t, he, -⟩ := h.open_is_table hd (by omega) hu
  have hidx : va / 4096 % 1024 < 1023 := by
    by_contra hnot
    have hself := h.self d hd
    have hal := h.dir_aligned d hd
    rw [show va / 4096 % 1024 = 1023 by omega] at he
    omega
  have hlk : m.lookupPageIn d va = some (t * 4096, 7) := by
    rw [lookupPageIn_eq (h.dir_ne_zero hd), h.leaf_recursive hd hge hlt, he,
      if_neg (present_seven t), show (t * 4096 + 7) / 4096 * 4096 = t * 4096 by omega,
      show (t * 4096 + 7) % 4096 = 7 by omega]
  refine ⟨t, Or.inr ⟨d, hd, Or.inr ⟨_, hidx, hp, by omega⟩⟩, hlk, ?_⟩
  unfold Machine.writablePage
  rw [hlk]
  rfl

/-- An access through the address it was given, to a translation frame. -/
def ReachesPaging (m : Machine) (ds : List Nat) (address : Nat) (touched : List Access) : Prop :=
  ∃ x ∈ touched, x.va = address ∧ 0 < x.length ∧ PagingFrame m ds (x.pa / 4096)

/-- A copy to an open entry of the recursive slot writes a page table. -/
theorem userCopyToIn_recursive (h : SpaceOk owner m ds) (hd : d ∈ ds) {address : Nat}
    (hge : 0xFFC00000 ≤ address) (hlt : address < 2 ^ 32) (ho : RecursiveOpen m d address)
    {source : List Byte} (hs : 0 < source.length) :
    ReachesPaging m ds address (m.userCopyToIn d address source).touched := by
  obtain ⟨t, ht, -, hw⟩ := writablePage_recursive h hd hge hlt ho
  rw [Machine.userCopyToIn, Machine.copyToLoop]
  simp only [hs, if_true, Nat.add_zero, Nat.mod_eq_of_lt hlt, hw]
  refine ⟨_, List.mem_cons_self .., rfl, by show 0 < min _ _; omega, ?_⟩
  show PagingFrame m ds ((t * 4096 + address % 4096) / 4096)
  rwa [frame_add_div (by omega)]

/-- A copy from an open entry of the recursive slot reads a page table. -/
theorem userCopyFromIn_recursive (h : SpaceOk owner m ds) (hd : d ∈ ds) {address : Nat}
    (hge : 0xFFC00000 ≤ address) (hlt : address < 2 ^ 32) (ho : RecursiveOpen m d address)
    {length : Nat} (hs : 0 < length) :
    ReachesPaging m ds address (m.userCopyFromIn d address length).touched := by
  obtain ⟨t, ht, hlk, -⟩ := writablePage_recursive h hd hge hlt ho
  rw [Machine.userCopyFromIn, Machine.copyFromLoop]
  simp only [hs, if_true, Nat.add_zero, Nat.mod_eq_of_lt hlt, hlk]
  rw [if_neg (by decide)]
  refine ⟨_, List.mem_cons_self .., rfl, by show 0 < min _ _; omega, ?_⟩
  show PagingFrame m ds ((t * 4096 + address % 4096) / 4096)
  rwa [frame_add_div (by omega)]

/-- An access outside the user range is not confined. -/
theorem ReachesPaging.not_confined {m₀ : Machine} {address length : Nat} {ok : Bool}
    {touched : List Access} (hr : ReachesPaging m₀ ds address touched)
    (hge : 0xFFC00000 ≤ address) : ¬ Confined m ds d address length ok touched := by
  obtain ⟨x, hx, rfl, hlen, -⟩ := hr
  intro hc
  have hu : x.va < 0xC0000000 := (hc.inside x hx 0 hlen).1.2
  omega

section Boundary

variable {address : Nat}

theorem userCopyToIn_confined (h : SpaceOk owner m ds) (hd : d ∈ ds) (hlt : address < 2 ^ 32)
    {source : List Byte}
    (hc : source.length = 0 ∨ address < 0xFFC00000 ∨ ¬ RecursiveOpen m d address) :
    Confined (m.userCopyToIn d address source).machine ds d address source.length
      (m.userCopyToIn d address source).ok (m.userCopyToIn d address source).touched := by
  have hva : (address + 0) % 2 ^ 32 = address := by omega
  by_cases hlow : address < 0xFFC00000
  · have hloop := copyToLoop_confined hd address m 0 source h (by rw [hva]; exact hlow)
    obtain ⟨owner', hsp, -, hpage⟩ := hloop.space
    refine ⟨hloop.inside, fun x hx k hk => hsp.not_pagingFrame (hpage x hx k hk),
      fun hok k hk => ?_⟩
    have := hloop.complete hok k hk
    rwa [Nat.zero_add] at this
  unfold Machine.userCopyToIn
  rw [Machine.copyToLoop]
  by_cases hpos : 0 < source.length
  · have hopen : ¬ RecursiveOpen m d address :=
      (hc.resolve_left (by omega)).resolve_left hlow
    rw [recursiveOpen_iff, not_and_or, not_not, not_not] at hopen
    have hw : m.writablePage d ((address + 0) % 2 ^ 32) = (m, none) := by
      rw [hva]
      refine writablePage_closed (h.dir_ne_zero hd) ?_
      rwa [h.leaf_recursive hd (by omega) hlt]
    simp only [hpos, if_true, hw]
    exact confined_nil (Or.inl rfl)
  · rw [if_neg hpos]
    exact confined_nil (Or.inr (by omega))

theorem userCopyFromIn_confined (h : SpaceOk owner m ds) (hd : d ∈ ds) (hlt : address < 2 ^ 32)
    {length : Nat} (hc : length = 0 ∨ address < 0xFFC00000 ∨ ¬ RecursiveOpen m d address) :
    Confined m ds d address length (m.userCopyFromIn d address length).ok
      (m.userCopyFromIn d address length).touched := by
  have hva : (address + 0) % 2 ^ 32 = address := by omega
  by_cases hlow : address < 0xFFC00000
  · obtain ⟨hin, hall⟩ := copyFromLoop_confined h hd address length 0 (by rw [hva]; exact hlow)
    exact ⟨fun x hx k hk => (hin x hx k hk).1,
      fun x hx k hk => h.not_pagingFrame (hin x hx k hk).2,
      fun hok k hk => hall hok k (Nat.zero_le k) hk⟩
  unfold Machine.userCopyFromIn
  rw [Machine.copyFromLoop]
  by_cases hpos : 0 < length
  · have hopen : ¬ RecursiveOpen m d address :=
      (hc.resolve_left (by omega)).resolve_left hlow
    rw [recursiveOpen_iff, not_and_or, not_not, not_not] at hopen
    simp only [hpos, if_true, hva]
    rw [lookupPageIn_eq (h.dir_ne_zero hd), h.leaf_recursive hd (by omega) hlt]
    by_cases hp : entry m.mem d (address / 4096 % 1024) &&& pagePresent = 0
    · rw [if_pos hp]
      exact confined_nil (Or.inl rfl)
    · rw [if_neg hp]
      dsimp only
      rw [← and_flag_mod _ (by decide : pageUser < 4096), if_pos (hopen.resolve_left hp)]
      exact confined_nil (Or.inl rfl)
  · rw [if_neg hpos]
    exact confined_nil (Or.inr (by omega))

end Boundary

/-- **The copies are confined to user pages exactly outside the open part of
the recursive slot.** For every address space the kernel builds, every address
and every buffer, the writes of `user_copy_to_in` and the reads of
`user_copy_from_in` stay inside user pages if and only if the buffer is empty,
the address lies below the recursive slot, or the directory entry it names there
is not open to user mode. -/
theorem userCopy_confined_iff (hb : Built m ds pages) (hd : d ∈ ds) (address : UInt32)
    (source : List Byte) :
    (Confined (m.userCopyToIn d address.toNat source).machine ds d address.toNat source.length
        (m.userCopyToIn d address.toNat source).ok
        (m.userCopyToIn d address.toNat source).touched
      ↔ source.length = 0 ∨ address.toNat < 0xFFC00000 ∨ ¬ RecursiveOpen m d address.toNat) ∧
    (Confined m ds d address.toNat source.length
        (m.userCopyFromIn d address.toNat source.length).ok
        (m.userCopyFromIn d address.toNat source.length).touched
      ↔ source.length = 0 ∨ address.toNat < 0xFFC00000 ∨ ¬ RecursiveOpen m d address.toNat) := by
  obtain ⟨owner, hok⟩ := hb.pagesOk
  have h := hok.space
  have hlt : address.toNat < 2 ^ 32 := address.toNat_lt
  generalize address.toNat = a at hlt
  refine ⟨⟨fun hconf => ?_, fun hc => userCopyToIn_confined h hd hlt hc⟩,
    ⟨fun hconf => ?_, fun hc => userCopyFromIn_confined h hd hlt hc⟩⟩ <;> by_contra hnot <;>
    simp only [not_or, not_not, Nat.not_lt] at hnot <;> obtain ⟨hlen, hge, hopen⟩ := hnot
  · exact (userCopyToIn_recursive h hd hge hlt hopen (by omega)).not_confined hge hconf
  · exact (userCopyFromIn_recursive h hd hge hlt hopen (by omega)).not_confined hge hconf

/-! ## The boundary on a machine with one user page -/

theorem sampleMachine_open : RecursiveOpen sampleMachine 8192 0xFFC01000 := by
  obtain ⟨owner, h⟩ := samplePaged_built.pagesOk
  have hu : UserAddress userVirtBase := by decide
  rcases mapPageIn_spec h.space (d := 8192) (f := 3) (by simp) hu (by decide) (by decide)
    (by decide : 7 < 4096) (by decide) (h.page 3 (by simp)) with ⟨-, -, hz⟩ | ⟨m', o', he, hm⟩
  · exact absurd hz (by decide)
  have hmach : sampleMachine = m' := by
    unfold sampleMachine
    rw [he]
  have hl := hm.leaf 8192 (by simp) _ hu
  rw [if_pos ⟨rfl, rfl⟩] at hl
  rw [hmach]
  rcases hm.ok.user_entry 8192 (by simp) 1 (by decide) (by decide) with h0 | ⟨t, ht, -, -⟩
  · have he : leafEntry m'.mem 8192 userVirtBase = 0 := leafEntry_of_empty h0
    rw [he] at hl
    exact absurd hl (by decide)
  rw [recursiveOpen_iff]
  show entry m'.mem 8192 1 &&& pagePresent ≠ 0 ∧ entry m'.mem 8192 1 &&& pageUser ≠ 0
  rw [ht, and_flag_mod _ (by decide : pageUser < 4096),
    show (t * 4096 + 7) % 4096 = 7 by omega]
  exact ⟨present_seven t, by decide⟩

/-- The boundary at work: a copy of three bytes to the mapped page is confined. -/
theorem userCopy_confined_sample :
    Built sampleMachine [8192] [3] ∧
      (Confined (sampleMachine.userCopyToIn 8192 0x400000 [1, 2, 3]).machine [8192] 8192 0x400000 3
        (sampleMachine.userCopyToIn 8192 0x400000 [1, 2, 3]).ok
        (sampleMachine.userCopyToIn 8192 0x400000 [1, 2, 3]).touched) ∧
      (Confined sampleMachine [8192] 8192 0x400000 3
        (sampleMachine.userCopyFromIn 8192 0x400000 3).ok
        (sampleMachine.userCopyFromIn 8192 0x400000 3).touched) := by
  have h := userCopy_confined_iff sampleMachine_built (List.mem_singleton_self 8192) 0x400000
    [1, 2, 3]
  exact ⟨sampleMachine_built, h.1.mpr (Or.inr (Or.inl (by decide))),
    h.2.mpr (Or.inr (Or.inl (by decide)))⟩

/-- One byte copied to `0xFFC01000` lands in the page table of the page at
`USER_VIRT_BASE`. -/
theorem userCopyToIn_reaches_page_table :
    Built sampleMachine [8192] [3] ∧
      ReachesPaging sampleMachine [8192] 0xFFC01000
        (sampleMachine.userCopyToIn 8192 0xFFC01000 [0xFF]).touched ∧
      ¬ Confined (sampleMachine.userCopyToIn 8192 0xFFC01000 [0xFF]).machine [8192] 8192 0xFFC01000
        1 (sampleMachine.userCopyToIn 8192 0xFFC01000 [0xFF]).ok
        (sampleMachine.userCopyToIn 8192 0xFFC01000 [0xFF]).touched := by
  obtain ⟨owner, h⟩ := sampleMachine_built.pagesOk
  have hr := userCopyToIn_recursive h.space (List.mem_singleton_self 8192) (by decide) (by decide)
    sampleMachine_open (by decide : 0 < [(0xFF : Byte)].length)
  exact ⟨sampleMachine_built, hr, hr.not_confined (by decide)⟩

end Riverix.Memory
