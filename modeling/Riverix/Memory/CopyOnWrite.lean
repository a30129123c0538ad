import Riverix.Memory.SpaceOps

/-!
# Resolving a copy-on-write page

`paging_resolve_copy_on_write_in` on a user page does one of three things:
refuse, promote the page in place when this is its last reference, or split it
off into a new frame. `resolveCopyOnWriteIn_spec` says what it leaves: the page with
the same bytes, in a frame of its own, and every other leaf entry as it was.
-/

namespace Riverix.Memory

open Riverix.Lib

variable {owner : Nat → Role} {m m' : Machine} {ds : List Nat} {d va : Nat}

/-- A present user page that is shared copy-on-write. -/
structure CowLeaf (e : Nat) : Prop where
  present : e &&& pagePresent ≠ 0
  user : e &&& pageUser ≠ 0
  cow : e &&& pageCopyOnWrite ≠ 0
  readOnly : e &&& pageWritable = 0

/-- The flags a resolved page gets: writable, no longer copy-on-write. -/
def resolvedFlags (e : Nat) : Nat := (e % 4096 ||| pageWritable) &&& 0xFFFFFDFF

/-- The leaf entry of a resolved page in frame `f`. -/
def resolvedEntry (e f : Nat) : Nat := f * 4096 + (resolvedFlags e ||| pagePresent)

theorem resolvedFlags_lt (e : Nat) : resolvedFlags e < 4096 :=
  and_lt_two_pow (k := 12)
    (Nat.or_lt_two_pow (n := 12) (Nat.mod_lt e (by decide)) (by decide))

theorem resolvedEntry_div (e f : Nat) : resolvedEntry e f / 4096 = f := by
  have := or_present_lt (resolvedFlags_lt e)
  unfold resolvedEntry
  omega

theorem resolvedEntry_mod (e f : Nat) :
    resolvedEntry e f % 4096 = resolvedFlags e ||| pagePresent := by
  have := or_present_lt (resolvedFlags_lt e)
  unfold resolvedEntry
  omega

/-- A flag of a resolved page, bit by bit. -/
theorem resolvedEntry_testBit (e f : Nat) {i : Nat} (hi : i < 12) :
    (resolvedEntry e f).testBit i =
      (((e.testBit i || Nat.testBit 2 i) && Nat.testBit 0xFFFFFDFF i) || Nat.testBit 1 i) := by
  have h : (resolvedEntry e f).testBit i = (resolvedEntry e f % 2 ^ 12).testBit i := by
    rw [Nat.testBit_mod_two_pow]
    simp [hi]
  rw [h, show (2 : Nat) ^ 12 = 4096 from rfl, resolvedEntry_mod, resolvedFlags, Nat.testBit_or,
    Nat.testBit_and, Nat.testBit_or, show (4096 : Nat) = 2 ^ 12 from rfl,
    Nat.testBit_mod_two_pow]
  simp [hi]

theorem resolvedEntry_present (e f : Nat) : resolvedEntry e f &&& pagePresent ≠ 0 := by
  rw [show pagePresent = 2 ^ 0 from rfl, and_bit_ne_zero, resolvedEntry_testBit e f (by decide)]
  simp

theorem resolvedEntry_writable (e f : Nat) : resolvedEntry e f &&& pageWritable ≠ 0 := by
  rw [show pageWritable = 2 ^ 1 from rfl, and_bit_ne_zero, resolvedEntry_testBit e f (by decide)]
  rw [show Nat.testBit 2 1 = true by decide, Bool.or_true]
  decide

theorem resolvedEntry_user {e : Nat} (f : Nat) (h : e &&& pageUser ≠ 0) :
    resolvedEntry e f &&& pageUser ≠ 0 := by
  rw [show pageUser = 2 ^ 2 from rfl, and_bit_ne_zero] at h ⊢
  rw [resolvedEntry_testBit e f (by decide), h]
  decide

/-- A leaf is determined by the entries of the translation frames. -/
theorem SpaceOk.leaf_congr (h : SpaceOk owner m ds) {mem' : Store}
    (hent : ∀ f, (owner f).IsPaging → ∀ j < 1024,
      entry mem' (f * 4096) j = entry m.mem (f * 4096) j)
    (hd : d ∈ ds) (hva : UserAddress va) : leafEntry mem' d va = leafEntry m.mem d va := by
  obtain ⟨h1, h2⟩ := hva.index
  have hdir : entry mem' d (va / 4194304) = entry m.mem d (va / 4194304) := by
    have := hent _ (by rw [h.dir_owner d hd]; trivial) (va / 4194304) (by omega)
    have hal := h.dir_aligned d hd
    rwa [show d / 4096 * 4096 = d by omega] at this
  unfold leafEntry
  rw [hdir]
  rcases h.user_entry d hd _ h1 h2 with he | ⟨t, he, ho, -⟩
  · rw [he]; rfl
  · rw [he, show (t * 4096 + 7) / 4096 * 4096 = t * 4096 by omega,
      hent t (by rw [ho]; trivial) _ (by omega)]

/-- The effect of resolving the page at `va`: it is in the frame `f` now, with the same bytes. -/
structure Resolved (owner owner' : Nat → Role) (m m' : Machine) (ds : List Nat) (d va f : Nat) :
    Prop where
  ok : SpaceOk owner' m' ds
  pages : ∀ g, owner g = .page → owner' g = .page
  frame : owner' f = .page
  leaf : ∀ d' ∈ ds, ∀ va', UserAddress va' → leafEntry m'.mem d' va' =
    if d' = d ∧ va' / 4096 = va / 4096 then resolvedEntry (leafEntry m.mem d va) f
    else leafEntry m.mem d' va'
  bytes : ∀ k < 4096, m'.mem (f * 4096 + k) = m.mem (leafEntry m.mem d va / 4096 * 4096 + k)

/-- The test of the flags in `paging_resolve_copy_on_write_in`. -/
theorem cowTest_iff {e : Nat} (hp : e &&& pagePresent ≠ 0) :
    (¬ (e % 4096 &&& (pagePresent ||| pageUser ||| pageCopyOnWrite)
        ≠ (pagePresent ||| pageUser ||| pageCopyOnWrite)
      ∨ e % 4096 &&& pageWritable ≠ 0)) ↔ CowLeaf e := by
  rw [not_or, not_not, not_not, and_or_eq_mask_iff, and_or_eq_mask_iff,
    ← and_flag_mod e (by decide : pagePresent < 4096),
    ← and_flag_mod e (by decide : pageUser < 4096),
    ← and_flag_mod e (by decide : pageCopyOnWrite < 4096),
    ← and_flag_mod e (by decide : pageWritable < 4096),
    show pageUser = 2 ^ 2 from rfl, show pageCopyOnWrite = 2 ^ 9 from rfl,
    show pagePresent = 2 ^ 0 from rfl, and_bit_eq_iff, and_bit_eq_iff, and_bit_eq_iff]
  constructor
  · rintro ⟨⟨⟨-, hu⟩, hc⟩, hw⟩
    exact ⟨hp, hu, hc, hw⟩
  · intro h
    exact ⟨⟨⟨h.present, h.user⟩, h.cow⟩, h.readOnly⟩

theorem UserAddress.page (h : UserAddress va) : UserAddress (va / 4096 * 4096) := by
  simp only [UserAddress, userVirtBase, userVirtLimit] at h ⊢
  omega

/-- Remapping a page whose table exists cannot fail and takes no frame. -/
theorem mapPageIn_existing (h : SpaceOk owner m ds) (hd : d ∈ ds) (hva : UserAddress va)
    (hpres : leafEntry m.mem d va &&& pagePresent ≠ 0) {f flags : Nat} (hf : f < 2 ^ 20)
    (hfl : flags < 4096) (hu : flags &&& pageUser ≠ 0) (hpage : owner f = .page) :
    ∃ m', m.mapPageIn d (va / 4096 * 4096) (f * 4096) flags = (m', true) ∧
      m'.palloc = m.palloc ∧
      Mapped owner owner m m' ds d va (f * 4096 + (flags ||| pagePresent)) := by
  have hidx : va / 4096 * 4096 / 4194304 = va / 4194304 := by omega
  have hslot : entry m.mem d (va / 4194304) ≠ 0 := fun h0 =>
    hpres (by rw [leafEntry_of_empty h0]; rfl)
  rcases mapPageIn_spec h hd hva.page (by omega) hf hfl hu hpage with
    ⟨-, h0, -⟩ | ⟨m', owner', he, hm⟩
  · exact absurd (hidx ▸ h0) hslot
  rcases hm.frames with ⟨rfl, hp⟩ | ⟨t, -, h0, -⟩
  · refine ⟨m', he, hp, hm.ok, hm.kdir, fun d' hd' va' hva' => ?_, hm.page_bytes,
      Or.inl ⟨rfl, hp⟩⟩
    rw [hm.leaf d' hd' va' hva', show va / 4096 * 4096 / 4096 = va / 4096 by omega]
  · exact absurd (hidx ▸ h0) hslot

/-- A shared page: taking the new frame, copying the bytes and remapping. -/
theorem split_spec (h : SpaceOk owner m ds) (hd : d ∈ ds) (hva : UserAddress va)
    (hcow : CowLeaf (leafEntry m.mem d va))
    (hlt : leafEntry m.mem d va / 4096 < m.palloc.firstUnusableFrame)
    (href : 2 ≤ m.palloc.frameRefcounts (leafEntry m.mem d va / 4096)) {p' : Palloc} {f : Nat}
    (ht : m.palloc.Taken p' f) :
    ∃ m₁, Machine.mapPageIn
        { m with palloc := p',
                 mem := copyPageBytes m.mem (f * 4096) (leafEntry m.mem d va / 4096 * 4096) }
        d (va / 4096 * 4096) (f * 4096) (resolvedFlags (leafEntry m.mem d va)) = (m₁, true) ∧
      Resolved owner (Function.update owner f .page) m
        { m₁ with palloc := m₁.palloc.freePage (leafEntry m.mem d va / 4096 * 4096) } ds d va f ∧
      ∀ a, owner (a / 4096) = .page → m₁.mem a = m.mem a := by
  have hold : owner (leafEntry m.mem d va / 4096) = .page := by
    rcases h.leaf_user hd hva with hz | ⟨-, hp⟩
    · exact absurd hz hcow.present
    · exact hp
  have hfree : owner f = .free := (h.free_iff f).mpr ht.was_free
  have hne : leafEntry m.mem d va / 4096 ≠ f := ne_of_role hold hfree (by simp)
  -- the copy goes to a frame that was free, so no translation entry changes
  have hent : ∀ g, (owner g).IsPaging → ∀ j < 1024,
      entry (copyPageBytes m.mem (f * 4096) (leafEntry m.mem d va / 4096 * 4096)) (g * 4096) j
        = entry m.mem (g * 4096) j := by
    intro g hg j hj
    refine entry_copyPageBytes_other (Nat.mul_mod_left _ _) (Nat.mul_mod_left _ _) hj ?_
    have : g ≠ f := by rintro rfl; rw [hfree] at hg; exact hg
    omega
  have h₁ : SpaceOk (Function.update owner f .page)
      { m with palloc := p',
               mem := copyPageBytes m.mem (f * 4096) (leafEntry m.mem d va / 4096 * 4096) } ds :=
    h.frame hent (h.role_taken ht) ht.ok (h.free_iff_taken ht (by simp)) rfl
  have hleaf : ∀ d' ∈ ds, ∀ va', UserAddress va' →
      leafEntry (copyPageBytes m.mem (f * 4096) (leafEntry m.mem d va / 4096 * 4096)) d' va'
        = leafEntry m.mem d' va' :=
    fun d' hd' va' hva' => h.leaf_congr hent hd' hva'
  obtain ⟨m₁, he, hp, hm⟩ := mapPageIn_existing h₁ hd hva
    (by rw [hleaf d hd va hva]; exact hcow.present) (h.palloc.frame_lt ht.lt)
    (resolvedFlags_lt (leafEntry m.mem d va)) (by
      have hu := resolvedEntry_user f hcow.user
      rw [and_flag_mod _ (by decide), resolvedEntry_mod, Nat.and_or_distrib_right] at hu
      simpa using hu) (Function.update_self ..)
  refine ⟨m₁, he, ?_⟩
  have hrold : p'.frameRefcounts (leafEntry m.mem d va / 4096)
      = m.palloc.frameRefcounts (leafEntry m.mem d va / 4096) := by
    rw [ht.refcounts, Function.update_of_ne hne]
  obtain ⟨hfok, hfref, -⟩ := Palloc.freePage_spec (p := p') ht.ok (by rw [ht.first]; exact hlt)
    (by rw [hrold]; omega)
  refine ⟨⟨?_, fun g hg => ?_, Function.update_self .., fun d' hd' va' hva' => ?_, fun k hk => ?_⟩,
    fun a ha => ?_⟩
  · refine hm.ok.frame (fun _ _ _ _ => rfl) (fun _ _ => rfl) ?_ ?_ rfl
    · show (m₁.palloc.freePage _).Ok
      rw [hp]
      exact hfok
    · intro g
      show _ ↔ (m₁.palloc.freePage _).frameRefcounts g = 0
      rw [hp, hfref, hm.ok.free_iff g, hp]
      by_cases hg : g = leafEntry m.mem d va / 4096
      · subst hg
        rw [Function.update_self, hrold]
        omega
      · rw [Function.update_of_ne hg]
  · rw [Function.update_of_ne (ne_of_role hg hfree (by simp))]
    exact hg
  · show leafEntry m₁.mem d' va' = _
    rw [hm.leaf d' hd' va' hva', hleaf d' hd' va' hva']
    rfl
  · show m₁.mem (f * 4096 + k) = _
    have hin : Function.update owner f Role.page ((f * 4096 + k) / 4096) = .page := by
      rw [frame_add_div hk, Function.update_self]
    rw [hm.page_bytes _ hin]
    show copyPageBytes _ _ _ _ = _
    unfold copyPageBytes
    rw [Store.write_inside (by rw [Store.read_length]; exact hk), Store.read_getD hk]
  · have haf : a / 4096 ≠ f := ne_of_role ha hfree (by simp)
    rw [hm.page_bytes a (by rw [Function.update_of_ne haf]; exact ha)]
    exact Store.write_outside (by rw [Store.read_length]; omega)

theorem pageRefcount_unmanaged {p : Palloc} {f : Nat} (h : p.firstUnusableFrame ≤ f) :
    p.pageRefcount (f * 4096) = 0 := by
  unfold Palloc.pageRefcount
  rw [if_neg (by simp), if_pos (by simp; omega)]

/-- What `paging_resolve_copy_on_write_in` does at a user address: no page loses its bytes. -/
theorem resolveCopyOnWriteIn_spec (h : SpaceOk owner m ds) (hd : d ∈ ds) (hva : UserAddress va) :
    m.resolveCopyOnWriteIn d va = (m, false) ∨
    ∃ owner' f m', m.resolveCopyOnWriteIn d va = (m', true) ∧ Resolved owner owner' m m' ds d va f ∧
      CowLeaf (leafEntry m.mem d va) ∧ ∀ a, owner (a / 4096) = .page → m'.mem a = m.mem a := by
  have hlt : va < 2 ^ 32 := by
    have := hva.2
    unfold userVirtLimit at this
    omega
  unfold Machine.resolveCopyOnWriteIn
  rw [frameMask_eq hlt]
  simp only [lookupPageIn_eq (h.dir_ne_zero hd), leafEntry_page]
  by_cases hp : leafEntry m.mem d va &&& pagePresent = 0
  · rw [if_pos hp]
    exact Or.inl rfl
  rw [if_neg hp]
  dsimp only
  by_cases hc : CowLeaf (leafEntry m.mem d va)
  · rw [if_neg ((cowTest_iff hp).mpr hc)]
    have hpage : owner (leafEntry m.mem d va / 4096) = .page := by
      rcases h.leaf_user hd hva with hz | ⟨-, hpg⟩
      · exact absurd hz hp
      · exact hpg
    have hused : m.palloc.frameRefcounts (leafEntry m.mem d va / 4096) ≠ 0 := by
      rw [Ne, ← h.free_iff, hpage]
      simp
    by_cases hman : leafEntry m.mem d va / 4096 < m.palloc.firstUnusableFrame
    · rw [Palloc.pageRefcount_eq h.palloc hman, if_neg hused]
      by_cases hone : m.palloc.frameRefcounts (leafEntry m.mem d va / 4096) = 1
      · rw [if_pos hone]
        obtain ⟨m', he, -, hm⟩ := mapPageIn_existing h hd hva hp (h.palloc.frame_lt hman)
          (resolvedFlags_lt (leafEntry m.mem d va)) (by
            have hu := resolvedEntry_user 0 hc.user
            rw [and_flag_mod _ (by decide), resolvedEntry_mod, Nat.and_or_distrib_right] at hu
            simpa using hu) hpage
        refine Or.inr ⟨owner, _, m', he, ⟨hm.ok, fun _ hg => hg, hpage, hm.leaf, fun k hk => ?_⟩,
            hc, hm.page_bytes⟩
        exact hm.page_bytes _ (by rw [frame_add_div hk]; exact hpage)
      rw [if_neg hone]
      cases ha : m.palloc.allocPage with
      | mk p' a =>
        by_cases ha0 : a = 0
        · subst ha0
          rw [h.allocPage_zero ha]
          exact Or.inl (by simp)
        obtain ⟨f, rfl, ht⟩ := Palloc.allocPage_some h.palloc ha ha0
        have href : 2 ≤ m.palloc.frameRefcounts (leafEntry m.mem d va / 4096) := by omega
        obtain ⟨m₁, he, hs, hkept⟩ := split_spec h hd hva hc hman href ht
        refine Or.inr ⟨_, f, _, ?_, hs, hc, hkept⟩
        rw [if_neg ha0]
        unfold resolvedFlags at he
        rw [he]
    · rw [pageRefcount_unmanaged (Nat.not_lt.mp hman), if_pos rfl]
      exact Or.inl rfl
  · rw [if_pos (not_not.mp fun hn => hc ((cowTest_iff hp).mp hn))]
    exact Or.inl rfl

end Riverix.Memory
