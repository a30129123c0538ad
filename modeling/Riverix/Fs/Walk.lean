import Riverix.Fs.Windows

/-!
# The walk over the tree

`Walk` is what holds between any two steps of `simplefs_populate_directory`: every
directory that a populated directory lists is itself populated, or has no records
yet. It does not depend on what the device holds or on whether its reads succeed.
**`populate_visit`** carries it through a whole walk, finished or not.
-/

namespace Riverix.Fs

open Riverix.Lib

namespace Simplefs

variable {fs fs' : Simplefs} {d k x : Nat}

/-- A directory that will not be walked again: its slots are complete, or it has
neither records nor slots. -/
def Settled (fs : Simplefs) (x : Nat) : Prop :=
  (fs.nodes x).populated = true ∨ (fs.nodes x).disk.childCount = 0 ∧ (fs.nodes x).vfs.childCount = 0

theorem Kept.settled (h : Kept fs fs' x) (hx : Settled fs x) : Settled fs' x := by
  unfold Settled
  rw [h.populated, h.disk, h.vfs]
  exact hx

/-- What holds between any two steps of the walk. -/
structure Walk (fs : Simplefs) : Prop where
  windows : Windows fs
  owned : ∀ x, (fs.nodes x).populated = true → (fs.nodes x).dirSlotBase ≠ none
  count : ∀ x, (fs.nodes x).populated = true → (fs.nodes x).vfs.childCount ≤ 32
  closed : ∀ x, (fs.nodes x).populated = true → ∀ k < (fs.nodes x).vfs.childCount, ∀ c,
    fs.childAt x k = some (.node c) → (fs.nodes c).vfs.kind = .dir → Settled fs c
  kinds : ∀ x, (fs.nodes x).vfs.kind = .dir → (fs.nodes x).disk.kind = kindDir

/-- Before anything is populated there is nothing to keep. -/
theorem walk_of_bare (h : ∀ i, (fs.nodes i).populated = false ∧ (fs.nodes i).dirSlotBase = none ∧
      (fs.nodes i).vfs.children = none ∧
      ((fs.nodes i).vfs.kind = .dir → (fs.nodes i).disk.kind = kindDir))
    (hnext : fs.nextDirEntrySlot = 0) : Walk fs := by
  have hbase : ∀ i b, (fs.nodes i).dirSlotBase = some b → False := fun i b hb => by
    rw [(h i).2.1] at hb
    simp at hb
  have hpop : ∀ i, (fs.nodes i).populated = true → False := fun i hp => by
    rw [(h i).1] at hp
    simp at hp
  exact ⟨⟨fun i => by rw [(h i).2.1, (h i).2.2.1], fun i b hb => (hbase i b hb).elim,
    fun i b hb => (hbase i b hb).elim, fun i j b c _ hb _ => (hbase i b hb).elim, by omega⟩,
    fun x hx => (hpop x hx).elim, fun x hx => (hpop x hx).elim, fun x hx => (hpop x hx).elim,
    fun x => (h x).2.2.2⟩

/-- A change of a directory that is being read. -/
theorem Walk.update (h : Walk fs) (hw : Windows fs') (hcore : fs'.core = fs.core)
    (hkeep : ∀ x, x ≠ d → Kept fs fs' x) (hd : (fs'.nodes d).populated = false)
    (hs : Settled fs d → Settled fs' d) : Walk fs' := by
  have hne : ∀ {x}, (fs'.nodes x).populated = true → x ≠ d := by
    rintro x hx rfl
    rw [hd] at hx
    simp at hx
  have hset : ∀ x, Settled fs x → Settled fs' x := by
    intro x hx
    by_cases hxd : x = d
    · rw [hxd] at hx ⊢
      exact hs hx
    · exact (hkeep x hxd).settled hx
  refine ⟨hw, fun x hx => ?_, fun x hx => ?_, fun x hx k hk c hc hdir => ?_, fun x hx => ?_⟩
  · have hxk := hkeep x (hne hx)
    rw [hxk.populated] at hx
    rw [hxk.base]
    exact h.owned x hx
  · have hxk := hkeep x (hne hx)
    rw [hxk.populated] at hx
    rw [hxk.vfs]
    exact h.count x hx
  · have hxk := hkeep x (hne hx)
    rw [hxk.populated] at hx
    rw [hxk.vfs] at hk
    have := h.count x hx
    rw [hxk.2 k (by omega)] at hc
    rw [kind_of_core hcore] at hdir
    exact hset c (h.closed x hx k hk c hc hdir)
  · rw [kind_of_core hcore] at hx
    rw [disk_of_core hcore]
    exact h.kinds x hx

/-- A directory whose slots are complete is marked so. -/
theorem Walk.populated (h : Walk fs) (hown : (fs.nodes d).dirSlotBase ≠ none)
    (hcount : (fs.nodes d).vfs.childCount ≤ 32)
    (hslots : ∀ k < (fs.nodes d).vfs.childCount, ∀ c, fs.childAt d k = some (.node c) →
      (fs.nodes c).vfs.kind = .dir → Settled fs c) :
    Walk (fs.modify d fun n => { n with populated := true }) := by
  obtain ⟨fs', hfs'⟩ : ∃ fs', fs' = fs.modify d fun n => { n with populated := true } := ⟨_, rfl⟩
  have hself : fs'.nodes d = { fs.nodes d with populated := true } := by
    rw [hfs', modify_nodes_self]
  have hne : ∀ {x}, x ≠ d → fs'.nodes x = fs.nodes x :=
    fun hx => by rw [hfs', modify_nodes_ne _ _ hx]
  have hvfs : ∀ x, (fs'.nodes x).vfs = (fs.nodes x).vfs := by
    intro x
    by_cases hx : x = d
    · rw [hx, hself]
    · rw [hne hx]
  have hbase : ∀ x, (fs'.nodes x).dirSlotBase = (fs.nodes x).dirSlotBase := by
    intro x
    by_cases hx : x = d
    · rw [hx, hself]
    · rw [hne hx]
  have hat : ∀ x k, fs'.childAt x k = fs.childAt x k := by
    intro x k
    unfold childAt
    rw [hvfs, hfs']
    rfl
  have hset : ∀ x, Settled fs x → Settled fs' x := by
    intro x hx
    by_cases hxd : x = d
    · rw [hxd]
      exact Or.inl (by rw [hself])
    · unfold Settled
      rw [hne hxd]
      exact hx
  rw [← hfs']
  refine ⟨h.windows.same (fun i => ?_) (by rw [hfs']; rfl), fun x hx => ?_, fun x hx => ?_,
    fun x hx k hk c hc hdir => ?_, fun x hx => ?_⟩
  · unfold window
    rw [hbase, hvfs]
  · rw [hbase]
    by_cases hxd : x = d
    · rw [hxd]
      exact hown
    · rw [hne hxd] at hx
      exact h.owned x hx
  · rw [hvfs]
    by_cases hxd : x = d
    · rw [hxd]
      exact hcount
    · rw [hne hxd] at hx
      exact h.count x hx
  · rw [hvfs] at hk hdir
    rw [hat] at hc
    by_cases hxd : x = d
    · rw [hxd] at hk hc
      exact hset c (hslots k hk c hc hdir)
    · rw [hne hxd] at hx
      exact hset c (h.closed x hx k hk c hc hdir)
  · rw [hvfs] at hx
    by_cases hxd : x = d
    · rw [hxd] at hx ⊢
      rw [hself]
      exact h.kinds d hx
    · rw [hne hxd]
      exact h.kinds x hx

/-! ## Calls -/

/-- What a call does to the tree, whether it succeeds or not. -/
structure Visit (active : List Nat) (fs fs' : Simplefs) : Prop where
  walk : Walk fs'
  core : fs'.core = fs.core
  settled : ∀ x, Settled fs x → Settled fs' x
  kept : ∀ x, (fs.nodes x).populated = true ∨ x ∈ active → Kept fs fs' x
  counted : ∀ x, (fs'.nodes x).populated = true → (fs.nodes x).populated = true ∨
    (fs'.nodes x).disk.childCount = (fs'.nodes x).vfs.childCount
  bare : ∀ x, (fs'.nodes x).dirSlotBase ≠ none → (fs.nodes x).dirSlotBase ≠ none ∨
    (fs'.nodes x).populated = true ∨ (fs'.nodes x).disk.childCount ≠ 0

/-- What holds in the loop: `d` has `n` slots, and the first `k` are finished. -/
structure Reading (active : List Nat) (fs : Simplefs) (d k n : Nat) (fs' : Simplefs) : Prop where
  opens : Opens active fs d
  walk : Walk fs'
  core : fs'.core = fs.core
  settled : ∀ x, x ≠ d → Settled fs x → Settled fs' x
  kept : ∀ x, (fs.nodes x).populated = true ∨ x ∈ active → Kept fs fs' x
  counted : ∀ x, (fs'.nodes x).populated = true → (fs.nodes x).populated = true ∨
    (fs'.nodes x).disk.childCount = (fs'.nodes x).vfs.childCount
  bare : ∀ x, x ≠ d → (fs'.nodes x).dirSlotBase ≠ none → (fs.nodes x).dirSlotBase ≠ none ∨
    (fs'.nodes x).populated = true ∨ (fs'.nodes x).disk.childCount ≠ 0
  fresh : (fs'.nodes d).populated = false
  owned : (fs'.nodes d).dirSlotBase ≠ none
  count : (fs'.nodes d).vfs.childCount = n
  slots : ∀ j < k, ∀ c, fs'.childAt d j = some (.node c) → (fs'.nodes c).vfs.kind = .dir →
    Settled fs' c

theorem Visit.refl (h : Walk fs) (active : List Nat) : Visit active fs fs :=
  ⟨h, rfl, fun _ hx => hx, fun x _ => Kept.refl fs x, fun _ hx => Or.inl hx, fun _ hx => Or.inl hx⟩

/-- The loop stops before its end. -/
theorem Reading.stop {active : List Nat} {n : Nat} (h : Reading active fs d k n fs')
    (hk : (fs.nodes d).disk.childCount ≠ 0) : Visit active fs fs' := by
  refine ⟨h.walk, h.core, fun x hx => ?_, h.kept, h.counted, fun x hx => ?_⟩
  · by_cases hxd : x = d
    · -- a directory with records is settled only once it is populated
      rw [hxd] at hx
      rcases hx with hp | hp
      · rw [h.opens.fresh] at hp
        simp at hp
      · exact absurd hp.1 hk
    · exact h.settled x hxd hx
  · by_cases hxd : x = d
    · rw [hxd]
      exact Or.inr (Or.inr (by rw [disk_of_core h.core]; exact hk))
    · exact h.bare x hxd hx

/-- What is populated, or is being read, is another directory. -/
theorem Opens.ne {active : List Nat} (h : Opens active fs d)
    (hx : (fs.nodes x).populated = true ∨ x ∈ active) : x ≠ d := by
  rintro rfl
  rcases hx with hx | hx
  · rw [h.fresh] at hx
    simp at hx
  · exact h.idle hx

theorem Opened.reading {active : List Nat} (hw : Walk fs) (ho : Opens active fs d)
    (h : Opened fs fs' d) : Reading active fs d 0 0 fs' := by
  have hfresh : (fs'.nodes d).populated = false := h.populated.trans ho.fresh
  have hset : Settled fs d → Settled fs' d := by
    rintro (hp | hp)
    · rw [ho.fresh] at hp
      simp at hp
    · exact Or.inr ⟨by rw [disk_of_core h.core]; exact hp.1, h.empty⟩
  have hpop : ∀ {x}, (fs'.nodes x).populated = true → x ≠ d := by
    rintro x hx rfl
    rw [hfresh] at hx
    simp at hx
  refine ⟨ho, hw.update h.windows h.core h.kept hfresh hset, h.core,
    fun x hx => (h.kept x hx).settled, fun x hx => h.kept x (ho.ne hx), fun x hx => ?_,
    fun x hx hb => ?_, hfresh, h.owned, h.empty, fun j hj => absurd hj (by omega)⟩
  · rw [(h.kept x (hpop hx)).populated] at hx
    exact Or.inl hx
  · rw [(h.kept x hx).base] at hb
    exact Or.inl hb

section Loop

variable {active : List Nat} {fs₁ fs₂ fs₃ : Simplefs} {child n : Nat} {name : List Byte}

/-- A record is entered. -/
theorem Reading.enter (h : Reading active fs d k k fs₁) (hk : k < (fs.nodes d).disk.childCount)
    (he : fs₂ = fs₁.enterChild d child name) :
    Reading active fs d k (k + 1) fs₂ ∧ fs₂.childAt d k = some (.node child) := by
  have hfits := h.opens.fits
  have happ : Appended fs₁ fs₂ d (.node child) := by
    rw [he]
    exact enterChild_spec h.walk.windows h.owned (by rw [h.count]; omega) child name
  have hfresh : (fs₂.nodes d).populated = false := happ.populated.trans h.fresh
  have hset : Settled fs₁ d → Settled fs₂ d := by
    rintro (hp | hp)
    · rw [h.fresh] at hp
      simp at hp
    · rw [disk_of_core h.core] at hp
      exact absurd hp.1 (by omega)
  have hsettled : ∀ x, Settled fs₁ x → Settled fs₂ x := by
    intro x hx
    by_cases hxd : x = d
    · rw [hxd] at hx ⊢
      exact hset hx
    · exact (happ.kept x hxd).settled hx
  have hpop : ∀ {x}, (fs₂.nodes x).populated = true → x ≠ d := by
    rintro x hx rfl
    rw [hfresh] at hx
    simp at hx
  refine ⟨⟨h.opens, h.walk.update happ.windows happ.core happ.kept hfresh hset,
    happ.core.trans h.core, fun x hxd hx => hsettled x (h.settled x hxd hx),
    fun x hx => (h.kept x hx).trans (happ.kept x (h.opens.ne hx)), fun x hx => ?_,
      fun x hxd hb => ?_,
    hfresh, by rw [happ.owned]; exact h.owned, by rw [happ.count, h.count],
    fun j hj c hc hdir => ?_⟩, ?_⟩
  · have hkx := happ.kept x (hpop hx)
    rw [hkx.populated] at hx
    rw [hkx.disk, hkx.vfs]
    exact h.counted x hx
  · have hkx := happ.kept x hxd
    rw [hkx.base] at hb
    rw [hkx.populated, hkx.disk]
    exact h.bare x hxd hb
  · rw [happ.slots, h.count, if_neg (by omega)] at hc
    rw [kind_of_core happ.core] at hdir
    exact hsettled c (h.slots j hj c hc hdir)
  · rw [happ.slots, h.count, if_pos rfl]

/-- The new slot refers to a directory that is settled, or to a file. -/
theorem Reading.next (h : Reading active fs d k (k + 1) fs₂)
    (hslot : fs₂.childAt d k = some (.node child))
    (hchild : (fs₂.nodes child).vfs.kind = .dir → Settled fs₂ child) :
    Reading active fs d (k + 1) (k + 1) fs₂ := by
  refine { h with slots := fun j hj c hc hdir => ?_ }
  rcases Nat.lt_succ_iff_lt_or_eq.mp hj with hlt | rfl
  · exact h.slots j hlt c hc hdir
  · rw [hslot] at hc
    obtain rfl : child = c := NodeRef.node.inj (Option.some.inj hc)
    exact hchild hdir

/-- The call for a child returns. -/
theorem Reading.visit (h : Reading active fs d k n fs₂) (hn : n ≤ 32) (hk : k ≤ n)
    (hv : Visit (d :: active) fs₂ fs₃) :
    Reading active fs d k n fs₃ ∧ ∀ j < n, fs₃.childAt d j = fs₂.childAt d j := by
  have hd : Kept fs₂ fs₃ d := hv.kept d (Or.inr (List.mem_cons_self ..))
  refine ⟨⟨h.opens, hv.walk, hv.core.trans h.core,
    fun x hxd hx => hv.settled x (h.settled x hxd hx),
    fun x hx => (h.kept x hx).trans (hv.kept x ?_), fun x hx => ?_, fun x hxd hb => ?_,
    by rw [hd.populated]; exact h.fresh, by rw [hd.base]; exact h.owned,
    by rw [hd.vfs]; exact h.count, fun j hj c hc hdir => ?_⟩, fun j hj => hd.2 j (by omega)⟩
  · rcases hx with hp | hp
    · exact Or.inl (by rw [(h.kept x (Or.inl hp)).populated]; exact hp)
    · exact Or.inr (List.mem_cons_of_mem _ hp)
  · rcases hv.counted x hx with hp | hp
    · have hkx := hv.kept x (Or.inl hp)
      rw [hkx.disk, hkx.vfs]
      exact h.counted x hp
    · exact Or.inr hp
  · rcases hv.bare x hb with hp | hp
    · rcases h.bare x hxd hp with hq | hq | hq
      · exact Or.inl hq
      · exact Or.inr (Or.inl (by rw [(hv.kept x (Or.inl hq)).populated]; exact hq))
      · exact Or.inr (Or.inr (by rw [disk_of_core hv.core]; exact hq))
    · exact Or.inr hp
  · rw [hd.2 j (by omega)] at hc
    rw [kind_of_core hv.core] at hdir
    exact hv.settled c (h.slots j hj c hc hdir)

/-- The loop is at its end. -/
theorem Reading.finish (h : Reading active fs d (fs.nodes d).disk.childCount
    (fs.nodes d).disk.childCount fs₁) :
    Visit active fs (fs₁.modify d fun n => { n with populated := true }) := by
  obtain ⟨fs₂, hfs₂⟩ : ∃ fs₂, fs₂ = fs₁.modify d fun n => { n with populated := true } := ⟨_, rfl⟩
  have hself : fs₂.nodes d = { fs₁.nodes d with populated := true } := by
    rw [hfs₂, modify_nodes_self]
  have hkept : ∀ x, x ≠ d → Kept fs₁ fs₂ x := fun x hx => by
    rw [hfs₂]
    exact Kept.of_eq (modify_nodes_ne _ _ hx) rfl rfl
  have hcore : fs₂.core = fs₁.core := by rw [hfs₂, modify_core rfl]
  rw [← hfs₂]
  refine ⟨?_, hcore.trans h.core, fun x hx => ?_,
    fun x hx => (h.kept x hx).trans (hkept x (h.opens.ne hx)), fun x hx => ?_, fun x hb => ?_⟩
  · rw [hfs₂]
    exact h.walk.populated h.owned (by rw [h.count]; exact h.opens.fits)
      (by rw [h.count]; exact h.slots)
  · by_cases hxd : x = d
    · rw [hxd]
      exact Or.inl (by rw [hself])
    · exact (hkept x hxd).settled (h.settled x hxd hx)
  · by_cases hxd : x = d
    · refine Or.inr ?_
      rw [hxd, hself, disk_of_core h.core, h.count]
    · rw [(hkept x hxd).populated] at hx
      rw [(hkept x hxd).disk, (hkept x hxd).vfs]
      exact h.counted x hx
  · by_cases hxd : x = d
    · rw [hxd]
      exact Or.inr (Or.inl (by rw [hself]))
    · rw [(hkept x hxd).base] at hb
      rw [(hkept x hxd).populated, (hkept x hxd).disk]
      exact h.bare x hxd hb

end Loop

theorem visitRule : PopulateRule (fun _ _ fs _ => Walk fs)
    (fun active fs d fs' ok => Visit active fs fs' ∧ (ok = true → (fs'.nodes d).populated = true))
    (fun _ active fs d _ k fs' => Reading active fs d k k fs') where
  deep h := ⟨Visit.refl h _, by simp⟩
  other h _ := ⟨Visit.refl h _, by simp⟩
  done h hp := ⟨Visit.refl h _, fun _ => hp⟩
  refused h _ _ _ := ⟨Visit.refl h _, by simp⟩
  full h _ _ _ := ⟨Visit.refl h _, by simp⟩
  unread := by
    intro fuel active fs fs₁ fs₂ d h ho ha hr
    refine ⟨((open_spec h.windows ha hr).reading h ho).stop fun h0 => ?_, by simp⟩
    -- no records need no reading
    rw [h0, readDirEntries, if_pos rfl] at hr
    exact absurd (Prod.mk.inj hr).2 (by simp)
  start h ho ha hr := (open_spec h.windows ha hr).reading h ho
  bad hinv hk _ := ⟨hinv.stop (by omega), by simp⟩
  leaf := by
    intro fuel active fs fs₁ fs₂ d entries k hinv hk _ he hun
    obtain ⟨hread, hslot⟩ := hinv.enter hk he
    refine hread.next hslot fun hdir => Or.inl ?_
    have hkind := hread.walk.kinds _ hdir
    by_contra hp
    exact hun ⟨hkind, by simpa using hp⟩
  call hinv hk _ he _ := (hinv.enter hk he).1.walk
  back := by
    intro fuel active fs fs₁ fs₂ fs₃ d entries k hinv hk _ he _ hpost
    have hfits := hinv.opens.fits
    obtain ⟨hread, hslot⟩ := hinv.enter hk he
    obtain ⟨hread', hslots⟩ := hread.visit (by omega) (by omega) hpost.1
    exact hread'.next (by rw [hslots k (by omega), hslot]) fun _ => Or.inl (hpost.2 rfl)
  stop := by
    intro fuel active fs fs₁ fs₂ fs₃ d entries k hinv hk _ he _ hpost
    have hfits := hinv.opens.fits
    obtain ⟨hread', -⟩ := (hinv.enter hk he).1.visit (by omega) (by omega) hpost.1
    exact ⟨hread'.stop (by omega), by simp⟩
  finish hinv := ⟨hinv.finish, fun _ => by rw [modify_nodes_self]⟩

/-- **Populating keeps the walk's invariant**, whatever the device holds, and a call
that succeeds leaves the directory populated. -/
theorem populate_visit (h : Walk fs) (d : Nat) : Visit [] fs (fs.populate d).1 ∧
    ((fs.populate d).2 = true → ((fs.populate d).1.nodes d).populated = true) :=
  visitRule.populate populateDepth [] fs d h

/-- A populated directory is not walked again. -/
theorem populate_done (hk : (fs.nodes d).disk.kind = kindDir) (hp : (fs.nodes d).populated = true) :
    fs.populate d = (fs, true) := by
  unfold populate
  rw [populateDirectory, if_neg (not_not.mpr hk), if_pos hp]

/-- A settled directory with a window, or with room for one, can be populated. -/
theorem populate_settled (hk : (fs.nodes d).disk.kind = kindDir) (hs : Settled fs d)
    (hroom : (fs.nodes d).dirSlotBase ≠ none ∨ fs.nextDirEntrySlot + 32 ≤ 512) :
    (fs.populate d).2 = true := by
  rcases hs with hp | ⟨h0, -⟩
  · rw [populate_done hk hp]
  unfold populate
  rw [populateDirectory, if_neg (not_not.mpr hk)]
  split
  · rfl
  rw [if_neg (by rw [h0]; simp), h0]
  split
  next fs₁ ha =>
    obtain ⟨-, hnone, hfull⟩ := allocDirSlots_false ha
    rcases hroom with hb | hb
    · exact absurd hnone hb
    · omega
  next fs₁ ha =>
    rw [readDirEntries, if_pos rfl]
    rfl

end Simplefs

end Riverix.Fs
