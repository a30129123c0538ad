import Riverix.Fs.Parts

/-!
# Populating the tree

`simplefs_populate_directory` reads the records of a directory into its window and
calls itself for every child that is a directory. This file has the induction over
these calls, once: `PopulateRule` lists what has to be checked at each point of the
function, and `PopulateRule.populate` concludes for every call. What populating
leaves alone is the first use of it.
-/

namespace Riverix.Fs

open Riverix.Lib

namespace Simplefs

variable {fs fs' : Simplefs} {d i : Nat}

theorem allocDirSlots_true (h : fs.allocDirSlots d = (fs', true)) :
    (fs.nodes d).dirSlotBase ≠ none ∧ fs' = fs ∨
      fs.nextDirEntrySlot + 32 ≤ 512 ∧ fs' = fs.takeWindow d := by
  unfold allocDirSlots at h
  split at h
  next hb => exact Or.inl ⟨hb, (Prod.mk.inj h).1.symm⟩
  next =>
    split at h
    · exact absurd (Prod.mk.inj h).2 (by simp)
    next hroom => exact Or.inr ⟨Nat.not_lt.mp hroom, (Prod.mk.inj h).1.symm⟩

/-- The pool of slots is used up. -/
theorem allocDirSlots_false (h : fs.allocDirSlots d = (fs', false)) :
    fs' = fs ∧ (fs.nodes d).dirSlotBase = none ∧ fs.nextDirEntrySlot + 32 > 512 := by
  unfold allocDirSlots at h
  split at h
  · exact absurd (Prod.mk.inj h).2 (by simp)
  next hn =>
    split at h
    next hfull => exact ⟨(Prod.mk.inj h).1.symm, not_not.mp hn, hfull⟩
    · exact absurd (Prod.mk.inj h).2 (by simp)

/-! ## The rule -/

/-- The call gets as far as the window. -/
structure Opens (active : List Nat) (fs : Simplefs) (d : Nat) : Prop where
  kind : (fs.nodes d).disk.kind = kindDir
  fresh : (fs.nodes d).populated = false
  idle : d ∉ active
  fits : (fs.nodes d).disk.childCount ≤ 32

/-- Record `k` is one that is refused. -/
abbrev BadRecord (fs : Simplefs) (entries : Store) (k : Nat) : Prop :=
  entryInode entries k ≥ fs.sb.inodeCount ∨ (entryName entries k).length = 0
    ∨ (entryName entries k).length > nameMax

/-- The child has a call of its own. -/
abbrev Unvisited (fs : Simplefs) (child : Nat) : Prop :=
  (fs.nodes child).disk.kind = kindDir ∧ (fs.nodes child).populated = false

/-- A proof rule for `populateDirectory`: `Pre` holds when a call starts and `Post`
relates its start to its result; `Inv` holds after `k` records of the loop. -/
structure PopulateRule (Pre : Nat → List Nat → Simplefs → Nat → Prop)
    (Post : List Nat → Simplefs → Nat → Simplefs → Bool → Prop)
    (Inv : Nat → List Nat → Simplefs → Nat → Store → Nat → Simplefs → Prop) : Prop where
  deep : ∀ {active fs d}, Pre 0 active fs d → Post active fs d fs false
  other : ∀ {fuel active fs d}, Pre (fuel + 1) active fs d → (fs.nodes d).disk.kind ≠ kindDir →
    Post active fs d fs false
  done : ∀ {fuel active fs d}, Pre (fuel + 1) active fs d → (fs.nodes d).populated = true →
    Post active fs d fs true
  refused : ∀ {fuel active fs d}, Pre (fuel + 1) active fs d → (fs.nodes d).disk.kind = kindDir →
    (fs.nodes d).populated = false → d ∈ active ∨ (fs.nodes d).disk.childCount > 32 →
    Post active fs d fs false
  full : ∀ {fuel active fs d}, Pre (fuel + 1) active fs d → Opens active fs d →
    (fs.nodes d).dirSlotBase = none → fs.nextDirEntrySlot + 32 > 512 → Post active fs d fs false
  unread : ∀ {fuel active fs fs₁ fs₂ d}, Pre (fuel + 1) active fs d → Opens active fs d →
    fs.allocDirSlots d = (fs₁, true) →
    (fs₁.clearWindow d).readDirEntries d (fs.nodes d).disk.childCount = (fs₂, none) →
    Post active fs d fs₂ false
  start : ∀ {fuel active fs fs₁ fs₂ d entries}, Pre (fuel + 1) active fs d → Opens active fs d →
    fs.allocDirSlots d = (fs₁, true) →
    (fs₁.clearWindow d).readDirEntries d (fs.nodes d).disk.childCount = (fs₂, some entries) →
    Inv fuel active fs d entries 0 fs₂
  bad : ∀ {fuel active fs fs₁ d entries k}, Inv fuel active fs d entries k fs₁ →
    k < (fs.nodes d).disk.childCount → BadRecord fs₁ entries k → Post active fs d fs₁ false
  leaf : ∀ {fuel active fs fs₁ fs₂ d entries k}, Inv fuel active fs d entries k fs₁ →
    k < (fs.nodes d).disk.childCount → ¬BadRecord fs₁ entries k →
    fs₂ = fs₁.enterChild d (entryInode entries k) (entryName entries k) →
    ¬Unvisited fs₂ (entryInode entries k) → Inv fuel active fs d entries (k + 1) fs₂
  call : ∀ {fuel active fs fs₁ fs₂ d entries k}, Inv fuel active fs d entries k fs₁ →
    k < (fs.nodes d).disk.childCount → ¬BadRecord fs₁ entries k →
    fs₂ = fs₁.enterChild d (entryInode entries k) (entryName entries k) →
    Unvisited fs₂ (entryInode entries k) → Pre fuel (d :: active) fs₂ (entryInode entries k)
  back : ∀ {fuel active fs fs₁ fs₂ fs₃ d entries k}, Inv fuel active fs d entries k fs₁ →
    k < (fs.nodes d).disk.childCount → ¬BadRecord fs₁ entries k →
    fs₂ = fs₁.enterChild d (entryInode entries k) (entryName entries k) →
    populateDirectory fuel (d :: active) fs₂ (entryInode entries k) = (fs₃, true) →
    Post (d :: active) fs₂ (entryInode entries k) fs₃ true →
    Inv fuel active fs d entries (k + 1) fs₃
  stop : ∀ {fuel active fs fs₁ fs₂ fs₃ d entries k}, Inv fuel active fs d entries k fs₁ →
    k < (fs.nodes d).disk.childCount → ¬BadRecord fs₁ entries k →
    fs₂ = fs₁.enterChild d (entryInode entries k) (entryName entries k) →
    populateDirectory fuel (d :: active) fs₂ (entryInode entries k) = (fs₃, false) →
    Post (d :: active) fs₂ (entryInode entries k) fs₃ false → Post active fs d fs₃ false
  finish : ∀ {fuel active fs fs₁ d entries},
    Inv fuel active fs d entries (fs.nodes d).disk.childCount fs₁ →
    Post active fs d (fs₁.modify d fun n => { n with populated := true }) true

section Rule

variable {Pre : Nat → List Nat → Simplefs → Nat → Prop}
  {Post : List Nat → Simplefs → Nat → Simplefs → Bool → Prop}
  {Inv : Nat → List Nat → Simplefs → Nat → Store → Nat → Simplefs → Prop}

/-- The loop over the records, from record `k` on. -/
theorem PopulateRule.records (h : PopulateRule Pre Post Inv) {fuel : Nat} {active : List Nat}
    {entries : Store} (ih : ∀ active fs d, Pre fuel active fs d →
      Post active fs d (populateDirectory fuel active fs d).1
        (populateDirectory fuel active fs d).2) (n : Nat) :
    ∀ k fs₁, k + n = (fs.nodes d).disk.childCount → Inv fuel active fs d entries k fs₁ →
      ∃ fs₂ ok, loop (populateEntry (populateDirectory fuel (d :: active)) d entries)
          (List.range' k n) fs₁ = (fs₂, ok) ∧
        if ok then Inv fuel active fs d entries (fs.nodes d).disk.childCount fs₂
        else Post active fs d fs₂ false := by
  induction n with
  | zero =>
    intro k fs₁ hk hinv
    refine ⟨fs₁, true, rfl, ?_⟩
    rw [← hk]
    exact hinv
  | succ n ihn =>
    intro k fs₁ hk hinv
    have hlt : k < (fs.nodes d).disk.childCount := by omega
    obtain ⟨fs₂, hfs₂⟩ : ∃ fs₂, fs₂ = fs₁.enterChild d (entryInode entries k)
      (entryName entries k) :=
      ⟨_, rfl⟩
    rw [List.range'_succ, loop, populateEntry]
    rw [← hfs₂]
    by_cases hbad : BadRecord fs₁ entries k
    · rw [if_pos hbad]
      exact ⟨fs₁, false, rfl, h.bad hinv hlt hbad⟩
    rw [if_neg hbad]
    by_cases hun : Unvisited fs₂ (entryInode entries k)
    · have hpost := ih _ _ _ (h.call hinv hlt hbad hfs₂ hun)
      obtain ⟨⟨fs₃, ok⟩, hcall⟩ : ∃ r, populateDirectory fuel (d :: active) fs₂
        (entryInode entries k) = r := ⟨_, rfl⟩
      rw [if_pos hun, hcall]
      rw [hcall] at hpost
      cases ok with
      | false => exact ⟨fs₃, false, rfl, h.stop hinv hlt hbad hfs₂ hcall hpost⟩
      | true => exact ihn (k + 1) fs₃ (by omega) (h.back hinv hlt hbad hfs₂ hcall hpost)
    · rw [if_neg hun]
      exact ihn (k + 1) fs₂ (by omega) (h.leaf hinv hlt hbad hfs₂ hun)

/-- The induction over the calls. -/
theorem PopulateRule.populate (h : PopulateRule Pre Post Inv) (fuel : Nat) :
    ∀ active fs d, Pre fuel active fs d →
      Post active fs d (populateDirectory fuel active fs d).1
        (populateDirectory fuel active fs d).2 := by
  induction fuel with
  | zero => exact fun _ _ _ hpre => h.deep hpre
  | succ fuel ih =>
    intro active fs d hpre
    rw [populateDirectory]
    split
    next hk => exact h.other hpre hk
    next hk =>
    rw [not_not] at hk
    split
    next hp => exact h.done hpre hp
    next hp =>
    rw [Bool.not_eq_true] at hp
    split
    next hr => exact h.refused hpre hk hp hr
    next hr =>
    rw [not_or, Nat.not_lt] at hr
    have hopens : Opens active fs d := ⟨hk, hp, hr.1, hr.2⟩
    split
    next fs₁ ha =>
      obtain ⟨rfl, hnone, hfull⟩ := allocDirSlots_false ha
      exact h.full hpre hopens hnone hfull
    next fs₁ ha =>
    split
    next fs₂ hread => exact h.unread hpre hopens ha hread
    next fs₂ entries hread =>
    obtain ⟨fs₃, ok, hloop, hend⟩ := h.records ih (fs.nodes d).disk.childCount 0 fs₂
      (by omega) (h.start hpre hopens ha hread)
    rw [List.range_eq_range', hloop]
    cases ok with
    | false => exact hend
    | true => exact h.finish hend

end Rule

/-! ## What populating leaves alone -/

/-- What populating does, if each of the changes it is made of does so. -/
theorem populateDirectory_rel {R : Simplefs → Simplefs → Prop} (hrefl : ∀ fs, R fs fs)
    (htrans : ∀ {a b c}, R a b → R b c → R a c)
    (hread : ∀ fs d count, R fs (fs.readDirEntries d count).1)
    (halloc : ∀ fs d, R fs (fs.allocDirSlots d).1) (hclear : ∀ fs d, R fs (fs.clearWindow d))
    (henter : ∀ fs d child name, R fs (fs.enterChild d child name))
    (hdone : ∀ fs d, R fs (fs.modify d fun n => { n with populated := true })) (fuel : Nat)
    (active : List Nat) (fs : Simplefs) (d : Nat) :
    R fs (populateDirectory fuel active fs d).1 := by
  have hopen : ∀ {fs fs₁ fs₂ : Simplefs} {d count : Nat} {out : Option Store},
      fs.allocDirSlots d = (fs₁, true) → (fs₁.clearWindow d).readDirEntries d count = (fs₂, out) →
      R fs fs₂ := by
    intro fs fs₁ fs₂ d count out ha hr
    have h₁ := halloc fs d
    have h₂ := hread (fs₁.clearWindow d) d count
    rw [ha] at h₁
    rw [hr] at h₂
    exact htrans (htrans h₁ (hclear fs₁ d)) h₂
  have hrule : PopulateRule (fun _ _ _ _ => True) (fun _ fs _ fs' _ => R fs fs')
      (fun _ _ fs _ _ _ fs₁ => R fs fs₁) :=
    { deep := fun _ => hrefl _
      other := fun _ _ => hrefl _
      done := fun _ _ => hrefl _
      refused := fun _ _ _ _ => hrefl _
      full := fun _ _ _ _ => hrefl _
      unread := fun _ _ ha hr => hopen ha hr
      start := fun _ _ ha hr => hopen ha hr
      bad := fun hinv _ _ => hinv
      leaf := fun hinv _ _ he _ => by subst he; exact htrans hinv (henter _ _ _ _)
      call := fun _ _ _ _ _ => trivial
      back := fun hinv _ _ he _ hpost => by
        subst he
        exact htrans hinv (htrans (henter _ _ _ _) hpost)
      stop := fun hinv _ _ he _ hpost => by
        subst he
        exact htrans hinv (htrans (henter _ _ _ _) hpost)
      finish := fun hinv => htrans hinv (hdone _ _) }
  exact hrule.populate fuel active fs d trivial

/-- Reading records changes nothing but how many faults are still to come. -/
theorem readDirEntries_shape (fs : Simplefs) (d count : Nat) :
    ∃ dev, dev.bytes = fs.dev.bytes ∧ dev.blockCount = fs.dev.blockCount ∧
      (fs.readDirEntries d count).1 = { fs with dev } := by
  unfold readDirEntries
  dsimp only
  split
  · exact ⟨fs.dev, rfl, rfl, rfl⟩
  split
  · exact ⟨fs.dev, rfl, rfl, rfl⟩
  obtain ⟨r, hr⟩ : ∃ r, r = fs.readBlocks (fs.nodes d).disk.dataBlock (dirRequiredBlocks count) :=
    ⟨_, rfl⟩
  have hfst : r.1 = { fs with dev := r.1.dev } := by rw [hr]; rfl
  have hbytes : r.1.dev.bytes = fs.dev.bytes := by rw [hr]; exact (Device.read_bytes ..).1
  have hblocks : r.1.dev.blockCount = fs.dev.blockCount := by
    rw [hr]
    exact (Device.read_bytes ..).2.1
  rw [← hr]
  split
  · exact ⟨_, hbytes, hblocks, hfst⟩
  · exact ⟨_, hbytes, hblocks, hfst⟩

theorem readDirEntries_core (fs : Simplefs) (d count : Nat) :
    (fs.readDirEntries d count).1.core = fs.core := by
  obtain ⟨dev, -, -, h⟩ := readDirEntries_shape fs d count
  rw [h]
  rfl

theorem enterChild_core (fs : Simplefs) (d child : Nat) (name : List Byte) :
    (fs.enterChild d child name).core = fs.core := by
  unfold enterChild
  rw [appendChild_core, modify_core rfl]

/-- Populating leaves the disk records and the bitmaps alone. -/
theorem populate_core (fs : Simplefs) (d : Nat) : (fs.populate d).1.core = fs.core :=
  populateDirectory_rel (R := fun fs fs' => fs'.core = fs.core) (fun _ => rfl)
    (fun h h' => h'.trans h) readDirEntries_core allocDirSlots_core clearWindow_core
    enterChild_core (fun _ _ => modify_core rfl) populateDepth [] fs d

theorem allocDirSlots_dev (fs : Simplefs) (d : Nat) : (fs.allocDirSlots d).1.dev = fs.dev := by
  unfold allocDirSlots
  split
  · rfl
  · split <;> rfl

/-- On a device without faults, populating leaves the device alone. -/
theorem populate_dev (hf : fs.dev.faults = []) (d : Nat) : (fs.populate d).1.dev = fs.dev := by
  refine populateDirectory_rel (R := fun fs fs' => fs.dev.faults = [] → fs'.dev = fs.dev)
    (fun _ _ => rfl) (fun h h' hf => ?_) (fun fs d count hf => ?_) (fun fs d _ => ?_)
    (fun fs d _ => ?_) (fun fs d child name _ => ?_) (fun _ _ _ => rfl) populateDepth [] fs d hf
  · rw [h' (by rw [h hf]; exact hf), h hf]
  · rw [readDirEntries_fst hf]
  · exact allocDirSlots_dev fs d
  · exact setSlots_dev fs d _
  · exact setSlots_dev _ d _

end Simplefs

end Riverix.Fs
