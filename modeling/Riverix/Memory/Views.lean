import Riverix.Lib.Run
import Riverix.Memory.Built
import Riverix.Memory.CopyOnWrite

/-!
# What an address space sees

`sees m d va` is the byte that the space `d` reads at `va`. On a machine that is `Built`,
`paging_map_page_in` gives one page of one space the bytes of the frame, and nobody sees
anything else of it (**`mapPageIn_sees`**). Resolving copy-on-write moves a page to another
frame and nobody sees that at all: whatever faults are taken, in whatever order, and whether or
not a frame is left, every space reads on what it read before (**`faults_unseen`**).
-/

namespace Riverix.Memory

open Riverix.Lib

variable {owner : Nat → Role} {m m' : Machine} {ds pages : List Nat} {d va d' va' : Nat}

/-- The byte that the space `d` reads at `va`. -/
def Machine.sees (m : Machine) (d va : Nat) : Option Byte :=
  (m.lookupPageIn d va).map fun found => m.mem (found.1 + va % 4096)

theorem sees_eq (hd : d ≠ 0) : m.sees d va =
    if leafEntry m.mem d va &&& pagePresent = 0 then none
    else some (m.mem (leafEntry m.mem d va / 4096 * 4096 + va % 4096)) := by
  unfold Machine.sees
  rw [lookupPageIn_eq hd]
  split <;> rfl

/-- Where the entry stays, and no page loses its bytes, the same is seen. -/
theorem SpaceOk.sees_congr (h : SpaceOk owner m ds) (hd : d ∈ ds) (hva : UserAddress va)
    (hleaf : leafEntry m'.mem d va = leafEntry m.mem d va)
    (hbytes : ∀ a, owner (a / 4096) = .page → m'.mem a = m.mem a) :
    m'.sees d va = m.sees d va := by
  have hd0 := h.dir_ne_zero hd
  rw [sees_eq hd0, sees_eq hd0, hleaf]
  by_cases hp : leafEntry m.mem d va &&& pagePresent = 0
  · rw [if_pos hp, if_pos hp]
  rw [if_neg hp, if_neg hp, hbytes]
  rw [frame_add_div (Nat.mod_lt _ (by decide))]
  exact ((h.leaf_user hd hva).resolve_left hp).2

/-- **Mapping a user page** shows the frame's bytes there, and changes nothing that any space
sees at another user address; where the mapping fails, nothing changes. -/
theorem mapPageIn_sees {f flags : Nat} (h : Built m ds pages) (hd : d ∈ ds) (hf : f ∈ pages)
    (hva : UserAddress va) (hal : va % 4096 = 0) (hflags : flags < 4096)
    (hu : flags &&& pageUser ≠ 0) (hd' : d' ∈ ds) (hva' : UserAddress va') :
    (m.mapPageIn d va (f * 4096) flags).1.sees d' va' =
      if (m.mapPageIn d va (f * 4096) flags).2 = true ∧ d' = d ∧ va' / 4096 = va / 4096
      then some (m.mem (f * 4096 + va' % 4096)) else m.sees d' va' := by
  obtain ⟨owner, hok⟩ := h.pagesOk
  rcases mapPageIn_spec hok.space hd hva hal (hok.space.palloc.frame_lt (hok.managed f hf)) hflags
      hu (hok.page f hf) with ⟨he, -⟩ | ⟨m₁, owner', he, hm⟩ <;> rw [he]
  · rw [if_neg (by simp)]
  by_cases hc : d' = d ∧ va' / 4096 = va / 4096
  · -- the entry is the new one, and the frame keeps its bytes while a table is allocated
    have hlow := or_present_lt hflags
    have hpresent : (f * 4096 + (flags ||| pagePresent)) &&& pagePresent ≠ 0 := by
      rw [and_flag_mod _ (by decide),
        show (f * 4096 + (flags ||| pagePresent)) % 4096 = flags ||| pagePresent by omega,
        Nat.and_or_distrib_right]
      simp
    rw [if_pos ⟨rfl, hc⟩, sees_eq (hok.space.dir_ne_zero hd'), hm.leaf d' hd' va' hva', if_pos hc,
      if_neg hpresent, show (f * 4096 + (flags ||| pagePresent)) / 4096 = f by omega, hm.page_bytes]
    rw [frame_add_div (Nat.mod_lt _ (by decide))]
    exact hok.page f hf
  · rw [if_neg fun hno => hc hno.2]
    exact hok.space.sees_congr hd' hva' (by rw [hm.leaf d' hd' va' hva', if_neg hc]) hm.page_bytes

/-- The first page of the sample machine shows the frame it was given. -/
theorem mapPageIn_sees_sample : sampleMachine.sees 8192 userVirtBase = some 0 :=
  (mapPageIn_sees samplePaged_built (List.mem_singleton_self 8192) (List.mem_singleton_self 3)
    (by decide : UserAddress userVirtBase) (by decide) (by decide : 7 < 4096) (by decide)
    (List.mem_singleton_self 8192) (by decide : UserAddress userVirtBase)).trans (by decide +kernel)

/-! ## Faults -/

/-- A store to a page that is closed to it, at the address `x.2` of the space `x.1`. -/
def Machine.fault (m : Machine) (x : Nat × Nat) : Machine := (m.resolveCopyOnWriteIn x.1 x.2).1

theorem SpaceOk.fault (h : SpaceOk owner m ds) (hd : d ∈ ds) (hva : UserAddress va) :
    ∃ owner', SpaceOk owner' (m.fault (d, va)) ds ∧ ∀ d' ∈ ds, ∀ va', UserAddress va' →
      (m.fault (d, va)).sees d' va' = m.sees d' va' := by
  unfold Machine.fault
  rcases resolveCopyOnWriteIn_spec h hd hva with he | ⟨owner', f, m', he, hr, hcow,
    hkept⟩ <;> rw [he]
  · exact ⟨owner, h, fun _ _ _ _ => rfl⟩
  refine ⟨owner', hr.ok, fun d' hd' va' hva' => ?_⟩
  have hleaf := hr.leaf d' hd' va' hva'
  split at hleaf
  next hc =>
    -- the page itself is in the frame `f` now, with the same bytes
    obtain ⟨rfl, hpage⟩ := hc
    have hsame : leafEntry m.mem d' va' = leafEntry m.mem d' va := by
      rw [← leafEntry_page m.mem d' va', hpage, leafEntry_page]
    rw [sees_eq (h.dir_ne_zero hd), sees_eq (h.dir_ne_zero hd), hleaf, hsame,
      if_neg (resolvedEntry_present _ _), if_neg hcow.present, resolvedEntry_div,
      hr.bytes _ (Nat.mod_lt _ (by decide))]
  · exact h.sees_congr hd' hva' hleaf hkept

/-- **Nobody sees that a page was split off or promoted**, in any run of faults. -/
theorem faults_unseen (h : Built m ds pages) {faults : List (Nat × Nat)}
    (hf : Guarded Machine.fault (fun _ x => x.1 ∈ ds ∧ UserAddress x.2) m faults) (hd : d ∈ ds)
    (hva : UserAddress va) : (run Machine.fault m faults).sees d va = m.sees d va := by
  obtain ⟨owner, hok⟩ := h.pagesOk
  obtain ⟨-, -, hsees⟩ := guarded_invariant (I := fun m' => ∃ owner', SpaceOk owner' m' ds ∧
      ∀ d ∈ ds, ∀ va, UserAddress va → m'.sees d va = m.sees d va)
    (fun m₁ x ⟨_, hs, hsame⟩ hx => by
      obtain ⟨owner₂, hs₂, hsame₂⟩ := hs.fault hx.1 hx.2
      exact ⟨owner₂, hs₂, fun d hd va hva => (hsame₂ d hd va hva).trans (hsame d hd va hva)⟩)
    faults ⟨owner, hok.space, fun _ _ _ _ => rfl⟩ hf
  exact hsees d hd va hva

/-- The page of the sample machine is closed to stores until the fault. -/
theorem faults_unseen_sample :
    (run Machine.fault (samplePaged.mapPageIn 8192 userVirtBase (3 * 4096) 0x204).1
        [(8192, userVirtBase + 5)]).sees 8192 userVirtBase
      = (samplePaged.mapPageIn 8192 userVirtBase (3 * 4096) 0x204).1.sees 8192 userVirtBase :=
  faults_unseen (.map samplePaged_built (List.mem_singleton_self 8192) (List.mem_singleton_self 3)
    (by decide : UserAddress userVirtBase) (by decide) (by decide : 0x204 < 4096) (by decide)
    Prod.mk.eta.symm) (by decide) (List.mem_singleton_self 8192) (by decide)

end Riverix.Memory
