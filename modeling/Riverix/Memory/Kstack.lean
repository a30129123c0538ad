import Riverix.Memory.Region

/-!
# Guarded kernel stacks (`kstack.c`)

The stack window is cut into slots of three pages: a guard page that is never mapped and two
data pages. A bitmap says which slots are taken. `kstack_alloc` takes a slot, two frames and
maps them; it has a rollback for each of the steps that can fail. `kstack_free` undoes it.

Page `3k` of the window is the guard of slot `k`, so the pages in use are those with
`n % 3 ≠ 0` whose slot bit is set, and `OwnPages` for them is most of the invariant `Ok`.
The stack objects of the tasks are kept by an arbitrary index, and an allocation on an object
that is still live is allowed: its old slot then stays taken.

**`stacks_guarded`** is the result over runs. The calls may be made in any address space, and
between them the rest of the kernel may do anything that respects what the stacks own.
-/

namespace Riverix.Memory

open Riverix.Lib

/-- `kernel_stack_t` -/
structure KernelStack where
  guardBase : Nat
  stackBase : Nat
  stackTop : Nat
deriving DecidableEq

/-- The statics of `kstack.c`, the machine, and the stack objects of the callers. -/
structure Kstack where
  machine : Machine
  kstackSlots : Bitmap 8
  kstackReady : Bool
  kstackActiveCount : Nat
  objects : Nat → KernelStack

namespace Kstack

/-- `KSTACK_SLOT_SIZE` -/
abbrev slotSize : Nat := 0x3000

/-- `KSTACK_SLOT_COUNT` -/
abbrev slotCount : Nat := 5120

/-- The number of slots is the size of the window over the size of a slot. -/
example : (kernelStackLimit - kernelStackBase) / slotSize = slotCount := by decide

/-- `kstack_clear` -/
def clear : KernelStack := ⟨0, 0, 0⟩

/-- `kstack_slot_guard_base` -/
def slotGuardBase (slotIndex : Nat) : Nat := (kernelStackBase + slotIndex * slotSize) % 2 ^ 32

/-- `kstack_slot_stack_base` -/
def slotStackBase (slotIndex : Nat) : Nat := (slotGuardBase slotIndex + 4096) % 2 ^ 32

/-- `kstack_slot_stack_top` -/
def slotStackTop (slotIndex : Nat) : Nat := (slotStackBase slotIndex + 8192) % 2 ^ 32

/-- `kstack_slot_mark_used` -/
def slotMarkUsed (slots : Bitmap 8) (slotIndex : Nat) : Option (Bitmap 8) :=
  if slots.test slotIndex then none else some (slots.mark slotIndex)

/-- `kstack_find_slot` -/
def findSlot (slots : Bitmap 8) : Option Nat :=
  (List.range slotCount).find? fun index => !slots.test index

/-- `kstack_slot_index_from_guard` -/
def slotIndexFromGuard (guardBase : Nat) : Option Nat :=
  if guardBase < kernelStackBase ∨ guardBase ≥ kernelStackLimit then none
  else if (guardBase - kernelStackBase) % slotSize ≠ 0 then none
  else if (guardBase - kernelStackBase) / slotSize ≥ slotCount then none
  else some ((guardBase - kernelStackBase) / slotSize)

/-- `kstack_is_guard_address` -/
def isGuardAddress (virtualAddress : Nat) : Bool :=
  if virtualAddress < kernelStackBase ∨ virtualAddress ≥ kernelStackLimit then false
  else (virtualAddress - kernelStackBase) % slotSize < 4096

/-- `kstack_init` -/
def init (s : Kstack) : Kstack :=
  { s with kstackSlots := fun _ => 0, kstackReady := true, kstackActiveCount := 0 }

/-- The rollbacks of `kstack_alloc`: the pages go back to the allocator. -/
def freePages (m : Machine) (pages : List Nat) : Machine :=
  pages.foldl (fun m page => { m with palloc := m.palloc.freePage page }) m

/-- The loop of `kstack_alloc` that takes the data pages; `taken` are those it has. -/
def takePages (m : Machine) (taken : List Nat) : Nat → Machine × Option (List Nat)
  | 0 => (m, some taken)
  | count + 1 =>
    let (palloc, page) := m.palloc.allocPage
    if page = 0 then (freePages { m with palloc } taken, none)
    else takePages { m with palloc, mem := zeroPage m.mem page } (taken ++ [page]) count

/-- The part of `kstack_alloc` behind the search for a slot; the slot is marked. -/
def fillSlot (s : Kstack) (directoryPhys object slotIndex : Nat) : Kstack × Bool :=
  match takePages s.machine [] 2 with
  | (machine, none) => ({ s with machine, kstackSlots := s.kstackSlots.clear slotIndex }, false)
  | (machine, some pages) =>
    match machine.mapPagesIn directoryPhys (slotStackBase slotIndex) pages pageWritable with
    | (machine, false) =>
      ({ s with
          machine := freePages machine pages
          kstackSlots := s.kstackSlots.clear slotIndex }, false)
    | (machine, true) =>
      ({ s with
          machine
          objects := Function.update s.objects object
            ⟨slotGuardBase slotIndex, slotStackBase slotIndex, slotStackTop slotIndex⟩
          kstackActiveCount := (s.kstackActiveCount + 1) % 2 ^ 32 }, true)

/-- `kstack_alloc`; `false` is the return value -1. -/
def alloc (s : Kstack) (directoryPhys object : Nat) : Kstack × Bool :=
  if !s.kstackReady then (s, false)
  else
    let s := { s with objects := Function.update s.objects object clear }
    match (findSlot s.kstackSlots).bind fun slotIndex =>
      (slotMarkUsed s.kstackSlots slotIndex).map fun slots => (slotIndex, slots) with
    | none => (s, false)
    | some (slotIndex, kstackSlots) =>
      fillSlot { s with kstackSlots } directoryPhys object slotIndex

/-- `kstack_free` -/
def free (s : Kstack) (directoryPhys object : Nat) : Kstack :=
  let stack := s.objects object
  if stack.guardBase = 0 then s
  else
    match slotIndexFromGuard stack.guardBase with
    | none => { s with objects := Function.update s.objects object clear }
    | some slotIndex =>
      let machine := (List.range 2).foldl (fun m index =>
        m.releasePage directoryPhys ((stack.stackBase + index * 4096) % 2 ^ 32)) s.machine
      { s with
        machine := machine.unmapPageIn directoryPhys stack.guardBase
        kstackActiveCount :=
          if s.kstackActiveCount ≠ 0 then s.kstackActiveCount - 1 else s.kstackActiveCount
        kstackSlots := s.kstackSlots.clear slotIndex
        objects := Function.update s.objects object clear }

/-! ## The slots -/

/-- The stack window. -/
def stackRegion : Region where
  lo := 1008
  hi := 1023
  base := kernelStackBase
  count := 15360
  page n hn := ⟨by unfold kernelStackBase; omega, by unfold kernelStackBase; omega,
    by unfold kernelStackBase; omega⟩

/-- A data page whose slot is taken. -/
def InUse (slots : Bitmap 8) (n : Nat) : Prop := n % 3 ≠ 0 ∧ slots.test (n / 3) = true

/-- The stack in a slot. -/
def stackOf (k : Nat) : KernelStack := ⟨slotGuardBase k, slotStackBase k, slotStackTop k⟩

/-- The slots whose bit is set. -/
def setSlots (slots : Bitmap 8) : Finset Nat :=
  (Finset.range slotCount).filter fun k => slots.test k = true

variable {s s' : Kstack} {m m' : Machine} {slots : Bitmap 8} {k d i j : Nat}

theorem guard_eq (hk : k < slotCount) : slotGuardBase k = stackRegion.at (3 * k) := by
  unfold slotGuardBase Region.at stackRegion
  simp only [kernelStackBase, slotSize, slotCount] at *
  omega

theorem stackBase_eq (hk : k < slotCount) : slotStackBase k = stackRegion.at (3 * k + 1) := by
  unfold slotStackBase
  rw [guard_eq hk]
  unfold Region.at stackRegion
  simp only [kernelStackBase, slotCount] at *
  omega

theorem data_page (hk : k < slotCount) (hj : j < 2) :
    (slotStackBase k + j * 4096) % 2 ^ 32 = stackRegion.at (3 * k + 1 + j) := by
  rw [stackBase_eq hk]
  unfold Region.at stackRegion
  simp only [kernelStackBase, slotCount] at *
  omega

theorem slotIndexFromGuard_slot (hk : k < slotCount) :
    slotIndexFromGuard (slotGuardBase k) = some k := by
  unfold slotIndexFromGuard
  rw [guard_eq hk]
  unfold Region.at stackRegion
  simp only [kernelStackBase, kernelStackLimit, slotSize, slotCount] at *
  rw [if_neg (by omega), if_neg (by omega), if_neg (by omega)]
  congr 1
  omega

theorem guard_ne_zero (hk : k < slotCount) : slotGuardBase k ≠ 0 := by
  rw [guard_eq hk]
  unfold Region.at stackRegion kernelStackBase
  dsimp only
  omega

theorem stackOf_inj {k' : Nat} (hk : k < slotCount) (hk' : k' < slotCount)
    (h : slotGuardBase k = slotGuardBase k') : k = k' := by
  rw [guard_eq hk, guard_eq hk'] at h
  unfold Region.at at h
  omega

/-- The guard test is exact: the slots fill the window. -/
theorem isGuardAddress_iff (va : Nat) :
    isGuardAddress va = true ↔
      ∃ k < slotCount, slotGuardBase k ≤ va ∧ va < slotGuardBase k + 4096 := by
  unfold isGuardAddress
  simp only [kernelStackBase, kernelStackLimit, slotSize]
  constructor
  · intro h
    split at h
    · simp at h
    next hin =>
    have hoff := of_decide_eq_true h
    have hk : (va - 0xFC000000) / 0x3000 < slotCount := by
      unfold slotCount
      omega
    refine ⟨_, hk, ?_⟩
    rw [guard_eq hk]
    unfold Region.at stackRegion kernelStackBase
    dsimp only
    omega
  · rintro ⟨k, hk, hge, hlt⟩
    rw [guard_eq hk] at hge hlt
    unfold Region.at stackRegion kernelStackBase at hge hlt
    dsimp only at hge hlt
    unfold slotCount at hk
    rw [if_neg (by omega)]
    exact decide_eq_true (by omega)

/-! ## Taking the data pages -/

theorem freePages_took {p : Palloc} {fs : List Nat} (h : Palloc.Took p m.palloc fs) :
    Palloc.Took p (freePages m (fs.map (· * 4096))).palloc [] ∧
      (freePages m (fs.map (· * 4096))).mem = m.mem ∧
      (freePages m (fs.map (· * 4096))).kernelPageDirectoryPhys = m.kernelPageDirectoryPhys := by
  induction fs generalizing m with
  | nil => exact ⟨h, rfl, rfl⟩
  | cons f fs ih =>
    have hdrop : Palloc.Took p (m.palloc.freePage (f * 4096)) fs := Palloc.Took.drop [] h
    exact ih (m := { m with palloc := m.palloc.freePage (f * 4096) }) hdrop

/-- What `takePages` has done when it returns. -/
structure Takes (m : Machine) (r : Machine × Option (List Nat)) (count : Nat) : Prop where
  scribbles : Scribbles m r.1
  none : r.2 = none → Palloc.Took m.palloc r.1.palloc []
  some : ∀ pages, r.2 = some pages → ∃ fs, pages = fs.map (· * 4096) ∧ fs.length = count ∧
    Palloc.Took m.palloc r.1.palloc fs

theorem takePages_takes {m₀ : Machine} (taken : List Nat) {count : Nat}
    (h0 : m₀.palloc.frameRefcounts 0 ≠ 0) (ht : Palloc.Took m₀.palloc m.palloc taken)
    (hs : Scribbles m₀ m) :
    Takes m₀ (takePages m (taken.map (· * 4096)) count) (taken.length + count) := by
  induction count generalizing m taken with
  | zero =>
    exact ⟨hs, fun h => absurd h (by simp [takePages]),
      fun pages h => ⟨taken, (Option.some.inj h).symm, rfl, ht⟩⟩
  | succ count ih =>
    have hzero : m.palloc.frameRefcounts 0 ≠ 0 := by
      rw [ht.counts]
      split
      · exact Nat.one_ne_zero
      · exact h0
    unfold takePages
    split
    next palloc page ha =>
    split
    next hp =>
      rw [hp] at ha
      have hsame := Palloc.allocPage_none ht.ok hzero ha
      subst hsame
      obtain ⟨hback, hmem, hk⟩ := freePages_took (m := m) ht
      exact ⟨⟨hk.trans hs.kernel, fun a hheld => by rw [hmem]; exact hs.bytes a hheld⟩,
        fun _ => hback, fun pages h => absurd h (by simp)⟩
    next hp =>
    obtain ⟨f, rfl, htaken⟩ := Palloc.allocPage_some ht.ok ha hp
    have htook := ht.take htaken
    have hfree : m₀.palloc.frameRefcounts f = 0 :=
      (htook.fresh f (List.mem_append_right _ List.mem_cons_self)).2.2
    have hscribbles : Scribbles m₀ { m with palloc, mem := zeroPage m.mem (f * 4096) } := by
      refine ⟨hs.kernel, fun a hheld => ?_⟩
      have hne : a / 4096 ≠ f * 4096 / 4096 := by
        rw [Nat.mul_div_cancel f (by decide)]
        rintro rfl
        exact hheld hfree
      exact (zeroPage_byte_other (Nat.mul_mod_left f 4096) hne).trans (hs.bytes a hheld)
    have hrec := ih (taken ++ [f]) htook hscribbles
    rw [List.map_append, List.length_append] at hrec
    rw [show taken.length + (count + 1) = taken.length + [f].length + count by
      rw [List.length_singleton]; omega]
    exact hrec

/-! ## The invariant -/

structure Ok (s : Kstack) : Prop where
  pages : OwnPages stackRegion s.machine (InUse s.kstackSlots)
  count : s.kstackActiveCount = (setSlots s.kstackSlots).card
  live : ∀ i, s.objects i ≠ clear →
    ∃ k < slotCount, s.kstackSlots.test k = true ∧ s.objects i = stackOf k
  distinct : ∀ i j, s.objects i ≠ clear → s.objects i = s.objects j → i = j

theorem setSlots_mark (hk : k < slotCount) (hfree : slots.test k = false) :
    (setSlots (slots.mark k)).card = (setSlots slots).card + 1 := by
  have hset : setSlots (slots.mark k) = insert k (setSlots slots) := by
    ext x
    simp only [setSlots, Finset.mem_filter, Finset.mem_range, Finset.mem_insert,
      Bitmap.test_mark (by decide : 0 < 8), Bool.or_eq_true, decide_eq_true_eq]
    constructor
    · rintro ⟨hx, rfl | ht⟩
      · exact Or.inl rfl
      · exact Or.inr ⟨hx, ht⟩
    · rintro (rfl | ⟨hx, ht⟩)
      · exact ⟨hk, Or.inl rfl⟩
      · exact ⟨hx, Or.inr ht⟩
  rw [hset, Finset.card_insert_of_notMem (by simp [setSlots, hfree])]

theorem setSlots_clear (hk : k < slotCount) (hset : slots.test k = true) :
    (setSlots (slots.clear k)).card + 1 = (setSlots slots).card := by
  have herase : setSlots (slots.clear k) = (setSlots slots).erase k := by
    ext x
    simp only [setSlots, Finset.mem_filter, Finset.mem_range, Finset.mem_erase,
      Bitmap.test_clear (by decide : 0 < 8), Bool.and_eq_true, Bool.not_eq_true',
      decide_eq_false_iff_not]
    tauto
  have hmem : k ∈ setSlots slots := Finset.mem_filter.mpr ⟨Finset.mem_range.mpr hk, hset⟩
  rw [herase, Finset.card_erase_add_one hmem]

theorem setSlots_le (slots : Bitmap 8) : (setSlots slots).card ≤ slotCount := by
  have h := Finset.card_filter_le (Finset.range slotCount) fun k => slots.test k = true
  rwa [Finset.card_range] at h

theorem inUse_mark (n : Nat) :
    InUse (slots.mark k) n ↔ InUse slots n ∨ (3 * k + 1 ≤ n ∧ n < 3 * k + 1 + 2) := by
  unfold InUse
  rw [Bitmap.test_mark (by decide : 0 < 8), Bool.or_eq_true, decide_eq_true_eq]
  constructor
  · rintro ⟨hn, hk | ht⟩
    · omega
    · exact Or.inl ⟨hn, ht⟩
  · rintro (⟨hn, ht⟩ | hn)
    · exact ⟨hn, Or.inr ht⟩
    · exact ⟨by omega, Or.inl (by omega)⟩

theorem inUse_clear (n : Nat) :
    InUse (slots.clear k) n ↔ (InUse slots n ∧ n ≠ 3 * k + 1) ∧ n ≠ 3 * k + 2 := by
  unfold InUse
  rw [Bitmap.test_clear (by decide : 0 < 8), Bool.and_eq_true, Bool.not_eq_true',
    decide_eq_false_iff_not]
  constructor
  · rintro ⟨hn, hk, ht⟩
    exact ⟨⟨⟨hn, ht⟩, by omega⟩, by omega⟩
  · rintro ⟨⟨⟨hn, ht⟩, h₁⟩, h₂⟩
    exact ⟨hn, by omega, ht⟩

theorem findSlot_some (h : findSlot slots = some k) : k < slotCount ∧ slots.test k = false := by
  have hmem := List.mem_of_find?_eq_some h
  have htest := List.find?_some h
  exact ⟨List.mem_range.mp hmem, by simpa using htest⟩

theorem stackOf_ne_clear (hk : k < slotCount) : stackOf k ≠ clear := by
  intro h
  exact guard_ne_zero hk (congrArg KernelStack.guardBase h)

/-- Clearing one object. -/
theorem Ok.clear_object (h : s.Ok) (i : Nat) :
    Ok { s with objects := Function.update s.objects i clear } := by
  refine ⟨h.pages, h.count, fun j hj => ?_, fun j j' hj heq => ?_⟩
  · have hji : j ≠ i := by
      rintro rfl
      exact hj (Function.update_self ..)
    dsimp only at hj ⊢
    rw [Function.update_of_ne hji] at hj ⊢
    exact h.live j hj
  · have hji : j ≠ i := by
      rintro rfl
      exact hj (Function.update_self ..)
    dsimp only at hj heq
    rw [Function.update_of_ne hji] at hj heq
    by_cases hj' : j' = i
    · rw [hj', Function.update_self] at heq
      exact absurd heq hj
    · rw [Function.update_of_ne hj'] at heq
      exact h.distinct j j' hj heq

/-! ## Allocation -/

/-- Nothing has changed but the object: the bytes of every frame that is held, and with them
every page table, every reference count, the slots and the other objects are as before. -/
structure Unchanged (s s' : Kstack) (object : Nat) : Prop where
  scribbles : Scribbles s.machine s'.machine
  counts : s'.machine.palloc.frameRefcounts = s.machine.palloc.frameRefcounts
  freeFrames : s'.machine.palloc.freeFrames = s.machine.palloc.freeFrames
  slots : s'.kstackSlots = s.kstackSlots
  active : s'.kstackActiveCount = s.kstackActiveCount
  objects : ∀ j ≠ object, s'.objects j = s.objects j

/-- The object has a slot of its own, and two frames are gone. -/
structure Allocated (s s' : Kstack) (object : Nat) : Prop where
  slot : ∃ k < slotCount, s.kstackSlots.test k = false ∧ s'.kstackSlots = s.kstackSlots.mark k ∧
    s'.objects object = stackOf k
  freeFrames : s'.machine.palloc.freeFrames + 2 = s.machine.palloc.freeFrames

/-- What a call of `kstack_alloc` comes to. -/
structure Answers (s : Kstack) (r : Kstack × Bool) (object : Nat) : Prop where
  ok : r.1.Ok
  failed : r.2 = false → Unchanged s r.1 object
  allocated : r.2 = true → Allocated s r.1 object

theorem Unchanged.clear_object (s : Kstack) (i : Nat) :
    Unchanged s { s with objects := Function.update s.objects i clear } i :=
  ⟨⟨rfl, fun _ _ => rfl⟩, rfl, rfl, rfl, rfl, fun _ hj => Function.update_of_ne hj ..⟩

theorem fillSlot_answers (h : s.Ok) (hk : k < slotCount) (hfree : s.kstackSlots.test k = false)
    (hd : Directory s.machine stackRegion d)
    (hheld : s.machine.palloc.frameRefcounts (d / 4096) ≠ 0) :
    Answers s (fillSlot { s with kstackSlots := s.kstackSlots.mark k } d i k) i := by
  have hw := h.pages.window
  have htakes : Takes s.machine (takePages s.machine [] 2) 2 :=
    takePages_takes [] hw.frameZero (Palloc.Took.refl hw.palloc) ⟨rfl, fun _ _ => rfl⟩
  unfold fillSlot
  split
  next machine he =>
    -- a frame was missing, and those that were taken are back
    rw [he] at htakes
    have htook := htakes.none rfl
    have hslots := Bitmap.clear_mark (by decide : 0 < 8) hfree
    refine ⟨⟨?_, ?_, ?_, h.distinct⟩, fun _ => ?_, by simp⟩
    · show OwnPages stackRegion machine (InUse ((s.kstackSlots.mark k).clear k))
      rw [hslots]
      exact (h.pages.took htook htakes.scribbles).1
    · show s.kstackActiveCount = (setSlots ((s.kstackSlots.mark k).clear k)).card
      rw [hslots]
      exact h.count
    · show ∀ j, s.objects j ≠ clear →
        ∃ k' < slotCount, ((s.kstackSlots.mark k).clear k).test k' = true ∧ s.objects j = stackOf k'
      rw [hslots]
      exact h.live
    · exact ⟨htakes.scribbles, funext fun g => by rw [htook.counts]; simp,
        htook.freeFrames hw.palloc, hslots, rfl, fun _ _ => rfl⟩
  next machine pages he =>
  rw [he] at htakes
  obtain ⟨fs, rfl, hlen, htook⟩ := htakes.some pages rfl
  obtain ⟨hown, hhand⟩ := h.pages.took htook htakes.scribbles
  have hclear : ∀ i < fs.length, ¬InUse s.kstackSlots (3 * k + 1 + 0 + i) := by
    rintro i hi ⟨-, ht⟩
    rw [show (3 * k + 1 + 0 + i) / 3 = k by omega, hfree] at ht
    simp at ht
  have hroom : 3 * k + 1 + 0 + fs.length ≤ stackRegion.count := by
    unfold slotCount at hk
    show 3 * k + 1 + 0 + fs.length ≤ 15360
    omega
  obtain ⟨m', hm', hown', hp⟩ := hown.mapPagesFrom
    (hd.scribbles hw hheld htakes.scribbles) hhand htook.nodup hroom hclear
  have hfrom : machine.mapPagesIn d (slotStackBase k) (fs.map (· * 4096)) pageWritable
      = (m', true) := by
    unfold Machine.mapPagesIn
    rw [stackBase_eq hk]
    exact hm'
  rw [hfrom]
  have hnew : ∀ j, s.objects j ≠ stackOf k := by
    intro j hj
    obtain ⟨k', hk', ht, he'⟩ := h.live j (by rw [hj]; exact stackOf_ne_clear hk)
    have hkk := stackOf_inj hk' hk (congrArg KernelStack.guardBase (he'.symm.trans hj))
    rw [hkk, hfree] at ht
    simp at ht
  refine ⟨⟨?_, ?_, fun j hj => ?_, fun j j' hj heq => ?_⟩, by simp,
    fun _ => ⟨⟨k, hk, hfree, rfl, Function.update_self ..⟩, ?_⟩⟩
  · refine hown'.congr fun n _ => ?_
    rw [inUse_mark, hlen]
  · have hle := setSlots_le s.kstackSlots
    unfold slotCount at hle
    show (s.kstackActiveCount + 1) % 2 ^ 32 = (setSlots (s.kstackSlots.mark k)).card
    rw [setSlots_mark hk hfree, h.count]
    omega
  · dsimp only at hj ⊢
    by_cases hji : j = i
    · rw [hji, Function.update_self]
      exact ⟨k, hk, by rw [Bitmap.test_mark (by decide : 0 < 8)]; simp, rfl⟩
    · rw [Function.update_of_ne hji] at hj ⊢
      obtain ⟨k', hk', ht, he'⟩ := h.live j hj
      exact ⟨k', hk', by rw [Bitmap.test_mark (by decide : 0 < 8), ht, Bool.or_true], he'⟩
  · dsimp only at hj heq
    by_cases hji : j = i
    · by_cases hji' : j' = i
      · rw [hji, hji']
      · rw [hji, Function.update_self, Function.update_of_ne hji'] at heq
        exact absurd heq.symm (hnew j')
    rw [Function.update_of_ne hji] at hj heq
    by_cases hji' : j' = i
    · rw [hji', Function.update_self] at heq
      exact absurd heq (hnew j)
    · rw [Function.update_of_ne hji'] at heq
      exact h.distinct j j' hj heq
  · have hspent := htook.freeFrames hw.palloc
    rw [hlen] at hspent
    show m'.palloc.freeFrames + 2 = _
    rw [hp]
    exact hspent

theorem Unchanged.trans {s₁ s₂ s₃ : Kstack} (h₁ : Unchanged s₁ s₂ i) (h₂ : Unchanged s₂ s₃ i) :
    Unchanged s₁ s₃ i := by
  refine ⟨⟨h₂.scribbles.kernel.trans h₁.scribbles.kernel, fun a ha => ?_⟩,
    h₂.counts.trans h₁.counts,
    h₂.freeFrames.trans h₁.freeFrames, h₂.slots.trans h₁.slots, h₂.active.trans h₁.active,
    fun j hj => (h₂.objects j hj).trans (h₁.objects j hj)⟩
  exact (h₂.scribbles.bytes a (by rw [h₁.counts]; exact ha)).trans (h₁.scribbles.bytes a ha)

theorem alloc_answers (h : s.Ok) (hd : Directory s.machine stackRegion d)
    (hheld : s.machine.palloc.frameRefcounts (d / 4096) ≠ 0) :
    Answers s (s.alloc d i) i := by
  have hcleared := h.clear_object i
  have hsame := Unchanged.clear_object s i
  unfold alloc
  split
  · exact ⟨h, fun _ => ⟨⟨rfl, fun _ _ => rfl⟩, rfl, rfl, rfl, rfl, fun _ _ => rfl⟩,
      by simp⟩
  dsimp only
  cases hfind : findSlot s.kstackSlots with
  | none => exact ⟨hcleared, fun _ => hsame, by simp⟩
  | some k =>
    obtain ⟨hk, hfree⟩ := findSlot_some hfind
    have hmark : slotMarkUsed s.kstackSlots k = some (s.kstackSlots.mark k) := by
      unfold slotMarkUsed
      rw [hfree]
      rfl
    have hfill := fillSlot_answers (i := i) hcleared hk hfree hd hheld
    rw [Option.bind_some, hmark]
    exact ⟨hfill.ok, fun hf => hsame.trans (hfill.failed hf),
      fun ht => ⟨(hfill.allocated ht).slot, (hfill.allocated ht).freeFrames⟩⟩

/-! ## Freeing -/

/-- Freeing a live stack gives two frames back. -/
theorem free_live (h : s.Ok) (hd : Directory s.machine stackRegion d) (hk : k < slotCount)
    (ht : s.kstackSlots.test k = true) (hi : s.objects i = stackOf k) :
    (s.free d i).Ok ∧
      (s.free d i).machine.palloc.freeFrames = s.machine.palloc.freeFrames + 2 := by
  have hlt : 3 * k + 2 < stackRegion.count := by
    unfold slotCount at hk
    show 3 * k + 2 < 15360
    omega
  have huse : ∀ j < 2, InUse s.kstackSlots (3 * k + 1 + j) := by
    intro j hj
    exact ⟨by omega, by rw [show (3 * k + 1 + j) / 3 = k by omega]; exact ht⟩
  obtain ⟨hown₁, hd₁, hfree₁⟩ := h.pages.releasePage hd (show 3 * k + 1 < _ by omega)
    (huse 0 (by decide))
  obtain ⟨hown₂, hd₂, hfree₂⟩ := hown₁.releasePage hd₁ hlt ⟨huse 1 (by decide), by omega⟩
  generalize hm₂ : (s.machine.releasePage d (stackRegion.at (3 * k + 1))).releasePage d
    (stackRegion.at (3 * k + 2)) = m₂ at hown₂ hd₂ hfree₂
  -- the guard page is not mapped
  have hguard : m₂.unmapPageIn d (slotGuardBase k) = m₂ := by
    rw [guard_eq hk]
    refine hown₂.unmap_empty hd₂.shares (by omega) ?_
    rintro ⟨⟨⟨hn, -⟩, -⟩, -⟩
    omega
  have hcard := setSlots_clear hk ht
  have heq : s.free d i =
      { s with
        machine := m₂
        kstackActiveCount := s.kstackActiveCount - 1
        kstackSlots := s.kstackSlots.clear k
        objects := Function.update s.objects i clear } := by
    have hpage₀ : (slotStackBase k + 0 * 4096) % 2 ^ 32 = stackRegion.at (3 * k + 1) :=
      data_page hk (by decide)
    have hpage₁ : (slotStackBase k + 1 * 4096) % 2 ^ 32 = stackRegion.at (3 * k + 2) :=
      data_page hk (by decide)
    unfold free
    rw [hi]
    unfold stackOf
    dsimp only
    rw [if_neg (guard_ne_zero hk), slotIndexFromGuard_slot hk, if_pos (by rw [h.count]; omega),
      show List.range 2 = [0, 1] from rfl, List.foldl_cons, List.foldl_cons, List.foldl_nil, hpage₀,
      hpage₁, hm₂, hguard]
  rw [heq]
  have hcleared := h.clear_object i
  refine ⟨⟨?_, ?_, fun j hj => ?_, hcleared.distinct⟩, ?_⟩
  · exact hown₂.congr fun n _ => inUse_clear n
  · show s.kstackActiveCount - 1 = (setSlots (s.kstackSlots.clear k)).card
    rw [h.count]
    omega
  · obtain ⟨k', hk', ht', he'⟩ := hcleared.live j hj
    refine ⟨k', hk', ?_, he'⟩
    have hji : j ≠ i := by
      rintro rfl
      exact hj (Function.update_self ..)
    have hne : k' ≠ k := by
      rintro rfl
      dsimp only at hj he'
      rw [Function.update_of_ne hji] at hj he'
      exact hji (h.distinct j i hj (he'.trans hi.symm))
    show (s.kstackSlots.clear k).test k' = true
    rw [Bitmap.test_clear (by decide : 0 < 8)]
    simp only [hne, decide_false, Bool.not_false, Bool.true_and]
    exact ht'
  · show m₂.palloc.freeFrames = _
    omega

/-! ## Runs -/

/-- What happens: the two calls, on a stack object and with a directory in force, and
whatever the rest of the kernel does to the machine. -/
inductive Event where
  | alloc (directoryPhys object : Nat)
  | free (directoryPhys object : Nat)
  | others (machine : Machine)

def step (s : Kstack) : Event → Kstack
  | .alloc directoryPhys object => (s.alloc directoryPhys object).1
  | .free directoryPhys object => s.free directoryPhys object
  | .others machine => { s with machine }

/-- The directory in force is the kernel's (`Window.directory`) or a user's, which has the
kernel's tables (`SpaceOk.directory`); the others keep their hands off the stacks. -/
def Proper (s : Kstack) : Event → Prop
  | .alloc directoryPhys _ => Directory s.machine stackRegion directoryPhys ∧
      s.machine.palloc.frameRefcounts (directoryPhys / 4096) ≠ 0
  | .free directoryPhys _ => Directory s.machine stackRegion directoryPhys
  | .others machine => Rely stackRegion s.machine machine (InUse s.kstackSlots)

theorem free_ok (h : s.Ok) (hd : Directory s.machine stackRegion d) (i : Nat) :
    (s.free d i).Ok := by
  by_cases hi : s.objects i = clear
  · have hsame : s.free d i = s := by
      unfold free
      rw [hi]
      rfl
    rw [hsame]
    exact h
  · obtain ⟨k, hk, ht, he⟩ := h.live i hi
    exact (free_live h hd hk ht he).1

theorem step_ok (s : Kstack) (e : Event) (h : s.Ok) (hp : s.Proper e) : (s.step e).Ok := by
  cases e with
  | alloc d i => exact (alloc_answers h hp.1 hp.2).ok
  | free d i => exact free_ok h hp i
  | others machine => exact ⟨h.pages.rely hp, h.count, h.live, h.distinct⟩

/-- The module after `kstack_init`, on the machine that `paging_init` leaves. -/
def boot (machine : Machine) : Kstack :=
  init ⟨machine, fun _ => 0, false, 0, fun _ => clear⟩

theorem boot_ok {limit : Nat} (h : KernelSpace m limit) (hlimit : limit ≤ directMapMaxBytes) :
    (boot m).Ok := by
  have hw : Window m 1008 1023 := h.window (by decide) fun i hlo hhi => Or.inr ⟨by omega, by omega⟩
  have htest : ∀ k, Bitmap.test (fun _ => 0 : Bitmap 8) k = false := by
    intro k
    simp [Bitmap.test]
  refine ⟨⟨hw, ?_, ?_, fun n hn _ => ?_⟩, ?_, fun i hi => absurd rfl hi,
    fun i j hi => absurd rfl hi⟩
  · rintro n - ⟨-, hset⟩
    exact absurd hset (by rw [show (boot m).kstackSlots = fun _ => 0 from rfl, htest]; simp)
  · rintro n - k - ⟨-, hset⟩
    exact absurd hset (by rw [show (boot m).kstackSlots = fun _ => 0 from rfl, htest]; simp)
  · refine h.leaf_zero hw (stackRegion.pageIn hn) ?_
    exact Nat.le_trans hlimit (by decide)
  · have hnone : setSlots (fun _ => 0) = ∅ :=
      Finset.filter_eq_empty_iff.mpr fun k _ => by rw [htest]; exact Bool.false_ne_true
    show 0 = (setSlots fun _ => 0).card
    rw [hnone, Finset.card_empty]

/-! ## What it means -/

/-- The guarantees of the stacks, in any address space. -/
structure Safe (s : Kstack) : Prop where
  slot : ∀ i, s.objects i ≠ clear →
    ∃ k < slotCount, s.kstackSlots.test k = true ∧ s.objects i = stackOf k
  distinct : ∀ i j, i ≠ j → s.objects i ≠ clear → s.objects j ≠ clear →
    (s.objects i).guardBase ≠ (s.objects j).guardBase
  data : ∀ i, s.objects i ≠ clear → ∀ j < 2, ∃ f, s.machine.palloc.frameRefcounts f = 1 ∧
    ∀ d, Directory s.machine stackRegion d →
      s.machine.lookupPageIn d ((s.objects i).stackBase + j * 4096)
          = some (f * 4096, pageWritable ||| pagePresent) ∧
        ∀ n < stackRegion.count, ∀ flags,
          s.machine.lookupPageIn d (stackRegion.at n) = some (f * 4096, flags) →
            stackRegion.at n = (s.objects i).stackBase + j * 4096
  guards : ∀ k < slotCount, ∀ d, Directory s.machine stackRegion d →
    s.machine.lookupPageIn d (slotGuardBase k) = none
  active : s.kstackActiveCount = (setSlots s.kstackSlots).card

theorem lookup_empty (h : s.Ok) (hd : Directory s.machine stackRegion d) {n : Nat}
    (hn : n < stackRegion.count) (hu : ¬InUse s.kstackSlots n) :
    s.machine.lookupPageIn d (stackRegion.at n) = none := by
  rw [lookupPageIn_window hd.shares (stackRegion.pageIn hn), h.pages.empty n hn hu]
  rfl

theorem Ok.safe (h : s.Ok) : s.Safe := by
  refine ⟨h.live, fun i j hne hi hj heq => ?_, fun i hi j hj => ?_, fun k hk d hd => ?_, h.count⟩
  · obtain ⟨k, hk, -, he⟩ := h.live i hi
    obtain ⟨k', hk', -, he'⟩ := h.live j hj
    rw [he, he'] at heq
    have hkk := stackOf_inj hk hk' heq
    exact hne (h.distinct i j hi (by rw [he, he', hkk]))
  · obtain ⟨k, hk, ht, he⟩ := h.live i hi
    have hlt : 3 * k + 1 + j < stackRegion.count := by
      unfold slotCount at hk
      show 3 * k + 1 + j < 15360
      omega
    have huse : InUse s.kstackSlots (3 * k + 1 + j) :=
      ⟨by omega, by rw [show (3 * k + 1 + j) / 3 = k by omega]; exact ht⟩
    have hat : (s.objects i).stackBase + j * 4096 = stackRegion.at (3 * k + 1 + j) := by
      rw [he]
      show slotStackBase k + j * 4096 = _
      rw [stackBase_eq hk]
      unfold Region.at
      omega
    obtain ⟨f, hf, hone, -⟩ := h.pages.mapped _ hlt huse
    refine ⟨f, hone, fun d hd => ?_⟩
    rw [hat]
    refine ⟨OwnPages.lookup hd.shares hlt hf, fun n hn flags hn' => ?_⟩
    by_cases hu : InUse s.kstackSlots n
    · obtain ⟨g, hg, -⟩ := h.pages.mapped n hn hu
      rw [OwnPages.lookup hd.shares hn hg] at hn'
      have hfg : g * 4096 = f * 4096 := (Prod.mk.inj (Option.some.inj hn')).1
      rw [h.pages.own n hn _ hlt hu huse (by rw [hg, hf, hfg])]
    · rw [lookup_empty h hd hn hu] at hn'
      cases hn'
  · have hlt : 3 * k < stackRegion.count := by
      unfold slotCount at hk
      show 3 * k < 15360
      omega
    rw [guard_eq hk]
    refine lookup_empty h hd hlt ?_
    rintro ⟨hn, -⟩
    omega

/-- **The kernel stacks are guarded.** After any run of allocations and frees the stacks are
`Safe`, an allocation that fails has changed nothing, and freeing what was allocated brings
the free frames back. Which frame allocations fail is up to the allocator and the others. -/
theorem stacks_guarded (info : MultibootInfo) (kernelStart kernelEnd : UInt32) (mem : Store)
    (henabled : (pagingInit (Palloc.init info kernelStart kernelEnd) mem).outcome = .enabled)
    (events : List Event)
    (hevents : Guarded step Proper
      (boot (pagingInit (Palloc.init info kernelStart kernelEnd) mem).machine) events) :
    let s := run step (boot (pagingInit (Palloc.init info kernelStart kernelEnd) mem).machine)
      events
    s.Safe ∧
      (∀ va, isGuardAddress va = true ↔
        ∃ k < slotCount, slotGuardBase k ≤ va ∧ va < slotGuardBase k + 4096) ∧
      (∀ d i, s.Proper (.alloc d i) →
        ((s.alloc d i).2 = false → Unchanged s (s.alloc d i).1 i) ∧
        ((s.alloc d i).2 = true → ∀ d', (s.alloc d i).1.Proper (.free d' i) →
          ((s.alloc d i).1.free d' i).machine.palloc.freeFrames
            = s.machine.palloc.freeFrames)) := by
  obtain ⟨limit, hle, hspace⟩ := enabled_kernelSpace henabled
  intro s
  have hs : s.Ok := guarded_invariant step_ok events (boot_ok hspace hle) hevents
  refine ⟨hs.safe, isGuardAddress_iff, fun d i hp => ?_⟩
  have hans := alloc_answers (i := i) hs hp.1 hp.2
  refine ⟨hans.failed, fun ht d' hp' => ?_⟩
  have hall := hans.allocated ht
  obtain ⟨k, hk, -, hslots, hobj⟩ := hall.slot
  have hset : (s.alloc d i).1.kstackSlots.test k = true := by
    rw [hslots, Bitmap.test_mark (by decide : 0 < 8)]
    simp
  rw [(free_live hans.ok hp' hk hset hobj).2]
  exact hall.freeFrames

/-- The kernel's own address space will do for the first allocation. -/
theorem boot_alloc_proper {limit : Nat} (h : KernelSpace m limit)
    (hlimit : limit ≤ directMapMaxBytes) :
    Guarded step Proper (boot m) [.alloc m.kernelPageDirectoryPhys 0] := by
  have hw : Window m 1008 1023 := (boot_ok h hlimit).pages.window
  exact ⟨⟨Window.directory (R := stackRegion) hw, hw.used⟩, trivial⟩

theorem stacks_guarded_boot :
    let machine := (pagingInit (Palloc.init pagedInfo 0x100000 0x101000) fun _ => 0).machine
    (run step (boot machine) [.alloc machine.kernelPageDirectoryPhys 0]).Safe := by
  obtain ⟨limit, hle, hspace⟩ := enabled_kernelSpace pagedInfo_enabled
  have hproper := boot_alloc_proper hspace hle
  exact (stacks_guarded pagedInfo 0x100000 0x101000 _ pagedInfo_enabled _ hproper).1

end Kstack

end Riverix.Memory
