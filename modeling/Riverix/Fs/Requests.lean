import Riverix.Fs.Parts

/-!
# What a growing file asks the device for

A write past the end of a file grows it first: `simplefs_resize_node` finds an extent, zeroes
and copies blocks, and writes the metadata back. On a device that refuses requests this can
stop anywhere, and whatever it has asked for is gone from the device's coming answers by the
time the loop of the write asks for its first block.

All of that can be told in advance. The requests of a call are a list of runs of blocks,
which depends on the superblock, the bitmap and the record of the file (`growthPlan`), not on
what the device does. The call succeeds exactly if the device answers every request of the
list, and it has then used up as many answers as the list is long (`Makes`). The list is put
together from those of the loops, and `Makes.next` is the one rule for doing one thing after
another: the second call makes its requests of a device that has given the first answers.

**`resizeNode_planned`** is the result: whether a file grows, how many answers that takes and where
its first block is afterwards, read off the state before. `Riverix.Fs.Transfers` states with it
when the offset of a file follows a write.
-/

namespace Riverix.Fs

open Riverix.Lib

namespace Device

variable {d d' d'' : Device} {b start count skip n : Nat}

/-! ## One request -/

/-- The answer to the `r`-th request from now on is a failure. -/
def fault (d : Device) (r : Nat) : Bool := d.faults.getD r false

/-- The device with one answer given. -/
def answered (d : Device) : Device := { d with faults := d.faults.tail }

theorem answered_fault (d : Device) (r : Nat) : d.answered.fault r = d.fault (r + 1) := by
  unfold answered fault
  cases d.faults with
  | nil => rfl
  | cons => rfl

theorem read_inRange (h : d.InRange b count) :
    d.read b count = (d.answered, if d.fault 0 then none else some (d.blocks b)) := by
  rw [read, if_pos h]
  obtain ⟨blockCount, readOnly, bytes, faults⟩ := d
  cases faults with
  | nil => rfl
  | cons => rfl

theorem write_inRange {buffer : Store} (hw : d.readOnly = false) (h : d.InRange b count) :
    d.write b count buffer
      = if d.fault 0 then (d.answered, false) else ((d.put b count buffer).answered, true) := by
  rw [write, if_pos ⟨hw, h⟩]
  obtain ⟨blockCount, readOnly, bytes, faults⟩ := d
  cases faults with
  | nil => rfl
  | cons fault faults => rfl

/-! ## Requests in a row -/

/-- The device answers these requests, which are runs of blocks, from its answer number
`skip` on: each run is on the device and none is refused. -/
def Answers (d : Device) (skip : Nat) : List (Nat × Nat) → Prop
  | [] => True
  | (start, count) :: requests =>
    (d.InRange start count ∧ d.fault skip = false) ∧ d.Answers (skip + 1) requests

instance Answers.decidable (d : Device) :
    ∀ (skip : Nat) (requests : List (Nat × Nat)), Decidable (d.Answers skip requests)
  | _, [] => isTrue trivial
  | skip, (start, count) :: requests =>
    have := Answers.decidable d (skip + 1) requests
    inferInstanceAs (Decidable ((d.InRange start count ∧ d.fault skip = false) ∧
      d.Answers (skip + 1) requests))

theorem answers_append {first second : List (Nat × Nat)} : d.Answers skip (first ++ second) ↔
    d.Answers skip first ∧ d.Answers (skip + first.length) second := by
  induction first generalizing skip with
  | nil => exact (true_and _ ▸ Iff.rfl)
  | cons request first ih =>
    rw [List.cons_append, Answers, Answers, ih, List.length_cons,
      and_assoc (c := d.Answers _ second),
      show skip + 1 + first.length = skip + (first.length + 1) by omega]

/-- `n` answers have been given since; what is on the device may have changed. -/
structure Spent (d d' : Device) (n : Nat) : Prop where
  blockCount : d'.blockCount = d.blockCount
  readOnly : d'.readOnly = d.readOnly
  fault : ∀ r, d'.fault r = d.fault (r + n)

theorem Spent.refl (d : Device) : Spent d d 0 := ⟨rfl, rfl, fun _ => rfl⟩

theorem Spent.trans {m : Nat} (h : Spent d d' n) (h' : Spent d' d'' m) : Spent d d'' (n + m) :=
  ⟨h'.blockCount.trans h.blockCount, h'.readOnly.trans h.readOnly, fun r => by
    rw [h'.fault, h.fault, Nat.add_assoc, Nat.add_comm m n]⟩

theorem Spent.inRange (h : Spent d d' n) : d'.InRange start count ↔ d.InRange start count := by
  unfold InRange
  rw [h.blockCount]

theorem Spent.answers (h : Spent d d' n) {requests : List (Nat × Nat)} :
    d'.Answers skip requests ↔ d.Answers (skip + n) requests := by
  induction requests generalizing skip with
  | nil => exact Iff.rfl
  | cons request requests ih =>
    rw [Answers, Answers, ih, h.inRange, h.fault, Nat.add_right_comm skip 1]

end Device

namespace Simplefs

variable {fs fs' : Simplefs} {p q : Simplefs × Bool} {i block offset length required newSize : Nat}
  {requests first second : List (Nat × Nat)}

/-! ## Calls that make requests -/

/-- The call from `fs` that ended in `p` succeeds exactly if the device answers these
requests, and has then made them and no others. -/
structure Makes (fs : Simplefs) (requests : List (Nat × Nat)) (p : Simplefs × Bool) : Prop where
  ok : p.2 = true ↔ fs.dev.Answers 0 requests
  spent : p.2 = true → fs.dev.Spent p.1.dev requests.length

/-- What happens in memory needs no request. -/
theorem Makes.memory (h : fs'.dev = fs.dev) : Makes fs [] (fs', true) :=
  ⟨⟨fun _ => trivial, fun _ => rfl⟩, fun _ => by rw [show fs'.dev = _ from h]; exact .refl _⟩

/-- One call after another, which is not made if the first one fails. -/
theorem Makes.next (h : Makes fs first p) (hstop : p.2 = false → q.2 = false)
    (hgo : p.2 = true → Makes p.1 second q) : Makes fs (first ++ second) q := by
  cases hp : p.2 with
  | false =>
    have hno : ¬fs.dev.Answers 0 first := fun ha => by
      rw [h.ok.mpr ha] at hp
      simp at hp
    refine ⟨⟨fun hq => ?_, fun ha => absurd (Device.answers_append.mp ha).1 hno⟩, fun hq => ?_⟩ <;>
    · rw [hstop hp] at hq
      simp at hq
  | true =>
    have hs := h.spent hp
    have hq := hgo hp
    refine ⟨?_, fun hok => ?_⟩
    · rw [hq.ok, hs.answers, Device.answers_append, and_iff_right (h.ok.mp hp)]
    · rw [List.length_append]
      exact hs.trans (hq.spent hok)

/-- A call that goes on in memory. -/
theorem Makes.then_memory (h : Makes fs requests p) (hok : q.2 = p.2)
    (hdev : p.2 = true → q.1.dev = p.1.dev) : Makes fs requests q :=
  ⟨by rw [hok]; exact h.ok, fun hq => by
    rw [hok] at hq
    rw [hdev hq]
    exact h.spent hq⟩

/-- A call that begins in memory. -/
theorem Makes.of_memory (h : Makes fs' requests p) (hdev : fs'.dev = fs.dev) :
    Makes fs requests p :=
  ⟨by rw [← hdev]; exact h.ok, fun hp => by rw [← hdev]; exact h.spent hp⟩

/-- One request: it is served if its blocks are on the device and the next answer is no
refusal. -/
theorem Makes.one {start count : Nat}
    (hin : fs.dev.InRange start count → (p.2 = true ↔ fs.dev.fault 0 = false) ∧
      (p.2 = true → fs.dev.Spent p.1.dev 1))
    (hout : ¬fs.dev.InRange start count → p.2 = false) : Makes fs [(start, count)] p := by
  by_cases hr : fs.dev.InRange start count
  · exact ⟨(hin hr).1.trans ⟨fun hf => ⟨⟨hr, hf⟩, trivial⟩, fun h => h.1.2⟩, (hin hr).2⟩
  · rw [← Bool.not_eq_true] at hout
    exact ⟨⟨fun h => absurd h (hout hr), fun h => absurd h.1.1 hr⟩, fun h => absurd h (hout hr)⟩

theorem writeBlocks_makes (hw : fs.dev.readOnly = false) (start count : Nat) (buffer : Store) :
    Makes fs [(start, count)] (fs.writeBlocks start count buffer) := by
  unfold writeBlocks
  refine Makes.one (fun hr => ?_) fun hr => ?_
  · rw [Device.write_inRange hw hr]
    cases hf : fs.dev.fault 0 with
    | false => exact ⟨by simp, fun _ => ⟨rfl, rfl, Device.answered_fault _⟩⟩
    | true => exact ⟨by simp, fun h => absurd h (by simp)⟩
  · rw [Device.write, if_neg fun h => hr h.2]

theorem readBlocks_makes (fs : Simplefs) (start count : Nat) :
    Makes fs [(start, count)]
      ((fs.readBlocks start count).1, (fs.readBlocks start count).2.isSome) := by
  unfold readBlocks
  refine Makes.one (fun hr => ?_) fun hr => ?_
  · rw [Device.read_inRange hr]
    cases hf : fs.dev.fault 0 with
    | false => exact ⟨by simp, fun _ => ⟨rfl, rfl, Device.answered_fault _⟩⟩
    | true => exact ⟨by simp, fun h => absurd h (by simp)⟩
  · rw [Device.read, if_neg hr]
    rfl

/-- A loop makes the requests of its turns. -/
theorem loop_makes {body : Simplefs → Nat → Simplefs × Bool} {requests : Nat → List (Nat × Nat)}
    (hbody : ∀ fs x, fs.dev.readOnly = false → Makes fs (requests x) (body fs x)) (xs : List Nat)
    (hw : fs.dev.readOnly = false) : Makes fs (xs.flatMap requests) (loop body xs fs) := by
  induction xs generalizing fs with
  | nil => exact Makes.memory rfl
  | cons x xs ih =>
    have hfirst := hbody fs x hw
    rw [List.flatMap_cons, loop]
    generalize body fs x = turn at hfirst
    obtain ⟨fs₁, ok⟩ := turn
    cases ok with
    | false => exact hfirst.next (fun _ => rfl) fun h => absurd h (by simp)
    | true =>
      exact hfirst.next (fun h => absurd h (by simp)) fun h =>
        ih ((hfirst.spent h).readOnly.trans hw)

/-! ## The loops of a growing file -/

/-- The requests of `zeroExtent` and of `simplefs_copy_extent`. -/
def zeroRequests (start : Nat) (indices : List Nat) : List (Nat × Nat) :=
  indices.flatMap fun index => [(start + index, 1)]

def copyRequests (fromBlock toBlock count : Nat) : List (Nat × Nat) :=
  (List.range count).flatMap fun index => [(fromBlock + index, 1), (toBlock + index, 1)]

theorem zeroExtent_makes (hw : fs.dev.readOnly = false) (start : Nat) (indices : List Nat) :
    Makes fs (zeroRequests start indices) (fs.zeroExtent start indices) :=
  loop_makes (fun _ _ hw => writeBlocks_makes hw ..) indices hw

theorem copyExtent_makes (hw : fs.dev.readOnly = false) (fromBlock toBlock count : Nat) :
    Makes fs (copyRequests fromBlock toBlock count) (fs.copyExtent fromBlock toBlock count) := by
  refine loop_makes (fun fs index hw => ?_) (List.range count) hw
  have hread := readBlocks_makes fs (fromBlock + index) 1
  unfold copyBlock
  generalize fs.readBlocks (fromBlock + index) 1 = got at hread
  obtain ⟨fs₁, scratch⟩ := got
  cases scratch with
  | none => exact hread.next (fun _ => rfl) fun h => absurd h (by simp)
  | some scratch =>
    exact hread.next (fun h => absurd h (by simp)) fun h =>
      writeBlocks_makes ((hread.spent h).readOnly.trans hw) ..

/-- The requests of `simplefs_zero_range`, for a file whose extent starts at `block`: every
piece is read and written. -/
def rangeRequests (block offset length : Nat) : List (Nat × Nat) :=
  if length = 0 then []
  else
    let chunk := min length (512 - offset % 512)
    (block + offset / 512, 1) :: (block + offset / 512, 1) ::
      rangeRequests block (offset + chunk) (length - chunk)
termination_by length
decreasing_by omega

theorem zeroRange_makes (hw : fs.dev.readOnly = false) (i offset length : Nat) :
    Makes fs (rangeRequests (fs.nodes i).disk.dataBlock offset length)
      (fs.zeroRange i offset length) := by
  induction length using Nat.strongRecOn generalizing fs offset with
  | _ length ih =>
    rw [zeroRange, rangeRequests]
    split
    · exact Makes.memory rfl
    next hl =>
    have hread := readBlocks_makes fs ((fs.nodes i).disk.dataBlock + offset / 512) 1
    have hfst := readBlocks_onDevice fs ((fs.nodes i).disk.dataBlock + offset / 512) 1
    dsimp only
    generalize fs.readBlocks ((fs.nodes i).disk.dataBlock + offset / 512) 1 = got at hread hfst
    obtain ⟨fs₁, scratch⟩ := got
    cases scratch with
    | none => exact hread.next (fun _ => rfl) fun h => absurd h (by simp)
    | some scratch =>
      -- the piece was read; what is left of the range is the induction hypothesis
      refine hread.next (fun h => absurd h (by simp)) fun h => ?_
      have hw₁ := (hread.spent h).readOnly.trans hw
      have hwrite := writeBlocks_makes hw₁ ((fs.nodes i).disk.dataBlock + offset / 512) 1
        (scratch.write (offset % 512) (List.replicate (min length (512 - offset % 512)) 0))
      have hsnd := writeBlocks_onDevice fs₁ ((fs.nodes i).disk.dataBlock + offset / 512) 1
        (scratch.write (offset % 512) (List.replicate (min length (512 - offset % 512)) 0))
      dsimp only
      generalize fs₁.writeBlocks ((fs.nodes i).disk.dataBlock + offset / 512) 1 _ = put
        at hwrite hsnd
      obtain ⟨fs₂, ok⟩ := put
      cases ok with
      | false => exact hwrite.next (fun _ => rfl) fun h => absurd h (by simp)
      | true =>
        refine hwrite.next (fun h => absurd h (by simp)) fun h => ?_
        have hnode : fs₂.nodes i = fs.nodes i := by
          obtain ⟨_, _, rfl⟩ := hfst.eq
          obtain ⟨_, _, rfl⟩ := hsnd.eq
          rfl
        have hrest := ih (length - min length (512 - offset % 512)) (by omega)
          ((hwrite.spent h).readOnly.trans hw₁) (offset + min length (512 - offset % 512))
        rw [hnode] at hrest
        exact hrest

/-- The requests of `simplefs_flush_metadata`. -/
def metadataRequests (sb : Superblock) : List (Nat × Nat) :=
  [(0, 1), (sb.inodeTableStart, sb.inodeTableBlocks), (sb.inodeBitmapStart, sb.inodeBitmapBlocks),
    (sb.blockBitmapStart, sb.blockBitmapBlocks)]

/-- One write of the four; what comes after it finds the same superblock. -/
theorem Makes.write_next {start count : Nat} {buffer : Store} {r : Simplefs × Bool}
    (hr : r = fs'.writeBlocks start count buffer) (hdev : fs'.dev = fs.dev)
    (hw : fs.dev.readOnly = false) (hstop : ∀ g, r = (g, false) → q.2 = false)
    (hgo : ∀ g, r = (g, true) → g.sb = fs'.sb → g.dev.readOnly = false → Makes g second q) :
    Makes fs ((start, count) :: second) q := by
  have hput : Makes fs [(start, count)] r := by
    rw [hr]
    exact (writeBlocks_makes (by rw [hdev]; exact hw) start count buffer).of_memory hdev
  refine hput.next (fun h => hstop _ (Prod.ext rfl h)) fun h => ?_
  exact hgo _ (Prod.ext rfl h) (by rw [hr]; rfl) ((hput.spent h).readOnly.trans hw)

theorem flushMetadata_makes (hw : fs.dev.readOnly = false) :
    Makes fs (metadataRequests fs.sb) fs.flushMetadata := by
  unfold flushMetadata
  rw [if_neg (by rw [hw]; simp)]
  refine Makes.write_next (r := fs.flushSuperblock) rfl rfl hw (fun g he => by rw [he])
    fun g₁ he hsb₁ hw₁ => ?_
  rw [he, ← hsb₁]
  dsimp only
  refine Makes.write_next (r := g₁.flushInodeTable) rfl rfl hw₁ (fun g he => by rw [he])
    fun g₂ he hsb₂ hw₂ => ?_
  rw [he, ← show g₂.sb = g₁.sb from hsb₂]
  dsimp only
  refine Makes.write_next (r := g₂.flushInodeBitmap) rfl rfl hw₂ (fun g he => by rw [he])
    fun g₃ he hsb₃ hw₃ => ?_
  rw [he, ← hsb₃]
  exact writeBlocks_makes hw₃ ..

/-! ## Growing -/

/-- `simplefs_ensure_extent`: where the extent starts afterwards, and the requests; nothing
if there is no room for it. -/
def extentPlan (fs : Simplefs) (i required : Nat) : Option (Nat × List (Nat × Nat)) :=
  let n := (fs.nodes i).disk
  if required ≤ n.blockCount then some (n.dataBlock, [])
  else if n.blockCount = 0 then
    (fs.findExtent required).map fun start =>
      (start, zeroRequests start (List.range required).reverse)
  else if fs.extentIsFree (n.dataBlock + n.blockCount) (required - n.blockCount) then
    some (n.dataBlock,
      zeroRequests (n.dataBlock + n.blockCount) (List.range (required - n.blockCount)))
  else
    (fs.findExtent required).map fun start =>
      (start, copyRequests n.dataBlock start n.blockCount
        ++ zeroRequests start (List.range' n.blockCount (required - n.blockCount)))

/-- `simplefs_resize_node`, the part that changes the extent, in the same terms. A file that
grows can lose blocks here, if the image gave it more than it needs or the size wraps. -/
def resizePlan (fs : Simplefs) (i newSize : Nat) : Option (Nat × List (Nat × Nat)) :=
  let n := (fs.nodes i).disk
  let required := requiredBlocks newSize
  if required > n.blockCount then
    (fs.extentPlan i required).map fun plan =>
      (plan.1, plan.2 ++ rangeRequests plan.1 n.size (newSize - n.size))
  else if required < n.blockCount then
    if required = 0 then some (0, [])
    else some (n.dataBlock,
      if newSize % 512 ≠ 0 then rangeRequests n.dataBlock newSize (512 - newSize % 512) else [])
  else some (n.dataBlock, [])

/-- `simplefs_resize_node`, with the metadata that it writes at the end. -/
def growthPlan (fs : Simplefs) (i newSize : Nat) : Option (Nat × List (Nat × Nat)) :=
  (fs.resizePlan i newSize).map fun plan => (plan.1, plan.2 ++ metadataRequests fs.sb)

/-- The call from `fs` that ended in `p` went by the plan: it fails if there is none, makes its
requests, and leaves the extent of inode `i` where it says. -/
structure Planned (fs : Simplefs) (i : Nat) (plan : Option (Nat × List (Nat × Nat)))
    (p : Simplefs × Bool) : Prop where
  none : plan = none → p.2 = false
  makes : ∀ block requests, plan = some (block, requests) → Makes fs requests p
  place : ∀ block requests, plan = some (block, requests) → p.2 = true →
    (p.1.nodes i).disk.dataBlock = block

theorem Planned.of_some (h : Makes fs requests p)
    (hp : p.2 = true → (p.1.nodes i).disk.dataBlock = block) :
    Planned fs i (some (block, requests)) p := by
  refine ⟨fun h => absurd h (by simp), fun _ _ he => ?_, fun _ _ he hok => ?_⟩
  · rw [← (Prod.mk.inj (Option.some.inj he)).2]
    exact h
  · rw [← (Prod.mk.inj (Option.some.inj he)).1]
    exact hp hok

theorem Planned.of_none (h : p.2 = false) : Planned fs i .none p :=
  ⟨fun _ => h, fun _ _ he => absurd he (by simp), fun _ _ he => absurd he (by simp)⟩

theorem allocateExtent_of_find {start : Nat} (h0 : required ≠ 0)
    (h : fs.findExtent required = some start) :
    fs.allocateExtent required = (fs.markExtent start required, some start) := by
  rw [allocateExtent, if_neg h0, h]

theorem allocateExtent_of_none (h : fs.findExtent required = none) :
    (fs.allocateExtent required) = (fs, none) := by
  unfold allocateExtent
  split
  · rfl
  · rw [h]

theorem nodes_of_onDevice (h : OnDevice fs fs') : fs'.nodes = fs.nodes := by
  obtain ⟨_, _, rfl⟩ := h.eq
  rfl

theorem firstExtent_planned (hw : fs.dev.readOnly = false) (i : Nat) (h0 : required ≠ 0) :
    Planned fs i ((fs.findExtent required).map fun start =>
      (start, zeroRequests start (List.range required).reverse)) (fs.firstExtent i required) := by
  unfold firstExtent
  cases hf : fs.findExtent required with
  | none =>
    rw [allocateExtent_of_none hf]
    exact .of_none rfl
  | some start =>
    rw [allocateExtent_of_find h0 hf]
    refine .of_some (Makes.of_memory (zeroExtent_makes (by exact hw) start _) rfl) fun _ => ?_
    rw [nodes_of_onDevice (zeroExtent_onDevice ..), modifyDisk, modify_nodes_self]

theorem growExtent_planned (hw : fs.dev.readOnly = false) (i required : Nat) :
    Planned fs i (some ((fs.nodes i).disk.dataBlock,
      zeroRequests ((fs.nodes i).disk.dataBlock + (fs.nodes i).disk.blockCount)
        (List.range (required - (fs.nodes i).disk.blockCount)))) (fs.growExtent i required) := by
  unfold growExtent
  dsimp only
  generalize (fs.nodes i).disk.dataBlock + (fs.nodes i).disk.blockCount = start
  generalize required - (fs.nodes i).disk.blockCount = count
  have hzero : Makes fs _ ((fs.markExtent start count).zeroExtent start (List.range count)) :=
    Makes.of_memory (zeroExtent_makes (by exact hw) ..) rfl
  have hnodes : ((fs.markExtent start count).zeroExtent start (List.range count)).1.nodes
      = fs.nodes := (nodes_of_onDevice (zeroExtent_onDevice ..)).trans rfl
  generalize zeroExtent _ _ _ = done at hzero hnodes
  obtain ⟨fs₁, ok⟩ := done
  cases ok with
  | false => exact .of_some hzero fun h => absurd h (by simp)
  | true =>
    refine .of_some (hzero.then_memory rfl fun _ => rfl) fun _ => ?_
    dsimp only
    rw [modifyDisk, modify_nodes_self, show fs₁.nodes = _ from hnodes]

theorem moveExtent_planned (hw : fs.dev.readOnly = false) (i : Nat) (h0 : required ≠ 0) :
    Planned fs i ((fs.findExtent required).map fun start =>
      (start, copyRequests (fs.nodes i).disk.dataBlock start (fs.nodes i).disk.blockCount
        ++ zeroRequests start (List.range' (fs.nodes i).disk.blockCount
          (required - (fs.nodes i).disk.blockCount)))) (fs.moveExtent i required) := by
  unfold moveExtent
  cases hf : fs.findExtent required with
  | none =>
    rw [allocateExtent_of_none hf]
    exact .of_none rfl
  | some start =>
    rw [allocateExtent_of_find h0 hf]
    have hcopy : Makes fs (copyRequests _ start _) ((fs.markExtent start required).copyExtent
        (fs.nodes i).disk.dataBlock start (fs.nodes i).disk.blockCount) :=
      Makes.of_memory (copyExtent_makes (by exact hw) ..) rfl
    dsimp only
    generalize copyExtent _ _ _ _ = copied at hcopy
    obtain ⟨fs₁, ok⟩ := copied
    cases ok with
    | false =>
      exact .of_some (hcopy.next (fun _ => rfl) fun h => absurd h (by simp)) fun h =>
        absurd h (by simp)
    | true =>
      have hzero := zeroExtent_makes ((hcopy.spent rfl).readOnly.trans hw) start
        (List.range' (fs.nodes i).disk.blockCount (required - (fs.nodes i).disk.blockCount))
      dsimp only at hzero ⊢
      generalize zeroExtent _ _ _ = done at hzero
      obtain ⟨fs₂, ok⟩ := done
      cases ok with
      | false =>
        exact .of_some (hcopy.next (fun _ => rfl) fun _ =>
          hzero.then_memory rfl fun h => absurd h (by simp)) fun h => absurd h (by simp)
      | true =>
        refine .of_some (hcopy.next (fun h => absurd h (by simp)) fun _ =>
          hzero.then_memory rfl fun _ => rfl) fun _ => ?_
        dsimp only
        rw [modifyDisk, modify_nodes_self]

theorem ensureExtent_planned (hw : fs.dev.readOnly = false) (i required : Nat) :
    Planned fs i (fs.extentPlan i required) (fs.ensureExtent i required) := by
  unfold extentPlan ensureExtent
  dsimp only
  by_cases hle : required ≤ (fs.nodes i).disk.blockCount
  · rw [if_pos hle, if_pos hle]
    exact .of_some (.memory rfl) fun _ => rfl
  rw [if_neg hle, if_neg hle]
  by_cases h0 : (fs.nodes i).disk.blockCount = 0
  · rw [if_pos h0, if_pos h0]
    exact firstExtent_planned hw i (by omega)
  rw [if_neg h0, if_neg h0]
  by_cases hfree : fs.extentIsFree ((fs.nodes i).disk.dataBlock + (fs.nodes i).disk.blockCount)
      (required - (fs.nodes i).disk.blockCount) = true
  · rw [if_pos hfree, if_pos hfree]
    exact growExtent_planned hw i required
  · rw [if_neg hfree, if_neg hfree]
    exact moveExtent_planned hw i (by omega)

/-- One planned step after another, which keeps the extent. -/
theorem Planned.next (h : Planned fs i (some (block, first)) p) (hstop : p.2 = false → q.2 = false)
    (hgo : p.2 = true → Makes p.1 second q ∧ q.1.nodes i = p.1.nodes i) :
    Planned fs i (some (block, first ++ second)) q := by
  refine .of_some ((h.makes _ _ rfl).next hstop fun hp => (hgo hp).1) fun hq => ?_
  have hp : p.2 = true := by
    by_contra hno
    rw [hstop (by simpa using hno)] at hq
    simp at hq
  rw [(hgo hp).2]
  exact h.place _ _ rfl hp

theorem resizeExtent_planned (hw : fs.dev.readOnly = false) (i newSize : Nat) :
    Planned fs i (fs.resizePlan i newSize) (fs.resizeExtent i newSize) := by
  unfold resizePlan resizeExtent
  dsimp only
  by_cases hgt : requiredBlocks newSize > (fs.nodes i).disk.blockCount
  · rw [if_pos hgt, if_pos hgt]
    have hplan := ensureExtent_planned hw i (requiredBlocks newSize)
    cases hext : fs.extentPlan i (requiredBlocks newSize) with
    | none =>
      have hno := hplan.none hext
      generalize fs.ensureExtent i (requiredBlocks newSize) = made at hno
      obtain ⟨fs₁, ok⟩ := made
      cases hno
      exact .of_none rfl
    | some plan =>
      rw [hext] at hplan
      generalize fs.ensureExtent i (requiredBlocks newSize) = made at hplan
      obtain ⟨fs₁, ok⟩ := made
      cases ok with
      | false => exact hplan.next (fun _ => rfl) fun h => absurd h (by simp)
      | true =>
        have hw₁ := ((hplan.makes _ _ rfl).spent rfl).readOnly.trans hw
        have hplace := hplan.place _ _ rfl rfl
        refine hplan.next (fun h => absurd h (by simp)) fun _ => ?_
        dsimp only at hplace ⊢
        rw [← hplace]
        split
        · exact ⟨zeroRange_makes hw₁ .., by rw [nodes_of_onDevice (zeroRange_onDevice ..)]⟩
        next hle =>
          rw [show newSize - (fs.nodes i).disk.size = 0 by omega, rangeRequests, if_pos rfl]
          exact ⟨.memory rfl, rfl⟩
  -- no more blocks: the extent goes, is cut, or stays
  rw [if_neg hgt, if_neg hgt]
  split
  · split
    · have hdev : (fs.releaseExtent i).dev = fs.dev := by
        unfold releaseExtent
        split <;> rfl
      refine .of_some (.memory hdev) fun _ => ?_
      unfold releaseExtent modifyDisk
      rw [modify_nodes_self]
    · obtain ⟨cut, hcut⟩ : ∃ cut, cut = (fs.unmarkExtent ((fs.nodes i).disk.dataBlock
        + requiredBlocks newSize) ((fs.nodes i).disk.blockCount - requiredBlocks
          newSize)).modifyDisk i
        fun n => { n with blockCount := requiredBlocks newSize } := ⟨_, rfl⟩
      have hdev : cut.dev = fs.dev := by rw [hcut]; rfl
      have hnode : (cut.nodes i).disk.dataBlock = (fs.nodes i).disk.dataBlock := by
        rw [hcut, modifyDisk, modify_nodes_self]
        rfl
      rw [← hcut]
      split
      · have hzero := zeroRange_makes (by rw [hdev]; exact hw) i newSize (512 - newSize % 512)
        rw [hnode] at hzero
        refine .of_some (hzero.of_memory hdev) fun _ => ?_
        rw [nodes_of_onDevice (zeroRange_onDevice ..)]
        exact hnode
      · exact .of_some (.memory hdev) fun _ => hnode
  · exact .of_some (.memory rfl) fun _ => rfl

/-- **`simplefs_resize_node` goes by its plan.** -/
theorem resizeNode_planned (hw : fs.dev.readOnly = false) (hk : (fs.nodes i).disk.kind = kindFile)
    (newSize : Nat) : Planned fs i (fs.growthPlan i newSize) (fs.resizeNode i newSize) := by
  have hgo : ¬(fs.dev.readOnly = true ∨ (fs.nodes i).disk.kind ≠ kindFile) := by
    rw [hw, hk]
    simp
  have hplan := resizeExtent_planned hw i newSize
  have hsb : (fs.resizeExtent i newSize).1.sb = fs.sb := (resizeExtent_aside fs i newSize).steady.sb
  unfold resizeNode growthPlan
  rw [if_neg hgo]
  generalize fs.resizeExtent i newSize = made at hplan hsb
  obtain ⟨fs₁, ok⟩ := made
  cases hres : fs.resizePlan i newSize with
  | none =>
    cases hplan.none hres
    exact .of_none rfl
  | some plan =>
    rw [hres] at hplan
    cases ok with
    | false => exact hplan.next (fun _ => rfl) fun h => absurd h (by simp)
    | true =>
      have hw₁ : (fs₁.setSize i newSize).dev.readOnly = false :=
        ((hplan.makes _ _ rfl).spent rfl).readOnly.trans hw
      -- the size is set in memory, between the blocks and the metadata
      have hsized : Planned fs i (some plan) (fs₁.setSize i newSize, true) := by
        refine .of_some ((hplan.makes _ _ rfl).then_memory rfl fun _ => rfl) fun _ => ?_
        unfold setSize
        rw [modify_nodes_self]
        exact hplan.place _ _ rfl rfl
      refine hsized.next (fun h => absurd h (by simp)) fun _ => ⟨?_, ?_⟩
      · have hflush := flushMetadata_makes hw₁
        rw [show (fs₁.setSize i newSize).sb = fs.sb from hsb] at hflush
        exact hflush
      · rw [nodes_of_onDevice (flushMetadata_onDevice _)]

end Simplefs

end Riverix.Fs
