import Mathlib.Data.Finset.Card
import Riverix.Fs.Frame
import Riverix.Fs.Transfers

/-!
# When mounting comes to an end

`simplefs_populate_directory` calls itself for every child directory that is not
`populated`, and sets `populated` only when all records have been read. A record that
names a directory whose own call is still under way therefore starts that call over,
and it reads the same records in the same order and comes to the same record again.

`populateWithin` is the recursion as it is in the C code, with a bound on its depth;
`none` means that the bound was reached. `visit` is the same walk with the calls that
are under way at hand: it stops where the C code would go round. `Waits` describes a
call under way that has come to one of its records, and a set of directories each of
which waits for another of the set (`Ring`) is left only if the device refuses a read.

The argument has three parts. A call changes little: the records and the kinds of all
inodes stay, and what was populated stays so (`Later`), so a call that starts over does
what it did before (`Underway`, `Waits.later`). The two walks agree: as long as `visit`
does not stop, enough depth gives its result, and where it stops the bound is reached at
every depth or a read is refused (`Agrees`, by induction on `visit`'s fuel, which the
number of inodes bounds). And a ring of waiting directories is a cycle of records, so on
an image without cycles the walk never stops (`Acyclic.not_ring`). A bound that is
reached at every depth is a kernel stack that overflows.
-/

namespace Riverix.Fs

open Riverix.Lib

namespace Simplefs

variable {fs fs' fs'' : Simplefs} {d c x : Nat}

/-! ## The recursion with a bound on its depth -/

/-- A loop that stops at the first failure, over a body that may run out of depth. -/
def loopWithin (body : Simplefs → Nat → Option (Simplefs × Bool)) :
    List Nat → Simplefs → Option (Simplefs × Bool)
  | [], fs => some (fs, true)
  | k :: ks, fs =>
    match body fs k with
    | none => none
    | some (fs, true) => loopWithin body ks fs
    | some (fs, false) => some (fs, false)

/-- One turn of the loop of `simplefs_populate_directory`; `populate` is the
recursive call. -/
def entryWithin (populate : Simplefs → Nat → Option (Simplefs × Bool)) (d : Nat) (entries : Store)
    (fs : Simplefs) (index : Nat) : Option (Simplefs × Bool) :=
  if BadRecord fs entries index then some (fs, false)
  else
    let child := entryInode entries index
    let fs := fs.enterChild d child (entryName entries index)
    if Unvisited fs child then populate fs child else some (fs, true)

/-- `simplefs_populate_directory`, with at most `depth` calls under way at once. -/
def populateWithin : Nat → Simplefs → Nat → Option (Simplefs × Bool)
  | 0, _, _ => none
  | depth + 1, fs, d =>
    let n := fs.nodes d
    if n.disk.kind ≠ kindDir then some (fs, false)
    else if n.populated then some (fs, true)
    else if n.disk.childCount > directoryCapacity then some (fs, false)
    else
      match fs.allocDirSlots d with
      | (fs, false) => some (fs, false)
      | (fs, true) =>
        match (fs.clearWindow d).readDirEntries d n.disk.childCount with
        | (fs, none) => some (fs, false)
        | (fs, some entries) =>
          match loopWithin (entryWithin (populateWithin depth) d entries)
              (List.range n.disk.childCount) fs with
          | none => none
          | some (fs, false) => some (fs, false)
          | some (fs, true) => some (fs.modify d fun n => { n with populated := true }, true)

/-- `simplefs_mount` up to the call that populates the root. -/
def mountReady (dev : Device) (amb : Ambient) : Option Simplefs :=
  match dev.read 0 1 with
  | (_, none) => none
  | (dev, some block) =>
    let sb := decodeSuperblock block
    if sb.accepted dev.blockCount = false then none
    else
      match dev.read sb.inodeTableStart sb.inodeTableBlocks with
      | (_, none) => none
      | (dev, some table) =>
        match dev.read sb.inodeBitmapStart sb.inodeBitmapBlocks with
        | (_, none) => none
        | (dev, some inodeBits) =>
          match dev.read sb.blockBitmapStart sb.blockBitmapBlocks with
          | (_, none) => none
          | (dev, some blockBits) =>
            let fs := loaded dev amb sb table inodeBits blockBits
            if (List.range sb.inodeCount).all fun i =>
                !fs.inodeUsed i || (fs.nodes i).disk.kind == kindDir
                  || (fs.nodes i).disk.kind == kindFile then
              some fs
            else none

/-- `simplefs_mount`, with a bound on the depth of the calls. -/
def mountWithin (depth : Nat) (dev : Device) (amb : Ambient) : Option (Option Simplefs) :=
  match mountReady dev amb with
  | none => some none
  | some fs =>
    match populateWithin depth fs fs.sb.rootInode with
    | none => none
    | some (_, false) => some none
    | some (fs, true) => some (some fs)

/-- A body that returns more often makes a loop that returns more often. -/
theorem loopWithin_mono {body body' : Simplefs → Nat → Option (Simplefs × Bool)}
    (h : ∀ fs k r, body fs k = some r → body' fs k = some r) (ks : List Nat) :
    ∀ fs r, loopWithin body ks fs = some r → loopWithin body' ks fs = some r := by
  induction ks with
  | nil => exact fun _ _ hr => hr
  | cons k ks ih =>
    intro fs r hr
    rw [loopWithin] at hr ⊢
    cases hk : body fs k with
    | none =>
      rw [hk] at hr
      simp at hr
    | some p =>
      rw [hk] at hr
      rw [h _ _ _ hk]
      obtain ⟨fs₁, ok⟩ := p
      cases ok with
      | false => exact hr
      | true => exact ih fs₁ r hr

theorem entryWithin_mono {populate populate' : Simplefs → Nat → Option (Simplefs × Bool)}
    (h : ∀ fs c r, populate fs c = some r → populate' fs c = some r) {entries : Store}
    (fs : Simplefs) (k : Nat) (r : Simplefs × Bool)
    (hr : entryWithin populate d entries fs k = some r) :
    entryWithin populate' d entries fs k = some r := by
  unfold entryWithin at hr ⊢
  split at hr
  next hb => rw [if_pos hb]; exact hr
  next hb =>
  rw [if_neg hb]
  dsimp only at hr ⊢
  split at hr
  next hu => rw [if_pos hu]; exact h _ _ _ hr
  next hu => rw [if_neg hu]; exact hr

/-- What a call comes to before its loop: it is over, or it has its records. -/
inductive Opening
  | done (fs : Simplefs) (ok : Bool)
  | reading (fs : Simplefs) (entries : Store)

/-- `simplefs_populate_directory` up to its loop. -/
def opening (fs : Simplefs) (d : Nat) : Opening :=
  let n := fs.nodes d
  if n.disk.kind ≠ kindDir then .done fs false
  else if n.populated then .done fs true
  else if n.disk.childCount > directoryCapacity then .done fs false
  else
    match fs.allocDirSlots d with
    | (fs, false) => .done fs false
    | (fs, true) =>
      match (fs.clearWindow d).readDirEntries d n.disk.childCount with
      | (fs, none) => .done fs false
      | (fs, some entries) => .reading fs entries

/-- What follows the loop: a directory that has been read is `populated`. -/
def closing (d : Nat) (r : Simplefs × Bool) : Simplefs × Bool :=
  if r.2 then (r.1.modify d fun n => { n with populated := true }, true) else r

/-- One call, taken apart: what it does before its records, the records, and the mark. -/
theorem populateWithin_opening (depth : Nat) (fs : Simplefs) (d : Nat) :
    populateWithin (depth + 1) fs d = match fs.opening d with
      | .done fs ok => some (fs, ok)
      | .reading fs₁ entries => (loopWithin (entryWithin (populateWithin depth) d entries)
          (List.range' 0 (fs.nodes d).disk.childCount) fs₁).map (closing d) := by
  rw [populateWithin]
  unfold opening
  dsimp only
  split
  · rfl
  split
  · rfl
  split
  · rfl
  generalize fs.allocDirSlots d = a
  obtain ⟨fs₁, _ | _⟩ := a
  · rfl
  dsimp only
  generalize (fs₁.clearWindow d).readDirEntries d (fs.nodes d).disk.childCount = q
  obtain ⟨fs₂, _ | entries⟩ := q
  · rfl
  dsimp only
  rw [List.range_eq_range']
  generalize loopWithin _ _ fs₂ = l
  obtain _ | ⟨g, _ | _⟩ := l <;> rfl

/-- More depth changes nothing once there is enough. -/
theorem populateWithin_succ (depth : Nat) : ∀ fs d r, populateWithin depth fs d = some r →
    populateWithin (depth + 1) fs d = some r := by
  induction depth with
  | zero => exact fun _ _ _ h => absurd h (by simp [populateWithin])
  | succ depth ih =>
    intro fs d r h
    rw [populateWithin_opening] at h ⊢
    generalize fs.opening d = o at h ⊢
    cases o with
    | done fs₁ ok => exact h
    | reading fs₁ entries =>
      obtain ⟨l, hl, hr⟩ := Option.map_eq_some_iff.mp h
      exact Option.map_eq_some_iff.mpr ⟨l, loopWithin_mono (entryWithin_mono ih) _ _ _ hl, hr⟩

/-- A result does not change with more depth. -/
theorem populateWithin_mono {n m : Nat} (hnm : n ≤ m) {r : Simplefs × Bool}
    (h : populateWithin n fs d = some r) : populateWithin m fs d = some r := by
  induction hnm with
  | refl => exact h
  | step _ ih => exact populateWithin_succ _ _ _ _ ih

/-! ## What a call leaves behind -/

/-- Changes to the tree in memory that do not use the device and complete no call. -/
structure Quiet (fs fs' : Simplefs) : Prop where
  core : fs'.core = fs.core
  dev : fs'.dev = fs.dev
  above : fs'.above = fs.above
  populated : ∀ x, (fs'.nodes x).populated = (fs.nodes x).populated
  windows : ∀ x, (fs.nodes x).dirSlotBase ≠ none → (fs'.nodes x).dirSlotBase ≠ none

theorem Quiet.refl (fs : Simplefs) : Quiet fs fs := ⟨rfl, rfl, rfl, fun _ => rfl, fun _ h => h⟩

theorem Quiet.trans (h : Quiet fs fs') (h' : Quiet fs' fs'') : Quiet fs fs'' :=
  ⟨h'.core.trans h.core, h'.dev.trans h.dev, h'.above.trans h.above,
    fun x => (h'.populated x).trans (h.populated x), fun x hx => h'.windows x (h.windows x hx)⟩

/-- What a part of the walk can do: some calls are completed, some answers of the device
are used up. -/
structure Later (fs fs' : Simplefs) : Prop where
  core : fs'.core = fs.core
  bytes : fs'.dev.bytes = fs.dev.bytes
  blocks : fs'.dev.blockCount = fs.dev.blockCount
  above : fs'.above = fs.above
  works : fs.dev.faults = [] → fs'.dev.faults = []
  visited : ∀ x, (fs.nodes x).populated = true → (fs'.nodes x).populated = true
  windows : ∀ x, (fs.nodes x).dirSlotBase ≠ none → (fs'.nodes x).dirSlotBase ≠ none

theorem Later.refl (fs : Simplefs) : Later fs fs :=
  ⟨rfl, rfl, rfl, rfl, fun h => h, fun _ h => h, fun _ h => h⟩

theorem Later.trans (h : Later fs fs') (h' : Later fs' fs'') : Later fs fs'' :=
  ⟨h'.core.trans h.core, h'.bytes.trans h.bytes, h'.blocks.trans h.blocks, h'.above.trans h.above,
    fun hw => h'.works (h.works hw), fun x hx => h'.visited x (h.visited x hx),
      fun x hx => h'.windows x (h.windows x hx)⟩

theorem Quiet.later (h : Quiet fs fs') : Later fs fs' :=
  ⟨h.core, by rw [h.dev], by rw [h.dev], h.above, fun hw => by rw [h.dev]; exact hw,
    fun x hx => by rw [h.populated]; exact hx,
    h.windows⟩

/-- Slots are nothing that the recursion looks at. -/
theorem setSlots_quiet (fs : Simplefs) (d : Nat)
    (f : (Nat → Option NodeRef) → Nat → Option NodeRef) : Quiet fs (fs.setSlots d f) := by
  refine ⟨setSlots_core fs d f, setSlots_dev fs d f, ?_, fun x => ?_, fun x hx => ?_⟩
  · unfold setSlots
    split <;> rfl
  · unfold setSlots
    split <;> rfl
  · unfold setSlots
    split
    · exact hx
    · exact hx

theorem modify_quiet {f : RuntimeInode → RuntimeInode}
    (hcore : (f (fs.nodes d)).core = (fs.nodes d).core)
    (hpop : (f (fs.nodes d)).populated = (fs.nodes d).populated)
    (hbase : (fs.nodes d).dirSlotBase ≠ none → (f (fs.nodes d)).dirSlotBase ≠ none) :
    Quiet fs (fs.modify d f) := by
  refine ⟨modify_core hcore, rfl, rfl, congrFun (modify_keeps (fun n => n.populated) hpop),
    fun x hx => ?_⟩
  by_cases hxd : x = d
  · rw [hxd] at hx ⊢
    rw [modify_nodes_self]
    exact hbase hx
  · rw [modify_nodes_ne _ _ hxd]
    exact hx

theorem enterChild_quiet (fs : Simplefs) (d c : Nat) (name : List Byte) :
    Quiet fs (fs.enterChild d c name) := by
  have hname : Quiet fs (fs.modify c fun n => { n with name }) := modify_quiet rfl rfl fun h => h
  unfold enterChild appendChild modifyVfs setChildAt
  exact hname.trans ((setSlots_quiet _ d _).trans (modify_quiet rfl rfl fun h => h))

theorem clearWindow_quiet (fs : Simplefs) (d : Nat) : Quiet fs (fs.clearWindow d) := by
  unfold clearWindow modifyVfs
  exact Quiet.trans (setSlots_quiet fs d _) (modify_quiet rfl rfl fun h => h)

theorem allocDirSlots_quiet (fs : Simplefs) (d : Nat) : Quiet fs (fs.allocDirSlots d).1 := by
  unfold allocDirSlots
  split
  · exact Quiet.refl fs
  split
  · exact Quiet.refl fs
  refine ⟨?_, rfl, rfl, fun x => ?_, fun x hx => ?_⟩
  · unfold takeWindow
    rw [modify_core rfl]
    rfl
  · show ((fs.takeWindow d).nodes x).populated = _
    unfold takeWindow
    exact congrFun (modify_keeps (fun n => n.populated) rfl) x
  · by_cases hxd : x = d
    · rw [hxd]
      show ((fs.takeWindow d).nodes d).dirSlotBase ≠ none
      unfold takeWindow
      rw [modify_nodes_self]
      simp
    · show ((fs.takeWindow d).nodes x).dirSlotBase ≠ none
      unfold takeWindow
      rw [modify_nodes_ne _ _ hxd]
      exact hx

/-! ## Reading the records -/

/-- The records of a directory that has some, unless the device refuses to read them. -/
def records (fs : Simplefs) (x : Nat) : Option Store :=
  let n := (fs.nodes x).disk
  let required := dirRequiredBlocks n.childCount
  if n.dataBlock = 0 ∨ n.blockCount ≠ required ∨ ¬ fs.dev.InRange n.dataBlock required then none
  else some (fs.entryBuffer.paste 0 (512 * required) (fs.dev.blocks n.dataBlock))

/-- The records of a directory are the same at any later time. -/
theorem Later.records (h : Later fs fs') (x : Nat) : fs'.records x = fs.records x := by
  have hblocks : ∀ start, fs'.dev.blocks start = fs.dev.blocks start := by
    intro start
    unfold Device.blocks
    rw [h.bytes]
  have hrange : ∀ start count, fs'.dev.InRange start count ↔ fs.dev.InRange start count := by
    intro start count
    unfold Device.InRange
    rw [h.blocks]
  unfold Simplefs.records entryBuffer
  dsimp only
  rw [disk_of_core h.core, hblocks, h.above]
  exact if_congr (by rw [hrange]) rfl rfl

/-- A directory with records: the device is asked once. -/
theorem readDirEntries_records (hc : (fs.nodes x).disk.childCount ≠ 0) {entries : Store}
    (hr : fs.records x = some entries) :
    fs.readDirEntries x (fs.nodes x).disk.childCount = ({ fs with dev := fs.dev.answered },
      if fs.dev.fault 0 then none else some entries) := by
  unfold records at hr
  dsimp only at hr
  split at hr
  · simp at hr
  next hgood =>
  rw [not_or, not_or, not_not, not_not] at hgood
  unfold readDirEntries
  rw [if_neg hc, if_neg (by rw [not_or, not_not]; exact ⟨hgood.1, hgood.2.1⟩)]
  simp only [readBlocks, Device.read_inRange hgood.2.2]
  rw [← Option.some.inj hr]
  cases fs.dev.fault 0 with
  | true => rfl
  | false => rfl

/-- A read that succeeds finds the records. -/
theorem records_of_read (hc : (fs.nodes x).disk.childCount ≠ 0) {entries : Store}
    (hr : fs.readDirEntries x (fs.nodes x).disk.childCount = (fs', some entries)) :
    fs.records x = some entries := by
  cases hrec : fs.records x with
  | some entries' =>
    rw [readDirEntries_records hc hrec] at hr
    have := (Prod.mk.inj hr).2
    split at this
    · simp at this
    · exact this
  | none =>
    exfalso
    unfold records at hrec
    dsimp only at hrec
    split at hrec
    next hbad =>
      unfold readDirEntries at hr
      rw [if_neg hc] at hr
      split at hr
      · exact absurd (Prod.mk.inj hr).2 (by simp)
      next hgood =>
      have hout : ¬ fs.dev.InRange (fs.nodes x).disk.dataBlock
          (dirRequiredBlocks (fs.nodes x).disk.childCount) := by
        rw [not_or] at hgood
        rcases hbad with h | h | h
        · exact absurd h hgood.1
        · exact absurd h hgood.2
        · exact h
      unfold readBlocks Device.read at hr
      rw [if_neg hout] at hr
      exact absurd (Prod.mk.inj hr).2 (by simp)
    · simp at hrec

theorem readDirEntries_works (fs : Simplefs) (d count : Nat) (hw : fs.dev.faults = []) :
    (fs.readDirEntries d count).1.dev.faults = [] := by
  have hread : ∀ start n, (fs.readBlocks start n).1.dev.faults = [] := by
    intro start n
    unfold readBlocks Device.read
    rw [hw]
    split <;> exact hw
  unfold readDirEntries
  dsimp only
  split
  · exact hw
  split
  · exact hw
  · have := hread (fs.nodes d).disk.dataBlock (dirRequiredBlocks count)
    generalize fs.readBlocks (fs.nodes d).disk.dataBlock (dirRequiredBlocks count) = p at this ⊢
    obtain ⟨fs₁, out⟩ := p
    cases out <;> exact this

/-- A read changes nothing but the answers that the device has left. -/
theorem readDirEntries_later (fs : Simplefs) (d count : Nat) :
    Later fs (fs.readDirEntries d count).1 ∧
      ∀ x, ((fs.readDirEntries d count).1.nodes x).populated = (fs.nodes x).populated := by
  have hw := readDirEntries_works fs d count
  obtain ⟨dev, hb, hblocks, heq⟩ := readDirEntries_shape fs d count
  rw [heq] at hw ⊢
  exact ⟨⟨rfl, hb, hblocks, rfl, hw, fun _ h => h, fun _ h => h⟩, fun _ => rfl⟩

/-! ## Calls under way -/

/-- The records before record `k` have been dealt with: no call is made for them again. -/
def Passed (fs : Simplefs) (entries : Store) (k : Nat) : Prop :=
  ∀ j < k, ¬BadRecord fs entries j ∧ ¬Unvisited fs (entryInode entries j)

theorem Later.badRecord (h : Later fs fs') {entries : Store} {k : Nat} :
    BadRecord fs' entries k ↔ BadRecord fs entries k := by
  unfold BadRecord
  rw [show fs'.sb = fs.sb from congrArg Core.sb h.core]

/-- What is to be visited later was to be visited before. -/
theorem Later.unvisited (h : Later fs fs') (hu : Unvisited fs' c) : Unvisited fs c := by
  refine ⟨(congrArg DiskInode.kind (disk_of_core h.core c)).symm.trans hu.1, ?_⟩
  by_contra hp
  have hv := h.visited c (Bool.not_eq_false _ |>.mp hp)
  rw [hu.2] at hv
  simp at hv

theorem Quiet.unvisited (h : Quiet fs fs') : Unvisited fs' c ↔ Unvisited fs c := by
  unfold Unvisited
  rw [disk_of_core h.core, h.populated]

theorem Passed.later {entries : Store} {k : Nat} (hp : Passed fs entries k) (h : Later fs fs') :
    Passed fs' entries k := fun j hj =>
  ⟨fun hb => (hp j hj).1 (h.badRecord.mp hb), fun hu => (hp j hj).2 (h.unvisited hu)⟩

/-- A call that has its window and its records. -/
structure Underway (fs : Simplefs) (d : Nat) (entries : Store) : Prop where
  kind : (fs.nodes d).disk.kind = kindDir
  fresh : (fs.nodes d).populated = false
  fits : (fs.nodes d).disk.childCount ≤ 32
  window : (fs.nodes d).dirSlotBase ≠ none
  records : (fs.nodes d).disk.childCount ≠ 0 → fs.records d = some entries

/-- A call stays under way while other calls run inside it. -/
theorem Underway.later {entries : Store} (h : Underway fs d entries) (hl : Later fs fs')
    (hp : (fs'.nodes d).populated = (fs.nodes d).populated) : Underway fs' d entries := by
  have hdisk := disk_of_core hl.core d
  refine ⟨by rw [hdisk]; exact h.kind, by rw [hp]; exact h.fresh, by rw [hdisk]; exact h.fits,
    hl.windows d h.window, fun hc => ?_⟩
  rw [hdisk] at hc
  rw [hl.records]
  exact h.records hc

/-- The call for `x` is under way and has come to a record that names `c`. -/
def Waits (fs : Simplefs) (x c : Nat) : Prop :=
  ∃ entries k, Underway fs x entries ∧ k < (fs.nodes x).disk.childCount ∧
    Passed fs entries k ∧ ¬BadRecord fs entries k ∧ entryInode entries k = c

/-- So does its waiting for the child it has come to. -/
theorem Waits.later (h : Waits fs x c) (hl : Later fs fs')
    (hp : (fs'.nodes x).populated = (fs.nodes x).populated) : Waits fs' x c := by
  obtain ⟨entries, k, hun, hk, hpass, hgood, hc⟩ := h
  exact ⟨entries, k, hun.later hl hp, by rw [disk_of_core hl.core]; exact hk, hpass.later hl,
    fun hb => hgood (hl.badRecord.mp hb), hc⟩

/-- Directories each of which waits for another one of them. -/
def Ring (fs : Simplefs) (ring : List Nat) : Prop := ∀ x ∈ ring, ∃ c ∈ ring, Waits fs x c

theorem Ring.later {ring : List Nat} (h : Ring fs ring) (hl : Later fs fs')
    (hp : ∀ x, (fs'.nodes x).populated = (fs.nodes x).populated) : Ring fs' ring := by
  intro x hx
  obtain ⟨c, hc, hw⟩ := h x hx
  exact ⟨c, hc, hw.later hl (hp x)⟩

/-- The loop runs through the records that have been dealt with. -/
theorem loopWithin_passed {entries : Store} {k : Nat} (m : Nat) :
    ∀ n j (fs : Simplefs), j + n = k → Passed fs entries k →
    ∃ fs₁, Quiet fs fs₁ ∧ ∀ populate,
      loopWithin (entryWithin populate d entries) (List.range' j (n + m)) fs
        = loopWithin (entryWithin populate d entries) (List.range' k m) fs₁ := by
  intro n
  induction n with
  | zero =>
    intro j fs hj _
    refine ⟨fs, Quiet.refl fs, fun _ => ?_⟩
    rw [Nat.zero_add, show j = k by omega]
  | succ n ih =>
    intro j fs hj hpass
    obtain ⟨hgood, hdone⟩ := hpass j (by omega)
    have hq := enterChild_quiet fs d (entryInode entries j) (entryName entries j)
    obtain ⟨fs₁, hq₁, heq⟩ := ih (j + 1) (fs.enterChild d (entryInode entries j)
      (entryName entries j)) (by omega) (hpass.later hq.later)
    refine ⟨fs₁, hq.trans hq₁, fun populate => ?_⟩
    rw [show n + 1 + m = (n + m) + 1 by omega, List.range'_succ, loopWithin, entryWithin,
      if_neg hgood]
    rw [if_neg fun hu => hdone (hq.unvisited.mp hu)]
    exact heq populate

/-- What becomes of a call that has its window: it asks the device for the records. -/
theorem Underway.call {entries : Store} (hw : Underway fs x entries)
    (hcount : (fs.nodes x).disk.childCount ≠ 0) :
    ∃ fs₁, Later fs fs₁ ∧ (∀ y, (fs₁.nodes y).populated = (fs.nodes y).populated) ∧
      fs₁.dev.faults = fs.dev.faults.tail ∧
      fs.opening x = if fs.dev.fault 0 then .done fs₁ false else .reading fs₁ entries := by
  have halloc : fs.allocDirSlots x = (fs, true) := by
    unfold allocDirSlots
    rw [if_pos hw.window]
  have hclear := clearWindow_quiet fs x
  have hdisk := disk_of_core hclear.core x
  have hread := readDirEntries_records (by rw [hdisk]; exact hcount)
    ((hclear.later.records x).trans (hw.records hcount))
  rw [hdisk, hclear.dev] at hread
  have hanswered : Later (fs.clearWindow x) { fs.clearWindow x with dev := fs.dev.answered } := by
    refine ⟨rfl, by rw [hclear.dev]; rfl, by rw [hclear.dev]; rfl, rfl, fun h => ?_, fun _ h => h,
      fun _ h => h⟩
    rw [hclear.dev] at h
    show fs.dev.faults.tail = []
    rw [h]
    rfl
  refine ⟨_, hclear.later.trans hanswered, hclear.populated, rfl, ?_⟩
  simp only [opening, hw.kind, hw.fresh, Nat.not_lt.mpr hw.fits, halloc, hread, ne_eq,
    not_true_eq_false, if_false, Bool.false_eq_true]
  cases fs.dev.fault 0 <;> rfl

/-- A call of a ring whose read is refused ends. -/
theorem Ring.refused {ring : List Nat} (h : Ring fs ring) (hx : x ∈ ring)
    (hf : fs.dev.fault 0 = true) : ∃ fs₁, ∀ n, populateWithin (n + 1) fs x = some (fs₁, false) := by
  obtain ⟨c, -, entries, k, hun, hk, -⟩ := h x hx
  obtain ⟨fs₁, -, -, -, hopen⟩ := hun.call (by omega)
  exact ⟨fs₁, fun n => by rw [populateWithin_opening, hopen, if_pos hf]⟩

/-- A call of a ring whose read is served is the next call of the ring. -/
theorem Ring.next {ring : List Nat} (h : Ring fs ring) (hx : x ∈ ring)
    (hf : fs.dev.fault 0 = false) :
    ∃ fs₁, ∃ c ∈ ring, Ring fs₁ ring ∧ fs₁.dev.faults = fs.dev.faults.tail ∧
      ∀ n, (populateWithin n fs₁ c = none → populateWithin (n + 1) fs x = none) ∧
        ∀ g, populateWithin n fs₁ c = some (g, false) →
          populateWithin (n + 1) fs x = some (g, false) := by
  obtain ⟨c, hc, entries, k, hun, hk, hpass, hgood, rfl⟩ := h x hx
  obtain ⟨fs₁, hl, hp, hfaults, hopen⟩ := hun.call (by omega)
  obtain ⟨m, hm⟩ : ∃ m, (fs.nodes x).disk.childCount = k + (m + 1) :=
    ⟨(fs.nodes x).disk.childCount - k - 1, by omega⟩
  obtain ⟨fs₂, hq, hloop⟩ := loopWithin_passed (d := x) (m + 1) k 0 fs₁ (by omega) (hpass.later hl)
  -- the record that leads on
  have hq₃ := enterChild_quiet fs₂ x (entryInode entries k) (entryName entries k)
  have hl₃ := hl.trans (hq.trans hq₃).later
  have hp₃ : ∀ y,
      ((fs₂.enterChild x (entryInode entries k) (entryName entries k)).nodes y).populated
      = (fs.nodes y).populated := fun y => ((hq.trans hq₃).populated y).trans (hp y)
  have hring := h.later hl₃ hp₃
  have hun : Unvisited (fs₂.enterChild x (entryInode entries k) (entryName entries k))
      (entryInode entries k) := by
    obtain ⟨c', -, _, _, hun', -⟩ := hring _ hc
    exact ⟨hun'.kind, hun'.fresh⟩
  have hentry : ∀ n, entryWithin (populateWithin n) x entries fs₂ k = populateWithin n
      (fs₂.enterChild x (entryInode entries k) (entryName entries k)) (entryInode entries k) := by
    intro n
    unfold entryWithin
    rw [if_neg fun hb => hgood ((hl.trans hq.later).badRecord.mp hb)]
    rw [if_pos hun]
  refine ⟨_, _, hc, hring, ?_, fun n => ?_⟩
  · rw [(hq.trans hq₃).dev]
    exact hfaults
  · rw [populateWithin_opening, hopen, if_neg (by rw [hf]; simp)]
    dsimp only
    rw [hm, hloop, List.range'_succ, loopWithin, hentry]
    exact ⟨fun hn => by rw [hn]; rfl, fun g hg => by rw [hg]; rfl⟩

/-- A ring on a device that refuses nothing is never left. -/
theorem Ring.diverges {ring : List Nat} (n : Nat) : ∀ {fs : Simplefs} {x : Nat}, Ring fs ring →
    x ∈ ring → true ∉ fs.dev.faults → populateWithin n fs x = none := by
  induction n with
  | zero => exact fun _ _ _ => rfl
  | succ n ih =>
    intro fs x h hx hserved
    have hf : fs.dev.fault 0 = false := by
      unfold Device.fault
      cases hfaults : fs.dev.faults with
      | nil => rfl
      | cons f fs' =>
        rw [hfaults] at hserved
        cases f with
        | false => rfl
        | true => exact absurd (List.mem_cons_self ..) hserved
    obtain ⟨fs₁, c, hc, hring, hfaults, hcall⟩ := h.next hx hf
    refine (hcall n).1 (ih hring hc fun hmem => hserved ?_)
    rw [hfaults] at hmem
    exact List.mem_of_mem_tail hmem

/-- A ring is left when the device refuses a read. -/
theorem Ring.leaves {ring : List Nat} : ∀ (faults : List Bool) {fs : Simplefs} {x : Nat},
    fs.dev.faults = faults → Ring fs ring → x ∈ ring → true ∈ faults →
    ∃ n g, populateWithin n fs x = some (g, false) := by
  intro faults
  induction faults with
  | nil => exact by simp
  | cons f faults ih =>
    intro fs x hfaults h hx hmem
    cases f with
    | true =>
      obtain ⟨fs₁, hcall⟩ := h.refused hx (by unfold Device.fault; rw [hfaults]; rfl)
      exact ⟨1, fs₁, hcall 0⟩
    | false =>
      obtain ⟨fs₁, c, hc, hring, htail, hcall⟩ :=
        h.next hx (by unfold Device.fault; rw [hfaults]; rfl)
      rw [hfaults] at htail
      obtain ⟨n, g, hg⟩ := ih htail hring hc (by simpa using hmem)
      exact ⟨n + 1, g, (hcall n).2 g hg⟩

/-! ## The walk that knows its path -/

/-- How the visit of a directory ends: all of it has been read, or something made it fail,
or it has come to a directory that it is still inside of. -/
inductive Ending
  | whole
  | refused
  | inside
  deriving DecidableEq

/-- A loop that goes on while its turns are whole. -/
def visitLoop (body : Simplefs → Nat → Simplefs × Ending) : List Nat → Simplefs → Simplefs × Ending
  | [], fs => (fs, .whole)
  | k :: ks, fs =>
    match body fs k with
    | (fs, .whole) => visitLoop body ks fs
    | (fs, .refused) => (fs, .refused)
    | (fs, .inside) => (fs, .inside)

/-- One record; `path` holds the directory and those it was reached through. -/
def visitEntry (visit : Simplefs → Nat → Simplefs × Ending) (path : List Nat) (d : Nat)
    (entries : Store) (fs : Simplefs) (index : Nat) : Simplefs × Ending :=
  if BadRecord fs entries index then (fs, .refused)
  else
    let child := entryInode entries index
    let fs := fs.enterChild d child (entryName entries index)
    if Unvisited fs child then
      if child ∈ path then (fs, .inside) else visit fs child
    else (fs, .whole)

/-- The visit of a directory that was reached through those of `path`. -/
def visit : Nat → List Nat → Simplefs → Nat → Simplefs × Ending
  | 0, _, fs, _ => (fs, .refused)
  | fuel + 1, path, fs, d =>
    let n := fs.nodes d
    if n.disk.kind ≠ kindDir then (fs, .refused)
    else if n.populated then (fs, .whole)
    else if n.disk.childCount > directoryCapacity then (fs, .refused)
    else
      match fs.allocDirSlots d with
      | (fs, false) => (fs, .refused)
      | (fs, true) =>
        match (fs.clearWindow d).readDirEntries d n.disk.childCount with
        | (fs, none) => (fs, .refused)
        | (fs, some entries) =>
          match visitLoop (visitEntry (visit fuel (d :: path)) (d :: path) d entries)
              (List.range n.disk.childCount) fs with
          | (fs, .inside) => (fs, .inside)
          | (fs, .refused) => (fs, .refused)
          | (fs, .whole) => (fs.modify d fun n => { n with populated := true }, .whole)

/-- One call of the walk, taken apart in the same way. -/
theorem visit_opening (fuel : Nat) (path : List Nat) (fs : Simplefs) (d : Nat) :
    visit (fuel + 1) path fs d = match fs.opening d with
      | .done fs ok => (fs, if ok then .whole else .refused)
      | .reading fs₁ entries =>
        match visitLoop (visitEntry (visit fuel (d :: path)) (d :: path) d entries)
            (List.range' 0 (fs.nodes d).disk.childCount) fs₁ with
        | (fs, .inside) => (fs, .inside)
        | (fs, .refused) => (fs, .refused)
        | (fs, .whole) => (fs.modify d fun n => { n with populated := true }, .whole) := by
  rw [visit]
  unfold opening
  dsimp only
  split
  · rfl
  split
  · rfl
  split
  · rfl
  generalize fs.allocDirSlots d = a
  obtain ⟨fs₁, _ | _⟩ := a
  · rfl
  dsimp only
  generalize (fs₁.clearWindow d).readDirEntries d (fs.nodes d).disk.childCount = q
  obtain ⟨fs₂, _ | entries⟩ := q
  · rfl
  rw [List.range_eq_range']

/-- What the visit says about the recursion `run`: what it returns, and that it returns
nothing from inside a directory, which is in a ring, unless the device refuses one of the
reads to come. -/
def Agrees (run : Nat → Option (Simplefs × Bool)) (depth : Nat) (r : Simplefs × Ending) : Prop :=
  match r.2 with
  | .whole => run depth = some (r.1, true)
  | .refused => run depth = some (r.1, false)
  | .inside => (true ∉ r.1.dev.faults → ∀ n, run n = none) ∧
      (true ∈ r.1.dev.faults → ∃ n g, run n = some (g, false)) ∧
      ∃ x ring, x ∈ ring ∧ Ring r.1 ring

/-- Every directory of the path waits for the one after it, and the last for `c`. -/
def Chain (fs : Simplefs) : List Nat → Nat → Prop
  | [], _ => True
  | x :: path, c => Waits fs x c ∧ Chain fs path x

/-- The calls under way stay a chain while calls run inside the last one. -/
theorem Chain.later {path : List Nat} (hl : Later fs fs') : ∀ {c : Nat}, Chain fs path c →
    (∀ x ∈ path, (fs'.nodes x).populated = (fs.nodes x).populated) → Chain fs' path c := by
  induction path with
  | nil => exact fun _ _ => trivial
  | cons x path ih =>
    intro c h hp
    exact ⟨h.1.later hl (hp x (List.mem_cons_self ..)),
      ih h.2 fun y hy => hp y (List.mem_cons_of_mem _ hy)⟩

/-- The part of a path from a directory on: everyone there waits for another one there,
or for `c`. -/
theorem Chain.from {path : List Nat} : ∀ {c t : Nat}, Chain fs path c → t ∈ path →
    ∃ ring, t ∈ ring ∧ ∀ y ∈ ring, ∃ z ∈ c :: ring, Waits fs y z := by
  induction path with
  | nil => exact by simp
  | cons x path ih =>
    intro c t h ht
    rcases List.mem_cons.mp ht with rfl | ht
    · refine ⟨[t], by simp, fun y hy => ?_⟩
      rw [List.mem_singleton.mp hy]
      exact ⟨c, by simp, h.1⟩
    obtain ⟨ring, hmem, hring⟩ := ih h.2 ht
    refine ⟨x :: ring, List.mem_cons_of_mem _ hmem, fun y hy => ?_⟩
    rcases List.mem_cons.mp hy with rfl | hy
    · exact ⟨c, by simp, h.1⟩
    · obtain ⟨z, hz, hw⟩ := hring y hy
      exact ⟨z, List.mem_cons_of_mem _ hz, hw⟩

/-- A path that comes back to one of its own closes a ring. -/
theorem Chain.ring {path : List Nat} (h : Chain fs path c) (hc : c ∈ path) :
    ∃ ring, c ∈ ring ∧ Ring fs ring := by
  obtain ⟨ring, hmem, hring⟩ := h.from hc
  refine ⟨ring, hmem, fun y hy => ?_⟩
  obtain ⟨z, hz, hw⟩ := hring y hy
  rcases List.mem_cons.mp hz with rfl | hz
  · exact ⟨z, hmem, hw⟩
  · exact ⟨z, hz, hw⟩

/-- Distinct inodes of the table are not more than the table has. -/
theorem nodup_length_le {path : List Nat} {n : Nat} (h : path.Nodup) (hlt : ∀ x ∈ path, x < n) :
    path.length ≤ n := by
  rw [← List.toFinset_card_of_nodup h, ← Finset.card_range n]
  exact Finset.card_le_card fun x hx =>
    Finset.mem_range.mpr (hlt x (List.mem_toFinset.mp hx))

theorem loopWithin_depth {n m : Nat} (hnm : n ≤ m) {entries : Store} {ks : List Nat}
    {r : Simplefs × Bool}
    (h : loopWithin (entryWithin (populateWithin n) d entries) ks fs = some r) :
    loopWithin (entryWithin (populateWithin m) d entries) ks fs = some r :=
  loopWithin_mono (entryWithin_mono fun _ _ _ => populateWithin_mono hnm) ks fs r h

theorem allocDirSlots_window (h : fs.allocDirSlots d = (fs', true)) :
    (fs'.nodes d).dirSlotBase ≠ none := by
  rcases allocDirSlots_true h with ⟨hb, rfl⟩ | ⟨-, rfl⟩
  · exact hb
  · unfold takeWindow
    rw [modify_nodes_self]
    simp

/-- What the visit of a directory comes to, `r`. -/
structure Visited (depth : Nat) (path : List Nat) (fs : Simplefs) (d : Nat)
    (r : Simplefs × Ending) :
    Prop where
  later : Later fs r.1
  kept : ∀ x ∈ path, (r.1.nodes x).populated = (fs.nodes x).populated
  whole : r.2 = .whole → (r.1.nodes d).populated = true
  agrees : Agrees (fun n => populateWithin n fs d) depth r

/-- One record, if the visits of the children come to what they should. -/
theorem visitEntry_agrees {depth : Nat} {path : List Nat} {entries : Store} {k : Nat}
    (ih : ∀ fs' c, fs'.sb.inodeCount = fs.sb.inodeCount → Chain fs' (d :: path) c →
      c ∉ d :: path → c < fs.sb.inodeCount →
      Visited depth (d :: path) fs' c (visit depth (d :: path) fs' c))
    (hk : k < (fs.nodes d).disk.childCount) (hchain : Chain fs path d)
    (hun : Underway fs d entries) (hpass : Passed fs entries k) {r : Simplefs × Ending}
    (hr : visitEntry (visit depth (d :: path)) (d :: path) d entries fs k = r) :
    Later fs r.1 ∧ (∀ x ∈ d :: path, (r.1.nodes x).populated = (fs.nodes x).populated) ∧
      (r.2 = .whole → Passed r.1 entries (k + 1)) ∧
      Agrees (fun n => entryWithin (populateWithin n) d entries fs k) depth r := by
  unfold visitEntry at hr
  unfold entryWithin
  by_cases hbad : BadRecord fs entries k
  · simp only [if_pos hbad] at hr ⊢
    subst hr
    exact ⟨Later.refl fs, fun _ _ => rfl, by simp, rfl⟩
  simp only [if_neg hbad] at hr ⊢
  have hq := enterChild_quiet fs d (entryInode entries k) (entryName entries k)
  have hwaits : Waits fs d (entryInode entries k) := ⟨entries, k, hun, hk, hpass, hbad, rfl⟩
  have hwaits := hwaits.later hq.later (hq.populated d)
  have hchain₁ := hchain.later hq.later fun x _ => hq.populated x
  have hsb₁ : (fs.enterChild d (entryInode entries k) (entryName entries k)).sb.inodeCount
      = fs.sb.inodeCount := congrArg (fun c => c.sb.inodeCount) hq.core
  -- the record is behind us once its child needs no call any more
  have hpassed : ∀ fs', Later fs fs' → ¬Unvisited fs' (entryInode entries k) →
      Passed fs' entries (k + 1) := by
    intro fs' hl hdone j hj
    rcases Nat.lt_succ_iff_lt_or_eq.mp hj with hlt | rfl
    · exact hpass.later hl j hlt
    · exact ⟨fun hb => hbad (hl.badRecord.mp hb), hdone⟩
  generalize fs.enterChild d (entryInode entries k) (entryName entries k) = fs₁ at *
  by_cases hun₁ : Unvisited fs₁ (entryInode entries k)
  · simp only [if_pos hun₁] at hr ⊢
    by_cases hin : entryInode entries k ∈ d :: path
    · rw [if_pos hin] at hr
      subst hr
      obtain ⟨ring, hmem, hring⟩ :=
        Chain.ring (show Chain fs₁ (d :: path) (entryInode entries k) from ⟨hwaits, hchain₁⟩) hin
      exact ⟨hq.later, fun x _ => hq.populated x, by simp,
        fun hserved n => hring.diverges n hmem hserved,
          fun hfault => hring.leaves _ rfl hmem hfault,
        _, ring, hmem, hring⟩
    rw [if_neg hin] at hr
    have hlt : entryInode entries k < fs.sb.inodeCount := by
      by_contra hge
      exact hbad (.inl (Nat.not_lt.mp hge))
    have hv := ih fs₁ _ hsb₁ ⟨hwaits, hchain₁⟩ hin hlt
    rw [hr] at hv
    refine ⟨hq.later.trans hv.later, fun x hx => (hv.kept x hx).trans (hq.populated x),
      fun hw => hpassed _ (hq.later.trans hv.later) fun hu => ?_, hv.agrees⟩
    have := hu.2
    rw [hv.whole hw] at this
    simp at this
  · simp only [if_neg hun₁] at hr ⊢
    subst hr
    exact ⟨hq.later, fun x _ => hq.populated x, fun _ => hpassed _ hq.later hun₁, rfl⟩

/-- The loop over the records from record `k` on. -/
theorem visitLoop_agrees {depth : Nat} {path : List Nat} {entries : Store} {inodes : Nat}
    (ih : ∀ fs c, fs.sb.inodeCount = inodes → Chain fs (d :: path) c → c ∉ d :: path →
      c < inodes → Visited depth (d :: path) fs c (visit depth (d :: path) fs c)) (m : Nat) :
    ∀ k (fs : Simplefs), fs.sb.inodeCount = inodes → k + m = (fs.nodes d).disk.childCount →
      Chain fs path d → Underway fs d entries → Passed fs entries k →
      ∀ r, visitLoop (visitEntry (visit depth (d :: path)) (d :: path) d entries)
          (List.range' k m) fs = r →
        Later fs r.1 ∧ (∀ x ∈ d :: path, (r.1.nodes x).populated = (fs.nodes x).populated) ∧
        Agrees (fun n => loopWithin (entryWithin (populateWithin n) d entries)
          (List.range' k m) fs) depth r := by
  induction m with
  | zero =>
    intro k fs _ _ _ _ _ r hr
    subst hr
    exact ⟨Later.refl fs, fun _ _ => rfl, rfl⟩
  | succ m ihm =>
    intro k fs hsb hk hchain hun hpass r hr
    rw [List.range'_succ, visitLoop] at hr
    simp only [List.range'_succ, loopWithin]
    obtain ⟨e, he⟩ : ∃ e, visitEntry (visit depth (d :: path)) (d :: path) d entries fs k = e :=
      ⟨_, rfl⟩
    obtain ⟨hl, hkept, hpassed, hagrees⟩ := visitEntry_agrees (by rw [hsb]; exact ih) (by omega)
      hchain hun hpass he
    rw [he] at hr
    obtain ⟨fs₁, v⟩ := e
    cases v with
    | refused =>
      subst hr
      have hentry : entryWithin (populateWithin depth) d entries fs k = some (fs₁, false) := hagrees
      exact ⟨hl, hkept, by simp only [Agrees, hentry]⟩
    | inside =>
      subst hr
      refine ⟨hl, hkept, fun hserved n => ?_, fun hfault => ?_, hagrees.2.2⟩
      · have hnone : entryWithin (populateWithin n) d entries fs k = none := hagrees.1 hserved n
        simp only [hnone]
      · obtain ⟨n, g, hg⟩ := hagrees.2.1 hfault
        have hsome : entryWithin (populateWithin n) d entries fs k = some (g, false) := hg
        exact ⟨n, g, by simp only [hsome]⟩
    | whole =>
      have hentry : entryWithin (populateWithin depth) d entries fs k = some (fs₁, true) := hagrees
      have hchain₁ := hchain.later hl fun x hx => hkept x (List.mem_cons_of_mem _ hx)
      have hsb₁ : fs₁.sb.inodeCount = inodes := by
        rw [← hsb]
        exact congrArg (fun c => c.sb.inodeCount) hl.core
      obtain ⟨hl₂, hkept₂, hagrees₂⟩ := ihm (k + 1) fs₁ hsb₁
        (by rw [disk_of_core hl.core]; omega) hchain₁
        (hun.later hl (hkept d (List.mem_cons_self ..))) (hpassed rfl) r hr
      refine ⟨hl.trans hl₂, fun x hx => (hkept₂ x hx).trans (hkept x hx), ?_⟩
      obtain ⟨fs₂, v⟩ := r
      cases v with
      | whole =>
        simp only [Agrees, hentry]
        exact hagrees₂
      | refused =>
        simp only [Agrees, hentry]
        exact hagrees₂
      | inside =>
        refine ⟨fun hserved n => ?_, fun hfault => ?_, hagrees₂.2.2⟩
        · -- with less depth the turn itself may not end
          cases hn : entryWithin (populateWithin n) d entries fs k with
          | none => simp only [hn]
          | some p =>
            have hsame : p = (fs₁, true) := by
              have h₁ :=
                entryWithin_mono (fun _ _ _ => populateWithin_mono (Nat.le_max_left n depth))
                fs k _ hn
              have h₂ := entryWithin_mono
                (fun _ _ _ => populateWithin_mono (Nat.le_max_right n depth)) fs k _ hentry
              exact Option.some.inj (h₁.symm.trans h₂)
            rw [hsame] at hn
            simp only [hn]
            exact hagrees₂.1 hserved n
        · obtain ⟨n, g, hg⟩ := hagrees₂.2.1 hfault
          refine ⟨max n depth, g, ?_⟩
          have hentry' := entryWithin_mono
            (fun _ _ _ => populateWithin_mono (Nat.le_max_right n depth)) fs k _ hentry
          simp only [hentry']
          exact loopWithin_depth (Nat.le_max_left n depth) hg

/-- A call that is not over at once gets its window and its records. -/
def Starts (fs : Simplefs) (d : Nat) : Opening → Prop
  | .done fs' ok => Later fs fs' ∧ (∀ x, (fs'.nodes x).populated = (fs.nodes x).populated) ∧
      (ok = true → (fs.nodes d).populated = true)
  | .reading fs' entries => Later fs fs' ∧
      (∀ x, (fs'.nodes x).populated = (fs.nodes x).populated) ∧ Underway fs' d entries

/-- What a call does before its records is quiet, and they are what the image has. -/
theorem opening_spec (fs : Simplefs) (d : Nat) : Starts fs d (fs.opening d) := by
  have hsame : Later fs fs ∧ ∀ x, (fs.nodes x).populated = (fs.nodes x).populated :=
    ⟨Later.refl fs, fun _ => rfl⟩
  unfold opening
  dsimp only
  split
  · exact ⟨hsame.1, hsame.2, by simp⟩
  next hkind =>
  split
  next hpop => exact ⟨hsame.1, hsame.2, fun _ => hpop⟩
  next hpop =>
  split
  · exact ⟨hsame.1, hsame.2, by simp⟩
  next hfits =>
  have hqa := allocDirSlots_quiet fs d
  rcases ha : fs.allocDirSlots d with ⟨fs₁, _ | _⟩
  · rw [ha] at hqa
    exact ⟨hqa.later, hqa.populated, by simp⟩
  dsimp only
  rw [ha] at hqa
  have hq := hqa.trans (clearWindow_quiet fs₁ d)
  have hr := readDirEntries_later (fs₁.clearWindow d) d (fs.nodes d).disk.childCount
  rcases hread : (fs₁.clearWindow d).readDirEntries d (fs.nodes d).disk.childCount
    with ⟨fs₂, _ | entries⟩
  all_goals
    rw [hread] at hr
    have hl : Later fs fs₂ := hq.later.trans hr.1
    have hp : ∀ x, (fs₂.nodes x).populated = (fs.nodes x).populated := fun x =>
      (hr.2 x).trans (hq.populated x)
  · exact ⟨hl, hp, by simp⟩
  have hdisk := disk_of_core hl.core d
  refine ⟨hl, hp, by rw [hdisk]; exact not_not.mp hkind,
    by rw [hp]; exact Bool.eq_false_iff.mpr hpop, by rw [hdisk]; exact Nat.not_lt.mp hfits,
    ((clearWindow_quiet fs₁ d).later.trans hr.1).windows d (allocDirSlots_window ha), fun hc => ?_⟩
  rw [hr.1.records]
  have hdisk₁ : ((fs₁.clearWindow d).nodes d).disk = (fs.nodes d).disk := disk_of_core hq.core d
  rw [hdisk, ← hdisk₁] at hc
  rw [← hdisk₁] at hread
  exact records_of_read hc hread

/-- **The visit of a directory says what the recursion does**, given as much depth as there
are inodes outside of the path. -/
theorem visit_visited (fuel : Nat) : ∀ (path : List Nat) (fs : Simplefs) (d : Nat),
    Chain fs path d → (d :: path).Nodup → (∀ x ∈ d :: path, x < fs.sb.inodeCount) →
    fs.sb.inodeCount ≤ fuel + path.length → Visited fuel path fs d (visit fuel path fs d) := by
  induction fuel with
  | zero =>
    -- the path would have to hold every inode, and `d` is one more
    intro path fs d _ hnodup hlt hfuel
    have := nodup_length_le hnodup hlt
    rw [List.length_cons] at this
    omega
  | succ fuel ih =>
    intro path fs d hchain hnodup hlt hfuel
    have hspec := opening_spec fs d
    have hcall := fun n => populateWithin_opening n fs d
    rw [visit_opening]
    generalize fs.opening d = o at hspec hcall ⊢
    cases o with
    | done fs₁ ok =>
      refine ⟨hspec.1, fun x _ => hspec.2.1 x, fun hw => ?_, ?_⟩
      · cases ok with
        | false => simp at hw
        | true => exact (hspec.2.1 d).trans (hspec.2.2 rfl)
      · cases ok <;> exact hcall fuel
    | reading fs₂ entries =>
      obtain ⟨hl, hp, hun⟩ := hspec
      have hsb : fs₂.sb = fs.sb := congrArg Core.sb hl.core
      have hdisk := disk_of_core hl.core d
      obtain ⟨⟨g, v⟩, hloop⟩ : ∃ r, visitLoop (visitEntry (visit fuel (d :: path)) (d :: path) d
          entries) (List.range' 0 (fs.nodes d).disk.childCount) fs₂ = r := ⟨_, rfl⟩
      obtain ⟨hlg, hkept, hagrees⟩ := visitLoop_agrees
        (fun fs' c (hsb' : fs'.sb.inodeCount = fs.sb.inodeCount) hchain' hc hlt' => ih
          (d :: path) fs' c hchain'
          (List.nodup_cons.mpr ⟨hc, hnodup⟩)
          (by
            rw [hsb']
            exact fun x hx => (List.mem_cons.mp hx).elim (fun h => h ▸ hlt') (hlt x))
          (by rw [hsb', List.length_cons]; omega))
        (fs.nodes d).disk.childCount 0 fs₂ (by rw [hsb]) (by rw [hdisk, Nat.zero_add])
        (hchain.later hl fun x _ => hp x) hun (fun j hj => absurd hj (Nat.not_lt_zero j)) (g, v)
        hloop
      dsimp only at hcall ⊢
      rw [hloop]
      have hlater := hl.trans hlg
      have hkept' : ∀ x ∈ path, (g.nodes x).populated = (fs.nodes x).populated := fun x hx =>
        (hkept x (List.mem_cons_of_mem _ hx)).trans (hp x)
      cases v with
      | refused =>
        exact ⟨hlater, hkept', by simp, (hcall fuel).trans (congrArg _ hagrees)⟩
      | inside =>
        refine ⟨hlater, hkept', by simp, fun hserved n => ?_, fun hfault => ?_,
          hagrees.2.2⟩
        · cases n with
          | zero => rfl
          | succ n => exact (hcall n).trans (congrArg _ (hagrees.1 hserved n))
        · obtain ⟨n, g', hg'⟩ := hagrees.2.1 hfault
          exact ⟨n + 1, g', (hcall n).trans (congrArg _ hg')⟩
      | whole =>
        have hdone : Later g (g.modify d fun n => { n with populated := true }) := by
          refine ⟨modify_core rfl, rfl, rfl, rfl, fun h => h, fun x hx => ?_, fun x hx => ?_⟩
          · by_cases hxd : x = d
            · rw [hxd, modify_nodes_self]
            · rw [modify_nodes_ne _ _ hxd]
              exact hx
          · rw [show ((g.modify d fun n => { n with populated := true }).nodes x).dirSlotBase
              = (g.nodes x).dirSlotBase from congrFun (modify_keeps (fun n => n.dirSlotBase) rfl) x]
            exact hx
        refine ⟨hlater.trans hdone, fun x hx => ?_, fun _ => ?_,
          (hcall fuel).trans (congrArg _ hagrees)⟩
        · have hxd : x ≠ d := fun h => (List.nodup_cons.mp hnodup).1 (h ▸ hx)
          rw [modify_nodes_ne _ _ hxd]
          exact hkept' x hx
        · rw [modify_nodes_self]

/-! ## Mounting -/

/-- Mounting is the checks, and then the walk from the root. -/
theorem mount_eq (dev : Device) (amb : Ambient) :
    mount dev amb = (mountReady dev amb).bind fun fs =>
      match fs.populate fs.sb.rootInode with
      | (_, false) => none
      | (fs, true) => some fs := by
  unfold mount mountReady
  generalize dev.read 0 1 = r
  obtain ⟨dev, _ | block⟩ := r
  · rfl
  dsimp only
  split
  · rfl
  generalize dev.read _ _ = r
  obtain ⟨dev, _ | table⟩ := r
  · rfl
  dsimp only
  generalize dev.read _ _ = r
  obtain ⟨dev, _ | inodeBits⟩ := r
  · rfl
  dsimp only
  generalize dev.read _ _ = r
  obtain ⟨dev, _ | blockBits⟩ := r
  · rfl
  dsimp only
  split <;> rfl

/-- What has been checked and read when the tree is about to be populated. -/
structure Ready (dev : Device) (fs : Simplefs) : Prop where
  bounds : AcceptedBounds fs.sb fs.dev.blockCount
  areas : Areas fs
  faults : dev.faults = [] → fs.dev.faults = []

/-- The checks leave a superblock whose areas lie on the device. -/
theorem mountReady_some {dev : Device} {amb : Ambient} (h : mountReady dev amb = some fs) :
    Ready dev fs := by
  -- a read that delivers something was inside the device and leaves it as it is
  have hread : ∀ {dev dev' : Device} {start count : Nat} {out : Store},
      dev.read start count = (dev', some out) → dev'.InRange start count ∧
        dev'.blockCount = dev.blockCount ∧ (dev.faults = [] → dev'.faults = []) := by
    intro dev dev' start count out hr
    have hsame := (Device.read_bytes dev start count).2.1
    have hin := (Device.read_some hr).1
    rw [hr] at hsame
    refine ⟨?_, hsame, fun hf => ?_⟩
    · unfold Device.InRange
      rw [hsame]
      exact hin
    · unfold Device.read at hr
      rw [if_pos hin, hf] at hr
      rw [← (Prod.mk.inj hr).1]
      exact hf
  have hkeep : ∀ {dev dev' : Device} {start count : Nat}, dev'.blockCount = dev.blockCount →
      dev.InRange start count → dev'.InRange start count := by
    intro dev dev' start count hb hr
    unfold Device.InRange
    rw [hb]
    exact hr
  unfold mountReady at h
  split at h
  · simp at h
  next h₁ =>
  obtain ⟨hin₁, hb₁, hf₁⟩ := hread h₁
  dsimp only at h
  split at h
  · simp at h
  next hacc =>
  split at h
  · simp at h
  next h₂ =>
  obtain ⟨hin₂, hb₂, hf₂⟩ := hread h₂
  split at h
  · simp at h
  next h₃ =>
  obtain ⟨hin₃, hb₃, hf₃⟩ := hread h₃
  split at h
  · simp at h
  next h₄ =>
  obtain ⟨hin₄, hb₄, hf₄⟩ := hread h₄
  split at h
  next =>
    rw [← Option.some.inj h]
    refine ⟨accepted_bounds ?_, ⟨?_, ?_, hkeep hb₄ hin₃, hin₄⟩, fun hf =>
      hf₄ (hf₃ (hf₂ (hf₁ hf)))⟩
    · have hacc := Bool.not_eq_false _ |>.mp hacc
      rw [← hb₂, ← hb₃, ← hb₄] at hacc
      exact hacc
    · exact hkeep (hb₄.trans (hb₃.trans hb₂)) hin₁
    · exact hkeep (hb₄.trans hb₃) hin₂
  · simp at h

/-- The visit of the root. -/
def visitRoot (fs : Simplefs) : Simplefs × Ending := visit fs.sb.inodeCount [] fs fs.sb.rootInode

/-- Mounting comes to a directory that it is still inside of, and the device refuses
no read after that. -/
def MountLoops (dev : Device) (amb : Ambient) : Prop :=
  ∃ fs, mountReady dev amb = some fs ∧ fs.visitRoot.2 = .inside ∧ true ∉ fs.visitRoot.1.dev.faults

/-- The directories on the device can be ranked: each names only lower ones. -/
def Acyclic (fs : Simplefs) : Prop :=
  ∃ rank : Nat → Nat, ∀ x entries k, (fs.nodes x).disk.kind = kindDir →
    fs.records x = some entries →
    k < (fs.nodes x).disk.childCount →
    (fs.nodes (entryInode entries k)).disk.kind = kindDir → rank (entryInode entries k) < rank x

/-- Reading directories makes no cycle. -/
theorem Acyclic.later (h : Acyclic fs) (hl : Later fs fs') : Acyclic fs' := by
  obtain ⟨rank, hrank⟩ := h
  refine ⟨rank, fun x entries k hx hr hk hc => ?_⟩
  rw [disk_of_core hl.core] at hx hk hc
  rw [hl.records] at hr
  exact hrank x entries k hx hr hk hc

theorem Acyclic.not_ring (h : Acyclic fs) {ring : List Nat} (hring : Ring fs ring) : x ∉ ring := by
  obtain ⟨rank, hrank⟩ := h
  -- below every member of a ring there is another one
  induction hn : rank x using Nat.strong_induction_on generalizing x with
  | _ n ih =>
    subst hn
    intro hx
    obtain ⟨c, hc, entries, k, hun, hk, -, -, rfl⟩ := hring x hx
    obtain ⟨c', -, _, _, hun', -⟩ := hring _ hc
    exact ih _ (hrank x entries k hun.kind (hun.records (by omega)) hk hun'.kind) rfl hc

/-- What the visit of the root says about the recursion that mounting starts. -/
theorem visitRoot_visited {dev : Device} {amb : Ambient} (h : mountReady dev amb = some fs)
    {fuel : Nat} (hfuel : fs.sb.inodeCount ≤ fuel) :
    Visited fuel [] fs fs.sb.rootInode (visit fuel [] fs fs.sb.rootInode) :=
  visit_visited fuel [] fs fs.sb.rootInode trivial (by simp)
    (fun x hx => by rw [List.mem_singleton.mp hx]; exact (mountReady_some h).bounds.root_lt)
      (by simpa using hfuel)

/-- Where the walk stops, the recursion reaches every bound or meets a refusal. -/
theorem visitRoot_inside {dev : Device} {amb : Ambient} (h : mountReady dev amb = some fs)
    (hin : fs.visitRoot.2 = .inside) :
    (true ∉ fs.visitRoot.1.dev.faults → ∀ n, populateWithin n fs fs.sb.rootInode = none) ∧
      (true ∈ fs.visitRoot.1.dev.faults →
        ∃ n g, populateWithin n fs fs.sb.rootInode = some (g, false)) ∧
      ∃ x ring, x ∈ ring ∧ Ring fs.visitRoot.1 ring := by
  have hagrees := (visitRoot_visited h (Nat.le_refl _)).agrees
  unfold visitRoot at hin ⊢
  unfold Agrees at hagrees
  rw [hin] at hagrees
  exact hagrees

/-- Mounting ends if populating the root does. -/
theorem mountWithin_isSome {dev : Device} {amb : Ambient} (h : mountReady dev amb = some fs)
    (depth : Nat) : (mountWithin depth dev amb).isSome
      = (populateWithin depth fs fs.sb.rootInode).isSome := by
  unfold mountWithin
  rw [h]
  dsimp only
  generalize populateWithin depth fs fs.sb.rootInode = p
  obtain _ | ⟨g, _ | _⟩ := p <;> rfl

/-- **Mounting ends exactly when it does not come back to a directory it is inside of**
(or the device refuses a read then). On a device that refuses no read the calls then nest
no deeper than there are inodes, and so they do if the directories form no cycle. -/
theorem mount_returns_iff (dev : Device) (amb : Ambient) :
    ((∃ depth, (mountWithin depth dev amb).isSome) ↔ ¬MountLoops dev amb) ∧
      ∀ fs, mountReady dev amb = some fs →
        (dev.faults = [] → ¬MountLoops dev amb →
          (mountWithin fs.sb.inodeCount dev amb).isSome) ∧
        (Acyclic fs → (mountWithin fs.sb.inodeCount dev amb).isSome) := by
  cases hready : mountReady dev amb with
  | none =>
    have hsome : (mountWithin 0 dev amb).isSome := by
      unfold mountWithin
      rw [hready]
      rfl
    refine ⟨⟨fun _ ⟨fs, h, _⟩ => ?_, fun _ => ⟨0, hsome⟩⟩, fun fs h => absurd h (by simp)⟩
    rw [hready] at h
    simp at h
  | some fs =>
    have hv := visitRoot_visited hready (Nat.le_refl _)
    have hloops : MountLoops dev amb ↔
        fs.visitRoot.2 = .inside ∧ true ∉ fs.visitRoot.1.dev.faults := by
      refine ⟨fun ⟨fs', h, hl⟩ => ?_, fun hl => ⟨fs, hready, hl⟩⟩
      rw [← Option.some.inj (hready.symm.trans h)] at hl
      exact hl
    have hends : fs.visitRoot.2 ≠ .inside →
        (mountWithin fs.sb.inodeCount dev amb).isSome = true := by
      intro hne
      rw [mountWithin_isSome hready]
      have hagrees := hv.agrees
      unfold visitRoot at hne
      generalize visit fs.sb.inodeCount [] fs fs.sb.rootInode = q at hagrees hne
      obtain ⟨g, v⟩ := q
      cases v with
      | whole => rw [show populateWithin _ _ _ = some (g, true) from hagrees]; rfl
      | refused => rw [show populateWithin _ _ _ = some (g, false) from hagrees]; rfl
      | inside => exact absurd rfl hne
    refine ⟨?_, fun fs' h => ?_⟩
    · rw [hloops, not_and_or, not_not]
      constructor
      · rintro ⟨depth, hd⟩
        by_contra hno
        rw [not_or, not_not] at hno
        rw [mountWithin_isSome hready, (visitRoot_inside hready hno.1).1 hno.2] at hd
        simp at hd
      · rintro (hne | hfault)
        · exact ⟨_, hends hne⟩
        · by_cases hin : fs.visitRoot.2 = .inside
          · obtain ⟨n, g, hg⟩ := (visitRoot_inside hready hin).2.1 hfault
            exact ⟨n, by rw [mountWithin_isSome hready, hg]; rfl⟩
          · exact ⟨_, hends hin⟩
    · obtain rfl := Option.some.inj h
      refine ⟨fun hf hno => hends fun hin => hno (hloops.mpr ⟨hin, ?_⟩),
        fun hac => hends fun hin => ?_⟩
      · rw [show fs.visitRoot.1.dev.faults = [] from
          hv.later.works ((mountReady_some hready).faults hf)]
        simp
      · obtain ⟨x, ring, hx, hring⟩ := (visitRoot_inside hready hin).2.2
        exact (hac.later hv.later).not_ring hring hx

/-- The root holds one record, and it names the root. -/
def loopDevice : Device :=
  { sampleDevice with bytes := fun a => if a = 2048 then 0 else sampleBytes a }

/-- Mounting it has no end: at no depth of the calls is there a result. -/
theorem mount_of_own_child_diverges :
    ¬∃ depth, (mountWithin depth loopDevice sampleAmbient).isSome = true := by
  have hsome : (mountReady loopDevice sampleAmbient).isSome := by decide +kernel
  obtain ⟨fs, hready⟩ := Option.isSome_iff_exists.mp hsome
  have hinside : (mountReady loopDevice sampleAmbient).map (fun fs => fs.visitRoot.2)
      = some .inside := by decide +kernel
  rw [hready] at hinside
  have hin : fs.visitRoot.2 = .inside := Option.some.inj hinside
  have hserved : fs.visitRoot.1.dev.faults = [] :=
    (visitRoot_visited hready (Nat.le_refl _)).later.works ((mountReady_some hready).faults rfl)
  rintro ⟨depth, hdepth⟩
  rw [mountWithin_isSome hready, (visitRoot_inside hready hin).1 (by rw [hserved]; simp)
    depth] at hdepth
  simp at hdepth

end Simplefs

end Riverix.Fs
