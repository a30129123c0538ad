import Riverix.Fs.Requests

/-!
# Short transfers and the file offset

`simplefs_regular_read` and `simplefs_regular_write` move a range of a file block
by block. Both leave the loop at the first block that the device refuses, report
the bytes moved so far and return before the one statement that advances
`file->offset`. A caller who continues from the offset then gets, or writes, the
same bytes again.

A range is cut into *pieces* at the block boundaries: `before offset k` bytes of it
come before piece `k`. Which pieces the device serves can be read off its coming
answers, and a transfer is the number of bytes before the first piece refused
(`Went`). From there the returned count and the offset are arithmetic. A write that grows
the file has used up answers by then, and how many is known from the state before it
(`Riverix.Fs.Requests`), so the condition on a write is one on the state before the call too.

Block numbers are natural numbers here. **`transfer_follows_iff`** is stated for files whose
extents lie inside the block bitmap (`Bounded`), where the sums of the code do not wrap.
-/

namespace Riverix.Fs

open Riverix.Lib

/-! ## One block -/

namespace Device

variable {d : Device} {b : Nat}

theorem read_one (hb : b < d.blockCount) :
    d.read b 1 = (d.answered, if d.fault 0 then none else some (d.blocks b)) :=
  read_inRange (Simplefs.inRange_one hb)

theorem write_one {buffer : Store} (hw : d.readOnly = false) (hb : b < d.blockCount) :
    d.write b 1 buffer
      = if d.fault 0 then (d.answered, false) else ((d.put b 1 buffer).answered, true) := by
  exact write_inRange hw (Simplefs.inRange_one hb)

theorem read_outside (hb : ¬ b < d.blockCount) : d.read b 1 = (d, none) := by
  rw [read, if_neg fun h => hb h.2.1]

theorem write_outside {buffer : Store} (h : ¬ (d.readOnly = false ∧ b < d.blockCount)) :
    d.write b 1 buffer = (d, false) := by
  rw [write, if_neg fun h' => h ⟨h'.1, h'.2.2.1⟩]

end Device

/-! ## Pieces of a range -/

/-- The bytes of a range from `offset` on that come before its piece `k`. -/
def before (offset k : Nat) : Nat := 512 * k - offset % 512

theorem before_zero (offset : Nat) : before offset 0 = 0 := by
  unfold before
  omega

theorem before_mono {offset j k : Nat} (h : j ≤ k) : before offset j ≤ before offset k := by
  unfold before
  omega

theorem before_eq_zero {offset k : Nat} : before offset k = 0 ↔ k = 0 := by
  unfold before
  omega

/-- A range goes on with its next piece only at a block boundary. -/
theorem before_succ {offset length chunk : Nat} (hc : chunk = min length (512 - offset % 512))
    (hn : 0 < length - chunk) (k : Nat) :
    before offset (k + 1) = chunk + before (offset + chunk) k := by
  unfold before
  omega

/-- What became of a transfer of `length` bytes: `n` of them, the whole range if `ok`,
and otherwise those before the first piece that was refused. -/
def Went (served : Nat → Prop) (offset length n : Nat) (ok : Bool) : Prop :=
  if ok then n = length ∧ ∀ k, before offset k < length → served k
  else ∃ k, before offset k < length ∧ (∀ j < k, served j) ∧ ¬ served k ∧ n = before offset k

section Went

variable {served served' : Nat → Prop} {offset length chunk n : Nat} {ok : Bool}

theorem Went.empty (served : Nat → Prop) (offset : Nat) : Went served offset 0 0 true :=
  ⟨rfl, fun _ h => absurd h (Nat.not_lt_zero _)⟩

theorem Went.le (h : Went served offset length n ok) : n ≤ length := by
  unfold Went at h
  split at h
  · omega
  next =>
    obtain ⟨k, hk, -, -, rfl⟩ := h
    omega

/-- The first piece is refused. -/
theorem Went.refused (hl : length ≠ 0) (h : ¬ served 0) : Went served offset length 0 false :=
  ⟨0, by rw [before_zero]; omega, fun _ hj => absurd hj (Nat.not_lt_zero _), h,
    (before_zero offset).symm⟩

/-- The first piece is served, and the rest goes its way. -/
theorem Went.next (hc : chunk = min length (512 - offset % 512)) (hl : length ≠ 0) (h : served 0)
    (hs : ∀ k, before (offset + chunk) k < length - chunk → (served' k ↔ served (k + 1)))
    (hw : Went served' (offset + chunk) (length - chunk) n ok) :
    Went served offset length (chunk + n) ok := by
  have hshift : ∀ k, before offset (k + 1) < length →
      before (offset + chunk) k < length - chunk := by
    intro k hk
    rcases Nat.eq_zero_or_pos (length - chunk) with h0 | hpos
    · have := @before_mono offset 1 (k + 1) (by omega)
      unfold before at *
      omega
    · rw [before_succ hc hpos] at hk
      omega
  unfold Went at hw ⊢
  split at hw
  next hok =>
    rw [if_pos hok]
    refine ⟨by omega, fun k hk => ?_⟩
    cases k with
    | zero => exact h
    | succ k => exact (hs k (hshift k hk)).mp (hw.2 k (hshift k hk))
  next hok =>
  rw [if_neg hok]
  obtain ⟨k, hk, hbelow, hstop, hn⟩ := hw
  have hnext : before offset (k + 1) = chunk + before (offset + chunk) k :=
    before_succ hc (by omega) k
  refine ⟨k + 1, by omega, fun j hj => ?_, fun hk' => hstop ((hs k hk).mpr hk'), by omega⟩
  cases j with
  | zero => exact h
  | succ j =>
    have hjk : before (offset + chunk) j ≤ before (offset + chunk) k := before_mono (by omega)
    exact (hs j (by omega)).mp (hbelow j (by omega))

end Went

/-! ## The returned count -/

/-- `(int32_t)n` -/
def toInt32 (n : Nat) : Int := (BitVec.ofNat 32 n).toInt

theorem toInt32_of_lt {n : Nat} (h : n < 2 ^ 31) : toInt32 n = n := by
  unfold toInt32
  rw [BitVec.toInt_eq_toNat_cond, BitVec.toNat_ofNat, Nat.mod_eq_of_lt (by omega),
    if_pos (by omega)]

theorem toInt32_neg {n : Nat} (h : 2 ^ 31 ≤ n) (h' : n < 2 ^ 32) : toInt32 n < 0 := by
  unfold toInt32
  rw [BitVec.toInt_eq_toNat_cond, BitVec.toNat_ofNat, Nat.mod_eq_of_lt h', if_neg (by omega)]
  omega

/-- What a transfer reports: the bytes moved and the new offset, or -1. -/
def reported : Option (Nat × Nat) → Int
  | some (n, _) => toInt32 n
  | none => -1

/-- The offset after a transfer. -/
def offsetAfter (offset : Nat) : Option (Nat × Nat) → Nat
  | some (_, offset') => offset'
  | none => offset

/-- The offset moves by the count reported, and stays where it is after a failure. -/
structure Follows (offset : Nat) (result : Option (Nat × Nat)) : Prop where
  advanced : 0 ≤ reported result → (offsetAfter offset result : Int) = offset + reported result
  kept : reported result < 0 → offsetAfter offset result = offset

/-- The results of the two functions: the offset moves only after a whole transfer. -/
def result (offset n : Nat) (ok : Bool) : Option (Nat × Nat) :=
  if ok then some (n, offset + n) else if n ≠ 0 then some (n, offset) else none

theorem reported_result {offset n : Nat} {ok : Bool} (hn : n < 2 ^ 32)
    (h : 0 ≤ reported (result offset n ok)) : (reported (result offset n ok)).toNat = n := by
  have hcast : 0 ≤ toInt32 n → (toInt32 n).toNat = n := by
    intro h
    rcases Nat.lt_or_ge n (2 ^ 31) with hlt | hge
    · rw [toInt32_of_lt hlt, Int.toNat_natCast]
    · have := toInt32_neg hge hn
      omega
  unfold result at h ⊢
  split at h
  next hok =>
    rw [if_pos hok]
    exact hcast h
  next hok =>
  rw [if_neg hok]
  split at h
  next hn0 =>
    rw [if_pos hn0]
    exact hcast h
  · exact absurd h (by decide)

/-- The device serves the whole range and its length is an `int32_t`, or the first
piece is the one it refuses. (The last case is one of the cast: a count from 2³¹ on is
reported as a failure.) -/
def AllOrNothing (served : Nat → Prop) (offset length : Nat) : Prop :=
  (length < 2 ^ 31 ∧ ∀ k, before offset k < length → served k) ∨
    ∃ k, before offset k < length ∧ (∀ j < k, served j) ∧ ¬ served k ∧
      (k = 0 ∨ 2 ^ 31 ≤ before offset k)

theorem Went.follows_iff {served : Nat → Prop} {offset length n : Nat} {ok : Bool}
    (h : Went served offset length n ok) (hl : length < 2 ^ 32) :
    Follows offset (result offset n ok) ↔ AllOrNothing served offset length := by
  unfold Went at h
  split at h
  next hok =>
    obtain ⟨rfl, hall⟩ := h
    rw [result, if_pos hok]
    rcases Nat.lt_or_ge n (2 ^ 31) with hn | hn
    · refine ⟨fun _ => .inl ⟨hn, hall⟩, fun _ => ⟨fun _ => ?_, fun hneg => ?_⟩⟩
      · show ((offset + n : Nat) : Int) = offset + toInt32 n
        rw [toInt32_of_lt hn]
        omega
      · have : toInt32 n < 0 := hneg
        rw [toInt32_of_lt hn] at this
        omega
    have hneg := toInt32_neg hn hl
    refine ⟨fun hf => ?_, fun ha => ?_⟩
    · have : offset + n = offset := hf.kept hneg
      omega
    · rcases ha with ⟨hn', -⟩ | ⟨k, hk, -, hstop, -⟩
      · omega
      · exact absurd (hall k hk) hstop
  next hok =>
  obtain ⟨k, hk, hbelow, hstop, rfl⟩ := h
  rw [result, if_neg hok]
  -- the refused piece is the first one that is not served
  have hfirst : AllOrNothing served offset length ↔ k = 0 ∨ 2 ^ 31 ≤ before offset k := by
    refine ⟨fun ha => ?_, fun hk' => .inr ⟨k, hk, hbelow, hstop, hk'⟩⟩
    rcases ha with ⟨-, hall⟩ | ⟨k', -, hbelow', hstop', hk'⟩
    · exact absurd (hall k hk) hstop
    have : k' = k := by
      rcases Nat.lt_trichotomy k' k with hlt | heq | hgt
      · exact absurd (hbelow k' hlt) hstop'
      · exact heq
      · exact absurd (hbelow' k hgt) hstop
    rw [this] at hk'
    exact hk'
  rw [hfirst]
  by_cases h0 : k = 0
  · rw [if_neg (not_not.mpr (before_eq_zero.mpr h0))]
    refine ⟨fun _ => .inl h0, fun _ => ⟨fun hpos => ?_, fun _ => rfl⟩⟩
    exact absurd hpos (by decide)
  have hpos : before offset k ≠ 0 := fun h => h0 (before_eq_zero.mp h)
  rw [if_pos hpos]
  rcases Nat.lt_or_ge (before offset k) (2 ^ 31) with hn | hn
  · refine ⟨fun hf => ?_, fun h => ?_⟩
    · have hadv : (offset : Int) = offset + toInt32 (before offset k) := by
        refine hf.advanced ?_
        show 0 ≤ toInt32 _
        rw [toInt32_of_lt hn]
        omega
      rw [toInt32_of_lt hn] at hadv
      omega
    · omega
  · have hneg := toInt32_neg hn (by omega)
    refine ⟨fun _ => .inr hn, fun _ => ⟨fun h => ?_, fun _ => rfl⟩⟩
    have : 0 ≤ toInt32 (before offset k) := h
    omega

/-! ## Reading -/

namespace Simplefs

variable {fs : Simplefs}

/-- Piece `k` of a range of a file is read: it lies in the extent and on the device,
and the device does not refuse the request. -/
def ReadServed (fs : Simplefs) (i offset k : Nat) : Prop :=
  let n := (fs.nodes i).disk
  offset / 512 + k < n.blockCount ∧ n.dataBlock + (offset / 512 + k) < fs.dev.blockCount ∧
    fs.dev.fault k = false

instance (fs : Simplefs) (i offset k : Nat) : Decidable (fs.ReadServed i offset k) :=
  inferInstanceAs (Decidable (_ ∧ _ ∧ _))

theorem readLoop_went (fs : Simplefs) (i offset length : Nat) (done : List Byte) :
    ∃ fs' n ok, fs.readLoop i offset length done
        = (fs', done ++ fs.dev.bytes.read (512 * (fs.nodes i).disk.dataBlock + offset) n, ok) ∧
      Went (fs.ReadServed i offset) offset length n ok := by
  induction length using Nat.strongRecOn generalizing fs offset done with
  | _ length ih =>
    rw [readLoop]
    by_cases hl : length = 0
    · rw [if_pos hl, hl]
      exact ⟨fs, 0, true, by rw [Store.read_zero, List.append_nil], Went.empty _ _⟩
    rw [if_neg hl]
    obtain ⟨chunk, hc⟩ : ∃ chunk, chunk = min length (512 - offset % 512) := ⟨_, rfl⟩
    rw [← hc]
    have hstop : ∀ fs' : Simplefs, ¬ fs.ReadServed i offset 0 → ∃ fs'' n ok, (fs', done, false)
        = (fs'', done ++ fs.dev.bytes.read (512 * (fs.nodes i).disk.dataBlock + offset) n, ok) ∧
          Went (fs.ReadServed i offset) offset length n ok := fun fs' h =>
      ⟨fs', 0, false, by rw [Store.read_zero, List.append_nil], Went.refused hl h⟩
    by_cases hextent : offset / 512 ≥ (fs.nodes i).disk.blockCount
    · rw [if_pos hextent]
      refine hstop fs fun h => ?_
      have := h.1
      omega
    rw [if_neg hextent]
    by_cases hb : (fs.nodes i).disk.dataBlock + offset / 512 < fs.dev.blockCount
    · simp only [readBlocks, Device.read_one hb]
      by_cases hf : fs.dev.fault 0 = true
      · rw [if_pos hf]
        refine hstop _ fun h => ?_
        rw [h.2.2] at hf
        exact absurd hf (by decide)
      rw [if_neg hf]
      have hserved : fs.ReadServed i offset 0 := ⟨by omega, hb, by simpa using hf⟩
      obtain ⟨fs', n, ok, heq, hw⟩ := ih (length - chunk) (by omega)
        { fs with dev := fs.dev.answered } (offset + chunk)
        (done ++ (fs.dev.blocks ((fs.nodes i).disk.dataBlock + offset / 512)).read
          (offset % 512) chunk)
      refine ⟨fs', chunk + n, ok, ?_, Went.next hc hl hserved (fun k hk => ?_) hw⟩
      · have hchunk : (fs.dev.blocks ((fs.nodes i).disk.dataBlock + offset / 512)).read
            (offset % 512) chunk
              = fs.dev.bytes.read (512 * (fs.nodes i).disk.dataBlock + offset) chunk := by
          refine Store.read_congr_iff.mpr fun k _ => ?_
          show fs.dev.bytes _ = fs.dev.bytes _
          congr 1
          omega
        rw [hchunk] at heq
        refine Eq.trans ?_ (heq.trans ?_)
        · rw [← hchunk]
        · rw [List.append_assoc, Store.read_add, Nat.add_assoc]
          rfl
      · -- the next piece lies in the next block and takes the next answer
        unfold ReadServed
        rw [show offset / 512 + (k + 1) = (offset + chunk) / 512 + k by omega,
          ← Device.answered_fault]
        rfl
    · simp only [readBlocks, Device.read_outside hb]
      exact hstop _ fun h => hb h.2.1

/-- What `simplefs_regular_read` returns: the number of bytes and the new offset. -/
def readResult (fs : Simplefs) (i offset length : Nat) : Option (Nat × Nat) :=
  (fs.regularRead i offset length).2.map fun r => (r.1.length, r.2)

/-- The bytes that `simplefs_regular_read` leaves at the start of the buffer. -/
def delivered (fs : Simplefs) (i offset length : Nat) : List Byte :=
  ((fs.regularRead i offset length).2.map (·.1)).getD []

/-- The offset follows what a read returns, and what it returns is that many bytes
of the file from the old offset on. -/
structure ReadFollows (fs : Simplefs) (i offset length : Nat) : Prop where
  follows : Follows offset (fs.readResult i offset length)
  transferred : 0 ≤ reported (fs.readResult i offset length) →
    fs.delivered i offset length
      = fs.dev.bytes.read (512 * (fs.nodes i).disk.dataBlock + offset)
          (reported (fs.readResult i offset length)).toNat

/-- The number of bytes that a read asks the device for. -/
def readLength (fs : Simplefs) (i offset length : Nat) : Nat :=
  min length ((fs.nodes i).disk.size - offset)

theorem regularRead_went (fs : Simplefs) (i offset length : Nat) :
    ∃ n ok, Went (fs.ReadServed i offset) offset (fs.readLength i offset length) n ok ∧
      fs.readResult i offset length = result offset n ok ∧
      fs.delivered i offset length
        = fs.dev.bytes.read (512 * (fs.nodes i).disk.dataBlock + offset) n := by
  unfold readResult delivered regularRead readLength
  by_cases hsize : offset ≥ (fs.nodes i).disk.size
  · simp only [if_pos hsize, show (fs.nodes i).disk.size - offset = 0 by omega, Nat.min_zero]
    exact ⟨0, true, Went.empty _ _, rfl, rfl⟩
  simp only [if_neg hsize]
  obtain ⟨fs', n, ok, heq, hw⟩ :=
    fs.readLoop_went i offset (min length ((fs.nodes i).disk.size - offset)) []
  rw [heq, List.nil_append]
  refine ⟨n, ok, hw, ?_⟩
  cases ok with
  | true => exact ⟨by simp [result], rfl⟩
  | false =>
    by_cases hn : n = 0
    · subst hn
      exact ⟨rfl, rfl⟩
    · simp [result, hn]

theorem readFollows_iff (fs : Simplefs) (i offset : Nat) {length : Nat} (hl : length < 2 ^ 32) :
    fs.ReadFollows i offset length
      ↔ AllOrNothing (fs.ReadServed i offset) offset (fs.readLength i offset length) := by
  obtain ⟨n, ok, hw, hresult, hbytes⟩ := fs.regularRead_went i offset length
  have hlt : fs.readLength i offset length < 2 ^ 32 := by
    unfold readLength
    omega
  rw [← hw.follows_iff hlt, ← hresult]
  refine ⟨fun h => h.follows, fun h => ⟨h, fun hpos => ?_⟩⟩
  have hle := hw.le
  rw [hbytes]
  rw [hresult] at hpos ⊢
  rw [reported_result (by omega) hpos]

/-! ## Writing -/

/-- Piece `k` of a range is a whole block, written without reading it first. -/
def WholeBlock (offset length k : Nat) : Prop :=
  (k ≠ 0 ∨ offset % 512 = 0) ∧ before offset k + 512 ≤ length

instance (offset length k : Nat) : Decidable (WholeBlock offset length k) :=
  inferInstanceAs (Decidable (_ ∧ _))

/-- The first request for piece `k`: only the first piece can have taken two before it. -/
def writeRequest (offset length k : Nat) : Nat :=
  if k = 0 ∨ WholeBlock offset length 0 then k else k + 1

/-- Piece `k` of a range of a file is written, if the extent of the file starts at `block`
and `skip` answers have been given by then: its block is on the device, and neither the
write nor the read that a part of a block needs is refused. -/
def WriteServed (fs : Simplefs) (block skip offset length k : Nat) : Prop :=
  fs.dev.readOnly = false ∧ block + (offset / 512 + k) < fs.dev.blockCount ∧
    fs.dev.fault (writeRequest offset length k + skip) = false ∧
    (¬ WholeBlock offset length k → fs.dev.fault (writeRequest offset length k + 1 + skip) = false)

instance (fs : Simplefs) (block skip offset length k : Nat) :
    Decidable (fs.WriteServed block skip offset length k) :=
  inferInstanceAs (Decidable (_ ∧ _ ∧ _ ∧ (_ → _)))

/-- The answers that have been given do not count again. -/
theorem writeServed_spent {fs' : Simplefs} {block n offset length k : Nat}
    (h : fs.dev.Spent fs'.dev n) :
    fs'.WriteServed block 0 offset length k ↔ fs.WriteServed block n offset length k := by
  unfold WriteServed
  rw [h.readOnly, h.blockCount, h.fault, h.fault]
  rfl

theorem wholeBlock_zero {offset length chunk : Nat} (hc : chunk = min length (512 - offset % 512)) :
    WholeBlock offset length 0 ↔ offset % 512 = 0 ∧ chunk = 512 := by
  unfold WholeBlock
  rw [before_zero]
  omega

/-- The pieces of the rest of a range are the later pieces of the range. -/
theorem wholeBlock_succ {offset length chunk k : Nat}
    (hc : chunk = min length (512 - offset % 512)) (hn : 0 < length - chunk) :
    WholeBlock (offset + chunk) (length - chunk) k ↔ WholeBlock offset length (k + 1) := by
  unfold WholeBlock
  rw [before_succ hc hn]
  omega

theorem writeRequest_succ {offset length chunk k : Nat}
    (hc : chunk = min length (512 - offset % 512))
    (hk : before (offset + chunk) k < length - chunk) :
    writeRequest offset length (k + 1) = writeRequest (offset + chunk) (length - chunk) k
      + if WholeBlock offset length 0 then 1 else 2 := by
  have hrest : writeRequest (offset + chunk) (length - chunk) k = k := by
    unfold writeRequest
    split
    · rfl
    next h =>
    unfold WholeBlock at h
    rw [before_zero] at h
    unfold before at hk
    omega
  rw [hrest]
  unfold writeRequest
  by_cases h0 : WholeBlock offset length 0
  · rw [if_pos (.inr h0), if_pos h0]
  · rw [if_neg fun h => h.elim (Nat.succ_ne_zero k) h0, if_neg h0]

/-- The device after the first piece, as the rest of the loop sees it. -/
theorem writeServed_succ {fs' : Simplefs} {block offset length chunk k : Nat}
    (hc : chunk = min length (512 - offset % 512))
    (hk : before (offset + chunk) k < length - chunk)
    (hs : fs.dev.Spent fs'.dev (if WholeBlock offset length 0 then 1 else 2)) :
    fs'.WriteServed block 0 (offset + chunk) (length - chunk) k
      ↔ fs.WriteServed block 0 offset length (k + 1) := by
  rw [writeServed_spent hs]
  unfold WriteServed
  rw [writeRequest_succ hc hk, wholeBlock_succ hc (by omega), Nat.add_right_comm _ 1,
    show (offset + chunk) / 512 + k = offset / 512 + (k + 1) by omega]
  rfl

theorem writeServed_zero (fs : Simplefs) (block offset length : Nat) :
    fs.WriteServed block 0 offset length 0 ↔
      fs.dev.readOnly = false ∧ block + offset / 512 < fs.dev.blockCount ∧
        fs.dev.fault 0 = false ∧ (¬ WholeBlock offset length 0 → fs.dev.fault 1 = false) := by
  unfold WriteServed writeRequest
  rw [if_pos (.inl rfl)]
  rfl

theorem writeLoop_went (fs : Simplefs) (i offset : Nat) (buffer : List Byte) (written : Nat) :
    ∃ fs' n ok, fs.writeLoop i offset buffer written = (fs', written + n, ok) ∧
      Went (fs.WriteServed (fs.nodes i).disk.dataBlock 0 offset buffer.length) offset
        buffer.length n ok ∧
      fs'.dev.bytes = fs.dev.bytes.write (512 * (fs.nodes i).disk.dataBlock + offset)
        (buffer.take n) := by
  obtain ⟨length, hlen⟩ : ∃ length, length = buffer.length := ⟨_, rfl⟩
  induction length using Nat.strongRecOn generalizing fs offset buffer written with
  | _ length ih =>
    rw [writeLoop]
    by_cases hl : buffer.length = 0
    · rw [if_pos hl, hl]
      exact ⟨fs, 0, true, rfl, Went.empty _ _, by rw [List.take_zero, Store.write_nil]⟩
    rw [if_neg hl]
    obtain ⟨chunk, hc⟩ : ∃ chunk, chunk = min buffer.length (512 - offset % 512) := ⟨_, rfl⟩
    rw [← hc]
    have htake : (buffer.take chunk).length = chunk := by
      rw [List.length_take]
      omega
    have hstop : ∀ fs' : Simplefs, fs'.dev.bytes = fs.dev.bytes →
        ¬ fs.WriteServed (fs.nodes i).disk.dataBlock 0 offset buffer.length 0 →
        ∃ fs'' n ok, (fs', written, false) = (fs'', written + n, ok) ∧
          Went (fs.WriteServed (fs.nodes i).disk.dataBlock 0 offset buffer.length) offset
            buffer.length n ok ∧
          fs''.dev.bytes = fs.dev.bytes.write (512 * (fs.nodes i).disk.dataBlock + offset)
            (buffer.take n) := fun fs' hb h =>
      ⟨fs', 0, false, rfl, Went.refused hl h, by rw [List.take_zero, Store.write_nil, hb]⟩
    -- what the turns after the first one do
    have hrest : ∀ fs' : Simplefs, fs.WriteServed (fs.nodes i).disk.dataBlock 0 offset
        buffer.length 0 →
        fs'.nodes = fs.nodes →
        fs.dev.Spent fs'.dev (if WholeBlock offset buffer.length 0 then 1 else 2) →
        fs'.dev.bytes = fs.dev.bytes.write (512 * (fs.nodes i).disk.dataBlock + offset)
          (buffer.take chunk) →
        ∃ fs'' n ok, fs'.writeLoop i (offset + chunk) (buffer.drop chunk) (written + chunk)
            = (fs'', written + n, ok) ∧
          Went (fs.WriteServed (fs.nodes i).disk.dataBlock 0 offset buffer.length) offset
            buffer.length n ok ∧
          fs''.dev.bytes = fs.dev.bytes.write (512 * (fs.nodes i).disk.dataBlock + offset)
            (buffer.take n) := by
      intro fs' hserved hnodes hspent hbytes
      obtain ⟨fs'', n, ok, heq, hw, hb⟩ := ih (length - chunk) (by omega) fs' (offset + chunk)
        (buffer.drop chunk) (written + chunk) (by rw [List.length_drop]; omega)
      rw [List.length_drop, hnodes] at hw
      refine ⟨fs'', chunk + n, ok, by rw [heq, Nat.add_assoc],
        Went.next hc hl hserved (fun k hk => writeServed_succ hc hk hspent) hw, ?_⟩
      rw [hb, hbytes, hnodes, List.take_add, Store.write_append, htake, Nat.add_assoc]
    have hone := writeServed_zero fs (fs.nodes i).disk.dataBlock offset buffer.length
    by_cases hb : (fs.nodes i).disk.dataBlock + offset / 512 < fs.dev.blockCount
    swap
    · -- the block is not on the device
      have hno := fun h => hb (hone.mp h).2.1
      by_cases hfull : offset % 512 = 0 ∧ chunk = 512
      · rw [if_pos hfull]
        simp only [writeBlocks, Device.write_outside (d := fs.dev) fun h => hb h.2]
        exact hstop _ rfl hno
      · rw [if_neg hfull]
        simp only [readBlocks, Device.read_outside hb]
        exact hstop _ rfl hno
    by_cases hfull : offset % 512 = 0 ∧ chunk = 512
    · rw [if_pos hfull]
      have hwhole := (wholeBlock_zero hc).mpr hfull
      by_cases hw : fs.dev.readOnly = false
      · simp only [writeBlocks, Device.write_one hw hb]
        by_cases hf : fs.dev.fault 0 = true
        · simp only [if_pos hf]
          refine hstop _ rfl fun h => ?_
          rw [(hone.mp h).2.2.1] at hf
          exact absurd hf (by decide)
        simp only [if_neg hf]
        refine hrest _ (hone.mpr ⟨hw, hb, by simpa using hf, fun h => absurd hwhole h⟩)
          rfl ⟨rfl, rfl, fun r => ?_⟩ ?_
        · rw [if_pos hwhole]
          exact Device.answered_fault _ r
        · refine (full_block fs.dev.bytes (by omega)).trans ?_
          rw [hfull.2]
          congr 1
          omega
      · simp only [writeBlocks, Device.write_outside (d := fs.dev) fun h => hw h.1]
        exact hstop _ rfl fun h => hw (hone.mp h).1
    -- a part of a block is read first, and the write is the second request
    rw [if_neg hfull]
    have hpart := fun h => hfull ((wholeBlock_zero hc).mp h)
    simp only [readBlocks, Device.read_one hb]
    by_cases hf : fs.dev.fault 0 = true
    · simp only [if_pos hf]
      refine hstop _ rfl fun h => ?_
      rw [(hone.mp h).2.2.1] at hf
      exact absurd hf (by decide)
    simp only [if_neg hf]
    by_cases hw : fs.dev.readOnly = false
    swap
    · simp only [writeBlocks, Device.write_outside (d := fs.dev.answered) fun h => hw h.1]
      exact hstop _ rfl fun h => hw (hone.mp h).1
    simp only [writeBlocks, Device.write_one (d := fs.dev.answered) hw hb,
      Device.answered_fault]
    by_cases hf' : fs.dev.fault 1 = true
    · simp only [if_pos hf']
      refine hstop _ rfl fun h => ?_
      rw [(hone.mp h).2.2.2 hpart] at hf'
      exact absurd hf' (by decide)
    simp only [if_neg hf']
    refine hrest _ (hone.mpr ⟨hw, hb, by simpa using hf, fun _ => by simpa using hf'⟩)
      rfl ⟨rfl, rfl, fun r => ?_⟩ ?_
    · rw [if_neg hpart]
      exact (Device.answered_fault _ r).trans (Device.answered_fault _ (r + 1))
    · refine (patch_block fs.dev.bytes (b := (fs.nodes i).disk.dataBlock + offset / 512)
        (show offset % 512 + (buffer.take chunk).length ≤ 512 by omega)).trans ?_
      congr 1
      omega

/-- The file system once a write has made the file long enough. -/
def grown (fs : Simplefs) (i offset : Nat) (buffer : List Byte) : Simplefs × Bool :=
  if buffer.length ≠ 0 ∧ offset + buffer.length > (fs.nodes i).disk.size then
    fs.resizeNode i (offset + buffer.length)
  else (fs, true)

/-- What `simplefs_regular_write` returns: the number of bytes and the new offset. -/
def writeResult (fs : Simplefs) (i offset : Nat) (buffer : List Byte) : Option (Nat × Nat) :=
  (fs.regularWrite i offset buffer).2

/-- The offset follows what a write returns, and that many bytes of the buffer are
what it has put on the device, into the file from the old offset on. -/
structure WriteFollows (fs : Simplefs) (i offset : Nat) (buffer : List Byte) : Prop where
  follows : Follows offset (fs.writeResult i offset buffer)
  transferred : 0 ≤ reported (fs.writeResult i offset buffer) →
    (fs.regularWrite i offset buffer).1.dev.bytes
      = (fs.grown i offset buffer).1.dev.bytes.write
          (512 * ((fs.grown i offset buffer).1.nodes i).disk.dataBlock + offset)
          (buffer.take (reported (fs.writeResult i offset buffer)).toNat)

/-- What a write asks the device for before its loop, and where the extent of the file starts
then; nothing if it has no room to grow. -/
def writePlan (fs : Simplefs) (i offset length : Nat) : Option (Nat × List (Nat × Nat)) :=
  if length ≠ 0 ∧ offset + length > (fs.nodes i).disk.size then fs.growthPlan i (offset + length)
  else some ((fs.nodes i).disk.dataBlock, [])

theorem grown_planned (hw : fs.dev.readOnly = false) {i : Nat}
    (hk : (fs.nodes i).disk.kind = kindFile) (offset : Nat) (buffer : List Byte) :
    Planned fs i (fs.writePlan i offset buffer.length) (fs.grown i offset buffer) := by
  unfold writePlan grown
  split
  · exact resizeNode_planned hw hk _
  · exact .of_some (.memory rfl) fun _ => rfl

/-- A write gets as far as its loop: with the extent of the file at `block`, after these
requests. -/
structure WriteStarts (fs : Simplefs) (i offset length block : Nat) (requests : List (Nat × Nat)) :
    Prop where
  writable : fs.dev.readOnly = false
  file : (fs.nodes i).disk.kind = kindFile
  fits : offset + length < 2 ^ 32
  plan : fs.writePlan i offset length = some (block, requests)
  answers : fs.dev.Answers 0 requests

/-- A write that does not start reports a failure, or has nothing to write. -/
theorem regularWrite_idle (fs : Simplefs) (i offset : Nat) (buffer : List Byte)
    (h : ∀ block requests, ¬ fs.WriteStarts i offset buffer.length block requests) :
    fs.writeResult i offset buffer = none ∨
      buffer.length = 0 ∧ fs.regularWrite i offset buffer = (fs, some (0, offset)) := by
  unfold writeResult regularWrite
  by_cases hkind : fs.dev.readOnly = true ∨ (fs.nodes i).disk.kind ≠ kindFile
  · exact .inl (by simp only [if_pos hkind])
  simp only [if_neg hkind]
  by_cases hl : buffer.length = 0
  · exact .inr ⟨hl, by rw [if_pos hl]⟩
  rw [if_neg hl]
  by_cases hwrap : offset + buffer.length ≥ 2 ^ 32
  · exact .inl (by rw [if_pos hwrap])
  rw [if_neg hwrap]
  rw [not_or, Bool.not_eq_true, not_not] at hkind
  -- a file that grows has a plan, and the device has answered all of it
  have hgrown : (fs.grown i offset buffer).2 = false := by
    have hplanned := grown_planned hkind.1 hkind.2 offset buffer
    by_contra hg
    rw [Bool.not_eq_false] at hg
    cases hp : fs.writePlan i offset buffer.length with
    | none =>
      rw [hplanned.none hp] at hg
      simp at hg
    | some plan =>
      exact h plan.1 plan.2 ⟨hkind.1, hkind.2, by omega, hp, (hplanned.makes _ _ hp).ok.mp hg⟩
  unfold grown at hgrown
  simp only [ne_eq, hl, not_false_eq_true, true_and] at hgrown
  generalize (if offset + buffer.length > (fs.nodes i).disk.size
    then fs.resizeNode i (offset + buffer.length) else (fs, true)) = made at hgrown ⊢
  obtain ⟨fs', ok⟩ := made
  cases hgrown
  exact .inl rfl

theorem regularWrite_went (fs : Simplefs) (i offset : Nat) (buffer : List Byte) {block : Nat}
    {requests : List (Nat × Nat)} (h : fs.WriteStarts i offset buffer.length block requests) :
    ∃ n ok, Went (fs.WriteServed block requests.length offset buffer.length) offset
        buffer.length n ok ∧
      fs.writeResult i offset buffer = result offset n ok ∧
      (fs.regularWrite i offset buffer).1.dev.bytes
        = (fs.grown i offset buffer).1.dev.bytes.write
            (512 * ((fs.grown i offset buffer).1.nodes i).disk.dataBlock + offset)
            (buffer.take n) := by
  have hkind : ¬ (fs.dev.readOnly = true ∨ (fs.nodes i).disk.kind ≠ kindFile) := by
    rw [h.writable, h.file]
    simp
  have hplanned := grown_planned h.writable h.file offset buffer
  have hgrown := (hplanned.makes _ _ h.plan).ok.mpr h.answers
  have hspent := (hplanned.makes _ _ h.plan).spent hgrown
  have hplace := hplanned.place _ _ h.plan hgrown
  have hfits := h.fits
  unfold writeResult regularWrite
  simp only [if_neg hkind]
  by_cases hl : buffer.length = 0
  · rw [if_pos hl, hl]
    refine ⟨0, true, Went.empty _ _, rfl, ?_⟩
    rw [List.take_zero, Store.write_nil, grown, if_neg fun h => h.1 hl]
  rw [if_neg hl, if_neg (show ¬ offset + buffer.length ≥ 2 ^ 32 by omega)]
  unfold grown at hgrown hspent hplace ⊢
  simp only [ne_eq, hl, not_false_eq_true, true_and] at hgrown hspent hplace ⊢
  generalize (if offset + buffer.length > (fs.nodes i).disk.size
    then fs.resizeNode i (offset + buffer.length) else (fs, true)) = made
    at hgrown hspent hplace ⊢
  obtain ⟨fs', ok⟩ := made
  cases hgrown
  obtain ⟨fs'', n, ok, heq, hw, hbytes⟩ := fs'.writeLoop_went i offset buffer 0
  simp only [heq, Nat.zero_add]
  have hserved : fs'.WriteServed (fs'.nodes i).disk.dataBlock 0 offset buffer.length
      = fs.WriteServed block requests.length offset buffer.length := by
    rw [show (fs'.nodes i).disk.dataBlock = block from hplace]
    exact funext fun k => propext (writeServed_spent hspent)
  rw [hserved] at hw
  refine ⟨n, ok, hw, ?_⟩
  cases ok with
  | true => exact ⟨rfl, hbytes⟩
  | false => exact ⟨rfl, hbytes⟩

/-- **When the offset follows the returned count**, for a file whose extent lies inside the
block bitmap. A read keeps to it exactly when its range is served as a whole or refused at
its first piece; so does a write, if it gets as far as its loop. Both conditions are read off
the state before the call. -/
theorem transfer_follows_iff (fs : Simplefs) (_ : fs.Bounded) (i : Nat) (_ : i < fs.sb.inodeCount)
    (offset : Nat) (length : UInt32) (buffer : List Byte) :
    (fs.ReadFollows i offset length.toNat ↔
      AllOrNothing (fs.ReadServed i offset) offset (fs.readLength i offset length.toNat)) ∧
    (fs.WriteFollows i offset buffer ↔
      ∀ block requests, fs.WriteStarts i offset buffer.length block requests →
        AllOrNothing (fs.WriteServed block requests.length offset buffer.length) offset
          buffer.length) := by
  refine ⟨readFollows_iff fs i offset length.toNat_lt, ?_⟩
  by_cases hs : ∃ block requests, fs.WriteStarts i offset buffer.length block requests
  · obtain ⟨block, requests, hs⟩ := hs
    obtain ⟨n, ok, hw, hresult, hbytes⟩ := fs.regularWrite_went i offset buffer hs
    have hlt := hs.fits
    have hle := hw.le
    have hiff := hw.follows_iff (by omega)
    rw [← hresult] at hiff
    refine ⟨fun h block' requests' hs' => ?_, fun h => ⟨hiff.mpr (h _ _ hs), fun hpos => ?_⟩⟩
    · obtain ⟨rfl, rfl⟩ := Prod.mk.inj (Option.some.inj (hs.plan.symm.trans hs'.plan))
      exact hiff.mp h.follows
    rw [hbytes]
    rw [hresult] at hpos ⊢
    rw [reported_result (by omega) hpos]
  · simp only [not_exists] at hs
    refine ⟨fun _ block requests h => absurd h (hs block requests), fun _ => ?_⟩
    rcases fs.regularWrite_idle i offset buffer hs with hnone | ⟨hl, heq⟩
    · refine ⟨?_, fun hpos => ?_⟩
      · rw [hnone]
        exact ⟨fun hpos => absurd hpos (by decide), fun _ => rfl⟩
      · rw [hnone] at hpos
        exact absurd hpos (by decide)
    · have hzero : fs.writeResult i offset buffer = some (0, offset) := by
        rw [writeResult, heq]
      refine ⟨?_, fun _ => ?_⟩
      · rw [hzero]
        exact ⟨fun _ => rfl, fun _ => rfl⟩
      · rw [hzero, heq, grown, if_neg fun h => h.1 hl]
        exact (Store.write_nil _ _).symm

/-- The small image with a file of 600 bytes. -/
def fileFs : Simplefs :=
  run step sampleFs
    [.create [] ⟨[0x61], by decide⟩ false 0 0 0,
      .write [⟨[0x61], by decide⟩] 0 (List.replicate 600 1)]

/-- A read of the whole file, and a write of as much behind it: the file gets a third block,
which takes nine requests, and all of it is served. -/
theorem transfer_follows_iff_whole :
    fileFs.ReadFollows 2 0 600 ∧ fileFs.WriteFollows 2 600 (List.replicate 600 2) := by
  have hiff := transfer_follows_iff fileFs (by decide +kernel) 2 (by decide +kernel)
  have hlength : fileFs.readLength 2 0 600 = 600 := by decide +kernel
  refine ⟨(hiff 0 600 []).1.mpr (.inl ?_), (hiff 600 0 (List.replicate 600 2)).2.mpr
    fun block requests hs => .inl ?_⟩
  · rw [show (600 : UInt32).toNat = 600 from rfl, hlength]
    refine ⟨by decide, fun k hk => ?_⟩
    have hserved : ∀ k < 2, fileFs.ReadServed 2 0 k := by decide +kernel
    unfold before at hk
    exact hserved k (by omega)
  · have hplan : (fileFs.writePlan 2 600 600).map (fun plan => (plan.1, plan.2.length))
        = some (5, 9) := by decide +kernel
    rw [List.length_replicate] at hs ⊢
    rw [hs.plan] at hplan
    obtain ⟨rfl, hcount⟩ := Prod.mk.inj (Option.some.inj hplan)
    rw [hcount]
    refine ⟨by decide, fun k hk => ?_⟩
    have hserved : ∀ k < 2, fileFs.WriteServed 5 9 600 600 k := by decide +kernel
    unfold before at hk
    exact hserved k (by omega)

/-- The same on a device that serves one request and refuses the next. -/
def shortFs : Simplefs := { fileFs with dev := { fileFs.dev with faults := [false, true] } }

/-- A read of the file gets 512 bytes and would get them again; a write of it puts
512 bytes on the device and would put the next ones over them. -/
theorem short_transfer_keeps_offset :
    (shortFs.readResult 2 0 600 = some (512, 0) ∧ ¬ shortFs.ReadFollows 2 0 600) ∧
      shortFs.writeResult 2 0 (List.replicate 600 2) = some (512, 0) ∧
      ¬ shortFs.WriteFollows 2 0 (List.replicate 600 2) := by
  have hread : shortFs.readResult 2 0 600 = some (512, 0) := by decide +kernel
  have hwrite : shortFs.writeResult 2 0 (List.replicate 600 2) = some (512, 0) := by decide +kernel
  have hnot : ¬ Follows 0 (some (512, 0)) := fun h =>
    absurd (h.advanced (by decide)) (by decide)
  refine ⟨⟨hread, fun h => hnot ?_⟩, hwrite, fun h => hnot ?_⟩
  · rw [← hread]
    exact h.follows
  · rw [← hwrite]
    exact h.follows

end Simplefs

end Riverix.Fs
