import Riverix.Fs.Simplefs

/-!
# What the block loops do to the device

On a device that works, the loops that zero, copy and patch blocks never fail as
long as they stay inside the device, and what they leave behind is the old store
with the named bytes replaced. Everything above this file reasons about those
stores and not about the loops.
-/

namespace Riverix.Fs

open Riverix.Lib

namespace Simplefs

variable {fs : Simplefs} {start count b : Nat} {buffer bytes : Store}

/-- The file system over other device contents. -/
def setBytes (fs : Simplefs) (bytes : Store) : Simplefs :=
  { fs with dev := { fs.dev with bytes } }

@[simp] theorem setBytes_self (fs : Simplefs) : fs.setBytes fs.dev.bytes = fs := rfl

@[simp] theorem setBytes_bytes (fs : Simplefs) (bytes : Store) :
    (fs.setBytes bytes).dev.bytes = bytes := rfl

@[simp] theorem setBytes_nodes (fs : Simplefs) (bytes : Store) :
    (fs.setBytes bytes).nodes = fs.nodes := rfl

theorem setBytes_works (h : fs.dev.Works) : (fs.setBytes bytes).dev.Works :=
  ⟨h.writable, h.no_faults⟩

/-- One block inside the device. -/
theorem inRange_one {d : Device} (h : b < d.blockCount) : d.InRange b 1 :=
  ⟨by omega, h, by omega⟩

theorem readBlocks_works (h : fs.dev.Works) (hr : fs.dev.InRange start count) :
    fs.readBlocks start count = (fs, some (fs.dev.blocks start)) := by
  rw [readBlocks, Device.read_works h.no_faults hr]

theorem writeBlocks_works (h : fs.dev.Works) (hr : fs.dev.InRange start count) :
    fs.writeBlocks start count buffer
      = (fs.setBytes (fs.dev.bytes.paste (512 * start) (512 * count) buffer), true) := by
  rw [writeBlocks, Device.write_works h hr]
  rfl

/-- A loop whose turns only change the device contents. -/
theorem loop_setBytes {body : Simplefs → Nat → Simplefs × Bool} {g : Store → Nat → Store} :
    ∀ {xs : List Nat}, (∀ bytes, ∀ x ∈ xs,
      body (fs.setBytes bytes) x = (fs.setBytes (g bytes x), true)) →
    ∀ bytes, loop body xs (fs.setBytes bytes) = (fs.setBytes (xs.foldl g bytes), true) := by
  intro xs
  induction xs with
  | nil => exact fun _ _ => rfl
  | cons x xs ih =>
    intro h bytes
    rw [loop, h bytes x (List.mem_cons_self ..)]
    exact ih (fun bytes y hy => h bytes y (List.mem_cons_of_mem _ hy)) _

/-- The bytes of one block. -/
theorem paste_block (m src : Store) (b a : Nat) :
    m.paste (512 * b) 512 src a = if a / 512 = b then src (a % 512) else m a := by
  unfold Store.paste
  by_cases h : a / 512 = b
  · rw [if_pos (by omega), if_pos h]
    congr 1
    omega
  · rw [if_neg (by omega), if_neg h]

/-! ## Zeroing -/

theorem foldl_zero (start : Nat) (indices : List Nat) (bytes : Store) (a : Nat) :
    (indices.foldl (fun m k => m.paste (512 * (start + k)) 512 fun _ => 0) bytes) a
      = if ∃ k ∈ indices, a / 512 = start + k then 0 else bytes a := by
  induction indices generalizing bytes with
  | nil => simp
  | cons k ks ih =>
    rw [List.foldl_cons, ih, paste_block]
    by_cases hks : ∃ j ∈ ks, a / 512 = start + j
    · obtain ⟨j, hj, he⟩ := hks
      rw [if_pos ⟨j, hj, he⟩, if_pos ⟨j, List.mem_cons_of_mem _ hj, he⟩]
    rw [if_neg hks]
    by_cases hk : a / 512 = start + k
    · rw [if_pos hk, if_pos ⟨k, List.mem_cons_self .., hk⟩]
    rw [if_neg hk, if_neg]
    rintro ⟨j, hj, he⟩
    rcases List.mem_cons.mp hj with rfl | hj
    · exact hk he
    · exact hks ⟨j, hj, he⟩

/-- `zeroExtent` zeroes the blocks it is given. -/
theorem zeroExtent_works (fs : Simplefs) (start : Nat) (indices : List Nat) (h : fs.dev.Works)
    (hr : ∀ k ∈ indices, start + k < fs.dev.blockCount) :
    ∃ bytes, fs.zeroExtent start indices = (fs.setBytes bytes, true) ∧
      ∀ a, bytes a = if ∃ k ∈ indices, a / 512 = start + k then 0 else fs.dev.bytes a := by
  refine ⟨_, ?_, foldl_zero start indices fs.dev.bytes⟩
  refine loop_setBytes (g := fun m k => m.paste (512 * (start + k)) 512 fun _ => 0)
    (fun bytes k hk => ?_) fs.dev.bytes
  exact writeBlocks_works (setBytes_works h) (inRange_one (hr k hk))

/-! ## Copying -/

theorem foldl_copy {fromBlock toBlock : Nat} (bytes : Store) : ∀ {count : Nat},
    fromBlock + count ≤ toBlock ∨ toBlock + count ≤ fromBlock → ∀ a,
    ((List.range count).foldl (fun m k => m.paste (512 * (toBlock + k)) 512
        fun j => m (512 * (fromBlock + k) + j)) bytes) a
      = if toBlock ≤ a / 512 ∧ a / 512 < toBlock + count
        then bytes (512 * fromBlock + (a - 512 * toBlock)) else bytes a := by
  intro count
  induction count with
  | zero =>
    intro _ a
    rw [if_neg (by omega)]
    rfl
  | succ count ih =>
    intro hdisj a
    have ih := ih (by omega)
    rw [List.range_succ, List.foldl_append, List.foldl_cons, List.foldl_nil, paste_block]
    by_cases hlast : a / 512 = toBlock + count
    · -- the block read in this turn has not been written before
      rw [if_pos hlast, if_pos (by omega), ih, if_neg (by omega)]
      congr 1
      omega
    · rw [if_neg hlast, ih]
      by_cases hin : toBlock ≤ a / 512 ∧ a / 512 < toBlock + count
      · rw [if_pos hin, if_pos (by omega)]
      · rw [if_neg hin, if_neg (by omega)]

/-- `simplefs_copy_extent` between runs that do not overlap. -/
theorem copyExtent_works (fs : Simplefs) (fromBlock toBlock count : Nat) (h : fs.dev.Works)
    (hf : fromBlock + count ≤ fs.dev.blockCount) (ht : toBlock + count ≤ fs.dev.blockCount)
    (hdisj : fromBlock + count ≤ toBlock ∨ toBlock + count ≤ fromBlock) :
    ∃ bytes, fs.copyExtent fromBlock toBlock count = (fs.setBytes bytes, true) ∧
      ∀ a, bytes a = if toBlock ≤ a / 512 ∧ a / 512 < toBlock + count
        then fs.dev.bytes (512 * fromBlock + (a - 512 * toBlock)) else fs.dev.bytes a := by
  refine ⟨_, ?_, foldl_copy fs.dev.bytes hdisj⟩
  refine loop_setBytes (g := fun m k => m.paste (512 * (toBlock + k)) 512
    fun j => m (512 * (fromBlock + k) + j)) (fun bytes k hk => ?_) fs.dev.bytes
  have hk := List.mem_range.mp hk
  have hw : (fs.setBytes bytes).dev.Works := setBytes_works h
  unfold copyBlock
  rw [readBlocks_works hw (inRange_one (by show fromBlock + k < fs.dev.blockCount; omega))]
  exact writeBlocks_works hw (inRange_one (by show toBlock + k < fs.dev.blockCount; omega))

/-! ## Ranges of a file -/

/-- Patching a block and writing it back is a write of the patch. -/
theorem patch_block (m : Store) {b o : Nat} {bs : List Byte} (h : o + bs.length ≤ 512) :
    m.paste (512 * b) 512 (Store.write (fun k => m (512 * b + k)) o bs)
      = m.write (512 * b + o) bs := by
  funext a
  rw [paste_block]
  by_cases hb : a / 512 = b
  · rw [if_pos hb]
    by_cases hin : o ≤ a % 512 ∧ a % 512 < o + bs.length
    · obtain ⟨k, hk⟩ := Nat.exists_eq_add_of_le hin.1
      rw [hk, Store.write_inside (by omega), show a = 512 * b + o + k by omega,
        Store.write_inside (by omega)]
    · rw [Store.write_outside (by omega), Store.write_outside (by omega)]
      congr 1
      omega
  · rw [if_neg hb, Store.write_outside (by omega)]

/-- A read-modify-write of one block. -/
theorem patch_works (h : fs.dev.Works) {o : Nat} {bs : List Byte} (hb : b < fs.dev.blockCount)
    (ho : o + bs.length ≤ 512) :
    fs.writeBlocks b 1 ((fs.dev.blocks b).write o bs)
      = (fs.setBytes (fs.dev.bytes.write (512 * b + o) bs), true) := by
  rw [writeBlocks_works h (inRange_one hb), ← patch_block fs.dev.bytes ho]
  rfl

/-- `simplefs_zero_range` inside the device. -/
theorem zeroRange_works (fs : Simplefs) (i offset length : Nat) (h : fs.dev.Works)
    (hr : 512 * (fs.nodes i).disk.dataBlock + offset + length ≤ 512 * fs.dev.blockCount) :
    fs.zeroRange i offset length = (fs.setBytes (fs.dev.bytes.write
      (512 * (fs.nodes i).disk.dataBlock + offset) (List.replicate length 0)), true) := by
  induction length using Nat.strongRecOn generalizing fs offset with
  | _ length ih =>
    rw [zeroRange]
    by_cases hl : length = 0
    · rw [if_pos hl, hl, List.replicate_zero, Store.write_nil, setBytes_self]
    rw [if_neg hl]
    obtain ⟨chunk, hc⟩ : ∃ chunk, chunk = min length (512 - offset % 512) := ⟨_, rfl⟩
    rw [← hc]
    have hblock : (fs.nodes i).disk.dataBlock + offset / 512 < fs.dev.blockCount := by omega
    simp only [readBlocks_works h (inRange_one hblock),
      patch_works h hblock (show offset % 512 + (List.replicate chunk (0 : Byte)).length ≤ 512 by
        rw [List.length_replicate]; omega)]
    rw [ih (length - chunk) (by omega) _ _ (setBytes_works h)
      (by show 512 * (fs.nodes i).disk.dataBlock + _ + _ ≤ 512 * fs.dev.blockCount; omega)]
    have hsplit : List.replicate length (0 : Byte)
        = List.replicate chunk 0 ++ List.replicate (length - chunk) 0 := by
      rw [List.replicate_append_replicate, show chunk + (length - chunk) = length by omega]
    rw [hsplit, Store.write_append, List.length_replicate]
    show (fs.setBytes (Store.write _ (512 * (fs.nodes i).disk.dataBlock + _) _), true) = _
    rw [setBytes_bytes, show 512 * ((fs.nodes i).disk.dataBlock + offset / 512) + offset % 512
        = 512 * (fs.nodes i).disk.dataBlock + offset by omega, Nat.add_assoc]

/-- Writing a whole block from a longer buffer. -/
theorem full_block (m : Store) {b : Nat} {bs : List Byte} (h : 512 ≤ bs.length) :
    m.paste (512 * b) 512 (fun k => bs.getD k 0) = m.write (512 * b) (bs.take 512) := by
  have hlen : (bs.take 512).length = 512 := by
    rw [List.length_take]
    omega
  funext a
  rw [paste_block]
  by_cases hb : a / 512 = b
  · rw [if_pos hb, show a = 512 * b + a % 512 by omega, Store.write_inside (by omega),
      List.getD_eq_getElem?_getD, List.getD_eq_getElem?_getD, List.getElem?_take]
    rw [show (512 * b + a % 512) % 512 = a % 512 by omega, if_pos (by omega)]
  · rw [if_neg hb, Store.write_outside (by omega)]

end Simplefs

end Riverix.Fs
