import Riverix.Lib.Run
import Mathlib.Algebra.Group.Nat.Defs
import Mathlib.Data.List.Induction

/-!
# The trace ring (`trace.c`)

`trace_log` stores a record in slot `sequence % TRACE_CAPACITY` and counts up to the capacity.
`Holds` says what the ring is after some calls: the slot of each of the last 256 numbers holds
the record of the call with that number, so a reader never gets a newer record under an old
number (**`run_trace_window`**). The sequence number is a `uint32_t`, which fewer than `2 ^ 32`
calls do not wrap.
-/

namespace Riverix.Drivers

open Riverix.Lib

/-- `TRACE_CAPACITY` -/
abbrev traceCapacity : Nat := 256

/-- `sys_trace_record_t` -/
structure TraceRecord where
  sequence : Nat
  ticks : UInt32
  category : UInt32
  event : UInt32
  arg0 : UInt32
  arg1 : UInt32
  arg2 : UInt32
  deriving DecidableEq

/-- `sys_trace_info_t` -/
structure TraceInfo where
  capacity : Nat
  count : Nat
  nextSequence : Nat
  deriving DecidableEq

/-- The statics of `trace.c`. -/
structure TraceState where
  ring : Nat → TraceRecord
  nextSequence : Nat
  count : Nat
  ready : Bool

/-- A call of `trace_log`, and what `pit_ticks` returns in it. -/
structure TraceCall where
  ticks : UInt32
  category : UInt32
  event : UInt32
  arg0 : UInt32
  arg1 : UInt32
  arg2 : UInt32

/-- What the call with number `sequence` stores. -/
def TraceCall.record (c : TraceCall) (sequence : Nat) : TraceRecord :=
  ⟨sequence, c.ticks, c.category, c.event, c.arg0, c.arg1, c.arg2⟩

namespace TraceState

/-- `trace_init` -/
def init : TraceState := ⟨fun _ => ⟨0, 0, 0, 0, 0, 0, 0⟩, 0, 0, true⟩

/-- `trace_log` -/
def log (s : TraceState) (c : TraceCall) : TraceState :=
  if s.ready = false then s
  else
    { s with
      ring := Function.update s.ring (s.nextSequence % traceCapacity) (c.record s.nextSequence)
      nextSequence := (s.nextSequence + 1) % 2 ^ 32
      count := if s.count < traceCapacity then s.count + 1 else s.count }

/-- `trace_get_info`, with the result and what it writes. -/
def getInfo (s : TraceState) : Int × Option TraceInfo :=
  if s.ready = false then (-1, none) else (0, some ⟨traceCapacity, s.count, s.nextSequence⟩)

/-- `trace_read`, with the result and what it writes. -/
def read (s : TraceState) (sequence : Nat) : Int × Option TraceRecord :=
  if s.ready = false then (-1, none)
  else if s.count = 0 then (1, none)
  else
    let oldest := if s.nextSequence > s.count then s.nextSequence - s.count else 0
    if sequence < oldest ∨ sequence ≥ s.nextSequence then (1, none)
    else (0, some (s.ring (sequence % traceCapacity)))

/-- The ring after the calls `cs`. -/
structure Holds (s : TraceState) (cs : List TraceCall) : Prop where
  ready : s.ready = true
  next : s.nextSequence = cs.length
  count : s.count = min cs.length traceCapacity
  slot : ∀ k (hk : k < cs.length), cs.length ≤ k + traceCapacity →
    s.ring (k % traceCapacity) = cs[k].record k

theorem init_holds : Holds init [] :=
  ⟨rfl, rfl, rfl, fun _ hk => absurd hk (Nat.not_lt_zero _)⟩

/-- One call overwrites the slot of the number that falls out of the window. -/
theorem Holds.log {s : TraceState} {cs : List TraceCall} (h : Holds s cs) (c : TraceCall)
    (hfew : cs.length + 1 < 2 ^ 32) : Holds (s.log c) (cs ++ [c]) := by
  obtain ⟨hready, hnext, hcount, hslot⟩ := h
  have hlen : (cs ++ [c]).length = cs.length + 1 := List.length_append
  unfold TraceState.log
  rw [if_neg (by rw [hready]; simp)]
  refine ⟨hready, ?_, ?_, fun k hk hin => ?_⟩
  · rw [hlen, ← hnext]
    exact Nat.mod_eq_of_lt (by omega)
  · show (if s.count < traceCapacity then s.count + 1 else s.count) = _
    rw [hcount, hlen]
    split <;> omega
  rw [hlen] at hk hin
  show Function.update s.ring (s.nextSequence % traceCapacity) (c.record s.nextSequence)
    (k % traceCapacity) = _
  rw [hnext]
  rcases Nat.lt_or_ge k cs.length with hold | hnew
  · -- two numbers of one window have different slots
    have hne : k % 256 ≠ cs.length % 256 := by
      have hin : cs.length + 1 ≤ k + 256 := hin
      omega
    rw [Function.update_of_ne hne, List.getElem_append_left hold]
    exact hslot k hold (by omega)
  · obtain rfl : k = cs.length := by omega
    rw [Function.update_self]
    simp

theorem run_holds (cs : List TraceCall) (hfew : cs.length < 2 ^ 32) :
    Holds (run TraceState.log init cs) cs := by
  induction cs using List.reverseRecOn with
  | nil => exact init_holds
  | append_singleton cs c ih =>
    rw [List.length_append, List.length_singleton] at hfew
    rw [run, List.foldl_append]
    exact (ih (by omega)).log c hfew

/-- A read finds exactly the numbers of the window. -/
theorem Holds.read {s : TraceState} {cs : List TraceCall} (h : Holds s cs) (sequence : Nat) :
    s.read sequence = if hin : cs.length - min cs.length traceCapacity ≤ sequence ∧
        sequence < cs.length then (0, some (cs[sequence].record sequence)) else (1, none) := by
  obtain ⟨hready, hnext, hcount, hslot⟩ := h
  unfold TraceState.read
  rw [if_neg (by rw [hready]; simp), hcount, hnext]
  by_cases hin : cs.length - min cs.length traceCapacity ≤ sequence ∧ sequence < cs.length
  · rw [dif_pos hin, if_neg (by omega), if_neg (by split <;> omega),
      hslot sequence hin.2 (by omega)]
  · rw [dif_neg hin]
    split
    · rfl
    · rw [if_pos (by split <;> omega)]

end TraceState

end Riverix.Drivers
