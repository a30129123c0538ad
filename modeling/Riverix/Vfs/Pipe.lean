import Riverix.Lib.Ring
import Riverix.Lib.Run
import Riverix.Lib.Store

/-!
# Pipes (`vfs_pipe_t`, `pipe_inode_read`, `pipe_inode_write`)

A pipe is a ring of 1024 bytes with the number of its readers and writers. A read takes
what there is, a write puts what fits, and both report `VFS_ERR_WOULD_BLOCK` when nothing
moves and the other end is still open.
-/

namespace Riverix.Vfs

open Riverix.Lib

/-- `VFS_PIPE_BUFFER_SIZE` -/
abbrev pipeBufferSize : Nat := 1024

/-- `vfs_pipe_t`; `inodeRefs` is the `ref_count` of the inode inside it. -/
structure Pipe where
  inodeRefs : Nat
  readers : Nat
  writers : Nat
  ring : Ring Byte pipeBufferSize

/-- What a read operation returns: so many bytes, `VFS_ERR_WOULD_BLOCK`, or -1. -/
inductive ReadResult
  | data (bytes : List Byte)
  | wouldBlock
  | failed
  deriving DecidableEq, Repr

/-- What a write operation returns. -/
inductive WriteResult
  | count (n : Nat)
  | wouldBlock
  | failed
  deriving DecidableEq, Repr

def ReadResult.bytes : ReadResult → List Byte
  | .data bytes => bytes
  | _ => []

/-- The flag of the read end or of the write end, `VFS_O_RDONLY` or `VFS_O_WRONLY`. -/
def endFlag (isRead : Bool) : Nat := if isRead then 1 else 2

namespace Pipe

/-- `reader_count` or `writer_count` -/
def endCount (p : Pipe) (isRead : Bool) : Nat := if isRead then p.readers else p.writers

/-- The pipe as `vfs_create_pipe` allocates it. -/
def new : Pipe := ⟨0, 0, 0, Ring.empty 0 (by decide)⟩

/-- `pipe_inode_read`, behind the test of the flags. -/
def read (p : Pipe) (length : Nat) : Pipe × ReadResult :=
  let taken := p.ring.take length
  ({ p with ring := taken.2 },
    if taken.1 ≠ [] then .data taken.1 else if p.writers = 0 then .data [] else .wouldBlock)

/-- `pipe_inode_write`, behind the test of the flags. -/
def write (p : Pipe) (data : List Byte) : Pipe × WriteResult :=
  if p.readers = 0 then (p, .failed)
  else
    let put := p.ring.put data
    ({ p with ring := put.2 }, if put.1 ≠ 0 then .count put.1 else .wouldBlock)

/-- One end of the pipe is released; the counts stop at 0. -/
def dropEnd (p : Pipe) (flags : Nat) : Pipe :=
  { p with
    readers := if flags &&& 1 ≠ 0 then p.readers - 1 else p.readers
    writers := if flags &&& 2 ≠ 0 then p.writers - 1 else p.writers }

theorem dropEnd_endCount (p : Pipe) (flags : Nat) (isRead : Bool) :
    (p.dropEnd flags).endCount isRead
      = if flags &&& endFlag isRead ≠ 0 then p.endCount isRead - 1 else p.endCount isRead := by
  cases isRead <;> rfl

/-- Only the ring is different. -/
structure SameEnds (p p' : Pipe) : Prop where
  inodeRefs : p'.inodeRefs = p.inodeRefs
  readers : p'.readers = p.readers
  writers : p'.writers = p.writers

theorem SameEnds.refl (p : Pipe) : SameEnds p p := ⟨rfl, rfl, rfl⟩

variable {p p' : Pipe} {n : Nat} {data : List Byte}

theorem SameEnds.endCount (h : SameEnds p p') (isRead : Bool) :
    p'.endCount isRead = p.endCount isRead := by
  unfold Pipe.endCount
  rw [h.readers, h.writers]

end Pipe

/-! ## What goes through a pipe -/

/-- A read, a write, or the end of one of the pipe's files. -/
inductive PipeEvent
  | read (length : Nat)
  | write (data : List Byte)
  | dropEnd (flags : Nat)

/-- A pipe, with what writes have put into it and reads have got out of it. -/
structure Stream where
  pipe : Pipe
  sent : List Byte
  received : List Byte

/-- The number of bytes that a write reports. -/
def WriteResult.accepted : WriteResult → Nat
  | .count n => n
  | _ => 0

def Stream.step (s : Stream) : PipeEvent → Stream
  | .read length =>
    ⟨(s.pipe.read length).1, s.sent, s.received ++ (s.pipe.read length).2.bytes⟩
  | .write data =>
    ⟨(s.pipe.write data).1, s.sent ++ data.take (s.pipe.write data).2.accepted, s.received⟩
  | .dropEnd flags => { s with pipe := s.pipe.dropEnd flags }

theorem Stream.step_keeps (s : Stream) (e : PipeEvent)
    (h : s.received ++ s.pipe.ring.contents = s.sent) :
    (s.step e).received ++ (s.step e).pipe.ring.contents = (s.step e).sent := by
  cases e with
  | read length =>
    have hbytes : (s.pipe.read length).2.bytes = (s.pipe.ring.take length).1 := by
      unfold Pipe.read
      dsimp only
      split
      · rfl
      next hnone =>
      rw [not_not.mp hnone]
      split <;> rfl
    show (s.received ++ (s.pipe.read length).2.bytes) ++ (s.pipe.ring.take length).2.contents
      = s.sent
    rw [hbytes, List.append_assoc, Ring.take_append, h]
  | write data =>
    show s.received ++ (s.pipe.write data).1.ring.contents
      = s.sent ++ data.take (s.pipe.write data).2.accepted
    rw [← h, List.append_assoc]
    congr 1
    unfold Pipe.write
    split
    · exact (List.append_nil _).symm
    have hput := Ring.put_append data s.pipe.ring
    dsimp only
    split
    · exact hput
    next hnone =>
    rwa [not_not.mp hnone] at hput
  | dropEnd flags => exact h

/-- **A pipe is a stream**: whatever is read from it, written to it and closed, in whatever order,
the bytes that came out and the bytes still in it are the bytes that went in; and a read of
something reports the end only when the last writer is gone and nothing is left. -/
theorem run_pipe_stream (readers writers : Nat) (es : List PipeEvent) :
    let s := run Stream.step ⟨{ Pipe.new with readers, writers }, [], []⟩ es
    s.received ++ s.pipe.ring.contents = s.sent ∧ s.pipe.ring.contents.length ≤ pipeBufferSize ∧
      ∀ length, length ≠ 0 → (s.pipe.read length).2 = .data [] →
        s.pipe.writers = 0 ∧ s.received = s.sent := by
  intro s
  have h : s.received ++ s.pipe.ring.contents = s.sent := run_invariant Stream.step_keeps es rfl
  refine ⟨h, by rw [Ring.contents_length]; exact s.pipe.ring.bounded, fun length hpos hread => ?_⟩
  obtain ⟨n, rfl⟩ := Nat.exists_eq_succ_of_ne_zero hpos
  unfold Pipe.read at hread
  dsimp only at hread
  split at hread
  next hsome => exact absurd (ReadResult.data.inj hread) hsome
  next hnone =>
  have hempty : s.pipe.ring.buffered = 0 := by
    by_contra hne
    rw [Ring.take, dif_pos hne] at hnone
    simp at hnone
  split at hread
  next hw =>
    refine ⟨hw, ?_⟩
    rw [← h, List.eq_nil_of_length_eq_zero (s.pipe.ring.contents_length.trans hempty),
      List.append_nil]
  · exact absurd hread (by simp)

end Riverix.Vfs
