import Riverix.Lib.Ring
import Riverix.Lib.Run
import Riverix.Lib.Store

/-!
# VMBus rings (`vmbus_send_inband`, `vmbus_recv_packet`)

A ring is shared memory: two indices in a header page, and the pages behind it. A packet
goes in as a descriptor, its payload, zeros up to a multiple of 8 and a trailer of 8 zero
bytes, in four copies that each wrap on their own; the receiver keeps a read index of its
own beside the one in the header.

The ring is a queue of bytes (`Lib.Ring`): a send that is accepted appends a frame, and a
receive takes one off. **`run_roundTrip`**: over every interleaving of sends and receives
the packets come out as they went in, a send is refused only for lack of room, and a
receive finds nothing only where nothing is pending. **`recv_tolerates_iff`** is the receiving
side alone, for whatever the host has written.
-/

namespace Riverix.Hyperv

open Riverix.Lib

/-! ## The model -/

/-- `vmbus_packet_descriptor_t` -/
structure Descriptor where
  type : Nat
  offset8 : Nat
  len8 : Nat
  flags : Nat
  transId : Nat
  deriving DecidableEq

def Descriptor.bytes (d : Descriptor) : List Byte :=
  leBytes 2 d.type ++ (leBytes 2 d.offset8 ++ (leBytes 2 d.len8 ++ (leBytes 2 d.flags
    ++ leBytes 8 d.transId)))

def Descriptor.ofBytes (bs : List Byte) : Descriptor where
  type := leValue (bs.take 2)
  offset8 := leValue ((bs.drop 2).take 2)
  len8 := leValue ((bs.drop 4).take 2)
  flags := leValue ((bs.drop 6).take 2)
  transId := leValue ((bs.drop 8).take 8)

/-- A ring (`vmbus_ring_buffer_t`), with the `inbound_read_index` of the channel that
receives from it and the number of times the sender has signalled. -/
structure VmbusRing where
  writeIndex : Nat
  readIndex : Nat
  inboundReadIndex : Nat
  buffer : Store
  signals : Nat

/-- `VMBUS_PACKET_DATA_INBAND` -/
abbrev packetDataInband : Nat := 6

/-- `vmbus_ring_data_size`: one page is the header. -/
def ringDataSize (pageCount : Nat) : Nat := (pageCount * 4096 + 2 ^ 32 - 4096) % 2 ^ 32

/-- `vmbus_copy_from_ring` -/
def copyFromRing (ring : Store) (ringSize offset length : Nat) : List Byte :=
  (List.range length).map fun index => ring ((offset + index) % 2 ^ 32 % ringSize)

/-- `vmbus_copy_to_ring` -/
def copyToRing (ringSize : Nat) : Store → Nat → List Byte → Store
  | ring, _, [] => ring
  | ring, offset, b :: bytes =>
    copyToRing ringSize (Function.update ring (offset % 2 ^ 32 % ringSize) b) (offset + 1) bytes

/-- `align_up_u32(value, 8)` -/
def alignUp8 (value : Nat) : Nat := (value + 7) % 2 ^ 32 / 8 * 8

namespace VmbusRing

/-- `vmbus_ring_bytes_to_write` -/
def bytesToWrite (r : VmbusRing) (pageCount : Nat) : Nat :=
  if r.writeIndex ≥ r.readIndex then
    (ringDataSize pageCount + 2 ^ 32 - (r.writeIndex - r.readIndex)) % 2 ^ 32
  else r.readIndex - r.writeIndex

/-- `vmbus_ring_bytes_to_read` -/
def bytesToRead (r : VmbusRing) (pageCount : Nat) : Nat :=
  if r.writeIndex ≥ r.readIndex then r.writeIndex - r.readIndex
  else ((ringDataSize pageCount + 2 ^ 32 - r.readIndex) % 2 ^ 32 + r.writeIndex) % 2 ^ 32

/-- `vmbus_send_inband` on an open channel -/
def sendInband (r : VmbusRing) (pageCount : Nat) (payload : List Byte) (requestId flags : Nat) :
    VmbusRing × Bool :=
  let ringSize := ringDataSize pageCount
  let packetLength := (16 + payload.length) % 2 ^ 32
  let alignedPacketLength := alignUp8 packetLength
  if r.bytesToWrite pageCount ≤ (alignedPacketLength + 8) % 2 ^ 32 then (r, false)
  else
    let descriptor : Descriptor :=
      ⟨packetDataInband, 2, alignedPacketLength / 8 % 2 ^ 16, flags % 2 ^ 16, requestId⟩
    let buffer := copyToRing ringSize r.buffer r.writeIndex descriptor.bytes
    let writeIndex := (r.writeIndex + 16) % 2 ^ 32 % ringSize
    let buffer := copyToRing ringSize buffer writeIndex payload
    let writeIndex := (writeIndex + payload.length) % 2 ^ 32 % ringSize
    let padding := List.replicate (alignedPacketLength - packetLength) 0
    let padded := if alignedPacketLength > packetLength
      then (copyToRing ringSize buffer writeIndex padding,
        (writeIndex + padding.length) % 2 ^ 32 % ringSize)
      else (buffer, writeIndex)
    ({ r with
        buffer := copyToRing ringSize padded.1 padded.2 (List.replicate 8 0)
        writeIndex := (padded.2 + 8) % 2 ^ 32 % ringSize
        signals := if r.writeIndex = r.readIndex then r.signals + 1 else r.signals }, true)

end VmbusRing

/-- What `vmbus_recv_packet` reports when it returns 1: the bytes in the payload buffer,
`*payload_size_out`, `*request_id_out` and `*packet_type_out`. -/
structure Received where
  payload : List Byte
  size : Nat
  requestId : Nat
  type : Nat
  deriving DecidableEq

/-- `vmbus_recv_packet` on an open channel, with a buffer of `capacity` bytes -/
def VmbusRing.recvPacket (r : VmbusRing) (pageCount capacity : Nat) : VmbusRing × Option Received :=
  let ringSize := ringDataSize pageCount
  if r.bytesToRead pageCount < 16 then (r, none)
  else
    let readIndex := r.inboundReadIndex
    let descriptor := Descriptor.ofBytes (copyFromRing r.buffer ringSize readIndex 16)
    let payloadOffset := descriptor.offset8 * 8
    let payloadLength := (descriptor.len8 * 8 + 2 ^ 32 - payloadOffset) % 2 ^ 32
    let payload := copyFromRing r.buffer ringSize ((readIndex + payloadOffset) % 2 ^ 32)
      (min payloadLength capacity)
    let next := (readIndex + descriptor.len8 * 8 + 8) % 2 ^ 32
    let next := if next ≥ ringSize then next % ringSize else next
    ({ r with inboundReadIndex := next, readIndex := next },
      some ⟨payload, payloadLength, descriptor.transId, descriptor.type⟩)

/-- The pages of a ring: the header and at least one more (`VMBUS_RING_MIN_PAGES`), in a
32-bit address space. -/
structure RingPages where
  count : Nat
  least : 2 ≤ count
  fits : count < 2 ^ 20

/-- A packet to send, of at most 4096 bytes. -/
structure Packet where
  payload : List Byte
  small : payload.length ≤ 4096
  requestId : UInt64
  flags : UInt32

/-- A call on the two ends of a ring. -/
inductive RingCall
  | send (p : Packet)
  | recv (capacity : Nat)

/-- A ring with its history: the packets whose send returned 0, and what was received, with
the capacities. -/
structure Link where
  ring : VmbusRing
  sent : List Packet
  received : List (Nat × Received)

namespace Link

/-- A ring with equal indices. -/
def fresh (start signals : Nat) (buffer : Store) :
    Link := ⟨⟨start, start, start, buffer, signals⟩, [], []⟩

def send (l : Link) (pages : RingPages) (p : Packet) : VmbusRing × Bool :=
  l.ring.sendInband pages.count p.payload p.requestId.toNat p.flags.toNat

def step (pages : RingPages) (l : Link) : RingCall → Link
  | .send p =>
    { l with
      ring := (l.send pages p).1
      sent := if (l.send pages p).2 then l.sent ++ [p] else l.sent }
  | .recv capacity =>
    { l with
      ring := (l.ring.recvPacket pages.count capacity).1
      received := l.received ++
        ((l.ring.recvPacket pages.count capacity).2.toList.map fun r => (capacity, r)) }

/-- What was sent and not yet received. -/
def pending (l : Link) : List Packet := l.sent.drop l.received.length

end Link

/-! ## Frames -/

namespace Packet

/-- The length of the descriptor and the payload, up to a multiple of 8. -/
def alignedLength (p : Packet) : Nat := (16 + p.payload.length + 7) / 8 * 8

/-- The payload, zero-padded to a multiple of 8 bytes. -/
def padded (p : Packet) : List Byte :=
  p.payload ++ List.replicate (p.alignedLength - (16 + p.payload.length)) 0

def descriptor (p : Packet) : Descriptor :=
  ⟨packetDataInband, 2, p.alignedLength / 8, p.flags.toNat % 2 ^ 16, p.requestId.toNat⟩

/-- The bytes of a packet in the ring. -/
def frame (p : Packet) : List Byte := p.descriptor.bytes ++ (p.padded ++ List.replicate 8 0)

/-- What a receiver gets of a packet. -/
def delivered (p : Packet) (capacity : Nat) : Received :=
  ⟨p.padded.take capacity, p.padded.length, p.requestId.toNat, packetDataInband⟩

theorem padded_length (p : Packet) : p.padded.length = p.alignedLength - 16 := by
  rw [padded, List.length_append, List.length_replicate]
  unfold alignedLength
  omega

theorem descriptor_length (p : Packet) : p.descriptor.bytes.length = 16 := by
  simp [Descriptor.bytes]

theorem frame_length (p : Packet) : p.frame.length = p.alignedLength + 8 := by
  rw [frame, List.length_append, List.length_append, List.length_replicate, descriptor_length,
    padded_length]
  unfold alignedLength
  omega

theorem alignedLength_bounds (p : Packet) :
    16 + p.payload.length ≤ p.alignedLength ∧ p.alignedLength ≤ 4112 := by
  have := p.small
  unfold alignedLength
  omega

end Packet

/-- A descriptor whose fields fit is read back as it was written. -/
theorem Descriptor.ofBytes_bytes (d : Descriptor) (ht : d.type < 256 ^ 2)
    (ho : d.offset8 < 256 ^ 2) (hl : d.len8 < 256 ^ 2) (hf : d.flags < 256 ^ 2)
    (hi : d.transId < 256 ^ 8) :
    Descriptor.ofBytes d.bytes = d := by
  have h4 : d.bytes.drop 4 = (d.bytes.drop 2).drop 2 := by rw [List.drop_drop]
  have h6 : d.bytes.drop 6 = (d.bytes.drop 4).drop 2 := by rw [List.drop_drop]
  have h8 : d.bytes.drop 8 = (d.bytes.drop 6).drop 2 := by rw [List.drop_drop]
  have h2 : d.bytes.drop 2 = _ := List.drop_left' (leBytes_length 2 _)
  rw [h2, List.drop_left' (leBytes_length 2 _)] at h4
  rw [h4, List.drop_left' (leBytes_length 2 _)] at h6
  rw [h6, List.drop_left' (leBytes_length 2 _)] at h8
  have h0 : d.bytes.take 2 = _ := List.take_left' (leBytes_length 2 _)
  have hall : (leBytes 8 d.transId).take 8 = leBytes 8 d.transId :=
    List.take_of_length_le (Nat.le_of_eq (leBytes_length 8 _))
  unfold Descriptor.ofBytes
  rw [h0, h2, h4, h6, h8, List.take_left' (leBytes_length 2 _),
    List.take_left' (leBytes_length 2 _), List.take_left' (leBytes_length 2 _), hall]
  simp only [leValue_leBytes]
  rw [Nat.mod_eq_of_lt ht, Nat.mod_eq_of_lt ho, Nat.mod_eq_of_lt hl, Nat.mod_eq_of_lt hf,
    Nat.mod_eq_of_lt hi]

/-! ## Copies -/

section Copies

variable {size : Nat}

theorem copyToRing_put (bytes : List Byte) : ∀ (q : Ring Byte size) (offset : Nat),
    offset % size = q.writeIndex → offset + bytes.length ≤ 2 ^ 32 →
    q.buffered + bytes.length ≤ size →
    copyToRing size q.cells offset bytes = (q.put bytes).2.cells := by
  induction bytes with
  | nil => exact fun _ _ _ _ _ => rfl
  | cons b bytes ih =>
    intro q offset hoff hfit hroom
    rw [List.length_cons] at hfit hroom
    have hlt : q.buffered < size := by omega
    unfold copyToRing Ring.put
    rw [dif_pos hlt, Nat.mod_eq_of_lt (show offset < 2 ^ 32 by omega), hoff]
    refine ih (q.push b hlt) (offset + 1) ?_ (by omega) ?_
    · show (offset + 1) % size = (q.writeIndex + 1) % size
      rw [← hoff, Nat.mod_add_mod]
    · show q.buffered + 1 + bytes.length ≤ size
      omega

/-- One copy into the ring appends to the queue. -/
structure Appended (q : Ring Byte size) (bytes : List Byte) (buffer : Store) (writeIndex : Nat)
    (q' : Ring Byte size) : Prop where
  cells : buffer = q'.cells
  write : writeIndex = q'.writeIndex
  read : q'.readIndex = q.readIndex
  buffered : q'.buffered = q.buffered + bytes.length
  contents : q'.contents = q.contents ++ bytes

theorem writeIndex_lt (q : Ring Byte size) : q.writeIndex < size := by
  rw [q.wraps]
  exact Nat.mod_lt _ (Nat.zero_lt_of_lt q.inside)

theorem copyToRing_appends (q : Ring Byte size) (bytes : List Byte)
    (hroom : q.buffered + bytes.length ≤ size) (hfit : size + bytes.length ≤ 2 ^ 32) :
    ∃ q' : Ring Byte size, Appended q bytes (copyToRing size q.cells q.writeIndex bytes)
      ((q.writeIndex + bytes.length) % 2 ^ 32 % size) q' := by
  have hw := writeIndex_lt q
  obtain ⟨hc, hr, hb⟩ := q.put_room bytes hroom
  refine ⟨(q.put bytes).2, copyToRing_put bytes q _ (Nat.mod_eq_of_lt hw) (by omega) hroom, ?_, hr,
    hb, hc⟩
  rw [Nat.mod_eq_of_lt (show q.writeIndex + bytes.length < 2 ^ 32 by omega),
    (q.put bytes).2.wraps, hr,
    hb, q.wraps, Nat.mod_add_mod, Nat.add_assoc]

theorem Appended.trans {q q' q'' : Ring Byte size} {a b : List Byte} {buffer buffer' : Store}
    {w w' : Nat} (h : Appended q a buffer w q') (h' : Appended q' b buffer' w' q'') :
    Appended q (a ++ b) buffer' w' q'' := by
  refine ⟨h'.cells, h'.write, h'.read.trans h.read, ?_, ?_⟩
  · rw [h'.buffered, h.buffered, List.length_append, Nat.add_assoc]
  · rw [h'.contents, h.contents, List.append_assoc]

/-- A copy out of the ring reads from the queue. -/
theorem copyFromRing_eq (q : Ring Byte size) (offset n : Nat) (h : offset + n ≤ q.buffered)
    (hfit : q.readIndex + offset + n ≤ 2 ^ 32) :
    copyFromRing q.cells size (q.readIndex + offset) n = (q.contents.drop offset).take n := by
  refine List.ext_getElem ?_ fun k hk _ => ?_
  · simp only [copyFromRing, List.length_map, List.length_range, List.length_take, List.length_drop,
      Ring.contents_length]
    omega
  · have hk : k < n := by simpa [copyFromRing] using hk
    simp only [copyFromRing, Ring.contents, List.getElem_map, List.getElem_range, List.getElem_take,
      List.getElem_drop]
    rw [Nat.mod_eq_of_lt (show q.readIndex + offset + k < 2 ^ 32 by omega), Nat.add_assoc]

end Copies

/-! ## One call -/

section Calls

variable {pages : RingPages} {r : VmbusRing} {q : Ring Byte (ringDataSize pages.count)}

theorem RingPages.size_bounds (pages : RingPages) :
    4096 ≤ ringDataSize pages.count ∧ ringDataSize pages.count + 8192 ≤ 2 ^ 32 := by
  have h := pages.least
  have h' := pages.fits
  unfold ringDataSize
  omega

/-- The ring holds a queue of bytes, with a byte to spare. -/
structure Carries (pages : RingPages) (r : VmbusRing) (q : Ring Byte (ringDataSize pages.count)) :
    Prop where
  cells : r.buffer = q.cells
  write : r.writeIndex = q.writeIndex
  read : r.readIndex = q.readIndex
  inbound : r.inboundReadIndex = q.readIndex
  spare : q.buffered < ringDataSize pages.count

/-- Where the write index is: ahead of the read index, or a turn further. -/
theorem Carries.turn (h : Carries pages r q) : r.writeIndex = r.readIndex + q.buffered ∨
    r.writeIndex + ringDataSize pages.count = r.readIndex + q.buffered := by
  have hin := q.inside
  have hsp := h.spare
  rw [h.write, h.read, q.wraps]
  rcases Nat.lt_or_ge (q.readIndex + q.buffered) (ringDataSize pages.count) with hlt | hge
  · exact Or.inl (Nat.mod_eq_of_lt hlt)
  · right
    rw [Nat.mod_eq_sub_mod hge, Nat.mod_eq_of_lt (by omega)]
    omega

theorem Carries.bytesToWrite (h : Carries pages r q) :
    r.bytesToWrite pages.count = ringDataSize pages.count - q.buffered := by
  have hb := pages.size_bounds
  have hsp := h.spare
  unfold VmbusRing.bytesToWrite
  rcases h.turn with ht | ht
  · rw [if_pos (by omega)]
    omega
  · rw [if_neg (by omega)]
    omega

theorem Carries.bytesToRead (h : Carries pages r q) : r.bytesToRead pages.count = q.buffered := by
  have hb := pages.size_bounds
  have hsp := h.spare
  have hin := q.inside
  have hr := h.read
  unfold VmbusRing.bytesToRead
  rcases h.turn with ht | ht
  · rw [if_pos (by omega)]
    omega
  · rw [if_neg (by omega)]
    omega

/-- A send appends the frame, if there is more room than it needs, and does nothing else. -/
theorem Carries.send (h : Carries pages r q) (p : Packet) :
    (r.sendInband pages.count p.payload p.requestId.toNat p.flags.toNat).2
        = decide (p.frame.length < ringDataSize pages.count - q.buffered) ∧
      ∃ q', Carries pages
          (r.sendInband pages.count p.payload p.requestId.toNat p.flags.toNat).1 q' ∧
        q'.contents = q.contents ++
          if p.frame.length < ringDataSize pages.count - q.buffered then p.frame else [] := by
  have hb := pages.size_bounds
  obtain ⟨hge, hle⟩ := p.alignedLength_bounds
  have hpacket : (16 + p.payload.length) % 2 ^ 32 = 16 + p.payload.length :=
    Nat.mod_eq_of_lt (by omega)
  have halign : alignUp8 (16 + p.payload.length) = p.alignedLength := by
    unfold alignUp8 Packet.alignedLength
    omega
  have htotal : (p.alignedLength + 8) % 2 ^ 32 = p.frame.length := by
    rw [p.frame_length, Nat.mod_eq_of_lt (by omega)]
  unfold VmbusRing.sendInband
  dsimp only
  rw [hpacket, halign, htotal, h.bytesToWrite]
  rcases Nat.lt_or_ge p.frame.length (ringDataSize pages.count - q.buffered) with hroom | hroom
  · rw [if_neg (by omega), decide_eq_true hroom, if_pos hroom]
    refine ⟨rfl, ?_⟩
    rw [p.frame_length] at hroom
    rw [show p.alignedLength / 8 % 2 ^ 16 = p.alignedLength / 8 from Nat.mod_eq_of_lt (by omega)]
    -- the four pieces, one after the other
    have hd := p.descriptor_length
    obtain ⟨q₁, h₁⟩ := copyToRing_appends q p.descriptor.bytes (by omega) (by omega)
    have hb₁ := h₁.buffered
    obtain ⟨q₂, h₂⟩ := copyToRing_appends q₁ p.payload (by omega) (by omega)
    have hb₂ := h₂.buffered
    obtain ⟨pad, hpad⟩ : ∃ pad : List Byte,
      pad = List.replicate (p.alignedLength - (16 + p.payload.length)) 0 := ⟨_, rfl⟩
    have hpl : pad.length = p.alignedLength - (16 + p.payload.length) := by
      rw [hpad, List.length_replicate]
    obtain ⟨q₃, h₃⟩ : ∃ q₃, Appended q₂ pad
        (if p.alignedLength > 16 + p.payload.length
          then (copyToRing (ringDataSize pages.count) q₂.cells q₂.writeIndex pad,
            (q₂.writeIndex + pad.length) % 2 ^ 32 % ringDataSize pages.count)
          else (q₂.cells, q₂.writeIndex)).1
        (if p.alignedLength > 16 + p.payload.length
          then (copyToRing (ringDataSize pages.count) q₂.cells q₂.writeIndex pad,
            (q₂.writeIndex + pad.length) % 2 ^ 32 % ringDataSize pages.count)
          else (q₂.cells, q₂.writeIndex)).2 q₃ := by
      split
      · exact copyToRing_appends q₂ pad (by omega) (by omega)
      · have hnil : pad = [] := List.length_eq_zero_iff.mp (by omega)
        rw [hnil]
        exact ⟨q₂, rfl, rfl, rfl, rfl, (List.append_nil _).symm⟩
    have hb₃ := h₃.buffered
    obtain ⟨q₄, h₄⟩ := copyToRing_appends q₃ (List.replicate 8 0) (by simp; omega) (by simp; omega)
    have hall := ((h₁.trans h₂).trans h₃).trans h₄
    have hw₁ := h₁.write
    have hw₄ := h₄.write
    have hb₄ := h₄.buffered
    rw [hd] at hw₁
    rw [List.length_replicate] at hw₄ hb₄
    rw [h.cells, h.write, show (⟨packetDataInband, 2, p.alignedLength / 8, p.flags.toNat % 2 ^ 16,
      p.requestId.toNat⟩ : Descriptor) = p.descriptor from rfl, h₁.cells, hw₁, h₂.cells, h₂.write,
      ← hpad, h₃.cells, h₃.write, hw₄, h₄.cells]
    refine ⟨q₄, ⟨rfl, rfl, h.read.trans hall.read.symm, h.inbound.trans hall.read.symm, by omega⟩,
      ?_⟩
    rw [hall.contents, Packet.frame, Packet.padded, ← hpad]
    simp only [List.append_assoc]
  · rw [if_pos hroom, decide_eq_false (by omega), if_neg (by omega)]
    exact ⟨rfl, q, h, (List.append_nil _).symm⟩

theorem Carries.recv_none (h : Carries pages r q) (hc : q.contents = []) (capacity : Nat) :
    r.recvPacket pages.count capacity = (r, none) := by
  have hb := q.contents_length
  rw [hc, List.length_nil] at hb
  unfold VmbusRing.recvPacket
  rw [h.bytesToRead, if_pos (by omega)]

theorem Packet.descriptor_read (p : Packet) :
    Descriptor.ofBytes p.descriptor.bytes = p.descriptor := by
  have hle := p.alignedLength_bounds
  refine Descriptor.ofBytes_bytes p.descriptor (show 6 < 256 ^ 2 by decide)
    (show 2 < 256 ^ 2 by decide) ?_ ?_ ?_
  · show p.alignedLength / 8 < 65536
    omega
  · show p.flags.toNat % 2 ^ 16 < 65536
    omega
  · exact p.requestId.toNat_lt

/-- A receive takes the first frame off. -/
theorem Carries.recv_some (h : Carries pages r q) {p : Packet} {rest : List Byte}
    (hc : q.contents = p.frame ++ rest) (capacity : Nat) :
    (r.recvPacket pages.count capacity).2 = some (p.delivered capacity) ∧
      ∃ q', Carries pages (r.recvPacket pages.count capacity).1 q' ∧ q'.contents = rest := by
  have hb := pages.size_bounds
  have hin := q.inside
  have hsp := h.spare
  obtain ⟨hge, hle⟩ := p.alignedLength_bounds
  have hfl := p.frame_length
  have hpl := p.padded_length
  have hlen := q.contents_length
  rw [hc, List.length_append] at hlen
  have hdesc : copyFromRing q.cells (ringDataSize pages.count) q.readIndex 16
      = p.descriptor.bytes := by
    have heq := copyFromRing_eq q 0 16 (by omega) (by omega)
    rw [Nat.add_zero, List.drop_zero, hc, Packet.frame, List.append_assoc,
      List.take_left' p.descriptor_length] at heq
    exact heq
  have hlen8 : p.descriptor.len8 * 8 = p.alignedLength := by
    show p.alignedLength / 8 * 8 = p.alignedLength
    unfold Packet.alignedLength
    omega
  have hpayload : copyFromRing q.cells (ringDataSize pages.count) (q.readIndex + 16)
      (min p.padded.length capacity) = p.padded.take capacity := by
    rw [copyFromRing_eq q _ _ (by omega) (by omega), hc, Packet.frame, List.append_assoc,
      List.drop_left' p.descriptor_length, List.append_assoc,
      List.take_append_of_le_length (Nat.min_le_left _ _), Nat.min_comm, ← List.take_take,
      List.take_length]
  obtain ⟨htc, hcells, hread, hwrite, hbuf⟩ := q.take_room p.frame.length (by omega)
  have hnext : (if q.readIndex + p.frame.length ≥ ringDataSize pages.count
      then (q.readIndex + p.frame.length) % ringDataSize pages.count
      else q.readIndex + p.frame.length) = (q.take p.frame.length).2.readIndex := by
    rw [hread]
    split
    · rfl
    · exact (Nat.mod_eq_of_lt (by omega)).symm
  unfold VmbusRing.recvPacket
  dsimp only
  rw [h.bytesToRead, if_neg (by omega), h.cells, h.inbound, hdesc, p.descriptor_read, hlen8,
    show p.descriptor.offset8 * 8 = 16 from rfl,
    show (p.alignedLength + 2 ^ 32 - 16) % 2 ^ 32 = p.padded.length by omega,
    Nat.mod_eq_of_lt (show q.readIndex + 16 < 2 ^ 32 by omega), hpayload,
    show (q.readIndex + p.alignedLength + 8) % 2 ^ 32
      = q.readIndex + p.frame.length by omega, hnext]
  refine ⟨rfl, (q.take p.frame.length).2, ⟨?_, ?_, rfl, rfl, by omega⟩, ?_⟩
  · rw [hcells]
  · rw [hwrite]
    exact h.write
  · rw [htc, hc, List.drop_left]

end Calls

/-! ## Runs -/

/-- The history and the ring agree: what was received is the first part of what was sent,
and the frames of the rest are in the ring. -/
structure Agrees (pages : RingPages) (l : Link) : Prop where
  queue : ∃ done pending q, l.sent = done ++ pending ∧
    List.Forall₂ (fun r p => r.2 = Packet.delivered p r.1) l.received done ∧
    Carries pages l.ring q ∧ q.contents = (pending.map Packet.frame).flatten

theorem step_agrees (pages : RingPages) (l : Link) (c : RingCall) (h : Agrees pages l) :
    Agrees pages (l.step pages c) := by
  obtain ⟨done, pending, q, hsent, hrecv, hq, hc⟩ := h.queue
  cases c with
  | send p =>
    obtain ⟨hok, q', hq', hc'⟩ := hq.send p
    have hok : (l.send pages p).2 = _ := hok
    by_cases hroom : p.frame.length < ringDataSize pages.count - q.buffered
    · rw [decide_eq_true hroom] at hok
      rw [if_pos hroom, hc] at hc'
      refine ⟨done, pending ++ [p], q', ?_, hrecv, hq', ?_⟩
      · show (if (l.send pages p).2 then l.sent ++ [p] else l.sent) = _
        rw [if_pos hok, hsent, List.append_assoc]
      · rw [hc']
        simp
    rw [decide_eq_false hroom] at hok
    rw [if_neg hroom, List.append_nil, hc] at hc'
    refine ⟨done, pending, q', ?_, hrecv, hq', hc'⟩
    show (if (l.send pages p).2 then l.sent ++ [p] else l.sent) = _
    rw [if_neg (by rw [hok]; simp), hsent]
  | recv capacity =>
    cases pending with
    | nil =>
      have hnone := hq.recv_none hc capacity
      refine ⟨done, [], q, hsent, ?_, ?_, hc⟩
      · show List.Forall₂ _ (l.received ++ _) _
        rw [hnone]
        simpa using hrecv
      · show Carries pages (l.ring.recvPacket pages.count capacity).1 q
        rw [hnone]
        exact hq
    | cons p pending =>
      obtain ⟨hsome, q', hq', hc'⟩ := hq.recv_some hc capacity
      refine ⟨done ++ [p], pending, q', by rw [List.append_assoc]; exact hsent, ?_, hq', hc'⟩
      show List.Forall₂ _ (l.received ++ _) _
      rw [hsome]
      exact List.rel_append hrecv (.cons rfl .nil)

theorem fresh_agrees (pages : RingPages) {start : Nat} (hs : start < ringDataSize pages.count)
    (signals : Nat) (buffer : Store) : Agrees pages (Link.fresh start signals buffer) := by
  have hw : start = (start + 0) % ringDataSize pages.count := (Nat.mod_eq_of_lt hs).symm
  exact ⟨[], [], ⟨buffer, start, start, 0, hs, Nat.zero_le _, hw⟩, rfl, .nil,
    ⟨rfl, rfl, rfl, rfl, Nat.zero_lt_of_lt hs⟩, rfl⟩

/-- The contract of a ring, after some calls. -/
structure RoundTrip (pages : RingPages) (l : Link) : Prop where
  /-- Into buffers that are large enough, the packets come out as they went in. -/
  in_order : (∀ r ∈ l.received, r.2.size ≤ r.1) →
    l.received.map Prod.snd = (l.sent.take l.received.length).map fun p =>
      ⟨p.padded, p.padded.length, p.requestId.toNat, packetDataInband⟩
  /-- A send fails only for lack of room. -/
  refused : ∀ p, (l.send pages p).2 = false →
    ringDataSize pages.count - (l.pending.map fun p => p.frame.length).sum < p.frame.length + 1
  /-- A receive returns 0 exactly when nothing is pending. -/
  drained : ∀ capacity, (l.ring.recvPacket pages.count capacity).2 = none ↔ l.pending = []

theorem Agrees.roundTrip {pages : RingPages} {l : Link} (h : Agrees pages l) :
    RoundTrip pages l := by
  obtain ⟨done, pending, q, hsent, hrecv, hq, hc⟩ := h.queue
  have hlen : done.length = l.received.length := hrecv.length_eq.symm
  have hpending : l.pending = pending := by
    unfold Link.pending
    rw [hsent, List.drop_left' hlen]
  refine ⟨fun hfit => ?_, fun p hp => ?_, fun capacity => ?_⟩
  · rw [hsent, List.take_left' hlen]
    clear hlen hsent
    generalize l.received = received at hrecv hfit
    induction hrecv with
    | nil => rfl
    | @cons r p received done hr _ ih =>
      have hcap := hfit r (List.mem_cons_self ..)
      rw [List.map_cons, List.map_cons, ih fun r' hr' => hfit r' (List.mem_cons_of_mem _ hr')]
      rw [hr] at hcap ⊢
      rw [Packet.delivered, List.take_of_length_le hcap]
  · have hok : (l.send pages p).2 = _ := (hq.send p).1
    have hroom := of_decide_eq_false (hok.symm.trans hp)
    have hbuf : q.buffered = (pending.map fun p => p.frame.length).sum := by
      rw [← q.contents_length, hc, List.length_flatten, List.map_map]
      rfl
    rw [hpending, ← hbuf]
    omega
  · rw [hpending]
    cases pending with
    | nil =>
      rw [hq.recv_none hc capacity]
      simp
    | cons p pending =>
      rw [(hq.recv_some hc capacity).1]
      simp

/-- **Rings carry packets.** Over every interleaving of sends and receives on a ring that
starts empty, the packets received are those whose send returned 0, in order, none lost and
none twice; a send fails only for lack of room, and a receive returns 0 exactly when
nothing is pending. -/
theorem run_roundTrip (pages : RingPages) (start : Fin (ringDataSize pages.count)) (signals : Nat)
    (buffer : Store) (calls : List RingCall) :
    RoundTrip pages (run (Link.step pages) (Link.fresh start signals buffer) calls) :=
  (run_invariant (step_agrees pages) calls (fresh_agrees pages start.isLt signals buffer)).roundTrip

/-- A packet of three bytes whose frame wraps. -/
example :
    (run (Link.step ⟨2, by decide, by decide⟩) (Link.fresh 4090 0 fun _ => 0xFF)
      [.send ⟨[1, 2, 3], by decide, 77, 1⟩, .recv 64, .recv 64]).received
    = [(64, ⟨[1, 2, 3, 0, 0, 0, 0, 0], 8, 77, 6⟩)] := by decide +kernel

/-! ## Receiving from a host that may write anything

`vmbus_recv_packet` waits for the 16 bytes of a descriptor and believes what they say. The
receiving end of an open channel has two pages (`vmbus_open_channel` takes no more), and the read
indices are the guest's own; the bytes and the write index are the host's. -/

/-- The receiving end of an open channel. -/
structure Inbound where
  ring : VmbusRing
  write : ring.writeIndex < ringDataSize 2
  read : ring.readIndex < ringDataSize 2
  own : ring.inboundReadIndex = ring.readIndex

namespace Inbound

/-- The descriptor at the read index. -/
def descriptor (b : Inbound) : Descriptor :=
  Descriptor.ofBytes (copyFromRing b.ring.buffer (ringDataSize 2) b.ring.readIndex 16)

/-- The bytes of the packet that the descriptor claims, with the trailer. -/
def framedLength (b : Inbound) : Nat := b.descriptor.len8 * 8 + 8

/-- `vmbus_recv_packet` keeps the read indices below the size of the ring. -/
def recv (b : Inbound) (capacity : Nat) : Inbound × Option Received :=
  (⟨(b.ring.recvPacket 2 capacity).1, by
      unfold VmbusRing.recvPacket
      split <;> exact b.write, by
      unfold VmbusRing.recvPacket
      split
      · exact b.read
      · dsimp only
        split
        · exact Nat.mod_lt _ (by decide)
        · omega, by
      unfold VmbusRing.recvPacket
      split
      · exact b.own
      · rfl⟩,
    (b.ring.recvPacket 2 capacity).2)

/-- What a receive that returns 1 has to satisfy. -/
def Tolerates (b : Inbound) (capacity : Nat) : Prop :=
  ∀ r ∈ (b.recv capacity).2,
    -- the whole frame was there
    b.framedLength ≤ b.ring.bytesToRead 2 ∧
    r.size ≤ b.descriptor.len8 * 8 ∧ r.size ≤ ringDataSize 2 ∧
    -- the read index moved by the frame, and not past the write index
    (b.recv capacity).1.ring.readIndex = (b.ring.readIndex + b.framedLength) % ringDataSize 2 ∧
    (b.recv capacity).1.ring.bytesToRead 2 + b.framedLength = b.ring.bytesToRead 2 ∧
    r.payload.length ≤ capacity

instance (b : Inbound) (capacity : Nat) : Decidable (b.Tolerates capacity) :=
  inferInstanceAs (Decidable (∀ r ∈ _, _))

theorem len8_lt (b : Inbound) : b.descriptor.len8 < 2 ^ 16 ∧ b.descriptor.offset8 < 2 ^ 16 :=
  ⟨leValue_lt (n := 2) (by rw [List.length_take]; omega),
    leValue_lt (n := 2) (by rw [List.length_take]; omega)⟩

/-- Nothing is taken without a descriptor; with one, the packet that it claims. -/
theorem recv_cases (b : Inbound) (capacity : Nat) :
    b.ring.bytesToRead 2 < 16 ∧ (b.recv capacity).2 = none ∨
      16 ≤ b.ring.bytesToRead 2 ∧ ∃ payload, payload.length ≤ capacity ∧
        (b.recv capacity).2 = some ⟨payload,
          (b.descriptor.len8 * 8 + 2 ^ 32 - b.descriptor.offset8 * 8) % 2 ^ 32,
          b.descriptor.transId, b.descriptor.type⟩ ∧
        (b.recv capacity).1.ring.readIndex = (b.ring.readIndex + b.framedLength) % 4096 ∧
        (b.recv capacity).1.ring.writeIndex = b.ring.writeIndex := by
  have hsize : ringDataSize 2 = 4096 := rfl
  obtain ⟨hlen, -⟩ := b.len8_lt
  have hr := b.read
  rw [hsize] at hr
  rcases Nat.lt_or_ge (b.ring.bytesToRead 2) 16 with hfew | hmany
  · refine Or.inl ⟨hfew, ?_⟩
    unfold Inbound.recv VmbusRing.recvPacket
    dsimp only
    rw [if_pos hfew]
  refine Or.inr ⟨hmany, ?_⟩
  have hdesc : Descriptor.ofBytes (copyFromRing b.ring.buffer 4096 b.ring.readIndex 16)
    = b.descriptor := rfl
  unfold Inbound.recv VmbusRing.recvPacket Inbound.framedLength
  dsimp only
  rw [if_neg (by omega), b.own, hsize, hdesc]
  refine ⟨_, ?_, rfl, ?_, rfl⟩
  · rw [copyFromRing, List.length_map, List.length_range]
    exact Nat.min_le_right _ _
  · dsimp only
    rw [Nat.mod_eq_of_lt (show b.ring.readIndex + b.descriptor.len8 * 8 + 8 < 2 ^ 32 by omega),
      ← Nat.add_assoc]
    split
    · rfl
    · exact (Nat.mod_eq_of_lt (by omega)).symm

end Inbound

/-- **A receive is sound exactly if the descriptor is**: there is none yet, or the frame it claims
is in the ring and its payload does not start behind its end. -/
theorem recv_tolerates_iff (b : Inbound) (capacity : Nat) : b.Tolerates capacity ↔
    b.ring.bytesToRead 2 < 16 ∨
      (b.framedLength ≤ b.ring.bytesToRead 2 ∧ b.descriptor.offset8 ≤ b.descriptor.len8) := by
  have hsize : ringDataSize 2 = 4096 := rfl
  obtain ⟨hlen, hoff⟩ := b.len8_lt
  have hw := b.write
  have hr := b.read
  rw [hsize] at hw hr
  unfold Inbound.Tolerates
  rcases b.recv_cases capacity with ⟨hfew, hnone⟩ | ⟨hmany, payload, hcap, hsome, hnext, hsame⟩
  · rw [hnone]
    exact ⟨fun _ => Or.inl hfew, fun _ r hr => absurd hr (by simp)⟩
  · rw [hsome, hnext, hsize]
    simp only [Option.mem_some_iff, forall_eq']
    have hbytes : b.framedLength ≤ b.ring.bytesToRead 2 →
        (b.recv capacity).1.ring.bytesToRead 2 + b.framedLength = b.ring.bytesToRead 2 := by
      unfold VmbusRing.bytesToRead
      rw [hnext, hsame, hsize]
      split <;> split <;> omega
    have hframed : b.framedLength = b.descriptor.len8 * 8 + 8 := rfl
    have hmax : b.ring.bytesToRead 2 < 4096 := by
      unfold VmbusRing.bytesToRead
      rw [hsize]
      split <;> omega
    constructor
    · rintro ⟨hwhole, hlen8, -⟩
      exact Or.inr ⟨hwhole, by omega⟩
    · rintro (hfew | ⟨hwhole, horder⟩)
      · omega
      · exact ⟨hwhole, by omega, by omega, trivial, hbytes hwhole, hcap⟩

/-- A descriptor alone that claims a packet of 800 bytes, and one of 64 bytes whose payload starts
at byte 80: both are received. -/
theorem recv_believes_descriptor :
    ¬ (⟨⟨16, 0, 0, fun a => if a = 4 then 100 else 0, 0⟩, by decide, by decide, rfl⟩ :
        Inbound).Tolerates 64 ∧
      ¬ (⟨⟨256, 0, 0, fun a => if a = 4 then 8 else if a = 2 then 10 else 0, 0⟩, by decide,
        by decide, rfl⟩ : Inbound).Tolerates 64 := by
  decide +kernel

end Riverix.Hyperv
