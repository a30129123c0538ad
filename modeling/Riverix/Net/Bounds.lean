import Riverix.Net.Stack

/-!
# Parsing stays inside the frame (`net.c`)

`process_frame` and the parsers below it overlay structures on the frame buffer. Here they are
written with every read of a byte logged: a `Read` is a value with the offsets that were read
for it, in order. The buffer holds anything behind the frame.

`Read.Within` is kept by sequencing, so the bound of a parser is the bound of its parts, and the
length tests give it for each part. The values are those of `NetState.processFrame`
(`readFrame_value`), which is about the bytes of the frame alone.
-/

namespace Riverix.Net

open Riverix.Lib

/-- A value, and the offsets that were read for it. -/
structure Read (α : Type) where
  offsets : List Nat
  value : α

namespace Read

variable {α β : Type} {x : Read α} {f : α → Read β} {bound : Nat}

instance : Monad Read where
  pure a := ⟨[], a⟩
  bind x f := ⟨x.offsets ++ (f x.value).offsets, (f x.value).value⟩

@[simp] theorem value_pure (a : α) : (pure a : Read α).value = a := rfl

@[simp] theorem value_bind (x : Read α) (f : α → Read β) :
    (x >>= f).value = (f x.value).value := rfl

/-- Every offset is below the bound. -/
def Within (bound : Nat) (x : Read α) : Prop := ∀ i ∈ x.offsets, i < bound

theorem Within.pure (a : α) : Within bound (pure a : Read α) := fun _ h => absurd h List.not_mem_nil

theorem Within.bind (hx : x.Within bound) (hf : (f x.value).Within bound) :
    (x >>= f).Within bound :=
  fun i hi => (List.mem_append.mp hi).elim (hx i) (hf i)

end Read

open Read

/-! ## Fields -/

/-- The byte at this offset. -/
def readByte (buffer : Store) (i : Nat) : Read Byte := ⟨[i], buffer i⟩

/-- `net_ntohs` of the field at this offset. -/
def read16 (buffer : Store) (i : Nat) : Read Nat := do
  let high ← readByte buffer i
  let low ← readByte buffer (i + 1)
  pure (high.toNat * 256 + low.toNat)

/-- `net_ntohl` of the field at this offset. -/
def read32 (buffer : Store) (i : Nat) : Read Nat := do
  let high ← read16 buffer i
  let low ← read16 buffer (i + 2)
  pure (high * 65536 + low)

/-- `copy_bytes` out of the buffer. -/
def readBytes (buffer : Store) : Nat → Nat → Read (List Byte)
  | _, 0 => pure []
  | i, length + 1 => do
    let b ← readByte buffer i
    let rest ← readBytes buffer (i + 1) length
    pure (b :: rest)

/-- `mac_equal`, which stops at the first difference. -/
def macEqual (buffer : Store) : Nat → List Byte → Read Bool
  | _, [] => pure true
  | i, b :: mac => do
    let a ← readByte buffer i
    if a ≠ b then pure false else macEqual buffer (i + 1) mac

/-- `mac_is_broadcast` -/
def macIsBroadcast (buffer : Store) (i : Nat) :
    Read Bool := macEqual buffer i (List.replicate 6 0xFF)

/-! ## The parsers -/

/-- `process_arp` of the packet at `arp`. -/
def readArp (n : NetState) (buffer : Store) (arp length : Nat) : Read NetState := do
  if length < 28 then return n
  let hardwareType ← read16 buffer arp
  if hardwareType ≠ 1 then return n
  let protocolType ← read16 buffer (arp + 2)
  if protocolType ≠ 0x0800 then return n
  let hardwareSize ← readByte buffer (arp + 4)
  if hardwareSize ≠ 6 then return n
  let protocolSize ← readByte buffer (arp + 5)
  if protocolSize ≠ 4 then return n
  let opcode ← read16 buffer (arp + 6)
  let senderIpv4 ← read32 buffer (arp + 14)
  let targetIpv4 ← read32 buffer (arp + 24)
  let senderMac ← readBytes buffer (arp + 8) 6
  let n := n.arpSeen opcode senderIpv4 senderMac
  if opcode = 1 ∧ targetIpv4 = n.ipv4Addr then
    -- the address is copied into both headers of the reply
    let destinationMac ← readBytes buffer (arp + 8) 6
    let targetMac ← readBytes buffer (arp + 8) 6
    return (n.sendArp 2 destinationMac senderIpv4 targetMac).1
  else return n

/-- `send_icmp_echo_reply` with the payload in the buffer. -/
def readReply (n : NetState) (buffer : Store)
    (eth source identifier sequence payload length : Nat) :
    Read NetState := do
  if length > 16 then return n
  let destinationMac ← readBytes buffer (eth + 6) 6
  let bytes ← readBytes buffer payload length
  return (n.sendIcmpEchoReply source destinationMac identifier sequence bytes).1

/-- The test of `process_icmp` for the reply that the ping waits for; the source is read last. -/
def answersPing (n : NetState) (buffer : Store) (ipv4 identifier sequence : Nat) (type : Byte) :
    Read Bool :=
  if type = 0 ∧ n.ping.active = true ∧ n.ping.completed = false ∧ n.ping.stage = .echo then do
    let source ← read32 buffer (ipv4 + 12)
    pure (decide (source = n.ping.destinationIpv4 ∧ identifier = n.ping.identifier
      ∧ sequence = n.ping.sequence))
  else pure false

/-- `process_icmp` of the message at `payload`, with the headers at `eth` and `ipv4`. -/
def readIcmp (n : NetState) (buffer : Store) (eth ipv4 payload length : Nat) : Read NetState := do
  if length < 8 then return n
  let identifier ← read16 buffer (payload + 4)
  let sequence ← read16 buffer (payload + 6)
  let type ← readByte buffer payload
  let answers ← answersPing n buffer ipv4 identifier sequence type
  if answers = true then return n.pingComplete pingOk
  let type ← readByte buffer payload
  if type = 8 then
    let source ← read32 buffer (ipv4 + 12)
    readReply n buffer eth source identifier sequence (payload + 8) (length - 8)
  else return n

/-- `process_ipv4` of the packet at `ipv4`. -/
def readIpv4 (n : NetState) (buffer : Store) (eth ipv4 length : Nat) : Read NetState := do
  if length < 20 then return n
  let versionIhl ← readByte buffer ipv4
  if versionIhl.toNat / 16 ≠ 4 then return n
  let headerLength := versionIhl.toNat % 16 * 4
  if headerLength < 20 ∨ headerLength > length then return n
  let totalLength ← read16 buffer (ipv4 + 2)
  if totalLength < headerLength ∨ totalLength > length then return n
  let destination ← read32 buffer (ipv4 + 16)
  if destination ≠ n.ipv4Addr then return n
  let protocol ← readByte buffer (ipv4 + 9)
  if protocol = 1 then
    readIcmp n buffer eth ipv4 (ipv4 + headerLength) (totalLength - headerLength)
  else return n

/-- The test of `process_frame` for the destination. -/
def addressed (n : NetState) (buffer : Store) : Read Bool := do
  let unicast ← macEqual buffer 0 n.mac
  if unicast = true then return true
  macIsBroadcast buffer 0

/-- `process_frame` -/
def readFrame (n : NetState) (buffer : Store) (length : Nat) : Read NetState := do
  if length < 14 then return n
  let ours ← addressed n buffer
  if ours = false then return n
  let ethertype ← read16 buffer 12
  if ethertype = 0x0806 then readArp n buffer 14 (length - 14)
  else if ethertype = 0x0800 then readIpv4 n buffer 0 14 (length - 14)
  else return n

/-! ## No read leaves the frame -/

section Bounds

variable {n : NetState} {buffer : Store} {i length bound : Nat}

theorem readByte_within (h : i < bound) : (readByte buffer i).Within bound := by
  intro j hj
  rw [List.mem_singleton.mp hj]
  exact h

theorem read16_within (h : i + 2 ≤ bound) : (read16 buffer i).Within bound :=
  (readByte_within (by omega)).bind ((readByte_within (by omega)).bind (.pure _))

theorem read32_within (h : i + 4 ≤ bound) : (read32 buffer i).Within bound :=
  (read16_within (by omega)).bind ((read16_within (by omega)).bind (.pure _))

theorem readBytes_within (h : i + length ≤ bound) : (readBytes buffer i length).Within bound := by
  induction length generalizing i with
  | zero => exact .pure _
  | succ length ih => exact (readByte_within (by omega)).bind ((ih (by omega)).bind (.pure _))

theorem macEqual_within {mac : List Byte} (h : i + mac.length ≤ bound) :
    (macEqual buffer i mac).Within bound := by
  induction mac generalizing i with
  | nil => exact .pure _
  | cons b mac ih =>
    rw [List.length_cons] at h
    refine (readByte_within (by omega)).bind ?_
    split
    · exact .pure _
    · exact ih (by omega)

theorem readArp_within {arp : Nat} (h : arp + length ≤ bound) :
    (readArp n buffer arp length).Within bound := by
  unfold readArp
  split
  · exact .pure _
  next hlength =>
  refine (read16_within (by omega)).bind ?_
  split
  · exact .pure _
  refine (read16_within (by omega)).bind ?_
  split
  · exact .pure _
  refine (readByte_within (by omega)).bind ?_
  split
  · exact .pure _
  refine (readByte_within (by omega)).bind ?_
  split
  · exact .pure _
  refine (read16_within (by omega)).bind ((read32_within (by omega)).bind
    ((read32_within (by omega)).bind ((readBytes_within (by omega)).bind ?_)))
  dsimp only
  split
  · exact (readBytes_within (by omega)).bind ((readBytes_within (by omega)).bind (.pure _))
  · exact .pure _

theorem readReply_within {eth source identifier sequence payload : Nat} (heth : eth + 12 ≤ bound)
    (h : payload + length ≤ bound) :
    (readReply n buffer eth source identifier sequence payload length).Within bound := by
  unfold readReply
  split
  · exact .pure _
  · exact (readBytes_within (by omega)).bind ((readBytes_within h).bind (.pure _))

theorem answersPing_within {ipv4 identifier sequence : Nat} {type : Byte} (h : ipv4 + 20 ≤ bound) :
    (answersPing n buffer ipv4 identifier sequence type).Within bound := by
  unfold answersPing
  split
  · exact (read32_within (by omega)).bind (.pure _)
  · exact .pure _

theorem readIcmp_within {eth ipv4 payload : Nat} (heth : eth + 12 ≤ bound)
    (hipv4 : ipv4 + 20 ≤ bound) (h : payload + length ≤ bound) :
    (readIcmp n buffer eth ipv4 payload length).Within bound := by
  unfold readIcmp
  split
  · exact .pure _
  refine (read16_within (by omega)).bind ((read16_within (by omega)).bind
    ((readByte_within (by omega)).bind ((answersPing_within hipv4).bind ?_)))
  split
  · exact .pure _
  refine (readByte_within (by omega)).bind ?_
  split
  · exact (read32_within (by omega)).bind (readReply_within heth (by omega))
  · exact .pure _

/-- The message is between the end of the header and the total length, which the tests put in
order below the length of the packet. -/
theorem readIpv4_within {eth ipv4 : Nat} (heth : eth + 12 ≤ bound) (h : ipv4 + length ≤ bound) :
    (readIpv4 n buffer eth ipv4 length).Within bound := by
  unfold readIpv4
  split
  · exact .pure _
  refine (readByte_within (by omega)).bind ?_
  split
  · exact .pure _
  dsimp only
  split
  · exact .pure _
  refine (read16_within (by omega)).bind ?_
  split
  · exact .pure _
  refine (read32_within (by omega)).bind ?_
  split
  · exact .pure _
  refine (readByte_within (by omega)).bind ?_
  split
  · exact readIcmp_within heth (by omega) (by omega)
  · exact .pure _

theorem addressed_within (hmac : n.mac.length = 6) (h : 6 ≤ bound) :
    (addressed n buffer).Within bound := by
  refine (macEqual_within (by omega)).bind ?_
  split
  · exact .pure _
  · exact macEqual_within (by rw [List.length_replicate]; omega)

theorem readFrame_within (hmac : n.mac.length = 6) : (readFrame n buffer length).Within length := by
  unfold readFrame
  split
  · exact .pure _
  refine (addressed_within hmac (by omega)).bind ?_
  split
  · exact .pure _
  refine (read16_within (by omega)).bind ?_
  split
  · exact readArp_within (by omega)
  split
  · exact readIpv4_within (by omega) (by omega)
  · exact .pure _

end Bounds

/-! ## The values are those of the frame -/

section Values

variable {n : NetState} {buffer : Store} {i k length : Nat}

theorem readByte_value (h : k < length) :
    (readByte buffer (i + k)).value = (buffer.read i length).getD k 0 :=
  (Store.read_getD h 0).symm

theorem read16_value (h : k + 2 ≤ length) :
    (read16 buffer (i + k)).value = be16 (buffer.read i length) k := by
  unfold be16
  rw [Store.read_getD (by omega), Store.read_getD (by omega)]
  rfl

theorem read32_value (h : k + 4 ≤ length) :
    (read32 buffer (i + k)).value = be32 (buffer.read i length) k := by
  unfold be32
  rw [← read16_value (by omega), ← read16_value (by omega)]
  rfl

theorem readBytes_value : (readBytes buffer i length).value = buffer.read i length := by
  induction length generalizing i with
  | zero => rfl
  | succ length ih =>
    rw [Store.read_succ, ← ih]
    rfl

theorem macEqual_value (mac : List Byte) :
    (macEqual buffer i mac).value = decide (buffer.read i mac.length = mac) := by
  induction mac generalizing i with
  | nil => simp [macEqual]
  | cons b mac ih =>
    rw [List.length_cons, Store.read_succ]
    show (if buffer i ≠ b then pure false else macEqual buffer (i + 1) mac).value = _
    split
    next h => simp [h]
    next h => simp [ih, not_not.mp h]

theorem readArp_value {arp : Nat} :
    (readArp n buffer arp length).value = n.processArp (buffer.read arp length) := by
  unfold readArp NetState.processArp
  rw [Store.read_length]
  by_cases hlength : length < 28
  · rw [if_pos hlength, if_pos (.inl hlength), value_pure]
  have hmac : ((buffer.read arp length).drop 8).take 6 = buffer.read (arp + 8) 6 := by
    rw [Store.read_drop, Store.read_take (by omega)]
  rw [hmac, ← read16_value (k := 0) (by omega), ← read16_value (k := 2) (by omega),
    ← readByte_value (k := 4) (by omega), ← readByte_value (k := 5) (by omega),
    ← read16_value (k := 6) (by omega), ← read32_value (k := 14) (by omega),
    ← read32_value (k := 24) (by omega)]
  simp only [ite_or, apply_ite Read.value, value_bind, value_pure, readBytes_value]
  rfl

theorem readReply_value {eth source identifier sequence payload : Nat} :
    (readReply n buffer eth source identifier sequence payload length).value =
      (n.sendIcmpEchoReply source (buffer.read (eth + 6) 6) identifier sequence
        (buffer.read payload length)).1 := by
  unfold readReply NetState.sendIcmpEchoReply NetState.sendIcmp
  rw [Store.read_length]
  simp only [apply_ite Read.value, value_bind, value_pure, readBytes_value, apply_ite Prod.fst,
    Store.read_length]
  split <;> rfl

theorem answersPing_value {ipv4 identifier sequence : Nat} {type : Byte} :
    (answersPing n buffer ipv4 identifier sequence type).value = true ↔
      type = 0 ∧ n.ping.active = true ∧ n.ping.completed = false ∧ n.ping.stage = .echo
        ∧ (read32 buffer (ipv4 + 12)).value = n.ping.destinationIpv4
        ∧ identifier = n.ping.identifier ∧ sequence = n.ping.sequence := by
  unfold answersPing
  split
  next h =>
    rw [value_bind, value_pure, decide_eq_true_iff]
    exact ⟨fun h' => ⟨h.1, h.2.1, h.2.2.1, h.2.2.2, h'⟩, fun h' => h'.2.2.2.2⟩
  next h =>
    rw [value_pure]
    exact ⟨(by intro h'; cases h'), fun h' => absurd ⟨h'.1, h'.2.1, h'.2.2.1, h'.2.2.2.1⟩ h⟩

theorem readIcmp_value {eth ipv4 payload : Nat} :
    (readIcmp n buffer eth ipv4 payload length).value =
      n.processIcmp (buffer.read (eth + 6) 6) (read32 buffer (ipv4 + 12)).value
        (buffer.read payload length) := by
  unfold readIcmp NetState.processIcmp
  rw [Store.read_length]
  by_cases hlength : length < 8
  · rw [if_pos hlength, if_pos hlength, value_pure]
  rw [← read16_value (k := 4) (by omega), ← read16_value (k := 6) (by omega),
    ← readByte_value (k := 0) (by omega), Store.read_drop]
  simp only [apply_ite Read.value, value_bind, value_pure, readReply_value, answersPing_value]
  rfl

theorem readIpv4_value {eth ipv4 : Nat} :
    (readIpv4 n buffer eth ipv4 length).value =
      n.processIpv4 (buffer.read (eth + 6) 6) (buffer.read ipv4 length) := by
  unfold readIpv4 NetState.processIpv4
  rw [Store.read_length]
  by_cases hlength : length < 20
  · rw [if_pos hlength, if_pos hlength, value_pure]
  rw [← readByte_value (k := 0) (by omega), ← read16_value (k := 2) (by omega),
    ← read32_value (k := 16) (by omega), ← readByte_value (k := 9) (by omega),
    ← read32_value (k := 12) (by omega)]
  simp only [apply_ite Read.value, value_bind, value_pure, readIcmp_value, if_neg hlength,
    Nat.add_zero, Store.read_drop]
  -- the message is cut off at the total length, which is within the packet
  split
  · rfl
  split
  · rfl
  split
  · rfl
  next htotal =>
  rw [Store.read_take (by omega)]

theorem addressed_value (hmac : n.mac.length = 6) :
    (addressed n buffer).value = false ↔
      buffer.read 0 6 ≠ n.mac ∧ buffer.read 0 6 ≠ List.replicate 6 0xFF := by
  unfold addressed macIsBroadcast
  rw [value_bind, macEqual_value, hmac]
  split
  next h => simp [of_decide_eq_true h]
  next h =>
    rw [macEqual_value, List.length_replicate, decide_eq_false_iff_not]
    exact ⟨fun h' => ⟨fun hm => h (decide_eq_true hm), h'⟩, fun h' => h'.2⟩

/-- What the parsers compute is a function of the bytes of the frame. -/
theorem readFrame_value (hmac : n.mac.length = 6) :
    (readFrame n buffer length).value = n.processFrame (buffer.read 0 length) := by
  unfold readFrame NetState.processFrame
  rw [Store.read_length]
  by_cases hlength : length < 14
  · rw [if_pos hlength, if_pos hlength, value_pure]
  rw [← read16_value (k := 12) (by omega), Store.read_drop, Store.read_drop,
    Store.read_take (by omega), Store.read_take (by omega)]
  simp only [apply_ite Read.value, value_bind, value_pure, readArp_value, readIpv4_value,
    if_neg hlength, addressed_value hmac, Nat.zero_add]

end Values

/-! ## Frames for others -/

namespace NetState

variable {n : NetState} {frame : List Byte}

theorem processFrame_other_mac (h : frame.take 6 ≠ n.mac)
    (h' : frame.take 6 ≠ List.replicate 6 0xFF) : n.processFrame frame = n := by
  unfold processFrame
  rw [if_pos (⟨h, h'⟩ : _ ∧ _)]
  split <;> rfl

theorem processIpv4_other_host {ethSource payload : List Byte} (h : be32 payload 16 ≠ n.ipv4Addr) :
    n.processIpv4 ethSource payload = n := by
  unfold processIpv4
  simp only [if_pos h, ite_self]

theorem processFrame_other_host (htype : be16 frame 12 = 0x0800)
    (h : be32 frame 30 ≠ n.ipv4Addr) : n.processFrame frame = n := by
  have hother : be32 (frame.drop 14) 16 ≠ n.ipv4Addr := by rwa [be32_drop]
  unfold processFrame
  rw [htype, if_neg (by decide : ¬ 0x0800 = 0x0806), if_pos rfl,
    processIpv4_other_host hother, ite_self,
    ite_self]

end NetState

/-- **Every byte that is read is a byte of the frame.** Whatever the buffer holds and however
long the frame is, `process_frame` and the parsers it calls read offsets below its length only,
and what comes out is a function of these bytes. A frame for another station, or an IPv4 packet
for another host, leaves the state as it is: no ping changes and nothing is handed to the
driver. -/
theorem parsing_stays_inside (n : NetState) (hmac : n.mac.length = 6) (buffer : Store)
    (length : Nat) :
    (∀ i ∈ (readFrame n buffer length).offsets, i < length) ∧
      (readFrame n buffer length).value = n.processFrame (buffer.read 0 length) ∧
      ((buffer.read 0 length).take 6 ≠ n.mac ∧
          (buffer.read 0 length).take 6 ≠ List.replicate 6 0xFF ∨
        be16 (buffer.read 0 length) 12 = 0x0800 ∧ be32 (buffer.read 0 length) 30 ≠ n.ipv4Addr →
        (readFrame n buffer length).value = n) := by
  refine ⟨readFrame_within hmac, readFrame_value hmac, fun h => ?_⟩
  rw [readFrame_value hmac]
  rcases h with ⟨hours, hall⟩ | ⟨htype, hhost⟩
  · exact NetState.processFrame_other_mac hours hall
  · exact NetState.processFrame_other_host htype hhost

/-- An IPv4 header to this station and another host, in a frame that is cut off behind it: the
type and the address are read, nothing behind the 34 bytes, and nothing happens. -/
theorem parsing_stays_inside_other_host :
    let n := NetState.init true (List.replicate 6 0) fun _ => true
    let buffer : Store := fun k => if k = 12 then 8 else if k = 14 then 0x45 else if k
      = 17 then 20 else 0
    (∀ i ∈ (readFrame n buffer 34).offsets, i < 34) ∧ 33 ∈ (readFrame n buffer 34).offsets ∧
      (readFrame n buffer 34).value = n := by
  intro n buffer
  obtain ⟨hoffsets, -, hother⟩ := parsing_stays_inside n rfl buffer 34
  exact ⟨hoffsets, by decide +kernel, hother (Or.inr ⟨by decide, by decide⟩)⟩

end Riverix.Net
