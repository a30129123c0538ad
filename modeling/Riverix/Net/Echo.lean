import Riverix.Net.Stack

/-!
# The echo responder (`net.c`)

`process_frame` answers an ICMP echo request that is addressed to this host. What it hands to
the driver is put together by `send_icmp`, with a checksum over the IPv4 header and one over
the ICMP message.

A checksum verifies because the carries that are folded back do not change the sum modulo
`65535` (`foldCarries_mod`): the checksum field brings the sum to a multiple of it that is not
0, and folded that is `0xFFFF` (`checksum_verifies`). The reply has all of the request's fields
(`icmpFrame_echo`), but it has room for a payload of 16 bytes only, and a longer request is not
answered at all: **`echo_answered_iff`**.
-/

namespace Riverix.Net

open Riverix.Lib

/-! ## Checksums -/

theorem foldCarries_lt (sum : Nat) : foldCarries sum < 65536 := by
  fun_induction foldCarries sum with
  | case1 sum h => omega
  | case2 sum h ih => exact ih

theorem foldCarries_mod (sum : Nat) : foldCarries sum % 65535 = sum % 65535 := by
  fun_induction foldCarries sum with
  | case1 sum h => rfl
  | case2 sum h ih => omega

theorem foldCarries_pos {sum : Nat} (h : 0 < sum) : 0 < foldCarries sum := by
  fun_induction foldCarries sum with
  | case1 sum hsmall => exact h
  | case2 sum hbig ih => exact ih (by omega)

theorem wordSum_append (bytes more : List Byte) (h : bytes.length % 2 = 0) :
    wordSum (bytes ++ more) = wordSum bytes + wordSum more := by
  fun_induction wordSum bytes with
  | case1 => rw [List.nil_append, Nat.zero_add]
  | case2 b => simp at h
  | case3 b b' bytes ih =>
    rw [List.length_cons, List.length_cons] at h
    rw [List.cons_append, List.cons_append, wordSum, ih (by omega)]
    omega

theorem wordSum_le (bytes : List Byte) : wordSum bytes ≤ 65535 * bytes.length := by
  fun_induction wordSum bytes with
  | case1 => exact Nat.zero_le _
  | case2 b =>
    have := b.isLt
    simp only [List.length_singleton]
    omega
  | case3 b b' bytes ih =>
    have := b.isLt
    have := b'.isLt
    simp only [List.length_cons]
    omega

theorem wordSum_put16 {n : Nat} (h : n < 65536) : wordSum (put16 n) = n := by
  show (BitVec.ofNat 8 (n / 256)).toNat * 256 + (BitVec.ofNat 8 n).toNat + 0 = n
  rw [BitVec.toNat_ofNat, BitVec.toNat_ofNat]
  omega

/-- The one's-complement sum of the words is `0xFFFF`. -/
def Verifies (bytes : List Byte) : Prop := foldCarries (wordSum bytes) = 0xFFFF

theorem checksum16_lt (bytes : List Byte) : checksum16 bytes < 65536 := by
  unfold checksum16
  omega

/-- Bytes verify once their checksum stands in a field that was 0 for it. -/
theorem checksum_verifies (before after : List Byte) (heven : before.length % 2 = 0)
    (hshort : before.length + after.length < 65535) :
    Verifies (before ++ put16 (checksum16 (before ++ put16 0 ++ after)) ++ after) := by
  have hsum : ∀ c < 65536, wordSum (before ++ put16 c ++ after)
      = wordSum before + wordSum after + c := fun c hc => by
    have hlen : (before ++ put16 c).length % 2 = 0 := by
      rw [List.length_append]
      show (before.length + 2) % 2 = 0
      omega
    rw [wordSum_append _ _ hlen, wordSum_append _ _ heven, wordSum_put16 hc]
    omega
  have hlow := wordSum_le before
  have hhigh := wordSum_le after
  have hzero := hsum 0 (by decide)
  have hc := checksum16_lt (before ++ put16 0 ++ after)
  have hcheck : checksum16 (before ++ put16 0 ++ after)
      = 65535 - foldCarries (wordSum before + wordSum after) := by
    have hlt := foldCarries_lt (wordSum before + wordSum after)
    unfold checksum16
    rw [hzero, Nat.add_zero, Nat.mod_eq_of_lt (by omega : _ < 2 ^ 32), Nat.mod_eq_of_lt hlt]
  unfold Verifies
  rw [hsum _ hc, hcheck]
  generalize wordSum before + wordSum after = total
  have hmod := foldCarries_mod total
  have hlt := foldCarries_lt total
  have hpos : 0 < total + (65535 - foldCarries total) := by
    rcases Nat.eq_zero_or_pos total with h | h
    · subst h
      rw [foldCarries]
      decide
    · omega
  have hfold := foldCarries_mod (total + (65535 - foldCarries total))
  have hsmall := foldCarries_lt (total + (65535 - foldCarries total))
  have hbig := foldCarries_pos hpos
  omega

/-! ## Frames -/

/-- `n` is a state of this host: an Ethernet address of six bytes and an IPv4 address. -/
structure Host (n : NetState) : Prop where
  mac : n.mac.length = 6
  ipv4 : n.ipv4Addr < 2 ^ 32

/-- The IPv4 header and the ICMP message of a frame. -/
def headerLength (frame : List Byte) : Nat := (frame.getD 14 0).toNat % 16 * 4
def headerOf (frame : List Byte) : List Byte := (frame.drop 14).take (headerLength frame)
def messageOf (frame : List Byte) : List Byte :=
  (frame.drop (14 + headerLength frame)).take (be16 frame 16 - headerLength frame)

/-- An echo message of this type in an IPv4 packet in an Ethernet frame: every length is right,
the packet is not a fragment, and both checksums verify. Padding may follow. -/
structure EchoFrame (frame : List Byte) (type : Byte) (destinationMac sourceMac : List Byte)
    (destination source identifier sequence : Nat) (payload : List Byte) : Prop where
  destinationMac : frame.take 6 = destinationMac
  sourceMac : (frame.drop 6).take 6 = sourceMac
  ethertype : be16 frame 12 = 0x0800
  version : (frame.getD 14 0).toNat / 16 = 4
  header : 20 ≤ headerLength frame
  total : be16 frame 16 = headerLength frame + 8 + payload.length
  whole : 14 + be16 frame 16 ≤ frame.length
  unfragmented : be16 frame 20 &&& 0x3FFF = 0
  protocol : frame.getD 23 0 = 1
  headerSum : Verifies (headerOf frame)
  source : be32 frame 26 = source
  destination : be32 frame 30 = destination
  type : (messageOf frame).getD 0 0 = type
  code : (messageOf frame).getD 1 0 = 0
  messageSum : Verifies (messageOf frame)
  identifier : be16 (messageOf frame) 4 = identifier
  sequence : be16 (messageOf frame) 6 = sequence
  payload : (messageOf frame).drop 8 = payload

/-- An echo request that is addressed to this host and fits into the frame buffer. -/
structure EchoRequest (n : NetState) (frame requesterMac : List Byte)
    (requester identifier sequence : Nat) (payload : List Byte) : Prop where
  fits : frame.length ≤ 1600
  echo : EchoFrame frame 8 (frame.take 6) requesterMac n.ipv4Addr requester identifier
    sequence payload
  ours : frame.take 6 = n.mac ∨ frame.take 6 = List.replicate 6 0xFF

variable {n : NetState} {frame requesterMac : List Byte} {requester identifier sequence : Nat}
  {payload : List Byte}

/-- The message is what `process_icmp` is given, and the reply is sent with its fields. -/
theorem processFrame_request
    (h : EchoRequest n frame requesterMac requester identifier sequence payload) :
    n.processFrame frame
      = (n.sendIcmpEchoReply requester requesterMac identifier sequence payload).1 := by
  have hecho := h.echo
  have hheader := hecho.header
  have htotal := hecho.total
  have hwhole := hecho.whole
  have hmessage : (messageOf frame).length = 8 + payload.length := by
    unfold messageOf
    rw [List.length_take, List.length_drop]
    omega
  have hlength : (frame.drop 14).length = frame.length - 14 := List.length_drop
  unfold NetState.processFrame
  rw [if_neg (by omega), if_neg (by rcases h.ours with h | h <;> simp [h]),
    if_neg (by rw [hecho.ethertype]; decide), if_pos hecho.ethertype, hecho.sourceMac]
  unfold NetState.processIpv4
  rw [getD_drop, getD_drop, be16_drop, be32_drop, be32_drop, Nat.add_zero, hlength,
    show 14 + 2 = 16 from rfl]
  have hihl : (frame.getD 14 0).toNat % 16 * 4 = headerLength frame := rfl
  rw [if_neg (by omega), if_neg (by rw [hecho.version]; simp)]
  rw [hihl, if_neg (by omega), if_neg (by omega), if_neg (by rw [hecho.destination]; simp),
    if_pos hecho.protocol, List.drop_drop, hecho.source]
  show n.processIcmp requesterMac requester (messageOf frame) = _
  unfold NetState.processIcmp
  rw [if_neg (by omega)]
  rw [hecho.type, if_neg (by simp), if_pos rfl, hecho.identifier, hecho.sequence, hecho.payload]

/-- What `send_icmp` hands to the driver. -/
def icmpFrame (n : NetState) (type : Byte) (destination : Nat) (destinationMac : List Byte)
    (identifier sequence : Nat) (payload : List Byte) : List Byte :=
  destinationMac ++ n.mac ++ put16 0x0800 ++
    n.ipv4Header destination (28 + payload.length) sequence
      (checksum16 (n.ipv4Header destination (28 + payload.length) sequence 0)) ++
    NetState.icmpMessage type identifier sequence
      (checksum16 (NetState.icmpMessage type identifier sequence 0 payload)) payload

theorem sendIcmp_short (n : NetState) (type : Byte) (destination : Nat) (destinationMac : List Byte)
    (identifier sequence : Nat) (h : payload.length ≤ 16) :
    n.sendIcmp type destination destinationMac identifier sequence payload
      = n.sendFrame (icmpFrame n type destination destinationMac identifier sequence payload) := by
  unfold NetState.sendIcmp
  rw [if_neg (by omega)]
  rfl

theorem ipv4Header_verifies (n : NetState) (destination totalLength sequence : Nat) :
    Verifies (n.ipv4Header destination totalLength sequence
      (checksum16 (n.ipv4Header destination totalLength sequence 0))) := by
  have h := checksum_verifies
    ([0x45, 0] ++ put16 totalLength ++ put16 sequence ++ put16 0 ++ [64, 1])
    (put32 n.ipv4Addr ++ put32 destination) (by simp [put16]) (by simp [put16, put32])
  unfold NetState.ipv4Header
  simp only [List.append_assoc] at h ⊢
  exact h

theorem icmpMessage_verifies (type : Byte) (identifier sequence : Nat) (h : payload.length ≤ 1500) :
    Verifies (NetState.icmpMessage type identifier sequence
      (checksum16 (NetState.icmpMessage type identifier sequence 0 payload)) payload) := by
  have hlen : (put16 identifier ++ put16 sequence ++ payload).length = 4 + payload.length := by
    rw [List.length_append]
    rfl
  have hsum := checksum_verifies [type, 0] (put16 identifier ++ put16 sequence ++ payload)
    (by simp) (by rw [hlen]; show 2 + (4 + payload.length) < 65535; omega)
  unfold NetState.icmpMessage
  simp only [List.append_assoc] at hsum ⊢
  exact hsum

theorem ipv4Header_length (n : NetState) (destination totalLength sequence checksum : Nat) :
    (n.ipv4Header destination totalLength sequence checksum).length = 20 := rfl

theorem icmpMessage_length (type : Byte) (identifier sequence checksum : Nat)
    (payload : List Byte) :
    (NetState.icmpMessage type identifier sequence checksum payload).length
      = 8 + payload.length := by
  unfold NetState.icmpMessage
  rw [List.length_append]
  rfl

/-- The fields of a header at the front, at the places where they are looked for. -/
structure HeaderFields (packet : List Byte) (source destination totalLength : Nat) : Prop where
  first : packet.getD 0 0 = 0x45
  total : be16 packet 2 = totalLength
  unfragmented : be16 packet 6 = 0
  protocol : packet.getD 9 0 = 1
  source : be32 packet 12 = source
  destination : be32 packet 16 = destination

theorem ipv4Header_fields (hn : Host n) {destination totalLength : Nat}
    (hdestination : destination < 2 ^ 32) (htotal : totalLength < 65536) (checksum : Nat)
    (rest : List Byte) :
    HeaderFields (n.ipv4Header destination totalLength sequence checksum ++ rest)
      n.ipv4Addr destination totalLength := by
  have hfield := be16_put16 totalLength []
  have hzero := be16_put16 0 []
  have hsource := be32_put32 n.ipv4Addr []
  have htarget := be32_put32 destination []
  rw [Nat.mod_eq_of_lt htotal] at hfield
  rw [Nat.mod_eq_of_lt hn.ipv4] at hsource
  rw [Nat.mod_eq_of_lt hdestination] at htarget
  exact ⟨rfl, hfield, hzero, rfl, hsource, htarget⟩

/-- The fields of a message. -/
structure MessageFields (message : List Byte) (type : Byte) (identifier sequence : Nat)
    (payload : List Byte) : Prop where
  type : message.getD 0 0 = type
  code : message.getD 1 0 = 0
  identifier : be16 message 4 = identifier
  sequence : be16 message 6 = sequence
  payload : message.drop 8 = payload

theorem icmpMessage_fields (type : Byte) (hidentifier : identifier < 65536)
    (hsequence : sequence < 65536) (checksum : Nat) (payload : List Byte) :
    MessageFields (NetState.icmpMessage type identifier sequence checksum payload) type identifier
      sequence payload := by
  have hfirst := be16_put16 identifier []
  have hsecond := be16_put16 sequence []
  rw [Nat.mod_eq_of_lt hidentifier] at hfirst
  rw [Nat.mod_eq_of_lt hsequence] at hsecond
  exact ⟨rfl, rfl, hfirst, hsecond, rfl⟩

/-- A frame put together from a front, a header and a message. -/
theorem echoFrame_of_parts {front header message destinationMac sourceMac : List Byte} {type : Byte}
    {source destination : Nat} (hfront : front.length = 14)
    (hdestinationMac : front.take 6 = destinationMac)
    (hsourceMac : (front.drop 6).take 6 = sourceMac) (hethertype : be16 (front.drop 12) 0 = 0x0800)
    (hheader : header.length = 20)
    (hfields : HeaderFields (header ++ message) source destination (28 + payload.length))
    (hlength : message.length = 8 + payload.length)
    (hmessage : MessageFields message type identifier sequence payload)
    (hheaderSum : Verifies header) (hmessageSum : Verifies message) :
    EchoFrame (front ++ (header ++ message)) type destinationMac sourceMac destination
      source identifier
      sequence payload := by
  have hdrop : (front ++ (header ++ message)).drop 14 = header ++ message := by
    rw [← hfront]
    exact List.drop_left
  have hfirst : (front ++ (header ++ message)).getD 14 0 = 0x45 := by
    rw [← Nat.add_zero 14, ← getD_drop, hdrop]
    exact hfields.first
  have hihl : headerLength (front ++ (header ++ message)) = 20 := by
    unfold headerLength
    rw [hfirst]
    rfl
  have htotal : be16 (front ++ (header ++ message)) 16 = 28 + payload.length := by
    rw [show 16 = 14 + 2 from rfl, ← be16_drop, hdrop]
    exact hfields.total
  have hheaderOf : headerOf (front ++ (header ++ message)) = header := by
    unfold headerOf
    rw [hihl, hdrop, ← hheader]
    exact List.take_left
  have hmessageOf : messageOf (front ++ (header ++ message)) = message := by
    unfold messageOf
    rw [hihl, htotal, ← List.drop_drop, hdrop, ← hheader, List.drop_left]
    refine List.take_of_length_le ?_
    omega
  have hnear : ∀ k < 14, (front ++ (header ++ message)).getD k 0 = front.getD k 0 := fun k hk =>
    List.getD_append _ _ _ _ (by omega)
  refine ⟨?_, ?_, ?_, ?_, ?_, ?_, ?_, ?_, ?_, ?_, ?_, ?_, ?_, ?_, ?_, ?_, ?_, ?_⟩
  · rw [List.take_append_of_le_length (by omega)]
    exact hdestinationMac
  · rw [List.drop_append_of_le_length (by omega), List.take_append_of_le_length (by simp; omega)]
    exact hsourceMac
  · rw [be16_drop] at hethertype
    unfold be16 at hethertype ⊢
    rw [hnear 12 (by decide), hnear 13 (by decide)]
    exact hethertype
  · rw [hfirst]
    rfl
  · rw [hihl]
  · rw [htotal, hihl]
  · rw [htotal, List.length_append, List.length_append]
    omega
  · rw [show 20 = 14 + 6 from rfl, ← be16_drop, hdrop, hfields.unfragmented]
    rfl
  · rw [show 23 = 14 + 9 from rfl, ← getD_drop, hdrop]
    exact hfields.protocol
  · rw [hheaderOf]
    exact hheaderSum
  · rw [show 26 = 14 + 12 from rfl, ← be32_drop, hdrop]
    exact hfields.source
  · rw [show 30 = 14 + 16 from rfl, ← be32_drop, hdrop]
    exact hfields.destination
  · rw [hmessageOf]
    exact hmessage.type
  · rw [hmessageOf]
    exact hmessage.code
  · rw [hmessageOf]
    exact hmessageSum
  · rw [hmessageOf]
    exact hmessage.identifier
  · rw [hmessageOf]
    exact hmessage.sequence
  · rw [hmessageOf]
    exact hmessage.payload

theorem icmpFrame_echo (type : Byte) {destination : Nat} {destinationMac : List Byte} (hn : Host n)
    (hmac : destinationMac.length = 6) (hdestination : destination < 2 ^ 32)
    (hidentifier : identifier < 65536) (hsequence : sequence < 65536)
    (hshort : payload.length ≤ 1500) :
    EchoFrame (icmpFrame n type destination destinationMac identifier sequence payload) type
      destinationMac n.mac destination n.ipv4Addr identifier sequence payload := by
  have hlength : (destinationMac ++ n.mac ++ put16 0x0800).length = 14 := by
    rw [List.length_append, List.length_append, hmac, hn.mac]
    rfl
  have htype : (destinationMac ++ n.mac ++ put16 0x0800).drop 12 = put16 0x0800 := by
    refine List.drop_left' ?_
    rw [List.length_append, hmac, hn.mac]
  unfold icmpFrame
  rw [List.append_assoc (_ ++ put16 0x0800)]
  refine echoFrame_of_parts hlength ?_ ?_ ?_ (ipv4Header_length ..)
    (ipv4Header_fields hn hdestination (by omega) _ _) (icmpMessage_length ..)
    (icmpMessage_fields type hidentifier hsequence _ payload) (ipv4Header_verifies ..)
    (icmpMessage_verifies type identifier sequence hshort)
  · rw [List.append_assoc]
    exact List.take_left' hmac
  · rw [List.append_assoc, List.drop_left' hmac]
    exact List.take_left' hn.mac
  · rw [htype]
    exact be16_put16 0x0800 []

/-- `send_icmp` has no room for a longer payload, and the request is dropped. -/
theorem processFrame_long
    (h : EchoRequest n frame requesterMac requester identifier sequence payload)
    (hlong : 16 < payload.length) : n.processFrame frame = n := by
  rw [processFrame_request h]
  unfold NetState.sendIcmpEchoReply NetState.sendIcmp
  rw [if_pos hlong]

/-- **The echo responder answers the requests with a payload of at most 16 bytes**, with one
frame, and no others. -/
theorem echo_answered_iff (n : NetState) (frame requesterMac : List Byte)
    (requester identifier sequence : Nat) (payload : List Byte) (hn : Host n)
    (h : EchoRequest n frame requesterMac requester identifier sequence payload) :
    (∃ reply, (n.processFrame frame).handed = n.handed ++ [reply] ∧
      EchoFrame reply 0 requesterMac n.mac requester n.ipv4Addr identifier sequence payload)
      ↔ payload.length ≤ 16 := by
  have hecho := h.echo
  constructor
  · rintro ⟨reply, hone, -⟩
    by_contra hlong
    rw [processFrame_long h (by omega)] at hone
    exact absurd (congrArg List.length hone) (by simp)
  · intro hshort
    refine ⟨icmpFrame n 0 requester requesterMac identifier sequence payload, ?_, ?_⟩
    · rw [processFrame_request h]
      unfold NetState.sendIcmpEchoReply
      rw [sendIcmp_short n 0 requester requesterMac identifier sequence hshort]
      rfl
    · have hmac : requesterMac.length = 6 := by
        have hlength := hecho.whole
        rw [hecho.total] at hlength
        rw [← hecho.sourceMac, List.length_take, List.length_drop]
        omega
      refine icmpFrame_echo 0 hn hmac ?_ ?_ ?_ (by omega)
      · rw [← hecho.source]
        exact be32_lt _ _
      · rw [← hecho.identifier]
        exact be16_lt _ _
      · rw [← hecho.sequence]
        exact be16_lt _ _

/-! ## A request -/

/-- This host, and the gateway as a host of its own. -/
def thisHost : NetState := NetState.init true [0x52, 0x54, 0, 0x12, 0x34, 0x56] fun _ => true
def gatewayHost : NetState :=
  { NetState.init true [0x52, 0x55, 0x0A, 0, 2, 2] fun _ => true with ipv4Addr := 0x0A000202 }

theorem thisHost_host : Host thisHost := ⟨rfl, by decide⟩

/-- The gateway asks this host for an echo. -/
def gatewayRequest (payload : List Byte) : List Byte :=
  icmpFrame gatewayHost 8 hostIpv4 thisHost.mac 7 1 payload

theorem gatewayRequest_request (payload : List Byte) (h : payload.length ≤ 1500) :
    EchoRequest thisHost (gatewayRequest payload) gatewayHost.mac 0x0A000202 7 1 payload := by
  have hecho : EchoFrame (gatewayRequest payload) 8 thisHost.mac gatewayHost.mac hostIpv4
      0x0A000202 7 1 payload :=
    icmpFrame_echo 8 ⟨rfl, by decide⟩ rfl (by decide) (by decide) (by decide) h
  have hmac := hecho.destinationMac
  refine ⟨?_, ?_, Or.inl hmac⟩
  · unfold gatewayRequest icmpFrame
    rw [List.length_append, icmpMessage_length, List.length_append, ipv4Header_length]
    show 14 + 20 + (8 + payload.length) ≤ 1600
    omega
  · rw [hmac]
    exact hecho

theorem echo_answered_gateway :
    ∃ reply, (thisHost.processFrame (gatewayRequest [1, 2, 3])).handed
      = thisHost.handed ++ [reply] ∧
      EchoFrame reply 0 gatewayHost.mac thisHost.mac 0x0A000202 hostIpv4 7 1 [1, 2, 3] :=
  (echo_answered_iff thisHost _ _ _ _ _ [1, 2, 3] thisHost_host
    (gatewayRequest_request [1, 2, 3] (by decide))).mpr (by decide)

/-- Seventeen bytes of payload, and nothing is sent. -/
theorem long_echo_unanswered :
    EchoRequest thisHost (gatewayRequest (List.replicate 17 0x61)) gatewayHost.mac 0x0A000202 7 1
        (List.replicate 17 0x61)
      ∧ (thisHost.processFrame (gatewayRequest (List.replicate 17 0x61))).handed = [] := by
  have hrequest := gatewayRequest_request (List.replicate 17 0x61) (by decide)
  refine ⟨hrequest, ?_⟩
  rw [processFrame_long hrequest (by decide)]
  rfl

end Riverix.Net
