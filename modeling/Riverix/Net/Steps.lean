import Riverix.Net.Echo

/-!
# What moves the ping record (`process_frame`, `drive_ping`)

`net.c` keeps one ping record. A frame that comes in and the turn that `drive_ping` takes are
the two things that move it while the ping is open. Each is told once and in full:
`processFrame_handled` for the frame, and `drivePing_drove` for the turn. A frame only completes
the record if it is the echo reply that the ping waits for, which has to be followed through the
Ethernet, IPv4 and ICMP headers.
-/

namespace Riverix.Net

open Riverix.Lib

/-! ## Echo replies -/

/-- The frame is an ICMP echo reply for the interface with this address, with these
values; in its own terms, byte by byte. -/
structure EchoReply (mac : List Byte) (ipv4 : Nat) (frame : List Byte)
    (source identifier sequence : Nat) : Prop where
  ours : frame.take 6 = mac ∨ frame.take 6 = List.replicate 6 0xFF
  ethertype : be16 frame 12 = 0x0800
  version : (frame.getD 14 0).toNat / 16 = 4
  protocol : frame.getD 23 0 = 1
  destination : be32 frame 30 = ipv4
  source : be32 frame 26 = source
  whole : (frame.getD 14 0).toNat % 16 * 4 + 8 ≤ be16 frame 16 ∧ 14 + be16 frame 16 ≤ frame.length
  type : frame.getD (14 + (frame.getD 14 0).toNat % 16 * 4) 0 = 0
  identifier : be16 frame (14 + (frame.getD 14 0).toNat % 16 * 4 + 4) = identifier
  sequence : be16 frame (14 + (frame.getD 14 0).toNat % 16 * 4 + 6) = sequence

/-! ## What a frame does -/

/-- The record stays as it is, goes from the ARP to the echo stage, or is completed with OK, the
last only with a `reply`. -/
inductive Moved (reply : Prop) (p p' : Ping) : Prop
  | same (h : p' = p)
  | resolved (h : p.stage = .arp)
      (h' : p' = { p with stage := .echo, attempts := 0, nextActionTick := 0 })
  | answered (h : reply) (h' : p' = { p with completed := true, result := pingOk })

/-- The host keeps its addresses, the cached address stays one, and the record moves. -/
structure Handled (reply : Prop) (n n' : NetState) : Prop where
  mac : n'.mac = n.mac
  ipv4 : n'.ipv4Addr = n.ipv4Addr
  gateway : n'.ipv4Gateway = n.ipv4Gateway
  identifier : n'.nextPingIdentifier = n.nextPingIdentifier
  arpMac : n.arpMac.length = 6 → n'.arpMac.length = 6
  ping : Moved reply n.ping n'.ping

theorem Handled.imp {reply reply' : Prop} {n n' : NetState} (h : Handled reply n n')
    (hi : reply → reply') : Handled reply' n n' :=
  { h with
    ping := match h.ping with
      | .same he => .same he
      | .resolved hs he => .resolved hs he
      | .answered hr he => .answered (hi hr) he }

namespace NetState

variable {n : NetState} {reply : Prop}

theorem handled_refl : Handled reply n n := ⟨rfl, rfl, rfl, rfl, id, .same rfl⟩

theorem handled_sendFrame (frame : List Byte) : Handled reply n (n.sendFrame frame).1 :=
  ⟨rfl, rfl, rfl, rfl, id, .same rfl⟩

theorem processArp_handled (n : NetState) (arp : List Byte) :
    Handled reply n (n.processArp arp) := by
  unfold processArp
  split
  · exact handled_refl
  next hfits =>
  have hmac : ((arp.drop 8).take 6).length = 6 := by
    rw [List.length_take, List.length_drop]
    omega
  -- the reply to a request, if any, changes neither the record nor the cache
  dsimp only [arpSeen]
  split
  next hs => split <;> exact ⟨rfl, rfl, rfl, rfl, fun _ => hmac, .resolved hs.2.2.1 rfl⟩
  · split <;> exact ⟨rfl, rfl, rfl, rfl, fun _ => hmac, .same rfl⟩

/-- What the message of an echo reply says. -/
structure ReplyMessage (p : Ping) (source : Nat) (payload : List Byte) : Prop where
  whole : 8 ≤ payload.length
  type : payload.getD 0 0 = 0
  source : source = p.destinationIpv4
  identifier : be16 payload 4 = p.identifier
  sequence : be16 payload 6 = p.sequence

theorem processIcmp_handled (n : NetState) (ethSource : List Byte) (source : Nat)
    (payload : List Byte) :
    Handled (ReplyMessage n.ping source payload) n (n.processIcmp ethSource source payload) := by
  unfold processIcmp
  split
  · exact handled_refl
  next hlen =>
  dsimp only
  split
  next h =>
    obtain ⟨htype, hactive, hopen, -, hsource, hid, hseq⟩ := h
    unfold pingComplete
    rw [if_neg (by simp [hactive, hopen])]
    exact ⟨rfl, rfl, rfl, rfl, id,
      .answered ⟨Nat.le_of_not_lt hlen, htype, hsource, hid, hseq⟩ rfl⟩
  split
  · unfold sendIcmpEchoReply sendIcmp
    split
    · exact handled_refl
    · exact handled_sendFrame _
  · exact handled_refl

/-- What the packet of an echo reply says. -/
structure ReplyPacket (ipv4 : Nat) (p : Ping) (payload : List Byte) : Prop where
  version : (payload.getD 0 0).toNat / 16 = 4
  protocol : payload.getD 9 0 = 1
  destination : be32 payload 16 = ipv4
  total : (payload.getD 0 0).toNat % 16 * 4 ≤ be16 payload 2 ∧ be16 payload 2 ≤ payload.length
  message : ReplyMessage p (be32 payload 12)
    ((payload.drop ((payload.getD 0 0).toNat % 16 * 4)).take
      (be16 payload 2 - (payload.getD 0 0).toNat % 16 * 4))

theorem processIpv4_handled (n : NetState) (ethSource payload : List Byte) :
    Handled (ReplyPacket n.ipv4Addr n.ping payload) n (n.processIpv4 ethSource payload) := by
  unfold processIpv4
  dsimp only
  split_ifs with _ hversion _ htotal hdest hproto
  all_goals first
    | exact handled_refl
    | exact (processIcmp_handled n ethSource _ _).imp fun hmessage =>
        ⟨not_not.mp hversion, hproto, not_not.mp hdest, by omega, hmessage⟩

/-- **One frame** leaves the record alone, moves it on, or completes it; and then the frame
is the echo reply that the ping waits for. -/
theorem processFrame_handled (n : NetState) (frame : List Byte) :
    Handled (EchoReply n.mac n.ipv4Addr frame n.ping.destinationIpv4 n.ping.identifier
      n.ping.sequence) n (n.processFrame frame) := by
  unfold processFrame
  split
  · exact handled_refl
  split
  · exact handled_refl
  next hours =>
  split
  · exact processArp_handled n _
  split
  next htype =>
    refine (processIpv4_handled n ((frame.drop 6).take 6) (frame.drop 14)).imp fun hpacket => ?_
    -- the fields of the packet and the message, as fields of the frame
    obtain ⟨hversion, hproto, hdest, htotal, hmessage⟩ := hpacket
    rw [getD_drop, Nat.add_zero] at hversion htotal hmessage
    rw [getD_drop] at hproto
    rw [be32_drop] at hdest
    rw [be16_drop] at htotal hmessage
    rw [be32_drop] at hmessage
    rw [List.length_drop] at htotal
    obtain ⟨hwhole, hreply, hsource, hid, hseq⟩ := hmessage
    rw [List.length_take, List.length_drop, List.length_drop] at hwhole
    rw [List.drop_drop] at hreply hid hseq
    rw [getD_take (by omega), getD_drop, Nat.add_zero] at hreply
    rw [be16_take (by omega), be16_drop] at hid hseq
    refine ⟨?_, htype, hversion, hproto, hdest, hsource, ⟨?_, ?_⟩, hreply, hid, hseq⟩
    · exact or_iff_not_imp_left.mpr fun hmac => not_not.mp fun hbroad => hours ⟨hmac, hbroad⟩
    · show _ ≤ be16 frame (14 + 2)
      omega
    · show 14 + be16 frame (14 + 2) ≤ _
      omega
  · exact handled_refl

theorem receive_handled (n : NetState) (r : Option (List Byte)) :
    ∃ reply, Handled reply n (n.receive r) := by
  cases r with
  | none => exact ⟨True, handled_refl⟩
  | some frame =>
    have h := processFrame_handled { n with rxPackets := (n.rxPackets + 1) % 2 ^ 32 } frame
    exact ⟨_, h.mac, h.ipv4, h.gateway, h.identifier, h.arpMac, h.ping⟩

/-! ## What `drive_ping` does -/

/-- `drive_ping` hands over no frame, or one that the driver refuses or takes. -/
inductive Drove (n : NetState) (now : Nat) (n' : NetState) : Prop
  | silent (h : n' = n)
  | expired
    (h : n' = { n with ping := { n.ping with completed := true, result := pingErrTimeout } })
  | refused (frame : List Byte) (h : n' = (n.sendFrame frame).1)
      (h' : n.transmits n.handed.length = false)
  | sent (frame : List Byte) (h : n' = (n.sendFrame frame).1.pingSent now)
      (h' : n.transmits n.handed.length = true)

/-- The end of `drive_ping`, after a frame was handed over. -/
theorem drove_sendFrame (n : NetState) (now : Nat) (frame : List Byte) :
    Drove n now (match n.sendFrame frame with
      | (n, false) => n
      | (n, true) => n.pingSent now) := by
  cases ht : n.transmits n.handed.length with
  | false =>
    have he : n.sendFrame frame = ((n.sendFrame frame).1, false) := by rw [← ht]; rfl
    rw [he]
    exact .refused frame rfl ht
  | true =>
    have he : n.sendFrame frame = ((n.sendFrame frame).1, true) := by rw [← ht]; rfl
    rw [he]
    exact .sent frame rfl ht

/-- The frame of `send_icmp_echo_request`. -/
def echoRequestFrame (n : NetState) : List Byte :=
  icmpFrame n 8 n.ping.destinationIpv4 n.arpMac n.ping.identifier n.ping.sequence
    [0x72, 0x69, 0x76, 0x65, 0x72, 0x69, 0x78, 0]

/-- The frame of `send_arp_request`. -/
def arpRequestFrame (n : NetState) : List Byte :=
  List.replicate 6 0xFF ++ n.mac ++ put16 0x0806 ++
    (put16 1 ++ put16 0x0800 ++ [6, 4] ++ put16 1 ++ n.mac ++ put32 n.ipv4Addr ++
      List.replicate 6 0 ++ put32 n.ping.nextHopIpv4)

/-- The frame that `drive_ping` has to send, when its times allow it. -/
def nextRequest (n : NetState) : Option (List Byte) :=
  match n.ping.stage with
  | .arp => some n.arpRequestFrame
  | .echo => if n.arpCacheMatches n.ping.nextHopIpv4 then some n.echoRequestFrame else none
  | .idle => none

/-- `drive_ping` of an open ping. -/
theorem drivePing_open (ha : n.ping.active = true) (ho : n.ping.completed = false) (now : Nat) :
    n.drivePing now =
      if reached now n.ping.deadlineTick then n.pingComplete pingErrTimeout
      else if reached now n.ping.nextActionTick = false then n
      else match n.nextRequest with
        | none => n
        | some frame => match n.sendFrame frame with
          | (n, false) => n
          | (n, true) => n.pingSent now := by
  unfold drivePing nextRequest
  rw [if_neg (by simp [ha, ho])]
  cases n.ping.stage with
  | idle => rfl
  | arp => rfl
  | echo =>
    cases n.arpCacheMatches n.ping.nextHopIpv4 with
    | false => rfl
    | true =>
      simp only [if_true, sendIcmpEchoRequest]
      rw [sendIcmp_short _ _ _ _ _ _ (by decide)]
      rfl

theorem drivePing_drove (n : NetState) (now : Nat) : Drove n now (n.drivePing now) := by
  by_cases hopen : n.ping.active = true ∧ n.ping.completed = false
  · rw [drivePing_open hopen.1 hopen.2]
    split
    · refine .expired ?_
      unfold pingComplete
      rw [if_neg (by simp [hopen])]
    split
    · exact .silent rfl
    split
    · exact .silent rfl
    · exact drove_sendFrame n now _
  have hclosed : n.ping.active = false ∨ n.ping.completed = true := by
    cases ha : n.ping.active <;> simp_all
  unfold drivePing
  rw [if_pos hclosed]
  exact .silent rfl

end NetState

end Riverix.Net
