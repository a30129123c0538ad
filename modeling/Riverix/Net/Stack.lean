import Riverix.Lib.Store

/-!
# The network stack (`net.c`)

One network interface, one cached ARP entry and one ping at a time. Frames come in as
bytes and go through `process_frame`; what is sent is handed to the driver as bytes, and
the driver may refuse it. The fields of the packets are read at their offsets, in network
byte order.

`transmits` is the driver: whether it takes the frame that is handed to it as the `k`-th.
`handed` is the log of these frames.
-/

namespace Riverix.Net

open Riverix.Lib

/-! ## Bytes in network order -/

/-- `net_ntohs` of the field at `i`. -/
def be16 (bytes : List Byte) (i : Nat) : Nat :=
  (bytes.getD i 0).toNat * 256 + (bytes.getD (i + 1) 0).toNat

/-- `net_ntohl` of the field at `i`. -/
def be32 (bytes : List Byte) (i : Nat) : Nat := be16 bytes i * 65536 + be16 bytes (i + 2)

/-- `net_htons`, as the bytes of the field. -/
def put16 (n : Nat) : List Byte := [BitVec.ofNat 8 (n / 256), BitVec.ofNat 8 n]

/-- `net_htonl`, as the bytes of the field. -/
def put32 (n : Nat) : List Byte := put16 (n / 65536) ++ put16 (n % 65536)

/-- The sum of the 16-bit words; the last byte of an odd number is the high one. -/
def wordSum : List Byte → Nat
  | [] => 0
  | [b] => b.toNat * 256
  | b :: b' :: bytes => b.toNat * 256 + b'.toNat + wordSum bytes

/-- The carries are added until there are none. -/
def foldCarries (sum : Nat) : Nat :=
  if sum / 65536 = 0 then sum else foldCarries (sum % 65536 + sum / 65536)
termination_by sum
decreasing_by omega

/-- `checksum16` -/
def checksum16 (bytes : List Byte) : Nat := 65535 - foldCarries (wordSum bytes % 2 ^ 32) % 65536

section Bytes

variable {bytes : List Byte} {i k n : Nat}

theorem getD_drop (bytes : List Byte) (k i : Nat) :
    (bytes.drop k).getD i 0 = bytes.getD (k + i) 0 := by
  simp [List.getD_eq_getElem?_getD]

theorem getD_take (h : i < n) : (bytes.take n).getD i 0 = bytes.getD i 0 := by
  simp [List.getD_eq_getElem?_getD, h]

theorem be16_drop (bytes : List Byte) (k i : Nat) : be16 (bytes.drop k) i = be16 bytes (k + i) := by
  unfold be16
  rw [getD_drop, getD_drop, Nat.add_assoc]

theorem be32_drop (bytes : List Byte) (k i : Nat) : be32 (bytes.drop k) i = be32 bytes (k + i) := by
  unfold be32
  rw [be16_drop, be16_drop, Nat.add_assoc]

theorem be16_take (h : i + 1 < n) : be16 (bytes.take n) i = be16 bytes i := by
  unfold be16
  rw [getD_take (by omega), getD_take h]

theorem be16_lt (bytes : List Byte) (i : Nat) : be16 bytes i < 65536 := by
  have := (bytes.getD i 0).isLt
  have := (bytes.getD (i + 1) 0).isLt
  unfold be16
  omega

theorem be32_lt (bytes : List Byte) (i : Nat) : be32 bytes i < 2 ^ 32 := by
  have := be16_lt bytes i
  have := be16_lt bytes (i + 2)
  unfold be32
  omega

/-- A field that was put there is read back. -/
theorem be16_put16 (n : Nat) (rest : List Byte) : be16 (put16 n ++ rest) 0 = n % 65536 := by
  show (BitVec.ofNat 8 (n / 256)).toNat * 256 + (BitVec.ofNat 8 n).toNat = n % 65536
  rw [BitVec.toNat_ofNat, BitVec.toNat_ofNat]
  omega

theorem be32_put32 (n : Nat) (rest : List Byte) : be32 (put32 n ++ rest) 0 = n % 2 ^ 32 := by
  have hhigh := be16_put16 (n / 65536) (put16 (n % 65536) ++ rest)
  have hlow := be16_put16 (n % 65536) rest
  unfold be32 put32
  rw [List.append_assoc, hhigh]
  show _ * 65536 + be16 (put16 (n % 65536) ++ rest) 0 = _
  rw [hlow]
  omega

end Bytes

/-! ## The state -/

/-- `net_ping_stage_t` -/
inductive Stage
  | idle
  | arp
  | echo
  deriving DecidableEq, Repr

/-- `net_ping_state_t` -/
structure Ping where
  active : Bool
  completed : Bool
  ownerPid : Nat
  destinationIpv4 : Nat
  nextHopIpv4 : Nat
  deadlineTick : Nat
  nextActionTick : Nat
  identifier : Nat
  sequence : Nat
  attempts : Nat
  stage : Stage
  result : Int
  deriving DecidableEq, Repr

/-- The zeroed record. -/
def Ping.zero : Ping := ⟨false, false, 0, 0, 0, 0, 0, 0, 0, 0, .idle, 0⟩

/-- `net_state_t`, with the driver. -/
structure NetState where
  ready : Bool
  mac : List Byte
  ipv4Addr : Nat
  ipv4Netmask : Nat
  ipv4Gateway : Nat
  arpValid : Bool
  arpMac : List Byte
  arpIpv4 : Nat
  rxPackets : Nat
  txPackets : Nat
  nextPingIdentifier : Nat
  ping : Ping
  transmits : Nat → Bool
  handed : List (List Byte)

/-- `NET_QEMU_IPV4` -/
def hostIpv4 : Nat := 0x0A00020F

/-- `SYS_PING_OK` and the errors -/
def pingOk : Int := 0
def pingErrTimeout : Int := -1
def pingErrNotReady : Int := -3
def pingErrBusy : Int := -4
def pingErrInvalid : Int := -5

/-- `(int32_t)(now - tick) >= 0` -/
def reached (now tick : Nat) : Bool := (now + 2 ^ 32 - tick) % 2 ^ 32 < 2 ^ 31

namespace NetState

/-- `net_init`, for a driver that came up or not and its address. -/
def init (ready : Bool) (mac : List Byte) (transmits : Nat → Bool) : NetState where
  ready := ready
  mac := mac
  ipv4Addr := hostIpv4
  ipv4Netmask := 0xFFFFFF00
  ipv4Gateway := 0x0A000202
  arpValid := false
  arpMac := List.replicate 6 0
  arpIpv4 := 0
  rxPackets := 0
  txPackets := 0
  nextPingIdentifier := 1
  ping := Ping.zero
  transmits := transmits
  handed := []

/-- `route_next_hop` -/
def routeNextHop (n : NetState) (destination : Nat) : Nat :=
  if destination &&& n.ipv4Netmask = n.ipv4Addr &&& n.ipv4Netmask then destination
    else n.ipv4Gateway

/-- `arp_cache_matches` -/
def arpCacheMatches (n : NetState) (ipv4 : Nat) : Bool := n.arpValid && n.arpIpv4 == ipv4

/-- `arp_cache_store` -/
def arpCacheStore (n : NetState) (ipv4 : Nat) (mac : List Byte) : NetState :=
  { n with arpValid := true, arpIpv4 := ipv4, arpMac := mac }

/-! ## Sending -/

/-- `send_frame`; the result tells whether the driver took it. -/
def sendFrame (n : NetState) (frame : List Byte) : NetState × Bool :=
  ({ n with
      handed := n.handed ++ [frame]
      txPackets := if n.transmits n.handed.length then (n.txPackets + 1) % 2 ^ 32
        else n.txPackets },
    n.transmits n.handed.length)

/-- `send_arp` -/
def sendArp (n : NetState) (opcode : Nat) (destinationMac : List Byte) (targetIpv4 : Nat)
    (targetMac : List Byte) : NetState × Bool :=
  n.sendFrame (destinationMac ++ n.mac ++ put16 0x0806 ++
    (put16 1 ++ put16 0x0800 ++ [6, 4] ++ put16 opcode ++ n.mac ++ put32 n.ipv4Addr ++ targetMac ++
      put32 targetIpv4))

/-- `send_arp_request` -/
def sendArpRequest (n : NetState) (targetIpv4 : Nat) : NetState × Bool :=
  n.sendArp 1 (List.replicate 6 0xFF) targetIpv4 (List.replicate 6 0)

/-- `send_arp_reply` -/
def sendArpReply (n : NetState) (destinationMac : List Byte) (targetIpv4 : Nat) : NetState × Bool :=
  n.sendArp 2 destinationMac targetIpv4 destinationMac

/-- The IPv4 header of `send_icmp`, with this checksum. -/
def ipv4Header (n : NetState) (destination totalLength sequence checksum : Nat) : List Byte :=
  [0x45, 0] ++ put16 totalLength ++ put16 sequence ++ put16 0 ++ [64, 1] ++ put16 checksum ++
    put32 n.ipv4Addr ++ put32 destination

/-- The ICMP message of `send_icmp`, with this checksum. -/
def icmpMessage (type : Byte) (identifier sequence checksum : Nat)
    (payload : List Byte) : List Byte :=
  [type, 0] ++ put16 checksum ++ put16 identifier ++ put16 sequence ++ payload

/-- `send_icmp`: a payload that does not fit is not sent. -/
def sendIcmp (n : NetState) (type : Byte) (destination : Nat) (destinationMac : List Byte)
    (identifier sequence : Nat) (payload : List Byte) : NetState × Bool :=
  if payload.length > 16 then (n, false)
  else
    let totalLength := 28 + payload.length
    let headerSum := checksum16 (n.ipv4Header destination totalLength sequence 0)
    let messageSum := checksum16 (icmpMessage type identifier sequence 0 payload)
    n.sendFrame (destinationMac ++ n.mac ++ put16 0x0800 ++
      n.ipv4Header destination totalLength sequence headerSum ++
      icmpMessage type identifier sequence messageSum payload)

/-- `send_icmp_echo_request` with its payload `riverix`. -/
def sendIcmpEchoRequest (n : NetState) (destination : Nat) (destinationMac : List Byte)
    (identifier sequence : Nat) : NetState × Bool :=
  n.sendIcmp 8 destination destinationMac identifier sequence
    [0x72, 0x69, 0x76, 0x65, 0x72, 0x69, 0x78, 0]

/-- `send_icmp_echo_reply` -/
def sendIcmpEchoReply (n : NetState) (destination : Nat) (destinationMac : List Byte)
    (identifier sequence : Nat) (payload : List Byte) : NetState × Bool :=
  n.sendIcmp 0 destination destinationMac identifier sequence payload

/-! ## Receiving -/

/-- `ping_complete` -/
def pingComplete (n : NetState) (result : Int) : NetState :=
  if n.ping.active = false ∨ n.ping.completed = true then n
  else { n with ping := { n.ping with completed := true, result := result } }

/-- The state after `process_arp` has stored the sender and moved a waiting ping on. -/
def arpSeen (n : NetState) (opcode senderIpv4 : Nat) (senderMac : List Byte) : NetState :=
  let n := n.arpCacheStore senderIpv4 senderMac
  if n.ping.active = true ∧ n.ping.completed = false ∧ n.ping.stage = .arp
      ∧ senderIpv4 = n.ping.nextHopIpv4 ∧ opcode = 2 then
    { n with ping := { n.ping with stage := .echo, attempts := 0, nextActionTick := 0 } }
  else n

/-- `process_arp` of the bytes behind the Ethernet header. -/
def processArp (n : NetState) (arp : List Byte) : NetState :=
  if arp.length < 28 ∨ be16 arp 0 ≠ 1 ∨ be16 arp 2 ≠ 0x0800 ∨ arp.getD 4 0 ≠ 6 ∨
    arp.getD 5 0 ≠ 4 then n
  else
    let opcode := be16 arp 6
    let senderMac := (arp.drop 8).take 6
    let senderIpv4 := be32 arp 14
    let n := n.arpSeen opcode senderIpv4 senderMac
    if opcode = 1 ∧ be32 arp 24 = n.ipv4Addr then (n.sendArpReply senderMac senderIpv4).1 else n

/-- `process_icmp`; the addresses are read from the headers before it. -/
def processIcmp (n : NetState) (ethSource : List Byte) (source : Nat)
    (payload : List Byte) : NetState :=
  if payload.length < 8 then n
  else
    let identifier := be16 payload 4
    let sequence := be16 payload 6
    if payload.getD 0 0 = 0 ∧ n.ping.active = true ∧ n.ping.completed = false ∧ n.ping.stage = .echo
        ∧ source = n.ping.destinationIpv4 ∧ identifier = n.ping.identifier
        ∧ sequence = n.ping.sequence then n.pingComplete pingOk
    else if payload.getD 0 0 = 8 then
      (n.sendIcmpEchoReply source ethSource identifier sequence (payload.drop 8)).1
    else n

/-- `process_ipv4` of the bytes behind the Ethernet header. -/
def processIpv4 (n : NetState) (ethSource : List Byte) (payload : List Byte) : NetState :=
  if payload.length < 20 then n
  else if (payload.getD 0 0).toNat / 16 ≠ 4 then n
  else
    let headerLength := (payload.getD 0 0).toNat % 16 * 4
    let totalLength := be16 payload 2
    if headerLength < 20 ∨ headerLength > payload.length then n
    else if totalLength < headerLength ∨ totalLength > payload.length then n
    else if be32 payload 16 ≠ n.ipv4Addr then n
    else if payload.getD 9 0 = 1 then
      n.processIcmp ethSource (be32 payload 12)
        ((payload.drop headerLength).take (totalLength - headerLength))
    else n

/-- `process_frame` -/
def processFrame (n : NetState) (frame : List Byte) : NetState :=
  if frame.length < 14 then n
  else if frame.take 6 ≠ n.mac ∧ frame.take 6 ≠ List.replicate 6 0xFF then n
  else if be16 frame 12 = 0x0806 then n.processArp (frame.drop 14)
  else if be16 frame 12 = 0x0800 then n.processIpv4 ((frame.drop 6).take 6) (frame.drop 14)
  else n

/-! ## Pings -/

/-- The second half of `drive_ping`: a request was sent. -/
def pingSent (n : NetState) (now : Nat) : NetState :=
  { n with ping := { n.ping with
    attempts := (n.ping.attempts + 1) % 2 ^ 32
    nextActionTick := (now + 20) % 2 ^ 32 } }

/-- `drive_ping` -/
def drivePing (n : NetState) (now : Nat) : NetState :=
  if n.ping.active = false ∨ n.ping.completed = true then n
  else if reached now n.ping.deadlineTick then n.pingComplete pingErrTimeout
  else if reached now n.ping.nextActionTick = false then n
  else
    match n.ping.stage with
    | .arp =>
      match n.sendArpRequest n.ping.nextHopIpv4 with
      | (n, false) => n
      | (n, true) => n.pingSent now
    | .echo =>
      if n.arpCacheMatches n.ping.nextHopIpv4 then
        match n.sendIcmpEchoRequest n.ping.destinationIpv4 n.arpMac n.ping.identifier
          n.ping.sequence with
        | (n, false) => n
        | (n, true) => n.pingSent now
      else n
    | .idle => n

/-- What `net_poll` does with one result of `e1000_receive`; a failed one is skipped. -/
def receive (n : NetState) : Option (List Byte) → NetState
  | none => n
  | some frame => { n with rxPackets := (n.rxPackets + 1) % 2 ^ 32 }.processFrame frame

/-- `net_poll`: at most eight results, up to the first that says there is no more. -/
def poll (n : NetState) (received : List (Option (List Byte))) (now : Nat) : NetState :=
  if n.ready then ((received.take 8).foldl receive n).drivePing now else n

/-- The record that `net_ping4_start` sets up. -/
def newPing (n : NetState) (requesterPid destination timeout now : Nat) : Ping :=
  { Ping.zero with
    active := true
    ownerPid := requesterPid
    destinationIpv4 := destination
    nextHopIpv4 := n.routeNextHop destination
    deadlineTick := (now + if timeout ≠ 0 then timeout else 100) % 2 ^ 32
    identifier := n.nextPingIdentifier
    sequence := 1
    stage := if n.arpCacheMatches (n.routeNextHop destination) then .echo else .arp
    nextActionTick := 0 }

/-- The record is set up and takes an identifier. -/
def startPing (n : NetState) (requesterPid destination timeout now : Nat) : NetState :=
  { n with
    ping := n.newPing requesterPid destination timeout now
    nextPingIdentifier := (n.nextPingIdentifier + 1) % 2 ^ 16 }

/-- `net_ping4_start` -/
def ping4Start (n : NetState) (requesterPid destination timeout now : Nat) : NetState × Int :=
  if n.ready = false then (n, pingErrNotReady)
  else if requesterPid = 0 ∨ destination = 0 then (n, pingErrInvalid)
  else if n.ping.active = true ∧ n.ping.completed = false then (n, pingErrBusy)
  else
    ((n.startPing requesterPid destination timeout now).drivePing now, 0)

/-- `net_ping4_poll_result`: its status, and the result with status 1. -/
def ping4PollResult (n : NetState) (requesterPid : Nat) : NetState × Int × Int :=
  if n.ping.active = false ∨ n.ping.ownerPid ≠ requesterPid then (n, -1, 0)
  else if n.ping.completed = false then (n, 0, 0)
  else ({ n with ping := Ping.zero }, 1, n.ping.result)

end NetState

end Riverix.Net
