import Riverix.Lib.Run
import Riverix.Net.Steps

/-!
# A ping that is due makes an attempt (`drive_ping`)

`net.c` decides with the 32-bit tick counter when a ping expires and when its next request is
due: a tick is reached when the signed difference is not negative, and a `next_action_tick` of
0 stands for "now". Here the net state is put next to the time that really passed: the ticks
since boot as a number, when the ping was started and with which timeout, and when it last sent
a request, in all and in its present stage.

`Sound` ties the two together. Every step keeps it: a frame leaves the ping as it is, moves it to
the echo stage or completes it (`Moved`), and `drive_ping` hands over at most one frame
(`Drove`). Whether a ping that is due makes its attempt is then a matter of the three tests of
`drive_ping`, read as times.
-/

namespace Riverix.Net

open Riverix.Lib

/-- `NET_PING_RETRY_TICKS` -/
def pingRetryTicks : Nat := 20

/-- The net state and the times. `timeout` is the one in force, with the default put in. -/
structure Timed where
  net : NetState
  clock : Nat
  started : Nat
  timeout : Nat
  /-- When the ping last sent a request. -/
  last : Option Nat
  /-- When it last sent one in its present stage. -/
  inStage : Option Nat

/-- What happens to the network stack. The arguments of a system call are 32 bits wide. -/
inductive NetAction
  | tick
  | poll (received : List (Option (List Byte)))
  | start (requesterPid destination timeout : BitVec 32)
  | pollResult (requesterPid : BitVec 32)

/-- `drive_ping` hands over a frame that the driver takes. -/
def NetState.sends (n : NetState) (now : Nat) : Bool :=
  decide ((n.drivePing now).handed ≠ n.handed) && n.transmits n.handed.length

namespace Timed

/-- `pit_ticks` -/
def tick (s : Timed) : Nat := s.clock % 2 ^ 32

/-- The time at which the ping expires. -/
def deadline (s : Timed) : Nat := s.started + s.timeout

/-- `drive_ping` -/
def drive (s : Timed) : Timed :=
  { s with
    net := s.net.drivePing s.tick
    last := if s.net.sends s.tick then some s.clock else s.last
    inStage := if s.net.sends s.tick then some s.clock else s.inStage }

/-- One result of `e1000_receive`; a frame may end the stage. -/
def receive (s : Timed) (r : Option (List Byte)) : Timed :=
  { s with
    net := s.net.receive r
    inStage := if (s.net.receive r).ping.stage = s.net.ping.stage then s.inStage else none }

/-- `net_ping4_start`: a call that is accepted sets the times. -/
def start (s : Timed) (requesterPid destination timeout : Nat) : Timed :=
  if (s.net.ping4Start requesterPid destination timeout s.tick).2 = 0 then
    { s with
      net := s.net.startPing requesterPid destination timeout s.tick
      started := s.clock
      timeout := if timeout ≠ 0 then timeout else 100
      last := none
      inStage := none }.drive
  else s

def step (s : Timed) : NetAction → Timed
  | .tick => { s with clock := s.clock + 1 }
  | .poll received => if s.net.ready then (run receive s (received.take 8)).drive else s
  | .start requesterPid destination timeout =>
    s.start requesterPid.toNat destination.toNat timeout.toNat
  | .pollResult requesterPid => { s with net := (s.net.ping4PollResult requesterPid.toNat).1 }

/-- The state at boot, at any tick. -/
def boot (clock : Nat) (ready : Bool) (mac : List Byte) (transmits : Nat → Bool) : Timed where
  net := NetState.init ready mac transmits
  clock := clock
  started := 0
  timeout := 0
  last := none
  inStage := none

end Timed

/-- The host keeps its addresses, and the cached address is one. -/
structure Configured (n : NetState) : Prop where
  host : Host n
  gateway : n.ipv4Gateway < 2 ^ 32
  arpMac : n.arpMac.length = 6
  identifier : n.nextPingIdentifier < 65536

theorem Configured.handled {n n' : NetState} {reply : Prop} (h : Configured n)
    (hn : Handled reply n n') : Configured n' where
  host := ⟨hn.mac ▸ h.host.mac, hn.ipv4 ▸ h.host.ipv4⟩
  gateway := hn.gateway ▸ h.gateway
  arpMac := hn.arpMac h.arpMac
  identifier := hn.identifier ▸ h.identifier

theorem Configured.drove {n n' : NetState} {now : Nat} (h : Configured n)
    (hd : NetState.Drove n now n') : Configured n' := by
  rcases hd with he | he | ⟨frame, he, -⟩ | ⟨frame, he, -⟩ <;> rw [he] <;>
    exact ⟨⟨h.host.mac, h.host.ipv4⟩, h.gateway, h.arpMac, h.identifier⟩

/-! ## The ticks and the times -/

namespace Timed

variable {s : Timed}

/-- The record of an open ping, in times. -/
structure Running (s : Timed) : Prop where
  stage : s.net.ping.stage ≠ .idle
  deadline : s.net.ping.deadlineTick = s.deadline % 2 ^ 32
  timeout : s.timeout < 2 ^ 32
  started : s.started ≤ s.clock
  fresh : s.inStage = none → s.net.ping.nextActionTick = 0
  paced : ∀ t, s.inStage = some t →
    s.net.ping.nextActionTick = (t + 20) % 2 ^ 32 ∧ s.started ≤ t ∧ t ≤ s.clock ∧ s.last = some t
  destination : s.net.ping.destinationIpv4 < 2 ^ 32
  nextHop : s.net.ping.nextHopIpv4 < 2 ^ 32
  identifier : s.net.ping.identifier < 65536
  sequence : s.net.ping.sequence < 65536

/-- What holds in every state. -/
structure Sound (s : Timed) : Prop where
  configured : Configured s.net
  running : s.net.ping.active = true → s.net.ping.completed = false → s.Running

theorem Running.congr {s' : Timed} (h : s.Running) (hping : s'.net.ping = s.net.ping)
    (hclock : s'.clock = s.clock) (hstarted : s'.started = s.started)
    (htimeout : s'.timeout = s.timeout) (hlast : s'.last = s.last)
    (hstage : s'.inStage = s.inStage) :
    s'.Running := by
  obtain ⟨n, clock, started, timeout, last, inStage⟩ := s'
  subst hclock hstarted htimeout hlast hstage
  constructor <;> dsimp only [deadline] <;> (try rw [hping])
  exacts [h.stage, h.deadline, h.timeout, h.started, h.fresh, h.paced, h.destination, h.nextHop,
    h.identifier, h.sequence]

theorem Running.tick (h : s.Running) : Running { s with clock := s.clock + 1 } :=
  { h with
    started := Nat.le_succ_of_le h.started
    paced := fun t ht => by
      obtain ⟨hnext, hstart, hclock, hlast⟩ := h.paced t ht
      exact ⟨hnext, hstart, Nat.le_succ_of_le hclock, hlast⟩ }

theorem Running.receive {r : Option (List Byte)} {reply : Prop} (h : s.Running)
    (hm : Moved reply s.net.ping (s.net.receive r).ping)
    (ho : (s.net.receive r).ping.completed = false) : (s.receive r).Running := by
  have hstage : (s.receive r).inStage
      = if (s.net.receive r).ping.stage = s.net.ping.stage then s.inStage else none := rfl
  have hping : (s.receive r).net.ping = (s.net.receive r).ping := rfl
  cases hm with
  | same he =>
    rw [he, if_pos rfl] at hstage
    exact h.congr (hping.trans he) rfl rfl rfl rfl hstage
  | resolved harp he =>
    -- the stage begins with nothing sent, and its first request is due at tick 0
    rw [he, harp, if_neg (by simp)] at hstage
    rw [he] at hping
    constructor <;> (try rw [hping]) <;> (try rw [hstage])
    exacts [(by simp), h.deadline, h.timeout, h.started, fun _ => rfl, fun _ ht => (by cases ht),
      h.destination, h.nextHop, h.identifier, h.sequence]
  | answered _ he => rw [he] at ho; cases ho

theorem Moved.active {p p' : Ping} {reply : Prop} (h : Moved reply p p')
    (ho : p'.completed = false) :
    p'.active = p.active ∧ p.completed = false := by
  cases h with
  | same he => exact ⟨by rw [he], by rw [← he]; exact ho⟩
  | resolved _ he => exact ⟨by rw [he], by rw [he] at ho; exact ho⟩
  | answered _ he => rw [he] at ho; cases ho

theorem Sound.receive (h : s.Sound) (r : Option (List Byte)) : (s.receive r).Sound := by
  obtain ⟨reply, hr⟩ := NetState.receive_handled s.net r
  refine ⟨h.configured.handled hr, fun ha ho => ?_⟩
  obtain ⟨hactive, hopen⟩ := Moved.active hr.ping ho
  exact (h.running (hactive ▸ ha) hopen).receive hr.ping ho

theorem sends_false {now : Nat} (h : (s.net.drivePing now).handed = s.net.handed) :
    s.net.sends now = false := by
  unfold NetState.sends
  rw [h, decide_eq_false (not_not.mpr rfl), Bool.false_and]

theorem Sound.drive (h : s.Sound) : s.drive.Sound := by
  have hping : s.drive.net = s.net.drivePing s.tick := rfl
  have hlast : s.drive.last = if s.net.sends s.tick then some s.clock else s.last := rfl
  have hstage : s.drive.inStage = if s.net.sends s.tick then some s.clock else s.inStage := rfl
  have hd := NetState.drivePing_drove s.net s.tick
  refine ⟨h.configured.drove hd, fun ha ho => ?_⟩
  rw [hping] at ha ho
  cases hd with
  | silent he =>
    rw [sends_false (by rw [he])] at hlast hstage
    rw [he] at hping ha ho
    exact (h.running ha ho).congr (by rw [hping]) rfl rfl rfl hlast hstage
  | expired he =>
    rw [he] at ho
    cases ho
  | refused frame he hrefused =>
    have hsends : s.net.sends s.tick = false := by
      unfold NetState.sends
      rw [hrefused, Bool.and_false]
    rw [hsends] at hlast hstage
    rw [he] at hping ha ho
    exact (h.running ha ho).congr (by rw [hping]; rfl) rfl rfl rfl hlast hstage
  | sent frame he htaken =>
    have hsends : s.net.sends s.tick = true := by
      unfold NetState.sends
      rw [he, htaken, Bool.and_true, decide_eq_true_iff]
      exact fun heq => absurd (congrArg List.length heq)
        (by simp [NetState.pingSent, NetState.sendFrame])
    rw [hsends] at hlast hstage
    have hsent : s.drive.net.ping = { s.net.ping with
        attempts := (s.net.ping.attempts + 1) % 2 ^ 32
        nextActionTick := (s.tick + 20) % 2 ^ 32 } := by rw [hping, he]; rfl
    rw [he] at ha ho
    have hr := h.running ha ho
    constructor <;> (try rw [hsent]) <;> (try rw [hstage]) <;> (try rw [hlast])
    exacts [hr.stage, hr.deadline, hr.timeout, hr.started, fun hn => (by cases hn),
      fun t ht => (by
        cases ht
        exact ⟨Nat.mod_add_mod .., hr.started, le_rfl, rfl⟩),
      hr.destination, hr.nextHop, hr.identifier, hr.sequence]

/-- A new ping has its deadline ahead and has sent nothing. -/
theorem Sound.start (h : s.Sound) {requesterPid destination timeout : Nat}
    (hdestination : destination < 2 ^ 32) (htimeout : timeout < 2 ^ 32) :
    (s.start requesterPid destination timeout).Sound := by
  unfold Timed.start
  split
  · refine Sound.drive ⟨?_, fun _ _ => ?_⟩
    · exact ⟨⟨h.configured.host.mac, h.configured.host.ipv4⟩, h.configured.gateway,
        h.configured.arpMac,
        Nat.mod_lt _ (by decide)⟩
    constructor
    · show (if _ then Stage.echo else Stage.arp) ≠ .idle
      split <;> simp
    · show (s.clock % 2 ^ 32 + _) % 2 ^ 32 = _
      exact Nat.mod_add_mod ..
    · show (if timeout ≠ 0 then timeout else 100) < 2 ^ 32
      split <;> omega
    · exact le_rfl
    · exact fun _ => rfl
    · exact fun t ht => (by cases ht)
    · exact hdestination
    · show s.net.routeNextHop destination < 2 ^ 32
      unfold NetState.routeNextHop
      split
      · exact hdestination
      · exact h.configured.gateway
    · exact h.configured.identifier
    · show 1 < 65536
      decide
  · exact h

theorem Sound.pollResult (h : s.Sound) (requesterPid : Nat) :
    Sound { s with net := (s.net.ping4PollResult requesterPid).1 } := by
  unfold NetState.ping4PollResult
  split
  · exact h
  split
  · exact h
  · refine ⟨⟨⟨h.configured.host.mac, h.configured.host.ipv4⟩, h.configured.gateway,
      h.configured.arpMac, h.configured.identifier⟩, fun ha _ => ?_⟩
    cases ha

theorem Sound.step (h : s.Sound) (a : NetAction) : (s.step a).Sound := by
  cases a with
  | tick => exact ⟨h.configured, fun ha ho => (h.running ha ho).tick⟩
  | poll received =>
    unfold Timed.step
    dsimp only
    split
    · exact (run_invariant (I := Sound) (fun _ r hs => hs.receive r) _ h).drive
    · exact h
  | start requesterPid destination timeout => exact h.start destination.isLt timeout.isLt
  | pollResult requesterPid => exact h.pollResult _

theorem boot_sound (clock : Nat) (ready : Bool) {mac : List Byte} (hmac : mac.length = 6)
    (transmits : Nat → Bool) : (boot clock ready mac transmits).Sound :=
  ⟨⟨⟨hmac, (by decide : hostIpv4 < 2 ^ 32)⟩, (by decide : 0x0A000202 < 2 ^ 32), rfl,
    (by decide : 1 < 65536)⟩, fun ha _ => (by cases ha)⟩

end Timed

/-! ## The attempt -/

/-- The frame is a broadcast ARP request from this host for the address. -/
structure ArpRequest (frame mac : List Byte) (ipv4 target : Nat) : Prop where
  destinationMac : frame.take 6 = List.replicate 6 0xFF
  sourceMac : (frame.drop 6).take 6 = mac
  ethertype : be16 frame 12 = 0x0806
  hardware : be16 frame 14 = 1 ∧ frame.getD 18 0 = 6
  protocol : be16 frame 16 = 0x0800 ∧ frame.getD 19 0 = 4
  opcode : be16 frame 20 = 1
  senderMac : (frame.drop 22).take 6 = mac
  senderIpv4 : be32 frame 28 = ipv4
  targetIpv4 : be32 frame 38 = target

theorem arpRequestFrame_request {n : NetState} (h : Host n) (hhop : n.ping.nextHopIpv4 < 2 ^ 32) :
    ArpRequest n.arpRequestFrame n.mac n.ipv4Addr n.ping.nextHopIpv4 := by
  have hsender := be32_put32 n.ipv4Addr (List.replicate 6 0 ++ put32 n.ping.nextHopIpv4)
  have htarget := be32_put32 n.ping.nextHopIpv4 []
  rw [Nat.mod_eq_of_lt h.ipv4] at hsender
  rw [Nat.mod_eq_of_lt hhop] at htarget
  have hmac := h.mac
  unfold NetState.arpRequestFrame
  generalize n.mac = mac at hmac
  match mac, hmac with
  | [_, _, _, _, _, _], _ =>
    exact ⟨rfl, rfl, be16_put16 0x0806 [], ⟨be16_put16 1 [], rfl⟩, ⟨be16_put16 0x0800 [], rfl⟩,
      be16_put16 1 [], rfl, hsender, htarget⟩

/-- `drive_ping` hands the driver a request of the ping: for the hardware address of the next
hop, or the echo request to the address that the cache holds for it. -/
def NetState.Attempts (n : NetState) (now : Nat) : Prop :=
  ∃ frame, (n.drivePing now).handed = n.handed ++ [frame] ∧
    (ArpRequest frame n.mac n.ipv4Addr n.ping.nextHopIpv4 ∨
      n.arpValid = true ∧ n.arpIpv4 = n.ping.nextHopIpv4 ∧
        ∃ payload, EchoFrame frame 8 n.arpMac n.mac n.ping.destinationIpv4 n.ipv4Addr
          n.ping.identifier n.ping.sequence payload)

namespace NetState

variable {n : NetState} {now : Nat}

theorem nextRequest_attempt (h : Configured n) (hdestination : n.ping.destinationIpv4 < 2 ^ 32)
    (hhop : n.ping.nextHopIpv4 < 2 ^ 32) (hidentifier : n.ping.identifier < 65536)
    (hsequence : n.ping.sequence < 65536) {frame : List Byte} (hf : n.nextRequest = some frame) :
    ArpRequest frame n.mac n.ipv4Addr n.ping.nextHopIpv4 ∨
      n.arpValid = true ∧ n.arpIpv4 = n.ping.nextHopIpv4 ∧
        ∃ payload, EchoFrame frame 8 n.arpMac n.mac n.ping.destinationIpv4 n.ipv4Addr
          n.ping.identifier n.ping.sequence payload := by
  unfold nextRequest at hf
  split at hf
  · obtain rfl := Option.some.inj hf
    exact .inl (arpRequestFrame_request h.host hhop)
  · split at hf
    next hcache =>
      obtain rfl := Option.some.inj hf
      obtain ⟨hvalid, hmatch⟩ := Bool.and_eq_true_iff.mp hcache
      exact .inr ⟨hvalid, beq_iff_eq.mp hmatch, _,
        icmpFrame_echo 8 h.host h.arpMac hdestination hidentifier hsequence (by decide)⟩
    · cases hf
  · cases hf

/-- `drive_ping` hands over the next request when the three tests let it. -/
theorem drivePing_handed (ha : n.ping.active = true) (ho : n.ping.completed = false) :
    (n.drivePing now).handed =
      if reached now n.ping.deadlineTick = false ∧ reached now n.ping.nextActionTick = true then
        n.handed ++ n.nextRequest.toList
      else n.handed := by
  rw [drivePing_open ha ho]
  split
  next hlate => simp [hlate, pingComplete, ha, ho]
  next hlate =>
  split
  next hwait => simp [hwait]
  next hwait =>
  rw [if_pos ⟨Bool.eq_false_of_not_eq_true hlate, Bool.eq_true_of_not_eq_false hwait⟩]
  cases n.nextRequest with
  | none => exact (List.append_nil _).symm
  | some frame =>
    dsimp only
    split
    next he => exact (congrArg (fun r => r.1.handed) he).symm
    next he => exact (congrArg (fun r => r.1.handed) he).symm

/-- A request is attempted exactly when there is one and its times allow it. -/
theorem attempts_iff (h : Configured n) (ha : n.ping.active = true) (ho : n.ping.completed = false)
    (hdestination : n.ping.destinationIpv4 < 2 ^ 32) (hhop : n.ping.nextHopIpv4 < 2 ^ 32)
    (hidentifier : n.ping.identifier < 65536) (hsequence : n.ping.sequence < 65536) :
    n.Attempts now ↔
      reached now n.ping.deadlineTick = false ∧ reached now n.ping.nextActionTick = true ∧
        n.nextRequest ≠ none := by
  unfold Attempts
  rw [drivePing_handed ha ho]
  constructor
  · rintro ⟨frame, hframe, -⟩
    split at hframe
    next htimes =>
      refine ⟨htimes.1, htimes.2, fun hnone => ?_⟩
      rw [hnone] at hframe
      simp at hframe
    · simp at hframe
  · rintro ⟨hlate, hwait, hsome⟩
    obtain ⟨frame, hframe⟩ := Option.ne_none_iff_exists'.mp hsome
    rw [if_pos ⟨hlate, hwait⟩, hframe]
    exact ⟨frame, rfl,
      nextRequest_attempt h hdestination hhop hidentifier hsequence hframe⟩

theorem nextRequest_iff (h : n.ping.stage ≠ .idle) :
    n.nextRequest ≠ none ↔
      (n.ping.stage = .echo → n.arpValid = true ∧ n.arpIpv4 = n.ping.nextHopIpv4) := by
  unfold nextRequest arpCacheMatches
  cases hs : n.ping.stage with
  | idle => exact absurd hs h
  | arp => simp
  | echo => cases hv : n.arpValid <;> simp

end NetState

/-! ## Ticks as times -/

theorem reached_deadline {clock deadline : Nat} (h : clock < deadline)
    (h' : deadline < clock + 2 ^ 32) :
    reached (clock % 2 ^ 32) (deadline % 2 ^ 32) = false ↔ deadline ≤ clock + 2 ^ 31 := by
  unfold reached
  rw [decide_eq_false_iff_not]
  omega

theorem reached_due {clock due : Nat} (h : due ≤ clock) (h' : clock < due + 2 ^ 32) :
    reached (clock % 2 ^ 32) (due % 2 ^ 32) = true ↔ clock < due + 2 ^ 31 := by
  unfold reached
  rw [decide_eq_true_iff]
  omega

theorem reached_zero (clock : Nat) :
    reached (clock % 2 ^ 32) 0 = true ↔ clock % 2 ^ 32 < 2 ^ 31 := by
  unfold reached
  rw [decide_eq_true_iff]
  omega

namespace Timed

variable {s : Timed}

/-- The ping is open and before its deadline, and nothing was sent for
`NET_PING_RETRY_TICKS` ticks. -/
structure Due (s : Timed) : Prop where
  active : s.net.ping.active = true
  incomplete : s.net.ping.completed = false
  early : s.clock < s.deadline
  waited : ∀ t, s.last = some t → t + pingRetryTicks ≤ s.clock

/-- The signed comparisons come out right, and the cache still holds the next hop. -/
structure Favourable (s : Timed) : Prop where
  /-- At most half the range of the counter is left until the deadline. -/
  left : s.deadline ≤ s.clock + 2 ^ 31
  /-- A stage begins in the lower half of the counter's range. -/
  fresh : s.inStage = none → s.clock % 2 ^ 32 < 2 ^ 31
  /-- The last request is less than half the range overdue. -/
  paced : ∀ t, s.inStage = some t → s.clock < t + pingRetryTicks + 2 ^ 31
  /-- No other host took the place of the next hop. -/
  cached : s.net.ping.stage = .echo → s.net.arpValid = true ∧ s.net.arpIpv4 = s.net.ping.nextHopIpv4

theorem Running.reached_next (h : s.Running) (hd : s.Due) :
    reached s.tick s.net.ping.nextActionTick = true ↔
      (s.inStage = none → s.clock % 2 ^ 32 < 2 ^ 31) ∧
        ∀ t, s.inStage = some t → s.clock < t + pingRetryTicks + 2 ^ 31 := by
  have hearly := hd.early
  have htimeout := h.timeout
  unfold Timed.deadline at hearly
  cases hs : s.inStage with
  | none =>
    rw [h.fresh hs]
    have hzero := reached_zero s.clock
    unfold Timed.tick
    simpa using hzero
  | some t =>
    obtain ⟨hnext, hstarted, -, hlast⟩ := h.paced t hs
    have hwaited := hd.waited t hlast
    have hrange : s.clock < t + pingRetryTicks + 2 ^ 32 := by omega
    have hdue := reached_due hwaited hrange
    unfold Timed.tick
    rw [hnext]
    simpa [pingRetryTicks] using hdue

end Timed

/-- **An active ping makes its attempt when it is due, if the counter and the cache allow it.**
In every state that is reached from boot by ticks, polls with any frames, starts and polls of
results: a ping that is due hands the driver an ARP request for its next hop or its echo request
exactly when the state is favourable. -/
theorem due_ping_attempts_iff (clock : Nat) (ready : Bool) (mac : List Byte)
    (transmits : Nat → Bool) (hmac : mac.length = 6) (actions : List NetAction)
    (hd : (run Timed.step (Timed.boot clock ready mac transmits) actions).Due) :
    (run Timed.step (Timed.boot clock ready mac transmits) actions).net.Attempts
        (run Timed.step (Timed.boot clock ready mac transmits) actions).tick ↔
      (run Timed.step (Timed.boot clock ready mac transmits) actions).Favourable := by
  have hsound := run_invariant (I := Timed.Sound) (fun _ a hs => hs.step a) actions
    (Timed.boot_sound clock ready hmac transmits)
  generalize run Timed.step (Timed.boot clock ready mac transmits) actions = s at hd hsound
  have hr := hsound.running hd.active hd.incomplete
  have hearly := hd.early
  have htimeout := hr.timeout
  have hstarted := hr.started
  have hleft := reached_deadline hearly (by unfold Timed.deadline; omega)
  rw [← hr.deadline] at hleft
  rw [NetState.attempts_iff hsound.configured hd.active hd.incomplete hr.destination hr.nextHop
    hr.identifier hr.sequence, hr.reached_next hd, NetState.nextRequest_iff hr.stage]
  exact ⟨fun ⟨hl, hn, hc⟩ => ⟨hleft.mp hl, hn.1, hn.2, hc⟩,
    fun h => ⟨hleft.mpr h.left, ⟨h.fresh, h.paced⟩, h.cached⟩⟩

/-- An ARP packet from a host with this last address byte to the host under test. -/
def arpPacket (host : Byte) (opcode : Nat) : List Byte :=
  thisHost.mac ++ [0x52, 0x54, 0, 0x12, 0x35, host] ++ put16 0x0806 ++ put16 1 ++ put16
    0x0800 ++ [6, 4] ++
    put16 opcode ++ [0x52, 0x54, 0, 0x12, 0x35, host] ++ [10, 0, 2, host] ++ thisHost.mac ++
    put32 hostIpv4

/-- A ping of 10.0.2.9 that has resolved the address and sent its echo request. -/
def resolvedPing : List NetAction := [.start 1 0x0A000209 1000, .poll [some (arpPacket 9 2)]]

/-- The state after these actions and twenty ticks, on a host that was just booted. -/
def afterWait (actions : List NetAction) : Timed :=
  run Timed.step (Timed.boot 0 true thisHost.mac fun _ => true) (actions ++ List.replicate 20 .tick)

theorem afterWait_due {actions : List NetAction}
    (hactive : (afterWait actions).net.ping.active = true)
    (hopen : (afterWait actions).net.ping.completed = false)
    (hclock : (afterWait actions).clock = 20) (hdeadline : (afterWait actions).deadline = 1000)
    (hlast : (afterWait actions).last = some 0) :
    (afterWait actions).Due where
  active := hactive
  incomplete := hopen
  early := by rw [hclock, hdeadline]; decide
  waited t ht := by
    rw [hlast] at ht
    cases ht
    rw [hclock]
    decide

/-- The next request goes out. -/
theorem due_ping_attempts_resolved :
    (afterWait resolvedPing).net.Attempts (afterWait resolvedPing).tick := by
  have hstage : (afterWait resolvedPing).inStage = some 0 := by decide +kernel
  have hclock : (afterWait resolvedPing).clock = 20 := by decide +kernel
  have hdeadline : (afterWait resolvedPing).deadline = 1000 := by decide +kernel
  have hcached : (afterWait resolvedPing).net.arpValid = true ∧ (afterWait resolvedPing).net.arpIpv4
      = (afterWait resolvedPing).net.ping.nextHopIpv4 := by decide +kernel
  have hdue : (afterWait resolvedPing).Due := afterWait_due (by decide +kernel)
    (by decide +kernel) hclock
    hdeadline (by decide +kernel)
  have hiff := due_ping_attempts_iff 0 true thisHost.mac (fun _ => true) rfl
    (resolvedPing ++ List.replicate 20 .tick)
  rw [← afterWait] at hiff
  refine (hiff hdue).mpr ⟨?_, fun hn => ?_, fun t ht => ?_, fun _ => hcached⟩
  · rw [hclock, hdeadline]
    decide
  · rw [hstage] at hn
    cases hn
  · rw [hclock]
    omega

/-- Any ARP packet of another host overwrites the cache, and the ping falls silent. -/
theorem overwritten_cache_silences_ping :
    (afterWait (resolvedPing ++ [.poll [some (arpPacket 7 1)]])).Due ∧
      ¬ (afterWait (resolvedPing ++ [.poll [some (arpPacket 7 1)]])).net.Attempts 20 := by
  refine ⟨afterWait_due (by decide +kernel) (by decide +kernel)
    (by decide +kernel) (by decide +kernel) (by decide +kernel), ?_⟩
  rintro ⟨frame, hframe, -⟩
  have hsilent : ((afterWait (resolvedPing ++ [.poll [some (arpPacket 7 1)]])).net.drivePing
      20).handed
      = (afterWait (resolvedPing ++ [.poll [some (arpPacket 7 1)]])).net.handed := by decide +kernel
  rw [hsilent] at hframe
  simp at hframe

end Riverix.Net
