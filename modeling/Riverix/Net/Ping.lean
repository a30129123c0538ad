import Riverix.Lib.Exchange
import Riverix.Net.Steps
import Riverix.Proc.Resume

/-!
# Pings of the tasks (`proc_sys_ping4`, `proc_service_blocked_net`)

The task table and the network stack together. A task that asks for a ping blocks until
`proc_service_blocked_net` finds the result in the one record that `net.c` keeps. The
record has an owner pid, a flag for active and one for completed, and it is shared by the
tasks that ask, the frames that come in, the timeout and the service.

The log tells what happened: which calls were accepted, which frames were processed and
which results the service gave to which task. (The test of `saved_esp` in
`proc_complete_blocked_ping` is left out: a blocked task has its frame.)
-/

namespace Riverix.Net

open Riverix.Lib Riverix.Proc

/-- A call that `net_ping4_start` accepted: the slot and pid of the task, the destination,
and what the ping was given. -/
structure Request where
  slot : Nat
  pid : Nat
  destination : Nat
  identifier : Nat
  sequence : Nat
  deriving DecidableEq, Repr

/-- The tasks, the network and the log. -/
structure NetKernel where
  proc : ProcState
  net : NetState
  log : List (LogEntry Request (List Byte) Nat Int)

/-- The task is blocked in `ping4`. -/
def isPinging (t : Task) : Bool := t.state == .blocked && t.blockReason == .netPing

/-- One turn of the loop of `proc_service_blocked_net`, with the results so far. -/
def serviceSlot (tasks : Nat → Task) (a : NetState × List (Nat × Int)) (i : Nat) :
    NetState × List (Nat × Int) :=
  if isPinging (tasks i) then
    match a.1.ping4PollResult (tasks i).pid with
    | (n, status, result) =>
      if status = 1 then (n, (i, result) :: a.2)
      else if status < 0 then (n, (i, pingErrInvalid) :: a.2)
      else (n, a.2)
  else a

/-- `proc_service_blocked_net` -/
def serviceBlockedNet (tasks : Nat → Task) (n : NetState) : NetState × List (Nat × Int) :=
  (List.range maxTasks).foldl (serviceSlot tasks) (n, [])

/-- The frames that `net_poll` processes, newest first. -/
def processed (n : NetState) (received : List (Option (List Byte))) : List (List Byte) :=
  if n.ready then ((received.take 8).filterMap id).reverse else []

namespace NetKernel

/-- `proc_schedule`; `received` are the results of the driver. What the service does with
blocked reads and writes comes from `env`. -/
def schedule (k : NetKernel) (received : List (Option (List Byte))) (env : Env) : NetKernel :=
  let net := k.net.poll received env.ticks
  let service := serviceBlockedNet k.proc.tasks net
  let completes i :=
    if isPinging (k.proc.tasks i) then service.2.any fun r => r.1 == i else env.completes i
  { proc := k.proc.schedule { env with completes := completes }
    net := service.1
    log := service.2.map (fun r => .answered r.1 r.2) ++
      ((processed k.net received).map .noted ++ k.log) }

/-- `proc_sys_ping4` of the current task `c`. -/
def sysPing4 (k : NetKernel) (c destination timeout now : Nat)
    (received : List (Option (List Byte))) (env : Env) : NetKernel :=
  let (net, result) := k.net.ping4Start (k.proc.tasks c).pid destination timeout now
  if result ≠ 0 then { k with proc := k.proc.answer c result, net := net }
  else
    { proc := k.proc.waitFor c .netPing
      net := net
      log := .asked ⟨c, (k.proc.tasks c).pid, destination, net.ping.identifier,
        net.ping.sequence⟩ :: k.log
      : NetKernel }.schedule received env

end NetKernel

/-- What the running task or the timer does, with what the driver has received when the
scheduler polls it. -/
inductive NetEvent
  | ping4 (destination timeout now : Nat) (received : List (Option (List Byte))) (env : Env)
  | other (e : Event) (received : List (Option (List Byte)))

/-- One event. -/
def NetKernel.step (k : NetKernel) (e : NetEvent) : NetKernel :=
  match k.proc.current with
  | none => k
  | some c =>
    match e with
    | .ping4 destination timeout now received env =>
      if (k.proc.tasks c).kind = .user then k.sysPing4 c destination timeout now received env else k
    | .other (.ping _) _ => k
    | .other e received =>
      if e.OpenTo (k.proc.tasks c) then
        match k.proc.enter c e with
        | (p, none) => { k with proc := p }
        | (p, some env) => { k with proc := p }.schedule received env
      else k

/-- The kernel has started. -/
def NetKernel.boot (init workerA workerB ready : Bool) (mac : List Byte) (transmits : Nat → Bool) :
    NetKernel where
  proc := (Machine.boot init workerA workerB).proc
  net := NetState.init ready mac transmits
  log := []

/-! ## The record of an accepted call -/

/-- What a call is known by: the host, and the fields of the record that neither a frame nor
`drive_ping` changes. -/
structure Call where
  mac : List Byte
  ipv4 : Nat
  active : Bool
  owner : Nat
  destination : Nat
  identifier : Nat
  sequence : Nat

namespace NetState

def call (n : NetState) : Call :=
  ⟨n.mac, n.ipv4Addr, n.ping.active, n.ping.ownerPid, n.ping.destinationIpv4, n.ping.identifier,
    n.ping.sequence⟩

variable {n n' : NetState} {now : Nat}

theorem Handled.call {reply : Prop} (h : Handled reply n n') : n'.call = n.call := by
  unfold NetState.call
  rw [h.mac, h.ipv4]
  cases h.ping with
  | same he => rw [he]
  | resolved _ he => rw [he]
  | answered _ he => rw [he]

theorem drivePing_call (n : NetState) (now : Nat) : (n.drivePing now).call = n.call := by
  cases drivePing_drove n now with
  | silent he => rw [he]
  | expired he => rw [he]; rfl
  | refused frame he => rw [he]; rfl
  | sent frame he => rw [he]; rfl

theorem receive_call (n : NetState) (r : Option (List Byte)) : (n.receive r).call = n.call := by
  obtain ⟨reply, h⟩ := receive_handled n r
  exact Handled.call h

theorem poll_call (n : NetState) (received : List (Option (List Byte))) (now : Nat) :
    (n.poll received now).call = n.call := by
  unfold NetState.poll
  split
  · exact (drivePing_call ..).trans (run_invariant (I := fun n' => n'.call = n.call)
      (fun n' r h => (receive_call n' r).trans h) (received.take 8) rfl)
  · rfl

/-- What the record of a call holds, `frames` being those processed since: it is that of
the call, and a result is a timeout, or that an echo reply came. -/
structure Serving (mac : List Byte) (ipv4 : Nat) (n : NetState) (r : Request)
    (frames : List (List Byte)) : Prop where
  call : n.call = ⟨mac, ipv4, true, r.pid, r.destination, r.identifier, r.sequence⟩
  result : n.ping.completed = true → n.ping.result = pingErrTimeout ∨
    n.ping.result = pingOk ∧
      ∃ f ∈ frames, EchoReply mac ipv4 f r.destination r.identifier r.sequence

variable {mac : List Byte} {ipv4 : Nat} {r : Request} {frames : List (List Byte)}

theorem Serving.active (h : Serving mac ipv4 n r frames) : n.ping.active = true :=
  congrArg Call.active h.call

theorem Serving.processFrame (h : Serving mac ipv4 n r frames) (f : List Byte) :
    Serving mac ipv4 (n.processFrame f) r (f :: frames) := by
  have hf := processFrame_handled n f
  refine ⟨(Handled.call hf).trans h.call, fun hc => ?_⟩
  have hmore := fun hc => (h.result hc).imp_right fun ⟨hok, g, hg, hreply⟩ =>
    (⟨hok, g, List.mem_cons_of_mem f hg, hreply⟩ : n.ping.result = pingOk ∧
      ∃ g ∈ f :: frames, EchoReply mac ipv4 g r.destination r.identifier r.sequence)
  cases hf.ping with
  | same he =>
    rw [he] at hc ⊢
    exact hmore hc
  | resolved _ he =>
    rw [he] at hc ⊢
    exact hmore hc
  | answered hreply he =>
    rw [he]
    refine Or.inr ⟨rfl, f, List.mem_cons_self .., ?_⟩
    have hcall : EchoReply n.call.mac n.call.ipv4 f n.call.destination n.call.identifier
      n.call.sequence := hreply
    rwa [h.call] at hcall

theorem Serving.drivePing (h : Serving mac ipv4 n r frames) (now : Nat) :
    Serving mac ipv4 (n.drivePing now) r frames := by
  refine ⟨(drivePing_call n now).trans h.call, ?_⟩
  cases drivePing_drove n now with
  | silent he => rw [he]; exact h.result
  | expired he => rw [he]; exact fun _ => Or.inl rfl
  | refused frame he => rw [he]; exact h.result
  | sent frame he => rw [he]; exact h.result

theorem Serving.receive (received : List (Option (List Byte))) (h : Serving mac ipv4 n r frames) :
    Serving mac ipv4 (received.foldl NetState.receive n) r
      ((received.filterMap id).reverse ++ frames) := by
  induction received generalizing n frames with
  | nil => exact h
  | cons x received ih =>
    cases x with
    | none => exact ih h
    | some f =>
      have hcount : Serving mac ipv4 { n with rxPackets := (n.rxPackets + 1) % 2 ^ 32 } r frames :=
        ⟨h.call, h.result⟩
      have hrest := ih (hcount.processFrame f)
      rw [List.foldl_cons, show (some f :: received).filterMap id
        = f :: received.filterMap id from rfl,
        List.reverse_cons, List.append_assoc]
      exact hrest

/-- A poll while the call is open. -/
theorem Serving.poll (h : Serving mac ipv4 n r frames) (received : List (Option (List Byte)))
    (now : Nat) : Serving mac ipv4 (n.poll received now) r (processed n received ++ frames) := by
  unfold NetState.poll processed
  split
  · exact (Serving.receive _ h).drivePing now
  · exact h

/-- No call is open. -/
structure Idle (mac : List Byte) (ipv4 : Nat) (n : NetState) : Prop where
  host : n.mac = mac ∧ n.ipv4Addr = ipv4
  active : n.ping.active = false

/-- A poll while none is. -/
theorem Idle.poll (h : Idle mac ipv4 n) (received : List (Option (List Byte))) (now : Nat) :
    Idle mac ipv4 (n.poll received now) := by
  have hcall := poll_call n received now
  exact ⟨⟨(congrArg Call.mac hcall).trans h.host.1, (congrArg Call.ipv4 hcall).trans h.host.2⟩,
    (congrArg Call.active hcall).trans h.active⟩

/-- The record that `net_ping4_start` sets up is that of the call. -/
theorem startPing_serving (n : NetState) (pid destination timeout now slot : Nat) :
    Serving n.mac n.ipv4Addr (n.startPing pid destination timeout now)
      ⟨slot, pid, destination, (n.startPing pid destination timeout now).ping.identifier,
        (n.startPing pid destination timeout now).ping.sequence⟩ [] :=
  ⟨rfl, fun hc => Bool.noConfusion hc⟩

/-- Also after the first `drive_ping`, which may find the deadline passed already. -/
theorem Serving.first {slot pid destination : Nat}
    (h : Serving mac ipv4 n ⟨slot, pid, destination, n.ping.identifier, n.ping.sequence⟩ [])
    (now : Nat) : Serving mac ipv4 (n.drivePing now)
      ⟨slot, pid, destination, (n.drivePing now).ping.identifier,
        (n.drivePing now).ping.sequence⟩ [] := by
  have hcall := drivePing_call n now
  have hid : (n.drivePing now).ping.identifier = n.ping.identifier :=
    congrArg Call.identifier hcall
  have hseq : (n.drivePing now).ping.sequence = n.ping.sequence := congrArg Call.sequence hcall
  rw [hid, hseq]
  exact h.drivePing now

/-- `net_ping4_start` refuses and changes nothing, or there was no open call and now there
is one. -/
theorem ping4Start_cases (n : NetState) (pid destination timeout now : Nat) :
    (∃ result, result ≠ 0 ∧ n.ping4Start pid destination timeout now = (n, result)) ∨
      ¬ (n.ping.active = true ∧ n.ping.completed = false) ∧
        ∃ n', n.ping4Start pid destination timeout now = (n', 0) ∧
          ∀ slot, Serving n.mac n.ipv4Addr n'
            ⟨slot, pid, destination, n'.ping.identifier, n'.ping.sequence⟩ [] := by
  unfold ping4Start
  by_cases hready : n.ready = false
  · exact Or.inl ⟨pingErrNotReady, by decide, if_pos hready⟩
  rw [if_neg hready]
  by_cases hargs : pid = 0 ∨ destination = 0
  · exact Or.inl ⟨pingErrInvalid, by decide, if_pos hargs⟩
  rw [if_neg hargs]
  by_cases hbusy : n.ping.active = true ∧ n.ping.completed = false
  · exact Or.inl ⟨pingErrBusy, by decide, if_pos hbusy⟩
  rw [if_neg hbusy]
  exact Or.inr ⟨hbusy, _, rfl, fun slot =>
    (startPing_serving n pid destination timeout now slot).first now⟩

end NetState

/-! ## The service -/

open NetState

section Service

variable {s : ProcState} {env : Env} {i slot : Nat} {mac : List Byte} {ipv4 : Nat} {r : Request}
  {frames : List (List Byte)} {n : NetState} {tasks : Nat → Task}

theorem isPinging_iff (t : Task) :
    isPinging t = true ↔ t.state = .blocked ∧ t.blockReason = .netPing := by
  simp [isPinging]

theorem isPinging_state {t : Task} (h : t.state ≠ .blocked) : isPinging t = false := by
  simp [isPinging, h]

/-- Tasks that do not ping are passed over. -/
theorem service_skip (L : List Nat) (h : ∀ i ∈ L, isPinging (tasks i) = false)
    (a : NetState × List (Nat × Int)) : L.foldl (serviceSlot tasks) a = a := by
  induction L with
  | nil => rfl
  | cons i L ih =>
    have hi : serviceSlot tasks a i = a := by
      unfold serviceSlot
      rw [if_neg (by rw [h i (List.mem_cons_self ..)]; simp)]
    rw [List.foldl_cons, hi]
    exact ih fun j hj => h j (List.mem_cons_of_mem _ hj)

/-- The one task that pings is served. -/
theorem service_one (hslot : slot < maxTasks)
    (hone : ∀ i, isPinging (tasks i) = true → i = slot) (n : NetState) :
    serviceBlockedNet tasks n = serviceSlot tasks (n, []) slot := by
  obtain ⟨xs, ys, hsplit⟩ := List.append_of_mem (List.mem_range.mpr hslot)
  have hnodup : (xs ++ slot :: ys).Nodup := hsplit ▸ List.nodup_range
  obtain ⟨-, hys, hdisj⟩ := List.nodup_append.mp hnodup
  have hquiet : ∀ L : List Nat, slot ∉ L → ∀ i ∈ L, isPinging (tasks i) = false := by
    intro L hL i hi
    by_contra hp
    rw [Bool.not_eq_false] at hp
    exact hL (hone i hp ▸ hi)
  unfold serviceBlockedNet
  rw [hsplit, List.foldl_append, List.foldl_cons, service_skip xs (hquiet xs fun hx =>
    hdisj slot hx slot (List.mem_cons_self ..) rfl),
      service_skip ys (hquiet ys (List.nodup_cons.mp hys).1)]

/-- It gets its result when there is one, and nothing before. -/
theorem serviceSlot_serving (h : Serving mac ipv4 n r frames)
    (hme : isPinging (tasks r.slot) = true) (hpid : (tasks r.slot).pid = r.pid) :
    serviceSlot tasks (n, []) r.slot
      = if n.ping.completed then ({ n with ping := Ping.zero }, [(r.slot, n.ping.result)])
        else (n, []) := by
  have hpoll : n.ping4PollResult (tasks r.slot).pid
      = if n.ping.completed = false then (n, 0, 0)
        else ({ n with ping := Ping.zero }, 1, n.ping.result) := by
    unfold ping4PollResult
    rw [if_neg
      (by rw [h.active, show n.ping.ownerPid = _ from congrArg Call.owner h.call, hpid]; simp)]
  unfold serviceSlot
  rw [if_pos hme]
  rw [hpoll]
  cases n.ping.completed <;> rfl

/-- Waking and servicing a task leaves it alone or makes it ready. -/
theorem serviced_cases (ticks : Nat) (b : Bool) (t : Task) :
    (ProcState.serviceBlocked b (ProcState.wakeSleeper ticks t)).pid = t.pid ∧
      (ProcState.serviceBlocked b (ProcState.wakeSleeper ticks t) = t ∨
        (ProcState.serviceBlocked b (ProcState.wakeSleeper ticks t)).state = .runnable) := by
  unfold ProcState.serviceBlocked ProcState.wakeSleeper
  split <;> split <;> first | exact ⟨rfl, Or.inr rfl⟩ | exact ⟨rfl, Or.inl rfl⟩

theorem serviced_pinging (ticks : Nat) (b : Bool) (t : Task) :
    isPinging (ProcState.serviceBlocked b (ProcState.wakeSleeper ticks t))
      = (isPinging t && !b) := by
  cases hp : isPinging t with
  | true =>
    obtain ⟨hst, hreason⟩ := (isPinging_iff t).mp hp
    have hwake : ProcState.wakeSleeper ticks t = t := by
      unfold ProcState.wakeSleeper
      rw [if_neg (by rw [hst]; simp)]
    rw [hwake]
    unfold ProcState.serviceBlocked
    cases b with
    | true =>
      rw [if_pos (by rw [hst, hreason]; simp)]
      rfl
    | false =>
      rw [if_neg (by simp), hp]
      rfl
  | false =>
    rcases (serviced_cases ticks b t).2 with h | h
    · rw [h, hp]
      rfl
    · exact isPinging_state (by rw [h]; simp)

theorem beforeCollect_pinging (s : ProcState) (env : Env) (i : Nat) :
    isPinging ((s.beforeCollect env).tasks i) = (isPinging (s.tasks i) && !env.completes i) ∧
      ((s.beforeCollect env).tasks i).pid = (s.tasks i).pid := by
  rw [beforeCollect_tasks]
  split
  next hrun =>
    -- the running task is made ready
    rw [serviced_pinging, (serviced_cases ..).1, isPinging_state (by simp), isPinging_state]
    · exact ⟨rfl, rfl⟩
    · rw [hrun.2]
      simp
  · exact ⟨serviced_pinging .., (serviced_cases ..).1⟩

/-- Who is blocked in `ping4` after a schedule: those who were and got no result. -/
theorem schedule_pinging (hs : Settled s) (env : Env) (i : Nat) :
    isPinging ((s.schedule env).tasks i) = (isPinging (s.tasks i) && !env.completes i) ∧
      (isPinging ((s.schedule env).tasks i) = true →
        ((s.schedule env).tasks i).pid = (s.tasks i).pid) := by
  obtain ⟨p, -, hsched, hrun⟩ := hs.idle.picks env
  obtain ⟨hping, hpid⟩ := beforeCollect_pinging s env i
  have hcollect : isPinging ((s.beforeCollect env).collectReapableZombies.tasks i)
        = isPinging ((s.beforeCollect env).tasks i) ∧
      (isPinging ((s.beforeCollect env).collectReapableZombies.tasks i) = true →
        ((s.beforeCollect env).collectReapableZombies.tasks i).pid
          = ((s.beforeCollect env).tasks i).pid) := by
    rcases collect_tasks (s.beforeCollect env) i with h | ⟨hz, h⟩
    · rw [h]
      exact ⟨rfl, fun _ => rfl⟩
    · rw [h, isPinging_state (t := (s.beforeCollect env).tasks i) (by rw [hz]; simp)]
      exact ⟨rfl, fun hp => absurd hp (by decide)⟩
  rw [hsched, ← hping, ← hcollect.1, ← hpid]
  by_cases hip : i = p
  · -- the task that is picked was ready and runs now
    subst hip
    have hready : isPinging ((s.beforeCollect env).collectReapableZombies.tasks i) = false :=
      isPinging_state (by rw [hrun]; simp)
    have hself : isPinging (((s.beforeCollect env).collectReapableZombies.activateTask i).tasks i)
        = false := by
      refine isPinging_state ?_
      rw [show ((s.beforeCollect env).collectReapableZombies.activateTask i).tasks i = _ from
        setTask_self _ i _]
      simp
    rw [hself, hready]
    exact ⟨rfl, by simp⟩
  · rw [show ((s.beforeCollect env).collectReapableZombies.activateTask p).tasks i = _ from
      setTask_ne _ _ hip]
    exact ⟨rfl, hcollect.2⟩

end Service

/-! ## The whole -/

/-- What may be answered to a call: a result that is not INVALID, to the task that made the
call; and OK only if an echo reply to it was among the frames processed since. -/
structure AnswerOk (mac : List Byte) (ipv4 : Nat) (r : Request) (frames : List (List Byte))
    (slot : Nat) (result : Int) : Prop where
  own : slot = r.slot
  valid : result ≠ pingErrInvalid
  reply : result = pingOk → ∃ f ∈ frames, EchoReply mac ipv4 f r.destination r.identifier r.sequence

/-- The record, the log and the tasks agree about the open call. -/
inductive Tracked (mac : List Byte) (ipv4 : Nat) (k : NetKernel) : Prop
  | idle (none : pending k.log = none) (record : Idle mac ipv4 k.net)
      (quiet : ∀ i, isPinging (k.proc.tasks i) = false)
  | serving (r : Request) (frames : List (List Byte)) (open_ : pending k.log = some (r, frames))
      (record : Serving mac ipv4 k.net r frames) (slot : r.slot < maxTasks)
      (blocked : isPinging (k.proc.tasks r.slot) = true) (pid : (k.proc.tasks r.slot).pid = r.pid)
      (one : ∀ i, isPinging (k.proc.tasks i) = true → i = r.slot)

/-- The state between two events; a completed record has been delivered. -/
structure Linked (mac : List Byte) (ipv4 : Nat) (k : NetKernel) : Prop where
  sched : Scheduled k.proc
  orderly : Orderly (AnswerOk mac ipv4) k.log
  tracked : Tracked mac ipv4 k
  undone : k.net.ping.active = true → k.net.ping.completed = false

section Kernel

variable {k k' : NetKernel} {mac : List Byte} {ipv4 c : Nat} {env : Env}

/-- **The scheduler** polls the network and delivers what is completed. -/
theorem schedule_linked (hs : Settled k.proc) (ho : Orderly (AnswerOk mac ipv4) k.log)
    (ht : Tracked mac ipv4 k) (received : List (Option (List Byte))) (env : Env) :
    Linked mac ipv4 (k.schedule received env) := by
  have hsched : ∀ env, Scheduled (k.proc.schedule env) := hs.schedule
  have hlog := orderly_noted (processed k.net received) ho
  cases ht with
  | idle hnone hrecord hquiet =>
    have hpoll := hrecord.poll received env.ticks
    have hservice : serviceBlockedNet k.proc.tasks (k.net.poll received env.ticks)
        = (k.net.poll received env.ticks, []) := service_skip _ (fun i _ => hquiet i) _
    unfold NetKernel.schedule
    dsimp only
    rw [hservice]
    refine ⟨hsched _, hlog, .idle ?_ hpoll fun i => ?_, fun ha => ?_⟩
    · show pending ([] ++ _) = none
      rw [List.nil_append, pending_noted, hnone]
      rfl
    · exact ((schedule_pinging hs _ i).1).trans (by rw [hquiet i]; rfl)
    · exact absurd (ha.symm.trans hpoll.active) (by simp)
  | serving r frames hopen hrecord hslot hblocked hpid hone =>
    have hpoll := hrecord.poll received env.ticks
    have hservice := (service_one hslot hone (k.net.poll received env.ticks)).trans
      (serviceSlot_serving hpoll hblocked hpid)
    have hpending : pending ((processed k.net received).map .noted ++ k.log)
        = some (r, processed k.net received ++ frames) := by
      rw [pending_noted, hopen]
      rfl
    have hothers : ∀ env i, isPinging ((k.proc.schedule env).tasks i) = true → i = r.slot := by
      intro env i hi
      rw [(schedule_pinging hs env i).1, Bool.and_eq_true] at hi
      exact hone i hi.1
    unfold NetKernel.schedule
    dsimp only
    rw [hservice]
    cases hdone : (k.net.poll received env.ticks).ping.completed with
    | true =>
      have hresult := hpoll.result hdone
      refine ⟨hsched _, ⟨⟨r, _, hpending, rfl, ?_, fun hok => ?_⟩, hlog⟩, .idle rfl ?_ fun i => ?_,
        fun ha => absurd ha (by simp [Ping.zero])⟩
      · show (k.net.poll received env.ticks).ping.result ≠ pingErrInvalid
        rcases hresult with h | ⟨h, -⟩ <;> rw [h] <;> decide
      · rcases hresult with h | ⟨-, h⟩
        · exact absurd (h.symm.trans hok) (by decide)
        · exact h
      · exact ⟨⟨congrArg Call.mac hpoll.call, congrArg Call.ipv4 hpoll.call⟩, rfl⟩
      · -- the task that pinged has been completed
        by_contra hp
        rw [Bool.not_eq_false] at hp
        have hi := hothers _ i hp
        rw [hi, (schedule_pinging hs _ r.slot).1] at hp
        simp [hblocked] at hp
    | false =>
      refine ⟨hsched _, hlog, .serving r _ hpending hpoll hslot ?_ ?_ (hothers _), fun _ => hdone⟩
      · refine ((schedule_pinging hs _ r.slot).1).trans ?_
        simp [hblocked]
      · refine ((schedule_pinging hs _ r.slot).2 ?_).trans hpid
        rw [(schedule_pinging hs _ r.slot).1]
        simp [hblocked]

/-- Calls that return at once do not change who pings. -/
theorem pinging_of_returns {s s' : ProcState} {e : Event} (hl : Live s c)
    (h : s.enter c e = (s', none)) (i : Nat) : isPinging (s'.tasks i) = isPinging (s.tasks i) ∧
      (isPinging (s.tasks i) = true → (s'.tasks i).pid = (s.tasks i).pid) := by
  rcases (enter_answered hl h).slot i with hk | hb | hf
  · exact ⟨by simp [isPinging, hk.state, hk.blockReason], fun _ => hk.pid⟩
  · rw [isPinging_state (t := s.tasks i) (by rw [hb.free]; simp),
      isPinging_state (by rw [hb.state]; simp)]
    exact ⟨rfl, by simp⟩
  · rw [hf.reset, isPinging_state (t := s.tasks i) (by rw [hf.zombie]; simp)]
    exact ⟨rfl, by simp⟩

/-- Calls other than `ping4` do not change who pings on the way to the scheduler. -/
theorem pinging_of_entered {s s' : ProcState} {e : Event} (hrun : (s.tasks c).state = .running)
    (hne : e.reason ≠ .netPing) (h : Entered s s' c e) (i : Nat) :
    isPinging (s'.tasks i) = isPinging (s.tasks i) ∧
      (isPinging (s.tasks i) = true → (s'.tasks i).pid = (s.tasks i).pid) := by
  by_cases hic : i = c
  · subst hic
    have hold : isPinging (s.tasks i) = false := isPinging_state (by rw [hrun]; simp)
    have hnew : isPinging (s'.tasks i) = false := by
      by_contra hp
      rw [Bool.not_eq_false, isPinging_iff] at hp
      exact hne ((h.reason hp.1 (by rw [hrun]; simp)).symm.trans hp.2)
    rw [hold, hnew]
    exact ⟨rfl, by simp⟩
  rcases h.others i hic with hk | hw
  · exact ⟨by simp [isPinging, hk.state, hk.blockReason], fun _ => hk.pid⟩
  · have hold : isPinging (s.tasks i) = false := by simp [isPinging, hw.waited.2]
    rw [hold, isPinging_state (by rw [hw.awake.1]; simp)]
    exact ⟨rfl, by simp⟩

theorem Tracked.proc (h : Tracked mac ipv4 k) {p : ProcState}
    (hp : ∀ i, isPinging (p.tasks i) = isPinging (k.proc.tasks i) ∧
      (isPinging (k.proc.tasks i) = true → (p.tasks i).pid = (k.proc.tasks i).pid)) :
    Tracked mac ipv4 { k with proc := p } := by
  cases h with
  | idle hnone hrecord hquiet => exact .idle hnone hrecord fun i => (hp i).1.trans (hquiet i)
  | serving r frames hopen hrecord hslot hblocked hpid hone =>
    refine .serving r frames hopen hrecord hslot ((hp r.slot).1.trans hblocked)
      (((hp r.slot).2 hblocked).trans hpid) fun i hi => hone i ?_
    rw [← (hp i).1]
    exact hi

/-- A call of `ping4`. -/
theorem sysPing4_linked (h : Linked mac ipv4 k) (hcur : k.proc.current = some c)
    (hu : (k.proc.tasks c).kind = .user) (destination timeout now : Nat)
    (received : List (Option (List Byte))) (env : Env) :
    Linked mac ipv4 (k.sysPing4 c destination timeout now received env) := by
  obtain ⟨hc, hrun⟩ := h.sched.running hcur
  unfold NetKernel.sysPing4
  rcases ping4Start_cases k.net (k.proc.tasks c).pid destination timeout now with
    ⟨result, hne, hstart⟩ | ⟨hfree, n', hstart, hserving⟩
  · -- refused: only the result is there
    rw [hstart]
    dsimp only
    rw [if_pos hne]
    refine ⟨h.sched.setTask hcur hu rfl, h.orderly, h.tracked.proc fun i => ?_, h.undone⟩
    have hk := answer_kept k.proc c result i
    exact ⟨by simp [isPinging, hk.state, hk.blockReason], fun _ => hk.pid⟩
  rw [hstart]
  dsimp only
  rw [if_neg (not_not.mpr rfl)]
  -- the record was free, so no call was open
  cases h.tracked with
  | serving r frames hopen hrecord => exact absurd ⟨hrecord.active, h.undone hrecord.active⟩ hfree
  | idle hnone hrecord hquiet =>
    have hself : (k.proc.waitFor c .netPing).tasks c
        = { k.proc.tasks c with blockReason := .netPing, state := .blocked } := setTask_self _ c _
    have hother : ∀ i, i ≠ c → (k.proc.waitFor c .netPing).tasks i = k.proc.tasks i :=
      fun i hi => setTask_ne _ _ hi
    have hrecord' := hserving c
    rw [hrecord.host.1, hrecord.host.2] at hrecord'
    have hlog : ∀ r, Orderly (AnswerOk mac ipv4) (.asked r :: k.log) := fun r => ⟨hnone, h.orderly⟩
    refine schedule_linked (h.sched.toSettled.setTask hu (by simp)) (hlog _)
      (.serving _ [] rfl hrecord' hc ?_ ?_ fun i hi => ?_) received env
    · show isPinging ((k.proc.waitFor c .netPing).tasks c) = true
      rw [hself]
      rfl
    · show ((k.proc.waitFor c .netPing).tasks c).pid = _
      rw [hself]
    · by_contra hic
      have hi : isPinging ((k.proc.waitFor c .netPing).tasks i) = true := hi
      rw [hother i hic, hquiet i] at hi
      simp at hi

/-- **One event.** -/
theorem step_linked (k : NetKernel) (e : NetEvent) (h : Linked mac ipv4 k) :
    Linked mac ipv4 (k.step e) := by
  unfold NetKernel.step
  split
  · exact h
  next c hcur =>
  obtain ⟨hc, hrun⟩ := h.sched.running hcur
  have hlive : Live k.proc c := ⟨hc, by rw [hrun]; simp⟩
  split
  next destination timeout now received env =>
    split
    next hu => exact sysPing4_linked h hcur hu destination timeout now received env
    · exact h
  · exact h
  next e received hne =>
  split
  next he =>
    have hreason : e.reason ≠ .netPing := by
      cases e with
      | ping env => exact absurd rfl (hne env)
      | _ => simp [Event.reason]
    split
    next p hent =>
      have hstep := step_scheduled k.proc e h.sched
      rw [step_enter hcur he, hent] at hstep
      exact ⟨hstep, h.orderly, h.tracked.proc (pinging_of_returns hlive hent), h.undone⟩
    next p env hent =>
      exact schedule_linked (k := { k with proc := p }) (enter_settled h.sched hcur he hent)
        h.orderly (h.tracked.proc (pinging_of_entered hrun hreason (enter_entered hent)))
        received env
  · exact h

theorem boot_linked (init workerA workerB ready : Bool) (mac : List Byte) (transmits : Nat → Bool) :
    Linked mac hostIpv4 (NetKernel.boot init workerA workerB ready mac transmits) := by
  obtain ⟨hok, hstates⟩ := Machine.boot_started init workerA workerB
  have hsched := hok.sched
  unfold NetKernel.boot
  generalize (Machine.boot init workerA workerB).proc = p at hsched hstates ⊢
  refine ⟨hsched, trivial, .idle rfl ⟨⟨rfl, rfl⟩, rfl⟩ fun i => isPinging_state fun hb => ?_,
    fun ha => Bool.noConfusion ha⟩
  have hmem := hstates i
  rw [show (p.tasks i).state = .blocked from hb] at hmem
  simp at hmem

end Kernel

/-- **Pings are safe**, in every state of every run from the start, whatever frames come in
and whatever the driver and the clock do. At most one task is in `ping4`. The record is
that of the open call. A call is answered before the next one is accepted. And an answer is
the first one to the last accepted call, goes to the task that made it, is never INVALID,
and is OK only if an echo reply to that very ping was processed since the call. -/
theorem run_pings_safely (init workerA workerB ready : Bool) (mac : List Byte)
    (transmits : Nat → Bool) (events : List NetEvent) :
    let k := run NetKernel.step (NetKernel.boot init workerA workerB ready mac transmits) events
    (∀ i j, isPinging (k.proc.tasks i) = true → isPinging (k.proc.tasks j) = true → i = j) ∧
    (∀ r frames, pending k.log = some (r, frames) →
      k.net.ping.active = true ∧ k.net.ping.ownerPid = r.pid ∧
      k.net.ping.destinationIpv4 = r.destination ∧ k.net.ping.identifier = r.identifier ∧
      k.net.ping.sequence = r.sequence ∧ isPinging (k.proc.tasks r.slot) = true) ∧
    (∀ later r' mid r earlier, k.log = later ++ .asked r' :: (mid ++ .asked r :: earlier) →
      ∃ slot result, LogEntry.answered slot result ∈ mid) ∧
    (∀ later slot result earlier, k.log = later ++ .answered slot result :: earlier →
      ∃ (r : Request) (frames : List (List Byte)) (before : _),
        earlier = frames.map .noted ++ .asked r :: before ∧ slot = r.slot ∧
        result ≠ pingErrInvalid ∧
        (result = pingOk →
          ∃ f ∈ frames, EchoReply mac hostIpv4 f r.destination r.identifier r.sequence)) := by
  have h : Linked mac hostIpv4
      (run NetKernel.step (NetKernel.boot init workerA workerB ready mac transmits) events) :=
    run_invariant step_linked events (boot_linked init workerA workerB ready mac transmits)
  refine ⟨fun i j hi hj => ?_, fun r frames hp => ?_, fun later r' mid r earlier hlog => ?_,
    fun later slot result earlier hlog => ?_⟩
  · cases h.tracked with
    | idle _ _ hquiet => exact absurd (hi.symm.trans (hquiet i)) (by simp)
    | serving r _ _ _ _ _ _ hone => exact (hone i hi).trans (hone j hj).symm
  · cases h.tracked with
    | idle hnone => exact absurd (hp.symm.trans hnone) (by simp)
    | serving r₁ frames₁ hopen hrecord _ hblocked =>
      obtain ⟨rfl, -⟩ := Prod.mk.inj (Option.some.inj (hp.symm.trans hopen))
      have hcall := hrecord.call
      exact ⟨hrecord.active, congrArg Call.owner hcall, congrArg Call.destination hcall,
        congrArg Call.identifier hcall, congrArg Call.sequence hcall, hblocked⟩
  · have ho := h.orderly
    rw [hlog] at ho
    exact ho.asked
  · have ho := h.orderly
    rw [hlog] at ho
    obtain ⟨r, frames, before, hsplit, hok⟩ := ho.answered
    exact ⟨r, frames, before, hsplit, hok.own, hok.valid, hok.reply⟩

end Riverix.Net
