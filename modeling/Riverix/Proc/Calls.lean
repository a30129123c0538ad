import Riverix.Proc.Scheduling

/-!
# System calls up to the scheduler

A call of the running task either returns to it or ends in `proc_schedule`. `enter` is
what the call does before that: the table when the task gets its result, or the table
that `proc_schedule` starts from, with what the rest of the kernel contributes to it.
`step_enter` puts the two parts together again. `Turn` lists what the first one can come to,
and everything that is said about a call is read off that list.
-/

namespace Riverix.Proc

open ProcState

namespace ProcState

/-- The table while the exiting task looks for its parent. -/
def exiting (s : ProcState) (c : Nat) (status : Int) : ProcState :=
  (s.reparentChildren c).setTask c
    { (s.reparentChildren c).tasks c with
      exitStatus := status
      waitTargetPid := -1
      waitStatusUser := 0
      blockReason := .none
      state := .zombie
      reapReady := ((s.reparentChildren c).tasks c).parentPid == 0 }

/-- The running task `c` waits for `reason`. -/
def waitFor (s : ProcState) (c : Nat) (reason : BlockReason) : ProcState :=
  s.setTask c { s.tasks c with blockReason := reason, state := .blocked }

/-- The result of a call that returns at once. -/
def answer (s : ProcState) (c : Nat) (result : Int) : ProcState :=
  s.setTask c { s.tasks c with savedEax := result }

/-- `proc_sys_waitpid` up to the scheduler. -/
def enterWaitpid (s : ProcState) (c : Nat) (pid : Int) (statusUser : Nat) (writable copied : Bool)
    (env : Env) : ProcState × Option Env :=
  if (s.tasks c).kind ≠ .user then (s.answer c (-1), none)
  else if pid = 0 ∨ (statusUser ≠ 0 ∧ writable = false) then (s.answer c (-1), none)
  else
    match s.findZombieChild (s.tasks c) pid with
    | some i => (s.collectZombieNow c i statusUser copied, none)
    | none =>
      if s.hasChild (s.tasks c) pid then
        (s.setTask c
          { s.tasks c with
            waitTargetPid := pid
            waitStatusUser := statusUser
            blockReason := .waitpid
            state := .blocked }, some env)
      else (s.answer c (-1), none)

/-- `proc_sys_sleep` up to the scheduler. -/
def enterSleep (s : ProcState) (c : Nat) (ticks : Nat) (env : Env) : ProcState :=
  if ticks = 0 then s.answer c 0
  else
    s.setTask c
      { s.tasks c with
        savedEax := 0
        wakeTick := (env.ticks + ticks) % 2 ^ 32
        state := .sleeping }

/-- A call of the running task `c`, up to the scheduler. -/
def enter (s : ProcState) (c : Nat) : Event → ProcState × Option Env
  | .fork resources => (s.sysFork c resources, none)
  | .exit status copied env => ((s.exiting c status).notifyParentExit c copied, some env)
  | .waitpid pid statusUser writable copied env =>
    s.enterWaitpid c pid statusUser writable copied env
  | .sleep ticks env => (s.enterSleep c ticks env, some env)
  | .read env => (s.waitFor c .ioRead, some env)
  | .write env => (s.waitFor c .ioWrite, some env)
  | .ping env => (s.waitFor c .netPing, some env)
  | .schedule env => (s, some env)

/-- The second part of a call. -/
def leave : ProcState × Option Env → ProcState
  | (s, none) => s
  | (s, some env) => s.schedule env

end ProcState

/-- What the task may do: a kernel task only yields and is preempted. -/
def Event.OpenTo (e : Event) (t : Task) : Prop :=
  t.kind = .user ∨ ∃ env, e = .schedule env

instance (e : Event) (t : Task) : Decidable (e.OpenTo t) :=
  match e with
  | .schedule env => isTrue (Or.inr ⟨env, rfl⟩)
  | .fork _ | .exit .. | .waitpid .. | .sleep .. | .read _ | .write _ | .ping _ =>
    decidable_of_iff (t.kind = .user) (by simp [Event.OpenTo])

/-- The event with another contribution of the rest of the kernel. -/
def Event.withEnv (f : Env → Env) : Event → Event
  | .fork resources => .fork resources
  | .exit status copied env => .exit status copied (f env)
  | .waitpid pid statusUser writable copied env => .waitpid pid statusUser writable copied (f env)
  | .sleep ticks env => .sleep ticks (f env)
  | .read env => .read (f env)
  | .write env => .write (f env)
  | .ping env => .ping (f env)
  | .schedule env => .schedule (f env)

variable {s s' : ProcState} {c i j : Nat} {e : Event} {env : Env} {o : Option Env}

theorem sysWaitpid_eq (s : ProcState) (c : Nat) (pid : Int) (statusUser : Nat)
    (writable copied : Bool) (env : Env) :
    s.sysWaitpid c pid statusUser writable copied env
      = leave (s.enterWaitpid c pid statusUser writable copied env) := by
  unfold sysWaitpid enterWaitpid
  by_cases hk : (s.tasks c).kind ≠ .user
  · rw [if_pos hk, if_pos hk]
    rfl
  rw [if_neg hk, if_neg hk]
  by_cases ha : pid = 0 ∨ (statusUser ≠ 0 ∧ writable = false)
  · rw [if_pos ha, if_pos ha]
    rfl
  rw [if_neg ha, if_neg ha]
  cases s.findZombieChild (s.tasks c) pid with
  | some i => rfl
  | none => cases s.hasChild (s.tasks c) pid <;> rfl

theorem sysSleep_eq (s : ProcState) (c ticks : Nat) (env : Env) :
    s.sysSleep c ticks env = (s.enterSleep c ticks env).schedule env := by
  unfold sysSleep enterSleep
  split <;> rfl

/-- A step is the call up to the scheduler, and the scheduler. -/
theorem step_enter (hcur : s.current = some c) (he : e.OpenTo (s.tasks c)) :
    s.step e = leave (s.enter c e) := by
  unfold step
  rw [hcur]
  rcases he with hu | ⟨env, rfl⟩
  · have hk : (s.tasks c).kind ≠ .kernel := by rw [hu]; simp
    cases e with
    | waitpid pid statusUser writable copied env => exact (if_neg hk).trans (sysWaitpid_eq ..)
    | sleep ticks env => exact (if_neg hk).trans (sysSleep_eq ..)
    | schedule env => rfl
    | _ => exact if_neg hk
  · rfl

/-- What the rest of the kernel contributes to the event, if it comes to the scheduler. -/
def Event.scheduling : Event → Option Env
  | .fork _ => none
  | .exit _ _ env => some env
  | .waitpid _ _ _ _ env => some env
  | .sleep _ env => some env
  | .read env => some env
  | .write env => some env
  | .ping env => some env
  | .schedule env => some env

/-- What a call does before the scheduler depends on the tick count only. -/
theorem enter_withEnv {f : Env → Env} (hf : ∀ env, (f env).ticks = env.ticks) (e : Event) :
    s.enter c (e.withEnv f) = ((s.enter c e).1, (s.enter c e).2.map f) := by
  cases e with
  | waitpid pid statusUser writable copied env =>
    unfold Event.withEnv enter enterWaitpid
    dsimp only
    split
    · rfl
    split
    · rfl
    split
    · rfl
    split <;> rfl
  | sleep ticks env =>
    unfold Event.withEnv enter enterSleep
    dsimp only
    rw [hf]
    rfl
  | _ => rfl

theorem openTo_withEnv {f : Env → Env} {t : Task} (e : Event) :
    (e.withEnv f).OpenTo t ↔ e.OpenTo t := by
  unfold Event.OpenTo
  cases e <;> simp [Event.withEnv]

/-- A call that comes to the scheduler is a step, whatever the scheduler then finds. -/
theorem step_of_enter (hcur : s.current = some c) (he : e.OpenTo (s.tasks c))
    (h : s.enter c e = (s', some env)) (env' : Env) (ht : env'.ticks = env.ticks) :
    ∃ e', s.step e' = s'.schedule env' := by
  have hwith := enter_withEnv (s := s) (c := c) (f := fun x => { env' with ticks := x.ticks })
    (fun _ => rfl) e
  have hstep :=
    step_enter hcur ((openTo_withEnv (f := fun x => { env' with ticks := x.ticks }) e).mpr he)
  rw [hwith, h] at hstep
  refine ⟨_, hstep.trans ?_⟩
  show s'.schedule { env' with ticks := env.ticks } = s'.schedule env'
  rw [← ht]

/-! ## What a call comes to -/

/-- What a task waits for that blocks in the event. -/
def Event.reason : Event → BlockReason
  | .waitpid .. => .waitpid
  | .read _ => .ioRead
  | .write _ => .ioWrite
  | .ping _ => .netPing
  | _ => .none

/-- The zombie that a `waitpid` hands out at once and releases. -/
def ProcState.collected (s : ProcState) (c : Nat) : Event → Option Nat
  | .waitpid pid statusUser writable copied _ =>
    if (s.tasks c).kind ≠ .user ∨ pid = 0 ∨ (statusUser ≠ 0 ∧ writable = false) then none
    else if statusUser ≠ 0 ∧ copied = false then none
    else s.findZombieChild (s.tasks c) pid
  | _ => none

/-- The task stops, or goes on, in the event, and is still the same task. -/
structure Suspended (e : Event) (t t' : Task) : Prop where
  pid : t'.pid = t.pid
  parentPid : t'.parentPid = t.parentPid
  kind : t'.kind = t.kind
  reapReady : t'.reapReady = t.reapReady
  state : t'.state = t.state ∨ t'.state = .sleeping ∨ t'.state = .blocked ∧
    t'.blockReason = e.reason

/-- Everything that a call of `c` can come to before the scheduler. -/
inductive Turn (s : ProcState) (c : Nat) : Event → ProcState × Option Env → Prop
  | yields (env : Env) : Turn s c (.schedule env) (s, some env)
  | answers {e : Event} (result : Int) (hn : s.collected c e = none) :
      Turn s c e (s.answer c result, none)
  | forks {i : Nat} (hi : s.findUnused = some i) : Turn s c (.fork true)
      ({ s.setTask i { Task.reset with
            kind := .user, pid := s.nextPid, parentPid := (s.tasks c).pid, state := .runnable } with
          nextPid := (s.nextPid + 1) % 2 ^ 32 }.answer c s.nextPid, none)
  | collects {pid : Int} {statusUser i : Nat} {writable copied : Bool} {env : Env}
      (hi : s.findZombieChild (s.tasks c) pid = some i)
      (hok : statusUser = 0 ∨ (writable = true ∧ copied = true))
      (hc : s.collected c (.waitpid pid statusUser writable copied env) = some i) :
      Turn s c (.waitpid pid statusUser writable copied env)
        (({ s with returned := ⟨(s.tasks c).pid, (s.tasks i).pid⟩ :: s.returned }.answer c
          (s.tasks i).pid).releaseResources i, none)
  | waits {pid : Int} {statusUser : Nat} {writable copied : Bool} {env : Env}
      (hnone : s.findZombieChild (s.tasks c) pid = none) :
      Turn s c (.waitpid pid statusUser writable copied env)
        (s.setTask c { s.tasks c with
          waitTargetPid := pid, waitStatusUser := statusUser, blockReason := .waitpid
          state := .blocked }, some env)
  | suspends {e : Event} {t : Task} {env : Env} (ht : Suspended e (s.tasks c) t)
      (hr : e.reason ≠ .waitpid) (he : e.scheduling = some env) :
      Turn s c e (s.setTask c t, some env)
  | exits {status : Int} {copied : Bool} {env : Env} : Turn s c (.exit status copied env)
      ((s.exiting c status).notifyParentExit c copied, some env)

theorem enterWaitpid_turn (s : ProcState) (c : Nat) (pid : Int) (statusUser : Nat)
    (writable copied : Bool) (env : Env) : Turn s c (.waitpid pid statusUser writable copied env)
      (s.enterWaitpid c pid statusUser writable copied env) := by
  unfold enterWaitpid
  split
  next hk => exact .answers _ (if_pos (Or.inl hk))
  next hk =>
  split
  next ha => exact .answers _ (if_pos (Or.inr ha))
  next ha =>
  have hopen := not_or.mpr ⟨hk, ha⟩
  split
  next i hi =>
    unfold collectZombieNow
    split
    next hc => exact .answers _ ((if_neg hopen).trans (if_pos hc))
    next hc =>
      refine .collects hi ?_ ((if_neg hopen).trans ((if_neg hc).trans hi))
      by_cases h0 : statusUser = 0 <;> simp_all
  next hnone =>
    split
    · exact .waits hnone
    · exact .answers _ (by simp [collected, hnone])

theorem enter_turn (s : ProcState) (c : Nat) (e : Event) : Turn s c e (s.enter c e) := by
  cases e with
  | fork resources =>
    show Turn s c _ (s.sysFork c resources, none)
    unfold sysFork
    split
    · exact .answers _ rfl
    next i hi =>
    split
    · exact .answers _ rfl
    next hc =>
      obtain rfl : resources = true := by simpa using (not_or.mp hc).2
      exact .forks hi
  | exit status copied env => exact .exits
  | waitpid pid statusUser writable copied env => exact enterWaitpid_turn ..
  | sleep ticks env =>
    show Turn s c _ (s.enterSleep c ticks env, some env)
    unfold enterSleep
    split
    · exact .suspends ⟨rfl, rfl, rfl, rfl, Or.inl rfl⟩ (by simp [Event.reason]) rfl
    · exact .suspends ⟨rfl, rfl, rfl, rfl, Or.inr (Or.inl rfl)⟩ (by simp [Event.reason]) rfl
  | schedule env => exact .yields env
  | _ =>
    exact .suspends ⟨rfl, rfl, rfl, rfl, Or.inr (Or.inr ⟨rfl, rfl⟩)⟩ (by simp [Event.reason]) rfl

theorem turn_of_enter {r : ProcState × Option Env} (h : s.enter c e = r) : Turn s c e r :=
  h ▸ enter_turn s c e

theorem enter_scheduling (h : s.enter c e = (s', some env)) : e.scheduling = some env := by
  cases turn_of_enter h with
  | suspends ht hr he => exact he
  | _ => rfl

/-- A step does nothing, or what the call comes to. -/
theorem step_turn (hcur : s.current = some c) (e : Event) : s.step e = s ∨
    e.OpenTo (s.tasks c) ∧ ∃ r, s.enter c e = r ∧ Turn s c e r ∧ s.step e = leave r := by
  by_cases he : e.OpenTo (s.tasks c)
  · exact Or.inr ⟨he, _, rfl, enter_turn s c e, step_enter hcur he⟩
  refine Or.inl ?_
  have hk : (s.tasks c).kind = .kernel := by
    cases hkind : (s.tasks c).kind with
    | kernel => rfl
    | user => exact absurd (Or.inl hkind) he
  unfold step
  rw [hcur]
  cases e with
  | schedule env => exact absurd (Or.inr ⟨env, rfl⟩) he
  | _ => exact if_pos hk

/-- What the exit of the zombie `c` does to its parent. -/
inductive Told (s : ProcState) (c : Nat) (copied : Bool) : ProcState → Prop
  | orphan : Told s c copied (s.setTask c { s.tasks c with parentPid := 0, reapReady := true })
  | unheard : Told s c copied s
  | woken {p : Nat} (hp : s.findByPid (s.tasks c).parentPid = some p)
      (hb : (s.tasks p).state = .blocked ∧ (s.tasks p).blockReason = .waitpid) :
      Told s c copied (s.finishBlockedWait p c copied)

theorem notifyParentExit_told (s : ProcState) (c : Nat) (copied : Bool) :
    Told s c copied (s.notifyParentExit c copied) := by
  unfold notifyParentExit
  split
  next h0 =>
    have he : { s.tasks c with reapReady := true }
        = { s.tasks c with parentPid := 0, reapReady := true } := by rw [← h0]
    rw [he]
    exact .orphan
  split
  · exact .orphan
  next p hp =>
  split
  · exact .unheard
  next hb =>
    simp only [not_or, not_not] at hb
    exact .woken hp ⟨hb.1, hb.2.1⟩

/-! ## What a call does to the table -/

/-- What the scheduler and the services look at is the same. -/
structure Kept (t t' : Task) : Prop where
  pid : t'.pid = t.pid
  kind : t'.kind = t.kind
  state : t'.state = t.state
  blockReason : t'.blockReason = t.blockReason
  wakeTick : t'.wakeTick = t.wakeTick

theorem Kept.refl (t : Task) : Kept t t := ⟨rfl, rfl, rfl, rfl, rfl⟩

theorem Kept.trans {t t' t'' : Task} (h : Kept t t') (h' : Kept t' t'') : Kept t t'' :=
  ⟨h'.pid.trans h.pid, h'.kind.trans h.kind, h'.state.trans h.state,
    h'.blockReason.trans h.blockReason, h'.wakeTick.trans h.wakeTick⟩

theorem answer_kept (s : ProcState) (c : Nat) (result : Int) (j : Nat) :
    Kept (s.tasks j) ((s.answer c result).tasks j) := by
  unfold answer
  by_cases hj : j = c
  · rw [hj, setTask_self]
    exact ⟨rfl, rfl, rfl, rfl, rfl⟩
  · rw [setTask_ne _ _ hj]
    exact Kept.refl _

/-- A task that waited for a child has been woken. -/
structure Woken (t t' : Task) : Prop where
  pid : t'.pid = t.pid
  kind : t'.kind = t.kind
  waited : t.state = .blocked ∧ t.blockReason = .waitpid
  awake : t'.state = .runnable ∧ t'.blockReason = .none

/-- The table when a call of `c` has come to the scheduler: the task itself has the state
that the call gave it, and at most a parent has been woken. -/
structure Entered (s s' : ProcState) (c : Nat) (e : Event) : Prop where
  current : s'.current = s.current
  idle : s'.idle = s.idle
  pid : (s'.tasks c).pid = (s.tasks c).pid
  kind : (s'.tasks c).kind = (s.tasks c).kind
  live : (s.tasks c).state ≠ .unused → (s'.tasks c).state ≠ .unused
  reason : (s'.tasks c).state = .blocked → (s.tasks c).state ≠ .blocked →
    (s'.tasks c).blockReason = e.reason
  others : ∀ j, j ≠ c → Kept (s.tasks j) (s'.tasks j) ∨ Woken (s.tasks j) (s'.tasks j)

theorem Entered.refl (s : ProcState) (c : Nat) (e : Event) : Entered s s c e :=
  ⟨rfl, rfl, rfl, rfl, id, fun h hn => absurd h hn, fun _ _ => Or.inl (Kept.refl _)⟩

/-- A call that changes its own slot only. -/
theorem Entered.setTask {t : Task} (hp : t.pid = (s.tasks c).pid) (hk : t.kind = (s.tasks c).kind)
    (hl : (s.tasks c).state ≠ .unused → t.state ≠ .unused)
    (hr : t.state = .blocked → (s.tasks c).state ≠ .blocked → t.blockReason = e.reason) :
    Entered s (s.setTask c t) c e := by
  refine ⟨rfl, rfl, ?_, ?_, ?_, ?_, ?_⟩
  · rw [setTask_self, hp]
  · rw [setTask_self, hk]
  · rw [setTask_self]
    exact hl
  · rw [setTask_self]
    exact hr
  · intro j hj
    rw [setTask_ne _ _ hj]
    exact Or.inl (Kept.refl _)

theorem exiting_ne (hj : j ≠ c) (status : Int) :
    (s.exiting c status).tasks j = reparent (s.tasks c).pid (s.adopter c) (s.tasks j) :=
  setTask_ne _ _ hj

theorem exiting_self (s : ProcState) (c : Nat) (status : Int) :
    ((s.exiting c status).tasks c).state = .zombie ∧
      ((s.exiting c status).tasks c).pid = (s.tasks c).pid ∧
      ((s.exiting c status).tasks c).kind = (s.tasks c).kind ∧
      ((s.exiting c status).tasks c).parentPid
        = (reparent (s.tasks c).pid (s.adopter c) (s.tasks c)).parentPid := by
  have hkeep := reparent_keeps (s.tasks c).pid (s.adopter c) (s.tasks c)
  unfold exiting
  rw [setTask_self]
  exact ⟨rfl, hkeep.1, hkeep.2.2, rfl⟩

theorem exiting_kept (hj : j ≠ c) (status : Int) :
    Kept (s.tasks j) ((s.exiting c status).tasks j) := by
  rw [exiting_ne hj]
  rcases reparent_cases (s.tasks c).pid (s.adopter c) (s.tasks j) with h | ⟨-, h⟩ <;> rw [h] <;>
    exact ⟨rfl, rfl, rfl, rfl, rfl⟩

theorem exiting_entered (s : ProcState) (c : Nat) (status : Int) (e : Event) :
    Entered s (s.exiting c status) c e := by
  obtain ⟨hz, hp, hk, -⟩ := exiting_self s c status
  exact ⟨rfl, rfl, hp, hk, fun _ => by rw [hz]; simp, fun hb => absurd (hz.symm.trans hb) (by simp),
    fun j hj => Or.inl (exiting_kept hj status)⟩

/-- The exit of the zombie `c` is told to its parent. -/
theorem notifyParentExit_entered (hz : (s.tasks c).state = .zombie) (copied : Bool) (e : Event) :
    Entered s (s.notifyParentExit c copied) c e := by
  have htold := notifyParentExit_told s c copied
  generalize s.notifyParentExit c copied = s' at htold ⊢
  cases htold with
  | orphan => exact Entered.setTask rfl rfl (by simp) (by simp [hz])
  | unheard => exact Entered.refl s c e
  | @woken p hp hb =>
    have hpc : c ≠ p := by
      intro he
      rw [← he, hz] at hb
      exact absurd hb.1 (by simp)
    have htasks := finishBlockedWait_tasks hb.1 hpc copied
    obtain ⟨hcur, hidle⟩ := finishBlockedWait_current s p c copied
    obtain ⟨eax, hself⟩ := htasks c
    rw [if_pos rfl] at hself
    refine ⟨hcur, hidle, ?_, ?_, ?_, ?_, ?_⟩
    · rw [hself]
    · rw [hself]
    · rw [hself]
      exact id
    · rw [hself]
      intro hbl
      exact absurd (hz.symm.trans hbl) (by simp)
    · intro j hj
      obtain ⟨eax, hj'⟩ := htasks j
      rw [if_neg hj] at hj'
      rw [hj']
      split
      next hjp =>
        rw [hjp]
        exact Or.inr ⟨rfl, rfl, hb, rfl, rfl⟩
      · exact Or.inl (Kept.refl _)

/-- Every call that comes to the scheduler. -/
theorem enter_entered (h : s.enter c e = (s', some env)) : Entered s s' c e := by
  cases turn_of_enter h with
  | yields env => exact Entered.refl s c _
  | waits hnone => exact Entered.setTask rfl rfl (by simp) (fun _ _ => rfl)
  | suspends ht hr he =>
    refine Entered.setTask ht.pid ht.kind (fun hl => ?_) (fun hb hn => ?_)
    · rcases ht.state with hst | hst | ⟨hst, -⟩ <;> rw [hst]
      · exact hl
      · simp
      · simp
    · rcases ht.state with hst | hst | ⟨-, hreason⟩
      · exact absurd (hst.symm.trans hb) hn
      · exact absurd (hst.symm.trans hb) (by simp)
      · exact hreason
  | @exits status copied =>
    have hexit := exiting_entered s c status (.exit status copied env)
    have hz := (exiting_self s c status).1
    have htold := notifyParentExit_entered hz copied (.exit status copied env)
    refine ⟨htold.current.trans hexit.current, htold.idle.trans hexit.idle,
      htold.pid.trans hexit.pid, htold.kind.trans hexit.kind,
        fun _ => htold.live (by rw [hz]; simp),
      fun hb _ => htold.reason hb (by rw [hz]; simp), fun j hj => ?_⟩
    have hkept := exiting_kept (s := s) hj status
    rcases htold.others j hj with h' | h'
    · exact Or.inl (hkept.trans h')
    · refine Or.inr ⟨h'.pid.trans hkept.pid, h'.kind.trans hkept.kind, ?_, h'.awake⟩
      rw [← hkept.state, ← hkept.blockReason]
      exact h'.waited

/-- A new task stands in a slot that was free. -/
structure Born (t t' : Task) : Prop where
  free : t.state = .unused
  state : t'.state = .runnable

/-- A zombie was released. -/
structure Freed (t t' : Task) : Prop where
  zombie : t.state = .zombie
  reset : t' = Task.reset

/-- The table after a call that returns at once. -/
structure Answered (s s' : ProcState) : Prop where
  current : s'.current = s.current
  idle : ∀ k, s.idle = some k → (s.tasks k).state ≠ .zombie → s'.idle = some k
  slot : ∀ j, Kept (s.tasks j) (s'.tasks j) ∨ Born (s.tasks j) (s'.tasks j) ∨
    Freed (s.tasks j) (s'.tasks j)

/-- Every call that returns at once. -/
theorem enter_answered (hl : Live s c) (h : s.enter c e = (s', none)) : Answered s s' := by
  cases turn_of_enter h with
  | answers result hn =>
    exact ⟨rfl, fun k hk _ => hk, fun j => Or.inl (answer_kept s c _ j)⟩
  | @forks i hi =>
    obtain ⟨-, hun⟩ := findUnused_some hi
    have hic : i ≠ c := by
      intro he
      rw [he] at hun
      exact hl.2 hun
    refine ⟨rfl, fun k hk _ => hk, fun j => ?_⟩
    by_cases hji : j = i
    · subst hji
      refine Or.inr (Or.inl ⟨hun, ?_⟩)
      unfold answer
      rw [setTask_ne _ _ hic]
      exact congrArg Task.state (setTask_self s j _)
    · refine Or.inl ((?_ : Kept _ _).trans (answer_kept _ c _ j))
      show Kept (s.tasks j) ((s.setTask i _).tasks j)
      rw [setTask_ne _ _ hji]
      exact Kept.refl _
  | @collects pid statusUser i _ _ _ hi =>
    obtain ⟨-, hz, -⟩ := findZombieChild_some hi
    refine ⟨rfl, fun k hk hkz => ?_, fun j => ?_⟩
    · refine (if_neg fun hki => hkz ?_).trans hk
      rw [Option.some.inj (hk.symm.trans hki)]
      exact hz
    · by_cases hji : j = i
      · subst hji
        exact Or.inr (Or.inr ⟨hz, setTask_self _ _ _⟩)
      · refine Or.inl ?_
        show Kept _ (((ProcState.setTask _ c _).setTask i Task.reset).tasks j)
        rw [setTask_ne _ _ hji]
        exact answer_kept s c _ j

/-! ## Who runs after a call -/

/-- The idle task has been left alone. -/
theorem IdleOk.of_kept (h : IdleOk s) (hcur : s'.current = s.current)
    (hkept : ∀ k, s.idle = some k → (s.tasks k).kind = .kernel →
      (s.tasks k).state = .runnable ∨ (s.tasks k).state = .running →
      s'.idle = some k ∧ Kept (s.tasks k) (s'.tasks k)) : IdleOk s' := by
  obtain ⟨k, hk, hid, hkind, hst⟩ := h
  obtain ⟨hid', hkeep⟩ := hkept k hid hkind (hst.imp_right And.left)
  refine ⟨k, hk, hid', hkeep.kind.trans hkind, ?_⟩
  rw [hkeep.state, hcur]
  exact hst

/-- A task that was ready or running is left alone by a call that returns. -/
theorem Answered.kept (h : Answered s s') {j : Nat}
    (hst : (s.tasks j).state = .runnable ∨ (s.tasks j).state = .running) :
    Kept (s.tasks j) (s'.tasks j) := by
  rcases h.slot j with hk | hb | hf
  · exact hk
  · rw [hb.free] at hst
    simp at hst
  · rw [hf.zombie] at hst
    simp at hst

theorem Answered.ready (h : Answered s s') (hi : IdleOk s) (hc : CurrentOk s) :
    IdleOk s' ∧ CurrentOk s' := by
  constructor
  · refine hi.of_kept h.current fun k hk _ hst => ⟨h.idle k hk ?_, h.kept hst⟩
    rcases hst with hst | hst <;> rw [hst] <;> simp
  · obtain ⟨c, hlt, hcur, hrun⟩ := hc
    exact ⟨c, hlt, h.current.trans hcur, (h.kept (Or.inr hrun)).state.trans hrun⟩

theorem Answered.scheduled (h : Answered s s') (hs : Scheduled s) : Scheduled s' := by
  obtain ⟨hidle, hcurrent⟩ := h.ready hs.idle hs.current
  refine ⟨⟨hidle, fun i hi hr => h.current.trans (hs.only i hi ?_)⟩, hcurrent⟩
  rcases h.slot i with hk | hb | hf
  · exact hk.state.symm.trans hr
  · exact absurd (hb.state.symm.trans hr) (by simp)
  · rw [hf.reset] at hr
    exact absurd hr (by decide)

/-- The scheduler finds the idle task. -/
theorem enter_idle (hi : IdleOk s) (he : e.OpenTo (s.tasks c)) (h : s.enter c e = (s', some env)) :
    IdleOk s' := by
  rcases he with hu | ⟨env₁, rfl⟩
  · have hent := enter_entered h
    refine hi.of_kept hent.current fun k hk hkind hst => ⟨hent.idle.trans hk, ?_⟩
    have hkc : k ≠ c := by
      intro hkc
      rw [hkc, hu] at hkind
      simp at hkind
    refine (hent.others k hkc).resolve_right fun hw => ?_
    rw [hw.waited.1] at hst
    simp at hst
  · rw [← (Prod.mk.inj h).1]
    exact hi

/-- The scheduler finds the idle task and at most one that was running. -/
theorem enter_settled (hs : Scheduled s) (hcur : s.current = some c) (he : e.OpenTo (s.tasks c))
    (h : s.enter c e = (s', some env)) : Settled s' := by
  have hent := enter_entered h
  refine ⟨enter_idle hs.idle he h, fun i hi hr => hent.current.trans (hs.only i hi ?_)⟩
  by_cases hic : i = c
  · rw [hic]
    exact (hs.running hcur).2
  · rcases hent.others i hic with hk | hw
    · exact hk.state.symm.trans hr
    · exact absurd (hw.awake.1.symm.trans hr) (by simp)

/-- Every event leaves a running task, and an idle task to pick. -/
theorem step_ready (e : Event) (hi : IdleOk s) (hc : CurrentOk s) :
    IdleOk (s.step e) ∧ CurrentOk (s.step e) := by
  obtain ⟨c, -, hcur, -⟩ := id hc
  rcases step_turn hcur e with hstep | ⟨he, ⟨s', _ | env⟩, h, -, hstep⟩ <;> rw [hstep]
  · exact ⟨hi, hc⟩
  · exact (enter_answered (hc.live hcur) h).ready hi hc
  · exact (enter_idle hi he h).schedule env

/-- Every event leaves one running task. -/
theorem step_scheduled (s : ProcState) (e : Event) (h : Scheduled s) : Scheduled (s.step e) := by
  obtain ⟨c, -, hcur, -⟩ := h.current
  rcases step_turn hcur e with hstep | ⟨he, ⟨s', _ | env⟩, hent, -, hstep⟩ <;> rw [hstep]
  · exact h
  · exact (enter_answered (h.current.live hcur) hent).scheduled h
  · exact (enter_settled h hcur he hent).schedule env

end Riverix.Proc
