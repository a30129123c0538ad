import Riverix.Proc.Resume

/-!
# How long a sleep lasts (`proc.c`, `pit.c`)

`proc_sys_sleep` stores the tick at which the task is to wake, and `proc_wake_sleepers` compares
it with the tick count by the sign of the 32-bit difference. The count wraps around; `elapsed`
is how often it was increased, and does not.

Nothing but `proc_wake_sleepers` touches a task that sleeps (`step_asleep`). With `d` ticks to
go the test sees `-d`, which is negative for `d` up to `2 ^ 31` and positive above. So a task
that asked for more than that is woken by the very `proc_schedule` that its call ends in, and a
task that asked for at most that is woken on time (**`sleep_lasts_iff`**).
-/

namespace Riverix.Proc

open Riverix.Lib ProcState

/-- The statics of `pit.c`. -/
structure Pit where
  tickCount : Nat
  hardwareTickSeen : Bool
  small : tickCount < 2 ^ 32

namespace Pit

/-- `tick_count++` -/
def bump (p : Pit) : Pit := { p with
  tickCount := (p.tickCount + 1) % 2 ^ 32
  small := Nat.mod_lt _ (by decide) }

/-- `pit_handle_tick` -/
def handleTick (p : Pit) : Pit := { p.bump with hardwareTickSeen := true }

/-- `pit_ensure_progress` -/
def ensureProgress (p : Pit) : Pit := if p.hardwareTickSeen then p else p.bump

/-- What `pit_ensure_progress` adds. -/
def fallback (p : Pit) : Nat := if p.hardwareTickSeen then 0 else 1

theorem ensureProgress_tickCount (p : Pit) :
    p.ensureProgress.tickCount = (p.tickCount + p.fallback) % 2 ^ 32 := by
  have hsmall := p.small
  unfold ensureProgress fallback
  split
  · rw [Nat.add_zero, Nat.mod_eq_of_lt hsmall]
  · rfl

end Pit

/-- The task table with the timer. -/
structure Clocked where
  proc : ProcState
  pit : Pit
  elapsed : Nat

/-- A timer interrupt, up to `proc_schedule`, or what the running task does. -/
inductive ClockEvent
  | tick
  | call (e : Event)

namespace Clocked

/-- `proc_schedule` with the timer. -/
def schedule (s : Clocked) (p : ProcState) (env : Env) : Clocked where
  proc := p.schedule { env with ticks := s.pit.ensureProgress.tickCount }
  pit := s.pit.ensureProgress
  elapsed := s.elapsed + s.pit.fallback

/-- What a call of the running task comes to before the scheduler, at the current tick. -/
def enter (s : Clocked) (e : Event) : Option (ProcState × Option Env) :=
  match s.proc.current with
  | none => none
  | some c =>
    if e.OpenTo (s.proc.tasks c) then
      some (s.proc.enter c (e.withEnv fun env => { env with ticks := s.pit.tickCount }))
    else none

/-- One event. -/
def step (s : Clocked) : ClockEvent → Clocked
  | .tick => { s with pit := s.pit.handleTick, elapsed := s.elapsed + 1 }
  | .call e =>
    match s.enter e with
    | none => s
    | some (p, none) => { s with proc := p }
    | some (p, some env) => s.schedule p env

/-- Whether the event runs `proc_schedule`. -/
def schedules (s : Clocked) : ClockEvent → Bool
  | .tick => false
  | .call e =>
    match s.enter e with
    | some (_, some _) => true
    | _ => false

/-- The task in slot `c` sleeps. -/
def Asleep (s : Clocked) (c : Nat) : Prop := (s.proc.tasks c).state = .sleeping

instance (s : Clocked) (c : Nat) : Decidable (s.Asleep c) := inferInstanceAs (Decidable (_ = _))

end Clocked

variable {p : ProcState} {c j : Nat} {e : Event}

/-! ## The scheduler and a task that sleeps -/

/-- The test of `proc_wake_sleepers`. -/
def due (ticks wakeTick : Nat) : Bool := (ticks + 2 ^ 32 - wakeTick) % 2 ^ 32 < 2 ^ 31

/-- With `n` ticks asked for and `a` gone by. -/
theorem due_iff (t : Nat) {n a : Nat} (hn : n < 2 ^ 32) (ha : a < n + 2 ^ 31) :
    due ((t + a) % 2 ^ 32) ((t + n) % 2 ^ 32) = true ↔ n ≤ a ∨ 2 ^ 31 + a < n := by
  unfold due
  rw [decide_eq_true_iff]
  omega

theorem beforeCollect_sleeper (hj : (p.tasks j).state = .sleeping) (env : Env) :
    (p.beforeCollect env).tasks j
      = if due env.ticks (p.tasks j).wakeTick then
        { p.tasks j with wakeTick := 0, state := .runnable }
        else p.tasks j := by
  have hserved : ∀ t : Task, t.state ≠ .blocked → serviceBlocked (env.completes j) t = t :=
    fun t ht => if_neg fun h => ht h.1
  have hnot : ¬(p.current = some j ∧ (p.tasks j).state = .running) := by
    rw [hj]
    simp
  rw [beforeCollect_tasks, if_neg hnot]
  unfold wakeSleeper due
  simp only [hj, true_and, decide_eq_true_eq]
  split
  · exact hserved _ (by simp)
  · exact hserved _ (by rw [hj]; simp)

/-- The scheduler wakes a task that is due and leaves one that is not alone. -/
theorem schedule_sleeper (hs : Settled p) (hj : (p.tasks j).state = .sleeping) (env : Env) :
    (due env.ticks (p.tasks j).wakeTick = true → ((p.schedule env).tasks j).state ≠ .sleeping)
      ∧ (due env.ticks (p.tasks j).wakeTick = false → (p.schedule env).tasks j = p.tasks j) := by
  obtain ⟨i, -, heq, hrun⟩ := hs.idle.picks env
  have hwoken := beforeCollect_sleeper hj env
  have hkept := (collect_tasks (p.beforeCollect env) j).resolve_right fun h => by
    rw [hwoken] at h
    split at h
    · exact absurd h.1 (by simp)
    · exact absurd (hj.symm.trans h.1) (by simp)
  rw [hwoken] at hkept
  have hslot : (p.schedule env).tasks j = if j = i then
      { (p.beforeCollect env).collectReapableZombies.tasks j with state := .running }
      else (p.beforeCollect env).collectReapableZombies.tasks j := by
    rw [heq]
    unfold activateTask
    split
    next h => rw [← h]; exact setTask_self _ _ _
    next h => exact setTask_ne _ _ h
  constructor
  · intro hdue
    rw [if_pos hdue] at hkept
    rw [hslot]
    split
    · simp
    · rw [hkept]
      simp
  · intro hdue
    rw [hdue, if_neg (by simp)] at hkept
    have hji : j ≠ i := fun h => by
      rw [← h, hkept, hj] at hrun
      simp at hrun
    rw [hslot, if_neg hji, hkept]

/-- The scheduler does not put the running task to sleep. -/
theorem schedule_running (hs : Settled p) (hcur : p.current = some j)
    (hj : (p.tasks j).state = .running) (env : Env) :
    ((p.schedule env).tasks j).state ≠ .sleeping := by
  obtain ⟨i, -, heq, -⟩ := hs.idle.picks env
  have hready : ((p.beforeCollect env).tasks j).state = .runnable := by
    rw [beforeCollect_tasks, if_pos ⟨hcur, hj⟩, service_runnable rfl]
  have hkept := (collect_tasks (p.beforeCollect env) j).resolve_right fun h =>
    absurd (hready.symm.trans h.1) (by simp)
  rw [heq]
  unfold activateTask
  by_cases hji : j = i
  · rw [hji]
    show ((ProcState.setTask _ i _).tasks i).state ≠ _
    rw [setTask_self]
    simp
  · show ((ProcState.setTask _ i _).tasks j).state ≠ _
    rw [setTask_ne _ _ hji, hkept, hready]
    simp

/-! ## One event -/

namespace Clocked

variable {s s' : Clocked} {ev : ClockEvent}

theorem enter_some {r : ProcState × Option Env} (hs : Scheduled s.proc) (h : s.enter e = some r) :
    ∃ c, s.proc.current = some c ∧ Live s.proc c ∧
      (e.withEnv fun env => { env with ticks := s.pit.tickCount }).OpenTo (s.proc.tasks c) ∧
      s.proc.enter c (e.withEnv fun env => { env with ticks := s.pit.tickCount }) = r := by
  unfold enter at h
  split at h
  · cases h
  next c hcur =>
  obtain ⟨hlt, hrun⟩ := hs.running hcur
  split at h
  next hopen =>
    refine ⟨c, hcur, ⟨hlt, by rw [hrun]; simp⟩, ?_, Option.some.inj h⟩
    rw [openTo_withEnv]
    exact hopen
  · cases h

/-- What an event does to the task table: a call returns, or the scheduler runs. -/
theorem step_cases (hs : Scheduled s.proc) (ev : ClockEvent) :
    (s.schedules ev = false ∧ Answered s.proc (s.step ev).proc) ∨
      (s.schedules ev = true ∧ ∃ c e q env, s.proc.current = some c ∧ Settled q ∧
        Entered s.proc q c e ∧ (s.step ev).proc = q.schedule env ∧
        env.ticks = (s.step ev).pit.tickCount) := by
  have hsame : Answered s.proc s.proc := ⟨rfl, fun _ hk _ => hk, fun _ => Or.inl (Kept.refl _)⟩
  cases ev with
  | tick => exact Or.inl ⟨rfl, hsame⟩
  | call e =>
    unfold schedules step
    dsimp only
    rcases hent : s.enter e with _ | ⟨q, _ | env⟩
    · exact Or.inl ⟨rfl, hsame⟩
    · obtain ⟨c, -, hlive, -, heq⟩ := enter_some hs hent
      exact Or.inl ⟨rfl, enter_answered hlive heq⟩
    · obtain ⟨c, hcur, -, hopen, heq⟩ := enter_some hs hent
      exact Or.inr ⟨rfl, c, _, q, _, hcur, enter_settled hs hcur hopen heq,
        enter_entered heq, rfl, rfl⟩

theorem step_scheduled (s : Clocked) (ev : ClockEvent) (hs : Scheduled s.proc) :
    Scheduled (s.step ev).proc := by
  rcases step_cases hs ev with ⟨-, hans⟩ | ⟨-, c, e, q, env, -, hq, -, heq, -⟩
  · exact hans.scheduled hs
  · rw [heq]
    exact hq.schedule env

/-- The count and `elapsed` move together. -/
structure Ticked (s s' : Clocked) : Prop where
  later : s.elapsed ≤ s'.elapsed
  count : s'.pit.tickCount = (s.pit.tickCount + (s'.elapsed - s.elapsed)) % 2 ^ 32

theorem Ticked.refl (s : Clocked) : Ticked s s :=
  ⟨le_refl _, by rw [Nat.sub_self, Nat.add_zero, Nat.mod_eq_of_lt s.pit.small]⟩

theorem Ticked.trans {s₁ s₂ s₃ : Clocked} (h : Ticked s₁ s₂) (h' : Ticked s₂ s₃) :
    Ticked s₁ s₃ := by
  have hl := h.later
  have hl' := h'.later
  have hc := h.count
  have hc' := h'.count
  exact ⟨by omega, by omega⟩

theorem schedule_ticked (s : Clocked) (q : ProcState) (env : Env) :
    Ticked s (s.schedule q env) := by
  refine ⟨Nat.le_add_right _ _, ?_⟩
  show s.pit.ensureProgress.tickCount
    = (s.pit.tickCount + (s.elapsed + s.pit.fallback - s.elapsed)) % 2 ^ 32
  rw [Pit.ensureProgress_tickCount, Nat.add_sub_cancel_left]

theorem step_ticked (s : Clocked) (ev : ClockEvent) : Ticked s (s.step ev) := by
  unfold step
  split
  · refine ⟨Nat.le_succ _, ?_⟩
    show (s.pit.tickCount + 1) % 2 ^ 32 = (s.pit.tickCount + (s.elapsed + 1 - s.elapsed)) % 2 ^ 32
    rw [Nat.add_sub_cancel_left]
  next e =>
  split
  · exact Ticked.refl s
  · exact ⟨le_refl _, (Ticked.refl s).count⟩
  · exact schedule_ticked s _ _

/-- **Only the scheduler wakes a task that sleeps, and only if it is due.** -/
theorem step_asleep (hs : Scheduled s.proc) (hj : s.Asleep j) (ev : ClockEvent) :
    (s.schedules ev = true → due (s.step ev).pit.tickCount (s.proc.tasks j).wakeTick = true →
        ¬(s.step ev).Asleep j)
      ∧ (¬(s.schedules ev = true ∧ due (s.step ev).pit.tickCount (s.proc.tasks j).wakeTick = true) →
        (s.step ev).Asleep j
          ∧ ((s.step ev).proc.tasks j).wakeTick = (s.proc.tasks j).wakeTick) := by
  have hother : ∀ c, s.proc.current = some c → j ≠ c := fun c hcur hjc => by
    have hrun := (hs.running hcur).2
    rw [← hjc] at hrun
    exact absurd (hj.symm.trans hrun) (by simp)
  rcases step_cases hs ev with ⟨hno, hans⟩ | ⟨hyes, c, e, q, env, hcur, hq, hin, heq, hticks⟩
  · rcases hans.slot j with hkept | hborn | hfreed
    · exact ⟨by simp [hno], fun _ => ⟨hkept.state.trans hj, hkept.wakeTick⟩⟩
    · exact absurd (hj.symm.trans hborn.free) (by simp)
    · exact absurd (hj.symm.trans hfreed.zombie) (by simp)
  · have hkept := (hin.others j (hother c hcur)).resolve_right fun hw =>
      absurd (hj.symm.trans hw.waited.1) (by simp)
    have hstate := hkept.state.trans hj
    have hwake := schedule_sleeper hq hstate env
    rw [hkept.wakeTick, hticks, ← heq] at hwake
    refine ⟨fun _ => hwake.1, fun hnot => ?_⟩
    have hsame := hwake.2 (by simpa [hyes] using hnot)
    unfold Asleep
    rw [hsame]
    exact ⟨hstate, hkept.wakeTick⟩

/-! ## A sleep -/

/-- The state behind the call `sleep(n)` of the running task. -/
def afterSleep (s : Clocked) (n : Nat) (env : Env) : Clocked := s.step (.call (.sleep n env))

/-- What a sleep of `n` ticks is to do: it lasts that long, and ends with the first
`proc_schedule` behind that, which can be the one of the call itself. -/
structure SleepsFor (s : Clocked) (c n : Nat) (env : Env) : Prop where
  lasts : ∀ later, (run step (s.afterSleep n env) later).elapsed - s.elapsed < n →
    (run step (s.afterSleep n env) later).Asleep c
  atOnce : n ≤ (s.afterSleep n env).elapsed - s.elapsed → ¬(s.afterSleep n env).Asleep c
  ends : ∀ later ev, (∀ k ≤ later.length, (run step (s.afterSleep n env) (later.take k)).Asleep c) →
    (run step (s.afterSleep n env) later).schedules ev = true →
    n ≤ ((run step (s.afterSleep n env) later).step ev).elapsed - s.elapsed →
    ((run step (s.afterSleep n env) later).step ev).elapsed - s.elapsed < n + 2 ^ 31 →
    ¬((run step (s.afterSleep n env) later).step ev).Asleep c

theorem afterSleep_eq (hcur : s.proc.current = some c)
    (hu : (s.proc.tasks c).kind = .user) (n : Nat) (env : Env) : s.afterSleep n env
      = s.schedule (s.proc.enterSleep c n { env with ticks := s.pit.tickCount })
        { env with ticks := s.pit.tickCount } := by
  have hent : s.enter (.sleep n env) = some (s.proc.enterSleep c n
      { env with ticks := s.pit.tickCount }, some { env with ticks := s.pit.tickCount }) := by
    unfold enter
    rw [hcur]
    exact if_pos (Or.inl hu)
  unfold afterSleep step
  simp only [hent]

theorem afterSleep_fallback (hcur : s.proc.current = some c) (hu : (s.proc.tasks c).kind = .user)
    (n : Nat) (env : Env) : (s.afterSleep n env).elapsed - s.elapsed = s.pit.fallback := by
  rw [afterSleep_eq hcur hu]
  exact Nat.add_sub_cancel_left _ _

/-- The call falls asleep unless its own `proc_schedule` finds the task due. -/
theorem afterSleep_cases (hs : Scheduled s.proc) (hcur : s.proc.current = some c)
    (hu : (s.proc.tasks c).kind = .user) {n : Nat} (hn : n < 2 ^ 32) (hpos : n ≠ 0) (env : Env) :
    (n ≤ s.pit.fallback ∨ 2 ^ 31 + s.pit.fallback < n → ¬(s.afterSleep n env).Asleep c)
      ∧ (¬(n ≤ s.pit.fallback ∨ 2 ^ 31 + s.pit.fallback < n) → (s.afterSleep n env).Asleep c
        ∧ ((s.afterSleep n env).proc.tasks c).wakeTick = (s.pit.tickCount + n) % 2 ^ 32) := by
  have hsleep : s.proc.enterSleep c n { env with ticks := s.pit.tickCount }
      = s.proc.setTask c { s.proc.tasks c with
          savedEax := 0
          wakeTick := (s.pit.tickCount + n) % 2 ^ 32
          state := .sleeping } := if_neg hpos
  have hsmall : s.pit.fallback < n + 2 ^ 31 := by
    unfold Pit.fallback
    split <;> omega
  have hdue := due_iff s.pit.tickCount hn hsmall
  rw [afterSleep_eq hcur hu, hsleep]
  have hwake := schedule_sleeper (j := c)
    (hs.toSettled.setTask hu (t := { s.proc.tasks c with
      savedEax := 0
      wakeTick := (s.pit.tickCount + n) % 2 ^ 32
      state := .sleeping }) (by simp)) (by rw [setTask_self])
    { env with ticks := s.pit.ensureProgress.tickCount }
  rw [setTask_self] at hwake
  rw [Pit.ensureProgress_tickCount] at hwake
  constructor
  · intro h
    have hstate := hwake.1 (hdue.mpr h)
    rw [← Pit.ensureProgress_tickCount] at hstate
    exact hstate
  · intro h
    have hkept := hwake.2 (Bool.eq_false_iff.mpr fun hd => h (hdue.mp hd))
    rw [← Pit.ensureProgress_tickCount] at hkept
    unfold Asleep schedule
    rw [hkept]
    exact ⟨rfl, rfl⟩

theorem run_scheduled (later : List ClockEvent) (hs : Scheduled s.proc) :
    Scheduled (run step s later).proc :=
  run_invariant (I := fun s : Clocked => Scheduled s.proc) step_scheduled later hs

theorem run_ticked (later : List ClockEvent) (s : Clocked) : Ticked s (run step s later) :=
  run_invariant (I := Ticked s) (fun s' ev h => h.trans (step_ticked s' ev)) later (Ticked.refl s)

/-- The task sleeps through the run and its wake tick is still the one it set. -/
theorem run_dozing {n t : Nat} (hs : Scheduled s.proc)
    (htick : (s.proc.tasks c).wakeTick = (t + n) % 2 ^ 32) (later : List ClockEvent)
    (h : ∀ k ≤ later.length, (run step s (later.take k)).Asleep c) :
    ((run step s later).proc.tasks c).wakeTick = (t + n) % 2 ^ 32 := by
  induction later generalizing s with
  | nil => exact htick
  | cons ev later ih =>
    have hnow : s.Asleep c := h 0 (Nat.zero_le _)
    have hnext : (s.step ev).Asleep c := h 1 (Nat.succ_le_succ (Nat.zero_le _))
    obtain ⟨hwakes, hkeeps⟩ := step_asleep hs hnow ev
    have hkept := (hkeeps fun hd => hwakes hd.1 hd.2 hnext).2
    rw [run_cons]
    exact ih (step_scheduled s ev hs) (hkept.trans htick) fun k hk =>
      h (k + 1) (Nat.succ_le_succ hk)

/-- Before its time a task that asked for little enough is not woken. -/
theorem run_lasts {n : Nat} {s₀ : Clocked} (hn : n < 2 ^ 32) (hs : Scheduled s.proc)
    (h₀ : Ticked s₀ s) (hfew : n ≤ 2 ^ 31 + (s.elapsed - s₀.elapsed)) (hnow : s.Asleep c)
    (htick : (s.proc.tasks c).wakeTick = (s₀.pit.tickCount + n) % 2 ^ 32) (later : List ClockEvent)
    (hearly : (run step s later).elapsed - s₀.elapsed < n) : (run step s later).Asleep c := by
  induction later generalizing s with
  | nil => exact hnow
  | cons ev later ih =>
    rw [run_cons] at hearly ⊢
    have hnext := h₀.trans (step_ticked s ev)
    have hlater := (step_ticked s ev).later
    have hrun := (run_ticked later (s.step ev)).later
    have hnot : ¬(s.schedules ev = true
        ∧ due (s.step ev).pit.tickCount (s.proc.tasks c).wakeTick = true) := fun hd => by
      have hdue := hd.2
      rw [hnext.count, htick, due_iff _ hn (by omega)] at hdue
      omega
    obtain ⟨hasleep, hkept⟩ := (step_asleep hs hnow ev).2 hnot
    exact ih (step_scheduled s ev hs) hnext (by omega) hasleep (hkept.trans htick) hearly

theorem sleepsFor_iff (hs : Scheduled s.proc) (hcur : s.proc.current = some c)
    (hu : (s.proc.tasks c).kind = .user) {n : Nat} (hn : n < 2 ^ 32) (env : Env) :
    SleepsFor s c n env ↔ n ≤ 2 ^ 31 + s.pit.fallback := by
  have hback := afterSleep_fallback hcur hu n env
  have hs₁ : Scheduled (s.afterSleep n env).proc := step_scheduled s _ hs
  have hclock : Ticked s (s.afterSleep n env) := step_ticked s _
  constructor
  · intro h
    by_contra hmany
    -- the call's own schedule takes the far wake tick for one in the past
    have hwoken := (afterSleep_cases hs hcur hu hn (by omega) env).1 (by omega)
    exact hwoken (h.lasts [] (by rw [run_nil, hback]; omega))
  · intro hfew
    by_cases hzero : n = 0
    · subst hzero
      have hawake : ¬(s.afterSleep 0 env).Asleep c := by
        obtain ⟨-, hrun⟩ := hs.running hcur
        have hanswer : ((s.proc.answer c 0).tasks c).state = .running :=
          (answer_kept s.proc c 0 c).state.trans hrun
        rw [afterSleep_eq hcur hu]
        exact schedule_running (hs.toSettled.setTask hu fun _ => hrun) hcur hanswer _
      exact ⟨fun later h => absurd h (Nat.not_lt_zero _), fun _ => hawake,
        fun later ev h => absurd (h 0 (Nat.zero_le _)) hawake⟩
    obtain ⟨hwoken, hdozes⟩ := afterSleep_cases hs hcur hu hn hzero env
    refine ⟨fun later hearly => ?_, fun hover => hwoken (by omega),
      fun later ev hall hsched hlow hhigh => ?_⟩
    · have hlater := (run_ticked later (s.afterSleep n env)).later
      obtain ⟨hasleep, htick⟩ := hdozes (by omega)
      exact run_lasts hn hs₁ hclock (by omega) hasleep htick later hearly
    · have hfirst : (s.afterSleep n env).Asleep c := hall 0 (Nat.zero_le _)
      obtain ⟨-, htick⟩ := hdozes fun h => hwoken h hfirst
      have hdoz := run_dozing hs₁ htick later hall
      have hnow : (run step (s.afterSleep n env) later).Asleep c := by
        have hlast := hall later.length (le_refl _)
        rwa [List.take_length] at hlast
      refine (step_asleep (run_scheduled later hs₁) hnow ev).1 hsched ?_
      have hcount := ((hclock.trans (run_ticked later _)).trans (step_ticked _ ev)).count
      rw [hcount, hdoz, due_iff _ hn hhigh]
      exact Or.inl hlow

end Clocked

/-- **A sleep lasts as long as asked, and no longer, exactly if it asks for at most `2 ^ 31`
ticks**, or for one more while the timer has not ticked yet and `proc_schedule` counts in its
place. -/
theorem sleep_lasts_iff (init workerA workerB : Bool) (pit : Pit) (events : List ClockEvent)
    (c n : Nat) (env : Env) (hn : n < 2 ^ 32) :
    let s := run Clocked.step ⟨(Machine.boot init workerA workerB).proc, pit, 0⟩ events
    s.proc.current = some c → (s.proc.tasks c).kind = .user →
      (Clocked.SleepsFor s c n env ↔ n ≤ 2 ^ 31 + s.pit.fallback) := by
  have hboot := (Machine.boot_started init workerA workerB).1.sched
  generalize (Machine.boot init workerA workerB).proc = p at hboot ⊢
  intro s hcur hu
  exact Clocked.sleepsFor_iff (Clocked.run_scheduled events hboot) hcur hu hn env

/-- The first task, `init`, asks for five ticks. -/
theorem sleep_lasts_iff_five :
    Clocked.SleepsFor ⟨(Machine.boot true true true).proc, ⟨0xFFFFFFFE, true, by decide⟩, 0⟩ 1 5
      ⟨0, fun _ => false⟩ :=
  (sleep_lasts_iff true true true ⟨0xFFFFFFFE, true, by decide⟩ [] 1 5 ⟨0, fun _ => false⟩
    (by decide) (by decide +kernel) (by decide +kernel)).mpr (by decide)

/-- `init` asks for `2 ^ 31 + 1` ticks and is running again when no tick has passed. -/
theorem long_sleep_does_not_last :
    let s : Clocked := ⟨(Machine.boot true true true).proc, ⟨0, true, by decide⟩, 0⟩
    (s.afterSleep (2 ^ 31 + 1) ⟨0, fun _ => false⟩).elapsed = 0
      ∧ ((s.afterSleep (2 ^ 31 + 1) ⟨0, fun _ => false⟩).proc.tasks 1).state ≠ .sleeping := by
  decide +kernel

end Riverix.Proc
