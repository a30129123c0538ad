import Riverix.Proc.Task

/-!
# Who runs

The searches through the task table, and what every event keeps about the running
task: there is one, it is `current_task`, no other task is in state RUNNING, and the
idle task can be picked whenever nothing else can.

`Scheduled` holds between two events. `Settled` is the part of it that is left in the
middle of a system call, after the running task has blocked, gone to sleep or died;
`Settled.schedule` makes `Scheduled` of it again.
-/

namespace Riverix.Proc

open ProcState

variable {s s' : ProcState} {c i : Nat}

/-! ## What the searches find -/

/-- Slot `i` of the table holds a task. -/
def Live (s : ProcState) (i : Nat) : Prop := i < maxTasks ∧ (s.tasks i).state ≠ .unused

theorem find_range_some {p : Nat → Bool} (h : (List.range maxTasks).find? p = some i) :
    i < maxTasks ∧ p i = true :=
  ⟨List.mem_range.mp (List.mem_of_find?_eq_some h), List.find?_some h⟩

theorem findUnused_some (h : s.findUnused = some i) :
    i < maxTasks ∧ (s.tasks i).state = .unused := by
  obtain ⟨hi, hp⟩ := find_range_some h
  exact ⟨hi, by simpa using hp⟩

theorem findByPid_some {pid : Nat} (h : s.findByPid pid = some i) :
    Live s i ∧ (s.tasks i).pid = pid := by
  unfold findByPid at h
  split at h
  · simp at h
  · obtain ⟨hi, hp⟩ := find_range_some h
    simp only [Bool.and_eq_true, bne_iff_ne, beq_iff_eq] at hp
    exact ⟨⟨hi, hp.1⟩, hp.2⟩

theorem findZombieChild_some {parent : Task} {target : Int}
    (h : s.findZombieChild parent target = some i) :
    i < maxTasks ∧ (s.tasks i).state = .zombie ∧ (s.tasks i).parentPid = parent.pid := by
  obtain ⟨hi, hp⟩ := find_range_some h
  simp only [Bool.and_eq_true, beq_iff_eq] at hp
  refine ⟨hi, hp.2, not_not.mp fun hne => ?_⟩
  have hw := hp.1
  unfold waitMatches at hw
  rw [if_pos (Or.inr hne)] at hw
  simp at hw

theorem isAlive_true {pid : Nat} (h : s.isAlive pid = true) :
    ∃ i, Live s i ∧ (s.tasks i).pid = pid := by
  obtain ⟨i, hi, hp⟩ := List.any_eq_true.mp h
  simp only [Bool.and_eq_true, bne_iff_ne, beq_iff_eq] at hp
  exact ⟨i, ⟨List.mem_range.mp hi, hp.1.1⟩, hp.2⟩

/-! ## Replacing a task -/

theorem setTask_self (s : ProcState) (i : Nat) (t : Task) : (s.setTask i t).tasks i = t :=
  Function.update_self ..

theorem setTask_ne {j : Nat} (s : ProcState) (t : Task) (h : j ≠ i) :
    (s.setTask i t).tasks j = s.tasks j :=
  Function.update_of_ne h ..

/-- A property of every task after one of them was replaced. -/
theorem forall_setTask {P : Nat → Task → Prop} {t : Task} (hi : P i t)
    (hne : ∀ j, j ≠ i → P j (s.tasks j)) (j : Nat) : P j ((s.setTask i t).tasks j) := by
  by_cases hj : j = i
  · subst hj
    rwa [setTask_self]
  · rw [setTask_ne s t hj]
    exact hne j hj

theorem live_releaseResources {j : Nat} (h : Live (s.releaseResources i) j) :
    Live s j ∧ (s.releaseResources i).tasks j = s.tasks j := by
  have hne : j ≠ i := by
    rintro rfl
    refine h.2 ?_
    show ((s.setTask j Task.reset).tasks j).state = .unused
    rw [setTask_self]
    rfl
  have heq : (s.releaseResources i).tasks j = s.tasks j := setTask_ne s _ hne
  refine ⟨⟨h.1, ?_⟩, heq⟩
  have hu := h.2
  rwa [heq] at hu

/-! ## The scheduler -/

/-- The idle task is ready whenever it is not the one running. -/
def IdleOk (s : ProcState) : Prop :=
  ∃ i < maxTasks, s.idle = some i ∧ (s.tasks i).kind = .kernel ∧
    ((s.tasks i).state = .runnable ∨ ((s.tasks i).state = .running ∧ s.current = some i))

/-- Some task is running. -/
def CurrentOk (s : ProcState) : Prop :=
  ∃ c < maxTasks, s.current = some c ∧ (s.tasks c).state = .running

/-- The idle task is ready to be picked. -/
def IdleReady (s : ProcState) : Prop :=
  ∃ i < maxTasks, s.idle = some i ∧ (s.tasks i).kind = .kernel ∧ (s.tasks i).state = .runnable

/-- A ready task is neither woken nor serviced. -/
theorem service_runnable {ticks : Nat} {b : Bool} {t : Task} (h : t.state = .runnable) :
    serviceBlocked b (wakeSleeper ticks t) = t := by
  have hw : wakeSleeper ticks t = t := by
    unfold wakeSleeper
    rw [if_neg (by rw [h]; simp)]
  rw [hw]
  unfold serviceBlocked
  rw [if_neg (by rw [h]; simp)]

/-- The running task is put back among the ready ones. -/
theorem beforeCollect_tasks (s : ProcState) (env : Env) (j : Nat) :
    (s.beforeCollect env).tasks j = serviceBlocked (env.completes j) (wakeSleeper env.ticks
      (if s.current = some j ∧ (s.tasks j).state = .running
        then { s.tasks j with state := .runnable } else s.tasks j)) := by
  unfold beforeCollect
  cases hc : s.current with
  | none => simp
  | some c =>
    by_cases hr : (s.tasks c).state = .running
    · by_cases hj : j = c
      · subst hj
        simp only [hr, if_true, setTask_self, and_self]
      · simp only [hr, if_true, setTask_ne s _ hj]
        rw [if_neg (fun h => hj (Option.some.inj h.1).symm)]
    by_cases hj : j = c
    · subst hj
      simp only [hr, if_false, and_false]
    · simp only [hr, if_false]
      rw [if_neg (fun h => hj (Option.some.inj h.1).symm)]

theorem beforeCollect_current (s : ProcState) (env : Env) :
    (s.beforeCollect env).current = s.current ∧ (s.beforeCollect env).idle = s.idle ∧
      (s.beforeCollect env).nextPid = s.nextPid ∧ (s.beforeCollect env).returned = s.returned ∧
      (s.beforeCollect env).released = s.released := by
  unfold beforeCollect
  cases hc : s.current with
  | none => simp [hc]
  | some c =>
    by_cases hr : (s.tasks c).state = .running
    · simp [hr, setTask, hc]
    · simp [hr, hc]

theorem beforeCollect_idle (h : IdleOk s) (env : Env) : IdleReady (s.beforeCollect env) := by
  obtain ⟨i, hi, hidle, hk, hst⟩ := h
  refine ⟨i, hi, (beforeCollect_current s env).2.1.trans hidle, ?_⟩
  rw [beforeCollect_tasks]
  rcases hst with hrun | ⟨hrun, hc⟩
  · rw [if_neg (by rw [hrun]; simp), service_runnable hrun]
    exact ⟨hk, hrun⟩
  · rw [if_pos ⟨hc, hrun⟩, service_runnable rfl]
    exact ⟨hk, rfl⟩

theorem collectSlot_idle (h : IdleReady s) : IdleReady (s.collectSlot i) := by
  unfold collectSlot
  split
  · exact h
  next hc =>
  simp only [not_or, not_not] at hc
  obtain ⟨k, hk, hidle, hkind, hst⟩ := h
  have hne : k ≠ i := by
    rintro rfl
    rw [hst] at hc
    exact absurd hc.2.1 (by simp)
  have htask : (s.releaseResources i).tasks k = s.tasks k := setTask_ne s _ hne
  refine ⟨k, hk, ?_, by rw [htask]; exact hkind, by rw [htask]; exact hst⟩
  show (if s.idle = some i then none else s.idle) = some k
  rw [if_neg (by rw [hidle]; simpa using hne), hidle]

/-- With an idle task the scheduler always finds a ready task. -/
theorem pickNext_runnable (h : IdleReady s) :
    ∃ i < maxTasks, s.pickNext = some i ∧ (s.tasks i).state = .runnable := by
  obtain ⟨k, hk, hidle, -, hst⟩ := h
  unfold pickNext
  split
  next i hf =>
    have hmem := List.mem_of_find?_eq_some hf
    have hp := List.find?_some hf
    obtain ⟨n, -, rfl⟩ := List.mem_map.mp hmem
    simp only [Bool.and_eq_true, beq_iff_eq] at hp
    exact ⟨_, Nat.mod_lt _ (by decide), rfl, hp.2⟩
  next =>
    rw [hidle]
    exact ⟨k, hk, by simp [hst], hst⟩

/-- Changing a user task cannot disturb the idle task. -/
theorem IdleOk.setTask_user (h : IdleOk s) (hc : (s.tasks c).kind = .user) (t : Task) :
    IdleOk (s.setTask c t) := by
  obtain ⟨i, hi, hidle, hk, hst⟩ := h
  have hne : i ≠ c := by
    rintro rfl
    rw [hk] at hc
    simp at hc
  refine ⟨i, hi, hidle, ?_⟩
  rw [setTask_ne s t hne]
  exact ⟨hk, hst⟩

/-- What `proc_reparent_children` does to a task. -/
theorem reparent_cases (pid newPid : Nat) (t : Task) :
    reparent pid newPid t = t ∨
      (t.parentPid = pid ∧ reparent pid newPid t =
        { t with
          parentPid := newPid
          reapReady := if newPid = 0 ∧ t.state = .zombie then true else t.reapReady }) := by
  unfold reparent
  split
  · exact Or.inl rfl
  next hc => exact Or.inr ⟨not_not.mp fun hn => hc (Or.inr hn), rfl⟩

theorem reparent_keeps (pid newPid : Nat) (t : Task) :
    (reparent pid newPid t).pid = t.pid ∧ (reparent pid newPid t).state = t.state ∧
      (reparent pid newPid t).kind = t.kind := by
  rcases reparent_cases pid newPid t with he | ⟨-, he⟩ <;> rw [he] <;> exact ⟨rfl, rfl, rfl⟩

/-! ## One running task -/

/-- No task is in state RUNNING but `current_task`. -/
def OnlyCurrent (s : ProcState) : Prop :=
  ∀ i < maxTasks, (s.tasks i).state = .running → s.current = some i

instance (s : ProcState) : Decidable (OnlyCurrent s) :=
  inferInstanceAs (Decidable (∀ i < maxTasks, (s.tasks i).state = .running → s.current = some i))

/-- What is left of `Scheduled` in the middle of a system call. -/
structure Settled (s : ProcState) : Prop where
  idle : IdleOk s
  only : OnlyCurrent s

/-- The state between two events. -/
structure Scheduled (s : ProcState) : Prop extends Settled s where
  current : CurrentOk s

/-- A user task may be replaced by any task that does not run. -/
theorem Settled.setTask (h : Settled s) (hc : (s.tasks c).kind = .user) {t : Task}
    (hrun : t.state = .running → (s.tasks c).state = .running) : Settled (s.setTask c t) := by
  refine ⟨h.idle.setTask_user hc t, fun i hi hr => h.only i hi ?_⟩
  exact forall_setTask (P := fun j t => t.state = .running → (s.tasks j).state = .running) hrun
    (fun _ _ hr => hr) i hr

/-- After the first part of the scheduler nothing is running. -/
theorem beforeCollect_not_running (h : OnlyCurrent s) (env : Env) (hi : i < maxTasks) :
    ((s.beforeCollect env).tasks i).state ≠ .running := by
  have hkeep : ∀ (b : Bool) (t : Task), t.state ≠ .running →
      (serviceBlocked b (wakeSleeper env.ticks t)).state ≠ .running := by
    intro b t ht
    have hw : (wakeSleeper env.ticks t).state ≠ .running := by
      unfold wakeSleeper
      split
      · simp
      · exact ht
    unfold serviceBlocked
    split
    · simp
    · exact hw
  rw [beforeCollect_tasks]
  apply hkeep
  split
  · simp
  next hc =>
    intro hr
    exact hc ⟨h i hi hr, hr⟩

theorem collectSlot_tasks (s : ProcState) (i j : Nat) :
    (s.collectSlot i).tasks j = s.tasks j ∨
      ((s.tasks j).state = .zombie ∧ (s.collectSlot i).tasks j = Task.reset) := by
  unfold collectSlot
  split
  · exact Or.inl rfl
  next hc =>
  simp only [not_or, not_not] at hc
  by_cases hj : j = i
  · subst hj
    exact Or.inr ⟨hc.2.1, setTask_self ..⟩
  · exact Or.inl (setTask_ne s _ hj)

/-- The collector resets zombies and touches nothing else. -/
theorem collect_tasks (s : ProcState) (j : Nat) :
    s.collectReapableZombies.tasks j = s.tasks j ∨
      ((s.tasks j).state = .zombie ∧ s.collectReapableZombies.tasks j = Task.reset) := by
  unfold collectReapableZombies
  induction List.range maxTasks generalizing s with
  | nil => exact Or.inl rfl
  | cons i l ih =>
    rcases collectSlot_tasks s i j with he | ⟨hz, he⟩
    · have := ih (s.collectSlot i)
      rwa [he] at this
    · refine Or.inr ⟨hz, ?_⟩
      rcases ih (s.collectSlot i) with h | h
      · exact h.trans he
      · exact h.2

theorem collect_idle (h : IdleReady s) : IdleReady s.collectReapableZombies := by
  unfold collectReapableZombies
  induction List.range maxTasks generalizing s with
  | nil => exact h
  | cons i l ih => exact ih (collectSlot_idle h)

/-- What the scheduler does: it picks a task that is ready after the wakeups and the
collection. -/
theorem IdleOk.picks (h : IdleOk s) (env : Env) :
    ∃ i < maxTasks, s.schedule env = (s.beforeCollect env).collectReapableZombies.activateTask i ∧
      ((s.beforeCollect env).collectReapableZombies.tasks i).state = .runnable := by
  obtain ⟨i, hi, hpick, hst⟩ := pickNext_runnable (collect_idle (beforeCollect_idle h env))
  refine ⟨i, hi, ?_, hst⟩
  unfold ProcState.schedule
  simp only [hpick]

theorem activateTask_ready (hidle : IdleReady s) (hi : i < maxTasks) :
    IdleOk (s.activateTask i) ∧ CurrentOk (s.activateTask i) := by
  obtain ⟨k, hk, hidle, hkind, hst⟩ := hidle
  have hself : (s.activateTask i).tasks i = { s.tasks i with state := .running } :=
    setTask_self s i _
  refine ⟨⟨k, hk, hidle, ?_⟩, i, hi, rfl, by rw [hself]⟩
  by_cases hki : k = i
  · subst hki
    rw [hself]
    exact ⟨hkind, Or.inr ⟨rfl, rfl⟩⟩
  · rw [show (s.activateTask i).tasks k = s.tasks k from setTask_ne s _ hki]
    exact ⟨hkind, Or.inl hst⟩

/-- A task is activated when none runs. -/
theorem activateTask_scheduled (hidle : IdleReady s)
    (hquiet : ∀ j < maxTasks, (s.tasks j).state ≠ .running) (hi : i < maxTasks) :
    Scheduled (s.activateTask i) := by
  obtain ⟨hready, hcurrent⟩ := activateTask_ready hidle hi
  refine ⟨⟨hready, fun j hj hjr => ?_⟩, hcurrent⟩
  by_cases hji : j = i
  · rw [hji]
    rfl
  · rw [show (s.activateTask i).tasks j = s.tasks j from setTask_ne s _ hji] at hjr
    exact absurd hjr (hquiet j hj)

theorem IdleOk.schedule (h : IdleOk s) (env : Env) :
    IdleOk (s.schedule env) ∧ CurrentOk (s.schedule env) := by
  obtain ⟨i, hi, he, -⟩ := h.picks env
  rw [he]
  exact activateTask_ready (collect_idle (beforeCollect_idle h env)) hi

theorem Settled.schedule (h : Settled s) (env : Env) : Scheduled (s.schedule env) := by
  obtain ⟨i, hi, he, -⟩ := h.idle.picks env
  rw [he]
  refine activateTask_scheduled (collect_idle (beforeCollect_idle h.idle env)) (fun j hj => ?_) hi
  rcases collect_tasks (s.beforeCollect env) j with hc | ⟨-, hc⟩ <;> rw [hc]
  · exact beforeCollect_not_running h.only env hj
  · decide

theorem CurrentOk.running (h : CurrentOk s) (hcur : s.current = some c) :
    c < maxTasks ∧ (s.tasks c).state = .running := by
  obtain ⟨c', hlt, hc', hrun⟩ := h
  rw [hcur] at hc'
  obtain rfl := Option.some.inj hc'
  exact ⟨hlt, hrun⟩

theorem CurrentOk.live (h : CurrentOk s) (hcur : s.current = some c) : Live s c :=
  ⟨(h.running hcur).1, by rw [(h.running hcur).2]; simp⟩

theorem Scheduled.running (h : Scheduled s) (hcur : s.current = some c) :
    c < maxTasks ∧ (s.tasks c).state = .running := h.current.running hcur

/-- The running user task goes on, in a table in which it still runs. -/
theorem Scheduled.setTask (h : Scheduled s) (hcur : s.current = some c)
    (hc : (s.tasks c).kind = .user) {t : Task} (ht : t.state = (s.tasks c).state) :
    Scheduled (s.setTask c t) := by
  refine ⟨h.toSettled.setTask hc (fun hr => ht ▸ hr), c, (h.running hcur).1, hcur, ?_⟩
  rw [setTask_self, ht]
  exact (h.running hcur).2

/-! ## Telling a parent -/

theorem finishBlockedWait_current (s : ProcState) (p c : Nat) (copied : Bool) :
    (s.finishBlockedWait p c copied).current = s.current ∧
      (s.finishBlockedWait p c copied).idle = s.idle := by
  unfold finishBlockedWait
  cases (s.tasks p).waitStatusUser == 0 || copied <;> exact ⟨rfl, rfl⟩

/-- The blocked parent is woken and the child marked. -/
theorem finishBlockedWait_tasks {p : Nat} (hb : (s.tasks p).state = .blocked) (hpc : c ≠ p)
    (copied : Bool) (j : Nat) :
    ∃ eax, (s.finishBlockedWait p c copied).tasks j =
      if j = c then { s.tasks c with reapReady := true }
      else if j = p then
        { s.tasks p with
          savedEax := eax
          waitTargetPid := -1
          waitStatusUser := 0
          blockReason := .none
          state := .runnable }
      else s.tasks j := by
  unfold finishBlockedWait
  generalize ((s.tasks p).waitStatusUser == 0 || copied) = ok
  refine ⟨if ok then ((s.tasks c).pid : Int) else -1, ?_⟩
  have hlog : ∀ log, (if ok then { s with returned := log } else s).tasks = s.tasks := by
    intro log
    cases ok <;> rfl
  by_cases hjc : j = c
  · rw [hjc, setTask_self, setTask_ne _ _ hpc, hlog, if_pos rfl]
  · rw [setTask_ne _ _ hjc, if_neg hjc]
    by_cases hjp : j = p
    · rw [hjp, setTask_self, if_pos rfl, hb, if_pos rfl]
    · rw [setTask_ne _ _ hjp, if_neg hjp, hlog]

end Riverix.Proc
