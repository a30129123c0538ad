import Riverix.Proc.Sleeping

/-!
# How long a ready task waits

`proc_pick_next` looks at the slots in turn, from the one behind `current_task`; `behind c i`
is how many it looks at before slot `i`. A ready task stays ready until it is picked, and when
another one is picked, that one stands in a slot before it, so that fewer are left. From every
state reached, whatever the tasks then do, a ready task is passed over at most six times
(**`ready_task_passed_over`**).
-/

namespace Riverix.Proc

open Riverix.Lib ProcState

variable {p : ProcState} {c i : Nat}

/-- How many slots the search looks at before slot `i` while the task in slot `c` runs. -/
def behind (c i : Nat) : Nat := (i + maxTasks - 1 - c) % maxTasks

theorem behind_slot (hc : c < maxTasks) (hi : i < maxTasks) :
    behind c i < maxTasks ∧ (c + 1 + behind c i) % maxTasks = i := by
  unfold behind maxTasks at *
  omega

theorem behind_lt (hc : c < maxTasks) (hi : i < maxTasks) {k : Nat} (hk : k ≤ behind c i) :
    (c + 1 + k) % maxTasks = i ∨ behind ((c + 1 + k) % maxTasks) i < behind c i := by
  unfold behind maxTasks at *
  omega

/-- A ready task is picked, or another in a slot before it. -/
theorem pickNext_behind (hcur : p.current = some c) (hc : c < maxTasks) (hi : i < maxTasks)
    (hidle : p.idle ≠ some i) (hready : (p.tasks i).state = .runnable) {j : Nat}
    (hpick : p.pickNext = some j) : j = i ∨ behind j i < behind c i := by
  obtain ⟨hlt, hslot⟩ := behind_slot hc hi
  have hstart : p.startIndex = c + 1 := by
    unfold startIndex
    rw [hcur]
  unfold pickNext at hpick
  rw [hstart, List.find?_map] at hpick
  generalize hfind : (List.range maxTasks).find? _ = found at hpick
  -- the search comes to slot `i` if it finds nothing before it
  have hthere : ∀ k, found = some k → k ≤ behind c i := by
    rintro k rfl
    by_contra hk
    have hfirst := (List.find?_range_eq_some.mp hfind).2.2 (behind c i) (by omega)
    simp [hslot, hidle, hready] at hfirst
  cases found with
  | none =>
    have hnone := List.find?_eq_none.mp hfind (behind c i) (List.mem_range.mpr hlt)
    simp [hslot, hidle, hready] at hnone
  | some k =>
    obtain rfl := Option.some.inj hpick
    exact behind_lt hc hi (hthere k rfl)

/-- The collector keeps `current_task`, and names no new idle task. -/
theorem collect_keeps (h : p.idle ≠ some i) :
    p.collectReapableZombies.current = p.current ∧ p.collectReapableZombies.idle ≠ some i := by
  refine run_invariant (I := fun q : ProcState => q.current = p.current ∧ q.idle ≠ some i)
    (fun q k hq => ?_) (List.range maxTasks) ⟨rfl, h⟩
  unfold collectSlot
  split
  · exact hq
  refine ⟨hq.1, ?_⟩
  show (if q.idle = some k then none else q.idle) ≠ some i
  split
  · simp
  · exact hq.2

/-- The scheduler picks a ready task, or leaves it ready with fewer slots before it. -/
theorem schedule_behind (hs : Settled p) (hcur : p.current = some c) (hc : c < maxTasks)
    (hi : i < maxTasks) (hidle : p.idle ≠ some i)
    (hready : (p.tasks i).state = .runnable) (env : Env)
    (hnot : (p.schedule env).current ≠ some i) :
    ∃ j, (p.schedule env).current = some j ∧ behind j i < behind c i ∧
      (p.schedule env).idle ≠ some i ∧ ((p.schedule env).tasks i).state = .runnable := by
  obtain ⟨j, -, hpick, -⟩ := pickNext_runnable (collect_idle (beforeCollect_idle hs.idle env))
  obtain ⟨hcur', hidle', -⟩ := beforeCollect_current p env
  obtain ⟨hcur₁, hidle₁⟩ := collect_keeps (hidle'.symm ▸ hidle)
  -- neither the wake-ups nor the collector touch a ready task
  have hbefore : ((p.beforeCollect env).tasks i).state = .runnable := by
    rw [beforeCollect_tasks, if_neg (by rw [hready]; simp), service_runnable hready, hready]
  have htask := (collect_tasks (p.beforeCollect env) i).resolve_right fun h =>
    absurd (hbefore.symm.trans h.1) (by simp)
  have heq : p.schedule env = (p.beforeCollect env).collectReapableZombies.activateTask j := by
    unfold ProcState.schedule
    simp only [hpick]
  rw [heq] at hnot ⊢
  have hji : j ≠ i := fun h => hnot (congrArg some h)
  refine ⟨j, rfl, ?_, hidle₁, ?_⟩
  · exact (pickNext_behind (hcur₁.trans (hcur'.trans hcur)) hc hi hidle₁ (htask ▸ hbefore)
      hpick).resolve_left hji
  · show ((ProcState.setTask _ j _).tasks i).state = _
    rw [setTask_ne _ _ hji.symm, htask, hbefore]

namespace Clocked

/-- The task in slot `i` is ready and not running. -/
structure Ready (i : Nat) (s : Clocked) : Prop where
  sched : Scheduled s.proc
  idle : s.proc.idle ≠ some i
  state : (s.proc.tasks i).state = .runnable

/-- The slots before slot `i`, in a state in which some task runs. -/
def before (i : Nat) (s : Clocked) : Nat := behind (s.proc.current.getD 0) i

/-- An event that does not pick a ready task leaves it ready, and lowers the number of slots
before it if it runs the scheduler. -/
theorem step_passes_over (hi : i < maxTasks) (s : Clocked) (ev : ClockEvent) (h : Ready i s)
    (hnot : (s.step ev).proc.current ≠ some i) :
    Ready i (s.step ev) ∧ before i (s.step ev) + (if s.schedules ev then 1 else 0)
      ≤ before i s := by
  have hsched := step_scheduled s ev h.sched
  unfold before
  rcases step_cases h.sched ev with ⟨hno, hans⟩ | ⟨hyes, c, e, q, env, hcur, hq, hin, heq, -⟩
  · -- the scheduler does not run, and the call leaves ready tasks and `current_task` alone
    obtain ⟨k, -, hk, -, hst⟩ := h.sched.idle
    have hidle := hans.idle k hk (by rcases hst with hst | ⟨hst, -⟩ <;> rw [hst] <;> simp)
    rw [hno, hans.current]
    exact ⟨⟨hsched, by rw [hidle, ← hk]; exact h.idle,
      (hans.kept (Or.inl h.state)).state.trans h.state⟩, le_refl _⟩
  obtain ⟨hc, hrun⟩ := h.sched.running hcur
  have hic : i ≠ c := fun hic => by
    rw [← hic, h.state] at hrun
    simp at hrun
  have hkept := (hin.others i hic).resolve_right fun hw =>
    absurd (h.state.symm.trans hw.waited.1) (by simp)
  rw [heq] at hnot
  obtain ⟨j, hj, hlt, hidle, hready⟩ := schedule_behind hq (hin.current.trans hcur) hc hi
    (hin.idle.symm ▸ h.idle) (hkept.state.trans h.state) env hnot
  rw [hyes, heq, hj, hcur]
  exact ⟨⟨hsched, heq ▸ hidle, heq ▸ hready⟩, hlt⟩

end Clocked

/-- **A ready task is passed over at most six times**: from every state reached, as long as
whatever the tasks and the timer do does not make it run, `proc_schedule` runs at most that
often. -/
theorem ready_task_passed_over (init workerA workerB : Bool) (pit : Pit) (events : List ClockEvent)
    (hi : i < maxTasks) :
    let s := run Clocked.step ⟨(Machine.boot init workerA workerB).proc, pit, 0⟩ events
    s.proc.idle ≠ some i → (s.proc.tasks i).state = .runnable → ∀ later,
      Guarded Clocked.step (fun s ev => (s.step ev).proc.current ≠ some i) s later →
        occurrences Clocked.step Clocked.schedules s later ≤ 6 := by
  have hboot := (Machine.boot_started init workerA workerB).1.sched
  generalize (Machine.boot init workerA workerB).proc = p at hboot ⊢
  intro s hidle hready later hlater
  have hs : Scheduled s.proc := Clocked.run_scheduled events hboot
  refine (guarded_occurrences_le (Clocked.step_passes_over hi) later ⟨hs, hidle, hready⟩
    hlater).trans ?_
  obtain ⟨c, hc, hcur, hrun⟩ := hs.current
  have hic : i ≠ c := fun hic => by
    rw [← hic, hready] at hrun
    simp at hrun
  show behind (s.proc.current.getD 0) i ≤ 6
  rw [hcur]
  show behind c i ≤ 6
  unfold behind maxTasks at *
  omega

/-- `init` runs, and the second worker is ready: after a tick `init` yields, and the first
worker goes first. -/
theorem ready_task_passed_over_worker :
    occurrences Clocked.step Clocked.schedules
      ⟨(Machine.boot true true true).proc, ⟨0, true, by decide⟩, 0⟩
      [.tick, .call (.schedule ⟨0, fun _ => false⟩)] ≤ 6 :=
  ready_task_passed_over true true true ⟨0, true, by decide⟩ [] (i := 3) (by decide)
    (by decide +kernel) (by decide +kernel) _ (by decide +kernel)

end Riverix.Proc
