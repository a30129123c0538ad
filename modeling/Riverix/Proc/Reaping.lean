import Riverix.Lib.Run
import Riverix.Proc.Calls

/-!
# Exactly-once reaping

A child's exit should be reported by `waitpid` once, and a zombie whose parent
is alive should go away only after such a report. `proc_finish_blocked_wait`
breaks both. The zombie it marks stays in the table, under its parent, until a
later schedule: a parent that calls `waitpid` again before that finds it once
more (`proc_find_zombie_child` does not look at `reap_ready`), and one that exits
before that hands it to `init`. And a failed status copy still marks the zombie.

`Inv` ties the two logs to the task table. `step_inv` carries it through every
event that stays clear of these cases, and **`guarded_run_reaps_once`** is
the result over whole runs.
-/

namespace Riverix.Proc

open Riverix.Lib ProcState

variable {s s' : ProcState} {c i : Nat}

/-! ## The invariant -/

/-- `waitpid` has returned this pid. -/
def Returned (log : List Return) (pid : Nat) : Prop := ∃ r ∈ log, r.child = pid

/-- A task and the log agree: a pid that was returned belongs to a zombie marked
for collection, and a zombie is only marked when it has no parent or its pid was
returned to its parent. -/
structure TaskOk (log : List Return) (t : Task) : Prop where
  marked : Returned log t.pid → t.state = .zombie ∧ t.reapReady = true
  cause : t.state = .zombie → t.reapReady = true → t.parentPid = 0 ∨ ⟨t.parentPid, t.pid⟩ ∈ log

/-- The task table and the logs agree. -/
structure Inv (s : ProcState) : Prop where
  pid_pos : ∀ i, Live s i → 0 < (s.tasks i).pid
  pid_lt : ∀ i, Live s i → (s.tasks i).pid < s.nextPid
  pid_inj : ∀ i j, Live s i → Live s j → (s.tasks i).pid = (s.tasks j).pid → i = j
  returned_lt : ∀ pid, Returned s.returned pid → pid < s.nextPid
  returned_once : (s.returned.map (·.child)).Nodup
  task : ∀ i, Live s i → TaskOk s.returned (s.tasks i)
  released_cause : ∀ r ∈ s.released, r.parentAlive = true → ⟨r.parent, r.child⟩ ∈ s.returned

/-- The state between two events. -/
structure Good (s : ProcState) : Prop where
  inv : Inv s
  idle : IdleOk s
  current : CurrentOk s

/-- The invariant after a step that creates no task. -/
theorem Inv.of_step (h : Inv s)
    (hlive : ∀ j, Live s' j → Live s j ∧ (s'.tasks j).pid = (s.tasks j).pid)
    (hn : s'.nextPid = s.nextPid)
    (hlt : ∀ pid, Returned s'.returned pid → pid < s.nextPid)
    (honce : (s'.returned.map (·.child)).Nodup)
    (htask : ∀ j, Live s' j → TaskOk s'.returned (s'.tasks j))
    (hrel : ∀ r ∈ s'.released, r.parentAlive = true → ⟨r.parent, r.child⟩ ∈ s'.returned) :
    Inv s' := by
  refine ⟨?_, ?_, ?_, by rwa [hn], honce, htask, hrel⟩
  · intro j hj
    obtain ⟨hl, hp⟩ := hlive j hj
    rw [hp]
    exact h.pid_pos j hl
  · intro j hj
    obtain ⟨hl, hp⟩ := hlive j hj
    rw [hp, hn]
    exact h.pid_lt j hl
  · intro j k hj hk he
    obtain ⟨hl, hp⟩ := hlive j hj
    obtain ⟨hl', hp'⟩ := hlive k hk
    rw [hp, hp'] at he
    exact h.pid_inj j k hl hl' he

/-- The same when the logs do not change either. -/
theorem Inv.of_tasks (h : Inv s)
    (hlive : ∀ j, Live s' j → Live s j ∧ (s'.tasks j).pid = (s.tasks j).pid)
    (hn : s'.nextPid = s.nextPid) (hr : s'.returned = s.returned) (hl : s'.released = s.released)
    (htask : ∀ j, Live s' j → TaskOk s.returned (s'.tasks j)) : Inv s' := by
  refine h.of_step hlive hn ?_ ?_ ?_ ?_ <;> rw [hr]
  · exact h.returned_lt
  · exact h.returned_once
  · exact htask
  · rw [hl]
    exact h.released_cause

/-! ## Changes that reaping does not see -/

/-- The task keeps its identity, its parent and its mark, and does not die or
come to life. -/
structure SameLife (t t' : Task) : Prop where
  pid : t'.pid = t.pid
  parentPid : t'.parentPid = t.parentPid
  reapReady : t'.reapReady = t.reapReady
  unused : t'.state = .unused ↔ t.state = .unused
  zombie : t'.state = .zombie ↔ t.state = .zombie

theorem SameLife.refl (t : Task) : SameLife t t := ⟨rfl, rfl, rfl, Iff.rfl, Iff.rfl⟩

theorem SameLife.trans {t t' t'' : Task} (h : SameLife t t') (h' : SameLife t' t'') :
    SameLife t t'' :=
  ⟨h'.pid.trans h.pid, h'.parentPid.trans h.parentPid, h'.reapReady.trans h.reapReady,
    h'.unused.trans h.unused, h'.zombie.trans h.zombie⟩

theorem SameLife.taskOk {t t' : Task} {log : List Return} (h : SameLife t t') (ht : TaskOk log t) :
    TaskOk log t' := by
  constructor
  · intro hr
    rw [h.pid] at hr
    rw [h.zombie, h.reapReady]
    exact ht.marked hr
  · intro hz hm
    rw [h.zombie] at hz
    rw [h.reapReady] at hm
    rw [h.parentPid, h.pid]
    exact ht.cause hz hm

theorem Inv.congr (h : Inv s) (ht : ∀ i < maxTasks, SameLife (s.tasks i) (s'.tasks i))
    (hn : s'.nextPid = s.nextPid) (hr : s'.returned = s.returned)
    (hl : s'.released = s.released) : Inv s' := by
  have hlive : ∀ j, Live s' j → Live s j := fun j hj =>
    ⟨hj.1, fun hu => hj.2 ((ht j hj.1).unused.mpr hu)⟩
  exact h.of_tasks (fun j hj => ⟨hlive j hj, (ht j hj.1).pid⟩) hn hr hl
    fun j hj => (ht j hj.1).taskOk (h.task j (hlive j hj))

/-- Replacing a task by one with the same pid that agrees with the log. -/
theorem Inv.setTask (h : Inv s) (hl : Live s i) {t : Task} (hp : t.pid = (s.tasks i).pid)
    (ht : TaskOk s.returned t) : Inv (s.setTask i t) := by
  have hlive : ∀ j, Live (s.setTask i t) j → Live s j ∧
      ((s.setTask i t).tasks j).pid = (s.tasks j).pid :=
    forall_setTask (P := fun j t' => j < maxTasks ∧ t'.state ≠ .unused →
      Live s j ∧ t'.pid = (s.tasks j).pid) (fun _ => ⟨hl, hp⟩) (fun _ _ hj => ⟨hj, rfl⟩)
  refine h.of_tasks hlive rfl rfl rfl fun j hj => ?_
  exact forall_setTask (P := fun j t' => Live s j → TaskOk s.returned t') (fun _ => ht)
    (fun j _ => h.task j) j (hlive j hj).1

/-- Replacing a task by one with the same life. -/
theorem Inv.setTask_congr (h : Inv s) (hl : Live s i) {t : Task} (ht : SameLife (s.tasks i) t) :
    Inv (s.setTask i t) :=
  h.setTask hl ht.pid (ht.taskOk (h.task i hl))

theorem Inv.answer (h : Inv s) (hl : Live s c) (result : Int) : Inv (s.answer c result) :=
  h.setTask_congr hl ⟨rfl, rfl, rfl, Iff.rfl, Iff.rfl⟩

/-! ## Releasing a task -/

/-- A task without a parent, or whose parent was told, may go. -/
theorem releaseResources_inv (h : Inv s)
    (hcause : (s.tasks i).parentPid = 0 ∨
      ⟨(s.tasks i).parentPid, (s.tasks i).pid⟩ ∈ s.returned) :
    Inv (s.releaseResources i) := by
  refine h.of_step (fun j hj => ?_) rfl h.returned_lt h.returned_once (fun j hj => ?_) ?_
  · obtain ⟨hl, he⟩ := live_releaseResources hj
    exact ⟨hl, by rw [he]⟩
  · obtain ⟨hl, he⟩ := live_releaseResources hj
    rw [he]
    exact h.task j hl
  · intro r hr ha
    rcases List.mem_cons.mp hr with rfl | hr
    · rcases hcause with h0 | hret
      · -- no task has pid 0, so a task without a parent has no living parent
        have ha : s.isAlive (s.tasks i).parentPid = true := ha
        obtain ⟨j, hl, hp⟩ := isAlive_true ha
        have := h.pid_pos j hl
        omega
      · exact hret
    · exact h.released_cause r hr ha

/-! ## Returning a pid -/

section Return

variable {log : List Return} {w pid : Nat}

theorem returned_cons {p : Nat} : Returned (⟨w, pid⟩ :: log) p ↔ p = pid ∨ Returned log p := by
  constructor
  · rintro ⟨r, hr, rfl⟩
    rcases List.mem_cons.mp hr with rfl | hr
    · exact Or.inl rfl
    · exact Or.inr ⟨r, hr, rfl⟩
  · rintro (rfl | ⟨r, hr, he⟩)
    · exact ⟨_, List.mem_cons_self .., rfl⟩
    · exact ⟨r, List.mem_cons_of_mem _ hr, he⟩

/-- Another pid being returned changes nothing for a task. -/
theorem TaskOk.cons_of_ne {t : Task} (h : TaskOk log t) (hne : t.pid ≠ pid) :
    TaskOk (⟨w, pid⟩ :: log) t := by
  constructor
  · intro hr
    exact h.marked ((returned_cons.mp hr).resolve_left hne)
  · intro hz hm
    exact (h.cause hz hm).imp id fun hr => List.mem_cons_of_mem _ hr

theorem returned_once_cons (h : (log.map (·.child)).Nodup) (hnew : ¬ Returned log pid) :
    ((⟨w, pid⟩ :: log : List Return).map (·.child)).Nodup := by
  rw [List.map_cons, List.nodup_cons]
  refine ⟨fun hmem => hnew ?_, h⟩
  obtain ⟨r, hr, he⟩ := List.mem_map.mp hmem
  exact ⟨r, hr, he⟩

end Return

/-- A zombie is marked and its pid returned to its parent in one step. -/
theorem Inv.mark_and_return (h : Inv s) (hl : Live s i) (hz : (s.tasks i).state = .zombie)
    (hnew : ¬ Returned s.returned (s.tasks i).pid)
    (hi : s'.tasks i = { s.tasks i with reapReady := true })
    (hne : ∀ j, j ≠ i → SameLife (s.tasks j) (s'.tasks j)) (hn : s'.nextPid = s.nextPid)
    (hr : s'.returned = ⟨(s.tasks i).parentPid, (s.tasks i).pid⟩ :: s.returned)
    (hrel : s'.released = s.released) : Inv s' := by
  have hpid : ∀ j, (s'.tasks j).pid = (s.tasks j).pid := by
    intro j
    by_cases hj : j = i
    · rw [hj, hi]
    · exact (hne j hj).pid
  have hlive : ∀ j, Live s' j → Live s j := by
    intro j hj
    by_cases hji : j = i
    · rw [hji]; exact hl
    · exact ⟨hj.1, fun hu => hj.2 ((hne j hji).unused.mpr hu)⟩
  refine h.of_step (fun j hj => ⟨hlive j hj, hpid j⟩) hn ?_ ?_ (fun j hj => ?_) ?_ <;> rw [hr]
  · intro pid hp
    rcases returned_cons.mp hp with rfl | hp
    · exact h.pid_lt i hl
    · exact h.returned_lt pid hp
  · exact returned_once_cons h.returned_once hnew
  · by_cases hji : j = i
    · rw [hji, hi]
      exact ⟨fun _ => ⟨hz, rfl⟩, fun _ _ => Or.inr (List.mem_cons_self ..)⟩
    · refine ((hne j hji).taskOk (h.task j (hlive j hj))).cons_of_ne fun he => hji ?_
      rw [hpid] at he
      exact h.pid_inj j i (hlive j hj) hl he
  · intro r hr' ha
    rw [hrel] at hr'
    exact List.mem_cons_of_mem _ (h.released_cause r hr' ha)

/-- A new task with the next pid. -/
theorem Inv.addTask (h : Inv s) (hu : (s.tasks i).state = .unused) {t : Task}
    (hp : t.pid = s.nextPid) (hz : t.state ≠ .zombie) (hpos : 0 < s.nextPid) :
    Inv { s.setTask i t with nextPid := s.nextPid + 1 } := by
  -- every task of the new table is the new one or an old one in another slot
  have hcases : ∀ j, Live { s.setTask i t with nextPid := s.nextPid + 1 } j →
      (j = i ∧ (s.setTask i t).tasks j = t) ∨
        (j ≠ i ∧ Live s j ∧ (s.setTask i t).tasks j = s.tasks j) := by
    intro j hj
    by_cases hji : j = i
    · subst hji
      exact Or.inl ⟨rfl, setTask_self s j t⟩
    · have he := setTask_ne s t hji
      refine Or.inr ⟨hji, ⟨hj.1, ?_⟩, he⟩
      rw [← he]
      exact hj.2
  refine ⟨?_, ?_, ?_, fun pid hr => Nat.lt_succ_of_lt (h.returned_lt pid hr), h.returned_once,
    ?_, h.released_cause⟩
  · intro j hj
    show 0 < ((s.setTask i t).tasks j).pid
    rcases hcases j hj with ⟨-, he⟩ | ⟨-, hl, he⟩ <;> rw [he]
    · omega
    · exact h.pid_pos j hl
  · intro j hj
    show ((s.setTask i t).tasks j).pid < s.nextPid + 1
    rcases hcases j hj with ⟨-, he⟩ | ⟨-, hl, he⟩ <;> rw [he]
    · omega
    · exact Nat.lt_succ_of_lt (h.pid_lt j hl)
  · intro j k hj hk he
    have he : ((s.setTask i t).tasks j).pid = ((s.setTask i t).tasks k).pid := he
    rcases hcases j hj with ⟨hji, hej⟩ | ⟨-, hl, hej⟩ <;>
      rcases hcases k hk with ⟨hki, hek⟩ | ⟨-, hl', hek⟩ <;> rw [hej, hek] at he
    · rw [hji, hki]
    · have := h.pid_lt k hl'
      omega
    · have := h.pid_lt j hl
      omega
    · exact h.pid_inj j k hl hl' he
  · intro j hj
    show TaskOk s.returned ((s.setTask i t).tasks j)
    rcases hcases j hj with ⟨-, he⟩ | ⟨-, hl, he⟩ <;> rw [he]
    · refine ⟨fun hr => ?_, fun hzt => absurd hzt hz⟩
      have := h.returned_lt _ hr
      omega
    · exact h.task j hl

/-- A zombie that was not marked is returned and released in one step. -/
theorem Inv.return_and_release (h : Inv s) (hl : Live s i) (hz : (s.tasks i).state = .zombie)
    (hnew : ¬ Returned s.returned (s.tasks i).pid) :
    Inv ({ s with
      returned := ⟨(s.tasks i).parentPid, (s.tasks i).pid⟩ :: s.returned }.releaseResources i) := by
  -- marking the zombie first makes this a return followed by a release
  have hmark : Inv { s.setTask i { s.tasks i with reapReady := true } with
      returned := ⟨(s.tasks i).parentPid, (s.tasks i).pid⟩ :: s.returned } := by
    refine h.mark_and_return hl hz hnew (setTask_self ..) (fun j hj => ?_) rfl rfl rfl
    show SameLife _ ((s.setTask i _).tasks j)
    rw [setTask_ne s _ hj]
    exact SameLife.refl _
  refine h.of_step (fun j hj => ?_) rfl hmark.returned_lt hmark.returned_once (fun j hj => ?_) ?_
  · obtain ⟨hl', he⟩ := live_releaseResources hj
    exact ⟨hl', by rw [he]⟩
  · obtain ⟨hl', he⟩ := live_releaseResources hj
    rw [he]
    refine (h.task j hl').cons_of_ne fun hp => ?_
    obtain rfl := h.pid_inj j i hl' hl hp
    refine hj.2 ?_
    show ((ProcState.setTask _ j Task.reset).tasks j).state = .unused
    rw [setTask_self]
    rfl
  · intro r hr ha
    rcases List.mem_cons.mp hr with rfl | hr
    · exact List.mem_cons_self ..
    · exact List.mem_cons_of_mem _ (h.released_cause r hr ha)

/-! ## The scheduler -/

theorem wakeSleeper_sameLife (ticks : Nat) (t : Task) : SameLife t (wakeSleeper ticks t) := by
  unfold wakeSleeper
  split
  next h => exact ⟨rfl, rfl, rfl, by simp [h.1], by simp [h.1]⟩
  · exact SameLife.refl t

theorem serviceBlocked_sameLife (b : Bool) (t : Task) : SameLife t (serviceBlocked b t) := by
  unfold serviceBlocked
  split
  next h => exact ⟨rfl, rfl, rfl, by simp [h.1], by simp [h.1]⟩
  · exact SameLife.refl t

theorem beforeCollect_inv (h : Inv s) (env : Env) : Inv (s.beforeCollect env) := by
  obtain ⟨-, -, hn, hr, hl⟩ := beforeCollect_current s env
  refine h.congr (fun j _ => ?_) hn hr hl
  rw [beforeCollect_tasks]
  refine SameLife.trans ?_ ((wakeSleeper_sameLife _ _).trans (serviceBlocked_sameLife _ _))
  split
  next hrun => exact ⟨rfl, rfl, rfl, by simp [hrun.2], by simp [hrun.2]⟩
  · exact SameLife.refl _

/-- The collector releases marked zombies only. -/
theorem collectSlot_inv (h : Inv s) (hi : i < maxTasks) : Inv (s.collectSlot i) := by
  unfold collectSlot
  split
  · exact h
  next hc =>
    simp only [not_or, not_not, Bool.not_eq_false] at hc
    have hl : Live s i := ⟨hi, by rw [hc.2.1]; simp⟩
    exact releaseResources_inv h ((h.task i hl).cause hc.2.1 hc.2.2)

theorem collect_inv (h : Inv s) : Inv s.collectReapableZombies := by
  have hfold : ∀ (l : List Nat), (∀ i ∈ l, i < maxTasks) → ∀ s, Inv s →
      Inv (l.foldl collectSlot s) := by
    intro l
    induction l with
    | nil => exact fun _ s h => h
    | cons i l ih =>
      intro hl s h
      exact ih (fun j hj => hl j (List.mem_cons_of_mem _ hj)) _
        (collectSlot_inv h (hl i (List.mem_cons_self ..)))
  exact hfold _ (fun i hi => List.mem_range.mp hi) s h

/-- The scheduler keeps the books. -/
theorem schedule_inv (h : Inv s) (hi : IdleOk s) (env : Env) : Inv (s.schedule env) := by
  obtain ⟨i, hlt, he, hrun⟩ := hi.picks env
  have hinv := collect_inv (beforeCollect_inv h env)
  rw [he]
  generalize (s.beforeCollect env).collectReapableZombies = t at hinv hrun ⊢
  have hset := hinv.setTask_congr (i := i) (t := { t.tasks i with state := .running })
    ⟨hlt, by rw [hrun]; simp⟩ ⟨rfl, rfl, rfl, by simp [hrun], by simp [hrun]⟩
  exact hset.congr (fun _ _ => SameLife.refl _) rfl rfl rfl

/-! ## The system calls -/

theorem Suspended.sameLife {e : Event} {t t' : Task} (h : Suspended e t t')
    (hrun : t.state = .running) : SameLife t t' := by
  refine ⟨h.pid, h.parentPid, h.reapReady, ?_, ?_⟩ <;>
    rcases h.state with hst | hst | ⟨hst, -⟩ <;> simp [hst, hrun]

/-- A fork with a fresh pid. -/
theorem fork_inv (h : Inv s) (hl : Live s c) (hi : s.findUnused = some i)
    (hpid : s.nextPid + 1 < 2 ^ 32) {t : Task} (hp : t.pid = s.nextPid) (hz : t.state ≠ .zombie)
    (result : Int) :
    Inv ({ s.setTask i t with nextPid := (s.nextPid + 1) % 2 ^ 32 }.answer c result) := by
  obtain ⟨-, hiu⟩ := findUnused_some hi
  have hci : c ≠ i := by
    intro he
    rw [← he] at hiu
    exact hl.2 hiu
  have hpos : 0 < s.nextPid := Nat.lt_of_le_of_lt (Nat.zero_le _) (h.pid_lt c hl)
  rw [Nat.mod_eq_of_lt hpid]
  refine (h.addTask hiu hp hz hpos).answer ⟨hl.1, ?_⟩ result
  show ((s.setTask i t).tasks c).state ≠ .unused
  rw [setTask_ne s t hci]
  exact hl.2

/-- The running task collects a zombie that was not marked. -/
theorem collect_zombie_inv (h : Inv s) (hl : Live s c) (hrun : (s.tasks c).state = .running)
    (hi : i < maxTasks ∧ (s.tasks i).state = .zombie ∧ (s.tasks i).parentPid = (s.tasks c).pid)
    (hm : (s.tasks i).reapReady = false) (result : Int) :
    Inv (({ s with returned := ⟨(s.tasks c).pid, (s.tasks i).pid⟩ :: s.returned }.answer c
      result).releaseResources i) := by
  have hic : i ≠ c := by
    intro he
    rw [he, hrun] at hi
    exact absurd hi.2.1 (by simp)
  have hti : (s.answer c result).tasks i = s.tasks i := setTask_ne s _ hic
  have hli : Live s i := ⟨hi.1, by rw [hi.2.1]; simp⟩
  have hnew : ¬ Returned s.returned (s.tasks i).pid := fun hr => by
    rw [((h.task i hli).marked hr).2] at hm
    simp at hm
  have hinv := (h.answer hl result).return_and_release (i := i) ⟨hi.1, by rw [hti]; exact hli.2⟩
    (by rw [hti]; exact hi.2.1) (by rw [hti]; exact hnew)
  rw [hti, hi.2.2] at hinv
  exact hinv

/-! ## Exit -/

/-- Children may change their parent unless one of them is marked already. -/
theorem reparent_taskOk {pid newPid : Nat} {t : Task} {log : List Return} (h : TaskOk log t)
    (hsafe : newPid ≠ 0 → t.parentPid = pid → t.state = .zombie → t.reapReady = false) :
    TaskOk log (reparent pid newPid t) := by
  rcases reparent_cases pid newPid t with he | ⟨hp, he⟩ <;> rw [he]
  · exact h
  constructor
  · intro hr
    obtain ⟨hz, hm⟩ := h.marked hr
    refine ⟨hz, ?_⟩
    show (if newPid = 0 ∧ t.state = .zombie then true else t.reapReady) = true
    rw [hm, ite_self]
  · intro hz hm
    have hm : (if newPid = 0 ∧ t.state = .zombie then true else t.reapReady) = true := hm
    by_cases h0 : newPid = 0
    · exact Or.inl h0
    · rw [if_neg (fun hc => h0 hc.1), hsafe h0 hp hz] at hm
      simp at hm

/-- No zombie child of the task in slot `c` is marked, or nobody adopts them. -/
def NoMarkedChild (s : ProcState) (c : Nat) : Prop :=
  s.adopter c = 0 ∨ ∀ i < maxTasks, (s.tasks i).parentPid = (s.tasks c).pid →
    (s.tasks i).state = .zombie → (s.tasks i).reapReady = false

instance (s : ProcState) (c : Nat) : Decidable (NoMarkedChild s c) :=
  inferInstanceAs (Decidable (_ ∨ _))

theorem reparentChildren_inv (h : Inv s) (hsafe : NoMarkedChild s c) :
    Inv (s.reparentChildren c) := by
  have hkeep := fun j => reparent_keeps (s.tasks c).pid (s.adopter c) (s.tasks j)
  have hlive : ∀ j, Live (s.reparentChildren c) j → Live s j := fun j hj =>
    ⟨hj.1, fun hu => hj.2 ((hkeep j).2.1.trans hu)⟩
  refine h.of_tasks (fun j hj => ⟨hlive j hj, (hkeep j).1⟩) rfl rfl rfl fun j hj => ?_
  refine reparent_taskOk (h.task j (hlive j hj)) fun h0 hp hz => ?_
  exact (hsafe.resolve_left h0) j hj.1 hp hz

/-- The exiting task becomes a zombie, marked only if it has no parent. -/
theorem exiting_inv (h : Inv s) (hl : Live s c) (hnew : ¬ Returned s.returned (s.tasks c).pid)
    (hsafe : NoMarkedChild s c) (status : Int) : Inv (s.exiting c status) := by
  have hkeep := reparent_keeps (s.tasks c).pid (s.adopter c) (s.tasks c)
  refine (reparentChildren_inv h hsafe).setTask ⟨hl.1, fun hu => hl.2 (hkeep.2.1.symm.trans hu)⟩ rfl
    ⟨fun hr => absurd hr ?_, fun _ hm => Or.inl (by simpa using hm)⟩
  show ¬ Returned s.returned (reparent (s.tasks c).pid (s.adopter c) (s.tasks c)).pid
  rw [hkeep.1]
  exact hnew

/-- Completing the wait of a blocked parent, with a status copy that succeeds. -/
theorem finishBlockedWait_inv {p : Nat} (h : Inv s) (hl : Live s c)
    (hz : (s.tasks c).state = .zombie) (hnew : ¬ Returned s.returned (s.tasks c).pid)
    (hp : (s.tasks p).pid = (s.tasks c).parentPid) (hb : (s.tasks p).state = .blocked) :
    Inv (s.finishBlockedWait p c true) := by
  have hpc : c ≠ p := by
    intro he
    rw [he, hb] at hz
    simp at hz
  unfold finishBlockedWait
  simp only [Bool.or_true, if_true]
  refine h.mark_and_return hl hz hnew ?_ (fun j hj => ?_) rfl (by rw [← hp]; rfl) rfl
  · rw [setTask_self]
    exact congrArg (fun t : Task => { t with reapReady := true }) (setTask_ne _ _ hpc)
  · rw [setTask_ne _ _ hj]
    by_cases hjp : j = p
    · subst hjp
      rw [setTask_self]
      exact ⟨rfl, rfl, rfl, by simp [hb], by simp [hb]⟩
    · rw [setTask_ne _ _ hjp]
      exact SameLife.refl _

theorem notifyParentExit_inv (h : Inv s) (hl : Live s c) (hz : (s.tasks c).state = .zombie)
    (hnew : ¬ Returned s.returned (s.tasks c).pid) : Inv (s.notifyParentExit c true) := by
  have htold := notifyParentExit_told s c true
  generalize s.notifyParentExit c true = s' at htold ⊢
  cases htold with
  | orphan => exact h.setTask hl rfl ⟨fun _ => ⟨hz, rfl⟩, fun _ _ => Or.inl rfl⟩
  | unheard => exact h
  | woken hp hb => exact finishBlockedWait_inv h hl hz hnew (findByPid_some hp).2 hb.1

/-! ## Runs -/

/-- What the defects exclude from a run, with the pids in range: a fork does not
wrap the pid counter, a `waitpid` that can report its status does not meet a
zombie that is already marked for collection, an exit does not hand such a zombie
to `init`, and the status copy an exit makes for a blocked parent succeeds (an
exit that makes none is the same step with either value of `copied`). -/
def SafeStep (s : ProcState) : Event → Prop
  | .fork _ => s.nextPid + 1 < 2 ^ 32
  | .waitpid pid statusUser writable copied _ =>
      statusUser = 0 ∨ (writable = true ∧ copied = true) → ∀ c i, s.current = some c →
        s.findZombieChild (s.tasks c) pid = some i → (s.tasks i).reapReady = false
  | .exit _ copied _ => copied = true ∧ ∀ c, s.current = some c → NoMarkedChild s c
  | _ => True

/-- One event of a safe run keeps the books. -/
theorem step_inv {e : Event} (h : Inv s) (hi : IdleOk s) (hc : CurrentOk s) (hs : SafeStep s e) :
    Inv (s.step e) := by
  obtain ⟨c, -, hcur, hrun⟩ := id hc
  have hl := hc.live hcur
  rcases step_turn hcur e with hstep | ⟨he, r, hent, ht, hstep⟩ <;> rw [hstep]
  · exact h
  cases ht with
  | yields env => exact schedule_inv h hi env
  | answers result => exact h.answer hl result
  | forks hslot => exact fork_inv h hl hslot hs rfl (by simp) _
  | collects hz hok =>
    exact collect_zombie_inv h hl hrun (findZombieChild_some hz) (hs hok c _ hcur hz) _
  | waits =>
    refine schedule_inv (s := s.setTask c _) (h.setTask_congr hl ?_) (enter_idle hi he hent) _
    exact ⟨rfl, rfl, rfl, by simp [hrun], by simp [hrun]⟩
  | suspends ht =>
    exact schedule_inv (h.setTask_congr hl (ht.sameLife hrun)) (enter_idle hi he hent) _
  | exits =>
    obtain ⟨rfl, hmarked⟩ := hs
    have hnew : ¬ Returned s.returned (s.tasks c).pid := fun hr => by
      have hz := ((h.task c hl).marked hr).1
      rw [hrun] at hz
      simp at hz
    have hself := exiting_self s c
    refine schedule_inv (notifyParentExit_inv (exiting_inv h hl hnew (hmarked c hcur) _) ?_ ?_ ?_)
      (enter_idle hi he hent) _
    · exact ⟨hl.1, by rw [(hself _).1]; simp⟩
    · exact (hself _).1
    · rw [(hself _).2.1]
      exact hnew

theorem step_good (s : ProcState) (e : Event) (h : Good s) (hs : SafeStep s e) : Good (s.step e) :=
  have hready := step_ready e h.idle h.current
  ⟨step_inv h.inv h.idle h.current hs, hready.1, hready.2⟩

/-- The table as the kernel hands it to the first user task: an idle task, every
task with its own pid, none of them dead, nothing logged. -/
structure Booted (s : ProcState) : Prop where
  pid : ∀ i < maxTasks, (s.tasks i).state ≠ .unused →
    0 < (s.tasks i).pid ∧ (s.tasks i).pid < s.nextPid
  pid_inj : ∀ i < maxTasks, ∀ j < maxTasks, (s.tasks i).state ≠ .unused →
    (s.tasks j).state ≠ .unused → (s.tasks i).pid = (s.tasks j).pid → i = j
  no_zombie : ∀ i < maxTasks, (s.tasks i).state ≠ .zombie
  returned : s.returned = []
  released : s.released = []
  idle : IdleOk s
  current : CurrentOk s

theorem Booted.good (h : Booted s) : Good s := by
  have hnone : ∀ pid, ¬ Returned s.returned pid := by
    rintro pid ⟨r, hr, -⟩
    rw [h.returned] at hr
    exact absurd hr List.not_mem_nil
  refine ⟨⟨?_, ?_, ?_, ?_, ?_, ?_, ?_⟩, h.idle, h.current⟩
  · exact fun i hi => (h.pid i hi.1 hi.2).1
  · exact fun i hi => (h.pid i hi.1 hi.2).2
  · exact fun i j hi hj => h.pid_inj i hi.1 j hj.1 hi.2 hj.2
  · exact fun pid hr => absurd hr (hnone pid)
  · rw [h.returned]
    exact List.nodup_nil
  · exact fun i hi => ⟨fun hr => absurd hr (hnone _), fun hz => absurd hz (h.no_zombie i hi.1)⟩
  · intro r hr
    rw [h.released] at hr
    exact absurd hr List.not_mem_nil

/-- No pid is returned twice, and a task whose parent is alive is released only
after `waitpid` returned its pid to that parent. -/
def ReapsOnce (s : ProcState) : Prop :=
  (s.returned.map (·.child)).Nodup ∧
    ∀ r ∈ s.released, r.parentAlive = true → ⟨r.parent, r.child⟩ ∈ s.returned

instance (s : ProcState) : Decidable (ReapsOnce s) := inferInstanceAs (Decidable (_ ∧ _))

/-- **Exactly-once reaping.** In every run whose events stay clear of the
defects, from any boot state, every state reached has reaped each child at most
once and no child behind its living parent's back. -/
theorem guarded_run_reaps_once {s₀ : ProcState} (h : Booted s₀) {es : List Event}
    (hes : Guarded step SafeStep s₀ es) : ReapsOnce (run step s₀ es) := by
  have hgood := guarded_invariant step_good es h.good hes
  exact ⟨hgood.inv.returned_once, hgood.inv.released_cause⟩

/-- The idle task in slot 0 and a running `init` in slot 1. -/
def bootState : ProcState where
  tasks i :=
    if i = 0 then { Task.reset with pid := 1, state := .runnable }
    else if i = 1 then { Task.reset with pid := 2, kind := .user, state := .running }
    else Task.reset
  current := some 1
  idle := some 0
  init := some 1
  nextPid := 3
  returned := []
  released := []

theorem bootState_booted : Booted bootState where
  pid := by decide
  pid_inj := by decide
  no_zombie := by decide
  returned := rfl
  released := rfl
  idle := ⟨0, by decide, rfl, rfl, Or.inl rfl⟩
  current := ⟨1, by decide, rfl, rfl⟩

/-- A tick at which nothing blocked completes. -/
def quiet : Env := ⟨0, fun _ => false⟩

/-- `init` forks and waits, the child exits and is reported, the next schedule
collects it. -/
theorem guarded_run_reaps_once_boot :
    ReapsOnce (run step bootState [.fork true, .waitpid (-1) 0 true true quiet, .exit 7 true quiet,
      .schedule quiet]) := by
  refine guarded_run_reaps_once bootState_booted ⟨?_, ?_, ⟨rfl, ?_⟩, trivial, trivial⟩
  · show 3 + 1 < 2 ^ 32
    omega
  · intro _ c i hc hfind
    obtain rfl : 1 = c := Option.some.inj hc
    -- the child is still alive, so there is no zombie to find
    exact absurd hfind (by rw [show findZombieChild _ _ _ = none from rfl]; simp)
  · intro c hc
    obtain rfl : 2 = c := Option.some.inj hc
    decide

/-- The defects, from one boot state: a second `waitpid` before the next schedule
gets the same pid again; a failed status copy lets the collector take a child
nobody was told about; and a parent that exits right after its `waitpid` leaves a
reported zombie to `init`, behind whose back it is then released. -/
theorem waitpid_reaps_twice :
    ¬ ReapsOnce (run step bootState [.fork true, .waitpid (-1) 0 true true quiet,
        .exit 7 true quiet, .waitpid (-1) 0 true true quiet]) ∧
      ¬ ReapsOnce (run step bootState [.fork true, .waitpid (-1) 4096 true true quiet,
        .exit 7 false quiet, .schedule quiet]) ∧
      ¬ ReapsOnce (run step bootState [.fork true, .waitpid (-1) 0 true true quiet, .fork true,
        .waitpid (-1) 0 true true quiet, .exit 7 true quiet, .exit 0 true quiet]) := by
  decide

end Riverix.Proc
