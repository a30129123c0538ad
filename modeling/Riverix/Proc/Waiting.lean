import Riverix.Proc.Reaping

/-!
# No sleeping parent misses a zombie

A task that waits in `waitpid` is woken by `proc_notify_parent_exit` when a matching
child exits. A zombie can also become its child: when a task exits, its children go to
`init`, the zombies among them included, and `proc_reparent_children` wakes nobody. An
`init` that waits for any child then sleeps on although it could collect one.

`Calmer` is what a task may do without anybody having to be woken. `sysExit_unmissed`
is the exit, the only place where a wakeup is due, and **`guarded_run_misses_none`** the
result over the runs in which no waiting `init` is handed a zombie.
-/

namespace Riverix.Proc

open Riverix.Lib ProcState

variable {s s' : ProcState} {c i p z : Nat}

/-- The task sleeps in `waitpid`. -/
def Waiting (t : Task) : Prop := t.state = .blocked ∧ t.blockReason = .waitpid

instance (t : Task) : Decidable (Waiting t) := inferInstanceAs (Decidable (_ ∧ _))

/-- The task in slot `p` sleeps in `waitpid` although the zombie in slot `z` is a child
it waits for. -/
def Misses (s : ProcState) (p z : Nat) : Prop :=
  Waiting (s.tasks p) ∧ (s.tasks z).state = .zombie ∧
    waitMatches (s.tasks p) (s.tasks z) (s.tasks p).waitTargetPid = true

instance (s : ProcState) (p z : Nat) : Decidable (Misses s p z) :=
  inferInstanceAs (Decidable (_ ∧ _))

def MissesNone (s : ProcState) : Prop := ∀ p < maxTasks, ∀ z < maxTasks, ¬ Misses s p z

instance (s : ProcState) : Decidable (MissesNone s) :=
  inferInstanceAs (Decidable (∀ p < maxTasks, ∀ z < maxTasks, ¬ Misses s p z))

/-- Every task has its own pid, and `init` is a slot of the table. -/
structure Pids (s : ProcState) : Prop where
  pos : ∀ i, Live s i → 0 < (s.tasks i).pid
  inj : ∀ i j, Live s i → Live s j → (s.tasks i).pid = (s.tasks j).pid → i = j
  init_lt : ∀ i, s.init = some i → i < maxTasks

/-! ## Changes that call for no wakeup -/

/-- The task neither falls asleep in `waitpid` nor dies nor changes its parent; it may
wake up or disappear. -/
structure Calmer (t t' : Task) : Prop where
  same : t'.state ≠ .unused → t.state ≠ .unused ∧ t'.pid = t.pid ∧ t'.parentPid = t.parentPid
  waiting : Waiting t' → Waiting t ∧ t'.waitTargetPid = t.waitTargetPid
  zombie : t'.state = .zombie → t.state = .zombie ∧ t'.reapReady = t.reapReady

theorem Calmer.refl (t : Task) : Calmer t t :=
  ⟨fun h => ⟨h, rfl, rfl⟩, fun h => ⟨h, rfl⟩, fun h => ⟨h, rfl⟩⟩

theorem Calmer.trans {t t' t'' : Task} (h : Calmer t t') (h' : Calmer t' t'') : Calmer t t'' := by
  constructor
  · intro hu
    obtain ⟨hu', hp', hpp'⟩ := h'.same hu
    obtain ⟨hu, hp, hpp⟩ := h.same hu'
    exact ⟨hu, hp'.trans hp, hpp'.trans hpp⟩
  · intro hw
    obtain ⟨hw', ht'⟩ := h'.waiting hw
    obtain ⟨hw, ht⟩ := h.waiting hw'
    exact ⟨hw, ht'.trans ht⟩
  · intro hz
    obtain ⟨hz', hr'⟩ := h'.zombie hz
    obtain ⟨hz, hr⟩ := h.zombie hz'
    exact ⟨hz, hr'.trans hr⟩

theorem Calmer.reset (t : Task) : Calmer t Task.reset :=
  ⟨fun h => absurd rfl h, fun h => absurd h.1 (by decide), fun h => absurd h (by decide)⟩

/-- A task that is ready or running from now on. -/
theorem Calmer.awake {t t' : Task} (hu : t.state ≠ .unused) (hp : t'.pid = t.pid)
    (hpp : t'.parentPid = t.parentPid) (hst : t'.state ≠ .blocked) (hz : t'.state ≠ .zombie) :
    Calmer t t' :=
  ⟨fun _ => ⟨hu, hp, hpp⟩, fun h => absurd h.1 hst, fun h => absurd h hz⟩

theorem waitMatches_iff {parent child : Task} {target : Int} :
    waitMatches parent child target = true ↔ child.state ≠ .unused ∧
      child.parentPid = parent.pid ∧ (target < 0 ∨ child.pid = target.toNat) := by
  unfold waitMatches
  split
  next h =>
    rcases h with h | h <;> simp [h]
  next h =>
  rw [not_or, not_not] at h
  split
  next ht => simp [h, ht]
  next ht => simp [h, ht]

theorem Waiting.live (h : Waiting (s.tasks i)) (hi : i < maxTasks) : Live s i :=
  ⟨hi, by rw [h.1]; simp⟩

/-- A missed zombie after a calming change was missed before. -/
theorem Misses.of_calmer (hp : Calmer (s.tasks p) (s'.tasks p))
    (hz : Calmer (s.tasks z) (s'.tasks z)) (h : Misses s' p z) : Misses s p z := by
  obtain ⟨hw, hzom, hm⟩ := h
  obtain ⟨hw', ht⟩ := hp.waiting hw
  rw [waitMatches_iff, ht] at hm
  obtain ⟨hu, hpar, hpid⟩ := hm
  obtain ⟨-, hpp, -⟩ := hp.same (by rw [hw.1]; simp)
  obtain ⟨hu', hzp, hzpp⟩ := hz.same hu
  rw [hpp, hzpp] at hpar
  rw [hzp] at hpid
  exact ⟨hw', (hz.zombie hzom).1, waitMatches_iff.mpr ⟨hu', hpar, hpid⟩⟩

theorem MissesNone.of_calmer (h : MissesNone s)
    (ht : ∀ j, Calmer (s.tasks j) (s'.tasks j)) : MissesNone s' :=
  fun p hp z hz hm => h p hp z hz (hm.of_calmer (ht p) (ht z))

/-- No new task, and the old ones with their pids. -/
theorem Pids.of_live (h : Pids s)
    (hlive : ∀ j, Live s' j → Live s j ∧ (s'.tasks j).pid = (s.tasks j).pid)
    (hinit : ∀ i, s'.init = some i → s.init = some i) : Pids s' := by
  refine ⟨?_, ?_, fun i hi => h.init_lt i (hinit i hi)⟩
  · intro j hj
    rw [(hlive j hj).2]
    exact h.pos j (hlive j hj).1
  · intro j k hj hk he
    rw [(hlive j hj).2, (hlive k hk).2] at he
    exact h.inj j k (hlive j hj).1 (hlive k hk).1 he

theorem Pids.of_calmer (h : Pids s) (ht : ∀ j, Calmer (s.tasks j) (s'.tasks j))
    (hinit : ∀ i, s'.init = some i → s.init = some i) : Pids s' := by
  refine h.of_live (fun j hj => ?_) hinit
  obtain ⟨hu, hp, -⟩ := (ht j).same hj.2
  exact ⟨⟨hj.1, hu⟩, hp⟩

theorem calmer_setTask {t : Task} (h : Calmer (s.tasks i) t) (j : Nat) :
    Calmer (s.tasks j) ((s.setTask i t).tasks j) :=
  forall_setTask (P := fun j t => Calmer (s.tasks j) t) h (fun _ _ => Calmer.refl _) j

/-! ## The scheduler -/

theorem beforeCollect_calmer (s : ProcState) (env : Env) (j : Nat) :
    Calmer (s.tasks j) ((s.beforeCollect env).tasks j) := by
  have hwake : ∀ t, Calmer t (wakeSleeper env.ticks t) := by
    intro t
    unfold wakeSleeper
    split
    next h => exact Calmer.awake (by rw [h.1]; simp) rfl rfl (by simp) (by simp)
    · exact Calmer.refl t
  have hserve : ∀ t, Calmer t (serviceBlocked (env.completes j) t) := by
    intro t
    unfold serviceBlocked
    split
    next h => exact Calmer.awake (by rw [h.1]; simp) rfl rfl (by simp) (by simp)
    · exact Calmer.refl t
  rw [beforeCollect_tasks]
  refine Calmer.trans ?_ ((hwake _).trans (hserve _))
  split
  next h => exact Calmer.awake (by rw [h.2]; simp) rfl rfl (by simp) (by simp)
  · exact Calmer.refl _

theorem collect_calmer (s : ProcState) (j : Nat) :
    Calmer (s.tasks j) (s.collectReapableZombies.tasks j) := by
  rcases collect_tasks s j with he | ⟨-, he⟩ <;> rw [he]
  · exact Calmer.refl _
  · exact Calmer.reset _

theorem collectSlot_current (s : ProcState) (i : Nat) : (s.collectSlot i).current = s.current := by
  unfold collectSlot
  split <;> rfl

theorem collectSlot_init (h : (s.collectSlot i).init = some c) : s.init = some c := by
  unfold collectSlot at h
  split at h
  · exact h
  have h : (if s.init = some i then none else s.init) = some c := h
  split at h
  · simp at h
  · exact h

theorem collect_init (h : s.collectReapableZombies.init = some c) : s.init = some c := by
  unfold collectReapableZombies at h
  revert h
  induction List.range maxTasks generalizing s with
  | nil => exact id
  | cons i l ih => exact fun h => collectSlot_init (ih h)

/-- No marked zombie is left by the collector, unless it is the current task. -/
theorem collect_marked (hz : z < maxTasks)
    (h : (s.collectReapableZombies.tasks z).state = .zombie)
    (hm : (s.collectReapableZombies.tasks z).reapReady = true) : s.current = some z := by
  -- once the loop has passed the slot it holds no such zombie, and none comes back
  have hfold : ∀ (l : List Nat) (s : ProcState), z ∈ l →
      ((l.foldl collectSlot s).tasks z).state = .zombie →
      ((l.foldl collectSlot s).tasks z).reapReady = true → s.current = some z := by
    intro l
    induction l with
    | nil => exact fun s hmem => absurd hmem List.not_mem_nil
    | cons i l ih =>
      intro s hmem hzom hmark
      rw [List.foldl_cons] at hzom hmark
      by_cases hl : z ∈ l
      · exact (collectSlot_current s i).symm.trans (ih _ hl hzom hmark)
      have hiz : i = z := by
        rcases List.mem_cons.mp hmem with he | he
        · exact he.symm
        · exact absurd he hl
      subst hiz
      have hlater : ∀ (l : List Nat) (s : ProcState),
          Calmer (s.tasks i) ((l.foldl collectSlot s).tasks i) := by
        intro l
        induction l with
        | nil => exact fun s => Calmer.refl _
        | cons j l ih' =>
          intro s
          refine Calmer.trans ?_ (ih' _)
          rcases collectSlot_tasks s j i with he | ⟨-, he⟩ <;> rw [he]
          · exact Calmer.refl _
          · exact Calmer.reset _
      obtain ⟨hzom', hmark'⟩ := (hlater l (s.collectSlot i)).zombie hzom
      rw [hmark'] at hmark
      unfold collectSlot at hzom' hmark
      split at hzom'
      next hc =>
        rw [if_pos hc] at hmark
        rcases hc with hc | hc | hc
        · exact hc
        · exact absurd hzom' hc
        · rw [hc] at hmark
          simp at hmark
      next =>
        have hzom' : ((s.setTask i Task.reset).tasks i).state = .zombie := hzom'
        rw [setTask_self] at hzom'
        exact absurd hzom' (by decide)
  exact hfold _ s (List.mem_range.mpr hz) h hm

/-- A missed zombie that is marked and not the current task goes away in the schedule. -/
def MissesUnmarked (s : ProcState) (p z : Nat) : Prop :=
  Misses s p z ∧ ((s.tasks z).reapReady = true → s.current = some z)

theorem activate_calmer (h : (s.tasks i).state = .runnable) (j : Nat) :
    Calmer (s.tasks j) ((s.activateTask i).tasks j) := by
  refine calmer_setTask (t := { s.tasks i with state := .running }) ?_ j
  exact Calmer.awake (by rw [h]; simp) rfl rfl (by simp) (by simp)

theorem schedule_calmer (h : Settled s) (env : Env) (j : Nat) :
    Calmer (s.tasks j) ((s.schedule env).tasks j) := by
  obtain ⟨i, hi, he, hrun⟩ := h.idle.picks env
  rw [he]
  exact ((beforeCollect_calmer s env j).trans (collect_calmer _ j)).trans (activate_calmer hrun j)

theorem schedule_init (h : (s.schedule env).init = some c) : s.init = some c := by
  have hb : (s.beforeCollect env).init = s.init := by
    unfold beforeCollect
    cases hc : s.current with
    | none => rfl
    | some c =>
      dsimp only
      split <;> rfl
  have hcol : (s.beforeCollect env).collectReapableZombies.init = some c := by
    unfold schedule at h
    dsimp only at h
    split at h
    · exact h
    · exact h
  rw [← hb]
  exact collect_init hcol

theorem schedule_pids (h : Settled s) (hp : Pids s) (env : Env) : Pids (s.schedule env) :=
  hp.of_calmer (schedule_calmer h env) fun _ => schedule_init

theorem schedule_missesNone (h : Settled s)
    (hm : ∀ p < maxTasks, ∀ z < maxTasks, ¬ MissesUnmarked s p z) (env : Env) :
    MissesNone (s.schedule env) := by
  intro p hp z hz hmiss
  obtain ⟨i, hi, he, hrun⟩ := h.idle.picks env
  have hact : ∀ j, Calmer ((s.beforeCollect env).collectReapableZombies.tasks j)
      ((s.schedule env).tasks j) := by
    intro j
    rw [he]
    exact activate_calmer hrun j
  have hcol := hmiss.of_calmer (hact p) (hact z)
  refine hm p hp z hz ⟨hmiss.of_calmer (schedule_calmer h env p) (schedule_calmer h env z), ?_⟩
  -- a zombie that is still there after the collection and marked is the current task
  intro hmark
  rw [← (beforeCollect_current s env).1]
  refine collect_marked hz hcol.2.1 ?_
  obtain ⟨hzb, hrb⟩ := (collect_calmer (s.beforeCollect env) z).zombie hcol.2.1
  rw [hrb, ((beforeCollect_calmer s env z).zombie hzb).2]
  exact hmark

theorem MissesNone.unmarked (h : MissesNone s) :
    ∀ p < maxTasks, ∀ z < maxTasks, ¬ MissesUnmarked s p z :=
  fun p hp z hz hm => h p hp z hz hm.1

/-! ## Exit -/

/-- The exit of the task in slot `c` hands a zombie to an `init` that sleeps in
`waitpid`, waits for it, and is not woken by this exit. A zombie that is already marked
for collection does not count: the exit's schedule releases it. -/
def HandsZombie (s : ProcState) (c : Nat) : Prop :=
  ∃ i ∈ s.init, i ≠ c ∧ Waiting (s.tasks i) ∧
    waitMatches (s.tasks i) (s.tasks c) (s.tasks i).waitTargetPid = false ∧
    ∃ z < maxTasks, (s.tasks z).state = .zombie ∧ (s.tasks z).reapReady = false ∧
      (s.tasks z).parentPid = (s.tasks c).pid ∧
      waitMatches (s.tasks i) { s.tasks z with parentPid := (s.tasks i).pid }
        (s.tasks i).waitTargetPid = true

theorem exiting_live {j : Nat} (hc : Live s c) (status : Int) :
    (Live (s.exiting c status) j ↔ Live s j) ∧
      ((s.exiting c status).tasks j).pid = (s.tasks j).pid := by
  by_cases hj : j = c
  · subst hj
    obtain ⟨hz, hp, -⟩ := exiting_self s j status
    exact ⟨⟨fun _ => hc, fun _ => ⟨hc.1, by rw [hz]; simp⟩⟩, hp⟩
  · have hkeep := reparent_keeps (s.tasks c).pid (s.adopter c) (s.tasks j)
    unfold Live
    rw [exiting_ne hj, hkeep.2.1, hkeep.1]
    exact ⟨Iff.rfl, rfl⟩

theorem exiting_pids (h : Pids s) (hc : Live s c) (status : Int) : Pids (s.exiting c status) :=
  h.of_live (fun _ hj => (exiting_live hc status).imp_left fun hl => hl.mp hj) fun _ => id

/-- `reparent` does not wake or put to sleep. -/
theorem reparent_waiting {pid newPid : Nat} {t : Task} :
    (Waiting (reparent pid newPid t) ↔ Waiting t) ∧
      (reparent pid newPid t).waitTargetPid = t.waitTargetPid := by
  rcases reparent_cases pid newPid t with he | ⟨-, he⟩ <;> rw [he]
  · exact ⟨Iff.rfl, rfl⟩
  · exact ⟨Iff.rfl, rfl⟩

/-- The slot whose pid adopts the children is that of a living `init`. -/
theorem adopter_pos (h : s.adopter c ≠ 0) :
    ∃ i, s.init = some i ∧ i ≠ c ∧ (s.tasks i).state ≠ .unused ∧ s.adopter c = (s.tasks i).pid := by
  unfold adopter at h ⊢
  cases hi : s.init with
  | none =>
    rw [hi] at h
    exact absurd rfl h
  | some i =>
    rw [hi] at h
    dsimp only at h ⊢
    split at h
    next hc => exact ⟨i, rfl, hc.1, hc.2.1, by rw [if_pos hc]⟩
    · exact absurd rfl h

/-- A zombie that is missed after the children have changed their parent is the exiting
task itself or was handed to a waiting `init` just now. -/
theorem exiting_misses (h : MissesNone s) (hpids : Pids s)
    (hp : p < maxTasks) (hz : z < maxTasks) {status : Int} (hne : z ≠ c)
    (hm : MissesUnmarked (s.exiting c status) p z) (hcur : s.current = some c) :
    p ≠ c ∧ s.init = some p ∧ Waiting (s.tasks p) ∧ (s.tasks z).state = .zombie ∧
      (s.tasks z).reapReady = false ∧ (s.tasks z).parentPid = (s.tasks c).pid ∧
      waitMatches (s.tasks p) { s.tasks z with parentPid := (s.tasks p).pid }
        (s.tasks p).waitTargetPid = true := by
  obtain ⟨⟨hw, hzom, hmatch⟩, hmark⟩ := hm
  have hpc : p ≠ c := by
    intro he
    rw [he] at hw
    exact absurd (hw.1.symm.trans (exiting_self s c status).1) (by simp)
  rw [exiting_ne hpc] at hw hmatch
  rw [exiting_ne hne] at hzom hmatch hmark
  have hwp := reparent_waiting.1.mp hw
  rw [waitMatches_iff, reparent_waiting.2, (reparent_keeps _ _ (s.tasks p)).1] at hmatch
  rw [(reparent_keeps _ _ (s.tasks z)).2.1] at hzom
  rcases reparent_cases (s.tasks c).pid (s.adopter c) (s.tasks z) with he | ⟨hpar, he⟩ <;>
    rw [he] at hmatch hmark
  · exact absurd ⟨hwp, hzom, waitMatches_iff.mpr hmatch⟩ (h p hp z hz)
  obtain ⟨hu, hadopt, hpid⟩ := hmatch
  have hadopt : s.adopter c = (s.tasks p).pid := hadopt
  have hpos := hpids.pos p (hwp.live hp)
  obtain ⟨i, hi, -, hiu, hia⟩ := adopter_pos (s := s) (c := c) (by omega)
  have hip : i = p := hpids.inj i p ⟨hpids.init_lt i hi, hiu⟩ (hwp.live hp) (hia.symm.trans hadopt)
  have hunmarked : (s.tasks z).reapReady = false := by
    rw [if_neg (by omega)] at hmark
    by_contra hr
    have hcz := hmark (by simpa using hr)
    rw [show (s.exiting c status).current = s.current from rfl, hcur, Option.some.injEq] at hcz
    exact hne hcz.symm
  exact ⟨hpc, hip ▸ hi, hwp, hzom, hunmarked, hpar, waitMatches_iff.mpr ⟨hu, rfl, hpid⟩⟩

theorem Pids.findByPid (h : Pids s) (hp : Live s p) : s.findByPid (s.tasks p).pid = some p := by
  have hpos := h.pos p hp
  cases hf : s.findByPid (s.tasks p).pid with
  | some q =>
    obtain ⟨hq, he⟩ := findByPid_some hf
    rw [h.inj q p hq hp he]
  | none =>
    unfold ProcState.findByPid at hf
    rw [if_neg (by omega)] at hf
    have hno := List.find?_eq_none.mp hf p (List.mem_range.mpr hp.1)
    simp [hp.2] at hno

/-- A parent that waits for the exiting task is woken. -/
theorem notify_wakes (h : Pids s) (hp : p < maxTasks) (hz : (s.tasks c).state = .zombie)
    (hm : Misses s p c) (copied : Bool) : ¬ Waiting ((s.notifyParentExit c copied).tasks p) := by
  obtain ⟨hw, -, hmatch⟩ := hm
  obtain ⟨-, hpar, -⟩ := waitMatches_iff.mp hmatch
  have hpos := h.pos p (hw.live hp)
  have hpc : c ≠ p := by
    intro he
    rw [he, hw.1] at hz
    simp at hz
  unfold notifyParentExit
  rw [if_neg (by omega), hpar, h.findByPid (hw.live hp)]
  dsimp only
  rw [if_neg (by rw [hw.1, hw.2, hmatch]; simp)]
  obtain ⟨eax, he⟩ := finishBlockedWait_tasks hw.1 hpc copied p
  rw [he, if_neg (fun h => hpc h.symm), if_pos rfl]
  exact fun hw' => absurd hw'.1 (by simp)

/-- Telling the parent changes the parent, which wakes up, and the child, which may be
marked or lose its parent. -/
structure Notified (s s' : ProcState) (c : Nat) : Prop where
  current : s'.current = s.current
  init : s'.init = s.init
  others : ∀ j, j ≠ c → Calmer (s.tasks j) (s'.tasks j)
  zombie : (s'.tasks c).state = .zombie
  pid : (s'.tasks c).pid = (s.tasks c).pid
  parent : (s'.tasks c).parentPid = (s.tasks c).parentPid ∨ (s'.tasks c).parentPid = 0

theorem notifyParentExit_notified (hz : (s.tasks c).state = .zombie) (copied : Bool) :
    Notified s (s.notifyParentExit c copied) c := by
  have htold := notifyParentExit_told s c copied
  generalize s.notifyParentExit c copied = s' at htold ⊢
  cases htold with
  | orphan =>
    refine ⟨rfl, rfl, fun j hj => ?_, ?_, ?_, ?_⟩
    · rw [setTask_ne _ _ hj]
      exact Calmer.refl _
    · rw [setTask_self]
      exact hz
    · rw [setTask_self]
    · rw [setTask_self]
      exact Or.inr rfl
  | unheard => exact ⟨rfl, rfl, fun j _ => Calmer.refl _, hz, rfl, Or.inl rfl⟩
  | @woken p hp hb =>
    have hpc : c ≠ p := by
      intro he
      rw [he, hb.1] at hz
      simp at hz
    have htasks := finishBlockedWait_tasks hb.1 hpc copied
    obtain ⟨eax, hself⟩ := htasks c
    rw [if_pos rfl] at hself
    have hinit : (s.finishBlockedWait p c copied).init = s.init := by
      unfold finishBlockedWait
      cases (s.tasks p).waitStatusUser == 0 || copied <;> rfl
    refine ⟨(finishBlockedWait_current s p c copied).1, hinit, fun j hj => ?_, ?_, ?_, ?_⟩
    · obtain ⟨eax, he⟩ := htasks j
      rw [he, if_neg hj]
      split
      next hjp =>
        rw [hjp]
        exact Calmer.awake (by rw [hb.1]; simp) rfl rfl (by simp) (by simp)
      · exact Calmer.refl _
    · rw [hself]
      exact hz
    · rw [hself]
    · rw [hself]
      exact Or.inl rfl

theorem Notified.pids (h : Notified s s' c) (hp : Pids s) (hc : Live s c) : Pids s' := by
  refine hp.of_live (fun j hj => ?_) fun i hi => h.init.symm.trans hi
  by_cases hjc : j = c
  · rw [hjc]
    exact ⟨hc, h.pid⟩
  · obtain ⟨hu, hp, -⟩ := (h.others j hjc).same hj.2
    exact ⟨⟨hj.1, hu⟩, hp⟩

/-- **Every wakeup that an exit owes is made**, unless it hands a zombie to a waiting
`init`. -/
theorem sysExit_unmissed (h : MissesNone s) (hpids : Pids s) (hc : Live s c)
    (hcur : s.current = some c) (hsafe : ¬ HandsZombie s c) (status : Int) (copied : Bool) :
    ∀ p < maxTasks, ∀ z < maxTasks,
      ¬ MissesUnmarked ((s.exiting c status).notifyParentExit c copied) p z := by
  intro p hp z hz hm
  obtain ⟨hxz, hxp, -, hxpar⟩ := exiting_self s c status
  have hx := exiting_pids hpids hc status
  obtain ⟨hycur, -, hother, hyz, hyp, hypar⟩ := notifyParentExit_notified hxz copied
  obtain ⟨hmiss, hmark⟩ := hm
  have hpc : p ≠ c := by
    intro he
    rw [he] at hmiss
    exact absurd (hmiss.1.1.symm.trans hyz) (by simp)
  by_cases hzc : z = c
  · -- the exiting task: its parent waits for it and is woken
    subst hzc
    obtain ⟨hw, -, hmatch⟩ := hmiss
    obtain ⟨hwx, ht⟩ := (hother p hpc).waiting hw
    obtain ⟨-, hpar, hpid⟩ := waitMatches_iff.mp hmatch
    have hpp := ((hother p hpc).same (by rw [hw.1]; simp)).2.1
    have hpos := hx.pos p (hwx.live hp)
    refine notify_wakes hx hp hxz ⟨hwx, hxz, waitMatches_iff.mpr ⟨by rw [hxz]; simp, ?_, ?_⟩⟩
      copied hw
    · rcases hypar with he | he
      · rw [← he, hpar, hpp]
      · omega
    · rw [← ht, ← hyp]
      exact hpid
  -- another zombie: it came to a waiting `init`, which the exiting task then wakes
  have hmx : MissesUnmarked (s.exiting c status) p z := by
    refine ⟨hmiss.of_calmer (hother p hpc) (hother z hzc), ?_⟩
    rw [hycur, ((hother z hzc).zombie hmiss.2.1).2] at hmark
    exact hmark
  obtain ⟨-, hinit, hw, hzom, hun, hpar, hmatch⟩ :=
    exiting_misses h hpids hp hz hzc hmx hcur
  have hcm : waitMatches (s.tasks p) (s.tasks c) (s.tasks p).waitTargetPid = true := by
    by_contra hno
    exact hsafe ⟨p, hinit, hpc, hw, by simpa using hno, z, hz, hzom, hun, hpar, hmatch⟩
  obtain ⟨-, hcpar, hcpid⟩ := waitMatches_iff.mp hcm
  have hnot : (s.tasks c).parentPid ≠ (s.tasks c).pid := by
    rw [hcpar]
    exact fun he => hpc (hpids.inj p c (hw.live hp) hc he)
  refine notify_wakes hx hp hxz ⟨hmx.1.1, hxz, waitMatches_iff.mpr ⟨by rw [hxz]; simp, ?_, ?_⟩⟩
    copied hmiss.1
  · rw [hxpar, (exiting_live hc status).2]
    rcases reparent_cases (s.tasks c).pid (s.adopter c) (s.tasks c) with he | ⟨hself, -⟩
    · rw [he, hcpar]
    · exact absurd hself hnot
  · rw [hxp, exiting_ne hpc, reparent_waiting.2]
    exact hcpid

/-! ## Runs -/

/-- The state between two events of a run that misses no zombie. -/
structure Attentive (s : ProcState) : Prop where
  sched : Scheduled s
  pids : Pids s
  none : MissesNone s

/-- A change of the table that calls for no wakeup. -/
theorem Attentive.of_calmer (h : Attentive s) (hs : Scheduled s')
    (ht : ∀ j, Calmer (s.tasks j) (s'.tasks j)) (hi : ∀ i, s'.init = some i → s.init = some i) :
    Attentive s' :=
  ⟨hs, h.pids.of_calmer ht hi, h.none.of_calmer ht⟩

theorem Attentive.schedule (hs : Settled s) (hp : Pids s)
    (hm : ∀ p < maxTasks, ∀ z < maxTasks, ¬ MissesUnmarked s p z) (env : Env) :
    Attentive (s.schedule env) :=
  ⟨hs.schedule env, schedule_pids hs hp env, schedule_missesNone hs hm env⟩

/-- The pid that a fork gives to the child is not in use. -/
def FreshPid (s : ProcState) : Prop :=
  s.nextPid ≠ 0 ∧ ∀ i < maxTasks, (s.tasks i).state ≠ .unused → (s.tasks i).pid ≠ s.nextPid

instance (s : ProcState) : Decidable (FreshPid s) := inferInstanceAs (Decidable (_ ∧ _))

/-- A new task with a pid of its own. -/
theorem Attentive.addTask (h : Attentive s) (hs : Scheduled s') (hfresh : FreshPid s)
    (hpid : (s'.tasks i).pid = s.nextPid) (hst : (s'.tasks i).state = .runnable)
    (hother : ∀ j, j ≠ i → Calmer (s.tasks j) (s'.tasks j)) (hinit : s'.init = s.init) :
    Attentive s' := by
  have hold : ∀ j, Live s' j → j ≠ i → Live s j ∧ (s'.tasks j).pid = (s.tasks j).pid := by
    intro j hj hji
    obtain ⟨hu, hp, -⟩ := (hother j hji).same hj.2
    exact ⟨⟨hj.1, hu⟩, hp⟩
  have hnew : ∀ j, Live s' j → j ≠ i → (s'.tasks j).pid ≠ (s'.tasks i).pid := by
    intro j hj hji
    rw [(hold j hj hji).2, hpid]
    exact hfresh.2 j hj.1 (hold j hj hji).1.2
  refine ⟨hs, ⟨?_, ?_, ?_⟩, ?_⟩
  · intro j hj
    by_cases hji : j = i
    · rw [hji, hpid]
      exact Nat.pos_of_ne_zero hfresh.1
    · rw [(hold j hj hji).2]
      exact h.pids.pos j (hold j hj hji).1
  · intro j k hj hk he
    by_cases hji : j = i
    · by_cases hki : k = i
      · rw [hji, hki]
      · exact absurd (hji ▸ he).symm (hnew k hk hki)
    · by_cases hki : k = i
      · exact absurd (hki ▸ he) (hnew j hj hji)
      · rw [(hold j hj hji).2, (hold k hk hki).2] at he
        exact h.pids.inj j k (hold j hj hji).1 (hold k hk hki).1 he
  · rw [hinit]
    exact h.pids.init_lt
  · intro p hp z hz hm
    have hpi : p ≠ i := by
      intro he
      rw [he] at hm
      exact absurd (hm.1.1.symm.trans hst) (by simp)
    have hzi : z ≠ i := by
      intro he
      rw [he] at hm
      exact absurd (hm.2.1.symm.trans hst) (by simp)
    exact h.none p hp z hz (hm.of_calmer (hother p hpi) (hother z hzi))

theorem answer_calmer (s : ProcState) (c : Nat) (result : Int) (j : Nat) :
    Calmer (s.tasks j) ((s.answer c result).tasks j) := by
  refine calmer_setTask (t := { s.tasks c with savedEax := result }) ?_ j
  exact ⟨fun hu => ⟨hu, rfl, rfl⟩, fun hw => ⟨hw, rfl⟩, fun hz => ⟨hz, rfl⟩⟩

theorem findZombieChild_none {parent : Task} {target : Int}
    (h : s.findZombieChild parent target = none) (hz : z < maxTasks)
    (hzom : (s.tasks z).state = .zombie) : waitMatches parent (s.tasks z) target = false := by
  have hno := List.find?_eq_none.mp h z (List.mem_range.mpr hz)
  simpa [hzom] using hno

/-- A task falls asleep in `waitpid` only after it found no zombie to wait for. -/
theorem waits_missesNone {pid : Int} {t : Task} (h : MissesNone s)
    (hnone : s.findZombieChild (s.tasks c) pid = none) (hp : t.pid = (s.tasks c).pid)
    (ht : t.waitTargetPid = pid) (hst : t.state = .blocked) : MissesNone (s.setTask c t) := by
  intro p hp' z hz ⟨hw, hzom, hmatch⟩
  have hzc : z ≠ c := by
    intro he
    rw [he, setTask_self, hst] at hzom
    simp at hzom
  rw [setTask_ne s _ hzc] at hzom hmatch
  by_cases hpc : p = c
  · rw [hpc, setTask_self, ht, waitMatches_iff, hp] at hmatch
    have hno := findZombieChild_none hnone hz hzom
    rw [← Bool.not_eq_true, waitMatches_iff] at hno
    exact hno hmatch
  · rw [setTask_ne s _ hpc] at hw hmatch
    exact h p hp' z hz ⟨hw, hzom, hmatch⟩

/-- What is excluded from a run: a fork that gives the child a pid in use (the counter
has wrapped around), and an exit that hands a zombie to a waiting `init`. -/
def WakeSafe (s : ProcState) : Event → Prop
  | .fork resources => resources = true → s.findUnused ≠ none → FreshPid s
  | .exit _ _ _ => ∀ c ∈ s.current, ¬ HandsZombie s c
  | _ => True

theorem step_attentive (s : ProcState) (e : Event) (h : Attentive s) (hs : WakeSafe s e) :
    Attentive (s.step e) := by
  obtain ⟨c, -, hcur, hrun⟩ := h.sched.current
  have hl := h.sched.current.live hcur
  have hsched := step_scheduled s e h.sched
  rcases step_turn hcur e with hstep | ⟨he, r, hent, ht, hstep⟩ <;> rw [hstep] at hsched ⊢
  · exact h
  cases ht with
  | yields env => exact Attentive.schedule h.sched.toSettled h.pids h.none.unmarked env
  | answers result => exact h.of_calmer hsched (answer_calmer s c result) fun _ => id
  | @forks i hi =>
    obtain ⟨-, hiu⟩ := findUnused_some hi
    have hic : i ≠ c := by
      intro he
      rw [he] at hiu
      exact hl.2 hiu
    refine h.addTask (i := i) hsched (hs rfl (by rw [hi]; simp)) ?_ ?_ (fun j hj => ?_) rfl
    · exact congrArg Task.pid ((setTask_ne _ _ hic).trans (setTask_self s i _))
    · exact congrArg Task.state ((setTask_ne _ _ hic).trans (setTask_self s i _))
    · refine Calmer.trans ?_ (answer_calmer _ c _ j)
      show Calmer _ ((s.setTask i _).tasks j)
      rw [setTask_ne _ _ hj]
      exact Calmer.refl _
  | @collects _ _ i =>
    refine h.of_calmer hsched (fun j => ?_) fun k hinit => ?_
    · exact (answer_calmer s c _ j).trans (calmer_setTask (s := s.answer c _) (Calmer.reset _) j)
    · have hinit : (if s.init = some i then none else s.init) = some k := hinit
      split at hinit
      · simp at hinit
      · exact hinit
  | waits hnone =>
    refine Attentive.schedule (s := s.setTask c _) (enter_settled h.sched hcur he hent)
      (h.pids.of_live ?_ fun _ => id) (MissesNone.unmarked ?_) _
    · exact forall_setTask (P := fun j t => j < maxTasks ∧ t.state ≠ .unused →
        Live s j ∧ t.pid = (s.tasks j).pid) (fun _ => ⟨hl, rfl⟩) (fun _ _ hj => ⟨hj, rfl⟩)
    · refine waits_missesNone h.none hnone ?_ ?_ ?_ <;> rfl
  | @suspends _ t _ ht hr =>
    have hcalm : ∀ j, Calmer (s.tasks j) ((s.setTask c t).tasks j) := by
      refine calmer_setTask ⟨fun _ => ⟨hl.2, ht.pid, ht.parentPid⟩, fun hw => ?_, fun hz => ?_⟩
      · rcases ht.state with hst | hst | ⟨-, hreason⟩
        · exact absurd (hst.symm.trans hw.1) (by rw [hrun]; simp)
        · exact absurd (hst.symm.trans hw.1) (by simp)
        · exact absurd (hreason.symm.trans hw.2) hr
      · rcases ht.state with hst | hst | ⟨hst, -⟩
        · exact absurd (hst.symm.trans hz) (by rw [hrun]; simp)
        · exact absurd (hst.symm.trans hz) (by simp)
        · exact absurd (hst.symm.trans hz) (by simp)
    exact Attentive.schedule (enter_settled h.sched hcur he hent)
      (h.pids.of_calmer hcalm fun _ => id) (h.none.of_calmer hcalm).unmarked _
  | @exits status copied env =>
    have hnotified := notifyParentExit_notified (exiting_self s c status).1 copied
    exact Attentive.schedule (enter_settled h.sched hcur he hent)
      (hnotified.pids (exiting_pids h.pids hl status) ((exiting_live hl status).1.mpr hl))
      (sysExit_unmissed h.none h.pids hl hcur (hs c hcur) status copied) _

theorem Booted.attentive (h : Booted s) (hinit : ∀ i ∈ s.init, i < maxTasks)
    (honly : OnlyCurrent s) : Attentive s := by
  refine ⟨⟨⟨h.idle, honly⟩, h.current⟩, ⟨?_, ?_, hinit⟩, ?_⟩
  · exact fun i hi => (h.pid i hi.1 hi.2).1
  · exact fun i j hi hj => h.pid_inj i hi.1 j hj.1 hi.2 hj.2
  · exact fun p _ z hz hm => h.no_zombie z hz hm.2.1

/-- **No sleeping parent misses a zombie**, in every state of every run from a boot state
in which pids stay distinct and no zombie is handed to an `init` that waits for one. -/
theorem guarded_run_misses_none {s₀ : ProcState} (h : Booted s₀)
    (hinit : ∀ i ∈ s₀.init, i < maxTasks) (honly : OnlyCurrent s₀) {es : List Event}
    (hes : Guarded step WakeSafe s₀ es) : MissesNone (run step s₀ es) :=
  (guarded_invariant step_attentive es (h.attentive hinit honly) hes).none

/-- `init` forks a child, waits for it and is woken by its exit. -/
theorem guarded_run_misses_none_boot :
    MissesNone (run step bootState [.fork true, .waitpid (-1) 0 true true quiet,
      .exit 7 true quiet]) := by
  refine guarded_run_misses_none bootState_booted (by decide) (by decide) ⟨?_, trivial, ?_, trivial⟩
  · exact fun _ _ => by decide
  · intro c hc
    obtain rfl : 2 = c := Option.some.inj hc
    exact fun ⟨i, hi, h⟩ => by
      obtain rfl : 1 = i := Option.some.inj hi
      exact absurd h (by decide)

/-- `init` forks A, A forks B and B forks C. C exits, `init` waits for any child, and B
exits: C is now a zombie child of `init`, which sleeps on. -/
theorem init_misses_adopted_zombie :
    ¬ MissesNone (run step bootState [.fork true, .schedule quiet, .fork true, .schedule quiet,
      .fork true, .schedule quiet, .exit 0 true quiet, .waitpid (-1) 0 true true quiet,
      .schedule quiet, .exit 0 true quiet]) := by
  decide

end Riverix.Proc
