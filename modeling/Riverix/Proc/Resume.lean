import Riverix.Proc.Stacks

/-!
# Who is resumed, and on which stack

Between two traps every task has a kernel stack of its own, and a task that waits for its
turn has its frame there, where `saved_esp` says (`Stacked`). A trap keeps that: the frame
that it pushes lies on the stack of the running task, and nothing in the kernel touches
the stack of another one, unless that is a zombie.

**`run_schedules_safely`** follows the machine from its start through any traps.
-/

namespace Riverix.Proc

open ProcState Lib

namespace Machine

variable {m m' : Machine} {c i j k frame depth : Nat} {e : Event} {env : Env}

/-! ## The task table of the machine -/

theorem collect_proc (m : Machine) :
    m.collectReapableZombies.proc = m.proc.collectReapableZombies := by
  unfold collectReapableZombies ProcState.collectReapableZombies
  induction List.range maxTasks generalizing m with
  | nil => rfl
  | cons i is ih =>
    rw [List.foldl_cons, List.foldl_cons, ih]
    refine congrArg (List.foldl ProcState.collectSlot · is) ?_
    unfold collectSlot ProcState.collectSlot
    split <;> rfl

theorem beforePick_proc (m : Machine) (frame : Nat) (env : Env) :
    (m.beforePick frame env).proc = (m.proc.beforeCollect env).collectReapableZombies := by
  unfold beforePick
  rw [collect_proc]
  split <;> rfl

theorem sysFork_proc (m : Machine) (c : Nat) (resources : Bool) :
    ∃ r, (m.sysFork c resources).proc = m.proc.sysFork c r := by
  unfold sysFork
  split
  · split
    · exact ⟨false, rfl⟩
    · exact ⟨true, rfl⟩
  · exact ⟨false, rfl⟩

/-! ## Stacks and frames -/

/-- A frame at this address lies on the stack of slot `k`. -/
structure OnStack (k esp : Nat) : Prop where
  slot : k < kstackSlotCount
  above : stackBase k ≤ esp
  below : esp + frameBytes ≤ stackTop k

theorem OnStack.slotOf (h : OnStack k frame) : slotOf frame = k := by
  obtain ⟨hk, ha, hb⟩ := h
  unfold stackTop at hb
  unfold stackBase at ha hb
  unfold kstackSlotCount at hk
  unfold kstackBase kstackSlotSize at ha hb
  unfold frameBytes at hb
  have hregion : frame / 0x4000000 = 63 := by omega
  unfold Proc.slotOf kstackSlotSize
  omega

theorem onStack_top {bytes : Nat} (hk : k < kstackSlotCount) (hlow : frameBytes ≤ bytes)
    (hhigh : bytes ≤ 0x2000) : OnStack k (stackTop k - bytes) := by
  refine ⟨hk, ?_, ?_⟩ <;> unfold stackTop <;> omega

/-- The stack of task `i` is allocated and holds a frame at this address. -/
structure Framed (m : Machine) (i esp : Nat) : Prop where
  stack : ∃ k, m.kstack i = some k ∧ m.stackSlots k = true ∧ m.frames k = some esp ∧ OnStack k esp

/-- The task waits for its turn. -/
def Waits (state : TaskState) : Prop := state = .runnable ∨ state = .blocked ∨ state = .sleeping

/-- Every task has a stack of its own. -/
structure Owned (m : Machine) : Prop where
  stack : ∀ i, Live m.proc i → ∃ k < kstackSlotCount, m.kstack i = some k ∧ m.stackSlots k = true
  own : ∀ i j k, Live m.proc i → Live m.proc j → m.kstack i = some k → m.kstack j = some k → i = j

/-- Every task that waits has its frame where `saved_esp` says. -/
structure Stacked (m : Machine) : Prop extends Owned m where
  frame : ∀ i, Live m.proc i → Waits (m.proc.tasks i).state → Framed m i (m.savedEsp i)

/-- The running task `c` has been interrupted with `frame`. -/
structure Interrupted (m : Machine) (c frame : Nat) : Prop extends Owned m where
  others : ∀ i, i ≠ c → Live m.proc i → Waits (m.proc.tasks i).state → Framed m i (m.savedEsp i)
  self : Framed m c frame

/-- A change of the stacks that task `i` does not notice. -/
theorem Framed.congr {esp : Nat} (h : Framed m i esp) (hk : m'.kstack i = m.kstack i)
    (hs : ∀ k, m.kstack i = some k → m'.stackSlots k = m.stackSlots k ∧ m'.frames k = m.frames k) :
    Framed m' i esp := by
  obtain ⟨k, hik, hused, hf, hon⟩ := h.stack
  obtain ⟨hs', hf'⟩ := hs k hik
  exact ⟨k, hk.trans hik, hs'.trans hused, hf'.trans hf, hon⟩

/-- Only the task table changed, and no new task is in it. -/
theorem Owned.proc (h : Owned m) {p : ProcState} (hl : ∀ i, Live p i → Live m.proc i) :
    Owned { m with proc := p } :=
  ⟨fun i hi => h.stack i (hl i hi), fun i j k hi hj => h.own i j k (hl i hi) (hl j hj)⟩

theorem Interrupted.proc (h : Interrupted m c frame) {p : ProcState}
    (hl : ∀ i, Live p i → Live m.proc i)
    (hw : ∀ i, i ≠ c → Waits (p.tasks i).state → Waits (m.proc.tasks i).state) :
    Interrupted { m with proc := p } c frame where
  toOwned := h.toOwned.proc hl
  others i hi hlive hwaits := (h.others i hi (hl i hlive) (hw i hi hwaits)).congr rfl
    fun _ _ => ⟨rfl, rfl⟩
  self := h.self.congr rfl fun _ _ => ⟨rfl, rfl⟩

/-- The stack of `i` is freed, which is a task no longer. -/
theorem freeStack_other (h : Owned m) (hi : Live m.proc i) (hj : Live m.proc j) (hij : j ≠ i) :
    (m.freeStack i).kstack j = m.kstack j ∧ (m.freeStack i).savedEsp j = m.savedEsp j ∧
      ∀ k, m.kstack j = some k →
        (m.freeStack i).stackSlots k = m.stackSlots k ∧ (m.freeStack i).frames k = m.frames k := by
  unfold freeStack
  split
  · exact ⟨rfl, Function.update_of_ne hij _ _, fun _ _ => ⟨rfl, rfl⟩⟩
  next k hk =>
  refine ⟨Function.update_of_ne hij _ _, Function.update_of_ne hij _ _, fun k' hk' => ?_⟩
  have hne : k' ≠ k := by
    intro he
    rw [he] at hk'
    exact hij (h.own j i k hj hi hk' hk)
  exact ⟨Function.update_of_ne hne _ _, Function.update_of_ne hne _ _⟩

theorem Owned.free (h : Owned m) (hi : Live m.proc i) {p : ProcState}
    (hl : ∀ j, Live p j → Live m.proc j ∧ j ≠ i) : Owned { m.freeStack i with proc := p } := by
  refine ⟨fun j hj => ?_, fun j j' k hj hj' hk hk' => ?_⟩
  · obtain ⟨hlive, hne⟩ := hl j hj
    obtain ⟨hk, -, hs⟩ := freeStack_other h hi hlive hne
    obtain ⟨k, hlt, hjk, hused⟩ := h.stack j hlive
    exact ⟨k, hlt, hk.trans hjk, (hs k hjk).1.trans hused⟩
  · obtain ⟨hlive, hne⟩ := hl j hj
    obtain ⟨hlive', hne'⟩ := hl j' hj'
    exact h.own j j' k hlive hlive' ((freeStack_other h hi hlive hne).1.symm.trans hk)
      ((freeStack_other h hi hlive' hne').1.symm.trans hk')

theorem Framed.free {esp : Nat} (hf : Framed m j esp) (h : Owned m) (hi : Live m.proc i)
    (hj : Live m.proc j) (hij : j ≠ i) (p : ProcState) :
    Framed { m.freeStack i with proc := p } j esp := by
  obtain ⟨hk, -, hs⟩ := freeStack_other h hi hj hij
  exact hf.congr hk hs

/-! ## The collector -/

theorem Stacked.collectSlot (h : Stacked m) (i : Nat) (hi : i < maxTasks) :
    Stacked (m.collectSlot i) := by
  unfold Machine.collectSlot
  split
  · exact h
  next hz =>
  simp only [not_or, not_not] at hz
  have hlive : Live m.proc i := ⟨hi, by rw [hz.2.1]; simp⟩
  have hl : ∀ j, Live (m.proc.releaseResources i) j → Live m.proc j ∧ j ≠ i := by
    intro j hj
    refine ⟨(live_releaseResources hj).1, ?_⟩
    intro hji
    rw [hji] at hj
    exact hj.2 (congrArg Task.state (setTask_self m.proc i Task.reset))
  refine ⟨h.toOwned.free hlive hl, fun j hj hw => ?_⟩
  obtain ⟨hjlive, hji⟩ := hl j hj
  have htask : (m.proc.releaseResources i).tasks j = m.proc.tasks j := (live_releaseResources hj).2
  have hesp := (freeStack_other h.toOwned hlive hjlive hji).2.1
  show Framed _ j ((m.freeStack i).savedEsp j)
  rw [hesp]
  refine (h.frame j hjlive ?_).free h.toOwned hlive hjlive hji _
  rw [← htask]
  exact hw

theorem Stacked.collect (h : Stacked m) : Stacked m.collectReapableZombies := by
  unfold collectReapableZombies
  have hall : ∀ i ∈ List.range maxTasks, i < maxTasks := fun i hi => List.mem_range.mp hi
  revert hall h
  induction List.range maxTasks generalizing m with
  | nil => exact fun h _ => h
  | cons i is ih =>
    intro h hall
    rw [List.foldl_cons]
    exact ih (h.collectSlot i (hall i (List.mem_cons_self ..)))
      (fun j hj => hall j (List.mem_cons_of_mem _ hj))

/-! ## The scheduler -/

/-- What wakes tasks finds them waiting. -/
theorem beforeCollect_waits {s : ProcState} (hw : Waits ((s.beforeCollect env).tasks i).state) :
    (s.current = some i ∧ (s.tasks i).state = .running) ∨ Waits (s.tasks i).state := by
  rw [beforeCollect_tasks] at hw
  by_cases hrun : s.current = some i ∧ (s.tasks i).state = .running
  · exact Or.inl hrun
  rw [if_neg hrun] at hw
  refine Or.inr ?_
  cases hst : (s.tasks i).state with
  | runnable => exact Or.inl rfl
  | blocked => exact Or.inr (Or.inl rfl)
  | sleeping => exact Or.inr (Or.inr rfl)
  | _ =>
    have hsleep : wakeSleeper env.ticks (s.tasks i) = s.tasks i := by
      unfold wakeSleeper
      rw [if_neg (by rw [hst]; simp)]
    have hserve : serviceBlocked (env.completes i) (s.tasks i) = s.tasks i := by
      unfold serviceBlocked
      rw [if_neg (by rw [hst]; simp)]
    rw [hsleep, hserve, hst] at hw
    exact absurd hw (by simp [Waits])

theorem beforeCollect_live {s : ProcState} (h : Live (s.beforeCollect env) i) : Live s i := by
  refine ⟨h.1, fun hst => h.2 ?_⟩
  rw [beforeCollect_tasks, if_neg (by rw [hst]; simp)]
  unfold wakeSleeper
  rw [if_neg (by rw [hst]; simp)]
  unfold serviceBlocked
  rw [if_neg (by rw [hst]; simp)]
  exact hst

/-- When the next task is picked, every task that waits has its frame, the one that was
interrupted included. -/
theorem Interrupted.beforePick (h : Interrupted m c frame) (hcur : m.proc.current = some c)
    (env : Env) : Stacked (m.beforePick frame env) := by
  unfold Machine.beforePick
  rw [hcur]
  refine Stacked.collect ⟨⟨fun i hi => h.stack i (beforeCollect_live hi), fun i j k hi hj =>
    h.own i j k (beforeCollect_live hi) (beforeCollect_live hj)⟩, fun i hi hw => ?_⟩
  have hlive := beforeCollect_live hi
  by_cases hic : i = c
  · subst hic
    show Framed _ i (Function.update m.savedEsp i frame i)
    rw [Function.update_self]
    exact h.self.congr rfl fun _ _ => ⟨rfl, rfl⟩
  show Framed _ i (Function.update m.savedEsp c frame i)
  rw [Function.update_of_ne hic]
  rcases beforeCollect_waits hw with ⟨hcur', -⟩ | hw
  · exact absurd (Option.some.inj (hcur'.symm.trans hcur)) hic
  · exact (h.others i hic hlive hw).congr rfl fun _ _ => ⟨rfl, rfl⟩

end Machine

/-- What was selected was ready, with its frame on its own stack. -/
structure Selection.Sound (r : Selection) : Prop where
  runnable : r.state = .runnable
  frame : ∃ k, r.stack = some k ∧ r.used = true ∧ r.frame = some r.esp ∧ Machine.OnStack k r.esp

namespace Machine

variable {m m' : Machine} {c i j k frame depth : Nat} {e : Event} {env : Env}

/-- The state between two traps. -/
structure Ok (m : Machine) : Prop where
  sched : Scheduled m.proc
  stacked : Stacked m
  entry : ∀ c k, m.proc.current = some c → m.kstack c = some k → m.esp0 = stackTop k ∧
    m.cpuStack = k
  sound : ∀ r ∈ m.selections, r.Sound

theorem Framed.sound {esp : Nat} (h : Framed m i esp) (hesp : m.savedEsp i = esp)
    (hrun : (m.proc.tasks i).state = .runnable) : (m.selection i).Sound := by
  obtain ⟨k, hk, hused, hf, hon⟩ := h.stack
  refine ⟨hrun, k, hk, ?_, ?_, ?_⟩
  · show (m.kstack i).any m.stackSlots = true
    rw [hk]
    exact hused
  · show (m.kstack i).bind m.frames = some (m.savedEsp i)
    rw [hk, hesp]
    exact hf
  · show OnStack k (m.savedEsp i)
    rw [hesp]
    exact hon

/-- A task that has its frame is resumed on its own stack. -/
theorem Stacked.switchTo (h : Stacked m) (hs : Scheduled (m.proc.activateTask i))
    (hi : i < maxTasks) (hrun : (m.proc.tasks i).state = .runnable)
    (hsound : ∀ r ∈ m.selections, r.Sound) :
    Ok (m.switchTo i) := by
  have hlive : Live m.proc i := ⟨hi, by rw [hrun]; simp⟩
  have hframed := h.frame i hlive (Or.inl hrun)
  obtain ⟨k, hk, hused, hf, hon⟩ := hframed.stack
  have hslot := hon.slotOf
  have htask : ∀ j, j ≠ i → (m.proc.activateTask i).tasks j = m.proc.tasks j :=
    fun j hj => setTask_ne m.proc _ hj
  have hl : ∀ j, Live (m.proc.activateTask i) j → Live m.proc j := by
    intro j hj
    by_cases hji : j = i
    · rw [hji]
      exact hlive
    · refine ⟨hj.1, ?_⟩
      rw [← htask j hji]
      exact hj.2
  refine ⟨hs,
    ⟨⟨fun j hj => h.stack j (hl j hj), fun j j' k hj hj' => h.own j j' k (hl j hj) (hl j' hj')⟩,
    fun j hj hw => ?_⟩, fun c k' hc hk' => ?_, fun r hr => ?_⟩
  · -- the resumed task runs, so the waiting one is another
    have hji : j ≠ i := by
      intro he
      rw [he] at hw
      have hself : ((m.proc.activateTask i).tasks i).state = .running :=
        congrArg Task.state (setTask_self m.proc i _)
      have hw : Waits ((m.proc.activateTask i).tasks i).state := hw
      rw [hself] at hw
      exact absurd hw (by simp [Waits])
    have hw : Waits ((m.proc.activateTask i).tasks j).state := hw
    rw [htask j hji] at hw
    refine (h.frame j (hl j hj) hw).congr rfl fun k' hk' => ⟨rfl, ?_⟩
    have hne : k' ≠ slotOf (m.savedEsp i) := by
      rw [hslot]
      intro he
      rw [he] at hk'
      exact hji (h.own j i k (hl j hj) hlive hk' hk)
    exact Function.update_of_ne hne _ _
  · obtain rfl : i = c := Option.some.inj hc
    obtain rfl : k = k' := Option.some.inj (hk.symm.trans hk')
    refine ⟨?_, hslot⟩
    show m.taskStackTop i = stackTop k
    unfold taskStackTop
    rw [hk]
  · rcases List.mem_cons.mp hr with rfl | hr
    · exact hframed.sound rfl hrun
    · exact hsound r hr

theorem freeStack_selections (m : Machine) (i : Nat) :
    (m.freeStack i).selections = m.selections := by
  unfold freeStack
  split <;> rfl

theorem collect_selections (m : Machine) : m.collectReapableZombies.selections = m.selections := by
  unfold collectReapableZombies
  induction List.range maxTasks generalizing m with
  | nil => rfl
  | cons i is ih =>
    rw [List.foldl_cons, ih]
    unfold Machine.collectSlot
    split
    · rfl
    · exact freeStack_selections m i

/-- `proc_schedule` after a trap. -/
theorem Interrupted.schedule (h : Interrupted m c frame) (hcur : m.proc.current = some c)
    (hs : Settled m.proc) (hsound : ∀ r ∈ m.selections, r.Sound) (env : Env) :
    Ok (m.schedule frame env) := by
  have hstacked := h.beforePick hcur env
  have hproc := beforePick_proc m frame env
  obtain ⟨i, hi, hpick, hrun⟩ := pickNext_runnable (collect_idle (beforeCollect_idle hs.idle env))
  have hsel : (m.beforePick frame env).selections = m.selections := by
    unfold Machine.beforePick
    rw [collect_selections]
    split <;> rfl
  have hsched : Scheduled ((m.beforePick frame env).proc.activateTask i) := by
    have := hs.schedule env
    unfold ProcState.schedule at this
    simp only [hpick] at this
    rw [hproc]
    exact this
  unfold Machine.schedule
  dsimp only
  rw [hproc, hpick]
  refine hstacked.switchTo hsched hi ?_ ?_
  · rw [hproc]
    exact hrun
  · rw [hsel]
    exact hsound

/-! ## Traps -/

/-- The frame of a trap goes on the stack of the running task. -/
theorem Ok.pushFrame (h : Ok m) (hcur : m.proc.current = some c)
    (hf : m.entryFrame c depth = some frame) : Interrupted (m.pushFrame frame) c frame := by
  obtain ⟨hc, hrun⟩ := h.sched.running hcur
  have hlive : Live m.proc c := ⟨hc, by rw [hrun]; simp⟩
  obtain ⟨k, hlt, hk, hused⟩ := h.stacked.stack c hlive
  obtain ⟨hesp, hcpu⟩ := h.entry c k hcur hk
  have hon : OnStack k frame := by
    unfold entryFrame at hf
    split at hf
    · rw [← Option.some.inj hf, hesp]
      exact onStack_top hlt (by decide) (by decide)
    split at hf
    next hdepth =>
      rw [← Option.some.inj hf, hcpu, Nat.sub_sub]
      exact onStack_top hlt (by omega) hdepth
    · simp at hf
  have hslot := hon.slotOf
  refine ⟨⟨h.stacked.stack, h.stacked.own⟩, fun i hi hlive' hw => ?_, ⟨k, hk, hused, ?_, hon⟩⟩
  · refine (h.stacked.frame i hlive' hw).congr rfl fun k' hk' => ⟨rfl, ?_⟩
    have hne : k' ≠ slotOf frame := by
      rw [hslot]
      intro he
      rw [he] at hk'
      exact hi (h.stacked.own i c k hlive' hlive hk' hk)
    exact Function.update_of_ne hne _ _
  · show Function.update m.frames (slotOf frame) (some frame) k = some frame
    rw [hslot, Function.update_self]

/-- A call that returns at once resumes its own frame. -/
theorem Interrupted.resume (h : Interrupted m c frame) (hs : Scheduled m.proc)
    (hcur : m.proc.current = some c) (hesp : ∀ k, m.kstack c = some k → m.esp0 = stackTop k)
    (hsound : ∀ r ∈ m.selections, r.Sound) : Ok (m.resume frame) := by
  obtain ⟨hc, hrun⟩ := hs.running hcur
  have hlive : Live m.proc c := ⟨hc, by rw [hrun]; simp⟩
  obtain ⟨k, hk, hused, hf, hon⟩ := h.self.stack
  have hslot := hon.slotOf
  refine ⟨hs, ⟨⟨h.stack, h.own⟩, fun i hi hw => ?_⟩, fun c' k' hc' hk' => ?_, hsound⟩
  · have hic : i ≠ c := by
      intro he
      have hw : Waits (m.proc.tasks i).state := hw
      rw [he, hrun] at hw
      exact absurd hw (by simp [Waits])
    refine (h.others i hic hi hw).congr rfl fun k' hk' => ⟨rfl, ?_⟩
    have hne : k' ≠ slotOf frame := by
      rw [hslot]
      intro he
      rw [he] at hk'
      exact hic (h.own i c k hi hlive hk' hk)
    exact Function.update_of_ne hne _ _
  · obtain rfl : c = c' := Option.some.inj (hcur.symm.trans hc')
    obtain rfl : k = k' := Option.some.inj (hk.symm.trans hk')
    exact ⟨hesp k hk, hslot⟩

theorem live_of_kept {s s' : ProcState} (h : Kept (s.tasks i) (s'.tasks i)) (hl : Live s' i) :
    Live s i := ⟨hl.1, by rw [← h.state]; exact hl.2⟩

theorem sysFork_false (s : ProcState) (c : Nat) : s.sysFork c false = s.answer c (-1) := by
  unfold ProcState.sysFork
  split
  · rfl
  · rw [if_pos (Or.inr rfl)]
    rfl

/-- A fork leaves the slots alone that it does not take. -/
theorem sysFork_other {s : ProcState} (hi : s.findUnused = some i) (hj : j ≠ i) (resources : Bool) :
    Kept (s.tasks j) ((s.sysFork c resources).tasks j) := by
  unfold ProcState.sysFork
  rw [hi]
  dsimp only
  split
  · exact answer_kept s c _ j
  · refine (?_ : Kept _ _).trans (answer_kept _ c _ j)
    show Kept (s.tasks j) ((s.setTask i _).tasks j)
    rw [setTask_ne _ _ hj]
    exact Kept.refl _

/-- The new stack is that of a slot of the table that was free. -/
theorem Interrupted.newStack (h : Interrupted m c frame)
    (hfree : (m.proc.tasks i).state = .unused) (hc : Live m.proc c) (hk : k < kstackSlotCount)
    (hk' : m.stackSlots k = false) {bytes : Nat} (hlow : frameBytes ≤ bytes)
    (hhigh : bytes ≤ 0x2000) {p : ProcState} (hother : ∀ j, j ≠ i →
    Kept (m.proc.tasks j) (p.tasks j)) :
    Interrupted { m.newStack i k bytes with proc := p } c frame := by
  have hold : ∀ j, j ≠ i → Live p j → Live m.proc j := fun j hj hl => live_of_kept (hother j hj) hl
  -- the stacks of the other tasks are in use, so they are others
  have hne : ∀ j k', Live m.proc j → m.kstack j = some k' → k' ≠ k := by
    intro j k' hj hjk he
    obtain ⟨k₁, -, hk₁, hused⟩ := h.stack j hj
    obtain rfl : k' = k₁ := Option.some.inj (hjk.symm.trans hk₁)
    rw [he, hk'] at hused
    simp at hused
  have hframe : ∀ {j esp}, j ≠ i → Live m.proc j → Framed m j esp →
      Framed { m.newStack i k bytes with proc := p } j esp := fun hj hl hf =>
    hf.congr (Function.update_of_ne hj _ _) fun k' hjk =>
      ⟨Function.update_of_ne (hne _ k' hl hjk) _ _, Function.update_of_ne (hne _ k' hl hjk) _ _⟩
  have hself : Framed { m.newStack i k bytes with proc := p } i (stackTop k - bytes) :=
    ⟨k, Function.update_self .., Function.update_self .., Function.update_self ..,
      onStack_top hk hlow hhigh⟩
  have hci : c ≠ i := by
    intro he
    rw [← he] at hfree
    exact hc.2 hfree
  refine ⟨⟨fun j hj => ?_, fun j j' k' hj hj' hk₁ hk₂ => ?_⟩, fun j hjc hj hw => ?_,
    hframe hci hc h.self⟩
  · by_cases hji : j = i
    · rw [hji]
      exact ⟨k, hk, Function.update_self .., Function.update_self ..⟩
    · obtain ⟨k', hlt, hjk, hused⟩ := h.stack j (hold j hji hj)
      refine ⟨k', hlt, (Function.update_of_ne hji _ _).trans hjk, ?_⟩
      exact (Function.update_of_ne (hne j k' (hold j hji hj) hjk) _ _).trans hused
  · have hk₁ : Function.update m.kstack i (some k) j = some k' := hk₁
    have hk₂ : Function.update m.kstack i (some k) j' = some k' := hk₂
    by_cases hji : j = i <;> by_cases hji' : j' = i
    · exact hji.trans hji'.symm
    · rw [hji, Function.update_self] at hk₁
      rw [Function.update_of_ne hji'] at hk₂
      exact absurd (Option.some.inj hk₁).symm (hne j' k' (hold j' hji' hj') hk₂)
    · rw [hji', Function.update_self] at hk₂
      rw [Function.update_of_ne hji] at hk₁
      exact absurd (Option.some.inj hk₂).symm (hne j k' (hold j hji hj) hk₁)
    · rw [Function.update_of_ne hji] at hk₁
      rw [Function.update_of_ne hji'] at hk₂
      exact h.own j j' k' (hold j hji hj) (hold j' hji' hj') hk₁ hk₂
  · by_cases hji : j = i
    · show Framed _ j (Function.update m.savedEsp i _ j)
      rw [hji, Function.update_self]
      exact hself
    show Framed _ j (Function.update m.savedEsp i _ j)
    rw [Function.update_of_ne hji]
    refine hframe hji (hold j hji hj) (h.others j hjc (hold j hji hj) ?_)
    rw [← (hother j hji).state]
    exact hw

theorem findSlot_some (h : m.findSlot = some k) : k < kstackSlotCount ∧ m.stackSlots k = false := by
  unfold findSlot at h
  have hmem := List.mem_of_find?_eq_some h
  have hfree := List.find?_some h
  exact ⟨List.mem_range.mp hmem, by simpa using hfree⟩

theorem Interrupted.sysFork (h : Interrupted m c frame) (hc : Live m.proc c) (resources : Bool) :
    Interrupted (m.sysFork c resources) c frame := by
  have hfail : Interrupted { m with proc := m.proc.sysFork c false } c frame := by
    rw [sysFork_false]
    refine h.proc (fun i hl => live_of_kept (answer_kept m.proc c _ i) hl) fun i _ hw => ?_
    rw [← (answer_kept m.proc c (-1) i).state]
    exact hw
  unfold Machine.sysFork
  split
  next i k hi hk =>
    split
    · exact hfail
    · obtain ⟨hlt, hun⟩ := findUnused_some hi
      obtain ⟨hklt, hfree⟩ := findSlot_some hk
      exact h.newStack hun hc hklt hfree (by decide) (by decide)
        fun j hj => sysFork_other hi hj true
  · exact hfail

/-- What a call that returns at once does to the table, for `waitpid` and the others. -/
theorem enter_collected {s s' : ProcState} (hf : ∀ r, e ≠ .fork r)
    (h : s.enter c e = (s', none)) :
    match s.collected c e with
    | none => ∀ j, Kept (s.tasks j) (s'.tasks j)
    | some i => i < maxTasks ∧ (s.tasks i).state = .zombie ∧ s'.tasks i = Task.reset ∧
        ∀ j, j ≠ i → Kept (s.tasks j) (s'.tasks j) := by
  cases turn_of_enter h with
  | answers result hn =>
    rw [hn]
    exact fun j => answer_kept s c _ j
  | forks hi => exact absurd rfl (hf true)
  | collects hi hok hc =>
    obtain ⟨hlt, hz, -⟩ := findZombieChild_some hi
    rw [hc]
    refine ⟨hlt, hz, setTask_self _ _ _, fun j hj => ?_⟩
    show Kept _ (((ProcState.setTask _ c _).setTask _ Task.reset).tasks j)
    rw [setTask_ne _ _ hj]
    exact answer_kept s c _ j

/-- A call that goes on to the scheduler has released no one. -/
theorem enter_none_collected {s s' : ProcState} (h : s.enter c e = (s', some env)) :
    s.collected c e = none := by
  cases turn_of_enter h with
  | waits hnone => simp [collected, hnone]
  | suspends ht hr he =>
    cases e with
    | waitpid => exact absurd rfl hr
    | _ => rfl
  | _ => rfl

/-- The tasks that wait when the scheduler starts have waited before. -/
theorem Interrupted.entered {s' : ProcState} (h : Interrupted m c frame)
    (hent : Entered m.proc s' c e) (hc : Live m.proc c) :
    Interrupted { m with proc := s' } c frame := by
  refine h.proc (fun i hl => ?_) fun i hi hw => ?_
  · by_cases hic : i = c
    · rw [hic]
      exact hc
    · rcases hent.others i hic with hk | hw
      · exact live_of_kept hk hl
      · exact ⟨hl.1, by rw [hw.waited.1]; simp⟩
  · rcases hent.others i hi with hk | hwk
    · rw [← hk.state]
      exact hw
    · exact Or.inr (Or.inl hwk.waited.1)

/-- A zombie other than the interrupted task loses its stack. -/
theorem Interrupted.free {s' : ProcState} (h : Interrupted m c frame) (hc : Live m.proc c)
    (hci : c ≠ i) (hi : Live m.proc i) (hreset : s'.tasks i = Task.reset)
    (hother : ∀ j, j ≠ i → Kept (m.proc.tasks j) (s'.tasks j)) :
    Interrupted { m.freeStack i with proc := s' } c frame := by
  have hl : ∀ j, Live s' j → Live m.proc j ∧ j ≠ i := by
    intro j hj
    have hji : j ≠ i := by
      intro he
      rw [he] at hj
      exact hj.2 (by rw [hreset]; rfl)
    exact ⟨live_of_kept (hother j hji) hj, hji⟩
  refine ⟨h.toOwned.free hi hl, fun j hj hlive hw => ?_, h.self.free h.toOwned hi hc hci s'⟩
  obtain ⟨hjlive, hji⟩ := hl j hlive
  show Framed _ j ((m.freeStack i).savedEsp j)
  rw [(freeStack_other h.toOwned hi hjlive hji).2.1]
  refine (h.others j hj hjlive ?_).free h.toOwned hi hjlive hji s'
  rw [← (hother j hji).state]
  exact hw

theorem freeStack_esp0 (m : Machine) (i : Nat) : (m.freeStack i).esp0 = m.esp0 := by
  unfold freeStack
  split <;> rfl

theorem sysFork_kept (hc : Live m.proc c) (resources : Bool) :
    (m.sysFork c resources).kstack c = m.kstack c ∧ (m.sysFork c resources).esp0 = m.esp0 ∧
      (m.sysFork c resources).selections = m.selections := by
  unfold Machine.sysFork
  split
  next i k hi hk =>
    split
    · exact ⟨rfl, rfl, rfl⟩
    have hci : c ≠ i := by
      intro he
      rw [he] at hc
      exact hc.2 (findUnused_some hi).2
    exact ⟨Function.update_of_ne hci _ _, rfl, rfl⟩
  · exact ⟨rfl, rfl, rfl⟩

/-- Every call of the interrupted task. -/
theorem Interrupted.call (h : Interrupted m c frame) (hs : Scheduled m.proc)
    (hcur : m.proc.current = some c) (he : e.OpenTo (m.proc.tasks c))
    (hesp : ∀ k, m.kstack c = some k → m.esp0 = stackTop k) (hsound : ∀ r ∈ m.selections, r.Sound) :
    Ok (m.call c frame e) := by
  obtain ⟨hc, hrun⟩ := hs.running hcur
  have hlive : Live m.proc c := ⟨hc, by rw [hrun]; simp⟩
  have hsched : ∀ {s' : ProcState} {e' : Event}, m.proc.enter c e' = (s', none) →
      Scheduled s' ∧ s'.current = some c := fun hent =>
    have hback := enter_answered hlive hent
    ⟨hback.scheduled hs, hback.current.trans hcur⟩
  by_cases hfork : ∃ r, e = .fork r
  · obtain ⟨r, rfl⟩ := hfork
    obtain ⟨r', hr'⟩ := sysFork_proc m c r
    have hent : m.proc.enter c (.fork r') = (m.proc.sysFork c r', none) := rfl
    obtain ⟨hs', hcur'⟩ := hsched hent
    obtain ⟨hkstack, hesp0, hsel⟩ := sysFork_kept hlive r
    refine (h.sysFork hlive r).resume (by rw [hr']; exact hs') (by rw [hr']; exact hcur')
      (fun k hk => ?_) (by rw [hsel]; exact hsound)
    rw [hesp0]
    exact hesp k (hkstack.symm.trans hk)
  have hne : ∀ r, e ≠ .fork r := fun r he => hfork ⟨r, he⟩
  rw [call_of_not_fork m c frame hne]
  split
  next s' hent =>
    obtain ⟨hs', hcur'⟩ := hsched hent
    have hcol := enter_collected hne hent
    cases hcoll : m.proc.collected c e with
    | none =>
      rw [hcoll] at hcol
      refine (h.proc (fun i hl => live_of_kept (hcol i) hl) fun i _ hw => ?_).resume hs'
        hcur' hesp hsound
      rw [← (hcol i).state]
      exact hw
    | some i =>
      rw [hcoll] at hcol
      obtain ⟨hi, hz, hreset, hother⟩ := hcol
      have hilive : Live m.proc i := ⟨hi, by rw [hz]; simp⟩
      have hci : c ≠ i := by
        intro hci
        rw [hci, hz] at hrun
        simp at hrun
      refine (h.free hlive hci hilive hreset hother).resume hs' hcur' (fun k hk => ?_) ?_
      · show (m.freeStack i).esp0 = _
        rw [freeStack_esp0]
        exact hesp k ((freeStack_other h.toOwned hilive hlive hci).1.symm.trans hk)
      · show ∀ r ∈ (m.freeStack i).selections, r.Sound
        rw [freeStack_selections]
        exact hsound
  next s' env hent =>
  rw [enter_none_collected hent]
  have hentered := enter_entered hent
  exact (h.entered hentered hlive).schedule (hentered.current.trans hcur)
    (enter_settled hs hcur he hent) hsound env

/-- The saved stack pointer of the interrupted task itself does not matter. -/
theorem Interrupted.save (h : Interrupted m c frame) (esp top : Nat) :
    Interrupted { m with savedEsp := Function.update m.savedEsp c esp, esp0 := top } c frame where
  toOwned := ⟨h.stack, h.own⟩
  others i hi hl hw := by
    show Framed _ i (Function.update m.savedEsp c esp i)
    rw [Function.update_of_ne hi]
    exact (h.others i hi hl hw).congr rfl fun _ _ => ⟨rfl, rfl⟩
  self := h.self.congr rfl fun _ _ => ⟨rfl, rfl⟩

/-- An `execv` puts the new frame where the frame of the call was. -/
theorem Ok.exec (h : Ok m) (hcur : m.proc.current = some c) (hu : (m.proc.tasks c).kind = .user) :
    Ok ((m.pushFrame (m.esp0 - userFrameBytes)).exec c) := by
  obtain ⟨hc, hrun⟩ := h.sched.running hcur
  obtain ⟨k, -, hk, -⟩ := h.stacked.stack c ⟨hc, by rw [hrun]; simp⟩
  have hframe : m.entryFrame c 0 = some (m.esp0 - userFrameBytes) := if_pos hu
  have htop : (m.pushFrame (m.esp0 - userFrameBytes)).taskStackTop c = m.esp0 := by
    show m.taskStackTop c = m.esp0
    unfold taskStackTop
    rw [hk]
    exact (h.entry c k hcur hk).1.symm
  have htwice : (m.pushFrame (m.esp0 - userFrameBytes)).pushFrame (m.esp0 - userFrameBytes)
      = m.pushFrame (m.esp0 - userFrameBytes) := by
    unfold Machine.pushFrame
    rw [Function.update_idem]
  unfold Machine.exec
  dsimp only
  rw [htop, htwice, htop]
  exact ((h.pushFrame hcur hframe).save _ _).resume h.sched hcur
    (fun k hk => (h.entry c k hcur hk).1) h.sound

/-- **One trap** keeps the stacks and the frames in order. -/
theorem step_ok (m : Machine) (t : Trap) (h : Ok m) : Ok (m.step t) := by
  unfold step
  split
  · exact h
  next c hcur =>
  have hesp : ∀ k, m.kstack c = some k → m.esp0 = stackTop k := fun k hk => (h.entry c k hcur hk).1
  cases t with
  | call e depth =>
    dsimp only
    split
    next he =>
      split
      · exact h
      next frame hf => exact (h.pushFrame hcur hf).call h.sched hcur he hesp h.sound
    · exact h
  | exec loaded =>
    dsimp only
    split
    next hu =>
      split
      · exact h.exec hcur hu
      · have hframe : m.entryFrame c 0 = some (m.esp0 - userFrameBytes) := if_pos hu
        exact (h.pushFrame hcur hframe).resume h.sched hcur hesp h.sound
    · exact h

/-! ## From the start -/

/-- While the tasks of the start are made there is none running, and the idle task waits
with the others. -/
structure Starting (m : Machine) : Prop where
  stacked : Stacked m
  current : m.proc.current = none
  idle : IdleReady m.proc
  quiet : ∀ i, (m.proc.tasks i).state = .unused ∨ (m.proc.tasks i).state = .runnable
  selections : m.selections = []

theorem createTask_cases (m : Machine) (kind : TaskKind) (bytes : Nat) (resources : Bool) :
    m.createTask kind bytes resources = (m, none) ∨
      ∃ i k, i < maxTasks ∧ (m.proc.tasks i).state = .unused ∧ k < kstackSlotCount ∧
        m.stackSlots k = false ∧
        m.createTask kind bytes resources
          = ({ m.newStack i k bytes with proc := newTask m.proc i kind }, some i) := by
  unfold createTask
  split
  next i k hi hk =>
    split
    · obtain ⟨hlt, hun⟩ := findUnused_some hi
      obtain ⟨hklt, hfree⟩ := findSlot_some hk
      exact Or.inr ⟨i, k, hlt, hun, hklt, hfree, rfl⟩
    · exact Or.inl rfl
  · exact Or.inl rfl

theorem newTask_other {s : ProcState} (hj : j ≠ i) (kind : TaskKind) :
    (newTask s i kind).tasks j = s.tasks j := setTask_ne s _ hj

/-- A task that is made at the start. -/
theorem Starting.createTask (h : Starting m) (kind : TaskKind) {bytes : Nat}
    (hlow : frameBytes ≤ bytes) (hhigh : bytes ≤ 0x2000) (resources : Bool) :
    Starting (m.createTask kind bytes resources).1 := by
  rcases createTask_cases m kind bytes resources with hno | ⟨i, k, hi, hun, hk, hfree, hmk⟩
  · rw [hno]
    exact h
  obtain ⟨d, hd, hidle, hkind, hst⟩ := h.idle
  have hdlive : Live m.proc d := ⟨hd, by rw [hst]; simp⟩
  have hdi : d ≠ i := by
    intro he
    rw [he, hun] at hst
    simp at hst
  -- the idle task stands for the interrupted one
  have hint : Interrupted m d (m.savedEsp d) :=
    ⟨h.stacked.toOwned, fun j _ hl hw => h.stacked.frame j hl hw,
      h.stacked.frame d hdlive (Or.inl hst)⟩
  have hnew := hint.newStack hun hdlive hk hfree hlow hhigh (p := newTask m.proc i kind)
    fun j hj => by rw [newTask_other hj]; exact Kept.refl _
  rw [hmk]
  refine ⟨⟨hnew.toOwned, fun j hl hw => ?_⟩, h.current, ⟨d, hd, hidle, ?_⟩,
    fun j => ?_, h.selections⟩
  · by_cases hjd : j = d
    · rw [hjd]
      show Framed _ d (Function.update m.savedEsp i _ d)
      rw [Function.update_of_ne hdi]
      exact hnew.self
    · exact hnew.others j hjd hl hw
  · show ((newTask m.proc i kind).tasks d).kind = .kernel ∧
      ((newTask m.proc i kind).tasks d).state = .runnable
    rw [newTask_other hdi]
    exact ⟨hkind, hst⟩
  · show ((newTask m.proc i kind).tasks j).state = .unused ∨
      ((newTask m.proc i kind).tasks j).state = .runnable
    by_cases hji : j = i
    · rw [hji]
      exact Or.inr (congrArg Task.state (setTask_self m.proc i _))
    · rw [newTask_other hji]
      exact h.quiet j

theorem findSlot_empty : ∃ k, empty.findSlot = some k := by
  unfold findSlot
  rw [← Option.isSome_iff_exists, List.find?_isSome]
  exact ⟨0, List.mem_range.mpr (by decide), rfl⟩

theorem procInit_starting : Starting procInit := by
  obtain ⟨k, hk⟩ := findSlot_empty
  obtain ⟨hlt, -⟩ := findSlot_some hk
  have hmk : empty.createTask .kernel frameBytes true
      = ({ empty.newStack 0 k frameBytes with proc := newTask empty.proc 0 .kernel }, some 0) := by
    unfold createTask
    rw [hk, show empty.proc.findUnused = some 0 from rfl]
    rfl
  unfold procInit
  rw [hmk]
  have honly : ∀ i, Live (newTask empty.proc 0 .kernel) i → i = 0 := by
    intro i hi
    by_contra h0
    refine hi.2 ?_
    rw [newTask_other h0]
    rfl
  have hidle : ((newTask empty.proc 0 .kernel).tasks 0).state = .runnable := rfl
  have hstack : (empty.newStack 0 k frameBytes).kstack 0 = some k := by
    show Function.update empty.kstack 0 (some k) 0 = some k
    rw [Function.update_self]
  have hused : (empty.newStack 0 k frameBytes).stackSlots k = true := Function.update_self ..
  have hframe : (empty.newStack 0 k frameBytes).frames k = some (stackTop k - frameBytes) :=
    Function.update_self ..
  refine ⟨⟨⟨fun i hi => ?_, fun i j k' hi hj _ _ => ?_⟩, fun i hi _ => ?_⟩, rfl,
    ⟨0, by decide, rfl, rfl, hidle⟩, fun i => ?_, rfl⟩
  · obtain rfl := honly i hi
    exact ⟨k, hlt, hstack, hused⟩
  · exact (honly i hi).trans (honly j hj).symm
  · obtain rfl := honly i hi
    show Framed _ 0 (Function.update empty.savedEsp 0 _ 0)
    rw [Function.update_self]
    exact ⟨k, hstack, hused, hframe, onStack_top hlt (by decide) (by decide)⟩
  · by_cases h0 : i = 0
    · rw [h0]
      exact Or.inr hidle
    · exact Or.inl (congrArg Task.state (newTask_other h0 .kernel))

/-- The initial task is resumed like any other. -/
theorem Starting.enterInitialTask (h : Starting m) : Ok m.enterInitialTask ∧
    ∀ i, (m.enterInitialTask.proc.tasks i).state ∈ [.unused, .runnable, .running] := by
  obtain ⟨i, hi, hpick, hrun⟩ := pickNext_runnable h.idle
  have hquiet : ∀ j < maxTasks, (m.proc.tasks j).state ≠ .running := by
    intro j _ hr
    rcases h.quiet j with hj | hj <;> exact absurd (hj.symm.trans hr) (by simp)
  unfold Machine.enterInitialTask
  rw [hpick]
  refine ⟨h.stacked.switchTo (activateTask_scheduled h.idle hquiet hi) hi hrun
    (by rw [h.selections]; simp), fun j => ?_⟩
  show ((m.proc.activateTask i).tasks j).state ∈ _
  by_cases hji : j = i
  · rw [hji, show (m.proc.activateTask i).tasks i = _ from setTask_self m.proc i _]
    simp
  · rw [show (m.proc.activateTask i).tasks j = _ from setTask_ne m.proc _ hji]
    rcases h.quiet j with hj | hj <;> rw [hj] <;> simp

theorem boot_started (init workerA workerB : Bool) : Ok (boot init workerA workerB) ∧
    ∀ i, ((boot init workerA workerB).proc.tasks i).state ∈ [.unused, .runnable, .running] := by
  have huser : Starting (procInit.createTask .user userFrameBytes init).1 :=
    procInit_starting.createTask .user (by decide) (by decide) init
  unfold boot startBootTasks
  generalize procInit.createTask .user userFrameBytes init = user at huser ⊢
  -- `init_task` is noted
  have hinit : Starting { user.1 with proc := { user.1.proc with init := user.2 } } :=
    ⟨⟨⟨huser.stacked.stack, huser.stacked.own⟩, fun i hl hw =>
      (huser.stacked.frame i hl hw).congr rfl
      fun _ _ => ⟨rfl, rfl⟩⟩, huser.current, huser.idle, huser.quiet, huser.selections⟩
  exact ((hinit.createTask .kernel (by decide) (by decide) workerA).createTask .kernel (by decide)
    (by decide) workerB).enterInitialTask

end Machine

/-- Whatever the current task enters the kernel with, `proc_schedule` finds a RUNNABLE task:
its way out that goes on with the interrupted task, whatever the state of that, is never
taken. -/
theorem Machine.Ok.picks {m : Machine} {c : Nat} {e : Event} {s : ProcState} {env : Env}
    (h : m.Ok) (hcur : m.proc.current = some c) (he : e.OpenTo (m.proc.tasks c))
    (hent : m.proc.enter c e = (s, some env)) (frame : Nat) :
    ∃ i, ({ m with proc := s }.beforePick frame env).proc.pickNext = some i ∧
      (({ m with proc := s }.beforePick frame env).proc.tasks i).state = .runnable := by
  have hs := enter_settled h.sched hcur he hent
  obtain ⟨i, -, hpick, hrun⟩ := pickNext_runnable (collect_idle (beforeCollect_idle hs.idle env))
  rw [Machine.beforePick_proc]
  exact ⟨i, hpick, hrun⟩

/-- **The scheduler is safe** in every state that the machine comes to, from its start and
through any traps. There is a current task, it is RUNNING, and no other task is; the idle
task is RUNNABLE or RUNNING; every task has a kernel stack of its own; whatever
`proc_schedule` resumed so far was RUNNABLE, with its saved frame on its own live stack; and
from here no call makes `proc_schedule` return without a RUNNABLE task to resume. -/
theorem run_schedules_safely (init workerA workerB : Bool) (traps : List Trap) :
    let m := run Machine.step (Machine.boot init workerA workerB) traps
    (∀ i < maxTasks, (m.proc.tasks i).state = .running → m.proc.current = some i) ∧
    (∃ c < maxTasks, m.proc.current = some c ∧ (m.proc.tasks c).state = .running) ∧
    (∃ i < maxTasks, m.proc.idle = some i ∧
      ((m.proc.tasks i).state = .runnable ∨ (m.proc.tasks i).state = .running)) ∧
    (∀ i j, Live m.proc i → Live m.proc j → m.kstack i = m.kstack j → i = j) ∧
    (∀ r ∈ m.selections, r.Sound) ∧
    (∀ c e s env frame, m.proc.current = some c → e.OpenTo (m.proc.tasks c) →
      m.proc.enter c e = (s, some env) →
      ∃ i, ({ m with proc := s }.beforePick frame env).proc.pickNext = some i ∧
        (({ m with proc := s }.beforePick frame env).proc.tasks i).state = .runnable) := by
  have h : Machine.Ok (run Machine.step (Machine.boot init workerA workerB) traps) :=
    run_invariant Machine.step_ok traps (Machine.boot_started init workerA workerB).1
  refine ⟨h.sched.only, h.sched.current, ?_, fun i j hi hj hij => ?_, h.sound,
    fun c e s env frame hcur he hent => h.picks hcur he hent frame⟩
  · obtain ⟨i, hi, hidle, -, hst⟩ := h.sched.idle
    exact ⟨i, hi, hidle, hst.imp_right And.left⟩
  · obtain ⟨k, -, hk, -⟩ := h.stacked.stack i hi
    exact h.stacked.own i j k hi hj hk (hij.symm.trans hk)

end Riverix.Proc
