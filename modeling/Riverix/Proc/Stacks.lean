import Riverix.Lib.Run
import Riverix.Proc.Calls

/-!
# Kernel stacks and the frames on them (`proc.c`, `kstack.c`, `interrupts.S`)

Every task has a kernel stack of its own, in a slot of the stack region. An interrupt or
a system call pushes a frame: from user mode onto the stack that the TSS names, from
kernel mode onto the stack the processor is on. `proc_schedule` keeps the address of that
frame in `saved_esp` and returns the address of another one, which `interrupt_common`
resumes.

The task table and the calls are those of `ProcState`; here they come with the stacks:
`fork` allocates one, releasing a task frees one, and a kernel task that runs off its
stack hits the guard page, which ends the run. Two ghost fields tell what is where: the
frame that a stack holds, and what every `proc_schedule` selected.
-/

namespace Riverix.Proc

open ProcState Lib

/-! ## The stack region -/

/-- `KERNEL_STACK_BASE`, `KSTACK_SLOT_SIZE` and `KSTACK_SLOT_COUNT` -/
def kstackBase : Nat := 0xFC000000
def kstackSlotSize : Nat := 0x3000
def kstackSlotCount : Nat := 5120

/-- `kstack_slot_stack_base`: the guard page comes first. -/
def stackBase (k : Nat) : Nat := kstackBase + k * kstackSlotSize + 0x1000

/-- `kstack_slot_stack_top` -/
def stackTop (k : Nat) : Nat := stackBase k + 0x2000

/-- The slot that an address on a stack belongs to; the region starts at a multiple of
`0x4000000` and is smaller than that. -/
def slotOf (esp : Nat) : Nat := esp % 0x4000000 / kstackSlotSize

/-- The sizes of `interrupt_frame_t` and `interrupt_user_frame_t` -/
def frameBytes : Nat := 68
def userFrameBytes : Nat := 76

/-- What `proc_schedule` saw of the task that it resumed: the state, the saved stack
pointer, the kernel stack, whether that is allocated, and the frame it holds. -/
structure Selection where
  state : TaskState
  esp : Nat
  stack : Option Nat
  used : Bool
  frame : Option Nat

/-- The task table with the stacks. `cpuStack` is the stack that the processor is on
while the current task runs in kernel mode. -/
structure Machine where
  proc : ProcState
  stackSlots : Nat → Bool
  kstack : Nat → Option Nat
  savedEsp : Nat → Nat
  esp0 : Nat
  cpuStack : Nat
  frames : Nat → Option Nat
  selections : List Selection

namespace Machine

/-- `kstack_find_slot` -/
def findSlot (m : Machine) : Option Nat :=
  (List.range kstackSlotCount).find? fun k => !m.stackSlots k

/-- `kstack_alloc` for task `i`, and the first frame of the task, of `bytes` bytes at the
top of the stack. -/
def newStack (m : Machine) (i k bytes : Nat) : Machine :=
  { m with
    stackSlots := Function.update m.stackSlots k true
    kstack := Function.update m.kstack i (some k)
    savedEsp := Function.update m.savedEsp i (stackTop k - bytes)
    frames := Function.update m.frames k (some (stackTop k - bytes)) }

/-- `kstack_free` of task `i`'s stack, and what `task_reset` does to these fields. -/
def freeStack (m : Machine) (i : Nat) : Machine :=
  match m.kstack i with
  | none => { m with savedEsp := Function.update m.savedEsp i 0 }
  | some k =>
    { m with
      stackSlots := Function.update m.stackSlots k false
      kstack := Function.update m.kstack i none
      savedEsp := Function.update m.savedEsp i 0
      frames := Function.update m.frames k none }

/-- `interrupt_common`: the frame is pushed. -/
def pushFrame (m : Machine) (frame : Nat) : Machine :=
  { m with frames := Function.update m.frames (slotOf frame) (some frame) }

/-- The end of `interrupt_common`, and `interrupt_resume`: the frame is popped. -/
def resume (m : Machine) (esp : Nat) : Machine :=
  { m with
    cpuStack := slotOf esp
    frames := Function.update m.frames (slotOf esp) none }

/-- Where the frame of the next interrupt goes: user mode enters on the stack of the TSS,
a kernel task has used `depth` bytes of its stack. There is none behind the guard page. -/
def entryFrame (m : Machine) (c depth : Nat) : Option Nat :=
  if (m.proc.tasks c).kind = .user then some (m.esp0 - userFrameBytes)
  else if depth + frameBytes ≤ 0x2000 then some (stackTop m.cpuStack - depth - frameBytes)
  else none

/-- `task_release_resources` -/
def releaseResources (m : Machine) (i : Nat) : Machine :=
  { m.freeStack i with proc := m.proc.releaseResources i }

/-- One turn of the loop of `proc_collect_reapable_zombies`. -/
def collectSlot (m : Machine) (i : Nat) : Machine :=
  if m.proc.current = some i ∨ (m.proc.tasks i).state ≠ .zombie ∨ (m.proc.tasks i).reapReady = false
  then m else m.releaseResources i

/-- `proc_collect_reapable_zombies` -/
def collectReapableZombies (m : Machine) : Machine :=
  (List.range maxTasks).foldl collectSlot m

/-- `stack_top` of the task's kernel stack. -/
def taskStackTop (m : Machine) (i : Nat) : Nat :=
  match m.kstack i with
  | some k => stackTop k
  | none => 0

/-- `proc_activate_task` -/
def activateTask (m : Machine) (i : Nat) : Machine :=
  { m with
    proc := m.proc.activateTask i
    esp0 := m.taskStackTop i }

/-- What is seen of task `i` when it is selected. -/
def selection (m : Machine) (i : Nat) : Selection where
  state := (m.proc.tasks i).state
  esp := m.savedEsp i
  stack := m.kstack i
  used := (m.kstack i).any m.stackSlots
  frame := (m.kstack i).bind m.frames

/-- `proc_schedule` up to the choice of the next task. -/
def beforePick (m : Machine) (frame : Nat) (env : Env) : Machine :=
  let m := match m.proc.current with
    | some c => { m with savedEsp := Function.update m.savedEsp c frame }
    | none => m
  { m with proc := m.proc.beforeCollect env }.collectReapableZombies

/-- `proc_activate_task`, and the stack pointer that is returned. -/
def switchTo (m : Machine) (i : Nat) : Machine :=
  ({ m with selections := m.selection i :: m.selections }.activateTask i).resume (m.savedEsp i)

/-- `proc_schedule` -/
def schedule (m : Machine) (frame : Nat) (env : Env) : Machine :=
  let m := m.beforePick frame env
  match m.proc.pickNext with
  | none => m.resume frame
  | some i => m.switchTo i

/-- `proc_sys_fork` of the current task `c`. -/
def sysFork (m : Machine) (c : Nat) (resources : Bool) : Machine :=
  match m.proc.findUnused, m.findSlot with
  | some i, some k =>
    if (m.proc.tasks c).kind ≠ .user ∨ resources = false then
      { m with proc := m.proc.sysFork c false }
    else { m.newStack i k userFrameBytes with proc := m.proc.sysFork c true }
  | _, _ => { m with proc := m.proc.sysFork c false }

/-- A call of the current task `c` that came with `frame`. -/
def call (m : Machine) (c frame : Nat) : Event → Machine
  | .fork resources => (m.sysFork c resources).resume frame
  | e =>
    let m₁ := match m.proc.collected c e with
      | some i => m.freeStack i
      | none => m
    match m.proc.enter c e with
    | (p, none) => { m₁ with proc := p }.resume frame
    | (p, some env) => { m₁ with proc := p }.schedule frame env

theorem call_of_not_fork (m : Machine) (c frame : Nat) {e : Event} (h : ∀ r, e ≠ .fork r) :
    m.call c frame e =
      (match m.proc.enter c e with
      | (p, none) =>
        ({ (match m.proc.collected c e with
            | some i => m.freeStack i
            | none => m) with proc := p } : Machine).resume frame
      | (p, some env) =>
        ({ (match m.proc.collected c e with
            | some i => m.freeStack i
            | none => m) with proc := p } : Machine).schedule frame env) := by
  cases e with
  | fork r => exact absurd rfl (h r)
  | _ => rfl

/-- `proc_sys_execv` of the current task `c` that succeeds: a new frame at the top of its
stack. -/
def exec (m : Machine) (c : Nat) : Machine :=
  let frame := m.taskStackTop c - userFrameBytes
  let m := m.pushFrame frame
  { m with
    savedEsp := Function.update m.savedEsp c frame
    esp0 := m.taskStackTop c }.resume frame

end Machine

/-- What interrupts the running task: a call or the timer, with the stack that a kernel
task has used, or an `execv`. -/
inductive Trap
  | call (e : Event) (depth : Nat)
  | exec (loaded : Bool)

/-- `interrupt_dispatch` -/
def Machine.step (m : Machine) (t : Trap) : Machine :=
  match m.proc.current with
  | none => m
  | some c =>
    match t with
    | .call e depth =>
      if e.OpenTo (m.proc.tasks c) then
        match m.entryFrame c depth with
        | none => m
        | some frame => (m.pushFrame frame).call c frame e
      else m
    | .exec loaded =>
      if (m.proc.tasks c).kind = .user then
        let frame := m.esp0 - userFrameBytes
        if loaded then (m.pushFrame frame).exec c else (m.pushFrame frame).resume frame
      else m

/-! ## Start -/

namespace Machine

/-- The task table with a new task in slot `i`. -/
def newTask (s : ProcState) (i : Nat) (kind : TaskKind) : ProcState :=
  { s.setTask i { Task.reset with kind := kind, pid := s.nextPid, state := .runnable } with
    nextPid := (s.nextPid + 1) % 2 ^ 32 }

/-- `proc_create_kernel_task` and `proc_create_user_task`, with the frame at the top of
the new stack; `resources` tells whether the rest of what the task needs is there. -/
def createTask (m : Machine) (kind : TaskKind) (bytes : Nat) (resources : Bool) :
    Machine × Option Nat :=
  match m.proc.findUnused, m.findSlot with
  | some i, some k =>
    if resources then
      ({ m.newStack i k bytes with proc := newTask m.proc i kind }, some i)
    else (m, none)
  | _, _ => (m, none)

/-- Before `proc_init`: no task and no stack. -/
def empty : Machine where
  proc := ⟨fun _ => Task.reset, none, none, none, 1, [], []⟩
  stackSlots _ := false
  kstack _ := none
  savedEsp _ := 0
  esp0 := 0
  cpuStack := 0
  frames _ := none
  selections := []

/-- `proc_init`, for an idle task that could be created. -/
def procInit : Machine :=
  let idle := empty.createTask .kernel frameBytes true
  { idle.1 with
    proc := { idle.1.proc with idle := idle.2 }
    esp0 := idle.2.elim 0 idle.1.taskStackTop }

/-- `proc_start_boot_tasks`; the arguments tell which of the tasks can be created. -/
def startBootTasks (m : Machine) (init workerA workerB : Bool) : Machine :=
  let user := m.createTask .user userFrameBytes init
  let m := { user.1 with proc := { user.1.proc with init := user.2 } }
  let m := (m.createTask .kernel frameBytes workerA).1
  (m.createTask .kernel frameBytes workerB).1

/-- `proc_enter_initial_task` -/
def enterInitialTask (m : Machine) : Machine :=
  match m.proc.pickNext with
  | none => m
  | some i => m.switchTo i

/-- The kernel has started. -/
def boot (init workerA workerB : Bool) : Machine :=
  (procInit.startBootTasks init workerA workerB).enterInitialTask

end Machine

end Riverix.Proc
