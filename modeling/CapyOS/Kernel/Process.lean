import CapyOS.Lib.Numerals

namespace CapyOS

/-- `TASK_MAX_COUNT` slots. -/
abbrev TaskSlot := Fin 64

inductive TaskState where
  | unused | created | ready | running | blocked | sleeping | zombie | dead
  deriving DecidableEq, Repr

inductive SchedulerPolicy where
  | roundRobin | priority | cooperative
  deriving DecidableEq, Repr

def taskPriorityNormal : Nat := 2

def schedDefaultQuantum : Nat := 10

/-- A `struct task`, as far as its life is concerned. `createdFor` is not in the source: it
names the process a task was created for. -/
structure Task where
  pid : Nat
  state : TaskState
  priority : Nat
  wakeTick : Nat
  exitCode : Int
  quantumRemaining : Nat
  createdFor : Option Nat
  deriving DecidableEq, Repr

abbrev Task.InUse (t : Task) : Prop := t.state ≠ .unused

/-- The globals of the task table and of the scheduler. The run queue is the list of the
slots in the order of their `next` pointers. -/
structure Tasks where
  table : TaskSlot → Task
  nextPid : Nat
  current : Option TaskSlot
  queue : List TaskSlot
  policy : SchedulerPolicy
  running : Bool
  preemptDisable : Nat
  totalTicks : Nat

namespace Tasks
variable (s : Tasks)

def update (i : TaskSlot) (f : Task → Task) : Tasks :=
  { s with table := Function.update s.table i (f (s.table i)) }

def taskAlloc : Option TaskSlot := (List.finRange 64).find? fun i => (s.table i).state = .unused

/-- `task_create`, where `stack` says if there was memory for the kernel stack. -/
def taskCreate (stack : Bool) (priority : Nat) (createdFor : Option Nat) : Option TaskSlot × Tasks :=
  match s.taskAlloc with
  | none => (none, s)
  | some i =>
    let t : Task :=
      { pid := s.nextPid, state := if stack then .ready else .unused, priority := priority, wakeTick := 0,
        exitCode := 0, quantumRemaining := schedDefaultQuantum, createdFor := createdFor }
    (if stack then some i else none,
      { s with table := Function.update s.table i t, nextPid := (s.nextPid + 1) % 2 ^ 32 })

def taskByPid (pid : Nat) : Option TaskSlot :=
  (List.finRange 64).find? fun i => (s.table i).state ≠ .unused ∧ (s.table i).pid = pid

def schedulerAdd (t : TaskSlot) : Tasks := { s with queue := s.queue ++ [t] }

def schedulerRemove (t : TaskSlot) : Tasks := { s with queue := s.queue.erase t }

def taskKill (pid : Nat) : Tasks :=
  match s.taskByPid pid with
  | none => s
  | some t =>
    if s.current = some t then s
    else (s.schedulerRemove t).update t fun task => { task with state := .unused }

def isReady (t : TaskSlot) : Bool := (s.table t).state = .ready

/-- The first of the ready tasks that no other one beats. -/
def bestOf (ts : List TaskSlot) : Option TaskSlot :=
  ts.foldl (fun best t =>
    if s.isReady t then
      match best with
      | none => some t
      | some b => if (s.table t).priority > (s.table b).priority then some t else best
    else best) none

/-- The queue from behind a task to its end, and from its start up to the task. -/
def rotation (t : TaskSlot) : List TaskSlot :=
  (s.queue.dropWhile (· ≠ t)).tail ++ s.queue.takeWhile (· ≠ t)

def pickNextForCurrent : Option TaskSlot :=
  let ts := match s.current with
    | none => s.queue
    | some t => s.rotation t
  if s.policy = .priority then s.bestOf ts else ts.find? s.isReady

/-- The state of the task that loses the processor. -/
def stepDown : Tasks :=
  match s.current with
  | none => s
  | some t =>
    if (s.table t).state = .running then s.update t fun task => { task with state := .ready } else s

def schedule : Tasks :=
  match s.pickNextForCurrent with
  | none => s
  | some next =>
    if s.current = some next then s
    else { s.stepDown.update next fun task => { task with state := .running } with current := some next }

def schedulerYield : Tasks := if s.running then s.schedule else s

def sleepCurrent (ticks : Nat) : Tasks :=
  match s.current with
  | none => s
  | some t =>
    (s.update t fun task =>
      { task with state := .sleeping, wakeTick := (s.totalTicks + ticks) % 2 ^ 64 }).schedule

def taskExit (code : Int) : Tasks :=
  match s.current with
  | none => s.schedulerYield
  | some t => (s.update t fun task => { task with exitCode := code, state := .zombie }).schedulerYield

def wakeOne (t : TaskSlot) : Tasks :=
  if (s.table t).state = .sleeping ∧ (s.table t).wakeTick ≤ s.totalTicks then
    s.update t fun task => { task with state := .ready, wakeTick := 0 }
  else s

/-- The task in the queue that a tick ends. -/
def Reapable (t : TaskSlot) : Prop :=
  ((s.table t).state = .zombie ∨ (s.table t).state = .dead) ∧ s.current ≠ some t

instance (t : TaskSlot) : Decidable (s.Reapable t) :=
  inferInstanceAs (Decidable (((s.table t).state = .zombie ∨ (s.table t).state = .dead) ∧ s.current ≠ some t))

def reapOne (t : TaskSlot) : Tasks := if s.Reapable t then s.taskKill (s.table t).pid else s

/-- What is left of a tick once the queue is swept. -/
def preempt : Tasks :=
  if s.policy = .cooperative then s
  else
    match s.current with
    | none => s.schedule
    | some t =>
      if (s.table t).state = .running then
        if (s.table t).quantumRemaining ≤ 1 then
          (s.update t fun task => { task with quantumRemaining := schedDefaultQuantum }).schedule
        else s.update t fun task => { task with quantumRemaining := task.quantumRemaining - 1 }
      else s.schedule

/-- A tick up to where it reaps, with the sleepers woken. -/
def wakeSleepers : Tasks :=
  s.queue.foldl wakeOne { s with totalTicks := (s.totalTicks + 1) % 2 ^ 64 }

def schedulerTick : Tasks :=
  if s.preemptDisable ≠ 0 then s.wakeSleepers
  else (s.wakeSleepers.queue.foldl reapOne s.wakeSleepers).preempt

end Tasks

/-- `PROCESS_MAX` slots. -/
abbrev ProcSlot := Fin 128

inductive ProcState where
  | unused | embryo | running | sleeping | zombie
  deriving DecidableEq, Repr

/-- A `struct process`. The children are listed in the order of their `next_sibling`
pointers. `life` is not in the source: it tells the processes apart that use a slot one
after the other. -/
structure Proc where
  pid : Nat
  ppid : Nat
  state : ProcState
  addressSpace : Bool
  mainThread : Option TaskSlot
  exitCode : Int
  parent : Option ProcSlot
  children : List ProcSlot
  life : Nat
  deriving DecidableEq, Repr

abbrev Proc.InUse (p : Proc) : Prop := p.state ≠ .unused

/-- How a call fares with the memory it needs and which address spaces are loaded. -/
structure ProcEnv where
  space : Bool
  stack : Bool
  clone : Bool
  active : ProcSlot → Bool

structure Kernel where
  tasks : Tasks
  procs : ProcSlot → Proc
  nextProcPid : Nat
  lives : Nat

namespace Kernel
variable (k : Kernel) (env : ProcEnv)

def update (i : ProcSlot) (f : Proc → Proc) : Kernel :=
  { k with procs := Function.update k.procs i (f (k.procs i)) }

def processCurrent : Option ProcSlot :=
  match k.tasks.current with
  | none => none
  | some t => (List.finRange 128).find? fun i => (k.procs i).state ≠ .unused ∧ (k.procs i).mainThread = some t

def processByPid (pid : Nat) : Option ProcSlot :=
  (List.finRange 128).find? fun i => (k.procs i).state ≠ .unused ∧ (k.procs i).pid = pid

def processLinkChild (child : ProcSlot) (parent : Option ProcSlot) : Kernel :=
  match parent with
  | none => k.update child fun p => { p with parent := none, ppid := 0 }
  | some q =>
    (k.update child fun p => { p with parent := some q, ppid := (k.procs q).pid }).update q fun p =>
      { p with children := child :: p.children }

def processUnlinkChild (child : ProcSlot) : Kernel :=
  match (k.procs child).parent with
  | none => k
  | some q =>
    (k.update q fun p => { p with children := p.children.erase child }).update child fun p =>
      { p with parent := none }

def processCreateWithParent (parent : Option ProcSlot) : Option ProcSlot × Kernel :=
  match (List.finRange 128).find? fun i => (k.procs i).state = .unused with
  | none => (none, k)
  | some i =>
    let p : Proc :=
      { pid := k.nextProcPid, ppid := (parent.map fun q => (k.procs q).pid).getD 0, state := .embryo,
        addressSpace := env.space, mainThread := none, exitCode := 0, parent := none, children := [],
        life := k.lives }
    let k := { k with nextProcPid := (k.nextProcPid + 1) % 2 ^ 32, lives := k.lives + 1 }
    if env.space then
      match k.tasks.taskCreate env.stack taskPriorityNormal (some p.life) with
      | (none, tasks) =>
        (none, { k with
          tasks := tasks
          procs := Function.update k.procs i { p with addressSpace := false, state := .unused } })
      | (some t, tasks) =>
        (some i, processLinkChild { k with
          tasks := tasks
          procs := Function.update k.procs i { p with mainThread := some t } } i parent)
    else (none, { k with procs := Function.update k.procs i { p with state := .unused } })

def processCreate : Option ProcSlot × Kernel := k.processCreateWithParent env k.processCurrent

def processCreateRoot : Option ProcSlot × Kernel := k.processCreateWithParent env none

def orphan (child : ProcSlot) : Kernel := k.update child fun p => { p with parent := none, ppid := 0 }

/-- Kill the main thread of a process, if it has one. -/
def killMain (i : ProcSlot) : Kernel :=
  match (k.procs i).mainThread with
  | none => k
  | some t =>
    ({ k with tasks := k.tasks.taskKill (k.tasks.table t).pid } : Kernel).update i fun p =>
      { p with mainThread := none }

def processDestroy (i : ProcSlot) : Kernel :=
  if (k.procs i).state = .unused then k
  else if (k.procs i).addressSpace ∧ env.active i then k
  else
    let k := (k.procs i).children.foldl orphan k
    let k := k.update i fun p => { p with children := [] }
    ((k.processUnlinkChild i).killMain i).update i fun p => { p with addressSpace := false, state := .unused }

def processFork (parent : ProcSlot) : Option ProcSlot × Kernel :=
  match k.processCreate env with
  | (none, k) => (none, k)
  | (some child, k) =>
    let k := (k.processUnlinkChild child).processLinkChild child (some parent)
    if (k.procs parent).addressSpace then
      if env.clone then (some child, k.update child fun p => { p with addressSpace := true })
      else (none, k.processDestroy env child)
    else (some child, k)

/-- `process_exit`, which halts for good if the current task is no process. -/
def processExit (code : Int) : Kernel :=
  match k.processCurrent with
  | none => k
  | some i =>
    let k := k.update i fun p => { p with exitCode := code, state := .zombie }
    { k with tasks := k.tasks.taskExit code }

def processKill (pid : Nat) (signal : Int) : Int × Kernel :=
  match k.processByPid pid with
  | none => (-1, k)
  | some i =>
    if k.processCurrent = some i ∨
        ((k.procs i).mainThread ≠ none ∧ (k.procs i).mainThread = k.tasks.current) then (-2, k)
    else
      let k := k.update i fun p => { p with exitCode := 128 + signal % 128, state := .zombie }
      let k := k.killMain i
      (0, if (k.procs i).parent = none then k.processDestroy env i else k)

def processReapOrphans : Kernel :=
  (List.finRange 128).foldl (fun k i =>
    if (k.procs i).state = .zombie ∧ (k.procs i).parent = none then k.processDestroy env i else k) k

/-- `process_enter_user_mode` up to the jump. -/
def processEnterUserMode (i : ProcSlot) : Kernel :=
  match (k.procs i).mainThread with
  | none => k
  | some t =>
    { k with tasks :=
        { k.tasks.update t fun task => { task with state := .running } with current := some t } }

end Kernel

/-- The calls. `process_wait` gives way to others while its child runs: `wait` is the round
of it that calls `process_destroy` on the slot it found. The last ones are what puts tasks
on the processor and takes them off. -/
inductive KernelOp where
  | create (env : ProcEnv)
  | createRoot (env : ProcEnv)
  | fork (env : ProcEnv) (parent : ProcSlot)
  | exit (code : Int)
  | kill (env : ProcEnv) (pid : Nat) (signal : Int)
  | wait (env : ProcEnv) (child : ProcSlot)
  | reapOrphans (env : ProcEnv)
  | tick
  | taskCreate (stack : Bool) (priority : Nat)
  | taskExit (code : Int)
  | schedulerAdd (t : TaskSlot)
  | setRunning (running : Bool)
  | setPolicy (policy : SchedulerPolicy)
  | preemptDisable
  | preemptEnable
  | yield
  | sleep (ticks : Nat)
  | enterUserMode (p : ProcSlot)

def kernelStep (k : Kernel) : KernelOp → Kernel
  | .create env => (k.processCreate env).2
  | .createRoot env => (k.processCreateRoot env).2
  | .fork env parent => (k.processFork env parent).2
  | .exit code => k.processExit code
  | .kill env pid signal => (k.processKill env pid signal).2
  | .wait env child => k.processDestroy env child
  | .reapOrphans env => k.processReapOrphans env
  | .tick => { k with tasks := k.tasks.schedulerTick }
  | .taskCreate stack priority => { k with tasks := (k.tasks.taskCreate stack priority none).2 }
  | .taskExit code => { k with tasks := k.tasks.taskExit code }
  | .schedulerAdd t => { k with tasks := k.tasks.schedulerAdd t }
  | .setRunning running => { k with tasks := { k.tasks with running := running } }
  | .setPolicy policy => { k with tasks := { k.tasks with policy := policy } }
  | .preemptDisable => { k with tasks := { k.tasks with preemptDisable := k.tasks.preemptDisable + 1 } }
  | .preemptEnable => { k with tasks := { k.tasks with preemptDisable := k.tasks.preemptDisable - 1 } }
  | .yield => { k with tasks := k.tasks.schedulerYield }
  | .sleep ticks => { k with tasks := k.tasks.sleepCurrent ticks }
  | .enterUserMode p => k.processEnterUserMode p

/-- What the callers see to: a task is queued once, `process_fork` and the jump to user mode
are given a process. -/
def Called (k : Kernel) : KernelOp → Prop
  | .schedulerAdd t => (k.tasks.table t).InUse ∧ t ∉ k.tasks.queue
  | .fork _ parent => (k.procs parent).InUse
  | .enterUserMode p => (k.procs p).InUse
  | _ => True

/-- The tables as `task_system_init`, `scheduler_init` and `process_system_init` leave them. -/
def Kernel.boot (policy : SchedulerPolicy) : Kernel where
  tasks :=
    { table := fun _ => ⟨0, .unused, 0, 0, 0, 0, none⟩, nextPid := 1, current := none, queue := [],
      policy := policy, running := false, preemptDisable := 0, totalTicks := 0 }
  procs := fun _ => ⟨0, 0, .unused, false, none, 0, none, [], 0⟩
  nextProcPid := 1
  lives := 0

/-- The runs from boot on whose steps all meet a condition. -/
inductive KernelRun (ok : Kernel → KernelOp → Prop) (policy : SchedulerPolicy) : List KernelOp → Kernel → Prop
  | boot : KernelRun ok policy [] (.boot policy)
  | step {ops : List KernelOp} {op : KernelOp} {k : Kernel} : KernelRun ok policy ops k → Called k op → ok k op →
      KernelRun ok policy (ops ++ [op]) (kernelStep k op)

end CapyOS
