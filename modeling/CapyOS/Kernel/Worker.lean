import CapyOS.Lib.Numerals

namespace CapyOS

abbrev workerQueueMax : Nat := 64

def workerPoolThreadMax : Nat := 4

/-- A `struct worker_item`. `ticket` is not in the source: it counts the jobs a pool took
before this one. -/
structure WorkerItem where
  func : Nat
  arg : Nat
  ticket : Nat
  deriving DecidableEq, Repr

/-- Where a thread stands between two turns at the lock. -/
inductive WorkerPhase where
  | check
  | parked
  | running (item : WorkerItem)
  | finishing
  | left
  deriving DecidableEq, Repr

/-- A thread, and if its task is `BLOCKED` on the pool. -/
structure Worker where
  phase : WorkerPhase
  blocked : Bool
  deriving DecidableEq, Repr

/-- A `struct worker_pool`. `waking` counts the calls that gave the lock back and have yet
to call `task_unblock_channel`. `accepted` and `started` are not in the source: they list
the jobs that `worker_pool_submit` took and those that a thread took off the queue. -/
structure WorkerPool where
  workers : List Worker
  activeThreads : Nat
  queue : Fin workerQueueMax → WorkerItem
  head : Fin workerQueueMax
  tail : Fin workerQueueMax
  count : Nat
  jobsCompleted : Nat
  running : Bool
  waking : Nat
  accepted : List WorkerItem
  started : List WorkerItem

namespace WorkerPool
variable (s : WorkerPool)

/-- `worker_pool_create`, when each of its threads is created. -/
def create (threadCount : Nat) : WorkerPool where
  workers := List.replicate (min (max threadCount 1) workerPoolThreadMax) ⟨.check, false⟩
  activeThreads := 0
  queue := fun _ => ⟨0, 0, 0⟩
  head := 0
  tail := 0
  count := 0
  jobsCompleted := 0
  running := true
  waking := 0
  accepted := []
  started := []

/-- `worker_pool_submit` up to where it gives the lock back. -/
def submit (func arg : Nat) : Int × WorkerPool :=
  if func = 0 then (-1, s)
  else if s.count ≥ workerQueueMax then (-1, s)
  else
    let item : WorkerItem := ⟨func, arg, s.accepted.length⟩
    (0, { s with
      queue := Function.update s.queue s.head item
      head := s.head + 1
      count := s.count + 1
      waking := s.waking + 1
      accepted := s.accepted ++ [item] })

/-- `task_unblock_channel`, which ends a submit or a shutdown. -/
def unblockChannel : WorkerPool :=
  if s.waking = 0 then s
  else { s with waking := s.waking - 1, workers := s.workers.map fun w => { w with blocked := false } }

def shutdown : WorkerPool := { s with running := false, waking := s.waking + 1 }

/-- The test that `worker_pool_drain` waits for. -/
def Drained : Prop := s.count = 0 ∧ s.activeThreads = 0

instance : Decidable s.Drained := inferInstanceAs (Decidable (s.count = 0 ∧ s.activeThreads = 0))

/-- A turn at the top of the loop, under the lock. -/
def checkQueue (i : Nat) (w : Worker) : WorkerPool :=
  if !s.running then { s with workers := s.workers.set i { w with phase := .left } }
  else if s.count = 0 then { s with workers := s.workers.set i ⟨.parked, true⟩ }
  else
    let item := s.queue s.tail
    { s with
      tail := s.tail + 1
      count := s.count - 1
      activeThreads := s.activeThreads + 1
      workers := s.workers.set i { w with phase := .running item }
      started := s.started ++ [item] }

/-- One step of `worker_thread_entry`. A thread may come back from `task_yield` without
having been woken: with no other task to run, it keeps the processor. -/
def workerThreadStep (i : Nat) : WorkerPool :=
  match s.workers[i]? with
  | none => s
  | some w =>
    match w.phase with
    | .check => s.checkQueue i w
    | .parked => { s with workers := s.workers.set i { w with phase := .check } }
    | .running _ =>
      { s with
        jobsCompleted := s.jobsCompleted + 1
        workers := s.workers.set i { w with phase := .finishing } }
    | .finishing =>
      { s with
        activeThreads := s.activeThreads - 1
        workers := s.workers.set i { w with phase := .check } }
    | .left => s

end WorkerPool

inductive WorkerOp where
  | submit (func arg : Nat)
  | shutdown
  | unblockChannel
  | thread (i : Nat)
  | drain
  deriving DecidableEq, Repr

def workerStep (s : WorkerPool) : WorkerOp → WorkerPool
  | .submit func arg => (s.submit func arg).2
  | .shutdown => s.shutdown
  | .unblockChannel => s.unblockChannel
  | .thread i => s.workerThreadStep i
  | .drain => s

/-- The runs of a new pool whose steps all meet a condition. -/
inductive WorkerRun (ok : WorkerPool → WorkerOp → Prop) (threadCount : Nat) : List WorkerOp → WorkerPool → Prop
  | create : WorkerRun ok threadCount [] (.create threadCount)
  | step {ops : List WorkerOp} {op : WorkerOp} {s : WorkerPool} : WorkerRun ok threadCount ops s → ok s op →
      WorkerRun ok threadCount (ops ++ [op]) (workerStep s op)

/-- Jobs wait, nobody is about to wake a thread, and no thread will come for them. -/
def WorkerPool.Stranded (s : WorkerPool) : Prop :=
  0 < s.count ∧ s.waking = 0 ∧ ∀ w ∈ s.workers, w.blocked ∨ w.phase = .left

instance (s : WorkerPool) : Decidable s.Stranded :=
  inferInstanceAs (Decidable (0 < s.count ∧ s.waking = 0 ∧ ∀ w ∈ s.workers, w.blocked ∨ w.phase = .left))

/-- A pool is shut down with nothing queued, and given no job from then on. -/
def ShutDownEmpty (s : WorkerPool) : WorkerOp → Prop
  | .submit func _ => func ≠ 0 → s.running = true
  | .shutdown => s.count = 0
  | _ => True

end CapyOS
