import CapyOS.Kernel.Process

namespace CapyOS

/-- Where a `process_wait` stands between two turns: in its first loop, in its second, or
at its end. -/
inductive WaitPhase where
  | polling | destroying | returned
  deriving DecidableEq, Repr

/-- A call of `process_wait` that found a process. `life` is not in the source: it names
the process that had the pid when the call started. -/
structure WaitCall where
  pid : Nat
  slot : ProcSlot
  life : Nat
  phase : WaitPhase
  deriving DecidableEq, Repr

/-- The kernel and the calls of `process_wait` so far. `delivered` lists which call wrote the
exit code of which process, and `destroyed` which call freed the slot of which. -/
structure Waiting where
  kernel : Kernel
  calls : List WaitCall
  delivered : List (Nat × Nat × Int)
  destroyed : List (Nat × Nat)

namespace Waiting
variable (s : Waiting) (env : ProcEnv) (c : Nat)

/-- The second loop of `process_wait` up to where it yields or returns. -/
def destroyTurn (w : WaitCall) : Waiting :=
  if (s.kernel.procs w.slot).state = .unused then
    { s with calls := s.calls.set c { w with phase := .returned } }
  else
    let kernel := s.kernel.processDestroy env w.slot
    if (kernel.procs w.slot).state = .unused then
      { s with
        kernel := kernel
        calls := s.calls.set c { w with phase := .returned }
        destroyed := s.destroyed ++ [(c, (s.kernel.procs w.slot).life)] }
    else { s with kernel := kernel, calls := s.calls.set c { w with phase := .destroying } }

/-- A turn of `process_wait`, from the test of a loop to the next yield or the end. -/
def turn : Waiting :=
  match s.calls[c]? with
  | none => s
  | some w =>
    match w.phase with
    | .polling =>
      if (s.kernel.procs w.slot).state = .zombie then
        let p := s.kernel.procs w.slot
        destroyTurn { s with delivered := s.delivered ++ [(c, p.life, p.exitCode)] } env c w
      else s
    | .destroying => s.destroyTurn env c w
    | .returned => s

/-- `process_wait` up to where it first yields or returns. -/
def processWait (pid : Nat) : Waiting :=
  match s.kernel.processByPid pid with
  | none => s
  | some i =>
    turn { s with calls := s.calls ++ [⟨pid, i, (s.kernel.procs i).life, .polling⟩] } env s.calls.length

/-- A call waits for the process in this slot. -/
def Awaited (i : ProcSlot) : Prop := ∃ w ∈ s.calls, w.phase ≠ .returned ∧ w.slot = i

end Waiting

inductive WaitOp where
  | kernel (op : KernelOp)
  | wait (env : ProcEnv) (pid : Nat)
  | turn (env : ProcEnv) (c : Nat)

def waitStep (s : Waiting) : WaitOp → Waiting
  | .kernel op => { s with kernel := kernelStep s.kernel op }
  | .wait env pid => s.processWait env pid
  | .turn env c => s.turn env c

/-- The runs from boot on whose steps all meet a condition. -/
inductive WaitRun (ok : Waiting → WaitOp → Prop) (policy : SchedulerPolicy) : List WaitOp → Waiting → Prop
  | boot : WaitRun ok policy [] ⟨.boot policy, [], [], []⟩
  | step {ops : List WaitOp} {op : WaitOp} {s : Waiting} : WaitRun ok policy ops s → ok s op →
      WaitRun ok policy (ops ++ [op]) (waitStep s op)

/-- Nothing but a `process_wait` frees a process that one waits for, and no two wait for the
same process. -/
def Spared (s : Waiting) : WaitOp → Prop
  | .kernel op => ∀ i, s.Awaited i → ((kernelStep s.kernel op).procs i).InUse
  | .wait _ pid => ∀ i, s.kernel.processByPid pid = some i → ¬ s.Awaited i
  | .turn _ _ => True

end CapyOS
