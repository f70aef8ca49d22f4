import CapyOS.Kernel.Process
import CapyOS.Lib.Siblings

namespace CapyOS
open Lib

/-- What the process tree needs of a `struct process` beside its three links. `life` is not
in the source: it tells the processes apart that use a slot one after the other. -/
structure TreeProc where
  pid : Nat
  ppid : Nat
  state : ProcState
  addressSpace : Bool
  mainThread : Option TaskSlot
  life : Nat
  deriving DecidableEq, Repr

abbrev TreeProc.InUse (p : TreeProc) : Prop := p.state ≠ .unused

/-- `proc_table`, with the links of all processes as one tree. -/
structure ProcTable where
  procs : ProcSlot → TreeProc
  tree : Siblings ProcSlot
  nextPid : Nat
  lives : Nat

/-- What a call meets: `task_current`, what `task_create` and the address space functions
answer, and which address spaces are loaded. -/
structure TreeEnv where
  current : Option TaskSlot
  space : Bool
  thread : Option TaskSlot
  clone : Bool
  active : ProcSlot → Bool

/-- More links than a list of children has. -/
def processLinks : Nat := 129

namespace ProcTable
variable (t : ProcTable) (env : TreeEnv)

def update (i : ProcSlot) (f : TreeProc → TreeProc) : ProcTable :=
  { t with procs := Function.update t.procs i (f (t.procs i)) }

def processCurrent : Option ProcSlot :=
  match env.current with
  | none => none
  | some task => (List.finRange 128).find? fun i => (t.procs i).state ≠ .unused ∧ (t.procs i).mainThread = some task

def processByPid (pid : Nat) : Option ProcSlot :=
  (List.finRange 128).find? fun i => (t.procs i).state ≠ .unused ∧ (t.procs i).pid = pid

def processLinkChild (child : ProcSlot) (parent : Option ProcSlot) : ProcTable :=
  match parent with
  | none => { t.update child fun p => { p with ppid := 0 } with tree := t.tree.detach child }
  | some q => { t.update child fun p => { p with ppid := (t.procs q).pid } with tree := t.tree.link child q }

def processUnlinkChild (child : ProcSlot) : ProcTable :=
  match t.tree.parent child with
  | none => { t with tree := t.tree.detach child }
  | some q => { t with tree := t.tree.unlink processLinks child q }

/-- A slot after `proc_memset`, of the process that takes it. -/
def clear (i : ProcSlot) (p : TreeProc) : ProcTable :=
  { t with
    procs := Function.update t.procs i p
    tree := { t.tree.detach i with children := Function.update t.tree.children i none } }

def processCreateWithParent (parent : Option ProcSlot) : Option ProcSlot × ProcTable :=
  match (List.finRange 128).find? fun i => (t.procs i).state = .unused with
  | none => (none, t)
  | some i =>
    let p : TreeProc :=
      { pid := t.nextPid, ppid := (parent.map fun q => (t.procs q).pid).getD 0, state := .embryo,
        addressSpace := env.space, mainThread := none, life := t.lives }
    let t := { t with nextPid := (t.nextPid + 1) % 2 ^ 32, lives := t.lives + 1 }
    if env.space then
      match env.thread with
      | none => (none, t.clear i { p with addressSpace := false, state := .unused })
      | some task => (some i, (t.clear i { p with mainThread := some task }).processLinkChild i parent)
    else (none, t.clear i { p with state := .unused })

def processCreate : Option ProcSlot × ProcTable := t.processCreateWithParent env (t.processCurrent env)

def processCreateRoot : Option ProcSlot × ProcTable := t.processCreateWithParent env none

/-- The loop of `process_destroy` over the children. -/
def orphanFrom : Nat → Option ProcSlot → ProcTable → ProcTable
  | 0, _, t => t
  | _ + 1, none, t => t
  | n + 1, some child, t =>
    orphanFrom n (t.tree.nextSibling child)
      { t.update child fun p => { p with ppid := 0 } with tree := t.tree.detach child }

def processDestroy (i : ProcSlot) : ProcTable :=
  if (t.procs i).state = .unused then t
  else if (t.procs i).addressSpace ∧ env.active i then t
  else
    let t := orphanFrom processLinks (t.tree.children i) t
    let t := { t with tree := { t.tree with children := Function.update t.tree.children i none } }
    (t.processUnlinkChild i).update i fun p => { p with mainThread := none, addressSpace := false, state := .unused }

def processFork (parent : ProcSlot) : Option ProcSlot × ProcTable :=
  match t.processCreate env with
  | (none, t) => (none, t)
  | (some child, t) =>
    let t := (t.processUnlinkChild child).processLinkChild child (some parent)
    if (t.procs parent).addressSpace then
      if env.clone then (some child, t.update child fun p => { p with addressSpace := true })
      else (none, t.processDestroy env child)
    else (some child, t)

/-- `process_exit` up to `task_exit`. -/
def processExit : ProcTable :=
  match t.processCurrent env with
  | none => t
  | some i => t.update i fun p => { p with state := .zombie }

def processKill (pid : Nat) : Int × ProcTable :=
  match t.processByPid pid with
  | none => (-1, t)
  | some i =>
    if t.processCurrent env = some i ∨ ((t.procs i).mainThread ≠ none ∧ (t.procs i).mainThread = env.current) then
      (-2, t)
    else
      let t := t.update i fun p => { p with state := .zombie, mainThread := none }
      (0, if t.tree.parent i = none then t.processDestroy env i else t)

def processReapOrphans : ProcTable :=
  (List.finRange 128).foldl (fun t i =>
    if (t.procs i).state = .zombie ∧ t.tree.parent i = none then t.processDestroy env i else t) t

/-- `process_system_init`. -/
def boot : ProcTable where
  procs := fun _ => ⟨0, 0, .unused, false, none, 0⟩
  tree := ⟨fun _ => none, fun _ => none, fun _ => none⟩
  nextPid := 1
  lives := 0

end ProcTable

inductive TreeOp where
  | create (env : TreeEnv)
  | createRoot (env : TreeEnv)
  | fork (env : TreeEnv) (parent : ProcSlot)
  | exit (env : TreeEnv)
  | kill (env : TreeEnv) (pid : Nat)
  | destroy (env : TreeEnv) (p : ProcSlot)
  | reapOrphans (env : TreeEnv)

def treeStep (t : ProcTable) : TreeOp → ProcTable
  | .create env => (t.processCreate env).2
  | .createRoot env => (t.processCreateRoot env).2
  | .fork env parent => (t.processFork env parent).2
  | .exit env => t.processExit env
  | .kill env pid => (t.processKill env pid).2
  | .destroy env p => t.processDestroy env p
  | .reapOrphans env => t.processReapOrphans env

/-- The parent that `process_fork` is given is a process. -/
def TreeCalled (t : ProcTable) : TreeOp → Prop
  | .fork _ parent => (t.procs parent).InUse
  | _ => True

inductive TreeRun : List TreeOp → ProcTable → Prop
  | boot : TreeRun [] .boot
  | step {ops : List TreeOp} {op : TreeOp} {t : ProcTable} : TreeRun ops t → TreeCalled t op →
      TreeRun (ops ++ [op]) (treeStep t op)

end CapyOS
