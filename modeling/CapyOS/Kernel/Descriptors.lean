import CapyOS.Kernel.ProcessTree

namespace CapyOS
open Function

/-- A place among the `PROCESS_FD_MAX` of a process. -/
abbrev Fd := Fin 32

/-- A place among the `PIPE_MAX` of the pipe table. -/
abbrev PipeId := Fin 32

inductive PipeSide where
  | read | write
  deriving DecidableEq, Repr

/-- A `struct file_descriptor`. A file is named by its place among those that `vfs_open`
returned. -/
inductive FileDescriptor where
  | free
  | vfs (file : Nat)
  | pipe (id : PipeId) (side : PipeSide)
  deriving DecidableEq, Repr

structure Pipe where
  readOpen : Bool
  writeOpen : Bool
  deriving DecidableEq, Repr

def Pipe.isOpen (p : Pipe) : PipeSide → Bool
  | .read => p.readOpen
  | .write => p.writeOpen

def Pipe.close (p : Pipe) : PipeSide → Pipe
  | .read => { p with readOpen := false }
  | .write => { p with writeOpen := false }

/-- The descriptors of all processes and what they refer to. `opened` counts the files that
`vfs_open` returned and `closed` lists those that `vfs_close` was given. -/
structure Descriptors where
  table : ProcTable
  fds : ProcSlot → Fd → FileDescriptor
  pipes : PipeId → Pipe
  opened : Nat
  closed : List Nat

namespace Descriptors
variable (s : Descriptors) (env : TreeEnv)

def setFd (p : ProcSlot) (fd : Fd) (d : FileDescriptor) : Descriptors :=
  { s with fds := update s.fds p (update (s.fds p) fd d) }

def vfsClose (file : Nat) : Descriptors := { s with closed := s.closed ++ [file] }

/-- `pipe_close_read` and `pipe_close_write`. -/
def pipeClose (id : PipeId) (side : PipeSide) : Descriptors :=
  { s with pipes := update s.pipes id ((s.pipes id).close side) }

/-- The slot that `pipe_create` takes. -/
def pipeSlot : Option PipeId :=
  (List.finRange 32).find? fun i => ¬(s.pipes i).readOpen ∧ ¬(s.pipes i).writeOpen

def pipeCreate : Option PipeId × Descriptors :=
  match s.pipeSlot with
  | none => (none, s)
  | some id => (some id, { s with pipes := update s.pipes id ⟨true, true⟩ })

def processFdAlloc (p : ProcSlot) : Option Fd :=
  (List.finRange 32).find? fun fd => 3 ≤ fd.val ∧ s.fds p fd = .free

/-- What a descriptor refers to is released, by `process_fd_free` as by `sys_close`. -/
def release : FileDescriptor → Descriptors
  | .free => s
  | .vfs file => s.vfsClose file
  | .pipe id side => s.pipeClose id side

def processFdFree (p : ProcSlot) (fd : Fd) : Descriptors := (s.release (s.fds p fd)).setFd p fd .free

/-- The loop that frees descriptors of a process one after the other. -/
def freeFds (p : ProcSlot) (l : List Fd) : Descriptors := l.foldl (fun s fd => s.processFdFree p fd) s

/-- `found` says whether `vfs_open` returns a file. -/
def sysOpen (found : Bool) : Int × Descriptors :=
  if found then
    let file := s.opened
    let s := { s with opened := s.opened + 1 }
    match s.table.processCurrent env with
    | none => (-1, s.vfsClose file)
    | some p =>
      match s.processFdAlloc p with
      | none => (-1, s.vfsClose file)
      | some fd => (fd.val, s.setFd p fd (.vfs file))
  else (-1, s)

def sysPipe (userFds : Bool) : Int × Descriptors :=
  if userFds then
    match s.table.processCurrent env with
    | none => (-1, s)
    | some p =>
      match s.pipeCreate with
      | (none, s) => (-1, s)
      | (some id, s) =>
        match s.processFdAlloc p with
        | none => (-1, (s.pipeClose id .read).pipeClose id .write)
        | some readFd =>
          let s := s.setFd p readFd (.pipe id .read)
          match s.processFdAlloc p with
          | none => (-1, ((s.processFdFree p readFd).pipeClose id .read).pipeClose id .write)
          | some writeFd => (0, s.setFd p writeFd (.pipe id .write))
  else (-1, s)

def sysClose (fd : Int) : Int × Descriptors :=
  match s.table.processCurrent env with
  | none => (-1, s)
  | some p =>
    if h : 0 ≤ fd ∧ fd < 32 then
      let fd : Fd := ⟨fd.toNat, by omega⟩
      if s.fds p fd = .free then (-1, s)
      -- the descriptor is released here and once more by `process_fd_free`
      else (0, (s.release (s.fds p fd)).processFdFree p fd)
    else (-1, s)

/-- `process_create` clears the slot that it takes. -/
def clearFds : ProcSlot → Fd → FileDescriptor :=
  match (List.finRange 128).find? fun i => (s.table.procs i).state = .unused with
  | none => s.fds
  | some i => update s.fds i fun _ => .free

def processCreate : Descriptors := { s with table := (s.table.processCreate env).2, fds := s.clearFds }

def processCreateRoot : Descriptors := { s with table := (s.table.processCreateRoot env).2, fds := s.clearFds }

def processFork (parent : ProcSlot) : Descriptors :=
  match s.table.processFork env parent with
  | (none, table) => { s with table := table, fds := s.clearFds }
  | (some child, table) =>
    { s with table := table, fds := update s.clearFds child (s.clearFds parent) }

def processExit : Descriptors :=
  match s.table.processCurrent env with
  | none => s
  | some p => { s with table := s.table.processExit env }.freeFds p (List.finRange 32)

/-- Whether `process_destroy` gets past its guards. -/
def Destroys (p : ProcSlot) : Prop :=
  (s.table.procs p).state ≠ .unused ∧ ¬((s.table.procs p).addressSpace ∧ env.active p)

instance (p : ProcSlot) : Decidable (s.Destroys env p) := by
  unfold Destroys
  infer_instance

def processDestroy (p : ProcSlot) : Descriptors :=
  if s.Destroys env p then
    { s with table := s.table.processDestroy env p }.freeFds p (List.finRange 32)
  else s

def processKill (pid : Nat) : Int × Descriptors :=
  match s.table.processKill env pid with
  | (0, table) =>
    match s.table.processByPid pid with
    | none => (0, s)
    -- the descriptors are free when `process_destroy` comes to them
    | some p => (0, { s with table := table }.freeFds p (List.finRange 32))
  | (rc, table) => (rc, { s with table := table })

/-- `process_system_init` and `pipe_system_init`. -/
def boot : Descriptors where
  table := .boot
  fds := fun _ _ => .free
  pipes := fun _ => ⟨false, false⟩
  opened := 0
  closed := []

end Descriptors

inductive FdOp where
  | create (env : TreeEnv)
  | createRoot (env : TreeEnv)
  | sysOpen (env : TreeEnv) (found : Bool)
  | sysPipe (env : TreeEnv) (userFds : Bool)
  | sysClose (env : TreeEnv) (fd : Int)
  | fork (env : TreeEnv) (parent : ProcSlot)
  | exit (env : TreeEnv)
  | kill (env : TreeEnv) (pid : Nat)
  | destroy (env : TreeEnv) (p : ProcSlot)

def fdStep (s : Descriptors) : FdOp → Descriptors
  | .create env => s.processCreate env
  | .createRoot env => s.processCreateRoot env
  | .sysOpen env found => (s.sysOpen env found).2
  | .sysPipe env userFds => (s.sysPipe env userFds).2
  | .sysClose env fd => (s.sysClose env fd).2
  | .fork env parent => s.processFork env parent
  | .exit env => s.processExit env
  | .kill env pid => (s.processKill env pid).2
  | .destroy env p => s.processDestroy env p

end CapyOS
