import CapyOS.Lib.Ring

namespace CapyOS
open Lib

abbrev pipeBufSize : Nat := 64 * 1024

instance : NeZero pipeBufSize := ⟨by decide⟩

def pipePollIn : Nat := 0x1

def pipePollOut : Nat := 0x4

def pipePollErr : Nat := 0x8

def pipePollHup : Nat := 0x10

/-- A `struct pipe`. The positions are kept below `PIPE_BUF_SIZE`. -/
structure PipeChannel where
  buffer : Fin pipeBufSize → UInt8
  readPos : Fin pipeBufSize
  writePos : Fin pipeBufSize
  count : Nat
  readOpen : Bool
  writeOpen : Bool

/-- What `pipe_create` makes of a slot. -/
def pipeFresh : PipeChannel := ⟨fun _ => 0, 0, 0, 0, true, true⟩

/-- The loop of `pipe_write`: the bytes, into the cells from the `i`-th on. -/
def pipeStore (pos : Fin pipeBufSize) : Nat → List UInt8 → (Fin pipeBufSize → UInt8) → Fin pipeBufSize → UInt8
  | _, [], buffer => buffer
  | i, c :: src, buffer => pipeStore pos (i + 1) src (Function.update buffer (cell pos i) c)

namespace PipeChannel
variable (p : PipeChannel)

/-- `pipe_read`, with the bytes it returns in place of their number and `none` for -1. -/
def read (len : Nat) : Option (List UInt8) × PipeChannel :=
  if !p.readOpen then (none, p)
  else if p.count = 0 then (if !p.writeOpen then some [] else none, p)
  else
    let avail := if p.count > len then len else p.count
    (some ((List.range avail).map fun i => p.buffer (cell p.readPos i)),
      { p with readPos := cell p.readPos avail, count := p.count - avail })

/-- `pipe_write` of a buffer of so many bytes as `src` has, with `none` for -1. The length
is cut to 32 bits. -/
def write (src : List UInt8) : Option Nat × PipeChannel :=
  if !p.writeOpen then (none, p)
  else if !p.readOpen then (none, p)
  else
    let space := pipeBufSize - p.count
    if space = 0 then (none, p)
    else
      let toWrite := if src.length % 2 ^ 32 > space then space else src.length % 2 ^ 32
      (some toWrite,
        { p with
          buffer := pipeStore p.writePos 0 (src.take toWrite) p.buffer
          writePos := cell p.writePos toWrite
          count := p.count + toWrite })

def closeRead : PipeChannel := { p with readOpen := false }

def closeWrite : PipeChannel := { p with writeOpen := false }

/-- `pipe_poll_events` of the descriptor of one end. -/
def pollEvents (writeEnd : Bool) : Nat :=
  if !p.readOpen && !p.writeOpen then 0
  else if writeEnd then
    if !p.writeOpen then 0
    else if !p.readOpen then pipePollErr
    else if p.count < pipeBufSize then pipePollOut else 0
  else if !p.readOpen then 0
  else (if p.count > 0 then pipePollIn else 0) ||| (if !p.writeOpen then pipePollHup else 0)

end PipeChannel

inductive PipeOp where
  | read (len : Nat)
  | write (src : List UInt8)
  | closeRead
  | closeWrite

/-- A pipe with the bytes that were reported written and the bytes that were returned. -/
structure PipeTrace where
  pipe : PipeChannel
  written : List UInt8
  returned : List UInt8

def PipeTrace.step (t : PipeTrace) : PipeOp → PipeTrace
  | .read len => { t with pipe := (t.pipe.read len).2, returned := t.returned ++ (t.pipe.read len).1.getD [] }
  | .write src =>
    { t with pipe := (t.pipe.write src).2, written := t.written ++ src.take ((t.pipe.write src).1.getD 0) }
  | .closeRead => { t with pipe := t.pipe.closeRead }
  | .closeWrite => { t with pipe := t.pipe.closeWrite }

/-- Calls on one pipe, in any order. -/
def PipeTrace.run (t : PipeTrace) (ops : List PipeOp) : PipeTrace := ops.foldl PipeTrace.step t

def pipeTrace (ops : List PipeOp) : PipeTrace := PipeTrace.run ⟨pipeFresh, [], []⟩ ops

/-- What other tasks make of a pipe in one turn. -/
def PipeChannel.turn (p : PipeChannel) (ops : List PipeOp) : PipeChannel := (PipeTrace.run ⟨p, [], []⟩ ops).pipe

/-- The loop of `sys_write` on a pipe, over so many turns at most: `others k` is what the
other tasks do in the `k`-th `task_yield`. -/
def sysWriteLoop (others : Nat → List PipeOp) : Nat → Nat → Nat → List UInt8 → PipeChannel → Option (Int × PipeChannel)
  | 0, _, _, _, _ => none
  | n + 1, k, written, src, p =>
    if src = [] then some (written, p)
    else
      let (wr, p) := p.write src
      if wr.getD 0 > 0 then sysWriteLoop others n k (written + wr.getD 0) (src.drop (wr.getD 0)) p
      else if !p.readOpen then some (if written > 0 then written else -1, p)
      else sysWriteLoop others n (k + 1) written src (p.turn (others k))

/-- `sys_write` to the write end of a pipe. -/
def sysWritePipe (others : Nat → List PipeOp) (n : Nat) (src : List UInt8) (p : PipeChannel) : Option (Int × PipeChannel) :=
  if src = [] then some (0, p) else sysWriteLoop others n 0 0 src p

end CapyOS
