import CapyOS.Lib.Bytes
import CapyOS.Lib.Slots

namespace CapyOS
open Lib Function

namespace Tmpfs

def maxFiles : Nat := 16
def maxHandles : Nat := 32
def maxName : Nat := 128
def maxFileSize : Nat := 4096
def fdBase : Int := 0xA000

def enoent : Int := 2
def ebadf : Int := 9
def efault : Int := 14
def eexist : Int := 17
def einval : Int := 22
def emfile : Int := 24
def enospc : Int := 28
def enametoolong : Int := 36

def oRdonly : BitVec 32 := 0x0000#32
def oWronly : BitVec 32 := 0x0001#32
def oAccmode : BitVec 32 := 0x0003#32
def oCreat : BitVec 32 := 0x0040#32
def oExcl : BitVec 32 := 0x0080#32
def oTrunc : BitVec 32 := 0x0200#32
def oAppend : BitVec 32 := 0x0400#32
def oNonblock : BitVec 32 := 0x0800#32
def oCloexec : BitVec 32 := 0x80000#32

def knownFlags : BitVec 32 :=
  oAccmode ||| oCreat ||| oExcl ||| oTrunc ||| oAppend ||| oNonblock ||| oCloexec

def hasFlag (flags bit : BitVec 32) : Bool := flags &&& bit != 0#32

end Tmpfs

open Tmpfs

/-- A string up to its terminator. -/
abbrev CString : Type := List Byte

structure TmpfsFile where
  inUse : Bool
  unlinked : Bool
  refcount : Nat
  size : Nat
  name : CString
  content : Bytes

structure TmpfsHandle where
  inUse : Bool
  fileIdx : Fin maxFiles
  pos : Nat
  flags : BitVec 32

/-- `g_files` and `g_handles`. -/
structure Tmpfs where
  files : Fin maxFiles → TmpfsFile
  handles : Fin maxHandles → TmpfsHandle

/-- What a call returns, and the bytes it puts into the caller's buffer. -/
structure TmpfsReply where
  value : Int
  data : List Byte
  deriving DecidableEq

namespace Tmpfs

def reply (value : Int) : TmpfsReply := ⟨value, []⟩

def closedHandle : TmpfsHandle :=
  { inUse := false, fileIdx := ⟨0, by decide⟩, pos := 0, flags := 0#32 }

variable (t : Tmpfs)

def setFile (i : Fin maxFiles) (f : TmpfsFile) : Tmpfs :=
  { t with files := update t.files i f }

def setHandle (h : Fin maxHandles) (e : TmpfsHandle) : Tmpfs :=
  { t with handles := update t.handles h e }

/-- The contents keep what they held. -/
def linuxTmpfsReset : Tmpfs where
  files i := { t.files i with inUse := false, unlinked := false, refcount := 0, size := 0, name := [] }
  handles _ := closedHandle

/-- `"/tmp/"`. -/
def tmpfsPath : CString := [0x2F, 0x74, 0x6D, 0x70, 0x2F]

def slashByte : Byte := 0x2F

/-- The name after `/tmp/`. -/
def validatePath (path : CString) : Option CString :=
  if path.take tmpfsPath.length ≠ tmpfsPath then none
  else
    let name := path.drop tmpfsPath.length
    if name = [] then none
    else if slashByte ∈ name then none
    else some name

def findFileByName (name : CString) : Option (Fin maxFiles) :=
  findSlot t.files fun f => f.inUse && !f.unlinked && f.name == name

def allocFileSlot : Option (Fin maxFiles) := findSlot t.files fun f => !f.inUse

def allocHandleSlot : Option (Fin maxHandles) := findSlot t.handles fun h => !h.inUse

/-- The handle slot that a descriptor stands for. -/
def handleSlot (fd : Int) : Option (Fin maxHandles) :=
  if h : 0 ≤ fd - fdBase ∧ (fd - fdBase).toNat < maxHandles then some ⟨(fd - fdBase).toNat, h.2⟩
  else none

def handleFromFd (fd : Int) : Option (Fin maxHandles) :=
  (handleSlot fd).filter fun h => (t.handles h).inUse

def maybeReapFile (i : Fin maxFiles) : Tmpfs :=
  let f := t.files i
  if f.unlinked = true ∧ f.refcount = 0 then
    t.setFile i { f with inUse := false, unlinked := false, size := 0, name := [] }
  else t

/-- The checks of the arguments of `linux_tmpfs_open`: the name or an error. -/
def openArguments (path : Option CString) (flags : BitVec 32) : Except Int CString :=
  match path with
  | none => .error efault
  | some path =>
    if hasFlag flags (~~~knownFlags) then .error einval
    else if flags &&& oAccmode = oAccmode then .error einval
    else if hasFlag flags oExcl && !hasFlag flags oCreat then .error einval
    else
      match validatePath path with
      | none => .error enoent
      | some name => if maxName ≤ name.length then .error enametoolong else .ok name

/-- The end of `linux_tmpfs_open`, once file `i` is there. -/
def openHandle (name : CString) (flags : BitVec 32) (i : Fin maxFiles) : TmpfsReply × Tmpfs :=
  let f := t.files i
  match t.allocHandleSlot with
  | none =>
    if f.refcount = 0 ∧ hasFlag flags oCreat = true ∧ t.findFileByName name = some i then
      (reply (-emfile), t.setFile i { f with inUse := false, name := [] })
    else (reply (-emfile), t)
  | some h =>
    let t := t.setFile i { f with refcount := f.refcount + 1 }
    (reply (fdBase + h.val), t.setHandle h
      { inUse := true, fileIdx := i, pos := if hasFlag flags oAppend then f.size else 0, flags := flags })

def linuxTmpfsOpen (path : Option CString) (flags : BitVec 32) : TmpfsReply × Tmpfs :=
  match openArguments path flags with
  | .error e => (reply (-e), t)
  | .ok name =>
    match t.findFileByName name with
    | none =>
      if hasFlag flags oCreat then
        match t.allocFileSlot with
        | none => (reply (-enospc), t)
        | some i =>
          let f := { t.files i with inUse := true, unlinked := false, refcount := 0, size := 0, name := name }
          (t.setFile i f).openHandle name flags i
      else (reply (-enoent), t)
    | some i =>
      if hasFlag flags oCreat && hasFlag flags oExcl then (reply (-eexist), t)
      else if hasFlag flags oTrunc then
        (t.setFile i { t.files i with size := 0 }).openHandle name flags i
      else t.openHandle name flags i

def linuxTmpfsClose (fd : Int) : TmpfsReply × Tmpfs :=
  match t.handleFromFd fd with
  | none => (reply (-ebadf), t)
  | some h =>
    let i := (t.handles h).fileIdx
    let t := t.setHandle h closedHandle
    let t := t.setFile i { t.files i with refcount := (t.files i).refcount - 1 }
    (reply 0, t.maybeReapFile i)

/-- `buf` is false for a null buffer. -/
def linuxTmpfsReadFd (fd : Int) (buf : Bool) (len : Nat) : TmpfsReply × Tmpfs :=
  match t.handleFromFd fd with
  | none => (reply (-ebadf), t)
  | some h =>
    let e := t.handles h
    let f := t.files e.fileIdx
    if len = 0 then (reply 0, t)
    else if buf = false then (reply (-efault), t)
    else if e.flags &&& oAccmode = oWronly then (reply (-ebadf), t)
    else if f.size ≤ e.pos then (reply 0, t)
    else
      let n := min (f.size - e.pos) len
      (⟨n, (List.range n).map (fun k => f.content (e.pos + k))⟩,
        t.setHandle h { e with pos := e.pos + n })

/-- The store at `at`, once the handle's position is there. -/
def writeAt (h : Fin maxHandles) (buf : Bytes) (len : Nat) : TmpfsReply × Tmpfs :=
  let e := t.handles h
  let f := t.files e.fileIdx
  if maxFileSize ≤ e.pos then (reply (-enospc), t)
  else
    let n := min len (maxFileSize - e.pos)
    let t := t.setFile e.fileIdx
      { f with content := blit f.content e.pos n buf, size := max f.size (e.pos + n) }
    let t := t.setHandle h { e with pos := e.pos + n }
    if n = 0 then (reply (-enospc), t) else (reply n, t)

def linuxTmpfsWriteFd (fd : Int) (buf : Option Bytes) (len : Nat) : TmpfsReply × Tmpfs :=
  match t.handleFromFd fd with
  | none => (reply (-ebadf), t)
  | some h =>
    let e := t.handles h
    if len = 0 then (reply 0, t)
    else
      match buf with
      | none => (reply (-efault), t)
      | some buf =>
        if e.flags &&& oAccmode = oRdonly then (reply (-ebadf), t)
        else if hasFlag e.flags oAppend then
          (t.setHandle h { e with pos := (t.files e.fileIdx).size }).writeAt h buf len
        else t.writeAt h buf len

/-- The sum of two `int64_t`. -/
def int64Add (a b : Int) : Int := (a + b).bmod (2 ^ 64)

/-- The position that `whence` and `offset` ask for. -/
def seekTarget (pos size : Nat) (offset whence : Int) : Option Int :=
  if whence = 0 then some offset
  else if whence = 1 then some (int64Add pos offset)
  else if whence = 2 then some (int64Add size offset)
  else if whence = 3 ∨ whence = 4 then some offset
  else none

def linuxTmpfsLseekFd (fd offset whence : Int) : TmpfsReply × Tmpfs :=
  match t.handleFromFd fd with
  | none => (reply (-ebadf), t)
  | some h =>
    let e := t.handles h
    match seekTarget e.pos (t.files e.fileIdx).size offset whence with
    | none => (reply (-einval), t)
    | some newPos =>
      if newPos < 0 then (reply (-einval), t)
      else (reply newPos, t.setHandle h { e with pos := newPos.toNat })

def linuxTmpfsUnlink (path : Option CString) : TmpfsReply × Tmpfs :=
  match path with
  | none => (reply (-efault), t)
  | some path =>
    match validatePath path with
    | none => (reply (-enoent), t)
    | some name =>
      match t.findFileByName name with
      | none => (reply (-enoent), t)
      | some i =>
        (reply 0, (t.setFile i { t.files i with unlinked := true, name := [] }).maybeReapFile i)

end Tmpfs

inductive TmpfsCall where
  | openFile (path : Option CString) (flags : BitVec 32)
  | close (fd : Int)
  | readFd (fd : Int) (buf : Bool) (len : Nat)
  | writeFd (fd : Int) (buf : Option Bytes) (len : Nat)
  | lseekFd (fd offset whence : Int)
  | unlink (path : Option CString)

def tmpfsStep (t : Tmpfs) : TmpfsCall → TmpfsReply × Tmpfs
  | .openFile path flags => t.linuxTmpfsOpen path flags
  | .close fd => t.linuxTmpfsClose fd
  | .readFd fd buf len => t.linuxTmpfsReadFd fd buf len
  | .writeFd fd buf len => t.linuxTmpfsWriteFd fd buf len
  | .lseekFd fd offset whence => t.linuxTmpfsLseekFd fd offset whence
  | .unlink path => t.linuxTmpfsUnlink path

/-- The replies to a sequence of calls, and the state after it. -/
def tmpfsRun (t : Tmpfs) : List TmpfsCall → List TmpfsReply × Tmpfs
  | [] => ([], t)
  | c :: cs =>
    let r := tmpfsStep t c
    let rest := tmpfsRun r.2 cs
    (r.1 :: rest.1, rest.2)

end CapyOS

/-! The files that `/tmp` stands for: byte arrays with a name as long as they are
linked, and handles with a position. A byte that was never written reads as zero. -/

namespace CapyOS
open Lib Tmpfs

structure PosixFile where
  name : Option CString
  bytes : List Byte

structure PosixHandle where
  file : Fin maxFiles
  pos : Nat
  flags : BitVec 32

@[ext] structure PosixTmp where
  files : Fin maxFiles → Option PosixFile
  handles : Fin maxHandles → Option PosixHandle

namespace PosixTmp
variable (a : PosixTmp)

def empty : PosixTmp := ⟨fun _ => none, fun _ => none⟩

def setFile (i : Fin maxFiles) (f : Option PosixFile) : PosixTmp :=
  { a with files := Function.update a.files i f }

def setHandle (h : Fin maxHandles) (e : Option PosixHandle) : PosixTmp :=
  { a with handles := Function.update a.handles h e }

def fileAt (i : Fin maxFiles) : PosixFile := (a.files i).getD ⟨none, []⟩

def named (name : CString) : Option (Fin maxFiles) :=
  findSlot a.files fun f => f.any fun f => f.name == some name

def openCount (i : Fin maxFiles) : Nat := slotCount a.handles fun e => e.any fun e => e.file == i

def handleOf (fd : Int) : Option (Fin maxHandles × PosixHandle) :=
  (handleSlot fd).bind fun h => (a.handles h).map fun e => (h, e)

/-- A file without a name goes with its last handle. -/
def release (i : Fin maxFiles) : PosixTmp :=
  if (a.fileAt i).name = none ∧ a.openCount i = 0 then a.setFile i none else a

/-- Open a handle on `f` in slot `i`; without a free handle nothing changes. -/
def openOn (flags : BitVec 32) (i : Fin maxFiles) (f : PosixFile) : TmpfsReply × PosixTmp :=
  match findSlot a.handles Option.isNone with
  | none => (reply (-emfile), a)
  | some h =>
    (reply (fdBase + h.val), (a.setFile i (some f)).setHandle h
      (some ⟨i, if hasFlag flags oAppend then f.bytes.length else 0, flags⟩))

def openFile (path : Option CString) (flags : BitVec 32) : TmpfsReply × PosixTmp :=
  match openArguments path flags with
  | .error e => (reply (-e), a)
  | .ok name =>
    match a.named name with
    | none =>
      if hasFlag flags oCreat then
        match findSlot a.files Option.isNone with
        | none => (reply (-enospc), a)
        | some i => a.openOn flags i ⟨some name, []⟩
      else (reply (-enoent), a)
    | some i =>
      if hasFlag flags oCreat && hasFlag flags oExcl then (reply (-eexist), a)
      else if hasFlag flags oTrunc then a.openOn flags i { a.fileAt i with bytes := [] }
      else a.openOn flags i (a.fileAt i)

def close (fd : Int) : TmpfsReply × PosixTmp :=
  match a.handleOf fd with
  | none => (reply (-ebadf), a)
  | some (h, e) => (reply 0, (a.setHandle h none).release e.file)

def read (fd : Int) (buf : Bool) (len : Nat) : TmpfsReply × PosixTmp :=
  match a.handleOf fd with
  | none => (reply (-ebadf), a)
  | some (h, e) =>
    if len = 0 then (reply 0, a)
    else if buf = false then (reply (-efault), a)
    else if e.flags &&& oAccmode = oWronly then (reply (-ebadf), a)
    else
      let data := ((a.fileAt e.file).bytes.drop e.pos).take len
      (⟨data.length, data⟩, a.setHandle h (some { e with pos := e.pos + data.length }))

/-- The array with `n` bytes of `buf` from `pos` on; a gap reads as zeros. -/
def overwrite (bytes : List Byte) (pos n : Nat) (buf : Bytes) : List Byte :=
  (List.range (max bytes.length (pos + n))).map fun k =>
    if pos ≤ k ∧ k < pos + n then buf (k - pos) else bytes.getD k 0

def write (fd : Int) (buf : Option Bytes) (len : Nat) : TmpfsReply × PosixTmp :=
  match a.handleOf fd with
  | none => (reply (-ebadf), a)
  | some (h, e) =>
    if len = 0 then (reply 0, a)
    else
      match buf with
      | none => (reply (-efault), a)
      | some buf =>
        if e.flags &&& oAccmode = oRdonly then (reply (-ebadf), a)
        else
          let f := a.fileAt e.file
          let pos := if hasFlag e.flags oAppend then f.bytes.length else e.pos
          if maxFileSize ≤ pos then (reply (-enospc), a)
          else
            let n := min len (maxFileSize - pos)
            (reply n, (a.setFile e.file (some { f with bytes := overwrite f.bytes pos n buf })).setHandle h
              (some { e with pos := pos + n }))

def seek (fd offset whence : Int) : TmpfsReply × PosixTmp :=
  match a.handleOf fd with
  | none => (reply (-ebadf), a)
  | some (h, e) =>
    match seekTarget e.pos (a.fileAt e.file).bytes.length offset whence with
    | none => (reply (-einval), a)
    | some newPos =>
      if newPos < 0 then (reply (-einval), a)
      else (reply newPos, a.setHandle h (some { e with pos := newPos.toNat }))

def unlink (path : Option CString) : TmpfsReply × PosixTmp :=
  match path with
  | none => (reply (-efault), a)
  | some path =>
    match validatePath path with
    | none => (reply (-enoent), a)
    | some name =>
      match a.named name with
      | none => (reply (-enoent), a)
      | some i => (reply 0, (a.setFile i (some { a.fileAt i with name := none })).release i)

end PosixTmp

def posixStep (a : PosixTmp) : TmpfsCall → TmpfsReply × PosixTmp
  | .openFile path flags => a.openFile path flags
  | .close fd => a.close fd
  | .readFd fd buf len => a.read fd buf len
  | .writeFd fd buf len => a.write fd buf len
  | .lseekFd fd offset whence => a.seek fd offset whence
  | .unlink path => a.unlink path

def posixRun (a : PosixTmp) : List TmpfsCall → List TmpfsReply × PosixTmp
  | [] => ([], a)
  | c :: cs =>
    let r := posixStep a c
    let rest := posixRun r.2 cs
    (r.1 :: rest.1, rest.2)

namespace Tmpfs

def viewFile (f : TmpfsFile) : Option PosixFile :=
  if f.inUse then
    some ⟨if f.unlinked then none else some f.name, (List.range f.size).map f.content⟩
  else none

def viewHandle (e : TmpfsHandle) : Option PosixHandle :=
  if e.inUse then some ⟨e.fileIdx, e.pos, e.flags⟩ else none

/-- What the tables stand for. -/
def view (t : Tmpfs) : PosixTmp where
  files i := viewFile (t.files i)
  handles h := viewHandle (t.handles h)

end Tmpfs

end CapyOS
