import CapyOS.Fs.Vfs

namespace CapyOS
open Lib

/-- Who opened a file, the inode as it was then, and the flags. -/
structure Opening where
  user : Option User
  inode : VInode
  flags : BitVec 32

/-- The VFS and what its users have got from it: the dentries of lookups that
were not given back, and how each file was opened. -/
structure VfsSession where
  vfs : Vfs
  held : List Nat
  opening : Nat → Option Opening

inductive VfsCall where
  | lookup (path : Name)
  | put (d : Nat)
  | create (path : Name) (mode : BitVec 16) (info : Option VfsMetadata)
  | open (path : Name) (flags : BitVec 32)
  | close (f : Nat)
  | read (f size : Nat)
  | write (f : Nat) (src : Bytes) (size : Nat)
  | listdir (path : Name) (cb : Name → BitVec 16 → Bool)
  | unlink (path : Name)
  | rmdir (path : Name)
  | rename (srcPath dstPath : Name)
  | statPath (path : Name)
  | setMetadata (path : Name) (info : VfsMetadata)

/-- A call, the user of the session it is made in, and what the allocator can
give it. -/
structure VfsStep where
  heap : Heap
  user : Option User
  call : VfsCall

section
variable (m : CapySuper)

/-- `put` is what callers of `vfs_lookup` do with the dentry once they are done:
`if (d->refcount) d->refcount--`. -/
def VfsStep.run (s : VfsSession) (x : VfsStep) : VfsSession :=
  match x.call with
  | .lookup path =>
    let r := vfsLookup x.heap m s.vfs path
    { s with vfs := r.2, held := r.1.toList ++ s.held }
  | .put d =>
    if d ∈ s.held then { s with vfs := s.vfs.release d, held := s.held.erase d } else s
  | .create path mode info =>
    { s with vfs := (vfsCreate x.heap m x.user s.vfs path mode info).2 }
  | .open path flags =>
    let r := vfsOpen x.heap m x.user s.vfs path flags
    { s with
      vfs := r.2
      opening := match r.1 with
        | none => s.opening
        | some f => Function.update s.opening f ((r.2.file f).map fun y =>
            ⟨x.user, (r.2.dentry y.dentry).inode, y.flags⟩) }
  | .close f => { s with vfs := vfsClose s.vfs f }
  | .read f size => { s with vfs := (vfsRead m s.vfs f size).2 }
  | .write f src size => { s with vfs := (vfsWrite m s.vfs f src size).2 }
  | .listdir path cb => { s with vfs := (vfsListdir x.heap m x.user s.vfs path cb).2 }
  | .unlink path => { s with vfs := (vfsUnlink x.heap m x.user s.vfs path).2 }
  | .rmdir path => { s with vfs := (vfsRmdir x.heap m x.user s.vfs path).2 }
  | .rename srcPath dstPath =>
    { s with vfs := (vfsRename x.heap m x.user s.vfs srcPath dstPath).2 }
  | .statPath path => { s with vfs := (vfsStatPath x.heap m x.user s.vfs path).2 }
  | .setMetadata path info => { s with vfs := (vfsSetMetadata x.heap m s.vfs path info).2 }

/-- What a mount leaves to its users. -/
def startSession (fs : Fs) (root : VInode) : VfsSession := ⟨mountVfs fs root, [], fun _ => none⟩

/-- The states that steps which all meet a condition lead to from a first one. -/
inductive VfsReachable (s0 : VfsSession) (ok : VfsSession → VfsStep → Prop) : VfsSession → Prop
  | start : VfsReachable s0 ok s0
  | step {s : VfsSession} {x : VfsStep} :
      VfsReachable s0 ok s → ok s x → VfsReachable s0 ok (x.run m s)

end

section
variable (heap : Heap) (m : CapySuper)

/-- Walk names from an inode by lookups on disk. -/
def walkFrom : VInode → List Name → FsM VInode
  | h, [] => pure h
  | h, name :: rest => do
    let child ← capyfsLookup heap m h name
    walkFrom child rest

/-- What a list of names leads to from the root, by the disk alone. -/
def diskWalk (names : List Name) : FsM VInode := do
  let x ← capyfsReadInodeDisk m 0
  let root ← capyfsCreateVfsInode heap 0 x
  walkFrom heap m root names

end

/-- The paths of a call. -/
def VfsCall.paths : VfsCall → List Name
  | .lookup path | .create path _ _ | .open path _ | .listdir path _ | .unlink path | .rmdir path
  | .statPath path | .setMetadata path _ => [path]
  | .rename srcPath dstPath => [srcPath, dstPath]
  | .put _ | .close _ | .read _ _ | .write _ _ _ => []

/-- The open files on a dentry. -/
def openFiles (s : Vfs) (d : Nat) : Finset Nat :=
  (Finset.range s.nextFile).filter fun f => (s.file f).map File.dentry = some d

/-- The references to a dentry that open files and lookups stand for. -/
def references (s : VfsSession) (d : Nat) : Nat :=
  (openFiles s.vfs d).card + s.held.count d

end CapyOS

namespace CapyOS
open Lib FsM

/-- `struct vfs_recursive_child_list`. -/
structure RecursiveChildList where
  children : List (Name × BitVec 16)
  overflow : Bool

def rmdirRecursiveMaxChildren : Nat := 64
def rmdirRecursivePathMax : Nat := 256
def recursiveChildListSize : Nat := 2184

/-- The callback of the listing; it ends the listing by returning true. -/
def recursiveCollectChild (name : Name) (mode : BitVec 16) (l : RecursiveChildList) :
    Bool × RecursiveChildList :=
  if name = [46#8] ∨ name = [46#8, 46#8] then (false, l)
  else if rmdirRecursiveMaxChildren ≤ l.children.length then (true, { l with overflow := true })
  else (false, { l with children := l.children ++ [(copyName name, mode)] })

/-- Bytes copied behind others as long as a NUL still fits. -/
def appendBounded (outLen : Nat) (out : Name) : Name → Option Name
  | [] => some out
  | c :: rest => if outLen ≤ out.length + 1 then none else appendBounded outLen (out ++ [c]) rest

def vfsJoinChildPath (dir name : Name) (outLen : Nat) : Option Name :=
  (appendBounded outLen [] dir).bind fun out =>
    (if 1 < out.length ∧ out.getLast? ≠ some slash then appendBounded outLen out [slash]
      else some out).bind fun out => appendBounded outLen out name

variable (m : CapySuper) {σ : Type}

/-- `iterateScan` for a callback with a state of its own: whether the scan got to
its end or was ended by the callback, and that state. -/
def iterateScanWith (x : CapyInodeDisk) (cb : Name → BitVec 16 → σ → Bool × σ) :
    Nat → Nat → σ → FsM (Bool × σ)
  | 0, _, ctx => pure (true, ctx)
  | n + 1, i, ctx => do
    let r ← capyfsGetDataBlock m x (i / direntsPerBlock) false
    match r.block with
    | none => pure (false, ctx)
    | some blk =>
      if blk = 0#32 then iterateScanWith x cb n (i + 1) ctx
      else
        let b ← attempt (bufferGet blk.toNat)
        match b with
        | none => pure (false, ctx)
        | some b =>
          let off := i % direntsPerBlock
          if direntIno b off = 0#32 ∨ direntName b off 0 = 0 then iterateScanWith x cb n (i + 1) ctx
          else
            let child ← attempt (capyfsReadInodeDisk m (direntIno b off).toNat)
            match child with
            | none => pure (false, ctx)
            | some child =>
              let r := cb (fieldName (direntName b off)) child.mode ctx
              if r.1 then pure (true, r.2) else iterateScanWith x cb n (i + 1) r.2

def capyfsIterateWith (dir : VInode) (cb : Name → BitVec 16 → σ → Bool × σ) (ctx : σ) :
    FsM (Bool × σ) :=
  if !dir.isDir then pure (false, ctx) else do
  let x ← attempt (capyfsReadInodeDisk m dir.ino)
  match x with
  | none => pure (false, ctx)
  | some x => iterateScanWith m x cb (x.size.toNat / direntSize) 0 ctx

variable (heap : Heap) (user : Option User)

def vfsListdirWith (s : Vfs) (path : Name) (cb : Name → BitVec 16 → σ → Bool × σ) (ctx : σ) :
    (VfsError × σ) × Vfs :=
  match vfsResolve heap m (s.setError .ok) path false with
  | (none, s) => (((s.failLastOr .notFound).1, ctx), (s.failLastOr .notFound).2)
  | (some (d, _), s) =>
    if !(s.dentry d).inode.isDir then ((.notDirectory, ctx), s.setError .notDirectory)
    else if !inodeHasPermission user (s.dentry d).inode (vfsPermRead ||| vfsPermExec) then
      ((.permissionDenied, ctx), s.setError .permissionDenied)
    else
      let r := capyfsIterateWith m (s.dentry d).inode cb ctx s.fs
      let s := ({ s with fs := r.2 } : Vfs).refresh m d
      match r.1 with
      | none => ((.io, ctx), s.setError .io)
      | some (ended, ctx) =>
        if ended then ((.ok, ctx), s.setError .ok) else ((.io, ctx), s.setError .io)

/-- The loop over the children; `recurse` is the call on a directory below. -/
def removeChildren (recurse : Vfs → Name → VfsError × Vfs) (path : Name) :
    Vfs → List (Name × BitVec 16) → VfsError × Vfs
  | s, [] => (.ok, s)
  | s, (name, mode) :: rest =>
    match vfsJoinChildPath path name rmdirRecursivePathMax with
    | none => s.fail .nameTooLong
    | some childPath =>
      let r := if mode &&& vfsModeDir ≠ 0 then recurse s childPath
        else vfsUnlink heap m user s childPath
      if r.1 ≠ .ok then r else removeChildren recurse path r.2 rest

/-- `vfs_rmdir_recursive` with a bound on how deep the calls nest. -/
def rmdirRecursiveWithin : Nat → Vfs → Name → VfsError × Vfs
  | 0, s, _ => s.fail .nameTooLong
  | n + 1, s, path =>
    let s := s.setError .ok
    if path = [] then s.fail .invalidArgument
    else if path.head? ≠ some slash then s.fail .invalidPath
    else if path.length = 1 then s.fail .invalidPath
    else match vfsStatPath heap m user s path with
      | (none, s) => s.failLastOr .notFound
      | (some stat, s) =>
        if !stat.isDir then s.fail .notDirectory
        else if !heap recursiveChildListSize then s.fail .noMemory
        else match vfsListdirWith m heap user s path recursiveCollectChild ⟨[], false⟩ with
          | ((.ok, l), s) =>
            let r := removeChildren m heap user (rmdirRecursiveWithin n) path s l.children
            if r.1 ≠ .ok then r else vfsRmdir heap m user r.2 path
          | ((_, l), s) =>
            if l.overflow then s.fail .noMemory else s.failLastOr .io

/-- A nested path is longer than the one above it and shorter than 256 bytes. -/
def vfsRmdirRecursive (s : Vfs) (path : Name) : VfsError × Vfs :=
  rmdirRecursiveWithin m heap user (rmdirRecursivePathMax + 1) s path

end CapyOS
