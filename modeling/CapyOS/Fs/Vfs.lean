import CapyOS.Fs.CapyfsFormat

namespace CapyOS
open Lib Function

def vfsNameMax : Nat := 32
def vfsPermRead : BitVec 16 := 4#16
def vfsPermWrite : BitVec 16 := 2#16
def vfsPermExec : BitVec 16 := 1#16
def vfsOpenRead : BitVec 32 := 1#32
def vfsOpenWrite : BitVec 32 := 2#32

inductive VfsError where
  | ok | invalidArgument | invalidPath | nameTooLong | notFound | alreadyExists | notDirectory
  | isDirectory | permissionDenied | dirNotEmpty | unsupported | noMemory | io
  deriving DecidableEq, Repr

/-- A cached name. The children stand in the order of the sibling list. -/
structure Dentry where
  name : Name
  parent : Option Nat
  children : List Nat
  inode : VInode
  refcount : BitVec 32

structure File where
  dentry : Nat
  position : BitVec 32
  flags : BitVec 32
  deriving DecidableEq

/-- The mounted volume and what the VFS keeps about it. Dentries and files are
named by number; the root is dentry 0. A freed dentry stays as it was and its
number is not used again. -/
structure Vfs where
  fs : Fs
  dentry : Nat → Dentry
  live : Nat → Bool
  next : Nat
  file : Nat → Option File
  nextFile : Nat
  lastError : VfsError

/-- The user of the active session, if there is one. -/
structure User where
  uid : BitVec 32
  gid : BitVec 32
  deriving DecidableEq

namespace Vfs

def setDentry (s : Vfs) (d : Nat) (x : Dentry) : Vfs :=
  { s with dentry := update s.dentry d x }

def setInode (s : Vfs) (d : Nat) (inode : VInode) : Vfs :=
  s.setDentry d { s.dentry d with inode := inode }

def setFile (s : Vfs) (f : Nat) (x : Option File) : Vfs :=
  { s with file := update s.file f x }

def setError (s : Vfs) (e : VfsError) : Vfs := { s with lastError := e }

def fail (s : Vfs) (e : VfsError) : VfsError × Vfs := (e, s.setError e)

def failLastOr (s : Vfs) (e : VfsError) : VfsError × Vfs :=
  s.fail (if s.lastError = .ok then e else s.lastError)

def done (s : Vfs) : VfsError × Vfs := (.ok, s.setError .ok)

/-- `if (d->refcount) d->refcount--`. -/
def release (s : Vfs) (d : Nat) : Vfs :=
  if (s.dentry d).refcount = 0 then s
  else s.setDentry d { s.dentry d with refcount := (s.dentry d).refcount - 1 }

def retain (s : Vfs) (d : Nat) : Vfs :=
  s.setDentry d { s.dentry d with refcount := (s.dentry d).refcount + 1 }

end Vfs

def inodeHasPermission (user : Option User) (inode : VInode) (needed : BitVec 16) : Bool :=
  match user with
  | none => true
  | some u =>
    if u.uid = 0 then true
    else
      let bits :=
        if u.uid = inode.uid then (inode.perm >>> 6) &&& 7#16
        else if u.gid = inode.gid then (inode.perm >>> 3) &&& 7#16
        else inode.perm &&& 7#16
      bits &&& needed == needed

def fillDefaultMetadata (user : Option User) (mode : BitVec 16) : VfsMetadata :=
  let perm : BitVec 16 := if mode &&& vfsModeDir ≠ 0#16 then 0o755 else 0o644
  match user with
  | some u => { uid := u.uid, gid := u.gid, perm := perm }
  | none => { uid := 0, gid := 0, perm := perm }

section
variable (heap : Heap)

def copyName (name : Name) : Name := name.take (vfsNameMax - 1)

def dentryAlloc (s : Vfs) (name : Name) (inode : VInode) (parent : Nat) : Option Nat × Vfs :=
  if !heap dentrySize then (none, s)
  else
    (some s.next,
      { s with
        dentry := update s.dentry s.next ⟨copyName name, some parent, [], inode, 1⟩
        live := update s.live s.next true
        next := s.next + 1 })

def dentryAttachChild (s : Vfs) (parent child : Nat) : Vfs :=
  s.setDentry parent { s.dentry parent with children := child :: (s.dentry parent).children }

def dentryLookupChild (s : Vfs) (parent : Nat) (name : Name) : Option Nat :=
  (s.dentry parent).children.find? (fun c => (s.dentry c).name == name)

def dentryDetachChild (s : Vfs) (parent : Nat) (name : Name) : Option Nat × Vfs :=
  match dentryLookupChild s parent name with
  | none => (none, s)
  | some c =>
    (some c, s.setDentry parent { s.dentry parent with
      children := (s.dentry parent).children.eraseP (fun c => (s.dentry c).name == name) })

/-- `dentry_free_tree`, which goes no deeper than `n` levels here. -/
def dentryFreeTree : Nat → Vfs → Nat → Vfs
  | 0, s, _ => s
  | n + 1, s, d =>
    let s := (s.dentry d).children.foldl (dentryFreeTree n) s
    { s with live := update s.live d false }

end

def slash : Byte := 47#8

/-- What `path_next` finds at the front of a path. -/
inductive PathStep where
  | done
  | tooLong
  | component (name rest : Name)

def pathNext (path : Name) : PathStep :=
  let p := path.dropWhile (fun c => c = slash)
  match p with
  | [] => .done
  | _ :: _ =>
    let name := p.takeWhile (fun c => c ≠ slash)
    if vfsNameMax ≤ name.length then .tooLong
    else .component name ((p.dropWhile (fun c => c ≠ slash)).dropWhile (fun c => c = slash))

section
variable (heap : Heap) (m : CapySuper)

/-- A directory's inode after a call that copied the size on disk into it. -/
def Vfs.refresh (s : Vfs) (d : Nat) : Vfs :=
  match (refreshSize m (s.dentry d).inode s.fs).1 with
  | none => s
  | some inode => s.setInode d inode

/-- A child that was not cached: look it up on disk and cache it. -/
def resolveMiss (s : Vfs) (cur : Nat) (name : Name) : Option Nat × Vfs :=
  let dir := (s.dentry cur).inode
  let r := capyfsLookup heap m dir name s.fs
  let s := { s with fs := r.2 }
  let s := if dir.isDir then s.refresh m cur else s
  match r.1 with
  | none => (none, s.setError .notFound)
  | some inode =>
    match dentryAlloc heap s name inode cur with
    | (none, s) => (none, s.setError .noMemory)
    | (some child, s) => (some child, dentryAttachChild s cur child)

/-- The loop of `vfs_resolve`; every pass takes a byte off the path. With
`parentOnly` the result also has the last component. -/
def resolveFrom (parentOnly : Bool) : Nat → Vfs → Nat → Name → Option (Nat × Name) × Vfs
  | 0, s, _, _ => (none, s)
  | n + 1, s, cur, p =>
    match pathNext p with
    | .tooLong => (none, s.setError .nameTooLong)
    | .done => (some (cur, []), s)
    | .component name rest =>
      if parentOnly && rest.isEmpty then (some (cur, name), s)
      else match dentryLookupChild s cur name with
        | some child => resolveFrom parentOnly n s child rest
        | none => match resolveMiss heap m s cur name with
          | (none, s) => (none, s)
          | (some child, s) => resolveFrom parentOnly n s child rest

def vfsResolve (s : Vfs) (path : Name) (parentOnly : Bool) : Option (Nat × Name) × Vfs :=
  match path with
  | [] => (none, s.setError .invalidPath)
  | c :: _ =>
    if c ≠ slash then (none, s.setError .invalidPath)
    else resolveFrom heap m parentOnly (path.length + 1) s 0 path

def vfsDirectoryHasEntries (s : Vfs) (d : Nat) : Bool × Vfs :=
  let r := capyfsIterate m (s.dentry d).inode (fun _ _ => true) s.fs
  let s := { s with fs := r.2 }
  let s := if (s.dentry d).inode.isDir then s.refresh m d else s
  (match r.1 with | none => false | some (calls, _) => !calls.isEmpty, s)

def vfsLookup (s : Vfs) (path : Name) : Option Nat × Vfs :=
  match vfsResolve heap m (s.setError .ok) path false with
  | (none, s) => (none, (s.failLastOr .notFound).2)
  | (some (d, _), s) => (some d, (s.retain d).setError .ok)

def vfsCreate (user : Option User) (s : Vfs) (path : Name) (mode : BitVec 16)
    (info : Option VfsMetadata) : VfsError × Vfs :=
  match vfsResolve heap m (s.setError .ok) path true with
  | (none, s) => s.failLastOr .invalidPath
  | (some (parent, name), s) =>
    if name.isEmpty then s.fail .invalidPath
    else match vfsResolve heap m s path false with
      | (some _, s) => s.fail .alreadyExists
      | (none, s) =>
        if s.lastError ≠ .notFound then s.failLastOr .io
        else if !inodeHasPermission user (s.dentry parent).inode vfsPermWrite then
          s.fail .permissionDenied
        else
          let r := capyfsCreate heap m (s.dentry parent).inode name mode
            (some (info.getD (fillDefaultMetadata user mode))) s.fs
          let s := { s with fs := r.2 }
          match r.1 with
          | none => s.fail .io
          | some inode =>
            match dentryAlloc heap (s.refresh m parent) name inode parent with
            | (none, s) => s.fail .noMemory
            | (some child, s) => (dentryAttachChild s parent child).done

def fileSize : Nat := 16

def vfsOpen (user : Option User) (s : Vfs) (path : Name) (flags : BitVec 32) : Option Nat × Vfs :=
  match vfsResolve heap m (s.setError .ok) path false with
  | (none, s) => (none, (s.failLastOr .notFound).2)
  | (some (d, _), s) =>
    let openFlags := if flags = 0 then vfsOpenRead else flags
    if openFlags &&& vfsOpenRead ≠ 0 ∧ !inodeHasPermission user (s.dentry d).inode vfsPermRead then
      (none, s.setError .permissionDenied)
    else if openFlags &&& vfsOpenWrite ≠ 0 ∧
        !inodeHasPermission user (s.dentry d).inode vfsPermWrite then
      (none, s.setError .permissionDenied)
    else if !heap fileSize then (none, s.setError .noMemory)
    else
      let s := { s.setFile s.nextFile (some ⟨d, 0, openFlags⟩) with nextFile := s.nextFile + 1 }
      (some (s.nextFile - 1), (s.retain d).setError .ok)

def vfsClose (s : Vfs) (f : Nat) : Vfs :=
  match s.file f with
  | none => s
  | some x => (s.release x.dentry).setFile f none

/-- The bytes a read returns, or nothing when it fails. -/
def vfsRead (s : Vfs) (f size : Nat) : Option (List Byte) × Vfs :=
  match s.file f with
  | none => (none, s)
  | some x =>
    let r := capyfsRead m (s.dentry x.dentry).inode x.position.toNat size s.fs
    let s := { s with fs := r.2 }
    match r.1 with
    | none => (none, s)
    | some (bytes, inode) =>
      (some bytes, (s.setInode x.dentry inode).setFile f
        (some { x with position := x.position + BitVec.ofNat 32 bytes.length }))

def vfsWrite (s : Vfs) (f : Nat) (src : Bytes) (size : Nat) : Option Nat × Vfs :=
  match s.file f with
  | none => (none, s)
  | some x =>
    if x.flags &&& vfsOpenWrite = 0 then (none, s)
    else
      let r := capyfsWrite m (s.dentry x.dentry).inode x.position.toNat src size s.fs
      let s := { s with fs := r.2 }
      match r.1 with
      | none => (none, s)
      | some (n, inode) =>
        (some n, (s.setInode x.dentry inode).setFile f
          (some { x with position := x.position + BitVec.ofNat 32 n }))

def vfsListdir (user : Option User) (s : Vfs) (path : Name) (cb : Name → BitVec 16 → Bool) :
    (VfsError × List (Name × BitVec 16)) × Vfs :=
  match vfsResolve heap m (s.setError .ok) path false with
  | (none, s) => (((s.failLastOr .notFound).1, []), (s.failLastOr .notFound).2)
  | (some (d, _), s) =>
    if !(s.dentry d).inode.isDir then ((.notDirectory, []), s.setError .notDirectory)
    else if !inodeHasPermission user (s.dentry d).inode (vfsPermRead ||| vfsPermExec) then
      ((.permissionDenied, []), s.setError .permissionDenied)
    else
      let r := capyfsIterate m (s.dentry d).inode cb s.fs
      let s := ({ s with fs := r.2 } : Vfs).refresh m d
      match r.1 with
      | none => ((.io, []), s.setError .io)
      | some (calls, ended) =>
        if ended then ((.ok, calls), s.setError .ok) else ((.io, calls), s.setError .io)

/-- Take a removed name out of the cache. -/
def dentryForget (s : Vfs) (parent : Nat) (name : Name) : Vfs :=
  match dentryDetachChild s parent name with
  | (none, s) => s
  | (some d, s) => dentryFreeTree s.next s d

def vfsUnlink (user : Option User) (s : Vfs) (path : Name) : VfsError × Vfs :=
  match vfsResolve heap m (s.setError .ok) path false with
  | (none, s) => s.failLastOr .notFound
  | (some (target, _), s) =>
    if (s.dentry target).inode.isDir then s.fail .isDirectory
    else match (s.dentry target).parent with
      | none => s.fail .invalidPath
      | some parent =>
        if (s.dentry target).name.isEmpty then s.fail .invalidPath
        else if !inodeHasPermission user (s.dentry parent).inode vfsPermWrite then
          s.fail .permissionDenied
        else
          let r := capyfsRemove m (s.dentry parent).inode (s.dentry target).name false s.fs
          let s := { s with fs := r.2 }
          if r.1.isNone then s.fail .io
          else (dentryForget (s.refresh m parent) parent (s.dentry target).name).done

def vfsRmdir (user : Option User) (s : Vfs) (path : Name) : VfsError × Vfs :=
  match vfsResolve heap m (s.setError .ok) path false with
  | (none, s) => s.failLastOr .notFound
  | (some (target, _), s) =>
    if !(s.dentry target).inode.isDir then s.fail .notDirectory
    else match (s.dentry target).parent with
      | none => s.fail .invalidPath
      | some parent =>
        if (s.dentry target).name.isEmpty then s.fail .invalidPath
        else if !inodeHasPermission user (s.dentry parent).inode vfsPermWrite then
          s.fail .permissionDenied
        else match vfsDirectoryHasEntries m s target with
          | (true, s) => s.fail .dirNotEmpty
          | (false, s) =>
            let r := capyfsRemove m (s.dentry parent).inode (s.dentry target).name true s.fs
            let s := { s with fs := r.2 }
            if r.1.isNone then
              match vfsDirectoryHasEntries m s target with
              | (true, s) => s.fail .dirNotEmpty
              | (false, s) => s.fail .io
            else (dentryForget (s.refresh m parent) parent (s.dentry target).name).done

/-- A dentry moved to another name and parent. -/
def dentryMove (s : Vfs) (srcParent : Nat) (name : Name) (dstParent : Nat) (dstName : Name) : Vfs :=
  match dentryDetachChild s srcParent name with
  | (none, s) => s
  | (some c, s) =>
    dentryAttachChild
      (s.setDentry c { s.dentry c with name := copyName dstName, parent := some dstParent }) dstParent c

def vfsRename (user : Option User) (s : Vfs) (srcPath dstPath : Name) : VfsError × Vfs :=
  let rs := vfsResolve heap m (s.setError .ok) srcPath false
  let rd := vfsResolve heap m rs.2 dstPath true
  match rs.1.bind (fun r => (rs.2.dentry r.1).parent.map (fun p => (r.1, p))) with
  | none => rd.2.failLastOr .notFound
  | some (src, srcParent) =>
    match rd.1 with
    | none => rd.2.failLastOr .invalidPath
    | some (dstParent, dstName) =>
      if dstName.isEmpty then rd.2.failLastOr .invalidPath
      else
        let r := vfsResolve heap m rd.2 dstPath false
        let s := r.2
        let other := match r.1 with | none => false | some (d, _) => d != src
        if other then s.fail .alreadyExists
        else if r.1.isNone ∧ s.lastError ≠ .notFound then s.failLastOr .io
        else if !inodeHasPermission user (s.dentry srcParent).inode vfsPermWrite ||
            !inodeHasPermission user (s.dentry dstParent).inode vfsPermWrite then
          s.fail .permissionDenied
        else
          let name := (s.dentry src).name
          let q := capyfsRenameInode m (s.dentry srcParent).inode name (s.dentry dstParent).inode
            dstName s.fs
          let s := { s with fs := q.2 }
          if q.1.isNone then s.fail .io
          else
            let s := if (s.dentry srcParent).inode.ino = (s.dentry dstParent).inode.ino then s
              else (s.refresh m dstParent).refresh m srcParent
            (dentryMove s srcParent name dstParent dstName).done

def vfsStatPath (user : Option User) (s : Vfs) (path : Name) : Option VInode × Vfs :=
  match vfsResolve heap m (s.setError .ok) path false with
  | (none, s) => (none, (s.failLastOr .notFound).2)
  | (some (d, _), s) =>
    if !inodeHasPermission user (s.dentry d).inode vfsPermRead then
      (none, s.setError .permissionDenied)
    else (some (s.dentry d).inode, s.setError .ok)

/-- The reference the call gives back is one it never took. -/
def vfsSetMetadata (s : Vfs) (path : Name) (info : VfsMetadata) : VfsError × Vfs :=
  match vfsResolve heap m (s.setError .ok) path false with
  | (none, s) => s.failLastOr .notFound
  | (some (d, _), s) =>
    let r := capyfsSetMetadata m (s.dentry d).inode info s.fs
    let s := { s with fs := r.2 }
    match r.1 with
    | none => (s.release d).fail .io
    | some inode => ((s.setInode d inode).release d).done

end

/-- The VFS right after a mount: the root alone is cached, and no file is open. -/
def mountVfs (fs : Fs) (root : VInode) : Vfs where
  fs := fs
  dentry _ := ⟨[slash], none, [], root, 1⟩
  live d := d = 0
  next := 1
  file _ := none
  nextFile := 0
  lastError := .ok

end CapyOS
