import CapyOS.Fs.Capyfs

namespace CapyOS
open Lib

/-- A mounted volume's device, as seen through the buffer cache, and the
allocator's next-fit hint. -/
structure Fs where
  dev : BlockDevice
  hint : Nat

/-- Code that may fail; what it did before it failed stays done. -/
def FsM (α : Type) : Type := Fs → Option α × Fs

instance : Monad FsM where
  pure a := fun s => (some a, s)
  bind x f := fun s => match x s with
    | (some a, s') => f a s'
    | (none, s') => (none, s')

namespace FsM
variable {α β : Type}

def fail : FsM α := fun s => (none, s)

/-- Run a call and look at its result instead of leaving on failure. -/
def attempt (x : FsM α) : FsM (Option α) := fun s => (some (x s).1, (x s).2)

theorem pure_apply (a : α) (s : Fs) : (pure a : FsM α) s = (some a, s) := rfl

theorem fail_apply (s : Fs) : (fail : FsM α) s = (none, s) := rfl

theorem attempt_apply (x : FsM α) (s : Fs) : attempt x s = (some (x s).1, (x s).2) := rfl

theorem bind_some {x : FsM α} {f : α → FsM β} {s s' : Fs} {a : α} (h : x s = (some a, s')) : (x >>= f) s = f a s' := by
  show (match x s with | (some a, s') => f a s' | (none, s') => (none, s')) = f a s'
  rw [h]

theorem bind_none {x : FsM α} {f : α → FsM β} {s s' : Fs} (h : x s = (none, s')) : (x >>= f) s = (none, s') := by
  show (match x s with | (some a, s') => f a s' | (none, s') => (none, s')) = (none, s')
  rw [h]

end FsM

open FsM

/-- `buffer_get`: the contents of a block, or nothing when it cannot be read. -/
def bufferGet (n : Nat) : FsM Bytes := fun s => (blockDeviceRead s.dev n, s)

/-- Contents stored into a buffer that is then marked dirty. -/
def bufferPut (n : Nat) (b : Bytes) : FsM Unit :=
  fun s => (some (), { s with dev := s.dev.write (n, b) })

def getHint : FsM Nat := fun s => (some s.hint, s)

def setHint (h : Nat) : FsM Unit := fun s => (some (), { s with hint := h })

/-- The block of the inode table that holds an inode's record. -/
def inodeBlockNo (m : CapySuper) (ino : Nat) : Nat := u32 (m.inodeStart.toNat + ino / inodesPerBlock)

/-- The block of the inode bitmap that holds an inode's bit. -/
def imapBlockNo (m : CapySuper) (ino : Nat) : Nat := u32 (m.imapStart.toNat + ino / bitsPerBlock)

/-- The block of the block bitmap that holds a block's bit. -/
def bmapBlockNo (m : CapySuper) (blk : Nat) : Nat := u32 (m.bmapStart.toNat + blk / bitsPerBlock)

def inodeOffset (ino : Nat) : Nat := inodeDiskSize * (ino % inodesPerBlock)

variable (heap : Heap) (m : CapySuper)

def capyfsReadInodeDisk (ino : Nat) : FsM CapyInodeDisk :=
  if m.inodeCount.toNat ≤ ino then fail else do
  let b ← bufferGet (inodeBlockNo m ino)
  pure (readInodeAt b (inodeOffset ino))

def capyfsWriteInodeDisk (ino : Nat) (x : CapyInodeDisk) : FsM Unit :=
  if m.inodeCount.toNat ≤ ino then fail else do
  let b ← bufferGet (inodeBlockNo m ino)
  bufferPut (inodeBlockNo m ino) (blit b (inodeOffset ino) inodeDiskSize x.bytes)

/-- A `struct inode` of this file system. -/
structure VInode where
  ino : Nat
  mode : BitVec 16
  size : BitVec 32
  uid : BitVec 32
  gid : BitVec 32
  perm : BitVec 16
  deriving DecidableEq

def VInode.isDir (x : VInode) : Bool := x.mode &&& vfsModeDir != 0#16

/-- `kalloc` sizes of an inode and of its private part. -/
def vfsInodeSize : Nat := 48
def capyfsInodeSize : Nat := 16

def capyfsCreateVfsInode (ino : Nat) (x : CapyInodeDisk) : FsM VInode :=
  if !heap vfsInodeSize || !heap capyfsInodeSize then fail
  else pure ⟨ino, x.mode, x.size, x.uid, x.gid, x.perm⟩

/-- The scan of `capyfs_alloc_inode` over `n` more inodes from `ino`. -/
def allocInodeFrom : Nat → Nat → FsM Nat
  | 0, _ => fail
  | n + 1, ino => do
    let b ← bufferGet (imapBlockNo m ino)
    if testBit b (ino % bitsPerBlock) then allocInodeFrom n (ino + 1)
    else
      bufferPut (imapBlockNo m ino) (setBit b (ino % bitsPerBlock))
      pure ino

def capyfsAllocInode : FsM Nat := allocInodeFrom m m.inodeCount.toNat 0

/-- Clear a bit of a bitmap block, if the block can be read. -/
def clearBitmapBit (n i : Nat) : FsM Unit := do
  let r ← attempt (bufferGet n)
  match r with
  | none => pure ()
  | some b => bufferPut n (clearBit b i)

def capyfsFreeInodeBit (ino : Nat) : FsM Unit :=
  if m.inodeCount.toNat ≤ ino then pure ()
  else clearBitmapBit (imapBlockNo m ino) (ino % bitsPerBlock)

def capyfsFreeBlock (blk : Nat) : FsM Unit :=
  if blk < m.dataStart.toNat ∨ m.blockCount.toNat ≤ blk then pure ()
  else clearBitmapBit (bmapBlockNo m blk) (blk % bitsPerBlock)

/-- `capyfs_try_alloc_range` over `n` more blocks from `blk`. A block whose
buffer cannot be had stays marked. -/
def capyfsTryAllocRange : Nat → Nat → FsM Nat
  | 0, _ => fail
  | n + 1, blk => do
    let b ← bufferGet (bmapBlockNo m blk)
    if testBit b (blk % bitsPerBlock) then capyfsTryAllocRange n (blk + 1)
    else
      bufferPut (bmapBlockNo m blk) (setBit b (blk % bitsPerBlock))
      let _ ← bufferGet blk
      bufferPut blk zeros
      setHint (u32 (blk + 1))
      pure blk

def capyfsAllocBlock : FsM Nat := do
  let ds := m.dataStart.toNat
  let bc := m.blockCount.toNat
  let h ← getHint
  let hint := if h < ds ∨ bc ≤ h then ds else h
  let r ← attempt (capyfsTryAllocRange m (bc - hint) hint)
  match r with
  | some blk => pure blk
  | none => if ds < hint then capyfsTryAllocRange m (hint - ds) ds else fail

/-- Block pointers in an indirect block. -/
def entriesPerBlock : Nat := capyfsBlockSize / 4

def indirectEntry (b : Bytes) (k : Nat) : BitVec 32 := field32 b (4 * k)

/-- Free the blocks behind `n` more entries of an indirect block from `k`, and
clear the entries in place. -/
def freeIndirectEntries (ind : Nat) : Nat → Nat → FsM Unit
  | 0, _ => pure ()
  | n + 1, k => do
    let b ← bufferGet ind
    if indirectEntry b k = 0#32 then freeIndirectEntries ind n (k + 1)
    else
      capyfsFreeBlock m (indirectEntry b k).toNat
      let b ← bufferGet ind
      bufferPut ind (store b (4 * k) 4 0)
      freeIndirectEntries ind n (k + 1)

def freeDirect (x : CapyInodeDisk) : List (Fin 12) → FsM Unit
  | [] => pure ()
  | i :: rest => do
    if x.direct i ≠ 0#32 then capyfsFreeBlock m (x.direct i).toNat
    freeDirect x rest

/-- The inode it is given is left without blocks. -/
def capyfsFreeDataBlocks (x : CapyInodeDisk) : FsM CapyInodeDisk := do
  freeDirect m x (List.finRange 12)
  if x.indirect ≠ 0#32 then
    let r ← attempt (bufferGet x.indirect.toNat)
    if r.isSome then freeIndirectEntries m x.indirect.toNat entriesPerBlock 0
    capyfsFreeBlock m x.indirect.toNat
  pure { x with direct := fun _ => 0, indirect := 0, size := 0 }

/-- What `capyfs_get_data_block` leaves: the block unless it failed, the inode it
may have changed either way, and whether it did. -/
structure DataBlock where
  block : Option (BitVec 32)
  inode : CapyInodeDisk
  dirty : Bool

/-- An allocated block as it is stored in a pointer. -/
def allocPointer : FsM (Option (BitVec 32)) := do
  let r ← attempt (capyfsAllocBlock m)
  pure (r.map (BitVec.ofNat 32))

def getIndirectBlock (x : CapyInodeDisk) (ind : BitVec 32) (k : Nat) (allocate dirty : Bool) :
    FsM DataBlock := do
  let r ← attempt (bufferGet ind.toNat)
  match r with
  | none => pure ⟨none, x, dirty⟩
  | some b =>
    if indirectEntry b k = 0#32 ∧ allocate = true then
      let p ← allocPointer m
      match p with
      | none => pure ⟨none, x, dirty⟩
      | some blk =>
        let b ← bufferGet ind.toNat
        bufferPut ind.toNat (store b (4 * k) 4 blk.toNat)
        pure ⟨some blk, x, dirty⟩
    else pure ⟨some (indirectEntry b k), x, dirty⟩

def capyfsGetDataBlock (x : CapyInodeDisk) (logical : Nat) (allocate : Bool) : FsM DataBlock :=
  if h : logical < 12 then
    if x.direct ⟨logical, h⟩ = 0#32 ∧ allocate = true then do
      let p ← allocPointer m
      match p with
      | none => pure ⟨none, x, false⟩
      | some blk =>
        pure ⟨some blk, { x with direct := Function.update x.direct ⟨logical, h⟩ blk }, true⟩
    else pure ⟨some (x.direct ⟨logical, h⟩), x, false⟩
  else if entriesPerBlock ≤ logical - 12 then pure ⟨none, x, false⟩
  else if x.indirect = 0#32 then
    if allocate = false then pure ⟨some 0#32, x, false⟩
    else do
      let p ← allocPointer m
      match p with
      | none => pure ⟨none, x, false⟩
      | some ind =>
        getIndirectBlock m { x with indirect := ind } ind (logical - 12) allocate true
  else getIndirectBlock m x x.indirect (logical - 12) allocate false

/-- Bytes of a directory entry, and entries in a block. -/
def direntSize : Nat := 36
def direntsPerBlock : Nat := capyfsBlockSize / direntSize

def direntIno (b : Bytes) (off : Nat) : BitVec 32 := field32 b (direntSize * off)

/-- The 32-byte name field of an entry. -/
def direntName (b : Bytes) (off : Nat) : Bytes := fun k => b (direntSize * off + 4 + k)

/-- A C string: the bytes before its terminator. -/
abbrev Name := List Byte

/-- A name that can be held by a C string. -/
def IsCString (name : Name) : Prop := ∀ c ∈ name, c ≠ 0

/-- `cstring_copy` into a field of `size` bytes at offset `o`: the name cut to
what fits, and a terminator. -/
def cstringCopy (b : Bytes) (o size : Nat) (name : Name) : Bytes :=
  let n := min name.length (size - 1)
  blit b o (n + 1) (fun k => if k < n then name.getD k 0 else 0)

/-- The loop of `names_equal` from byte `i` of the field on. -/
def namesEqualFrom (a : Bytes) : Nat → Nat → Name → Bool
  | 0, _, _ => false
  | n + 1, i, b =>
    match b with
    | [] => a i == 0
    | c :: cs => if a i = 0 then false else if a i ≠ c then false else namesEqualFrom a n (i + 1) cs

def namesEqual (a : Bytes) (b : Name) : Bool := namesEqualFrom a capyfsNameMax 0 b

/-- A name as the bytes of a string in memory. -/
def cstringBytes (name : Name) : Bytes := fun k => name.getD k 0

def putDirent (b : Bytes) (off child : Nat) (name : Name) : Bytes :=
  cstringCopy (store b (direntSize * off) 4 child) (direntSize * off + 4) capyfsNameMax name

def clearDirent (b : Bytes) (off : Nat) : Bytes :=
  store (store b (direntSize * off) 4 0) (direntSize * off + 4) 1 0

/-- Look for a free entry among `n` more entries from `i` and take it. -/
def dirAddScan (x : CapyInodeDisk) (dirIno child : Nat) (name : Name) : Nat → Nat → FsM Bool
  | 0, _ => pure false
  | n + 1, i => do
    let r ← capyfsGetDataBlock m x (i / direntsPerBlock) false
    match r.block with
    | none => fail
    | some blk =>
      if blk = 0#32 then dirAddScan x dirIno child name n (i + 1)
      else
        let b ← bufferGet blk.toNat
        if direntIno b (i % direntsPerBlock) = 0#32 then
          bufferPut blk.toNat (putDirent b (i % direntsPerBlock) child name)
          let _ ← attempt (capyfsWriteInodeDisk m dirIno x)
          pure true
        else dirAddScan x dirIno child name n (i + 1)

/-- The directory's inode as the call leaves it. -/
def capyfsDirAddEntry (dirIno child : Nat) (name : Name) : FsM CapyInodeDisk :=
  if name.length = 0 ∨ capyfsNameMax ≤ name.length then fail else do
  let x ← capyfsReadInodeDisk m dirIno
  let count := x.size.toNat / direntSize
  let placed ← dirAddScan m x dirIno child name count 0
  if placed then pure x
  else
    let r ← capyfsGetDataBlock m x (count / direntsPerBlock) true
    match r.block with
    | none => fail
    | some blk =>
      let b ← bufferGet blk.toNat
      bufferPut blk.toNat (putDirent b (count % direntsPerBlock) child name)
      let x := { r.inode with size := BitVec.ofNat 32 ((count + 1) * direntSize) }
      let _ ← attempt (capyfsWriteInodeDisk m dirIno x)
      pure x

/-- Where an entry was found, and the inode it names. -/
structure FoundEntry where
  ino : BitVec 32
  block : Nat
  off : Nat

def dirFindScan (x : CapyInodeDisk) (name : Name) : Nat → Nat → FsM FoundEntry
  | 0, _ => fail
  | n + 1, i => do
    let r ← capyfsGetDataBlock m x (i / direntsPerBlock) false
    match r.block with
    | none => fail
    | some blk =>
      if blk = 0#32 then dirFindScan x name n (i + 1)
      else
        let b ← bufferGet blk.toNat
        let off := i % direntsPerBlock
        if direntIno b off ≠ 0#32 ∧ namesEqual (direntName b off) name = true then
          pure ⟨direntIno b off, blk.toNat, off⟩
        else dirFindScan x name n (i + 1)

def capyfsDirFindEntry (x : CapyInodeDisk) (name : Name) : FsM FoundEntry :=
  dirFindScan m x name (x.size.toNat / direntSize) 0

def capyfsDirClearEntry (x : CapyInodeDisk) (dirIno block off : Nat) : FsM Unit := do
  let b ← bufferGet block
  bufferPut block (clearDirent b off)
  capyfsWriteInodeDisk m dirIno x

def dirIsEmptyScan (x : CapyInodeDisk) : Nat → Nat → FsM Bool
  | 0, _ => pure true
  | n + 1, i => do
    let r ← capyfsGetDataBlock m x (i / direntsPerBlock) false
    match r.block with
    | none => fail
    | some blk =>
      if blk = 0#32 then dirIsEmptyScan x n (i + 1)
      else
        let b ← bufferGet blk.toNat
        if direntIno b (i % direntsPerBlock) ≠ 0#32 then pure false
        else dirIsEmptyScan x n (i + 1)

def capyfsDirIsEmpty (x : CapyInodeDisk) : FsM Bool :=
  dirIsEmptyScan m x (x.size.toNat / direntSize) 0

def capyfsLookup (dir : VInode) (name : Name) : FsM VInode :=
  if !dir.isDir then fail else do
  let dirDisk ← capyfsReadInodeDisk m dir.ino
  let found ← capyfsDirFindEntry m dirDisk name
  let childDisk ← capyfsReadInodeDisk m found.ino.toNat
  capyfsCreateVfsInode heap found.ino.toNat childDisk

structure VfsMetadata where
  uid : BitVec 32
  gid : BitVec 32
  perm : BitVec 16
  deriving DecidableEq

def newInode (mode : BitVec 16) (info : Option VfsMetadata) : CapyInodeDisk :=
  let owner := info.getD
    { uid := 0, gid := 0, perm := if mode &&& vfsModeDir ≠ 0#16 then 0o755 else 0o644 }
  { emptyInode with
    mode := mode, links := 1, uid := owner.uid, gid := owner.gid, perm := owner.perm }

/-- Leave a call after taking an inode bit back. -/
def releaseInode {α : Type} (ino : Nat) : FsM α := do
  capyfsFreeInodeBit m ino
  fail

def capyfsCreate (dir : VInode) (name : Name) (mode : BitVec 16) (info : Option VfsMetadata) :
    FsM VInode :=
  if !dir.isDir then fail else
  if name.length = 0 ∨ capyfsNameMax ≤ name.length then fail else do
  let dirDisk ← capyfsReadInodeDisk m dir.ino
  let existing ← attempt (capyfsDirFindEntry m dirDisk name)
  if existing.isSome then fail
  else
    let ino ← capyfsAllocInode m
    let disk := newInode mode info
    let written ← attempt (capyfsWriteInodeDisk m ino disk)
    if written.isNone then releaseInode m ino
    else
      let added ← attempt (capyfsDirAddEntry m dir.ino ino name)
      if added.isNone then releaseInode m ino
      else
        let child ← attempt (capyfsCreateVfsInode heap ino disk)
        match child with
        | none => releaseInode m ino
        | some child => pure child

/-- A target of the kind asked for, and whether it has no entries if it is a
directory. -/
def removable (target : CapyInodeDisk) (isDir : Bool) : FsM Bool :=
  if isDir then
    if !target.isDir then fail else capyfsDirIsEmpty m target
  else if target.isDir then fail else pure true

def capyfsRemove (dir : VInode) (name : Name) (isDir : Bool) : FsM Unit :=
  if !dir.isDir then fail else do
  let dirDisk ← capyfsReadInodeDisk m dir.ino
  let entry ← capyfsDirFindEntry m dirDisk name
  let target ← capyfsReadInodeDisk m entry.ino.toNat
  let empty ← removable m target isDir
  if !empty then fail
  else
    let _ ← capyfsFreeDataBlocks m target
    capyfsDirClearEntry m dirDisk dir.ino entry.block entry.off
    capyfsWriteInodeDisk m entry.ino.toNat emptyInode
    capyfsFreeInodeBit m entry.ino.toNat

def capyfsRenameInode (srcDir : VInode) (srcName : Name) (dstDir : VInode) (dstName : Name) :
    FsM Unit :=
  if !srcDir.isDir || !dstDir.isDir then fail else do
  let srcDisk ← capyfsReadInodeDisk m srcDir.ino
  let dstDisk ← capyfsReadInodeDisk m dstDir.ino
  let entry ← capyfsDirFindEntry m srcDisk srcName
  if srcDir.ino = dstDir.ino then
    if namesEqual (cstringBytes srcName) dstName then pure ()
    else
      let b ← bufferGet entry.block
      bufferPut entry.block
        (cstringCopy b (direntSize * entry.off + 4) capyfsNameMax dstName)
      capyfsWriteInodeDisk m srcDir.ino srcDisk
  else
    let existing ← attempt (capyfsDirFindEntry m dstDisk dstName)
    if existing.isSome then fail
    else
      let dstDisk ← capyfsDirAddEntry m dstDir.ino entry.ino.toNat dstName
      let cleared ← attempt (capyfsDirClearEntry m srcDisk srcDir.ino entry.block entry.off)
      if cleared.isSome then pure ()
      else
        let added ← attempt (capyfsDirFindEntry m dstDisk dstName)
        match added with
        | none => fail
        | some added =>
          let _ ← attempt (capyfsDirClearEntry m dstDisk dstDir.ino added.block added.off)
          fail

def capyfsSetMetadata (inode : VInode) (info : VfsMetadata) : FsM VInode := do
  let disk ← capyfsReadInodeDisk m inode.ino
  capyfsWriteInodeDisk m inode.ino { disk with uid := info.uid, gid := info.gid, perm := info.perm }
  pure { inode with uid := info.uid, gid := info.gid, perm := info.perm }

/-- The copy loop of `capyfs_write`: how much was written, and the inode with
whether it changed. Every pass writes at least one byte. -/
def capyfsWriteLoop (pos : Nat) (src : Bytes) (size : Nat) :
    Nat → Nat → CapyInodeDisk → Bool → FsM (Nat × CapyInodeDisk × Bool)
  | 0, written, x, dirty => pure (written, x, dirty)
  | n + 1, written, x, dirty =>
    if size ≤ written then pure (written, x, dirty) else do
    let absolute := u32 (pos + written)
    let off := absolute % capyfsBlockSize
    let chunk := min (capyfsBlockSize - off) (size - written)
    let r ← capyfsGetDataBlock m x (absolute / capyfsBlockSize) true
    let dirty := dirty || r.dirty
    match r.block with
    | none => pure (written, r.inode, dirty)
    | some blk =>
      if blk = 0#32 then pure (written, r.inode, dirty)
      else
        let b ← attempt (bufferGet blk.toNat)
        match b with
        | none => pure (written, r.inode, dirty)
        | some b =>
          bufferPut blk.toNat (blit b off chunk (fun k => src (written + k)))
          capyfsWriteLoop pos src size n (written + chunk) r.inode dirty

/-- Bytes written, and the inode with the size the call has given it. -/
def capyfsWrite (inode : VInode) (pos : Nat) (src : Bytes) (size : Nat) : FsM (Nat × VInode) :=
  if size = 0 then pure (0, inode) else
  if inode.isDir then fail else do
  let disk ← capyfsReadInodeDisk m inode.ino
  let r ← capyfsWriteLoop m pos src size size 0 disk false
  let finalSize := u32 (pos + r.1)
  let newSize := max disk.size.toNat finalSize
  let x := if newSize ≠ r.2.1.size.toNat then { r.2.1 with size := BitVec.ofNat 32 newSize }
    else r.2.1
  if r.2.2 || newSize != r.2.1.size.toNat then
    let stored ← attempt (capyfsWriteInodeDisk m inode.ino x)
    if stored.isNone then pure (r.1, inode) else pure (r.1, { inode with size := x.size })
  else pure (r.1, { inode with size := x.size })

/-- The copy loop of `capyfs_read`. A hole reads as zeros. -/
def capyfsReadLoop (x : CapyInodeDisk) (pos remaining : Nat) : Nat → List Byte → FsM (List Byte)
  | 0, copied => pure copied
  | n + 1, copied =>
    if remaining ≤ copied.length then pure copied else do
    let absolute := u32 (pos + copied.length)
    let off := absolute % capyfsBlockSize
    let chunk := min (capyfsBlockSize - off) (remaining - copied.length)
    let r ← capyfsGetDataBlock m x (absolute / capyfsBlockSize) false
    match r.block with
    | none => pure copied
    | some blk =>
      if blk = 0#32 then capyfsReadLoop x pos remaining n (copied ++ List.replicate chunk 0)
      else
        let b ← attempt (bufferGet blk.toNat)
        match b with
        | none => pure copied
        | some b =>
          capyfsReadLoop x pos remaining n (copied ++ listBytes (fun k => b (off + k)) chunk)

/-- The bytes read, and the inode with the size on disk. -/
def capyfsRead (inode : VInode) (pos size : Nat) : FsM (List Byte × VInode) :=
  if size = 0 then pure ([], inode) else
  if inode.isDir then fail else do
  let disk ← capyfsReadInodeDisk m inode.ino
  let inode := { inode with size := disk.size }
  if disk.size.toNat ≤ pos then pure ([], inode)
  else
    let remaining := min size (disk.size.toNat - pos)
    let bytes ← capyfsReadLoop m disk pos remaining remaining []
    pure (bytes, inode)

/-- The string in the name field of an entry. -/
def fieldName (a : Bytes) : Name := (listBytes a capyfsNameMax).takeWhile (fun c => c ≠ 0)

/-- The calls `capyfs_iterate` makes to its callback over `n` more entries from
`i`, and whether it got to the end. The callback ends it by returning true. -/
def iterateScan (x : CapyInodeDisk) (cb : Name → BitVec 16 → Bool) :
    Nat → Nat → List (Name × BitVec 16) → FsM (List (Name × BitVec 16) × Bool)
  | 0, _, calls => pure (calls, true)
  | n + 1, i, calls => do
    let r ← capyfsGetDataBlock m x (i / direntsPerBlock) false
    match r.block with
    | none => pure (calls, false)
    | some blk =>
      if blk = 0#32 then iterateScan x cb n (i + 1) calls
      else
        let b ← attempt (bufferGet blk.toNat)
        match b with
        | none => pure (calls, false)
        | some b =>
          let off := i % direntsPerBlock
          let name := fieldName (direntName b off)
          if direntIno b off = 0#32 ∨ direntName b off 0 = 0 then iterateScan x cb n (i + 1) calls
          else
            let child ← attempt (capyfsReadInodeDisk m (direntIno b off).toNat)
            match child with
            | none => pure (calls, false)
            | some child =>
              let calls := calls ++ [(name, child.mode)]
              if cb name child.mode then pure (calls, true) else iterateScan x cb n (i + 1) calls

def capyfsIterate (dir : VInode) (cb : Name → BitVec 16 → Bool) :
    FsM (List (Name × BitVec 16) × Bool) :=
  if !dir.isDir then pure ([], false) else do
  let x ← attempt (capyfsReadInodeDisk m dir.ino)
  match x with
  | none => pure ([], false)
  | some x => iterateScan m x cb (x.size.toNat / direntSize) 0 []

/-- A directory's inode with the size on disk, which most calls on it copy into
the one their caller holds. -/
def refreshSize (dir : VInode) : FsM VInode := do
  let x ← attempt (capyfsReadInodeDisk m dir.ino)
  match x with
  | none => pure dir
  | some x => pure { dir with size := x.size }

end CapyOS
