import CapyOS.Fs.Fsck
import CapyOS.Lib.Owned
import CapyOS.Fs.CapyfsFormat

namespace CapyOS
open Lib

/-- What a volume holds, apart from where it is kept: the two bitmaps, the inode
records and the data blocks. -/
@[ext]
structure Volume where
  imap : Nat → Bool
  bmap : Nat → Bool
  inode : Nat → CapyInodeDisk
  data : Nat → Bytes

/-- The volume on a device. What lies outside the volume's counts is blank. -/
def volumeOf (m : CapySuper) (d : BlockDevice) : Volume where
  imap ino := decide (ino < m.inodeCount.toNat) &&
    testBit (d.blocks (imapBlockNo m ino)) (ino % bitsPerBlock)
  bmap b := decide (m.dataStart.toNat ≤ b ∧ b < m.blockCount.toNat) &&
    testBit (d.blocks (bmapBlockNo m b)) (b % bitsPerBlock)
  inode ino := if ino < m.inodeCount.toNat then
    readInodeAt (d.blocks (inodeBlockNo m ino)) (inodeOffset ino) else emptyInode
  data b := if m.dataStart.toNat ≤ b ∧ b < m.blockCount.toNat then d.blocks b else zeros

def readDirent (b : Bytes) (off : Nat) : Nat × Name :=
  ((direntIno b off).toNat, fieldName (direntName b off))

namespace Volume
variable (v : Volume)

/-- The volume with another record for an inode. -/
def put (ino : Nat) (x : CapyInodeDisk) : Volume :=
  { v with inode := Function.update v.inode ino x }

/-- The volume with other contents in a data block. -/
def store (b : Nat) (c : Bytes) : Volume := { v with data := Function.update v.data b c }

/-- The pointer in a slot of a record. -/
def ptr (x : CapyInodeDisk) : Slot → BitVec 32
  | .direct i => x.direct i
  | .indirect => x.indirect
  | .entry k =>
    if x.indirect ≠ 0#32 ∧ k < entriesPerBlock then indirectEntry (v.data x.indirect.toNat) k else 0

/-- The block numbers that the slots of live inodes hold. -/
def pointers (k : Nat × Slot) : Nat :=
  if v.imap k.1 then (v.ptr (v.inode k.1) k.2).toNat else 0

/-- The slot for block `l` of a file. -/
def slotOf (l : Nat) : Slot := if h : l < 12 then .direct ⟨l, h⟩ else .entry (l - 12)

/-- A live inode that is a directory. -/
def IsDirectory (ino : Nat) : Prop := v.imap ino = true ∧ (v.inode ino).isDir = true

instance (ino : Nat) : Decidable (v.IsDirectory ino) :=
  inferInstanceAs (Decidable (_ ∧ _))

def entryCount (ino : Nat) : Nat := (v.inode ino).size.toNat / direntSize

/-- The block of entry `i` of a directory. -/
def entryBlock (ino i : Nat) : Nat :=
  (v.ptr (v.inode ino) (slotOf (i / direntsPerBlock))).toNat

/-- The entries of live directories: the inode number, 0 when the entry is free,
and the name. -/
def dirents (k : Nat × Nat) : Nat × Name :=
  if v.IsDirectory k.1 ∧ k.2 < v.entryCount k.1 ∧ v.entryBlock k.1 k.2 ≠ 0 then
    readDirent (v.data (v.entryBlock k.1 k.2)) (k.2 % direntsPerBlock)
  else (0, [])

def entries (k : Nat × Nat) : Nat := (v.dirents k).1

/-- What every step of a call keeps: blocks have one owner each, the root is a
directory, and directories have a block for each of their entries. -/
structure Sound : Prop where
  blocks : Owned v.pointers v.bmap
  root : v.IsDirectory 0
  full : ∀ ino i, v.IsDirectory ino → i < v.entryCount ino → v.entryBlock ino i ≠ 0

/-- What every call keeps: inodes have one entry each, too. -/
structure Safe : Prop extends Sound v where
  inodes : Owned v.entries v.imap

/-- No block is taken without an owner. -/
def Tight : Prop := Covered v.pointers v.bmap

end Volume

/-- A mounted volume and the inodes its users hold. -/
structure Session where
  fs : Fs
  handles : List VInode

/-- A call on held inodes, each named by its place among them. -/
inductive FsCall where
  | lookup (dir : Nat) (name : Name)
  | create (dir : Nat) (name : Name) (mode : BitVec 16) (info : Option VfsMetadata)
  | write (file pos : Nat) (src : Bytes) (size : Nat)
  | remove (dir : Nat) (name : Name) (isDir : Bool)
  | renameInode (srcDir : Nat) (srcName : Name) (dstDir : Nat) (dstName : Name)
  | setMetadata (inode : Nat) (info : VfsMetadata)

section
variable (heap : Heap) (m : CapySuper)

/-- Inodes that lookups and creations return are held from then on. Once an inode
is removed, its handles are gone. -/
def FsCall.run (s : Session) : FsCall → Session
  | .lookup dir name =>
    match s.handles[dir]? with
    | none => s
    | some h =>
      let r := capyfsLookup heap m h name s.fs
      ⟨r.2, s.handles ++ r.1.toList⟩
  | .create dir name mode info =>
    match s.handles[dir]? with
    | none => s
    | some h =>
      let r := capyfsCreate heap m h name mode info s.fs
      ⟨r.2, s.handles ++ r.1.toList⟩
  | .write file pos src size =>
    match s.handles[file]? with
    | none => s
    | some h =>
      let r := capyfsWrite m h pos src size s.fs
      ⟨r.2, match r.1 with
        | none => s.handles
        | some (_, h') => s.handles.set file h'⟩
  | .remove dir name isDir =>
    match s.handles[dir]? with
    | none => s
    | some h =>
      let target := (capyfsLookup heap m h name s.fs).1
      let r := capyfsRemove m h name isDir s.fs
      ⟨r.2, match r.1 with
        | none => s.handles
        | some _ => s.handles.filter (fun h' => some h'.ino ≠ target.map VInode.ino)⟩
  | .renameInode srcDir srcName dstDir dstName =>
    match s.handles[srcDir]?, s.handles[dstDir]? with
    | some src, some dst => ⟨(capyfsRenameInode m src srcName dst dstName s.fs).2, s.handles⟩
    | _, _ => s
  | .setMetadata inode info =>
    match s.handles[inode]? with
    | none => s
    | some h =>
      let r := capyfsSetMetadata m h info s.fs
      ⟨r.2, match r.1 with
        | none => s.handles
        | some h' => s.handles.set inode h'⟩

/-- The calls of a run, from first to last. -/
def runCalls (s : Session) (calls : List FsCall) : Session := calls.foldl (FsCall.run heap m) s

/-- What a mount starts with: the root inode, read before the journal hook, and
whatever hint the allocator was left with. -/
def mountSession (hmac : Hmac) (fuel : Nat) (secret : List Byte) (dev : Nat)
    (slots : List JournalSlot) (hint : Nat) (d : BlockDevice) : Session :=
  ⟨⟨(mountCapyfs heap hmac fuel secret dev d slots).dev, hint⟩,
    ((capyfsReadInodeDisk m 0 >>= capyfsCreateVfsInode heap 0) ⟨d, hint⟩).1.toList⟩

end

variable (d : BlockDevice) (sb : CapySuper)

/-- Slot `k.2` of live inode `k.1` holds the number of block `b`. -/
def Points (b : Nat) (k : Nat × Slot) : Prop :=
  k.1 < sb.inodeCount.toNat ∧ imapBit d sb k.1 = true ∧ slotPtr d sb (tableInode d sb k.1) k.2 = b

/-- The inode number in entry `k.2` of live directory `k.1`, or 0. -/
def direntAt (k : Nat × Nat) : Nat :=
  let x := tableInode d sb k.1
  let p := slotPtr d sb x (Volume.slotOf (k.2 / direntsPerBlock))
  if k.1 < sb.inodeCount.toNat ∧ imapBit d sb k.1 = true ∧ x.isDir = true ∧
      k.2 < x.size.toNat / direntSize ∧ p ≠ 0 then
    (direntIno (d.blocks p) (k.2 % direntsPerBlock)).toNat
  else 0

/-- Bitmaps, records and directories agree on what is in use. -/
structure AllocationConsistent : Prop where
  blocks : ∀ b, sb.dataStart.toNat ≤ b → b < sb.blockCount.toNat →
    (bmapBit d sb b = true ↔ ∃! k, Points d sb b k)
  live : ∀ k, direntAt d sb k ≠ 0 →
    direntAt d sb k < sb.inodeCount.toNat ∧ imapBit d sb (direntAt d sb k) = true
  once : ∀ k k', direntAt d sb k ≠ 0 → direntAt d sb k = direntAt d sb k' → k = k'

end CapyOS
