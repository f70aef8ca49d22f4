import CapyOS.Storage.BlockDevice

namespace CapyOS
open Lib

def capyfsMagic : BitVec 32 := 0x4E524653#32
def capyfsVersion : BitVec 32 := 2#32
def capyfsBlockSize : Nat := 4096
def capyfsNameMax : Nat := 32
def vfsModeFile : BitVec 16 := 1#16
def vfsModeDir : BitVec 16 := 2#16

def bitsPerBlock : Nat := capyfsBlockSize * 8

structure CapySuper where
  magic : BitVec 32
  version : BitVec 32
  blockSize : BitVec 32
  blockCount : BitVec 32
  inodeCount : BitVec 32
  bmapStart : BitVec 32
  imapStart : BitVec 32
  inodeStart : BitVec 32
  dataStart : BitVec 32
  deriving DecidableEq

structure CapyInodeDisk where
  mode : BitVec 16
  links : BitVec 16
  size : BitVec 32
  uid : BitVec 32
  gid : BitVec 32
  perm : BitVec 16
  reserved : BitVec 16
  direct : Fin 12 → BitVec 32
  indirect : BitVec 32

def CapySuper.fields (s : CapySuper) : List (Nat × Nat) :=
  [(4, s.magic.toNat), (4, s.version.toNat), (4, s.blockSize.toNat), (4, s.blockCount.toNat),
    (4, s.inodeCount.toNat), (4, s.bmapStart.toNat), (4, s.imapStart.toNat),
    (4, s.inodeStart.toNat), (4, s.dataStart.toNat)]

/-- The superblock as a zero-padded block. -/
def CapySuper.bytes (s : CapySuper) : Bytes := pack s.fields

def capySuperSize : Nat := 36

def readCapySuper (b : Bytes) : CapySuper where
  magic := field32 b 0
  version := field32 b 4
  blockSize := field32 b 8
  blockCount := field32 b 12
  inodeCount := field32 b 16
  bmapStart := field32 b 20
  imapStart := field32 b 24
  inodeStart := field32 b 28
  dataStart := field32 b 32

def inodeDiskSize : Nat := 72

def CapyInodeDisk.fields (x : CapyInodeDisk) : List (Nat × Nat) :=
  [(2, x.mode.toNat), (2, x.links.toNat), (4, x.size.toNat), (4, x.uid.toNat), (4, x.gid.toNat),
    (2, x.perm.toNat), (2, x.reserved.toNat)] ++
  (List.ofFn x.direct ++ [x.indirect]).map (fun p => (4, p.toNat))

def CapyInodeDisk.bytes (x : CapyInodeDisk) : Bytes := pack x.fields

/-- The inode record at byte offset `o` of a block. -/
def readInodeAt (b : Bytes) (o : Nat) : CapyInodeDisk where
  mode := field16 b o
  links := field16 b (o + 2)
  size := field32 b (o + 4)
  uid := field32 b (o + 8)
  gid := field32 b (o + 12)
  perm := field16 b (o + 16)
  reserved := field16 b (o + 18)
  direct := fun i => field32 b (o + 20 + 4 * i.val)
  indirect := field32 b (o + 68)

def emptyInode : CapyInodeDisk :=
  { mode := 0, links := 0, size := 0, uid := 0, gid := 0, perm := 0, reserved := 0,
    direct := fun _ => 0, indirect := 0 }

def CapyInodeDisk.isDir (x : CapyInodeDisk) : Bool := x.mode &&& vfsModeDir != 0#16

/-- Inode records in a block; the rest of the block stays unused. -/
def inodesPerBlock : Nat := capyfsBlockSize / inodeDiskSize

end CapyOS
