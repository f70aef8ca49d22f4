import CapyOS.Fs.CapyfsOps
import CapyOS.Fs.JournalIntegration

namespace CapyOS
open Lib

/-- The block count `capyfs_format` works with. -/
def formatBlockCount (d : BlockDevice) (blockCount : Nat) : Nat :=
  if blockCount = 0 ∨ d.blockCount < blockCount then d.blockCount else blockCount

def formatInodeCount (inodeCount : Nat) : Nat := if inodeCount = 0 then 64 else inodeCount

/-- Blocks of a bitmap with one bit per item. The sum is a `uint32_t`. -/
def bitmapBlocks (count : Nat) : Nat := u32 (count + bitsPerBlock - 1) / bitsPerBlock

/-- Blocks of the inode table. `sizeof` makes the product a `size_t`. -/
def inodeTableBlocks (inodeCount : Nat) : Nat :=
  (inodeCount * inodeDiskSize + capyfsBlockSize - 1) / capyfsBlockSize

/-- The regions of a volume, in blocks. -/
structure Layout where
  blockCount : Nat
  inodeCount : Nat
  bmapStart : Nat
  imapStart : Nat
  inodeStart : Nat
  dataStart : Nat
  deriving DecidableEq, Repr

def formatLayout (d : BlockDevice) (inodeCount blockCount : Nat) : Layout :=
  let bc := formatBlockCount d blockCount
  let ic := formatInodeCount inodeCount
  let bmapStart := 1
  let imapStart := bmapStart + bitmapBlocks bc
  let inodeStart := imapStart + bitmapBlocks ic
  { blockCount := bc, inodeCount := ic, bmapStart := bmapStart, imapStart := imapStart,
    inodeStart := inodeStart, dataStart := inodeStart + inodeTableBlocks ic }

def Layout.super (l : Layout) : CapySuper :=
  { magic := capyfsMagic, version := capyfsVersion, blockSize := BitVec.ofNat 32 capyfsBlockSize,
    blockCount := BitVec.ofNat 32 l.blockCount, inodeCount := BitVec.ofNat 32 l.inodeCount,
    bmapStart := BitVec.ofNat 32 l.bmapStart, imapStart := BitVec.ofNat 32 l.imapStart,
    inodeStart := BitVec.ofNat 32 l.inodeStart, dataStart := BitVec.ofNat 32 l.dataStart }

/-- Block `map` of a fresh block bitmap: the blocks below `used` are taken. -/
def reservedBitmap (used map : Nat) : Bytes :=
  let bitStart := map * bitsPerBlock
  let bitEnd := min (bitStart + bitsPerBlock) used
  (List.range (bitEnd - bitStart)).foldl setBit zeros

def rootInode : CapyInodeDisk :=
  { emptyInode with mode := vfsModeDir, links := 1, perm := 0o755 }

/-- The writes of a format in order, each with the code a failure returns. -/
def formatWrites (l : Layout) : List (Int × Write) :=
  [(-12, (0, l.super.bytes))] ++
  (List.range (l.dataStart - l.bmapStart)).map (fun i => (-13, (l.bmapStart + i, zeros))) ++
  (List.range (l.imapStart - l.bmapStart)).map
    (fun map => (-14, (l.bmapStart + map, reservedBitmap l.dataStart map))) ++
  [(-15, (l.imapStart, setBit zeros 0)), (-16, (l.inodeStart, rootInode.bytes))]

/-- Send writes until one fails. -/
def writeAll (d : BlockDevice) : List (Int × Write) → Int × BlockDevice
  | [] => (0, d)
  | (rc, w) :: rest => if d.canWrite w.1 then writeAll (d.write w) rest else (rc, d)

def capyfsFormat (d : BlockDevice) (inodeCount blockCount : Nat) : Int × BlockDevice :=
  if d.blockSize ≠ capyfsBlockSize then (-10, d) else
  let l := formatLayout d inodeCount blockCount
  if l.blockCount ≤ l.dataStart then (-11, d) else writeAll d (formatWrites l)

/-- `kalloc` sizes of a mount and of a dentry. -/
def mountSize : Nat := 48
def dentrySize : Nat := 72

/-- What a mount leaves: its code, the device, the journal side table, and
whether the replay it may have started has ended. -/
structure MountOutcome where
  rc : Int
  dev : BlockDevice
  slots : List JournalSlot
  ended : Bool

variable (heap : Heap) (hmac : Hmac)

/-- `dev` is the address of the device, by which its journal slot is found. -/
def mountCapyfs (fuel : Nat) (secret : List Byte) (dev : Nat) (d : BlockDevice)
    (slots : List JournalSlot) : MountOutcome :=
  let fail (rc : Int) : MountOutcome := ⟨rc, d, slots, true⟩
  if d.blockSize ≠ capyfsBlockSize then fail (-11) else
  match blockDeviceRead d 0 with
  | none => fail (-12)
  | some b =>
    let super := readCapySuper b
    if super.magic ≠ capyfsMagic ∨ super.blockSize.toNat ≠ capyfsBlockSize then fail (-13)
    else if !heap mountSize then fail (-14)
    -- inode 0 is the first record of the table
    else if super.inodeCount = 0 ∨ !d.canRead super.inodeStart.toNat then fail (-15)
    else if !heap vfsInodeSize || !heap capyfsInodeSize then fail (-16)
    else if !heap dentrySize then fail (-17)
    else
      let r := capyfsJournalMountHook heap hmac fuel secret dev d super.dataStart.toNat
        (listBytes super.bytes capySuperSize) slots
      ⟨0, d.apply r.writes, r.slots, r.ended⟩

end CapyOS
