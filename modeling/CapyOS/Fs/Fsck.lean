import CapyOS.Fs.Capyfs

namespace CapyOS
open Lib

inductive FsckErrorType where
  | badSuperblock
  | badMagic
  | badVersion
  | orphanInode
  | orphanBlock
  | doubleAllocInode
  | badInodeLink
  | crossLinked
  | badRoot
  deriving DecidableEq, Repr

structure FsckError where
  type : FsckErrorType
  inode : Nat
  block : Nat
  detail : Nat
  deriving DecidableEq, Repr

def fsckMaxErrors : Nat := 64

/-- A report. Its error count is the length of its list of errors. -/
structure FsckResult where
  clean : Bool
  errors : List FsckError
  inodesUsed : BitVec 32
  inodesFree : BitVec 32
  blocksUsed : BitVec 32
  blocksFree : BitVec 32
  dirsFound : BitVec 32
  filesFound : BitVec 32
  orphanInodes : BitVec 32
  orphanBlocks : BitVec 32
  crossLinked : BitVec 32
  repaired : Bool
  deriving DecidableEq, Repr

def FsckResult.start : FsckResult :=
  { clean := true, errors := [], inodesUsed := 0, inodesFree := 0, blocksUsed := 0,
    blocksFree := 0, dirsFound := 0, filesFound := 0, orphanInodes := 0, orphanBlocks := 0,
    crossLinked := 0, repaired := false }

/-- Errors past the last slot are dropped. -/
def fsckAddError (r : FsckResult) (type : FsckErrorType) (inode block detail : Nat) : FsckResult :=
  if fsckMaxErrors ≤ r.errors.length then r
  else { r with errors := r.errors ++ [⟨type, inode, block, detail⟩] }

/-- An error that also takes the verdict back. -/
def fsckFault (r : FsckResult) (type : FsckErrorType) (inode block detail : Nat) : FsckResult :=
  { fsckAddError r type inode block detail with clean := false }

/-- Bytes of a bitmap in memory, and device blocks it takes. -/
def mapBytes (count : Nat) : Nat := (count + 7) / 8
def mapBlocks (bs count : Nat) : Nat := (mapBytes count + bs - 1) / bs

/-- The checks are made in 64 bits, where none of the sums wraps. -/
def fsckSuperGeometryValid (sb : CapySuper) (devBlockCount devBlockSize : Nat) : Bool :=
  let u32Max := 0xFFFFFFFF
  let bs := devBlockSize
  let inodeCount := sb.inodeCount.toNat
  let blockCount := sb.blockCount.toNat
  let ipb := bs / inodeDiskSize
  devBlockCount ≠ 0 ∧ 8 ≤ bs ∧ sb.blockSize.toNat = bs ∧ inodeCount ≠ 0 ∧ blockCount ≠ 0 ∧
  blockCount ≤ devBlockCount ∧ ipb ≠ 0 ∧ inodeCount ≤ blockCount * ipb ∧
  sb.imapStart.toNat < devBlockCount ∧ sb.bmapStart.toNat < devBlockCount ∧
  sb.inodeStart.toNat < devBlockCount ∧ sb.dataStart.toNat ≤ blockCount ∧
  inodeCount + 7 ≤ u32Max ∧ blockCount + 7 ≤ u32Max ∧ inodeCount + (ipb - 1) ≤ u32Max ∧
  mapBytes inodeCount + (bs - 1) ≤ u32Max ∧ mapBytes blockCount + (bs - 1) ≤ u32Max ∧
  mapBlocks bs inodeCount * bs ≤ u32Max ∧ mapBlocks bs blockCount * bs ≤ u32Max ∧
  sb.imapStart.toNat + mapBlocks bs inodeCount ≤ devBlockCount ∧
  sb.bmapStart.toNat + mapBlocks bs blockCount ≤ devBlockCount

/-- An inode record that is in use, whatever the bitmap says. -/
def CapyInodeDisk.hasData (x : CapyInodeDisk) : Bool :=
  x.mode != 0#16 || x.size != 0#32 || x.links != 0#16

/-- Blocks read one after another into memory. What a failed read leaves there is
`junk`, the memory's old contents. -/
def readBlocks (d : BlockDevice) (start : Nat) (junk : Bytes) : Bytes := fun k =>
  match blockDeviceRead d (start + k / d.blockSize) with
  | some b => b (k % d.blockSize)
  | none => junk k

/-- The tracking bitmap of referenced blocks and the report so far. -/
structure FsckScan where
  blockSeen : Bytes
  result : FsckResult

def checkDirect (blockCount ino : Nat) (x : CapyInodeDisk) (s : FsckScan) (i : Fin 12) : FsckScan :=
  let blk := (x.direct i).toNat
  if blk = 0 then s
  else if blockCount ≤ blk then { s with result := fsckFault s.result .badInodeLink ino blk i.val }
  else if testBit s.blockSeen blk then
    let r := fsckFault s.result .crossLinked ino blk 0
    { s with result := { r with crossLinked := r.crossLinked + 1 } }
  else
    { blockSeen := setBit s.blockSeen blk,
      result := { s.result with blocksUsed := s.result.blocksUsed + 1 } }

/-- An indirect block is marked without a look at whether it was marked before. -/
def checkIndirect (blockCount : Nat) (x : CapyInodeDisk) (s : FsckScan) : FsckScan :=
  let ind := x.indirect.toNat
  if ind ≠ 0 ∧ ind < blockCount then
    { blockSeen := setBit s.blockSeen ind,
      result := { s.result with blocksUsed := s.result.blocksUsed + 1 } }
  else s

def countInode (x : CapyInodeDisk) (r : FsckResult) : FsckResult :=
  let r := if x.isDir then { r with dirsFound := r.dirsFound + 1 }
    else { r with filesFound := r.filesFound + 1 }
  { r with inodesUsed := r.inodesUsed + 1 }

def checkBitmapBit (ino : Nat) (bitmapAlloc : Bool) (r : FsckResult) : FsckResult :=
  if bitmapAlloc then r
  else
    let r := fsckFault r .orphanInode ino 0 0
    { r with orphanInodes := r.orphanInodes + 1 }

def checkInode (blockCount ino : Nat) (bitmapAlloc : Bool) (x : CapyInodeDisk) (s : FsckScan) :
    FsckScan :=
  if x.hasData then
    let s := { s with result := countInode x (checkBitmapBit ino bitmapAlloc s.result) }
    checkIndirect blockCount x ((List.finRange 12).foldl (checkDirect blockCount ino x) s)
  else if bitmapAlloc then { s with result := fsckFault s.result .doubleAllocInode ino 0 0 }
  else s

/-- The inodes of table block `ib`; the loop leaves at the first number past the
last inode. -/
def inodesOf (ipb inodeCount ib : Nat) : List Nat :=
  (List.range (min ipb (inodeCount - ib * ipb))).map (fun j => ib * ipb + j)

def checkOrphanBlock (diskBmap : Bytes) (s : FsckScan) (b : Nat) : FsckScan :=
  if testBit diskBmap b && !testBit s.blockSeen b then
    let r := fsckFault s.result .orphanBlock 0 b 0
    { s with result := { r with orphanBlocks := r.orphanBlocks + 1 } }
  else s

def inodesPerBlockOf (d : BlockDevice) : Nat := d.blockSize / inodeDiskSize

def inodeBlockCount (d : BlockDevice) (sb : CapySuper) : Nat :=
  (sb.inodeCount.toNat + inodesPerBlockOf d - 1) / inodesPerBlockOf d

section
variable (d : BlockDevice) (sb : CapySuper)

/-- One block of the inode table; a block that cannot be read is passed over. -/
def checkInodeBlock (bitmapAlloc : Nat → Bool) (s : FsckScan) (ib : Nat) : FsckScan :=
  match blockDeviceRead d (u32 (sb.inodeStart.toNat + ib)) with
  | none => s
  | some b =>
    (inodesOf (inodesPerBlockOf d) sb.inodeCount.toNat ib).foldl (fun s ino =>
      checkInode sb.blockCount.toNat ino (bitmapAlloc ino)
        (readInodeAt b (inodeDiskSize * (ino % inodesPerBlockOf d))) s) s

def checkRoot (r : FsckResult) : FsckResult :=
  match blockDeviceRead d sb.inodeStart.toNat with
  | none => r
  | some b =>
    let root := readInodeAt b 0
    if root.isDir then r else fsckFault r .badRoot 0 0 root.mode.toNat

/-- The walk over an accepted volume. Without memory for the disk's bitmaps every
inode counts as free and the block bitmap is not looked at. -/
def fsckWalk (heap : Heap) (junk : Bytes) (r : FsckResult) : FsckResult :=
  let inodeCount := sb.inodeCount.toNat
  let blockCount := sb.blockCount.toNat
  let haveImap := heap (mapBlocks d.blockSize inodeCount * d.blockSize)
  let haveBmap := heap (mapBlocks d.blockSize blockCount * d.blockSize)
  let diskImap := readBlocks d sb.imapStart.toNat junk
  let diskBmap := readBlocks d sb.bmapStart.toNat junk
  let s := (List.range (inodeBlockCount d sb)).foldl
    (checkInodeBlock d sb (fun ino => haveImap && testBit diskImap ino)) ⟨zeros, r⟩
  let s := if haveBmap then
      (List.range' sb.dataStart.toNat (blockCount - sb.dataStart.toNat)).foldl
        (checkOrphanBlock diskBmap) s
    else s
  checkRoot d sb { s.result with
    inodesFree := BitVec.ofNat 32 inodeCount - s.result.inodesUsed,
    blocksFree := BitVec.ofNat 32 blockCount - s.result.blocksUsed }

end

/-- The code and the report of a check; `junk` is what fresh memory holds. -/
def fsckCheck (heap : Heap) (junk : Bytes) (d : BlockDevice) : Int × FsckResult :=
  let r := FsckResult.start
  if !heap d.blockSize then (-1, r) else
  match blockDeviceRead d 0 with
  | none => (-1, fsckFault r .badSuperblock 0 0 0)
  | some b =>
    let sb := readCapySuper b
    if sb.magic ≠ capyfsMagic then (-1, fsckFault r .badMagic 0 0 sb.magic.toNat) else
    let r := if sb.version ≠ capyfsVersion then fsckFault r .badVersion 0 0 sb.version.toNat else r
    if !fsckSuperGeometryValid sb d.blockCount d.blockSize then
      (-1, fsckFault r .badSuperblock 0 0 0)
    else if !heap (mapBytes sb.inodeCount.toNat) || !heap (mapBytes sb.blockCount.toNat) then (-1, r)
    else (0, fsckWalk d sb heap junk r)

/-- The block buffer of a repair, which `sb` points into throughout, and the
bitmaps under construction. -/
structure RepairScan where
  buf : Bytes
  newImap : Bytes
  newBmap : Bytes

/-- The superblock as the code finds it at this point of the repair. -/
def RepairScan.sb (s : RepairScan) : CapySuper := readCapySuper s.buf

def markBlock (blockCount : Nat) (bmap : Bytes) (p : BitVec 32) : Bytes :=
  if p ≠ 0#32 ∧ p.toNat < blockCount then setBit bmap p.toNat else bmap

def repairInode (blockCount : Nat) (x : CapyInodeDisk) (s : RepairScan) (ino : Nat) : RepairScan :=
  if x.hasData then
    { s with
      newImap := setBit s.newImap ino,
      newBmap := markBlock blockCount
        ((List.finRange 12).foldl (fun m i => markBlock blockCount m (x.direct i)) s.newBmap)
        x.indirect }
  else s

def repairInodeBlock (d : BlockDevice) (inodeCount blockCount : Nat) (s : RepairScan) (ib : Nat) :
    RepairScan :=
  match blockDeviceRead d (u32 (s.sb.inodeStart.toNat + ib)) with
  | none => s
  | some b =>
    (inodesOf (inodesPerBlockOf d) inodeCount ib).foldl (fun s ino =>
      repairInode blockCount (readInodeAt b (inodeDiskSize * (ino % inodesPerBlockOf d))) s ino)
      { s with buf := b }

/-- Block `i` of a bitmap of `len` bytes as it is written out. -/
def bitmapBlock (bs len : Nat) (map : Bytes) (i : Nat) : Bytes := fun k =>
  if k < min bs (len - i * bs) then map (i * bs + k) else 0

/-- The writes of a bitmap to the blocks from `start`. A block that gets no buffer is skipped. -/
def bitmapWrites (got : Nat → Bool) (bs count start : Nat) (map : Bytes) : List Write :=
  ((List.range (mapBlocks bs count)).filter got).map (fun i =>
    (u32 (start + i), bitmapBlock bs (mapBytes count) map i))

/-- The code, the report and the device of a repair. `kmalloc k` is the answer to its `k`-th
request for memory: the buffer, the two bitmaps, then one for each block written. Failed
writes go unnoticed. -/
def fsckRepair (kmalloc : Nat → Bool) (d : BlockDevice) (r : FsckResult) :
    Int × FsckResult × BlockDevice :=
  if !kmalloc 0 then (-1, r, d) else
  match blockDeviceRead d 0 with
  | none => (-1, r, d)
  | some b =>
    let sb := readCapySuper b
    let inodeCount := sb.inodeCount.toNat
    let blockCount := sb.blockCount.toNat
    if sb.magic ≠ capyfsMagic ∨ !fsckSuperGeometryValid sb d.blockCount d.blockSize then (-1, r, d)
    else if !kmalloc 1 || !kmalloc 2 then (-1, r, d)
    else
      let reserved := (List.range (min sb.dataStart.toNat blockCount)).foldl setBit zeros
      let s := (List.range (inodeBlockCount d sb)).foldl
        (repairInodeBlock d inodeCount blockCount) ⟨b, zeros, reserved⟩
      -- after the scan the buffer holds the last table block that was read
      let imapBlocks := mapBlocks d.blockSize inodeCount
      (0, { r with repaired := true },
        d.apply (bitmapWrites (fun i => kmalloc (3 + i)) d.blockSize inodeCount
            s.sb.imapStart.toNat s.newImap ++
          bitmapWrites (fun i => kmalloc (3 + imapBlocks + i)) d.blockSize blockCount
            s.sb.bmapStart.toNat s.newBmap))

/-- Where an inode keeps a block pointer. -/
inductive Slot where
  | direct (i : Fin 12)
  | indirect
  | entry (k : Nat)
  deriving DecidableEq

section
variable (d : BlockDevice) (sb : CapySuper)

/-- A bitmap that starts at block `start`, as one run of bytes. -/
def diskMap (start : Nat) : Bytes := fun k => d.blocks (start + k / d.blockSize) (k % d.blockSize)

def imapBit (ino : Nat) : Bool := testBit (diskMap d sb.imapStart.toNat) ino

def bmapBit (blk : Nat) : Bool := testBit (diskMap d sb.bmapStart.toNat) blk

/-- The record of an inode in the table. -/
def tableInode (ino : Nat) : CapyInodeDisk :=
  readInodeAt (d.blocks (u32 (sb.inodeStart.toNat + ino / inodesPerBlockOf d)))
    (inodeDiskSize * (ino % inodesPerBlockOf d))

/-- The pointer in a slot of an inode. The entries are those of its indirect
block, when it has one on the volume. -/
def slotPtr (x : CapyInodeDisk) : Slot → Nat
  | .direct i => (x.direct i).toNat
  | .indirect => x.indirect.toNat
  | .entry k =>
    if x.indirect ≠ 0#32 ∧ x.indirect.toNat < sb.blockCount.toNat ∧ k < d.blockSize / 4 then
      (field32 (d.blocks x.indirect.toNat) (4 * k)).toNat
    else 0

/-- An inode of the volume whose record is in use. -/
def InUse (ino : Nat) : Prop := ino < sb.inodeCount.toNat ∧ (tableInode d sb ino).hasData = true

/-- Some slot of an inode in use holds the number of block `b`. -/
def Referenced (b : Nat) : Prop :=
  b ≠ 0 ∧ ∃ ino slot, InUse d sb ino ∧ slotPtr d sb (tableInode d sb ino) slot = b

/-- What a clean volume is to be. -/
structure Consistent : Prop where
  imap : ∀ ino, ino < sb.inodeCount.toNat → imapBit d sb ino = (tableInode d sb ino).hasData
  root : (tableInode d sb 0).isDir = true
  range : ∀ ino slot, InUse d sb ino →
    slotPtr d sb (tableInode d sb ino) slot < sb.blockCount.toNat
  once : ∀ ino slot ino' slot', InUse d sb ino → InUse d sb ino' →
    slotPtr d sb (tableInode d sb ino) slot ≠ 0 →
    slotPtr d sb (tableInode d sb ino) slot = slotPtr d sb (tableInode d sb ino') slot' →
    ino = ino' ∧ slot = slot'
  used : ∀ b, sb.dataStart.toNat ≤ b → b < sb.blockCount.toNat → bmapBit d sb b = true →
    Referenced d sb b

end

/-! The `uint32_t` arithmetic of `fsck_check` behind its geometry gate, and the bytes it
touches in its bitmaps. A loop that leaves early runs through a part of these. -/

variable (d : BlockDevice) (sb : CapySuper)

def imapBlocks : Nat := mapBlocks d.blockSize sb.inodeCount.toNat

def bmapBlocks : Nat := mapBlocks d.blockSize sb.blockCount.toNat

/-- The inodes of the table, block by block. -/
def tableInodes : List Nat :=
  (List.range (inodeBlockCount d sb)).flatMap (inodesOf (inodesPerBlockOf d) sb.inodeCount.toNat)

/-- The values of `j` for which `ino` is computed in block `ib`, the one that leaves the
loop included. -/
def inodeSlots (ib : Nat) : List Nat :=
  List.range (min (inodesPerBlockOf d) (sb.inodeCount.toNat - ib * inodesPerBlockOf d + 1))

/-- The operands of every sum; a following `- 1` is taken from the sum. -/
def fsckSums : List (Nat × Nat) :=
  [(sb.inodeCount.toNat, 7), (sb.blockCount.toNat, 7),
    (mapBytes sb.inodeCount.toNat, d.blockSize)] ++
  (List.range (imapBlocks d sb)).map (fun i => (sb.imapStart.toNat, i)) ++
  [(mapBytes sb.blockCount.toNat, d.blockSize)] ++
  (List.range (bmapBlocks d sb)).map (fun i => (sb.bmapStart.toNat, i)) ++
  [(sb.inodeCount.toNat, inodesPerBlockOf d)] ++
  (List.range (inodeBlockCount d sb)).flatMap (fun ib =>
    (sb.inodeStart.toNat, ib) :: (inodeSlots d sb ib).map (fun j => (ib * inodesPerBlockOf d, j)))

/-- The operands of every product. -/
def fsckProducts : List (Nat × Nat) :=
  (List.range (imapBlocks d sb)).map (fun i => (i, d.blockSize)) ++
  (List.range (bmapBlocks d sb)).map (fun i => (i, d.blockSize)) ++
  (List.range (inodeBlockCount d sb)).map (fun ib => (ib, inodesPerBlockOf d))

inductive FsckArray where
  | inodeSeen | blockSeen | diskImap | diskBmap

/-- The length that was allocated. -/
def FsckArray.length : FsckArray → Nat
  | .inodeSeen => mapBytes sb.inodeCount.toNat
  | .blockSeen => mapBytes sb.blockCount.toNat
  | .diskImap => imapBlocks d sb * d.blockSize
  | .diskBmap => bmapBlocks d sb * d.blockSize

/-- The bytes that `n` blocks are read into. -/
def filledBytes (n : Nat) : List Nat :=
  (List.range n).flatMap (fun i => (List.range d.blockSize).map (fun k => i * d.blockSize + k))

/-- The block numbers of an inode that the checks on them let through. -/
def checkedPointers (x : CapyInodeDisk) : List Nat :=
  ((List.ofFn x.direct ++ [x.indirect]).map BitVec.toNat).filter
    (fun blk => blk ≠ 0 ∧ blk < sb.blockCount.toNat)

/-- The blocks of the scan for orphans. -/
def orphanRange : List Nat :=
  List.range' sb.dataStart.toNat (sb.blockCount.toNat - sb.dataStart.toNat)

/-- The indices into a bitmap in memory. -/
def fsckIndices : FsckArray → List Nat
  | .inodeSeen => (tableInodes d sb).map (· / 8)
  | .blockSeen =>
    ((tableInodes d sb).flatMap (fun ino => checkedPointers sb (tableInode d sb ino)) ++
      orphanRange sb).map (· / 8)
  | .diskImap => filledBytes d (imapBlocks d sb) ++ (tableInodes d sb).map (· / 8)
  | .diskBmap => filledBytes d (bmapBlocks d sb) ++ (orphanRange sb).map (· / 8)

/-- Nothing wraps, and every index is inside what was allocated. -/
structure ArithmeticSafe : Prop where
  sums : ∀ p ∈ fsckSums d sb, p.1 + p.2 < 2 ^ 32
  products : ∀ p ∈ fsckProducts d sb, p.1 * p.2 < 2 ^ 32
  indices : ∀ array, ∀ i ∈ fsckIndices d sb array, i < array.length d sb

end CapyOS
