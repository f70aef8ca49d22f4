import CapyOS.Storage.BlockDevice

namespace CapyOS
open Lib

/-- A `struct block_device` seen through its `ops`: two sizes and two operations
on the device at the bottom of the stack. -/
structure BlockOps where
  blockSize : Nat
  blockCount : Nat
  readBlock : BlockDevice → Nat → Option Bytes
  writeBlock : BlockDevice → Nat → Bytes → Bool × BlockDevice
  blockSize_lt : blockSize < 2 ^ 32
  blockCount_lt : blockCount < 2 ^ 32

namespace BlockOps

/-- `block_device_read` for a driver with the plain operations. -/
def read (o : BlockOps) (d : BlockDevice) (n : Nat) : Option Bytes :=
  if n < o.blockCount then o.readBlock d n else none

def write (o : BlockOps) (d : BlockDevice) (n : Nat) (b : Bytes) : Bool × BlockDevice :=
  if n < o.blockCount then o.writeBlock d n b else (false, d)

end BlockOps

/-- The driver of the device itself. -/
def deviceOps (d : BlockDevice) : BlockOps where
  blockSize := d.blockSize
  blockCount := d.blockCount
  readBlock := blockDeviceRead
  writeBlock := blockDeviceWrite
  blockSize_lt := d.blockSize_lt
  blockCount_lt := d.blockCount_lt

/-- The bytes of a `struct block_device` and of a wrapper's context. -/
def blockDeviceBytes : Nat := 32
def wrapperCtxBytes : Nat := 16

def offRead (lower : BlockOps) (start count : Nat) (d : BlockDevice) (blockNo : Nat) :
    Option Bytes :=
  if blockNo < count then lower.read d (u32 (start + blockNo)) else none

def offWrite (lower : BlockOps) (start count : Nat) (d : BlockDevice) (blockNo : Nat)
    (b : Bytes) : Bool × BlockDevice :=
  if blockNo < count then lower.write d (u32 (start + blockNo)) b else (false, d)

def blockOffsetWrap (heap : Heap) (lower : BlockOps) (startLba lbaCount : UInt32) :
    Option BlockOps :=
  if lbaCount.toNat = 0 then none
  else if lower.blockCount ≤ startLba.toNat then none
  else if lower.blockCount - startLba.toNat < lbaCount.toNat then none
  else if heap blockDeviceBytes && heap wrapperCtxBytes then
    some {
      blockSize := lower.blockSize
      blockCount := lbaCount.toNat
      readBlock := offRead lower startLba.toNat lbaCount.toNat
      writeBlock := offWrite lower startLba.toNat lbaCount.toNat
      blockSize_lt := lower.blockSize_lt
      blockCount_lt := lbaCount.toNat_lt }
  else none

/-- The loop of `chunk_read`: `n` lower blocks from the `i`-th on, each put at its
place in the buffer. -/
def chunkReadLoop (lower : BlockOps) (start : Nat) (d : BlockDevice) (dst : Bytes) (i : Nat) :
    Nat → Option Bytes
  | 0 => some dst
  | n + 1 =>
    match lower.read d (u32 (start + i)) with
    | none => none
    | some b =>
      chunkReadLoop lower start d
        (blit dst (u32 (i * lower.blockSize)) lower.blockSize b) (i + 1) n

def chunkRead (lower : BlockOps) (ratio : Nat) (d : BlockDevice) (blockNo : Nat) : Option Bytes :=
  chunkReadLoop lower (u32 (blockNo * ratio)) d zeros 0 ratio

def chunkWriteLoop (lower : BlockOps) (start : Nat) (src : Bytes) (d : BlockDevice) (i : Nat) :
    Nat → Bool × BlockDevice
  | 0 => (true, d)
  | n + 1 =>
    match lower.write d (u32 (start + i)) (fun j => src (u32 (i * lower.blockSize) + j)) with
    | (false, d') => (false, d')
    | (true, d') => chunkWriteLoop lower start src d' (i + 1) n

def chunkWrite (lower : BlockOps) (ratio : Nat) (d : BlockDevice) (blockNo : Nat) (src : Bytes) :
    Bool × BlockDevice :=
  chunkWriteLoop lower (u32 (blockNo * ratio)) src d 0 ratio

def blockChunkedWrap (heap : Heap) (lower : BlockOps) (chunkSize : UInt32) : Option BlockOps :=
  if chunkSize.toNat = 0 ∨ chunkSize.toNat % lower.blockSize ≠ 0 then none
  else
    let ratio := chunkSize.toNat / lower.blockSize
    if ratio = 0 ∨ lower.blockCount < ratio then none
    else if heap blockDeviceBytes && heap wrapperCtxBytes then
      if lower.blockCount / ratio = 0 then none
      else some {
        blockSize := chunkSize.toNat
        blockCount := lower.blockCount / ratio
        readBlock := chunkRead lower ratio
        writeBlock := chunkWrite lower ratio
        blockSize_lt := chunkSize.toNat_lt
        blockCount_lt := Nat.lt_of_le_of_lt (Nat.div_le_self _ _) lower.blockCount_lt }
    else none

end CapyOS
