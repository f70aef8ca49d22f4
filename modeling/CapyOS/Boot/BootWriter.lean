import CapyOS.Storage.BlockDevice

namespace CapyOS
open Lib

/-! ### The partition table -/

structure MbrPartition where
  lbaStart : Nat
  sectorCount : Nat
  type : Nat
  bootable : Nat

def partitionTypeCapyosBoot : Nat := 0xDA
def partitionTypeLinux : Nat := 0x83

/-- A `struct mbr_partition` set to zero. -/
def noPartition : MbrPartition := ⟨0, 0, 0, 0⟩

def mbrEntry : Option MbrPartition → List (Nat × Nat)
  | none => [(16, 0)]
  | some p =>
    [(1, p.bootable), (3, 0), (1, p.type), (3, 0), (4, p.lbaStart), (4, p.sectorCount)]

def mbrSector (p1 p2 p3 p4 : Option MbrPartition) : Bytes :=
  pack ((446, 0) :: (mbrEntry p1 ++ mbrEntry p2 ++ mbrEntry p3 ++ mbrEntry p4) ++
    [(1, 0x55), (1, 0xAA)])

def writeMbrWithPartitions (d : BlockDevice) (p1 p2 p3 p4 : Option MbrPartition) :
    Bool × BlockDevice :=
  blockDeviceWrite d 0 (mbrSector p1 p2 p3 p4)

/-- The partitions `bootwriter_partition_disk` hands to its caller. -/
structure DiskParts where
  boot : MbrPartition
  system : MbrPartition
  data : MbrPartition

/-- One MiB in sectors, the alignment of every partition. -/
def bootAlign : Nat := 2048
def minBootSecs : Nat := 32768
def minDataSecs : Nat := 32768

/-- `(mb * 1024 * 1024) / 512` in 32 bits. -/
def mbToSectors (mb : Nat) : Nat := u32 (u32 (mb * 1024) * 1024) / 512

def alignUp (lba : Nat) : Nat :=
  if lba % bootAlign ≠ 0 then u32 (lba + (bootAlign - lba % bootAlign)) else lba

def bootSectors (bootMb : Nat) : Nat :=
  if mbToSectors bootMb < minBootSecs then minBootSecs else mbToSectors bootMb

def systemSectors (systemMb : Nat) : Nat := if systemMb > 0 then mbToSectors systemMb else 0

/-- The result of the call, the partitions it reports when it came to report any,
and the device it leaves. -/
def bootwriterPartitionDisk (d : BlockDevice) (bootMb systemMb : UInt32) :
    Bool × Option DiskParts × BlockDevice :=
  if d.blockSize ≠ 512 ∨ d.blockCount < 8192 then (false, none, d)
  else
    let bootSecs := bootSectors bootMb.toNat
    let systemStart := alignUp (u32 (bootAlign + bootSecs))
    let systemSecs := systemSectors systemMb.toNat
    let dataStart := alignUp (u32 (systemStart + systemSecs))
    if u32 (dataStart + minDataSecs) > d.blockCount then (false, none, d)
    else
      let boot := ⟨bootAlign, bootSecs, partitionTypeCapyosBoot, 0x80⟩
      let system :=
        if systemSecs > 0 then ⟨systemStart, systemSecs, partitionTypeLinux, 0⟩ else noPartition
      let data := ⟨dataStart, d.blockCount - dataStart, partitionTypeLinux, 0⟩
      let r := writeMbrWithPartitions d (some boot)
        (if systemSecs > 0 then some system else none) (some data) none
      (r.1, some ⟨boot, system, data⟩, r.2)

/-! ### Stage 1 -/

def stage1LbaPlaceholder : Nat := 0xDEADBEEF
def stage1SectorsPlaceholder : Nat := 0xBEEF

/-- The scan of `patch_u32` and `patch_u16` over the `n` positions from `i` on: the
patched buffer, and the positions where the placeholder was met. The scan reads
what it has already written. -/
def patchLoop (w placeholder value : Nat) (buf : Bytes) (i : Nat) : Nat → Bytes × List Nat
  | 0 => (buf, [])
  | n + 1 =>
    if load buf i w = placeholder then
      let r := patchLoop w placeholder value (store buf i w value) (i + 1) n
      (r.1, i :: r.2)
    else patchLoop w placeholder value buf (i + 1) n

/-- The common body of the two: nothing found is an error. -/
def patch (w placeholder value : Nat) (buf : Bytes) (len : Nat) : Option Bytes :=
  if len < w then none
  else
    let r := patchLoop w placeholder value buf 0 (len + 1 - w)
    if r.2.length > 0 then some r.1 else none

def patchU32 (buf : Bytes) (len placeholder value : Nat) : Option Bytes :=
  patch 4 placeholder value buf len

def patchU16 (buf : Bytes) (len placeholder value : Nat) : Option Bytes :=
  patch 2 placeholder value buf len

/-- The first 512 bytes of the image with the partition table of the disk. -/
def stage1Sector (stage1 existing : Bytes) : Bytes :=
  blit stage1 446 64 (fun i => existing (446 + i))

def bootSignature : Bytes := pack [(1, 0x55), (1, 0xAA)]

/-- What is checked of the sector read back: signature, first bytes, table. -/
def stage1Verified (sector verify : Bytes) : Bool :=
  verify 510 == 0x55 && verify 511 == 0xAA &&
  (List.range 16).all (fun i => verify i == sector i) &&
  (List.range 64).all (fun i => verify (446 + i) == sector (446 + i))

def bootwriterWriteStage1 (d : BlockDevice) (stage2Lba stage2Sectors : UInt32)
    (stage1Size : Nat) (stage1 : Bytes) : Bool × BlockDevice :=
  if stage1Size < 512 then (false, d)
  else
    match blockDeviceRead d 0 with
    | none => (false, d)
    | some existing =>
      match patchU32 (stage1Sector stage1 existing) 512 stage1LbaPlaceholder stage2Lba.toNat with
      | none => (false, d)
      | some sector =>
        match patchU16 sector 512 stage1SectorsPlaceholder (stage2Sectors.toNat % 2 ^ 16) with
        | none => (false, d)
        | some sector =>
          let sector := blit sector 510 2 bootSignature
          match blockDeviceWrite d 0 sector with
          | (false, d') => (false, d')
          | (true, d') =>
            match blockDeviceRead d' 0 with
            | none => (false, d')
            | some verify => (stage1Verified sector verify, d')

end CapyOS
