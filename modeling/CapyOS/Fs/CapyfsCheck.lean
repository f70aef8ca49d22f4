import CapyOS.Fs.CapyfsFormat

namespace CapyOS
open Lib

inductive CapyfsCheckResult where
  | ok
  | badDevice
  | ioError
  | badSuper
  | badLayout
  | badRootInode
  | badBitmap
  | badDirent
  deriving DecidableEq, Repr

structure CapyfsCheckReport where
  result : CapyfsCheckResult
  super : CapySuper
  reservedBlocksExpected : Nat
  rootReferencedBlocks : Nat
  rootEntries : Nat
  detailPrimary : Nat
  detailSecondary : Nat

/-- What the loops carry: the buffer that blocks are read into and the report. -/
structure CheckState where
  scratch : Bytes
  report : CapyfsCheckReport

/-- A step of the check; a step that refuses leaves its report. -/
abbrev Check (α : Type) : Type := Except CapyfsCheckReport α

namespace CapyfsCheckReport
variable (r : CapyfsCheckReport)

def details (primary secondary : Nat) : CapyfsCheckReport :=
  { r with detailPrimary := primary, detailSecondary := secondary }

def withResult (result : CapyfsCheckResult) : CapyfsCheckReport := { r with result := result }

end CapyfsCheckReport

/-- `memory_zero_local` and the first verdict. -/
def CapyfsCheckReport.start : CapyfsCheckReport where
  result := .badDevice
  super := readCapySuper zeros
  reservedBlocksExpected := 0
  rootReferencedBlocks := 0
  rootEntries := 0
  detailPrimary := 0
  detailSecondary := 0

section
variable (d : BlockDevice)

/-- The bit, `none` when its block cannot be read. The block of the map replaces
what the buffer held, and the report's second detail becomes its number. -/
def bitmapTestOnDisk (mapStart bit : Nat) (s : CheckState) : Option Bool × CheckState :=
  let mapBlock := u32 (mapStart + bit / bitsPerBlock)
  let report := { s.report with detailSecondary := mapBlock }
  match blockDeviceRead d mapBlock with
  | none => (none, { s with report := report })
  | some b => (some (testBit b (bit % bitsPerBlock)), ⟨b, report⟩)

/-- A bit that must be set. A bit that is clear is reported with the number
`place`, a block that cannot be read with its own number. -/
def requireBit (mapStart bit place : Nat) (s : CheckState) : Check CheckState :=
  match bitmapTestOnDisk d mapStart bit s with
  | (some true, s) => .ok s
  | (some false, s) => .error (s.report.details bit place)
  | (none, s) => .error { s.report with detailPrimary := bit }

/-- The inode count times the record size is a `uint32_t` here. -/
def checkTableBlocks (inodeCount : Nat) : Nat :=
  u32 (inodeCount * inodeDiskSize + capyfsBlockSize - 1) / capyfsBlockSize

def validateLayout (m : CapySuper) : Bool :=
  m.magic = capyfsMagic ∧ m.version = capyfsVersion ∧ m.blockSize.toNat = capyfsBlockSize ∧
  m.blockCount.toNat ≠ 0 ∧ m.inodeCount.toNat ≠ 0 ∧
  m.bmapStart.toNat = 1 ∧
  m.imapStart.toNat = u32 (m.bmapStart.toNat + bitmapBlocks m.blockCount.toNat) ∧
  m.inodeStart.toNat = u32 (m.imapStart.toNat + bitmapBlocks m.inodeCount.toNat) ∧
  m.dataStart.toNat = u32 (m.inodeStart.toNat + checkTableBlocks m.inodeCount.toNat) ∧
  m.dataStart.toNat < m.blockCount.toNat

variable (m : CapySuper)

/-- A block pointer must lie in the data region and be marked. -/
def checkPointer (block place : Nat) (s : CheckState) : Check CheckState :=
  if block < m.dataStart.toNat ∨ m.blockCount.toNat ≤ block then
    .error (s.report.details block place)
  else requireBit d m.bmapStart.toNat block place s

def countBlock (s : CheckState) : CheckState :=
  { s with report := { s.report with rootReferencedBlocks := s.report.rootReferencedBlocks + 1 } }

def checkRootDirect (x : CapyInodeDisk) : List (Fin 12) → CheckState → Check CheckState
  | [], s => .ok s
  | i :: rest, s =>
    if x.direct i = 0#32 then checkRootDirect x rest s
    else do
      let s ← checkPointer d m (x.direct i).toNat i.val s
      checkRootDirect x rest (countBlock s)

/-- The loop over `n` more entries of the indirect block from entry `k`. It reads
the entries from the buffer that the test of a bit also reads into. -/
def checkRootEntries : Nat → Nat → CheckState → Check CheckState
  | 0, _, s => .ok s
  | n + 1, k, s =>
    let block := indirectEntry s.scratch k
    if block = 0#32 then checkRootEntries n (k + 1) s
    else do
      let s ← checkPointer d m block.toNat k s
      checkRootEntries n (k + 1) (countBlock s)

def checkRootIndirect (x : CapyInodeDisk) (s : CheckState) : Check CheckState :=
  if x.indirect = 0#32 then .ok s
  else do
    let s ← checkPointer d m x.indirect.toNat 0xFFFFFFFF s
    match blockDeviceRead d x.indirect.toNat with
    | none => .error s.report
    | some b => checkRootEntries d m entriesPerBlock 0 (countBlock { s with scratch := b })

def maxRootSize : Nat := (12 + entriesPerBlock) * capyfsBlockSize

def validateRootBlocks (x : CapyInodeDisk) (s : CheckState) : Check CheckState :=
  if x.isDir = false ∨ x.links = 0#16 ∨ x.size.toNat % direntSize ≠ 0 ∨ maxRootSize < x.size.toNat then
    .error (s.report.details x.mode.toNat x.size.toNat)
  else do
    let s ← checkRootDirect d m x (List.finRange 12) s
    checkRootIndirect d m x s

/-- The first `cap` bytes hold the end of a string. -/
def nameHasTerminator (name : Bytes) (cap : Nat) : Bool := (List.range cap).any (fun k => name k = 0)

/-- The pointer for block `l` of the root, from the record and a copy of the
indirect block, and `none` past the last entry. -/
def rootBlock (x : CapyInodeDisk) (indirectEntries : Bytes) (l : Nat) : Option (BitVec 32) :=
  if h : l < 12 then some (x.direct ⟨l, h⟩)
  else if entriesPerBlock ≤ l - 12 then none
  else some (indirectEntry indirectEntries (l - 12))

/-- The entry in slot `off` of the buffer. -/
def checkDirent (i off : Nat) (s : CheckState) : Check CheckState :=
  let ino := (direntIno s.scratch off).toNat
  let name := direntName s.scratch off
  if ino = 0 then .ok s
  else if m.inodeCount.toNat ≤ ino then .error (s.report.details ino i)
  else do
    let s ← requireBit d m.imapStart.toNat ino i s
    if nameHasTerminator name capyfsNameMax then
      .ok { s with report := { s.report with rootEntries := s.report.rootEntries + 1 } }
    else .error (s.report.details ino i)

def checkRootDirents (x : CapyInodeDisk) (indirectEntries : Bytes) :
    Nat → Nat → CheckState → Check CheckState
  | 0, _, s => .ok s
  | n + 1, i, s =>
    match rootBlock x indirectEntries (i / direntsPerBlock) with
    | none => .error (s.report.details (i / direntsPerBlock) i)
    | some block =>
      if block = 0#32 then .error (s.report.details 0 i)
      else do
        let s ← checkPointer d m block.toNat i s
        match blockDeviceRead d block.toNat with
        | none => .error s.report
        | some b =>
          let s ← checkDirent d m i (i % direntsPerBlock) { s with scratch := b }
          checkRootDirents x indirectEntries n (i + 1) s

def validateRootDirents (x : CapyInodeDisk) (s : CheckState) : Check CheckState :=
  let total := x.size.toNat / direntSize
  if x.indirect = 0#32 then checkRootDirents d m x zeros total 0 s
  else
    match blockDeviceRead d x.indirect.toNat with
    | none => .error s.report
    | some b => checkRootDirents d m x b total 0 { s with scratch := b }

/-- The blocks below the data region must be marked; `n` of them are left from
block `b`. -/
def checkReserved : Nat → Nat → CapyfsCheckReport → Check Unit
  | 0, _, _ => .ok ()
  | n + 1, b, r =>
    let mapBlock := u32 (m.bmapStart.toNat + b / bitsPerBlock)
    match blockDeviceRead d mapBlock with
    | none => .error { r.withResult .ioError with detailPrimary := mapBlock }
    | some map =>
      if testBit map (b % bitsPerBlock) then checkReserved n (b + 1) r
      else .error ((r.withResult .badBitmap).details b mapBlock)

def checkRootBit (r : CapyfsCheckReport) : Check Unit :=
  match blockDeviceRead d m.imapStart.toNat with
  | none => .error { r.withResult .ioError with detailPrimary := m.imapStart.toNat }
  | some map =>
    if testBit map 0 then .ok ()
    else .error ((r.withResult .badBitmap).details 0 m.imapStart.toNat)

/-- The checks from the root inode on. -/
def checkFromRoot (block0 : Bytes) (r : CapyfsCheckReport) : Check CapyfsCheckReport :=
  match blockDeviceRead d m.inodeStart.toNat with
  | none => .error { r.withResult .ioError with detailPrimary := 0 }
  | some inodeBlock => do
    let x := readInodeAt inodeBlock 0
    checkReserved d m m.dataStart.toNat 0 r
    checkRootBit d m r
    match blockDeviceRead d m.bmapStart.toNat with
    | none => .error { r.withResult .ioError with detailPrimary := m.bmapStart.toNat }
    | some _ =>
      let s ← (validateRootBlocks d m x ⟨inodeBlock, r⟩).mapError (·.withResult .badRootInode)
      let s ← (validateRootDirents d m x ⟨block0, s.report⟩).mapError (·.withResult .badDirent)
      .ok (s.report.withResult .ok)

/-- The checks of the image. -/
def checkImage (r : CapyfsCheckReport) : Check CapyfsCheckReport :=
  match blockDeviceRead d 0 with
  | none => .error (r.withResult .ioError)
  | some block0 =>
    let m := readCapySuper block0
    let r := { r with super := m }
    if m.magic ≠ capyfsMagic ∨ m.blockSize.toNat ≠ capyfsBlockSize ∨ m.version ≠ capyfsVersion then
      .error ((r.withResult .badSuper).details m.magic.toNat m.version.toNat)
    else if d.blockCount < m.blockCount.toNat ∨ validateLayout m = false then
      .error ((r.withResult .badLayout).details m.dataStart.toNat m.blockCount.toNat)
    else checkFromRoot d m block0 { r with reservedBlocksExpected := m.dataStart.toNat }

end

/-- The result and the report that `capyfs_check` writes. -/
def capyfsCheck (d : BlockDevice) : Int × CapyfsCheckReport :=
  if d.blockSize ≠ capyfsBlockSize ∨ d.blockCount = 0 then (-1, .start)
  else
    match checkImage d .start with
    | .ok r => (0, r)
    | .error r => (0, r)

end CapyOS
