import CapyOS.Storage.BlockDevice
import CapyOS.Lib.Records

namespace CapyOS
open Lib

def gptIdentitySignature : Nat := 0x5452415020494645
def gptIdentityRevision : Nat := 0x00010000
def gptIdentityHeaderSize : Nat := 92
def gptIdentityEntrySize : Nat := 128
def gptIdentityEntryCount : Nat := 128

/-- The contents of every sector that can be read. -/
abbrev GptReader := Nat → Option Bytes

/-- The partitions a disk has to hold. -/
inductive PartKind where
  | esp
  | boot
  | data
  deriving DecidableEq

def PartKind.typeBytes : PartKind → List Byte
  | .esp => [0x28, 0x73, 0x2A, 0xC1, 0x1F, 0xF8, 0xD2, 0x11,
      0xBA, 0x4B, 0x00, 0xA0, 0xC9, 0x3E, 0xC9, 0x3B]
  | .boot => [0x76, 0x0b, 0x98, 0x04, 0x42, 0x10, 0x4c, 0x9b,
      0x86, 0x1f, 0x11, 0xe0, 0x29, 0xea, 0xc1, 0x01]
  | .data => [0xAF, 0x3D, 0xC6, 0x0F, 0x83, 0x84, 0x72, 0x47,
      0x8E, 0x79, 0x3D, 0x69, 0xD8, 0x47, 0x7D, 0xE4]

/-- "ESP", "BOOT" and "DATA". -/
def PartKind.name : PartKind → List Byte
  | .esp => [0x45, 0x53, 0x50]
  | .boot => [0x42, 0x4F, 0x4F, 0x54]
  | .data => [0x44, 0x41, 0x54, 0x41]

structure GptPartition where
  lba : Nat
  sectors : Nat
  guid : Bytes

structure GptIdentity where
  diskSectors : Nat
  diskGuid : Bytes
  parts : PartKind → GptPartition

/-- The partitions found so far. -/
abbrev IdentityState := PartKind → Option GptPartition

def identityCrcUpdate (crc : BitVec 32) (data : Bytes) (len : Nat) : BitVec 32 :=
  (listBytes data len).foldl crcByte crc

def identityCrc (data : Bytes) (len : Nat) : BitVec 32 :=
  ~~~identityCrcUpdate 0xFFFFFFFF#32 data len

def identityEqual (a b : Bytes) (len : Nat) : Bool := (List.range len).all fun i => a i == b i

def identityPresent (b : Bytes) (len : Nat) : Bool := (List.range len).any fun i => b i != 0

/-- The buffer from an offset on. -/
def behind (b : Bytes) (o : Nat) : Bytes := fun i => b (o + i)

def identityName (name : Bytes) (ascii : List Byte) : Bool :=
  (List.range (min 36 ascii.length)).all
    (fun i => name (i * 2) == ascii.getD i 0 && name (i * 2 + 1) == 0) &&
  decide (ascii.length < 36) &&
  ((List.range 36).drop ascii.length).all (fun i => name (i * 2) == 0 && name (i * 2 + 1) == 0)

def identitySet (state : Option GptPartition) (entry : Bytes)
    (first last firstUsable lastUsable : Nat) : Option GptPartition :=
  if state.isSome ∨ first < firstUsable ∨ last > lastUsable ∨ last < first ∨
      first > 2 ^ 32 - 1 ∨ load entry 48 8 ≠ 0 ∨ identityPresent (behind entry 16) 16 = false then
    none
  else
    let count := (last - first + 1) % 2 ^ 64
    if count = 0 ∨ count > 2 ^ 32 - 1 then none
    else some ⟨u32 first, u32 count, behind entry 16⟩

def identityKind (entry : Bytes) : Option PartKind :=
  if identityEqual entry (fun i => PartKind.esp.typeBytes.getD i 0) 16 then some .esp
  else if identityEqual entry (fun i => PartKind.boot.typeBytes.getD i 0) 16 then some .boot
  else if identityEqual entry (fun i => PartKind.data.typeBytes.getD i 0) 16 then some .data
  else none

def identityEntry (entry : Bytes) (firstUsable lastUsable : Nat) (st : IdentityState) :
    Option IdentityState :=
  if identityPresent entry 16 = false then some st
  else
    match identityKind entry with
    | none => none
    | some k =>
      if identityName (behind entry 56) k.name = false then none
      else
        match identitySet (st k) entry (load entry 32 8) (load entry 40 8)
            firstUsable lastUsable with
        | none => none
        | some p => some (Function.update st k (some p))

def identityOverlap (a b : GptPartition) : Bool :=
  if a.sectors = 0 ∨ b.sectors = 0 then true
  else !(decide (a.lba + a.sectors - 1 < b.lba) || decide (b.lba + b.sectors - 1 < a.lba))

/-- The CRC of a header, its own field taken as zero. -/
def identityHeaderCrc (header : Bytes) : BitVec 32 :=
  identityCrc (blit header 16 4 zeros) gptIdentityHeaderSize

/-- What both headers are checked for. -/
def identityHeaderOk (header : Bytes) (self entriesLba : Nat) : Bool :=
  load header 0 8 == gptIdentitySignature && load header 8 4 == gptIdentityRevision &&
  load header 12 4 == gptIdentityHeaderSize && load header 20 4 == 0 &&
  load header 24 8 == self && load header 72 8 == entriesLba &&
  load header 80 4 == gptIdentityEntryCount && load header 84 4 == gptIdentityEntrySize

/-- The loop over the sectors of the backup entries: each is compared with the
primary one and taken into the CRC. -/
def identityBackupLoop (reader : GptReader) (backupEntries : Nat) (s : Nat) (crc : BitVec 32) :
    Nat → Option (BitVec 32)
  | 0 => some crc
  | n + 1 =>
    match reader (u32 (backupEntries + s)), reader (2 + s) with
    | some sector, some primary =>
      if identityEqual sector primary 512 then
        identityBackupLoop reader backupEntries (s + 1) (identityCrcUpdate crc sector 512) n
      else none
    | _, _ => none

def identityBackup (reader : GptReader) (blockCount backupLba firstUsable lastUsable
    entriesCrc : Nat) (diskGuid : Bytes) : Bool :=
  let backupEntries := u32 (u32 backupLba + 2 ^ 32 - 32)
  if backupLba ≠ blockCount - 1 ∨ backupLba > 2 ^ 32 - 1 then false
  else
    match reader (u32 backupLba) with
    | none => false
    | some header =>
      identityHeaderOk header backupLba backupEntries && load header 32 8 == 1 &&
      load header 40 8 == firstUsable && load header 48 8 == lastUsable &&
      identityEqual (behind header 56) diskGuid 16 && load header 88 4 == entriesCrc &&
      (identityHeaderCrc header).toNat == load header 16 4 &&
      (match identityBackupLoop reader backupEntries 0 0xFFFFFFFF#32 32 with
      | none => false
      | some crc => (~~~crc).toNat == entriesCrc)

/-- The four entries of a sector. -/
def identitySectorLoop (sector : Bytes) (firstUsable lastUsable : Nat) (i : Nat)
    (st : IdentityState) : Nat → Option IdentityState
  | 0 => some st
  | n + 1 =>
    match identityEntry (behind sector (i * gptIdentityEntrySize)) firstUsable lastUsable st with
    | none => none
    | some st' => identitySectorLoop sector firstUsable lastUsable (i + 1) st' n

/-- The `n` sectors of primary entries from the `s`-th on. -/
def identityEntriesLoop (reader : GptReader) (firstUsable lastUsable : Nat) (s : Nat)
    (crc : BitVec 32) (st : IdentityState) : Nat → Option (BitVec 32 × IdentityState)
  | 0 => some (crc, st)
  | n + 1 =>
    match reader (2 + s) with
    | none => none
    | some sector =>
      match identitySectorLoop sector firstUsable lastUsable 0 st 4 with
      | none => none
      | some st' =>
        identityEntriesLoop reader firstUsable lastUsable (s + 1)
          (identityCrcUpdate crc sector 512) st' n

/-- Two of the four GUIDs of a disk agree. -/
def identityGuidCollision (diskGuid : Bytes) (p : PartKind → GptPartition) : Bool :=
  identityEqual (p .esp).guid (p .boot).guid 16 || identityEqual (p .esp).guid (p .data).guid 16 ||
  identityEqual (p .boot).guid (p .data).guid 16 || identityEqual diskGuid (p .esp).guid 16 ||
  identityEqual diskGuid (p .boot).guid 16 || identityEqual diskGuid (p .data).guid 16

/-- A partition that was not found is all zeros. -/
def IdentityState.value (st : IdentityState) (k : PartKind) : GptPartition :=
  (st k).getD ⟨0, 0, zeros⟩

def identityReadMode (reader : GptReader) (blockSize blockCount : Nat) (allowDuplicate : Bool) :
    Option GptIdentity :=
  if blockSize ≠ 512 ∨ blockCount < 68 then none
  else
    match reader 1 with
    | none => none
    | some header =>
      let backupLba := load header 32 8
      let firstUsable := load header 40 8
      let lastUsable := load header 48 8
      let diskGuid := behind header 56
      if !(identityHeaderOk header 1 2 && identityPresent diskGuid 16) then none
      else if backupLba ≠ blockCount - 1 ∨ firstUsable ≠ 34 ∨
          lastUsable ≠ (backupLba + 2 ^ 64 - 33) % 2 ^ 64 ∨
          (identityHeaderCrc header).toNat ≠ load header 16 4 then none
      else
        match identityEntriesLoop reader firstUsable lastUsable 0 0xFFFFFFFF#32
            (fun _ => none) 32 with
        | none => none
        | some (crc, st) =>
          let p := IdentityState.value st
          if (~~~crc).toNat = load header 88 4 ∧ (st .esp).isSome ∧ (st .boot).isSome ∧
              (st .data).isSome ∧ identityGuidCollision diskGuid p = allowDuplicate ∧
              identityOverlap (p .esp) (p .boot) = false ∧
              identityOverlap (p .esp) (p .data) = false ∧
              identityOverlap (p .boot) (p .data) = false ∧
              identityBackup reader blockCount backupLba firstUsable lastUsable
                (load header 88 4) diskGuid = true then
            some ⟨blockCount, diskGuid, p⟩
          else none

def capyosGptIdentityRead (reader : GptReader) (blockSize blockCount : UInt32) :
    Option GptIdentity :=
  identityReadMode reader blockSize.toNat blockCount.toNat false

end CapyOS
