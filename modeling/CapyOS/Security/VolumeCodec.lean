import CapyOS.Security.Rekey

namespace CapyOS
open Lib

/-- A `struct capyos_volume_header` field by field. -/
structure VolumeHeaderFields where
  magic0 : BitVec 32
  magic1 : BitVec 32
  version : BitVec 32
  flags : BitVec 32
  kdfAlgoId : BitVec 32
  kdfTCost : BitVec 32
  kdfMCost : BitVec 32
  kdfSaltLen : BitVec 32
  kdfSalt : Vector Byte 64
  dataOffsetLba : BitVec 32
  reservedLbaCount : BitVec 32
  kdfCheckTag : Vector Byte 32
  creationTimestampNs : BitVec 64
  creatorVersion : Vector Byte 32
  reserved : Vector Byte 332
  headerCrc32 : BitVec 32

/-- An array of bytes copied out of a buffer. -/
def bytesAt (b : Bytes) (o n : Nat) : Vector Byte n := Vector.ofFn fun i => b (o + i.val)

namespace VolumeHeaderFields

/-- The fields of `vh_serialize_prefix`, and behind them the rest up to the CRC. -/
def wire (h : VolumeHeaderFields) : List (Nat × Nat) :=
  [(4, h.magic0.toNat), (4, h.magic1.toNat), (4, h.version.toNat), (4, h.flags.toNat),
    (4, h.kdfAlgoId.toNat), (4, h.kdfTCost.toNat), (4, h.kdfMCost.toNat),
    (4, h.kdfSaltLen.toNat)] ++
  (byteFields h.kdfSalt.toList ++
    ([(4, h.dataOffsetLba.toNat), (4, h.reservedLbaCount.toNat)] ++
      (byteFields h.kdfCheckTag.toList ++ ((8, h.creationTimestampNs.toNat) ::
        (byteFields h.creatorVersion.toList ++ byteFields h.reserved.toList)))))

/-- `capyos_volume_header_serialize`: the CRC field of the header is not looked at. -/
def serialize (h : VolumeHeaderFields) : Bytes :=
  let image := pack h.wire
  store image volumeHeaderCrcOffset 4 (volumeHeaderCrc32 image volumeHeaderCrcOffset)

/-- The fields `capyos_volume_header_parse` copies out; the reserved area is left wiped. -/
def ofBytes (buf : Bytes) : VolumeHeaderFields where
  magic0 := field32 buf 0
  magic1 := field32 buf 4
  version := field32 buf 8
  flags := field32 buf 12
  kdfAlgoId := field32 buf 16
  kdfTCost := field32 buf 20
  kdfMCost := field32 buf 24
  kdfSaltLen := field32 buf 28
  kdfSalt := bytesAt buf 32 64
  dataOffsetLba := field32 buf 96
  reservedLbaCount := field32 buf 100
  kdfCheckTag := bytesAt buf 104 32
  creationTimestampNs := field64 buf 136
  creatorVersion := bytesAt buf 144 32
  reserved := Vector.replicate 332 0
  headerCrc32 := field32 buf 508

/-- `capyos_volume_header_parse` -/
def parse (buf : Bytes) : Option VolumeHeaderFields :=
  if volumeHeaderLooksValid buf && VolumeHeader.flags buf == 0 &&
      vhValidateParams (VolumeHeader.kdfAlgoId buf) (VolumeHeader.kdfTCost buf)
        (VolumeHeader.kdfMCost buf) (VolumeHeader.kdfSaltLen buf) (VolumeHeader.dataOffsetLba buf)
        (VolumeHeader.reservedLbaCount buf) &&
      bytesZero buf 176 332 then
    some (ofBytes buf)
  else none

/-- What a header has to be for the parser to take it: the values
`capyos_volume_header_init` gives it, whatever its CRC field says. -/
def Valid (h : VolumeHeaderFields) : Prop :=
  h.magic0.toNat = volumeHeaderMagic0 ∧ h.magic1.toNat = volumeHeaderMagic1 ∧
    h.version.toNat = volumeHeaderVersion ∧ h.flags = 0 ∧
    vhValidateParams h.kdfAlgoId.toNat h.kdfTCost.toNat h.kdfMCost.toNat h.kdfSaltLen.toNat
      h.dataOffsetLba.toNat h.reservedLbaCount.toNat = true ∧
    h.reserved = Vector.replicate 332 0

end VolumeHeaderFields

/-- A parsed structure with the checksum field the parser fills in and neither the
serializer nor the validator looks at. -/
structure WithChecksum (α : Type) where
  value : α
  crc32 : Nat

def checkpointSerialize (c : WithChecksum RekeyCheckpoint) : Option Bytes :=
  rekeyCheckpointSerialize c.value

def checkpointParse (buf : Bytes) : Option (WithChecksum RekeyCheckpoint) :=
  (rekeyCheckpointParse buf).map fun c => ⟨c, load buf 124 4⟩

def manifestSerialize (m : WithChecksum RekeyStageManifest) : Option Bytes :=
  stageManifestSerialize m.value

def manifestParse (buf : Bytes) : Option (WithChecksum RekeyStageManifest) :=
  (stageManifestParse buf).map fun m => ⟨m, load buf 124 4⟩

end CapyOS
