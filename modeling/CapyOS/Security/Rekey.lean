import CapyOS.Lib.Records
import CapyOS.Fs.Capyfs

namespace CapyOS
open Lib

/-- The primitives the volume code calls, for one password. A key is the pair of
XTS keys; a cipher of a key and a block number is a bijection on blocks. -/
structure VolumeCrypto (K : Type) where
  /-- `crypt_derive_xts_keys`: the salt and the iteration count. -/
  deriveXtsKeys : List Byte → Nat → K
  /-- `crypt_derive_xts_keys_argon2id`: the salt and the two costs. -/
  deriveXtsKeysArgon2id : List Byte → Nat → Nat → K
  hmacSha256 : K → List Byte → Bytes
  encrypt : K → Nat → Bytes → Bytes
  decrypt : K → Nat → Bytes → Bytes
  decrypt_encrypt : ∀ k l p, decrypt k l (encrypt k l p) = p
  encrypt_decrypt : ∀ k l p, encrypt k l (decrypt k l p) = p

/-- A `struct capyos_volume_header`, kept as its wire image: each field is read
at its offset, and only the first 512 bytes are looked at. -/
abbrev VolumeHeader := Bytes

namespace VolumeHeader
variable (h : VolumeHeader)

def magic0 : Nat := load h 0 4
def magic1 : Nat := load h 4 4
def version : Nat := load h 8 4
def flags : Nat := load h 12 4
def kdfAlgoId : Nat := load h 16 4
def kdfTCost : Nat := load h 20 4
def kdfMCost : Nat := load h 24 4
def kdfSaltLen : Nat := load h 28 4
def kdfSalt : Bytes := fun i => h (32 + i)
def dataOffsetLba : Nat := load h 96 4
def reservedLbaCount : Nat := load h 100 4
def kdfCheckTag : Bytes := fun i => h (104 + i)
def headerCrc32 : Nat := load h 508 4

end VolumeHeader

def volumeHeaderMagic0 : Nat := 0x59504143
def volumeHeaderMagic1 : Nat := 0x52444856
def volumeHeaderVersion : Nat := 1
def volumeKdfAlgoPbkdf2Sha256 : Nat := 0
def volumeKdfAlgoArgon2id : Nat := 1
def volumeKdfSaltMin : Nat := 8
def volumeKdfSaltMax : Nat := 64
def volumeKdfArgon2TCostMax : Nat := 4096
def volumeKdfArgon2MCostMax : Nat := 1048576
def volumeKdfPbkdf2ItersMax : Nat := 100000000
def volumeHeaderCheckTagOffset : Nat := 104
def volumeHeaderCheckTagSize : Nat := 32
def volumeHeaderCrcOffset : Nat := 508
/-- "CAPYOS-VOL-HDR-CHECK-v1" -/
def volumeHeaderCheckContext : List Byte :=
  [0x43, 0x41, 0x50, 0x59, 0x4F, 0x53, 0x2D, 0x56, 0x4F, 0x4C, 0x2D, 0x48, 0x44, 0x52, 0x2D,
    0x43, 0x48, 0x45, 0x43, 0x4B, 0x2D, 0x76, 0x31]

/-- The `n` bytes from offset `o` are all zero. -/
def bytesZero (b : Bytes) (o n : Nat) : Bool := (List.range n).all fun i => b (o + i) == 0#8

def volumeHeaderCrc32 (b : Bytes) (len : Nat) : Nat := (crc32 (listBytes b len)).toNat

def vhValidateParams (algo t m saltLen dataOffset reserved : Nat) : Bool :=
  (algo == volumeKdfAlgoPbkdf2Sha256 || algo == volumeKdfAlgoArgon2id) &&
    (if algo == volumeKdfAlgoPbkdf2Sha256 then
      decide (1000 ≤ t ∧ t ≤ volumeKdfPbkdf2ItersMax ∧ m = 0)
    else decide (1 ≤ t ∧ t ≤ volumeKdfArgon2TCostMax ∧ 8 ≤ m ∧ m ≤ volumeKdfArgon2MCostMax)) &&
    decide (volumeKdfSaltMin ≤ saltLen ∧ saltLen ≤ volumeKdfSaltMax) && decide (1 ≤ dataOffset) &&
    decide (1 ≤ reserved ∧ reserved ≤ dataOffset)

/-- The header before its tag and CRC are known. -/
def volumeHeaderInit (algo t m : Nat) (salt : List Byte) (dataOffset reserved timestamp : Nat)
    (creator : List Byte) : Option VolumeHeader :=
  if vhValidateParams algo t m salt.length dataOffset reserved then
    some (pack ([(4, volumeHeaderMagic0), (4, volumeHeaderMagic1), (4, volumeHeaderVersion), (4, 0),
        (4, algo), (4, t), (4, m), (4, salt.length)] ++ (byteFields salt ++
        ([(volumeKdfSaltMax - salt.length, 0), (4, dataOffset), (4, reserved),
          (volumeHeaderCheckTagSize, 0), (8, timestamp)] ++ byteFields (creator.take 32)))))
  else none

section
variable {K : Type} (cr : VolumeCrypto K)

/-- `vh_compute_tag_internal`: the context and the header bytes before the tag. -/
def vhComputeTag (h : VolumeHeader) (key : K) : Bytes :=
  cr.hmacSha256 key (volumeHeaderCheckContext ++ listBytes h volumeHeaderCheckTagOffset)

def volumeHeaderComputeCheckTag (h : VolumeHeader) (key : K) : VolumeHeader :=
  blit h volumeHeaderCheckTagOffset volumeHeaderCheckTagSize (vhComputeTag cr h key)

def volumeHeaderVerifyCheckTag (h : VolumeHeader) (key : K) : Bool :=
  decide (∀ i, i < volumeHeaderCheckTagSize → vhComputeTag cr h key i = h.kdfCheckTag i)

/-- The header's bytes, its CRC computed anew, in a block of zeros. -/
def volumeHeaderSerialize (h : VolumeHeader) : Bytes :=
  let image := blit zeros 0 volumeHeaderCrcOffset h
  store image volumeHeaderCrcOffset 4 (volumeHeaderCrc32 image volumeHeaderCrcOffset)

/-- Magic, version and CRC: what decides between a managed and a legacy volume. -/
def volumeHeaderLooksValid (buf : Bytes) : Bool :=
  let h : VolumeHeader := buf
  h.magic0 == volumeHeaderMagic0 && h.magic1 == volumeHeaderMagic1 &&
    h.version == volumeHeaderVersion &&
    volumeHeaderCrc32 buf volumeHeaderCrcOffset == h.headerCrc32

def volumeHeaderParse (buf : Bytes) : Option VolumeHeader :=
  let h : VolumeHeader := buf
  if volumeHeaderLooksValid buf && h.flags == 0 &&
      vhValidateParams h.kdfAlgoId h.kdfTCost h.kdfMCost h.kdfSaltLen h.dataOffsetLba
        h.reservedLbaCount &&
      bytesZero buf 176 332 then some h
  else none

/-- The keys of a header, handed out only when they authenticate it. -/
def volumeHeaderDeriveKeys (h : VolumeHeader) : Option K :=
  if vhValidateParams h.kdfAlgoId h.kdfTCost h.kdfMCost h.kdfSaltLen h.dataOffsetLba
      h.reservedLbaCount then
    let salt := listBytes h.kdfSalt h.kdfSaltLen
    let key := if h.kdfAlgoId == volumeKdfAlgoPbkdf2Sha256 then cr.deriveXtsKeys salt h.kdfTCost
      else cr.deriveXtsKeysArgon2id salt h.kdfTCost h.kdfMCost
    if volumeHeaderVerifyCheckTag cr h key then some key else none
  else none

end

/-- What `volume_provider_open` hands back: the blocks from `offset` on under a key. -/
structure CryptDevice (K : Type) where
  offset : Nat
  blockCount : Nat
  key : K

/-- A read through the cipher: the tweak is the block number inside the device. -/
def CryptDevice.read {K : Type} (cr : VolumeCrypto K) (dev : CryptDevice K) (blocks : Nat → Bytes)
    (n : Nat) : Option Bytes :=
  if n < dev.blockCount then some (cr.decrypt dev.key n (blocks (dev.offset + n))) else none

/-- The device a volume lives on and the caller's legacy parameters, which are
set: a salt, its length and an iteration count. -/
structure VolumeEnv (K : Type) where
  crypto : VolumeCrypto K
  blockCount : Nat
  blockCount_lt : blockCount < 2 ^ 32
  legacySalt : List Byte
  legacyIter : Nat

def VolumeEnv.legacyKey {K : Type} (env : VolumeEnv K) : K :=
  env.crypto.deriveXtsKeys env.legacySalt env.legacyIter

def volumeProviderOpen {K : Type} (env : VolumeEnv K) (blocks : Nat → Bytes) :
    Option (CryptDevice K) :=
  if env.blockCount < 1 then none
  else if volumeHeaderLooksValid (blocks 0) then do
    let h ← volumeHeaderParse (blocks 0)
    let key ← volumeHeaderDeriveKeys env.crypto h
    if h.dataOffsetLba ≥ env.blockCount then none
    else some ⟨h.dataOffsetLba, env.blockCount - h.dataOffsetLba, key⟩
  else some ⟨0, env.blockCount, env.legacyKey⟩

/-- The difference two `uint32_t` leave. -/
def sub32 (a b : Nat) : Nat := u32 (a + 2 ^ 32 - b)

def window (b : Bytes) (o : Nat) : Bytes := fun i => b (o + i)

/-- A record of little-endian words in 128 bytes: zeros behind the words and the
CRC of all that in the last four bytes. -/
def crcRecord (words : List Nat) : Bytes :=
  let body := pack (words.map fun w => (4, w))
  store body 124 4 (volumeHeaderCrc32 body 124)

def crcRecordValid (buf : Bytes) (words : Nat) : Bool :=
  load buf 124 4 == volumeHeaderCrc32 buf 124 && bytesZero buf (4 * words) (124 - 4 * words)

inductive RekeyPlanStatus
  | ready
  | alreadyHeaderManaged
  | blockedShrinkRequired
  | blockedScratchRequired
deriving DecidableEq, Repr

def RekeyPlanStatus.code : RekeyPlanStatus → Nat
  | ready => 1
  | alreadyHeaderManaged => 2
  | blockedShrinkRequired => 3
  | blockedScratchRequired => 4

def layoutHeaderManaged : Nat := 1
def layoutLegacyFullDevice : Nat := 2
def copyDirectionNone : Nat := 0
def copyDirectionReverse : Nat := 1
def blockAlreadyHeaderManaged : Nat := 0x1
def blockCapyfsShrinkRequired : Nat := 0x4
def blockTransactionScratchRequired : Nat := 0x8

structure RekeyPlan where
  status : RekeyPlanStatus
  sourceLayout : Nat
  targetLayout : Nat
  blockerFlags : Nat
  rawBlockCount : Nat
  capyfsBlockCount : Nat
  sourceFirstLba : Nat
  sourceLastLba : Nat
  targetFirstLba : Nat
  targetLastLba : Nat
  scratchFirstLba : Nat
  blocksToReencrypt : Nat
  copyDirection : Nat
  estimatedReadOps : Nat
  estimatedWriteOps : Nat

/-- The superblock checks the planner, the commit and the cleanup share; they
differ in what they ask of the block count. -/
def capyfsSuperValid (super : Bytes) (countOk : Nat → Bool) : Bool :=
  let blockCount := load super 12 4
  let inodeCount := load super 16 4
  let bmapStart := load super 20 4
  let imapStart := load super 24 4
  let inodeStart := load super 28 4
  let dataStart := load super 32 4
  let blockBitmapBlocks := u32 (blockCount + bitsPerBlock - 1) / bitsPerBlock
  let inodeBitmapBlocks := u32 (inodeCount + bitsPerBlock - 1) / bitsPerBlock
  let inodeTableBlocks := u32 (inodeCount * inodeDiskSize + capyfsBlockSize - 1) / capyfsBlockSize
  load super 0 4 == capyfsMagic.toNat && load super 4 4 == capyfsVersion.toNat &&
    load super 8 4 == capyfsBlockSize && blockCount != 0 && inodeCount != 0 && countOk blockCount &&
    bmapStart == 1 && imapStart == u32 (bmapStart + blockBitmapBlocks) &&
    inodeStart == u32 (imapStart + inodeBitmapBlocks) &&
    dataStart == u32 (inodeStart + inodeTableBlocks) && decide (dataStart < blockCount)

section
variable {K : Type} (env : VolumeEnv K)

/-- The preflight's findings: whether a header is there, and the file system's
block count otherwise. -/
def rekeyPreflight (blocks : Nat → Bytes) : Option (Option Nat) :=
  if env.blockCount < 2 then none
  else if volumeHeaderLooksValid (blocks 0) then
    match volumeHeaderParse (blocks 0) with
    | none => none
    | some h => if env.blockCount ≤ h.dataOffsetLba then none else some none
  else
    let plainSuper := env.crypto.decrypt env.legacyKey 0 (blocks 0)
    if capyfsSuperValid plainSuper (fun n => decide (n ≤ env.blockCount)) then
      some (some (load plainSuper 12 4))
    else none

/-- The plan for a file system of `count` blocks at the start of the device. -/
def legacyPlan (count : Nat) : RekeyPlan :=
  let blocked (status : RekeyPlanStatus) (flags : Nat) : RekeyPlan :=
    { status := status, sourceLayout := layoutLegacyFullDevice, targetLayout := layoutHeaderManaged,
      blockerFlags := flags, rawBlockCount := env.blockCount, capyfsBlockCount := count,
      sourceFirstLba := 0, sourceLastLba := sub32 count 1, targetFirstLba := 1,
      targetLastLba := count, scratchFirstLba := 0, blocksToReencrypt := count,
      copyDirection := copyDirectionNone, estimatedReadOps := 0, estimatedWriteOps := 0 }
  -- the shrink blocker of the preflight: the file system fills the whole device
  if count > env.blockCount - 1 then blocked .blockedShrinkRequired blockCapyfsShrinkRequired
  else if count ≥ env.blockCount - 1 then
    blocked .blockedScratchRequired blockTransactionScratchRequired
  else
    { blocked .ready 0 with
      scratchFirstLba := u32 (count + 1), copyDirection := copyDirectionReverse,
      estimatedReadOps := count,
      estimatedWriteOps := if count > 0x7FFFFFFF then 0xFFFFFFFF else u32 (count * 2 + 1) }

def managedPlan : RekeyPlan :=
  { status := .alreadyHeaderManaged, sourceLayout := layoutHeaderManaged,
    targetLayout := layoutHeaderManaged, blockerFlags := blockAlreadyHeaderManaged,
    rawBlockCount := env.blockCount, capyfsBlockCount := 0, sourceFirstLba := 0, sourceLastLba := 0,
    targetFirstLba := 0, targetLastLba := 0, scratchFirstLba := 0, blocksToReencrypt := 0,
    copyDirection := copyDirectionNone, estimatedReadOps := 0, estimatedWriteOps := 0 }

def rekeyPlan (blocks : Nat → Bytes) : Option RekeyPlan :=
  match rekeyPreflight env blocks with
  | none => none
  | some none => some (managedPlan env)
  | some (some count) => if count = 0 then none else some (legacyPlan env count)

end

def phaseValidatePlan : Nat := 0x01
def phaseCheckpointScratch : Nat := 0x02
def phaseCopyReverse : Nat := 0x04
def phaseCommitHeader : Nat := 0x08
def phaseVerifyOpen : Nat := 0x10
def phaseStageHeader : Nat := 0x20
def flagInProgress : Nat := 1
def flagCompleted : Nat := 2

structure RekeyCheckpoint where
  magic0 : Nat
  magic1 : Nat
  version : Nat
  flags : Nat
  phaseFlags : Nat
  planStatus : Nat
  sourceLayout : Nat
  targetLayout : Nat
  blockerFlags : Nat
  rawBlockCount : Nat
  capyfsBlockCount : Nat
  sourceFirstLba : Nat
  sourceLastLba : Nat
  targetFirstLba : Nat
  targetLastLba : Nat
  scratchFirstLba : Nat
  blocksTotal : Nat
  blocksCompleted : Nat
  nextSourceLba : Nat
  nextTargetLba : Nat
  estimatedReadOps : Nat
  estimatedWriteOps : Nat

namespace RekeyCheckpoint

def words (c : RekeyCheckpoint) : List Nat :=
  [c.magic0, c.magic1, c.version, c.flags, c.phaseFlags, c.planStatus, c.sourceLayout,
    c.targetLayout, c.blockerFlags, c.rawBlockCount, c.capyfsBlockCount, c.sourceFirstLba,
    c.sourceLastLba, c.targetFirstLba, c.targetLastLba, c.scratchFirstLba, c.blocksTotal,
    c.blocksCompleted, c.nextSourceLba, c.nextTargetLba, c.estimatedReadOps, c.estimatedWriteOps]

def ofWords (w : Nat → Nat) : RekeyCheckpoint :=
  ⟨w 0, w 1, w 2, w 3, w 4, w 5, w 6, w 7, w 8, w 9, w 10, w 11, w 12, w 13, w 14, w 15, w 16, w 17,
    w 18, w 19, w 20, w 21⟩

end RekeyCheckpoint

def checkpointMagic0 : Nat := 0x59504143
def checkpointMagic1 : Nat := 0x50434B52
def checkpointVersion : Nat := 1
def checkpointSize : Nat := 128

def terminalPhases : Nat := phaseCommitHeader ||| phaseVerifyOpen

def checkpointAllowedPhases : Nat :=
  phaseValidatePlan ||| phaseCheckpointScratch ||| phaseStageHeader ||| phaseCopyReverse |||
    phaseCommitHeader ||| phaseVerifyOpen

/-- The checks of a checkpoint's phases against its progress. -/
def checkpointPhasesValid (c : RekeyCheckpoint) : Bool :=
  decide (c.phaseFlags &&& phaseValidatePlan ≠ 0 ∧ c.phaseFlags &&& phaseCheckpointScratch ≠ 0 ∧
    c.phaseFlags &&& (0xFFFFFFFF - checkpointAllowedPhases) = 0) &&
  decide (c.blocksCompleted = 0 → c.phaseFlags &&& (phaseCopyReverse ||| terminalPhases) = 0) &&
  decide (0 < c.blocksCompleted → c.blocksCompleted < c.blocksTotal →
    c.phaseFlags &&& phaseCopyReverse ≠ 0 ∧ c.phaseFlags &&& terminalPhases = 0) &&
  decide (c.blocksCompleted = c.blocksTotal → c.flags = flagCompleted →
    c.phaseFlags &&& (phaseCopyReverse ||| terminalPhases) = phaseCopyReverse ||| terminalPhases) &&
  decide (c.blocksCompleted = c.blocksTotal → c.flags = flagInProgress →
    c.phaseFlags &&& phaseCopyReverse ≠ 0 ∧ c.phaseFlags &&& terminalPhases = 0)

/-- The geometry a checkpoint and a manifest both have to satisfy. -/
def rekeyGeometryValid (raw capyfs sourceFirst sourceLast targetFirst targetLast scratch total : Nat) :
    Bool :=
  decide (sourceFirst ≤ sourceLast) && decide (targetFirst ≤ targetLast) &&
    decide (targetLast < scratch) && decide (scratch < raw) && total == capyfs &&
    total == u32 (sub32 sourceLast sourceFirst + 1) && total == u32 (sub32 targetLast targetFirst + 1)

def checkpointSemanticValid (c : RekeyCheckpoint) : Bool :=
  c.magic0 == checkpointMagic0 && c.magic1 == checkpointMagic1 && c.version == checkpointVersion &&
    c.planStatus == RekeyPlanStatus.ready.code && c.sourceLayout == layoutLegacyFullDevice &&
    c.targetLayout == layoutHeaderManaged && c.blockerFlags == 0 && c.blocksTotal != 0 &&
    decide (c.blocksCompleted ≤ c.blocksTotal) &&
    (c.flags == flagInProgress || c.flags == flagCompleted) &&
    decide (c.blocksCompleted < c.blocksTotal → c.flags = flagInProgress) &&
    checkpointPhasesValid c &&
    rekeyGeometryValid c.rawBlockCount c.capyfsBlockCount c.sourceFirstLba c.sourceLastLba
      c.targetFirstLba c.targetLastLba c.scratchFirstLba c.blocksTotal &&
    (if c.blocksCompleted = c.blocksTotal then
      c.nextSourceLba == c.sourceFirstLba && c.nextTargetLba == c.targetFirstLba
    else c.nextSourceLba == sub32 c.sourceLastLba c.blocksCompleted &&
      c.nextTargetLba == sub32 c.targetLastLba c.blocksCompleted)

def rekeyCheckpointSerialize (c : RekeyCheckpoint) : Option Bytes :=
  if checkpointSemanticValid c then some (crcRecord c.words) else none

def rekeyCheckpointParse (buf : Bytes) : Option RekeyCheckpoint :=
  if crcRecordValid buf 22 then
    let c := RekeyCheckpoint.ofWords fun i => load buf (4 * i) 4
    if checkpointSemanticValid c then some c else none
  else none

def checkpointPlanValid (plan : RekeyPlan) : Bool :=
  plan.status == .ready && plan.sourceLayout == layoutLegacyFullDevice &&
    plan.targetLayout == layoutHeaderManaged && plan.blockerFlags == 0 &&
    plan.copyDirection == copyDirectionReverse && plan.rawBlockCount != 0 &&
    plan.capyfsBlockCount != 0 &&
    rekeyGeometryValid plan.rawBlockCount plan.capyfsBlockCount plan.sourceFirstLba
      plan.sourceLastLba plan.targetFirstLba plan.targetLastLba plan.scratchFirstLba
      plan.blocksToReencrypt

def rekeyCheckpointInit (plan : RekeyPlan) (blocksCompleted : Nat) : Option RekeyCheckpoint :=
  if checkpointPlanValid plan && decide (blocksCompleted ≤ plan.blocksToReencrypt) then
    let last := blocksCompleted == plan.blocksToReencrypt
    some
      { magic0 := checkpointMagic0, magic1 := checkpointMagic1, version := checkpointVersion,
        flags := if last then flagCompleted else flagInProgress,
        phaseFlags := phaseValidatePlan ||| phaseCheckpointScratch |||
          (if 0 < blocksCompleted then phaseCopyReverse else 0) |||
          (if last then phaseCopyReverse ||| terminalPhases else 0),
        planStatus := plan.status.code, sourceLayout := plan.sourceLayout,
        targetLayout := plan.targetLayout, blockerFlags := plan.blockerFlags,
        rawBlockCount := plan.rawBlockCount, capyfsBlockCount := plan.capyfsBlockCount,
        sourceFirstLba := plan.sourceFirstLba, sourceLastLba := plan.sourceLastLba,
        targetFirstLba := plan.targetFirstLba, targetLastLba := plan.targetLastLba,
        scratchFirstLba := plan.scratchFirstLba, blocksTotal := plan.blocksToReencrypt,
        blocksCompleted := blocksCompleted,
        nextSourceLba := if last then plan.sourceFirstLba else sub32 plan.sourceLastLba blocksCompleted,
        nextTargetLba := if last then plan.targetFirstLba else sub32 plan.targetLastLba blocksCompleted,
        estimatedReadOps := plan.estimatedReadOps, estimatedWriteOps := plan.estimatedWriteOps }
  else none

structure RekeyStageManifest where
  magic0 : Nat
  magic1 : Nat
  version : Nat
  flags : Nat
  checkpointOffset : Nat
  checkpointSize : Nat
  stagedHeaderOffset : Nat
  stagedHeaderSize : Nat
  manifestOffset : Nat
  manifestSize : Nat
  scratchLba : Nat
  rawBlockCount : Nat
  capyfsBlockCount : Nat
  sourceFirstLba : Nat
  sourceLastLba : Nat
  targetFirstLba : Nat
  targetLastLba : Nat
  blocksTotal : Nat
  checkpointCrc32 : Nat
  stagedHeaderCrc32 : Nat

namespace RekeyStageManifest

def words (m : RekeyStageManifest) : List Nat :=
  [m.magic0, m.magic1, m.version, m.flags, m.checkpointOffset, m.checkpointSize,
    m.stagedHeaderOffset, m.stagedHeaderSize, m.manifestOffset, m.manifestSize, m.scratchLba,
    m.rawBlockCount, m.capyfsBlockCount, m.sourceFirstLba, m.sourceLastLba, m.targetFirstLba,
    m.targetLastLba, m.blocksTotal, m.checkpointCrc32, m.stagedHeaderCrc32]

def ofWords (w : Nat → Nat) : RekeyStageManifest :=
  ⟨w 0, w 1, w 2, w 3, w 4, w 5, w 6, w 7, w 8, w 9, w 10, w 11, w 12, w 13, w 14, w 15, w 16, w 17,
    w 18, w 19⟩

end RekeyStageManifest

def stageMagic0 : Nat := 0x59504143
def stageMagic1 : Nat := 0x48475453
def stageVersion : Nat := 1
def stageManifestSize : Nat := 128
def stageCheckpointOffset : Nat := 0
def stageHeaderOffset : Nat := 512
def stageHeaderSize : Nat := 512
def stageManifestOffset : Nat := 1024

def stageOffsetsValid (m : RekeyStageManifest) : Bool :=
  m.checkpointOffset == stageCheckpointOffset && m.checkpointSize == CapyOS.checkpointSize &&
    m.stagedHeaderOffset == stageHeaderOffset && m.stagedHeaderSize == stageHeaderSize &&
    m.manifestOffset == stageManifestOffset && m.manifestSize == stageManifestSize

def stageManifestValid (m : RekeyStageManifest) : Bool :=
  m.magic0 == stageMagic0 && m.magic1 == stageMagic1 && m.version == stageVersion && m.flags == 0 &&
    stageOffsetsValid m && m.rawBlockCount != 0 && m.capyfsBlockCount != 0 &&
    rekeyGeometryValid m.rawBlockCount m.capyfsBlockCount m.sourceFirstLba m.sourceLastLba
      m.targetFirstLba m.targetLastLba m.scratchLba m.blocksTotal

def stageManifestSerialize (m : RekeyStageManifest) : Option Bytes :=
  if stageManifestValid m then some (crcRecord m.words) else none

def stageManifestParse (buf : Bytes) : Option RekeyStageManifest :=
  if crcRecordValid buf 20 then
    let m := RekeyStageManifest.ofWords fun i => load buf (4 * i) 4
    if stageManifestValid m then some m else none
  else none

/-- What a scratch block holds: the checkpoint, the manifest over it and the
header to be committed. -/
structure RekeyScratch where
  checkpoint : RekeyCheckpoint
  manifest : RekeyStageManifest
  header : VolumeHeader

def scratchIntegrityValid (scratch : Bytes) (m : RekeyStageManifest) : Bool :=
  m.checkpointCrc32 == volumeHeaderCrc32 (window scratch stageCheckpointOffset) checkpointSize &&
    m.stagedHeaderCrc32 == volumeHeaderCrc32 (window scratch stageHeaderOffset) stageHeaderSize

/-- The three parses and the two CRCs every step starts with. -/
def scratchParse (scratch : Bytes) : Option RekeyScratch := do
  let checkpoint ← rekeyCheckpointParse (window scratch stageCheckpointOffset)
  let manifest ← stageManifestParse (window scratch stageManifestOffset)
  let header ← volumeHeaderParse (window scratch stageHeaderOffset)
  if scratchIntegrityValid scratch manifest then some ⟨checkpoint, manifest, header⟩ else none

def planMatchesCheckpoint (plan : RekeyPlan) (c : RekeyCheckpoint) : Bool :=
  c.scratchFirstLba == plan.scratchFirstLba && c.rawBlockCount == plan.rawBlockCount &&
    c.capyfsBlockCount == plan.capyfsBlockCount && c.sourceFirstLba == plan.sourceFirstLba &&
    c.sourceLastLba == plan.sourceLastLba && c.targetFirstLba == plan.targetFirstLba &&
    c.targetLastLba == plan.targetLastLba && c.blocksTotal == plan.blocksToReencrypt

def planMatchesManifest (plan : RekeyPlan) (m : RekeyStageManifest) : Bool :=
  m.scratchLba == plan.scratchFirstLba && m.rawBlockCount == plan.rawBlockCount &&
    m.capyfsBlockCount == plan.capyfsBlockCount && m.sourceFirstLba == plan.sourceFirstLba &&
    m.sourceLastLba == plan.sourceLastLba && m.targetFirstLba == plan.targetFirstLba &&
    m.targetLastLba == plan.targetLastLba && m.blocksTotal == plan.blocksToReencrypt

/-- A new checkpoint in an old scratch block, with the manifest's CRC of it. -/
def scratchAdvance (scratch : Bytes) (m : RekeyStageManifest) (c : RekeyCheckpoint) :
    Option Bytes := do
  let record ← rekeyCheckpointSerialize c
  let scratch := blit scratch stageCheckpointOffset checkpointSize record
  let crc := volumeHeaderCrc32 (window scratch stageCheckpointOffset) checkpointSize
  let manifest ← stageManifestSerialize { m with checkpointCrc32 := crc }
  some (blit scratch stageManifestOffset stageManifestSize manifest)

inductive RekeyExecStatus
  | alreadyHeaderManaged
  | blockedByPlan
  | stagedHeaderWritten
  | stagedHeaderBuildFailed
  | copyStepDone
  | copyStepComplete
  | copyStepBuildFailed
  | copyStepCheckpointFailed
  | commitHeaderWritten
  | commitHeaderBuildFailed
  | commitHeaderOpenFailed
  | commitHeaderCheckpointFailed
  | rollbackStepDone
  | rollbackComplete
  | rollbackBuildFailed
  | rollbackCheckpointFailed
  | cleanupScratchDone
  | cleanupScratchNotNeeded
  | cleanupScratchBuildFailed
  | orchestrateBuildFailed
deriving DecidableEq, Repr

/-- A step's block writes in order and the status it reports; no status is the
return value -1. A device failure or a crash leaves a first part of the writes. -/
structure RekeyStep where
  writes : List (Nat × Bytes)
  status : Option RekeyExecStatus

def RekeyStep.report (status : RekeyExecStatus) : RekeyStep := ⟨[], some status⟩

/-- "CapyOS-0.8.0-alpha.232" -/
def stageCreatorVersion : List Byte :=
  [0x43, 0x61, 0x70, 0x79, 0x4F, 0x53, 0x2D, 0x30, 0x2E, 0x38, 0x2E, 0x30, 0x2D, 0x61, 0x6C, 0x70,
    0x68, 0x61, 0x2E, 0x32, 0x33, 0x32]

def cryptVolumeArgon2idTCost : Nat := 3
def cryptVolumeArgon2idMCost : Nat := 8192
def headerDefaultDataOffsetLba : Nat := 1
def headerDefaultReservedLbaCount : Nat := 1

/-- The checkpoint a copy or a rollback leaves at `completed` blocks. -/
def RekeyCheckpoint.progress (c : RekeyCheckpoint) (completed source target : Nat) :
    RekeyCheckpoint :=
  { c with blocksCompleted := completed, flags := flagInProgress,
           phaseFlags := phaseValidatePlan ||| phaseCheckpointScratch ||| phaseStageHeader |||
             phaseCopyReverse,
           nextSourceLba := source, nextTargetLba := target }

/-- The checkpoint a commit leaves. -/
def RekeyCheckpoint.committed (c : RekeyCheckpoint) : RekeyCheckpoint :=
  { c with flags := flagCompleted,
           phaseFlags := phaseValidatePlan ||| phaseCheckpointScratch ||| phaseStageHeader |||
             phaseCopyReverse ||| phaseCommitHeader ||| phaseVerifyOpen,
           nextSourceLba := c.sourceFirstLba, nextTargetLba := c.targetFirstLba }

variable {K : Type} (env : VolumeEnv K)

/-- What every write-enabled step does first: plan, and stop unless it is ready. -/
def withReadyPlan (blocks : Nat → Bytes) (act : RekeyPlan → RekeyStep) : RekeyStep :=
  match rekeyPlan env blocks with
  | none => ⟨[], none⟩
  | some plan =>
    if plan.status = .alreadyHeaderManaged then .report .alreadyHeaderManaged
    else if plan.status ≠ .ready ∨ env.blockCount ≤ plan.scratchFirstLba then .report .blockedByPlan
    else act plan

/-- The staged header for a salt, tagged with the keys it leads to. -/
def stagedHeader (salt : List Byte) : Option VolumeHeader := do
  let header ← volumeHeaderInit volumeKdfAlgoArgon2id cryptVolumeArgon2idTCost
    cryptVolumeArgon2idMCost salt headerDefaultDataOffsetLba headerDefaultReservedLbaCount 0
    stageCreatorVersion
  let key := env.crypto.deriveXtsKeysArgon2id (listBytes header.kdfSalt header.kdfSaltLen)
    header.kdfTCost header.kdfMCost
  some (volumeHeaderComputeCheckTag env.crypto header key)

def stageManifest (plan : RekeyPlan) (checkpointCrc headerCrc : Nat) : RekeyStageManifest :=
  { magic0 := stageMagic0, magic1 := stageMagic1, version := stageVersion, flags := 0,
    checkpointOffset := stageCheckpointOffset, checkpointSize := CapyOS.checkpointSize,
    stagedHeaderOffset := stageHeaderOffset, stagedHeaderSize := stageHeaderSize,
    manifestOffset := stageManifestOffset, manifestSize := stageManifestSize,
    scratchLba := plan.scratchFirstLba, rawBlockCount := plan.rawBlockCount,
    capyfsBlockCount := plan.capyfsBlockCount, sourceFirstLba := plan.sourceFirstLba,
    sourceLastLba := plan.sourceLastLba, targetFirstLba := plan.targetFirstLba,
    targetLastLba := plan.targetLastLba, blocksTotal := plan.blocksToReencrypt,
    checkpointCrc32 := checkpointCrc, stagedHeaderCrc32 := headerCrc }

/-- The first scratch block of a rekey. -/
def stageScratch (plan : RekeyPlan) (salt : List Byte) : Option Bytes := do
  let checkpoint ← rekeyCheckpointInit plan 0
  let checkpoint := { checkpoint with phaseFlags := checkpoint.phaseFlags ||| phaseStageHeader }
  let record ← rekeyCheckpointSerialize checkpoint
  let header ← stagedHeader env salt
  let image := volumeHeaderSerialize header
  let scratch := blit (blit zeros stageCheckpointOffset checkpointSize record) stageHeaderOffset
    stageHeaderSize image
  let manifest ← stageManifestSerialize (stageManifest plan
    (volumeHeaderCrc32 (window scratch stageCheckpointOffset) checkpointSize)
    (volumeHeaderCrc32 (window scratch stageHeaderOffset) stageHeaderSize))
  some (blit scratch stageManifestOffset stageManifestSize manifest)

def rekeyStageHeader (salt : Fin 16 → Byte) (blocks : Nat → Bytes) : RekeyStep :=
  withReadyPlan env blocks fun plan =>
    match stageScratch env plan (List.ofFn salt) with
    | none => .report .stagedHeaderBuildFailed
    | some scratch => ⟨[(plan.scratchFirstLba, scratch)], some .stagedHeaderWritten⟩

/-- One block out of the legacy domain into the managed one. The keys are the
Argon2id keys of the staged header whatever algorithm it names. -/
def rekeyCopyStep (blocks : Nat → Bytes) : RekeyStep :=
  withReadyPlan env blocks fun plan =>
    let scratch := blocks plan.scratchFirstLba
    match scratchParse scratch with
    | none => .report .copyStepBuildFailed
    | some s =>
      let c := s.checkpoint
      let key := env.crypto.deriveXtsKeysArgon2id (listBytes s.header.kdfSalt s.header.kdfSaltLen)
        s.header.kdfTCost s.header.kdfMCost
      if !(planMatchesCheckpoint plan c && planMatchesManifest plan s.manifest &&
          decide (c.phaseFlags &&& phaseStageHeader ≠ 0) &&
          volumeHeaderVerifyCheckTag env.crypto s.header key) then .report .copyStepBuildFailed
      else if c.blocksTotal ≤ c.blocksCompleted then .report .copyStepComplete
      else if c.nextSourceLba < c.sourceFirstLba ∨ c.nextTargetLba < c.targetFirstLba ∨
          c.sourceLastLba < c.nextSourceLba ∨ c.targetLastLba < c.nextTargetLba then
        .report .copyStepBuildFailed
      else
        let logical := c.nextSourceLba - c.sourceFirstLba
        let plain := env.crypto.decrypt env.legacyKey c.nextSourceLba (blocks c.nextSourceLba)
        let data := (c.targetFirstLba + logical, env.crypto.encrypt key logical plain)
        let completed := c.blocksCompleted + 1
        let c' := if completed = c.blocksTotal
          then c.progress completed c.sourceFirstLba c.targetFirstLba
          else c.progress completed (sub32 c.sourceLastLba completed) (sub32 c.targetLastLba completed)
        -- the scratch block is read again after the data block was written
        match scratchAdvance (Function.update blocks data.1 data.2 plan.scratchFirstLba) s.manifest c'
          with
        | none => ⟨[data], some .copyStepCheckpointFailed⟩
        | some scratch' => ⟨[data, (plan.scratchFirstLba, scratch')],
            some (if completed = c.blocksTotal then .copyStepComplete else .copyStepDone)⟩

/-- The switch: the header over block 0, an open of what that makes, and the
checkpoint marked completed. -/
def rekeyCommitHeader (blocks : Nat → Bytes) : RekeyStep :=
  withReadyPlan env blocks fun plan =>
    let scratch := blocks plan.scratchFirstLba
    match scratchParse scratch with
    | none => .report .commitHeaderBuildFailed
    | some s =>
      let c := s.checkpoint
      if !(planMatchesCheckpoint plan c && planMatchesManifest plan s.manifest &&
          c.flags == flagInProgress && c.blocksCompleted == c.blocksTotal &&
          decide (c.phaseFlags &&& phaseStageHeader ≠ 0) &&
          decide (c.phaseFlags &&& phaseCopyReverse ≠ 0) &&
          decide (c.phaseFlags &&& terminalPhases = 0) &&
          s.header.kdfAlgoId == volumeKdfAlgoArgon2id &&
          s.header.dataOffsetLba == plan.targetFirstLba &&
          (volumeHeaderDeriveKeys env.crypto s.header).isSome) then .report .commitHeaderBuildFailed
      else
        let header := (0, volumeHeaderSerialize s.header)
        let blocks' := Function.update blocks header.1 header.2
        match (volumeProviderOpen env blocks').bind (fun dev => dev.read env.crypto blocks' 0) with
        | none => ⟨[header], some .commitHeaderOpenFailed⟩
        | some super =>
          if !capyfsSuperValid super (fun n => n == c.blocksTotal) then
            ⟨[header], some .commitHeaderOpenFailed⟩
          else
            match scratchAdvance scratch s.manifest c.committed with
            | none => ⟨[header], some .commitHeaderCheckpointFailed⟩
            | some scratch' =>
              ⟨[header, (plan.scratchFirstLba, scratch')], some .commitHeaderWritten⟩

/-- One block back from the managed domain into the legacy one. -/
def rekeyRollbackStep (blocks : Nat → Bytes) : RekeyStep :=
  withReadyPlan env blocks fun plan =>
    let scratch := blocks plan.scratchFirstLba
    match scratchParse scratch with
    | none => .report .rollbackBuildFailed
    | some s =>
      let c := s.checkpoint
      if !(planMatchesCheckpoint plan c && planMatchesManifest plan s.manifest &&
          c.flags == flagInProgress && s.header.kdfAlgoId == volumeKdfAlgoArgon2id &&
          s.header.dataOffsetLba == plan.targetFirstLba &&
          decide (c.phaseFlags &&& phaseStageHeader ≠ 0) &&
          decide (c.phaseFlags &&& terminalPhases = 0)) then .report .rollbackBuildFailed
      else if c.blocksCompleted ≤ 1 then
        ⟨[(plan.scratchFirstLba, zeros)], some .rollbackComplete⟩
      else
        match volumeHeaderDeriveKeys env.crypto s.header with
        | none => .report .rollbackBuildFailed
        | some key =>
          let restore := sub32 c.sourceLastLba (c.blocksCompleted - 2)
          if restore < c.sourceFirstLba ∨ c.sourceLastLba < restore then .report .rollbackBuildFailed
          else
            let logical := restore - c.sourceFirstLba
            let plain := env.crypto.decrypt key logical (blocks (c.targetFirstLba + logical))
            let data := (restore, env.crypto.encrypt env.legacyKey restore plain)
            let remaining := c.blocksCompleted - 1
            let c' := c.progress remaining (sub32 c.sourceLastLba remaining)
              (sub32 c.targetLastLba remaining)
            match scratchAdvance scratch s.manifest c' with
            | none => ⟨[data], some .rollbackCheckpointFailed⟩
            | some scratch' =>
              ⟨[data, (plan.scratchFirstLba, scratch')], some .rollbackStepDone⟩

/-- The cleanup's last part: it takes the scratch block of a completed rekey only. -/
def cleanupScratchAt (capyfsBlocks scratchLba : Nat) (scratch : Bytes) : RekeyStep :=
  if bytesZero scratch 0 4096 then .report .cleanupScratchNotNeeded
  else
    match rekeyCheckpointParse (window scratch stageCheckpointOffset),
      stageManifestParse (window scratch stageManifestOffset) with
    | some c, some m =>
      if scratchIntegrityValid scratch m && c.flags == flagCompleted &&
          c.blocksCompleted == c.blocksTotal && c.blocksTotal == capyfsBlocks &&
          c.rawBlockCount == env.blockCount && c.capyfsBlockCount == capyfsBlocks &&
          c.scratchFirstLba == scratchLba &&
          decide (c.phaseFlags &&& (phaseCopyReverse ||| terminalPhases) =
            phaseCopyReverse ||| terminalPhases) &&
          m.scratchLba == scratchLba && m.rawBlockCount == env.blockCount &&
          m.capyfsBlockCount == capyfsBlocks && m.blocksTotal == capyfsBlocks then
        ⟨[(scratchLba, zeros)], some .cleanupScratchDone⟩
      else .report .cleanupScratchBuildFailed
    | _, _ => .report .cleanupScratchBuildFailed

def rekeyCleanupScratch (blocks : Nat → Bytes) : RekeyStep :=
  if !volumeHeaderLooksValid (blocks 0) then .report .cleanupScratchNotNeeded
  else
    match volumeProviderOpen env blocks with
    | none => .report .cleanupScratchBuildFailed
    | some dev =>
      match dev.read env.crypto blocks 0 with
      | none => .report .cleanupScratchBuildFailed
      | some super =>
        if !capyfsSuperValid super (fun n => decide (n ≤ dev.blockCount)) then
          .report .cleanupScratchBuildFailed
        else
          let capyfsBlocks := load super 12 4
          let scratchLba := u32 (capyfsBlocks + 1)
          if env.blockCount ≤ scratchLba then .report .cleanupScratchNotNeeded
          else cleanupScratchAt env capyfsBlocks scratchLba (blocks scratchLba)

/-- What the driver asks of a scratch block before it goes on with it. -/
def orchScratch (plan : RekeyPlan) (scratch : Bytes) : Option RekeyScratch := do
  let s ← scratchParse scratch
  if stageOffsetsValid s.manifest && planMatchesCheckpoint plan s.checkpoint &&
      planMatchesManifest plan s.manifest && s.header.kdfAlgoId == volumeKdfAlgoArgon2id &&
      s.header.dataOffsetLba == plan.targetFirstLba &&
      decide (s.checkpoint.phaseFlags &&& phaseStageHeader ≠ 0) &&
      decide (s.checkpoint.blocksCompleted ≤ s.checkpoint.blocksTotal) then some s
  else none

/-- `volume_provider_rekey_execute_orchestrated_step`; `salt` is what the random
generator hands out should the step stage a header. -/
def rekeyOrchestratedStep (abort : Bool) (salt : Fin 16 → Byte) (blocks : Nat → Bytes) : RekeyStep :=
  if volumeHeaderLooksValid (blocks 0) then rekeyCleanupScratch env blocks
  else
    withReadyPlan env blocks fun plan =>
      let scratch := blocks plan.scratchFirstLba
      if bytesZero scratch 0 4096 then
        if abort then .report .cleanupScratchNotNeeded else rekeyStageHeader env salt blocks
      else
        match orchScratch plan scratch with
        | none => .report .orchestrateBuildFailed
        | some s =>
          let c := s.checkpoint
          if !(c.flags == flagInProgress && decide (c.phaseFlags &&& terminalPhases = 0)) then
            .report .orchestrateBuildFailed
          else if abort then rekeyRollbackStep env blocks
          else if c.blocksCompleted < c.blocksTotal then rekeyCopyStep env blocks
          else rekeyCommitHeader env blocks

end CapyOS
