import CapyOS.Storage.BlockDevice

namespace CapyOS
open Lib

def journalMagic : BitVec 32 := 0x4A524E4C#32
def journalVersion : BitVec 32 := 1#32
def journalVersionAuth : BitVec 32 := 2#32
def journalEntryMaxBlocks : Nat := 16
def journalHmacTagSize : Nat := 16
def journalHmacKeyMax : Nat := 32
def journalEntryFlagHmac : BitVec 32 := 1#32

inductive JournalEntryType where
  | invalid | create | delete | rename | writeMeta | truncate | setattr | commit | checkpoint
  deriving DecidableEq, Repr

/-- The enumerator's value in the header's `type` word. -/
def JournalEntryType.code : JournalEntryType → BitVec 32
  | invalid => 0#32
  | create => 1#32
  | delete => 2#32
  | rename => 3#32
  | writeMeta => 4#32
  | truncate => 5#32
  | setattr => 6#32
  | commit => 7#32
  | checkpoint => 8#32

structure JournalSuperblock where
  magic : BitVec 32
  version : BitVec 32
  blockSize : BitVec 32
  blockCount : BitVec 32
  head : BitVec 32
  tail : BitVec 32
  sequence : BitVec 64
  checksum : BitVec 32
  reserved : Fin 7 → BitVec 32

structure JournalEntryHeader where
  magic : BitVec 32
  type : BitVec 32
  sequence : BitVec 64
  blockCount : BitVec 32
  dataSize : BitVec 32
  checksum : BitVec 32
  flags : BitVec 32
  deriving DecidableEq

structure JournalBlockRef where
  targetBlock : BitVec 64
  offset : BitVec 32
  length : BitVec 32
  deriving DecidableEq

def JournalSuperblock.fields (sb : JournalSuperblock) : List (Nat × Nat) :=
  [(4, sb.magic.toNat), (4, sb.version.toNat), (4, sb.blockSize.toNat), (4, sb.blockCount.toNat),
    (4, sb.head.toNat), (4, sb.tail.toNat), (8, sb.sequence.toNat), (4, sb.checksum.toNat)] ++
  (List.ofFn sb.reserved).map (fun r => (4, r.toNat))

/-- The superblock as a zero-padded block. -/
def JournalSuperblock.bytes (sb : JournalSuperblock) : Bytes := pack sb.fields

def readSuperblock (b : Bytes) : JournalSuperblock where
  magic := field32 b 0
  version := field32 b 4
  blockSize := field32 b 8
  blockCount := field32 b 12
  head := field32 b 16
  tail := field32 b 20
  sequence := field64 b 24
  checksum := field32 b 32
  reserved := fun i => field32 b (36 + 4 * i.val)

def JournalEntryHeader.fields (h : JournalEntryHeader) : List (Nat × Nat) :=
  [(4, h.magic.toNat), (4, h.type.toNat), (8, h.sequence.toNat), (4, h.blockCount.toNat),
    (4, h.dataSize.toNat), (4, h.checksum.toNat), (4, h.flags.toNat)]

def JournalBlockRef.fields (r : JournalBlockRef) : List (Nat × Nat) :=
  [(8, r.targetBlock.toNat), (4, r.offset.toNat), (4, r.length.toNat)]

def readHeader (b : Bytes) : JournalEntryHeader where
  magic := field32 b 0
  type := field32 b 4
  sequence := field64 b 8
  blockCount := field32 b 16
  dataSize := field32 b 20
  checksum := field32 b 24
  flags := field32 b 28

/-- JournalEntry `i` of the reference array behind the 32-byte header. -/
def readRef (b : Bytes) (i : Nat) : JournalBlockRef where
  targetBlock := field64 b (32 + 16 * i)
  offset := field32 b (32 + 16 * i + 8)
  length := field32 b (32 + 16 * i + 12)

def readRefs (b : Bytes) (n : Nat) : List JournalBlockRef := (List.range n).map (readRef b)

def journalCrc32 (bs : List Byte) : BitVec 32 :=
  let bit (crc : BitVec 32) : BitVec 32 := (crc >>> 1) ^^^ (0xEDB88320#32 &&& -(crc &&& 1#32))
  ~~~(bs.foldl (fun crc p => Nat.repeat bit 8 (crc ^^^ p.setWidth 32)) 0xFFFFFFFF#32)

/-- `"CAPYJRNL2"` without its terminator. -/
def journalHmacDomain : List Byte :=
  [0x43#8, 0x41#8, 0x50#8, 0x59#8, 0x4A#8, 0x52#8, 0x4E#8, 0x4C#8, 0x32#8]

def JournalBlockRef.bytes (r : JournalBlockRef) : List Byte := listBytes (pack r.fields) 16

/-- What the tag authenticates: domain, sequence, block count, references and
payload, in that order. -/
def hmacMessage (sequence : BitVec 64) (refs : List JournalBlockRef) (payload : List Byte) :
    List Byte :=
  journalHmacDomain ++ listBytes (leBytes sequence.toNat) 8 ++ listBytes (leBytes refs.length) 4 ++
    refs.flatMap JournalBlockRef.bytes ++ payload

/-- Consecutive blocks of `bs` bytes as one buffer. -/
def joinBlocks (bs : Nat) (blocks : List Bytes) : Bytes :=
  fun k => blocks.getD (k / bs) zeros (k % bs)

def truncatedTag (mac : Bytes) : List Byte := listBytes mac journalHmacTagSize

def zeroTag : List Byte := List.replicate journalHmacTagSize 0

structure Journal where
  startBlock : Nat
  blockCount : Nat
  sb : JournalSuperblock
  currentSequence : BitVec 64
  dirty : Bool
  /-- The installed key; its length is `hmac_key_len`. -/
  hmacKey : List Byte

structure Transaction where
  sequence : BitVec 64
  refs : List JournalBlockRef
  /-- `data_buffer`, one block per slot. -/
  data : Nat → Bytes
  hasBuffer : Bool
  dataUsed : BitVec 32
  committed : Bool

/-- HMAC-SHA256 of a key and a message; only its first 32 bytes are used. -/
abbrev Hmac := List Byte → List Byte → Bytes

variable (heap : Heap) (hmac : Hmac)

/-- Without memory for the message the tag is left zero. -/
def journalComputeHmac (key : List Byte) (sequence : BitVec 64) (refs : List JournalBlockRef)
    (payload : List Byte) : List Byte :=
  if heap (21 + 16 * refs.length + payload.length) then
    truncatedTag (hmac key (hmacMessage sequence refs payload))
  else zeroTag

def journalConstantTimeEq (a b : List Byte) : Bool :=
  (List.zipWith (· ^^^ ·) a b).foldl (· ||| ·) 0#8 == 0#8

def journalIsAuthenticated (j : Journal) : Bool :=
  j.sb.version == journalVersionAuth && decide (0 < j.hmacKey.length)

/-- The device block behind journal block `k`. -/
def journalBlockNo (j : Journal) (k : Nat) : Nat := u32 (j.startBlock + k)

def journalReadBlock (d : BlockDevice) (j : Journal) (k : Nat) : Option Bytes :=
  blockDeviceRead d (journalBlockNo j k)

/-- Ring slot `p` is journal block `1 + p`. -/
def slotBlock (p : Nat) : Nat := u32 (1 + p)

def ringNext (sb : JournalSuperblock) (p : Nat) : Nat := u32 (p + 1) % sb.blockCount.toNat

def checkedSuperblock (sb : JournalSuperblock) : JournalSuperblock :=
  { sb with checksum := journalCrc32 (listBytes sb.bytes 32) }

/-- What a call did: its return code, the journal it leaves and the writes it
sent to the device, in order. -/
structure JournalOutcome where
  rc : Int
  journal : Journal
  writes : List Write

def journalFormatWithVersion (d : BlockDevice) (old : Journal) (startBlock blockCount : Nat)
    (version : BitVec 32) : JournalOutcome :=
  if blockCount < 4 then ⟨-1, old, []⟩ else
  let sb : JournalSuperblock :=
    { magic := journalMagic, version := version, blockSize := BitVec.ofNat 32 d.blockSize,
      blockCount := BitVec.ofNat 32 (blockCount - 1), head := 0, tail := 0, sequence := 1,
      checksum := old.sb.checksum, reserved := old.sb.reserved }
  let j : Journal := { old with startBlock := startBlock, blockCount := blockCount, sb := sb }
  if !heap d.blockSize then ⟨-1, j, []⟩ else
  let cleared := (List.range blockCount).map (fun k => (journalBlockNo j k, zeros))
  let j : Journal :=
    { j with sb := checkedSuperblock sb, currentSequence := sb.sequence, dirty := false }
  let last := journalBlockNo j 0
  ⟨if d.canWrite last then 0 else -1, j, cleared ++ [(last, j.sb.bytes)]⟩

def journalFormat (d : BlockDevice) (old : Journal) (startBlock blockCount : Nat) : JournalOutcome :=
  let r := journalFormatWithVersion heap d old startBlock blockCount journalVersion
  if r.rc = 0 then { r with journal := { r.journal with hmacKey := [] } } else r

def journalFormatAuthenticated (d : BlockDevice) (old : Journal) (startBlock blockCount : Nat)
    (key : List Byte) : JournalOutcome :=
  if key.length = 0 ∨ journalHmacKeyMax < key.length then ⟨-1, old, []⟩ else
  let r := journalFormatWithVersion heap d old startBlock blockCount journalVersionAuth
  if r.rc = 0 then { r with journal := { r.journal with hmacKey := key } } else r

def journalSetHmacKey (j : Journal) (key : List Byte) : Int × Journal :=
  if key.length = 0 then (0, { j with hmacKey := [] })
  else if journalHmacKeyMax < key.length then (-1, j)
  else (0, { j with hmacKey := key })

/-- A refused superblock is still left in the journal the call was given. -/
def journalInit (d : BlockDevice) (old : Journal) (startBlock blockCount : Nat) : Int × Journal :=
  let j : Journal :=
    { old with startBlock := startBlock, blockCount := blockCount, dirty := false, hmacKey := [] }
  if !heap d.blockSize then (-1, j) else
  match journalReadBlock d j 0 with
  | none => (-1, j)
  | some b =>
    let j := { j with sb := readSuperblock b }
    if j.sb.magic ≠ journalMagic then (-1, j)
    else if j.sb.version ≠ journalVersion ∧ j.sb.version ≠ journalVersionAuth then (-1, j)
    else (0, { j with currentSequence := j.sb.sequence })

def journalNeedsReplay (j : Journal) : Bool := j.sb.head != j.sb.tail

def journalExtractCommitTag (b : Bytes) : List Byte :=
  listBytes (fun i => b (32 + i)) journalHmacTagSize

/-- A transaction as replay reads it off the ring. -/
structure JournalEntry where
  sequence : BitVec 64
  refs : List JournalBlockRef
  payload : List Bytes
  storedTag : List Byte

/-- The block writes that apply an entry. -/
def applyRefs (refs : List JournalBlockRef) (payload : List Bytes) : List Write :=
  List.zipWith (fun r b => (u32 r.targetBlock.toNat, b)) refs payload

def JournalEntry.writes (e : JournalEntry) : List Write := applyRefs e.refs e.payload

/-- One pass of the loop in `journal_replay`. -/
inductive ReplayIteration where
  /-- `break`, with the integrity flag. -/
  | stop (integrityOk : Bool)
  | skip (pos : Nat)
  | legacy (writes : List Write) (pos : Nat)
  | authentic (entry : JournalEntry) (pos : Nat)
  /-- Division by a zero ring size. -/
  | trap

/-- The legacy inner loop applies each payload block as it reads it, so the
device it reads from is the one its own writes have made. -/
def legacyApply (d : BlockDevice) (j : Journal) : List JournalBlockRef → Nat → List Write × Nat
  | [], p => ([], p)
  | r :: rs, p =>
    if p = j.sb.head.toNat then ([], p)
    else if !heap d.blockSize then ([], p)
    else
      let ws : List Write := match journalReadBlock d j (slotBlock p) with
        | some b => [(u32 r.targetBlock.toNat, b)]
        | none => []
      let rest := legacyApply (d.apply ws) j rs (ringNext j.sb p)
      (ws ++ rest.1, rest.2)

/-- The authenticated inner loop: the blocks staged, whether every read
succeeded, and the position behind them. -/
def stagePayload (d : BlockDevice) (j : Journal) : Nat → Nat → List Bytes × Bool × Nat
  | 0, p => ([], true, p)
  | n + 1, p =>
    if p = j.sb.head.toNat then ([], true, p)
    else match journalReadBlock d j (slotBlock p) with
      | none => ([], false, p)
      | some b =>
        let rest := stagePayload d j n (ringNext j.sb p)
        (b :: rest.1, rest.2)

/-- The authenticated branch: stage, find the commit block, verify. -/
def authIteration (d : BlockDevice) (j : Journal) (hdr : JournalEntryHeader)
    (refs : List JournalBlockRef) (dataPos : Nat) : ReplayIteration :=
  let staged := stagePayload d j refs.length dataPos
  if !staged.2.1 || staged.1.length != refs.length then .stop false
  else if staged.2.2 = j.sb.head.toNat then .stop false
  else match journalReadBlock d j (slotBlock staged.2.2) with
    | none => .stop false
    | some commit =>
      let chdr := readHeader commit
      if chdr.magic ≠ journalMagic ∨ chdr.type ≠ JournalEntryType.commit.code ∨
          chdr.sequence ≠ hdr.sequence ∨ chdr.flags &&& journalEntryFlagHmac = 0#32 then
        .stop false
      else
        let stored := journalExtractCommitTag commit
        let payloadLen := u32 (staged.1.length * d.blockSize)
        let expected := journalComputeHmac heap hmac j.hmacKey hdr.sequence refs
          (listBytes (joinBlocks d.blockSize staged.1) payloadLen)
        if !journalConstantTimeEq stored expected then .stop false
        else .authentic ⟨hdr.sequence, refs, staged.1, stored⟩ (ringNext j.sb staged.2.2)

def replayIteration (d : BlockDevice) (j : Journal) (pos : Nat) : ReplayIteration :=
  match journalReadBlock d j (slotBlock pos) with
  | none => .stop true
  | some buf =>
    let hdr := readHeader buf
    if hdr.magic ≠ journalMagic then .stop true
    -- every branch below divides by the ring size
    else if j.sb.blockCount = 0#32 then .trap
    else if hdr.type = JournalEntryType.commit.code then .skip (ringNext j.sb pos)
    else if hdr.type = JournalEntryType.writeMeta.code ∧ hdr.blockCount ≠ 0#32 then
      let refs := readRefs buf (min hdr.blockCount.toNat journalEntryMaxBlocks)
      let dataPos := ringNext j.sb pos
      if !journalIsAuthenticated j then
        let r := legacyApply heap d j refs dataPos
        .legacy r.1 r.2
      else authIteration heap hmac d j hdr refs dataPos
    else .skip (ringNext j.sb pos)

inductive ReplayEnd where
  /-- The loop left, with the integrity flag. -/
  | finished (integrityOk : Bool)
  | trapped
  /-- Still at this position when the fuel ran out. -/
  | running (pos : Nat)

/-- The replay loop for at most `fuel` passes: its writes and how it ended. -/
def replayLoop (j : Journal) : Nat → BlockDevice → Nat → List Write × ReplayEnd
  | 0, _, pos => ([], .running pos)
  | fuel + 1, d, pos =>
    if pos = j.sb.head.toNat then ([], .finished true)
    else match replayIteration heap hmac d j pos with
      | .stop ok => ([], .finished ok)
      | .trap => ([], .trapped)
      | .skip p => replayLoop j fuel d p
      | .legacy ws p =>
        let rest := replayLoop j fuel (d.apply ws) p
        (ws ++ rest.1, rest.2)
      | .authentic e p =>
        let rest := replayLoop j fuel (d.apply e.writes) p
        (e.writes ++ rest.1, rest.2)

/-- `rc` is absent while the loop has not ended. -/
structure ReplayOutcome where
  rc : Option Int
  journal : Journal
  writes : List Write

def journalReplay (fuel : Nat) (d : BlockDevice) (j : Journal) : ReplayOutcome :=
  if !journalNeedsReplay j then ⟨some 0, j, []⟩
  else if j.sb.version = journalVersionAuth ∧ j.hmacKey.length = 0 then ⟨some (-1), j, []⟩
  else if !heap d.blockSize then ⟨some (-1), j, []⟩
  else if journalIsAuthenticated j && !heap (journalEntryMaxBlocks * d.blockSize) then
    ⟨some (-1), j, []⟩
  else
    let r := replayLoop heap hmac j fuel d j.sb.tail.toNat
    match r.2 with
    | .finished ok =>
      let sb := { j.sb with tail := j.sb.head, sequence := j.sb.sequence + 1 }
      ⟨some (if ok then 0 else -1), { j with sb := sb, currentSequence := sb.sequence },
        r.1 ++ [(journalBlockNo j 0, sb.bytes)]⟩
    | _ => ⟨none, j, r.1⟩

def journalBegin (j : Journal) : Journal × Transaction :=
  ({ j with currentSequence := j.currentSequence + 1 },
    { sequence := j.currentSequence, refs := [], data := fun _ => zeros, hasBuffer := false,
      dataUsed := 0, committed := false })

def journalLogBlock (d : BlockDevice) (t : Transaction) (target : BitVec 64) (data : Bytes)
    (offset length : BitVec 32) : Int × Transaction :=
  if journalEntryMaxBlocks ≤ t.refs.length then (-1, t) else
  let t := { t with refs := t.refs ++ [⟨target, offset, length⟩] }
  if !t.hasBuffer && !heap (u32 (journalEntryMaxBlocks * d.blockSize)) then (-1, t) else
  let block : Bytes := fun i => if i < d.blockSize ∧ i < length.toNat then data i else 0
  (0, { t with
    hasBuffer := true
    data := Function.update t.data (t.refs.length - 1) block
    dataUsed := t.dataUsed + BitVec.ofNat 32 d.blockSize })

def ringUsed (sb : JournalSuperblock) : Nat :=
  if sb.tail.toNat ≤ sb.head.toNat then sb.head.toNat - sb.tail.toNat
  else u32 (sb.blockCount.toNat + 2 ^ 32 - sb.tail.toNat + sb.head.toNat)

/-- Free ring blocks; one slot always stays empty. -/
def ringAvail (sb : JournalSuperblock) : Nat :=
  u32 (sb.blockCount.toNat + 2 ^ 33 - ringUsed sb - 1)

/-- A header block with its checksum over the whole block. -/
def sealBlock (bs : Nat) (h : JournalEntryHeader) (rest : List (Nat × Nat)) : Bytes :=
  let crc := journalCrc32 (listBytes (pack (h.fields ++ rest)) bs)
  pack ({ h with checksum := crc }.fields ++ rest)

def metaBlock (d : BlockDevice) (t : Transaction) : Bytes :=
  sealBlock d.blockSize
    { magic := journalMagic, type := JournalEntryType.writeMeta.code, sequence := t.sequence,
      blockCount := BitVec.ofNat 32 t.refs.length, dataSize := t.dataUsed, checksum := 0,
      flags := 0 }
    (t.refs.flatMap JournalBlockRef.fields)

def commitBlock (d : BlockDevice) (j : Journal) (t : Transaction) : Bytes :=
  let payload := (List.range t.refs.length).map t.data
  let hdr : JournalEntryHeader :=
    { magic := journalMagic, type := JournalEntryType.commit.code, sequence := t.sequence,
      blockCount := 0, dataSize := 0, checksum := 0, flags := 0 }
  if journalIsAuthenticated j then
    let tag := journalComputeHmac heap hmac j.hmacKey t.sequence t.refs
      (listBytes (joinBlocks d.blockSize payload) (u32 (t.refs.length * d.blockSize)))
    sealBlock d.blockSize { hdr with flags := journalEntryFlagHmac }
      (tag.map (fun b => (1, b.toNat)))
  else sealBlock d.blockSize hdr []

/-- Write blocks into consecutive ring slots from `head`. -/
def ringWrites (j : Journal) (head : Nat) : List Bytes → List Write × Nat
  | [] => ([], head)
  | b :: bs =>
    let rest := ringWrites j (ringNext j.sb head) bs
    ((journalBlockNo j (slotBlock head), b) :: rest.1, rest.2)

def journalCommit (d : BlockDevice) (j : Journal) (t : Transaction) :
    Int × Journal × Transaction × List Write :=
  if t.committed then (-1, j, t, []) else
  if ringAvail j.sb < 1 + t.refs.length + 1 then (-1, j, t, []) else
  if !heap d.blockSize then (-1, j, t, []) else
  let blocks := metaBlock d t :: (List.range t.refs.length).map t.data ++
    [commitBlock heap hmac d j t]
  let r := ringWrites j j.sb.head.toNat blocks
  let sb := { j.sb with head := BitVec.ofNat 32 r.2 }
  (0, { j with sb := sb, dirty := true }, { t with hasBuffer := false, committed := true },
    r.1 ++ [(journalBlockNo j 0, sb.bytes)])

def journalAbort (t : Transaction) : Transaction :=
  { t with hasBuffer := false, committed := false, refs := [] }

def journalCheckpoint (d : BlockDevice) (j : Journal) : JournalOutcome :=
  if !j.dirty then ⟨0, j, []⟩ else
  let sb := checkedSuperblock { j.sb with tail := j.sb.head, sequence := j.sb.sequence + 1 }
  if !heap d.blockSize then ⟨-1, { j with sb := sb }, []⟩ else
  let home := journalBlockNo j 0
  ⟨if d.canWrite home then 0 else -1,
    { j with sb := sb, dirty := false, currentSequence := sb.sequence }, [(home, sb.bytes)]⟩

end CapyOS
