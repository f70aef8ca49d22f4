import CapyOS.Fs.Journal

namespace CapyOS
open Lib

def capyfsJournalBlocks : Nat := 32
def sha256DigestSize : Nat := 32

inductive RecoveryCause where
  | none | walReplay | walReplayFailed | format
  deriving DecidableEq, Repr

def capyfsJournalRootSecretInstalled (secret : List Byte) : Bool := decide (0 < secret.length)

/-- The key of a volume, or no bytes without a secret or a superblock. -/
def deriveVolumeHmacKey (hmac : Hmac) (secret : List Byte) (superBytes : List Byte) : List Byte :=
  if secret.length = 0 then []
  else if superBytes.length = 0 then []
  else listBytes (hmac secret superBytes) (min journalHmacKeyMax sha256DigestSize)

/-- An entry of the side table; `dev` is the address of the device it serves. -/
structure JournalSlot where
  dev : Nat
  jrnl : Journal
  active : Bool

/-- Claim the first slot that is not active. -/
def journalSlotAlloc (dev : Nat) : List JournalSlot → Option (Journal × Nat × List JournalSlot)
  | [] => none
  | s :: rest =>
    if s.active then
      match journalSlotAlloc dev rest with
      | none => none
      | some (j, i, rest) => some (j, i + 1, s :: rest)
    else some (s.jrnl, 0, { s with dev := dev, active := true } :: rest)

/-- What the hook leaves: the side table, the recovery cause, the writes it sent
and whether the replay it started has ended. -/
structure HookOutcome where
  slots : List JournalSlot
  cause : RecoveryCause
  writes : List Write
  ended : Bool

variable (heap : Heap) (hmac : Hmac)

/-- The journal after its key was installed, if it is one that asks for a key. -/
def installVolumeKey (j : Journal) (key : List Byte) : Journal :=
  if journalIsAuthenticated j || decide (2 ≤ j.sb.version.toNat) then
    if key.length = 0 then j else (journalSetHmacKey j key).2
  else j

def capyfsJournalMountHook (fuel : Nat) (secret : List Byte) (dev : Nat) (d : BlockDevice)
    (dataStart : Nat) (superBytes : List Byte) (slots : List JournalSlot) : HookOutcome :=
  if dataStart < capyfsJournalBlocks + 2 then ⟨slots, .none, [], true⟩ else
  match journalSlotAlloc dev slots with
  | none => ⟨slots, .none, [], true⟩
  | some (old, i, slots) =>
    let key := deriveVolumeHmacKey hmac secret superBytes
    let start := dataStart - capyfsJournalBlocks
    let keep (j : Journal) (active : Bool) : List JournalSlot := slots.set i ⟨dev, j, active⟩
    let opened := journalInit heap d old start capyfsJournalBlocks
    if opened.1 ≠ 0 then
      let r := if 0 < key.length then
          journalFormatAuthenticated heap d opened.2 start capyfsJournalBlocks key
        else journalFormat heap d opened.2 start capyfsJournalBlocks
      if r.rc ≠ 0 then ⟨keep r.journal false, .none, r.writes, true⟩
      else ⟨keep r.journal true, .format, r.writes, true⟩
    else
      let j := installVolumeKey opened.2 key
      if journalNeedsReplay j then
        let r := journalReplay heap hmac fuel d j
        ⟨keep r.journal true, if r.rc = some 0 then .walReplay else .walReplayFailed, r.writes,
          r.rc.isSome⟩
      else ⟨keep j true, .none, [], true⟩

end CapyOS
