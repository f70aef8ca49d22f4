import CapyOS.Lib.Records

namespace CapyOS
open Lib

def bootSlotNameMax : Nat := 8
def bootSlotVersionMax : Nat := 40

theorem version_pos : 0 < bootSlotVersionMax := by decide
def bootSlotSha256Size : Nat := 32
def bootSlotPersistRecordSize : Nat := 512
def bootSlotNone : BitVec 32 := 0xFFFFFFFF#32
def bootSlotDefaultTries : BitVec 32 := 1#32
def bootSlotMaxTries : BitVec 32 := 1#32

def bootSlotPersistEmpty : Int := 1
def bootSlotErrIo : Int := -1
def bootSlotErrCommitUnknown : Int := -2
def bootSlotErrBusy : Int := -4

inductive BootSlotState where
  | empty | valid | active | rollback | failed
  deriving DecidableEq, Repr

def BootSlotState.code : BootSlotState → BitVec 32
  | empty => 0#32
  | valid => 1#32
  | active => 2#32
  | rollback => 3#32
  | failed => 4#32

def BootSlotState.ofCode (c : BitVec 32) : Option BootSlotState :=
  if c = 0#32 then some empty
  else if c = 1#32 then some valid
  else if c = 2#32 then some active
  else if c = 3#32 then some rollback
  else if c = 4#32 then some failed
  else none

structure BootSlotRegion where
  headerLba : BitVec 32
  payloadLba : BitVec 32
  payloadCapacitySectors : BitVec 32
  deriving DecidableEq

structure BootSlotLayout where
  bootSectors : BitVec 32
  slots : Fin 2 → BootSlotRegion
  controlLba : Fin 2 → BitVec 32
  deriving DecidableEq

/-- A `char` or `uint8_t` array of fixed size. -/
abbrev Chars (n : Nat) := Vector Byte n

structure BootSlotImage where
  version : Chars bootSlotVersionMax
  payloadSize : BitVec 32
  payloadSha256 : Chars bootSlotSha256Size
  deriving DecidableEq

structure BootSlot where
  name : Chars bootSlotNameMax
  version : Chars bootSlotVersionMax
  state : BootSlotState
  bootCount : BitVec 32
  successCount : BitVec 32
  failCount : BitVec 32
  headerLba : BitVec 32
  payloadLba : BitVec 32
  payloadCapacitySectors : BitVec 32
  payloadSize : BitVec 32
  checksum : BitVec 32
  payloadSha256 : Chars bootSlotSha256Size
  healthConfirmed : BitVec 32
  deriving DecidableEq

structure BootSlotManager where
  slots : Fin 2 → BootSlot
  activeSlot : BitVec 32
  nextSlot : BitVec 32
  rollbackPending : BitVec 32
  confirmedSlot : BitVec 32
  pendingSlot : BitVec 32
  triesRemaining : BitVec 32
  bootSectors : BitVec 32
  controlLba : Fin 2 → BitVec 32
  deriving DecidableEq

/-- The array element a slot number below `BOOT_SLOT_COUNT` picks. -/
def slotIndex (slot : BitVec 32) : Fin 2 := if slot = 0#32 then 0 else 1

namespace BootSlotManager

def slot (m : BootSlotManager) (i : BitVec 32) : BootSlot := m.slots (slotIndex i)

def setSlot (m : BootSlotManager) (i : BitVec 32) (x : BootSlot) : BootSlotManager :=
  { m with slots := Function.update m.slots (slotIndex i) x }

end BootSlotManager

/-- How many characters stand before the terminator, all of them if there is none. -/
def strLen {n : Nat} (text : Chars n) : Nat := text.toList.findIdx (· == 0#8)

def printable (ch : Byte) : Bool := decide (0x20#8 ≤ ch ∧ ch ≤ 0x7E#8)

/-- `bs_strcpy` into a cleared array of the same size. -/
def bsStrcpy {n : Nat} (src : Chars n) : Chars n :=
  Vector.ofFn fun i => if i.val < n - 1 ∧ i.val < strLen src then src[i] else 0#8

def bsStringFits {n : Nat} (text : Chars n) : Bool :=
  (text.toList.take (strLen text)).all printable && decide (0 < strLen text ∧ strLen text < n)

def bsDigestPresent {n : Nat} (digest : Chars n) : Bool := digest.toList.any (· != 0#8)

def zeroChars (n : Nat) : Chars n := Vector.replicate n 0#8

/-- The name `"A"` or `"B"`. -/
def slotName (i : Fin 2) : Chars bootSlotNameMax :=
  if i = 0 then #v[65#8, 0#8, 0#8, 0#8, 0#8, 0#8, 0#8, 0#8]
  else #v[66#8, 0#8, 0#8, 0#8, 0#8, 0#8, 0#8, 0#8]

def bootSlotLayoutPlan (bootSectors : BitVec 32) : Option BootSlotLayout :=
  if bootSectors < 6#32 then none
  else
    let usable := bootSectors - 2#32
    let firstRegion := usable / 2#32
    let secondRegion := usable - firstRegion
    if firstRegion < 2#32 ∨ secondRegion < 2#32 then none
    else some {
      bootSectors := bootSectors
      slots := fun i =>
        if i = 0 then ⟨0#32, 1#32, firstRegion - 1#32⟩
        else ⟨firstRegion, firstRegion + 1#32, secondRegion - 1#32⟩
      controlLba := fun i => if i = 0 then bootSectors - 2#32 else bootSectors - 1#32 }

def bsImageValid (image : BootSlotImage) (capacitySectors : BitVec 32) : Bool :=
  bsStringFits image.version && decide (0#32 < image.payloadSize) &&
    decide (image.payloadSize.toNat ≤ capacitySectors.toNat * 512) &&
    bsDigestPresent image.payloadSha256

/-- A slot with every field cleared but its name. -/
def clearSlot (name : Chars bootSlotNameMax) : BootSlot where
  name := name
  version := zeroChars _
  state := .empty
  bootCount := 0#32
  successCount := 0#32
  failCount := 0#32
  headerLba := 0#32
  payloadLba := 0#32
  payloadCapacitySectors := 0#32
  payloadSize := 0#32
  checksum := 0#32
  payloadSha256 := zeroChars _
  healthConfirmed := 0#32

def bsManagerDefaults : BootSlotManager where
  slots := fun i => clearSlot (slotName i)
  activeSlot := 0#32
  nextSlot := 0#32
  rollbackPending := 0#32
  confirmedSlot := 0#32
  pendingSlot := bootSlotNone
  triesRemaining := 0#32
  bootSectors := 0#32
  controlLba := fun _ => 0#32

def bsSlotApplyImage (slot : BootSlot) (slotIx : BitVec 32) (image : BootSlotImage)
    (state : BootSlotState) : BootSlot :=
  { clearSlot (slotName (slotIndex slotIx)) with
    headerLba := slot.headerLba
    payloadLba := slot.payloadLba
    payloadCapacitySectors := slot.payloadCapacitySectors
    version := bsStrcpy image.version
    payloadSize := image.payloadSize
    payloadSha256 := image.payloadSha256
    state := state }

def bsSlotIdentityValid (slot : BootSlot) : Prop :=
  (slot.healthConfirmed = 0#32 ∨ slot.healthConfirmed = 1#32) ∧
    slot.payloadCapacitySectors ≠ 0#32 ∧ slot.payloadLba = slot.headerLba + 1#32 ∧
    if slot.state = .empty then
      slot.version[0] = 0#8 ∧ slot.payloadSize = 0#32 ∧ slot.bootCount = 0#32 ∧
        slot.successCount = 0#32 ∧ slot.failCount = 0#32 ∧ slot.checksum = 0#32 ∧
        slot.healthConfirmed = 0#32 ∧ bsDigestPresent slot.payloadSha256 = false
    else
      bsStringFits slot.version = true ∧ 0#32 < slot.payloadSize ∧
        slot.payloadSize.toNat ≤ slot.payloadCapacitySectors.toNat * 512 ∧
        bsDigestPresent slot.payloadSha256 = true

instance (slot : BootSlot) : Decidable (bsSlotIdentityValid slot) := by
  unfold bsSlotIdentityValid
  infer_instance

/-- The layout a manager's own fields spell out. -/
def BootSlotManager.layout (m : BootSlotManager) : BootSlotLayout where
  bootSectors := m.bootSectors
  slots := fun i => ⟨(m.slots i).headerLba, (m.slots i).payloadLba, (m.slots i).payloadCapacitySectors⟩
  controlLba := m.controlLba

def bsManagerMatchesLayout (m : BootSlotManager) (layout : BootSlotLayout) : Bool :=
  decide (m.layout = layout)

/-- The last part of `boot_slot_manager_validate`: which states the slots may
be in with and without a trial. -/
def bsStatesValid (m : BootSlotManager) : Prop :=
  if m.pendingSlot = bootSlotNone then
    let other := m.confirmedSlot ^^^ 1#32
    (m.rollbackPending = 0#32 ∧ m.triesRemaining = 0#32 ∧ m.activeSlot = m.confirmedSlot ∧
      (m.slot m.confirmedSlot).state = .active ∧ (m.slot m.confirmedSlot).healthConfirmed ≠ 0#32 ∧
      (m.slot other).state ≠ .active ∧ (m.slot other).state ≠ .rollback) ∧
      (m.nextSlot = m.confirmedSlot ∨ m.nextSlot = other ∧ (m.slot other).state = .valid)
  else
    m.pendingSlot ≠ m.confirmedSlot ∧ m.rollbackPending ≠ 0#32 ∧ m.activeSlot = m.pendingSlot ∧
      m.nextSlot = m.pendingSlot ∧ (m.slot m.pendingSlot).state = .active ∧
      (m.slot m.pendingSlot).healthConfirmed = 0#32 ∧
      (m.slot m.confirmedSlot).state = .rollback ∧ (m.slot m.confirmedSlot).healthConfirmed ≠ 0#32

instance (m : BootSlotManager) : Decidable (bsStatesValid m) := by
  unfold bsStatesValid
  infer_instance

def bootSlotManagerValidate (m : BootSlotManager) : Prop :=
  m.activeSlot < 2#32 ∧ m.nextSlot < 2#32 ∧ m.confirmedSlot < 2#32 ∧
    (m.pendingSlot = bootSlotNone ∨ m.pendingSlot < 2#32) ∧ m.triesRemaining ≤ bootSlotMaxTries ∧
    (m.rollbackPending = 0#32 ∨ m.rollbackPending = 1#32) ∧
    (∀ i, bsSlotIdentityValid (m.slots i) ∧
      ¬ ((m.slots i).state = .failed ∧ (m.slots i).healthConfirmed ≠ 0#32)) ∧
    bootSlotLayoutPlan m.bootSectors = some m.layout ∧ bsStatesValid m

instance (m : BootSlotManager) : Decidable (bootSlotManagerValidate m) := by
  unfold bootSlotManagerValidate
  infer_instance

/-- `"CAPYAB00"`, as the little-endian number of its eight bytes. -/
def bsRecordMagic : BitVec 64 := 0x3030424159504143#64

def bsRecordFormatVersion : BitVec 32 := 0#32
def bsRecordSlot0Offset : Nat := 64
def bsRecordSlotSize : Nat := 128
def bsRecordReservedOffset : Nat := 320
def bsRecordCrcOffset : Nat := 508

def flag (x : BitVec 32) : BitVec 32 := if x ≠ 0#32 then 1#32 else 0#32

def bsEncodeSlot (slot : BootSlot) : List (Nat × Nat) :=
  [(4, slot.state.code.toNat), (4, slot.bootCount.toNat), (4, slot.successCount.toNat),
    (4, slot.failCount.toNat), (4, slot.headerLba.toNat), (4, slot.payloadLba.toNat),
    (4, slot.payloadCapacitySectors.toNat), (4, slot.payloadSize.toNat), (4, slot.checksum.toNat),
    (4, (flag slot.healthConfirmed).toNat)] ++ byteFields (bsStrcpy slot.version).toList ++
  byteFields slot.payloadSha256.toList ++ [(16, 0)]

/-- The fields of a record in front of its slots. -/
def bsRecordHead (m : BootSlotManager) (generation : BitVec 64) : List (Nat × Nat) :=
  [(8, bsRecordMagic.toNat), (4, bsRecordFormatVersion.toNat), (4, bootSlotPersistRecordSize),
    (8, generation.toNat), (4, m.activeSlot.toNat), (4, m.nextSlot.toNat),
    (4, (flag m.rollbackPending).toNat), (4, m.confirmedSlot.toNat), (4, m.pendingSlot.toNat),
    (4, m.triesRemaining.toNat), (4, m.bootSectors.toNat), (4, (m.controlLba 0).toNat),
    (4, (m.controlLba 1).toNat), (4, 0)]

def bsRecordBody (m : BootSlotManager) (generation : BitVec 64) : Bytes :=
  pack (bsRecordHead m generation ++ (bsEncodeSlot (m.slots 0) ++ bsEncodeSlot (m.slots 1)))

def bsRecordEncode (m : BootSlotManager) (generation : BitVec 64) : Bytes :=
  let body := bsRecordBody m generation
  store body bsRecordCrcOffset 4 (crc32 (listBytes body bsRecordCrcOffset)).toNat

def bsBytesZero (data : Bytes) (start stop : Nat) : Bool :=
  (List.range (stop - start)).all fun i => data (start + i) == 0#8

def bsBytesEqual (a b : Bytes) (len : Nat) : Bool := listBytes a len == listBytes b len

/-- Never written: all zeros or all ones. -/
def bsRecordErased (record : Bytes) : Bool :=
  (listBytes record bootSlotPersistRecordSize).all (· == 0#8) ||
    (listBytes record bootSlotPersistRecordSize).all (· == 0xFF#8)

/-- An array of bytes copied out of a buffer. -/
def charsAt (b : Bytes) (o n : Nat) : Chars n := Vector.ofFn fun i => b (o + i.val)

def bsDecodeVersion (src : Bytes) (o : Nat) : Option (Chars bootSlotVersionMax) :=
  let text := charsAt src o bootSlotVersionMax
  if (text.toList.take (strLen text)).all printable ∧ strLen text < bootSlotVersionMax ∧
      (text.toList.drop (strLen text)).all (· == 0#8) then some text
  else none

/-- The checks of `bs_decode_slot` on the fields it has read. -/
def bsDecodedSlotValid (slot : BootSlot) : Prop :=
  if slot.state = .empty then
    slot.version[0] = 0#8 ∧ slot.bootCount = 0#32 ∧ slot.successCount = 0#32 ∧
      slot.failCount = 0#32 ∧ slot.payloadSize = 0#32 ∧ slot.checksum = 0#32 ∧
      slot.healthConfirmed = 0#32 ∧ slot.payloadSha256.toList.all (· == 0#8) = true
  else slot.version[0] ≠ 0#8 ∧ slot.payloadSize ≠ 0#32

instance (slot : BootSlot) : Decidable (bsDecodedSlotValid slot) := by
  unfold bsDecodedSlotValid
  infer_instance

def bsDecodeSlot (record : Bytes) (offset : Nat) (name : Chars bootSlotNameMax) : Option BootSlot :=
  match BootSlotState.ofCode (field32 record offset) with
  | none => none
  | some state =>
    let health := field32 record (offset + 36)
    if health > 1#32 ∨ bsBytesZero record (offset + 112) (offset + bsRecordSlotSize) = false then none
    else
      match bsDecodeVersion record (offset + 40) with
      | none => none
      | some version =>
        let slot : BootSlot := {
          name := name
          version := version
          state := state
          bootCount := field32 record (offset + 4)
          successCount := field32 record (offset + 8)
          failCount := field32 record (offset + 12)
          headerLba := field32 record (offset + 16)
          payloadLba := field32 record (offset + 20)
          payloadCapacitySectors := field32 record (offset + 24)
          payloadSize := field32 record (offset + 28)
          checksum := field32 record (offset + 32)
          payloadSha256 := charsAt record (offset + 80) bootSlotSha256Size
          healthConfirmed := if health ≠ 0#32 then 1#32 else 0#32 }
        if bsDecodedSlotValid slot then some slot else none

/-- The checks of a record's frame, before any field of the manager is looked at. -/
def bsRecordFramed (record : Bytes) : Prop :=
  field64 record 0 = bsRecordMagic ∧ field32 record 8 = bsRecordFormatVersion ∧
    field32 record 12 = BitVec.ofNat 32 bootSlotPersistRecordSize ∧ field64 record 16 ≠ 0#64 ∧
    crc32 (listBytes record bsRecordCrcOffset) = field32 record bsRecordCrcOffset ∧
    bsBytesZero record 60 bsRecordSlot0Offset = true ∧
    bsBytesZero record bsRecordReservedOffset bsRecordCrcOffset = true

instance (record : Bytes) : Decidable (bsRecordFramed record) := by
  unfold bsRecordFramed
  infer_instance

def bsRecordDecode (record : Bytes) : Option (BootSlotManager × BitVec 64) :=
  if ¬ bsRecordFramed record then none
  else
    let activeSlot := field32 record 24
    let nextSlot := field32 record 28
    let rollback := field32 record 32
    if ¬ (activeSlot < 2#32 ∧ nextSlot < 2#32 ∧ rollback ≤ 1#32) then none
    else
      match bsDecodeSlot record bsRecordSlot0Offset (slotName 0),
          bsDecodeSlot record (bsRecordSlot0Offset + bsRecordSlotSize) (slotName 1) with
      | some slot0, some slot1 =>
        let decoded : BootSlotManager := {
          slots := fun i => if i = 0 then slot0 else slot1
          activeSlot := activeSlot
          nextSlot := nextSlot
          rollbackPending := if rollback ≠ 0#32 then 1#32 else 0#32
          confirmedSlot := field32 record 36
          pendingSlot := field32 record 40
          triesRemaining := field32 record 44
          bootSectors := field32 record 48
          controlLba := fun i => if i = 0 then field32 record 52 else field32 record 56 }
        if bootSlotManagerValidate decoded then some (decoded, field64 record 16) else none
      | _, _ => none

end CapyOS
