import CapyOS.Boot.SlotControl
import CapyOS.Lib.Writes

namespace CapyOS
open Lib

def bootSlotStoreSectorSize : Nat := 512
def bootSlotStoreErrIo : Int := -1
def bootSlotStoreErrCommitUnknown : Int := -2
def bootSlotStoreErrVerify : Int := -3
def bootSlotStoreErrStale : Int := -4
def bootSlotStoreErrBusy : Int := -5

/-- `"CAPYSLT0"`, as the little-endian number of its eight bytes. -/
def storeMagic : BitVec 64 := 0x30544C5359504143#64

def storeHeaderVersion : BitVec 32 := 0#32
def storeHeaderCrcOffset : Nat := 508
def bootSlotSnapshotVersion : BitVec 32 := 2#32

/-- `sizeof(struct boot_slot_snapshot)` -/
def bootSlotSnapshotSize : BitVec 32 := 312#32

/-- The callbacks a store works with, by sector of the BOOT partition. -/
structure BlockIo (W : Type) where
  read : BitVec 32 → W → (Int × Bytes) × W
  write : BitVec 32 → Bytes → W → Int × W
  flush : W → Int × W

/-- A store's function pointers and their context: the block provider's with a
lease epoch, or others handed to `boot_slot_store_init`. -/
inductive IoRef where
  | provider (ctx : BitVec 64)
  | external (id : Nat)
  deriving DecidableEq, Repr

/-- A `struct boot_slot_store`. -/
structure StoreObject where
  opaqueEpoch : BitVec 64
  testLayout : BootSlotLayout
  testIo : IoRef
  testReady : Bool

structure StoreBinding where
  owner : Option Nat
  layout : BootSlotLayout
  io : IoRef
  epoch : BitVec 64
  leaseEpoch : BitVec 64
  providerBacked : Bool
  active : Bool

structure StoreRegistration where
  owner : Option Nat
  layout : BootSlotLayout
  io : IoRef
  leaseEpoch : BitVec 64
  active : Bool

/-- `struct boot_slot_store_io`; it exists only when it is ready. -/
structure StoreIo where
  layout : BootSlotLayout
  io : IoRef
  leaseEpoch : BitVec 64
  providerBacked : Bool
  deriving DecidableEq

/-- The file-scope variables of `boot_slot.c` and `boot_slot_store.c`, and the
store objects by address. -/
structure BootStore where
  slots : BootSlots
  binding : StoreBinding
  registration : StoreRegistration
  leaseOwner : Option Nat
  nextEpoch : BitVec 64
  objects : Nat → StoreObject

def clearBinding : StoreBinding := ⟨none, zeroLayout, .external 0, 0#64, 0#64, false, false⟩

structure BootSlotSnapshot where
  version : BitVec 32
  size : BitVec 32
  generation : BitVec 64
  authorityEpoch : BitVec 64
  leaseEpoch : BitVec 64
  manager : BootSlotManager

structure StageAuthorization where
  generation : BitVec 64
  authorityEpoch : BitVec 64
  leaseEpoch : BitVec 64
  slot : BitVec 32

def storeVersionValid (version : Chars bootSlotVersionMax) : Bool :=
  bsStringFits version && (version.toList.drop (strLen version)).all (· == 0#8)

def storeImageValid (image : BootSlotImage) (capacitySectors : BitVec 32) : Bool :=
  storeVersionValid image.version && decide (0#32 < image.payloadSize) &&
    decide (image.payloadSize.toNat ≤ capacitySectors.toNat * bootSlotStoreSectorSize) &&
    bsDigestPresent image.payloadSha256

def storeStringEqual (a b : Chars bootSlotVersionMax) : Bool :=
  decide (strLen a = strLen b ∧ strLen a < bootSlotVersionMax) &&
    a.toList.take (strLen a) == b.toList.take (strLen a)

def storeManagerMatches (m : BootSlotManager) (layout : BootSlotLayout) : Bool :=
  decide (bootSlotManagerValidate m ∧ m.pendingSlot = bootSlotNone ∧ m.activeSlot = m.confirmedSlot ∧
    m.layout = layout)

def storeHeaderFields (layout : BootSlotLayout) (slot : BitVec 32) (image : BootSlotImage) :
    List (Nat × Nat) :=
  [(8, storeMagic.toNat), (4, storeHeaderVersion.toNat), (4, bootSlotStoreSectorSize),
    (4, slot.toNat), (4, layout.bootSectors.toNat),
    (4, (layout.slots (slotIndex slot)).headerLba.toNat),
    (4, (layout.slots (slotIndex slot)).payloadLba.toNat),
    (4, (layout.slots (slotIndex slot)).payloadCapacitySectors.toNat), (4, image.payloadSize.toNat)] ++
  byteFields (bsStrcpy image.version).toList ++ byteFields image.payloadSha256.toList

def storeEncodeHeader (layout : BootSlotLayout) (slot : BitVec 32) (image : BootSlotImage) : Bytes :=
  let body := pack (storeHeaderFields layout slot image)
  store body storeHeaderCrcOffset 4 (crc32 (listBytes body storeHeaderCrcOffset)).toNat

/-- The checks of a header against the layout and its own checksum. -/
def storeHeaderFramed (layout : BootSlotLayout) (slot : BitVec 32) (header : Bytes) : Prop :=
  slot < 2#32 ∧ field64 header 0 = storeMagic ∧ field32 header 8 = storeHeaderVersion ∧
    field32 header 12 = BitVec.ofNat 32 bootSlotStoreSectorSize ∧ field32 header 16 = slot ∧
    field32 header 20 = layout.bootSectors ∧
    field32 header 24 = (layout.slots (slotIndex slot)).headerLba ∧
    field32 header 28 = (layout.slots (slotIndex slot)).payloadLba ∧
    field32 header 32 = (layout.slots (slotIndex slot)).payloadCapacitySectors ∧
    crc32 (listBytes header storeHeaderCrcOffset) = field32 header storeHeaderCrcOffset ∧
    bsBytesZero header 112 storeHeaderCrcOffset = true

instance (layout : BootSlotLayout) (slot : BitVec 32) (header : Bytes) :
    Decidable (storeHeaderFramed layout slot header) := by
  unfold storeHeaderFramed
  infer_instance

def storeDecodeHeader (layout : BootSlotLayout) (slot : BitVec 32) (header : Bytes) :
    Except Int BootSlotImage :=
  if ¬ storeHeaderFramed layout slot header then .error bootSlotStoreErrVerify
  else
    match bsDecodeVersion header 40 with
    | none => .error bootSlotStoreErrVerify
    | some version =>
      let image : BootSlotImage :=
        ⟨version, field32 header 36, charsAt header 80 bootSlotSha256Size⟩
      if strLen version = 0 ∨
          !storeImageValid image (layout.slots (slotIndex slot)).payloadCapacitySectors then
        .error bootSlotStoreErrVerify
      else .ok image

section
variable (st : BootStore)

def storeIoGet (store : Nat) (expectedLeaseEpoch : BitVec 64) : Option StoreIo :=
  let object := st.objects store
  let bsp := st.slots.bsp
  if st.registration.active ∧ st.registration.owner = some store then
    if expectedLeaseEpoch = 0#64 ∨ st.leaseOwner ≠ some store ∨
        object.opaqueEpoch ≠ expectedLeaseEpoch ∨ expectedLeaseEpoch ≠ st.registration.leaseEpoch ∨
        bsp.leaseOwner ≠ some store ∨ bsp.leaseEpoch ≠ object.opaqueEpoch then none
    else some ⟨st.registration.layout, st.registration.io, st.registration.leaseEpoch, true⟩
  else if expectedLeaseEpoch = 0#64 ∧ object.opaqueEpoch = 0#64 ∧ object.testReady then
    some ⟨object.testLayout, object.testIo, 0#64, false⟩
  else none

def storeBindingMatchesIo (io : StoreIo) (owner : Nat) : Bool :=
  st.binding.active && decide (st.binding.owner = some owner ∧ st.binding.layout = io.layout ∧
    st.binding.io = io.io ∧ st.binding.leaseEpoch = io.leaseEpoch ∧
    st.binding.providerBacked = io.providerBacked)

end

section
variable {W : Type} (callbacks : IoRef → BlockIo W)

/-- `store_control_read`, `store_control_write` and `store_control_flush` on the
store's binding. -/
def storeControlIo (binding : StoreBinding) : PersistIo W where
  read copy w := if !binding.active then ((bootSlotStoreErrIo, zeros), w)
    else (callbacks binding.io).read (binding.layout.controlLba copy) w
  write copy record w := if !binding.active then (bootSlotStoreErrIo, w)
    else (callbacks binding.io).write (binding.layout.controlLba copy) record w
  flush w := if !binding.active then (bootSlotStoreErrIo, w) else (callbacks binding.io).flush w

variable (build : Build) (sha256 : List Byte → Chars bootSlotSha256Size)

def bootSlotStoreBindControl (store : Nat) (expectedLeaseEpoch : BitVec 64) (st : BootStore) (w : W) :
    Int × BootStore × W :=
  match storeIoGet st store expectedLeaseEpoch with
  | none => (bootSlotStoreErrBusy, st, w)
  | some io =>
    if st.slots.bsp.configured ∨ st.nextEpoch = 0#64 ∨
        (st.leaseOwner.isSome ∧ st.leaseOwner ≠ some store) then (bootSlotStoreErrBusy, st, w)
    else
      let binding : StoreBinding :=
        ⟨some store, io.layout, io.io, st.nextEpoch, io.leaseEpoch, io.providerBacked, true⟩
      let slots := if st.slots.initialized then st.slots else bootSlotInitLocked st.slots
      let r := bootSlotSetPersistence (storeControlIo callbacks binding) build io.layout slots w
      let st := { st with slots := r.2.1, binding := binding, nextEpoch := st.nextEpoch + 1#64 }
      if r.1 = 0 ∨ r.1 = bootSlotPersistEmpty then
        let slots := { st.slots with
          bsp := { st.slots.bsp with authorityEpoch := binding.epoch }
          phase := if r.1 = 0 then .boundReady else .boundEmpty }
        (r.1, { st with slots := slots }, r.2.2)
      else
        let slots := { st.slots with phase := .boundUnknown }
        (r.1, { st with slots := slots, binding := { binding with active := false } }, r.2.2)

def storeStagePreflight (binding : StoreBinding) (slot : BitVec 32) (image : BootSlotImage)
    (payload : List Byte) : Int :=
  if !binding.active ∨ slot ≥ 2#32 ∨ payload.length ≠ image.payloadSize.toNat ∨
      !storeImageValid image (binding.layout.slots (slotIndex slot)).payloadCapacitySectors then
    bootSlotStoreErrIo
  else if sha256 payload = image.payloadSha256 then 0
  else bootSlotStoreErrVerify

/-- A manager whose inactive slot holds a new image. -/
def staged (m : BootSlotManager) (slot : BitVec 32) (image : BootSlotImage) (state : BootSlotState)
    (next : BitVec 32) : BootSlotManager :=
  { m.setSlot slot (bsSlotApplyImage (m.slot slot) slot image state) with nextSlot := next }

/-- The manager `store_stage_authorize` writes to both copies, if its guards let it. -/
def authorizeCandidate (expected : BootSlotSnapshot) (slot : BitVec 32) (image : BootSlotImage)
    (st : BootStore) : Option BootSlotManager :=
  let bsp := st.slots.bsp
  let bsm := st.slots.bsm
  if !bootSlotPersistenceReady st.slots || expected.version ≠ bootSlotSnapshotVersion ||
      expected.size ≠ bootSlotSnapshotSize || bsp.degraded || expected.generation ≠ bsp.generation ||
      expected.authorityEpoch ≠ bsp.authorityEpoch || expected.authorityEpoch ≠ st.binding.epoch ||
      expected.leaseEpoch ≠ bsp.leaseEpoch || expected.leaseEpoch ≠ st.binding.leaseEpoch ||
      expected.manager ≠ bsm || !st.binding.active || slot ≥ 2#32 || slot = bsm.activeSlot ||
      slot = bsm.confirmedSlot || bsm.pendingSlot ≠ bootSlotNone || bsm.rollbackPending ≠ 0#32 ||
      (bsm.slot slot).state = .active || (bsm.slot slot).state = .rollback ||
      !bsImageValid image (bsm.slot slot).payloadCapacitySectors ||
      bsp.generation > BitVec.allOnes 64 - 3#64 then none
  else some (staged bsm slot image .failed bsm.confirmedSlot)

def storeWriteError (rc : Int) : Int :=
  if rc = bootSlotErrCommitUnknown then bootSlotStoreErrCommitUnknown else bootSlotStoreErrIo

def BootStore.claim (st : BootStore) (claimed : Bool) : BootStore :=
  { st with slots := { st.slots with bsp := { st.slots.bsp with stageClaimed := claimed } } }

def storeStageAuthorize (expected : BootSlotSnapshot) (slot : BitVec 32) (image : BootSlotImage)
    (st : BootStore) (w : W) : Except Int StageAuthorization × BootStore × W :=
  match authorizeCandidate expected slot image st with
  | none => (.error bootSlotStoreErrStale, st, w)
  | some candidate =>
    if st.slots.bsp.stageClaimed then (.error bootSlotStoreErrBusy, st, w)
    else
      let bsp := st.slots.bsp
      let io := storeControlIo callbacks st.binding
      let r1 := bsWriteVerified io bsp.configured candidate (otherCopy bsp.activeCopy)
        (bsp.generation + 1#64) w
      let r2 := if r1.1 = 0 then
          bsWriteVerified io bsp.configured candidate bsp.activeCopy (bsp.generation + 2#64) r1.2
        else r1
      if r2.1 ≠ 0 then
        let st := { st with slots := afterWriteError r2.1 st.slots }
        (.error (storeWriteError r2.1), st.claim false, r2.2)
      else
        let slots := st.slots.adopt candidate bsp.activeCopy (bsp.generation + 2#64)
        (.ok ⟨slots.bsp.generation, slots.bsp.authorityEpoch, slots.bsp.leaseEpoch, slot⟩,
          { st with slots := slots }.claim true, r2.2)

/-- The manager `store_stage_publish` writes, if its guards let it. -/
def publishCandidate (authorization : StageAuthorization) (image : BootSlotImage) (st : BootStore) :
    Option BootSlotManager :=
  let bsp := st.slots.bsp
  let bsm := st.slots.bsm
  let slot := bsm.slot authorization.slot
  if !bsp.stageClaimed || !bootSlotPersistenceReady st.slots || authorization.slot ≥ 2#32 ||
      authorization.generation ≠ bsp.generation || authorization.authorityEpoch ≠ bsp.authorityEpoch ||
      authorization.authorityEpoch ≠ st.binding.epoch || authorization.leaseEpoch ≠ bsp.leaseEpoch ||
      authorization.leaseEpoch ≠ st.binding.leaseEpoch || !st.binding.active ||
      slot.version ≠ image.version || slot.state ≠ .failed || slot.payloadSize ≠ image.payloadSize ||
      slot.payloadSha256 ≠ image.payloadSha256 || bsp.generation = BitVec.allOnes 64 then none
  else some (staged bsm authorization.slot image .valid authorization.slot)

/-- The result comes with the new generation. -/
def storeStagePublish (authorization : StageAuthorization) (image : BootSlotImage) (st : BootStore)
    (w : W) : (Int × BitVec 64) × BootStore × W :=
  match publishCandidate authorization image st with
  | none => ((bootSlotStoreErrStale, 0#64), st.claim false, w)
  | some candidate =>
    let bsp := st.slots.bsp
    let targetCopy := otherCopy bsp.activeCopy
    let generation := bsp.generation + 1#64
    let r := bsWriteVerified (storeControlIo callbacks st.binding) bsp.configured candidate targetCopy
      generation w
    if r.1 ≠ 0 then
      let st := { st with slots := afterWriteError r.1 st.slots }
      ((storeWriteError r.1, 0#64), st.claim false, r.2)
    else ((0, generation), { st with slots := st.slots.adopt candidate targetCopy generation }.claim false,
      r.2)

/-- The bytes of a payload that go into its `i`-th sector, padded with zeros. -/
def payloadSector (payload : List Byte) (i : Nat) : Bytes :=
  fun k => if k < bootSlotStoreSectorSize then payload.getD (bootSlotStoreSectorSize * i + k) 0#8 else 0#8

def payloadSectors (payloadSize : BitVec 32) : BitVec 32 :=
  let sectors := payloadSize / 512#32
  if payloadSize % 512#32 ≠ 0#32 then sectors + 1#32 else sectors

/-- The first loop of `store_stage_payload`, from sector `i` on. -/
def writePayload (io : BlockIo W) (lba : BitVec 32) (payload : List Byte) (i : Nat) :
    Nat → W → Int × W
  | 0, w => (0, w)
  | n + 1, w =>
    let r := io.write (lba + BitVec.ofNat 32 i) (payloadSector payload i) w
    if r.1 ≠ 0 then (bootSlotStoreErrCommitUnknown, r.2)
    else writePayload io lba payload (i + 1) n r.2

/-- The second loop, with the bytes hashed so far. -/
def readPayload (io : BlockIo W) (lba : BitVec 32) (payloadLen i : Nat) (hashed : List Byte) :
    Nat → W → Option (List Byte) × W
  | 0, w => (some hashed, w)
  | n + 1, w =>
    let chunk := min bootSlotStoreSectorSize (payloadLen - bootSlotStoreSectorSize * i)
    let r := io.read (lba + BitVec.ofNat 32 i) w
    if r.1.1 ≠ 0 ∨ bsBytesZero r.1.2 chunk bootSlotStoreSectorSize = false then (none, r.2)
    else readPayload io lba payloadLen (i + 1) (hashed ++ listBytes r.1.2 chunk) n r.2

/-- The end of `store_stage_payload`: the header is written and read back. -/
def writeHeader (io : BlockIo W) (layout : BootSlotLayout) (slot : BitVec 32) (image : BootSlotImage)
    (w : W) : Int × W :=
  let lba := (layout.slots (slotIndex slot)).headerLba
  let written := io.write lba (storeEncodeHeader layout slot image) w
  if written.1 ≠ 0 then (bootSlotStoreErrCommitUnknown, written.2)
  else
    let flushed := io.flush written.2
    if flushed.1 ≠ 0 then (bootSlotStoreErrCommitUnknown, flushed.2)
    else
      let back := io.read lba flushed.2
      if back.1.1 ≠ 0 then (bootSlotStoreErrCommitUnknown, back.2)
      else
        match storeDecodeHeader layout slot back.1.2 with
        | .error _ => (bootSlotStoreErrCommitUnknown, back.2)
        | .ok decoded =>
          if decoded.payloadSize ≠ image.payloadSize ∨
              !storeStringEqual decoded.version image.version ∨
              decoded.payloadSha256 ≠ image.payloadSha256 then (bootSlotStoreErrCommitUnknown, back.2)
          else (0, back.2)

def storeStagePayload (binding : StoreBinding) (manager : BootSlotManager) (slot : BitVec 32)
    (image : BootSlotImage) (payload : List Byte) (w : W) : Int × W :=
  let region := binding.layout.slots (slotIndex slot)
  let io := callbacks binding.io
  if !binding.active ∨ slot ≥ 2#32 ∨ slot = manager.activeSlot ∨ slot = manager.confirmedSlot ∨
      ((manager.slot slot).state ≠ .empty ∧ (manager.slot slot).state ≠ .failed) ∨
      manager.pendingSlot ≠ bootSlotNone ∨ !storeManagerMatches manager binding.layout ∨
      payload.length ≠ image.payloadSize.toNat ∨ !storeImageValid image region.payloadCapacitySectors then
    (bootSlotStoreErrIo, w)
  else if sha256 payload ≠ image.payloadSha256 then (bootSlotStoreErrVerify, w)
  else
    let sectors := payloadSectors image.payloadSize
    if sectors = 0#32 ∨ sectors > region.payloadCapacitySectors then (bootSlotStoreErrIo, w)
    else
      let written := writePayload io region.payloadLba payload 0 sectors.toNat w
      if written.1 ≠ 0 then (written.1, written.2)
      else
        let flushed := io.flush written.2
        if flushed.1 ≠ 0 then (bootSlotStoreErrCommitUnknown, flushed.2)
        else
          let r := readPayload io region.payloadLba payload.length 0 [] sectors.toNat flushed.2
          match r.1 with
          | none => (bootSlotStoreErrVerify, r.2)
          | some hashed =>
            if sha256 hashed ≠ image.payloadSha256 then (bootSlotStoreErrVerify, r.2)
            else writeHeader io binding.layout slot image r.2

/-- The result comes with the new generation. -/
def bootSlotStoreStageInactiveAuthorized (store : Nat) (expectedLeaseEpoch : BitVec 64)
    (expected : BootSlotSnapshot) (slot : BitVec 32) (image : BootSlotImage) (payload : List Byte)
    (st : BootStore) (w : W) : (Int × BitVec 64) × BootStore × W :=
  let refuse (rc : Int) (st : BootStore) (w : W) := ((rc, 0#64), st.claim false, w)
  match storeIoGet st store expectedLeaseEpoch with
  | none => refuse bootSlotStoreErrStale st w
  | some io =>
    if !storeBindingMatchesIo st io store ∨ expected.authorityEpoch ≠ st.binding.epoch ∨
        expected.leaseEpoch ≠ expectedLeaseEpoch then refuse bootSlotStoreErrStale st w
    else
      let rc := storeStagePreflight sha256 st.binding slot image payload
      if rc ≠ 0 then refuse rc st w
      else
        match storeStageAuthorize callbacks expected slot image st w with
        | (.error rc, st, w) => refuse rc st w
        | (.ok authorization, st, w) =>
          let r := storeStagePayload callbacks sha256 st.binding st.slots.bsm slot image payload w
          if r.1 ≠ 0 then refuse r.1 st r.2
          else
            let p := storeStagePublish callbacks authorization image st r.2
            if p.1.1 ≠ 0 then refuse p.1.1 p.2.1 p.2.2 else p

end

/-- The sectors of a BOOT partition that never fails, and the writes to it. -/
structure Medium where
  disk : BitVec 32 → Bytes
  log : List (BitVec 32 × Bytes)

def mediumIo : BlockIo Medium where
  read lba w := ((0, w.disk lba), w)
  write lba b w := (0, ⟨Function.update w.disk lba b, w.log ++ [(lba, b)]⟩)
  flush w := (0, w)

/-- The functions a run is made of. `authorize` and `publish` are the two ends of
`stage`. -/
inductive SlotOp where
  | bind (store : Nat) (lease : BitVec 64)
  | initializePersistent (layout : BootSlotLayout) (image : BootSlotImage)
  | arm (slot : BitVec 32) (generation : BitVec 64)
  | activate (slot : BitVec 32)
  | select
  | confirm (slot : BitVec 32) (generation authority lease : BitVec 64)
  | rollback
  | authorize (expected : BootSlotSnapshot) (slot : BitVec 32) (image : BootSlotImage)
  | publish (authorization : StageAuthorization) (image : BootSlotImage)
  | stage (store : Nat) (lease : BitVec 64) (expected : BootSlotSnapshot) (slot : BitVec 32)
      (image : BootSlotImage) (payload : List Byte)

/-- A result code, with the slot that `boot_slot_internal_select_locked` returns. -/
structure SlotResult where
  rc : Int
  slot : BitVec 32 := bootSlotNone

/-- What is in memory and what is on the disk. -/
structure SlotSession where
  st : BootStore
  disk : BitVec 32 → Bytes

section
variable (build : Build) (sha256 : List Byte → Chars bootSlotSha256Size)

/-- Run one function of the slot layer on the bound control copies. -/
def onSlots (f : PersistIo Medium → BootSlots → Medium → Int × BootSlots × Medium) (st : BootStore)
    (w : Medium) : SlotResult × BootStore × Medium :=
  let r := f (storeControlIo (fun _ => mediumIo) st.binding) st.slots w
  ({ rc := r.1 }, { st with slots := r.2.1 }, r.2.2)

def SlotOp.exec (st : BootStore) (w : Medium) : SlotOp → SlotResult × BootStore × Medium
  | .bind store lease =>
    let r := bootSlotStoreBindControl (fun _ => mediumIo) build store lease st w
    ({ rc := r.1 }, r.2)
  | .initializePersistent layout image =>
    onSlots (fun io => bootSlotInitializePersistent io build layout image) st w
  | .arm slot generation =>
    let r := bootSlotArmProvider (storeControlIo (fun _ => mediumIo) st.binding) slot generation st.slots w
    ({ rc := r.1.1 }, { st with slots := r.2.1 }, r.2.2)
  | .activate slot => onSlots (fun io => bootSlotActivate io build slot) st w
  | .select =>
    let r := bootSlotSelect (storeControlIo (fun _ => mediumIo) st.binding) st.slots w
    (⟨r.1.1, r.1.2.1⟩, { st with slots := r.2.1 }, r.2.2)
  | .confirm slot generation authority lease =>
    onSlots (fun io => bootSlotConfirmVerified io slot generation authority lease) st w
  | .rollback => onSlots (fun io => bootSlotRollback io build) st w
  | .authorize expected slot image =>
    let r := storeStageAuthorize (fun _ => mediumIo) expected slot image st w
    ({ rc := match r.1 with | .ok _ => 0 | .error rc => rc }, r.2)
  | .publish authorization image =>
    let r := storeStagePublish (fun _ => mediumIo) authorization image st w
    ({ rc := r.1.1 }, r.2)
  | .stage store lease expected slot image payload =>
    let r := bootSlotStoreStageInactiveAuthorized (fun _ => mediumIo) sha256 store lease expected slot
      image payload st w
    ({ rc := r.1.1 }, r.2)

/-- `select` returns 0, 1 or 2, the other functions 0. -/
def SlotOp.succeeded : SlotOp → SlotResult → Bool
  | .select, r => decide (0 ≤ r.rc)
  | _, r => decide (r.rc = 0)

namespace SlotOp
variable (x : SlotOp) (s : SlotSession)

def outcome : SlotResult × BootStore × Medium := x.exec build sha256 s.st ⟨s.disk, []⟩

def result : SlotResult := (x.outcome build sha256 s).1

def writes : List (BitVec 32 × Bytes) := (x.outcome build sha256 s).2.2.log

def after : SlotSession := ⟨(x.outcome build sha256 s).2.1, (x.outcome build sha256 s).2.2.disk⟩

/-- The disk if power is lost after the first `k` writes. -/
def crashDisk (k : Nat) : BitVec 32 → Bytes := applyWrites s.disk ((x.writes build sha256 s).take k)

end SlotOp

/-- The managers a function writes to the control copies, if nothing stops it. -/
def SlotOp.candidates (st : BootStore) : SlotOp → List BootSlotManager
  | .bind _ _ => []
  | .initializePersistent layout image => (initializeCandidate build layout image st.slots).toList
  | .arm slot generation => (armCandidate slot generation st.slots).toList
  | .activate slot => (activateCandidate build slot st.slots).toList
  | .select =>
    if !bootSlotPersistenceReady st.slots || st.slots.bsm.pendingSlot = bootSlotNone then []
    else (selectCandidate st.slots.bsm).toList.map Prod.fst
  | .confirm slot generation authority lease =>
    (confirmCandidate slot generation authority lease st.slots).toList
  | .rollback => (rollbackCandidate build st.slots).toList
  | .authorize expected slot image => (authorizeCandidate expected slot image st).toList
  | .publish authorization image => (publishCandidate authorization image st).toList
  | .stage _ _ expected slot image _ =>
    (authorizeCandidate expected slot image st).toList.flatMap fun m => [m, staged m slot image .valid slot]

/-- The functions that write as soon as their guards let them. -/
def SlotOp.commits : SlotOp → Bool
  | .bind _ _ | .publish _ _ | .stage _ _ _ _ _ _ => false
  | _ => true

/-- Memory after power-on, with the store opened again but not bound. -/
structure PoweredOn (layout : BootSlotLayout) (st : BootStore) : Prop where
  configured : st.slots.bsp.configured = false
  claimed : st.slots.bsp.stageClaimed = false
  registered : st.registration.layout = layout
  objects : ∀ a, (st.objects a).testLayout = layout

/-- A function that returned, or one that lost power after so many writes. -/
inductive SlotEvent where
  | done (x : SlotOp) (r : SlotResult)
  | crashed (x : SlotOp) (k : Nat)

namespace SlotEvent

def op : SlotEvent → SlotOp
  | .done x _ => x
  | .crashed x _ => x

/-- Whether a record may have reached the disk. -/
def landed : SlotEvent → Bool
  | .done x r => x.succeeded r
  | .crashed _ k => decide (0 < k)

/-- An `arm` or `activate` that took effect. -/
def arms (e : SlotEvent) : Bool :=
  e.landed && match e.op with
    | .arm _ _ | .activate _ => true
    | _ => false

def confirms (e : SlotEvent) : Bool :=
  e.landed && match e.op with
    | .confirm _ _ _ _ => true
    | _ => false

/-- A staging of this slot that took effect, or one of its two halves. -/
def stages (e : SlotEvent) (slot : BitVec 32) : Bool :=
  e.landed && match e.op with
    | .authorize _ i _ | .stage _ _ _ i _ _ => i == slot
    | .publish authorization _ => authorization.slot == slot
    | _ => false

/-- A `select` that returned the pending slot. -/
def tries : SlotEvent → Bool
  | .done .select r => decide (r.rc = 1)
  | _ => false

end SlotEvent

/-- The runs from a first state, with what happened in them, oldest first. -/
inductive SlotTrace (layout : BootSlotLayout) (s0 : SlotSession) (ok : SlotSession → SlotOp → Prop) :
    List SlotEvent → SlotSession → Prop
  | start : SlotTrace layout s0 ok [] s0
  | done {es : List SlotEvent} {s : SlotSession} {x : SlotOp} :
      SlotTrace layout s0 ok es s → ok s x →
      SlotTrace layout s0 ok (es ++ [.done x (x.result build sha256 s)]) (x.after build sha256 s)
  | crashed {es : List SlotEvent} {s : SlotSession} {x : SlotOp} {k : Nat} {st : BootStore} :
      SlotTrace layout s0 ok es s → ok s x → k ≤ (x.writes build sha256 s).length →
      PoweredOn layout st →
      SlotTrace layout s0 ok (es ++ [.crashed x k]) ⟨st, x.crashDisk build sha256 s k⟩

/-- A partition whose control copies were never written. -/
def ControlErased (layout : BootSlotLayout) (disk : BitVec 32 → Bytes) : Prop :=
  ∀ c, bsRecordErased (disk (layout.controlLba c)) = true

/-- The state before the first function of a run. -/
structure Unwritten (layout : BootSlotLayout) (s : SlotSession) : Prop where
  plan : bootSlotLayoutPlan layout.bootSectors = some layout
  memory : PoweredOn layout s.st
  erased : ControlErased layout s.disk

end

/-- The control copies of a partition, as `boot_slot_set_persistence` sees them. -/
def controlIo (layout : BootSlotLayout) : PersistIo (BitVec 32 → Bytes) where
  read copy disk := ((0, disk (layout.controlLba copy)), disk)
  write copy record disk := (0, Function.update disk (layout.controlLba copy) record)
  flush disk := (0, disk)

/-- What a bind from any memory finds on a disk. -/
def Durable (build : Build) (layout : BootSlotLayout) (disk : BitVec 32 → Bytes) (m : BootSlotManager) : Prop :=
  ∀ slots : BootSlots, slots.bsp.stageClaimed = false → bootSlotBindAllowed build slots = true →
    let r := bootSlotSetPersistence (controlIo layout) build layout slots disk
    r.1 = 0 ∧ r.2.1.bsm = m

end CapyOS
