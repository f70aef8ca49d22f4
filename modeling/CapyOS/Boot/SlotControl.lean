import CapyOS.Boot.Slot

namespace CapyOS
open Lib

/-- Which of the sources' conditional builds is looked at. -/
inductive Build where
  | kernel | loader | unitTest
  deriving DecidableEq, Repr

inductive BootSlotPhase where
  | uninitialized | ramTest | leasedUnbound | boundEmpty | boundReady | boundUnknown | closed
  deriving DecidableEq, Repr

/-- The callbacks for the two control copies, over whatever they act on. A result
of 0 is success. -/
structure PersistIo (W : Type) where
  read : Fin 2 → W → (Int × Bytes) × W
  write : Fin 2 → Bytes → W → Int × W
  flush : W → Int × W

/-- `bsp`, but for its callbacks. The lease's owner is the address of a store. -/
structure BootSlotPersistence where
  generation : BitVec 64
  authorityEpoch : BitVec 64
  leaseEpoch : BitVec 64
  leaseOwner : Option Nat
  activeCopy : Fin 2
  configured : Bool
  ready : Bool
  blank : Bool
  degraded : Bool
  stageClaimed : Bool
  layout : BootSlotLayout

/-- The file-scope variables of `boot_slot.c`. -/
structure BootSlots where
  bsm : BootSlotManager
  initialized : Bool
  bsp : BootSlotPersistence
  phase : BootSlotPhase

def zeroLayout : BootSlotLayout := ⟨0#32, fun _ => ⟨0#32, 0#32, 0#32⟩, fun _ => 0#32⟩

def clearPersistence : BootSlotPersistence where
  generation := 0#64
  authorityEpoch := 0#64
  leaseEpoch := 0#64
  leaseOwner := none
  activeCopy := 0
  configured := false
  ready := false
  blank := false
  degraded := false
  stageClaimed := false
  layout := zeroLayout

section
variable (build : Build) (s : BootSlots)

def bootSlotTransitionReady : Bool :=
  if s.phase = .boundReady then s.initialized && s.bsp.configured && s.bsp.ready
  else build = .unitTest && s.phase = .ramTest && s.initialized && s.bsp.leaseOwner.isNone &&
    !s.bsp.configured

def bootSlotBindAllowed : Bool :=
  match build with
  | .kernel => s.bsp.leaseOwner.isSome && s.phase ≠ .uninitialized && s.phase ≠ .ramTest &&
      s.phase ≠ .closed
  | _ => s.phase ≠ .uninitialized && s.phase ≠ .closed

def bootSlotPersistenceReady : Bool :=
  s.phase = .boundReady && s.initialized && s.bsp.configured && s.bsp.ready

end

def bootSlotInitLocked (s : BootSlots) : BootSlots :=
  if s.bsp.stageClaimed then s
  else { bsm := bsManagerDefaults
         initialized := true
         bsp := clearPersistence
         phase := if s.phase = .uninitialized then .ramTest else s.phase }

/-- The other of the two copies. -/
def otherCopy (copy : Fin 2) : Fin 2 := 1 - copy

variable {W : Type} (io : PersistIo W)

/-- Write a record to a copy and read it back. -/
def bsWriteVerified (configured : Bool) (manager : BootSlotManager) (copy : Fin 2)
    (generation : BitVec 64) (w : W) : Int × W :=
  if !configured then (bootSlotErrIo, w)
  else if ¬ bootSlotManagerValidate manager then (bootSlotErrIo, w)
  else
    let record := bsRecordEncode manager generation
    let written := io.write copy record w
    if written.1 ≠ 0 then (bootSlotErrCommitUnknown, written.2)
    else
      let flushed := io.flush written.2
      if flushed.1 ≠ 0 then (bootSlotErrCommitUnknown, flushed.2)
      else
        let back := io.read copy flushed.2
        if back.1.1 ≠ 0 ∨ bsBytesEqual record back.1.2 bootSlotPersistRecordSize = false ∨
            (bsRecordDecode back.1.2).map Prod.snd ≠ some generation then
          (bootSlotErrCommitUnknown, back.2)
        else (0, back.2)

/-- What a failed write leaves of the bound state. -/
def afterWriteError (rc : Int) (s : BootSlots) : BootSlots :=
  if rc = bootSlotErrCommitUnknown then
    { s with bsp := { s.bsp with ready := false }, phase := .boundUnknown }
  else s

/-- The bound state after a verified write of a manager to a copy. -/
def BootSlots.adopt (s : BootSlots) (manager : BootSlotManager) (copy : Fin 2) (generation : BitVec 64) :
    BootSlots :=
  { s with bsm := manager, bsp := { s.bsp with activeCopy := copy, generation := generation } }

def bsCommitLocked (candidate : BootSlotManager) (s : BootSlots) (w : W) : Int × BootSlots × W :=
  if !s.initialized || (s.bsp.configured && s.bsp.stageClaimed) then (bootSlotErrBusy, s, w)
  else if !s.bsp.configured then (0, { s with bsm := candidate }, w)
  else if !s.bsp.ready || s.bsp.generation = BitVec.allOnes 64 then (bootSlotErrIo, s, w)
  else
    let targetCopy := otherCopy s.bsp.activeCopy
    let generation := s.bsp.generation + 1#64
    let r := bsWriteVerified io s.bsp.configured candidate targetCopy generation w
    if r.1 = 0 then
      let t := s.adopt candidate targetCopy generation
      (0, { t with bsp := { t.bsp with degraded := false } }, r.2)
    else (r.1, afterWriteError r.1 s, r.2)

/-- What `boot_slot_internal_set_persistence_locked` makes of one copy: whether
it counts as never written, its bytes, and its manager if it is usable. -/
structure CopyRead where
  empty : Bool
  record : Bytes
  manager : Option (BootSlotManager × BitVec 64)

/-- Read one copy; `none` is a read error. -/
def readCopy (layout : BootSlotLayout) (copy : Fin 2) (w : W) : Option CopyRead × W :=
  let r := io.read copy w
  if r.1.1 ≠ 0 ∧ r.1.1 ≠ bootSlotPersistEmpty then (none, r.2)
  else
    let empty := r.1.1 = bootSlotPersistEmpty ∨ bsRecordErased r.1.2
    let manager := if empty then none
      else (bsRecordDecode r.1.2).filter fun d => bsManagerMatchesLayout d.1 layout
    (some ⟨empty, r.1.2, manager⟩, r.2)

/-- The copy to go by, with its manager and generation. -/
def chooseCopy (c0 c1 : CopyRead) : Except Int (Option (Fin 2 × BootSlotManager × BitVec 64)) :=
  match c0.manager, c1.manager with
  | some (m0, g0), some (m1, g1) =>
    if g0 = g1 then
      if bsBytesEqual c0.record c1.record bootSlotPersistRecordSize then .ok (some (0, m0, g0))
      else .error bootSlotErrIo
    else if g1 > g0 then .ok (some (1, m1, g1))
    else .ok (some (0, m0, g0))
  | none, some (m1, g1) => .ok (some (1, m1, g1))
  | some (m0, g0), none => .ok (some (0, m0, g0))
  | none, none => .ok none

variable (build : Build)

/-- A failed read leaves the callbacks bound and nothing ready. -/
def bootSlotSetPersistence (layout : BootSlotLayout) (s : BootSlots) (w : W) : Int × BootSlots × W :=
  if s.bsp.stageClaimed then (bootSlotErrBusy, s, w)
  else if !bootSlotBindAllowed build s || bootSlotLayoutPlan layout.bootSectors ≠ some layout then
    (bootSlotErrIo, s, w)
  else
    let s : BootSlots := { s with
      bsm := bsManagerDefaults
      bsp := { s.bsp with
        generation := 0#64, activeCopy := 0, configured := true, ready := false, blank := false
        degraded := false, stageClaimed := false, authorityEpoch := 0#64, layout := layout }
      phase := .boundUnknown }
    let r0 := readCopy io layout 0 w
    match r0.1 with
    | none => (bootSlotErrIo, s, r0.2)
    | some c0 =>
      let r1 := readCopy io layout 1 r0.2
      match r1.1 with
      | none => (bootSlotErrIo, s, r1.2)
      | some c1 =>
        match chooseCopy c0 c1 with
        | .error rc => (rc, s, r1.2)
        | .ok (some (copy, m, g)) =>
          let both := c0.manager.isSome && c1.manager.isSome
          if m.pendingSlot ≠ bootSlotNone ∧ !both then (bootSlotErrIo, s, r1.2)
          else
            let t := s.adopt m copy g
            (0, { t with bsp := { t.bsp with degraded := !both, ready := true }, phase := .boundReady },
              r1.2)
        | .ok none =>
          if c0.empty && c1.empty then
            (bootSlotPersistEmpty, { s with bsp := { s.bsp with blank := true }, phase := .boundEmpty },
              r1.2)
          else (bootSlotErrIo, s, r1.2)

def emptySlot (layout : BootSlotLayout) (i : Fin 2) : BootSlot :=
  { clearSlot (slotName i) with
    headerLba := (layout.slots i).headerLba
    payloadLba := (layout.slots i).payloadLba
    payloadCapacitySectors := (layout.slots i).payloadCapacitySectors }

/-- A slot whose image has booted once. -/
def installedSlot (slot : BootSlot) (image : BootSlotImage) : BootSlot :=
  { bsSlotApplyImage slot 0#32 image .active with
    bootCount := 1#32, successCount := 1#32, healthConfirmed := 1#32 }

/-- The manager of a new store: slot A boots the given image, slot B is empty. -/
def initialManager (layout : BootSlotLayout) (image : BootSlotImage) : BootSlotManager :=
  let m : BootSlotManager := { bsManagerDefaults with
    bootSectors := layout.bootSectors, controlLba := layout.controlLba, slots := emptySlot layout }
  m.setSlot 0#32 (installedSlot (emptySlot layout 0) image)

/-- The manager `boot_slot_internal_initialize_persistent_locked` writes, if its
guards let it. -/
def initializeCandidate (layout : BootSlotLayout) (image : BootSlotImage) (s : BootSlots) :
    Option BootSlotManager :=
  if !bootSlotBindAllowed build s || !s.initialized || !s.bsp.configured || s.bsp.ready ||
      !s.bsp.blank || bootSlotLayoutPlan layout.bootSectors ≠ some layout || layout ≠ s.bsp.layout ||
      !bsImageValid image (layout.slots 0).payloadCapacitySectors then none
  else some (initialManager layout image)

def bootSlotInitializePersistent (layout : BootSlotLayout) (image : BootSlotImage) (s : BootSlots)
    (w : W) : Int × BootSlots × W :=
  match initializeCandidate build layout image s with
  | none => (bootSlotErrIo, s, w)
  | some candidate =>
    let r := bsWriteVerified io s.bsp.configured candidate 0 1#64 w
    if r.1 ≠ 0 then
      let blank := s.bsp.blank && r.1 ≠ bootSlotErrCommitUnknown
      (r.1, { s with bsp := { s.bsp with blank := blank }, phase := .boundUnknown }, r.2)
    else
      let s := { s with bsp := { s.bsp with blank := false } }
      let r := bsWriteVerified io s.bsp.configured candidate 1 2#64 r.2
      if r.1 ≠ 0 then (r.1, { s with phase := .boundUnknown }, r.2)
      else
        let t := s.adopt candidate 1 2#64
        (0, { t with bsp := { t.bsp with degraded := false, ready := true }, phase := .boundReady }, r.2)

namespace BootSlot
variable (s : BootSlot)

/-- Kept for the way back. -/
def kept : BootSlot := { s with state := .rollback }

/-- Active, and not known to be healthy. -/
def tried : BootSlot := { s with state := .active, healthConfirmed := 0#32 }

/-- Active again after the other slot has failed. -/
def restored : BootSlot := { s with state := .active, healthConfirmed := 1#32 }

def rejected : BootSlot :=
  { s with state := .failed, healthConfirmed := 0#32, failCount := s.failCount + 1#32 }

/-- Booted once more. -/
def booted : BootSlot := { s with bootCount := s.bootCount + 1#32 }

/-- Booted with success. -/
def passed : BootSlot := { s with healthConfirmed := 1#32, successCount := s.successCount + 1#32 }

/-- No longer needed for the way back. -/
def retired : BootSlot := { s with state := .valid }

end BootSlot

/-- A slot on trial: the other one is kept for the way back. -/
def armed (m : BootSlotManager) (slot : BitVec 32) : BootSlotManager :=
  let m := m.setSlot m.confirmedSlot (m.slot m.confirmedSlot).kept
  let m := m.setSlot slot (m.slot slot).tried
  { m with
    activeSlot := slot, nextSlot := slot, rollbackPending := 1#32, pendingSlot := slot
    triesRemaining := bootSlotDefaultTries }

def armCandidate (slot : BitVec 32) (expectedGeneration : BitVec 64) (s : BootSlots) :
    Option BootSlotManager :=
  if !bootSlotPersistenceReady s || slot ≥ 2#32 || expectedGeneration ≠ s.bsp.generation ||
      s.bsm.pendingSlot ≠ bootSlotNone || slot = s.bsm.confirmedSlot ||
      (s.bsm.slot slot).state ≠ .valid || (s.bsm.slot s.bsm.confirmedSlot).state ≠ .active ||
      (s.bsm.slot s.bsm.confirmedSlot).healthConfirmed = 0#32 then none
  else some (armed s.bsm slot)

/-- The result comes with the new generation. -/
def bootSlotArmProvider (slot : BitVec 32) (expectedGeneration : BitVec 64) (s : BootSlots) (w : W) :
    (Int × BitVec 64) × BootSlots × W :=
  match armCandidate slot expectedGeneration s with
  | none => ((bootSlotErrIo, 0#64), s, w)
  | some candidate =>
    let r := bsCommitLocked io candidate s w
    if r.1 ≠ 0 then ((if r.2.1.bsp.ready then bootSlotErrIo else bootSlotErrCommitUnknown, 0#64), r.2)
    else ((0, r.2.1.bsp.generation), r.2)

/-- `boot_slot_internal_activate_locked` without a store: the transition of the
unit tests' RAM-only manager. -/
def ramActivateCandidate (slot : BitVec 32) (m : BootSlotManager) : Option BootSlotManager :=
  let trial (m : BootSlotManager) (previous : BitVec 32) : BootSlotManager :=
    let m := m.setSlot previous { (m.slot previous).kept with healthConfirmed := 1#32 }
    let m := m.setSlot slot (m.slot slot).tried.booted
    { m with
      activeSlot := slot, nextSlot := slot, pendingSlot := slot, triesRemaining := 0#32
      rollbackPending := 1#32 }
  if m.rollbackPending ≠ 0#32 then none
  else if m.activeSlot ≠ slot then
    let previous := m.slot m.activeSlot
    if previous.state ≠ .active ∨ getElem previous.version 0 version_pos = 0#8 ∨ previous.healthConfirmed = 0#32 then none
    else some (trial { m with confirmedSlot := m.activeSlot } m.activeSlot)
  else
    let fallback := slot ^^^ 1#32
    if (m.slot fallback).state = .valid ∧ getElem (m.slot fallback).version 0 version_pos ≠ 0#8 then
      some (trial { m with confirmedSlot := fallback } fallback)
    else
      let m := m.setSlot slot (m.slot slot).restored.booted
      some { m with
        confirmedSlot := slot, pendingSlot := bootSlotNone, triesRemaining := 0#32
        activeSlot := slot, nextSlot := slot, rollbackPending := 0#32 }

def activateCandidate (slot : BitVec 32) (s : BootSlots) : Option BootSlotManager :=
  if !bootSlotTransitionReady build s || slot ≥ 2#32 then none
  else if (s.bsm.slot slot).state ≠ .valid ∧ (s.bsm.slot slot).state ≠ .active then none
  else if s.bsp.configured then
    if !bootSlotPersistenceReady s || s.bsm.pendingSlot ≠ bootSlotNone || slot = s.bsm.confirmedSlot ||
        (s.bsm.slot s.bsm.confirmedSlot).state ≠ .active ||
        (s.bsm.slot s.bsm.confirmedSlot).healthConfirmed = 0#32 then none
    else some (armed s.bsm slot)
  else ramActivateCandidate slot s.bsm

def bootSlotActivate (slot : BitVec 32) (s : BootSlots) (w : W) : Int × BootSlots × W :=
  match activateCandidate build slot s with
  | none => (bootSlotErrIo, s, w)
  | some candidate => bsCommitLocked io candidate s w

/-- The way back: the pending slot has failed and the confirmed one boots again. -/
def rolledBack (m : BootSlotManager) : BootSlotManager :=
  let m' := m.setSlot m.pendingSlot (m.slot m.pendingSlot).rejected
  let m' := m'.setSlot m.confirmedSlot (m'.slot m.confirmedSlot).restored
  { m' with
    activeSlot := m.confirmedSlot, nextSlot := m.confirmedSlot, rollbackPending := 0#32
    pendingSlot := bootSlotNone, triesRemaining := 0#32 }

def bsApplyRollback (m : BootSlotManager) : Option BootSlotManager :=
  if m.pendingSlot = bootSlotNone ∨ m.pendingSlot ≥ 2#32 ∨ m.confirmedSlot ≥ 2#32 then none
  else some (rolledBack m)

/-- The pending slot with its attempt spent. -/
def spent (m : BootSlotManager) : BootSlotManager :=
  let m' := { m with triesRemaining := m.triesRemaining - 1#32 }
  m'.setSlot m.pendingSlot (m.slot m.pendingSlot).booted

/-- What `boot_slot_internal_select_locked` commits, the slot it then returns
and its result. -/
def selectCandidate (m : BootSlotManager) : Option (BootSlotManager × BitVec 32 × Int) :=
  if m.triesRemaining > 0#32 then some (spent m, m.pendingSlot, 1)
  else (bsApplyRollback m).map fun c => (c, m.confirmedSlot, 2)

/-- The result comes with the slot and the generation. -/
def bootSlotSelect (s : BootSlots) (w : W) : (Int × BitVec 32 × BitVec 64) × BootSlots × W :=
  if !bootSlotPersistenceReady s then ((bootSlotErrIo, bootSlotNone, 0#64), s, w)
  else if s.bsm.pendingSlot = bootSlotNone then ((0, s.bsm.confirmedSlot, s.bsp.generation), s, w)
  else
    match selectCandidate s.bsm with
    | none => ((bootSlotErrIo, bootSlotNone, 0#64), s, w)
    | some (candidate, slot, result) =>
      let r := bsCommitLocked io candidate s w
      if r.1 ≠ 0 then ((r.1, bootSlotNone, 0#64), r.2)
      else ((result, slot, r.2.1.bsp.generation), r.2)

/-- The slot on trial becomes the confirmed one. -/
def confirmed (m : BootSlotManager) (slot : BitVec 32) : BootSlotManager :=
  let previous := m.confirmedSlot
  let m := m.setSlot slot (m.slot slot).passed
  let m := if (m.slot previous).state = .rollback then m.setSlot previous (m.slot previous).retired else m
  { m with
    confirmedSlot := slot, pendingSlot := bootSlotNone, triesRemaining := 0#32, activeSlot := slot
    nextSlot := slot, rollbackPending := 0#32 }

def confirmCandidate (slot : BitVec 32) (generation authorityEpoch leaseEpoch : BitVec 64)
    (s : BootSlots) : Option BootSlotManager :=
  if !bootSlotPersistenceReady s || slot ≥ 2#32 || s.bsm.pendingSlot ≠ slot ||
      s.bsm.activeSlot ≠ slot || generation ≠ s.bsp.generation ||
      authorityEpoch ≠ s.bsp.authorityEpoch || leaseEpoch ≠ s.bsp.leaseEpoch ||
      s.bsm.triesRemaining ≠ 0#32 then none
  else some (confirmed s.bsm slot)

def bootSlotConfirmVerified (slot : BitVec 32) (generation authorityEpoch leaseEpoch : BitVec 64)
    (s : BootSlots) (w : W) : Int × BootSlots × W :=
  match confirmCandidate slot generation authorityEpoch leaseEpoch s with
  | none => (bootSlotErrIo, s, w)
  | some candidate => bsCommitLocked io candidate s w

/-- `boot_slot_internal_rollback_locked` without a store. -/
def ramRollbackCandidate (m : BootSlotManager) : Option BootSlotManager :=
  let other := m.activeSlot ^^^ 1#32
  if (m.slot other).state ≠ .rollback ∧ (m.slot other).state ≠ .valid then none
  else
    let m := m.setSlot m.activeSlot (m.slot m.activeSlot).rejected
    let m := m.setSlot other (m.slot other).restored
    some { m with
      activeSlot := other, nextSlot := other, confirmedSlot := other, pendingSlot := bootSlotNone
      triesRemaining := 0#32, rollbackPending := 0#32 }

def rollbackCandidate (s : BootSlots) : Option BootSlotManager :=
  if !bootSlotTransitionReady build s || s.bsm.rollbackPending = 0#32 then none
  else if s.bsp.configured then
    if !bootSlotPersistenceReady s then none else bsApplyRollback s.bsm
  else ramRollbackCandidate s.bsm

def bootSlotRollback (s : BootSlots) (w : W) : Int × BootSlots × W :=
  match rollbackCandidate build s with
  | none => (bootSlotErrIo, s, w)
  | some candidate => bsCommitLocked io candidate s w

end CapyOS
