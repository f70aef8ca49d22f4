import CapyOS.Proofs.SlotCodec
import CapyOS.Lib.Mirror

namespace CapyOS.Proofs
open Lib Function BitVec
variable {disk' : BitVec 32 → Bytes} {state : BootSlotState} {next : BitVec 32} {i j : BitVec 32}
variable {image : BootSlotImage} {i : BitVec 32}

theorem slot_cases (h : i < 2#32) : i = 0#32 ∨ i = 1#32 := by bv_omega

theorem slotIndex_ne (hi : i < 2#32) (hj : j < 2#32) (h : i ≠ j) : slotIndex i ≠ slotIndex j := by
  rcases slot_cases hi with rfl | rfl <;> rcases slot_cases hj with rfl | rfl
  · exact absurd rfl h
  · decide
  · decide
  · exact absurd rfl h

/-- Slot numbers that differ are each other's other slot. -/
theorem other_slot (hi : i < 2#32) (hj : j < 2#32) (h : i ≠ j) : i ^^^ 1#32 = j := by
  rcases slot_cases hi with rfl | rfl <;> rcases slot_cases hj with rfl | rfl
  · exact absurd rfl h
  · decide
  · decide
  · exact absurd rfl h

theorem other_ne (hi : i < 2#32) : i ^^^ 1#32 < 2#32 ∧ i ^^^ 1#32 ≠ i := by
  rcases slot_cases hi with rfl | rfl <;> decide

theorem below_none (hi : i < 2#32) : i ≠ bootSlotNone := by
  rcases slot_cases hi with rfl | rfl <;> decide

section
variable (m : BootSlotManager) (i : BitVec 32) (x : BootSlot)

@[simp] theorem slot_setSlot_same : (m.setSlot i x).slot i = x := by
  simp [BootSlotManager.slot, BootSlotManager.setSlot]

theorem slot_setSlot_other {j : BitVec 32} (hi : i < 2#32) (hj : j < 2#32) (h : j ≠ i) : (m.setSlot i x).slot j = m.slot j :=
  update_of_ne (slotIndex_ne hj hi h) _ _

end

structure SlotSound (i : Fin 2) (s : BootSlot) : Prop extends CanonicalSlot i s where
  identity : bsSlotIdentityValid s
  failed : s.state = .failed → s.healthConfirmed = 0#32

structure SameImage (s t : BootSlot) : Prop where
  name : t.name = s.name
  version : t.version = s.version
  headerLba : t.headerLba = s.headerLba
  payloadLba : t.payloadLba = s.payloadLba
  capacity : t.payloadCapacitySectors = s.payloadCapacitySectors
  payloadSize : t.payloadSize = s.payloadSize
  sha256 : t.payloadSha256 = s.payloadSha256

/-- A slot with an image may change its state and counters. -/
theorem SlotSound.relabel {i : Fin 2} {s t : BootSlot} (h : SlotSound i s) (hs : s.state ≠ .empty)
    (ht : t.state ≠ .empty) (hsame : SameImage s t) (hhealth : t.healthConfirmed = 0#32 ∨ t.healthConfirmed = 1#32)
    (hfailed : t.state = .failed → t.healthConfirmed = 0#32) : SlotSound i t := by
  obtain ⟨-, hcap, hlba, himage⟩ := h.identity
  rw [if_neg hs] at himage
  refine ⟨⟨hsame.name.trans h.name, ?_⟩, ⟨hhealth, ?_, ?_, ?_⟩, hfailed⟩
  · rw [hsame.version]
    exact h.version
  · rw [hsame.capacity]
    exact hcap
  · rw [hsame.payloadLba, hsame.headerLba]
    exact hlba
  · rw [if_neg ht, hsame.version, hsame.payloadSize, hsame.capacity, hsame.sha256]
    exact himage

structure SlotsPlaced (layout : BootSlotLayout) (m : BootSlotManager) : Prop where
  plan : bootSlotLayoutPlan layout.bootSectors = some layout
  layout : m.layout = layout
  slots : ∀ i, SlotSound i (m.slots i)

structure Settled (m : BootSlotManager) : Prop where
  confirmed : m.confirmedSlot < 2#32
  pending : m.pendingSlot = bootSlotNone
  rollback : m.rollbackPending = 0#32
  tries : m.triesRemaining = 0#32
  active : m.activeSlot = m.confirmedSlot
  state : (m.slot m.confirmedSlot).state = .active
  health : (m.slot m.confirmedSlot).healthConfirmed ≠ 0#32
  otherActive : (m.slot (m.confirmedSlot ^^^ 1#32)).state ≠ .active
  otherRollback : (m.slot (m.confirmedSlot ^^^ 1#32)).state ≠ .rollback
  next : m.nextSlot = m.confirmedSlot ∨ m.nextSlot = m.confirmedSlot ^^^ 1#32 ∧
    (m.slot (m.confirmedSlot ^^^ 1#32)).state = .valid

structure OnTrial (m : BootSlotManager) : Prop where
  confirmed : m.confirmedSlot < 2#32
  pending : m.pendingSlot < 2#32
  apart : m.pendingSlot ≠ m.confirmedSlot
  rollback : m.rollbackPending = 1#32
  tries : m.triesRemaining ≤ bootSlotMaxTries
  active : m.activeSlot = m.pendingSlot
  next : m.nextSlot = m.pendingSlot
  state : (m.slot m.pendingSlot).state = .active
  health : (m.slot m.pendingSlot).healthConfirmed = 0#32
  fallback : (m.slot m.confirmedSlot).state = .rollback
  fallbackHealth : (m.slot m.confirmedSlot).healthConfirmed ≠ 0#32

structure ManagerSound (layout : BootSlotLayout) (m : BootSlotManager) : Prop where
  valid : bootSlotManagerValidate m
  canonical : Canonical m
  layout : m.layout = layout

section
variable {layout : BootSlotLayout} {m : BootSlotManager}

theorem ManagerSound.placed (h : ManagerSound layout m) : SlotsPlaced layout m := by
  obtain ⟨-, -, -, -, -, -, hslots, hplan, -⟩ := h.valid
  refine ⟨?_, h.layout, fun i => ⟨h.canonical i, (hslots i).1, fun hf => ?_⟩⟩
  · rw [← h.layout]
    exact hplan
  · by_contra hh
    exact (hslots i).2 ⟨hf, hh⟩

theorem ManagerSound.cases (h : ManagerSound layout m) : Settled m ∨ OnTrial m := by
  obtain ⟨-, -, hconf, hpend, htries, hroll, -, -, hstates⟩ := h.valid
  unfold bsStatesValid at hstates
  split at hstates
  · rename_i hnone
    obtain ⟨⟨h1, h2, h3, h4, h5, h6, h7⟩, h8⟩ := hstates
    exact .inl ⟨hconf, hnone, h1, h2, h3, h4, h5, h6, h7, h8⟩
  · rename_i hsome
    obtain ⟨h1, h2, h3, h4, h5, h6, h7, h8⟩ := hstates
    exact .inr ⟨hconf, hpend.resolve_left hsome, h1, hroll.resolve_left h2, htries, h3, h4, h5, h6, h7, h8⟩

theorem SlotsPlaced.valid_slots (h : SlotsPlaced layout m) : ∀ i, bsSlotIdentityValid (m.slots i) ∧
    ¬ ((m.slots i).state = .failed ∧ (m.slots i).healthConfirmed ≠ 0#32) :=
  fun i => ⟨(h.slots i).identity, fun hf => hf.2 ((h.slots i).failed hf.1)⟩

theorem SlotsPlaced.planned (h : SlotsPlaced layout m) : bootSlotLayoutPlan m.bootSectors = some m.layout := by
  have hsectors : m.bootSectors = layout.bootSectors := congrArg BootSlotLayout.bootSectors h.layout
  rw [hsectors, h.layout]
  exact h.plan

theorem Settled.sound (h : Settled m) (hp : SlotsPlaced layout m) : ManagerSound layout m := by
  have hother := other_ne h.confirmed
  refine ⟨⟨?_, ?_, h.confirmed, .inl h.pending, ?_, .inl h.rollback, hp.valid_slots, hp.planned, ?_⟩,
    fun i => (hp.slots i).toCanonicalSlot, hp.layout⟩
  · rw [h.active]
    exact h.confirmed
  · rcases h.next with hn | ⟨hn, -⟩
    · rw [hn]
      exact h.confirmed
    · rw [hn]
      exact hother.1
  · rw [h.tries]
    decide
  · unfold bsStatesValid
    rw [if_pos h.pending]
    exact ⟨⟨h.rollback, h.tries, h.active, h.state, h.health, h.otherActive, h.otherRollback⟩, h.next⟩

theorem OnTrial.sound (h : OnTrial m) (hp : SlotsPlaced layout m) : ManagerSound layout m := by
  refine ⟨⟨?_, ?_, h.confirmed, .inr h.pending, h.tries, .inr h.rollback, hp.valid_slots, hp.planned, ?_⟩,
    fun i => (hp.slots i).toCanonicalSlot, hp.layout⟩
  · rw [h.active]
    exact h.pending
  · rw [h.next]
    exact h.pending
  · unfold bsStatesValid
    rw [if_neg (below_none h.pending)]
    refine ⟨h.apart, ?_, h.active, h.next, h.state, h.health, h.fallback, h.fallbackHealth⟩
    rw [h.rollback]
    decide

/-- A slot may be replaced by a sound one in the same place. -/
theorem SlotsPlaced.setSlot (h : SlotsPlaced layout m) {i : BitVec 32} {x : BootSlot}
    (hx : SlotSound (slotIndex i) x) (hh : x.headerLba = (m.slot i).headerLba) (hl : x.payloadLba = (m.slot i).payloadLba)
    (hc : x.payloadCapacitySectors = (m.slot i).payloadCapacitySectors) : SlotsPlaced layout (m.setSlot i x) := by
  refine ⟨h.plan, ?_, fun k => ?_⟩
  · rw [← h.layout]
    simp only [BootSlotManager.layout, BootSlotManager.setSlot, BootSlotLayout.mk.injEq, true_and, and_true]
    funext k
    by_cases hk : k = slotIndex i
    · rw [hk, update_self, hh, hl, hc]
      rfl
    · rw [update_of_ne hk]
  · by_cases hk : k = slotIndex i
    · rw [hk]
      simpa [BootSlotManager.setSlot] using hx
    · have hsame : (m.setSlot i x).slots k = m.slots k := update_of_ne hk _ _
      rw [hsame]
      exact h.slots k

theorem SlotsPlaced.slotSound (h : SlotsPlaced layout m) (i : BitVec 32) : SlotSound (slotIndex i) (m.slot i) :=
  h.slots (slotIndex i)

/-- A slot with an image may change its state and counters in place. -/
theorem SlotsPlaced.relabel (h : SlotsPlaced layout m) {x : BootSlot}
    (hs : (m.slot i).state ≠ .empty) (hx : x.state ≠ .empty) (hsame : SameImage (m.slot i) x)
    (hhealth : x.healthConfirmed = 0#32 ∨ x.healthConfirmed = 1#32)
    (hfailed : x.state = .failed → x.healthConfirmed = 0#32) : SlotsPlaced layout (m.setSlot i x) :=
  h.setSlot ((h.slotSound i).relabel hs hx hsame hhealth hfailed) hsame.headerLba hsame.payloadLba
    hsame.capacity

theorem SlotsPlaced.health (h : SlotsPlaced layout m) (i : BitVec 32) :
    (m.slot i).healthConfirmed = 0#32 ∨ (m.slot i).healthConfirmed = 1#32 :=
  (h.slotSound i).identity.1

end

section
variable {layout : BootSlotLayout} {m : BootSlotManager} {slot : BitVec 32}

theorem Settled.other (h : Settled m) (hslot : slot < 2#32) (hne : slot ≠ m.confirmedSlot) : m.confirmedSlot ^^^ 1#32 = slot :=
  other_slot h.confirmed hslot (Ne.symm hne)

theorem armed_onTrial (h : Settled m) (hslot : slot < 2#32) (hne : slot ≠ m.confirmedSlot) : OnTrial (armed m slot) := by
  have hc := h.confirmed
  have hfall : (armed m slot).slot m.confirmedSlot = (m.slot m.confirmedSlot).kept := by
    refine (slot_setSlot_other _ slot _ hslot hc (Ne.symm hne)).trans ?_
    exact slot_setSlot_same _ _ _
  have htrial : (armed m slot).slot slot = (m.slot slot).tried := by
    refine (slot_setSlot_same _ _ _).trans ?_
    rw [slot_setSlot_other _ _ _ hc hslot hne]
  have hconf : (armed m slot).confirmedSlot = m.confirmedSlot := rfl
  have hpend : (armed m slot).pendingSlot = slot := rfl
  have htries : (1#32 : BitVec 32) ≤ bootSlotMaxTries := by decide
  refine ⟨hc, hslot, hne, rfl, htries, rfl, rfl, ?_, ?_, ?_, ?_⟩
  · rw [hpend, htrial]
    rfl
  · rw [hpend, htrial]
    rfl
  · rw [hconf, hfall]
    rfl
  · rw [hconf, hfall]
    exact h.health

theorem armed_sound (h : ManagerSound layout m) (hset : Settled m) (hslot : slot < 2#32)
    (hne : slot ≠ m.confirmedSlot) (hfull : (m.slot slot).state ≠ .empty) : ManagerSound layout (armed m slot) := by
  have hp := h.placed
  have hkept : SlotsPlaced layout (m.setSlot m.confirmedSlot (m.slot m.confirmedSlot).kept) := by
    refine hp.relabel ?_ (fun he => nomatch he) ⟨rfl, rfl, rfl, rfl, rfl, rfl, rfl⟩ (hp.health _)
      (fun hf => nomatch hf)
    rw [hset.state]
    exact fun he => nomatch he
  have htried := hkept.relabel (i := slot) (x := BootSlot.tried _)
    (by rw [slot_setSlot_other _ _ _ hset.confirmed hslot hne]; exact hfull) (fun he => nomatch he)
    ⟨rfl, rfl, rfl, rfl, rfl, rfl, rfl⟩ (.inl rfl) (fun hf => nomatch hf)
  exact (armed_onTrial hset hslot hne).sound ⟨htried.plan, htried.layout, htried.slots⟩

theorem spent_onTrial (h : OnTrial m) (ht : 0#32 < m.triesRemaining) : OnTrial (spent m) := by
  have hfall : (spent m).slot m.confirmedSlot = m.slot m.confirmedSlot :=
    slot_setSlot_other _ _ _ h.pending h.confirmed (Ne.symm h.apart)
  have htrial : (spent m).slot m.pendingSlot = (m.slot m.pendingSlot).booted := slot_setSlot_same _ _ _
  have hconf : (spent m).confirmedSlot = m.confirmedSlot := rfl
  have hpend : (spent m).pendingSlot = m.pendingSlot := rfl
  refine ⟨h.confirmed, h.pending, h.apart, h.rollback, ?_, h.active, h.next, ?_, ?_, ?_, ?_⟩
  · have hle : m.triesRemaining ≤ 1#32 := h.tries
    have hs : m.triesRemaining - 1#32 ≤ 1#32 := by bv_omega
    exact hs
  · rw [hpend, htrial]
    exact h.state
  · rw [hpend, htrial]
    exact h.health
  · rw [hconf, hfall]
    exact h.fallback
  · rw [hconf, hfall]
    exact h.fallbackHealth

theorem spent_sound (h : ManagerSound layout m) (ht : OnTrial m) (htries : 0#32 < m.triesRemaining) :
    ManagerSound layout (spent m) := by
  have hp : SlotsPlaced layout { m with triesRemaining := m.triesRemaining - 1#32 } :=
    ⟨h.placed.plan, h.placed.layout, h.placed.slots⟩
  refine (spent_onTrial ht htries).sound (hp.relabel ?_ ?_ ⟨rfl, rfl, rfl, rfl, rfl, rfl, rfl⟩ ?_ ?_)
  · exact fun he => nomatch ht.state.symm.trans he
  · exact fun he => nomatch ht.state.symm.trans he
  · exact .inl ht.health
  · exact fun _ => ht.health

theorem applyRollback_eq (h : OnTrial m) : bsApplyRollback m = some (rolledBack m) := by
  have hp := h.pending
  have hc := h.confirmed
  unfold bsApplyRollback
  rw [if_neg]
  intro hn
  rcases hn with hn | hn | hn
  · exact below_none hp hn
  · bv_omega
  · bv_omega

theorem rolledBack_settled (h : OnTrial m) : Settled (rolledBack m) ∧ ((rolledBack m).slot m.pendingSlot).state = .failed := by
  have hother : m.confirmedSlot ^^^ 1#32 = m.pendingSlot :=
    other_slot h.confirmed h.pending (Ne.symm h.apart)
  have hfall : (rolledBack m).slot m.confirmedSlot = (m.slot m.confirmedSlot).restored := by
    refine (slot_setSlot_same _ _ _).trans ?_
    rw [slot_setSlot_other _ _ _ h.pending h.confirmed (Ne.symm h.apart)]
  have hfail : (rolledBack m).slot m.pendingSlot = (m.slot m.pendingSlot).rejected :=
    (slot_setSlot_other _ _ _ h.confirmed h.pending h.apart).trans (slot_setSlot_same _ _ _)
  have hconf : (rolledBack m).confirmedSlot = m.confirmedSlot := rfl
  refine ⟨⟨h.confirmed, rfl, rfl, rfl, rfl, ?_, ?_, ?_, ?_, .inl rfl⟩, ?_⟩
  · rw [hconf, hfall]
    rfl
  · rw [hconf, hfall]
    exact fun hz => nomatch hz
  · rw [hconf, hother, hfail]
    exact fun hz => nomatch hz
  · rw [hconf, hother, hfail]
    exact fun hz => nomatch hz
  · rw [hfail]
    rfl

theorem rolledBack_sound (h : ManagerSound layout m) (ht : OnTrial m) : ManagerSound layout (rolledBack m) := by
  have hfail : SlotsPlaced layout (m.setSlot m.pendingSlot (m.slot m.pendingSlot).rejected) :=
    h.placed.relabel (fun he => nomatch ht.state.symm.trans he) (fun he => nomatch he)
      ⟨rfl, rfl, rfl, rfl, rfl, rfl, rfl⟩ (.inl rfl) (fun _ => rfl)
  have hback := hfail.relabel (i := m.confirmedSlot) (x := BootSlot.restored _)
    (by rw [slot_setSlot_other _ _ _ ht.pending ht.confirmed (Ne.symm ht.apart), ht.fallback]
        exact fun he => nomatch he)
    (fun he => nomatch he) ⟨rfl, rfl, rfl, rfl, rfl, rfl, rfl⟩ (.inr rfl) (fun hf => nomatch hf)
  exact (rolledBack_settled ht).1.sound ⟨hback.plan, hback.layout, hback.slots⟩

/-- On trial the previous slot is always the one kept for the way back. -/
theorem confirmed_eq (h : OnTrial m) : confirmed m m.pendingSlot =
    { (m.setSlot m.pendingSlot (m.slot m.pendingSlot).passed).setSlot m.confirmedSlot (m.slot m.confirmedSlot).retired with
      confirmedSlot := m.pendingSlot, pendingSlot := bootSlotNone, triesRemaining := 0#32
      activeSlot := m.pendingSlot, nextSlot := m.pendingSlot, rollbackPending := 0#32 } := by
  have hprev : (m.setSlot m.pendingSlot (m.slot m.pendingSlot).passed).slot m.confirmedSlot =
      m.slot m.confirmedSlot := slot_setSlot_other _ _ _ h.pending h.confirmed (Ne.symm h.apart)
  unfold confirmed
  simp only [hprev, h.fallback, if_true]

theorem confirmed_settled (h : OnTrial m) : Settled (confirmed m m.pendingSlot) := by
  have hother : m.pendingSlot ^^^ 1#32 = m.confirmedSlot := other_slot h.pending h.confirmed h.apart
  have hslot : (confirmed m m.pendingSlot).slot m.pendingSlot = (m.slot m.pendingSlot).passed := by
    rw [confirmed_eq h]
    exact (slot_setSlot_other _ _ _ h.confirmed h.pending h.apart).trans (slot_setSlot_same _ _ _)
  have hprev : (confirmed m m.pendingSlot).slot m.confirmedSlot = (m.slot m.confirmedSlot).retired := by
    rw [confirmed_eq h]
    exact slot_setSlot_same _ _ _
  have hconf : (confirmed m m.pendingSlot).confirmedSlot = m.pendingSlot := rfl
  refine ⟨h.pending, rfl, rfl, rfl, rfl, ?_, ?_, ?_, ?_, .inl rfl⟩
  · rw [hconf, hslot]
    exact h.state
  · rw [hconf, hslot]
    exact fun hz => nomatch hz
  · rw [hconf, hother, hprev]
    exact fun hz => nomatch hz
  · rw [hconf, hother, hprev]
    exact fun hz => nomatch hz

theorem confirmed_sound (h : ManagerSound layout m) (ht : OnTrial m) : ManagerSound layout (confirmed m m.pendingSlot) := by
  have hpass : SlotsPlaced layout (m.setSlot m.pendingSlot (m.slot m.pendingSlot).passed) :=
    h.placed.relabel (fun he => nomatch ht.state.symm.trans he) (fun he => nomatch ht.state.symm.trans he)
      ⟨rfl, rfl, rfl, rfl, rfl, rfl, rfl⟩ (.inr rfl) (fun hf => nomatch ht.state.symm.trans hf)
  have hprev := slot_setSlot_other m m.pendingSlot (m.slot m.pendingSlot).passed ht.pending ht.confirmed
    (Ne.symm ht.apart)
  have hret := hpass.relabel (i := m.confirmedSlot) (x := (m.slot m.confirmedSlot).retired)
    (by rw [hprev, ht.fallback]; exact fun he => nomatch he) (fun he => nomatch he)
    (by rw [hprev]; exact ⟨rfl, rfl, rfl, rfl, rfl, rfl, rfl⟩) (h.placed.health _) (fun hf => nomatch hf)
  refine (confirmed_settled ht).sound ?_
  rw [confirmed_eq ht]
  exact ⟨hret.plan, hret.layout, hret.slots⟩

theorem applyImage_sound {s : BootSlot} {image : BootSlotImage} {state : BootSlotState}
    (h : SlotSound (slotIndex slot) s) (hv : bsImageValid image s.payloadCapacitySectors = true)
    (hs : state ≠ .empty) : SlotSound (slotIndex slot) (bsSlotApplyImage s slot image state) := by
  obtain ⟨-, hcap, hlba, -⟩ := h.identity
  simp only [bsImageValid, Bool.and_eq_true, decide_eq_true_eq] at hv
  obtain ⟨⟨⟨hfits, hpos⟩, hsize⟩, hdigest⟩ := hv
  have hlen : strLen image.version < bootSlotVersionMax := by
    simp only [bsStringFits, Bool.and_eq_true, decide_eq_true_eq] at hfits
    exact hfits.2.2
  refine ⟨⟨rfl, bsStrcpy_idem hlen⟩, ⟨.inl rfl, hcap, hlba, ?_⟩, fun _ => rfl⟩
  exact (if_neg hs).mpr ⟨bsStringFits_strcpy hfits, hpos, hsize, hdigest⟩

theorem staged_settled (h : Settled m)
    (hslot : slot < 2#32) (hne : slot ≠ m.confirmedSlot) (hs : state = .failed ∨ state = .valid)
    (hnext : next = m.confirmedSlot ∨ next = slot ∧ state = .valid) : Settled (staged m slot image state next) := by
  have hother := h.other hslot hne
  have hconf : (staged m slot image state next).confirmedSlot = m.confirmedSlot := rfl
  have hstay : (staged m slot image state next).slot m.confirmedSlot = m.slot m.confirmedSlot :=
    slot_setSlot_other _ _ _ hslot h.confirmed (Ne.symm hne)
  have hnew : (staged m slot image state next).slot slot = bsSlotApplyImage (m.slot slot) slot image state :=
    slot_setSlot_same _ _ _
  have hstate : (bsSlotApplyImage (m.slot slot) slot image state).state = state := rfl
  refine ⟨h.confirmed, h.pending, h.rollback, h.tries, h.active, ?_, ?_, ?_, ?_, ?_⟩
  · rw [hconf, hstay]
    exact h.state
  · rw [hconf, hstay]
    exact h.health
  · rw [hconf, hother, hnew, hstate]
    rcases hs with rfl | rfl <;> exact fun he => nomatch he
  · rw [hconf, hother, hnew, hstate]
    rcases hs with rfl | rfl <;> exact fun he => nomatch he
  · rw [hconf, hother, hnew, hstate]
    exact hnext

theorem staged_sound
    (h : ManagerSound layout m) (hset : Settled m) (hslot : slot < 2#32) (hne : slot ≠ m.confirmedSlot)
    (hv : bsImageValid image (m.slot slot).payloadCapacitySectors = true)
    (hs : state = .failed ∨ state = .valid) (hnext : next = m.confirmedSlot ∨ next = slot ∧ state = .valid) :
    ManagerSound layout (staged m slot image state next) := by
  have hfull : state ≠ .empty := by
    rcases hs with rfl | rfl <;> exact fun he => nomatch he
  have hp := h.placed.setSlot (applyImage_sound (h.placed.slotSound slot) hv hfull) rfl rfl rfl
  exact (staged_settled hset hslot hne hs hnext).sound ⟨hp.plan, hp.layout, hp.slots⟩

end

/-- The sectors of a planned layout: two regions side by side, then the two
control copies. -/
structure Planned (layout : BootSlotLayout) (n r : Nat) : Prop where
  sectors : layout.bootSectors.toNat = n
  room : 6 ≤ n
  first : r = (n - 2) / 2
  header0 : (layout.slots 0).headerLba.toNat = 0
  payload0 : (layout.slots 0).payloadLba.toNat = 1
  capacity0 : (layout.slots 0).payloadCapacitySectors.toNat = r - 1
  header1 : (layout.slots 1).headerLba.toNat = r
  payload1 : (layout.slots 1).payloadLba.toNat = r + 1
  capacity1 : (layout.slots 1).payloadCapacitySectors.toNat = n - 2 - r - 1
  control0 : (layout.controlLba 0).toNat = n - 2
  control1 : (layout.controlLba 1).toNat = n - 1

theorem toNat_usable {b : BitVec 32} (hb : 6 ≤ b.toNat) : (b - 2#32).toNat = b.toNat - 2 :=
  toNat_sub_of_le (le_def.mpr (Nat.le_trans (by decide) hb))

theorem region_sizes {b r : BitVec 32} (hb : 6 ≤ b.toNat) (hr : r.toNat = (b.toNat - 2) / 2) :
    (r - 1#32).toNat = r.toNat - 1 ∧ (r + 1#32).toNat = r.toNat + 1 ∧
      (b - 2#32 - r - 1#32).toNat = b.toNat - 2 - r.toNat - 1 ∧ (b - 1#32).toNat = b.toNat - 1 := by
  have htwo : 2 ≤ r.toNat := by omega
  have hroom : r.toNat + 1 ≤ b.toNat - 2 := by omega
  have hsecond : (b - 2#32 - r).toNat = b.toNat - 2 - r.toNat := by
    rw [toNat_sub_of_le, toNat_usable hb]
    rw [le_def, toNat_usable hb]
    exact Nat.le_of_succ_le hroom
  refine ⟨toNat_sub_of_le (le_def.mpr (Nat.le_trans (by decide) htwo)),
    toNat_add_of_lt (lt_of_le_of_lt (hroom.trans (Nat.sub_le _ _)) b.isLt), ?_,
    toNat_sub_of_le (le_def.mpr (Nat.le_trans (by decide) hb))⟩
  rw [toNat_sub_of_le, hsecond]
  · rfl
  · rw [le_def, hsecond]
    exact Nat.le_sub_of_add_le (by rw [Nat.add_comm]; exact hroom)

theorem plan_planned {layout : BootSlotLayout} (hplan : bootSlotLayoutPlan layout.bootSectors = some layout) :
    ∃ n r, Planned layout n r := by
  unfold bootSlotLayoutPlan at hplan
  split at hplan
  · cases hplan
  · rename_i hlarge
    simp only at hplan
    split at hplan
    · cases hplan
    · have hn : 6 ≤ layout.bootSectors.toNat := le_def.mp (BitVec.not_lt.mp hlarge)
      have husable := toNat_usable hn
      have hfirst : ((layout.bootSectors - 2#32) / 2#32).toNat = (layout.bootSectors.toNat - 2) / 2 := by
        rw [toNat_udiv, husable]
        rfl
      generalize hr : (layout.bootSectors - 2#32) / 2#32 = r at hplan hfirst
      obtain ⟨hless, hnext, hsecond, hlast⟩ := region_sizes hn hfirst
      have hfields := Option.some.inj hplan
      have hslot : ∀ i, layout.slots i = _ := fun i => (congrArg (fun l => l.slots i) hfields).symm
      have hctl : ∀ i, layout.controlLba i = _ := fun i => (congrArg (fun l => l.controlLba i) hfields).symm
      refine ⟨_, _, rfl, hn, rfl, ?_, ?_, ?_, ?_, ?_, ?_, ?_, ?_⟩
      · rw [hslot]; rfl
      · rw [hslot]; rfl
      · rw [hslot]
        simp only [if_true]
        rw [hless, hfirst]
      · rw [hslot]
        exact hfirst
      · rw [hslot]
        exact hnext.trans (by rw [hfirst])
      · rw [hslot]
        exact hsecond.trans (by rw [hfirst])
      · rw [hctl]
        exact husable
      · rw [hctl]
        exact hlast

section
variable {layout : BootSlotLayout}

theorem plan_regions (hplan : bootSlotLayoutPlan layout.bootSectors = some layout) (i : Fin 2) :
    (layout.slots i).payloadCapacitySectors ≠ 0#32 ∧ (layout.slots i).payloadLba = (layout.slots i).headerLba + 1#32 := by
  obtain ⟨n, r, h⟩ := plan_planned hplan
  have hlt := layout.bootSectors.isLt
  rw [h.sectors] at hlt
  have hroom := h.room
  have hfirst := h.first
  match i with
  | 0 =>
    have h1 := h.header0
    have h2 := h.payload0
    have h3 := h.capacity0
    constructor
    · bv_omega
    · bv_omega
  | 1 =>
    have h1 := h.header1
    have h2 := h.payload1
    have h3 := h.capacity1
    constructor
    · bv_omega
    · bv_omega

theorem emptySlot_sound (hplan : bootSlotLayoutPlan layout.bootSectors = some layout) (i : Fin 2) :
    SlotSound i (emptySlot layout i) := by
  obtain ⟨hcap, hlba⟩ := plan_regions hplan i
  refine ⟨⟨rfl, ?_⟩, ⟨.inl rfl, hcap, hlba, ?_⟩, fun _ => rfl⟩
  · exact (by decide : bsStrcpy (zeroChars bootSlotVersionMax) = zeroChars bootSlotVersionMax)
  · have hstate : (emptySlot layout i).state = .empty := rfl
    rw [if_pos hstate]
    exact ⟨rfl, rfl, rfl, rfl, rfl, rfl, rfl, rfl⟩

theorem installedSlot_sound {s : BootSlot} (h : SlotSound 0 s)
    (hv : bsImageValid image s.payloadCapacitySectors = true) : SlotSound 0 (installedSlot s image) :=
  (@applyImage_sound 0#32 s image .active h hv (fun he => nomatch he)).relabel
    (fun he => nomatch he) (fun he => nomatch he) ⟨rfl, rfl, rfl, rfl, rfl, rfl, rfl⟩ (.inr rfl)
    (fun hf => nomatch hf)

theorem initialManager_sound (hplan : bootSlotLayoutPlan layout.bootSectors = some layout)
    (hv : bsImageValid image (layout.slots 0).payloadCapacitySectors = true) :
    ManagerSound layout (initialManager layout image) ∧ Settled (initialManager layout image) ∧
      ((initialManager layout image).slots 1).state = .empty := by
  have hempty : ((initialManager layout image).slots 1).state = .empty := rfl
  have hone : (1#32 : BitVec 32) ≠ 0#32 := by decide
  have hzero : (0#32 : BitVec 32) < 2#32 := by decide
  have hother : ((initialManager layout image).slot
      ((initialManager layout image).confirmedSlot ^^^ 1#32)).state = .empty := by
    have hix : slotIndex (0#32 ^^^ 1#32) = 1 := by decide
    exact (congrArg (fun i => ((initialManager layout image).slots i).state) hix).trans hempty
  have hset : Settled (initialManager layout image) := by
    refine ⟨hzero, rfl, rfl, rfl, rfl, rfl, hone, ?_, ?_, .inl rfl⟩
    · rw [hother]
      exact fun he => nomatch he
    · rw [hother]
      exact fun he => nomatch he
  have hplaced : SlotsPlaced layout { bsManagerDefaults with
      bootSectors := layout.bootSectors, controlLba := layout.controlLba, slots := emptySlot layout } :=
    ⟨hplan, rfl, emptySlot_sound hplan⟩
  exact ⟨hset.sound (hplaced.setSlot (installedSlot_sound (emptySlot_sound hplan 0) hv) rfl rfl rfl), hset, hempty⟩

end

def viewRecord (layout : BootSlotLayout) (record : Bytes) : Option (BootSlotManager × BitVec 64) :=
  if bsRecordErased record then none
  else (bsRecordDecode record).filter fun d => bsManagerMatchesLayout d.1 layout

def recordAge (d : BootSlotManager × BitVec 64) : Nat := d.2.toNat

def controlCopies (layout : BootSlotLayout) (disk : BitVec 32 → Bytes) : Fin 2 → Bytes :=
  fun c => disk (layout.controlLba c)

section
variable {layout : BootSlotLayout} {disk : BitVec 32 → Bytes} {c : Fin 2} {m : BootSlotManager}
  {g : BitVec 64}

theorem viewRecord_encode (h : ManagerSound layout m) (hg : g ≠ 0#64) :
    viewRecord layout (bsRecordEncode m g) = some (m, g) := by
  have hmatch : bsManagerMatchesLayout m layout = true := by
    simp only [bsManagerMatchesLayout, h.layout, decide_true]
  rw [viewRecord, encode_not_erased, decode_encode h.valid h.canonical hg]
  simp [Option.filter, hmatch]

theorem viewRecord_erased {record : Bytes} (h : bsRecordErased record = true) : viewRecord layout record = none := by
  rw [viewRecord, h]
  rfl

theorem controlLba_ne (hplan : bootSlotLayoutPlan layout.bootSectors = some layout) {c d : Fin 2}
    (h : c ≠ d) : layout.controlLba c ≠ layout.controlLba d := by
  obtain ⟨n, r, hp⟩ := plan_planned hplan
  have h0 := hp.control0
  have h1 := hp.control1
  have hroom := hp.room
  match c, d with
  | 0, 0 => exact absurd rfl h
  | 0, 1 => bv_omega
  | 1, 0 => bv_omega
  | 1, 1 => exact absurd rfl h

theorem controlCopies_write (hplan : bootSlotLayoutPlan layout.bootSectors = some layout) (r : Bytes) :
    controlCopies layout (update disk (layout.controlLba c) r) = update (controlCopies layout disk) c r := by
  funext d
  unfold controlCopies
  rcases eq_or_ne d c with rfl | hd
  · rw [update_self, update_self]
  · rw [update_of_ne hd, update_of_ne (controlLba_ne hplan hd)]

/-- What a partition holds: copy `c` is the one to go by. While the other copy
has never been written, slot B is empty, so no trial can be under way. -/
structure Committed (layout : BootSlotLayout) (disk : BitVec 32 → Bytes) (c : Fin 2)
    (m : BootSlotManager) (g : BitVec 64) : Prop where
  newest : Newest (viewRecord layout) recordAge (controlCopies layout disk) c (m, g)
  sound : ManagerSound layout m
  generation : g ≠ 0#64
  first : viewRecord layout (disk (layout.controlLba (1 - c))) = none →
    Settled m ∧ (m.slots 1).state = .empty

theorem Committed.unique {c' : Fin 2} {m' : BootSlotManager} {g' : BitVec 64}
    (h : Committed layout disk c m g) (h' : Committed layout disk c' m' g') : c' = c ∧ m' = m ∧ g' = g := by
  obtain ⟨hc, he⟩ := h.newest.unique h'.newest
  exact ⟨hc, (Prod.mk.inj he).1, (Prod.mk.inj he).2⟩

theorem Committed.not_erased (h : Committed layout disk c m g) : ¬ ControlErased layout disk := by
  intro he
  have hnone := @viewRecord_erased layout _ (he c)
  exact nomatch hnone.symm.trans h.newest.here

theorem Committed.congr (h : Committed layout disk c m g)
    (hsame : ∀ c, disk' (layout.controlLba c) = disk (layout.controlLba c)) : Committed layout disk' c m g := by
  have hcopies : controlCopies layout disk' = controlCopies layout disk := funext hsame
  refine ⟨?_, h.sound, h.generation, ?_⟩
  · rw [hcopies]
    exact h.newest
  · rw [hsame]
    exact h.first

/-- A younger record in the other copy is what the partition holds from then on. -/
theorem Committed.write {m' : BootSlotManager} {g' : BitVec 64} (h : Committed layout disk c m g)
    (hm : ManagerSound layout m') (hlt : g.toNat < g'.toNat) :
    Committed layout (update disk (layout.controlLba (1 - c)) (bsRecordEncode m' g')) (1 - c) m' g' := by
  have hplan := hm.placed.plan
  have hg' : g' ≠ 0#64 := by
    rintro rfl
    exact Nat.not_lt_zero _ hlt
  refine ⟨?_, hm, hg', fun hnone => ?_⟩
  · rw [controlCopies_write hplan]
    exact h.newest.replace (viewRecord_encode hm hg') hlt
  · rw [other_other, update_of_ne (controlLba_ne hplan (other_ne_self c).symm)] at hnone
    exact nomatch hnone.symm.trans h.newest.here

theorem erased_write (h : ControlErased layout disk) (hm : ManagerSound layout m) (hs : Settled m)
    (hempty : (m.slots 1).state = .empty) (hg : g ≠ 0#64) :
    Committed layout (update disk (layout.controlLba 0) (bsRecordEncode m g)) 0 m g := by
  have hplan := hm.placed.plan
  refine ⟨⟨?_, fun b hb => ?_⟩, hm, hg, fun _ => ⟨hs, hempty⟩⟩
  · rw [controlCopies_write hplan, update_self]
    exact viewRecord_encode hm hg
  · rw [controlCopies_write hplan, update_of_ne (by decide)] at hb
    exact nomatch (viewRecord_erased (h _)).symm.trans hb

theorem erased_congr (h : ControlErased layout disk)
    (hsame : ∀ c, disk' (layout.controlLba c) = disk (layout.controlLba c)) : ControlErased layout disk' := by
  intro c
  rw [hsame]
  exact h c

end

variable {W : Type} {io : PersistIo W} {build : Build} {layout : BootSlotLayout}
  {disk : BitVec 32 → Bytes} {s : BootSlots} {w : W}

theorem readCopy_eq {c : Fin 2} (hread : io.read c w = ((0, disk (layout.controlLba c)), w)) :
    readCopy io layout c w = (some ⟨bsRecordErased (disk (layout.controlLba c)),
      disk (layout.controlLba c), viewRecord layout (disk (layout.controlLba c))⟩, w) := by
  have hne : (0 : Int) ≠ bootSlotPersistEmpty := by decide
  simp only [readCopy, hread]
  rw [if_neg (fun h => h.1 rfl)]
  simp [viewRecord, hne]

/-- The state after a bind, but for what was found on the disk. -/
def binding (layout : BootSlotLayout) (s : BootSlots) : BootSlots :=
  { s with
    bsm := bsManagerDefaults
    bsp := { s.bsp with
      generation := 0#64, activeCopy := 0, configured := true, ready := false, blank := false
      degraded := false, stageClaimed := false, authorityEpoch := 0#64, layout := layout }
    phase := .boundUnknown }

theorem setPersistence_committed {c : Fin 2} {m : BootSlotManager} {g : BitVec 64}
    (hread : ∀ c, io.read c w = ((0, disk (layout.controlLba c)), w))
    (hclaim : s.bsp.stageClaimed = false) (hbind : bootSlotBindAllowed build s = true) (h : Committed layout disk c m g) :
    ∃ degraded, bootSlotSetPersistence io build layout s w = (0, { (binding layout s).adopt m c g with
        bsp := { ((binding layout s).adopt m c g).bsp with degraded := degraded, ready := true }
        phase := .boundReady }, w) := by
  have hplan := h.sound.placed.plan
  have hguard : (!bootSlotBindAllowed build s ||
      decide (bootSlotLayoutPlan layout.bootSectors ≠ some layout)) = false := by
    simp [hbind, hplan]
  have hhere : viewRecord layout (disk (layout.controlLba c)) = some (m, g) := h.newest.here
  refine ⟨!((viewRecord layout (disk (layout.controlLba 0))).isSome &&
    (viewRecord layout (disk (layout.controlLba 1))).isSome), ?_⟩
  have hpaired : ¬ (m.pendingSlot ≠ bootSlotNone ∧
      (!((viewRecord layout (disk (layout.controlLba 0))).isSome &&
        (viewRecord layout (disk (layout.controlLba 1))).isSome)) = true) := by
    rintro ⟨hpend, hmiss⟩
    refine hpend (h.first ?_).1.pending
    rcases copy_cases c with rfl | rfl
    · simpa [hhere] using hmiss
    · simpa [hhere] using hmiss
  have hchoose : chooseCopy ⟨bsRecordErased (disk (layout.controlLba 0)), disk (layout.controlLba 0),
        viewRecord layout (disk (layout.controlLba 0))⟩
      ⟨bsRecordErased (disk (layout.controlLba 1)), disk (layout.controlLba 1),
        viewRecord layout (disk (layout.controlLba 1))⟩ = .ok (some (c, m, g)) := by
    have holder : ∀ b, viewRecord layout (disk (layout.controlLba (1 - c))) = some b → b.2.toNat < g.toNat :=
      h.newest.older
    rcases copy_cases c with rfl | rfl
    · cases hv : viewRecord layout (disk (layout.controlLba 1)) with
      | none => simp [chooseCopy, hhere]
      | some b =>
        have hlt := holder b hv
        have hne : g ≠ b.2 := fun he => by simp [he] at hlt
        have hng : ¬ b.2 > g := by bv_omega
        simp [chooseCopy, hhere, hne, hng]
    · cases hv : viewRecord layout (disk (layout.controlLba 0)) with
      | none => simp [chooseCopy, hhere]
      | some b =>
        have hlt := holder b hv
        have hne : b.2 ≠ g := fun he => by simp [he] at hlt
        have hgt : g > b.2 := by bv_omega
        simp [chooseCopy, hhere, hne, hgt]
  unfold bootSlotSetPersistence
  rw [hclaim, hguard]
  simp only [Bool.false_eq_true, if_false, readCopy_eq (hread 0), readCopy_eq (hread 1), hchoose, if_neg hpaired]
  rfl

theorem setPersistence_erased (hplan : bootSlotLayoutPlan layout.bootSectors = some layout)
    (hread : ∀ c, io.read c w = ((0, disk (layout.controlLba c)), w))
    (hclaim : s.bsp.stageClaimed = false) (hbind : bootSlotBindAllowed build s = true) (h : ControlErased layout disk) :
    bootSlotSetPersistence io build layout s w = (bootSlotPersistEmpty, { binding layout s with
        bsp := { (binding layout s).bsp with blank := true }, phase := .boundEmpty }, w) := by
  have hguard : (!bootSlotBindAllowed build s ||
      decide (bootSlotLayoutPlan layout.bootSectors ≠ some layout)) = false := by
    simp [hbind, hplan]
  have hchoose : ∀ a b, chooseCopy ⟨true, a, none⟩ ⟨true, b, none⟩ = .ok none := fun _ _ => rfl
  unfold bootSlotSetPersistence
  rw [hclaim, hguard]
  simp only [Bool.false_eq_true, if_false, readCopy_eq (hread 0), readCopy_eq (hread 1),
    viewRecord_erased (h 0), viewRecord_erased (h 1), h 0, h 1, hchoose]
  rfl

end CapyOS.Proofs
