import CapyOS.Proofs.SlotSteps

namespace CapyOS.Proofs
open Lib

section
variable {build : Build} {s : BootSlots} {m : BootSlotManager} {slot : BitVec 32}

theorem armCandidate_cases {g : BitVec 64} (h : armCandidate slot g s = some m) :
    bootSlotPersistenceReady s = true ∧ slot < 2#32 ∧ s.bsm.pendingSlot = bootSlotNone ∧
      slot ≠ s.bsm.confirmedSlot ∧ (s.bsm.slot slot).state = .valid ∧ m = armed s.bsm slot := by
  unfold armCandidate at h
  split at h
  · cases h
  · rename_i hguard
    simp only [ge_iff_le, Bool.or_eq_true, Bool.not_eq_true', decide_eq_true_eq, not_or, not_not,
      Bool.not_eq_false, BitVec.not_le] at hguard
    obtain ⟨⟨⟨⟨⟨⟨⟨hready, hslot⟩, -⟩, hpend⟩, hne⟩, hstate⟩, -⟩, -⟩ := hguard
    exact ⟨hready, hslot, hpend, hne, hstate, (Option.some.inj h).symm⟩

theorem transitionReady_cases (h : bootSlotTransitionReady build s = true) :
    bootSlotPersistenceReady s = true ∨ s.bsp.configured = false := by
  unfold bootSlotTransitionReady at h
  split at h
  · rename_i hphase
    simp only [Bool.and_eq_true] at h
    exact .inl (persistenceReady_iff.mpr ⟨hphase, h.1.1, h.1.2, h.2⟩)
  · simp only [Bool.and_eq_true, Bool.not_eq_true'] at h
    exact .inr h.2

theorem activateCandidate_cases (h : activateCandidate build slot s = some m) : s.bsp.configured = false ∨
    (bootSlotPersistenceReady s = true ∧ slot < 2#32 ∧ s.bsm.pendingSlot = bootSlotNone ∧ slot ≠ s.bsm.confirmedSlot ∧
      ((s.bsm.slot slot).state = .valid ∨ (s.bsm.slot slot).state = .active) ∧ m = armed s.bsm slot) := by
  unfold activateCandidate at h
  split at h
  · cases h
  · rename_i hready
    simp only [ge_iff_le, Bool.or_eq_true, Bool.not_eq_true', decide_eq_true_eq, not_or, Bool.not_eq_false,
      BitVec.not_le] at hready
    rcases transitionReady_cases hready.1 with hr | hconf
    · split at h
      · cases h
      · rename_i hstate
        rw [if_pos (persistenceReady_iff.mp hr).2.2.1] at h
        split at h
        · cases h
        · rename_i hguard
          simp only [Bool.or_eq_true, Bool.not_eq_true', decide_eq_true_eq, not_or, not_not, Bool.not_eq_false] at hguard
          refine .inr ⟨hr, hready.2, hguard.1.1.1.2, hguard.1.1.2, ?_, (Option.some.inj h).symm⟩
          exact or_iff_not_imp_left.mpr fun hv => by_contra fun ha => hstate ⟨hv, ha⟩
    · exact .inl hconf

theorem confirmCandidate_cases {g a l : BitVec 64} (h : confirmCandidate slot g a l s = some m) :
    bootSlotPersistenceReady s = true ∧ slot < 2#32 ∧ s.bsm.pendingSlot = slot ∧
      s.bsm.triesRemaining = 0#32 ∧ m = confirmed s.bsm slot := by
  unfold confirmCandidate at h
  split at h
  · cases h
  · rename_i hguard
    simp only [ge_iff_le, Bool.or_eq_true, Bool.not_eq_true', decide_eq_true_eq, not_or, not_not,
      Bool.not_eq_false, BitVec.not_le] at hguard
    obtain ⟨⟨⟨⟨⟨⟨⟨hready, hslot⟩, hpend⟩, -⟩, -⟩, -⟩, -⟩, htries⟩ := hguard
    exact ⟨hready, hslot, hpend, htries, (Option.some.inj h).symm⟩

theorem rollbackCandidate_cases (h : rollbackCandidate build s = some m) : s.bsp.configured = false ∨
    (bootSlotPersistenceReady s = true ∧ s.bsm.rollbackPending ≠ 0#32 ∧ bsApplyRollback s.bsm = some m) := by
  unfold rollbackCandidate at h
  split at h
  · cases h
  · rename_i hguard
    simp only [Bool.or_eq_true, Bool.not_eq_true', decide_eq_true_eq, not_or, Bool.not_eq_false] at hguard
    rcases transitionReady_cases hguard.1 with hr | hconf
    · rw [if_pos (persistenceReady_iff.mp hr).2.2.1, hr] at h
      exact .inr ⟨hr, hguard.2, h⟩
    · exact .inl hconf

theorem initializeCandidate_cases {layout : BootSlotLayout} {image : BootSlotImage}
    (h : initializeCandidate build layout image s = some m) :
    s.bsp.configured = true ∧ s.bsp.ready = false ∧ s.bsp.blank = true ∧ layout = s.bsp.layout ∧
      bsImageValid image (layout.slots 0).payloadCapacitySectors = true ∧ m = initialManager layout image := by
  unfold initializeCandidate at h
  split at h
  · cases h
  · rename_i hguard
    simp only [Bool.or_eq_true, Bool.not_eq_true', decide_eq_true_eq, not_or, not_not, Bool.not_eq_false,
      Bool.not_eq_true] at hguard
    obtain ⟨⟨⟨⟨⟨⟨⟨-, -⟩, hconf⟩, hready⟩, hblank⟩, -⟩, hlayout⟩, himage⟩ := hguard
    exact ⟨hconf, hready, hblank, hlayout, himage, (Option.some.inj h).symm⟩

end

section
variable {st : BootStore} {m : BootSlotManager} {slot : BitVec 32} {image : BootSlotImage}

theorem authorizeCandidate_cases {expected : BootSlotSnapshot} (h : authorizeCandidate expected slot image st = some m) :
    bootSlotPersistenceReady st.slots = true ∧ slot < 2#32 ∧ slot ≠ st.slots.bsm.confirmedSlot ∧
      st.slots.bsm.pendingSlot = bootSlotNone ∧ bsImageValid image (st.slots.bsm.slot slot).payloadCapacitySectors = true ∧
      st.slots.bsp.generation ≤ BitVec.allOnes 64 - 3#64 ∧
      st.slots.bsp.authorityEpoch = st.binding.epoch ∧ st.slots.bsp.leaseEpoch = st.binding.leaseEpoch ∧
      m = staged st.slots.bsm slot image .failed st.slots.bsm.confirmedSlot := by
  unfold authorizeCandidate at h
  simp only at h
  split at h
  · cases h
  · rename_i hguard
    simp only [ge_iff_le, gt_iff_lt, Bool.or_eq_true, Bool.not_eq_true', decide_eq_true_eq, not_or, not_not,
      Bool.not_eq_false, BitVec.not_le, BitVec.not_lt] at hguard
    obtain ⟨⟨⟨⟨⟨⟨⟨⟨⟨⟨⟨⟨⟨⟨⟨⟨⟨⟨⟨hready, -⟩, -⟩, -⟩, -⟩, hauth⟩, hepoch⟩, hlease⟩, hlease'⟩, -⟩, -⟩, hslot⟩, -⟩,
      hne⟩, hpend⟩, -⟩, -⟩, -⟩, himage⟩, hgen⟩ := hguard
    exact ⟨hready, hslot, hne, hpend, himage, hgen, hauth.symm.trans hepoch, hlease.symm.trans hlease',
      (Option.some.inj h).symm⟩

theorem publishCandidate_cases {a : StageAuthorization} (h : publishCandidate a image st = some m) :
    bootSlotPersistenceReady st.slots = true ∧ a.slot < 2#32 ∧ (st.slots.bsm.slot a.slot).state = .failed ∧
      (st.slots.bsm.slot a.slot).version = image.version ∧ (st.slots.bsm.slot a.slot).payloadSize = image.payloadSize ∧
      (st.slots.bsm.slot a.slot).payloadSha256 = image.payloadSha256 ∧ st.slots.bsp.generation ≠ BitVec.allOnes 64 ∧
      m = staged st.slots.bsm a.slot image .valid a.slot := by
  unfold publishCandidate at h
  simp only at h
  split at h
  · cases h
  · rename_i hguard
    simp only [ge_iff_le, Bool.or_eq_true, Bool.not_eq_true', decide_eq_true_eq, not_or, not_not,
      Bool.not_eq_false, BitVec.not_le] at hguard
    obtain ⟨⟨⟨⟨⟨⟨⟨⟨⟨⟨⟨⟨⟨-, hready⟩, hslot⟩, -⟩, -⟩, -⟩, -⟩, -⟩, -⟩, hver⟩, hstate⟩, hsize⟩, hsha⟩, hgen⟩ := hguard
    exact ⟨hready, hslot, hstate, hver, hsize, hsha, hgen, (Option.some.inj h).symm⟩

end

section
variable {layout : BootSlotLayout} {build : Build} {s : SlotSession} {m : BootSlotManager}
  {slot : BitVec 32} {image : BootSlotImage}

theorem Kept.committed (h : Kept layout s) (hr : bootSlotPersistenceReady s.st.slots = true) :
    Committed layout s.disk s.st.slots.bsp.activeCopy s.st.slots.bsm s.st.slots.bsp.generation := by
  obtain ⟨-, -, hconf, hready⟩ := persistenceReady_iff.mp hr
  exact (h.ready hconf hready).2

theorem ManagerSound.settled (h : ManagerSound layout m) (hp : m.pendingSlot = bootSlotNone) : Settled m := by
  rcases h.cases with hs | ht
  · exact hs
  · exact absurd hp (below_none ht.pending)

theorem ManagerSound.onTrial (h : ManagerSound layout m) (hp : m.pendingSlot ≠ bootSlotNone) : OnTrial m := by
  rcases h.cases with hs | ht
  · exact absurd hs.pending hp
  · exact ht

theorem arm_sound (h : Kept layout s) {g : BitVec 64} (hc : armCandidate slot g s.st.slots = some m) :
    bootSlotPersistenceReady s.st.slots = true ∧ ManagerSound layout m := by
  obtain ⟨hr, hslot, hpend, hne, hstate, rfl⟩ := armCandidate_cases hc
  have hm := (h.committed hr).sound
  refine ⟨hr, armed_sound hm (hm.settled hpend) hslot hne ?_⟩
  rw [hstate]
  exact fun he => nomatch he

theorem activate_sound (h : Kept layout s) (hc : activateCandidate build slot s.st.slots = some m) :
    s.st.slots.bsp.configured = false ∨ (bootSlotPersistenceReady s.st.slots = true ∧ ManagerSound layout m) := by
  rcases activateCandidate_cases hc with hconf | ⟨hr, hslot, hpend, hne, hstate, rfl⟩
  · exact .inl hconf
  · have hm := (h.committed hr).sound
    refine .inr ⟨hr, armed_sound hm (hm.settled hpend) hslot hne fun he => ?_⟩
    rw [he] at hstate
    rcases hstate with hv | ha
    · exact nomatch hv
    · exact nomatch ha

theorem selectCandidate_cases (h : OnTrial m) :
    (0#32 < m.triesRemaining ∧ selectCandidate m = some (spent m, m.pendingSlot, 1)) ∨
      (m.triesRemaining = 0#32 ∧ selectCandidate m = some (rolledBack m, m.confirmedSlot, 2)) := by
  unfold selectCandidate
  by_cases ht : m.triesRemaining > 0#32
  · exact .inl ⟨ht, if_pos ht⟩
  · refine .inr ⟨by bv_omega, ?_⟩
    rw [if_neg ht, applyRollback_eq h]
    rfl

theorem select_sound (h : Kept layout s) (hr : bootSlotPersistenceReady s.st.slots = true)
    (hp : s.st.slots.bsm.pendingSlot ≠ bootSlotNone) {i : BitVec 32} {rc : Int}
    (hc : selectCandidate s.st.slots.bsm = some (m, i, rc)) : ManagerSound layout m := by
  have hm := (h.committed hr).sound
  have ht := hm.onTrial hp
  rcases selectCandidate_cases ht with ⟨htries, he⟩ | ⟨-, he⟩
  · rw [he] at hc
    cases hc
    exact spent_sound hm ht htries
  · rw [he] at hc
    cases hc
    exact rolledBack_sound hm ht

theorem confirm_sound (h : Kept layout s) {g a l : BitVec 64} (hc : confirmCandidate slot g a l s.st.slots = some m) :
    bootSlotPersistenceReady s.st.slots = true ∧ ManagerSound layout m := by
  obtain ⟨hr, hslot, rfl, -, rfl⟩ := confirmCandidate_cases hc
  have hm := (h.committed hr).sound
  exact ⟨hr, confirmed_sound hm (hm.onTrial (below_none hslot))⟩

theorem rollback_sound (h : Kept layout s) (hc : rollbackCandidate build s.st.slots = some m) :
    s.st.slots.bsp.configured = false ∨ (bootSlotPersistenceReady s.st.slots = true ∧ ManagerSound layout m) := by
  rcases rollbackCandidate_cases hc with hconf | ⟨hr, hroll, happly⟩
  · exact .inl hconf
  · have hm := (h.committed hr).sound
    rcases hm.cases with hs | ht
    · exact absurd hs.rollback hroll
    · rw [applyRollback_eq ht] at happly
      cases happly
      exact .inr ⟨hr, rolledBack_sound hm ht⟩

theorem authorize_sound (h : Kept layout s) {expected : BootSlotSnapshot}
    (hc : authorizeCandidate expected slot image s.st = some m) :
    bootSlotPersistenceReady s.st.slots = true ∧ ManagerSound layout m := by
  obtain ⟨hr, hslot, hne, hpend, himage, -, -, -, rfl⟩ := authorizeCandidate_cases hc
  have hm := (h.committed hr).sound
  exact ⟨hr, staged_sound hm (hm.settled hpend) hslot hne himage (.inl rfl) (.inl rfl)⟩

/-- The image of a failed slot fits there, so it may be published. -/
theorem publish_sound (h : Kept layout s) {a : StageAuthorization} (hc : publishCandidate a image s.st = some m) :
    bootSlotPersistenceReady s.st.slots = true ∧ ManagerSound layout m := by
  obtain ⟨hr, hslot, hstate, hver, hsize, hsha, -, rfl⟩ := publishCandidate_cases hc
  have hm := (h.committed hr).sound
  have hfailed : ∀ i, (s.st.slots.bsm.slot i).state = .active → a.slot ≠ i := by
    rintro i hi rfl
    exact nomatch hstate.symm.trans hi
  have himage : bsImageValid image (s.st.slots.bsm.slot a.slot).payloadCapacitySectors = true := by
    obtain ⟨-, -, -, hid⟩ := (hm.placed.slotSound a.slot).identity
    have hfull : (s.st.slots.bsm.slot a.slot).state ≠ .empty := by
      rw [hstate]
      exact fun he => nomatch he
    rw [if_neg hfull, hver, hsize, hsha] at hid
    simp only [bsImageValid, Bool.and_eq_true, decide_eq_true_eq]
    exact ⟨⟨⟨hid.1, hid.2.1⟩, hid.2.2.1⟩, hid.2.2.2⟩
  rcases hm.cases with hs | ht
  · exact ⟨hr, staged_sound hm hs hslot (hfailed _ hs.state) himage (.inr rfl) (.inr ⟨rfl, rfl⟩)⟩
  · -- on trial no slot has failed
    exfalso
    rcases eq_or_ne a.slot s.st.slots.bsm.pendingSlot with he | hne
    · exact hfailed _ ht.state he
    · have hother := (other_slot ht.pending hslot (Ne.symm hne)).symm.trans
        (other_slot ht.pending ht.confirmed ht.apart)
      rw [hother, ht.fallback] at hstate
      cases hstate

end

variable {layout : BootSlotLayout} {build : Build} {sha256 : List Byte → Chars bootSlotSha256Size}
  {s : SlotSession} {D : BitVec 32 → Prop} {P : BootSlotManager → Prop}

theorem Kept.powered (h : Kept layout s) {st : BootStore} {disk : BitVec 32 → Bytes} (hst : PoweredOn layout st)
    (hdisk : ControlErased layout disk ∨ ∃ c m g, Committed layout disk c m g) : Kept layout ⟨st, disk⟩ := by
  have hno : st.slots.bsp.configured ≠ true := by
    rw [hst.configured]
    decide
  exact ⟨h.plan, hst.registered, hst.objects, hdisk, fun hb => absurd hb hno, fun hb => absurd hb hno,
    fun hb => absurd hb hno⟩

theorem Kept.storeIo_layout (h : Kept layout s) {store : Nat} {lease : BitVec 64} {io : StoreIo}
    (hio : storeIoGet s.st store lease = some io) : io.layout = layout := by
  unfold storeIoGet at hio
  simp only at hio
  split at hio
  · split at hio
    · cases hio
    · cases hio
      exact h.registered
  · split at hio
    · cases hio
      exact h.objects store
    · cases hio

theorem controlIo_read {b : StoreBinding} (hactive : b.active = true) (hlayout : b.layout = layout)
    (w : Medium) (c : Fin 2) : (storeControlIo (fun _ => mediumIo) b).read c w = ((0, w.disk (layout.controlLba c)), w) := by
  simp only [storeControlIo, hactive, hlayout]
  rfl

theorem setPersistence_cases {W : Type} {io : PersistIo W} {slots : BootSlots} {disk : BitVec 32 → Bytes} {w : W}
    (hplan : bootSlotLayoutPlan layout.bootSectors = some layout)
    (hread : ∀ c, io.read c w = ((0, disk (layout.controlLba c)), w))
    (hdisk : ControlErased layout disk ∨ ∃ c m g, Committed layout disk c m g) : (∃ rc, rc ≠ 0 ∧ rc ≠ bootSlotPersistEmpty ∧
      bootSlotSetPersistence io build layout slots w = (rc, slots, w)) ∨
    (ControlErased layout disk ∧ bootSlotSetPersistence io build layout slots w = (bootSlotPersistEmpty,
      { binding layout slots with bsp := { (binding layout slots).bsp with blank := true }, phase := .boundEmpty }, w)) ∨
    (∃ c m g degraded, Committed layout disk c m g ∧ bootSlotSetPersistence io build layout slots w = (0,
      { (binding layout slots).adopt m c g with
        bsp := { ((binding layout slots).adopt m c g).bsp with degraded := degraded, ready := true }
        phase := .boundReady }, w)) := by
  cases hclaim : slots.bsp.stageClaimed with
  | true =>
    refine .inl ⟨bootSlotErrBusy, by decide, by decide, ?_⟩
    rw [bootSlotSetPersistence, hclaim]
    rfl
  | false =>
    cases hbind : bootSlotBindAllowed build slots with
    | false =>
      refine .inl ⟨bootSlotErrIo, by decide, by decide, ?_⟩
      rw [bootSlotSetPersistence, hclaim, hbind]
      rfl
    | true =>
      rcases hdisk with he | ⟨c, m, g, hc⟩
      · exact .inr (.inl ⟨he, setPersistence_erased hplan hread hclaim hbind he⟩)
      · obtain ⟨d, hr⟩ := setPersistence_committed hread hclaim hbind hc
        exact .inr (.inr ⟨c, m, g, d, hc, hr⟩)

theorem bind_step (h : Kept layout s) (store : Nat) (lease : BitVec 64) : StepOk layout D P s
      ((bootSlotStoreBindControl (fun _ => mediumIo) build store lease s.st ⟨s.disk, []⟩).1 = 0)
      (bootSlotStoreBindControl (fun _ => mediumIo) build store lease s.st ⟨s.disk, []⟩).2 := by
  have hbusy : bootSlotStoreErrBusy ≠ 0 := by decide
  have hempty : bootSlotPersistEmpty ≠ 0 := by decide
  unfold bootSlotStoreBindControl
  cases hio : storeIoGet s.st store lease with
  | none => exact StepOk.refused h hbusy
  | some io =>
    have hl := h.storeIo_layout hio
    simp only
    split
    · exact StepOk.refused h hbusy
    · rename_i hguard
      have hconf : s.st.slots.bsp.configured = false := by
        simp only [not_or, Bool.not_eq_true] at hguard
        exact hguard.1
      have hconf' : (if s.st.slots.initialized then s.st.slots else
          bootSlotInitLocked s.st.slots).bsp.configured = false := by
        unfold bootSlotInitLocked
        split
        · exact hconf
        · split
          · exact hconf
          · rfl
      rw [hl]
      have hread := @controlIo_read layout
        ⟨some store, layout, io.io, s.st.nextEpoch, io.leaseEpoch, io.providerBacked, true⟩ rfl rfl ⟨s.disk, []⟩
      rcases @setPersistence_cases layout build Medium _
          (if s.st.slots.initialized then s.st.slots else bootSlotInitLocked s.st.slots) s.disk ⟨s.disk, []⟩
          h.plan hread h.disk with ⟨rc, h0, he, hr⟩ | ⟨he, hr⟩ | ⟨c, m, g, d, hc, hr⟩
      · rw [hr]
        simp only [h0, he, or_self, if_false]
        exact StepOk.quiet (h.unbound rfl rfl hconf') fun hok => hok.elim
      · rw [hr]
        refine StepOk.quiet ⟨h.plan, h.registered, h.objects, h.disk, fun _ => ⟨rfl, rfl⟩, ?_,
          fun _ _ => ⟨rfl, he⟩⟩ fun hok => ?_
        · exact fun _ hready => nomatch hready
        · exact absurd hok hempty
      · rw [hr]
        refine StepOk.quiet ⟨h.plan, h.registered, h.objects, h.disk, fun _ => ⟨rfl, rfl⟩, fun _ _ => ⟨rfl, hc⟩,
          ?_⟩ fun _ _ => rfl
        exact fun _ hblank => nomatch hblank

/-- A function of the slot layer on the bound control copies. -/
theorem onSlots_step {f : PersistIo Medium → BootSlots → Medium → Int × BootSlots × Medium} {r : Int × BootSlots × Medium}
    (hr : f (storeControlIo (fun _ => mediumIo) s.st.binding) s.st.slots ⟨s.disk, []⟩ = r)
    (h : StepOk layout D P s (r.1 = 0) ({ s.st with slots := r.2.1 }, r.2.2)) :
    StepOk layout D P s ((onSlots f s.st ⟨s.disk, []⟩).1.rc = 0) (onSlots f s.st ⟨s.disk, []⟩).2 := by
  subst hr
  exact h

theorem initialize_step (h : Kept layout s) {l : BootSlotLayout} {image : BootSlotImage}
    (hP : ∀ m, initializeCandidate build l image s.st.slots = some m → s.st.slots.bsp.configured = true → P m) :
    StepOk layout D P s ((onSlots (fun io => bootSlotInitializePersistent io build l image) s.st ⟨s.disk, []⟩).1.rc = 0)
      (onSlots (fun io => bootSlotInitializePersistent io build l image) s.st ⟨s.disk, []⟩).2 := by
  have hio : bootSlotErrIo ≠ 0 := by decide
  have h1 : (1#64 : BitVec 64) ≠ 0#64 := by decide
  have h2 : (2#64 : BitVec 64) ≠ 0#64 := by decide
  cases hc : initializeCandidate build l image s.st.slots with
  | none =>
    refine @onSlots_step _ _ _ _ _ (bootSlotErrIo, s.st.slots, ⟨s.disk, []⟩) ?_ (StepOk.refused h hio)
    simp only [bootSlotInitializePersistent, hc]
  | some m =>
    obtain ⟨hconf, -, hblank, hl, himage, hm⟩ := initializeCandidate_cases hc
    rw [(h.bound hconf).1] at hl
    subst hl
    obtain ⟨hactive, herased⟩ := h.blank hconf hblank
    obtain ⟨hsound, hset, hempty⟩ := initialManager_sound h.plan himage
    rw [← hm] at hsound hset hempty
    have hfirst := erased_write herased hsound hset hempty h1
    have hnext := hfirst.write hsound (show (1#64 : BitVec 64).toNat < (2#64 : BitVec 64).toNat by decide)
    refine onSlots_step (by
      simp only [bootSlotInitializePersistent, hc, hconf, writeVerified_medium hactive (h.bound hconf).2 hsound h1,
        writeVerified_medium hactive (h.bound hconf).2 hsound h2, ne_eq, not_true_eq_false, if_false]
      rfl) ?_
    refine ⟨⟨h.plan, h.registered, h.objects, .inr ⟨_, _, _, hnext⟩, fun _ => h.bound hconf,
      fun _ _ => ⟨hactive, hnext⟩, fun _ hb => nomatch hb⟩, ?_, rfl, fun hno => absurd rfl hno, fun _ _ => rfl⟩
    exact .first herased hsound hset hempty (hP m hc hconf)
      (.next hfirst hsound (hP m hc hconf) (by decide) .nil)

theorem candidate_step (h : Kept layout s) {cand : Option BootSlotManager}
    (hcand : ∀ m, cand = some m → s.st.slots.bsp.configured = false ∨
      (bootSlotPersistenceReady s.st.slots = true ∧ ManagerSound layout m))
    (hP : ∀ m, cand = some m → s.st.slots.bsp.configured = true → P m) {r : Int × BootSlots × Medium}
    (hnone : cand = none → r = (bootSlotErrIo, s.st.slots, ⟨s.disk, []⟩)) (hsome : ∀ m, cand = some m →
      r = bsCommitLocked (storeControlIo (fun _ => mediumIo) s.st.binding) m s.st.slots ⟨s.disk, []⟩) :
    StepOk layout D P s (r.1 = 0) ({ s.st with slots := r.2.1 }, r.2.2) := by
  have hio : bootSlotErrIo ≠ 0 := by decide
  cases cand with
  | none =>
    rw [hnone rfl]
    exact StepOk.refused h hio
  | some m =>
    rw [hsome m rfl]
    refine commit_step h (fun hready => ?_) ?_ (hP m rfl)
    · obtain ⟨-, -, hconf, -⟩ := persistenceReady_iff.mp hready
      rcases hcand m rfl with hno | ⟨-, hm⟩
      · exact nomatch hno.symm.trans hconf
      · exact hm
    · rcases hcand m rfl with hno | ⟨hready, -⟩
      · exact .inr hno
      · exact .inl hready

theorem activate_step (h : Kept layout s) (slot : BitVec 32)
    (hP : ∀ m, activateCandidate build slot s.st.slots = some m → s.st.slots.bsp.configured = true → P m) : StepOk layout D P s
      ((onSlots (fun io => bootSlotActivate io build slot) s.st ⟨s.disk, []⟩).1.rc = 0)
      (onSlots (fun io => bootSlotActivate io build slot) s.st ⟨s.disk, []⟩).2 := by
  refine onSlots_step rfl (candidate_step h (fun _ hc => activate_sound h hc) hP (fun hc => ?_) fun m hc => ?_)
  · simp only [bootSlotActivate, hc]
  · simp only [bootSlotActivate, hc]

theorem confirm_step (h : Kept layout s) (slot : BitVec 32) (g a l : BitVec 64)
    (hP : ∀ m, confirmCandidate slot g a l s.st.slots = some m → s.st.slots.bsp.configured = true → P m) : StepOk layout D P s
      ((onSlots (fun io => bootSlotConfirmVerified io slot g a l) s.st ⟨s.disk, []⟩).1.rc = 0)
      (onSlots (fun io => bootSlotConfirmVerified io slot g a l) s.st ⟨s.disk, []⟩).2 := by
  refine onSlots_step rfl (candidate_step h (fun _ hc => .inr (confirm_sound h hc)) hP (fun hc => ?_) fun m hc => ?_)
  · simp only [bootSlotConfirmVerified, hc]
  · simp only [bootSlotConfirmVerified, hc]

theorem rollback_step (h : Kept layout s) (hP : ∀ m, rollbackCandidate build s.st.slots = some m → s.st.slots.bsp.configured = true → P m) :
    StepOk layout D P s ((onSlots (fun io => bootSlotRollback io build) s.st ⟨s.disk, []⟩).1.rc = 0)
      (onSlots (fun io => bootSlotRollback io build) s.st ⟨s.disk, []⟩).2 := by
  refine onSlots_step rfl (candidate_step h (fun _ hc => rollback_sound h hc) hP (fun hc => ?_) fun m hc => ?_)
  · simp only [bootSlotRollback, hc]
  · simp only [bootSlotRollback, hc]

theorem arm_step (h : Kept layout s) (slot : BitVec 32) (g : BitVec 64)
    (hP : ∀ m, armCandidate slot g s.st.slots = some m → s.st.slots.bsp.configured = true → P m) {r : (Int × BitVec 64) × BootSlots × Medium}
    (hr : bootSlotArmProvider (storeControlIo (fun _ => mediumIo) s.st.binding) slot g s.st.slots ⟨s.disk, []⟩ = r) :
    StepOk layout D P s (r.1.1 = 0) ({ s.st with slots := r.2.1 }, r.2.2) := by
  have hio : bootSlotErrIo ≠ 0 := by decide
  subst hr
  unfold bootSlotArmProvider
  cases hc : armCandidate slot g s.st.slots with
  | none => exact StepOk.refused h hio
  | some m =>
    have hstep := @commit_step layout D P s h m (fun _ => (arm_sound h hc).2) (.inl (arm_sound h hc).1) (hP m hc)
    simp only
    split
    · rename_i hne
      refine ⟨hstep.kept, hstep.writes, hstep.disk, fun _ => hstep.silent hne, fun hok => ?_⟩
      simp only at hok
      split at hok
      · exact absurd hok (by decide)
      · exact absurd hok (by decide)
    · rename_i heq
      simp only [ne_eq, not_not] at heq
      exact ⟨hstep.kept, hstep.writes, hstep.disk, fun hno => absurd rfl hno, fun _ => hstep.ready heq⟩

theorem select_step (h : Kept layout s)
    (hP : bootSlotPersistenceReady s.st.slots = true → s.st.slots.bsm.pendingSlot ≠ bootSlotNone →
      ∀ m i rc, selectCandidate s.st.slots.bsm = some (m, i, rc) → s.st.slots.bsp.configured = true → P m)
    {r : (Int × BitVec 32 × BitVec 64) × BootSlots × Medium}
    (hr : bootSlotSelect (storeControlIo (fun _ => mediumIo) s.st.binding) s.st.slots ⟨s.disk, []⟩ = r) :
    StepOk layout D P s (0 ≤ r.1.1) ({ s.st with slots := r.2.1 }, r.2.2) := by
  have hio : ¬ 0 ≤ bootSlotErrIo := by decide
  subst hr
  unfold bootSlotSelect
  split
  · exact StepOk.refused h hio
  · rename_i hready
    simp only [Bool.not_eq_true', Bool.not_eq_false] at hready
    obtain ⟨-, -, -, hr⟩ := persistenceReady_iff.mp hready
    split
    · exact StepOk.quiet h fun _ _ => hr
    · rename_i hpend
      cases hc : selectCandidate s.st.slots.bsm with
      | none => exact StepOk.refused h hio
      | some c =>
        obtain ⟨m, i, result⟩ := c
        have hstep := @commit_step layout D P s h m (fun _ => select_sound h hready hpend hc) (.inl hready)
          (hP hready hpend m i result hc)
        have hneg := commit_medium h (fun _ => select_sound h hready hpend hc) (.inl hready)
        simp only
        split
        · rename_i hne
          refine ⟨hstep.kept, hstep.writes, hstep.disk, fun _ => hstep.silent hne, fun hok => ?_⟩
          rcases hneg with ⟨rc, hlt, he⟩ | ⟨-, he⟩ | ⟨-, -, he⟩
          · rw [he] at hok
            exact absurd hlt (Int.not_lt.mpr hok)
          · exact absurd (congrArg Prod.fst he) hne
          · exact absurd (congrArg Prod.fst he) hne
        · rename_i heq
          simp only [ne_eq, not_not] at heq
          refine ⟨hstep.kept, hstep.writes, hstep.disk, fun hno => ?_, fun _ => hstep.ready heq⟩
          refine absurd ?_ hno
          unfold selectCandidate at hc
          split at hc
          · cases hc
            exact Int.zero_le_ofNat 1
          · obtain ⟨c, -, he⟩ := Option.map_eq_some_iff.mp hc
            cases he
            exact Int.zero_le_ofNat 2

end CapyOS.Proofs
