import CapyOS.Proofs.SlotOps

namespace CapyOS.Proofs
open Lib Function
variable {expected : BootSlotSnapshot} {disk : BitVec 32 → Bytes} {st : BootStore}

section
variable {layout : BootSlotLayout} {s : SlotSession} {m : BootSlotManager} {slot : BitVec 32}
  {image : BootSlotImage}

theorem Kept.claim (h : Kept layout ⟨st, disk⟩) (claimed : Bool) :
    Kept layout ⟨st.claim claimed, disk⟩ :=
  { h with }

def authorizedDisk (layout : BootSlotLayout) (bsp : BootSlotPersistence) (m : BootSlotManager)
    (disk : BitVec 32 → Bytes) : BitVec 32 → Bytes :=
  update
    (update disk (layout.controlLba (1 - bsp.activeCopy)) (bsRecordEncode m (bsp.generation + 1#64)))
    (layout.controlLba bsp.activeCopy) (bsRecordEncode m (bsp.generation + 2#64))

def authorizeWrites (layout : BootSlotLayout) (bsp : BootSlotPersistence) (m : BootSlotManager) :
    List (BitVec 32 × Bytes) :=
  [(layout.controlLba (1 - bsp.activeCopy), bsRecordEncode m (bsp.generation + 1#64)),
    (layout.controlLba bsp.activeCopy, bsRecordEncode m (bsp.generation + 2#64))]

def authorizedStore (st : BootStore) (m : BootSlotManager) : BootStore :=
  let slots := st.slots.adopt m st.slots.bsp.activeCopy (st.slots.bsp.generation + 2#64)
  { st with slots := slots }.claim true

def publishedStore (st : BootStore) (m : BootSlotManager) : BootStore :=
  let slots := st.slots.adopt m (otherCopy st.slots.bsp.activeCopy) (st.slots.bsp.generation + 1#64)
  { st with slots := slots }.claim false

theorem authorize_generation {g : BitVec 64} (hg : g ≤ BitVec.allOnes 64 - 3#64) :
    g ≠ BitVec.allOnes 64 ∧ g + 1#64 ≠ BitVec.allOnes 64 ∧ g + 2#64 ≠ BitVec.allOnes 64 ∧
      g + 1#64 ≠ 0#64 ∧ g + 2#64 ≠ 0#64 ∧ g + 2#64 = g + 1#64 + 1#64 := by
  have ha : (BitVec.allOnes 64 : BitVec 64) = 18446744073709551615#64 := by decide
  rw [ha] at hg ⊢
  refine ⟨?_, ?_, ?_, ?_, ?_, ?_⟩ <;> bv_omega

theorem authorize_refused {w : Medium}
    (hc : authorizeCandidate expected slot image st = none) : storeStageAuthorize (fun _ => mediumIo) expected slot image st w =
      (.error bootSlotStoreErrStale, st, w) := by
  unfold storeStageAuthorize
  rw [hc]

theorem authorize_busy {w : Medium}
    (hc : authorizeCandidate expected slot image st = some m) (hclaim : st.slots.bsp.stageClaimed = true) :
    storeStageAuthorize (fun _ => mediumIo) expected slot image st w = (.error bootSlotStoreErrBusy, st, w) := by
  unfold storeStageAuthorize
  rw [hc]
  exact if_pos hclaim

theorem authorize_medium (h : Kept layout s)
    (hc : authorizeCandidate expected slot image s.st = some m) (hclaim : s.st.slots.bsp.stageClaimed = false) :
    storeStageAuthorize (fun _ => mediumIo) expected slot image s.st ⟨s.disk, []⟩ =
      (.ok ⟨s.st.slots.bsp.generation + 2#64, s.st.slots.bsp.authorityEpoch, s.st.slots.bsp.leaseEpoch, slot⟩,
        authorizedStore s.st m, ⟨authorizedDisk layout s.st.slots.bsp m s.disk, authorizeWrites layout s.st.slots.bsp m⟩) := by
  obtain ⟨hready, hm⟩ := authorize_sound h hc
  obtain ⟨-, -, hconf, hr⟩ := persistenceReady_iff.mp hready
  obtain ⟨-, -, -, -, -, hgen, -⟩ := authorizeCandidate_cases hc
  obtain ⟨-, -, -, h1, h2, -⟩ := authorize_generation hgen
  have hactive := (h.ready hconf hr).1
  have hl := (h.bound hconf).2
  unfold storeStageAuthorize
  simp only [hc, hclaim, hconf, writeVerified_medium hactive hl hm h1, writeVerified_medium hactive hl hm h2,
    if_true, ne_eq, not_true_eq_false, if_false, Bool.false_eq_true]
  rfl

theorem Kept.authorized (h : Kept layout s)
    (hc : authorizeCandidate expected slot image s.st = some m) :
    Kept layout ⟨authorizedStore s.st m, authorizedDisk layout s.st.slots.bsp m s.disk⟩ := by
  obtain ⟨hready, hm⟩ := authorize_sound h hc
  obtain ⟨-, -, hconf, hr⟩ := persistenceReady_iff.mp hready
  obtain ⟨-, -, -, -, -, hgen, -⟩ := authorizeCandidate_cases hc
  obtain ⟨hg0, hg1, -, -, -, htwo⟩ := authorize_generation hgen
  obtain ⟨hactive, hcom⟩ := h.ready hconf hr
  have hnew := (hcom.write hm (next_generation hg0)).write hm (next_generation hg1)
  rw [other_other, ← htwo] at hnew
  exact ⟨h.plan, h.registered, h.objects, .inr ⟨_, _, _, hnew⟩, h.bound, fun _ _ => ⟨hactive, hnew⟩,
    fun _ hblank => absurd (h.blank hconf hblank).2 hcom.not_erased⟩

theorem authorize_writes (h : Kept layout s) {expected : BootSlotSnapshot} {D : BitVec 32 → Prop} {P : BootSlotManager → Prop}
    (hc : authorizeCandidate expected slot image s.st = some m) (hP : P m) {ws : List (BitVec 32 × Bytes)}
    (hws : ControlWrites layout D P (authorizedDisk layout s.st.slots.bsp m s.disk) ws) :
    ControlWrites layout D P s.disk (authorizeWrites layout s.st.slots.bsp m ++ ws) := by
  obtain ⟨hready, hm⟩ := authorize_sound h hc
  obtain ⟨-, -, hconf, hr⟩ := persistenceReady_iff.mp hready
  obtain ⟨-, -, -, -, -, hgen, -⟩ := authorizeCandidate_cases hc
  obtain ⟨hg0, hg1, -, -, -, htwo⟩ := authorize_generation hgen
  have hcom := (h.ready hconf hr).2
  refine .next hcom hm hP hg0 ?_
  have hsecond := hcom.write hm (next_generation hg0)
  have hnext := @ControlWrites.next layout D P _ _ m m _ ws hsecond hm hP hg1
  rw [other_other, ← htwo] at hnext
  exact hnext hws

theorem publish_medium (h : Kept layout s) {a : StageAuthorization} (hc : publishCandidate a image s.st = some m) (w : Medium) :
    storeStagePublish (fun _ => mediumIo) a image s.st w = ((0, s.st.slots.bsp.generation + 1#64), publishedStore s.st m,
        ⟨update w.disk (layout.controlLba (1 - s.st.slots.bsp.activeCopy))
          (bsRecordEncode m (s.st.slots.bsp.generation + 1#64)), w.log ++ [(layout.controlLba (1 - s.st.slots.bsp.activeCopy),
          bsRecordEncode m (s.st.slots.bsp.generation + 1#64))]⟩) := by
  obtain ⟨hready, hm⟩ := publish_sound h hc
  obtain ⟨-, -, hconf, hr⟩ := persistenceReady_iff.mp hready
  obtain ⟨-, -, -, -, -, -, hgen, -⟩ := publishCandidate_cases hc
  have h1 : s.st.slots.bsp.generation + 1#64 ≠ 0#64 := by
    have hlt := next_generation hgen
    intro he
    rw [he] at hlt
    exact Nat.not_lt_zero _ hlt
  unfold storeStagePublish
  simp only [hc, hconf, writeVerified_medium (h.ready hconf hr).1 (h.bound hconf).2 hm h1, ne_eq, not_true_eq_false, if_false]
  rfl

theorem Kept.published (h : Kept layout s) {a : StageAuthorization} (hc : publishCandidate a image s.st = some m) :
    Kept layout ⟨publishedStore s.st m, update s.disk (layout.controlLba (1 - s.st.slots.bsp.activeCopy))
        (bsRecordEncode m (s.st.slots.bsp.generation + 1#64))⟩ := by
  obtain ⟨hready, hm⟩ := publish_sound h hc
  obtain ⟨-, -, -, -, -, -, hgen, -⟩ := publishCandidate_cases hc
  have hk := h.commit hm hready hgen
  exact { hk with }

theorem Kept.congr (h : Kept layout s)
    (hsame : ∀ c, disk (layout.controlLba c) = s.disk (layout.controlLba c)) : Kept layout ⟨s.st, disk⟩ := by
  refine ⟨h.plan, h.registered, h.objects, ?_, h.bound, ?_, ?_⟩
  · rcases h.disk with he | ⟨c, m, g, hc⟩
    · exact .inl (erased_congr he hsame)
    · exact .inr ⟨c, m, g, hc.congr hsame⟩
  · intro hconf hready
    exact ⟨(h.ready hconf hready).1, (h.ready hconf hready).2.congr hsame⟩
  · intro hconf hblank
    exact ⟨(h.blank hconf hblank).1, erased_congr (h.blank hconf hblank).2 hsame⟩

end

section
variable {layout : BootSlotLayout} {s : SlotSession} {m : BootSlotManager} {slot : BitVec 32}
  {image : BootSlotImage} {D : BitVec 32 → Prop} {P : BootSlotManager → Prop}

theorem authorize_step (h : Kept layout s) (expected : BootSlotSnapshot)
    (hP : ∀ m, authorizeCandidate expected slot image s.st = some m → s.st.slots.bsp.configured = true → P m) {ok : Prop}
    (hok : ∀ rc, (storeStageAuthorize (fun _ => mediumIo) expected slot image s.st ⟨s.disk, []⟩).1 = .error rc → rc < 0 → ¬ ok)
    (hok' : ∀ a, (storeStageAuthorize (fun _ => mediumIo) expected slot image s.st ⟨s.disk, []⟩).1 = .ok a → ok) :
    StepOk layout D P s ok (storeStageAuthorize (fun _ => mediumIo) expected slot image s.st ⟨s.disk, []⟩).2 := by
  cases hc : authorizeCandidate expected slot image s.st with
  | none =>
    rw [authorize_refused hc] at hok ⊢
    exact StepOk.refused h (hok _ rfl (by decide))
  | some m =>
    cases hclaim : s.st.slots.bsp.stageClaimed with
    | true =>
      rw [authorize_busy hc hclaim] at hok ⊢
      exact StepOk.refused h (hok _ rfl (by decide))
    | false =>
      have hready := (authorize_sound h hc).1
      have hok := hok'
      rw [authorize_medium h hc hclaim] at hok ⊢
      refine ⟨h.authorized hc, ?_, rfl, fun hno => absurd (hok _ rfl) hno, fun _ _ => ?_⟩
      · have hws := @authorize_writes _ _ _ _ _ h _ D P hc (hP m hc (persistenceReady_iff.mp hready).2.2.1) [] .nil
        rw [List.append_nil] at hws
        exact hws
      · exact (persistenceReady_iff.mp hready).2.2.2

theorem publish_step (h : Kept layout s) (a : StageAuthorization)
    (hP : ∀ m, publishCandidate a image s.st = some m → s.st.slots.bsp.configured = true → P m) :
    StepOk layout D P s ((storeStagePublish (fun _ => mediumIo) a image s.st ⟨s.disk, []⟩).1.1 = 0)
      (storeStagePublish (fun _ => mediumIo) a image s.st ⟨s.disk, []⟩).2 := by
  have hstale : bootSlotStoreErrStale ≠ 0 := by decide
  cases hc : publishCandidate a image s.st with
  | none =>
    have hr : storeStagePublish (fun _ => mediumIo) a image s.st ⟨s.disk, []⟩ =
        ((bootSlotStoreErrStale, 0#64), s.st.claim false, ⟨s.disk, []⟩) := by
      unfold storeStagePublish
      rw [hc]
    rw [hr]
    exact StepOk.quiet (h.claim false) fun hok => absurd hok hstale
  | some m =>
    obtain ⟨hready, hm⟩ := publish_sound h hc
    obtain ⟨-, -, hconf, hr⟩ := persistenceReady_iff.mp hready
    obtain ⟨-, -, -, -, -, -, hgen, -⟩ := publishCandidate_cases hc
    rw [publish_medium h hc]
    exact ⟨h.published hc, .next (h.ready hconf hr).2 hm (hP m hc hconf) hgen .nil, rfl, fun hno => absurd rfl hno,
      fun _ _ => hr⟩

end

variable {layout : BootSlotLayout} {sha256 : List Byte → Chars bootSlotSha256Size} {s : SlotSession}
  {m : BootSlotManager} {slot : BitVec 32} {image : BootSlotImage} {payload : List Byte}
  {expected : BootSlotSnapshot} {D : BitVec 32 → Prop} {P : BootSlotManager → Prop}

theorem preflight_cases {b : StoreBinding} (h : storeStagePreflight sha256 b slot image payload = 0) :
    slot < 2#32 ∧ payload.length = image.payloadSize.toNat ∧
      storeImageValid image (b.layout.slots (slotIndex slot)).payloadCapacitySectors = true ∧
      sha256 payload = image.payloadSha256 := by
  unfold storeStagePreflight at h
  split at h
  · exact absurd h (by decide)
  · rename_i hguard
    simp only [Bool.not_eq_true', ge_iff_le, ne_eq, not_or, Bool.not_eq_false, BitVec.not_le, not_not] at hguard
    split at h
    · rename_i hsha
      exact ⟨hguard.2.1, hguard.2.2.1, hguard.2.2.2, hsha⟩
    · exact absurd h (by decide)

theorem storeVersion_copied {capacity : BitVec 32} (h : storeImageValid image capacity = true) :
    bsStrcpy image.version = image.version := by
  simp only [storeImageValid, storeVersionValid, bsStringFits, Bool.and_eq_true, decide_eq_true_eq] at h
  exact (bsStrcpy_eq_self h.1.1.1.1.2.2).mpr h.1.1.1.2

/-- The slot that was authorized, with the image that was authorized, is published. -/
theorem publishCandidate_authorized (h : Kept layout s) (hc : authorizeCandidate expected slot image s.st = some m)
    (hversion : bsStrcpy image.version = image.version) :
    publishCandidate ⟨s.st.slots.bsp.generation + 2#64, s.st.slots.bsp.authorityEpoch,
        s.st.slots.bsp.leaseEpoch, slot⟩ image (authorizedStore s.st m) = some (staged m slot image .valid slot) := by
  obtain ⟨hready, hslot, -, -, -, hgen, hepoch, hlease, hm⟩ := authorizeCandidate_cases hc
  obtain ⟨hphase, hinit, hconf, hr⟩ := persistenceReady_iff.mp hready
  obtain ⟨-, -, hg2, -⟩ := authorize_generation hgen
  have hnew : m.slot slot = bsSlotApplyImage (s.st.slots.bsm.slot slot) slot image .failed := by
    rw [hm]
    exact slot_setSlot_same _ _ _
  have hready' : bootSlotPersistenceReady (authorizedStore s.st m).slots = true :=
    persistenceReady_iff.mpr ⟨hphase, hinit, hconf, hr⟩
  have hlt : ¬ slot ≥ 2#32 := BitVec.not_le.mpr hslot
  have hactive := (h.ready hconf hr).1
  unfold publishCandidate
  simp only
  rw [if_neg]
  · rfl
  · rw [hready']
    simp only [authorizedStore, BootStore.claim, BootSlots.adopt, hnew, bsSlotApplyImage, hversion, hactive,
      hepoch, hlease, hlt, hg2]
    simp

def publishWrite (layout : BootSlotLayout) (bsp : BootSlotPersistence) (m : BootSlotManager) :
    BitVec 32 × Bytes :=
  (layout.controlLba (1 - bsp.activeCopy), bsRecordEncode m (bsp.generation + 2#64 + 1#64))

theorem stage_runs (h : Kept layout s) {store : Nat} {lease : BitVec 64} {io : StoreIo}
    (hio : storeIoGet s.st store lease = some io) (hbound : storeBindingMatchesIo s.st io store = true)
    (hepoch : expected.authorityEpoch = s.st.binding.epoch) (hlease : expected.leaseEpoch = lease)
    (hpre : storeStagePreflight sha256 s.st.binding slot image payload = 0)
    (hc : authorizeCandidate expected slot image s.st = some m) (hclaim : s.st.slots.bsp.stageClaimed = false) :
    bootSlotStoreStageInactiveAuthorized (fun _ => mediumIo) sha256 store lease expected slot image payload s.st ⟨s.disk, []⟩ =
      ((0, s.st.slots.bsp.generation + 2#64 + 1#64), publishedStore (authorizedStore s.st m) (staged m slot image .valid slot),
        ⟨applyWrites s.disk (authorizeWrites layout s.st.slots.bsp m ++ stageWrites layout slot image payload ++
            [publishWrite layout s.st.slots.bsp (staged m slot image .valid slot)]),
          authorizeWrites layout s.st.slots.bsp m ++ stageWrites layout slot image payload ++
            [publishWrite layout s.st.slots.bsp (staged m slot image .valid slot)]⟩) := by
  obtain ⟨hready, hslot, hne, hpend, himage, -, -, -, hm⟩ := authorizeCandidate_cases hc
  obtain ⟨-, -, hconf, hr⟩ := persistenceReady_iff.mp hready
  have hl := (h.bound hconf).2
  obtain ⟨-, hlen, hv, hsha⟩ := preflight_cases hpre
  have hset := (h.committed hready).sound.settled hpend
  have hkept := h.authorized hc
  have hstate : (m.slot slot).state = .failed := by
    rw [hm]
    exact congrArg BootSlot.state (slot_setSlot_same _ _ _)
  have hset' : Settled m := by
    rw [hm]
    exact staged_settled hset hslot hne (.inl rfl) (.inl rfl)
  have hsound : ManagerSound s.st.binding.layout m := by
    rw [hl]
    exact (authorize_sound h hc).2
  have hne' : slot ≠ m.confirmedSlot := by
    rw [hm]
    exact hne
  have hpayload := @stagePayload_medium sha256 slot image payload (authorizedStore s.st m).binding m
    (h.ready hconf hr).1 hsound hset' hslot hne' hstate hlen hv hsha
  have hpublish := publish_medium hkept (publishCandidate_authorized h hc (storeVersion_copied hv))
  have hguard : ¬ ((!storeBindingMatchesIo s.st io store) = true ∨ expected.authorityEpoch ≠ s.st.binding.epoch ∨
      expected.leaseEpoch ≠ lease) := by
    rw [hbound, hepoch, hlease]
    simp
  have hl' : (authorizedStore s.st m).binding.layout = layout := hl
  have hbsm : (authorizedStore s.st m).slots.bsm = m := rfl
  rw [hl'] at hpayload
  unfold bootSlotStoreStageInactiveAuthorized
  simp only [hio, if_neg hguard, hpre, ne_eq, not_true_eq_false, if_false, authorize_medium h hc hclaim, hbsm,
    hpayload, hpublish]
  rw [applyWrites_append, applyWrites_append]
  rfl

/-- A staging is refused before anything is written, or done. -/
theorem stage_cases (h : Kept layout s) (store : Nat) (lease : BitVec 64) (expected : BootSlotSnapshot)
    (slot : BitVec 32) (image : BootSlotImage) (payload : List Byte) :
    (∃ rc, rc ≠ 0 ∧ bootSlotStoreStageInactiveAuthorized (fun _ => mediumIo) sha256 store lease expected slot
      image payload s.st ⟨s.disk, []⟩ = ((rc, 0#64), s.st.claim false, ⟨s.disk, []⟩)) ∨
    (∃ m, storeStagePreflight sha256 s.st.binding slot image payload = 0 ∧
      authorizeCandidate expected slot image s.st = some m ∧
      bootSlotStoreStageInactiveAuthorized (fun _ => mediumIo) sha256 store lease expected slot image payload
        s.st ⟨s.disk, []⟩ = ((0, s.st.slots.bsp.generation + 2#64 + 1#64),
          publishedStore (authorizedStore s.st m) (staged m slot image .valid slot),
          ⟨applyWrites s.disk (authorizeWrites layout s.st.slots.bsp m ++ stageWrites layout slot image payload ++
              [publishWrite layout s.st.slots.bsp (staged m slot image .valid slot)]),
            authorizeWrites layout s.st.slots.bsp m ++ stageWrites layout slot image payload ++
              [publishWrite layout s.st.slots.bsp (staged m slot image .valid slot)]⟩)) := by
  have hstale : bootSlotStoreErrStale ≠ 0 := by decide
  have hbusy : bootSlotStoreErrBusy ≠ 0 := by decide
  cases hio : storeIoGet s.st store lease with
  | none =>
    refine .inl ⟨_, hstale, ?_⟩
    simp only [bootSlotStoreStageInactiveAuthorized, hio]
  | some io =>
    by_cases hguard : (!storeBindingMatchesIo s.st io store) = true ∨
        expected.authorityEpoch ≠ s.st.binding.epoch ∨ expected.leaseEpoch ≠ lease
    · refine .inl ⟨_, hstale, ?_⟩
      simp only [bootSlotStoreStageInactiveAuthorized, hio, if_pos hguard]
    · by_cases hpre : storeStagePreflight sha256 s.st.binding slot image payload = 0
      · cases hc : authorizeCandidate expected slot image s.st with
        | none =>
          refine .inl ⟨_, hstale, ?_⟩
          simp only [bootSlotStoreStageInactiveAuthorized, hio, if_neg hguard, hpre, ne_eq, not_true_eq_false,
            if_false, authorize_refused hc]
        | some m =>
          cases hclaim : s.st.slots.bsp.stageClaimed with
          | true =>
            refine .inl ⟨_, hbusy, ?_⟩
            simp only [bootSlotStoreStageInactiveAuthorized, hio, if_neg hguard, hpre, ne_eq, not_true_eq_false,
              if_false, authorize_busy hc hclaim]
          | false =>
            simp only [Bool.not_eq_true', ne_eq, not_or, Bool.not_eq_false, not_not] at hguard
            exact .inr ⟨m, hpre, rfl, stage_runs h hio hguard.1 hguard.2.1 hguard.2.2 hpre hc hclaim⟩
      · refine .inl ⟨_, hpre, ?_⟩
        simp only [bootSlotStoreStageInactiveAuthorized, hio, if_neg hguard, ne_eq, hpre, not_false_eq_true, if_true]

theorem stageWrites_control (hplan : bootSlotLayoutPlan layout.bootSectors = some layout)
    (hv : storeImageValid image (layout.slots (slotIndex slot)).payloadCapacitySectors = true)
    (hD : ∀ lba, InSlot layout (slotIndex slot) lba → D lba) {ws rest : List (BitVec 32 × Bytes)}
    (hsub : ∀ w ∈ ws, w ∈ stageWrites layout slot image payload)
    (hrest : ∀ disk', (∀ c, disk' (layout.controlLba c) = disk (layout.controlLba c)) →
      ControlWrites layout D P disk' rest) : ControlWrites layout D P disk (ws ++ rest) := by
  induction ws generalizing disk with
  | nil => exact hrest disk fun _ => rfl
  | cons w ws ih =>
    have hlba := region_control hplan (stageWrites_region hplan hv (hsub w (List.mem_cons_self ..)))
    refine .data hlba (hD _ (stageWrites_region hplan hv (hsub w (List.mem_cons_self ..)))) (ih (fun w' hw => hsub w' (List.mem_cons_of_mem _ hw)) fun disk' hsame => ?_)
    exact hrest disk' fun c => (hsame c).trans (update_of_ne (hlba c) _ _)

theorem stage_step (h : Kept layout s) (store : Nat) (lease : BitVec 64)
    (hD : ∀ lba, InSlot layout (slotIndex slot) lba → D lba)
    (hP : ∀ m, authorizeCandidate expected slot image s.st = some m → s.st.slots.bsp.configured = true →
      P m ∧ P (staged m slot image .valid slot)) {r : (Int × BitVec 64) × BootStore × Medium}
    (hr : bootSlotStoreStageInactiveAuthorized (fun _ => mediumIo) sha256 store lease expected slot image
      payload s.st ⟨s.disk, []⟩ = r) : StepOk layout D P s (r.1.1 = 0) r.2 := by
  rcases @stage_cases layout sha256 s h store lease expected slot image payload with ⟨rc, hne, he⟩ | ⟨m, hpre, hc, he⟩
  · rw [he] at hr
    subst hr
    exact StepOk.quiet (h.claim false) fun hok => absurd hok hne
  · rw [he] at hr
    subst hr
    obtain ⟨hready, -, -, -, -, -, -, -, -⟩ := authorizeCandidate_cases hc
    obtain ⟨-, -, hconf, hr⟩ := persistenceReady_iff.mp hready
    obtain ⟨hslot, -, hv, -⟩ := preflight_cases hpre
    rw [(h.bound hconf).2] at hv
    have hkept := h.authorized hc
    have hpub := publishCandidate_authorized h hc (storeVersion_copied hv)
    have hcontrol : ∀ c, applyWrites (authorizedDisk layout s.st.slots.bsp m s.disk)
        (stageWrites layout slot image payload) (layout.controlLba c) =
          authorizedDisk layout s.st.slots.bsp m s.disk (layout.controlLba c) := fun c =>
      applyWrites_other (stageWrites_outside h.plan hv fun hin => region_control h.plan hin c rfl)
    have hlast := (hkept.congr hcontrol).published hpub
    refine ⟨?_, ?_, rfl, fun hno => absurd rfl hno, fun _ _ => hr⟩
    · rw [applyWrites_append, applyWrites_append]
      exact hlast
    · rw [List.append_assoc]
      refine authorize_writes h hc (hP m hc hconf).1 (stageWrites_control h.plan hv hD (fun _ hw => hw) fun disk' hsame => ?_)
      have hcom := (hkept.congr hsame).committed (publishCandidate_cases hpub).1
      exact .next hcom (publish_sound hkept hpub).2 (hP m hc hconf).2 (publishCandidate_cases hpub).2.2.2.2.2.2.1 .nil

end CapyOS.Proofs
