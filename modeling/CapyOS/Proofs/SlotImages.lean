import CapyOS.Proofs.SlotTrials

namespace CapyOS.Proofs
open Lib Function List Option
variable {st : BootSlotState} {i : Fin 2} {x : SlotOp}

def Bootable (s : BootSlot) : Prop := s.state ≠ .empty ∧ s.state ≠ .failed

def Matches (sha256 : List Byte → Chars bootSlotSha256Size) (layout : BootSlotLayout)
    (disk : BitVec 32 → Bytes) (m : BootSlotManager) : Prop :=
  ∀ i, Bootable (m.slots i) →
    sha256 (diskPayload disk (layout.slots i).payloadLba (m.slots i).payloadSize.toNat) =
      (m.slots i).payloadSha256

def Promised (sha256 : List Byte → Chars bootSlotSha256Size) (s : SlotSession) : SlotOp → Prop
  | .initializePersistent layout image =>
    sha256 (diskPayload s.disk (layout.slots 0).payloadLba image.payloadSize.toNat) = image.payloadSha256
  | .authorize _ _ _ | .publish _ _ => False
  | _ => True

section
variable {build : Build} {sha256 : List Byte → Chars bootSlotSha256Size} {layout : BootSlotLayout}
  {disk disk' : BitVec 32 → Bytes} {s : SlotSession} {m m' : BootSlotManager} {slot : BitVec 32}
  {image : BootSlotImage} {payload : List Byte} {c : Fin 2} {g : BitVec 64}

theorem diskPayload_congr (hplan : bootSlotLayoutPlan layout.bootSectors = some layout) {size : Nat}
    (hfit : size ≤ (layout.slots i).payloadCapacitySectors.toNat * 512)
    (hsame : ∀ lba, InSlot layout i lba → disk' lba = disk lba) :
    diskPayload disk' (layout.slots i).payloadLba size = diskPayload disk (layout.slots i).payloadLba size := by
  have hs : bootSlotStoreSectorSize = 512 := rfl
  apply ext_getElem
  · rw [diskPayload, diskPayload, length_listBytes, length_listBytes]
  · intro k h1 h2
    rw [diskPayload, length_listBytes] at h1
    simp only [diskPayload, listBytes, getElem_map, getElem_range]
    rw [hsame]
    refine (region_payload hplan i ?_).2
    rw [hs]
    omega

/-- The image of a sound manager's slot fits where it stands. -/
theorem ManagerSound.fits (h : ManagerSound layout m) (hb : Bootable (m.slots i)) :
    (m.slots i).payloadSize.toNat ≤ (layout.slots i).payloadCapacitySectors.toNat * 512 := by
  obtain ⟨-, -, -, hid⟩ := (h.placed.slots i).identity
  rw [if_neg hb.1] at hid
  have hcap : (m.slots i).payloadCapacitySectors = (layout.slots i).payloadCapacitySectors := by
    rw [← h.layout]
    rfl
  rw [← hcap]
  exact hid.2.2.1

/-- Slots keep their images while the manager changes around them. -/
theorem Matches.keep (h : Matches sha256 layout disk m) (hm : ManagerSound layout m)
    (hslots : ∀ i, Bootable (m'.slots i) → Bootable (m.slots i) ∧ (m'.slots i).payloadSize = (m.slots i).payloadSize ∧
      (m'.slots i).payloadSha256 = (m.slots i).payloadSha256 ∧
      ∀ lba, InSlot layout i lba → disk' lba = disk lba) : Matches sha256 layout disk' m' := by
  intro i hb
  obtain ⟨hb', hsize, hsha, hsame⟩ := hslots i hb
  rw [hsize, hsha, diskPayload_congr hm.placed.plan (hm.fits hb') hsame]
  exact h i hb'

def Derived (s t : BootSlot) : Prop :=
  Bootable t → Bootable s ∧ t.payloadSize = s.payloadSize ∧ t.payloadSha256 = s.payloadSha256

theorem Derived.refl (s : BootSlot) : Derived s s := fun hb => ⟨hb, rfl, rfl⟩

theorem Derived.setSlot {j : BitVec 32} {x : BootSlot} (h : ∀ i, Derived (m.slots i) (m'.slots i))
    (hx : Derived (m.slot j) x) (i : Fin 2) : Derived (m.slots i) ((m'.setSlot j x).slots i) := by
  rcases eq_or_ne i (slotIndex j) with rfl | hne
  · have hsame : (m'.setSlot j x).slots (slotIndex j) = x := slot_setSlot_same m' j x
    rw [hsame]
    exact hx
  · have hsame : (m'.setSlot j x).slots i = m'.slots i := update_of_ne hne _ _
    rw [hsame]
    exact h i

theorem bootable_of {s : BootSlot} (h : s.state = st) (he : st ≠ .empty) (hf : st ≠ .failed) :
    Bootable s := by
  subst h
  exact ⟨he, hf⟩

theorem armed_images (h : Settled m) (hslot : slot < 2#32) (hne : slot ≠ m.confirmedSlot)
    (hb : Bootable (m.slot slot)) (i : Fin 2) : Derived (m.slots i) ((armed m slot).slots i) := by
  have hconf : Bootable (m.slot m.confirmedSlot) :=
    bootable_of h.state (fun he => nomatch he) (fun he => nomatch he)
  have hkept := Derived.setSlot (fun i => Derived.refl (m.slots i))
    (show Derived (m.slot m.confirmedSlot) (m.slot m.confirmedSlot).kept from fun _ => ⟨hconf, rfl, rfl⟩)
  refine Derived.setSlot hkept ?_ i
  rw [slot_setSlot_other _ _ _ h.confirmed hslot hne]
  exact fun _ => ⟨hb, rfl, rfl⟩

theorem rolledBack_images (h : OnTrial m) (i : Fin 2) : Derived (m.slots i) ((rolledBack m).slots i) := by
  have hconf : Bootable (m.slot m.confirmedSlot) :=
    bootable_of h.fallback (fun he => nomatch he) (fun he => nomatch he)
  have hfail := Derived.setSlot (fun i => Derived.refl (m.slots i))
    (show Derived (m.slot m.pendingSlot) (m.slot m.pendingSlot).rejected from fun hb => absurd rfl hb.2)
  refine Derived.setSlot hfail ?_ i
  rw [slot_setSlot_other _ _ _ h.pending h.confirmed (Ne.symm h.apart)]
  exact fun _ => ⟨hconf, rfl, rfl⟩

theorem confirmed_images (h : OnTrial m) (i : Fin 2) : Derived (m.slots i) ((confirmed m m.pendingSlot).slots i) := by
  have hconf : Bootable (m.slot m.confirmedSlot) :=
    bootable_of h.fallback (fun he => nomatch he) (fun he => nomatch he)
  have hpend : Bootable (m.slot m.pendingSlot) :=
    bootable_of h.state (fun he => nomatch he) (fun he => nomatch he)
  have hpass := Derived.setSlot (fun i => Derived.refl (m.slots i))
    (show Derived (m.slot m.pendingSlot) (m.slot m.pendingSlot).passed from fun _ => ⟨hpend, rfl, rfl⟩)
  rw [confirmed_eq h]
  refine Derived.setSlot hpass ?_ i
  exact fun _ => ⟨hconf, rfl, rfl⟩

/-- A function other than a staging leaves every image as it is. -/
theorem Moves.images (h : Moves x m m') (hx : ∀ slot, (SlotEvent.crashed x 1).stages slot = false) (i : Fin 2) :
    Derived (m.slots i) (m'.slots i) := by
  cases h with
  | armed hs hslot hne hstate =>
    exact armed_images hs hslot hne (bootable_of hstate (fun he => nomatch he) (fun he => nomatch he)) i
  | activated hs hslot hne hstate =>
    refine armed_images hs hslot hne ?_ i
    rcases hstate with hv | ha
    · exact bootable_of hv (fun he => nomatch he) (fun he => nomatch he)
    · exact bootable_of ha (fun he => nomatch he) (fun he => nomatch he)
  | spent ht htries =>
    have hpend : Bootable (m.slot m.pendingSlot) :=
      bootable_of ht.state (fun he => nomatch he) (fun he => nomatch he)
    exact @Derived.setSlot m { m with triesRemaining := m.triesRemaining - 1#32 } m.pendingSlot
      (m.slot m.pendingSlot).booted
      (fun i => Derived.refl (m.slots i)) (fun _ => ⟨hpend, rfl, rfl⟩) i
  | failed ht _ => exact rolledBack_images ht i
  | confirmed ht => exact confirmed_images ht i
  | rolledBack ht => exact rolledBack_images ht i
  | staged hcrash _ _ _ _ _ _ => exact absurd ((hcrash 1 Nat.one_pos).symm.trans (hx _)) (by decide)

/-- Where a staging can lose power: before its first record, between the two records
that mark the slot FAILED, with both of them written and any part of the slot, or
with everything written. -/
inductive StageCrash (sha256 : List Byte → Chars bootSlotSha256Size) (layout : BootSlotLayout)
    (m : BootSlotManager) (slot : BitVec 32) (image : BootSlotImage) (disk disk' : BitVec 32 → Bytes) : Prop
  | before : disk' = disk → StageCrash sha256 layout m slot image disk disk'
  | half {c : Fin 2} {g : BitVec 64} : Committed layout disk' c m g →
      (∀ i lba, InSlot layout i lba → disk' lba = disk lba) → StageCrash sha256 layout m slot image disk disk'
  | failed {c : Fin 2} {g : BitVec 64} : Committed layout disk' c m g →
      (∀ c, ∃ g, bsRecordDecode (disk' (layout.controlLba c)) = some (m, g)) →
      StageCrash sha256 layout m slot image disk disk'
  | published {c : Fin 2} {g : BitVec 64} : Committed layout disk' c (staged m slot image .valid slot) g →
      sha256 (diskPayload disk' (layout.slots (slotIndex slot)).payloadLba image.payloadSize.toNat) =
        image.payloadSha256 → StageCrash sha256 layout m slot image disk disk'

theorem take_stage {a b p : BitVec 32 × Bytes} {ws : List (BitVec 32 × Bytes)} (k : Nat) :
    ([a, b] ++ ws ++ [p]).take k = [] ∨ ([a, b] ++ ws ++ [p]).take k = [a] ∨
      (∃ n, ([a, b] ++ ws ++ [p]).take k = [a, b] ++ ws.take n) ∨ ([a, b] ++ ws ++ [p]).take k = [a, b] ++ ws ++ [p] := by
  rcases Nat.lt_or_ge k 3 with hk | hk
  · match k with
    | 0 => exact .inl rfl
    | 1 => exact .inr (.inl rfl)
    | 2 =>
      refine .inr (.inr (.inl ⟨0, ?_⟩))
      simp
  · rcases Nat.lt_or_ge k (ws.length + 3) with hlt | hge
    · refine .inr (.inr (.inl ⟨k - 2, ?_⟩))
      obtain ⟨j, rfl⟩ := Nat.exists_eq_add_of_le hk
      rw [take_append_of_le_length (by simp; omega), take_append]
      have h2 : 3 + j - [a, b].length = 3 + j - 2 := rfl
      rw [take_of_length_le (by simp; omega), h2]
    · refine .inr (.inr (.inr (take_of_length_le ?_)))
      simp
      omega

theorem stage_crash (h : Kept layout s) (store : Nat) (lease : BitVec 64) (expected : BootSlotSnapshot)
    (slot : BitVec 32) (image : BootSlotImage) (payload : List Byte) (k : Nat) :
    ((SlotOp.stage store lease expected slot image payload).writes build sha256 s = []) ∨
    (slot < 2#32 ∧ slot ≠ s.st.slots.bsm.confirmedSlot ∧ Settled s.st.slots.bsm ∧ bootSlotPersistenceReady s.st.slots = true ∧
      image.payloadSize.toNat ≤ (layout.slots (slotIndex slot)).payloadCapacitySectors.toNat * 512 ∧
      StageCrash sha256 layout (staged s.st.slots.bsm slot image .failed s.st.slots.bsm.confirmedSlot) slot image
        s.disk ((SlotOp.stage store lease expected slot image payload).crashDisk build sha256 s k)) := by
  rcases @stage_cases layout sha256 s h store lease expected slot image payload with ⟨rc, -, he⟩ | ⟨m, hpre, hc, he⟩
  · left
    simp only [SlotOp.writes, SlotOp.outcome, SlotOp.exec, he]
  · right
    obtain ⟨hready, hslot, hne, hpend, -, hgen, -, -, hm⟩ := authorizeCandidate_cases hc
    obtain ⟨-, -, hconf, hr⟩ := persistenceReady_iff.mp hready
    obtain ⟨-, hlen, hv, hsha⟩ := preflight_cases hpre
    rw [(h.bound hconf).2] at hv
    have hfit : image.payloadSize.toNat ≤ (layout.slots (slotIndex slot)).payloadCapacitySectors.toNat * 512 := by
      simp only [storeImageValid, Bool.and_eq_true, decide_eq_true_eq] at hv
      exact hv.1.2
    have hcom := h.committed hready
    refine ⟨hslot, hne, hcom.sound.settled hpend, hready, hfit, ?_⟩
    have hsound := (authorize_sound h hc).2
    obtain ⟨hg0, -, -, h1, h2, -⟩ := authorize_generation hgen
    have hkept := h.authorized hc
    have hpub := publishCandidate_authorized h hc (storeVersion_copied hv)
    have hwrites : (SlotOp.stage store lease expected slot image payload).writes build sha256 s =
        authorizeWrites layout s.st.slots.bsp m ++ stageWrites layout slot image payload ++
          [publishWrite layout s.st.slots.bsp (staged m slot image .valid slot)] := by
      simp only [SlotOp.writes, SlotOp.outcome, SlotOp.exec, he]
    have hready' : bootSlotPersistenceReady (authorizedStore s.st m).slots = true := hready
    have hcontrol : ∀ (n : Nat) (c : Fin 2), applyWrites (authorizedDisk layout s.st.slots.bsp m s.disk)
        ((stageWrites layout slot image payload).take n) (layout.controlLba c) =
          authorizedDisk layout s.st.slots.bsp m s.disk (layout.controlLba c) := by
      intro n c
      refine applyWrites_other fun hmem => ?_
      obtain ⟨w, hw, hlba⟩ := List.mem_map.mp hmem
      exact region_control h.plan (stageWrites_region h.plan hv (mem_of_mem_take hw)) c hlba.symm
    rw [SlotOp.crashDisk, hwrites, ← hm]
    rcases @take_stage _ _ (publishWrite layout s.st.slots.bsp (staged m slot image .valid slot))
      (stageWrites layout slot image payload) k with ht | ht | ⟨n, ht⟩ | ht
    · rw [authorizeWrites, ht]
      exact .before rfl
    · rw [authorizeWrites, ht]
      have hnew := hcom.write hsound (next_generation hg0)
      exact .half hnew fun i lba hin => update_of_ne (Ne.symm (region_control h.plan hin _)) _ _
    · have hdisk : applyWrites s.disk ((authorizeWrites layout s.st.slots.bsp m ++
          stageWrites layout slot image payload ++
            [publishWrite layout s.st.slots.bsp (staged m slot image .valid slot)]).take k) =
          applyWrites (authorizedDisk layout s.st.slots.bsp m s.disk)
            ((stageWrites layout slot image payload).take n) := by
        rw [authorizeWrites, ht, applyWrites_append]
        rfl
      rw [hdisk]
      have hnew := (hkept.congr (hcontrol n)).committed hready'
      have hcopies : ∀ c, ∃ g, bsRecordDecode (applyWrites (authorizedDisk layout s.st.slots.bsp m s.disk)
          ((stageWrites layout slot image payload).take n) (layout.controlLba c)) = some (m, g) := by
        intro c
        rw [hcontrol n c]
        rcases eq_or_eq_other s.st.slots.bsp.activeCopy c with rfl | rfl
        · refine ⟨s.st.slots.bsp.generation + 2#64, ?_⟩
          rw [authorizedDisk, update_self]
          exact decode_encode hsound.valid hsound.canonical h2
        · refine ⟨s.st.slots.bsp.generation + 1#64, ?_⟩
          rw [authorizedDisk, update_of_ne (controlLba_ne h.plan (other_ne_self _)), update_self]
          exact decode_encode hsound.valid hsound.canonical h1
      exact .failed hnew hcopies
    · have hdisk : applyWrites s.disk ((authorizeWrites layout s.st.slots.bsp m ++
          stageWrites layout slot image payload ++
            [publishWrite layout s.st.slots.bsp (staged m slot image .valid slot)]).take k) =
          update (applyWrites (authorizedDisk layout s.st.slots.bsp m s.disk)
            (stageWrites layout slot image payload)) (layout.controlLba (1 - s.st.slots.bsp.activeCopy))
            (bsRecordEncode (staged m slot image .valid slot) (s.st.slots.bsp.generation + 2#64 + 1#64)) := by
        rw [authorizeWrites, ht, applyWrites_append, applyWrites_append]
        rfl
      rw [hdisk]
      have hall : ∀ c, applyWrites (authorizedDisk layout s.st.slots.bsp m s.disk)
          (stageWrites layout slot image payload) (layout.controlLba c) =
            authorizedDisk layout s.st.slots.bsp m s.disk (layout.controlLba c) := by
        intro c
        have hn := hcontrol (stageWrites layout slot image payload).length c
        rw [take_of_length_le (Nat.le_refl _)] at hn
        exact hn
      have hnew := ((hkept.congr hall).published hpub).committed hready'
      refine .published hnew ?_
      rw [diskPayload_congr h.plan hfit fun lba hin => update_of_ne
        (Ne.symm (region_control h.plan hin _)) _ _, stageWrites_payload h.plan hv hlen, hsha]

theorem candidate_ready (hconf : s.st.slots.bsp.configured = true) (hm : m ∈ x.candidates build s.st) :
    (∃ l image, x = .initializePersistent l image) ∨ bootSlotPersistenceReady s.st.slots = true := by
  have hno : s.st.slots.bsp.configured ≠ false := by
    rw [hconf]
    decide
  cases x with
  | bind store lease => exact absurd hm not_mem_nil
  | initializePersistent l image => exact .inl ⟨l, image, rfl⟩
  | arm slot generation => exact .inr (armCandidate_cases (mem_toList.mp hm)).1
  | activate slot =>
    rcases activateCandidate_cases (mem_toList.mp hm) with he | hr
    · exact absurd he hno
    · exact .inr hr.1
  | select =>
    simp only [SlotOp.candidates] at hm
    split at hm
    · exact absurd hm not_mem_nil
    · rename_i hguard
      simp only [Bool.or_eq_true, Bool.not_eq_true', decide_eq_true_eq, not_or, Bool.not_eq_false] at hguard
      exact .inr hguard.1
  | confirm slot generation authority lease => exact .inr (confirmCandidate_cases (mem_toList.mp hm)).1
  | rollback =>
    rcases rollbackCandidate_cases (mem_toList.mp hm) with he | hr
    · exact absurd he hno
    · exact .inr hr.1
  | authorize expected slot image => exact .inr (authorizeCandidate_cases (mem_toList.mp hm)).1
  | publish authorization image => exact .inr (publishCandidate_cases (mem_toList.mp hm)).1
  | stage store lease expected slot image payload =>
    obtain ⟨m', hc, -⟩ := List.mem_flatMap.mp hm
    exact .inr (authorizeCandidate_cases (mem_toList.mp hc)).1

/-- The sectors of a slot that a function does not reach. -/
theorem crash_untouched (h : Kept layout s) (x : SlotOp) (k : Nat) {lba : BitVec 32}
    (hin : InSlot layout i lba) (hx : ¬ reaches layout lba x) : x.crashDisk build sha256 s k lba = s.disk lba :=
  (exec_step h x).writes.untouched k (region_control h.plan hin) hx

/-- A slot that is not being staged keeps its image, and its sectors. -/
theorem staged_images {next : BitVec 32} (hi : i ≠ slotIndex slot) :
    (staged m slot image st next).slots i = m.slots i :=
  update_of_ne hi _ _

theorem staged_slot {next : BitVec 32} :
    (staged m slot image st next).slots (slotIndex slot) = bsSlotApplyImage (m.slot slot) slot image st :=
  slot_setSlot_same _ _ _

theorem stage_matches (h : Kept layout s)
    (hJ : ∀ c m g, Committed layout s.disk c m g → Matches sha256 layout s.disk m) (store : Nat)
    (lease : BitVec 64) (expected : BootSlotSnapshot) (slot : BitVec 32) (image : BootSlotImage) (payload : List Byte) (k : Nat)
    (hc : Committed layout ((SlotOp.stage store lease expected slot image payload).crashDisk build sha256 s k) c m g) :
    Matches sha256 layout ((SlotOp.stage store lease expected slot image payload).crashDisk build sha256 s k) m := by
  have huntouched : ∀ i, i ≠ slotIndex slot → ∀ lba, InSlot layout i lba →
      (SlotOp.stage store lease expected slot image payload).crashDisk build sha256 s k lba = s.disk lba :=
    fun i hi lba hin => crash_untouched h _ k hin fun hr => hi (region_disjoint h.plan hin hr)
  rcases @stage_crash build sha256 layout s h store lease expected slot image payload k with hw | hcase
  · have hsame : (SlotOp.stage store lease expected slot image payload).crashDisk build sha256 s k = s.disk := by
      rw [SlotOp.crashDisk, hw, take_nil]
      rfl
    rw [hsame] at hc ⊢
    exact hJ c m g hc
  · obtain ⟨hslot, -, -, hready, -, hcrash⟩ := hcase
    have hcom := h.committed hready
    -- the slot is FAILED in the new manager, and the other one is as it was
    have hfailed : ∀ {c' g'}, Committed layout
        ((SlotOp.stage store lease expected slot image payload).crashDisk build sha256 s k) c'
          (staged s.st.slots.bsm slot image .failed s.st.slots.bsm.confirmedSlot) g' →
        Matches sha256 layout
          ((SlotOp.stage store lease expected slot image payload).crashDisk build sha256 s k) m := by
      intro c' g' hc'
      obtain ⟨-, rfl, -⟩ := hc'.unique hc
      refine (hJ _ _ _ hcom).keep hcom.sound fun i hb => ?_
      rcases eq_or_ne i (slotIndex slot) with rfl | hi
      · rw [staged_slot] at hb
        exact absurd rfl hb.2
      · rw [staged_images hi] at hb ⊢
        exact ⟨hb, rfl, rfl, huntouched i hi⟩
    cases hcrash with
    | before hsame =>
      rw [hsame] at hc ⊢
      exact hJ c m g hc
    | half hc' _ => exact hfailed hc'
    | failed hc' _ => exact hfailed hc'
    | published hc' hsha =>
      obtain ⟨-, rfl, -⟩ := hc'.unique hc
      intro i hb
      rcases eq_or_ne i (slotIndex slot) with rfl | hi
      · rw [staged_slot]
        exact hsha
      · rw [staged_images hi, staged_images hi] at hb ⊢
        rw [diskPayload_congr h.plan (hcom.sound.fits hb) (huntouched i hi)]
        exact hJ _ _ _ hcom i hb

theorem crash_matches (h : Kept layout s)
    (hJ : ∀ c m g, Committed layout s.disk c m g → Matches sha256 layout s.disk m)
    (hx : Promised sha256 s x) (k : Nat) (hc : Committed layout (x.crashDisk build sha256 s k) c m g) :
    Matches sha256 layout (x.crashDisk build sha256 s k) m := by
  by_cases hstage : ∃ store lease expected slot image payload, x = .stage store lease expected slot image payload
  · obtain ⟨store, lease, expected, slot, image, payload, rfl⟩ := hstage
    exact stage_matches h hJ store lease expected slot image payload k hc
  · have hreach : ∀ lba, ¬ reaches layout lba x := by
      intro lba hr
      cases x with
      | stage store lease expected slot image payload => exact hstage ⟨_, _, _, _, _, _, rfl⟩
      | _ => exact hr
    have hsame : ∀ i lba, InSlot layout i lba → x.crashDisk build sha256 s k lba = s.disk lba :=
      fun i lba hin => crash_untouched h x k hin (hreach lba)
    have hadv := @crash_advances build sha256 _ _ h x k
    rcases h.disk with he | ⟨c0, m0, g0, hc0⟩
    · rcases hadv.erased he with he' | ⟨c', m', g', hc', hmem, hconf⟩
      · exact absurd he' hc.not_erased
      · obtain ⟨-, rfl, -⟩ := hc'.unique hc
        rcases candidate_ready hconf hmem with ⟨l, image, rfl⟩ | hready
        · obtain ⟨-, -, -, hl, himage, rfl⟩ := initializeCandidate_cases (mem_toList.mp hmem)
          rw [(h.bound hconf).1] at hl
          subst hl
          intro i hb
          rcases copy_cases i with rfl | rfl
          · have hfit : image.payloadSize.toNat ≤ (l.slots 0).payloadCapacitySectors.toNat * 512 := by
              simp only [bsImageValid, Bool.and_eq_true, decide_eq_true_eq] at himage
              exact himage.1.2
            refine (congrArg sha256 (diskPayload_congr h.plan hfit (hsame 0))).trans ?_
            exact hx
          · exact absurd rfl hb.1
        · exact absurd he (h.committed hready).not_erased
    · obtain ⟨c', m', g', hc', -, hm⟩ := hadv.committed c0 m0 g0 hc0
      obtain ⟨-, rfl, -⟩ := hc'.unique hc
      refine (hJ _ _ _ hc0).keep hc0.sound fun i hb => ?_
      rcases hm with ⟨rfl, -⟩ | ⟨hmem, hconf⟩
      · exact ⟨hb, rfl, rfl, hsame i⟩
      · have hnostage : ∀ slot, (SlotEvent.crashed x 1).stages slot = false := by
          cases x with
          | authorize _ _ _ => exact hx.elim
          | publish _ _ => exact hx.elim
          | stage _ _ _ _ _ _ => exact absurd ⟨_, _, _, _, _, _, rfl⟩ hstage
          | _ => exact fun _ => rfl
        obtain ⟨hb', hsize, hsha⟩ := (candidate_moves h hc0 hconf hmem).images hnostage i hb
        exact ⟨hb', hsize, hsha, hsame i⟩

theorem trace_matches {s0 : SlotSession} {es : List SlotEvent} (h0 : Unwritten layout s0)
    (ht : SlotTrace build sha256 layout s0 (Promised sha256) es s) :
    ∀ c m g, Committed layout s.disk c m g → Matches sha256 layout s.disk m := by
  induction ht with
  | start => exact fun c m g hc => absurd h0.erased hc.not_erased
  | @done es s x hrun hx ih =>
    have hk := trace_kept h0 hrun
    have hdisk : (x.after build sha256 s).disk =
        x.crashDisk build sha256 s (x.outcome build sha256 s).2.2.log.length := by
      refine (exec_step hk x).disk.trans ?_
      rw [SlotOp.crashDisk, SlotOp.writes, take_of_length_le (Nat.le_refl _)]
    rw [hdisk]
    exact fun c m g hc => crash_matches hk ih hx _ hc
  | @crashed es s x k st hrun hx _ _ ih =>
    exact fun c m g hc => crash_matches (trace_kept h0 hrun) ih hx k hc

/-- However far a staging got, a slot with a sector changed is FAILED in both control
copies, or published with the payload of its digest on the disk; the other slot is
not written. So no `select` ever returns a slot whose payload does not match. -/
theorem staging_hides_partial_images {s0 : SlotSession} (h0 : Unwritten layout s0) :
    (∀ ok es s store lease expected slot image payload k, SlotTrace build sha256 layout s0 ok es s →
      let x := SlotOp.stage store lease expected slot image payload
      let disk := x.crashDisk build sha256 s k
      (∀ w ∈ x.writes build sha256 s, ∀ i, i ≠ slotIndex slot → ¬ InSlot layout i w.1) ∧
      ((∃ lba, InSlot layout (slotIndex slot) lba ∧ disk lba ≠ s.disk lba) →
        (∀ c, ∃ m g, bsRecordDecode (disk (layout.controlLba c)) = some (m, g) ∧
          (m.slot slot).state = .failed ∧ m.confirmedSlot ≠ slot ∧ m.activeSlot ≠ slot) ∨
        (∃ m, Durable build layout disk m ∧ (m.slot slot).state = .valid ∧
          sha256 (diskPayload disk (layout.slots (slotIndex slot)).payloadLba
            (m.slot slot).payloadSize.toNat) = (m.slot slot).payloadSha256))) ∧
    (∀ es s, SlotTrace build sha256 layout s0 (Promised sha256) es s →
      let r := SlotOp.select.result build sha256 s
      let disk := (SlotOp.select.after build sha256 s).disk
      0 ≤ r.rc → ∃ m, Durable build layout disk m ∧
        sha256 (diskPayload disk (layout.slots (slotIndex r.slot)).payloadLba
          (m.slot r.slot).payloadSize.toNat) = (m.slot r.slot).payloadSha256) := by
  refine ⟨fun ok es s store lease expected slot image payload k ht => ?_, fun es s ht hrc => ?_⟩
  · have hk := trace_kept h0 ht
    refine ⟨fun w hw i hi hin => ?_, ?_⟩
    · rcases (@exec_step build sha256 _ _ hk _).writes.mem hw with ⟨c, hlba⟩ | hr
      · exact region_control hk.plan hin c hlba
      · exact hi (region_disjoint hk.plan hin hr)
    · rintro ⟨lba, hin, hchanged⟩
      rcases @stage_crash build sha256 layout s hk store lease expected slot image payload k with hw | hcase
      · refine absurd ?_ hchanged
        rw [SlotOp.crashDisk, hw, take_nil]
        rfl
      · obtain ⟨hslot, hne, hset, -, -, hcrash⟩ := hcase
        have hstate : ((staged s.st.slots.bsm slot image .failed s.st.slots.bsm.confirmedSlot).slot slot).state =
            .failed := congrArg BootSlot.state (slot_setSlot_same _ _ _)
        cases hcrash with
        | before hsame => exact absurd (congrFun hsame lba) hchanged
        | half _ hsame => exact absurd (hsame _ lba hin) hchanged
        | failed _ hcopies =>
          refine .inl fun c => ?_
          obtain ⟨g, hg⟩ := hcopies c
          refine ⟨_, g, hg, hstate, Ne.symm hne, fun he => hne ?_⟩
          exact he.symm.trans hset.active
        | published hc hsha =>
          have hnew : (staged (staged s.st.slots.bsm slot image .failed s.st.slots.bsm.confirmedSlot) slot image
              .valid slot).slot slot = bsSlotApplyImage _ slot image .valid := slot_setSlot_same _ _ _
          refine .inr ⟨_, hc.durable (s := ⟨s.st, _⟩), ?_, ?_⟩
          · rw [hnew]
            rfl
          · rw [hnew]
            exact hsha
  · have hk := trace_kept h0 ht
    obtain ⟨c, m, g, c', m', g', hc, hc', hcase⟩ := select_result hk hrc
    have hafter := trace_matches h0 (.done (x := .select) ht trivial) c' m' g' hc'
    refine ⟨m', hc'.durable, hafter _ ?_⟩
    have hactive : ∀ st, (m'.slot (SlotOp.select.result build sha256 s).slot).state = st → st = .active →
        Bootable (m'.slots (slotIndex (SlotOp.select.result build sha256 s).slot)) := by
      rintro st hst rfl
      exact bootable_of hst (fun he => nomatch he) (fun he => nomatch he)
    rcases hcase with ⟨hset, rfl, hres⟩ | ⟨htrial, htries, rfl, hres⟩ | ⟨htrial, -, rfl, hres⟩
    · rw [hres] at hactive ⊢
      exact hactive _ hset.state rfl
    · rw [hres] at hactive ⊢
      exact hactive _ (spent_onTrial htrial htries).state rfl
    · rw [hres] at hactive ⊢
      exact hactive _ (rolledBack_settled htrial).1.state rfl

end

theorem staging_hides_partial_images_tiny : ∃ s, s.st = tinyReady ∧
    ∀ w ∈ (tinyStage tinyReady).writes .loader tinySha256 s, ∀ i, i ≠ slotIndex 1#32 →
      ¬ InSlot tinyLayout i w.1 := by
  obtain ⟨es, s, ht, hst⟩ := tiny_ready
  exact ⟨s, hst, ((staging_hides_partial_images tiny_unwritten).1 (fun _ _ => True) es s 0 0#64
    (snapshotOf tinyReady) 1#32 tinyImage [7#8] 0 ht).1⟩

end CapyOS.Proofs
