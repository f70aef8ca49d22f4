import CapyOS.Proofs.SlotTransitions

namespace CapyOS.Proofs
open Lib Function List
variable {ws : List (BitVec 32 × Bytes)} {lba : BitVec 32} {m : BootSlotManager}

section
variable {W : Type} {sha256 : List Byte → Chars bootSlotSha256Size} {payload : List Byte} {lba : BitVec 32}

def payloadWrites (payload : List Byte) (lba : BitVec 32) (i n : Nat) : List (BitVec 32 × Bytes) :=
  (List.range' i n).map fun j => (lba + BitVec.ofNat 32 j, payloadSector payload j)

theorem writePayload_medium (payload : List Byte) (lba : BitVec 32) (i n : Nat) (w : Medium) :
    writePayload mediumIo lba payload i n w = (0, ⟨applyWrites w.disk (payloadWrites payload lba i n),
        w.log ++ payloadWrites payload lba i n⟩) := by
  induction n generalizing i w with
  | zero => simp [writePayload, payloadWrites]
  | succ n ih =>
    have hstep : writePayload mediumIo lba payload i (n + 1) w =
        writePayload mediumIo lba payload (i + 1) n
          ⟨update w.disk (lba + BitVec.ofNat 32 i) (payloadSector payload i),
            w.log ++ [(lba + BitVec.ofNat 32 i, payloadSector payload i)]⟩ := rfl
    have hws : payloadWrites payload lba i (n + 1) =
        (lba + BitVec.ofNat 32 i, payloadSector payload i) :: payloadWrites payload lba (i + 1) n := by
      simp [payloadWrites, range'_succ]
    rw [hstep, ih, hws]
    simp [applyWrites]

theorem payloadSector_bytes (payload : List Byte) (i : Nat) : listBytes (payloadSector payload i)
        (min bootSlotStoreSectorSize (payload.length - bootSlotStoreSectorSize * i)) =
      (payload.drop (bootSlotStoreSectorSize * i)).take bootSlotStoreSectorSize := by
  apply ext_getElem
  · simp
  · intro k h1 h2
    rw [length_listBytes] at h1
    have hlt : bootSlotStoreSectorSize * i + k < payload.length := by omega
    simp only [listBytes, getElem_map, getElem_range, payloadSector, getElem_take, getElem_drop]
    rw [if_pos (by omega), getD_eq_getElem?_getD, List.getElem?_eq_getElem hlt, Option.getD_some]

theorem payloadSector_padded (payload : List Byte) (i : Nat) : bsBytesZero (payloadSector payload i)
      (min bootSlotStoreSectorSize (payload.length - bootSlotStoreSectorSize * i)) bootSlotStoreSectorSize = true := by
  rw [bsBytesZero_iff]
  intro k hl hu
  have hle : payload.length ≤ bootSlotStoreSectorSize * i + k := by omega
  simp only [payloadSector]
  rw [if_pos hu, getD_eq_getElem?_getD, List.getElem?_eq_none hle, Option.getD_none]

theorem readPayload_medium {i n : Nat} {w : Medium}
    (hdisk : ∀ j, i ≤ j → j < i + n → w.disk (lba + BitVec.ofNat 32 j) = payloadSector payload j) :
    readPayload mediumIo lba payload.length i (payload.take (bootSlotStoreSectorSize * i)) n w =
      (some (payload.take (bootSlotStoreSectorSize * (i + n))), w) := by
  induction n generalizing i with
  | zero => rfl
  | succ n ih =>
    have hhere := hdisk i (Nat.le_refl i) (by omega)
    have hsplit : payload.take (bootSlotStoreSectorSize * i) ++
        (payload.drop (bootSlotStoreSectorSize * i)).take bootSlotStoreSectorSize =
          payload.take (bootSlotStoreSectorSize * (i + 1)) := by
      rw [Nat.mul_add, Nat.mul_one, take_add]
    have hstep : readPayload mediumIo lba payload.length i (payload.take (bootSlotStoreSectorSize * i))
        (n + 1) w = readPayload mediumIo lba payload.length (i + 1)
          (payload.take (bootSlotStoreSectorSize * (i + 1))) n w := by
      simp only [readPayload, mediumIo, hhere, payloadSector_padded, payloadSector_bytes, hsplit]
      simp
    rw [hstep, ih fun j hl hu => hdisk j (by omega) (by omega), Nat.add_right_comm i 1 n, Nat.add_assoc]

theorem payloadSectors_toNat (size : BitVec 32) : (payloadSectors size).toNat = (size.toNat + 511) / 512 := by
  have hdiv : (size / 512#32).toNat = size.toNat / 512 := by
    rw [BitVec.toNat_udiv]
    rfl
  have hmod : (size % 512#32).toNat = size.toNat % 512 := by
    rw [BitVec.toNat_umod]
    rfl
  have hlt := size.isLt
  unfold payloadSectors
  simp only
  split
  · rename_i hne
    have h0 : size.toNat % 512 ≠ 0 := by
      rw [← hmod]
      intro he
      exact hne (BitVec.eq_of_toNat_eq he)
    have hadd : (size / 512#32 + 1#32).toNat = size.toNat / 512 + 1 := by
      rw [BitVec.toNat_add, hdiv]
      exact Nat.mod_eq_of_lt (by simp only [BitVec.toNat_ofNat]; omega)
    omega
  · rename_i he
    have h0 : size.toNat % 512 = 0 := by
      rw [← hmod]
      simp only [ne_eq, not_not] at he
      rw [he]
      rfl
    omega

end

/-- The sectors of a slot: its header and its payload. -/
def InSlot (layout : BootSlotLayout) (i : Fin 2) (lba : BitVec 32) : Prop :=
  (layout.slots i).headerLba.toNat ≤ lba.toNat ∧
    lba.toNat < (layout.slots i).payloadLba.toNat + (layout.slots i).payloadCapacitySectors.toNat

section
variable {layout : BootSlotLayout} (hplan : bootSlotLayoutPlan layout.bootSectors = some layout)
include hplan

theorem region_bounds (i : Fin 2) : (layout.slots i).payloadLba.toNat = (layout.slots i).headerLba.toNat + 1 ∧
      (layout.slots i).payloadLba.toNat + (layout.slots i).payloadCapacitySectors.toNat + 2 ≤ layout.bootSectors.toNat := by
  obtain ⟨n, r, h⟩ := plan_planned hplan
  have hroom := h.room
  have hfirst := h.first
  rw [h.sectors]
  rcases copy_cases i with rfl | rfl
  · rw [h.payload0, h.header0, h.capacity0]
    omega
  · rw [h.payload1, h.header1, h.capacity1]
    omega

theorem region_header (i : Fin 2) : InSlot layout i (layout.slots i).headerLba := by
  have h := region_bounds hplan i
  exact ⟨Nat.le_refl _, by omega⟩

/-- The sectors of a payload that fits lie in its region. -/
theorem region_payload (i : Fin 2) {j : Nat} (hj : j < (layout.slots i).payloadCapacitySectors.toNat) :
    ((layout.slots i).payloadLba + BitVec.ofNat 32 j).toNat = (layout.slots i).payloadLba.toNat + j ∧
      InSlot layout i ((layout.slots i).payloadLba + BitVec.ofNat 32 j) := by
  have h := region_bounds hplan i
  have hlt := layout.bootSectors.isLt
  have hsum : ((layout.slots i).payloadLba + BitVec.ofNat 32 j).toNat =
      (layout.slots i).payloadLba.toNat + j := by
    rw [BitVec.toNat_add, BitVec.toNat_ofNat, Nat.mod_eq_of_lt (show j < 2 ^ 32 by omega), Nat.mod_eq_of_lt (by omega)]
  refine ⟨hsum, ?_⟩
  unfold InSlot
  omega

theorem region_disjoint {i k : Fin 2} (hi : InSlot layout i lba) (hk : InSlot layout k lba) : i = k := by
  obtain ⟨n, r, h⟩ := plan_planned hplan
  have hroom := h.room
  have hfirst := h.first
  unfold InSlot at hi hk
  rcases copy_cases i with rfl | rfl <;> rcases copy_cases k with rfl | rfl
  · rfl
  · rw [h.header0, h.payload0, h.capacity0] at hi
    rw [h.header1] at hk
    omega
  · rw [h.header0, h.payload0, h.capacity0] at hk
    rw [h.header1] at hi
    omega
  · rfl

theorem region_control {i : Fin 2} (hi : InSlot layout i lba) (c : Fin 2) : layout.controlLba c ≠ lba := by
  rintro rfl
  have hb := (region_bounds hplan i).2
  obtain ⟨n, r, h⟩ := plan_planned hplan
  unfold InSlot at hi
  rw [h.sectors] at hb
  have hroom := h.room
  rcases copy_cases c with rfl | rfl
  · rw [h.control0] at hi
    omega
  · rw [h.control1] at hi
    omega

end

def diskPayload (disk : BitVec 32 → Bytes) (lba : BitVec 32) (size : Nat) : List Byte :=
  listBytes (fun k => disk (lba + BitVec.ofNat 32 (k / bootSlotStoreSectorSize))
    (k % bootSlotStoreSectorSize)) size

def stageWrites (layout : BootSlotLayout) (slot : BitVec 32) (image : BootSlotImage) (payload : List Byte) :
    List (BitVec 32 × Bytes) :=
  payloadWrites payload (layout.slots (slotIndex slot)).payloadLba 0 (payloadSectors image.payloadSize).toNat ++
    [((layout.slots (slotIndex slot)).headerLba, storeEncodeHeader layout slot image)]

section
variable {layout : BootSlotLayout} {sha256 : List Byte → Chars bootSlotSha256Size} {slot : BitVec 32}
  {image : BootSlotImage} {payload : List Byte}

theorem sectors_fit {capacity : BitVec 32} (hv : storeImageValid image capacity = true) :
    payloadSectors image.payloadSize ≠ 0#32 ∧ (payloadSectors image.payloadSize).toNat ≤ capacity.toNat := by
  simp only [storeImageValid, Bool.and_eq_true, decide_eq_true_eq] at hv
  obtain ⟨⟨⟨-, hpos⟩, hfit⟩, -⟩ := hv
  have hn := payloadSectors_toNat image.payloadSize
  have hp : 0 < image.payloadSize.toNat := by bv_omega
  simp only [bootSlotStoreSectorSize] at hfit
  constructor
  · intro he
    rw [he, BitVec.toNat_ofNat] at hn
    omega
  · omega

/-- Among the writes of a payload each sector is written once. -/
theorem payloadWrites_sector (hplan : bootSlotLayoutPlan layout.bootSectors = some layout) {i : Fin 2} {n : Nat}
    (hn : n ≤ (layout.slots i).payloadCapacitySectors.toNat) (disk : BitVec 32 → Bytes) {j : Nat} (hj : j < n) :
    applyWrites disk (payloadWrites payload (layout.slots i).payloadLba 0 n)
      ((layout.slots i).payloadLba + BitVec.ofNat 32 j) = payloadSector payload j := by
  apply applyWrites_of_mem
  · have hfst : (payloadWrites payload (layout.slots i).payloadLba 0 n).map Prod.fst =
        (List.range' 0 n).map fun j => (layout.slots i).payloadLba + BitVec.ofNat 32 j := by
      simp [payloadWrites]
    rw [hfst]
    refine List.Nodup.map_on ?_ nodup_range'
    intro x hx y hy he
    have hx' := (region_payload hplan i (show x < _ by simp at hx; omega)).1
    have hy' := (region_payload hplan i (show y < _ by simp at hy; omega)).1
    rw [he] at hx'
    omega
  · refine List.mem_map.mpr ⟨j, ?_, rfl⟩
    simp
    omega

/-- Every sector `store_stage_payload` writes belongs to the slot. -/
theorem stageWrites_region (hplan : bootSlotLayoutPlan layout.bootSectors = some layout)
    (hv : storeImageValid image (layout.slots (slotIndex slot)).payloadCapacitySectors = true)
    {w : BitVec 32 × Bytes} (hw : w ∈ stageWrites layout slot image payload) : InSlot layout (slotIndex slot) w.1 := by
  have hfit := (sectors_fit hv).2
  rcases List.mem_append.mp hw with hw | hw
  · obtain ⟨j, hj, rfl⟩ := List.mem_map.mp hw
    simp at hj
    exact (region_payload hplan _ (by omega)).2
  · rw [List.mem_singleton.mp hw]
    exact region_header hplan _

theorem stageWrites_outside (hplan : bootSlotLayoutPlan layout.bootSectors = some layout)
    (hv : storeImageValid image (layout.slots (slotIndex slot)).payloadCapacitySectors = true)
    (hout : ¬ InSlot layout (slotIndex slot) lba) :
    lba ∉ (stageWrites layout slot image payload).map Prod.fst := by
  intro hmem
  obtain ⟨w, hw, rfl⟩ := List.mem_map.mp hmem
  exact hout (stageWrites_region hplan hv hw)

theorem stageWrites_payload (hplan : bootSlotLayoutPlan layout.bootSectors = some layout)
    (hv : storeImageValid image (layout.slots (slotIndex slot)).payloadCapacitySectors = true)
    (hlen : payload.length = image.payloadSize.toNat) (disk : BitVec 32 → Bytes) :
    diskPayload (applyWrites disk (stageWrites layout slot image payload))
      (layout.slots (slotIndex slot)).payloadLba image.payloadSize.toNat = payload := by
  have hfit := (sectors_fit hv).2
  have hn := payloadSectors_toNat image.payloadSize
  have hsector : ∀ j, j < (payloadSectors image.payloadSize).toNat →
      applyWrites disk (stageWrites layout slot image payload)
        ((layout.slots (slotIndex slot)).payloadLba + BitVec.ofNat 32 j) = payloadSector payload j := by
    intro j hj
    have hne : (layout.slots (slotIndex slot)).payloadLba + BitVec.ofNat 32 j ≠
        (layout.slots (slotIndex slot)).headerLba := by
      intro he
      have h1 := (region_payload hplan (slotIndex slot) (show j < _ by omega)).1
      have h2 := (region_bounds hplan (slotIndex slot)).1
      rw [he] at h1
      omega
    rw [stageWrites, applyWrites_append]
    simp only [applyWrites]
    rw [update_of_ne hne]
    exact payloadWrites_sector hplan hfit disk hj
  apply ext_getElem
  · rw [diskPayload, length_listBytes, hlen]
  · intro k h1 h2
    have hs : bootSlotStoreSectorSize = 512 := rfl
    simp only [diskPayload, listBytes, getElem_map, getElem_range]
    have hdiv : k / bootSlotStoreSectorSize < (payloadSectors image.payloadSize).toNat := by
      rw [hs]
      omega
    have hmod : k % bootSlotStoreSectorSize < bootSlotStoreSectorSize := Nat.mod_lt _ (by decide)
    rw [hsector _ hdiv, payloadSector, if_pos hmod, Nat.div_add_mod,
      getD_eq_getElem?_getD, List.getElem?_eq_getElem h2, Option.getD_some]

theorem writeHeader_medium (hslot : slot < 2#32)
    (hv : storeImageValid image (layout.slots (slotIndex slot)).payloadCapacitySectors = true) (w : Medium) :
    writeHeader mediumIo layout slot image w =
      (0, ⟨update w.disk (layout.slots (slotIndex slot)).headerLba (storeEncodeHeader layout slot image),
        w.log ++ [((layout.slots (slotIndex slot)).headerLba, storeEncodeHeader layout slot image)]⟩) := by
  have hlen : strLen image.version < bootSlotVersionMax := by
    simp only [storeImageValid, storeVersionValid, bsStringFits, Bool.and_eq_true, decide_eq_true_eq] at hv
    exact hv.1.1.1.1.2.2
  have hsame : storeStringEqual image.version image.version = true := by
    simp [storeStringEqual, hlen]
  simp only [writeHeader, mediumIo, update_self, decodeHeader_encode hslot hv, hsame]
  simp

theorem stagePayload_medium {b : StoreBinding} {m : BootSlotManager} (hactive : b.active = true)
    (hm : ManagerSound b.layout m) (hset : Settled m) (hslot : slot < 2#32) (hne : slot ≠ m.confirmedSlot)
    (hstate : (m.slot slot).state = .failed) (hlen : payload.length = image.payloadSize.toNat)
    (hv : storeImageValid image (b.layout.slots (slotIndex slot)).payloadCapacitySectors = true)
    (hsha : sha256 payload = image.payloadSha256) (w : Medium) :
    storeStagePayload (fun _ => mediumIo) sha256 b m slot image payload w =
      (0, ⟨applyWrites w.disk (stageWrites b.layout slot image payload),
        w.log ++ stageWrites b.layout slot image payload⟩) := by
  have hplan := hm.placed.plan
  obtain ⟨hsome, hfit⟩ := sectors_fit hv
  have hn := payloadSectors_toNat image.payloadSize
  have hmatch : storeManagerMatches m b.layout = true := by
    simp only [storeManagerMatches, decide_eq_true_eq]
    exact ⟨hm.valid, hset.pending, hset.active, hm.layout⟩
  have hguard : ¬ ((!b.active) = true ∨ slot ≥ 2#32 ∨ slot = m.activeSlot ∨ slot = m.confirmedSlot ∨
      ((m.slot slot).state ≠ .empty ∧ (m.slot slot).state ≠ .failed) ∨ m.pendingSlot ≠ bootSlotNone ∨
      (!storeManagerMatches m b.layout) = true ∨ payload.length ≠ image.payloadSize.toNat ∨
      (!storeImageValid image (b.layout.slots (slotIndex slot)).payloadCapacitySectors) = true) := by
    rw [hactive, hset.active, hstate, hset.pending, hmatch, hlen, hv]
    have hlt : ¬ slot ≥ 2#32 := by bv_omega
    simp [hlt, hne]
  have hroom : ¬ (payloadSectors image.payloadSize = 0#32 ∨
      payloadSectors image.payloadSize > (b.layout.slots (slotIndex slot)).payloadCapacitySectors) := by
    rintro (he | hgt)
    · exact hsome he
    · bv_omega
  have hread := @readPayload_medium payload (b.layout.slots (slotIndex slot)).payloadLba 0
    (payloadSectors image.payloadSize).toNat
    ⟨applyWrites w.disk (payloadWrites payload (b.layout.slots (slotIndex slot)).payloadLba 0
      (payloadSectors image.payloadSize).toNat), w.log ++ payloadWrites payload
      (b.layout.slots (slotIndex slot)).payloadLba 0 (payloadSectors image.payloadSize).toNat⟩
    (fun j _ hj => payloadWrites_sector hplan hfit w.disk (by omega))
  rw [Nat.mul_zero, take_zero, Nat.zero_add,
    take_of_length_le (by rw [hlen, hn]; simp only [bootSlotStoreSectorSize]; omega)] at hread
  unfold storeStagePayload
  simp only [if_neg hguard]
  rw [if_neg (not_not.mpr hsha), if_neg hroom]
  simp only [writePayload_medium]
  have hflush : ∀ w, (mediumIo.flush w) = (0, w) := fun _ => rfl
  simp only [hflush, hread, hsha, writeHeader_medium hslot hv]
  simp [stageWrites, applyWrites_append, applyWrites]

end

/-- Sector writes that change what the partition holds one record at a time:
each goes to a data sector of `D`, or is the next generation in the copy not gone by,
or the first record of all. -/
inductive ControlWrites (layout : BootSlotLayout) (D : BitVec 32 → Prop) (P : BootSlotManager → Prop) :
    (BitVec 32 → Bytes) → List (BitVec 32 × Bytes) → Prop
  | nil {disk : BitVec 32 → Bytes} : ControlWrites layout D P disk []
  | data {disk : BitVec 32 → Bytes} {lba : BitVec 32} {b : Bytes} {ws : List (BitVec 32 × Bytes)} :
      (∀ c, layout.controlLba c ≠ lba) → D lba → ControlWrites layout D P (update disk lba b) ws →
      ControlWrites layout D P disk ((lba, b) :: ws)
  | next {disk : BitVec 32 → Bytes} {c : Fin 2} {m m' : BootSlotManager} {g : BitVec 64}
      {ws : List (BitVec 32 × Bytes)} :
      Committed layout disk c m g → ManagerSound layout m' → P m' → g ≠ BitVec.allOnes 64 →
      ControlWrites layout D P
        (update disk (layout.controlLba (1 - c)) (bsRecordEncode m' (g + 1#64))) ws →
      ControlWrites layout D P disk ((layout.controlLba (1 - c), bsRecordEncode m' (g + 1#64)) :: ws)
  | first {disk : BitVec 32 → Bytes} {m : BootSlotManager} {ws : List (BitVec 32 × Bytes)} :
      ControlErased layout disk → ManagerSound layout m → Settled m → (m.slots 1).state = .empty → P m →
      ControlWrites layout D P (update disk (layout.controlLba 0) (bsRecordEncode m 1#64)) ws →
      ControlWrites layout D P disk ((layout.controlLba 0, bsRecordEncode m 1#64) :: ws)

/-- What a partition may hold after some of the writes: what it held, or one of
the new managers under a later generation. -/
structure Advances (layout : BootSlotLayout) (P : BootSlotManager → Prop)
    (disk disk' : BitVec 32 → Bytes) : Prop where
  erased : ControlErased layout disk →
    ControlErased layout disk' ∨ ∃ c m g, Committed layout disk' c m g ∧ P m
  committed : ∀ c m g, Committed layout disk c m g →
    ∃ c' m' g', Committed layout disk' c' m' g' ∧ g.toNat ≤ g'.toNat ∧ (m' = m ∧ g' = g ∨ P m')

section
variable {layout : BootSlotLayout} {D : BitVec 32 → Prop} {P : BootSlotManager → Prop} {disk disk' disk'' : BitVec 32 → Bytes}

theorem Advances.refl : Advances layout P disk disk :=
  ⟨.inl, fun c m g h => ⟨c, m, g, h, Nat.le_refl _, .inl ⟨rfl, rfl⟩⟩⟩

theorem Advances.trans (h : Advances layout P disk disk') (h' : Advances layout P disk' disk'') :
    Advances layout P disk disk'' := by
  constructor
  · intro he
    rcases h.erased he with he' | ⟨c, m, g, hc, hP⟩
    · exact h'.erased he'
    · obtain ⟨c', m', g', hc', -, hm⟩ := h'.committed c m g hc
      refine .inr ⟨c', m', g', hc', ?_⟩
      rcases hm with ⟨rfl, -⟩ | hP'
      · exact hP
      · exact hP'
  · intro c m g hc
    obtain ⟨c', m', g', hc', hle, hm⟩ := h.committed c m g hc
    obtain ⟨c'', m'', g'', hc'', hle', hm'⟩ := h'.committed c' m' g' hc'
    refine ⟨c'', m'', g'', hc'', Nat.le_trans hle hle', ?_⟩
    rcases hm' with ⟨rfl, rfl⟩ | hP'
    · exact hm
    · exact .inr hP'

theorem Advances.data (hsame : ∀ c, disk' (layout.controlLba c) = disk (layout.controlLba c)) : Advances layout P disk disk' :=
  ⟨fun h => .inl (erased_congr h hsame), fun c m g h => ⟨c, m, g, h.congr hsame, Nat.le_refl _, .inl ⟨rfl, rfl⟩⟩⟩

theorem next_generation {g : BitVec 64} (hg : g ≠ BitVec.allOnes 64) : g.toNat < (g + 1#64).toNat := by
  have h : g.toNat ≠ 2 ^ 64 - 1 := fun he => hg (BitVec.eq_of_toNat_eq (by simpa using he))
  bv_omega

theorem Advances.next {c : Fin 2} {m m' : BootSlotManager} {g : BitVec 64}
    (h : Committed layout disk c m g) (hm : ManagerSound layout m') (hP : P m') (hg : g ≠ BitVec.allOnes 64) :
    Advances layout P disk (update disk (layout.controlLba (1 - c)) (bsRecordEncode m' (g + 1#64))) := by
  have hlt := next_generation hg
  refine ⟨fun he => absurd he h.not_erased, fun c' m'' g' h' => ?_⟩
  obtain ⟨rfl, rfl, rfl⟩ := h.unique h'
  exact ⟨_, _, _, h.write hm hlt, by omega, .inr hP⟩

theorem Advances.first (h : ControlErased layout disk) (hm : ManagerSound layout m)
    (hs : Settled m) (he : (m.slots 1).state = .empty) (hP : P m) :
    Advances layout P disk (update disk (layout.controlLba 0) (bsRecordEncode m 1#64)) :=
  ⟨fun _ => .inr ⟨_, _, _, erased_write h hm hs he (by decide), hP⟩, fun _ _ _ hc => absurd h hc.not_erased⟩

theorem ControlWrites.advances (h : ControlWrites layout D P disk ws) (k : Nat) :
    Advances layout P disk (applyWrites disk (ws.take k)) := by
  induction h generalizing k with
  | nil =>
    rw [take_nil]
    exact Advances.refl
  | data hlba _ _ ih =>
    cases k with
    | zero => exact Advances.refl
    | succ k => exact (Advances.data fun c => update_of_ne (hlba c) _ _).trans (ih k)
  | next hc hm hP hg _ ih =>
    cases k with
    | zero => exact Advances.refl
    | succ k => exact (Advances.next hc hm hP hg).trans (ih k)
  | first hc hm hs he hP _ ih =>
    cases k with
    | zero => exact Advances.refl
    | succ k => exact (Advances.first hc hm hs he hP).trans (ih k)

theorem ControlWrites.mem (h : ControlWrites layout D P disk ws)
    {w : BitVec 32 × Bytes} (hw : w ∈ ws) : (∃ c, layout.controlLba c = w.1) ∨ D w.1 := by
  induction h with
  | nil => exact nomatch hw
  | data _ hin _ ih =>
    rcases List.mem_cons.mp hw with rfl | hw
    · exact .inr hin
    · exact ih hw
  | next _ _ _ _ _ ih =>
    rcases List.mem_cons.mp hw with rfl | hw
    · exact .inl ⟨_, rfl⟩
    · exact ih hw
  | first _ _ _ _ _ _ ih =>
    rcases List.mem_cons.mp hw with rfl | hw
    · exact .inl ⟨_, rfl⟩
    · exact ih hw

theorem ControlWrites.untouched (h : ControlWrites layout D P disk ws) (k : Nat)
    (hc : ∀ c, layout.controlLba c ≠ lba) (hd : ¬ D lba) : applyWrites disk (ws.take k) lba = disk lba := by
  induction h generalizing k with
  | nil =>
    rw [take_nil]
    rfl
  | data _ hin _ ih =>
    cases k with
    | zero => rfl
    | succ k =>
      refine (ih k).trans (update_of_ne ?_ _ _)
      rintro rfl
      exact hd hin
  | next _ _ _ _ _ ih =>
    cases k with
    | zero => rfl
    | succ k => exact (ih k).trans (update_of_ne (Ne.symm (hc _)) _ _)
  | first _ _ _ _ _ _ ih =>
    cases k with
    | zero => rfl
    | succ k => exact (ih k).trans (update_of_ne (Ne.symm (hc _)) _ _)

end

/-- Memory and disk of one partition: once bound, memory holds what the disk holds. -/
structure Kept (layout : BootSlotLayout) (s : SlotSession) : Prop where
  plan : bootSlotLayoutPlan layout.bootSectors = some layout
  registered : s.st.registration.layout = layout
  objects : ∀ a, (s.st.objects a).testLayout = layout
  disk : ControlErased layout s.disk ∨ ∃ c m g, Committed layout s.disk c m g
  bound : s.st.slots.bsp.configured = true →
    s.st.slots.bsp.layout = layout ∧ s.st.binding.layout = layout
  ready : s.st.slots.bsp.configured = true → s.st.slots.bsp.ready = true →
    s.st.binding.active = true ∧
      Committed layout s.disk s.st.slots.bsp.activeCopy s.st.slots.bsm s.st.slots.bsp.generation
  blank : s.st.slots.bsp.configured = true → s.st.slots.bsp.blank = true →
    s.st.binding.active = true ∧ ControlErased layout s.disk

structure StepOk (layout : BootSlotLayout) (D : BitVec 32 → Prop) (P : BootSlotManager → Prop) (s : SlotSession) (ok : Prop)
    (r : BootStore × Medium) : Prop where
  kept : Kept layout ⟨r.1, r.2.disk⟩
  writes : ControlWrites layout D P s.disk r.2.log
  disk : r.2.disk = applyWrites s.disk r.2.log
  silent : ¬ ok → r.2.log = []
  ready : ok → r.1.slots.bsp.configured = true → r.1.slots.bsp.ready = true

variable {layout : BootSlotLayout} {D : BitVec 32 → Prop} {P : BootSlotManager → Prop} {s : SlotSession} {ok : Prop}

theorem StepOk.quiet {st : BootStore} (h : Kept layout ⟨st, s.disk⟩)
    (hready : ok → st.slots.bsp.configured = true → st.slots.bsp.ready = true) : StepOk layout D P s ok (st, ⟨s.disk, []⟩) :=
  ⟨h, .nil, rfl, fun _ => rfl, hready⟩

theorem StepOk.refused (h : Kept layout s) (hno : ¬ ok) : StepOk layout D P s ok (s.st, ⟨s.disk, []⟩) :=
  StepOk.quiet h fun hok => absurd hok hno

theorem writeVerified_medium {b : StoreBinding} {g : BitVec 64} {copy : Fin 2}
    {w : Medium} (hactive : b.active = true) (hlayout : b.layout = layout) (hm : ManagerSound layout m) (hg : g ≠ 0#64) :
    bsWriteVerified (storeControlIo (fun _ => mediumIo) b) true m copy g w =
      (0, ⟨update w.disk (layout.controlLba copy) (bsRecordEncode m g),
        w.log ++ [(layout.controlLba copy, bsRecordEncode m g)]⟩) := by
  have hdec : (bsRecordDecode (bsRecordEncode m g)).map Prod.snd = some g := by
    rw [decode_encode hm.valid hm.canonical hg]
    rfl
  subst hlayout
  simp only [bsWriteVerified, storeControlIo, mediumIo, hactive, Bool.not_true, Bool.false_eq_true, if_false,
    not_true_eq_false, hm.valid, ne_eq, update_self, hdec, bsBytesEqual, beq_self_eq_true]
  simp

def commitTo (s : BootSlots) (m : BootSlotManager) : BootSlots :=
  let t := s.adopt m (otherCopy s.bsp.activeCopy) (s.bsp.generation + 1#64)
  { t with bsp := { t.bsp with degraded := false } }

theorem persistenceReady_iff {s : BootSlots} : bootSlotPersistenceReady s = true ↔
    s.phase = .boundReady ∧ s.initialized = true ∧ s.bsp.configured = true ∧ s.bsp.ready = true := by
  simp [bootSlotPersistenceReady, and_assoc]

/-- The three ways `bs_commit_locked` ends on a disk that does not fail. -/
theorem commit_medium (h : Kept layout s)
    (hm : bootSlotPersistenceReady s.st.slots = true → ManagerSound layout m)
    (hcand : bootSlotPersistenceReady s.st.slots = true ∨ s.st.slots.bsp.configured = false) :
    (∃ rc, rc < 0 ∧ bsCommitLocked (storeControlIo (fun _ => mediumIo) s.st.binding) m s.st.slots
        ⟨s.disk, []⟩ = (rc, s.st.slots, ⟨s.disk, []⟩)) ∨ (s.st.slots.bsp.configured = false ∧
      bsCommitLocked (storeControlIo (fun _ => mediumIo) s.st.binding) m s.st.slots ⟨s.disk, []⟩ =
        (0, { s.st.slots with bsm := m }, ⟨s.disk, []⟩)) ∨
    (bootSlotPersistenceReady s.st.slots = true ∧ s.st.slots.bsp.generation ≠ BitVec.allOnes 64 ∧
      bsCommitLocked (storeControlIo (fun _ => mediumIo) s.st.binding) m s.st.slots ⟨s.disk, []⟩ = (0, commitTo s.st.slots m,
          ⟨update s.disk (layout.controlLba (1 - s.st.slots.bsp.activeCopy))
            (bsRecordEncode m (s.st.slots.bsp.generation + 1#64)), [(layout.controlLba (1 - s.st.slots.bsp.activeCopy),
            bsRecordEncode m (s.st.slots.bsp.generation + 1#64))]⟩)) := by
  unfold bsCommitLocked
  split
  · exact .inl ⟨_, by decide, rfl⟩
  · rcases hcand with hready | hconf
    · obtain ⟨-, -, hconf, hr⟩ := persistenceReady_iff.mp hready
      rw [hconf]
      simp only [Bool.not_true, Bool.false_eq_true, if_false, hr, Bool.false_or]
      split
      · exact .inl ⟨_, by decide, rfl⟩
      · rename_i hgen
        have hg : s.st.slots.bsp.generation ≠ BitVec.allOnes 64 := by simpa using hgen
        have hne : s.st.slots.bsp.generation + 1#64 ≠ 0#64 := by
          have hlt := next_generation hg
          intro he
          rw [he] at hlt
          exact Nat.not_lt_zero _ hlt
        refine .inr (.inr ⟨hready, hg, ?_⟩)
        simp only [writeVerified_medium (h.ready hconf hr).1 (h.bound hconf).2 (hm hready) hne, if_true]
        rfl
    · rw [hconf]
      exact .inr (.inl ⟨rfl, rfl⟩)

theorem Kept.unbound (h : Kept layout s) {st : BootStore} (hr : st.registration = s.st.registration)
    (ho : st.objects = s.st.objects) (hc : st.slots.bsp.configured = false) : Kept layout ⟨st, s.disk⟩ := by
  have hno : st.slots.bsp.configured ≠ true := by
    rw [hc]
    decide
  refine ⟨h.plan, ?_, ?_, h.disk, fun hb => absurd hb hno, fun hb => absurd hb hno, fun hb => absurd hb hno⟩
  · rw [hr]
    exact h.registered
  · rw [ho]
    exact h.objects

/-- A committed manager is what memory and disk hold afterwards. -/
theorem Kept.commit (h : Kept layout s) {m : BootSlotManager} (hm : ManagerSound layout m)
    (hr : bootSlotPersistenceReady s.st.slots = true) (hg : s.st.slots.bsp.generation ≠ BitVec.allOnes 64) :
    Kept layout ⟨{ s.st with slots := commitTo s.st.slots m },
      update s.disk (layout.controlLba (1 - s.st.slots.bsp.activeCopy))
        (bsRecordEncode m (s.st.slots.bsp.generation + 1#64))⟩ := by
  obtain ⟨-, -, hconf, hready⟩ := persistenceReady_iff.mp hr
  obtain ⟨hactive, hcom⟩ := h.ready hconf hready
  have hnew := hcom.write hm (next_generation hg)
  refine ⟨h.plan, h.registered, h.objects, .inr ⟨_, _, _, hnew⟩, h.bound, fun _ _ => ⟨hactive, hnew⟩,
    fun _ hblank => ?_⟩
  exact absurd (h.blank hconf hblank).2 hcom.not_erased

theorem commit_step (h : Kept layout s) {m : BootSlotManager}
    (hm : bootSlotPersistenceReady s.st.slots = true → ManagerSound layout m)
    (hcand : bootSlotPersistenceReady s.st.slots = true ∨ s.st.slots.bsp.configured = false)
    (hP : s.st.slots.bsp.configured = true → P m) : StepOk layout D P s
      ((bsCommitLocked (storeControlIo (fun _ => mediumIo) s.st.binding) m s.st.slots ⟨s.disk, []⟩).1 = 0)
      ({ s.st with slots := (bsCommitLocked (storeControlIo (fun _ => mediumIo) s.st.binding) m s.st.slots ⟨s.disk, []⟩).2.1 },
        (bsCommitLocked (storeControlIo (fun _ => mediumIo) s.st.binding) m s.st.slots ⟨s.disk, []⟩).2.2) := by
  rcases commit_medium h hm hcand with ⟨rc, hneg, hr⟩ | ⟨hconf, hr⟩ | ⟨hready, hg, hr⟩
  · rw [hr]
    exact StepOk.refused h (Int.ne_of_lt hneg)
  · rw [hr]
    refine StepOk.quiet (h.unbound rfl rfl hconf) fun _ hc => ?_
    exact nomatch hconf.symm.trans hc
  · rw [hr]
    obtain ⟨-, -, hconf, hr'⟩ := persistenceReady_iff.mp hready
    exact ⟨h.commit (hm hready) hready hg,  .next (h.ready hconf hr').2 (hm hready) (hP hconf) hg .nil, rfl,
      fun hno => absurd rfl hno, fun _ _ => hr'⟩

end CapyOS.Proofs
