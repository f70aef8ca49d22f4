import CapyOS.Boot.BootWriter
import CapyOS.Lib.Records

namespace CapyOS.Proofs
open Lib List

/-! ### The layout -/

/-- The partitions that hold sectors. -/
def DiskParts.present (p : DiskParts) : List MbrPartition :=
  [p.boot, p.system, p.data].filter (fun q => decide (0 < q.sectorCount))

def MbrPartition.Apart (p q : MbrPartition) : Prop :=
  p.lbaStart + p.sectorCount ≤ q.lbaStart ∨ q.lbaStart + q.sectorCount ≤ p.lbaStart

/-- A layout that answers a request: partitions apart from each other, behind
sector 0 and inside the disk, each with the MiB asked for. -/
structure LayoutSound (total bootMb systemMb : Nat) (p : DiskParts) : Prop where
  apart : (DiskParts.present p).Pairwise MbrPartition.Apart
  inside : ∀ q ∈ DiskParts.present p, 1 ≤ q.lbaStart ∧ q.lbaStart + q.sectorCount ≤ total
  boot : bootMb * 2048 ≤ p.boot.sectorCount
  system : systemMb * 2048 ≤ p.system.sectorCount

theorem mbToSectors_eq (mb : Nat) : mbToSectors mb = mb % 4096 * 2048 := by
  unfold mbToSectors u32
  omega

theorem alignUp_aligned {k : Nat} : alignUp (k * 2048) = k * 2048 := by
  simp [alignUp, bootAlign]

/-- The MiB the boot partition gets. -/
def bootMib (bootMb : Nat) : Nat := max 16 (bootMb % 4096)

theorem bootSectors_eq (mb : Nat) : bootSectors mb = bootMib mb * 2048 := by
  unfold bootSectors bootMib minBootSecs
  rw [mbToSectors_eq]
  split <;> omega

theorem systemSectors_eq (mb : Nat) : systemSectors mb = mb % 4096 * 2048 := by
  unfold systemSectors
  rw [mbToSectors_eq]
  split <;> omega

/-- The sectors in front of the data partition. -/
def dataLba (bootMb systemMb : Nat) : Nat := (1 + bootMib bootMb + systemMb % 4096) * 2048

def PartitionRefused (d : BlockDevice) (bootMb systemMb : Nat) : Prop :=
  d.blockSize ≠ 512 ∨ d.blockCount < dataLba bootMb systemMb + minDataSecs ∨
    d.canWrite 0 = false

theorem bootMib_lt (mb : Nat) : bootMib mb < 4096 := by
  have := Nat.mod_lt mb (show 0 < 4096 by decide)
  unfold bootMib
  omega

theorem partition_starts (bootMb systemMb : Nat) :
    alignUp (u32 (bootAlign + bootSectors bootMb)) = (1 + bootMib bootMb) * 2048 ∧
    alignUp (u32 ((1 + bootMib bootMb) * 2048 + systemSectors systemMb)) = dataLba bootMb systemMb ∧
    u32 (dataLba bootMb systemMb + minDataSecs) = dataLba bootMb systemMb + minDataSecs := by
  have hb := bootMib_lt bootMb
  have hs := Nat.mod_lt systemMb (show 0 < 4096 by decide)
  have hfirst : bootAlign + bootSectors bootMb = (1 + bootMib bootMb) * 2048 := by
    rw [bootSectors_eq, bootAlign]
    omega
  have hsecond : (1 + bootMib bootMb) * 2048 + systemSectors systemMb =
      dataLba bootMb systemMb := by
    rw [systemSectors_eq, dataLba]
    omega
  have hlt : dataLba bootMb systemMb + minDataSecs < 2 ^ 32 := by
    unfold dataLba minDataSecs
    omega
  rw [hfirst, hsecond]
  refine ⟨?_, ?_, u32_of_lt hlt⟩
  · rw [u32_of_lt (by omega)]
    exact alignUp_aligned
  · rw [u32_of_lt (by omega)]
    exact alignUp_aligned

def diskParts (total bootMb systemMb : Nat) : DiskParts where
  boot := ⟨2048, bootMib bootMb * 2048, partitionTypeCapyosBoot, 0x80⟩
  system :=
    if systemMb % 4096 > 0 then
      ⟨(1 + bootMib bootMb) * 2048, systemMb % 4096 * 2048, partitionTypeLinux, 0⟩
    else noPartition
  data := ⟨dataLba bootMb systemMb, total - dataLba bootMb systemMb, partitionTypeLinux, 0⟩

theorem partitionDisk_result (d : BlockDevice) (bootMb systemMb : UInt32) : (PartitionRefused d bootMb.toNat systemMb.toNat →
      (bootwriterPartitionDisk d bootMb systemMb).1 = false) ∧ (¬PartitionRefused d bootMb.toNat systemMb.toNat →
      (bootwriterPartitionDisk d bootMb systemMb).1 = true ∧ (bootwriterPartitionDisk d bootMb systemMb).2.1 =
        some (diskParts d.blockCount bootMb.toNat systemMb.toNat)) := by
  obtain ⟨h1, h2, h3⟩ := partition_starts bootMb.toNat systemMb.toNat
  have hbig : 8192 ≤ dataLba bootMb.toNat systemMb.toNat + minDataSecs := by
    unfold minDataSecs
    omega
  have hsys : systemMb.toNat % 4096 * 2048 > 0 ↔ systemMb.toNat % 4096 > 0 := by omega
  unfold bootwriterPartitionDisk PartitionRefused
  simp only [h1, h2, h3]
  by_cases hsize : d.blockSize = 512
  · by_cases hfit : d.blockCount < dataLba bootMb.toNat systemMb.toNat + minDataSecs
    · by_cases hsmall : d.blockCount < 8192
      · simp [hsize, hsmall, hfit]
      · simp [hsize, hsmall, hfit]
    · have hsmall : ¬d.blockCount < 8192 := by omega
      simp [hsize, hsmall, hfit, writeMbrWithPartitions, blockDeviceWrite, diskParts,
        bootSectors_eq, systemSectors_eq, bootAlign]
  · simp [hsize]

theorem diskParts_sound {total bootMb systemMb : Nat} (hb : bootMb < 4096)
    (hs : systemMb < 4096) (hfit : dataLba bootMb systemMb + minDataSecs ≤ total) :
    LayoutSound total bootMb systemMb (diskParts total bootMb systemMb) := by
  have hmod : systemMb % 4096 = systemMb := Nat.mod_eq_of_lt hs
  have hboot : bootMb ≤ bootMib bootMb ∧ 16 ≤ bootMib bootMb := by
    unfold bootMib
    omega
  have hdata : dataLba bootMb systemMb = (1 + bootMib bootMb + systemMb) * 2048 := by
    rw [dataLba, hmod]
  unfold minDataSecs at hfit
  have hsecs : 0 < bootMib bootMb * 2048 ∧ 0 < total - dataLba bootMb systemMb := by omega
  by_cases hz : systemMb = 0
  · have hpresent : DiskParts.present (diskParts total bootMb systemMb) =
        [(diskParts total bootMb systemMb).boot, (diskParts total bootMb systemMb).data] := by
      simp [DiskParts.present, diskParts, noPartition, hz ▸ hsecs, hz]
    refine ⟨?_, ?_, ?_, ?_⟩
    · rw [hpresent]
      simp only [pairwise_pair, MbrPartition.Apart, diskParts]
      omega
    · rw [hpresent]
      simp only [mem_cons, not_mem_nil, or_false, forall_eq_or_imp, forall_eq, diskParts]
      omega
    · simp only [diskParts]
      omega
    · omega
  · have hpos : systemMb % 4096 > 0 := by omega
    have hpresent : DiskParts.present (diskParts total bootMb systemMb) =
        [(diskParts total bootMb systemMb).boot, (diskParts total bootMb systemMb).system,
          (diskParts total bootMb systemMb).data] := by
      simp [DiskParts.present, diskParts, hsecs, hpos]
    refine ⟨?_, ?_, ?_, ?_⟩
    · rw [hpresent]
      simp only [pairwise_cons, mem_cons, not_mem_nil, or_false, forall_eq_or_imp,
        forall_eq, MbrPartition.Apart, diskParts, if_pos hpos, List.Pairwise.nil, and_true]
      simp only [false_implies, implies_true, and_true]
      omega
    · rw [hpresent]
      simp only [mem_cons, not_mem_nil, or_false, forall_eq_or_imp, forall_eq, diskParts, if_pos hpos]
      omega
    · simp only [diskParts]
      omega
    · simp only [diskParts, if_pos hpos]
      omega

/-- A disk is laid out as asked for, whenever the call succeeds, exactly when no
size reaches 4096 MiB or the request is refused anyway. -/
theorem partition_disk_sound_iff (d : BlockDevice) (bootMb systemMb : UInt32) :
    ((bootwriterPartitionDisk d bootMb systemMb).1 = true →
      ∃ p, (bootwriterPartitionDisk d bootMb systemMb).2.1 = some p ∧
        LayoutSound d.blockCount bootMb.toNat systemMb.toNat p) ↔
    (bootMb.toNat < 4096 ∧ systemMb.toNat < 4096) ∨
      PartitionRefused d bootMb.toNat systemMb.toNat := by
  obtain ⟨hno, hyes⟩ := partitionDisk_result d bootMb systemMb
  by_cases hr : PartitionRefused d bootMb.toNat systemMb.toNat
  · simp [hr, hno hr]
  · obtain ⟨hok, hparts⟩ := hyes hr
    simp only [hok, hparts, hr, or_false, Option.some.injEq, true_implies]
    constructor
    · rintro ⟨_, rfl, hsound⟩
      have hboot := hsound.boot
      have hsystem := hsound.system
      constructor
      · simp only [diskParts] at hboot
        unfold bootMib at hboot
        omega
      · by_cases hz : systemMb.toNat % 4096 > 0
        · simp only [diskParts, if_pos hz] at hsystem
          omega
        · simp only [diskParts, if_neg hz, noPartition] at hsystem
          omega
    · rintro ⟨hb, hs⟩
      refine ⟨_, rfl, diskParts_sound hb hs ?_⟩
      unfold PartitionRefused at hr
      omega

/-- A disk of 8 GiB. -/
def eightGib : BlockDevice where
  blockSize := 512
  blockCount := 2 ^ 24
  blocks _ := zeros
  readFails _ := false
  writeFails _ := false
  blockSize_lt := sector_lt
  blockCount_lt := by decide

/-- A request for a system partition of 4096 MiB succeeds without one. -/
theorem partition_disk_drops_system :
    (bootwriterPartitionDisk eightGib 16 4096).1 = true ∧
    ∃ p, (bootwriterPartitionDisk eightGib 16 4096).2.1 = some p ∧
      p.system.sectorCount = 0 ∧ ¬LayoutSound eightGib.blockCount 16 4096 p := by
  refine ⟨by decide, _, rfl, by decide, fun h => ?_⟩
  exact absurd h.system (by decide)

/-! ### Stage 1 -/

section
variable {w placeholder value : Nat}

theorem patchLoop_outside (buf : Bytes) (i n : Nat) {k : Nat}
    (h : ∀ j ∈ (patchLoop w placeholder value buf i n).2, k < j ∨ j + w ≤ k) :
    (patchLoop w placeholder value buf i n).1 k = buf k := by
  induction n generalizing buf i with
  | zero => rfl
  | succ n ih =>
    unfold patchLoop at h ⊢
    split at h
    · rename_i hm
      simp only [if_pos hm]
      rw [ih _ _ fun j hj => h j (mem_cons_of_mem _ hj)]
      exact store_outside (h i mem_cons_self)
    · rename_i hm
      simp only [if_neg hm]
      exact ih _ _ h

theorem patchLoop_byte (buf : Bytes) (i n k : Nat) : (patchLoop w placeholder value buf i n).1 k = buf k ∨
      ∃ q < w, (patchLoop w placeholder value buf i n).1 k = leBytes value q := by
  induction n generalizing buf i with
  | zero => exact .inl rfl
  | succ n ih =>
    unfold patchLoop
    split
    · simp only
      rcases ih (store buf i w value) (i + 1) with h | h
      · rw [h]
        by_cases hk : i ≤ k ∧ k < i + w
        · refine .inr ⟨k - i, by omega, ?_⟩
          simp [store, blit, hk]
        · exact .inl (store_outside (by omega))
      · exact .inr h
    · exact ih _ _

theorem patchLoop_before (buf : Bytes) (i n : Nat) {k : Nat} (hk : k < i) :
    (patchLoop w placeholder value buf i n).1 k = buf k := by
  induction n generalizing buf i with
  | zero => rfl
  | succ n ih =>
    unfold patchLoop
    split
    · simp only
      rw [ih _ _ (by omega)]
      exact store_outside (.inl hk)
    · exact ih _ _ (by omega)

end

def PlainSectors (value : Nat) : Prop :=
  ∀ q < 2, leBytes value q ≠ 0xEF ∧ leBytes value q ≠ 0xBE

theorem load_beef {b : Bytes} {i : Nat} : load b i 2 = stage1SectorsPlaceholder ↔ b i = 0xEF ∧ b (i + 1) = 0xBE := by
  have h0 := (b i).isLt
  have h1 := (b (i + 1)).isLt
  have he : (0xEF : Byte).toNat = 239 := rfl
  have hb : (0xBE : Byte).toNat = 190 := rfl
  simp only [load, stage1SectorsPlaceholder, ← BitVec.toNat_inj, he, hb]
  omega

theorem patchLoop_clears {value : Nat} (hv : PlainSectors value) (buf : Bytes) (i n : Nat)
    {j : Nat} (hj : i ≤ j) (hn : j < i + n) : load (patchLoop 2 stage1SectorsPlaceholder value buf i n).1 j 2 ≠
      stage1SectorsPlaceholder := by
  induction n generalizing buf i with
  | zero => omega
  | succ n ih =>
    unfold patchLoop
    by_cases hm : load buf i 2 = stage1SectorsPlaceholder
    · simp only [if_pos hm]
      by_cases hji : j = i
      · subst hji
        intro hf
        have hbyte := (load_beef.mp hf).1
        rw [patchLoop_before _ _ _ (Nat.lt_succ_self j)] at hbyte
        have hstored : store buf j 2 value j = leBytes value 0 := by simp [store, blit]
        exact (hv 0 (by omega)).1 (hstored ▸ hbyte)
      · exact ih _ _ (by omega) (by omega)
    · simp only [if_neg hm]
      by_cases hji : j = i
      · subst hji
        intro hf
        obtain ⟨he, hb⟩ := load_beef.mp hf
        -- both bytes were there before the scan: a value byte is neither
        have hkept {k : Nat} {x : Byte} (hx : x = 0xEF ∨ x = 0xBE)
            (hk : (patchLoop 2 stage1SectorsPlaceholder value buf (j + 1) n).1 k = x) :
            buf k = x := by
          rcases @patchLoop_byte 2 stage1SectorsPlaceholder value buf (j + 1) n k with
            h | ⟨q, hq, h⟩
          · rw [← h, hk]
          · rw [hk] at h
            rcases hx with rfl | rfl
            · exact absurd h.symm (hv q hq).1
            · exact absurd h.symm (hv q hq).2
        exact hm (load_beef.mpr ⟨hkept (.inl rfl) he, hkept (.inr rfl) hb⟩)
      · exact ih _ _ (by omega) (by omega)

def PlaceholderByte (stage1 : Bytes) (k : Nat) : Prop :=
  ∃ i ≤ k, (k < i + 4 ∧ load stage1 i 4 = stage1LbaPlaceholder) ∨
    (k < i + 2 ∧ load stage1 i 2 = stage1SectorsPlaceholder)

/-- What the call promises: the table of the disk and the code of the image, its
placeholders apart. -/
structure Stage1Preserved (stage1 existing sector : Bytes) : Prop where
  table : ∀ k, 446 ≤ k → k < 510 → sector k = existing k
  code : ∀ k < 446, ¬PlaceholderByte stage1 k → sector k = stage1 k

/-- The sector after the first scan. -/
def lbaPatched (stage1 existing : Bytes) (lba : Nat) : Bytes × List Nat :=
  patchLoop 4 stage1LbaPlaceholder lba (stage1Sector stage1 existing) 0 509

/-- The scans meet placeholders of the image's code only (a match in the
signature is overwritten afterwards). -/
structure OnlyOwnPlaceholders (stage1 existing : Bytes) (lba sectors : Nat) : Prop where
  first : ∀ i ∈ (lbaPatched stage1 existing lba).2, ∀ k, i ≤ k → k < i + 4 →
    k < 446 ∧ PlaceholderByte stage1 k
  second : ∀ i ∈ (patchLoop 2 stage1SectorsPlaceholder sectors
      (lbaPatched stage1 existing lba).1 0 511).2, ∀ k, i ≤ k → k < i + 2 →
    (k < 446 ∧ PlaceholderByte stage1 k) ∨ 510 ≤ k

theorem stage1Sector_table {stage1 existing : Bytes} {k : Nat} (hl : 446 ≤ k) (hu : k < 510) :
    stage1Sector stage1 existing k = existing k := by
  obtain ⟨j, rfl⟩ := Nat.exists_eq_add_of_le hl
  exact blit_inside (by omega)

theorem stage1Sector_code {stage1 existing : Bytes} {k : Nat} (h : k < 446) :
    stage1Sector stage1 existing k = stage1 k := blit_outside (.inl h)

theorem writeStage1_sector {d d' : BlockDevice} {lba sectors : UInt32} {size : Nat}
    {stage1 : Bytes} (h : bootwriterWriteStage1 d lba sectors size stage1 = (true, d')) :
    d'.blocks 0 = blit (patchLoop 2 stage1SectorsPlaceholder (sectors.toNat % 2 ^ 16)
      (lbaPatched stage1 (d.blocks 0) lba.toNat).1 0 511).1 510 2 bootSignature := by
  unfold bootwriterWriteStage1 at h
  split at h
  · cases h
  split at h
  · cases h
  rename_i existing hread
  obtain ⟨_, rfl⟩ := blockDeviceRead_some hread
  split at h
  · cases h
  rename_i first hfirst
  split at h
  · cases h
  rename_i second hsecond
  have hf : first = (lbaPatched stage1 (d.blocks 0) lba.toNat).1 := by
    simp only [patchU32, patch] at hfirst
    rw [if_neg (by decide)] at hfirst
    split at hfirst
    · exact (Option.some.inj hfirst).symm
    · cases hfirst
  have hs : second = (patchLoop 2 stage1SectorsPlaceholder (sectors.toNat % 2 ^ 16)
      first 0 511).1 := by
    simp only [patchU16, patch] at hsecond
    rw [if_neg (by decide)] at hsecond
    split at hsecond
    · exact (Option.some.inj hsecond).symm
    · cases hsecond
  simp only [blockDeviceWrite] at h
  split at h
  · cases h
  rename_i d'' hwrite
  simp only [Prod.mk.injEq] at hwrite
  obtain ⟨hcan, rfl⟩ := hwrite
  split at h
  · cases h
  obtain rfl := (Prod.mk.inj h).2
  rw [d.write_same _ hcan, hs, hf]

/-- The partition table survives when the scans meet the image's own placeholders
only; and while the sector count written is no part of a placeholder, it is lost
as soon as it holds the 16-bit placeholder. -/
theorem write_stage1_preserves {d d' : BlockDevice} {lba sectors : UInt32} {size : Nat}
    {stage1 : Bytes} (h : bootwriterWriteStage1 d lba sectors size stage1 = (true, d')) :
    (OnlyOwnPlaceholders stage1 (d.blocks 0) lba.toNat (sectors.toNat % 2 ^ 16) →
      Stage1Preserved stage1 (d.blocks 0) (d'.blocks 0)) ∧
    (PlainSectors (sectors.toNat % 2 ^ 16) → Stage1Preserved stage1 (d.blocks 0) (d'.blocks 0) →
      ∀ i, 446 ≤ i → i + 2 ≤ 510 → load (d.blocks 0) i 2 ≠ stage1SectorsPlaceholder) := by
  rw [writeStage1_sector h]
  constructor
  · intro hown
    -- a byte that is neither the table's nor a placeholder's is met by no match
    have hkept {k : Nat} (hk : k < 510) (hfree : ¬(k < 446 ∧ PlaceholderByte stage1 k)) :
        blit (patchLoop 2 stage1SectorsPlaceholder (sectors.toNat % 2 ^ 16)
          (lbaPatched stage1 (d.blocks 0) lba.toNat).1 0 511).1 510 2 bootSignature k =
        stage1Sector stage1 (d.blocks 0) k := by
      rw [blit_outside (.inl hk), patchLoop_outside, lbaPatched, patchLoop_outside]
      · intro i hi
        by_contra hc
        exact hfree (hown.first i hi k (by omega) (by omega))
      · intro i hi
        by_contra hc
        rcases hown.second i hi k (by omega) (by omega) with ho | ho
        · exact hfree ho
        · omega
    constructor
    · intro k hl hu
      rw [hkept hu (by omega), stage1Sector_table hl hu]
    · intro k hk hfree
      rw [hkept (by omega) (fun hc => hfree hc.2), stage1Sector_code hk]
  · intro hplain hsaved i hl hu hbeef
    obtain ⟨he, hb⟩ := load_beef.mp hbeef
    have ht0 := hsaved.table i hl (by omega)
    have ht1 := hsaved.table (i + 1) (by omega) (by omega)
    rw [blit_outside (.inl (by omega))] at ht0 ht1
    exact patchLoop_clears hplain _ 0 511 (Nat.zero_le i) (by omega)
      (load_beef.mpr ⟨ht0.trans he, ht1.trans hb⟩)

/-- An image with both placeholders at its start. -/
def smallStage1 : Bytes := pack [(4, 0xDEADBEEF), (2, 0xBEEF)]

theorem succeeded {r : Bool × BlockDevice} (h : r.1 = true) : r = (true, r.2) :=
  Prod.ext h rfl

/-- A disk with one partition, which begins at `first`. -/
def partedDisk (first : Nat) : BlockDevice where
  blockSize := 512
  blockCount := 65536
  blocks _ := mbrSector (some ⟨first, 4096, 0x83, 0x80⟩) none none none
  readFails _ := false
  writeFails _ := false
  blockSize_lt := by decide
  blockCount_lt := by decide

theorem write_stage1_preserves_parted : Stage1Preserved smallStage1 ((partedDisk 2048).blocks 0)
    ((bootwriterWriteStage1 (partedDisk 2048) 2048 8 512 smallStage1).2.blocks 0) := by
  have hok : (bootwriterWriteStage1 (partedDisk 2048) 2048 8 512 smallStage1).1 = true := by
    decide +kernel
  have hdone : bootwriterWriteStage1 (partedDisk 2048) 2048 8 512 smallStage1 =
      (true, (bootwriterWriteStage1 (partedDisk 2048) 2048 8 512 smallStage1).2) :=
    succeeded hok
  have hfirst : (lbaPatched smallStage1 ((partedDisk 2048).blocks 0) 2048).2 = [0] := by decide +kernel
  have hsecond : (patchLoop 2 stage1SectorsPlaceholder 8
      (lbaPatched smallStage1 ((partedDisk 2048).blocks 0) 2048).1 0 511).2 = [4] := by decide +kernel
  refine (write_stage1_preserves hdone).1 ⟨?_, ?_⟩
  · intro i hi k hl hu
    obtain rfl : i = 0 := by simpa using (hfirst ▸ hi : i ∈ [0])
    exact ⟨by omega, 0, Nat.zero_le k, .inl ⟨hu, by decide⟩⟩
  · intro i hi k hl hu
    obtain rfl : i = 4 := by simpa using (hsecond ▸ hi : i ∈ [4])
    exact .inl ⟨by omega, 4, hl, .inr ⟨hu, by decide⟩⟩

theorem write_stage1_moves_partition :
    (bootwriterWriteStage1 (partedDisk 0xBEEF) 2048 8 512 smallStage1).1 = true ∧
    ¬Stage1Preserved smallStage1 ((partedDisk 0xBEEF).blocks 0)
      ((bootwriterWriteStage1 (partedDisk 0xBEEF) 2048 8 512 smallStage1).2.blocks 0) := by
  refine ⟨by decide +kernel, fun h => ?_⟩
  exact absurd (h.table 454 (by omega) (by omega)) (by decide +kernel)

end CapyOS.Proofs
