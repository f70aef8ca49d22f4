import CapyOS.Fs.Fsck
import CapyOS.Lib.Ranges
import CapyOS.Proofs.CapyfsLayout

namespace CapyOS.Proofs
open Lib List

@[simp] theorem addError_clean (r : FsckResult) (t : FsckErrorType) (i b n : Nat) :
    (fsckAddError r t i b n).clean = r.clean := by
  unfold fsckAddError
  split <;> rfl

@[simp] theorem fault_clean (r : FsckResult) (t : FsckErrorType) (i b n : Nat) : (fsckFault r t i b n).clean = false := rfl

/-- Block `b` is a pointer the scan of an inode marks. -/
def Marks (blockCount : Nat) (x : CapyInodeDisk) (b : Nat) : Prop :=
  b ≠ 0 ∧ b < blockCount ∧ ((∃ i, (x.direct i).toNat = b) ∨ x.indirect.toNat = b)

/-- The direct pointers of an inode stay on the volume, clear of the blocks seen
before and of each other. -/
structure DirectsOk (blockCount : Nat) (seen : Nat → Prop) (x : CapyInodeDisk) : Prop where
  range : ∀ i, (x.direct i).toNat ≠ 0 → (x.direct i).toNat < blockCount
  fresh : ∀ i, (x.direct i).toNat ≠ 0 → ¬ seen (x.direct i).toNat
  apart : ∀ i j, (x.direct i).toNat ≠ 0 → (x.direct i).toNat = (x.direct j).toNat → i = j

section
variable (bc ino : Nat) (x : CapyInodeDisk) (s : FsckScan)

theorem checkDirect_seen (i : Fin 12) (b : Nat) : testBit (checkDirect bc ino x s i).blockSeen b = true ↔
      testBit s.blockSeen b = true ∨ (b ≠ 0 ∧ b < bc ∧ (x.direct i).toNat = b) := by
  unfold checkDirect
  simp only
  by_cases h0 : (x.direct i).toNat = 0
  · rw [if_pos h0, h0]
    constructor
    · exact fun h => .inl h
    · rintro (h | ⟨hb, _, he⟩)
      · exact h
      · exact absurd he.symm hb
  · rw [if_neg h0]
    by_cases hr : bc ≤ (x.direct i).toNat
    · rw [if_pos hr]
      constructor
      · exact fun h => .inl h
      · rintro (h | ⟨_, hb, he⟩)
        · exact h
        · omega
    · rw [if_neg hr]
      by_cases hs : testBit s.blockSeen (x.direct i).toNat = true
      · rw [if_pos hs]
        constructor
        · exact fun h => .inl h
        · rintro (h | ⟨_, _, he⟩)
          · exact h
          · rw [← he]
            exact hs
      · rw [if_neg hs]
        simp only [testBit_setBit, Bool.or_eq_true, decide_eq_true_eq]
        constructor
        · rintro (he | h)
          · exact .inr ⟨by omega, by omega, he.symm⟩
          · exact .inl h
        · rintro (h | ⟨_, _, he⟩)
          · exact .inr h
          · exact .inl he.symm

theorem checkDirect_clean (i : Fin 12) : (checkDirect bc ino x s i).result.clean = true ↔
      s.result.clean = true ∧ ((x.direct i).toNat ≠ 0 →
        (x.direct i).toNat < bc ∧ ¬ testBit s.blockSeen (x.direct i).toNat = true) := by
  unfold checkDirect
  simp only
  by_cases h0 : (x.direct i).toNat = 0
  · simp [h0]
  · rw [if_neg h0]
    by_cases hr : bc ≤ (x.direct i).toNat
    · rw [if_pos hr]
      simp only [fault_clean, Bool.false_eq_true, false_iff]
      rintro ⟨_, h⟩
      have := (h h0).1
      omega
    · rw [if_neg hr]
      by_cases hs : testBit s.blockSeen (x.direct i).toNat = true
      · rw [if_pos hs]
        simp [h0, hs]
      · rw [if_neg hs]
        simp [h0, hs, Nat.lt_of_not_le hr]

theorem seen_cons {i : Fin 12} {p q r : Prop} (l : List (Fin 12)) (f : Fin 12 → Prop) :
    (p ∨ (q ∧ r ∧ f i)) ∨ (q ∧ r ∧ ∃ j ∈ l, f j) ↔ p ∨ (q ∧ r ∧ ∃ j ∈ i :: l, f j) := by
  rw [exists_mem_cons_iff]
  tauto

theorem checkDirects_seen (l : List (Fin 12)) (b : Nat) : testBit (l.foldl (checkDirect bc ino x) s).blockSeen b = true ↔
      testBit s.blockSeen b = true ∨ (b ≠ 0 ∧ b < bc ∧ ∃ i ∈ l, (x.direct i).toNat = b) := by
  induction l generalizing s with
  | nil => simp
  | cons i l ih =>
    rw [foldl_cons, ih, checkDirect_seen]
    exact seen_cons l fun i => (x.direct i).toNat = b

theorem checkDirects_clean (l : List (Fin 12)) : (l.foldl (checkDirect bc ino x) s).result.clean = true ↔
      s.result.clean = true ∧ (∀ i ∈ l, (x.direct i).toNat ≠ 0 →
        (x.direct i).toNat < bc ∧ ¬ testBit s.blockSeen (x.direct i).toNat = true) ∧
      l.Pairwise (fun i j => (x.direct i).toNat ≠ 0 → (x.direct i).toNat ≠ (x.direct j).toNat) := by
  induction l generalizing s with
  | nil => simp
  | cons i l ih =>
    rw [foldl_cons, ih, checkDirect_clean, pairwise_cons]
    constructor
    · rintro ⟨⟨hc, hi⟩, hl, hp⟩
      refine ⟨hc, ?_, ?_, hp⟩
      · intro j hj h0
        rcases mem_cons.mp hj with rfl | hj
        · exact hi h0
        · obtain ⟨hb, hs⟩ := hl j hj h0
          exact ⟨hb, fun h => hs ((checkDirect_seen bc ino x s i _).mpr (.inl h))⟩
      · intro j hj h0 he
        obtain ⟨hb, hs⟩ := hl j hj (by omega)
        exact hs ((checkDirect_seen bc ino x s i _).mpr (.inr ⟨by omega, hb, he⟩))
    · rintro ⟨hc, hl, hi, hp⟩
      refine ⟨⟨hc, hl i mem_cons_self⟩, ?_, hp⟩
      intro j hj h0
      obtain ⟨hb, hs⟩ := hl j (mem_cons_of_mem _ hj) h0
      refine ⟨hb, fun h => ?_⟩
      rcases (checkDirect_seen bc ino x s i _).mp h with h | ⟨_, _, he⟩
      · exact hs h
      · exact hi j hj (by omega) he

theorem checkIndirect_seen (b : Nat) : testBit (checkIndirect bc x s).blockSeen b = true ↔
      testBit s.blockSeen b = true ∨ (b ≠ 0 ∧ b < bc ∧ x.indirect.toNat = b) := by
  unfold checkIndirect
  simp only
  by_cases h : x.indirect.toNat ≠ 0 ∧ x.indirect.toNat < bc
  · rw [if_pos h]
    simp only [testBit_setBit, Bool.or_eq_true, decide_eq_true_eq]
    constructor
    · rintro (he | hs)
      · exact .inr ⟨by omega, by omega, he.symm⟩
      · exact .inl hs
    · rintro (hs | ⟨_, _, he⟩)
      · exact .inr hs
      · exact .inl he.symm
  · rw [if_neg h]
    constructor
    · exact fun hs => .inl hs
    · rintro (hs | ⟨h0, hb, he⟩)
      · exact hs
      · exact absurd ⟨by omega, by omega⟩ h

theorem checkIndirect_clean : (checkIndirect bc x s).result.clean = s.result.clean := by
  unfold checkIndirect
  simp only
  split <;> rfl

theorem countInode_clean (r : FsckResult) : (countInode x r).clean = r.clean := by
  unfold countInode
  simp only
  split <;> rfl

theorem checkBitmapBit_clean (alloc : Bool) (r : FsckResult) : (checkBitmapBit ino alloc r).clean = (r.clean && alloc) := by
  unfold checkBitmapBit
  cases alloc <;> simp

theorem checkInode_seen (alloc : Bool) (b : Nat) : testBit (checkInode bc ino alloc x s).blockSeen b = true ↔
      testBit s.blockSeen b = true ∨ (x.hasData = true ∧ Marks bc x b) := by
  unfold checkInode
  by_cases hd : x.hasData = true
  · rw [if_pos hd]
    simp only [checkIndirect_seen, checkDirects_seen, mem_finRange, true_and, hd, Marks]
    constructor
    · rintro ((h | ⟨h0, hb, he⟩) | ⟨h0, hb, he⟩)
      · exact .inl h
      · exact .inr ⟨h0, hb, .inl he⟩
      · exact .inr ⟨h0, hb, .inr he⟩
    · rintro (h | ⟨h0, hb, he | he⟩)
      · exact .inl (.inl h)
      · exact .inl (.inr ⟨h0, hb, he⟩)
      · exact .inr ⟨h0, hb, he⟩
  · rw [if_neg hd]
    split <;> simp [hd]

theorem checkInode_clean (alloc : Bool) : (checkInode bc ino alloc x s).result.clean = true ↔
      s.result.clean = true ∧ alloc = x.hasData ∧
        (x.hasData = true → DirectsOk bc (fun b => testBit s.blockSeen b = true) x) := by
  unfold checkInode
  by_cases hd : x.hasData = true
  · rw [if_pos hd]
    simp only [checkIndirect_clean, checkDirects_clean, countInode_clean, checkBitmapBit_clean, hd,
      Bool.and_eq_true, mem_finRange, true_imp_iff]
    have hpair : (finRange 12).Pairwise
        (fun i j => (x.direct i).toNat ≠ 0 → (x.direct i).toNat ≠ (x.direct j).toNat) ↔
        ∀ i j, (x.direct i).toNat ≠ 0 → (x.direct i).toNat = (x.direct j).toNat → i = j := by
      constructor
      · intro hp i j h0 he
        by_contra hne
        rcases Nat.lt_or_gt_of_ne (fun h => hne (Fin.ext h)) with hlt | hgt
        · exact pairwise_iff_get.mp hp (i.cast (by simp)) (j.cast (by simp)) hlt
            (by simpa using h0) (by simpa using he)
        · exact pairwise_iff_get.mp hp (j.cast (by simp)) (i.cast (by simp)) hgt
            (by simpa using he ▸ h0) (by simpa using he.symm)
      · intro h
        exact (nodup_finRange 12).imp (fun hne h0 he => hne (h _ _ h0 he))
    rw [hpair]
    constructor
    · rintro ⟨⟨hc, ha⟩, hl, hp⟩
      exact ⟨hc, ha, fun i h0 => (hl i h0).1, fun i h0 => (hl i h0).2, hp⟩
    · rintro ⟨hc, ha, hok⟩
      exact ⟨⟨hc, ha⟩, fun i h0 => ⟨hok.range i h0, hok.fresh i h0⟩, hok.apart⟩
  · rw [if_neg hd]
    cases alloc <;> simp [hd]

end

def SeenBelow (bc : Nat) (inode : Nat → CapyInodeDisk) (n b : Nat) : Prop :=
  ∃ ino, ino < n ∧ (inode ino).hasData = true ∧ Marks bc (inode ino) b

theorem checkInodes_spec (bc : Nat) (alloc : Nat → Bool) (inode : Nat → CapyInodeDisk) (r : FsckResult) (n : Nat) :
    (∀ b, testBit ((List.range n).foldl (fun s ino => checkInode bc ino (alloc ino) (inode ino) s)
        ⟨zeros, r⟩).blockSeen b = true ↔ SeenBelow bc inode n b) ∧
    (((List.range n).foldl (fun s ino => checkInode bc ino (alloc ino) (inode ino) s) ⟨zeros, r⟩).result.clean = true ↔
      r.clean = true ∧ ∀ ino, ino < n → alloc ino = (inode ino).hasData ∧
        ((inode ino).hasData = true → DirectsOk bc (SeenBelow bc inode ino) (inode ino))) := by
  induction n with
  | zero =>
    constructor
    · intro b
      simp [SeenBelow, testBit]
    · simp
  | succ n ih =>
    obtain ⟨hseen, hclean⟩ := ih
    rw [range_succ, foldl_append, foldl_cons, foldl_nil]
    constructor
    · intro b
      rw [checkInode_seen, hseen]
      constructor
      · rintro (⟨ino, hlt, h⟩ | h)
        · exact ⟨ino, by omega, h⟩
        · exact ⟨n, by omega, h⟩
      · rintro ⟨ino, hlt, h⟩
        rcases Nat.lt_succ_iff_lt_or_eq.mp hlt with hlt | rfl
        · exact .inl ⟨ino, hlt, h⟩
        · exact .inr h
    · rw [checkInode_clean, hclean, funext (fun b => propext (hseen b))]
      constructor
      · rintro ⟨⟨hr, hall⟩, hn⟩
        refine ⟨hr, fun ino hlt => ?_⟩
        rcases Nat.lt_succ_iff_lt_or_eq.mp hlt with hlt | rfl
        · exact hall ino hlt
        · exact hn
      · rintro ⟨hr, hall⟩
        exact ⟨⟨hr, fun ino hlt => hall ino (by omega)⟩, hall n (by omega)⟩

theorem checkOrphans_clean (bmap : Bytes) (l : List Nat) (s : FsckScan) :
    (l.foldl (checkOrphanBlock bmap) s).result.clean = true ↔ s.result.clean = true ∧
        ∀ b ∈ l, testBit bmap b = true → testBit s.blockSeen b = true := by
  induction l generalizing s with
  | nil => simp
  | cons b l ih =>
    rw [foldl_cons, ih]
    unfold checkOrphanBlock
    by_cases hb : testBit bmap b = true
    · by_cases hs : testBit s.blockSeen b = true
      · simp [hb, hs]
      · simp [hb, hs]
    · simp [hb]


/-- The superblock as the device holds it. -/
def diskSuper (d : BlockDevice) : CapySuper := readCapySuper (d.blocks 0)

/-- A volume whose superblock is accepted and none of whose reads fails. -/
structure Accepted (d : BlockDevice) : Prop where
  magic : (diskSuper d).magic = capyfsMagic
  version : (diskSuper d).version = capyfsVersion
  geometry : fsckSuperGeometryValid (diskSuper d) d.blockCount d.blockSize = true
  reads : ∀ n, n < d.blockCount → d.readFails n = false
  table : ∀ ino, ino < (diskSuper d).inodeCount.toNat →
    u32 ((diskSuper d).inodeStart.toNat + ino / inodesPerBlockOf d) < d.blockCount

/-- Memory for everything a check asks for. -/
structure CheckMemory (heap : Heap) (d : BlockDevice) : Prop where
  buf : heap d.blockSize = true
  inodes : heap (mapBytes (diskSuper d).inodeCount.toNat) = true
  blocks : heap (mapBytes (diskSuper d).blockCount.toNat) = true
  imap : heap (mapBlocks d.blockSize (diskSuper d).inodeCount.toNat * d.blockSize) = true
  bmap : heap (mapBlocks d.blockSize (diskSuper d).blockCount.toNat * d.blockSize) = true

/-- What the checks other than that of the block bitmap look at. Only direct
pointers are held against what was seen before. -/
structure ScanPasses (d : BlockDevice) (sb : CapySuper) : Prop where
  imap : ∀ ino, ino < sb.inodeCount.toNat → imapBit d sb ino = (tableInode d sb ino).hasData
  root : (tableInode d sb 0).isDir = true
  directs : ∀ ino, InUse d sb ino → DirectsOk sb.blockCount.toNat
    (SeenBelow sb.blockCount.toNat (tableInode d sb) ino) (tableInode d sb ino)

def DirectlyUsed (d : BlockDevice) (sb : CapySuper) : Prop :=
  ∀ b, sb.dataStart.toNat ≤ b → b < sb.blockCount.toNat → bmapBit d sb b = true →
    ∃ ino, InUse d sb ino ∧ Marks sb.blockCount.toNat (tableInode d sb ino) b

def AllUsed (d : BlockDevice) (sb : CapySuper) : Prop :=
  ∀ b, sb.dataStart.toNat ≤ b → b < sb.blockCount.toNat → bmapBit d sb b = true →
    Referenced d sb b

/-- Indirect pointers and the entries behind them stay on the volume, and no
block is referenced twice. -/
structure IndirectsSound (d : BlockDevice) (sb : CapySuper) : Prop where
  range : ∀ ino slot, InUse d sb ino → (∀ i, slot ≠ .direct i) →
    slotPtr d sb (tableInode d sb ino) slot < sb.blockCount.toNat
  once : ∀ ino slot ino' slot', InUse d sb ino → InUse d sb ino' →
    slotPtr d sb (tableInode d sb ino) slot ≠ 0 →
    slotPtr d sb (tableInode d sb ino) slot = slotPtr d sb (tableInode d sb ino') slot' →
    ino = ino' ∧ slot = slot'

section
variable {d : BlockDevice}

/-- The bounds of an accepted geometry that the walk relies on. -/
theorem geometry_bounds {sb : CapySuper} {n bs : Nat} (h : fsckSuperGeometryValid sb n bs = true) :
    0 < sb.inodeCount.toNat ∧ 0 < sb.blockCount.toNat ∧ 0 < bs ∧ 0 < bs / inodeDiskSize ∧
      sb.blockCount.toNat ≤ n ∧ sb.dataStart.toNat ≤ sb.blockCount.toNat ∧
      sb.imapStart.toNat + mapBlocks bs sb.inodeCount.toNat ≤ n ∧
      sb.bmapStart.toNat + mapBlocks bs sb.blockCount.toNat ≤ n := by
  simp only [fsckSuperGeometryValid, decide_eq_true_eq] at h
  obtain ⟨_, h8, _, hic, hbc, hfit, hipb, _, _, _, _, hds, _, _, _, _, _, _, _, him, hbm⟩ := h
  exact ⟨by omega, by omega, by omega, Nat.pos_of_ne_zero hipb, hfit, hds, him, hbm⟩

theorem mapByte_block {bs count i : Nat} (hbs : 0 < bs) (h : i < count) : i / 8 / bs < mapBlocks bs count := by
  unfold mapBlocks mapBytes
  rw [Nat.div_lt_iff_lt_mul hbs]
  have hmod := Nat.div_add_mod ((count + 7) / 8 + bs - 1) bs
  have hlt := Nat.mod_lt ((count + 7) / 8 + bs - 1) hbs
  have hcomm := Nat.mul_comm bs (((count + 7) / 8 + bs - 1) / bs)
  omega

theorem testBit_readBlocks {start count i : Nat} (junk : Bytes) (hbs : 0 < d.blockSize)
    (hfit : start + mapBlocks d.blockSize count ≤ d.blockCount)
    (hreads : ∀ n, n < d.blockCount → d.readFails n = false) (hi : i < count) :
    testBit (readBlocks d start junk) i = testBit (diskMap d start) i := by
  have hb := mapByte_block hbs hi
  have hcan : d.canRead (start + i / 8 / d.blockSize) = true := by
    have hlt : start + i / 8 / d.blockSize < d.blockCount := by omega
    simp [BlockDevice.canRead, hlt, hreads _ hlt]
  simp only [testBit, readBlocks, diskMap, blockDeviceRead_of_canRead hcan]

theorem mem_inodesOf {ipb count ib ino : Nat} (hipb : 0 < ipb) :
    ino ∈ inodesOf ipb count ib ↔ ino / ipb = ib ∧ ino < count := by
  constructor
  · intro h
    obtain ⟨j, hj, rfl⟩ := mem_map.mp h
    have hlt := mem_range.mp hj
    refine ⟨?_, by omega⟩
    rw [Nat.mul_comm, Nat.mul_add_div hipb, Nat.div_eq_of_lt (by omega), Nat.add_zero]
  · rintro ⟨rfl, hlt⟩
    have hmod := Nat.div_add_mod' ino ipb
    have hrest := Nat.mod_lt ino hipb
    exact mem_map.mpr ⟨ino % ipb, mem_range.mpr (by omega), hmod⟩

theorem inodesOf_flatMap (sb : CapySuper) (h : 0 < inodesPerBlockOf d) :
    (List.range (inodeBlockCount d sb)).flatMap (inodesOf (inodesPerBlockOf d) sb.inodeCount.toNat)
      = List.range sb.inodeCount.toNat :=
  range_chunks_all sb.inodeCount.toNat h

theorem checkInodeBlocks_eq (ha : Accepted d) (hipb : 0 < inodesPerBlockOf d) (alloc : Nat → Bool) (s : FsckScan) :
    (List.range (inodeBlockCount d (diskSuper d))).foldl (checkInodeBlock d (diskSuper d) alloc) s =
      (List.range (diskSuper d).inodeCount.toNat).foldl (fun s ino => checkInode (diskSuper d).blockCount.toNat ino (alloc ino)
          (tableInode d (diskSuper d) ino) s) s := by
  rw [← inodesOf_flatMap (diskSuper d) hipb, foldl_flatMap]
  apply foldl_ext
  intro s ib hib
  -- a table block that holds no inode is not scanned at all
  have hblock : ∀ b, blockDeviceRead d (u32 ((diskSuper d).inodeStart.toNat + ib)) = b →
      ∀ ino ∈ inodesOf (inodesPerBlockOf d) (diskSuper d).inodeCount.toNat ib,
        b = some (d.blocks (u32 ((diskSuper d).inodeStart.toNat + ino / inodesPerBlockOf d))) := by
    intro b hb ino hino
    obtain ⟨hdiv, hlt⟩ := (mem_inodesOf hipb).mp hino
    have htab := ha.table ino hlt
    rw [hdiv] at htab ⊢
    rw [← hb]
    exact blockDeviceRead_of_canRead (by simp [BlockDevice.canRead, htab, ha.reads _ htab])
  unfold checkInodeBlock
  cases hr : blockDeviceRead d (u32 ((diskSuper d).inodeStart.toNat + ib)) with
  | none =>
    cases hl : inodesOf (inodesPerBlockOf d) (diskSuper d).inodeCount.toNat ib with
    | nil => rfl
    | cons ino l =>
      have := hblock none hr ino (by rw [hl]; exact mem_cons_self)
      cases this
  | some b =>
    simp only
    apply foldl_ext
    intro s ino hino
    have hb := Option.some.inj (hblock (some b) hr ino hino)
    rw [hb]
    rfl

theorem checkRoot_clean (ha : Accepted d) (r : FsckResult) : (checkRoot d (diskSuper d) r).clean = true ↔
      r.clean = true ∧ (tableInode d (diskSuper d) 0).isDir = true := by
  obtain ⟨hic, _, _, hipb, _⟩ := geometry_bounds ha.geometry
  have htab := ha.table 0 hic
  have hu : u32 (diskSuper d).inodeStart.toNat = (diskSuper d).inodeStart.toNat :=
    u32_of_lt (diskSuper d).inodeStart.isLt
  simp only [Nat.zero_div, Nat.add_zero, hu] at htab
  have hroot : tableInode d (diskSuper d) 0 =
      readInodeAt (d.blocks (diskSuper d).inodeStart.toNat) 0 := by
    simp [tableInode, hu]
  unfold checkRoot
  rw [blockDeviceRead_of_canRead (by simp [BlockDevice.canRead, htab, ha.reads _ htab]), hroot]
  simp only
  split <;> simp_all

theorem check_clean (heap : Heap) (junk : Bytes) (ha : Accepted d) (hm : CheckMemory heap d) :
    (fsckCheck heap junk d).2.clean = true ↔ ScanPasses d (diskSuper d) ∧ DirectlyUsed d (diskSuper d) := by
  obtain ⟨hic, hbc, hbs, hipb, hdev, hds, him, hbm⟩ := geometry_bounds ha.geometry
  have hr0 : blockDeviceRead d 0 = some (d.blocks 0) := by
    have h0 : 0 < d.blockCount := by omega
    exact blockDeviceRead_of_canRead (by simp [BlockDevice.canRead, h0, ha.reads _ h0])
  have hcheck : fsckCheck heap junk d = (0, fsckWalk d (diskSuper d) heap junk .start) := by
    unfold fsckCheck
    rw [hr0]
    simp only [show readCapySuper (d.blocks 0) = diskSuper d from rfl, ha.magic, ha.version,
      ha.geometry, hm.buf, hm.inodes, hm.blocks]
    rfl
  rw [hcheck]
  unfold fsckWalk
  simp only [hm.imap, hm.bmap, Bool.true_and, if_true, checkRoot_clean ha, checkOrphans_clean, checkInodeBlocks_eq ha hipb]
  obtain ⟨hseen, hclean⟩ := checkInodes_spec (diskSuper d).blockCount.toNat
    (fun ino => testBit (readBlocks d (diskSuper d).imapStart.toNat junk) ino)
    (tableInode d (diskSuper d)) .start (diskSuper d).inodeCount.toNat
  rw [hclean]
  simp only [hseen, mem_range'_1, show FsckResult.start.clean = true from rfl, true_and]
  constructor
  · rintro ⟨⟨hall, horph⟩, hroot⟩
    refine ⟨⟨fun ino hlt => ?_, hroot, fun ino hu => (hall ino hu.1).2 hu.2⟩, ?_⟩
    · rw [← (hall ino hlt).1, testBit_readBlocks junk hbs him ha.reads hlt]
      rfl
    · intro b hlo hhi hbit
      obtain ⟨ino, hlt, hdata, hmark⟩ := horph b ⟨hlo, by omega⟩ (by
        rw [testBit_readBlocks junk hbs hbm ha.reads hhi]
        exact hbit)
      exact ⟨ino, ⟨hlt, hdata⟩, hmark⟩
  · rintro ⟨hpass, hused⟩
    refine ⟨⟨fun ino hlt => ⟨?_, fun hdata => hpass.directs ino ⟨hlt, hdata⟩⟩, ?_⟩, hpass.root⟩
    · rw [testBit_readBlocks junk hbs him ha.reads hlt]
      exact hpass.imap ino hlt
    · rintro b ⟨hlo, hhi⟩ hbit
      have hb : b < (diskSuper d).blockCount.toNat := by omega
      rw [testBit_readBlocks junk hbs hbm ha.reads hb] at hbit
      obtain ⟨ino, hu, hmark⟩ := hused b hlo hb hbit
      exact ⟨ino, hu.1, hu.2, hmark⟩

end

section
variable {d : BlockDevice} {sb : CapySuper}

theorem Marks.referenced {ino b : Nat} (hu : InUse d sb ino)
    (hm : Marks sb.blockCount.toNat (tableInode d sb ino) b) : Referenced d sb b := by
  obtain ⟨h0, _, ⟨i, he⟩ | he⟩ := hm
  · exact ⟨h0, ino, .direct i, hu, he⟩
  · exact ⟨h0, ino, .indirect, hu, he⟩

theorem DirectlyUsed.allUsed (h : DirectlyUsed d sb) : AllUsed d sb := by
  intro b hlo hhi hbit
  obtain ⟨ino, hu, hm⟩ := h b hlo hhi hbit
  exact hm.referenced hu

theorem consistent_scanPasses (h : Consistent d sb) : ScanPasses d sb := by
  refine ⟨h.imap, h.root, fun ino hu => ⟨?_, ?_, ?_⟩⟩
  · exact fun i _ => h.range ino (.direct i) hu
  · rintro i h0 ⟨ino', hlt, hd, _, _, ⟨j, he⟩ | he⟩
    · have heq := h.once ino (.direct i) ino' (.direct j) hu ⟨by have := hu.1; omega, hd⟩ h0 he.symm
      omega
    · have heq := h.once ino (.direct i) ino' .indirect hu ⟨by have := hu.1; omega, hd⟩ h0 he.symm
      omega
  · intro i j h0 he
    exact Slot.direct.inj (h.once ino (.direct i) ino (.direct j) hu hu h0 he).2

theorem consistent_iff : Consistent d sb ↔ ScanPasses d sb ∧ IndirectsSound d sb ∧ AllUsed d sb := by
  constructor
  · intro h
    exact ⟨consistent_scanPasses h, ⟨fun ino slot hu _ => h.range ino slot hu, h.once⟩, h.used⟩
  · rintro ⟨hpass, hind, hused⟩
    refine ⟨hpass.imap, hpass.root, fun ino slot hu => ?_, hind.once, hused⟩
    cases slot with
    | direct i =>
      by_cases h0 : ((tableInode d sb ino).direct i).toNat = 0
      · have hm := hind.range ino .indirect hu (by intro i; exact Slot.noConfusion)
        simp only [slotPtr] at hm ⊢
        omega
      · exact (hpass.directs ino hu).range i h0
    | indirect => exact hind.range ino .indirect hu (by intro i; exact Slot.noConfusion)
    | entry k => exact hind.range ino (.entry k) hu (by intro i; exact Slot.noConfusion)

end

/-- A check tells consistent volumes from others exactly when, on a volume that
passes the other checks and has no unreferenced block, indirect blocks are sound
if and only if no allocated block is reachable through their entries alone. -/
theorem check_decides (heap : Heap) (junk : Bytes) (d : BlockDevice) (ha : Accepted d)
    (hm : CheckMemory heap d) :
    ((fsckCheck heap junk d).2.clean = true ↔ Consistent d (diskSuper d)) ↔
      (ScanPasses d (diskSuper d) → AllUsed d (diskSuper d) →
        (DirectlyUsed d (diskSuper d) ↔ IndirectsSound d (diskSuper d))) := by
  rw [check_clean heap junk ha hm, consistent_iff]
  constructor
  · intro h hpass hall
    constructor
    · intro hdir
      exact (h.mp ⟨hpass, hdir⟩).2.1
    · intro hind
      exact (h.mpr ⟨hpass, hind, hall⟩).2
  · intro h
    constructor
    · rintro ⟨hpass, hdir⟩
      exact ⟨hpass, (h hpass hdir.allUsed).mp hdir, hdir.allUsed⟩
    · rintro ⟨hpass, hind, hall⟩
      exact ⟨hpass, (h hpass hall).mpr hind⟩

/-- A fresh volume of 64 blocks and 8 inodes, with data from block 4 on. -/
def smallVolume : BlockDevice := (capyfsFormat (plainDevice 64) 8 0).2

theorem smallVolume_blocks : (diskSuper smallVolume).inodeCount.toNat = 8 ∧ (diskSuper smallVolume).blockCount.toNat = 64 ∧
    (diskSuper smallVolume).dataStart.toNat = 4 ∧ (∀ i, i < 8 → i ≠ 0 →
      (tableInode smallVolume (diskSuper smallVolume) i).hasData = false) ∧
    (tableInode smallVolume (diskSuper smallVolume) 0).indirect = 0#32 ∧
    (∀ i, ((tableInode smallVolume (diskSuper smallVolume) 0).direct i).toNat = 0) ∧
    ∀ b, b < 64 → 4 ≤ b → bmapBit smallVolume (diskSuper smallVolume) b = false := by
  decide +kernel

theorem smallVolume_inodes (ino : Nat) (h : InUse smallVolume (diskSuper smallVolume) ino) : ino = 0 := by
  obtain ⟨hlt, hd⟩ := h
  obtain ⟨hcount, _, _, hall, _⟩ := smallVolume_blocks
  by_contra h0
  rw [hall ino (Nat.lt_of_lt_of_eq hlt hcount) h0] at hd
  cases hd

theorem smallVolume_slots (slot : Slot) : slotPtr smallVolume (diskSuper smallVolume)
      (tableInode smallVolume (diskSuper smallVolume) 0) slot = 0 := by
  obtain ⟨_, _, _, _, hi, hall, _⟩ := smallVolume_blocks
  cases slot with
  | direct i => exact hall i
  | indirect => simp [slotPtr, hi]
  | entry k => simp [slotPtr, hi]

theorem smallVolume_decided :
    Accepted smallVolume ∧ CheckMemory ampleHeap smallVolume ∧
      ((fsckCheck ampleHeap zeros smallVolume).2.clean = true ↔
        Consistent smallVolume (diskSuper smallVolume)) := by
  have ha : Accepted smallVolume :=
    ⟨by decide +kernel, by decide +kernel, by decide +kernel, by decide +kernel, by decide +kernel⟩
  have hm : CheckMemory ampleHeap smallVolume := ⟨rfl, rfl, rfl, rfl, rfl⟩
  refine ⟨ha, hm, (check_decides ampleHeap zeros smallVolume ha hm).mpr ?_⟩
  intro _ _
  obtain ⟨_, hbc, hds, _, _, _, hfree⟩ := smallVolume_blocks
  constructor
  · intro _
    refine ⟨fun ino slot hu _ => ?_, fun ino slot ino' slot' hu _ h0 _ => ?_⟩
    · rw [smallVolume_inodes ino hu, smallVolume_slots, hbc]
      decide
    · rw [smallVolume_inodes ino hu, smallVolume_slots] at h0
      exact absurd rfl h0
  · intro _ b hlo hhi hbit
    rw [hfree b (by omega) (by omega)] at hbit
    cases hbit

def longFile : Option Nat × Fs :=
  let m := diskSuper smallVolume
  let r := capyfsCreate ampleHeap m ⟨0, vfsModeDir, 0, 0, 0, 0o755⟩ [0x66#8] vfsModeFile none
    ⟨smallVolume, 0⟩
  match r.1 with
  | none => (none, r.2)
  | some f =>
    let w := capyfsWrite m f 49152 zeros 1 r.2
    (w.1.map Prod.fst, w.2)

def longFileDevice : BlockDevice := longFile.2.dev

/-- The volume after both calls: its superblock, which inodes are in use, their
pointers, and the blocks marked as taken. -/
theorem longFile_blocks :
    ((diskSuper longFileDevice).inodeCount.toNat = 8 ∧
      (diskSuper longFileDevice).blockCount.toNat = 64 ∧
      (diskSuper longFileDevice).dataStart.toNat = 4 ∧ longFileDevice.blockSize / 4 = 1024) ∧
    ((∀ i, i < 8 → i ≠ 0 → i ≠ 1 →
        (tableInode longFileDevice (diskSuper longFileDevice) i).hasData = false) ∧
      (tableInode longFileDevice (diskSuper longFileDevice) 0).hasData = true ∧
      (tableInode longFileDevice (diskSuper longFileDevice) 1).hasData = true) ∧
    ((tableInode longFileDevice (diskSuper longFileDevice) 0).indirect = 0#32 ∧
      (∀ i, ((tableInode longFileDevice (diskSuper longFileDevice) 0).direct i).toNat =
        if i = 0 then 4 else 0) ∧
      (tableInode longFileDevice (diskSuper longFileDevice) 1).indirect = 5#32 ∧
      ∀ i, ((tableInode longFileDevice (diskSuper longFileDevice) 1).direct i).toNat = 0) ∧
    ∀ b, b < 64 → 4 ≤ b → bmapBit longFileDevice (diskSuper longFileDevice) b = true →
      b = 4 ∨ b = 5 ∨ b = 6 := by
  decide +kernel

theorem longFile_inodes (ino : Nat) (h : InUse longFileDevice (diskSuper longFileDevice) ino) : ino = 0 ∨ ino = 1 := by
  obtain ⟨hlt, hd⟩ := h
  obtain ⟨⟨hcount, _⟩, ⟨hall, _⟩, _⟩ := longFile_blocks
  by_contra hno
  rw [hall ino (Nat.lt_of_lt_of_eq hlt hcount) (by omega) (by omega)] at hd
  cases hd

theorem longFile_root (slot : Slot) :
    slotPtr longFileDevice (diskSuper longFileDevice)
      (tableInode longFileDevice (diskSuper longFileDevice) 0) slot =
        if slot = .direct 0 then 4 else 0 := by
  obtain ⟨_, _, ⟨hi, hd, _⟩, _⟩ := longFile_blocks
  cases slot with
  | direct i => simpa [slotPtr] using hd i
  | indirect => simp [slotPtr, hi]
  | entry k => simp [slotPtr, hi]

/-- The file has an indirect block and one block behind it. -/
theorem longFile_file (slot : Slot) : slotPtr longFileDevice (diskSuper longFileDevice)
      (tableInode longFileDevice (diskSuper longFileDevice) 1) slot =
        if slot = .indirect then 5 else if slot = .entry 0 then 6 else 0 := by
  obtain ⟨⟨_, hb, _, hn⟩, _, ⟨_, _, hi, hd⟩, _⟩ := longFile_blocks
  have hblock : longFileDevice.blocks 5 = store zeros 0 4 6 := rfl
  cases slot with
  | direct i => simpa [slotPtr] using hd i
  | indirect => simp [slotPtr, hi]
  | entry k =>
    simp only [slotPtr, hi, hn, hb, field32_toNat, show (5#32).toNat = 5 from rfl, hblock]
    rcases Nat.eq_zero_or_pos k with rfl | hk
    · simp [load_store_same]
    · have hne : k ≠ 0 := by omega
      rw [load_store_other (by omega), load_zeros]
      simp [hne]

theorem longFile_consistent : Consistent longFileDevice (diskSuper longFileDevice) := by
  obtain ⟨⟨hcount, hbc, hds, _⟩, ⟨_, hroot, hfile⟩, _, hused⟩ := longFile_blocks
  have huse : InUse longFileDevice (diskSuper longFileDevice) 0 ∧
      InUse longFileDevice (diskSuper longFileDevice) 1 :=
    ⟨⟨Nat.lt_of_lt_of_eq (by decide) hcount.symm, hroot⟩, ⟨Nat.lt_of_lt_of_eq (by decide) hcount.symm, hfile⟩⟩
  refine ⟨by decide +kernel, by decide +kernel, fun ino slot hu => ?_, ?_, ?_⟩
  · rw [hbc]
    rcases longFile_inodes ino hu with rfl | rfl
    · rw [longFile_root]
      split <;> decide
    · rw [longFile_file]
      split
      · decide
      · split <;> decide
  · intro ino slot ino' slot' hu hu' h0 he
    rcases longFile_inodes ino hu with rfl | rfl <;> rcases longFile_inodes ino' hu' with rfl | rfl
      <;> simp only [longFile_root, longFile_file] at h0 he
    all_goals grind
  · intro b hlo hhi hbit
    rcases hused b (by omega) (by omega) hbit with rfl | rfl | rfl
    · exact ⟨by decide, 0, .direct 0, huse.1, by rw [longFile_root]; rfl⟩
    · exact ⟨by decide, 1, .indirect, huse.2, by rw [longFile_file]; rfl⟩
    · exact ⟨by decide, 1, .entry 0, huse.2, by rw [longFile_file]; rfl⟩

/-- Both calls succeed, but the file's only data block hangs off an indirect
block, and the check takes it for an orphan. -/
theorem longFile_not_clean :
    longFile.1 = some 1 ∧ Accepted longFileDevice ∧ CheckMemory ampleHeap longFileDevice ∧
      Consistent longFileDevice (diskSuper longFileDevice) ∧
      (fsckCheck ampleHeap zeros longFileDevice).2.errors = [⟨.orphanBlock, 0, 6, 0⟩] ∧
      ¬ (fsckCheck ampleHeap zeros longFileDevice).2.clean = true := by
  refine ⟨by decide, ?_, ⟨rfl, rfl, rfl, rfl, rfl⟩, longFile_consistent, by decide,
    by decide⟩
  exact ⟨by decide, by decide, by decide, by decide,
    by decide⟩

end CapyOS.Proofs
