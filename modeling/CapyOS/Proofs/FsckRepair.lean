import CapyOS.Proofs.FsckCheck

namespace CapyOS.Proofs
open Lib List

section
variable (bc : Nat) (inode : Nat → CapyInodeDisk)

theorem testBit_markBlock (m : Bytes) (p : BitVec 32) (b : Nat) : testBit (markBlock bc m p) b = true ↔
      testBit m b = true ∨ (b ≠ 0 ∧ b < bc ∧ p.toNat = b) := by
  have hz : p ≠ 0#32 ↔ p.toNat ≠ 0 := by
    rw [Ne, ← BitVec.toNat_inj]
    rfl
  unfold markBlock
  by_cases hp : p ≠ 0#32 ∧ p.toNat < bc
  · rw [if_pos hp, testBit_setBit]
    rw [hz] at hp
    simp only [Bool.or_eq_true, decide_eq_true_eq]
    constructor
    · rintro (rfl | h)
      · exact .inr ⟨hp.1, hp.2, rfl⟩
      · exact .inl h
    · rintro (h | ⟨_, _, rfl⟩)
      · exact .inr h
      · exact .inl rfl
  · rw [if_neg hp]
    rw [hz] at hp
    constructor
    · exact fun h => .inl h
    · rintro (h | ⟨h0, hb, rfl⟩)
      · exact h
      · exact absurd ⟨h0, hb⟩ hp

theorem testBit_markDirects (x : CapyInodeDisk) (l : List (Fin 12)) (m : Bytes) (b : Nat) :
    testBit (l.foldl (fun m i => markBlock bc m (x.direct i)) m) b = true ↔
      testBit m b = true ∨ (b ≠ 0 ∧ b < bc ∧ ∃ i ∈ l, (x.direct i).toNat = b) := by
  induction l generalizing m with
  | nil => simp
  | cons i l ih =>
    rw [foldl_cons, ih, testBit_markBlock]
    exact seen_cons l fun i => (x.direct i).toNat = b

theorem repairInode_spec (x : CapyInodeDisk) (s : RepairScan) (ino : Nat) : (repairInode bc x s ino).buf = s.buf ∧
    (∀ i, testBit (repairInode bc x s ino).newImap i = true ↔ testBit s.newImap i = true ∨ (x.hasData = true ∧ i = ino)) ∧
    (∀ b, testBit (repairInode bc x s ino).newBmap b = true ↔
      testBit s.newBmap b = true ∨ (x.hasData = true ∧ Marks bc x b)) := by
  unfold repairInode
  by_cases hd : x.hasData = true
  · rw [if_pos hd]
    refine ⟨rfl, fun i => ?_, fun b => ?_⟩
    · simp only [testBit_setBit, Bool.or_eq_true, decide_eq_true_eq, hd, true_and]
      exact or_comm
    · simp only [testBit_markBlock, testBit_markDirects, mem_finRange, true_and, hd, Marks]
      constructor
      · rintro ((h | ⟨h0, hb, he⟩) | ⟨h0, hb, he⟩)
        · exact .inl h
        · exact .inr ⟨h0, hb, .inl he⟩
        · exact .inr ⟨h0, hb, .inr he⟩
      · rintro (h | ⟨h0, hb, he | he⟩)
        · exact .inl (.inl h)
        · exact .inl (.inr ⟨h0, hb, he⟩)
        · exact .inr ⟨h0, hb, he⟩
  · rw [if_neg hd]
    simp [hd]

theorem repairInodes_spec (l : List Nat) (s : RepairScan) :
    (l.foldl (fun s ino => repairInode bc (inode ino) s ino) s).buf = s.buf ∧
    (∀ i, testBit (l.foldl (fun s ino => repairInode bc (inode ino) s ino) s).newImap i = true ↔
      testBit s.newImap i = true ∨ (i ∈ l ∧ (inode i).hasData = true)) ∧
    (∀ b, testBit (l.foldl (fun s ino => repairInode bc (inode ino) s ino) s).newBmap b = true ↔ testBit s.newBmap b = true ∨
        ∃ ino ∈ l, (inode ino).hasData = true ∧ Marks bc (inode ino) b) := by
  induction l generalizing s with
  | nil => simp
  | cons ino l ih =>
    obtain ⟨hbuf, himap, hbmap⟩ := ih (repairInode bc (inode ino) s ino)
    obtain ⟨hbuf₁, himap₁, hbmap₁⟩ := repairInode_spec bc (inode ino) s ino
    rw [foldl_cons]
    refine ⟨hbuf.trans hbuf₁, fun i => ?_, fun b => ?_⟩
    · rw [himap, himap₁]
      constructor
      · rintro ((h | ⟨hd, rfl⟩) | ⟨hl, hd⟩)
        · exact .inl h
        · exact .inr ⟨mem_cons_self, hd⟩
        · exact .inr ⟨mem_cons_of_mem _ hl, hd⟩
      · rintro (h | ⟨hl, hd⟩)
        · exact .inl (.inl h)
        · rcases mem_cons.mp hl with rfl | hl
          · exact .inl (.inr ⟨hd, rfl⟩)
          · exact .inr ⟨hl, hd⟩
    · rw [hbmap, hbmap₁]
      constructor
      · rintro ((h | h) | ⟨j, hj, h⟩)
        · exact .inl h
        · exact .inr ⟨ino, mem_cons_self, h⟩
        · exact .inr ⟨j, mem_cons_of_mem _ hj, h⟩
      · rintro (h | ⟨j, hj, h⟩)
        · exact .inl (.inl h)
        · rcases mem_cons.mp hj with rfl | hj
          · exact .inl (.inr h)
          · exact .inr ⟨j, hj, h⟩

end

/-- The first record of each table block of a repair, seen through the superblock
view of the shared buffer, stands for the superblock fields that are still to be
used: the table's own start after every block but the last, and the bitmaps'
starts after the last. -/
structure BufferStands (d : BlockDevice) (sb : CapySuper) : Prop where
  next : ∀ k, k + 1 < inodeBlockCount d sb →
    (tableInode d sb (k * inodesPerBlockOf d)).direct 2 = sb.inodeStart
  imap : ∀ k, k + 1 = inodeBlockCount d sb →
    (tableInode d sb (k * inodesPerBlockOf d)).direct 1 = sb.imapStart
  bmap : ∀ k, k + 1 = inodeBlockCount d sb →
    (tableInode d sb (k * inodesPerBlockOf d)).direct 0 = sb.bmapStart

/-- No request of a repair fails: the table can be read and the bitmaps written, and every
block of them gets a buffer. -/
structure RepairIo (kmalloc : Nat → Bool) (d : BlockDevice) (sb : CapySuper) : Prop where
  reads : ∀ ino, ino < sb.inodeCount.toNat →
    d.canRead (u32 (sb.inodeStart.toNat + ino / inodesPerBlockOf d)) = true
  writes : ∀ b, sb.bmapStart.toNat ≤ b → b < sb.inodeStart.toNat → d.canWrite b = true
  buffers : ∀ k, k < mapBlocks d.blockSize sb.inodeCount.toNat + mapBlocks d.blockSize sb.blockCount.toNat →
    kmalloc (3 + k) = true

def EntriesMarked (d : BlockDevice) (sb : CapySuper) : Prop :=
  ∀ ino k, InUse d sb ino →
    slotPtr d sb (tableInode d sb ino) (.entry k) ≠ 0 →
    slotPtr d sb (tableInode d sb ino) (.entry k) < sb.blockCount.toNat →
    slotPtr d sb (tableInode d sb ino) (.entry k) < sb.dataStart.toNat ∨
      ∃ ino', InUse d sb ino' ∧ Marks sb.blockCount.toNat (tableInode d sb ino')
        (slotPtr d sb (tableInode d sb ino) (.entry k))

/-- `d'` is `d` with the bitmaps that its inodes call for. -/
structure Repaired (d d' : BlockDevice) (sb : CapySuper) : Prop where
  kept : ∀ b, b < sb.bmapStart.toNat ∨ sb.inodeStart.toNat ≤ b → d'.blocks b = d.blocks b
  imap : ∀ ino, ino < sb.inodeCount.toNat → imapBit d' sb ino = (tableInode d sb ino).hasData
  bmap : ∀ b, b < sb.blockCount.toNat →
    (bmapBit d' sb b = true ↔ b < sb.dataStart.toNat ∨ Referenced d sb b)

section
variable {d : BlockDevice} {sb : CapySuper}

def repairBuf (d : BlockDevice) (sb : CapySuper) : Nat → Bytes
  | 0 => d.blocks 0
  | k + 1 => d.blocks (u32 (sb.inodeStart.toNat + k))

theorem inode_block {ino : Nat} (hipb : 0 < inodesPerBlockOf d) (h : ino < sb.inodeCount.toNat) :
    ino / inodesPerBlockOf d < inodeBlockCount d sb := by
  unfold inodeBlockCount
  rw [Nat.lt_div_iff_mul_lt hipb]
  have hle := Nat.div_mul_le_self ino (inodesPerBlockOf d)
  have hcomm := Nat.mul_comm (ino / inodesPerBlockOf d) (inodesPerBlockOf d)
  omega

/-- A record at the start of a block, read as a superblock. -/
theorem firstInode_super (hipb : 0 < inodesPerBlockOf d) (k : Nat) :
    let b := d.blocks (u32 (sb.inodeStart.toNat + k))
    (readCapySuper b).inodeStart = (tableInode d sb (k * inodesPerBlockOf d)).direct 2 ∧
    (readCapySuper b).imapStart = (tableInode d sb (k * inodesPerBlockOf d)).direct 1 ∧
    (readCapySuper b).bmapStart = (tableInode d sb (k * inodesPerBlockOf d)).direct 0 := by
  have hdiv : k * inodesPerBlockOf d / inodesPerBlockOf d = k := Nat.mul_div_cancel _ hipb
  simp only [tableInode, hdiv, Nat.mul_mod_left, readInodeAt, readCapySuper]
  exact ⟨rfl, rfl, rfl⟩

theorem repairBlocks_spec (hsuper : readCapySuper (d.blocks 0) = sb)
    (hipb : 0 < inodesPerBlockOf d)
    (hreads : ∀ ino, ino < sb.inodeCount.toNat →
      d.canRead (u32 (sb.inodeStart.toNat + ino / inodesPerBlockOf d)) = true)
    (hstands : BufferStands d sb) (m : Bytes) (k : Nat) (hk : k ≤ inodeBlockCount d sb) :
    let s := (range k).foldl
      (repairInodeBlock d sb.inodeCount.toNat sb.blockCount.toNat) ⟨d.blocks 0, zeros, m⟩
    s.buf = repairBuf d sb k ∧
    (∀ i, testBit s.newImap i = true ↔
      i < sb.inodeCount.toNat ∧ i / inodesPerBlockOf d < k ∧ (tableInode d sb i).hasData = true) ∧
    (∀ b, testBit s.newBmap b = true ↔ testBit m b = true ∨
      ∃ ino, ino / inodesPerBlockOf d < k ∧ InUse d sb ino ∧
        Marks sb.blockCount.toNat (tableInode d sb ino) b) := by
  induction k with
  | zero => simp [repairBuf, testBit]
  | succ k ih =>
    obtain ⟨hbuf, himap, hbmap⟩ := ih (by omega)
    rw [range_succ, foldl_append, foldl_cons, foldl_nil]
    generalize (range k).foldl (repairInodeBlock d sb.inodeCount.toNat sb.blockCount.toNat)
      ⟨d.blocks 0, zeros, m⟩ = s at hbuf himap hbmap
    have hstart : s.sb.inodeStart = sb.inodeStart := by
      unfold RepairScan.sb
      rw [hbuf]
      cases k with
      | zero => simp only [repairBuf, hsuper]
      | succ k =>
        rw [repairBuf, (firstInode_super hipb k).1]
        exact hstands.next k (by omega)
    have hfirst : k * inodesPerBlockOf d < sb.inodeCount.toNat := by
      have hle := (Nat.le_div_iff_mul_le hipb).mp hk
      rw [Nat.succ_mul] at hle
      omega
    have hread := hreads _ hfirst
    rw [Nat.mul_div_cancel _ hipb] at hread
    unfold repairInodeBlock
    rw [hstart, blockDeviceRead_of_canRead hread]
    simp only
    rw [foldl_ext _ (fun s ino => repairInode sb.blockCount.toNat (tableInode d sb ino) s ino) _
      (by
        intro s ino hino
        rw [tableInode, ((mem_inodesOf hipb).mp hino).1])]
    obtain ⟨hb, hi, hm⟩ := repairInodes_spec sb.blockCount.toNat (tableInode d sb)
      (inodesOf (inodesPerBlockOf d) sb.inodeCount.toNat k)
      { s with buf := d.blocks (u32 (sb.inodeStart.toNat + k)) }
    refine ⟨hb, fun i => ?_, fun b => ?_⟩
    · rw [hi, himap, mem_inodesOf hipb]
      constructor
      · rintro (⟨hlt, hdiv, hd⟩ | ⟨⟨hdiv, hlt⟩, hd⟩)
        · exact ⟨hlt, by omega, hd⟩
        · exact ⟨hlt, by omega, hd⟩
      · rintro ⟨hlt, hdiv, hd⟩
        rcases Nat.lt_succ_iff_lt_or_eq.mp hdiv with hdiv | hdiv
        · exact .inl ⟨hlt, hdiv, hd⟩
        · exact .inr ⟨⟨hdiv, hlt⟩, hd⟩
    · rw [hm, hbmap]
      constructor
      · rintro ((h | ⟨ino, hdiv, hu, hmark⟩) | ⟨ino, hmem, hd, hmark⟩)
        · exact .inl h
        · exact .inr ⟨ino, by omega, hu, hmark⟩
        · obtain ⟨hdiv, hlt⟩ := (mem_inodesOf hipb).mp hmem
          exact .inr ⟨ino, by omega, ⟨hlt, hd⟩, hmark⟩
      · rintro (h | ⟨ino, hdiv, hu, hmark⟩)
        · exact .inl (.inl h)
        · rcases Nat.lt_succ_iff_lt_or_eq.mp hdiv with hdiv | hdiv
          · exact .inl (.inr ⟨ino, hdiv, hu, hmark⟩)
          · exact .inr ⟨ino, (mem_inodesOf hipb).mpr ⟨hdiv, hu.1⟩, hu.2, hmark⟩

end

def MapsFit (sb : CapySuper) : Prop :=
  sb.inodeCount.toNat ≤ 2 ^ 32 - bitsPerBlock ∧ sb.blockCount.toNat ≤ 2 ^ 32 - bitsPerBlock

theorem mapBlocks_eq {n : Nat} (h : n ≤ 2 ^ 32 - bitsPerBlock) : mapBlocks capyfsBlockSize n = bitmapBlocks n := by
  rw [bitmapBlocks_of_le h]
  simp only [mapBlocks, mapBytes, capyfsBlockSize]
  omega

theorem format_maps {d : BlockDevice} {ic bc : BitVec 32} {sb : CapySuper}
    (hs : sb = (formatLayout d ic.toNat bc.toNat).super) (hfit : MapsFit sb) : sb.bmapStart.toNat = 1 ∧
      sb.imapStart.toNat = 1 + mapBlocks capyfsBlockSize sb.blockCount.toNat ∧ sb.inodeStart.toNat =
        sb.imapStart.toNat + mapBlocks capyfsBlockSize sb.inodeCount.toNat := by
  obtain ⟨hbc, hic, hb, hi, hn, _⟩ := super_fields d ic bc
  rw [mapBlocks_eq hfit.1, mapBlocks_eq hfit.2, hs, hbc, hic, hb, hi, hn]
  exact ⟨rfl, rfl, rfl⟩

section
variable {d : BlockDevice} {ws : List Write} {got : Nat → Bool} {bs count start : Nat} {map : Bytes}

/-- Where every block gets its buffer, all are written. -/
theorem bitmapWrites_all (hgot : ∀ i, i < mapBlocks bs count → got i = true) :
    bitmapWrites got bs count start map =
      (range (mapBlocks bs count)).map (fun i =>
        (u32 (start + i), bitmapBlock bs (mapBytes count) map i)) := by
  rw [bitmapWrites, filter_eq_self.mpr fun i hi => hgot i (mem_range.mp hi)]

theorem mem_bitmapWrites (hgot : ∀ i, i < mapBlocks bs count → got i = true) {i : Nat}
    (hi : i < mapBlocks bs count) (hw : start + mapBlocks bs count < 2 ^ 32) :
    (start + i, bitmapBlock bs (mapBytes count) map i) ∈ bitmapWrites got bs count start map := by
  rw [bitmapWrites_all hgot]
  refine mem_map.mpr ⟨i, mem_range.mpr hi, ?_⟩
  rw [u32_of_lt (by omega)]

theorem bitmapWrites_keys (hgot : ∀ i, i < mapBlocks bs count → got i = true)
    (hw : start + mapBlocks bs count < 2 ^ 32) :
    (bitmapWrites got bs count start map).map Prod.fst = List.range' start (mapBlocks bs count) := by
  rw [bitmapWrites_all hgot, map_map, range'_eq_map_range]
  apply map_congr_left
  intro i hi
  have := mem_range.mp hi
  exact u32_of_lt (by omega)

/-- A bit of a bitmap that was written out among other blocks. -/
theorem diskMap_written {i : Nat} (hbs : d.blockSize = bs) (hpos : 0 < bs)
    (hn : (ws.map Prod.fst).Nodup) (hgot : ∀ i, i < mapBlocks bs count → got i = true)
    (hmem : ∀ w ∈ bitmapWrites got bs count start map, w ∈ ws)
    (hw : start + mapBlocks bs count < 2 ^ 32) (hcan : ∀ b, start ≤ b → b < start + mapBlocks bs count → d.canWrite b = true)
    (hi : i < count) : testBit (diskMap (d.apply ws) start) i = testBit map i := by
  have hblock := mapByte_block hpos hi
  have hbyte : i / 8 < mapBytes count := by
    unfold mapBytes
    omega
  have hdiv := Nat.div_add_mod' (i / 8) bs
  have hmod := Nat.mod_lt (i / 8) hpos
  simp only [testBit, diskMap, BlockDevice.apply_blockSize, hbs]
  rw [d.apply_of_mem hn (hmem _ (mem_bitmapWrites hgot hblock hw)) (hcan _ (Nat.le_add_right _ _) (by omega)),
    bitmapBlock, if_pos (by omega), hdiv]

end

theorem repair_success {kmalloc : Nat → Bool} {d : BlockDevice} {r : FsckResult}
    (h : (fsckRepair kmalloc d r).1 = 0) :
    let sb := diskSuper d
    let s := (range (inodeBlockCount d sb)).foldl
      (repairInodeBlock d sb.inodeCount.toNat sb.blockCount.toNat)
      ⟨d.blocks 0, zeros,
        (range (min sb.dataStart.toNat sb.blockCount.toNat)).foldl setBit zeros⟩
    fsckSuperGeometryValid sb d.blockCount d.blockSize = true ∧
    (fsckRepair kmalloc d r).2.2 = d.apply
      (bitmapWrites (fun i => kmalloc (3 + i)) d.blockSize sb.inodeCount.toNat
          s.sb.imapStart.toNat s.newImap ++
        bitmapWrites (fun i => kmalloc (3 + mapBlocks d.blockSize sb.inodeCount.toNat + i))
          d.blockSize sb.blockCount.toNat s.sb.bmapStart.toNat s.newBmap) := by
  unfold fsckRepair at h ⊢
  by_cases hbuf : kmalloc 0 = true
  · cases hr : blockDeviceRead d 0 with
    | none => simp [hbuf, hr] at h
    | some b =>
      obtain ⟨_, rfl⟩ := blockDeviceRead_some hr
      simp only [hbuf, hr, Bool.not_true, Bool.false_eq_true, if_false,
        show readCapySuper (d.blocks 0) = diskSuper d from rfl] at h ⊢
      split at h
      · simp at h
      · rename_i hsb
        split at h
        · simp at h
        · rename_i hmem
          rw [if_neg hsb, if_neg hmem]
          refine ⟨?_, rfl⟩
          by_contra hg
          exact hsb (.inr (by simpa using hg))
  · simp [hbuf] at h

/-- Under a buffer that stands in for the superblock, and where entries of
indirect blocks add nothing, a successful repair rebuilds the bitmaps and leaves
everything else alone. -/
theorem repair_rebuilds (kmalloc : Nat → Bool) (d : BlockDevice) (r : FsckResult)
    (inodeCount blockCount : BitVec 32)
    (hs : diskSuper d = (formatLayout d inodeCount.toNat blockCount.toNat).super)
    (hrc : (fsckRepair kmalloc d r).1 = 0) (hio : RepairIo kmalloc d (diskSuper d))
    (hfit : MapsFit (diskSuper d)) (hstands : BufferStands d (diskSuper d))
    (hentries : EntriesMarked d (diskSuper d)) :
    Repaired d (fsckRepair kmalloc d r).2.2 (diskSuper d) := by
  obtain ⟨hgeo, hdev⟩ := repair_success hrc
  obtain ⟨hic, hbc, hbs, hipb, hfits, hds, _, _⟩ := geometry_bounds hgeo
  have hbs4 : d.blockSize = capyfsBlockSize := by
    simp only [fsckSuperGeometryValid, decide_eq_true_eq] at hgeo
    rw [← hgeo.2.2.1, hs]
    rfl
  obtain ⟨hbmap, himap, hinode⟩ := format_maps hs hfit
  rw [← hbs4] at himap hinode
  have hlt := (diskSuper d).inodeStart.isLt
  have hrun := repairBlocks_spec (Eq.refl (diskSuper d)) hipb hio.reads hstands
    ((range (min (diskSuper d).dataStart.toNat (diskSuper d).blockCount.toNat)).foldl
      setBit zeros) _ (Nat.le_refl _)
  have hblocks : 0 < inodeBlockCount d (diskSuper d) :=
    Nat.div_pos (by unfold inodesPerBlockOf; omega) hipb
  obtain ⟨k, hk⟩ : ∃ k, k + 1 = inodeBlockCount d (diskSuper d) :=
    ⟨inodeBlockCount d (diskSuper d) - 1, by omega⟩
  simp only at hdev hrun
  generalize (range (inodeBlockCount d (diskSuper d))).foldl _ _ = s at hdev hrun
  obtain ⟨hbuf, hnewImap, hnewBmap⟩ := hrun
  -- the last block of the table stands in for the superblock when the bitmaps are written
  have hstart : s.sb.imapStart = (diskSuper d).imapStart ∧
      s.sb.bmapStart = (diskSuper d).bmapStart := by
    unfold RepairScan.sb
    rw [hbuf, ← hk, repairBuf, (firstInode_super hipb k).2.1, (firstInode_super hipb k).2.2]
    exact ⟨hstands.imap k hk, hstands.bmap k hk⟩
  rw [hdev, hstart.1, hstart.2]
  have himapEnd : (diskSuper d).imapStart.toNat +
      mapBlocks d.blockSize (diskSuper d).inodeCount.toNat < 2 ^ 32 := by omega
  have hbmapEnd : (diskSuper d).bmapStart.toNat +
      mapBlocks d.blockSize (diskSuper d).blockCount.toNat < 2 ^ 32 := by omega
  let imapBlocks := mapBlocks d.blockSize (diskSuper d).inodeCount.toNat
  have himapGot : ∀ i, i < imapBlocks → kmalloc (3 + i) = true :=
    fun i hi => hio.buffers i (Nat.lt_add_right _ hi)
  have hbmapGot : ∀ i, i < mapBlocks d.blockSize (diskSuper d).blockCount.toNat →
      kmalloc (3 + imapBlocks + i) = true := by
    intro i hi
    rw [Nat.add_assoc]
    exact hio.buffers (imapBlocks + i) (Nat.add_lt_add_left hi imapBlocks)
  have hkeys : ((bitmapWrites (fun i => kmalloc (3 + i)) d.blockSize (diskSuper d).inodeCount.toNat
      (diskSuper d).imapStart.toNat s.newImap ++
    bitmapWrites (fun i => kmalloc (3 + imapBlocks + i)) d.blockSize (diskSuper d).blockCount.toNat
      (diskSuper d).bmapStart.toNat s.newBmap).map Prod.fst) =
      List.range' (diskSuper d).imapStart.toNat
        (mapBlocks d.blockSize (diskSuper d).inodeCount.toNat) ++
      List.range' (diskSuper d).bmapStart.toNat
        (mapBlocks d.blockSize (diskSuper d).blockCount.toNat) := by
    rw [map_append, bitmapWrites_keys himapGot himapEnd, bitmapWrites_keys hbmapGot hbmapEnd]
  have hnodup : ((bitmapWrites (fun i => kmalloc (3 + i)) d.blockSize (diskSuper d).inodeCount.toNat
      (diskSuper d).imapStart.toNat s.newImap ++
    bitmapWrites (fun i => kmalloc (3 + imapBlocks + i)) d.blockSize (diskSuper d).blockCount.toNat
      (diskSuper d).bmapStart.toNat s.newBmap).map Prod.fst).Nodup := by
    rw [hkeys]
    refine nodup_append.mpr ⟨nodup_range', nodup_range', ?_⟩
    intro b hb b' hb'
    have h1 := List.mem_range'_1.mp hb
    have h2 := List.mem_range'_1.mp hb'
    omega
  refine ⟨fun b hb => ?_, fun ino hino => ?_, fun b hb => ?_⟩
  · apply BlockDevice.apply_other
    rw [hkeys, mem_append, mem_range'_1, mem_range'_1]
    omega
  · unfold imapBit
    rw [diskMap_written rfl hbs hnodup himapGot (fun w hw => mem_append_left _ hw) himapEnd
      (fun b hlo hhi => hio.writes b (by omega) (by omega)) hino, Bool.eq_iff_iff, hnewImap]
    exact ⟨fun h => h.2.2, fun h => ⟨hino, inode_block hipb hino, h⟩⟩
  · unfold bmapBit
    rw [diskMap_written rfl hbs hnodup hbmapGot (fun w hw => mem_append_right _ hw) hbmapEnd
      (fun b hlo hhi => hio.writes b (by omega) (by omega)) hb, hnewBmap, testBit_reserved,
      decide_eq_true_eq]
    constructor
    · rintro (h | ⟨ino, _, hu, hmark⟩)
      · exact .inl (by omega)
      · exact .inr (hmark.referenced hu)
    · rintro (h | ⟨h0, ino, slot, hu, he⟩)
      · exact .inl (by omega)
      · cases slot with
        | direct i =>
          exact .inr ⟨ino, inode_block hipb hu.1, hu, h0, hb, .inl ⟨i, he⟩⟩
        | indirect => exact .inr ⟨ino, inode_block hipb hu.1, hu, h0, hb, .inr he⟩
        | entry k =>
          rcases hentries ino k hu (by rw [he]; exact h0) (by rw [he]; exact hb) with h | ⟨ino', hu', hm⟩
          · exact .inl (by omega)
          · exact .inr ⟨ino', inode_block hipb hu'.1, hu', he ▸ hm⟩

/-- A volume of 8 inodes whose root claims the bitmaps as its first two blocks. -/
def standingVolume : BlockDevice :=
  smallVolume.write (3, { rootInode with
    direct := fun i => if i = 0 then 1 else if i = 1 then 2 else 0 }.bytes)

theorem standingVolume_inodes (ino : Nat) (h : InUse standingVolume (diskSuper standingVolume) ino) : ino = 0 := by
  obtain ⟨hlt, hd⟩ := h
  by_contra h0
  have hall : ∀ i, i < 8 → i ≠ 0 →
      (tableInode standingVolume (diskSuper standingVolume) i).hasData = false := by decide +kernel
  rw [hall ino (Nat.lt_of_lt_of_eq hlt (by decide +kernel)) h0] at hd
  cases hd

theorem standingVolume_rebuilt :
    (fsckRepair (fun _ => true) standingVolume .start).1 = 0 ∧
      Repaired standingVolume (fsckRepair (fun _ => true) standingVolume .start).2.2
        (diskSuper standingVolume) := by
  have hrc : (fsckRepair (fun _ => true) standingVolume .start).1 = 0 := by decide
  have hcount : inodeBlockCount standingVolume (diskSuper standingVolume) = 1 := by decide
  have hlast : ∀ k, k + 1 = inodeBlockCount standingVolume (diskSuper standingVolume) → k = 0 := by
    intro k hk
    omega
  refine ⟨hrc, repair_rebuilds (fun _ => true) standingVolume .start 8 0 (by decide) hrc
    ⟨by decide, ?_, fun _ _ => rfl⟩ ⟨by decide, by decide⟩
    ⟨?_, ?_, ?_⟩ ?_⟩
  · have hall : ∀ b, b < 3 → standingVolume.canWrite b = true := by decide
    intro b _ hb
    exact hall b (Nat.lt_of_lt_of_eq hb (by decide))
  · intro k hk
    omega
  · intro k hk
    rw [hlast k hk]
    decide
  · intro k hk
    rw [hlast k hk]
    decide
  · intro ino k hu h0
    have hi : (tableInode standingVolume (diskSuper standingVolume) 0).indirect = 0#32 := by
      decide
    rw [standingVolume_inodes ino hu] at h0
    simp [slotPtr, hi] at h0

/-- A fresh volume of 64 blocks with 128 inodes, the kernel's count. -/
def freshVolume : BlockDevice := (capyfsFormat (plainDevice 64) 128 0).2

/-- A repair of a fresh volume writes the bitmaps over its superblock. -/
theorem freshVolume_not_rebuilt :
    (capyfsFormat (plainDevice 64) 128 0).1 = 0 ∧
      diskSuper freshVolume = (formatLayout freshVolume 128 0).super ∧
      fsckSuperGeometryValid (diskSuper freshVolume) freshVolume.blockCount
        freshVolume.blockSize = true ∧
      (fsckRepair (fun _ => true) freshVolume .start).1 = 0 ∧
      ¬ Repaired freshVolume (fsckRepair (fun _ => true) freshVolume .start).2.2
        (diskSuper freshVolume) := by
  refine ⟨by decide +kernel, by decide +kernel, by decide +kernel, by decide +kernel, ?_⟩
  intro h
  have hbyte := congrFun (h.kept 0 (.inl (by decide +kernel))) 0
  exact absurd hbyte (by decide +kernel)

end CapyOS.Proofs
