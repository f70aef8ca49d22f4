import CapyOS.Proofs.CapyfsLayout
import CapyOS.Proofs.JournalDowngrade

namespace CapyOS.Proofs
open Lib List

theorem readCapySuper_bytes (s : CapySuper) : readCapySuper s.bytes = s := by
  obtain ⟨magic, version, blockSize, blockCount, inodeCount, bmapStart, imapStart, inodeStart, dataStart⟩ := s
  simp only [readCapySuper, CapySuper.bytes, CapySuper.fields, CapySuper.mk.injEq]
  refine ⟨?_, ?_, ?_, ?_, ?_, ?_, ?_, ?_, ?_⟩
  · simp only [field32_head]
  all_goals simp [field32_tail, field32_head]

theorem writeAll_ok {d : BlockDevice} {ws : List (Int × Write)} (hc : ∀ w ∈ ws, w.1 ≠ 0) (h : (writeAll d ws).1 = 0) :
    (writeAll d ws).2 = d.apply (ws.map Prod.snd) ∧ ∀ w ∈ ws, d.canWrite w.2.1 = true := by
  induction ws generalizing d with
  | nil => exact ⟨rfl, by simp⟩
  | cons w ws ih =>
    obtain ⟨rc, w⟩ := w
    simp only [writeAll] at h ⊢
    by_cases hw : d.canWrite w.1 = true
    · rw [if_pos hw] at h ⊢
      obtain ⟨hd, hall⟩ := ih (fun x hx => hc x (mem_cons_of_mem _ hx)) h
      refine ⟨hd, ?_⟩
      intro x hx
      rcases List.mem_cons.mp hx with rfl | hx
      · exact hw
      · simpa using hall x hx
    · rw [if_neg hw] at h
      exact absurd h (hc (rc, w) mem_cons_self)

theorem formatWrites_codes (l : Layout) : ∀ w ∈ formatWrites l, w.1 ≠ 0 := by
  intro w hw
  simp only [formatWrites, mem_append, mem_cons, mem_map, not_mem_nil, or_false] at hw
  rcases hw with ((rfl | ⟨i, _, rfl⟩) | ⟨i, _, rfl⟩) | rfl | rfl <;> simp

def journalMagicByte : Byte := 0x4C#8

theorem field32_magic {b : Bytes} (h : field32 b 0 = journalMagic) : b 0 = journalMagicByte := by
  have hn := congrArg BitVec.toNat h
  rw [field32_toNat] at hn
  simp only [load, journalMagic, BitVec.toNat_ofNat, Nat.reducePow, Nat.reduceMod] at hn
  apply BitVec.eq_of_toNat_eq
  have := (b 0).isLt
  simp only [journalMagicByte, BitVec.toNat_ofNat]
  omega

theorem formatWrites_first_byte (l : Layout) : ∀ w ∈ (formatWrites l).tail, w.2.2 0 ≠ journalMagicByte := by
  intro w hw
  simp only [formatWrites, cons_append, nil_append, tail_cons, mem_append,
    mem_cons, mem_map, not_mem_nil, or_false] at hw
  rcases hw with (⟨i, _, rfl⟩ | ⟨i, _, rfl⟩) | rfl | rfl
  · simp [journalMagicByte]
  · -- bit 0 of the byte is clear and bit 2 is set in the magic
    intro he
    have hbit : ∀ k, k < 8 → testBit (reservedBitmap l.dataStart i) k = journalMagicByte.getLsbD k := by
      intro k hk
      unfold testBit
      rw [show k / 8 = 0 by omega, show k % 8 = k by omega]
      rw [show reservedBitmap l.dataStart i 0 = journalMagicByte from he]
    have h0 := hbit 0 (by decide)
    have h2 := hbit 2 (by decide)
    simp only [reservedBitmap, testBit_reserved] at h0 h2
    have h0 := of_decide_eq_false (h0.trans (by decide))
    have h2 := of_decide_eq_true (h2.trans (by decide))
    omega
  · exact (by decide : setBit zeros 0 0 ≠ journalMagicByte)
  · exact (by decide : rootInode.bytes 0 ≠ journalMagicByte)

structure LayoutOrdered (l : Layout) : Prop where
  bmap : l.bmapStart = 1
  imap : 1 ≤ l.imapStart
  inode : l.imapStart ≤ l.inodeStart
  data : l.inodeStart ≤ l.dataStart

theorem formatLayout_ordered (d : BlockDevice) (ic bc : Nat) : LayoutOrdered (formatLayout d ic bc) := by
  refine ⟨rfl, ?_, ?_, ?_⟩ <;> simp only [formatLayout] <;> omega

section
variable {d : BlockDevice} {l : Layout}

/-- The first pass over the metadata writes every block of it. -/
theorem formatWrites_keys (hl : LayoutOrdered l) {b : Nat} (h1 : 1 ≤ b) (hb : b < l.dataStart) :
    b ∈ ((formatWrites l).tail.map Prod.snd).map Prod.fst := by
  have := hl.bmap
  simp only [formatWrites, cons_append, nil_append, tail_cons, map_append,
    map_map, mem_append, mem_map, mem_range, Function.comp_apply]
  exact .inl (.inl ⟨b - 1, by omega, by omega⟩)

theorem formatWrites_pos (hl : LayoutOrdered l) : ∀ w ∈ (formatWrites l).tail, w.2.1 ≠ 0 := by
  obtain ⟨hb, hi, hn, _⟩ := hl
  intro w hw
  simp only [formatWrites, cons_append, nil_append, tail_cons, mem_append,
    mem_cons, mem_map, not_mem_nil, or_false] at hw
  rcases hw with (⟨i, _, rfl⟩ | ⟨i, _, rfl⟩) | rfl | rfl <;> simp only <;> omega

/-- What the writes of a format leave on the device when all of them succeed. -/
theorem formatWrites_blocks (hl : LayoutOrdered l) (h : (writeAll d (formatWrites l)).1 = 0) :
    (writeAll d (formatWrites l)).2 = d.apply ((formatWrites l).map Prod.snd) ∧
    (writeAll d (formatWrites l)).2.blocks 0 = l.super.bytes ∧ (∀ b, b < l.dataStart → d.canWrite b = true) ∧
    (∀ b, 1 ≤ b → b < l.dataStart → (writeAll d (formatWrites l)).2.blocks b 0 ≠ journalMagicByte) := by
  obtain ⟨hd, hall⟩ := writeAll_ok (formatWrites_codes l) h
  have hsplit : formatWrites l = (-12, (0, l.super.bytes)) :: (formatWrites l).tail := rfl
  have hzero := hall (-12, (0, l.super.bytes)) (by rw [hsplit]; exact mem_cons_self)
  have hcan : ∀ b, b < l.dataStart → d.canWrite b = true := by
    intro b hb
    by_cases hz : b = 0
    · rw [hz]
      exact hzero
    · obtain ⟨w, hw, he⟩ := List.mem_map.mp (formatWrites_keys hl (by omega) hb)
      obtain ⟨x, hx, rfl⟩ := List.mem_map.mp hw
      rw [← he]
      exact hall x (by rw [hsplit]; exact mem_cons_of_mem _ hx)
  refine ⟨hd, ?_, hcan, ?_⟩
  · rw [hd, hsplit, map_cons, BlockDevice.apply_cons, BlockDevice.apply_other]
    · exact d.write_same _ hzero
    · intro hm
      obtain ⟨w, hw, he⟩ := List.mem_map.mp hm
      obtain ⟨x, hx, rfl⟩ := List.mem_map.mp hw
      exact formatWrites_pos hl x hx he
  · intro b h1 hb
    rw [hd, hsplit, map_cons, BlockDevice.apply_cons, BlockDevice.apply_blocks, applyWrites_filter (by
        intro w _ he
        rw [BlockDevice.write_canWrite, he]
        exact hcan b hb)]
    have hmem := applyWrites_mem (m := (d.write (0, l.super.bytes)).blocks)
      (formatWrites_keys hl h1 hb)
    obtain ⟨x, hx, he⟩ := List.mem_map.mp hmem
    have hbyte := formatWrites_first_byte l x hx
    rwa [he] at hbyte

end

theorem format_run {d : BlockDevice} {ic bc : Nat} (h : (capyfsFormat d ic bc).1 = 0) :
    capyfsFormat d ic bc = writeAll d (formatWrites (formatLayout d ic bc)) := by
  obtain ⟨hbs, hroom⟩ := format_room h
  unfold capyfsFormat
  rw [if_neg (not_not_intro hbs)]
  simp only
  rw [if_neg (Nat.not_le_of_lt hroom)]

/-- Memory and readable blocks for a mount to get as far as its journal hook. -/
def MountReaches (heap : Heap) (d : BlockDevice) (l : Layout) : Prop :=
  d.canRead 0 = true ∧ heap mountSize = true ∧ d.canRead l.inodeStart = true ∧
    (heap vfsInodeSize = true ∧ heap capyfsInodeSize = true) ∧ heap dentrySize = true

section
variable (heap : Heap) (hmac : Hmac) (fuel : Nat) (secret : List Byte) (dev : Nat)
  (slots : List JournalSlot) {d : BlockDevice} {l : Layout}

/-- A mount of a volume with superblock `l.super` does nothing to the device but
what its journal hook does, and only if it gets that far. -/
theorem mount_dev (hbs : d.blockSize = capyfsBlockSize) (h0 : d.blocks 0 = l.super.bytes)
    (hic : l.super.inodeCount ≠ 0#32) (hns : l.super.inodeStart.toNat = l.inodeStart)
    (hds : l.super.dataStart.toNat = l.dataStart) :
    (¬ MountReaches heap d l → (mountCapyfs heap hmac fuel secret dev d slots).dev = d) ∧
    (MountReaches heap d l → (mountCapyfs heap hmac fuel secret dev d slots).dev =
      d.apply (capyfsJournalMountHook heap hmac fuel secret dev d l.dataStart
        (listBytes l.super.bytes capySuperSize) slots).writes) := by
  have hmagic : ¬ (l.super.magic ≠ capyfsMagic ∨ l.super.blockSize.toNat ≠ capyfsBlockSize) := by
    simp [Layout.super, capyfsBlockSize]
  unfold mountCapyfs MountReaches
  rw [if_neg (not_not_intro hbs)]
  by_cases hr0 : d.canRead 0 = true
  · rw [blockDeviceRead_of_canRead hr0, h0]
    simp only [readCapySuper_bytes, if_neg hmagic, hns, hds]
    by_cases hm : heap mountSize = true
    · by_cases hr1 : d.canRead l.inodeStart = true
      · by_cases hv : heap vfsInodeSize = true ∧ heap capyfsInodeSize = true
        · by_cases hd : heap dentrySize = true
          · simp [hr0, hm, hr1, hv, hd, hic]
          · simp [hm, hv, hd, hic, hr1]
        · have hv' : (!heap vfsInodeSize || !heap capyfsInodeSize) = true := by
            by_cases h1 : heap vfsInodeSize = true
            · simpa [h1] using hv
            · simp [h1]
          simp [hm, hv, hv', hic, hr1]
      · simp [hm, hr1]
    · simp [hm]
  · have : blockDeviceRead d 0 = none := by simp [blockDeviceRead, hr0]
    simp [this, hr0]

theorem format_last {heap : Heap} (old : Journal) {key : List Byte} (start : Nat) {count : Nat}
    (hkey : key.length ≤ journalHmacKeyMax) (hc : 4 ≤ count) (hh : heap d.blockSize = true) :
    ∃ ws sb, (if 0 < key.length then journalFormatAuthenticated heap d old start count key
        else journalFormat heap d old start count).writes = ws ++ [(u32 start, sb)] ∧ sb 0 = journalMagicByte := by
  have hv : ∀ v, ∃ ws sb, (journalFormatWithVersion heap d old start count v).writes =
      ws ++ [(u32 start, sb)] ∧ sb 0 = journalMagicByte := by
    intro v
    unfold journalFormatWithVersion
    rw [if_neg (by omega)]
    simp only [hh, Bool.not_true, Bool.false_eq_true, if_false]
    exact ⟨_, _, rfl, field32_magic (congrArg JournalSuperblock.magic (readSuperblock_bytes _))⟩
  split
  · unfold journalFormatAuthenticated
    rw [if_neg (by omega)]
    simp only
    split <;> exact hv _
  · unfold journalFormat
    simp only
    split <;> exact hv _

theorem deriveKey_le (superBytes : List Byte) : (deriveVolumeHmacKey hmac secret superBytes).length ≤ journalHmacKeyMax := by
  unfold deriveVolumeHmacKey
  split
  · simp
  · split
    · simp
    · rw [length_listBytes]
      exact Nat.min_le_left _ _

theorem hook_formats {heap : Heap} {slots : List JournalSlot} (superBytes : List Byte)
    {dataStart : Nat} (hds : dataStart < 2 ^ 32) (hopen : OpensJournal heap d dataStart slots)
    (hfirst : d.blocks (dataStart - capyfsJournalBlocks) 0 ≠ journalMagicByte) :
    ∃ ws sb, (capyfsJournalMountHook heap hmac fuel secret dev d dataStart superBytes
        slots).writes = ws ++ [(dataStart - capyfsJournalBlocks, sb)] ∧ sb 0 = journalMagicByte := by
  obtain ⟨hlow, hfree, hheap⟩ := hopen
  obtain ⟨⟨old, i, slots'⟩, hr⟩ :=
    Option.isSome_iff_exists.mp ((slotAlloc_isSome dev slots).mpr hfree)
  have hinit : (journalInit heap d old (dataStart - capyfsJournalBlocks) capyfsJournalBlocks).1 ≠ 0 := by
    intro hi
    obtain ⟨_, _, hm, _⟩ := init_volumeJournal hi hds
    exact hfirst (field32_magic hm)
  obtain ⟨ws, sb, hws, hsb⟩ := format_last
    (journalInit heap d old (dataStart - capyfsJournalBlocks) capyfsJournalBlocks).2
    (dataStart - capyfsJournalBlocks) (deriveKey_le hmac secret superBytes)
    (by decide : 4 ≤ capyfsJournalBlocks) hheap
  rw [u32_of_lt (show dataStart - capyfsJournalBlocks < 2 ^ 32 by omega)] at hws
  refine ⟨ws, sb, ?_, hsb⟩
  rw [← hws]
  unfold capyfsJournalMountHook
  rw [if_neg (by omega), hr]
  simp only [if_pos hinit]
  split <;> split <;> rfl

end

/-- Mounting a freshly formatted volume leaves its metadata as the format wrote
it, unless the mount gets to format a journal in front of the data region. -/
theorem mount_keeps_metadata (heap : Heap) (hmac : Hmac) (fuel : Nat) (secret : List Byte)
    (dev : Nat) (slots : List JournalSlot) (d : BlockDevice) (inodeCount blockCount : BitVec 32)
    (h : (capyfsFormat d inodeCount.toNat blockCount.toNat).1 = 0) :
    (∀ b, b < (formatLayout d inodeCount.toNat blockCount.toNat).dataStart →
      (mountCapyfs heap hmac fuel secret dev
        (capyfsFormat d inodeCount.toNat blockCount.toNat).2 slots).dev.blocks b =
        (capyfsFormat d inodeCount.toNat blockCount.toNat).2.blocks b) ↔
    ¬ (MountReaches heap d (formatLayout d inodeCount.toNat blockCount.toNat) ∧
      OpensJournal heap d (formatLayout d inodeCount.toNat blockCount.toNat).dataStart slots) := by
  obtain ⟨_, hicn, _, _, hns, hds, hsmall⟩ := super_fields d inodeCount blockCount
  obtain ⟨hbs, _⟩ := format_room h
  have hipos := formatInodeCount_pos inodeCount.toNat
  have hrun := format_run h
  have hok : (writeAll d (formatWrites
      (formatLayout d inodeCount.toNat blockCount.toNat))).1 = 0 := by
    rw [← hrun]
    exact h
  have hlay := formatLayout_ordered d inodeCount.toNat blockCount.toNat
  rw [hrun]
  rw [show (formatLayout d inodeCount.toNat blockCount.toNat).inodeCount =
    formatInodeCount inodeCount.toNat from rfl] at hicn
  generalize formatLayout d inodeCount.toNat blockCount.toNat = l at *
  obtain ⟨hd', h0, hcan, hbyte⟩ := formatWrites_blocks hlay hok
  generalize (writeAll d (formatWrites l)).2 = d' at *
  have hic : l.super.inodeCount ≠ 0#32 := by
    intro he
    rw [he] at hicn
    simp at hicn
    omega
  have hbs' : d'.blockSize = capyfsBlockSize := by
    rw [hd']
    simpa using hbs
  have hreach : MountReaches heap d' l ↔ MountReaches heap d l := by
    simp [MountReaches, hd']
  have hopens : OpensJournal heap d' l.dataStart slots ↔ OpensJournal heap d l.dataStart slots := by
    simp [OpensJournal, hd']
  obtain ⟨hstay, hhook⟩ := mount_dev heap hmac fuel secret dev slots hbs' h0 hic hns hds
  constructor
  · rintro hkeep ⟨hr, ho⟩
    have hlow := ho.1
    simp only [capyfsJournalBlocks] at hlow
    obtain ⟨ws, sb, hws, hsb⟩ := hook_formats hmac fuel secret dev
      (listBytes l.super.bytes capySuperSize) (by omega)
      (hopens.mpr ho) (hbyte _ (by simp only [capyfsJournalBlocks]; omega)
        (by simp only [capyfsJournalBlocks]; omega))
    have hk := hkeep (l.dataStart - capyfsJournalBlocks)
      (by simp only [capyfsJournalBlocks]; omega)
    rw [hhook (hreach.mpr hr), hws, BlockDevice.apply_append, BlockDevice.apply_cons,
      BlockDevice.apply_nil, BlockDevice.write_same _ _ (by
        rw [BlockDevice.apply_canWrite, hd', BlockDevice.apply_canWrite]
        exact hcan _ (by simp only [capyfsJournalBlocks]; omega))] at hk
    refine hbyte (l.dataStart - capyfsJournalBlocks) (by simp only [capyfsJournalBlocks]; omega)
      (by simp only [capyfsJournalBlocks]; omega) ?_
    rw [← hk, hsb]
  · intro hno b _
    by_cases hr : MountReaches heap d' l
    · have ho : ¬ OpensJournal heap d' l.dataStart slots :=
        fun ho => hno ⟨hreach.mp hr, hopens.mp ho⟩
      rw [hhook hr, hook_silent _ _ ho]
      rfl
    · rw [hstay hr]

theorem plainDevice_mount_keeps :
    (capyfsFormat (plainDevice 64) 128 0).1 = 0 ∧
      ∀ b, b < 6 → (mountCapyfs ampleHeap (fun _ _ => zeros) 32 [] 1
        (capyfsFormat (plainDevice 64) 128 0).2 [freeSlot]).dev.blocks b =
          (capyfsFormat (plainDevice 64) 128 0).2.blocks b := by
  have h : (capyfsFormat (plainDevice 64) (128 : BitVec 32).toNat (0 : BitVec 32).toNat).1 = 0 := by
    decide +kernel
  exact ⟨h, (mount_keeps_metadata ampleHeap (fun _ _ => zeros) 32 [] 1 [freeSlot] (plainDevice 64)
    128 0 h).mpr (fun ho => absurd ho.2.1 (by decide))⟩

/-- With 1800 inodes the data region starts at block 35, so the journal goes to
blocks 3 to 34: the inode table. -/
theorem plainDevice_mount_overwrites :
    (capyfsFormat (plainDevice 64) 1800 0).1 = 0 ∧
      (formatLayout (plainDevice 64) 1800 0).inodeStart = 3 ∧
      (formatLayout (plainDevice 64) 1800 0).dataStart = 35 ∧
      ¬ ∀ b, b < 35 → (mountCapyfs ampleHeap (fun _ _ => zeros) 32 [] 1
        (capyfsFormat (plainDevice 64) 1800 0).2 [freeSlot]).dev.blocks b =
          (capyfsFormat (plainDevice 64) 1800 0).2.blocks b := by
  refine ⟨by decide, by decide, by decide, ?_⟩
  intro hkeep
  have hbyte := congrFun (hkeep 3 (by decide)) 0
  exact absurd hbyte (by decide +kernel)

end CapyOS.Proofs
