import CapyOS.Fs.CapyfsFormat

namespace CapyOS.Proofs
open Lib

/-- Every block the inode and bitmap accessors touch lies in its own region. -/
structure RegionsFit (m : CapySuper) : Prop where
  inode : ∀ ino, ino < m.inodeCount.toNat →
    m.inodeStart.toNat ≤ inodeBlockNo m ino ∧ inodeBlockNo m ino < m.dataStart.toNat
  imap : ∀ ino, ino < m.inodeCount.toNat →
    m.imapStart.toNat ≤ imapBlockNo m ino ∧ imapBlockNo m ino < m.inodeStart.toNat
  bmap : ∀ blk, m.dataStart.toNat ≤ blk → blk < m.blockCount.toNat →
    m.bmapStart.toNat ≤ bmapBlockNo m blk ∧ bmapBlockNo m blk < m.imapStart.toNat

def CountsFit (inodeCount blockCount : Nat) : Prop :=
  inodeCount ≤ inodesPerBlock * inodeTableBlocks inodeCount ∧
    inodeCount ≤ 2 ^ 32 - bitsPerBlock ∧ blockCount ≤ 2 ^ 32 - bitsPerBlock

theorem bitsPerBlock_eq : bitsPerBlock = 32768 := rfl

theorem inodesPerBlock_eq : inodesPerBlock = 56 := rfl

theorem bitmapBlocks_of_le {n : Nat} (h : n ≤ 2 ^ 32 - bitsPerBlock) : bitmapBlocks n = (n + 32767) / 32768 := by
  rw [bitsPerBlock_eq] at h
  unfold bitmapBlocks
  rw [bitsPerBlock_eq, u32_of_lt (by omega), Nat.add_sub_assoc (by decide)]

theorem bitmapBlocks_of_gt {n : Nat} (h : 2 ^ 32 - bitsPerBlock < n) (hn : n < 2 ^ 32) : bitmapBlocks n = 0 := by
  rw [bitsPerBlock_eq] at h
  unfold bitmapBlocks u32
  rw [bitsPerBlock_eq]
  omega

theorem bitmapBlocks_le (n : Nat) : bitmapBlocks n ≤ 2 ^ 17 := by
  unfold bitmapBlocks u32
  rw [bitsPerBlock_eq]
  omega

theorem inodeTableBlocks_le {n : Nat} (hn : n < 2 ^ 32) : inodeTableBlocks n ≤ 2 ^ 27 := by
  unfold inodeTableBlocks
  simp only [inodeDiskSize, capyfsBlockSize]
  omega

variable {d : BlockDevice} {inodeCount blockCount : BitVec 32}

theorem formatInodeCount_lt (n : BitVec 32) : formatInodeCount n.toNat < 2 ^ 32 := by
  unfold formatInodeCount
  split <;> omega

theorem formatInodeCount_pos (n : Nat) : 0 < formatInodeCount n := by
  unfold formatInodeCount
  split <;> omega

theorem formatBlockCount_le (d : BlockDevice) (n : Nat) : formatBlockCount d n ≤ d.blockCount := by
  unfold formatBlockCount
  split <;> omega

theorem super_fields (d : BlockDevice) (inodeCount blockCount : BitVec 32) :
    let l := formatLayout d inodeCount.toNat blockCount.toNat
    l.super.blockCount.toNat = l.blockCount ∧ l.super.inodeCount.toNat = l.inodeCount ∧
      l.super.bmapStart.toNat = l.bmapStart ∧ l.super.imapStart.toNat = l.imapStart ∧
      l.super.inodeStart.toNat = l.inodeStart ∧ l.super.dataStart.toNat = l.dataStart ∧ l.dataStart ≤ 2 ^ 28 := by
  intro l
  have h1 := bitmapBlocks_le (formatBlockCount d blockCount.toNat)
  have h2 := bitmapBlocks_le (formatInodeCount inodeCount.toNat)
  have h3 := inodeTableBlocks_le (formatInodeCount_lt inodeCount)
  have hb := formatBlockCount_le d blockCount.toNat
  have hd := d.blockCount_lt
  have hi := formatInodeCount_lt inodeCount
  simp only [l, Layout.super, formatLayout, BitVec.toNat_ofNat]
  exact ⟨Nat.mod_eq_of_lt (by omega), Nat.mod_eq_of_lt (by omega), trivial,
    Nat.mod_eq_of_lt (by omega), Nat.mod_eq_of_lt (by omega), Nat.mod_eq_of_lt (by omega), by omega⟩

theorem format_room {ic bc : Nat} (h : (capyfsFormat d ic bc).1 = 0) : d.blockSize = capyfsBlockSize ∧
      (formatLayout d ic bc).dataStart < (formatLayout d ic bc).blockCount := by
  unfold capyfsFormat at h
  by_cases hb : d.blockSize ≠ capyfsBlockSize
  · rw [if_pos hb] at h
    simp at h
  · rw [if_neg hb] at h
    simp only at h
    by_cases hr : (formatLayout d ic bc).blockCount ≤ (formatLayout d ic bc).dataStart
    · rw [if_pos hr] at h
      simp at h
    · exact ⟨not_not.mp hb, Nat.lt_of_not_le hr⟩

/-- The accessors' block numbers on a formatted volume do not wrap. -/
theorem format_blockNos (d : BlockDevice) (inodeCount blockCount : BitVec 32) {n : Nat} (hn : n < 2 ^ 32) :
    let l := formatLayout d inodeCount.toNat blockCount.toNat
    inodeBlockNo l.super n = l.inodeStart + n / 56 ∧ imapBlockNo l.super n = l.imapStart + n / 32768 ∧
      bmapBlockNo l.super n = 1 + n / 32768 := by
  intro l
  obtain ⟨_, _, hbs, his, hns, hds, hsmall⟩ := super_fields d inodeCount blockCount
  have hle : l.imapStart ≤ l.dataStart ∧ l.inodeStart ≤ l.dataStart ∧ l.bmapStart = 1 := by
    refine ⟨?_, ?_, rfl⟩
    · simp only [l, formatLayout]
      omega
    · simp only [l, formatLayout]
      omega
  simp only [l] at hle ⊢
  simp only [inodeBlockNo, imapBlockNo, bmapBlockNo, hbs, his, hns, inodesPerBlock_eq, bitsPerBlock_eq]
  rw [hle.2.2]
  exact ⟨u32_of_lt (by omega), u32_of_lt (by omega), u32_of_lt (by omega)⟩

theorem regionsFit_of_counts (d : BlockDevice) (inodeCount blockCount : BitVec 32)
    (h : CountsFit (formatInodeCount inodeCount.toNat) (formatBlockCount d blockCount.toNat)) :
    RegionsFit (formatLayout d inodeCount.toNat blockCount.toNat).super := by
  obtain ⟨hbc, hic, hbs, his, hns, hds, _⟩ := super_fields d inodeCount blockCount
  have hno : ∀ n, n < 2 ^ 32 → _ := fun n hn => format_blockNos d inodeCount blockCount hn
  have hblt : formatBlockCount d blockCount.toNat < 2 ^ 32 :=
    Nat.lt_of_le_of_lt (formatBlockCount_le d _) d.blockCount_lt
  have hilt := formatInodeCount_lt inodeCount
  obtain ⟨htable, hi, hb⟩ := h
  have hI := bitmapBlocks_of_le hi
  have hB := bitmapBlocks_of_le hb
  rw [inodesPerBlock_eq] at htable
  refine ⟨?_, ?_, ?_⟩
  · intro ino hino
    rw [hic] at hino
    simp only [formatLayout] at hino
    rw [(hno ino (by omega)).1, hns, hds]
    simp only [formatLayout]
    omega
  · intro ino hino
    rw [hic] at hino
    simp only [formatLayout] at hino
    rw [(hno ino (by omega)).2.1, his, hns]
    simp only [formatLayout, hI]
    omega
  · intro blk _ hblk
    rw [hbc] at hblk
    simp only [formatLayout] at hblk
    rw [(hno blk (by omega)).2.2, hbs, his]
    simp only [formatLayout, hB]
    omega

/-- The accessors stay in their regions exactly when the counts fit. -/
theorem format_regions_fit (d : BlockDevice) (inodeCount blockCount : BitVec 32)
    (h : (capyfsFormat d inodeCount.toNat blockCount.toNat).1 = 0) :
    RegionsFit (formatLayout d inodeCount.toNat blockCount.toNat).super ↔
      CountsFit (formatInodeCount inodeCount.toNat) (formatBlockCount d blockCount.toNat) := by
  obtain ⟨hbc, hic, hbs, his, hns, hds, _⟩ := super_fields d inodeCount blockCount
  obtain ⟨_, hroom⟩ := format_room h
  have hno : ∀ n, n < 2 ^ 32 → _ := fun n hn => format_blockNos d inodeCount blockCount hn
  have hblt : formatBlockCount d blockCount.toNat < 2 ^ 32 :=
    Nat.lt_of_le_of_lt (formatBlockCount_le d _) d.blockCount_lt
  have hilt := formatInodeCount_lt inodeCount
  have hipos := formatInodeCount_pos inodeCount.toNat
  constructor
  · intro hf
    refine ⟨?_, ?_, ?_⟩
    · have hlast := hf.inode (formatInodeCount inodeCount.toNat - 1)
        (by rw [hic]; simp only [formatLayout]; omega)
      rw [(hno _ (by omega)).1, hds] at hlast
      simp only [formatLayout] at hlast
      rw [inodesPerBlock_eq]
      omega
    · by_contra hbig
      have hfirst := hf.imap 0 (by rw [hic]; exact hipos)
      rw [(hno 0 (by omega)).2.1, hns] at hfirst
      simp only [formatLayout, bitmapBlocks_of_gt (Nat.lt_of_not_le hbig) hilt] at hfirst
      omega
    · by_contra hbig
      have hfirst := hf.bmap _ (Nat.le_refl _) (by rw [hds, hbc]; exact hroom)
      rw [hds, (hno _ (by omega)).2.2, his] at hfirst
      simp only [formatLayout, bitmapBlocks_of_gt (Nat.lt_of_not_le hbig) hblt] at hfirst
      omega
  · exact regionsFit_of_counts d inodeCount blockCount

/-- A reliable device of `n` blocks. -/
def plainDevice (n : BitVec 32) : BlockDevice :=
  ⟨4096, n.toNat, fun _ => zeros, fun _ => false, fun _ => false, page_lt, word_lt n⟩

theorem plainDevice_regions_fit :
    (capyfsFormat (plainDevice 64) 128 0).1 = 0 ∧
      RegionsFit (formatLayout (plainDevice 64) 128 0).super := by
  have h : (capyfsFormat (plainDevice 64) (128 : BitVec 32).toNat (0 : BitVec 32).toNat).1 = 0 := by
    decide
  exact ⟨h, (format_regions_fit (plainDevice 64) 128 0 h).mpr ⟨by decide, by decide, by decide⟩⟩

/-- With 113 inodes the table has two blocks and room for 112 records. -/
theorem plainDevice_last_inode :
    (capyfsFormat (plainDevice 64) 113 0).1 = 0 ∧
      ¬ RegionsFit (formatLayout (plainDevice 64) 113 0).super := by
  refine ⟨by decide, ?_⟩
  intro hf
  exact absurd (hf.inode 112 (by decide)).2 (by decide)

end CapyOS.Proofs
