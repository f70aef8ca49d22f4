import CapyOS.Fs.Fsck

namespace CapyOS.Proofs
open Lib List

section
variable {d : BlockDevice} {sb : CapySuper}

structure GatePassed (d : BlockDevice) (sb : CapySuper) : Prop where
  blockSize : 8 ≤ d.blockSize
  inodes : 0 < sb.inodeCount.toNat
  perBlock : 0 < inodesPerBlockOf d
  inodeSum : sb.inodeCount.toNat + 7 < 2 ^ 32
  blockSum : sb.blockCount.toNat + 7 < 2 ^ 32
  imapSize : imapBlocks d sb * d.blockSize < 2 ^ 32
  bmapSize : bmapBlocks d sb * d.blockSize < 2 ^ 32
  imapFits : sb.imapStart.toNat + imapBlocks d sb ≤ d.blockCount
  bmapFits : sb.bmapStart.toNat + bmapBlocks d sb ≤ d.blockCount

theorem gate_passed (h : fsckSuperGeometryValid sb d.blockCount d.blockSize = true) : GatePassed d sb := by
  unfold fsckSuperGeometryValid at h
  obtain ⟨-, hbs, -, hinodes, -, -, hipb, -, -, -, -, -, hisum, hbsum, -, -, -, himap, hbmap, hifit, hbfit⟩ :=
    of_decide_eq_true h
  exact ⟨hbs, Nat.pos_of_ne_zero hinodes, Nat.pos_of_ne_zero hipb, by omega, by omega,
    Nat.lt_succ_of_le himap, Nat.lt_succ_of_le hbmap, hifit, hbfit⟩

theorem GatePassed.table (h : GatePassed d sb) {ib : Nat} (hib : ib < inodeBlockCount d sb) :
    ib * inodesPerBlockOf d < sb.inodeCount.toNat := by
  have hpos := h.perBlock
  have hle : (ib + 1) * inodesPerBlockOf d ≤ sb.inodeCount.toNat + inodesPerBlockOf d - 1 :=
    (Nat.le_div_iff_mul_le hpos).mp hib
  rw [Nat.succ_mul] at hle
  omega

theorem GatePassed.tablePos (h : GatePassed d sb) : 0 < inodeBlockCount d sb := by
  have hpos := h.perBlock
  have hinodes := h.inodes
  exact (Nat.div_pos_iff).mpr ⟨hpos, by omega⟩

theorem mapBlocks_covers {bs count : Nat} (hbs : 0 < bs) : mapBytes count ≤ mapBlocks bs count * bs := by
  have hlt : mapBytes count + bs - 1 < (mapBlocks bs count + 1) * bs := by
    rw [← Nat.div_lt_iff_lt_mul hbs]
    exact Nat.lt_succ_self _
  rw [Nat.succ_mul] at hlt
  omega

theorem byte_of_bit {i count : Nat} (h : i < count) : i / 8 < mapBytes count := by
  unfold mapBytes
  omega

theorem mem_tableInodes {ino : Nat} (h : ino ∈ tableInodes d sb) : ino < sb.inodeCount.toNat := by
  obtain ⟨ib, -, hino⟩ := List.mem_flatMap.mp h
  obtain ⟨j, hj, rfl⟩ := List.mem_map.mp hino
  rw [mem_range] at hj
  omega

theorem mem_orphanRange {b : Nat} (h : b ∈ orphanRange sb) : b < sb.blockCount.toNat := by
  rw [orphanRange, mem_range'_1] at h
  omega

theorem mem_filledBytes {n i : Nat} (h : i ∈ filledBytes d n) : i < n * d.blockSize := by
  obtain ⟨b, hb, hi⟩ := List.mem_flatMap.mp h
  obtain ⟨k, hk, rfl⟩ := List.mem_map.mp hi
  rw [mem_range] at hb hk
  have hle : (b + 1) * d.blockSize ≤ n * d.blockSize := Nat.mul_le_mul_right _ hb
  rw [Nat.succ_mul] at hle
  omega

/-- The bitmaps in memory are never left, whatever the device holds. -/
theorem GatePassed.indices (h : GatePassed d sb) (array : FsckArray) : ∀ i ∈ fsckIndices d sb array, i < array.length d sb := by
  have hbs : 0 < d.blockSize := by
    have := h.blockSize
    omega
  have hinode : ∀ i ∈ (tableInodes d sb).map (· / 8), i < mapBytes sb.inodeCount.toNat := by
    intro i hi
    obtain ⟨ino, hino, rfl⟩ := List.mem_map.mp hi
    exact byte_of_bit (mem_tableInodes hino)
  have horphan : ∀ i ∈ (orphanRange sb).map (· / 8), i < mapBytes sb.blockCount.toNat := by
    intro i hi
    obtain ⟨b, hb, rfl⟩ := List.mem_map.mp hi
    exact byte_of_bit (mem_orphanRange hb)
  intro i hi
  cases array with
  | inodeSeen => exact hinode i hi
  | blockSeen =>
    rw [fsckIndices, map_append] at hi
    cases List.mem_append.mp hi with
    | inl hptr =>
      obtain ⟨blk, hblk, rfl⟩ := List.mem_map.mp hptr
      obtain ⟨ino, -, hmem⟩ := List.mem_flatMap.mp hblk
      have hrange := of_decide_eq_true (List.mem_filter.mp hmem).2
      exact byte_of_bit hrange.2
    | inr hscan => exact horphan i hscan
  | diskImap =>
    cases List.mem_append.mp hi with
    | inl hfill => exact mem_filledBytes hfill
    | inr hread => exact Nat.lt_of_lt_of_le (hinode i hread) (mapBlocks_covers hbs)
  | diskBmap =>
    cases List.mem_append.mp hi with
    | inl hfill => exact mem_filledBytes hfill
    | inr hread => exact Nat.lt_of_lt_of_le (horphan i hread) (mapBlocks_covers hbs)

theorem GatePassed.products (h : GatePassed d sb) : ∀ p ∈ fsckProducts d sb, p.1 * p.2 < 2 ^ 32 := by
  intro p hp
  unfold fsckProducts at hp
  rcases List.mem_append.mp hp with hmaps | htable
  · rcases List.mem_append.mp hmaps with himap | hbmap
    · obtain ⟨i, hi, rfl⟩ := List.mem_map.mp himap
      exact Nat.lt_of_le_of_lt (Nat.mul_le_mul_right _ (Nat.le_of_lt (List.mem_range.mp hi))) h.imapSize
    · obtain ⟨i, hi, rfl⟩ := List.mem_map.mp hbmap
      exact Nat.lt_of_le_of_lt (Nat.mul_le_mul_right _ (Nat.le_of_lt (List.mem_range.mp hi))) h.bmapSize
  · obtain ⟨ib, hib, rfl⟩ := List.mem_map.mp htable
    exact Nat.lt_trans (h.table (List.mem_range.mp hib)) sb.inodeCount.isLt

/-- The sums that the gate leaves open: the place of the table's last block, and the three
that are rounded up before the one is taken from them. -/
structure SumsFit (d : BlockDevice) (sb : CapySuper) : Prop where
  table : sb.inodeStart.toNat + inodeBlockCount d sb ≤ 2 ^ 32
  inodeBytes : mapBytes sb.inodeCount.toNat + d.blockSize < 2 ^ 32
  blockBytes : mapBytes sb.blockCount.toNat + d.blockSize < 2 ^ 32
  inodes : sb.inodeCount.toNat + inodesPerBlockOf d < 2 ^ 32

theorem GatePassed.sums (h : GatePassed d sb) (hfit : SumsFit d sb) : ∀ p ∈ fsckSums d sb, p.1 + p.2 < 2 ^ 32 := by
  have hdev := d.blockCount_lt
  intro p hp
  simp only [fsckSums, mem_append, mem_cons, not_mem_nil, or_false, mem_map,
    mem_flatMap, mem_range] at hp
  rcases hp with ((((((rfl | rfl | rfl) | ⟨i, hi, rfl⟩) | rfl) | ⟨i, hi, rfl⟩) | rfl) | ⟨ib, hib, hsum⟩)
  · exact h.inodeSum
  · exact h.blockSum
  · exact hfit.inodeBytes
  · have := h.imapFits
    dsimp only
    omega
  · exact hfit.blockBytes
  · have := h.bmapFits
    dsimp only
    omega
  · exact hfit.inodes
  · rcases hsum with rfl | ⟨j, hj, rfl⟩
    · have := hfit.table
      dsimp only
      omega
    · have hib := h.table hib
      have hlt := sb.inodeCount.isLt
      rw [inodeSlots, mem_range] at hj
      dsimp only
      omega

theorem GatePassed.fits (h : GatePassed d sb) (hsums : ∀ p ∈ fsckSums d sb, p.1 + p.2 < 2 ^ 32) : SumsFit d sb := by
  have hpos := h.tablePos
  have hlast : (sb.inodeStart.toNat, inodeBlockCount d sb - 1) ∈ fsckSums d sb := by
    refine mem_append_right _ (List.mem_flatMap.mpr ⟨inodeBlockCount d sb - 1, ?_, mem_cons_self⟩)
    exact List.mem_range.mpr (by omega)
  have htable := hsums _ hlast
  have hinodeBytes := hsums (mapBytes sb.inodeCount.toNat, d.blockSize) (by simp [fsckSums])
  have hblockBytes := hsums (mapBytes sb.blockCount.toNat, d.blockSize) (by simp [fsckSums])
  have hinodes := hsums (sb.inodeCount.toNat, inodesPerBlockOf d) (by simp [fsckSums])
  refine ⟨?_, hinodeBytes, hblockBytes, hinodes⟩
  dsimp only at htable
  omega

/-- Behind the gate the bitmaps are never left and no product wraps; no sum does exactly
when these four fit. -/
theorem geometry_gate (d : BlockDevice) (sb : CapySuper)
    (h : fsckSuperGeometryValid sb d.blockCount d.blockSize = true) :
    ArithmeticSafe d sb ↔ SumsFit d sb :=
  ⟨fun hsafe => (gate_passed h).fits hsafe.sums, fun hfit =>
    ⟨(gate_passed h).sums hfit, (gate_passed h).products, (gate_passed h).indices⟩⟩

end

/-- A device of `n` blocks. -/
def bareDevice (n : Nat) (hn : n < 2 ^ 32) : BlockDevice :=
  ⟨4096, n, fun _ => zeros, fun _ => false, fun _ => false, page_lt, hn⟩

def placedSuper (inodeStart : BitVec 32) : CapySuper :=
  ⟨capyfsMagic, capyfsVersion, 4096, 64, 128, 1, 2, inodeStart, 6⟩

theorem geometry_gate_small : ArithmeticSafe (bareDevice 64 (by decide)) (placedSuper 3) :=
  (geometry_gate (bareDevice 64 (by decide)) (placedSuper 3) (by decide)).mpr
    ⟨by decide, by decide, by decide, by decide⟩

/-- The gate lets a table begin at the device's last block but one; its third block then
wraps around to the superblock. -/
theorem gate_lets_table_wrap :
    fsckSuperGeometryValid (placedSuper 4294967294) (bareDevice 4294967295 (by decide)).blockCount
        (bareDevice 4294967295 (by decide)).blockSize = true ∧
      ¬ ArithmeticSafe (bareDevice 4294967295 (by decide)) (placedSuper 4294967294) := by
  have hgate : fsckSuperGeometryValid (placedSuper 4294967294) 4294967295 4096 = true := by
    decide
  refine ⟨hgate, fun hsafe => ?_⟩
  have hfit := (gate_passed hgate).fits hsafe.sums
  have htable : ¬ 4294967294 + (128 + 4096 / 72 - 1) / (4096 / 72) ≤ 2 ^ 32 := by decide
  exact htable hfit.table

end CapyOS.Proofs
