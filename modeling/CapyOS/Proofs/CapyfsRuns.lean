import CapyOS.Proofs.CapyfsMount
import CapyOS.Proofs.VolumeNamespace

namespace CapyOS.Proofs
open Lib FsM Volume Function List
variable {ino : Nat} {k : Nat × Nat} {name : Name} {i : Nat} {b : Nat}

section
variable {v w : Volume} {h : VInode}

theorem Valid.keeps (hv : Valid v h) (hk : Keeps v w) : Valid w h :=
  ⟨by rw [hk.imap]; exact hv.live, (hk.mode _ hv.live).trans hv.mode⟩

theorem Valid.stays {p : Prop} (hv : Valid v h) (hk : Stays p v w) : Valid w h :=
  ⟨by rw [hk.imap]; exact hv.live, by rw [hk.inode _ hv.live]; exact hv.mode⟩

theorem Valid.created {dir c : Nat} {x : CapyInodeDisk} (hv : Valid v h)
    (hc : Created v w dir c name x) : Valid w h := by
  refine ⟨?_, (hc.modes _ hv.live).trans hv.mode⟩
  have hne : h.ino ≠ c := by
    rintro he
    have := hv.live
    rw [he, hc.free] at this
    cases this
  rw [hc.imap, update_of_ne hne]
  exact hv.live

theorem Valid.removed {t : Nat} (hv : Valid v h) (hr : Removed v w k t) (hne : h.ino ≠ t) : Valid w h := by
  refine ⟨?_, by rw [hr.others _ hne]; exact hv.mode⟩
  rw [hr.imap, update_of_ne hne]
  exact hv.live

theorem Valid.moved {dst : Nat} (hv : Valid v h) (hm : Moved v w k dst name) : Valid w h :=
  ⟨by rw [hm.imap]; exact hv.live, (hm.modes _).trans hv.mode⟩

end

theorem ampleHeap_inode : ampleHeap vfsInodeSize = true ∧ ampleHeap capyfsInodeSize = true := ⟨rfl, rfl⟩

structure Serves (m : CapySuper) (s : Session) : Prop where
  carries : Carries m s.fs.dev
  safe : (volumeOf m s.fs.dev).Safe
  tight : (volumeOf m s.fs.dev).Tight
  handles : ∀ h ∈ s.handles, Valid (volumeOf m s.fs.dev) h

section
variable {m : CapySuper} {s : Session}

theorem Serves.get (hs : Serves m s) {h : VInode} (hi : s.handles[i]? = some h) : Valid (volumeOf m s.fs.dev) h :=
  hs.handles h (mem_of_getElem? hi)

/-- A handle that is replaced by one of the same inode and kind. -/
theorem Serves.set (hs : Serves m s) {h h' : VInode} (hi : s.handles[i]? = some h)
    (hino : h'.ino = h.ino) (hmode : h'.mode = h.mode) : ∀ g ∈ s.handles.set i h', Valid (volumeOf m s.fs.dev) g := by
  intro g hg
  rcases mem_or_eq_of_mem_set hg with hg | rfl
  · exact hs.handles g hg
  · have hv := hs.get hi
    exact ⟨by rw [hino]; exact hv.live, by rw [hino, hmode]; exact hv.mode⟩

theorem lookup_serves (hs : Serves m s) (dir : Nat) (name : Name) : Serves m (FsCall.run ampleHeap m s (.lookup dir name)) := by
  simp only [FsCall.run]
  cases hd : s.handles[dir]? with
  | none => exact hs
  | some h =>
    obtain ⟨hc, hsame, hfound⟩ :=
      lookup_yields ampleHeap_inode hs.safe (hs.get hd) name s.fs hs.carries rfl
    refine ⟨hc, by rw [hsame]; exact hs.safe, by rw [hsame]; exact hs.tight, fun g hg => ?_⟩
    rw [hsame]
    rcases List.mem_append.mp hg with hg | hg
    · exact hs.handles g hg
    · rw [Option.mem_toList.mp hg] at hfound
      exact hfound.1

theorem create_serves (hm : DirectDirs m) (hs : Serves m s) (dir : Nat) (name : Name)
    (mode : BitVec 16) (info : Option VfsMetadata) : Serves m (FsCall.run ampleHeap m s (.create dir name mode info)) := by
  simp only [FsCall.run]
  cases hd : s.handles[dir]? with
  | none => exact hs
  | some h =>
    obtain ⟨hc, hpost⟩ := create_yields ampleHeap_inode hs.carries.layout hs.safe (hs.get hd) name
      mode info s.fs hs.carries rfl
    cases hr : (capyfsCreate ampleHeap m h name mode info s.fs).1 with
    | none =>
      rw [hr] at hpost
      refine ⟨hc, hpost.safe, hpost.tight hm hs.tight, fun g hg => ?_⟩
      simp only [hr, Option.toList_none, append_nil] at hg
      exact (hs.handles g hg).stays hpost
    | some c =>
      rw [hr] at hpost
      obtain ⟨hnew, hcreated⟩ := hpost
      refine ⟨hc, hcreated.safe, hcreated.tight hs.tight, fun g hg => ?_⟩
      simp only [hr, Option.toList_some, mem_append, mem_singleton] at hg
      rcases hg with hg | rfl
      · exact (hs.handles g hg).created hcreated
      · refine ⟨?_, ?_⟩
        · rw [hcreated.imap, update_self]
        · rw [hcreated.record, hnew]
          rfl

theorem write_serves (hs : Serves m s) (file pos : Nat) (src : Bytes) (size : Nat) :
    Serves m (FsCall.run ampleHeap m s (.write file pos src size)) := by
  simp only [FsCall.run]
  cases hd : s.handles[file]? with
  | none => exact hs
  | some h =>
    have hv := hs.get hd
    obtain ⟨hc, hkeeps, hsame⟩ := write_yields hs.carries.layout hs.safe hv.live hv.mode pos src size
      s.fs hs.carries rfl
    refine ⟨hc, hkeeps.safe, hkeeps.tight hs.tight, fun g hg => Valid.keeps ?_ hkeeps⟩
    cases hr : (capyfsWrite m h pos src size s.fs).1 with
    | none =>
      simp only [hr] at hg
      exact hs.handles g hg
    | some r =>
      simp only [hr] at hg
      obtain ⟨hino, hmode⟩ := hsame r.1 r.2 hr
      exact hs.set hd hino hmode g hg

theorem remove_serves (hs : Serves m s) (dir : Nat) (name : Name) (isDir : Bool) :
    Serves m (FsCall.run ampleHeap m s (.remove dir name isDir)) := by
  simp only [FsCall.run]
  cases hd : s.handles[dir]? with
  | none => exact hs
  | some h =>
    have hv := hs.get hd
    obtain ⟨hc, hpost⟩ := remove_yields hs.safe hv name isDir s.fs hs.carries rfl
    cases hr : (capyfsRemove m h name isDir s.fs).1 with
    | none =>
      rw [hr] at hpost
      refine ⟨hc, by rw [hpost]; exact hs.safe, by rw [hpost]; exact hs.tight, fun g hg => ?_⟩
      simp only [hr] at hg
      rw [hpost]
      exact hs.handles g hg
    | some u =>
      rw [hr] at hpost
      obtain ⟨j, t, hat, hremoved, -⟩ := hpost
      refine ⟨hc, hremoved.safe, hremoved.tight hs.tight, fun g hg => ?_⟩
      simp only [hr, mem_filter, decide_eq_true_eq] at hg
      refine (hs.handles g hg.1).removed hremoved (fun hgt => hg.2 ?_)
      -- the lookup before the call finds the inode that the call removes
      obtain ⟨-, -, hfound⟩ :=
        lookup_yields ampleHeap_inode hs.safe hv name s.fs hs.carries rfl
      cases hl : (capyfsLookup ampleHeap m h name s.fs).1 with
      | none =>
        rw [hl] at hfound
        exact absurd ⟨j, t, hat⟩ hfound
      | some h' =>
        rw [hl] at hfound
        obtain ⟨-, ⟨j', hat'⟩, -⟩ := hfound
        rw [hgt, (hat.unique hat').2]
        rfl

theorem renameInode_serves (hm : DirectDirs m) (hs : Serves m s) (srcDir : Nat) (srcName : Name)
    (dstDir : Nat) (dstName : Name) : Serves m (FsCall.run ampleHeap m s (.renameInode srcDir srcName dstDir dstName)) := by
  simp only [FsCall.run]
  cases hsrc : s.handles[srcDir]? with
  | none => exact hs
  | some src =>
    cases hdst : s.handles[dstDir]? with
    | none => exact hs
    | some dst =>
      obtain ⟨hc, hpost⟩ := renameInode_yields hs.carries.layout hs.safe (hs.get hsrc) (hs.get hdst)
        srcName dstName s.fs hs.carries rfl
      cases hr : (capyfsRenameInode m src srcName dst dstName s.fs).1 with
      | none =>
        rw [hr] at hpost
        exact ⟨hc, hpost.safe, hpost.tight hm hs.tight, fun g hg => (hs.handles g hg).stays hpost⟩
      | some u =>
        rw [hr] at hpost
        obtain ⟨-, j, t, -, hmoved⟩ := hpost
        exact ⟨hc, hmoved.safe, hmoved.tight hs.tight, fun g hg => (hs.handles g hg).moved hmoved⟩

theorem setMetadata_serves (hs : Serves m s) (inode : Nat) (info : VfsMetadata) :
    Serves m (FsCall.run ampleHeap m s (.setMetadata inode info)) := by
  simp only [FsCall.run]
  cases hd : s.handles[inode]? with
  | none => exact hs
  | some h =>
    have hv := hs.get hd
    obtain ⟨hc, hkeeps, h', hr, hino, hmode⟩ := setMetadata_yields hs.safe hv.live info s.fs hs.carries rfl
    refine ⟨hc, hkeeps.safe, hkeeps.tight hs.tight, fun g hg => Valid.keeps ?_ hkeeps⟩
    simp only [hr] at hg
    exact hs.set hd hino hmode g hg

theorem call_serves (hm : DirectDirs m) (hs : Serves m s) (call : FsCall) : Serves m (call.run ampleHeap m s) := by
  cases call with
  | lookup dir name => exact lookup_serves hs dir name
  | create dir name mode info => exact create_serves hm hs dir name mode info
  | write file pos src size => exact write_serves hs file pos src size
  | remove dir name isDir => exact remove_serves hs dir name isDir
  | renameInode srcDir srcName dstDir dstName => exact renameInode_serves hm hs srcDir srcName dstDir dstName
  | setMetadata inode info => exact setMetadata_serves hs inode info

theorem runCalls_serves (hm : DirectDirs m) (hs : Serves m s) (calls : List FsCall) :
    Serves m (runCalls ampleHeap m s calls) := by
  induction calls generalizing s with
  | nil => exact hs
  | cons call rest ih => exact ih (call_serves hm hs call)

end

theorem testBit_diskMap {d : BlockDevice} (hbs : d.blockSize = capyfsBlockSize) (start i : Nat) :
    testBit (diskMap d start) i = testBit (d.blocks (start + i / bitsPerBlock)) (i % bitsPerBlock) := by
  have hblk : i / 8 / 4096 = i / 32768 := by omega
  have hbyte : i / 8 % 4096 = i % 32768 / 8 := by omega
  have hbit : i % 8 = i % 32768 % 8 := by omega
  simp only [testBit, diskMap, hbs, capyfsBlockSize, bitsPerBlock_eq, hblk, hbyte, hbit]

section
variable {m : CapySuper} {d : BlockDevice} (hc : Carries m d)
include hc

theorem imapBit_volumeOf (hi : ino < m.inodeCount.toNat) : imapBit d m ino = (volumeOf m d).imap ino := by
  unfold imapBit
  rw [testBit_diskMap hc.size, ← hc.layout.imapNo ino hi]
  simp [volumeOf, hi]

theorem bmapBit_volumeOf (hb : InData m b) : bmapBit d m b = (volumeOf m d).bmap b := by
  unfold bmapBit
  rw [testBit_diskMap hc.size, ← hc.layout.bmapNo b hb.2]
  simp [volumeOf, hb.1, hb.2]

theorem tableInode_volumeOf (hi : ino < m.inodeCount.toNat) : tableInode d m ino = (volumeOf m d).inode ino := by
  simp only [tableInode, inodesPerBlockOf, hc.size, volumeOf, if_pos hi]
  rfl

variable (hs : (volumeOf m d).Sound)
include hs

theorem slotPtr_volumeOf (hi : (volumeOf m d).imap ino = true) (s : Slot) :
    slotPtr d m ((volumeOf m d).inode ino) s = ((volumeOf m d).ptr ((volumeOf m d).inode ino) s).toNat := by
  cases s with
  | direct l => rfl
  | indirect => rfl
  | entry k =>
    simp only [slotPtr, ptr]
    by_cases h0 : ((volumeOf m d).inode ino).indirect = 0#32
    · simp [h0]
    · have hind : InData m ((volumeOf m d).inode ino).indirect.toNat :=
        (volumeOf_bounded m d).blocks _
          (slot_taken hs .indirect hi (fun h => h0 (BitVec.eq_of_toNat_eq h)))
      have hdata : (volumeOf m d).data ((volumeOf m d).inode ino).indirect.toNat =
          d.blocks ((volumeOf m d).inode ino).indirect.toNat := if_pos hind
      rw [hdata, hc.size]
      by_cases hk : k < entriesPerBlock
      · have hk' : k < capyfsBlockSize / 4 := hk
        simp only [h0, hk, hk', hind.2, ne_eq, not_false_iff, true_and, if_true]
        rfl
      · have hk' : ¬ k < capyfsBlockSize / 4 := hk
        simp [hk, hk']

theorem points_iff (h0 : b ≠ 0) (k : Nat × Slot) : Points d m b k ↔ (volumeOf m d).pointers k = b := by
  obtain ⟨i, s⟩ := k
  unfold Points pointers
  constructor
  · rintro ⟨hi, hlive, hp⟩
    simp only at hi hlive hp
    rw [imapBit_volumeOf hc hi] at hlive
    rw [tableInode_volumeOf hc hi, slotPtr_volumeOf hc hs hlive] at hp
    rw [if_pos hlive]
    exact hp
  · intro hp
    split at hp
    · rename_i hlive
      have hi := (volumeOf_bounded m d).inodes _ hlive
      simp only at hi hlive hp ⊢
      refine ⟨hi, by rw [imapBit_volumeOf hc hi]; exact hlive, ?_⟩
      rw [tableInode_volumeOf hc hi, slotPtr_volumeOf hc hs hlive]
      exact hp
    · exact absurd hp.symm h0

theorem direntAt_volumeOf (k : Nat × Nat) : direntAt d m k = (volumeOf m d).entries k := by
  obtain ⟨i, j⟩ := k
  unfold direntAt
  simp only
  by_cases hk : (volumeOf m d).IsDirectory i ∧ j < (volumeOf m d).entryCount i
  · have hi := (volumeOf_bounded m d).inodes i hk.1.1
    have hblk := entryBlock_inData (volumeOf_bounded m d) hs hk.1 hk.2
    have hp : slotPtr d m (tableInode d m i) (slotOf (j / direntsPerBlock)) =
        (volumeOf m d).entryBlock i j := by
      rw [tableInode_volumeOf hc hi, slotPtr_volumeOf hc hs hk.1.1]
      rfl
    have hdata : (volumeOf m d).data ((volumeOf m d).entryBlock i j) =
        d.blocks ((volumeOf m d).entryBlock i j) := if_pos hblk
    unfold Volume.entries
    rw [dirents_of hs hk.1 hk.2, hp, if_pos, hdata]
    · rfl
    · rw [imapBit_volumeOf hc hi, tableInode_volumeOf hc hi]
      exact ⟨hi, hk.1.1, hk.1.2, hk.2, hs.full i j hk.1 hk.2⟩
  · unfold Volume.entries
    rw [dirents_none hk, if_neg]
    rintro ⟨hi, hlive, hdir, hj, -⟩
    rw [imapBit_volumeOf hc hi] at hlive
    rw [tableInode_volumeOf hc hi] at hdir hj
    exact hk ⟨⟨hlive, hdir⟩, hj⟩

end

/-- On a volume in order the device's bits, records and entries agree. -/
theorem Serves.consistent {m : CapySuper} {s : Session} (h : Serves m s) : AllocationConsistent s.fs.dev m := by
  obtain ⟨hc, hs, ht, -⟩ := h
  have hdirent := direntAt_volumeOf hc hs.toSound
  refine ⟨fun b hlo hhi => ?_, fun k hk => ?_, fun k k' hk he => ?_⟩
  · have h0 : b ≠ 0 := hc.layout.data_pos ⟨hlo, hhi⟩
    rw [bmapBit_volumeOf hc ⟨hlo, hhi⟩]
    constructor
    · intro hb
      obtain ⟨k, hk⟩ := ht b h0 hb
      refine ⟨k, (points_iff hc hs.toSound h0 k).mpr hk, fun k' hk' => ?_⟩
      have hp := (points_iff hc hs.toSound h0 k').mp hk'
      exact hs.blocks.once k' k (by rw [hp]; exact h0) (by rw [hp, hk])
    · rintro ⟨k, hk, -⟩
      have hp := (points_iff hc hs.toSound h0 k).mp hk
      rw [← hp]
      exact hs.blocks.held k (by rw [hp]; exact h0)
  · rw [hdirent] at hk ⊢
    have hlive := hs.inodes.held k hk
    have hi := (volumeOf_bounded m s.fs.dev).inodes _ hlive
    exact ⟨hi, by rw [imapBit_volumeOf hc hi]; exact hlive⟩
  · rw [hdirent] at hk he
    rw [hdirent] at he
    exact hs.inodes.once k k' hk he

theorem fresh_safe {v : Volume} (hmap : ∀ i, v.imap i = true ↔ i = 0) (hroot : v.inode 0 = rootInode)
    (hfree : ∀ b, v.bmap b = false) : v.Safe ∧ v.Tight := by
  have hblank : Blank rootInode := ⟨fun _ => rfl, rfl, rfl⟩
  have hptr : ∀ k, v.pointers k = 0 := by
    intro k
    unfold pointers
    split
    · rename_i hk
      rw [(hmap k.1).mp hk, hroot, hblank.ptr]
      rfl
    · rfl
  have hcount : ∀ i, v.IsDirectory i → v.entryCount i = 0 := by
    intro i hd
    unfold entryCount
    rw [(hmap i).mp hd.1, hroot]
    rfl
  have hentries : ∀ k, v.entries k = 0 := by
    intro k
    by_contra hk
    obtain ⟨hd, hj⟩ := entries_dir hk
    rw [hcount _ hd] at hj
    omega
  refine ⟨⟨⟨⟨fun k hk => absurd (hptr k) hk, fun k _ hk => absurd (hptr k) hk⟩, ⟨(hmap 0).mpr rfl, ?_⟩,
    fun i j hd hj => ?_⟩, ⟨fun k hk => absurd (hentries k) hk, fun k _ hk => absurd (hentries k) hk⟩⟩,
    fun b _ hb => ?_⟩
  · rw [hroot]
    rfl
  · rw [hcount i hd] at hj
    omega
  · rw [hfree] at hb
    cases hb

section
variable {d : BlockDevice} {l : Layout}

theorem formatWrites_content (hl : LayoutOrdered l) (hi : l.imapStart < l.inodeStart)
    (hd : l.inodeStart < l.dataStart) (h : (writeAll d (formatWrites l)).1 = 0) : (∀ map, map < l.imapStart - l.bmapStart →
      (writeAll d (formatWrites l)).2.blocks (l.bmapStart + map) = reservedBitmap l.dataStart map) ∧
    (writeAll d (formatWrites l)).2.blocks l.imapStart = setBit zeros 0 ∧ (∀ k, 0 < k → l.imapStart + k < l.inodeStart →
      (writeAll d (formatWrites l)).2.blocks (l.imapStart + k) = zeros) ∧
    (writeAll d (formatWrites l)).2.blocks l.inodeStart = rootInode.bytes := by
  obtain ⟨hdev, -, hcan, -⟩ := formatWrites_blocks hl h
  obtain ⟨hb1, -, -, -⟩ := hl
  rw [hdev]
  simp only [formatWrites, map_append, map_cons, map_nil, map_map,
    BlockDevice.apply_append, BlockDevice.apply_cons, BlockDevice.apply_nil]
  refine ⟨fun map hmap => ?_, ?_, fun k h0 hk => ?_, ?_⟩
  · rw [BlockDevice.write_other _ _ (by simp only; omega), BlockDevice.write_other _ _ (by simp only; omega)]
    apply BlockDevice.apply_of_mem
    · rw [map_map]
      refine List.Nodup.map (fun a b hab => ?_) nodup_range
      simp only [comp_apply] at hab
      omega
    · exact List.mem_map.mpr ⟨map, List.mem_range.mpr hmap, rfl⟩
    · simp only [BlockDevice.apply_canWrite, BlockDevice.write_canWrite]
      exact hcan _ (by omega)
  · rw [BlockDevice.write_other _ _ (by simp only; omega)]
    apply BlockDevice.write_same
    simp only [BlockDevice.apply_canWrite, BlockDevice.write_canWrite]
    exact hcan _ (by omega)
  · -- the first pass over the region cleared it
    rw [BlockDevice.write_other _ _ (by simp only; omega), BlockDevice.write_other _ _ (by simp only; omega),
      BlockDevice.apply_other]
    · apply BlockDevice.apply_of_mem
      · rw [map_map]
        refine List.Nodup.map (fun a b hab => ?_) nodup_range
        simp only [comp_apply] at hab
        omega
      · refine List.mem_map.mpr ⟨l.imapStart + k - l.bmapStart, List.mem_range.mpr (by omega), ?_⟩
        simp only [comp_apply, Prod.mk.injEq, and_true]
        omega
      · simp only [BlockDevice.write_canWrite]
        exact hcan _ (by omega)
    · simp only [map_map, mem_map, mem_range, comp_apply, not_exists, not_and]
      intro a ha
      omega
  · apply BlockDevice.write_same
    simp only [BlockDevice.apply_canWrite, BlockDevice.write_canWrite]
    exact hcan _ (by omega)

end

section
variable {d : BlockDevice} {inodeCount blockCount : BitVec 32}

theorem format_soundLayout (h : (capyfsFormat d inodeCount.toNat blockCount.toNat).1 = 0)
    (hfit : CountsFit (formatInodeCount inodeCount.toNat) (formatBlockCount d blockCount.toNat)) :
    SoundLayout (formatLayout d inodeCount.toNat blockCount.toNat).super := by
  obtain ⟨hbc, hic, hbs, his, hns, hds, -⟩ := super_fields d inodeCount blockCount
  obtain ⟨-, hroom⟩ := format_room h
  have hord := formatLayout_ordered d inodeCount.toNat blockCount.toNat
  have hlt : formatBlockCount d blockCount.toNat < 2 ^ 32 :=
    Nat.lt_of_le_of_lt (formatBlockCount_le d _) d.blockCount_lt
  have hno : ∀ n, n < 2 ^ 32 → _ := fun n hn => format_blockNos d inodeCount blockCount hn
  have hilt := formatInodeCount_lt inodeCount
  refine ⟨regionsFit_of_counts d inodeCount blockCount hfit, ?_, ?_, ?_, ?_, ?_, ?_, fun ino hi => ?_,
    fun ino hi => ?_, fun b hb => ?_⟩
  · rw [hbs, hord.bmap]
  · rw [hbs, his, hord.bmap]
    exact hord.imap
  · rw [his, hns]
    exact hord.inode
  · rw [hns, hds]
    exact hord.data
  · rw [hds, hbc]
    exact Nat.le_of_lt hroom
  · rw [hic]
    exact formatInodeCount_pos _
  · rw [hic] at hi
    rw [hns]
    exact (hno ino (Nat.lt_trans hi hilt)).1
  · rw [hic] at hi
    rw [his]
    exact (hno ino (Nat.lt_trans hi hilt)).2.1
  · rw [hbc] at hb
    rw [hbs, hord.bmap]
    exact (hno b (Nat.lt_trans hb hlt)).2.2

theorem bitmapBlocks_pos {n : Nat} (h0 : 0 < n) (h : n ≤ 2 ^ 32 - bitsPerBlock) : 0 < bitmapBlocks n := by
  rw [bitmapBlocks_of_le h]
  omega

/-- A freshly formatted volume has an empty root directory and no block taken. -/
theorem format_fresh (hr : d.Reliable) (h : (capyfsFormat d inodeCount.toNat blockCount.toNat).1 = 0)
    (hfit : CountsFit (formatInodeCount inodeCount.toNat) (formatBlockCount d blockCount.toNat)) :
    Carries (formatLayout d inodeCount.toNat blockCount.toNat).super (capyfsFormat d inodeCount.toNat blockCount.toNat).2 ∧
      (volumeOf (formatLayout d inodeCount.toNat blockCount.toNat).super
        (capyfsFormat d inodeCount.toNat blockCount.toNat).2).Safe ∧
      (volumeOf (formatLayout d inodeCount.toNat blockCount.toNat).super
        (capyfsFormat d inodeCount.toNat blockCount.toNat).2).Tight ∧
      ∀ i, (volumeOf (formatLayout d inodeCount.toNat blockCount.toNat).super
        (capyfsFormat d inodeCount.toNat blockCount.toNat).2).imap i = true ↔ i = 0 := by
  obtain ⟨hbc, hic, hbs, his, hns, hds, -⟩ := super_fields d inodeCount blockCount
  obtain ⟨hsize, hroom⟩ := format_room h
  have hl := format_soundLayout h hfit
  have hord := formatLayout_ordered d inodeCount.toNat blockCount.toNat
  have hpos := formatInodeCount_pos inodeCount.toNat
  have hrun := format_run h
  rw [hrun] at h ⊢
  have himap : (formatLayout d inodeCount.toNat blockCount.toNat).imapStart <
      (formatLayout d inodeCount.toNat blockCount.toNat).inodeStart := by
    have := bitmapBlocks_pos hpos hfit.2.1
    simp only [formatLayout]
    omega
  have hinode : (formatLayout d inodeCount.toNat blockCount.toNat).inodeStart <
      (formatLayout d inodeCount.toNat blockCount.toNat).dataStart := by
    have := hl.fit.inode 0 hl.root
    rw [hns, hds] at this
    omega
  obtain ⟨hdev, -, -, -⟩ := formatWrites_blocks hord h
  obtain ⟨hmapBlocks, himapBlock, himapRest, hrootBlock⟩ := formatWrites_content hord himap hinode h
  have hicount : (formatLayout d inodeCount.toNat blockCount.toNat).inodeCount =
    formatInodeCount inodeCount.toNat := rfl
  have hbcount : (formatLayout d inodeCount.toNat blockCount.toNat).blockCount ≤ d.blockCount :=
    formatBlockCount_le d _
  generalize formatLayout d inodeCount.toNat blockCount.toNat = l at *
  rw [hicount] at hic
  have honly : ∀ i, (volumeOf l.super (writeAll d (formatWrites l)).2).imap i = true ↔ i = 0 := by
    intro i
    simp only [volumeOf, Bool.and_eq_true, decide_eq_true_eq]
    by_cases hi : i < l.super.inodeCount.toNat
    · have hregion := hl.fit.imap i hi
      rw [hl.imapNo i hi, his, hns] at hregion
      rw [hl.imapNo i hi, his]
      rcases Nat.lt_or_ge i bitsPerBlock with hsmall | hlarge
      · rw [Nat.div_eq_of_lt hsmall, Nat.add_zero, himapBlock, Nat.mod_eq_of_lt hsmall, testBit_setBit]
        simp [hi, testBit]
      · have hpos : 0 < i / bitsPerBlock := Nat.div_pos hlarge (by decide)
        have hne : i ≠ 0 := by
          rintro rfl
          simp at hpos
        rw [himapRest _ hpos hregion.2]
        simp [hne, testBit]
    · have hne : i ≠ 0 := by
        rintro rfl
        exact hi hl.root
      simp [hi, hne]
  refine ⟨⟨hl, ?_, ?_, ?_⟩, and_assoc.mp ⟨fresh_safe honly ?_ (fun b => ?_), honly⟩⟩
  · rw [hdev]
    simpa using hsize
  · rw [hdev]
    exact d.apply_reliable hr
  · rw [hdev, hbc]
    simpa using hbcount
  · simp only [volumeOf, if_pos hl.root]
    rw [hl.inodeNo 0 hl.root, hns, Nat.zero_div, Nat.add_zero, hrootBlock, show inodeOffset 0 = 0 from rfl,
      readInode_bytes]
  · -- blocks of the data region are behind the reserved ones
    simp only [volumeOf, Bool.and_eq_false_iff, decide_eq_false_iff_not]
    by_cases hb : l.super.dataStart.toNat ≤ b ∧ b < l.super.blockCount.toNat
    · right
      have hreg := hl.fit.bmap b hb.1 hb.2
      rw [hl.bmapNo b hb.2, hbs, his] at hreg
      rw [hl.bmapNo b hb.2, hbs, hmapBlocks _ (by omega), reservedBitmap]
      rw [testBit_reserved, decide_eq_false_iff_not]
      have hbehind : ∀ q a n s : Nat, s ≤ q + a → ¬ a < min (q + n) s - q := fun q a n s hs => by omega
      exact hbehind _ _ _ _ (by rw [Nat.mul_comm, Nat.div_add_mod, ← hds]; exact hb.1)
    · exact .inl hb

/-- A mount that opens no journal leaves a freshly formatted volume as it is. -/
theorem mount_fresh {heap : Heap} (hmac : Hmac) (fuel : Nat) (secret : List Byte) (dev : Nat)
    {slots : List JournalSlot} (h : (capyfsFormat d inodeCount.toNat blockCount.toNat).1 = 0)
    (hj : ¬ OpensJournal heap d (formatLayout d inodeCount.toNat blockCount.toNat).dataStart slots) :
    (mountCapyfs heap hmac fuel secret dev (capyfsFormat d inodeCount.toNat blockCount.toNat).2
      slots).dev = (capyfsFormat d inodeCount.toNat blockCount.toNat).2 := by
  obtain ⟨-, hicn, -, -, hns, hds, -⟩ := super_fields d inodeCount blockCount
  obtain ⟨hbs, -⟩ := format_room h
  have hipos := formatInodeCount_pos inodeCount.toNat
  have hord := formatLayout_ordered d inodeCount.toNat blockCount.toNat
  have hrun := format_run h
  rw [hrun] at h ⊢
  rw [show (formatLayout d inodeCount.toNat blockCount.toNat).inodeCount =
    formatInodeCount inodeCount.toNat from rfl] at hicn
  generalize formatLayout d inodeCount.toNat blockCount.toNat = l at *
  obtain ⟨hdev, h0, -, -⟩ := formatWrites_blocks hord h
  generalize (writeAll d (formatWrites l)).2 = d' at *
  have hic : l.super.inodeCount ≠ 0#32 := by
    intro he
    rw [he] at hicn
    simp at hicn
    omega
  have hbs' : d'.blockSize = capyfsBlockSize := by
    rw [hdev]
    simpa using hbs
  have hno : ¬ OpensJournal heap d' l.dataStart slots := by
    rw [hdev]
    simpa [OpensJournal] using hj
  obtain ⟨hstay, hhook⟩ := mount_dev heap hmac fuel secret dev slots hbs' h0 hic hns hds
  by_cases hr : MountReaches heap d' l
  · rw [hhook hr, hook_silent _ _ hno]
    rfl
  · exact hstay hr

theorem mount_serves (hmac : Hmac) (fuel : Nat) (secret : List Byte) (dev : Nat)
    {slots : List JournalSlot} (hint : Nat) (hr : d.Reliable) (h : (capyfsFormat d inodeCount.toNat blockCount.toNat).1 = 0)
    (hfit : CountsFit (formatInodeCount inodeCount.toNat) (formatBlockCount d blockCount.toNat))
    (hj : ¬ OpensJournal ampleHeap d (formatLayout d inodeCount.toNat blockCount.toNat).dataStart slots) :
    Serves (formatLayout d inodeCount.toNat blockCount.toNat).super
      (mountSession ampleHeap (formatLayout d inodeCount.toNat blockCount.toNat).super hmac fuel secret
        dev slots hint (capyfsFormat d inodeCount.toNat blockCount.toNat).2) := by
  obtain ⟨hc, hs, ht, -⟩ := format_fresh hr h hfit
  have hdev := mount_fresh hmac fuel secret dev h hj
  refine ⟨?_, ?_, ?_, ?_⟩
  all_goals simp only [mountSession, hdev]
  · exact hc
  · exact hs
  · exact ht
  · intro g hg
    have hroot := ((readInode_does hc.layout.root).seq (createVfsInode_does
      ampleHeap_inode 0 _)) ⟨_, hint⟩ hc rfl
    rw [hroot.2.1] at hg
    cases List.mem_singleton.mp hg
    exact ⟨hs.root.1, rfl⟩

end

/-- Calls on a freshly formatted volume of 128 inodes keep bitmaps, records and
directories in agreement, if every block got its bit and the mount left the
metadata alone. -/
theorem run_consistent (hmac : Hmac) (fuel : Nat) (secret : List Byte) (dev : Nat)
    (slots : List JournalSlot) (hint : Nat) (d : BlockDevice) (blockCount : BitVec 32)
    (hr : d.Reliable) (h : (capyfsFormat d 128 blockCount.toNat).1 = 0)
    (hcount : formatBlockCount d blockCount.toNat ≤ 2 ^ 32 - bitsPerBlock)
    (hjournal : (formatLayout d 128 blockCount.toNat).dataStart < capyfsJournalBlocks + 2 ∨
      ∀ s ∈ slots, s.active = true) (calls : List FsCall) :
    AllocationConsistent
      (runCalls ampleHeap (formatLayout d 128 blockCount.toNat).super
        (mountSession ampleHeap (formatLayout d 128 blockCount.toNat).super hmac fuel secret dev slots
          hint (capyfsFormat d 128 blockCount.toNat).2) calls).fs.dev
      (formatLayout d 128 blockCount.toNat).super := by
  have hno : ¬ OpensJournal ampleHeap d (formatLayout d 128 blockCount.toNat).dataStart slots := by
    rintro ⟨hroom, ⟨s, hs, hfree⟩, -⟩
    rcases hjournal with hj | hj
    · omega
    · rw [hj s hs] at hfree
      cases hfree
  have hfit : CountsFit (formatInodeCount 128) (formatBlockCount d blockCount.toNat) :=
    ⟨by decide, by decide, hcount⟩
  have hs := @mount_serves d 128#32 blockCount hmac fuel secret dev slots hint hr h hfit hno
  have hdirect : DirectDirs (formatLayout d 128 blockCount.toNat).super := by
    have hic := (super_fields d 128#32 blockCount).2.1
    unfold DirectDirs
    rw [show (formatLayout d 128 blockCount.toNat).super.inodeCount.toNat = 128 from hic]
    decide
  exact (runCalls_serves hdirect hs calls).consistent

def shortRun : List FsCall :=
  [.create 0 [102#8] vfsModeFile none, .write 1 0 zeros 5000, .create 0 [100#8] vfsModeDir none,
    .renameInode 0 [102#8] 2 [103#8], .remove 2 [103#8] false]

theorem shortRun_consistent :
    (capyfsFormat (plainDevice 64) 128 0).1 = 0 ∧
      AllocationConsistent
        (runCalls ampleHeap (formatLayout (plainDevice 64) 128 0).super
          (mountSession ampleHeap (formatLayout (plainDevice 64) 128 0).super (fun _ _ => zeros) 32 [] 1
            [freeSlot] 0 (capyfsFormat (plainDevice 64) 128 0).2) shortRun).fs.dev
        (formatLayout (plainDevice 64) 128 0).super := by
  have h : (capyfsFormat (plainDevice 64) 128 (0 : BitVec 32).toNat).1 = 0 := by decide +kernel
  have hrun := run_consistent (fun _ _ => zeros) 32 [] 1 [freeSlot] 0 (plainDevice 64) 0
    (fun _ => ⟨rfl, rfl⟩) h (by decide) (.inl (by decide)) shortRun
  rw [show (0 : BitVec 32).toNat = 0 from rfl] at h hrun
  exact ⟨h, hrun⟩

/-- On a volume of 917505 blocks the data region starts at block 34, so the mount
puts a journal over blocks 2 to 33: most of the block bitmap, the inode bitmap and
the table. Before the first call, data blocks are marked that nothing points to. -/
theorem largeVolume_inconsistent :
    (capyfsFormat (plainDevice 917505) 128 0).1 = 0 ∧
      ¬ AllocationConsistent
        (runCalls ampleHeap (formatLayout (plainDevice 917505) 128 0).super
          (mountSession ampleHeap (formatLayout (plainDevice 917505) 128 0).super (fun _ _ => zeros) 32
            [] 1 [freeSlot] 0 (capyfsFormat (plainDevice 917505) 128 0).2) []).fs.dev
        (formatLayout (plainDevice 917505) 128 0).super := by
  refine ⟨by decide, fun hcon => ?_⟩
  simp only [runCalls, foldl_nil] at hcon
  have hdead : ∀ i : Fin 128, imapBit
      (mountSession ampleHeap (formatLayout (plainDevice 917505) 128 0).super (fun _ _ => zeros) 32
        [] 1 [freeSlot] 0 (capyfsFormat (plainDevice 917505) 128 0).2).fs.dev
      (formatLayout (plainDevice 917505) 128 0).super i.val = false := by decide +kernel
  obtain ⟨k, ⟨hk, hlive, -⟩, -⟩ := (hcon.blocks 32770 (by decide) (by decide)).mp (by decide +kernel)
  have hoff := hdead ⟨k.1, hk⟩
  simp only [hlive] at hoff
  cases hoff

end CapyOS.Proofs
