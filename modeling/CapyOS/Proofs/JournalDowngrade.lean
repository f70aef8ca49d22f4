import CapyOS.Fs.JournalIntegration
import CapyOS.Proofs.JournalAuth

namespace CapyOS.Proofs
open Lib List
variable {secret superBytes : List Byte} {old : Journal} {p : Nat}

/-- The journal in front of `dataStart`, opened with a key. -/
def volumeJournal (d : BlockDevice) (dataStart : Nat) (key : List Byte) : Journal :=
  let sb := readSuperblock (d.blocks (dataStart - capyfsJournalBlocks))
  { startBlock := dataStart - capyfsJournalBlocks, blockCount := capyfsJournalBlocks, sb := sb,
    currentSequence := sb.sequence, dirty := false, hmacKey := key }

/-- Every block outside the journal region that the writes reach takes data of an
entry whose tag was verified under the key. -/
def Covered (hmac : Hmac) (key : List Byte) (d : BlockDevice) (dataStart : Nat)
    (ws : List Write) : Prop :=
  ∀ w ∈ ws, d.canWrite w.1 = true →
    ¬ (dataStart - capyfsJournalBlocks ≤ w.1 ∧ w.1 < dataStart) →
    ∃ es, AuthWalk hmac (volumeJournal d dataStart key) d
      (volumeJournal d dataStart key).sb.tail.toNat es ∧ w ∈ es.flatMap JournalEntry.writes

def PendingLegacy (sb : JournalSuperblock) : Prop :=
  sb.magic = journalMagic ∧ sb.version = journalVersion ∧ sb.head ≠ sb.tail

/-- The hook finds a region, a slot and the memory to open a journal. -/
def OpensJournal (heap : Heap) (d : BlockDevice) (dataStart : Nat) (slots : List JournalSlot) :
    Prop :=
  capyfsJournalBlocks + 2 ≤ dataStart ∧ (∃ s ∈ slots, s.active = false) ∧
    heap d.blockSize = true

/-- The same device with other contents in its journal region. -/
def withRegion (d : BlockDevice) (dataStart : Nat) (c : Nat → Bytes) : BlockDevice :=
  { d with blocks := fun b =>
      if dataStart - capyfsJournalBlocks ≤ b ∧ b < dataStart then c b else d.blocks b }

section
variable {heap : Heap} {hmac : Hmac} {d : BlockDevice} {secret superBytes : List Byte}
  {dataStart : Nat} {slots : List JournalSlot}

theorem slotAlloc_isSome (dev : Nat) (slots : List JournalSlot) :
    (journalSlotAlloc dev slots).isSome ↔ ∃ s ∈ slots, s.active = false := by
  induction slots with
  | nil => simp [journalSlotAlloc]
  | cons s rest ih =>
    unfold journalSlotAlloc
    by_cases ha : s.active = true
    · rw [if_pos ha]
      cases hr : journalSlotAlloc dev rest with
      | none => simpa [hr, ha] using ih
      | some r => simpa [hr, ha] using ih
    · rw [if_neg ha]
      simp [ha]

theorem deriveKey_length (hmac : Hmac) (hs : capyfsJournalRootSecretInstalled secret = true) (hb : superBytes ≠ []) :
    (deriveVolumeHmacKey hmac secret superBytes).length = 32 := by
  have hs : ¬ secret.length = 0 := by
    simp only [capyfsJournalRootSecretInstalled, decide_eq_true_eq] at hs
    omega
  have hb : ¬ superBytes.length = 0 := by simpa using hb
  unfold deriveVolumeHmacKey
  rw [if_neg hs, if_neg hb, length_listBytes]
  rfl

/-- A journal that opens is the volume's, still without its key. -/
theorem init_volumeJournal
    (h : (journalInit heap d old (dataStart - capyfsJournalBlocks) capyfsJournalBlocks).1 = 0) (hds : dataStart < 2 ^ 32) :
    (journalInit heap d old (dataStart - capyfsJournalBlocks) capyfsJournalBlocks).2 = volumeJournal d dataStart [] ∧
    heap d.blockSize = true ∧ (volumeJournal d dataStart []).sb.magic = journalMagic ∧
    ((volumeJournal d dataStart []).sb.version = journalVersion ∨
      (volumeJournal d dataStart []).sb.version = journalVersionAuth) := by
  have hno : u32 (dataStart - capyfsJournalBlocks + 0) = dataStart - capyfsJournalBlocks :=
    u32_of_lt (by omega)
  unfold journalInit at h ⊢
  simp only at h ⊢
  by_cases hheap : heap d.blockSize = true
  · simp only [hheap, Bool.not_true, Bool.false_eq_true, if_false, journalReadBlock, journalBlockNo, hno] at h ⊢
    cases hr : blockDeviceRead d (dataStart - capyfsJournalBlocks) with
    | none => simp [hr] at h
    | some b =>
      obtain ⟨_, rfl⟩ := blockDeviceRead_some hr
      simp only [hr] at h ⊢
      split at h
      · simp at h
      · rename_i hm
        split at h
        · simp at h
        · rename_i hv
          rw [if_neg hm, if_neg hv]
          refine ⟨rfl, trivial, not_not.mp hm, ?_⟩
          by_cases h1 : (volumeJournal d dataStart []).sb.version = journalVersion
          · exact .inl h1
          · refine .inr ?_
            by_contra h2
            exact hv ⟨h1, h2⟩
  · simp [hheap] at h

theorem format_region {key : List Byte} {start count : Nat} (hlt : start + count < 2 ^ 32) :
    ∀ w ∈ (if 0 < key.length then journalFormatAuthenticated heap d old start count key
      else journalFormat heap d old start count).writes, start ≤ w.1 ∧ w.1 < start + count := by
  have hv : ∀ v, ∀ w ∈ (journalFormatWithVersion heap d old start count v).writes, start ≤ w.1 ∧ w.1 < start + count := by
    intro v w hw
    unfold journalFormatWithVersion at hw
    by_cases hc : count < 4
    · rw [if_pos hc] at hw
      simp at hw
    · rw [if_neg hc] at hw
      by_cases hh : heap d.blockSize = true
      · simp only [hh, Bool.not_true, Bool.false_eq_true, if_false, mem_append, mem_map,
          mem_range, mem_singleton, journalBlockNo] at hw
        rcases hw with ⟨k, hk, rfl⟩ | rfl
        · simp only
          rw [u32_of_lt (by omega)]
          omega
        · simp only
          rw [u32_of_lt (by omega)]
          omega
      · simp [hh] at hw
  intro w hw
  split at hw
  · unfold journalFormatAuthenticated at hw
    split at hw
    · simp at hw
    · simp only at hw
      split at hw <;> exact hv _ w hw
  · unfold journalFormat at hw
    simp only at hw
    split at hw <;> exact hv _ w hw

theorem hook_writes (heap : Heap) (hmac : Hmac) (fuel : Nat) (secret : List Byte) (dev : Nat)
    (d : BlockDevice) (superBytes : List Byte) (slots : List JournalSlot)
    (hds : dataStart < 2 ^ 32) :
    let ws := (capyfsJournalMountHook heap hmac fuel secret dev d dataStart superBytes
      slots).writes
    let key := deriveVolumeHmacKey hmac secret superBytes
    ws = [] ∨
    (capyfsJournalBlocks + 2 ≤ dataStart ∧ ∃ old, ws = (if 0 < key.length then
        journalFormatAuthenticated heap d old (dataStart - capyfsJournalBlocks)
          capyfsJournalBlocks key
      else journalFormat heap d old (dataStart - capyfsJournalBlocks)
        capyfsJournalBlocks).writes) ∨
    (OpensJournal heap d dataStart slots ∧
      (volumeJournal d dataStart []).sb.magic = journalMagic ∧
      ((volumeJournal d dataStart []).sb.version = journalVersion ∨
        (volumeJournal d dataStart []).sb.version = journalVersionAuth) ∧
      journalNeedsReplay (volumeJournal d dataStart []) = true ∧
      ws = (journalReplay heap hmac fuel d
        (installVolumeKey (volumeJournal d dataStart []) key)).writes) := by
  intro ws key
  simp only [ws, capyfsJournalMountHook]
  by_cases hsmall : dataStart < capyfsJournalBlocks + 2
  · exact .inl (by rw [if_pos hsmall])
  · rw [if_neg hsmall]
    cases ha : journalSlotAlloc dev slots with
    | none => exact .inl rfl
    | some r =>
      obtain ⟨old, i, slots'⟩ := r
      simp only
      by_cases hi : (journalInit heap d old (dataStart - capyfsJournalBlocks)
          capyfsJournalBlocks).1 = 0
      · obtain ⟨hj, hheap, hm, hv⟩ := init_volumeJournal hi hds
        rw [if_neg (not_not_intro hi), hj]
        have hneeds : journalNeedsReplay (installVolumeKey (volumeJournal d dataStart []) key) =
            journalNeedsReplay (volumeJournal d dataStart []) := by
          unfold installVolumeKey journalSetHmacKey
          split
          · split
            · rfl
            · split <;> rfl
          · rfl
        by_cases hn : journalNeedsReplay (volumeJournal d dataStart []) = true
        · rw [if_pos (hneeds.trans hn)]
          exact .inr (.inr ⟨⟨by omega, (slotAlloc_isSome dev slots).mp (by rw [ha]; rfl), hheap⟩,
            hm, hv, hn, rfl⟩)
        · rw [if_neg (fun h => hn (hneeds.symm.trans h))]
          exact .inl rfl
      · rw [if_pos hi]
        refine .inr (.inl ⟨by omega, (journalInit heap d old (dataStart - capyfsJournalBlocks)
          capyfsJournalBlocks).2, ?_⟩)
        split <;> split <;> rfl

theorem hook_silent (fuel dev : Nat) (h : ¬ OpensJournal heap d dataStart slots) :
    (capyfsJournalMountHook heap hmac fuel secret dev d dataStart superBytes slots).writes = [] := by
  unfold capyfsJournalMountHook
  by_cases hsmall : dataStart < capyfsJournalBlocks + 2
  · rw [if_pos hsmall]
  · rw [if_neg hsmall]
    cases ha : journalSlotAlloc dev slots with
    | none => rfl
    | some r =>
      obtain ⟨old, i, slots'⟩ := r
      have hfree := (slotAlloc_isSome dev slots).mp (by rw [ha]; rfl)
      have hheap : heap d.blockSize = false := by
        by_contra hh
        exact h ⟨by omega, hfree, by simpa using hh⟩
      simp only [journalInit, hheap, Bool.not_false, if_true]
      rw [if_pos (by decide)]
      have hv : ∀ (j : Journal) v, (journalFormatWithVersion heap d j
          (dataStart - capyfsJournalBlocks) capyfsJournalBlocks v).writes = [] := by
        intro j v
        unfold journalFormatWithVersion
        rw [if_neg (by decide)]
        simp only [hheap, Bool.not_false, if_true]
      have hauth : ∀ (j : Journal) key, (journalFormatAuthenticated heap d j
          (dataStart - capyfsJournalBlocks) capyfsJournalBlocks key).writes = [] := by
        intro j key
        unfold journalFormatAuthenticated
        split
        · rfl
        · simp only
          split <;> exact hv _ _
      have hlegacy : ∀ j : Journal, (journalFormat heap d j
          (dataStart - capyfsJournalBlocks) capyfsJournalBlocks).writes = [] := by
        intro j
        unfold journalFormat
        simp only
        split <;> exact hv _ _
      split
      · split <;> exact hauth _ _
      · split <;> exact hlegacy _

theorem hook_covered (fuel dev : Nat) (hds : dataStart < 2 ^ 32)
    (hs : capyfsJournalRootSecretInstalled secret = true) (hb : superBytes ≠ []) (hm : TagMemory heap d.blockSize)
    (hl : ¬ PendingLegacy (readSuperblock (d.blocks (dataStart - capyfsJournalBlocks)))) :
    Covered hmac (deriveVolumeHmacKey hmac secret superBytes) d dataStart
      (capyfsJournalMountHook heap hmac fuel secret dev d dataStart superBytes slots).writes := by
  have hlen := deriveKey_length hmac hs hb
  generalize hk : deriveVolumeHmacKey hmac secret superBytes = key at hlen
  have hws := hook_writes heap hmac fuel secret dev d superBytes slots hds
  rw [hk] at hws
  rcases hws with hws | ⟨hlow, old, hws⟩ | ⟨hopen, hmagic, hv, hn, hws⟩
  · rw [hws]
    intro w hw
    simp at hw
  · rw [hws]
    intro w hw _ hout
    have hreg := format_region (by simp only [capyfsJournalBlocks] at hlow ⊢; omega) w hw
    exact absurd ⟨hreg.1, by simp only [capyfsJournalBlocks] at hlow hreg; omega⟩ hout
  · have hneeds : (readSuperblock (d.blocks (dataStart - capyfsJournalBlocks))).head ≠
        (readSuperblock (d.blocks (dataStart - capyfsJournalBlocks))).tail := by
      simpa [journalNeedsReplay, volumeJournal] using hn
    have hauth : (volumeJournal d dataStart []).sb.version = journalVersionAuth :=
      hv.resolve_left (fun h1 => hl ⟨hmagic, h1, hneeds⟩)
    have hinst : installVolumeKey (volumeJournal d dataStart []) key =
        volumeJournal d dataStart key := by
      unfold installVolumeKey journalSetHmacKey
      rw [hauth, if_pos (by simp [journalVersionAuth]), if_neg (by omega), if_neg (by omega), if_neg (by rw [hlen]; decide)]
      rfl
    have hia : journalIsAuthenticated (volumeJournal d dataStart key) = true := by
      have hauth' : (volumeJournal d dataStart key).sb.version = journalVersionAuth := hauth
      have hkey : 0 < (volumeJournal d dataStart key).hmacKey.length := by
        rw [show (volumeJournal d dataStart key).hmacKey = key from rfl]
        omega
      simp [journalIsAuthenticated, hauth', hkey]
    rw [hinst] at hws
    obtain ⟨es, last, hwalk, he, hlast⟩ := replay_verified hmac hia hm fuel
    rw [hws, he]
    intro w hw _ hout
    rcases mem_append.mp hw with hw | hw
    · exact ⟨es, hwalk, hw⟩
    · exfalso
      have hno : journalBlockNo (volumeJournal d dataStart key) 0 =
          dataStart - capyfsJournalBlocks := by
        simp only [journalBlockNo, volumeJournal, Nat.add_zero]
        exact u32_of_lt (by omega)
      have hw := hlast w hw
      rw [hno] at hw
      simp only [OpensJournal, capyfsJournalBlocks] at hopen hw hout
      omega

end

def strayLegacySb : JournalSuperblock :=
  { magic := journalMagic, version := journalVersion, blockSize := 0, blockCount := 31#32,
    head := 2#32, tail := 0#32, sequence := 0, checksum := 0, reserved := fun _ => 0 }

/-- One block for device block 0. -/
def strayTransaction : Transaction :=
  { sequence := 0, refs := [⟨0, 0, 0⟩], data := fun _ => zeros, hasBuffer := true, dataUsed := 0,
    committed := false }

/-- Region contents with a pending legacy record that clears block 0. -/
def strayBlocks (d : BlockDevice) (start : Nat) : Nat → Bytes :=
  fun b => if b = start then strayLegacySb.bytes
    else if b = start + 1 then metaBlock d strayTransaction else zeros

structure StrayDevice (heap : Heap) (d : BlockDevice) (dataStart : Nat)
    (slots : List JournalSlot) : Prop where
  reliable : d.Reliable
  fits : dataStart ≤ d.blockCount
  opens : OpensJournal heap d dataStart slots
  blocks : ∀ b, dataStart - capyfsJournalBlocks ≤ b → b < dataStart →
    d.blocks b = strayBlocks d (dataStart - capyfsJournalBlocks) b

section
variable {heap : Heap} {hmac : Hmac} {d : BlockDevice} {dataStart : Nat}
  {slots : List JournalSlot}

theorem StrayDevice.sb (h : StrayDevice heap d dataStart slots) (key : List Byte) :
    (volumeJournal d dataStart key).sb = strayLegacySb := by
  have hlow := h.opens.1
  simp only [capyfsJournalBlocks] at hlow
  simp only [volumeJournal]
  rw [h.blocks _ (Nat.le_refl _) (by simp only [capyfsJournalBlocks]; omega), strayBlocks, if_pos rfl, readSuperblock_bytes]

theorem StrayDevice.read (h : StrayDevice heap d dataStart slots) (key : List Byte) (hp : p < 31) :
    journalReadBlock d (volumeJournal d dataStart key) (slotBlock p) = some (strayBlocks d (dataStart - capyfsJournalBlocks)
        (dataStart - capyfsJournalBlocks + (1 + p))) := by
  have hlow := h.opens.1
  have hfits := h.fits
  have hlt := d.blockCount_lt
  simp only [capyfsJournalBlocks] at hlow
  have hno : journalBlockNo (volumeJournal d dataStart key) (slotBlock p) =
      dataStart - capyfsJournalBlocks + (1 + p) := by
    simp only [journalBlockNo, volumeJournal, slotBlock, capyfsJournalBlocks]
    rw [u32_of_lt (show 1 + p < 2 ^ 32 by omega), u32_of_lt (by omega)]
  simp only [capyfsJournalBlocks] at hno
  rw [journalReadBlock, hno, blockDeviceRead_of_canRead (h.reliable.canRead (by omega)),
    h.blocks _ (by simp only [capyfsJournalBlocks]; omega) (by omega)]
  rfl

theorem StrayDevice.read_header (h : StrayDevice heap d dataStart slots) (key : List Byte) :
    journalReadBlock d (volumeJournal d dataStart key) (slotBlock 0) = some (metaBlock d strayTransaction) := by
  rw [h.read key (by decide)]
  simp [strayBlocks]

theorem StrayDevice.read_zeros (h : StrayDevice heap d dataStart slots) (key : List Byte) (h1 : 1 ≤ p) (hp : p < 31) :
    journalReadBlock d (volumeJournal d dataStart key) (slotBlock p) = some zeros := by
  rw [h.read key hp, strayBlocks, if_neg (by omega), if_neg (by omega)]

theorem init_opens_volume (hds : dataStart < 2 ^ 32) (hheap : heap d.blockSize = true)
    (hread : d.canRead (dataStart - capyfsJournalBlocks) = true) (hm : (volumeJournal d dataStart []).sb.magic = journalMagic)
    (hv : (volumeJournal d dataStart []).sb.version = journalVersion) :
    journalInit heap d old (dataStart - capyfsJournalBlocks) capyfsJournalBlocks = (0, volumeJournal d dataStart []) := by
  have hno : u32 (dataStart - capyfsJournalBlocks + 0) = dataStart - capyfsJournalBlocks :=
    u32_of_lt (by omega)
  have hm : (readSuperblock (d.blocks (dataStart - capyfsJournalBlocks))).magic = journalMagic := hm
  have hv : (readSuperblock (d.blocks (dataStart - capyfsJournalBlocks))).version =
    journalVersion := hv
  simp only [journalInit, hheap, Bool.not_true, Bool.false_eq_true, if_false, journalReadBlock,
    journalBlockNo, hno, blockDeviceRead_of_canRead hread, hm, hv, ne_eq, not_true_eq_false, false_and]
  rfl

theorem hook_replays_legacy (fuel dev : Nat)
    (hds : dataStart < 2 ^ 32) (hopen : OpensJournal heap d dataStart slots)
    (hread : d.canRead (dataStart - capyfsJournalBlocks) = true) (hl : PendingLegacy (volumeJournal d dataStart []).sb) :
    (capyfsJournalMountHook heap hmac fuel secret dev d dataStart superBytes slots).writes =
      (journalReplay heap hmac fuel d (volumeJournal d dataStart [])).writes := by
  obtain ⟨hlow, hfree, hheap⟩ := hopen
  obtain ⟨hm, hv, hne⟩ := hl
  obtain ⟨r, hr⟩ := Option.isSome_iff_exists.mp ((slotAlloc_isSome dev slots).mpr hfree)
  obtain ⟨old, i, slots'⟩ := r
  have hinst : ∀ key, installVolumeKey (volumeJournal d dataStart []) key =
      volumeJournal d dataStart [] := by
    intro key
    unfold installVolumeKey
    rw [if_neg (by rw [hv]; simp [journalIsAuthenticated, hv, journalVersion, journalVersionAuth])]
  have hneeds : journalNeedsReplay (volumeJournal d dataStart []) = true := by
    simp [journalNeedsReplay, hne]
  unfold capyfsJournalMountHook
  rw [if_neg (by omega), hr]
  simp only [init_opens_volume hds hheap hread hm hv, ne_eq, not_true_eq_false, if_false, hinst, hneeds, if_true]

/-- The first pass of the hook's replay applies the stray record. -/
theorem StrayDevice.iteration (h : StrayDevice heap d dataStart slots) :
    replayIteration heap hmac d (volumeJournal d dataStart []) 0 = .legacy [(0, zeros)] 2 := by
  obtain ⟨hm, hty, _, hcount⟩ := metaBlock_header (d := d) (t := strayTransaction)
  have hrefs := readRefs_metaBlock (d := d) (t := strayTransaction)
  have hheap := h.opens.2.2
  have hauth : journalIsAuthenticated (volumeJournal d dataStart []) = false := by
    simp [journalIsAuthenticated, volumeJournal]
  have hzero : ¬ strayLegacySb.blockCount = 0#32 := by decide
  have hcomm : ¬ JournalEntryType.writeMeta.code = JournalEntryType.commit.code := by decide
  have hone : ¬ BitVec.ofNat 32 strayTransaction.refs.length = 0#32 := by decide
  have hmin : min (BitVec.ofNat 32 strayTransaction.refs.length).toNat journalEntryMaxBlocks =
    strayTransaction.refs.length := by decide
  have hnext : ringNext strayLegacySb 0 = 1 := by decide
  have hnext' : ringNext strayLegacySb 1 = 2 := by decide
  have hdata : ¬ 1 = strayLegacySb.head.toNat := by decide
  have hleg : legacyApply heap d (volumeJournal d dataStart []) strayTransaction.refs 1 =
      ([(0, zeros)], 2) := by
    simp only [strayTransaction, legacyApply, h.sb, if_neg hdata, hheap, Bool.not_true,
      Bool.false_eq_true, if_false, h.read_zeros [] (Nat.le_refl 1) (by decide : 1 < 31), append_nil, hnext']
    rfl
  simp only [replayIteration, h.sb, h.read_header, hm, hty, hcount, hauth, if_neg hzero,
    if_neg hcomm, hone, ne_eq, not_true_eq_false, not_false_eq_true, true_and, if_false, hnext,
    hmin, hrefs, hleg, Bool.not_false, if_true]

/-- The hook's replay of the stray record clears block 0. -/
theorem StrayDevice.replay (h : StrayDevice heap d dataStart slots) (fuel : Nat) :
    (0, zeros) ∈ (journalReplay heap hmac (fuel + 1) d (volumeJournal d dataStart [])).writes := by
  have hheap := h.opens.2.2
  have hneeds : journalNeedsReplay (volumeJournal d dataStart []) = true := by
    rw [journalNeedsReplay, h.sb]
    decide
  have hauth : journalIsAuthenticated (volumeJournal d dataStart []) = false := by
    simp [journalIsAuthenticated, volumeJournal]
  have hver : ¬ ((volumeJournal d dataStart []).sb.version = journalVersionAuth ∧
      (volumeJournal d dataStart []).hmacKey.length = 0) := by
    rw [h.sb]
    exact fun hv => absurd hv.1 (by decide)
  have htail : (volumeJournal d dataStart []).sb.tail.toNat = 0 := by
    rw [h.sb]
    rfl
  have hpos : ¬ 0 = (volumeJournal d dataStart []).sb.head.toNat := by
    rw [h.sb]
    decide
  unfold journalReplay
  rw [if_neg (by simp [hneeds]), if_neg hver, if_neg (by simp [hheap]), if_neg (by simp [hauth]), htail]
  simp only [replayLoop, if_neg hpos, h.iteration]
  split <;> simp

theorem StrayDevice.uncovered (h : StrayDevice heap d dataStart slots) (key : List Byte) {es : List JournalEntry}
    (hw : AuthWalk hmac (volumeJournal d dataStart key) d (volumeJournal d dataStart key).sb.tail.toNat es) : es = [] := by
  obtain ⟨hm, hty, _, hcount⟩ := metaBlock_header (d := d) (t := strayTransaction)
  have hentry : IsEntryHeader (metaBlock d strayTransaction) :=
    ⟨hm, hty, by rw [hcount]; decide⟩
  have htail : (volumeJournal d dataStart key).sb.tail.toNat = 0 := by
    rw [h.sb]
    rfl
  rw [htail] at hw
  cases hw with
  | stop => rfl
  | skip read foreign rest =>
    rw [h.read_header] at read
    exact absurd ((Option.some.inj read) ▸ hentry) foreign
  | apply entry verified rest =>
    exfalso
    obtain ⟨b, hb, _, _, hrefs⟩ := entry.header
    rw [h.read_header] at hb
    have hb := Option.some.inj hb
    subst hb
    have hlen : ∀ r : List JournalBlockRef, r = readRefs (metaBlock d strayTransaction)
        (min (readHeader (metaBlock d strayTransaction)).blockCount.toNat
          journalEntryMaxBlocks) → r.length = 1 := by
      intro r hr
      rw [hr, hcount]
      rfl
    obtain ⟨c, hc, hmagic, _⟩ := entry.commit
    have hadv : advance strayLegacySb 0 (1 + 1) = 2 := by decide
    rw [hlen _ hrefs, h.sb, hadv, h.read_zeros key (by decide) (by decide)] at hc
    have hc := Option.some.inj hc
    subst hc
    have hz : (readHeader zeros).magic = 0#32 := by simp [readHeader, field32, load_zeros]
    rw [hz] at hmagic
    exact absurd hmagic (by decide)

/-- Where the hook opens a journal, a stray legacy record gets past the key. -/
theorem StrayDevice.not_covered (h : StrayDevice heap d dataStart slots)
    (fuel dev : Nat) (key : List Byte) :
    ¬ Covered hmac key d dataStart (capyfsJournalMountHook heap hmac (fuel + 1) secret dev d
      dataStart superBytes slots).writes := by
  intro hc
  have hlow := h.opens.1
  have hfits := h.fits
  have hlt := d.blockCount_lt
  simp only [capyfsJournalBlocks] at hlow
  have hpending : PendingLegacy (volumeJournal d dataStart []).sb := by
    rw [h.sb]
    exact ⟨rfl, rfl, by decide⟩
  rw [hook_replays_legacy (fuel + 1) dev (by omega) h.opens
    (h.reliable.canRead (by simp only [capyfsJournalBlocks]; omega)) hpending] at hc
  obtain ⟨es, hwalk, hmem⟩ := hc (0, zeros) (h.replay fuel)
    (h.reliable.canWrite (by omega)) (by simp only [capyfsJournalBlocks]; omega)
  rw [h.uncovered _ hwalk] at hmem
  simp at hmem

end

/-- The key of a volume does not protect it from a downgrade: contents without a
pending legacy journal are safe, but some contents of the region are not unless
the hook has no journal to open. -/
theorem hook_downgrade (heap : Heap) (hmac : Hmac) (secret superBytes : List Byte) (dev : Nat)
    (dataStart : BitVec 32) (slots : List JournalSlot) (d : BlockDevice)
    (hs : capyfsJournalRootSecretInstalled secret = true) (hb : superBytes ≠ []) :
    (∀ fuel, TagMemory heap d.blockSize →
      ¬ PendingLegacy (readSuperblock (d.blocks (dataStart.toNat - capyfsJournalBlocks))) →
      Covered hmac (deriveVolumeHmacKey hmac secret superBytes) d dataStart.toNat
        (capyfsJournalMountHook heap hmac fuel secret dev d dataStart.toNat superBytes
          slots).writes) ∧
    (d.Reliable → dataStart.toNat ≤ d.blockCount →
      ((∀ fuel c, Covered hmac (deriveVolumeHmacKey hmac secret superBytes)
          (withRegion d dataStart.toNat c) dataStart.toNat
          (capyfsJournalMountHook heap hmac fuel secret dev (withRegion d dataStart.toNat c)
            dataStart.toNat superBytes slots).writes) ↔
        ¬ OpensJournal heap d dataStart.toNat slots)) := by
  have hds := dataStart.isLt
  generalize dataStart.toNat = ds at hds
  refine ⟨fun fuel hm hl => hook_covered fuel dev hds hs hb hm hl, fun hrel hfits => ⟨?_, ?_⟩⟩
  · intro hall hopen
    have hstray : StrayDevice heap
        (withRegion d ds (strayBlocks d (ds - capyfsJournalBlocks))) ds slots :=
      ⟨hrel, hfits, hopen, fun b hl hu => by simp only [withRegion, if_pos (And.intro hl hu)]; rfl⟩
    exact hstray.not_covered 0 dev _ (hall 1 _)
  · intro hno fuel c
    rw [hook_silent (d := withRegion d ds c) fuel dev hno]
    intro w hw
    simp at hw

/-- 128 blocks of 4096 bytes. -/
def volumeDevice : BlockDevice :=
  ⟨4096, 128, fun _ => zeros, fun _ => false, fun _ => false, page_lt, by decide⟩

def freeSlot : JournalSlot := ⟨0, blankJournal, false⟩

theorem volumeDevice_downgrade :
    ¬ ∀ fuel c, Covered (fun _ _ _ => 1#8) (deriveVolumeHmacKey (fun _ _ _ => 1#8) [7#8] [1#8])
      (withRegion volumeDevice 64 c) 64 (capyfsJournalMountHook ampleHeap (fun _ _ _ => 1#8) fuel
        [7#8] 1 (withRegion volumeDevice 64 c) 64 [1#8] [freeSlot]).writes := by
  intro hall
  exact ((hook_downgrade ampleHeap (fun _ _ _ => 1#8) [7#8] [1#8] 1 64#32 [freeSlot] volumeDevice
    rfl (by simp)).2 (fun _ => ⟨rfl, rfl⟩) (by decide)).mp hall
    ⟨by decide, ⟨freeSlot, by simp, rfl⟩, rfl⟩

/-- That volume with a version-1 superblock in block 32 and one pending record in
blocks 33 and 34. -/
theorem volumeDevice_stray :
    capyfsJournalRootSecretInstalled [7#8] = true ∧
      ¬ Covered (fun _ _ _ => 1#8) (deriveVolumeHmacKey (fun _ _ _ => 1#8) [7#8] [1#8])
        (withRegion volumeDevice 64 (strayBlocks volumeDevice 32)) 64
        (capyfsJournalMountHook ampleHeap (fun _ _ _ => 1#8) 2 [7#8] 1
          (withRegion volumeDevice 64 (strayBlocks volumeDevice 32)) 64 [1#8] [freeSlot]).writes := by
  have hstray : StrayDevice ampleHeap (withRegion volumeDevice 64 (strayBlocks volumeDevice 32)) 64
      [freeSlot] :=
    ⟨fun _ => ⟨rfl, rfl⟩, by decide, ⟨by decide, ⟨freeSlot, by simp, rfl⟩, rfl⟩,
      fun b hl hu => by simp only [withRegion, if_pos (And.intro hl hu)]; rfl⟩
  exact ⟨rfl, hstray.not_covered 1 1 _⟩

end CapyOS.Proofs
