import CapyOS.Proofs.JournalCodec

namespace CapyOS.Proofs
open Lib
variable {p : Nat}

def ringGap (sb : JournalSuperblock) (p : Nat) : Nat :=
  if p ≤ sb.head.toNat then sb.head.toNat - p else sb.blockCount.toNat - p + sb.head.toNat

def NotBehind (sb : JournalSuperblock) (q p : Nat) : Prop :=
  p < sb.blockCount.toNat ∧ ringGap sb p ≤ ringGap sb q

section
variable {sb : JournalSuperblock}

theorem NotBehind.trans {p q r : Nat} (h : NotBehind sb p q) (k : NotBehind sb q r) : NotBehind sb p r :=
  ⟨k.1, Nat.le_trans k.2 h.2⟩

theorem ringNext_lt (hhead : sb.head.toNat < sb.blockCount.toNat) (p : Nat) : ringNext sb p < sb.blockCount.toNat :=
  Nat.mod_lt _ (by omega)

theorem ringNext_closer (hhead : sb.head.toNat < sb.blockCount.toNat)
    (hp : p < sb.blockCount.toNat) (hne : p ≠ sb.head.toNat) : ringGap sb (ringNext sb p) + 1 = ringGap sb p := by
  have hlt := sb.blockCount.isLt
  have hnext : ringNext sb p = if p + 1 = sb.blockCount.toNat then 0 else p + 1 := by
    unfold ringNext
    rw [u32_of_lt (by omega)]
    split
    · next heq => rw [heq, Nat.mod_self]
    · exact Nat.mod_eq_of_lt (by omega)
  unfold ringGap
  rw [hnext]
  split
  · rw [if_pos (Nat.zero_le _), if_neg (by omega)]
    omega
  · split
    · rw [if_pos (by omega)]
      omega
    · rw [if_neg (by omega)]
      omega

end

section
variable {heap : Heap} {hmac : Hmac} {j : Journal} (hhead : j.sb.head.toNat < j.sb.blockCount.toNat)
include hhead

theorem legacyApply_notBehind (refs : List JournalBlockRef) (d : BlockDevice)
    (hp : p < j.sb.blockCount.toNat) : NotBehind j.sb p (legacyApply heap d j refs p).2 := by
  induction refs generalizing d p with
  | nil => exact ⟨hp, Nat.le_refl _⟩
  | cons r refs ih =>
    unfold legacyApply
    split
    · exact ⟨hp, Nat.le_refl _⟩
    · next hne =>
      split
      · exact ⟨hp, Nat.le_refl _⟩
      · have hcloser := ringNext_closer hhead hp hne
        exact NotBehind.trans ⟨ringNext_lt hhead p, by omega⟩ (ih _ (ringNext_lt hhead p))

theorem stagePayload_notBehind (d : BlockDevice) (n : Nat)
    (hp : p < j.sb.blockCount.toNat) : NotBehind j.sb p (stagePayload d j n p).2.2 := by
  induction n generalizing p with
  | zero => exact ⟨hp, Nat.le_refl _⟩
  | succ n ih =>
    unfold stagePayload
    split
    · exact ⟨hp, Nat.le_refl _⟩
    · next hne =>
      split
      · exact ⟨hp, Nat.le_refl _⟩
      · have hcloser := ringNext_closer hhead hp hne
        exact NotBehind.trans ⟨ringNext_lt hhead p, by omega⟩ (ih (ringNext_lt hhead p))

def PassAdvances (j : Journal) (q : Nat) : ReplayIteration → Prop
  | .stop _ => True
  | .trap => False
  | .skip p => NotBehind j.sb q p
  | .legacy _ p => NotBehind j.sb q p
  | .authentic _ p => NotBehind j.sb q p

theorem authIteration_advances (d : BlockDevice) (hdr : JournalEntryHeader)
    (refs : List JournalBlockRef) (hp : p < j.sb.blockCount.toNat) :
    PassAdvances j p (authIteration heap hmac d j hdr refs p) := by
  have hstaged := stagePayload_notBehind hhead d refs.length hp
  unfold authIteration
  dsimp only
  split
  · trivial
  · split
    · trivial
    · next hne =>
      split
      · trivial
      · split
        · trivial
        · split
          · trivial
          · have hcloser := ringNext_closer hhead hstaged.1 hne
            exact hstaged.trans ⟨ringNext_lt hhead _, by omega⟩

theorem replayIteration_advances (d : BlockDevice) (p : Nat) :
    PassAdvances j (ringNext j.sb p) (replayIteration heap hmac d j p) := by
  have hnext := ringNext_lt hhead p
  have hhere : NotBehind j.sb (ringNext j.sb p) (ringNext j.sb p) := ⟨hnext, Nat.le_refl _⟩
  unfold replayIteration
  split
  · trivial
  · dsimp only
    split
    · trivial
    · split
      · next hzero =>
        rw [hzero] at hhead
        exact absurd hhead (Nat.not_lt_zero _)
      · split
        · exact hhere
        · split
          · split
            · exact legacyApply_notBehind hhead _ d hnext
            · exact authIteration_advances hhead d _ _ hnext
          · exact hhere

/-- The loop ends within as many passes as the head is ahead. -/
theorem replayLoop_ends (fuel : Nat) (d : BlockDevice) (hp : p < j.sb.blockCount.toNat)
    (hfuel : ringGap j.sb p < fuel) : ∃ ok, (replayLoop heap hmac j fuel d p).2 = .finished ok := by
  induction fuel generalizing d p with
  | zero => omega
  | succ fuel ih =>
    unfold replayLoop
    split
    · exact ⟨true, rfl⟩
    · next hne =>
      have hcloser := ringNext_closer hhead hp hne
      have hadv := @replayIteration_advances heap hmac j hhead d p
      cases hpass : replayIteration heap hmac d j p with
      | stop ok => exact ⟨ok, rfl⟩
      | trap =>
        rw [hpass] at hadv
        exact hadv.elim
      | skip q =>
        rw [hpass] at hadv
        have hgap := hadv.2
        exact ih d hadv.1 (by omega)
      | legacy ws q =>
        rw [hpass] at hadv
        have hgap := hadv.2
        exact ih _ hadv.1 (by omega)
      | authentic e q =>
        rw [hpass] at hadv
        have hgap := hadv.2
        exact ih _ hadv.1 (by omega)

theorem replayLoop_ends_anywhere (d : BlockDevice) (p : Nat) :
    ∃ fuel ok, (replayLoop heap hmac j fuel d p).2 = .finished ok := by
  refine ⟨ringGap j.sb (ringNext j.sb p) + 2, ?_⟩
  unfold replayLoop
  split
  · exact ⟨true, rfl⟩
  · have hadv := @replayIteration_advances heap hmac j hhead d p
    cases hpass : replayIteration heap hmac d j p with
    | stop ok => exact ⟨ok, rfl⟩
    | trap =>
      rw [hpass] at hadv
      exact hadv.elim
    | skip q =>
      rw [hpass] at hadv
      have hgap := hadv.2
      exact replayLoop_ends hhead _ d hadv.1 (by omega)
    | legacy ws q =>
      rw [hpass] at hadv
      have hgap := hadv.2
      exact replayLoop_ends hhead _ _ hadv.1 (by omega)
    | authentic e q =>
      rw [hpass] at hadv
      have hgap := hadv.2
      exact replayLoop_ends hhead _ _ hadv.1 (by omega)

end

def ReplayEnds (heap : Heap) (hmac : Hmac) (d : BlockDevice) (j : Journal) : Prop :=
  ∃ fuel, (journalReplay heap hmac fuel d j).rc ≠ none

theorem replay_ends {heap : Heap} {hmac : Hmac} (d : BlockDevice) {j : Journal}
    (h : j.sb.head = j.sb.tail ∨ j.sb.head.toNat < j.sb.blockCount.toNat) : ReplayEnds heap hmac d j := by
  by_cases hsame : j.sb.head = j.sb.tail
  · refine ⟨0, ?_⟩
    unfold journalReplay
    rw [if_pos (by simp [journalNeedsReplay, hsame])]
    nofun
  · have hhead := h.resolve_left hsame
    obtain ⟨fuel, ok, hloop⟩ := @replayLoop_ends_anywhere heap hmac j hhead d j.sb.tail.toNat
    refine ⟨fuel, ?_⟩
    unfold journalReplay
    split
    · nofun
    · split
      · nofun
      · split
        · nofun
        · split
          · nofun
          · dsimp only
            rw [hloop]
            nofun

section
variable {heap : Heap} {hmac : Hmac} {d : BlockDevice} {j : Journal} {p : Nat} {buf : Bytes}
  (hread : journalReadBlock d j (slotBlock p) = some buf)
  (hmagic : (readHeader buf).magic = journalMagic)
include hread hmagic

theorem iteration_trap (hzero : j.sb.blockCount = 0#32) : replayIteration heap hmac d j p = .trap := by
  unfold replayIteration
  rw [hread]
  dsimp only
  rw [if_neg (not_not.mpr hmagic), if_pos hzero]

theorem iteration_skip (hcount : j.sb.blockCount ≠ 0#32) (htype : (readHeader buf).type ≠ JournalEntryType.writeMeta.code) :
    replayIteration heap hmac d j p = .skip (ringNext j.sb p) := by
  unfold replayIteration
  rw [hread]
  dsimp only
  rw [if_neg (not_not.mpr hmagic), if_neg hcount]
  split
  · rfl
  · rw [if_neg (fun h => htype h.1)]

theorem iteration_legacy (hcount : j.sb.blockCount ≠ 0#32) (htype : (readHeader buf).type = JournalEntryType.writeMeta.code)
    (hsome : (readHeader buf).blockCount ≠ 0#32) (hauth : journalIsAuthenticated j = false) :
    ∃ refs, refs.length = min (readHeader buf).blockCount.toNat journalEntryMaxBlocks ∧
      replayIteration heap hmac d j p = .legacy (legacyApply heap d j refs (ringNext j.sb p)).1
        (legacyApply heap d j refs (ringNext j.sb p)).2 := by
  refine ⟨readRefs buf (min (readHeader buf).blockCount.toNat journalEntryMaxBlocks), by simp [readRefs], ?_⟩
  unfold replayIteration
  rw [hread]
  dsimp only
  rw [if_neg (not_not.mpr hmagic), if_neg hcount, if_neg (by rw [htype]; decide), if_pos ⟨htype, hsome⟩, hauth]
  rfl

end

/-! A journal whose head is outside its ring. Every slot but one holds a commit block, so the
loop walks around. The slot of the device's last block cannot be read; the slot before it
has an entry of one block, which steps over it. -/

def ringSuper (head tail blockCount : BitVec 32) : JournalSuperblock :=
  ⟨journalMagic, journalVersion, 512, blockCount, head, tail, 1, 0, fun _ => 0⟩

def entryHeader (type : JournalEntryType) (blockCount : BitVec 32) : JournalEntryHeader :=
  ⟨journalMagic, type.code, 1, blockCount, 0, 0, 0⟩

/-- The slot behind a device block of a journal from block `start`, and the slot of the
block that no device has. -/
def slotOfBlock (start b : Nat) : Nat := u32 (b + 2 ^ 32 - 1 - start)

def lastSlot (start : Nat) : Nat := slotOfBlock start (2 ^ 32 - 1)

def walkedBlock (sb : JournalSuperblock) (start p : Nat) : Bytes :=
  if ringNext sb p = lastSlot start then pack ((entryHeader .writeMeta 1).fields ++ [])
  else pack ((entryHeader .commit 0).fields ++ [])

def walkedDevice (sb : JournalSuperblock) (start : Nat) : BlockDevice where
  blockSize := 512
  blockCount := 2 ^ 32 - 1
  blocks b := if b = start then sb.bytes else walkedBlock sb start (slotOfBlock start b)
  readFails _ := false
  writeFails _ := false
  blockSize_lt := sector_lt
  blockCount_lt := by decide

/-- Where the journal begins: not where its tail would be the unreadable slot. -/
def walkedStart (tail : BitVec 32) : Nat := if tail = 4294967294#32 then 1 else 0

def walkedJournal (head tail blockCount : BitVec 32) : Journal :=
  ⟨walkedStart tail, 0, ringSuper head tail blockCount, 1, false, []⟩

section
variable {head tail blockCount : BitVec 32}

theorem walkedStart_le : walkedStart tail ≤ 1 := by
  unfold walkedStart
  split
  · exact Nat.le_refl _
  · exact Nat.zero_le _

theorem walkedJournal_init (heap : Heap) (hheap : heap 512 = true) (old : Journal) :
    journalInit heap (walkedDevice (ringSuper head tail blockCount) (walkedStart tail)) old
      (walkedStart tail) 0 = (0, walkedJournal head tail blockCount) := by
  have hle := @walkedStart_le tail
  have hplace : u32 (walkedStart tail + 0) = walkedStart tail := u32_of_lt (by omega)
  have hread : blockDeviceRead (walkedDevice (ringSuper head tail blockCount) (walkedStart tail))
      (walkedStart tail) = some (ringSuper head tail blockCount).bytes := by
    unfold blockDeviceRead BlockDevice.canRead walkedDevice
    dsimp only
    rw [if_pos (by simp; omega), if_pos rfl]
  unfold journalInit
  rw [if_neg (by simp [walkedDevice, hheap])]
  unfold journalReadBlock journalBlockNo
  dsimp only
  rw [hplace, hread]
  dsimp only
  rw [readSuperblock_bytes, if_neg (by simp [ringSuper]), if_neg (by simp [ringSuper])]
  rfl

theorem walked_read {p : Nat} (hp : p < 2 ^ 32) (hne : p ≠ lastSlot (walkedStart tail)) :
    journalReadBlock (walkedDevice (ringSuper head tail blockCount) (walkedStart tail))
      (walkedJournal head tail blockCount) (slotBlock p) = some (if p = 2 ^ 32 - 1 then (ringSuper head tail blockCount).bytes
        else walkedBlock (ringSuper head tail blockCount) (walkedStart tail) p) := by
  have hle := @walkedStart_le tail
  unfold lastSlot slotOfBlock u32 at hne
  unfold journalReadBlock journalBlockNo slotBlock walkedJournal
  dsimp only
  generalize walkedStart tail = start at hle hne
  have hblock : u32 (start + u32 (1 + p)) < 2 ^ 32 - 1 := by
    unfold u32
    omega
  have hstart : u32 (start + u32 (1 + p)) = start ↔ p = 2 ^ 32 - 1 := by
    unfold u32
    omega
  have hslot : slotOfBlock start (u32 (start + u32 (1 + p))) = p := by
    unfold slotOfBlock u32
    omega
  unfold blockDeviceRead BlockDevice.canRead walkedDevice
  dsimp only
  rw [if_pos (by simp only [hblock, decide_true, Bool.not_false, Bool.and_self])]
  by_cases hlast : p = 2 ^ 32 - 1
  · rw [if_pos (hstart.mpr hlast), if_pos hlast]
  · rw [if_neg (fun h => hlast (hstart.mp h)), if_neg hlast, hslot]

theorem ringSuper_header : (readHeader (ringSuper head tail blockCount).bytes).magic = journalMagic ∧
    (readHeader (ringSuper head tail blockCount).bytes).type = journalVersion := by
  have hsb := readSuperblock_bytes (ringSuper head tail blockCount)
  exact ⟨congrArg JournalSuperblock.magic hsb, congrArg JournalSuperblock.version hsb⟩

theorem walkedBlock_magic (sb : JournalSuperblock) (start p : Nat) :
    (readHeader (walkedBlock sb start p)).magic = journalMagic := by
  unfold walkedBlock
  split
  · rw [readHeader_pack]
    rfl
  · rw [readHeader_pack]
    rfl

theorem walked_read_lastSlot (hlast : p = lastSlot (walkedStart tail)) :
    journalReadBlock (walkedDevice (ringSuper head tail blockCount) (walkedStart tail))
      (walkedJournal head tail blockCount) (slotBlock p) = none := by
  have hle := @walkedStart_le tail
  unfold lastSlot slotOfBlock u32 at hlast
  unfold journalReadBlock journalBlockNo slotBlock walkedJournal
  dsimp only
  generalize walkedStart tail = start at hle hlast
  have hblock : u32 (start + u32 (1 + p)) = 2 ^ 32 - 1 := by
    unfold u32
    omega
  unfold blockDeviceRead BlockDevice.canRead walkedDevice
  dsimp only
  rw [hblock, if_neg (by simp)]

theorem walked_traps (hzero : blockCount = 0#32) (hp : p < 2 ^ 32)
    (hne : p ≠ lastSlot (walkedStart tail)) (hmac : Hmac) :
    replayIteration ampleHeap hmac (walkedDevice (ringSuper head tail blockCount) (walkedStart tail))
      (walkedJournal head tail blockCount) p = .trap := by
  refine iteration_trap (walked_read hp hne) ?_ hzero
  split
  · exact ringSuper_header.1
  · exact walkedBlock_magic _ _ _

theorem walked_next (hcount : blockCount ≠ 0#32) (p : Nat) : ringNext (ringSuper head tail blockCount) p < blockCount.toNat :=
  Nat.mod_lt _ (Nat.pos_of_ne_zero fun h => hcount (BitVec.eq_of_toNat_eq h))

theorem walked_steps_over (hhead : blockCount.toNat ≤ head.toNat) (r : JournalBlockRef)
    (hlast : lastSlot (walkedStart tail) < blockCount.toNat) :
    legacyApply ampleHeap (walkedDevice (ringSuper head tail blockCount) (walkedStart tail))
      (walkedJournal head tail blockCount) [r] (lastSlot (walkedStart tail)) =
      ([], ringNext (ringSuper head tail blockCount) (lastSlot (walkedStart tail))) := by
  have hlt := head.isLt
  have hne : lastSlot (walkedStart tail) ≠ (walkedJournal head tail blockCount).sb.head.toNat := by
    change _ ≠ head.toNat
    omega
  unfold legacyApply
  rw [if_neg hne, walked_read_lastSlot rfl]
  rfl

theorem walked_goes_on (hcount : blockCount ≠ 0#32) (hhead : blockCount.toNat ≤ head.toNat)
    (hp : p < 2 ^ 32) (hne : p ≠ lastSlot (walkedStart tail)) (hmac : Hmac) :
    ∃ q, q < blockCount.toNat ∧ q ≠ lastSlot (walkedStart tail) ∧
      (replayIteration ampleHeap hmac (walkedDevice (ringSuper head tail blockCount) (walkedStart tail))
          (walkedJournal head tail blockCount) p = .skip q ∨
        replayIteration ampleHeap hmac (walkedDevice (ringSuper head tail blockCount) (walkedStart tail))
          (walkedJournal head tail blockCount) p = .legacy [] q) := by
  have hnext := @walked_next head tail blockCount hcount
  have hle := @walkedStart_le tail
  have hcountLt := blockCount.isLt
  have hread := @walked_read head tail blockCount p hp hne
  by_cases hlast : p = 2 ^ 32 - 1
  · -- the slot that wraps around to the superblock
    rw [if_pos hlast] at hread
    refine ⟨ringNext (ringSuper head tail blockCount) p, hnext p, ?_, .inl (iteration_skip hread ringSuper_header.1 hcount ?_)⟩
    · rw [hlast]
      unfold ringNext lastSlot slotOfBlock u32
      rw [show (2 ^ 32 - 1 + 1) % 2 ^ 32 = 0 by decide, Nat.zero_mod]
      omega
    · rw [ringSuper_header.2]
      decide
  · rw [if_neg hlast] at hread
    by_cases hover : ringNext (ringSuper head tail blockCount) p = lastSlot (walkedStart tail)
    · have hheader : readHeader (walkedBlock (ringSuper head tail blockCount) (walkedStart tail) p) =
          entryHeader .writeMeta 1 := by
        unfold walkedBlock
        rw [if_pos hover, readHeader_pack]
      have hin : lastSlot (walkedStart tail) < blockCount.toNat := hover ▸ hnext p
      obtain ⟨refs, hrefs, hpass⟩ := @iteration_legacy ampleHeap hmac _ _ _ _ hread (walkedBlock_magic _ _ _)
        hcount (by rw [hheader]; rfl) (by rw [hheader]; decide) rfl
      rw [hheader] at hrefs
      obtain ⟨r, rfl⟩ := List.length_eq_one_iff.mp (hrefs.trans (by decide))
      rw [show ringNext (walkedJournal head tail blockCount).sb p = lastSlot (walkedStart tail) from hover,
        walked_steps_over hhead r hin] at hpass
      refine ⟨ringNext (ringSuper head tail blockCount) (lastSlot (walkedStart tail)), hnext _, ?_, .inr hpass⟩
      unfold ringNext
      change u32 (lastSlot (walkedStart tail) + 1) % blockCount.toNat ≠ lastSlot (walkedStart tail)
      have hbig : 2 ^ 32 - 3 ≤ lastSlot (walkedStart tail) := by
        unfold lastSlot slotOfBlock u32
        omega
      rw [u32_of_lt (by omega)]
      by_cases hend : lastSlot (walkedStart tail) + 1 = blockCount.toNat
      · rw [hend, Nat.mod_self]
        omega
      · rw [Nat.mod_eq_of_lt (by omega)]
        omega
    · refine ⟨ringNext (ringSuper head tail blockCount) p, hnext p, hover,
        .inl (iteration_skip hread (walkedBlock_magic _ _ _) hcount ?_)⟩
      unfold walkedBlock
      rw [if_neg hover, readHeader_pack]
      decide

theorem walkedLoop_runs (hcount : blockCount ≠ 0#32) (hhead : blockCount.toNat ≤ head.toNat) (hmac : Hmac)
    (fuel : Nat) (hp : p < 2 ^ 32) (hne : p ≠ lastSlot (walkedStart tail)) (hpos : p ≠ head.toNat) :
    ∃ q, replayLoop ampleHeap hmac (walkedJournal head tail blockCount) fuel
      (walkedDevice (ringSuper head tail blockCount) (walkedStart tail)) p = ([], .running q) := by
  induction fuel generalizing p with
  | zero => exact ⟨p, rfl⟩
  | succ fuel ih =>
    have hlt := blockCount.isLt
    obtain ⟨q, hq, hqne, hpass⟩ := walked_goes_on hcount hhead hp hne hmac
    obtain ⟨r, hrest⟩ := ih (by omega : q < 2 ^ 32) hqne (by omega)
    refine ⟨r, ?_⟩
    unfold replayLoop
    rw [if_neg (show p ≠ (walkedJournal head tail blockCount).sb.head.toNat from hpos)]
    cases hpass with
    | inl hskip =>
      rw [hskip]
      exact hrest
    | inr hlegacy =>
      rw [hlegacy]
      dsimp only
      rw [BlockDevice.apply_nil, hrest]
      rfl

theorem walkedStart_apart : tail.toNat ≠ lastSlot (walkedStart tail) := by
  unfold walkedStart lastSlot slotOfBlock u32
  split
  · next heq =>
    rw [heq]
    decide
  · next hne =>
    intro heq
    exact hne (BitVec.eq_of_toNat_eq (heq.trans (by decide)))

/-- The replay of this journal never ends, or divides by zero. -/
theorem walked_never_ends (hne : head ≠ tail) (hhead : blockCount.toNat ≤ head.toNat) (hmac : Hmac) :
    ¬ ReplayEnds ampleHeap hmac (walkedDevice (ringSuper head tail blockCount) (walkedStart tail))
      (walkedJournal head tail blockCount) := by
  have htail := tail.isLt
  have hloop : ∀ fuel, ∀ ok, (replayLoop ampleHeap hmac (walkedJournal head tail blockCount) fuel
      (walkedDevice (ringSuper head tail blockCount) (walkedStart tail)) tail.toNat).2 ≠ .finished ok := by
    intro fuel ok
    by_cases hcount : blockCount = 0#32
    · cases fuel with
      | zero => nofun
      | succ fuel =>
        unfold replayLoop
        have hapart : tail.toNat ≠ (walkedJournal head tail blockCount).sb.head.toNat :=
          fun h => hne (BitVec.eq_of_toNat_eq h).symm
        rw [if_neg hapart, walked_traps hcount htail walkedStart_apart hmac]
        nofun
    · obtain ⟨q, hq⟩ := walkedLoop_runs hcount hhead hmac fuel htail walkedStart_apart
        (fun h => hne (BitVec.eq_of_toNat_eq h).symm)
      rw [hq]
      nofun
  intro ⟨fuel, hends⟩
  apply hends
  unfold journalReplay
  rw [if_neg (by simpa [journalNeedsReplay, walkedJournal, ringSuper] using hne),
    if_neg (fun h => absurd h.1 (by decide : ¬ journalVersion = journalVersionAuth)), if_neg (by simp),
    if_neg (by simp)]
  dsimp only
  split
  · next ok hfinished => exact absurd hfinished (hloop fuel ok)
  · rfl

end

/-- Whatever a device holds besides, the replay of a journal with these three fields ends
without a division by zero exactly when there is nothing to replay or the head is in the ring. -/
theorem replay_ends_iff (head tail blockCount : BitVec 32) :
    (∀ (heap : Heap) (hmac : Hmac) (d : BlockDevice) (old : Journal) (startBlock count : Nat)
      (key : List Byte) (j : Journal), journalInit heap d old startBlock count = (0, j) →
        j.sb.head = head → j.sb.tail = tail → j.sb.blockCount = blockCount →
        ReplayEnds heap hmac d (journalSetHmacKey j key).2) ↔
      head = tail ∨ head.toNat < blockCount.toNat := by
  constructor
  · intro hall
    by_contra hcond
    rw [not_or, Nat.not_lt] at hcond
    exact walked_never_ends hcond.1 hcond.2 (fun _ _ => zeros)
      (hall ampleHeap (fun _ _ => zeros) _ (walkedJournal head tail blockCount) _ 0 [] _
        (walkedJournal_init ampleHeap rfl _) rfl rfl rfl)
  · rintro hcond heap hmac d old startBlock count key j - rfl rfl rfl
    refine replay_ends d ?_
    have hsb : (journalSetHmacKey j key).2.sb = j.sb := by
      unfold journalSetHmacKey
      split
      · rfl
      · split <;> rfl
    rw [hsb]
    exact hcond

/-- Head 8 and tail 0 of a ring of 4 slots that all hold commit blocks. -/
theorem replay_walks_around : ∃ j,
    journalInit ampleHeap (walkedDevice (ringSuper 8 0 4) 0) (walkedJournal 8 0 4) 0 0 = (0, j) ∧
      ¬ ReplayEnds ampleHeap (fun _ _ => zeros) (walkedDevice (ringSuper 8 0 4) 0) j :=
  ⟨_, walkedJournal_init ampleHeap rfl (walkedJournal 8 0 4),
    walked_never_ends (by decide) (by decide) (fun _ _ => zeros)⟩

end CapyOS.Proofs
