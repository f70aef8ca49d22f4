import CapyOS.Fs.JournalRun
import CapyOS.Proofs.JournalReplay

namespace CapyOS.Proofs
open Lib List

/-- What the device says about the journal: its superblock is the one of `j`,
and the records `ts` lie on the ring from the tail to the head. -/
structure DiskInv (hmac : Hmac) (d : BlockDevice) (j : Journal) (ts : List Transaction) : Prop where
  placed : Placed d j
  home : d.blocks j.startBlock = j.sb.bytes
  magic : j.sb.magic = journalMagic
  mode : j.sb.version = journalVersion ∧ j.hmacKey = [] ∨
    j.sb.version = journalVersionAuth ∧ 0 < j.hmacKey.length ∧
      j.hmacKey.length ≤ journalHmacKeyMax
  tail : j.sb.tail.toNat < j.sb.blockCount.toNat
  laid : Laid d j j.sb.tail.toNat (ts.flatMap (recordBlocks hmac d j))
  head : j.sb.head.toNat =
    (j.sb.tail.toNat + (ts.flatMap (recordBlocks hmac d j)).length) % j.sb.blockCount.toNat
  room : (ts.flatMap (recordBlocks hmac d j)).length < j.sb.blockCount.toNat
  good : ∀ t ∈ ts, GoodRecord j t

section
variable {hmac : Hmac} {d : BlockDevice} {j : Journal} {ts : List Transaction}

theorem recordBlocks_apply (ws : List Write) : recordBlocks hmac (d.apply ws) j = recordBlocks hmac d j :=
  funext (fun u => recordBlocks_congr hmac u (by simp) rfl rfl)

/-- Writes that spare the superblock and the laid records keep the picture. -/
theorem DiskInv.apply (h : DiskInv hmac d j ts) {ws : List Write} (hhome : ∀ w ∈ ws, w.1 ≠ j.startBlock)
    (hlaid : ∀ w ∈ ws, ∀ i, i < (ts.flatMap (recordBlocks hmac d j)).length → w.1 ≠ slotAt j (j.sb.tail.toNat + i)) :
    DiskInv hmac (d.apply ws) j ts := by
  have hkeep : ∀ n, (∀ w ∈ ws, w.1 ≠ n) → (d.apply ws).blocks n = d.blocks n := by
    intro n hn
    apply d.apply_other
    intro hm
    obtain ⟨w, hw, he⟩ := mem_map.mp hm
    exact hn w hw he
  refine ⟨h.placed.apply ws, ?_, h.magic, h.mode, h.tail, ?_, ?_, ?_, h.good⟩
  · rw [hkeep _ hhome, h.home]
  · rw [recordBlocks_apply]
    exact h.laid.congr (fun i hi => hkeep _ (fun w hw => hlaid w hw i hi))
  · rw [recordBlocks_apply]
    exact h.head
  · rw [recordBlocks_apply]
    exact h.room

theorem DiskInv.apply_outside (h : DiskInv hmac d j ts) {ws : List Write}
    (ho : ∀ w ∈ ws, ¬ InRegion j w.1) : DiskInv hmac (d.apply ws) j ts := by
  have hr := h.placed.ring
  refine h.apply ?_ ?_
  · intro w hw he
    refine ho w hw ?_
    unfold InRegion
    omega
  · intro w hw i _ he
    exact ho w hw (he ▸ (slotAt_mem h.placed _).1)

theorem DiskInv.records_le (h : DiskInv hmac d j ts) : 2 * ts.length + 1 ≤ j.sb.blockCount.toNat := by
  have hr := h.room
  have : 2 * ts.length ≤ (ts.flatMap (recordBlocks hmac d j)).length := by
    clear h hr
    induction ts with
    | nil => simp
    | cons t ts ih =>
      simp only [flatMap_cons, length_append, length_recordBlocks, length_cons]
      omega
  omega

/-- The head meets the tail exactly when nothing is pending. -/
theorem DiskInv.clean_iff (h : DiskInv hmac d j ts) : j.sb.head = j.sb.tail ↔ ts = [] := by
  have hh := h.head
  have hroom := h.room
  constructor
  · intro he
    cases ts with
    | nil => rfl
    | cons t ts =>
      exfalso
      rw [he] at hh
      simp only [flatMap_cons, length_append, length_recordBlocks] at hh hroom
      have hz : (j.sb.tail.toNat + 0) % j.sb.blockCount.toNat = j.sb.tail.toNat := by
        rw [Nat.add_zero]
        exact Nat.mod_eq_of_lt h.tail
      have := ring_inj (p := j.sb.tail.toNat) (by omega) hroom (hz.trans hh)
      omega
  · intro he
    subst he
    simp only [flatMap_nil, length_nil, Nat.add_zero] at hh
    rw [Nat.mod_eq_of_lt h.tail] at hh
    exact BitVec.eq_of_toNat_eq hh

/-- The journal a recovery works with. -/
def opened (j : Journal) : Journal :=
  { j with currentSequence := j.sb.sequence, dirty := false }

theorem DiskInv.read_home (h : DiskInv hmac d j ts) {k : Journal}
    (hs : k.startBlock = j.startBlock) : journalReadBlock d k 0 = some j.sb.bytes := by
  have hf := h.placed.fits
  have hr := h.placed.ring
  have hn : journalBlockNo k 0 = j.startBlock := by
    have := d.blockCount_lt
    unfold journalBlockNo
    rw [hs]
    exact u32_of_lt (by omega)
  unfold journalReadBlock
  rw [hn, blockDeviceRead_of_canRead (h.placed.reliable.canRead (by omega)), h.home]

theorem init_opens {heap : Heap} (h : DiskInv hmac d j ts) (old : Journal) (hm : heap d.blockSize = true) :
    journalInit heap d old j.startBlock j.blockCount = (0, { opened j with hmacKey := [] }) := by
  have hv : ¬ (j.sb.version ≠ journalVersion ∧ j.sb.version ≠ journalVersionAuth) := by
    rcases h.mode with hm | hm
    · exact fun hn => hn.1 hm.1
    · exact fun hn => hn.2 hm.1
  simp only [journalInit, hm, Bool.not_true, Bool.false_eq_true, if_false]
  rw [h.read_home (k := ⟨j.startBlock, j.blockCount, old.sb, old.currentSequence, false, []⟩) rfl]
  simp only [readSuperblock_bytes, h.magic, ne_eq, not_true_eq_false, if_false]
  rw [if_neg hv]
  rfl

theorem setKey_opens (h : DiskInv hmac d j ts) :
    (journalSetHmacKey { opened j with hmacKey := [] } j.hmacKey).2 = opened j := by
  unfold journalSetHmacKey
  rcases h.mode with hm | hm
  · simp [hm.2, opened]
  · rw [if_neg (by omega), if_neg (by omega)]
    simp [opened]

def replayedSb (sb : JournalSuperblock) : JournalSuperblock :=
  { sb with tail := sb.head, sequence := sb.sequence + 1 }

def recoveryWrites (j : Journal) (ts : List Transaction) : List Write :=
  if ts = [] then []
  else ts.flatMap recordWrites ++ [(j.startBlock, (replayedSb j.sb).bytes)]

theorem recover_spec (h : DiskInv hmac d j ts) (old : Journal) (fuel : Nat) (hf : j.sb.blockCount.toNat ≤ fuel) :
    (recover ampleHeap hmac old j.startBlock j.blockCount j.hmacKey fuel d).rc = some 0 ∧
    (recover ampleHeap hmac old j.startBlock j.blockCount j.hmacKey fuel d).writes = recoveryWrites j ts := by
  unfold recover
  simp only [init_opens h old (ampleHeap_apply _), ne_eq, not_true_eq_false, if_false, setKey_opens h]
  unfold journalReplay recoveryWrites
  by_cases he : ts = []
  · have hc := h.clean_iff.mpr he
    simp [journalNeedsReplay, opened, hc, he]
  · have hc : j.sb.head ≠ j.sb.tail := fun hc => he (h.clean_iff.mp hc)
    have hkey : ¬ (j.sb.version = journalVersionAuth ∧ j.hmacKey.length = 0) := by
      rcases h.mode with hm | hm
      · intro hn
        rw [hm.1] at hn
        exact absurd hn.1 (by decide)
      · omega
    have hpl : Placed d (opened j) := h.placed.congr rfl rfl rfl
    have hrec : recordBlocks hmac d (opened j) = recordBlocks hmac d j :=
      funext (fun u => recordBlocks_congr hmac u rfl rfl rfl)
    have hloop := replayLoop_laid hmac hpl ts j.sb.tail.toNat fuel
      (by rw [hrec]; exact h.laid) (by rw [hrec]; exact h.head) (by rw [hrec]; exact h.room)
      (fun t ht => ⟨(h.good t ht).few, (h.good t ht).outside⟩)
      (Nat.le_trans h.records_le hf)
    rw [show (opened j).sb = j.sb from rfl, Nat.mod_eq_of_lt h.tail] at hloop
    have hhome : journalBlockNo (opened j) 0 = j.startBlock := by
      have hr := h.placed.ring
      rw [hpl.blockNo (show 0 < (opened j).blockCount by simp only [opened]; omega)]
      rfl
    have hneed : journalNeedsReplay (opened j) = true := by
      simp [journalNeedsReplay, opened, hc]
    simp only [hneed, Bool.not_true, Bool.false_eq_true, if_false, ampleHeap_apply, Bool.and_false]
    rw [if_neg (show ¬ ((opened j).sb.version = journalVersionAuth ∧
      (opened j).hmacKey.length = 0) from hkey)]
    simp only [show (opened j).sb = j.sb from rfl, hloop, hhome, if_neg he]
    exact ⟨rfl, rfl⟩

/-- The journal after a completed recovery. -/
def retired (j : Journal) : Journal := { j with sb := replayedSb j.sb }

theorem recordWrites_all_outside (h : DiskInv hmac d j ts) : ∀ w ∈ ts.flatMap recordWrites, ¬ InRegion j w.1 := by
  intro w hw
  obtain ⟨t, ht, hw⟩ := mem_flatMap.mp hw
  exact recordWrites_outside (h.good t ht) w hw

/-- A journal whose superblock was replaced by one with nothing pending. -/
theorem DiskInv.reset (h : DiskInv hmac d j ts) {d' : BlockDevice} {j' : Journal}
    (hp : Placed d' j) (hs : j'.startBlock = j.startBlock) (hc : j'.blockCount = j.blockCount)
    (hb : j'.sb.blockCount = j.sb.blockCount) (hm : j'.sb.magic = j.sb.magic)
    (hv : j'.sb.version = j.sb.version) (hk : j'.hmacKey = j.hmacKey)
    (ht : j'.sb.tail = j.sb.head) (hh : j'.sb.head = j.sb.head)
    (hhome : d'.blocks j.startBlock = j'.sb.bytes) : DiskInv hmac d' j' [] := by
  have hlt : j.sb.head.toNat < j.sb.blockCount.toNat := by
    rw [h.head]
    exact Nat.mod_lt _ h.placed.pos
  refine ⟨hp.congr hs hc hb, by rw [hs]; exact hhome, by rw [hm]; exact h.magic, ?_, ?_, laid_nil _, ?_, ?_, by simp⟩
  · rw [hv, hk]
    exact h.mode
  · rw [ht, hb]
    exact hlt
  · simp only [flatMap_nil, length_nil, Nat.add_zero, ht, hh, hb]
    rw [Nat.mod_eq_of_lt hlt]
  · rw [hb]
    exact h.placed.pos

theorem recoveryWrites_cut (h : DiskInv hmac d j ts) (n : Nat) :
    (∃ m, (recoveryWrites j ts).take n = (ts.flatMap recordWrites).take m ∧
      DiskInv hmac (d.apply ((recoveryWrites j ts).take n)) j ts) ∨ ((recoveryWrites j ts).take n = recoveryWrites j ts ∧
      DiskInv hmac (d.apply (recoveryWrites j ts)) (retired j) []) := by
  unfold recoveryWrites
  by_cases he : ts = []
  · subst he
    left
    exact ⟨0, by simp, by simpa using h⟩
  · rw [if_neg he]
    by_cases hn : n ≤ (ts.flatMap recordWrites).length
    · left
      have htake : (ts.flatMap recordWrites ++
          [(j.startBlock, (replayedSb j.sb).bytes)]).take n = (ts.flatMap recordWrites).take n := by
        rw [take_append_of_le_length hn]
      refine ⟨n, htake, ?_⟩
      rw [htake]
      exact h.apply_outside (fun w hw => recordWrites_all_outside h w (mem_of_mem_take hw))
    · right
      refine ⟨take_of_length_le (by rw [length_append, length_singleton]; omega), ?_⟩
      have hr := h.placed.ring
      have hf := h.placed.fits
      refine h.reset (h.placed.apply _) rfl rfl rfl rfl rfl rfl rfl rfl ?_
      rw [d.apply_append, BlockDevice.apply_cons, BlockDevice.apply_nil, BlockDevice.write_same _ _ (by
          rw [d.apply_canWrite]
          exact h.placed.reliable.canWrite (by omega))]
      rfl

end

variable {hmac : Hmac} {d : BlockDevice} {j : Journal} {ts : List Transaction}

/-- Between the tail and the head lie exactly the pending records. -/
theorem DiskInv.used (h : DiskInv hmac d j ts) : ringUsed j.sb = (ts.flatMap (recordBlocks hmac d j)).length := by
  have hh := h.head
  have ht := h.tail
  have hr := h.room
  have hb := j.sb.blockCount.isLt
  rw [ring_unwrap ht hr] at hh
  unfold ringUsed u32
  split at hh <;> split <;> omega

theorem DiskInv.avail (h : DiskInv hmac d j ts) :
    ringAvail j.sb = j.sb.blockCount.toNat - (ts.flatMap (recordBlocks hmac d j)).length - 1 := by
  have hr := h.room
  have hb := j.sb.blockCount.isLt
  unfold ringAvail u32
  rw [h.used]
  omega

theorem ringWrites_keys (bs : List Bytes) (p : Nat) :
    ((bs.zipIdx).map (fun x => ((slotAt j (p + x.2), x.1) : Write))).map Prod.fst =
      (range bs.length).map (fun i => slotAt j (p + i)) := by
  rw [map_map, range_eq_range', ← zipIdx_map_snd 0 bs, map_map]
  rfl

theorem laid_ringWrites (hp : Placed d j) {bs : List Bytes} {p : Nat} (hlen : bs.length ≤ j.sb.blockCount.toNat) :
    Laid (d.apply ((bs.zipIdx).map (fun x => (slotAt j (p + x.2), x.1)))) j p bs := by
  intro i b hi
  obtain ⟨hlt, hb⟩ := List.getElem?_eq_some_iff.mp hi
  rw [d.apply_blocks]
  rw [applyWrites_filter]
  · apply applyWrites_of_mem
    · rw [ringWrites_keys]
      refine List.Nodup.map_on ?_ nodup_range
      intro x hx y hy he
      have hx := mem_range.mp hx
      have hy := mem_range.mp hy
      by_contra hne
      exact slotAt_ne (by omega) (by omega) hne he
    · exact mem_map.mpr ⟨(b, i), mem_zipIdx_iff_getElem?.mpr hi, rfl⟩
  · intro w _ he
    have hm := (slotAt_mem hp (p + i)).1.2
    have hf := hp.fits
    rw [he]
    exact hp.reliable.canWrite (by omega)

def commitRing (hmac : Hmac) (d : BlockDevice) (j : Journal) (p : Nat) (t : Transaction) :
    List Write :=
  ((recordBlocks hmac d j t).zipIdx).map (fun x => (slotAt j (p + x.2), x.1))

/-- A commit's ring writes stay clear of the superblock and of the records that
are already pending, whichever of them reach the device. -/
theorem commitRing_spares (h : DiskInv hmac d j ts) {t : Transaction} {T : Nat}
    (hT : T = (ts.flatMap (recordBlocks hmac d j)).length)
    (hroom : T + (t.refs.length + 2) < j.sb.blockCount.toNat) (ws : List Write)
    (hws : ∀ w ∈ ws, w ∈ commitRing hmac d j (j.sb.tail.toNat + T) t) : DiskInv hmac (d.apply ws) j ts := by
  have hkey : ∀ w ∈ ws, ∃ i, i < t.refs.length + 2 ∧
      w.1 = slotAt j (j.sb.tail.toNat + (T + i)) := by
    intro w hw
    have hm : w.1 ∈ (commitRing hmac d j (j.sb.tail.toNat + T) t).map Prod.fst :=
      mem_map.mpr ⟨w, hws w hw, rfl⟩
    rw [commitRing, ringWrites_keys, length_recordBlocks] at hm
    obtain ⟨i, hi, he⟩ := mem_map.mp hm
    exact ⟨i, mem_range.mp hi, by rw [← he, Nat.add_assoc]⟩
  refine h.apply ?_ ?_
  · intro w hw
    obtain ⟨i, _, he⟩ := hkey w hw
    rw [he]
    exact (slotAt_mem h.placed _).2
  · intro w hw k hk
    obtain ⟨i, hi, he⟩ := hkey w hw
    rw [he]
    exact slotAt_ne (by omega) (by omega) (by omega)

def committedJournal (j : Journal) (p len : Nat) : Journal :=
  { j with
    sb := { j.sb with head := BitVec.ofNat 32 ((p + len) % j.sb.blockCount.toNat) }
    dirty := true }

/-- After all of its writes a commit has appended its record. -/
theorem commit_complete (h : DiskInv hmac d j ts) {t : Transaction} {T : Nat}
    (hT : T = (ts.flatMap (recordBlocks hmac d j)).length) (hg : GoodRecord j t)
    (hroom : T + (t.refs.length + 2) < j.sb.blockCount.toNat) : DiskInv hmac
      (d.apply (commitRing hmac d j (j.sb.tail.toNat + T) t ++
        [(j.startBlock, (committedJournal j (j.sb.tail.toNat + T) (t.refs.length + 2)).sb.bytes)]))
      (committedJournal j (j.sb.tail.toNat + T) (t.refs.length + 2)) (ts ++ [t]) := by
  have hr := h.placed.ring
  have hf := h.placed.fits
  have hpos := h.placed.pos
  have hblt := j.sb.blockCount.isLt
  have hring := commitRing_spares h hT hroom (commitRing hmac d j (j.sb.tail.toNat + T) t)
    (fun w hw => hw)
  generalize hws : commitRing hmac d j (j.sb.tail.toNat + T) t = ws at hring ⊢
  generalize hj : committedJournal j (j.sb.tail.toNat + T) (t.refs.length + 2) = j'
  have hs : j'.startBlock = j.startBlock := by rw [← hj]; rfl
  have hc : j'.blockCount = j.blockCount := by rw [← hj]; rfl
  have hbc : j'.sb.blockCount = j.sb.blockCount := by rw [← hj]; rfl
  have htl : j'.sb.tail = j.sb.tail := by rw [← hj]; rfl
  have hhd : j'.sb.head.toNat =
      (j.sb.tail.toNat + T + (t.refs.length + 2)) % j.sb.blockCount.toNat := by
    rw [← hj]
    have := Nat.mod_lt (j.sb.tail.toNat + T + (t.refs.length + 2)) hpos
    simp only [committedJournal, BitVec.toNat_ofNat]
    exact Nat.mod_eq_of_lt (by omega)
  have hrec : recordBlocks hmac (d.apply (ws ++ [(j.startBlock, j'.sb.bytes)])) j' =
      recordBlocks hmac d j := by
    funext u
    exact recordBlocks_congr hmac u (by simp) (by rw [← hj]; rfl) (by rw [← hj]; rfl)
  have hlen : ((ts ++ [t]).flatMap (recordBlocks hmac d j)).length = T + (t.refs.length + 2) := by
    rw [flatMap_append, length_append, ← hT]
    simp [length_recordBlocks]
  -- the superblock write does not touch the ring
  have hslot : ∀ p, (d.apply (ws ++ [(j.startBlock, j'.sb.bytes)])).blocks (slotAt j p) =
      (d.apply ws).blocks (slotAt j p) := by
    intro p
    rw [d.apply_append, BlockDevice.apply_cons, BlockDevice.apply_nil]
    exact BlockDevice.write_other _ _ (slotAt_mem h.placed p).2
  have hlaid : Laid (d.apply (ws ++ [(j.startBlock, j'.sb.bytes)])) j j.sb.tail.toNat
      ((ts ++ [t]).flatMap (recordBlocks hmac d j)) := by
    rw [flatMap_append, laid_append, ← hT]
    have hold : Laid (d.apply ws) j j.sb.tail.toNat (ts.flatMap (recordBlocks hmac d j)) := by
      have := hring.laid
      rwa [recordBlocks_apply] at this
    have hnew : Laid (d.apply ws) j (j.sb.tail.toNat + T) (recordBlocks hmac d j t) := by
      rw [← hws]
      exact laid_ringWrites h.placed (by rw [length_recordBlocks]; omega)
    refine ⟨hold.congr (fun i _ => hslot _), ?_⟩
    simpa using hnew.congr (fun i _ => hslot _)
  refine ⟨(h.placed.apply _).congr hs hc hbc, ?_, ?_, ?_, ?_, ?_, ?_, ?_, ?_⟩
  · rw [hs, d.apply_append, BlockDevice.apply_cons, BlockDevice.apply_nil, BlockDevice.write_same _ _ (by
        rw [d.apply_canWrite]
        exact h.placed.reliable.canWrite (by omega))]
  · rw [← hj]; exact h.magic
  · rw [← hj]; exact h.mode
  · rw [htl, hbc]; exact h.tail
  · rw [hrec, htl]
    intro i b hi
    rw [slotAt_congr hs hbc]
    exact hlaid i b hi
  · rw [hrec, hlen, htl, hbc, hhd, Nat.add_assoc]
  · rw [hrec, hlen, hbc]; exact hroom
  · intro u hu
    have hgu : GoodRecord j u := by
      rcases mem_append.mp hu with hm | hm
      · exact h.good u hm
      · rw [mem_singleton.mp hm]
        exact hg
    exact ⟨hgu.few, fun r hr' => by
      have := hgu.outside r hr'
      unfold InRegion at this ⊢
      rwa [hs, hc]⟩

theorem recoverCut_same (h : DiskInv hmac d j ts) (old : Journal) {fuel : Nat} (hf : j.sb.blockCount.toNat ≤ fuel) (n : Nat) :
    ∃ j' ts', DiskInv hmac (recoverCut ampleHeap hmac old j.startBlock j.blockCount j.hmacKey fuel d n) j' ts' ∧
      j'.startBlock = j.startBlock ∧ j'.blockCount = j.blockCount ∧ j'.hmacKey = j.hmacKey ∧
      j'.sb.blockCount = j.sb.blockCount ∧ (recoverCut ampleHeap hmac old j.startBlock j.blockCount j.hmacKey fuel d n).apply
        (recoveryWrites j' ts') = d.apply (recoveryWrites j ts) := by
  unfold recoverCut
  rw [(recover_spec h old fuel hf).2]
  rcases recoveryWrites_cut h n with ⟨_, _, hinv⟩ | ⟨htake, hinv⟩
  · exact ⟨j, ts, hinv, rfl, rfl, rfl, rfl, d.apply_redo _ _⟩
  · rw [htake]
    exact ⟨retired j, [], hinv, rfl, rfl, rfl, rfl, rfl⟩

theorem recoverCuts_same (h : DiskInv hmac d j ts) (old : Journal) (fuel : Nat)
    (hf : j.sb.blockCount.toNat ≤ fuel) (cuts : List Nat) : ∃ j' ts', DiskInv hmac
        (cuts.foldl (recoverCut ampleHeap hmac old j.startBlock j.blockCount j.hmacKey fuel) d) j' ts' ∧
      j'.startBlock = j.startBlock ∧ j'.blockCount = j.blockCount ∧ j'.hmacKey = j.hmacKey ∧
      j'.sb.blockCount = j.sb.blockCount ∧ (cuts.foldl (recoverCut ampleHeap hmac old j.startBlock j.blockCount j.hmacKey fuel)
        d).apply (recoveryWrites j' ts') = d.apply (recoveryWrites j ts) := by
  induction cuts generalizing d j ts with
  | nil => exact ⟨j, ts, h, rfl, rfl, rfl, rfl, rfl⟩
  | cons n cuts ih =>
    obtain ⟨j₁, ts₁, h₁, hs, hc, hk, hb, he⟩ := recoverCut_same h old hf n
    obtain ⟨j₂, ts₂, h₂, hs₂, hc₂, hk₂, hb₂, he₂⟩ := ih h₁ (by rw [hb]; exact hf)
    rw [hs, hc, hk] at h₂ he₂
    exact ⟨j₂, ts₂, h₂, hs₂.trans hs, hc₂.trans hc, hk₂.trans hk, hb₂.trans hb, he₂.trans he⟩

/-- Outside the region a recovery leaves what the pending records wrote last. -/
theorem recovered_blocks (h : DiskInv hmac d j ts) {b : Nat} (ho : ¬ InRegion j b) (hb : b < d.blockCount) :
    (d.apply (recoveryWrites j ts)).blocks b = applyWrites d.blocks (ts.flatMap recordWrites) b := by
  rw [d.apply_blocks, applyWrites_filter (by
    intro w _ he
    rw [he]
    exact h.placed.reliable.canWrite hb)]
  unfold recoveryWrites
  split
  · rename_i he
    simp [he]
  · have hr := h.placed.ring
    have hne : b ≠ j.startBlock := by
      intro he
      refine ho ?_
      unfold InRegion
      omega
    rw [applyWrites_append]
    exact applyWrites_other (by simpa using hne)

end CapyOS.Proofs
