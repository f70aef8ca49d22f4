import CapyOS.Lib.Ring
import CapyOS.Proofs.JournalCodec

namespace CapyOS.Proofs
open Lib List
variable {p : Nat} {xs : List Bytes}

/-- The journal's region lies on a device without errors, and its superblock
describes the ring behind block 0 of that region. -/
structure Placed (d : BlockDevice) (j : Journal) : Prop where
  reliable : d.Reliable
  fits : j.startBlock + j.blockCount ≤ d.blockCount
  ring : j.sb.blockCount.toNat + 1 = j.blockCount
  room : 3 ≤ j.sb.blockCount.toNat

def InRegion (j : Journal) (b : Nat) : Prop :=
  j.startBlock ≤ b ∧ b < j.startBlock + j.blockCount

/-- The device block of ring position `p`, counted past the end of the ring. -/
def slotAt (j : Journal) (p : Nat) : Nat := j.startBlock + (1 + p % j.sb.blockCount.toNat)

/-- Blocks stored in consecutive ring positions from `p`. -/
def Laid (d : BlockDevice) (j : Journal) (p : Nat) (bs : List Bytes) : Prop :=
  ∀ i b, bs[i]? = some b → d.blocks (slotAt j (p + i)) = b

section
variable {d : BlockDevice} {j : Journal}

theorem Placed.apply (h : Placed d j) (ws : List Write) : Placed (d.apply ws) j :=
  ⟨d.apply_reliable h.reliable, by simpa using h.fits, h.ring, h.room⟩

theorem Placed.congr {j' : Journal} (h : Placed d j) (hs : j'.startBlock = j.startBlock)
    (hc : j'.blockCount = j.blockCount) (hb : j'.sb.blockCount = j.sb.blockCount) : Placed d j' :=
  ⟨h.reliable, by rw [hs, hc]; exact h.fits, by rw [hb, hc]; exact h.ring, by rw [hb]; exact h.room⟩

theorem Placed.pos (h : Placed d j) : 0 < j.sb.blockCount.toNat := by
  have := h.room
  omega

theorem Placed.blockNo (h : Placed d j) {k : Nat} (hk : k < j.blockCount) : journalBlockNo j k = j.startBlock + k := by
  have := h.fits
  have := d.blockCount_lt
  exact u32_of_lt (by omega)

theorem Placed.slot (h : Placed d j) (p : Nat) : journalBlockNo j (slotBlock (p % j.sb.blockCount.toNat)) = slotAt j p := by
  have hr := h.ring
  have hm := Nat.mod_lt p h.pos
  have hb := j.sb.blockCount.isLt
  have hs : slotBlock (p % j.sb.blockCount.toNat) = 1 + p % j.sb.blockCount.toNat :=
    u32_of_lt (by omega)
  rw [hs, h.blockNo (by omega)]
  rfl

theorem Placed.next (h : Placed d j) (p : Nat) :
    ringNext j.sb (p % j.sb.blockCount.toNat) = (p + 1) % j.sb.blockCount.toNat := by
  have hm := Nat.mod_lt p h.pos
  have hb := j.sb.blockCount.isLt
  unfold ringNext
  rw [u32_of_lt (by omega), Nat.mod_add_mod]

theorem slotAt_mem (h : Placed d j) (p : Nat) : InRegion j (slotAt j p) ∧ slotAt j p ≠ j.startBlock := by
  have hr := h.ring
  have hm := Nat.mod_lt p h.pos
  unfold InRegion slotAt
  omega

theorem Placed.read (h : Placed d j) (p : Nat) : journalReadBlock d j (slotBlock (p % j.sb.blockCount.toNat)) =
      some (d.blocks (slotAt j p)) := by
  have hm := (slotAt_mem h p).1.2
  have hf := h.fits
  unfold journalReadBlock
  rw [h.slot]
  exact blockDeviceRead_of_canRead (h.reliable.canRead (by omega))

theorem slotAt_congr {j' : Journal} (hs : j'.startBlock = j.startBlock)
    (hb : j'.sb.blockCount = j.sb.blockCount) (p : Nat) : slotAt j' p = slotAt j p := by
  simp [slotAt, hs, hb]

/-- Positions less than one turn apart are different blocks. -/
theorem slotAt_ne {p i k : Nat} (hi : i < j.sb.blockCount.toNat) (hk : k < j.sb.blockCount.toNat)
    (h : i ≠ k) : slotAt j (p + i) ≠ slotAt j (p + k) := by
  have := ring_ne (p := p) hi hk h
  unfold slotAt
  omega

theorem laid_nil (p : Nat) : Laid d j p [] := by
  intro i b h
  simp at h

theorem laid_append {xs ys : List Bytes} : Laid d j p (xs ++ ys) ↔ Laid d j p xs ∧ Laid d j (p + xs.length) ys := by
  constructor
  · intro h
    refine ⟨?_, ?_⟩
    · intro i b hi
      have hlt : i < xs.length := (List.getElem?_eq_some_iff.mp hi).1
      exact h i b (by rw [List.getElem?_append_left hlt]; exact hi)
    · intro i b hi
      have := h (xs.length + i) b (by rw [List.getElem?_append_right (by omega)]; simpa using hi)
      rwa [← Nat.add_assoc] at this
  · rintro ⟨hx, hy⟩ i b hi
    by_cases hlt : i < xs.length
    · exact hx i b (by rwa [List.getElem?_append_left hlt] at hi)
    · rw [List.getElem?_append_right (by omega)] at hi
      have := hy (i - xs.length) b hi
      rwa [Nat.add_assoc, Nat.add_sub_cancel' (by omega)] at this

theorem laid_cons {x : Bytes} :
    Laid d j p (x :: xs) ↔ d.blocks (slotAt j p) = x ∧ Laid d j (p + 1) xs := by
  rw [← singleton_append, laid_append]
  constructor
  · rintro ⟨h, ht⟩
    exact ⟨h 0 x rfl, ht⟩
  · rintro ⟨h, ht⟩
    refine ⟨?_, ht⟩
    intro i b hi
    cases i with
    | zero => simpa using h.trans (by simpa using hi)
    | succ i => simp at hi

/-- Only the region's blocks decide what is stored on the ring. -/
theorem Laid.congr {d' : BlockDevice} (h : Laid d j p xs)
    (hb : ∀ i, i < xs.length → d'.blocks (slotAt j (p + i)) = d.blocks (slotAt j (p + i))) : Laid d' j p xs := by
  intro i b hi
  have hlt : i < xs.length := (List.getElem?_eq_some_iff.mp hi).1
  rw [hb i hlt]
  exact h i b hi

theorem Laid.apply_outside {ws : List Write} (h : Laid d j p xs)
    (hp : Placed d j) (ho : ∀ w ∈ ws, ¬ InRegion j w.1) : Laid (d.apply ws) j p xs := by
  apply h.congr
  intro i _
  apply d.apply_other
  intro hm
  obtain ⟨w, hw, he⟩ := List.mem_map.mp hm
  exact ho w hw (he ▸ (slotAt_mem hp _).1)

theorem stagePayload_laid (hp : Placed d j) {payload : List Bytes} (hl : Laid d j p payload)
    (hh : ∀ i, i < payload.length → (p + i) % j.sb.blockCount.toNat ≠ j.sb.head.toNat) :
    stagePayload d j payload.length (p % j.sb.blockCount.toNat) =
      (payload, true, (p + payload.length) % j.sb.blockCount.toNat) := by
  induction payload generalizing p with
  | nil => rfl
  | cons b bs ih =>
    obtain ⟨hb, ht⟩ := laid_cons.mp hl
    have hhead := hh 0 (by simp)
    rw [Nat.add_zero] at hhead
    have hrest := ih ht (fun i hi => by
      have := hh (i + 1) (by simpa using hi)
      rwa [Nat.add_assoc, Nat.add_comm 1 i])
    simp only [length_cons, stagePayload, if_neg hhead, hp.read, hp.next, hrest, hb]
    rw [Nat.add_assoc, Nat.add_comm 1]

theorem legacyApply_laid (hp : Placed d j) {refs : List JournalBlockRef}
    {payload : List Bytes} (hlen : payload.length = refs.length) (hl : Laid d j p payload)
    (hh : ∀ i, i < payload.length → (p + i) % j.sb.blockCount.toNat ≠ j.sb.head.toNat)
    (ho : ∀ r ∈ refs, ¬ InRegion j (u32 r.targetBlock.toNat)) : legacyApply ampleHeap d j refs (p % j.sb.blockCount.toNat) =
      (applyRefs refs payload, (p + payload.length) % j.sb.blockCount.toNat) := by
  induction refs generalizing d p payload with
  | nil =>
    have : payload = [] := List.length_eq_zero_iff.mp hlen
    subst this
    rfl
  | cons r rs ih =>
    cases payload with
    | nil => simp at hlen
    | cons b bs =>
      obtain ⟨hb, ht⟩ := laid_cons.mp hl
      have hhead := hh 0 (by simp)
      rw [Nat.add_zero] at hhead
      have hout : ∀ w ∈ [(u32 r.targetBlock.toNat, b)], ¬ InRegion j w.1 := by
        intro w hw
        rw [List.mem_singleton.mp hw]
        exact ho r mem_cons_self
      have hrest := ih (hp.apply [(u32 r.targetBlock.toNat, b)]) (by simpa using hlen)
        (ht.apply_outside hp hout)
        (fun i hi => by
          have := hh (i + 1) (by simpa using hi)
          rwa [Nat.add_assoc, Nat.add_comm 1 i])
        (fun q hq => ho q (mem_cons_of_mem _ hq))
      simp only [legacyApply, if_neg hhead, ampleHeap_apply, Bool.not_true, Bool.false_eq_true,
        if_false, hp.read, hb, hp.next, hrest, length_cons, applyRefs, zipWith_cons_cons,
        singleton_append, Prod.mk.injEq, true_and]
      rw [Nat.add_assoc, Nat.add_comm 1]

theorem ringWrites_spec (hp : Placed d j) (p : Nat) (bs : List Bytes) : ringWrites j (p % j.sb.blockCount.toNat) bs =
      ((bs.zipIdx).map (fun x => (slotAt j (p + x.2), x.1)), (p + bs.length) % j.sb.blockCount.toNat) := by
  induction bs generalizing p with
  | nil => rfl
  | cons b bs ih =>
    simp only [ringWrites, hp.next, ih, hp.slot, zipIdx_cons, map_cons, Nat.add_zero, length_cons]
    refine Prod.ext ?_ ?_
    · simp only [List.cons.injEq, true_and]
      rw [zipIdx_succ, map_map]
      apply map_congr_left
      intro x _
      simp only [Function.comp_apply]
      rw [Nat.add_assoc, Nat.add_comm 1]
    · simp only
      rw [Nat.add_assoc, Nat.add_comm 1]

end

/-- The payload blocks a transaction holds, in the order they were logged. -/
def payloadOf (t : Transaction) : List Bytes := (List.range t.refs.length).map t.data

@[simp] theorem length_payloadOf (t : Transaction) : (payloadOf t).length = t.refs.length := by
  simp [payloadOf]

/-- The blocks a commit lays on the ring. -/
def recordBlocks (hmac : Hmac) (d : BlockDevice) (j : Journal) (t : Transaction) : List Bytes :=
  metaBlock d t :: payloadOf t ++ [commitBlock ampleHeap hmac d j t]

def recordWrites (t : Transaction) : List Write := applyRefs t.refs (payloadOf t)

/-- What the journal promises to replay: at most 16 blocks, all of them outside
its own region. -/
structure GoodRecord (j : Journal) (t : Transaction) : Prop where
  few : t.refs.length ≤ journalEntryMaxBlocks
  outside : ∀ r ∈ t.refs, ¬ InRegion j (u32 r.targetBlock.toNat)

theorem length_recordBlocks (hmac : Hmac) (d : BlockDevice) (j : Journal) (t : Transaction) :
    (recordBlocks hmac d j t).length = t.refs.length + 2 := by
  simp [recordBlocks]

theorem recordWrites_outside {j : Journal} {t : Transaction} (h : GoodRecord j t) : ∀ w ∈ recordWrites t, ¬ InRegion j w.1 := by
  intro w hw
  obtain ⟨i, hi, he⟩ := getElem_of_mem hw
  have hr : i < t.refs.length := by
    simp only [recordWrites, applyRefs, length_zipWith] at hi
    omega
  rw [← he]
  simp only [recordWrites, applyRefs, getElem_zipWith]
  exact h.outside _ (getElem_mem hr)

/-- The blocks of a record depend on the device only through its block size and
on the journal only through its version and key. -/
theorem recordBlocks_congr (hmac : Hmac) {d d' : BlockDevice} {j j' : Journal} (t : Transaction)
    (hs : d'.blockSize = d.blockSize) (hv : j'.sb.version = j.sb.version)
    (hk : j'.hmacKey = j.hmacKey) : recordBlocks hmac d' j' t = recordBlocks hmac d j t := by
  simp [recordBlocks, metaBlock, commitBlock, journalIsAuthenticated, hs, hv, hk]

variable (hmac : Hmac) {d : BlockDevice} {j : Journal} {t : Transaction}

theorem readHeader_sealBlock (bs : Nat) (h : JournalEntryHeader) (rest : List (Nat × Nat)) :
    ∃ crc, readHeader (sealBlock bs h rest) = { h with checksum := crc } := by
  exact ⟨_, readHeader_pack _ _⟩

theorem metaBlock_header : (readHeader (metaBlock d t)).magic = journalMagic ∧
    (readHeader (metaBlock d t)).type = JournalEntryType.writeMeta.code ∧ (readHeader (metaBlock d t)).sequence = t.sequence ∧
    (readHeader (metaBlock d t)).blockCount = BitVec.ofNat 32 t.refs.length := by
  obtain ⟨crc, h⟩ := readHeader_sealBlock d.blockSize
    { magic := journalMagic, type := JournalEntryType.writeMeta.code, sequence := t.sequence,
      blockCount := BitVec.ofNat 32 t.refs.length, dataSize := t.dataUsed, checksum := 0,
      flags := 0 } (t.refs.flatMap JournalBlockRef.fields)
  unfold metaBlock
  rw [h]
  exact ⟨rfl, rfl, rfl, rfl⟩

theorem readRefs_metaBlock : readRefs (metaBlock d t) t.refs.length = t.refs :=
  readRefs_pack _ _

theorem commitBlock_header : (readHeader (commitBlock ampleHeap hmac d j t)).magic = journalMagic ∧
    (readHeader (commitBlock ampleHeap hmac d j t)).type = JournalEntryType.commit.code ∧
    (readHeader (commitBlock ampleHeap hmac d j t)).sequence = t.sequence := by
  unfold commitBlock
  split
  · obtain ⟨crc, h⟩ := readHeader_sealBlock d.blockSize
      { magic := journalMagic, type := JournalEntryType.commit.code, sequence := t.sequence,
        blockCount := 0, dataSize := 0, checksum := 0, flags := journalEntryFlagHmac }
      ((journalComputeHmac ampleHeap hmac j.hmacKey t.sequence t.refs
        (listBytes (joinBlocks d.blockSize (payloadOf t))
          (u32 (t.refs.length * d.blockSize)))).map (fun b => (1, b.toNat)))
    exact ⟨by rw [← payloadOf]; rw [h], by rw [← payloadOf]; rw [h], by rw [← payloadOf]; rw [h]⟩
  · obtain ⟨crc, h⟩ := readHeader_sealBlock d.blockSize
      { magic := journalMagic, type := JournalEntryType.commit.code, sequence := t.sequence,
        blockCount := 0, dataSize := 0, checksum := 0, flags := 0 } []
    rw [h]
    exact ⟨rfl, rfl, rfl⟩

theorem length_computeHmac (heap : Heap) (key : List Byte) (s : BitVec 64) (refs : List JournalBlockRef) (payload : List Byte) :
    (journalComputeHmac heap hmac key s refs payload).length = journalHmacTagSize := by
  unfold journalComputeHmac
  split
  · simp [truncatedTag]
  · simp [zeroTag]

def commitTag (d : BlockDevice) (j : Journal) (t : Transaction) : List Byte :=
  journalComputeHmac ampleHeap hmac j.hmacKey t.sequence t.refs
    (listBytes (joinBlocks d.blockSize (payloadOf t)) (u32 (t.refs.length * d.blockSize)))

theorem commitBlock_tag (ha : journalIsAuthenticated j = true) :
    journalExtractCommitTag (commitBlock ampleHeap hmac d j t) = commitTag hmac d j t ∧
    (readHeader (commitBlock ampleHeap hmac d j t)).flags = journalEntryFlagHmac := by
  unfold commitBlock
  rw [if_pos ha]
  refine ⟨?_, ?_⟩
  · exact extractCommitTag_pack _ _ (length_computeHmac hmac _ _ _ _ _)
  · obtain ⟨crc, h⟩ := readHeader_sealBlock d.blockSize
      { magic := journalMagic, type := JournalEntryType.commit.code, sequence := t.sequence,
        blockCount := 0, dataSize := 0, checksum := 0, flags := journalEntryFlagHmac }
      ((commitTag hmac d j t).map (fun b => (1, b.toNat)))
    exact congrArg JournalEntryHeader.flags h

/-- The block that starts a record makes replay skip an empty transaction and
apply a non-empty one. -/
theorem replayIteration_meta (heap : Heap) (hp : Placed d j) (hg : GoodRecord j t)
    (hb : d.blocks (slotAt j p) = metaBlock d t) : replayIteration heap hmac d j (p % j.sb.blockCount.toNat) =
      if t.refs = [] then .skip ((p + 1) % j.sb.blockCount.toNat) else if journalIsAuthenticated j then
        authIteration heap hmac d j (readHeader (metaBlock d t)) t.refs ((p + 1) % j.sb.blockCount.toNat) else
        .legacy (legacyApply heap d j t.refs ((p + 1) % j.sb.blockCount.toNat)).1
          (legacyApply heap d j t.refs ((p + 1) % j.sb.blockCount.toNat)).2 := by
  obtain ⟨hm, ht, _, hc⟩ := metaBlock_header (d := d) (t := t)
  have hfew := hg.few
  have hcount : (readHeader (metaBlock d t)).blockCount.toNat = t.refs.length := by
    rw [hc, BitVec.toNat_ofNat]
    exact Nat.mod_eq_of_lt (by simp only [journalEntryMaxBlocks] at hfew; omega)
  have hzero : (readHeader (metaBlock d t)).blockCount = 0#32 ↔ t.refs = [] := by
    rw [← length_eq_zero_iff, ← hcount, BitVec.toNat_eq]
    rfl
  have hn : ¬ j.sb.blockCount = 0#32 := by
    intro h
    have := hp.pos
    simp [h] at this
  have htype : JournalEntryType.writeMeta.code ≠ JournalEntryType.commit.code := by decide
  simp only [replayIteration, hp.read, hb, hm, ne_eq, not_true_eq_false, if_false, if_neg hn, ht,
    if_neg htype, true_and, hzero, hp.next, hcount, Nat.min_eq_left hfew, readRefs_metaBlock]
  by_cases he : t.refs = []
  · rw [if_neg (not_not_intro he), if_pos he]
  · rw [if_pos he, if_neg he]
    cases journalIsAuthenticated j <;> simp

theorem replayIteration_commit (hp : Placed d j) (hb : d.blocks (slotAt j p) = commitBlock ampleHeap hmac d j t) :
    replayIteration ampleHeap hmac d j (p % j.sb.blockCount.toNat) = .skip ((p + 1) % j.sb.blockCount.toNat) := by
  obtain ⟨hm, ht, _⟩ := commitBlock_header hmac (d := d) (j := j) (t := t)
  have hn : ¬ j.sb.blockCount = 0#32 := by
    intro h
    have := hp.pos
    simp [h] at this
  simp only [replayIteration, hp.read, hb, hm, ne_eq, not_true_eq_false, if_false, if_neg hn, ht, if_true, hp.next]

/-- A record verifies and is applied as a whole when the tag replay computes is
the one its commit embedded, with whatever keyed hash and memory. -/
theorem authIteration_verifies {hmac' : Hmac} (heap : Heap) (hp : Placed d j) (ha : journalIsAuthenticated j = true)
    (hl : Laid d j p (payloadOf t ++ [commitBlock ampleHeap hmac' d j t]))
    (hh : ∀ i, i < t.refs.length + 1 → (p + i) % j.sb.blockCount.toNat ≠ j.sb.head.toNat)
    (ht : journalComputeHmac heap hmac j.hmacKey t.sequence t.refs
      (listBytes (joinBlocks d.blockSize (payloadOf t)) (u32 (t.refs.length * d.blockSize))) = commitTag hmac' d j t) :
    authIteration heap hmac d j (readHeader (metaBlock d t)) t.refs (p % j.sb.blockCount.toNat) =
      .authentic ⟨t.sequence, t.refs, payloadOf t, commitTag hmac' d j t⟩
        ((p + (t.refs.length + 1)) % j.sb.blockCount.toNat) := by
  obtain ⟨hpay, hcom⟩ := laid_append.mp hl
  obtain ⟨hcb, _⟩ := laid_cons.mp hcom
  have hstage := stagePayload_laid hp hpay (fun i hi => hh i (by simp at hi; omega))
  rw [length_payloadOf] at hstage hcb
  obtain ⟨_, _, hs, _⟩ := metaBlock_header (d := d) (t := t)
  obtain ⟨hcm, hct, hcs⟩ := commitBlock_header hmac' (d := d) (j := j) (t := t)
  obtain ⟨htag, hflags⟩ := commitBlock_tag hmac' (d := d) (t := t) ha
  have hlast := hh t.refs.length (by omega)
  have hflag : ¬ journalEntryFlagHmac &&& journalEntryFlagHmac = 0#32 := by decide
  have heq : journalConstantTimeEq (commitTag hmac' d j t) (commitTag hmac' d j t) = true :=
    (constantTimeEq_iff rfl).mpr rfl
  simp only [authIteration, hstage, length_payloadOf, hp.read, hcb, hlast, hp.next]
  simp only [hcm, hct, hcs, hs, hflags, htag, hflag, ne_eq, not_true_eq_false, or_self, if_false,
    bne_self_eq_false, Bool.not_true, Bool.or_self, Bool.false_eq_true, ht, heq]
  rw [Nat.add_assoc]

theorem replayLoop_laid (hp : Placed d j) (ts : List Transaction) (p fuel : Nat)
    (hl : Laid d j p (ts.flatMap (recordBlocks hmac d j))) (hh : j.sb.head.toNat =
      (p + (ts.flatMap (recordBlocks hmac d j)).length) % j.sb.blockCount.toNat)
    (hroom : (ts.flatMap (recordBlocks hmac d j)).length < j.sb.blockCount.toNat)
    (hg : ∀ t ∈ ts, GoodRecord j t) (hf : 2 * ts.length + 1 ≤ fuel) :
    replayLoop ampleHeap hmac j fuel d (p % j.sb.blockCount.toNat) = (ts.flatMap recordWrites, .finished true) := by
  induction ts generalizing d p fuel with
  | nil =>
    obtain ⟨f, rfl⟩ : ∃ f, fuel = f + 1 := ⟨fuel - 1, by simp at hf; omega⟩
    have he : p % j.sb.blockCount.toNat = j.sb.head.toNat := by simpa using hh.symm
    simp [replayLoop, he]
  | cons t ts ih =>
    obtain ⟨f, rfl⟩ : ∃ f, fuel = f + 2 := ⟨fuel - 2, by simp at hf; omega⟩
    simp only [flatMap_cons, length_append, length_recordBlocks, length_cons]
      at hl hh hroom hf ⊢
    generalize hrest : (ts.flatMap (recordBlocks hmac d j)).length = rest at hh hroom
    -- no position inside the record is the head
    have hne : ∀ i, i < t.refs.length + 2 →
        (p + i) % j.sb.blockCount.toNat ≠ j.sb.head.toNat := by
      intro i hi
      rw [hh]
      exact ring_ne (by omega) (by omega) (by omega)
    have hgt := hg t mem_cons_self
    obtain ⟨hrec, hnext⟩ := laid_append.mp hl
    rw [length_recordBlocks] at hnext
    obtain ⟨hmeta, hbody⟩ := laid_cons.mp hrec
    obtain ⟨hpay, hcom⟩ := laid_append.mp hbody
    obtain ⟨hcb, _⟩ := laid_cons.mp hcom
    rw [length_payloadOf] at hcb
    have hstart := hne 0 (by omega)
    have hend := hne (t.refs.length + 1) (by omega)
    rw [Nat.add_zero] at hstart
    have hout := recordWrites_outside hgt
    -- the remaining records, on the device the record's own writes have made
    have htail : ∀ g, 2 * ts.length + 1 ≤ g →
        replayLoop ampleHeap hmac j g (d.apply (recordWrites t))
          ((p + (t.refs.length + 2)) % j.sb.blockCount.toNat) =
        (ts.flatMap recordWrites, .finished true) := by
      intro g hgf
      have hcongr : recordBlocks hmac (d.apply (recordWrites t)) j = recordBlocks hmac d j :=
        funext (fun u => recordBlocks_congr hmac u (by simp) rfl rfl)
      refine ih (hp.apply _) (p + (t.refs.length + 2)) g ?_ ?_ ?_
        (fun u hu => hg u (mem_cons_of_mem _ hu)) hgf
      · simpa only [hcongr] using hnext.apply_outside hp hout
      · simpa only [hcongr, hrest, Nat.add_assoc] using hh
      · simp only [hcongr, hrest]
        omega
    rw [replayLoop, if_neg hstart, replayIteration_meta hmac _ hp hgt hmeta]
    by_cases hempty : t.refs = []
    · have hlen : t.refs.length = 0 := by simp [hempty]
      rw [hlen] at hcb hend
      have hw : recordWrites t = [] := by simp [recordWrites, applyRefs, hempty]
      rw [if_pos hempty]
      simp only
      rw [replayLoop, if_neg hend, replayIteration_commit hmac hp hcb]
      simp only
      have := htail f (by omega)
      simpa [hw, hlen] using this
    · rw [if_neg hempty]
      by_cases ha : journalIsAuthenticated j = true
      · rw [if_pos ha, authIteration_verifies hmac _ hp ha hbody (fun i hi => by
          have := hne (1 + i) (by omega)
          rwa [← Nat.add_assoc] at this) rfl]
        have hpos : p + 1 + (t.refs.length + 1) = p + (t.refs.length + 2) := by omega
        have := htail (f + 1) (by omega)
        simp only [JournalEntry.writes, hpos]
        rw [recordWrites] at this
        simp only [this, recordWrites]
      · rw [if_neg ha]
        have hleg := legacyApply_laid hp (length_payloadOf t) hpay
          (fun i hi => by
            have := hne (1 + i) (by simp at hi; omega)
            rwa [← Nat.add_assoc] at this) hgt.outside
        rw [length_payloadOf] at hleg
        have hpos : p + 1 + t.refs.length = p + (t.refs.length + 1) := by omega
        rw [hpos] at hleg hcb
        simp only [hleg]
        have hcb' : (d.apply (recordWrites t)).blocks (slotAt j (p + (t.refs.length + 1))) =
            commitBlock ampleHeap hmac (d.apply (recordWrites t)) j t := by
          rw [d.apply_other (fun hm => by
            obtain ⟨w, hw, he⟩ := List.mem_map.mp hm
            exact hout w hw (he ▸ (slotAt_mem hp _).1)), hcb]
          simp [commitBlock]
        rw [recordWrites] at hcb' htail
        rw [replayLoop, if_neg hend, replayIteration_commit hmac (hp.apply _) hcb']
        simp only
        rw [show p + (t.refs.length + 1) + 1 = p + (t.refs.length + 2) by omega, htail f (by omega)]
        rfl

end CapyOS.Proofs
