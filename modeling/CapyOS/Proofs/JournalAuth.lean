import CapyOS.Proofs.JournalRuns

namespace CapyOS.Proofs
open Lib List

/-- The ring position `k` steps after `pos`. -/
def advance (sb : JournalSuperblock) (pos : Nat) : Nat → Nat
  | 0 => pos
  | k + 1 => advance sb (ringNext sb pos) k

def IsEntryHeader (b : Bytes) : Prop :=
  (readHeader b).magic = journalMagic ∧
    (readHeader b).type = JournalEntryType.writeMeta.code ∧ (readHeader b).blockCount ≠ 0#32

/-- The entry `e` is what the device holds at ring position `pos`: its header,
every block of its payload and a commit block of the same sequence that carries
a tag. -/
structure EntryAt (d : BlockDevice) (j : Journal) (pos : Nat) (e : JournalEntry) (next : Nat) :
    Prop where
  header : ∃ b, journalReadBlock d j (slotBlock pos) = some b ∧ IsEntryHeader b ∧
    e.sequence = (readHeader b).sequence ∧
    e.refs = readRefs b (min (readHeader b).blockCount.toNat journalEntryMaxBlocks)
  complete : e.payload.length = e.refs.length
  payload : ∀ i (hi : i < e.payload.length),
    journalReadBlock d j (slotBlock (advance j.sb pos (i + 1))) = some e.payload[i]
  commit : ∃ b, journalReadBlock d j (slotBlock (advance j.sb pos (e.refs.length + 1))) = some b ∧
    (readHeader b).magic = journalMagic ∧
    (readHeader b).type = JournalEntryType.commit.code ∧
    (readHeader b).sequence = e.sequence ∧
    (readHeader b).flags &&& journalEntryFlagHmac ≠ 0#32 ∧
    e.storedTag = journalExtractCommitTag b
  next_eq : next = advance j.sb pos (e.refs.length + 2)

def Verified (hmac : Hmac) (bs : Nat) (j : Journal) (e : JournalEntry) : Prop :=
  e.storedTag = truncatedTag (hmac j.hmacKey (hmacMessage e.sequence e.refs
    (listBytes (joinBlocks bs e.payload) (e.payload.length * bs))))

/-- The entries applied from a position on. An entry is applied whole and only
when it verifies; at one that does not, only `stop` is left. -/
inductive AuthWalk (hmac : Hmac) (j : Journal) : BlockDevice → Nat → List JournalEntry → Prop where
  | stop (d : BlockDevice) (pos : Nat) : AuthWalk hmac j d pos []
  | skip {d : BlockDevice} {pos : Nat} {b : Bytes} {es : List JournalEntry}
      (read : journalReadBlock d j (slotBlock pos) = some b) (foreign : ¬ IsEntryHeader b)
      (rest : AuthWalk hmac j d (ringNext j.sb pos) es) : AuthWalk hmac j d pos es
  | apply {d : BlockDevice} {pos next : Nat} {e : JournalEntry} {es : List JournalEntry}
      (entry : EntryAt d j pos e next) (verified : Verified hmac d.blockSize j e)
      (rest : AuthWalk hmac j (d.apply e.writes) next es) : AuthWalk hmac j d pos (e :: es)

def AppliesOnlyVerified (hmac : Hmac) (d : BlockDevice) (j : Journal) (ws : List Write) : Prop :=
  ∃ es last, AuthWalk hmac j d j.sb.tail.toNat es ∧ ws = es.flatMap JournalEntry.writes ++ last ∧
    ∀ w ∈ last, w.1 = journalBlockNo j 0

def TagMemory (heap : Heap) (bs : Nat) : Prop :=
  heap bs = true → heap (journalEntryMaxBlocks * bs) = true →
    ∀ n, 1 ≤ n → n ≤ journalEntryMaxBlocks → heap (21 + 16 * n + n * bs) = true ∧ n * bs < 2 ^ 32

section
variable {heap : Heap} {hmac : Hmac} {d : BlockDevice} {j : Journal}

theorem advance_succ (sb : JournalSuperblock) (pos k : Nat) : advance sb pos (k + 1) = ringNext sb (advance sb pos k) := by
  induction k generalizing pos with
  | zero => rfl
  | succ k ih => exact ih (ringNext sb pos)

theorem stagePayload_complete {n p : Nat} (hok : (stagePayload d j n p).2.1 = true)
    (hlen : (stagePayload d j n p).1.length = n) : (∀ i (hi : i < (stagePayload d j n p).1.length),
      journalReadBlock d j (slotBlock (advance j.sb p i)) = some ((stagePayload d j n p).1.get ⟨i, hi⟩)) ∧
    (stagePayload d j n p).2.2 = advance j.sb p n := by
  induction n generalizing p with
  | zero => exact ⟨by simp [stagePayload], rfl⟩
  | succ n ih =>
    by_cases hh : p = j.sb.head.toNat
    · simp [stagePayload, hh] at hlen
    · cases hr : journalReadBlock d j (slotBlock p) with
      | none => simp [stagePayload, hh, hr] at hlen
      | some b =>
        have hs : stagePayload d j (n + 1) p =
            (b :: (stagePayload d j n (ringNext j.sb p)).1, (stagePayload d j n (ringNext j.sb p)).2) := by
          simp [stagePayload, hh, hr]
        rw [hs] at hok hlen ⊢
        obtain ⟨hread, hpos⟩ := ih hok (by simpa using hlen)
        refine ⟨?_, hpos⟩
        intro i hi
        cases i with
        | zero => exact hr
        | succ i => exact hread i (by simpa using hi)

theorem authIteration_authentic {hdr : JournalEntryHeader} {refs : List JournalBlockRef} {p next : Nat} {e : JournalEntry}
    (h : authIteration heap hmac d j hdr refs p = .authentic e next) :
    e.sequence = hdr.sequence ∧ e.refs = refs ∧ e.payload.length = refs.length ∧ (∀ i (hi : i < e.payload.length),
      journalReadBlock d j (slotBlock (advance j.sb p i)) = some e.payload[i]) ∧
    (∃ b, journalReadBlock d j (slotBlock (advance j.sb p refs.length)) = some b ∧ (readHeader b).magic = journalMagic ∧
      (readHeader b).type = JournalEntryType.commit.code ∧ (readHeader b).sequence = hdr.sequence ∧
      (readHeader b).flags &&& journalEntryFlagHmac ≠ 0#32 ∧ e.storedTag = journalExtractCommitTag b) ∧
    next = advance j.sb p (refs.length + 1) ∧ e.storedTag = journalComputeHmac heap hmac j.hmacKey hdr.sequence refs
      (listBytes (joinBlocks d.blockSize e.payload) (u32 (e.payload.length * d.blockSize))) := by
  unfold authIteration at h
  simp only at h
  split at h
  · cases h
  · rename_i hstaged
    simp only [Bool.or_eq_true, Bool.not_eq_true', bne_iff_ne, ne_eq, not_or, Bool.not_eq_false, not_not] at hstaged
    obtain ⟨hread, hpos⟩ := stagePayload_complete hstaged.1 hstaged.2
    split at h
    · cases h
    · cases hc : journalReadBlock d j (slotBlock (stagePayload d j refs.length p).2.2) with
      | none => simp [hc] at h
      | some b =>
        simp only [hc] at h
        split at h
        · cases h
        · rename_i hhdr
          simp only [ne_eq, not_or, not_not] at hhdr
          split at h
          · cases h
          · rename_i htag
            simp only [ReplayIteration.authentic.injEq] at h
            obtain ⟨rfl, rfl⟩ := h
            have hlen : (journalExtractCommitTag b).length = (journalComputeHmac heap hmac
                j.hmacKey hdr.sequence refs (listBytes (joinBlocks d.blockSize
                  (stagePayload d j refs.length p).1)
                  (u32 ((stagePayload d j refs.length p).1.length * d.blockSize)))).length := by
              rw [length_computeHmac]
              simp [journalExtractCommitTag]
            have htag := (constantTimeEq_iff hlen).mp (by simpa using htag)
            rw [hpos] at hc
            exact ⟨rfl, rfl, hstaged.2, hread, ⟨b, hc, hhdr.1, hhdr.2.1, hhdr.2.2.1, hhdr.2.2.2, rfl⟩,
              by rw [hpos, advance_succ], htag⟩

theorem length_hmacMessage (sequence : BitVec 64) (refs : List JournalBlockRef) (payload : List Byte) :
    (hmacMessage sequence refs payload).length = 21 + 16 * refs.length + payload.length := by
  have hrefs : (refs.flatMap JournalBlockRef.bytes).length = 16 * refs.length := by
    induction refs with
    | nil => rfl
    | cons r rs ih =>
      simp only [flatMap_cons, length_append, ih, length_cons]
      simp only [JournalBlockRef.bytes, length_listBytes]
      omega
  simp only [hmacMessage, length_append, length_listBytes, hrefs]
  rfl

theorem authIteration_cases (heap : Heap) (hmac : Hmac) (d : BlockDevice) (j : Journal)
    (hdr : JournalEntryHeader) (refs : List JournalBlockRef) (p : Nat) : authIteration heap hmac d j hdr refs p = .stop false ∨
      ∃ e next, authIteration heap hmac d j hdr refs p = .authentic e next := by
  unfold authIteration
  simp only
  split
  · exact .inl rfl
  · split
    · exact .inl rfl
    · cases hc : journalReadBlock d j (slotBlock (stagePayload d j refs.length p).2.2) with
      | none => exact .inl rfl
      | some b =>
        simp only
        split
        · exact .inl rfl
        · split
          · exact .inl rfl
          · exact .inr ⟨_, _, rfl⟩

def PassSound (heap : Heap) (hmac : Hmac) (d : BlockDevice) (j : Journal) (pos : Nat) :
    ReplayIteration → Prop
  | .stop _ => True
  | .trap => True
  | .skip p => p = ringNext j.sb pos ∧
      ∃ b, journalReadBlock d j (slotBlock pos) = some b ∧ ¬ IsEntryHeader b
  | .legacy _ _ => False
  | .authentic e p => EntryAt d j pos e p ∧ 1 ≤ e.refs.length ∧
      e.refs.length ≤ journalEntryMaxBlocks ∧
      e.storedTag = journalComputeHmac heap hmac j.hmacKey e.sequence e.refs
        (listBytes (joinBlocks d.blockSize e.payload) (u32 (e.payload.length * d.blockSize)))

theorem authIteration_sound {pos : Nat} {b : Bytes}
    (hr : journalReadBlock d j (slotBlock pos) = some b) (he : IsEntryHeader b) :
    PassSound heap hmac d j pos (authIteration heap hmac d j (readHeader b)
      (readRefs b (min (readHeader b).blockCount.toNat journalEntryMaxBlocks)) (ringNext j.sb pos)) := by
  have hpos : 0 < (readHeader b).blockCount.toNat := by
    have := he.2.2
    rw [ne_eq, BitVec.toNat_eq] at this
    exact Nat.pos_of_ne_zero this
  have hcount : (readRefs b (min (readHeader b).blockCount.toNat journalEntryMaxBlocks)).length =
      min (readHeader b).blockCount.toNat journalEntryMaxBlocks := by simp [readRefs]
  generalize hhdr : readHeader b = hdr at hpos hcount ⊢
  generalize hread : readRefs b (min hdr.blockCount.toNat journalEntryMaxBlocks) = refs at hcount ⊢
  rcases authIteration_cases heap hmac d j hdr refs (ringNext j.sb pos) with h | ⟨e, next, h⟩
  · rw [h]
    exact True.intro
  · obtain ⟨hseq, hrefs, hlen, hblocks, hcommit, hnext, htag⟩ := authIteration_authentic h
    rw [h]
    rw [← hrefs] at hlen hcommit hnext htag
    rw [← hseq] at hcommit htag
    subst hhdr hread
    rw [← hrefs] at hcount
    refine ⟨⟨⟨b, hr, he, hseq, hrefs⟩, hlen, hblocks, hcommit, hnext⟩, ?_, ?_, htag⟩
    · simp only [journalEntryMaxBlocks] at hcount
      omega
    · omega

theorem replayIteration_sound (heap : Heap) (hmac : Hmac) (d : BlockDevice) (ha : journalIsAuthenticated j = true) (pos : Nat) :
    PassSound heap hmac d j pos (replayIteration heap hmac d j pos) := by
  unfold replayIteration
  cases hr : journalReadBlock d j (slotBlock pos) with
  | none => exact True.intro
  | some b =>
    simp only
    by_cases hm : (readHeader b).magic ≠ journalMagic
    · rw [if_pos hm]
      exact True.intro
    · by_cases hz : j.sb.blockCount = 0#32
      · rw [if_neg hm, if_pos hz]
        exact True.intro
      · by_cases hc : (readHeader b).type = JournalEntryType.commit.code
        · rw [if_neg hm, if_neg hz, if_pos hc]
          refine ⟨rfl, b, hr, ?_⟩
          intro he
          exact absurd (he.2.1.symm.trans hc) (by decide)
        · by_cases he : (readHeader b).type = JournalEntryType.writeMeta.code ∧
              (readHeader b).blockCount ≠ 0#32
          · rw [if_neg hm, if_neg hz, if_neg hc, if_pos he]
            simp only [ha, Bool.not_true, Bool.false_eq_true, if_false]
            exact authIteration_sound hr ⟨not_not.mp hm, he⟩
          · rw [if_neg hm, if_neg hz, if_neg hc, if_neg he]
            exact ⟨rfl, b, hr, fun hh => he hh.2⟩

theorem verified_of_computed {e : JournalEntry} {pos next : Nat} (he : EntryAt d j pos e next)
    (hmem : heap (21 + 16 * e.refs.length + e.refs.length * d.blockSize) = true ∧ e.refs.length * d.blockSize < 2 ^ 32)
    (htag : e.storedTag = journalComputeHmac heap hmac j.hmacKey e.sequence e.refs
      (listBytes (joinBlocks d.blockSize e.payload) (u32 (e.payload.length * d.blockSize)))) :
    Verified hmac d.blockSize j e := by
  unfold Verified
  rw [htag, he.complete, u32_of_lt hmem.2]
  unfold journalComputeHmac
  rw [length_listBytes, if_pos hmem.1]

theorem replayLoop_walk (hmac : Hmac) (ha : journalIsAuthenticated j = true) {bs : Nat}
    (hmem : ∀ n, 1 ≤ n → n ≤ journalEntryMaxBlocks →
      heap (21 + 16 * n + n * bs) = true ∧ n * bs < 2 ^ 32) (fuel : Nat) (hbs : d.blockSize = bs) (pos : Nat) :
    ∃ es, AuthWalk hmac j d pos es ∧ (replayLoop heap hmac j fuel d pos).1 = es.flatMap JournalEntry.writes := by
  induction fuel generalizing d pos with
  | zero => exact ⟨[], .stop d pos, rfl⟩
  | succ fuel ih =>
    unfold replayLoop
    by_cases hh : pos = j.sb.head.toNat
    · rw [if_pos hh]
      exact ⟨[], .stop d pos, rfl⟩
    · rw [if_neg hh]
      have hs := replayIteration_sound heap hmac d ha pos
      cases hi : replayIteration heap hmac d j pos with
      | stop ok => exact ⟨[], .stop d pos, rfl⟩
      | trap => exact ⟨[], .stop d pos, rfl⟩
      | skip p =>
        rw [hi] at hs
        obtain ⟨rfl, b, hr, hf⟩ := hs
        obtain ⟨es, hw, he⟩ := ih hbs (ringNext j.sb pos)
        exact ⟨es, .skip hr hf hw, he⟩
      | legacy ws p =>
        rw [hi] at hs
        exact hs.elim
      | authentic e p =>
        rw [hi] at hs
        obtain ⟨hentry, h1, h16, htag⟩ := hs
        obtain ⟨es, hw, he⟩ := ih (d := d.apply e.writes) (by simpa using hbs) p
        refine ⟨e :: es, .apply hentry ?_ hw, ?_⟩
        · refine verified_of_computed hentry ?_ htag
          rw [hbs]
          exact hmem _ h1 h16
        · simp only [he, flatMap_cons]

/-- With that memory a replay applies verified entries only. -/
theorem replay_verified (hmac : Hmac) (ha : journalIsAuthenticated j = true) (hm : TagMemory heap d.blockSize)
    (fuel : Nat) : AppliesOnlyVerified hmac d j (journalReplay heap hmac fuel d j).writes := by
  have hnone : AppliesOnlyVerified hmac d j [] := ⟨[], [], .stop _ _, rfl, by simp⟩
  unfold journalReplay
  by_cases hn : journalNeedsReplay j = true
  · simp only [hn, ha, Bool.not_true, Bool.false_eq_true, if_false, Bool.true_and]
    split
    · exact hnone
    · by_cases hb : heap d.blockSize = true
      · by_cases h16 : heap (journalEntryMaxBlocks * d.blockSize) = true
        · simp only [hb, h16, Bool.not_true, Bool.false_eq_true, if_false]
          obtain ⟨es, hw, he⟩ := replayLoop_walk hmac (d := d) ha (hm hb h16) fuel rfl
            j.sb.tail.toNat
          split
          · refine ⟨es, [_], hw, by rw [he], ?_⟩
            simp
          · exact ⟨es, [], hw, by simpa using he, by simp⟩
        · simp only [hb, h16, Bool.not_true, Bool.not_false, Bool.false_eq_true, if_false, if_true]
          exact hnone
      · simp only [hb, Bool.not_false, if_true]
        exact hnone
  · simp only [hn, Bool.not_false, if_true]
    exact hnone

theorem advance_mod (hp : Placed d j) (p k : Nat) :
    advance j.sb (p % j.sb.blockCount.toNat) k = (p + k) % j.sb.blockCount.toNat := by
  induction k generalizing p with
  | zero => rfl
  | succ k ih =>
    rw [advance, hp.next, ih]
    congr 1
    omega

theorem authWalk_refuses {hmac' : Hmac} {t : Transaction} {es : List JournalEntry}
    (h : DiskInv hmac' d j [t]) (ha : journalIsAuthenticated j = true) (hne : t.refs ≠ [])
    (hbad : ∀ e : JournalEntry, e.refs.length = t.refs.length →
      e.payload.length = t.refs.length → e.storedTag = commitTag hmac' d j t → ¬ Verified hmac d.blockSize j e)
    (hw : AuthWalk hmac j d j.sb.tail.toNat es) : es = [] := by
  have hl := h.laid
  simp only [flatMap_cons, flatMap_nil, append_nil] at hl
  obtain ⟨hmeta, hbody⟩ := laid_cons.mp hl
  obtain ⟨_, hcom⟩ := laid_append.mp hbody
  obtain ⟨hcb, _⟩ := laid_cons.mp hcom
  rw [length_payloadOf] at hcb
  have hfew := (h.good t (by simp)).few
  have htail : j.sb.tail.toNat = j.sb.tail.toNat % j.sb.blockCount.toNat :=
    (Nat.mod_eq_of_lt h.tail).symm
  obtain ⟨hm, hty, _, hcount⟩ := metaBlock_header (d := d) (t := t)
  have hn : (BitVec.ofNat 32 t.refs.length).toNat = t.refs.length := by
    rw [BitVec.toNat_ofNat]
    exact Nat.mod_eq_of_lt (by simp only [journalEntryMaxBlocks] at hfew; omega)
  have hread : journalReadBlock d j (slotBlock j.sb.tail.toNat) = some (metaBlock d t) := by
    rw [htail, h.placed.read, hmeta]
  have hentry : IsEntryHeader (metaBlock d t) := by
    refine ⟨hm, hty, ?_⟩
    rw [hcount]
    intro hz
    rw [hz] at hn
    exact hne (List.length_eq_zero_iff.mp hn.symm)
  cases hw with
  | stop => rfl
  | skip read foreign rest =>
    rw [hread] at read
    exact absurd ((Option.some.inj read) ▸ hentry) foreign
  | apply entry verified rest =>
    exfalso
    obtain ⟨b, hb, _, _, hrefs⟩ := entry.header
    rw [hread] at hb
    have hb := Option.some.inj hb
    subst hb
    rw [hcount, hn, Nat.min_eq_left hfew, readRefs_metaBlock] at hrefs
    obtain ⟨c, hc, _, _, _, _, htag⟩ := entry.commit
    rw [hrefs, htail, advance_mod h.placed, h.placed.read] at hc
    have hc := Option.some.inj hc
    rw [show j.sb.tail.toNat + (t.refs.length + 1) = j.sb.tail.toNat + 1 + t.refs.length by omega, hcb] at hc
    rw [← hc, (commitBlock_tag hmac' ha).1] at htag
    exact hbad _ (by rw [hrefs]) (by rw [entry.complete, hrefs]) htag verified

end

def lengthMac (n : Nat) : Hmac := fun _ m => if m.length = n then fun _ => 1#8 else zeros

def blankTransaction (n : Nat) : Transaction :=
  { sequence := 1, refs := List.replicate n ⟨40#64, 0, 0⟩, data := fun _ => zeros,
    hasBuffer := true, dataUsed := 0, committed := false }

def blankDevice (bs : Nat) (h : bs < 2 ^ 32) : BlockDevice :=
  ⟨bs, 64, fun _ => zeros, fun _ => false, fun _ => false, h, sixtyFour_lt⟩

theorem zeroTagged_record (bs n : Nat) (hbs : bs < 2 ^ 32) (hn : n ≤ journalEntryMaxBlocks) :
    ∃ d j, DiskInv (fun _ _ => zeros) d j [blankTransaction n] ∧ d.blockSize = bs ∧
      j.startBlock = 1 ∧ j.hmacKey = [1#8] ∧ j.sb.version = journalVersionAuth := by
  have hformat : (formatAs ampleHeap (blankDevice bs hbs) blankJournal 1 32 [1#8]).rc = 0 := rfl
  obtain ⟨hinv, hs, hb, hk⟩ := WalInv.formatted (fun _ _ => zeros) (fun _ => ⟨rfl, rfl⟩)
    (by simp [blankDevice]) hformat
  have hring : (walStart (blankDevice bs hbs) (formatAs ampleHeap (blankDevice bs hbs)
      blankJournal 1 32 [1#8])).journal.sb.blockCount.toNat = 31 := rfl
  have hgood : GoodRecord (walStart (blankDevice bs hbs) (formatAs ampleHeap (blankDevice bs hbs)
      blankJournal 1 32 [1#8])).journal (blankTransaction n) := by
    refine ⟨by simpa [blankTransaction] using hn, ?_⟩
    intro r hr
    rw [eq_of_mem_replicate hr]
    simp only [InRegion, walStart, hs, hb]
    decide
  have hlen : (blankTransaction n).refs.length = n := by simp [blankTransaction]
  have hfull := commit_complete hinv.disk (T := 0) rfl hgood (by
    rw [hring, hlen]
    simp only [journalEntryMaxBlocks] at hn
    omega)
  exact ⟨_, _, hfull, by simp [walStart, blankDevice], rfl, rfl, rfl⟩

def OpenedAuthentic (heap : Heap) (d : BlockDevice) (j : Journal) : Prop :=
  ∃ old startBlock blockCount key,
    (journalInit heap d old startBlock blockCount).1 = 0 ∧
    journalSetHmacKey (journalInit heap d old startBlock blockCount).2 key = (0, j) ∧
    0 < key.length ∧ j.sb.version = journalVersionAuth

theorem OpenedAuthentic.authenticated {heap : Heap} {d : BlockDevice} {j : Journal}
    (h : OpenedAuthentic heap d j) : journalIsAuthenticated j = true := by
  obtain ⟨old, startBlock, blockCount, key, _, hset, hpos, hv⟩ := h
  have hk : j.hmacKey = key := by
    unfold journalSetHmacKey at hset
    split at hset
    · omega
    · split at hset
      · simp at hset
      · simp only [Prod.mk.injEq, true_and] at hset
        rw [← hset]
  simp [journalIsAuthenticated, hv, hk, hpos]

section
variable {heap : Heap} {hmac hmac' : Hmac} {d : BlockDevice} {j : Journal} {t : Transaction}

theorem DiskInv.openedAuthentic (h : DiskInv hmac d j [t]) (hb : heap d.blockSize = true)
    (hv : j.sb.version = journalVersionAuth) : OpenedAuthentic heap d (opened j) := by
  have hmode : 0 < j.hmacKey.length ∧ j.hmacKey.length ≤ journalHmacKeyMax := by
    rcases h.mode with hm | hm
    · rw [hv] at hm
      exact absurd hm.1 (by decide)
    · exact hm.2
  refine ⟨blankJournal, j.startBlock, j.blockCount, j.hmacKey, ?_, ?_, hmode.1, hv⟩
  · rw [init_opens h _ hb]
  · rw [init_opens h _ hb]
    unfold journalSetHmacKey
    rw [if_neg (by omega), if_neg (by omega)]
    rfl

theorem DiskInv.reopened (h : DiskInv hmac d j [t]) : DiskInv hmac d (opened j) [t] :=
  { h with
    placed := h.placed.congr rfl rfl rfl
    good := fun u hu => ⟨(h.good u hu).few, (h.good u hu).outside⟩ }

theorem replay_first_pass (h : DiskInv hmac' d j [t]) (hv : j.sb.version = journalVersionAuth)
    (hb : heap d.blockSize = true) (h16 : heap (journalEntryMaxBlocks * d.blockSize) = true) (hne : t.refs ≠ [])
    (ht : journalComputeHmac heap hmac j.hmacKey t.sequence t.refs
      (listBytes (joinBlocks d.blockSize (payloadOf t)) (u32 (t.refs.length * d.blockSize))) = commitTag hmac' d j t) :
    (journalReplay heap hmac 1 d (opened j)).writes = recordWrites t := by
  have hauth := (h.openedAuthentic hb hv).authenticated
  have hl := h.laid
  have hhead := h.head
  have hroom := h.room
  have hneed : journalNeedsReplay (opened j) = true := by
    have : j.sb.head ≠ j.sb.tail := fun he => absurd (h.clean_iff.mp he) (by simp)
    simp [journalNeedsReplay, opened, this]
  simp only [flatMap_cons, flatMap_nil, append_nil, length_recordBlocks]
    at hl hhead hroom
  obtain ⟨hmeta, hbody⟩ := laid_cons.mp hl
  have hne' : ∀ i, i < t.refs.length + 2 →
      (j.sb.tail.toNat + i) % j.sb.blockCount.toNat ≠ j.sb.head.toNat := by
    intro i hi
    rw [hhead]
    exact ring_ne (by omega) (by omega) (by omega)
  have hstart := hne' 0 (by omega)
  have hplaced : Placed d (opened j) := h.placed.congr rfl rfl rfl
  have hpass : replayIteration heap hmac d (opened j) j.sb.tail.toNat =
      .authentic ⟨t.sequence, t.refs, payloadOf t, commitTag hmac' d (opened j) t⟩
        ((j.sb.tail.toNat + 1 + (t.refs.length + 1)) % j.sb.blockCount.toNat) := by
    have hm := replayIteration_meta hmac heap hplaced (p := j.sb.tail.toNat) (t := t)
      ⟨(h.good t (by simp)).few, (h.good t (by simp)).outside⟩ hmeta
    rw [show (opened j).sb = j.sb from rfl, Nat.mod_eq_of_lt h.tail, if_neg hne, if_pos hauth] at hm
    rw [hm]
    exact authIteration_verifies hmac heap hplaced hauth hbody
      (fun i hi => by
        have := hne' (1 + i) (by omega)
        rwa [← Nat.add_assoc] at this) ht
  have hkey : ¬ ((opened j).sb.version = journalVersionAuth ∧ (opened j).hmacKey.length = 0) := by
    simp only [journalIsAuthenticated, Bool.and_eq_true, decide_eq_true_eq] at hauth
    omega
  rw [Nat.add_zero, Nat.mod_eq_of_lt h.tail] at hstart
  unfold journalReplay
  simp only [hneed, hb, h16, hauth, Bool.not_true, Bool.false_eq_true, if_false, Bool.and_false, if_neg hkey]
  simp only [replayLoop, show (opened j).sb = j.sb from rfl, if_neg hstart, hpass, JournalEntry.writes, append_nil]
  rfl

end

theorem zeroTag_eq : truncatedTag zeros = zeroTag := by decide

theorem computeHmac_lengthMac {heap : Heap} {bs n : Nat}
    (hbad : ¬ (heap (21 + 16 * n + n * bs) = true ∧ n * bs < 2 ^ 32)) (key : List Byte)
    (sequence : BitVec 64) {refs : List JournalBlockRef} (hrefs : refs.length = n) (payload : Bytes) :
    journalComputeHmac heap (lengthMac (21 + 16 * n + n * bs)) key sequence refs
      (listBytes payload (u32 (n * bs))) = zeroTag := by
  unfold journalComputeHmac
  rw [length_listBytes, hrefs]
  split
  · rename_i hheap
    have hwrap : 2 ^ 32 ≤ n * bs := by
      by_contra hlt
      have hlt := Nat.lt_of_not_le hlt
      rw [u32_of_lt hlt] at hheap
      exact hbad ⟨hheap, hlt⟩
    have hlen : ¬ 21 + 16 * n + u32 (n * bs) = 21 + 16 * n + n * bs := by
      have := u32_lt (n * bs)
      omega
    simp only [lengthMac, length_hmacMessage, length_listBytes, hrefs, if_neg hlen, zeroTag_eq]
  · rfl

/-- Replay of an authenticated journal applies verified entries only, on every
device of a block size, exactly when that size leaves memory for the messages
it has to hash. -/
theorem replay_applies_only_verified (heap : Heap) (bs : BitVec 32) :
    (∀ (hmac : Hmac) (d : BlockDevice) (j : Journal) (fuel : Nat), d.blockSize = bs.toNat →
      OpenedAuthentic heap d j →
      AppliesOnlyVerified hmac d j (journalReplay heap hmac fuel d j).writes) ↔
    TagMemory heap bs.toNat := by
  constructor
  · intro hall hb h16 n h1 hn
    by_contra hbad
    obtain ⟨d, j, h, hbs, hstart, hkey, hv⟩ := zeroTagged_record bs.toNat n bs.isLt hn
    have hlen : (blankTransaction n).refs.length = n := by simp [blankTransaction]
    have hne : (blankTransaction n).refs ≠ [] := by
      intro he
      rw [he] at hlen
      simp at hlen
      omega
    have hzero : commitTag (fun _ _ => zeros) d (opened j) (blankTransaction n) = zeroTag := by
      simp only [commitTag, journalComputeHmac, ampleHeap_apply, if_true, zeroTag_eq]
    rw [← hbs] at hb h16
    have hsound := hall (lengthMac (21 + 16 * n + n * bs.toNat)) d (opened j) 1 hbs
      (h.openedAuthentic hb hv)
    rw [replay_first_pass h hv hb h16 hne (by
      rw [hlen, hbs]
      exact (computeHmac_lengthMac hbad _ _ hlen _).trans hzero.symm)] at hsound
    obtain ⟨es, last, hwalk, hws, hlast⟩ := hsound
    have hes := authWalk_refuses h.reopened (h.openedAuthentic hb hv).authenticated hne
      (by
        intro e hr hp htag hver
        unfold Verified at hver
        rw [hzero] at htag
        have hmsg : (hmacMessage e.sequence e.refs (listBytes (joinBlocks d.blockSize e.payload)
            (e.payload.length * d.blockSize))).length = 21 + 16 * n + n * bs.toNat := by
          rw [length_hmacMessage, length_listBytes, hr, hp, hlen, hbs]
        simp only [htag, lengthMac, hmsg, if_true] at hver
        exact absurd hver (by decide)) hwalk
    -- then the record's first write would be the superblock's
    obtain ⟨m, rfl⟩ : ∃ m, n = m + 1 := ⟨n - 1, by omega⟩
    rw [hes] at hws
    have hfirst := hlast (40, zeros) (by
      rw [flatMap_nil, nil_append] at hws
      rw [← hws]
      simp [recordWrites, applyRefs, payloadOf, blankTransaction, replicate_succ,
        range_succ_eq_map, u32])
    rw [journalBlockNo, show (opened j).startBlock = 1 from hstart] at hfirst
    exact absurd hfirst (by decide)
  · intro hm hmac d j fuel hbs ho
    exact replay_verified hmac ho.authenticated (hbs ▸ hm) fuel

def untaggedDevice : BlockDevice := untaggedCrash.crashed scarceHeap (fun _ _ _ => 1#8)

def untaggedJournal : Journal :=
  (journalSetHmacKey (journalInit scarceHeap untaggedDevice blankJournal 1 5).2 [1#8]).2

/-- Replay accepts the zero tag against the zero it computes without memory. -/
theorem untaggedJournal_unverified :
    OpenedAuthentic scarceHeap untaggedDevice untaggedJournal ∧
      ¬ AppliesOnlyVerified (fun _ _ _ => 1#8) untaggedDevice untaggedJournal
        (journalReplay scarceHeap (fun _ _ _ => 1#8) 5 untaggedDevice untaggedJournal).writes := by
  refine ⟨⟨blankJournal, 1, 5, [1#8], by decide, rfl, by decide, by decide⟩, ?_⟩
  rintro ⟨es, last, hwalk, hws, hlast⟩
  have htargets : (journalReplay scarceHeap (fun _ _ _ => 1#8) 5 untaggedDevice
      untaggedJournal).writes.map Prod.fst = [0, 1] := by decide +kernel
  have hhdr : (journalReadBlock untaggedDevice untaggedJournal
      (slotBlock untaggedJournal.sb.tail.toNat)).map (fun b => ((readHeader b).magic,
        (readHeader b).type, (readHeader b).blockCount)) =
      some (journalMagic, JournalEntryType.writeMeta.code, 1#32) := by decide
  have htag : (journalReadBlock untaggedDevice untaggedJournal
      (slotBlock (advance untaggedJournal.sb untaggedJournal.sb.tail.toNat 2))).map
        journalExtractCommitTag = some zeroTag := by decide +kernel
  cases hwalk with
  | stop =>
    rw [hws, flatMap_nil, nil_append] at htargets
    have h0 : 0 ∈ last.map Prod.fst := by simp [htargets]
    obtain ⟨w, hw, he⟩ := List.mem_map.mp h0
    have := hlast w hw
    rw [he] at this
    exact absurd this (by decide)
  | skip read foreign rest =>
    simp only [read, Option.map_some, Option.some.injEq, Prod.mk.injEq] at hhdr
    refine foreign ⟨hhdr.1, hhdr.2.1, ?_⟩
    rw [hhdr.2.2]
    decide
  | apply entry verified rest =>
    obtain ⟨b, hb, _, _, hrefs⟩ := entry.header
    simp only [hb, Option.map_some, Option.some.injEq, Prod.mk.injEq] at hhdr
    have hlen : ∀ r : List JournalBlockRef,
        r = readRefs b (min (readHeader b).blockCount.toNat journalEntryMaxBlocks) →
        r.length = 1 := by
      intro r hr
      rw [hr, hhdr.2.2]
      rfl
    obtain ⟨c, hc, _, _, _, _, hstored⟩ := entry.commit
    rw [hlen _ hrefs] at hc
    simp only [hc, Option.map_some, Option.some.injEq] at htag
    rw [Verified, hstored, htag] at verified
    exact absurd verified (by decide)

end CapyOS.Proofs
