import CapyOS.Proofs.JournalRuns

namespace CapyOS.Proofs
open Lib Function List

/-- What a logged block is stored as, wherever it was to begin. -/
def LoggedBlock.padded (bs : Nat) (b : LoggedBlock) : Bytes := fun i =>
  if i < bs ∧ i < b.length.toNat then b.data i else 0

def LoggedBlock.write (bs : Nat) (b : LoggedBlock) : Write := (u32 b.target.toNat, LoggedBlock.padded bs b)

section
variable {d : BlockDevice}

theorem logBlock_padded {t u : Transaction} {b : LoggedBlock}
    (h : journalLogBlock ampleHeap d t b.target b.data b.offset b.length = (0, u)) : t.refs.length < journalEntryMaxBlocks ∧
      u.refs = t.refs ++ [⟨b.target, b.offset, b.length⟩] ∧
      recordWrites u = recordWrites t ++ [LoggedBlock.write d.blockSize b] ∧ u.committed = t.committed := by
  unfold journalLogBlock at h
  split at h
  · cases h
  · next hroom =>
    simp only [ampleHeap_apply, Bool.not_true, Bool.and_false, Bool.false_eq_true, if_false,
      length_append, length_singleton, Nat.add_sub_cancel, Prod.mk.injEq, true_and] at h
    rw [← h]
    refine ⟨Nat.lt_of_not_le hroom, rfl, ?_, rfl⟩
    have hpay : (range (t.refs.length + 1)).map
        (update t.data t.refs.length (LoggedBlock.padded d.blockSize b)) =
        payloadOf t ++ [LoggedBlock.padded d.blockSize b] := by
      rw [range_succ, map_append, map_singleton, update_self, payloadOf]
      congr 1
      apply map_congr_left
      intro i hi
      exact update_of_ne (Nat.ne_of_lt (mem_range.mp hi)) _ _
    simp only [recordWrites, payloadOf, length_append, length_singleton, applyRefs]
    change zipWith _ _ ((range (t.refs.length + 1)).map
      (update t.data t.refs.length (LoggedBlock.padded d.blockSize b))) = _
    rw [hpay, zipWith_append (by simp [payloadOf]), payloadOf]
    rfl

theorem logAll_padded {t u : Transaction} {logs : List LoggedBlock}
    (h : journalLogAll ampleHeap d t logs = some u) (hfew : t.refs.length ≤ journalEntryMaxBlocks) :
    u.refs.length ≤ journalEntryMaxBlocks ∧ u.refs = t.refs ++ logs.map (fun b => ⟨b.target, b.offset, b.length⟩) ∧
      recordWrites u = recordWrites t ++ logs.map (LoggedBlock.write d.blockSize) ∧ u.committed = t.committed := by
  induction logs generalizing t with
  | nil =>
    cases h
    exact ⟨hfew, by simp, by simp, rfl⟩
  | cons b logs ih =>
    unfold journalLogAll at h
    cases hlog : journalLogBlock ampleHeap d t b.target b.data b.offset b.length with
    | mk rc v =>
      simp only [hlog] at h
      split at h
      · next hrc =>
        rw [hrc] at hlog
        obtain ⟨hroom, hrefs, hwrites, hopen⟩ := logBlock_padded hlog
        obtain ⟨hfew', hrefs', hwrites', hopen'⟩ := ih h (by
          rw [hrefs, length_append]
          exact hroom)
        refine ⟨hfew', ?_, ?_, hopen'.trans hopen⟩
        · rw [hrefs', hrefs, append_assoc]
          rfl
        · rw [hwrites', hwrites, append_assoc]
          rfl
      · cases h

end

/-- A transaction that logs `logs` is committed in a journal, which is then opened again and
replayed; the devices it leaves. -/
structure Replayed (hmac : Hmac) (d : BlockDevice) (j : Journal) (logs : List LoggedBlock)
    (committed replayed : BlockDevice) : Prop where
  run : ∃ t j' u ws fuel old, journalLogAll ampleHeap d (journalBegin j).2 logs = some t ∧
    journalCommit ampleHeap hmac d (journalBegin j).1 t = (0, j', u, ws) ∧ committed = d.apply ws ∧
    j.sb.blockCount.toNat ≤ fuel ∧ replayed = committed.apply
      (recover ampleHeap hmac old j.startBlock j.blockCount j.hmacKey fuel committed).writes

/-- The block goes to the device outside the journal, and nothing else that is pending or in
its transaction goes to the same one. -/
structure LoggedAlone (d : BlockDevice) (j : Journal) (ts : List Transaction)
    (before : List LoggedBlock) (b : LoggedBlock) (after : List LoggedBlock) : Prop where
  outside : ∀ l ∈ before ++ b :: after, ¬ InRegion j (u32 l.target.toNat)
  onDevice : u32 b.target.toNat < d.blockCount
  others : ∀ l ∈ before ++ after, u32 l.target.toNat ≠ u32 b.target.toNat
  pending : ∀ t ∈ ts, ∀ r ∈ t.refs, u32 r.targetBlock.toNat ≠ u32 b.target.toNat

section
variable {hmac : Hmac} {d : BlockDevice} {j : Journal} {ts : List Transaction}

theorem DiskInv.begin (h : DiskInv hmac d j ts) : DiskInv hmac d (journalBegin j).1 ts :=
  ⟨⟨h.placed.reliable, h.placed.fits, h.placed.ring, h.placed.room⟩, h.home, h.magic, h.mode, h.tail,
    h.laid, h.head, h.room, fun t ht => ⟨(h.good t ht).few, (h.good t ht).outside⟩⟩

theorem commit_appends (h : DiskInv hmac d j ts) {t u : Transaction} {j' : Journal} {ws : List Write}
    (hg : GoodRecord j t) (hcommit : journalCommit ampleHeap hmac d j t = (0, j', u, ws)) :
    DiskInv hmac (d.apply ws) j' (ts ++ [t]) ∧ SamePlace j j' ∧ ∀ w ∈ ws, InRegion j w.1 := by
  by_cases hrefused : t.committed = true ∨ ringAvail j.sb < 1 + t.refs.length + 1
  · rw [commit_refused hrefused] at hcommit
    cases hcommit
  · obtain ⟨hopen, hroomy⟩ := not_or.mp hrefused
    generalize hT : (ts.flatMap (recordBlocks hmac d j)).length = T
    have hacc := commit_accepted h hT.symm (by simpa using hopen) hroomy
    have hroom : T + (t.refs.length + 2) < j.sb.blockCount.toNat := by
      rw [h.avail, hT] at hroomy
      omega
    have hfull := commit_complete h hT.symm hg hroom
    rw [hcommit] at hacc
    cases hacc
    refine ⟨hfull, ⟨rfl, rfl, rfl, rfl⟩, fun w hw => ?_⟩
    cases mem_append.mp hw with
    | inl hring =>
      have hkey : w.1 ∈ (commitRing hmac d j (j.sb.tail.toNat + T) t).map Prod.fst :=
        mem_map.mpr ⟨w, hring, rfl⟩
      rw [commitRing, ringWrites_keys] at hkey
      obtain ⟨k, -, heq⟩ := mem_map.mp hkey
      exact heq ▸ (slotAt_mem h.placed _).1
    | inr hhome =>
      rw [mem_singleton.mp hhome]
      exact h.home_mem

/-- After the replay the target holds the padded block; until then it is untouched. -/
theorem replayed_block (h : DiskInv hmac d j ts) {before after : List LoggedBlock} {b : LoggedBlock}
    {committed replayed : BlockDevice} (halone : LoggedAlone d j ts before b after)
    (hrun : Replayed hmac d j (before ++ b :: after) committed replayed) :
    committed.blocks (u32 b.target.toNat) = d.blocks (u32 b.target.toNat) ∧
      replayed.blocks (u32 b.target.toNat) = LoggedBlock.padded d.blockSize b := by
  obtain ⟨t, j', u, ws, fuel, old, hlogs, hcommit, rfl, hfuel, rfl⟩ := hrun.run
  obtain ⟨hfew, hrefs, hwrites, -⟩ := logAll_padded hlogs (Nat.zero_le _)
  have hgood : GoodRecord (journalBegin j).1 t := by
    refine ⟨hfew, fun r hr => ?_⟩
    rw [hrefs] at hr
    obtain ⟨l, hl, rfl⟩ := mem_map.mp hr
    exact halone.outside l hl
  obtain ⟨hdisk, ⟨hstart, hcount, hkey, hring⟩, hin⟩ := commit_appends h.begin hgood hcommit
  have hout : ¬ InRegion j' (u32 b.target.toNat) := by
    unfold InRegion
    rw [hstart, hcount]
    exact halone.outside b (by simp)
  have hkeep : (d.apply ws).blocks (u32 b.target.toNat) = d.blocks (u32 b.target.toNat) := by
    refine d.apply_other fun hm => ?_
    obtain ⟨w, hw, heq⟩ := mem_map.mp hm
    exact halone.outside b (by simp) (heq ▸ hin w hw)
  refine ⟨hkeep, ?_⟩
  have hrecover := (recover_spec hdisk old fuel (by rw [hring]; exact hfuel)).2
  rw [hstart, hcount, hkey] at hrecover
  change (((d.apply ws).apply (recover ampleHeap hmac old j.startBlock j.blockCount j.hmacKey fuel
    (d.apply ws)).writes).blocks _) = _
  have hwriteList : recordWrites t = (before ++ b :: after).map (LoggedBlock.write d.blockSize) := by
    rw [hwrites]
    rfl
  have hlater : u32 b.target.toNat ∉ (after.map (LoggedBlock.write d.blockSize)).map Prod.fst := by
    intro hm
    rw [map_map] at hm
    obtain ⟨l, hl, heq⟩ := mem_map.mp hm
    exact halone.others l (mem_append_right _ hl) heq
  rw [show (recover ampleHeap hmac old j.startBlock j.blockCount j.hmacKey fuel (d.apply ws)).writes =
    recoveryWrites j' (ts ++ [t]) from hrecover,
    recovered_blocks hdisk hout (by rw [d.apply_blockCount]; exact halone.onDevice),
    flatMap_append, applyWrites_append, flatMap_singleton, hwriteList, map_append,
    map_cons, applyWrites_append]
  change applyWrites _ (_ :: _) _ = _
  rw [show LoggedBlock.write d.blockSize b :: after.map (LoggedBlock.write d.blockSize) =
    [LoggedBlock.write d.blockSize b] ++ after.map (LoggedBlock.write d.blockSize) from rfl,
    applyWrites_append, applyWrites_other hlater]
  exact update_self _ _ _

theorem replayed_exists (h : DiskInv hmac d j []) (hroom : 4 ≤ j.sb.blockCount.toNat) (b : LoggedBlock) :
    ∃ committed replayed, Replayed hmac d j [b] committed replayed := by
  obtain ⟨t, hlogs⟩ : ∃ t, journalLogAll ampleHeap d (journalBegin j).2 [b] = some t := by
    simp [journalLogAll, journalLogBlock, journalBegin, journalEntryMaxBlocks]
  obtain ⟨-, hrefs, -, hopen⟩ := logAll_padded hlogs (Nat.zero_le _)
  have hlen : t.refs.length = 1 := by
    rw [hrefs]
    rfl
  have havail : ¬ ringAvail (journalBegin j).1.sb < 1 + t.refs.length + 1 := by
    have heq := h.begin.avail
    have hsb : (journalBegin j).1.sb.blockCount = j.sb.blockCount := rfl
    rw [flatMap_nil, length_nil, hsb] at heq
    omega
  have hcommit := commit_accepted h.begin rfl hopen havail
  exact ⟨_, _, ⟨_, _, _, _, _, j, hlogs, hcommit, rfl, Nat.le_refl _, rfl⟩⟩

end

def HonoursLogging (bs offset length : BitVec 32) : Prop :=
  ∀ (hmac : Hmac) (d : BlockDevice) (j : Journal) (ts : List Transaction) (before after : List LoggedBlock)
    (b : LoggedBlock) (committed replayed : BlockDevice), DiskInv hmac d j ts → d.blockSize = bs.toNat →
    b.offset = offset → b.length = length → LoggedAlone d j ts before b after →
    Replayed hmac d j (before ++ b :: after) committed replayed →
    ∀ i, i < bs.toNat → replayed.blocks (u32 b.target.toNat) i =
      b.overlay (committed.blocks (u32 b.target.toNat)) i

def onesDevice (bs : BitVec 32) : BlockDevice :=
  ⟨bs.toNat, 8, fun _ _ => 1, fun _ => false, fun _ => false, word_lt bs, eight_lt⟩

theorem onesDevice_format (bs : BitVec 32) : (formatAs ampleHeap (onesDevice bs) blankJournal 1 5 []).rc = 0 := by
  simp [formatAs, journalFormat, journalFormatWithVersion, BlockDevice.canWrite, onesDevice, journalBlockNo, u32]

/-- A block of zeros logged for a part of a block of ones clears the rest of it. -/
theorem short_log_dishonoured {bs offset length : BitVec 32} (hshort : length.toNat < bs.toNat) :
    ¬ HonoursLogging bs offset length := by
  intro hall
  let hmac : Hmac := fun _ _ => zeros
  obtain ⟨hinv, hstart, hcount, -⟩ := WalInv.formatted hmac
    (fun _ => ⟨rfl, rfl⟩ : (onesDevice bs).Reliable) (by decide : 1 + 5 ≤ 8) (onesDevice_format bs)
  obtain ⟨-, -, -, -, -, -, -, -, hring, -⟩ := formatAs_ok (onesDevice_format bs)
  generalize formatAs ampleHeap (onesDevice bs) blankJournal 1 5 [] = r at *
  have hdisk : DiskInv hmac ((onesDevice bs).apply r.writes) r.journal [] := hinv.disk
  let b : LoggedBlock := ⟨0, fun _ => 0, offset, length⟩
  have hout : ¬ InRegion r.journal 0 := by
    unfold InRegion
    omega
  have hones : ((onesDevice bs).apply r.writes).blocks 0 = fun _ => 1 := hinv.outside 0 hout
  have halone : LoggedAlone ((onesDevice bs).apply r.writes) r.journal [] [] b [] := by
    refine ⟨fun l hl => ?_, ?_, nofun, nofun⟩
    · rw [mem_singleton.mp hl]
      exact hout
    · rw [BlockDevice.apply_blockCount]
      exact (by decide : 0 < 8)
  obtain ⟨committed, replayed, hrun⟩ := replayed_exists hdisk (by rw [hring]; decide) b
  obtain ⟨hcommitted, hreplayed⟩ := replayed_block hdisk halone hrun
  have hsize : ((onesDevice bs).apply r.writes).blockSize = bs.toNat := BlockDevice.apply_blockSize _ _
  have hbytes := hall hmac _ _ [] [] [] b _ _ hdisk hsize rfl rfl halone hrun
  rw [hreplayed, hcommitted, show u32 b.target.toNat = 0 from rfl, hones] at hbytes
  -- a byte outside what was logged
  by_cases hzero : offset.toNat = 0
  · have hbyte := hbytes length.toNat hshort
    unfold LoggedBlock.padded LoggedBlock.overlay at hbyte
    rw [if_neg (fun h => Nat.lt_irrefl _ h.2), if_neg (by dsimp only [b]; omega)] at hbyte
    cases hbyte
  · have hbyte := hbytes 0 (by omega)
    have hbefore : ¬ (b.offset.toNat ≤ 0 ∧ 0 < b.offset.toNat + b.length.toNat) :=
      fun h => hzero (Nat.le_zero.mp h.1)
    unfold LoggedBlock.padded LoggedBlock.overlay at hbyte
    rw [if_neg hbefore] at hbyte
    split at hbyte
    · cases hbyte
    · cases hbyte

/-- Logging is honoured exactly for whole blocks. -/
theorem partial_logging (bs offset length : BitVec 32) (hfit : offset.toNat + length.toNat ≤ bs.toNat) :
    HonoursLogging bs offset length ↔ length = bs := by
  constructor
  · intro hall
    by_contra hne
    have hlen : length.toNat ≠ bs.toNat := fun h => hne (BitVec.eq_of_toNat_eq h)
    exact short_log_dishonoured (by omega) hall
  · rintro rfl hmac d j ts before after b committed replayed hdisk hsize hoffset hlength halone hrun i hi
    obtain ⟨-, hreplayed⟩ := replayed_block hdisk halone hrun
    have hzero : b.offset.toNat = 0 := by
      rw [hoffset]
      omega
    rw [hreplayed]
    unfold LoggedBlock.padded LoggedBlock.overlay
    rw [hzero, hlength, hsize, if_pos ⟨hi, hi⟩, if_pos ⟨Nat.zero_le _, by omega⟩, Nat.sub_zero]

theorem partial_logging_whole : HonoursLogging 512 0 512 :=
  (partial_logging 512 0 512 (by decide)).mpr rfl

theorem partial_logging_short : ¬ HonoursLogging 512 16 100 := short_log_dishonoured (by decide)

end CapyOS.Proofs
