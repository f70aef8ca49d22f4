import CapyOS.Proofs.JournalCrash

namespace CapyOS.Proofs
open Lib Function List
variable {j : Journal} {t : Transaction} {d : BlockDevice}

/-- The client's view and the device agree: the records on the ring are those of
the transactions committed since the last checkpoint, and every open
transaction holds what was logged in it. -/
structure WalInv (hmac : Hmac) (d₀ : BlockDevice) (s : WalState) (ts : List Transaction) :
    Prop where
  disk : DiskInv hmac s.dev s.journal ts
  durable : s.durable = ts.flatMap recordWrites
  clean : s.journal.dirty = false → ts = []
  open_ : ∀ i t, s.txns i = some t → t.committed = false →
    GoodRecord s.journal t ∧ recordWrites t = s.logged i
  shape : s.dev.blockSize = d₀.blockSize ∧ s.dev.blockCount = d₀.blockCount
  outside : ∀ b, ¬ InRegion s.journal b → s.dev.blocks b = d₀.blocks b

def SamePlace (j j' : Journal) : Prop :=
  j'.startBlock = j.startBlock ∧ j'.blockCount = j.blockCount ∧ j'.hmacKey = j.hmacKey ∧
    j'.sb.blockCount = j.sb.blockCount

theorem SamePlace.refl (j : Journal) : SamePlace j j := ⟨rfl, rfl, rfl, rfl⟩

theorem SamePlace.trans {a b c : Journal} (h : SamePlace a b) (k : SamePlace b c) : SamePlace a c :=
  ⟨k.1.trans h.1, k.2.1.trans h.2.1, k.2.2.1.trans h.2.2.1, k.2.2.2.trans h.2.2.2⟩

theorem SamePlace.region {j j' : Journal} (h : SamePlace j j') (b : Nat) : InRegion j' b ↔ InRegion j b := by
  unfold InRegion
  rw [h.1, h.2.1]

theorem SamePlace.good {j j' : Journal} (h : SamePlace j j') (hg : GoodRecord j t) : GoodRecord j' t :=
  ⟨hg.few, fun r hr => (h.region _).not.mpr (hg.outside r hr)⟩

section
variable {hmac : Hmac} {d₀ : BlockDevice} {s : WalState} {ts : List Transaction}

theorem logBlock_spec (d : BlockDevice) (t : Transaction) (target : Nat) (data : Bytes)
    (ht : target < 2 ^ 32) :
    let r := journalLogBlock ampleHeap d t (BitVec.ofNat 64 target) data 0
      (BitVec.ofNat 32 d.blockSize)
    (r.1 = 0 ∧ t.refs.length < journalEntryMaxBlocks ∧
      r.2.refs = t.refs ++ [⟨BitVec.ofNat 64 target, 0, BitVec.ofNat 32 d.blockSize⟩] ∧
      recordWrites r.2 = recordWrites t ++ [(target, fullBlock d.blockSize data)] ∧
      r.2.committed = t.committed) ∨
    (r.1 ≠ 0 ∧ r.2 = t) := by
  intro r
  by_cases hfull : journalEntryMaxBlocks ≤ t.refs.length
  · right
    simp [r, journalLogBlock, hfull]
  · left
    have hr : r = (0, { t with
        refs := t.refs ++ [⟨BitVec.ofNat 64 target, 0, BitVec.ofNat 32 d.blockSize⟩]
        hasBuffer := true
        data := update t.data t.refs.length (fullBlock d.blockSize data)
        dataUsed := t.dataUsed + BitVec.ofNat 32 d.blockSize }) := by
      have hb := d.blockSize_lt
      have hlen : (BitVec.ofNat 32 d.blockSize).toNat = d.blockSize := by
        rw [BitVec.toNat_ofNat]
        exact Nat.mod_eq_of_lt hb
      have hblock : (fun i => if i < d.blockSize ∧ i < (BitVec.ofNat 32 d.blockSize).toNat
          then data i else 0) = fullBlock d.blockSize data := by
        funext i
        simp [fullBlock, hlen]
      simp only [r, journalLogBlock, hfull, if_false, ampleHeap_apply, Bool.not_true,
        Bool.and_false, Bool.false_eq_true, hblock, length_append, length_singleton,
        Nat.add_sub_cancel]
    rw [hr]
    refine ⟨rfl, by omega, rfl, ?_, rfl⟩
    have hpay : (range (t.refs.length + 1)).map
        (update t.data t.refs.length (fullBlock d.blockSize data)) =
        payloadOf t ++ [fullBlock d.blockSize data] := by
      rw [range_succ, map_append, map_singleton, update_self, payloadOf]
      congr 1
      apply map_congr_left
      intro i hi
      exact update_of_ne (Nat.ne_of_lt (mem_range.mp hi)) _ _
    have htarget : u32 (BitVec.ofNat 64 target).toNat = target := by
      rw [BitVec.toNat_ofNat, Nat.mod_eq_of_lt (by omega)]
      exact u32_of_lt ht
    simp only [recordWrites, payloadOf, length_append, length_singleton, applyRefs]
    rw [hpay, zipWith_append (by simp [payloadOf]), payloadOf]
    simp only [zipWith_cons_cons, zipWith_nil_left, htarget]

theorem commit_refused
    (h : t.committed = true ∨ ringAvail j.sb < 1 + t.refs.length + 1) :
    journalCommit ampleHeap hmac d j t = (-1, j, t, []) := by
  unfold journalCommit
  by_cases hc : t.committed = true
  · rw [if_pos hc]
  · rw [if_neg hc, if_pos (h.resolve_left hc)]

/-- What an accepted commit does, in terms of the records on the ring. -/
theorem commit_accepted {T : Nat}
    (h : DiskInv hmac d j ts) (hT : T = (ts.flatMap (recordBlocks hmac d j)).length)
    (hc : t.committed = false) (ha : ¬ ringAvail j.sb < 1 + t.refs.length + 1) : journalCommit ampleHeap hmac d j t =
      (0, committedJournal j (j.sb.tail.toNat + T) (t.refs.length + 2), { t with hasBuffer := false, committed := true },
        commitRing hmac d j (j.sb.tail.toNat + T) t ++ [(j.startBlock,
            (committedJournal j (j.sb.tail.toNat + T) (t.refs.length + 2)).sb.bytes)]) := by
  have hr := h.placed.ring
  have hblocks : metaBlock d t :: (range t.refs.length).map t.data ++
      [commitBlock ampleHeap hmac d j t] = recordBlocks hmac d j t := rfl
  have hhome : journalBlockNo j 0 = j.startBlock := by
    rw [h.placed.blockNo (by omega), Nat.add_zero]
  have hw := ringWrites_spec h.placed (j.sb.tail.toNat + T) (recordBlocks hmac d j t)
  rw [hT, ← h.head, ← hT, length_recordBlocks] at hw
  unfold journalCommit
  rw [if_neg (by simp [hc]), if_neg ha]
  simp only [ampleHeap_apply, Bool.not_true, Bool.false_eq_true, if_false, hblocks, hw, hhome]
  rfl

/-- Writes into the journal's region do not reach the blocks around it. -/
theorem WalInv.outside_apply (h : WalInv hmac d₀ s ts) {ws : List Write}
    (hws : ∀ w ∈ ws, InRegion s.journal w.1) {b : Nat} (hb : ¬ InRegion s.journal b) :
    (s.dev.apply ws).blocks b = d₀.blocks b := by
  rw [← h.outside b hb]
  refine s.dev.apply_other ?_
  intro hm
  obtain ⟨w, hw, he⟩ := mem_map.mp hm
  exact hb (he ▸ hws w hw)

theorem DiskInv.home_mem (h : DiskInv hmac d j ts) : InRegion j j.startBlock := by
  have := h.placed.ring
  unfold InRegion
  omega

def checkpointedSb (sb : JournalSuperblock) : JournalSuperblock :=
  checkedSuperblock { sb with tail := sb.head, sequence := sb.sequence + 1 }

theorem WalInv.checkpoint (h : WalInv hmac d₀ s ts) :
    let r := walStep ampleHeap hmac s .checkpoint
    WalInv hmac d₀ r.1 [] ∧ SamePlace s.journal r.1.journal ∧
      (r.2 = [] ∧ ts = [] ∨ ∃ b, r.2 = [(s.journal.startBlock, b)]) := by
  intro r
  by_cases hd : s.journal.dirty = false
  · have hts := h.clean hd
    subst hts
    have hr : r = ({ s with durable := [] }, []) := by
      simp [r, walStep, journalCheckpoint, hd]
    have hdur : s.durable = [] := by simpa using h.durable
    rw [hr]
    refine ⟨⟨h.disk, by simp, fun _ => rfl, h.open_, h.shape, h.outside⟩, SamePlace.refl _,
      .inl ⟨rfl, rfl⟩⟩
  · have hd : s.journal.dirty = true := by simpa using hd
    have hring := h.disk.placed.ring
    have hfits := h.disk.placed.fits
    have hhome : journalBlockNo s.journal 0 = s.journal.startBlock := by
      rw [h.disk.placed.blockNo (by omega), Nat.add_zero]
    obtain ⟨sb, hsb⟩ : ∃ sb, sb = checkpointedSb s.journal.sb := ⟨_, rfl⟩
    have hr : r = ({ s with
        dev := s.dev.apply [(s.journal.startBlock, sb.bytes)]
        journal := { s.journal with sb := sb, dirty := false, currentSequence := sb.sequence }
        durable := [] }, [(s.journal.startBlock, sb.bytes)]) := by
      simp only [r, walStep, journalCheckpoint, hd, hhome, Bool.not_true, Bool.false_eq_true,
        if_false, hsb]
      rfl
    have hsame : SamePlace s.journal
        { s.journal with sb := sb, dirty := false, currentSequence := sb.sequence } := by
      refine ⟨rfl, rfl, rfl, ?_⟩
      rw [hsb]
      rfl
    rw [hr]
    refine ⟨⟨?_, by simp, fun _ => rfl, ?_, ?_, ?_⟩, hsame, .inr ⟨_, rfl⟩⟩
    · refine h.disk.reset (h.disk.placed.apply _) rfl rfl (by rw [hsb]; rfl) (by rw [hsb]; rfl)
        (by rw [hsb]; rfl) rfl (by rw [hsb]; rfl) (by rw [hsb]; rfl) ?_
      exact BlockDevice.write_same _ _ (h.disk.placed.reliable.canWrite (by omega))
    · intro i t ht hc
      obtain ⟨hg, hw⟩ := h.open_ i t ht hc
      exact ⟨hsame.good hg, hw⟩
    · simpa using h.shape
    · intro b hb
      refine h.outside_apply ?_ ((hsame.region b).not.mp hb)
      simpa using h.disk.home_mem

theorem WalInv.commit (h : WalInv hmac d₀ s ts) (i : Nat) :
    let r := walStep ampleHeap hmac s (.commit i)
    ∃ ts', WalInv hmac d₀ r.1 ts' ∧ SamePlace s.journal r.1.journal ∧
      (∀ w ∈ r.2, InRegion s.journal w.1) ∧
      ∀ n, n < r.2.length → DiskInv hmac (s.dev.apply (r.2.take n)) s.journal ts := by
  intro r
  cases ht : s.txns i with
  | none =>
    have hr : r = (s, []) := by simp [r, walStep, ht]
    rw [hr]
    exact ⟨ts, h, SamePlace.refl _, by simp, by simp⟩
  | some t =>
    by_cases hrefused : t.committed = true ∨ ringAvail s.journal.sb < 1 + t.refs.length + 1
    · have hr : r = (s, []) := by
        have he : update s.txns i (some t) = s.txns := by
          rw [← ht, update_eq_self]
        simp [r, walStep, ht, commit_refused hrefused, he]
      rw [hr]
      exact ⟨ts, h, SamePlace.refl _, by simp, by simp⟩
    · obtain ⟨hc, ha⟩ := not_or.mp hrefused
      have hc : t.committed = false := by simpa using hc
      obtain ⟨hg, hw⟩ := h.open_ i t ht hc
      generalize hT : (ts.flatMap (recordBlocks hmac s.dev s.journal)).length = T
      have hacc := commit_accepted h.disk hT.symm hc ha
      have hroom : T + (t.refs.length + 2) < s.journal.sb.blockCount.toNat := by
        rw [h.disk.avail, hT] at ha
        omega
      have hfull := commit_complete h.disk hT.symm hg hroom
      generalize hj : committedJournal s.journal (s.journal.sb.tail.toNat + T)
        (t.refs.length + 2) = j' at hacc hfull
      generalize hws : commitRing hmac s.dev s.journal (s.journal.sb.tail.toNat + T) t = ws
        at hacc hfull
      have hsame : SamePlace s.journal j' := by
        rw [← hj]
        exact ⟨rfl, rfl, rfl, rfl⟩
      have hr : r = ({ s with
          dev := s.dev.apply (ws ++ [(s.journal.startBlock, j'.sb.bytes)])
          journal := j'
          txns := update s.txns i (some { t with hasBuffer := false, committed := true })
          durable := s.durable ++ s.logged i },
          ws ++ [(s.journal.startBlock, j'.sb.bytes)]) := by
        simp [r, walStep, ht, hacc]
      rw [hr]
      have hin : ∀ w ∈ ws ++ [(s.journal.startBlock, j'.sb.bytes)], InRegion s.journal w.1 := by
        intro w hm
        rcases mem_append.mp hm with hm | hm
        · have hkey : w.1 ∈ ws.map Prod.fst := mem_map.mpr ⟨w, hm, rfl⟩
          rw [← hws, commitRing, ringWrites_keys] at hkey
          obtain ⟨k, _, he⟩ := mem_map.mp hkey
          exact he ▸ (slotAt_mem h.disk.placed _).1
        · rw [List.mem_singleton.mp hm]
          exact h.disk.home_mem
      refine ⟨ts ++ [t], ⟨hfull, ?_, ?_, ?_, ?_, ?_⟩, hsame, hin, ?_⟩
      · simp [h.durable, hw, flatMap_append]
      · intro hd
        rw [← hj] at hd
        simp [committedJournal] at hd
      · intro k u hu hcu
        by_cases hk : k = i
        · subst hk
          simp only [update_self, Option.some.injEq] at hu
          subst hu
          simp at hcu
        · simp only [update_of_ne hk] at hu
          obtain ⟨hgu, hwu⟩ := h.open_ k u hu hcu
          exact ⟨hsame.good hgu, hwu⟩
      · simpa using h.shape
      · intro b hb
        exact h.outside_apply hin ((hsame.region b).not.mp hb)
      · intro n hn
        have htake : (ws ++ [(s.journal.startBlock, j'.sb.bytes)]).take n = ws.take n := by
          rw [length_append, length_singleton] at hn
          exact take_append_of_le_length (by omega)
        simp only [htake]
        refine commitRing_spares h.disk hT.symm hroom _ ?_
        intro w hw
        rw [hws]
        exact mem_of_mem_take hw

/-- Every call keeps the invariant, and a call cut before its last write leaves
the device as it was for recovery. -/
theorem WalInv.step (h : WalInv hmac d₀ s ts) (op : WalOp)
    (hop : WalOp.TargetOk s.journal.startBlock s.journal.blockCount s.dev.blockCount op) :
    let r := walStep ampleHeap hmac s op
    ∃ ts', WalInv hmac d₀ r.1 ts' ∧ SamePlace s.journal r.1.journal ∧
      (∀ w ∈ r.2, InRegion s.journal w.1) ∧
      ∀ n, n < r.2.length → DiskInv hmac (s.dev.apply (r.2.take n)) s.journal ts := by
  cases op with
  | begin i =>
    refine ⟨ts, ⟨?_, h.durable, h.clean, ?_, h.shape, h.outside⟩, ⟨rfl, rfl, rfl, rfl⟩,
      by simp [walStep], by simp [walStep]⟩
    · exact ⟨h.disk.placed.congr rfl rfl rfl, h.disk.home, h.disk.magic, h.disk.mode,
        h.disk.tail, h.disk.laid, h.disk.head, h.disk.room,
        fun t ht => ⟨(h.disk.good t ht).few, (h.disk.good t ht).outside⟩⟩
    · intro k t ht hc
      by_cases hk : k = i
      · subst hk
        simp only [walStep, journalBegin, update_self, Option.some.injEq] at ht ⊢
        subst ht
        exact ⟨⟨by simp, by simp⟩, by simp [recordWrites, applyRefs]⟩
      · simp only [walStep, update_of_ne hk] at ht ⊢
        obtain ⟨hg, hw⟩ := h.open_ k t ht hc
        exact ⟨⟨hg.few, hg.outside⟩, hw⟩
  | logBlock i target data =>
    cases ht : s.txns i with
    | none =>
      have hr : walStep ampleHeap hmac s (.logBlock i target data) = (s, []) := by
        simp [walStep, ht]
      rw [hr]
      exact ⟨ts, h, SamePlace.refl _, by simp, by simp⟩
    | some t =>
      have hlt : target < 2 ^ 32 := Nat.lt_trans hop.1 s.dev.blockCount_lt
      rcases logBlock_spec s.dev t target data hlt with ⟨hrc, hfew, hrefs, hws, hcom⟩ | ⟨hrc, hsame⟩
      · refine ⟨ts, ?_, ?_, ?_, ?_⟩
        · simp only [walStep, ht, hrc, if_true]
          refine ⟨h.disk, h.durable, h.clean, ?_, h.shape, h.outside⟩
          intro k u hu hcu
          by_cases hk : k = i
          · subst hk
            simp only [update_self, Option.some.injEq] at hu ⊢
            subst hu
            rw [hcom] at hcu
            obtain ⟨hg, hw⟩ := h.open_ k t ht hcu
            refine ⟨⟨?_, ?_⟩, by rw [hws, hw]⟩
            · rw [hrefs, length_append, length_singleton]
              omega
            · intro r hr
              rw [hrefs] at hr
              rcases mem_append.mp hr with hm | hm
              · exact hg.outside r hm
              · rw [List.mem_singleton.mp hm]
                have : u32 (BitVec.ofNat 64 target).toNat = target := by
                  rw [BitVec.toNat_ofNat, Nat.mod_eq_of_lt (by omega)]
                  exact u32_of_lt hlt
                rw [this]
                exact hop.2
          · simp only [update_of_ne hk] at hu ⊢
            exact h.open_ k u hu hcu
        · simp only [walStep, ht, hrc, if_true]
          exact SamePlace.refl _
        · simp only [walStep, ht, hrc, if_true]
          simp
        · simp only [walStep, ht, hrc, if_true]
          simp
      · have he : update s.txns i (some t) = s.txns := by
          rw [← ht, update_eq_self]
        have hr : walStep ampleHeap hmac s (.logBlock i target data) = (s, []) := by
          simp only [walStep, ht, if_neg hrc, hsame, he]
        rw [hr]
        exact ⟨ts, h, SamePlace.refl _, by simp, by simp⟩
  | commit i => exact h.commit i
  | abort i =>
    cases ht : s.txns i with
    | none =>
      have hr : walStep ampleHeap hmac s (.abort i) = (s, []) := by simp [walStep, ht]
      rw [hr]
      exact ⟨ts, h, SamePlace.refl _, by simp, by simp⟩
    | some t =>
      refine ⟨ts, ?_, ?_, ?_, ?_⟩
      · simp only [walStep, ht]
        refine ⟨h.disk, h.durable, h.clean, ?_, h.shape, h.outside⟩
        intro k u hu hcu
        by_cases hk : k = i
        · subst hk
          simp only [update_self, Option.some.injEq] at hu ⊢
          subst hu
          exact ⟨⟨by simp [journalAbort], by simp [journalAbort]⟩,
            by simp [recordWrites, applyRefs, journalAbort]⟩
        · simp only [update_of_ne hk] at hu ⊢
          exact h.open_ k u hu hcu
      · simp only [walStep, ht]
        exact SamePlace.refl _
      · simp [walStep, ht]
      · simp [walStep, ht]
  | checkpoint =>
    obtain ⟨hinv, hsame, hws⟩ := h.checkpoint
    refine ⟨[], hinv, hsame, ?_, ?_⟩
    · rcases hws with ⟨he, _⟩ | ⟨b, he⟩
      · simp [he]
      · simpa [he] using h.disk.home_mem
    · intro n hn
      rcases hws with ⟨he, _⟩ | ⟨b, he⟩
      · simp [he] at hn
      · have hn0 : n = 0 := by
          simp [he] at hn
          exact hn
        subst hn0
        simpa using h.disk

theorem WalInv.run (h : WalInv hmac d₀ s ts) (ops : List WalOp) (hops : ∀ op ∈ ops,
      op.TargetOk s.journal.startBlock s.journal.blockCount d₀.blockCount) :
    ∃ ts', WalInv hmac d₀ (walRun ampleHeap hmac s ops) ts' ∧ SamePlace s.journal (walRun ampleHeap hmac s ops).journal := by
  induction ops generalizing s ts with
  | nil => exact ⟨ts, h, SamePlace.refl _⟩
  | cons op ops ih =>
    have hop := hops op mem_cons_self
    rw [← h.shape.2] at hop
    obtain ⟨ts₁, h₁, hsame, _, _⟩ := h.step op hop
    obtain ⟨ts₂, h₂, hsame₂⟩ := ih h₁ (by
      intro o ho
      rw [hsame.1, hsame.2.1]
      exact hops o (mem_cons_of_mem _ ho))
    exact ⟨ts₂, h₂, hsame.trans hsame₂⟩

end

section
variable {d : BlockDevice} {old : Journal} {start count : Nat} {key : List Byte}

def FormattedAs (start count : Nat) (key : List Byte) (r : JournalOutcome) : Prop :=
  4 ≤ count ∧ r.journal.startBlock = start ∧ r.journal.blockCount = count ∧
  r.journal.hmacKey = key ∧ r.journal.dirty = false ∧ r.journal.sb.magic = journalMagic ∧
  r.journal.sb.version = (if key = [] then journalVersion else journalVersionAuth) ∧
  key.length ≤ journalHmacKeyMax ∧
  r.journal.sb.blockCount = BitVec.ofNat 32 (count - 1) ∧
  r.journal.sb.head = 0 ∧ r.journal.sb.tail = 0 ∧
  r.writes = (range count).map (fun k => (u32 (start + k), zeros)) ++
    [(u32 start, r.journal.sb.bytes)]

theorem formatWithVersion_ok {v : BitVec 32} (h : (journalFormatWithVersion ampleHeap d old start count v).rc = 0) :
    ∃ r, journalFormatWithVersion ampleHeap d old start count v = r ∧ 4 ≤ count ∧
      r.journal.startBlock = start ∧ r.journal.blockCount = count ∧ r.journal.dirty = false ∧
      r.journal.sb.magic = journalMagic ∧ r.journal.sb.version = v ∧ r.journal.sb.blockCount = BitVec.ofNat 32 (count - 1) ∧
      r.journal.sb.head = 0 ∧ r.journal.sb.tail = 0 ∧ r.writes = (range count).map (fun k => (u32 (start + k), zeros)) ++
        [(u32 start, r.journal.sb.bytes)] := by
  refine ⟨_, rfl, ?_⟩
  unfold journalFormatWithVersion at h ⊢
  by_cases hc : count < 4
  · rw [if_pos hc] at h
    simp at h
  · rw [if_neg hc]
    exact ⟨Nat.le_of_not_lt hc, rfl, rfl, rfl, rfl, rfl, rfl, rfl, rfl, rfl⟩

theorem formatAs_ok (h : (formatAs ampleHeap d old start count key).rc = 0) :
    FormattedAs start count key (formatAs ampleHeap d old start count key) := by
  unfold formatAs at h ⊢
  by_cases hk : key = []
  · rw [if_pos hk] at h ⊢
    unfold journalFormat at h ⊢
    have hrc : (journalFormatWithVersion ampleHeap d old start count journalVersion).rc = 0 := by
      by_contra hn
      rw [if_neg hn] at h
      exact hn h
    obtain ⟨r, hr, hc, hs, hb, hd, hm, hv, hbc, hh, ht, hw⟩ := formatWithVersion_ok hrc
    simp only [hr] at hrc ⊢
    rw [if_pos hrc]
    exact ⟨hc, hs, hb, hk.symm, hd, hm, by rw [if_pos hk]; exact hv, by simp [hk], hbc, hh, ht, hw⟩
  · rw [if_neg hk] at h ⊢
    unfold journalFormatAuthenticated at h ⊢
    by_cases hlen : key.length = 0 ∨ journalHmacKeyMax < key.length
    · rw [if_pos hlen] at h
      simp at h
    · rw [if_neg hlen] at h ⊢
      have hrc :
          (journalFormatWithVersion ampleHeap d old start count journalVersionAuth).rc = 0 := by
        by_contra hn
        simp only [if_neg hn] at h
        exact hn h
      obtain ⟨r, hr, hc, hs, hb, hd, hm, hv, hbc, hh, ht, hw⟩ := formatWithVersion_ok hrc
      simp only [hr] at hrc ⊢
      rw [if_pos hrc]
      exact ⟨hc, hs, hb, rfl, hd, hm, by rw [if_neg hk]; exact hv, by omega, hbc, hh, ht, hw⟩

theorem WalInv.formatted (hmac : Hmac) (hrel : d.Reliable) (hfit : start + count ≤ d.blockCount)
    (h : (formatAs ampleHeap d old start count key).rc = 0) :
    WalInv hmac d (walStart d (formatAs ampleHeap d old start count key)) [] ∧
      (formatAs ampleHeap d old start count key).journal.startBlock = start ∧
      (formatAs ampleHeap d old start count key).journal.blockCount = count ∧
      (formatAs ampleHeap d old start count key).journal.hmacKey = key := by
  obtain ⟨hc, hs, hb, hk, hd, hm, hv, hlen, hbc, hh, ht, hw⟩ := formatAs_ok h
  generalize formatAs ampleHeap d old start count key = r at *
  have hlt := d.blockCount_lt
  have hring : r.journal.sb.blockCount.toNat = count - 1 := by
    rw [hbc, BitVec.toNat_ofNat]
    exact Nat.mod_eq_of_lt (by omega)
  have hplaced : Placed (d.apply r.writes) r.journal := by
    refine ⟨d.apply_reliable hrel, ?_, ?_, ?_⟩
    · rw [hs, hb]
      simpa using hfit
    · rw [hring, hb]
      omega
    · rw [hring]
      omega
  refine ⟨⟨⟨hplaced, ?_, hm, ?_, ?_, laid_nil _, ?_, ?_, by simp⟩, rfl, fun _ => rfl, ?_, ?_, ?_⟩,
    hs, hb, hk⟩
  · simp only [walStart]
    rw [hs, hw, d.apply_append, BlockDevice.apply_cons, BlockDevice.apply_nil, u32_of_lt (by omega)]
    refine BlockDevice.write_same _ _ ?_
    rw [d.apply_canWrite]
    exact hrel.canWrite (by omega)
  · simp only [walStart]
    rw [hv, hk]
    by_cases hkey : key = []
    · exact .inl ⟨by rw [if_pos hkey], hkey⟩
    · exact .inr ⟨by rw [if_neg hkey], length_pos_iff.mpr hkey, hlen⟩
  · simp only [walStart, ht, hring]
    simp
    omega
  · simp only [walStart, ht, hh, hring]
    simp
  · simp only [walStart, hring]
    simp
    omega
  · intro i t hi
    simp [walStart] at hi
  · simp [walStart]
  · intro b hbo
    have hnot : ¬ (start ≤ b ∧ b < start + count) := by
      simpa only [InRegion, walStart, hs, hb] using hbo
    refine d.apply_other ?_
    intro hmem
    rw [hw, map_append, map_map] at hmem
    rcases mem_append.mp hmem with hm | hm
    · obtain ⟨k, hk', he⟩ := mem_map.mp hm
      have hk' := mem_range.mp hk'
      simp only [comp_apply] at he
      rw [u32_of_lt (by omega)] at he
      omega
    · simp only [map_cons, map_nil, mem_singleton] at hm
      rw [u32_of_lt (by omega)] at hm
      omega

end

theorem walStep_dev (heap : Heap) (hmac : Hmac) (s : WalState) (op : WalOp) :
    (walStep heap hmac s op).1.dev = s.dev.apply (walStep heap hmac s op).2 := by
  cases op with
  | begin i => rfl
  | logBlock i target data =>
    cases ht : s.txns i with
    | none => simp [walStep, ht]
    | some t =>
      simp only [walStep, ht]
      split <;> rfl
  | commit i => cases ht : s.txns i <;> simp [walStep, ht]
  | abort i => cases ht : s.txns i <;> simp [walStep, ht]
  | checkpoint => rfl

/-- Recovery from a crashed device on which the records `ts` are pending. -/
theorem DiskInv.recovered {hmac : Hmac} {c : WalCrash} {ts : List Transaction}
    {fuel : Nat} (h : DiskInv hmac (c.crashed ampleHeap hmac) j ts)
    (hs : j.startBlock = c.startBlock) (hb : j.blockCount = c.blockCount)
    (hk : j.hmacKey = c.key) (hdur : c.durable ampleHeap hmac = ts.flatMap recordWrites)
    (hcount : (c.crashed ampleHeap hmac).blockCount = c.dev.blockCount)
    (hout : ∀ b, ¬ InRegion j b → (c.crashed ampleHeap hmac).blocks b = c.dev.blocks b)
    (hf : c.blockCount ≤ fuel) : c.Recovered ampleHeap hmac fuel := by
  have hring := h.placed.ring
  obtain ⟨j', ts', h', hs', hb', hk', hbc', hsame⟩ :=
    recoverCuts_same h c.old fuel (by omega) c.again
  have hdone := recover_spec h c.old fuel (by omega)
  have hdone' := recover_spec h' c.old fuel (by rw [hbc']; omega)
  rw [hs', hb', hk'] at hdone'
  rw [hs, hb, hk] at hdone hdone' hsame
  refine ⟨hdone'.1, ?_, ?_⟩
  · intro b hlt hnot
    have hreg : ¬ InRegion j b := by
      unfold InRegion
      rwa [hs, hb]
    simp only [WalCrash.recovery, WalCrash.interrupted]
    rw [hdone'.2, hsame, recovered_blocks h hreg (by omega), hdur]
    exact applyWrites_congr _ (hout b hreg)
  · simp only [WalCrash.recovery, WalCrash.interrupted]
    rw [hdone'.2, hsame, hdone.2]

/-- The write-ahead contract: whatever the run, wherever its last call crashes
and however often recovery is interrupted, a completed recovery brings back
what had become durable and nothing else. -/
theorem crash_recovers (hmac : Hmac) (c : WalCrash) (hc : c.Proper ampleHeap) (fuel : Nat)
    (hf : c.blockCount ≤ fuel) : c.Recovered ampleHeap hmac fuel := by
  obtain ⟨hinv, hs, hb, hk⟩ := WalInv.formatted hmac hc.reliable hc.fits hc.formats
  obtain ⟨ts, hrun, hsame⟩ := hinv.run c.ops (by
    intro op hop
    simp only [walStart, hs, hb]
    exact hc.targets op hop)
  have hs := hsame.1.trans hs
  have hb := hsame.2.1.trans hb
  have hk := hsame.2.2.1.trans hk
  obtain ⟨ts', hlast, hsame', hin, hcut⟩ := hrun.step c.last (by
    rw [hs, hb, hrun.shape.2]
    exact hc.target)
  by_cases hn : c.cut < (walStep ampleHeap hmac (c.before ampleHeap hmac) c.last).2.length
  · -- the call was cut short: recovery sees what it would have seen before it
    refine DiskInv.recovered (hcut c.cut hn) hs hb hk ?_ ?_ ?_ hf
    · simp only [WalCrash.durable, if_pos hn]
      exact hrun.durable
    · rw [WalCrash.crashed, BlockDevice.apply_blockCount]
      exact hrun.shape.2
    · intro b hreg
      exact hrun.outside_apply (fun w hw => hin w (mem_of_mem_take hw)) hreg
  · have hcr : c.crashed ampleHeap hmac =
        (walStep ampleHeap hmac (c.before ampleHeap hmac) c.last).1.dev := by
      rw [walStep_dev, WalCrash.crashed, take_of_length_le (Nat.le_of_not_lt hn)]
    refine DiskInv.recovered
      (j := (walStep ampleHeap hmac (c.before ampleHeap hmac) c.last).1.journal)
      (by rw [hcr]; exact hlast.disk) (hsame'.1.trans hs) (hsame'.2.1.trans hb)
      (hsame'.2.2.1.trans hk) ?_ ?_ ?_ hf
    · simp only [WalCrash.durable, if_neg hn]
      exact hlast.durable
    · rw [hcr]
      exact hlast.shape.2
    · rw [hcr]
      exact hlast.outside

/-- Six blocks of 512 bytes, all zero. -/
def smallDevice : BlockDevice :=
  ⟨512, 6, fun _ => zeros, fun _ => false, fun _ => false, sector_lt, by decide⟩

def blankJournal : Journal := ⟨0, 0, ⟨0, 0, 0, 0, 0, 0, 0, 0, fun _ => 0⟩, 0, false, []⟩

def wrappedCrash : WalCrash :=
  { dev := smallDevice, old := blankJournal, startBlock := 1, blockCount := 5, key := [1#8],
    ops := [.begin 0, .logBlock 0 0 (fun _ => 7#8), .commit 0, .checkpoint,
      .begin 1, .logBlock 1 0 (fun _ => 8#8)],
    last := .commit 1, cut := 4, again := [1] }

theorem wrappedCrash_recovers :
    wrappedCrash.Recovered ampleHeap (fun _ _ _ => 1#8) 5 :=
  crash_recovers _ wrappedCrash
    { reliable := fun _ => ⟨rfl, rfl⟩
      fits := by decide
      formats := by decide
      targets := by
        simp [WalOp.TargetOk, wrappedCrash, smallDevice]
      target := trivial } 5 (by decide)

def untaggedCrash : WalCrash :=
  { wrappedCrash with
    ops := [.begin 0, .logBlock 0 0 (fun _ => 7#8)], last := .commit 0, again := [] }

def scarceHeap : Heap := fun n => n != 549

/-- The commit reports success and its superblock update is on the device, but
the block tagged with zeros is refused by every replay. -/
theorem untaggedCrash_not_recovered :
    untaggedCrash.Proper scarceHeap ∧
      (untaggedCrash.durable scarceHeap (fun _ _ _ => 1#8)).map Prod.fst = [0] ∧
      ¬ untaggedCrash.Recovered scarceHeap (fun _ _ _ => 1#8) 5 := by
  refine ⟨⟨fun _ => ⟨rfl, rfl⟩, by decide, by decide +kernel, ?_, trivial⟩, by decide +kernel, ?_⟩
  · simp [WalOp.TargetOk, untaggedCrash, wrappedCrash, smallDevice]
  · intro h
    have hblock := congrFun (h.2.1 0 (by decide) (by decide)) 0
    exact absurd hblock (by decide +kernel)

end CapyOS.Proofs
