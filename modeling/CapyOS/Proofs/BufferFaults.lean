import CapyOS.Proofs.BufferCache

namespace CapyOS.Proofs
open Lib BufferCache Function List
variable {i : BufId} {blockNo : BitVec 32} {dev : Nat} {data : Bytes}

/-- The hash table is sound, whatever the LRU list and the devices do. -/
structure Hashed (c : BufferCache) : Prop where
  buckets : Buckets c (fun i => c.dev i ≠ 0)
  unique : ∀ i j, c.dev i ≠ 0 → c.dev i = c.dev j → c.blockNo i = c.blockNo j → i = j
  valid : ∀ i, c.valid i = true ↔ c.dev i ≠ 0

structure Guards (c : BufferCache) (i : BufId) (dev b : Nat) (data : Bytes) : Prop where
  ofDev : c.dev i = dev
  notNull : dev ≠ 0
  ofBlock : (c.blockNo i).toNat = b
  contents : c.data i = data
  dirty : c.dirty i = true
  valid : c.valid i = true

structure Guarded (c : BufferCache) (p : UnwrittenBlocks) : Prop extends Hashed c where
  kept : ∀ dev b data, p dev b = some data → ∃ i, Guards c i dev b data

section
variable {c c' : BufferCache} {p : UnwrittenBlocks}

theorem Hashed.congr (h : Hashed c) (hdev : c'.dev = c.dev) (hblock : c'.blockNo = c.blockNo)
    (hvalid : c'.valid = c.valid) (hnext : c'.hashNext = c.hashNext) (htable : c'.hashTable = c.hashTable) : Hashed c' := by
  constructor
  · intro k
    rw [hdev, hblock, hnext, htable]
    exact h.buckets k
  · rw [hdev, hblock]
    exact h.unique
  · rw [hvalid, hdev]
    exact h.valid

theorem Guarded.congr (h : Guarded c p) (hdev : c'.dev = c.dev) (hblock : c'.blockNo = c.blockNo)
    (hvalid : c'.valid = c.valid) (hnext : c'.hashNext = c.hashNext)
    (htable : c'.hashTable = c.hashTable) (hdata : c'.data = c.data) (hdirty : c'.dirty = c.dirty) : Guarded c' p := by
  refine ⟨h.toHashed.congr hdev hblock hvalid hnext htable, fun dev b data hp => ?_⟩
  obtain ⟨i, hi⟩ := h.kept dev b data hp
  exact ⟨i, by rw [hdev]; exact hi.ofDev, hi.notNull, by rw [hblock]; exact hi.ofBlock,
    by rw [hdata]; exact hi.contents, by rw [hdirty]; exact hi.dirty, by rw [hvalid]; exact hi.valid⟩

/-- A write-back either succeeds, and marks the buffer clean, or does nothing. -/
theorem writeBack_either (c : BufferCache) (i : BufId) : (c.writeSucceeds i = true ∧ (c.bufferWriteBack i).2 = { c with
      devices := update c.devices (c.dev i) ((c.devices (c.dev i)).write ((c.blockNo i).toNat, c.data i)),
      dirty := update c.dirty i false }) ∨ (c.writeSucceeds i = false ∧ (c.bufferWriteBack i).2 = c) := by
  unfold bufferWriteBack writeSucceeds
  by_cases hskip : c.dev i = 0 ∨ c.dirty i = false ∨ c.valid i = false
  · refine .inr ⟨?_, by rw [if_pos hskip]⟩
    obtain h0 | hd | hv := hskip
    · simp [h0]
    · simp [hd]
    · simp [hv]
  · rw [if_neg hskip]
    simp only [not_or, Bool.not_eq_false] at hskip
    obtain ⟨h0, hd, hv⟩ := hskip
    split
    next hcan => exact .inl ⟨by simp [h0, hd, hv, hcan], rfl⟩
    next hcan => exact .inr ⟨by simpa [h0, hd, hv] using hcan, rfl⟩

theorem settle_some {dev b : Nat} (h : c.settle i p dev b = some data) : p dev b = some data ∧
      (c.writeSucceeds i = true → ¬ (dev = c.dev i ∧ b = (c.blockNo i).toNat)) := by
  unfold settle at h
  split at h
  next =>
    dsimp only at h
    split at h
    next => cases h
    next hne => exact ⟨h, fun _ => hne⟩
  next hno => exact ⟨h, fun hyes => absurd hyes hno⟩

theorem Guarded.writeBack (h : Guarded c p) (i : BufId) : Guarded (c.bufferWriteBack i).2 (c.settle i p) := by
  obtain ⟨hyes, he⟩ | ⟨hno, he⟩ := writeBack_either c i
  · rw [he]
    refine ⟨h.toHashed.congr rfl rfl rfl rfl rfl, fun dev b data hp => ?_⟩
    obtain ⟨hp, hne⟩ := settle_some hp
    obtain ⟨j, hj⟩ := h.kept dev b data hp
    have hji : j ≠ i := by
      intro hji
      subst hji
      exact hne hyes ⟨hj.ofDev.symm, hj.ofBlock.symm⟩
    exact ⟨j, hj.ofDev, hj.notNull, hj.ofBlock, hj.contents, (update_of_ne hji _ _).trans hj.dirty, hj.valid⟩
  · rw [he]
    exact ⟨h.toHashed, fun dev b data hp => h.kept dev b data (settle_some hp).1⟩

theorem Guarded.forget (h : Guarded c p)
    (hi : c.dirty i = true → c.valid i = true → p (c.dev i) (c.blockNo i).toNat = none) : Guarded { c.hashRemove i with
      dev := update c.dev i 0, blockNo := update c.blockNo i 0, dirty := update c.dirty i false,
      valid := update c.valid i false } p := by
  have hb := hashRemove_buckets h.buckets i
  constructor
  · constructor
    · intro k
      obtain ⟨l, hl, hmem⟩ := hb k
      refine ⟨l, hl, fun j => ?_⟩
      rw [hmem]
      by_cases hji : j = i
      · subst hji
        simp
      · simp only [update_of_ne hji]
        exact ⟨fun ⟨⟨hd, _⟩, hk⟩ => ⟨hd, hk⟩, fun ⟨hd, hk⟩ => ⟨⟨hd, hji⟩, hk⟩⟩
    · intro j j' hj hd hb'
      have hji : j ≠ i := by
        rintro rfl
        exact hj (update_self ..)
      have hji' : j' ≠ i := by
        rintro rfl
        simp only [update_self, update_of_ne hji] at hj hd
        exact hj hd
      simp only [update_of_ne hji, update_of_ne hji'] at hj hd hb'
      exact h.unique j j' hj hd hb'
    · intro j
      by_cases hji : j = i
      · subst hji
        simp
      · simp only [update_of_ne hji]
        exact h.valid j
  · intro dev b data hp
    obtain ⟨j, hj⟩ := h.kept dev b data hp
    have hji : j ≠ i := by
      intro hji
      subst hji
      have hnone := hi hj.dirty hj.valid
      rw [hj.ofDev, hj.ofBlock, hp] at hnone
      cases hnone
    refine ⟨j, ?_, hj.notNull, ?_, hj.contents, ?_, ?_⟩
    · exact (update_of_ne hji _ _).trans hj.ofDev
    · exact (congrArg BitVec.toNat (update_of_ne hji _ _)).trans hj.ofBlock
    · exact (update_of_ne hji _ _).trans hj.dirty
    · exact (update_of_ne hji _ _).trans hj.valid

def VictimSaved (c : BufferCache) : Prop :=
  ∀ i, c.victim = some i → c.dirty i = true → c.valid i = true → c.writeSucceeds i = true

structure Emptied (c c' : BufferCache) (i : BufId) : Prop where
  dev : ∀ j, c'.dev j = if j = i then 0 else c.dev j
  blockNo : ∀ j, j ≠ i → c'.blockNo j = c.blockNo j

theorem Guarded.evict (h : Guarded c p) (hsafe : VictimSaved c)
    (he : c.bufferEvict = some (i, c')) : Guarded c' (c.unwrittenEvict p) ∧ Emptied c c' i := by
  unfold bufferEvict at he
  cases hv : walk c.lru.prev (fun i => c.refcount i == 0#16) bufferCacheMax c.lru.tail with
  | none => simp [hv] at he
  | some j =>
    simp only [hv, Option.some.injEq, Prod.mk.injEq] at he
    obtain ⟨rfl, rfl⟩ := he
    have hremoved : Guarded (c.lruRemove j) p := h.congr rfl rfl rfl rfl rfl rfl rfl
    simp only [unwrittenEvict, victim, hv]
    by_cases hdirty : ((c.lruRemove j).dirty j && (c.lruRemove j).valid j) = true
    · have hgo := hdirty
      simp only [Bool.and_eq_true] at hgo
      have hyes : (c.lruRemove j).writeSucceeds j = true := hsafe j hv hgo.1 hgo.2
      rw [if_pos hdirty, if_pos (show (c.dirty j && c.valid j) = true from hdirty)]
      have hwritten := hremoved.writeBack j
      obtain ⟨-, hback⟩ | ⟨hno, -⟩ := writeBack_either (c.lruRemove j) j
      · rw [hback] at hwritten ⊢
        refine ⟨hwritten.forget (fun hd _ => ?_), fun k => ?_, fun k hk => ?_⟩
        · exact absurd (update_self (β := fun _ => Bool) j false c.dirty ▸ hd) Bool.false_ne_true
        · exact update_apply _ _ _ _
        · exact update_of_ne hk _ _
      · exact absurd (hno.symm.trans hyes) Bool.false_ne_true
    · rw [if_neg hdirty, if_neg (show ¬ (c.dirty j && c.valid j) = true from hdirty)]
      refine ⟨hremoved.forget (fun hd hval => ?_), fun k => ?_, fun k hk => ?_⟩
      · exact absurd (Bool.and_eq_true_iff.mpr ⟨hd, hval⟩) hdirty
      · exact update_apply _ _ _ _
      · exact update_of_ne hk _ _

/-- An empty buffer takes a block that no other buffer has. -/
theorem Guarded.fill (h : Guarded c p) (hempty : c.dev i = 0) (hdev : dev ≠ 0)
    (hfree : ∀ j, c.dev j = dev → c.blockNo j ≠ blockNo) (pins : BitVec 16)
    (b : Bytes) :
    Guarded (hashInsert { c with
      dev := update c.dev i dev,
      blockNo := update c.blockNo i blockNo,
      refcount := update c.refcount i pins,
      data := update c.data i b,
      valid := update c.valid i true,
      dirty := update c.dirty i false } i) p := by
  have hbuckets : Buckets { c with
      dev := update c.dev i dev,
      blockNo := update c.blockNo i blockNo,
      refcount := update c.refcount i pins,
      data := update c.data i b,
      valid := update c.valid i true,
      dirty := update c.dirty i false } (fun j => c.dev j ≠ 0) := by
    intro k
    obtain ⟨l, hl, hmem⟩ := h.buckets k
    refine ⟨l, hl, fun j => ?_⟩
    rw [hmem]
    by_cases hj : j = i
    · subst hj
      simp [hempty]
    · simp [hj]
  constructor
  · constructor
    · intro k
      obtain ⟨l, hl, hmem⟩ := hashInsert_buckets hbuckets (not_not_intro hempty) k
      refine ⟨l, hl, fun j => ?_⟩
      rw [hmem]
      by_cases hj : j = i
      · subst hj
        simp [hashInsert, hdev]
      · simp [hashInsert, hj]
    · intro j j' hj hd hb
      by_cases hji : j = i <;> by_cases hji' : j' = i
      · rw [hji, hji']
      · subst hji
        simp only [hashInsert, update_self, update_of_ne hji'] at hd hb
        exact absurd hb.symm (hfree j' hd.symm)
      · subst hji'
        simp only [hashInsert, update_self, update_of_ne hji] at hd hb
        exact absurd hb (hfree j hd)
      · simp only [hashInsert, update_of_ne hji, update_of_ne hji'] at hj hd hb
        exact h.unique j j' hj hd hb
    · intro j
      by_cases hj : j = i
      · subst hj
        simp [hashInsert, hdev]
      · simpa [hashInsert, hj] using h.valid j
  · intro dev' b' data hp
    obtain ⟨j, hj⟩ := h.kept dev' b' data hp
    have hji : j ≠ i := by
      rintro rfl
      exact hj.notNull (hj.ofDev.symm.trans hempty)
    refine ⟨j, ?_, hj.notNull, ?_, ?_, ?_, ?_⟩
    · exact (update_of_ne hji _ _).trans hj.ofDev
    · exact (congrArg BitVec.toNat (update_of_ne hji _ _)).trans hj.ofBlock
    · exact (update_of_ne hji _ _).trans hj.contents
    · exact (update_of_ne hji _ _).trans hj.dirty
    · exact (update_of_ne hji _ _).trans hj.valid

theorem Guarded.relabel (h : Guarded c p) (hempty : c.dev i = 0) (hdev : c'.dev = c.dev)
    (hblock : ∀ j, j ≠ i → c'.blockNo j = c.blockNo j) (hvalid : c'.valid = c.valid)
    (hnext : c'.hashNext = c.hashNext) (htable : c'.hashTable = c.hashTable)
    (hdata : c'.data = c.data) (hdirty : c'.dirty = c.dirty) : Guarded c' p := by
  have hother : ∀ j, c.dev j ≠ 0 → j ≠ i := by
    rintro j hj rfl
    exact hj hempty
  constructor
  · constructor
    · intro k
      obtain ⟨l, hl, hmem⟩ := h.buckets k
      refine ⟨l, by rw [hnext, htable]; exact hl, fun j => ?_⟩
      rw [hmem, hdev]
      refine and_congr_right (fun hj => ?_)
      rw [hblock j (hother j hj)]
    · intro j j' hj hd hb
      rw [hdev] at hj hd
      rw [hblock j (hother j hj), hblock j' (hother j' (hd ▸ hj))] at hb
      exact h.unique j j' hj hd hb
    · rw [hvalid, hdev]
      exact h.valid
  · intro dev b data hp
    obtain ⟨j, hj⟩ := h.kept dev b data hp
    have hji := hother j (hj.ofDev ▸ hj.notNull)
    exact ⟨j, by rw [hdev]; exact hj.ofDev, hj.notNull, by rw [hblock j hji]; exact hj.ofBlock,
      by rw [hdata]; exact hj.contents, by rw [hdirty]; exact hj.dirty, by rw [hvalid]; exact hj.valid⟩

def GetSaves (c : BufferCache) (dev : Nat) (blockNo : BitVec 32) : Prop :=
  dev ≠ 0 → (c.devices dev).blockSize = bufferBlockSize → c.hashLookup dev blockNo = none →
    VictimSaved c

theorem Guarded.get (h : Guarded c p) (hsafe : GetSaves c dev blockNo) :
    Guarded (c.bufferGet dev blockNo).2 (c.unwrittenGet dev blockNo p) := by
  unfold BufferCache.bufferGet unwrittenGet
  split
  next => exact h
  next hok =>
    simp only [not_or, Decidable.not_not] at hok
    cases hlook : c.hashLookup dev blockNo with
    | some i =>
      simp only [Option.isSome_some, if_true]
      split
      next => exact h.congr rfl rfl rfl rfl rfl rfl rfl
      next => exact h.congr rfl rfl rfl rfl rfl rfl rfl
    | none =>
      simp only [Option.isSome_none, Bool.false_eq_true, if_false]
      have hvictim := hsafe hok.1 hok.2 hlook
      have hnone := (hashLookup_spec h.buckets hok.1 blockNo).2 hlook
      cases hev : c.bufferEvict with
      | none =>
        have hno : c.victim = none := by
          unfold bufferEvict at hev
          unfold victim
          split at hev
          next hw => exact hw
          next => cases hev
        simp only [unwrittenEvict, hno]
        exact h
      | some r =>
        obtain ⟨i, c₁⟩ := r
        obtain ⟨hg, hemptied⟩ := h.evict hvictim hev
        have hempty : c₁.dev i = 0 := by
          rw [hemptied.dev, if_pos rfl]
        have hfree : ∀ j, c₁.dev j = dev → c₁.blockNo j ≠ blockNo := by
          intro j hd
          by_cases hj : j = i
          · subst hj
            exact absurd (hempty.symm.trans hd) (Ne.symm hok.1)
          · rw [hemptied.dev, if_neg hj] at hd
            rw [hemptied.blockNo j hj]
            exact hnone j hd
        dsimp only
        cases hread : blockDeviceRead (c₁.devices dev) blockNo.toNat with
        | none =>
          apply hg.relabel hempty
          · simp only [lruInsertFront, update_idem]
            rw [← hempty, update_eq_self]
          · exact fun j hj => update_of_ne hj _ _
          · rfl
          · rfl
          · rfl
          · rfl
          · rfl
        | some b => exact hg.fill hempty hok.1 hfree 1 b

theorem Guarded.release (h : Guarded c p) (i : BufId) : Guarded (c.bufferRelease i) p := by
  unfold bufferRelease
  split
  next => exact h
  next =>
    dsimp only
    split
    next => exact h.congr rfl rfl rfl rfl rfl rfl rfl
    next => exact h.congr rfl rfl rfl rfl rfl rfl rfl

/-- A modification of a block's buffer leaves new contents to be written. -/
theorem Guarded.modify (h : Guarded c p) (i : BufId) (b : Bytes) :
    Guarded (c.step (.modify i b)) (c.unwrittenStep p (.modify i b)) := by
  have hhashed : Hashed (c.step (.modify i b)) := h.toHashed.congr rfl rfl rfl rfl rfl
  have hother : ∀ dev n data, p dev n = some data → ¬ (dev = c.dev i ∧ n = (c.blockNo i).toNat) →
      ∃ j, Guards (c.step (.modify i b)) j dev n data := by
    intro dev n data hp hne
    obtain ⟨j, hj⟩ := h.kept dev n data hp
    have hji : j ≠ i := by
      rintro rfl
      exact hne ⟨hj.ofDev.symm, hj.ofBlock.symm⟩
    exact ⟨j, hj.ofDev, hj.notNull, hj.ofBlock, (update_of_ne hji _ _).trans hj.contents,
      (update_of_ne hji _ _).trans hj.dirty, hj.valid⟩
  simp only [unwrittenStep]
  split
  next h0 =>
    refine ⟨hhashed, fun dev n data hp => hother dev n data hp (fun hsame => ?_)⟩
    obtain ⟨j, hj⟩ := h.kept dev n data hp
    exact hj.notNull (hsame.1.trans h0)
  next h0 =>
    refine ⟨hhashed, fun dev n data hp => ?_⟩
    split at hp
    next hsame =>
      obtain ⟨rfl, rfl⟩ := hsame
      refine ⟨i, rfl, h0, rfl, ?_, update_self .., (h.valid i).mpr h0⟩
      exact (update_self ..).trans (Option.some.inj hp)
    next hne => exact hother dev n data hp hne

theorem Guarded.sync (dev : Nat) (l : List BufId) (rc : Int) (h : Guarded c p) :
    Guarded (l.foldl (syncBuffer dev) (rc, c)).2 (unwrittenSync dev l c p) := by
  induction l generalizing rc c p with
  | nil => exact h
  | cons i l ih =>
    rw [foldl_cons]
    unfold unwrittenSync syncBuffer
    split
    next => exact ih _ (h.writeBack i)
    next => exact ih _ h

theorem Guarded.pass (dev maxBlocks n : Nat) (bh : Option BufId) (written : Nat) (h : Guarded c p) :
    Guarded (writebackFrom dev maxBlocks n bh written c).2 (unwrittenPass dev maxBlocks n bh written c p) := by
  induction n generalizing bh written c p with
  | zero => exact h
  | succ n ih =>
    cases bh with
    | none => exact h
    | some i =>
      simp only [writebackFrom, unwrittenPass]
      split
      next => exact h
      next =>
        split
        next =>
          split
          next => exact h.writeBack i
          next => exact ih _ _ (h.writeBack i)
        next => exact ih _ _ h

def ReadaheadSaves (dev : Nat) : Nat → Nat → BufferCache → Prop
  | 0, _, _ => True
  | n + 1, pos, c =>
    if 2 ^ 32 ≤ pos then True
    else if (c.devices dev).blockCount ≠ 0 ∧ (c.devices dev).blockCount ≤ pos then True
    else
      GetSaves c dev (BitVec.ofNat 32 pos) ∧
      match c.bufferGet dev (BitVec.ofNat 32 pos) with
      | (none, _) => True
      | (some i, c) => ReadaheadSaves dev n (pos + 1) (c.bufferRelease i)

theorem Guarded.readahead {dev n pos : Nat} (loaded : Nat) (h : Guarded c p) (hsafe : ReadaheadSaves dev n pos c) :
    Guarded (readaheadFrom dev n pos loaded c).2 (unwrittenReadahead dev n pos c p) := by
  induction n generalizing pos loaded c p with
  | zero => exact h
  | succ n ih =>
    unfold readaheadFrom unwrittenReadahead
    unfold ReadaheadSaves at hsafe
    split
    next => exact h
    next hpos =>
      rw [if_neg hpos] at hsafe
      split
      next => exact h
      next hcount =>
        rw [if_neg hcount] at hsafe
        obtain ⟨hget, hrest⟩ := hsafe
        have hg := h.get hget
        cases hgot : c.bufferGet dev (BitVec.ofNat 32 pos) with
        | mk r c₁ =>
          rw [hgot] at hg hrest
          cases r with
          | none => exact hg
          | some i => exact ih _ (hg.release i) hrest

def CallSaves (c : BufferCache) : BufOp → Prop
  | .get dev blockNo => GetSaves c dev blockNo
  | .readahead dev startBlock count => ReadaheadSaves dev count.toNat startBlock.toNat c
  | _ => True

theorem Guarded.step (h : Guarded c p) {op : BufOp} (hsafe : CallSaves c op) : Guarded (c.step op) (c.unwrittenStep p op) := by
  cases op with
  | get dev blockNo => exact h.get hsafe
  | modify i b => exact h.modify i b
  | release i => exact h.release i
  | writeBack i => exact h.writeBack i
  | sync dev => exact h.sync dev _ 0
  | writebackPass dev maxBlocks =>
    simp only [BufferCache.step, bufferCacheWritebackPass, unwrittenStep]
    split
    next => exact h
    next => exact h.pass dev _ _ _ 0
  | readahead dev startBlock count =>
    simp only [BufferCache.step, bufferCacheReadahead, unwrittenStep]
    split
    next => exact h
    next => exact h.readahead 0 hsafe

def RunSaves (r : BufferCache × UnwrittenBlocks) : List FaultStep → Prop
  | [] => True
  | s :: steps =>
    (match s with
      | .call op => CallSaves r.1 op
      | .fault _ _ => True) ∧ RunSaves (faultStep r s) steps

theorem Guarded.run {steps : List FaultStep} (h : Guarded c p) (hsafe : RunSaves (c, p) steps) :
    Guarded (steps.foldl faultStep (c, p)).1 (steps.foldl faultStep (c, p)).2 := by
  induction steps generalizing c p with
  | nil => exact h
  | cons s steps ih =>
    rw [foldl_cons]
    cases s with
    | call op => exact ih (h.step hsafe.1) hsafe.2
    | fault readFails writeFails => exact ih (h.congr rfl rfl rfl rfl rfl rfl rfl) hsafe.2

/-- A get of an unwritten block returns what is unwritten. -/
theorem Guarded.returns (h : Guarded c p)
    (hp : p dev blockNo.toNat = some data) (hi : (c.bufferGet dev blockNo).1 = some i) :
    (c.bufferGet dev blockNo).2.data i = data := by
  obtain ⟨j, hj⟩ := h.kept dev blockNo.toNat data hp
  have hblock : c.blockNo j = blockNo := BitVec.eq_of_toNat_eq hj.ofBlock
  have hspec := hashLookup_spec h.buckets hj.notNull blockNo
  cases hlook : c.hashLookup dev blockNo with
  | none => exact absurd hblock (hspec.2 hlook j hj.ofDev)
  | some k =>
    obtain ⟨hdev, hblk⟩ := hspec.1 k hlook
    have hkj : k = j := h.unique k j (hdev ▸ hj.notNull) (hdev.trans hj.ofDev.symm)
      (hblk.trans hblock.symm)
    unfold BufferCache.bufferGet at hi ⊢
    split at hi
    next => cases hi
    next hok =>
      rw [if_neg hok]
      simp only [hlook] at hi ⊢
      have hik : k = i := Option.some.inj hi
      rw [← hik, hkj]
      split
      next => exact hj.contents
      next => exact hj.contents

theorem Guarded.counted (h : Guarded c p) {dev b : Nat} (hp : p dev b = some data) :
    ∃ i, c.dev i = dev ∧ (c.blockNo i).toNat = b ∧ i ∈ c.dirtyBuffers dev ∧ i ∈ c.dirtyBuffers 0 := by
  obtain ⟨i, hi⟩ := h.kept dev b data hp
  refine ⟨i, hi.ofDev, hi.ofBlock, ?_, ?_⟩
  · exact mem_filter.mpr ⟨mem_finRange i, by simp [hi.valid, hi.dirty, hi.ofDev]⟩
  · exact mem_filter.mpr ⟨mem_finRange i, by simp [hi.valid, hi.dirty]⟩

/-- As long as no get evicts a dirty buffer whose block cannot be written, a block
that was modified and not written since is returned as it was modified, and its
buffer is among those counted dirty. -/
theorem dirty_survives (hs : Hashed c) (steps : List FaultStep)
    (hsafe : RunSaves (c, fun _ _ => none) steps) {dev : Nat} {blockNo : BitVec 32} {data : Bytes}
    (hp : (faultRun c steps).2 dev blockNo.toNat = some data) :
    (∀ i, ((faultRun c steps).1.bufferGet dev blockNo).1 = some i →
      ((faultRun c steps).1.bufferGet dev blockNo).2.data i = data) ∧
    ∃ i, (faultRun c steps).1.dev i = dev ∧ (faultRun c steps).1.blockNo i = blockNo ∧
      i ∈ (faultRun c steps).1.dirtyBuffers dev ∧ i ∈ (faultRun c steps).1.dirtyBuffers 0 := by
  have hstart : Guarded c (fun _ _ => none) := ⟨hs, fun _ _ _ h => by cases h⟩
  have hend := hstart.run hsafe
  obtain ⟨i, hdev, hblock, hmem⟩ := hend.counted hp
  exact ⟨fun i hi => hend.returns hp hi, i, hdev, BitVec.eq_of_toNat_eq hblock, hmem⟩

end

theorem init_hashed (devices : Nat → BlockDevice) : Hashed (init devices) := by
  unfold init
  rw [insertAll_spec]
  exact ⟨fun k => ⟨[], .nil, fun i => by simp⟩, fun i j h0 => absurd rfl h0, fun i => by simp⟩

theorem init_clean (devices : Nat → BlockDevice) (i : BufId) : (init devices).dirty i = false := by
  unfold init
  rw [insertAll_spec]

/-- A device of 64 blocks and one more, where writes to block 0 fail. -/
def tiredDevices : Nat → BlockDevice := fun _ =>
  ⟨4096, 65, fun _ => zeros, fun _ => false, fun n => n == 0, page_lt, by decide⟩

def crowdedCache : BufferCache where
  dev _ := 1
  blockNo j := BitVec.ofNat 32 j.val
  data _ := zeros
  dirty _ := false
  valid _ := true
  refcount _ := 1
  hashNext j := (finRange bufferCacheMax).find? fun k =>
    decide (j < k) && bufferHash 1 (BitVec.ofNat 32 k.val) == bufferHash 1 (BitVec.ofNat 32 j.val)
  lru := ⟨none, none, fun _ => none, fun _ => none⟩
  hashTable h := (finRange bufferCacheMax).find? fun k => bufferHash 1 (BitVec.ofNat 32 k.val) == h
  devices := tiredDevices

def tiredRun : List FaultStep :=
  [.call (.modify firstBuffer (fun _ => 7)), .call (.release firstBuffer), .call (.get 1 64#32),
    .call (.release ⟨1, by decide⟩)]

/-- Block 0 is still unwritten, no dirty buffer is left, and a get returns what the
device has. -/
theorem tired_loses_block :
    ((faultRun crowdedCache tiredRun).2 1 0).map (fun b => b 0) = some 7 ∧
    (faultRun crowdedCache tiredRun).1.bufferCacheDirtyCount 1 = 0 ∧
    (((faultRun crowdedCache tiredRun).1.bufferGet 1 0#32).1.map fun i =>
      ((faultRun crowdedCache tiredRun).1.bufferGet 1 0#32).2.data i 0) = some 0 := by
  decide

def patientRun : List FaultStep :=
  [.call (.get 1 0#32), .call (.modify firstBuffer (fun _ => 7)), .call (.release firstBuffer),
    .call (.sync 1)]

theorem dirty_survives_patient :
    ∃ i, (faultRun (init tiredDevices) patientRun).1.dev i = 1 ∧
      (faultRun (init tiredDevices) patientRun).1.blockNo i = 0#32 ∧
      i ∈ (faultRun (init tiredDevices) patientRun).1.dirtyBuffers 1 := by
  have hsafe : RunSaves (init tiredDevices, fun _ _ => none) patientRun := by
    refine ⟨fun _ _ _ i _ hdirty => ?_, trivial, trivial, trivial, trivial⟩
    exact absurd ((init_clean tiredDevices i).symm.trans hdirty) Bool.false_ne_true
  have hp : ∃ data, (faultRun (init tiredDevices) patientRun).2 1 (0#32).toNat = some data :=
    Option.isSome_iff_exists.mp (by decide)
  obtain ⟨data, hp⟩ := hp
  obtain ⟨-, i, hdev, hblock, hmem, -⟩ := dirty_survives (init_hashed tiredDevices) patientRun hsafe hp
  exact ⟨i, hdev, hblock, hmem⟩

end CapyOS.Proofs
