import CapyOS.Proofs.VolumeOps

namespace CapyOS.Proofs
open Lib FsM Volume Function
variable {p : BitVec 32} {y : CapyInodeDisk} {ino : Nat} {b : Nat} {i j : Nat} {k : Nat}

structure Bounded (m : CapySuper) (v : Volume) : Prop where
  blocks : ∀ b, v.bmap b = true → InData m b
  inodes : ∀ ino, v.imap ino = true → ino < m.inodeCount.toNat

theorem volumeOf_bounded (m : CapySuper) (d : BlockDevice) : Bounded m (volumeOf m d) := by
  constructor
  · intro b hb
    simp only [volumeOf, Bool.and_eq_true, decide_eq_true_eq] at hb
    exact hb.1
  · intro ino hi
    simp only [volumeOf, Bool.and_eq_true, decide_eq_true_eq] at hi
    exact hi.1

theorem Yields.bounded {α : Type} {m : CapySuper} {v : Volume} {f : FsM α}
    {Q : Option α → Volume → Prop} (h : Bounded m v → Yields m v f Q) : Yields m v f Q := by
  rintro s hc rfl
  exact h (volumeOf_bounded m s.dev) s hc rfl

section
variable {w w' : Volume}

/-- Two slots of live inodes with one block are the same. -/
theorem slot_inj (hs : w.Sound) (s t : Slot) (hi : w.imap i = true)
    (hj : w.imap j = true) (h0 : (w.ptr (w.inode i) s).toNat ≠ 0)
    (he : (w.ptr (w.inode i) s).toNat = (w.ptr (w.inode j) t).toNat) : i = j ∧ s = t := by
  have h := hs.blocks.once (i, s) (j, t) (by simpa [pointers, hi] using h0)
    (by simpa [pointers, hi, hj] using he)
  exact Prod.mk.inj h

theorem slot_taken (hs : w.Sound) {i : Nat} (s : Slot) (hi : w.imap i = true)
    (h0 : (w.ptr (w.inode i) s).toNat ≠ 0) : w.bmap (w.ptr (w.inode i) s).toNat = true := by
  have h := hs.blocks.held (i, s) (by simpa [pointers, hi] using h0)
  simpa [pointers, hi] using h

theorem entries_congr (h : w'.dirents = w.dirents) : w'.entries = w.entries := by
  funext k
  simp only [Volume.entries, h]

structure Grown (ino : Nat) (w w' : Volume) : Prop where
  imap : w'.imap = w.imap
  others : ∀ i, i ≠ ino → w'.inode i = w.inode i
  mode : (w'.inode ino).mode = (w.inode ino).mode
  size : (w'.inode ino).size = (w.inode ino).size
  keep : ∀ k, w.pointers k ≠ 0 → w'.pointers k = w.pointers k
  dirents : w'.dirents = w.dirents
  safe : w'.Safe
  tight : w.Tight → w'.Tight

theorem Grown.refl (hs : w.Safe) : Grown ino w w :=
  ⟨rfl, fun _ _ => rfl, rfl, rfl, fun _ _ => rfl, rfl, hs, id⟩

theorem Grown.trans {w'' : Volume} (h : Grown ino w w') (h' : Grown ino w' w'') : Grown ino w w'' := by
  refine ⟨h'.imap.trans h.imap, fun i hi => (h'.others i hi).trans (h.others i hi),
    h'.mode.trans h.mode, h'.size.trans h.size, fun k hk => ?_, h'.dirents.trans h.dirents, h'.safe,
    fun ht => h'.tight (h.tight ht)⟩
  have hkeep := h.keep k hk
  rw [h'.keep k (by rw [hkeep]; exact hk), hkeep]

section
variable (himap : w'.imap = w.imap) (hmode : ∀ i, (w'.inode i).mode = (w.inode i).mode)
include himap hmode

theorem isDirectory_congr (i : Nat) : w'.IsDirectory i ↔ w.IsDirectory i := by
  unfold IsDirectory CapyInodeDisk.isDir
  rw [himap, hmode]

omit hmode in
/-- Kept pointers keep the blocks of directories in place. -/
theorem entryBlock_kept (hkeep : ∀ k, w.pointers k ≠ 0 → w'.pointers k = w.pointers k)
    (hs : w.Sound) {i j : Nat} (hd : w.IsDirectory i) (hj : j < w.entryCount i) : w'.entryBlock i j = w.entryBlock i j := by
  have h0 := hs.full i j hd hj
  have hk := hkeep (i, slotOf (j / direntsPerBlock)) (by simpa [pointers, hd.1, entryBlock] using h0)
  simpa [pointers, himap, hd.1, entryBlock] using hk

variable (hsize : ∀ i, (w'.inode i).size = (w.inode i).size)
  (hkeep : ∀ k, w.pointers k ≠ 0 → w'.pointers k = w.pointers k)
include hsize hkeep

/-- What is enough for the entries of all directories to stay. -/
theorem dirents_kept (hs : w.Sound) (hdata : ∀ i j, w.IsDirectory i → j < w.entryCount i →
    w'.data (w.entryBlock i j) = w.data (w.entryBlock i j)) : w'.dirents = w.dirents := by
  funext k
  obtain ⟨i, j⟩ := k
  have hcount : w'.entryCount i = w.entryCount i := by
    unfold entryCount
    rw [hsize]
  have hdir := isDirectory_congr himap hmode i
  simp only [Volume.dirents]
  by_cases hd : w.IsDirectory i ∧ j < w.entryCount i
  · rw [entryBlock_kept himap hkeep hs hd.1 hd.2, hdata i j hd.1 hd.2, hcount]
    simp only [hdir]
  · rw [if_neg, if_neg]
    · exact fun h => hd ⟨h.1, h.2.1⟩
    · exact fun h => hd ⟨hdir.mp h.1, hcount ▸ h.2.1⟩

theorem grown_of {ino : Nat} (hs : w.Safe) (hothers : ∀ i, i ≠ ino → w'.inode i = w.inode i)
    (hdata : ∀ i j, w.IsDirectory i → j < w.entryCount i → w'.data (w.entryBlock i j) = w.data (w.entryBlock i j))
    (hblocks : Owned w'.pointers w'.bmap) (htight : w.Tight → w'.Tight) : Grown ino w w' := by
  have hent := dirents_kept himap hmode hsize hkeep hs.toSound hdata
  refine ⟨himap, hothers, hmode ino, hsize ino, hkeep, hent, ⟨⟨hblocks, ?_, ?_⟩, ?_⟩, htight⟩
  · exact (isDirectory_congr himap hmode 0).mpr hs.root
  · intro i j hd hj
    have hd' := (isDirectory_congr himap hmode i).mp hd
    have hj' : j < w.entryCount i := by
      unfold entryCount at hj ⊢
      rwa [hsize] at hj
    rw [entryBlock_kept himap hkeep hs.toSound hd' hj']
    exact hs.full i j hd' hj'
  · rw [entries_congr hent, himap]
    exact hs.inodes

end

/-- The blocks behind directory entries are in use, and none is an indirect block. -/
theorem entryBlock_slot (hs : w.Sound) (hd : w.IsDirectory i)
    (hj : j < w.entryCount i) : w.bmap (w.entryBlock i j) = true ∧
      ∀ i', w.imap i' = true → (w.inode i').indirect.toNat ≠ w.entryBlock i j := by
  have h0 := hs.full i j hd hj
  refine ⟨slot_taken hs _ hd.1 h0, fun i' hi' he => ?_⟩
  have hne := (slot_inj hs _ .indirect hd.1 hi' h0 he.symm).2
  unfold slotOf at hne
  split at hne <;> cases hne

theorem pointers_data (himap : w'.imap = w.imap) (hinode : w'.inode = w.inode)
    (hdata : ∀ i, w.imap i = true → (w.inode i).indirect.toNat ≠ 0 →
      w'.data (w.inode i).indirect.toNat = w.data (w.inode i).indirect.toNat) : w'.pointers = w.pointers := by
  funext k
  obtain ⟨i, s⟩ := k
  simp only [pointers, himap, hinode]
  split
  · rename_i hi
    cases s with
    | direct i => rfl
    | indirect => rfl
    | entry k =>
      simp only [ptr]
      by_cases h0 : (w.inode i).indirect = 0#32
      · simp [h0]
      · rw [hdata i hi (fun hz => h0 (BitVec.eq_of_toNat_eq hz))]
  · rfl

theorem takeBlock_pointers (hs : w.Sound) (hb : w.bmap b = false) : (takeBlock w b).pointers = w.pointers := by
  refine @pointers_data w (takeBlock w b) rfl rfl (fun i hi h0 => ?_)
  apply update_of_ne
  intro he
  have := slot_taken hs .indirect hi h0
  rw [show (w.ptr (w.inode i) .indirect).toNat = b from he, hb] at this
  cases this

end

section
variable {w : Volume} {ino : Nat}

theorem pointers_direct (hi : w.imap ino = true) (l : Fin 12) (p : BitVec 32) :
    (w.put ino { w.inode ino with direct := update (w.inode ino).direct l p }).pointers =
      update w.pointers (ino, .direct l) p.toNat := by
  funext k
  obtain ⟨i, s⟩ := k
  by_cases he : i = ino
  · subst he
    cases s with
    | direct j =>
      by_cases hj : j = l
      · subst hj
        simp [pointers, put, ptr, hi]
      · simp [pointers, put, ptr, hi, hj]
    | indirect => simp [pointers, put, ptr]
    | entry k => simp [pointers, put, ptr]
  · simp [pointers, put, ptr, he]

theorem pointers_indirect (hi : w.imap ino = true) (h0 : (w.inode ino).indirect = 0#32)
    (hz : w.data p.toNat = zeros) : (w.put ino { w.inode ino with indirect := p }).pointers =
      update w.pointers (ino, .indirect) p.toNat := by
  funext k
  obtain ⟨i, s⟩ := k
  by_cases he : i = ino
  · subst he
    cases s with
    | direct j => simp [pointers, put, ptr]
    | indirect => simp [pointers, put, ptr, hi]
    | entry k =>
      have hentry : indirectEntry zeros k = 0#32 := by
        simp [indirectEntry, field32, load_zeros]
      simp [pointers, put, ptr, h0, hz, hentry]
  · simp [pointers, put, ptr, he]

theorem indirectEntry_store (b : Bytes) (k : Nat) (p : BitVec 32) (j : Nat) :
    indirectEntry (Lib.store b (4 * k) 4 p.toNat) j = if j = k then p else indirectEntry b j := by
  apply BitVec.eq_of_toNat_eq
  by_cases hj : j = k
  · subst hj
    have := p.isLt
    rw [if_pos rfl, indirectEntry, field32_toNat, load_store_same]
    exact Nat.mod_eq_of_lt (by omega)
  · rw [if_neg hj, indirectEntry, indirectEntry, field32_toNat, field32_toNat, load_store_other (by omega)]

theorem pointers_entry (hs : Owned w.pointers w.bmap) (hi : w.imap ino = true)
    (h0 : (w.inode ino).indirect ≠ 0#32) (hk : k < entriesPerBlock) (p : BitVec 32) :
    (w.store (w.inode ino).indirect.toNat (Lib.store (w.data (w.inode ino).indirect.toNat) (4 * k) 4 p.toNat)).pointers =
      update w.pointers (ino, .entry k) p.toNat := by
  have hnz : (w.inode ino).indirect.toNat ≠ 0 := fun hz => h0 (BitVec.eq_of_toNat_eq hz)
  funext key
  obtain ⟨i, s⟩ := key
  by_cases he : i = ino
  · subst he
    cases s with
    | direct j => simp [pointers, Volume.store, ptr, hi]
    | indirect => simp [pointers, Volume.store, ptr, hi]
    | entry j =>
      by_cases hj : j = k
      · subst hj
        simp [pointers, Volume.store, ptr, hi, h0, hk, indirectEntry_store]
      · simp [pointers, Volume.store, ptr, hj, indirectEntry_store]
  · rw [update_of_ne (by simp [he])]
    simp only [pointers, Volume.store]
    by_cases hl : w.imap i = true
    · cases s with
      | direct j => rfl
      | indirect => rfl
      | entry j =>
        simp only [ptr]
        by_cases hz : (w.inode i).indirect = 0#32
        · simp [hz]
        · have hne : (w.inode i).indirect.toNat ≠ (w.inode ino).indirect.toNat := by
            intro heq
            have := hs.once (i, .indirect) (ino, .indirect)
              (by simpa [pointers, hl, ptr] using fun h => hz (BitVec.eq_of_toNat_eq h)) (by simpa [pointers, hl, hi, ptr] using heq)
            exact he (Prod.mk.inj this).1
          rw [update_of_ne hne]
    · simp [hl]

variable {w' : Volume}

theorem grown_assign (hs : w.Safe) (hb : w.bmap b = false) (h0 : b ≠ 0)
    {key : Nat × Slot} (hk : w.pointers key = 0) (hp : w'.pointers = update w.pointers key b)
    (hbmap : w'.bmap = update w.bmap b true) (himap : w'.imap = w.imap)
    (hmode : ∀ i, (w'.inode i).mode = (w.inode i).mode) (hsize : ∀ i, (w'.inode i).size = (w.inode i).size)
    (hothers : ∀ i, i ≠ ino → w'.inode i = w.inode i) (hdata : ∀ i j, w.IsDirectory i → j < w.entryCount i →
      w'.data (w.entryBlock i j) = w.data (w.entryBlock i j)) : Grown ino w w' := by
  refine grown_of himap hmode hsize (fun k hne => ?_) hs hothers hdata ?_ (fun ht => ?_)
  · rw [hp]
    apply update_of_ne
    rintro rfl
    exact hne hk
  · rw [hp, hbmap]
    refine hs.blocks.assign (hs.blocks.fresh hb h0) (fun c hc => ?_) (update_self ..)
    by_cases hcb : c = b
    · rw [hcb, update_self]
    · rw [update_of_ne hcb]
      exact hc
  · show Lib.Covered w'.pointers w'.bmap
    rw [hp, hbmap]
    refine Covered.assign ht hk (fun c hc => ?_)
    by_cases hcb : c = b
    · exact .inr hcb
    · rw [update_of_ne hcb] at hc
      exact .inl hc

theorem entryBlock_ne_fresh (hs : w.Sound) (hb : w.bmap b = false)
    (hd : w.IsDirectory i) (hj : j < w.entryCount i) : w.entryBlock i j ≠ b := by
  rintro rfl
  rw [(entryBlock_slot hs hd hj).1] at hb
  cases hb

/-- An inode points to a block of its own. -/
theorem grown_put (hs : w.Safe) (hb : w.bmap b = false) (h0 : b ≠ 0) {key : Nat × Slot}
    (hk : w.pointers key = 0) {x : CapyInodeDisk}
    (hp : ((takeBlock w b).put ino x).pointers = update (takeBlock w b).pointers key b)
    (hmode : x.mode = (w.inode ino).mode) (hsize : x.size = (w.inode ino).size) :
    Grown ino w ((takeBlock w b).put ino x) := by
  rw [takeBlock_pointers hs.toSound hb] at hp
  refine grown_assign hs hb h0 hk hp rfl rfl (fun i => ?_) (fun i => ?_)
    (fun i he => update_of_ne he _ _) (fun i j hd hj =>
      update_of_ne (entryBlock_ne_fresh hs.toSound hb hd hj) _ _)
  all_goals
    by_cases he : i = ino
    · subst he
      simp [put, hmode, hsize]
    · simp [put, he, takeBlock]

theorem grown_direct (hs : w.Safe) (hi : w.imap ino = true) {l : Fin 12}
    (hz : (w.inode ino).direct l = 0#32) (hb : w.bmap p.toNat = false) (h0 : p.toNat ≠ 0) :
    Grown ino w ((takeBlock w p.toNat).put ino { w.inode ino with direct := update (w.inode ino).direct l p }) := by
  have hp := pointers_direct (w := takeBlock w p.toNat) hi l p
  exact grown_put hs hb h0 (by simp [pointers, ptr, hz]) hp rfl rfl

theorem grown_indirect (hs : w.Safe) (hi : w.imap ino = true)
    (hz : (w.inode ino).indirect = 0#32) (hb : w.bmap p.toNat = false) (h0 : p.toNat ≠ 0) :
    Grown ino w ((takeBlock w p.toNat).put ino { w.inode ino with indirect := p }) := by
  have hp := pointers_indirect (w := takeBlock w p.toNat) hi hz (p := p) (update_self ..)
  exact grown_put hs hb h0 (by simp [pointers, ptr, hz]) hp rfl rfl

theorem grown_entry (hs : w.Safe) (hi : w.imap ino = true) (hind : (w.inode ino).indirect ≠ 0#32)
    (hk : k < entriesPerBlock) (hz : indirectEntry (w.data (w.inode ino).indirect.toNat) k = 0#32)
    (hb : w.bmap p.toNat = false) (h0 : p.toNat ≠ 0) : Grown ino w ((takeBlock w p.toNat).store (w.inode ino).indirect.toNat
      (Lib.store ((takeBlock w p.toNat).data (w.inode ino).indirect.toNat) (4 * k) 4 p.toNat)) := by
  have hnz : (w.inode ino).indirect.toNat ≠ 0 := fun hz => hind (BitVec.eq_of_toNat_eq hz)
  have hown : Owned (takeBlock w p.toNat).pointers (takeBlock w p.toNat).bmap := by
    rw [takeBlock_pointers hs.toSound hb]
    refine hs.blocks.mono (fun key hne => ?_)
    have hheld := hs.blocks.held key hne
    have hne' : w.pointers key ≠ p.toNat := hs.blocks.fresh hb h0 key
    exact (update_of_ne hne' _ _).trans hheld
  have hp := pointers_entry (w := takeBlock w p.toNat) hown hi hind hk p
  rw [takeBlock_pointers hs.toSound hb] at hp
  refine grown_assign hs hb h0 (by simp [pointers, ptr, hz]) hp rfl rfl (fun i => rfl) (fun i => rfl)
    (fun i _ => rfl) (fun i j hd hj => ?_)
  simp only [Volume.store]
  rw [update_of_ne (Ne.symm ((entryBlock_slot hs.toSound hd hj).2 ino hi))]
  exact update_of_ne (entryBlock_ne_fresh hs.toSound hb hd hj) _ _

end

section
variable {m : CapySuper} {v : Volume} {ino : Nat} {x : CapyInodeDisk}

@[simp] theorem put_put (y : CapyInodeDisk) : (v.put ino x).put ino y = v.put ino y := by
  simp [put]

theorem takeBlock_put (b : Nat) (y : CapyInodeDisk) :
    (takeBlock (v.put ino x) b).put ino y = (takeBlock v b).put ino y := by
  simp [takeBlock, put]

@[simp] theorem put_inode_self : (v.put ino x).inode ino = x := by
  simp [put]

@[simp] theorem put_self : v.put ino (v.inode ino) = v := by
  simp [put]

theorem SoundLayout.data_pos (h : SoundLayout m) (hb : InData m b) : b ≠ 0 := by
  have h1 := h.bmap
  have h2 := h.imap
  have h3 := h.inode
  have h4 := h.data
  have h5 := hb.1
  omega

theorem allocPointer_yields (hl : SoundLayout m) : Yields m v (allocPointer m) (fun r w => ∃ p, r = some p ∧ match p with
      | none => w = v
      | some q => InData m q.toNat ∧ v.bmap q.toNat = false ∧ w = takeBlock v q.toNat) := by
  unfold allocPointer
  refine (allocBlock_yields hl).tried (fun r w ⟨hq, _⟩ => Yields.pure ?_)
  cases r with
  | none => exact ⟨none, rfl, hq⟩
  | some b =>
    obtain ⟨hb, hfree, hw⟩ := hq
    have hn : (BitVec.ofNat 32 b).toNat = b := by
      have := m.blockCount.isLt
      have := hb.2
      rw [BitVec.toNat_ofNat]
      exact Nat.mod_eq_of_lt (by omega)
    refine ⟨some (BitVec.ofNat 32 b), rfl, ?_⟩
    simp only [hn]
    exact ⟨hb, hfree, hw⟩

/-- The pointers of a live inode's record lie in the data region. -/
theorem ptr_inData (hb : Bounded m v) (hs : (v.put ino x).Safe) (hi : v.imap ino = true)
    (s : Slot) (h0 : v.ptr x s ≠ 0#32) : InData m (v.ptr x s).toNat := by
  have h := slot_taken hs.toSound (i := ino) s hi (by
    rw [put_inode_self]
    exact fun hz => h0 (BitVec.eq_of_toNat_eq hz))
  rw [put_inode_self] at h
  exact hb.blocks _ h

structure Fetched (ino l : Nat) (v : Volume) (x : CapyInodeDisk) (db : DataBlock) (v' : Volume) :
    Prop where
  inode : v'.inode = v.inode
  grown : Grown ino (v.put ino x) (v'.put ino db.inode)
  clean : db.dirty = false → db.inode = x
  block : ∀ p, db.block = some p → p ≠ 0#32 ∧ v'.ptr db.inode (slotOf l) = p
  direct : l < 12 → db.block = none → v' = v ∧ db.inode = x
  lost : db.block = none → v' = v ∨ ∃ q, v.bmap q = false ∧ v' = takeBlock v q

theorem getIndirectBlock_yields (hl : SoundLayout m) (hs : (v.put ino x).Safe)
    (hi : v.imap ino = true) (h0 : x.indirect ≠ 0#32) (hk : k < entriesPerBlock) (dirty : Bool) :
    Yields m v (getIndirectBlock m x x.indirect k true dirty) (fun r v' => ∃ db, r = some db ∧
      v'.inode = v.inode ∧ Grown ino (v.put ino x) (v'.put ino db.inode) ∧ db.inode = x ∧
      db.dirty = dirty ∧ (∀ p, db.block = some p → p ≠ 0#32 ∧ v'.ptr db.inode (.entry k) = p) ∧
      (db.block = none → v' = v)) := by
  refine Yields.bounded (fun hb => ?_)
  have hind : InData m x.indirect.toNat := ptr_inData hb hs hi .indirect h0
  unfold getIndirectBlock
  refine (getBlock_does hind).triedSeq ?_
  simp only
  by_cases hz : indirectEntry (v.data x.indirect.toNat) k = 0#32
  · simp only [hz, and_true, if_true]
    refine (allocPointer_yields hl).next (fun p w hp => ?_)
    cases p with
    | none =>
      cases hp
      exact Yields.pure ⟨_, rfl, rfl, Grown.refl hs, rfl, rfl, (fun _ h => by cases h), fun _ => rfl⟩
    | some q =>
      obtain ⟨hq, hfree, rfl⟩ := hp
      refine (getBlock_does hind).seq ((putBlock_does hind _).seq (Yields.pure ⟨_, rfl, rfl, ?_, rfl, rfl, ?_, fun h => by cases h⟩))
      · have hg := grown_entry (w := v.put ino x) (k := k) (p := q) hs hi
          (by rw [put_inode_self]; exact h0) hk (by rw [put_inode_self]; exact hz) hfree
          (hl.data_pos hq)
        rw [put_inode_self] at hg
        exact hg
      · rintro _ ⟨⟩
        refine ⟨fun hq0 => hl.data_pos hq (by rw [hq0]; rfl), ?_⟩
        simp [ptr, h0, hk, Volume.store, indirectEntry_store]
  · rw [if_neg (fun h => hz h.1)]
    refine Yields.pure ⟨_, rfl, rfl, Grown.refl hs, rfl, rfl, ?_, fun h => by cases h⟩
    rintro _ ⟨⟩
    exact ⟨hz, by simp [ptr, h0, hk]⟩

theorem getDataBlock_yields (hl : SoundLayout m) (hs : (v.put ino x).Safe) (hi : v.imap ino = true) (l : Nat) :
    Yields m v (capyfsGetDataBlock m x l true) (fun r v' => ∃ db, r = some db ∧ Fetched ino l v x db v') := by
  unfold capyfsGetDataBlock
  by_cases hdir : l < 12
  · have hslot : slotOf l = .direct ⟨l, hdir⟩ := by simp [slotOf, hdir]
    rw [dif_pos hdir]
    by_cases hz : x.direct ⟨l, hdir⟩ = 0#32
    · rw [if_pos ⟨hz, rfl⟩]
      refine (allocPointer_yields hl).next (fun p w hp => ?_)
      cases p with
      | none =>
        cases hp
        exact Yields.pure ⟨_, rfl, rfl, Grown.refl hs, fun _ => rfl, (fun _ h => by cases h), fun _ _ => ⟨rfl, rfl⟩,
          fun _ => .inl rfl⟩
      | some q =>
        obtain ⟨hq, hfree, rfl⟩ := hp
        refine Yields.pure ⟨_, rfl, rfl, ?_, (fun h => by cases h), ?_, (fun _ h => by cases h), fun h => by cases h⟩
        · have hg := grown_direct (w := v.put ino x) (l := ⟨l, hdir⟩) (p := q) hs hi
            (by rw [put_inode_self]; exact hz) hfree (hl.data_pos hq)
          rw [put_inode_self, takeBlock_put] at hg
          exact hg
        · rintro _ ⟨⟩
          refine ⟨fun hq0 => hl.data_pos hq (by rw [hq0]; rfl), ?_⟩
          simp [hslot, ptr]
    · rw [if_neg (fun h => hz h.1)]
      refine Yields.pure ⟨_, rfl, rfl, Grown.refl hs, fun _ => rfl, ?_, (fun _ h => by cases h), fun h => by cases h⟩
      rintro _ ⟨⟩
      exact ⟨hz, by rw [hslot]; rfl⟩
  · have hslot : slotOf l = .entry (l - 12) := by simp [slotOf, hdir]
    rw [dif_neg hdir]
    split
    · exact Yields.pure ⟨_, rfl, rfl, Grown.refl hs, fun _ => rfl, (fun _ h => by cases h), fun h => absurd h hdir,
        fun _ => .inl rfl⟩
    · rename_i hk
      have hk : l - 12 < entriesPerBlock := Nat.lt_of_not_le hk
      by_cases hind : x.indirect = 0#32
      · rw [if_pos hind, if_neg (by simp)]
        refine (allocPointer_yields hl).next (fun p w hp => ?_)
        cases p with
        | none =>
          cases hp
          exact Yields.pure ⟨_, rfl, rfl, Grown.refl hs, fun _ => rfl, (fun _ h => by cases h), fun h => absurd h hdir,
            fun _ => .inl rfl⟩
        | some q =>
          obtain ⟨hq, hfree, rfl⟩ := hp
          have hg := grown_indirect (w := v.put ino x) (p := q) hs hi
            (by rw [put_inode_self]; exact hind) hfree (hl.data_pos hq)
          rw [put_inode_self, takeBlock_put] at hg
          have hq0 : q ≠ 0#32 := fun h => hl.data_pos hq (by rw [h]; rfl)
          refine (getIndirectBlock_yields (x := { x with indirect := q }) hl hg.safe hi hq0 hk
            true).mono ?_
          rintro _ w ⟨db, rfl, hinode, hgrown, hx, hdirty, hblock, hlost⟩
          refine ⟨db, rfl, hinode, hg.trans hgrown, ?_, ?_, fun h => absurd h hdir,
            fun hnone => .inr ⟨_, hfree, hlost hnone⟩⟩
          · intro hd
            rw [hdirty] at hd
            cases hd
          · rw [hslot]
            exact hblock
      · rw [if_neg hind]
        refine (getIndirectBlock_yields hl hs hi hind hk false).mono ?_
        rintro _ w ⟨db, rfl, hinode, hgrown, hx, hdirty, hblock, hlost⟩
        refine ⟨db, rfl, hinode, hgrown, fun _ => hx, ?_, fun h => absurd h hdir,
          fun hnone => .inl (hlost hnone)⟩
        rw [hslot]
        exact hblock

end

/-- A volume that was changed without a difference to bitmaps' owners, directories
or the kinds of inodes. -/
structure Keeps (v v' : Volume) : Prop where
  imap : v'.imap = v.imap
  mode : ∀ i, v.imap i = true → (v'.inode i).mode = (v.inode i).mode
  dirents : v'.dirents = v.dirents
  safe : v'.Safe
  tight : v.Tight → v'.Tight

theorem Keeps.refl {v : Volume} (h : v.Safe) : Keeps v v := ⟨rfl, fun _ _ => rfl, rfl, h, id⟩

theorem Keeps.trans {v v' v'' : Volume} (h : Keeps v v') (h' : Keeps v' v'') : Keeps v v'' :=
  ⟨h'.imap.trans h.imap, fun i hi => (h'.mode i (by rw [h.imap, hi])).trans (h.mode i hi), h'.dirents.trans h.dirents, h'.safe,
    fun ht => h'.tight (h.tight ht)⟩

theorem Grown.modes {v v' : Volume} (h : Grown ino v v') (i : Nat) : (v'.inode i).mode = (v.inode i).mode := by
  by_cases he : i = ino
  · subst he
    exact h.mode
  · rw [h.others i he]

theorem Grown.keeps {v v' : Volume} (h : Grown ino v v') : Keeps v v' :=
  ⟨h.imap, fun i _ => h.modes i, h.dirents, h.safe, h.tight⟩

variable {m : CapySuper} {v : Volume} {ino : Nat}

theorem put_ptr (hdirect : y.direct = (v.inode ino).direct)
    (hindirect : y.indirect = (v.inode ino).indirect) (i : Nat) (s : Slot) :
    (v.put ino y).ptr ((v.put ino y).inode i) s = v.ptr (v.inode i) s := by
  by_cases he : i = ino
  · subst he
    rw [put_inode_self]
    cases s <;> simp [ptr, hdirect, hindirect, put]
  · simp only [put, update_of_ne he]
    rfl

theorem put_pointers (hdirect : y.direct = (v.inode ino).direct)
    (hindirect : y.indirect = (v.inode ino).indirect) : (v.put ino y).pointers = v.pointers := by
  funext k
  simp only [pointers, put_ptr hdirect hindirect]
  rfl

theorem keeps_put (hs : v.Safe) (hmode : y.mode = (v.inode ino).mode)
    (hdirect : y.direct = (v.inode ino).direct) (hindirect : y.indirect = (v.inode ino).indirect)
    (hsize : ¬ v.IsDirectory ino ∨ y.size = (v.inode ino).size) : Keeps v (v.put ino y) := by
  have hm : ∀ i, ((v.put ino y).inode i).mode = (v.inode i).mode := by
    intro i
    by_cases he : i = ino
    · subst he
      rw [put_inode_self, hmode]
    · simp [put, he]
  have hptr := put_ptr hdirect hindirect
  have hpointers := put_pointers hdirect hindirect
  have hdir := @isDirectory_congr v (v.put ino y) rfl hm
  have hcount : ∀ i, v.IsDirectory i → (v.put ino y).entryCount i = v.entryCount i := by
    intro i hd
    unfold entryCount
    by_cases he : i = ino
    · subst he
      rcases hsize with hno | hsize
      · exact absurd hd hno
      · rw [put_inode_self, hsize]
    · simp [put, he]
  have hblock : ∀ i j, (v.put ino y).entryBlock i j = v.entryBlock i j := by
    intro i j
    simp only [entryBlock, hptr]
  have hdirents : (v.put ino y).dirents = v.dirents := by
    funext k
    simp only [Volume.dirents, hdir, hblock]
    by_cases hd : v.IsDirectory k.1
    · rw [hcount k.1 hd]
      rfl
    · simp [hd]
  refine ⟨rfl, fun i _ => hm i, hdirents, ⟨⟨?_, (hdir 0).mpr hs.root, fun i j hd hj => ?_⟩, ?_⟩, fun ht => ?_⟩
  · rw [hpointers]
    exact hs.blocks
  · have hd' := (hdir i).mp hd
    rw [hcount i hd'] at hj
    rw [hblock]
    exact hs.full i j hd' hj
  · rw [entries_congr hdirents]
    exact hs.inodes
  · show Lib.Covered (v.put ino y).pointers v.bmap
    rw [hpointers]
    exact ht

theorem grown_store (hs : v.Safe) (hi : v.imap ino = true) (hd : ¬ v.IsDirectory ino) {l b : Nat}
    (hb : (v.ptr (v.inode ino) (slotOf l)).toNat = b) (c : Bytes) : Grown ino v (v.store b c) := by
  have hslot : slotOf l ≠ .indirect := by
    unfold slotOf
    split <;> exact Slot.noConfusion
  have hp : (v.store b c).pointers = v.pointers := by
    refine @pointers_data v (v.store b c) rfl rfl (fun i hl h0' => update_of_ne ?_ _ _)
    intro he
    have := (slot_inj hs.toSound .indirect (slotOf l) hl hi h0' (he.trans hb.symm)).2
    exact hslot this.symm
  refine @grown_of v (v.store b c) rfl (fun _ => rfl) (fun _ => rfl) (fun k _ => by rw [hp]) ino hs
    (fun _ _ => rfl) (fun i j hdi hj => ?_) ?_ (fun ht => ?_)
  · apply update_of_ne
    intro he
    have hsame := (slot_inj hs.toSound (slotOf (j / direntsPerBlock)) (slotOf l) hdi.1 hi
      (hs.full i j hdi hj) (he.trans hb.symm)).1
    rw [hsame] at hdi
    exact hd hdi
  · rw [hp]
    exact hs.blocks
  · show Lib.Covered (v.store b c).pointers v.bmap
    rw [hp]
    exact ht

theorem writeLoop_yields (hl : SoundLayout m) (pos : Nat) (src : Bytes) (size : Nat) (n : Nat)
    {x : CapyInodeDisk} (written : Nat) (dirty : Bool) (hs : (v.put ino x).Safe)
    (hi : v.imap ino = true) (hd : ¬ (v.put ino x).IsDirectory ino) :
    Yields m v (capyfsWriteLoop m pos src size n written x dirty) (fun r v' => ∃ a, r = some a ∧
      v'.inode = v.inode ∧ Grown ino (v.put ino x) (v'.put ino a.2.1) ∧ (a.2.2 = false → dirty = false ∧ a.2.1 = x)) := by
  induction n generalizing v x written dirty with
  | zero => exact Yields.pure ⟨_, rfl, rfl, Grown.refl hs, fun h => ⟨h, rfl⟩⟩
  | succ n ih =>
    simp only [capyfsWriteLoop]
    split
    · exact Yields.pure ⟨_, rfl, rfl, Grown.refl hs, fun h => ⟨h, rfl⟩⟩
    · refine (getDataBlock_yields hl hs hi _).next (fun db w hf => ?_)
      have hclean : (dirty || db.dirty) = false → dirty = false ∧ db.inode = x := by
        intro h
        obtain ⟨h1, h2⟩ := Bool.or_eq_false_iff.mp h
        exact ⟨h1, hf.clean h2⟩
      cases hblk : db.block with
      | none => exact Yields.pure ⟨_, rfl, hf.inode, hf.grown, hclean⟩
      | some p =>
        obtain ⟨hp0, hptr⟩ := hf.block p hblk
        simp only
        rw [if_neg hp0]
        refine Yields.bounded (fun hb => ?_)
        have himap : w.imap = v.imap := hf.grown.imap
        have hiw : w.imap ino = true := by rw [himap, hi]
        have hpd : InData m p.toNat := by
          rw [← hptr]
          exact ptr_inData hb hf.grown.safe hiw _ (by rw [hptr]; exact hp0)
        have hdw : ¬ (w.put ino db.inode).IsDirectory ino := by
          rw [isDirectory_congr hf.grown.imap hf.grown.modes]
          exact hd
        refine (getBlock_does hpd).triedSeq ((putBlock_does hpd _).seq ?_)
        have hg := grown_store (v := w.put ino db.inode) hf.grown.safe hiw hdw
          (b := p.toNat) (by rw [put_inode_self, ← hptr]; rfl)
        refine (ih (v := w.store p.toNat _) (x := db.inode) _ _ (hg _).safe hiw hdw).mono ?_
        rintro _ w' ⟨a, rfl, hinode, hgrown, hkept⟩
        refine ⟨a, rfl, hinode.trans hf.inode, hf.grown.trans ((hg _).trans hgrown), fun ha => ?_⟩
        obtain ⟨hold, hsame⟩ := hkept ha
        obtain ⟨h1, h2⟩ := hclean hold
        exact ⟨h1, hsame.trans h2⟩

theorem write_yields (hl : SoundLayout m) (hs : v.Safe) {h : VInode} (hi : v.imap h.ino = true)
    (hm : (v.inode h.ino).mode = h.mode) (pos : Nat) (src : Bytes) (size : Nat) :
    Yields m v (capyfsWrite m h pos src size) (fun r w => Keeps v w ∧
      ∀ n h', r = some (n, h') → h'.ino = h.ino ∧ h'.mode = h.mode) := by
  unfold capyfsWrite
  split
  · refine Yields.pure ⟨Keeps.refl hs, ?_⟩
    intro n h' he
    cases he
    exact ⟨rfl, rfl⟩
  · split
    · exact Yields.fail ⟨Keeps.refl hs, nofun⟩
    · rename_i hdir
      have hd : ¬ v.IsDirectory h.ino := by
        rintro ⟨_, hd⟩
        unfold CapyInodeDisk.isDir at hd
        rw [hm] at hd
        exact hdir hd
      refine Yields.bounded (fun hb => ?_)
      have hino := hb.inodes _ hi
      refine (readInode_does hino).seq ?_
      refine (writeLoop_yields (x := v.inode h.ino) hl pos src size size 0 false
        (by rw [put_self]; exact hs) hi (by rw [put_self]; exact hd)).next ?_
      rintro ⟨written, x, dirty⟩ w ⟨hinode, hgrown, hclean⟩
      rw [put_self] at hgrown
      simp only
      -- the record that is stored differs from the loop's in its size at most
      have hkeeps : ∀ n, Keeps v (w.put h.ino { x with size := n }) := by
        intro n
        have hd' : ¬ (w.put h.ino x).IsDirectory h.ino := by
          rw [isDirectory_congr hgrown.imap hgrown.modes]
          exact hd
        have hk : Keeps (w.put h.ino x) ((w.put h.ino x).put h.ino { x with size := n }) := keeps_put hgrown.safe
          (by rw [put_inode_self]) (by rw [put_inode_self]) (by rw [put_inode_self]) (.inl hd')
        rw [put_put] at hk
        exact hgrown.keeps.trans hk
      split
      · refine (writeInode_does hino _).triedSeq ?_
        simp only [Option.isNone_some, Bool.false_eq_true, if_false]
        refine Yields.pure ⟨?_, ?_⟩
        · split
          · exact hkeeps _
          · exact hgrown.keeps
        · intro n h' he
          cases he
          exact ⟨rfl, rfl⟩
      · rename_i hquiet
        simp only [Bool.or_eq_true, not_or, Bool.not_eq_true] at hquiet
        have hx := (hclean hquiet.1).2
        refine Yields.pure ⟨?_, ?_⟩
        · have hw : w.put h.ino x = w := by
            rw [show x = w.inode h.ino by rw [hinode]; exact hx, put_self]
          rw [hw] at hgrown
          exact hgrown.keeps
        · intro n h' he
          cases he
          exact ⟨rfl, rfl⟩

theorem setMetadata_yields (hs : v.Safe) {h : VInode} (hi : v.imap h.ino = true) (info : VfsMetadata) :
    Yields m v (capyfsSetMetadata m h info) (fun r w => Keeps v w ∧ ∃ h', r = some h' ∧ h'.ino = h.ino ∧ h'.mode = h.mode) := by
  refine Yields.bounded (fun hb => ?_)
  have hino := hb.inodes _ hi
  unfold capyfsSetMetadata
  refine (readInode_does hino).seq ((writeInode_does hino _).seq (Yields.pure ⟨?_, _, rfl, rfl, rfl⟩))
  exact keeps_put hs rfl rfl rfl (.inr rfl)

end CapyOS.Proofs
