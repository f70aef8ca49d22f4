import CapyOS.Proofs.VolumeFiles

namespace CapyOS.Proofs
open Lib FsM Volume Function List
variable {name : Name} {k : Nat × Nat} {child : Nat} {u : Volume}

section
variable {a b : Bytes} {off off' child : Nat} {name : Name}

theorem namesEqualFrom_iff (a : Bytes) (n i : Nat) (name : Name) : namesEqualFrom a n i name = true ↔
      (listBytes (fun k => a (i + k)) n).takeWhile (fun c => c ≠ 0) = name ∧ name.length < n := by
  induction n generalizing i name with
  | zero => simp [namesEqualFrom]
  | succ n ih =>
    have hcons : listBytes (fun k => a (i + k)) (n + 1) =
        a i :: listBytes (fun k => a (i + 1 + k)) n := by
      simp only [listBytes, range_succ_eq_map, map_cons, map_map, Nat.add_zero]
      congr 1
      apply map_congr_left
      intro k _
      simp only [comp_apply]
      congr 1
      omega
    rw [hcons]
    by_cases h0 : a i = 0#8
    · rw [takeWhile_cons_of_neg (by simp [h0])]
      cases name with
      | nil => simp [namesEqualFrom, h0]
      | cons c cs => simp [namesEqualFrom, h0]
    · rw [takeWhile_cons_of_pos (by simpa using h0)]
      cases name with
      | nil => simp [namesEqualFrom, h0]
      | cons c cs =>
        have htail := ih (i + 1) cs
        by_cases hc : a i = c
        · rw [cons_eq_cons, length_cons, Nat.add_lt_add_iff_right, and_assoc, ← htail]
          simp only [namesEqualFrom]
          have hne : ¬ a i = 0 := h0
          rw [if_neg hne, if_neg (not_not.mpr hc)]
          exact ⟨fun h => ⟨hc, h⟩, fun h => h.2⟩
        · simp [namesEqualFrom, h0, hc]

theorem namesEqual_iff : namesEqual a name = true ↔ fieldName a = name ∧ name.length < capyfsNameMax := by
  unfold namesEqual fieldName
  rw [namesEqualFrom_iff]
  simp only [Nat.zero_add]

theorem namesEqualFrom_of (hz : IsCString name) {n i : Nat} (hn : name.length < n)
    (hget : ∀ k (h : k < name.length), a (i + k) = name[k]) (hend : a (i + name.length) = 0) :
    namesEqualFrom a n i name = true := by
  induction name generalizing n i with
  | nil =>
    obtain ⟨n, rfl⟩ := Nat.exists_eq_succ_of_ne_zero (by omega : n ≠ 0)
    simpa [namesEqualFrom] using hend
  | cons c cs ih =>
    obtain ⟨n, rfl⟩ := Nat.exists_eq_succ_of_ne_zero (by omega : n ≠ 0)
    have h0 := hget 0 (by simp)
    have hc := hz c (by simp)
    simp only [Nat.add_zero, getElem_cons_zero] at h0
    simp only [namesEqualFrom, h0, hc, if_false, ne_eq, not_true_eq_false]
    refine ih (fun c' h => hz c' (by simp [h])) (by simp at hn; omega) (fun k hk => ?_) ?_
    · have := hget (k + 1) (by simpa using hk)
      rw [show i + 1 + k = i + (k + 1) by omega, this, getElem_cons_succ]
    · rw [← hend]
      congr 1
      simp only [length_cons]
      omega

theorem fieldName_copy (b : Bytes) (o : Nat) (hz : IsCString name) :
    fieldName (fun k => cstringCopy b o capyfsNameMax name (o + k)) = name.take 31 := by
  have hlen : (name.take 31).length = min name.length (capyfsNameMax - 1) := by
    simp [capyfsNameMax, Nat.min_comm]
  refine (namesEqual_iff.mp (namesEqualFrom_of (fun c hc => hz c (mem_of_mem_take hc)) ?_ ?_ ?_)).1
  · rw [hlen]
    simp only [capyfsNameMax]
    omega
  · intro k hk
    rw [hlen] at hk
    rw [Nat.zero_add, cstringCopy, blit_inside (by omega), if_pos hk, getElem_take]
    simp [getD_eq_getElem?_getD, show k < name.length by omega]
  · rw [Nat.zero_add, hlen, cstringCopy, blit_inside (by omega), if_neg (by omega)]

theorem readDirent_congr (h : ∀ i, direntSize * off ≤ i → i < direntSize * off + direntSize → a i = b i) :
    readDirent a off = readDirent b off := by
  simp only [direntSize] at h
  have hino : direntIno a off = direntIno b off :=
    field32_congr (fun i hl hu => h i (by simp only [direntSize] at hl; omega)
      (by simp only [direntSize] at hu; omega))
  have hname : listBytes (direntName a off) capyfsNameMax = listBytes (direntName b off) capyfsNameMax :=
    listBytes_congr (fun i hi => h _ (by simp only [direntSize]; omega)
      (by simp only [direntSize, capyfsNameMax] at *; omega))
  simp only [readDirent, fieldName, hino, hname]

theorem cstringCopy_outside {o i : Nat} (h : i < o ∨ o + capyfsNameMax ≤ i) : cstringCopy b o capyfsNameMax name i = b i := by
  unfold cstringCopy
  apply blit_outside
  simp only [capyfsNameMax] at *
  omega

theorem direntIno_copy : direntIno (cstringCopy b (direntSize * off + 4) capyfsNameMax name) off' = direntIno b off' := by
  refine field32_congr (fun i hl hu => cstringCopy_outside ?_)
  simp only [direntSize, capyfsNameMax] at *
  omega

theorem readDirent_copy_other (h : off' ≠ off) :
    readDirent (cstringCopy b (direntSize * off + 4) capyfsNameMax name) off' = readDirent b off' := by
  refine readDirent_congr (fun i hl hu => cstringCopy_outside ?_)
  simp only [direntSize, capyfsNameMax] at *
  omega

theorem readDirent_copy (hz : IsCString name) : readDirent (cstringCopy b (direntSize * off + 4) capyfsNameMax name) off =
      ((direntIno b off).toNat, name.take 31) := by
  simp only [readDirent, direntIno_copy]
  exact congrArg _ (fieldName_copy b (direntSize * off + 4) hz)

theorem readDirent_put_other (h : off' ≠ off) : readDirent (putDirent b off child name) off' = readDirent b off' := by
  unfold putDirent
  rw [readDirent_copy_other h]
  refine readDirent_congr (fun i hl hu => blit_outside ?_)
  simp only [direntSize] at *
  omega

theorem direntIno_put (hc : child < 2 ^ 32) : (direntIno (putDirent b off child name) off).toNat = child := by
  unfold putDirent
  rw [direntIno_copy, direntIno, field32_toNat, load_store_same]
  exact Nat.mod_eq_of_lt (by omega)

theorem readDirent_put (hc : child < 2 ^ 32) (hz : IsCString name) (hlen : name.length < capyfsNameMax) :
    readDirent (putDirent b off child name) off = (child, name) := by
  have hino : (direntIno (putDirent b off child name) off).toNat = child := direntIno_put hc
  unfold putDirent at hino ⊢
  rw [readDirent_copy hz, take_of_length_le (by simp only [capyfsNameMax] at hlen; omega)]
  rw [direntIno_copy] at hino
  rw [hino]

theorem readDirent_clear_other (h : off' ≠ off) : readDirent (clearDirent b off) off' = readDirent b off' := by
  unfold clearDirent
  refine readDirent_congr (fun i hl hu => ?_)
  unfold Lib.store
  simp only [direntSize] at *
  rw [blit_outside (by omega), blit_outside (by omega)]

theorem direntIno_clear : direntIno (clearDirent b off) off = 0#32 := by
  apply BitVec.eq_of_toNat_eq
  unfold clearDirent direntIno
  rw [field32_toNat, load_store_other (by omega), load_store_same]
  rfl

end

theorem slotOf_inj {l l' : Nat} (h : slotOf l = slotOf l') : l = l' := by
  unfold slotOf at h
  split at h
  · split at h
    · simpa using h
    · cases h
  · split at h
    · cases h
    · have := Slot.entry.inj h
      omega

section
variable {v w : Volume} {dir i j : Nat}

theorem dirents_of (hs : v.Sound) (hd : v.IsDirectory i) (hj : j < v.entryCount i) :
    v.dirents (i, j) = readDirent (v.data (v.entryBlock i j)) (j % direntsPerBlock) :=
  if_pos ⟨hd, hj, hs.full i j hd hj⟩

theorem dirents_none (h : ¬ (v.IsDirectory i ∧ j < v.entryCount i)) : v.dirents (i, j) = (0, []) :=
  if_neg (fun hc => h ⟨hc.1, hc.2.1⟩)

theorem entries_dir (h : v.entries k ≠ 0) : v.IsDirectory k.1 ∧ k.2 < v.entryCount k.1 := by
  by_contra hno
  exact h (congrArg Prod.fst (dirents_none hno))

structure Edited (v w : Volume) (k : Nat × Nat) (e : Nat × Name) : Prop where
  imap : w.imap = v.imap
  mode : ∀ i, (w.inode i).mode = (v.inode i).mode
  others : ∀ i, i ≠ k.1 → w.inode i = v.inode i
  keep : ∀ key, v.pointers key ≠ 0 → w.pointers key = v.pointers key
  dirents : w.dirents = update v.dirents k e
  sound : w.Sound
  tight : v.Tight → w.Tight

theorem Edited.trans {e e' : Nat × Name} (h : Edited v w k e)
    (h' : Edited w u k e') : Edited v u k e' := by
  refine ⟨h'.imap.trans h.imap, fun i => (h'.mode i).trans (h.mode i),
    fun i hi => (h'.others i hi).trans (h.others i hi), fun key h0 => ?_, ?_, h'.sound,
    fun ht => h'.tight (h.tight ht)⟩
  · have hkeep := h.keep key h0
    rw [h'.keep key (by rw [hkeep]; exact h0), hkeep]
  · rw [h'.dirents, h.dirents, update_idem]

theorem Grown.edited {e : Nat × Name} (h : Grown k.1 v w)
    (h' : Edited w u k e) : Edited v u k e := by
  refine ⟨h'.imap.trans h.imap, fun i => (h'.mode i).trans (h.modes i),
    fun i hi => (h'.others i hi).trans (h.others i hi), fun key h0 => ?_, ?_, h'.sound,
    fun ht => h'.tight (h.tight ht)⟩
  · have hkeep := h.keep key h0
    rw [h'.keep key (by rw [hkeep]; exact h0), hkeep]
  · rw [h'.dirents, h.dirents]

theorem Edited.entries {e : Nat × Name} (h : Edited v w k e) : w.entries = update v.entries k e.1 := by
  funext k'
  unfold Volume.entries
  rw [h.dirents]
  by_cases hk : k' = k
  · subst hk
    simp
  · simp [hk]

theorem edited_store (hs : v.Sound) (hd : v.IsDirectory dir) (hj : j < v.entryCount dir) {c : Bytes}
    (hc : ∀ off, off ≠ j % direntsPerBlock → readDirent c off = readDirent (v.data (v.entryBlock dir j)) off) :
    Edited v (v.store (v.entryBlock dir j) c) (dir, j) (readDirent c (j % direntsPerBlock)) := by
  generalize hw : v.store (v.entryBlock dir j) c = w
  have himap : w.imap = v.imap := by rw [← hw]; rfl
  have hinode : w.inode = v.inode := by rw [← hw]; rfl
  have hbmap : w.bmap = v.bmap := by rw [← hw]; rfl
  have hdata : w.data = update v.data (v.entryBlock dir j) c := by rw [← hw]; rfl
  have hp : w.pointers = v.pointers := by
    refine pointers_data himap hinode (fun i hi h0 => ?_)
    rw [hdata]
    exact update_of_ne ((entryBlock_slot hs hd hj).2 i hi) _ _
  have hkeep : ∀ key, v.pointers key ≠ 0 → w.pointers key = v.pointers key := fun _ _ => by rw [hp]
  have hmode : ∀ i, (w.inode i).mode = (v.inode i).mode := fun _ => by rw [hinode]
  have hdir := isDirectory_congr himap hmode
  have hcount : ∀ i, w.entryCount i = v.entryCount i := fun i => by
    unfold entryCount
    rw [hinode]
  have hblock : ∀ i j, v.IsDirectory i → j < v.entryCount i → w.entryBlock i j = v.entryBlock i j :=
    fun i j => entryBlock_kept himap hkeep hs
  have hsound : w.Sound := by
    refine ⟨?_, (hdir 0).mpr hs.root, fun i j hdi hji => ?_⟩
    · rw [hp, hbmap]
      exact hs.blocks
    · rw [hcount] at hji
      rw [hdir] at hdi
      rw [hblock i j hdi hji]
      exact hs.full i j hdi hji
  refine ⟨himap, hmode, fun _ _ => by rw [hinode], hkeep, ?_, hsound, fun ht => ?_⟩
  · funext k
    obtain ⟨i, j'⟩ := k
    by_cases hk : v.IsDirectory i ∧ j' < v.entryCount i
    · rw [dirents_of hsound ((hdir i).mpr hk.1) (by rw [hcount]; exact hk.2), hblock i j' hk.1 hk.2, hdata]
      by_cases hb : v.entryBlock i j' = v.entryBlock dir j
      · -- the same block is the same directory's, so only the offset can differ
        obtain ⟨rfl, hslot⟩ := slot_inj hs _ _ hk.1.1 hd.1 (hs.full i j' hk.1 hk.2) hb
        have hdiv := slotOf_inj hslot
        rw [hb, update_self]
        by_cases hoff : j' % direntsPerBlock = j % direntsPerBlock
        · have : j' = j := by
            rw [← Nat.div_add_mod j' direntsPerBlock, hdiv, hoff, Nat.div_add_mod]
          rw [this, update_self]
        · rw [hc _ hoff, update_of_ne, dirents_of hs hk.1 hk.2, hb]
          rintro ⟨⟩
          exact hoff rfl
      · rw [update_of_ne hb, update_of_ne, dirents_of hs hk.1 hk.2]
        rintro ⟨⟩
        exact hb rfl
    · rw [dirents_none (by rw [hdir, hcount]; exact hk), update_of_ne, dirents_none hk]
      rintro ⟨⟩
      exact hk ⟨hd, hj⟩
  · unfold Tight
    rw [hp, hbmap]
    exact ht

theorem edited_extend (hs : v.Sound) (hd : v.IsDirectory dir) (h0 : v.entryBlock dir (v.entryCount dir) ≠ 0)
    {n : BitVec 32} (hn : n.toNat = (v.entryCount dir + 1) * direntSize) :
    Edited v (v.put dir { v.inode dir with size := n }) (dir, v.entryCount dir)
      (readDirent (v.data (v.entryBlock dir (v.entryCount dir))) (v.entryCount dir % direntsPerBlock)) := by
  generalize hw : v.put dir { v.inode dir with size := n } = w
  have himap : w.imap = v.imap := by rw [← hw]; rfl
  have hbmap : w.bmap = v.bmap := by rw [← hw]; rfl
  have hdata : w.data = v.data := by rw [← hw]; rfl
  have hself : w.inode dir = { v.inode dir with size := n } := by rw [← hw, put_inode_self]
  have hothers : ∀ i, i ≠ dir → w.inode i = v.inode i := fun i hi => by
    rw [← hw]
    exact update_of_ne hi _ _
  have hmode : ∀ i, (w.inode i).mode = (v.inode i).mode := by
    intro i
    by_cases hi : i = dir
    · rw [hi, hself]
    · rw [hothers i hi]
  have hptr : ∀ i s, w.ptr (w.inode i) s = v.ptr (v.inode i) s := by
    intro i s
    by_cases hi : i = dir
    · rw [hi, hself]
      cases s <;> simp [ptr, hdata]
    · rw [hothers i hi]
      cases s <;> simp [ptr, hdata]
  have hp : w.pointers = v.pointers := by
    funext key
    simp only [pointers, himap, hptr]
  have hblock : ∀ i j, w.entryBlock i j = v.entryBlock i j := fun i j => by
    simp only [entryBlock, hptr]
  have hdir := isDirectory_congr himap hmode
  have hcount : ∀ i, i ≠ dir → w.entryCount i = v.entryCount i := fun i hi => by
    unfold entryCount
    rw [hothers i hi]
  have hgrown : w.entryCount dir = v.entryCount dir + 1 := by
    simp only [entryCount, hself, hn]
    exact Nat.mul_div_cancel _ (by decide)
  have hsound : w.Sound := by
    refine ⟨?_, (hdir 0).mpr hs.root, fun i j hdi hji => ?_⟩
    · rw [hp, hbmap]
      exact hs.blocks
    · rw [hdir] at hdi
      rw [hblock]
      by_cases hi : i = dir
      · subst hi
        rw [hgrown] at hji
        by_cases hj : j = v.entryCount i
        · rw [hj]
          exact h0
        · exact hs.full i j hdi (by omega)
      · rw [hcount i hi] at hji
        exact hs.full i j hdi hji
  refine ⟨himap, hmode, hothers, fun _ _ => by rw [hp], ?_, hsound, fun ht => ?_⟩
  · funext k
    obtain ⟨i, j⟩ := k
    by_cases hk : (i, j) = (dir, v.entryCount dir)
    · cases hk
      rw [update_self, dirents_of hsound ((hdir _).mpr hd) (by omega), hblock, hdata]
    · rw [update_of_ne hk]
      by_cases hold : v.IsDirectory i ∧ j < v.entryCount i
      · have hj : j < w.entryCount i := by
          by_cases hi : i = dir
          · subst hi
            omega
          · rw [hcount i hi]
            exact hold.2
        rw [dirents_of hsound ((hdir i).mpr hold.1) hj, dirents_of hs hold.1 hold.2, hblock, hdata]
      · rw [dirents_none hold, dirents_none]
        rw [hdir]
        rintro ⟨hdi, hj⟩
        refine hold ⟨hdi, ?_⟩
        by_cases hi : i = dir
        · subst hi
          have : j ≠ v.entryCount i := fun he => hk (by rw [he])
          omega
        · rw [hcount i hi] at hj
          exact hj
  · unfold Tight
    rw [hp, hbmap]
    exact ht

end

variable {m : CapySuper} {v : Volume} {dir j : Nat}

theorem entryBlock_inData (hb : Bounded m v) (hs : v.Sound) (hd : v.IsDirectory dir)
    (hj : j < v.entryCount dir) : InData m (v.entryBlock dir j) :=
  hb.blocks _ (entryBlock_slot hs hd hj).1

theorem getDataBlock_read (hb : Bounded m v) (hs : v.Sound) (hd : v.IsDirectory dir) (hj : j < v.entryCount dir) :
    Does m v (capyfsGetDataBlock m (v.inode dir) (j / direntsPerBlock) false)
      ⟨some (v.ptr (v.inode dir) (slotOf (j / direntsPerBlock))), v.inode dir, false⟩ v := by
  have hne : v.ptr (v.inode dir) (slotOf (j / direntsPerBlock)) ≠ 0#32 := by
    intro h
    exact hs.full dir j hd hj (by rw [entryBlock, h]; rfl)
  unfold capyfsGetDataBlock
  split
  · rename_i h
    simp only [slotOf, h, dif_pos, ptr] at hne ⊢
    rw [if_neg (fun hz => hne hz.1)]
    exact Yields.pure ⟨rfl, rfl⟩
  · rename_i h
    simp only [slotOf, h, dif_neg, not_false_iff, ptr] at hne ⊢
    by_cases hk : (v.inode dir).indirect ≠ 0#32 ∧ j / direntsPerBlock - 12 < entriesPerBlock
    · rw [if_pos hk] at hne ⊢
      rw [if_neg (by omega), if_neg hk.1]
      have hind : InData m (v.inode dir).indirect.toNat :=
        hb.blocks _ (slot_taken hs .indirect hd.1 (fun h => hk.1 (BitVec.eq_of_toNat_eq h)))
      unfold getIndirectBlock
      refine (getBlock_does hind).triedSeq ?_
      simp only
      rw [if_neg (fun hz => hne hz.1)]
      exact Yields.pure ⟨rfl, rfl⟩
    · rw [if_neg hk] at hne
      exact absurd rfl hne

theorem scan_step {α : Type} {f : DataBlock → FsM α} {Q : Option α → Volume → Prop}
    (hs : v.Sound) (hd : v.IsDirectory dir) (hj : j < v.entryCount dir)
    (hf : ∀ p : BitVec 32, p ≠ 0#32 → p.toNat = v.entryBlock dir j → InData m p.toNat →
      Yields m v (f ⟨some p, v.inode dir, false⟩) Q) :
    Yields m v (capyfsGetDataBlock m (v.inode dir) (j / direntsPerBlock) false >>= f) Q := by
  refine Yields.bounded (fun hb => (getDataBlock_read hb hs hd hj).seq (hf _ ?_ rfl
    (entryBlock_inData hb hs hd hj)))
  intro h
  exact hs.full dir j hd hj (by rw [entryBlock, h]; rfl)

structure Finds (v : Volume) (dir i : Nat) (name : Name) (e : FoundEntry) (j : Nat) : Prop where
  lt : j < v.entryCount dir
  ino : e.ino.toNat = v.entries (dir, j)
  used : e.ino ≠ 0#32
  block : e.block = v.entryBlock dir j
  off : e.off = j % direntsPerBlock
  short : name.length < capyfsNameMax
  name_eq : (v.dirents (dir, j)).2 = name
  first : ∀ j', i ≤ j' → j' < j → v.entries (dir, j') ≠ 0 → (v.dirents (dir, j')).2 ≠ name

def Named (v : Volume) (dir i : Nat) (name : Name) : Prop :=
  ∃ j, i ≤ j ∧ v.entries (dir, j) ≠ 0 ∧ (v.dirents (dir, j)).2 = name

theorem dirFindScan_yields (hs : v.Sound) (hd : v.IsDirectory dir) (name : Name) (n i : Nat) (hn : i + n = v.entryCount dir) :
    Yields m v (dirFindScan m (v.inode dir) name n i) (fun r w => w = v ∧ match r with
      | none => name.length < capyfsNameMax → ¬ Named v dir i name
      | some e => ∃ j, Finds v dir i name e j) := by
  induction n generalizing i with
  | zero =>
    refine Yields.fail ⟨rfl, ?_⟩
    rintro - ⟨j, hij, hused, -⟩
    have := (entries_dir hused).2
    simp only at this
    omega
  | succ n ih =>
    have hj : i < v.entryCount dir := by omega
    have hent := dirents_of hs hd hj
    simp only [dirFindScan]
    refine scan_step hs hd hj (fun p hp0 hpb hpd => ?_)
    simp only [if_neg hp0]
    refine (getBlock_does hpd).seq ?_
    split
    · rename_i hfound
      obtain ⟨hname, hlen⟩ := namesEqual_iff.mp hfound.2
      refine Yields.pure ⟨rfl, i, hj, ?_, hfound.1, hpb, rfl, hlen, ?_, fun j' hlo hhi => by omega⟩
      · unfold Volume.entries
        rw [hent, ← hpb]
        rfl
      · rw [hent, ← hpb]
        exact hname
    · rename_i hother
      have hskip : name.length < capyfsNameMax → v.entries (dir, i) ≠ 0 →
          (v.dirents (dir, i)).2 ≠ name := by
        intro hlen hused hname
        unfold Volume.entries at hused
        rw [hent, ← hpb] at hused hname
        refine hother ⟨fun h => hused ?_, namesEqual_iff.mpr ⟨hname, hlen⟩⟩
        simp [readDirent, h]
      refine (ih (i + 1) (by omega)).mono ?_
      rintro r w ⟨rfl, hr⟩
      refine ⟨rfl, ?_⟩
      cases r with
      | some e =>
        obtain ⟨j, hf⟩ := hr
        refine ⟨j, { hf with first := fun j' hlo hhi => ?_ }⟩
        by_cases he : j' = i
        · subst he
          exact hskip hf.short
        · exact hf.first j' (by omega) hhi
      | none =>
        rintro hlen ⟨j, hij, hused, hname⟩
        by_cases he : j = i
        · subst he
          exact hskip hlen hused hname
        · exact hr hlen ⟨j, by omega, hused, hname⟩

theorem dirFindEntry_yields (hs : v.Sound) (hd : v.IsDirectory dir) (name : Name) :
    Yields m v (capyfsDirFindEntry m (v.inode dir) name) (fun r w => w = v ∧ match r with
      | none => name.length < capyfsNameMax → ¬ Named v dir 0 name
      | some e => ∃ j, Finds v dir 0 name e j) :=
  dirFindScan_yields hs hd name _ 0 (Nat.zero_add _)

/-- Entry `j` is the first of its name in a directory, and names inode `t`. -/
structure NamesAt (v : Volume) (dir : Nat) (name : Name) (j t : Nat) : Prop where
  dirent : v.dirents (dir, j) = (t, name)
  short : name.length < capyfsNameMax
  used : t ≠ 0
  first : ∀ j', j' < j → v.entries (dir, j') ≠ 0 → (v.dirents (dir, j')).2 ≠ name

theorem Finds.namesAt {e : FoundEntry} (h : Finds v dir 0 name e j) : NamesAt v dir name j e.ino.toNat :=
  ⟨Prod.ext h.ino.symm h.name_eq, h.short, fun h0 => h.used (BitVec.eq_of_toNat_eq h0),
    fun j' => h.first j' (Nat.zero_le _)⟩

theorem NamesAt.entries {t : Nat} (h : NamesAt v dir name j t) :
    v.entries (dir, j) = t := congrArg Prod.fst h.dirent

theorem NamesAt.named {t : Nat} (h : NamesAt v dir name j t) : Named v dir 0 name :=
  ⟨j, Nat.zero_le _, by rw [h.entries]; exact h.used, by rw [h.dirent]⟩

theorem NamesAt.unique {j' t t' : Nat} (h : NamesAt v dir name j t)
    (h' : NamesAt v dir name j' t') : j = j' ∧ t = t' := by
  have hj : j = j' := by
    by_contra hne
    rcases Nat.lt_or_gt_of_ne hne with hlt | hgt
    · refine h'.first j hlt ?_ (by rw [h.dirent])
      rw [h.entries]
      exact h.used
    · refine h.first j' hgt ?_ (by rw [h'.dirent])
      rw [h'.entries]
      exact h'.used
  subst hj
  exact ⟨rfl, h.entries.symm.trans h'.entries⟩

theorem dirIsEmptyScan_yields (hs : v.Sound) (hd : v.IsDirectory dir) (n i : Nat) (hn : i + n = v.entryCount dir) :
    Yields m v (dirIsEmptyScan m (v.inode dir) n i) (fun r w => w = v ∧
      (r = some true → ∀ j, i ≤ j → v.entries (dir, j) = 0)) := by
  induction n generalizing i with
  | zero =>
    refine Yields.pure ⟨rfl, fun _ j hj => ?_⟩
    by_contra hused
    have := (entries_dir hused).2
    simp only at this
    omega
  | succ n ih =>
    have hj : i < v.entryCount dir := by omega
    have hent := dirents_of hs hd hj
    simp only [dirIsEmptyScan]
    refine scan_step hs hd hj (fun p hp0 hpb hpd => ?_)
    simp only [if_neg hp0]
    refine (getBlock_does hpd).seq ?_
    split
    · exact Yields.pure ⟨rfl, nofun⟩
    · rename_i hfree
      refine (ih (i + 1) (by omega)).mono ?_
      rintro r w ⟨rfl, hr⟩
      refine ⟨rfl, fun he j hij => ?_⟩
      by_cases hji : j = i
      · subst hji
        unfold Volume.entries
        rw [hent, ← hpb]
        simp only [readDirent, not_not.mp hfree]
        rfl
      · exact hr he j (by omega)

def Adds (v w : Volume) (dir child : Nat) (name : Name) : Prop :=
  ∃ j e, v.entries (dir, j) = 0 ∧ Edited v w (dir, j) e ∧ e.1 = child ∧ (IsCString name → e.2 = name)

theorem adds_put (name : Name) (hs : v.Sound) (hd : v.IsDirectory dir)
    (hj : j < v.entryCount dir) (hc : child < 2 ^ 32) (hlen : name.length < capyfsNameMax) :
    ∃ e, Edited v (v.store (v.entryBlock dir j)
        (putDirent (v.data (v.entryBlock dir j)) (j % direntsPerBlock) child name)) (dir, j) e ∧
      e.1 = child ∧ (IsCString name → e.2 = name) := by
  refine ⟨_, edited_store hs hd hj (fun off hoff => readDirent_put_other hoff), direntIno_put hc, ?_⟩
  intro hz
  rw [readDirent_put hc hz hlen]

theorem dirAddScan_yields (hs : v.Sound) (hd : v.IsDirectory dir)
    (hc : child < 2 ^ 32) (hlen : name.length < capyfsNameMax) (n i : Nat)
    (hn : i + n = v.entryCount dir) :
    Yields m v (dirAddScan m (v.inode dir) dir child name n i) (fun r w => ∃ placed, r = some placed ∧
      match placed with
      | true => Adds v w dir child name ∧ w.inode dir = v.inode dir
      | false => w = v ∧ ∀ j, i ≤ j → j < v.entryCount dir → v.entries (dir, j) ≠ 0) := by
  induction n generalizing i with
  | zero =>
    refine Yields.pure ⟨false, rfl, rfl, fun j hij hj => ?_⟩
    omega
  | succ n ih =>
    have hj : i < v.entryCount dir := by omega
    have hent := dirents_of hs hd hj
    refine Yields.bounded (fun hb => ?_)
    simp only [dirAddScan]
    refine scan_step hs hd hj (fun p hp0 hpb hpd => ?_)
    simp only [if_neg hp0]
    refine (getBlock_does hpd).seq ?_
    split
    · rename_i hfree
      refine (putBlock_does hpd _).seq ?_
      refine (writeInode_does (hb.inodes dir hd.1) _).triedSeq (Yields.pure ⟨true, rfl, ?_, ?_⟩)
      · obtain ⟨e, he, hino, hname⟩ := adds_put name hs hd hj hc hlen
        rw [← hpb] at he
        have hsame : (v.store p.toNat (putDirent (v.data p.toNat) (i % direntsPerBlock) child name)).put
            dir (v.inode dir) = v.store p.toNat
              (putDirent (v.data p.toNat) (i % direntsPerBlock) child name) := put_self
        rw [hsame]
        refine ⟨i, e, ?_, he, hino, hname⟩
        unfold Volume.entries
        rw [hent, ← hpb]
        simp only [readDirent, hfree]
        rfl
      · rw [put_inode_self]
    · rename_i hused
      refine (ih (i + 1) (by omega)).mono ?_
      rintro r w ⟨placed, rfl, hr⟩
      refine ⟨placed, rfl, ?_⟩
      cases placed with
      | true => exact hr
      | false =>
        refine ⟨hr.1, fun j hij hj' => ?_⟩
        by_cases hji : j = i
        · subst hji
          unfold Volume.entries
          rw [hent, ← hpb]
          exact fun h => hused (BitVec.eq_of_toNat_eq h)
        · exact hr.2 j (by omega) hj'

theorem entryCount_le (hb : Bounded m v) (hs : v.Safe) (hused : ∀ j, j < v.entryCount dir → v.entries (dir, j) ≠ 0) :
    v.entryCount dir ≤ m.inodeCount.toNat := by
  let f : Fin (v.entryCount dir) → Fin m.inodeCount.toNat := fun j =>
    ⟨v.entries (dir, j.val), hb.inodes _ (hs.inodes.held _ (hused j.val j.isLt))⟩
  have hf : Function.Injective f := by
    intro a b h
    have hkey := hs.inodes.once (dir, a.val) (dir, b.val) (hused a.val a.isLt) (Fin.mk.inj h)
    exact Fin.ext (Prod.mk.inj hkey).2
  simpa using Fintype.card_le_of_injective f hf

def DirectDirs (m : CapySuper) : Prop := m.inodeCount.toNat < 12 * direntsPerBlock

theorem entryBlock_lt (h0 : v.entryBlock dir j ≠ 0) : j < (12 + entriesPerBlock) * direntsPerBlock := by
  have hslot : j / direntsPerBlock < 12 + entriesPerBlock := by
    by_contra hbig
    refine h0 ?_
    have hk : ¬ j / direntsPerBlock - 12 < entriesPerBlock := by omega
    simp [entryBlock, slotOf, show ¬ j / direntsPerBlock < 12 by omega, ptr, hk]
  exact (Nat.div_lt_iff_lt_mul (by decide)).mp hslot

theorem adds_append (name : Name) (hg : Grown dir v u)
    (hd : v.IsDirectory dir) (h0 : u.entryBlock dir (v.entryCount dir) ≠ 0) (hc : child < 2 ^ 32)
    (hlen : name.length < capyfsNameMax) : Adds v ((u.put dir { u.inode dir with
        size := BitVec.ofNat 32 ((v.entryCount dir + 1) * direntSize) }).store (u.entryBlock dir (v.entryCount dir))
      (putDirent (u.data (u.entryBlock dir (v.entryCount dir))) (v.entryCount dir % direntsPerBlock)
        child name)) dir child name := by
  have hcount : u.entryCount dir = v.entryCount dir := by
    unfold entryCount
    rw [hg.size]
  have hdu := (isDirectory_congr hg.imap hg.modes dir).mpr hd
  have hsize : (BitVec.ofNat 32 ((v.entryCount dir + 1) * direntSize)).toNat =
      (v.entryCount dir + 1) * direntSize := by
    have hfew := entryBlock_lt h0
    rw [BitVec.toNat_ofNat]
    apply Nat.mod_eq_of_lt
    simp only [direntSize, direntsPerBlock, capyfsBlockSize, entriesPerBlock] at *
    omega
  have hext := edited_extend hg.safe.toSound hdu (by rw [hcount]; exact h0)
    (n := BitVec.ofNat 32 ((v.entryCount dir + 1) * direntSize)) (by rw [hcount]; exact hsize)
  rw [hcount] at hext
  generalize hw : u.put dir { u.inode dir with
    size := BitVec.ofNat 32 ((v.entryCount dir + 1) * direntSize) } = w at hext ⊢
  have hdw := (isDirectory_congr hext.imap hext.mode dir).mpr hdu
  have hcw : w.entryCount dir = v.entryCount dir + 1 := by
    have hsz : (w.inode dir).size.toNat = (v.entryCount dir + 1) * direntSize := by
      rw [← hw, put_inode_self]
      exact hsize
    unfold entryCount at hsz ⊢
    rw [hsz]
    exact Nat.mul_div_cancel _ (by decide)
  have hblock : w.entryBlock dir (v.entryCount dir) = u.entryBlock dir (v.entryCount dir) := by
    rw [← hw]
    simp only [entryBlock, put_inode_self]
    unfold slotOf
    split <;> rfl
  have hdata : w.data = u.data := by
    rw [← hw]
    rfl
  obtain ⟨e, he, hino, hname⟩ := adds_put (j := v.entryCount dir) name hext.sound hdw
    (by omega) hc hlen
  rw [hblock, hdata] at he
  refine ⟨v.entryCount dir, e, ?_, Grown.edited (k := (dir, v.entryCount dir)) hg (hext.trans he), hino, hname⟩
  by_contra hne
  exact absurd (entries_dir hne).2 (Nat.lt_irrefl _)

/-- A volume left as it was, save for what no live inode sees; if `p`, then no
block was lost either. -/
structure Stays (p : Prop) (v w : Volume) : Prop where
  imap : w.imap = v.imap
  inode : ∀ i, v.imap i = true → w.inode i = v.inode i
  dirents : w.dirents = v.dirents
  safe : w.Safe
  tight : p → v.Tight → w.Tight

theorem Stays.refl {p : Prop} (hs : v.Safe) : Stays p v v :=
  ⟨rfl, fun _ _ => rfl, rfl, hs, fun _ => id⟩

theorem stays_lost {p : Prop} (hp : ¬ p) (hs : v.Safe) {q : Nat} (hq : v.bmap q = false) : Stays p v (takeBlock v q) := by
  have hptr := takeBlock_pointers hs.toSound hq
  have hgrown : Owned (takeBlock v q).pointers (takeBlock v q).bmap := by
    rw [hptr]
    refine hs.blocks.mono (fun k hk => ?_)
    have hheld := hs.blocks.held k hk
    have hne : v.pointers k ≠ q := fun he => by
      rw [he, hq] at hheld
      cases hheld
    exact (update_of_ne hne _ _).trans hheld
  have hdir : (takeBlock v q).dirents = v.dirents :=
    @dirents_kept v (takeBlock v q) rfl (fun _ => rfl) (fun _ => rfl) (fun k _ => by rw [hptr]) hs.toSound
      (fun i j hd hj => update_of_ne (entryBlock_ne_fresh hs.toSound hq hd hj) _ _)
  refine ⟨rfl, fun _ _ => rfl, hdir, ⟨⟨hgrown, hs.root, fun i j hd hj => ?_⟩, ?_⟩, fun h => absurd h hp⟩
  · rw [@entryBlock_kept v (takeBlock v q) rfl (fun k _ => by rw [hptr]) hs.toSound i j hd hj]
    exact hs.full i j hd hj
  · rw [entries_congr hdir]
    exact hs.inodes

theorem dirAddEntry_yields (hl : SoundLayout m) (hs : v.Safe)
    (hd : v.IsDirectory dir) (hc : child < 2 ^ 32) (name : Name) :
    Yields m v (capyfsDirAddEntry m dir child name) (fun r w => match r with
      | none => Stays (DirectDirs m) v w
      | some x => Adds v w dir child name ∧ x = w.inode dir ∧ name.length < capyfsNameMax) := by
  unfold capyfsDirAddEntry
  split
  · exact Yields.fail (Stays.refl hs)
  · rename_i hname
    have hlen : name.length < capyfsNameMax := by omega
    refine Yields.bounded (fun hb => ?_)
    have hdir := hb.inodes dir hd.1
    refine (readInode_does hdir).seq ?_
    refine (dirAddScan_yields hs.toSound hd hc hlen _ 0 (Nat.zero_add _)).next ?_
    intro placed w hq
    cases placed with
    | true =>
      obtain ⟨hadds, hsame⟩ := hq
      exact Yields.pure ⟨hadds, hsame.symm, hlen⟩
    | false =>
      obtain ⟨rfl, hfull⟩ := hq
      have hle := entryCount_le hb hs (fun j hj => hfull j (Nat.zero_le _) hj)
      have hdirect : DirectDirs m → w.entryCount dir / direntsPerBlock < 12 := fun hm =>
        Nat.div_lt_of_lt_mul (by rw [Nat.mul_comm]; exact Nat.lt_of_le_of_lt hle hm)
      simp only [Bool.false_eq_true, if_false]
      refine (getDataBlock_yields (x := w.inode dir) hl (by rw [put_self]; exact hs) hd.1 _).next ?_
      intro db w' hf
      have hgrown := hf.grown
      rw [put_self] at hgrown
      cases hblk : db.block with
      | none =>
        refine Yields.fail ?_
        by_cases hm : DirectDirs m
        · rw [(hf.direct (hdirect hm) hblk).1]
          exact Stays.refl hs
        · rcases hf.lost hblk with he | ⟨q, hq, he⟩
          · rw [he]
            exact Stays.refl hs
          · rw [he]
            exact stays_lost hm hs hq
      | some p =>
        obtain ⟨hp0, hptr⟩ := hf.block p hblk
        refine Yields.bounded (fun hb' => ?_)
        have hiw : w'.imap dir = true := by
          rw [show w'.imap = w.imap from hgrown.imap]
          exact hd.1
        have hpd : InData m p.toNat := by
          rw [← hptr]
          exact ptr_inData hb' hf.grown.safe hiw _ (by rw [hptr]; exact hp0)
        simp only
        refine (getBlock_does hpd).seq ((putBlock_does hpd _).seq ((writeInode_does hdir _).triedSeq
          (Yields.pure ⟨?_, (put_inode_self).symm, hlen⟩)))
        have hblock : (w'.put dir db.inode).entryBlock dir (w.entryCount dir) = p.toNat := by
          unfold entryBlock
          rw [put_inode_self, ← hptr]
          rfl
        have hadds := adds_append name hgrown hd
          (by rw [hblock]; exact fun h => hp0 (BitVec.eq_of_toNat_eq h)) hc hlen
        rw [hblock, put_inode_self, put_put] at hadds
        exact hadds

end CapyOS.Proofs
