import CapyOS.Proofs.VolumeCalls

namespace CapyOS.Proofs
open Lib FsM Volume Function
variable {k : Nat × Nat} {e : Nat × Name} {dir : VInode} {u w : Volume} {name : Name}

/-- A handle of a live inode. -/
structure Valid (v : Volume) (h : VInode) : Prop where
  live : v.imap h.ino = true
  mode : (v.inode h.ino).mode = h.mode

theorem Valid.isDirectory {v : Volume} {h : VInode} (hv : Valid v h) : v.IsDirectory h.ino ↔ h.isDir = true := by
  unfold IsDirectory CapyInodeDisk.isDir VInode.isDir
  rw [hv.mode]
  exact ⟨And.right, fun hd => ⟨hv.live, hd⟩⟩

theorem newInode_blank (mode : BitVec 16) (info : Option VfsMetadata) : Blank (newInode mode info) :=
  ⟨fun _ => rfl, rfl, rfl⟩

structure Created (v w : Volume) (dir c : Nat) (name : Name) (x : CapyInodeDisk) : Prop where
  free : v.imap c = false
  imap : w.imap = update v.imap c true
  record : w.inode c = x
  modes : ∀ i, v.imap i = true → (w.inode i).mode = (v.inode i).mode
  others : ∀ i, v.imap i = true → i ≠ dir → w.inode i = v.inode i
  new : ¬ Named v dir 0 name
  place : ∃ j e, v.entries (dir, j) = 0 ∧ e.1 = c ∧ (IsCString name → e.2 = name) ∧
    w.dirents = update v.dirents (dir, j) e
  safe : w.Safe
  tight : v.Tight → w.Tight

structure Removed (v w : Volume) (k : Nat × Nat) (t : Nat) : Prop where
  named : v.entries k = t
  live : t ≠ 0
  empty : ∀ j, v.entries (t, j) = 0
  imap : w.imap = update v.imap t false
  others : ∀ i, i ≠ t → w.inode i = v.inode i
  entries : w.entries = update v.entries k 0
  dirents : ∀ k', k' ≠ k → v.entries k' ≠ 0 → w.dirents k' = v.dirents k'
  safe : w.Safe
  tight : v.Tight → w.Tight

structure Moved (v w : Volume) (k : Nat × Nat) (dst : Nat) (name : Name) : Prop where
  imap : w.imap = v.imap
  modes : ∀ i, (w.inode i).mode = (v.inode i).mode
  others : ∀ i, i ≠ dst → w.inode i = v.inode i
  same : dst = k.1 → w.inode = v.inode
  place : (dst = k.1 ∧ ∃ e, e.1 = v.entries k ∧ (IsCString name → e.2 = name.take 31) ∧
      w.dirents = update v.dirents k e) ∨
    (dst ≠ k.1 ∧ ¬ Named v dst 0 name ∧ ∃ j e e0, v.entries (dst, j) = 0 ∧ e.1 = v.entries k ∧
      (IsCString name → e.2 = name) ∧ e0.1 = 0 ∧
      w.dirents = update (update v.dirents (dst, j) e) k e0)
  safe : w.Safe
  tight : v.Tight → w.Tight

variable {heap : Heap} {m : CapySuper} {v : Volume}

theorem createVfsInode_does (hheap : heap vfsInodeSize = true ∧ heap capyfsInodeSize = true) (ino : Nat) (x : CapyInodeDisk) :
    Does m v (capyfsCreateVfsInode heap ino x) ⟨ino, x.mode, x.size, x.uid, x.gid, x.perm⟩ v := by
  unfold capyfsCreateVfsInode
  rw [if_neg (by simp [hheap.1, hheap.2])]
  exact Yields.pure ⟨rfl, rfl⟩

theorem lookup_yields (hheap : heap vfsInodeSize = true ∧ heap capyfsInodeSize = true) (hs : v.Safe)
    (hv : Valid v dir) (name : Name) : Yields m v (capyfsLookup heap m dir name) (fun r w => w = v ∧ match r with
      | none => ¬ ∃ j t, NamesAt v dir.ino name j t
      | some h => Valid v h ∧ (∃ j, NamesAt v dir.ino name j h.ino) ∧ h.size = (v.inode h.ino).size) := by
  unfold capyfsLookup
  split
  · rename_i hdir
    refine Yields.fail ⟨rfl, ?_⟩
    rintro ⟨j, t, hat⟩
    have hd := (entries_dir (v := v) (k := (dir.ino, j)) (by rw [hat.entries]; exact hat.used)).1
    rw [hv.isDirectory.mp hd] at hdir
    cases hdir
  · rename_i hdir
    have hd : v.IsDirectory dir.ino := hv.isDirectory.mpr (by simpa using hdir)
    refine Yields.bounded (fun hb => (readInode_does (hb.inodes _ hv.live)).seq ?_)
    refine (dirFindEntry_yields hs.toSound hd name).bind ?_ (fun _ h => ⟨h.1, ?_⟩)
    · rintro e w ⟨rfl, j, hf⟩
      have hat := hf.namesAt
      have hlive : w.imap e.ino.toNat = true := by
        rw [hf.ino]
        exact hs.inodes.held _ (by rw [hat.entries]; exact hat.used)
      refine (readInode_does (hb.inodes _ hlive)).seq ((createVfsInode_does hheap _ _).mono ?_)
      rintro r w' ⟨rfl, rfl⟩
      exact ⟨rfl, ⟨hlive, rfl⟩, ⟨j, hat⟩, rfl⟩
    · rintro ⟨j, t, hat⟩
      exact h.2 hat.short hat.named

theorem Adds.safe {dir c : Nat} (hs : u.Safe)
    (h : Adds u w dir c name) (hc : u.imap c = true) (hfree : ∀ k, u.entries k ≠ c) : w.Safe := by
  obtain ⟨j, e, -, he, hino, -⟩ := h
  refine ⟨he.sound, ?_⟩
  rw [he.entries, he.imap, hino]
  exact hs.inodes.assign hfree (fun _ h => h) hc

theorem stays_back {p : Prop} {u : Volume} {c : Nat} {y : CapyInodeDisk} (hs : v.Safe)
    (hc : v.imap c = false) (hy : Blank y) (hu : Stays p ((takeInode v c).put c y) u) : Stays p v (dropInode u c) := by
  have hext := extends_take hc hy
  have himap : (dropInode u c).imap = v.imap := by
    simp only [dropInode, hu.imap, put, takeInode, update_idem]
    rw [← hc, update_eq_self]
  have htaken : ((takeInode v c).put c y).imap c = true := update_self ..
  have hback : Extends (dropInode u c) u := by
    refine extends_drop (by rw [hu.imap]; exact htaken) ?_
    rw [hu.inode c htaken, put_inode_self]
    exact hy
  have hsound := hback.sound_back hu.safe.toSound (by rw [himap]; exact hs.root.1)
  have hdirents : (dropInode u c).dirents = v.dirents :=
    (hback.dirents hsound).symm.trans (hu.dirents.trans (hext.dirents hs.toSound))
  refine ⟨himap, fun i hi => ?_, hdirents, ⟨hsound, ?_⟩, fun hp ht => ?_⟩
  · exact (hu.inode i (hext.live i hi).1).trans (hext.live i hi).2
  · rw [entries_congr hdirents, himap]
    exact hs.inodes
  · have hut := hu.tight hp (hext.tight ht)
    unfold Tight at hut ⊢
    rw [← hback.pointers]
    exact hut

theorem create_yields (hheap : heap vfsInodeSize = true ∧ heap capyfsInodeSize = true)
    (hl : SoundLayout m) (hs : v.Safe) (hv : Valid v dir)
    (name : Name) (mode : BitVec 16) (info : Option VfsMetadata) :
    Yields m v (capyfsCreate heap m dir name mode info) (fun r w => match r with
      | none => Stays (DirectDirs m) v w
      | some h => h = ⟨h.ino, mode, (newInode mode info).size, (newInode mode info).uid,
          (newInode mode info).gid, (newInode mode info).perm⟩ ∧ Created v w dir.ino h.ino name (newInode mode info)) := by
  unfold capyfsCreate
  split
  · exact Yields.fail (Stays.refl hs)
  · rename_i hdir
    split
    · exact Yields.fail (Stays.refl hs)
    · rename_i hname
      have hlen : name.length < capyfsNameMax := by omega
      have hd : v.IsDirectory dir.ino := hv.isDirectory.mpr (by simpa using hdir)
      refine Yields.bounded (fun hb => (readInode_does (hb.inodes _ hv.live)).seq ?_)
      refine (dirFindEntry_yields hs.toSound hd name).tried ?_
      rintro r w ⟨rfl, hr⟩
      cases r with
      | some e => exact Yields.fail (Stays.refl hs)
      | none =>
        simp only [Option.isSome_none, Bool.false_eq_true, if_false]
        refine allocInode_yields.bind ?_ (fun w' h => by cases h; exact Stays.refl hs)
        rintro c w' ⟨hci, hfree, rfl⟩
        refine (writeInode_does hci _).triedSeq ?_
        simp only [Option.isNone_some, Bool.false_eq_true, if_false]
        have hext := extends_take hfree (newInode_blank mode info)
        have hcn : c < 2 ^ 32 := Nat.lt_trans hci m.inodeCount.isLt
        refine (dirAddEntry_yields hl (hext.safe hs) (hext.isDirectory hd) hcn name).tried ?_
        intro added u hu
        cases added with
        | none =>
          simp only [Option.isNone_none, if_true, releaseInode]
          refine (freeInodeBit_does hci).seq (Yields.fail ?_)
          exact stays_back hs hfree (newInode_blank mode info) hu
        | some x =>
          obtain ⟨hadds, -, -⟩ := hu
          simp only [Option.isNone_some, Bool.false_eq_true, if_false]
          refine (createVfsInode_does hheap c _).triedSeq (Yields.pure ?_)
          have hentries := entries_congr (hext.dirents hs.toSound)
          have hc0 : c ≠ 0 := by
            rintro rfl
            rw [hs.root.1] at hfree
            cases hfree
          have hsafe := hadds.safe (hext.safe hs) (update_self ..) (fun k => by
            rw [hentries]
            exact hs.inodes.fresh hfree hc0 k)
          obtain ⟨j, e, hj, he, hino, hnm⟩ := hadds
          have hcd : c ≠ dir.ino := by
            rintro rfl
            rw [hv.live] at hfree
            cases hfree
          refine ⟨rfl, hfree, he.imap, ?_, fun i hi => ?_, fun i hi hid => ?_, hr hlen,
            ⟨j, e, ?_, hino, hnm, ?_⟩, hsafe, fun ht => he.tight (hext.tight ht)⟩
          · rw [he.others c hcd, put_inode_self]
          · rw [he.mode, (hext.live i hi).2]
          · rw [he.others i hid, (hext.live i hi).2]
          · rw [← hentries]
            exact hj
          · rw [he.dirents, hext.dirents hs.toSound]

theorem dirClearEntry_does {dir b : Nat} (hd : dir < m.inodeCount.toNat) (hb : InData m b) (off : Nat) :
    Does m v (capyfsDirClearEntry m (v.inode dir) dir b off) () (v.store b (clearDirent (v.data b) off)) := by
  unfold capyfsDirClearEntry
  refine (getBlock_does hb).seq ((putBlock_does hb _).seq ((writeInode_does hd _).mono ?_))
  rintro r w ⟨rfl, rfl⟩
  exact ⟨rfl, put_self⟩

theorem edited_clear (hs : v.Sound) {dir j : Nat} (hd : v.IsDirectory dir) (hj : j < v.entryCount dir) :
    ∃ e, e.1 = 0 ∧ Edited v (v.store (v.entryBlock dir j)
      (clearDirent (v.data (v.entryBlock dir j)) (j % direntsPerBlock))) (dir, j) e := by
  refine ⟨_, ?_, edited_store hs hd hj (fun off hoff => readDirent_clear_other hoff)⟩
  simp only [readDirent, direntIno_clear]
  rfl

theorem Edited.safe_clear {u : Volume} (h : Edited v u k e)
    (he : e.1 = 0) (hs : v.Safe) : u.Safe := by
  refine ⟨h.sound, ?_⟩
  rw [h.entries, h.imap, he]
  refine hs.inodes.restrict (fun k' hk => ?_) (fun k' hk => ?_)
  · by_cases hkk : k' = k
    · rw [hkk, update_self] at hk
      exact absurd rfl hk
    · exact update_of_ne hkk _ _
  · by_cases hkk : k' = k
    · rw [hkk, update_self] at hk
      exact absurd rfl hk
    · rw [update_of_ne hkk] at hk ⊢
      exact hs.inodes.held k' hk

theorem removed_of {t : Nat} (hs : v.Safe)
    (hk : v.entries k = t) (h0 : t ≠ 0) (hempty : ∀ j, v.entries (t, j) = 0) (hu : Edited v u k e)
    (he : e.1 = 0) (hinode : u.inode = v.inode) (hr : Released u w t) : Removed v w k t := by
  have hsu := hu.safe_clear he hs
  have hlive : u.imap t = true := by
    rw [hu.imap, ← hk]
    exact hs.inodes.held k (by rw [hk]; exact h0)
  have hentries : ∀ k', k' ≠ k → u.entries k' = v.entries k' := fun k' hkk => by
    rw [hu.entries, update_of_ne hkk]
  have hself : u.entries k = 0 := by
    rw [hu.entries, update_self, he]
  have hempty' : ∀ j, u.entries (t, j) = 0 := by
    intro j
    by_cases hkk : (t, j) = k
    · rw [hkk, hself]
    · rw [hentries _ hkk, hempty]
  have hfree : ∀ k', u.entries k' ≠ t := by
    intro k' hkt
    by_cases hkk : k' = k
    · rw [hkk, hself] at hkt
      exact h0 hkt.symm
    · rw [hentries _ hkk] at hkt
      exact hkk (hs.inodes.once k' k (by rw [hkt]; exact h0) (by rw [hkt, hk]))
  refine ⟨hk, h0, hempty, by rw [hr.imap, hu.imap], fun i hi => by rw [hr.others i hi, hinode], ?_,
    fun k' hkk hused => ?_, hr.safe hsu hlive h0 hempty' hfree,
    fun ht => hr.tight hsu.toSound hlive (hu.tight ht)⟩
  · rw [hr.entries hsu.toSound hlive h0 hempty', hu.entries, he]
  · rw [hr.dirents hsu.toSound hlive h0, if_neg, hu.dirents, update_of_ne hkk]
    rintro rfl
    exact hused (hempty k'.2)

theorem removable_yields (hs : v.Safe) {t : Nat} (ht : v.imap t = true) (isDir : Bool) :
    Yields m v (removable m (v.inode t) isDir) (fun r w => w = v ∧
      (r = some true → (v.inode t).isDir = isDir ∧ ∀ j, v.entries (t, j) = 0)) := by
  unfold removable
  cases isDir with
  | true =>
    rw [if_pos rfl]
    split
    · exact Yields.fail ⟨rfl, nofun⟩
    · rename_i hdir
      have hd : (v.inode t).isDir = true := by simpa using hdir
      refine (dirIsEmptyScan_yields hs.toSound ⟨ht, hd⟩ _ 0 (Nat.zero_add _)).mono ?_
      rintro r w ⟨rfl, hr⟩
      exact ⟨rfl, fun he => ⟨hd, fun j => hr he j (Nat.zero_le _)⟩⟩
  | false =>
    rw [if_neg (by simp)]
    split
    · exact Yields.fail ⟨rfl, nofun⟩
    · rename_i hdir
      refine Yields.pure ⟨rfl, fun _ => ⟨by simpa using hdir, fun j => ?_⟩⟩
      by_contra hused
      exact hdir (entries_dir hused).1.2

theorem remove_yields (hs : v.Safe) (hv : Valid v dir) (name : Name) (isDir : Bool) :
    Yields m v (capyfsRemove m dir name isDir) (fun r w => match r with
      | none => w = v
      | some _ => ∃ j t, NamesAt v dir.ino name j t ∧ Removed v w (dir.ino, j) t ∧ (v.inode t).isDir = isDir) := by
  unfold capyfsRemove
  split
  · exact Yields.fail rfl
  · rename_i hdir
    have hd : v.IsDirectory dir.ino := hv.isDirectory.mpr (by simpa using hdir)
    refine Yields.bounded (fun hb => (readInode_does (hb.inodes _ hv.live)).seq ?_)
    refine (dirFindEntry_yields hs.toSound hd name).bind ?_ (fun _ h => h.1)
    rintro e w ⟨rfl, j, hf⟩
    have hat := hf.namesAt
    have h0 := hat.used
    generalize e.ino.toNat = t at hat h0
    have hk := hat.entries
    have hlive : w.imap t = true := by
      rw [← hk]
      exact hs.inodes.held _ (by rw [hk]; exact h0)
    have hti := hb.inodes t hlive
    refine (readInode_does hti).seq ?_
    refine (removable_yields hs hlive isDir).bind ?_ (fun _ h => h.1)
    rintro empty w' ⟨rfl, hempty⟩
    split
    · exact Yields.fail rfl
    · rename_i hpass
      obtain ⟨hkind, hnone⟩ := hempty (by simpa using hpass)
      have hblk := entryBlock_inData hb hs.toSound hd hf.lt
      have hne : w'.entryBlock dir.ino j ≠ (w'.inode t).indirect.toNat :=
        Ne.symm ((entryBlock_slot hs.toSound hd hf.lt).2 t hlive)
      refine (freeDataBlocks_yields (fun s hz => ?_)).next ?_
      · exact hb.blocks _ (slot_taken hs.toSound s hlive (fun h => hz (BitVec.eq_of_toNat_eq h)))
      · rintro y u ⟨himap, hinode, hdata, hfreed⟩
        rw [hf.block, hf.off, ← hinode]
        refine (dirClearEntry_does (hb.inodes _ hv.live) hblk _).seq ?_
        refine (writeInode_does hti _).seq ((freeInodeBit_does hti).mono ?_)
        rintro r z ⟨rfl, rfl⟩
        obtain ⟨e', he', hedit⟩ := edited_clear hs.toSound hd hf.lt
        refine ⟨j, t, hat, removed_of hs hk h0 hnone hedit he' rfl ⟨?_, fun i hi => ?_,
          fun b hbne => ?_, ?_⟩, by rw [hinode]; exact hkind⟩
        · simp only [dropInode, put, Volume.store, himap]
        · exact (update_of_ne hi _ _).trans (congrFun hinode i)
        · simp only [dropInode, put, Volume.store] at hbne ⊢
          by_cases hbe : b = w'.entryBlock dir.ino j
          · rw [hbe, update_self, update_self, hdata _ hne]
          · rw [update_of_ne hbe, update_of_ne hbe, hdata b hbne]
        · have hptr : ∀ s, (w'.store (w'.entryBlock dir.ino j) (clearDirent
              (w'.data (w'.entryBlock dir.ino j)) (j % direntsPerBlock))).ptr (w'.inode t) s =
              w'.ptr (w'.inode t) s := by
            intro s
            cases s with
            | direct l => rfl
            | indirect => rfl
            | entry k => simp only [ptr, Volume.store, update_of_ne hne.symm]
          intro b hb0
          have := hfreed b hb0
          simp only [Volume.store] at hptr ⊢
          simp only [hptr]
          exact this

theorem cstringBytes_eq {a : Bytes} {name name' : Name} (hfound : fieldName a = name)
    (hlen : name.length < capyfsNameMax) (h : namesEqual (cstringBytes name) name' = true) : name' = name := by
  have hz : IsCString name := by
    intro c hc
    rw [← hfound] at hc
    simpa using List.all_eq_true.mp List.all_takeWhile c hc
  have hself : namesEqual (cstringBytes name) name = true := by
    refine namesEqualFrom_of hz hlen (fun k hk => ?_) ?_
    · simp [cstringBytes, List.getD_eq_getElem?_getD, hk]
    · simp [cstringBytes, List.getD_eq_getElem?_getD]
  rw [← (namesEqual_iff.mp h).1, (namesEqual_iff.mp hself).1]

theorem moved_same {u : Volume} (hs : v.Safe)
    (hu : Edited v u k e) (hinode : u.inode = v.inode) (he : e.1 = v.entries k)
    (hname : IsCString name → e.2 = name.take 31) : Moved v u k k.1 name := by
  refine ⟨hu.imap, hu.mode, hu.others, fun _ => hinode, .inl ⟨rfl, e, he, hname, hu.dirents⟩, ⟨hu.sound, ?_⟩, hu.tight⟩
  rw [hu.entries, hu.imap, he, update_eq_self]
  exact hs.inodes

theorem moved_across {dst : Nat} {e0 : Nat × Name}
    (hs : v.Safe) (h0 : v.entries k ≠ 0) (hdst : dst ≠ k.1) (hnew : ¬ Named v dst 0 name)
    (hadds : Adds v u dst (v.entries k) name) (hw : Edited u w k e0) (hinode : w.inode = u.inode)
    (he0 : e0.1 = 0) : Moved v w k dst name := by
  obtain ⟨j, e, hj, hu, he, hname⟩ := hadds
  refine ⟨hw.imap.trans hu.imap, fun i => (hw.mode i).trans (hu.mode i),
    fun i hi => by rw [hinode]; exact hu.others i hi, fun h => absurd h hdst,
    .inr ⟨hdst, hnew, j, e, e0, hj, he, hname, he0, by rw [hw.dirents, hu.dirents]⟩, ⟨hw.sound, ?_⟩,
    fun ht => hw.tight (hu.tight ht)⟩
  rw [hw.entries, hu.entries, hw.imap, hu.imap, he0, he]
  exact hs.inodes.move hj h0

theorem renameInode_yields (hl : SoundLayout m) (hs : v.Safe) {src dst : VInode}
    (hsrc : Valid v src) (hdst : Valid v dst) (srcName dstName : Name) :
    Yields m v (capyfsRenameInode m src srcName dst dstName) (fun r w => match r with
      | none => Stays (DirectDirs m) v w
      | some _ => v.IsDirectory dst.ino ∧ ∃ j t, NamesAt v src.ino srcName j t ∧ Moved v w (src.ino, j) dst.ino dstName) := by
  unfold capyfsRenameInode
  split
  · exact Yields.fail (Stays.refl hs)
  · rename_i hdirs
    simp only [Bool.or_eq_true, Bool.not_eq_eq_eq_not, Bool.not_true, not_or, Bool.not_eq_false] at hdirs
    have hds := hsrc.isDirectory.mpr hdirs.1
    have hdd := hdst.isDirectory.mpr hdirs.2
    refine Yields.bounded (fun hb => (readInode_does (hb.inodes _ hsrc.live)).seq
      ((readInode_does (hb.inodes _ hdst.live)).seq ?_))
    refine (dirFindEntry_yields hs.toSound hds srcName).bind ?_
      (fun _ h => by rw [h.1]; exact Stays.refl hs)
    rintro e w ⟨rfl, j, hf⟩
    have h0 : e.ino.toNat ≠ 0 := fun h => hf.used (BitVec.eq_of_toNat_eq h)
    have hblk := entryBlock_inData hb hs.toSound hds hf.lt
    have hat := hf.namesAt
    split
    · rename_i hsame
      rw [← hsame] at hdd ⊢
      split
      · rename_i hnames
        refine Yields.pure ⟨hdd, j, _, hat, ?_⟩
        have hname : fieldName (direntName (w.data (w.entryBlock src.ino j)) (j % direntsPerBlock)) =
            srcName := by
          rw [← hf.name_eq, dirents_of hs.toSound hds hf.lt]
          rfl
        have heq := cstringBytes_eq hname hf.short hnames
        refine ⟨rfl, fun _ => rfl, fun _ _ => rfl, fun _ => rfl,
          .inl ⟨rfl, w.dirents (src.ino, j), rfl, fun _ => ?_, ?_⟩, hs, id⟩
        · rw [hf.name_eq, heq, List.take_of_length_le (Nat.le_of_lt_succ hf.short)]
        · rw [update_eq_self]
      · rw [hf.block, hf.off]
        refine (getBlock_does hblk).seq ((putBlock_does hblk _).seq
          ((writeInode_does (hb.inodes _ hsrc.live) _).mono ?_))
        rintro r z ⟨rfl, rfl⟩
        refine ⟨hdd, j, _, hat, ?_⟩
        have hedit := edited_store (c := cstringCopy (w.data (w.entryBlock src.ino j))
          (direntSize * (j % direntsPerBlock) + 4) capyfsNameMax dstName) hs.toSound hds hf.lt
          (fun off hoff => readDirent_copy_other hoff)
        have hput := @put_self (w.store (w.entryBlock src.ino j) (cstringCopy
          (w.data (w.entryBlock src.ino j)) (direntSize * (j % direntsPerBlock) + 4) capyfsNameMax
          dstName)) src.ino
        rw [← hput] at hedit
        refine moved_same hs hedit ?_ ?_ ?_
        · exact update_eq_self _ _
        · unfold Volume.entries
          rw [dirents_of hs.toSound hds hf.lt]
          simp only [readDirent, direntIno_copy]
        · intro hz
          rw [readDirent_copy hz]
    · rename_i hne
      refine (dirFindEntry_yields hs.toSound hdd dstName).tried ?_
      rintro r w' ⟨rfl, hr⟩
      cases r with
      | some e' => exact Yields.fail (Stays.refl hs)
      | none =>
        simp only [Option.isSome_none, Bool.false_eq_true, if_false]
        refine (dirAddEntry_yields hl hs hdd e.ino.isLt dstName).bind ?_ (fun _ h => h)
        rintro x u ⟨hadds, -, hlen⟩
        have hadds' := hadds
        obtain ⟨j', e', hj', hu, he', hname'⟩ := hadds'
        -- the entry that was found is still where it was
        have hdu := (isDirectory_congr hu.imap hu.mode src.ino).mpr hds
        have hju : j < u.entryCount src.ino := by
          unfold entryCount
          rw [hu.others src.ino hne]
          exact hf.lt
        have hblock := entryBlock_kept hu.imap hu.keep hs.toSound hds hf.lt
        obtain ⟨e0, he0, hclear⟩ := edited_clear hu.sound hdu hju
        rw [hf.block, hf.off, ← hblock, ← hu.others src.ino hne]
        refine (dirClearEntry_does (hb.inodes _ hsrc.live) (by rw [hblock]; exact hblk) _).triedSeq ?_
        simp only [Option.isSome_some, if_true]
        refine Yields.pure ⟨hdd, j, _, hat, ?_⟩
        refine moved_across hs (by rw [← hf.ino]; exact h0) (Ne.symm hne) (hr hlen) ?_ hclear rfl he0
        rw [← hf.ino]
        exact hadds

end CapyOS.Proofs
