import CapyOS.Proofs.VolumeContents
import CapyOS.Proofs.VolumeNamespace

namespace CapyOS.Proofs
open Lib FsM Volume Function
variable {ns : List Name} {k : Nat × Nat} {i t : Nat}

/-- Names lead from one inode to another on disk. -/
def Leads (v : Volume) : Nat → List Name → Nat → Prop
  | i, [], t => i = t
  | i, name :: rest, t => ∃ j c, NamesAt v i name j c ∧ Leads v c rest t

/-- An inode and what entries lead to from it. -/
inductive Descends (v : Volume) (d : Nat) : Nat → Prop
  | self : Descends v d d
  | child {i j : Nat} : Descends v d i → v.entries (i, j) ≠ 0 → Descends v d (v.entries (i, j))

/-- No directory has two entries of one name. -/
def DistinctNames (v : Volume) : Prop := ∀ d j j', v.entries (d, j) ≠ 0 → v.entries (d, j') ≠ 0 →
  (v.dirents (d, j)).2 = (v.dirents (d, j')).2 → j = j'

section
variable {v u w : Volume}

theorem leads_append {a b : List Name} : Leads v i (a ++ b) t ↔ ∃ x, Leads v i a x ∧ Leads v x b t := by
  induction a generalizing i with
  | nil => simp [Leads]
  | cons name a ih =>
    simp only [List.cons_append, Leads, ih]
    constructor
    · rintro ⟨j, c, hat, x, ha, hb⟩
      exact ⟨x, ⟨j, c, hat, ha⟩, hb⟩
    · rintro ⟨x, ⟨j, c, hat, ha⟩, hb⟩
      exact ⟨j, c, hat, x, ha, hb⟩

theorem Descends.trans {d i t : Nat} (h : Descends v d i) (h' : Descends v i t) : Descends v d t := by
  induction h' with
  | self => exact h
  | child _ hused ih => exact ih.child hused

theorem Leads.descends (h : Leads v i ns t) : Descends v i t := by
  induction ns generalizing i with
  | nil =>
    cases h
    exact .self
  | cons name rest ih =>
    obtain ⟨j, c, hat, hrest⟩ := h
    have hstep := (Descends.self (v := v) (d := i)).child (j := j) (by rw [hat.entries]; exact hat.used)
    rw [hat.entries] at hstep
    exact hstep.trans (ih hrest)

theorem Leads.unique {i t t' : Nat} (h : Leads v i ns t) (h' : Leads v i ns t') : t = t' := by
  induction ns generalizing i with
  | nil => exact h.symm.trans h'
  | cons name rest ih =>
    obtain ⟨j, c, hat, hrest⟩ := h
    obtain ⟨j', c', hat', hrest'⟩ := h'
    obtain ⟨-, rfl⟩ := hat.unique hat'
    exact ih hrest hrest'

def Thinned (v w : Volume) : Prop := ∀ k, w.entries k ≠ 0 → w.dirents k = v.dirents k

theorem Thinned.entries (h : Thinned v w) (hk : w.entries k ≠ 0) :
    w.entries k = v.entries k := congrArg Prod.fst (h k hk)

theorem Thinned.used (h : Thinned v w) (hk : w.entries k ≠ 0) : v.entries k ≠ 0 := by
  rw [← h.entries hk]
  exact hk

theorem Thinned.trans (h : Thinned v u) (h' : Thinned u w) : Thinned v w := fun k hk =>
  (h' k hk).trans (h k (h'.used hk))

theorem Thinned.distinct (h : Thinned v w) (hv : DistinctNames v) : DistinctNames w := by
  intro d j j' hj hj' he
  rw [h _ hj, h _ hj'] at he
  exact hv d j j' (h.used hj) (h.used hj') he

theorem Thinned.leads (h : Thinned v w) (hv : DistinctNames v)
    (hl : Leads w i ns t) : Leads v i ns t := by
  induction ns generalizing i with
  | nil => exact hl
  | cons name rest ih =>
    obtain ⟨j, c, hat, hrest⟩ := hl
    have hused : w.entries (i, j) ≠ 0 := by
      rw [hat.entries]
      exact hat.used
    have hdirent : v.dirents (i, j) = (c, name) := (h _ hused).symm.trans hat.dirent
    refine ⟨j, c, ⟨hdirent, hat.short, hat.used, fun j' hlt hj' hn => ?_⟩, ih hrest⟩
    have hj := hv i j' j hj' (h.used hused) (by rw [hn, hdirent])
    omega

theorem Removed.thinned {t : Nat} (hr : Removed v w k t) : Thinned v w := by
  intro k' hk'
  rw [hr.entries] at hk'
  by_cases he : k' = k
  · rw [he, update_self] at hk'
    exact absurd rfl hk'
  · rw [update_of_ne he] at hk'
    exact hr.dirents k' he hk'

/-- Removals one after the other, each below a path. -/
inductive Prunes (ns : List Name) (v : Volume) : Volume → Prop
  | start : Prunes ns v v
  | remove {u w : Volume} {below : List Name} {k : Nat × Nat} {t : Nat} : Prunes ns v u →
      Leads u 0 (ns ++ below) t → Removed u w k t →
      (∀ i, u.imap i = true → i ≠ t → ¬ u.IsDirectory i → contents w i = contents u i) → Prunes ns v w

variable {ns : List Name}

theorem Prunes.trans {below : List Name} (h : Prunes ns v u) (h' : Prunes (ns ++ below) u w) : Prunes ns v w := by
  induction h' with
  | start => exact h
  | remove _ hleads hr hkept ih =>
    rw [List.append_assoc] at hleads
    exact ih.remove hleads hr hkept

theorem Prunes.thinned (h : Prunes ns v w) : Thinned v w := by
  induction h with
  | start => exact fun _ _ => rfl
  | remove _ _ hr _ ih => exact ih.trans hr.thinned

theorem Prunes.kept (h : Prunes ns v w) {i : Nat} (hi : w.imap i = true) :
    v.imap i = true ∧ w.inode i = v.inode i ∧ (¬ v.IsDirectory i → contents w i = contents v i) := by
  induction h with
  | start => exact ⟨hi, rfl, fun _ => rfl⟩
  | @remove u w _ _ t _ _ hr hkept ih =>
    have hne : i ≠ t := by
      rintro rfl
      rw [hr.imap, update_self] at hi
      cases hi
    rw [hr.imap, update_of_ne hne] at hi
    obtain ⟨hv, hsame, hcontents⟩ := ih hi
    refine ⟨hv, (hr.others i hne).trans hsame, fun hd => ?_⟩
    have hdu : ¬ u.IsDirectory i := by
      rintro ⟨-, hdu⟩
      rw [hsame] at hdu
      exact hd ⟨hv, hdu⟩
    exact (hkept i hi hne hdu).trans (hcontents hd)

theorem Prunes.gone (h : Prunes ns v w) (hv : DistinctNames v) {i : Nat} (hlive : v.imap i = true)
    (hi : w.imap i = false) : ∃ d, Leads v 0 ns d ∧ Descends v d i := by
  induction h with
  | start =>
    rw [hlive] at hi
    cases hi
  | @remove u w _ _ t hpre hleads hr _ ih =>
    by_cases he : i = t
    · obtain ⟨d, hd, hbelow⟩ := leads_append.mp (hpre.thinned.leads hv hleads)
      exact ⟨d, hd, he ▸ hbelow.descends⟩
    · rw [hr.imap, update_of_ne he] at hi
      exact ih hi

/-- An entry goes with the inode it names, and an inode goes after what it names. -/
theorem Prunes.closed (h : Prunes ns v w) : (∀ k, w.entries k = v.entries k ∨ w.entries k = 0 ∧ w.imap (v.entries k) = false) ∧
    ∀ i j, v.imap i = true → w.imap i = false → v.entries (i, j) ≠ 0 → w.imap (v.entries (i, j)) = false := by
  induction h with
  | start =>
    refine ⟨fun _ => .inl rfl, fun i j hi hdead => ?_⟩
    rw [hi] at hdead
    cases hdead
  | @remove u w _ k t _ _ hr _ ih =>
    obtain ⟨hentries, hdead⟩ := ih
    have hkeepsDead : ∀ i, u.imap i = false → w.imap i = false := by
      intro i hi
      rw [hr.imap, update_apply]
      split
      · rfl
      · exact hi
    have ht : w.imap t = false := by rw [hr.imap, update_self]
    refine ⟨fun k' => ?_, fun i j hi hgone hused => ?_⟩
    · by_cases he : k' = k
      · right
        rw [he, hr.entries, update_self]
        refine ⟨rfl, ?_⟩
        cases hentries k with
        | inl hsame => rw [← hsame, hr.named, ht]
        | inr hzero => exact hkeepsDead _ hzero.2
      · rw [hr.entries, update_of_ne he]
        exact (hentries k').imp_right (And.imp_right (hkeepsDead _))
    · by_cases he : i = t
      · subst he
        cases hentries (i, j) with
        | inl hsame => exact absurd (hsame.symm.trans (hr.empty j)) hused
        | inr hzero => exact hkeepsDead _ hzero.2
      · rw [hr.imap, update_of_ne he] at hgone
        exact hkeepsDead _ (hdead i j hi hgone hused)

/-- Exactly the inode `d` and what entries lead to from it is gone. -/
structure RemovedTree (v w : Volume) (d : Nat) : Prop where
  inodes : ∀ i, w.imap i = true ↔ v.imap i = true ∧ ¬ Descends v d i
  kept : ∀ i, w.imap i = true →
    w.inode i = v.inode i ∧ (¬ v.IsDirectory i → contents w i = contents v i)
  entries : ∀ k, w.entries k ≠ 0 ↔ v.entries k ≠ 0 ∧ ¬ Descends v d (v.entries k)
  dirents : ∀ k, w.entries k ≠ 0 → w.dirents k = v.dirents k

theorem Prunes.removedTree {v w : Volume} {d : Nat} (h : Prunes ns v w) (hs : v.Safe)
    (hw : w.Safe) (hv : DistinctNames v) (hd : Leads v 0 ns d) (hgone : w.imap d = false) : RemovedTree v w d := by
  have hlive : ∀ i, Descends v d i → v.imap i = true ∧ w.imap i = false := by
    intro i hi
    induction hi with
    | self =>
      refine ⟨?_, hgone⟩
      cases hd.descends with
      | self => exact hs.root.1
      | child _ hused => exact hs.inodes.held _ hused
    | child _ hused ih => exact ⟨hs.inodes.held _ hused, h.closed.2 _ _ ih.1 ih.2 hused⟩
  have hbelow : ∀ i, v.imap i = true → w.imap i = false → Descends v d i := by
    intro i hi hdead
    obtain ⟨d', hd', hdesc⟩ := h.gone hv hi hdead
    exact hd.unique hd' ▸ hdesc
  refine ⟨fun i => ⟨fun hi => ⟨(h.kept hi).1, fun hdesc => ?_⟩, fun ⟨hi, hno⟩ => ?_⟩,
    fun i hi => (h.kept hi).2, fun k => ⟨fun hk => ⟨h.thinned.used hk, fun hdesc => ?_⟩,
      fun ⟨hk, hno⟩ hzero => ?_⟩, h.thinned⟩
  · have hdead := (hlive i hdesc).2
    rw [hi] at hdead
    cases hdead
  · by_contra hdead
    exact hno (hbelow i hi (by simpa using hdead))
  · have hheld := hw.inodes.held k hk
    rw [h.thinned.entries hk, (hlive _ hdesc).2] at hheld
    cases hheld
  · cases h.closed.1 k with
    | inl hsame => exact hk (hsame.symm.trans hzero)
    | inr hdead => exact hno (hbelow _ (hs.inodes.held k hk) hdead.2)

end

def entriesOf (v : Volume) (d : Nat) : Nat :=
  ((List.range (v.entryCount d)).filter fun j => v.entries (d, j) ≠ 0).length

variable {m : CapySuper} {v w : Volume}

theorem contents_removed (hs : v.Sound) {t dir : Nat} (j : Nat) (ht : v.imap t = true)
    (hdir : v.IsDirectory dir) (himap : ∀ i, i ≠ t → w.imap i = v.imap i) (hinode : ∀ i, i ≠ t → w.inode i = v.inode i)
    (hdata : ∀ b, b ≠ (v.inode t).indirect.toNat → b ≠ v.entryBlock dir j → w.data b = v.data b)
    {i : Nat} (hi : v.imap i = true) (hne : i ≠ t) (hd : ¬ v.IsDirectory i) : contents w i = contents v i := by
  have hslot : ∀ s, (v.ptr (v.inode i) s).toNat ≠ 0 →
      w.data (v.ptr (v.inode i) s).toNat = v.data (v.ptr (v.inode i) s).toNat := by
    intro s h0
    apply hdata
    · intro he
      exact hne (slot_inj hs s .indirect hi ht h0 he).1
    · intro he
      obtain ⟨rfl, -⟩ := slot_inj hs s _ hi hdir.1 h0 he
      exact hd hdir
  have hptr : ∀ s, w.ptr (v.inode i) s = v.ptr (v.inode i) s := by
    intro s
    cases s with
    | direct l => rfl
    | indirect => rfl
    | entry k =>
      by_cases hind : (v.inode i).indirect = 0#32
      · simp [ptr, hind]
      · have hsame := hslot .indirect (fun h => hind (BitVec.eq_of_toNat_eq h))
        simp only [ptr] at hsame ⊢
        rw [hsame]
  have hpointers : ∀ s, w.pointers (i, s) = v.pointers (i, s) := by
    intro s
    simp only [pointers, himap i hne, hinode i hne, hptr]
  unfold contents
  rw [hinode i hne]
  apply List.map_congr_left
  intro k _
  unfold fileByte fileBlock
  rw [hpointers]
  split
  · rfl
  next h0 =>
    simp only [pointers, hi, if_true] at h0 ⊢
    rw [hslot _ h0]

theorem remove_contents (hs : v.Safe) {dir : VInode} (hv : Valid v dir) {name : Name} {j t : Nat}
    (hat : NamesAt v dir.ino name j t) (isDir : Bool) :
    Yields m v (capyfsRemove m dir name isDir) (fun _ w => ∀ i, v.imap i = true → i ≠ t →
      ¬ v.IsDirectory i → contents w i = contents v i) := by
  unfold capyfsRemove
  split
  · exact Yields.fail (fun _ _ _ _ => rfl)
  next hdir =>
    have hd : v.IsDirectory dir.ino := hv.isDirectory.mpr (by simpa using hdir)
    refine Yields.bounded (fun hb => (readInode_does (hb.inodes _ hv.live)).seq ?_)
    refine (dirFindEntry_yields hs.toSound hd name).bind ?_ (fun _ h => by rw [h.1]; exact fun _ _ _ _ => rfl)
    rintro e w ⟨rfl, j', hf⟩
    obtain ⟨rfl, rfl⟩ := hat.unique hf.namesAt
    have hlive : w.imap e.ino.toNat = true := by
      rw [← hat.entries]
      exact hs.inodes.held _ (by rw [hat.entries]; exact hat.used)
    have hti := hb.inodes _ hlive
    refine (readInode_does hti).seq ?_
    refine (removable_yields hs hlive isDir).bind ?_ (fun _ h => by rw [h.1]; exact fun _ _ _ _ => rfl)
    rintro empty w' ⟨rfl, -⟩
    split
    · exact Yields.fail (fun _ _ _ _ => rfl)
    · have hblk := entryBlock_inData hb hs.toSound hd hf.lt
      refine (freeDataBlocks_yields (fun s hz => ?_)).next ?_
      · exact hb.blocks _ (slot_taken hs.toSound s hlive (fun h => hz (BitVec.eq_of_toNat_eq h)))
      · rintro y u ⟨himap, hinode, hdata, -⟩
        rw [hf.block, hf.off, ← hinode]
        refine (dirClearEntry_does (hb.inodes _ hv.live) hblk _).seq ?_
        refine (writeInode_does hti _).seq ((freeInodeBit_does hti).mono ?_)
        rintro r z ⟨rfl, rfl⟩
        intro i hi hne hdi
        refine contents_removed hs.toSound j hlive hd (fun i hi => ?_) (fun i hi => ?_)
          (fun b hbt hbd => ?_) hi hne hdi
        · exact (update_of_ne hi _ _).trans (congrFun himap i)
        · exact (update_of_ne hi _ _).trans (congrFun hinode i)
        · exact (update_of_ne hbd _ _).trans (hdata b hbt)

end CapyOS.Proofs
