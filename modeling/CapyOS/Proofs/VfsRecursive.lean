import CapyOS.Proofs.VfsAgreement
import CapyOS.Proofs.VolumeRemovals

namespace CapyOS.Proofs
open Lib FsM Volume Function List
variable {v w : Volume} {r : VfsError × Vfs} {childPath : Name} {isDir : Bool} {name : Name}
variable {p c : Nat} {d : Nat}
variable {path : Name} {outLen : Nat}

theorem appendBounded_eq {bytes out r : Name} (h : appendBounded outLen out bytes = some r) :
    r = out ++ bytes ∧ (bytes ≠ [] → r.length < outLen) := by
  induction bytes generalizing out with
  | nil =>
    cases h
    exact ⟨(append_nil _).symm, fun h => absurd rfl h⟩
  | cons c rest ih =>
    simp only [appendBounded] at h
    split at h
    · cases h
    next hroom =>
      obtain ⟨hr, hlen⟩ := ih h
      refine ⟨by rw [hr, append_assoc]; rfl, fun _ => ?_⟩
      cases rest with
      | nil =>
        rw [hr]
        simp only [append_nil, length_append, length_singleton]
        omega
      | cons d rest => exact hlen (cons_ne_nil _ _)

theorem pieces_append (a b : Name) : pieces (a ++ slash :: b) = pieces a ++ pieces b := by
  induction a with
  | nil => simp [pieces]
  | cons c a ih =>
    by_cases hc : c = slash
    · simp [pieces, hc, ih]
    · simp only [cons_append, pieces, if_neg hc, ih]
      cases hp : pieces a with
      | nil => exact absurd hp (pieces_ne_nil a)
      | cons w ws => rfl

theorem components_append (a b : Name) : components (a ++ slash :: b) = components a ++ components b := by
  unfold components
  rw [pieces_append, filter_append]

theorem join_components {dir name r : Name} (hdir : 1 < dir.length)
    (h : vfsJoinChildPath dir name outLen = some r) : ∃ below, components r = components dir ++ below := by
  simp only [vfsJoinChildPath, Option.bind_eq_some_iff] at h
  obtain ⟨out, hout, out', hout', hr⟩ := h
  obtain ⟨hsame, -⟩ := appendBounded_eq hout
  rw [hsame, nil_append] at hout'
  obtain ⟨rfl, -⟩ := appendBounded_eq hr
  refine ⟨components name, ?_⟩
  split at hout'
  · obtain ⟨rfl, -⟩ := appendBounded_eq hout'
    rw [append_assoc]
    exact components_append dir name
  next hslash =>
    obtain rfl := Option.some.inj hout'
    have hlast : dir.getLast? = some slash := by
      by_contra hne
      exact hslash ⟨hdir, hne⟩
    obtain ⟨front, rfl⟩ := List.getLast?_eq_some_iff.mp hlast
    rw [append_assoc, singleton_append, components_append, components_append, components_nil, append_nil]

section
variable {heap : Heap} {m : CapySuper} {s t : Vfs}

theorem resolveComps_leads (hs : Mounted m s) {cur d : Nat} {n : Name} (hcur : s.live cur = true)
    {comps : List Name} (hcomps : ∀ n ∈ comps, n ≠ []) (h : resolveComps heap m false s cur comps = (some (d, n), t)) :
    Leads (volumeOf m s.fs.dev) (s.dentry cur).inode.ino comps (t.dentry d).inode.ino := by
  induction comps generalizing s cur with
  | nil =>
    cases h
    exact rfl
  | cons name rest ih =>
    have hrest : ∀ n ∈ rest, n ≠ [] := fun n hn => hcomps n (mem_cons_of_mem _ hn)
    have hname := hcomps name mem_cons_self
    simp only [resolveComps, Bool.false_and, Bool.false_eq_true, if_false] at h
    split at h
    · cases h
    next hlong =>
      have hlen := Nat.lt_of_not_le hlong
      cases hl : dentryLookupChild s cur name with
      | some c =>
        rw [hl] at h
        obtain ⟨hmem, hn⟩ := lookupChild_mem hl
        obtain ⟨j, hat⟩ := hs.mirrors.child cur c hcur hmem
        rw [hn] at hat
        exact ⟨j, _, hat, ih hs (hs.mirrors.tree.child cur c hcur hmem).1 hrest h⟩
      | none =>
        rw [hl] at h
        obtain ⟨u, hu, hmiss⟩ := resolveMiss_cases heap m s cur name
        have hus : u = s := by
          cases hu with
          | inl hsame => exact hsame
          | inr hrefresh => exact hrefresh.trans (hs.refresh_same hcur)
        subst hus
        rcases hmiss with ⟨-, he⟩ | ⟨inode, hsome, ⟨-, he⟩ | ⟨-, he⟩⟩
        · rw [he] at h
          cases h
        · rw [he] at h
          cases h
        · rw [he] at h
          obtain ⟨-, j, hat⟩ := hs.lookup_some hcur hsome
          have hcached := (mounted_inv heap m).cache u cur name inode hs hcur hname hlen hl hsome
          have hnext := ih (s := cacheChild u cur name inode) hcached (by simp) hrest h
          rw [cache_new u name inode (hs.mirrors.tree.bound cur hcur)] at hnext
          exact ⟨j, _, hat, hnext⟩

theorem Found.leads {c : Nat} (hs : Mounted m s) (hf : Found heap m s path c t) :
    Leads (volumeOf m s.fs.dev) 0 (components path) (t.dentry c).inode.ino := by
  have hresolve := hf.resolve
  by_cases hp : path.head? = some slash
  · rw [vfsResolve_eq heap m hp] at hresolve
    have hok := hs.setError .ok
    have hleads := resolveComps_leads hok hok.mirrors.tree.root.1 (components_ne_nil path) hresolve
    rw [hok.mirrors.root] at hleads
    exact hleads
  · rw [vfsResolve_relative heap m hp] at hresolve
    cases hresolve

theorem Browses.volume (h : Browses heap m s t) : volumeOf m t.fs.dev = volumeOf m s.fs.dev := by
  rw [h.caches.fs]

/-- A call that removes takes away at most what its path names. -/
theorem Removes.prunes {user : Option User} {r : Vfs}
    (hs : Mounted m s) (h : Removes heap m user s path isDir p c t r) :
    Prunes (components path) (volumeOf m s.fs.dev) (volumeOf m r.fs.dev) ∧
      ((capyfsRemove m (t.dentry p).inode (t.dentry c).name isDir t.fs).1.isSome = true →
        ∃ d, Leads (volumeOf m s.fs.dev) 0 (components path) d ∧ (volumeOf m r.fs.dev).imap d = false) ∧
      ((capyfsRemove m (t.dentry p).inode (t.dentry c).name isDir t.fs).1.isSome = false →
        volumeOf m r.fs.dev = volumeOf m s.fs.dev) := by
  have ht := hs.browses h.browses
  have hv := (ht.mirrors.agrees p h.live).toValid
  obtain ⟨j, hat⟩ := ht.mirrors.child p c h.live h.child
  obtain ⟨hc, hpost⟩ := remove_yields ht.safe hv (t.dentry c).name isDir t.fs ht.carries rfl
  have hkept := (remove_contents ht.safe hv hat isDir t.fs ht.carries rfl).2
  have hleads : Leads (volumeOf m t.fs.dev) 0 (components path ++ []) (t.dentry c).inode.ino := by
    obtain ⟨t0, hf, hrefresh⟩ := h.found
    have hl := hf.leads hs
    rw [append_nil, Browses.volume h.browses]
    cases hrefresh with
    | inl hsame => exact hsame ▸ hl
    | inr hrefresh =>
      rw [hrefresh, (refresh_sameInode t0 c c).ino]
      exact hl
  rw [← Browses.volume h.browses]
  rcases h.result with ⟨hnone, u, e, hu, rfl⟩ | ⟨hsome, rfl⟩
  · rw [hnone] at hpost ⊢
    have hsame : volumeOf m (u.setError e).fs.dev = volumeOf m t.fs.dev := by
      cases hu with
      | inl hset => rw [hset]; exact hpost
      | inr hrefresh =>
        rw [hrefresh, setError_fs, (Caches.refresh m _ c).fs]
        exact hpost
    refine ⟨?_, nofun, fun _ => hsame⟩
    rw [hsame]
    exact .start
  · obtain ⟨a, ha⟩ := Option.isSome_iff_exists.mp hsome
    rw [ha] at hpost
    obtain ⟨j', i, hat', hremoved, -⟩ := hpost
    obtain ⟨rfl, rfl⟩ := hat.unique hat'
    have hforget := h.forgets (capyfsRemove m (t.dentry p).inode (t.dentry c).name isDir t.fs).2
    have hfs : ((dentryForget ((setFs t (capyfsRemove m (t.dentry p).inode (t.dentry c).name isDir
        t.fs).2).refresh m p) p (t.dentry c).name).setError .ok).fs =
        (capyfsRemove m (t.dentry p).inode (t.dentry c).name isDir t.fs).2 := by
      rw [setError_fs, hforget.fs, (Caches.refresh m _ p).fs]
      rfl
    rw [hfs]
    refine ⟨Prunes.start.remove hleads hremoved hkept, fun _ => ⟨(t.dentry c).inode.ino, ?_, ?_⟩,
      fun hno => (by rw [hsome] at hno; cases hno)⟩
    · rw [append_nil] at hleads
      exact hleads
    · rw [hremoved.imap, update_self]

end

section
variable (m : CapySuper) {σ : Type}

theorem iterateScanWith_readOnly (x : CapyInodeDisk) (cb : Name → BitVec 16 → σ → Bool × σ) (n i : Nat)
    (ctx : σ) : ReadOnly (iterateScanWith m x cb n i ctx) := by
  induction n generalizing i ctx with
  | zero => exact .pure _
  | succ n ih =>
    refine .bind (getDataBlock_readOnly m x _) fun r => ?_
    cases r.block with
    | none => exact .pure _
    | some blk =>
      refine .ite (ih _ _) (.bind (.attempt (bufferGet_readOnly _)) fun b => ?_)
      cases b with
      | none => exact .pure _
      | some b =>
        refine .ite (ih _ _) (.bind (.attempt (readInodeDisk_readOnly m _)) fun child => ?_)
        cases child with
        | none => exact .pure _
        | some child => exact .ite (.pure _) (ih _ _)

theorem iterateWith_readOnly (dir : VInode) (cb : Name → BitVec 16 → σ → Bool × σ) (ctx : σ) :
    ReadOnly (capyfsIterateWith m dir cb ctx) := by
  refine .ite (.pure _) (.bind (.attempt (readInodeDisk_readOnly m _)) fun x => ?_)
  cases x with
  | none => exact .pure _
  | some x => exact iterateScanWith_readOnly m x cb _ _ _

end

section
variable {heap : Heap} {m : CapySuper} {user : Option User} {s t u : Vfs} {path : Name}

theorem listdirWith_browses {σ : Type} (hs : DentryTree s) (user : Option User) (path : Name)
    (cb : Name → BitVec 16 → σ → Bool × σ) (ctx : σ) : Browses heap m s (vfsListdirWith m heap user s path cb ctx).2 := by
  unfold vfsListdirWith
  rcases found_cases hs path with ⟨t, h, hb⟩ | ⟨d, t, h⟩
  · rw [h]
    exact hb.setError _
  · rw [h.resolve]
    simp only
    split
    · exact h.toBrowses.setError _
    · split
      · exact h.toBrowses.setError _
      · rw [iterateWith_readOnly m _ _ _ t.fs]
        split
        · exact (h.toBrowses.refresh h.live).setError _
        · split <;> exact (h.toBrowses.refresh h.live).setError _

structure PrunesPath (m : CapySuper) (path : Name) (s t : Vfs) : Prop where
  mounted : Mounted m t
  prunes : Prunes (components path) (volumeOf m s.fs.dev) (volumeOf m t.fs.dev)

theorem PrunesPath.browses (hs : Mounted m s) (h : Browses heap m s t) : PrunesPath m path s t :=
  ⟨hs.browses h, by rw [Browses.volume h]; exact .start⟩

theorem PrunesPath.refl (hs : Mounted m s) : PrunesPath m path s s := ⟨hs, .start⟩

theorem PrunesPath.setError (h : PrunesPath m path s t) (e : VfsError) :
    PrunesPath m path s (t.setError e) := ⟨h.mounted.setError e, h.prunes⟩

theorem PrunesPath.trans (h : PrunesPath m path s t) (h' : PrunesPath m path t u) : PrunesPath m path s u := by
  have hlast := h'.prunes
  rw [← append_nil (components path)] at hlast
  exact ⟨h'.mounted, h.prunes.trans hlast⟩

theorem PrunesPath.above {below : List Name}
    (hbelow : components childPath = components path ++ below) (h : PrunesPath m childPath s t) : PrunesPath m path s t := by
  have hchild := h.prunes
  rw [hbelow] at hchild
  exact ⟨h.mounted, Prunes.start.trans hchild⟩

theorem unlink_prunes (hs : Mounted m s) (user : Option User) (path : Name) :
    PrunesPath m path s (vfsUnlink heap m user s path).2 := by
  rcases unlink_cases hs.mirrors.tree user path with ⟨h, -⟩ | ⟨p, c, t, h, -⟩
  · exact .browses hs h
  · exact ⟨h.mounted hs, (h.prunes hs).1⟩

theorem rmdir_prunes (hs : Mounted m s) (user : Option User) (path : Name) :
    PrunesPath m path s (vfsRmdir heap m user s path).2 ∧ ((vfsRmdir heap m user s path).1 = .ok →
      ∃ d, Leads (volumeOf m s.fs.dev) 0 (components path) d ∧
        (volumeOf m (vfsRmdir heap m user s path).2.fs.dev).imap d = false) := by
  rcases rmdir_cases hs.mirrors.tree user path with ⟨h, hno⟩ | ⟨p, c, t, h, hok⟩
  · exact ⟨.browses hs h, fun hyes => absurd hyes hno⟩
  · obtain ⟨hprunes, hgone, -⟩ := h.prunes hs
    exact ⟨⟨h.mounted hs, hprunes⟩, fun hyes => hgone (hok.mp hyes)⟩

/-- An entry is gone. -/
def Lost (v w : Volume) : Prop := ∃ k, v.entries k ≠ 0 ∧ w.entries k = 0

theorem Lost.dirents (h : Lost v w) : w.dirents ≠ v.dirents := by
  obtain ⟨k, hk, hzero⟩ := h
  intro hsame
  exact hk (by rw [← hzero, Volume.entries, Volume.entries, hsame])

theorem Lost.trans {u v w : Volume} (h : Lost u v) (hthin : Thinned v w) : Lost u w := by
  obtain ⟨k, hk, hzero⟩ := h
  refine ⟨k, hk, ?_⟩
  by_contra hne
  exact hthin.used hne hzero

theorem Leads.lost {ns : List Name} (hd : Leads v 0 ns d) (hw : w.Safe) (hthin : Thinned v w)
    (hgone : w.imap d = false) : Lost v w := by
  cases hd.descends with
  | self =>
    rw [hw.root.1] at hgone
    cases hgone
  | @child i j _ hused =>
    refine ⟨(i, j), hused, ?_⟩
    by_contra hne
    have hheld := hw.inodes.held _ hne
    rw [hthin.entries hne, hgone] at hheld
    cases hheld

/-- A removal that fails leaves the volume as it is; one that succeeds takes an entry away. -/
theorem Removes.lost (hs : Mounted m s)
    (h : Removes heap m user s path isDir p c t r.2)
    (hok : r.1 = .ok ↔ (capyfsRemove m (t.dentry p).inode (t.dentry c).name isDir t.fs).1.isSome = true) :
    (r.1 ≠ .ok ∧ volumeOf m r.2.fs.dev = volumeOf m s.fs.dev) ∨
      (r.1 = .ok ∧ Lost (volumeOf m s.fs.dev) (volumeOf m r.2.fs.dev)) := by
  obtain ⟨hprunes, hgone, hsame⟩ := h.prunes hs
  cases hsome : (capyfsRemove m (t.dentry p).inode (t.dentry c).name isDir t.fs).1.isSome with
  | false => exact .inl ⟨fun hyes => (by rw [hok.mp hyes] at hsome; cases hsome), hsame hsome⟩
  | true =>
    obtain ⟨d, hd, hdead⟩ := hgone hsome
    exact .inr ⟨hok.mpr hsome, hd.lost (h.mounted hs).safe hprunes.thinned hdead⟩

theorem unlink_lost (hs : Mounted m s) (user : Option User) (path : Name) :
    let r := vfsUnlink heap m user s path
    (r.1 ≠ .ok ∧ volumeOf m r.2.fs.dev = volumeOf m s.fs.dev) ∨
      (r.1 = .ok ∧ Lost (volumeOf m s.fs.dev) (volumeOf m r.2.fs.dev)) := by
  rcases unlink_cases hs.mirrors.tree user path with ⟨h, hno⟩ | ⟨p, c, t, h, hok⟩
  · exact .inl ⟨hno, Browses.volume h⟩
  · exact h.lost hs hok

theorem rmdir_lost (hs : Mounted m s) (user : Option User) (path : Name) :
    let r := vfsRmdir heap m user s path
    (r.1 ≠ .ok ∧ volumeOf m r.2.fs.dev = volumeOf m s.fs.dev) ∨
      (r.1 = .ok ∧ Lost (volumeOf m s.fs.dev) (volumeOf m r.2.fs.dev)) := by
  rcases rmdir_cases hs.mirrors.tree user path with ⟨h, hno⟩ | ⟨p, c, t, h, hok⟩
  · exact .inl ⟨hno, Browses.volume h⟩
  · exact h.lost hs hok

theorem removeChildren_prunes {recurse : Vfs → Name → VfsError × Vfs}
    (hrec : ∀ s path, Mounted m s → PrunesPath m path s (recurse s path).2) (hpath : 1 < path.length)
    (children : List (Name × BitVec 16)) (hs : Mounted m s) :
    PrunesPath m path s (removeChildren m heap user recurse path s children).2 := by
  induction children generalizing s with
  | nil => exact .refl hs
  | cons child rest ih =>
    obtain ⟨name, mode⟩ := child
    cases hjoin : vfsJoinChildPath path name rmdirRecursivePathMax with
    | none =>
      simp only [removeChildren, hjoin]
      exact (PrunesPath.refl hs).setError _
    | some childPath =>
      obtain ⟨below, hbelow⟩ := join_components hpath hjoin
      have hcall : PrunesPath m childPath s (if mode &&& vfsModeDir ≠ 0 then recurse s childPath
          else vfsUnlink heap m user s childPath).2 := by
        split
        · exact hrec s childPath hs
        · exact unlink_prunes hs user childPath
      have hdone := hcall.above hbelow
      generalize hr : (if mode &&& vfsModeDir ≠ 0 then recurse s childPath
        else vfsUnlink heap m user s childPath) = r at hdone
      have hstep : removeChildren m heap user recurse path s ((name, mode) :: rest) =
          if r.1 ≠ .ok then r else removeChildren m heap user recurse path r.2 rest := by
        rw [← hr, removeChildren, hjoin]
      rw [hstep]
      split
      · exact hdone
      · exact hdone.trans (ih hdone.mounted)

theorem rmdirRecursive_cases (n : Nat) (hs : Mounted m s) (path : Name) :
    (PrunesPath m path s (rmdirRecursiveWithin m heap user n s path).2 ∧ (rmdirRecursiveWithin m heap user n s path).1 ≠ .ok) ∨
      ∃ t, PrunesPath m path s t ∧ rmdirRecursiveWithin m heap user n s path = vfsRmdir heap m user t path := by
  induction n generalizing s path with
  | zero => exact .inl ⟨(PrunesPath.refl hs).setError _, nofun⟩
  | succ n ih =>
    have hrec : ∀ s path, Mounted m s →
        PrunesPath m path s (rmdirRecursiveWithin m heap user n s path).2 := by
      intro s path hs
      rcases ih hs path with ⟨h, -⟩ | ⟨t, h, he⟩
      · exact h
      · rw [he]
        exact h.trans (rmdir_prunes h.mounted user path).1
    have hstart : PrunesPath m path s (s.setError .ok) := (PrunesPath.refl hs).setError .ok
    simp only [rmdirRecursiveWithin]
    split
    · exact .inl ⟨hstart.setError _, nofun⟩
    next hempty =>
    split
    · exact .inl ⟨hstart.setError _, nofun⟩
    split
    · exact .inl ⟨hstart.setError _, nofun⟩
    next hroot =>
    have hpath : 1 < path.length := by
      have := length_pos_iff.mpr hempty
      omega
    have hstat : Browses heap m (s.setError .ok) (vfsStatPath heap m user (s.setError .ok) path).2 :=
      statPath_browses hstart.mounted.mirrors.tree user path
    generalize vfsStatPath heap m user (s.setError .ok) path = r at hstat ⊢
    obtain ⟨stat, t⟩ := r
    have ht := hstart.trans (.browses hstart.mounted hstat)
    cases stat with
    | none => exact .inl ⟨ht.setError _, failLastOr_error t nofun⟩
    | some stat =>
      simp only
      split
      · exact .inl ⟨ht.setError _, nofun⟩
      split
      · exact .inl ⟨ht.setError _, nofun⟩
      have hlist := @listdirWith_browses heap m t _ ht.mounted.mirrors.tree user path
        recursiveCollectChild ⟨[], false⟩
      generalize vfsListdirWith m heap user t path recursiveCollectChild ⟨[], false⟩ = r at hlist ⊢
      obtain ⟨⟨e, l⟩, u⟩ := r
      have hu := ht.trans (.browses ht.mounted hlist)
      cases e
      case ok =>
        have hchildren : PrunesPath m path s
            (removeChildren m heap user (rmdirRecursiveWithin m heap user n) path u l.children).2 :=
          hu.trans (removeChildren_prunes hrec hpath l.children hu.mounted)
        simp only
        split
        next hfail => exact .inl ⟨hchildren, hfail⟩
        next => exact .inr ⟨_, hchildren, rfl⟩
      all_goals
        simp only
        split
        · exact .inl ⟨hu.setError _, nofun⟩
        · exact .inl ⟨hu.setError _, failLastOr_error u nofun⟩

theorem rmdirRecursive_prunes (n : Nat) (hs : Mounted m s) (path : Name) :
    PrunesPath m path s (rmdirRecursiveWithin m heap user n s path).2 := by
  rcases rmdirRecursive_cases n hs path with ⟨h, -⟩ | ⟨t, h, he⟩
  · exact h
  · rw [he]
    exact h.trans (rmdir_prunes h.mounted user path).1

/-- The call on the first entry decides: what it removed stays away, and its error ends the loop. -/
theorem firstCall_stops {P : Prop} {more : Vfs → VfsError × Vfs}
    (hr : PrunesPath m childPath u r.2) (hfirst : P ∧ r.1 ≠ .ok ∧ volumeOf m r.2.fs.dev = volumeOf m u.fs.dev ∨
      ¬P ∧ Lost (volumeOf m u.fs.dev) (volumeOf m r.2.fs.dev))
    (hmore : ∀ t, Mounted m t → PrunesPath m path t (more t).2) :
    let q := if r.1 ≠ .ok then r else more r.2
    let q' := if q.1 ≠ .ok then q else vfsRmdir heap m user q.2 path
    P ∧ q'.1 ≠ .ok ∧ volumeOf m q'.2.fs.dev = volumeOf m u.fs.dev ∨
      ¬P ∧ Lost (volumeOf m u.fs.dev) (volumeOf m q'.2.fs.dev) := by
  intro q q'
  obtain ⟨hP, hno, hsame⟩ | ⟨hP, hlost⟩ := hfirst
  · have hq : q = r := if_pos hno
    have hq' : q' = r := by rw [← hq]; exact if_pos (hq ▸ hno)
    rw [hq']
    exact .inl ⟨hP, hno, hsame⟩
  · refine .inr ⟨hP, hlost.trans ?_⟩
    have hloop : PrunesPath m path r.2 q.2 := by
      by_cases hno : r.1 ≠ .ok
      · rw [show q = r from if_pos hno]
        exact .refl hr.mounted
      · rw [show q = more r.2 from if_neg hno]
        exact hmore r.2 hr.mounted
    by_cases hno : q.1 ≠ .ok
    · rw [show q' = q from if_pos hno]
      exact hloop.prunes.thinned
    · rw [show q' = vfsRmdir heap m user q.2 path from if_neg hno]
      exact (hloop.trans (rmdir_prunes hloop.mounted user path).1).prunes.thinned

variable (heap m user) in
/-- The call ends before it removes anything: its path, the memory or the listing does not allow
it, or the first entry, taken further down as long as it is a directory, is not removed. -/
def StopsWithin : Nat → Vfs → Name → Prop
  | 0, _, _ => True
  | n + 1, s, path =>
    if path = [] ∨ path.head? ≠ some slash ∨ path.length = 1 then True
    else match vfsStatPath heap m user (s.setError .ok) path with
      | (none, _) => True
      | (some stat, s) =>
        if !stat.isDir ∨ !heap recursiveChildListSize then True
        else match vfsListdirWith m heap user s path recursiveCollectChild ⟨[], false⟩ with
          | ((.ok, ⟨[], _⟩), s) => (vfsRmdir heap m user s path).1 ≠ .ok
          | ((.ok, ⟨(name, mode) :: _, _⟩), s) =>
            match vfsJoinChildPath path name rmdirRecursivePathMax with
            | none => True
            | some childPath =>
              if mode &&& vfsModeDir ≠ 0 then StopsWithin n s childPath
              else (vfsUnlink heap m user s childPath).1 ≠ .ok
          | _ => True

theorem rmdirRecursive_stops (n : Nat) (hs : Mounted m s) (path : Name) :
    (StopsWithin heap m user n s path ∧ (rmdirRecursiveWithin m heap user n s path).1 ≠ .ok ∧
      volumeOf m (rmdirRecursiveWithin m heap user n s path).2.fs.dev = volumeOf m s.fs.dev) ∨
    (¬StopsWithin heap m user n s path ∧
      Lost (volumeOf m s.fs.dev) (volumeOf m (rmdirRecursiveWithin m heap user n s path).2.fs.dev)) := by
  induction n generalizing s path with
  | zero => exact .inl ⟨trivial, nofun, rfl⟩
  | succ n ih =>
    have hstart : Mounted m (s.setError .ok) := hs.setError .ok
    simp only [rmdirRecursiveWithin, StopsWithin]
    by_cases hpath : path = [] ∨ path.head? ≠ some slash ∨ path.length = 1
    · rw [if_pos hpath]
      refine .inl ⟨trivial, ?_⟩
      split
      · exact ⟨nofun, rfl⟩
      split
      · exact ⟨nofun, rfl⟩
      split
      · exact ⟨nofun, rfl⟩
      · rename_i hempty hslash hroot
        exact absurd hpath (not_or.mpr ⟨hempty, not_or.mpr ⟨hslash, hroot⟩⟩)
    rw [if_neg hpath]
    obtain ⟨hempty, hpath⟩ := not_or.mp hpath
    obtain ⟨hslash, hroot⟩ := not_or.mp hpath
    rw [if_neg hempty, if_neg hslash, if_neg hroot]
    have hlen : 1 < path.length := by
      have := length_pos_iff.mpr hempty
      omega
    have hstat : Browses heap m (s.setError .ok) (vfsStatPath heap m user (s.setError .ok) path).2 :=
      statPath_browses hstart.mirrors.tree user path
    generalize vfsStatPath heap m user (s.setError .ok) path = r at hstat ⊢
    obtain ⟨_ | stat, t⟩ := r
    · have hvt : volumeOf m t.fs.dev = volumeOf m (s.setError .ok).fs.dev := Browses.volume hstat
      exact .inl ⟨trivial, failLastOr_error t nofun, hvt⟩
    have ht := hstart.browses hstat
    have hvt : volumeOf m t.fs.dev = volumeOf m (s.setError .ok).fs.dev := Browses.volume hstat
    simp only
    by_cases hdir : (!stat.isDir) = true
    · rw [if_pos (.inl hdir), if_pos hdir]
      exact .inl ⟨trivial, nofun, hvt⟩
    by_cases hheap : (!heap recursiveChildListSize) = true
    · rw [if_pos (.inr hheap), if_neg hdir, if_pos hheap]
      exact .inl ⟨trivial, nofun, hvt⟩
    rw [if_neg (not_or.mpr ⟨hdir, hheap⟩), if_neg hdir, if_neg hheap]
    have hlist := @listdirWith_browses heap m t _ ht.mirrors.tree user path recursiveCollectChild ⟨[], false⟩
    generalize vfsListdirWith m heap user t path recursiveCollectChild ⟨[], false⟩ = r at hlist ⊢
    obtain ⟨⟨e, ⟨children, overflow⟩⟩, u⟩ := r
    have hu : Mounted m u := ht.browses hlist
    have hvu : volumeOf m u.fs.dev = volumeOf m s.fs.dev := (Browses.volume hlist).trans hvt
    cases e
    case ok =>
      rw [← hvu]
      cases children with
      | nil =>
        simp only [removeChildren, ne_eq, not_true_eq_false, if_false, not_not]
        exact (rmdir_lost hu user path).imp_left fun h => ⟨h.1, h⟩
      | cons child rest =>
        obtain ⟨name, mode⟩ := child
        obtain ⟨joined, hjoin⟩ : ∃ r, vfsJoinChildPath path name rmdirRecursivePathMax = r := ⟨_, rfl⟩
        simp only [removeChildren, hjoin]
        cases joined with
        | none => exact .inl ⟨trivial, nofun, rfl⟩
        | some childPath =>
          simp only
          have hmore : ∀ r, Mounted m r →
              PrunesPath m path r (removeChildren m heap user (rmdirRecursiveWithin m heap user n) path r rest).2 :=
            fun r hr => removeChildren_prunes (fun s path hs => rmdirRecursive_prunes n hs path) hlen rest hr
          split
          · exact firstCall_stops (rmdirRecursive_prunes n hu childPath) (ih hu childPath) hmore
          · refine firstCall_stops (unlink_prunes hu user childPath) ?_ hmore
            exact (unlink_lost hu user childPath).imp (fun h => ⟨h.1, h⟩) (And.imp_left not_not.mpr)
    all_goals
      simp only
      refine .inl ⟨trivial, ?_⟩
      split
      · exact ⟨nofun, hvu⟩
      · exact ⟨failLastOr_error u nofun, hvu⟩

end

section
variable {m : CapySuper} {v w : Volume}

theorem Created.distinct {dir c : Nat} {x : CapyInodeDisk} (hc : Created v w dir c name x)
    (hz : IsCString name) (hv : DistinctNames v) : DistinctNames w := by
  obtain ⟨j0, e, -, -, hname, hw⟩ := hc.place
  -- no old entry of the directory has the new name
  have hother : ∀ j, j ≠ j0 → w.entries (dir, j) ≠ 0 → (w.dirents (dir, j)).2 ≠ (w.dirents (dir, j0)).2 := by
    intro j hj hused he
    have hne : (dir, j) ≠ (dir, j0) := fun h => hj (congrArg Prod.snd h)
    unfold Volume.entries at hused
    rw [hw, update_of_ne hne] at hused
    rw [hw, update_of_ne hne, update_self, hname hz] at he
    exact hc.new ⟨j, Nat.zero_le _, hused, he⟩
  intro d j j' hj hj' he
  by_cases hd : d = dir
  · subst hd
    by_cases hj0 : j = j0
    · by_contra hne
      rw [hj0] at he hne
      exact hother j' (Ne.symm hne) hj' he.symm
    · by_cases hj0' : j' = j0
      · rw [hj0'] at he
        exact absurd he (hother j hj0 hj)
      · have hk : (d, j) ≠ (d, j0) := fun h => hj0 (congrArg Prod.snd h)
        have hk' : (d, j') ≠ (d, j0) := fun h => hj0' (congrArg Prod.snd h)
        unfold Volume.entries at hj hj'
        rw [hw, update_of_ne hk] at hj he
        rw [hw, update_of_ne hk'] at hj'
        rw [update_of_ne hk'] at he
        exact hv d j j' hj hj' he
  · have hk : ∀ j, (d, j) ≠ (dir, j0) := fun j h => hd (congrArg Prod.fst h)
    unfold Volume.entries at hj hj'
    rw [hw, update_of_ne (hk _)] at hj he
    rw [hw, update_of_ne (hk _)] at hj'
    rw [update_of_ne (hk _)] at he
    exact hv d j j' hj hj' he

theorem MovedEntry.distinct {k : Nat × Nat} {dst j0 : Nat}
    (hm : MovedEntry v w k dst name j0) (hv : DistinctNames v)
    (hnew : ∀ j, (dst, j) ≠ k → v.entries (dst, j) ≠ 0 → (v.dirents (dst, j)).2 ≠ name) : DistinctNames w := by
  have hother : ∀ j, j ≠ j0 → w.entries (dst, j) ≠ 0 → (w.dirents (dst, j)).2 ≠ name := by
    intro j hj hused
    have hne : (dst, j) ≠ (dst, j0) := fun h => hj (congrArg Prod.snd h)
    obtain ⟨hk, hdirent, hvused⟩ := hm.others _ hne hused
    rw [hdirent]
    exact hnew j hk hvused
  have hplaced : (w.dirents (dst, j0)).2 = name := by rw [hm.dirent]
  intro d j j' hj hj' he
  by_cases hjk : (d, j) = (dst, j0)
  · by_contra hne
    obtain ⟨rfl, rfl⟩ := Prod.mk.inj hjk
    rw [hplaced] at he
    exact hother j' (Ne.symm hne) hj' he.symm
  · by_cases hjk' : (d, j') = (dst, j0)
    · obtain ⟨rfl, rfl⟩ := Prod.mk.inj hjk'
      rw [hplaced] at he
      exact absurd he (hother j (fun h => hjk (by rw [h])) hj)
    · obtain ⟨-, hdirent, hused⟩ := hm.others _ hjk hj
      obtain ⟨-, hdirent', hused'⟩ := hm.others _ hjk' hj'
      rw [hdirent, hdirent'] at he
      exact hv d j j' hused hused' he

end

section
variable {m : CapySuper} {s t : Vfs}

theorem DistinctNames.congr (hv : DistinctNames v) (h : w.dirents = v.dirents) : DistinctNames w := by
  have hthin : Thinned v w := fun k _ => congrFun h k
  exact hthin.distinct hv

theorem create_distinct (hs : Mounted m s) (hv : DistinctNames (volumeOf m s.fs.dev))
    (user : Option User) (hz : IsCString path) (mode : BitVec 16) (info : Option VfsMetadata) :
    DistinctNames (volumeOf m (vfsCreate ampleHeap m user s path mode info).2.fs.dev) := by
  rcases create_cases hs.mirrors.tree user path mode info with h | ⟨p, name, t0, t, hf, -, hb, hlive, -,
    -, -, -, info', hresult⟩
  · rw [Browses.volume h]
    exact hv
  · have ht := hs.browses hb
    have hvalid := (ht.mirrors.agrees p hlive).toValid
    obtain ⟨-, hpost⟩ := create_yields ampleHeap_inode ht.carries.layout ht.safe hvalid name mode
      (some info') t.fs ht.carries rfl
    rw [← Browses.volume hb] at hv
    rcases hresult with ⟨hnone, h⟩ | ⟨inode, hsome, ⟨hheap, -⟩ | ⟨-, h⟩⟩
    · rw [h]
      rw [hnone] at hpost
      exact hv.congr hpost.dirents
    · cases hheap
    · rw [h]
      rw [hsome] at hpost
      have hnew := hpost.2.distinct (last_cstring hz hf.resolve) hv
      generalize (capyfsCreate ampleHeap m (t.dentry p).inode name mode (some info') t.fs).2 = fs at *
      change DistinctNames (volumeOf m ((setFs t fs).refresh m p).fs.dev)
      rw [(Caches.refresh m (setFs t fs) p).fs]
      exact hnew

theorem rename_distinct (hs : Mounted m s) (hv : DistinctNames (volumeOf m s.fs.dev))
    (user : Option User) (srcPath : Name) {dstPath : Name} (hz : IsCString dstPath) :
    DistinctNames (volumeOf m (vfsRename ampleHeap m user s srcPath dstPath).2.fs.dev) := by
  rcases rename_cases hs.mirrors.tree user srcPath dstPath with h | ⟨sp, c, dp, dn, t, h⟩
  · rw [Browses.volume h]
    exact hv
  · have ht := hs.browses h.browses
    rw [← Browses.volume h.browses] at hv
    obtain ⟨t1, -, t2, hdst, -⟩ := h.source
    have hvs := (ht.mirrors.agrees sp h.srcLive).toValid
    have hvd := (ht.mirrors.agrees dp h.dstLive).toValid
    obtain ⟨hc, hpost⟩ := renameInode_yields ht.carries.layout ht.safe hvs hvd (t.dentry c).name dn t.fs
      ht.carries rfl
    rcases h.result with ⟨hnone, hr⟩ | ⟨hsome, hr⟩
    · rw [hr]
      rw [hnone] at hpost
      exact hv.congr hpost.dirents
    · rw [hr]
      obtain ⟨a, ha⟩ := Option.isSome_iff_exists.mp hsome
      rw [ha] at hpost
      obtain ⟨-, j, i, hat, hmoved⟩ := hpost
      obtain ⟨j0, hentry, -⟩ := hmoved.entry (last_cstring hz hdst) h.short
      generalize (capyfsRenameInode m (t.dentry sp).inode (t.dentry c).name (t.dentry dp).inode dn
        t.fs).2 = fs at *
      have hsizes := renamed_eq ht h.srcLive h.dstLive hc hmoved
      have hlinks := (SameLinks.setFs t fs).trans (SameLinks.resized (volumeOf m fs.dev) (setFs t fs) dp)
      have hrelinks := h.relinks (hlinks.tree ht.mirrors.tree) hlinks
      rw [hsizes]
      change DistinctNames (volumeOf m (dentryMove _ _ _ _ _).fs.dev)
      rw [hrelinks.fs]
      refine hentry.distinct hv (fun j' hk hused hn => ?_)
      rcases h.place with ⟨-, hfree⟩ | hcached
      · have hlook := ht.lookup h.dstLive dn
        rw [hfree] at hlook
        exact hlook (Named.namesAt ⟨j', Nat.zero_le _, hused, hn⟩ h.short)
      · -- the name is the moved inode's own
        obtain ⟨hcd, hcn⟩ := lookupChild_mem hcached
        have hpp : sp = dp := by
          have hparent := (ht.mirrors.tree.child sp c h.srcLive h.child).2
          rw [(ht.mirrors.tree.child dp c h.dstLive hcd).2] at hparent
          exact (Option.some.inj hparent).symm
        subst hpp
        have hused' : (volumeOf m t.fs.dev).entries ((t.dentry sp).inode.ino, j) ≠ 0 := by
          rw [hat.entries]
          exact hat.used
        have hj := hv _ j' j hused hused' (by rw [hn, hat.dirent, hcn])
        exact hk (by rw [hj])

end

section
variable {m : CapySuper} {s : VfsSession}

theorem step_distinct (hs : Mounted m s.vfs) (hv : DistinctNames (volumeOf m s.vfs.fs.dev)) (x : VfsStep)
    (hx : Orderly s x) : DistinctNames (volumeOf m (x.run m s).vfs.fs.dev) := by
  rcases x with ⟨heap, user, call⟩
  obtain ⟨rfl, hz, hcall⟩ := hx
  cases call with
  | lookup path =>
    simp only [VfsStep.run]
    rcases lookup_cases hs.mirrors.tree path with ⟨t, h, hb⟩ | ⟨d, t, hf, h⟩
    · rw [h]
      exact (Browses.volume hb).symm ▸ hv
    · rw [h]
      change DistinctNames (volumeOf m t.fs.dev)
      exact (Browses.volume hf.toBrowses).symm ▸ hv
  | put d =>
    simp only [VfsStep.run]
    split
    · rw [(release_same s.vfs d).2.2.1]
      exact hv
    · exact hv
  | create path mode info => exact create_distinct hs hv user (hz path mem_cons_self) mode info
  | «open» path flags =>
    simp only [VfsStep.run]
    rcases open_cases hs.mirrors.tree user path flags with ⟨t, h, hb⟩ | ⟨d, t, hf, openFlags, -, -, h⟩
    · rw [h]
      exact (Browses.volume hb).symm ▸ hv
    · rw [h]
      change DistinctNames (volumeOf m t.fs.dev)
      exact (Browses.volume hf.toBrowses).symm ▸ hv
  | close f =>
    simp only [VfsStep.run, vfsClose]
    cases s.vfs.file f with
    | none => exact hv
    | some x =>
      change DistinctNames (volumeOf m (s.vfs.release x.dentry).fs.dev)
      rw [(release_same s.vfs x.dentry).2.2.1]
      exact hv
  | read f size => exact absurd hcall not_false
  | write f src size => exact absurd hcall not_false
  | listdir path cb => exact (Browses.volume (listdir_browses hs.mirrors.tree user path cb)).symm ▸ hv
  | unlink path => exact (unlink_prunes hs user path).prunes.thinned.distinct hv
  | rmdir path => exact (rmdir_prunes hs user path).1.prunes.thinned.distinct hv
  | rename srcPath dstPath =>
    exact rename_distinct hs hv user srcPath (hz dstPath (mem_cons_of_mem _ mem_cons_self))
  | statPath path => exact (Browses.volume (statPath_browses hs.mirrors.tree user path)).symm ▸ hv
  | setMetadata path info => exact absurd hcall not_false

theorem run_distinct {s0 : VfsSession} (h0 : Mounted m s0.vfs)
    (hv : DistinctNames (volumeOf m s0.vfs.fs.dev)) (h : VfsReachable m s0 Orderly s) :
    DistinctNames (volumeOf m s.vfs.fs.dev) := by
  induction h with
  | start => exact hv
  | step hreach hx ih => exact step_distinct (run_mounted h0 hreach) ih _ hx

end

/-! Every nested path is longer than the one above it, and none has 256 bytes. -/

theorem fieldName_ne_nil {a : Bytes} (h : a 0 ≠ 0) : fieldName a ≠ [] := by
  unfold fieldName
  rw [show listBytes a capyfsNameMax = a 0 :: (listBytes a capyfsNameMax).tail from rfl,
    takeWhile_cons_of_pos (by simpa using h)]
  exact cons_ne_nil _ _

theorem join_length {dir name r : Name} (hname : name ≠ [])
    (h : vfsJoinChildPath dir name outLen = some r) : dir.length < r.length ∧ r.length < outLen := by
  simp only [vfsJoinChildPath, Option.bind_eq_some_iff] at h
  obtain ⟨out, hout, out', hout', hr⟩ := h
  obtain ⟨hsame, -⟩ := appendBounded_eq hout
  rw [hsame, nil_append] at hout'
  obtain ⟨rfl, hlen⟩ := appendBounded_eq hr
  refine ⟨?_, hlen hname⟩
  have hpos := length_pos_iff.mpr hname
  rw [length_append]
  split at hout'
  · obtain ⟨rfl, -⟩ := appendBounded_eq hout'
    simp only [length_append]
    omega
  · obtain rfl := Option.some.inj hout'
    omega

section
variable {α β σ : Type}

def Answers (f : FsM α) (Q : α → Prop) : Prop := ∀ s a, (f s).1 = some a → Q a

theorem Answers.pure {Q : α → Prop} {a : α} (h : Q a) : Answers (Pure.pure a : FsM α) Q :=
  fun _ _ ha => Option.some.inj ha ▸ h

theorem Answers.bind {x : FsM α} {f : α → FsM β} {Q : β → Prop} (hf : ∀ a, Answers (f a) Q) : Answers (x >>= f) Q := by
  intro s b hb
  rcases hx : x s with ⟨_ | a, s'⟩
  · rw [FsM.bind_none hx] at hb
    cases hb
  · rw [FsM.bind_some hx] at hb
    exact hf a s' b hb

theorem Answers.ite {p : Prop} [Decidable p] {x y : FsM α} {Q : α → Prop} (hx : Answers x Q)
    (hy : ¬ p → Answers y Q) : Answers (if p then x else y) Q := by
  split
  next => exact hx
  next hp => exact hy hp

theorem iterateScanWith_keeps (m : CapySuper) {P : σ → Prop} {cb : Name → BitVec 16 → σ → Bool × σ}
    (hcb : ∀ name mode ctx, name ≠ [] → P ctx → P (cb name mode ctx).2) (x : CapyInodeDisk)
    (n i : Nat) {ctx : σ} (hctx : P ctx) : Answers (iterateScanWith m x cb n i ctx) (fun r => P r.2) := by
  induction n generalizing i ctx with
  | zero => exact .pure hctx
  | succ n ih =>
    refine .bind fun r => ?_
    cases r.block with
    | none => exact .pure hctx
    | some blk =>
      refine .ite (ih _ hctx) fun _ => .bind fun b => ?_
      cases b with
      | none => exact .pure hctx
      | some b =>
        refine .ite (ih _ hctx) fun hentry => .bind fun child => ?_
        cases child with
        | none => exact .pure hctx
        | some child =>
          have hnext := hcb (fieldName (direntName b (i % direntsPerBlock))) child.mode ctx
            (fieldName_ne_nil (not_or.mp hentry).2) hctx
          exact .ite (.pure hnext) fun _ => ih _ hnext

end

def ChildrenNamed (l : RecursiveChildList) : Prop := ∀ c ∈ l.children, c.1 ≠ []

theorem collectChild_named (name : Name) (mode : BitVec 16) (l : RecursiveChildList) (hname : name ≠ [])
    (hl : ChildrenNamed l) : ChildrenNamed (recursiveCollectChild name mode l).2 := by
  unfold recursiveCollectChild
  split
  next => exact hl
  next =>
    split
    next => exact hl
    next =>
      intro c hc
      rcases mem_append.mp hc with hold | hnew
      · exact hl c hold
      · rw [mem_singleton.mp hnew]
        cases name with
        | nil => exact absurd rfl hname
        | cons c rest => exact cons_ne_nil _ _

theorem listdirWith_named (m : CapySuper) (heap : Heap) (user : Option User) (s : Vfs) (path : Name) :
    ChildrenNamed (vfsListdirWith m heap user s path recursiveCollectChild ⟨[], false⟩).1.2 := by
  have hnone : ChildrenNamed ⟨[], false⟩ := fun c hc => absurd hc not_mem_nil
  unfold vfsListdirWith
  rcases vfsResolve heap m (s.setError .ok) path false with ⟨_ | ⟨d, rest⟩, t⟩
  · exact hnone
  · simp only
    split
    next => exact hnone
    next =>
      split
      next => exact hnone
      next =>
        have hscan : Answers (capyfsIterateWith m (t.dentry d).inode recursiveCollectChild ⟨[], false⟩)
            (fun r => ChildrenNamed r.2) := by
          refine .ite (.pure hnone) fun _ => .bind fun x => ?_
          cases x with
          | none => exact .pure hnone
          | some x => exact iterateScanWith_keeps m collectChild_named x _ 0 hnone
        cases hr : (capyfsIterateWith m (t.dentry d).inode recursiveCollectChild ⟨[], false⟩ t.fs).1 with
        | none => exact hnone
        | some r =>
          have hnamed := hscan t.fs r hr
          rcases r with ⟨ended, l⟩
          cases ended
          · exact hnamed
          · exact hnamed

section
variable (m : CapySuper) (heap : Heap) (user : Option User)

theorem removeChildren_congr {f g : Vfs → Name → VfsError × Vfs}
    {l : List (Name × BitVec 16)} (hl : ∀ c ∈ l, ∀ s r,
      vfsJoinChildPath path c.1 rmdirRecursivePathMax = some r → f s r = g s r) (s : Vfs) :
    removeChildren m heap user f path s l = removeChildren m heap user g path s l := by
  induction l generalizing s with
  | nil => rfl
  | cons c l ih =>
    obtain ⟨name, mode⟩ := c
    simp only [removeChildren]
    cases hjoin : vfsJoinChildPath path name rmdirRecursivePathMax with
    | none => rfl
    | some r =>
      simp only [hl (name, mode) mem_cons_self _ r hjoin, ih fun c hc => hl c (mem_cons_of_mem _ hc)]

theorem rmdirRecursiveWithin_fuel (k n : Nat) (s : Vfs) (path : Name) (hn : 0 < n)
    (hlen : rmdirRecursivePathMax < n + path.length) :
    rmdirRecursiveWithin m heap user (n + k) s path = rmdirRecursiveWithin m heap user n s path := by
  induction n generalizing s path with
  | zero => exact absurd hn (Nat.lt_irrefl 0)
  | succ n ih =>
    rw [Nat.add_right_comm]
    simp only [rmdirRecursiveWithin]
    split
    next => rfl
    next =>
      split
      next => rfl
      next =>
        split
        next => rfl
        next =>
          rcases vfsStatPath heap m user (s.setError .ok) path with ⟨_ | stat, t⟩
          · rfl
          · simp only
            have hnamed := listdirWith_named m heap user t path
            generalize vfsListdirWith m heap user t path recursiveCollectChild ⟨[], false⟩ = q at hnamed ⊢
            obtain ⟨⟨e, l⟩, u⟩ := q
            have hsame : ∀ v, removeChildren m heap user (rmdirRecursiveWithin m heap user (n + k)) path v
                l.children = removeChildren m heap user (rmdirRecursiveWithin m heap user n) path v
                  l.children := by
              refine removeChildren_congr m heap user fun c hc v r hjoin => ?_
              obtain ⟨hlonger, hshort⟩ := join_length (hnamed c hc) hjoin
              exact ih v r (by omega) (by omega)
            cases e <;> simp only [hsame]

/-- More fuel than the path buffer has room for changes nothing. -/
theorem rmdirRecursive_fuel (k : Nat) (s : Vfs) (path : Name) :
    rmdirRecursiveWithin m heap user (rmdirRecursivePathMax + 1 + k) s path = vfsRmdirRecursive m heap user s path :=
  rmdirRecursiveWithin_fuel m heap user k _ s path (Nat.succ_pos _)
    (Nat.lt_of_lt_of_le (Nat.lt_succ_self _) (Nat.le_add_right _ _))

end

/-- The call is complete or refuses: when it succeeds, exactly the directory it names
and what is below is gone; of a directory with more than 64 entries it removes none. -/
structure CompleteOrRefuses (heap : Heap) (m : CapySuper) (user : Option User) (s : Vfs) (path : Name) :
    Prop where
  complete : (vfsRmdirRecursive m heap user s path).1 = .ok →
    ∃ d, Leads (volumeOf m s.fs.dev) 0 (components path) d ∧
      RemovedTree (volumeOf m s.fs.dev) (volumeOf m (vfsRmdirRecursive m heap user s path).2.fs.dev) d
  refuses : ∀ d, Leads (volumeOf m s.fs.dev) 0 (components path) d →
    rmdirRecursiveMaxChildren < entriesOf (volumeOf m s.fs.dev) d →
    (vfsRmdirRecursive m heap user s path).1 ≠ .ok ∧
      (volumeOf m (vfsRmdirRecursive m heap user s path).2.fs.dev).dirents =
        (volumeOf m s.fs.dev).dirents

/-- The recursive removal is complete or refuses exactly when, of a directory with more than
64 entries, it stops before it removes anything. -/
theorem rmdir_recursive_complete {heap : Heap} {m : CapySuper} {user : Option User} {s : Vfs}
    (hs : Mounted m s) (hv : DistinctNames (volumeOf m s.fs.dev)) (path : Name) :
    CompleteOrRefuses heap m user s path ↔ ∀ d, Leads (volumeOf m s.fs.dev) 0 (components path) d →
      rmdirRecursiveMaxChildren < entriesOf (volumeOf m s.fs.dev) d →
      StopsWithin heap m user (rmdirRecursivePathMax + 1) s path := by
  have hstops := @rmdirRecursive_stops heap m user s (rmdirRecursivePathMax + 1) hs path
  refine ⟨fun h d hd hmany => ?_, fun hstop => ⟨fun hok => ?_, fun d hd hmany => ?_⟩⟩
  · obtain ⟨hyes, -⟩ | ⟨-, hlost⟩ := hstops
    · exact hyes
    · exact absurd (h.refuses d hd hmany).2 hlost.dirents
  · unfold vfsRmdirRecursive at hok ⊢
    rcases rmdirRecursive_cases (rmdirRecursivePathMax + 1) hs path with ⟨-, hno⟩ | ⟨t, ht, he⟩
    · exact absurd hok hno
    · rw [he] at hok ⊢
      obtain ⟨hlast, hgone⟩ := rmdir_prunes ht.mounted user path
      obtain ⟨d, hd, hdead⟩ := hgone hok
      have hall := ht.trans hlast
      have hlead := ht.prunes.thinned.leads hv hd
      exact ⟨d, hlead, hall.prunes.removedTree hs.safe hall.mounted.safe hv hlead hdead⟩
  · obtain ⟨-, hno, hsame⟩ | ⟨hno, -⟩ := hstops
    · exact ⟨hno, congrArg Volume.dirents hsame⟩
    · exact absurd (hstop d hd hmany) hno

def createD : VfsStep := ⟨ampleHeap, none, .create [slash, 100#8] vfsModeDir none⟩

/-- The file `/d/a`. -/
def createInD : VfsStep := ⟨ampleHeap, none, .create [slash, 100#8, slash, 97#8] vfsModeFile none⟩

def filledSession : VfsSession := createInD.run smallSuper (createD.run smallSuper smallSession)

theorem filled_reached : VfsReachable smallSuper smallSession Orderly filledSession := by
  have horder : ∀ s : VfsSession, Orderly s createD ∧ Orderly s createInD := by
    refine fun s => ⟨⟨rfl, fun path hpath c hc => ?_, trivial⟩, ⟨rfl, fun path hpath c hc => ?_, trivial⟩⟩
    · rw [mem_singleton.mp hpath] at hc
      revert c
      decide
    · rw [mem_singleton.mp hpath] at hc
      revert c
      decide
  exact .step (.step .start (horder _).1) (horder _).2

def filledVolume : Volume := volumeOf smallSuper filledSession.vfs.fs.dev

def filledRemoval : VfsError × Vfs := vfsRmdirRecursive smallSuper ampleHeap none filledSession.vfs [slash, 100#8]

theorem Leads.only {v : Volume} {n : Name} (hone : v.entryCount 0 = 1) (hd : Leads v 0 [n] d) :
    v.entries (0, 0) = d := by
  obtain ⟨j, c, hat, rfl⟩ := hd
  have hj := (entries_dir (by rw [hat.entries]; exact hat.used)).2
  simp only [hone] at hj
  obtain rfl : j = 0 := Nat.lt_one_iff.mp hj
  exact hat.entries

theorem rmdir_recursive_complete_filled :
    CompleteOrRefuses ampleHeap smallSuper none filledSession.vfs [slash, 100#8] ∧ filledRemoval.1 = .ok ∧
      entriesOf filledVolume (filledVolume.entries (0, 0)) = 1 ∧
      (volumeOf smallSuper filledRemoval.2.fs.dev).entries (0, 0) = 0 := by
  have h0 : Mounted smallSuper smallSession.vfs :=
    @mount_mounted smallSuper ⟨(capyfsFormat (plainDevice 64) 128 0).2, 0⟩ newRoot smallVolume_safe.1
      smallVolume_safe.2 (by decide +kernel)
  have hempty : DistinctNames (volumeOf smallSuper smallSession.vfs.fs.dev) := by
    intro d j j' hused
    have hlive := smallVolume_safe.2.inodes.held _ hused
    obtain ⟨-, -, -, hroot⟩ := @format_fresh (plainDevice 64) 128 0 (fun _ => ⟨rfl, rfl⟩)
      (by decide +kernel) ⟨by decide, by decide, by decide⟩
    exact absurd ((hroot _).mp hlive) hused
  have hone : filledVolume.entryCount 0 = 1 := by decide +kernel
  have hfew : entriesOf filledVolume (filledVolume.entries (0, 0)) = 1 := by decide +kernel
  have hwhole : CompleteOrRefuses ampleHeap smallSuper none filledSession.vfs [slash, 100#8] := by
    refine (rmdir_recursive_complete (run_mounted h0 filled_reached) (run_distinct h0 hempty filled_reached) _).mpr ?_
    intro d hd hmany
    have hlt : rmdirRecursiveMaxChildren < entriesOf filledVolume d := hmany
    rw [← Leads.only hone hd, hfew] at hlt
    cases Nat.lt_one_iff.mp hlt
  exact ⟨hwhole, by decide +kernel, hfew, by decide +kernel⟩

def crowdedRecord : Nat → CapyInodeDisk
  | 0 => { rootInode with size := 36, direct := fun i => if i = 0 then smallSuper.dataStart else 0 }
  | 1 => { rootInode with size := 2340, direct := fun i => if i = 0 then smallSuper.dataStart + 1 else 0 }
  | _ => { emptyInode with mode := vfsModeFile, links := 1, perm := 0o644 }

def tableBlock (block : Nat) : Bytes := fun off =>
  (crowdedRecord (inodesPerBlock * block + off / inodeDiskSize)).bytes (off % inodeDiskSize)

def direntBlock (entry : Nat → Nat × Name) : Bytes := fun off =>
  if off % direntSize < 4 then BitVec.ofNat 8 ((entry (off / direntSize)).1 >>> (8 * (off % direntSize)))
  else (entry (off / direntSize)).2.getD (off % direntSize - 4) 0

def crowdedEntry (j : Nat) : Nat × Name :=
  if j = 0 then (2, [97#8])
  else if j < 65 then (j + 2, [BitVec.ofNat 8 (98 + j / 10), BitVec.ofNat 8 (48 + j % 10)])
  else (0, [])

def crowdedDevice : BlockDevice :=
  { plainDevice 64 with
    blocks := fun n =>
      if n = 0 then smallSuper.bytes
      else if n = smallSuper.bmapStart.toNat then
        setBit (setBit (reservedBitmap smallSuper.dataStart.toNat 0) smallSuper.dataStart.toNat)
          (smallSuper.dataStart.toNat + 1)
      else if n = smallSuper.imapStart.toNat then fun k => if k < 8 then 255 else if k = 8 then 7 else 0
      else if n = smallSuper.inodeStart.toNat then tableBlock 0
      else if n = smallSuper.inodeStart.toNat + 1 then tableBlock 1
      else if n = smallSuper.dataStart.toNat then
        direntBlock (fun j => if j = 0 then (1, [100#8]) else (0, []))
      else if n = smallSuper.dataStart.toNat + 1 then direntBlock crowdedEntry
      else zeros }

def crowdedVfs : Vfs := mountVfs ⟨crowdedDevice, 0⟩ { newRoot with size := 36 }

def crowdedPath : Name := replicate 252 slash ++ [100#8]

/-- The listing stops at the 65th entry and says nothing; the first file is gone when
the second one's path turns out to be too long. -/
theorem crowded_loses_file : ¬ CompleteOrRefuses ampleHeap smallSuper none crowdedVfs crowdedPath := by
  intro h
  have hdirent : (volumeOf smallSuper crowdedVfs.fs.dev).dirents (0, 0) = (1, [100#8]) := by
    decide +kernel
  have hcomps : components crowdedPath = [[100#8]] := by decide +kernel
  have hleads : Leads (volumeOf smallSuper crowdedVfs.fs.dev) 0 (components crowdedPath) 1 := by
    rw [hcomps]
    exact ⟨0, 1, ⟨hdirent, by decide, by decide, fun j hj => absurd hj (Nat.not_lt_zero j)⟩, rfl⟩
  obtain ⟨-, hsame⟩ := h.refuses 1 hleads (by decide +kernel)
  have hbefore : ((volumeOf smallSuper crowdedVfs.fs.dev).dirents (1, 0)).1 = 2 := by decide +kernel
  have hafter : ((volumeOf smallSuper
      (vfsRmdirRecursive smallSuper ampleHeap none crowdedVfs crowdedPath).2.fs.dev).dirents (1, 0)).1 = 0 := by
    decide +kernel
  rw [hsame, hbefore] at hafter
  cases hafter

end CapyOS.Proofs
