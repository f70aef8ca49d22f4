import CapyOS.Proofs.VfsAgreement

namespace CapyOS.Proofs
open Lib FsM Volume Function List
variable {ns : List Name} {m : CapySuper} {heap : Heap} {path : Name} {d : Nat}

/-- A way from the root to an inode, by the entries that are followed. -/
inductive DiskPath (v : Volume) : List Nat → Nat → Prop
  | root : DiskPath v [] 0
  | entry {ps : List Nat} {dir j i : Nat} :
      DiskPath v ps dir → v.entries (dir, j) = i → i ≠ 0 → DiskPath v (ps ++ [j]) i

/-- An inode at or beneath another. -/
inductive Beneath (v : Volume) (a : Nat) : Nat → Prop
  | self : Beneath v a a
  | entry {dir j i : Nat} : Beneath v a dir → v.entries (dir, j) = i → i ≠ 0 → Beneath v a i

def Rooted (v : Volume) : Prop := ∀ i, v.imap i = true → ∃ ps, DiskPath v ps i

section
variable {v w : Volume}

theorem Beneath.zero {a : Nat} (h : Beneath v a 0) : a = 0 := by
  cases h with
  | self => rfl
  | entry _ _ h0 => exact absurd rfl h0

theorem DiskPath.unique (hs : v.Safe) {ps qs : List Nat} {i : Nat} (hp : DiskPath v ps i) (hq : DiskPath v qs i) : ps = qs := by
  induction hp generalizing qs with
  | root =>
    cases hq with
    | root => rfl
    | entry _ _ h0 => exact absurd rfl h0
  | entry hdir he h0 ih =>
    cases hq with
    | root => exact absurd rfl h0
    | entry hdir' he' _ =>
      have hk := hs.inodes.once _ _ (by rw [he]; exact h0) (he.trans he'.symm)
      obtain ⟨rfl, rfl⟩ := Prod.mk.inj hk
      rw [ih hdir']

theorem DiskPath.mono (h : ∀ k, v.entries k ≠ 0 → w.entries k = v.entries k) {ps : List Nat} {i : Nat}
    (hp : DiskPath v ps i) : DiskPath w ps i := by
  induction hp with
  | root => exact .root
  | entry _ he h0 ih => exact .entry ih ((h _ (by rw [he]; exact h0)).trans he) h0

theorem Rooted.stays {p : Prop} (hr : Rooted v) (h : Stays p v w) : Rooted w := by
  intro i hi
  rw [h.imap] at hi
  obtain ⟨ps, hp⟩ := hr i hi
  exact ⟨ps, hp.mono fun k _ => congrFun (entries_congr h.dirents) k⟩

theorem Rooted.created {dir c : Nat} {name : Name} {x : CapyInodeDisk} (hs : v.Safe) (hr : Rooted v)
    (hdir : v.imap dir = true) (h : Created v w dir c name x) : Rooted w := by
  obtain ⟨j, e, hfree, hino, -, hw⟩ := h.place
  have hkeep : ∀ k, v.entries k ≠ 0 → w.entries k = v.entries k := by
    intro k hk
    have hne : k ≠ (dir, j) := by
      rintro rfl
      exact hk hfree
    unfold Volume.entries
    rw [hw, update_of_ne hne]
  intro i hi
  rw [h.imap, update_apply] at hi
  split at hi
  · rename_i hic
    obtain ⟨ps, hp⟩ := hr dir hdir
    refine ⟨ps ++ [j], .entry (hp.mono hkeep) ?_ ?_⟩
    · unfold Volume.entries
      rw [hw, update_self, hino, hic]
    · rintro rfl
      have := h.free
      rw [← hic, hs.root.1] at this
      cases this
  · obtain ⟨ps, hp⟩ := hr i hi
    exact ⟨ps, hp.mono hkeep⟩

theorem Rooted.removed {k : Nat × Nat} {t : Nat} (hr : Rooted v) (h : Removed v w k t) : Rooted w := by
  have hpath : ∀ {ps i}, DiskPath v ps i → i ≠ t → DiskPath w ps i := by
    intro ps i hp
    induction hp with
    | root => exact fun _ => .root
    | @entry ps dir j i _ he h0 ih =>
      intro hit
      have hdt : dir ≠ t := by
        rintro rfl
        exact h0 (he.symm.trans (h.empty j))
      refine .entry (ih hdt) ?_ h0
      rw [h.entries, update_of_ne, he]
      rintro rfl
      exact hit (he.symm.trans h.named)
  intro i hi
  rw [h.imap, update_apply] at hi
  split at hi
  · cases hi
  · rename_i hit
    obtain ⟨ps, hp⟩ := hr i hi
    exact ⟨ps, hpath hp hit⟩

/-- An inode may be moved to any directory that is not beneath it. -/
theorem Rooted.moved {k : Nat × Nat} {dst : Nat} {name : Name} (hr : Rooted v)
    (hk : v.entries k ≠ 0) (h : Moved v w k dst name) (hdst : v.imap dst = true)
    (hout : ¬ Beneath v (v.entries k) dst) : Rooted w := by
  rcases h.place with ⟨-, e, he, -, hw⟩ | ⟨hne, -, j, e, e0, hfree, he, -, -, hw⟩
  · -- a rename within a directory changes no entry's inode
    have hsame : w.entries = v.entries := by
      funext k'
      unfold Volume.entries
      rw [hw, update_apply]
      split
      · rename_i hkk
        rw [hkk, he]
        rfl
      · rfl
    intro i hi
    rw [h.imap] at hi
    obtain ⟨ps, hp⟩ := hr i hi
    exact ⟨ps, hp.mono fun k' _ => congrFun hsame k'⟩
  · have hkeep : ∀ k', k' ≠ k → v.entries k' ≠ 0 → w.entries k' = v.entries k' := by
      intro k' hkk hused
      have hkj : k' ≠ (dst, j) := by
        rintro rfl
        exact hused hfree
      unfold Volume.entries
      rw [hw, update_of_ne hkk, update_of_ne hkj]
    -- what is not beneath the moved inode is reached as before
    have hrest : ∀ {ps i}, DiskPath v ps i → ¬ Beneath v (v.entries k) i → DiskPath w ps i := by
      intro ps i hp
      induction hp with
      | root => exact fun _ => .root
      | @entry ps dir j' i _ he' h0 ih =>
        intro hnot
        refine .entry (ih fun hb => hnot (.entry hb he' h0)) ?_ h0
        rw [hkeep _ ?_ (by rw [he']; exact h0), he']
        rintro rfl
        exact hnot (by rw [he']; exact .self)
    have hmoved : ∃ ps, DiskPath w ps (v.entries k) := by
      obtain ⟨ps, hp⟩ := hr dst hdst
      refine ⟨ps ++ [j], .entry (hrest hp hout) ?_ hk⟩
      have hjk : (dst, j) ≠ k := fun hjk => hne (congrArg Prod.fst hjk)
      have hin : (w.dirents (dst, j)).1 = v.entries k := by
        rw [hw, update_of_ne hjk, update_self, he]
      exact hin
    have hbeneath : ∀ {i}, Beneath v (v.entries k) i → ∃ ps, DiskPath w ps i := by
      intro i hb
      induction hb with
      | self => exact hmoved
      | @entry dir j' i _ he' h0 ih =>
        by_cases hkk : (dir, j') = k
        · rw [← he', hkk]
          exact hmoved
        · obtain ⟨ps, hp⟩ := ih
          exact ⟨ps ++ [j'], .entry hp ((hkeep _ hkk (by rw [he']; exact h0)).trans he') h0⟩
    intro i hi
    rw [h.imap] at hi
    by_cases hb : Beneath v (v.entries k) i
    · exact hbeneath hb
    · obtain ⟨ps, hp⟩ := hr i hi
      exact ⟨ps, hrest hp hb⟩

end

/-- The names on the way from the root to a dentry. -/
inductive CachePath (s : Vfs) : List Name → Nat → Prop
  | root : CachePath s [] 0
  | child {ns : List Name} {p c : Nat} :
      CachePath s ns p → c ∈ (s.dentry p).children → CachePath s (ns ++ [(s.dentry c).name]) c

section
variable {s t : Vfs}

theorem CachePath.live (hs : DentryTree s) (h : CachePath s ns d) : s.live d = true := by
  induction h with
  | root => exact hs.root.1
  | child _ hc ih => exact (hs.child _ _ ih hc).1

theorem CachePath.unique (hs : DentryTree s) {ns ns' : List Name} (h : CachePath s ns d)
    (h' : CachePath s ns' d) : ns = ns' := by
  induction h generalizing ns' with
  | root =>
    cases h' with
    | root => rfl
    | child hp hc =>
      have := (hs.child _ _ (hp.live hs) hc).2
      rw [hs.root.2] at this
      cases this
  | child hp hc ih =>
    have hparent := (hs.child _ _ (hp.live hs) hc).2
    cases h' with
    | root =>
      rw [hs.root.2] at hparent
      cases hparent
    | child hp' hc' =>
      have := (hs.child _ _ (hp'.live hs) hc').2
      rw [hparent] at this
      cases this
      rw [ih hp']

theorem CachePath.caches (hs : DentryTree s) (hc : Caches s t)
    (h : CachePath s ns d) : CachePath t ns d := by
  induction h with
  | root => exact .root
  | child hp hmem ih =>
    have hpl := hp.live hs
    have hcn := hs.bound _ (hs.child _ _ hpl hmem).1
    rw [← hc.name _ hcn]
    exact .child ih (hc.children _ (hs.bound _ hpl) _ hmem)

theorem resolveComps_path (parentOnly : Bool) {comps : List Name}
    (hcomps : ∀ n ∈ comps, n ≠ []) {s t : Vfs} (hs : DentryTree s) {cur : Nat}
    (hcur : CachePath s ns cur) {r : Nat × Name} (h : resolveComps heap m parentOnly s cur comps = (some r, t)) :
    CachePath t (ns ++ if parentOnly then comps.dropLast else comps) r.1 := by
  induction comps generalizing s cur ns with
  | nil =>
    cases h
    simpa using hcur
  | cons name rest ih =>
    have hrest : ∀ n ∈ rest, n ≠ [] := fun n hn => hcomps n (mem_cons_of_mem _ hn)
    -- past the first name, what is left to walk is what is left of the list
    have hgo : ∀ {u : Vfs} {c : Nat}, DentryTree u → CachePath u (ns ++ [name]) c →
        ¬ (parentOnly && rest.isEmpty) = true →
        resolveComps heap m parentOnly u c rest = (some r, t) →
        CachePath t (ns ++ if parentOnly then (name :: rest).dropLast else name :: rest) r.1 := by
      intro u c hu hc hlast hr
      have hgoal := ih hrest hu hc hr
      rw [append_assoc] at hgoal
      cases parentOnly with
      | false => simpa using hgoal
      | true =>
        have hne : rest ≠ [] := by simpa using hlast
        simpa [dropLast_cons_of_ne_nil hne] using hgoal
    simp only [resolveComps] at h
    split at h
    · cases h
    · rename_i hlong
      have hlen : name.length < vfsNameMax := Nat.lt_of_not_le hlong
      split at h
      · rename_i hlast
        cases h
        simp only [Bool.and_eq_true, List.isEmpty_iff] at hlast
        simpa [hlast.1, hlast.2] using hcur
      · rename_i hlast
        cases hl : dentryLookupChild s cur name with
        | some c =>
          rw [hl] at h
          obtain ⟨hmem, hn⟩ := lookupChild_mem hl
          exact hgo hs (by rw [← hn]; exact .child hcur hmem) hlast h
        | none =>
          rw [hl] at h
          have hcl := hcur.live hs
          obtain ⟨u, hu, hmiss⟩ := resolveMiss_cases heap m s cur name
          rcases hmiss with ⟨-, he⟩ | ⟨inode, -, ⟨-, he⟩ | ⟨-, he⟩⟩
          · rw [he] at h
            cases h
          · rw [he] at h
            cases h
          · rw [he] at h
            have hlinks : SameLinks s u ∧ Caches s u := by
              rcases hu with rfl | rfl
              · exact ⟨.refl _, .refl _⟩
              · exact ⟨.refresh m s cur, .refresh m s cur⟩
            obtain ⟨hsl, hsc⟩ := hlinks
            have hut := hsl.tree hs
            have hul : u.live cur = true := (congrFun hsl.live cur).trans hcl
            have hbound := hut.bound cur hul
            have htree := hut.cache hul hlen (by rw [hsl.lookup]; exact hl) inode
            have hpath := (hcur.caches hs hsc).caches hut (.cache hbound name inode)
            have hname : ((cacheChild u cur name inode).dentry u.next).name = name := by
              rw [cache_new u name inode hbound]
              exact take_of_length_le (Nat.le_sub_one_of_lt hlen)
            refine hgo htree ?_ hlast h
            have hchild := CachePath.child (c := u.next) hpath (by
              rw [cache_parent u name inode hbound]
              exact mem_cons_self)
            rw [hname] at hchild
            exact hchild

theorem resolve_path {parentOnly : Bool}
    (hs : DentryTree s) {r : Nat × Name} (h : vfsResolve heap m s path parentOnly = (some r, t)) :
    CachePath t (if parentOnly then (components path).dropLast else components path) r.1 := by
  by_cases hp : path.head? = some slash
  · rw [vfsResolve_eq heap m hp] at h
    simpa using resolveComps_path parentOnly (components_ne_nil path) hs .root h
  · rw [vfsResolve_relative heap m hp] at h
    cases h

/-- What stands beneath an inode on disk stands beneath it in the cache. -/
theorem Mirrors.beneath {v : Volume} (hv : v.Safe) (hs : Mirrors v s) {c d : Nat}
    (hc : s.live c = true) (hd : CachePath s ns d) (h : Beneath v (s.dentry c).inode.ino (s.dentry d).inode.ino) :
    ∃ ns', CachePath s ns' c ∧ ns' <+: ns := by
  induction hd with
  | root =>
    have hcase : (s.dentry c).inode.ino = (s.dentry 0).inode.ino := by
      rw [hs.root] at h ⊢
      exact h.zero
    rw [hs.inj c 0 hc hs.tree.root.1 hcase]
    exact ⟨[], .root, prefix_refl _⟩
  | @child ns p d hp hmem ih =>
    have hpl := hp.live hs.tree
    have hdl := (hs.tree.child p d hpl hmem).1
    obtain ⟨j, hat⟩ := hs.child p d hpl hmem
    generalize hi : (s.dentry d).inode.ino = i at h hat
    cases h with
    | self =>
      rw [hs.inj c d hc hdl hi.symm]
      exact ⟨_, .child hp hmem, prefix_refl _⟩
    | entry hb he h0 =>
      have hk := hv.inodes.once _ _ (by rw [he]; exact h0) (he.trans hat.entries.symm)
      obtain ⟨rfl, -⟩ := Prod.mk.inj hk
      obtain ⟨ns', hpath, hpre⟩ := ih hb
      exact ⟨ns', hpath, hpre.trans (prefix_append _ _)⟩

end

def UnderSource (srcPath dstPath : Name) : Prop :=
  components srcPath <+: components dstPath ∧ components srcPath ≠ components dstPath

def Upright (s : VfsSession) (x : VfsStep) : Prop :=
  Orderly s x ∧ ∀ srcPath dstPath, x.call = .rename srcPath dstPath → ¬ UnderSource srcPath dstPath

section
variable {m : CapySuper} {s t : Vfs}

structure Planted (m : CapySuper) (s : Vfs) : Prop extends Mounted m s where
  rooted : Rooted (volumeOf m s.fs.dev)

theorem Planted.browses (hs : Planted m s) (hm : Mounted m t) (h : Browses heap m s t) : Planted m t :=
  ⟨hm, by rw [h.caches.fs]; exact hs.rooted⟩

theorem create_planted (hs : Planted m s) (user : Option User) (hz : IsCString path)
    (mode : BitVec 16) (info : Option VfsMetadata) : Planted m (vfsCreate ampleHeap m user s path mode info).2 := by
  have hm := create_mounted hs.toMounted user hz mode info
  rcases create_cases hs.mirrors.tree user path mode info with h | ⟨p, name, t0, t, -, -, hb, hlive, -, -, -, -, info', hresult⟩
  · exact hs.browses hm h
  · have ht := hs.browses (hs.toMounted.browses hb) hb
    have hv := (ht.mirrors.agrees p hlive).toValid
    obtain ⟨-, hpost⟩ := create_yields ampleHeap_inode ht.carries.layout ht.safe hv name mode
      (some info') t.fs ht.carries rfl
    refine ⟨hm, ?_⟩
    rcases hresult with ⟨hnone, h⟩ | ⟨inode, hsome, ⟨hheap, -⟩ | ⟨-, h⟩⟩
    · rw [h]
      rw [hnone] at hpost
      exact ht.rooted.stays hpost
    · cases hheap
    · rw [hsome] at hpost
      rw [h, setError_fs, cache_fs, (Caches.refresh m _ p).fs]
      exact ht.rooted.created ht.safe hv.live hpost.2

theorem Removes.planted {user : Option User} {isDir : Bool} {p c : Nat} {r : Vfs}
    (hs : Planted m s) (h : Removes ampleHeap m user s path isDir p c t r) : Planted m r := by
  have ht := hs.browses (hs.toMounted.browses h.browses) h.browses
  have hv := (ht.mirrors.agrees p h.live).toValid
  obtain ⟨-, hpost⟩ := remove_yields ht.safe hv (t.dentry c).name isDir t.fs ht.carries rfl
  refine ⟨h.mounted hs.toMounted, ?_⟩
  rcases h.result with ⟨hnone, u, e, hu, rfl⟩ | ⟨hsome, rfl⟩
  · rw [hnone] at hpost
    have hfs : u.fs = (capyfsRemove m (t.dentry p).inode (t.dentry c).name isDir t.fs).2 := by
      rcases hu with rfl | rfl
      · rfl
      · exact (Caches.refresh m _ c).fs
    rw [setError_fs, hfs, show volumeOf m _ = _ from hpost]
    exact ht.rooted
  · have hforget := h.forgets (capyfsRemove m (t.dentry p).inode (t.dentry c).name isDir t.fs).2
    obtain ⟨a, ha⟩ := Option.isSome_iff_exists.mp hsome
    rw [ha] at hpost
    obtain ⟨j, i, -, hremoved, -⟩ := hpost
    rw [setError_fs, hforget.fs, (Caches.refresh m _ p).fs]
    exact ht.rooted.removed hremoved

theorem rename_planted (hs : Planted m s) (user : Option User) {srcPath dstPath : Name}
    (hz : IsCString dstPath) (hout : ¬ UnderSource srcPath dstPath) :
    Planted m (vfsRename ampleHeap m user s srcPath dstPath).2 := by
  have hm := rename_mounted hs.toMounted user srcPath hz
  rcases rename_cases hs.mirrors.tree user srcPath dstPath with h | ⟨sp, c, dp, dn, t, h⟩
  · exact hs.browses hm h
  · have ht := hs.browses (hs.toMounted.browses h.browses) h.browses
    have hvs := (ht.mirrors.agrees sp h.srcLive).toValid
    have hvd := (ht.mirrors.agrees dp h.dstLive).toValid
    have hcl := (ht.mirrors.tree.child sp c h.srcLive h.child).1
    obtain ⟨-, hpost⟩ := renameInode_yields ht.carries.layout ht.safe hvs hvd (t.dentry c).name dn t.fs
      ht.carries rfl
    refine ⟨hm, ?_⟩
    rcases h.result with ⟨hnone, hr⟩ | ⟨hsome, hr⟩
    · rw [hr]
      rw [hnone] at hpost
      exact ht.rooted.stays hpost
    · obtain ⟨a, ha⟩ := Option.isSome_iff_exists.mp hsome
      rw [ha] at hpost
      obtain ⟨-, j, i, hat, hmoved⟩ := hpost
      obtain ⟨j', hat'⟩ := ht.mirrors.child sp c h.srcLive h.child
      obtain ⟨rfl, rfl⟩ := hat.unique hat'
      obtain ⟨hgrows, hlinks⟩ := renamed_grows (m := m) ht.mirrors.tree
        (capyfsRenameInode m (t.dentry sp).inode (t.dentry c).name (t.dentry dp).inode dn t.fs).2 sp dp
      rw [hr, setError_fs, (h.relinks hgrows.tree hlinks).fs, hgrows.caches.fs]
      refine ht.rooted.moved (by rw [hat.entries]; exact hat.used) hmoved hvd.live fun hb => ?_
      rw [hat.entries] at hb
      -- the destination's directory would be cached beneath the source
      obtain ⟨t1, hf, t2, hdst, hc2⟩ := h.source
      have hbd := (resolve_browses ampleHeap m hf.tree dstPath true).1
      rw [hdst] at hbd
      have hsrcPath : CachePath t (components srcPath) c := by
        have h1 := resolve_path ((SameLinks.setError s .ok).tree hs.mirrors.tree) hf.resolve
        exact (h1.caches hf.tree hbd.caches).caches hbd.tree hc2
      have hdstPath : CachePath t (components dstPath).dropLast dp :=
        (resolve_path hf.tree hdst).caches hbd.tree hc2
      obtain ⟨ns, hns, hpre⟩ := ht.mirrors.beneath ht.safe hcl hdstPath hb
      rw [hns.unique ht.mirrors.tree hsrcPath] at hpre
      rcases resolve_last ampleHeap m hdst with ⟨-, -, hnil⟩ | ⟨-, -, front, hfront⟩
      · exact h.name hnil
      · rw [hfront, dropLast_concat] at hpre
        refine hout ⟨?_, fun he => ?_⟩
        · rw [hfront]
          exact hpre.trans (prefix_append _ _)
        · have hlen := hpre.length_le
          have heq := congrArg List.length he
          rw [hfront, length_append] at heq
          simp only [length_cons, length_nil] at heq
          omega

end

section
variable {m : CapySuper} {s : VfsSession}

theorem step_planted (hs : Planted m s.vfs) (x : VfsStep) (hx : Upright s x) : Planted m (x.run m s).vfs := by
  have hm := step_mounted hs.toMounted x hx.1
  rcases x with ⟨heap, user, call⟩
  obtain ⟨⟨rfl, hz, hcall⟩, hout⟩ := hx
  cases call with
  | lookup path =>
    refine ⟨hm, ?_⟩
    rcases @lookup_cases ampleHeap m _ hs.mirrors.tree path with ⟨t, h, hb⟩ | ⟨d, t, hf, h⟩
    all_goals
      simp only [VfsStep.run]
      rw [h]
    · rw [hb.caches.fs]
      exact hs.rooted
    · rw [show ((t.retain d).setError .ok).fs = t.fs from rfl, hf.caches.fs]
      exact hs.rooted
  | put d =>
    refine ⟨hm, ?_⟩
    simp only [VfsStep.run]
    split
    · rw [(release_same s.vfs d).2.2.1]
      exact hs.rooted
    · exact hs.rooted
  | create path mode info => exact create_planted hs user (hz path mem_cons_self) mode info
  | «open» path flags =>
    refine ⟨hm, ?_⟩
    rcases @open_cases ampleHeap m _ hs.mirrors.tree user path flags with ⟨t, h, hb⟩ |
      ⟨d, t, hf, openFlags, -, -, h⟩
    all_goals
      simp only [VfsStep.run]
      rw [h]
    · rw [hb.caches.fs]
      exact hs.rooted
    · rw [show ((openFile t d openFlags).setError .ok).fs = t.fs from rfl, hf.caches.fs]
      exact hs.rooted
  | close f =>
    refine ⟨hm, ?_⟩
    simp only [VfsStep.run, vfsClose]
    split
    · exact hs.rooted
    · rename_i y _
      rw [show ((s.vfs.release y.dentry).setFile f none).fs = (s.vfs.release y.dentry).fs from rfl,
        (release_same s.vfs y.dentry).2.2.1]
      exact hs.rooted
  | read f size => exact absurd hcall not_false
  | write f src size => exact absurd hcall not_false
  | listdir path cb => exact hs.browses hm (listdir_browses hs.mirrors.tree user path cb)
  | unlink path =>
    rcases unlink_cases hs.mirrors.tree user path with ⟨h, -⟩ | ⟨p, c, t, h, -⟩
    · exact hs.browses hm h
    · exact h.planted hs
  | rmdir path =>
    rcases rmdir_cases hs.mirrors.tree user path with ⟨h, -⟩ | ⟨p, c, t, h, -⟩
    · exact hs.browses hm h
    · exact h.planted hs
  | rename srcPath dstPath =>
    exact rename_planted hs user (hz dstPath (mem_cons_of_mem _ mem_cons_self))
      (hout srcPath dstPath rfl)
  | statPath path => exact hs.browses hm (statPath_browses hs.mirrors.tree user path)
  | setMetadata path info => exact absurd hcall not_false

theorem run_planted {s0 : VfsSession} (h0 : Planted m s0.vfs) (h : VfsReachable m s0 Upright s) : Planted m s.vfs := by
  induction h with
  | start => exact h0
  | step _ hx ih => exact step_planted ih _ hx

end

/-- Directories form a tree on disk, and so do the dentries in the cache. -/
structure TreeShaped (m : CapySuper) (s : Vfs) : Prop where
  disk : ∀ i, (volumeOf m s.fs.dev).IsDirectory i → ∃! ps, DiskPath (volumeOf m s.fs.dev) ps i
  cache : ∀ d, s.live d = true →
    ¬ Relation.TransGen (fun p c => s.live c = true ∧ (s.dentry c).parent = some p) d d

theorem Planted.treeShaped {s : Vfs} (hs : Planted m s) : TreeShaped m s := by
  refine ⟨fun i hi => ?_, fun d hd hcycle => ?_⟩
  · obtain ⟨ps, hp⟩ := hs.rooted i hi.1
    exact ⟨ps, hp, fun qs hq => hq.unique hs.safe hp⟩
  · -- a child's way from the root on disk is longer than its parent's
    have hlonger : ∀ p c, s.live c = true ∧ (s.dentry c).parent = some p →
        ∀ ps, DiskPath (volumeOf m s.fs.dev) ps (s.dentry p).inode.ino →
        ∃ j, DiskPath (volumeOf m s.fs.dev) (ps ++ [j]) (s.dentry c).inode.ino := by
      rintro p c ⟨hc, hparent⟩ ps hp
      have hc0 : c ≠ 0 := by
        rintro rfl
        rw [hs.mirrors.tree.root.2] at hparent
        cases hparent
      obtain ⟨q, hq, hmem⟩ := hs.mirrors.up c hc hc0
      have hqp := (hs.mirrors.tree.child q c hq hmem).2
      rw [hparent] at hqp
      cases hqp
      obtain ⟨j, hat⟩ := hs.mirrors.child p c hq hmem
      exact ⟨j, .entry hp hat.entries hat.used⟩
    have htrans : ∀ c, Relation.TransGen
        (fun p c => s.live c = true ∧ (s.dentry c).parent = some p) d c →
        ∀ ps, DiskPath (volumeOf m s.fs.dev) ps (s.dentry d).inode.ino →
        ∃ qs, ps.length < qs.length ∧ DiskPath (volumeOf m s.fs.dev) qs (s.dentry c).inode.ino := by
      intro c hc
      induction hc with
      | single h =>
        intro ps hp
        obtain ⟨j, hj⟩ := hlonger _ _ h ps hp
        exact ⟨_, by simp, hj⟩
      | tail _ h ih =>
        intro ps hp
        obtain ⟨qs, hlt, hq⟩ := ih ps hp
        obtain ⟨j, hj⟩ := hlonger _ _ h qs hq
        refine ⟨_, ?_, hj⟩
        rw [length_append]
        omega
    obtain ⟨ps, hp⟩ := hs.rooted _ (hs.mirrors.agrees d hd).live
    obtain ⟨qs, hlt, hq⟩ := htrans d hcycle ps hp
    rw [hp.unique hs.safe hq] at hlt
    exact Nat.lt_irrefl _ hlt

/-- From a freshly formatted volume on, directories form a tree, if no rename
moves a path beneath itself, every block and inode got its bit and the mount
opened no journal. -/
theorem run_treeShaped (hmac : Hmac) (fuel : Nat) (secret : List Byte) (dev : Nat)
    (slots : List JournalSlot) (hint : Nat) (d : BlockDevice) (inodeCount blockCount : BitVec 32)
    (hr : d.Reliable) (h : (capyfsFormat d inodeCount.toNat blockCount.toNat).1 = 0)
    (hfit : CountsFit (formatInodeCount inodeCount.toNat) (formatBlockCount d blockCount.toNat))
    (hj : ¬ OpensJournal ampleHeap d (formatLayout d inodeCount.toNat blockCount.toNat).dataStart slots)
    (root : VInode)
    (hroot : (mountSession ampleHeap (formatLayout d inodeCount.toNat blockCount.toNat).super hmac fuel
      secret dev slots hint (capyfsFormat d inodeCount.toNat blockCount.toNat).2).handles = [root])
    (s : VfsSession)
    (hrun : VfsReachable (formatLayout d inodeCount.toNat blockCount.toNat).super
      (startSession (mountSession ampleHeap (formatLayout d inodeCount.toNat blockCount.toNat).super hmac
        fuel secret dev slots hint (capyfsFormat d inodeCount.toNat blockCount.toNat).2).fs root)
      Upright s) :
    TreeShaped (formatLayout d inodeCount.toNat blockCount.toNat).super s.vfs := by
  obtain ⟨hc, hs, -, honly⟩ := format_fresh hr h hfit
  have hdev := mount_fresh hmac fuel secret dev h hj
  refine (run_planted ⟨mount_mounted ?_ ?_ ?_, ?_⟩ hrun).treeShaped
  all_goals simp only [mountSession, startSession, mountVfs, hdev] at hroot ⊢
  · exact hc
  · exact hs
  · obtain ⟨root', hr', -⟩ := @diskRoot_eq _ ⟨_, hint⟩ hc hs
    rw [show (capyfsReadInodeDisk _ 0 >>= capyfsCreateVfsInode ampleHeap 0) _ = _ from hr'] at hroot
    rw [hr']
    simpa using hroot
  · intro i hi
    rw [honly] at hi
    rw [hi]
    exact ⟨[], .root⟩

def makeA : VfsStep := ⟨ampleHeap, none, .create [slash, 97#8] vfsModeDir none⟩

def renameA : VfsStep := ⟨ampleHeap, none, .rename [slash, 97#8] [slash, 97#8, slash, 98#8]⟩

theorem makeA_treeShaped :
    (capyfsFormat (plainDevice 64) 128 0).1 = 0 ∧
      TreeShaped smallSuper (makeA.run smallSuper smallSession).vfs := by
  have h : (capyfsFormat (plainDevice 64) 128 0).1 = 0 := by decide +kernel
  have hno : ¬ OpensJournal ampleHeap (plainDevice 64) (formatLayout (plainDevice 64) 128 0).dataStart
      [freeSlot] := by
    rintro ⟨hroom, -⟩
    revert hroom
    decide
  have hup : Upright smallSession makeA := by
    refine ⟨⟨rfl, fun path hpath c hc => ?_, trivial⟩, fun _ _ h => nomatch h⟩
    rw [List.mem_singleton.mp hpath] at hc
    revert c
    decide
  have hdev := @mount_fresh (plainDevice 64) 128 0 ampleHeap (fun _ _ => zeros) 32 [] 1 [freeSlot] h hno
  refine ⟨h, run_treeShaped (fun _ _ => zeros) 32 [] 1 [freeSlot] 0 (plainDevice 64) 128 0
    (fun _ => ⟨rfl, rfl⟩) h ⟨by decide, by decide, by decide⟩ hno newRoot (by decide +kernel) _ ?_⟩
  simp only [mountSession]
  erw [hdev]
  exact .step .start hup

/-- The directory `/a` is moved into itself and is its own parent afterwards. -/
theorem renameA_cuts :
    let s := makeA.run smallSuper smallSession
    let t := renameA.run smallSuper s
    (vfsCreate ampleHeap smallSuper none smallSession.vfs [slash, 97#8] vfsModeDir none).1 = .ok ∧
      (vfsRename ampleHeap smallSuper none s.vfs [slash, 97#8] [slash, 97#8, slash, 98#8]).1 = .ok ∧
      ¬ TreeShaped smallSuper t.vfs := by
  refine ⟨by decide, by decide, fun h => h.cache 1 (by decide) (.single ?_)⟩
  decide

end CapyOS.Proofs
