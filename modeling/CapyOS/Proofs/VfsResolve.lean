import CapyOS.Proofs.VfsCache

namespace CapyOS.Proofs
open Lib List
variable {t : Vfs} {inode : VInode} {r : Nat × Name} {p : Nat}

section
variable {heap : Heap} {m : CapySuper}

theorem refresh_inode (s : Vfs) (d : Nat) : ∃ size, s.refresh m d = s.setInode d { (s.dentry d).inode with size := size } := by
  unfold Vfs.refresh
  obtain ⟨size, h⟩ := refreshSize_some m (s.dentry d).inode s.fs
  rw [h]
  exact ⟨size, rfl⟩

theorem lookup_sameInode {x y : VInode} (h : SameInode x y) (name : Name) :
    capyfsLookup heap m y name = capyfsLookup heap m x name := by
  unfold capyfsLookup
  rw [h.isDir, h.ino]

theorem setInode_sameInode (s : Vfs) (d : Nat) (h : SameInode (s.dentry d).inode inode) (e : Nat) :
    SameInode (s.dentry e).inode ((s.setInode d inode).dentry e).inode := by
  unfold Vfs.setInode
  by_cases he : e = d
  · rw [he, setDentry_self]
    exact h
  · rw [setDentry_of_ne _ _ he]
    exact .refl _

theorem refresh_sameInode (s : Vfs) (d e : Nat) : SameInode (s.dentry e).inode ((s.refresh m d).dentry e).inode := by
  obtain ⟨size, h⟩ := refresh_inode (m := m) s d
  rw [h]
  refine setInode_sameInode s d ?_ e
  rfl

variable (heap m) in
structure ResolveInv (P : Vfs → Prop) : Prop where
  tree : ∀ s, P s → DentryTree s
  error : ∀ s e, P s → P (s.setError e)
  refresh : ∀ s d, P s → s.live d = true → P (s.refresh m d)
  cache : ∀ s d name inode, P s → s.live d = true → name ≠ [] → name.length < vfsNameMax →
    dentryLookupChild s d name = none →
    (capyfsLookup heap m (s.dentry d).inode name s.fs).1 = some inode →
    P (cacheChild s d name inode)

theorem resolveComps_keeps {P : Vfs → Prop} (hP : ResolveInv heap m P)
    (parentOnly : Bool) (comps : List Name) (hcomps : ∀ n ∈ comps, n ≠ []) (s : Vfs) (cur : Nat)
    (hs : P s) (hcur : s.live cur = true) : P (resolveComps heap m parentOnly s cur comps).2 ∧
      ∀ d n, (resolveComps heap m parentOnly s cur comps).1 = some (d, n) →
        (resolveComps heap m parentOnly s cur comps).2.live d = true := by
  induction comps generalizing s cur with
  | nil =>
    refine ⟨hs, fun d n h => ?_⟩
    cases h
    exact hcur
  | cons name rest ih =>
    have hrest : ∀ n ∈ rest, n ≠ [] := fun n hn => hcomps n (mem_cons_of_mem _ hn)
    simp only [resolveComps]
    split
    · exact ⟨hP.error s _ hs, fun _ _ h => by cases h⟩
    · rename_i hlong
      split
      · refine ⟨hs, fun d n h => ?_⟩
        cases h
        exact hcur
      · cases hl : dentryLookupChild s cur name with
        | some child =>
          exact ih hrest s child hs ((hP.tree s hs).child cur child hcur (lookupChild_mem hl).1).1
        | none =>
          obtain ⟨t, hst, hmiss⟩ := resolveMiss_cases heap m s cur name
          have hkept : P t ∧ SameLinks s t ∧ t.fs = s.fs ∧
              SameInode (s.dentry cur).inode (t.dentry cur).inode := by
            rcases hst with rfl | rfl
            · exact ⟨hs, .refl _, rfl, .refl _⟩
            · refine ⟨hP.refresh s cur hs hcur, .refresh m s cur, ?_, refresh_sameInode s cur cur⟩
              obtain ⟨size, h⟩ := refresh_inode (m := m) s cur
              rw [h]
              rfl
          obtain ⟨ht, hlinks, hfs, hsame⟩ := hkept
          rcases hmiss with ⟨-, h⟩ | ⟨inode, hfound, ⟨-, h⟩ | ⟨-, h⟩⟩
          · rw [h]
            exact ⟨hP.error t _ ht, fun _ _ h => by cases h⟩
          · rw [h]
            exact ⟨hP.error t _ ht, fun _ _ h => by cases h⟩
          · rw [h]
            refine ih hrest _ _ (hP.cache t cur name inode ht ?_ (hcomps name mem_cons_self)
              (by omega) ?_ ?_) ?_
            · rw [hlinks.live]
              exact hcur
            · rw [hlinks.lookup]
              exact hl
            · rw [lookup_sameInode hsame, hfs]
              exact hfound
            · simp

end

/-- What resolving a path can do to the state: old dentries stay, with their
sizes refreshed, and new ones come without users. -/
structure Caches (s t : Vfs) : Prop where
  fs : t.fs = s.fs
  file : t.file = s.file
  nextFile : t.nextFile = s.nextFile
  next : s.next ≤ t.next
  live : ∀ d, d < s.next → t.live d = s.live d
  name : ∀ d, d < s.next → (t.dentry d).name = (s.dentry d).name
  parent : ∀ d, d < s.next → (t.dentry d).parent = (s.dentry d).parent
  inode : ∀ d, d < s.next → SameInode (s.dentry d).inode (t.dentry d).inode
  refcount : ∀ d, d < s.next → (t.dentry d).refcount = (s.dentry d).refcount
  children : ∀ d, d < s.next → ∀ c ∈ (s.dentry d).children, c ∈ (t.dentry d).children
  fresh : ∀ d, s.next ≤ d → d < t.next → (t.dentry d).refcount = 1

theorem Caches.refl (s : Vfs) : Caches s s :=
  ⟨rfl, rfl, rfl, Nat.le_refl _, fun _ _ => rfl, fun _ _ => rfl, fun _ _ => rfl, fun _ _ => .refl _,
    fun _ _ => rfl, fun _ _ _ h => h, fun _ h h' => absurd h' (Nat.not_lt.mpr h)⟩

theorem Caches.trans {s t u : Vfs} (h : Caches s t) (h' : Caches t u) : Caches s u := by
  have hlt : ∀ d, d < s.next → d < t.next := fun d hd => Nat.lt_of_lt_of_le hd h.next
  refine ⟨h'.fs.trans h.fs, h'.file.trans h.file, h'.nextFile.trans h.nextFile, h.next.trans h'.next,
    fun d hd => (h'.live d (hlt d hd)).trans (h.live d hd),
    fun d hd => (h'.name d (hlt d hd)).trans (h.name d hd),
    fun d hd => (h'.parent d (hlt d hd)).trans (h.parent d hd),
    fun d hd => (h.inode d hd).trans (h'.inode d (hlt d hd)),
    fun d hd => (h'.refcount d (hlt d hd)).trans (h.refcount d hd),
    fun d hd c hc => h'.children d (hlt d hd) c (h.children d hd c hc), fun d hd hu => ?_⟩
  rcases Nat.lt_or_ge d t.next with hdt | hdt
  · rw [h'.refcount d hdt]
    exact h.fresh d hd hdt
  · exact h'.fresh d hdt hu

theorem Caches.setError (s : Vfs) (e : VfsError) : Caches s (s.setError e) :=
  ⟨rfl, rfl, rfl, Nat.le_refl _, fun _ _ => rfl, fun _ _ => rfl, fun _ _ => rfl, fun _ _ => .refl _,
    fun _ _ => rfl, fun _ _ _ h => h, fun _ h h' => absurd h' (Nat.not_lt.mpr h)⟩

theorem Caches.refresh (m : CapySuper) (s : Vfs) (d : Nat) : Caches s (s.refresh m d) := by
  have hl := SameLinks.refresh m s d
  have hi := refresh_sameInode (m := m) s d
  obtain ⟨size, h⟩ := refresh_inode (m := m) s d
  rw [h] at hl hi ⊢
  refine ⟨rfl, rfl, rfl, Nat.le_refl _, fun _ _ => rfl, fun e _ => hl.name e, fun e _ => hl.parent e,
    fun e _ => hi e, fun e _ => ?_, fun e _ c hc => by rw [hl.children]; exact hc,
    fun _ h h' => absurd h' (Nat.not_lt.mpr h)⟩
  unfold Vfs.setInode
  by_cases he : e = d
  · rw [he, setDentry_self]
  · rw [setDentry_of_ne _ _ he]

theorem Caches.cache {s : Vfs} (hp : p < s.next) (name : Name) (inode : VInode) :
    Caches s (cacheChild s p name inode) := by
  refine ⟨rfl, rfl, rfl, Nat.le_succ _, fun d hd => ?_, fun d hd => ?_, fun d hd => ?_, fun d hd => ?_,
    fun d hd => ?_, fun d hd c hc => ?_, fun d hd hd' => ?_⟩
  · exact Function.update_of_ne (Nat.ne_of_lt hd) ..
  all_goals try rw [cache_old s name inode hd]
  · exact .refl _
  · simp only
    split
    · exact mem_cons_of_mem _ hc
    · exact hc
  · have : d = s.next := by
      rw [cache_next] at hd'
      omega
    rw [this, cache_new s name inode hp]

variable (heap : Heap) (m : CapySuper) {s : Vfs}

structure Grows (s t : Vfs) : Prop where
  caches : Caches s t
  tree : DentryTree t

structure Browses (s t : Vfs) : Prop extends Grows s t where
  keeps : ∀ P, ResolveInv heap m P → P s → P t

variable {heap m}

theorem Grows.refl (hs : DentryTree s) : Grows s s := ⟨.refl s, hs⟩

theorem Grows.trans {t u : Vfs} (h : Grows s t) (h' : Grows t u) : Grows s u :=
  ⟨h.caches.trans h'.caches, h'.tree⟩

theorem Grows.setError (h : Grows s t) (e : VfsError) : Grows s (t.setError e) :=
  ⟨h.caches.trans (.setError t e), (SameLinks.setError t e).tree h.tree⟩

theorem Grows.refresh (h : Grows s t) (d : Nat) : Grows s (t.refresh m d) :=
  ⟨h.caches.trans (.refresh m t d), (SameLinks.refresh m t d).tree h.tree⟩

theorem Browses.refl (hs : DentryTree s) : Browses heap m s s := ⟨.refl hs, fun _ _ h => h⟩

theorem Browses.trans {t u : Vfs} (h : Browses heap m s t) (h' : Browses heap m t u) : Browses heap m s u :=
  ⟨h.toGrows.trans h'.toGrows, fun P hP hs => h'.keeps P hP (h.keeps P hP hs)⟩

theorem Browses.setError (h : Browses heap m s t) (e : VfsError) : Browses heap m s (t.setError e) :=
  ⟨h.toGrows.setError e, fun P hP hs => hP.error t e (h.keeps P hP hs)⟩

theorem Browses.refresh (h : Browses heap m s t) {d : Nat} (hd : t.live d = true) :
    Browses heap m s (t.refresh m d) :=
  ⟨h.toGrows.refresh d, fun P hP hs => hP.refresh t d (h.keeps P hP hs) hd⟩

theorem Browses.cache (h : Browses heap m s t) (hp : t.live p = true) {name : Name}
    (hname : name ≠ []) (hlen : name.length < vfsNameMax) (hnew : dentryLookupChild t p name = none)
    (hi : (capyfsLookup heap m (t.dentry p).inode name t.fs).1 = some inode) :
    Browses heap m s (cacheChild t p name inode) :=
  ⟨⟨h.caches.trans (.cache (h.tree.bound p hp) name inode), h.tree.cache hp hlen hnew inode⟩,
    fun P hP hs => hP.cache t p name inode (h.keeps P hP hs) hp hname hlen hnew hi⟩

theorem resolveComps_browses (hs : DentryTree s) {cur : Nat} (hcur : s.live cur = true)
    (parentOnly : Bool) {comps : List Name} (hcomps : ∀ n ∈ comps, n ≠ []) :
    Browses heap m s (resolveComps heap m parentOnly s cur comps).2 ∧
      ∀ d n, (resolveComps heap m parentOnly s cur comps).1 = some (d, n) →
        (resolveComps heap m parentOnly s cur comps).2.live d = true := by
  have hinv : ResolveInv heap m (Browses heap m s) :=
    ⟨fun t h => h.tree, fun t e h => h.setError e, fun t d h hd => h.refresh hd,
      fun t d name inode h hd hname hlen hnew hi => h.cache hd hname hlen hnew hi⟩
  exact resolveComps_keeps hinv parentOnly comps hcomps s cur (.refl hs) hcur

variable (heap m)

def resolveLast (s : Vfs) (parent : Nat) (name : Name) : Option (Nat × Name) × Vfs :=
  if name = [] then (some (parent, []), s)
  else match dentryLookupChild s parent name with
    | some child => (some (child, []), s)
    | none => match resolveMiss heap m s parent name with
      | (none, s) => (none, s)
      | (some child, s) => (some (child, []), s)

theorem resolveComps_split (comps : List Name) (hcomps : ∀ n ∈ comps, n ≠ []) (s : Vfs) (cur : Nat) :
    resolveComps heap m false s cur comps = match resolveComps heap m true s cur comps with
      | (none, s) => (none, s)
      | (some (p, name), s) => resolveLast heap m s p name := by
  induction comps generalizing s cur with
  | nil => simp [resolveComps, resolveLast]
  | cons name rest ih =>
    have hrest : ∀ n ∈ rest, n ≠ [] := fun n hn => hcomps n (mem_cons_of_mem _ hn)
    have hname := hcomps name mem_cons_self
    by_cases hlong : vfsNameMax ≤ name.length
    · simp [resolveComps, hlong]
    · cases rest with
      | nil =>
        cases hd : dentryLookupChild s cur name with
        | some child => simp [resolveComps, hlong, resolveLast, hname, hd]
        | none =>
          rcases hr : resolveMiss heap m s cur name with ⟨child, s'⟩
          cases child with
          | none => simp [resolveComps, hlong, resolveLast, hname, hd, hr]
          | some child => simp [resolveComps, hlong, resolveLast, hname, hd, hr]
      | cons name' rest =>
        rw [resolveComps, resolveComps]
        simp only [hlong, if_false, Bool.false_eq_true, isEmpty_cons, Bool.and_false]
        cases dentryLookupChild s cur name with
        | some child => exact ih hrest s child
        | none =>
          rcases resolveMiss heap m s cur name with ⟨child, s'⟩
          cases child with
          | none => rfl
          | some child => exact ih hrest s' child

theorem components_ne_nil (path : Name) : ∀ n ∈ components path, n ≠ [] := by
  intro n hn
  simpa using (mem_filter.mp hn).2

theorem resolve_browses (hs : DentryTree s) (path : Name) (parentOnly : Bool) :
    Browses heap m s (vfsResolve heap m s path parentOnly).2 ∧ ∀ d n, (vfsResolve heap m s path parentOnly).1 = some (d, n) →
        (vfsResolve heap m s path parentOnly).2.live d = true := by
  by_cases hp : path.head? = some slash
  · rw [vfsResolve_eq heap m hp]
    exact resolveComps_browses hs hs.root.1 parentOnly (components_ne_nil path)
  · rw [vfsResolve_relative heap m hp]
    exact ⟨Browses.setError (.refl hs) _, nofun⟩

/-- A path is resolved as its parent is, and then by its last component. -/
theorem resolve_split (s : Vfs) (path : Name) : vfsResolve heap m s path false = match vfsResolve heap m s path true with
      | (none, s) => (none, s)
      | (some (p, name), s) => resolveLast heap m s p name := by
  by_cases hp : path.head? = some slash
  · rw [vfsResolve_eq heap m hp, vfsResolve_eq heap m hp]
    exact resolveComps_split heap m _ (components_ne_nil path) s 0
  · rw [vfsResolve_relative heap m hp, vfsResolve_relative heap m hp]

theorem resolveComps_again (parentOnly : Bool) (comps : List Name) (cur : Nat)
    {t u : Vfs} (hs : DentryTree s) (hcur : s.live cur = true) (hcomps : ∀ n ∈ comps, n ≠ [])
    (h : resolveComps heap m parentOnly s cur comps = (some r, t)) (hu : DentryTree u)
    (hext : Caches t u) : resolveComps heap m parentOnly u cur comps = (some r, u) := by
  induction comps generalizing s cur with
  | nil =>
    simp only [resolveComps, Prod.mk.injEq] at h ⊢
    exact ⟨h.1, trivial⟩
  | cons name rest ih =>
    have hrest : ∀ n ∈ rest, n ≠ [] := fun n hn => hcomps n (mem_cons_of_mem _ hn)
    have hcaches : ∀ v cur', DentryTree v → v.live cur' = true →
        resolveComps heap m parentOnly v cur' rest = (some r, t) → Caches v u := by
      intro v cur' hv hlive hr
      have hk := @resolveComps_browses heap m v hv cur' hlive parentOnly rest hrest
      rw [hr] at hk
      exact hk.1.caches.trans hext
    -- a child that was there when the walk went on is there still
    have hstill : ∀ v child, DentryTree v → Caches v u → v.live cur = true →
        child ∈ (v.dentry cur).children → (v.dentry child).name = name →
        dentryLookupChild u cur name = some child := by
      intro v child hv hc hlive hmem hn
      have hcn := hv.bound cur hlive
      have hchild := hv.bound child (hv.child cur child hlive hmem).1
      rw [← hn, ← hc.name child hchild]
      exact hu.lookup (by rw [hc.live cur hcn]; exact hlive) (hc.children cur hcn child hmem)
    simp only [resolveComps] at h ⊢
    split at h
    · cases h
    · rename_i hlong
      rw [if_neg hlong]
      split at h
      · rename_i hlast
        rw [if_pos hlast]
        cases h
        rfl
      · rename_i hlast
        rw [if_neg hlast]
        cases hl : dentryLookupChild s cur name with
        | some child =>
          rw [hl] at h
          obtain ⟨hmem, hn⟩ := lookupChild_mem hl
          have hlive := (hs.child cur child hcur hmem).1
          rw [hstill s child hs (hcaches s child hs hlive h) hcur hmem hn]
          exact ih child hs hlive hrest h
        | none =>
          rw [hl] at h
          obtain ⟨v, hv, hmiss⟩ := resolveMiss_cases heap m s cur name
          rcases hmiss with ⟨-, he⟩ | ⟨inode, -, ⟨-, he⟩ | ⟨-, he⟩⟩
          · rw [he] at h
            cases h
          · rw [he] at h
            cases h
          · rw [he] at h
            have hlinks : SameLinks s v := by
              rcases hv with rfl | rfl
              · exact .refl _
              · exact .refresh m s cur
            have hvt := hlinks.tree hs
            have hvcur : v.live cur = true := by rw [hlinks.live]; exact hcur
            have hlen : name.length < vfsNameMax := by omega
            have htree := hvt.cache hvcur hlen (by rw [hlinks.lookup]; exact hl) inode
            have hnew : (cacheChild v cur name inode).live v.next = true := by simp
            have hcn := hvt.bound cur hvcur
            rw [hstill _ v.next htree (hcaches _ _ htree hnew h) ?_ ?_ ?_]
            · exact ih v.next htree hnew hrest h
            · rw [cache_live, Function.update_of_ne (Nat.ne_of_lt hcn)]
              exact hvcur
            · rw [cache_parent v name inode hcn]
              exact mem_cons_self
            · rw [cache_new v name inode hcn]
              exact take_of_length_le (Nat.le_sub_one_of_lt hlen)

theorem resolve_again {path : Name} {parentOnly : Bool} {t u : Vfs}
    (hs : DentryTree s) (h : vfsResolve heap m s path parentOnly = (some r, t)) (hu : DentryTree u)
    (hext : Caches t u) : vfsResolve heap m u path parentOnly = (some r, u) := by
  by_cases hp : path.head? = some slash
  · rw [vfsResolve_eq heap m hp] at h ⊢
    exact resolveComps_again heap m parentOnly _ 0 hs hs.root.1 (components_ne_nil path) h hu hext
  · rw [vfsResolve_relative heap m hp] at h
    cases h

end CapyOS.Proofs
