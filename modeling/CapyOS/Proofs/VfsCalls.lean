import CapyOS.Proofs.VfsLinks

namespace CapyOS.Proofs
open Lib FsM
variable {name : Name} {t : Vfs} {path : Name} {p : Nat}

variable (heap : Heap) (m : CapySuper) {s : Vfs}

theorem resolveComps_last {comps : List Name} (hcomps : ∀ n ∈ comps, n ≠ []) {s : Vfs} {cur p : Nat}
    (h : resolveComps heap m true s cur comps = (some (p, name), t)) :
    (comps = [] ∧ p = cur ∧ name = []) ∨ (name ≠ [] ∧ name.length < vfsNameMax ∧ ∃ front, comps = front ++ [name]) := by
  induction comps generalizing s cur with
  | nil =>
    cases h
    exact .inl ⟨rfl, rfl, rfl⟩
  | cons n rest ih =>
    have hrest : ∀ n ∈ rest, n ≠ [] := fun n hn => hcomps n (List.mem_cons_of_mem _ hn)
    -- past the first component the walk still has a last one to come to
    have hnext : ∀ {s cur}, rest ≠ [] → resolveComps heap m true s cur rest = (some (p, name), t) →
        name ≠ [] ∧ name.length < vfsNameMax ∧ ∃ front, n :: rest = front ++ [name] := by
      intro s cur hne hr
      rcases ih hrest hr with ⟨he, -⟩ | ⟨h1, h2, front, hf⟩
      · exact absurd he hne
      · exact ⟨h1, h2, n :: front, by rw [hf]; rfl⟩
    simp only [resolveComps] at h
    split at h
    · cases h
    · rename_i hlong
      split at h
      · rename_i hlast
        cases h
        have hnil : rest = [] := by simpa using hlast
        exact .inr ⟨hcomps _ List.mem_cons_self, Nat.lt_of_not_le hlong, [], by rw [hnil]; rfl⟩
      · rename_i hlast
        have hne : rest ≠ [] := by simpa using hlast
        right
        split at h
        · exact hnext hne h
        · split at h
          · cases h
          · exact hnext hne h

theorem resolve_last (h : vfsResolve heap m s path true = (some (p, name), t)) :
    (components path = [] ∧ p = 0 ∧ name = []) ∨
      (name ≠ [] ∧ name.length < vfsNameMax ∧ ∃ front, components path = front ++ [name]) := by
  by_cases hp : path.head? = some slash
  · rw [vfsResolve_eq heap m hp] at h
    exact resolveComps_last heap m (components_ne_nil path) h
  · rw [vfsResolve_relative heap m hp] at h
    cases h

theorem resolveComps_name (comps : List Name) {s t : Vfs} {cur : Nat} {r : Nat × Name}
    (h : resolveComps heap m false s cur comps = (some r, t)) : r.2 = [] := by
  induction comps generalizing s cur with
  | nil =>
    cases h
    rfl
  | cons n rest ih =>
    simp only [resolveComps, Bool.false_and, Bool.false_eq_true, if_false] at h
    split at h
    · cases h
    · split at h
      · exact ih h
      · split at h
        · cases h
        · exact ih h

theorem resolve_name {r : Nat × Name}
    (h : vfsResolve heap m s path false = (some r, t)) : r.2 = [] := by
  by_cases hp : path.head? = some slash
  · rw [vfsResolve_eq heap m hp] at h
    exact resolveComps_name heap m _ h
  · rw [vfsResolve_relative heap m hp] at h
    cases h

/-- The last step finds a cached child, fails, or caches one. -/
theorem resolveLast_cases (hs : DentryTree s) (hp : s.live p = true)
    (hname : name ≠ []) (hlen : name.length < vfsNameMax) :
    (∃ c, dentryLookupChild s p name = some c ∧ resolveLast heap m s p name = (some (c, []), s)) ∨
    (dentryLookupChild s p name = none ∧ ∃ u, SameLinks s u ∧ Browses heap m s u ∧ resolveLast heap m s p name = (none, u) ∧
      (u.lastError = .notFound → (capyfsLookup heap m (u.dentry p).inode name u.fs).1 = none)) ∨
    (dentryLookupChild s p name = none ∧ ∃ u inode, SameLinks s u ∧ Browses heap m s (cacheChild u p name inode) ∧
      resolveLast heap m s p name = (some (u.next, []), cacheChild u p name inode)) := by
  unfold resolveLast
  rw [if_neg hname]
  cases hl : dentryLookupChild s p name with
  | some c => exact .inl ⟨c, rfl, rfl⟩
  | none =>
    right
    obtain ⟨t, ht, hmiss⟩ := resolveMiss_cases heap m s p name
    have hst : SameLinks s t ∧ Browses heap m s t ∧
        capyfsLookup heap m (t.dentry p).inode name t.fs =
          capyfsLookup heap m (s.dentry p).inode name s.fs := by
      rcases ht with rfl | rfl
      · exact ⟨.refl _, .refl hs, rfl⟩
      · refine ⟨.refresh m s p, Browses.refresh (.refl hs) hp, ?_⟩
        rw [lookup_sameInode (refresh_sameInode s p p), (Caches.refresh m s p).fs]
    obtain ⟨hlinks, hb, hlook⟩ := hst
    rcases hmiss with ⟨hnone, h⟩ | ⟨inode, hsome, ⟨-, h⟩ | ⟨-, h⟩⟩
    · refine .inl ⟨rfl, t.setError .notFound, hlinks.trans (.setError t _), hb.setError _, ?_, fun _ => ?_⟩
      · rw [h]
      · rw [setError_dentry, setError_fs, hlook]
        exact hnone
    · refine .inl ⟨rfl, t.setError .noMemory, hlinks.trans (.setError t _), hb.setError _, ?_, nofun⟩
      rw [h]
    · refine .inr ⟨rfl, t, inode, hlinks, ?_, ?_⟩
      · refine hb.cache ((congrFun hlinks.live p).trans hp) hname hlen (by rw [hlinks.lookup]; exact hl) ?_
        rw [hlook]
        exact hsome
      · rw [h]

structure Found (s : Vfs) (path : Name) (c : Nat) (t : Vfs) : Prop extends Browses heap m s t where
  resolve : vfsResolve heap m (s.setError .ok) path false = (some (c, []), t)
  live : t.live c = true

structure FoundParent (s : Vfs) (path : Name) (p : Nat) (name : Name) (t : Vfs) : Prop
    extends Browses heap m s t where
  resolve : vfsResolve heap m (s.setError .ok) path true = (some (p, name), t)
  live : t.live p = true

variable {heap m}

theorem found_cases (hs : DentryTree s) (path : Name) :
    (∃ t, vfsResolve heap m (s.setError .ok) path false = (none, t) ∧ Browses heap m s t) ∨ ∃ c t, Found heap m s path c t := by
  obtain ⟨hb, hl⟩ := resolve_browses heap m ((SameLinks.setError s .ok).tree hs) path false
  rcases hr : vfsResolve heap m (s.setError .ok) path false with ⟨r, t⟩
  rw [hr] at hb hl
  have hb' := (Browses.setError (.refl hs) .ok).trans hb
  cases r with
  | none => exact .inl ⟨t, rfl, hb'⟩
  | some r =>
    refine .inr ⟨r.1, t, hb', ?_, hl r.1 r.2 rfl⟩
    rw [hr, ← resolve_name heap m hr]

theorem foundParent_cases (hs : DentryTree s) (path : Name) :
    (∃ t, vfsResolve heap m (s.setError .ok) path true = (none, t) ∧ Browses heap m s t) ∨
      ∃ p name t, FoundParent heap m s path p name t := by
  obtain ⟨hb, hl⟩ := resolve_browses heap m ((SameLinks.setError s .ok).tree hs) path true
  rcases hr : vfsResolve heap m (s.setError .ok) path true with ⟨r, t⟩
  rw [hr] at hb hl
  have hb' := (Browses.setError (.refl hs) .ok).trans hb
  cases r with
  | none => exact .inl ⟨t, rfl, hb'⟩
  | some r => exact .inr ⟨r.1, r.2, t, hb', hr, hl r.1 r.2 rfl⟩

/-- The parent that a dentry found by its path points to is the path's parent. -/
theorem Found.parent {c p : Nat} (hs : DentryTree s)
    (hf : Found heap m s path c t) (hp : (t.dentry c).parent = some p) :
    ∃ name t0, FoundParent heap m s path p name t0 ∧ Caches t0 t ∧ t.live p = true ∧
      c ∈ (t.dentry p).children ∧ (t.dentry c).name = name ∧ name ≠ [] ∧ name.length < vfsNameMax := by
  have hsplit := resolve_split heap m (s.setError .ok) path
  rw [hf.resolve] at hsplit
  rcases @foundParent_cases heap m s hs path with ⟨t0, h0, -⟩ | ⟨q, name, t0, h0⟩
  · rw [h0] at hsplit
    cases hsplit
  · have hpar := h0.resolve
    rw [hpar] at hsplit
    simp only at hsplit
    have hq := h0.tree.bound q h0.live
    rcases resolve_last heap m hpar with ⟨-, rfl, rfl⟩ | ⟨hname, hlen, -⟩
    · -- the root has no parent
      simp only [resolveLast, if_true, Prod.mk.injEq, Option.some.injEq] at hsplit
      have : (t.dentry c).parent = none := by
        rw [hsplit.1.1]
        exact hf.tree.root.2
      rw [this] at hp
      cases hp
    · have hchild : Caches t0 t ∧ c ∈ (t.dentry q).children ∧ (t.dentry c).name = name := by
        rcases resolveLast_cases heap m h0.tree h0.live hname hlen with ⟨d, hd, h⟩ | ⟨-, u, -, -, h, -⟩ |
          ⟨-, u, i, hl, hu, h⟩
        · rw [h] at hsplit
          cases hsplit
          obtain ⟨hmem, hn⟩ := lookupChild_mem hd
          exact ⟨.refl _, hmem, hn⟩
        · rw [h] at hsplit
          cases hsplit
        · rw [h] at hsplit
          cases hsplit
          have hqu : q < u.next := by rw [hl.next]; exact hq
          refine ⟨hu.caches, ?_, ?_⟩
          · rw [cache_parent u name i hqu]
            exact List.mem_cons_self
          · rw [cache_new u name i hqu]
            exact List.take_of_length_le (Nat.le_sub_one_of_lt hlen)
      obtain ⟨hc, hmem, hn⟩ := hchild
      have hlive : t.live q = true := by rw [hc.live q hq]; exact h0.live
      have hqp : q = p := by
        have := (hf.tree.child q c hlive hmem).2
        rw [hp] at this
        exact (Option.some.inj this).symm
      subst hqp
      exact ⟨name, t0, h0, hc, hlive, hmem, hn, hname, hlen⟩

/-- After the walk to its parent, a path resolves by one more step. -/
theorem FoundParent.again (hs : DentryTree s)
    (hf : FoundParent heap m s path p name t) : vfsResolve heap m t path false = resolveLast heap m t p name := by
  have h := resolve_again heap m ((SameLinks.setError s .ok).tree hs) hf.resolve hf.tree (.refl t)
  rw [resolve_split, h]

theorem lookup_cases (hs : DentryTree s) (path : Name) : (∃ t, vfsLookup heap m s path = (none, t) ∧ Browses heap m s t) ∨
      ∃ d t, Found heap m s path d t ∧ vfsLookup heap m s path = (some d, (t.retain d).setError .ok) := by
  unfold vfsLookup
  rcases found_cases hs path with ⟨t, h, hb⟩ | ⟨d, t, h⟩
  · rw [h]
    exact .inl ⟨_, rfl, hb.setError _⟩
  · rw [h.resolve]
    exact .inr ⟨d, t, h, rfl⟩

/-- The state with a new open file. -/
def openFile (s : Vfs) (d : Nat) (flags : BitVec 32) : Vfs :=
  ({ s.setFile s.nextFile (some ⟨d, 0, flags⟩) with nextFile := s.nextFile + 1 } : Vfs).retain d

theorem openFile_file (s : Vfs) (d : Nat) (flags : BitVec 32) :
    (openFile s d flags).file = Function.update s.file s.nextFile (some ⟨d, 0, flags⟩) := rfl

theorem openFile_inode (s : Vfs) (d : Nat) (flags : BitVec 32) (e : Nat) :
    ((openFile s d flags).dentry e).inode = (s.dentry e).inode := by
  unfold openFile Vfs.retain
  rw [setDentry_dentry]
  split
  · rename_i he
    rw [he]
    rfl
  · rfl

theorem SameLinks.openFile (s : Vfs) (d : Nat) (flags : BitVec 32) : SameLinks s (openFile s d flags) := by
  have h : SameLinks _ (Proofs.openFile s d flags) := .setDentry _ d _ _
  exact { h with }

theorem open_cases (hs : DentryTree s) (user : Option User) (path : Name) (flags : BitVec 32) :
    (∃ t, vfsOpen heap m user s path flags = (none, t) ∧ Browses heap m s t) ∨ ∃ d t, Found heap m s path d t ∧ ∃ openFlags,
        (openFlags &&& vfsOpenRead ≠ 0 → inodeHasPermission user (t.dentry d).inode vfsPermRead = true) ∧
        (openFlags &&& vfsOpenWrite ≠ 0 → inodeHasPermission user (t.dentry d).inode vfsPermWrite = true) ∧
        vfsOpen heap m user s path flags = (some s.nextFile, (openFile t d openFlags).setError .ok) := by
  unfold vfsOpen
  rcases found_cases hs path with ⟨t, h, hb⟩ | ⟨d, t, h⟩
  · rw [h]
    exact .inl ⟨_, rfl, hb.setError _⟩
  · rw [h.resolve]
    simp only
    generalize hflags : (if flags = 0 then vfsOpenRead else flags) = openFlags
    split
    · exact .inl ⟨_, rfl, h.toBrowses.setError _⟩
    · rename_i hread
      split
      · exact .inl ⟨_, rfl, h.toBrowses.setError _⟩
      · rename_i hwrite
        split
        · exact .inl ⟨_, rfl, h.toBrowses.setError _⟩
        · refine .inr ⟨d, t, h, openFlags, fun hr => ?_, fun hw => ?_, ?_⟩
          · exact by_contra fun hno => hread ⟨hr, by simpa using hno⟩
          · exact by_contra fun hno => hwrite ⟨hw, by simpa using hno⟩
          · unfold openFile
            rw [Nat.add_sub_cancel, h.caches.nextFile]

theorem statPath_browses (hs : DentryTree s) (user : Option User) (path : Name) :
    Browses heap m s (vfsStatPath heap m user s path).2 := by
  unfold vfsStatPath
  rcases found_cases hs path with ⟨t, h, hb⟩ | ⟨d, t, h⟩
  · rw [h]
    exact hb.setError _
  · rw [h.resolve]
    simp only
    split <;> exact h.toBrowses.setError _

theorem listdir_browses (hs : DentryTree s) (user : Option User) (path : Name)
    (cb : Name → BitVec 16 → Bool) : Browses heap m s (vfsListdir heap m user s path cb).2 := by
  unfold vfsListdir
  rcases found_cases hs path with ⟨t, h, hb⟩ | ⟨d, t, h⟩
  · rw [h]
    exact hb.setError _
  · rw [h.resolve]
    simp only
    split
    · exact h.toBrowses.setError _
    · split
      · exact h.toBrowses.setError _
      · rw [iterate_readOnly m _ _ t.fs]
        split
        · exact (h.toBrowses.refresh h.live).setError _
        · split <;> exact (h.toBrowses.refresh h.live).setError _

theorem hasEntries_state (t : Vfs) (d : Nat) :
    (vfsDirectoryHasEntries m t d).2 = t ∨ (vfsDirectoryHasEntries m t d).2 = t.refresh m d := by
  unfold vfsDirectoryHasEntries
  simp only
  rw [iterate_readOnly m _ _ t.fs]
  split
  · exact .inr rfl
  · exact .inl rfl

def setFs (s : Vfs) (fs : Fs) : Vfs := { s with fs := fs }

theorem SameLinks.setFs (s : Vfs) (fs : Fs) : SameLinks s (setFs s fs) :=
  ⟨rfl, rfl, fun _ => rfl, fun _ => rfl, fun _ => rfl⟩

/-- What a creation comes to: nothing but resolving, or a call of the file
system on a parent that the user may write, under a name that is not cached. -/
theorem create_cases (hs : DentryTree s) (user : Option User) (path : Name) (mode : BitVec 16) (info : Option VfsMetadata) :
    Browses heap m s (vfsCreate heap m user s path mode info).2 ∨
      ∃ p name t0 t, FoundParent heap m s path p name t0 ∧ Caches t0 t ∧ Browses heap m s t ∧
        t.live p = true ∧ name ≠ [] ∧ name.length < vfsNameMax ∧ dentryLookupChild t p name = none ∧
        inodeHasPermission user (t.dentry p).inode vfsPermWrite = true ∧
        ∃ info', (((capyfsCreate heap m (t.dentry p).inode name mode (some info') t.fs).1 = none ∧
          (vfsCreate heap m user s path mode info).2 =
            (setFs t (capyfsCreate heap m (t.dentry p).inode name mode (some info') t.fs).2).setError .io) ∨
        ∃ inode, (capyfsCreate heap m (t.dentry p).inode name mode (some info') t.fs).1 = some inode ∧
          ((heap dentrySize = false ∧ (vfsCreate heap m user s path mode info).2 =
            ((setFs t (capyfsCreate heap m (t.dentry p).inode name mode (some info') t.fs).2).refresh m p).setError .noMemory) ∨
          (heap dentrySize = true ∧ (vfsCreate heap m user s path mode info).2 =
            (cacheChild ((setFs t (capyfsCreate heap m (t.dentry p).inode name mode (some info')
              t.fs).2).refresh m p) p name inode).setError .ok))) := by
  unfold vfsCreate
  rcases foundParent_cases hs path with ⟨t, h, hb⟩ | ⟨p, name, t0, hf⟩
  · rw [h]
    exact .inl (hb.setError _)
  · rw [hf.resolve]
    simp only
    have hb0 := hf.toBrowses
    split
    · exact .inl (hb0.setError _)
    · rename_i hempty
      have hname : name ≠ [] := by simpa using hempty
      have hlen : name.length < vfsNameMax := by
        rcases resolve_last heap m hf.resolve with ⟨-, -, h⟩ | ⟨-, h, -⟩
        · exact absurd h hname
        · exact h
      rw [hf.again hs]
      rcases resolveLast_cases heap m hf.tree hf.live hname hlen with ⟨c, -, h⟩ |
        ⟨hnone, t, hl, hbt, h, -⟩ | ⟨-, u, inode, -, hbt, h⟩
      · rw [h]
        exact .inl (hb0.setError _)
      · rw [h]
        have hb := hb0.trans hbt
        simp only
        split
        · exact .inl (hb.setError _)
        · split
          · exact .inl (hb.setError _)
          · rename_i hperm
            refine .inr ⟨p, name, t0, t, hf, hbt.caches, hb, ?_, hname, hlen, ?_, by simpa using hperm,
              info.getD (fillDefaultMetadata user mode), ?_⟩
            · rw [hl.live]
              exact hf.live
            · rw [hl.lookup]
              exact hnone
            · generalize capyfsCreate heap m (t.dentry p).inode name mode
                (some (info.getD (fillDefaultMetadata user mode))) t.fs = q
              cases q.1 with
              | none => exact .inl ⟨rfl, rfl⟩
              | some inode =>
                refine .inr ⟨inode, rfl, ?_⟩
                unfold dentryAlloc
                cases heap dentrySize with
                | false => exact .inl ⟨rfl, rfl⟩
                | true => exact .inr ⟨rfl, rfl⟩
      · rw [h]
        exact .inl ((hb0.trans hbt).setError _)

structure Removes (heap : Heap) (m : CapySuper) (user : Option User) (s : Vfs) (path : Name)
    (isDir : Bool) (p c : Nat) (t : Vfs) (r : Vfs) : Prop where
  found : ∃ t0, Found heap m s path c t0 ∧ (t = t0 ∨ t = t0.refresh m c)
  parent : ∃ name t0, FoundParent heap m s path p name t0 ∧ Caches t0 t
  browses : Browses heap m s t
  live : t.live p = true
  child : c ∈ (t.dentry p).children
  permission : inodeHasPermission user (t.dentry p).inode vfsPermWrite = true
  result : ((capyfsRemove m (t.dentry p).inode (t.dentry c).name isDir t.fs).1 = none ∧
      ∃ u e, (u = setFs t (capyfsRemove m (t.dentry p).inode (t.dentry c).name isDir t.fs).2 ∨
        u = (setFs t (capyfsRemove m (t.dentry p).inode (t.dentry c).name isDir t.fs).2).refresh m c) ∧
        r = u.setError e) ∨
    ((capyfsRemove m (t.dentry p).inode (t.dentry c).name isDir t.fs).1.isSome = true ∧
      r = (dentryForget ((setFs t (capyfsRemove m (t.dentry p).inode (t.dentry c).name isDir
        t.fs).2).refresh m p) p (t.dentry c).name).setError .ok)

theorem failLastOr_error (s : Vfs) {e : VfsError} (he : e ≠ .ok) : (s.failLastOr e).1 ≠ .ok := by
  unfold Vfs.failLastOr Vfs.fail
  split
  · exact he
  · assumption

theorem unlink_cases (hs : DentryTree s) (user : Option User) (path : Name) :
    (Browses heap m s (vfsUnlink heap m user s path).2 ∧ (vfsUnlink heap m user s path).1 ≠ .ok) ∨
      ∃ p c t, Removes heap m user s path false p c t (vfsUnlink heap m user s path).2 ∧ ((vfsUnlink heap m user s path).1 = .ok ↔
          (capyfsRemove m (t.dentry p).inode (t.dentry c).name false t.fs).1.isSome = true) := by
  unfold vfsUnlink
  rcases found_cases hs path with ⟨t, h, hb⟩ | ⟨c, t, h⟩
  · rw [h]
    exact .inl ⟨hb.setError _, failLastOr_error t nofun⟩
  · rw [h.resolve]
    simp only
    have hb := h.toBrowses
    split
    · exact .inl ⟨hb.setError _, nofun⟩
    · cases hp : (t.dentry c).parent with
      | none => exact .inl ⟨hb.setError _, nofun⟩
      | some p =>
        obtain ⟨name, t0, hf, hc, hlive, hmem, hname, hne, -⟩ := h.parent hs hp
        simp only
        split
        · exact .inl ⟨hb.setError _, nofun⟩
        · split
          · exact .inl ⟨hb.setError _, nofun⟩
          · rename_i hperm
            refine .inr ⟨p, c, t, ⟨⟨t, h, .inl rfl⟩, ⟨name, t0, hf, hc⟩, hb, hlive, hmem, by simpa using hperm, ?_⟩, ?_⟩
            all_goals generalize capyfsRemove m (t.dentry p).inode (t.dentry c).name false t.fs = q
            · cases q.1 with
              | none => exact .inl ⟨rfl, _, _, .inl rfl, rfl⟩
              | some _ => exact .inr ⟨rfl, rfl⟩
            · cases q.1 with
              | none => exact ⟨nofun, nofun⟩
              | some _ => exact ⟨fun _ => rfl, fun _ => rfl⟩

theorem rmdir_cases (hs : DentryTree s) (user : Option User) (path : Name) :
    (Browses heap m s (vfsRmdir heap m user s path).2 ∧ (vfsRmdir heap m user s path).1 ≠ .ok) ∨
      ∃ p c t, Removes heap m user s path true p c t (vfsRmdir heap m user s path).2 ∧ ((vfsRmdir heap m user s path).1 = .ok ↔
          (capyfsRemove m (t.dentry p).inode (t.dentry c).name true t.fs).1.isSome = true) := by
  unfold vfsRmdir
  rcases found_cases hs path with ⟨t, h, hb⟩ | ⟨c, t1, h⟩
  · rw [h]
    exact .inl ⟨hb.setError _, failLastOr_error t nofun⟩
  · rw [h.resolve]
    simp only
    have hb1 := h.toBrowses
    split
    · exact .inl ⟨hb1.setError _, nofun⟩
    · cases hp : (t1.dentry c).parent with
      | none => exact .inl ⟨hb1.setError _, nofun⟩
      | some p =>
        obtain ⟨name, t0, hf, hc, hlive, hmem, hname, hne, -⟩ := h.parent hs hp
        simp only
        split
        · exact .inl ⟨hb1.setError _, nofun⟩
        · split
          · exact .inl ⟨hb1.setError _, nofun⟩
          · rename_i hperm
            have hstate := hasEntries_state (m := m) t1 c
            rcases hasEntries : vfsDirectoryHasEntries m t1 c with ⟨has, t⟩
            rw [hasEntries] at hstate
            have hb : Browses heap m t1 t := by
              rcases hstate with hst | hst
              · rw [show t = t1 from hst]
                exact .refl h.tree
              · rw [show t = t1.refresh m c from hst]
                exact Browses.refresh (.refl h.tree) h.live
            cases has with
            | true => exact .inl ⟨(hb1.trans hb).setError _, nofun⟩
            | false =>
              have hpn := h.tree.bound p hlive
              refine .inr ⟨p, c, t, ⟨⟨t1, h, hstate⟩, ⟨name, t0, hf, hc.trans hb.caches⟩,
                hb1.trans hb, ?_, hb.caches.children p hpn c hmem, ?_, ?_⟩, ?_⟩
              · rw [hb.caches.live p hpn]
                exact hlive
              · rw [(hb.caches.inode p hpn).permission]
                simpa using hperm
              · simp only
                generalize capyfsRemove m (t.dentry p).inode (t.dentry c).name true t.fs = q
                cases q.1 with
                | none =>
                  have hstate' := hasEntries_state (m := m) (setFs t q.2) c
                  simp only [Option.isNone_none, if_true]
                  rw [show ({ t with fs := q.2 } : Vfs) = setFs t q.2 from rfl]
                  generalize vfsDirectoryHasEntries m (setFs t q.2) c = w at hstate' ⊢
                  rcases w with ⟨has', u⟩
                  cases has' with
                  | true => exact .inl ⟨trivial, u, _, hstate', rfl⟩
                  | false => exact .inl ⟨trivial, u, _, hstate', rfl⟩
                | some _ => exact .inr ⟨rfl, rfl⟩
              · simp only
                generalize capyfsRemove m (t.dentry p).inode (t.dentry c).name true t.fs = q
                cases q.1 with
                | none =>
                  simp only [Option.isNone_none, if_true]
                  generalize vfsDirectoryHasEntries m { t with fs := q.2 } c = w
                  rcases w with ⟨has', u⟩
                  cases has' with
                  | true => exact ⟨nofun, nofun⟩
                  | false => exact ⟨nofun, nofun⟩
                | some _ => exact ⟨fun _ => rfl, fun _ => rfl⟩

def renamed (m : CapySuper) (t : Vfs) (fs : Fs) (sp dp : Nat) : Vfs :=
  if (t.dentry sp).inode.ino = (t.dentry dp).inode.ino then setFs t fs
  else ((setFs t fs).refresh m dp).refresh m sp

def moveInto (m : CapySuper) (user : Option User) (t : Vfs) (sp c dp : Nat) (dn : Name) :
    VfsError × Vfs :=
  if !inodeHasPermission user (t.dentry sp).inode vfsPermWrite ||
      !inodeHasPermission user (t.dentry dp).inode vfsPermWrite then
    t.fail .permissionDenied
  else
    let q := capyfsRenameInode m (t.dentry sp).inode (t.dentry c).name (t.dentry dp).inode dn t.fs
    if q.1.isNone then (setFs t q.2).fail .io
    else (dentryMove (renamed m t q.2 sp dp) sp (t.dentry c).name dp dn).done

theorem vfsRename_eq (user : Option User) (s : Vfs) (srcPath dstPath : Name) :
    vfsRename heap m user s srcPath dstPath =
      let rs := vfsResolve heap m (s.setError .ok) srcPath false
      let rd := vfsResolve heap m rs.2 dstPath true
      match rs.1.bind (fun r => (rs.2.dentry r.1).parent.map (fun p => (r.1, p))) with
      | none => rd.2.failLastOr .notFound
      | some (src, srcParent) =>
        match rd.1 with
        | none => rd.2.failLastOr .invalidPath
        | some (dstParent, dstName) =>
          if dstName.isEmpty then rd.2.failLastOr .invalidPath
          else
            let r := vfsResolve heap m rd.2 dstPath false
            let other := match r.1 with | none => false | some (d, _) => d != src
            if other then r.2.fail .alreadyExists
            else if r.1.isNone ∧ r.2.lastError ≠ .notFound then r.2.failLastOr .io
            else moveInto m user r.2 srcParent src dstParent dstName := rfl

structure Renames (heap : Heap) (m : CapySuper) (user : Option User) (s : Vfs) (srcPath dstPath : Name)
    (sp c dp : Nat) (dn : Name) (t : Vfs) (r : Vfs) : Prop where
  source : ∃ t0, Found heap m s srcPath c t0 ∧ (∃ t1, vfsResolve heap m t0 dstPath true =
    (some (dp, dn), t1) ∧ Caches t1 t)
  parent : ∃ name t0, FoundParent heap m s srcPath sp name t0 ∧ Caches t0 t
  browses : Browses heap m s t
  srcLive : t.live sp = true
  dstLive : t.live dp = true
  child : c ∈ (t.dentry sp).children
  name : dn ≠ []
  short : dn.length < vfsNameMax
  place : (dentryLookupChild t dp dn = none ∧
      (capyfsLookup heap m (t.dentry dp).inode dn t.fs).1 = none) ∨
    dentryLookupChild t dp dn = some c
  srcPermission : inodeHasPermission user (t.dentry sp).inode vfsPermWrite = true
  dstPermission : inodeHasPermission user (t.dentry dp).inode vfsPermWrite = true
  result : ((capyfsRenameInode m (t.dentry sp).inode (t.dentry c).name (t.dentry dp).inode dn
        t.fs).1 = none ∧
      r = (setFs t (capyfsRenameInode m (t.dentry sp).inode (t.dentry c).name (t.dentry dp).inode dn
        t.fs).2).setError .io) ∨
    ((capyfsRenameInode m (t.dentry sp).inode (t.dentry c).name (t.dentry dp).inode dn
        t.fs).1.isSome = true ∧
      r = (dentryMove (renamed m t (capyfsRenameInode m (t.dentry sp).inode (t.dentry c).name
        (t.dentry dp).inode dn t.fs).2 sp dp) sp (t.dentry c).name dp dn).setError .ok)

theorem rename_cases (hs : DentryTree s) (user : Option User) (srcPath dstPath : Name) :
    Browses heap m s (vfsRename heap m user s srcPath dstPath).2 ∨
      ∃ sp c dp dn t, Renames heap m user s srcPath dstPath sp c dp dn t (vfsRename heap m user s srcPath dstPath).2 := by
  rw [vfsRename_eq]
  simp only
  have htree := (SameLinks.setError s .ok).tree hs
  rcases found_cases hs srcPath with ⟨t, h, hb⟩ | ⟨c, t1, h⟩
  · rw [h]
    simp only [Option.bind_none]
    exact .inl ((hb.trans (resolve_browses heap m hb.tree dstPath true).1).setError _)
  · rw [h.resolve]
    simp only [Option.bind_some]
    obtain ⟨hbd, hl2⟩ := resolve_browses heap m h.tree dstPath true
    have hb1 := h.toBrowses
    rcases hdst : vfsResolve heap m t1 dstPath true with ⟨rd, t2⟩
    rw [hdst] at hbd hl2
    have hc2 : Caches t1 t2 := hbd.caches
    have ht2 : DentryTree t2 := hbd.tree
    have hb2 := hb1.trans hbd
    cases hp : (t1.dentry c).parent with
    | none => exact .inl (hb2.setError _)
    | some sp =>
      obtain ⟨name, t0, hf, hc, hlive, hmem, hname, -, -⟩ := h.parent hs hp
      simp only [Option.map_some]
      cases rd with
      | none => exact .inl (hb2.setError _)
      | some rd =>
        rcases rd with ⟨dp, dn⟩
        simp only
        split
        · exact .inl (hb2.setError _)
        · rename_i hempty
          have hdn : dn ≠ [] := by simpa using hempty
          have hshort : dn.length < vfsNameMax := by
            rcases resolve_last heap m hdst with ⟨-, -, h⟩ | ⟨-, h, -⟩
            · exact absurd h hdn
            · exact h
          have hdl := hl2 dp dn rfl
          have hdn2 := ht2.bound dp hdl
          have hcn : c < t2.next := ht2.bound c (by
            rw [hc2.live c (h.tree.bound c h.live)]
            exact h.live)
          have hagain : vfsResolve heap m t2 dstPath false = resolveLast heap m t2 dp dn := by
            rw [resolve_split, resolve_again heap m h.tree hdst ht2 (.refl t2)]
          rw [hagain]
          -- the destination is free, or it is the source itself
          have hlast : ∃ t, Browses heap m t2 t ∧
              ((∃ r, resolveLast heap m t2 dp dn = (some (r, []), t) ∧
                (r = c → dentryLookupChild t dp dn = some c)) ∨
              (resolveLast heap m t2 dp dn = (none, t) ∧ dentryLookupChild t dp dn = none ∧
                (t.lastError = .notFound →
                  (capyfsLookup heap m (t.dentry dp).inode dn t.fs).1 = none))) := by
            rcases resolveLast_cases heap m ht2 hdl hdn hshort with ⟨d, hd, h'⟩ |
              ⟨hnone, u, hl, hu, h', hnf⟩ | ⟨hnone, u, inode, hl, hu, h'⟩
            · exact ⟨t2, .refl ht2, .inl ⟨d, h', fun hdc => by rw [← hdc]; exact hd⟩⟩
            · refine ⟨u, hu, .inr ⟨h', ?_, hnf⟩⟩
              rw [hl.lookup]
              exact hnone
            · refine ⟨_, hu, .inl ⟨u.next, h', fun huc => ?_⟩⟩
              rw [hl.next] at huc
              exact absurd huc (Nat.ne_of_gt hcn)
          obtain ⟨t, hbt, hlast⟩ := hlast
          have hb : Browses heap m s t := hb2.trans hbt
          have hsp1 := h.tree.bound sp hlive
          have hct : Caches t1 t := hc2.trans hbt.caches
          have hmove : (dentryLookupChild t dp dn = none ∧
                (capyfsLookup heap m (t.dentry dp).inode dn t.fs).1 = none) ∨
              dentryLookupChild t dp dn = some c →
              Browses heap m s (moveInto m user t sp c dp dn).2 ∨ ∃ sp' c' dp' dn' t',
                Renames heap m user s srcPath dstPath sp' c' dp' dn' t' (moveInto m user t sp c dp dn).2 := by
            intro hplace
            unfold moveInto
            split
            · exact .inl (hb.setError _)
            · rename_i hperm
              simp only [Bool.or_eq_true, Bool.not_eq_true', not_or, Bool.not_eq_false] at hperm
              refine .inr ⟨sp, c, dp, dn, t, ⟨t1, h, t2, hdst, hbt.caches⟩,
                ⟨name, t0, hf, hc.trans hct⟩, hb, ?_, ?_, hct.children sp hsp1 c hmem, hdn, hshort,
                hplace, hperm.1, hperm.2, ?_⟩
              · rw [hct.live sp hsp1]
                exact hlive
              · rw [hbt.caches.live dp hdn2]
                exact hdl
              · generalize capyfsRenameInode m (t.dentry sp).inode (t.dentry c).name
                  (t.dentry dp).inode dn t.fs = q
                rcases q with ⟨_ | _, fs⟩
                · exact .inl ⟨rfl, rfl⟩
                · exact .inr ⟨rfl, rfl⟩
          rcases hlast with ⟨d, h', hdc⟩ | ⟨h', hnone, hnf⟩
          · rw [h']
            simp only
            by_cases heq : d = c
            · rw [if_neg (by simp [heq])]
              simp only [Option.isNone_some, Bool.false_eq_true, false_and, if_false]
              exact hmove (.inr (hdc heq))
            · rw [if_pos (by simp [heq])]
              exact .inl (hb.setError _)
          · rw [h']
            simp only [Bool.false_eq_true, if_false]
            split
            · exact .inl (hb.setError _)
            · rename_i herr
              refine hmove (.inl ⟨hnone, hnf ?_⟩)
              simpa using herr

theorem setMetadata_cases (hs : DentryTree s) (path : Name) (info : VfsMetadata) :
    Browses heap m s (vfsSetMetadata heap m s path info).2 ∨ ∃ d t, Found heap m s path d t ∧
        (((capyfsSetMetadata m (t.dentry d).inode info t.fs).1 = none ∧ (vfsSetMetadata heap m s path info).2 =
            ((setFs t (capyfsSetMetadata m (t.dentry d).inode info t.fs).2).release d).setError .io) ∨
        ∃ inode, (capyfsSetMetadata m (t.dentry d).inode info t.fs).1 = some inode ∧ (vfsSetMetadata heap m s path info).2 =
            (((setFs t (capyfsSetMetadata m (t.dentry d).inode info t.fs).2).setInode d inode).release d).setError .ok) := by
  unfold vfsSetMetadata
  rcases found_cases hs path with ⟨t, h, hb⟩ | ⟨d, t, h⟩
  · rw [h]
    exact .inl (hb.setError _)
  · rw [h.resolve]
    simp only
    refine .inr ⟨d, t, h, ?_⟩
    generalize capyfsSetMetadata m (t.dentry d).inode info t.fs = q
    cases q.1 with
    | none => exact .inl ⟨rfl, rfl⟩
    | some inode => exact .inr ⟨inode, rfl, rfl⟩

theorem cached_grows (ht : DentryTree t) (hlive : t.live p = true)
    (hlen : name.length < vfsNameMax) (hnew : dentryLookupChild t p name = none) (inode : VInode) :
    Grows t (cacheChild (t.refresh m p) p name inode) := by
  have hr := Grows.refresh (m := m) (.refl ht) p
  have hlinks := SameLinks.refresh m t p
  have hlive' := (congrFun hlinks.live p).trans hlive
  refine ⟨hr.caches.trans (.cache (hr.tree.bound p hlive') name inode), ?_⟩
  refine hr.tree.cache hlive' hlen ?_ inode
  rw [hlinks.lookup]
  exact hnew

section
variable {user : Option User} {path : Name} {isDir : Bool} {p c : Nat} {t r : Vfs}

theorem Removes.forgets (h : Removes heap m user s path isDir p c t r) (fs : Fs) : Forgets ((setFs t fs).refresh m p)
      (dentryForget ((setFs t fs).refresh m p) p (t.dentry c).name) p c := by
  have hlinks := (SameLinks.setFs t fs).trans (SameLinks.refresh m _ p)
  have hforget := (hlinks.tree h.browses.tree).forget (p := p) (c := c)
    ((congrFun hlinks.live p).trans h.live) (by rw [hlinks.children]; exact h.child)
  rw [hlinks.name] at hforget
  exact hforget

theorem Removes.links (h : Removes heap m user s path isDir p c t r) : ∃ t0, Found heap m s path c t0 ∧ SameLinks t0 t := by
  obtain ⟨t0, hf, rfl | rfl⟩ := h.found
  · exact ⟨t, hf, .refl t⟩
  · exact ⟨t0, hf, .refresh m t0 c⟩

theorem Removes.refused (h : Removes heap m user s path isDir p c t r)
    (hfail : (capyfsRemove m (t.dentry p).inode (t.dentry c).name isDir t.fs).1 = none) :
    Grows (setFs t (capyfsRemove m (t.dentry p).inode (t.dentry c).name isDir t.fs).2) r := by
  have htree := (SameLinks.setFs t
    (capyfsRemove m (t.dentry p).inode (t.dentry c).name isDir t.fs).2).tree h.browses.tree
  rcases h.result with ⟨-, u, e, rfl | rfl, rfl⟩ | ⟨hsome, -⟩
  · exact Grows.setError (.refl htree) e
  · exact (Grows.refresh (.refl htree) c).setError e
  · rw [hfail] at hsome
    cases hsome

end

theorem renamed_grows (ht : DentryTree t) (fs : Fs) (sp dp : Nat) :
    Grows (setFs t fs) (renamed m t fs sp dp) ∧ SameLinks t (renamed m t fs sp dp) := by
  have hl := SameLinks.setFs t fs
  unfold renamed
  split
  · exact ⟨.refl (hl.tree ht), hl⟩
  · refine ⟨Grows.refresh (Grows.refresh (.refl (hl.tree ht)) dp) sp, ?_⟩
    exact hl.trans ((SameLinks.refresh m _ dp).trans (SameLinks.refresh m _ sp))

theorem Renames.relinks {user : Option User} {s : Vfs} {srcPath dstPath : Name} {sp c dp : Nat}
    {dn : Name} {t r u : Vfs} (h : Renames heap m user s srcPath dstPath sp c dp dn t r)
    (hu : DentryTree u) (hl : SameLinks t u) : Relinks u (dentryMove u sp (t.dentry c).name dp dn) sp c dp dn := by
  have hsp := (congrFun hl.live sp).trans h.srcLive
  have hdp := (congrFun hl.live dp).trans h.dstLive
  have hchild : c ∈ (u.dentry sp).children := by
    rw [hl.children]
    exact h.child
  rw [← hl.name c]
  refine hu.move hsp hdp hchild h.short (fun x hx hn => ?_)
  have hfind := hu.lookup hdp hx
  rw [hn, hl.lookup] at hfind
  rcases h.place with ⟨hplace, -⟩ | hplace
  · rw [hplace] at hfind
    cases hfind
  · rw [hplace] at hfind
    exact (Option.some.inj hfind).symm

end CapyOS.Proofs
