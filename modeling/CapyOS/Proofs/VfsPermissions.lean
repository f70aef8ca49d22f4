import CapyOS.Proofs.VfsCounts

namespace CapyOS.Proofs
open Lib FsM Function
variable {user : Option User} {inode : VInode} {isDir : Bool} {t : Vfs} {path : Name} {p c : Nat}
variable {x : File} {d : Nat} {f : Nat}

section
variable {α β : Type}

def Returns (x : FsM α) (Q : α → Prop) : Prop := ∀ s a, (x s).1 = some a → Q a

theorem Returns.pure {Q : α → Prop} {a : α} (h : Q a) : Returns (pure a : FsM α) Q := by
  intro s b hb
  cases hb
  exact h

theorem Returns.fail {Q : α → Prop} : Returns (fail : FsM α) Q := nofun

theorem Returns.bind {Q : β → Prop} {x : FsM α} {f : α → FsM β} (h : ∀ a, Returns (f a) Q) : Returns (x >>= f) Q := by
  intro s b hb
  rcases hr : x s with ⟨a, t⟩
  cases a with
  | none =>
    rw [bind_none hr] at hb
    cases hb
  | some a =>
    rw [bind_some hr] at hb
    exact h a t b hb

theorem Returns.ite {Q : α → Prop} {p : Prop} [Decidable p] {x y : FsM α} (hx : Returns x Q)
    (hy : Returns y Q) : Returns (if p then x else y) Q := by
  split
  · exact hx
  · exact hy

end

section
variable (m : CapySuper)

theorem read_inode (inode : VInode) (pos size : Nat) :
    Returns (capyfsRead m inode pos size) (fun r => SameInode inode r.2) := by
  refine .ite (.pure rfl) (.ite .fail (.bind fun x => .ite (.pure rfl) (.bind fun b => .pure rfl)))

theorem write_inode (inode : VInode) (pos : Nat) (src : Bytes) (size : Nat) :
    Returns (capyfsWrite m inode pos src size) (fun r => SameInode inode r.2) := by
  refine .ite (.pure rfl) (.ite .fail (.bind fun x => .bind fun r => ?_))
  exact .ite (.bind fun stored => .ite (.pure rfl) (.pure rfl)) (.pure rfl)

theorem setMetadata_inode (inode : VInode) (info : VfsMetadata) :
    Returns (capyfsSetMetadata m inode info) (fun r => r.ino = inode.ino) :=
  .bind fun _ => .bind fun _ => .pure rfl

end

def Checked (s : VfsSession) (f : Nat) (flag : BitVec 32) (needed : BitVec 16) : Prop :=
  ∃ x o, s.vfs.file f = some x ∧ s.opening f = some o ∧
    o.inode.ino = (s.vfs.dentry x.dentry).inode.ino ∧ o.flags &&& flag ≠ 0 ∧
    inodeHasPermission o.user o.inode needed = true

/-- The disk is as it was, and so are owners and permissions of cached inodes. -/
structure Untouched (s t : Vfs) : Prop where
  fs : t.fs = s.fs
  inode : ∀ d, d < s.next → (t.dentry d).inode.uid = (s.dentry d).inode.uid ∧
    (t.dentry d).inode.gid = (s.dentry d).inode.gid ∧ (t.dentry d).inode.perm = (s.dentry d).inode.perm

def parentInode (heap : Heap) (m : CapySuper) (s : Vfs) (path : Name) : Option VInode :=
  (vfsResolve heap m s path true).1.map fun r =>
    ((vfsResolve heap m s path true).2.dentry r.1).inode

def mayWriteParent (heap : Heap) (m : CapySuper) (s : Vfs) (path : Name) (user : Option User) : Prop :=
  ∃ dir, parentInode heap m s path = some dir ∧ inodeHasPermission user dir vfsPermWrite = true

/-- The user owns the inode at a path. -/
def ownsPath (heap : Heap) (m : CapySuper) (s : Vfs) (path : Name) (user : Option User) : Prop :=
  ∃ d t u, vfsResolve heap m s path false = (some (d, []), t) ∧ user = some u ∧
    u.uid = (t.dentry d).inode.uid

def Permitted (m : CapySuper) (s : VfsSession) (x : VfsStep) : Prop :=
  match x.call with
  | .read f size => ∀ bytes, (vfsRead m s.vfs f size).1 = some bytes → bytes ≠ [] →
      Checked s f vfsOpenRead vfsPermRead
  | .write f src size => (vfsWrite m s.vfs f src size).2.fs ≠ s.vfs.fs →
      Checked s f vfsOpenWrite vfsPermWrite
  | .create path _ _ | .unlink path | .rmdir path => Untouched s.vfs (x.run m s).vfs ∨
      mayWriteParent x.heap m (s.vfs.setError .ok) path x.user
  | .rename srcPath dstPath => Untouched s.vfs (x.run m s).vfs ∨
      (mayWriteParent x.heap m (s.vfs.setError .ok) srcPath x.user ∧
        mayWriteParent x.heap m (vfsResolve x.heap m (s.vfs.setError .ok) srcPath false).2 dstPath
          x.user)
  | .setMetadata path _ => Untouched s.vfs (x.run m s).vfs ∨
      ownsPath x.heap m (s.vfs.setError .ok) path x.user
  | _ => Untouched s.vfs (x.run m s).vfs

def Lawful (m : CapySuper) (s : VfsSession) (x : VfsStep) : Prop :=
  match x.call with
  | .put d => s.vfs.live d = true
  | .close f => ∀ y, s.vfs.file f = some y → s.vfs.live y.dentry = true
  | .write f _ _ => ∀ y, s.vfs.file f = some y → s.vfs.live y.dentry = true
  | .read f _ => ∀ y, s.vfs.file f = some y →
      s.vfs.live y.dentry = true ∧ y.flags &&& vfsOpenRead ≠ 0
  | .setMetadata path _ => ∀ d t u,
      vfsResolve x.heap m (s.vfs.setError .ok) path false = (some (d, []), t) → x.user = some u →
      u.uid = 0 ∨ u.uid = (t.dentry d).inode.uid
  | _ => True

structure Opened (s : VfsSession) : Prop where
  tree : DentryTree s.vfs
  bound : ∀ f x, s.vfs.file f = some x → f < s.vfs.nextFile ∧ x.dentry < s.vfs.next
  log : ∀ f x, s.vfs.file f = some x → ∃ o, s.opening f = some o ∧ o.flags = x.flags ∧
    o.inode.ino = (s.vfs.dentry x.dentry).inode.ino ∧
    (o.flags &&& vfsOpenRead ≠ 0 → inodeHasPermission o.user o.inode vfsPermRead = true) ∧
    (o.flags &&& vfsOpenWrite ≠ 0 → inodeHasPermission o.user o.inode vfsPermWrite = true)

section
variable {s : VfsSession}

theorem Opened.keep (hs : Opened s) (held : List Nat) (ht : DentryTree t)
    (hn : t.nextFile = s.vfs.nextFile) (hnext : s.vfs.next ≤ t.next) (hf : ∀ f y, t.file f = some y →
      ∃ x, s.vfs.file f = some x ∧ y.dentry = x.dentry ∧ y.flags = x.flags)
    (hino : ∀ d, d < s.vfs.next → (t.dentry d).inode.ino = (s.vfs.dentry d).inode.ino) :
    Opened { s with vfs := t, held := held } := by
  refine ⟨ht, fun f y hy => ?_, fun f y hy => ?_⟩
  · obtain ⟨x, hx, hd, -⟩ := hf f y hy
    obtain ⟨h1, h2⟩ := hs.bound f x hx
    rw [hd]
    exact ⟨h1.trans_eq hn.symm, Nat.lt_of_lt_of_le h2 hnext⟩
  · obtain ⟨x, hx, hd, hfl⟩ := hf f y hy
    obtain ⟨o, ho, hflags, hsame, hr, hw⟩ := hs.log f x hx
    refine ⟨o, ho, hflags.trans hfl.symm, ?_, hr, hw⟩
    rw [hd, hino x.dentry (hs.bound f x hx).2]
    exact hsame

theorem Opened.grows (hs : Opened s) (held : List Nat) (h : Grows s.vfs t) :
    Opened { s with vfs := t, held := held } :=
  hs.keep held h.tree h.caches.nextFile h.caches.next
    (fun f y hy => ⟨y, by rw [← h.caches.file]; exact hy, rfl, rfl⟩)
    (fun d hd => (h.caches.inode d hd).ino)

/-- A step that leaves links, files and inode numbers alone. -/
theorem Opened.links (hs : Opened s) (held : List Nat) (h : SameLinks s.vfs t)
    (hn : t.nextFile = s.vfs.nextFile) (hf : t.file = s.vfs.file)
    (hino : ∀ d, (t.dentry d).inode.ino = (s.vfs.dentry d).inode.ino) : Opened { s with vfs := t, held := held } :=
  hs.keep held (h.tree hs.tree) hn (Nat.le_of_eq h.next.symm)
    (fun f y hy => ⟨y, by rw [← hf]; exact hy, rfl, rfl⟩) (fun d _ => hino d)

end

section
variable {heap : Heap} {m : CapySuper} {s : VfsSession}

theorem Opened.setFs (hs : Opened s) (fs : Fs) : Opened { s with vfs := setFs s.vfs fs } :=
  hs.links s.held (.setFs s.vfs fs) rfl rfl (fun _ => rfl)

theorem setInode_ino {v : Vfs} (h : inode.ino = (v.dentry d).inode.ino)
    (e : Nat) : ((v.setInode d inode).dentry e).inode.ino = (v.dentry e).inode.ino := by
  unfold Vfs.setInode
  rw [setDentry_dentry]
  split
  · rename_i he
    rw [he]
    exact h
  · rfl

theorem Opened.setInode (hs : Opened s)
    (h : inode.ino = (s.vfs.dentry d).inode.ino) : Opened { s with vfs := s.vfs.setInode d inode } :=
  hs.links s.held (.setDentry s.vfs d inode _) rfl rfl (setInode_ino h)

theorem retain_inode (v : Vfs) (d e : Nat) : ((v.retain d).dentry e).inode = (v.dentry e).inode := by
  unfold Vfs.retain
  rw [setDentry_dentry]
  split
  · rename_i he
    rw [he]
  · rfl

theorem release_same (v : Vfs) (d : Nat) : (v.release d).file = v.file ∧
    (v.release d).nextFile = v.nextFile ∧ (v.release d).fs = v.fs ∧
    ∀ e, ((v.release d).dentry e).inode = (v.dentry e).inode := by
  unfold Vfs.release
  split
  · exact ⟨rfl, rfl, rfl, fun _ => rfl⟩
  · refine ⟨rfl, rfl, rfl, fun e => ?_⟩
    rw [setDentry_dentry]
    split
    · rename_i he
      rw [he]
    · rfl

theorem Opened.release (hs : Opened s) (held : List Nat) (d : Nat) :
    Opened { s with vfs := s.vfs.release d, held := held } := by
  obtain ⟨hf, hn, -, hi⟩ := release_same s.vfs d
  exact hs.links held (.release s.vfs d) hn hf (fun e => congrArg VInode.ino (hi e))

theorem Opened.setFile (hs : Opened s) (hx : s.vfs.file f = some x)
    {y : Option File} (hy : ∀ z ∈ y, z.dentry = x.dentry ∧ z.flags = x.flags) : Opened { s with vfs := s.vfs.setFile f y } := by
  refine hs.keep s.held ⟨hs.tree.root, hs.tree.bound, hs.tree.child, hs.tree.nodup, hs.tree.names⟩ rfl
    (Nat.le_refl _) (fun g z hz => ?_) (fun _ _ => rfl)
  by_cases hg : g = f
  · rw [hg] at hz ⊢
    have hzy : y = some z := by simpa [Vfs.setFile] using hz
    exact ⟨x, hx, hy z hzy⟩
  · exact ⟨z, by simpa [Vfs.setFile, hg] using hz, rfl, rfl⟩

theorem lookup_opened (hs : Opened s) (path : Name) (held : List Nat) :
    Opened { s with vfs := (vfsLookup heap m s.vfs path).2, held := held } := by
  rcases @lookup_cases heap m _ hs.tree path with ⟨t, h, hb⟩ | ⟨d, t, hf, h⟩
  · rw [h]
    exact hs.grows held hb.toGrows
  · rw [h]
    refine (hs.grows held hf.toGrows).links held ((SameLinks.retain t d).trans (.setError _ _)) rfl rfl
      (fun e => ?_)
    exact congrArg VInode.ino (retain_inode t d e)

theorem open_opened (hs : Opened s) (user : Option User) (path : Name) (flags : BitVec 32) :
    Opened (VfsStep.run m s ⟨heap, user, .open path flags⟩) := by
  unfold VfsStep.run
  simp only
  rcases @open_cases heap m _ hs.tree user path flags with ⟨t, h, hb⟩ |
    ⟨d, t, hf, openFlags, hread, hwrite, h⟩
  · rw [h]
    exact hs.grows s.held hb.toGrows
  · rw [h]
    simp only
    have ht := hs.grows s.held hf.toGrows
    have hfile := openFile_file t d openFlags
    have hinode := openFile_inode t d openFlags
    have hnew : s.vfs.nextFile = t.nextFile := hf.caches.nextFile.symm
    have hdn := hf.tree.bound d hf.live
    refine ⟨((SameLinks.openFile t d openFlags).trans (.setError _ .ok)).tree hf.tree, fun f x hx => ?_, fun f x hx => ?_⟩
    · rw [setError_file, hfile] at hx
      by_cases hfn : f = t.nextFile
      · rw [hfn, update_self] at hx
        cases hx
        rw [hfn]
        exact ⟨Nat.lt_succ_self _, hdn⟩
      · rw [update_of_ne hfn] at hx
        exact ⟨Nat.lt_succ_of_lt (ht.bound f x hx).1, (ht.bound f x hx).2⟩
    · rw [setError_file, hfile] at hx
      simp only [setError_dentry, setError_file, hinode, hnew, hfile, update_self]
      by_cases hfn : f = t.nextFile
      · rw [hfn, update_self] at hx
        cases hx
        exact ⟨⟨user, (t.dentry d).inode, openFlags⟩, by rw [hfn, update_self]; rfl, rfl, rfl, hread, hwrite⟩
      · rw [update_of_ne hfn] at hx
        simp only [update_of_ne hfn]
        exact ht.log f x hx

theorem close_opened (hs : Opened s) (f : Nat) : Opened { s with vfs := vfsClose s.vfs f } := by
  unfold vfsClose
  cases hf : s.vfs.file f with
  | none => exact hs
  | some x =>
    refine (hs.release s.held x.dentry).setFile (x := x) ?_ nofun
    exact (congrFun (release_same s.vfs x.dentry).1 f).trans hf

theorem read_opened (hs : Opened s) (f size : Nat) : Opened { s with vfs := (vfsRead m s.vfs f size).2 } := by
  unfold vfsRead
  cases hf : s.vfs.file f with
  | none => exact hs
  | some x =>
    simp only
    have hino := read_inode m (s.vfs.dentry x.dentry).inode x.position.toNat size s.vfs.fs
    generalize capyfsRead m (s.vfs.dentry x.dentry).inode x.position.toNat size s.vfs.fs = r at hino
    cases hr : r.1 with
    | none => exact hs.setFs r.2
    | some b =>
      refine ((hs.setFs r.2).setInode (d := x.dentry) (hino b hr).ino).setFile hf ?_
      rintro z ⟨⟩
      exact ⟨rfl, rfl⟩

theorem write_opened (hs : Opened s) (f : Nat) (src : Bytes) (size : Nat) :
    Opened { s with vfs := (vfsWrite m s.vfs f src size).2 } := by
  unfold vfsWrite
  cases hf : s.vfs.file f with
  | none => exact hs
  | some x =>
    simp only
    split
    · exact hs
    · have hino := write_inode m (s.vfs.dentry x.dentry).inode x.position.toNat src size s.vfs.fs
      generalize capyfsWrite m (s.vfs.dentry x.dentry).inode x.position.toNat src size s.vfs.fs = r at hino
      cases hr : r.1 with
      | none => exact hs.setFs r.2
      | some b =>
        refine ((hs.setFs r.2).setInode (d := x.dentry) (hino b hr).ino).setFile hf ?_
        rintro z ⟨⟩
        exact ⟨rfl, rfl⟩

theorem Opened.setError (hs : Opened s) (e : VfsError) : Opened { s with vfs := s.vfs.setError e } :=
  hs.grows s.held (Grows.setError (.refl hs.tree) e)

theorem create_opened (hs : Opened s) (user : Option User) (path : Name) (mode : BitVec 16) (info : Option VfsMetadata) :
    Opened { s with vfs := (vfsCreate heap m user s.vfs path mode info).2 } := by
  rcases @create_cases heap m _ hs.tree user path mode info with h | ⟨p, name, t0, t, -, -, hb, hlive,
    -, hlen, hnew, -, info', ⟨-, h⟩ | ⟨inode, -, ⟨-, h⟩ | ⟨-, h⟩⟩⟩
  · exact hs.grows s.held h.toGrows
  all_goals
    rw [h]
    have ht := (hs.grows s.held hb.toGrows).setFs
      (capyfsCreate heap m (t.dentry p).inode name mode (some info') t.fs).2
  · exact ht.setError .io
  · exact ht.grows s.held ((Grows.refresh (.refl ht.tree) p).setError _)
  · exact ht.grows s.held ((cached_grows ht.tree hlive hlen hnew inode).setError _)

theorem Removes.opened {t r : Vfs}
    (hs : Opened s) (h : Removes heap m user s.vfs path isDir p c t r) : Opened { s with vfs := r } := by
  have ht := (hs.grows s.held h.browses.toGrows).setFs
    (capyfsRemove m (t.dentry p).inode (t.dentry c).name isDir t.fs).2
  rcases h.result with ⟨hfail, -⟩ | ⟨-, hr⟩
  · exact ht.grows s.held (h.refused hfail)
  · rw [hr]
    have hr' := Grows.refresh (m := m) (.refl ht.tree) p
    have hforget := h.forgets (capyfsRemove m (t.dentry p).inode (t.dentry c).name isDir t.fs).2
    refine Opened.setError ((ht.grows s.held hr').keep s.held hforget.tree hforget.nextFile
      (Nat.le_of_eq hforget.next.symm) (fun f y hy => ⟨y, ?_, rfl, rfl⟩) (fun d _ => ?_)) .ok
    · rw [← hforget.file]
      exact hy
    · rw [hforget.dentry d]
      split <;> rfl

theorem rename_opened (hs : Opened s) (user : Option User) (srcPath dstPath : Name) :
    Opened { s with vfs := (vfsRename heap m user s.vfs srcPath dstPath).2 } := by
  rcases @rename_cases heap m _ hs.tree user srcPath dstPath with h | ⟨sp, c, dp, dn, t, h⟩
  · exact hs.grows s.held h.toGrows
  · have ht := hs.grows s.held h.browses.toGrows
    rcases h.result with ⟨-, hr⟩ | ⟨-, hr⟩
    · rw [hr]
      exact (ht.setFs _).setError .io
    · rw [hr]
      generalize (capyfsRenameInode m (t.dentry sp).inode (t.dentry c).name (t.dentry dp).inode dn
        t.fs).2 = fs
      obtain ⟨hb, hl⟩ := renamed_grows (m := m) h.browses.tree fs sp dp
      have hmove := h.relinks hb.tree hl
      refine Opened.setError (((ht.setFs fs).grows s.held hb).keep s.held hmove.tree hmove.nextFile
        (Nat.le_of_eq hmove.next.symm) (fun f y hy => ⟨y, ?_, rfl, rfl⟩)
        (fun d _ => congrArg VInode.ino (hmove.inode d))) .ok
      rw [← hmove.file]
      exact hy

theorem setMetadata_opened (hs : Opened s) (path : Name) (info : VfsMetadata) :
    Opened { s with vfs := (vfsSetMetadata heap m s.vfs path info).2 } := by
  rcases @setMetadata_cases heap m _ hs.tree path info with h | ⟨d, t, hf, ⟨-, h⟩ | ⟨inode, hi, h⟩⟩
  · exact hs.grows s.held h.toGrows
  · rw [h]
    exact (((hs.grows s.held hf.toGrows).setFs _).release s.held d).setError .io
  · rw [h]
    have hino := setMetadata_inode m (t.dentry d).inode info t.fs inode hi
    refine (Opened.release (Opened.setInode ((hs.grows s.held hf.toGrows).setFs _) ?_) s.held d).setError
      .ok
    exact hino

theorem step_opened (hs : Opened s) (x : VfsStep) : Opened (x.run m s) := by
  rcases x with ⟨heap, user, call⟩
  cases call with
  | lookup path => exact lookup_opened hs path _
  | put d =>
    simp only [VfsStep.run]
    split
    · exact hs.release _ d
    · exact hs
  | create path mode info => exact create_opened hs user path mode info
  | «open» path flags => exact open_opened hs user path flags
  | close f => exact close_opened hs f
  | read f size => exact read_opened hs f size
  | write f src size => exact write_opened hs f src size
  | listdir path cb => exact hs.grows s.held (listdir_browses hs.tree user path cb).toGrows
  | unlink path =>
    rcases @unlink_cases heap m _ hs.tree user path with ⟨h, -⟩ | ⟨p, c, t, h, -⟩
    · exact hs.grows s.held h.toGrows
    · exact h.opened hs
  | rmdir path =>
    rcases @rmdir_cases heap m _ hs.tree user path with ⟨h, -⟩ | ⟨p, c, t, h, -⟩
    · exact hs.grows s.held h.toGrows
    · exact h.opened hs
  | rename srcPath dstPath => exact rename_opened hs user srcPath dstPath
  | statPath path => exact hs.grows s.held (statPath_browses hs.tree user path).toGrows
  | setMetadata path info => exact setMetadata_opened hs path info

theorem run_opened {ok : VfsSession → VfsStep → Prop} {fs : Fs} {root : VInode}
    (h : VfsReachable m (startSession fs root) ok s) : Opened s := by
  induction h with
  | start => exact ⟨dentryTree_mount fs root, nofun, nofun⟩
  | step _ _ ih => exact step_opened ih _

theorem Grows.untouched {s t : Vfs} (h : Grows s t) : Untouched s t := by
  refine ⟨h.caches.fs, fun d hd => ?_⟩
  have hi := h.caches.inode d hd
  unfold SameInode at hi
  rw [← hi]
  exact ⟨rfl, rfl, rfl⟩

/-- The parent that a call found, as it was when it was found. -/
theorem parent_permission {v t0 t : Vfs} {path name : Name} {p : Nat}
    (hr : vfsResolve heap m v path true = (some (p, name), t0)) (hp : p < t0.next)
    (hc : Caches t0 t) (h : inodeHasPermission user (t.dentry p).inode vfsPermWrite = true) :
    mayWriteParent heap m v path user := by
  refine ⟨(t0.dentry p).inode, ?_, ?_⟩
  · unfold parentInode
    rw [hr]
    rfl
  · rw [← (hc.inode p hp).permission]
    exact h

theorem Opened.checked (hs : Opened s) (hx : s.vfs.file f = some x) :
    (x.flags &&& vfsOpenRead ≠ 0 → Checked s f vfsOpenRead vfsPermRead) ∧
      (x.flags &&& vfsOpenWrite ≠ 0 → Checked s f vfsOpenWrite vfsPermWrite) := by
  obtain ⟨o, ho, hflags, hino, hr, hw⟩ := hs.log f x hx
  rw [← hflags]
  exact ⟨fun h => ⟨x, o, hx, ho, hino, h, hr h⟩, fun h => ⟨x, o, hx, ho, hino, h, hw h⟩⟩

theorem read_permitted (hs : Opened s) (f size : Nat)
    (hx : ∀ y, s.vfs.file f = some y → y.flags &&& vfsOpenRead ≠ 0) {bytes : List Byte}
    (h : (vfsRead m s.vfs f size).1 = some bytes) : Checked s f vfsOpenRead vfsPermRead := by
  unfold vfsRead at h
  cases hf : s.vfs.file f with
  | none =>
    rw [hf] at h
    cases h
  | some x => exact (hs.checked hf).1 (hx x hf)

theorem write_permitted (hs : Opened s) (f : Nat) (src : Bytes) (size : Nat)
    (h : (vfsWrite m s.vfs f src size).2.fs ≠ s.vfs.fs) : Checked s f vfsOpenWrite vfsPermWrite := by
  unfold vfsWrite at h
  cases hf : s.vfs.file f with
  | none =>
    rw [hf] at h
    exact absurd rfl h
  | some x =>
    rw [hf] at h
    simp only at h
    split at h
    · exact absurd rfl h
    · rename_i hflag
      exact (hs.checked hf).2 hflag

theorem Removes.permitted {s : Vfs}
    {t r : Vfs} (h : Removes heap m user s path isDir p c t r) : mayWriteParent heap m (s.setError .ok) path user := by
  obtain ⟨name, t0, hf, hc⟩ := h.parent
  exact parent_permission hf.resolve (hf.tree.bound p hf.live) hc h.permission

theorem Untouched.refl (v : Vfs) : Untouched v v := ⟨rfl, fun _ _ => ⟨rfl, rfl, rfl⟩⟩

theorem step_permitted (hs : Opened s) (x : VfsStep) {u : User} (hu : x.user = some u)
    (h0 : u.uid ≠ 0) (hx : Lawful m s x) : Permitted m s x := by
  rcases x with ⟨heap, user, call⟩
  cases call with
  | lookup path =>
    show Untouched s.vfs (vfsLookup heap m s.vfs path).2
    rcases @lookup_cases heap m _ hs.tree path with ⟨t, h, hb⟩ | ⟨d, t, hf, h⟩
    · rw [h]
      exact hb.toGrows.untouched
    · rw [h]
      refine ⟨hf.caches.fs, fun e he => ?_⟩
      simp only [setError_dentry, retain_inode]
      exact hf.toGrows.untouched.inode e he
  | put d =>
    show Untouched s.vfs _
    simp only [VfsStep.run]
    split
    · obtain ⟨-, -, hfs, hi⟩ := release_same s.vfs d
      refine ⟨hfs, fun e _ => ?_⟩
      rw [hi]
      exact ⟨rfl, rfl, rfl⟩
    · exact .refl _
  | create path mode info =>
    rcases @create_cases heap m _ hs.tree user path mode info with h | ⟨p, name, t0, t, hf, hc, -, -, -, -, -, hperm, -⟩
    · exact .inl h.toGrows.untouched
    · exact .inr (parent_permission hf.resolve (hf.tree.bound p hf.live) hc hperm)
  | «open» path flags =>
    show Untouched s.vfs (vfsOpen heap m user s.vfs path flags).2
    rcases @open_cases heap m _ hs.tree user path flags with ⟨t, h, hb⟩ | ⟨d, t, hf, openFlags, -, -, h⟩
    · rw [h]
      exact hb.toGrows.untouched
    · rw [h]
      refine ⟨hf.caches.fs, fun e he => ?_⟩
      simp only [setError_dentry, openFile_inode]
      exact hf.toGrows.untouched.inode e he
  | close f =>
    show Untouched s.vfs (vfsClose s.vfs f)
    unfold vfsClose
    cases hf : s.vfs.file f with
    | none => exact .refl _
    | some y =>
      obtain ⟨-, -, hfs, hi⟩ := release_same s.vfs y.dentry
      refine ⟨hfs, fun e _ => ?_⟩
      simp only [Vfs.setFile, hi]
      exact ⟨trivial, trivial, trivial⟩
  | read f size => exact fun bytes h _ => read_permitted hs f size (fun y hy => (hx y hy).2) h
  | write f src size => exact write_permitted hs f src size
  | listdir path cb => exact (listdir_browses hs.tree user path cb).toGrows.untouched
  | unlink path =>
    rcases @unlink_cases heap m _ hs.tree user path with ⟨h, -⟩ | ⟨p, c, t, h, -⟩
    · exact .inl h.toGrows.untouched
    · exact .inr h.permitted
  | rmdir path =>
    rcases @rmdir_cases heap m _ hs.tree user path with ⟨h, -⟩ | ⟨p, c, t, h, -⟩
    · exact .inl h.toGrows.untouched
    · exact .inr h.permitted
  | rename srcPath dstPath =>
    rcases @rename_cases heap m _ hs.tree user srcPath dstPath with h | ⟨sp, c, dp, dn, t, h⟩
    · exact .inl h.toGrows.untouched
    · obtain ⟨name, t0, hf, hc⟩ := h.parent
      obtain ⟨t1, hsrc, t2, hdst, hc2⟩ := h.source
      refine .inr ⟨parent_permission hf.resolve (hf.tree.bound sp hf.live) hc h.srcPermission, ?_⟩
      have hrs : (vfsResolve heap m (s.vfs.setError .ok) srcPath false).2 = t1 := by rw [hsrc.resolve]
      obtain ⟨hb2, hl2⟩ := resolve_browses heap m hsrc.tree dstPath true
      rw [hdst] at hb2 hl2
      show mayWriteParent heap m (vfsResolve heap m (s.vfs.setError .ok) srcPath false).2 dstPath user
      rw [hrs]
      exact parent_permission hdst (hb2.tree.bound dp (hl2 dp dn rfl)) hc2 h.dstPermission
  | statPath path => exact (statPath_browses hs.tree user path).toGrows.untouched
  | setMetadata path info =>
    rcases @setMetadata_cases heap m _ hs.tree path info with h | ⟨d, t, hf, -⟩
    · exact .inl h.toGrows.untouched
    · rcases hx d t u hf.resolve hu with hroot | howns
      · exact absurd hroot h0
      · exact .inr ⟨d, t, u, hf.resolve, hu, howns⟩

end

/-- In a run of lawful steps, a user other than root reads and writes through
handles that were checked, changes directories that he may write, and sets the
metadata of what he owns. -/
theorem lawful_run_permitted (m : CapySuper) (fs : Fs) (root : VInode) (s : VfsSession)
    (h : VfsReachable m (startSession fs root) (Lawful m) s) (x : VfsStep) (hx : Lawful m s x)
    (u : User) (hu : x.user = some u) (h0 : u.uid ≠ 0) :
    Permitted m s x :=
  step_permitted (run_opened h) x hu h0 hx

def plainUser : User := ⟨1000, 1000⟩

theorem plainUser_permitted :
    Lawful smallSuper rootOpened ⟨ampleHeap, some plainUser, .read 0 16⟩ ∧
      Permitted smallSuper smallSession
        ⟨ampleHeap, some plainUser, .create [slash, 97#8] vfsModeFile none⟩ ∧
      Permitted smallSuper rootOpened ⟨ampleHeap, some plainUser, .read 0 16⟩ := by
  have hread : Lawful smallSuper rootOpened ⟨ampleHeap, some plainUser, .read 0 16⟩ := by
    intro y hy
    have hfile : rootOpened.vfs.file 0 = some ⟨0, 0, vfsOpenRead⟩ := rfl
    rw [hfile] at hy
    cases hy
    exact ⟨rfl, by decide⟩
  have hreach : VfsReachable smallSuper smallSession (Lawful smallSuper) rootOpened :=
    .step (.step .start trivial) trivial
  exact ⟨hread,
    lawful_run_permitted smallSuper _ _ smallSession .start _ trivial plainUser rfl (by decide),
    lawful_run_permitted smallSuper _ _ rootOpened hreach _ hread plainUser rfl (by decide)⟩

/-- Anybody can make the root directory his own. -/
theorem setMetadata_unchecked :
    VfsReachable smallSuper smallSession (fun _ _ => True) smallSession ∧ plainUser.uid ≠ 0 ∧
      ¬ Permitted smallSuper smallSession
        ⟨ampleHeap, some plainUser, .setMetadata [slash] ⟨1000, 1000, 0o777⟩⟩ := by
  refine ⟨.start, by decide, ?_⟩
  rintro (h | ⟨d, t, u, hr, hu, howns⟩)
  · have hroot := (h.inode 0 (by decide)).1
    revert hroot
    decide
  · cases hu
    have hres : vfsResolve ampleHeap smallSuper (smallSession.vfs.setError .ok) [slash] false =
      (some (0, []), smallSession.vfs.setError .ok) := rfl
    rw [hres] at hr
    cases hr
    revert howns
    decide

end CapyOS.Proofs
