import CapyOS.Proofs.VfsMirror

namespace CapyOS.Proofs
open Lib FsM Volume List
variable {heap : Heap} {d : Nat} {fs : Fs}

/-- A mounted volume in order, and a cache that mirrors it. -/
structure Mounted (m : CapySuper) (s : Vfs) : Prop where
  carries : Carries m s.fs.dev
  safe : (volumeOf m s.fs.dev).Safe
  mirrors : Mirrors (volumeOf m s.fs.dev) s

section
variable {m : CapySuper} {s t : Vfs}

theorem Mounted.congr (hs : Mounted m s) (hl : SameLinks s t) (hfs : t.fs = s.fs)
    (hi : ∀ d, (t.dentry d).inode = (s.dentry d).inode) : Mounted m t := by
  refine ⟨?_, ?_, ?_⟩
  all_goals rw [hfs]
  · exact hs.carries
  · exact hs.safe
  · exact hs.mirrors.congr hl hi

theorem resized_eq {w : Volume} (h : (s.dentry d).inode.size =
    (w.inode (s.dentry d).inode.ino).size) : resized w s d = s := by
  unfold resized Vfs.setInode Vfs.setDentry
  rw [← h, Function.update_eq_self]

theorem refresh_eq (hc : Carries m s.fs.dev) (hd : (volumeOf m s.fs.dev).imap (s.dentry d).inode.ino = true) :
    s.refresh m d = resized (volumeOf m s.fs.dev) s d := by
  have hi := (volumeOf_bounded m s.fs.dev).inodes _ hd
  have hread := (readInode_does hi) s.fs hc rfl
  unfold Vfs.refresh refreshSize
  rw [bind_some (attempt_apply _ _), hread.2.1]
  rfl

theorem Mounted.refresh_same (hs : Mounted m s) (hd : s.live d = true) : s.refresh m d = s := by
  have ha := hs.mirrors.agrees d hd
  rw [refresh_eq hs.carries ha.live]
  exact resized_eq ha.size

theorem Mounted.lookup (hs : Mounted m s) (hd : s.live d = true) (name : Name) :
    match (capyfsLookup ampleHeap m (s.dentry d).inode name s.fs).1 with
    | none => ¬ ∃ j i, NamesAt (volumeOf m s.fs.dev) (s.dentry d).inode.ino name j i
    | some h => Agrees (volumeOf m s.fs.dev) h ∧ ∃ j, NamesAt (volumeOf m s.fs.dev) (s.dentry d).inode.ino name j h.ino := by
  obtain ⟨-, -, hfound⟩ := lookup_yields ampleHeap_inode hs.safe (hs.mirrors.agrees d hd).toValid name
    s.fs hs.carries rfl
  cases hl : (capyfsLookup ampleHeap m (s.dentry d).inode name s.fs).1 with
  | none =>
    rw [hl] at hfound
    exact hfound
  | some h =>
    rw [hl] at hfound
    exact ⟨⟨hfound.1, hfound.2.2⟩, hfound.2.1⟩

theorem lookup_ample {dir inode : VInode} {name : Name}
    (h : (capyfsLookup heap m dir name fs).1 = some inode) : (capyfsLookup ampleHeap m dir name fs).1 = some inode := by
  have hstarved : ∀ {α : Type} (x : FsM α) (f : α → FsM VInode), (∀ a u, (f a u).1 = none) →
      ∀ u, ((x >>= f) u).1 = none := by
    intro α x f hf u
    rcases hx : x u with ⟨a, w⟩
    cases a with
    | none => exact congrArg Prod.fst (bind_none hx)
    | some a =>
      rw [bind_some hx]
      exact hf a w
  by_cases hroom : heap vfsInodeSize = true ∧ heap capyfsInodeSize = true
  · have hsame : capyfsCreateVfsInode heap = capyfsCreateVfsInode ampleHeap := by
      funext ino x
      unfold capyfsCreateVfsInode
      rw [if_neg (by simp [hroom.1, hroom.2]), if_neg (by simp [ampleHeap])]
    unfold capyfsLookup at h ⊢
    rwa [hsame] at h
  · have hnone : (capyfsLookup heap m dir name fs).1 = none := by
      unfold capyfsLookup
      split
      · rfl
      · refine hstarved _ _ (fun x => hstarved _ _ (fun e => hstarved _ _ (fun y u => ?_))) fs
        have hfail : capyfsCreateVfsInode heap e.ino.toNat y = fail := by
          unfold capyfsCreateVfsInode
          rw [if_pos (by
            simp only [Bool.or_eq_true, Bool.not_eq_true']
            by_contra hno
            simp only [not_or, Bool.not_eq_false] at hno
            exact hroom hno)]
        rw [hfail]
        rfl
    rw [hnone] at h
    cases h

theorem Mounted.lookup_some (hs : Mounted m s) (hd : s.live d = true) {name : Name} {inode : VInode}
    (hi : (capyfsLookup heap m (s.dentry d).inode name s.fs).1 = some inode) : Agrees (volumeOf m s.fs.dev) inode ∧
      ∃ j, NamesAt (volumeOf m s.fs.dev) (s.dentry d).inode.ino name j inode.ino := by
  have hl := hs.lookup hd name
  rw [lookup_ample hi] at hl
  exact hl

theorem mounted_inv (heap : Heap) (m : CapySuper) : ResolveInv heap m (Mounted m) := by
  refine ⟨fun s hs => hs.mirrors.tree, fun s e hs => hs.congr (.setError s e) rfl (fun _ => rfl),
    fun s d hs hd => ?_, fun s d name inode hs hd _ hlen hnew hi => ?_⟩
  · rw [hs.refresh_same hd]
    exact hs
  · obtain ⟨ha, j, hat⟩ := hs.lookup_some hd hi
    exact ⟨hs.carries, hs.safe, hs.mirrors.cache hd hlen hnew ha hat
      (fun e he => hs.mirrors.uncached hs.safe hd hnew hat he)⟩

theorem Mounted.browses (hs : Mounted m s) (h : Browses heap m s t) : Mounted m t :=
  h.keeps _ (mounted_inv heap m) hs

theorem Mounted.setError (hs : Mounted m s) (e : VfsError) : Mounted m (s.setError e) :=
  hs.congr (.setError s e) rfl (fun _ => rfl)

theorem Mounted.stays {p : Prop} (hs : Mounted m s) (hc : Carries m fs.dev)
    (h : Stays p (volumeOf m s.fs.dev) (volumeOf m fs.dev)) : Mounted m (setFs s fs) :=
  ⟨hc, h.safe, (hs.mirrors.congr (.setFs s fs) (fun _ => rfl)).stays h⟩

theorem components_bytes {path n : Name} (hn : n ∈ components path) {c : Byte} (hc : c ∈ n) : c ∈ path := by
  have hpieces : ∀ p : Name, ∀ w ∈ pieces p, ∀ c ∈ w, c ∈ p := by
    intro p
    induction p with
    | nil => simp [pieces]
    | cons x p ih =>
      intro w hw c hcw
      simp only [pieces] at hw
      split at hw
      · rcases mem_cons.mp hw with rfl | hw
        · cases hcw
        · exact mem_cons_of_mem _ (ih w hw c hcw)
      · cases hp : pieces p with
        | nil => exact absurd hp (pieces_ne_nil p)
        | cons w0 ws =>
          rw [hp] at hw
          simp only at hw
          rcases mem_cons.mp hw with rfl | hw
          · rcases mem_cons.mp hcw with rfl | hcw
            · exact mem_cons_self
            · exact mem_cons_of_mem _ (ih w0 (by simp [hp]) c hcw)
          · exact mem_cons_of_mem _ (ih w (by simp [hp, hw]) c hcw)
  exact hpieces path n (mem_filter.mp hn).1 c hc

theorem last_cstring {path name : Name} {p : Nat} {v : Vfs} (hz : IsCString path)
    (h : vfsResolve heap m v path true = (some (p, name), t)) : IsCString name := by
  rcases resolve_last heap m h with ⟨-, -, rfl⟩ | ⟨-, -, front, hf⟩
  · exact nofun
  · intro c hc
    exact hz c (components_bytes (by rw [hf]; simp) hc)

theorem create_mounted (hs : Mounted m s) (user : Option User) {path : Name} (hz : IsCString path)
    (mode : BitVec 16) (info : Option VfsMetadata) : Mounted m (vfsCreate ampleHeap m user s path mode info).2 := by
  rcases create_cases hs.mirrors.tree user path mode info with h | ⟨p, name, t0, t, hf, -, hb, hlive,
    -, hlen, hnew, -, info', hresult⟩
  · exact hs.browses h
  · have ht := hs.browses hb
    have hzn := last_cstring hz hf.resolve
    have hv := (ht.mirrors.agrees p hlive).toValid
    obtain ⟨hc, hpost⟩ := create_yields ampleHeap_inode ht.carries.layout ht.safe hv name mode
      (some info') t.fs ht.carries rfl
    rcases hresult with ⟨hnone, h⟩ | ⟨inode, hsome, ⟨hheap, -⟩ | ⟨-, h⟩⟩
    · rw [h]
      rw [hnone] at hpost
      exact (ht.stays hc hpost).setError .io
    · cases hheap
    · rw [h]
      rw [hsome] at hpost
      obtain ⟨hinode, hcreated⟩ := hpost
      generalize (capyfsCreate ampleHeap m (t.dentry p).inode name mode (some info') t.fs).2 = fs at *
      have hm : Mirrors (volumeOf m t.fs.dev) (setFs t fs) :=
        ht.mirrors.congr (.setFs t fs) (fun _ => rfl)
      have hmirror := hm.created ht.safe (p := p) hlive hzn hlen hnew hcreated
        (by rw [hinode]; rfl) (by rw [hinode])
      have hrefresh : (setFs t fs).refresh m p = resized (volumeOf m fs.dev) (setFs t fs) p :=
        refresh_eq (s := setFs t fs) hc (hv.created hcreated).live
      rw [hrefresh]
      exact Mounted.setError ⟨hc, hcreated.safe, hmirror⟩ .ok

theorem Removes.mounted {user : Option User} {path : Name} {isDir : Bool} {p c : Nat}
    {r : Vfs} (hs : Mounted m s) (h : Removes heap m user s path isDir p c t r) : Mounted m r := by
  have ht := hs.browses h.browses
  have hv := (ht.mirrors.agrees p h.live).toValid
  have hcl := (ht.mirrors.tree.child p c h.live h.child).1
  obtain ⟨hc, hpost⟩ := remove_yields ht.safe hv (t.dentry c).name isDir t.fs ht.carries rfl
  rcases h.result with ⟨hnone, u, e, hu, rfl⟩ | ⟨hsome, rfl⟩
  · rw [hnone] at hpost
    have hsame := ht.stays (p := True) hc (by
      rw [show volumeOf m _ = _ from hpost]
      exact .refl ht.safe)
    rcases hu with rfl | rfl
    · exact hsame.setError e
    · rw [hsame.refresh_same hcl]
      exact hsame.setError e
  · have hforget := h.forgets (capyfsRemove m (t.dentry p).inode (t.dentry c).name isDir t.fs).2
    obtain ⟨a, ha⟩ := Option.isSome_iff_exists.mp hsome
    rw [ha] at hpost
    obtain ⟨j, i, hat, hremoved, -⟩ := hpost
    obtain ⟨j', hat'⟩ := ht.mirrors.child p c h.live h.child
    obtain ⟨rfl, rfl⟩ := hat.unique hat'
    generalize (capyfsRemove m (t.dentry p).inode (t.dentry c).name isDir t.fs).2 = fs at *
    have hm : Mirrors (volumeOf m t.fs.dev) (setFs t fs) :=
      ht.mirrors.congr (.setFs t fs) (fun _ => rfl)
    -- the directory is not the inode that was removed, so its record is as it was
    have hpc : (t.dentry p).inode.ino ≠ (t.dentry c).inode.ino := by
      intro he
      have hzero := hremoved.empty j
      rw [← he, hat.entries] at hzero
      exact hat.used hzero
    have hrefresh : (setFs t fs).refresh m p = setFs t fs := by
      rw [refresh_eq (s := setFs t fs) hc (hv.removed hremoved hpc).live]
      refine resized_eq ?_
      rw [show (volumeOf m (setFs t fs).fs.dev).inode ((setFs t fs).dentry p).inode.ino = _ from
        hremoved.others _ hpc]
      exact (ht.mirrors.agrees p h.live).size
    rw [hrefresh] at hforget ⊢
    refine Mounted.setError ⟨?_, ?_, ?_⟩ .ok
    all_goals rw [hforget.fs]
    · exact hc
    · exact hremoved.safe
    · exact hm.removed (p := p) (c := c) (j := j) h.live h.child hremoved hforget

/-- After a rename only the destination's size can have changed. -/
theorem renamed_eq (ht : Mounted m t) {sp dp j : Nat} {dn : Name} (hsp : t.live sp = true)
    (hdp : t.live dp = true) (hc : Carries m fs.dev)
    (hm : Moved (volumeOf m t.fs.dev) (volumeOf m fs.dev) ((t.dentry sp).inode.ino, j) (t.dentry dp).inode.ino dn) :
    renamed m t fs sp dp = resized (volumeOf m fs.dev) (setFs t fs) dp := by
  have has := ht.mirrors.agrees sp hsp
  have had := ht.mirrors.agrees dp hdp
  unfold renamed
  split
  · rename_i hsame
    refine (resized_eq ?_).symm
    rw [hm.same hsame.symm]
    exact had.size
  · rename_i hne
    rw [refresh_eq (s := setFs t fs) hc (had.toValid.moved hm).live]
    have hdiff : sp ≠ dp := by
      rintro rfl
      exact hne rfl
    have hinode : ((resized (volumeOf m fs.dev) (setFs t fs) dp).dentry sp).inode = (t.dentry sp).inode := by
      rw [resized_inode, if_neg hdiff]
      rfl
    rw [show volumeOf m (setFs t fs).fs.dev = volumeOf m fs.dev from rfl]
    rw [refresh_eq (s := resized (volumeOf m fs.dev) (setFs t fs) dp) hc]
    · refine resized_eq ?_
      rw [hinode, show volumeOf m (resized (volumeOf m fs.dev) (setFs t fs) dp).fs.dev =
        volumeOf m fs.dev from rfl, hm.others _ hne]
      exact has.size
    · rw [hinode]
      exact (has.toValid.moved hm).live

theorem rename_mounted (hs : Mounted m s) (user : Option User) (srcPath : Name) {dstPath : Name}
    (hz : IsCString dstPath) : Mounted m (vfsRename ampleHeap m user s srcPath dstPath).2 := by
  rcases rename_cases hs.mirrors.tree user srcPath dstPath with h | ⟨sp, c, dp, dn, t, h⟩
  · exact hs.browses h
  · have ht := hs.browses h.browses
    obtain ⟨t1, -, t2, hdst, -⟩ := h.source
    have hzn := last_cstring hz hdst
    have hvs := (ht.mirrors.agrees sp h.srcLive).toValid
    have hvd := (ht.mirrors.agrees dp h.dstLive).toValid
    obtain ⟨hc, hpost⟩ := renameInode_yields ht.carries.layout ht.safe hvs hvd (t.dentry c).name dn t.fs
      ht.carries rfl
    rcases h.result with ⟨hnone, hr⟩ | ⟨hsome, hr⟩
    · rw [hr]
      rw [hnone] at hpost
      exact (ht.stays hc hpost).setError .io
    · rw [hr]
      obtain ⟨a, ha⟩ := Option.isSome_iff_exists.mp hsome
      rw [ha] at hpost
      obtain ⟨-, j, i, hat, hmoved⟩ := hpost
      obtain ⟨j', hat'⟩ := ht.mirrors.child sp c h.srcLive h.child
      obtain ⟨rfl, rfl⟩ := hat.unique hat'
      generalize (capyfsRenameInode m (t.dentry sp).inode (t.dentry c).name (t.dentry dp).inode dn
        t.fs).2 = fs at *
      have hm : Mirrors (volumeOf m t.fs.dev) (setFs t fs) :=
        ht.mirrors.congr (.setFs t fs) (fun _ => rfl)
      have hplace : (dentryLookupChild (setFs t fs) dp dn = none ∧
          ¬ ∃ j i, NamesAt (volumeOf m t.fs.dev) ((setFs t fs).dentry dp).inode.ino dn j i) ∨
          dentryLookupChild (setFs t fs) dp dn = some c := by
        rcases h.place with ⟨h1, h2⟩ | h1
        · have hl := ht.lookup h.dstLive dn
          rw [h2] at hl
          exact .inl ⟨h1, hl⟩
        · exact .inr h1
      have hsizes : renamed m t fs sp dp = resized (volumeOf m fs.dev) (setFs t fs) dp :=
        renamed_eq ht h.srcLive h.dstLive hc hmoved
      have hlinks := (SameLinks.setFs t fs).trans (SameLinks.resized (volumeOf m fs.dev) (setFs t fs) dp)
      have hrelinks := h.relinks (hlinks.tree ht.mirrors.tree) hlinks
      rw [hsizes]
      refine Mounted.setError ⟨?_, ?_, ?_⟩ .ok
      all_goals rw [hrelinks.fs]
      · exact hc
      · exact hmoved.safe
      · exact hm.moved (j := j) h.srcLive h.dstLive h.child hzn h.short hat hplace hmoved hrelinks

theorem lookup_mounted (hs : Mounted m s) (path : Name) : Mounted m (vfsLookup ampleHeap m s path).2 := by
  rcases lookup_cases hs.mirrors.tree path with ⟨t, h, hb⟩ | ⟨d, t, hf, h⟩
  · rw [h]
    exact hs.browses hb
  · rw [h]
    exact Mounted.setError ((hs.browses hf.toBrowses).congr (.retain t d) rfl (retain_inode t d)) .ok

theorem open_mounted (hs : Mounted m s) (user : Option User) (path : Name) (flags : BitVec 32) :
    Mounted m (vfsOpen ampleHeap m user s path flags).2 := by
  rcases open_cases hs.mirrors.tree user path flags with ⟨t, h, hb⟩ | ⟨d, t, hf, openFlags, -, -, h⟩
  · rw [h]
    exact hs.browses hb
  · rw [h]
    exact Mounted.setError ((hs.browses hf.toBrowses).congr (.openFile t d openFlags) rfl
      (openFile_inode t d openFlags)) .ok

theorem Mounted.release (hs : Mounted m s) (d : Nat) : Mounted m (s.release d) := by
  obtain ⟨-, -, hfs, hi⟩ := release_same s d
  exact hs.congr (.release s d) hfs hi

theorem close_mounted (hs : Mounted m s) (f : Nat) : Mounted m (vfsClose s f) := by
  unfold vfsClose
  cases s.file f with
  | none => exact hs
  | some x =>
    exact (hs.release x.dentry).congr ⟨rfl, rfl, fun _ => rfl, fun _ => rfl, fun _ => rfl⟩ rfl
      (fun _ => rfl)

end

/-- Steps of the calls that work on names, with memory to spare and with paths
that are strings. -/
def Orderly (_ : VfsSession) (x : VfsStep) : Prop :=
  x.heap = ampleHeap ∧ (∀ path ∈ x.call.paths, IsCString path) ∧
    match x.call with
    | .read _ _ | .write _ _ _ | .setMetadata _ _ => False
    | _ => True

section
variable {m : CapySuper} {s : VfsSession}

theorem step_mounted (hs : Mounted m s.vfs) (x : VfsStep) (hx : Orderly s x) : Mounted m (x.run m s).vfs := by
  rcases x with ⟨heap, user, call⟩
  obtain ⟨rfl, hz, hcall⟩ := hx
  cases call with
  | lookup path => exact lookup_mounted hs path
  | put d =>
    simp only [VfsStep.run]
    split
    · exact hs.release d
    · exact hs
  | create path mode info => exact create_mounted hs user (hz path mem_cons_self) mode info
  | «open» path flags => exact open_mounted hs user path flags
  | close f => exact close_mounted hs f
  | read f size => exact absurd hcall not_false
  | write f src size => exact absurd hcall not_false
  | listdir path cb => exact hs.browses (listdir_browses hs.mirrors.tree user path cb)
  | unlink path =>
    rcases unlink_cases hs.mirrors.tree user path with ⟨h, -⟩ | ⟨p, c, t, h, -⟩
    · exact hs.browses h
    · exact h.mounted hs
  | rmdir path =>
    rcases rmdir_cases hs.mirrors.tree user path with ⟨h, -⟩ | ⟨p, c, t, h, -⟩
    · exact hs.browses h
    · exact h.mounted hs
  | rename srcPath dstPath =>
    exact rename_mounted hs user srcPath (hz dstPath (mem_cons_of_mem _ mem_cons_self))
  | statPath path => exact hs.browses (statPath_browses hs.mirrors.tree user path)
  | setMetadata path info => exact absurd hcall not_false

theorem run_mounted {s0 : VfsSession} (h0 : Mounted m s0.vfs) (h : VfsReachable m s0 Orderly s) : Mounted m s.vfs := by
  induction h with
  | start => exact h0
  | step _ hx ih => exact step_mounted ih _ hx

end

/-- The root inode as the disk has it. -/
def diskRoot (m : CapySuper) : FsM VInode := capyfsReadInodeDisk m 0 >>= capyfsCreateVfsInode ampleHeap 0

section
variable {m : CapySuper}

theorem diskRoot_eq {fs : Fs} (hc : Carries m fs.dev) (hs : (volumeOf m fs.dev).Safe) :
    ∃ root, diskRoot m fs = (some root, fs) ∧ root.ino = 0 ∧ Agrees (volumeOf m fs.dev) root := by
  have hread : capyfsReadInodeDisk m 0 fs = (some ((volumeOf m fs.dev).inode 0), fs) :=
    Prod.ext ((readInode_does hc.layout.root) fs hc rfl).2.1 (readInodeDisk_readOnly m 0 fs)
  exact ⟨_, bind_some hread, rfl, ⟨hs.root.1, rfl⟩, rfl⟩

theorem mount_mounted {fs : Fs} {root : VInode} (hc : Carries m fs.dev)
    (hs : (volumeOf m fs.dev).Safe) (hroot : (diskRoot m fs).1 = some root) : Mounted m (startSession fs root).vfs := by
  obtain ⟨root', h, hino, ha⟩ := diskRoot_eq hc hs
  rw [h] at hroot
  cases hroot
  have hlive : ∀ d, (mountVfs fs root).live d = true → d = 0 := fun d hd => by
    simpa [mountVfs] using hd
  refine ⟨hc, hs, dentryTree_mount fs root, hino, fun d hd h0 => absurd (hlive d hd) h0, fun d _ => ha,
    fun p c _ hmem => ?_, fun d d' hd hd' _ => ?_⟩
  · simp [startSession, mountVfs] at hmem
  · rw [hlive d hd, hlive d' hd']

def SameFile (x y : VInode) : Prop := x.ino = y.ino ∧ x.mode = y.mode ∧ x.size = y.size

theorem Agrees.sameFile {v : Volume} {x y : VInode} (hx : Agrees v x) (hy : Agrees v y) (h : x.ino = y.ino) : SameFile x y := by
  refine ⟨h, ?_, ?_⟩
  · rw [← hx.mode, ← hy.mode, h]
  · rw [hx.size, hy.size, h]

theorem lookup_sameFile {x y : VInode} (h : SameFile x y) (name : Name) :
    capyfsLookup ampleHeap m y name = capyfsLookup ampleHeap m x name := by
  unfold capyfsLookup VInode.isDir
  rw [h.1, h.2.1]

theorem walkFrom_cons (h : VInode) (name : Name) (rest : List Name) : walkFrom ampleHeap m h (name :: rest) =
      capyfsLookup ampleHeap m h name >>= fun child => walkFrom ampleHeap m child rest := rfl

/-- The cache and the disk lead to the same inode, name by name. -/
theorem walk_agrees {s : Vfs} (hs : Mounted m s) {cur : Nat} (hcur : s.live cur = true) {h : VInode}
    (hh : SameFile (s.dentry cur).inode h) {comps : List Name} (hcomps : ∀ n ∈ comps, n ≠ [])
    (hshort : ∀ n ∈ comps, n.length < vfsNameMax) : ((resolveComps ampleHeap m false s cur comps).1 = none ∧
      (walkFrom ampleHeap m h comps s.fs).1 = none) ∨ ∃ d n h', (resolveComps ampleHeap m false s cur comps).1 = some (d, n) ∧
      (walkFrom ampleHeap m h comps s.fs).1 = some h' ∧
      SameFile ((resolveComps ampleHeap m false s cur comps).2.dentry d).inode h' := by
  induction comps generalizing s cur h with
  | nil => exact .inr ⟨cur, [], h, rfl, rfl, hh⟩
  | cons name rest ih =>
    have hrest : ∀ n ∈ rest, n ≠ [] := fun n hn => hcomps n (mem_cons_of_mem _ hn)
    have hrest' : ∀ n ∈ rest, n.length < vfsNameMax := fun n hn => hshort n (mem_cons_of_mem _ hn)
    have hname := hcomps name mem_cons_self
    have hlen := hshort name mem_cons_self
    have hwalk : ∀ r, capyfsLookup ampleHeap m (s.dentry cur).inode name s.fs = (r, s.fs) →
        (walkFrom ampleHeap m h (name :: rest) s.fs).1 = match r with
          | none => none
          | some child => (walkFrom ampleHeap m child rest s.fs).1 := by
      intro r hr
      rw [← lookup_sameFile hh] at hr
      rw [walkFrom_cons]
      cases r with
      | none => exact congrArg Prod.fst (bind_none hr)
      | some child => exact congrArg Prod.fst (bind_some hr)
    have hlook := hs.lookup hcur name
    have hfs := lookup_readOnly ampleHeap m (s.dentry cur).inode name s.fs
    rcases hr : capyfsLookup ampleHeap m (s.dentry cur).inode name s.fs with ⟨r, fs'⟩
    rw [hr] at hlook hfs
    rw [hwalk r (by rw [hr, show fs' = s.fs from hfs])]
    simp only [resolveComps, Nat.not_le_of_lt hlen, if_false, Bool.false_and, Bool.false_eq_true]
    cases hl : dentryLookupChild s cur name with
    | some c =>
      -- a cached name is on disk, and under the same inode
      obtain ⟨hmem, hn⟩ := lookupChild_mem hl
      obtain ⟨j, hat⟩ := hs.mirrors.child cur c hcur hmem
      rw [hn] at hat
      have hcl := (hs.mirrors.tree.child cur c hcur hmem).1
      cases r with
      | none => exact absurd ⟨j, _, hat⟩ hlook
      | some child =>
        obtain ⟨ha, j', hat'⟩ := hlook
        exact ih hs hcl ((hs.mirrors.agrees c hcl).sameFile ha (hat.unique hat').2) hrest hrest'
    | none =>
      obtain ⟨t, ht, hmiss⟩ := resolveMiss_cases ampleHeap m s cur name
      have hts : t = s := by
        rcases ht with rfl | rfl
        · rfl
        · exact hs.refresh_same hcur
      subst hts
      rw [hr] at hmiss
      rcases hmiss with ⟨hnone, he⟩ | ⟨inode, hsome, ⟨hheap, -⟩ | ⟨-, he⟩⟩
      · rw [he, show r = none from hnone]
        exact .inl ⟨rfl, rfl⟩
      · cases hheap
      · rw [he, show r = some inode from hsome]
        rw [show r = some inode from hsome] at hr
        have hcached := (mounted_inv ampleHeap m).cache t cur name inode hs hcur hname hlen hl (by rw [hr])
        have hbound := hs.mirrors.tree.bound cur hcur
        refine ih (s := cacheChild t cur name inode) hcached (by simp) ?_ hrest hrest'
        rw [cache_new t name inode hbound]
        exact ⟨rfl, rfl, rfl⟩

end

/-- After any run of calls on names, a path leads through the cache to what its
components lead to on disk, and only the components of the path matter. -/
theorem resolve_agrees (m : CapySuper) (fs : Fs) (root : VInode) (hc : Carries m fs.dev)
    (hs : (volumeOf m fs.dev).Safe) (hroot : (diskRoot m fs).1 = some root) (s : VfsSession)
    (h : VfsReachable m (startSession fs root) Orderly s) (path : Name)
    (hp : path.head? = some slash) (hshort : ∀ n ∈ components path, n.length < vfsNameMax) :
    ((vfsResolve ampleHeap m s.vfs path false).1.isSome =
        (diskWalk ampleHeap m (components path) s.vfs.fs).1.isSome) ∧
      (∀ d n x, (vfsResolve ampleHeap m s.vfs path false).1 = some (d, n) →
        (diskWalk ampleHeap m (components path) s.vfs.fs).1 = some x →
        SameFile ((vfsResolve ampleHeap m s.vfs path false).2.dentry d).inode x) ∧
      ∀ path', path'.head? = some slash → components path' = components path →
        vfsResolve ampleHeap m s.vfs path' false = vfsResolve ampleHeap m s.vfs path false := by
  have hm := run_mounted (mount_mounted hc hs hroot) h
  obtain ⟨root', hr, hino, ha⟩ := diskRoot_eq hm.carries hm.safe
  have hwalk : diskWalk ampleHeap m (components path) s.vfs.fs =
      walkFrom ampleHeap m root' (components path) s.vfs.fs := by
    have hbind : diskWalk ampleHeap m (components path) =
        diskRoot m >>= fun root => walkFrom ampleHeap m root (components path) := by
      funext f
      unfold diskWalk diskRoot
      cases hx : capyfsReadInodeDisk m 0 f with
      | mk a f' =>
        cases a with
        | none => rw [bind_none hx, bind_none (bind_none hx)]
        | some x =>
          rw [bind_some hx]
          cases hy : capyfsCreateVfsInode ampleHeap 0 x f' with
          | mk b f'' =>
            have hxy := (bind_some (f := capyfsCreateVfsInode ampleHeap 0) hx).trans hy
            cases b with
            | none => rw [bind_none hy, bind_none hxy]
            | some y => rw [bind_some hy, bind_some hxy]
    rw [hbind, bind_some hr]
  have hsame : SameFile (s.vfs.dentry 0).inode root' :=
    (hm.mirrors.agrees 0 hm.mirrors.tree.root.1).sameFile ha (hm.mirrors.root.trans hino.symm)
  rw [hwalk, vfsResolve_eq ampleHeap m hp]
  refine ⟨?_, fun d n x hd hx => ?_, fun path' hp' he => ?_⟩
  · rcases walk_agrees hm hm.mirrors.tree.root.1 hsame (components_ne_nil path) hshort with ⟨h1, h2⟩ |
      ⟨d, n, x, h1, h2, -⟩
    · rw [h1, h2]
      rfl
    · rw [h1, h2]
      rfl
  · rcases walk_agrees hm hm.mirrors.tree.root.1 hsame (components_ne_nil path) hshort with ⟨h1, -⟩ |
      ⟨d', n', x', h1, h2, h3⟩
    · rw [h1] at hd
      cases hd
    · rw [h1] at hd
      rw [h2] at hx
      cases hd
      cases hx
      exact h3
  · rw [vfsResolve_eq ampleHeap m hp', he]

/-- A file called `a` in the root directory. -/
def createA : VfsStep := ⟨ampleHeap, none, .create [slash, 97#8] vfsModeFile none⟩

theorem smallVolume_safe : Carries smallSuper smallSession.vfs.fs.dev ∧ (volumeOf smallSuper smallSession.vfs.fs.dev).Safe := by
  have h := @format_fresh (plainDevice 64) 128 0 (fun _ => ⟨rfl, rfl⟩) (by decide)
    ⟨by decide, by decide, by decide⟩
  exact ⟨h.1, h.2.1⟩

theorem createA_agrees :
    (vfsResolve ampleHeap smallSuper (createA.run smallSuper smallSession).vfs
        [slash, slash, 97#8, slash] false).1.isSome =
      (diskWalk ampleHeap smallSuper [[97#8]] (createA.run smallSuper smallSession).vfs.fs).1.isSome := by
  have hstep : Orderly smallSession createA := by
    refine ⟨rfl, fun path hpath c hc => ?_, trivial⟩
    rw [mem_singleton.mp hpath] at hc
    revert c
    decide
  have h := resolve_agrees smallSuper _ newRoot smallVolume_safe.1 smallVolume_safe.2 (by decide +kernel)
    (createA.run smallSuper smallSession) (.step .start hstep) [slash, slash, 97#8, slash] rfl (by decide)
  exact h.1

def largeSuper : CapySuper := (formatLayout (plainDevice 917505) 128 0).super

def largeMount : Session :=
  mountSession ampleHeap largeSuper (fun _ _ => zeros) 32 [] 1 [freeSlot] 0
    (capyfsFormat (plainDevice 917505) 128 0).2

/-- The journal of the mount has cleared the inode bitmap, so the new file gets
the inode of the root, and the cache finds a name that the disk does not have. -/
theorem largeVolume_disagrees :
    (capyfsFormat (plainDevice 917505) 128 0).1 = 0 ∧ largeMount.handles = [newRoot] ∧
      VfsReachable largeSuper (startSession largeMount.fs newRoot) Orderly
        (createA.run largeSuper (startSession largeMount.fs newRoot)) ∧
      (vfsResolve ampleHeap largeSuper
        (createA.run largeSuper (startSession largeMount.fs newRoot)).vfs [slash, 97#8] false).1.isSome =
          true ∧
      (diskWalk ampleHeap largeSuper [[97#8]]
        (createA.run largeSuper (startSession largeMount.fs newRoot)).vfs.fs).1.isSome = false := by
  refine ⟨by decide +kernel, by decide +kernel, .step .start ⟨rfl, fun path hpath c hc => ?_, trivial⟩,
    by decide +kernel, by decide +kernel⟩
  rw [mem_singleton.mp hpath] at hc
  revert c
  decide

end CapyOS.Proofs
