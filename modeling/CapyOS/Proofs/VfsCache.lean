import CapyOS.Fs.Vfs
import CapyOS.Fs.VfsRun

namespace CapyOS.Proofs
open Lib Function

/-- The pieces of a path between slashes, empty ones included. -/
def pieces : Name → List Name
  | [] => [[]]
  | c :: cs =>
    if c = slash then [] :: pieces cs
    else match pieces cs with
      | [] => [[c]]
      | w :: ws => (c :: w) :: ws

/-- The components of a path. -/
def components (path : Name) : List Name := (pieces path).filter (fun w => w ≠ [])

theorem pieces_ne_nil (p : Name) : pieces p ≠ [] := by
  cases p with
  | nil => simp [pieces]
  | cons c cs =>
    simp only [pieces]
    split
    · simp
    · split <;> simp

@[simp] theorem components_nil : components [] = [] := by
  simp [components, pieces]

@[simp] theorem components_slash (p : Name) : components (slash :: p) = components p := by
  simp [components, pieces]

theorem components_cons {c : Byte} (hc : c ≠ slash) (p : Name) :
    components (c :: p) = (c :: p).takeWhile (fun x => x ≠ slash) :: components (p.dropWhile (fun x => x ≠ slash)) := by
  induction p generalizing c with
  | nil => simp [components, pieces, hc]
  | cons d p ih =>
    by_cases hd : d = slash
    · subst hd
      simp [components, pieces, hc]
    · have htail := ih hd
      have hdrop : (d :: p).dropWhile (fun x => x ≠ slash) = p.dropWhile (fun x => x ≠ slash) := by
        simp [hd]
      rw [hdrop]
      simp only [components, pieces, if_neg hc, if_neg hd] at htail ⊢
      cases hp : pieces p with
      | nil => exact absurd hp (pieces_ne_nil p)
      | cons w ws =>
        simp only [hp, ne_eq, reduceCtorEq, not_false_eq_true, decide_true, List.filter_cons_of_pos, List.cons.injEq] at htail ⊢
        refine ⟨?_, htail.2⟩
        rw [htail.1]
        simp [hc, hd]

theorem components_skip (p : Name) : components (p.dropWhile (fun c => c = slash)) = components p := by
  induction p with
  | nil => rfl
  | cons c p ih =>
    by_cases hc : c = slash
    · subst hc
      simpa using ih
    · simp [hc]

theorem pathNext_cases (p : Name) : (components p = [] ∧ pathNext p = .done) ∨
    ∃ name rest, components p = name :: components rest ∧ rest.length < p.length ∧ (rest = [] ↔ components rest = []) ∧
      pathNext p = if vfsNameMax ≤ name.length then .tooLong else .component name rest := by
  have hskip := components_skip p
  have hlen : (p.dropWhile (fun c => c = slash)).length ≤ p.length :=
    (List.dropWhile_sublist _).length_le
  unfold pathNext
  cases hq : p.dropWhile (fun c => c = slash) with
  | nil =>
    rw [hq, components_nil] at hskip
    exact .inl ⟨hskip.symm, rfl⟩
  | cons c q =>
    have hc : c ≠ slash := by
      have := List.head?_dropWhile_not (fun c => decide (c = slash)) p
      rw [hq] at this
      simpa using this
    rw [hq] at hskip hlen
    have hdrop : (c :: q).dropWhile (fun x => x ≠ slash) = q.dropWhile (fun x => x ≠ slash) := by
      simp [hc]
    refine .inr ⟨(c :: q).takeWhile (fun x => x ≠ slash),
      ((c :: q).dropWhile (fun x => x ≠ slash)).dropWhile (fun x => x = slash), ?_, ?_, ?_, rfl⟩
    · rw [← hskip, components_cons hc, components_skip, hdrop]
    · rw [hdrop]
      have h1 : ((q.dropWhile (fun x => x ≠ slash)).dropWhile (fun x => x = slash)).length ≤
          (q.dropWhile (fun x => x ≠ slash)).length := (List.dropWhile_sublist _).length_le
      have h2 : (q.dropWhile (fun x => x ≠ slash)).length ≤ q.length :=
        (List.dropWhile_sublist _).length_le
      simp only [List.length_cons] at hlen
      omega
    · constructor
      · intro h
        rw [h, components_nil]
      · intro h
        generalize (c :: q).dropWhile (fun x => x ≠ slash) = r at *
        cases hr : r.dropWhile (fun x => x = slash) with
        | nil => rfl
        | cons x xs =>
          have hx : x ≠ slash := by
            have := List.head?_dropWhile_not (fun c => decide (c = slash)) r
            rw [hr] at this
            simpa using this
          rw [hr, components_cons hx] at h
          cases h

section
variable (heap : Heap) (m : CapySuper)

def resolveComps (parentOnly : Bool) : Vfs → Nat → List Name → Option (Nat × Name) × Vfs
  | s, cur, [] => (some (cur, []), s)
  | s, cur, name :: rest =>
    if vfsNameMax ≤ name.length then (none, s.setError .nameTooLong)
    else if parentOnly && rest.isEmpty then (some (cur, name), s)
    else match dentryLookupChild s cur name with
      | some child => resolveComps parentOnly s child rest
      | none => match resolveMiss heap m s cur name with
        | (none, s) => (none, s)
        | (some child, s) => resolveComps parentOnly s child rest

theorem resolveFrom_eq (parentOnly : Bool) (n : Nat) (s : Vfs) (cur : Nat) (p : Name) (hn : p.length < n) :
    resolveFrom heap m parentOnly n s cur p = resolveComps heap m parentOnly s cur (components p) := by
  induction n generalizing s cur p with
  | zero => omega
  | succ n ih =>
    simp only [resolveFrom]
    rcases pathNext_cases p with ⟨hc, hp⟩ | ⟨name, rest, hc, hlen, hend, hp⟩
    · rw [hc, hp]
      rfl
    · rw [hc, hp]
      have hempty : rest.isEmpty = (components rest).isEmpty := by
        rw [Bool.eq_iff_iff, List.isEmpty_iff, List.isEmpty_iff]
        exact hend
      have hih := fun s cur => ih s cur rest (by omega)
      by_cases hlong : vfsNameMax ≤ name.length
      · simp [resolveComps, hlong]
      · simp only [resolveComps, hlong, if_false, hempty]
        split
        · rfl
        · cases dentryLookupChild s cur name with
          | some child => exact hih s child
          | none =>
            rcases resolveMiss heap m s cur name with ⟨child, s'⟩
            cases child with
            | none => rfl
            | some child => exact hih s' child

theorem vfsResolve_eq {path : Name} (hp : path.head? = some slash) (s : Vfs) (parentOnly : Bool) :
    vfsResolve heap m s path parentOnly = resolveComps heap m parentOnly s 0 (components path) := by
  cases path with
  | nil => cases hp
  | cons c p =>
    have hc : c = slash := by simpa using hp
    unfold vfsResolve
    simp only [hc, ne_eq, not_true_eq_false, if_false]
    exact resolveFrom_eq heap m parentOnly _ s 0 _ (Nat.lt_succ_self _)

theorem vfsResolve_relative {path : Name} (hp : path.head? ≠ some slash) (s : Vfs) (parentOnly : Bool) :
    vfsResolve heap m s path parentOnly = (none, s.setError .invalidPath) := by
  cases path with
  | nil => rfl
  | cons c p =>
    have hc : c ≠ slash := by simpa using hp
    unfold vfsResolve
    simp only [hc, ne_eq, not_false_eq_true, if_true]

end

end CapyOS.Proofs

namespace CapyOS.Proofs
open Lib FsM Function

section
variable {α β : Type}

def ReadOnly (x : FsM α) : Prop := ∀ s, (x s).2 = s

theorem ReadOnly.pure (a : α) : ReadOnly (pure a : FsM α) := fun _ => rfl

theorem ReadOnly.fail : ReadOnly (fail : FsM α) := fun _ => rfl

theorem ReadOnly.bind {x : FsM α} {f : α → FsM β} (hx : ReadOnly x) (hf : ∀ a, ReadOnly (f a)) : ReadOnly (x >>= f) := by
  intro s
  have hs := hx s
  cases hr : x s with
  | mk a t =>
    rw [hr] at hs
    cases a with
    | none => rw [bind_none hr]; exact hs
    | some a => rw [bind_some hr, hf a t]; exact hs

theorem ReadOnly.attempt {x : FsM α} (hx : ReadOnly x) : ReadOnly (attempt x) := hx

theorem ReadOnly.ite {p : Prop} [Decidable p] {x y : FsM α} (hx : ReadOnly x) (hy : ReadOnly y) :
    ReadOnly (if p then x else y) := by
  split
  · exact hx
  · exact hy

theorem bufferGet_readOnly (n : Nat) : ReadOnly (bufferGet n) := fun _ => rfl

end

section
variable (heap : Heap) (m : CapySuper)

theorem readInodeDisk_readOnly (ino : Nat) : ReadOnly (capyfsReadInodeDisk m ino) :=
  .ite .fail (.bind (bufferGet_readOnly _) fun _ => .pure _)

theorem getIndirectBlock_readOnly (x : CapyInodeDisk) (ind : BitVec 32) (k : Nat) (dirty : Bool) :
    ReadOnly (getIndirectBlock m x ind k false dirty) := by
  refine .bind (.attempt (bufferGet_readOnly _)) fun r => ?_
  cases r with
  | none => exact .pure _
  | some b => simpa using ReadOnly.pure (_ : DataBlock)

theorem getDataBlock_readOnly (x : CapyInodeDisk) (l : Nat) : ReadOnly (capyfsGetDataBlock m x l false) := by
  unfold capyfsGetDataBlock
  split
  · simpa using ReadOnly.pure (_ : DataBlock)
  · refine .ite (.pure _) (.ite ?_ (getIndirectBlock_readOnly m _ _ _ _))
    simpa using ReadOnly.pure (_ : DataBlock)

theorem dirFindScan_readOnly (x : CapyInodeDisk) (name : Name) (n i : Nat) : ReadOnly (dirFindScan m x name n i) := by
  induction n generalizing i with
  | zero => exact .fail
  | succ n ih =>
    refine .bind (getDataBlock_readOnly m x _) fun r => ?_
    cases r.block with
    | none => exact .fail
    | some blk =>
      exact .ite (ih _) (.bind (bufferGet_readOnly _) fun b => .ite (.pure _) (ih _))

theorem lookup_readOnly (dir : VInode) (name : Name) : ReadOnly (capyfsLookup heap m dir name) := by
  refine .ite .fail (.bind (readInodeDisk_readOnly m _) fun x => ?_)
  refine .bind (dirFindScan_readOnly m x name _ _) fun found => ?_
  exact .bind (readInodeDisk_readOnly m _) fun y => .ite .fail (.pure _)

theorem iterateScan_readOnly (x : CapyInodeDisk) (cb : Name → BitVec 16 → Bool) (n i : Nat)
    (calls : List (Name × BitVec 16)) : ReadOnly (iterateScan m x cb n i calls) := by
  induction n generalizing i calls with
  | zero => exact .pure _
  | succ n ih =>
    refine .bind (getDataBlock_readOnly m x _) fun r => ?_
    cases r.block with
    | none => exact .pure _
    | some blk =>
      refine .ite (ih _ _) (.bind (.attempt (bufferGet_readOnly _)) fun b => ?_)
      cases b with
      | none => exact .pure _
      | some b =>
        refine .ite (ih _ _) (.bind (.attempt (readInodeDisk_readOnly m _)) fun child => ?_)
        cases child with
        | none => exact .pure _
        | some child => exact .ite (.pure _) (ih _ _)

theorem iterate_readOnly (dir : VInode) (cb : Name → BitVec 16 → Bool) : ReadOnly (capyfsIterate m dir cb) := by
  refine .ite (.pure _) (.bind (.attempt (readInodeDisk_readOnly m _)) fun x => ?_)
  cases x with
  | none => exact .pure _
  | some x => exact iterateScan_readOnly m x cb _ _ _

theorem refreshSize_some (dir : VInode) (fs : Fs) : ∃ size, (refreshSize m dir fs).1 = some { dir with size := size } := by
  unfold refreshSize
  rw [bind_some (attempt_apply _ _)]
  cases (capyfsReadInodeDisk m dir.ino fs).1 with
  | none => exact ⟨dir.size, rfl⟩
  | some x => exact ⟨x.size, rfl⟩

end

section
variable (s : Vfs) (d : Nat)

@[simp] theorem setDentry_self (x : Dentry) : (s.setDentry d x).dentry d = x :=
  update_self ..

theorem setDentry_of_ne {d' : Nat} (h : d' ≠ d) (x : Dentry) : (s.setDentry d x).dentry d' = s.dentry d' :=
  update_of_ne h ..

@[simp] theorem setError_fs (e : VfsError) : (s.setError e).fs = s.fs := rfl
@[simp] theorem setError_dentry (e : VfsError) : (s.setError e).dentry = s.dentry := rfl
@[simp] theorem setError_file (e : VfsError) : (s.setError e).file = s.file := rfl

end

def SameInode (x y : VInode) : Prop := { y with size := x.size } = x

theorem SameInode.refl (x : VInode) : SameInode x x := rfl

theorem SameInode.trans {x y z : VInode} (h : SameInode x y) (h' : SameInode y z) : SameInode x z := by
  unfold SameInode at *
  rw [← h, ← h']

theorem SameInode.ino {x y : VInode} (h : SameInode x y) : y.ino = x.ino := by
  unfold SameInode at h
  rw [← h]

theorem SameInode.mode {x y : VInode} (h : SameInode x y) : y.mode = x.mode := by
  unfold SameInode at h
  rw [← h]

theorem SameInode.isDir {x y : VInode} (h : SameInode x y) : y.isDir = x.isDir := by
  unfold VInode.isDir
  rw [h.mode]

theorem SameInode.permission {x y : VInode} (h : SameInode x y) (user : Option User)
    (needed : BitVec 16) : inodeHasPermission user y needed = inodeHasPermission user x needed := by
  unfold SameInode at h
  rw [← h]
  rfl

structure SameLinks (s t : Vfs) : Prop where
  next : t.next = s.next
  live : t.live = s.live
  name : ∀ d, (t.dentry d).name = (s.dentry d).name
  parent : ∀ d, (t.dentry d).parent = (s.dentry d).parent
  children : ∀ d, (t.dentry d).children = (s.dentry d).children

theorem SameLinks.refl (s : Vfs) : SameLinks s s :=
  ⟨rfl, rfl, fun _ => rfl, fun _ => rfl, fun _ => rfl⟩

theorem SameLinks.trans {s t u : Vfs} (h : SameLinks s t) (h' : SameLinks t u) : SameLinks s u :=
  ⟨h'.next.trans h.next, h'.live.trans h.live, fun d => (h'.name d).trans (h.name d),
    fun d => (h'.parent d).trans (h.parent d), fun d => (h'.children d).trans (h.children d)⟩

theorem SameLinks.setError (s : Vfs) (e : VfsError) : SameLinks s (s.setError e) :=
  ⟨rfl, rfl, fun _ => rfl, fun _ => rfl, fun _ => rfl⟩

theorem SameLinks.setDentry (s : Vfs) (d : Nat) (inode : VInode) (n : BitVec 32) :
    SameLinks s (s.setDentry d { s.dentry d with inode := inode, refcount := n }) := by
  have h : ∀ e, (s.setDentry d { s.dentry d with inode := inode, refcount := n }).dentry e =
      if e = d then { s.dentry d with inode := inode, refcount := n } else s.dentry e :=
    fun e => update_apply ..
  refine ⟨rfl, rfl, fun e => ?_, fun e => ?_, fun e => ?_⟩
  all_goals
    rw [h e]
    split
    · rename_i he
      rw [he]
    · rfl

theorem SameLinks.release (s : Vfs) (d : Nat) : SameLinks s (s.release d) := by
  unfold Vfs.release
  split
  · exact .refl s
  · exact .setDentry s d _ _

theorem SameLinks.refresh (m : CapySuper) (s : Vfs) (d : Nat) : SameLinks s (s.refresh m d) := by
  unfold Vfs.refresh
  split
  · exact .refl s
  · exact .setDentry s d _ _

theorem SameLinks.lookup {s t : Vfs} (h : SameLinks s t) (p : Nat) (name : Name) :
    dentryLookupChild t p name = dentryLookupChild s p name := by
  unfold dentryLookupChild
  rw [h.children]
  simp only [h.name]

/-- The dentries form trees, and siblings have different names. -/
structure DentryTree (s : Vfs) : Prop where
  root : s.live 0 = true ∧ (s.dentry 0).parent = none
  bound : ∀ d, s.live d = true → d < s.next
  child : ∀ p c, s.live p = true → c ∈ (s.dentry p).children →
    s.live c = true ∧ (s.dentry c).parent = some p
  nodup : ∀ p, s.live p = true → (s.dentry p).children.Nodup
  names : ∀ p c c', s.live p = true → c ∈ (s.dentry p).children → c' ∈ (s.dentry p).children →
    (s.dentry c).name = (s.dentry c').name → c = c'

theorem dentryTree_mount (fs : Fs) (root : VInode) : DentryTree (mountVfs fs root) := by
  refine ⟨⟨rfl, rfl⟩, fun d hd => ?_, fun p c _ hc => ?_, fun p _ => ?_, fun p c c' _ hc => ?_⟩
  · have : d = 0 := by simpa [mountVfs] using hd
    simp [mountVfs, this]
  · simp [mountVfs] at hc
  · simp [mountVfs]
  · simp [mountVfs] at hc

theorem SameLinks.tree {s t : Vfs} (h : SameLinks s t) (hs : DentryTree s) : DentryTree t := by
  refine ⟨?_, ?_, ?_, ?_, ?_⟩
  all_goals simp only [h.next, h.live, h.name, h.parent, h.children]
  · exact hs.root
  · exact hs.bound
  · exact hs.child
  · exact hs.nodup
  · exact hs.names

section
variable {s : Vfs}

theorem lookupChild_mem {p c : Nat} {name : Name} (h : dentryLookupChild s p name = some c) :
    c ∈ (s.dentry p).children ∧ (s.dentry c).name = name :=
  ⟨List.mem_of_find?_eq_some h, by simpa using List.find?_some h⟩

theorem lookupChild_none {p : Nat} {name : Name} (h : dentryLookupChild s p name = none) {c : Nat}
    (hc : c ∈ (s.dentry p).children) : (s.dentry c).name ≠ name := by
  simpa using List.find?_eq_none.mp h c hc

/-- A cached name is found, whichever sibling it belongs to. -/
theorem DentryTree.lookup (hs : DentryTree s) {p c : Nat} (hp : s.live p = true)
    (hc : c ∈ (s.dentry p).children) : dentryLookupChild s p (s.dentry c).name = some c := by
  cases h : dentryLookupChild s p (s.dentry c).name with
  | none => exact absurd rfl (lookupChild_none h hc)
  | some c' =>
    obtain ⟨hmem, hname⟩ := lookupChild_mem h
    rw [hs.names p c' c hp hmem hc hname]

end

def cacheChild (s : Vfs) (parent : Nat) (name : Name) (inode : VInode) : Vfs :=
  dentryAttachChild
    { s with
      dentry := update s.dentry s.next ⟨copyName name, some parent, [], inode, 1⟩
      live := update s.live s.next true
      next := s.next + 1 } parent s.next

section
variable (s : Vfs) (p : Nat) (name : Name) (inode : VInode)

@[simp] theorem cache_fs : (cacheChild s p name inode).fs = s.fs := rfl
@[simp] theorem cache_next : (cacheChild s p name inode).next = s.next + 1 := rfl
@[simp] theorem cache_live : (cacheChild s p name inode).live = update s.live s.next true := rfl

variable {p}

theorem cache_new (hp : p < s.next) : (cacheChild s p name inode).dentry s.next = ⟨copyName name, some p, [], inode, 1⟩ := by
  unfold cacheChild dentryAttachChild
  rw [setDentry_of_ne _ _ (by omega)]
  exact update_self ..

theorem cache_parent (hp : p < s.next) : (cacheChild s p name inode).dentry p =
      { s.dentry p with children := s.next :: (s.dentry p).children } := by
  unfold cacheChild dentryAttachChild
  simp only [setDentry_self, update_of_ne (Nat.ne_of_lt hp)]

theorem cache_old {d : Nat} (h : d < s.next) : (cacheChild s p name inode).dentry d = { s.dentry d with
      children := if d = p then s.next :: (s.dentry d).children else (s.dentry d).children } := by
  by_cases hp : d = p
  · subst hp
    rw [cache_parent s name inode h, if_pos rfl]
  · unfold cacheChild dentryAttachChild
    rw [setDentry_of_ne _ _ hp, if_neg hp]
    exact update_of_ne (Nat.ne_of_lt h) ..

end

section
variable {s : Vfs} {p : Nat} {name : Name}

theorem live_cacheChild (s : Vfs) (p : Nat) (name : Name) (inode : VInode) (d : Nat) :
    (cacheChild s p name inode).live d = true ↔ d = s.next ∨ s.live d = true := by
  rw [cache_live, update_apply]
  split <;> simp [*]

/-- A name that its parent does not have yet gets a dentry. -/
theorem DentryTree.cache (hs : DentryTree s) (hp : s.live p = true) (hlen : name.length < vfsNameMax)
    (hnew : dentryLookupChild s p name = none) (inode : VInode) : DentryTree (cacheChild s p name inode) := by
  have hpn := hs.bound p hp
  have hcopy : copyName name = name := List.take_of_length_le (Nat.le_sub_one_of_lt hlen)
  have hlive := live_cacheChild s p name inode
  have hfresh := cache_new s name inode hpn
  have hold : ∀ d, s.live d = true → (cacheChild s p name inode).dentry d = _ := fun d hd =>
    cache_old s name inode (hs.bound d hd)
  -- the children of a dentry that was there before
  have hchild : ∀ q, s.live q = true → ∀ c, c ∈ ((cacheChild s p name inode).dentry q).children →
      (q = p ∧ c = s.next) ∨ c ∈ (s.dentry q).children := by
    intro q hq c hc
    rw [hold q hq] at hc
    by_cases hqp : q = p
    · rcases List.mem_cons.mp (by simpa [hqp] using hc) with hc | hc
      · exact .inl ⟨hqp, hc⟩
      · exact .inr (by rw [hqp]; exact hc)
    · exact .inr (by simpa [hqp] using hc)
  have hname : ∀ c, s.live c = true →
      ((cacheChild s p name inode).dentry c).name = (s.dentry c).name := fun c hc => by rw [hold c hc]
  refine ⟨⟨(hlive 0).mpr (.inr hs.root.1), by rw [hold 0 hs.root.1]; exact hs.root.2⟩,
    fun d hd => ?_, fun q c hq hc => ?_, fun q hq => ?_, fun q c c' hq hc hc' hn => ?_⟩
  · rcases (hlive d).mp hd with rfl | hd
    · exact Nat.lt_succ_self _
    · exact Nat.lt_succ_of_lt (hs.bound d hd)
  · rcases (hlive q).mp hq with rfl | hq
    · rw [hfresh] at hc
      cases hc
    · rcases hchild q hq c hc with ⟨rfl, rfl⟩ | hc
      · exact ⟨(hlive _).mpr (.inl rfl), by rw [hfresh]⟩
      · obtain ⟨hcl, hcp⟩ := hs.child q c hq hc
        exact ⟨(hlive c).mpr (.inr hcl), by rw [hold c hcl]; exact hcp⟩
  · rcases (hlive q).mp hq with rfl | hq
    · rw [hfresh]
      exact List.nodup_nil
    · rw [hold q hq]
      simp only
      split
      · refine List.nodup_cons.mpr ⟨fun hmem => ?_, hs.nodup q hq⟩
        exact Nat.lt_irrefl _ (hs.bound _ (hs.child q _ hq hmem).1)
      · exact hs.nodup q hq
  · rcases (hlive q).mp hq with rfl | hq
    · rw [hfresh] at hc
      cases hc
    · -- two siblings, either of which may be the new one
      have hnot : ∀ x, x ∈ (s.dentry q).children → q = p →
          ((cacheChild s p name inode).dentry x).name ≠ name := by
        intro x hx hqp
        rw [hname x (hs.child q x hq hx).1]
        rw [hqp] at hx
        exact lookupChild_none hnew hx
      have hnext : ((cacheChild s p name inode).dentry s.next).name = name := by rw [hfresh]; exact hcopy
      rcases hchild q hq c hc with ⟨hqp, rfl⟩ | hc <;> rcases hchild q hq c' hc' with ⟨hqp', rfl⟩ | hc'
      · rfl
      · exact absurd (hn.symm.trans hnext) (hnot c' hc' hqp)
      · exact absurd (hn.trans hnext) (hnot c hc hqp')
      · rw [hname c (hs.child q c hq hc).1, hname c' (hs.child q c' hq hc').1] at hn
        exact hs.names q c c' hq hc hc' hn

end

variable (heap : Heap) (m : CapySuper)

theorem resolveMiss_cases (s : Vfs) (cur : Nat) (name : Name) : ∃ t, (t = s ∨ t = s.refresh m cur) ∧
      (((capyfsLookup heap m (s.dentry cur).inode name s.fs).1 = none ∧
          resolveMiss heap m s cur name = (none, t.setError .notFound)) ∨
        ∃ inode, (capyfsLookup heap m (s.dentry cur).inode name s.fs).1 = some inode ∧
          ((heap dentrySize = false ∧ resolveMiss heap m s cur name = (none, t.setError .noMemory)) ∨ (heap dentrySize = true ∧
              resolveMiss heap m s cur name = (some t.next, cacheChild t cur name inode)))) := by
  refine ⟨if (s.dentry cur).inode.isDir then s.refresh m cur else s, by split <;> simp, ?_⟩
  unfold resolveMiss
  simp only [lookup_readOnly heap m _ _ s.fs]
  generalize (if (s.dentry cur).inode.isDir then s.refresh m cur else s) = t
  cases (capyfsLookup heap m (s.dentry cur).inode name s.fs).1 with
  | none => exact .inl ⟨rfl, rfl⟩
  | some inode =>
    refine .inr ⟨inode, rfl, ?_⟩
    unfold dentryAlloc
    cases heap dentrySize with
    | false => exact .inl ⟨rfl, rfl⟩
    | true => exact .inr ⟨rfl, rfl⟩

end CapyOS.Proofs
