import CapyOS.Kernel.LinuxTmpfs

namespace CapyOS.Proofs
open Lib Tmpfs Function List Option
variable {flags : BitVec 32} {a : PosixTmp} {c : TmpfsCall}

section
variable {t : Tmpfs}

/-- The handle is open on file `i`. -/
def onFile (i : Fin maxFiles) (e : TmpfsHandle) : Bool := e.inUse && e.fileIdx == i

def handlesOn (t : Tmpfs) (i : Fin maxFiles) : Nat := slotCount t.handles (onFile i)

def TmpfsLinked (f : TmpfsFile) : Prop := f.inUse = true ∧ f.unlinked = false

/-- What holds of the tables between the two halves of a call. -/
structure TmpfsTables (t : Tmpfs) : Prop where
  unique : ∀ i j, TmpfsLinked (t.files i) → TmpfsLinked (t.files j) → (t.files i).name = (t.files j).name → i = j
  counted : ∀ i, (t.files i).inUse = true → (t.files i).refcount = handlesOn t i
  held : ∀ h, (t.handles h).inUse = true → (t.files (t.handles h).fileIdx).inUse = true
  bounded : ∀ i, (t.files i).inUse = true → (t.files i).size ≤ maxFileSize

/-- The invariant of the file system: names are unique among the linked files, the
reference count is the number of open handles, an open handle's slot holds its
file, and a file without a name has an open handle. -/
structure TmpfsSound (t : Tmpfs) : Prop extends TmpfsTables t where
  kept : ∀ i, (t.files i).inUse = true → (t.files i).unlinked = true → (t.files i).refcount ≠ 0

theorem view_setFile (i : Fin maxFiles) (f : TmpfsFile) : (t.setFile i f).view = t.view.setFile i (viewFile f) := by
  ext1
  · exact comp_update viewFile t.files i f
  · rfl

theorem view_setHandle (h : Fin maxHandles) (e : TmpfsHandle) : (t.setHandle h e).view = t.view.setHandle h (viewHandle e) := by
  ext1
  · rfl
  · exact comp_update viewHandle t.handles h e

theorem view_named (name : CString) : t.view.named name = t.findFileByName name := by
  unfold PosixTmp.named findFileByName findSlot
  congr 1
  funext i
  simp only [view, viewFile]
  cases (t.files i).inUse <;> cases (t.files i).unlinked <;> simp

theorem view_freeFile : findSlot t.view.files Option.isNone = t.allocFileSlot := by
  unfold allocFileSlot findSlot
  congr 1
  funext i
  simp only [view, viewFile]
  cases (t.files i).inUse <;> simp

theorem view_freeHandle : findSlot t.view.handles Option.isNone = t.allocHandleSlot := by
  unfold allocHandleSlot findSlot
  congr 1
  funext h
  simp only [view, viewHandle]
  cases (t.handles h).inUse <;> simp

theorem view_openCount (i : Fin maxFiles) : t.view.openCount i = handlesOn t i := by
  unfold PosixTmp.openCount handlesOn slotCount
  congr 2
  funext h
  simp only [view, viewHandle, onFile]
  cases (t.handles h).inUse <;> simp

theorem view_fileAt {i : Fin maxFiles} (hi : (t.files i).inUse = true) :
    t.view.fileAt i = ⟨if (t.files i).unlinked then none else some (t.files i).name,
      (range (t.files i).size).map (t.files i).content⟩ := by
  simp only [PosixTmp.fileAt, view, viewFile, hi, if_true, getD_some]

/-- A descriptor stands for an open handle in both, or in neither. -/
theorem view_handleOf (fd : Int) : t.view.handleOf fd = (t.handleFromFd fd).map fun h =>
      (h, ⟨(t.handles h).fileIdx, (t.handles h).pos, (t.handles h).flags⟩) := by
  unfold PosixTmp.handleOf handleFromFd
  cases handleSlot fd with
  | none => rfl
  | some h =>
    simp only [Option.bind_some, view, viewHandle, filter_some]
    cases (t.handles h).inUse <;> rfl

theorem handleFromFd_inUse {fd : Int} {h : Fin maxHandles} (hh : t.handleFromFd fd = some h) : (t.handles h).inUse = true :=
  (filter_eq_some_iff.mp hh).2

theorem findFileByName_linked {name : CString} {i : Fin maxFiles}
    (h : t.findFileByName name = some i) : TmpfsLinked (t.files i) ∧ (t.files i).name = name := by
  have hp := findSlot_some h
  simp only [Bool.and_eq_true, Bool.not_eq_true', beq_iff_eq] at hp
  exact ⟨hp.1, hp.2⟩

theorem TmpfsSound.seek (hs : TmpfsSound t) (h : Fin maxHandles) (pos : Nat) :
    TmpfsSound (t.setHandle h { t.handles h with pos := pos }) := by
  have hcount : ∀ i, handlesOn (t.setHandle h { t.handles h with pos := pos }) i = handlesOn t i :=
    fun i => slotCount_keep rfl
  refine { unique := hs.unique, counted := ?_, held := ?_, bounded := hs.bounded, kept := hs.kept }
  · intro i hi
    rw [hcount]
    exact hs.counted i hi
  · intro k hk
    simp only [setHandle] at hk ⊢
    by_cases hkh : k = h
    · subst hkh
      rw [update_self] at hk ⊢
      exact hs.held k hk
    · rw [update_of_ne hkh] at hk ⊢
      exact hs.held k hk

/-- File `i` gets other contents; its place in the tables stays. -/
theorem TmpfsSound.rewrite (hs : TmpfsSound t) {i : Fin maxFiles} {f : TmpfsFile}
    (huse : f.inUse = (t.files i).inUse) (hunl : f.unlinked = (t.files i).unlinked)
    (href : f.refcount = (t.files i).refcount) (hname : f.name = (t.files i).name)
    (hsize : f.size ≤ maxFileSize) : TmpfsSound (t.setFile i f) := by
  have hfields : ∀ j, ((t.setFile i f).files j).inUse = (t.files j).inUse ∧
      ((t.setFile i f).files j).unlinked = (t.files j).unlinked ∧
      ((t.setFile i f).files j).refcount = (t.files j).refcount ∧
      ((t.setFile i f).files j).name = (t.files j).name := by
    intro j
    simp only [setFile]
    by_cases hj : j = i
    · subst hj
      rw [update_self]
      exact ⟨huse, hunl, href, hname⟩
    · rw [update_of_ne hj]
      exact ⟨rfl, rfl, rfl, rfl⟩
  constructor
  · constructor
    · intro j k hj hk hjk
      unfold TmpfsLinked at hj hk
      rw [(hfields j).1, (hfields j).2.1] at hj
      rw [(hfields k).1, (hfields k).2.1] at hk
      rw [(hfields j).2.2.2, (hfields k).2.2.2] at hjk
      exact hs.unique j k hj hk hjk
    · intro j hj
      rw [(hfields j).2.2.1]
      exact hs.counted j ((hfields j).1 ▸ hj)
    · intro h hh
      rw [(hfields _).1]
      exact hs.held h hh
    · intro j hj
      by_cases hji : j = i
      · subst hji
        simpa only [setFile, update_self] using hsize
      · simp only [setFile, update_of_ne hji] at hj ⊢
        exact hs.bounded j hj
  · intro j hj hu
    rw [(hfields j).2.2.1]
    exact hs.kept j ((hfields j).1 ▸ hj) ((hfields j).2.1 ▸ hu)

/-- A slot without handles is taken, or given back: no other slot notices. -/
theorem TmpfsTables.replace (hs : TmpfsTables t) {i : Fin maxFiles} {f : TmpfsFile}
    (hfree : handlesOn t i = 0) (href : f.refcount = 0) (hsize : f.size ≤ maxFileSize)
    (hname : TmpfsLinked f → ∀ j, j ≠ i → TmpfsLinked (t.files j) → (t.files j).name ≠ f.name) :
    TmpfsTables (t.setFile i f) := by
  constructor
  · intro j k hj hk hjk
    simp only [setFile] at hj hk hjk
    by_cases hji : j = i <;> by_cases hki : k = i
    · rw [hji, hki]
    · subst hji
      rw [update_self] at hj hjk
      rw [update_of_ne hki] at hk hjk
      exact absurd hjk.symm (hname hj k hki hk)
    · subst hki
      rw [update_self] at hk hjk
      rw [update_of_ne hji] at hj hjk
      exact absurd hjk (hname hk j hji hj)
    · rw [update_of_ne hji] at hj hjk
      rw [update_of_ne hki] at hk hjk
      exact hs.unique j k hj hk hjk
  · intro j hj
    by_cases hji : j = i
    · subst hji
      simp only [setFile, update_self]
      exact href.trans hfree.symm
    · simp only [setFile, update_of_ne hji] at hj ⊢
      exact hs.counted j hj
  · intro h hh
    have hne : (t.handles h).fileIdx ≠ i := by
      intro heq
      have hoff := slotCount_zero hfree h
      simp only [onFile, heq, Bool.and_eq_false_iff, beq_self_eq_true, Bool.true_eq_false, or_false] at hoff
      exact Bool.false_ne_true (hoff.symm.trans hh)
    simp only [setFile, update_of_ne hne]
    exact hs.held h hh
  · intro j hj
    by_cases hji : j = i
    · subst hji
      simpa only [setFile, update_self] using hsize
    · simp only [setFile, update_of_ne hji] at hj ⊢
      exact hs.bounded j hj

theorem TmpfsTables.unheld (hs : TmpfsTables t) {i : Fin maxFiles} (hi : (t.files i).inUse = false) : handlesOn t i = 0 := by
  apply slotCount_none
  intro h
  cases hh : (t.handles h).inUse with
  | false => simp [onFile, hh]
  | true =>
    have hheld := hs.held h hh
    have hne : (t.handles h).fileIdx ≠ i := fun heq => Bool.false_ne_true (hi.symm.trans (heq ▸ hheld))
    simp [onFile, hne]

/-- The end of `close` and `unlink`: the file goes if it has neither name nor
handles. -/
theorem reap_sound (hs : TmpfsTables t) {i : Fin maxFiles} (hi : (t.files i).inUse = true)
    (hkept : ∀ j, j ≠ i → (t.files j).inUse = true → (t.files j).unlinked = true → (t.files j).refcount ≠ 0) :
    TmpfsSound (t.maybeReapFile i) ∧ (t.maybeReapFile i).view = t.view.release i := by
  have hname : (t.view.fileAt i).name = none ↔ (t.files i).unlinked = true := by
    rw [view_fileAt hi]
    cases (t.files i).unlinked <;> simp
  have hcount : t.view.openCount i = 0 ↔ (t.files i).refcount = 0 := by
    rw [view_openCount, hs.counted i hi]
  have hcond : ((t.view.fileAt i).name = none ∧ t.view.openCount i = 0) ↔
      ((t.files i).unlinked = true ∧ (t.files i).refcount = 0) := and_congr hname hcount
  unfold maybeReapFile PosixTmp.release
  by_cases hgo : (t.files i).unlinked = true ∧ (t.files i).refcount = 0
  · simp only [if_pos hgo, if_pos (hcond.mpr hgo)]
    have hfree : handlesOn t i = 0 := (hs.counted i hi).symm.trans hgo.2
    constructor
    · refine { toTmpfsTables := hs.replace hfree hgo.2 (Nat.zero_le _) (fun hl => ?_), kept := ?_ }
      · exact absurd hl.1 Bool.false_ne_true
      · intro j hj hu
        by_cases hji : j = i
        · subst hji
          simp only [setFile, update_self] at hj
          exact absurd hj Bool.false_ne_true
        · simp only [setFile, update_of_ne hji] at hj hu ⊢
          exact hkept j hji hj hu
    · exact view_setFile i _
  · simp only [if_neg hgo, if_neg (fun h => hgo (hcond.mp h))]
    refine ⟨{ toTmpfsTables := hs, kept := ?_ }, trivial⟩
    intro j hj hu
    by_cases hji : j = i
    · subst hji
      exact fun href => hgo ⟨hu, href⟩
    · exact hkept j hji hj hu

structure TmpfsAgrees (r : TmpfsReply × Tmpfs) (s : TmpfsReply × PosixTmp) : Prop where
  reply : r.1 = s.1
  view : r.2.view = s.2
  sound : TmpfsSound r.2

theorem TmpfsAgrees.same (hs : TmpfsSound t) (r : TmpfsReply) : TmpfsAgrees (r, t) (r, t.view) := ⟨rfl, rfl, hs⟩

theorem view_setHandle_self (h : Fin maxHandles) : t.view.setHandle h (viewHandle (t.handles h)) = t.view := by
  ext1
  · rfl
  · exact update_eq_self h t.view.handles

theorem view_setFile_self {i : Fin maxFiles} {f : Option PosixFile} (hf : f = viewFile (t.files i)) :
    t.view.setFile i f = t.view := by
  subst hf
  ext1
  · exact update_eq_self i t.view.files
  · rfl

theorem recount_same {t' : Tmpfs} {i : Fin maxFiles} {count : Nat} (hother : ∀ j, j ≠ i → t'.files j = t.files j)
    (hself : t'.files i = { t.files i with refcount := count }) (j : Fin maxFiles) :
    (t'.files j).inUse = (t.files j).inUse ∧ (t'.files j).unlinked = (t.files j).unlinked ∧
      (t'.files j).name = (t.files j).name ∧ (t'.files j).size = (t.files j).size := by
  by_cases hj : j = i
  · subst hj
    rw [hself]
    exact ⟨rfl, rfl, rfl, rfl⟩
  · rw [hother j hj]
    exact ⟨rfl, rfl, rfl, rfl⟩

/-- One file's count follows its handles. -/
theorem TmpfsTables.recount (hs : TmpfsTables t) {t' : Tmpfs} {i : Fin maxFiles} {count : Nat}
    (hother : ∀ j, j ≠ i → t'.files j = t.files j) (hself : t'.files i = { t.files i with refcount := count })
    (hcount : (t.files i).inUse = true → count = handlesOn t' i)
    (hrest : ∀ j, j ≠ i → handlesOn t' j = handlesOn t j)
    (hheld : ∀ k, (t'.handles k).inUse = true → (t.files (t'.handles k).fileIdx).inUse = true) :
    TmpfsTables t' := by
  have hsame := recount_same hother hself
  constructor
  · intro j k hj hk hjk
    unfold TmpfsLinked at hj hk
    rw [(hsame j).1, (hsame j).2.1] at hj
    rw [(hsame k).1, (hsame k).2.1] at hk
    rw [(hsame j).2.2.1, (hsame k).2.2.1] at hjk
    exact hs.unique j k hj hk hjk
  · intro j hj
    rw [(hsame j).1] at hj
    by_cases hji : j = i
    · subst hji
      rw [hself]
      exact hcount hj
    · rw [hother j hji, hrest j hji]
      exact hs.counted j hj
  · intro k hk
    rw [(hsame _).1]
    exact hheld k hk
  · intro j hj
    rw [(hsame j).2.2.2]
    exact hs.bounded j ((hsame j).1 ▸ hj)

theorem close_agrees (hs : TmpfsSound t) (fd : Int) : TmpfsAgrees (t.linuxTmpfsClose fd) (t.view.close fd) := by
  unfold linuxTmpfsClose PosixTmp.close
  rw [view_handleOf]
  cases hh : t.handleFromFd fd with
  | none => exact .same hs _
  | some h =>
    have huse := handleFromFd_inUse hh
    have hfile := hs.held h huse
    simp only [map_some]
    generalize hi : (t.handles h).fileIdx = i at hfile ⊢
    generalize ht' : (t.setHandle h closedHandle).setFile i
      { t.files i with refcount := (t.files i).refcount - 1 } = t'
    have hother : ∀ j, j ≠ i → t'.files j = t.files j := by
      intro j hj
      subst ht'
      exact update_of_ne hj _ _
    have hself : t'.files i = { t.files i with refcount := (t.files i).refcount - 1 } := by
      subst ht'
      exact update_self _ _ _
    have hsame := recount_same hother hself
    have hhandles : t'.handles = update t.handles h closedHandle := by
      subst ht'
      rfl
    have hlost : handlesOn t' i + 1 = handlesOn t i := by
      unfold handlesOn
      rw [hhandles]
      exact slotCount_lose (by simp [onFile, huse, hi]) rfl
    have hrest : ∀ j, j ≠ i → handlesOn t' j = handlesOn t j := by
      intro j hj
      unfold handlesOn
      rw [hhandles]
      exact slotCount_keep (by simp [onFile, hi, closedHandle, Ne.symm hj])
    have htables : TmpfsTables t' := by
      refine hs.recount hother hself (fun hj => ?_) hrest (fun k hk => ?_)
      · have hcount := hs.counted i hj
        omega
      · rw [hhandles] at hk ⊢
        by_cases hkh : k = h
        · subst hkh
          rw [update_self] at hk
          exact absurd hk Bool.false_ne_true
        · rw [update_of_ne hkh] at hk ⊢
          exact hs.held k hk
    have hview : t'.view = t.view.setHandle h none := by
      subst ht'
      exact (view_setFile i _).trans ((view_setFile_self rfl).trans (view_setHandle h closedHandle))
    obtain ⟨hsound, hreap⟩ := reap_sound htables (i := i) ((hsame i).1.trans hfile) (by
      intro j hj hju hjl
      rw [hother j hj] at hju hjl ⊢
      exact hs.kept j hju hjl)
    subst ht'
    exact ⟨rfl, hreap.trans (congrArg (·.release i) hview), hsound⟩

theorem unlink_agrees (hs : TmpfsSound t) (path : Option CString) :
    TmpfsAgrees (t.linuxTmpfsUnlink path) (t.view.unlink path) := by
  unfold linuxTmpfsUnlink PosixTmp.unlink
  cases path with
  | none => exact .same hs _
  | some path =>
    dsimp only
    cases validatePath path with
    | none => exact .same hs _
    | some name =>
      dsimp only
      rw [view_named]
      cases hfind : t.findFileByName name with
      | none => exact .same hs _
      | some i =>
        obtain ⟨hlinked, -⟩ := findFileByName_linked hfind
        generalize ht' : t.setFile i { t.files i with unlinked := true, name := [] } = t'
        have hview : t'.view = t.view.setFile i (some { t.view.fileAt i with name := none }) := by
          subst ht'
          rw [view_setFile, view_fileAt hlinked.1]
          simp only [viewFile, hlinked.1, if_true]
        have hother : ∀ j, j ≠ i → t'.files j = t.files j := by
          intro j hj
          subst ht'
          exact update_of_ne hj _ _
        have hself : t'.files i = { t.files i with unlinked := true, name := [] } := by
          subst ht'
          exact update_self _ _ _
        have hnot : ¬ TmpfsLinked (t'.files i) := by
          rw [hself]
          exact fun h => absurd h.2 Bool.true_eq_false.mp
        have hcount : ∀ j, handlesOn t' j = handlesOn t j := by
          subst ht'
          exact fun _ => rfl
        have hne : ∀ j, TmpfsLinked (t'.files j) → j ≠ i := by
          intro j hj heq
          subst heq
          exact hnot hj
        have htables : TmpfsTables t' := by
          constructor
          · intro j k hj hk hjk
            have hji := hne j hj
            have hki := hne k hk
            rw [hother j hji] at hj hjk
            rw [hother k hki] at hk hjk
            exact hs.unique j k hj hk hjk
          · intro j hj
            rw [hcount]
            by_cases hji : j = i
            · subst hji
              rw [hself]
              exact hs.counted j hlinked.1
            · rw [hother j hji] at hj ⊢
              exact hs.counted j hj
          · intro h hh
            subst ht'
            have hheld := hs.held h hh
            simp only [setFile]
            by_cases heq : (t.handles h).fileIdx = i
            · rw [heq, update_self]
              exact hlinked.1
            · rw [update_of_ne heq]
              exact hheld
          · intro j hj
            by_cases hji : j = i
            · subst hji
              rw [hself]
              exact hs.bounded j hlinked.1
            · rw [hother j hji] at hj ⊢
              exact hs.bounded j hj
        obtain ⟨hsound, hreap⟩ := reap_sound htables (i := i) (by rw [hself]; exact hlinked.1) (by
          intro j hj hju hjl
          rw [hother j hj] at hju hjl ⊢
          exact hs.kept j hju hjl)
        subst ht'
        exact ⟨rfl, hreap.trans (congrArg (·.release i) hview), hsound⟩

theorem read_agrees (hs : TmpfsSound t) (fd : Int) (buf : Bool) (len : Nat) :
    TmpfsAgrees (t.linuxTmpfsReadFd fd buf len) (t.view.read fd buf len) := by
  unfold linuxTmpfsReadFd PosixTmp.read
  rw [view_handleOf]
  cases hh : t.handleFromFd fd with
  | none => exact .same hs _
  | some h =>
    have huse := handleFromFd_inUse hh
    simp only [map_some]
    split
    next => exact .same hs _
    next =>
    split
    next => exact .same hs _
    next =>
    split
    next => exact .same hs _
    next =>
      rw [view_fileAt (hs.held h huse)]
      generalize t.files (t.handles h).fileIdx = f
      generalize hdata : (((range f.size).map f.content).drop (t.handles h).pos).take len = data
      have hlength : data.length = min (f.size - (t.handles h).pos) len := by
        rw [← hdata, length_take, length_drop, length_map, length_range, Nat.min_comm]
      split
      next hend =>
        have hnil : data = [] := eq_nil_of_length_eq_zero (by omega)
        subst hnil
        refine ⟨rfl, ?_, hs⟩
        have hself : viewHandle (t.handles h) =
            some ⟨(t.handles h).fileIdx, (t.handles h).pos, (t.handles h).flags⟩ := if_pos huse
        simpa only [length_nil, Nat.add_zero, ← hself] using (view_setHandle_self h).symm
      next hmore =>
        rw [← hlength]
        have hbytes : (range data.length).map (fun k => f.content ((t.handles h).pos + k)) = data := by
          apply ext_getElem
          · simp
          · intro k _ _
            simp [← hdata]
        refine ⟨congrArg (TmpfsReply.mk _) hbytes, ?_, hs.seek h _⟩
        · rw [view_setHandle]
          congr 1
          exact if_pos huse

theorem seek_agrees (hs : TmpfsSound t) (fd offset whence : Int) :
    TmpfsAgrees (t.linuxTmpfsLseekFd fd offset whence) (t.view.seek fd offset whence) := by
  unfold linuxTmpfsLseekFd PosixTmp.seek
  rw [view_handleOf]
  cases hh : t.handleFromFd fd with
  | none => exact .same hs _
  | some h =>
    have huse := handleFromFd_inUse hh
    simp only [map_some]
    rw [view_fileAt (hs.held h huse)]
    simp only [length_map, length_range]
    cases seekTarget (t.handles h).pos (t.files (t.handles h).fileIdx).size offset whence with
    | none => exact .same hs _
    | some newPos =>
      dsimp only
      split
      next => exact .same hs _
      next =>
        refine ⟨rfl, ?_, hs.seek h _⟩
        rw [view_setHandle]
        congr 1
        exact if_pos huse

def WriteSafe (t : Tmpfs) (e : TmpfsHandle) : Prop :=
  if hasFlag e.flags oAppend then
    maxFileSize ≤ (t.files e.fileIdx).size → e.pos = (t.files e.fileIdx).size
  else
    e.pos < maxFileSize →
      ∀ k, (t.files e.fileIdx).size ≤ k → k < e.pos → (t.files e.fileIdx).content k = 0

def OpenSafe (t : Tmpfs) (flags : BitVec 32) (i : Fin maxFiles) : Prop :=
  t.allocHandleSlot = none →
    (hasFlag flags oTrunc = true → (t.files i).size = 0) ∧
    (hasFlag flags oCreat = true → (t.files i).refcount ≠ 0)

def CallSafe (t : Tmpfs) : TmpfsCall → Prop
  | .openFile path flags => ∀ name i, openArguments path flags = .ok name →
      t.findFileByName name = some i → (hasFlag flags oCreat && hasFlag flags oExcl) = false →
      OpenSafe t flags i
  | .writeFd fd buf len => ∀ h, t.handleFromFd fd = some h → len ≠ 0 → buf.isSome = true →
      (t.handles h).flags &&& oAccmode ≠ oRdonly → WriteSafe t (t.handles h)
  | _ => True

theorem TmpfsSound.openCount (hs : TmpfsSound t) {h : Fin maxHandles} {i : Fin maxFiles} {pos : Nat}
    (hfree : (t.handles h).inUse = false) (hi : TmpfsLinked (t.files i)) :
    TmpfsSound ((t.setFile i { t.files i with refcount := (t.files i).refcount + 1 }).setHandle h
      { inUse := true, fileIdx := i, pos := pos, flags := flags }) := by
  generalize ht' : (t.setFile i { t.files i with refcount := (t.files i).refcount + 1 }).setHandle h
      { inUse := true, fileIdx := i, pos := pos, flags := flags } = t'
  have hother : ∀ j, j ≠ i → t'.files j = t.files j := by
    intro j hj
    subst ht'
    exact update_of_ne hj _ _
  have hself : t'.files i = { t.files i with refcount := (t.files i).refcount + 1 } := by
    subst ht'
    exact update_self _ _ _
  have hsame := recount_same hother hself
  have hhandles : t'.handles = update t.handles h
      { inUse := true, fileIdx := i, pos := pos, flags := flags } := by
    subst ht'
    rfl
  have hgain : handlesOn t' i = handlesOn t i + 1 := by
    unfold handlesOn
    rw [hhandles]
    exact slotCount_gain (by simp [onFile, hfree]) (by simp [onFile])
  have hrest : ∀ j, j ≠ i → handlesOn t' j = handlesOn t j := by
    intro j hj
    unfold handlesOn
    rw [hhandles]
    exact slotCount_keep (by simp [onFile, hfree, Ne.symm hj])
  constructor
  · refine hs.recount hother hself (fun hj => ?_) hrest (fun k hk => ?_)
    · rw [hgain, ← hs.counted i hj]
    · rw [hhandles] at hk ⊢
      by_cases hkh : k = h
      · subst hkh
        rw [update_self]
        exact hi.1
      · rw [update_of_ne hkh] at hk ⊢
        exact hs.held k hk
  · intro j hj hu
    rw [(hsame j).1] at hj
    rw [(hsame j).2.1] at hu
    by_cases hji : j = i
    · subst hji
      exact absurd (hi.2.symm.trans hu) Bool.false_ne_true
    · rw [hother j hji]
      exact hs.kept j hj hu

/-- A handle is free: the code and the model open the same file. -/
theorem openHandle_agrees (hs : TmpfsSound t) {h : Fin maxHandles} (hh : t.allocHandleSlot = some h)
    (name : CString) (flags : BitVec 32) {i : Fin maxFiles} (hi : TmpfsLinked (t.files i)) :
    TmpfsAgrees (t.openHandle name flags i) (t.view.openOn flags i (t.view.fileAt i)) := by
  have hfree : (t.handles h).inUse = false := by
    simpa using findSlot_some hh
  unfold openHandle PosixTmp.openOn
  rw [view_freeHandle, hh]
  have hfile : viewFile (t.files i) = some (t.view.fileAt i) := by
    rw [view_fileAt hi.1]
    exact if_pos hi.1
  refine ⟨rfl, ?_, hs.openCount hfree hi⟩
  dsimp only
  rw [view_setHandle, view_setFile]
  congr 1
  · exact congrArg (t.view.setFile i) hfile
  · rw [view_fileAt hi.1]
    simp only [viewHandle, if_true, length_map, length_range]

theorem openOn_setFile {h : Fin maxHandles} (hh : findSlot a.handles Option.isNone = some h)
    (flags : BitVec 32) (i : Fin maxFiles) (g : Option PosixFile) (f : PosixFile) :
    (a.setFile i g).openOn flags i f = a.openOn flags i f := by
  unfold PosixTmp.openOn
  have hh' : findSlot (a.setFile i g).handles Option.isNone = some h := hh
  rw [hh, hh']
  simp only [PosixTmp.setFile, update_idem]

theorem create_agrees (hs : TmpfsSound t) {name : CString} (flags : BitVec 32) {i : Fin maxFiles}
    (hfind : t.findFileByName name = none) (halloc : t.allocFileSlot = some i) (hcreat : hasFlag flags oCreat = true) :
    TmpfsAgrees ((t.setFile i { t.files i with
        inUse := true, unlinked := false, refcount := 0, size := 0, name := name }).openHandle name flags i)
      (t.view.openOn flags i ⟨some name, []⟩) := by
  have hunused : (t.files i).inUse = false := by
    simpa using findSlot_some halloc
  have hfree := hs.unheld hunused
  generalize hf : ({ t.files i with
    inUse := true, unlinked := false, refcount := 0, size := 0, name := name } : TmpfsFile) = f
  have hlinked : TmpfsLinked f := by
    subst hf
    exact ⟨rfl, rfl⟩
  have hself : (t.setFile i f).files i = f := update_self _ _ _
  have hnew : TmpfsSound (t.setFile i f) := by
    constructor
    · apply hs.replace hfree
      · subst hf
        rfl
      · subst hf
        exact Nat.zero_le _
      · intro _ j _ hj hname
        have hno := findSlot_none hfind j
        subst hf
        simp [hj.1, hj.2, hname] at hno
    · intro j hj hu
      by_cases hji : j = i
      · subst hji
        rw [hself] at hu
        exact absurd (hlinked.2.symm.trans hu) Bool.false_ne_true
      · simp only [setFile, update_of_ne hji] at hj hu ⊢
        exact hs.kept j hj hu
  have hat : (t.setFile i f).view.fileAt i = ⟨some name, []⟩ := by
    rw [view_fileAt (by rw [hself]; exact hlinked.1), hself]
    subst hf
    rfl
  cases hh : t.allocHandleSlot with
  | some h =>
    have hopen := openHandle_agrees hnew (h := h) hh name flags (i := i) (by rw [hself]; exact hlinked)
    rwa [hat, view_setFile, openOn_setFile (by rw [view_freeHandle]; exact hh)] at hopen
  | none =>
    -- the file that was just made is found under its name and given back
    have hfound : (t.setFile i f).findFileByName name = some i := by
      have hp : ((t.setFile i f).files i).name = name ∧ TmpfsLinked ((t.setFile i f).files i) := by
        rw [hself]
        exact ⟨by subst hf; rfl, hlinked⟩
      cases hfind' : (t.setFile i f).findFileByName name with
      | none =>
        have hno := findSlot_none hfind' i
        simp [hp.1, hp.2.1, hp.2.2] at hno
      | some j =>
        obtain ⟨hj, hname⟩ := findFileByName_linked hfind'
        exact congrArg some (hnew.unique j i hj hp.2 (hname.trans hp.1.symm))
    have hback : (t.setFile i f).openHandle name flags i =
        (reply (-emfile), t.setFile i { f with inUse := false, name := [] }) := by
      unfold openHandle
      have hh' : (t.setFile i f).allocHandleSlot = none := hh
      rw [hh']
      dsimp only
      rw [hself, if_pos ⟨by subst hf; rfl, hcreat, hfound⟩]
      simp only [setFile, update_idem]
    have hopenOn : t.view.openOn flags i ⟨some name, []⟩ = (reply (-emfile), t.view) := by
      unfold PosixTmp.openOn
      rw [view_freeHandle, hh]
    rw [hback, hopenOn]
    refine ⟨rfl, ?_, ?_⟩
    · exact (view_setFile i _).trans (view_setFile_self (by simp [viewFile, hunused]))
    · constructor
      · apply hs.replace hfree
        · subst hf
          rfl
        · subst hf
          exact Nat.zero_le _
        · exact fun hl => absurd hl.1 Bool.false_ne_true
      · intro j hj hu
        by_cases hji : j = i
        · subst hji
          simp only [setFile, update_self] at hj
          exact absurd hj Bool.false_ne_true
        · simp only [setFile, update_of_ne hji] at hj hu ⊢
          exact hs.kept j hj hu

/-- Without a handle, an open that is safe undoes nothing. -/
theorem openHandle_refused (hh : t.allocHandleSlot = none) (name : CString)
    {i : Fin maxFiles} (href : hasFlag flags oCreat = true → (t.files i).refcount ≠ 0) :
    t.openHandle name flags i = (reply (-emfile), t) := by
  unfold openHandle
  rw [hh]
  exact if_neg (fun h => href h.2.1 h.1)

theorem openOn_refused (hh : findSlot a.handles Option.isNone = none) (flags : BitVec 32)
    (i : Fin maxFiles) (f : PosixFile) : a.openOn flags i f = (reply (-emfile), a) := by
  unfold PosixTmp.openOn
  rw [hh]

theorem open_agrees (hs : TmpfsSound t) {path : Option CString}
    (hsafe : CallSafe t (.openFile path flags)) : TmpfsAgrees (t.linuxTmpfsOpen path flags) (t.view.openFile path flags) := by
  unfold linuxTmpfsOpen PosixTmp.openFile
  cases hargs : openArguments path flags with
  | error e => exact .same hs _
  | ok name =>
    dsimp only
    rw [view_named]
    cases hfind : t.findFileByName name with
    | none =>
      dsimp only
      split
      next hcreat =>
        rw [view_freeFile]
        cases halloc : t.allocFileSlot with
        | none => exact .same hs _
        | some i => exact create_agrees hs flags hfind halloc hcreat
      next => exact .same hs _
    | some i =>
      dsimp only
      split
      next => exact .same hs _
      next hexcl =>
        obtain ⟨hlinked, -⟩ := findFileByName_linked hfind
        have hopen := hsafe name i hargs hfind (by simpa using hexcl)
        split
        next htrunc =>
          generalize hf : ({ t.files i with size := 0 } : TmpfsFile) = f
          have hself : (t.setFile i f).files i = f := update_self _ _ _
          have hnew : TmpfsSound (t.setFile i f) := by
            subst hf
            exact hs.rewrite rfl rfl rfl rfl (Nat.zero_le _)
          have hlinked' : TmpfsLinked ((t.setFile i f).files i) := by
            rw [hself]
            subst hf
            exact hlinked
          have hat : (t.setFile i f).view.fileAt i = { t.view.fileAt i with bytes := [] } := by
            rw [view_fileAt hlinked'.1, view_fileAt hlinked.1, hself]
            subst hf
            rfl
          cases hh : t.allocHandleSlot with
          | some h =>
            have hstep := openHandle_agrees hnew (h := h) hh name flags hlinked'
            rwa [hat, view_setFile, openOn_setFile (by rw [view_freeHandle]; exact hh)] at hstep
          | none =>
            obtain ⟨hsize, href⟩ := hopen hh
            have hsame : f = t.files i := by
              subst hf
              rw [← hsize htrunc]
            have ht : t.setFile i f = t := by
              rw [hsame, setFile, update_eq_self]
            rw [ht, openHandle_refused hh name href, openOn_refused (by rw [view_freeHandle]; exact hh)]
            exact .same hs _
        next =>
          cases hh : t.allocHandleSlot with
          | some h => exact openHandle_agrees hs hh name flags hlinked
          | none =>
            rw [openHandle_refused hh name (hopen hh).2, openOn_refused (by rw [view_freeHandle]; exact hh)]
            exact .same hs _

/-- A store at the handle's position, over a gap of zeros. -/
theorem writeAt_agrees (hs : TmpfsSound t) {h : Fin maxHandles} (huse : (t.handles h).inUse = true)
    (buf : Bytes) {len : Nat} (hlen : len ≠ 0) (hroom : (t.handles h).pos < maxFileSize)
    (hgap : ∀ k, (t.files (t.handles h).fileIdx).size ≤ k → k < (t.handles h).pos →
      (t.files (t.handles h).fileIdx).content k = 0) :
    TmpfsAgrees (t.writeAt h buf len)
      (let n := min len (maxFileSize - (t.handles h).pos)
       let f := t.view.fileAt (t.handles h).fileIdx
       (reply n, (t.view.setFile (t.handles h).fileIdx
          (some { f with bytes := PosixTmp.overwrite f.bytes (t.handles h).pos n buf })).setHandle h
            (some ⟨(t.handles h).fileIdx, (t.handles h).pos + n, (t.handles h).flags⟩))) := by
  have hfile := hs.held h huse
  unfold writeAt
  dsimp only
  rw [if_neg (Nat.not_le_of_lt hroom)]
  generalize hn : min len (maxFileSize - (t.handles h).pos) = n
  rw [if_neg (show n ≠ 0 by omega)]
  generalize hf : ({ t.files (t.handles h).fileIdx with
    content := blit (t.files (t.handles h).fileIdx).content (t.handles h).pos n buf,
    size := max (t.files (t.handles h).fileIdx).size ((t.handles h).pos + n) } : TmpfsFile) = f
  have hcontent : f.content = blit (t.files (t.handles h).fileIdx).content (t.handles h).pos n buf := by
    rw [← hf]
  have hsize : f.size = max (t.files (t.handles h).fileIdx).size ((t.handles h).pos + n) := by
    rw [← hf]
  have hnew : TmpfsSound (t.setFile (t.handles h).fileIdx f) := by
    have hbound := hs.bounded _ hfile
    rw [← hf] at hsize ⊢
    exact hs.rewrite rfl rfl rfl rfl (by omega)
  have hbytes : (range f.size).map f.content = PosixTmp.overwrite
      ((range (t.files (t.handles h).fileIdx).size).map (t.files (t.handles h).fileIdx).content)
      (t.handles h).pos n buf := by
    unfold PosixTmp.overwrite
    rw [length_map, length_range, ← hsize]
    apply map_congr_left
    intro k hk
    rw [mem_range] at hk
    rw [hcontent, blit]
    split
    next => rfl
    next hout =>
      by_cases hin : k < (t.files (t.handles h).fileIdx).size
      · rw [getD_eq_getElem?_getD, List.getElem?_map, List.getElem?_range hin]
        rfl
      · rw [getD_eq_getElem?_getD, List.getElem?_eq_none (by simpa using hin)]
        exact hgap k (Nat.le_of_not_lt hin) (by omega)
  have hview : viewFile f = some ⟨if (t.files (t.handles h).fileIdx).unlinked then none
      else some (t.files (t.handles h).fileIdx).name, (range f.size).map f.content⟩ := by
    rw [← hf]
    exact if_pos hfile
  refine ⟨rfl, ?_, hnew.seek h _⟩
  rw [view_setHandle, view_setFile, view_fileAt hfile, hview, hbytes]
  congr 1
  exact if_pos huse

theorem write_agrees (hs : TmpfsSound t) {fd : Int} {buf : Option Bytes} {len : Nat}
    (hsafe : CallSafe t (.writeFd fd buf len)) : TmpfsAgrees (t.linuxTmpfsWriteFd fd buf len) (t.view.write fd buf len) := by
  unfold linuxTmpfsWriteFd PosixTmp.write
  rw [view_handleOf]
  cases hh : t.handleFromFd fd with
  | none => exact .same hs _
  | some h =>
    have huse := handleFromFd_inUse hh
    have hfile := hs.held h huse
    simp only [map_some]
    split
    next => exact .same hs _
    next hlen =>
    cases buf with
    | none => exact .same hs _
    | some buf =>
      dsimp only
      split
      next => exact .same hs _
      next hmode =>
        have hwrite := hsafe h hh hlen rfl hmode
        unfold WriteSafe at hwrite
        have hlength : (t.view.fileAt (t.handles h).fileIdx).bytes.length =
            (t.files (t.handles h).fileIdx).size := by
          rw [view_fileAt hfile]
          simp
        rw [hlength]
        split
        next happend =>
          rw [if_pos happend] at hwrite
          split
          next hfull =>
            -- the handle is at the end of the full file already
            have hpos : { t.handles h with pos := (t.files (t.handles h).fileIdx).size } = t.handles h := by
              rw [← hwrite hfull]
            have ht : t.setHandle h { t.handles h with pos := (t.files (t.handles h).fileIdx).size } = t := by
              rw [hpos, setHandle, update_eq_self]
            rw [ht, writeAt, if_pos (by rw [hwrite hfull]; exact hfull)]
            exact .same hs _
          next hroom =>
            generalize he : ({ t.handles h with
              pos := (t.files (t.handles h).fileIdx).size } : TmpfsHandle) = e
            have hself : (t.setHandle h e).handles h = e := update_self _ _ _
            have hsought : TmpfsSound (t.setHandle h e) := by
              rw [← he]
              exact hs.seek h _
            have hstep := writeAt_agrees hsought (h := h) (by rw [hself, ← he]; exact huse) buf hlen
              (by rw [hself, ← he]; exact Nat.lt_of_not_le hroom)
              (by rw [hself, ← he]; exact fun k h1 h2 => absurd h1 (Nat.not_le_of_lt h2))
            rw [hself, view_setHandle, ← he] at hstep
            rw [← he]
            refine ⟨hstep.reply, hstep.view.trans ?_, hstep.sound⟩
            simp only [PosixTmp.setHandle, PosixTmp.setFile, update_idem]
            rfl
        next hplain =>
          rw [if_neg hplain] at hwrite
          split
          next hfull =>
            rw [writeAt, if_pos hfull]
            exact .same hs _
          next hroom =>
            exact writeAt_agrees hs huse buf hlen (Nat.lt_of_not_le hroom)
              (hwrite (Nat.lt_of_not_le hroom))

theorem step_agrees (hs : TmpfsSound t) (hc : CallSafe t c) :
    TmpfsAgrees (tmpfsStep t c) (posixStep t.view c) := by
  cases c with
  | openFile path flags => exact open_agrees hs hc
  | close fd => exact close_agrees hs fd
  | readFd fd buf len => exact read_agrees hs fd buf len
  | writeFd fd buf len => exact write_agrees hs hc
  | lseekFd fd offset whence => exact seek_agrees hs fd offset whence
  | unlink path => exact unlink_agrees hs path

def SafeRun (t : Tmpfs) : List TmpfsCall → Prop
  | [] => True
  | c :: cs => CallSafe t c ∧ SafeRun (tmpfsStep t c).2 cs

theorem run_agrees {calls : List TmpfsCall} (hs : TmpfsSound t) (h : SafeRun t calls) :
    (tmpfsRun t calls).1 = (posixRun t.view calls).1 ∧
      (tmpfsRun t calls).2.view = (posixRun t.view calls).2 ∧ TmpfsSound (tmpfsRun t calls).2 := by
  induction calls generalizing t with
  | nil => exact ⟨rfl, rfl, hs⟩
  | cons c cs ih =>
    obtain ⟨hreply, hview, hsound⟩ := step_agrees hs h.1
    obtain ⟨hreplies, hend, hlast⟩ := ih hsound h.2
    rw [hview] at hreplies hend
    exact ⟨congrArg₂ List.cons hreply hreplies, hend, hlast⟩

theorem reset_sound (t : Tmpfs) : TmpfsSound t.linuxTmpfsReset where
  unique _ _ h := absurd h.1 Bool.false_ne_true
  counted _ h := absurd h Bool.false_ne_true
  held _ h := absurd h Bool.false_ne_true
  bounded _ h := absurd h Bool.false_ne_true
  kept _ h := absurd h Bool.false_ne_true

theorem openOn_error {i : Fin maxFiles} {f : PosixFile} (h : (a.openOn flags i f).1.value < 0) :
    (a.openOn flags i f).2 = a := by
  unfold PosixTmp.openOn at h ⊢
  split at h
  next => rfl
  next => simp only [reply, fdBase] at h; omega

theorem openFile_error (h : (a.openFile path flags).1.value < 0) : (a.openFile path flags).2 = a := by
  unfold PosixTmp.openFile at h ⊢
  split
  next => rfl
  next he =>
    simp only [he] at h
    split
    next hn =>
      simp only [hn] at h
      split
      next hc =>
        simp only [hc, if_true] at h
        split
        next => rfl
        next hf =>
          simp only [hf] at h
          exact openOn_error h
      next => rfl
    next hn =>
      simp only [hn] at h
      split
      next => rfl
      next hx =>
        rw [if_neg hx] at h
        split
        next ht =>
          rw [if_pos ht] at h
          exact openOn_error h
        next ht =>
          rw [if_neg ht] at h
          exact openOn_error h

theorem close_error (h : (a.close fd).1.value < 0) : (a.close fd).2 = a := by
  unfold PosixTmp.close at h ⊢
  split at h
  next => rfl
  next => exact absurd h (Int.lt_irrefl 0)

theorem read_error (h : (a.read fd buf len).1.value < 0) : (a.read fd buf len).2 = a := by
  unfold PosixTmp.read at h ⊢
  split
  next => rfl
  next he =>
    simp only [he] at h
    split
    next => rfl
    next hl =>
      split
      next => rfl
      next hb =>
        split
        next => rfl
        next hm =>
          rw [if_neg hl, if_neg hb, if_neg hm] at h
          exact absurd h (Int.not_lt.mpr (Int.natCast_nonneg _))

theorem write_error (h : (a.write fd buf len).1.value < 0) : (a.write fd buf len).2 = a := by
  unfold PosixTmp.write at h ⊢
  split
  next => rfl
  next he =>
    simp only [he] at h
    split
    next => rfl
    next hl =>
      cases buf with
      | none => rfl
      | some buf =>
        dsimp only at h ⊢
        split
        next => rfl
        next hm =>
          generalize hp : (if hasFlag _ oAppend = true then _ else _) = pos at h ⊢
          split
          next => rfl
          next hf =>
            simp only [hl, hm, hf, if_false, reply] at h
            omega

theorem seek_error (h : (a.seek fd offset whence).1.value < 0) : (a.seek fd offset whence).2 = a := by
  unfold PosixTmp.seek at h ⊢
  split
  next => rfl
  next he =>
    simp only [he] at h
    split
    next => rfl
    next ht =>
      simp only [ht] at h
      split
      next => rfl
      next hn =>
        simp only [hn, if_false, reply] at h

theorem unlink_error (h : (a.unlink path).1.value < 0) : (a.unlink path).2 = a := by
  unfold PosixTmp.unlink at h ⊢
  split
  next => rfl
  next he =>
    split
    next => rfl
    next hv =>
      split
      next => rfl
      next hn =>
        simp only [hv, hn] at h
        exact absurd h (Int.lt_irrefl 0)

theorem posixStep_error (h : (posixStep a c).1.value < 0) : (posixStep a c).2 = a := by
  cases c with
  | openFile path flags => exact openFile_error h
  | close fd => exact close_error h
  | readFd fd buf len => exact read_error h
  | writeFd fd buf len => exact write_error h
  | lseekFd fd offset whence => exact seek_error h
  | unlink path => exact unlink_error h

/-- A slot that stays in use keeps its name or loses it. -/
def KeepsNames (a b : PosixTmp) : Prop :=
  ∀ i f g, a.files i = some f → b.files i = some g → g.name = f.name ∨ g.name = none

theorem KeepsNames.refl (a : PosixTmp) : KeepsNames a a :=
  fun _ _ _ hf hg => .inl (congrArg PosixFile.name (Option.some.inj (hg.symm.trans hf)))

theorem KeepsNames.put {b : PosixTmp} {j : Fin maxFiles} {x : PosixFile}
    (hb : b.files = update a.files j (some x))
    (hx : a.files j = none ∨ x.name = (a.fileAt j).name ∨ x.name = none) : KeepsNames a b := by
  intro i f g hf hg
  rw [hb] at hg
  by_cases hij : i = j
  · subst hij
    rw [update_self] at hg
    cases hg
    simpa [PosixTmp.fileAt, hf] using hx
  · rw [update_of_ne hij] at hg
    exact KeepsNames.refl a i f g hf hg

theorem KeepsNames.release {b : PosixTmp} (h : KeepsNames a b) (j : Fin maxFiles) : KeepsNames a (b.release j) := by
  intro i f g hf hg
  unfold PosixTmp.release at hg
  split at hg
  next =>
    simp only [PosixTmp.setFile] at hg
    by_cases hij : i = j
    · subst hij
      rw [update_self] at hg
      cases hg
    · rw [update_of_ne hij] at hg
      exact h i f g hf hg
  next => exact h i f g hf hg

theorem openOn_names {j : Fin maxFiles} {x : PosixFile}
    (hx : a.files j = none ∨ x.name = (a.fileAt j).name ∨ x.name = none) :
    KeepsNames a (a.openOn flags j x).2 := by
  unfold PosixTmp.openOn
  split
  next => exact .refl a
  next => exact .put rfl hx

theorem openFile_names (path : Option CString) : KeepsNames a (a.openFile path flags).2 := by
  unfold PosixTmp.openFile
  split
  next => exact .refl a
  next =>
    split
    next =>
      split
      next =>
        split
        next => exact .refl a
        -- the slot was empty
        next j hj => exact openOn_names (.inl (by simpa using findSlot_some hj))
      next => exact .refl a
    next =>
      split
      next => exact .refl a
      next => split <;> exact openOn_names (.inr (.inl rfl))

theorem write_names (fd : Int) (buf : Option Bytes) (len : Nat) : KeepsNames a (a.write fd buf len).2 := by
  unfold PosixTmp.write
  split
  next => exact .refl a
  next =>
    split
    next => exact .refl a
    next =>
      cases buf with
      | none => exact .refl a
      | some buf =>
        dsimp only
        split
        next => exact .refl a
        next =>
          generalize (if hasFlag _ oAppend = true then _ else _) = pos
          split
          next => exact .refl a
          next => exact .put rfl (.inr (.inl rfl))

theorem unlink_names (path : Option CString) : KeepsNames a (a.unlink path).2 := by
  unfold PosixTmp.unlink
  split
  next => exact .refl a
  next =>
    split
    next => exact .refl a
    next =>
      split
      next => exact .refl a
      next => exact .release (.put rfl (.inr (.inr rfl))) _

theorem posixStep_slot : KeepsNames a (posixStep a c).2 := by
  cases c with
  | openFile path flags => exact openFile_names path
  | close fd =>
    simp only [posixStep, PosixTmp.close]
    split
    next => exact .refl a
    next => exact .release (b := a.setHandle _ none) (.refl a) _
  | readFd fd buf len =>
    simp only [posixStep, PosixTmp.read]
    repeat' split
    all_goals exact .refl a
  | writeFd fd buf len => exact write_names fd buf len
  | lseekFd fd offset whence =>
    simp only [posixStep, PosixTmp.seek]
    repeat' split
    all_goals exact .refl a
  | unlink path => exact unlink_names path

/-- From a reset on, in a run whose calls all meet the condition, the code gives the
replies of the model and keeps its files and handles; names are unique, counts are
right and open files stay, a slot gets another file only once it is empty, and a call
that fails changes nothing. -/
theorem tmpfs_refines (t : Tmpfs) (calls : List TmpfsCall) (h : SafeRun t.linuxTmpfsReset calls) :
    (tmpfsRun t.linuxTmpfsReset calls).1 = (posixRun .empty calls).1 ∧
    (tmpfsRun t.linuxTmpfsReset calls).2.view = (posixRun .empty calls).2 ∧
    TmpfsSound (tmpfsRun t.linuxTmpfsReset calls).2 ∧
    ∀ c, CallSafe (tmpfsRun t.linuxTmpfsReset calls).2 c →
      ((tmpfsStep (tmpfsRun t.linuxTmpfsReset calls).2 c).1.value < 0 →
        (tmpfsStep (tmpfsRun t.linuxTmpfsReset calls).2 c).2.view =
          (tmpfsRun t.linuxTmpfsReset calls).2.view) ∧
      ∀ i f g, (tmpfsRun t.linuxTmpfsReset calls).2.view.files i = some f →
        (tmpfsStep (tmpfsRun t.linuxTmpfsReset calls).2 c).2.view.files i = some g →
        g.name = f.name ∨ g.name = none := by
  obtain ⟨hreplies, hview, hsound⟩ := run_agrees (reset_sound t) h
  refine ⟨hreplies, hview, hsound, fun c hc => ?_⟩
  obtain ⟨hreply, hnext, -⟩ := step_agrees hsound hc
  rw [hreply, hnext]
  exact ⟨posixStep_error, posixStep_slot⟩

end

/-- A table that was never used. -/
def blankTmpfs : Tmpfs where
  files _ := { inUse := false, unlinked := false, refcount := 0, size := 0, name := [], content := zeros }
  handles _ := closedHandle

/-- `/tmp/a`. -/
def tmpA : CString := tmpfsPath ++ [0x61]

def staleRun : List TmpfsCall :=
  [.openFile (some tmpA) 0x42#32, .writeFd 0xA000 (some fun _ => 7) 2, .close 0xA000,
    .openFile (some tmpA) 0x202#32, .lseekFd 0xA000 1 0, .writeFd 0xA000 (some fun _ => 9) 1,
    .lseekFd 0xA000 0 0, .readFd 0xA000 true 2]

theorem tmpfs_stale_byte :
    (tmpfsRun blankTmpfs.linuxTmpfsReset staleRun).1.getLast? = some ⟨2, [7, 9]⟩ ∧
    (posixRun .empty staleRun).1.getLast? = some ⟨2, [0, 9]⟩ := by
  decide +kernel

def plainRun : List TmpfsCall :=
  [.openFile (some tmpA) 0x42#32, .writeFd 0xA000 (some fun _ => 7) 2, .lseekFd 0xA000 0 0,
    .readFd 0xA000 true 2]

theorem tmpfs_refines_plain :
    SafeRun blankTmpfs.linuxTmpfsReset plainRun ∧
      (tmpfsRun blankTmpfs.linuxTmpfsReset plainRun).1 = (posixRun .empty plainRun).1 := by
  have hsafe : SafeRun blankTmpfs.linuxTmpfsReset plainRun := by
    refine ⟨fun name i _ hfind _ => ?_, fun h _ _ _ _ => ?_, trivial, trivial, trivial⟩
    · exact absurd (findFileByName_linked hfind).1.1 Bool.false_ne_true
    · have hstart : ∀ h, ((tmpfsStep blankTmpfs.linuxTmpfsReset
          (.openFile (some tmpA) 0x42#32)).2.handles h).pos = 0 ∧
          hasFlag ((tmpfsStep blankTmpfs.linuxTmpfsReset
            (.openFile (some tmpA) 0x42#32)).2.handles h).flags oAppend = false := by
        decide
      rw [WriteSafe, if_neg (by rw [(hstart h).2]; exact Bool.false_ne_true)]
      intro _ k _ hk
      rw [(hstart h).1] at hk
      exact absurd hk (Nat.not_lt_zero k)
  exact ⟨hsafe, (tmpfs_refines blankTmpfs plainRun hsafe).1⟩

end CapyOS.Proofs
