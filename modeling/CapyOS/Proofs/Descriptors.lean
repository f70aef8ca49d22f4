import CapyOS.Kernel.Descriptors
import CapyOS.Proofs.ProcessTree

namespace CapyOS.Proofs
open Function List
variable {p : ProcSlot} {fd : Fd} {l : List Fd} {A : ProcSlot → Prop} {id : PipeId}
variable {s s' : Descriptors} {t t' : ProcTable} {env : TreeEnv}

/-- What a descriptor holds is held by it: its file was not closed and its pipe end is open.
A file no descriptor holds was closed once. -/
structure Exact (s : Descriptors) : Prop where
  held : ∀ p fd f, s.fds p fd = .vfs f → f < s.opened ∧ s.closed.count f = 0
  once : ∀ f < s.opened, (∀ p fd, s.fds p fd ≠ .vfs f) → s.closed.count f = 1
  sides : ∀ p fd id side, s.fds p fd = .pipe id side → (s.pipes id).isOpen side = true
  reissued : ∀ id, s.pipeSlot = some id → ∀ p fd side, s.fds p fd ≠ .pipe id side

structure FdInv (s : Descriptors) : Prop where
  held : ∀ p fd f, s.fds p fd = .vfs f → f < s.opened ∧ s.closed.count f = 0
  once : ∀ f < s.opened, (∀ p fd, s.fds p fd ≠ .vfs f) → s.closed.count f = 1
  sides : ∀ p fd id side, s.fds p fd = .pipe id side → (s.pipes id).isOpen side = true
  fresh : ∀ f, s.opened ≤ f → s.closed.count f = 0
  apart : ∀ p i j, s.fds p i = s.fds p j → s.fds p i ≠ .free → i = j
  vacant : ∀ p fd, (s.table.procs p).state = .unused → s.fds p fd = .free

theorem pipeSlot_closed (h : s.pipeSlot = some id) (side : PipeSide) : (s.pipes id).isOpen side = false := by
  have hid := List.find?_some h
  simp only [decide_eq_true_eq, Bool.not_eq_true] at hid
  cases side
  · exact hid.1
  · exact hid.2

theorem unreferred_of_closed (hs : ∀ p fd id side, s.fds p fd = .pipe id side → (s.pipes id).isOpen side = true)
    (h : s.pipeSlot = some id) (p : ProcSlot) (fd : Fd) (side : PipeSide) : s.fds p fd ≠ .pipe id side := by
  intro hp
  have hopen := hs p fd id side hp
  rw [pipeSlot_closed h side] at hopen
  exact Bool.noConfusion hopen

theorem FdInv.exact (h : FdInv s) : Exact s :=
  ⟨h.held, h.once, h.sides, fun _ hid => unreferred_of_closed h.sides hid⟩

/-! ## Releasing descriptors -/

structure FdsFreed (s s' : Descriptors) (p : ProcSlot) (l : List Fd) : Prop where
  fds : ∀ q g, s'.fds q g = if q = p ∧ g ∈ l then .free else s.fds q g
  closed : ∀ f, s'.closed.count f = s.closed.count f + l.countP fun g => s.fds p g = .vfs f
  pipes : ∀ id side, (s'.pipes id).isOpen side = true ↔
    (s.pipes id).isOpen side = true ∧ ∀ g ∈ l, s.fds p g ≠ .pipe id side
  opened : s'.opened = s.opened

theorem close_isOpen (pipes : PipeId → Pipe) (id i : PipeId) (side e : PipeSide) :
    ((update pipes id ((pipes id).close side)) i).isOpen e = true ↔
      (pipes i).isOpen e = true ∧ ¬(id = i ∧ side = e) := by
  by_cases hi : i = id
  · subst hi
    rw [update_self]
    cases side <;> cases e <;> simp [Pipe.close, Pipe.isOpen]
  · rw [update_of_ne hi]
    simp [Ne.symm hi]

theorem release_effect (s : Descriptors) (d : FileDescriptor) :
    (s.release d).fds = s.fds ∧ (s.release d).opened = s.opened ∧ (s.release d).table = s.table ∧
      (∀ f, (s.release d).closed.count f = s.closed.count f + if d = .vfs f then 1 else 0) ∧
      ∀ id side, ((s.release d).pipes id).isOpen side = true ↔ (s.pipes id).isOpen side = true ∧ d ≠ .pipe id side := by
  cases d with
  | free => simp [Descriptors.release]
  | vfs file =>
    refine ⟨rfl, rfl, rfl, ?_, ?_⟩
    · intro f
      simp [Descriptors.release, Descriptors.vfsClose, count_append, count_singleton]
    · intro id side
      simp [Descriptors.release, Descriptors.vfsClose]
  | pipe id side =>
    refine ⟨rfl, rfl, rfl, ?_, ?_⟩
    · intro f
      simp [Descriptors.release, Descriptors.pipeClose]
    · intro i e
      simp only [Descriptors.release, Descriptors.pipeClose]
      rw [close_isOpen]
      simp

theorem setFd_fds (s : Descriptors) (p : ProcSlot) (fd : Fd) (d : FileDescriptor) (q : ProcSlot) (g : Fd) :
    (s.setFd p fd d).fds q g = if q = p ∧ g = fd then d else s.fds q g := by
  simp only [Descriptors.setFd]
  by_cases hq : q = p
  · subst hq
    by_cases hg : g = fd
    · simp [hg]
    · simp [hg]
  · simp [hq]

theorem processFdFree_freed (s : Descriptors) (p : ProcSlot) (fd : Fd) : FdsFreed s (s.processFdFree p fd) p [fd] := by
  obtain ⟨hfds, hopened, _, hclosed, hpipes⟩ := release_effect s (s.fds p fd)
  refine ⟨?_, ?_, ?_, hopened⟩
  · intro q g
    rw [Descriptors.processFdFree, setFd_fds, hfds]
    simp
  · intro f
    refine (hclosed f).trans ?_
    simp [countP_singleton]
  · intro id side
    refine (hpipes id side).trans ?_
    simp

theorem FdsFreed.append {u : Descriptors} (h₁ : FdsFreed s u p [fd])
    (h₂ : FdsFreed u s' p l) (hfd : fd ∉ l) : FdsFreed s s' p (fd :: l) := by
  have hkept (g : Fd) (hg : g ∈ l) : u.fds p g = s.fds p g := by
    rw [h₁.fds]
    exact if_neg fun (h : p = p ∧ g ∈ [fd]) => hfd (mem_singleton.mp h.2 ▸ hg)
  refine ⟨?_, ?_, ?_, h₂.opened.trans h₁.opened⟩
  · intro q g
    rw [h₂.fds, h₁.fds]
    by_cases hq : q = p
    · by_cases hg : g = fd <;> simp [hq, hg]
    · simp [hq]
  · intro f
    have hcount : l.countP (fun g => u.fds p g = .vfs f) = l.countP fun g => s.fds p g = .vfs f :=
      countP_congr fun g hg => by rw [hkept g hg]
    rw [h₂.closed, h₁.closed, hcount, Nat.add_assoc, ← countP_append]
    rfl
  · intro id side
    rw [h₂.pipes, h₁.pipes]
    constructor
    · rintro ⟨⟨hopen, hne⟩, hl⟩
      refine ⟨hopen, fun g hg => ?_⟩
      cases mem_cons.mp hg with
      | inl hg => exact hne g (mem_singleton.mpr hg)
      | inr hg => exact hkept g hg ▸ hl g hg
    · rintro ⟨hopen, hl⟩
      refine ⟨⟨hopen, fun g hg => ?_⟩, fun g hg => ?_⟩
      · exact hl g (mem_singleton.mp hg ▸ mem_cons_self)
      · rw [hkept g hg]
        exact hl g (mem_cons_of_mem _ hg)

theorem freeFds_freed (s : Descriptors) (p : ProcSlot) (hl : l.Nodup) : FdsFreed s (s.freeFds p l) p l := by
  induction l generalizing s with
  | nil => exact ⟨fun _ _ => by simp [Descriptors.freeFds], fun _ => by simp [Descriptors.freeFds],
      fun _ _ => by simp [Descriptors.freeFds], rfl⟩
  | cons fd l ih =>
    obtain ⟨hfd, hl⟩ := nodup_cons.mp hl
    exact (processFdFree_freed s p fd).append (ih (s.processFdFree p fd) hl) hfd

theorem freeFds_table (s : Descriptors) (p : ProcSlot) (l : List Fd) : (s.freeFds p l).table = s.table := by
  induction l generalizing s with
  | nil => rfl
  | cons fd l ih => exact (ih (s.processFdFree p fd)).trans (release_effect s (s.fds p fd)).2.2.1

/-- No other process holds what these descriptors of a process hold. -/
def Sole (s : Descriptors) (p : ProcSlot) (l : List Fd) : Prop :=
  ∀ fd ∈ l, s.fds p fd ≠ .free → ∀ q g, s.fds q g = s.fds p fd → q = p

theorem count_held (h : FdInv s) (p : ProcSlot) (hl : l.Nodup) (hfd : fd ∈ l) {f : Nat}
    (hf : s.fds p fd = .vfs f) : (l.countP fun g => s.fds p g = .vfs f) = 1 := by
  have hsame : l.countP (fun g => s.fds p g = .vfs f) = l.count fd := by
    refine countP_congr fun g _ => ?_
    simp only [decide_eq_true_eq, beq_iff_eq]
    constructor
    · intro hg
      exact h.apart p g fd (hg.trans hf.symm) (hg ▸ nofun)
    · rintro rfl
      exact hf
  rw [hsame, count_eq_one_of_mem hl hfd]

theorem FdsFreed.inv (h : FdsFreed s s' p l) (hi : FdInv s) (hl : l.Nodup) (hsole : Sole s p l)
    (hvacant : ∀ q, (s'.table.procs q).state = .unused → (s.table.procs q).state = .unused ∨ q = p ∧ ∀ fd, fd ∈ l) :
    FdInv s' := by
  -- a descriptor that is left is not among those that were freed
  have hleft {q : ProcSlot} {g : Fd} (hne : s'.fds q g ≠ .free) : s'.fds q g = s.fds q g ∧ ¬(q = p ∧ g ∈ l) := by
    rw [h.fds] at hne ⊢
    split
    next hq => exact absurd (if_pos hq) hne
    next hq => exact ⟨rfl, hq⟩
  -- so none that was freed holds the same
  have hother {q : ProcSlot} {g : Fd} (hne : s'.fds q g ≠ .free) : ∀ fd ∈ l, s.fds p fd ≠ s'.fds q g := by
    obtain ⟨hsame, hnot⟩ := hleft hne
    intro fd hfd heq
    rw [hsame] at heq hne
    have hq := hsole fd hfd (heq ▸ hne) q g heq.symm
    subst hq
    exact hnot ⟨rfl, hi.apart q fd g heq (heq ▸ hne) ▸ hfd⟩
  refine ⟨?_, ?_, ?_, ?_, ?_, ?_⟩
  · intro q g f hf
    have hne : s'.fds q g ≠ .free := by
      rw [hf]
      exact nofun
    obtain ⟨hlt, hcount⟩ := hi.held q g f ((hleft hne).1 ▸ hf)
    refine ⟨h.opened ▸ hlt, ?_⟩
    rw [h.closed, hcount, Nat.zero_add, countP_eq_zero]
    intro fd hfd heq
    exact hother hne fd hfd ((of_decide_eq_true heq).trans hf.symm)
  · intro f hlt hnone
    rw [h.opened] at hlt
    rw [h.closed]
    by_cases hex : ∃ fd ∈ l, s.fds p fd = .vfs f
    · obtain ⟨fd, hfd, hf⟩ := hex
      rw [(hi.held p fd f hf).2, count_held hi p hl hfd hf]
    · have hzero : (l.countP fun g => s.fds p g = .vfs f) = 0 := by
        rw [countP_eq_zero]
        intro fd hfd heq
        exact hex ⟨fd, hfd, of_decide_eq_true heq⟩
      rw [hzero, Nat.add_zero]
      refine hi.once f hlt fun q g hf => ?_
      refine hnone q g ?_
      rw [h.fds, if_neg ?_]
      · exact hf
      · rintro ⟨rfl, hg⟩
        exact hex ⟨g, hg, hf⟩
  · intro q g id side hd
    have hne : s'.fds q g ≠ .free := by
      rw [hd]
      exact nofun
    refine (h.pipes id side).mpr ⟨hi.sides q g id side ((hleft hne).1 ▸ hd), fun fd hfd heq => ?_⟩
    exact hother hne fd hfd (heq.trans hd.symm)
  · intro f hf
    rw [h.opened] at hf
    rw [h.closed, hi.fresh f hf, Nat.zero_add, countP_eq_zero]
    intro fd _ heq
    exact absurd (hi.held p fd f (of_decide_eq_true heq)).1 (by omega)
  · intro q i j heq hne
    refine hi.apart q i j ?_ ?_
    · rw [← (hleft hne).1, heq, (hleft (heq ▸ hne)).1]
    · exact (hleft hne).1 ▸ hne
  · intro q g hq
    rw [h.fds]
    split
    next => rfl
    next hnot =>
      obtain hq | ⟨hq, hall⟩ := hvacant q hq
      · exact hi.vacant q g hq
      · exact absurd ⟨hq, hall g⟩ hnot

/-- What a release leaves exact was held by its process alone. -/
theorem FdsFreed.sole (h : FdsFreed s s' p l) (hi : FdInv s) (hl : l.Nodup) (he : Exact s') :
    Sole s p l := by
  intro fd hfd hne q g heq
  by_contra hq
  have hleft : s'.fds q g = s.fds p fd := by
    rw [h.fds, if_neg fun h => hq h.1]
    exact heq
  cases hd : s.fds p fd with
  | free => exact hne hd
  | vfs f =>
    have hcount := (he.held q g f (hleft.trans hd)).2
    rw [h.closed, count_held hi p hl hfd hd] at hcount
    omega
  | pipe id side =>
    have hopen := (h.pipes id side).mp (he.sides q g id side (hleft.trans hd))
    exact hopen.2 fd hfd hd

/-! ## The process table -/

def Vacates (t t' : ProcTable) (A : ProcSlot → Prop) : Prop :=
  ∀ q, (t'.procs q).state = .unused → (t.procs q).state = .unused ∨ A q

theorem Vacates.trans {t₁ t₂ t₃ : ProcTable} (h₁ : Vacates t₁ t₂ fun _ => False)
    (h₂ : Vacates t₂ t₃ A) : Vacates t₁ t₃ A := by
  intro q hq
  cases h₂ q hq with
  | inl hq => exact .inl ((h₁ q hq).resolve_right id)
  | inr hq => exact .inr hq

theorem vacates_of_eq (h : ∀ q, (t'.procs q).state = (t.procs q).state) : Vacates t t' A :=
  fun q hq => .inl (h q ▸ hq)

theorem update_state (t : ProcTable) (i : ProcSlot) (f : TreeProc → TreeProc) (hf : ∀ p, (f p).state = p.state)
    (q : ProcSlot) : ((t.update i f).procs q).state = (t.procs q).state := by
  simp only [ProcTable.update]
  by_cases hq : q = i
  · subst hq
    rw [update_self]
    exact hf _
  · rw [update_of_ne hq]

theorem update_vacates (t : ProcTable) (i : ProcSlot) (f : TreeProc → TreeProc) : Vacates t (t.update i f) (· = i) := by
  intro q hq
  by_cases hi : q = i
  · exact .inr hi
  · simp only [ProcTable.update, update_of_ne hi] at hq
    exact .inl hq

theorem link_state (t : ProcTable) (c : ProcSlot) (parent : Option ProcSlot) (q : ProcSlot) :
    ((t.processLinkChild c parent).procs q).state = (t.procs q).state := by
  cases parent with
  | none => exact update_state t c (fun p => { p with ppid := 0 }) (fun _ => rfl) q
  | some r => exact update_state t c (fun p => { p with ppid := (t.procs r).pid }) (fun _ => rfl) q

theorem orphan_state (n : Nat) (start : Option ProcSlot) (t : ProcTable) (q : ProcSlot) :
    ((ProcTable.orphanFrom n start t).procs q).state = (t.procs q).state := by
  induction n generalizing start t with
  | zero => rfl
  | succ n ih =>
    cases start with
    | none => rfl
    | some child =>
      rw [ProcTable.orphanFrom, ih]
      exact update_state t child (fun p => { p with ppid := 0 }) (fun _ => rfl) q

theorem destroy_vacates (t : ProcTable) (env : TreeEnv) (i : ProcSlot) : Vacates t (t.processDestroy env i) (· = i) := by
  unfold ProcTable.processDestroy
  split
  · exact vacates_of_eq fun _ => rfl
  · split
    · exact vacates_of_eq fun _ => rfl
    · refine Vacates.trans (vacates_of_eq fun q => ?_) (update_vacates _ i _)
      rw [unlink_procs]
      exact orphan_state processLinks (t.tree.children i) t q

/-- A process is created in the first slot that was unused. -/
theorem create_vacates (t : ProcTable) (env : TreeEnv) (parent : Option ProcSlot) :
    Vacates t (t.processCreateWithParent env parent).2 (fun _ => False) ∧
      ∀ i, (t.processCreateWithParent env parent).1 = some i →
        (finRange 128).find? (fun i => (t.procs i).state = .unused) = some i ∧
          ((t.processCreateWithParent env parent).2.procs i).InUse := by
  unfold ProcTable.processCreateWithParent
  split
  next => exact ⟨vacates_of_eq fun _ => rfl, fun _ h => by cases h⟩
  next i hi =>
    have hfree : (t.procs i).state = .unused := by simpa using List.find?_some hi
    have hclear (n l : Nat) (p : TreeProc) :
        Vacates t ({ t with nextPid := n, lives := l }.clear i p) fun _ => False := by
      intro q hq
      by_cases hqi : q = i
      · exact .inl (hqi ▸ hfree)
      · simp only [ProcTable.clear, update_of_ne hqi] at hq
        exact .inl hq
    dsimp only
    split
    · split
      · exact ⟨hclear _ _ _, fun _ h => by cases h⟩
      · refine ⟨(hclear _ _ _).trans (vacates_of_eq (link_state _ _ _)), fun j hj => ?_⟩
        cases hj
        refine ⟨hi, ?_⟩
        dsimp only
        rw [TreeProc.InUse, link_state]
        simp [ProcTable.clear]
    · exact ⟨hclear _ _ _, fun _ h => by cases h⟩

theorem fork_vacates (t : ProcTable) (env : TreeEnv) (parent : ProcSlot) :
    Vacates t (t.processFork env parent).2 (fun _ => False) ∧ ∀ i, (t.processFork env parent).1 = some i →
        (finRange 128).find? (fun i => (t.procs i).state = .unused) = some i ∧
          ((t.processFork env parent).2.procs i).InUse := by
  obtain ⟨hcreate, hslot⟩ := create_vacates t env (t.processCurrent env)
  unfold ProcTable.processFork ProcTable.processCreate
  split
  next t' heq =>
    rw [heq] at hcreate
    exact ⟨hcreate, nofun⟩
  next child t' heq =>
    rw [heq] at hcreate hslot
    obtain ⟨hchild, huse⟩ := hslot child rfl
    have hfree : (t.procs child).state = .unused := by simpa using List.find?_some hchild
    have hsame (q : ProcSlot) : (((t'.processUnlinkChild child).processLinkChild child (some parent)).procs q).state =
        (t'.procs q).state := by
      rw [link_state, unlink_procs]
    have hlink : Vacates t ((t'.processUnlinkChild child).processLinkChild child (some parent)) fun _ => False :=
      hcreate.trans (vacates_of_eq hsame)
    have hsome {t₂ : ProcTable} (h : ∀ q, (t₂.procs q).state = (t'.procs q).state) :
        Vacates t t₂ (fun _ => False) ∧ ∀ i, some child = some i →
          (finRange 128).find? (fun i => (t.procs i).state = .unused) = some i ∧ (t₂.procs i).InUse := by
      refine ⟨hcreate.trans (vacates_of_eq h), fun i hi => ?_⟩
      cases hi
      refine ⟨hchild, ?_⟩
      rw [TreeProc.InUse, h]
      exact huse
    dsimp only
    split
    · split
      · exact hsome fun q =>
          (update_state _ child (fun p => { p with addressSpace := true }) (fun _ => rfl) q).trans (hsame q)
      · refine ⟨fun q hq => ?_, nofun⟩
        cases hlink.trans (destroy_vacates _ env child) q hq with
        | inl hq => exact .inl hq
        | inr hq => exact .inl (hq ▸ hfree)
    · exact hsome hsame

theorem FdInv.retable (h : FdInv s) (hv : Vacates s.table t fun _ => False) : FdInv { s with table := t } :=
  { h with vacant := fun p fd hp => h.vacant p fd ((hv p hp).resolve_right id) }

theorem clearFds_eq (h : FdInv s) : s.clearFds = s.fds := by
  unfold Descriptors.clearFds
  split
  next => rfl
  next i hi =>
    have hfree : (s.table.procs i).state = .unused := by simpa using List.find?_some hi
    refine update_eq_self_iff.mpr (funext fun fd => ?_)
    exact (h.vacant i fd hfree).symm

theorem FdInv.fork (h : FdInv s) (parent : ProcSlot) : FdInv (s.processFork env parent) := by
  obtain ⟨hv, hslot⟩ := fork_vacates s.table env parent
  unfold Descriptors.processFork
  rw [clearFds_eq h]
  split
  next t heq =>
    rw [heq] at hv
    exact h.retable hv
  next child t heq =>
    rw [heq] at hv hslot
    obtain ⟨hchild, huse⟩ := hslot child rfl
    have hfree : (s.table.procs child).state = .unused := by simpa using List.find?_some hchild
    -- what the child holds its parent holds too
    have hfds (p : ProcSlot) : ∃ q, (update s.fds child (s.fds parent)) p = s.fds q := by
      by_cases hp : p = child
      · exact ⟨parent, by rw [hp, update_self]⟩
      · exact ⟨p, update_of_ne hp _ _⟩
    have hkept (q : ProcSlot) (g : Fd) (hne : s.fds q g ≠ .free) :
        (update s.fds child (s.fds parent)) q g = s.fds q g := by
      rw [update_of_ne ?_]
      rintro rfl
      exact hne (h.vacant q g hfree)
    refine ⟨?_, ?_, ?_, h.fresh, ?_, ?_⟩
    · intro p fd f hf
      obtain ⟨q, hq⟩ := hfds p
      exact h.held q fd f (hq ▸ hf)
    · intro f hlt hnone
      refine h.once f hlt fun q g hf => hnone q g ?_
      exact (hkept q g (hf ▸ nofun)).trans hf
    · intro p fd id side hd
      obtain ⟨q, hq⟩ := hfds p
      exact h.sides q fd id side (hq ▸ hd)
    · intro p i j heq hne
      obtain ⟨q, hq⟩ := hfds p
      dsimp only at heq hne
      rw [hq] at heq hne
      exact h.apart q i j heq hne
    · intro p fd hp
      have hpc : p ≠ child := by
        rintro rfl
        exact huse hp
      refine (congrFun (update_of_ne hpc _ _) fd).trans ?_
      exact h.vacant p fd ((hv p hp).resolve_right id)

/-! ## Opening -/

theorem alloc_free (h : s.processFdAlloc p = some fd) : s.fds p fd = .free := by
  have hfd := List.find?_some h
  simp only [decide_eq_true_eq] at hfd
  exact hfd.2

theorem FdInv.unopened (h : FdInv s) : FdInv ({ s with opened := s.opened + 1 }.vfsClose s.opened) := by
  have hcount (f : Nat) : (s.closed ++ [s.opened]).count f = s.closed.count f + if s.opened = f then 1 else 0 := by
    simp [count_append, count_singleton]
  refine ⟨?_, ?_, h.sides, ?_, h.apart, h.vacant⟩
  · intro p fd f hf
    obtain ⟨hlt, hzero⟩ := h.held p fd f hf
    refine ⟨Nat.lt_succ_of_lt hlt, (hcount f).trans ?_⟩
    rw [hzero, if_neg (by omega)]
  · intro f hlt hnone
    refine (hcount f).trans ?_
    by_cases hf : s.opened = f
    · rw [if_pos hf, h.fresh f (by omega)]
    · have hlt : f < s.opened := by
        have : f < s.opened + 1 := hlt
        omega
      rw [if_neg hf, h.once f hlt hnone]
  · intro f hf
    have hf : s.opened + 1 ≤ f := hf
    refine (hcount f).trans ?_
    rw [h.fresh f (by omega), if_neg (by omega)]

theorem setFd_apart (h : FdInv s) (p : ProcSlot) (fd : Fd) {d : FileDescriptor} (hnew : ∀ q g, s.fds q g ≠ d) (q : ProcSlot)
    (i j : Fd) (heq : (s.setFd p fd d).fds q i = (s.setFd p fd d).fds q j) (hne : (s.setFd p fd d).fds q i ≠ .free) :
    i = j := by
  rw [setFd_fds] at heq hne
  rw [setFd_fds] at heq
  by_cases hi : q = p ∧ i = fd
  · by_cases hj : q = p ∧ j = fd
    · exact hi.2.trans hj.2.symm
    · rw [if_pos hi, if_neg hj] at heq
      exact absurd heq.symm (hnew q j)
  · by_cases hj : q = p ∧ j = fd
    · rw [if_neg hi, if_pos hj] at heq
      exact absurd heq (hnew q i)
    · rw [if_neg hi] at heq hne
      rw [if_neg hj] at heq
      exact h.apart q i j heq hne

theorem setFd_vacant (h : FdInv s) (huse : (s.table.procs p).InUse) (fd : Fd) (d : FileDescriptor) (q : ProcSlot)
    (g : Fd) (hq : (s.table.procs q).state = .unused) : (s.setFd p fd d).fds q g = .free := by
  rw [setFd_fds, if_neg ?_]
  · exact h.vacant q g hq
  · rintro ⟨rfl, _⟩
    exact huse hq

/-- What a descriptor holds after one that was free took `d`. -/
theorem setFd_held {d d' : FileDescriptor} {q : ProcSlot} {g : Fd}
    (h : (s.setFd p fd d).fds q g = d') : d' = d ∨ s.fds q g = d' := by
  rw [setFd_fds] at h
  split at h
  · exact .inl h.symm
  · exact .inr h

theorem setFd_kept (hfree : s.fds p fd = .free) (d : FileDescriptor) {q : ProcSlot} {g : Fd}
    (hne : s.fds q g ≠ .free) : (s.setFd p fd d).fds q g = s.fds q g := by
  rw [setFd_fds, if_neg ?_]
  rintro ⟨rfl, rfl⟩
  exact hne hfree

theorem FdInv.takeFile (h : FdInv s) (hfree : s.fds p fd = .free)
    (huse : (s.table.procs p).InUse) : FdInv ({ s with opened := s.opened + 1 }.setFd p fd (.vfs s.opened)) := by
  have hnew (q : ProcSlot) (g : Fd) : s.fds q g ≠ .vfs s.opened :=
    fun hf => Nat.lt_irrefl _ (h.held q g _ hf).1
  refine ⟨?_, ?_, ?_, ?_, setFd_apart h p fd hnew, setFd_vacant h huse fd _⟩
  · intro q g f hf
    cases setFd_held hf with
    | inl hf =>
      cases hf
      exact ⟨Nat.lt_succ_self _, h.fresh _ (Nat.le_refl _)⟩
    | inr hf => exact ⟨Nat.lt_succ_of_lt (h.held q g f hf).1, (h.held q g f hf).2⟩
  · intro f hlt hnone
    have hlt : f < s.opened + 1 := hlt
    have hne : f ≠ s.opened := by
      rintro rfl
      refine hnone p fd ?_
      rw [setFd_fds, if_pos ⟨rfl, rfl⟩]
    refine h.once f (by omega) fun q g hf => hnone q g ?_
    exact (setFd_kept (s := { s with opened := s.opened + 1 }) hfree _ (hf ▸ nofun)).trans hf
  · intro q g id side hd
    cases setFd_held hd with
    | inl hd => cases hd
    | inr hd => exact h.sides q g id side hd
  · intro f hf
    have hf : s.opened + 1 ≤ f := hf
    exact h.fresh f (by omega)

theorem FdInv.takeSide (h : FdInv s) (hfree : s.fds p fd = .free)
    (huse : (s.table.procs p).InUse) {side : PipeSide} (hnew : ∀ q g, s.fds q g ≠ .pipe id side)
    (hopen : (s.pipes id).isOpen side = true) : FdInv (s.setFd p fd (.pipe id side)) := by
  refine ⟨?_, ?_, ?_, h.fresh, setFd_apart h p fd hnew, setFd_vacant h huse fd _⟩
  · intro q g f hf
    cases setFd_held hf with
    | inl hf => cases hf
    | inr hf => exact h.held q g f hf
  · intro f hlt hnone
    exact h.once f hlt fun q g hf => hnone q g ((setFd_kept hfree _ (hf ▸ nofun)).trans hf)
  · intro q g i e hd
    cases setFd_held hd with
    | inl hd =>
      cases hd
      exact hopen
    | inr hd => exact h.sides q g i e hd

theorem FdInv.repipe (h : FdInv s) (hnone : ∀ q g side, s.fds q g ≠ .pipe id side) (P : Pipe) :
    FdInv { s with pipes := update s.pipes id P } := by
  refine ⟨h.held, h.once, ?_, h.fresh, h.apart, h.vacant⟩
  intro q g i side hd
  have hi : i ≠ id := by
    rintro rfl
    exact hnone q g side hd
  dsimp only
  rw [update_of_ne hi]
  exact h.sides q g i side hd

theorem FdInv.open (h : FdInv s) (found : Bool) : FdInv (s.sysOpen env found).2 := by
  unfold Descriptors.sysOpen
  split
  · dsimp only
    split
    · exact h.unopened
    next p hp =>
      split
      · exact h.unopened
      next fd hfd => exact h.takeFile (alloc_free (s := { s with opened := s.opened + 1 }) hfd) (current_in_use hp)
  · exact h

theorem FdInv.pipe (h : FdInv s) (userFds : Bool) : FdInv (s.sysPipe env userFds).2 := by
  unfold Descriptors.sysPipe
  split
  · split
    · exact h
    next p hp =>
      have huse := current_in_use hp
      unfold Descriptors.pipeCreate
      cases hid : s.pipeSlot with
      | none => exact h
      | some id =>
        have hnone := unreferred_of_closed h.sides hid
        have h₁ := h.repipe hnone ⟨true, true⟩
        dsimp only
        split
        · exact (h₁.repipe hnone _).repipe hnone _
        next readFd hr =>
          have hread := h₁.takeSide (alloc_free hr) huse (fun q g => hnone q g .read) (by simp [Pipe.isOpen])
          -- the read end alone refers to the pipe
          have honly {q : ProcSlot} {g : Fd} {side : PipeSide} (hd : (Descriptors.setFd { s with
              pipes := update s.pipes id ⟨true, true⟩ } p readFd (.pipe id .read)).fds q g = .pipe id side) :
              q = p ∧ g = readFd ∧ side = .read := by
            rw [setFd_fds] at hd
            split at hd
            next hq =>
              cases hd
              exact ⟨hq.1, hq.2, rfl⟩
            next => exact absurd hd (hnone q g side)
          split
          next hw =>
            have hself : (Descriptors.setFd { s with pipes := update s.pipes id ⟨true, true⟩ } p readFd
                (.pipe id .read)).fds p readFd = .pipe id .read := by
              rw [setFd_fds, if_pos ⟨rfl, rfl⟩]
            have hfreed := processFdFree_freed (Descriptors.setFd { s with
              pipes := update s.pipes id ⟨true, true⟩ } p readFd (.pipe id .read)) p readFd
            have hinv := hfreed.inv hread (nodup_singleton _) ?_ (vacates_of_eq fun q => ?_)
            · have hgone (q : ProcSlot) (g : Fd) (side : PipeSide) : (Descriptors.processFdFree (Descriptors.setFd { s with
                  pipes := update s.pipes id ⟨true, true⟩ } p readFd (.pipe id .read)) p readFd).fds q g ≠
                  .pipe id side := by
                rw [hfreed.fds]
                split
                next => exact nofun
                next hq =>
                  intro hd
                  obtain ⟨rfl, rfl, _⟩ := honly hd
                  exact hq ⟨rfl, mem_singleton.mpr rfl⟩
              exact (hinv.repipe hgone _).repipe hgone _
            · intro fd hfd _ q g heq
              rw [mem_singleton.mp hfd, hself] at heq
              exact (honly heq).1
            · rw [Descriptors.processFdFree]
              exact congrArg (fun t : ProcTable => (t.procs q).state) (release_effect _ _).2.2.1
          next writeFd hw =>
            refine hread.takeSide (alloc_free hw) huse (fun q g hd => ?_) ?_
            · exact absurd (honly hd).2.2 (nomatch ·)
            · simp [Descriptors.setFd, Pipe.isOpen]
  · exact h

/-! ## Closing -/

def ClosesSole (s : Descriptors) : FdOp → Prop
  | .sysClose env fd => ∀ p, s.table.processCurrent env = some p → ∀ g : Fd, (g.val : Int) = fd →
      (∀ f, s.fds p g ≠ .vfs f) ∧ Sole s p [g]
  | .exit env => ∀ p, s.table.processCurrent env = some p → Sole s p (finRange 32)
  | .kill env pid => ∀ p, s.table.processByPid pid = some p →
      ¬(s.table.processCurrent env = some p ∨
        ((s.table.procs p).mainThread ≠ none ∧ (s.table.procs p).mainThread = env.current)) →
      Sole s p (finRange 32)
  | .destroy env p => s.Destroys env p → Sole s p (finRange 32)
  | _ => True

/-- All descriptors of a process were freed while the table changed in its place only. -/
theorem freeAll_inv (h : FdInv s) (hv : Vacates s.table t (· = p)) (hs : Sole s p (finRange 32)) :
    FdInv ({ s with table := t }.freeFds p (finRange 32)) := by
  have hf := freeFds_freed { s with table := t } p (nodup_finRange 32)
  refine FdsFreed.inv (s := s) ⟨hf.fds, hf.closed, hf.pipes, hf.opened⟩ h (nodup_finRange 32) hs fun q hq => ?_
  rw [freeFds_table] at hq
  exact (hv q hq).imp_right fun hq => ⟨hq, mem_finRange⟩

theorem freeAll_sole (h : FdInv s) (he : Exact ({ s with table := t }.freeFds p (finRange 32))) :
    Sole s p (finRange 32) := by
  have hf := freeFds_freed { s with table := t } p (nodup_finRange 32)
  exact FdsFreed.sole (s := s) ⟨hf.fds, hf.closed, hf.pipes, hf.opened⟩ h (nodup_finRange 32) he

theorem sole_free {p : ProcSlot} {fd : Fd} (hd : s.fds p fd = .free) : Sole s p [fd] := by
  intro g hg hne
  exact absurd (mem_singleton.mp hg ▸ hd) hne

theorem close_twice (hd : ∀ f, s.fds p fd ≠ .vfs f) :
    FdsFreed s ((s.release (s.fds p fd)).processFdFree p fd) p [fd] := by
  obtain ⟨hfds, hopened, _, hclosed, hpipes⟩ := release_effect s (s.fds p fd)
  have h := processFdFree_freed (s.release (s.fds p fd)) p fd
  refine ⟨?_, ?_, ?_, h.opened.trans hopened⟩
  · intro q g
    rw [h.fds, hfds]
  · intro f
    rw [h.closed, hclosed, hfds, if_neg (hd f), Nat.add_zero]
  · intro id side
    rw [h.pipes, hpipes, hfds]
    simp

theorem close_file_twice (h : FdInv s) {f : Nat} (hd : s.fds p fd = .vfs f) :
    ¬Exact ((s.release (s.fds p fd)).processFdFree p fd) := by
  intro he
  obtain ⟨hfds, hopened, _, hclosed, _⟩ := release_effect s (s.fds p fd)
  have hf := processFdFree_freed (s.release (s.fds p fd)) p fd
  have hcount : ((s.release (s.fds p fd)).processFdFree p fd).closed.count f = 2 := by
    rw [hf.closed, hclosed, hfds, (h.held p fd f hd).2]
    simp [countP_singleton, hd]
  by_cases hex : ∃ q g, ((s.release (s.fds p fd)).processFdFree p fd).fds q g = .vfs f
  · obtain ⟨q, g, hq⟩ := hex
    rw [(he.held q g f hq).2] at hcount
    exact absurd hcount (by omega)
  · have hlt : f < ((s.release (s.fds p fd)).processFdFree p fd).opened := by
      rw [hf.opened, hopened]
      exact (h.held p fd f hd).1
    rw [he.once f hlt fun q g hq => hex ⟨q, g, hq⟩] at hcount
    exact absurd hcount (by omega)

theorem FdInv.close (h : FdInv s) {fd : Int} (hc : ClosesSole s (.sysClose env fd)) : FdInv (s.sysClose env fd).2 := by
  unfold Descriptors.sysClose
  split
  · exact h
  next p hp =>
    split
    next hfd =>
      dsimp only
      split
      · exact h
      next hne =>
        obtain ⟨hfile, hsole⟩ := hc p hp ⟨fd.toNat, by omega⟩ (Int.toNat_of_nonneg hfd.1)
        refine (close_twice hfile).inv h (nodup_singleton _) hsole (vacates_of_eq fun q => ?_)
        rw [Descriptors.processFdFree]
        have htable := (release_effect s (s.fds p ⟨fd.toNat, by omega⟩)).2.2.1
        refine (congrArg (fun t : ProcTable => (t.procs q).state) (release_effect _ _).2.2.1).trans ?_
        exact congrArg (fun t : ProcTable => (t.procs q).state) htable
    · exact h

theorem closesSole_close (h : FdInv s) {fd : Int} (he : Exact (s.sysClose env fd).2) : ClosesSole s (.sysClose env fd) := by
  intro p hp g hg
  subst hg
  have hrange : 0 ≤ (g.val : Int) ∧ (g.val : Int) < 32 := by omega
  simp only [Descriptors.sysClose, hp, dif_pos hrange, Int.toNat_natCast] at he
  by_cases hne : s.fds p g = .free
  · refine ⟨fun f hf => ?_, sole_free hne⟩
    rw [hne] at hf
    exact absurd hf nofun
  · rw [if_neg hne] at he
    have hfile (f : Nat) : s.fds p g ≠ .vfs f := fun hf => close_file_twice h hf he
    exact ⟨hfile, (close_twice hfile).sole h (nodup_singleton _) he⟩

theorem exit_vacates (t : ProcTable) (env : TreeEnv) : Vacates t (t.processExit env) A := by
  unfold ProcTable.processExit
  split
  · exact vacates_of_eq fun _ => rfl
  next p _ =>
    intro q hq
    by_cases hqp : q = p
    · rw [hqp] at hq
      simp [ProcTable.update] at hq
    · simp only [ProcTable.update, update_of_ne hqp] at hq
      exact .inl hq

theorem kill_cases (t : ProcTable) (env : TreeEnv) (pid : Nat) : (t.processByPid pid = none ∧ t.processKill env pid = (-1, t)) ∨
      ∃ p, t.processByPid pid = some p ∧
        (((t.processCurrent env = some p ∨ ((t.procs p).mainThread ≠ none ∧ (t.procs p).mainThread = env.current)) ∧
          t.processKill env pid = (-2, t)) ∨
        (¬(t.processCurrent env = some p ∨ ((t.procs p).mainThread ≠ none ∧ (t.procs p).mainThread = env.current)) ∧
          ∃ t', t.processKill env pid = (0, t') ∧ Vacates t t' (· = p))) := by
  unfold ProcTable.processKill
  split
  next hp => exact .inl ⟨hp, rfl⟩
  next p hp =>
    refine .inr ⟨p, hp, ?_⟩
    split
    next hself => exact .inl ⟨hself, rfl⟩
    next hself =>
      refine .inr ⟨hself, _, rfl, ?_⟩
      have hzombie : Vacates t (t.update p fun q => { q with state := .zombie, mainThread := none }) (· = p) :=
        update_vacates t p _
      split
      · intro q hq
        cases destroy_vacates _ env p q hq with
        | inl hq => exact hzombie q hq
        | inr hq => exact .inr hq
      · exact hzombie

theorem fdStep_inv (h : FdInv s) {op : FdOp} (hc : ClosesSole s op) : FdInv (fdStep s op) := by
  cases op with
  | create env =>
    rw [fdStep, Descriptors.processCreate, clearFds_eq h]
    exact h.retable (create_vacates _ env _).1
  | createRoot env =>
    rw [fdStep, Descriptors.processCreateRoot, clearFds_eq h]
    exact h.retable (create_vacates _ env _).1
  | sysOpen env found => exact h.open found
  | sysPipe env userFds => exact h.pipe userFds
  | sysClose env fd => exact h.close hc
  | fork env parent => exact h.fork parent
  | exit env =>
    show FdInv (s.processExit env)
    unfold Descriptors.processExit
    split
    · exact h
    next p hp => exact freeAll_inv h (exit_vacates _ env) (hc p hp)
  | kill env pid =>
    show FdInv (s.processKill env pid).2
    unfold Descriptors.processKill
    obtain ⟨_, hk⟩ | ⟨p, hp, ⟨_, hk⟩ | ⟨hself, t', hk, hv⟩⟩ := kill_cases s.table env pid
    · rw [hk]
      exact h
    · rw [hk]
      exact h
    · rw [hk]
      simp only [hp]
      exact freeAll_inv h hv (hc p hp hself)
  | destroy env p =>
    show FdInv (s.processDestroy env p)
    unfold Descriptors.processDestroy
    split
    next hd => exact freeAll_inv h (destroy_vacates _ env p) (hc hd)
    · exact h

theorem fdStep_sole (h : FdInv s) {op : FdOp} (he : Exact (fdStep s op)) : ClosesSole s op := by
  cases op with
  | sysClose env fd => exact closesSole_close h he
  | exit env =>
    intro p hp
    simp only [fdStep, Descriptors.processExit, hp] at he
    exact freeAll_sole h he
  | kill env pid =>
    intro p hp hself
    obtain ⟨hnone, _⟩ | ⟨q, hq, ⟨hs, _⟩ | ⟨_, t', hk, _⟩⟩ := kill_cases s.table env pid
    · exact absurd (hp.symm.trans hnone) (nomatch ·)
    · rw [hp] at hq
      cases hq
      exact absurd hs hself
    · simp only [fdStep, Descriptors.processKill, hk, hp] at he
      exact freeAll_sole h he
  | destroy env p =>
    intro hd
    simp only [fdStep, Descriptors.processDestroy, if_pos hd] at he
    exact freeAll_sole h he
  | create _ => trivial
  | createRoot _ => trivial
  | sysOpen _ _ => trivial
  | sysPipe _ _ => trivial
  | fork _ _ => trivial

theorem boot_fdInv : FdInv .boot :=
  ⟨nofun, fun _ hf => absurd hf (Nat.not_lt_zero _), nofun, fun _ _ => rfl, fun _ _ _ _ hne => absurd rfl hne, fun _ _ _ => rfl⟩

/-! ## Runs -/

def FdStates (P : Descriptors → Prop) : Descriptors → List FdOp → Prop
  | s, [] => P s
  | s, op :: ops => P s ∧ FdStates P (fdStep s op) ops

def FdSteps (P : Descriptors → FdOp → Prop) : Descriptors → List FdOp → Prop
  | _, [] => True
  | s, op :: ops => P s op ∧ FdSteps P (fdStep s op) ops

theorem fdStates_head {P : Descriptors → Prop} {ops : List FdOp} (h : FdStates P s ops) : P s := by
  cases ops with
  | nil => exact h
  | cons op ops => exact h.1

theorem fdRun_exact (h : FdInv s) (ops : List FdOp) : FdStates Exact s ops ↔ FdSteps ClosesSole s ops := by
  induction ops generalizing s with
  | nil => exact ⟨fun _ => trivial, fun _ => h.exact⟩
  | cons op ops ih =>
    constructor
    · rintro ⟨_, hrest⟩
      have hsole := fdStep_sole h (fdStates_head hrest)
      exact ⟨hsole, (ih (fdStep_inv h hsole)).mp hrest⟩
    · rintro ⟨hsole, hrest⟩
      exact ⟨h.exact, (ih (fdStep_inv h hsole)).mpr hrest⟩

/-- Files and pipe ends are released with the last descriptor that refers to them, and once,
as long as no descriptor of a file is closed by `sys_close` and none that another process
shares is closed at all. -/
theorem descriptors_released_once (ops : List FdOp) :
    FdStates Exact .boot ops ↔ FdSteps ClosesSole .boot ops :=
  fdRun_exact boot_fdInv ops

/-- A process whose task runs. -/
def runningEnv (task : TaskSlot) : TreeEnv := ⟨some task, true, none, true, fun _ => false⟩

/-- A file that is opened and closed by a process is closed twice. -/
theorem sys_close_closes_twice :
    ¬FdStates Exact .boot [.createRoot (quietEnv 0), .sysOpen (runningEnv 0) true, .sysClose (runningEnv 0) 3] := by
  rintro ⟨_, _, _, he⟩
  have hcount : (fdStep (fdStep (fdStep .boot (.createRoot (quietEnv 0))) (.sysOpen (runningEnv 0) true))
      (.sysClose (runningEnv 0) 3)).closed = [0, 0] := by decide
  have hopened : (fdStep (fdStep (fdStep .boot (.createRoot (quietEnv 0))) (.sysOpen (runningEnv 0) true))
      (.sysClose (runningEnv 0) 3)).opened = 1 := by decide
  by_cases hex : ∃ q g, (fdStep (fdStep (fdStep .boot (.createRoot (quietEnv 0))) (.sysOpen (runningEnv 0) true))
      (.sysClose (runningEnv 0) 3)).fds q g = .vfs 0
  · obtain ⟨q, g, hq⟩ := hex
    have hzero := (he.held q g 0 hq).2
    rw [hcount] at hzero
    exact absurd hzero (by decide)
  · have hone := he.once 0 (hopened ▸ Nat.zero_lt_one) fun q g hq => hex ⟨q, g, hq⟩
    rw [hcount] at hone
    exact absurd hone (by decide)

end CapyOS.Proofs
