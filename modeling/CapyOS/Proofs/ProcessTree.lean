import CapyOS.Kernel.ProcessTree

namespace CapyOS.Proofs
open Lib List
variable {f : TreeProc → TreeProc} {p : ProcSlot}

/-- The processes form a tree by their lists of children, but for the `ppid` of one of them
that has no parent. -/
structure Loose (t : ProcTable) (kids : ProcSlot → List ProcSlot) (c : ProcSlot) : Prop where
  holds : t.tree.Holds kids
  kin : ∀ p q, t.tree.parent q = some p →
    (t.procs q).InUse ∧ (t.procs p).InUse ∧ (t.procs q).ppid = (t.procs p).pid ∧ (t.procs p).life < (t.procs q).life
  roots : ∀ q, q ≠ c → (t.procs q).InUse → t.tree.parent q = none → (t.procs q).ppid = 0
  lives : ∀ q, (t.procs q).InUse → (t.procs q).life < t.lives

def Forest (t : ProcTable) (kids : ProcSlot → List ProcSlot) : Prop := ∀ c, Loose t kids c

section
variable {t : ProcTable} {kids : ProcSlot → List ProcSlot} {c : ProcSlot} {env : TreeEnv}

theorem Loose.forest (h : Loose t kids c)
    (hc : (t.procs c).InUse → t.tree.parent c = none → (t.procs c).ppid = 0) : Forest t kids := by
  intro d
  refine ⟨h.holds, h.kin, ?_, h.lives⟩
  intro q _ hu hp
  by_cases hq : q = c
  · exact hq ▸ hc (hq ▸ hu) (hq ▸ hp)
  · exact h.roots q hq hu hp

theorem Forest.holds (h : Forest t kids) : t.tree.Holds kids := (h 0).holds

theorem Forest.kin (h : Forest t kids) {p q : ProcSlot} (hp : t.tree.parent q = some p) :
    (t.procs q).InUse ∧ (t.procs p).InUse ∧ (t.procs q).ppid = (t.procs p).pid ∧
      (t.procs p).life < (t.procs q).life := (h 0).kin p q hp

theorem Forest.root (h : Forest t kids) {q : ProcSlot} (hu : (t.procs q).InUse)
    (hp : t.tree.parent q = none) : (t.procs q).ppid = 0 := by
  obtain ⟨d, hd⟩ := exists_ne q
  exact (h d).roots q hd.symm hu hp

theorem Loose.free (h : Loose t kids c) {i : ProcSlot} (hi : (t.procs i).state = .unused) :
    t.tree.parent i = none ∧ kids i = [] := by
  constructor
  · cases hp : t.tree.parent i with
    | none => rfl
    | some p => exact absurd hi (h.kin p i hp).1
  · apply eq_nil_iff_forall_not_mem.mpr
    intro q hq
    exact (h.kin i q ((h.holds.mem i q).mp hq)).2.1 hi

theorem links_enough (h : t.tree.Holds kids) (p : ProcSlot) : (kids p).length < processLinks := by
  have hl := h.length_le p
  rw [Fintype.card_fin] at hl
  exact Nat.lt_succ_of_le hl

/-- A change of one process that keeps it a process and leaves its names alone. -/
theorem Loose.update (h : Loose t kids c) (i : ProcSlot)
    (hu : (f (t.procs i)).InUse → (t.procs i).InUse) (hs : (t.procs i).InUse → (f (t.procs i)).InUse)
    (hf : (f (t.procs i)).pid = (t.procs i).pid ∧ (f (t.procs i)).ppid = (t.procs i).ppid ∧
      (f (t.procs i)).life = (t.procs i).life) : Loose (t.update i f) kids c := by
  obtain ⟨hpid, hppid, hlife⟩ := hf
  have same (q : ProcSlot) : ((t.update i f).procs q).pid = (t.procs q).pid ∧
      ((t.update i f).procs q).ppid = (t.procs q).ppid ∧ ((t.update i f).procs q).life = (t.procs q).life ∧
      (((t.update i f).procs q).InUse ↔ (t.procs q).InUse) := by
    simp only [ProcTable.update]
    by_cases hq : q = i
    · subst hq
      rw [Function.update_self]
      exact ⟨hpid, hppid, hlife, hu, hs⟩
    · rw [Function.update_of_ne hq]
      exact ⟨rfl, rfl, rfl, Iff.rfl⟩
  refine ⟨h.holds, ?_, ?_, ?_⟩
  · intro p q hp
    rw [(same q).2.2.2, (same p).2.2.2, (same q).2.1, (same p).1, (same q).2.2.1, (same p).2.2.1]
    exact h.kin p q hp
  · intro q hq
    rw [(same q).2.2.2, (same q).2.1]
    exact h.roots q hq
  · intro q
    rw [(same q).2.2.2, (same q).2.2.1]
    exact h.lives q

theorem Forest.update (h : Forest t kids) (i : ProcSlot)
    (hu : (f (t.procs i)).InUse → (t.procs i).InUse) (hs : (t.procs i).InUse → (f (t.procs i)).InUse)
    (hf : (f (t.procs i)).pid = (t.procs i).pid ∧ (f (t.procs i)).ppid = (t.procs i).ppid ∧
      (f (t.procs i)).life = (t.procs i).life) : Forest (t.update i f) kids :=
  fun c => (h c).update i hu hs hf

theorem ppid_update (t : ProcTable) (c : ProcSlot) (v : Nat) (q : ProcSlot) :
    ((t.update c fun p => { p with ppid := v }).procs q) =
      { t.procs q with ppid := if q = c then v else (t.procs q).ppid } := by
  simp only [ProcTable.update]
  by_cases hq : q = c
  · subst hq
    simp
  · simp [hq]

/-- Linking a process that has no parent makes the tree whole. -/
theorem Loose.link (h : Loose t kids c) (hp : t.tree.parent c = none) (hc : (t.procs c).InUse) {parent : Option ProcSlot}
    (hq : ∀ q, parent = some q → (t.procs q).InUse ∧ (t.procs q).life < (t.procs c).life) :
    ∃ kids', Forest (t.processLinkChild c parent) kids' := by
  cases parent with
  | none =>
    have hparent (q : ProcSlot) : (t.tree.detach c).parent q = t.tree.parent q := by
      by_cases hqc : q = c
      · subst hqc
        simp [Siblings.detach, hp]
      · simp [Siblings.detach, hqc]
    refine ⟨kids, Loose.forest (c := c) ⟨h.holds.detach hp, ?_, ?_, ?_⟩ ?_⟩
    · intro p q hpq
      replace hpq := (hparent q).symm.trans hpq
      have hqc : q ≠ c := by
        intro he
        rw [he, hp] at hpq
        exact Option.some_ne_none p hpq.symm
      obtain ⟨hu, hv, hppid, hlife⟩ := h.kin p q hpq
      simp only [ProcTable.processLinkChild, ppid_update, if_neg hqc]
      exact ⟨hu, hv, hppid, hlife⟩
    · intro q hqc hu hn
      simp only [ProcTable.processLinkChild, ppid_update, if_neg hqc] at hu ⊢
      exact h.roots q hqc hu ((hparent q).symm.trans hn)
    · intro q hu
      simp only [ProcTable.processLinkChild, ppid_update] at hu ⊢
      exact h.lives q hu
    · intro _ _
      simp only [ProcTable.processLinkChild, ppid_update, if_pos]
  | some q =>
    obtain ⟨hqu, hql⟩ := hq q rfl
    have hparent (x : ProcSlot) : (t.tree.link c q).parent x = if x = c then some q else t.tree.parent x := by
      simp [Siblings.link, Function.update_apply]
    refine ⟨_, Loose.forest (c := c) ⟨h.holds.link q hp, ?_, ?_, ?_⟩ ?_⟩
    · intro p x hpx
      have hpx := (hparent x).symm.trans hpx
      simp only [ProcTable.processLinkChild, ppid_update]
      by_cases hx : x = c
      · rw [if_pos hx] at hpx ⊢
        cases hpx
        subst hx
        exact ⟨hc, hqu, rfl, hql⟩
      · rw [if_neg hx] at hpx ⊢
        exact h.kin p x hpx
    · intro x hx hu hn
      have hn := (hparent x).symm.trans hn
      rw [if_neg hx] at hn
      simp only [ProcTable.processLinkChild, ppid_update, if_neg hx] at hu ⊢
      exact h.roots x hx hu hn
    · intro x hu
      simp only [ProcTable.processLinkChild, ppid_update] at hu ⊢
      exact h.lives x hu
    · intro _ hn
      have hn := (hparent c).symm.trans hn
      simp at hn

@[simp] theorem unlink_procs (t : ProcTable) (i : ProcSlot) : (t.processUnlinkChild i).procs = t.procs := by
  unfold ProcTable.processUnlinkChild
  split <;> rfl

@[simp] theorem unlink_lives (t : ProcTable) (i : ProcSlot) : (t.processUnlinkChild i).lives = t.lives := by
  unfold ProcTable.processUnlinkChild
  split <;> rfl

theorem unlink_parent (t : ProcTable) (i : ProcSlot) :
    (t.processUnlinkChild i).tree.parent = Function.update t.tree.parent i none := by
  unfold ProcTable.processUnlinkChild
  split <;> rfl

/-- Taking a process from under its parent leaves only its own `ppid` behind. -/
theorem Forest.unlink (h : Forest t kids) (i : ProcSlot) :
    ∃ kids', Loose (t.processUnlinkChild i) kids' i ∧ ∀ p, kids p = [] → kids' p = [] := by
  have hloose (kids' : ProcSlot → List ProcSlot) (hh : (t.processUnlinkChild i).tree.Holds kids') :
      Loose (t.processUnlinkChild i) kids' i := by
    refine ⟨hh, ?_, ?_, ?_⟩
    · intro p q hp
      rw [unlink_parent] at hp
      by_cases hq : q = i
      · simp [hq] at hp
      · rw [Function.update_of_ne hq] at hp
        rw [unlink_procs]
        exact h.kin hp
    · intro q hq hu hp
      rw [unlink_parent, Function.update_of_ne hq] at hp
      rw [unlink_procs] at hu ⊢
      exact h.root hu hp
    · intro q hu
      rw [unlink_procs] at hu ⊢
      rw [unlink_lives]
      exact (h 0).lives q hu
  cases hp : t.tree.parent i with
  | none =>
    refine ⟨kids, hloose kids ?_, fun _ hk => hk⟩
    simp only [ProcTable.processUnlinkChild, hp]
    exact h.holds.detach hp
  | some q =>
    refine ⟨_, hloose (Function.update kids q ((kids q).erase i)) ?_, ?_⟩
    · simp only [ProcTable.processUnlinkChild, hp]
      exact h.holds.unlink hp (links_enough h.holds q)
    · intro p hk
      by_cases hpq : p = q
      · subst hpq
        rw [Function.update_self, hk, erase_nil]
      · rw [Function.update_of_ne hpq]
        exact hk

structure Orphaned (t t' : ProcTable) (l : List ProcSlot) : Prop where
  procs : ∀ q, t'.procs q = { t.procs q with ppid := if q ∈ l then 0 else (t.procs q).ppid }
  parent : ∀ q, t'.tree.parent q = if q ∈ l then none else t.tree.parent q
  next : ∀ q, t'.tree.nextSibling q = if q ∈ l then none else t.tree.nextSibling q
  children : t'.tree.children = t.tree.children
  lives : t'.lives = t.lives

theorem orphanFrom_spec {n : Nat} {start : Option ProcSlot} {l : List ProcSlot}
    (h : Chain t.tree.nextSibling start l) (hn : l.length < n) : Orphaned t (ProcTable.orphanFrom n start t) l := by
  induction l generalizing n start t with
  | nil =>
    cases h
    cases n <;> exact ⟨fun _ => by simp [ProcTable.orphanFrom], fun _ => by simp [ProcTable.orphanFrom],
      fun _ => by simp [ProcTable.orphanFrom], rfl, rfl⟩
  | cons a l ih =>
    have hnd := h.nodup
    cases n with
    | zero => simp at hn
    | succ n =>
      cases h with
      | cons _ _ tail =>
        have ha : a ∉ l := (nodup_cons.mp hnd).1
        let u : ProcTable := { t.update a fun p => { p with ppid := 0 } with tree := t.tree.detach a }
        have htail : Chain u.tree.nextSibling (t.tree.nextSibling a) l :=
          tail.congr fun b hb => Function.update_of_ne (ne_of_mem_of_not_mem hb ha) _ _
        have hu := ih htail (Nat.lt_of_succ_lt_succ hn)
        have hstep : ProcTable.orphanFrom (n + 1) (some a) t =
            ProcTable.orphanFrom n (t.tree.nextSibling a) u := rfl
        rw [hstep]
        refine ⟨?_, ?_, ?_, hu.children, hu.lives⟩
        · intro q
          rw [hu.procs, show u.procs q = _ from ppid_update t a 0 q]
          by_cases hq : q = a
          · simp [hq]
          · simp [hq]
        · intro q
          rw [hu.parent]
          by_cases hq : q = a
          · simp [hq, u, Siblings.detach]
          · simp [hq, u, Siblings.detach]
        · intro q
          rw [hu.next]
          by_cases hq : q = a
          · simp [hq, u, Siblings.detach]
          · simp [hq, u, Siblings.detach]

/-- A process whose children were orphaned has none, and they are roots. -/
theorem Forest.orphan (h : Forest t kids) (i : ProcSlot) {t' : ProcTable} (ho : Orphaned t t' (kids i)) :
    Forest { t' with tree := { t'.tree with children := Function.update t'.tree.children i none } }
      (Function.update kids i []) := by
  have hu (q : ProcSlot) : (t'.procs q).InUse ↔ (t.procs q).InUse := by rw [ho.procs]
  intro c
  refine ⟨h.holds.orphan i ho.parent ho.next (by rw [ho.children]), ?_, ?_, ?_⟩
  · intro p q hp
    replace hp := (ho.parent q).symm.trans hp
    by_cases hq : q ∈ kids i
    · simp [hq] at hp
    · rw [if_neg hq] at hp
      obtain ⟨hqu, hpu, hppid, hlife⟩ := h.kin hp
      refine ⟨(hu q).mpr hqu, (hu p).mpr hpu, ?_, ?_⟩
      · simpa only [ho.procs, if_neg hq] using hppid
      · simpa only [ho.procs] using hlife
  · intro q _ hq hp
    replace hp := (ho.parent q).symm.trans hp
    simp only [ho.procs]
    by_cases hm : q ∈ kids i
    · rw [if_pos hm]
    · rw [if_neg hm] at hp ⊢
      exact h.root ((hu q).mp hq) hp
  · intro q hq
    simp only [ho.procs, ho.lives]
    exact (h 0).lives q ((hu q).mp hq)

theorem Loose.vacate (h : Loose t kids c) (hp : t.tree.parent c = none) (hk : kids c = [])
    (hf : (f (t.procs c)).state = .unused) : Forest (t.update c f) kids := by
  refine Loose.forest (c := c) ⟨h.holds, ?_, ?_, ?_⟩ ?_
  · intro p q hpq
    have hq : q ≠ c := by
      intro he
      rw [he] at hpq
      exact Option.some_ne_none p (hpq.symm.trans hp)
    have hpc : p ≠ c := by
      intro he
      have hm := (h.holds.mem p q).mpr hpq
      rw [he, hk] at hm
      exact absurd hm not_mem_nil
    simp only [ProcTable.update, Function.update_of_ne hq, Function.update_of_ne hpc]
    exact h.kin p q hpq
  · intro q hq
    simp only [ProcTable.update, Function.update_of_ne hq]
    exact h.roots q hq
  · intro q hu
    by_cases hq : q = c
    · subst hq
      simp only [ProcTable.update, Function.update_self] at hu
      exact absurd hf hu
    · simp only [ProcTable.update, Function.update_of_ne hq] at hu ⊢
      exact h.lives q hu
  · intro hu
    simp only [ProcTable.update, Function.update_self] at hu
    exact absurd hf hu

theorem Forest.destroy (h : Forest t kids) (i : ProcSlot) : ∃ kids', Forest (t.processDestroy env i) kids' := by
  unfold ProcTable.processDestroy
  split
  · exact ⟨kids, h⟩
  · split
    · exact ⟨kids, h⟩
    · have ho := h.orphan i (orphanFrom_spec (h.holds.chain i) (links_enough h.holds i))
      obtain ⟨kids', hl, hk⟩ := ho.unlink i
      refine ⟨kids', hl.vacate ?_ (hk i (Function.update_self ..)) rfl⟩
      rw [unlink_parent, Function.update_self]

/-- A free slot that a new process takes, with the numbers the table gives out next. -/
theorem Forest.clear (h : Forest t kids) {i : ProcSlot} (hi : (t.procs i).state = .unused) {p : TreeProc}
    (hp : p.life = t.lives) (n : Nat) : Loose ({ t with nextPid := n, lives := t.lives + 1 }.clear i p) kids i := by
  obtain ⟨hparent, hkids⟩ := (h 0).free hi
  have hparents (q : ProcSlot) : (t.tree.detach i).parent q = t.tree.parent q := by
    by_cases hq : q = i
    · subst hq
      simp [Siblings.detach, hparent]
    · simp [Siblings.detach, hq]
  have hother {q : ProcSlot} (hu : (t.procs q).InUse) : q ≠ i := by
    intro he
    exact hu (he ▸ hi)
  refine ⟨⟨?_, (h.holds.detach hparent).mem⟩, ?_, ?_, ?_⟩
  · intro q
    have hc := (h.holds.detach hparent).chain q
    simp only [ProcTable.clear]
    by_cases hq : q = i
    · subst hq
      rw [Function.update_self, hkids]
      exact .nil
    · rw [Function.update_of_ne hq]
      exact hc
  · intro p q hpq
    replace hpq := (hparents q).symm.trans hpq
    have hk := h.kin hpq
    simp only [ProcTable.clear, Function.update_of_ne (hother hk.1), Function.update_of_ne (hother hk.2.1)]
    exact hk
  · intro q hq hu hn
    replace hn := (hparents q).symm.trans hn
    simp only [ProcTable.clear, Function.update_of_ne hq] at hu ⊢
    exact h.root hu hn
  · intro q hu
    by_cases hq : q = i
    · subst hq
      simp only [ProcTable.clear, Function.update_self, hp]
      exact Nat.lt_succ_self _
    · simp only [ProcTable.clear, Function.update_of_ne hq] at hu ⊢
      exact Nat.lt_succ_of_lt ((h 0).lives q hu)

theorem link_stays (t : ProcTable) (c : ProcSlot) (parent : Option ProcSlot) (q : ProcSlot) :
    (((t.processLinkChild c parent).procs q).InUse ↔ (t.procs q).InUse) ∧
      ((t.processLinkChild c parent).procs q).life = (t.procs q).life := by
  cases parent with
  | none => simp only [ProcTable.processLinkChild, ppid_update, and_true]
  | some p => simp only [ProcTable.processLinkChild, ppid_update, and_true]

def ProcsStay (t t' : ProcTable) : Prop :=
  ∀ q, (t.procs q).InUse → (t'.procs q).InUse ∧ (t'.procs q).life = (t.procs q).life

theorem Forest.create (h : Forest t kids) {parent : Option ProcSlot} (hq : ∀ q, parent = some q → (t.procs q).InUse) :
    (∃ kids', Forest (t.processCreateWithParent env parent).2 kids') ∧ ProcsStay t (t.processCreateWithParent env parent).2 ∧
      ∀ i, (t.processCreateWithParent env parent).1 = some i → ((t.processCreateWithParent env parent).2.procs i).InUse ∧
          ((t.processCreateWithParent env parent).2.procs i).life = t.lives := by
  unfold ProcTable.processCreateWithParent
  split
  next => exact ⟨⟨kids, h⟩, fun _ hu => ⟨hu, rfl⟩, fun _ hi => absurd hi (nomatch ·)⟩
  next i hfind =>
    have hi : (t.procs i).state = .unused := by simpa using List.find?_some hfind
    have hother {q : ProcSlot} (hu : (t.procs q).InUse) : q ≠ i := by
      intro he
      exact hu (he ▸ hi)
    have hkeep (n : Nat) (p : TreeProc) : ProcsStay t ({ t with nextPid := n, lives := t.lives + 1 }.clear i p) := by
      intro q hu
      simp only [ProcTable.clear, Function.update_of_ne (hother hu)]
      exact ⟨hu, trivial⟩
    -- a process that is not brought up leaves a free slot
    have hfail (n : Nat) (p : TreeProc) (hp : p.life = t.lives) (hs : p.state = .unused) :
        ∃ kids', Forest ({ t with nextPid := n, lives := t.lives + 1 }.clear i p) kids' := by
      refine ⟨kids, (h.clear hi hp n).forest ?_⟩
      intro hu
      simp only [ProcTable.clear, Function.update_self] at hu
      exact absurd hs hu
    dsimp only
    split
    next =>
      split
      next => exact ⟨hfail _ _ rfl rfl, hkeep _ _, fun _ he => absurd he (nomatch ·)⟩
      next task _ =>
        let p : TreeProc := ⟨t.nextPid, (parent.map fun q => (t.procs q).pid).getD 0, .embryo, env.space, some task, t.lives⟩
        let u := ProcTable.clear { t with nextPid := (t.nextPid + 1) % 2 ^ 32, lives := t.lives + 1 } i p
        have hnew : u.procs i = p := Function.update_self ..
        have hstays : ProcsStay t u := hkeep _ p
        refine ⟨?_, ?_, ?_⟩
        · refine (h.clear (p := p) hi rfl _).link (Function.update_self ..) ?_ ?_
          · rw [hnew]
            exact (nomatch ·)
          · intro q hpq
            obtain ⟨huse, hlife⟩ := hstays q (hq q hpq)
            rw [hnew, hlife]
            exact ⟨huse, (h 0).lives q (hq q hpq)⟩
        · intro q hu
          obtain ⟨huse, hlife⟩ := link_stays u i parent q
          exact ⟨huse.mpr (hstays q hu).1, hlife.trans (hstays q hu).2⟩
        · intro j hj
          cases hj
          obtain ⟨huse, hlife⟩ := link_stays u i parent i
          rw [hnew] at huse hlife
          exact ⟨huse.mpr (nomatch ·), hlife⟩
    next => exact ⟨hfail _ _ rfl rfl, hkeep _ _, fun _ he => absurd he (nomatch ·)⟩

theorem current_in_use (h : t.processCurrent env = some p) : (t.procs p).InUse := by
  unfold ProcTable.processCurrent at h
  split at h
  · cases h
  · have hp := List.find?_some h
    simp only [decide_eq_true_eq] at hp
    exact hp.1

theorem Forest.fork (h : Forest t kids) {parent : ProcSlot} (hp : (t.procs parent).InUse) :
    ∃ kids', Forest (t.processFork env parent).2 kids' := by
  have hcreate := @Forest.create t kids env h (t.processCurrent env) fun _ hq => current_in_use hq
  unfold ProcTable.processFork ProcTable.processCreate
  obtain ⟨⟨kids', hforest⟩, hstays, hchild⟩ := hcreate
  split
  next u hu => exact ⟨kids', by simpa [hu] using hforest⟩
  next child u hu =>
    rw [hu] at hforest hstays hchild
    dsimp only at hforest hstays hchild
    obtain ⟨hc, hlife⟩ := hchild child rfl
    obtain ⟨hpu, hpl⟩ := hstays parent hp
    obtain ⟨kids₁, hloose, _⟩ := hforest.unlink child
    have hparent : ∀ q, some parent = some q → ((u.processUnlinkChild child).procs q).InUse ∧
        ((u.processUnlinkChild child).procs q).life < ((u.processUnlinkChild child).procs child).life := by
      intro q hq
      cases hq
      rw [unlink_procs, hlife, hpl]
      exact ⟨hpu, (h 0).lives parent hp⟩
    have hlink := hloose.link (by rw [unlink_parent, Function.update_self]) (by rw [unlink_procs]; exact hc) hparent
    obtain ⟨kids₂, hlink⟩ := hlink
    dsimp only
    split
    · split
      · exact ⟨kids₂, hlink.update child (f := fun p => { p with addressSpace := true }) (fun hu => hu) (fun hu => hu) ⟨rfl, rfl, rfl⟩⟩
      · exact hlink.destroy child
    · exact ⟨kids₂, hlink⟩

theorem by_pid_in_use {pid : Nat} (h : t.processByPid pid = some p) : (t.procs p).InUse := by
  have hp := List.find?_some h
  simp only [decide_eq_true_eq] at hp
  exact hp.1

theorem Forest.kill (h : Forest t kids) (pid : Nat) : ∃ kids', Forest (t.processKill env pid).2 kids' := by
  unfold ProcTable.processKill
  split
  next => exact ⟨kids, h⟩
  next i hi =>
    have hu := by_pid_in_use hi
    split
    · exact ⟨kids, h⟩
    · have hz := h.update i (f := fun p => { p with state := .zombie, mainThread := none })
        (fun _ => hu) (fun _ => (nomatch ·)) ⟨rfl, rfl, rfl⟩
      dsimp only
      split
      · exact hz.destroy i
      · exact ⟨kids, hz⟩

theorem Forest.reapOrphans (h : Forest t kids) : ∃ kids', Forest (t.processReapOrphans env) kids' := by
  unfold ProcTable.processReapOrphans
  generalize finRange 128 = l
  induction l generalizing t kids with
  | nil => exact ⟨kids, h⟩
  | cons i l ih =>
    rw [foldl_cons]
    split
    · obtain ⟨_, hd⟩ := @Forest.destroy t kids env h i
      exact ih hd
    · exact ih h

theorem boot_forest : Forest .boot (fun _ => []) := by
  intro c
  refine ⟨⟨fun _ => .nil, fun _ _ => by simp [ProcTable.boot]⟩, ?_, ?_, ?_⟩
  · exact fun p _ hp => absurd hp.symm (Option.some_ne_none p)
  · exact fun _ _ _ _ => rfl
  · exact fun _ hu => absurd rfl hu

theorem Forest.step (h : Forest t kids) {op : TreeOp} (hcall : TreeCalled t op) : ∃ kids', Forest (treeStep t op) kids' := by
  cases op with
  | create env => exact (h.create fun _ hq => current_in_use hq).1
  | createRoot env => exact (@Forest.create t kids env h none fun q hq => absurd hq.symm (Option.some_ne_none q)).1
  | fork env parent => exact h.fork hcall
  | exit env =>
    rw [treeStep, ProcTable.processExit]
    split
    next => exact ⟨kids, h⟩
    next i hi =>
      exact ⟨kids, h.update i (fun _ => current_in_use hi) (fun _ => (nomatch ·)) ⟨rfl, rfl, rfl⟩⟩
  | kill env pid => exact h.kill pid
  | destroy env p => exact h.destroy p
  | reapOrphans env => exact h.reapOrphans

theorem treeRun_forest {ops : List TreeOp} (h : TreeRun ops t) : ∃ kids, Forest t kids := by
  induction h with
  | boot => exact ⟨_, boot_forest⟩
  | step _ hcall ih =>
    obtain ⟨_, hf⟩ := ih
    exact hf.step hcall

theorem Forest.acyclic (h : Forest t kids) (p : ProcSlot) : ¬ Relation.TransGen (fun q r => t.tree.parent q = some r) p p := by
  have hold {q r : ProcSlot} (hr : Relation.TransGen (fun q r => t.tree.parent q = some r) q r) :
      (t.procs r).life < (t.procs q).life := by
    induction hr with
    | single hp => exact (h.kin hp).2.2.2
    | tail _ hp ih => exact (h.kin hp).2.2.2.trans ih
  exact fun hp => Nat.lt_irrefl _ (hold hp)

end

/-- After any run, the lists of children are finite and hold each child of their process once,
and no process descends from itself. -/
theorem process_tree_forest {ops : List TreeOp} {t : ProcTable} (h : TreeRun ops t) :
    (∃ kids : ProcSlot → List ProcSlot, ∀ p, (t.procs p).InUse →
      Chain t.tree.nextSibling (t.tree.children p) (kids p) ∧ (kids p).Nodup ∧
      (∀ q ∈ kids p, (t.procs q).InUse) ∧ ∀ q, (t.procs q).InUse → (q ∈ kids p ↔ t.tree.parent q = some p)) ∧
    (∀ p, (t.procs p).InUse → t.tree.parent p = none → (t.procs p).ppid = 0) ∧
    (∀ p q, (t.procs p).InUse → t.tree.parent p = some q →
      (t.procs q).InUse ∧ (t.procs p).ppid = (t.procs q).pid) ∧
    ∀ p, ¬ Relation.TransGen (fun q r => t.tree.parent q = some r) p p := by
  obtain ⟨kids, hf⟩ := treeRun_forest h
  refine ⟨⟨kids, ?_⟩, fun p hu hp => hf.root hu hp, ?_, hf.acyclic⟩
  · intro p _
    refine ⟨hf.holds.chain p, hf.holds.nodup p, ?_, fun q _ => hf.holds.mem p q⟩
    intro q hq
    exact (hf.kin ((hf.holds.mem p q).mp hq)).1
  · intro p q _ hp
    obtain ⟨_, hq, hppid, _⟩ := hf.kin hp
    exact ⟨hq, hppid⟩

/-- Nobody runs, and there is memory for everything. -/
def quietEnv (task : TaskSlot) : TreeEnv := ⟨none, true, some task, true, fun _ => false⟩

/-- A fork from a slot that is not in use takes that very slot, which becomes its own parent. -/
theorem unused_parent_cycles : ((treeStep .boot (.fork (quietEnv 0) 0)).procs 0).InUse ∧
    Relation.TransGen (fun q r => (treeStep .boot (.fork (quietEnv 0) 0)).tree.parent q = some r) 0 0 :=
  ⟨by decide, .single (by decide)⟩

theorem process_tree_forest_fork : ∃ t, TreeRun [.createRoot (quietEnv 0), .fork (quietEnv 1) 0] t ∧
    t.tree.parent 1 = some 0 ∧ (t.procs 1).ppid = (t.procs 0).pid ∧
    ∀ p, ¬ Relation.TransGen (fun q r => t.tree.parent q = some r) p p := by
  have hroot : TreeCalled .boot (.createRoot (quietEnv 0)) := trivial
  have huse : ((treeStep .boot (.createRoot (quietEnv 0))).procs 0).InUse := by decide
  have hfork : TreeCalled (treeStep .boot (.createRoot (quietEnv 0))) (.fork (quietEnv 1) 0) := huse
  have h : TreeRun [.createRoot (quietEnv 0), .fork (quietEnv 1) 0] _ := (TreeRun.boot.step hroot).step hfork
  have hp : (treeStep (treeStep .boot (.createRoot (quietEnv 0))) (.fork (quietEnv 1) 0)).tree.parent 1 = some 0 := by
    decide
  obtain ⟨_, _, hppid, hacyclic⟩ := process_tree_forest h
  exact ⟨_, h, hp, (hppid 1 0 (by decide) hp).2, hacyclic⟩

end CapyOS.Proofs
