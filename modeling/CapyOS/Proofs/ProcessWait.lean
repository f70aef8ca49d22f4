import CapyOS.Kernel.ProcessWait
import CapyOS.Proofs.Process

namespace CapyOS.Proofs
open Function List
variable {policy : SchedulerPolicy} {i : ProcSlot} {pid : Nat}

structure Dwindled (k k' : Kernel) : Prop where
  lives : k'.lives = k.lives
  kept : ∀ i, (k'.procs i).InUse → (k.procs i).InUse ∧ (k'.procs i).life = (k.procs i).life

/-- What is in use after a step was in use before, as the same process, or is new in a slot
that was free. -/
structure Aged (k k' : Kernel) : Prop where
  lives : k.lives ≤ k'.lives
  slots : ∀ i, (k'.procs i).InUse → ((k.procs i).InUse ∧ (k'.procs i).life = (k.procs i).life) ∨
    ((k.procs i).state = .unused ∧ k.lives ≤ (k'.procs i).life ∧ (k'.procs i).life < k'.lives)
  born : ∀ i j, (k'.procs i).InUse → (k'.procs j).InUse → (k.procs i).state = .unused →
    (k.procs j).state = .unused → i = j

section
variable {k k' k'' : Kernel} {env : ProcEnv}

theorem Dwindled.refl (k : Kernel) : Dwindled k k := ⟨rfl, fun _ hi => ⟨hi, rfl⟩⟩

theorem Dwindled.trans (h : Dwindled k k') (h' : Dwindled k' k'') : Dwindled k k'' := by
  refine ⟨h'.lives.trans h.lives, ?_⟩
  intro i hi
  obtain ⟨hi', hlife'⟩ := h'.kept i hi
  obtain ⟨hi, hlife⟩ := h.kept i hi'
  exact ⟨hi, hlife'.trans hlife⟩

theorem Relabeled.dwindled (h : Relabeled k k') : Dwindled k k' :=
  ⟨h.lives, fun i hi => ⟨(h.inUse i).mp hi, h.life i⟩⟩

theorem Dwindled.aged (h : Dwindled k k') : Aged k k' :=
  ⟨h.lives.ge, fun i hi => .inl (h.kept i hi), fun i _ hi _ hu _ => absurd hu (h.kept i hi).1⟩

theorem Aged.dwindled (h : Aged k k') (h' : Dwindled k' k'') : Aged k k'' := by
  refine ⟨h'.lives ▸ h.lives, ?_, fun i j hi hj => h.born i j (h'.kept i hi).1 (h'.kept j hj).1⟩
  intro i hi
  obtain ⟨hi', hlife⟩ := h'.kept i hi
  rw [hlife, h'.lives]
  exact h.slots i hi'

theorem update_dwindled (i : ProcSlot) (f : Proc → Proc) (hin : (f (k.procs i)).InUse → (k.procs i).InUse)
    (hlife : (f (k.procs i)).life = (k.procs i).life) : Dwindled k (k.update i f) := by
  refine ⟨rfl, ?_⟩
  intro p hp
  by_cases hpi : p = i
  · subst hpi
    simp only [Kernel.update, update_self] at hp ⊢
    exact ⟨hin hp, hlife⟩
  · simp only [Kernel.update, update_of_ne hpi] at hp ⊢
    exact ⟨hp, trivial⟩

/-- Killing a main thread leaves each process where it is. -/
theorem killMain_same (i p : ProcSlot) : (((k.killMain i).procs p).InUse ↔ (k.procs p).InUse) ∧
    ((k.killMain i).procs p).life = (k.procs p).life ∧ (k.killMain i).lives = k.lives := by
  unfold Kernel.killMain
  split
  · exact ⟨Iff.rfl, rfl, rfl⟩
  · by_cases hp : p = i
    · subst hp
      simp only [Kernel.update, update_self, and_true]
    · simp only [Kernel.update, update_of_ne hp, and_true]

theorem destroy_one (i : ProcSlot) : Dwindled k (k.processDestroy env i) ∧
    ∀ p, p ≠ i → (k.procs p).InUse → ((k.processDestroy env i).procs p).InUse := by
  unfold Kernel.processDestroy
  split
  · exact ⟨Dwindled.refl k, fun _ _ hp => hp⟩
  · split
    · exact ⟨Dwindled.refl k, fun _ _ hp => hp⟩
    · have hdetach := @detach_relabeled k i
      dsimp only
      generalize (((k.procs i).children.foldl Kernel.orphan k).update i fun p =>
        { p with children := [] }).processUnlinkChild i = k₁ at hdetach
      have hkill : Dwindled k₁ (k₁.killMain i) :=
        ⟨(killMain_same i i).2.2, fun p hp => ⟨(killMain_same i p).1.mp hp, (killMain_same i p).2.1⟩⟩
      refine ⟨(hdetach.dwindled.trans hkill).trans (update_dwindled i _ (fun hf => absurd rfl hf) rfl), ?_⟩
      intro p hp hu
      simp only [Kernel.update, update_of_ne hp]
      exact (killMain_same i p).1.mpr ((hdetach.inUse p).mpr hu)

theorem reapOrphans_dwindled : Dwindled k (k.processReapOrphans env) := by
  unfold Kernel.processReapOrphans
  generalize finRange 128 = slots
  induction slots generalizing k with
  | nil => exact Dwindled.refl k
  | cons i slots ih =>
    rw [foldl_cons]
    split
    · exact (destroy_one i).1.trans ih
    · exact ih

theorem byPid_inUse (h : k.processByPid pid = some i) : (k.procs i).InUse := by
  have hi := List.find?_some h
  simp only [ne_eq, decide_eq_true_eq] at hi
  exact hi.1

theorem kill_dwindled (pid : Nat) (signal : Int) : Dwindled k (k.processKill env pid signal).2 := by
  unfold Kernel.processKill
  split
  next => exact Dwindled.refl k
  next i hi =>
    split
    next => exact Dwindled.refl k
    next =>
      have hzombie := @update_dwindled k i (fun p => { p with exitCode := 128 + signal % 128, state := .zombie })
        (fun _ => byPid_inUse hi) rfl
      dsimp only
      generalize (k.update i fun p => { p with exitCode := 128 + signal % 128, state := .zombie }) = k₁ at hzombie
      have hkill : Dwindled k₁ (k₁.killMain i) :=
        ⟨(killMain_same i i).2.2, fun p hp => ⟨(killMain_same i p).1.mp hp, (killMain_same i p).2.1⟩⟩
      split
      next => exact (hzombie.trans hkill).trans (destroy_one i).1
      next => exact hzombie.trans hkill

theorem create_aged (parent : Option ProcSlot) : Aged k (k.processCreateWithParent env parent).2 := by
  unfold Kernel.processCreateWithParent
  split
  next => exact (Dwindled.refl k).aged
  next i hfind =>
    have hi : (k.procs i).state = .unused := by simpa using List.find?_some hfind
    -- whatever comes into the slot has the next life
    have hborn (tasks : Tasks) (p : Proc) (hp : p.life = k.lives) :
        Aged k ⟨tasks, update k.procs i p, (k.nextProcPid + 1) % 2 ^ 32, k.lives + 1⟩ := by
      have hborn (q : ProcSlot) (hq : (update k.procs i p q).InUse) (hu : (k.procs q).state = .unused) :
          q = i := by
        by_contra hqi
        rw [update_of_ne hqi] at hq
        exact hq hu
      refine ⟨Nat.le_succ _, ?_, fun q r hq hr hqu hru => (hborn q hq hqu).trans (hborn r hr hru).symm⟩
      intro q hq
      by_cases hqi : q = i
      · subst hqi
        simp only [update_self, hp]
        exact .inr ⟨hi, Nat.le_refl _, Nat.lt_succ_self _⟩
      · simp only [update_of_ne hqi] at hq ⊢
        exact .inl ⟨hq, trivial⟩
    dsimp only
    split
    next =>
      split
      next => exact hborn _ _ rfl
      next t tasks _ => exact (hborn tasks _ rfl).dwindled (link_relabeled i parent).dwindled
    next => exact hborn _ _ rfl

theorem fork_aged (parent : ProcSlot) : Aged k (k.processFork env parent).2 := by
  have hcreate := @create_aged k env k.processCurrent
  unfold Kernel.processFork
  split
  next k₁ heq =>
    rw [Kernel.processCreate] at heq
    rw [heq] at hcreate
    exact hcreate
  next child k₁ heq =>
    rw [Kernel.processCreate] at heq
    rw [heq] at hcreate
    dsimp only at hcreate
    have hlinked := hcreate.dwindled
      ((unlink_relabeled child).trans (link_relabeled child (some parent))).dwindled
    dsimp only
    split
    next =>
      split
      next =>
        exact hlinked.dwindled (update_dwindled child (fun p => { p with addressSpace := true }) (fun hu => hu) rfl)
      next => exact hlinked.dwindled (destroy_one child).1
    next => exact hlinked

theorem exit_dwindled (code : Int) : Dwindled k (k.processExit code) := by
  unfold Kernel.processExit
  split
  next => exact Dwindled.refl k
  next i hi =>
    obtain ⟨_, _, hin, _⟩ := current_process hi
    have hz := @update_dwindled k i (fun p => { p with exitCode := code, state := .zombie }) (fun _ => hin) rfl
    exact ⟨hz.lives, hz.kept⟩

theorem step_aged (op : KernelOp) : Aged k (kernelStep k op) := by
  have htasks (tasks : Tasks) : Aged k { k with tasks := tasks } :=
    ⟨Nat.le_refl _, fun _ hi => .inl ⟨hi, rfl⟩, fun _ _ hi _ hu _ => absurd hu hi⟩
  cases op with
  | create env => exact create_aged _
  | createRoot env => exact create_aged none
  | fork env parent => exact fork_aged parent
  | exit code => exact (exit_dwindled code).aged
  | kill env pid signal => exact (kill_dwindled pid signal).aged
  | wait env child => exact (destroy_one child).1.aged
  | reapOrphans env => exact reapOrphans_dwindled.aged
  | enterUserMode p =>
    rw [kernelStep, Kernel.processEnterUserMode]
    split
    next => exact (Dwindled.refl k).aged
    next => exact htasks _
  | tick => exact htasks _
  | taskCreate stack priority => exact htasks _
  | taskExit code => exact htasks _
  | schedulerAdd t => exact htasks _
  | setRunning running => exact htasks _
  | setPolicy policy => exact htasks _
  | preemptDisable => exact htasks _
  | preemptEnable => exact htasks _
  | yield => exact htasks _
  | sleep ticks => exact htasks _

end

structure Logged (s : Waiting) (c : Nat) (w : WaitCall) : Prop where
  delivered : (s.delivered.filter (·.1 = c)).map (·.2.1) = if w.phase = .polling then [] else [w.life]
  destroyed : (s.destroyed.filter (·.1 = c)).map (·.2) = if w.phase = .returned then [w.life] else []

/-- Each unfinished call waits for the process it found, alone, and what was delivered is the
exit code of processes that are gone or about to be destroyed. -/
structure WaitSound (s : Waiting) : Prop where
  held : ∀ (c : Nat) (w : WaitCall), s.calls[c]? = some w → w.phase ≠ .returned →
    (s.kernel.procs w.slot).InUse ∧ (s.kernel.procs w.slot).life = w.life
  apart : ∀ (c d : Nat) (v w : WaitCall), s.calls[c]? = some v → s.calls[d]? = some w → v.phase ≠ .returned →
    w.phase ≠ .returned → v.slot = w.slot → c = d
  logged : ∀ (c : Nat) (w : WaitCall), s.calls[c]? = some w → Logged s c w
  known : ∀ c, s.calls.length ≤ c → (∀ e ∈ s.delivered, e.1 ≠ c) ∧ ∀ e ∈ s.destroyed, e.1 ≠ c
  told : ∀ e ∈ s.delivered, e.2.1 < s.kernel.lives ∧ ∀ i, (s.kernel.procs i).InUse →
    (s.kernel.procs i).life = e.2.1 → ∃ (c : Nat) (w : WaitCall), s.calls[c]? = some w ∧ w.phase = .destroying ∧ w.slot = i
  once : (s.delivered.map (·.2.1)).Nodup
  alone : ∀ i j, (s.kernel.procs i).InUse → (s.kernel.procs j).InUse →
    (s.kernel.procs i).life = (s.kernel.procs j).life → i = j
  lives : ∀ i, (s.kernel.procs i).InUse → (s.kernel.procs i).life < s.kernel.lives

section
variable {s : Waiting} {env : ProcEnv} {c : Nat} {w : WaitCall}

theorem get_set {calls : List WaitCall} (h : calls[c]? = some w) (w' : WaitCall) (d : Nat) (v : WaitCall) :
    (calls.set c w')[d]? = some v ↔ d = c ∧ v = w' ∨ d ≠ c ∧ calls[d]? = some v := by
  have hlt : c < calls.length := (List.getElem?_eq_some_iff.mp h).1
  rw [List.getElem?_set]
  by_cases hd : c = d
  · subst hd
    simp [hlt, eq_comm]
  · simp [hd, Ne.symm hd]

/-- A step of the kernel that frees no process that is waited for. -/
theorem WaitSound.kernel (h : WaitSound s) {k : Kernel} (hk : Aged s.kernel k)
    (hstay : ∀ i, s.Awaited i → (k.procs i).InUse) : WaitSound { s with kernel := k } := by
  refine ⟨?_, h.apart, fun c w hc => ⟨(h.logged c w hc).1, (h.logged c w hc).2⟩, h.known, ?_, h.once, ?_, ?_⟩
  · intro c w hc hw
    obtain ⟨hu, hlife⟩ := h.held c w hc hw
    have hin := hstay w.slot ⟨w, mem_of_getElem? hc, hw, rfl⟩
    cases hk.slots w.slot hin with
    | inl hsame => exact ⟨hin, hsame.2.trans hlife⟩
    | inr hnew => exact absurd hnew.1 hu
  · intro e he
    obtain ⟨hlt, hgone⟩ := h.told e he
    refine ⟨hlt.trans_le hk.lives, ?_⟩
    intro i hi hlife
    cases hk.slots i hi with
    | inl hsame => exact hgone i hsame.1 (hsame.2.symm.trans hlife)
    | inr hnew =>
      rw [hlife] at hnew
      exact absurd hlt (Nat.not_lt.mpr hnew.2.1)
  · intro i j hi hj hlife
    cases hk.slots i hi with
    | inl hi' =>
      cases hk.slots j hj with
      | inl hj' => exact h.alone i j hi'.1 hj'.1 (hi'.2.symm.trans (hlife.trans hj'.2))
      | inr hj' =>
        have hlt := h.lives i hi'.1
        rw [← hi'.2, hlife] at hlt
        exact absurd hlt (Nat.not_lt.mpr hj'.2.1)
    | inr hi' =>
      cases hk.slots j hj with
      | inl hj' =>
        have hlt := h.lives j hj'.1
        rw [← hj'.2, ← hlife] at hlt
        exact absurd hlt (Nat.not_lt.mpr hi'.2.1)
      | inr hj' => exact hk.born i j hi hj hi'.1 hj'.1
  · intro i hi
    cases hk.slots i hi with
    | inl hsame => exact hsame.2 ▸ (h.lives i hsame.1).trans_le hk.lives
    | inr hnew => exact hnew.2.2

theorem WaitSound.deliver (h : WaitSound s) (hc : s.calls[c]? = some w) (hw : w.phase = .polling) (code : Int) :
    WaitSound { s with
      delivered := s.delivered ++ [(c, (s.kernel.procs w.slot).life, code)]
      calls := s.calls.set c { w with phase := .destroying } } := by
  have hactive : w.phase ≠ .returned := by
    rw [hw]
    exact (nomatch ·)
  obtain ⟨hu, hlife⟩ := h.held c w hc hactive
  have hget := get_set hc { w with phase := .destroying }
  -- had somebody written it, its slot would be another call's
  have hnew : ∀ e ∈ s.delivered, e.2.1 ≠ w.life := by
    intro e he heq
    obtain ⟨d, v, hd, hv, hslot⟩ := (h.told e he).2 w.slot hu (hlife.trans heq.symm)
    have hdc := h.apart d c v w hd hc (by rw [hv]; exact (nomatch ·)) hactive hslot
    rw [hdc, hc] at hd
    cases hd
    rw [hw] at hv
    exact absurd hv (nomatch ·)
  refine ⟨?_, ?_, ?_, ?_, ?_, ?_, h.alone, h.lives⟩
  · intro d v hd hv
    obtain ⟨rfl, rfl⟩ | ⟨_, hd⟩ := (hget d v).mp hd
    · exact ⟨hu, hlife⟩
    · exact h.held d v hd hv
  · intro d e u v hd he hu hv hslot
    obtain ⟨hdc, huw⟩ | ⟨_, hd'⟩ := (hget d u).mp hd
    · obtain ⟨hec, _⟩ | ⟨_, he'⟩ := (hget e v).mp he
      · exact hdc.trans hec.symm
      · rw [huw] at hslot
        exact hdc.trans (h.apart c e w v hc he' hactive hv hslot)
    · obtain ⟨hec, hvw⟩ | ⟨_, he'⟩ := (hget e v).mp he
      · rw [hvw] at hslot
        exact (h.apart d c u w hd' hc hu hactive hslot).trans hec.symm
      · exact h.apart d e u v hd' he' hu hv hslot
  · intro d v hd
    obtain ⟨rfl, rfl⟩ | ⟨hdc, hd⟩ := (hget d v).mp hd
    · have hl := h.logged d w hc
      refine ⟨?_, ?_⟩
      · rw [filter_append, map_append, hl.delivered, hw]
        simp [hlife]
      · rw [hl.destroyed, hw]
        rfl
    · have hl := h.logged d v hd
      refine ⟨?_, hl.destroyed⟩
      rw [filter_append, map_append, hl.delivered]
      simp [Ne.symm hdc]
  · intro d hd
    rw [length_set] at hd
    refine ⟨?_, (h.known d hd).2⟩
    intro e he
    cases mem_append.mp he with
    | inl he => exact (h.known d hd).1 e he
    | inr he =>
      rw [mem_singleton.mp he]
      have hlt : c < s.calls.length := (List.getElem?_eq_some_iff.mp hc).1
      exact Nat.ne_of_lt (hlt.trans_le hd)
  · intro e he
    cases mem_append.mp he with
    | inl he =>
      obtain ⟨hlt, hgone⟩ := h.told e he
      refine ⟨hlt, ?_⟩
      intro i hi hl
      obtain ⟨d, v, hd, hv, hslot⟩ := hgone i hi hl
      have hdc : d ≠ c := by
        rintro rfl
        rw [hc] at hd
        cases hd
        rw [hw] at hv
        exact absurd hv (nomatch ·)
      exact ⟨d, v, (hget d v).mpr (.inr ⟨hdc, hd⟩), hv, hslot⟩
    | inr he =>
      rw [mem_singleton.mp he]
      refine ⟨h.lives w.slot hu, ?_⟩
      intro i hi hl
      exact ⟨c, { w with phase := .destroying }, (hget c _).mpr (.inl ⟨rfl, rfl⟩), rfl, (h.alone i w.slot hi hu hl).symm⟩
  · rw [map_append]
    refine nodup_append.mpr ⟨h.once, nodup_singleton _, ?_⟩
    intro x hx y hy hxy
    obtain ⟨e, he, rfl⟩ := mem_map.mp hx
    rw [mem_singleton.mp hy] at hxy
    exact hnew e he (hxy.trans hlife)

/-- A call that has written the exit code destroys the process it waited for, or leaves it
for its next turn. -/
theorem WaitSound.destroyTurn (env : ProcEnv) (h : WaitSound s) (hc : s.calls[c]? = some w) (hw : w.phase = .destroying) :
    WaitSound (s.destroyTurn env c w) := by
  have hactive : w.phase ≠ .returned := by
    rw [hw]
    exact (nomatch ·)
  obtain ⟨hu, hlife⟩ := h.held c w hc hactive
  obtain ⟨hdwindled, hothers⟩ := @destroy_one s.kernel env w.slot
  unfold Waiting.destroyTurn
  rw [if_neg hu]
  dsimp only
  split
  next hfree =>
    have hget := get_set hc { w with phase := .returned }
    have hother {d : Nat} {v : WaitCall} (hdc : d ≠ c) (hd : s.calls[d]? = some v) (hv : v.phase ≠ .returned) :
        v.slot ≠ w.slot := fun hs => hdc (h.apart d c v w hd hc hv hactive hs)
    refine ⟨?_, ?_, ?_, ?_, ?_, h.once, ?_, ?_⟩
    · intro d v hd hv
      obtain ⟨_, rfl⟩ | ⟨hdc, hd⟩ := (hget d v).mp hd
      · exact absurd rfl hv
      · obtain ⟨hvu, hvlife⟩ := h.held d v hd hv
        have hstay := hothers v.slot (hother hdc hd hv) hvu
        exact ⟨hstay, (hdwindled.kept v.slot hstay).2.trans hvlife⟩
    · intro d e u v hd he hu hv hslot
      obtain ⟨_, rfl⟩ | ⟨_, hd⟩ := (hget d u).mp hd
      · exact absurd rfl hu
      · obtain ⟨_, rfl⟩ | ⟨_, he⟩ := (hget e v).mp he
        · exact absurd rfl hv
        · exact h.apart d e u v hd he hu hv hslot
    · intro d v hd
      obtain ⟨hdc, rfl⟩ | ⟨hdc, hd⟩ := (hget d v).mp hd
      · have hl := h.logged c w hc
        subst hdc
        refine ⟨?_, ?_⟩
        · rw [hl.delivered, hw]
          rfl
        · rw [filter_append, map_append, hl.destroyed, hw]
          simp [hlife]
      · have hl := h.logged d v hd
        refine ⟨hl.delivered, ?_⟩
        rw [filter_append, map_append, hl.destroyed]
        simp [Ne.symm hdc]
    · intro d hd
      rw [length_set] at hd
      refine ⟨(h.known d hd).1, ?_⟩
      intro e he
      cases mem_append.mp he with
      | inl he => exact (h.known d hd).2 e he
      | inr he =>
        rw [mem_singleton.mp he]
        have hlt : c < s.calls.length := (List.getElem?_eq_some_iff.mp hc).1
        exact Nat.ne_of_lt (hlt.trans_le hd)
    · intro e he
      obtain ⟨hlt, hgone⟩ := h.told e he
      refine ⟨hdwindled.lives.symm ▸ hlt, ?_⟩
      intro i hi hl
      obtain ⟨hi', hsame⟩ := hdwindled.kept i hi
      obtain ⟨d, v, hd, hv, hslot⟩ := hgone i hi' (hsame.symm.trans hl)
      have hdc : d ≠ c := by
        rintro rfl
        rw [hc] at hd
        cases hd
        rw [← hslot] at hi
        exact hi hfree
      exact ⟨d, v, (hget d v).mpr (.inr ⟨hdc, hd⟩), hv, hslot⟩
    · intro i j hi hj hl
      obtain ⟨hi, hil⟩ := hdwindled.kept i hi
      obtain ⟨hj, hjl⟩ := hdwindled.kept j hj
      exact h.alone i j hi hj (hil.symm.trans (hl.trans hjl))
    · intro i hi
      obtain ⟨hi, hil⟩ := hdwindled.kept i hi
      rw [hil, hdwindled.lives]
      exact h.lives i hi
  next hkept =>
    have hset : s.calls.set c { w with phase := .destroying } = s.calls := by
      have hww : ({ w with phase := .destroying } : WaitCall) = w := by
        rw [← hw]
      obtain ⟨hlt, hcw⟩ := List.getElem?_eq_some_iff.mp hc
      rw [hww, ← hcw]
      exact set_getElem_self hlt
    rw [hset]
    refine h.kernel hdwindled.aged ?_
    intro i ⟨v, hv, hvr, hi⟩
    by_cases his : i = w.slot
    · exact his ▸ hkept
    · obtain ⟨d, hd⟩ := mem_iff_getElem?.mp hv
      exact hothers i his (hi ▸ (h.held d v hd hvr).1)

theorem WaitSound.turn (h : WaitSound s) (c : Nat) : WaitSound (s.turn env c) := by
  unfold Waiting.turn
  split
  next => exact h
  next w hc =>
    split
    next hw =>
      split
      next =>
        have hd := h.deliver hc hw (s.kernel.procs w.slot).exitCode
        have hlt : c < s.calls.length := (List.getElem?_eq_some_iff.mp hc).1
        have ht := @WaitSound.destroyTurn _ c { w with phase := .destroying } env hd (by simp [hlt]) rfl
        simpa only [Waiting.destroyTurn, set_set] using ht
      next => exact h
    next hw => exact h.destroyTurn env hc hw
    next => exact h

/-- A new call waits for a process that no other call waits for. -/
theorem WaitSound.call (h : WaitSound s) (hi : s.kernel.processByPid pid = some i)
    (hfree : ¬ s.Awaited i) : WaitSound { s with calls := s.calls ++ [⟨pid, i, (s.kernel.procs i).life, .polling⟩] } := by
  have hget {d : Nat} {v : WaitCall}
      (hd : (s.calls ++ [(⟨pid, i, (s.kernel.procs i).life, .polling⟩ : WaitCall)])[d]? = some v) :
      s.calls[d]? = some v ∨ d = s.calls.length ∧ v = ⟨pid, i, (s.kernel.procs i).life, .polling⟩ := by
    rw [List.getElem?_append] at hd
    split at hd
    · exact .inl hd
    · have hz : d - s.calls.length = 0 := by
        by_contra hne
        rw [List.getElem?_eq_none (by simpa using Nat.one_le_iff_ne_zero.mpr hne)] at hd
        exact absurd hd (nomatch ·)
      rw [hz] at hd
      exact .inr ⟨by omega, (Option.some.inj hd).symm⟩
  have hother {d : Nat} {v : WaitCall} (hd : s.calls[d]? = some v) (hv : v.phase ≠ .returned) : v.slot ≠ i :=
    fun hs => hfree ⟨v, mem_of_getElem? hd, hv, hs⟩
  refine ⟨?_, ?_, ?_, ?_, ?_, h.once, h.alone, h.lives⟩
  · intro d v hd hv
    obtain hd | ⟨_, rfl⟩ := hget hd
    · exact h.held d v hd hv
    · exact ⟨byPid_inUse hi, rfl⟩
  · intro d e u v hd he hu hv hslot
    obtain hd' | ⟨rfl, rfl⟩ := hget hd
    · obtain he' | ⟨rfl, rfl⟩ := hget he
      · exact h.apart d e u v hd' he' hu hv hslot
      · exact absurd hslot (hother hd' hu)
    · obtain he' | ⟨rfl, _⟩ := hget he
      · exact absurd hslot.symm (hother he' hv)
      · rfl
  · intro d v hd
    obtain hd | ⟨rfl, rfl⟩ := hget hd
    · exact ⟨(h.logged d v hd).1, (h.logged d v hd).2⟩
    · obtain ⟨hdel, hdes⟩ := h.known s.calls.length (Nat.le_refl _)
      refine ⟨?_, ?_⟩
      · rw [filter_eq_nil_iff.mpr fun e he => by simpa using hdel e he]
        rfl
      · rw [filter_eq_nil_iff.mpr fun e he => by simpa using hdes e he]
        rfl
  · intro d hd
    rw [length_append] at hd
    exact h.known d (by omega)
  · intro e he
    obtain ⟨hlt, hgone⟩ := h.told e he
    refine ⟨hlt, ?_⟩
    intro j hj hl
    obtain ⟨d, v, hd, hv, hslot⟩ := hgone j hj hl
    refine ⟨d, v, ?_, hv, hslot⟩
    rw [List.getElem?_append_left (List.getElem?_eq_some_iff.mp hd).1]
    exact hd

theorem WaitSound.step (h : WaitSound s) {op : WaitOp} (hok : Spared s op) : WaitSound (waitStep s op) := by
  cases op with
  | kernel op => exact h.kernel (step_aged op) hok
  | wait env pid =>
    rw [waitStep, Waiting.processWait]
    split
    next => exact h
    next i hi => exact (h.call hi (hok i hi)).turn s.calls.length
  | turn env c => exact h.turn c

theorem wait_boot_sound (policy : SchedulerPolicy) : WaitSound ⟨.boot policy, [], [], []⟩ where
  held := fun _ _ hc => absurd hc (by simp)
  apart := fun _ _ _ _ hc => absurd hc (by simp)
  logged := fun _ _ hc => absurd hc (by simp)
  known := fun _ _ => ⟨fun _ he => absurd he not_mem_nil, fun _ he => absurd he not_mem_nil⟩
  told := fun _ he => absurd he not_mem_nil
  once := nodup_nil
  alone := fun _ _ hi => absurd rfl hi
  lives := fun _ hi => absurd rfl hi

theorem waitRun_sound {ops : List WaitOp} (run : WaitRun Spared policy ops s) : WaitSound s := by
  induction run with
  | boot => exact wait_boot_sound policy
  | step _ hok ih => exact ih.step hok

theorem destroyTurn_delivered (s : Waiting) (c : Nat) (w : WaitCall) : (s.destroyTurn env c w).delivered = s.delivered := by
  unfold Waiting.destroyTurn
  split
  · rfl
  · dsimp only
    split <;> rfl

theorem turn_delivered (env : ProcEnv) (s : Waiting) (c : Nat) : (s.turn env c).delivered = s.delivered ∨
    ∃ i, (s.kernel.procs i).state = .zombie ∧ (s.turn env c).delivered =
      s.delivered ++ [(c, (s.kernel.procs i).life, (s.kernel.procs i).exitCode)] := by
  unfold Waiting.turn
  split
  next => exact .inl rfl
  next w _ =>
    split
    next =>
      split
      next hz => exact .inr ⟨w.slot, hz, destroyTurn_delivered _ c w⟩
      next => exact .inl rfl
    next => exact .inl (destroyTurn_delivered s c w)
    next => exact .inl rfl

theorem turn_call (s : Waiting) (hc : s.calls[c]? = some w) :
    ∃ w', (s.turn env c).calls[c]? = some w' ∧ w'.pid = w.pid ∧ w'.life = w.life := by
  have hlt : c < s.calls.length := (List.getElem?_eq_some_iff.mp hc).1
  have hset (p : WaitPhase) : ∃ w', (s.calls.set c { w with phase := p })[c]? = some w' ∧ w'.pid = w.pid ∧
      w'.life = w.life := ⟨{ w with phase := p }, by simp [hlt], rfl, rfl⟩
  have hdestroy (t : Waiting) (ht : t.calls = s.calls) :
      ∃ w', (t.destroyTurn env c w).calls[c]? = some w' ∧ w'.pid = w.pid ∧ w'.life = w.life := by
    unfold Waiting.destroyTurn
    rw [ht]
    split
    · exact hset .returned
    · dsimp only
      split
      · exact hset .returned
      · exact hset .destroying
  unfold Waiting.turn
  rw [hc]
  dsimp only
  split
  next =>
    split
    next => exact hdestroy _ rfl
    next => exact ⟨w, hc, rfl, rfl⟩
  next => exact hdestroy s rfl
  next => exact ⟨w, hc, rfl, rfl⟩

end

/-- Over every run in which nothing else frees a process that is waited for, and no two calls
wait for one process: a call that has returned wrote the exit code of the process it found,
destroyed that process and no other, and no exit code was written twice. -/
theorem wait_reaps_right {policy : SchedulerPolicy} {ops : List WaitOp} {s : Waiting}
    (run : WaitRun Spared policy ops s) :
    (∀ (c : Nat) (w : WaitCall), s.calls[c]? = some w → w.phase = .returned →
      (s.delivered.filter (·.1 = c)).map (·.2.1) = [w.life] ∧ (s.destroyed.filter (·.1 = c)).map (·.2) = [w.life]) ∧
    (s.delivered.map (·.2.1)).Nodup ∧
    (∀ op, (waitStep s op).delivered = s.delivered ∨ ∃ c i, (s.kernel.procs i).state = .zombie ∧
      (waitStep s op).delivered = s.delivered ++ [(c, (s.kernel.procs i).life, (s.kernel.procs i).exitCode)]) ∧
    ∀ env pid i, s.kernel.processByPid pid = some i → ∃ w, (waitStep s (.wait env pid)).calls[s.calls.length]? =
      some w ∧ w.pid = pid ∧ w.life = (s.kernel.procs i).life := by
  have h := waitRun_sound run
  refine ⟨?_, h.once, ?_, ?_⟩
  · intro c w hc hw
    obtain ⟨hdel, hdes⟩ := h.logged c w hc
    rw [hdel, hdes, hw]
    exact ⟨rfl, rfl⟩
  · intro op
    cases op with
    | kernel op => exact .inl rfl
    | wait env pid =>
      rw [waitStep, Waiting.processWait]
      split
      next => exact .inl rfl
      next i _ =>
        obtain hsame | ⟨j, hj⟩ := turn_delivered env
          { s with calls := s.calls ++ [⟨pid, i, (s.kernel.procs i).life, .polling⟩] } s.calls.length
        · exact .inl hsame
        · exact .inr ⟨s.calls.length, j, hj⟩
    | turn env c =>
      obtain hsame | ⟨j, hj⟩ := turn_delivered env s c
      · exact .inl hsame
      · exact .inr ⟨c, j, hj⟩
  · intro env pid i hi
    simp only [waitStep, Waiting.processWait, hi]
    exact turn_call (w := ⟨pid, i, (s.kernel.procs i).life, .polling⟩) _ (by simp)

theorem kernel_ops_run (ops : List KernelOp) :
    WaitRun Spared policy (ops.map .kernel) ⟨ops.foldl kernelStep (.boot policy), [], [], []⟩ := by
  induction ops using List.reverseRecOn with
  | nil => exact .boot
  | append_singleton ops op ih =>
    rw [map_append, foldl_append]
    exact ih.step fun i ⟨w, hw, _⟩ => absurd hw not_mem_nil

theorem wait_reaps_right_one : ∃ s, WaitRun Spared .roundRobin (exitOps.map .kernel ++ [.wait plentyEnv 1]) s ∧
    s.delivered = [(0, 0, 0)] ∧ s.destroyed = [(0, 0)] ∧ (s.delivered.map (·.2.1)).Nodup := by
  have hwait : Spared ⟨exited, [], [], []⟩ (.wait plentyEnv 1) :=
    fun i _ ⟨w, hw, _⟩ => absurd hw not_mem_nil
  have run := (kernel_ops_run exitOps).step hwait
  exact ⟨_, run, by decide, by decide, (wait_reaps_right run).2.1⟩

def recycledOps : List WaitOp :=
  [.kernel (.createRoot plentyEnv), .wait plentyEnv 1, .kernel (.kill plentyEnv 1 9), .kernel (.createRoot plentyEnv),
    .kernel (.enterUserMode 0), .kernel (.exit 42), .turn plentyEnv 0]

theorem wait_ops_run (ops : List WaitOp) :
    WaitRun (fun _ _ => True) policy ops (ops.foldl waitStep ⟨.boot policy, [], [], []⟩) := by
  induction ops using List.reverseRecOn with
  | nil => exact .boot
  | append_singleton ops op ih =>
    rw [foldl_append]
    exact ih.step trivial

/-- The call then returns 0 with the exit code of the second process, which it destroyed. -/
theorem wait_reaps_another : ∃ s, WaitRun (fun _ _ => True) .roundRobin recycledOps s ∧
    s.calls = [⟨1, 0, 0, .returned⟩] ∧ s.delivered = [(0, 1, 42)] ∧ s.destroyed = [(0, 1)] :=
  ⟨_, wait_ops_run recycledOps, by decide, by decide, by decide⟩

end CapyOS.Proofs
