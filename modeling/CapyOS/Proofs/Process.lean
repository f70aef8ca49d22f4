import CapyOS.Kernel.Process

namespace CapyOS.Proofs
open Function
variable {t : TaskSlot} {i : ProcSlot} {tasks : Tasks}

structure TasksSound (s : Tasks) : Prop where
  unique : ∀ i j, (s.table i).InUse → (s.table j).InUse → (s.table i).pid = (s.table j).pid → i = j
  below : ∀ i, (s.table i).InUse → (s.table i).pid < s.nextPid
  current : ∀ t, s.current = some t → (s.table t).InUse

structure Fewer (s s' : Tasks) : Prop where
  nextPid : s.nextPid ≤ s'.nextPid
  kept : ∀ i, (s'.table i).InUse → (s.table i).InUse ∧ (s'.table i).pid = (s.table i).pid ∧
    (s'.table i).createdFor = (s.table i).createdFor

structure SameTasks (s s' : Tasks) : Prop extends Fewer s s' where
  stays : ∀ i, (s.table i).InUse → (s'.table i).InUse

section
variable {s s' s'' : Tasks}

theorem Fewer.trans (h : Fewer s s') (h' : Fewer s' s'') : Fewer s s'' where
  nextPid := Nat.le_trans h.nextPid h'.nextPid
  kept := by
    intro i hi
    obtain ⟨hmid, hpid, hfor⟩ := h'.kept i hi
    obtain ⟨hstart, hpid', hfor'⟩ := h.kept i hmid
    exact ⟨hstart, hpid.trans hpid', hfor.trans hfor'⟩

theorem SameTasks.refl (s : Tasks) : SameTasks s s := ⟨⟨Nat.le_refl _, fun _ hi => ⟨hi, rfl, rfl⟩⟩, fun _ hi => hi⟩

theorem SameTasks.trans (h : SameTasks s s') (h' : SameTasks s' s'') : SameTasks s s'' :=
  ⟨h.toFewer.trans h'.toFewer, fun i hi => h'.stays i (h.stays i hi)⟩

theorem fewer_sound (h : TasksSound s) (hfewer : Fewer s s')
    (hcurrent : ∀ t, s'.current = some t → (s'.table t).InUse) : TasksSound s' where
  unique := by
    intro i j hi hj hpid
    obtain ⟨hi, hpi, -⟩ := hfewer.kept i hi
    obtain ⟨hj, hpj, -⟩ := hfewer.kept j hj
    exact h.unique i j hi hj (hpi.symm.trans (hpid.trans hpj))
  below := by
    intro i hi
    obtain ⟨hi, hpi, -⟩ := hfewer.kept i hi
    rw [hpi]
    exact Nat.lt_of_lt_of_le (h.below i hi) hfewer.nextPid
  current := hcurrent

/-- A task that is in use is changed in its state only, and stays in use. -/
theorem update_same {i : TaskSlot} {f : Task → Task} (hi : (s.table i).InUse) (hf : (f (s.table i)).InUse)
    (hpid : (f (s.table i)).pid = (s.table i).pid) (hfor : (f (s.table i)).createdFor = (s.table i).createdFor) :
    SameTasks s (s.update i f) := by
  refine ⟨⟨Nat.le_refl _, ?_⟩, ?_⟩
  · intro j hj
    by_cases hji : j = i
    · subst hji
      simp only [Tasks.update, update_self]
      exact ⟨hi, hpid, hfor⟩
    · simp only [Tasks.update, update_of_ne hji] at hj ⊢
      exact ⟨hj, trivial, trivial⟩
  · intro j hj
    by_cases hji : j = i
    · subst hji
      simp only [Tasks.update, update_self]
      exact hf
    · simp only [Tasks.update, update_of_ne hji]
      exact hj

theorem bestOf_ready {ts : List TaskSlot} {best : Option TaskSlot} (hbest : ∀ b, best = some b → s.isReady b = true)
    {t : TaskSlot} (h : ts.foldl (fun best t =>
      if s.isReady t then
        match best with
        | none => some t
        | some b => if (s.table t).priority > (s.table b).priority then some t else best
      else best) best = some t) : s.isReady t = true := by
  induction ts generalizing best with
  | nil => exact hbest t h
  | cons u ts ih =>
    refine ih ?_ h
    intro b hb
    by_cases hu : s.isReady u = true
    · cases best with
      | none =>
        simp only [hu, if_true, Option.some.injEq] at hb
        exact hb ▸ hu
      | some c =>
        simp only [hu, if_true] at hb
        split at hb
        · exact (Option.some.inj hb) ▸ hu
        · exact hbest b hb
    · simp only [hu] at hb
      exact hbest b hb

theorem pick_ready (h : s.pickNextForCurrent = some t) : (s.table t).state = .ready := by
  have hready : s.isReady t = true := by
    unfold Tasks.pickNextForCurrent at h
    dsimp only at h
    split at h
    · exact @bestOf_ready s _ none (by simp) t h
    · exact List.find?_some h
  simpa [Tasks.isReady] using hready

theorem schedule_same (h : TasksSound s) : SameTasks s s.schedule ∧ TasksSound s.schedule := by
  unfold Tasks.schedule
  split
  next => exact ⟨SameTasks.refl s, h⟩
  next next hnext =>
    split
    next => exact ⟨SameTasks.refl s, h⟩
    next =>
      have hready := pick_ready hnext
      have hdown : SameTasks s s.stepDown := by
        unfold Tasks.stepDown
        split
        next => exact SameTasks.refl s
        next t ht =>
          split
          · exact update_same (h.current t ht) (by simp) rfl rfl
          · exact SameTasks.refl s
      have hin : (s.table next).InUse := by simp [hready]
      have hup := @update_same s.stepDown next (fun task => { task with state := .running })
        (hdown.stays next hin) (by simp) rfl rfl
      have hsame := hdown.trans hup
      refine ⟨⟨⟨hsame.nextPid, hsame.kept⟩, hsame.stays⟩, fewer_sound h ⟨hsame.nextPid, hsame.kept⟩ ?_⟩
      intro t ht
      cases ht
      exact hsame.stays next hin

theorem yield_same (h : TasksSound s) : SameTasks s s.schedulerYield ∧ TasksSound s.schedulerYield := by
  unfold Tasks.schedulerYield
  split
  · exact schedule_same h
  · exact ⟨SameTasks.refl s, h⟩

/-- The same, after the current task was changed in its state only. -/
theorem update_sound (h : TasksSound s) {t : TaskSlot} {f : Task → Task} (ht : (s.table t).InUse)
    (hf : (f (s.table t)).InUse) (hpid : (f (s.table t)).pid = (s.table t).pid)
    (hfor : (f (s.table t)).createdFor = (s.table t).createdFor) : SameTasks s (s.update t f) ∧ TasksSound (s.update t f) := by
  have hsame := update_same ht hf hpid hfor
  exact ⟨hsame, fewer_sound h hsame.toFewer fun u hu => hsame.stays u (h.current u hu)⟩

theorem sleep_same (h : TasksSound s) (ticks : Nat) :
    SameTasks s (s.sleepCurrent ticks) ∧ TasksSound (s.sleepCurrent ticks) := by
  unfold Tasks.sleepCurrent
  split
  next => exact ⟨SameTasks.refl s, h⟩
  next t ht =>
    obtain ⟨hsame, hsound⟩ := @update_sound s h t
      (fun task => { task with state := .sleeping, wakeTick := (s.totalTicks + ticks) % 2 ^ 64 })
      (h.current t ht) (by simp) rfl rfl
    obtain ⟨hsched, hsound⟩ := schedule_same hsound
    exact ⟨hsame.trans hsched, hsound⟩

theorem exit_same (h : TasksSound s) (code : Int) : SameTasks s (s.taskExit code) ∧ TasksSound (s.taskExit code) := by
  unfold Tasks.taskExit
  split
  next => exact yield_same h
  next t ht =>
    obtain ⟨hsame, hsound⟩ := @update_sound s h t (fun task => { task with exitCode := code, state := .zombie })
      (h.current t ht) (by simp) rfl rfl
    obtain ⟨hyield, hsound⟩ := yield_same hsound
    exact ⟨hsame.trans hyield, hsound⟩

theorem wakeOne_same (h : TasksSound s) (t : TaskSlot) : SameTasks s (s.wakeOne t) ∧ TasksSound (s.wakeOne t) := by
  unfold Tasks.wakeOne
  split
  next hsleep =>
    have hin : (s.table t).InUse := by simp [hsleep.1]
    exact update_sound h hin (by simp) rfl rfl
  next => exact ⟨SameTasks.refl s, h⟩

theorem preempt_same (h : TasksSound s) : SameTasks s s.preempt ∧ TasksSound s.preempt := by
  unfold Tasks.preempt
  split
  next => exact ⟨SameTasks.refl s, h⟩
  next =>
    split
    next => exact schedule_same h
    next t ht =>
      split
      next =>
        split
        next =>
          obtain ⟨hsame, hsound⟩ := @update_sound s h t
            (fun task => { task with quantumRemaining := schedDefaultQuantum })
            (h.current t ht) (h.current t ht) rfl rfl
          obtain ⟨hsched, hsound⟩ := schedule_same hsound
          exact ⟨hsame.trans hsched, hsound⟩
        next => exact update_sound h (h.current t ht) (h.current t ht) rfl rfl
      next => exact schedule_same h

theorem taskByPid_self (h : TasksSound s) (ht : (s.table t).InUse) : s.taskByPid (s.table t).pid = some t := by
  cases hfind : s.taskByPid (s.table t).pid with
  | none =>
    have hnone := List.find?_eq_none.mp hfind t (List.mem_finRange t)
    simp [ht] at hnone
  | some u =>
    have hu := List.find?_some hfind
    simp only [ne_eq, decide_eq_true_eq] at hu
    rw [h.unique u t hu.1 ht hu.2]

/-- What `task_kill` does to the task with the pid, and to no other. -/
theorem taskKill_spec (h : TasksSound s) (ht : (s.table t).InUse) :
    Fewer s (s.taskKill (s.table t).pid) ∧ TasksSound (s.taskKill (s.table t).pid) ∧
    (s.taskKill (s.table t).pid).current = s.current ∧ (∀ u, u ≠ t → (s.taskKill (s.table t).pid).table u = s.table u) ∧
    (s.current ≠ some t → ((s.taskKill (s.table t).pid).table t).state = .unused) := by
  rw [Tasks.taskKill, taskByPid_self h ht]
  dsimp only
  split
  next hcurrent => exact ⟨(SameTasks.refl s).toFewer, h, rfl, fun _ _ => rfl, fun hne => absurd hcurrent hne⟩
  next hcurrent =>
    have hfewer : Fewer s ((s.schedulerRemove t).update t fun task => { task with state := .unused }) := by
      refine ⟨Nat.le_refl _, ?_⟩
      intro u hu
      by_cases hut : u = t
      · subst hut
        simp [Tasks.update] at hu
      · simp only [Tasks.update, Tasks.schedulerRemove, update_of_ne hut] at hu ⊢
        exact ⟨hu, trivial, trivial⟩
    refine ⟨hfewer, fewer_sound h hfewer ?_, rfl, ?_, ?_⟩
    · intro u hu
      have hut : u ≠ t := by
        rintro rfl
        exact hcurrent hu
      simp only [Tasks.update, Tasks.schedulerRemove, update_of_ne hut]
      exact h.current u hu
    · intro u hut
      simp only [Tasks.update, Tasks.schedulerRemove, update_of_ne hut]
    · intro _
      simp [Tasks.update]

end

section
variable {s : Tasks}

theorem reapOne_spec (h : TasksSound s) (t : TaskSlot) :
    Fewer s (s.reapOne t) ∧ TasksSound (s.reapOne t) ∧ (s.reapOne t).current = s.current ∧
    ∀ u, (u ≠ t ∨ ¬ s.Reapable u) → (s.reapOne t).table u = s.table u := by
  unfold Tasks.reapOne
  split
  next hreap =>
    have hin : (s.table t).InUse := by
      rcases hreap.1 with hstate | hstate <;> simp [hstate]
    obtain ⟨hfewer, hsound, hcurrent, hother, -⟩ := taskKill_spec h hin
    refine ⟨hfewer, hsound, hcurrent, ?_⟩
    intro u hu
    rcases hu with hu | hu
    · exact hother u hu
    · refine hother u ?_
      rintro rfl
      exact hu hreap
  next => exact ⟨(SameTasks.refl s).toFewer, h, rfl, fun _ _ => rfl⟩

theorem reap_fold (h : TasksSound s) (ts : List TaskSlot) :
    Fewer s (ts.foldl Tasks.reapOne s) ∧ TasksSound (ts.foldl Tasks.reapOne s) ∧
    ∀ u, (u ∉ ts ∨ ¬ s.Reapable u) → (ts.foldl Tasks.reapOne s).table u = s.table u := by
  induction ts generalizing s with
  | nil => exact ⟨(SameTasks.refl s).toFewer, h, fun _ _ => rfl⟩
  | cons t ts ih =>
    obtain ⟨hfewer, hsound, hcurrent, hother⟩ := reapOne_spec h t
    obtain ⟨hfewer', hsound', hother'⟩ := ih hsound
    refine ⟨hfewer.trans hfewer', hsound', ?_⟩
    intro u hu
    have hstep : (s.reapOne t).table u = s.table u := by
      refine hother u ?_
      rcases hu with hu | hu
      · exact .inl fun heq => hu (by simp [heq])
      · exact .inr hu
    refine (hother' u ?_).trans hstep
    rcases hu with hu | hu
    · exact .inl fun hmem => hu (List.mem_cons_of_mem _ hmem)
    · refine .inr ?_
      rw [Tasks.Reapable, hstep, hcurrent]
      exact hu

theorem wake_fold (h : TasksSound s) (ts : List TaskSlot) :
    SameTasks s (ts.foldl Tasks.wakeOne s) ∧ TasksSound (ts.foldl Tasks.wakeOne s) ∧
    (ts.foldl Tasks.wakeOne s).queue = s.queue ∧ ∀ t, (ts.foldl Tasks.wakeOne s).Reapable t → s.Reapable t := by
  induction ts generalizing s with
  | nil => exact ⟨SameTasks.refl s, h, rfl, fun _ ht => ht⟩
  | cons t ts ih =>
    obtain ⟨hsame, hsound⟩ := wakeOne_same h t
    obtain ⟨hsame', hsound', hqueue, hreap⟩ := ih hsound
    have hstep : (s.wakeOne t).queue = s.queue ∧ ∀ u, (s.wakeOne t).Reapable u → s.Reapable u := by
      unfold Tasks.wakeOne
      split
      next hsleep =>
        refine ⟨rfl, ?_⟩
        intro u hu
        by_cases hut : u = t
        · subst hut
          simp [Tasks.Reapable, Tasks.update] at hu
        · simpa [Tasks.Reapable, Tasks.update, update_of_ne hut] using hu
      next => exact ⟨rfl, fun _ hu => hu⟩
    exact ⟨hsame.trans hsame', hsound', hqueue.trans hstep.1, fun u hu => hstep.2 u (hreap u hu)⟩

theorem tick_spec (h : TasksSound s) : Fewer s s.schedulerTick ∧ TasksSound s.schedulerTick ∧
    ∀ u, (s.preemptDisable = 0 → u ∈ s.queue → ¬ s.Reapable u) → (s.table u).InUse → (s.schedulerTick.table u).InUse := by
  have hbase : SameTasks s { s with totalTicks := (s.totalTicks + 1) % 2 ^ 64 } :=
    ⟨⟨Nat.le_refl _, fun _ hi => ⟨hi, rfl, rfl⟩⟩, fun _ hi => hi⟩
  obtain ⟨hwake, hsound, hqueue, hreap⟩ :=
    @wake_fold { s with totalTicks := (s.totalTicks + 1) % 2 ^ 64 } ⟨h.unique, h.below, h.current⟩ s.queue
  have hwake := hbase.trans hwake
  have hwoken : s.queue.foldl Tasks.wakeOne { s with totalTicks := (s.totalTicks + 1) % 2 ^ 64 } = s.wakeSleepers := rfl
  rw [hwoken] at hwake hsound hqueue hreap
  unfold Tasks.schedulerTick
  split
  next hheld => exact ⟨hwake.toFewer, hsound, fun u _ hu => hwake.stays u hu⟩
  next hheld =>
    obtain ⟨hfewer, hswept, hother⟩ := reap_fold hsound s.wakeSleepers.queue
    obtain ⟨hsame, hfinal⟩ := preempt_same hswept
    refine ⟨hwake.toFewer.trans (hfewer.trans hsame.toFewer), hfinal, ?_⟩
    intro u hguard hu
    refine hsame.stays u ?_
    rw [hother u ?_]
    · exact hwake.stays u hu
    · by_cases hmem : u ∈ s.queue
      · exact .inr fun hr => hguard (by omega) hmem (hreap u hr)
      · exact .inl (hqueue ▸ hmem)

/-- A new task takes a free slot and a pid that no task has. -/
theorem taskCreate_cases (h : TasksSound s) (hpids : s.nextPid + 1 < 2 ^ 32) (stack : Bool) (priority : Nat)
    (owner : Option Nat) : TasksSound (s.taskCreate stack priority owner).2 ∧
    ((s.taskCreate stack priority owner).1 = none ∧ SameTasks s (s.taskCreate stack priority owner).2 ∨
    ∃ t, (s.taskCreate stack priority owner).1 = some t ∧ (s.table t).state = .unused ∧
      ((s.taskCreate stack priority owner).2.table t).InUse ∧
      ((s.taskCreate stack priority owner).2.table t).createdFor = owner ∧
      ∀ i, i ≠ t → (s.taskCreate stack priority owner).2.table i = s.table i) := by
  unfold Tasks.taskCreate
  split
  next => exact ⟨h, .inl ⟨rfl, SameTasks.refl s⟩⟩
  next t ht =>
    have hfree : (s.table t).state = .unused := by simpa using List.find?_some ht
    have hother : ∀ i, i ≠ t → ∀ task, update s.table t task i = s.table i :=
      fun i hi task => update_of_ne hi task s.table
    have hin : ∀ i, (s.table i).InUse → i ≠ t := by
      intro i hi heq
      exact hi (heq ▸ hfree)
    refine ⟨⟨?_, ?_, ?_⟩, ?_⟩
    · intro i j hi hj hpid
      by_cases hit : i = t
      · by_cases hjt : j = t
        · rw [hit, hjt]
        · subst hit
          simp only [hother j hjt, update_self] at hj hpid
          exact absurd hpid.symm (Nat.ne_of_lt (h.below j hj))
      · by_cases hjt : j = t
        · subst hjt
          simp only [hother i hit, update_self] at hi hpid
          exact absurd hpid (Nat.ne_of_lt (h.below i hi))
        · simp only [hother i hit, hother j hjt] at hi hj hpid
          exact h.unique i j hi hj hpid
    · intro i hi
      have hmod : (s.nextPid + 1) % 2 ^ 32 = s.nextPid + 1 := Nat.mod_eq_of_lt hpids
      dsimp only
      by_cases hit : i = t
      · subst hit
        simp only [update_self]
        omega
      · simp only [hother i hit] at hi ⊢
        have hlt := h.below i hi
        omega
    · intro i hi
      have hcur := h.current i hi
      simp only [hother i (hin i hcur)]
      exact hcur
    · cases stack with
      | false =>
        refine .inl ⟨rfl, ⟨?_, ?_⟩, ?_⟩
        · dsimp only
          rw [Nat.mod_eq_of_lt hpids]
          omega
        · intro i hi
          by_cases hit : i = t
          · subst hit
            simp at hi
          · simp only [hother i hit] at hi ⊢
            exact ⟨hi, trivial, trivial⟩
        · intro i hi
          simp only [hother i (hin i hi)]
          exact hi
      | true =>
        refine .inr ⟨t, rfl, hfree, ?_, ?_, fun i hi => hother i hi _⟩
        · simp
        · simp

end

/-- Tasks and processes name each other: the main thread of a process was created for it,
and a task that was created for a process there is is its main thread. -/
structure Belongs (k : Kernel) : Prop where
  tasks : TasksSound k.tasks
  main : ∀ p t, (k.procs p).InUse → (k.procs p).mainThread = some t →
    (k.tasks.table t).InUse ∧ (k.tasks.table t).createdFor = some (k.procs p).life
  lives : ∀ p, (k.procs p).InUse → (k.procs p).life < k.lives
  once : ∀ p q, (k.procs p).InUse → (k.procs q).InUse → (k.procs p).life = (k.procs q).life → p = q
  owned : ∀ t x, (k.tasks.table t).InUse → (k.tasks.table t).createdFor = some x →
    x < k.lives ∧ ∀ p, (k.procs p).InUse → (k.procs p).life = x → (k.procs p).mainThread = some t

section
variable {k k' : Kernel} {env : ProcEnv}

/-- A step that creates nothing: what is in use after it was in use before, and each process
that is left has the main thread it had, or has none and its task is gone. -/
theorem belongs_frame (h : Belongs k) (htasks : TasksSound k'.tasks) (hfewer : Fewer k.tasks k'.tasks)
    (hlives : k'.lives = k.lives) (hprocs : ∀ p, (k'.procs p).InUse → (k.procs p).InUse ∧ (k'.procs p).life = (k.procs p).life ∧
      ∀ t, ((k'.procs p).mainThread = some t → (k.procs p).mainThread = some t ∧ (k'.tasks.table t).InUse) ∧
        ((k.procs p).mainThread = some t → (k'.tasks.table t).InUse → (k'.procs p).mainThread = some t)) : Belongs k' where
  tasks := htasks
  main := by
    intro p t hp ht
    obtain ⟨hin, hlife, hmain⟩ := hprocs p hp
    obtain ⟨ht, hused⟩ := (hmain t).1 ht
    refine ⟨hused, ?_⟩
    rw [(hfewer.kept t hused).2.2, hlife]
    exact (h.main p t hin ht).2
  lives := by
    intro p hp
    obtain ⟨hin, hlife, -⟩ := hprocs p hp
    rw [hlife, hlives]
    exact h.lives p hin
  once := by
    intro p q hp hq heq
    obtain ⟨hpin, hplife, -⟩ := hprocs p hp
    obtain ⟨hqin, hqlife, -⟩ := hprocs q hq
    exact h.once p q hpin hqin (hplife.symm.trans (heq.trans hqlife))
  owned := by
    intro t x ht hx
    obtain ⟨hin, -, hfor⟩ := hfewer.kept t ht
    obtain ⟨hlt, hall⟩ := h.owned t x hin (hfor ▸ hx)
    refine ⟨hlives ▸ hlt, ?_⟩
    intro p hp hlife
    obtain ⟨hpin, hplife, hmain⟩ := hprocs p hp
    exact (hmain t).2 (hall p hpin (hplife ▸ hlife)) ht

theorem belongs_tasks (h : Belongs k) (hfewer : Fewer k.tasks tasks) (htasks : TasksSound tasks)
    (hstay : ∀ p t, (k.procs p).InUse → (k.procs p).mainThread = some t → (tasks.table t).InUse) :
    Belongs { k with tasks := tasks } := by
  refine belongs_frame h htasks hfewer rfl ?_
  intro p hp
  exact ⟨hp, rfl, fun t => ⟨fun ht => ⟨ht, hstay p t hp ht⟩, fun ht _ => ht⟩⟩

theorem belongs_same (h : Belongs k) (hsame : SameTasks k.tasks tasks ∧ TasksSound tasks) :
    Belongs { k with tasks := tasks } :=
  belongs_tasks h hsame.1.toFewer hsame.2 fun p t hp ht => hsame.1.stays t (h.main p t hp ht).1

structure Relabeled (k k' : Kernel) : Prop where
  tasks : k'.tasks = k.tasks
  lives : k'.lives = k.lives
  inUse : ∀ p, (k'.procs p).InUse ↔ (k.procs p).InUse
  life : ∀ p, (k'.procs p).life = (k.procs p).life
  main : ∀ p, (k'.procs p).mainThread = (k.procs p).mainThread

theorem Relabeled.refl (k : Kernel) : Relabeled k k := ⟨rfl, rfl, fun _ => Iff.rfl, fun _ => rfl, fun _ => rfl⟩

theorem Relabeled.trans {k'' : Kernel} (h : Relabeled k k') (h' : Relabeled k' k'') : Relabeled k k'' where
  tasks := h'.tasks.trans h.tasks
  lives := h'.lives.trans h.lives
  inUse := fun p => (h'.inUse p).trans (h.inUse p)
  life := fun p => (h'.life p).trans (h.life p)
  main := fun p => (h'.main p).trans (h.main p)

theorem Relabeled.belongs (hk : Relabeled k k') (h : Belongs k) : Belongs k' := by
  refine belongs_frame h (hk.tasks ▸ h.tasks) (hk.tasks ▸ (SameTasks.refl k.tasks).toFewer) hk.lives ?_
  intro p hp
  have hin := (hk.inUse p).mp hp
  refine ⟨hin, hk.life p, ?_⟩
  intro t
  rw [hk.main, hk.tasks]
  exact ⟨fun ht => ⟨ht, (h.main p t hin ht).1⟩, fun ht _ => ht⟩

theorem update_relabeled (i : ProcSlot) (f : Proc → Proc) (hin : (f (k.procs i)).InUse ↔ (k.procs i).InUse)
    (hlife : (f (k.procs i)).life = (k.procs i).life)
    (hmain : (f (k.procs i)).mainThread = (k.procs i).mainThread) : Relabeled k (k.update i f) := by
  have hother : ∀ p, p ≠ i → (k.update i f).procs p = k.procs p := fun p hp => update_of_ne hp _ _
  have hself : (k.update i f).procs i = f (k.procs i) := update_self _ _ _
  refine ⟨rfl, rfl, ?_, ?_, ?_⟩
  · intro p
    by_cases hp : p = i
    · rw [hp, hself]
      exact hin
    · rw [hother p hp]
  · intro p
    by_cases hp : p = i
    · rw [hp, hself]
      exact hlife
    · rw [hother p hp]
  · intro p
    by_cases hp : p = i
    · rw [hp, hself]
      exact hmain
    · rw [hother p hp]

theorem link_relabeled (child : ProcSlot) (parent : Option ProcSlot) : Relabeled k (k.processLinkChild child parent) := by
  cases parent with
  | none => exact update_relabeled child (fun p => { p with parent := none, ppid := 0 }) Iff.rfl rfl rfl
  | some q =>
    exact (update_relabeled child (fun p => { p with parent := some q, ppid := (k.procs q).pid }) Iff.rfl rfl rfl).trans
      (update_relabeled q (fun p => { p with children := child :: p.children }) Iff.rfl rfl rfl)

theorem unlink_relabeled (child : ProcSlot) : Relabeled k (k.processUnlinkChild child) := by
  unfold Kernel.processUnlinkChild
  split
  next => exact Relabeled.refl k
  next q _ =>
    exact (update_relabeled q (fun p => { p with children := p.children.erase child }) Iff.rfl rfl rfl).trans
      (update_relabeled child _ Iff.rfl rfl rfl)

theorem orphan_relabeled (children : List ProcSlot) : Relabeled k (children.foldl Kernel.orphan k) := by
  induction children generalizing k with
  | nil => exact Relabeled.refl k
  | cons c children ih => exact (update_relabeled c _ Iff.rfl rfl rfl).trans ih

/-- What becomes of a process when its main thread is killed, and of everything else. -/
structure MainKilled (i : ProcSlot) (k k' : Kernel) : Prop where
  fewer : Fewer k.tasks k'.tasks
  sound : TasksSound k'.tasks
  lives : k'.lives = k.lives
  current : k'.tasks.current = k.tasks.current
  procs : ∀ p, p ≠ i → k'.procs p = k.procs p
  self : (k'.procs i).life = (k.procs i).life ∧ (k'.procs i).mainThread = none
  others : ∀ t, (k.procs i).mainThread ≠ some t → k'.tasks.table t = k.tasks.table t
  gone : ∀ t, (k.procs i).mainThread = some t → k.tasks.current ≠ some t → (k'.tasks.table t).state = .unused

theorem killMain_spec (h : Belongs k) (hi : (k.procs i).InUse) : MainKilled i k (k.killMain i) := by
  unfold Kernel.killMain
  split
  next hnone =>
    exact ⟨(SameTasks.refl _).toFewer, h.tasks, rfl, rfl, fun _ _ => rfl, ⟨rfl, hnone⟩, fun _ _ => rfl,
      fun t ht => by rw [hnone] at ht; exact nomatch ht⟩
  next t ht =>
    obtain ⟨hfewer, hsound, hcurrent, hother, hgone⟩ := taskKill_spec h.tasks (h.main i t hi ht).1
    refine ⟨hfewer, hsound, rfl, hcurrent, fun p hp => update_of_ne hp _ _, ?_, ?_, ?_⟩
    · simp [Kernel.update]
    · intro u hu
      refine hother u ?_
      rintro rfl
      exact hu ht
    · intro u hu hne
      rw [ht] at hu
      cases hu
      exact hgone hne

/-- The main threads of the other processes are other tasks. -/
theorem main_apart (h : Belongs k) {i p : ProcSlot} (hi : (k.procs i).InUse) (hp : (k.procs p).InUse) (hne : p ≠ i)
    (ht : (k.procs p).mainThread = some t) : (k.procs i).mainThread ≠ some t := by
  intro hti
  have hlives := (h.main p t hp ht).2.symm.trans (h.main i t hi hti).2
  exact hne (h.once p i hp hi (Option.some.inj hlives))

theorem mainKilled_belongs (h : Belongs k) (hi : (k.procs i).InUse) (hk : MainKilled i k k')
    (hkilled : (k'.procs i).InUse → ∀ t, (k.procs i).mainThread = some t → k.tasks.current ≠ some t) : Belongs k' := by
  refine belongs_frame h hk.sound hk.fewer hk.lives ?_
  intro p hp
  by_cases hpi : p = i
  · subst hpi
    refine ⟨hi, hk.self.1, ?_⟩
    intro t
    rw [hk.self.2]
    refine ⟨(fun ht => nomatch ht), ?_⟩
    intro ht hused
    exact absurd (hk.gone t ht (hkilled hp t ht)) hused
  · rw [hk.procs p hpi] at hp ⊢
    refine ⟨hp, rfl, ?_⟩
    intro t
    refine ⟨fun ht => ⟨ht, ?_⟩, fun ht _ => ht⟩
    rw [hk.others t (main_apart h hi hp hpi ht)]
    exact (h.main p t hp ht).1

/-- The kernel as `process_destroy` has it when it comes to the main thread. -/
theorem detach_relabeled (i : ProcSlot) : Relabeled k ((((k.procs i).children.foldl Kernel.orphan k).update i fun p =>
      { p with children := [] }).processUnlinkChild i) :=
  ((orphan_relabeled _).trans (update_relabeled i _ Iff.rfl rfl rfl)).trans (unlink_relabeled i)

theorem destroy_belongs (h : Belongs k) (i : ProcSlot) : Belongs (k.processDestroy env i) ∧
    (∀ p, p ≠ i → ((k.processDestroy env i).procs p).InUse → (k.procs p).InUse) ∧
    ∀ t, (k.tasks.table t).InUse → ((k.processDestroy env i).tasks.table t).state = .unused →
      (k.procs i).InUse ∧ (k.tasks.table t).createdFor = some (k.procs i).life := by
  unfold Kernel.processDestroy
  split
  next => exact ⟨h, fun _ _ hp => hp, fun t ht hgone => absurd hgone ht⟩
  next hi =>
    split
    next => exact ⟨h, fun _ _ hp => hp, fun t ht hgone => absurd hgone ht⟩
    next =>
      have hdetach := @detach_relabeled k i
      dsimp only
      generalize hk₁ : (((k.procs i).children.foldl Kernel.orphan k).update i fun p =>
        { p with children := [] }).processUnlinkChild i = k₁ at hdetach
      have hb := hdetach.belongs h
      have hi₁ : (k₁.procs i).InUse := (hdetach.inUse i).mpr hi
      have hkilled := killMain_spec hb hi₁
      generalize k₁.killMain i = k₂ at hkilled
      have hfreed : ((k₂.update i fun p => { p with addressSpace := false, state := .unused }).procs i).state =
          .unused := by
        simp [Kernel.update]
      have hfinal : MainKilled i k₁ (k₂.update i fun p => { p with addressSpace := false, state := .unused }) := by
        refine ⟨hkilled.fewer, hkilled.sound, hkilled.lives, hkilled.current, ?_, ?_, hkilled.others, hkilled.gone⟩
        · intro p hp
          rw [← hkilled.procs p hp]
          exact update_of_ne hp _ _
        · simp only [Kernel.update, update_self]
          exact hkilled.self
      refine ⟨mainKilled_belongs hb hi₁ hfinal fun hused => absurd hfreed hused, ?_, ?_⟩
      · intro p hp hused
        rw [hfinal.procs p hp] at hused
        exact (hdetach.inUse p).mp hused
      · intro t ht hgone
        refine ⟨hi, ?_⟩
        by_cases hmain : (k₁.procs i).mainThread = some t
        · have hfor := (hb.main i t hi₁ hmain).2
          rw [hdetach.tasks, hdetach.life] at hfor
          exact hfor
        · rw [hfinal.others t hmain, hdetach.tasks] at hgone
          exact absurd hgone ht

theorem free_slot_belongs (h : Belongs k) (i : ProcSlot) {q : Proc} (hq : q.state = .unused) : Belongs { k with procs := update k.procs i q } := by
  refine belongs_frame h h.tasks (SameTasks.refl _).toFewer rfl ?_
  intro p hp
  by_cases hpi : p = i
  · subst hpi
    simp only [update_self] at hp
    exact absurd hq hp
  · simp only [update_of_ne hpi] at hp ⊢
    exact ⟨hp, trivial, fun t => ⟨fun ht => ⟨ht, (h.main p t hp ht).1⟩, fun ht _ => ht⟩⟩

theorem more_lives_belongs (h : Belongs k) (n : Nat) : Belongs { k with nextProcPid := n, lives := k.lives + 1 } :=
  ⟨h.tasks, h.main, fun p hp => Nat.lt_succ_of_lt (h.lives p hp), h.once, fun t x ht hx =>
    ⟨Nat.lt_succ_of_lt (h.owned t x ht hx).1, (h.owned t x ht hx).2⟩⟩

theorem new_process_belongs (h : Belongs k) {p : Proc} (n : Nat)
    (htasks : TasksSound tasks) (hfree : (k.tasks.table t).state = .unused) (hused : (tasks.table t).InUse)
    (hfor : (tasks.table t).createdFor = some k.lives) (hother : ∀ u, u ≠ t → tasks.table u = k.tasks.table u)
    (hlife : p.life = k.lives) (hmain : p.mainThread = some t) :
    Belongs ⟨tasks, update k.procs i p, n, k.lives + 1⟩ := by
  have hnew : ∀ u, (k.tasks.table u).InUse → u ≠ t := by
    rintro u hu rfl
    exact hu hfree
  refine ⟨htasks, ?_, ?_, ?_, ?_⟩
  · intro q u hq hu
    by_cases hqi : q = i
    · subst hqi
      simp only [update_self, hmain, Option.some.injEq] at hu ⊢
      subst hu
      exact ⟨hused, hlife ▸ hfor⟩
    · simp only [update_of_ne hqi] at hq hu ⊢
      obtain ⟨hin, howner⟩ := h.main q u hq hu
      rw [hother u (hnew u hin)]
      exact ⟨hin, howner⟩
  · intro q hq
    by_cases hqi : q = i
    · subst hqi
      simp only [update_self, hlife]
      omega
    · simp only [update_of_ne hqi] at hq ⊢
      exact Nat.lt_succ_of_lt (h.lives q hq)
  · intro q r hq hr heq
    by_cases hqi : q = i
    · by_cases hri : r = i
      · rw [hqi, hri]
      · subst hqi
        simp only [update_self, update_of_ne hri, hlife] at hr heq
        exact absurd heq.symm (Nat.ne_of_lt (h.lives r hr))
    · by_cases hri : r = i
      · subst hri
        simp only [update_self, update_of_ne hqi, hlife] at hq heq
        exact absurd heq (Nat.ne_of_lt (h.lives q hq))
      · simp only [update_of_ne hqi, update_of_ne hri] at hq hr heq
        exact h.once q r hq hr heq
  · intro u x hu hx
    by_cases hut : u = t
    · subst hut
      dsimp only at hx
      rw [hfor] at hx
      cases hx
      refine ⟨Nat.lt_succ_self _, ?_⟩
      intro q hq heq
      by_cases hqi : q = i
      · subst hqi
        simp only [update_self, hmain]
      · simp only [update_of_ne hqi] at hq heq
        exact absurd heq (Nat.ne_of_lt (h.lives q hq))
    · dsimp only at hu hx
      rw [hother u hut] at hu hx
      obtain ⟨hlt, hall⟩ := h.owned u x hu hx
      refine ⟨Nat.lt_succ_of_lt hlt, ?_⟩
      intro q hq heq
      by_cases hqi : q = i
      · subst hqi
        simp only [update_self, hlife] at heq
        omega
      · simp only [update_of_ne hqi] at hq heq ⊢
        exact hall q hq heq

theorem create_belongs (h : Belongs k) (hpids : k.tasks.nextPid + 1 < 2 ^ 32) (parent : Option ProcSlot) :
    Belongs (k.processCreateWithParent env parent).2 := by
  unfold Kernel.processCreateWithParent
  split
  next => exact h
  next i _ =>
    have hlives := more_lives_belongs h ((k.nextProcPid + 1) % 2 ^ 32)
    dsimp only
    split
    next =>
      obtain ⟨hsound, hcases⟩ := taskCreate_cases h.tasks hpids env.stack taskPriorityNormal (some k.lives)
      split
      next tasks heq =>
        rw [heq] at hsound hcases
        rcases hcases with ⟨-, hsame⟩ | ⟨t, ht, -⟩
        · exact free_slot_belongs (belongs_same hlives ⟨hsame, hsound⟩) i rfl
        · exact nomatch ht
      next t tasks heq =>
        rw [heq] at hsound hcases
        rcases hcases with ⟨hnone, -⟩ | ⟨u, hu, hfree, hused, hfor, hother⟩
        · exact nomatch hnone
        · cases hu
          refine (link_relabeled i parent).belongs ?_
          exact new_process_belongs h _ hsound hfree hused hfor hother rfl rfl
    next => exact free_slot_belongs hlives i rfl

theorem fork_belongs (h : Belongs k) (hpids : k.tasks.nextPid + 1 < 2 ^ 32) (parent : ProcSlot) :
    Belongs (k.processFork env parent).2 := by
  have hcreate := @create_belongs k env h hpids k.processCurrent
  unfold Kernel.processFork
  split
  next k₁ heq =>
    rw [Kernel.processCreate] at heq
    rw [heq] at hcreate
    exact hcreate
  next child k₁ heq =>
    rw [Kernel.processCreate] at heq
    rw [heq] at hcreate
    have hlinked := ((unlink_relabeled child).trans (link_relabeled child (some parent))).belongs hcreate
    dsimp only
    split
    next =>
      split
      next => exact (update_relabeled child (fun p => { p with addressSpace := true }) Iff.rfl rfl rfl).belongs hlinked
      next => exact (destroy_belongs hlinked child).1
    next => exact hlinked

theorem current_process (h : k.processCurrent = some i) :
    ∃ t, k.tasks.current = some t ∧ (k.procs i).InUse ∧ (k.procs i).mainThread = some t := by
  unfold Kernel.processCurrent at h
  split at h
  next => exact nomatch h
  next t ht =>
    have hi := List.find?_some h
    simp only [ne_eq, decide_eq_true_eq] at hi
    exact ⟨t, ht, hi.1, hi.2⟩

theorem exit_belongs (h : Belongs k) (code : Int) : Belongs (k.processExit code) := by
  unfold Kernel.processExit
  split
  next => exact h
  next i hi =>
    obtain ⟨-, -, hin, -⟩ := current_process hi
    have hzombie : Relabeled k (k.update i fun p => { p with exitCode := code, state := .zombie }) :=
      update_relabeled i _ (iff_of_true (by simp) hin) rfl rfl
    exact belongs_same (hzombie.belongs h) (exit_same (hzombie.belongs h).tasks code)

theorem kill_belongs (h : Belongs k) (pid : Nat) (signal : Int) : Belongs (k.processKill env pid signal).2 := by
  unfold Kernel.processKill
  split
  next => exact h
  next i hi =>
    have hin : (k.procs i).InUse := by
      have hi := List.find?_some hi
      simp only [ne_eq, decide_eq_true_eq] at hi
      exact hi.1
    split
    next => exact h
    next hnot =>
      have hzombie : Relabeled k (k.update i fun p => { p with exitCode := 128 + signal % 128, state := .zombie }) :=
        update_relabeled i _ (iff_of_true (by simp) hin) rfl rfl
      have hb := hzombie.belongs h
      have hin' := (hzombie.inUse i).mpr hin
      have hkilled := mainKilled_belongs hb hin' (killMain_spec hb hin') (by
        intro _ t ht hcurrent
        rw [hzombie.main] at ht
        rw [hzombie.tasks] at hcurrent
        exact hnot (.inr ⟨by simp [ht], ht.trans hcurrent.symm⟩))
      dsimp only
      split
      next => exact (destroy_belongs hkilled i).1
      next => exact hkilled

theorem reapOrphans_belongs (h : Belongs k) : Belongs (k.processReapOrphans env) := by
  unfold Kernel.processReapOrphans
  generalize List.finRange 128 = slots
  induction slots generalizing k with
  | nil => exact h
  | cons i slots ih =>
    rw [List.foldl_cons]
    refine ih ?_
    split
    · exact (destroy_belongs h i).1
    · exact h

theorem enterUserMode_belongs (h : Belongs k) (hi : (k.procs i).InUse) : Belongs (k.processEnterUserMode i) := by
  unfold Kernel.processEnterUserMode
  split
  next => exact h
  next t ht =>
    have hin := (h.main i t hi ht).1
    have hsame := @update_same k.tasks t (fun task => { task with state := .running }) hin (by simp) rfl rfl
    refine belongs_same h ⟨⟨⟨hsame.nextPid, hsame.kept⟩, hsame.stays⟩, fewer_sound h.tasks ⟨hsame.nextPid, hsame.kept⟩ ?_⟩
    intro u hu
    cases hu
    exact hsame.stays t hin

end

/-- The calls after which tasks and processes still belong together: no tick finds a zombie in
the queue that is the main thread of a process that was not reaped yet, and pids are left. -/
def KernelOpOk (k : Kernel) : KernelOp → Prop
  | .tick => k.tasks.preemptDisable = 0 → ∀ t ∈ k.tasks.queue, k.tasks.Reapable t →
    ∀ p, (k.procs p).InUse → (k.procs p).mainThread ≠ some t
  | .create _ => k.tasks.nextPid + 1 < 2 ^ 32
  | .createRoot _ => k.tasks.nextPid + 1 < 2 ^ 32
  | .fork _ _ => k.tasks.nextPid + 1 < 2 ^ 32
  | .taskCreate _ _ => k.tasks.nextPid + 1 < 2 ^ 32
  | _ => True

section
variable {k : Kernel} {policy : SchedulerPolicy} {ops : List KernelOp}

theorem tick_belongs (h : Belongs k) (hok : KernelOpOk k .tick) : Belongs { k with tasks := k.tasks.schedulerTick } := by
  obtain ⟨hfewer, hsound, hstay⟩ := tick_spec h.tasks
  refine belongs_tasks h hfewer hsound ?_
  intro p t hp ht
  exact hstay t (fun hheld hmem hreap => hok hheld t hmem hreap p hp ht) (h.main p t hp ht).1

theorem taskCreate_belongs (h : Belongs k) (hpids : k.tasks.nextPid + 1 < 2 ^ 32) (stack : Bool) (priority : Nat) :
    Belongs { k with tasks := (k.tasks.taskCreate stack priority none).2 } := by
  obtain ⟨hsound, ⟨-, hsame⟩ | ⟨t, -, hfree, hused, hfor, hother⟩⟩ :=
    taskCreate_cases h.tasks hpids stack priority none
  · exact belongs_same h ⟨hsame, hsound⟩
  · have hnew : ∀ u, (k.tasks.table u).InUse → u ≠ t := by
      rintro u hu rfl
      exact hu hfree
    refine ⟨hsound, ?_, h.lives, h.once, ?_⟩
    · intro p u hp hu
      dsimp only
      rw [hother u (hnew u (h.main p u hp hu).1)]
      exact h.main p u hp hu
    · intro u x hu hx
      dsimp only at hu hx
      by_cases hut : u = t
      · rw [hut, hfor] at hx
        exact nomatch hx
      · rw [hother u hut] at hu hx
        exact h.owned u x hu hx

theorem kernel_step_belongs (h : Belongs k) {op : KernelOp} (hcall : Called k op) (hok : KernelOpOk k op) :
    Belongs (kernelStep k op) := by
  cases op with
  | create env => exact create_belongs h hok _
  | createRoot env => exact create_belongs h hok _
  | fork env parent => exact fork_belongs h hok parent
  | exit code => exact exit_belongs h code
  | kill env pid signal => exact kill_belongs h pid signal
  | wait env child => exact (destroy_belongs h child).1
  | reapOrphans env => exact reapOrphans_belongs h
  | tick => exact tick_belongs h hok
  | taskCreate stack priority => exact taskCreate_belongs h hok stack priority
  | taskExit code => exact belongs_same h (exit_same h.tasks code)
  | yield => exact belongs_same h (yield_same h.tasks)
  | sleep ticks => exact belongs_same h (sleep_same h.tasks ticks)
  | enterUserMode p => exact enterUserMode_belongs h hcall
  | schedulerAdd t => exact { h with tasks := { h.tasks with } }
  | setRunning running => exact { h with tasks := { h.tasks with } }
  | setPolicy policy => exact { h with tasks := { h.tasks with } }
  | preemptDisable => exact { h with tasks := { h.tasks with } }
  | preemptEnable => exact { h with tasks := { h.tasks with } }

theorem boot_belongs : Belongs (.boot policy) where
  tasks := ⟨fun _ _ hi => absurd rfl hi, fun _ hi => absurd rfl hi, fun _ ht => nomatch ht⟩
  main := fun _ _ hp => absurd rfl hp
  lives := fun _ hp => absurd rfl hp
  once := fun _ _ hp => absurd rfl hp
  owned := fun _ _ ht => absurd rfl ht

theorem kernel_run_belongs (run : KernelRun KernelOpOk policy ops k) : Belongs k := by
  induction run with
  | boot => exact boot_belongs
  | step run hcall hok ih => exact kernel_step_belongs ih hcall hok

def OneProcess (k : Kernel) : Prop :=
  (∀ t p q, (k.procs p).InUse → (k.procs q).InUse → (k.procs p).mainThread = some t →
    (k.procs q).mainThread = some t → p = q) ∧
  ∀ p t, (k.procs p).InUse → (k.procs p).mainThread = some t →
    (k.tasks.table t).InUse ∧ (k.tasks.table t).createdFor = some (k.procs p).life

def CurrentRight (k : Kernel) : Prop :=
  ∀ p, k.processCurrent = some p ↔ (k.procs p).InUse ∧ ∃ t, k.tasks.current = some t ∧
    (k.tasks.table t).createdFor = some (k.procs p).life

def DestroysOwn (k : Kernel) : Prop :=
  ∀ env p t, (k.tasks.table t).InUse → ((k.processDestroy env p).tasks.table t).state = .unused →
    (k.procs p).InUse ∧ (k.tasks.table t).createdFor = some (k.procs p).life

theorem current_right (h : Belongs k) : CurrentRight k := by
  intro p
  constructor
  · intro hp
    obtain ⟨t, hcurrent, hin, hmain⟩ := current_process hp
    exact ⟨hin, t, hcurrent, (h.main p t hin hmain).2⟩
  · rintro ⟨hin, t, hcurrent, hfor⟩
    have hmain := (h.owned t _ (h.tasks.current t hcurrent) hfor).2 p hin rfl
    cases hfind : k.processCurrent with
    | none =>
      unfold Kernel.processCurrent at hfind
      rw [hcurrent] at hfind
      have hnone := List.find?_eq_none.mp hfind p (List.mem_finRange p)
      simp [hmain, hin] at hnone
    | some q =>
      obtain ⟨u, hu, hqin, hqmain⟩ := current_process hfind
      rw [hcurrent] at hu
      cases hu
      have hlives := (h.main q t hqin hqmain).2.symm.trans hfor
      rw [h.once q p hqin hin (Option.some.inj hlives)]

/-- Over every run in which no tick reaps the main thread of a process that is still there,
each task belongs to one process. -/
theorem tasks_belong (run : KernelRun KernelOpOk policy ops k) : OneProcess k ∧ CurrentRight k ∧ DestroysOwn k := by
  have h := kernel_run_belongs run
  refine ⟨⟨?_, h.main⟩, current_right h, fun env p => (@destroy_belongs k env h p).2.2⟩
  intro t p q hp hq hpt hqt
  by_contra hne
  exact main_apart h hq hp hne hpt hqt

end

/-- Memory enough, and no address space of a process loaded. -/
def plentyEnv : ProcEnv := ⟨true, true, true, fun _ => false⟩

def exitOps : List KernelOp :=
  [.createRoot plentyEnv, .schedulerAdd 0, .taskCreate true 2, .schedulerAdd 1, .setRunning true, .yield, .exit 0]

def exited : Kernel := exitOps.foldl kernelStep (.boot .roundRobin)

theorem exited_run {ok : Kernel → KernelOp → Prop} (hok : ∀ k op, KernelOpOk k op → ok k op) :
    KernelRun ok .roundRobin exitOps exited := by
  have hcreate : KernelOpOk (.boot .roundRobin) (.createRoot plentyEnv) := by
    change 1 + 1 < 2 ^ 32
    decide
  have h₁ := @KernelRun.step ok .roundRobin _ (.createRoot plentyEnv) _ .boot trivial (hok _ _ hcreate)
  have h₂ := @KernelRun.step ok .roundRobin _ (.schedulerAdd 0) _ h₁ ⟨by decide, by decide⟩ (hok _ _ trivial)
  have hworker : KernelOpOk (kernelStep (kernelStep (.boot .roundRobin) (.createRoot plentyEnv)) (.schedulerAdd 0))
      (.taskCreate true 2) := by
    change 2 + 1 < 2 ^ 32
    decide
  have h₃ := @KernelRun.step ok .roundRobin _ (.taskCreate true 2) _ h₂ trivial (hok _ _ hworker)
  have h₄ := @KernelRun.step ok .roundRobin _ (.schedulerAdd 1) _ h₃ ⟨by decide, by decide⟩ (hok _ _ trivial)
  have h₅ := @KernelRun.step ok .roundRobin _ (.setRunning true) _ h₄ trivial (hok _ _ trivial)
  have h₆ := @KernelRun.step ok .roundRobin _ .yield _ h₅ trivial (hok _ _ trivial)
  exact @KernelRun.step ok .roundRobin _ (.exit 0) _ h₆ trivial (hok _ _ trivial)

theorem tasks_belong_reaped :
    ∃ k, KernelRun KernelOpOk .roundRobin (exitOps ++ [.reapOrphans plentyEnv] ++ [.tick]) k ∧ OneProcess k := by
  have hreaped := @KernelRun.step KernelOpOk .roundRobin _ (.reapOrphans plentyEnv) _
    (exited_run fun _ _ hok => hok) trivial trivial
  have hfree : ∀ p, ((kernelStep exited (.reapOrphans plentyEnv)).procs p).state = .unused := by decide +kernel
  have hok : KernelOpOk (kernelStep exited (.reapOrphans plentyEnv)) .tick := by
    intro _ t _ _ p hp
    exact absurd (hfree p) hp
  have hrun := @KernelRun.step KernelOpOk .roundRobin _ .tick _ hreaped trivial hok
  exact ⟨_, hrun, (tasks_belong hrun).1⟩

/-- The tick comes first, and a worker is created in the slot of the task it reaped. -/
theorem worker_in_reaped_slot : ∃ k, KernelRun (fun _ _ => True) .roundRobin
    (exitOps ++ [.tick] ++ [.taskCreate true 2]) k ∧ ¬ OneProcess k ∧ ¬ DestroysOwn k := by
  have htick := @KernelRun.step (fun _ _ => True) .roundRobin _ .tick _ (exited_run fun _ _ _ => trivial) trivial trivial
  have hrun := @KernelRun.step (fun _ _ => True) .roundRobin _ (.taskCreate true 2) _ htick trivial trivial
  refine ⟨_, hrun, ?_, ?_⟩
  · intro h
    have hmain := (h.2 0 0 (by decide) (by decide)).2
    revert hmain
    decide
  · intro h
    have hown := (h plentyEnv 0 0 (by decide) (by decide)).2
    revert hown
    decide

end CapyOS.Proofs
