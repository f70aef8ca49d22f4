import CapyOS.Services.ServiceManager

namespace CapyOS.Proofs
open ServiceManager Function List

section
variable {m m' : ServiceManager} {id i : ServiceId} {now : BitVec 64} {upd : Bool} {b b' : ServicePollBinding}

@[simp] theorem setService_polls (svc : SystemServiceStatus) : (m.setService id svc).polls = m.polls := rfl
@[simp] theorem setService_log (svc : SystemServiceStatus) : (m.setService id svc).log = m.log := rfl
@[simp] theorem setState_polls (st : ServiceState) (rc : Int) (text : Option String) :
    (m.setState id st rc text).polls = m.polls := rfl
@[simp] theorem setState_log (st : ServiceState) (rc : Int) (text : Option String) :
    (m.setState id st rc text).log = m.log := rfl
@[simp] theorem setBackoff_polls (ticks : BitVec 32) : (m.setBackoff id ticks).polls = m.polls := rfl
@[simp] theorem setBackoff_log (ticks : BitVec 32) : (m.setBackoff id ticks).log = m.log := rfl
@[simp] theorem setBinding_polls : (m.setBinding id b).polls = update m.polls id b := rfl
@[simp] theorem setBinding_log : (m.setBinding id b).log = m.log := rfl
@[simp] theorem note_polls (e : ServiceEvent) : (m.note e).polls = m.polls := rfl
@[simp] theorem note_log (e : ServiceEvent) : (m.note e).log = m.log ++ [e] := rfl

def dueAt (b : ServicePollBinding) (upd : Bool) (tick : BitVec 64) : ServicePollBinding :=
  if upd then { b with nextDueTick := tick } else b

@[simp] theorem setDue_polls (tick : BitVec 64) :
    (m.setDue id upd tick).polls = update m.polls id (dueAt (m.polls id) upd tick) := by
  unfold setDue dueAt
  split
  · rfl
  · simp

@[simp] theorem setDue_log (tick : BitVec 64) : (m.setDue id upd tick).log = m.log := by
  unfold setDue
  split <;> rfl

theorem runCallback_kept (c : Callback) : (m.runCallback c).polls = m.polls ∧ (m.runCallback c).log = m.log := by
  unfold runCallback
  induction c.calls generalizing m with
  | nil => exact ⟨rfl, rfl⟩
  | cons call calls ih => exact @ih (m.setState call.id call.state call.lastResult call.summary)

@[simp] theorem runCallback_polls (c : Callback) : (m.runCallback c).polls = m.polls := (runCallback_kept c).1
@[simp] theorem runCallback_log (c : Callback) : (m.runCallback c).log = m.log := (runCallback_kept c).2

/-- All that one turn of a service can do to its binding and the log. -/
inductive Turn (id : ServiceId) (now : BitVec 64) (upd : Bool) (b : ServicePollBinding) :
    ServicePollBinding → List ServiceEvent → Prop where
  | idle : Turn id now upd b b []
  | waits : Turn id now upd b (dueAt b upd (now + b.interval.setWidth 64)) []
  | startFails (hp : b.restartPending = true) (ticks : BitVec 32) : Turn id now upd b (dueAt b upd (now + ticks.setWidth 64)) []
  | restarts (hp : b.restartPending = true) :
      Turn id now upd b
        (dueAt { b with restartPending := false, consecutiveFailures := 0, restartAttempts := 0 } upd (now + b.interval.setWidth 64))
        [.restarted id]
  | succeeds (hp : b.restartPending = false) (rc : Int) (hrc : 0 ≤ rc) :
      Turn id now upd b (dueAt { b with consecutiveFailures := 0, restartAttempts := 0 } upd (now + b.interval.setWidth 64))
        [.polled id (if upd then some now else none) (b.consecutiveFailures.toNat + 1) rc]
  | stopFails (hp : b.restartPending = false) (rc stopRc : Int) (hrc : rc < 0) (hstop : stopRc < 0) :
      Turn id now upd b { b with consecutiveFailures := b.consecutiveFailures + 1 }
        [.polled id (if upd then some now else none) (b.consecutiveFailures.toNat + 1) rc, .stopped id stopRc]
  | schedules (hp : b.restartPending = false) (rc stopRc : Int) (hrc : rc < 0) (hstop : 0 ≤ stopRc) :
      Turn id now upd b
        (dueAt { b with consecutiveFailures := b.consecutiveFailures + 1, restartAttempts := b.restartAttempts + 1, restartPending := true }
          upd (now + (serviceBackoffTicks b.interval b.consecutiveFailures).setWidth 64))
        [.polled id (if upd then some now else none) (b.consecutiveFailures.toNat + 1) rc, .stopped id stopRc]
  | degrades (hp : b.restartPending = false) (rc : Int) (hrc : rc < 0) :
      Turn id now upd b
        (dueAt { b with consecutiveFailures := b.consecutiveFailures + 1 } upd
          (now + (serviceBackoffTicks b.interval b.consecutiveFailures).setWidth 64))
        [.polled id (if upd then some now else none) (b.consecutiveFailures.toNat + 1) rc]

def Made (id : ServiceId) (now : BitVec 64) (upd : Bool) (m m' : ServiceManager) : Prop :=
  ∃ b ev, Turn id now upd (m.polls id) b ev ∧ m'.polls = update m.polls id b ∧ m'.log = m.log ++ ev

theorem made_same (hp : m'.polls = m.polls) (hl : m'.log = m.log) : Made id now upd m m' :=
  ⟨m.polls id, [], .idle, by rw [hp, update_eq_self], by rw [hl, append_nil]⟩

theorem wait_made (h : m.maybeWaitDependencies id now upd = some m') : Made id now upd m m' := by
  unfold maybeWaitDependencies at h
  simp only at h
  split at h
  · cases h
  · cases h
    exact ⟨_, [], .waits, by simp, by simp⟩

theorem applied_made (hp : (m.polls id).restartPending = true) (a : Callback)
    (h : m' = ((m.setBinding id { m.polls id with restartPending := false }).runCallback a).restartApplied id now upd) :
    Made id now upd m m' := by
  subst h
  refine ⟨_, [.restarted id], .restarts hp, ?_, ?_⟩
  · unfold restartApplied
    simp [ServicePollBinding.interval]
  · unfold restartApplied
    simp

theorem restart_made {a : ServiceCallbacks} (h : m.runPendingRestart id now upd a = some m') : Made id now upd m m' := by
  unfold runPendingRestart at h
  split at h
  · cases h
  rename_i hp
  have hp : (m.polls id).restartPending = true := by simpa using hp
  split at h
  · rename_i m₁ hw
    cases h
    exact wait_made hw
  simp only at h
  split at h
  · split at h
    · cases h
      refine ⟨_, [], .startFails hp (serviceBackoffTicks (m.polls id).interval (m.polls id).restartAttempts), ?_, ?_⟩
      · have hb : { m.polls id with restartPending := true } = m.polls id := by rw [← hp]
        unfold restartFailed
        simp [ServicePollBinding.interval, hb]
      · unfold restartFailed
        simp
    · cases h
      exact applied_made hp a.start rfl
  · cases h
    exact applied_made hp ⟨0, []⟩ rfl

theorem pollDegraded_kept (a : ServiceCallbacks) :
    (m.pollDegraded id now upd a).polls = update m.polls id (dueAt (m.polls id) upd
      (now + (serviceBackoffTicks (m.polls id).interval ((m.polls id).consecutiveFailures - 1)).setWidth 64)) ∧
    (m.pollDegraded id now upd a).log = m.log := by
  unfold pollDegraded
  simp only
  split <;> exact ⟨by simp, by simp⟩

theorem failures_before (n : BitVec 32) : n + 1 - 1 = n := BitVec.add_sub_cancel n 1

def Failed (id : ServiceId) (now : BitVec 64) (upd : Bool) (rc : Int) (m m₁ : ServiceManager) : Prop :=
  m₁.polls = update m.polls id { m.polls id with consecutiveFailures := (m.polls id).consecutiveFailures + 1 } ∧
  m₁.log = m.log ++ [.polled id (if upd then some now else none) ((m.polls id).consecutiveFailures.toNat + 1) rc]

theorem schedule_made {m₁ : ServiceManager} {a : ServiceCallbacks} (h : Failed id now upd a.poll.rc m m₁)
    (hp : (m.polls id).restartPending = false) (hrc : a.poll.rc < 0) : Made id now upd m (m₁.scheduleRestart id now upd a) := by
  obtain ⟨hpolls, hlog⟩ := h
  unfold scheduleRestart
  simp only
  split
  · rename_i hstop
    exact ⟨_, _, .stopFails hp a.poll.rc a.stop.rc hrc hstop, by simp [hpolls], by simp [hlog]⟩
  · rename_i hstop
    refine ⟨_, _, .schedules hp a.poll.rc a.stop.rc hrc (Int.not_lt.mp hstop), ?_, by simp [hlog]⟩
    simp only [setState_polls, setDue_polls, setBackoff_polls, setBinding_polls, note_polls, runCallback_polls, hpolls,
      update_self, update_idem, failures_before]
    rfl

theorem degrade_made {m₁ : ServiceManager} {a : ServiceCallbacks} (h : Failed id now upd a.poll.rc m m₁)
    (hp : (m.polls id).restartPending = false) (hrc : a.poll.rc < 0) : Made id now upd m (m₁.pollDegraded id now upd a) := by
  obtain ⟨hpolls, hlog⟩ := h
  obtain ⟨hpolls', hlog'⟩ := @pollDegraded_kept m₁ id now upd a
  refine ⟨_, _, .degrades hp a.poll.rc hrc, ?_, by rw [hlog', hlog]⟩
  rw [hpolls', hpolls, update_self, update_idem, failures_before]
  rfl

theorem poll_made {a : ServiceCallbacks} (hp : (m.polls id).restartPending = false) :
    Made id now upd m (m.pollService id now upd a) := by
  unfold pollService
  simp only
  split
  · rename_i hrc
    split
    · exact schedule_made ⟨by simp, by simp⟩ hp hrc
    · exact degrade_made ⟨by simp, by simp⟩ hp hrc
  · rename_i hrc
    exact ⟨_, _, .succeeds hp a.poll.rc (Int.not_lt.mp hrc), by simp [ServicePollBinding.interval], by simp⟩

theorem executePoll_made (a : ServiceCallbacks) : Made id now upd m (m.executePoll id now upd a).2 := by
  unfold executePoll
  split
  · exact made_same rfl rfl
  split
  · rename_i m₁ hr
    exact restart_made hr
  rename_i hr
  split
  · rename_i m₁ hw
    exact wait_made hw
  · rename_i hw
    refine poll_made ?_
    by_contra hp
    unfold runPendingRestart at hr
    rw [hw] at hr
    simp only at hr
    split at hr
    · rename_i hn
      exact hp (by simpa using hn)
    · split at hr
      · split at hr <;> cases hr
      · cases hr

theorem dueTurn_made (a : ServiceId → ServiceCallbacks) (polled : Nat) : Made id now true m (m.dueTurn now a polled id).2 ∧
      ((m.dueTurn now a polled id).2 = m ∨ (m.polls id).nextDueTick ≤ now) := by
  unfold dueTurn
  split
  · exact ⟨made_same rfl rfl, .inl rfl⟩
  split
  · exact ⟨made_same rfl rfl, .inl rfl⟩
  · rename_i hdue
    have hm : Made id now true m (m.executePoll id now true (a id)).2 := executePoll_made (a id)
    obtain ⟨b, ev, ht, hp, hl⟩ := hm
    exact ⟨⟨b, ev, ht, hp, hl⟩, .inr (BitVec.not_lt.mp hdue)⟩

/-- The automatic restarts of a service since its last poll that succeeded, one event on. -/
def sinceStep (i : ServiceId) (n : Nat) : ServiceEvent → Nat
  | .polled id _ _ rc => if id = i ∧ 0 ≤ rc then 0 else n
  | .stopped _ _ => n
  | .restarted id => if id = i then n + 1 else n

def since (i : ServiceId) (log : List ServiceEvent) : Nat := log.foldl (sinceStep i) 0

/-- `k` is the code's `consecutive_failures`, which an applied restart sets back. -/
def Spaced (i : ServiceId) (interval : BitVec 32) (e e' : ServiceEvent) : Prop :=
  ∀ t k rc t' k' rc', e = .polled i (some t) k rc → rc < 0 → e' = .polled i (some t') k' rc' →
    t.toNat + interval.toNat * 2 ^ min (k - 1) 5 ≤ t'.toNat

/-- What the callbacks of a service must keep to, of all that is logged. -/
structure SteadyService (i : ServiceId) (limit interval : BitVec 32) (log : List ServiceEvent) : Prop where
  /-- No poll fails once the service was restarted as often as its limit says. -/
  spare : ∀ pre post tick k rc, log = pre ++ .polled i tick k rc :: post → rc < 0 → since i pre < limit.toNat
  /-- No stop callback fails. -/
  stops : ∀ rc, .stopped i rc ∈ log → 0 ≤ rc
  /-- The backoff of a failed poll fits in its 32 bits. -/
  fits : ∀ t k rc, .polled i (some t) k rc ∈ log → rc < 0 → interval.toNat * 2 ^ min (k - 1) 5 < 2 ^ 32

structure ServiceKept (i : ServiceId) (limit interval : BitVec 32) (log : List ServiceEvent) (b : ServicePollBinding) : Prop where
  limited : b.restartLimit = limit
  paced : b.intervalTicks = interval
  few : ∀ pre post, log = pre ++ post → since i pre ≤ limit.toNat
  left : since i log + b.restartPending.toNat ≤ limit.toNat
  waits : ∀ t k rc, .polled i (some t) k rc ∈ log → rc < 0 →
    t.toNat + interval.toNat * 2 ^ min (k - 1) 5 ≤ b.nextDueTick.toNat
  spaced : log.Pairwise (Spaced i interval)

def eventOwner : ServiceEvent → ServiceId
  | .polled id _ _ _ => id
  | .stopped id _ => id
  | .restarted id => id

variable {limit interval : BitVec 32} {log ev : List ServiceEvent} {e : ServiceEvent}

theorem since_concat : since i (log ++ [e]) = sinceStep i (since i log) e := by
  unfold since
  rw [foldl_append]
  rfl

theorem ServiceKept.add (h : ServiceKept i limit interval log b) (hlimit : b'.restartLimit = b.restartLimit)
    (hinterval : b'.intervalTicks = b.intervalTicks) (hdue : b.nextDueTick.toNat ≤ b'.nextDueTick.toNat)
    (hleft : sinceStep i (since i log) e + b'.restartPending.toNat ≤ limit.toNat)
    (hnew : ∀ t k rc, e = .polled i (some t) k rc → b.nextDueTick.toNat ≤ t.toNat ∧
      (rc < 0 → t.toNat + interval.toNat * 2 ^ min (k - 1) 5 ≤ b'.nextDueTick.toNat)) :
    ServiceKept i limit interval (log ++ [e]) b' := by
  refine ⟨hlimit.trans h.limited, hinterval.trans h.paced, fun pre post hsplit => ?_, by rw [since_concat]; exact hleft,
    fun t k rc hmem hrc => ?_, ?_⟩
  · rcases List.append_eq_append_iff.mp hsplit with ⟨l, rfl, hl⟩ | ⟨l, hl, -⟩
    · rcases List.cons_eq_append_iff.mp hl with ⟨rfl, -⟩ | ⟨l', rfl, hl'⟩
      · rw [append_nil]
        exact h.few log [] (append_nil log).symm
      · obtain ⟨rfl, -⟩ := List.append_eq_nil_iff.mp hl'.symm
        rw [since_concat]
        exact Nat.le_trans (Nat.le_add_right _ _) hleft
    · exact h.few pre l hl
  · rcases List.mem_append.mp hmem with hmem | hmem
    · exact Nat.le_trans (h.waits t k rc hmem hrc) hdue
    · exact (hnew t k rc (List.mem_singleton.mp hmem).symm).2 hrc
  · rw [pairwise_append]
    refine ⟨h.spaced, pairwise_singleton _ _, fun x hx y hy => ?_⟩
    rw [List.mem_singleton.mp hy]
    rintro t k rc t' k' rc' rfl hrc he
    exact Nat.le_trans (h.waits t k rc hx hrc) (hnew t' k' rc' he).1

theorem ServiceKept.later (h : ServiceKept i limit interval log b) (hlimit : b'.restartLimit = b.restartLimit)
    (hinterval : b'.intervalTicks = b.intervalTicks) (hpending : b'.restartPending = b.restartPending)
    (hdue : b.nextDueTick.toNat ≤ b'.nextDueTick.toNat) : ServiceKept i limit interval log b' :=
  ⟨hlimit.trans h.limited, hinterval.trans h.paced, h.few, hpending ▸ h.left,
    fun t k rc hmem hrc => Nat.le_trans (h.waits t k rc hmem hrc) hdue, h.spaced⟩

theorem ServiceKept.foreign (h : ServiceKept i limit interval log b) (hev : ∀ e ∈ ev, eventOwner e ≠ i) :
    ServiceKept i limit interval (log ++ ev) b := by
  induction ev generalizing log with
  | nil => rwa [append_nil]
  | cons e ev ih =>
    have he := hev e mem_cons_self
    have hsame : sinceStep i (since i log) e = since i log := by
      cases e with
      | polled id tick k rc => exact if_neg fun hx => he hx.1
      | stopped id rc => rfl
      | restarted id => exact if_neg he
    have hone : ServiceKept i limit interval (log ++ [e]) b := by
      refine h.add rfl rfl (Nat.le_refl _) (by rw [hsame]; exact h.left) ?_
      rintro t k rc rfl
      exact absurd rfl he
    have hrest := ih hone fun x hx => hev x (mem_cons_of_mem e hx)
    rwa [append_assoc, singleton_append] at hrest

theorem ServiceKept.stop (h : ServiceKept i limit interval log b) (rc : Int) : ServiceKept i limit interval (log ++ [.stopped i rc]) b :=
  h.add rfl rfl (Nat.le_refl _) h.left nofun

theorem turn_of (h : Turn id now upd b b' ev) : ∀ e ∈ ev, eventOwner e = id := by
  cases h with
  | idle => exact nofun
  | waits => exact nofun
  | startFails => exact nofun
  | restarts => exact fun e he => List.mem_singleton.mp he ▸ rfl
  | succeeds => exact fun e he => List.mem_singleton.mp he ▸ rfl
  | degrades => exact fun e he => List.mem_singleton.mp he ▸ rfl
  | stopFails | schedules =>
    intro e he
    rcases List.mem_cons.mp he with rfl | he
    · rfl
    · exact List.mem_singleton.mp he ▸ rfl

def OnTime (now : BitVec 64) (upd : Bool) (b : ServicePollBinding) : Prop :=
  upd = true → b.nextDueTick ≤ now ∧ now.toNat + 2 ^ 32 ≤ 2 ^ 64

theorem add_ticks (hnow : now.toNat + 2 ^ 32 ≤ 2 ^ 64) (ticks : BitVec 32) :
    (now + ticks.setWidth 64).toNat = now.toNat + ticks.toNat := by
  have hlt := ticks.isLt
  rw [BitVec.toNat_add, BitVec.toNat_setWidth, Nat.mod_eq_of_lt (show ticks.toNat < 2 ^ 64 by omega)]
  exact Nat.mod_eq_of_lt (by omega)

theorem due_later (h : OnTime now upd b) (hb : b'.nextDueTick = b.nextDueTick) (ticks : BitVec 32) :
    b.nextDueTick.toNat ≤ (dueAt b' upd (now + ticks.setWidth 64)).nextDueTick.toNat := by
  unfold dueAt
  split
  · rename_i hupd
    obtain ⟨hdue, hnow⟩ := h hupd
    have hle := BitVec.le_def.mp hdue
    simp only [add_ticks hnow]
    omega
  · exact Nat.le_of_eq (congrArg BitVec.toNat hb.symm)

theorem backoff_toNat (n k : BitVec 32) (hfits : n.toNat * 2 ^ min k.toNat 5 < 2 ^ 32) :
    n.toNat * 2 ^ min k.toNat 5 ≤ (serviceBackoffTicks (if n ≠ 0 then n else 1) k).toNat := by
  unfold serviceBackoffTicks
  by_cases hn : n = 0
  · simp [hn]
  · have hfive : (5 : BitVec 32).toNat = 5 := rfl
    have hshift : (if k > 5 then 5 else k).toNat = min k.toNat 5 := by
      split
      · rename_i hk
        have := BitVec.lt_def.mp hk
        omega
      · rename_i hk
        have := BitVec.le_def.mp (BitVec.not_lt.mp hk)
        omega
    simp only [ne_eq, hn, not_false_eq_true, if_true]
    refine Nat.le_of_eq ?_
    rw [BitVec.shiftLeft_eq', BitVec.toNat_shiftLeft, hshift, Nat.shiftLeft_eq, Nat.mod_eq_of_lt hfits]

@[simp] theorem dueAt_limit (tick : BitVec 64) : (dueAt b upd tick).restartLimit = b.restartLimit := by
  unfold dueAt
  split <;> rfl

@[simp] theorem dueAt_interval (tick : BitVec 64) : (dueAt b upd tick).intervalTicks = b.intervalTicks := by
  unfold dueAt
  split <;> rfl

@[simp] theorem dueAt_pending (tick : BitVec 64) : (dueAt b upd tick).restartPending = b.restartPending := by
  unfold dueAt
  split <;> rfl

theorem failed_waits (h : ServiceKept i limit interval log b) (hon : OnTime now upd b)
    (hfits : upd = true → interval.toNat * 2 ^ min b.consecutiveFailures.toNat 5 < 2 ^ 32) {t : BitVec 64}
    (ht : (if upd then some now else none) = some t) : t.toNat + interval.toNat * 2 ^ min b.consecutiveFailures.toNat 5 ≤
      (dueAt b' upd (now + (serviceBackoffTicks b.interval b.consecutiveFailures).setWidth 64)).nextDueTick.toNat := by
  split at ht
  · rename_i hupd
    cases ht
    unfold dueAt
    rw [if_pos hupd]
    simp only [add_ticks (hon hupd).2]
    have hle := backoff_toNat interval b.consecutiveFailures (hfits hupd)
    unfold ServicePollBinding.interval
    rw [h.paced]
    omega
  · cases ht

theorem polled_due (hon : OnTime now upd b) {t : BitVec 64} (ht : (if upd then some now else none) = some t) :
    b.nextDueTick.toNat ≤ t.toNat := by
  split at ht
  · rename_i hupd
    cases ht
    exact BitVec.le_def.mp (hon hupd).1
  · cases ht

theorem turn_bounded (h : ServiceKept i limit interval log b) (ht : Turn i now upd b b' ev) (hon : OnTime now upd b)
    (hs : SteadyService i limit interval (log ++ ev)) : ServiceKept i limit interval (log ++ ev) b' := by
  -- what the log promises of a failed poll of this turn
  have hspare {rc : Int} {rest : List ServiceEvent} (hrc : rc < 0)
      (hev : ev = .polled i (if upd then some now else none) (b.consecutiveFailures.toNat + 1) rc :: rest) :
      since i log < limit.toNat ∧ (upd = true → interval.toNat * 2 ^ min b.consecutiveFailures.toNat 5 < 2 ^ 32) := by
    subst hev
    refine ⟨hs.spare log rest _ _ rc rfl hrc, fun hupd => ?_⟩
    have hmem : ServiceEvent.polled i (some now) (b.consecutiveFailures.toNat + 1) rc ∈
        log ++ .polled i (if upd then some now else none) (b.consecutiveFailures.toNat + 1) rc :: rest := by
      rw [if_pos hupd]
      exact mem_append_right _ mem_cons_self
    exact hs.fits now _ rc hmem hrc
  cases ht with
  | idle => rwa [append_nil]
  | waits =>
    rw [append_nil]
    exact h.later (dueAt_limit _) (dueAt_interval _) (dueAt_pending _) (due_later hon rfl _)
  | startFails hp ticks =>
    rw [append_nil]
    exact h.later (dueAt_limit _) (dueAt_interval _) (dueAt_pending _) (due_later hon rfl _)
  | restarts hp =>
    refine h.add (dueAt_limit _) (dueAt_interval _) ?_ ?_ nofun
    · exact due_later hon (by rfl) _
    · have hleft := h.left
      rw [hp] at hleft
      simpa [sinceStep] using hleft
  | succeeds hp rc hrc =>
    refine h.add (dueAt_limit _) (dueAt_interval _) ?_ ?_ ?_
    · exact due_later hon (by rfl) _
    · simp [sinceStep, hrc, hp]
    · intro t k rc' he
      obtain ⟨-, ht, -, rfl⟩ := ServiceEvent.polled.inj he
      exact ⟨polled_due hon ht, fun hlt => absurd hlt (Int.not_lt.mpr hrc)⟩
  | stopFails hp rc stopRc hrc hstop =>
    have hbad := hs.stops stopRc (mem_append_right _ (mem_cons_of_mem _ (List.mem_singleton.mpr rfl)))
    exact absurd hstop (Int.not_lt.mpr hbad)
  | schedules hp rc stopRc hrc hstop =>
    obtain ⟨hlt, hfits⟩ := hspare hrc rfl
    rw [← singleton_append, ← append_assoc]
    have hone : sinceStep i (since i log) (.polled i (if upd then some now else none) (b.consecutiveFailures.toNat + 1) rc) =
        since i log := if_neg fun hx => Int.not_lt.mpr hx.2 hrc
    apply ServiceKept.stop
    refine h.add (dueAt_limit _) (dueAt_interval _) ?_ ?_ ?_
    · exact due_later hon (by rfl) _
    · rw [hone, dueAt_pending]
      exact hlt
    · intro t k rc' he
      obtain ⟨-, ht, rfl, rfl⟩ := ServiceEvent.polled.inj he
      exact ⟨polled_due hon ht, fun _ => failed_waits h hon hfits ht⟩
  | degrades hp rc hrc =>
    obtain ⟨hlt, hfits⟩ := hspare hrc rfl
    have hone : sinceStep i (since i log) (.polled i (if upd then some now else none) (b.consecutiveFailures.toNat + 1) rc) =
        since i log := if_neg fun hx => Int.not_lt.mpr hx.2 hrc
    refine h.add (dueAt_limit _) (dueAt_interval _) ?_ ?_ ?_
    · exact due_later hon (by rfl) _
    · rw [hone, dueAt_pending]
      exact h.left
    · intro t k rc' he
      obtain ⟨-, ht, rfl, rfl⟩ := ServiceEvent.polled.inj he
      exact ⟨polled_due hon ht, fun _ => failed_waits h hon hfits ht⟩

theorem SteadyService.prior (h : SteadyService i limit interval (log ++ ev)) : SteadyService i limit interval log := by
  refine ⟨fun pre post tick k rc hsplit hrc => ?_, fun rc hmem => h.stops rc (mem_append_left _ hmem),
    fun t k rc hmem hrc => h.fits t k rc (mem_append_left _ hmem) hrc⟩
  exact h.spare pre (post ++ ev) tick k rc (by rw [hsplit, append_assoc, cons_append]) hrc

theorem made_bounded (h : ServiceKept i limit interval m.log (m.polls i)) (hm : Made id now upd m m')
    (hon : OnTime now upd (m.polls id)) (hs : SteadyService i limit interval m'.log) :
    ServiceKept i limit interval m'.log (m'.polls i) := by
  obtain ⟨b, ev, ht, hp, hl⟩ := hm
  rw [hl] at hs ⊢
  rw [hp]
  by_cases hid : id = i
  · subst hid
    rw [update_self]
    exact turn_bounded h ht hon hs
  · rw [update_of_ne (Ne.symm hid)]
    exact h.foreign fun e he => (turn_of ht e he).symm ▸ hid

def Goes (i : ServiceId) (limit interval : BitVec 32) (m m' : ServiceManager) : Prop :=
  (∃ ev, m'.log = m.log ++ ev) ∧ (ServiceKept i limit interval m.log (m.polls i) → SteadyService i limit interval m'.log →
    ServiceKept i limit interval m'.log (m'.polls i))

theorem goes_refl : Goes i limit interval m m := ⟨⟨[], (append_nil _).symm⟩, fun h _ => h⟩

theorem goes_trans {m'' : ServiceManager} (h : Goes i limit interval m m') (h' : Goes i limit interval m' m'') :
    Goes i limit interval m m'' := by
  obtain ⟨⟨ev, he⟩, hb⟩ := h
  obtain ⟨⟨ev', he'⟩, hb'⟩ := h'
  refine ⟨⟨ev ++ ev', by rw [he', he, append_assoc]⟩, fun hm hs => hb' (hb hm ?_) hs⟩
  rw [he'] at hs
  exact hs.prior

theorem made_goes (hm : Made id now upd m m') (hon : OnTime now upd (m.polls id)) : Goes i limit interval m m' := by
  obtain ⟨b, ev, ht, hp, hl⟩ := hm
  exact ⟨⟨ev, hl⟩, fun h hs => made_bounded h ⟨b, ev, ht, hp, hl⟩ hon hs⟩

theorem dueTurn_goes (hnow : now.toNat + 2 ^ 32 ≤ 2 ^ 64) (a : ServiceId → ServiceCallbacks) (polled : Nat) :
    Goes i limit interval m (m.dueTurn now a polled id).2 := by
  obtain ⟨hm, hsame | hdue⟩ := @dueTurn_made m id now a polled
  · rw [hsame]
    exact goes_refl
  · exact made_goes hm fun _ => ⟨hdue, hnow⟩

/-- A loop over the services, whose turns all go on in that way. -/
theorem turns_go {f : Nat × ServiceManager → ServiceId → Nat × ServiceManager}
    (hf : ∀ n m id, Goes i limit interval m (f (n, m) id).2) (ids : List ServiceId) (n : Nat) (m : ServiceManager) :
    Goes i limit interval m (ids.foldl f (n, m)).2 := by
  induction ids generalizing n m with
  | nil => exact goes_refl
  | cons id ids ih => exact goes_trans (hf n m id) (ih (f (n, m) id).1 (f (n, m) id).2)

def InTime (calls : List PollCall) : Prop :=
  ∀ now a, .due now a ∈ calls → now.toNat + 2 ^ 32 ≤ 2 ^ 64

theorem polls_go (calls : List PollCall) (hin : InTime calls) (m : ServiceManager) :
    Goes i limit interval m (servicePolls m calls) := by
  induction calls generalizing m with
  | nil => exact goes_refl
  | cons call calls ih =>
    refine goes_trans ?_ (ih (fun now a hc => hin now a (mem_cons_of_mem _ hc)) (call.step m))
    cases call with
    | once a =>
      refine turns_go (fun n m id => ?_) ServiceId.all 0 m
      have hm : Made id 0 false m (m.executePoll id 0 false (a id)).2 := executePoll_made (a id)
      exact made_goes hm (fun hx => nomatch hx)
    | due now a =>
      have hnow := hin now a mem_cons_self
      exact turns_go (fun n m id => dueTurn_goes hnow a n) ServiceId.all 0 m

def NoSuccess (i : ServiceId) (events : List ServiceEvent) : Prop :=
  ∀ tick k rc, .polled i tick k rc ∈ events → rc < 0

theorem since_counts (pre : List ServiceEvent) {events : List ServiceEvent} (h : NoSuccess i events) :
    events.count (.restarted i) ≤ since i (pre ++ events) := by
  induction events using List.reverseRecOn with
  | nil => exact Nat.zero_le _
  | append_singleton events e ih =>
    have ih := ih fun tick k rc hm => h tick k rc (mem_append_left _ hm)
    rw [← append_assoc, since_concat, count_append, count_singleton]
    cases e with
    | polled id tick k rc =>
      have hkeep : sinceStep i (since i (pre ++ events)) (.polled id tick k rc) = since i (pre ++ events) := by
        refine if_neg ?_
        rintro ⟨rfl, hrc⟩
        exact Int.not_lt.mpr hrc (h tick k rc (mem_append_right _ (List.mem_singleton.mpr rfl)))
      rw [hkeep]
      exact ih
    | stopped id rc => exact ih
    | restarted id =>
      by_cases hid : id = i
      · subst hid
        simp only [sinceStep, if_true, beq_self_eq_true]
        exact Nat.succ_le_succ ih
      · have hne : ¬ServiceEvent.restarted id = .restarted i := fun he => hid (ServiceEvent.restarted.inj he)
        simp only [sinceStep, hid, if_false, beq_iff_eq, hne]
        exact ih

def RestartsBounded (i : ServiceId) (limit interval : BitVec 32) (log : List ServiceEvent) : Prop :=
  (∀ pre events post, log = pre ++ events ++ post → NoSuccess i events → events.count (.restarted i) ≤ limit.toNat) ∧
    log.Pairwise (Spaced i interval)

/-- Between two successes a service is restarted at most as often as its limit, and after a
failed poll the next one waits the longer the more polls have failed in a row. -/
theorem restarts_bounded (m : ServiceManager) (i : ServiceId) (calls : List PollCall) (hlog : m.log = [])
    (hlimit : (m.polls i).restartLimit ≠ 0) (hin : InTime calls)
    (hsteady : SteadyService i (m.polls i).restartLimit (m.polls i).intervalTicks (servicePolls m calls).log) :
    RestartsBounded i (m.polls i).restartLimit (m.polls i).intervalTicks (servicePolls m calls).log := by
  have hpos : 1 ≤ (m.polls i).restartLimit.toNat := by
    by_contra hz
    have hzero : (m.polls i).restartLimit.toNat = 0 := by omega
    exact hlimit (BitVec.eq_of_toNat_eq hzero)
  have hstart : ServiceKept i (m.polls i).restartLimit (m.polls i).intervalTicks m.log (m.polls i) := by
    rw [hlog]
    refine ⟨rfl, rfl, fun pre post hsplit => ?_, ?_, nofun, List.Pairwise.nil⟩
    · rw [(List.append_eq_nil_iff.mp hsplit.symm).1]
      exact Nat.zero_le _
    · have hbit : (m.polls i).restartPending.toNat ≤ 1 := Bool.toNat_le _
      exact Nat.le_trans (Nat.le_of_eq (Nat.zero_add _)) (Nat.le_trans hbit hpos)
  have hend := (polls_go calls hin m).2 hstart hsteady
  refine ⟨fun pre events post hsplit hno => ?_, hend.spaced⟩
  exact Nat.le_trans (since_counts pre hno) (hend.few (pre ++ events) post hsplit)

end

/-- A manager whose services have all three callbacks and have failed `failures` times in a row. -/
def sampleManager (limit interval failures : BitVec 32) : ServiceManager :=
  ⟨fun _ => ⟨"", .ready, 0, 1, 0, interval, 0, 0, 0⟩,
    fun _ => ⟨true, true, true, interval, 0, 0, limit, 0, failures, false⟩, .core, []⟩

/-- Callbacks that call nothing. -/
def answering (poll stop : Int) : ServiceId → ServiceCallbacks := fun _ => ⟨⟨poll, []⟩, ⟨0, []⟩, ⟨stop, []⟩⟩

def oneRestart : List PollCall :=
  [.due 0 (answering 0 0), .due 4 (answering (-1) 0), .due 8 (answering 0 0), .due 12 (answering 0 0)]

theorem oneRestart_log : (servicePolls (sampleManager 1 4 0) oneRestart).log =
    [.polled .logger (some 0) 1 0, .polled .logger (some 4) 1 (-1), .stopped .logger 0, .restarted .logger,
      .polled .logger (some 12) 1 0] := by
  decide

theorem restarts_bounded_one : RestartsBounded .logger 1 4 (servicePolls (sampleManager 1 4 0) oneRestart).log := by
  refine restarts_bounded (sampleManager 1 4 0) .logger oneRestart rfl (by decide) ?_ ?_
  · intro now a hc
    simp only [oneRestart, mem_cons, PollCall.due.injEq, not_mem_nil, or_false] at hc
    rcases hc with ⟨rfl, -⟩ | ⟨rfl, -⟩ | ⟨rfl, -⟩ | ⟨rfl, -⟩ <;> decide
  · rw [oneRestart_log]
    constructor
    · intro pre post tick k rc hsplit hrc
      match pre, hsplit with
      | [], hsplit =>
        obtain ⟨-, -, -, rfl⟩ := ServiceEvent.polled.inj (List.cons.inj hsplit).1
        exact absurd hrc (by decide)
      | [e], hsplit =>
        rw [← (List.cons.inj hsplit).1]
        decide
      | e :: e' :: pre, hsplit =>
        have htail := (List.cons.inj (List.cons.inj hsplit).2).2
        have hmem : ServiceEvent.polled .logger tick k rc ∈
            [.stopped .logger 0, .restarted .logger, .polled .logger (some 12) 1 0] := by
          rw [htail]
          exact mem_append_right _ mem_cons_self
        simp only [mem_cons, reduceCtorEq, ServiceEvent.polled.injEq, not_mem_nil, false_or, or_false] at hmem
        obtain ⟨-, -, -, rfl⟩ := hmem
        exact absurd hrc (by decide)
    · intro rc hmem
      simp only [mem_cons, reduceCtorEq, ServiceEvent.stopped.injEq, not_mem_nil, false_or, or_false] at hmem
      exact Int.le_of_eq hmem.2.symm
    · intro t k rc hmem hrc
      simp only [mem_cons, reduceCtorEq, ServiceEvent.polled.injEq, not_mem_nil, false_or, or_false] at hmem
      rcases hmem with ⟨-, -, rfl, -⟩ | ⟨-, -, rfl, -⟩ | ⟨-, -, rfl, -⟩ <;> decide

/-- Fails, is restarted and fails again. -/
def twoRestarts : List PollCall :=
  [.due 0 (answering 0 0), .due 4 (answering (-1) 0), .due 8 (answering 0 0), .due 12 (answering (-1) 0), .due 16 (answering 0 0),
    .due 20 (answering 0 0)]

/-- A service with a limit of one restart is restarted twice in a row; one whose stop
callback fails is polled again at the same tick; and one whose backoff has 33 bits is polled
again as soon as it is restarted. -/
theorem restarts_not_bounded :
    ¬RestartsBounded .logger 1 4 (servicePolls (sampleManager 1 4 0) twoRestarts).log ∧
    ¬RestartsBounded .logger 1 4 (servicePolls (sampleManager 1 4 0) [.due 4 (answering (-1) (-1)), .due 4 (answering 0 0)]).log ∧
    ¬RestartsBounded .logger 1 2147483648 (servicePolls (sampleManager 1 2147483648 1)
      [.due 0 (answering (-1) 0), .due 0 (answering 0 0), .due 2147483648 (answering 0 0)]).log := by
  refine ⟨fun h => ?_, fun h => ?_, fun h => ?_⟩
  · have hlog : (servicePolls (sampleManager 1 4 0) twoRestarts).log =
        [.polled .logger (some 0) 1 0] ++ [.polled .logger (some 4) 1 (-1), .stopped .logger 0, .restarted .logger,
          .polled .logger (some 12) 1 (-1), .stopped .logger 0, .restarted .logger] ++ [.polled .logger (some 20) 1 0] := by
      decide
    refine absurd (h.1 _ _ _ hlog fun tick k rc hmem => ?_) (by decide)
    simp only [mem_cons, reduceCtorEq, ServiceEvent.polled.injEq, not_mem_nil, false_or, or_false] at hmem
    rcases hmem with ⟨-, -, -, rfl⟩ | ⟨-, -, -, rfl⟩ <;> decide
  · have hlog : (servicePolls (sampleManager 1 4 0) [.due 4 (answering (-1) (-1)), .due 4 (answering 0 0)]).log =
        [.polled .logger (some 4) 1 (-1), .stopped .logger (-1), .polled .logger (some 4) 2 0] := by
      decide
    have hpair := h.2
    rw [hlog] at hpair
    exact absurd ((List.pairwise_cons.mp hpair).1 (.polled .logger (some 4) 2 0) (by decide) 4 1 (-1) 4 2 0 rfl (by decide) rfl)
      (by decide)
  · have hlog : (servicePolls (sampleManager 1 2147483648 1)
        [.due 0 (answering (-1) 0), .due 0 (answering 0 0), .due 2147483648 (answering 0 0)]).log =
        [.polled .logger (some 0) 2 (-1), .stopped .logger 0, .restarted .logger, .polled .logger (some 2147483648) 1 0] := by
      decide
    have hpair := h.2
    rw [hlog] at hpair
    exact absurd ((List.pairwise_cons.mp hpair).1 (.polled .logger (some 2147483648) 1 0) (by decide) 0 2 (-1) 2147483648 1 0 rfl
      (by decide) rfl) (by decide)

end CapyOS.Proofs
