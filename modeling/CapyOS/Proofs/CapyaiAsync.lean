import CapyOS.Services.CapyaiAsync

namespace CapyOS.Proofs
open AsyncRuntime List

variable {ρ β ω : Type}

/-- Call `k` has put job `id` in the slot and does not know yet if the pool takes it. -/
def PoolAt (calls : List (SubmitCall ρ)) (k id : Nat) : Prop :=
  ∃ c, calls[k]? = some c ∧ (c.phase = .submitting id ∨ c.phase = .refused id)

structure AsyncSlot (s : AsyncRuntime ρ β) : Prop where
  pool : ∀ k id, PoolAt s.calls k id → s.state = .queued ∧ s.currentJobId = id ∧ s.entries = 0
  alone : ∀ k id k' id', PoolAt s.calls k id → PoolAt s.calls k' id' → k = k'
  few : s.entries ≤ 1
  entry : s.entries ≠ 0 → s.state = .queued
  handed : s.state = .queued → s.entries = 0 → ∃ k id, PoolAt s.calls k id
  held : s.state ≠ .idle → ∃ req, s.request = some req ∧ (s.currentJobId, req) ∈ s.reserved
  free : s.state = .idle → s.currentJobId = 0
  work : ∀ w ∈ s.workers, s.state = .running ∧ w.jobId = s.currentJobId ∧ (w.jobId, w.request) ∈ s.reserved
  single : s.workers.length ≤ 1
  running : s.state = .running → s.workers ≠ []
  unready : s.initialized = false → s.state = .idle ∧ s.reserved = []
  ready : ∀ (k : Nat) (c : SubmitCall ρ), s.calls[k]? = some c → c.phase = .reserving → s.initialized = true
  numbered : s.reserved.map Prod.fst = List.range' 1 s.reserved.length
  next : s.nextJobId = (s.reserved.length + 1) % 2 ^ 64

structure Ledger (env : AsyncEnv ρ β ω) (s : AsyncRuntime ρ β) : Prop where
  once : s.executed.Nodup
  known : ∀ id ∈ s.executed, id ∈ s.reserved.map Prod.fst
  waiting : s.state = .queued → s.currentJobId ∉ s.executed
  started : s.state ≠ .idle → s.state ≠ .queued → s.currentJobId ∈ s.executed
  answered : s.state = .done ∨ s.state = .failed → ∃ req world, (s.currentJobId, req) ∈ s.reserved ∧
    s.response = some (respond env ⟨s.currentJobId, req⟩ world)
  single : (s.delivered.map Prod.fst).Nodup
  own : ∀ p ∈ s.delivered, p.1 ∈ s.executed ∧ p.1 ∉ s.dropped ∧ ∃ req world, (p.1, req) ∈ s.reserved ∧
    p.2 = respond env ⟨p.1, req⟩ world
  pending : s.state ≠ .idle → s.currentJobId ∉ s.delivered.map Prod.fst
  gone : ∀ id ∈ s.dropped, id ∈ s.reserved.map Prod.fst
  flagged : s.state ≠ .idle → s.currentJobId ∈ s.dropped → s.detached = true ∧ (s.state = .queued ∨ s.state = .running)

variable {s t : AsyncRuntime ρ β} {env : AsyncEnv ρ β ω} {calls : List (SubmitCall ρ)} {k j id : Nat} {c x : SubmitCall ρ}

theorem poolAt_append (hx : ∀ id, x.phase ≠ .submitting id ∧ x.phase ≠ .refused id) :
    PoolAt (calls ++ [x]) k id ↔ PoolAt calls k id := by
  unfold PoolAt
  constructor
  · rintro ⟨c, hc, hp⟩
    by_cases hk : k < calls.length
    · rw [List.getElem?_append_left hk] at hc
      exact ⟨c, hc, hp⟩
    · rw [List.getElem?_append_right (Nat.le_of_not_lt hk)] at hc
      have hm := mem_of_getElem? hc
      rw [mem_singleton.mp hm] at hp
      rcases hp with hp | hp
      · exact absurd hp (hx id).1
      · exact absurd hp (hx id).2
  · rintro ⟨c, hc, hp⟩
    have hk : k < calls.length := (List.getElem?_eq_some_iff.mp hc).1
    exact ⟨c, by rw [List.getElem?_append_left hk]; exact hc, hp⟩

theorem poolAt_set (hk : calls[k]? = some c) :
    PoolAt (calls.set k x) j id ↔ (j = k ∧ (x.phase = .submitting id ∨ x.phase = .refused id)) ∨ (j ≠ k ∧ PoolAt calls j id) := by
  have hlt : k < calls.length := (List.getElem?_eq_some_iff.mp hk).1
  unfold PoolAt
  by_cases hj : j = k
  · subst hj
    rw [List.getElem?_set_self hlt]
    simp
  · rw [List.getElem?_set_ne (Ne.symm hj)]
    simp [hj]

theorem AsyncSlot.setPhase (h : AsyncSlot s) (hk : s.calls[k]? = some c) {phase : SubmitPhase}
    (hc : ∀ id, c.phase ≠ .submitting id ∧ c.phase ≠ .refused id)
    (hp : ∀ id, phase ≠ .submitting id ∧ phase ≠ .refused id) (hr : phase = .reserving → s.initialized = true) :
    AsyncSlot (s.setPhase k c phase) := by
  have hpool (j id : Nat) : PoolAt (s.setPhase k c phase).calls j id ↔ PoolAt s.calls j id := by
    unfold AsyncRuntime.setPhase
    rw [poolAt_set hk]
    constructor
    · rintro (⟨-, hx⟩ | ⟨-, hx⟩)
      · rcases hx with hx | hx
        · exact absurd hx (hp id).1
        · exact absurd hx (hp id).2
      · exact hx
    · intro hx
      refine .inr ⟨?_, hx⟩
      rintro rfl
      obtain ⟨c', hc', hx⟩ := hx
      rw [hk] at hc'
      cases hc'
      rcases hx with hx | hx
      · exact absurd hx (hc id).1
      · exact absurd hx (hc id).2
  refine ⟨fun j id hj => h.pool j id ((hpool j id).mp hj),
    fun j id j' id' hj hj' => h.alone j id j' id' ((hpool j id).mp hj) ((hpool j' id').mp hj'), h.few, h.entry,
    fun hs he => ?_, h.held, h.free, h.work, h.single, h.running, h.unready, fun j c' hc' hp' => ?_, h.numbered, h.next⟩
  · obtain ⟨j, id, hj⟩ := h.handed hs he
    exact ⟨j, id, (hpool j id).mpr hj⟩
  · simp only [AsyncRuntime.setPhase, List.getElem?_set] at hc'
    split at hc'
    · split at hc'
      · cases hc'
        exact hr hp'
      · cases hc'
    · exact h.ready j c' hc' hp'

theorem AsyncSlot.addCall (h : AsyncSlot s) (hx : ∀ id, x.phase ≠ .submitting id ∧ x.phase ≠ .refused id)
    (hr : x.phase = .reserving → s.initialized = true) : AsyncSlot { s with calls := s.calls ++ [x] } := by
  have hpool (j id : Nat) := @poolAt_append ρ s.calls j id x hx
  refine ⟨fun j id hj => h.pool j id ((hpool j id).mp hj),
    fun j id j' id' hj hj' => h.alone j id j' id' ((hpool j id).mp hj) ((hpool j' id').mp hj'), h.few, h.entry,
    fun hs he => ?_, h.held, h.free, h.work, h.single, h.running, h.unready, fun j c' hc' hp' => ?_, h.numbered, h.next⟩
  · obtain ⟨j, id, hj⟩ := h.handed hs he
    exact ⟨j, id, (hpool j id).mpr hj⟩
  · simp only [List.getElem?_append] at hc'
    split at hc'
    · exact h.ready j c' hc' hp'
    · have hm := mem_of_getElem? hc'
      rw [mem_singleton.mp hm] at hp'
      exact hr hp'

theorem ledger_calls (h : Ledger env s) (l : List (SubmitCall ρ)) : Ledger env { s with calls := l } :=
  { h with }

theorem submit_slot (h : AsyncSlot s) (request : AsyncRequest ρ) : AsyncSlot (s.submitNormalized request) := by
  unfold submitNormalized
  simp only
  split
  · exact h.addCall (fun _ => ⟨nofun, nofun⟩) nofun
  split
  · rename_i hinit
    exact h.addCall (fun _ => ⟨nofun, nofun⟩) fun _ => hinit
  split
  · exact h.addCall (fun _ => ⟨nofun, nofun⟩) nofun
  · rename_i hinit _
    -- nothing was reserved yet, so the slot and the next id are as they were
    obtain ⟨hidle, hnone⟩ := h.unready (by simpa using hinit)
    have hnext : s.nextJobId = 1 := by
      rw [h.next, hnone]
      rfl
    have hi : AsyncSlot { s with initializing := true } :=
      { h with }
    have hadd := @AsyncSlot.addCall ρ β _ ⟨request, .creating⟩ hi (fun _ => ⟨nofun, nofun⟩) nofun
    simpa [hidle, hnext] using hadd

theorem takeId_next (h : AsyncSlot s) (hlen : s.reserved.length + 1 < 2 ^ 64) :
    s.takeId = (s.reserved.length + 1, (s.reserved.length + 2) % 2 ^ 64) := by
  have hn := h.next
  rw [Nat.mod_eq_of_lt hlen] at hn
  unfold takeId
  simp only
  rw [if_neg (by omega), hn]

theorem reserve_slot (h : AsyncSlot s) (hk : s.calls[k]? = some c) (hphase : c.phase = .reserving)
    (hlen : (s.reserve k c).reserved.length < 2 ^ 64) : AsyncSlot (s.reserve k c) := by
  have hc : ∀ id, c.phase ≠ .submitting id ∧ c.phase ≠ .refused id := by
    rw [hphase]
    exact fun _ => ⟨nofun, nofun⟩
  unfold reserve at hlen ⊢
  split
  · exact h.setPhase hk hc (fun _ => ⟨nofun, nofun⟩) nofun
  rename_i hidle
  rw [if_neg hidle] at hlen
  have hidle := not_not.mp hidle
  have hlen : s.reserved.length + 1 < 2 ^ 64 := by simpa [AsyncRuntime.setPhase] using hlen
  rw [takeId_next h hlen]
  have hnone (j id : Nat) : ¬PoolAt s.calls j id := by
    intro hj
    rw [(h.pool j id hj).1] at hidle
    cases hidle
  have hzero : s.entries = 0 := by
    by_contra he
    rw [h.entry he] at hidle
    cases hidle
  have hwork : s.workers = [] := by
    cases hw : s.workers with
    | nil => rfl
    | cons w l =>
      have hrun := (h.work w (by rw [hw]; exact mem_cons_self)).1
      rw [hrun] at hidle
      cases hidle
  have hpool (j id : Nat) : PoolAt (s.calls.set k { c with phase := .submitting (s.reserved.length + 1) }) j id ↔
      j = k ∧ id = s.reserved.length + 1 := by
    rw [poolAt_set hk]
    simp [hnone, eq_comm]
  refine ⟨fun j id hj => ?_, fun j id j' id' hj hj' => ?_, ?_, fun he => absurd hzero he, fun _ _ => ?_, fun _ => ?_,
    nofun, fun w hw => ?_, ?_, nofun, fun hi => ?_, fun j c' hc' hp' => ?_, ?_, ?_⟩
  · exact ⟨rfl, ((hpool j id).mp hj).2.symm, hzero⟩
  · rw [((hpool j id).mp hj).1, ((hpool j' id').mp hj').1]
  · exact h.few
  · exact ⟨k, s.reserved.length + 1, (hpool _ _).mpr ⟨rfl, rfl⟩⟩
  · exact ⟨_, rfl, mem_append_right _ (mem_singleton.mpr rfl)⟩
  · simp only [AsyncRuntime.setPhase, hwork] at hw
    cases hw
  · exact h.single
  · exact absurd (h.ready k c hk hphase) (by rw [show s.initialized = false from hi]; exact nofun)
  · simp only [AsyncRuntime.setPhase, List.getElem?_set] at hc'
    split at hc'
    · split at hc'
      · cases hc'
        cases hp'
      · cases hc'
    · exact h.ready j c' hc' hp'
  · simp only [AsyncRuntime.setPhase, map_append, h.numbered, length_append, length_singleton,
      range'_concat, map_cons, map_nil, Nat.one_mul]
    rw [Nat.add_comm 1]
  · simp [AsyncRuntime.setPhase]

theorem created_slot (h : AsyncSlot s) (ok : Bool) (hk : s.calls[k]? = some c) (hphase : c.phase = .creating) :
    AsyncSlot (s.created ok k c) := by
  have hc : ∀ id, c.phase ≠ .submitting id ∧ c.phase ≠ .refused id := by
    rw [hphase]
    exact fun _ => ⟨nofun, nofun⟩
  unfold created
  split
  · have hi : AsyncSlot { s with initialized := true, initializing := false } :=
      { h with unready := nofun, ready := fun _ _ _ _ => rfl }
    exact hi.setPhase hk hc (fun _ => ⟨nofun, nofun⟩) fun _ => rfl
  · have hi : AsyncSlot { s with initializing := false } :=
      { h with }
    exact hi.setPhase hk hc (fun _ => ⟨nofun, nofun⟩) nofun

/-- The one call that is with the pool leaves it, or goes on to take its job back. -/
theorem pool_left (h : AsyncSlot s) (hk : s.calls[k]? = some c) (hc : PoolAt s.calls k id) (phase : SubmitPhase)
    (hp : ∀ id, phase ≠ .submitting id ∧ phase ≠ .refused id) (j id' : Nat) :
    ¬PoolAt (s.calls.set k { c with phase := phase }) j id' := by
  rw [poolAt_set hk]
  rintro (⟨-, hx⟩ | ⟨hne, hx⟩)
  · rcases hx with hx | hx
    · exact (hp id').1 hx
    · exact (hp id').2 hx
  · exact hne (h.alone j id' k id hx hc)

theorem ready_set {P : Prop} (h : ∀ (k : Nat) (c : SubmitCall ρ), calls[k]? = some c → c.phase = .reserving → P)
    (j : Nat) (c' : SubmitCall ρ) (hc' : (calls.set k x)[j]? = some c') (hp' : c'.phase = .reserving)
    (hp : x.phase ≠ .reserving) : P := by
  rw [List.getElem?_set] at hc'
  split at hc'
  · split at hc'
    · cases hc'
      exact absurd hp' hp
    · cases hc'
  · exact h j c' hc' hp'

theorem poolSubmit_slot (h : AsyncSlot s) (ok : Bool) (hk : s.calls[k]? = some c) (hphase : c.phase = .submitting id) :
    AsyncSlot (s.poolSubmit ok k c id) := by
  have hc : PoolAt s.calls k id := ⟨c, hk, .inl hphase⟩
  obtain ⟨hq, hid, hzero⟩ := h.pool k id hc
  unfold poolSubmit
  split
  · have hno := pool_left h hk hc (.returned .ok (some id)) fun _ => ⟨nofun, nofun⟩
    refine ⟨fun j id' hj => absurd hj (hno j id'), fun j id' _ _ hj => absurd hj (hno j id'), ?_, fun _ => hq, fun _ he => ?_,
      h.held, h.free, h.work, h.single, h.running, h.unready, fun j c' hc' hp' => ready_set h.ready j c' hc' hp' (fun hx => nomatch hx), h.numbered,
      h.next⟩
    · exact Nat.le_of_eq (congrArg Nat.succ hzero)
    · exact absurd he (Nat.succ_ne_zero _)
  · have hpool (j id' : Nat) : PoolAt (s.calls.set k { c with phase := .refused id }) j id' ↔ PoolAt s.calls j id' := by
      rw [poolAt_set hk]
      constructor
      · rintro (⟨rfl, hx⟩ | ⟨-, hx⟩)
        · simp only [reduceCtorEq, SubmitPhase.refused.injEq, false_or] at hx
          exact hx ▸ hc
        · exact hx
      · intro hx
        by_cases hj : j = k
        · refine .inl ⟨hj, .inr ?_⟩
          rw [← (h.pool j id' hx).2.1, hid]
        · exact .inr ⟨hj, hx⟩
    refine ⟨fun j id' hj => h.pool j id' ((hpool j id').mp hj),
      fun j id₁ j' id₂ hj hj' => h.alone j id₁ j' id₂ ((hpool j id₁).mp hj) ((hpool j' id₂).mp hj'), h.few, h.entry,
      fun _ _ => ⟨k, id, (hpool k id).mpr hc⟩, h.held, h.free, h.work, h.single, h.running, h.unready,
      fun j c' hc' hp' => ready_set h.ready j c' hc' hp' (fun hx => nomatch hx), h.numbered, h.next⟩

theorem takeBack_slot (h : AsyncSlot s) (hk : s.calls[k]? = some c) (hphase : c.phase = .refused id) :
    AsyncSlot (s.takeBack k c id) := by
  have hc : PoolAt s.calls k id := ⟨c, hk, .inr hphase⟩
  obtain ⟨hq, hid, hzero⟩ := h.pool k id hc
  have hno := pool_left h hk hc (.returned .errUnavailable none) fun _ => ⟨nofun, nofun⟩
  unfold takeBack
  rw [if_pos ⟨hid, hq⟩]
  refine ⟨fun j id' hj => absurd hj (hno j id'), fun j id' _ _ hj => absurd hj (hno j id'), h.few, fun he => absurd hzero he,
    nofun, fun hi => absurd rfl hi, fun _ => rfl, fun w hw => ?_, h.single, nofun, fun hi => ⟨rfl, (h.unready hi).2⟩,
    fun j c' hc' hp' => ready_set h.ready j c' hc' hp' (fun hx => nomatch hx), h.numbered, h.next⟩
  have hrun := (h.work w hw).1
  rw [hq] at hrun
  cases hrun

theorem workerStart_slot (h : AsyncSlot s) : AsyncSlot s.workerStart := by
  unfold workerStart
  split
  · exact h
  rename_i hent
  have hq := h.entry hent
  have hone : s.entries = 1 := by
    have := h.few
    omega
  obtain ⟨req, hreq, hmem⟩ := h.held (by rw [hq]; exact nofun)
  have hno (j id : Nat) : ¬PoolAt s.calls j id := by
    intro hj
    have := (h.pool j id hj).2.2
    omega
  have hwork : s.workers = [] := by
    cases hw : s.workers with
    | nil => rfl
    | cons w l =>
      have hrun := (h.work w (by rw [hw]; exact mem_cons_self)).1
      rw [hq] at hrun
      cases hrun
  simp only [hq, hreq]
  refine ⟨fun j id hj => absurd hj (hno j id), fun j id _ _ hj => absurd hj (hno j id), ?_, fun he => ?_, nofun,
    fun _ => ⟨req, rfl, hmem⟩, nofun, fun w hw => ?_, ?_, fun _ => ?_, fun hi => ?_, h.ready, h.numbered, h.next⟩
  · simp [hone]
  · exact absurd (by simp [hone]) he
  · rw [hwork] at hw
    rw [mem_singleton.mp hw]
    exact ⟨rfl, rfl, hmem⟩
  · simp [hwork]
  · simp
  · have := (h.unready hi).1
    rw [hq] at this
    cases this

theorem clear_slot (h : AsyncSlot s) (hno : ∀ j id, ¬PoolAt s.calls j id) (hzero : s.entries = 0) (hwork : s.workers = []) :
    AsyncSlot s.clear :=
  ⟨fun j id hj => absurd hj (hno j id), fun j id _ _ hj => absurd hj (hno j id), h.few, fun he => absurd hzero he, nofun,
    fun hi => absurd rfl hi, fun _ => rfl, fun w hw => absurd (hwork ▸ hw : w ∈ []) not_mem_nil, h.single,
    nofun, fun hi => ⟨rfl, (h.unready hi).2⟩, h.ready, h.numbered, h.next⟩

/-- Nobody is with the pool and no entry waits unless a job is queued. -/
theorem unqueued (h : AsyncSlot s) (hq : s.state ≠ .queued) : (∀ j id, ¬PoolAt s.calls j id) ∧ s.entries = 0 := by
  refine ⟨fun j id hj => hq (h.pool j id hj).1, ?_⟩
  by_contra he
  exact hq (h.entry he)

theorem idle_workers (h : AsyncSlot s) (hr : s.state ≠ .running) : s.workers = [] := by
  cases hw : s.workers with
  | nil => rfl
  | cons w l => exact absurd (h.work w (by rw [hw]; exact mem_cons_self)).1 hr

theorem one_worker (h : AsyncSlot s) {w : WorkerJob ρ} (hw : s.workers[k]? = some w) :
    s.state = .running ∧ s.currentJobId = w.jobId ∧ (w.jobId, w.request) ∈ s.reserved ∧ s.workers.eraseIdx k = [] := by
  obtain ⟨hrun, hid, hmem⟩ := h.work w (mem_of_getElem? hw)
  have hlt : k < s.workers.length := (List.getElem?_eq_some_iff.mp hw).1
  refine ⟨hrun, hid.symm, hmem, ?_⟩
  rw [← length_eq_zero_iff, length_eraseIdx_of_lt hlt]
  have := h.single
  omega

theorem workerFinish_slot (h : AsyncSlot s) (world : ω) : AsyncSlot (s.workerFinish env k world) := by
  unfold workerFinish
  split
  · exact h
  rename_i w hw
  obtain ⟨hrun, hid, hmem, hnil⟩ := one_worker h hw
  obtain ⟨hno, hzero⟩ := unqueued h (by rw [hrun]; exact nofun)
  simp only [hid, if_true, hnil]
  split
  · exact ⟨fun j id hj => absurd hj (hno j id), fun j id _ _ hj => absurd hj (hno j id), h.few, fun he => absurd hzero he, nofun,
      fun hi => absurd rfl hi, fun _ => rfl, nofun, Nat.zero_le _, nofun, fun hi => ⟨rfl, (h.unready hi).2⟩, h.ready,
      h.numbered, h.next⟩
  · have hne : ∀ b : Bool, (if b then AsyncStatus.failed else .done) ≠ .queued ∧
        (if b then AsyncStatus.failed else .done) ≠ .idle ∧ (if b then AsyncStatus.failed else .done) ≠ .running := by
      decide
    obtain ⟨hnq, hni, hnr⟩ := hne (respond env w world).failed
    refine ⟨fun j id hj => absurd hj (hno j id), fun j id _ _ hj => absurd hj (hno j id), h.few, fun he => absurd hzero he,
      fun hq => absurd hq hnq, fun _ => ?_, fun hi => absurd hi hni, nofun, Nat.zero_le _,
      fun hr => absurd hr hnr, fun hi => ?_, h.ready, h.numbered, h.next⟩
    · obtain ⟨req, hreq, hm⟩ := h.held (by rw [hrun]; exact nofun)
      exact ⟨req, hreq, hid ▸ hm⟩
    · have := (h.unready hi).1
      rw [hrun] at this
      cases this

theorem poll_slot (h : AsyncSlot s) (id : Nat) : AsyncSlot (s.capyaiAsyncPoll id).2 := by
  unfold capyaiAsyncPoll
  split
  · exact h
  split
  · exact h
  split
  · exact h
  rename_i hwork
  rw [not_or] at hwork
  split
  · exact h
  · obtain ⟨hno, hzero⟩ := unqueued h hwork.1
    have hi : AsyncSlot { s with delivered := s.delivered ++ s.response.toList.map fun r => (id, r) } :=
      { h with }
    exact clear_slot hi hno hzero (idle_workers hi hwork.2)

theorem detach_slot (h : AsyncSlot s) (id : Nat) : AsyncSlot (s.capyaiAsyncDetach id).2 := by
  unfold capyaiAsyncDetach
  split
  · exact h
  split
  · exact h
  split
  · rename_i hend
    have hq : s.state ≠ .queued ∧ s.state ≠ .running := by
      rcases hend with hend | hend <;> rw [hend] <;> exact ⟨nofun, nofun⟩
    obtain ⟨hno, hzero⟩ := unqueued h hq.1
    exact clear_slot h hno hzero (idle_workers h hq.2)
  · exact { h with }

theorem submitTurn_slot (h : AsyncSlot s) (ok : Bool) (k : Nat) (hlen : (s.submitTurn ok k).reserved.length < 2 ^ 64) :
    AsyncSlot (s.submitTurn ok k) := by
  unfold submitTurn at hlen ⊢
  split
  · exact h
  rename_i c hk
  simp only [hk] at hlen
  split
  · rename_i hp
    exact created_slot h ok hk hp
  · rename_i hp
    simp only [hp] at hlen
    exact reserve_slot h hk hp hlen
  · rename_i hp
    exact poolSubmit_slot h ok hk hp
  · rename_i hp
    exact takeBack_slot h hk hp
  · exact h

theorem step_slot (h : AsyncSlot s) (op : AsyncOp ρ ω) (hlen : (asyncStep env s op).reserved.length < 2 ^ 64) :
    AsyncSlot (asyncStep env s op) := by
  cases op with
  | submit request => exact submit_slot h request
  | submitV2 versionOk sizeOk request =>
    unfold asyncStep capyaiAsyncSubmitV2
    simp only
    split
    · exact h.addCall (fun _ => ⟨nofun, nofun⟩) nofun
    · exact submit_slot h request
  | submitTurn ok k => exact submitTurn_slot h ok k hlen
  | workerStart => exact workerStart_slot h
  | workerFinish k world => exact workerFinish_slot h world
  | poll id => exact poll_slot h id
  | detach id => exact detach_slot h id

theorem reserved_nodup (h : AsyncSlot s) : (s.reserved.map Prod.fst).Nodup := by
  rw [h.numbered]
  exact nodup_range' 1 Nat.one_pos

theorem clear_ledger (h : Ledger env s) : Ledger env s.clear :=
  ⟨h.once, h.known, nofun, fun hi => absurd rfl hi, fun hd => hd.elim nofun nofun, h.single, h.own,
    fun hi => absurd rfl hi, h.gone, fun hi => absurd rfl hi⟩

theorem submit_ledger (h : Ledger env s) (request : AsyncRequest ρ) : Ledger env (s.submitNormalized request) := by
  unfold submitNormalized
  simp only
  split
  · exact ledger_calls h _
  split
  · exact ledger_calls h _
  split
  · exact ledger_calls h _
  · exact ⟨h.once, h.known, nofun, fun hi => absurd rfl hi, fun hd => hd.elim nofun nofun, h.single,
      h.own, fun hi => absurd rfl hi, h.gone, fun hi => absurd rfl hi⟩

theorem reserve_ledger (h : Ledger env s) (hs : AsyncSlot s) (hlen : (s.reserve k c).reserved.length < 2 ^ 64) :
    Ledger env (s.reserve k c) := by
  unfold reserve at hlen ⊢
  split
  · exact ledger_calls h _
  rename_i hidle
  rw [if_neg hidle] at hlen
  have hlen : s.reserved.length + 1 < 2 ^ 64 := by simpa [AsyncRuntime.setPhase] using hlen
  rw [takeId_next hs hlen]
  -- the id is new, so it is in no history
  have hnew : s.reserved.length + 1 ∉ s.reserved.map Prod.fst := by
    rw [hs.numbered, mem_range'_1]
    omega
  have hmem {x : Nat} (hx : x ∈ s.reserved.map Prod.fst) :
      x ∈ (s.reserved ++ [(s.reserved.length + 1, c.request.terminated)]).map Prod.fst := by
    rw [map_append]
    exact mem_append_left _ hx
  refine ⟨h.once, fun id hid => hmem (h.known id hid), fun _ hx => hnew (h.known _ hx), fun _ hq => absurd rfl hq,
    fun hd => hd.elim nofun nofun, h.single, fun p hp => ?_, fun _ hx => ?_, fun id hid => hmem (h.gone id hid),
    fun _ hx => absurd (h.gone _ hx) hnew⟩
  · obtain ⟨hex, hdr, req, world, hm, hr⟩ := h.own p hp
    exact ⟨hex, hdr, req, world, mem_append_left _ hm, hr⟩
  · have hx : s.reserved.length + 1 ∈ s.delivered.map Prod.fst := hx
    obtain ⟨p, hp, he⟩ := mem_map.mp hx
    exact hnew (he ▸ h.known _ (h.own p hp).1)

theorem takeBack_ledger (h : Ledger env s) : Ledger env (s.takeBack k c id) := by
  unfold takeBack
  split
  · exact ⟨h.once, h.known, nofun, fun hi => absurd rfl hi, fun hd => hd.elim nofun nofun, h.single,
      h.own, fun hi => absurd rfl hi, h.gone, fun hi => absurd rfl hi⟩
  · exact ledger_calls h _

theorem submitTurn_ledger (h : Ledger env s) (hs : AsyncSlot s) (ok : Bool) (k : Nat)
    (hlen : (s.submitTurn ok k).reserved.length < 2 ^ 64) : Ledger env (s.submitTurn ok k) := by
  unfold submitTurn at hlen ⊢
  split
  · exact h
  rename_i c hk
  simp only [hk] at hlen
  split
  · unfold created
    split <;> exact { h with }
  · rename_i hp
    simp only [hp] at hlen
    exact reserve_ledger h hs hlen
  · unfold poolSubmit
    split
    · exact { h with }
    · exact ledger_calls h _
  · exact takeBack_ledger h
  · exact h

theorem workerStart_ledger (h : Ledger env s) (hs : AsyncSlot s) : Ledger env s.workerStart := by
  unfold workerStart
  split
  · exact h
  rename_i hent
  have hq := hs.entry hent
  have hni : s.state ≠ .idle := by
    rw [hq]
    exact nofun
  obtain ⟨req, hreq, hmem⟩ := hs.held hni
  have hfresh := h.waiting hq
  simp only [hq, hreq]
  refine ⟨?_, fun id hid => ?_, nofun, fun _ _ => mem_append_right _ (mem_singleton.mpr rfl),
    fun hd => hd.elim nofun nofun, h.single, fun p hp => ?_, fun _ => h.pending hni, h.gone,
    fun _ hx => ⟨(h.flagged hni hx).1, .inr rfl⟩⟩
  · rw [nodup_append]
    refine ⟨h.once, nodup_cons.mpr ⟨not_mem_nil, nodup_nil⟩, fun x hx y hy => ?_⟩
    rw [mem_singleton.mp hy]
    rintro rfl
    exact hfresh hx
  · rcases mem_append.mp hid with hid | hid
    · exact h.known id hid
    · rw [mem_singleton.mp hid]
      exact mem_map_of_mem hmem
  · obtain ⟨hex, hrest⟩ := h.own p hp
    exact ⟨mem_append_left _ hex, hrest⟩

theorem workerFinish_ledger (h : Ledger env s) (hs : AsyncSlot s) (world : ω) : Ledger env (s.workerFinish env k world) := by
  unfold workerFinish
  split
  · exact h
  rename_i w hw
  obtain ⟨hrun, hid, hmem, -⟩ := one_worker hs hw
  simp only [hid, if_true]
  have hni : s.state ≠ .idle := by
    rw [hrun]
    exact nofun
  split
  · exact ⟨h.once, h.known, nofun, fun hi => absurd rfl hi, fun hd => hd.elim nofun nofun, h.single,
      h.own, fun hi => absurd rfl hi, h.gone, fun hi => absurd rfl hi⟩
  · rename_i hdet
    have hq : ∀ b : Bool, (if b then AsyncStatus.failed else .done) ≠ .queued := by decide
    refine ⟨h.once, h.known, fun hx => absurd hx (hq _), fun _ _ => hid ▸ h.started hni (by rw [hrun]; exact nofun),
      fun _ => ⟨w.request, world, hmem, rfl⟩, h.single, h.own, fun _ => hid ▸ h.pending hni, h.gone, fun _ hx => ?_⟩
    exact absurd (h.flagged hni (hid ▸ hx)).1 hdet

theorem poll_ledger (h : Ledger env s) (id : Nat) : Ledger env (s.capyaiAsyncPoll id).2 := by
  unfold capyaiAsyncPoll
  split
  · exact h
  split
  · exact h
  rename_i hid
  have hid := not_not.mp hid
  split
  · exact h
  rename_i hwork
  split
  · exact h
  rename_i hend
  have hdone : s.state = .done ∨ s.state = .failed := by
    by_contra hd
    rw [not_or] at hd
    exact hend hd
  have hni : s.state ≠ .idle ∧ s.state ≠ .queued := by
    rcases hdone with hd | hd <;> rw [hd] <;> exact ⟨nofun, nofun⟩
  obtain ⟨req, world, hmem, hresp⟩ := h.answered hdone
  rw [hresp]
  have hdropped : id ∉ s.dropped := fun hx => hwork (h.flagged hni.1 (hid.symm ▸ hx)).2
  refine ⟨h.once, h.known, nofun, fun hi => absurd rfl hi, fun hd => hd.elim nofun nofun, ?_,
    fun p hp => ?_, fun hi => absurd rfl hi, h.gone, fun hi => absurd rfl hi⟩
  · simp only [AsyncRuntime.clear, Option.toList_some, map_append, map_cons, map_nil]
    rw [nodup_append]
    refine ⟨h.single, nodup_cons.mpr ⟨not_mem_nil, nodup_nil⟩, fun x hx y hy => ?_⟩
    rw [mem_singleton.mp hy]
    rintro rfl
    exact h.pending hni.1 (hid.symm ▸ hx)
  · rcases mem_append.mp hp with hp | hp
    · exact h.own p hp
    · rw [mem_singleton.mp hp]
      exact ⟨hid ▸ h.started hni.1 hni.2, hdropped, req, world, hid ▸ hmem, by rw [hid]⟩

theorem detach_ledger (h : Ledger env s) (hs : AsyncSlot s) (id : Nat) : Ledger env (s.capyaiAsyncDetach id).2 := by
  unfold capyaiAsyncDetach
  split
  · exact h
  rename_i hzero
  split
  · exact h
  rename_i hid
  have hid := not_not.mp hid
  split
  · exact clear_ledger h
  rename_i hend
  rw [not_or] at hend
  have hni : s.state ≠ .idle := by
    intro hi
    exact hzero (hid ▸ hs.free hi)
  have hwork : s.state = .queued ∨ s.state = .running := by
    cases hst : s.state with
    | idle => exact absurd hst hni
    | queued => exact .inl rfl
    | running => exact .inr rfl
    | done => exact absurd hst hend.1
    | failed => exact absurd hst hend.2
  obtain ⟨req, -, hmem⟩ := hs.held hni
  refine ⟨h.once, h.known, h.waiting, h.started, h.answered, h.single, fun p hp => ?_, h.pending, fun x hx => ?_,
    fun _ _ => ⟨rfl, hwork⟩⟩
  · obtain ⟨hex, hdr, hrest⟩ := h.own p hp
    refine ⟨hex, fun hx => ?_, hrest⟩
    rcases mem_append.mp hx with hx | hx
    · exact hdr hx
    · have hne := h.pending hni
      rw [hid, ← mem_singleton.mp hx] at hne
      exact hne (mem_map_of_mem hp)
  · rcases mem_append.mp hx with hx | hx
    · exact h.gone x hx
    · rw [mem_singleton.mp hx, ← hid]
      exact mem_map_of_mem hmem

theorem step_ledger (h : Ledger env s) (hs : AsyncSlot s) (op : AsyncOp ρ ω)
    (hlen : (asyncStep env s op).reserved.length < 2 ^ 64) : Ledger env (asyncStep env s op) := by
  cases op with
  | submit request => exact submit_ledger h request
  | submitV2 versionOk sizeOk request =>
    unfold asyncStep capyaiAsyncSubmitV2
    simp only
    split
    · exact ledger_calls h _
    · exact submit_ledger h request
  | submitTurn ok k => exact submitTurn_ledger h hs ok k hlen
  | workerStart => exact workerStart_ledger h hs
  | workerFinish k world => exact workerFinish_ledger h hs world
  | poll id => exact poll_ledger h id
  | detach id => exact detach_ledger h hs id

def HasId (phase : SubmitPhase) (id : Nat) : Prop :=
  phase = .submitting id ∨ phase = .refused id ∨ ∃ r, phase = .returned r (some id)

structure AsyncCalls (s : AsyncRuntime ρ β) : Prop where
  begun : s.initializing = true → ∃ (k : Nat) (c : SubmitCall ρ), s.calls[k]? = some c ∧ c.phase = .creating
  owner : ∀ (k : Nat) (c : SubmitCall ρ) (id : Nat), s.calls[k]? = some c → HasId c.phase id →
    (id, c.request.terminated) ∈ s.reserved

theorem AsyncCalls.same (h : AsyncCalls s) (hc : t.calls = s.calls) (hi : t.initializing = s.initializing)
    (hr : t.reserved = s.reserved) : AsyncCalls t :=
  ⟨fun ht => hc ▸ h.begun (hi ▸ ht), fun k c id hk hp => hr ▸ h.owner k c id (hc ▸ hk) hp⟩

theorem AsyncCalls.turned (h : AsyncCalls s) (hk : s.calls[k]? = some c) (phase : SubmitPhase)
    (hc : t.calls = s.calls.set k { c with phase := phase }) (hr : ∀ p ∈ s.reserved, p ∈ t.reserved)
    (hi : t.initializing = true → s.initializing = true ∧ c.phase ≠ .creating)
    (ho : ∀ id, HasId phase id → (id, c.request.terminated) ∈ t.reserved) : AsyncCalls t := by
  have hlt : k < s.calls.length := (List.getElem?_eq_some_iff.mp hk).1
  constructor
  · intro ht
    obtain ⟨hs, hne⟩ := hi ht
    obtain ⟨j, c', hj, hp⟩ := h.begun hs
    have hjk : k ≠ j := by
      rintro rfl
      rw [hk] at hj
      cases hj
      exact hne hp
    exact ⟨j, c', by rw [hc, List.getElem?_set_ne hjk]; exact hj, hp⟩
  · intro j c' id hj hp
    rw [hc] at hj
    by_cases hjk : k = j
    · subst hjk
      rw [List.getElem?_set_self hlt] at hj
      cases hj
      exact ho id hp
    · rw [List.getElem?_set_ne hjk] at hj
      exact hr _ (h.owner j c' id hj hp)

theorem AsyncCalls.added (h : AsyncCalls s) (hc : t.calls = s.calls ++ [x]) (hr : t.reserved = s.reserved)
    (hi : t.initializing = true → s.initializing = true ∨ x.phase = .creating) (hx : ∀ id, ¬HasId x.phase id) :
    AsyncCalls t := by
  constructor
  · intro ht
    rcases hi ht with hs | hp
    · obtain ⟨j, c', hj, hp⟩ := h.begun hs
      have hlt : j < s.calls.length := (List.getElem?_eq_some_iff.mp hj).1
      exact ⟨j, c', by rw [hc, List.getElem?_append_left hlt]; exact hj, hp⟩
    · exact ⟨s.calls.length, x, by rw [hc, List.getElem?_concat_length], hp⟩
  · intro j c' id hj hp
    rw [hc, List.getElem?_append] at hj
    split at hj
    · rw [hr]
      exact h.owner j c' id hj hp
    · rw [mem_singleton.mp (mem_of_getElem? hj)] at hp
      exact absurd hp (hx id)

theorem no_id {phase : SubmitPhase} (hp : phase = .creating ∨ phase = .reserving ∨ ∃ r, phase = .returned r none) :
    ∀ id, ¬HasId phase id := by
  rintro id (rfl | rfl | ⟨r, rfl⟩) <;> rcases hp with hp | hp | ⟨r', hp⟩ <;> cases hp

theorem submit_calls (h : AsyncCalls s) (request : AsyncRequest ρ) : AsyncCalls (s.submitNormalized request) := by
  unfold submitNormalized
  simp only
  split
  · exact h.added rfl rfl .inl (no_id (.inr (.inr ⟨_, rfl⟩)))
  split
  · exact h.added rfl rfl .inl (no_id (.inr (.inl rfl)))
  split
  · exact h.added rfl rfl .inl (no_id (.inr (.inr ⟨_, rfl⟩)))
  · exact h.added rfl rfl (fun _ => .inr rfl) (no_id (.inl rfl))

theorem submitTurn_calls (h : AsyncCalls s) (ok : Bool) (k : Nat) : AsyncCalls (s.submitTurn ok k) := by
  unfold submitTurn
  split
  · exact h
  rename_i c hk
  split
  · rename_i hp
    unfold created
    split
    · exact h.turned hk .reserving rfl (fun _ hx => hx) nofun fun id hx => absurd hx (no_id (.inr (.inl rfl)) id)
    · exact h.turned hk _ rfl (fun _ hx => hx) nofun fun id hx => absurd hx (no_id (.inr (.inr ⟨_, rfl⟩)) id)
  · rename_i hp
    have hne : c.phase ≠ .creating := by
      rw [hp]
      exact nofun
    unfold reserve
    split
    · exact h.turned hk _ rfl (fun _ hx => hx) (fun ht => ⟨ht, hne⟩) fun id hx =>
        absurd hx (no_id (.inr (.inr ⟨_, rfl⟩)) id)
    · refine h.turned hk (.submitting s.takeId.1) rfl (fun _ hx => mem_append_left _ hx) (fun ht => ⟨ht, hne⟩) ?_
      rintro id (hx | hx | ⟨r, hx⟩) <;> cases hx
      exact mem_append_right _ (mem_singleton.mpr rfl)
  · rename_i id hp
    have hne : c.phase ≠ .creating := by
      rw [hp]
      exact nofun
    have hown := h.owner k c id hk (.inl hp)
    unfold poolSubmit
    split
    · refine h.turned hk (.returned .ok (some id)) rfl (fun _ hx => hx) (fun ht => ⟨ht, hne⟩) ?_
      rintro id' (hx | hx | ⟨r, hx⟩) <;> cases hx
      exact hown
    · refine h.turned hk (.refused id) rfl (fun _ hx => hx) (fun ht => ⟨ht, hne⟩) ?_
      rintro id' (hx | hx | ⟨r, hx⟩) <;> cases hx
      exact hown
  · rename_i id hp
    have hne : c.phase ≠ .creating := by
      rw [hp]
      exact nofun
    unfold takeBack
    split
    · exact h.turned hk _ rfl (fun _ hx => hx) (fun ht => ⟨ht, hne⟩) fun id hx =>
        absurd hx (no_id (.inr (.inr ⟨_, rfl⟩)) id)
    · exact h.turned hk _ rfl (fun _ hx => hx) (fun ht => ⟨ht, hne⟩) fun id hx =>
        absurd hx (no_id (.inr (.inr ⟨_, rfl⟩)) id)
  · exact h

theorem step_calls (h : AsyncCalls s) (op : AsyncOp ρ ω) : AsyncCalls (asyncStep env s op) := by
  cases op with
  | submit request => exact submit_calls h request
  | submitV2 versionOk sizeOk request =>
    unfold asyncStep capyaiAsyncSubmitV2
    simp only
    split
    · exact h.added rfl rfl .inl (no_id (.inr (.inr ⟨_, rfl⟩)))
    · exact submit_calls h request
  | submitTurn ok k => exact submitTurn_calls h ok k
  | workerStart =>
    unfold asyncStep workerStart
    simp only
    split
    · exact h
    · split <;> exact h.same rfl rfl rfl
  | workerFinish k world =>
    unfold asyncStep workerFinish
    simp only
    split
    · exact h
    · split
      · split <;> exact h.same rfl rfl rfl
      · exact h.same rfl rfl rfl
  | poll id =>
    unfold asyncStep capyaiAsyncPoll
    simp only
    split
    · exact h
    split
    · exact h
    split
    · exact h
    split
    · exact h
    · exact h.same rfl rfl rfl
  | detach id =>
    unfold asyncStep capyaiAsyncDetach
    simp only
    split
    · exact h
    split
    · exact h
    split <;> exact h.same rfl rfl rfl

theorem step_reserved (op : AsyncOp ρ ω) : s.reserved.length ≤ (asyncStep env s op).reserved.length := by
  cases op with
  | submit request =>
    unfold asyncStep submitNormalized
    simp only
    split
    · exact Nat.le_refl _
    split
    · exact Nat.le_refl _
    split <;> exact Nat.le_refl _
  | submitV2 versionOk sizeOk request =>
    unfold asyncStep capyaiAsyncSubmitV2 submitNormalized
    simp only
    split
    · exact Nat.le_refl _
    split
    · exact Nat.le_refl _
    split
    · exact Nat.le_refl _
    split <;> exact Nat.le_refl _
  | submitTurn ok k =>
    unfold asyncStep submitTurn
    simp only
    split
    · exact Nat.le_refl _
    split
    · unfold created
      split <;> exact Nat.le_refl _
    · unfold reserve
      split
      · exact Nat.le_refl _
      · simp [AsyncRuntime.setPhase]
    · unfold poolSubmit
      split <;> exact Nat.le_refl _
    · unfold takeBack
      split <;> exact Nat.le_refl _
    · exact Nat.le_refl _
  | workerStart =>
    unfold asyncStep workerStart
    simp only
    split
    · exact Nat.le_refl _
    · split <;> exact Nat.le_refl _
  | workerFinish k world =>
    unfold asyncStep workerFinish
    simp only
    split
    · exact Nat.le_refl _
    · split
      · split <;> exact Nat.le_refl _
      · exact Nat.le_refl _
  | poll id =>
    unfold asyncStep capyaiAsyncPoll
    simp only
    split
    · exact Nat.le_refl _
    split
    · exact Nat.le_refl _
    split
    · exact Nat.le_refl _
    split <;> exact Nat.le_refl _
  | detach id =>
    unfold asyncStep capyaiAsyncDetach
    simp only
    split
    · exact Nat.le_refl _
    split
    · exact Nat.le_refl _
    split <;> exact Nat.le_refl _

theorem initial_slot : AsyncSlot (.initial : AsyncRuntime ρ β) := by
  have hno (j id : Nat) : ¬PoolAt ([] : List (SubmitCall ρ)) j id := by
    rintro ⟨c, hc, -⟩
    cases hc
  exact ⟨fun j id hj => absurd hj (hno j id), fun j id _ _ hj => absurd hj (hno j id), Nat.zero_le _, nofun, nofun,
    fun hi => absurd rfl hi, fun _ => rfl, nofun, Nat.zero_le _, nofun, fun _ => ⟨rfl, rfl⟩, nofun, rfl, rfl⟩

theorem initial_ledger : Ledger env (.initial : AsyncRuntime ρ β) :=
  ⟨nodup_nil, nofun, nofun, fun hi => absurd rfl hi, fun hd => hd.elim nofun nofun, nodup_nil, nofun,
    fun hi => absurd rfl hi, nofun, fun hi => absurd rfl hi⟩

theorem run_kept (h : AsyncRun env s) (hlen : s.reserved.length < 2 ^ 64) : AsyncSlot s ∧ Ledger env s ∧ AsyncCalls s := by
  induction h with
  | init => exact ⟨initial_slot, initial_ledger, nofun, nofun⟩
  | @step s op _ ih =>
    obtain ⟨hs, hl, hc⟩ := ih (Nat.lt_of_le_of_lt (step_reserved op) hlen)
    exact ⟨step_slot hs op hlen, step_ledger hl hs op hlen, step_calls hc op⟩

def submitAlone (s : AsyncRuntime ρ β) (request : AsyncRequest ρ) : AsyncRuntime ρ β :=
  (((s.submitNormalized request).submitTurn true s.calls.length).submitTurn true s.calls.length).submitTurn true
    s.calls.length

theorem submitTurn_at (hk : s.calls[k]? = some c) (ok : Bool) : s.submitTurn ok k =
    match c.phase with
    | .creating => s.created ok k c
    | .reserving => s.reserve k c
    | .submitting id => s.poolSubmit ok k c id
    | .refused id => s.takeBack k c id
    | .returned _ _ => s := by
  unfold submitTurn
  cases hp : c.phase <;> simp only [hk, hp]

/-- From a free slot a call that looks for one gets the next id. -/
theorem reserve_then_submit (hs : AsyncSlot s) (hidle : s.state = .idle) (hlen : s.reserved.length + 1 < 2 ^ 64)
    (hk : s.calls[k]? = some c) (hphase : c.phase = .reserving) :
    ((s.submitTurn true k).submitTurn true k).calls[k]? = some ⟨c.request, .returned .ok (some (s.reserved.length + 1))⟩ := by
  have hlt : k < s.calls.length := (List.getElem?_eq_some_iff.mp hk).1
  have hfirst : s.submitTurn true k = s.reserve k c := by
    rw [submitTurn_at hk, hphase]
  have hcall : (s.reserve k c).calls[k]? = some ⟨c.request, .submitting (s.reserved.length + 1)⟩ := by
    unfold reserve
    rw [if_neg (not_not.mpr hidle), takeId_next hs hlen]
    exact List.getElem?_set_self hlt
  have hsecond := submitTurn_at hcall true
  rw [hfirst, hsecond]
  exact List.getElem?_set_self (List.getElem?_eq_some_iff.mp hcall).1

theorem idle_accepts (hs : AsyncSlot s) (hc : AsyncCalls s) (hidle : s.state = .idle)
    (hback : ∀ c ∈ s.calls, ∃ r id, c.phase = .returned r id) (hlen : s.reserved.length + 1 < 2 ^ 64)
    (request : AsyncRequest ρ) (hreq : request.intent.head? ≠ some 0) :
    (submitAlone s request).calls[s.calls.length]? = some ⟨request, .returned .ok (some (s.reserved.length + 1))⟩ := by
  have hnot : s.initializing = false := by
    by_contra hi
    obtain ⟨k, c, hk, hp⟩ := hc.begun (by simpa using hi)
    obtain ⟨r, id, hr⟩ := hback c (mem_of_getElem? hk)
    rw [hp] at hr
    cases hr
  unfold submitAlone
  by_cases hinit : s.initialized = true
  · have hsub : s.submitNormalized request = { s with calls := s.calls ++ [⟨request, .reserving⟩] } := by
      unfold submitNormalized
      simp only
      rw [if_neg hreq, if_pos hinit]
    have hadd := @AsyncSlot.addCall ρ β s ⟨request, .reserving⟩ hs (fun _ => ⟨nofun, nofun⟩) fun _ => hinit
    have hdone := reserve_then_submit hadd hidle hlen (List.getElem?_concat_length) rfl
    rw [hsub, submitTurn_at hdone]
    exact hdone
  · have hsub := submit_slot hs request
    have hform : s.submitNormalized request =
        { s with initializing := true, state := .idle, nextJobId := if s.nextJobId = 0 then 1 else s.nextJobId, calls := s.calls ++ [⟨request, .creating⟩] } := by
      unfold submitNormalized
      simp only
      rw [if_neg hreq, if_neg hinit, if_neg (by simp [hnot])]
    have hk : (s.submitNormalized request).calls[s.calls.length]? = some ⟨request, .creating⟩ := by
      rw [hform]
      exact List.getElem?_concat_length
    have hcr := created_slot hsub true hk rfl
    have hturn := submitTurn_at hk true
    simp only at hturn
    rw [hturn]
    have hk' : ((s.submitNormalized request).created true s.calls.length ⟨request, .creating⟩).calls[s.calls.length]? =
        some ⟨request, .reserving⟩ :=
      List.getElem?_set_self (List.getElem?_eq_some_iff.mp hk).1
    have hidle' : ((s.submitNormalized request).created true s.calls.length ⟨request, .creating⟩).state = .idle := by
      rw [hform]
      rfl
    have hres : ((s.submitNormalized request).created true s.calls.length ⟨request, .creating⟩).reserved = s.reserved := by
      rw [hform]
      rfl
    have hdone := reserve_then_submit hcr hidle' (hres.symm ▸ hlen) hk' rfl
    rw [hres] at hdone
    exact hdone

def Quiet (s : AsyncRuntime ρ β) : Prop :=
  s.entries = 0 ∧ s.workers = [] ∧ ∀ c ∈ s.calls, ∃ r id, c.phase = .returned r id

theorem quiet_state (hs : AsyncSlot s) (hq : Quiet s) : s.state = .idle ∨ s.state = .done ∨ s.state = .failed := by
  obtain ⟨hzero, hwork, hback⟩ := hq
  cases hst : s.state with
  | idle => exact .inl rfl
  | done => exact .inr (.inl rfl)
  | failed => exact .inr (.inr rfl)
  | running => exact absurd hwork (hs.running hst)
  | queued =>
    obtain ⟨k, id, c, hk, hp⟩ := hs.handed hst hzero
    obtain ⟨r, id', hr⟩ := hback c (mem_of_getElem? hk)
    rw [hr] at hp
    rcases hp with hp | hp <;> cases hp

/-- What clients can rely on. -/
structure JobsServed (env : AsyncEnv ρ β ω) (s : AsyncRuntime ρ β) : Prop where
  /-- One job at most is with the pool or a worker. -/
  oneAtWork : s.entries + s.workers.length ≤ 1 ∧
    ∀ k id, PoolAt s.calls k id → s.entries + s.workers.length = 0 ∧ ∀ k' id', PoolAt s.calls k' id' → k' = k
  executedOnce : s.executed.Nodup
  /-- An id is the id of one request, the one its call was made with. -/
  ids : (s.reserved.map Prod.fst).Nodup ∧ ∀ (k : Nat) (c : SubmitCall ρ) (id : Nat) (r : AsyncResult),
    s.calls[k]? = some c → c.phase = .returned r (some id) → (id, c.request.terminated) ∈ s.reserved
  /-- A poll that returns 1 gives out the response, -/
  pollGives : ∀ id, (s.capyaiAsyncPoll id).1 = .inl 1 → ∃ r, s.response = some r ∧
    (s.capyaiAsyncPoll id).2.delivered = s.delivered ++ [(id, r)]
  /-- once for an id, computed from the id's request, -/
  deliveredOnce : (s.delivered.map Prod.fst).Nodup ∧ ∀ p ∈ s.delivered, ∃ req world, (p.1, req) ∈ s.reserved ∧
    p.2 = respond env ⟨p.1, req⟩ world
  /-- and not for a job that was detached before its end. -/
  droppedNever : ∀ id ∈ s.dropped, id ∉ s.delivered.map Prod.fst
  /-- When all is quiet, a finished job that is polled or detached leaves the slot free, -/
  freed : Quiet s → s.state ≠ .idle →
    (s.capyaiAsyncPoll s.currentJobId).2.state = .idle ∧ (s.capyaiAsyncDetach s.currentJobId).2.state = .idle
  /-- and a free slot is given to the next submission. -/
  accepts : Quiet s → s.state = .idle → s.reserved.length + 1 < 2 ^ 64 → ∀ request : AsyncRequest ρ,
    request.intent.head? ≠ some 0 →
    (submitAlone s request).calls[s.calls.length]? = some ⟨request, .returned .ok (some (s.reserved.length + 1))⟩

theorem poll_gives (hl : Ledger env s) (id : Nat) (h : (s.capyaiAsyncPoll id).1 = .inl 1) :
    ∃ r, s.response = some r ∧ (s.capyaiAsyncPoll id).2.delivered = s.delivered ++ [(id, r)] := by
  unfold capyaiAsyncPoll at h ⊢
  split at h
  · cases h
  split at h
  · cases h
  split at h
  · cases h
  split at h
  · cases h
  rename_i hzero hid hwork hend
  have hdone : s.state = .done ∨ s.state = .failed := by
    by_contra hd
    rw [not_or] at hd
    exact hend hd
  obtain ⟨req, world, -, hresp⟩ := hl.answered hdone
  rw [if_neg hzero, if_neg hid, if_neg hwork, if_neg hend]
  exact ⟨_, hresp, by rw [hresp]; rfl⟩

theorem quiet_freed (hs : AsyncSlot s) (hq : Quiet s) (hni : s.state ≠ .idle) :
    (s.capyaiAsyncPoll s.currentJobId).2.state = .idle ∧ (s.capyaiAsyncDetach s.currentJobId).2.state = .idle := by
  have hdone := (quiet_state hs hq).resolve_left hni
  have hzero : s.currentJobId ≠ 0 := by
    obtain ⟨req, -, hmem⟩ := hs.held hni
    have hm := mem_map_of_mem (f := Prod.fst) hmem
    rw [hs.numbered, mem_range'_1] at hm
    omega
  have hwork : ¬(s.state = .queued ∨ s.state = .running) := by
    rcases hdone with hd | hd <;> rw [hd] <;> exact fun hx => hx.elim nofun nofun
  have hend : ¬(s.state ≠ .done ∧ s.state ≠ .failed) := fun hx => hdone.elim hx.1 hx.2
  constructor
  · unfold capyaiAsyncPoll
    rw [if_neg hzero, if_neg (not_not.mpr rfl), if_neg hwork, if_neg hend]
    rfl
  · unfold capyaiAsyncDetach
    rw [if_neg hzero, if_neg (not_not.mpr rfl), if_pos hdone]
    rfl

theorem pool_workers (hs : AsyncSlot s) (hp : PoolAt s.calls k id) : s.entries + s.workers.length = 0 := by
  obtain ⟨hq, -, hzero⟩ := hs.pool k id hp
  rw [hzero, idle_workers hs (by rw [hq]; exact nofun)]
  rfl

/-- In every interleaving each accepted job is run and answered once and by its own
submitter, and a runtime that comes to rest accepts the next request. -/
theorem jobs_served {s : AsyncRuntime ρ β} {env : AsyncEnv ρ β ω} (h : AsyncRun env s)
    (hlen : s.reserved.length < 2 ^ 64) : JobsServed env s := by
  obtain ⟨hs, hl, hc⟩ := run_kept h hlen
  refine ⟨⟨?_, fun k id hp => ⟨pool_workers hs hp, fun k' id' hp' => hs.alone k' id' k id hp' hp⟩⟩, hl.once,
    ⟨reserved_nodup hs, fun k c id r hk hp => hc.owner k c id hk (.inr (.inr ⟨r, hp⟩))⟩, poll_gives hl,
    ⟨hl.single, fun p hp => (hl.own p hp).2.2⟩, fun id hd hx => ?_, quiet_freed hs,
    fun hq hi hlt request hreq => idle_accepts hs hc hi hq.2.2 hlt request hreq⟩
  · by_cases he : s.entries = 0
    · rw [he, Nat.zero_add]
      exact hs.single
    · rw [idle_workers hs (by rw [hs.entry he]; exact nofun)]
      exact hs.few
  · obtain ⟨p, hp, rfl⟩ := mem_map.mp hx
    exact (hl.own p hp).2.1 hd

def oneJob : List (AsyncOp Unit Unit) :=
  [.submit ⟨[97], 7, ()⟩, .submitTurn true 0, .submitTurn true 0, .submitTurn true 0, .workerStart, .workerFinish 0 (), .poll 1]

def plainAsync : AsyncEnv Unit Unit Unit := ⟨fun _ _ => (false, ())⟩

theorem asyncRun_foldl (ops : List (AsyncOp ρ ω)) (h : AsyncRun env s) : AsyncRun env (ops.foldl (asyncStep env) s) := by
  induction ops generalizing s with
  | nil => exact h
  | cons op ops ih => exact ih (.step op h)

theorem jobs_served_one : JobsServed plainAsync (oneJob.foldl (asyncStep plainAsync) .initial) ∧
    (oneJob.foldl (asyncStep plainAsync) .initial).delivered = [(1, ⟨1, 7, false, ()⟩)] :=
  ⟨jobs_served (asyncRun_foldl oneJob .init) (by decide), rfl⟩

/-- A client that meets another one between its reservation and the pool is told that the
runtime is busy, though no worker is at work or to come and no job has ended. -/
theorem reserved_slot_busy : ∃ s : AsyncRuntime Unit Unit, AsyncRun plainAsync s ∧ s.entries = 0 ∧ s.workers = [] ∧
    s.executed = [] ∧ s.state ≠ .done ∧ s.state ≠ .failed ∧
    (submitAlone s ⟨[97], 7, ()⟩).calls[s.calls.length]? = some ⟨⟨[97], 7, ()⟩, .returned .errBusy none⟩ := by
  refine ⟨_, asyncRun_foldl [.submit ⟨[97], 7, ()⟩, .submitTurn true 0, .submitTurn true 0] .init, rfl, rfl, rfl, nofun, nofun,
    rfl⟩

end CapyOS.Proofs
