import CapyOS.Kernel.Worker
import CapyOS.Lib.Ring

namespace CapyOS.Proofs
open Lib List
variable {ok : WorkerPool → WorkerOp → Prop} {ops : List WorkerOp} {n : Nat}

/-- The queue is what was accepted and is not yet started, and a job in it finds every
thread awake or about to be woken. -/
structure PoolSound (s : WorkerPool) : Prop where
  room : s.count ≤ workerQueueMax
  head : s.head = cell s.tail s.count
  queued : s.accepted = s.started ++ held s.queue s.tail s.count
  tickets : s.accepted.map WorkerItem.ticket = List.range s.accepted.length
  awake : s.waking = 0 → 0 < s.count → ∀ w ∈ s.workers, w.blocked = false

structure Attended (s : WorkerPool) : Prop where
  staffed : s.workers ≠ []
  present : s.running = true → ∀ w ∈ s.workers, w.phase ≠ .left
  closed : s.running = false → s.count = 0

section
variable {s : WorkerPool}

theorem create_sound (n : Nat) : PoolSound (.create n) := by
  refine ⟨Nat.zero_le _, (cell_zero _).symm, rfl, rfl, ?_⟩
  intro _ hc
  exact absurd hc (by simp [WorkerPool.create])

theorem create_attended (n : Nat) : Attended (.create n) := by
  constructor
  · intro h
    have hl := congrArg List.length h
    simp only [WorkerPool.create, length_replicate, length_nil, workerPoolThreadMax] at hl
    omega
  · intro _ w hw
    rw [eq_of_mem_replicate hw]
    exact (nomatch ·)
  · intro h
    exact absurd h (by simp [WorkerPool.create])

/-- A call returns 0 exactly when it leaves its job in the queue. -/
theorem submit_cases (func arg : Nat) :
    (s.submit func arg = (-1, s) ∧ (func = 0 ∨ workerQueueMax ≤ s.count)) ∨
    (func ≠ 0 ∧ s.count < workerQueueMax ∧ s.submit func arg = (0, { s with
      queue := Function.update s.queue s.head ⟨func, arg, s.accepted.length⟩
      head := s.head + 1
      count := s.count + 1
      waking := s.waking + 1
      accepted := s.accepted ++ [⟨func, arg, s.accepted.length⟩] })) := by
  unfold WorkerPool.submit
  split
  · rename_i hf
    exact .inl ⟨rfl, .inl hf⟩
  · rename_i hf
    split
    · rename_i hc
      exact .inl ⟨rfl, .inr hc⟩
    · rename_i hc
      exact .inr ⟨hf, by omega, rfl⟩

theorem PoolSound.submit (h : PoolSound s) (func arg : Nat) : PoolSound (s.submit func arg).2 := by
  obtain ⟨he, _⟩ | ⟨_, hc, he⟩ := submit_cases (s := s) func arg
  · rw [he]
    exact h
  · rw [he]
    refine ⟨hc, ?_, ?_, ?_, ?_⟩
    · rw [cell_succ, ← h.head]
    · change s.accepted ++ _ = s.started ++ held (Function.update s.queue s.head _) s.tail (s.count + 1)
      rw [h.head, held_push _ _ hc, ← append_assoc, ← h.queued]
    · simp only [map_append, length_append, range_add, h.tickets]
      rfl
    · intro hw
      exact absurd hw (Nat.succ_ne_zero _)

theorem PoolSound.unblockChannel (h : PoolSound s) : PoolSound s.unblockChannel := by
  unfold WorkerPool.unblockChannel
  split
  · exact h
  · refine ⟨h.room, h.head, h.queued, h.tickets, ?_⟩
    intro _ _ w hw
    obtain ⟨v, _, rfl⟩ := List.mem_map.mp hw
    rfl

theorem forall_set {P : Worker → Prop} {ws : List Worker} (h : ∀ w ∈ ws, P w) {i : Nat} {w' : Worker}
    (hw : P w') : ∀ w ∈ ws.set i w', P w := by
  intro w hm
  cases mem_or_eq_of_mem_set hm with
  | inl hm => exact h w hm
  | inr he => exact he ▸ hw

theorem PoolSound.checkQueue (h : PoolSound s) (i : Nat) {w : Worker} (hw : w ∈ s.workers) : PoolSound (s.checkQueue i w) := by
  unfold WorkerPool.checkQueue
  split
  · exact { h with awake := fun hk hc => forall_set (h.awake hk hc) (h.awake hk hc w hw) }
  · split
    · rename_i hc
      exact ⟨h.room, h.head, h.queued, h.tickets, fun _ hp => absurd hp (by simp [hc])⟩
    · rename_i hc
      obtain ⟨k, hk⟩ := Nat.exists_eq_succ_of_ne_zero hc
      have hroom := h.room
      have hhead := h.head
      have hqueued := h.queued
      simp only [hk, Nat.succ_eq_add_one] at hroom hhead hqueued
      refine ⟨?_, ?_, ?_, h.tickets, ?_⟩
      · simp only [hk]
        omega
      · simp only [hk, Nat.succ_eq_add_one, Nat.add_sub_cancel]
        rw [cell_next, ← hhead]
      · simp only [hk, Nat.succ_eq_add_one, Nat.add_sub_cancel]
        rw [hqueued, held_pop, append_assoc, singleton_append]
      · intro hz _
        have hp : 0 < s.count := by omega
        exact forall_set (h.awake hz hp) (h.awake hz hp w hw)

theorem PoolSound.thread (h : PoolSound s) (i : Nat) : PoolSound (s.workerThreadStep i) := by
  unfold WorkerPool.workerThreadStep
  cases hw : s.workers[i]? with
  | none => exact h
  | some w =>
    obtain ⟨phase, blocked⟩ := w
    have hm := mem_of_getElem? hw
    have kept (hk : s.waking = 0) (hc : 0 < s.count) (p : WorkerPhase) :
        ∀ w ∈ s.workers.set i ⟨p, blocked⟩, w.blocked = false :=
      forall_set (h.awake hk hc) (h.awake hk hc ⟨phase, blocked⟩ hm)
    cases phase with
    | check => exact h.checkQueue i hm
    | parked => exact { h with awake := fun hk hc => kept hk hc .check }
    | running item => exact { h with awake := fun hk hc => kept hk hc .finishing }
    | finishing => exact { h with awake := fun hk hc => kept hk hc .check }
    | left => exact h

theorem PoolSound.step (h : PoolSound s) (op : WorkerOp) : PoolSound (workerStep s op) := by
  cases op with
  | submit func arg => exact h.submit func arg
  | shutdown => exact { h with awake := fun hk => absurd hk (Nat.succ_ne_zero _) }
  | unblockChannel => exact h.unblockChannel
  | thread i => exact h.thread i
  | drain => exact h

theorem workerRun_sound
    (h : WorkerRun ok n ops s) : PoolSound s := by
  induction h with
  | create => exact create_sound n
  | step _ _ ih => exact ih.step _

theorem Attended.checkQueue (h : Attended s) (i : Nat) (w : Worker) : Attended (s.checkQueue i w) := by
  have staffed (v : Worker) : s.workers.set i v ≠ [] := by simpa using h.staffed
  unfold WorkerPool.checkQueue
  split
  · rename_i hr
    have hr : s.running = false := by simpa using hr
    exact ⟨staffed _, fun ht => absurd ht (by simp [hr]), h.closed⟩
  · rename_i hr
    have hr : s.running = true := by simpa using hr
    split
    · exact ⟨staffed _, fun ht => forall_set (h.present ht) (nomatch ·), h.closed⟩
    · exact ⟨staffed _, fun ht => forall_set (h.present ht) (nomatch ·), fun hf => absurd hf (by simp [hr])⟩

theorem Attended.thread (h : Attended s) (i : Nat) : Attended (s.workerThreadStep i) := by
  have staffed (v : Worker) : s.workers.set i v ≠ [] := by simpa using h.staffed
  unfold WorkerPool.workerThreadStep
  cases s.workers[i]? with
  | none => exact h
  | some w =>
    obtain ⟨phase, blocked⟩ := w
    cases phase with
    | check => exact h.checkQueue i _
    | parked => exact ⟨staffed _, fun ht => forall_set (h.present ht) (nomatch ·), h.closed⟩
    | running item => exact ⟨staffed _, fun ht => forall_set (h.present ht) (nomatch ·), h.closed⟩
    | finishing => exact ⟨staffed _, fun ht => forall_set (h.present ht) (nomatch ·), h.closed⟩
    | left => exact h

theorem Attended.step (h : Attended s) {op : WorkerOp} (hok : ShutDownEmpty s op) : Attended (workerStep s op) := by
  cases op with
  | submit func arg =>
    obtain ⟨he, _⟩ | ⟨hf, _, he⟩ := submit_cases (s := s) func arg
    · rw [workerStep, he]
      exact h
    · rw [workerStep, he]
      exact ⟨h.staffed, h.present, fun hr => absurd (hok hf) (by simp [show s.running = false from hr])⟩
  | shutdown => exact ⟨h.staffed, (nomatch ·), fun _ => hok⟩
  | unblockChannel =>
    rw [workerStep, WorkerPool.unblockChannel]
    split
    · exact h
    · refine ⟨by simpa using h.staffed, ?_, h.closed⟩
      intro hr w hw
      obtain ⟨v, hv, rfl⟩ := List.mem_map.mp hw
      exact h.present hr v hv
  | thread i => exact h.thread i
  | drain => exact h

theorem workerRun_attended
    (hok : ∀ s op, ok s op → ShutDownEmpty s op) (h : WorkerRun ok n ops s) : Attended s := by
  induction h with
  | create => exact create_attended n
  | step _ ho ih => exact ih.step (hok _ _ ho)

theorem PoolSound.not_stranded (h : PoolSound s) (ha : Attended s) : ¬ s.Stranded := by
  intro ⟨hc, hk, hw⟩
  cases hr : s.running with
  | false => exact absurd (ha.closed hr) (by omega)
  | true =>
    obtain ⟨w, hm⟩ := exists_mem_of_ne_nil s.workers ha.staffed
    cases hw w hm with
    | inl hb => exact absurd hb (by simp [h.awake hk hc w hm])
    | inr hp => exact ha.present hr w hm hp

end

/-- In every run of a pool, jobs start in the order in which they were accepted, each at most
once; and if the pool is shut down empty and given no job from then on, none is stranded. -/
theorem worker_jobs_run_once {ok : WorkerPool → WorkerOp → Prop} {n : Nat} {ops : List WorkerOp}
    {s : WorkerPool} (h : WorkerRun ok n ops s) :
    (∀ func arg, (s.submit func arg).1 = 0 ↔
      (s.submit func arg).2.accepted = s.accepted ++ [⟨func, arg, s.accepted.length⟩]) ∧
    s.accepted.map WorkerItem.ticket = List.range s.accepted.length ∧
    s.started <+: s.accepted ∧ s.started.Nodup ∧
    ((∀ s op, ok s op → ShutDownEmpty s op) → ¬ s.Stranded) := by
  have hs := workerRun_sound h
  have hprefix : s.started <+: s.accepted := ⟨_, hs.queued.symm⟩
  refine ⟨?_, hs.tickets, hprefix, ?_, fun hok => hs.not_stranded (workerRun_attended hok h)⟩
  · intro func arg
    obtain ⟨he, _⟩ | ⟨_, _, he⟩ := submit_cases (s := s) func arg
    · rw [he]
      simp
    · rw [he]
      simp
  · have hn : s.accepted.Nodup := by
      apply List.Nodup.of_map WorkerItem.ticket
      rw [hs.tickets]
      exact nodup_range
    exact hn.sublist hprefix.sublist

theorem worker_jobs_run_once_two : ∃ s, WorkerRun ShutDownEmpty 1
    [.submit 1 7, .unblockChannel, .submit 2 8, .unblockChannel, .thread 0] s ∧
      s.started.Nodup ∧ ¬ s.Stranded ∧ s.started = [⟨1, 7, 0⟩] := by
  have h : WorkerRun ShutDownEmpty 1
      [.submit 1 7, .unblockChannel, .submit 2 8, .unblockChannel, .thread 0] _ :=
    ((((WorkerRun.create.step (fun _ => rfl)).step trivial).step (fun _ => rfl)).step trivial).step trivial
  obtain ⟨_, _, _, honce, hleft⟩ := worker_jobs_run_once h
  exact ⟨_, h, honce, hleft fun _ _ ho => ho, rfl⟩

/-- A job that is queued when the pool is shut down is never run: the thread leaves first. -/
theorem worker_shutdown_strands : ∃ s, WorkerRun (fun _ _ => True) 1
    [.submit 1 7, .unblockChannel, .shutdown, .unblockChannel, .thread 0] s ∧
      s.Stranded ∧ s.accepted = [⟨1, 7, 0⟩] ∧ s.started = [] ∧ ¬ s.Drained ∧
      (s.submit 2 8).1 = 0 := by
  have h : WorkerRun (fun _ _ => True) 1
      [.submit 1 7, .unblockChannel, .shutdown, .unblockChannel, .thread 0] _ :=
    ((((WorkerRun.create.step trivial).step trivial).step trivial).step trivial).step trivial
  exact ⟨_, h, by decide, rfl, rfl, by decide, rfl⟩

end CapyOS.Proofs
