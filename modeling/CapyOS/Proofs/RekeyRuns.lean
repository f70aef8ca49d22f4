import CapyOS.Proofs.RekeySteps

namespace CapyOS.Proofs
open Lib Function

section
variable {K : Type} {env : VolumeEnv K} {count : Nat} {key : K} {blocks : Nat → Bytes}

theorem scratchParse_nonzero {scratch : Bytes} {s : RekeyScratch} (h : scratchParse scratch = some s) :
    bytesZero scratch 0 4096 = false := by
  simp only [scratchParse, Option.bind_eq_bind] at h
  obtain ⟨c, hc, -⟩ := Option.bind_eq_some_iff.mp h
  exact checkpoint_nonzero hc

/-- The driver accepts the scratch block of a rekey under way. -/
theorem orchScratch_progress (h : ReadyCount env count) {n : Nat} (hn : n ≤ count) {scratch : Bytes}
    (hs : Staged env count (progressCheckpoint env count n) key scratch) :
    ∃ s, orchScratch (legacyPlan env count) scratch = some s ∧ s.checkpoint = progressCheckpoint env count n ∧
      volumeHeaderDeriveKeys env.crypto s.header = some key := by
  obtain ⟨m, hm⟩ := hs
  have htarget : (legacyPlan env count).targetFirstLba = 1 := by rw [legacyPlan_ready h]
  have hoff : stageOffsetsValid m = true := by
    have hv := (stageManifestParse_some hm.manifest).1
    simp only [stageManifestValid, Bool.and_eq_true] at hv
    exact hv.1.1.1.2
  refine ⟨⟨progressCheckpoint env count n, m, window scratch stageHeaderOffset⟩, ?_, rfl, hm.keys⟩
  simp only [orchScratch, hm.parse, Option.bind_eq_bind, Option.bind_some, hoff,
    planMatches_progress h, hm.planned, hm.algo, hm.offset, htarget, (progress_phases env count n).1,
    progress_completed, progress_total, beq_self_eq_true, Bool.and_true, Bool.true_and]
  exact if_pos (decide_eq_true hn)

theorem orchScratch_zero {plan : RekeyPlan} {scratch : Bytes} (hz : bytesZero scratch 0 4096 = true) :
    orchScratch plan scratch = none := by
  cases hp : scratchParse scratch with
  | none => simp only [orchScratch, hp, Option.bind_eq_bind, Option.bind_none]
  | some s => exact absurd hz (by rw [scratchParse_nonzero hp]; exact Bool.false_ne_true)

variable {salt : Fin 16 → Byte} {abort : Bool}

theorem orchestrated_idle (h : PlannedBlock env count (blocks 0))
    (hs : orchScratch (legacyPlan env count) (blocks (count + 1)) = none) : rekeyOrchestratedStep env abort salt blocks =
      if bytesZero (blocks (count + 1)) 0 4096 then
        if abort then .report .cleanupScratchNotNeeded else rekeyStageHeader env salt blocks
      else .report .orchestrateBuildFailed := by
  simp only [rekeyOrchestratedStep, h.legacy, Bool.false_eq_true, if_false, withReadyPlan_planned h,
    scratchLba_ready h.ready, hs]

theorem orchestrated_progress (h : PlannedBlock env count (blocks 0)) {n : Nat} (hn : n ≤ count)
    (hs : Staged env count (progressCheckpoint env count n) key (blocks (count + 1))) :
    rekeyOrchestratedStep env abort salt blocks =
      if abort then rekeyRollbackStep env blocks
      else if n < count then rekeyCopyStep env blocks
      else rekeyCommitHeader env blocks := by
  obtain ⟨s, hscratch, hc, -⟩ := orchScratch_progress h.ready hn hs
  simp only [rekeyOrchestratedStep, h.legacy, Bool.false_eq_true, if_false, withReadyPlan_planned h,
    scratchLba_ready h.ready, hs.nonzero, hscratch, hc, progress_flags, beq_self_eq_true,
    (progress_phases env count n).2, Bool.and_true, Bool.not_true, progress_completed, progress_total]

theorem orchestrated_committed (h : volumeHeaderLooksValid (blocks 0) = true) :
    rekeyOrchestratedStep env abort salt blocks = rekeyCleanupScratch env blocks := by
  simp only [rekeyOrchestratedStep, h, if_true]

theorem orchestrated_unplanned (hl : volumeHeaderLooksValid (blocks 0) = false)
    (hp : ∀ count, ¬ PlannedBlock env count (blocks 0)) : (rekeyOrchestratedStep env abort salt blocks).writes = [] := by
  have hblocked : ∀ act, withReadyPlan env blocks act = ⟨[], none⟩ ∨
      ∃ status, withReadyPlan env blocks act = .report status := by
    intro act
    simp only [withReadyPlan, rekeyPlan, rekeyPreflight, hl, Bool.false_eq_true, if_false]
    by_cases htwo : env.blockCount < 2
    · exact .inl (by simp only [htwo, if_true])
    · by_cases hsuper : capyfsSuperValid (env.crypto.decrypt env.legacyKey 0 (blocks 0))
        (fun n => decide (n ≤ env.blockCount)) = true
      · simp only [htwo, if_false, hsuper, if_true]
        generalize hcount : load (env.crypto.decrypt env.legacyKey 0 (blocks 0)) 12 4 = count
        by_cases hz : count = 0
        · exact .inl (by simp only [hz, if_true])
        · have hroom : ¬ count + 1 < env.blockCount :=
            fun hr => hp count ⟨hl, hsuper, hcount, Nat.pos_of_ne_zero hz, hr⟩
          have hstatus : (legacyPlan env count).status ≠ .ready ∧
              (legacyPlan env count).status ≠ .alreadyHeaderManaged := by
            have hfull : count ≥ env.blockCount - 1 := by omega
            simp only [legacyPlan, hfull, if_true]
            split <;> exact ⟨(fun he => by cases he), fun he => by cases he⟩
          refine .inr ⟨.blockedByPlan, ?_⟩
          simp only [hz, if_false, hstatus.2, hstatus.1, ne_eq, not_false_eq_true, true_or, if_true]
      · exact .inl (by simp only [htwo, if_false, hsuper, Bool.false_eq_true])
  simp only [rekeyOrchestratedStep, hl, Bool.false_eq_true, if_false]
  rcases hblocked _ with h | ⟨status, h⟩
  · rw [h]
  · rw [h]
    rfl

end

/-- What the caller of a step asks for. -/
inductive RekeyDirection
  | forward
  | abort
deriving DecidableEq

section
variable {K : Type} (env : VolumeEnv K)

/-- The block writes of one orchestrated step. -/
def stepWrites (dir : RekeyDirection) (salt : Fin 16 → Byte) (blocks : Nat → Bytes) :
    List (Nat × Bytes) :=
  (rekeyOrchestratedStep env (dir == .abort) salt blocks).writes

/-- The blocks after the first `n` writes of a step: a crash when writes are left. -/
def stepCut (dir : RekeyDirection) (salt : Fin 16 → Byte) (n : Nat) (blocks : Nat → Bytes) :
    Nat → Bytes :=
  applyWrites blocks ((stepWrites env dir salt blocks).take n)

/-- The file system's blocks as a legacy volume holds them. -/
def plainBlock (start : Nat → Bytes) (k : Nat) : Bytes :=
  env.crypto.decrypt env.legacyKey k (start k)

/-- The block count in the superblock of a legacy volume. -/
def legacyBlockCount (start : Nat → Bytes) : Nat := load (plainBlock env start 0) 12 4

/-- The scratch block a step would go by. -/
def currentScratch (blocks : Nat → Bytes) : Option RekeyScratch :=
  match rekeyPlan env blocks with
  | none => none
  | some plan =>
    if plan.status = .ready then orchScratch plan (blocks plan.scratchFirstLba) else none

/-- A legacy volume on which no rekey was begun. -/
def NotStarted (start : Nat → Bytes) : Prop :=
  volumeHeaderLooksValid (start 0) = false ∧ currentScratch env start = none

/-- Block `k` reads as `p` where a step in the given direction takes it to be: behind
the header once there is one, else where the checkpoint says. A step forward
counts block `total - completed` as moved, a rollback as still in its place. -/
inductive ReadAt (dir : RekeyDirection) (blocks : Nat → Bytes) (k : Nat) (p : Bytes) : Prop
  | opened {dev : CryptDevice K} (header : volumeHeaderLooksValid (blocks 0) = true)
      (opens : volumeProviderOpen env blocks = some dev)
      (read : dev.read env.crypto blocks k = some p)
  | untouched (header : volumeHeaderLooksValid (blocks 0) = false)
      (scratch : currentScratch env blocks = none)
      (legacy : env.crypto.decrypt env.legacyKey k (blocks k) = p)
  | legacy {s : RekeyScratch} (header : volumeHeaderLooksValid (blocks 0) = false)
      (scratch : currentScratch env blocks = some s)
      (side : k < s.checkpoint.blocksTotal - s.checkpoint.blocksCompleted ∨
        (dir = .abort ∧ k = s.checkpoint.blocksTotal - s.checkpoint.blocksCompleted))
      (legacy : env.crypto.decrypt env.legacyKey k (blocks k) = p)
  | target {s : RekeyScratch} {key : K} (header : volumeHeaderLooksValid (blocks 0) = false)
      (scratch : currentScratch env blocks = some s)
      (side : ¬ (k < s.checkpoint.blocksTotal - s.checkpoint.blocksCompleted ∨
        (dir = .abort ∧ k = s.checkpoint.blocksTotal - s.checkpoint.blocksCompleted)))
      (keys : volumeHeaderDeriveKeys env.crypto s.header = some key)
      (target : env.crypto.decrypt key k (blocks (k + 1)) = p)

/-- A step that moves a block was cut off between the block and its checkpoint. The
commit does not count, nor does the copy of the last block of the file system:
it goes to a block no legacy block is lost by. -/
def moveInterrupted : List (Nat × Bytes) → Nat → Bool
  | [data, checkpoint], 1 => data.1 != 0 && data.1 + 1 != checkpoint.1
  | _, _ => false

/-- The direction of an interrupted move that was not made good yet. -/
def pendingAfter (dir : RekeyDirection) (writes : List (Nat × Bytes)) (n : Nat)
    (pending : Option RekeyDirection) : Option RekeyDirection :=
  if writes.take n = [] then pending
  else if moveInterrupted writes n then some dir else none

/-- Runs with steps in both directions and crashes after any write, in which an
interrupted move is followed by steps of its own direction until it is made good. -/
inductive RekeyRun (start : Nat → Bytes) : (Nat → Bytes) → Option RekeyDirection → Prop
  | start : RekeyRun start start none
  | step {blocks : Nat → Bytes} {pending : Option RekeyDirection} (dir : RekeyDirection)
      (salt : Fin 16 → Byte) (n : Nat) (run : RekeyRun start blocks pending)
      (agree : pending = none ∨ pending = some dir) :
      RekeyRun start (stepCut env dir salt n blocks)
        (pendingAfter dir (stepWrites env dir salt blocks) n pending)

/-- Runs without aborts: steps forward and crashes after any write. -/
inductive ForwardRun (start : Nat → Bytes) : (Nat → Bytes) → Prop
  | start : ForwardRun start start
  | step {blocks : Nat → Bytes} (salt : Fin 16 → Byte) (n : Nat) (run : ForwardRun start blocks) :
      ForwardRun start (stepCut env .forward salt n blocks)

end

variable {K : Type} {env : VolumeEnv K} {start blocks : Nat → Bytes} {count t : Nat} {key : K}

/-- The file system split at block `t`: up to it in the legacy domain, from it on in
the managed one. -/
structure SplitAt (env : VolumeEnv K) (start : Nat → Bytes) (count : Nat) (key : K) (t : Nat)
    (blocks : Nat → Bytes) : Prop where
  legacy : ∀ k, k < count → k ≤ t →
    env.crypto.decrypt env.legacyKey k (blocks k) = plainBlock env start k
  target : ∀ k, k < count → t ≤ k → env.crypto.decrypt key k (blocks (k + 1)) = plainBlock env start k

/-- A rekey under way: its checkpoint is at `m` blocks, its blocks are split at `t`. -/
structure Underway (env : VolumeEnv K) (start : Nat → Bytes) (count m t : Nat) (key : K)
    (blocks : Nat → Bytes) : Prop where
  first : blocks 0 = start 0
  staged : Staged env count (progressCheckpoint env count m) key (blocks (count + 1))
  moved : SplitAt env start count key t blocks

structure Switched (env : VolumeEnv K) (start : Nat → Bytes) (count : Nat) (key : K)
    (blocks : Nat → Bytes) : Prop where
  header : CommittedBlock env key (blocks 0)
  target : ∀ k, k < count → env.crypto.decrypt key k (blocks (k + 1)) = plainBlock env start k

/-- Where a rekey stands, with the direction an interrupted move binds it to. -/
inductive RekeyPhase (env : VolumeEnv K) (start : Nat → Bytes) (count : Nat) :
    (Nat → Bytes) → Option RekeyDirection → Prop
  | idle {blocks : Nat → Bytes} (first : blocks 0 = start 0)
      (scratch : orchScratch (legacyPlan env count) (blocks (count + 1)) = none)
      (legacy : ∀ k, k < count →
        env.crypto.decrypt env.legacyKey k (blocks k) = plainBlock env start k) :
      RekeyPhase env start count blocks none
  | moving {blocks : Nat → Bytes} {m t : Nat} {key : K}
      (border : t + m = count ∨ (m = 0 ∧ t + 1 = count))
      (under : Underway env start count m t key blocks) : RekeyPhase env start count blocks none
  | copied {blocks : Nat → Bytes} {m t : Nat} {key : K} (border : t + m + 1 = count)
      (under : Underway env start count m t key blocks) :
      RekeyPhase env start count blocks (some .forward)
  | restored {blocks : Nat → Bytes} {m t : Nat} {key : K} (back : 1 < m) (le : m ≤ count)
      (border : t + m = count + 1) (under : Underway env start count m t key blocks) :
      RekeyPhase env start count blocks (some .abort)
  | switched {blocks : Nat → Bytes} {key : K} (switched : Switched env start count key blocks)
      (scratch : bytesZero (blocks (count + 1)) 0 4096 = true ∨
        Staged env count (completedCheckpoint env count) key (blocks (count + 1)) ∨
        Staged env count (progressCheckpoint env count count) key (blocks (count + 1))) :
      RekeyPhase env start count blocks none

/-- A write to the scratch block moves no block of the file system. -/
theorem SplitAt.scratch (h : SplitAt env start count key t blocks) (b : Bytes) :
    SplitAt env start count key t (update blocks (count + 1) b) where
  legacy := by
    intro k hk hle
    rw [update_of_ne (by omega)]
    exact h.legacy k hk hle
  target := by
    intro k hk hle
    rw [update_of_ne (by omega)]
    exact h.target k hk hle

theorem SplitAt.copy {n t' : Nat} (h : SplitAt env start count key t blocks)
    (ht : t = t' ∨ t = t' + 1) (hn : t' + n + 1 = count) : SplitAt env start count key t' (update blocks (count - n)
      (env.crypto.encrypt key (count - 1 - n)
        (env.crypto.decrypt env.legacyKey (count - 1 - n) (blocks (count - 1 - n))))) := by
  have hsource : count - 1 - n = t' := by omega
  have htarget : count - n = t' + 1 := by omega
  rw [hsource, htarget]
  constructor
  · intro k hk hle
    rw [update_of_ne (by omega)]
    exact h.legacy k hk (by omega)
  · intro k hk hle
    by_cases he : k = t'
    · subst he
      rw [update_self, env.crypto.decrypt_encrypt]
      exact h.legacy k hk (by omega)
    · rw [update_of_ne (by omega)]
      exact h.target k hk (by omega)

/-- A rollback moves the border up by one block, whether or not it was done before. -/
theorem SplitAt.restore {n t' : Nat} (h : SplitAt env start count key t blocks)
    (ht : t = t' ∨ t + 1 = t') (hn : t' + n = count + 1) :
    SplitAt env start count key t' (update blocks (count + 1 - n) (env.crypto.encrypt env.legacyKey (count + 1 - n)
        (env.crypto.decrypt key (count + 1 - n) (blocks (count + 1 - n + 1))))) := by
  have hplace : count + 1 - n = t' := by omega
  rw [hplace]
  constructor
  · intro k hk hle
    by_cases he : k = t'
    · subst he
      rw [update_self, env.crypto.decrypt_encrypt]
      exact h.target k hk (by omega)
    · rw [update_of_ne he]
      exact h.legacy k hk (by omega)
  · intro k hk hle
    rw [update_of_ne (by omega)]
    exact h.target k hk (by omega)

section
variable {P : (Nat → Bytes) → Option RekeyDirection → Prop} {pending : Option RekeyDirection}
variable {dir : RekeyDirection} {salt : Fin 16 → Byte} {w₁ w₂ : Nat × Bytes} (n : Nat)

theorem stepCut_first {ws : List (Nat × Bytes)} (hw : stepWrites env dir salt blocks = w₁ :: ws) :
    stepCut env dir salt 1 blocks = update blocks w₁.1 w₁.2 := by
  rw [stepCut, hw]
  rfl

theorem stepCut_both (hw : stepWrites env dir salt blocks = [w₁, w₂]) : stepCut env dir salt 2 blocks =
      update (update blocks w₁.1 w₁.2) w₂.1 w₂.2 := by
  rw [stepCut, hw]
  rfl

theorem cut_none (hw : stepWrites env dir salt blocks = []) (h : P blocks pending) : P (stepCut env dir salt n blocks)
      (pendingAfter dir (stepWrites env dir salt blocks) n pending) := by
  simpa only [stepCut, pendingAfter, hw, List.take_nil, applyWrites_nil, if_true] using h

theorem cut_one (hw : stepWrites env dir salt blocks = [w₁]) (h : P blocks pending)
    (h₁ : P (update blocks w₁.1 w₁.2) none) : P (stepCut env dir salt n blocks)
      (pendingAfter dir (stepWrites env dir salt blocks) n pending) := by
  cases n with
  | zero => simpa [stepCut, pendingAfter, hw, applyWrites] using h
  | succ n => simpa [stepCut, pendingAfter, hw, applyWrites, moveInterrupted] using h₁

/-- A step of two writes is not begun, cut off between them or done. -/
theorem cut_two (hw : stepWrites env dir salt blocks = [w₁, w₂]) (h : P blocks pending)
    (h₁ : P (update blocks w₁.1 w₁.2) (if moveInterrupted [w₁, w₂] 1 then some dir else none))
    (h₂ : P (update (update blocks w₁.1 w₁.2) w₂.1 w₂.2) none) : P (stepCut env dir salt n blocks)
      (pendingAfter dir (stepWrites env dir salt blocks) n pending) := by
  match n with
  | 0 => simpa [stepCut, pendingAfter, hw, applyWrites] using h
  | 1 => simpa [stepCut, pendingAfter, hw, applyWrites] using h₁
  | n + 2 => simpa [stepCut, pendingAfter, hw, applyWrites, moveInterrupted] using h₂

end

section
variable {m : Nat} {salt : Fin 16 → Byte} (h : PlannedBlock env count (blocks 0))
variable (hs : Staged env count (progressCheckpoint env count m) key (blocks (count + 1)))
include h hs

theorem stepWrites_copy (hm : m < count) : stepWrites env .forward salt blocks = (rekeyCopyStep env blocks).writes := by
  rw [stepWrites, orchestrated_progress h (Nat.le_of_lt hm) hs, if_neg (by decide), if_pos hm]

theorem stepWrites_commit (hm : m = count) : stepWrites env .forward salt blocks = (rekeyCommitHeader env blocks).writes := by
  rw [stepWrites, orchestrated_progress h (Nat.le_of_eq hm) hs, if_neg (by decide), if_neg (by omega)]

theorem stepWrites_rollback (hm : m ≤ count) : stepWrites env .abort salt blocks = (rekeyRollbackStep env blocks).writes := by
  rw [stepWrites, orchestrated_progress h hm hs, if_pos (by decide)]

end

namespace Underway
variable (hplan : PlannedBlock env count (start 0)) {salt : Fin 16 → Byte} {m : Nat}

theorem planned (hplan : PlannedBlock env count (start 0))
    (h : Underway env start count m t key blocks) : PlannedBlock env count (blocks 0) :=
  h.first ▸ hplan

/-- A write of another block leaves the rekey where it is, up to the border. -/
theorem data {t' lba : Nat} {b : Bytes} (h : Underway env start count m t key blocks) (hpos : lba ≠ 0)
    (hlt : lba ≠ count + 1) (hmoved : SplitAt env start count key t' (update blocks lba b)) :
    Underway env start count m t' key (update blocks lba b) where
  first := (update_of_ne hpos.symm _ _).trans h.first
  staged := by
    rw [update_of_ne hlt.symm]
    exact h.staged
  moved := hmoved

theorem checkpoint {m' : Nat} {b : Bytes} (h : Underway env start count m t key blocks)
    (hb : Staged env count (progressCheckpoint env count m') key b) :
    Underway env start count m' t key (update blocks (count + 1) b) where
  first := (update_of_ne (by omega) _ _).trans h.first
  staged := by
    rw [update_self]
    exact hb
  moved := h.moved.scratch b

include hplan

/-- A copy from a border that is where the checkpoint has it, or one block below it
after a copy that was cut off. -/
theorem copy (h : Underway env start count m t key blocks) (hm : m < count) (border : t + m = count ∨ t + m + 1 = count) :
    ∃ b b', stepWrites env .forward salt blocks = [(count - m, b), (count + 1, b')] ∧
      Underway env start count m (count - 1 - m) key (update blocks (count - m) b) ∧
      Underway env start count (m + 1) (count - 1 - m) key
        (update (update blocks (count - m) b) (count + 1) b') := by
  have hplan' := h.planned hplan
  obtain ⟨b', hwrites, hst⟩ := rekeyCopy_step hplan' hm h.staged
  have hmoved := h.moved.copy (by omega : t = count - 1 - m ∨ t = count - 1 - m + 1)
    (by omega : count - 1 - m + m + 1 = count)
  have hdata := h.data (by omega) (by omega) hmoved
  exact ⟨_, b', (stepWrites_copy hplan' h.staged hm).trans hwrites, hdata, hdata.checkpoint hst⟩

/-- A rollback from a border that is where the checkpoint has it, or one block above
it after a rollback that was cut off. -/
theorem restore (h : Underway env start count m t key blocks) (hback : 1 < m) (hm : m ≤ count)
    (border : t + m = count ∨ t + m = count + 1) :
    ∃ b b', stepWrites env .abort salt blocks = [(count + 1 - m, b), (count + 1, b')] ∧
      Underway env start count m (count + 1 - m) key (update blocks (count + 1 - m) b) ∧
      Underway env start count (m - 1) (count + 1 - m) key
        (update (update blocks (count + 1 - m) b) (count + 1) b') := by
  have hplan' := h.planned hplan
  obtain ⟨b', hstep, hst⟩ := rekeyRollback_step hplan' hback hm h.staged
  have hmoved := h.moved.restore (by omega : t = count + 1 - m ∨ t + 1 = count + 1 - m)
    (by omega : count + 1 - m + m = count + 1)
  have hdata := h.data (by omega) (by omega) hmoved
  exact ⟨_, b', (stepWrites_rollback hplan' h.staged hm).trans (congrArg RekeyStep.writes hstep), hdata, hdata.checkpoint hst⟩

/-- The commit switches a volume whose blocks have all moved. -/
theorem commit (h : Underway env start count count 0 key blocks) :
    ∃ header b', stepWrites env .forward salt blocks = [(0, header), (count + 1, b')] ∧
      Switched env start count key (update blocks 0 header) ∧ Staged env count (progressCheckpoint env count count) key
        (update blocks 0 header (count + 1)) ∧ Switched env start count key
        (update (update blocks 0 header) (count + 1) b') ∧
      Staged env count (completedCheckpoint env count) key b' := by
  have hplan' := h.planned hplan
  have hsuper : env.crypto.decrypt key 0 (blocks 1) = env.crypto.decrypt env.legacyKey 0 (blocks 0) := by
    rw [h.moved.target 0 hplan.ready.pos (Nat.le_refl 0), plainBlock, h.first]
  obtain ⟨header, b', hwrites, hcommitted, hst⟩ := rekeyCommit_step hplan' h.staged hsuper
  refine ⟨header, b', (stepWrites_commit hplan' h.staged rfl).trans hwrites, ?_, ?_, ?_, hst⟩
  · constructor
    · rw [update_self]
      exact hcommitted
    · intro k hk
      rw [update_of_ne (by omega)]
      exact h.moved.target k hk (Nat.zero_le k)
  · rw [update_of_ne (by omega)]
    exact h.staged
  · constructor
    · rw [update_of_ne (by omega), update_self]
      exact hcommitted
    · intro k hk
      rw [update_of_ne (by omega), update_of_ne (by omega)]
      exact h.moved.target k hk (Nat.zero_le k)

theorem forget (h : Underway env start count m t key blocks) (hm : m ≤ 1) (hle : m ≤ count) :
    stepWrites env .abort salt blocks = [(count + 1, zeros)] :=
  (stepWrites_rollback (h.planned hplan) h.staged hle).trans
    (congrArg RekeyStep.writes (rollback_last (h.planned hplan) hm h.staged))

end Underway

theorem stage_begins (hplan : PlannedBlock env count (start 0)) (salt : Fin 16 → Byte)
    (first : blocks 0 = start 0) (hz : bytesZero (blocks (count + 1)) 0 4096 = true) (legacy : ∀ k, k < count →
      env.crypto.decrypt env.legacyKey k (blocks k) = plainBlock env start k) :
    ∃ b, stepWrites env .forward salt blocks = [(count + 1, b)] ∧
      Underway env start count 0 count (saltKey env (List.ofFn salt)) (update blocks (count + 1) b) := by
  have hplan' : PlannedBlock env count (blocks 0) := first ▸ hplan
  have hstep := @orchestrated_idle K env count blocks salt false hplan' (orchScratch_zero hz)
  rw [if_pos hz] at hstep
  obtain ⟨b, hwrites, hst⟩ := stageHeader_step hplan' salt
  have hw : stepWrites env .forward salt blocks = [(count + 1, b)] := by
    rw [stepWrites, show (RekeyDirection.forward == .abort) = false from rfl, hstep]
    exact hwrites
  refine ⟨b, hw, ?_, ?_, ?_⟩
  · rw [update_of_ne (by omega)]
    exact first
  · rw [update_self]
    exact hst
  · constructor
    · intro k hk _
      rw [update_of_ne (by omega)]
      exact legacy k hk
    · intro k hk hle
      omega

namespace Switched
variable (hplan : PlannedBlock env count (start 0)) {salt : Fin 16 → Byte} {dir : RekeyDirection}

theorem cleared (h : Switched env start count key blocks) :
    Switched env start count key (update blocks (count + 1) zeros) := by
  constructor
  · rw [update_of_ne (by omega)]
    exact h.header
  · intro k hk
    rw [update_of_ne (by omega)]
    exact h.target k hk

theorem writes (h : Switched env start count key blocks) :
    stepWrites env dir salt blocks = (rekeyCleanupScratch env blocks).writes := by
  rw [stepWrites, orchestrated_committed h.header.looksValid]

include hplan

/-- The superblock behind the header is the legacy volume's. -/
theorem super (h : Switched env start count key blocks) :
    capyfsSuperValid (env.crypto.decrypt key 0 (blocks 1)) (fun n => decide (n ≤ env.blockCount)) =
        true ∧ load (env.crypto.decrypt key 0 (blocks 1)) 12 4 = count := by
  have hzero : env.crypto.decrypt key 0 (blocks 1) = env.crypto.decrypt env.legacyKey 0 (start 0) :=
    h.target 0 hplan.ready.pos
  rw [hzero]
  exact ⟨hplan.super, hplan.counted⟩

theorem writes_zero (h : Switched env start count key blocks)
    (hz : bytesZero (blocks (count + 1)) 0 4096 = true) : stepWrites env dir salt blocks = [] :=
  h.writes.trans
    (cleanup_zero h.header hplan.ready (h.super hplan).1 (h.super hplan).2 hz)

theorem writes_completed (h : Switched env start count key blocks)
    (hs : Staged env count (completedCheckpoint env count) key (blocks (count + 1))) :
    stepWrites env dir salt blocks = [(count + 1, zeros)] :=
  h.writes.trans
    (cleanup_completed h.header hplan.ready (h.super hplan).1 (h.super hplan).2 hs)

theorem writes_progress (h : Switched env start count key blocks) {m : Nat}
    (hs : Staged env count (progressCheckpoint env count m) key (blocks (count + 1))) : stepWrites env dir salt blocks = [] :=
  h.writes.trans
    (congrArg RekeyStep.writes
      (cleanup_progress h.header hplan.ready (h.super hplan).1 (h.super hplan).2 hs))

end Switched

section
variable (hplan : PlannedBlock env count (start 0)) {dir : RekeyDirection} {salt : Fin 16 → Byte} (n : Nat)
include hplan

theorem copy_phase {m : Nat} {pending : Option RekeyDirection}
    (h : RekeyPhase env start count blocks pending) (under : Underway env start count m t key blocks)
    (hm : m < count) (border : t + m = count ∨ t + m + 1 = count) :
    RekeyPhase env start count (stepCut env .forward salt n blocks)
      (pendingAfter .forward (stepWrites env .forward salt blocks) n pending) := by
  obtain ⟨b, b', hw, hdata, hdone⟩ := under.copy hplan hm border
  refine cut_two n hw h ?_ (.moving (.inl (by omega)) hdone)
  -- the copy of the last block destroys nothing, so either direction may follow it
  by_cases hz : m = 0
  · rw [if_neg (by simp [moveInterrupted, hz])]
    exact .moving (.inr ⟨hz, by omega⟩) hdata
  · have hbound : moveInterrupted [(count - m, b), (count + 1, b')] 1 = true := by
      simp only [moveInterrupted, Bool.and_eq_true, bne_iff_ne]
      omega
    rw [if_pos hbound]
    exact .copied (by omega) hdata

theorem rollback_phase {m : Nat} {pending : Option RekeyDirection}
    (h : RekeyPhase env start count blocks pending) (under : Underway env start count m t key blocks)
    (hback : 1 < m) (hm : m ≤ count) (border : t + m = count ∨ t + m = count + 1) :
    RekeyPhase env start count (stepCut env .abort salt n blocks)
      (pendingAfter .abort (stepWrites env .abort salt blocks) n pending) := by
  obtain ⟨b, b', hw, hdata, hdone⟩ := under.restore hplan hback hm border
  refine cut_two n hw h ?_ (.moving (.inl (by omega)) hdone)
  have hbound : moveInterrupted [(count + 1 - m, b), (count + 1, b')] 1 = true := by
    simp only [moveInterrupted, Bool.and_eq_true, bne_iff_ne]
    omega
  rw [if_pos hbound]
  exact .restored hback hm (by omega) hdata

theorem forget_phase {m : Nat} {pending : Option RekeyDirection}
    (h : RekeyPhase env start count blocks pending) (under : Underway env start count m t key blocks)
    (hm : m ≤ 1) (hle : m ≤ count) (border : count ≤ t + 1) : RekeyPhase env start count (stepCut env .abort salt n blocks)
      (pendingAfter .abort (stepWrites env .abort salt blocks) n pending) := by
  refine cut_one n (under.forget hplan hm hle) h ?_
  have hzero := under.moved.scratch zeros
  refine .idle ?_ ?_ fun k hk => hzero.legacy k hk (by omega)
  · rw [update_of_ne (by omega)]
    exact under.first
  · rw [update_self]
    exact orchScratch_zero bytesZero_zeros

theorem idle_phase (first : blocks 0 = start 0) (scratch : orchScratch (legacyPlan env count) (blocks (count + 1)) = none)
    (legacy : ∀ k, k < count → env.crypto.decrypt env.legacyKey k (blocks k) = plainBlock env start k) :
    RekeyPhase env start count (stepCut env dir salt n blocks) (pendingAfter dir (stepWrites env dir salt blocks) n none) := by
  have hplan' : PlannedBlock env count (blocks 0) := first ▸ hplan
  have h : RekeyPhase env start count blocks none := .idle first scratch legacy
  have hstep := @orchestrated_idle K env count blocks salt (dir == .abort) hplan' scratch
  by_cases hz : bytesZero (blocks (count + 1)) 0 4096 = true
  · cases dir with
    | abort =>
      rw [if_pos hz] at hstep
      exact cut_none n (by rw [stepWrites, hstep]; rfl) h
    | forward =>
      obtain ⟨b, hw, hbegun⟩ := stage_begins hplan salt first hz legacy
      exact cut_one n hw h (.moving (.inl (Nat.add_zero count)) hbegun)
  · rw [if_neg hz] at hstep
    exact cut_none n (by rw [stepWrites, hstep]; rfl) h

theorem step_phase {pending : Option RekeyDirection} (h : RekeyPhase env start count blocks pending)
    (agree : pending = none ∨ pending = some dir) : RekeyPhase env start count (stepCut env dir salt n blocks)
      (pendingAfter dir (stepWrites env dir salt blocks) n pending) := by
  have hpos := hplan.ready.pos
  have h' := h
  cases h with
  | idle first scratch legacy => exact idle_phase hplan n first scratch legacy
  | switched hsw scratch =>
    rcases scratch with hz | hs | hs
    · exact cut_none n (hsw.writes_zero hplan hz) h'
    · refine cut_one n (hsw.writes_completed hplan hs) h' (.switched hsw.cleared (.inl ?_))
      rw [update_self]
      exact bytesZero_zeros
    · exact cut_none n (hsw.writes_progress hplan hs) h'
  | @moving m t key border under =>
    cases dir with
    | forward =>
      by_cases hm : m < count
      · exact copy_phase hplan n h' under hm (by omega)
      · obtain ⟨rfl, rfl⟩ : m = count ∧ t = 0 := by omega
        obtain ⟨header, b', hw, hcut, hold, hdone, hst⟩ := under.commit hplan
        refine cut_two n hw h' ?_ (.switched hdone (.inr (.inl ?_)))
        · rw [if_neg (by simp [moveInterrupted])]
          exact .switched hcut (.inr (.inr hold))
        · rw [update_self]
          exact hst
    | abort =>
      by_cases hm : m ≤ 1
      · exact forget_phase hplan n h' under hm (by omega) (by omega)
      · exact rollback_phase hplan n h' under (by omega) (by omega) (by omega)
  | copied border under =>
    obtain rfl : dir = .forward := by simpa [eq_comm] using agree
    exact copy_phase hplan n h' under (by omega) (.inr border)
  | restored back le border under =>
    obtain rfl : dir = .abort := by simpa [eq_comm] using agree
    exact rollback_phase hplan n h' under back le (.inr border)

theorem run_phase (hs : NotStarted env start) {pending : Option RekeyDirection}
    (hrun : RekeyRun env start blocks pending) : RekeyPhase env start count blocks pending := by
  induction hrun with
  | start =>
    refine .idle rfl ?_ fun k _ => rfl
    have hcur := hs.2
    simp only [currentScratch, rekeyPlan_planned hplan] at hcur
    rw [legacyPlan_ready hplan.ready] at hcur ⊢
    exact hcur
  | step dir salt n run agree ih => exact step_phase hplan n ih agree

end

theorem run_unplanned (hs : NotStarted env start) (hp : ∀ count, ¬ PlannedBlock env count (start 0))
    {pending : Option RekeyDirection} (hrun : RekeyRun env start blocks pending) : blocks = start ∧ pending = none := by
  induction hrun with
  | start => exact ⟨rfl, rfl⟩
  | step dir salt n run agree ih =>
    obtain ⟨rfl, rfl⟩ := ih
    have hw : stepWrites env dir salt _ = [] := orchestrated_unplanned hs.1 hp
    exact cut_none (P := fun b p => b = _ ∧ p = none) n hw ⟨rfl, rfl⟩

theorem phase_readAt (hplan : PlannedBlock env count (start 0)) {pending : Option RekeyDirection}
    (h : RekeyPhase env start count blocks pending) {dir : RekeyDirection}
    (agree : pending = none ∨ pending = some dir) {k : Nat} (hk : k < count) :
    ReadAt env dir blocks k (plainBlock env start k) := by
  have hroom := hplan.ready.room
  -- while the rekey moves blocks, the checkpoint's border decides
  have hmoving : ∀ {m t : Nat} {key : K}, blocks 0 = start 0 → m ≤ count →
      Staged env count (progressCheckpoint env count m) key (blocks (count + 1)) →
      SplitAt env start count key t blocks →
      ((k < count - m ∨ (dir = .abort ∧ k = count - m)) → k ≤ t) →
      (¬ (k < count - m ∨ (dir = .abort ∧ k = count - m)) → t ≤ k) →
      ReadAt env dir blocks k (plainBlock env start k) := by
    intro m t key first hm staged moved hlegacy htarget
    have hplan' : PlannedBlock env count (blocks 0) := first ▸ hplan
    obtain ⟨s, hscratch, hc, hkey⟩ := orchScratch_progress hplan.ready hm staged
    have hcur : currentScratch env blocks = some s := by
      simp only [currentScratch, rekeyPlan_planned hplan', scratchLba_ready hplan.ready, hscratch]
      exact if_pos (by rw [legacyPlan_ready hplan.ready])
    have hborder : s.checkpoint.blocksTotal - s.checkpoint.blocksCompleted = count - m := by
      rw [hc, progress_total, progress_completed]
    by_cases hside : k < count - m ∨ (dir = .abort ∧ k = count - m)
    · exact .legacy hplan'.legacy hcur (by rw [hborder]; exact hside)
        (moved.legacy k hk (hlegacy hside))
    · exact .target hplan'.legacy hcur (by rw [hborder]; exact hside) hkey
        (moved.target k hk (htarget hside))
  cases h with
  | idle first scratch legacy =>
    have hplan' : PlannedBlock env count (blocks 0) := first ▸ hplan
    have hcur : currentScratch env blocks = none := by
      simp only [currentScratch, rekeyPlan_planned hplan', scratchLba_ready hplan.ready, scratch, ite_self]
    exact .untouched hplan'.legacy hcur (legacy k hk)
  | @moving m t key border under =>
    exact hmoving under.first (by omega) under.staged under.moved (by omega) (by omega)
  | @copied m t key border under =>
    obtain rfl : dir = .forward := by simpa [eq_comm] using agree
    refine hmoving under.first (by omega) under.staged under.moved ?_ ?_
    · rintro (hlt | ⟨hd, -⟩)
      · omega
      · cases hd
    · intro hside
      omega
  | @restored m t key back le border under =>
    obtain rfl : dir = .abort := by simpa [eq_comm] using agree
    refine hmoving under.first le under.staged under.moved ?_ ?_
    · intro hside
      omega
    · intro hside
      have hne : ¬ k = count - m := fun he => hside (.inr ⟨rfl, he⟩)
      omega
  | @switched key hsw scratch =>
    refine .opened hsw.header.looksValid (hsw.header.opens hplan.ready) ?_
    have hin : k < env.blockCount - 1 := by omega
    simp only [CryptDevice.read, hin, if_true, Nat.add_comm 1 k, hsw.target k hk]

end CapyOS.Proofs
