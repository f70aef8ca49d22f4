import CapyOS.Proofs.RekeyRuns

namespace CapyOS.Proofs
open Lib Function List
variable {pending : Option RekeyDirection} {salt : Fin 16 → Byte} {m : Nat} {k : Nat} {r : Nat}

section
variable {K : Type} {env : VolumeEnv K} {start blocks : Nat → Bytes} {count t : Nat} {key : K}

theorem legacyBlockCount_planned (hplan : PlannedBlock env count (start 0)) : legacyBlockCount env start = count :=
  hplan.counted

/-- In every run the next step of an agreed direction finds each block in its place. -/
theorem run_readAt (hs : NotStarted env start)
    (hrun : RekeyRun env start blocks pending) {dir : RekeyDirection}
    (agree : pending = none ∨ pending = some dir) (hk : k < legacyBlockCount env start) :
    ReadAt env dir blocks k (plainBlock env start k) := by
  by_cases hp : ∃ count, PlannedBlock env count (start 0)
  · obtain ⟨count, hplan⟩ := hp
    rw [legacyBlockCount_planned hplan] at hk
    exact phase_readAt hplan (run_phase hplan hs hrun) agree hk
  · obtain ⟨rfl, -⟩ := run_unplanned hs (fun count h => hp ⟨count, h⟩) hrun
    exact .untouched hs.1 hs.2 rfl

theorem forward_agrees (h : ForwardRun env start blocks) : ∃ pending, RekeyRun env start blocks pending ∧
      (pending = none ∨ pending = some RekeyDirection.forward) := by
  induction h with
  | start => exact ⟨none, .start, .inl rfl⟩
  | @step b salt n _ ih =>
    obtain ⟨pending, hrun, hagree⟩ := ih
    refine ⟨_, .step .forward salt n hrun hagree, ?_⟩
    simp only [pendingAfter]
    split
    · exact hagree
    · split
      · exact .inr rfl
      · exact .inl rfl

/-- A rekey that only goes forward never loses a block: with crashes after any
write, every block of the file system reads as it did at the start, where the
checkpoint says before the commit and through the opened volume after it. -/
theorem forward_rekey_keeps_blocks (hs : NotStarted env start) (hrun : ForwardRun env start blocks)
    {k : Nat} (hk : k < legacyBlockCount env start) :
    ReadAt env .forward blocks k (plainBlock env start k) := by
  obtain ⟨pending, hrun', hagree⟩ := forward_agrees hrun
  exact run_readAt hs hrun' hagree hk

def targetKey (env : VolumeEnv K) (blocks : Nat → Bytes) : Option K :=
  if volumeHeaderLooksValid (blocks 0) then volumeHeaderDeriveKeys env.crypto (blocks 0)
  else (currentScratch env blocks).bind fun s => volumeHeaderDeriveKeys env.crypto s.header

def Recoverable (env : VolumeEnv K) (blocks : Nat → Bytes) (k : Nat) (p : Bytes) : Prop :=
  env.crypto.decrypt env.legacyKey k (blocks k) = p ∨
    ∃ key, targetKey env blocks = some key ∧ env.crypto.decrypt key k (blocks (k + 1)) = p

theorem staged_targetKey (hplan : PlannedBlock env count (blocks 0)) (hm : m ≤ count)
    (hs : Staged env count (progressCheckpoint env count m) key (blocks (count + 1))) : targetKey env blocks = some key := by
  obtain ⟨s, hscratch, -, hkey⟩ := orchScratch_progress hplan.ready hm hs
  have hcur : currentScratch env blocks = some s := by
    simp only [currentScratch, rekeyPlan_planned hplan, scratchLba_ready hplan.ready, hscratch]
    exact if_pos (by rw [legacyPlan_ready hplan.ready])
  simp only [targetKey, hplan.legacy, Bool.false_eq_true, if_false, hcur, Option.bind_some, hkey]

theorem Underway.recoverable (hplan : PlannedBlock env count (start 0))
    (h : Underway env start count m t key blocks) (hm : m ≤ count) (hk : k < count) :
    Recoverable env blocks k (plainBlock env start k) := by
  by_cases hle : k ≤ t
  · exact .inl (h.moved.legacy k hk hle)
  · exact .inr ⟨key, staged_targetKey (h.planned hplan) hm h.staged, h.moved.target k hk (by omega)⟩

theorem phase_recoverable (hplan : PlannedBlock env count (start 0))
    (h : RekeyPhase env start count blocks pending) (hk : k < count) :
    Recoverable env blocks k (plainBlock env start k) := by
  cases h with
  | idle first scratch legacy => exact .inl (legacy k hk)
  | moving border under => exact under.recoverable hplan (by omega) hk
  | copied border under => exact under.recoverable hplan (by omega) hk
  | restored back le border under => exact under.recoverable hplan le hk
  | @switched key hsw scratch =>
    refine .inr ⟨key, ?_, hsw.target k hk⟩
    have hlooks := hsw.header.looksValid
    obtain ⟨header, hsame, -, -, hkeys⟩ := hsw.header
    simp only [targetKey, hlooks, if_true, hsame.deriveKeys env.crypto, hkeys]

/-- With aborts no block is lost as long as a move that a crash cut off between its
block and its checkpoint is followed by steps of its own direction: every block
stays recoverable and each step so allowed finds it where it looks for it. -/
theorem rekey_with_aborts_keeps_blocks (hs : NotStarted env start)
    {pending : Option RekeyDirection} (hrun : RekeyRun env start blocks pending) {k : Nat}
    (hk : k < legacyBlockCount env start) :
    Recoverable env blocks k (plainBlock env start k) ∧
      ∀ dir, pending = none ∨ pending = some dir →
        ReadAt env dir blocks k (plainBlock env start k) := by
  refine ⟨?_, fun dir agree => run_readAt hs hrun agree hk⟩
  by_cases hp : ∃ count, PlannedBlock env count (start 0)
  · obtain ⟨count, hplan⟩ := hp
    rw [legacyBlockCount_planned hplan] at hk
    exact phase_recoverable hplan (run_phase hplan hs hrun) hk
  · obtain ⟨rfl, -⟩ := run_unplanned hs (fun count h => hp ⟨count, h⟩) hrun
    exact .inl rfl

/-- Runs with steps of both directions in any order and crashes after any write. -/
inductive AnyRun (env : VolumeEnv K) (start : Nat → Bytes) : (Nat → Bytes) → Prop
  | start : AnyRun env start start
  | step {blocks : Nat → Bytes} (dir : RekeyDirection) (salt : Fin 16 → Byte) (n : Nat)
      (run : AnyRun env start blocks) : AnyRun env start (stepCut env dir salt n blocks)

theorem ForwardRun.free (h : ForwardRun env start blocks) : AnyRun env start blocks := by
  induction h with
  | start => exact .start
  | step salt n _ ih => exact .step .forward salt n ih

/-- From a blank scratch block steps forward lead to every checkpoint. -/
theorem forward_reaches (hplan : PlannedBlock env count (start 0))
    (hz : bytesZero (start (count + 1)) 0 4096 = true) (salt : Fin 16 → Byte) (hm : m ≤ count) :
    ∃ blocks, ForwardRun env start blocks ∧ Underway env start count m (count - m) (saltKey env (ofFn salt)) blocks := by
  induction m with
  | zero =>
    obtain ⟨b, hw, hbegun⟩ := stage_begins hplan salt rfl hz fun k _ => rfl
    refine ⟨_, .step salt 1 .start, ?_⟩
    rw [stepCut_first hw]
    exact hbegun
  | succ m ih =>
    obtain ⟨blocks, hrun, hunder⟩ := ih (by omega)
    obtain ⟨b, b', hw, -, hdone⟩ := hunder.copy hplan (by omega) (.inl (by omega))
    refine ⟨_, .step salt 2 hrun, ?_⟩
    rw [stepCut_both hw, show count - (m + 1) = count - 1 - m by omega]
    exact hdone

theorem turned_copy (hplan : PlannedBlock env count (start 0)) (hcount : 3 ≤ count)
    (hz : bytesZero (start (count + 1)) 0 4096 = true) (salt : Fin 16 → Byte) : ∃ blocks, AnyRun env start blocks ∧
      targetKey env blocks = some (saltKey env (ofFn salt)) ∧
      blocks (count - 2) = env.crypto.encrypt (saltKey env (ofFn salt)) (count - 3) (plainBlock env start (count - 3)) ∧
      blocks (count - 1) = env.crypto.encrypt env.legacyKey (count - 1) (plainBlock env start (count - 1)) := by
  obtain ⟨b₂, hrun, hunder⟩ := forward_reaches hplan hz salt (show 2 ≤ count by omega)
  obtain ⟨b, b', hw, hcut, -⟩ := hunder.copy hplan (by omega) (.inl (by omega))
  have hrun₃ : AnyRun env start (update b₂ (count - 2) b) :=
    stepCut_first hw ▸ .step .forward salt 1 hrun.free
  obtain ⟨b'', hback, hst⟩ := rekeyRollback_step (hcut.planned hplan) (by omega) (by omega) hcut.staged
  have hlba : count + 1 - 2 = count - 1 := by omega
  have hw' := (@stepWrites_rollback K env _ count _ 2 salt (hcut.planned hplan) hcut.staged
    (by omega)).trans (congrArg RekeyStep.writes hback)
  rw [hlba] at hw'
  refine ⟨_, .step .abort salt 2 hrun₃, ?_⟩
  rw [stepCut_both hw']
  have hfirst₄ : ∀ c d : Bytes, update (update (update b₂ (count - 2) b)
      (count - 1) c) (count + 1) d 0 = start 0 := by
    intro c d
    rw [update_of_ne (by omega), update_of_ne (by omega)]
    exact hcut.first
  have hborder : count - 1 - 2 = count - 3 := by omega
  refine ⟨staged_targetKey (hfirst₄ _ _ ▸ hplan) (show 2 - 1 ≤ count by omega) ?_, ?_, ?_⟩
  · rw [update_self]
    exact hst
  · -- the interrupted copy put the next block here
    have hcopied := hcut.moved.target (count - 3) (by omega) (by omega)
    rw [show count - 3 + 1 = count - 2 by omega] at hcopied
    rw [update_of_ne (by omega), update_of_ne (by omega), ← hcopied, env.crypto.encrypt_decrypt]
  · -- and the rollback put the block above it back here
    have hrestored := hcut.moved.target (count - 1) (by omega) (by omega)
    rw [update_of_ne (by omega), update_self, hrestored]

def commitInterrupted : List (Nat × Bytes) → Nat → Bool
  | [header, _], 1 => header.1 == 0
  | _, _ => false

/-- Runs without aborts in which no crash falls between the two writes of a commit. -/
inductive SettledRun (env : VolumeEnv K) (start : Nat → Bytes) : (Nat → Bytes) → Prop
  | start : SettledRun env start start
  | step {blocks : Nat → Bytes} (salt : Fin 16 → Byte) (n : Nat) (run : SettledRun env start blocks)
      (settled : commitInterrupted (stepWrites env .forward salt blocks) n = false) :
      SettledRun env start (stepCut env .forward salt n blocks)

theorem RekeyRun.stage (hplan : PlannedBlock env count (start 0))
    (hz : bytesZero (start (count + 1)) 0 4096 = true) (salt : Fin 16 → Byte) :
    RekeyRun env start (stepCut env .forward salt 1 start) none ∧
      Underway env start count 0 count (saltKey env (ofFn salt))
        (stepCut env .forward salt 1 start) := by
  obtain ⟨b, hw, hbegun⟩ := stage_begins hplan salt rfl hz fun k _ => rfl
  have hrun : RekeyRun env start _ _ := .step .forward salt 1 .start (.inl rfl)
  rw [hw] at hrun
  exact ⟨hrun, stepCut_first hw ▸ hbegun⟩

section
variable (hplan : PlannedBlock env count (start 0)) {m : Nat} {pending : Option RekeyDirection}
include hplan

/-- A copy that a crash cuts off binds the run to go forward. -/
theorem RekeyRun.copyCut (hrun : RekeyRun env start blocks pending)
    (agree : pending = none ∨ pending = some .forward)
    (under : Underway env start count m t key blocks) (hpos : 0 < m) (hm : m < count)
    (border : t + m = count ∨ t + m + 1 = count) (salt : Fin 16 → Byte) :
    RekeyRun env start (stepCut env .forward salt 1 blocks) (some .forward) ∧
      Underway env start count m (count - 1 - m) key (stepCut env .forward salt 1 blocks) := by
  obtain ⟨b, b', hw, hdata, -⟩ := under.copy hplan hm border
  have hcut := RekeyRun.step .forward salt 1 hrun agree
  have hbound : moveInterrupted [(count - m, b), (count + 1, b')] 1 = true := by
    simp only [moveInterrupted, Bool.and_eq_true, bne_iff_ne]
    omega
  rw [hw, pendingAfter, if_neg (by simp), if_pos hbound] at hcut
  exact ⟨hcut, stepCut_first hw ▸ hdata⟩

/-- A copy that is done leaves both directions open. -/
theorem RekeyRun.copyDone (hrun : RekeyRun env start blocks pending)
    (agree : pending = none ∨ pending = some .forward)
    (under : Underway env start count m t key blocks) (hm : m < count)
    (border : t + m = count ∨ t + m + 1 = count) (salt : Fin 16 → Byte) :
    RekeyRun env start (stepCut env .forward salt 2 blocks) none ∧
      Underway env start count (m + 1) (count - 1 - m) key (stepCut env .forward salt 2 blocks) := by
  obtain ⟨b, b', hw, -, hdone⟩ := under.copy hplan hm border
  have hall := RekeyRun.step .forward salt 2 hrun agree
  rw [hw, pendingAfter, if_neg (by simp), if_neg (by simp [moveInterrupted])] at hall
  exact ⟨hall, stepCut_both hw ▸ hdone⟩

/-- A rollback that a crash cuts off binds the run to go back. -/
theorem RekeyRun.restoreCut (hrun : RekeyRun env start blocks pending)
    (agree : pending = none ∨ pending = some .abort)
    (under : Underway env start count m t key blocks) (hback : 1 < m) (hm : m ≤ count)
    (border : t + m = count ∨ t + m = count + 1) (salt : Fin 16 → Byte) :
    RekeyRun env start (stepCut env .abort salt 1 blocks) (some .abort) ∧
      Underway env start count m (count + 1 - m) key (stepCut env .abort salt 1 blocks) := by
  obtain ⟨b, b', hw, hdata, -⟩ := under.restore hplan hback hm border
  have hcut := RekeyRun.step .abort salt 1 hrun agree
  have hbound : moveInterrupted [(count + 1 - m, b), (count + 1, b')] 1 = true := by
    simp only [moveInterrupted, Bool.and_eq_true, bne_iff_ne]
    omega
  rw [hw, pendingAfter, if_neg (by simp), if_pos hbound] at hcut
  exact ⟨hcut, stepCut_first hw ▸ hdata⟩

theorem RekeyRun.restoreDone (hrun : RekeyRun env start blocks pending)
    (agree : pending = none ∨ pending = some .abort)
    (under : Underway env start count m t key blocks) (hback : 1 < m) (hm : m ≤ count)
    (border : t + m = count ∨ t + m = count + 1) (salt : Fin 16 → Byte) :
    RekeyRun env start (stepCut env .abort salt 2 blocks) none ∧
      Underway env start count (m - 1) (count + 1 - m) key (stepCut env .abort salt 2 blocks) := by
  obtain ⟨b, b', hw, -, hdone⟩ := under.restore hplan hback hm border
  have hall := RekeyRun.step .abort salt 2 hrun agree
  rw [hw, pendingAfter, if_neg (by simp), if_neg (by simp [moveInterrupted])] at hall
  exact ⟨hall, stepCut_both hw ▸ hdone⟩

/-- A copy may be cut off anywhere in a run that settles its commit. -/
theorem SettledRun.copy (hrun : SettledRun env start blocks)
    (under : Underway env start count m t key blocks) (hm : m < count)
    (border : t + m = count ∨ t + m + 1 = count) (salt : Fin 16 → Byte) (n : Nat) :
    SettledRun env start (stepCut env .forward salt n blocks) := by
  obtain ⟨b, b', hw, -, -⟩ := under.copy hplan hm border
  refine .step salt n hrun ?_
  have hdata : ((count - m) == 0) = false := beq_false_of_ne (by omega)
  rw [hw]
  cases n with
  | zero => rfl
  | succ n =>
    cases n with
    | zero => exact hdata
    | succ n => rfl

end

/-- The blocks after `m` steps forward that are not interrupted. -/
def stepsDone (env : VolumeEnv K) (salts : Nat → Fin 16 → Byte) : Nat → (Nat → Bytes) → Nat → Bytes
  | 0, blocks => blocks
  | m + 1, blocks =>
    stepsDone env (fun i => salts (i + 1)) m
      (applyWrites blocks (stepWrites env .forward (salts 0) blocks))

def RekeyFinished (env : VolumeEnv K) (scratchLba : Nat) (blocks : Nat → Bytes) : Prop :=
  volumeHeaderLooksValid (blocks 0) = true ∧ (volumeProviderOpen env blocks).isSome = true ∧
    bytesZero (blocks scratchLba) 0 4096 = true

/-- How many uninterrupted steps forward are left. -/
inductive Remaining (env : VolumeEnv K) (start : Nat → Bytes) (count : Nat) :
    Nat → (Nat → Bytes) → Prop
  | finished {blocks : Nat → Bytes} {key : K} (switched : Switched env start count key blocks)
      (scratch : bytesZero (blocks (count + 1)) 0 4096 = true) : Remaining env start count 0 blocks
  | switched {blocks : Nat → Bytes} {key : K} (switched : Switched env start count key blocks)
      (scratch : Staged env count (completedCheckpoint env count) key (blocks (count + 1))) :
      Remaining env start count 1 blocks
  | moving {blocks : Nat → Bytes} {m t : Nat} {key : K} (le : m ≤ count)
      (border : t + m = count ∨ t + m + 1 = count)
      (under : Underway env start count m t key blocks) :
      Remaining env start count (count - m + 2) blocks
  | idle {blocks : Nat → Bytes} (first : blocks 0 = start 0)
      (scratch : bytesZero (blocks (count + 1)) 0 4096 = true)
      (legacy : ∀ k, k < count →
        env.crypto.decrypt env.legacyKey k (blocks k) = plainBlock env start k) :
      Remaining env start count (count + 3) blocks

theorem Switched.finished (h : Switched env start count key blocks) :
    Remaining env start count 0 (update blocks (count + 1) zeros) := by
  refine .finished h.cleared ?_
  rw [update_self]
  exact bytesZero_zeros

theorem step_remaining (hplan : PlannedBlock env count (start 0))
    (h : Remaining env start count (r + 1) blocks) :
    Remaining env start count r (applyWrites blocks (stepWrites env .forward salt blocks)) := by
  generalize hr : r + 1 = r' at h
  cases h with
  | finished hsw scratch => cases hr
  | switched hsw scratch =>
    obtain rfl : r = 0 := by omega
    rw [hsw.writes_completed hplan scratch]
    exact hsw.finished
  | @moving _ m t key le border under =>
    by_cases hm : m < count
    · obtain ⟨b, b', hw, -, hdone⟩ := under.copy hplan hm border
      rw [hw, show r = count - (m + 1) + 2 by omega]
      exact .moving hm (.inl (by omega)) hdone
    · obtain ⟨rfl, rfl⟩ : m = count ∧ t = 0 := by omega
      obtain ⟨header, b', hw, -, -, hdone, hst⟩ := under.commit hplan
      rw [hw, show r = 1 by omega]
      refine .switched hdone ?_
      rw [applyWrites, applyWrites, applyWrites, update_self]
      exact hst
  | idle first scratch legacy =>
    obtain ⟨b, hw, hbegun⟩ := stage_begins hplan salt first scratch legacy
    rw [hw, show r = count - 0 + 2 by omega]
    exact .moving (Nat.zero_le count) (.inl (Nat.add_zero count)) hbegun

theorem cut_remaining (hplan : PlannedBlock env count (start 0)) {r n : Nat}
    (h : Remaining env start count r blocks) (settled : commitInterrupted (stepWrites env .forward salt blocks) n = false) :
    ∃ r', Remaining env start count r' (stepCut env .forward salt n blocks) := by
  let Left := fun b (_ : Option RekeyDirection) => ∃ r', Remaining env start count r' b
  have hkeep : ∃ r', Remaining env start count r' blocks := ⟨r, h⟩
  have hdone : ∀ r', r = r' + 1 →
      Remaining env start count r' (applyWrites blocks (stepWrites env .forward salt blocks)) := by
    rintro r' rfl
    exact step_remaining hplan h
  cases h with
  | finished hsw scratch =>
    exact @cut_none K env blocks Left none .forward salt n (hsw.writes_zero hplan scratch) hkeep
  | switched hsw scratch =>
    exact @cut_one K env blocks Left none .forward salt _ n (hsw.writes_completed hplan scratch) hkeep
      ⟨0, hsw.finished⟩
  | @moving _ m t key le border under =>
    by_cases hm : m < count
    · obtain ⟨b, b', hw, hdata, hnext⟩ := under.copy hplan hm border
      exact @cut_two K env blocks Left none .forward salt _ _ n hw hkeep
        ⟨_, .moving le (.inr (by omega)) hdata⟩ ⟨_, .moving hm (.inl (by omega)) hnext⟩
    · obtain ⟨rfl, rfl⟩ : m = count ∧ t = 0 := by omega
      obtain ⟨header, b', hw, -, -, -, -⟩ := @Underway.commit K env start blocks _ key hplan salt under
      have hlast := hdone 1 (by omega)
      rw [hw] at settled hlast
      match n with
      | 0 => exact hkeep
      | 1 => simp [commitInterrupted] at settled
      | n + 2 =>
        refine ⟨1, ?_⟩
        rw [stepCut, hw, take_of_length_le (by simp)]
        exact hlast
  | idle first scratch legacy =>
    obtain ⟨b, hw, hbegun⟩ := stage_begins hplan salt first scratch legacy
    exact @cut_one K env blocks Left none .forward salt _ n hw hkeep
      ⟨_, .moving (Nat.zero_le count) (.inl (Nat.add_zero count)) hbegun⟩

theorem settled_remaining (hplan : PlannedBlock env count (start 0))
    (hz : bytesZero (start (count + 1)) 0 4096 = true) (hrun : SettledRun env start blocks) :
    ∃ r, Remaining env start count r blocks := by
  induction hrun with
  | start => exact ⟨_, .idle rfl hz fun k _ => rfl⟩
  | step salt n run settled ih =>
    obtain ⟨r, hr⟩ := ih
    exact cut_remaining hplan hr settled

theorem remaining_finishes (hplan : PlannedBlock env count (start 0))
    (h : Remaining env start count r blocks) (salts : Nat → Fin 16 → Byte) :
    RekeyFinished env (count + 1) (stepsDone env salts r blocks) := by
  induction r generalizing blocks salts with
  | zero =>
    generalize hr : 0 = r at h
    cases h with
    | finished hsw scratch =>
      have hopen := hsw.header.opens hplan.ready
      exact ⟨hsw.header.looksValid, Option.isSome_iff_exists.mpr ⟨_, hopen⟩, scratch⟩
    | switched _ _ => cases hr
    | moving _ _ _ => omega
    | idle _ _ _ => omega
  | succ r ih => exact ih (step_remaining hplan h) _

theorem planned_of_ready {plan : RekeyPlan} (h : rekeyPlan env start = some plan) (hr : plan.status = .ready) :
    ∃ count, PlannedBlock env count (start 0) ∧ plan = legacyPlan env count := by
  simp only [rekeyPlan, rekeyPreflight] at h
  by_cases htwo : env.blockCount < 2
  · simp [htwo] at h
  · simp only [htwo, if_false] at h
    cases hl : volumeHeaderLooksValid (start 0) with
    | true =>
      -- a volume with a header has no ready plan
      rw [hl, if_pos rfl] at h
      cases hp : volumeHeaderParse (start 0) with
      | none => simp [hp] at h
      | some header =>
        simp only [hp] at h
        split at h
        · cases h
        · rename_i hm
          obtain rfl := Option.some.inj h
          cases hr
        · rename_i count hm
          split at hm <;> simp at hm
    | false =>
      rw [hl] at h
      simp only [Bool.false_eq_true, if_false] at h
      by_cases hsuper : capyfsSuperValid (env.crypto.decrypt env.legacyKey 0 (start 0))
        (fun n => decide (n ≤ env.blockCount)) = true
      · simp only [hsuper, if_true] at h
        generalize hcount : load (env.crypto.decrypt env.legacyKey 0 (start 0)) 12 4 = count at h
        by_cases hz : count = 0
        · simp [hz] at h
        · simp only [hz, if_false] at h
          obtain rfl := Option.some.inj h
          refine ⟨count, ⟨hl, hsuper, hcount, Nat.pos_of_ne_zero hz, ?_⟩, rfl⟩
          by_contra hroom
          have hfull : count ≥ env.blockCount - 1 := by omega
          simp only [legacyPlan, hfull, if_true] at hr
          split at hr
          · cases hr
          · cases hr
      · simp [hsuper] at h

/-- A rekey whose commit is not cut off between its two writes never gets stuck: from
every state such a run reaches, finitely many steps forward end it. -/
theorem settled_rekey_finishes {plan : RekeyPlan} (hplan : rekeyPlan env start = some plan)
    (hready : plan.status = .ready) (hz : bytesZero (start plan.scratchFirstLba) 0 4096 = true)
    (hrun : SettledRun env start blocks) (salts : Nat → Fin 16 → Byte) :
    ∃ m, RekeyFinished env plan.scratchFirstLba (stepsDone env salts m blocks) := by
  obtain ⟨count, hp, rfl⟩ := planned_of_ready hplan hready
  rw [scratchLba_ready hp.ready] at hz ⊢
  obtain ⟨r, hr⟩ := settled_remaining hp hz hrun
  exact ⟨r, remaining_finishes hp hr salts⟩

theorem cut_commit_stuck (hplan : PlannedBlock env count (start 0))
    (hz : bytesZero (start (count + 1)) 0 4096 = true) (salt : Fin 16 → Byte) :
    ∃ blocks, ForwardRun env start blocks ∧ bytesZero (blocks (count + 1)) 0 4096 = false ∧
      ∀ salt', rekeyOrchestratedStep env false salt' blocks = .report .cleanupScratchBuildFailed := by
  obtain ⟨b, hrun, hunder⟩ := forward_reaches hplan hz salt (Nat.le_refl count)
  rw [Nat.sub_self] at hunder
  obtain ⟨header, b', hw, hsw, hold, -, -⟩ := hunder.commit hplan
  refine ⟨_, stepCut_first hw ▸ .step salt 1 hrun, hold.nonzero, fun salt' => ?_⟩
  rw [orchestrated_committed hsw.header.looksValid]
  exact cleanup_progress hsw.header hplan.ready (hsw.super hplan).1 (hsw.super hplan).2 hold

end

def tinyCrypto : VolumeCrypto Bool where
  deriveXtsKeys := fun _ _ => false
  deriveXtsKeysArgon2id := fun _ _ _ => true
  hmacSha256 := fun _ _ => zeros
  encrypt := fun key _ p i => if key then ~~~(p i) else p i
  decrypt := fun key _ p i => if key then ~~~(p i) else p i
  decrypt_encrypt := by
    intro key l p
    funext i
    cases key <;> simp
  encrypt_decrypt := by
    intro key l p
    funext i
    cases key <;> simp

def tinyEnv : VolumeEnv Bool where
  crypto := tinyCrypto
  blockCount := 7
  blockCount_lt := by decide
  legacySalt := [1]
  legacyIter := 1

/-- A legacy volume of seven blocks with an empty file system of five. -/
def tinyVolume : Nat → Bytes := fun k =>
  if k = 0 then
    pack [(4, capyfsMagic.toNat), (4, capyfsVersion.toNat), (4, capyfsBlockSize), (4, 5), (4, 1), (4, 1),
      (4, 2), (4, 3), (4, 4)]
  else zeros

theorem tiny_planned : PlannedBlock tinyEnv 5 (tinyVolume 0) where
  legacy := by decide
  super := by decide
  counted := by decide
  ready := ⟨by decide, by decide⟩

theorem tiny_blank : bytesZero (tinyVolume 6) 0 4096 = true := bytesZero_zeros

theorem tiny_notStarted : NotStarted tinyEnv tinyVolume := by
  refine ⟨tiny_planned.legacy, ?_⟩
  simp only [currentScratch, rekeyPlan_planned tiny_planned, scratchLba_ready tiny_planned.ready,
    orchScratch_zero tiny_blank, ite_self]

theorem tiny_count : 3 < legacyBlockCount tinyEnv tinyVolume := by
  rw [legacyBlockCount_planned tiny_planned]
  decide

/-- Staged, one block copied, and the copy of block 3 cut off before its checkpoint. -/
def tinyCut : Nat → Bytes :=
  stepCut tinyEnv .forward (fun _ => 1) 1
    (stepCut tinyEnv .forward (fun _ => 1) 2 (stepCut tinyEnv .forward (fun _ => 1) 1 tinyVolume))

/-- The copy is redone; then a rollback is cut off, and redone. -/
def tinyTurned : Nat → Bytes :=
  stepCut tinyEnv .abort (fun _ => 1) 2
    (stepCut tinyEnv .abort (fun _ => 1) 1 (stepCut tinyEnv .forward (fun _ => 1) 2 tinyCut))

theorem tinyCut_run : RekeyRun tinyEnv tinyVolume tinyCut (some .forward) ∧
    Underway tinyEnv tinyVolume 5 1 3 true tinyCut := by
  obtain ⟨hstaged, hbegun⟩ := RekeyRun.stage tiny_planned tiny_blank (fun _ => 1)
  obtain ⟨hcopied, hunder⟩ := hstaged.copyDone tiny_planned (.inl rfl) hbegun (by decide)
    (.inl rfl) (fun _ => 1)
  exact hcopied.copyCut tiny_planned (.inl rfl) hunder (by decide) (by decide) (.inl rfl) (fun _ => 1)

theorem tinyTurned_run : RekeyRun tinyEnv tinyVolume tinyTurned none ∧
    Underway tinyEnv tinyVolume 5 1 4 true tinyTurned := by
  obtain ⟨hcut, hunder⟩ := tinyCut_run
  obtain ⟨hredone, hcopied⟩ := hcut.copyDone tiny_planned (.inr rfl) hunder (by decide)
    (.inr rfl) (fun _ => 1)
  obtain ⟨hback, hrestored⟩ := hredone.restoreCut tiny_planned (.inl rfl) hcopied (by decide)
    (by decide) (.inl rfl) (fun _ => 1)
  exact hback.restoreDone tiny_planned (.inr rfl) hrestored (by decide) (by decide) (.inr rfl)
    (fun _ => 1)

theorem tinyVolume_forward :
    NotStarted tinyEnv tinyVolume ∧ Underway tinyEnv tinyVolume 5 1 3 true tinyCut ∧
      ReadAt tinyEnv .forward tinyCut 3 (plainBlock tinyEnv tinyVolume 3) :=
  ⟨tiny_notStarted, tinyCut_run.2, forward_rekey_keeps_blocks tiny_notStarted
    (.step (fun _ => 1) 1 (.step (fun _ => 1) 2 (.step (fun _ => 1) 1 .start))) tiny_count⟩

theorem tinyVolume_turned :
    NotStarted tinyEnv tinyVolume ∧ RekeyRun tinyEnv tinyVolume tinyCut (some .forward) ∧
      Recoverable tinyEnv tinyTurned 3 (plainBlock tinyEnv tinyVolume 3) ∧
      ∀ dir, ReadAt tinyEnv dir tinyTurned 3 (plainBlock tinyEnv tinyVolume 3) :=
  have hkept := rekey_with_aborts_keeps_blocks tiny_notStarted tinyTurned_run.1 tiny_count
  ⟨tiny_notStarted, tinyCut_run.1, hkept.1, fun dir => hkept.2 dir (.inl rfl)⟩

/-- A crash inside the third copy, then an abort: block 3 is gone. -/
theorem turned_copy_loses_block :
    ∃ blocks, AnyRun tinyEnv tinyVolume blocks ∧ 3 < legacyBlockCount tinyEnv tinyVolume ∧
      ¬ Recoverable tinyEnv blocks 3 (plainBlock tinyEnv tinyVolume 3) := by
  obtain ⟨blocks, hrun, hkey, hlow, hhigh⟩ := turned_copy tiny_planned (by decide) tiny_blank
    (fun _ => 1)
  refine ⟨blocks, hrun, tiny_count, ?_⟩
  have hplain : ∀ k, k ≠ 0 → plainBlock tinyEnv tinyVolume k 0 = 0#8 := by
    intro k hk
    have hzero : tinyVolume k = zeros := if_neg hk
    rw [plainBlock, hzero]
    rfl
  rintro (hlegacy | ⟨key, hk, htarget⟩)
  · have hat := congrFun hlegacy 0
    rw [show blocks 3 = _ from hlow, hplain 3 (by decide)] at hat
    have hflip : ~~~(plainBlock tinyEnv tinyVolume 2 0) = 0#8 := hat
    rw [hplain 2 (by decide)] at hflip
    exact absurd hflip (by decide)
  · obtain rfl : key = true := Option.some.inj (hk.symm.trans hkey)
    have hat := congrFun htarget 0
    rw [show blocks (3 + 1) = _ from hhigh, hplain 3 (by decide)] at hat
    have hflip : ~~~(plainBlock tinyEnv tinyVolume 4 0) = 0#8 := hat
    rw [hplain 4 (by decide)] at hflip
    exact absurd hflip (by decide)

theorem tinyCut_settled : SettledRun tinyEnv tinyVolume tinyCut := by
  obtain ⟨hstaged, hbegun⟩ := RekeyRun.stage tiny_planned tiny_blank (fun _ => 1)
  have hstage : SettledRun tinyEnv tinyVolume (stepCut tinyEnv .forward (fun _ => 1) 1 tinyVolume) := by
    obtain ⟨b, hw, -⟩ := stage_begins tiny_planned (fun _ => 1) rfl tiny_blank fun k _ => rfl
    exact .step (fun _ => 1) 1 .start (by rw [hw]; rfl)
  obtain ⟨-, hunder⟩ := hstaged.copyDone tiny_planned (.inl rfl) hbegun (by decide) (.inl rfl)
    (fun _ => 1)
  exact (hstage.copy tiny_planned hbegun (by decide) (.inl rfl) (fun _ => 1) 2).copy tiny_planned
    hunder (by decide) (.inl rfl) (fun _ => 1) 1

/-- The rekey that a crash cut off inside its second copy is brought to its end. -/
theorem tinyVolume_finishes :
    Underway tinyEnv tinyVolume 5 1 3 true tinyCut ∧
      ∃ m, RekeyFinished tinyEnv (legacyPlan tinyEnv 5).scratchFirstLba
        (stepsDone tinyEnv (fun _ _ => 1) m tinyCut) :=
  ⟨tinyCut_run.2, settled_rekey_finishes (rekeyPlan_planned tiny_planned)
    (by rw [legacyPlan_ready tiny_planned.ready])
    (by rw [scratchLba_ready tiny_planned.ready]; exact tiny_blank) tinyCut_settled _⟩

/-- A crash inside the commit: no further step ever ends the rekey. -/
theorem cut_commit_never_finishes :
    ∃ blocks, ForwardRun tinyEnv tinyVolume blocks ∧
      (∀ salt, (rekeyOrchestratedStep tinyEnv false salt blocks).status =
        some .cleanupScratchBuildFailed) ∧
      ∀ salts m, ¬ RekeyFinished tinyEnv (legacyPlan tinyEnv 5).scratchFirstLba
        (stepsDone tinyEnv salts m blocks) := by
  obtain ⟨blocks, hrun, hscratch, hstuck⟩ := cut_commit_stuck tiny_planned tiny_blank (fun _ => 1)
  refine ⟨blocks, hrun, fun salt => by rw [hstuck]; rfl, ?_⟩
  have hstay : ∀ m salts, stepsDone tinyEnv salts m blocks = blocks := by
    intro m
    induction m with
    | zero => exact fun _ => rfl
    | succ m ih =>
      intro salts
      have hw : stepWrites tinyEnv .forward (salts 0) blocks = [] := by
        rw [stepWrites, show (RekeyDirection.forward == .abort) = false from rfl, hstuck]
        rfl
      rw [stepsDone, hw]
      exact ih _
  intro salts m hfin
  rw [hstay, scratchLba_ready tiny_planned.ready] at hfin
  exact absurd hfin.2.2 (by rw [hscratch]; exact Bool.false_ne_true)

def AbortCompleted (status : Option RekeyExecStatus) : Prop :=
  status = some .rollbackComplete ∨ status = some .cleanupScratchNotNeeded

section
variable {K : Type} (env : VolumeEnv K) (salts : Nat → Fin 16 → Byte)

/-- The blocks after `n` aborts that are not interrupted. -/
def abortsDone (blocks : Nat → Bytes) : Nat → Nat → Bytes
  | 0 => blocks
  | n + 1 =>
    applyWrites (abortsDone blocks n) (stepWrites env .abort (salts n) (abortsDone blocks n))

/-- What the abort after `n` others reports. -/
def abortStatus (blocks : Nat → Bytes) (n : Nat) : Option RekeyExecStatus :=
  (rekeyOrchestratedStep env true (salts n) (abortsDone env salts blocks n)).status

end

variable {K : Type} {env : VolumeEnv K} {start blocks : Nat → Bytes} {count t : Nat} {key : K}
variable {salts : Nat → Fin 16 → Byte}

/-! ### Steps that are not interrupted -/

theorem stepCut_whole (dir : RekeyDirection) (salt : Fin 16 → Byte) (blocks : Nat → Bytes) :
    stepCut env dir salt (stepWrites env dir salt blocks).length blocks =
      applyWrites blocks (stepWrites env dir salt blocks) := by
  rw [stepCut, take_length]

theorem moveInterrupted_whole (ws : List (Nat × Bytes)) : moveInterrupted ws ws.length = false := by
  match ws with
  | [] => rfl
  | [_] => rfl
  | [_, _] => rfl
  | _ :: _ :: _ :: _ => rfl

theorem commitInterrupted_whole (ws : List (Nat × Bytes)) : commitInterrupted ws ws.length = false := by
  match ws with
  | [] => rfl
  | [_] => rfl
  | [_, _] => rfl
  | _ :: _ :: _ :: _ => rfl

theorem pendingAfter_whole (dir : RekeyDirection) (ws : List (Nat × Bytes)) : pendingAfter dir ws ws.length none = none := by
  rw [pendingAfter, moveInterrupted_whole]
  exact ite_self _

/-- A whole step leads from a run with nothing interrupted to one. -/
theorem RekeyRun.whole (h : RekeyRun env start blocks none) (dir : RekeyDirection) (salt : Fin 16 → Byte) :
    RekeyRun env start (applyWrites blocks (stepWrites env dir salt blocks)) none := by
  have hstep := h.step dir salt (stepWrites env dir salt blocks).length (.inl rfl)
  rwa [stepCut_whole, pendingAfter_whole] at hstep

theorem stepsDone_run (m : Nat) (salts : Nat → Fin 16 → Byte) (h : RekeyRun env start blocks none) :
    RekeyRun env start (stepsDone env salts m blocks) none := by
  induction m generalizing blocks salts with
  | zero => exact h
  | succ m ih => exact ih _ (h.whole .forward (salts 0))

theorem abortsDone_run (n : Nat) (h : RekeyRun env start blocks none) :
    RekeyRun env start (abortsDone env salts blocks n) none := by
  induction n with
  | zero => exact h
  | succ n ih => exact ih.whole .abort (salts n)

theorem stepsDone_settled (m : Nat) (salts : Nat → Fin 16 → Byte) (h : SettledRun env start blocks) :
    SettledRun env start (stepsDone env salts m blocks) := by
  induction m generalizing blocks salts with
  | zero => exact h
  | succ m ih =>
    have hstep := h.step (salts 0) (stepWrites env .forward (salts 0) blocks).length
      (commitInterrupted_whole _)
    rw [stepCut_whole] at hstep
    exact ih _ hstep

theorem abortsDone_succ (n : Nat) : abortsDone env salts blocks (n + 1) = abortsDone env (fun i => salts (i + 1))
      (applyWrites blocks (stepWrites env .abort (salts 0) blocks)) n := by
  induction n with
  | zero => rfl
  | succ n ih => rw [abortsDone, ih, abortsDone]

theorem abortStatus_succ (n : Nat) : abortStatus env salts blocks (n + 1) = abortStatus env (fun i => salts (i + 1))
      (applyWrites blocks (stepWrites env .abort (salts 0) blocks)) n := by
  rw [abortStatus, abortStatus, abortsDone_succ]

/-! ### Aborts before the commit -/

section
variable (hplan : PlannedBlock env count (start 0)) {salt : Fin 16 → Byte} {m : Nat}
include hplan

theorem Underway.abort_status (h : Underway env start count m t key blocks) (hm : m ≤ count) :
    (rekeyOrchestratedStep env true salt blocks).status = some (if m ≤ 1 then .rollbackComplete else .rollbackStepDone) := by
  have hplan' := h.planned hplan
  rw [orchestrated_progress hplan' hm h.staged, if_pos rfl]
  by_cases hlast : m ≤ 1
  · rw [rollback_last hplan' hlast h.staged, if_pos hlast]
  · obtain ⟨b, hstep, -⟩ := rekeyRollback_step hplan' (by omega) hm h.staged
    rw [hstep, if_neg hlast]

/-- An abort of a volume that is not switched leaves it so, and every block is in its
old place when it reports that there is nothing left to do. -/
theorem abort_step (h : RekeyPhase env start count blocks none) (hopen : volumeHeaderLooksValid (blocks 0) = false) :
    volumeHeaderLooksValid (applyWrites blocks (stepWrites env .abort salt blocks) 0) = false ∧
      (AbortCompleted (rekeyOrchestratedStep env true salt blocks).status → ∀ k < count, env.crypto.decrypt env.legacyKey k
          (applyWrites blocks (stepWrites env .abort salt blocks) k) = plainBlock env start k) := by
  cases h with
  | idle first scratch legacy =>
    have hw : stepWrites env .abort salt blocks = [] := by
      have hplan' : PlannedBlock env count (blocks 0) := first ▸ hplan
      have hstep := @orchestrated_idle K env count blocks salt true hplan' scratch
      rw [stepWrites, show (RekeyDirection.abort == .abort) = true from rfl, hstep]
      split <;> rfl
    rw [hw, applyWrites_nil]
    exact ⟨hopen, fun _ => legacy⟩
  | @moving m t key border under =>
    by_cases hlast : m ≤ 1
    · rw [under.forget hplan hlast (by omega)]
      refine ⟨?_, fun _ k hk => ?_⟩
      · rw [applyWrites, applyWrites, update_of_ne (by omega)]
        exact hopen
      · rw [applyWrites, applyWrites, update_of_ne (by omega)]
        exact under.moved.legacy k hk (by omega)
    · obtain ⟨b, b', hw, -, hdone⟩ := under.restore hplan (by omega) (by omega) (.inl (by omega))
      rw [hw]
      refine ⟨?_, fun hstatus => ?_⟩
      · have hfirst := hdone.first
        rw [applyWrites, applyWrites, applyWrites, hfirst]
        exact hplan.legacy
      · rw [under.abort_status hplan (by omega), if_neg hlast] at hstatus
        rcases hstatus with hs | hs <;> cases hs
  | switched hsw scratch =>
    exact absurd hsw.header.looksValid (by rw [hopen]; exact Bool.false_ne_true)

theorem aborts_open (hrun : RekeyRun env start blocks none) (hs : NotStarted env start)
    (hopen : volumeHeaderLooksValid (blocks 0) = false) (n : Nat) :
    volumeHeaderLooksValid (abortsDone env salts blocks n 0) = false := by
  induction n with
  | zero => exact hopen
  | succ n ih => exact (abort_step hplan (run_phase hplan hs (abortsDone_run n hrun)) ih).1

theorem Underway.aborts_complete (h : Underway env start count m t key blocks)
    (border : t + m = count ∨ (m = 0 ∧ t + 1 = count)) (salts : Nat → Fin 16 → Byte) :
    ∃ n, AbortCompleted (abortStatus env salts blocks n) := by
  induction m generalizing t blocks salts with
  | zero => exact ⟨0, .inl (h.abort_status hplan (Nat.zero_le count))⟩
  | succ m ih =>
    have hm : m + 1 ≤ count := by omega
    by_cases hlast : m + 1 ≤ 1
    · refine ⟨0, .inl ?_⟩
      have hstatus := @Underway.abort_status K env start blocks count t key hplan (salts 0) _ h hm
      rwa [if_pos hlast] at hstatus
    · obtain ⟨b, b', hw, -, hdone⟩ :=
        @Underway.restore K env start blocks count t key hplan (salts 0) _ h (by omega) hm
          (by omega)
      obtain ⟨n, hn⟩ := ih hdone (by omega) (fun i => salts (i + 1))
      refine ⟨n + 1, ?_⟩
      rw [abortStatus_succ, hw]
      exact hn

theorem stepsDone_aborts (hs : NotStarted env start) (hz : bytesZero (start (count + 1)) 0 4096 = true)
    (hopen : volumeHeaderLooksValid (stepsDone env salts m start 0) = false) (salts' : Nat → Fin 16 → Byte) :
    ∃ n, AbortCompleted (abortStatus env salts' (stepsDone env salts m start) n) := by
  have hphase := run_phase hplan hs (stepsDone_run m salts .start)
  obtain ⟨r, hr⟩ := settled_remaining hplan hz (stepsDone_settled m salts .start)
  generalize stepsDone env salts m start = blocks at hopen hphase hr ⊢
  cases hphase with
  | moving border under => exact under.aborts_complete hplan border salts'
  | switched hsw scratch =>
    exact absurd hsw.header.looksValid (by rw [hopen]; exact Bool.false_ne_true)
  | idle first scratch legacy =>
    have hplan' : PlannedBlock env count (blocks 0) := first ▸ hplan
    cases hr with
    | finished hsw _ => exact absurd hsw.header.looksValid (by rw [hopen]; exact Bool.false_ne_true)
    | switched hsw _ => exact absurd hsw.header.looksValid (by rw [hopen]; exact Bool.false_ne_true)
    | moving le _ under =>
      -- a scratch block under way is not one the driver refuses
      obtain ⟨s, hsome, -⟩ := orchScratch_progress hplan.ready le under.staged
      rw [scratch] at hsome
      cases hsome
    | idle _ hblank _ =>
      refine ⟨0, .inr ?_⟩
      have hstep := @orchestrated_idle K env count blocks (salts' 0) true hplan' scratch
      rw [if_pos hblank, if_pos rfl] at hstep
      exact congrArg RekeyStep.status hstep

end

/-- Aborting a rekey that is not committed: when the driver reports that there is nothing
left to abort, every block reads under the legacy keys as it did at the start; and on a
volume that can be rekeyed the driver comes to report it. -/
theorem aborted_rekey_restores (hs : NotStarted env start) (salts salts' : Nat → Fin 16 → Byte)
    (m : Nat) (hopen : volumeHeaderLooksValid (stepsDone env salts m start 0) = false) :
    (∀ n, AbortCompleted (abortStatus env salts' (stepsDone env salts m start) n) →
      ∀ k < legacyBlockCount env start, env.crypto.decrypt env.legacyKey k
        (abortsDone env salts' (stepsDone env salts m start) (n + 1) k) = plainBlock env start k) ∧
    ∀ plan, rekeyPlan env start = some plan → plan.status = .ready →
      bytesZero (start plan.scratchFirstLba) 0 4096 = true →
      ∃ n, AbortCompleted (abortStatus env salts' (stepsDone env salts m start) n) := by
  have hrun := stepsDone_run m salts (@RekeyRun.start K env start)
  refine ⟨fun n hdone k hk => ?_, fun plan hplan hready hz => ?_⟩
  · by_cases hp : ∃ count, PlannedBlock env count (start 0)
    · obtain ⟨count, hplan⟩ := hp
      rw [legacyBlockCount_planned hplan] at hk
      exact (abort_step hplan (run_phase hplan hs (abortsDone_run n hrun))
        (aborts_open hplan hrun hs hopen n)).2 hdone k hk
    · have hsame := (run_unplanned hs (fun count h => hp ⟨count, h⟩)
        (@abortsDone_run K env start _ salts' (n + 1) hrun)).1
      rw [hsame]
      rfl
  · obtain ⟨count, hp, rfl⟩ := planned_of_ready hplan hready
    rw [scratchLba_ready hp.ready] at hz
    exact stepsDone_aborts hp hs hz hopen salts'

theorem stepsDone_underway (hplan : PlannedBlock env count (start 0)) {i j : Nat}
    (h : Underway env start count i (count - i) key blocks) (hij : i + j ≤ count) (salts : Nat → Fin 16 → Byte) :
    Underway env start count (i + j) (count - (i + j)) key (stepsDone env salts j blocks) := by
  induction j generalizing i blocks salts with
  | zero => exact h
  | succ j ih =>
    obtain ⟨b, b', hw, -, hdone⟩ :=
      @Underway.copy K env start blocks count (count - i) key hplan (salts 0) i h (by omega)
        (.inl (by omega))
    rw [stepsDone, hw, show i + (j + 1) = i + 1 + j by omega]
    refine ih ?_ (by omega) _
    rw [show count - (i + 1) = count - 1 - i by omega]
    exact hdone

theorem tinyVolume_aborted :
    ∃ n, AbortCompleted (abortStatus tinyEnv (fun _ _ => 1) (stepsDone tinyEnv (fun _ _ => 1) 3
        tinyVolume) n) ∧
      ∀ k < legacyBlockCount tinyEnv tinyVolume, tinyEnv.crypto.decrypt tinyEnv.legacyKey k
        (abortsDone tinyEnv (fun _ _ => 1) (stepsDone tinyEnv (fun _ _ => 1) 3 tinyVolume)
          (n + 1) k) =
          plainBlock tinyEnv tinyVolume k := by
  have hopen :
      volumeHeaderLooksValid (stepsDone tinyEnv (fun _ _ => 1) 3 tinyVolume 0) = false := by
    obtain ⟨b, hw, hbegun⟩ := stage_begins tiny_planned (fun _ => 1) rfl tiny_blank fun k _ => rfl
    have hcopied := stepsDone_underway tiny_planned hbegun (show 0 + 2 ≤ 5 by decide) (fun _ _ => 1)
    rw [stepsDone, hw]
    exact hcopied.first ▸ tiny_planned.legacy
  have hall := aborted_rekey_restores tiny_notStarted (fun _ _ => 1) (fun _ _ => 1) 3 hopen
  obtain ⟨n, hn⟩ := hall.2 _ (rekeyPlan_planned tiny_planned)
    (by rw [legacyPlan_ready tiny_planned.ready])
    (by rw [scratchLba_ready tiny_planned.ready]; exact tiny_blank)
  exact ⟨n, hn, hall.1 n hn⟩

end CapyOS.Proofs
