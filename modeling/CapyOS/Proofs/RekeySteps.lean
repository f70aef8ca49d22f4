import CapyOS.Proofs.RekeyCodec

namespace CapyOS.Proofs
open Lib Function

variable {K : Type} {env : VolumeEnv K} {count : Nat} {c c' : RekeyCheckpoint} {key : K}
variable {scratch : Bytes} {m : RekeyStageManifest}

/-- A scratch block of a rekey of `count` blocks: its checkpoint, its manifest and
the keys of the header it stages. -/
structure StagedWith (env : VolumeEnv K) (count : Nat) (c : RekeyCheckpoint) (key : K)
    (scratch : Bytes) (m : RekeyStageManifest) : Prop where
  checkpoint : rekeyCheckpointParse (window scratch stageCheckpointOffset) = some c
  manifest : stageManifestParse (window scratch stageManifestOffset) = some m
  planned : planMatchesManifest (legacyPlan env count) m = true
  header : volumeHeaderParse (window scratch stageHeaderOffset) =
    some (window scratch stageHeaderOffset)
  integrity : scratchIntegrityValid scratch m = true
  algo : VolumeHeader.kdfAlgoId (window scratch stageHeaderOffset) = volumeKdfAlgoArgon2id
  offset : VolumeHeader.dataOffsetLba (window scratch stageHeaderOffset) = 1
  keys : volumeHeaderDeriveKeys env.crypto (window scratch stageHeaderOffset) = some key

def Staged (env : VolumeEnv K) (count : Nat) (c : RekeyCheckpoint) (key : K) (scratch : Bytes) :
    Prop :=
  ∃ m, StagedWith env count c key scratch m

theorem StagedWith.parse (h : StagedWith env count c key scratch m) :
    scratchParse scratch = some ⟨c, m, window scratch stageHeaderOffset⟩ := by
  simp only [scratchParse, h.checkpoint, h.manifest, h.header, Option.bind_eq_bind, Option.bind_some, h.integrity, if_true]

/-- A block with a checkpoint in it is not zero. -/
theorem checkpoint_nonzero {c : RekeyCheckpoint}
    (h : rekeyCheckpointParse (window scratch stageCheckpointOffset) = some c) :
    bytesZero scratch 0 4096 = false := by
  obtain ⟨hv, hload⟩ := rekeyCheckpointParse_some h
  apply bytesZero_false
  have hwin : load (window scratch stageCheckpointOffset) 0 4 = load scratch 0 4 :=
    load_congr fun i _ _ => by simp [window, stageCheckpointOffset]
  have hmagic : c.magic0 = checkpointMagic0 := by
    simp only [checkpointSemanticValid, Bool.and_eq_true, beq_iff_eq] at hv
    exact hv.1.1.1.1.1.1.1.1.1.1.1.1.1
  rw [← hwin, ← hload, hmagic]
  decide

theorem Staged.nonzero (h : Staged env count c key scratch) : bytesZero scratch 0 4096 = false := by
  obtain ⟨m, h⟩ := h
  exact checkpoint_nonzero h.checkpoint

theorem derive_argon2id {h : VolumeHeader} {cr : VolumeCrypto K}
    (hk : volumeHeaderDeriveKeys cr h = some key) (ha : h.kdfAlgoId = volumeKdfAlgoArgon2id) :
    cr.deriveXtsKeysArgon2id (listBytes h.kdfSalt h.kdfSaltLen) h.kdfTCost h.kdfMCost = key ∧
      volumeHeaderVerifyCheckTag cr h key = true := by
  have hne : (volumeKdfAlgoArgon2id == volumeKdfAlgoPbkdf2Sha256) = false := by decide
  simp only [volumeHeaderDeriveKeys, ha, hne, Bool.false_eq_true, if_false] at hk
  split at hk
  · split at hk
    · rename_i hv
      obtain rfl := Option.some.inj hk
      exact ⟨rfl, hv⟩
    · cases hk
  · cases hk

theorem manifest_words {crc : Nat} (hw : ∀ w ∈ m.words, w < 2 ^ 32) (hcrc : crc < 2 ^ 32) :
    ∀ w ∈ ({ m with checkpointCrc32 := crc } : RekeyStageManifest).words, w < 2 ^ 32 := by
  intro w hm
  have hset : ({ m with checkpointCrc32 := crc } : RekeyStageManifest).words = m.words.set 18 crc := rfl
  rw [hset] at hm
  rcases List.mem_or_eq_of_mem_set hm with hm | rfl
  · exact hw w hm
  · exact hcrc

/-- The bytes of a scratch block after its checkpoint and its manifest were
written over. -/
structure Overwritten (scratch scratch' : Bytes) (record manifest : Bytes) : Prop where
  checkpoint : ∀ i, i < 128 → scratch' i = record i
  header : ∀ i, i < 512 → scratch' (512 + i) = scratch (512 + i)
  manifest : ∀ i, i < 128 → scratch' (1024 + i) = manifest i

theorem overwritten_blit (scratch record manifest : Bytes) :
    Overwritten scratch (blit (blit scratch 0 128 record) 1024 128 manifest) record manifest where
  checkpoint := by
    intro i hi
    rw [blit_outside (.inl (by omega))]
    simp [blit, hi]
  header := by
    intro i hi
    rw [blit_outside (.inl (by omega)), blit_outside (.inr (by omega))]
  manifest := by
    intro i hi
    exact blit_inside hi

/-- A valid checkpoint can always be put into a scratch block of the rekey. -/
theorem StagedWith.advance (h : StagedWith env count c key scratch m)
    (hv : checkpointSemanticValid c' = true) (hw : ∀ w ∈ c'.words, w < 2 ^ 32) :
    ∃ scratch', scratchAdvance scratch m c' = some scratch' ∧ Staged env count c' key scratch' := by
  obtain ⟨hmv, hmw⟩ := stageManifestParse_some h.manifest
  generalize hcrc : volumeHeaderCrc32 (window (blit scratch stageCheckpointOffset checkpointSize
    (crcRecord c'.words)) stageCheckpointOffset) checkpointSize = crc
  have hcrclt : crc < 2 ^ 32 := by
    rw [← hcrc]
    exact volumeHeaderCrc32_lt _ _
  have hadv : scratchAdvance scratch m c' = some (blit (blit scratch 0 128 (crcRecord c'.words)) 1024
      128 (crcRecord ({ m with checkpointCrc32 := crc } : RekeyStageManifest).words)) := by
    have hser : rekeyCheckpointSerialize c' = some (crcRecord c'.words) := by
      simp only [rekeyCheckpointSerialize, hv, if_true]
    have hmser : stageManifestSerialize { m with checkpointCrc32 := crc } =
        some (crcRecord ({ m with checkpointCrc32 := crc } : RekeyStageManifest).words) := by
      have hmv' : stageManifestValid { m with checkpointCrc32 := crc } = true := hmv
      simp only [stageManifestSerialize, hmv', if_true]
    simp only [scratchAdvance, hser, Option.bind_eq_bind, Option.bind_some, hcrc, hmser]
    rfl
  refine ⟨_, hadv, { m with checkpointCrc32 := crc }, ?_⟩
  generalize hs : blit (blit scratch 0 128 (crcRecord c'.words)) 1024 128
    (crcRecord ({ m with checkpointCrc32 := crc } : RekeyStageManifest).words) = scratch'
  have hover : Overwritten scratch scratch' (crcRecord c'.words)
      (crcRecord ({ m with checkpointCrc32 := crc } : RekeyStageManifest).words) := by
    rw [← hs]
    exact overwritten_blit _ _ _
  have hsame : SameHeader (window scratch' stageHeaderOffset) (window scratch stageHeaderOffset) :=
    .of_bytes hover.header
  have hint := h.integrity
  simp only [scratchIntegrityValid, Bool.and_eq_true, beq_iff_eq] at hint
  exact
    { checkpoint := rekeyCheckpoint_roundTrip hv hw fun i hi => by
        rw [window, stageCheckpointOffset, Nat.zero_add]
        exact hover.checkpoint i hi
      manifest := stageManifest_roundTrip hmv (manifest_words hmw hcrclt) hover.manifest
      planned := h.planned
      header := hsame.parse h.header
      integrity := by
        simp only [scratchIntegrityValid, Bool.and_eq_true, beq_iff_eq]
        refine ⟨?_, ?_⟩
        · rw [← hcrc]
          apply volumeHeaderCrc32_congr
          intro i hi
          have hi : i < 128 := hi
          rw [window, window, stageCheckpointOffset, Nat.zero_add, hover.checkpoint i hi]
          simp [blit, checkpointSize, hi]
        · rw [hint.2]
          exact volumeHeaderCrc32_congr fun i hi => (hover.header i hi).symm
      algo := hsame.algo.trans h.algo
      offset := hsame.offset.trans h.offset
      keys := (hsame.deriveKeys env.crypto).trans h.keys }

theorem checkpointInit_ready (h : ReadyCount env count) : rekeyCheckpointInit (legacyPlan env count) 0 =
      some { progressCheckpoint env count 0 with phaseFlags := 3 } := by
  have hgeo := geometry_valid h
  have hpos := h.pos
  have hroom := h.room
  have hlt := env.blockCount_lt
  have hvalid : checkpointPlanValid (legacyPlan env count) = true := by
    rw [legacyPlan_ready h]
    simp only [checkpointPlanValid, hgeo, beq_self_eq_true, Bool.and_true, Bool.true_and, Bool.and_eq_true, bne_iff_ne]
    exact ⟨by omega, by omega⟩
  have hlast : (0 == count) = false := by simpa using Nat.ne_of_lt hpos
  have hne : 0 ≠ count := Nat.ne_of_lt hpos
  rw [rekeyCheckpointInit, hvalid, legacyPlan_ready h]
  simp only [Nat.zero_le, decide_true, Bool.and_self, if_true, hlast, Bool.false_eq_true, if_false,
    Nat.lt_irrefl, sub32_of_le (by omega : count - 1 < 2 ^ 32) (Nat.zero_le _),
    sub32_of_le (by omega : count < 2 ^ 32) (Nat.zero_le _), Nat.sub_zero]
  simp only [progressCheckpoint, Nat.sub_zero, if_true, hne, if_false]
  rfl

theorem stageManifest_valid (h : ReadyCount env count) (x y : Nat) :
    stageManifestValid (stageManifest (legacyPlan env count) x y) = true := by
  have hgeo := geometry_valid h
  have hpos := h.pos
  have hroom := h.room
  have hoff : stageOffsetsValid (stageManifest (legacyPlan env count) x y) = true := rfl
  simp only [stageManifestValid, hoff]
  rw [legacyPlan_ready h]
  simp only [stageManifest, hgeo, beq_self_eq_true, Bool.and_true, Bool.true_and, Bool.and_eq_true, bne_iff_ne]
  exact ⟨by omega, by omega⟩

theorem stageManifest_words (h : ReadyCount env count) {x y : Nat} (hx : x < 2 ^ 32)
    (hy : y < 2 ^ 32) : ∀ w ∈ (stageManifest (legacyPlan env count) x y).words, w < 2 ^ 32 := by
  have hroom := h.room
  have hlt := env.blockCount_lt
  intro w hw
  rw [legacyPlan_ready h] at hw
  simp only [RekeyStageManifest.words, stageManifest, List.mem_cons, List.not_mem_nil, or_false,
    stageMagic0, stageMagic1, stageVersion, stageCheckpointOffset, checkpointSize, stageHeaderOffset,
    stageHeaderSize, stageManifestOffset, stageManifestSize] at hw
  rcases hw with rfl | rfl | rfl | rfl | rfl | rfl | rfl | rfl | rfl | rfl | rfl | rfl | rfl | rfl |
    rfl | rfl | rfl | rfl | rfl | rfl
  all_goals omega

theorem stageScratch_staged (h : ReadyCount env count) {salt : List Byte} (hs : salt.length = 16) :
    ∃ scratch, stageScratch env (legacyPlan env count) salt = some scratch ∧
      Staged env count (progressCheckpoint env count 0) (saltKey env salt) scratch := by
  obtain ⟨hparse, halgo, hoff, hkeys⟩ := @staged_accepted K env salt hs
  generalize himage : volumeHeaderSerialize
    (volumeHeaderComputeCheckTag env.crypto (freshHeader salt) (saltKey env salt)) = image at *
  generalize hrecord : crcRecord (progressCheckpoint env count 0).words = record
  generalize hbase : blit (blit zeros 0 128 record) 512 512 image = base
  generalize hx : volumeHeaderCrc32 (window base 0) 128 = x
  generalize hy : volumeHeaderCrc32 (window base 512) 512 = y
  have hxlt : x < 2 ^ 32 := hx ▸ volumeHeaderCrc32_lt _ _
  have hylt : y < 2 ^ 32 := hy ▸ volumeHeaderCrc32_lt _ _
  have hv := progress_semanticValid h (Nat.zero_le count)
  have hmv := stageManifest_valid h x y
  have hstage : stageScratch env (legacyPlan env count) salt =
      some (blit base 1024 128 (crcRecord (stageManifest (legacyPlan env count) x y).words)) := by
    have hser : rekeyCheckpointSerialize (progressCheckpoint env count 0) = some record := by
      rw [rekeyCheckpointSerialize, hv, ← hrecord]
      rfl
    have hphase : ({ progressCheckpoint env count 0 with phaseFlags := 3 ||| phaseStageHeader } :
        RekeyCheckpoint) = progressCheckpoint env count 0 := rfl
    have hmser : stageManifestSerialize (stageManifest (legacyPlan env count) x y) =
        some (crcRecord (stageManifest (legacyPlan env count) x y).words) := by
      rw [stageManifestSerialize, hmv]
      rfl
    simp only [stageScratch, checkpointInit_ready h, Option.bind_eq_bind, Option.bind_some, hphase,
      hser, stagedHeader_eq hs, himage, stageCheckpointOffset, checkpointSize, stageHeaderOffset,
      stageHeaderSize, hbase, hx, hy, hmser, stageManifestOffset, stageManifestSize]
  refine ⟨_, hstage, stageManifest (legacyPlan env count) x y, ?_⟩
  generalize hscr : blit base 1024 128 (crcRecord (stageManifest (legacyPlan env count) x y).words) =
    scratch
  have hfront : ∀ i, i < 1024 → scratch i = base i := by
    intro i hi
    rw [← hscr]
    exact blit_outside (.inl hi)
  have hfirst : ∀ i, i < 128 → base i = record i := by
    intro i hi
    rw [← hbase, blit_outside (.inl (by omega))]
    simp [blit, hi]
  have hsecond : ∀ i, i < 512 → base (512 + i) = image i := by
    intro i hi
    rw [← hbase]
    exact blit_inside hi
  have hsame : SameHeader (window scratch stageHeaderOffset) image :=
    .of_bytes fun i hi => (hfront (512 + i) (by omega)).trans (hsecond i hi)
  exact
    { checkpoint := rekeyCheckpoint_roundTrip hv (progress_words h (Nat.zero_le count)) fun i hi => by
        rw [window, stageCheckpointOffset, Nat.zero_add, hfront i (by omega), hfirst i hi, hrecord]
      manifest := stageManifest_roundTrip hmv (stageManifest_words h hxlt hylt) fun i hi => by
        rw [← hscr]
        exact blit_inside hi
      planned := by simp [planMatchesManifest, stageManifest]
      header := hsame.parse hparse
      integrity := by
        simp only [scratchIntegrityValid, Bool.and_eq_true, beq_iff_eq]
        refine ⟨?_, ?_⟩
        · refine hx.symm.trans (volumeHeaderCrc32_congr fun i hi => ?_)
          have hi : i < 128 := hi
          exact (hfront _ (by omega)).symm
        · refine hy.symm.trans (volumeHeaderCrc32_congr fun i hi => ?_)
          have hi : i < 512 := hi
          exact (hfront _ (by omega)).symm
      algo := hsame.algo.trans halgo
      offset := hsame.offset.trans hoff
      keys := (hsame.deriveKeys env.crypto).trans hkeys }

/-- Block 0 of a legacy volume whose file system of `count` blocks leaves room for
the header and the scratch block. -/
structure PlannedBlock (env : VolumeEnv K) (count : Nat) (block : Bytes) : Prop where
  legacy : volumeHeaderLooksValid block = false
  super : capyfsSuperValid (env.crypto.decrypt env.legacyKey 0 block)
    (fun n => decide (n ≤ env.blockCount)) = true
  counted : load (env.crypto.decrypt env.legacyKey 0 block) 12 4 = count
  ready : ReadyCount env count

variable {blocks : Nat → Bytes}

theorem rekeyPlan_planned (h : PlannedBlock env count (blocks 0)) : rekeyPlan env blocks = some (legacyPlan env count) := by
  have hroom := h.ready.room
  have hpos := h.ready.pos
  have htwo : ¬ env.blockCount < 2 := by omega
  have hne : count ≠ 0 := by omega
  simp only [rekeyPlan, rekeyPreflight, htwo, if_false, h.legacy, Bool.false_eq_true, h.super, if_true, h.counted, hne]

theorem withReadyPlan_planned (h : PlannedBlock env count (blocks 0)) (act : RekeyPlan → RekeyStep) :
    withReadyPlan env blocks act = act (legacyPlan env count) := by
  have hroom := h.ready.room
  have hplan := legacyPlan_ready h.ready
  have hgo : ¬ ((legacyPlan env count).status ≠ .ready ∨
      env.blockCount ≤ (legacyPlan env count).scratchFirstLba) := by
    rw [hplan]
    simp only [ne_eq, not_true_eq_false, false_or]
    omega
  have hnot : (legacyPlan env count).status ≠ .alreadyHeaderManaged := by
    rw [hplan]
    exact (by decide : RekeyPlanStatus.ready ≠ .alreadyHeaderManaged)
  simp only [withReadyPlan, rekeyPlan_planned h, hnot, if_false, hgo]

theorem scratchLba_ready (h : ReadyCount env count) : (legacyPlan env count).scratchFirstLba = count + 1 := by
  rw [legacyPlan_ready h]

theorem planMatches_progress (h : ReadyCount env count) (n : Nat) :
    planMatchesCheckpoint (legacyPlan env count) (progressCheckpoint env count n) = true := by
  rw [legacyPlan_ready h]
  simp [planMatchesCheckpoint, progressCheckpoint]

theorem stageHeader_step (h : PlannedBlock env count (blocks 0)) (salt : Fin 16 → Byte) :
    ∃ scratch', (rekeyStageHeader env salt blocks).writes = [(count + 1, scratch')] ∧
      Staged env count (progressCheckpoint env count 0) (saltKey env (List.ofFn salt)) scratch' := by
  obtain ⟨scratch', hs, hst⟩ := stageScratch_staged h.ready (List.length_ofFn (f := salt))
  refine ⟨scratch', ?_, hst⟩
  simp only [rekeyStageHeader, withReadyPlan_planned h, hs, scratchLba_ready h.ready]

section
variable (env : VolumeEnv K) (count n : Nat)

@[simp] theorem progress_flags : (progressCheckpoint env count n).flags = flagInProgress := rfl
@[simp] theorem progress_completed : (progressCheckpoint env count n).blocksCompleted = n := rfl
@[simp] theorem progress_total : (progressCheckpoint env count n).blocksTotal = count := rfl
@[simp] theorem progress_sourceFirst : (progressCheckpoint env count n).sourceFirstLba = 0 := rfl
@[simp] theorem progress_sourceLast : (progressCheckpoint env count n).sourceLastLba = count - 1 := rfl
@[simp] theorem progress_targetFirst : (progressCheckpoint env count n).targetFirstLba = 1 := rfl
@[simp] theorem progress_targetLast : (progressCheckpoint env count n).targetLastLba = count := rfl
@[simp] theorem progress_nextSource : (progressCheckpoint env count n).nextSourceLba = count - 1 - n := rfl

theorem progress_phases : decide ((progressCheckpoint env count n).phaseFlags &&& phaseStageHeader ≠ 0) = true ∧
      decide ((progressCheckpoint env count n).phaseFlags &&& terminalPhases = 0) = true := by
  by_cases hz : n = 0
  · have hp : (progressCheckpoint env count n).phaseFlags = 35 := if_pos hz
    rw [hp]
    decide
  · have hp : (progressCheckpoint env count n).phaseFlags = 39 := if_neg hz
    rw [hp]
    decide

end

/-- A checkpoint moved to `n` blocks is the checkpoint at `n` blocks. -/
theorem progress_eq {k n source target : Nat} (hn : n ≠ 0) (hsource : source = count - 1 - n)
    (htarget : target = if n = count then 1 else count - n) :
    (progressCheckpoint env count k).progress n source target = progressCheckpoint env count n := by
  subst hsource htarget
  simp only [RekeyCheckpoint.progress, progressCheckpoint, hn, if_false]
  rfl

theorem rekeyCopy_step {n : Nat} (h : PlannedBlock env count (blocks 0)) (hn : n < count)
    (hs : Staged env count (progressCheckpoint env count n) key (blocks (count + 1))) :
    ∃ scratch', (rekeyCopyStep env blocks).writes = [(count - n, env.crypto.encrypt key (count - 1 - n)
            (env.crypto.decrypt env.legacyKey (count - 1 - n) (blocks (count - 1 - n)))), (count + 1, scratch')] ∧
      Staged env count (progressCheckpoint env count (n + 1)) key scratch' := by
  obtain ⟨m, hm⟩ := hs
  obtain ⟨hkey, htag⟩ := derive_argon2id hm.keys hm.algo
  have hle : n + 1 ≤ count := hn
  obtain ⟨scratch', hadv, hst⟩ := hm.advance (progress_semanticValid h.ready hle)
    (progress_words h.ready hle)
  have hroom := h.ready.room
  have hpos := h.ready.pos
  have hlt := env.blockCount_lt
  refine ⟨scratch', ?_, hst⟩
  have hlast : n + 1 = count → (progressCheckpoint env count n).progress (n + 1) 0 1 =
      progressCheckpoint env count (n + 1) :=
    fun he => progress_eq (Nat.succ_ne_zero n) (by omega) (if_pos he).symm
  have hnext : n + 1 ≠ count → (progressCheckpoint env count n).progress (n + 1)
      (sub32 (count - 1) (n + 1)) (sub32 count (n + 1)) = progressCheckpoint env count (n + 1) := by
    intro he
    rw [sub32_of_le (by omega) (by omega), sub32_of_le (by omega) (by omega)]
    exact progress_eq (Nat.succ_ne_zero n) rfl (if_neg he).symm
  have hfield : (progressCheckpoint env count n).nextTargetLba = count - n := if_neg (Nat.ne_of_lt hn)
  have hopen : ¬ (count ≤ n) := Nat.not_le_of_lt hn
  have hrange : ¬ (count - 1 - n < 0 ∨ count - n < 1 ∨ count - 1 < count - 1 - n ∨
      count < count - n) := by omega
  have hplace : 1 + (count - 1 - n) = count - n := by omega
  have hkeep : update blocks (count - n) (env.crypto.encrypt key (count - 1 - n)
      (env.crypto.decrypt env.legacyKey (count - 1 - n) (blocks (count - 1 - n)))) (count + 1) =
      blocks (count + 1) := update_of_ne (by omega) _ _
  simp only [rekeyCopyStep, withReadyPlan_planned h, scratchLba_ready h.ready, hm.parse, hkey, htag,
    planMatches_progress h.ready, hm.planned, (progress_phases env count n).1, Bool.and_true,
    Bool.not_true, Bool.false_eq_true, if_false, hfield, progress_completed, progress_total,
    progress_sourceFirst, progress_sourceLast, progress_targetFirst, progress_targetLast,
    progress_nextSource, hopen, hrange, Nat.sub_zero, hplace, hkeep]
  by_cases he : n + 1 = count
  · simp only [if_pos he, hlast he, hadv]
  · simp only [if_neg he, hnext he, hadv]

/-- A rollback of the first block, or of none, forgets the rekey. -/
theorem rollback_last {n : Nat} (h : PlannedBlock env count (blocks 0)) (hn : n ≤ 1)
    (hs : Staged env count (progressCheckpoint env count n) key (blocks (count + 1))) :
    rekeyRollbackStep env blocks = ⟨[(count + 1, zeros)], some .rollbackComplete⟩ := by
  obtain ⟨m, hm⟩ := hs
  have htarget : (legacyPlan env count).targetFirstLba = 1 := by rw [legacyPlan_ready h.ready]
  simp only [rekeyRollbackStep, withReadyPlan_planned h, scratchLba_ready h.ready, hm.parse,
    planMatches_progress h.ready, hm.planned, hm.algo, hm.offset, htarget,
    (progress_phases env count n).1, (progress_phases env count n).2, progress_flags,
    beq_self_eq_true, Bool.and_true, Bool.not_true, Bool.false_eq_true, if_false, progress_completed, hn, if_true]

theorem rekeyRollback_step {n : Nat} (h : PlannedBlock env count (blocks 0)) (hn : 1 < n) (hc : n ≤ count)
    (hs : Staged env count (progressCheckpoint env count n) key (blocks (count + 1))) :
    ∃ scratch', rekeyRollbackStep env blocks = ⟨[(count + 1 - n, env.crypto.encrypt env.legacyKey (count + 1 - n)
            (env.crypto.decrypt key (count + 1 - n) (blocks (count + 1 - n + 1)))),
          (count + 1, scratch')], some .rollbackStepDone⟩ ∧
      Staged env count (progressCheckpoint env count (n - 1)) key scratch' := by
  obtain ⟨m, hm⟩ := hs
  have hroom := h.ready.room
  have hpos := h.ready.pos
  have hlt := env.blockCount_lt
  obtain ⟨scratch', hadv, hst⟩ := hm.advance
    (progress_semanticValid h.ready (show n - 1 ≤ count by omega))
    (progress_words h.ready (show n - 1 ≤ count by omega))
  refine ⟨scratch', ?_, hst⟩
  have htarget : (legacyPlan env count).targetFirstLba = 1 := by rw [legacyPlan_ready h.ready]
  have hnext : (progressCheckpoint env count n).progress (n - 1) (sub32 (count - 1) (n - 1))
      (sub32 count (n - 1)) = progressCheckpoint env count (n - 1) := by
    rw [sub32_of_le (by omega) (by omega), sub32_of_le (by omega) (by omega)]
    exact progress_eq (by omega) rfl (if_neg (by omega)).symm
  have hrestore : sub32 (count - 1) (n - 2) = count + 1 - n := by
    rw [sub32_of_le (by omega) (by omega)]
    omega
  have hmore : ¬ n ≤ 1 := by omega
  have hrange : ¬ (count + 1 - n < 0 ∨ count - 1 < count + 1 - n) := by omega
  simp only [rekeyRollbackStep, withReadyPlan_planned h, scratchLba_ready h.ready, hm.parse,
    planMatches_progress h.ready, hm.planned, hm.algo, hm.offset, htarget, hm.keys,
    (progress_phases env count n).1, (progress_phases env count n).2, progress_flags,
    beq_self_eq_true, Bool.and_true, Bool.not_true, Bool.false_eq_true, if_false, progress_completed,
    progress_sourceFirst, progress_sourceLast, progress_targetFirst, progress_targetLast, hmore,
    hrestore, hrange, Nat.sub_zero, hnext, hadv, Nat.add_comm 1]

def CommittedBlock (env : VolumeEnv K) (key : K) (block : Bytes) : Prop :=
  ∃ header, SameHeader block header ∧ volumeHeaderParse header = some header ∧
    VolumeHeader.dataOffsetLba header = 1 ∧ volumeHeaderDeriveKeys env.crypto header = some key

theorem parse_looksValid {h : VolumeHeader} (hp : volumeHeaderParse h = some h) : volumeHeaderLooksValid h = true := by
  simp only [volumeHeaderParse] at hp
  split at hp
  · rename_i hc
    simp only [Bool.and_eq_true] at hc
    exact hc.1.1.1
  · cases hp

theorem CommittedBlock.looksValid {block : Bytes} (h : CommittedBlock env key block) : volumeHeaderLooksValid block = true := by
  obtain ⟨header, hsame, hparse, -, -⟩ := h
  exact hsame.looksValid.trans (parse_looksValid hparse)

/-- A volume that was switched to a staged header opens under its keys. -/
theorem CommittedBlock.opens (h : CommittedBlock env key (blocks 0)) (hr : ReadyCount env count) :
    volumeProviderOpen env blocks = some ⟨1, env.blockCount - 1, key⟩ := by
  have hlooks := h.looksValid
  obtain ⟨header, hsame, hparse, hoff, hkeys⟩ := h
  have hroom := hr.room
  have hone : ¬ env.blockCount < 1 := by omega
  have hin : ¬ 1 ≥ env.blockCount := by omega
  simp only [volumeProviderOpen, hone, if_false, hlooks, if_true, hsame.parse hparse,
    Option.bind_eq_bind, Option.bind_some, hsame.deriveKeys env.crypto, hkeys, hsame.offset, hoff, hin]

theorem StagedWith.committed (h : StagedWith env count c key scratch m) :
    CommittedBlock env key (volumeHeaderSerialize (window scratch stageHeaderOffset)) :=
  ⟨_, serialize_same (parse_looksValid h.header), h.header, h.offset, h.keys⟩

theorem capyfsSuperValid_count {super : Bytes} {f g : Nat → Bool}
    (h : capyfsSuperValid super f = true) (hg : g (load super 12 4) = true) : capyfsSuperValid super g = true := by
  simp only [capyfsSuperValid, Bool.and_eq_true] at h ⊢
  obtain ⟨⟨⟨⟨⟨⟨h, -⟩, h1⟩, h2⟩, h3⟩, h4⟩, h5⟩ := h
  exact ⟨⟨⟨⟨⟨⟨h, hg⟩, h1⟩, h2⟩, h3⟩, h4⟩, h5⟩

theorem rekeyCommit_step (h : PlannedBlock env count (blocks 0))
    (hs : Staged env count (progressCheckpoint env count count) key (blocks (count + 1)))
    (hsuper : env.crypto.decrypt key 0 (blocks 1) = env.crypto.decrypt env.legacyKey 0 (blocks 0)) :
    ∃ header scratch', (rekeyCommitHeader env blocks).writes = [(0, header), (count + 1, scratch')] ∧
      CommittedBlock env key header ∧ Staged env count (completedCheckpoint env count) key scratch' := by
  obtain ⟨m, hm⟩ := hs
  obtain ⟨scratch', hadv, hst⟩ := hm.advance (completed_semanticValid h.ready) (completed_words h.ready)
  have hroom := h.ready.room
  have hpos := h.ready.pos
  refine ⟨_, scratch', ?_, hm.committed, hst⟩
  have htarget : (legacyPlan env count).targetFirstLba = 1 := by rw [legacyPlan_ready h.ready]
  have hcopy : decide ((progressCheckpoint env count count).phaseFlags &&& phaseCopyReverse ≠ 0) = true := by
    have hp : (progressCheckpoint env count count).phaseFlags = 39 := if_neg (Nat.ne_of_gt hpos)
    rw [hp]
    decide
  have hopen : volumeProviderOpen env (update blocks 0 (volumeHeaderSerialize
      (window (blocks (count + 1)) stageHeaderOffset))) = some ⟨1, env.blockCount - 1, key⟩ := by
    apply CommittedBlock.opens _ h.ready
    rw [update_self]
    exact hm.committed
  have hread : CryptDevice.read env.crypto ⟨1, env.blockCount - 1, key⟩ (update blocks 0
      (volumeHeaderSerialize (window (blocks (count + 1)) stageHeaderOffset))) 0 =
      some (env.crypto.decrypt env.legacyKey 0 (blocks 0)) := by
    have hin : 0 < env.blockCount - 1 := by omega
    have hother : update blocks 0 (volumeHeaderSerialize
        (window (blocks (count + 1)) stageHeaderOffset)) (1 + 0) = blocks 1 :=
      update_of_ne (by decide) _ _
    simp only [CryptDevice.read, hin, if_true, hother, hsuper]
  have hvalid : capyfsSuperValid (env.crypto.decrypt env.legacyKey 0 (blocks 0))
      (fun n => n == count) = true :=
    capyfsSuperValid_count h.super (by rw [h.counted]; exact beq_self_eq_true count)
  have hdone : (progressCheckpoint env count count).committed = completedCheckpoint env count := by
    have hzero : count - 1 - count = 0 := by omega
    simp only [RekeyCheckpoint.committed, completedCheckpoint, progressCheckpoint, hzero, if_true]
    rfl
  simp only [rekeyCommitHeader, withReadyPlan_planned h, scratchLba_ready h.ready, hm.parse,
    planMatches_progress h.ready, hm.planned, hm.algo, hm.offset, htarget, hm.keys,
    (progress_phases env count count).1, (progress_phases env count count).2, hcopy, progress_flags,
    progress_completed, progress_total, beq_self_eq_true, Bool.and_true, Option.isSome_some,
    Bool.not_true, Bool.false_eq_true, if_false, hopen, Option.bind_some, hread, hvalid, hdone, hadv]

section
variable (h : CommittedBlock env key (blocks 0)) (hr : ReadyCount env count)
variable (hsuper : capyfsSuperValid (env.crypto.decrypt key 0 (blocks 1))
  (fun n => decide (n ≤ env.blockCount)) = true)
variable (hcount : load (env.crypto.decrypt key 0 (blocks 1)) 12 4 = count)
include h hr hsuper hcount

/-- The cleanup of a switched volume comes down to its scratch block. -/
theorem cleanup_eq : rekeyCleanupScratch env blocks = cleanupScratchAt env count (count + 1) (blocks (count + 1)) := by
  have hroom := hr.room
  have hlt := env.blockCount_lt
  have hread : CryptDevice.read env.crypto ⟨1, env.blockCount - 1, key⟩ blocks 0 =
      some (env.crypto.decrypt key 0 (blocks 1)) := by
    have hin : 0 < env.blockCount - 1 := by omega
    simp only [CryptDevice.read, hin, if_true, Nat.add_zero]
  have hvalid : capyfsSuperValid (env.crypto.decrypt key 0 (blocks 1))
      (fun n => decide (n ≤ env.blockCount - 1)) = true :=
    capyfsSuperValid_count hsuper (by rw [hcount]; exact decide_eq_true (by omega))
  have hin : ¬ env.blockCount ≤ count + 1 := by omega
  simp only [rekeyCleanupScratch, h.looksValid, Bool.not_true, Bool.false_eq_true, if_false,
    h.opens hr, hread, hvalid, hcount, u32_of_lt (by omega : count + 1 < 2 ^ 32), hin]

theorem cleanup_zero (hz : bytesZero (blocks (count + 1)) 0 4096 = true) : (rekeyCleanupScratch env blocks).writes = [] := by
  rw [cleanup_eq h hr hsuper hcount, cleanupScratchAt, if_pos hz]
  rfl

theorem cleanup_completed (hs : Staged env count (completedCheckpoint env count) key (blocks (count + 1))) :
    (rekeyCleanupScratch env blocks).writes = [(count + 1, zeros)] := by
  have hz := hs.nonzero
  obtain ⟨m, hm⟩ := hs
  have hplanned := hm.planned
  rw [legacyPlan_ready hr] at hplanned
  simp only [planMatchesManifest, Bool.and_eq_true, beq_iff_eq] at hplanned
  obtain ⟨⟨⟨⟨⟨⟨⟨hlba, hraw⟩, hcap⟩, -⟩, -⟩, -⟩, -⟩, htotal⟩ := hplanned
  have hterm : decide ((completedCheckpoint env count).phaseFlags &&&
      (phaseCopyReverse ||| terminalPhases) = phaseCopyReverse ||| terminalPhases) = true := by
    rw [show (completedCheckpoint env count).phaseFlags = 63 from rfl]
    decide
  rw [cleanup_eq h hr hsuper hcount, cleanupScratchAt, if_neg (by rw [hz]; exact Bool.false_ne_true), hm.checkpoint,
    hm.manifest]
  simp only [hm.integrity, hterm, hlba, hraw, hcap, htotal, beq_self_eq_true, Bool.and_true, Bool.true_and]
  simp [completedCheckpoint, progressCheckpoint]

theorem cleanup_progress {n : Nat} (hs : Staged env count (progressCheckpoint env count n) key (blocks (count + 1))) :
    rekeyCleanupScratch env blocks = .report .cleanupScratchBuildFailed := by
  have hz := hs.nonzero
  obtain ⟨m, hm⟩ := hs
  rw [cleanup_eq h hr hsuper hcount, cleanupScratchAt, if_neg (by rw [hz]; exact Bool.false_ne_true), hm.checkpoint,
    hm.manifest]
  have hflag : (flagInProgress == flagCompleted) = false := by decide
  simp only [progress_flags, hflag, Bool.and_false, Bool.false_and, Bool.false_eq_true, if_false]

end

end CapyOS.Proofs
