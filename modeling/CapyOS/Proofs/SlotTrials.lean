import CapyOS.Proofs.SlotRuns

namespace CapyOS.Proofs
open Lib List
variable {ok : SlotSession → SlotOp → Prop} {image : BootSlotImage} {e : SlotEvent}
variable {slot : BitVec 32} {s0 : SlotSession} {s : SlotSession}

/-- What one function may make of the manager on the disk. -/
inductive Moves : SlotOp → BootSlotManager → BootSlotManager → Prop
  | armed {m : BootSlotManager} {slot : BitVec 32} {g : BitVec 64} : Settled m → slot < 2#32 →
      slot ≠ m.confirmedSlot → (m.slot slot).state = .valid → Moves (.arm slot g) m (armed m slot)
  | activated {m : BootSlotManager} {slot : BitVec 32} : Settled m → slot < 2#32 →
      slot ≠ m.confirmedSlot → ((m.slot slot).state = .valid ∨ (m.slot slot).state = .active) →
      Moves (.activate slot) m (armed m slot)
  | spent {m : BootSlotManager} : OnTrial m → 0#32 < m.triesRemaining → Moves .select m (spent m)
  | failed {m : BootSlotManager} : OnTrial m → m.triesRemaining = 0#32 → Moves .select m (rolledBack m)
  | confirmed {m : BootSlotManager} {slot : BitVec 32} {g a l : BitVec 64} : OnTrial m →
      Moves (.confirm slot g a l) m (confirmed m m.pendingSlot)
  | rolledBack {m : BootSlotManager} : OnTrial m → Moves .rollback m (rolledBack m)
  | staged {x : SlotOp} {m m' : BootSlotManager} {slot : BitVec 32} :
      (∀ k, 0 < k → (SlotEvent.crashed x k).stages slot = true) →
      (∀ r, x.succeeded r = true → (SlotEvent.done x r).stages slot = true) →
      slot < 2#32 → slot ≠ m.confirmedSlot → Settled m → Settled m' → m'.confirmedSlot = m.confirmedSlot → Moves x m m'

section
variable {build : Build} {sha256 : List Byte → Chars bootSlotSha256Size} {layout : BootSlotLayout}
  {s s' : SlotSession} {x : SlotOp} {c : Fin 2} {m m' : BootSlotManager} {g : BitVec 64}

theorem stages_landed {x : SlotOp} (hx : ∀ k, (SlotEvent.crashed x (k + 1)).stages slot = true) :
    (∀ k, 0 < k → (SlotEvent.crashed x k).stages slot = true) := by
  intro k hk
  obtain ⟨j, rfl⟩ := Nat.exists_eq_add_of_lt hk
  rw [Nat.zero_add]
  exact hx j

theorem authorize_settled (h : Kept layout s) (hc : Committed layout s.disk c m g) {expected : BootSlotSnapshot}
    (hcand : authorizeCandidate expected slot image s.st = some m') :
    Settled m ∧ Settled m' ∧ m'.confirmedSlot = m.confirmedSlot ∧ slot < 2#32 ∧ slot ≠ m.confirmedSlot := by
  obtain ⟨hready, hslot, hne, hpend, -, -, -, -, rfl⟩ := authorizeCandidate_cases hcand
  obtain ⟨-, hm, -⟩ := hc.unique (h.committed hready)
  rw [hm] at hne hpend
  have hset := hc.sound.settled hpend
  rw [hm]
  exact ⟨hset, staged_settled hset hslot hne (.inl rfl) (.inl rfl), rfl, hslot, hne⟩

theorem candidate_moves (h : Kept layout s) (hc : Committed layout s.disk c m g)
    (hconf : s.st.slots.bsp.configured = true) (hm : m' ∈ x.candidates build s.st) : Moves x m m' := by
  have hno : s.st.slots.bsp.configured ≠ false := by
    rw [hconf]
    decide
  have hsame : bootSlotPersistenceReady s.st.slots = true → s.st.slots.bsm = m :=
    fun hready => (hc.unique (h.committed hready)).2.1
  cases x with
  | bind store lease => exact absurd hm not_mem_nil
  | initializePersistent l image =>
    obtain ⟨-, -, hblank, -⟩ := initializeCandidate_cases (Option.mem_toList.mp hm)
    exact absurd (h.blank hconf hblank).2 hc.not_erased
  | arm slot generation =>
    obtain ⟨hready, hslot, hpend, hne, hstate, rfl⟩ := armCandidate_cases (Option.mem_toList.mp hm)
    rw [hsame hready] at hpend hne hstate ⊢
    exact .armed (hc.sound.settled hpend) hslot hne hstate
  | activate slot =>
    rcases activateCandidate_cases (Option.mem_toList.mp hm) with he | ⟨hready, hslot, hpend, hne, hstate, rfl⟩
    · exact absurd he hno
    · rw [hsame hready] at hpend hne hstate ⊢
      exact .activated (hc.sound.settled hpend) hslot hne hstate
  | select =>
    simp only [SlotOp.candidates] at hm
    split at hm
    · exact absurd hm not_mem_nil
    · rename_i hguard
      simp only [Bool.or_eq_true, Bool.not_eq_true', decide_eq_true_eq, not_or, Bool.not_eq_false] at hguard
      obtain ⟨⟨m'', i, rc⟩, hcand, rfl⟩ := List.mem_map.mp hm
      rw [hsame hguard.1] at hguard hcand
      have htrial := hc.sound.onTrial hguard.2
      rcases selectCandidate_cases htrial with ⟨htries, he⟩ | ⟨htries, he⟩
      · rw [he] at hcand
        cases Option.mem_toList.mp hcand
        exact .spent htrial htries
      · rw [he] at hcand
        cases Option.mem_toList.mp hcand
        exact .failed htrial htries
  | confirm slot generation authority lease =>
    obtain ⟨hready, hslot, hpend, -, rfl⟩ := confirmCandidate_cases (Option.mem_toList.mp hm)
    rw [hsame hready] at hpend ⊢
    subst hpend
    exact .confirmed (hc.sound.onTrial (below_none hslot))
  | rollback =>
    rcases rollbackCandidate_cases (Option.mem_toList.mp hm) with he | ⟨hready, hroll, happly⟩
    · exact absurd he hno
    · rw [hsame hready] at hroll happly
      rcases hc.sound.cases with hs | htrial
      · exact absurd hs.rollback hroll
      · rw [applyRollback_eq htrial] at happly
        cases happly
        exact .rolledBack htrial
  | authorize expected slot image =>
    obtain ⟨hs, hs', hconf', hslot, hne⟩ := authorize_settled h hc (Option.mem_toList.mp hm)
    refine .staged (stages_landed fun _ => beq_self_eq_true slot) (fun r hr => ?_) hslot hne hs hs' hconf'
    simp only [SlotEvent.stages, SlotEvent.landed, SlotEvent.op, hr, beq_self_eq_true, Bool.and_self]
  | publish authorization image =>
    have hcand := Option.mem_toList.mp hm
    obtain ⟨hready, hslot, hstate, -, -, -, -, rfl⟩ := publishCandidate_cases hcand
    have hsound := (publish_sound h hcand).2
    rw [hsame hready] at hstate hsound ⊢
    have hset : Settled m := by
      rcases hc.sound.cases with hs | htrial
      · exact hs
      · exfalso
        rcases eq_or_ne authorization.slot m.pendingSlot with he | hne
        · rw [he, htrial.state] at hstate
          cases hstate
        · have hother := (other_slot htrial.pending hslot (Ne.symm hne)).symm.trans
            (other_slot htrial.pending htrial.confirmed htrial.apart)
          rw [hother, htrial.fallback] at hstate
          cases hstate
    have hne : authorization.slot ≠ m.confirmedSlot := by
      intro he
      rw [he, hset.state] at hstate
      cases hstate
    refine .staged (stages_landed fun _ => beq_self_eq_true authorization.slot) (fun r hr => ?_) hslot hne hset
      (staged_settled hset hslot hne (.inr rfl) (.inr ⟨rfl, rfl⟩)) rfl
    simp only [SlotEvent.stages, SlotEvent.landed, SlotEvent.op, hr, beq_self_eq_true, Bool.and_self]
  | stage store lease expected slot image payload =>
    obtain ⟨m'', hcand, hmem⟩ := List.mem_flatMap.mp hm
    obtain ⟨hs, hs', hconf', hslot, hne⟩ := authorize_settled h hc (Option.mem_toList.mp hcand)
    refine .staged (stages_landed fun _ => beq_self_eq_true slot) (fun r hr => ?_) hslot hne hs ?_ ?_
    · simp only [SlotEvent.stages, SlotEvent.landed, SlotEvent.op, hr, beq_self_eq_true, Bool.and_self]
    · rw [← hconf'] at hne
      rcases List.mem_cons.mp hmem with rfl | hlast
      · exact hs'
      · rw [List.mem_singleton.mp hlast]
        exact staged_settled hs' hslot hne (.inr rfl) (.inr ⟨rfl, rfl⟩)
    · rcases List.mem_cons.mp hmem with rfl | hlast
      · exact hconf'
      · rw [List.mem_singleton.mp hlast]
        exact hconf'

theorem Moves.tried (h : Moves x m m') (he : e.op = x) (hl : e.landed = true)
    (ha : e.arms = false) : m'.triesRemaining = 0#32 := by
  cases h with
  | armed _ _ _ _ =>
    simp only [SlotEvent.arms, hl, he, Bool.and_self] at ha
    exact nomatch ha
  | activated _ _ _ _ =>
    simp only [SlotEvent.arms, hl, he, Bool.and_self] at ha
    exact nomatch ha
  | spent ht hlt =>
    have hle : m.triesRemaining ≤ 1#32 := ht.tries
    have hz : m.triesRemaining - 1#32 = 0#32 := by bv_omega
    exact hz
  | failed ht _ => rfl
  | confirmed ht => rfl
  | rolledBack ht => rfl
  | staged _ _ _ _ _ hs' _ => exact hs'.tries

structure Aftermath (p q : BitVec 32) (restaged : Prop) (m : BootSlotManager) : Prop where
  below : p < 2#32
  apart : p ≠ q
  confirmed : m.confirmedSlot = q
  tried : m.triesRemaining = 0#32
  state : (OnTrial m ∧ m.pendingSlot = p) ∨ (Settled m ∧ ((m.slot p).state = .failed ∨ restaged))

theorem Aftermath.moves {p q : BitVec 32} {restaged : Prop} (h : Aftermath p q restaged m)
    (hm : Moves e.op m m') (hl : e.landed = true) (ha : e.arms = false) (hc : e.confirms = false)
    (hs : e.stages p = true → restaged) : Aftermath p q restaged m' := by
  have htried := hm.tried rfl hl ha
  have hconfirm : ∀ {slot g a l}, e.op ≠ .confirm slot g a l := by
    intro slot g a l he
    simp only [SlotEvent.confirms, hl, he, Bool.and_self] at hc
    exact nomatch hc
  have harm : ∀ {slot g}, e.op ≠ .arm slot g := by
    intro slot g he
    simp only [SlotEvent.arms, hl, he, Bool.and_self] at ha
    exact nomatch ha
  have hactivate : ∀ {slot}, e.op ≠ .activate slot := by
    intro slot he
    simp only [SlotEvent.arms, hl, he, Bool.and_self] at ha
    exact nomatch ha
  have hpend : OnTrial m → m.pendingSlot = p := by
    intro ht
    rcases h.state with ⟨-, hp⟩ | ⟨hset, -⟩
    · exact hp
    · exact absurd hset.pending (below_none ht.pending)
  generalize hx : e.op = x at hm
  cases hm with
  | armed _ _ _ _ => exact absurd hx harm
  | activated _ _ _ _ => exact absurd hx hactivate
  | spent ht hlt =>
    rw [h.tried] at hlt
    exact absurd hlt (by decide)
  | failed ht _ =>
    refine ⟨h.below, h.apart, h.confirmed, htried, .inr ⟨(rolledBack_settled ht).1, .inl ?_⟩⟩
    rw [← hpend ht]
    exact (rolledBack_settled ht).2
  | confirmed ht => exact absurd hx hconfirm
  | rolledBack ht =>
    refine ⟨h.below, h.apart, h.confirmed, htried, .inr ⟨(rolledBack_settled ht).1, .inl ?_⟩⟩
    rw [← hpend ht]
    exact (rolledBack_settled ht).2
  | staged hcrash hdone hslot hne hset hs' hconf =>
    refine ⟨h.below, h.apart, hconf.trans h.confirmed, htried, .inr ⟨hs', .inr (hs ?_)⟩⟩
    -- the slot beside the confirmed one is the one that was tried
    obtain rfl := (other_slot hset.confirmed hslot hne.symm).symm.trans
      (other_slot hset.confirmed h.below (h.confirmed.trans_ne h.apart.symm))
    cases e with
    | done y r =>
      cases hx
      exact hdone r hl
    | crashed y k =>
      cases hx
      exact hcrash k (of_decide_eq_true hl)

/-- One event of a run. -/
inductive SlotStep (build : Build) (sha256 : List Byte → Chars bootSlotSha256Size) (layout : BootSlotLayout) :
    SlotSession → SlotEvent → SlotSession → Prop
  | done {s : SlotSession} {x : SlotOp} :
      SlotStep build sha256 layout s (.done x (x.result build sha256 s)) (x.after build sha256 s)
  | crashed {s : SlotSession} {x : SlotOp} {k : Nat} {st : BootStore} :
      SlotStep build sha256 layout s (.crashed x k) ⟨st, x.crashDisk build sha256 s k⟩

theorem SlotTrace.last {es : List SlotEvent}
    (ht : SlotTrace build sha256 layout s0 ok (es ++ [e]) s') :
    ∃ s, SlotTrace build sha256 layout s0 ok es s ∧ SlotStep build sha256 layout s e s' := by
  generalize hes : es ++ [e] = all at ht
  cases ht with
  | start => exact absurd hes (by simp)
  | done hrun _ =>
    obtain ⟨rfl, he⟩ := append_inj' hes rfl
    cases he
    exact ⟨_, hrun, .done⟩
  | crashed hrun _ _ _ =>
    obtain ⟨rfl, he⟩ := append_inj' hes rfl
    cases he
    exact ⟨_, hrun, .crashed⟩

/-- An event leaves the manager on the disk, or moves it. -/
theorem step_moves (h : Kept layout s) (hc : Committed layout s.disk c m g)
    (hstep : SlotStep build sha256 layout s e s') :
    ∃ c' m' g', Committed layout s'.disk c' m' g' ∧ (m' = m ∨ (e.landed = true ∧ Moves e.op m m')) := by
  cases hstep with
  | @done x =>
    have hok := @exec_step build sha256 _ _ h x
    cases hl : (SlotEvent.done x (x.result build sha256 s)).landed with
    | false =>
      have hlog := hok.silent (by
        intro hs
        exact nomatch hs.symm.trans hl)
      refine ⟨c, m, g, ?_, .inl rfl⟩
      have hdisk : (x.after build sha256 s).disk = s.disk := by
        refine hok.disk.trans ?_
        rw [hlog]
        rfl
      rw [hdisk]
      exact hc
    | true =>
      have hadv := hok.writes.advances (x.outcome build sha256 s).2.2.log.length
      obtain ⟨c', m', g', hc', -, hm⟩ := hadv.committed c m g hc
      have hdisk : (x.after build sha256 s).disk = applyWrites s.disk ((x.outcome build sha256 s).2.2.log.take
          (x.outcome build sha256 s).2.2.log.length) := by
        refine hok.disk.trans ?_
        rw [take_of_length_le (Nat.le_refl _)]
      rw [← hdisk] at hc'
      refine ⟨c', m', g', hc', ?_⟩
      rcases hm with ⟨rfl, -⟩ | ⟨hmem, hconf⟩
      · exact .inl rfl
      · exact .inr ⟨rfl, candidate_moves h hc hconf hmem⟩
  | @crashed x k st =>
    cases k with
    | zero => exact ⟨c, m, g, hc, .inl rfl⟩
    | succ k =>
      obtain ⟨c', m', g', hc', -, hm⟩ := (@crash_advances build sha256 _ _ h x (k + 1)).committed c m g hc
      refine ⟨c', m', g', hc', ?_⟩
      rcases hm with ⟨rfl, -⟩ | ⟨hmem, hconf⟩
      · exact .inl rfl
      · exact .inr ⟨rfl, candidate_moves h hc hconf hmem⟩

theorem select_idle (hready : bootSlotPersistenceReady s.st.slots = true) (hpend : s.st.slots.bsm.pendingSlot = bootSlotNone) :
    (SlotOp.select.after build sha256 s).disk = s.disk ∧
      SlotOp.select.result build sha256 s = ⟨0, s.st.slots.bsm.confirmedSlot⟩ := by
  constructor
  · simp only [SlotOp.after, SlotOp.outcome, SlotOp.exec, bootSlotSelect, hready, hpend, Bool.not_true,
      Bool.false_eq_true, if_false, if_true]
  · simp only [SlotOp.result, SlotOp.outcome, SlotOp.exec, bootSlotSelect, hready, hpend, Bool.not_true,
      Bool.false_eq_true, if_false, if_true]

/-- What a `select` that succeeds returns, and what it leaves on the disk. -/
theorem select_result (h : Kept layout s) (hrc : 0 ≤ (SlotOp.select.result build sha256 s).rc) :
    ∃ c m g c' m' g', Committed layout s.disk c m g ∧ Committed layout (SlotOp.select.after build sha256 s).disk c' m' g' ∧
      ((Settled m ∧ m' = m ∧ SlotOp.select.result build sha256 s = ⟨0, m.confirmedSlot⟩) ∨
        (OnTrial m ∧ 0#32 < m.triesRemaining ∧ m' = spent m ∧ SlotOp.select.result build sha256 s = ⟨1, m.pendingSlot⟩) ∨
        (OnTrial m ∧ m.triesRemaining = 0#32 ∧ m' = rolledBack m ∧
          SlotOp.select.result build sha256 s = ⟨2, m.confirmedSlot⟩)) := by
  have hio : ¬ 0 ≤ bootSlotErrIo := by decide
  have hok := @exec_step build sha256 _ _ h .select
  cases hready : bootSlotPersistenceReady s.st.slots with
  | false =>
    exfalso
    simp only [SlotOp.result, SlotOp.outcome, SlotOp.exec, bootSlotSelect, hready, Bool.not_false, if_true] at hrc
    exact hio hrc
  | true =>
    obtain ⟨-, -, hconf, hr⟩ := persistenceReady_iff.mp hready
    have hc := h.committed hready
    by_cases hpend : s.st.slots.bsm.pendingSlot = bootSlotNone
    · obtain ⟨hdisk, hres⟩ := @select_idle build sha256 _ hready hpend
      rw [hdisk]
      exact ⟨_, _, _, _, _, _, hc, hc, .inl ⟨hc.sound.settled hpend, rfl, hres⟩⟩
    · have htrial := hc.sound.onTrial hpend
      have hcommit : ∀ m' i rc, selectCandidate s.st.slots.bsm = some (m', i, rc) →
          SlotOp.select.result build sha256 s = ⟨rc, i⟩ ∧
          ∃ c' g', Committed layout (SlotOp.select.after build sha256 s).disk c' m' g' := by
        intro m' i rc hcand
        have hsound := select_sound h hready hpend hcand
        rcases commit_medium h (fun _ => hsound) (.inl hready) with ⟨e, hneg, he⟩ | ⟨hno, -⟩ | ⟨-, hg, he⟩
        · exfalso
          simp only [SlotOp.result, SlotOp.outcome, SlotOp.exec, bootSlotSelect, hready, hpend, hcand, he,
            Bool.not_true, Bool.false_eq_true, if_false, Int.ne_of_lt hneg, ne_eq, not_false_eq_true, if_true] at hrc
          omega
        · exact absurd (hno.symm.trans hconf) Bool.false_ne_true
        · have hcom := (h.commit hsound hready hg).committed hready
          refine ⟨?_, 1 - s.st.slots.bsp.activeCopy, s.st.slots.bsp.generation + 1#64, ?_⟩
          · simp only [SlotOp.result, SlotOp.outcome, SlotOp.exec, bootSlotSelect, hready, hpend, hcand, he,
              Bool.not_true, Bool.false_eq_true, if_false, ne_eq, not_true_eq_false]
          · simp only [SlotOp.after, SlotOp.outcome, SlotOp.exec, bootSlotSelect, hready, hpend, hcand, he,
              Bool.not_true, Bool.false_eq_true, if_false, ne_eq, not_true_eq_false]
            exact hcom
      rcases selectCandidate_cases htrial with ⟨htries, hcand⟩ | ⟨htries, hcand⟩
      · obtain ⟨hres, c', g', hc'⟩ := hcommit _ _ _ hcand
        exact ⟨_, _, _, c', _, g', hc, hc', .inr (.inl ⟨htrial, htries, rfl, hres⟩)⟩
      · obtain ⟨hres, c', g', hc'⟩ := hcommit _ _ _ hcand
        exact ⟨_, _, _, c', _, g', hc, hc', .inr (.inr ⟨htrial, htries, rfl, hres⟩)⟩

theorem Committed.durable (h : Committed layout s.disk c m g) : Durable build layout s.disk m :=
  fun _ hclaim hbind => ⟨(rebind_committed hclaim hbind h).1, (rebind_committed hclaim hbind h).2.1⟩

/-- The last event of a run, if it is a `select` that returned the pending slot. -/
theorem trial_step (h : Kept layout s) {r : SlotResult}
    (hstep : SlotStep build sha256 layout s (.done .select r) s') (hr : r.rc = 1) :
    ∃ c m g c' g', Committed layout s.disk c m g ∧ Committed layout s'.disk c' (spent m) g' ∧ OnTrial m ∧
      0#32 < m.triesRemaining ∧ r.slot = m.pendingSlot := by
  have h01 : (0 : Int) ≠ 1 := by decide
  have h21 : (2 : Int) ≠ 1 := by decide
  cases hstep
  obtain ⟨c, m, g, c', m', g', hc, hc', hcase⟩ := select_result h (by
    rw [hr]
    decide)
  rcases hcase with ⟨-, -, hres⟩ | ⟨htrial, htries, rfl, hres⟩ | ⟨-, -, -, hres⟩
  · rw [hres] at hr
    exact absurd hr h01
  · rw [hres]
    exact ⟨c, m, g, c', g', hc, hc', htrial, htries, rfl⟩
  · rw [hres] at hr
    exact absurd hr h21

theorem spent_tries (h : OnTrial m) (ht : 0#32 < m.triesRemaining) : (spent m).triesRemaining = 0#32 := by
  have hle : m.triesRemaining ≤ 1#32 := h.tries
  have hz : m.triesRemaining - 1#32 = 0#32 := by bv_omega
  exact hz

theorem tries_counted {pre mid : List SlotEvent}
    (h0 : Unwritten layout s0) (ht : SlotTrace build sha256 layout s0 ok (pre ++ mid) s) (hmid : ∀ e ∈ mid, e.arms = false) :
    mid.countP SlotEvent.tries ≤ 1 ∧ (0 < mid.countP SlotEvent.tries →
      ∃ c m g, Committed layout s.disk c m g ∧ m.triesRemaining = 0#32) := by
  induction mid using List.reverseRecOn generalizing s with
  | nil => exact ⟨Nat.zero_le _, fun hz => absurd hz (Nat.lt_irrefl 0)⟩
  | append_singleton mid e ih =>
    rw [← append_assoc] at ht
    obtain ⟨s1, hrun, hstep⟩ := SlotTrace.last ht
    obtain ⟨hle, hspent⟩ := ih hrun fun e' he' => hmid e' (mem_append_left _ he')
    have harm := hmid e (mem_append_right _ (mem_singleton_self e))
    have hk := trace_kept h0 hrun
    rw [countP_append, countP_singleton]
    cases htry : e.tries with
    | false =>
      simp only [Bool.false_eq_true, if_false, Nat.add_zero]
      refine ⟨hle, fun hpos => ?_⟩
      obtain ⟨c1, m1, g1, hc1, hz⟩ := hspent hpos
      obtain ⟨c', m', g', hc', hm⟩ := step_moves hk hc1 hstep
      refine ⟨c', m', g', hc', ?_⟩
      rcases hm with rfl | ⟨hl, hmove⟩
      · exact hz
      · exact hmove.tried rfl hl harm
    | true =>
      obtain ⟨r, rfl, hr⟩ : ∃ r, e = .done .select r ∧ r.rc = 1 := by
        cases e with
        | done x r =>
          cases x with
          | select => exact ⟨r, rfl, of_decide_eq_true htry⟩
          | _ => exact nomatch htry
        | crashed x k => exact nomatch htry
      obtain ⟨c, m, g, c', g', hc, hc', htrial, htries, -⟩ := trial_step hk hstep hr
      have hnone : mid.countP SlotEvent.tries = 0 := by
        refine Nat.eq_zero_of_not_pos fun hpos => ?_
        obtain ⟨c1, m1, g1, hc1, hz⟩ := hspent hpos
        obtain ⟨-, rfl, -⟩ := hc.unique hc1
        rw [hz] at htries
        exact absurd htries (by decide)
      rw [hnone]
      exact ⟨Nat.le_refl _, fun _ => ⟨c', _, g', hc', spent_tries htrial htries⟩⟩

theorem trial_aftermath {pre mid : List SlotEvent}
    {r : SlotResult} (h0 : Unwritten layout s0)
    (ht : SlotTrace build sha256 layout s0 ok (pre ++ [.done .select r] ++ mid) s) (hr : r.rc = 1)
    (hmid : ∀ e ∈ mid, e.arms = false ∧ e.confirms = false) : ∃ c m g q, Committed layout s.disk c m g ∧
      Aftermath r.slot q (∃ e ∈ mid, e.stages r.slot = true) m := by
  induction mid using List.reverseRecOn generalizing s with
  | nil =>
    rw [append_nil] at ht
    obtain ⟨s1, hrun, hstep⟩ := SlotTrace.last ht
    obtain ⟨c, m, g, c', g', -, hc', htrial, htries, hslot⟩ := trial_step (trace_kept h0 hrun) hstep hr
    rw [hslot]
    exact ⟨c', _, g', m.confirmedSlot, hc', htrial.pending, htrial.apart, rfl, spent_tries htrial htries,
      .inl ⟨spent_onTrial htrial htries, rfl⟩⟩
  | append_singleton mid e ih =>
    rw [← append_assoc] at ht
    obtain ⟨s1, hrun, hstep⟩ := SlotTrace.last ht
    obtain ⟨c, m, g, q, hc, haft⟩ := ih hrun fun e' he' => hmid e' (mem_append_left _ he')
    have hlast := hmid e (mem_append_right _ (mem_singleton_self e))
    obtain ⟨c', m', g', hc', hm⟩ := step_moves (trace_kept h0 hrun) hc hstep
    have hmore : Aftermath r.slot q (∃ e' ∈ mid ++ [e], e'.stages r.slot = true) m := by
      refine ⟨haft.below, haft.apart, haft.confirmed, haft.tried, haft.state.imp id fun hset => ⟨hset.1, hset.2.imp id ?_⟩⟩
      rintro ⟨e', he', hs⟩
      exact ⟨e', mem_append_left _ he', hs⟩
    refine ⟨c', m', g', q, hc', ?_⟩
    rcases hm with rfl | ⟨hl, hmove⟩
    · exact hmore
    · refine hmore.moves hmove hl hlast.1 hlast.2 fun hs => ?_
      exact ⟨e, mem_append_right _ (mem_singleton_self e), hs⟩

/-- One attempt for each arming. While nothing is armed, at most one `select`
returns the pending slot. If nothing confirms or arms a slot before the next
`select`, that one returns the other slot, the confirmed one, and the slot that was
tried is FAILED on the disk, unless an image was staged in it since. A `select` only returns a slot the disk holds as ACTIVE, or as kept for
the way back and then ACTIVE again. -/
theorem one_trial_per_arm {s0 : SlotSession} {ok : SlotSession → SlotOp → Prop}
    (h0 : Unwritten layout s0) :
    (∀ pre mid s, SlotTrace build sha256 layout s0 ok (pre ++ mid) s → (∀ e ∈ mid, e.arms = false) →
      mid.countP SlotEvent.tries ≤ 1) ∧
    (∀ pre mid r r' s, SlotTrace build sha256 layout s0 ok
        (pre ++ [.done .select r] ++ mid ++ [.done .select r']) s →
      r.rc = 1 → 0 ≤ r'.rc → (∀ e ∈ mid, e.arms = false ∧ e.confirms = false) →
      r'.slot ≠ r.slot ∧ ∃ m, Durable build layout s.disk m ∧ r'.slot = m.confirmedSlot ∧
        m.pendingSlot = bootSlotNone ∧ ((m.slot r.slot).state = .failed ∨ ∃ e ∈ mid, e.stages r.slot = true)) ∧
    (∀ es s, SlotTrace build sha256 layout s0 ok es s → 0 ≤ (SlotOp.select.result build sha256 s).rc →
      ∃ m m', Durable build layout s.disk m ∧
        Durable build layout (SlotOp.select.after build sha256 s).disk m' ∧
        let r := SlotOp.select.result build sha256 s
        (r.rc = 1 ↔ r.slot = m.pendingSlot) ∧
        ((m.slot r.slot).state = .active ∨ (m.slot r.slot).state = .rollback) ∧
        (m'.slot r.slot).state = .active) := by
  refine ⟨fun pre mid s ht hmid => (tries_counted h0 ht hmid).1, ?_, ?_⟩
  · intro pre mid r r' s ht hr hr' hmid
    obtain ⟨s1, hrun, hstep⟩ := SlotTrace.last ht
    obtain ⟨c, m, g, q, hc, haft⟩ := trial_aftermath h0 hrun hr hmid
    cases hstep
    obtain ⟨c1, m1, g1, c', m', g', hc1, hc', hcase⟩ := select_result (trace_kept h0 hrun) hr'
    obtain ⟨-, rfl, -⟩ := hc.unique hc1
    rcases hcase with ⟨hset, rfl, hres⟩ | ⟨-, htries, -, -⟩ | ⟨htrial, -, rfl, hres⟩
    · rw [hres]
      refine ⟨fun he => haft.apart (haft.confirmed ▸ he.symm), _, hc'.durable, rfl, hset.pending, ?_⟩
      rcases haft.state with ⟨htrial, -⟩ | ⟨-, hstate⟩
      · exact absurd hset.pending (below_none htrial.pending)
      · exact hstate
    · rw [haft.tried] at htries
      exact absurd htries (by decide)
    · rw [hres]
      obtain ⟨hset, hfail⟩ := rolledBack_settled htrial
      refine ⟨fun he => haft.apart (haft.confirmed ▸ he.symm), _, hc'.durable, rfl, hset.pending, .inl ?_⟩
      rcases haft.state with ⟨-, hp⟩ | ⟨hset', -⟩
      · rw [← hp]
        exact hfail
      · exact absurd hset'.pending (below_none htrial.pending)
  · intro es s ht hrc
    obtain ⟨c, m, g, c', m', g', hc, hc', hcase⟩ := select_result (trace_kept h0 ht) hrc
    have h01 : (0 : Int) ≠ 1 := by decide
    have h21 : (2 : Int) ≠ 1 := by decide
    refine ⟨m, m', hc.durable, hc'.durable, ?_⟩
    rcases hcase with ⟨hset, rfl, hres⟩ | ⟨htrial, htries, rfl, hres⟩ | ⟨htrial, -, rfl, hres⟩
    · rw [hres]
      refine ⟨⟨fun h1 => absurd h1 h01, fun he => ?_⟩, .inl hset.state, hset.state⟩
      rw [hset.pending] at he
      exact absurd he (below_none hset.confirmed)
    · rw [hres]
      have hstate := (spent_onTrial htrial htries).state
      exact ⟨⟨fun _ => rfl, fun _ => rfl⟩, .inl htrial.state, hstate⟩
    · rw [hres]
      have hstate := (rolledBack_settled htrial).1.state
      exact ⟨⟨fun h1 => absurd h1 h21, fun he => absurd he.symm htrial.apart⟩, .inr htrial.fallback, hstate⟩

end

section
variable {build : Build} {sha256 : List Byte → Chars bootSlotSha256Size} {layout : BootSlotLayout}
  {s : SlotSession} {m : BootSlotManager}

structure Free (layout : BootSlotLayout) (s : SlotSession) : Prop where
  kept : Kept layout s
  claim : s.st.slots.bsp.stageClaimed = false
  generation : s.st.slots.bsp.generation ≠ BitVec.allOnes 64

theorem commit_free (h : Free layout s) (hm : ManagerSound layout m) (hready : bootSlotPersistenceReady s.st.slots = true) :
    ∃ w, bsCommitLocked (storeControlIo (fun _ => mediumIo) s.st.binding) m s.st.slots ⟨s.disk, []⟩ =
      (0, commitTo s.st.slots m, w) := by
  have hok := commit_succeeds h.kept hm hready h.claim h.generation
  rcases commit_medium h.kept (fun _ => hm) (.inl hready) with ⟨rc, hneg, he⟩ | ⟨hno, -⟩ | ⟨-, -, he⟩
  · rw [he] at hok
    exact absurd hok (Int.ne_of_lt hneg)
  · exact nomatch hno.symm.trans (persistenceReady_iff.mp hready).2.2.1
  · exact ⟨_, he⟩

theorem arm_after (h : Free layout s) {slot : BitVec 32} {g : BitVec 64} (hc : armCandidate slot g s.st.slots = some m) :
    ((SlotOp.arm slot g).after build sha256 s).st = { s.st with slots := commitTo s.st.slots m } := by
  obtain ⟨hready, hm⟩ := arm_sound h.kept hc
  obtain ⟨w, he⟩ := commit_free h hm hready
  simp only [SlotOp.after, SlotOp.outcome, SlotOp.exec, bootSlotArmProvider, hc, he, ne_eq, not_true_eq_false, if_false]

theorem rollback_after (h : Free layout s) (hconf : s.st.slots.bsp.configured = true)
    (hc : rollbackCandidate build s.st.slots = some m) :
    (SlotOp.rollback.after build sha256 s).st = { s.st with slots := commitTo s.st.slots m } := by
  rcases rollback_sound h.kept hc with hno | ⟨hready, hm⟩
  · exact absurd (hno.symm.trans hconf) Bool.false_ne_true
  · obtain ⟨w, he⟩ := commit_free h hm hready
    simp only [SlotOp.after, SlotOp.outcome, SlotOp.exec, onSlots, bootSlotRollback, hc, he]

theorem select_after (h : Free layout s) (hready : bootSlotPersistenceReady s.st.slots = true)
    (hpend : s.st.slots.bsm.pendingSlot ≠ bootSlotNone) {i : BitVec 32} {rc : Int}
    (hc : selectCandidate s.st.slots.bsm = some (m, i, rc)) :
    (SlotOp.select.after build sha256 s).st = { s.st with slots := commitTo s.st.slots m } ∧
      SlotOp.select.result build sha256 s = ⟨rc, i⟩ := by
  obtain ⟨w, he⟩ := commit_free h (select_sound h.kept hready hpend hc) hready
  constructor
  · simp only [SlotOp.after, SlotOp.outcome, SlotOp.exec, bootSlotSelect, hready, hpend, hc, he, Bool.not_true,
      Bool.false_eq_true, if_false, ne_eq, not_true_eq_false]
  · simp only [SlotOp.result, SlotOp.outcome, SlotOp.exec, bootSlotSelect, hready, hpend, hc, he, Bool.not_true,
      Bool.false_eq_true, if_false, ne_eq, not_true_eq_false]

theorem initialize_after (h : Kept layout s) {l : BootSlotLayout}
    (hc : initializeCandidate build l image s.st.slots = some m) :
    ((SlotOp.initializePersistent l image).after build sha256 s).st =
      (let t := { s.st.slots with bsp := { s.st.slots.bsp with blank := false } }.adopt m 1 2#64
      { s.st with slots := { t with
          bsp := { t.bsp with degraded := false, ready := true }, phase := .boundReady } }) := by
  have h1 : (1#64 : BitVec 64) ≠ 0#64 := by decide
  have h2 : (2#64 : BitVec 64) ≠ 0#64 := by decide
  obtain ⟨hconf, -, hblank, -⟩ := initializeCandidate_cases hc
  have hsound := @candidates_sound build _ _ h hconf (.initializePersistent l image) _ (Option.mem_toList.mpr hc)
  have hactive := (h.blank hconf hblank).1
  simp only [SlotOp.after, SlotOp.outcome, SlotOp.exec, onSlots, bootSlotInitializePersistent, hc, hconf,
    writeVerified_medium hactive (h.bound hconf).2 hsound h1,
    writeVerified_medium hactive (h.bound hconf).2 hsound h2, ne_eq, not_true_eq_false, if_false]

end

theorem stage_after {sha256 : List Byte → Chars bootSlotSha256Size} {build : Build} {layout : BootSlotLayout}
    {m : BootSlotManager} (h : Free layout s) {store : Nat} {lease : BitVec 64} {io : StoreIo}
    {expected : BootSlotSnapshot} {payload : List Byte}
    (hio : storeIoGet s.st store lease = some io) (hbound : storeBindingMatchesIo s.st io store = true)
    (hepoch : expected.authorityEpoch = s.st.binding.epoch) (hlease : expected.leaseEpoch = lease)
    (hpre : storeStagePreflight sha256 s.st.binding slot image payload = 0)
    (hc : authorizeCandidate expected slot image s.st = some m) :
    ((SlotOp.stage store lease expected slot image payload).after build sha256 s).st =
      publishedStore (authorizedStore s.st m) (staged m slot image .valid slot) := by
  simp only [SlotOp.after, SlotOp.outcome, SlotOp.exec, stage_runs h.kept hio hbound hepoch hlease hpre hc h.claim]

/-- A snapshot of what memory holds. -/
def snapshotOf (st : BootStore) : BootSlotSnapshot :=
  ⟨bootSlotSnapshotVersion, bootSlotSnapshotSize, st.slots.bsp.generation, st.slots.bsp.authorityEpoch,
    st.slots.bsp.leaseEpoch, st.slots.bsm⟩

def tinyStage (st : BootStore) : SlotOp := .stage 0 0#64 (snapshotOf st) 1#32 tinyImage [7#8]

def tinyStaged (st : BootStore) : BootStore :=
  publishedStore (authorizedStore st (staged st.slots.bsm 1#32 tinyImage .failed 0#32))
    (staged (staged st.slots.bsm 1#32 tinyImage .failed 0#32) 1#32 tinyImage .valid 1#32)

def tinyReady : BootStore :=
  let t := { tinyBound.slots with bsp := { tinyBound.slots.bsp with blank := false } }.adopt
    (initialManager tinyLayout tinyImage) 1 2#64
  { tinyBound with slots := { t with
      bsp := { t.bsp with degraded := false, ready := true }, phase := .boundReady } }

def tinyCommit (st : BootStore) (m : BootSlotManager) : BootStore := { st with slots := commitTo st.slots m }

def tinyArmed : BootStore := tinyCommit (tinyStaged tinyReady) (armed (tinyStaged tinyReady).slots.bsm 1#32)

def tinySpent : BootStore := tinyCommit tinyArmed (spent tinyArmed.slots.bsm)

def tinyBack : BootStore := tinyCommit tinySpent (rolledBack tinySpent.slots.bsm)

theorem tinyStage_after (h : Free tinyLayout s) (hst : s.st = tinyReady ∨ s.st = tinyBack) :
    ((tinyStage s.st).after .loader tinySha256 s).st = tinyStaged s.st := by
  rcases hst with he | he
  · have hc : authorizeCandidate (snapshotOf tinyReady) 1#32 tinyImage tinyReady =
        some (staged tinyReady.slots.bsm 1#32 tinyImage .failed 0#32) := by
      rw [authorizeCandidate, if_neg]
      · rfl
      · decide +kernel
    have hio : storeIoGet tinyReady 0 0#64 = some ⟨tinyLayout, .external 0, 0#64, false⟩ := by decide +kernel
    rw [← he] at hc hio
    refine stage_after h hio ?_ ?_ ?_ ?_ hc
    · rw [he]
      decide +kernel
    · rw [he]
      rfl
    · rw [he]
      rfl
    · rw [he]
      decide +kernel
  · have hc : authorizeCandidate (snapshotOf tinyBack) 1#32 tinyImage tinyBack =
        some (staged tinyBack.slots.bsm 1#32 tinyImage .failed 0#32) := by
      rw [authorizeCandidate, if_neg]
      · rfl
      · decide +kernel
    have hio : storeIoGet tinyBack 0 0#64 = some ⟨tinyLayout, .external 0, 0#64, false⟩ := by decide +kernel
    rw [← he] at hc hio
    refine stage_after h hio ?_ ?_ ?_ ?_ hc
    · rw [he]
      decide +kernel
    · rw [he]
      rfl
    · rw [he]
      rfl
    · rw [he]
      decide +kernel

abbrev TinyTrace : List SlotEvent → SlotSession → Prop :=
  SlotTrace .loader tinySha256 tinyLayout tinySession fun _ _ => True

theorem tiny_free {es : List SlotEvent} {st : BootStore} (ht : TinyTrace es s) (hst : s.st = st)
    (hclaim : st.slots.bsp.stageClaimed = false) (hg : st.slots.bsp.generation ≠ BitVec.allOnes 64) : Free tinyLayout s := by
  subst hst
  exact ⟨trace_kept tiny_unwritten ht, hclaim, hg⟩

theorem tiny_ready : ∃ es s, TinyTrace es s ∧ s.st = tinyReady := by
  have h1 : TinyTrace _ _ := @SlotTrace.done _ _ _ _ _ _ _ (.bind 0 0#64) .start trivial
  have h2 : TinyTrace _ _ := @SlotTrace.done _ _ _ _ _ _ _ (.initializePersistent tinyLayout tinyImage) h1 trivial
  refine ⟨_, _, h2, ?_⟩
  have hc := tiny_initialize
  rw [← tiny_bind] at hc
  rw [initialize_after (trace_kept tiny_unwritten h1) hc, tiny_bind]
  rfl

theorem tiny_tried : ∃ es s s', TinyTrace es s ∧ SlotOp.select.result .loader tinySha256 s = ⟨1, 1#32⟩ ∧
    s' = SlotOp.select.after .loader tinySha256 s ∧ s'.st = tinySpent := by
  obtain ⟨es, s2, h2, hst2⟩ := tiny_ready
  have h3 : TinyTrace _ _ := @SlotTrace.done _ _ _ _ _ _ _ (tinyStage tinyReady) h2 trivial
  have hst3 := tinyStage_after (tiny_free h2 hst2 rfl (by decide)) (.inl hst2)
  rw [hst2] at hst3
  have harm : armCandidate 1#32 5#64 (tinyStaged tinyReady).slots =
      some (armed (tinyStaged tinyReady).slots.bsm 1#32) := by
    rw [armCandidate, if_neg]
    decide
  have h4 : TinyTrace _ _ := @SlotTrace.done _ _ _ _ _ _ _ (.arm 1#32 5#64) h3 trivial
  have hst4 := @arm_after .loader tinySha256 tinyLayout _ _ (tiny_free h3 hst3 rfl (by decide)) 1#32 5#64
    (by rw [hst3]; exact harm)
  rw [hst3] at hst4
  have hready : bootSlotPersistenceReady tinyArmed.slots = true := by decide
  have hpend : tinyArmed.slots.bsm.pendingSlot ≠ bootSlotNone := by decide
  have hselect : selectCandidate tinyArmed.slots.bsm = some (spent tinyArmed.slots.bsm, 1#32, 1) := by
    rw [selectCandidate, if_pos (by decide)]
    rfl
  have hst5 := @select_after .loader tinySha256 tinyLayout _ _ (tiny_free h4 hst4 rfl (by decide))
    (by rw [hst4]; exact hready) (by rw [hst4]; exact hpend) 1#32 1 (by rw [hst4]; exact hselect)
  refine ⟨_, _, _, h4, hst5.2, rfl, ?_⟩
  rw [hst5.1, hst4]
  rfl

theorem one_trial_per_arm_tiny : ∃ s m', SlotOp.select.result .loader tinySha256 s = ⟨1, 1#32⟩ ∧
    Durable .loader tinyLayout (SlotOp.select.after .loader tinySha256 s).disk m' ∧
    (m'.slot 1#32).state = .active := by
  obtain ⟨es, s, s', ht, hres, -, -⟩ := tiny_tried
  obtain ⟨m, m', -, hm', -, -, hstate⟩ := (one_trial_per_arm tiny_unwritten).2.2 es s ht (by
    rw [hres]
    decide)
  rw [hres] at hstate
  exact ⟨s, m', hres, hm', hstate⟩

/-- Nobody confirms the slot that was tried, and yet it is not FAILED after the next
`select`: it was rolled back by hand and staged again before that. -/
theorem tried_slot_restaged : ∃ pre mid r r' s,
    TinyTrace (pre ++ [.done .select r] ++ mid ++ [.done .select r']) s ∧ r.rc = 1 ∧ 0 ≤ r'.rc ∧
    (∀ e ∈ mid, ∀ slot g a l, e.op ≠ .confirm slot g a l) ∧
    ∃ m, Durable .loader tinyLayout s.disk m ∧ (m.slot r.slot).state = .valid := by
  obtain ⟨es, s4, s5, h4, hres, rfl, hst5⟩ := tiny_tried
  have h5 : TinyTrace _ _ := @SlotTrace.done _ _ _ _ _ _ _ (.select) h4 trivial
  have hcand : rollbackCandidate .loader tinySpent.slots = some (rolledBack tinySpent.slots.bsm) := by
    rw [rollbackCandidate, if_neg (by decide), if_pos (by decide), if_neg (by decide),
      bsApplyRollback, if_neg (by decide)]
  have h6 : TinyTrace _ _ := @SlotTrace.done _ _ _ _ _ _ _ (.rollback) h5 trivial
  have hst6 := @rollback_after .loader tinySha256 tinyLayout _ _ (tiny_free h5 hst5 rfl (by decide))
    (by rw [hst5]; rfl) (by rw [hst5]; exact hcand)
  rw [hst5] at hst6
  have hback : (SlotOp.rollback.after .loader tinySha256 (SlotOp.select.after .loader tinySha256 s4)).st =
      tinyBack := hst6
  have h7 : TinyTrace _ _ := @SlotTrace.done _ _ _ _ _ _ _ (tinyStage tinyBack) h6 trivial
  have hst7 := tinyStage_after (tiny_free h6 hback rfl (by decide)) (.inr hback)
  rw [hback] at hst7
  have h8 : TinyTrace _ _ := @SlotTrace.done _ _ _ _ _ _ _ (.select) h7 trivial
  have hk := trace_kept tiny_unwritten h7
  have hready : bootSlotPersistenceReady (tinyStaged tinyBack).slots = true := by decide
  have hpend : (tinyStaged tinyBack).slots.bsm.pendingSlot = bootSlotNone := by decide
  have hstate : ((tinyStaged tinyBack).slots.bsm.slot 1#32).state = .valid := by decide
  rw [← hst7] at hready hpend hstate
  have hc := hk.committed hready
  obtain ⟨hdisk, hres'⟩ := @select_idle .loader tinySha256 _ hready hpend
  rw [← hdisk] at hc
  rw [append_assoc (es ++ _) [_] [_]] at h8
  refine ⟨_, _, _, _, _, h8, ?_, ?_, ?_, _, hc.durable, ?_⟩
  · rw [hres]
  · rw [hres']
  · intro e he slot g a l
    rcases List.mem_cons.mp he with rfl | he
    · exact fun hz => nomatch hz
    · rw [List.mem_singleton.mp he]
      exact fun hz => nomatch hz
  · rw [hres]
    exact hstate

end CapyOS.Proofs
