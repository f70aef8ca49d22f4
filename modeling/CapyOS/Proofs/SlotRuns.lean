import CapyOS.Proofs.SlotStage

namespace CapyOS.Proofs
open Lib

section
variable {build : Build} {sha256 : List Byte → Chars bootSlotSha256Size} {layout : BootSlotLayout}
  {s : SlotSession}

def reaches (layout : BootSlotLayout) (lba : BitVec 32) : SlotOp → Prop
  | .stage _ _ _ slot _ _ => InSlot layout (slotIndex slot) lba
  | _ => False

theorem exec_step (h : Kept layout s) (x : SlotOp) :
    StepOk layout (fun lba => reaches layout lba x) (fun m => m ∈ x.candidates build s.st ∧ s.st.slots.bsp.configured = true) s
      (x.succeeded (x.result build sha256 s) = true) (x.outcome build sha256 s).2 := by
  have hmem : ∀ {o : Option BootSlotManager} {m}, o = some m → s.st.slots.bsp.configured = true →
      m ∈ o.toList ∧ s.st.slots.bsp.configured = true := by
    rintro _ m rfl hconf
    exact ⟨List.mem_singleton_self m, hconf⟩
  cases x with
  | bind store lease =>
    simp only [SlotOp.succeeded, decide_eq_true_eq]
    exact bind_step h store lease
  | initializePersistent l image =>
    simp only [SlotOp.succeeded, decide_eq_true_eq]
    exact initialize_step h fun _ => hmem
  | arm slot generation =>
    simp only [SlotOp.succeeded, decide_eq_true_eq]
    exact arm_step h slot generation (fun _ => hmem) rfl
  | activate slot =>
    simp only [SlotOp.succeeded, decide_eq_true_eq]
    exact activate_step h slot fun _ => hmem
  | select =>
    simp only [SlotOp.succeeded, decide_eq_true_eq]
    refine select_step h (fun hready hpend m i rc hc hconf => ?_) rfl
    simp only [SlotOp.candidates, hready, hpend, Bool.not_true, decide_false, Bool.or_self, Bool.false_eq_true, if_false]
    refine ⟨List.mem_map.mpr ⟨(m, i, rc), ?_, rfl⟩, hconf⟩
    rw [hc]
    exact List.mem_singleton_self _
  | confirm slot generation authority lease =>
    simp only [SlotOp.succeeded, decide_eq_true_eq]
    exact confirm_step h slot generation authority lease fun _ => hmem
  | rollback =>
    simp only [SlotOp.succeeded, decide_eq_true_eq]
    exact rollback_step h fun _ => hmem
  | authorize expected slot image =>
    refine authorize_step h expected (fun _ => hmem) (fun rc he hneg => ?_) fun a ha => ?_
    · simp only [SlotOp.succeeded, SlotOp.result, SlotOp.outcome, SlotOp.exec, he, decide_eq_true_eq]
      omega
    · simp only [SlotOp.succeeded, SlotOp.result, SlotOp.outcome, SlotOp.exec, ha, decide_true]
  | publish authorization image =>
    simp only [SlotOp.succeeded, decide_eq_true_eq]
    exact publish_step h authorization fun _ => hmem
  | stage store lease expected slot image payload =>
    simp only [SlotOp.succeeded, decide_eq_true_eq]
    refine stage_step h store lease (fun _ hin => hin) (fun m hc hconf => ?_) rfl
    have hm := (hmem hc hconf).1
    simp only [SlotOp.candidates]
    exact ⟨⟨List.mem_flatMap.mpr ⟨m, hm, List.mem_cons_self ..⟩, hconf⟩,
      ⟨List.mem_flatMap.mpr ⟨m, hm, List.mem_cons_of_mem _ (List.mem_cons_self ..)⟩, hconf⟩⟩

theorem Unwritten.kept (h : Unwritten layout s) : Kept layout s := by
  have hno : s.st.slots.bsp.configured ≠ true := by
    rw [h.memory.configured]
    decide
  exact ⟨h.plan, h.memory.registered, h.memory.objects, .inl h.erased, fun hb => absurd hb hno,
    fun hb => absurd hb hno, fun hb => absurd hb hno⟩

/-- Whatever part of a function's writes reached the disk. -/
theorem crash_advances (h : Kept layout s) (x : SlotOp) (k : Nat) :
    Advances layout (fun m => m ∈ x.candidates build s.st ∧ s.st.slots.bsp.configured = true) s.disk
      (x.crashDisk build sha256 s k) :=
  (exec_step h x).writes.advances k

theorem Advances.held {P : BootSlotManager → Prop} {disk disk' : BitVec 32 → Bytes} (h : Advances layout P disk disk')
    (hd : ControlErased layout disk ∨ ∃ c m g, Committed layout disk c m g) :
    ControlErased layout disk' ∨ ∃ c m g, Committed layout disk' c m g := by
  rcases hd with he | ⟨c, m, g, hc⟩
  · rcases h.erased he with he' | ⟨c, m, g, hc, -⟩
    · exact .inl he'
    · exact .inr ⟨c, m, g, hc⟩
  · obtain ⟨c', m', g', hc', -, -⟩ := h.committed c m g hc
    exact .inr ⟨c', m', g', hc'⟩

/-- Every state of a run is one in which a bound store agrees with the disk. -/
theorem trace_kept {s0 : SlotSession} {ok : SlotSession → SlotOp → Prop} {es : List SlotEvent}
    (h0 : Unwritten layout s0) (ht : SlotTrace build sha256 layout s0 ok es s) : Kept layout s := by
  induction ht with
  | start => exact Unwritten.kept h0
  | @done es s x _ _ ih => exact (exec_step ih x).kept
  | @crashed es s x k st _ _ _ hst ih => exact ih.powered hst ((crash_advances ih x k).held ih.disk)

/-- A bind from any memory that may bind, on the sectors of the partition alone. -/
theorem rebind_committed {slots : BootSlots} {disk : BitVec 32 → Bytes} {c : Fin 2} {m : BootSlotManager}
    {g : BitVec 64} (hclaim : slots.bsp.stageClaimed = false)
    (hbind : bootSlotBindAllowed build slots = true) (h : Committed layout disk c m g) :
    let r := bootSlotSetPersistence (controlIo layout) build layout slots disk
    r.1 = 0 ∧ r.2.1.bsm = m ∧ r.2.1.bsp.generation = g := by
  obtain ⟨d, hr⟩ := @setPersistence_committed _ (controlIo layout) build layout disk slots disk c m g
    (fun _ => rfl) hclaim hbind h
  rw [hr]
  exact ⟨rfl, rfl, rfl⟩

theorem rebind_erased {slots : BootSlots} {disk : BitVec 32 → Bytes}
    (hplan : bootSlotLayoutPlan layout.bootSectors = some layout)
    (hclaim : slots.bsp.stageClaimed = false) (hbind : bootSlotBindAllowed build slots = true) (h : ControlErased layout disk) :
    (bootSlotSetPersistence (controlIo layout) build layout slots disk).1 = bootSlotPersistEmpty := by
  rw [@setPersistence_erased _ (controlIo layout) build layout disk slots disk hplan (fun _ => rfl) hclaim
    hbind h]

/-- Power may fail after any sector write of any function of any run. A bind on
what is then on the disk finds the manager it found before the function ran, or
one the function was writing, under a generation that is no lower; and once a
function has returned success, a bind finds what memory holds. -/
theorem rebind_agrees {s0 : SlotSession} {ok : SlotSession → SlotOp → Prop} {es : List SlotEvent}
    (h0 : Unwritten layout s0) (ht : SlotTrace build sha256 layout s0 ok es s) (x : SlotOp)
    {slots : BootSlots} (hclaim : slots.bsp.stageClaimed = false)
    (hbind : bootSlotBindAllowed build slots = true) :
    let rebind disk := bootSlotSetPersistence (controlIo layout) build layout slots disk
    (∀ k, let before := rebind s.disk
      let found := rebind (x.crashDisk build sha256 s k)
      (found.1 = bootSlotPersistEmpty ∧ ControlErased layout (x.crashDisk build sha256 s k) ∧
        ControlErased layout s.disk) ∨
      (found.1 = 0 ∧
        (before.1 = 0 ∧ found.2.1.bsm = before.2.1.bsm ∧
            found.2.1.bsp.generation = before.2.1.bsp.generation ∨
          found.2.1.bsm ∈ x.candidates build s.st) ∧
        (before.1 = 0 → before.2.1.bsp.generation ≤ found.2.1.bsp.generation))) ∧
    (x.succeeded (x.result build sha256 s) = true → (x.after build sha256 s).st.slots.bsp.configured = true →
      let found := rebind (x.after build sha256 s).disk
      found.1 = 0 ∧ found.2.1.bsm = (x.after build sha256 s).st.slots.bsm ∧
        found.2.1.bsp.generation = (x.after build sha256 s).st.slots.bsp.generation) := by
  have hk := trace_kept h0 ht
  constructor
  · intro k
    have hadv := @crash_advances build sha256 _ _ hk x k
    rcases hk.disk with he | ⟨c, m, g, hc⟩
    · have hblank := rebind_erased hk.plan hclaim hbind he
      rcases hadv.erased he with he' | ⟨c, m, g, hc, hP⟩
      · exact .inl ⟨rebind_erased hk.plan hclaim hbind he', he', he⟩
      · obtain ⟨h0', hm, -⟩ := rebind_committed hclaim hbind hc
        refine .inr ⟨h0', .inr (hm ▸ hP.1), fun hz => ?_⟩
        exact absurd (hblank.symm.trans hz) (by decide)
    · obtain ⟨c', m', g', hc', hle, hsame⟩ := hadv.committed c m g hc
      obtain ⟨hb0, hbm, hbg⟩ := rebind_committed hclaim hbind hc
      obtain ⟨h0', hm, hg⟩ := rebind_committed hclaim hbind hc'
      refine .inr ⟨h0', ?_, fun _ => ?_⟩
      · rcases hsame with ⟨rfl, rfl⟩ | hP
        · exact .inl ⟨hb0, hm.trans hbm.symm, hg.trans hbg.symm⟩
        · exact .inr (hm ▸ hP.1)
      · rw [hbg, hg]
        exact hle
  · intro hok hconf
    have hstep := @exec_step build sha256 _ _ hk x
    obtain ⟨-, hcom⟩ := hstep.kept.ready hconf (hstep.ready hok hconf)
    exact rebind_committed hclaim hbind hcom

theorem candidates_sound (h : Kept layout s) (hconf : s.st.slots.bsp.configured = true) {x : SlotOp}
    {m : BootSlotManager} (hm : m ∈ x.candidates build s.st) : ManagerSound layout m := by
  have hno : s.st.slots.bsp.configured ≠ false := by
    rw [hconf]
    decide
  cases x with
  | bind store lease => exact nomatch hm
  | initializePersistent l image =>
    obtain ⟨-, -, -, hl, himage, rfl⟩ := initializeCandidate_cases (Option.mem_toList.mp hm)
    rw [(h.bound hconf).1] at hl
    subst hl
    exact (initialManager_sound h.plan himage).1
  | arm slot generation => exact (arm_sound h (Option.mem_toList.mp hm)).2
  | activate slot =>
    rcases activate_sound h (Option.mem_toList.mp hm) with he | ⟨-, hs⟩
    · exact absurd he hno
    · exact hs
  | select =>
    simp only [SlotOp.candidates] at hm
    split at hm
    · exact absurd hm List.not_mem_nil
    · rename_i hguard
      simp only [Bool.or_eq_true, Bool.not_eq_true', decide_eq_true_eq, not_or, Bool.not_eq_false] at hguard
      obtain ⟨⟨m', i, rc⟩, hc, rfl⟩ := List.mem_map.mp hm
      exact select_sound h hguard.1 hguard.2 (Option.mem_toList.mp hc)
  | confirm slot generation authority lease => exact (confirm_sound h (Option.mem_toList.mp hm)).2
  | rollback =>
    rcases rollback_sound h (Option.mem_toList.mp hm) with he | ⟨-, hs⟩
    · exact absurd he hno
    · exact hs
  | authorize expected slot image => exact (authorize_sound h (Option.mem_toList.mp hm)).2
  | publish authorization image => exact (publish_sound h (Option.mem_toList.mp hm)).2
  | stage store lease expected slot image payload =>
    obtain ⟨m', hc, hmem⟩ := List.mem_flatMap.mp hm
    have hc' := Option.mem_toList.mp hc
    have hsound := (authorize_sound h hc').2
    obtain ⟨hready, hslot, hne, hpend, himage, -, -, -, hm'⟩ := authorizeCandidate_cases hc'
    have hset : Settled m' := by
      rw [hm']
      exact staged_settled ((h.committed hready).sound.settled hpend) hslot hne (.inl rfl) (.inl rfl)
    have hcap : (m'.slot slot).payloadCapacitySectors =
        (s.st.slots.bsm.slot slot).payloadCapacitySectors := by
      have hnew : m'.slot slot = bsSlotApplyImage (s.st.slots.bsm.slot slot) slot image .failed := by
        rw [hm']
        exact slot_setSlot_same _ _ _
      rw [hnew]
      rfl
    have hne' : slot ≠ m'.confirmedSlot := by
      rw [hm']
      exact hne
    rw [← hcap] at himage
    rcases List.mem_cons.mp hmem with rfl | hlast
    · exact hsound
    · rw [List.mem_singleton.mp hlast]
      exact staged_sound hsound hset hslot hne' himage (.inr rfl) (.inr ⟨rfl, rfl⟩)

theorem commit_succeeds (h : Kept layout s) {m : BootSlotManager} (hm : ManagerSound layout m)
    (hready : bootSlotPersistenceReady s.st.slots = true) (hclaim : s.st.slots.bsp.stageClaimed = false)
    (hg : s.st.slots.bsp.generation ≠ BitVec.allOnes 64) :
    (bsCommitLocked (storeControlIo (fun _ => mediumIo) s.st.binding) m s.st.slots ⟨s.disk, []⟩).1 = 0 := by
  obtain ⟨-, hinit, hconf, hr⟩ := persistenceReady_iff.mp hready
  rcases commit_medium h (fun _ => hm) (.inl hready) with ⟨rc, hneg, he⟩ | ⟨-, he⟩ | ⟨-, -, he⟩
  · exfalso
    have hrc : (bsCommitLocked (storeControlIo (fun _ => mediumIo) s.st.binding) m s.st.slots
        ⟨s.disk, []⟩).2.2 = ⟨s.disk, []⟩ := by rw [he]
    have hne : s.st.slots.bsp.generation + 1#64 ≠ 0#64 := by
      have hlt := next_generation hg
      intro hz
      rw [hz] at hlt
      exact Nat.not_lt_zero _ hlt
    simp only [bsCommitLocked, hinit, hconf, hclaim, hr, hg, writeVerified_medium (h.ready hconf hr).1
      (h.bound hconf).2 hm hne, Bool.not_true, Bool.and_false, Bool.or_self, Bool.false_eq_true, if_false,
      decide_false, if_true] at hrc
    exact nomatch congrArg Medium.log hrc
  · rw [he]
  · rw [he]

theorem commits_succeed (h : Kept layout s) (hconf : s.st.slots.bsp.configured = true)
    (hclaim : s.st.slots.bsp.stageClaimed = false) (hg : s.st.slots.bsp.generation ≠ BitVec.allOnes 64)
    {x : SlotOp} (hx : x.commits = true) {m : BootSlotManager} (hm : m ∈ x.candidates build s.st) :
    x.succeeded (x.result build sha256 s) = true := by
  have hsound := candidates_sound h hconf hm
  have hno : s.st.slots.bsp.configured ≠ false := by
    rw [hconf]
    decide
  cases x with
  | bind store lease => exact absurd hx Bool.false_ne_true
  | initializePersistent l image =>
    have hc := Option.mem_toList.mp hm
    obtain ⟨-, -, hblank, -⟩ := initializeCandidate_cases hc
    have h1 : (1#64 : BitVec 64) ≠ 0#64 := by decide
    have h2 : (2#64 : BitVec 64) ≠ 0#64 := by decide
    have hactive := (h.blank hconf hblank).1
    simp only [SlotOp.succeeded, SlotOp.result, SlotOp.outcome, SlotOp.exec, onSlots,
      bootSlotInitializePersistent, hc, hconf, writeVerified_medium hactive (h.bound hconf).2 hsound h1,
      writeVerified_medium hactive (h.bound hconf).2 hsound h2, ne_eq, not_true_eq_false, if_false, decide_true]
  | arm slot generation =>
    have hc := Option.mem_toList.mp hm
    have hok := commit_succeeds h hsound (arm_sound h hc).1 hclaim hg
    simp only [SlotOp.succeeded, SlotOp.result, SlotOp.outcome, SlotOp.exec, bootSlotArmProvider, hc, hok, ne_eq,
      not_true_eq_false, if_false, decide_true]
  | activate slot =>
    have hc := Option.mem_toList.mp hm
    rcases activate_sound h hc with he | ⟨hready, -⟩
    · exact absurd he hno
    · simp only [SlotOp.succeeded, SlotOp.result, SlotOp.outcome, SlotOp.exec, onSlots, bootSlotActivate, hc,
        commit_succeeds h hsound hready hclaim hg, decide_true]
  | select =>
    simp only [SlotOp.candidates] at hm
    split at hm
    · exact absurd hm List.not_mem_nil
    · rename_i hguard
      simp only [Bool.or_eq_true, Bool.not_eq_true', decide_eq_true_eq, not_or, Bool.not_eq_false] at hguard
      obtain ⟨⟨m', i, rc⟩, hc, rfl⟩ := List.mem_map.mp hm
      have hc' := Option.mem_toList.mp hc
      have hok := commit_succeeds h hsound hguard.1 hclaim hg
      have hrc : 0 ≤ rc := by
        rcases selectCandidate_cases ((h.committed hguard.1).sound.onTrial hguard.2) with ⟨-, he⟩ | ⟨-, he⟩
        · rw [he] at hc'
          cases hc'
          decide
        · rw [he] at hc'
          cases hc'
          decide
      simp only [SlotOp.succeeded, SlotOp.result, SlotOp.outcome, SlotOp.exec, bootSlotSelect, hguard.1,
        hguard.2, hc', hok, Bool.not_true, Bool.false_eq_true, if_false, ne_eq, not_true_eq_false, hrc, decide_true]
  | confirm slot generation authority lease =>
    have hc := Option.mem_toList.mp hm
    simp only [SlotOp.succeeded, SlotOp.result, SlotOp.outcome, SlotOp.exec, onSlots, bootSlotConfirmVerified, hc,
      commit_succeeds h hsound (confirm_sound h hc).1 hclaim hg, decide_true]
  | rollback =>
    have hc := Option.mem_toList.mp hm
    rcases rollback_sound h hc with he | ⟨hready, -⟩
    · exact absurd he hno
    · simp only [SlotOp.succeeded, SlotOp.result, SlotOp.outcome, SlotOp.exec, onSlots, bootSlotRollback, hc,
        commit_succeeds h hsound hready hclaim hg, decide_true]
  | authorize expected slot image =>
    simp only [SlotOp.succeeded, SlotOp.result, SlotOp.outcome, SlotOp.exec,
      authorize_medium h (Option.mem_toList.mp hm) hclaim, decide_true]
  | publish authorization image => exact absurd hx Bool.false_ne_true
  | stage store lease expected slot image payload => exact absurd hx Bool.false_ne_true

/-- In every state a run reaches, the validator accepts what a function with its
guards passed writes, so the function succeeds; and a staging that was authorized
ends with its slot published. -/
theorem transitions_accepted {s0 : SlotSession} {ok : SlotSession → SlotOp → Prop} {es : List SlotEvent}
    (h0 : Unwritten layout s0) (ht : SlotTrace build sha256 layout s0 ok es s)
    (hconf : s.st.slots.bsp.configured = true) :
    (∀ x : SlotOp, ∀ m ∈ x.candidates build s.st, bootSlotManagerValidate m) ∧
    (∀ x : SlotOp, x.commits = true → x.candidates build s.st ≠ [] → s.st.slots.bsp.stageClaimed = false →
      s.st.slots.bsp.generation < BitVec.allOnes 64 - 3#64 →
      x.succeeded (x.result build sha256 s) = true) ∧
    (∀ store lease expected slot image payload io a, storeIoGet s.st store lease = some io →
      storeBindingMatchesIo s.st io store = true → expected.authorityEpoch = s.st.binding.epoch →
      expected.leaseEpoch = lease → storeStagePreflight sha256 s.st.binding slot image payload = 0 →
      (storeStageAuthorize (fun _ => mediumIo) expected slot image s.st ⟨s.disk, []⟩).1 = .ok a →
      let x := SlotOp.stage store lease expected slot image payload
      let t := (x.after build sha256 s).st.slots.bsm.slot slot
      (x.result build sha256 s).rc = 0 ∧ t.state = .valid ∧ t.version = image.version ∧
        t.payloadSize = image.payloadSize ∧ t.payloadSha256 = image.payloadSha256) := by
  have hk := trace_kept h0 ht
  refine ⟨fun x m hm => (candidates_sound hk hconf hm).valid, fun x hx hcand hclaim hg => ?_, ?_⟩
  · obtain ⟨m, hm⟩ := List.exists_mem_of_ne_nil _ hcand
    have hne : s.st.slots.bsp.generation ≠ BitVec.allOnes 64 := by
      intro he
      rw [he] at hg
      exact absurd hg (by decide)
    exact commits_succeed hk hconf hclaim hne hx hm
  · intro store lease expected slot image payload io a hio hbound hepoch hlease hpre hauth
    cases hc : authorizeCandidate expected slot image s.st with
    | none =>
      rw [authorize_refused hc] at hauth
      exact nomatch hauth
    | some m =>
      cases hclaim : s.st.slots.bsp.stageClaimed with
      | true =>
        rw [authorize_busy hc hclaim] at hauth
        exact nomatch hauth
      | false =>
        have hv := storeVersion_copied (preflight_cases hpre).2.2.1
        have hrun := stage_runs hk hio hbound hepoch hlease hpre hc hclaim
        have hslot : (staged m slot image .valid slot).slot slot =
            bsSlotApplyImage (m.slot slot) slot image .valid := slot_setSlot_same _ _ _
        simp only [SlotOp.after, SlotOp.result, SlotOp.outcome, SlotOp.exec, hrun]
        refine ⟨trivial, ?_⟩
        simp only [publishedStore, BootStore.claim, BootSlots.adopt, hslot, bsSlotApplyImage, hv]
        exact ⟨trivial, trivial, trivial, trivial⟩

def boundBlank (layout : BootSlotLayout) (slots : BootSlots) (epoch : BitVec 64) : BootSlots :=
  { binding layout slots with
    bsp := { (binding layout slots).bsp with blank := true, authorityEpoch := epoch }
    phase := .boundEmpty }

theorem bind_erased {store : Nat} {lease : BitVec 64} {io : StoreIo} (hio : storeIoGet s.st store lease = some io)
    (hfree : ¬ (s.st.slots.bsp.configured = true ∨ s.st.nextEpoch = 0#64 ∨
      (s.st.leaseOwner.isSome = true ∧ s.st.leaseOwner ≠ some store)))
    (hinit : s.st.slots.initialized = true) (hl : io.layout = layout)
    (hplan : bootSlotLayoutPlan layout.bootSectors = some layout)
    (hclaim : s.st.slots.bsp.stageClaimed = false) (hbind : bootSlotBindAllowed build s.st.slots = true)
    (he : ControlErased layout s.disk) : ((SlotOp.bind store lease).after build sha256 s).st = { s.st with
      slots := boundBlank layout s.st.slots s.st.nextEpoch
      binding := ⟨some store, layout, io.io, s.st.nextEpoch, io.leaseEpoch, io.providerBacked, true⟩
      nextEpoch := s.st.nextEpoch + 1#64 } := by
  have hread := @controlIo_read layout
    ⟨some store, layout, io.io, s.st.nextEpoch, io.leaseEpoch, io.providerBacked, true⟩ rfl rfl ⟨s.disk, []⟩
  simp only [SlotOp.after, SlotOp.outcome, SlotOp.exec, bootSlotStoreBindControl, hio, if_neg hfree, hinit,
    if_true, hl, setPersistence_erased hplan hread hclaim hbind he]
  rfl

end

/-- Six sectors: a header and one payload sector for each slot, and the control copies. -/
def tinyLayout : BootSlotLayout where
  bootSectors := 6#32
  slots i := if i = 0 then ⟨0#32, 1#32, 1#32⟩ else ⟨2#32, 3#32, 1#32⟩
  controlLba i := if i = 0 then 4#32 else 5#32

def tinySha256 (_ : List Byte) : Chars bootSlotSha256Size := Vector.replicate _ 1#8

def tinyImage : BootSlotImage where
  version := (Vector.replicate _ 0#8).set 0 49#8 version_pos
  payloadSize := 1#32
  payloadSha256 := tinySha256 []

def tinyStore : BootStore where
  slots := ⟨bsManagerDefaults, true, clearPersistence, .leasedUnbound⟩
  binding := clearBinding
  registration := ⟨none, tinyLayout, .external 0, 0#64, false⟩
  leaseOwner := none
  nextEpoch := 1#64
  objects _ := ⟨0#64, tinyLayout, .external 0, true⟩

def tinySession : SlotSession := ⟨tinyStore, fun _ => zeros⟩

theorem tiny_unwritten : Unwritten tinyLayout tinySession := by
  refine ⟨by decide, ⟨rfl, rfl, rfl, fun _ => rfl⟩, fun _ => ?_⟩
  simp [bsRecordErased, tinySession, listBytes, zeros]

def tinyBound : BootStore :=
  { tinyStore with
    slots := boundBlank tinyLayout tinyStore.slots 1#64
    binding := ⟨some 0, tinyLayout, .external 0, 1#64, 0#64, false, true⟩
    nextEpoch := 2#64 }

theorem tiny_bind : ((SlotOp.bind 0 0#64).after .loader tinySha256 tinySession).st = tinyBound := by
  have hio : storeIoGet tinySession.st 0 0#64 = some ⟨tinyLayout, .external 0, 0#64, false⟩ := by
    simp [storeIoGet, tinySession, tinyStore]
  have hfree : ¬ (tinySession.st.slots.bsp.configured = true ∨ tinySession.st.nextEpoch = 0#64 ∨
      (tinySession.st.leaseOwner.isSome = true ∧ tinySession.st.leaseOwner ≠ some 0)) := by
    simp [tinySession, tinyStore, clearPersistence]
  exact bind_erased hio hfree rfl rfl tiny_unwritten.plan rfl (by decide) tiny_unwritten.erased

theorem tiny_initialize : initializeCandidate .loader tinyLayout tinyImage tinyBound.slots =
    some (initialManager tinyLayout tinyImage) := by
  rw [initializeCandidate, if_neg]
  decide

theorem rebind_agrees_tiny :
    let s := (SlotOp.bind 0 0#64).after .loader tinySha256 tinySession
    let found := bootSlotSetPersistence (controlIo tinyLayout) .loader tinyLayout tinyStore.slots
      ((SlotOp.initializePersistent tinyLayout tinyImage).crashDisk .loader tinySha256 s 1)
    found.1 = bootSlotPersistEmpty ∨ found.1 = 0 := by
  have hrun := @SlotTrace.done .loader tinySha256 tinyLayout tinySession (fun _ _ => True) [] tinySession
    (.bind 0 0#64) .start trivial
  have hclaim : tinyStore.slots.bsp.stageClaimed = false := rfl
  have hbind : bootSlotBindAllowed .loader tinyStore.slots = true := by decide
  rcases (rebind_agrees tiny_unwritten hrun (.initializePersistent tinyLayout tinyImage) hclaim hbind).1 1
    with hblank | hfound
  · exact .inl hblank.1
  · exact .inr hfound.1

theorem transitions_accepted_tiny : bootSlotManagerValidate (initialManager tinyLayout tinyImage) := by
  have hrun := @SlotTrace.done .loader tinySha256 tinyLayout tinySession (fun _ _ => True) [] tinySession
    (.bind 0 0#64) .start trivial
  have hconf : ((SlotOp.bind 0 0#64).after .loader tinySha256 tinySession).st.slots.bsp.configured = true := by
    rw [tiny_bind]
    rfl
  have hmem : initialManager tinyLayout tinyImage ∈
      (SlotOp.initializePersistent tinyLayout tinyImage).candidates .loader
        ((SlotOp.bind 0 0#64).after .loader tinySha256 tinySession).st := by
    simp only [SlotOp.candidates, tiny_bind, tiny_initialize, Option.toList_some, List.mem_singleton]
  exact (transitions_accepted tiny_unwritten hrun hconf).1 _ _ hmem

end CapyOS.Proofs
