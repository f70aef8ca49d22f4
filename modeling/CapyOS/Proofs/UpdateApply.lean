import CapyOS.Proofs.UpdateAgent
import CapyOS.Services.UpdateApply

namespace CapyOS.Proofs
open List

def versionOrder (key : UpdateVersionKey) : ℕ ×ₗ ℕ ×ₗ ℕ ×ₗ ℕ ×ₗ ℕ :=
  toLex (key.major, toLex (key.minor, toLex (key.patch, toLex (key.prereleaseRank, key.prereleaseNumber))))

theorem compareU32_zero (a b : Nat) : compareU32 a b = 0 ↔ a = b := by
  unfold compareU32
  split_ifs <;> simp <;> omega

theorem compareU32_pos (a b : Nat) : 0 < compareU32 a b ↔ b < a := by
  unfold compareU32
  split_ifs <;> simp <;> omega

theorem next_zero (cmp : Int) (a b : Nat) : compareNext cmp a b = 0 ↔ cmp = 0 ∧ a = b := by
  rw [← compareU32_zero]
  unfold compareNext
  by_cases h : cmp = 0 <;> simp [h]

theorem next_pos (cmp : Int) (a b : Nat) : 0 < compareNext cmp a b ↔ 0 < cmp ∨ cmp = 0 ∧ b < a := by
  rw [← compareU32_pos]
  unfold compareNext
  by_cases h : cmp = 0 <;> simp [h]

theorem compareKeys_order {a b : UpdateVersionKey} (h : 0 ≤ compareKeys a b) : versionOrder b ≤ versionOrder a := by
  have hcmp : compareKeys a b = 0 ∨ 0 < compareKeys a b := by omega
  unfold compareKeys at hcmp
  simp only [next_zero, next_pos, compareU32_zero, compareU32_pos] at hcmp
  unfold versionOrder
  simp only [Prod.Lex.toLex_le_toLex]
  omega

theorem hexValue_digit (n : Nat) (h : n < 16) : hexValue (Nat.digitChar n) = some n := by
  have hall : ∀ i : Fin 16, hexValue (Nat.digitChar i.val) = some i.val := by decide
  exact hall ⟨n, h⟩

theorem decode_digest (digest : List (Fin 256)) (text : Text) (h : (digestHex digest).map hexValue = text.map hexValue) :
    decodeHex digest.length text = some digest := by
  induction digest generalizing text with
  | nil => rfl
  | cons byte digest ih =>
    match text with
    | [] | [_] => simp [digestHex] at h
    | hi :: lo :: text =>
      simp only [digestHex, flatMap_cons, map_cons, cons_append, nil_append, List.cons.injEq] at h
      obtain ⟨hhi, hlo, hrest⟩ := h
      rw [hexValue_digit _ (by omega)] at hhi hlo
      simp only [decodeHex, length_cons, ← hhi, ← hlo, ih text hrest]
      have hbyte : Fin.ofNat 256 (byte.val / 16 * 16 + byte.val % 16) = byte := by
        apply Fin.ext
        change (byte.val / 16 * 16 + byte.val % 16) % 256 = byte.val
        omega
      exact congrArg (fun b => some (b :: digest)) hbyte

variable {φ : Type} {env : UpdateEnv φ} {agent : UpdateAgent φ} {status : SystemUpdateStatus} {view : UpdateManifestView}
  {payload : Text}

/-- A manifest that an update may come from: signed, not older than the system, and of the
selected repository. -/
structure Usable (env : UpdateEnv φ) (status : SystemUpdateStatus) (view : UpdateManifestView) : Prop where
  signatureLines : view.signatureLineCount = 1
  signed : ∃ signature, hexToBytes view.signatureEd25519 64 = some signature ∧ env.ed25519Verify signature view.signedText = true
  notOlder : ∃ key current, parseUpdateVersionKey view.version = some key ∧
    parseUpdateVersionKey status.currentVersion = some current ∧ versionOrder current ≤ versionOrder key
  channel : view.channel = [] ∨ view.channel = status.channel
  branch : view.branch = [] ∨ view.branch = status.branch
  source : view.source = [] ∨ view.source = status.source

structure SameSystem (status status' : SystemUpdateStatus) : Prop where
  channel : status.channel = status'.channel
  branch : status.branch = status'.branch
  source : status.source = status'.source
  currentVersion : status.currentVersion = status'.currentVersion

theorem Usable.same {status' : SystemUpdateStatus} (h : Usable env status view) (hsame : SameSystem status status') :
    Usable env status' view :=
  { h with
    notOlder := hsame.currentVersion ▸ h.notOlder
    channel := hsame.channel ▸ h.channel
    branch := hsame.branch ▸ h.branch
    source := hsame.source ▸ h.source }

theorem signatureValid_signed (h : env.signatureValid view = true) : view.signatureLineCount = 1 ∧
      ∃ signature, hexToBytes view.signatureEd25519 64 = some signature ∧ env.ed25519Verify signature view.signedText = true := by
  unfold UpdateEnv.signatureValid at h
  simp only [Bool.and_eq_true, decide_eq_true_eq] at h
  obtain ⟨⟨⟨hcount, _⟩, _⟩, hverify⟩ := h
  refine ⟨hcount, ?_⟩
  split at hverify
  · cases hverify
  · rename_i signature hsignature
    exact ⟨signature, hsignature, hverify⟩

theorem compareCurrent_order {currentVersion : Text} {cmp : Int} (h : view.compareCurrent currentVersion = some cmp) (hcmp : 0 ≤ cmp) :
    ∃ key current, parseUpdateVersionKey view.version = some key ∧ parseUpdateVersionKey currentVersion = some current ∧
      versionOrder current ≤ versionOrder key := by
  unfold UpdateManifestView.compareCurrent at h
  split at h
  · cases h
  unfold compareUpdateVersions at h
  cases hkey : parseUpdateVersionKey view.version with
  | none => simp [hkey] at h
  | some key =>
    cases hcurrent : parseUpdateVersionKey currentVersion with
    | none => simp [hkey, hcurrent] at h
    | some current =>
      have hkeys : compareKeys key current = cmp := by simpa [hkey, hcurrent] using h
      exact ⟨key, current, rfl, rfl, compareKeys_order (hkeys ▸ hcmp)⟩

theorem mismatches_same (h : status.mismatches view = false) :
    (view.channel = [] ∨ view.channel = status.channel) ∧ (view.branch = [] ∨ view.branch = status.branch) ∧
      (view.source = [] ∨ view.source = status.source) := by
  unfold SystemUpdateStatus.mismatches at h
  simp only [Bool.or_eq_false_iff, Bool.and_eq_false_iff, decide_eq_false_iff_not, not_not] at h
  exact ⟨h.1.1, h.1.2, h.2⟩

theorem check_usable (hmismatch : (env.checkManifest status false view).mismatch = false)
    (hfault : (env.checkManifest status false view).fault = none) : Usable env status view := by
  unfold UpdateEnv.checkManifest at hmismatch hfault
  cases hcmp : view.compareCurrent status.currentVersion with
  | none => simp [hcmp] at hfault
  | some cmp =>
    simp only [hcmp] at hmismatch hfault
    split at hfault
    · cases hfault
    rename_i hnot
    split at hfault
    · rename_i honly
      exact absurd honly.1 nofun
    split at hfault
    · cases hfault
    split at hfault
    · cases hfault
    split at hfault
    · cases hfault
    split at hfault
    · cases hfault
    rename_i hsignature
    obtain ⟨hlines, hsigned⟩ := signatureValid_signed (by simpa using hsignature)
    have hsame : status.mismatches view = false := by simpa [*] using hmismatch
    obtain ⟨hchannel, hbranch, hsource⟩ := mismatches_same hsame
    exact ⟨hlines, hsigned, compareCurrent_order hcmp (by omega), hchannel, hbranch, hsource⟩

theorem failures_negative (manifest staged : ManifestCheck) (manifestInvalid stagedInvalid : Bool) :
    ∀ failure ∈ UpdateEnv.pollFailures manifest staged manifestInvalid stagedInvalid, failure.2.1 < 0 := by
  simp [UpdateEnv.pollFailures]

theorem failures_none {manifest staged : ManifestCheck} {manifestInvalid stagedInvalid : Bool}
    (h : ∀ failure ∈ UpdateEnv.pollFailures manifest staged manifestInvalid stagedInvalid, ¬failure.1 = true) :
    staged.mismatch = false ∧ staged.fault = none := by
  simp only [UpdateEnv.pollFailures, forall_mem_cons] at h
  obtain ⟨_, hmismatch, _, _, _, hversion, _, hdowngrade, _, hpayload, _, hsize, _, hurl, _, hsignature, _⟩ := h
  refine ⟨by simpa using hmismatch, ?_⟩
  cases hfault : staged.fault with
  | none => rfl
  | some fault => cases fault <;> simp [hfault] at hversion hdowngrade hpayload hsize hurl hsignature

theorem verified_digest {manifest : UpdateManifestView} (h : env.payloadLoadVerified agent manifest = some payload) :
    hexToBytes manifest.payloadSha256 32 = some (env.sha256 payload) := by
  unfold UpdateEnv.payloadLoadVerified at h
  split at h
  · cases h
  extract_lets limit at h
  split at h
  · cases h
  split at h
  · cases h
  split at h
  · rename_i hpayload
    cases h
    have hequal := hpayload.2.2.2
    unfold hexEqualFixed at hequal
    simp only [Bool.and_eq_true, decide_eq_true_eq] at hequal
    unfold hexToBytes
    rw [if_pos hequal.1.2]
    have hdecode := decode_digest (env.sha256 payload) manifest.payloadSha256 hequal.2
    rwa [env.sha256_length] at hdecode
  · cases h

theorem pollCatalog_same (status : SystemUpdateStatus) (manifest : Except Int UpdateManifestView) :
    SameSystem (env.pollCatalog status manifest) status ∧
      (env.pollCatalog status manifest).stagedManifestPath = status.stagedManifestPath ∧
      (env.pollCatalog status manifest).stagedPayloadSha256 = status.stagedPayloadSha256 := by
  cases manifest <;> exact ⟨⟨rfl, rfl, rfl, rfl⟩, rfl, rfl⟩

theorem pollState_empty : (env.pollState agent).status.stagedPayloadSha256 = [] := by
  unfold UpdateEnv.pollState
  dsimp only
  split <;> rfl

theorem pollEnd_same (status : SystemUpdateStatus) : SameSystem status (UpdateEnv.pollEnd status).2 ∧
      (UpdateEnv.pollEnd status).2.stagedManifestPath = status.stagedManifestPath ∧
      (UpdateEnv.pollEnd status).2.stagedPayloadSha256 = status.stagedPayloadSha256 := by
  unfold UpdateEnv.pollEnd
  split_ifs <;> exact ⟨⟨rfl, rfl, rfl, rfl⟩, rfl, rfl⟩

theorem pollStaged_same (status : SystemUpdateStatus) (staged : Except Int UpdateManifestView) :
    SameSystem (env.pollStaged status staged) status := by
  cases staged <;> exact ⟨rfl, rfl, rfl, rfl⟩

theorem pollCache_same (status : SystemUpdateStatus) (manifest staged : Except Int UpdateManifestView) :
    SameSystem (UpdateEnv.pollCache status manifest staged) status ∧
      (UpdateEnv.pollCache status manifest staged).stagedManifestPath = status.stagedManifestPath ∧
      (UpdateEnv.pollCache status manifest staged).stagedPayloadSha256 = status.stagedPayloadSha256 := by
  unfold UpdateEnv.pollCache
  split <;> exact ⟨⟨rfl, rfl, rfl, rfl⟩, rfl, rfl⟩

theorem pollRead_staged : (env.pollRead agent).2.2 =
    env.readManifest (env.pollRead agent).1.files (env.pollRead agent).1.status.stagedManifestPath := by
  unfold UpdateEnv.pollRead
  dsimp only
  rw [(pollCache_same _ _ _).2.1]
  cases hstaged : env.readManifest (env.pollState agent).files _ <;> exact hstaged.symm

theorem pollRead_present (h : (env.pollRead agent).1.status.stagedPayloadSha256 ≠ []) : ∃ view, (env.pollRead agent).2.2 = .ok view := by
  unfold UpdateEnv.pollRead at h ⊢
  dsimp only at h ⊢
  rw [(pollCache_same _ _ _).2.2] at h
  cases hstaged : env.readManifest (env.pollState agent).files _ with
  | error rc =>
    rw [hstaged] at h
    exact absurd ((pollCatalog_same _ _).2.2.trans pollState_empty) h
  | ok view => exact ⟨view, rfl⟩

theorem poll_usable (hrc : ¬(env.poll agent).1 < 0) (hsha : (env.poll agent).2.status.stagedPayloadSha256 ≠ []) :
    ∃ view, env.readManifest (env.poll agent).2.files (env.poll agent).2.status.stagedManifestPath = .ok view ∧
      Usable env (env.poll agent).2.status view := by
  unfold UpdateEnv.poll at hrc hsha ⊢
  dsimp only at hrc hsha ⊢
  split at hrc
  · rename_i failure rc summary hfind
    exact absurd (failures_negative _ _ _ _ _ (List.mem_of_find?_eq_some hfind)) hrc
  · rename_i hfind
    simp only [hfind] at hsha ⊢
    obtain ⟨hsame, hpath, hdigest⟩ := pollEnd_same (env.pollRead agent).1.status
    rw [hdigest] at hsha
    obtain ⟨view, hview⟩ := pollRead_present hsha
    obtain ⟨hmismatch, hfault⟩ := failures_none (List.find?_eq_none.mp hfind)
    rw [hview] at hmismatch hfault
    refine ⟨view, ?_, (check_usable hmismatch hfault).same hsame⟩
    rw [hpath, ← pollRead_staged, hview]

def runningVersion (agent : UpdateAgent φ) : Text :=
  let version := (UpdateEnv.initAgent agent).status.currentVersion
  localCopy updateAgentVersionMax (if version = [] then "unknown".toList else version)

theorem localCopy_twice (size : Nat) (text : Text) : localCopy size (localCopy size text) = localCopy size text := by
  unfold localCopy
  rw [take_take, Nat.min_self]

theorem repoLine_current (key value : Text) (status : SystemUpdateStatus) :
    (parseRepoLine key value status).currentVersion = status.currentVersion := by
  unfold parseRepoLine
  split_ifs <;> rfl

theorem repository_current (buffer : Text) (status : SystemUpdateStatus) :
    (updateAgentParseBuffer parseRepoLine buffer status).currentVersion = status.currentVersion := by
  rw [parse_fold]
  induction bufferLines buffer generalizing status with
  | nil => rfl
  | cons line lines ih =>
    rw [foldl_cons, ih]
    unfold parseBufferLine
    split
    · rfl
    · exact repoLine_current _ _ _

theorem prepare_current : (env.prepareRepositoryStatus agent).status.currentVersion = runningVersion agent := by
  unfold UpdateEnv.prepareRepositoryStatus
  extract_lets inited version seeded buffer parsed branched built migrates files migrated final
  have hseeded : seeded.currentVersion = runningVersion agent := localCopy_twice _ _
  have hparsed : parsed.currentVersion = runningVersion agent := (repository_current buffer seeded).trans hseeded
  have hbranched : branched.currentVersion = runningVersion agent := by
    unfold branched
    split <;> exact hparsed
  have hmigrated : migrated.currentVersion = runningVersion agent := by
    unfold migrated
    split <;> exact hbranched
  change final.currentVersion = runningVersion agent
  unfold final
  split <;> exact hmigrated

theorem pollState_current : (env.pollState agent).status.currentVersion = runningVersion agent := by
  have hprepare : (env.prepareRepositoryStatus agent).status.currentVersion = runningVersion agent := prepare_current
  rw [← hprepare]
  unfold UpdateEnv.pollState
  dsimp only
  split <;> rfl

theorem poll_current : (env.poll agent).2.status.currentVersion = runningVersion agent := by
  have hread : (env.pollRead agent).1.status.currentVersion = runningVersion agent := by
    have hstate : (env.pollState agent).status.currentVersion = runningVersion agent := pollState_current
    refine Eq.trans ?_ hstate
    exact ((pollCache_same _ _ _).1.currentVersion.trans (pollStaged_same _ _).currentVersion).trans
      (pollCatalog_same _ _).1.currentVersion
  unfold UpdateEnv.poll
  dsimp only
  split
  · exact hread
  · rw [← hread]
    exact (pollEnd_same _).1.currentVersion.symm

theorem poll_ready : (env.poll agent).2.ready = true := by
  have hready : (UpdateEnv.initAgent agent).ready = true := by
    unfold UpdateEnv.initAgent
    split
    · assumption
    · rfl
  unfold UpdateEnv.poll
  dsimp only
  split <;> exact hready

theorem runningVersion_ready (hready : agent.ready = true) (hversion : agent.status.currentVersion ≠ []) :
    runningVersion agent = localCopy updateAgentVersionMax agent.status.currentVersion := by
  unfold runningVersion UpdateEnv.initAgent
  simp only [if_pos hready, if_neg hversion]

theorem runningVersion_some (agent : UpdateAgent φ) : runningVersion agent ≠ [] := by
  unfold runningVersion localCopy
  dsimp only
  split
  · decide
  · rename_i hversion
    simpa [updateAgentVersionMax] using hversion

theorem runningVersion_poll : runningVersion (env.poll agent).2 = runningVersion agent := by
  have hcurrent : (env.poll agent).2.status.currentVersion = runningVersion agent := poll_current
  rw [runningVersion_ready poll_ready (hcurrent ▸ runningVersion_some agent), hcurrent]
  exact localCopy_twice _ _

def CallVerified (env : UpdateEnv φ) (agent : UpdateAgent φ) (call : StageCall) : Prop :=
  ∃ buffer view, env.read agent.files agent.status.stagedManifestPath updateAgentManifestTextMax = some buffer ∧
    updateAgentReadManifestView (some buffer) = .ok view ∧ (bufferLines buffer).countP signatureLine = 1 ∧
    Usable env agent.status view ∧ hexToBytes view.payloadSha256 32 = some (env.sha256 call.payload) ∧
    call.expected = env.sha256 call.payload ∧ call.version = view.version

theorem commit_verified (hview : env.readManifest agent.files agent.status.stagedManifestPath = .ok view)
    (husable : Usable env agent.status view) (hload : env.payloadLoadVerified agent view = some payload) :
    ∀ call ∈ (env.commitBootSlot agent view payload).staged, CallVerified env (env.commitBootSlot agent view payload).agent call := by
  have hdigest := verified_digest hload
  unfold UpdateEnv.commitBootSlot
  rw [hdigest]
  dsimp only
  have hcall (summary : String) (rc : Int) : CallVerified env { agent with status := agent.status.concluded rc summary }
      ⟨view.version, payload, env.sha256 payload⟩ := by
    cases hread : env.read agent.files agent.status.stagedManifestPath updateAgentManifestTextMax with
    | none =>
      unfold UpdateEnv.readManifest at hview
      rw [hread] at hview
      cases hview
    | some buffer =>
      unfold UpdateEnv.readManifest at hview
      rw [hread] at hview
      have hlines := (read_count hview).symm.trans husable.signatureLines
      exact ⟨buffer, view, hread, hview, by omega, husable.same ⟨rfl, rfl, rfl, rfl⟩, hdigest, rfl, rfl⟩
  split
  · exact nofun
  · split
    · intro call hc
      rw [mem_singleton.mp hc]
      exact hcall _ _
    · split
      · intro call hc
        rw [mem_singleton.mp hc]
        exact hcall _ _
      · intro call hc
        rw [mem_singleton.mp hc]
        exact hcall _ _

theorem apply_verified (actual : SystemUpdateStatus → Option Text) :
    ∀ call ∈ (env.applyBootSlotVerified agent actual).staged, CallVerified env (env.applyBootSlotVerified agent actual).agent call := by
  unfold UpdateEnv.applyBootSlotVerified
  dsimp only
  split
  · exact nofun
  rename_i hrc
  split
  · exact nofun
  rename_i hsha
  split
  · exact nofun
  split
  · exact nofun
  split
  · exact nofun
  obtain ⟨view, hview, husable⟩ := poll_usable hrc hsha
  rw [hview]
  dsimp only
  split
  · exact nofun
  · rename_i payload hload
    exact commit_verified hview husable hload

theorem commit_current (agent : UpdateAgent φ) (view : UpdateManifestView) (payload : Text) :
    (env.commitBootSlot agent view payload).agent.status.currentVersion = agent.status.currentVersion := by
  unfold UpdateEnv.commitBootSlot
  dsimp only
  split
  · rfl
  · split
    · rfl
    · split
      · rfl
      · split <;> rfl

theorem apply_current (agent : UpdateAgent φ) (actual : SystemUpdateStatus → Option Text) :
    (env.applyBootSlotVerified agent actual).agent.status.currentVersion = runningVersion agent := by
  have hcurrent : (env.poll agent).2.status.currentVersion = runningVersion agent := poll_current
  unfold UpdateEnv.applyBootSlotVerified
  dsimp only
  split_ifs
  case neg =>
    split
    · exact hcurrent
    · split
      · exact hcurrent
      · exact (commit_current _ _ _).trans hcurrent
  all_goals exact hcurrent

theorem cached_run (agent : UpdateAgent φ) : (env.applyCachedPayload agent).agent.status.currentVersion = runningVersion agent ∧
      ∀ call ∈ (env.applyCachedPayload agent).staged, CallVerified env (env.applyCachedPayload agent).agent call := by
  have hcurrent : (env.poll agent).2.status.currentVersion = runningVersion agent := poll_current
  unfold UpdateEnv.applyCachedPayload
  dsimp only
  split
  · exact ⟨hcurrent, nofun⟩
  split
  · exact ⟨hcurrent, nofun⟩
  split
  · exact ⟨hcurrent, nofun⟩
  split
  · exact ⟨hcurrent, nofun⟩
  · exact ⟨(apply_current _ _).trans runningVersion_poll, apply_verified _⟩

/-- Only a verified update that is not older than the running version reaches the boot slot,
whatever the files hold. -/
theorem staged_verified (env : UpdateEnv φ) (agent : UpdateAgent φ) (actual : SystemUpdateStatus → Option Text) :
    let run := env.applyBootSlotVerified agent actual
    let cached := env.applyCachedPayload agent
    (run.agent.status.currentVersion = runningVersion agent ∧ ∀ call ∈ run.staged, CallVerified env run.agent call) ∧
      cached.agent.status.currentVersion = runningVersion agent ∧ ∀ call ∈ cached.staged, CallVerified env cached.agent call :=
  ⟨⟨apply_current agent actual, apply_verified actual⟩, cached_run agent⟩

end CapyOS.Proofs
