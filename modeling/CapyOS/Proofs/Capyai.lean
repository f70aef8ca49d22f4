import CapyOS.Services.Capyai

namespace CapyOS.Proofs
open List

variable {env : CapyaiEnv} {out : CapyAiOutput} {array literal text target segment : List Char} {perms : CapyaiPerms}

def arrayText (array : List Char) : List Char := array.takeWhile (· ≠ nul)

theorem equal_split (h : capyaiBoundedEqual array literal = true) : ∃ rest, array = literal ++ nul :: rest ∧ nul ∉ literal := by
  induction array generalizing literal with
  | nil => cases literal <;> cases h
  | cons v vs ih =>
    cases literal with
    | nil =>
      have hv : v = nul := by simpa [capyaiBoundedEqual] using h
      exact ⟨vs, by rw [hv]; rfl, not_mem_nil⟩
    | cons l ls =>
      unfold capyaiBoundedEqual at h
      split at h
      · cases h
      rename_i hvl
      rw [not_or, not_not] at hvl
      obtain ⟨rest, hrest, hno⟩ := ih h
      refine ⟨rest, by rw [hrest, hvl.2]; rfl, fun hm => ?_⟩
      rcases List.mem_cons.mp hm with hm | hm
      · exact hvl.1 (hvl.2.trans hm.symm)
      · exact hno hm

theorem takeWhile_split (rest : List Char) (hno : nul ∉ text) : (text ++ nul :: rest).takeWhile (· ≠ nul) = text := by
  induction text with
  | nil => simp
  | cons c cs ih =>
    have hc : c ≠ nul := fun he => hno (he ▸ mem_cons_self)
    simp only [cons_append, takeWhile_cons, ne_eq, hc, not_false_eq_true, decide_true, if_true]
    rw [ih fun hm => hno (mem_cons_of_mem c hm)]

theorem equal_text (h : capyaiBoundedEqual array literal = true) : arrayText array = literal := by
  obtain ⟨rest, rfl, hno⟩ := equal_split h
  exact takeWhile_split rest hno

theorem equal_cString (h : capyaiBoundedEqual array literal = true) : env.cString array = literal := by
  obtain ⟨rest, hrest, hno⟩ := equal_split h
  unfold CapyaiEnv.cString
  generalize env.behind array = behind
  rw [hrest, append_assoc, cons_append]
  exact takeWhile_split (rest ++ behind) hno

theorem copied_split {room : Nat} (h : copyBounded array room = some text) : ∃ rest, array = text ++ nul :: rest ∧ nul ∉ text := by
  induction array generalizing room text with
  | nil => cases h
  | cons c cs ih =>
    unfold copyBounded at h
    split at h
    · rename_i hc
      cases h
      exact ⟨cs, by rw [hc]; rfl, not_mem_nil⟩
    rename_i hc
    cases room with
    | zero => cases h
    | succ room =>
      obtain ⟨text', ht, rfl⟩ := Option.map_eq_some_iff.mp h
      obtain ⟨rest, hrest, hno⟩ := ih ht
      refine ⟨rest, by rw [hrest]; rfl, fun hm => ?_⟩
      rcases List.mem_cons.mp hm with hm | hm
      · exact hc hm.symm
      · exact hno hm

theorem copied_text {room : Nat} (h : copyBounded array room = some text) : arrayText array = text := by
  obtain ⟨rest, rfl, hno⟩ := copied_split h
  exact takeWhile_split rest hno

structure Token (target : List Char) : Prop where
  present : target ≠ []
  chars : ∀ c ∈ target, targetChar c = true ∨ c = '/'
  noOption : target.head? ≠ some '-'
  noParent : ['.', '.'] ∉ target.splitOn '/'

theorem splitOn_slash (cs : List Char) : ('/' :: cs).splitOn '/' = [] :: cs.splitOn '/' := by
  rw [splitOn_eq_splitOnP, splitOnP_cons_eq_if_modifyHead, splitOn_eq_splitOnP]
  rfl

theorem splitOn_other {c : Char} (cs : List Char) (h : c ≠ '/') :
    (c :: cs).splitOn '/' = (cs.splitOn '/').modifyHead (List.cons c) := by
  rw [splitOn_eq_splitOnP, splitOnP_cons_eq_if_modifyHead, splitOn_eq_splitOnP]
  exact if_neg (by simpa using h)

theorem modifyHead_nil_append (l : List (List Char)) : l.modifyHead ([] ++ ·) = l := by
  cases l <;> rfl

theorem targetSafe_walk (rest : List Char) (hno : nul ∉ text) (h : targetSafeFrom (text ++ nul :: rest) segment = true) :
    (∀ c ∈ text, targetChar c = true ∨ c = '/') ∧ ['.', '.'] ∉ (text.splitOn '/').modifyHead (segment ++ ·) := by
  induction text generalizing segment with
  | nil =>
    have hseg : segment ≠ ['.', '.'] := by simpa [targetSafeFrom] using h
    refine ⟨nofun, ?_⟩
    simpa [splitOn_nil] using hseg.symm
  | cons c cs ih =>
    have hc : c ≠ nul := fun he => hno (he ▸ mem_cons_self)
    have hno' : nul ∉ cs := fun hm => hno (mem_cons_of_mem c hm)
    simp only [cons_append, targetSafeFrom, hc, if_false] at h
    split at h
    · rename_i hslash
      split at h
      · cases h
      rename_i hseg
      obtain ⟨hchars, hparent⟩ := ih hno' h
      refine ⟨fun x hx => ?_, ?_⟩
      · rcases List.mem_cons.mp hx with rfl | hx
        · exact .inr hslash
        · exact hchars x hx
      · subst hslash
        rw [modifyHead_nil_append] at hparent
        rw [splitOn_slash, modifyHead_cons, append_nil, mem_cons, not_or]
        exact ⟨fun he => hseg he.symm, hparent⟩
    · rename_i hslash
      split at h
      · rename_i hchar
        obtain ⟨hchars, hparent⟩ := ih hno' h
        refine ⟨fun x hx => ?_, ?_⟩
        · rcases List.mem_cons.mp hx with rfl | hx
          · exact .inl hchar
          · exact hchars x hx
        · rw [splitOn_other cs hslash, modifyHead_modifyHead]
          have hcons : (segment ++ ·) ∘ List.cons c = (segment ++ [c] ++ ·) := by
            funext x
            simp
          rwa [hcons]
      · cases h

theorem targetSafe_token (rest : List Char) (hno : nul ∉ text) (hsafe : capyaiLegacyTargetSafe (text ++ nul :: rest) = true) :
    Token text := by
  unfold capyaiLegacyTargetSafe at hsafe
  split at hsafe
  · cases hsafe
  rename_i hfirst
  rw [not_or] at hfirst
  obtain ⟨hchars, hparent⟩ := targetSafe_walk rest hno hsafe
  cases text with
  | nil => exact absurd rfl hfirst.1
  | cons c cs =>
    refine ⟨cons_ne_nil c cs, hchars, fun hd => ?_, ?_⟩
    · exact hfirst.2 (Option.some.inj hd)
    · rwa [modifyHead_nil_append] at hparent

theorem targetSafe_ends (h : targetSafeFrom array segment = true) : nul ∈ array := by
  induction array generalizing segment with
  | nil => cases h
  | cons c cs ih =>
    unfold targetSafeFrom at h
    split at h
    · rename_i hc
      rw [hc]
      exact mem_cons_self
    split at h
    · split at h
      · cases h
      · exact mem_cons_of_mem c (ih h)
    · split at h
      · exact mem_cons_of_mem c (ih h)
      · cases h

theorem targetSafe_split (hsafe : capyaiLegacyTargetSafe array = true) : ∃ target rest, array = target ++ nul :: rest ∧ Token target := by
  have hends : nul ∈ array := by
    unfold capyaiLegacyTargetSafe at hsafe
    split at hsafe
    · cases hsafe
    · exact targetSafe_ends hsafe
  obtain ⟨target, rest, rfl, hno⟩ := eq_append_cons_of_mem hends
  exact ⟨target, rest, rfl, targetSafe_token rest hno hsafe⟩

def Granted (perms : CapyaiPerms) (risk : AiRisk) (command : List Char) : Prop :=
  (risk = .writeFile ∨ risk = .network → perms.allowWrite = true) ∧ (risk = .systemChange → perms.allowSystemChange = true) ∧
    (command = "kill-file".toList ∨ command = "kill-dir".toList → perms.allowWrite = true ∧ perms.allowDelete = true)

def CallPermitted (perms : CapyaiPerms) : CapyaiCall → Prop
  | .legacy line => ∃ spec ∈ capyaiLegacySpecs,
      (line = spec.command ∨ ∃ target, Token target ∧ line = spec.command ++ ' ' :: target) ∧
      ∀ other ∈ capyaiLegacySpecs, other.command = spec.command → Granted perms other.risk other.command
  | .typed out => ∃ spec ∈ capyaiTypedSpecs,
      arrayText out.action = spec.action ∧ arrayText out.command = spec.command ∧ out.risk = spec.risk ∧
      (firstChar out.path = nul ∨ ∃ target rest, out.path = target ++ nul :: rest ∧ Token target) ∧
      Granted perms spec.risk spec.command

structure PlanAllowed (env : CapyaiEnv) (perms : CapyaiPerms) (out : CapyAiOutput) : Prop where
  write : out.risk = .writeFile ∨ out.risk = .network → perms.allowWrite = true
  system : out.risk = .systemChange → perms.allowSystemChange = true
  delete : env.actionIsDelete out = true → perms.allowDelete = true

theorem riskGate_allowed (h : (CapyaiEnv.riskGate perms out).1 = .allowed) :
    (out.risk = .writeFile ∨ out.risk = .network → perms.allowWrite = true) ∧
      (out.risk = .systemChange → perms.allowSystemChange = true) := by
  unfold CapyaiEnv.riskGate at h
  cases hr : out.risk <;> simp only [hr] at h
  case readOnly => exact ⟨fun hx => hx.elim nofun nofun, nofun⟩
  case unknown => cases h
  case systemChange =>
    refine ⟨fun hx => hx.elim nofun nofun, fun _ => ?_⟩
    by_contra hp
    rw [if_neg hp] at h
    cases h
  all_goals
    refine ⟨fun _ => ?_, nofun⟩
    by_contra hp
    rw [if_neg hp] at h
    cases h

theorem gate_allowed (h : (env.gate perms out).decision = .allowed) :
    PlanAllowed env perms out ∧ (env.gate perms out).out = out := by
  unfold CapyaiEnv.gate at h ⊢
  simp only at h ⊢
  split at h
  · cases h
  split at h
  · cases h
  split at h
  · cases h
  rename_i hclar hblock hdel
  rw [if_neg hclar, if_neg hblock, if_neg hdel]
  obtain ⟨hwrite, hsystem⟩ := riskGate_allowed h
  refine ⟨⟨hwrite, hsystem, fun hd => ?_⟩, rfl⟩
  by_contra hp
  exact hdel (by simp [hd, hp])

theorem plan_allowed {model intent platform shell : List Char} {granted : Option CapyaiPerms} {session : Option CapyaiSession}
    (h : (env.capyaiPlan model intent platform shell granted session).decision = .allowed) :
    PlanAllowed env (granted.getD ⟨false, false, false⟩) (env.capyaiPlan model intent platform shell granted session).out := by
  unfold CapyaiEnv.capyaiPlan at h ⊢
  split at h
  · cases h
  · rename_i predicted hp
    obtain ⟨hallowed, hout⟩ := gate_allowed h
    simp only [hout]
    exact hallowed

theorem legacy_risks : ∀ spec ∈ capyaiLegacySpecs, ∀ other ∈ capyaiLegacySpecs, other.command = spec.command →
    other.risk = spec.risk := by
  decide +kernel

theorem legacy_deletes : ∀ spec ∈ capyaiLegacySpecs, spec.command = "kill-file".toList ∨ spec.command = "kill-dir".toList →
    (spec.action = "file_delete".toList ∨ spec.action = "dir_delete".toList) ∧ spec.risk = .writeFile := by
  decide +kernel

theorem typed_deletes : ∀ spec ∈ capyaiTypedSpecs, spec.command ≠ "kill-file".toList ∧ spec.command ≠ "kill-dir".toList := by
  decide +kernel

theorem legacy_granted {spec : LegacyDispatchSpec} (h : PlanAllowed env perms out) (hfind : out.findLegacySpec = some spec) :
    spec ∈ capyaiLegacySpecs ∧ capyaiBoundedEqual out.command spec.command = true ∧
      ∀ other ∈ capyaiLegacySpecs, other.command = spec.command → Granted perms other.risk other.command := by
  have hmem := List.mem_of_find?_eq_some hfind
  have hspec := List.find?_some hfind
  simp only [Bool.and_eq_true, decide_eq_true_eq] at hspec
  obtain ⟨⟨hrisk, haction⟩, hcommand⟩ := hspec
  refine ⟨hmem, hcommand, fun other hother hsame => ?_⟩
  rw [legacy_risks spec hmem other hother hsame, hsame, ← hrisk]
  refine ⟨h.write, h.system, fun hkill => ?_⟩
  obtain ⟨hdel, hwrite⟩ := legacy_deletes spec hmem hkill
  have hact : env.cString out.action = spec.action := equal_cString haction
  refine ⟨h.write (.inl (hrisk.trans hwrite)), h.delete ?_⟩
  unfold CapyaiEnv.actionIsDelete CapyaiEnv.actionIs
  rw [hact]
  rcases hdel with hdel | hdel <;> simp [hdel]

theorem legacy_permitted {line : List Char} (h : PlanAllowed env perms out) (hvalid : out.legacyDispatchValid = true)
    (hline : capyaiBuildCommandLine out = some line) : CallPermitted perms (.legacy line) := by
  unfold CapyAiOutput.legacyDispatchValid at hvalid
  split at hvalid
  · cases hvalid
  rename_i spec hfind
  obtain ⟨hmem, hcommand, hgranted⟩ := legacy_granted h hfind
  refine ⟨spec, hmem, ?_, hgranted⟩
  unfold capyaiBuildCommandLine at hline
  split at hline
  · cases hline
  split at hline
  · cases hline
  rename_i command hcopy
  have hname : command = spec.command := by rw [← copied_text hcopy, equal_text hcommand]
  subst hname
  split at hline
  · cases hline
    exact .inl rfl
  rename_i htarget
  have htarget : out.hasTarget = true := by simpa using htarget
  split at hline
  · cases hline
  obtain ⟨target, hpath, rfl⟩ := Option.map_eq_some_iff.mp hline
  refine .inr ⟨target, ?_, rfl⟩
  rw [htarget] at hvalid
  split at hvalid
  · cases hvalid
  · obtain ⟨rest, hrest, hno⟩ := copied_split hpath
    exact targetSafe_token rest hno (by simpa [hrest] using hvalid)

theorem typed_permitted (h : PlanAllowed env perms out) (hvalid : out.typedDispatchValid = true) :
    CallPermitted perms (.typed out) := by
  unfold CapyAiOutput.typedDispatchValid at hvalid
  split at hvalid
  · cases hvalid
  rename_i spec hfind
  have hmem := List.mem_of_find?_eq_some hfind
  have hspec := List.find?_some hfind
  simp only [Bool.and_eq_true, decide_eq_true_eq] at hspec
  obtain ⟨⟨hrisk, haction⟩, hcommand⟩ := hspec
  refine ⟨spec, hmem, equal_text haction, equal_text hcommand, hrisk, ?_, ?_⟩
  · by_cases htarget : out.hasTarget = true
    · right
      apply targetSafe_split
      by_contra hunsafe
      cases hmode : spec.targetMode <;> simp [hmode, htarget, hunsafe] at hvalid
    · left
      simpa [CapyAiOutput.hasTarget] using htarget
  · rw [← hrisk]
    refine ⟨h.write, h.system, fun hkill => ?_⟩
    rcases hkill with hkill | hkill
    · exact absurd hkill (typed_deletes spec hmem).1
    · exact absurd hkill (typed_deletes spec hmem).2

theorem execute_permitted (callbacks : CapyaiCallbacks) (typedEnabled : Bool) (session : Option CapyaiSession) (plan : CapyaiPlan)
    (h : plan.decision = .allowed → PlanAllowed env perms plan.out) :
    (env.executePlan callbacks typedEnabled session plan).calls.length ≤ 1 ∧
      ∀ call ∈ (env.executePlan callbacks typedEnabled session plan).calls, CallPermitted perms call := by
  have hnone : ([] : List CapyaiCall).length ≤ 1 ∧ ∀ call ∈ ([] : List CapyaiCall), CallPermitted perms call :=
    ⟨Nat.zero_le _, nofun⟩
  unfold CapyaiEnv.executePlan
  split
  · rename_i htyped
    split
    · split
      · rename_i hvalid
        refine ⟨Nat.le_refl _, fun call hc => ?_⟩
        rw [List.mem_singleton.mp hc]
        exact typed_permitted (h htyped.1) hvalid
      · exact hnone
    · exact hnone
  · split
    · rename_i hallowed _
      split
      · exact hnone
      rename_i hvalid
      split
      · exact hnone
      · rename_i line hline
        refine ⟨Nat.le_refl _, fun call hc => ?_⟩
        rw [List.mem_singleton.mp hc]
        exact legacy_permitted (h hallowed) (by simpa using hvalid) hline
    · exact hnone

/-- Whatever is predicted, at most one call is made, and only one that was permitted. -/
theorem dispatch_permitted (env : CapyaiEnv) (model intent platform shell : List Char) (perms : Option CapyaiPerms)
    (session : Option CapyaiSession) (callbacks : CapyaiCallbacks) :
    let granted := perms.getD ⟨false, false, false⟩
    let v1 := (capyaiExecuteIntent env model intent platform shell perms session callbacks.dispatch).calls
    let v2 := (capyaiExecuteIntentV2 env model intent platform shell perms session callbacks).calls
    (v1.length ≤ 1 ∧ ∀ call ∈ v1, CallPermitted granted call) ∧ v2.length ≤ 1 ∧ ∀ call ∈ v2, CallPermitted granted call :=
  ⟨execute_permitted _ _ _ _ plan_allowed, execute_permitted _ _ _ _ plan_allowed⟩

end CapyOS.Proofs
