import CapyOS.Proofs.CapypkgDependencies

namespace CapyOS.Proofs
open Capypkg List
variable {s s' s'' t : Capypkg} {P Q : FileOp → Prop}

/-! ## File calls -/

/-- Every file call between two states satisfies `P`. -/
def Calls (P : FileOp → Prop) (s s' : Capypkg) : Prop := ∃ cs, s'.calls = s.calls ++ cs ∧ ∀ c ∈ cs, P c

theorem Calls.refl (s : Capypkg) : Calls P s s := ⟨[], (append_nil _).symm, fun _ hc => absurd hc not_mem_nil⟩

theorem Calls.trans (h : Calls P s s') (h' : Calls P s' s'') : Calls P s s'' := by
  obtain ⟨cs, hcs, hp⟩ := h
  obtain ⟨ds, hds, hp'⟩ := h'
  refine ⟨cs ++ ds, by rw [hds, hcs, append_assoc], fun c hc => ?_⟩
  cases mem_append.mp hc with
  | inl hc => exact hp c hc
  | inr hc => exact hp' c hc

theorem Calls.mono (h : Calls P s s') (hpq : ∀ c, P c → Q c) : Calls Q s s' := by
  obtain ⟨cs, hcs, hp⟩ := h
  exact ⟨cs, hcs, fun c hc => hpq c (hp c hc)⟩

theorem Calls.retable (h : Calls P s s') {installed : List CapypkgEntry} : Calls P s { s' with installed := installed } := h

theorem did_calls (s : Capypkg) {op : FileOp} (h : P op) : Calls P s (s.did op) :=
  ⟨[op], rfl, fun _ hc => mem_singleton.mp hc ▸ h⟩

/-- The calls that an install or a removal of an entry makes. -/
inductive CallOf (e : CapypkgEntry) : FileOp → Prop
  | system : CallOf e (.mkdir capypkgDirSystem)
  | var : CallOf e (.mkdir capypkgDirVar)
  | updates : CallOf e (.mkdir capypkgDirUpdates)
  | root : CallOf e (.mkdir e.installRoot)
  | database {content : Text} : CallOf e (.write capypkgDbFile content)
  | writeTarget {content : Text} : CallOf e (.write (buildPayloadTarget e) content)
  | writeStaging {content : Text} : CallOf e (.write (buildPayloadStaging e) content)
  | writeMarker {content : Text} : CallOf e (.write (buildInstalledMarkerTarget e) content)
  | writePart {part : Nat} {path content : Text} : buildPayloadPartTarget e part = some path →
      CallOf e (.write path content)
  | removeTarget : CallOf e (.remove (buildPayloadTarget e))
  | removeStaging : CallOf e (.remove (buildPayloadStaging e))
  | removeMarker : CallOf e (.remove (buildInstalledMarkerTarget e))
  | removeBackup {path : Text} : buildPayloadBackup (buildPayloadTarget e) = some path → CallOf e (.remove path)
  | keep {path : Text} : buildPayloadBackup (buildPayloadTarget e) = some path →
      CallOf e (.rename (buildPayloadTarget e) path)
  | activate : CallOf e (.rename (buildPayloadStaging e) (buildPayloadTarget e))
  | restore {path : Text} : buildPayloadBackup (buildPayloadTarget e) = some path →
      CallOf e (.rename path (buildPayloadTarget e))

section
variable (env : CapypkgEnv) (serialize : List CapypkgEntry → Text) (e : CapypkgEntry)

theorem writeFile_calls (s : Capypkg) {path content : Text} (h : P (.write path content)) :
    Calls P s (s.writeFile env path content).2 := by
  unfold Capypkg.writeFile
  split <;> exact did_calls s h

theorem removeFile_calls (s : Capypkg) {path : Text} (h : P (.remove path)) : Calls P s (s.removeFile env path).2 := by
  unfold Capypkg.removeFile
  split
  · exact Calls.refl s
  split <;> exact did_calls s h

theorem renameFile_calls (s : Capypkg) {source destination : Text} (h : P (.rename source destination)) :
    Calls P s (s.renameFile env source destination).2 := by
  unfold Capypkg.renameFile
  split <;> exact did_calls s h

theorem makeDir_calls (s : Capypkg) {path : Text} (h : P (.mkdir path)) : Calls P s (s.makeDir env path) := by
  unfold Capypkg.makeDir
  split
  · exact did_calls s h
  · exact Calls.refl s

theorem dbSave_calls (s : Capypkg) : Calls (CallOf e) s (s.dbSave env serialize).2 := by
  unfold Capypkg.dbSave
  split
  · exact Calls.refl s
  · have h := (makeDir_calls env s (CallOf.system (e := e))).trans
      (@writeFile_calls _ env (s.makeDir env capypkgDirSystem) _ (serialize s.installed) (CallOf.database (e := e)))
    split
    next s₁ heq =>
      rw [heq] at h
      exact h
    next s₁ heq =>
      rw [heq] at h
      exact h

theorem writeMarker_calls (s : Capypkg) (n : Nat) : Calls (CallOf e) s (s.writeInstalledMarker env e n).2 := by
  have h := @writeFile_calls _ env s _ (installedMarker e n) (CallOf.writeMarker (e := e))
  unfold Capypkg.writeInstalledMarker
  split
  next s₁ heq =>
    rw [heq] at h
    exact h
  next s₁ heq =>
    rw [heq] at h
    exact h

theorem writeParts_calls (s : Capypkg) (n part : Nat) (payload : Text) :
    Calls (CallOf e) s (writePayloadParts env e n part payload s).2 := by
  induction n generalizing part payload s with
  | zero => exact Calls.refl s
  | succ n ih =>
    unfold Capypkg.writePayloadParts
    split
    · exact Calls.refl s
    split
    next => exact Calls.refl s
    next path hpath =>
      have h := @writeFile_calls _ env s _ (payload.take capypkgPayloadPartBytes) (CallOf.writePart hpath)
      split
      next s₁ heq =>
        rw [heq] at h
        exact h
      next s₁ heq =>
        rw [heq] at h
        exact h.trans (ih s₁ _ _)

theorem renamePayload_calls (s : Capypkg) (existing : Bool) : Calls (CallOf e) s (s.renamePayload env e existing).2 := by
  unfold Capypkg.renamePayload
  dsimp only
  split
  next => exact Calls.refl s
  next backup hb =>
    have h₁ := removeFile_calls env s (CallOf.removeBackup hb)
    generalize (s.removeFile env backup).2 = s₁ at h₁ ⊢
    have h₂ : Calls (CallOf e) s₁ (if existing then s₁.renameFile env (buildPayloadTarget e) backup else (false, s₁)).2 := by
      split
      · exact renameFile_calls env s₁ (CallOf.keep hb)
      · exact Calls.refl s₁
    generalize (if existing then s₁.renameFile env (buildPayloadTarget e) backup else (false, s₁)) = r at h₂ ⊢
    obtain ⟨kept, s₂⟩ := r
    have h₃ := renameFile_calls env s₂ (CallOf.activate (e := e))
    have h := h₁.trans h₂
    dsimp only at h ⊢
    split
    next s₃ heq =>
      rw [heq] at h₃
      exact h.trans h₃
    next s₃ heq =>
      rw [heq] at h₃
      split
      · exact (h.trans h₃).trans (renameFile_calls env s₃ (CallOf.restore hb))
      · exact h.trans h₃

theorem renamePayload_backup (s : Capypkg) (existing : Bool) {backup : Text}
    (h : (s.renamePayload env e existing).1.backup = some backup) :
    buildPayloadBackup (buildPayloadTarget e) = some backup := by
  unfold Capypkg.renamePayload at h
  dsimp only at h
  split at h
  next => cases h
  next b hb =>
    generalize (if existing then (s.removeFile env b).2.renameFile env (buildPayloadTarget e) b else
      (false, (s.removeFile env b).2)) = r at h
    obtain ⟨kept, s₂⟩ := r
    rw [hb]
    dsimp only at h
    split at h
    · cases kept with
      | true => exact h
      | false => cases h
    · cases h

theorem commitPayload_calls (s : Capypkg) (existing staged : Bool) (payload : Text) :
    Calls (CallOf e) s (s.commitPayload env e existing staged payload).2.2 ∧
      ∀ backup, (s.commitPayload env e existing staged payload).2.1.backup = some backup →
        buildPayloadBackup (buildPayloadTarget e) = some backup := by
  have h₁ : Calls (CallOf e) s
      (if staged && env.renamer then s.renamePayload env e existing else (⟨staged, false, none⟩, s)).2 := by
    split
    · exact renamePayload_calls env e s existing
    · exact Calls.refl s
  have hb : ∀ backup, (if staged && env.renamer then s.renamePayload env e existing else
      (⟨staged, false, none⟩, s)).1.backup = some backup → buildPayloadBackup (buildPayloadTarget e) = some backup := by
    intro backup h
    split at h
    · exact renamePayload_backup env e s existing h
    · cases h
  unfold Capypkg.commitPayload
  generalize (if staged && env.renamer then s.renamePayload env e existing else
    (⟨staged, false, none⟩, s)) = r at h₁ hb ⊢
  obtain ⟨commit, s₁⟩ := r
  dsimp only at h₁ hb ⊢
  split
  · exact ⟨h₁, hb⟩
  · have h₂ := @writeFile_calls _ env s₁ _ payload (CallOf.writeTarget (e := e))
    split
    next s₂ heq =>
      rw [heq] at h₂
      exact ⟨h₁.trans h₂, hb⟩
    next s₂ heq =>
      rw [heq] at h₂
      have h₃ := removeFile_calls env s₂ (CallOf.removeTarget (e := e))
      have h₄ := writeParts_calls env e (s₂.removeFile env (buildPayloadTarget e)).2 payload.length 0 payload
      exact ⟨((h₁.trans h₂).trans h₃).trans h₄, hb⟩

theorem rollback_calls (t u : Capypkg) : Calls (CallOf e) t (t.rollbackInstallCommit env (u.captureSnapshot env e)) := by
  unfold Capypkg.rollbackInstallCommit
  dsimp only
  split
  · exact writeFile_calls env _ CallOf.writeMarker
  · exact removeFile_calls env _ CallOf.removeMarker

theorem append_calls (s : Capypkg) : (s.appendOrReplaceInstalled e).2.calls = s.calls := by
  unfold Capypkg.appendOrReplaceInstalled
  split
  · rfl
  · split <;> rfl

theorem commitMetadata_calls (s : Capypkg) (n : Nat) : Calls (CallOf e) s (s.commitInstallMetadata env serialize e n).2 := by
  have h₁ := writeMarker_calls env e s n
  unfold Capypkg.commitInstallMetadata
  dsimp only
  split
  next s₁ heq =>
    rw [heq] at h₁
    have h₂ := append_calls e s₁
    split
    next s₂ heq₂ =>
      rw [heq₂] at h₂
      have h₂ : Calls (CallOf e) s s₂ := by
        obtain ⟨cs, hcs, hp⟩ := h₁
        exact ⟨cs, h₂.trans hcs, hp⟩
      have h₃ := dbSave_calls env serialize e s₂
      split
      next s₃ hs =>
        rw [hs] at h₃
        exact h₂.trans h₃
      next s₃ hs =>
        rw [hs] at h₃
        exact h₂.trans h₃
      next rc s₃ _ _ hs =>
        rw [hs] at h₃
        exact ((h₂.trans h₃).trans (rollback_calls env e s₃ s)).trans (dbSave_calls env serialize e _)
    next rc s₂ _ heq₂ =>
      rw [heq₂] at h₂
      have h₂ : Calls (CallOf e) s s₂ := by
        obtain ⟨cs, hcs, hp⟩ := h₁
        exact ⟨cs, h₂.trans hcs, hp⟩
      exact h₂.trans (rollback_calls env e s₂ s)
  next rc s₁ _ heq =>
    rw [heq] at h₁
    exact h₁.trans (rollback_calls env e s₁ s)

theorem activate_calls (s : Capypkg) (existing staged : Bool) (payload : Text) :
    Calls (CallOf e) s (s.activatePayload env serialize e existing staged payload).2 := by
  obtain ⟨h₁, hb⟩ := commitPayload_calls env e s existing staged payload
  unfold Capypkg.activatePayload
  split
  next commit s₁ heq =>
    rw [heq] at h₁ hb
    dsimp only at h₁ hb ⊢
    have h₂ : Calls (CallOf e) s₁ (if commit.staged then (s₁.removeFile env (buildPayloadStaging e)).2 else s₁) := by
      split
      · exact removeFile_calls env s₁ CallOf.removeStaging
      · exact Calls.refl s₁
    generalize (if commit.staged then (s₁.removeFile env (buildPayloadStaging e)).2 else s₁) = s₂ at h₂ ⊢
    have h₃ := commitMetadata_calls env serialize e s₂ payload.length
    have h := h₁.trans h₂
    split
    next s₃ hc =>
      rw [hc] at h₃
      split
      next backup hbackup => exact (h.trans h₃).trans (removeFile_calls env s₃ (CallOf.removeBackup (hb backup hbackup)))
      next => exact h.trans h₃
    next rc s₃ _ hc =>
      rw [hc] at h₃
      have h₄ : Calls (CallOf e) s₃ (if commit.atomic then (s₃.removeFile env (buildPayloadTarget e)).2 else s₃) := by
        split
        · exact removeFile_calls env s₃ CallOf.removeTarget
        · exact Calls.refl s₃
      generalize (if commit.atomic then (s₃.removeFile env (buildPayloadTarget e)).2 else s₃) = s₄ at h₄ ⊢
      have h := (h.trans h₃).trans h₄
      split
      next backup hbackup => exact h.trans (renameFile_calls env s₄ (CallOf.restore (hb backup hbackup)))
      next => exact h
  next rc commit s₁ _ heq =>
    rw [heq] at h₁
    exact h₁

theorem ensureDirs_calls (s : Capypkg) : Calls (CallOf e) s (s.ensureInstallDirs env e) :=
  (((makeDir_calls env s CallOf.system).trans (makeDir_calls env _ CallOf.var)).trans
    (makeDir_calls env _ CallOf.updates)).trans (makeDir_calls env _ CallOf.root)

theorem installPayload_calls (s : Capypkg) (existing : Bool) :
    Calls (CallOf e) s (s.installPayload env serialize e existing).2 := by
  have h₁ := ensureDirs_calls env e s
  unfold Capypkg.installPayload
  dsimp only
  generalize s.ensureInstallDirs env e = s₁ at h₁ ⊢
  split
  · exact h₁
  split
  next => exact h₁
  next payload _ =>
    split
    · exact h₁
    · have h₂ := h₁.trans (@writeFile_calls _ env s₁ _ payload (CallOf.writeStaging (e := e)))
      generalize s₁.writeFile env (buildPayloadStaging e) payload = r at h₂ ⊢
      obtain ⟨staged, s₂⟩ := r
      dsimp only at h₂ ⊢
      split
      next =>
        split
        next => exact h₂.trans (activate_calls env serialize e s₂ existing staged payload)
        next => exact h₂
      next => exact h₂

end

/-! ## Installs -/

/-- A package that an install of another comes to: itself, or one that a package it comes to
depends on and that is not installed. -/
inductive Reached (s : Capypkg) (name : Text) : Text → Prop
  | self : Reached s name name
  | dep {a d : Text} {e : CapypkgEntry} : Reached s name a → s.findAvailable a = some e → d ∈ e.deps →
      d ∉ installedNames s → Reached s name d

/-- The packages that an install comes to, as the catalog has them. -/
def Wanted (s : Capypkg) (name : Text) (e : CapypkgEntry) : Prop :=
  s.findAvailable e.name = some e ∧ Reached s name e.name

/-- From `s` to the other state by installs of one package's payload after another, each of
which satisfies `Q` of the state before it, the package, and whether it is an update. -/
inductive Installs (env : CapypkgEnv) (serialize : List CapypkgEntry → Text)
    (Q : Capypkg → CapypkgEntry → Bool → Prop) (s : Capypkg) : Capypkg → Prop
  | none : Installs env serialize Q s s
  | more {t : Capypkg} {e : CapypkgEntry} {existing : Bool} (before : Installs env serialize Q s t)
      (holds : Q t e existing) :
      Installs env serialize Q s (t.installPayload env serialize e existing).2

section
variable {env : CapypkgEnv} {serialize : List CapypkgEntry → Text}
variable {Q R : Capypkg → CapypkgEntry → Bool → Prop}

theorem Installs.trans (h : Installs env serialize Q s s') (h' : Installs env serialize Q s' s'') :
    Installs env serialize Q s s'' := by
  induction h' with
  | none => exact h
  | more _ holds ih => exact ih.more holds

/-- What holds of each install may be shown with the installs before it at hand. -/
theorem Installs.mono (h : Installs env serialize Q s s')
    (hqr : ∀ t e existing, Installs env serialize Q s t → Q t e existing → R t e existing) :
    Installs env serialize R s s' := by
  induction h with
  | none => exact .none
  | more before holds ih => exact ih.more (hqr _ _ _ before holds)

/-- What an install adds to the table are the packages it came to. -/
theorem Installs.members (h : Installs env serialize Q s s') {f : CapypkgEntry} (hf : f ∈ s'.installed) :
    f ∈ s.installed ∨ ∃ t existing, Q t f existing := by
  induction h with
  | none => exact .inl hf
  | @more t e existing _ holds ih =>
    cases (installPayload_spec env serialize t e existing).members f hf with
    | inl hf => exact ih hf
    | inr heq => exact .inr ⟨t, existing, heq ▸ holds⟩

end

theorem Reached.trans {a b c : Text} (h : Reached s a b) (h' : Reached s b c) : Reached s a c := by
  induction h' with
  | self => exact h
  | dep _ hav hd hnot ih => exact .dep ih hav hd hnot

theorem Reached.before {a b : Text} (h : Grew s s') (hr : Reached s' a b) : Reached s a b := by
  induction hr with
  | self => exact .self
  | dep _ hav hd hnot ih =>
    rw [SameTables.findAvailable h.available] at hav
    exact .dep ih hav hd fun hn => hnot (h.stays hn)

theorem Wanted.before {a b : Text} {e : CapypkgEntry} (h : Grew s s') (hr : Reached s a b)
    (hw : Wanted s' b e) : Wanted s a e := by
  obtain ⟨hav, hb⟩ := hw
  rw [SameTables.findAvailable h.available] at hav
  exact ⟨hav, hr.trans (hb.before h)⟩

/-- The installs of one call are of packages it comes to. -/
def WantedInstalls (env : CapypkgEnv) (serialize : List CapypkgEntry → Text) (s : Capypkg) (name : Text)
    (s' : Capypkg) : Prop :=
  Installs env serialize (fun _ e _ => Wanted s name e) s s'

section
variable {env : CapypkgEnv} {serialize : List CapypkgEntry → Text}

theorem WantedInstalls.before {a b : Text} {t : Capypkg} (h : WantedInstalls env serialize s' b t)
    (hg : Grew s s') (hr : Reached s a b) :
    Installs env serialize (fun _ e _ => Wanted s a e) s' t :=
  h.mono fun _ _ _ _ hw => hw.before hg hr

def InstallCalls (env : CapypkgEnv) (serialize : List CapypkgEntry → Text)
    (install : Capypkg → Text → Option (CapypkgResult × Capypkg)) : Prop :=
  ∀ s name rc s', install s name = some (rc, s') → WantedInstalls env serialize s name s'

def DepsCalls (env : CapypkgEnv) (serialize : List CapypkgEntry → Text)
    (dependencies : CapypkgEntry → Capypkg → Option (CapypkgResult × Capypkg)) : Prop :=
  ∀ e s rc s', s.findAvailable e.name = some e → dependencies e s = some (rc, s') →
    WantedInstalls env serialize s e.name s'

theorem loop_calls {install : Capypkg → Text → Option (CapypkgResult × Capypkg)}
    {dependencies : CapypkgEntry → Capypkg → Option (CapypkgResult × Capypkg)} (hi : InstallSpec install)
    (hd : DepsSpec dependencies) (hic : InstallCalls env serialize install)
    (hdc : DepsCalls env serialize dependencies) {e : CapypkgEntry} (deps : List Text)
    (hdeps : ∀ d ∈ deps, d ∈ e.deps) {rc : CapypkgResult} (hav : s.findAvailable e.name = some e)
    (h : dependencyLoop install dependencies deps s = some (rc, s')) :
    WantedInstalls env serialize s e.name s' := by
  induction deps generalizing s with
  | nil =>
    cases h
    exact .none
  | cons dep deps ih =>
    have hrest : ∀ d ∈ deps, d ∈ e.deps := fun d hd => hdeps d (mem_cons_of_mem dep hd)
    unfold Capypkg.dependencyLoop at h
    split at h
    next => exact ih hrest hav h
    next hne =>
      split at h
      next => exact ih hrest hav h
      next hnot =>
        split at h
        next =>
          cases h
          exact .none
        next avail hfind =>
          obtain ⟨_, hname⟩ := find_available hfind
          have hreach : Reached s e.name dep :=
            .dep .self hav (hdeps dep mem_cons_self) fun hn => hnot ((find_installed hne).mpr hn)
          have hreach' : Reached s e.name avail.name := hname.symm ▸ hreach
          have hfind' : s.findAvailable avail.name = some avail := hname ▸ hfind
          split at h
          next => cases h
          next t ht =>
            obtain ⟨hg, _⟩ := hd avail s .ok t ht
            have h₁ := (hdc avail s .ok t hfind' ht).before (Grew.refl s) hreach'
            split at h
            next => cases h
            next rc' u hu =>
              obtain ⟨hg', _⟩ := hi t dep rc' u hu
              have h₂ := (hic t dep rc' u hu).before hg hreach
              split at h
              next =>
                have hu' : u.findAvailable e.name = some e := by
                  rw [SameTables.findAvailable (hg.trans hg').available]
                  exact hav
                exact (h₁.trans h₂).trans ((ih hrest hu' h).before (hg.trans hg') .self)
              next =>
                cases h
                exact h₁.trans h₂
          next rc' t _ ht =>
            cases h
            exact (hdc avail s _ _ hfind' ht).before (Grew.refl s) hreach'

theorem dependencies_calls {install : Capypkg → Text → Option (CapypkgResult × Capypkg)} (hi : InstallSpec install)
    (hic : InstallCalls env serialize install) (budget : Nat) :
    DepsCalls env serialize (installDependencies install budget) := by
  induction budget with
  | zero =>
    intro e s rc s' _ h
    cases h
    exact .none
  | succ budget ih =>
    intro e s rc s' hav h
    exact loop_calls hi (dependencies_spec hi budget) hic ih e.deps (fun _ hd => hd) hav h

end

theorem install_calls (env : CapypkgEnv) (serialize : List CapypkgEntry → Text) (calls : Nat) :
    InstallCalls env serialize (install env serialize calls) := by
  induction calls with
  | zero =>
    intro s name rc s' h
    cases h
  | succ calls ih =>
    intro s name rc s' h
    unfold Capypkg.install at h
    have hnone {rc' : CapypkgResult} (h : some (rc', s) = some (rc, s')) :
        WantedInstalls env serialize s name s' := by
      cases h
      exact .none
    split at h
    · exact hnone h
    split at h
    · exact hnone h
    split at h
    · exact hnone h
    next avail hav =>
      obtain ⟨_, hname⟩ := find_available hav
      have hav' : s.findAvailable avail.name = some avail := hname ▸ hav
      have hself : Wanted s name avail := ⟨hav', hname ▸ .self⟩
      have hi := install_spec env serialize calls
      split at h
      · exact hnone h
      split at h
      · exact hnone h
      split at h
      next => cases h
      next t ht =>
        have h₁ := dependencies_calls hi ih 8 avail s .ok t hav' ht
        rw [hname] at h₁
        have h₂ := @Installs.more env serialize _ s _ _ (s.findInstalled name).isSome h₁ hself
        rw [Option.some.inj h] at h₂
        exact h₂
      next rc' t _ ht =>
        cases h
        exact hname ▸ dependencies_calls hi ih 8 avail s _ _ hav' ht

theorem remove_calls (env : CapypkgEnv) (serialize : List CapypkgEntry → Text) (s : Capypkg) (name : Text) :
    Calls (fun c => ∃ e ∈ s.installed, e.name = name ∧ CallOf e c) s (s.remove env serialize name).2 := by
  unfold Capypkg.remove
  split
  · exact Calls.refl s
  split
  · exact Calls.refl s
  split
  · exact Calls.refl s
  next i e hat =>
    have he : e ∈ s.installed ∧ e.name = name := by
      unfold Capypkg.installedAt at hat
      split at hat
      · cases hat
      next j hj =>
        obtain ⟨hlt, hname, _⟩ := List.findIdx?_eq_some_iff_getElem.mp hj
        rw [List.getElem?_eq_getElem hlt] at hat
        cases hat
        exact ⟨getElem_mem hlt, by simpa using hname⟩
    have h₁ := removeFile_calls env s (CallOf.removeTarget (e := e))
    have h₂ := dbSave_calls env serialize e { (s.removeFile env (buildPayloadTarget e)).2 with
      installed := (s.removeFile env (buildPayloadTarget e)).2.installed.eraseIdx i }
    have h : Calls (CallOf e) s (dbSave env { (s.removeFile env (buildPayloadTarget e)).2 with
        installed := (s.removeFile env (buildPayloadTarget e)).2.installed.eraseIdx i } serialize).2 := h₁.retable.trans h₂
    have h := h.mono fun c hc => (⟨e, he.1, he.2, hc⟩ : ∃ e ∈ s.installed, e.name = name ∧ CallOf e c)
    dsimp only
    split
    next heq =>
      rw [heq] at h
      exact h
    next => exact h

end CapyOS.Proofs
