import CapyOS.Services.CapypkgInstall

namespace CapyOS.Proofs
open Capypkg List
variable {e : CapypkgEntry} {rc : CapypkgResult} {name : Text} {t : Capypkg}

structure SameTables (s s' : Capypkg) : Prop where
  installed : s'.installed = s.installed
  available : s'.available = s.available
  repos : s'.repos = s.repos
  initialized : s'.initialized = s.initialized

variable {s s' s'' : Capypkg} (env : CapypkgEnv) (serialize : List CapypkgEntry → Text)

theorem SameTables.refl (s : Capypkg) : SameTables s s := ⟨rfl, rfl, rfl, rfl⟩

theorem SameTables.trans (h : SameTables s s') (h' : SameTables s' s'') : SameTables s s'' where
  installed := h'.installed.trans h.installed
  available := h'.available.trans h.available
  repos := h'.repos.trans h.repos
  initialized := h'.initialized.trans h.initialized

theorem writeFile_same (s : Capypkg) (path content : Text) : SameTables s (s.writeFile env path content).2 := by
  unfold Capypkg.writeFile
  split <;> exact ⟨rfl, rfl, rfl, rfl⟩

theorem removeFile_same (s : Capypkg) (path : Text) : SameTables s (s.removeFile env path).2 := by
  unfold Capypkg.removeFile
  split
  · exact SameTables.refl s
  · split <;> exact ⟨rfl, rfl, rfl, rfl⟩

theorem renameFile_same (s : Capypkg) (source destination : Text) : SameTables s (s.renameFile env source destination).2 := by
  unfold Capypkg.renameFile
  split <;> exact ⟨rfl, rfl, rfl, rfl⟩

theorem makeDir_same (s : Capypkg) (path : Text) : SameTables s (s.makeDir env path) := by
  unfold Capypkg.makeDir
  split <;> exact ⟨rfl, rfl, rfl, rfl⟩

theorem dbSave_same (s : Capypkg) : SameTables s (s.dbSave env serialize).2 := by
  unfold Capypkg.dbSave
  split
  · exact SameTables.refl s
  · have h := (makeDir_same env s capypkgDirSystem).trans
      (writeFile_same env _ capypkgDbFile (serialize s.installed))
    split
    next s₁ heq => rw [heq] at h; exact h
    next s₁ heq => rw [heq] at h; exact h

theorem writeMarker_same (s : Capypkg) (e : CapypkgEntry) (n : Nat) : SameTables s (s.writeInstalledMarker env e n).2 := by
  have h := writeFile_same env s (buildInstalledMarkerTarget e) (installedMarker e n)
  unfold Capypkg.writeInstalledMarker
  split
  next s₁ heq => rw [heq] at h; exact h
  next s₁ heq => rw [heq] at h; exact h

theorem writeParts_same (s : Capypkg) (e : CapypkgEntry) (n part : Nat) (payload : Text) :
    SameTables s (writePayloadParts env e n part payload s).2 := by
  induction n generalizing part payload s with
  | zero => exact SameTables.refl s
  | succ n ih =>
    unfold Capypkg.writePayloadParts
    split
    · exact SameTables.refl s
    · split
      next => exact SameTables.refl s
      next path _ =>
        have h := writeFile_same env s path (payload.take capypkgPayloadPartBytes)
        split
        next s₁ heq => rw [heq] at h; exact h
        next s₁ heq => rw [heq] at h; exact h.trans (ih s₁ _ _)

theorem renamePayload_same (s : Capypkg) (e : CapypkgEntry) (existing : Bool) :
    SameTables s (s.renamePayload env e existing).2 := by
  unfold Capypkg.renamePayload
  dsimp only
  split
  next => exact SameTables.refl s
  next backup _ =>
    have h₁ := removeFile_same env s backup
    generalize (s.removeFile env backup).2 = s₁ at h₁ ⊢
    have h₂ : SameTables s₁ (if existing then s₁.renameFile env (buildPayloadTarget e) backup else (false, s₁)).2 := by
      split
      · exact renameFile_same env s₁ _ _
      · exact SameTables.refl s₁
    generalize (if existing then s₁.renameFile env (buildPayloadTarget e) backup else (false, s₁)) = r at h₂ ⊢
    obtain ⟨kept, s₂⟩ := r
    have h₃ := renameFile_same env s₂ (buildPayloadStaging e) (buildPayloadTarget e)
    have h := h₁.trans h₂
    dsimp only at h ⊢
    split
    next s₃ heq => rw [heq] at h₃; exact h.trans h₃
    next s₃ heq =>
      rw [heq] at h₃
      split
      · exact (h.trans h₃).trans (renameFile_same env s₃ _ _)
      · exact h.trans h₃

theorem commitPayload_same (s : Capypkg) (e : CapypkgEntry) (existing staged : Bool) (payload : Text) :
    SameTables s (s.commitPayload env e existing staged payload).2.2 := by
  have h₁ : SameTables s
      (if staged && env.renamer then s.renamePayload env e existing else (⟨staged, false, none⟩, s)).2 := by
    split
    · exact renamePayload_same env s e existing
    · exact SameTables.refl s
  unfold Capypkg.commitPayload
  generalize (if staged && env.renamer then s.renamePayload env e existing else
    (⟨staged, false, none⟩, s)) = r at h₁ ⊢
  obtain ⟨commit, s₁⟩ := r
  dsimp only at h₁ ⊢
  split
  · exact h₁
  · have h₂ := writeFile_same env s₁ (buildPayloadTarget e) payload
    split
    next s₂ heq => rw [heq] at h₂; exact h₁.trans h₂
    next s₂ heq =>
      rw [heq] at h₂
      have h₃ := removeFile_same env s₂ (buildPayloadTarget e)
      have h₄ := writeParts_same env (s₂.removeFile env (buildPayloadTarget e)).2 e payload.length 0 payload
      exact ((h₁.trans h₂).trans h₃).trans h₄

theorem dbSave_fresh (s : Capypkg) : (s.dbSave env serialize).1 ≠ .already := by
  unfold Capypkg.dbSave
  split
  · exact (nomatch ·)
  · split <;> exact (nomatch ·)

theorem writeMarker_fresh (s : Capypkg) (e : CapypkgEntry) (n : Nat) : (s.writeInstalledMarker env e n).1 ≠ .already := by
  unfold Capypkg.writeInstalledMarker
  split <;> exact (nomatch ·)

theorem writeParts_fresh (s : Capypkg) (e : CapypkgEntry) (n part : Nat) (payload : Text) :
    (writePayloadParts env e n part payload s).1 ≠ .already := by
  induction n generalizing part payload s with
  | zero => exact (nomatch ·)
  | succ n ih =>
    unfold Capypkg.writePayloadParts
    split
    · exact (nomatch ·)
    · split
      · exact (nomatch ·)
      · split
        · exact (nomatch ·)
        · exact ih _ _ _

theorem commitPayload_fresh (s : Capypkg) (e : CapypkgEntry) (existing staged : Bool) (payload : Text) :
    (s.commitPayload env e existing staged payload).1 ≠ .already := by
  unfold Capypkg.commitPayload
  generalize (if staged && env.renamer then s.renamePayload env e existing else
    (⟨staged, false, none⟩, s)) = r
  obtain ⟨commit, s₁⟩ := r
  dsimp only
  split
  · exact (nomatch ·)
  · split
    · exact (nomatch ·)
    · exact writeParts_fresh env _ e _ _ _

theorem verify_fresh (e : CapypkgEntry) (payload : Text) : verifyPayload env e payload ≠ .already := by
  unfold Capypkg.verifyPayload
  split
  · exact (nomatch ·)
  · split
    · exact (nomatch ·)
    · split
      · exact (nomatch ·)
      · split <;> exact (nomatch ·)

theorem signature_fresh (s : Capypkg) (e : CapypkgEntry) : s.verifySignatureIfRequired env e ≠ .already := by
  unfold Capypkg.verifySignatureIfRequired
  split
  · exact (nomatch ·)
  · split
    · exact (nomatch ·)
    · split
      · exact (nomatch ·)
      · split <;> exact (nomatch ·)

/-- The names in the table of installed packages. -/
def installedNames (s : Capypkg) : List Text := s.installed.map CapypkgEntry.name

theorem find_installed (hn : name ≠ []) : (s.findInstalled name).isSome ↔ name ∈ installedNames s := by
  unfold Capypkg.findInstalled installedNames
  rw [if_neg hn, List.find?_isSome, mem_map]
  simp

theorem find_available (h : s.findAvailable name = some e) : name ≠ [] ∧ e.name = name := by
  unfold Capypkg.findAvailable at h
  split at h
  next => exact absurd h (nomatch ·)
  next hn => exact ⟨hn, by simpa using List.find?_some h⟩

theorem SameTables.names (h : SameTables s s') : installedNames s' = installedNames s := by
  rw [installedNames, h.installed, installedNames]

theorem SameTables.findAvailable (h : s'.available = s.available) (name : Text) :
    s'.findAvailable name = s.findAvailable name := by
  rw [Capypkg.findAvailable, h, Capypkg.findAvailable]

/-- What was installed at an index comes back when it is put there again. -/
theorem rollback_table (u : Capypkg) (snapshot : CommitSnapshot) : (u.rollbackInstallCommit env snapshot).installed =
    match snapshot.entry with
    | some (i, e) => (u.installed.set i e).take snapshot.count
    | none => u.installed.take snapshot.count := by
  unfold Capypkg.rollbackInstallCommit
  dsimp only
  split
  · exact (writeFile_same env _ _ _).installed
  · exact (removeFile_same env _ _).installed

theorem rollback_installed (h : t.installed = s.installed ∨
    ∃ i, s.installed.findIdx? (fun j => j.name = e.name) = some i ∧ t.installed = s.installed.set i e ∨
      s.installed.findIdx? (fun j => j.name = e.name) = none ∧ t.installed = s.installed ++ [e]) :
    (t.rollbackInstallCommit env (s.captureSnapshot env e)).installed = s.installed := by
  rw [rollback_table]
  simp only [Capypkg.captureSnapshot, Capypkg.installedAt]
  cases hi : s.installed.findIdx? (fun j => j.name = e.name) with
  | none =>
    obtain h | ⟨i, ⟨hsome, _⟩ | ⟨_, h⟩⟩ := h
    · rw [h]
      exact take_length
    · rw [hi] at hsome
      cases hsome
    · rw [h]
      exact take_left
  | some i =>
    have hlt : i < s.installed.length := (List.findIdx?_eq_some_iff_getElem.mp hi).1
    have hget : s.installed[i]? = some s.installed[i] := List.getElem?_eq_getElem hlt
    simp only [hget, Option.map_some]
    obtain h | ⟨j, ⟨hsome, h⟩ | ⟨hnone, _⟩⟩ := h
    · rw [h, set_getElem_self]
      exact take_length
    · rw [hi] at hsome
      cases hsome
      rw [h, set_set, set_getElem_self]
      exact take_length
    · rw [hi] at hnone
      cases hnone

/-- How an install leaves the tables: with the package in the table, or as they were. -/
structure TablesCommitted (s : Capypkg) (e : CapypkgEntry) (r : CapypkgResult × Capypkg) : Prop where
  available : r.2.available = s.available
  repos : r.2.repos = s.repos
  initialized : r.2.initialized = s.initialized
  done : r.1 = .ok → e.name ∈ installedNames s ∧ installedNames r.2 = installedNames s ∨
    e.name ∉ installedNames s ∧ installedNames r.2 = installedNames s ++ [e.name]
  undone : r.1 ≠ .ok → r.2.installed = s.installed
  fresh : r.1 ≠ .already
  members : ∀ f ∈ r.2.installed, f ∈ s.installed ∨ f = e

theorem TablesCommitted.before {r : CapypkgResult × Capypkg} (h : SameTables s s')
    (hr : TablesCommitted s' e r) : TablesCommitted s e r := by
  refine ⟨hr.available.trans h.available, hr.repos.trans h.repos, hr.initialized.trans h.initialized, ?_, ?_, hr.fresh,
    fun f hf => h.installed ▸ hr.members f hf⟩
  · intro hok
    have hd := hr.done hok
    rw [SameTables.names h] at hd
    exact hd
  · exact fun hok => (hr.undone hok).trans h.installed

theorem TablesCommitted.after (hr : TablesCommitted s e (rc, s'))
    (h : SameTables s' s'') : TablesCommitted s e (rc, s'') := by
  refine ⟨h.available.trans hr.available, h.repos.trans hr.repos, h.initialized.trans hr.initialized, ?_, ?_, hr.fresh,
    fun f hf => hr.members f (h.installed ▸ hf)⟩
  · intro hok
    rw [SameTables.names h]
    exact hr.done hok
  · exact fun hok => h.installed.trans (hr.undone hok)

theorem SameTables.failed (h : SameTables s s') (hrc : rc ≠ .ok)
    (hfresh : rc ≠ .already) : TablesCommitted s e (rc, s') :=
  ⟨h.available, h.repos, h.initialized, fun hok => absurd hok hrc, fun _ => h.installed, hfresh,
    fun _ hf => .inl (h.installed ▸ hf)⟩

theorem append_cases (s : Capypkg) (e : CapypkgEntry) : (s.appendOrReplaceInstalled e = (.quota, s)) ∨
    (∃ i, s.installed.findIdx? (fun j => j.name = e.name) = some i ∧
      s.appendOrReplaceInstalled e = (.ok, { s with installed := s.installed.set i e })) ∨
    (s.installed.findIdx? (fun j => j.name = e.name) = none ∧
      s.appendOrReplaceInstalled e = (.ok, { s with installed := s.installed ++ [e] })) := by
  unfold Capypkg.appendOrReplaceInstalled
  split
  next i hi => exact .inr (.inl ⟨i, hi, rfl⟩)
  next hi =>
    split
    · exact .inl rfl
    · exact .inr (.inr ⟨hi, rfl⟩)

theorem rollback_tables (t : Capypkg) (snapshot : CommitSnapshot) :
    (t.rollbackInstallCommit env snapshot).available = t.available ∧ (t.rollbackInstallCommit env snapshot).repos = t.repos ∧
      (t.rollbackInstallCommit env snapshot).initialized = t.initialized := by
  unfold Capypkg.rollbackInstallCommit
  dsimp only
  split
  · exact ⟨(writeFile_same env _ _ _).available, (writeFile_same env _ _ _).repos, (writeFile_same env _ _ _).initialized⟩
  · exact ⟨(removeFile_same env _ _).available, (removeFile_same env _ _).repos, (removeFile_same env _ _).initialized⟩

theorem findIdx_none {l : List CapypkgEntry} :
    l.findIdx? (fun j => j.name = name) = none ↔ name ∉ l.map CapypkgEntry.name := by
  rw [List.findIdx?_eq_none_iff, mem_map]
  simp

theorem set_names {l : List CapypkgEntry} {i : Nat} (h : l.findIdx? (fun j => j.name = e.name) = some i) :
    (l.set i e).map CapypkgEntry.name = l.map CapypkgEntry.name := by
  obtain ⟨hlt, hname, _⟩ := List.findIdx?_eq_some_iff_getElem.mp h
  have hname : l[i].name = e.name := by simpa using hname
  apply ext_getElem (by simp)
  intro j hj hj'
  rw [getElem_map, getElem_map, getElem_set]
  split
  next hij =>
    subst hij
    exact hname.symm
  next => rfl

/-- Whatever the table was made into, the snapshot brings it back. -/
theorem snapshot_back (hrc : rc ≠ .ok) (hfresh : rc ≠ .already)
    (hav : t.available = s.available) (hre : t.repos = s.repos) (hin : t.initialized = s.initialized)
    (ht : t.installed = s.installed ∨ ∃ i,
      s.installed.findIdx? (fun j => j.name = e.name) = some i ∧ t.installed = s.installed.set i e ∨
      s.installed.findIdx? (fun j => j.name = e.name) = none ∧ t.installed = s.installed ++ [e]) :
    TablesCommitted s e (rc, t.rollbackInstallCommit env (s.captureSnapshot env e)) := by
  obtain ⟨hav', hre', hin'⟩ := rollback_tables env t (s.captureSnapshot env e)
  exact ⟨hav'.trans hav, hre'.trans hre, hin'.trans hin, fun hok => absurd hok hrc,
    fun _ => rollback_installed env ht, hfresh, fun _ hf => .inl (rollback_installed env ht ▸ hf)⟩

theorem entry_saved (hav : t.available = s.available) (hre : t.repos = s.repos)
    (hin : t.initialized = s.initialized) (ht : ∃ i,
      s.installed.findIdx? (fun j => j.name = e.name) = some i ∧ t.installed = s.installed.set i e ∨
      s.installed.findIdx? (fun j => j.name = e.name) = none ∧ t.installed = s.installed ++ [e]) :
    TablesCommitted s e (match t.dbSave env serialize with
      | (.ok, s) => (.ok, s)
      | (.notReady, s) => (.ok, s)
      | (rc, u) => (rc, ((u.rollbackInstallCommit env (s.captureSnapshot env e)).dbSave env serialize).2)) := by
  have hdone : TablesCommitted s e (.ok, t) := by
    refine ⟨hav, hre, hin, fun _ => ?_, fun hok => absurd rfl hok, (fun h => by cases h), ?_⟩
    · obtain ⟨i, ⟨hi, h⟩ | ⟨hi, h⟩⟩ := ht
      · refine .inl ⟨?_, ?_⟩
        · by_contra hn
          rw [findIdx_none.mpr hn] at hi
          cases hi
        · rw [installedNames, h, set_names hi, installedNames]
      · refine .inr ⟨findIdx_none.mp hi, ?_⟩
        rw [installedNames, h, map_append]
        rfl
    · obtain ⟨i, ⟨_, h⟩ | ⟨_, h⟩⟩ := ht
      · rw [h]
        exact fun f hf => mem_or_eq_of_mem_set hf
      · rw [h]
        intro f hf
        cases List.mem_append.mp hf with
        | inl hf => exact .inl hf
        | inr hf => exact .inr (List.mem_singleton.mp hf)
  have hsame := dbSave_same env serialize t
  split
  next u hs => rw [hs] at hsame; exact hdone.after hsame
  next u hs => rw [hs] at hsame; exact hdone.after hsame
  next rc u hok hnr hs =>
    rw [hs] at hsame
    refine TablesCommitted.after (snapshot_back env ?_ ?_ ?_ ?_ ?_ ?_) (dbSave_same env serialize _)
    · rintro rfl
      exact hok rfl
    · have hfresh := dbSave_fresh env serialize t
      rw [hs] at hfresh
      exact hfresh
    · exact hsame.available.trans hav
    · exact hsame.repos.trans hre
    · exact hsame.initialized.trans hin
    · obtain ⟨i, ht⟩ := ht
      refine .inr ⟨i, ?_⟩
      rw [hsame.installed]
      exact ht

theorem commit_spec (s : Capypkg) (e : CapypkgEntry) (n : Nat) :
    TablesCommitted s e (s.commitInstallMetadata env serialize e n) := by
  have h₁ := writeMarker_same env s e n
  unfold Capypkg.commitInstallMetadata
  dsimp only
  split
  next s₁ heq =>
    rw [heq] at h₁
    dsimp only at h₁
    obtain hq | ⟨i, hi, hset⟩ | ⟨hi, hadd⟩ := append_cases s₁ e
    · rw [hq]
      exact snapshot_back env (fun h => by cases h) (fun h => by cases h) h₁.available h₁.repos h₁.initialized (.inl h₁.installed)
    · rw [hset]
      rw [h₁.installed] at hi ⊢
      exact entry_saved env serialize h₁.available h₁.repos h₁.initialized ⟨i, .inl ⟨hi, rfl⟩⟩
    · rw [hadd]
      rw [h₁.installed] at hi ⊢
      exact entry_saved env serialize h₁.available h₁.repos h₁.initialized ⟨0, .inr ⟨hi, rfl⟩⟩
  next rc s₁ hok heq =>
    rw [heq] at h₁
    refine snapshot_back env ?_ ?_ h₁.available h₁.repos h₁.initialized (.inl h₁.installed)
    · rintro rfl
      exact hok rfl
    · have hfresh := writeMarker_fresh env s e n
      rw [heq] at hfresh
      exact hfresh

theorem activate_spec (s : Capypkg) (e : CapypkgEntry) (existing staged : Bool) (payload : Text) :
    TablesCommitted s e (s.activatePayload env serialize e existing staged payload) := by
  have h₁ := commitPayload_same env s e existing staged payload
  unfold Capypkg.activatePayload
  split
  next commit s₁ heq =>
    rw [heq] at h₁
    dsimp only at h₁ ⊢
    have h₂ : SameTables s₁ (if commit.staged then (s₁.removeFile env (buildPayloadStaging e)).2 else s₁) := by
      split
      · exact removeFile_same env s₁ _
      · exact SameTables.refl s₁
    generalize (if commit.staged then (s₁.removeFile env (buildPayloadStaging e)).2 else s₁) = s₂ at h₂ ⊢
    have hc := (commit_spec env serialize s₂ e payload.length).before (h₁.trans h₂)
    split
    next s₃ hs =>
      rw [hs] at hc
      split
      · exact hc.after (removeFile_same env s₃ _)
      · exact hc
    next rc s₃ hok hs =>
      rw [hs] at hc
      have h₄ : SameTables s₃ (if commit.atomic then (s₃.removeFile env (buildPayloadTarget e)).2 else s₃) := by
        split
        · exact removeFile_same env s₃ _
        · exact SameTables.refl s₃
      generalize (if commit.atomic then (s₃.removeFile env (buildPayloadTarget e)).2 else s₃) = s₄ at h₄ ⊢
      split
      · exact hc.after (h₄.trans (renameFile_same env s₄ _ _))
      · exact hc.after h₄
  next rc commit s₁ hok heq =>
    rw [heq] at h₁
    refine SameTables.failed h₁ ?_ ?_
    · rintro rfl
      exact hok rfl
    · have hfresh := commitPayload_fresh env s e existing staged payload
      rw [heq] at hfresh
      exact hfresh

theorem ensureDirs_same (s : Capypkg) (e : CapypkgEntry) : SameTables s (s.ensureInstallDirs env e) :=
  (((makeDir_same env s _).trans (makeDir_same env _ _)).trans (makeDir_same env _ _)).trans (makeDir_same env _ _)

theorem installPayload_spec (s : Capypkg) (e : CapypkgEntry) (existing : Bool) :
    TablesCommitted s e (s.installPayload env serialize e existing) := by
  have h₁ := ensureDirs_same env s e
  unfold Capypkg.installPayload
  dsimp only
  generalize s.ensureInstallDirs env e = s₁ at h₁ ⊢
  split
  · exact h₁.failed (nomatch ·) (nomatch ·)
  · split
    next => exact h₁.failed (nomatch ·) (nomatch ·)
    next payload _ =>
      split
      · exact h₁.failed (nomatch ·) (nomatch ·)
      · have h₂ := h₁.trans (writeFile_same env s₁ (buildPayloadStaging e) payload)
        generalize s₁.writeFile env (buildPayloadStaging e) payload = r at h₂ ⊢
        obtain ⟨staged, s₂⟩ := r
        dsimp only at h₂ ⊢
        split
        next =>
          split
          next => exact (activate_spec env serialize s₂ e existing staged payload).before h₂
          next hok => exact h₂.failed (fun he => hok he) (signature_fresh env s₂ e)
        next hok => exact h₂.failed (fun he => hok he) (verify_fresh env e payload)

end CapyOS.Proofs
