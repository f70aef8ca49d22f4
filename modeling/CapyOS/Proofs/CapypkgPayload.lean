import CapyOS.Proofs.CapypkgPaths

namespace CapyOS.Proofs
open Capypkg List
variable {existing staged : Bool} {last : CapypkgResult} {s' : Capypkg} {r : CapypkgRepo}
variable {content : Text}

/-- A payload written in pieces, one after another from a part on. -/
inductive PartsWritten (e : CapypkgEntry) : Nat → Text → List FileOp → Prop
  | done (part : Nat) : PartsWritten e part [] []
  | piece {part : Nat} {payload path : Text} {ops : List FileOp} (more : payload ≠ [])
      (target : buildPayloadPartTarget e part = some path)
      (rest : PartsWritten e (part + 1) (payload.drop capypkgPayloadPartBytes) ops) :
      PartsWritten e part payload (.write path (payload.take capypkgPayloadPartBytes) :: ops)

/-- Where an install has put a payload: its target holds it, or the last calls were the writes
of its pieces. -/
inductive PayloadPut (e : CapypkgEntry) (payload : Text) (u : Capypkg) : Prop
  | whole (held : u.files (buildPayloadTarget e) = some payload)
  | parts {before ops : List FileOp} (calls : u.calls = before ++ ops)
      (written : PartsWritten e 0 payload ops)

section
variable {env : CapypkgEnv} {serialize : List CapypkgEntry → Text}
variable {e : CapypkgEntry} {s t u : Capypkg} {payload : Text}

theorem writeFile_put {path content : Text} (h : s.writeFile env path content = (true, u)) :
    u.files path = some content ∧ u.calls = s.calls ++ [.write path content] := by
  unfold Capypkg.writeFile at h
  split at h
  · cases h
  · cases h
    exact ⟨Function.update_self path (some content) s.files, rfl⟩

theorem removeFile_other {path other : Text} (hne : other ≠ path) :
    (s.removeFile env path).2.files other = s.files other := by
  unfold Capypkg.removeFile
  split
  · rfl
  · split
    · rfl
    · exact Function.update_of_ne hne none s.files

/-- A file that is neither end of a rename is left alone, and so is the source of one that fails. -/
theorem renameFile_held {source destination other : Text}
    (hne : other ≠ destination) (hheld : s.files other = some content) :
    (s.renameFile env source destination).2.files other = some content ∨
      (s.renameFile env source destination).2.files other = none := by
  unfold Capypkg.renameFile
  split
  · exact .inl hheld
  · dsimp only
    split
    · exact .inl hheld
    · by_cases hs : other = source
      · right
        rw [hs, Function.update_self]
      · refine .inl ?_
        rw [Function.update_of_ne hs, Function.update_of_ne hne]
        exact hheld

theorem renameFile_moved {source destination : Text}
    (h : s.renameFile env source destination = (true, u))
    (hheld : s.files source = some content ∨ s.files source = none) :
    u.files destination = some content := by
  unfold Capypkg.renameFile at h
  split at h
  · cases h
  next hok =>
    cases h
    have hsome : s.files source = some content := by
      obtain hheld | hnone := hheld
      · exact hheld
      · exact absurd (by rw [hnone]; simp) hok
    dsimp only
    by_cases heq : source = destination
    · rw [if_pos heq, ← heq]
      exact hsome
    · rw [if_neg heq, Function.update_of_ne (Ne.symm heq), Function.update_self]
      exact hsome

theorem parts_written {n part : Nat} (hn : payload.length ≤ n)
    (h : writePayloadParts env e n part payload s = (.ok, u)) :
    ∃ ops, u.calls = s.calls ++ ops ∧ PartsWritten e part payload ops := by
  induction n generalizing part payload s with
  | zero =>
    cases h
    rw [List.length_eq_zero_iff.mp (Nat.le_zero.mp hn)]
    exact ⟨[], (append_nil _).symm, .done part⟩
  | succ n ih =>
    unfold Capypkg.writePayloadParts at h
    split at h
    next hnil =>
      cases h
      rw [hnil]
      exact ⟨[], (append_nil _).symm, .done part⟩
    next hmore =>
      split at h
      · exact absurd (congrArg Prod.fst h) (fun h => by cases h)
      next path hpath =>
        split at h
        · exact absurd (congrArg Prod.fst h) (fun h => by cases h)
        next s₁ hw =>
          have hless : (payload.drop capypkgPayloadPartBytes).length ≤ n := by
            have hpos := List.length_pos_iff.mpr hmore
            rw [length_drop, capypkgPayloadPartBytes]
            omega
          obtain ⟨ops, hcalls, hops⟩ := ih hless h
          refine ⟨_, ?_, .piece hmore hpath hops⟩
          rw [hcalls, (writeFile_put hw).2, append_assoc, singleton_append]

/-- The staging file of a package is none of its backups: their last letters differ. -/
theorem staging_ne_backup (hname : e.name.length < capypkgNameMax) {backup : Text}
    (hb : buildPayloadBackup (buildPayloadTarget e) = some backup) : buildPayloadStaging e ≠ backup := by
  intro heq
  have hstaging : (buildPayloadStaging e).getLast? = some 'n' := by
    rw [staging_full hname, List.getLast?_append, List.getLast?_cons, bin_last]
    rfl
  have hbackup : backup.getLast? = some 's' := by
    unfold buildPayloadBackup at hb
    split at hb
    · cases hb
    next hroom =>
      have hlen : (".previous".toList : Text).length = 9 := by simp
      rw [localCopy_fits (by omega), localAppend_fits (by omega)] at hb
      rw [← Option.some.inj hb]
      simp
  rw [heq, hbackup] at hstaging
  exact absurd hstaging (by decide)

/-- A rename that goes through puts the staged payload at the target. -/
theorem renamePayload_put (hname : e.name.length < capypkgNameMax) {existing : Bool}
    (hheld : s.files (buildPayloadStaging e) = some payload)
    (h : (s.renamePayload env e existing).1.atomic = true) :
    (s.renamePayload env e existing).2.files (buildPayloadTarget e) = some payload := by
  unfold Capypkg.renamePayload at h ⊢
  dsimp only at h ⊢
  split at h
  · cases h
  next backup hb =>
    have hne := staging_ne_backup hname hb
    have h₁ : (s.removeFile env backup).2.files (buildPayloadStaging e) = some payload :=
      (removeFile_other hne).trans hheld
    generalize (s.removeFile env backup).2 = s₁ at h h₁ ⊢
    -- the file before it is moved away, and the staged one with it when they are one file
    have h₂ : (if existing then s₁.renameFile env (buildPayloadTarget e) backup else (false, s₁)).2.files
          (buildPayloadStaging e) = some payload ∨
        (if existing then s₁.renameFile env (buildPayloadTarget e) backup else (false, s₁)).2.files
          (buildPayloadStaging e) = none := by
      split
      · exact renameFile_held hne h₁
      · exact .inl h₁
    generalize (if existing then s₁.renameFile env (buildPayloadTarget e) backup else (false, s₁)) = r
      at h h₂ ⊢
    obtain ⟨kept, s₂⟩ := r
    dsimp only at h h₂ ⊢
    generalize hmoved : s₂.renameFile env (buildPayloadStaging e) (buildPayloadTarget e) = m at h ⊢
    obtain ⟨ok, s₃⟩ := m
    cases ok with
    | true => exact renameFile_moved hmoved h₂
    | false => cases h

theorem commitPayload_put (hname : e.name.length < capypkgNameMax)
    {commit : PayloadCommit} (hheld : staged = true → s.files (buildPayloadStaging e) = some payload)
    (h : s.commitPayload env e existing staged payload = (.ok, commit, u)) : PayloadPut e payload u := by
  have hput : (if staged && env.renamer then s.renamePayload env e existing else
        (⟨staged, false, none⟩, s)).1.atomic = true →
      (if staged && env.renamer then s.renamePayload env e existing else
        (⟨staged, false, none⟩, s)).2.files (buildPayloadTarget e) = some payload := by
    split
    next hboth =>
      rw [Bool.and_eq_true] at hboth
      exact renamePayload_put hname (hheld hboth.1)
    next => exact fun h => by cases h
  unfold Capypkg.commitPayload at h
  generalize (if staged && env.renamer then s.renamePayload env e existing else
    (⟨staged, false, none⟩, s)) = r at h hput
  obtain ⟨commit₁, s₁⟩ := r
  dsimp only at h hput
  split at h
  next hatomic =>
    cases h
    exact .whole (hput hatomic)
  next =>
    split at h
    next s₂ hw =>
      cases h
      exact .whole (writeFile_put hw).1
    next s₂ _ =>
      generalize hparts : writePayloadParts env e payload.length 0 payload
        (s₂.removeFile env (buildPayloadTarget e)).2 = q at h
      obtain ⟨rc, s₃⟩ := q
      cases h
      obtain ⟨ops, hcalls, hops⟩ := parts_written (Nat.le_refl _) hparts
      exact .parts hcalls hops

/-- A payload that an install commits: its digest is the entry's, the signature check passed,
and the bytes are in place. -/
structure PayloadCommitted (env : CapypkgEnv) (serialize : List CapypkgEntry → Text) (e : CapypkgEntry)
    (payload : Text) (t s' : Capypkg) : Prop where
  digest : DigestMatches env e payload
  gate : t.verifySignatureIfRequired env e = .ok
  put : ∃ existing staged commit u, t.commitPayload env e existing staged payload = (.ok, commit, u) ∧
    PayloadPut e payload u ∧ t.activatePayload env serialize e existing staged payload = (.ok, s')

theorem activate_put (hname : e.name.length < capypkgNameMax)
    (hheld : staged = true → t.files (buildPayloadStaging e) = some payload)
    (h : t.activatePayload env serialize e existing staged payload = (.ok, s')) :
    ∃ commit u, t.commitPayload env e existing staged payload = (.ok, commit, u) ∧ PayloadPut e payload u := by
  generalize hc : t.commitPayload env e existing staged payload = r
  obtain ⟨rc, commit, u⟩ := r
  unfold Capypkg.activatePayload at h
  rw [hc] at h
  split at h
  next commit' u' heq =>
    cases heq
    exact ⟨commit, u, rfl, commitPayload_put hname hheld hc⟩
  next hok heq =>
    cases heq
    exact absurd (congrArg Prod.fst h) fun he => hok he

theorem installPayload_verified (hname : e.name.length < capypkgNameMax) {existing : Bool}
    (h : s.installPayload env serialize e existing = (.ok, s')) :
    ∃ t payload, t.repos = s.repos ∧ PayloadCommitted env serialize e payload t s' := by
  have h₁ := ensureDirs_same env s e
  unfold Capypkg.installPayload at h
  dsimp only at h
  generalize s.ensureInstallDirs env e = s₁ at h₁ h
  split at h
  · exact absurd (congrArg Prod.fst h) (fun h => by cases h)
  · split at h
    next => exact absurd (congrArg Prod.fst h) (fun h => by cases h)
    next payload _ =>
      split at h
      · exact absurd (congrArg Prod.fst h) (fun h => by cases h)
      · have h₂ := h₁.trans (writeFile_same env s₁ (buildPayloadStaging e) payload)
        generalize hw : s₁.writeFile env (buildPayloadStaging e) payload = w at h₂ h
        obtain ⟨staged, s₂⟩ := w
        have hheld : staged = true → s₂.files (buildPayloadStaging e) = some payload := by
          rintro rfl
          exact (writeFile_put hw).1
        dsimp only at h₂ h
        split at h
        next hv =>
          split at h
          next hs =>
            obtain ⟨commit, u, hc, hput⟩ := activate_put hname hheld h
            exact ⟨s₂, payload, h₂.repos, verify_digest hv, hs, existing, staged, commit, u, hc, hput, h⟩
          next hok => exact absurd (congrArg Prod.fst h) fun he => hok he
        next hok => exact absurd (congrArg Prod.fst h) fun he => hok he

theorem install_verified (hlen : e.name.length < capypkgNameMax) {calls : Nat} {name : Text}
    (hav : s.findAvailable name = some e) (h : install env serialize calls s name = some (.ok, s')) :
    ∃ t payload, t.repos = s.repos ∧ PayloadCommitted env serialize e payload t s' := by
  cases calls with
  | zero => cases h
  | succ calls =>
    have hfail {rc : CapypkgResult} {t : Capypkg} (h : some (rc, t) = some (.ok, s')) (hok : rc ≠ .ok) : False :=
      hok (congrArg Prod.fst (Option.some.inj h))
    unfold Capypkg.install at h
    split at h
    · exact (hfail h fun hc => by cases hc).elim
    · split at h
      · exact (hfail h fun hc => by cases hc).elim
      · rw [hav] at h
        dsimp only at h
        split at h
        · exact (hfail h fun hc => by cases hc).elim
        · split at h
          · exact (hfail h fun hc => by cases hc).elim
          · split at h
            next => cases h
            next t ht =>
              obtain ⟨hg, _⟩ := dependencies_spec (install_spec env serialize calls) 8 e s .ok t ht
              obtain ⟨u, payload, hrepos, hrest⟩ := installPayload_verified hlen (Option.some.inj h)
              exact ⟨u, payload, hrepos.trans hg.repos, hrest⟩
            next hok _ => exact (hfail h fun he => hok he).elim

theorem takeEntries_name {authenticated : Bool} {n room : Nat} {text : Text}
    (he : e ∈ (takeEntries r authenticated n room text last).1) :
    e.name.length < capypkgNameMax := by
  refine takeEntries_all (fun e => e.name.length < capypkgNameMax) (fun {_ f _} hparse => ?_) he
  have hf := (parse_stored hparse).fields.name.1
  dsimp only
  split <;> exact hf

theorem fetchRepo_name {attempt room : Nat}
    (he : e ∈ (fetchRepo env attempt r room last).1) : e.name.length < capypkgNameMax := by
  unfold Capypkg.fetchRepo at he
  split at he
  · exact absurd he not_mem_nil
  next =>
    split at he
    · split at he
      · exact absurd he not_mem_nil
      next => exact takeEntries_name he
    · exact takeEntries_name he

end

/-- An entry that a repository with signatures put into the catalog, and whose source is
signed, is authenticated when it is installed; the bytes put in place have its digest in any
case; the signature check alone is as good as that exactly then. -/
theorem signed_repo_authenticated {env env' : CapypkgEnv} {serialize : List CapypkgEntry → Text} {s s' : Capypkg}
    {r : CapypkgRepo} {e : CapypkgEntry} {attempt room : Nat} {last : CapypkgResult} {name : Text}
    (hr : r ∈ s.repos) (hsig : r.requireSignature = true) (he : e ∈ (fetchRepo env attempt r room last).1)
    (hrepos : s'.repos = s.repos) (hav : s'.findAvailable name = some e) :
    (∀ calls s'', install env' serialize calls s' name = some (.ok, s'') →
      (∃ t payload, PayloadCommitted env' serialize e payload t s'') ∧
      (SourceSigned s' e → (∃ text body, fetchText env r.indexUrl attempt 4 = some text ∧
        verifyIndexEnvelope env text = some body) ∨ DescriptorAccepted env' e)) ∧
    ((∀ accepts, s'.verifySignatureIfRequired { env' with verifier := some accepts } e = .ok →
      e.catalogAuthenticated = true ∨ accepts (buildSignedDescriptor e) e.signatureHex = true) ↔
      SourceSigned s' e) := by
  have hr' : r ∈ s'.repos := hrepos.symm ▸ hr
  refine ⟨?_, signature_gate env' hr' hsig⟩
  intro calls s'' h
  obtain ⟨t, payload, ht, hput⟩ := install_verified (fetchRepo_name he) hav h
  have hgate := hput.gate
  refine ⟨⟨t, payload, hput⟩, ?_⟩
  intro hsource
  cases ha : e.catalogAuthenticated with
  | true =>
    obtain ⟨text, body, htext, hbody, _⟩ := fetchRepo_authenticated he ha
    exact .inl ⟨text, body, htext, hbody⟩
  | false =>
    refine .inr ?_
    obtain hno | hacc := verify_signature hgate
    · have hfind : t.findRepo e.sourceRepo = s'.findRepo e.sourceRepo := by
        rw [Capypkg.findRepo, ht, Capypkg.findRepo]
      have hreq := (signature_required (ht.symm ▸ hr') hsig ha).mpr (by
        rw [hfind]
        cases hsource with
        | inl h => exact absurd (ha.symm.trans h) (nomatch ·)
        | inr h => exact h)
      exact absurd (hno.symm.trans hreq) (nomatch ·)
    · exact hacc

theorem signed_repo_authenticated_one :
    let env := pkgEnv true (oneIndex ("\nsignature_ed25519=".toList ++ List.replicate 128 '0'))
    let e := onePackage (List.replicate 128 '0') "corp".toList
    (∃ s'' t payload, install env (fun _ => []) 2 (corpState [e]) "pkg".toList = some (.ok, s'') ∧
      PayloadCommitted env (fun _ => []) e payload t s'') ∧
      ((∀ accepts, (corpState [e]).verifySignatureIfRequired { env with verifier := some accepts } e = .ok →
        e.catalogAuthenticated = true ∨ accepts (buildSignedDescriptor e) e.signatureHex = true) ↔
        SourceSigned (corpState [e]) e) := by
  intro env e
  have he : e ∈ (fetchRepo env 0 corpRepo 128 .fetch).1 := by decide +kernel
  have hav : (corpState [e]).findAvailable "pkg".toList = some e := by decide +kernel
  have h := @signed_repo_authenticated env env (fun _ => []) (corpState []) (corpState [e]) corpRepo e 0 128 .fetch
    "pkg".toList mem_cons_self rfl he rfl hav
  have hok : (install env (fun _ => []) 2 (corpState [e]) "pkg".toList).map Prod.fst = some .ok := by
    decide +kernel
  obtain ⟨⟨rc, s''⟩, hi, hrc⟩ := Option.map_eq_some_iff.mp hok
  have hrc : rc = .ok := hrc
  rw [hrc] at hi
  obtain ⟨⟨t, payload, hput⟩, -⟩ := h.1 2 s'' hi
  exact ⟨⟨s'', t, payload, hi, hput⟩, h.2⟩

/-- The same repository lists a package with the line `repo=lab`: it is installed although no
signature is on it and the verifier accepts none. -/
theorem signed_repo_unauthenticated :
    let env := pkgEnv false (oneIndex "\nrepo=lab\n".toList)
    let e := onePackage [] "lab".toList
    corpRepo.requireSignature = true ∧ e ∈ (fetchRepo env 0 corpRepo 128 .fetch).1 ∧
      (fetchIndex env (corpState [])).2.findAvailable "pkg".toList = some e ∧
      (install env (fun _ => []) 2 (fetchIndex env (corpState [])).2 "pkg".toList).map Prod.fst = some .ok ∧
      e.catalogAuthenticated = false ∧ ¬ DescriptorAccepted env e := by
  intro env e
  refine ⟨rfl, by decide +kernel, by decide +kernel, by decide +kernel, rfl, ?_⟩
  rintro ⟨accepts, hv, hacc⟩
  cases hv
  exact absurd hacc (nomatch ·)

end CapyOS.Proofs
