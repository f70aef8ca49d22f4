import CapyOS.Services.CapypkgIndex
import CapyOS.Proofs.CapypkgDependencies

namespace CapyOS.Proofs
open Capypkg List
variable {env : CapypkgEnv} {last : CapypkgResult}

def SourceSigned (s : Capypkg) (e : CapypkgEntry) : Prop :=
  e.catalogAuthenticated = true ∨ ∀ repo, s.findRepo e.sourceRepo = some repo → repo.requireSignature = true

def DescriptorAccepted (env : CapypkgEnv) (e : CapypkgEntry) : Prop :=
  ∃ accepts, env.verifier = some accepts ∧ accepts (buildSignedDescriptor e) e.signatureHex = true

def DigestMatches (env : CapypkgEnv) (e : CapypkgEntry) (payload : Text) : Prop :=
  digestHex (env.sha256 payload) = e.payloadSha256 ∨ decodeHex 32 e.payloadSha256 = some (env.sha256 payload)

section
variable {s : Capypkg} {e : CapypkgEntry} {r : CapypkgRepo}

theorem verify_digest {payload : Text} (h : verifyPayload env e payload = .ok) :
    DigestMatches env e payload := by
  unfold Capypkg.verifyPayload at h
  split at h
  · exact absurd h (nomatch ·)
  · split at h
    · exact absurd h (nomatch ·)
    · split at h
      · exact absurd h (nomatch ·)
      next expected hdecode =>
        split at h
        · exact absurd h (nomatch ·)
        next hne =>
          by_cases hhex : digestHex (env.sha256 payload) = e.payloadSha256
          · exact .inl hhex
          · refine .inr (hdecode.trans (congrArg some ?_))
            by_contra hd
            exact hne ⟨hhex, fun he => hd he.symm⟩

/-- One repository with signatures is enough for a source that is not configured. -/
theorem signature_required (hr : r ∈ s.repos) (hsig : r.requireSignature = true)
    (ha : e.catalogAuthenticated = false) : s.signatureRequired e = true ↔
      ∀ repo, s.findRepo e.sourceRepo = some repo → repo.requireSignature = true := by
  unfold Capypkg.signatureRequired
  rw [ha, if_neg (nomatch ·)]
  cases hf : s.findRepo e.sourceRepo with
  | none =>
    have hany : s.anyRepoSigned = true := any_eq_true.mpr ⟨r, hr, hsig⟩
    exact iff_of_true hany fun _ h => absurd h (nomatch ·)
  | some repo =>
    constructor
    · intro h repo' heq
      cases heq
      exact h
    · exact fun h => h repo rfl

theorem verify_signature (h : s.verifySignatureIfRequired env e = .ok) :
    s.signatureRequired e = false ∨ DescriptorAccepted env e := by
  unfold Capypkg.verifySignatureIfRequired at h
  split at h
  next hn => exact .inl (by simpa using hn)
  next =>
    split at h
    · exact absurd h (nomatch ·)
    · split at h
      · exact absurd h (nomatch ·)
      next accepts hv =>
        split at h
        next ha => exact .inr ⟨accepts, hv, ha⟩
        next => cases h

theorem signature_gate (env : CapypkgEnv) (hr : r ∈ s.repos) (hsig : r.requireSignature = true) :
    (∀ accepts, s.verifySignatureIfRequired { env with verifier := some accepts } e = .ok →
      e.catalogAuthenticated = true ∨ accepts (buildSignedDescriptor e) e.signatureHex = true) ↔ SourceSigned s e := by
  cases ha : e.catalogAuthenticated with
  | true => exact iff_of_true (fun _ _ => .inl rfl) (.inl ha)
  | false =>
    have hreq := signature_required hr hsig ha
    constructor
    · intro h
      refine .inr (hreq.mp ?_)
      by_contra hn
      have hpass : s.verifySignatureIfRequired { env with verifier := some fun _ _ => false } e = .ok := by
        unfold Capypkg.verifySignatureIfRequired
        rw [if_pos (by simpa using hn)]
      cases h (fun _ _ => false) hpass with
      | inl h => exact absurd h (nomatch ·)
      | inr h => exact absurd h (nomatch ·)
    · intro h accepts hok
      refine .inr ?_
      cases h with
      | inl h => exact absurd (ha.symm.trans h) (nomatch ·)
      | inr h =>
        obtain hno | ⟨accepts', hv, hacc⟩ := verify_signature hok
        · exact absurd (hno.symm.trans (hreq.mpr h)) (nomatch ·)
        · cases hv
          exact hacc

/-- What holds of every entry that is read, once its repository is noted, holds of every entry taken. -/
theorem takeEntries_all {authenticated : Bool} (P : CapypkgEntry → Prop)
    (hread : ∀ {text f rest}, manifestParseEntry text = (.ok, f, rest) →
      P { (if f.sourceRepo = [] then { f with sourceRepo := localCopy capypkgRepoNameMax r.name } else f) with
        catalogAuthenticated := authenticated })
    {n room : Nat} {text : Text} (he : e ∈ (takeEntries r authenticated n room text last).1) : P e := by
  induction n generalizing room text last with
  | zero => exact absurd he not_mem_nil
  | succ n ih =>
    unfold Capypkg.takeEntries at he
    split at he
    · exact absurd he not_mem_nil
    · split at he
      next f rest hparse =>
        dsimp only at he
        have hf := hread hparse
        generalize (if f.sourceRepo = [] then { f with sourceRepo := localCopy capypkgRepoNameMax r.name }
          else f) = g at he hf
        split at he
        · exact ih he
        · cases mem_cons.mp he with
          | inl heq => exact heq ▸ hf
          | inr hm => exact ih hm
      next => exact ih he

theorem takeEntries_authenticated {authenticated : Bool} {n room : Nat} {text : Text}
    (he : e ∈ (takeEntries r authenticated n room text last).1) : e.catalogAuthenticated = authenticated :=
  takeEntries_all (fun e => e.catalogAuthenticated = authenticated) (fun _ => rfl) he

theorem fetchRepo_authenticated {attempt room : Nat}
    (he : e ∈ (fetchRepo env attempt r room last).1) (ha : e.catalogAuthenticated = true) :
    ∃ text body, fetchText env r.indexUrl attempt 4 = some text ∧ verifyIndexEnvelope env text = some body ∧
      e ∈ (takeEntries r true body.length room body last).1 := by
  unfold Capypkg.fetchRepo at he
  split at he
  · exact absurd he not_mem_nil
  next text htext =>
    split at he
    · split at he
      · exact absurd he not_mem_nil
      next body hbody => exact ⟨text, body, htext, hbody, he⟩
    · exact absurd ((takeEntries_authenticated he).symm.trans ha) (nomatch ·)

theorem fetchRepos_mem {attempt : Nat} {repos : List CapypkgRepo} {available : List CapypkgEntry}
    (he : e ∈ (fetchRepos env attempt repos available last).1) :
    e ∈ available ∨ ∃ repo ∈ repos, ∃ attempt room last, e ∈ (fetchRepo env attempt repo room last).1 := by
  induction repos generalizing attempt available last with
  | nil => exact .inl he
  | cons repo repos ih =>
    unfold Capypkg.fetchRepos at he
    obtain hm | ⟨repo', hr, hfrom⟩ := ih he
    · cases mem_append.mp hm with
      | inl hm => exact .inl hm
      | inr hm => exact .inr ⟨repo, mem_cons_self, attempt, _, last, hm⟩
    · exact .inr ⟨repo', mem_cons_of_mem repo hr, hfrom⟩

end

/-- Every callback is bound and none fails, an index is one text, a payload one byte, and every
digest is zero. -/
def pkgEnv (accepts : Bool) (index : Text) : CapypkgEnv where
  reader := true
  writer := true
  bytesWriter := true
  remover := true
  mkdir := true
  renamer := true
  textFetcher := true
  bytesFetcher := true
  verifier := some fun _ _ => accepts
  fails := fun _ => false
  text := fun _ _ => some index
  bytes := fun _ _ _ => some ['x']
  alloc := fun _ => true
  sha256 := fun _ => replicate 32 0

def corpRepo : CapypkgRepo := ⟨"corp".toList, "https://corp/index".toList, false, true⟩

def labRepo : CapypkgRepo := ⟨"lab".toList, "https://lab/index".toList, false, false⟩

def oneIndex (more : Text) : Text :=
  "name=pkg\nversion=1\npayload_url=https://x\npayload_sha256=".toList ++ replicate 64 '0' ++ more

def onePackage (signature repo : Text) : CapypkgEntry :=
  { emptyEntry with
    name := "pkg".toList
    version := "1".toList
    payloadUrl := "https://x".toList
    payloadSha256 := replicate 64 '0'
    signatureHex := signature
    installRoot := "/var/capypkg/pkg".toList
    sourceRepo := repo }

def corpState (available : List CapypkgEntry) : Capypkg :=
  ⟨true, [corpRepo, labRepo], [], available, fun _ => none, []⟩

end CapyOS.Proofs
