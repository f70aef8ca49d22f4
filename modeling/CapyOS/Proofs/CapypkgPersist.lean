import CapyOS.Proofs.CapypkgRoundTrip
import CapyOS.Proofs.CapypkgTrust

namespace CapyOS.Proofs
open Capypkg List
variable {s s' : Capypkg} {r : CapypkgRepo} {e : CapypkgEntry} {env : CapypkgEnv}

/-! ## Repositories -/

structure RepoStored (r : CapypkgRepo) : Prop where
  name_ne : r.name ≠ []
  name : Fits capypkgRepoNameMax r.name
  indexUrl : Fits capypkgUrlMax r.indexUrl
  https : localStartsWith r.indexUrl "https://".toList = true

def Plain (r : CapypkgRepo) : Prop := '|' ∉ r.name ∧ r.name.head? ≠ some '#' ∧ '|' ∉ r.indexUrl

theorem appendStr_foldlM {size : Nat} {pieces : List Text} {buffer text : Text}
    (h : pieces.foldlM (appendStr size) buffer = some text) : text = buffer ++ pieces.flatten := by
  induction pieces generalizing buffer with
  | nil =>
    cases h
    simp
  | cons piece pieces ih =>
    rw [foldlM_cons, appendStr] at h
    split at h
    · rw [ih h, flatten_cons, append_assoc]
    · cases h

def repoHeader : Text := "# capypkg repos.cfg v1\n".toList

def repoText (r : CapypkgRepo) : Text :=
  r.name ++ '|' :: (r.indexUrl ++ '|' :: (flagDigit r.requireSignature ++ '|' :: flagDigit r.pinned))

theorem repoPieces_text {repos : List CapypkgRepo} (hne : ∀ r ∈ repos, r.name ≠ []) :
    (repos.flatMap repoPieces).flatten = repos.flatMap fun r => repoText r ++ ['\n'] := by
  induction repos with
  | nil => rfl
  | cons r repos ih =>
    have hone : (repoPieces r).flatten = repoText r ++ ['\n'] := by
      simp [repoPieces, hne r mem_cons_self, repoText]
    rw [flatMap_cons, flatten_append, ih fun x hx => hne x (mem_cons_of_mem _ hx), flatMap_cons, hone]

theorem repoSerialize_text {repos : List CapypkgRepo} {text : Text} (hne : ∀ r ∈ repos, r.name ≠ [])
    (h : repoSerialize repos = some text) : text = repoHeader ++ repos.flatMap fun r => repoText r ++ ['\n'] := by
  have htext : text = [] ++ (repoHeader :: repos.flatMap repoPieces).flatten := appendStr_foldlM h
  rw [htext, nil_append, flatten_cons, repoPieces_text hne]

theorem readField_delim {size : Nat} {d : Char} {field : Text} (h : d ∉ field) (hl : field.length < size) (rest : Text) :
    readField size d (field ++ d :: rest) = (field, rest) := by
  obtain ⟨hkey, hrest⟩ := split_at h rest
  rw [readField, hkey, hrest, take_of_length_le (by omega)]

theorem flag_no_delim (flag : Bool) : '|' ∉ flagDigit flag ∧ '\n' ∉ flagDigit flag ∧ (flagDigit flag).length < 8 := by
  cases flag <;> decide

theorem flag_head (flag : Bool) : decide ((flagDigit flag).head? = some '1') = flag := by
  cases flag <;> decide

theorem readField_last (flag : Bool) : readField 8 '\n' (flagDigit flag) = (flagDigit flag, []) := by
  cases flag <;> decide

theorem repoLine_text (h : RepoStored r) (hp : Plain r) : repoLine (repoText r) = some r := by
  obtain ⟨hname, _, hurl⟩ := hp
  have hne : r.indexUrl ≠ [] := by
    intro hn
    have hs := h.https
    rw [hn] at hs
    exact absurd hs (by simp [localStartsWith])
  have hprint : repoStringPrintable r.name = true ∧ repoStringPrintable r.indexUrl = true := ⟨h.name.2, h.indexUrl.2⟩
  unfold repoLine repoText
  rw [readField_delim hname h.name.1]
  dsimp only
  rw [readField_delim hurl h.indexUrl.1]
  dsimp only
  rw [readField_delim (flag_no_delim _).1 (flag_no_delim _).2.2]
  dsimp only
  rw [readField_last, if_neg (not_or.mpr ⟨h.name_ne, hne⟩), hprint.1, hprint.2, h.https]
  simp only [flag_head, Bool.not_true, Bool.or_self, Bool.false_eq_true, if_false]

theorem repoParse_texts {repos : List CapypkgRepo} (h : ∀ r ∈ repos, RepoStored r) (hp : ∀ r ∈ repos, Plain r) {n room : Nat}
    (hn : repos.length < n) (hroom : repos.length ≤ room) :
    repoParseLines n room (repos.flatMap fun r => repoText r ++ ['\n']) = repos := by
  induction repos generalizing n room with
  | nil =>
    cases n with
    | zero => rfl
    | succ n => simp [repoParseLines]
  | cons r repos ih =>
    rw [length_cons] at hn hroom
    have hr := h r mem_cons_self
    have hplain := hp r mem_cons_self
    cases n with
    | zero => exact absurd hn (Nat.not_lt_zero _)
    | succ n =>
      have hnl : '\n' ∉ repoText r := by
        simp only [repoText, mem_append, mem_cons, not_or]
        exact ⟨printable_no_newline hr.name.2, by decide, printable_no_newline hr.indexUrl.2, by decide,
          (flag_no_delim _).2.1, by decide, (flag_no_delim _).2.1⟩
      have hline : takeLine ((repoText r ++ ['\n']) ++ repos.flatMap fun r => repoText r ++ ['\n']) =
          (repoText r, repos.flatMap fun r => repoText r ++ ['\n']) := by
        rw [append_assoc]
        exact takeLine_line hnl _
      have hne : ¬((repoText r ++ ['\n']) ++ (repos.flatMap fun r => repoText r ++ ['\n']) = [] ∨ room = 0) := by
        rintro (hnil | hzero)
        · simp at hnil
        · omega
      have hhead : ¬(repoText r = [] ∨ (repoText r).head? = some '#') := by
        rintro (hnil | hcomment)
        · simp [repoText] at hnil
        · refine hplain.2.1 ?_
          cases hname : r.name with
          | nil => exact absurd hname hr.name_ne
          | cons c name =>
            rw [repoText, hname] at hcomment
            exact hcomment
      rw [flatMap_cons, repoParseLines, if_neg hne, hline]
      simp only [if_neg hhead, repoLine_text hr hplain]
      rw [ih (fun x hx => h x (mem_cons_of_mem _ hx)) (fun x hx => hp x (mem_cons_of_mem _ hx)) (by omega) (by omega)]

theorem takeWhile_no {d : Char} (text : Text) : d ∉ text.takeWhile (· ≠ d) := by
  intro hm
  have hd := List.all_eq_true.mp (all_takeWhile (p := fun c => decide (c ≠ d)) (l := text)) d hm
  simp at hd

theorem readField_no (size : Nat) (d : Char) (text : Text) : d ∉ (readField size d text).1 :=
  fun hm => takeWhile_no text (mem_of_mem_take hm)

theorem readField_fits {size : Nat} (hs : 0 < size) (d : Char) (text : Text) : (readField size d text).1.length < size := by
  rw [readField, length_take]
  omega

theorem repoLine_stored {line : Text} (h : repoLine line = some r) (hc : line.head? ≠ some '#') : RepoStored r ∧ Plain r := by
  unfold repoLine at h
  dsimp only at h
  refine ite_elim h (fun _ h => nomatch h) fun hne h => ?_
  refine ite_elim h (fun _ h => nomatch h) fun hprint h => ?_
  refine ite_elim h (fun _ h => nomatch h) fun hurl h => ?_
  cases h
  simp only [Bool.or_eq_true, Bool.not_eq_true', not_or, Bool.not_eq_false] at hprint hne hurl
  refine ⟨⟨hne.1, ⟨readField_fits (by decide) _ _, hprint.1⟩, ⟨readField_fits (by decide) _ _, hprint.2⟩, hurl⟩,
    readField_no _ _ _, ?_, readField_no _ _ _⟩
  -- the name starts where the line does
  cases line with
  | nil => exact nofun
  | cons c line =>
    by_cases hd : c = '|'
    · exact absurd (by simp [readField, hd]) hne.1
    · intro hhash
      simp only [readField, takeWhile_cons, ne_eq, hd, not_false_eq_true, decide_true, if_true] at hhash
      exact hc hhash

theorem repoParse_stored {n room : Nat} {text : Text} : (∀ r ∈ repoParseLines n room text, RepoStored r ∧ Plain r) ∧
    (repoParseLines n room text).length ≤ room := by
  induction n generalizing room text with
  | zero => exact ⟨fun _ hr => absurd hr not_mem_nil, Nat.zero_le _⟩
  | succ n ih =>
    rw [repoParseLines]
    split
    · exact ⟨fun _ hr => absurd hr not_mem_nil, Nat.zero_le _⟩
    next hroom =>
      dsimp only
      split
      · exact ih
      next hline =>
        split
        next repo hrepo =>
          refine ⟨fun r hr => ?_, ?_⟩
          · cases List.mem_cons.mp hr with
            | inl hr => exact hr ▸ repoLine_stored hrepo fun hc => hline (.inr hc)
            | inr hr => exact ih.1 r hr
          · have hrest := (@ih (room - 1) (takeLine text).2).2
            rw [length_cons]
            omega
        · exact ih

theorem repoParse_repoSerialize {repos : List CapypkgRepo} {text : Text} (h : ∀ r ∈ repos, RepoStored r)
    (hroom : repos.length ≤ capypkgMaxRepos) (hs : repoSerialize repos = some text) :
    repoParse text = repos ↔ ∀ r ∈ repos, Plain r := by
  constructor
  · intro heq r hr
    rw [← heq] at hr
    exact (repoParse_stored.1 r hr).2
  · intro hp
    have ht := repoSerialize_text (fun r hr => (h r hr).name_ne) hs
    have hheader : repoHeader = "# capypkg repos.cfg v1".toList ++ ['\n'] := by decide +kernel
    have hlen : repoHeader.length = 23 := by decide +kernel
    have hcount (l : List CapypkgRepo) : l.length ≤ (l.flatMap fun r => repoText r ++ ['\n']).length := by
      induction l with
      | nil => exact Nat.le_refl _
      | cons r l ih =>
        simp only [flatMap_cons, length_append, length_cons, length_nil]
        omega
    have hall := hcount repos
    rw [ht, repoParse]
    have hfuel : (repoHeader ++ repos.flatMap fun r => repoText r ++ ['\n']).length =
        22 + (repos.flatMap fun r => repoText r ++ ['\n']).length + 1 := by
      rw [length_append, hlen]
      omega
    have hline : takeLine (repoHeader ++ repos.flatMap fun r => repoText r ++ ['\n']) =
        ("# capypkg repos.cfg v1".toList, repos.flatMap fun r => repoText r ++ ['\n']) := by
      rw [hheader, append_assoc]
      exact takeLine_line (by simp) _
    have hne : ¬(repoHeader ++ (repos.flatMap fun r => repoText r ++ ['\n']) = [] ∨ capypkgMaxRepos = 0) := by
      rintro (hnil | hzero)
      · rw [hheader] at hnil
        simp at hnil
      · exact absurd hzero (by decide)
    rw [hfuel, repoParseLines, if_neg hne, hline]
    dsimp only
    rw [if_pos (.inr (by simp))]
    exact repoParse_texts h hp (by omega) hroom

/-! ## Runs -/

structure PkgInv (s : Capypkg) : Prop where
  installed : ∀ e ∈ s.installed, Stored e
  available : ∀ e ∈ s.available, Stored e
  repos : ∀ r ∈ s.repos, RepoStored r
  room : s.repos.length ≤ capypkgMaxRepos

theorem parseEntries_stored {n room : Nat} {text : Text} : ∀ e ∈ parseEntries n room text, Stored e := by
  induction n generalizing room text with
  | zero => exact fun _ he => absurd he not_mem_nil
  | succ n ih =>
    intro e he
    rw [parseEntries] at he
    split at he
    · exact absurd he not_mem_nil
    split at he
    next f rest hf =>
      cases List.mem_cons.mp he with
      | inl he => exact he ▸ parse_stored hf
      | inr he => exact ih e he
    · split at he
      · exact absurd he not_mem_nil
      · exact ih e he

theorem default_stored : RepoStored capypkgDefaultRepo :=
  ⟨by decide, ⟨by decide, by decide⟩, ⟨by decide +kernel, by decide +kernel⟩, by decide +kernel⟩

theorem loadRepos_stored (text : Option Text) :
    (∀ r ∈ loadRepos text, RepoStored r) ∧ (loadRepos text).length ≤ capypkgMaxRepos := by
  have hdefault : (∀ r ∈ [capypkgDefaultRepo], RepoStored r) ∧ [capypkgDefaultRepo].length ≤ capypkgMaxRepos :=
    ⟨fun r hr => List.mem_singleton.mp hr ▸ default_stored, by decide⟩
  cases text with
  | none => exact hdefault
  | some text =>
    rw [loadRepos]
    split
    · exact hdefault
    · exact ⟨fun r hr => (repoParse_stored.1 r hr).1, repoParse_stored.2⟩

theorem init_inv (repos db catalog : Option Text) (files : Text → Option Text) : PkgInv (.init repos db catalog files) := by
  obtain ⟨hrepos, hroom⟩ := loadRepos_stored repos
  refine ⟨?_, ?_, hrepos, hroom⟩
  · cases db with
    | none => exact fun _ he => absurd he not_mem_nil
    | some db => exact parseEntries_stored
  · cases catalog with
    | none => exact fun _ he => absurd he not_mem_nil
    | some catalog => exact parseEntries_stored

theorem PkgInv.same (h : PkgInv s) (hs : SameTables s s') : PkgInv s' :=
  ⟨hs.installed ▸ h.installed, hs.available ▸ h.available, hs.repos ▸ h.repos, hs.repos ▸ h.room⟩

theorem repoSave_same (env : CapypkgEnv) (s : Capypkg) : SameTables s (s.repoSave env).2 := by
  unfold Capypkg.repoSave
  split
  · exact SameTables.refl s
  split
  · exact SameTables.refl s
  next text _ =>
    have h := (makeDir_same env s capypkgDirSystem).trans
      (writeFile_same env (s.makeDir env capypkgDirSystem) capypkgReposFile text)
    split <;> next heq => rw [heq] at h; exact h

theorem repoSaved_same (env : CapypkgEnv) (s : Capypkg) : SameTables s (s.repoSaved env).2 := by
  have h := repoSave_same env s
  unfold Capypkg.repoSaved
  split
  next heq =>
    rw [heq] at h
    exact h
  next => exact h

theorem PkgInv.saved (h : PkgInv s) {repos : List CapypkgRepo} (env : CapypkgEnv) (hr : ∀ r ∈ repos, RepoStored r)
    (hroom : repos.length ≤ capypkgMaxRepos) : PkgInv ({ s with repos := repos }.repoSaved env).2 := by
  have hinv : PkgInv { s with repos := repos } := ⟨h.installed, h.available, hr, hroom⟩
  exact hinv.same (repoSaved_same env _)

theorem PkgInv.repoAdd (h : PkgInv s) (env : CapypkgEnv) (name indexUrl : Text) (requireSignature : Bool) :
    PkgInv (s.repoAdd env name indexUrl requireSignature).2 := by
  unfold Capypkg.repoAdd
  split
  · exact h
  next hne =>
    split
    · exact h
    next hhttps =>
      split
      · exact h
      next hlen =>
        split
        · exact h
        next hprint =>
          simp only [not_or, Nat.not_le, ge_iff_le] at hne hlen
          simp only [Bool.or_eq_true, Bool.not_eq_true', not_or, Bool.not_eq_false] at hprint hhttps
          have hname : localCopy capypkgRepoNameMax name = name := copyField_eq hlen.1
          have hurl : localCopy capypkgUrlMax indexUrl = indexUrl := copyField_eq hlen.2
          split
          next i _ =>
            refine h.saved env ?_ ?_
            · intro r hr
              obtain ⟨j, hj, hr⟩ := List.mem_iff_getElem.mp hr
              rw [getElem_modify] at hr
              have hold := h.repos _ (getElem_mem (by rwa [length_modify] at hj))
              split at hr
              · have hcopied : Fits capypkgUrlMax (localCopy capypkgUrlMax indexUrl) ∧
                    localStartsWith (localCopy capypkgUrlMax indexUrl) "https://".toList = true := by
                  rw [hurl]
                  exact ⟨⟨hlen.2, hprint.2⟩, hhttps⟩
                rw [← hr]
                exact ⟨hold.name_ne, hold.name, hcopied.1, hcopied.2⟩
              · exact hr ▸ hold
            · simpa using h.room
          next =>
            split
            · exact h
            next hroom =>
              refine h.saved env ?_ ?_
              · intro r hr
                cases List.mem_append.mp hr with
                | inl hr => exact h.repos r hr
                | inr hr =>
                  rw [List.mem_singleton.mp hr, hname, hurl]
                  exact ⟨hne.1, ⟨hlen.1, hprint.1⟩, ⟨hlen.2, hprint.2⟩, hhttps⟩
              · simp only [length_append, length_singleton]
                omega

theorem PkgInv.repoRemove (h : PkgInv s) (env : CapypkgEnv) (name : Text) : PkgInv (s.repoRemove env name).2 := by
  unfold Capypkg.repoRemove
  split
  · exact h
  split
  · exact h
  next i _ =>
    split
    · exact h
    · refine h.saved env ?_ ?_
      · exact fun r hr => h.repos r (mem_of_mem_eraseIdx hr)
      · exact Nat.le_trans (length_eraseIdx_le _ _) h.room

theorem takeEntries_stored (hr : RepoStored r) {authenticated : Bool} {n room : Nat} {text : Text} {last : CapypkgResult} :
    ∀ e ∈ (takeEntries r authenticated n room text last).1, Stored e := by
  refine fun e he => takeEntries_all Stored (fun {_ f _} hf => ?_) he
  have hstored := parse_stored hf
  have hg : Stored (if f.sourceRepo = [] then { f with sourceRepo := localCopy capypkgRepoNameMax r.name } else f) := by
    split
    · have hname : localCopy capypkgRepoNameMax r.name = r.name := copyField_eq hr.name.1
      exact ⟨{ hstored.fields with sourceRepo := hname.symm ▸ hr.name }, { hstored.valid with }⟩
    · exact hstored
  exact ⟨{ hg.fields with }, { hg.valid with }⟩

theorem PkgInv.fetchIndex (h : PkgInv s) (env : CapypkgEnv) : PkgInv (s.fetchIndex env).2 := by
  unfold Capypkg.fetchIndex
  split
  · exact h
  split
  · exact h
  split
  · exact h
  · refine ⟨h.installed, fun e he => ?_, h.repos, h.room⟩
    obtain hnone | ⟨repo, hrepo, attempt, room, last, hfrom⟩ := fetchRepos_mem he
    · exact absurd hnone not_mem_nil
    · have hstored := h.repos repo hrepo
      unfold Capypkg.fetchRepo at hfrom
      split at hfrom
      · exact absurd hfrom not_mem_nil
      split at hfrom
      · split at hfrom
        · exact absurd hfrom not_mem_nil
        · exact takeEntries_stored hstored e hfrom
      · exact takeEntries_stored hstored e hfrom

theorem PkgInv.grew (h : PkgInv s) (hg : Grew s s') : PkgInv s' := by
  refine ⟨fun e he => ?_, hg.available ▸ h.available, hg.repos ▸ h.repos, hg.repos ▸ h.room⟩
  cases hg.members e he with
  | inl he => exact h.installed e he
  | inr he => exact h.available e he

theorem PkgInv.remove (h : PkgInv s) (env : CapypkgEnv) (serialize : List CapypkgEntry → Text) (name : Text) :
    PkgInv (s.remove env serialize name).2 := by
  unfold Capypkg.remove
  split
  · exact h
  split
  · exact h
  split
  · exact h
  next i e _ =>
    have h₁ := h.same (removeFile_same env s (buildPayloadTarget e))
    have h₂ : PkgInv { (s.removeFile env (buildPayloadTarget e)).2 with
        installed := (s.removeFile env (buildPayloadTarget e)).2.installed.eraseIdx i } :=
      ⟨fun f hf => h₁.installed f (mem_of_mem_eraseIdx hf), h₁.available, h₁.repos, h₁.room⟩
    have h₃ := h₂.same (dbSave_same env serialize _)
    dsimp only
    split
    next heq =>
      rw [heq] at h₃
      exact h₃
    next => exact h₃

theorem PkgInv.step (h : PkgInv s) (hs : PkgStep s s') : PkgInv s' := by
  cases hs with
  | repoAdd env s name indexUrl requireSignature => exact h.repoAdd env name indexUrl requireSignature
  | repoRemove env s name => exact h.repoRemove env name
  | fetchIndex env s => exact h.fetchIndex env
  | install hi => exact h.grew (install_spec _ _ _ _ _ _ _ hi).1
  | update hu =>
    unfold Capypkg.update at hu
    split at hu
    · cases hu
      exact h
    split at hu
    · cases hu
      exact h
    split at hu
    · cases hu
      exact h
    · exact h.grew (install_spec _ _ _ _ _ _ _ hu).1
    · split at hu
      · cases hu
        exact h
      · exact h.grew (install_spec _ _ _ _ _ _ _ hu).1
  | remove env s name => exact h.remove env dbSerialize name

theorem pkgRun_inv (h : PkgRun s) : PkgInv s := by
  induction h with
  | init repos db catalog files => exact init_inv repos db catalog files
  | step _ hs ih => exact ih.step hs

theorem dbSave_wrote {serialize : List CapypkgEntry → Text} (h : s.dbSave env serialize = (.ok, s')) :
    s'.files capypkgDbFile = some (serialize s.installed) := by
  unfold Capypkg.dbSave at h
  split at h
  · cases h
  split at h
  next t hw =>
    cases h
    unfold Capypkg.writeFile at hw
    split at hw
    · cases hw
    · cases hw
      simp
  · cases h

theorem repoSave_wrote (h : s.repoSave env = (.ok, s')) :
    ∃ text, repoSerialize s.repos = some text ∧ s'.files capypkgReposFile = some text := by
  unfold Capypkg.repoSave at h
  split at h
  · cases h
  split at h
  · cases h
  next text ht =>
    refine ⟨text, ht, ?_⟩
    split at h
    next t hw =>
      cases h
      unfold Capypkg.writeFile at hw
      split at hw
      · cases hw
      · cases hw
        simp
    · cases h

/-- In every state of the package service, a saved table comes back from its file if its text
has room in the buffer, and saved repositories come back if and only if their names and URLs
can be told apart. -/
theorem package_state_persists (h : PkgRun s) (env : CapypkgEnv) :
    (∀ s', s.dbSave env dbSerialize = (.ok, s') → (dbText s.installed).length < capypkgDbBufferBytes →
      ∃ text, s'.files capypkgDbFile = some text ∧ dbParse text = s.installed.map persisted) ∧
    ∀ s', s.repoSave env = (.ok, s') →
      ∃ text, s'.files capypkgReposFile = some text ∧ (repoParse text = s.repos ↔ ∀ r ∈ s.repos, Plain r) := by
  have hinv := pkgRun_inv h
  constructor
  · intro s' hs hroom
    exact ⟨dbSerialize s.installed, dbSave_wrote hs, dbParse_dbSerialize hinv.installed hroom⟩
  · intro s' hs
    obtain ⟨text, ht, hw⟩ := repoSave_wrote hs
    exact ⟨text, hw, repoParse_repoSerialize hinv.repos hinv.room ht⟩

def oneInstalled : Capypkg := .init none (some (dbSerialize [onePackage [] "corp".toList])) none fun _ => none

theorem package_state_persists_one :
    (∃ text, (oneInstalled.dbSave (pkgEnv true []) dbSerialize).2.files capypkgDbFile = some text ∧
      dbParse text = oneInstalled.installed.map persisted) ∧
      oneInstalled.installed = [onePackage [] "corp".toList] := by
  have hsave : oneInstalled.dbSave (pkgEnv true []) dbSerialize =
      (.ok, (oneInstalled.dbSave (pkgEnv true []) dbSerialize).2) := Prod.ext (by decide +kernel) rfl
  exact ⟨(package_state_persists (.init none _ none fun _ => none) (pkgEnv true [])).1 _ hsave
    (by decide +kernel), by decide +kernel⟩

/-- A repository whose name has a `|` in it does not come back. -/
theorem repo_bar_lost :
    let s := (Capypkg.init none none none fun _ => none).repoAdd (pkgEnv true []) "a|b".toList "https://x".toList false
    s.1 = .ok ∧ PkgRun s.2 ∧ (s.2.repoSave (pkgEnv true [])).1 = .ok ∧
      ((s.2.repoSave (pkgEnv true [])).2.files capypkgReposFile).map repoParse ≠ some s.2.repos := by
  intro s
  exact ⟨by decide +kernel, .step (.init none none none _) (.repoAdd _ _ _ _ _), by decide +kernel, by decide +kernel⟩

end CapyOS.Proofs
