import CapyOS.Proofs.CapypkgPersist

namespace CapyOS.Proofs
open CapypkgRam Bool
variable {env : CapypkgEnv} {s : CapypkgRam} {t : Capypkg} {name indexUrl : Text} {require : Bool}

theorem repo_at {i : Nat} (h : t.repos.findIdx? (fun r => r.name = name) = some i) (hne : name ≠ []) :
    ∃ hi : i < t.repos.length, t.findRepo name = some t.repos[i] := by
  obtain ⟨hi, hhere, hbefore⟩ := List.findIdx?_eq_some_iff_getElem.mp h
  refine ⟨hi, ?_⟩
  rw [Capypkg.findRepo, if_neg hne]
  exact List.find?_eq_some_iff_getElem.mpr ⟨hhere, i, hi, rfl, by simpa using hbefore⟩

theorem repo_missing (h : t.repos.findIdx? (fun r => r.name = name) = none) : t.findRepo name = none := by
  rw [Capypkg.findRepo]
  split
  · rfl
  · rw [List.find?_eq_none]
    simpa using List.findIdx?_eq_none_iff.mp h

theorem modify_same {repos : List CapypkgRepo} {f : CapypkgRepo → CapypkgRepo} {i : Nat} (hi : i < repos.length) :
    repos.modify i f = repos ↔ f repos[i] = repos[i] := by
  constructor
  · intro h
    have hat := congrArg (fun l : List CapypkgRepo => l[i]?) h
    simpa [hi] using hat
  · intro h
    refine List.ext_getElem (by simp) fun j hj hj' => ?_
    rw [List.getElem_modify]
    split
    next heq =>
      subst heq
      exact h
    next => rfl

theorem fetch_error (h : (s.fetchIndex env).1 ≠ .ok) : ((s.fetchIndex env).2.tables.available = s.tables.available ∧
      (s.fetchIndex env).2.catalogFresh = s.catalogFresh) ↔
    s.fetchRefused env = true ∨ s.tables.available = [] ∧ s.catalogFresh = false := by
  cases hrefused : s.fetchRefused env with
  | true =>
    have hsame : (Capypkg.fetchIndex env s.tables).2 = s.tables := by
      simp only [fetchRefused, or_eq_true, not_eq_true', decide_eq_true_eq] at hrefused
      rw [Capypkg.fetchIndex]
      rcases hrefused with (hinit | hrepos) | hfetcher
      · simp [hinit]
      · split
        · rfl
        · rfl
      · split
        · rfl
        · split
          · rfl
          · simp [hfetcher]
    simp [CapypkgRam.fetchIndex, hrefused, hsame]
  | false =>
    simp only [fetchRefused, or_eq_false_iff, not_eq_false', decide_eq_false_iff_not] at hrefused
    have hfetch : Capypkg.fetchIndex env s.tables =
        (if (Capypkg.fetchRepos env 0 s.tables.repos [] .fetch).1 = [] then
          (Capypkg.fetchRepos env 0 s.tables.repos [] .fetch).2 else .ok,
        { s.tables with available := (Capypkg.fetchRepos env 0 s.tables.repos [] .fetch).1 }) := by
      rw [Capypkg.fetchIndex]
      simp [hrefused]
    have hrefused : s.fetchRefused env = false := by simp [fetchRefused, hrefused]
    have hnone : (Capypkg.fetchRepos env 0 s.tables.repos [] .fetch).1 = [] := by
      refine Decidable.byContradiction fun hsome => h ?_
      simp [CapypkgRam.fetchIndex, hfetch, hsome]
    simp only [CapypkgRam.fetchIndex, hfetch, hnone, hrefused, List.isEmpty_nil, Bool.not_true]
    constructor
    · exact fun hsame => .inr ⟨hsame.1.symm, hsame.2.symm⟩
    · rintro (hno | hempty)
      · exact nomatch hno
      · exact ⟨hempty.1.symm, hempty.2.symm⟩

theorem saved_repos (repos : List CapypkgRepo) : ({ t with repos := repos }.repoSaved env).2.repos = repos :=
  (repoSaved_same env { t with repos := repos }).repos

theorem add_cases (hadd : s.addRefused name indexUrl = false) :
    (∃ i, ∃ hi : i < s.tables.repos.length, s.tables.findRepo name = some s.tables.repos[i] ∧
      (s.tables.repoAdd env name indexUrl require).2.repos =
        s.tables.repos.modify i fun r => { r with indexUrl := indexUrl, requireSignature := require }) ∨
    s.tables.findRepo name = none ∧ (s.tables.repoAdd env name indexUrl require).2.repos =
        s.tables.repos ++ [⟨name, indexUrl, false, require⟩] := by
  simp only [addRefused, or_eq_false_iff, and_eq_false_iff, decide_eq_false_iff_not, ge_iff_le,
    Nat.not_le, not_eq_false'] at hadd
  obtain ⟨⟨⟨⟨⟨⟨⟨hname, hurl⟩, hhttps⟩, hnameLen⟩, hurlLen⟩, hnamePrint⟩, hurlPrint⟩, hroom⟩ := hadd
  have hnameCopy : localCopy capypkgRepoNameMax name = name := copyField_eq hnameLen
  have hurlCopy : localCopy capypkgUrlMax indexUrl = indexUrl := copyField_eq hurlLen
  rw [Capypkg.repoAdd, if_neg (by simp [hname, hurl]), if_neg (by rw [hhttps]; decide),
    if_neg (by omega), if_neg (by simp [hnamePrint, hurlPrint])]
  split
  next i hi =>
    obtain ⟨hlt, hfind⟩ := repo_at hi hname
    refine .inl ⟨i, hlt, hfind, ?_⟩
    rw [hurlCopy]
    exact saved_repos _
  next hnone =>
    have hfind := repo_missing hnone
    refine .inr ⟨hfind, ?_⟩
    rw [hfind] at hroom
    have hfits : ¬ s.tables.repos.length ≥ capypkgMaxRepos := by simpa using hroom
    rw [if_neg hfits, hnameCopy, hurlCopy]
    exact saved_repos _

theorem add_refused (hadd : s.addRefused name indexUrl = true) : (s.tables.repoAdd env name indexUrl require).2 = s.tables := by
  simp only [addRefused, or_eq_true, and_eq_true, not_eq_true', decide_eq_true_eq, ge_iff_le] at hadd
  rw [Capypkg.repoAdd]
  split
  · rfl
  next hargs =>
    split
    · rfl
    next hhttps =>
      split
      · rfl
      next hlen =>
        split
        · rfl
        next hprint =>
          simp only [not_eq_true', or_eq_true] at hhttps hprint
          have hroom : (s.tables.findRepo name).isNone = true ∧ capypkgMaxRepos ≤ s.tables.repos.length := by
            simp only [ge_iff_le] at hlen
            tauto
          split
          next i hi =>
            obtain ⟨hlt, hfind⟩ := repo_at hi (not_or.mp hargs).1
            rw [hfind] at hroom
            exact nomatch hroom.1
          next => rw [if_pos hroom.2]

theorem add_error : ((s.repoAdd env name indexUrl require).2.tables.repos = s.tables.repos ∧
      (s.repoAdd env name indexUrl require).2.anyRepoSigned = s.anyRepoSigned) ↔ s.addRefused name indexUrl = true ∨
    (∃ r, s.tables.findRepo name = some r ∧ r.indexUrl = indexUrl ∧ r.requireSignature = require) ∧
      s.anyRepoSigned = rebuildSignedFlag s.tables.repos := by
  cases hadd : s.addRefused name indexUrl with
  | true => simp [CapypkgRam.repoAdd, hadd, add_refused hadd]
  | false =>
    rcases @add_cases env s name indexUrl require hadd with ⟨i, hi, hfind, hrepos⟩ | ⟨hfind, hrepos⟩
    · have hflag : (s.repoAdd env name indexUrl require).2.anyRepoSigned =
          rebuildSignedFlag (s.tables.repoAdd env name indexUrl require).2.repos := by
        simp [CapypkgRam.repoAdd, hadd, hfind]
      have hsame := @modify_same s.tables.repos
        (fun r => { r with indexUrl := indexUrl, requireSignature := require }) i hi
      have hedit : ({ s.tables.repos[i] with indexUrl := indexUrl, requireSignature := require } : CapypkgRepo) =
          s.tables.repos[i] ↔ s.tables.repos[i].indexUrl = indexUrl ∧ s.tables.repos[i].requireSignature = require := by
        generalize s.tables.repos[i] = r
        obtain ⟨a, b, c, d⟩ := r
        simp only [CapypkgRepo.mk.injEq]
        tauto
      have htable : (s.repoAdd env name indexUrl require).2.tables.repos = s.tables.repos ↔
          s.tables.repos[i].indexUrl = indexUrl ∧ s.tables.repos[i].requireSignature = require := by
        rw [← hedit, ← hsame, ← hrepos]
        rfl
      rw [hflag, htable, hfind]
      constructor
      · rintro ⟨hentry, hsigned⟩
        refine .inr ⟨⟨_, rfl, hentry⟩, ?_⟩
        rw [← hsigned, hrepos, hsame.mpr (hedit.mpr hentry)]
      · rintro (hno | ⟨⟨r, hr, hentry⟩, hsigned⟩)
        · exact nomatch hno
        · cases hr
          refine ⟨hentry, ?_⟩
          rw [hrepos, hsame.mpr (hedit.mpr hentry), hsigned]
    · have hgrown : (s.repoAdd env name indexUrl require).2.tables.repos ≠ s.tables.repos := by
        intro hsame
        have hlen := congrArg List.length (hrepos.symm.trans hsame)
        simp at hlen
      simp [hgrown, hfind]

theorem remove_refused (h : s.removeRefused name = true) : (s.tables.repoRemove env name).2 = s.tables := by
  rw [Capypkg.repoRemove]
  split
  · rfl
  next hname =>
    split
    · rfl
    next i hi =>
      obtain ⟨hlt, hfind⟩ := repo_at hi hname
      rw [removeRefused, hfind] at h
      rw [if_pos (by simpa [hlt] using h)]

theorem remove_error : ((s.repoRemove env name).2.tables.repos = s.tables.repos ∧
      (s.repoRemove env name).2.anyRepoSigned = s.anyRepoSigned) ↔ s.removeRefused name = true := by
  cases hremove : s.removeRefused name with
  | true => simp [CapypkgRam.repoRemove, hremove, remove_refused hremove]
  | false =>
    have hshrunk : (s.repoRemove env name).2.tables.repos ≠ s.tables.repos := by
      intro hsame
      have hsame : (s.tables.repoRemove env name).2.repos = s.tables.repos := hsame
      rw [removeRefused] at hremove
      have hname : name ≠ [] := by
        rintro rfl
        simp [Capypkg.findRepo] at hremove
      rw [Capypkg.repoRemove, if_neg hname] at hsame
      split at hsame
      next hnone =>
        rw [repo_missing hnone] at hremove
        cases hremove
      next i hi =>
        obtain ⟨hlt, hfind⟩ := repo_at hi hname
        rw [hfind] at hremove
        have hunpinned : ¬ (s.tables.repos[i]?.any fun r => r.pinned) = true := by
          simpa [hlt] using hremove
        rw [if_neg hunpinned, saved_repos] at hsame
        have hlen := congrArg List.length hsame
        rw [List.length_eraseIdx_of_lt hlt] at hlen
        omega
    simp [hshrunk]

/-- The error calls that leave everything as it was: those that are refused by the checks
in front of the first change, and those whose change is none. -/
theorem errors_unchanged (env : CapypkgEnv) (s : CapypkgRam) :
    ((s.fetchIndex env).1 ≠ .ok →
      (((s.fetchIndex env).2.tables.available = s.tables.available ∧
        (s.fetchIndex env).2.catalogFresh = s.catalogFresh) ↔
      s.fetchRefused env = true ∨ s.tables.available = [] ∧ s.catalogFresh = false)) ∧
    (∀ name indexUrl require, (s.repoAdd env name indexUrl require).1 ≠ .ok →
      (((s.repoAdd env name indexUrl require).2.tables.repos = s.tables.repos ∧
        (s.repoAdd env name indexUrl require).2.anyRepoSigned = s.anyRepoSigned) ↔
      s.addRefused name indexUrl = true ∨
      (∃ r, s.tables.findRepo name = some r ∧ r.indexUrl = indexUrl ∧ r.requireSignature = require) ∧
        s.anyRepoSigned = rebuildSignedFlag s.tables.repos)) ∧
    (∀ name, (s.repoRemove env name).1 ≠ .ok →
      (((s.repoRemove env name).2.tables.repos = s.tables.repos ∧
        (s.repoRemove env name).2.anyRepoSigned = s.anyRepoSigned) ↔ s.removeRefused name = true)) :=
  ⟨fetch_error, fun _ _ _ _ => add_error, fun _ _ => remove_error⟩

def offlineEnv : CapypkgEnv := { pkgEnv true [] with text := fun _ _ => none }

def freshRam : CapypkgRam := ⟨corpState [onePackage [] "corp".toList], true, true⟩

/-- The failed fetch leaves an empty catalog. -/
theorem failed_fetch_clears : (freshRam.fetchIndex offlineEnv).1 = .fetch ∧
    freshRam.tables.available = [onePackage [] "corp".toList] ∧
    (freshRam.fetchIndex offlineEnv).2.tables.available = [] ∧
    (freshRam.fetchIndex offlineEnv).2.catalogFresh = false ∧
    ¬ ((freshRam.fetchIndex offlineEnv).1 ≠ .ok →
      (freshRam.fetchIndex offlineEnv).2.tables.available = freshRam.tables.available) := by
  have hfetch : (freshRam.fetchIndex offlineEnv).1 = .fetch := by decide
  have hcleared : (freshRam.fetchIndex offlineEnv).2.tables.available = [] := by decide
  refine ⟨hfetch, rfl, hcleared, by decide, fun h => ?_⟩
  have hsame := h (by rw [hfetch]; decide)
  exact absurd (hcleared.symm.trans hsame) (nomatch ·)

end CapyOS.Proofs
