import CapyOS.Services.InstallProfile

namespace CapyOS.Proofs
open List

variable {p p' : InstallProfile} {text key value : IniText} {pairs : List (IniText × IniText)}

/-! ## The lines of a profile -/

def profileTextLines (text : IniText) : List IniText := text.splitOnP profileEol

def foldLines (p : InstallProfile) : List IniText → InstallProfileResult × InstallProfile
  | [] => (.ok, p)
  | line :: lines =>
    match profileLine line with
    | .skipped => foldLines p lines
    | .malformed => (.parse, installProfileReset)
    | .pair key value =>
      if !profileValueIsPrintableAscii value then (.denied, installProfileReset)
      else
        match profileApplyKv p key value with
        | (.ok, p) => foldLines p lines
        | (rc, _) => (rc, installProfileReset)

theorem lines_line {line : IniText} (h : ∀ c ∈ line, profileEol c = false) (c : Char) (hc : profileEol c = true)
    (rest : IniText) : profileTextLines (line ++ c :: rest) = line :: profileTextLines rest :=
  splitOnP_append_cons_of_forall_mem h c hc rest

theorem fold_skip_eols (p : InstallProfile) (text : IniText) : foldLines p (profileTextLines (text.dropWhile profileEol)) =
      foldLines p (profileTextLines text) := by
  induction text with
  | nil => rfl
  | cons c text ih =>
    cases hc : profileEol c with
    | false => rw [dropWhile_cons_of_neg (by simp [hc])]
    | true =>
      have hempty := @lines_line [] (by simp) c hc text
      rw [nil_append] at hempty
      rw [dropWhile_cons_of_pos hc, ih, hempty]
      rfl

theorem fold_last (p : InstallProfile) (line : IniText) : foldLines p [line, []] = foldLines p [line] := by
  simp only [foldLines]
  rfl

theorem eol_first {text rest : IniText} {c : Char}
    (h : text.dropWhile (! profileEol ·) = c :: rest) : profileEol c = true := by
  have hne : text.dropWhile (! profileEol ·) ≠ [] := by
    rw [h]
    exact cons_ne_nil c rest
  have hfirst := head_dropWhile_not (! profileEol ·) hne
  simpa only [h, head_cons, Bool.not_eq_false'] using hfirst

theorem parseLines_fold {n : Nat} (h : text.length ≤ n) : profileParseLines n p text = foldLines p (profileTextLines text) := by
  induction n generalizing p text with
  | zero =>
    rw [eq_nil_of_length_eq_zero (Nat.le_zero.mp h)]
    rfl
  | succ n ih =>
    rw [profileParseLines]
    split
    next hempty =>
      subst hempty
      rfl
    next hne =>
      have hparts := @takeWhile_append_dropWhile _ (! profileEol ·) text
      have hline : ∀ c ∈ text.takeWhile (! profileEol ·), profileEol c = false := by
        intro c hc
        simpa using @mem_takeWhile_imp _ (! profileEol ·) text c hc
      have hlines : profileTextLines text = text.takeWhile (! profileEol ·) ::
            profileTextLines ((text.dropWhile (! profileEol ·)).drop 1) ∨
          profileTextLines text = [text.takeWhile (! profileEol ·)] ∧
            text.dropWhile (! profileEol ·) = [] := by
        cases hdrop : text.dropWhile (! profileEol ·) with
        | nil =>
          rw [hdrop, append_nil] at hparts
          refine .inr ⟨?_, rfl⟩
          rw [hparts] at hline ⊢
          exact splitOnP_eq_singleton hline
        | cons c rest =>
          rw [hdrop] at hparts
          have hfirst := eol_first hdrop
          have hsplit := lines_line hline c hfirst rest
          rw [hparts] at hsplit
          exact .inl hsplit
      have hrest : ∀ p, profileParseLines n p ((text.dropWhile
        (! profileEol ·)).dropWhile profileEol) =
          foldLines p (profileTextLines ((text.dropWhile (! profileEol ·)).drop 1)) := by
        intro p
        cases hdrop : text.dropWhile (! profileEol ·) with
        | nil => exact ih (Nat.zero_le n)
        | cons c rest =>
          have hlen := congrArg List.length hparts
          rw [hdrop, length_append, length_cons] at hlen
          have hfirst := eol_first hdrop
          rw [dropWhile_cons_of_pos hfirst]
          have hshort := length_dropWhile_le profileEol rest
          rw [ih (by omega), fold_skip_eols]
          rfl
      -- a text without an end of line is its only line
      have hfold : foldLines p (profileTextLines text) =
          foldLines p (text.takeWhile (! profileEol ·) ::
            profileTextLines ((text.dropWhile (! profileEol ·)).drop 1)) := by
        rcases hlines with hlines | ⟨hlines, hdrop⟩
        · rw [hlines]
        · rw [hlines, hdrop]
          exact (fold_last p _).symm
      rw [hfold, foldLines]
      dsimp only
      generalize profileLine (text.takeWhile (! profileEol ·)) = line
      cases line with
      | skipped => exact hrest p
      | malformed => rfl
      | pair key value =>
        dsimp only
        split
        · rfl
        · generalize profileApplyKv p key value = r
          obtain ⟨rc, q⟩ := r
          cases rc
          case ok => exact hrest q
          all_goals rfl

/-! ## The pairs of a profile -/

/-- The pair of a line, if it is one. -/
def linePair (line : IniText) : Option (IniText × IniText) :=
  match profileLine line with
  | .pair key value => some (key, value)
  | _ => none

/-- The pairs of a text, in order. -/
def profilePairs (text : IniText) : List (IniText × IniText) :=
    (profileTextLines text).filterMap linePair

def setPair (p : InstallProfile) (kv : IniText × IniText) : InstallProfile :=
    (profileApplyKv p kv.1 kv.2).2

def PairOk (kv : IniText × IniText) : Prop :=
  profileValueIsPrintableAscii kv.2 = true ∧ ∀ p, (profileApplyKv p kv.1 kv.2).1 = .ok

theorem apply_result (p p' : InstallProfile) (key value : IniText) :
    (profileApplyKv p key value).1 = (profileApplyKv p' key value).1 := by
  unfold profileApplyKv
  dsimp only
  repeat' split
  all_goals rfl

theorem pairOk_iff (p : InstallProfile) (kv : IniText × IniText) :
    PairOk kv ↔ profileValueIsPrintableAscii kv.2 = true ∧ (profileApplyKv p kv.1 kv.2).1 = .ok := by
  constructor
  · exact fun h => ⟨h.1, h.2 p⟩
  · exact fun h => ⟨h.1, fun p' => (apply_result p' p _ _).trans h.2⟩

def LinesOk (lines : List IniText) : Prop :=
  ∀ line ∈ lines, profileLine line ≠ .malformed ∧ ∀ kv, linePair line = some kv → PairOk kv

theorem fold_ok {lines : List IniText} :
    (LinesOk lines → foldLines p lines = (.ok, (lines.filterMap linePair).foldl setPair p)) ∧
    (¬ LinesOk lines → (foldLines p lines).1 ≠ .ok ∧ (foldLines p lines).2 = installProfileReset) := by
  induction lines generalizing p with
  | nil => exact ⟨fun _ => rfl, fun h => absurd (fun _ hl => nomatch hl) h⟩
  | cons line lines ih =>
    have hcons : LinesOk (line :: lines) ↔
        (profileLine line ≠ .malformed ∧ ∀ kv, linePair line = some kv → PairOk kv) ∧
          LinesOk lines :=
      forall_mem_cons
    rw [hcons, foldLines, filterMap_cons]
    cases hline : profileLine line with
    | skipped =>
      have hpair : linePair line = none := by simp [linePair, hline]
      simpa [hpair] using ih
    | malformed =>
      simp
    | pair key value =>
      have hpair : linePair line = some (key, value) := by simp [linePair, hline]
      simp only [hpair]
      by_cases hok : PairOk (key, value)
      · have happly : profileApplyKv p key value = (.ok, setPair p (key, value)) :=
        Prod.ext (hok.2 p) rfl
        have hprint : ¬ (!profileValueIsPrintableAscii value) = true := by
          have h := hok.1
          simpa using h
        rw [if_neg hprint, happly]
        simpa [hok] using @ih (setPair p (key, value))
      · refine ⟨fun h => absurd (h.1.2 _ rfl) hok, fun _ => ?_⟩
        split
        · exact ⟨by decide, rfl⟩
        next hprint =>
          have hresult : (profileApplyKv p key value).1 ≠ .ok := by
            intro hres
            exact hok ((pairOk_iff p _).mpr ⟨by simpa using hprint, hres⟩)
          generalize profileApplyKv p key value = r at hresult
          obtain ⟨rc, q⟩ := r
          cases rc
          case ok => exact absurd rfl hresult
          all_goals exact ⟨by simp, rfl⟩

def finalProfile (text : IniText) : InstallProfile := (profilePairs text).foldl setPair
    installProfileReset

theorem set_valid (p : InstallProfile) (kv : IniText × IniText) : (setPair p kv).valid = p.valid := by
  unfold setPair profileApplyKv
  dsimp only
  repeat' split
  all_goals rfl

theorem final_valid (text : IniText) : (finalProfile text).valid = true := by
  have hfold : ∀ (pairs : List (IniText × IniText)) (p : InstallProfile), (pairs.foldl setPair p).valid = p.valid := by
    intro pairs
    induction pairs with
    | nil => exact fun _ => rfl
    | cons kv pairs ih => exact fun p => (ih (setPair p kv)).trans (set_valid p kv)
  exact hfold _ _

/-- When a text is accepted, and as what; all else leaves the default. -/
theorem profile_fold (text : IniText) : installProfileParse text =
    match foldLines installProfileReset (profileTextLines text) with
    | (.ok, p) =>
      match profileValidate p with
      | .ok => (.ok, { p with valid := true })
      | rc => (rc, installProfileReset)
    | r => r := by
  rw [installProfileParse, parseLines_fold (Nat.le_refl _)]
  split
  next hempty =>
    subst hempty
    rfl
  next => rfl

theorem parse_iff (text : IniText) : (LinesOk (profileTextLines text) ∧ profileValidate (finalProfile text) = .ok →
      installProfileParse text = (.ok, finalProfile text)) ∧
    (¬ (LinesOk (profileTextLines text) ∧ profileValidate (finalProfile text) = .ok) →
      (installProfileParse text).1 ≠ .ok ∧ (installProfileParse text).2 = installProfileReset) := by
  rw [profile_fold]
  obtain ⟨hgood, hbad⟩ := @fold_ok installProfileReset (profileTextLines text)
  by_cases hlines : LinesOk (profileTextLines text)
  · have hfinal : foldLines installProfileReset (profileTextLines text) = (.ok, finalProfile text) := hgood hlines
    have hvalid : ({ finalProfile text with valid := true } : InstallProfile) = finalProfile text := by
      rw [← final_valid text]
    rw [hfinal]
    dsimp only
    cases hcheck : profileValidate (finalProfile text)
    case ok => exact ⟨fun _ => by rw [← hvalid], fun h => absurd ⟨hlines, rfl⟩ h⟩
    all_goals exact ⟨(fun h => by cases h.2), fun _ => ⟨by simp, rfl⟩⟩
  · obtain ⟨hrc, hreset⟩ := hbad hlines
    generalize foldLines installProfileReset (profileTextLines text) = r at hrc hreset
    obtain ⟨rc, q⟩ := r
    cases rc
    case ok => exact absurd rfl hrc
    all_goals exact ⟨fun h => absurd h.1 hlines, fun _ => ⟨by simp, hreset⟩⟩

/-! ## The fields of a profile -/

def kindOf (value : IniText) : InstallProfileKind :=
  if value = "basic".toList then .basic else if value = "full".toList then .full else .custom

def listOf (value : IniText) : IniText :=
  if installListNames installProfileNameMax (profileCopy installProfileInstallListMax value) = [] then []
  else profileCopy installProfileInstallListMax value

theorem set_taken {kv : IniText × IniText} (h : PairOk kv) (p : InstallProfile) : setPair p kv =
    if kv.1 = "profile".toList then { p with kind := kindOf kv.2 } else if kv.1 = "bootstrap_repo_name".toList then
      { p with repoName := profileCopy installProfileNameMax kv.2 } else if kv.1 = "bootstrap_repo_url".toList then
      { p with repoUrl := profileCopy installProfileUrlMax kv.2 }
    else if kv.1 = "bootstrap_repo_signed".toList then { p with repoSigned := kv.2 = ['1'] }
    else if kv.1 = "bootstrap_install".toList then { p with installList := listOf kv.2 } else p := by
  have hres := h.2 p
  unfold setPair
  unfold profileApplyKv at hres ⊢
  dsimp only at hres ⊢
  split at hres
  next hkey =>
    simp only [hkey, if_true, kindOf]
    split at hres
    next hv => simp [hv]
    next hv =>
      split at hres
      next hv' => simp [hv']
      next hv' =>
        split at hres
        next hv'' => simp [hv'']
        next => exact nomatch hres
  next hprofile =>
  rw [if_neg hprofile, if_neg hprofile]
  split at hres
  next hkey =>
    split at hres
    next => exact nomatch hres
    next hv => simp [hkey, hv]
  next hname =>
  rw [if_neg hname, if_neg hname]
  split at hres
  next hkey =>
    split at hres
    next => exact nomatch hres
    next hv =>
      split at hres
      next => exact nomatch hres
      next hhttps => rw [if_pos hkey, if_pos hkey, if_neg hv, if_neg hhttps]
  next hurl =>
  rw [if_neg hurl, if_neg hurl]
  split at hres
  next hkey =>
    rw [if_pos hkey, if_pos hkey]
    unfold profileParseBool at hres ⊢
    split at hres
    next => exact nomatch hres
    next flag hflag =>
      split at hflag
      next hv =>
        cases hflag
        simp [hv]
      next hv =>
        split at hflag
        next hv' =>
          cases hflag
          simp [hv']
        next => exact nomatch hflag
  next hsigned =>
  rw [if_neg hsigned, if_neg hsigned]
  split at hres
  next hkey =>
    rw [if_pos hkey, if_pos hkey]
    split at hres
    next => exact nomatch hres
    next hnames =>
      rw [if_neg hnames, listOf]
      split <;> rfl
  next hlist => rw [if_neg hlist, if_neg hlist]

/-- The value of the last pair with a key. -/
def lastValue (key : IniText) (pairs : List (IniText × IniText)) : Option IniText :=
  (pairs.reverse.find? fun kv => kv.1 = key).map Prod.snd

theorem last_snoc (key : IniText) (pairs : List (IniText × IniText)) (kv : IniText × IniText) :
    lastValue key (pairs ++ [kv]) = if kv.1 = key then some kv.2 else lastValue key pairs := by
  rw [lastValue, reverse_append, reverse_singleton, singleton_append, List.find?_cons]
  by_cases h : kv.1 = key <;> simp [h, lastValue]

theorem last_mem {value : IniText} (h : lastValue key pairs = some value) : (key, value) ∈ pairs := by
  obtain ⟨kv, hkv, rfl⟩ := Option.map_eq_some_iff.mp h
  have hmem := List.mem_of_find?_eq_some hkv
  have hkey := List.find?_some hkv
  rw [← of_decide_eq_true hkey]
  exact List.mem_reverse.mp hmem

/-- A field that only one key sets comes from its last value. -/
theorem fold_field {α : Type} (get : InstallProfile → α) (key : IniText) (read : IniText → α)
    (hset : ∀ p kv, PairOk kv → get (setPair p kv) = if kv.1 = key then read kv.2 else get p)
    (hpairs : ∀ kv ∈ pairs, PairOk kv) (p : InstallProfile) :
    get (pairs.foldl setPair p) = ((lastValue key pairs).map read).getD (get p) := by
  induction pairs using List.reverseRecOn with
  | nil => rfl
  | append_singleton pairs kv ih =>
    rw [foldl_append, foldl_cons, foldl_nil, hset _ _ (hpairs kv (by simp)), last_snoc,
      ih fun kv hkv => hpairs kv (by simp [hkv])]
    split <;> rfl

theorem final_fields (hpairs : ∀ kv ∈ pairs, PairOk kv) (p : InstallProfile) :
    (pairs.foldl setPair p).kind = ((lastValue "profile".toList pairs).map kindOf).getD p.kind ∧
    (pairs.foldl setPair p).repoName = ((lastValue "bootstrap_repo_name".toList pairs).map
        (profileCopy installProfileNameMax)).getD p.repoName ∧ (pairs.foldl setPair p).repoUrl =
      ((lastValue "bootstrap_repo_url".toList pairs).map (profileCopy installProfileUrlMax)).getD p.repoUrl ∧
    (pairs.foldl setPair p).repoSigned = ((lastValue "bootstrap_repo_signed".toList pairs).map fun v => decide (v =
        ['1'])).getD p.repoSigned ∧ (pairs.foldl setPair p).installList =
      ((lastValue "bootstrap_install".toList pairs).map listOf).getD p.installList := by
  refine ⟨fold_field (·.kind) _ _ ?_ hpairs p, fold_field (·.repoName) _ _ ?_ hpairs p,
    fold_field (·.repoUrl) _ _ ?_ hpairs p, fold_field (·.repoSigned) _ _ ?_ hpairs p,
    fold_field (·.installList) _ _ ?_ hpairs p⟩
  all_goals
    intro p kv h
    rw [set_taken h p]
    repeat' split
  all_goals first | rfl | (rename_i hkey hother; exact absurd (hkey.symm.trans hother) (by decide))

end CapyOS.Proofs
