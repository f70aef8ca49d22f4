import CapyOS.Proofs.InstallProfile

namespace CapyOS.Proofs
open List

variable {p p' : InstallProfile} {text key value : IniText} {pairs : List (IniText × IniText)}

/-! ## Blanks at the end of a value -/

theorem trim_starts (value : IniText) : profileTrim value <+: value :=
    rdropWhile_prefix profileBlank value

theorem trim_same_iff : profileTrim value = value ↔ ∀ c, value.getLast? = some c → profileBlank c = false := by
  have hiff : profileTrim value = value ↔ ∀ hl : value ≠ [], ¬ profileBlank (value.getLast hl) =
    true :=
    rdropWhile_eq_self_iff
  rw [hiff]
  constructor
  · intro h c hc
    have hne : value ≠ [] := by
      rintro rfl
      exact nomatch hc
    rw [List.getLast?_eq_some_getLast hne] at hc
    simpa [← Option.some.inj hc] using h hne
  · intro h hne
    simpa using h _ (List.getLast?_eq_some_getLast hne)

/-- A value that is cut to a field and kept there was not trimmed. -/
theorem trim_cut_same {n : Nat} (hlen : value.length ≤ n) : (profileTrim value).take n = value ↔ profileTrim value = value := by
  have hshort := (trim_starts value).length_le
  rw [take_of_length_le (by omega)]

theorem printable_blank {c : Char} (hprint : profileValueIsPrintableAscii value = true) (hc : c ∈ value) :
    profileBlank c = true ↔ c = ' ' := by
  have hrange := List.all_eq_true.mp hprint c hc
  simp only [profileBlank, Bool.or_eq_true, decide_eq_true_eq]
  constructor
  · rintro (rfl | rfl)
    · rfl
    · exact absurd hrange (by decide)
  · exact .inl

theorem trim_same_space (hprint : profileValueIsPrintableAscii value = true) :
    profileTrim value = value ↔ value.getLast? ≠ some ' ' := by
  rw [trim_same_iff]
  constructor
  · intro h hlast
    exact absurd (h ' ' hlast) (by decide)
  · intro h c hc
    refine Bool.eq_false_iff.mpr fun hblank => h ?_
    rw [(printable_blank hprint (mem_of_getLast? hc)).mp hblank] at hc
    exact hc

theorem printable_start {pre : IniText} (hp : pre <+: value) (h : profileValueIsPrintableAscii value = true) :
    profileValueIsPrintableAscii pre = true :=
  List.all_eq_true.mpr fun c hc => List.all_eq_true.mp h c (hp.subset hc)

/-! ## The text of a profile -/

def fieldIfAny (key value : IniText) : List (IniText × IniText) := if value = [] then [] else [(key,
    value)]

def profileFields (p : InstallProfile) : List (IniText × IniText) :=
  [("profile".toList, installProfileKindLabel p.kind)] ++ fieldIfAny "bootstrap_repo_name".toList
    p.repoName ++
  fieldIfAny "bootstrap_repo_url".toList p.repoUrl ++
  [("bootstrap_repo_signed".toList, if p.repoSigned then ['1'] else ['0'])] ++
  fieldIfAny "bootstrap_install".toList p.installList

def fieldLineOf (kv : IniText × IniText) : IniText := kv.1 ++ '=' :: kv.2

def profileText (p : InstallProfile) : IniText := (profileFields p).flatMap fun kv => fieldLineOf kv
    ++ ['\n']

theorem fieldPieces_flatten (key value : IniText) : (profileFieldPieces (key ++ ['=']) value).flatten =
      (fieldIfAny key value).flatMap fun kv => fieldLineOf kv ++ ['\n'] := by
  rw [profileFieldPieces, fieldIfAny]
  split <;> simp [fieldLineOf]

theorem pieces_text (p : InstallProfile) : (profilePieces p).flatten = profileText p := by
  have hname := fieldPieces_flatten "bootstrap_repo_name".toList p.repoName
  have hurl := fieldPieces_flatten "bootstrap_repo_url".toList p.repoUrl
  have hlist := fieldPieces_flatten "bootstrap_install".toList p.installList
  simp only [profilePieces, profileText, profileFields, flatten_append, flatMap_append]
  rw [← hname, ← hurl, ← hlist]
  simp [fieldLineOf]

theorem append_fits {size : Nat} {pieces : List IniText} {buf : IniText} (h : buf.length + pieces.flatten.length < size) :
    pieces.foldlM (profileFormatAppend size) buf = some (buf ++ pieces.flatten) := by
  induction pieces generalizing buf with
  | nil => simp
  | cons piece pieces ih =>
    rw [flatten_cons, length_append] at h
    have hone : profileFormatAppend size buf piece = some (buf ++ piece) := by
      rw [profileFormatAppend, if_pos (.inl (by omega))]
    rw [foldlM_cons, hone, flatten_cons, ← append_assoc]
    exact ih (by rw [length_append]; omega)

theorem format_text {size : Nat} (hname : profileValueIsPrintableAscii p.repoName = true)
    (hurl : profileValueIsPrintableAscii p.repoUrl = true) (hlist : profileValueIsPrintableAscii p.installList = true)
    (h : (profileText p).length < size) : installProfileFormat size p = (.ok, profileText p) := by
  have hfits := @append_fits size (profilePieces p) [] (by rw [pieces_text, length_nil]; omega)
  rw [installProfileFormat, if_neg (by omega), if_neg (by simp [hname, hurl, hlist]), hfits, pieces_text]
  rfl

def KeyPlain (key : IniText) : Prop :=
  (∀ c ∈ key, c ≠ '=' ∧ profileEol c = false) ∧ ∃ c rest, key = c :: rest ∧ profileBlank c = false ∧
    c ≠ '#'

theorem line_written {key value : IniText} (hkey : KeyPlain key) :
    profileLine (fieldLineOf (key, value)) = .pair key (profileTrim value) := by
  obtain ⟨hplain, c, rest, rfl, hblank, hhash⟩ := hkey
  have hrest : (fieldLineOf (c :: rest, value)).dropWhile profileBlank = fieldLineOf (c :: rest, value) :=
    dropWhile_cons_of_neg (by simp [hblank])
  have hne : ∀ d ∈ c :: rest, d ≠ '=' := fun d hd => (hplain d hd).1
  have htake : (fieldLineOf (c :: rest, value)).takeWhile (· ≠ '=') = c :: rest := by
    rw [fieldLineOf, takeWhile_append_of_pos (by simpa using hne)]
    simp
  have hdrop : (fieldLineOf (c :: rest, value)).dropWhile (· ≠ '=') = '=' :: value := by
    rw [fieldLineOf, dropWhile_append_of_pos (by simpa using hne)]
    simp
  have hequals : '=' ∈ fieldLineOf (c :: rest, value) := by simp [fieldLineOf]
  rw [profileLine, hrest, if_neg (by simp [fieldLineOf, hhash]), if_neg (by simpa using hequals), htake, hdrop]
  rfl

theorem lines_written {lines : List IniText} (h : ∀ line ∈ lines, ∀ c ∈ line, profileEol c = false) :
    profileTextLines (lines.flatMap (· ++ ['\n'])) = lines ++ [[]] := by
  induction lines with
  | nil => rfl
  | cons line lines ih =>
    have hline := lines_line (h line mem_cons_self) '\n' rfl (lines.flatMap (· ++ ['\n']))
    rw [flatMap_cons, append_assoc, singleton_append, hline, ih fun l hl => h l (mem_cons_of_mem _ hl)]
    rfl

theorem printable_eol (h : profileValueIsPrintableAscii value = true) : ∀ c ∈ value, profileEol c = false := by
  intro c hc
  have hrange := List.all_eq_true.mp h c hc
  refine Bool.eq_false_iff.mpr fun heol => ?_
  simp only [profileEol, Bool.or_eq_true, decide_eq_true_eq] at heol
  rcases heol with rfl | rfl <;> exact absurd hrange (by decide)

theorem fields_plain {kv : IniText × IniText} (h : kv ∈ profileFields p) : KeyPlain kv.1 := by
  have hkeys : kv.1 ∈ ["profile".toList, "bootstrap_repo_name".toList, "bootstrap_repo_url".toList,
      "bootstrap_repo_signed".toList, "bootstrap_install".toList] := by
    simp only [profileFields, fieldIfAny, mem_append, mem_singleton] at h
    rcases h with (((h | h) | h) | h) | h
    · simp [h]
    · split at h <;> simp_all
    · split at h <;> simp_all
    · simp [h]
    · split at h <;> simp_all
  have hplain : (["profile".toList, "bootstrap_repo_name".toList, "bootstrap_repo_url".toList,
      "bootstrap_repo_signed".toList, "bootstrap_install".toList].all fun key =>
      key.all (fun c => c != '=' && !profileEol c) &&
        key.head?.any (fun c => !profileBlank c && c != '#')) = true := rfl
  have hkey := List.all_eq_true.mp hplain _ hkeys
  rw [Bool.and_eq_true, all_eq_true] at hkey
  obtain ⟨hchars, hhead⟩ := hkey
  refine ⟨fun c hc => by simpa using hchars c hc, ?_⟩
  cases hkv : kv.1 with
  | nil =>
    rw [hkv] at hhead
    exact nomatch hhead
  | cons c rest =>
    rw [hkv] at hhead
    have hc : profileBlank c = false ∧ c ≠ '#' := by simpa using hhead
    exact ⟨c, rest, rfl, hc⟩

theorem pairs_written (hprint : ∀ kv ∈ profileFields p, profileValueIsPrintableAscii kv.2 = true) :
    profilePairs (profileText p) = (profileFields p).map (fun kv => (kv.1, profileTrim kv.2)) ∧
    (LinesOk (profileTextLines (profileText p)) ↔ ∀ kv ∈ profileFields p, PairOk (kv.1, profileTrim kv.2)) := by
  have hlines : profileTextLines (profileText p) = (profileFields p).map fieldLineOf ++ [[]] := by
    have hwritten := @lines_written ((profileFields p).map fieldLineOf) (by
      intro line hline c hc
      obtain ⟨kv, hkv, rfl⟩ := List.mem_map.mp hline
      rcases List.mem_append.mp hc with hc | hc
      · exact ((fields_plain hkv).1 c hc).2
      · rcases List.mem_cons.mp hc with rfl | hc
        · decide
        · exact printable_eol (hprint kv hkv) c hc)
    rw [← hwritten, profileText, flatMap_map]
  have hline : ∀ kv ∈ profileFields p, profileLine (fieldLineOf kv) =
    .pair kv.1 (profileTrim kv.2) :=
    fun kv hkv => line_written (fields_plain hkv)
  constructor
  · have hempty : [([] : IniText)].filterMap linePair = [] := by decide
    rw [profilePairs, hlines, filterMap_append, hempty, append_nil, filterMap_map]
    refine List.filterMap_eq_map_iff_forall_eq_some.mpr fun kv hkv => ?_
    simp [linePair, hline kv hkv]
  · rw [hlines]
    constructor
    · intro h kv hkv
      refine (h (fieldLineOf kv) (by simp only [mem_append, mem_map]; exact .inl ⟨kv, hkv, rfl⟩)).2 _ ?_
      simp [linePair, hline kv hkv]
    · intro h line hmem
      rcases List.mem_append.mp hmem with hmem | hmem
      · obtain ⟨kv, hkv, rfl⟩ := List.mem_map.mp hmem
        rw [hline kv hkv]
        refine ⟨by simp, fun pair hpair => ?_⟩
        simp only [linePair, hline kv hkv, Option.some.injEq] at hpair
        exact hpair ▸ h kv hkv
      · rw [List.mem_singleton.mp hmem]
        exact ⟨by decide, fun kv hkv => absurd hkv (by simp [linePair, profileLine])⟩

/-! ## Both ways -/

theorem pair_name : PairOk ("bootstrap_repo_name".toList, value) ↔
    profileValueIsPrintableAscii value = true ∧ profileNameAlphabetOk value = true := by
  rw [pairOk_iff installProfileReset]
  dsimp only
  rw [profileApplyKv, if_neg (by decide), if_pos rfl]
  cases profileNameAlphabetOk value <;> simp

theorem pair_url : PairOk ("bootstrap_repo_url".toList, value) ↔ profileValueIsPrintableAscii value = true ∧ value ≠ [] ∧
      profileHttps.isPrefixOf (profileCopy installProfileUrlMax value) = true := by
  rw [pairOk_iff installProfileReset]
  dsimp only
  rw [profileApplyKv, if_neg (by decide), if_neg (by decide), if_pos rfl]
  by_cases hne : value = []
  · simp [hne]
  · cases hhttps : profileHttps.isPrefixOf (profileCopy installProfileUrlMax value) <;> simp [hne, hhttps]

theorem pair_list : PairOk ("bootstrap_install".toList, value) ↔ profileValueIsPrintableAscii value = true ∧
      (installListNames installProfileNameMax (profileCopy installProfileInstallListMax value)).all
        profileNameAlphabetOk = true := by
  rw [pairOk_iff installProfileReset]
  dsimp only
  rw [profileApplyKv, if_neg (by decide), if_neg (by decide), if_neg (by decide), if_neg (by decide), if_pos rfl]
  dsimp only
  split
  next hbad =>
    simp only [Bool.not_eq_true'] at hbad
    simp [hbad]
  next hgood =>
    simp only [Bool.not_eq_true', Bool.not_eq_false] at hgood
    split <;> simp [hgood]

theorem pairs_ok (h : LinesOk (profileTextLines text)) : ∀ kv ∈ profilePairs text, PairOk kv := by
  intro kv hkv
  obtain ⟨line, hline, hpair⟩ := List.mem_filterMap.mp hkv
  exact (h line hline).2 kv hpair

theorem name_left (h : profileNameAlphabetOk value = true) : profileCopy installProfileNameMax value ≠ [] ∧
    (∀ c ∈ profileCopy installProfileNameMax value, profileAllowed c = true) ∧
    profileTrim (profileCopy installProfileNameMax value) = profileCopy installProfileNameMax value := by
  simp only [profileNameAlphabetOk, Bool.and_eq_true, Bool.not_eq_true', isEmpty_eq_false_iff] at h
  have hall : ∀ c ∈ profileCopy installProfileNameMax value, profileAllowed c = true :=
    fun c hc => List.all_eq_true.mp h.1.2 c (mem_of_mem_take hc)
  refine ⟨?_, hall, ?_⟩
  · rw [profileCopy, Ne, take_eq_nil_iff]
    exact fun hnil => hnil.elim (fun hzero => absurd hzero (by decide)) h.1.1
  · rw [trim_same_iff]
    intro c hc
    have hallowed := hall c (mem_of_getLast? hc)
    refine Bool.eq_false_iff.mpr fun hblank => ?_
    simp only [profileBlank, Bool.or_eq_true, decide_eq_true_eq] at hblank
    rcases hblank with rfl | rfl <;> exact absurd hallowed (by decide)

theorem allowed_printable (h : ∀ c ∈ value, profileAllowed c = true) : profileValueIsPrintableAscii value = true := by
  refine List.all_eq_true.mpr fun c hc => ?_
  have hrange : profileAllowed c = true → 0x20 ≤ c.toNat ∧ c.toNat ≤ 0x7E := by
    intro hc
    simp only [profileAllowed, Bool.or_eq_true, Bool.and_eq_true, decide_eq_true_eq] at hc
    rcases hc with ((((⟨hlo, hhi⟩ | ⟨hlo, hhi⟩) | ⟨hlo, hhi⟩) | rfl) | rfl) | rfl
    · have hlo : 97 ≤ c.toNat := hlo
      have hhi : c.toNat ≤ 122 := hhi
      omega
    · have hlo : 65 ≤ c.toNat := hlo
      have hhi : c.toNat ≤ 90 := hhi
      omega
    · have hlo : 48 ≤ c.toNat := hlo
      have hhi : c.toNat ≤ 57 := hhi
      omega
    · decide
    · decide
    · decide
  have hbounds := hrange (h c hc)
  simp [hbounds.1, hbounds.2]

structure ProfileStored (p : InstallProfile) : Prop where
  name : p.repoName = [] ∨ ∃ v, profileNameAlphabetOk v = true ∧ p.repoName =
    profileCopy installProfileNameMax v
  url : p.repoUrl = [] ∨ profileValueIsPrintableAscii p.repoUrl = true ∧
    profileHttps.isPrefixOf p.repoUrl = true
  urlLen : p.repoUrl.length ≤ installProfileUrlMax - 1
  list : p.installList = [] ∨ profileValueIsPrintableAscii p.installList = true ∧
    installListNames installProfileNameMax p.installList ≠ [] ∧
    (installListNames installProfileNameMax p.installList).all profileNameAlphabetOk = true
  listLen : p.installList.length ≤ installProfileInstallListMax - 1
  valid : p.valid = true

theorem copy_length (size : Nat) (v : IniText) : (profileCopy size v).length ≤ size - 1 := by
  rw [profileCopy, length_take]
  exact Nat.min_le_left _ _

theorem final_stored (h : LinesOk (profileTextLines text)) : ProfileStored (finalProfile text) := by
  obtain ⟨-, hname, hurl, -, hlist⟩ := final_fields (pairs_ok h) installProfileReset
  have hempty : ([] : IniText).length ≤ installProfileUrlMax - 1 := Nat.zero_le _
  refine ⟨?_, ?_, ?_, ?_, ?_, final_valid text⟩
  · rw [finalProfile, hname]
    cases hlast : lastValue "bootstrap_repo_name".toList (profilePairs text) with
    | none => exact .inl rfl
    | some v => exact .inr ⟨v, (pair_name.mp (pairs_ok h _ (last_mem hlast))).2, rfl⟩
  · rw [finalProfile, hurl]
    cases hlast : lastValue "bootstrap_repo_url".toList (profilePairs text) with
    | none => exact .inl rfl
    | some v =>
      obtain ⟨hprint, -, hhttps⟩ := pair_url.mp (pairs_ok h _ (last_mem hlast))
      exact .inr ⟨printable_start (List.take_prefix _ _) hprint, hhttps⟩
  · rw [finalProfile, hurl]
    cases lastValue "bootstrap_repo_url".toList (profilePairs text) with
    | none => exact hempty
    | some v => exact copy_length _ v
  · rw [finalProfile, hlist]
    cases hlast : lastValue "bootstrap_install".toList (profilePairs text) with
    | none => exact .inl rfl
    | some v =>
      obtain ⟨hprint, hnames⟩ := pair_list.mp (pairs_ok h _ (last_mem hlast))
      rw [Option.map_some, Option.getD_some, listOf]
      split
      next => exact .inl rfl
      next hne => exact .inr ⟨printable_start (List.take_prefix _ _) hprint, hne, hnames⟩
  · rw [finalProfile, hlist]
    cases lastValue "bootstrap_install".toList (profilePairs text) with
    | none => exact Nat.zero_le _
    | some v =>
      rw [Option.map_some, Option.getD_some, listOf]
      split
      · exact Nat.zero_le _
      · exact copy_length _ v

theorem stored_printable (h : ProfileStored p) : profileValueIsPrintableAscii p.repoName = true ∧
    profileValueIsPrintableAscii p.repoUrl = true ∧ profileValueIsPrintableAscii p.installList = true := by
  refine ⟨?_, ?_, ?_⟩
  · rcases h.name with hnil | ⟨v, hv, heq⟩
    · rw [hnil]
      rfl
    · rw [heq]
      exact allowed_printable (name_left hv).2.1
  · rcases h.url with hnil | ⟨hprint, -⟩
    · rw [hnil]
      rfl
    · exact hprint
  · rcases h.list with hnil | ⟨hprint, -⟩
    · rw [hnil]
      rfl
    · exact hprint

theorem mem_fields {kv : IniText × IniText} : kv ∈ profileFields p ↔ kv = ("profile".toList, installProfileKindLabel p.kind) ∨
    (p.repoName ≠ [] ∧ kv = ("bootstrap_repo_name".toList, p.repoName)) ∨
    (p.repoUrl ≠ [] ∧ kv = ("bootstrap_repo_url".toList, p.repoUrl)) ∨
    kv = ("bootstrap_repo_signed".toList, if p.repoSigned then ['1'] else ['0']) ∨
    (p.installList ≠ [] ∧ kv = ("bootstrap_install".toList, p.installList)) := by
  have hany : ∀ key value : IniText, kv ∈ fieldIfAny key value ↔ value ≠ [] ∧ kv = (key, value) := by
    intro key value
    rw [fieldIfAny]
    split <;> simp [*]
  simp only [profileFields, mem_append, mem_singleton, hany, or_assoc]

theorem last_append (key : IniText) (pairs others : List (IniText × IniText)) :
    lastValue key (pairs ++ others) = (lastValue key others).or (lastValue key pairs) := by
  rw [lastValue, reverse_append, List.find?_append, lastValue, lastValue, Option.map_or]

theorem last_any (key other value : IniText) : lastValue key ((fieldIfAny other value).map fun kv => (kv.1, profileTrim kv.2)) =
      if other = key ∧ value ≠ [] then some (profileTrim value) else none := by
  rw [fieldIfAny]
  by_cases hvalue : value = [] <;> by_cases hkey : other = key <;> simp [lastValue, hvalue, hkey]

theorem last_one (key other value : IniText) : lastValue key ([(other, value)].map fun kv => (kv.1, profileTrim kv.2)) =
      if other = key then some (profileTrim value) else none := by
  by_cases hkey : other = key <;> simp [lastValue, hkey]

theorem last_written (p : InstallProfile) (key : IniText) :
    lastValue key ((profileFields p).map fun kv => (kv.1, profileTrim kv.2)) =
      (if "bootstrap_install".toList = key ∧ p.installList ≠ [] then some (profileTrim p.installList) else none).or
      ((if "bootstrap_repo_signed".toList = key then some (profileTrim (if p.repoSigned then ['1'] else ['0'])) else none).or
      ((if "bootstrap_repo_url".toList = key ∧ p.repoUrl ≠ [] then some (profileTrim p.repoUrl) else none).or
      ((if "bootstrap_repo_name".toList = key ∧ p.repoName ≠ [] then some (profileTrim p.repoName) else none).or
      (if "profile".toList = key then some (profileTrim (installProfileKindLabel p.kind)) else none)))) := by
  rw [profileFields]
  simp only [map_append, last_append, last_any, last_one]

def writtenPairs (p : InstallProfile) : List (IniText × IniText) :=
  (profileFields p).map fun kv => (kv.1, profileTrim kv.2)

theorem last_kind (p : InstallProfile) : lastValue "profile".toList (writtenPairs p) = some (profileTrim
      (installProfileKindLabel p.kind)) := by
  rw [writtenPairs, last_written]
  simp

theorem last_name (p : InstallProfile) : lastValue "bootstrap_repo_name".toList (writtenPairs p) =
    if p.repoName = [] then none else some (profileTrim p.repoName) := by
  rw [writtenPairs, last_written]
  by_cases h : p.repoName = [] <;> simp [h]

theorem last_url (p : InstallProfile) : lastValue "bootstrap_repo_url".toList (writtenPairs p) =
    if p.repoUrl = [] then none else some (profileTrim p.repoUrl) := by
  rw [writtenPairs, last_written]
  by_cases h : p.repoUrl = [] <;> simp [h]

theorem last_signed (p : InstallProfile) : lastValue "bootstrap_repo_signed".toList (writtenPairs p) =
    some (profileTrim (if p.repoSigned then ['1'] else ['0'])) := by
  rw [writtenPairs, last_written]
  simp

theorem last_list (p : InstallProfile) : lastValue "bootstrap_install".toList (writtenPairs p) =
    if p.installList = [] then none else some (profileTrim p.installList) := by
  rw [writtenPairs, last_written]
  by_cases h : p.installList = [] <;> simp [h]

theorem written_fields (hpairs : ∀ kv ∈ writtenPairs p, PairOk kv) :
    ((writtenPairs p).foldl setPair installProfileReset).kind = p.kind ∧
    ((writtenPairs p).foldl setPair installProfileReset).repoName =
      (if p.repoName = [] then [] else profileCopy installProfileNameMax (profileTrim p.repoName)) ∧
    ((writtenPairs p).foldl setPair installProfileReset).repoUrl =
      (if p.repoUrl = [] then [] else profileCopy installProfileUrlMax (profileTrim p.repoUrl)) ∧
    ((writtenPairs p).foldl setPair installProfileReset).repoSigned = p.repoSigned ∧
    ((writtenPairs p).foldl setPair installProfileReset).installList =
      (if p.installList = [] then [] else listOf (profileTrim p.installList)) := by
  obtain ⟨hkind, hname, hurl, hsigned, hlist⟩ := final_fields hpairs installProfileReset
  have hkinds : kindOf (profileTrim (installProfileKindLabel p.kind)) = p.kind := by
    cases p.kind <;> decide
  have hflags : decide (profileTrim (if p.repoSigned then ['1'] else ['0']) = ['1']) =
    p.repoSigned := by
    cases p.repoSigned <;> decide
  rw [hkind, hname, hurl, hsigned, hlist, last_kind, last_name, last_url, last_signed, last_list]
  refine ⟨hkinds, ?_, ?_, hflags, ?_⟩
  · by_cases h : p.repoName = []
    · rw [if_pos h, if_pos h]
      rfl
    · rw [if_neg h, if_neg h]
      rfl
  · by_cases h : p.repoUrl = []
    · rw [if_pos h, if_pos h]
      rfl
    · rw [if_neg h, if_neg h]
      rfl
  · by_cases h : p.installList = []
    · rw [if_pos h, if_pos h]
      rfl
    · rw [if_neg h, if_neg h]
      rfl

def ReadsBack (p : InstallProfile) : Prop :=
  (p.repoName = [] ∨ ∃ c ∈ p.repoName, c ≠ '.') ∧ profileTrim p.repoUrl = p.repoUrl ∧
  profileTrim p.installList = p.installList

def SameProfile (p p' : InstallProfile) : Prop :=
  p'.kind = p.kind ∧ p'.repoName = p.repoName ∧ p'.repoUrl = p.repoUrl ∧ p'.repoSigned =
    p.repoSigned ∧
  p'.installList = p.installList

theorem same_profile (h : SameProfile p p') (hvalid : p'.valid = p.valid) : p' = p := by
  obtain ⟨hkind, hname, hurl, hsigned, hlist⟩ := h
  cases p
  cases p'
  simp_all

theorem fields_printable (h : ProfileStored p) : ∀ kv ∈ profileFields p, profileValueIsPrintableAscii kv.2 = true := by
  obtain ⟨hname, hurl, hlist⟩ := stored_printable h
  intro kv hkv
  rcases mem_fields.mp hkv with rfl | ⟨-, rfl⟩ | ⟨-, rfl⟩ | rfl | ⟨-, rfl⟩
  · cases p.kind <;> decide
  · exact hname
  · exact hurl
  · cases p.repoSigned <;> decide
  · exact hlist

theorem name_pair (h : ProfileStored p) (hne : p.repoName ≠ []) : profileTrim p.repoName = p.repoName ∧
    (PairOk ("bootstrap_repo_name".toList, p.repoName) ↔ ∃ c ∈ p.repoName, c ≠ '.') := by
  rcases h.name with hnil | ⟨v, hv, heq⟩
  · exact absurd hnil hne
  · obtain ⟨-, hallowed, htrim⟩ := name_left hv
    rw [← heq] at hallowed htrim
    refine ⟨htrim, ?_⟩
    have hall : p.repoName.all profileAllowed = true := List.all_eq_true.mpr hallowed
    rw [pair_name, profileNameAlphabetOk, hall]
    simp [allowed_printable hallowed, hne]

theorem reads_back (h : ProfileStored p) (hvalid : profileValidate p = .ok) :
    ((installProfileParse (profileText p)).1 = .ok ∧ SameProfile p (installProfileParse (profileText p)).2) ↔ ReadsBack p := by
  obtain ⟨hpairs, hlines⟩ := pairs_written (fields_printable h)
  have hpairs : profilePairs (profileText p) = writtenPairs p := hpairs
  have hfinal : finalProfile (profileText p) = (writtenPairs p).foldl setPair installProfileReset := by
    rw [finalProfile, hpairs]
  obtain ⟨hgood, hbad⟩ := parse_iff (profileText p)
  have hwritten : (∀ kv ∈ profileFields p, PairOk (kv.1, profileTrim kv.2)) → ∀ kv ∈ writtenPairs p, PairOk kv := by
    intro hok kv hkv
    obtain ⟨field, hfield, rfl⟩ := List.mem_map.mp hkv
    exact hok field hfield
  constructor
  · rintro ⟨hok, -, -, hurl, -, hlist⟩
    have haccept : LinesOk (profileTextLines (profileText p)) ∧
        profileValidate (finalProfile (profileText p)) = .ok := by
      by_contra hno
      exact (hbad hno).1 hok
    have hall := hlines.mp haccept.1
    obtain ⟨-, -, hurl', -, hlist'⟩ := written_fields (hwritten hall)
    rw [hgood haccept, hfinal] at hurl hlist
    refine ⟨?_, ?_, ?_⟩
    · by_cases hne : p.repoName = []
      · exact .inl hne
      · obtain ⟨htrim, hiff⟩ := name_pair h hne
        have hpair := hall _ (mem_fields.mpr (.inr (.inl ⟨hne, rfl⟩)))
        dsimp only at hpair
        rw [htrim] at hpair
        exact .inr (hiff.mp hpair)
    · by_cases hne : p.repoUrl = []
      · rw [hne]
        rfl
      · rw [hurl', if_neg hne] at hurl
        exact (trim_cut_same h.urlLen).mp hurl
    · by_cases hne : p.installList = []
      · rw [hne]
        rfl
      · rw [hlist', if_neg hne, listOf] at hlist
        split at hlist
        · exact absurd hlist.symm hne
        · exact (trim_cut_same h.listLen).mp hlist
  · rintro ⟨hname, hurl, hlist⟩
    have hall : ∀ kv ∈ profileFields p, PairOk (kv.1, profileTrim kv.2) := by
      intro kv hkv
      rcases mem_fields.mp hkv with rfl | ⟨hne, rfl⟩ | ⟨hne, rfl⟩ | rfl | ⟨hne, rfl⟩
      · rw [pairOk_iff installProfileReset]
        cases p.kind <;> decide
      · obtain ⟨htrim, hiff⟩ := name_pair h hne
        dsimp only
        rw [htrim]
        exact hiff.mpr (hname.resolve_left hne)
      · obtain ⟨hprint, hhttps⟩ := h.url.resolve_left hne
        dsimp only
        rw [hurl]
        refine pair_url.mpr ⟨hprint, hne, ?_⟩
        rwa [profileCopy, take_of_length_le h.urlLen]
      · rw [pairOk_iff installProfileReset]
        cases p.repoSigned <;> decide
      · obtain ⟨hprint, -, hnames⟩ := h.list.resolve_left hne
        dsimp only
        rw [hlist]
        refine pair_list.mpr ⟨hprint, ?_⟩
        rwa [profileCopy, take_of_length_le h.listLen]
    obtain ⟨hkind', hname', hurl', hsigned', hlist'⟩ := written_fields (hwritten hall)
    have hsame : finalProfile (profileText p) = p := by
      rw [hfinal]
      refine same_profile ⟨hkind', ?_, ?_, hsigned', ?_⟩ ?_
      · rw [hname']
        split
        next hnil => exact hnil.symm
        next hne =>
          rw [(name_pair h hne).1]
          rcases h.name with hnil | ⟨v, -, heq⟩
          · exact absurd hnil hne
          · exact take_of_length_le (heq ▸ copy_length _ v)
      · rw [hurl']
        split
        next hnil => exact hnil.symm
        next => rw [hurl, profileCopy, take_of_length_le h.urlLen]
      · rw [hlist']
        split
        next hnil => exact hnil.symm
        next hne =>
          have hcopy : profileCopy installProfileInstallListMax p.installList = p.installList :=
            take_of_length_le h.listLen
          rw [hlist, listOf, hcopy, if_neg (h.list.resolve_left hne).2.1]
      · rw [← hfinal, final_valid, h.valid]
    have haccept : LinesOk (profileTextLines (profileText p)) ∧
      profileValidate (finalProfile (profileText p)) = .ok :=
      ⟨hlines.mpr hall, by rw [hsame]; exact hvalid⟩
    rw [hgood haccept, hsame]
    exact ⟨rfl, rfl, rfl, rfl, rfl, rfl⟩

def ReadsBackText (text : IniText) : Prop :=
  (∀ v, lastValue "bootstrap_repo_name".toList (profilePairs text) = some v →
    ∃ c ∈ profileCopy installProfileNameMax v, c ≠ '.') ∧
  (∀ v, lastValue "bootstrap_repo_url".toList (profilePairs text) = some v →
    (profileCopy installProfileUrlMax v).getLast? ≠ some ' ') ∧
  (∀ v, lastValue "bootstrap_install".toList (profilePairs text) = some v →
    installListNames installProfileNameMax (profileCopy installProfileInstallListMax v) = [] ∨
    (profileCopy installProfileInstallListMax v).getLast? ≠ some ' ')

theorem reads_back_text (h : LinesOk (profileTextLines text)) : ReadsBack (finalProfile text) ↔ ReadsBackText text := by
  have hpairs := pairs_ok h
  obtain ⟨-, hname, hurl, -, hlist⟩ := final_fields hpairs installProfileReset
  rw [ReadsBack, ReadsBackText, finalProfile, hname, hurl, hlist]
  refine and_congr ?_ (and_congr ?_ ?_)
  · cases hlast : lastValue "bootstrap_repo_name".toList (profilePairs text) with
    | none => simp [installProfileReset]
    | some v =>
      have hne := (name_left (pair_name.mp (hpairs _ (last_mem hlast))).2).1
      simp [hne]
  · cases hlast : lastValue "bootstrap_repo_url".toList (profilePairs text) with
    | none => simp [installProfileReset, profileTrim]
    | some v =>
      have hprint := (pair_url.mp (hpairs _ (last_mem hlast))).1
      have hspace := trim_same_space (printable_start (List.take_prefix
        (installProfileUrlMax - 1) v) hprint)
      have hcut : v.take (installProfileUrlMax - 1) = profileCopy installProfileUrlMax v := rfl
      rw [hcut] at hspace
      simpa using hspace
  · cases hlast : lastValue "bootstrap_install".toList (profilePairs text) with
    | none => simp [installProfileReset, profileTrim]
    | some v =>
      have hprint := (pair_list.mp (hpairs _ (last_mem hlast))).1
      have hspace := trim_same_space (printable_start (List.take_prefix
        (installProfileInstallListMax - 1) v) hprint)
      have hcut : v.take (installProfileInstallListMax - 1) =
        profileCopy installProfileInstallListMax v := rfl
      rw [hcut] at hspace
      simp only [Option.map_some, Option.getD_some, Option.some.injEq, forall_eq']
      rw [listOf]
      split
      next hnone => simp [hnone, profileTrim]
      next hsome => simp [hsome, hspace]

/-- A text that is rejected leaves the default; one that is accepted is written into every
buffer that is large enough, and read back as it was exactly when no field was cut at a bad
place. -/
theorem profile_round_trip (text : IniText) :
    ((installProfileParse text).1 ≠ .ok → (installProfileParse text).2 = installProfileReset) ∧
    ((installProfileParse text).1 = .ok →
      ∃ out, (∀ size, out.length < size → installProfileFormat size (installProfileParse text).2 =
        (.ok, out)) ∧
        (((installProfileParse out).1 = .ok ∧ SameProfile (installProfileParse text).2
          (installProfileParse out).2) ↔
          ReadsBackText text)) := by
  obtain ⟨hgood, hbad⟩ := parse_iff text
  by_cases haccept : LinesOk (profileTextLines text) ∧ profileValidate (finalProfile text) = .ok
  · rw [hgood haccept]
    refine ⟨fun h => absurd rfl h, fun _ => ⟨profileText (finalProfile text), fun size hsize => ?_,
      ?_⟩⟩
    · obtain ⟨hname, hurl, hlist⟩ := stored_printable (final_stored haccept.1)
      exact format_text hname hurl hlist hsize
    · rw [← reads_back_text haccept.1]
      exact reads_back (final_stored haccept.1) haccept.2
  · obtain ⟨hrc, hreset⟩ := hbad haccept
    exact ⟨fun _ => hreset, fun h => absurd h hrc⟩

def dottedProfile : IniText := "bootstrap_repo_name=".toList ++ List.replicate 31 '.' ++ ['a']

theorem dotted_not_read_back : (installProfileParse dottedProfile).1 = .ok ∧
    (installProfileFormat 4096 (installProfileParse dottedProfile).2).1 = .ok ∧
    (installProfileParse (installProfileFormat 4096 (installProfileParse dottedProfile).2).2).1 =
      .denied := by
  decide +kernel

end CapyOS.Proofs
