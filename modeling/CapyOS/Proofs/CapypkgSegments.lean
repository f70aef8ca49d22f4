import CapyOS.Proofs.CapypkgRoundTrip

namespace CapyOS.Proofs
open Capypkg List
variable {e : CapypkgEntry} {ls : List Text}

def joinLines (ls : List Text) : Text := ['\n'].intercalate ls

def entrySegments (text : Text) : List Text := ((text.splitOn '\n').splitOn "---".toList).map joinLines

/-- The entry that a text on its own describes. -/
def parsed (text : Text) : Option CapypkgEntry :=
  match manifestParseEntry text with
  | (.ok, e, _) => some e
  | _ => none

def applyLines (e : CapypkgEntry) : List Text → CapypkgResult × CapypkgEntry
  | [] => (.ok, e)
  | line :: ls =>
    if line = [] ∨ line.head? = some '#' ∨ '=' ∉ line then applyLines e ls
    else
      match applyKv e (line.takeWhile (· ≠ '=')) ((line.dropWhile (· ≠ '=')).drop 1) with
      | (.ok, e) => applyLines e ls
      | r => r

def segmentLines (ls : List Text) : List Text := ls.takeWhile (! lineIsSeparator ·)

def linesBehind (ls : List Text) : List Text := (ls.dropWhile (! lineIsSeparator ·)).drop 1

theorem joinLines_cons (line : Text) (next : Text) (ls : List Text) :
    joinLines (line :: next :: ls) = line ++ '\n' :: joinLines (next :: ls) := by
  rw [joinLines, intercalate_cons_cons]
  simp [joinLines]

theorem takeLine_last {line : Text} (h : '\n' ∉ line) : takeLine line = (line, []) := by
  have hne : ∀ c ∈ line, c ≠ '\n' := fun c hc heq => h (heq ▸ hc)
  have htake : line.takeWhile (· ≠ '\n') = line := List.takeWhile_eq_self_iff.mpr (by simpa using hne)
  have hdrop : line.dropWhile (· ≠ '\n') = [] := List.dropWhile_eq_nil_iff.mpr (by simpa using hne)
  rw [takeLine, htake, hdrop]
  rfl

theorem takeLine_join {line : Text} (h : '\n' ∉ line) : takeLine (joinLines (line :: ls)) = (line, joinLines ls) := by
  cases ls with
  | nil =>
    have hone : joinLines [line] = line := by simp [joinLines]
    rw [hone]
    exact takeLine_last h
  | cons next ls => rw [joinLines_cons, takeLine_line h]

theorem takeLine_shorter {text : Text} (h : text ≠ []) : (takeLine text).2.length < text.length := by
  have hparts := congrArg List.length (@takeWhile_append_dropWhile _ (· ≠ '\n') text)
  rw [length_append] at hparts
  rw [takeLine, length_drop]
  cases hdrop : text.dropWhile (· ≠ '\n') with
  | nil => exact length_pos_of_ne_nil h
  | cons c rest =>
    rw [hdrop] at hparts
    simp only [length_cons] at hparts ⊢
    omega

theorem join_nil (h : joinLines ls = []) : ls = [] ∨ ls = [[]] := by
  match ls with
  | [] => exact .inl rfl
  | [line] => exact .inr (by simpa [joinLines] using h)
  | line :: next :: ls =>
    rw [joinLines_cons] at h
    simp at h

theorem parseLines_empty (n : Nat) (e : CapypkgEntry) : parseLines n e [] = (.ok, e, []) := by
  cases n with
  | zero => rfl
  | succ n => simp [parseLines]

theorem skip_empty (n : Nat) : skipToNextEntry n [] = [] := by
  cases n with
  | zero => rfl
  | succ n => simp [skipToNextEntry]

theorem behind_cons (line : Text) : linesBehind (line :: ls) = if lineIsSeparator line then ls else linesBehind ls := by
  by_cases h : lineIsSeparator line = true <;> simp [linesBehind, h]

theorem segment_cons (line : Text) :
    segmentLines (line :: ls) = if lineIsSeparator line then [] else line :: segmentLines ls := by
  by_cases h : lineIsSeparator line = true <;> simp [segmentLines, h]

/-- Both ways to the end of an entry leave the text behind its separator. -/
theorem skip_join (hlines : ∀ line ∈ ls, '\n' ∉ line) {n : Nat} (hn : (joinLines ls).length ≤ n) :
    skipToNextEntry n (joinLines ls) = joinLines (linesBehind ls) := by
  induction ls generalizing n with
  | nil => exact skip_empty n
  | cons line ls ih =>
    by_cases hempty : joinLines (line :: ls) = []
    · rw [hempty, skip_empty]
      rcases join_nil hempty with hnil | hnil
      · exact nomatch hnil
      · rw [hnil]
        rfl
    · have hshort := takeLine_shorter hempty
      obtain ⟨m, rfl⟩ : ∃ m, n = m + 1 := ⟨n - 1, by omega⟩
      rw [skipToNextEntry, if_neg hempty, behind_cons]
      rw [takeLine_join (hlines line (by simp))] at hshort ⊢
      dsimp only
      split
      · rfl
      · refine ih (fun l hl => hlines l (by simp [hl])) ?_
        dsimp only at hshort
        omega

theorem parseLines_join (hlines : ∀ line ∈ ls, '\n' ∉ line) {n : Nat} (hn : (joinLines ls).length ≤ n) :
    parseLines n e (joinLines ls) =
      ((applyLines e (segmentLines ls)).1, (applyLines e (segmentLines ls)).2, joinLines (linesBehind ls)) := by
  induction ls generalizing n e with
  | nil => exact parseLines_empty n e
  | cons line ls ih =>
    by_cases hempty : joinLines (line :: ls) = []
    · rw [hempty, parseLines_empty]
      rcases join_nil hempty with hnil | hnil
      · exact nomatch hnil
      · rw [hnil]
        rfl
    have hshort := takeLine_shorter hempty
    obtain ⟨m, rfl⟩ : ∃ m, n = m + 1 := ⟨n - 1, by omega⟩
    have hline := @takeLine_join ls line (hlines line (by simp))
    rw [hline] at hshort
    dsimp only at hshort
    have hrest := fun e => @ih e (fun l hl => hlines l (by simp [hl])) m (by omega)
    rw [parseLines, if_neg hempty, hline, behind_cons, segment_cons]
    dsimp only
    by_cases hsep : lineIsSeparator line = true
    · rw [if_pos hsep, if_pos hsep, if_pos hsep]
      rfl
    rw [if_neg hsep, if_neg hsep, if_neg hsep, applyLines]
    by_cases hskip : line = [] ∨ line.head? = some '#'
    · rw [if_pos hskip, if_pos (by tauto)]
      exact hrest e
    rw [if_neg hskip]
    by_cases heq : '=' ∉ line
    · rw [if_pos heq, if_pos (by tauto)]
      exact hrest e
    rw [if_neg heq, if_neg (by tauto)]
    -- a refused line is followed by the skip, from the next line on
    generalize applyKv e (line.takeWhile (· ≠ '=')) ((line.dropWhile (· ≠ '=')).drop 1) = r
    obtain ⟨rc, e'⟩ := r
    cases rc
    case ok => exact hrest e'
    all_goals
      have hskip := @skip_join ls (fun l hl => hlines l (mem_cons_of_mem line hl)) m (by omega)
      rw [← hskip]

def linesEntry (ls : List Text) : Option CapypkgEntry :=
  match applyLines emptyEntry ls with
  | (.ok, e) => if (validateRequiredFields e).1 = .ok then some (validateRequiredFields e).2 else none
  | _ => none

/-- The outcome of a parse depends on the lines in front of the separator alone, and what
is left is the text behind it, accepted or refused. -/
theorem manifest_join (hlines : ∀ line ∈ ls, '\n' ∉ line) :
    (manifestParseEntry (joinLines ls)).2.2 = joinLines (linesBehind ls) ∧
    parsed (joinLines ls) = linesEntry (segmentLines ls) := by
  have hparse := @parseLines_join emptyEntry ls hlines _ (Nat.le_refl _)
  rw [parsed, manifestParseEntry, hparse, linesEntry]
  generalize applyLines emptyEntry (segmentLines ls) = r
  obtain ⟨rc, e⟩ := r
  cases rc
  case ok =>
    dsimp only
    refine ⟨rfl, ?_⟩
    generalize validateRequiredFields e = v
    obtain ⟨vc, ve⟩ := v
    cases vc <;> rfl
  all_goals exact ⟨rfl, rfl⟩

theorem segment_no_separator (ls : List Text) : "---".toList ∉ segmentLines ls := by
  intro h
  have hkept := mem_takeWhile_imp h
  exact absurd hkept (by decide)

theorem segment_idem (ls : List Text) : segmentLines (segmentLines ls) = segmentLines ls := by
  exact List.takeWhile_eq_self_iff.mpr fun line h => @mem_takeWhile_imp _ (! lineIsSeparator ·) ls line h

theorem split_segments (ls : List Text) : ls.splitOn "---".toList =
    if "---".toList ∈ ls then segmentLines ls :: (linesBehind ls).splitOn "---".toList else [segmentLines ls] := by
  have hparts := @takeWhile_append_dropWhile _ (! lineIsSeparator ·) ls
  split
  next hsep =>
    have hne : ls.dropWhile (! lineIsSeparator ·) ≠ [] := by
      intro hnil
      have hall := List.dropWhile_eq_nil_iff.mp hnil _ hsep
      exact absurd hall (by decide)
    obtain ⟨line, rest, hdrop⟩ := exists_cons_of_ne_nil hne
    have hline : line = "---".toList := by
      have hfirst := head_dropWhile_not (! lineIsSeparator ·) hne
      simp only [hdrop, head_cons] at hfirst
      simpa [lineIsSeparator] using hfirst
    have hbehind : linesBehind ls = rest := by
      rw [linesBehind, hdrop]
      rfl
    rw [hdrop, hline] at hparts
    rw [hbehind]
    calc ls.splitOn "---".toList = (segmentLines ls ++ "---".toList :: rest).splitOn "---".toList := by
          exact congrArg (List.splitOn "---".toList) hparts.symm
      _ = segmentLines ls :: rest.splitOn "---".toList :=
        splitOn_append_cons_self_of_not_mem (segment_no_separator ls) rest
  next hsep =>
    have hall : segmentLines ls = ls := by
      rw [segmentLines, takeWhile_eq_self_iff]
      intro line hline
      have hne : line ≠ "---".toList := fun heq => hsep (heq ▸ hline)
      simpa [lineIsSeparator] using hne
    rw [hall]
    exact splitOn_eq_singleton hsep

theorem behind_sub {line : Text} (h : line ∈ linesBehind ls) : line ∈ ls :=
  (dropWhile_sublist _).subset (mem_of_mem_drop h)

theorem segment_sub {line : Text} (h : line ∈ segmentLines ls) : line ∈ ls :=
  (takeWhile_sublist _).subset h

theorem behind_shorter (hlines : ∀ line ∈ ls, '\n' ∉ line) (hne : joinLines ls ≠ []) :
    (joinLines (linesBehind ls)).length < (joinLines ls).length := by
  induction ls with
  | nil => exact absurd rfl hne
  | cons line ls ih =>
    have hshort := takeLine_shorter hne
    rw [takeLine_join (hlines line (by simp))] at hshort
    rw [behind_cons]
    split
    · exact hshort
    · by_cases hrest : joinLines ls = []
      · have hnone : joinLines (linesBehind ls) = [] := by
          rcases join_nil hrest with rfl | rfl <;> rfl
        rw [hnone]
        exact length_pos_of_ne_nil hne
      · exact Nat.lt_trans (ih (fun l hl => hlines l (by simp [hl])) hrest) hshort

theorem parsed_empty : parsed [] = none := by decide

theorem parsed_nothing (h : joinLines ls = []) :
    ((ls.splitOn "---".toList).map joinLines).filterMap parsed = [] := by
  rcases join_nil h with rfl | rfl <;> decide

theorem parseEntries_join {n : Nat} (hlines : ∀ line ∈ ls, '\n' ∉ line) (hn : (joinLines ls).length ≤ n) (room : Nat) :
    parseEntries n room (joinLines ls) =
      (((ls.splitOn "---".toList).map joinLines).filterMap parsed).take room := by
  induction n generalizing ls room with
  | zero =>
    have hempty : joinLines ls = [] := eq_nil_of_length_eq_zero (by omega)
    rw [parsed_nothing hempty, parseEntries, take_nil]
  | succ n ih =>
    by_cases hempty : joinLines ls = []
    · rw [parsed_nothing hempty, parseEntries, if_pos (.inl hempty), take_nil]
    by_cases hroom : room = 0
    · rw [parseEntries, if_pos (.inr hroom), hroom]
      rfl
    have hshort := behind_shorter hlines hempty
    have hbehind : ∀ line ∈ linesBehind ls, '\n' ∉ line := fun line hl => hlines line (behind_sub hl)
    have hnext := fun room => @ih (linesBehind ls) hbehind (by omega) room
    obtain ⟨hrest, hparsed⟩ := manifest_join hlines
    -- the first segment on its own has the lines that the parse used
    have hfirst : parsed (joinLines (segmentLines ls)) = parsed (joinLines ls) := by
      rw [hparsed, (manifest_join fun line hl => hlines line (segment_sub hl)).2, segment_idem]
    have hsplit : ((ls.splitOn "---".toList).map joinLines).filterMap parsed =
        (parsed (joinLines ls)).toList ++
          (((linesBehind ls).splitOn "---".toList).map joinLines).filterMap parsed := by
      rw [split_segments]
      split
      next =>
        rw [map_cons, filterMap_cons, hfirst]
        cases parsed (joinLines ls) <;> rfl
      next hsep =>
        have hnothing : linesBehind ls = [] := by
          rw [linesBehind, List.dropWhile_eq_nil_iff.mpr ?_]
          · rfl
          · intro line hline
            have hne : line ≠ "---".toList := fun heq => hsep (heq ▸ hline)
            simpa [lineIsSeparator] using hne
        rw [hnothing, map_singleton, filterMap_cons, hfirst]
        cases parsed (joinLines ls) <;> simp [joinLines, parsed_empty]
    rw [hsplit, parseEntries, if_neg (by tauto)]
    generalize hresult : manifestParseEntry (joinLines ls) = r at hrest
    obtain ⟨rc, e, rest⟩ := r
    dsimp only at hrest
    subst hrest
    have hsome : parsed (joinLines ls) = if rc = .ok then some e else none := by
      rw [parsed, hresult]
      cases rc <;> rfl
    rw [hsome]
    cases rc
    case ok =>
      obtain ⟨k, rfl⟩ : ∃ k, room = k + 1 := ⟨room - 1, by omega⟩
      exact congrArg (e :: ·) (hnext k)
    all_goals
      dsimp only
      rw [if_neg (Nat.ne_of_lt hshort)]
      exact hnext room

theorem split_lines (text : Text) : ∀ line ∈ text.splitOn '\n', '\n' ∉ line := by
  induction text with
  | nil => simp
  | cons c text ih =>
    rw [splitOn_cons_eq_if_modifyHead]
    split
    next =>
      intro line hline
      rcases List.mem_cons.mp hline with rfl | hline
      · simp
      · exact ih line hline
    next hc =>
      obtain ⟨first, rest, hsplit⟩ := exists_cons_of_ne_nil (splitOn_ne_nil '\n' text)
      rw [hsplit] at ih ⊢
      intro line hline
      rcases List.mem_cons.mp hline with rfl | hline
      · have hfirst := ih first (by simp)
        rw [mem_cons]
        exact fun hmem => hmem.elim (fun heq => hc (by simp [← heq])) hfirst
      · exact ih line (by simp [hline])

theorem join_split (text : Text) : joinLines (text.splitOn '\n') = text := intercalate_splitOn '\n'

/-- The database and the cached catalog are the segments that parse on their own, in
order and as far as there is room; with a segment that does not parse the others are
what they are without it. Each turn of the loop takes something of the text, and none of
the loops is cut short by its bound. -/
theorem index_compositional (text : Text) :
    dbParse text = ((entrySegments text).filterMap parsed).take capypkgMaxInstalled ∧
    (∀ repos db files, (Capypkg.init repos db (some text) files).available =
      ((entrySegments text).filterMap parsed).take capypkgMaxAvailable) ∧
    (∀ pre seg post, entrySegments text = pre ++ seg :: post → parsed seg = none →
      (entrySegments text).filterMap parsed = (pre ++ post).filterMap parsed) ∧
    (∀ n ≥ text.length, (∀ room, parseEntries n room text = parseEntries text.length room text) ∧
      (∀ e, parseLines n e text = parseLines text.length e text) ∧
      skipToNextEntry n text = skipToNextEntry text.length text) ∧
    (text ≠ [] → (manifestParseEntry text).2.2.length < text.length) := by
  have hlines := split_lines text
  have hall : ∀ n ≥ text.length, ∀ room,
      parseEntries n room text = ((entrySegments text).filterMap parsed).take room := by
    intro n hn room
    have hjoin := @parseEntries_join _ n hlines (by rwa [join_split]) room
    rwa [join_split] at hjoin
  refine ⟨hall _ (Nat.le_refl _) _, fun _ _ _ => hall _ (Nat.le_refl _) _, ?_, ?_, ?_⟩
  · intro pre seg post hsegments hnone
    rw [hsegments, filterMap_append, filterMap_append, filterMap_cons_none hnone]
  · intro n hn
    refine ⟨fun room => ?_, fun e => ?_, ?_⟩
    · rw [hall n hn room, hall _ (Nat.le_refl _) room]
    · have hwide := @parseLines_join e _ hlines n (by rwa [join_split])
      have hclose := @parseLines_join e _ hlines text.length (by rw [join_split])
      rw [join_split] at hwide hclose
      rw [hwide, hclose]
    · have hwide := @skip_join _ hlines n (by rwa [join_split])
      have hclose := @skip_join _ hlines text.length (by rw [join_split])
      rw [join_split] at hwide hclose
      rw [hwide, hclose]
  · intro hne
    have hrest := (manifest_join hlines).1
    have hshort := behind_shorter hlines (by rwa [join_split])
    rw [join_split] at hrest hshort
    rwa [hrest]

end CapyOS.Proofs
