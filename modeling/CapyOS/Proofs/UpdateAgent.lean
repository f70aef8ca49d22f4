import CapyOS.Services.UpdateAgent

namespace CapyOS.Proofs
open List

variable {buffer signed signed' line : Text} {view view' : UpdateManifestView} {count count' : Nat}

def bufferLines (buffer : Text) : List Text := (buffer.splitOnP lineEnd).filter (· ≠ [])

theorem bufferLines_ends {e : Char} (a b : Text) (he : lineEnd e = true) : bufferLines (a ++ e :: b) = bufferLines a ++ bufferLines b := by
  unfold bufferLines
  rw [splitOnP_append_cons a b he, filter_append]

theorem bufferLines_newlines (ends b : Text) (h : ∀ c ∈ ends, lineEnd c = true) : bufferLines (ends ++ b) = bufferLines b := by
  induction ends with
  | nil => rfl
  | cons e es ih =>
    have hcons := bufferLines_ends [] (es ++ b) (h e mem_cons_self)
    rw [nil_append] at hcons
    rw [cons_append, hcons, ih fun c hc => h c (mem_cons_of_mem e hc)]
    rfl

theorem bufferLines_line (h : ∀ c ∈ line, lineEnd c = false) : bufferLines line = if line = [] then [] else [line] := by
  unfold bufferLines
  rw [splitOnP_eq_singleton h]
  by_cases hl : line = [] <;> simp [hl]

theorem firstLine_open (buffer : Text) : ∀ c ∈ firstLine buffer, lineEnd c = false := by
  intro c hc
  have htake := List.all_eq_true.mp all_takeWhile c hc
  simpa using htake

theorem firstEnds_ends (buffer : Text) : ∀ c ∈ firstEnds buffer, lineEnd c = true := fun c hc =>
  List.all_eq_true.mp all_takeWhile c hc

theorem afterLine_nil (h : firstEnds buffer = []) : afterLine buffer = [] := by
  have hhead := List.head?_dropWhile_not (fun c => !lineEnd c) buffer
  unfold firstEnds at h
  unfold afterLine
  cases hd : buffer.dropWhile fun c => !lineEnd c with
  | nil => rfl
  | cons c cs =>
    rw [hd] at hhead h
    have hc : lineEnd c = true := by simpa using hhead
    simp [hc] at h

theorem bufferLines_chunk (buffer b : Text) (h : firstEnds buffer = [] → b = []) :
    bufferLines (firstLine buffer ++ firstEnds buffer ++ b) = bufferLines (firstLine buffer) ++ bufferLines b := by
  have hends := firstEnds_ends buffer
  cases he : firstEnds buffer with
  | nil =>
    rw [h he, append_nil, append_nil]
    exact (append_nil _).symm
  | cons e es =>
    rw [he] at hends
    rw [append_assoc, cons_append, bufferLines_ends _ _ (hends e mem_cons_self),
      bufferLines_newlines es b fun c hc => hends c (mem_cons_of_mem e hc)]

theorem bufferLines_split (buffer : Text) : bufferLines buffer = bufferLines (firstLine buffer) ++ bufferLines (afterLine buffer) := by
  have hchunk := bufferLines_chunk buffer (afterLine buffer) afterLine_nil
  rwa [firstLine_split] at hchunk

theorem parse_fold {σ : Type} (parse : Text → Text → σ → σ) (buffer : Text) (target : σ) :
    updateAgentParseBuffer parse buffer target =
      (bufferLines buffer).foldl (fun target line => parseBufferLine parse line target) target := by
  fun_induction updateAgentParseBuffer with
  | case1 => rfl
  | case2 buffer target hne line ih =>
    simp only [dite_eq_ite] at ih
    rw [ih, bufferLines_split buffer, bufferLines_line (firstLine_open buffer), foldl_append]
    by_cases hl : firstLine buffer = [] <;> simp [hl, line]

def Ended (signed : Text) : Prop := signed = [] ∨ ∃ a e, lineEnd e = true ∧ signed = a ++ [e]

theorem Ended.append (h : Ended signed) (b : Text) : bufferLines (signed ++ b) = bufferLines signed ++ bufferLines b := by
  rcases h with rfl | ⟨a, e, he, rfl⟩
  · rfl
  · rw [append_assoc, singleton_append, bufferLines_ends a b he, bufferLines_ends a [] he]
    exact congrArg (· ++ bufferLines b) (append_nil _).symm

theorem chunk_ended (h : firstEnds buffer ≠ []) (signed : Text) : Ended (signed ++ (firstLine buffer ++ firstEnds buffer)) := by
  obtain ⟨ends, e, he⟩ := (eq_nil_or_concat (firstEnds buffer)).resolve_left h
  have hend : e ∈ firstEnds buffer := by rw [he]; simp
  refine .inr ⟨signed ++ (firstLine buffer ++ ends), e, firstEnds_ends buffer e hend, ?_⟩
  rw [he]
  simp

def signatureLine (line : Text) : Bool := manifestLineMatchesKey line "signature_ed25519".toList

theorem captured_lines (h : captureSignedFrom buffer signed count = some (signed', count')) (hend : Ended signed ∨ buffer = []) :
    bufferLines signed' = bufferLines signed ++ (bufferLines buffer).filter fun line => !signatureLine line := by
  fun_induction captureSignedFrom with
  | case1 =>
    cases h
    exact (append_nil _).symm
  | case2 buffer signed count hne line hsig ih =>
    have hended := hend.resolve_right hne
    have hsig' : signatureLine (firstLine buffer) = true := hsig.2
    rw [ih h (.inl hended), bufferLines_split buffer, bufferLines_line (firstLine_open buffer), if_neg hsig.1]
    simp [hsig']
  | case3 => cases h
  | case4 buffer signed count hne line copied hsig _ ih =>
    have hended := hend.resolve_right hne
    have hnext : Ended (signed ++ copied) ∨ afterLine buffer = [] := by
      by_cases he : firstEnds buffer = []
      · exact .inr (afterLine_nil he)
      · exact .inl (chunk_ended he signed)
    have hcopied : bufferLines copied = bufferLines (firstLine buffer) := by
      have hchunk := bufferLines_chunk buffer [] fun _ => rfl
      rw [append_nil] at hchunk
      rw [hchunk]
      exact append_nil _
    rw [ih h hnext, hended.append, hcopied, bufferLines_split buffer, bufferLines_line (firstLine_open buffer)]
    by_cases hl : firstLine buffer = []
    · simp [hl]
    · have hsig' : signatureLine (firstLine buffer) = false := by
        by_contra hs
        exact hsig ⟨hl, by simpa [signatureLine] using hs⟩
      simp [hl, hsig']

theorem captured_count (h : captureSignedFrom buffer signed count = some (signed', count')) (hcount : count ≤ 255) :
    count' = min 255 (count + (bufferLines buffer).countP signatureLine) := by
  fun_induction captureSignedFrom with
  | case1 =>
    cases h
    exact (Nat.min_eq_right hcount).symm
  | case2 buffer signed count hne line hsig ih =>
    have hsig' : signatureLine (firstLine buffer) = true := hsig.2
    simp only [dite_eq_ite] at ih h
    have hnext : (if count ≠ 255 then count + 1 else count) ≤ 255 := by split_ifs <;> omega
    rw [ih h hnext, bufferLines_split buffer, bufferLines_line (firstLine_open buffer), if_neg hsig.1, countP_append,
      countP_singleton, if_pos hsig']
    split_ifs <;> omega
  | case3 => cases h
  | case4 buffer signed count hne line copied hsig _ ih =>
    rw [ih h hcount, bufferLines_split buffer, bufferLines_line (firstLine_open buffer)]
    by_cases hl : firstLine buffer = []
    · simp [hl]
    · have hsig' : ¬signatureLine (firstLine buffer) = true := fun hs => hsig ⟨hl, hs⟩
      rw [if_neg hl, countP_append, countP_singleton, if_neg hsig', Nat.zero_add]

/-- Two views with the same signed fields. -/
structure SameFields (view view' : UpdateManifestView) : Prop where
  version : view.version = view'.version
  channel : view.channel = view'.channel
  branch : view.branch = view'.branch
  source : view.source = view'.source
  publishedAt : view.publishedAt = view'.publishedAt
  payloadUrl : view.payloadUrl = view'.payloadUrl
  payloadSize : view.payloadSize = view'.payloadSize
  payloadSizePresent : view.payloadSizePresent = view'.payloadSizePresent
  payloadSha256 : view.payloadSha256 = view'.payloadSha256

theorem SameFields.refl (view : UpdateManifestView) : SameFields view view := ⟨rfl, rfl, rfl, rfl, rfl, rfl, rfl, rfl, rfl⟩

theorem SameFields.symm (h : SameFields view view') : SameFields view' view :=
  ⟨h.version.symm, h.channel.symm, h.branch.symm, h.source.symm, h.publishedAt.symm, h.payloadUrl.symm, h.payloadSize.symm,
    h.payloadSizePresent.symm, h.payloadSha256.symm⟩

theorem SameFields.trans {view'' : UpdateManifestView} (h : SameFields view view') (h' : SameFields view' view'') :
    SameFields view view'' :=
  ⟨h.version.trans h'.version, h.channel.trans h'.channel, h.branch.trans h'.branch, h.source.trans h'.source,
    h.publishedAt.trans h'.publishedAt, h.payloadUrl.trans h'.payloadUrl, h.payloadSize.trans h'.payloadSize,
    h.payloadSizePresent.trans h'.payloadSizePresent, h.payloadSha256.trans h'.payloadSha256⟩

theorem ite_same {p : Prop} [Decidable p] {a a' b b' : UpdateManifestView} (ha : SameFields a a') (hb : SameFields b b') :
    SameFields (if p then a else b) (if p then a' else b') := by
  by_cases hp : p
  · rwa [if_pos hp, if_pos hp]
  · rwa [if_neg hp, if_neg hp]

theorem manifestLine_same (h : SameFields view view') (key value : Text) :
    SameFields (parseManifestLine key value view) (parseManifestLine key value view') := by
  unfold parseManifestLine
  refine ite_same { h with version := rfl } (ite_same { h with channel := rfl } (ite_same { h with branch := rfl } ?_))
  refine ite_same { h with source := rfl } (ite_same { h with publishedAt := rfl } (ite_same { h with payloadUrl := rfl } ?_))
  refine ite_same { h with payloadSize := rfl, payloadSizePresent := rfl } (ite_same { h with payloadSha256 := rfl } ?_)
  exact ite_same { h with version := h.version } h

theorem bufferLine_same (h : SameFields view view') (line : Text) :
    SameFields (parseBufferLine parseManifestLine line view) (parseBufferLine parseManifestLine line view') := by
  unfold parseBufferLine
  cases bufferLineEntry line with
  | none => exact h
  | some entry => exact manifestLine_same h entry.1 entry.2

theorem matches_split {key : Text} (h : manifestLineMatchesKey line key = true) : ∃ rest, line = key ++ '=' :: rest := by
  induction key generalizing line with
  | nil =>
    cases line with
    | nil => cases h
    | cons c rest =>
      have hc : c = '=' := by simpa [manifestLineMatchesKey] using h
      exact ⟨rest, by rw [hc]; rfl⟩
  | cons k key ih =>
    cases line with
    | nil => cases h
    | cons c line =>
      unfold manifestLineMatchesKey at h
      simp only [Bool.and_eq_true, decide_eq_true_eq] at h
      obtain ⟨rest, hrest⟩ := ih h.2
      exact ⟨rest, by rw [h.1, hrest]; rfl⟩

theorem signature_entry {key value : Text} (h : signatureLine line = true) (hentry : bufferLineEntry line = some (key, value)) :
    key = "signature_ed25519".toList := by
  obtain ⟨rest, rfl⟩ := matches_split h
  have hkey : (("signature_ed25519".toList ++ '=' :: rest).takeWhile (· ≠ '=')).length = 17 := rfl
  have hlength : ("signature_ed25519".toList ++ '=' :: rest).length = rest.length + 18 := rfl
  have hsize : ¬updateAgentKeySize ≤ 17 := by decide
  unfold bufferLineEntry at hentry
  simp only [hkey, hlength, if_neg hsize] at hentry
  rw [if_neg (by omega)] at hentry
  split at hentry
  · cases hentry
  · cases hentry
    rfl

theorem signature_same (h : signatureLine line = true) (view : UpdateManifestView) :
    SameFields (parseBufferLine parseManifestLine line view) view := by
  unfold parseBufferLine
  cases hentry : bufferLineEntry line with
  | none => exact .refl view
  | some entry =>
    obtain ⟨key, value⟩ := entry
    rw [signature_entry h hentry]
    exact ⟨rfl, rfl, rfl, rfl, rfl, rfl, rfl, rfl, rfl⟩

theorem signedLines_same (lines : List Text) (h : SameFields view view') :
    SameFields (lines.foldl (fun view line => parseBufferLine parseManifestLine line view) view)
      ((lines.filter fun line => !signatureLine line).foldl (fun view line => parseBufferLine parseManifestLine line view) view') := by
  induction lines generalizing view view' with
  | nil => exact h
  | cons line lines ih =>
    cases hsig : signatureLine line with
    | true =>
      rw [filter_cons_of_neg (by simp [hsig]), foldl_cons]
      exact ih ((signature_same hsig view).trans h)
    | false =>
      rw [filter_cons_of_pos (by simp [hsig]), foldl_cons, foldl_cons]
      exact ih (bufferLine_same h line)

theorem captured_parse {captured : UpdateManifestView} (h : updateAgentManifestCaptureSignedText buffer view = some captured)
    {target target' : UpdateManifestView} (hsame : SameFields target target') :
    SameFields (updateAgentParseBuffer parseManifestLine buffer target)
      (updateAgentParseBuffer parseManifestLine captured.signedText target') := by
  obtain ⟨⟨signed, count⟩, hcapture, rfl⟩ := Option.map_eq_some_iff.mp h
  rw [parse_fold, parse_fold, captured_lines hcapture (.inl (.inl rfl))]
  exact signedLines_same (bufferLines buffer) hsame

theorem manifestLine_count (key value : Text) (view : UpdateManifestView) :
    (parseManifestLine key value view).signatureLineCount = view.signatureLineCount := by
  unfold parseManifestLine
  split_ifs <;> rfl

theorem manifest_count (buffer : Text) (view : UpdateManifestView) :
    (updateAgentParseBuffer parseManifestLine buffer view).signatureLineCount = view.signatureLineCount := by
  rw [parse_fold]
  induction bufferLines buffer generalizing view with
  | nil => rfl
  | cons line lines ih =>
    rw [foldl_cons, ih]
    unfold parseBufferLine
    split
    · rfl
    · exact manifestLine_count _ _ _

theorem read_count (h : updateAgentReadManifestView (some buffer) = .ok view) :
    view.signatureLineCount = min 255 ((bufferLines buffer).countP signatureLine) := by
  unfold updateAgentReadManifestView at h
  dsimp only at h
  split at h
  · cases h
  split at h
  · cases h
  rename_i captured hcaptured
  split at h
  · cases h
  cases h
  obtain ⟨⟨signed, count⟩, hcapture, rfl⟩ := Option.map_eq_some_iff.mp hcaptured
  rw [manifest_count]
  exact (captured_count hcapture (Nat.zero_le 255)).trans (by rw [Nat.zero_add])

/-- What a manifest says is in its signed text. -/
theorem manifest_signed (buffer : Text) (view captured : UpdateManifestView)
    (h : updateAgentManifestCaptureSignedText buffer view = some captured) :
    (∀ target target', SameFields target target' →
      SameFields (updateAgentParseBuffer parseManifestLine buffer target)
        (updateAgentParseBuffer parseManifestLine captured.signedText target')) ∧
    ∀ buffer' view' captured', updateAgentManifestCaptureSignedText buffer' view' = some captured' →
      captured'.signedText = captured.signedText → ∀ target target', SameFields target target' →
        SameFields (updateAgentParseBuffer parseManifestLine buffer target)
          (updateAgentParseBuffer parseManifestLine buffer' target') := by
  refine ⟨fun _ _ hsame => captured_parse h hsame, fun buffer' view' captured' h' htext target target' hsame => ?_⟩
  have hleft := captured_parse h hsame
  have hright := captured_parse h' (.refl target')
  rw [htext] at hright
  exact hleft.trans hright.symm

theorem manifest_signed_example :
    let buffer := "available_version=1.2.3\nsignature_ed25519=ab\nchannel=stable".toList
    ∃ captured, updateAgentManifestCaptureSignedText buffer .empty = some captured ∧
      captured.signedText = "available_version=1.2.3\nchannel=stable".toList ∧
      SameFields (updateAgentParseBuffer parseManifestLine buffer .empty)
        (updateAgentParseBuffer parseManifestLine captured.signedText .empty) := by
  have h : updateAgentManifestCaptureSignedText "available_version=1.2.3\nsignature_ed25519=ab\nchannel=stable".toList .empty =
      some { UpdateManifestView.empty with
        signedText := "available_version=1.2.3\nchannel=stable".toList, signatureLineCount := 1 } := by
    unfold updateAgentManifestCaptureSignedText
    iterate 4
      unfold captureSignedFrom
      simp +decide
  exact ⟨_, h, rfl, (manifest_signed _ _ _ h).1 _ _ (.refl _)⟩

end CapyOS.Proofs
