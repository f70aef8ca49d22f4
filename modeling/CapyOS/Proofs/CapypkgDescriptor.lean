import CapyOS.Proofs.CapypkgRoundTrip
import CapyOS.Proofs.CapypkgTrust

namespace CapyOS.Proofs
open Capypkg List
variable {e e' : CapypkgEntry} {env : CapypkgEnv}

/-! ## The descriptor of a package -/

def descriptorText (e : CapypkgEntry) : Text :=
  "name=".toList ++ (e.name ++ '|' :: ("version=".toList ++ (e.version ++ '|' ::
    ("payload_sha256=".toList ++ e.payloadSha256 ++
      ("|payload_url=".toList ++ (e.payloadUrl ++ ['\n']))))))

/-- The buffer has room for the longest fields there can be. -/
theorem descriptor_whole (h : Fields e) : buildSignedDescriptor e = descriptorText e := by
  have hname := h.name.1
  have hversion := h.version.1
  have hsha := h.payloadSha256.1
  have hurl := h.payloadUrl.1
  have hjoin := localAppend_foldl
    (capypkgNameMax + capypkgVersionMax + (capypkgSha256HexLen + 1) + capypkgUrlMax + 64)
    ["name=".toList, e.name, "|version=".toList, e.version, "|payload_sha256=".toList, e.payloadSha256,
      "|payload_url=".toList, e.payloadUrl, "\n".toList] []
  rw [take_nil] at hjoin
  have hflat : ["name=".toList, e.name, "|version=".toList, e.version, "|payload_sha256=".toList, e.payloadSha256,
      "|payload_url=".toList, e.payloadUrl, "\n".toList].flatten = descriptorText e := by
    simp [descriptorText]
  calc buildSignedDescriptor e = _ := hjoin
    _ = descriptorText e := by
      rw [nil_append, hflat]
      refine take_of_length_le ?_
      simp only [descriptorText, capypkgNameMax, capypkgVersionMax, capypkgSha256HexLen, capypkgUrlMax] at *
      simp
      omega

/-- A text in front of a delimiter cannot reach into what follows the same delimiter
elsewhere, as long as that is free of it. -/
theorem delimiter_reach {d : Char} {v v' w r r' : Text} (h : v ++ d :: (w ++ r) = v' ++ d :: r')
    (hw : d ∉ w) (hreach : v'.length ≤ v.length + w.length) : v'.length ≤ v.length := by
  refine Nat.le_of_not_lt fun hlt => hw ?_
  obtain ⟨k, hk⟩ : ∃ k, v'.length = v.length + (k + 1) := ⟨v'.length - v.length - 1, by omega⟩
  have hchar : (v ++ d :: (w ++ r))[v'.length]? = (v' ++ d :: r')[v'.length]? := by rw [h]
  rw [List.getElem?_append_right (Nat.le_refl _), Nat.sub_self, List.getElem?_cons_zero, hk,
    List.getElem?_append_right (Nat.le_add_right _ _), Nat.add_sub_cancel_left, List.getElem?_cons_succ,
    List.getElem?_append_left (by omega)] at hchar
  exact mem_of_getElem? hchar

theorem delimited_inj {d : Char} {v v' w w' r r' : Text} (h : v ++ d :: (w ++ r) = v' ++ d :: (w' ++ r'))
    (hw : d ∉ w) (hw' : d ∉ w') (hreach : v'.length ≤ v.length + w.length)
    (hreach' : v.length ≤ v'.length + w'.length) : v = v' ∧ w ++ r = w' ++ r' := by
  have hlen : v.length = v'.length :=
    Nat.le_antisymm (delimiter_reach h.symm hw' hreach') (delimiter_reach h hw hreach)
  obtain ⟨hv, hrest⟩ := append_inj h hlen
  exact ⟨hv, (List.cons.inj hrest).2⟩

theorem hex_no_bar {text : Text} {n : Nat} (h : hexStringValid text n = true) : '|' ∉ text := by
  intro hbar
  simp only [hexStringValid, Bool.and_eq_true] at h
  exact absurd (List.all_eq_true.mp h.2 '|' hbar) (by decide)

theorem safe_no_bar {name : Text} (h : nameIsSafe name = true) : '|' ∉ name := by
  intro hbar
  exact absurd (safe_range h hbar).2 (by decide)

theorem descriptorText_inj (h : Stored e) (h' : Stored e') (heq : descriptorText e = descriptorText e') :
    e.name = e'.name ∧ e.version = e'.version ∧ e.payloadSha256 = e'.payloadSha256 ∧ e.payloadUrl = e'.payloadUrl := by
  have hname := append_cancel_left heq
  have hsplit := split_at (safe_no_bar h.valid.name) ("version=".toList ++ (e.version ++ '|' ::
    ("payload_sha256=".toList ++ e.payloadSha256 ++ ("|payload_url=".toList ++ (e.payloadUrl ++ ['\n'])))))
  have hsplit' := split_at (safe_no_bar h'.valid.name) ("version=".toList ++ (e'.version ++ '|' ::
    ("payload_sha256=".toList ++ e'.payloadSha256 ++ ("|payload_url=".toList ++ (e'.payloadUrl ++ ['\n'])))))
  rw [hname] at hsplit
  have hversion := append_cancel_left (hsplit.2.symm.trans hsplit'.2)
  have hlen := (hex_ne h.valid.payloadSha256).1
  have hlen' := (hex_ne h'.valid.payloadSha256).1
  have hbar : ∀ {text : Text}, hexStringValid text capypkgSha256HexLen = true →
      '|' ∉ "payload_sha256=".toList ++ text := by
    intro text hhex hmem
    rcases List.mem_append.mp hmem with hmem | hmem
    · exact absurd hmem (by decide)
    · exact hex_no_bar hhex hmem
  have hshort := h.fields.version.1
  have hshort' := h'.fields.version.1
  simp only [capypkgSha256HexLen] at hlen hlen'
  simp only [capypkgVersionMax] at hshort hshort'
  obtain ⟨hv, hsha⟩ := delimited_inj hversion (hbar h.valid.payloadSha256) (hbar h'.valid.payloadSha256)
    (by rw [length_append]; omega) (by rw [length_append]; omega)
  rw [append_assoc, append_assoc] at hsha
  obtain ⟨hdigest, hurl⟩ := append_inj (append_cancel_left hsha) (hlen.trans hlen'.symm)
  exact ⟨hsplit.1.symm.trans hsplit'.1, hv, hdigest, append_cancel_right (append_cancel_left hurl)⟩

/-! ## The envelope of an index -/

def envelopeLines (token epoch bodySha signature : Text) : Text :=
  "#capyos-modules-index-v2\n".toList ++ ("#index_abi_token=".toList ++ token ++ ['\n']) ++
  ("#index_epoch=".toList ++ epoch ++ ['\n']) ++ ("#index_body_sha256=".toList ++ bodySha ++ ['\n']) ++
  ("#index_signature_ed25519=".toList ++ signature ++ ['\n'])

theorem startsWith_split {text pre : Text} (h : localStartsWith text pre = true) : text = pre ++ text.drop pre.length :=
  (List.prefix_iff_eq_append.mp (List.isPrefixOf_iff_prefix.mp h)).symm

theorem takeLine_split {text : Text} (h : '\n' ∈ text) : text = (takeLine text).1 ++ '\n' :: (takeLine text).2 := by
  obtain ⟨line, rest, htext, hline⟩ := eq_append_cons_of_mem h
  rw [htext, takeLine_line hline]

/-- A line that was taken stands at the start of the text. -/
theorem indexLine_split {text pre value rest : Text} {size : Nat}
    (h : indexLineValue text pre size = some (value, rest)) : text = pre ++ value ++ ['\n'] ++ rest := by
  unfold indexLineValue at h
  split at h
  · exact nomatch h
  next hpre =>
    dsimp only at h
    split at h
    · exact nomatch h
    next hline =>
      split at h
      · exact nomatch h
      · simp only [Option.some.injEq, Prod.mk.injEq] at h
        have hstart := @startsWith_split text pre (by simpa using hpre)
        have hsplit := takeLine_split (Decidable.not_not.mp hline)
        rw [h.1, h.2] at hsplit
        rw [hsplit] at hstart
        simpa using hstart

theorem lines_split {p q r t u text rest₁ rest₂ rest₃ body token epoch bodySha signature : Text} {a b c d : Nat}
    (hformat : localStartsWith text p = true) (htoken : indexLineValue (text.drop p.length) q a = some (token, rest₁))
    (hepoch : indexLineValue rest₁ r b = some (epoch, rest₂)) (hsha : indexLineValue rest₂ t c = some (bodySha, rest₃))
    (hsig : indexLineValue rest₃ u d = some (signature, body)) :
    text = p ++ (q ++ token ++ ['\n']) ++ (r ++ epoch ++ ['\n']) ++ (t ++ bodySha ++ ['\n']) ++
      (u ++ signature ++ ['\n']) ++ body := by
  rw [startsWith_split hformat, indexLine_split htoken, indexLine_split hepoch, indexLine_split hsha, indexLine_split hsig]
  simp only [append_assoc]

theorem envelope_split {text body : Text} (h : verifyIndexEnvelope env text = some body) :
    ∃ token epoch bodySha signature, text = envelopeLines token epoch bodySha signature ++ body ∧
      digestHex (env.sha256 body) = bodySha := by
  unfold verifyIndexEnvelope at h
  dsimp only at h
  split at h
  · exact nomatch h
  next hformat =>
    simp only [Option.bind_eq_bind, Option.bind_eq_some_iff] at h
    obtain ⟨⟨token, rest₁⟩, htoken, ⟨epoch, rest₂⟩, hepoch, ⟨bodySha, rest₃⟩, hsha, ⟨signature, body'⟩, hsig,
      accepts, -, h⟩ := h
    split at h
    · exact nomatch h
    split at h
    · exact nomatch h
    next hdigest =>
      split at h
      · cases h
        refine ⟨token, epoch, bodySha, signature, ?_, Decidable.not_not.mp hdigest⟩
        have hstart : localStartsWith text "#capyos-modules-index-v2\n".toList = true := by
          simpa using (not_or.mp hformat).2
        exact lines_split hstart htoken hepoch hsha hsig
      · exact nomatch h

/-- A signature is over one package alone, and the entries taken from an index are those
of its authenticated body, whatever the lines in front of it are. -/
theorem signature_binds {text text' rest rest' : Text} (h : manifestParseEntry text = (.ok, e, rest))
    (h' : manifestParseEntry text' = (.ok, e', rest')) :
    (buildSignedDescriptor e = buildSignedDescriptor e' →
      e.name = e'.name ∧ e.version = e'.version ∧ e.payloadSha256 = e'.payloadSha256 ∧
      e.payloadUrl = e'.payloadUrl) ∧
    ∀ (env : CapypkgEnv) (repo : CapypkgRepo) (index body : Text), repo.requireSignature = true →
      repo.indexUrl = capypkgDefaultRepoUrl → verifyIndexEnvelope env index = some body →
      (∃ token epoch bodySha signature, index = envelopeLines token epoch bodySha signature ++ body ∧
        digestHex (env.sha256 body) = bodySha) ∧
      ∀ (env' : CapypkgEnv) (index' : Text), verifyIndexEnvelope env' index' = some body →
        ∀ attempt attempt' room last, fetchText env repo.indexUrl attempt 4 = some index →
          fetchText env' repo.indexUrl attempt' 4 = some index' →
          fetchRepo env attempt repo room last = takeEntries repo true body.length room body last ∧
          fetchRepo env' attempt' repo room last = fetchRepo env attempt repo room last := by
  have hstored := parse_stored h
  have hstored' := parse_stored h'
  refine ⟨fun heq => ?_, fun env repo index body hsigned hurl hbody => ⟨envelope_split hbody, ?_⟩⟩
  · rw [descriptor_whole hstored.fields, descriptor_whole hstored'.fields] at heq
    exact descriptorText_inj hstored hstored' heq
  · intro env' index' hbody' attempt attempt' room last hfetch hfetch'
    have hentries : ∀ (env : CapypkgEnv) (attempt : Nat) (index : Text),
        fetchText env repo.indexUrl attempt 4 = some index → verifyIndexEnvelope env index = some body →
        fetchRepo env attempt repo room last = takeEntries repo true body.length room body last := by
      intro env attempt index hfetch hbody
      have hdefault : (repo.requireSignature && decide (repo.indexUrl = capypkgDefaultRepoUrl)) = true := by
        simp [hsigned, hurl]
      rw [fetchRepo, hfetch]
      dsimp only
      rw [if_pos hdefault, hbody]
    exact ⟨hentries env attempt index hfetch hbody,
      (hentries env' attempt' index' hfetch' hbody').trans (hentries env attempt index hfetch hbody).symm⟩

theorem signature_binds_summary :
    ∃ e e' : CapypkgEntry, e ≠ e' ∧ e.name = e'.name ∧ e.payloadUrl = e'.payloadUrl := by
  have h : manifestParseEntry (oneIndex []) = (.ok, onePackage [] [], []) := by decide +kernel
  have h' : manifestParseEntry (oneIndex "\nrepo=lab\n".toList) = (.ok, onePackage [] "lab".toList, []) := by
    decide +kernel
  have hsame := (signature_binds h h').1 (by decide +kernel)
  exact ⟨_, _, by decide +kernel, hsame.1, hsame.2.2.2⟩

end CapyOS.Proofs
