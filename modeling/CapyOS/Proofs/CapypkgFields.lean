import CapyOS.Services.CapypkgPersist
import CapyOS.Proofs.CapypkgDependencies

namespace CapyOS.Proofs
open List

variable {text : Text}
variable {e e' e'' : CapypkgEntry}

/-! ## What a descriptor that is accepted looks like -/

def Fits (size : Nat) (text : Text) : Prop := text.length < size ∧ valueIsPrintableAscii text = true

structure Fields (e : CapypkgEntry) : Prop where
  name : Fits capypkgNameMax e.name
  version : Fits capypkgVersionMax e.version
  summary : Fits capypkgSummaryMax e.summary
  sourceRepo : Fits capypkgRepoNameMax e.sourceRepo
  payloadUrl : Fits capypkgUrlMax e.payloadUrl
  payloadSha256 : Fits (capypkgSha256HexLen + 1) e.payloadSha256
  signatureHex : Fits (capypkgSigHexLen + 1) e.signatureHex
  installRoot : Fits capypkgPathMax e.installRoot
  providesAbi : Fits capypkgNameMax e.providesAbi
  abiVersion : Fits capypkgVersionMax e.abiVersion
  depCount : e.deps.length ≤ capypkgMaxDeps
  deps : ∀ d ∈ e.deps, d.length < capypkgNameMax ∧ nameIsSafe d = true
  sizeBytes : e.sizeBytes < 2 ^ 32
  sizeMax : e.sizeBytes ≤ capypkgPayloadMax
  coreAbiMin : e.coreAbiMin < 2 ^ 32
  coreAbiMax : e.coreAbiMax < 2 ^ 32
  knownGood : e.knownGood ≤ 1

structure EntryValid (e : CapypkgEntry) : Prop where
  name : nameIsSafe e.name = true
  version : e.version ≠ []
  payloadUrl : localStartsWith e.payloadUrl "https://".toList = true
  payloadSha256 : hexStringValid e.payloadSha256 capypkgSha256HexLen = true
  signatureHex : e.signatureHex ≠ [] → hexStringValid e.signatureHex capypkgSigHexLen = true
  absolute : e.installRoot.head? = some '/'
  dotdot : pathHasDotdotSegment e.installRoot = false
  under : (pathIsUnder e.installRoot capypkgDirVar || pathIsUnder e.installRoot "/opt/".toList) = true

structure Stored (e : CapypkgEntry) : Prop where
  fields : Fields e
  valid : EntryValid e

theorem EntryValid.name_ne (h : EntryValid e) : e.name ≠ [] := by
  intro hn
  have hs := h.name
  rw [hn] at hs
  exact Bool.noConfusion hs

theorem EntryValid.url_ne (h : EntryValid e) : e.payloadUrl ≠ [] := by
  intro hn
  have hs := h.payloadUrl
  rw [hn] at hs
  exact absurd hs (by decide)

theorem hex_ne {n : Nat} (h : hexStringValid text n = true) : text.length = n ∧ text ≠ [] := by
  unfold hexStringValid at h
  simp only [Bool.and_eq_true, decide_eq_true_eq, ne_eq] at h
  exact h.1

theorem printable_take (n : Nat) (h : valueIsPrintableAscii text = true) :
    valueIsPrintableAscii (text.take n) = true := by
  unfold valueIsPrintableAscii at h ⊢
  rw [all_eq_true] at h ⊢
  exact fun c hc => h c (mem_of_mem_take hc)

theorem copyField_fits {size : Nat} (hs : 0 < size) (h : valueIsPrintableAscii text = true) :
    Fits size (copyField size text) := by
  refine ⟨?_, printable_take _ h⟩
  rw [copyField, length_take]
  omega

theorem copyField_eq {size : Nat} (h : text.length < size) : copyField size text = text :=
  take_of_length_le (by omega)

theorem printable_append {a b : Text} (ha : valueIsPrintableAscii a = true) (hb : valueIsPrintableAscii b = true) :
    valueIsPrintableAscii (a ++ b) = true := by
  unfold valueIsPrintableAscii at *
  rw [all_append, ha, hb]
  rfl

theorem parseDigits_lt {v w : Nat} (hv : v < 2 ^ 32) (h : parseUint32Digits v text = some w) : w < 2 ^ 32 := by
  induction text generalizing v with
  | nil =>
    cases h
    exact hv
  | cons c rest ih =>
    rw [parseUint32Digits] at h
    split at h
    · dsimp only at h
      split at h
      · cases h
      next hdigit hle =>
        refine ih ?_ h
        have hc : c.toNat ≤ 57 := hdigit.2
        have hz : '0'.toNat = 48 := rfl
        omega
    · cases h

theorem parseUint32_lt {v : Nat} (h : parseUint32 text = some v) : v < 2 ^ 32 := by
  unfold parseUint32 at h
  split at h
  · cases h
  · exact parseDigits_lt (by decide) h

theorem appendDependencies_fields (items : List Text) (h : Fields e) (hok : (appendDependencies e items).1 = .ok) :
    Fields (appendDependencies e items).2 := by
  induction items generalizing e with
  | nil => exact h
  | cons item items ih =>
    rw [appendDependencies] at hok ⊢
    dsimp only at hok ⊢
    split at hok
    next hspan =>
      rw [if_pos hspan]
      exact ih h hok
    next hspan =>
      rw [if_neg hspan]
      split at hok
      · cases hok
      next hroom =>
        rw [if_neg hroom]
        split at hok
        next hsafe =>
          rw [if_pos hsafe]
          refine ih { h with depCount := ?_, deps := ?_ } hok
          · simp only [length_append, length_singleton]
            omega
          · intro d hd
            cases List.mem_append.mp hd with
            | inl hd => exact h.deps d hd
            | inr hd =>
              rw [List.mem_singleton.mp hd]
              refine ⟨?_, hsafe⟩
              rw [copyField, length_take]
              exact Nat.lt_of_le_of_lt (Nat.min_le_left _ _) (by decide)
        · cases hok

theorem ite_elim {α : Type} {c P : Prop} [Decidable c] {a b r : α} (h : (if c then a else b) = r) (ha : c → a = r → P)
    (hb : ¬c → b = r → P) : P := by
  by_cases hc : c
  · exact ha hc ((if_pos hc).symm.trans h)
  · exact hb hc ((if_neg hc).symm.trans h)

theorem setNumber_fields {value : Text} (set : Nat → CapypkgEntry) (hset : ∀ v < 2 ^ 32, Fields (set v))
    (hok : (match parseUint32 value with
      | none => (CapypkgResult.parse, e)
      | some v => (.ok, set v)) = (.ok, e')) : Fields e' := by
  split at hok
  · cases hok
  next v hv =>
    cases hok
    exact hset v (parseUint32_lt hv)

theorem applyKv_fields {key value : Text} (h : Fields e) (hok : applyKv e key value = (.ok, e')) : Fields e' := by
  rw [applyKv] at hok
  refine ite_elim hok (fun _ hok => nomatch hok) fun hp hok => ?_
  replace hp : valueIsPrintableAscii value = true := by simpa using hp
  have hset {e₁ : CapypkgEntry} (hf : Fields e₁) (hok : ((.ok, e₁) : CapypkgResult × CapypkgEntry) = (.ok, e')) :
      Fields e' := by
    cases hok
    exact hf
  refine ite_elim hok (fun _ => hset { h with name := copyField_fits (by decide) hp }) fun _ hok => ?_
  refine ite_elim hok (fun _ => hset { h with version := copyField_fits (by decide) hp }) fun _ hok => ?_
  refine ite_elim hok (fun _ => hset { h with summary := copyField_fits (by decide) hp }) fun _ hok => ?_
  refine ite_elim hok (fun _ => hset { h with payloadUrl := copyField_fits (by decide) hp }) fun _ hok => ?_
  refine ite_elim hok (fun _ => hset { h with payloadSha256 := copyField_fits (by decide) hp }) fun _ hok => ?_
  refine ite_elim hok (fun _ hok => ?_) fun _ hok => ?_
  · split at hok
    · cases hok
    next size hsize =>
      refine ite_elim hok (fun _ hok => nomatch hok) fun hmax => ?_
      exact hset { h with sizeBytes := parseUint32_lt hsize, sizeMax := Nat.le_of_not_lt hmax }
  refine ite_elim hok (fun _ => hset { h with signatureHex := copyField_fits (by decide) hp }) fun _ hok => ?_
  refine ite_elim hok (fun _ => hset { h with installRoot := copyField_fits (by decide) hp }) fun _ hok => ?_
  refine ite_elim hok (fun _ => hset { h with providesAbi := copyField_fits (by decide) hp }) fun _ hok => ?_
  refine ite_elim hok (fun _ => hset { h with abiVersion := copyField_fits (by decide) hp }) fun _ hok => ?_
  refine ite_elim hok (fun _ hok => setNumber_fields (fun v => { e with coreAbiMin := v })
    (fun v hv => { h with coreAbiMin := hv }) hok) fun _ hok => ?_
  refine ite_elim hok (fun _ hok => setNumber_fields (fun v => { e with coreAbiMax := v })
    (fun v hv => { h with coreAbiMax := hv }) hok) fun _ hok => ?_
  refine ite_elim hok (fun _ hok => ?_) fun _ hok => ?_
  · split at hok
    · cases hok
    next flag hflag =>
      refine ite_elim hok (fun _ hok => nomatch hok) fun hle => ?_
      exact hset { h with knownGood := Nat.le_of_not_lt hle }
  refine ite_elim hok (fun _ hok => ?_) fun _ hok => ?_
  · have he : (appendDependencies e (commaItems value)).2 = e' := congrArg Prod.snd hok
    rw [← he]
    exact appendDependencies_fields (commaItems value) h (congrArg Prod.fst hok)
  exact ite_elim hok (fun _ => hset { h with sourceRepo := copyField_fits (by decide) hp }) fun _ => hset h

theorem parseLines_fields {n : Nat} {text rest : Text} (h : Fields e) (hok : parseLines n e text = (.ok, e', rest)) :
    Fields e' := by
  induction n generalizing e text with
  | zero =>
    cases hok
    exact h
  | succ n ih =>
    rw [parseLines] at hok
    dsimp only at hok
    split at hok
    · cases hok
      exact h
    split at hok
    · cases hok
      exact h
    split at hok
    · exact ih h hok
    split at hok
    · exact ih h hok
    split at hok
    next e₁ hkv => exact ih (applyKv_fields h hkv) hok
    next rc e₁ hne hkv =>
      cases hok
      exact absurd rfl hne

theorem emptyEntry_fields : Fields emptyEntry := by
  constructor <;> first | exact ⟨by decide, rfl⟩ | exact fun _ hd => absurd hd not_mem_nil | decide

theorem default_root_fits {name : Text} (hn : valueIsPrintableAscii name = true) : Fits capypkgPathMax
    (localAppend capypkgPathMax (localAppend capypkgPathMax (localCopy capypkgPathMax capypkgDirVar) "/".toList) name) := by
  have hdir : valueIsPrintableAscii capypkgDirVar = true := by decide
  have hslash : valueIsPrintableAscii "/".toList = true := by decide
  refine ⟨?_, ?_⟩
  · rw [localAppend, length_take]
    exact Nat.lt_of_le_of_lt (Nat.min_le_left _ _) (by decide)
  · exact printable_take _ (printable_append
      (printable_take _ (printable_append (printable_take _ hdir) hslash)) hn)

theorem validate_stored (h : Fields e) (hok : validateRequiredFields e = (.ok, e')) : Stored e' := by
  have hroot : Fits capypkgPathMax (if e.installRoot = [] then
      localAppend capypkgPathMax (localAppend capypkgPathMax (localCopy capypkgPathMax capypkgDirVar) "/".toList) e.name
      else e.installRoot) := by
    split
    · exact default_root_fits h.name.2
    · exact h.installRoot
  unfold validateRequiredFields at hok
  generalize (if e.installRoot = [] then
    localAppend capypkgPathMax (localAppend capypkgPathMax (localCopy capypkgPathMax capypkgDirVar) "/".toList) e.name
    else e.installRoot) = root at hok hroot
  dsimp only at hok
  split at hok
  · cases hok
  next hreq =>
    simp only [not_or] at hreq
    split at hok
    · cases hok
    next hname =>
      split at hok
      · cases hok
      next hsha =>
        split at hok
        · cases hok
        next hsig =>
          split at hok
          · cases hok
          next hurl =>
            split at hok
            · cases hok
            next habs =>
              split at hok
              · cases hok
              next hdot =>
                split at hok
                · cases hok
                next hunder =>
                  cases hok
                  refine ⟨{ h with installRoot := hroot }, ?_, hreq.2.1, ?_, ?_, ?_, ?_, ?_, ?_⟩
                  · simpa using hname
                  · simpa using hurl
                  · simpa using hsha
                  · intro hne
                    simpa [hne] using hsig
                  · simpa using habs
                  · simpa using hdot
                  · exact eq_true_of_ne_false fun hf => hunder (by rw [hf]; rfl)

/-- An entry that `capypkg_manifest_parse_entry` accepts. -/
theorem parse_stored {text rest : Text} (h : manifestParseEntry text = (.ok, e, rest)) : Stored e := by
  unfold manifestParseEntry at h
  split at h
  next e₁ rest₁ hl =>
    simp only [Prod.mk.injEq] at h
    exact validate_stored (parseLines_fields emptyEntry_fields hl) (Prod.ext h.1 h.2.1)
  next rc e₁ rest₁ hne hl =>
    cases h
    exact absurd rfl hne

end CapyOS.Proofs
