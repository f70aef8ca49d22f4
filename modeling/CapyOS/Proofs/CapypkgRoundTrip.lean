import CapyOS.Proofs.CapypkgFields

namespace CapyOS.Proofs
open List Nat

variable {name : Text} {v : Nat} {deps : List Text} {c : Char}
variable {e e' e'' : CapypkgEntry}

/-! ## The text of an entry as lines -/

def fieldText (kv : Text × Text) : Text := '\n' :: (kv.1 ++ '=' :: kv.2)

/-- A field as a line `key=value\n`. -/
def fieldLine (kv : Text × Text) : Text := kv.1 ++ '=' :: (kv.2 ++ ['\n'])

def fieldIf (c : Prop) [Decidable c] (key value : Text) : List (Text × Text) := if c then [(key, value)] else []

/-- The fields of an entry behind its name. -/
def entryFields (e : CapypkgEntry) : List (Text × Text) :=
  [("version".toList, e.version), ("payload_url".toList, e.payloadUrl), ("payload_sha256".toList, e.payloadSha256)] ++
  fieldIf (e.sizeBytes ≠ 0) "payload_size".toList (Nat.toDigits 10 e.sizeBytes) ++
  fieldIf (e.signatureHex ≠ []) "signature_ed25519".toList e.signatureHex ++
  [("install_root".toList, e.installRoot)] ++
  fieldIf (e.providesAbi ≠ []) "provides_abi".toList e.providesAbi ++
  fieldIf (e.abiVersion ≠ []) "abi_version".toList e.abiVersion ++
  fieldIf (e.coreAbiMin ≠ 0) "core_abi_min".toList (Nat.toDigits 10 e.coreAbiMin) ++
  fieldIf (e.coreAbiMax ≠ 0) "core_abi_max".toList (Nat.toDigits 10 e.coreAbiMax) ++
  fieldIf (e.providesAbi ≠ []) "known_good".toList (Nat.toDigits 10 e.knownGood) ++
  fieldIf (e.deps ≠ []) "depends".toList (e.deps.intersperse [',']).flatten ++
  fieldIf (e.sourceRepo ≠ []) "repo".toList e.sourceRepo ++
  fieldIf (e.summary ≠ []) "summary".toList e.summary

theorem fieldPieces_text (key value : Text) : (fieldPieces key value).flatten = [(key, value)].flatMap fieldText := by
  simp [fieldPieces, fieldText]

theorem fieldIf_text (c : Prop) [Decidable c] (key value : Text) :
    (if c then fieldPieces key value else []).flatten = (fieldIf c key value).flatMap fieldText := by
  unfold fieldIf
  split
  · exact fieldPieces_text key value
  · rfl

theorem deps_text (deps : List Text) :
    (if deps ≠ [] then ('\n' :: "depends=".toList) :: deps.intersperse [','] else []).flatten =
      (fieldIf (deps ≠ []) "depends".toList (deps.intersperse [',']).flatten).flatMap fieldText := by
  unfold fieldIf
  split
  · simp [fieldText]
  · rfl

theorem entryPieces_text (e : CapypkgEntry) :
    (entryPieces e).flatten = "name=".toList ++ e.name ++ (entryFields e).flatMap fieldText ++ "\n---\n".toList := by
  simp only [entryPieces, contractPieces, flatten_append, fieldIf_text, deps_text, fieldPieces_text, entryFields,
    flatMap_append, append_assoc, flatten_cons, flatten_nil, append_nil, flatMap_cons,
    flatMap_nil, nil_append, cons_append]

theorem fieldText_lines (kvs : List (Text × Text)) (text : Text) :
    kvs.flatMap fieldText ++ '\n' :: text = '\n' :: (kvs.flatMap fieldLine ++ text) := by
  induction kvs with
  | nil => rfl
  | cons kv kvs ih =>
    rw [flatMap_cons, append_assoc, ih, flatMap_cons]
    simp [fieldText, fieldLine]

/-- The text of an entry: its lines and the separator. -/
def entryText (e : CapypkgEntry) : Text :=
  (("name".toList, e.name) :: entryFields e).flatMap fieldLine ++ "---\n".toList

theorem entryPieces_lines (e : CapypkgEntry) : (entryPieces e).flatten = entryText e := by
  rw [entryPieces_text, append_assoc]
  have hsep : "\n---\n".toList = '\n' :: "---\n".toList := by simp
  have hname : "name=".toList = "name".toList ++ ['='] := by simp
  rw [hsep, fieldText_lines, hname, entryText, flatMap_cons, fieldLine]
  simp

theorem localAppend_foldl (size : Nat) (pieces : List Text) (text : Text) :
    pieces.foldl (localAppend size) (text.take (size - 1)) = (text ++ pieces.flatten).take (size - 1) := by
  induction pieces generalizing text with
  | nil => simp
  | cons piece pieces ih =>
    have hone : localAppend size (text.take (size - 1)) piece = (text ++ piece).take (size - 1) := by
      rw [localAppend, take_append, take_take, take_append, length_take, Nat.min_self]
      congr 2
      exact (Nat.sub_eq_sub_min _ _).symm
    rw [foldl_cons, hone, ih, flatten_cons, append_assoc]

def dbHeader : Text := "# capypkg db.idx v1\n".toList

/-- The text of the table, if there were room for all of it. -/
def dbText (installed : List CapypkgEntry) : Text := dbHeader ++ installed.flatMap entryText

theorem dbSerialize_text (installed : List CapypkgEntry) :
    dbSerialize installed = (dbText installed).take (capypkgDbBufferBytes - 1) := by
  have hflat : (installed.flatMap entryPieces).flatten = installed.flatMap entryText := by
    induction installed with
    | nil => rfl
    | cons e installed ih =>
      rw [flatMap_cons, flatten_append, ih, entryPieces_lines, flatMap_cons]
  rw [dbSerialize, localAppend, nil_append, localAppend_foldl, hflat]
  rfl

/-! ## Reading lines -/

theorem takeLine_line {line : Text} (h : '\n' ∉ line) (rest : Text) : takeLine (line ++ '\n' :: rest) = (line, rest) := by
  have hne : ∀ c ∈ line, c ≠ '\n' := fun c hc heq => h (heq ▸ hc)
  have htake : (line ++ '\n' :: rest).takeWhile (· ≠ '\n') = line := by
    rw [takeWhile_append_of_pos (by simpa using hne)]
    simp
  have hdrop : (line ++ '\n' :: rest).dropWhile (· ≠ '\n') = '\n' :: rest := by
    rw [dropWhile_append_of_pos (by simpa using hne)]
    simp
  rw [takeLine, htake, hdrop]
  rfl

theorem split_at {key : Text} {d : Char} (h : d ∉ key) (rest : Text) :
    (key ++ d :: rest).takeWhile (· ≠ d) = key ∧ ((key ++ d :: rest).dropWhile (· ≠ d)).drop 1 = rest := by
  have hne : ∀ c ∈ key, c ≠ d := fun c hc heq => h (heq ▸ hc)
  constructor
  · rw [takeWhile_append_of_pos (by simpa using hne)]
    simp
  · rw [dropWhile_append_of_pos (by simpa using hne)]
    simp

theorem printable_no_newline {text : Text} (h : valueIsPrintableAscii text = true) : '\n' ∉ text := by
  intro hn
  have hc := List.all_eq_true.mp h '\n' hn
  exact absurd hc (by decide)

def KeyOk (key : Text) : Prop := key ≠ [] ∧ '=' ∉ key ∧ '\n' ∉ key ∧ key.head? ≠ some '#'

instance (key : Text) : Decidable (KeyOk key) := by
  unfold KeyOk
  infer_instance

theorem applyKv_printable {key value : Text} (h : applyKv e key value = (.ok, e')) : valueIsPrintableAscii value = true := by
  rw [applyKv] at h
  refine ite_elim h (fun _ h => by cases h) fun hp _ => ?_
  simpa using hp

theorem parseLines_field {key value rest : Text} {n : Nat} (hk : KeyOk key) (h : applyKv e key value = (.ok, e')) :
    parseLines (n + 1) e (fieldLine (key, value) ++ rest) = parseLines n e' rest := by
  obtain ⟨hne, heq, hnl, hhash⟩ := hk
  have hval := printable_no_newline (applyKv_printable h)
  have hline : '\n' ∉ key ++ '=' :: value := by
    simp only [mem_append, mem_cons, not_or]
    exact ⟨hnl, by decide, hval⟩
  have htext : fieldLine (key, value) ++ rest = (key ++ '=' :: value) ++ '\n' :: rest := by
    simp [fieldLine]
  have hsep : lineIsSeparator (key ++ '=' :: value) = false := by
    rw [lineIsSeparator, decide_eq_false_iff_not]
    intro hs
    have hmem : '=' ∈ "---".toList := hs ▸ mem_append_right _ mem_cons_self
    exact absurd hmem (by simp)
  have hhead : ¬(key ++ '=' :: value = [] ∨ (key ++ '=' :: value).head? = some '#') := by
    rintro (hnil | hcomment)
    · simp at hnil
    · cases key with
      | nil => exact absurd rfl hne
      | cons c key => exact hhash hcomment
  obtain ⟨hkey, hvalue⟩ := split_at heq value
  rw [htext, parseLines]
  simp only [takeLine_line hline]
  rw [if_neg (by simp), if_neg (by rw [hsep]; exact Bool.false_ne_true), if_neg hhead, if_neg (by simp), hkey, hvalue, h]

/-- The fields take an entry to another, one after the other. -/
inductive Applies : CapypkgEntry → List (Text × Text) → CapypkgEntry → Prop
  | nil (e : CapypkgEntry) : Applies e [] e
  | cons {e e' e'' : CapypkgEntry} {key value : Text} {kvs : List (Text × Text)} :
      KeyOk key → applyKv e key value = (.ok, e') → Applies e' kvs e'' → Applies e ((key, value) :: kvs) e''

theorem Applies.append {kvs kvs' : List (Text × Text)} (h : Applies e kvs e') (h' : Applies e' kvs' e'') :
    Applies e (kvs ++ kvs') e'' := by
  induction h with
  | nil => exact h'
  | cons hk ha _ ih => exact .cons hk ha (ih h')

theorem parseLines_applies {kvs : List (Text × Text)} (h : Applies e kvs e') {n : Nat} (hn : kvs.length < n) (rest : Text) :
    parseLines n e (kvs.flatMap fieldLine ++ ("---\n".toList ++ rest)) = (.ok, e', rest) := by
  induction h generalizing n with
  | nil e =>
    cases n with
    | zero => exact absurd hn (Nat.not_lt_zero _)
    | succ n =>
      have htext : "---\n".toList ++ rest = "---".toList ++ '\n' :: rest := by
        have hsep : "---\n".toList = "---".toList ++ ['\n'] := by simp
        rw [hsep, append_assoc]
        rfl
      rw [flatMap_nil, nil_append, htext, parseLines]
      simp only [takeLine_line (show '\n' ∉ "---".toList by simp)]
      rw [if_neg (by simp), if_pos (by simp [lineIsSeparator])]
  | cons hk ha _ ih =>
    cases n with
    | zero => exact absurd hn (Nat.not_lt_zero _)
    | succ n =>
      rw [flatMap_cons, append_assoc, parseLines_field hk ha]
      exact ih (lt_of_succ_lt_succ hn)

/-! ## Numbers and lists -/

theorem parseDigits_append (v : Nat) (a b : Text) :
    parseUint32Digits v (a ++ b) = (parseUint32Digits v a).bind fun w => parseUint32Digits w b := by
  induction a generalizing v with
  | nil => rfl
  | cons c a ih =>
    simp only [cons_append, parseUint32Digits]
    split
    · split
      · rfl
      · exact ih _
    · rfl

theorem parseDigit {w d : Nat} (hd : d < 10) (hw : w * 10 + d < 2 ^ 32) :
    parseUint32Digits w [Nat.digitChar d] = some (w * 10 + d) := by
  have hdigit : ∀ d : Fin 10, ('0' ≤ Nat.digitChar d.val ∧ Nat.digitChar d.val ≤ '9') ∧
      (Nat.digitChar d.val).toNat - '0'.toNat = d.val := by decide
  obtain ⟨hrange, hval⟩ := hdigit ⟨d, hd⟩
  simp only [parseUint32Digits, if_pos hrange, hval]
  rw [if_neg (by omega)]

theorem parseDigits_toDigits (hv : v < 2 ^ 32) : parseUint32Digits 0 (Nat.toDigits 10 v) = some v := by
  induction v using Nat.strongRecOn with
  | ind v ih =>
    by_cases hlt : v < 10
    · rw [toDigits_of_lt_base hlt, parseDigit hlt (by omega)]
      simp
    · rw [toDigits_of_base_le (by decide) (by omega), parseDigits_append, ih (v / 10) (by omega) (by omega),
        Option.bind_some, parseDigit (mod_lt _ (by decide)) (by omega)]
      exact congrArg some (by omega)

theorem parseUint32_toDigits (hv : v < 2 ^ 32) : parseUint32 (Nat.toDigits 10 v) = some v := by
  rw [parseUint32, if_neg toDigits_ne_nil, parseDigits_toDigits hv]

theorem digits_printable (v : Nat) : valueIsPrintableAscii (Nat.toDigits 10 v) = true := by
  have hdigit : ∀ d : Fin 10, valueIsPrintableAscii [Nat.digitChar d.val] = true := by decide
  induction v using Nat.strongRecOn with
  | ind v ih =>
    by_cases hlt : v < 10
    · rw [toDigits_of_lt_base hlt]
      exact hdigit ⟨v, hlt⟩
    · rw [toDigits_of_base_le (by decide) (by omega)]
      exact printable_append (ih (v / 10) (by omega)) (hdigit ⟨v % 10, mod_lt _ (by decide)⟩)

theorem safe_char (h : nameIsSafe name = true) (hc : c ∈ name) :
    isAlnum c = true ∨ c = '.' ∨ c = '_' ∨ c = '-' := by
  simp only [nameIsSafe, Bool.and_eq_true, all_eq_true, Bool.or_eq_true, decide_eq_true_eq] at h
  have hc := h.1.2 c hc
  tauto

theorem safe_ne_nil (h : nameIsSafe name = true) : name ≠ [] := by
  rintro rfl
  exact Bool.noConfusion h

theorem alnum_range (h : isAlnum c = true) : 48 ≤ c.toNat ∧ c.toNat ≤ 122 := by
  simp only [isAlnum, Bool.or_eq_true, Bool.and_eq_true, decide_eq_true_eq] at h
  obtain (⟨h₁, h₂⟩ | ⟨h₁, h₂⟩) | ⟨h₁, h₂⟩ := h
  · have h₁ : 97 ≤ c.toNat := h₁
    exact ⟨by omega, h₂⟩
  · have h₁ : 65 ≤ c.toNat := h₁
    have h₂ : c.toNat ≤ 90 := h₂
    exact ⟨by omega, by omega⟩
  · have h₂ : c.toNat ≤ 57 := h₂
    exact ⟨h₁, by omega⟩

theorem safe_range (h : nameIsSafe name = true) (hc : c ∈ name) : 45 ≤ c.toNat ∧ c.toNat ≤ 122 := by
  obtain ha | rfl | rfl | rfl := safe_char h hc
  · exact ⟨Nat.le_trans (by decide) (alnum_range ha).1, (alnum_range ha).2⟩
  · decide
  · decide
  · decide

theorem safe_printable (h : nameIsSafe name = true) : valueIsPrintableAscii name = true := by
  rw [valueIsPrintableAscii, all_eq_true]
  intro c hc
  obtain ⟨hlo, hhi⟩ := safe_range h hc
  simp only [Bool.and_eq_true, decide_eq_true_eq]
  omega

theorem commaItems_append {item : Text} (h : ',' ∉ item) (rest : Text) :
    commaItems (item ++ ',' :: rest) = item :: commaItems rest := by
  induction item with
  | nil => simp [commaItems]
  | cons c item ih =>
    simp only [mem_cons, not_or] at h
    rw [cons_append, commaItems, if_neg (Ne.symm h.1), ih h.2]

theorem commaItems_single {item : Text} (h : ',' ∉ item) : commaItems item = [item] := by
  induction item with
  | nil => rfl
  | cons c item ih =>
    simp only [mem_cons, not_or] at h
    rw [commaItems, if_neg (Ne.symm h.1), ih h.2]

theorem commaItems_intersperse (hne : deps ≠ []) (h : ∀ d ∈ deps, ',' ∉ d) :
    commaItems (deps.intersperse [',']).flatten = deps := by
  induction deps with
  | nil => exact absurd rfl hne
  | cons d deps ih =>
    cases deps with
    | nil => simpa using commaItems_single (h d mem_cons_self)
    | cons d' deps =>
      have htext : ((d :: d' :: deps).intersperse [',']).flatten = d ++ ',' :: ((d' :: deps).intersperse [',']).flatten := by
        simp
      rw [htext, commaItems_append (h d mem_cons_self)]
      rw [ih (cons_ne_nil _ _) fun x hx => h x (mem_cons_of_mem _ hx)]

theorem trim_safe (h : nameIsSafe name = true) : trimBlanks name = name := by
  have hfix (t : Text) (ht : ∀ c ∈ t, 45 ≤ c.toNat) : (t.dropWhile fun c => c = ' ' || c = '\t') = t := by
    cases t with
    | nil => rfl
    | cons c t =>
      have hc := ht c mem_cons_self
      have hblank : ¬((decide (c = ' ') || decide (c = '\t')) = true) := by
        rw [Bool.or_eq_true, decide_eq_true_eq, decide_eq_true_eq]
        rintro (rfl | rfl) <;> exact absurd hc (by decide)
      rw [dropWhile_cons, if_neg hblank]
  have hlo : ∀ c ∈ name, 45 ≤ c.toNat := fun c hc => (safe_range h hc).1
  rw [trimBlanks, hfix name hlo, hfix name.reverse fun c hc => hlo c (List.mem_reverse.mp hc), reverse_reverse]

theorem appendDependencies_safe (deps : List Text) (e : CapypkgEntry) (hroom : e.deps.length + deps.length ≤ capypkgMaxDeps)
    (h : ∀ d ∈ deps, d.length < capypkgNameMax ∧ nameIsSafe d = true) :
    appendDependencies e deps = (.ok, { e with deps := e.deps ++ deps }) := by
  induction deps generalizing e with
  | nil => simp [appendDependencies]
  | cons d deps ih =>
    obtain ⟨hlen, hsafe⟩ := h d mem_cons_self
    rw [length_cons] at hroom
    rw [appendDependencies]
    simp only [trim_safe hsafe, copyField_eq hlen, hsafe]
    rw [if_neg (safe_ne_nil hsafe), if_neg (by omega), if_pos trivial, ih]
    · simp
    · simp only [length_append, length_singleton]
      omega
    · exact fun x hx => h x (mem_cons_of_mem _ hx)

/-! ## Fields -/

section
variable {value : Text} (hp : valueIsPrintableAscii value = true)
include hp

theorem apply_name (e : CapypkgEntry) (hl : value.length < capypkgNameMax) :
    applyKv e "name".toList value = (.ok, { e with name := value }) := by
  simp [applyKv, hp, copyField_eq hl]

theorem apply_version (e : CapypkgEntry) (hl : value.length < capypkgVersionMax) :
    applyKv e "version".toList value = (.ok, { e with version := value }) := by
  simp [applyKv, hp, copyField_eq hl]

theorem apply_url (e : CapypkgEntry) (hl : value.length < capypkgUrlMax) :
    applyKv e "payload_url".toList value = (.ok, { e with payloadUrl := value }) := by
  simp [applyKv, hp, copyField_eq hl]

theorem apply_sha (e : CapypkgEntry) (hl : value.length < capypkgSha256HexLen + 1) :
    applyKv e "payload_sha256".toList value = (.ok, { e with payloadSha256 := value }) := by
  simp [applyKv, hp, copyField_eq hl]

theorem apply_signature (e : CapypkgEntry) (hl : value.length < capypkgSigHexLen + 1) :
    applyKv e "signature_ed25519".toList value = (.ok, { e with signatureHex := value }) := by
  simp [applyKv, hp, copyField_eq hl]

theorem apply_root (e : CapypkgEntry) (hl : value.length < capypkgPathMax) :
    applyKv e "install_root".toList value = (.ok, { e with installRoot := value }) := by
  simp [applyKv, hp, copyField_eq hl]

theorem apply_provides (e : CapypkgEntry) (hl : value.length < capypkgNameMax) :
    applyKv e "provides_abi".toList value = (.ok, { e with providesAbi := value }) := by
  simp [applyKv, hp, copyField_eq hl]

theorem apply_abi (e : CapypkgEntry) (hl : value.length < capypkgVersionMax) :
    applyKv e "abi_version".toList value = (.ok, { e with abiVersion := value }) := by
  simp [applyKv, hp, copyField_eq hl]

theorem apply_repo (e : CapypkgEntry) (hl : value.length < capypkgRepoNameMax) :
    applyKv e "repo".toList value = (.ok, { e with sourceRepo := value }) := by
  simp [applyKv, hp, copyField_eq hl]

theorem apply_summary (e : CapypkgEntry) (hl : value.length < capypkgSummaryMax) :
    applyKv e "summary".toList value = (.ok, { e with summary := value }) := by
  simp [applyKv, hp, copyField_eq hl]

end

theorem apply_size (e : CapypkgEntry) (hv : v < 2 ^ 32) (hmax : v ≤ capypkgPayloadMax) :
    applyKv e "payload_size".toList (Nat.toDigits 10 v) = (.ok, { e with sizeBytes := v }) := by
  simp [applyKv, digits_printable, parseUint32_toDigits hv, Nat.not_lt.mpr hmax]

theorem apply_min (e : CapypkgEntry) (hv : v < 2 ^ 32) :
    applyKv e "core_abi_min".toList (Nat.toDigits 10 v) = (.ok, { e with coreAbiMin := v }) := by
  simp [applyKv, digits_printable, parseUint32_toDigits hv]

theorem apply_max (e : CapypkgEntry) (hv : v < 2 ^ 32) :
    applyKv e "core_abi_max".toList (Nat.toDigits 10 v) = (.ok, { e with coreAbiMax := v }) := by
  simp [applyKv, digits_printable, parseUint32_toDigits hv]

theorem apply_known (e : CapypkgEntry) (hv : v ≤ 1) :
    applyKv e "known_good".toList (Nat.toDigits 10 v) = (.ok, { e with knownGood := v }) := by
  simp [applyKv, digits_printable, parseUint32_toDigits (show v < 2 ^ 32 by omega), Nat.not_lt.mpr hv]

theorem intersperse_printable (h : ∀ d ∈ deps, valueIsPrintableAscii d = true) :
    valueIsPrintableAscii (deps.intersperse [',']).flatten = true := by
  induction deps with
  | nil => rfl
  | cons d deps ih =>
    have hd := h d mem_cons_self
    cases deps with
    | nil => simpa using hd
    | cons d' deps =>
      have htext : ((d :: d' :: deps).intersperse [',']).flatten = d ++ ([','] ++ ((d' :: deps).intersperse [',']).flatten) := by
        simp
      rw [htext]
      exact printable_append hd (printable_append rfl (ih fun x hx => h x (mem_cons_of_mem _ hx)))

theorem apply_depends (e : CapypkgEntry) (hne : deps ≠ []) (hcount : deps.length ≤ capypkgMaxDeps)
    (hdeps : ∀ d ∈ deps, d.length < capypkgNameMax ∧ nameIsSafe d = true) (hnone : e.deps = []) :
    applyKv e "depends".toList (deps.intersperse [',']).flatten = (.ok, { e with deps := deps }) := by
  have hcomma : ∀ d ∈ deps, ',' ∉ d := by
    intro d hd hc
    exact absurd (safe_range (hdeps d hd).2 hc).1 (by decide)
  have happ := appendDependencies_safe deps e (by rw [hnone]; simpa using hcount) hdeps
  rw [hnone, nil_append] at happ
  simp [applyKv, intersperse_printable fun d hd => safe_printable (hdeps d hd).2, appendDependency,
    commaItems_intersperse hne hcomma, happ]

theorem applies_if {c : Prop} [Decidable c] {key value : Text} (hk : KeyOk key) (ha : c → applyKv e key value = (.ok, e'))
    (hn : ¬c → e = e') : Applies e (fieldIf c key value) e' := by
  unfold fieldIf
  split
  next hc => exact .cons hk (ha hc) (.nil _)
  next hc => exact hn hc ▸ .nil _

/-- What the database keeps of an entry. -/
def persisted (e : CapypkgEntry) : CapypkgEntry :=
  { e with knownGood := if e.providesAbi ≠ [] then e.knownGood else 0, catalogAuthenticated := false }

theorem applies_first (h : Fields e) : Applies emptyEntry [("name".toList, e.name), ("version".toList, e.version),
    ("payload_url".toList, e.payloadUrl), ("payload_sha256".toList, e.payloadSha256)] { emptyEntry with
      name := e.name, version := e.version, payloadUrl := e.payloadUrl, payloadSha256 := e.payloadSha256 } := by
  refine .cons (by simp [KeyOk]) (apply_name h.name.2 _ h.name.1) ?_
  refine .cons (by simp [KeyOk]) (apply_version h.version.2 _ h.version.1) ?_
  refine .cons (by simp [KeyOk]) (apply_url h.payloadUrl.2 _ h.payloadUrl.1) ?_
  exact .cons (by simp [KeyOk]) (apply_sha h.payloadSha256.2 _ h.payloadSha256.1) (.nil _)

theorem applies_payload (h : Fields e) (a : CapypkgEntry) (hsize : a.sizeBytes = 0) (hsig : a.signatureHex = []) :
    Applies a (fieldIf (e.sizeBytes ≠ 0) "payload_size".toList (Nat.toDigits 10 e.sizeBytes) ++
      (fieldIf (e.signatureHex ≠ []) "signature_ed25519".toList e.signatureHex ++ [("install_root".toList, e.installRoot)]))
      { a with sizeBytes := e.sizeBytes, signatureHex := e.signatureHex, installRoot := e.installRoot } := by
  refine Applies.append (applies_if (by simp [KeyOk]) (fun _ => apply_size a h.sizeBytes h.sizeMax) fun hn => ?_) ?_
  · rw [not_not.mp hn, ← hsize]
  refine Applies.append (applies_if (by simp [KeyOk])
    (fun _ => apply_signature h.signatureHex.2 { a with sizeBytes := e.sizeBytes } h.signatureHex.1) fun hn => ?_) ?_
  · rw [not_not.mp hn, ← hsig]
  exact .cons (by simp [KeyOk]) (apply_root h.installRoot.2 _ h.installRoot.1) (.nil _)

theorem applies_provides (h : Fields e) (a : CapypkgEntry) (hprov : a.providesAbi = []) (habi : a.abiVersion = [])
    (hmin : a.coreAbiMin = 0) : Applies a (fieldIf (e.providesAbi ≠ []) "provides_abi".toList e.providesAbi ++
      (fieldIf (e.abiVersion ≠ []) "abi_version".toList e.abiVersion ++
        fieldIf (e.coreAbiMin ≠ 0) "core_abi_min".toList (Nat.toDigits 10 e.coreAbiMin)))
      { a with providesAbi := e.providesAbi, abiVersion := e.abiVersion, coreAbiMin := e.coreAbiMin } := by
  refine Applies.append (applies_if (by simp [KeyOk])
    (fun _ => apply_provides h.providesAbi.2 a h.providesAbi.1) fun hn => ?_) ?_
  · rw [not_not.mp hn, ← hprov]
  refine Applies.append (applies_if (by simp [KeyOk])
    (fun _ => apply_abi h.abiVersion.2 { a with providesAbi := e.providesAbi } h.abiVersion.1) fun hn => ?_) ?_
  · rw [not_not.mp hn, ← habi]
  refine applies_if (by simp [KeyOk])
    (fun _ => apply_min { a with providesAbi := e.providesAbi, abiVersion := e.abiVersion } h.coreAbiMin) fun hn => ?_
  rw [not_not.mp hn, ← hmin]

theorem applies_known (h : Fields e) (a : CapypkgEntry) (hmax : a.coreAbiMax = 0) (hknown : a.knownGood = 0)
    (hdeps : a.deps = []) : Applies a (fieldIf (e.coreAbiMax ≠ 0) "core_abi_max".toList (Nat.toDigits 10 e.coreAbiMax) ++
      (fieldIf (e.providesAbi ≠ []) "known_good".toList (Nat.toDigits 10 e.knownGood) ++
        fieldIf (e.deps ≠ []) "depends".toList (e.deps.intersperse [',']).flatten)) { a with
        coreAbiMax := e.coreAbiMax, knownGood := if e.providesAbi ≠ [] then e.knownGood else 0, deps := e.deps } := by
  refine Applies.append (applies_if (by simp [KeyOk]) (fun _ => apply_max a h.coreAbiMax) fun hn => ?_) ?_
  · rw [not_not.mp hn, ← hmax]
  have hflag : Applies { a with coreAbiMax := e.coreAbiMax }
      (fieldIf (e.providesAbi ≠ []) "known_good".toList (Nat.toDigits 10 e.knownGood))
      { a with coreAbiMax := e.coreAbiMax, knownGood := if e.providesAbi ≠ [] then e.knownGood else 0 } := by
    refine applies_if (by simp [KeyOk]) (fun hc => ?_) fun hn => ?_
    · rw [if_pos hc]
      exact apply_known _ h.knownGood
    · rw [if_neg hn, ← hknown]
  refine Applies.append hflag (applies_if (by simp [KeyOk])
    (fun hne => apply_depends _ hne h.depCount h.deps hdeps) fun hn => ?_)
  rw [not_not.mp hn, ← hdeps]

theorem applies_last (h : Fields e) (a : CapypkgEntry) (hrepo : a.sourceRepo = []) (hsum : a.summary = []) :
    Applies a (fieldIf (e.sourceRepo ≠ []) "repo".toList e.sourceRepo ++ fieldIf (e.summary ≠ []) "summary".toList e.summary)
      { a with sourceRepo := e.sourceRepo, summary := e.summary } := by
  refine Applies.append (applies_if (by simp [KeyOk])
    (fun _ => apply_repo h.sourceRepo.2 a h.sourceRepo.1) fun hn => ?_) ?_
  · rw [not_not.mp hn, ← hrepo]
  refine applies_if (by simp [KeyOk])
    (fun _ => apply_summary h.summary.2 { a with sourceRepo := e.sourceRepo } h.summary.1) fun hn => ?_
  rw [not_not.mp hn, ← hsum]

theorem applies_fields (h : Fields e) : Applies emptyEntry (("name".toList, e.name) :: entryFields e) (persisted e) := by
  have happ := (applies_first h).append ((applies_payload h _ rfl rfl).append ((applies_provides h _ rfl rfl rfl).append
    ((applies_known h _ rfl rfl rfl).append (applies_last h _ rfl rfl))))
  unfold entryFields
  simp only [append_assoc, cons_append, nil_append] at happ ⊢
  exact happ

/-! ## Entries -/

theorem validate_valid (h : EntryValid e) : validateRequiredFields e = (.ok, e) := by
  have hreq : ¬(e.name = [] ∨ e.version = [] ∨ e.payloadUrl = [] ∨ e.payloadSha256 = []) := by
    rintro (hn | hv | hu | hs)
    · exact h.name_ne hn
    · exact h.version hv
    · exact h.url_ne hu
    · exact (hex_ne h.payloadSha256).2 hs
  have hroot : e.installRoot ≠ [] := by
    intro hn
    have habs := h.absolute
    rw [hn] at habs
    exact Option.some_ne_none _ habs.symm
  have hsig : ¬(e.signatureHex ≠ [] ∧ (!hexStringValid e.signatureHex capypkgSigHexLen) = true) := by
    rintro ⟨hne, hbad⟩
    rw [h.signatureHex hne] at hbad
    exact Bool.noConfusion hbad
  have hnot {b : Bool} (hb : b = true) : ¬((!b) = true) := by
    rw [hb]
    exact Bool.false_ne_true
  unfold validateRequiredFields
  rw [if_neg hreq, if_neg (hnot h.name), if_neg (hnot h.payloadSha256), if_neg hsig, if_neg (hnot h.payloadUrl)]
  simp only [if_neg hroot]
  rw [if_neg (not_not.mpr h.absolute), h.dotdot, if_neg Bool.false_ne_true, if_neg (hnot h.under)]

theorem persisted_valid (h : EntryValid e) : EntryValid (persisted e) :=
  { h with }

theorem fields_length (kvs : List (Text × Text)) : kvs.length ≤ (kvs.flatMap fieldLine).length := by
  induction kvs with
  | nil => exact Nat.le_refl _
  | cons kv kvs ih =>
    simp only [flatMap_cons, length_append, length_cons, fieldLine]
    omega

theorem parseLines_entry (h : Stored e) {n : Nat} (hn : (entryText e).length ≤ n) (rest : Text) :
    parseLines n emptyEntry (entryText e ++ rest) = (.ok, persisted e, rest) := by
  have hlen := fields_length (("name".toList, e.name) :: entryFields e)
  rw [entryText, length_append] at hn
  have hsep : ("---\n".toList : Text).length = 4 := by simp
  rw [entryText, append_assoc]
  exact parseLines_applies (applies_fields h.fields) (by omega) rest

theorem parse_entryText (h : Stored e) (rest : Text) : manifestParseEntry (entryText e ++ rest) = (.ok, persisted e, rest) := by
  unfold manifestParseEntry
  rw [parseLines_entry h (by rw [length_append]; exact Nat.le_add_right _ _)]
  simp only [validate_valid (persisted_valid h.valid)]

theorem parseLines_header (n : Nat) (e : CapypkgEntry) (rest : Text) :
    parseLines (n + 1) e (dbHeader ++ rest) = parseLines n e rest := by
  have hheader : dbHeader = "# capypkg db.idx v1".toList ++ ['\n'] := by decide +kernel
  have hline : takeLine (dbHeader ++ rest) = ("# capypkg db.idx v1".toList, rest) := by
    rw [hheader, append_assoc]
    exact takeLine_line (by simp) rest
  have hne : dbHeader ++ rest ≠ [] := by
    rw [hheader]
    simp
  rw [parseLines]
  simp only [hline]
  rw [if_neg hne, if_neg (by simp [lineIsSeparator]), if_pos (.inr (by simp))]

theorem parse_header_entry (h : Stored e) (rest : Text) :
    manifestParseEntry (dbHeader ++ (entryText e ++ rest)) = (.ok, persisted e, rest) := by
  have hheader : dbHeader.length = 20 := by decide +kernel
  unfold manifestParseEntry
  rw [length_append, hheader, Nat.add_comm, parseLines_header,
    parseLines_entry h (by rw [length_append]; omega)]
  simp only [validate_valid (persisted_valid h.valid)]

theorem parse_header_only : manifestParseEntry dbHeader = (.parse, emptyEntry, []) := by
  decide +kernel

theorem parseEntries_texts {es : List CapypkgEntry} (h : ∀ e ∈ es, Stored e) {n room : Nat} (hn : es.length < n)
    (hroom : es.length ≤ room) : parseEntries n room (es.flatMap entryText) = es.map persisted := by
  induction es generalizing n room with
  | nil =>
    cases n with
    | zero => rfl
    | succ n => simp [parseEntries]
  | cons e es ih =>
    rw [length_cons] at hn hroom
    cases n with
    | zero => exact absurd hn (Nat.not_lt_zero _)
    | succ n =>
      have hne : ¬(entryText e ++ es.flatMap entryText = [] ∨ room = 0) := by
        rintro (hnil | hzero)
        · have hsep : ("---\n".toList : Text) ≠ [] := by simp
          simp only [entryText, append_eq_nil_iff] at hnil
          exact hsep hnil.1.2
        · omega
      rw [flatMap_cons, parseEntries, if_neg hne, parse_entryText (h e mem_cons_self)]
      simp only [map_cons]
      rw [ih (fun x hx => h x (mem_cons_of_mem _ hx)) (by omega) (by omega)]

theorem entryText_length (h : Stored e) : 128 ≤ (entryText e).length := by
  have hsha := (hex_ne h.valid.payloadSha256).1
  have hkeys : ("name".toList : Text).length = 4 ∧ ("version".toList : Text).length = 7 ∧ ("payload_url".toList : Text).length = 11 ∧
      ("payload_sha256".toList : Text).length = 14 ∧ ("install_root".toList : Text).length = 12 ∧ ("---\n".toList : Text).length = 4 := by
    simp
  have hname : 0 < e.name.length := List.length_pos_iff.mpr h.valid.name_ne
  have hversion : 0 < e.version.length := List.length_pos_iff.mpr h.valid.version
  have hurl : 0 < e.payloadUrl.length := List.length_pos_iff.mpr h.valid.url_ne
  have hsha64 : e.payloadSha256.length = 64 := hsha
  simp only [entryText, entryFields, flatMap_append, flatMap_cons, flatMap_nil, length_append, fieldLine,
    length_cons, length_nil, hkeys]
  omega

theorem dbParse_dbSerialize {installed : List CapypkgEntry} (h : ∀ e ∈ installed, Stored e)
    (hroom : (dbText installed).length < capypkgDbBufferBytes) : dbParse (dbSerialize installed) = installed.map persisted := by
  have htext : dbSerialize installed = dbText installed := by
    rw [dbSerialize_text]
    exact take_of_length_le (by omega)
  rw [htext, dbParse]
  cases installed with
  | nil =>
    have hempty : dbText [] = dbHeader := append_nil _
    have hlen : dbHeader.length = 18 + 1 + 1 := by decide
    have hne : ¬(dbHeader = [] ∨ capypkgMaxInstalled = 0) := by decide
    rw [hempty, hlen, parseEntries, if_neg hne, parse_header_only]
    simp [parseEntries]
  | cons e es =>
    have hcount (l : List CapypkgEntry) (hl : ∀ e ∈ l, Stored e) : 128 * l.length ≤ (l.flatMap entryText).length := by
      induction l with
      | nil => exact Nat.le_refl _
      | cons e l ih =>
        have he := entryText_length (hl e mem_cons_self)
        have hrest := ih fun x hx => hl x (mem_cons_of_mem _ hx)
        rw [flatMap_cons, length_append, length_cons]
        omega
    have hall := hcount (e :: es) h
    rw [dbText, length_append] at hroom
    have hbuf : capypkgDbBufferBytes = 8192 := rfl
    have hmax : capypkgMaxInstalled = 64 := rfl
    rw [length_cons] at hall
    have hfuel : (dbText (e :: es)).length = ((dbText (e :: es)).length - 1) + 1 := by
      rw [dbText, length_append]
      omega
    have hne : ¬(dbText (e :: es) = [] ∨ capypkgMaxInstalled = 0) := by
      rintro (hnil | hzero)
      · rw [hnil] at hfuel
        simp at hfuel
      · exact absurd hzero (by decide)
    rw [hfuel, parseEntries, if_neg hne]
    have hfirst : manifestParseEntry (dbText (e :: es)) = (.ok, persisted e, es.flatMap entryText) := by
      rw [dbText, flatMap_cons]
      exact parse_header_entry (h e mem_cons_self) _
    rw [hfirst]
    simp only [map_cons]
    rw [parseEntries_texts (fun x hx => h x (mem_cons_of_mem _ hx)) ?_ ?_]
    · rw [dbText, length_append]
      omega
    · omega

end CapyOS.Proofs
