import CapyOS.Security.UserDb

namespace CapyOS.Proofs
open Lib List Nat
variable {r : UserDbRecord} {records records' : List UserDbRecord} {fate : WriteFate}
variable {bytes : List Byte} {reads : Bool} {n : Nat}

/-! Fields and lines. -/

theorem splitOn_cons_char (sep c : Char) (cs : DbText) : (c :: cs).splitOn sep =
      if c = sep then [] :: cs.splitOn sep else (cs.splitOn sep).modifyHead (List.cons c) := by
  rw [splitOn_eq_splitOnP, splitOnP_cons_eq_if_modifyHead, splitOn_eq_splitOnP]
  simp

theorem mem_splitOn {sep : Char} {cs field : DbText} (h : field ∈ cs.splitOn sep) : sep ∉ field ∧ ∀ c ∈ field, c ∈ cs := by
  induction cs generalizing field with
  | nil =>
    rw [splitOn_nil] at h
    rw [List.mem_singleton.mp h]
    exact ⟨not_mem_nil, fun c hc => hc⟩
  | cons d cs ih =>
    rw [splitOn_cons_char] at h
    split at h
    · cases List.mem_cons.mp h with
      | inl hnil =>
        rw [hnil]
        exact ⟨not_mem_nil, nofun⟩
      | inr hrest =>
        obtain ⟨hsep, hmem⟩ := ih hrest
        exact ⟨hsep, fun c hc => mem_cons_of_mem _ (hmem c hc)⟩
    · next hne =>
      cases hsplit : cs.splitOn sep with
      | nil =>
        rw [hsplit] at h
        cases h
      | cons first rest =>
        rw [hsplit, modifyHead_cons] at h
        cases List.mem_cons.mp h with
        | inl hfirst =>
          obtain ⟨hsep, hmem⟩ := ih (hsplit ▸ mem_cons_self : first ∈ cs.splitOn sep)
          rw [hfirst]
          refine ⟨fun hc => ?_, fun c hc => ?_⟩
          · cases List.mem_cons.mp hc with
            | inl heq => exact hne heq.symm
            | inr hin => exact hsep hin
          · cases List.mem_cons.mp hc with
            | inl heq => exact heq ▸ mem_cons_self
            | inr hin => exact mem_cons_of_mem _ (hmem c hin)
        | inr hrest =>
          obtain ⟨hsep, hmem⟩ := ih (hsplit ▸ mem_cons_of_mem _ hrest : field ∈ cs.splitOn sep)
          exact ⟨hsep, fun c hc => mem_cons_of_mem _ (hmem c hc)⟩

theorem userdbLines_written {texts : List DbText} (h : ∀ t ∈ texts, '\n' ∉ t ∧ t ≠ []) :
    userdbLines ((texts.map (· ++ ['\n'])).flatten) = texts := by
  have hsplit : ∀ t : DbText, '\n' ∉ t → ∀ rest : DbText, (t ++ '\n' :: rest).splitOn '\n' = t :: rest.splitOn '\n' := by
    intro t ht rest
    induction t with
    | nil => rw [nil_append, splitOn_cons_char, if_pos rfl]
    | cons c t ih =>
      have hne : c ≠ '\n' := by
        rintro rfl
        exact ht mem_cons_self
      rw [cons_append, splitOn_cons_char, if_neg hne, ih (fun hc => ht (mem_cons_of_mem _ hc)),
        modifyHead_cons]
  induction texts with
  | nil => rfl
  | cons t texts ih =>
    obtain ⟨hline, hne⟩ := h t mem_cons_self
    have hrest := ih fun t ht => h t (mem_cons_of_mem _ ht)
    unfold userdbLines at hrest ⊢
    rw [map_cons, flatten_cons, append_assoc, singleton_append, hsplit t hline,
      filter_cons, if_pos (by simpa using hne), hrest]

/-! Numbers and hexadecimal. -/

theorem parseU32From_append {a b : DbText} (ha : ∀ c ∈ a, '0' ≤ c ∧ c ≤ '9') (v : Nat) :
    parseU32From v (a ++ b) = parseU32From (parseU32From v a) b := by
  induction a generalizing v with
  | nil => rfl
  | cons c a ih =>
    have hdigit := ha c mem_cons_self
    rw [cons_append, parseU32From, if_pos hdigit, ih (fun c hc => ha c (mem_cons_of_mem _ hc))]
    conv_rhs => rw [parseU32From, if_pos hdigit]

theorem digitChar_digit {d : Nat} (hd : d < 10) :
    ('0' ≤ Nat.digitChar d ∧ Nat.digitChar d ≤ '9') ∧ (Nat.digitChar d).toNat - '0'.toNat = d := by
  have hall : ∀ d : Fin 10, ('0' ≤ Nat.digitChar d.val ∧ Nat.digitChar d.val ≤ '9') ∧
      (Nat.digitChar d.val).toNat - '0'.toNat = d.val := by decide
  exact hall ⟨d, hd⟩

theorem toDigits_digits (v : Nat) : ∀ c ∈ authU32ToString v, '0' ≤ c ∧ c ≤ '9' := by
  unfold authU32ToString
  induction v using Nat.strongRecOn with
  | ind v ih =>
    intro c hc
    by_cases hlt : v < 10
    · rw [toDigits_of_lt_base hlt] at hc
      rw [List.mem_singleton.mp hc]
      exact (digitChar_digit hlt).1
    · rw [toDigits_of_base_le (by decide) (by omega)] at hc
      cases List.mem_append.mp hc with
      | inl hmore => exact ih (v / 10) (by omega) c hmore
      | inr hlast =>
        rw [List.mem_singleton.mp hlast]
        exact (digitChar_digit (mod_lt _ (by decide))).1

theorem parseU32_toString {v : Nat} (hv : v < 2 ^ 32) : authParseU32 (authU32ToString v) = v := by
  unfold authParseU32
  induction v using Nat.strongRecOn with
  | ind v ih =>
    by_cases hlt : v < 10
    · obtain ⟨hdigit, hval⟩ := digitChar_digit hlt
      unfold authU32ToString
      rw [toDigits_of_lt_base hlt, parseU32From, if_pos hdigit, hval, parseU32From]
      omega
    · obtain ⟨hdigit, hval⟩ := digitChar_digit (mod_lt v (by decide : 0 < 10))
      have hmore := toDigits_digits (v / 10)
      have hrest := ih (v / 10) (by omega) (by omega)
      unfold authU32ToString at hmore hrest ⊢
      rw [toDigits_of_base_le (by decide) (by omega), parseU32From_append hmore, hrest,
        parseU32From, if_pos hdigit, hval, parseU32From]
      omega

theorem parseU32From_lt (v : Nat) (hv : v < 2 ^ 32) (text : DbText) : parseU32From v text < 2 ^ 32 := by
  induction text generalizing v with
  | nil => exact hv
  | cons c text ih =>
    unfold parseU32From
    split
    · exact ih _ (mod_lt _ (by decide))
    · exact hv

theorem hexDigit_spec {v : Nat} (hv : v < 16) : hexNibble (hexDigit v) = some v ∧ hexDigit v ≠ ':' ∧ hexDigit v ≠ '\n' := by
  have hall : ∀ v : Fin 16, hexNibble (hexDigit v.val) = some v.val ∧ hexDigit v.val ≠ ':' ∧
      hexDigit v.val ≠ '\n' := by decide
  exact hall ⟨v, hv⟩

theorem hexBytes_toHex (bytes : List Byte) : hexBytes (authBytesToHex bytes) = some bytes := by
  induction bytes with
  | nil => rfl
  | cons b bytes ih =>
    have hb := b.isLt
    have hvalue : BitVec.ofNat 8 (16 * (b.toNat / 16) + b.toNat % 16) = b := by
      rw [div_add_mod, BitVec.ofNat_toNat, BitVec.setWidth_eq]
    change hexBytes (hexDigit (b.toNat / 16) :: hexDigit (b.toNat % 16) :: authBytesToHex bytes) = _
    unfold hexBytes
    rw [(hexDigit_spec (by omega)).1, (hexDigit_spec (mod_lt _ (by decide))).1, ih]
    dsimp only
    rw [hvalue]

theorem toHex_length (bytes : List Byte) : (authBytesToHex bytes).length = bytes.length * 2 := by
  induction bytes with
  | nil => rfl
  | cons b bytes ih =>
    change ((authBytesToHex bytes).length + 1) + 1 = _
    rw [ih, length_cons]
    omega

theorem toHex_plain {c : Char} (hc : c ∈ authBytesToHex bytes) : c ≠ ':' ∧ c ≠ '\n' := by
  obtain ⟨b, -, hb⟩ := List.mem_flatMap.mp hc
  have hlt := b.isLt
  cases List.mem_cons.mp hb with
  | inl heq => exact heq ▸ (hexDigit_spec (by omega)).2
  | inr hb =>
    rw [List.mem_singleton.mp hb]
    exact (hexDigit_spec (mod_lt _ (by decide))).2

theorem hexBytes_length : ∀ {hex : DbText} {bytes : List Byte}, hexBytes hex = some bytes →
    hex.length = bytes.length * 2
  | [], _, h => by
    cases h
    rfl
  | [_], _, h => by cases h
  | _ :: _ :: rest, bytes, h => by
    unfold hexBytes at h
    split at h
    · next hv lv more _ _ hrest =>
      cases h
      have hlen := hexBytes_length hrest
      simp only [length_cons, hlen]
      omega
    · cases h

theorem authHexToBytes_length {hex : DbText}
    (h : authHexToBytes hex n = some bytes) : bytes.length = n := by
  unfold authHexToBytes at h
  split at h
  · next hlen =>
    have hbytes := hexBytes_length h
    omega
  · cases h

theorem authHexToBytes_toHex (h : bytes.length = n) :
    authHexToBytes (authBytesToHex bytes) n = some bytes := by
  unfold authHexToBytes
  rw [toHex_length, if_pos (by rw [h]), hexBytes_toHex]

/-! Records. -/

structure FieldText (cap : Nat) (text : DbText) : Prop where
  short : text.length < cap
  noColon : ':' ∉ text
  noNewline : '\n' ∉ text
  noNul : Char.ofNat 0 ∉ text

structure PlainRecord (r : UserDbRecord) : Prop where
  username : FieldText userNameMax r.username
  home : FieldText userHomeMax r.home
  role : FieldText userRoleMax r.role
  uid : r.uid < 2 ^ 32
  gid : r.gid < 2 ^ 32
  salt : r.salt.length = userSaltSize
  hash : r.hash.length = userHashSize
  tCost : r.algoTCost < 2 ^ 32
  mCost : r.algoMCost < 2 ^ 32
  argon2 : r.algoId = .argon2id → argon2MinTCost ≤ r.algoTCost ∧ argon2MinMCost ≤ r.algoMCost

theorem authCstring_mem {field : DbText} {c : Char} (h : c ∈ authCstring field) : c ∈ field :=
  (takeWhile_sublist _).subset h

theorem authCstring_field {cap : Nat} {field line : DbText} (hfield : field ∈ line.splitOn ':')
    (hline : '\n' ∉ line) (hlen : field.length < cap) : FieldText cap (authCstring field) := by
  obtain ⟨hcolon, hmem⟩ := mem_splitOn hfield
  refine ⟨lt_of_le_of_lt (takeWhile_sublist _).length_le hlen,
    fun h => hcolon (authCstring_mem h), fun h => hline (hmem _ (authCstring_mem h)), fun h => ?_⟩
  have hnot := mem_takeWhile_imp h
  simp at hnot

theorem authCstring_self {cap : Nat} {text : DbText} (h : FieldText cap text) : authCstring text = text :=
  List.takeWhile_eq_self_iff.mpr fun c hc => by
    rw [bne_iff_ne]
    rintro rfl
    exact h.noNul hc

theorem parseFields_good {line name uid gid home salt hash role : DbText}
    (hline : '\n' ∉ line) (hname : name ∈ line.splitOn ':') (hhome : home ∈ line.splitOn ':')
    (hrole : role ∈ line.splitOn ':') (h : parseFields name uid gid home salt hash role = some r) :
    PlainRecord r ∧ r.algoId = .pbkdf2Sha256 := by
  unfold parseFields at h
  split at h
  · cases h
  · next hnameLen =>
    split at h
    · cases h
    · next hhomeLen =>
      split at h
      · cases h
      · next hroleLen =>
        split at h
        · next saltBytes hashBytes hsalt hhash =>
          cases h
          rw [not_or] at hnameLen
          exact ⟨⟨authCstring_field hname hline (not_le.mp hnameLen.2), authCstring_field hhome hline (not_le.mp hhomeLen),
            authCstring_field hrole hline (not_le.mp hroleLen),
            parseU32From_lt 0 (by decide) uid, parseU32From_lt 0 (by decide) gid,
            authHexToBytes_length hsalt, authHexToBytes_length hhash, zero_lt_succ _, zero_lt_succ _, nofun⟩, rfl⟩
        · cases h

theorem parseLine_good {line : DbText} (hline : '\n' ∉ line)
    (h : userdbParseLine line = some r) : PlainRecord r := by
  unfold userdbParseLine at h
  split at h
  · next name uid gid home salt hash role trailer hfields =>
    have hmem : ∀ field ∈ [name, home, role], field ∈ line.splitOn ':' := by
      rw [hfields]
      intro field hfield
      simp only [mem_cons, not_mem_nil, or_false] at hfield ⊢
      tauto
    obtain ⟨base, hbase, hrest⟩ := Option.bind_eq_some_iff.mp h
    obtain ⟨hgood, halgo⟩ := parseFields_good hline (hmem name (by simp)) (hmem home (by simp))
      (hmem role (by simp)) hbase
    split at hrest
    · cases hrest
      exact hgood
    · next algo tCost mCost more =>
      split at hrest
      · cases hrest
      · obtain ⟨kind, hkind, hlast⟩ := Option.bind_eq_some_iff.mp hrest
        dsimp only at hlast
        split at hlast
        · cases hlast
        · next hcosts =>
          cases hlast
          refine { hgood with
            tCost := parseU32From_lt 0 (by decide) tCost
            mCost := parseU32From_lt 0 (by decide) mCost
            argon2 := fun hargon => ?_ }
          rw [not_and, not_or, not_lt, not_lt] at hcosts
          exact hcosts hargon
    · cases hrest
  · cases h

def storedRecord (r : UserDbRecord) : UserDbRecord :=
  match r.algoId with
  | .pbkdf2Sha256 => { r with algoTCost := 0, algoMCost := 0 }
  | .argon2id => r

theorem lineFields_plain (h : PlainRecord r) : ∀ field ∈ lineFields r, ':' ∉ field ∧ '\n' ∉ field := by
  have hnumber : ∀ v, ':' ∉ authU32ToString v ∧ '\n' ∉ authU32ToString v := fun v =>
    ⟨fun hc => absurd (toDigits_digits v _ hc) (by decide), fun hc =>
      absurd (toDigits_digits v _ hc) (by decide)⟩
  have hhex : ∀ bytes, ':' ∉ authBytesToHex bytes ∧ '\n' ∉ authBytesToHex bytes := fun bytes =>
    ⟨fun hc => (toHex_plain hc).1 rfl, fun hc => (toHex_plain hc).2 rfl⟩
  intro field hfield
  unfold lineFields at hfield
  cases List.mem_append.mp hfield with
  | inl hbase =>
    simp only [mem_cons, not_mem_nil, or_false] at hbase
    rcases hbase with rfl | rfl | rfl | rfl | rfl | rfl | rfl
    · exact ⟨h.username.noColon, h.username.noNewline⟩
    · exact hnumber _
    · exact hnumber _
    · exact ⟨h.home.noColon, h.home.noNewline⟩
    · exact hhex _
    · exact hhex _
    · exact ⟨h.role.noColon, h.role.noNewline⟩
  | inr htrailer =>
    cases halgo : r.algoId with
    | pbkdf2Sha256 =>
      rw [halgo] at htrailer
      cases htrailer
    | argon2id =>
      rw [halgo] at htrailer
      simp only [mem_cons, not_mem_nil, or_false] at htrailer
      rcases htrailer with rfl | rfl | rfl
      · decide
      · exact hnumber _
      · exact hnumber _

theorem lineText_fields (h : PlainRecord r) : (lineText r).splitOn ':' = lineFields r :=
  splitOn_intercalate ':' (fun field hfield => (lineFields_plain h field hfield).1)
    (by unfold lineFields; simp)

theorem mem_intercalate {sep c : Char} {fields : List DbText} (h : c ∈ [sep].intercalate fields) :
    c = sep ∨ ∃ field ∈ fields, c ∈ field := by
  induction fields with
  | nil => cases h
  | cons first rest ih =>
    cases rest with
    | nil =>
      rw [intercalate_singleton] at h
      exact .inr ⟨first, mem_cons_self, h⟩
    | cons second rest =>
      rw [intercalate_cons_cons] at h
      rcases List.mem_append.mp h with hhead | hmore
      · rcases List.mem_append.mp hhead with hfirst | hsep
        · exact .inr ⟨first, mem_cons_self, hfirst⟩
        · exact .inl (List.mem_singleton.mp hsep)
      · rcases ih hmore with heq | ⟨field, hfield, hin⟩
        · exact .inl heq
        · exact .inr ⟨field, mem_cons_of_mem _ hfield, hin⟩

theorem lineText_line (h : PlainRecord r) : '\n' ∉ lineText r ∧ lineText r ≠ [] := by
  refine ⟨fun hc => ?_, fun hnil => ?_⟩
  · rcases mem_intercalate hc with heq | ⟨field, hfield, hin⟩
    · cases heq
    · exact (lineFields_plain h field hfield).2 hin
  · have hfields := lineText_fields h
    rw [hnil, splitOn_nil] at hfields
    have hlen := congrArg List.length hfields
    unfold lineFields at hlen
    simp at hlen

theorem parse_lineText (h : PlainRecord r) :
    userdbParseLine (lineText r) = if r.username = [] then none else some (storedRecord r) := by
  have hbase : parseFields r.username (authU32ToString r.uid) (authU32ToString r.gid) r.home
      (authBytesToHex r.salt) (authBytesToHex r.hash) r.role =
      if r.username = [] then none else
        some { r with algoId := .pbkdf2Sha256, algoTCost := 0, algoMCost := 0 } := by
    unfold parseFields
    by_cases hname : r.username = []
    · rw [if_pos hname, if_pos (.inl (by rw [hname]; rfl))]
    · have hlen : ¬(r.username.length = 0 ∨ r.username.length ≥ userNameMax) := by
        rw [not_or, length_eq_zero_iff]
        exact ⟨hname, not_le.mpr h.username.short⟩
      rw [if_neg hname, if_neg hlen, if_neg (not_le.mpr h.home.short), if_neg (not_le.mpr h.role.short),
        authHexToBytes_toHex h.salt, authHexToBytes_toHex h.hash]
      dsimp only
      rw [authCstring_self h.username, authCstring_self h.home, authCstring_self h.role,
        parseU32_toString h.uid, parseU32_toString h.gid]
  unfold userdbParseLine
  rw [lineText_fields h]
  unfold lineFields
  cases halgo : r.algoId with
  | pbkdf2Sha256 =>
    change (parseFields r.username (authU32ToString r.uid) (authU32ToString r.gid) r.home
      (authBytesToHex r.salt) (authBytesToHex r.hash) r.role).bind (fun r => some r) = _
    rw [hbase]
    unfold storedRecord
    rw [halgo]
    split
    · rfl
    · simp
  | argon2id =>
    obtain ⟨htCost, hmCost⟩ := h.argon2 halgo
    have htext : ∀ v, authU32ToString v ≠ [] := fun v => toDigits_ne_nil
    have hbounds : ¬(PasswordAlgo.argon2id = .argon2id ∧
        (r.algoTCost < argon2MinTCost ∨ r.algoMCost < argon2MinMCost)) := by
      rw [not_and, not_or, not_lt, not_lt]
      exact fun _ => ⟨htCost, hmCost⟩
    simp only [cons_append, nil_append, htext, or_self, if_false]
    rw [hbase]
    split
    · rfl
    · rw [Option.bind_some, show algoFromString (algoToString .argon2id) = some .argon2id by decide, Option.bind_some]
      dsimp only
      rw [parseU32_toString h.tCost, parseU32_toString h.mCost, if_neg hbounds]
      unfold storedRecord
      rw [halgo]
      simp [← halgo]

/-! The length of a line. -/

theorem authBytesToHex_length (bytes : List Byte) : (authBytesToHex bytes).length = 2 * bytes.length := by
  unfold authBytesToHex
  induction bytes with
  | nil => rfl
  | cons b bytes ih =>
    simp
    omega

theorem lineText_length (r : UserDbRecord) : (lineText r).length =
    r.username.length + (authU32ToString r.uid).length + (authU32ToString r.gid).length + r.home.length +
      2 * r.salt.length + 2 * r.hash.length + r.role.length + 6 +
      match r.algoId with
      | .pbkdf2Sha256 => 0
      | .argon2id => 11 + (authU32ToString r.algoTCost).length + (authU32ToString r.algoMCost).length := by
  have hname : (algoToString .argon2id).length = 8 := by decide
  unfold lineText lineFields
  cases r.algoId <;> simp [intercalate, authBytesToHex_length, hname] <;> omega

theorem u32_short {v : Nat} (h : v < 2 ^ 32) : (authU32ToString v).length ≤ 10 :=
  length_toDigits_le_iff (by decide) (by decide) |>.mpr (by omega)

/-- No line is too long for the line buffer. -/
theorem serialize_fits (h : PlainRecord r) : userdbSerializeLine r = some (lineText r ++ ['\n']) := by
  have hname := h.username.short
  have hhome := h.home.short
  have hrole := h.role.short
  have huid := u32_short h.uid
  have hgid := u32_short h.gid
  have htCost := u32_short h.tCost
  have hmCost := u32_short h.mCost
  refine if_neg ?_
  rw [length_append, lineText_length, h.salt, h.hash]
  unfold userNameMax at hname
  unfold userHomeMax at hhome
  unfold userRoleMax at hrole
  unfold userSaltSize userHashSize
  have hcap : userdbLineCap = 368 := rfl
  rw [hcap]
  cases r.algoId <;> simp <;> omega

/-- The record with the algorithm and the costs of a new hash, where it is the user's. -/
def regraded (username : DbText) (r : UserDbRecord) : UserDbRecord :=
  if r.username = username then
    { r with algoId := .argon2id, algoTCost := userArgon2idTCost, algoMCost := userArgon2idMCost }
  else r

/-- The length of the rewritten lines. -/
def linesLength (username : DbText) (records : List UserDbRecord) : Nat :=
  (records.map fun r => (lineText (regraded username r)).length + 1).sum

/-- How many of the records are the user's. -/
def userRecords (username : DbText) (records : List UserDbRecord) : Nat :=
  records.countP fun r => r.username = username

/-! The rewrite. -/

theorem userdbRecords_good {data : DbText} (h : r ∈ userdbRecords data) : PlainRecord r := by
  obtain ⟨line, hline, hparse⟩ := List.mem_filterMap.mp h
  exact parseLine_good (mem_splitOn (mem_of_mem_filter hline)).1 hparse

section
variable {hashing : Hashing} {username password : DbText}

/-- The hash for the `n`-th salt can be derived. -/
def Derives (hashing : Hashing) (password : DbText) (n : Nat) : Prop :=
  (hashing.derive password (hashing.salt n) .argon2id userArgon2idTCost userArgon2idMCost).isSome

def Rewritten (hashing : Hashing) (username password : DbText) (r s : UserDbRecord) : Prop :=
  (r.username = username ∧ ∃ n, upgraded hashing password n r = some s) ∨ (r.username ≠ username ∧ s = r)

theorem upgraded_eq {r s : UserDbRecord} (h : upgraded hashing password n r = some s) :
    ∃ hash, hashing.derive password (hashing.salt n) .argon2id userArgon2idTCost userArgon2idMCost = some hash ∧
      s = { r with
        algoId := .argon2id
        algoTCost := userArgon2idTCost
        algoMCost := userArgon2idMCost
        salt := hashing.salt n
        hash := hash } := by
  obtain ⟨hash, hderive, heq⟩ := Option.map_eq_some_iff.mp h
  exact ⟨hash, hderive, heq.symm⟩

theorem rewritten_username {r s : UserDbRecord} (h : Rewritten hashing username password r s) : s.username = r.username := by
  obtain ⟨-, n, hup⟩ | ⟨-, heq⟩ := h
  · obtain ⟨hash, -, heq⟩ := upgraded_eq hup
    rw [heq]
  · rw [heq]

theorem rewritten_good {r s : UserDbRecord} (h : Rewritten hashing username password r s)
    (hr : PlainRecord r) : PlainRecord s := by
  obtain ⟨-, n, hup⟩ | ⟨-, heq⟩ := h
  · obtain ⟨hash, hderive, heq⟩ := upgraded_eq hup
    rw [heq]
    exact { hr with
      salt := hashing.salt_length n
      hash := hashing.derive_length _ _ _ _ _ _ hderive
      tCost := (by decide : userArgon2idTCost < 2 ^ 32)
      mCost := (by decide : userArgon2idMCost < 2 ^ 32)
      argon2 := fun _ =>
        (by decide : argon2MinTCost ≤ userArgon2idTCost ∧ argon2MinMCost ≤ userArgon2idMCost) }
  · exact heq ▸ hr

theorem rewritten_all_good
    (hall : List.Forall₂ (Rewritten hashing username password) records records')
    (h : ∀ r ∈ records, PlainRecord r) : ∀ s ∈ records', PlainRecord s := by
  induction hall with
  | nil => exact nofun
  | @cons r s records records' hrs hall ih =>
    intro s' hs'
    cases List.mem_cons.mp hs' with
    | inl heq => exact heq ▸ rewritten_good hrs (h r mem_cons_self)
    | inr hin => exact ih (fun r hr => h r (mem_cons_of_mem _ hr)) s' hin

theorem rewritten_length {r s : UserDbRecord} (h : Rewritten hashing username password r s) (hr : PlainRecord r) :
    (lineText s).length = (lineText (regraded username r)).length := by
  obtain ⟨hname, n, hup⟩ | ⟨hname, heq⟩ := h
  · obtain ⟨hash, hderive, heq⟩ := upgraded_eq hup
    unfold regraded
    rw [heq, if_pos hname, lineText_length, lineText_length, hr.salt, hr.hash, hashing.salt_length n,
      hashing.derive_length _ _ _ _ _ _ hderive]
  · unfold regraded
    rw [heq, if_neg hname]

theorem rewritten_lines (hall : List.Forall₂ (Rewritten hashing username password) records records')
    (h : ∀ r ∈ records, PlainRecord r) :
    ((records'.map fun r => lineText r ++ ['\n']).flatten).length = linesLength username records := by
  induction hall with
  | nil => rfl
  | @cons r s records records' hrs hall ih =>
    have hfirst := rewritten_length hrs (h r mem_cons_self)
    have hrest := ih fun r hr => h r (mem_cons_of_mem _ hr)
    rw [map_cons, flatten_cons, length_append, length_append, hfirst, hrest]
    rfl

theorem rebuildLines_spec {cap n n' : Nat} {out out' : DbText} {lines : List DbText}
    (h : rebuildLines hashing username password cap n out lines = some (n', out')) :
    ∃ records, List.Forall₂ (Rewritten hashing username password) (lines.filterMap userdbParseLine) records ∧
      out' = out ++ (records.map fun r => lineText r ++ ['\n']).flatten ∧
      n' = n + userRecords username (lines.filterMap userdbParseLine) := by
  induction lines generalizing n out with
  | nil =>
    cases h
    exact ⟨[], .nil, by simp, rfl⟩
  | cons line lines ih =>
    unfold rebuildLines at h
    cases hparse : userdbParseLine line with
    | none =>
      simp only [hparse] at h
      rw [filterMap_cons_none hparse]
      exact ih h
    | some r =>
      simp only [hparse] at h
      rw [filterMap_cons_some hparse]
      split at h
      · cases h
      · next s m hchanged =>
        have hrewritten : Rewritten hashing username password r s ∧
            m = n + if r.username = username then 1 else 0 := by
          split at hchanged
          · next hname =>
            obtain ⟨s', hup, heq⟩ := Option.map_eq_some_iff.mp hchanged
            cases heq
            exact ⟨.inl ⟨hname, n, hup⟩, by rw [if_pos hname]⟩
          · next hname =>
            cases hchanged
            exact ⟨.inr ⟨hname, rfl⟩, by rw [if_neg hname, Nat.add_zero]⟩
        split at h
        · cases h
        · next text htext =>
          split at h
          · cases h
          · obtain ⟨records, hall, hout, hcount⟩ := ih h
            have hline : text = lineText s ++ ['\n'] := by
              unfold userdbSerializeLine at htext
              dsimp only at htext
              split at htext
              · cases htext
              · cases htext
                rfl
            refine ⟨s :: records, .cons hrewritten.1 hall, ?_, ?_⟩
            · rw [hout, hline, map_cons, flatten_cons, append_assoc]
            · rw [hcount, hrewritten.2]
              unfold userRecords
              rw [countP_cons]
              by_cases hname : r.username = username
              · simp [hname]
                omega
              · simp [hname]

/-- The new text is built where every derivation of it succeeds and it fits its buffer. -/
theorem rebuildLines_built {cap n : Nat} {out : DbText} {lines : List DbText}
    (hgood : ∀ r ∈ lines.filterMap userdbParseLine, PlainRecord r) (hout : out.length < cap) :
    (rebuildLines hashing username password cap n out lines).isSome ↔
      (∀ i < userRecords username (lines.filterMap userdbParseLine), Derives hashing password (n + i)) ∧
      out.length + linesLength username (lines.filterMap userdbParseLine) < cap := by
  induction lines generalizing n out with
  | nil => exact ⟨fun _ => ⟨fun i hi => absurd hi (Nat.not_lt_zero i), hout⟩, fun _ => rfl⟩
  | cons line lines ih =>
    unfold rebuildLines
    cases hparse : userdbParseLine line with
    | none =>
      rw [filterMap_cons_none hparse] at hgood ⊢
      exact ih hgood hout
    | some r =>
      rw [filterMap_cons_some hparse] at hgood ⊢
      dsimp only
      generalize lines.filterMap userdbParseLine = records at hgood ih ⊢
      have hr := hgood r mem_cons_self
      have hmore : ∀ r ∈ records, PlainRecord r := fun r hr => hgood r (mem_cons_of_mem _ hr)
      have hlength : linesLength username (r :: records) =
          (lineText (regraded username r)).length + 1 + linesLength username records := rfl
      -- the line itself, whoever it is of
      have hline : ∀ s m, Rewritten hashing username password r s →
          userdbSerializeLine s = some (lineText s ++ ['\n']) ∧
          ((if out.length + (lineText s ++ ['\n']).length ≥ cap then none
            else rebuildLines hashing username password cap m (out ++ (lineText s ++ ['\n'])) lines).isSome ↔
            (∀ i < userRecords username records, Derives hashing password (m + i)) ∧
            out.length + linesLength username (r :: records) < cap) := by
        intro s m hs
        have hsize : (lineText s ++ ['\n']).length = (lineText (regraded username r)).length + 1 := by
          rw [length_append, rewritten_length hs hr]
          rfl
        refine ⟨serialize_fits (rewritten_good hs hr), ?_⟩
        rw [hlength]
        by_cases hfull : out.length + (lineText s ++ ['\n']).length ≥ cap
        · rw [if_pos hfull]
          exact ⟨fun h => (by cases h), fun h => by omega⟩
        · rw [if_neg hfull, ih hmore (by rw [length_append]; omega), length_append, hsize, Nat.add_assoc out.length]
      by_cases hname : r.username = username
      · have hcount : userRecords username (r :: records) = userRecords username records + 1 := by
          unfold userRecords
          rw [countP_cons_of_pos (by simpa using hname)]
        rw [if_pos hname, hcount]
        cases hup : upgraded hashing password n r with
        | none =>
          have hderive := Option.map_eq_none_iff.mp hup
          refine ⟨fun h => (by cases h), fun h => ?_⟩
          have hfirst := h.1 0 (succ_pos _)
          rw [Nat.add_zero, Derives, hderive] at hfirst
          cases hfirst
        | some s =>
          obtain ⟨hash, hderive, -⟩ := upgraded_eq hup
          obtain ⟨htext, hbuilt⟩ := hline s (n + 1) (.inl ⟨hname, n, hup⟩)
          rw [Option.map_some]
          dsimp only
          rw [htext]
          refine hbuilt.trans (and_congr_left fun _ => ?_)
          refine ⟨fun h i hi => ?_, fun h i hi => ?_⟩
          · cases i with
            | zero =>
              rw [Nat.add_zero, Derives, hderive]
              rfl
            | succ i =>
              rw [← Nat.add_assoc, Nat.add_right_comm]
              exact h i (lt_of_succ_lt_succ hi)
          · rw [Nat.add_right_comm]
            exact h (i + 1) (succ_lt_succ hi)
      · have hcount : userRecords username (r :: records) = userRecords username records := by
          unfold userRecords
          rw [countP_cons_of_neg (by simpa using hname)]
        rw [if_neg hname, hcount]
        obtain ⟨htext, hbuilt⟩ := hline r n (.inr ⟨hname, rfl⟩)
        dsimp only
        rw [htext]
        exact hbuilt

def readBack (r : UserDbRecord) : Option UserDbRecord :=
  if r.username = [] then none else some (storedRecord r)

theorem userdbRecords_written {records : List UserDbRecord} (h : ∀ r ∈ records, PlainRecord r) :
    userdbRecords ((records.map fun r => lineText r ++ ['\n']).flatten) = records.filterMap readBack := by
  have htexts : ∀ t ∈ records.map lineText, '\n' ∉ t ∧ t ≠ [] := by
    intro t ht
    obtain ⟨r, hr, rfl⟩ := List.mem_map.mp ht
    exact lineText_line (h r hr)
  have hlines := userdbLines_written htexts
  rw [map_map] at hlines
  unfold userdbRecords
  rw [show (fun r => lineText r ++ ['\n']) = (· ++ ['\n']) ∘ lineText from rfl, hlines, filterMap_map]
  exact filterMap_congr fun r hr => parse_lineText (h r hr)

theorem storedRecord_username (r : UserDbRecord) : (storedRecord r).username = r.username := by
  unfold storedRecord
  split <;> rfl

theorem readBack_username {r s : UserDbRecord} (h : readBack r = some s) : s.username = r.username := by
  unfold readBack at h
  split at h
  · cases h
  · cases h
    exact storedRecord_username r

def KeepsLine (r : UserDbRecord) : Prop :=
  r.username ≠ [] ∧ (r.algoId = .pbkdf2Sha256 → r.algoTCost = 0 ∧ r.algoMCost = 0)

theorem readBack_keeps (h : KeepsLine r) : readBack r = some r := by
  unfold readBack storedRecord
  rw [if_neg h.1]
  cases halgo : r.algoId with
  | argon2id => rfl
  | pbkdf2Sha256 =>
    obtain ⟨htCost, hmCost⟩ := h.2 halgo
    cases r
    cases htCost
    cases hmCost
    cases halgo
    rfl

/-- Nothing in front of a record of another name is found instead. -/
theorem find_readBack_skip {name : DbText} {s : UserDbRecord} {records : List UserDbRecord} (h : s.username ≠ name) :
    ((s :: records).filterMap readBack).find? (fun r => r.username = name) =
      (records.filterMap readBack).find? (fun r => r.username = name) := by
  cases hread : readBack s with
  | none => rw [filterMap_cons_none hread]
  | some t =>
    rw [filterMap_cons_some hread, List.find?_cons_of_neg]
    rw [readBack_username hread]
    simpa using h

theorem find_other {name : DbText} (hname : name ≠ username)
    (hall : List.Forall₂ (Rewritten hashing username password) records records')
    (hkeeps : ∀ r, records.find? (fun r => r.username = name) = some r → KeepsLine r) :
    (records'.filterMap readBack).find? (fun r => r.username = name) = records.find? (fun r => r.username = name) := by
  induction hall with
  | nil => rfl
  | @cons r s records records' hrs hall ih =>
    by_cases hr : r.username = name
    · have hfound : (r :: records).find? (fun r => r.username = name) = some r :=
        List.find?_cons_of_pos (by simpa using hr)
      have hs : s = r := by
        obtain ⟨hsame, -⟩ | ⟨-, heq⟩ := hrs
        · exact absurd (hr.symm.trans hsame) hname
        · exact heq
      rw [hs, filterMap_cons_some (readBack_keeps (hkeeps r hfound)), hfound]
      exact List.find?_cons_of_pos (by simpa using hr)
    · have hskip : (r :: records).find? (fun r => r.username = name) =
          records.find? (fun r => r.username = name) := List.find?_cons_of_neg (by simpa using hr)
      rw [hskip] at hkeeps ⊢
      rw [find_readBack_skip (by rw [rewritten_username hrs]; exact hr)]
      exact ih hkeeps

theorem find_changed (hname : username ≠ [])
    (hall : List.Forall₂ (Rewritten hashing username password) records records')
    (hsome : ∃ r ∈ records, r.username = username) : ∃ old new n, records.find? (fun r => r.username = username) = some old ∧
      upgraded hashing password n old = some new ∧
      (records'.filterMap readBack).find? (fun r => r.username = username) = some new := by
  induction hall with
  | nil =>
    obtain ⟨r, hr, -⟩ := hsome
    cases hr
  | @cons r s records records' hrs hall ih =>
    by_cases hr : r.username = username
    · obtain ⟨-, n, hup⟩ | ⟨hne, -⟩ := hrs
      · obtain ⟨hash, -, heq⟩ := upgraded_eq hup
        have hsame : s.username = username := by rw [heq]; exact hr
        have hkeeps : KeepsLine s := by
          refine ⟨hsame ▸ hname, fun halgo => ?_⟩
          rw [heq] at halgo
          cases halgo
        refine ⟨r, s, n, List.find?_cons_of_pos (by simpa using hr), hup, ?_⟩
        rw [filterMap_cons_some (readBack_keeps hkeeps)]
        exact List.find?_cons_of_pos (by simpa using hsame)
      · exact absurd hr hne
    · obtain ⟨r', hr', hname'⟩ := hsome
      have htail : r' ∈ records := by
        cases List.mem_cons.mp hr' with
        | inl heq => exact absurd (heq ▸ hname') hr
        | inr hin => exact hin
      obtain ⟨old, new, n, hold, hup, hnew⟩ := ih ⟨r', htail, hname'⟩
      refine ⟨old, new, n, ?_, hup, ?_⟩
      · rw [List.find?_cons_of_neg (by simpa using hr)]
        exact hold
      · rw [find_readBack_skip (by rw [rewritten_username hrs]; exact hr)]
        exact hnew

theorem find_readBack_kept {name : DbText} {r : UserDbRecord} {records : List UserDbRecord}
    (h : (records.filterMap readBack).find? (fun r => r.username = name) = some r) : KeepsLine r := by
  obtain ⟨s, -, hread⟩ := List.mem_filterMap.mp (List.mem_of_find?_eq_some h)
  have hname := readBack_username hread
  unfold readBack at hread
  split at hread
  · cases hread
  · next hne =>
    cases hread
    refine ⟨hname ▸ hne, fun halgo => ?_⟩
    unfold storedRecord at halgo ⊢
    cases hs : s.algoId with
    | pbkdf2Sha256 => exact ⟨rfl, rfl⟩
    | argon2id =>
      simp only [hs] at halgo
      cases halgo

/-- The delete fails and nothing is written over the old file. -/
def OldStays (fate : WriteFate) : Prop :=
  fate.unlinks = false ∧ (fate.opens = false ∨ fate.shortWrite = some 0)

/-- A text of the new length that is written is written whole, and not over a longer one. -/
structure WritesWhole (fate : WriteFate) (oldLength newLength : Nat) : Prop where
  whole : ∀ k, fate.shortWrite = some k → newLength ≤ k
  covers : fate.unlinks = false → oldLength ≤ newLength

structure Replaces (fate : WriteFate) (oldLength newLength : Nat) : Prop extends
    WritesWhole fate oldLength newLength where
  creates : fate.unlinks = true → fate.creates = true
  opens : fate.opens = true

theorem writeBlob_oldStays {source data : DbText} (h : OldStays fate) (hdata : data ≠ []) :
    userdbWriteBlob fate (some source) data = (false, some source) := by
  obtain ⟨hunlinks, hopens | hshort⟩ := h
  · unfold userdbWriteBlob
    simp [hunlinks, hopens]
  · have hlen : 0 < data.length := List.length_pos_iff.mpr hdata
    unfold userdbWriteBlob
    cases fate.opens with
    | false => simp [hunlinks]
    | true =>
      simp only [hunlinks, hshort, Option.getD_some, Nat.zero_min, take_zero, drop_zero]
      simpa using hlen.ne

theorem writeBlob_replaces {source data : DbText} (h : Replaces fate source.length data.length) :
    userdbWriteBlob fate (some source) data = (true, some data) := by
  have hwritten : min (fate.shortWrite.getD data.length) data.length = data.length := by
    cases hshort : fate.shortWrite with
    | none => exact Nat.min_self _
    | some k => exact Nat.min_eq_right (h.whole k hshort)
  unfold userdbWriteBlob
  cases hunlinks : fate.unlinks with
  | false =>
    have hcovers := h.covers hunlinks
    simp [h.opens, hwritten, drop_eq_nil_of_le hcovers]
  | true => simp [h.opens, hwritten, h.creates hunlinks]

/-- A rewrite that neither happens nor leaves the old file leaves nobody. -/
theorem writeBlob_lost {source data : DbText} (hstays : ¬OldStays fate)
    (hwhole : WritesWhole fate source.length data.length)
    (h : ¬Replaces fate source.length data.length) :
    ∃ after, userdbWriteBlob fate (some source) data = (false, after) ∧
      ∀ name, userdbFind after name = none := by
  unfold userdbWriteBlob
  cases hunlinks : fate.unlinks with
  | false =>
    cases hopens : fate.opens with
    | false => exact absurd ⟨hunlinks, .inl hopens⟩ hstays
    | true => exact absurd ⟨hwhole, (fun hone => by cases hunlinks.symm.trans hone), hopens⟩ h
  | true =>
    cases hcreates : fate.creates with
    | false => exact ⟨none, rfl, fun name => rfl⟩
    | true =>
      cases hopens : fate.opens with
      | false => exact ⟨some [], rfl, fun name => by simp [userdbFind, userdbRecords, userdbLines]⟩
      | true => exact absurd ⟨hwhole, fun _ => hcreates, hopens⟩ h

/-- Somebody's password is about to be written: the new text has been built. -/
structure ChangeReached (hashing : Hashing) (reads : Bool) (file : Option DbText)
    (username password : DbText) : Prop where
  named : username ≠ []
  given : password ≠ []
  read : reads = true
  found : (userdbFind file username).isSome
  derives : ∀ i < userRecords username (userdbRecords (file.getD [])), Derives hashing password i
  fits : linesLength username (userdbRecords (file.getD [])) < (file.getD []).length + 512

/-- The others' lines give their records back. -/
def OthersKept (file : Option DbText) (username : DbText) : Prop :=
  ∀ name, name ≠ username → ∀ r, userdbFind file name = some r → KeepsLine r

/-- The file stays, or the new text takes its place and keeps the others. -/
def Replaceable (fate : WriteFate) (file : Option DbText) (username : DbText) : Prop :=
  OldStays fate ∨ Replaces fate (file.getD []).length
    (linesLength username (userdbRecords (file.getD []))) ∧ OthersKept file username

/-- Nobody else's record changes, and nobody's when the change fails. -/
structure ReplaceSound (hashing : Hashing) (reads : Bool) (fate : WriteFate) (file : Option DbText)
    (username password : DbText) : Prop where
  others : ∀ after, userdbReplacePasswordHash hashing reads fate file username password = (true, after) →
    ∀ name, name ≠ username → userdbFind after name = userdbFind file name ∧
      ∀ other, userdbVerify hashing after name other = userdbVerify hashing file name other
  changed : ∀ after, userdbReplacePasswordHash hashing reads fate file username password = (true, after) →
    ∃ old new, userdbFind file username = some old ∧ userdbFind after username = some new ∧
      new.uid = old.uid ∧ new.gid = old.gid ∧ new.home = old.home ∧ new.role = old.role ∧
      userdbVerify hashing after username password = true
  failed : ∀ after, userdbReplacePasswordHash hashing reads fate file username password = (false, after) →
    ∀ name, userdbFind after name = userdbFind file name

theorem replaceSound_unchanged {file : Option DbText}
    (h : userdbReplacePasswordHash hashing reads fate file username password = (false, file)) :
    ReplaceSound hashing reads fate file username password := by
  refine ⟨fun after hafter => ?_, fun after hafter => ?_, fun after hafter name => ?_⟩
  · rw [h] at hafter
    cases hafter
  · rw [h] at hafter
    cases hafter
  · rw [h] at hafter
    cases hafter
    rfl

/-- The new text, read back. -/
theorem rebuilt_reads {cap : Nat} {source out : DbText}
    (h : rebuildLines hashing username password cap 0 [] (userdbLines source) = some (n, out)) :
    ∃ records, List.Forall₂ (Rewritten hashing username password) (userdbRecords source) records ∧
      out.length = linesLength username (userdbRecords source) ∧
      n = userRecords username (userdbRecords source) ∧
      ∀ name, userdbFind (some out) name =
        (records.filterMap readBack).find? (fun r => r.username = name) := by
  obtain ⟨records, hall, hout, hcount⟩ := rebuildLines_spec h
  have hplain : ∀ r ∈ userdbRecords source, PlainRecord r := fun r hr => userdbRecords_good hr
  rw [nil_append] at hout
  refine ⟨records, hall, ?_, hcount.trans (Nat.zero_add _), fun name => ?_⟩
  · rw [hout]
    exact rewritten_lines hall hplain
  · unfold userdbFind
    rw [Option.bind_some, hout, userdbRecords_written (rewritten_all_good hall hplain)]

theorem userdbFind_mem {source name : DbText} (h : userdbFind (some source) name = some r) :
    r ∈ userdbRecords source ∧ r.username = name :=
  ⟨List.mem_of_find?_eq_some h, by simpa using List.find?_some h⟩

theorem userRecords_pos {source : DbText} :
    userRecords username (userdbRecords source) ≠ 0 ↔ (userdbFind (some source) username).isSome := by
  unfold userRecords userdbFind
  rw [← Nat.pos_iff_ne_zero, countP_pos_iff, Option.bind_some, List.find?_isSome]

/-- A change that is not reached leaves the file. -/
theorem replace_stops {file : Option DbText} (h : ¬ChangeReached hashing reads file username password) :
    userdbReplacePasswordHash hashing reads fate file username password = (false, file) := by
  unfold userdbReplacePasswordHash
  by_cases hempty : username = [] ∨ password = []
  · rw [if_pos hempty]
  · rw [if_neg hempty]
    rw [not_or] at hempty
    cases file with
    | none => cases reads <;> rfl
    | some source =>
      cases reads with
      | false => rfl
      | true =>
        rw [if_pos rfl]
        dsimp only
        cases hbuild : rebuildLines hashing username password (source.length + 512) 0 []
            (userdbLines source) with
        | none => rfl
        | some result =>
          obtain ⟨n, out⟩ := result
          obtain ⟨-, -, -, hcount, -⟩ := rebuilt_reads hbuild
          refine if_pos (by_contra fun hn => h ?_)
          have hbuilt := (rebuildLines_built (fun r hr => userdbRecords_good hr)
            (by simp)).mp (Option.isSome_iff_exists.mpr ⟨_, hbuild⟩)
          refine ⟨hempty.1, hempty.2, rfl, userRecords_pos.mp (hcount ▸ hn), fun i hi => ?_, ?_⟩
          · have hi := hbuilt.1 i hi
            rwa [Nat.zero_add] at hi
          · have hfits := hbuilt.2
            rwa [List.length_nil, Nat.zero_add] at hfits

theorem replace_rewrites (fate : WriteFate) {file : Option DbText}
    (h : ChangeReached hashing reads file username password) :
    ∃ source n out, file = some source ∧ n ≠ 0 ∧
      rebuildLines hashing username password (source.length + 512) 0 [] (userdbLines source) = some (n, out) ∧
      userdbReplacePasswordHash hashing reads fate file username password =
        userdbWriteBlob fate file out := by
  obtain ⟨hname, hpassword, rfl, hfound, hderives, hfits⟩ := h
  cases file with
  | none => cases hfound
  | some source =>
    have hbuilt : (rebuildLines hashing username password (source.length + 512) 0 []
        (userdbLines source)).isSome := by
      refine (rebuildLines_built (fun r hr => userdbRecords_good hr) (by simp)).mpr ⟨fun i hi => ?_, ?_⟩
      · rw [Nat.zero_add]
        exact hderives i hi
      · rw [List.length_nil, Nat.zero_add]
        exact hfits
    obtain ⟨⟨n, out⟩, hbuild⟩ := Option.isSome_iff_exists.mp hbuilt
    obtain ⟨-, -, -, hcount, -⟩ := rebuilt_reads hbuild
    have hn : n ≠ 0 := hcount ▸ userRecords_pos.mpr hfound
    refine ⟨source, n, out, rfl, hn, hbuild, ?_⟩
    unfold userdbReplacePasswordHash
    rw [if_neg (not_or.mpr ⟨hname, hpassword⟩), if_pos rfl]
    dsimp only
    rw [hbuild]
    exact if_neg hn

theorem replaceSound_written {source out : DbText} (hname : username ≠ [])
    (hkeeps : OthersKept (some source) username)
    (hall : List.Forall₂ (Rewritten hashing username password) (userdbRecords source) records)
    (hsome : (userdbFind (some source) username).isSome)
    (hread : ∀ name, userdbFind (some out) name =
      (records.filterMap readBack).find? (fun r => r.username = name))
    (h : userdbReplacePasswordHash hashing reads fate (some source) username password = (true, some out)) :
    ReplaceSound hashing reads fate (some source) username password := by
  have hothers : ∀ name, name ≠ username → userdbFind (some out) name = userdbFind (some source) name :=
    fun name hother => (hread name).trans (find_other hother hall (hkeeps name hother))
  refine ⟨fun after hafter name hother => ?_, fun after hafter => ?_, fun after hafter => ?_⟩
  · rw [h] at hafter
    cases hafter
    refine ⟨hothers name hother, fun other => ?_⟩
    unfold userdbVerify
    rw [hothers name hother]
  · rw [h] at hafter
    cases hafter
    obtain ⟨r, hr⟩ := Option.isSome_iff_exists.mp hsome
    obtain ⟨old, new, m, hold, hup, hnew⟩ := find_changed hname hall ⟨r, userdbFind_mem hr⟩
    have hnew := (hread username).trans hnew
    obtain ⟨hash, hderive, heq⟩ := upgraded_eq hup
    refine ⟨old, new, hold, hnew, by rw [heq], by rw [heq], by rw [heq], by rw [heq], ?_⟩
    unfold userdbVerify
    rw [hnew, heq]
    dsimp only
    rw [hderive]
    exact beq_self_eq_true _
  · rw [h] at hafter
    cases hafter

/-- A change of one password changes nothing else and fails cleanly where, if the new text is
built at all, the file is left alone or replaced whole by lines that keep the others' records;
and only there, unless the write is cut short or the delete failed over a longer file. -/
theorem replace_sound (reads : Bool) (fate : WriteFate) (file : Option DbText) :
    ((ChangeReached hashing reads file username password → Replaceable fate file username) →
      ReplaceSound hashing reads fate file username password) ∧
    (WritesWhole fate (file.getD []).length
        (linesLength username (userdbRecords (file.getD []))) →
      ReplaceSound hashing reads fate file username password →
      ChangeReached hashing reads file username password → Replaceable fate file username) := by
  by_cases hreached : ChangeReached hashing reads file username password
  · obtain ⟨source, n, out, rfl, hn, hbuild, hvalue⟩ := replace_rewrites fate hreached
    obtain ⟨records, hall, hlength, hcount, hread⟩ := rebuilt_reads hbuild
    have hfound := hreached.found
    have hne : out ≠ [] := by
      rintro rfl
      have hzero := hread username
      obtain ⟨r, hr⟩ := Option.isSome_iff_exists.mp hfound
      obtain ⟨-, new, -, -, -, hnew⟩ := find_changed hreached.named hall ⟨r, userdbFind_mem hr⟩
      rw [hnew] at hzero
      cases hzero
    change ((_ → OldStays fate ∨ Replaces fate source.length
      (linesLength username (userdbRecords source)) ∧ _) → _) ∧ _
    refine ⟨fun h => ?_, fun hwhole hsound _ => ?_⟩
    · rcases h hreached with hstays | ⟨hreplaces, hkept⟩
      · exact replaceSound_unchanged (hvalue.trans (writeBlob_oldStays hstays hne))
      · rw [← hlength] at hreplaces
        exact replaceSound_written hreached.named hkept hall hfound hread
          (hvalue.trans (writeBlob_replaces hreplaces))
    · change WritesWhole fate source.length (linesLength username (userdbRecords source)) at hwhole
      change OldStays fate ∨ Replaces fate source.length
        (linesLength username (userdbRecords source)) ∧ _
      rw [← hlength] at hwhole ⊢
      by_cases hstays : OldStays fate
      · exact .inl hstays
      · by_cases hreplaces : Replaces fate source.length out.length
        · refine .inr ⟨hreplaces, fun name hname r hr => ?_⟩
          have hafter := hvalue.trans (writeBlob_replaces hreplaces)
          have hsame := (hsound.others _ hafter name hname).1
          rw [hread, hr] at hsame
          exact find_readBack_kept hsame
        · obtain ⟨after, hafter, hnobody⟩ := writeBlob_lost hstays hwhole hreplaces
          have hsame := hsound.failed after (hvalue.trans hafter) username
          rw [hnobody] at hsame
          rw [← hsame] at hfound
          cases hfound
  · exact ⟨fun _ => replaceSound_unchanged (replace_stops hreached),
      fun _ _ h => absurd h hreached⟩

end

def lengthHashing : Hashing where
  derive password _ _ tCost _ :=
    some (List.replicate userHashSize (BitVec.ofNat 8 (password.length + tCost)))
  salt n := List.replicate userSaltSize (BitVec.ofNat 8 n)
  derive_length password _ _ tCost _ hash h := by
    cases h
    exact length_replicate
  salt_length n := length_replicate

def wholeFate : WriteFate := ⟨true, true, true, none⟩

def zeroHex (n : Nat) : DbText := List.replicate (2 * n) '0'

def rootLine : DbText :=
  "root:0:0:/root:".toList ++ zeroHex userSaltSize ++ [':'] ++ zeroHex userHashSize ++ ":admin\n".toList

def bobLine : DbText :=
  "bob:1:1:/home/bob:".toList ++ zeroHex userSaltSize ++ [':'] ++ zeroHex userHashSize ++
    ":user:pbkdf2:5000:0\n".toList

def carolLine : DbText :=
  "carol:2:2:/home/carol:".toList ++ zeroHex userSaltSize ++ [':'] ++ zeroHex userHashSize ++
    ":user\n".toList

/-- The password of root changes beside a user whose line is kept. -/
theorem replace_sound_carol :
    (userdbReplacePasswordHash lengthHashing true wholeFate (some (carolLine ++ rootLine))
        "root".toList "secret".toList).1 = true ∧
      ReplaceSound lengthHashing true wholeFate (some (carolLine ++ rootLine)) "root".toList
        "secret".toList ∧
      Replaceable wholeFate (some (carolLine ++ rootLine)) "root".toList := by
  have hkept : ∀ r ∈ userdbRecords (carolLine ++ rootLine), KeepsLine r := by
    unfold KeepsLine
    decide +kernel
  have hwhole : WritesWhole wholeFate (carolLine ++ rootLine).length
      (linesLength "root".toList (userdbRecords (carolLine ++ rootLine))) :=
    ⟨fun k h => (by cases h), fun h => (by cases h)⟩
  have hsound : ReplaceSound lengthHashing true wholeFate (some (carolLine ++ rootLine)) "root".toList
      "secret".toList :=
    (replace_sound true wholeFate (some (carolLine ++ rootLine))).1 fun _ =>
      .inr ⟨⟨hwhole, fun _ => rfl, rfl⟩, fun name _ r hr => hkept r (userdbFind_mem hr).1⟩
  refine ⟨by decide +kernel, hsound, (replace_sound true wholeFate _).2 hwhole hsound ?_⟩
  refine ⟨by decide, by decide, rfl, by decide +kernel, fun i _ => rfl, by decide +kernel⟩

/-- The other user loses the cost his hash was derived with. -/
theorem replace_drops_cost :
    ¬ReplaceSound lengthHashing true wholeFate (some (rootLine ++ bobLine)) "root".toList
      "secret".toList := by
  intro h
  have hresult : (userdbReplacePasswordHash lengthHashing true wholeFate (some (rootLine ++ bobLine))
      "root".toList "secret".toList).1 = true ∧
      (userdbFind (userdbReplacePasswordHash lengthHashing true wholeFate (some (rootLine ++ bobLine))
        "root".toList "secret".toList).2 "bob".toList).map UserDbRecord.algoTCost = some 0 := by
    decide +kernel
  have hbefore : (userdbFind (some (rootLine ++ bobLine)) "bob".toList).map UserDbRecord.algoTCost =
      some 5000 := by decide
  generalize hafter : userdbReplacePasswordHash lengthHashing true wholeFate (some (rootLine ++ bobLine))
    "root".toList "secret".toList = after at hresult
  obtain ⟨ok, file⟩ := after
  obtain ⟨rfl, hcost⟩ := hresult
  have hsame := (h.others file hafter "bob".toList (by decide)).1
  rw [← hsame, hcost] at hbefore
  cases hbefore

end CapyOS.Proofs
