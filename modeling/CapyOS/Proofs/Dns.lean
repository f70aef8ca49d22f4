import CapyOS.Net.Dns

namespace CapyOS.Proofs
open Lib
variable {msg : List Byte}

/-! ## Reading inside the message -/

theorem dnsBe16_inside {i : Nat} (h : i + 2 ≤ msg.length) : ∃ x, dnsBe16 msg i = some x := by
  have h0 : msg[i]? = some msg[i] := List.getElem?_eq_getElem _
  have h1 : msg[i + 1]? = some msg[i + 1] := List.getElem?_eq_getElem _
  exact ⟨_, by rw [dnsBe16, h0, h1]; rfl⟩

theorem dnsBe32_inside {i : Nat} (h : i + 4 ≤ msg.length) : ∃ x, dnsBe32 msg i = some x := by
  obtain ⟨a, ha⟩ := @dnsBe16_inside msg i (by omega)
  obtain ⟨b, hb⟩ := @dnsBe16_inside msg (i + 2) (by omega)
  exact ⟨_, by rw [dnsBe32, ha, hb]; rfl⟩

theorem skipNameFrom_inside {len : Nat} (hlen : len ≤ msg.length) (n pos : Nat) (hn : len ≤ n + pos) :
    ∃ r, skipNameFrom msg len n pos = some r ∧ ∀ o, r = some o → pos < o ∧ o ≤ len := by
  induction n generalizing pos with
  | zero =>
    rw [skipNameFrom, if_neg (by omega)]
    exact ⟨none, rfl, nofun⟩
  | succ n ih =>
    rw [skipNameFrom]
    split
    next hin =>
      have hread : msg[pos]? = some msg[pos] := List.getElem?_eq_getElem _
      rw [hread]
      change ∃ r, (if msg[pos] = 0 then _ else _) = some r ∧ _
      split
      · exact ⟨_, rfl, fun o ho => by cases ho; omega⟩
      split
      · split
        · exact ⟨_, rfl, nofun⟩
        · exact ⟨_, rfl, fun o ho => by cases ho; omega⟩
      split
      · exact ⟨_, rfl, nofun⟩
      · obtain ⟨r, hr, hb⟩ := ih (pos + (msg[pos].toNat + 1)) (by omega)
        exact ⟨r, hr, fun o ho => by have := hb o ho; omega⟩
    next => exact ⟨none, rfl, nofun⟩

theorem skipName_inside {len : Nat} (hlen : len ≤ msg.length) (offset : Nat) :
    ∃ r, skipName msg len offset = some r ∧ ∀ o, r = some o → offset < o ∧ o ≤ len := by
  unfold skipName
  split
  · exact ⟨none, rfl, nofun⟩
  · exact skipNameFrom_inside hlen len offset (by omega)

theorem readRecord_inside (offset : Nat) : ∃ r, readRecord msg offset = some r ∧
    ∀ d, r = some d → d.data + d.rdlen ≤ msg.length := by
  obtain ⟨r, hr, hb⟩ := skipName_inside (Nat.le_refl msg.length) offset
  unfold readRecord
  rw [hr]
  cases r with
  | none => exact ⟨none, rfl, nofun⟩
  | some o =>
    change ∃ r, (if o + 10 > msg.length then _ else _) = some r ∧ _
    split
    · exact ⟨none, rfl, nofun⟩
    next hroom =>
      obtain ⟨t, ht⟩ := @dnsBe16_inside msg o (by omega)
      obtain ⟨c, hc⟩ := @dnsBe16_inside msg (o + 2) (by omega)
      obtain ⟨l, hl⟩ := @dnsBe32_inside msg (o + 4) (by omega)
      obtain ⟨d, hd⟩ := @dnsBe16_inside msg (o + 8) (by omega)
      rw [ht, hc, hl, hd]
      change ∃ r, (if o + 10 + d.toNat > msg.length then _ else _) = some r ∧ _
      split
      · exact ⟨none, rfl, nofun⟩
      next hdata => exact ⟨_, rfl, fun e he => by cases he; simp only []; omega⟩

theorem skipQuestions_inside (n offset : Nat) : ∃ r, skipQuestions msg n offset = some r := by
  induction n generalizing offset with
  | zero => exact ⟨_, rfl⟩
  | succ n ih =>
    obtain ⟨r, hr, -⟩ := skipName_inside (Nat.le_refl msg.length) offset
    rw [skipQuestions, hr]
    cases r with
    | none => exact ⟨none, rfl⟩
    | some o =>
      change ∃ r, (if o + 4 > msg.length then _ else _) = some r
      split
      · exact ⟨none, rfl⟩
      · exact ih _

theorem skipRecords_inside (n offset : Nat) : ∃ r, skipRecords msg n offset = some r := by
  induction n generalizing offset with
  | zero => exact ⟨_, rfl⟩
  | succ n ih =>
    obtain ⟨r, hr, -⟩ := @readRecord_inside msg offset
    rw [skipRecords, hr]
    cases r with
    | none => exact ⟨none, rfl⟩
    | some d => exact ih _

/-- The answer `k` of those that start at an offset. -/
inductive RecordAt (msg : List Byte) : Nat → Nat → DnsRecord → Prop
  | here (offset : Nat) (r : DnsRecord) (h : readRecord msg offset = some (some r)) : RecordAt msg offset 0 r
  | next (offset k : Nat) (d r : DnsRecord) (h : readRecord msg offset = some (some d))
    (hr : RecordAt msg (d.data + d.rdlen) k r) : RecordAt msg offset (k + 1) r

theorem firstAFrom_inside (n offset : Nat) : ∃ r, firstAFrom msg n offset = some r ∧ ∀ x, r = some x →
    ∃ k < n, ∃ d, RecordAt msg offset k d ∧ d.type = 1 ∧ d.classCode = 1 ∧ d.rdlen = 4 ∧
      dnsBe32 msg d.data = some x.1 ∧ d.ttl = x.2 := by
  induction n generalizing offset with
  | zero => exact ⟨none, rfl, nofun⟩
  | succ n ih =>
    obtain ⟨r, hr, hb⟩ := @readRecord_inside msg offset
    rw [firstAFrom, hr]
    cases r with
    | none => exact ⟨none, rfl, nofun⟩
    | some d =>
      have hd := hb d rfl
      change ∃ r, (if d.type = 1 ∧ d.classCode = 1 ∧ d.rdlen = 4 then _ else _) = some r ∧ _
      split
      next ha =>
        obtain ⟨ip, hip⟩ := @dnsBe32_inside msg d.data (by omega)
        rw [hip]
        exact ⟨_, rfl, fun x hx => by cases hx; exact ⟨0, by omega, d, .here _ _ hr, ha.1, ha.2.1, ha.2.2, hip, rfl⟩⟩
      next =>
        obtain ⟨r, hr', hfound⟩ := ih (d.data + d.rdlen)
        refine ⟨r, hr', fun x hx => ?_⟩
        obtain ⟨k, hk, e, he, hrest⟩ := hfound x hx
        exact ⟨k + 1, by omega, e, .next _ _ _ _ hr he, hrest⟩

theorem soaMinimum_inside {d : DnsRecord} (h : d.data + d.rdlen ≤ msg.length) : ∃ r, soaMinimum msg d = some r := by
  obtain ⟨r, hr, -⟩ := skipName_inside h d.data
  unfold soaMinimum
  rw [hr]
  cases r with
  | none => exact ⟨none, rfl⟩
  | some o =>
    obtain ⟨r, hr', -⟩ := skipName_inside h o
    change ∃ r, (skipName msg (d.data + d.rdlen) o >>= _) = some r
    rw [hr']
    cases r with
    | none => exact ⟨none, rfl⟩
    | some o =>
      change ∃ r, (if o + 20 > d.data + d.rdlen then _ else _) = some r
      split
      · exact ⟨none, rfl⟩
      next hroom =>
        obtain ⟨m, hm⟩ := @dnsBe32_inside msg (o + 16) (by omega)
        exact ⟨some m, by rw [hm]; rfl⟩

theorem firstSoaFrom_inside (n offset : Nat) : ∃ r, firstSoaFrom msg n offset = some r := by
  induction n generalizing offset with
  | zero => exact ⟨none, rfl⟩
  | succ n ih =>
    obtain ⟨r, hr, hb⟩ := @readRecord_inside msg offset
    rw [firstSoaFrom, hr]
    cases r with
    | none => exact ⟨none, rfl⟩
    | some d =>
      change ∃ r, (if d.type ≠ 6 ∨ d.classCode ≠ 1 then _ else _) = some r
      split
      · exact ih _
      · obtain ⟨m, hm⟩ := soaMinimum_inside (hb d rfl)
        rw [hm]
        cases m with
        | none => exact ⟨none, rfl⟩
        | some m => exact ⟨_, rfl⟩

theorem header_inside (h : 12 ≤ msg.length) : ∃ d, DnsHeader.read msg = some d ∧ dnsBe16 msg 0 = some d.id := by
  obtain ⟨a, ha⟩ := @dnsBe16_inside msg 0 (by omega)
  obtain ⟨b, hb⟩ := @dnsBe16_inside msg 2 (by omega)
  obtain ⟨c, hc⟩ := @dnsBe16_inside msg 4 (by omega)
  obtain ⟨d, hd⟩ := @dnsBe16_inside msg 6 (by omega)
  obtain ⟨e, he⟩ := @dnsBe16_inside msg 8 (by omega)
  exact ⟨_, by rw [DnsHeader.read, ha, hb, hc, hd, he]; rfl, ha⟩

/-! ## The two parsers -/

def AnswersWith (msg : List Byte) (id : BitVec 16) (ip ttl : BitVec 32) : Prop :=
  ∃ h offset k d, DnsHeader.read msg = some h ∧ h.id = id ∧ h.isResponse ∧ h.rcode = 0 ∧
    skipQuestions msg h.qdcount 12 = some (some offset) ∧ k < h.ancount ∧ RecordAt msg offset k d ∧
    d.type = 1 ∧ d.classCode = 1 ∧ d.rdlen = 4 ∧ dnsBe32 msg d.data = some ip ∧ d.ttl = ttl

theorem parseFirstA_inside (msg : List Byte) (id : BitVec 16) : ∃ r, netDnsParseFirstA msg id = some r ∧
    ∀ x, r = some x → AnswersWith msg id x.1 x.2 := by
  unfold netDnsParseFirstA
  split
  · exact ⟨none, rfl, nofun⟩
  next hlen =>
    obtain ⟨h, hh, -⟩ := @header_inside msg (by omega)
    rw [hh]
    change ∃ r, (if h.id ≠ id ∨ !h.isResponse ∨ h.rcode ≠ 0 then _ else _) = some r ∧ _
    split
    · exact ⟨none, rfl, nofun⟩
    next hgood =>
      obtain ⟨q, hq⟩ := @skipQuestions_inside msg h.qdcount 12
      rw [hq]
      cases q with
      | none => exact ⟨none, rfl, nofun⟩
      | some o =>
        obtain ⟨r, hr, hfound⟩ := @firstAFrom_inside msg h.ancount o
        refine ⟨r, hr, fun x hx => ?_⟩
        obtain ⟨k, hk, d, hd, ht, hc, hl, hip, httl⟩ := hfound x hx
        simp only [not_or, not_not, Bool.not_eq_true', Bool.not_eq_false] at hgood
        exact ⟨h, o, k, d, hh, hgood.1, hgood.2.1, hgood.2.2, hq, hk, hd, ht, hc, hl, hip, httl⟩

theorem parseNegativeTtl_inside (msg : List Byte) (id : BitVec 16) : ∃ r, netDnsParseNegativeTtl msg id = some r ∧
    ∀ x, r = some x → ∃ h, DnsHeader.read msg = some h ∧ (h.rcode = 3 ∨ h.ancount = 0) := by
  unfold netDnsParseNegativeTtl
  split
  · exact ⟨none, rfl, nofun⟩
  next hlen =>
    obtain ⟨h, hh, -⟩ := @header_inside msg (by omega)
    rw [hh]
    change ∃ r, (if h.id ≠ id ∨ !h.isResponse then _ else _) = some r ∧ _
    split
    · exact ⟨none, rfl, nofun⟩
    split
    · exact ⟨none, rfl, nofun⟩
    next hneg =>
      have hcode : h.rcode = 3 ∨ h.ancount = 0 := by
        by_contra hc
        exact hneg (.inl fun h' => hc (h'.imp_right And.right))
      obtain ⟨q, hq⟩ := @skipQuestions_inside msg h.qdcount 12
      rw [hq]
      cases q with
      | none => exact ⟨none, rfl, nofun⟩
      | some o =>
        obtain ⟨q, hq'⟩ := @skipRecords_inside msg h.ancount o
        change ∃ r, (skipRecords msg h.ancount o >>= _) = some r ∧ _
        rw [hq']
        cases q with
        | none => exact ⟨none, rfl, nofun⟩
        | some o =>
          obtain ⟨r, hr⟩ := @firstSoaFrom_inside msg h.nscount o
          exact ⟨r, hr, fun _ _ => ⟨h, rfl, hcode⟩⟩

/-! ## Replies -/

/-- Both parsers end and read inside the message, and not both succeed. An address is recorded
only while a reply is waited for, from a message with the id of the query, as the data of one
of its answers of type A and class IN. -/
theorem reply_recorded :
    (∀ msg id, (∃ r, netDnsParseFirstA msg id = some r) ∧ (∃ r, netDnsParseNegativeTtl msg id = some r) ∧
      ¬((∃ x, netDnsParseFirstA msg id = some (some x)) ∧ ∃ t, netDnsParseNegativeTtl msg id = some (some t))) ∧
    ∀ (s : NetDnsState) (msg : List Byte), ∃ s', s.netDnsHandle msg = some s' ∧
      (s'.answerIp ≠ s.answerIp ∨ (s'.responseReady ∧ ¬s.responseReady ∧ ¬s'.responseIsNegative) →
        s.waitingReply ∧ AnswersWith msg s.queryId s'.answerIp s'.answerTtl) := by
  refine ⟨fun msg id => ?_, fun s msg => ?_⟩
  · obtain ⟨r, hr, ha⟩ := parseFirstA_inside msg id
    obtain ⟨t, ht, hn⟩ := parseNegativeTtl_inside msg id
    refine ⟨⟨r, hr⟩, ⟨t, ht⟩, ?_⟩
    rintro ⟨⟨x, hx⟩, y, hy⟩
    obtain ⟨h, -, k, -, hh, -, -, h0, -, hk, -⟩ := ha x (Option.some.inj (hr.symm.trans hx))
    obtain ⟨h', hh', hcode⟩ := hn y (Option.some.inj (ht.symm.trans hy))
    obtain rfl := Option.some.inj (hh.symm.trans hh')
    omega
  · unfold NetDnsState.netDnsHandle
    split
    · exact ⟨s, rfl, fun h => by
        rcases h with h | ⟨h, h', -⟩
        · exact absurd rfl h
        · exact absurd h h'⟩
    next hwait =>
      rw [not_or, not_lt] at hwait
      obtain ⟨h, hh, hid⟩ := @header_inside msg hwait.2
      rw [hid]
      change ∃ s', (if h.id ≠ s.queryId then _ else _) = some s' ∧ _
      split
      · exact ⟨s, rfl, fun h => by
          rcases h with h | ⟨h, h', -⟩
          · exact absurd rfl h
          · exact absurd h h'⟩
      · obtain ⟨r, hr, ha⟩ := parseFirstA_inside msg s.queryId
        rw [hr]
        cases r with
        | some x => exact ⟨_, rfl, fun _ => ⟨by simpa using hwait.1, ha x rfl⟩⟩
        | none =>
          obtain ⟨t, ht, -⟩ := parseNegativeTtl_inside msg s.queryId
          change ∃ s', (netDnsParseNegativeTtl msg s.queryId >>= _) = some s' ∧ _
          rw [ht]
          cases t with
          | some y => exact ⟨_, rfl, fun h => by simp at h⟩
          | none => exact ⟨_, rfl, fun h => by
              rcases h with h | ⟨h, h', -⟩
              · exact absurd rfl h
              · exact absurd h h'⟩

def strayReply : List Byte :=
  [0, 1, 0x80, 0, 0, 1, 0, 1, 0, 0, 0, 0, 1, 0x78, 0, 0, 1, 0, 1, 1, 0x78, 0, 0, 1, 0, 1, 0, 0, 0, 60, 0, 4, 10, 0, 0, 1]

/-- With a query for "a" pending it is taken as the answer. -/
theorem stray_reply_recorded :
    netDnsQuestion [0x61] = some [1, 0x61, 0, 0, 1, 0, 1] ∧
    (strayReply.drop 12).take 7 ≠ [1, 0x61, 0, 0, 1, 0, 1] ∧
    NetDnsState.netDnsHandle ⟨1, true, false, false, false, 0, 0, 0⟩ strayReply =
      some ⟨1, true, true, false, false, 0x0A000001, 60, 0⟩ := by
  decide

end CapyOS.Proofs
