import CapyOS.Net.DnsCache

namespace CapyOS.Proofs
open Lib Function List
variable {m : DnsName → Option DnsRecord} {c : DnsCache} {name : DnsName}

/-- What the latest insert for a name said. -/
structure DnsRecord where
  ip : Nat
  ttl : Nat
  time : Nat
  negative : Bool

def latestAnswerStep (m : DnsName → Option DnsRecord) (now : Nat) : DnsOp → DnsName → Option DnsRecord
  | .insert name ip ttl => update m name (some ⟨ip, dnsStoredTtl ttl, now, false⟩)
  | .insertNegative name ttl => update m name (some ⟨0, dnsStoredTtl ttl, now, true⟩)
  | .invalidate name => update m name none
  | .flush => fun _ => none
  | .lookup _ | .lookupNegative _ | .tick => m

def latestAnswers (calls : List (Nat × DnsOp)) : DnsName → Option DnsRecord :=
  calls.foldl (fun m call => latestAnswerStep m call.1 call.2) (fun _ => none)

def TableFull (c : DnsCache) : Prop := ∀ i, (c.cache i).valid = true

def NameAbsent (c : DnsCache) (name : DnsName) : Prop :=
  ∀ i, (c.cache i).valid = true → (c.cache i).name ≠ name

def DnsInsertFits (c : DnsCache) (now : Nat) (name : DnsName) : Prop :=
  name.length < dnsCacheNameMax ∧ now ≠ 0 ∧
    (TableFull c → NameAbsent c name → ∀ i j, (c.cache i).createdTick = (c.cache j).createdTick)

def DnsStepFits (c : DnsCache) (now : Nat) : DnsOp → Prop
  | .insert name _ _ | .insertNegative name _ => DnsInsertFits c now name
  | _ => True

def DnsRunFits (c : DnsCache) : List (Nat × DnsOp) → Prop
  | [] => True
  | (now, op) :: calls => DnsStepFits c now op ∧ DnsRunFits (c.step now op) calls

def recordOf (e : DnsCacheEntry) : DnsRecord := ⟨e.ip, e.ttl, e.createdTick, e.isNegative⟩

structure DnsSound (c : DnsCache) (m : DnsName → Option DnsRecord) : Prop where
  part : PartOf c.cache (·.valid) (·.name) recordOf m
  counted : c.stats.entries = slotCount c.cache (·.valid)
  stamped : ∀ i, (c.cache i).valid = true → (c.cache i).createdTick ≠ 0

@[simp] theorem dnsStreq_iff (a b : DnsName) : dnsStreq a b = true ↔ a = b := by
  fun_induction dnsStreq a b with
  | case1 => simp
  | case2 a as b bs h => simp [h]
  | case3 a as b bs h ih =>
    have hab : a = b := not_not.mp h
    simp [hab, ih]
  | case4 a b hnil hcons =>
    cases a with
    | nil =>
      cases b with
      | nil => exact absurd rfl (hnil rfl)
      | cons b bs => simp
    | cons a as =>
      cases b with
      | nil => simp
      | cons b bs => exact absurd rfl (hcons a as b bs rfl)

theorem dnsStrcpy_fits (h : name.length < dnsCacheNameMax) : dnsStrcpy name dnsCacheNameMax = name :=
  take_of_length_le (Nat.le_sub_one_of_lt h)

theorem found_name {i : Fin dnsCacheMaxEntries}
    (h : findSlot c.cache (fun e => e.valid && dnsStreq e.name name) = some i) :
    (c.cache i).valid = true ∧ (c.cache i).name = name := by
  simpa using findSlot_some h

theorem absent_name
    (h : findSlot c.cache (fun e => e.valid && dnsStreq e.name name) = none) : NameAbsent c name := by
  intro i hi hname
  have hmiss := findSlot_none h i
  have heq := (dnsStreq_iff _ _).mpr hname
  simp [hi, heq] at hmiss

theorem DnsSound.congr {c d : DnsCache} (h : DnsSound c m)
    (hcache : d.cache = c.cache) (hentries : d.stats.entries = c.stats.entries) : DnsSound d m := by
  refine ⟨?_, ?_, ?_⟩
  · rw [hcache]
    exact h.part
  · rw [hcache, hentries]
    exact h.counted
  · rw [hcache]
    exact h.stamped

/-- A valid entry given up, its name kept in the map or not. -/
theorem DnsSound.drop {c d : DnsCache} (h : DnsSound c m)
    {i : Fin dnsCacheMaxEntries} (hi : (c.cache i).valid = true)
    (hcache : d.cache = update c.cache i { c.cache i with valid := false })
    (hentries : d.stats.entries = c.stats.entries - 1) : DnsSound d m := by
  refine ⟨?_, ?_, fun j hj => ?_⟩
  · rw [hcache]
    exact h.part.drop i rfl
  · have hlose := slotCount_lose (t := c.cache) (p := (·.valid)) (i := i)
      (e := { c.cache i with valid := false }) hi rfl
    rw [hcache, hentries, h.counted]
    omega
  · rw [hcache] at hj ⊢
    by_cases hji : j = i
    · subst hji
      rw [update_self] at hj
      cases hj
    · rw [update_of_ne hji] at hj ⊢
      exact h.stamped j hj

theorem DnsSound.expireEntry (h : DnsSound c m)
    (i : Fin dnsCacheMaxEntries) : DnsSound (c.dnsCacheExpireEntry i) m := by
  unfold DnsCache.dnsCacheExpireEntry
  split
  · exact h
  · next hi => exact h.drop (by simpa using hi) rfl rfl

theorem DnsSound.lookup (h : DnsSound c m)
    (now : Nat) (name : DnsName) : DnsSound (c.dnsCacheLookup now name).2 m := by
  unfold DnsCache.dnsCacheLookup
  split
  · exact h.congr rfl rfl
  · next i _ =>
    split
    · exact (h.expireEntry i).congr rfl rfl
    · split <;> exact h.congr rfl rfl

theorem DnsSound.lookupNegative (h : DnsSound c m)
    (now : Nat) (name : DnsName) : DnsSound (c.dnsCacheLookupNegative now name).2 m := by
  unfold DnsCache.dnsCacheLookupNegative
  split
  · exact h
  · next i _ =>
    split
    · exact h.expireEntry i
    · exact h.congr rfl rfl

theorem DnsSound.tickEntry (h : DnsSound c m)
    (now : Nat) (i : Fin dnsCacheMaxEntries) : DnsSound (c.tickEntry now i) m := by
  unfold DnsCache.tickEntry
  split
  · exact h
  · next hi =>
    have hstamp := h.stamped i (by simpa using hi)
    simp only [if_neg hstamp]
    split
    · exact h.expireEntry i
    · exact h

theorem DnsSound.tick (h : DnsSound c m)
    (now : Nat) : DnsSound (c.dnsCacheTick now) m :=
  foldl_invariant (P := fun d => DnsSound d m) (fun _ i h => h.tickEntry now i) _ c h

/-- A valid entry put in slot `i`, where no other slot has its name. -/
theorem DnsSound.put {c d : DnsCache} (h : DnsSound c m)
    {i : Fin dnsCacheMaxEntries} {e : DnsCacheEntry}
    (hother : ∀ j, j ≠ i → (c.cache j).valid = true → (c.cache j).name ≠ e.name)
    (hstamp : e.createdTick ≠ 0) (hcache : d.cache = update c.cache i e)
    (hentries : d.stats.entries = slotCount d.cache (·.valid)) : DnsSound d (update m e.name (some (recordOf e))) := by
  refine ⟨?_, hentries, fun j hj => ?_⟩
  · rw [hcache]
    exact h.part.put i e hother
  · rw [hcache] at hj ⊢
    by_cases hji : j = i
    · subst hji
      rwa [update_self]
    · rw [update_of_ne hji] at hj ⊢
      exact h.stamped j hj

theorem DnsSound.store (h : DnsSound c m)
    {now : Nat} (hfit : DnsInsertFits c now name) (ip ttl : Nat) (negative : Bool) :
    DnsSound (c.dnsCacheStore now name ip ttl negative)
      (update m name (some ⟨ip, dnsStoredTtl ttl, now, negative⟩)) := by
  obtain ⟨hlen, hnow, -⟩ := hfit
  have hname := dnsStrcpy_fits hlen
  unfold DnsCache.dnsCacheStore
  split
  · next i hfound =>
    -- the name's own slot is filled anew
    obtain ⟨hvalid, hi⟩ := found_name hfound
    have hput := h.put (d := c.setEntry i { c.cache i with
      ip := ip, ttl := dnsStoredTtl ttl, createdTick := now, isNegative := negative })
      (e := { c.cache i with
        ip := ip, ttl := dnsStoredTtl ttl, createdTick := now, isNegative := negative })
      (fun j hji hj hjn => hji (h.part.once j i hj hvalid hjn)) hnow rfl
      (h.counted.trans (slotCount_keep (by rfl)).symm)
    simpa [hi, recordOf] using hput
  · next hmissing =>
    have habsent := absent_name hmissing
    rw [hname]
    split
    · next i hfree =>
      have hi : (c.cache i).valid = false := by simpa using findSlot_some hfree
      refine h.put (i := i) (e := ⟨name, ip, dnsStoredTtl ttl, now, true, negative⟩)
        (fun j _ hj => habsent j hj) hnow rfl ?_
      rw [DnsCache.setEntry, slotCount_gain (t := c.cache) (p := (·.valid)) hi rfl, ← h.counted]
    · next hfull =>
      have hi : (c.cache c.oldestIdx).valid = true := by simpa using findSlot_none hfull c.oldestIdx
      refine h.put (i := c.oldestIdx) (e := ⟨name, ip, dnsStoredTtl ttl, now, true, negative⟩)
        (fun j _ hj => habsent j hj) hnow rfl ?_
      have hkeep : slotCount (update c.cache c.oldestIdx
          ⟨name, ip, dnsStoredTtl ttl, now, true, negative⟩) (fun e => e.valid) =
          slotCount c.cache (fun e => e.valid) := slotCount_keep hi.symm
      exact h.counted.trans hkeep.symm

theorem DnsSound.invalidate (h : DnsSound c m)
    (name : DnsName) : DnsSound (c.dnsCacheInvalidate name) (update m name none) := by
  -- where no valid entry has the name, the map may forget it
  have hforget : ∀ {d}, DnsSound d m → NameAbsent d name →
      DnsSound d (update m name none) :=
    fun hd habsent => ⟨hd.part.forget habsent, hd.counted, hd.stamped⟩
  unfold DnsCache.dnsCacheInvalidate
  split
  · next hmissing => exact hforget h (absent_name hmissing)
  · next i hfound =>
    obtain ⟨hvalid, hi⟩ := found_name hfound
    refine hforget (h.drop hvalid rfl rfl) fun j hj hjn => ?_
    by_cases hji : j = i
    · subst hji
      simp [DnsCache.setEntry] at hj
    · simp only [DnsCache.setEntry, update_of_ne hji] at hj hjn
      exact hji (h.part.once j i hj hvalid (hjn.trans hi.symm))

theorem DnsSound.flush : DnsSound c.dnsCacheFlush (fun _ => none) := by
  refine ⟨⟨fun i hi => ?_, fun i j hi => ?_⟩, ?_, fun i hi => ?_⟩
  · cases hi
  · cases hi
  · simp [DnsCache.dnsCacheFlush, slotCount]
  · cases hi

theorem DnsSound.step {c : DnsCache} {m : DnsName → Option DnsRecord} (h : DnsSound c m)
    {now : Nat} {op : DnsOp} (hfit : DnsStepFits c now op) : DnsSound (c.step now op) (latestAnswerStep m now op) := by
  cases op with
  | lookup name => exact h.lookup now name
  | lookupNegative name => exact h.lookupNegative now name
  | insert name ip ttl => exact h.store hfit ip ttl false
  | insertNegative name ttl => exact h.store hfit 0 ttl true
  | invalidate name => exact h.invalidate name
  | flush => exact DnsSound.flush
  | tick => exact h.tick now

theorem run_dnsSound (h : DnsSound c m)
    {calls : List (Nat × DnsOp)} (hfit : DnsRunFits c calls) :
    DnsSound (c.run calls) (calls.foldl (fun m call => latestAnswerStep m call.1 call.2) m) := by
  induction calls generalizing c m with
  | nil => exact h
  | cons call calls ih =>
    obtain ⟨now, op⟩ := call
    exact ih (h.step hfit.1) hfit.2

theorem init_dnsSound : DnsSound dnsCacheInit (fun _ => none) := by
  refine ⟨⟨fun i hi => ?_, fun i j hi => ?_⟩, ?_, fun i hi => ?_⟩
  · cases hi
  · cases hi
  · simp [dnsCacheInit, slotCount]
  · cases hi

theorem oldestIdx_newest (c : DnsCache) (j : Fin dnsCacheMaxEntries) :
    (c.cache j).createdTick ≤ (c.cache c.oldestIdx).createdTick := by
  have hloop : ∀ (l : List (Fin dnsCacheMaxEntries)) (start : Nat × Fin dnsCacheMaxEntries),
      start.1 ≤ (c.cache start.2).createdTick →
      let last := l.foldl (fun (oldest : Nat × Fin dnsCacheMaxEntries) i =>
        if (c.cache i).createdTick ≥ oldest.1 then ((c.cache i).createdTick, i) else oldest) start
      last.1 ≤ (c.cache last.2).createdTick ∧ start.1 ≤ last.1 ∧
        ∀ i ∈ l, (c.cache i).createdTick ≤ last.1 := by
    intro l
    induction l with
    | nil => exact fun start hs => ⟨hs, Nat.le_refl _, fun i hi => by cases hi⟩
    | cons i l ih =>
      intro start hs
      by_cases hge : (c.cache i).createdTick ≥ start.1
      · have hrest := ih ((c.cache i).createdTick, i) (Nat.le_refl _)
        simp only [foldl_cons, if_pos hge]
        refine ⟨hrest.1, Nat.le_trans hge hrest.2.1, fun k hk => ?_⟩
        rcases mem_cons.mp hk with rfl | hk
        · exact hrest.2.1
        · exact hrest.2.2 k hk
      · have hrest := ih start hs
        simp only [foldl_cons, if_neg hge]
        refine ⟨hrest.1, hrest.2.1, fun k hk => ?_⟩
        rcases mem_cons.mp hk with rfl | hk
        · exact Nat.le_trans (by omega) hrest.2.1
        · exact hrest.2.2 k hk
  have hall := hloop (finRange dnsCacheMaxEntries) (0, ⟨0, by decide⟩) (Nat.zero_le _)
  exact Nat.le_trans (hall.2.2 j (mem_finRange j)) hall.1

theorem oldest_evicted_iff (hlen : name.length < dnsCacheNameMax)
    (hfull : TableFull c) (habsent : NameAbsent c name) (now ip ttl : Nat) (negative : Bool) :
    (∃ k e, (c.dnsCacheStore now name ip ttl negative).cache = update c.cache k e ∧
      e.name = name ∧ ∀ j, (c.cache k).createdTick ≤ (c.cache j).createdTick) ↔
    ∀ i j, (c.cache i).createdTick = (c.cache j).createdTick := by
  have hmissing : findSlot c.cache (fun e => e.valid && dnsStreq e.name name) = none := by
    cases hs : findSlot c.cache (fun e => e.valid && dnsStreq e.name name) with
    | none => rfl
    | some i => exact absurd (found_name hs).2 (habsent i (found_name hs).1)
  have hnofree : findSlot c.cache (fun e => !e.valid) = none := by
    cases hs : findSlot c.cache (fun e => !e.valid) with
    | none => rfl
    | some i => simpa [hfull i] using findSlot_some hs
  have hcache : (c.dnsCacheStore now name ip ttl negative).cache =
      update c.cache c.oldestIdx
        ⟨name, ip, dnsStoredTtl ttl, now, true, negative⟩ := by
    rw [DnsCache.dnsCacheStore, hmissing, hnofree, dnsStrcpy_fits hlen]
    rfl
  constructor
  · rintro ⟨k, e, hk, -, hsmallest⟩
    have hko : k = c.oldestIdx := by
      by_contra hne
      have hat := congrFun (hcache.symm.trans hk) c.oldestIdx
      rw [update_self, update_of_ne (Ne.symm hne)] at hat
      exact habsent c.oldestIdx (hfull _) (by rw [← hat])
    have hall : ∀ j, (c.cache j).createdTick = (c.cache k).createdTick := fun j =>
      Nat.le_antisymm (hko ▸ oldestIdx_newest c j) (hsmallest j)
    exact fun i j => (hall i).trans (hall j).symm
  · exact fun hall => ⟨c.oldestIdx, _, hcache, rfl, fun j => Nat.le_of_eq (hall _ j)⟩

/-- What the cache promises in a state reached by calls that make the map `m`. -/
structure DnsCorrect (c : DnsCache) (m : DnsName → Option DnsRecord) : Prop where
  answers : ∀ now name ip, (c.dnsCacheLookup now name).1 = some ip →
    ∃ r, m name = some r ∧ r.negative = false ∧ r.ip = ip ∧ now - r.time ≤ dnsCacheTtlTicks r.ttl
  disjoint : ∀ now name ip, (c.dnsCacheLookup now name).1 = some ip →
    (c.dnsCacheLookupNegative now name).1 = false
  once : ∀ i j, (c.cache i).valid = true → (c.cache j).valid = true →
    (c.cache i).name = (c.cache j).name → i = j
  counted : c.stats.entries = slotCount c.cache (·.valid)
  /-- A full table gives up one entry, of the smallest creation time. -/
  evicts : ∀ now name ip ttl negative, DnsInsertFits c now name → TableFull c → NameAbsent c name →
    ∃ k e, (c.dnsCacheStore now name ip ttl negative).cache = update c.cache k e ∧
      e.name = name ∧ ∀ j, (c.cache k).createdTick ≤ (c.cache j).createdTick

theorem lookup_hit {now : Nat} {ip : Nat} (h : (c.dnsCacheLookup now name).1 = some ip) :
    ∃ i, (c.cache i).valid = true ∧ (c.cache i).name = name ∧ (c.cache i).ip = ip ∧
      (c.cache i).isNegative = false ∧ dnsCacheEntryExpired (c.cache i) now = false := by
  unfold DnsCache.dnsCacheLookup at h
  split at h
  · cases h
  · next i hfound =>
    obtain ⟨hvalid, hi⟩ := found_name hfound
    split at h
    · cases h
    · next hfresh =>
      split at h
      · cases h
      · next hpositive =>
        exact ⟨i, hvalid, hi, Option.some.inj h, by simpa using hpositive, by simpa using hfresh⟩

theorem DnsSound.correct (h : DnsSound c m) : DnsCorrect c m := by
  refine ⟨fun now name ip hhit => ?_, fun now name ip hhit => ?_, h.part.once, h.counted,
    fun now name ip ttl negative hfit hfull habsent => ?_⟩
  · obtain ⟨i, hvalid, hi, hip, hpositive, hfresh⟩ := lookup_hit hhit
    refine ⟨recordOf (c.cache i), hi ▸ h.part.held i hvalid, hpositive, hip, ?_⟩
    have hstamp := h.stamped i hvalid
    change now - (c.cache i).createdTick ≤ dnsCacheTtlTicks (c.cache i).ttl
    by_cases hlate : now ≤ (c.cache i).createdTick
    · omega
    · simpa [dnsCacheEntryExpired, hvalid, hstamp, hlate] using hfresh
  · obtain ⟨i, hvalid, hi, -, hpositive, -⟩ := lookup_hit hhit
    unfold DnsCache.dnsCacheLookupNegative
    split
    · rfl
    · next k hfound =>
      -- the negative entry would be a second one for the name
      have hk := findSlot_some hfound
      simp only [Bool.and_eq_true, dnsStreq_iff] at hk
      have hki := h.part.once k i hk.1.1 hvalid (hk.2.trans hi.symm)
      rw [hki, hpositive] at hk
      exact absurd hk.1.2 (by decide)
  · exact (oldest_evicted_iff hfit.1 hfull habsent now ip ttl negative).mpr
      (hfit.2.2 hfull habsent)

/-- After calls that fit, a lookup answers with the latest answer for its name, within its
lifetime, and a full table gives up its oldest entry. -/
theorem dns_cache_sound {calls : List (Nat × DnsOp)} (hfit : DnsRunFits dnsCacheInit calls) :
    DnsCorrect (dnsCacheInit.run calls) (latestAnswers calls) :=
  (run_dnsSound init_dnsSound hfit).correct

def oneName : List (Nat × DnsOp) := [(5, .insert ['a'] 7 10), (9, .lookup ['a'])]

theorem dns_cache_sound_one : (dnsCacheInit.run oneName).stats.entries = 1 ∧
    DnsCorrect (dnsCacheInit.run oneName) (latestAnswers oneName) := by
  refine ⟨by decide, dns_cache_sound ⟨⟨by decide, by decide, fun hfull => ?_⟩, trivial, trivial⟩⟩
  exact absurd (hfull ⟨0, by decide⟩) (by decide)

def longName : DnsName := replicate 128 'a'

/-- The address of the long name is served for another name, never inserted. -/
theorem long_name_answers_other :
    let c := dnsCacheInit.run [(5, .insert longName 7 10)]
    (c.dnsCacheLookup 5 (replicate 127 'a')).1 = some 7 ∧
      (latestAnswers [(5, .insert longName 7 10)] (replicate 127 'a')).isNone = true := by
  decide

end CapyOS.Proofs
