import CapyOS.Net.HttpCache

namespace CapyOS.Proofs
open Lib Function List Option
variable {c : HttpCache} {log : CacheLog} {req : HttpRequest}
variable {a b : HttpRequest}

/-! Keys and the requests they stand for. -/

def effectivePort (req : HttpRequest) : Nat := if req.port = 0 then defaultPort req else req.port

/-- The requests one stored response may answer: the same method, scheme, host up to
case, port and path. -/
def SameTarget (a b : HttpRequest) : Prop :=
  a.method = b.method ∧ a.useTls = b.useTls ∧ a.host.map lc = b.host.map lc ∧
    effectivePort a = effectivePort b ∧ a.path = b.path

instance (a b : HttpRequest) : Decidable (SameTarget a b) := by unfold SameTarget; infer_instance

/-- The key of a request as `ci_eq` compares it. -/
def keyOf (req : HttpRequest) : HttpText := (buildKey req).map lc

@[simp] theorem ciEq_iff (a b : HttpText) : ciEq a b = true ↔ a.map lc = b.map lc := by
  fun_induction ciEq a b with
  | case1 => simp
  | case2 a as b bs h => simp [h]
  | case3 a as b bs h ih =>
    have hab : lc a = lc b := not_not.mp h
    simp [hab, ih]
  | case4 a b hnil hcons =>
    cases a with
    | nil =>
      cases b with
      | nil => exact absurd rfl (hnil rfl)
      | cons b bs => simp
    | cons a as =>
      cases b with
      | nil => simp
      | cons b bs => exact absurd rfl (hcons a as b bs rfl)

theorem keyAppend_take (buf s : HttpText) (cap : Nat) : keyAppend (buf.take (cap - 1)) cap s = (buf ++ s).take (cap - 1) := by
  rw [keyAppend, take_append, length_take]
  congr 2
  exact (Nat.sub_eq_sub_min _ _).symm

/-- The fields of a request one after the other. -/
def fieldsText (req : HttpRequest) : HttpText :=
  methodText req ++ schemeText req ++ req.host ++ portText req ++ req.path

/-- The key is the concatenation of its parts, cut to the buffer. -/
theorem buildKey_eq (req : HttpRequest) : buildKey req = (fieldsText req).take (httpCacheKeyMax - 1) := by
  have hnil : ([] : HttpText) = List.take (httpCacheKeyMax - 1) [] := by simp
  unfold buildKey fieldsText
  rw [hnil]
  simp only [keyAppend_take, nil_append]

theorem SameTarget.portText (h : SameTarget a b) : portText a = portText b := by
  obtain ⟨-, htls, -, hport, -⟩ := h
  have hdefault : defaultPort a = defaultPort b := by simp [defaultPort, htls]
  unfold effectivePort at hport
  rw [hdefault] at hport
  unfold CapyOS.portText
  rw [hdefault]
  have hdef : defaultPort b ≠ 0 := by unfold defaultPort; split <;> decide
  split at hport <;> split at hport
  · next ha hb => simp [ha, hb]
  · next ha hb => simp [ha, ← hport]
  · next ha hb => simp [hb, hport]
  · rw [hport]

theorem SameTarget.keyOf (h : SameTarget a b) : keyOf a = keyOf b := by
  have hport := h.portText
  obtain ⟨hmethod, htls, hhost, -, hpath⟩ := h
  simp only [Proofs.keyOf, buildKey_eq, fieldsText, map_take, map_append, hport, hhost, hpath,
    methodText, schemeText, hmethod, htls]

theorem sCopy_key (req : HttpRequest) : sCopy (buildKey req) httpCacheKeyMax = buildKey req := by
  rw [buildKey_eq, sCopy, take_take, Nat.min_self]

/-! What was stored, newest first. -/

/-- A stored response and the response its freshness comes from, with the time. -/
structure StoredPage where
  response : HttpResponse
  metaFrom : HttpResponse
  metaTime : Int

/-- The requests something was stored for, or invalidated (`none`). -/
abbrev CacheLog := List (HttpRequest × Option StoredPage)

def latestPage (log : CacheLog) (req : HttpRequest) : Option StoredPage :=
  (log.find? fun event => decide (SameTarget event.1 req)).bind (·.2)

def keyPage (log : CacheLog) (key : HttpText) : Option StoredPage :=
  (log.find? fun event => decide (keyOf event.1 = key)).bind (·.2)

theorem keyPage_cons (req : HttpRequest) (page : Option StoredPage) (log : CacheLog) :
    keyPage ((req, page) :: log) = update (keyPage log) (keyOf req) page := by
  funext key
  by_cases h : keyOf req = key
  · subst h
    simp [keyPage]
  · simp [keyPage, h, update_of_ne (Ne.symm h)]

/-- What the call adds to the log. -/
def logged (c : HttpCache) (log : CacheLog) : HttpCacheOp → CacheLog
  | .store req resp now =>
    if (c.httpCacheStore req resp now).1 then (req, some ⟨resp, resp, now⟩) :: log else log
  | .invalidate req => (req, none) :: log
  | .fetch req _ now fetched =>
    match c.httpCacheLookup req now with
    | (.fresh, some _, _) => log
    | (.stale, some i, c) =>
      let req := httpCacheAddConditionalHeaders (c.entries i) req
      match fetched req with
      | none => log
      | some answer =>
        if answer.statusCode = 304 then
          (req, (latestPage log req).map fun page =>
            { page with metaFrom := answer, metaTime := now }) :: log
        else if (c.httpCacheStore req answer now).1 then
          (req, some ⟨answer, answer, now⟩) :: log
        else log
    | (_, _, c) =>
      match fetched req with
      | none => log
      | some answer =>
        if (c.httpCacheStore req answer now).1 then (req, some ⟨answer, answer, now⟩) :: log
        else log

/-! The table holds pages of the log. -/

/-- What an entry serves. -/
structure PageView where
  statusCode : Nat
  headers : List HttpHeader
  body : List Byte
  freshness : HttpCacheMeta

def entryView (e : HttpCacheEntry) : PageView := ⟨e.statusCode, e.headers, e.body, e.freshness⟩

def StoredPage.view (p : StoredPage) : PageView :=
  ⟨p.response.statusCode, p.response.headers, p.response.body, metaOf p.metaFrom p.metaTime⟩

def entryKey (e : HttpCacheEntry) : HttpText := e.key.map lc

def HoldsPages (c : HttpCache) (log : CacheLog) : Prop :=
  PartOf c.entries (·.valid) entryKey entryView fun key => (keyPage log key).map StoredPage.view

theorem found_key {i : Fin httpCacheMaxEntries} (h : c.findKey (buildKey req) = some i) :
    (c.entries i).valid = true ∧ entryKey (c.entries i) = keyOf req := by
  simpa [entryKey, keyOf] using findSlot_some h

theorem missing_key (h : c.findKey (buildKey req) = none)
    (i : Fin httpCacheMaxEntries) (hi : (c.entries i).valid = true) : entryKey (c.entries i) ≠ keyOf req := by
  intro hkey
  have hmiss := findSlot_none h i
  have heq := (ciEq_iff (c.entries i).key (buildKey req)).mpr hkey
  simp [hi, heq] at hmiss

theorem map_update {K A B : Type} [DecidableEq K] (m : K → Option A) (k : K) (x : Option A) (f : A → B) :
    (fun key => (update m k x key).map f) = update (fun key => (m key).map f) k (x.map f) := by
  funext key
  by_cases h : key = k
  · subst h
    simp
  · simp [update_of_ne h]

/-- An entry put in the slot of its key, or in one of a table without the key. -/
theorem HoldsPages.put (h : HoldsPages c log)
    {i : Fin httpCacheMaxEntries} {e : HttpCacheEntry} {page : StoredPage}
    (hkey : entryKey e = keyOf req) (hview : entryView e = page.view)
    (hother : ∀ j, j ≠ i → (c.entries j).valid = true → entryKey (c.entries j) ≠ keyOf req)
    {d : HttpCache} (hentries : d.entries = update c.entries i e) : HoldsPages d ((req, some page) :: log) := by
  unfold HoldsPages at h ⊢
  rw [hentries, keyPage_cons, map_update, map_some, ← hview, ← hkey]
  exact h.put i e fun j hji hj => hkey ▸ hother j hji hj

theorem slotFor_spec (h : HoldsPages c log) (req : HttpRequest) :
    (c.slotFor (buildKey req)).2.entries = c.entries ∧ ∀ j, j ≠ (c.slotFor (buildKey req)).1 → (c.entries j).valid = true →
      entryKey (c.entries j) ≠ keyOf req := by
  unfold HttpCache.slotFor
  split
  · next i hfound =>
    obtain ⟨hvalid, hi⟩ := found_key hfound
    exact ⟨rfl, fun j hji hj hkey => hji (h.once j i hj hvalid (hkey.trans hi.symm))⟩
  · next hmissing =>
    split <;> exact ⟨rfl, fun j _ hj => missing_key hmissing j hj⟩

theorem HoldsPages.store (h : HoldsPages c log)
    (req : HttpRequest) (resp : HttpResponse) (now : Int) : HoldsPages (c.httpCacheStore req resp now).2
      (if (c.httpCacheStore req resp now).1 then (req, some ⟨resp, resp, now⟩) :: log else log) := by
  obtain ⟨hentries, hother⟩ := slotFor_spec h req
  unfold HttpCache.httpCacheStore
  split
  · exact h
  · split
    · exact h
    · dsimp only
      rw [if_pos rfl]
      refine h.put (i := (c.slotFor (buildKey req)).1) ?_ ?_ hother
        (by rw [HttpCache.setEntry, hentries])
      · rw [entryKey, fillMeta, sCopy_key, keyOf]
      · rfl

theorem lookup_spec (h : HoldsPages c log) (req : HttpRequest) (now : Int) :
    HoldsPages (c.httpCacheLookup req now).2.2 log ∧ ∀ i, (c.httpCacheLookup req now).2.1 = some i →
      c.findKey (buildKey req) = some i ∧ (c.httpCacheLookup req now).2.2.entries i = { c.entries i with lru := c.clock + 1 } ∧
      ((c.httpCacheLookup req now).1 = .fresh → (c.entries i).freshness.noCache = false ∧
        httpCacheEntryAge (c.entries i).freshness now < (c.entries i).freshness.freshnessLifetime) := by
  unfold HttpCache.httpCacheLookup
  split
  · exact ⟨h, fun i hi => by cases hi⟩
  · next i hfound =>
    have hsame : HoldsPages { c.setEntry i { c.entries i with lru := c.clock + 1 } with
        clock := c.clock + 1 } log := by
      refine PartOf.congr h fun j => ?_
      by_cases hj : j = i
      · subst hj
        simp [HttpCache.setEntry, entryKey, entryView]
      · simp [HttpCache.setEntry, hj]
    split
    · next hfresh =>
      refine ⟨hsame, fun k hk => ?_⟩
      cases hk
      exact ⟨hfound, by simp [HttpCache.setEntry], fun _ => ⟨by simpa using hfresh.1, hfresh.2⟩⟩
    · refine ⟨hsame, fun k hk => ?_⟩
      cases hk
      exact ⟨hfound, by simp [HttpCache.setEntry], fun hfresh => by cases hfresh⟩

theorem addHeader_target (req : HttpRequest) (name value : HttpText) :
    ∃ hs, addHeader req name value = { req with headers := hs } := by
  unfold addHeader
  split
  · exact ⟨req.headers, rfl⟩
  · exact ⟨_, rfl⟩

theorem conditional_target (e : HttpCacheEntry) (req : HttpRequest) :
    ∃ hs, httpCacheAddConditionalHeaders e req = { req with headers := hs } := by
  have hfirst : ∃ hs, (if e.etag ≠ [] then addHeader req "If-None-Match".toList e.etag else req) =
      { req with headers := hs } := by
    split
    · exact addHeader_target _ _ _
    · exact ⟨req.headers, rfl⟩
  obtain ⟨hs, hreq⟩ := hfirst
  unfold httpCacheAddConditionalHeaders
  rw [hreq]
  split
  · obtain ⟨hs', hreq'⟩ := addHeader_target { req with headers := hs }
      "If-Modified-Since".toList e.lastModified
    exact ⟨hs', by rw [hreq']⟩
  · exact ⟨hs, rfl⟩

theorem conditional_sameTarget (e : HttpCacheEntry) (req : HttpRequest) :
    SameTarget (httpCacheAddConditionalHeaders e req) req := by
  obtain ⟨hs, hreq⟩ := conditional_target e req
  rw [hreq]
  exact ⟨rfl, rfl, rfl, rfl, rfl⟩

/-! Targets. -/

/-- The fields of two requests, cut and up to case, are one text. -/
def Alike (a b : HttpRequest) : Prop :=
  ((fieldsText a).take (httpCacheKeyMax - 1)).map lc = ((fieldsText b).take (httpCacheKeyMax - 1)).map lc

instance : Decidable (Alike a b) := inferInstanceAs (Decidable (_ = _))

theorem alike_iff (a b : HttpRequest) : Alike a b ↔ keyOf a = keyOf b := by
  rw [Alike, keyOf, keyOf, buildKey_eq, buildKey_eq]

/-- What was stored under the text of a request was stored for its target. -/
def StoredApart (log : CacheLog) (req : HttpRequest) : Prop :=
  ∀ event ∈ log, event.2.isSome = true → Alike event.1 req → SameTarget event.1 req

theorem SameTarget.symm (h : SameTarget a b) : SameTarget b a :=
  ⟨h.1.symm, h.2.1.symm, h.2.2.1.symm, h.2.2.2.1.symm, h.2.2.2.2.symm⟩

theorem SameTarget.trans {a b d : HttpRequest} (h : SameTarget a b) (h' : SameTarget b d) : SameTarget a d :=
  ⟨h.1.trans h'.1, h.2.1.trans h'.2.1, h.2.2.1.trans h'.2.2.1, h.2.2.2.1.trans h'.2.2.2.1, h.2.2.2.2.trans h'.2.2.2.2⟩

theorem StoredApart.same (h : StoredApart log a) (hsame : SameTarget b a) : StoredApart log b := by
  intro event hmem hsome halike
  refine (h event hmem hsome ?_).trans hsame.symm
  rw [alike_iff] at halike ⊢
  exact halike.trans hsame.keyOf

/-- Where keys tell stored targets apart, the page of a key is the page of the target. -/
theorem keyPage_latest {page : StoredPage} (hpage : keyPage log (keyOf req) = some page)
    (happart : StoredApart log req) : latestPage log req = some page := by
  induction log with
  | nil => cases hpage
  | cons event log ih =>
    unfold keyPage at hpage
    unfold latestPage
    by_cases hkey : keyOf event.1 = keyOf req
    · rw [List.find?_cons_of_pos (by simpa using hkey), Option.bind_some] at hpage
      have hsame := happart event mem_cons_self (by rw [hpage]; rfl) ((alike_iff _ _).mpr hkey)
      rw [List.find?_cons_of_pos (by simpa using hsame), Option.bind_some, hpage]
    · rw [List.find?_cons_of_neg (by simpa using hkey)] at hpage
      rw [List.find?_cons_of_neg (by simpa using fun h => hkey (SameTarget.keyOf h))]
      exact ih hpage fun e he => happart e (mem_cons_of_mem _ he)

/-! One call. -/

theorem HoldsPages.refresh (h : HoldsPages c log)
    {i : Fin httpCacheMaxEntries} (hvalid : (c.entries i).valid = true)
    (hkey : entryKey (c.entries i) = keyOf req) {page : StoredPage}
    (hpage : keyPage log (keyOf req) = some page) (answer : HttpResponse) (now : Int) :
    HoldsPages (c.httpCacheRefreshOn304 i answer now)
      ((req, some { page with metaFrom := answer, metaTime := now }) :: log) := by
  have hview : entryView (c.entries i) = page.view := by
    have := h.held i hvalid
    rw [hkey, hpage] at this
    exact (Option.some.inj this).symm
  refine h.put (i := i) (by exact hkey) ?_
    (fun j hji hj hjkey => hji (h.once j i hj hvalid (hjkey.trans hkey.symm))) rfl
  simp only [entryView, StoredPage.view, PageView.mk.injEq] at hview ⊢
  exact ⟨hview.1, hview.2.1, hview.2.2.1, rfl⟩

theorem HoldsPages.invalidate (h : HoldsPages c log)
    (req : HttpRequest) : HoldsPages (c.httpCacheInvalidate req).2 ((req, none) :: log) := by
  have hforget : ∀ {d : HttpCache}, HoldsPages d log →
      (∀ i, (d.entries i).valid = true → entryKey (d.entries i) ≠ keyOf req) →
      HoldsPages d ((req, none) :: log) := by
    intro d hd hnone
    unfold HoldsPages at hd ⊢
    rw [keyPage_cons, map_update]
    exact hd.forget hnone
  unfold HttpCache.httpCacheInvalidate
  split
  · next hmissing => exact hforget h (missing_key hmissing)
  · next i hfound =>
    obtain ⟨hvalid, hi⟩ := found_key hfound
    refine hforget (h.drop i rfl) fun j hj hjkey => ?_
    by_cases hji : j = i
    · subst hji
      simp [HttpCache.setEntry] at hj
    · simp only [HttpCache.setEntry, update_of_ne hji] at hj hjkey
      exact hji (h.once j i hj hvalid (hjkey.trans hi.symm))

theorem SameTarget.refl (a : HttpRequest) : SameTarget a a := ⟨rfl, rfl, rfl, rfl, rfl⟩

theorem HoldsPages.step (h : HoldsPages c log) {op : HttpCacheOp} (happart : StoredApart log op.request) :
    HoldsPages (c.step op) (logged c log op) := by
  cases op with
  | store req resp now => exact h.store req resp now
  | invalidate req => exact h.invalidate req
  | fetch req resp now fetched =>
    obtain ⟨hlooked, hfound⟩ := lookup_spec h req now
    simp only [HttpCache.step, HttpCache.httpCacheFetch, logged]
    generalize c.httpCacheLookup req now = found at hlooked hfound ⊢
    obtain ⟨status, slot, used⟩ := found
    -- a fetch that finds nothing usable stores what the transport brings
    have hfetched : ∀ req', HoldsPages
          (match fetched req' with
            | none => (HttpCacheResult.error, resp, used)
            | some answer => (.missFetched, answer, (used.httpCacheStore req' answer now).2)).2.2
          (match fetched req' with
            | none => log
            | some answer =>
              if (used.httpCacheStore req' answer now).1 then
                (req', some ⟨answer, answer, now⟩) :: log
              else log) := by
      intro req'
      cases fetched req' with
      | none => exact hlooked
      | some answer => exact hlooked.store req' answer now
    cases status with
    | miss => exact hfetched req
    | fresh =>
      cases slot with
      | none => exact hfetched req
      | some i => exact hlooked
    | stale =>
      cases slot with
      | none => exact hfetched req
      | some i =>
        obtain ⟨hkeyed, hentry, -⟩ := hfound i rfl
        obtain ⟨hvalid, hkey⟩ := found_key hkeyed
        have hsame := conditional_sameTarget (used.entries i) req
        dsimp only at hentry hsame ⊢
        cases hanswer : fetched (httpCacheAddConditionalHeaders (used.entries i) req) with
        | none => exact hlooked
        | some answer =>
          dsimp only
          by_cases h304 : answer.statusCode = 304
          · rw [if_pos h304, if_pos h304]
            have hvalid' : (used.entries i).valid = true := by rw [hentry]; exact hvalid
            have hkey' : entryKey (used.entries i) =
                keyOf (httpCacheAddConditionalHeaders (used.entries i) req) := by
              rw [hsame.keyOf, ← hkey, hentry]
              rfl
            have hheld := hlooked.held i hvalid'
            rw [hkey'] at hheld
            obtain ⟨page, hpage, -⟩ := map_eq_some_iff.mp hheld
            rw [keyPage_latest hpage (happart.same hsame)]
            exact hlooked.refresh hvalid' hkey' hpage answer now
          · rw [if_neg h304, if_neg h304]
            exact hlooked.store _ answer now

def fetches : HttpCacheOp → Prop
  | .fetch _ _ _ _ => True
  | _ => False

/-- A cache and its log after calls on an empty one, each fetch of a request apart from what was
stored before. -/
inductive HttpCacheRun : HttpCache → CacheLog → Prop
  | init : HttpCacheRun httpCacheInit []
  | step {c : HttpCache} {log : CacheLog} (op : HttpCacheOp) (hop : fetches op → StoredApart log op.request)
      (h : HttpCacheRun c log) : HttpCacheRun (c.step op) (logged c log op)

theorem cacheRun_holds (h : HttpCacheRun c log) : HoldsPages c log := by
  induction h with
  | init => exact ⟨fun _ hi => (nomatch hi), fun _ _ hi => (nomatch hi)⟩
  | step op hop _ ih =>
    cases op with
    | store req resp now => exact ih.store req resp now
    | invalidate req => exact ih.invalidate req
    | fetch req resp now fetched => exact ih.step (hop trivial)

/-! Revalidation. -/

def Revalidates (e : HttpCacheEntry) (answer : HttpResponse) : Prop :=
  (e.etag ≠ [] → (respHeader answer "ETag".toList).isSome = true) ∧
    (e.lastModified ≠ [] → (respHeader answer "Last-Modified".toList).isSome = true)

/-- The entry `after` has the body of `before` and each validator of `before` that the
answer does not replace. -/
structure KeptBy (answer : HttpResponse) (before after : HttpCacheEntry) : Prop where
  body : after.body = before.body
  etag : respHeader answer "ETag".toList = none → after.etag = before.etag
  lastModified : respHeader answer "Last-Modified".toList = none →
    after.lastModified = before.lastModified

theorem refresh_keeps_iff (c : HttpCache) (i : Fin httpCacheMaxEntries) (answer : HttpResponse) (now : Int) :
    KeptBy answer (c.entries i) ((c.httpCacheRefreshOn304 i answer now).entries i) ↔ Revalidates (c.entries i) answer := by
  have hafter : ((c.httpCacheRefreshOn304 i answer now).entries i).body = (c.entries i).body ∧
      (respHeader answer "ETag".toList = none →
        ((c.httpCacheRefreshOn304 i answer now).entries i).etag = []) ∧
      (respHeader answer "Last-Modified".toList = none →
        ((c.httpCacheRefreshOn304 i answer now).entries i).lastModified = []) := by
    simp only [HttpCache.httpCacheRefreshOn304, HttpCache.setEntry, update_self, fillMeta]
    refine ⟨trivial, fun h => ?_, fun h => ?_⟩ <;> rw [h]
  obtain ⟨hbody, hetag, hlm⟩ := hafter
  constructor
  · intro h
    refine ⟨fun hne => ?_, fun hne => ?_⟩
    · refine isSome_iff_ne_none.mpr fun hnone => hne ?_
      rw [← h.etag hnone, hetag hnone]
    · refine isSome_iff_ne_none.mpr fun hnone => hne ?_
      rw [← h.lastModified hnone, hlm hnone]
  · intro h
    refine ⟨hbody, fun hnone => ?_, fun hnone => ?_⟩
    · by_contra hne
      have := h.1 fun hempty => hne (by rw [hetag hnone, hempty])
      rw [hnone] at this
      cases this
    · by_contra hne
      have := h.2 fun hempty => hne (by rw [hlm hnone, hempty])
      rw [hnone] at this
      cases this

def FetchRevalidates (c : HttpCache) (req : HttpRequest) (now : Int)
    (fetched : HttpRequest → Option HttpResponse) : Prop :=
  ∀ i answer, c.findKey (buildKey req) = some i →
    fetched (httpCacheAddConditionalHeaders ((c.httpCacheLookup req now).2.2.entries i) req) =
      some answer → answer.statusCode = 304 → Revalidates (c.entries i) answer

/-- What a fetch promises at a cache and the log of what was stored in it. -/
structure FetchRight (c : HttpCache) (log : CacheLog) (req : HttpRequest) (resp : HttpResponse)
    (now : Int) (fetched : HttpRequest → Option HttpResponse) : Prop where
  served : ∀ out after, c.httpCacheFetch req resp now fetched = (.freshServed, out, after) →
    ∃ page, latestPage log req = some page ∧ out.statusCode = page.response.statusCode ∧
      out.headers = page.response.headers ∧ out.body = page.response.body ∧
      (metaOf page.metaFrom page.metaTime).noCache = false ∧
      httpCacheEntryAge (metaOf page.metaFrom page.metaTime) now <
        (metaOf page.metaFrom page.metaTime).freshnessLifetime
  revalidated : ∀ out after, c.httpCacheFetch req resp now fetched = (.revalidated, out, after) →
    ∃ i answer, c.findKey (buildKey req) = some i ∧
      fetched (httpCacheAddConditionalHeaders ((c.httpCacheLookup req now).2.2.entries i) req) = some answer ∧
      answer.statusCode = 304 ∧ KeptBy answer (c.entries i) (after.entries i) ∧ out.body = (c.entries i).body

/-- In every run, a fetch without an answer of the transport serves the latest fresh page of its
target, and a 304 keeps the body and the validators it does not replace. -/
theorem http_cache_right (h : HttpCacheRun c log) (happart : StoredApart log req) (resp : HttpResponse) {now : Int} {fetched : HttpRequest → Option HttpResponse}
    (h304 : FetchRevalidates c req now fetched) : FetchRight c log req resp now fetched := by
  have hheld := (cacheRun_holds h).held
  obtain ⟨-, hfound⟩ := lookup_spec (cacheRun_holds h) req now
  unfold FetchRevalidates at h304
  refine ⟨fun out after hfetch => ?_, fun out after hfetch => ?_⟩
  · unfold HttpCache.httpCacheFetch at hfetch
    generalize c.httpCacheLookup req now = found at hfound hfetch
    obtain ⟨status, slot, used⟩ := found
    split at hfetch
    · next i used' heq =>
      cases heq
      obtain ⟨hkeyed, hentry, hfresh⟩ := hfound i rfl
      obtain ⟨hvalid, hkey⟩ := found_key hkeyed
      dsimp only at hentry
      have hi := hheld i hvalid
      rw [hkey] at hi
      obtain ⟨page, hpage, hview⟩ := map_eq_some_iff.mp hi
      simp only [StoredPage.view, entryView, PageView.mk.injEq] at hview
      obtain ⟨-, rfl, -⟩ := hfetch
      simp only [serveEntry, hentry]
      refine ⟨page, keyPage_latest hpage happart, hview.1.symm, hview.2.1.symm, hview.2.2.1.symm, ?_⟩
      rw [hview.2.2.2]
      exact hfresh rfl
    · dsimp only at hfetch
      split at hfetch
      · cases hfetch
      · split at hfetch <;> cases hfetch
    · split at hfetch <;> cases hfetch
  · unfold HttpCache.httpCacheFetch at hfetch
    generalize c.httpCacheLookup req now = found at hfound hfetch h304
    obtain ⟨status, slot, used⟩ := found
    split at hfetch
    · cases hfetch
    · next i used' heq =>
      cases heq
      obtain ⟨hkeyed, hentry, -⟩ := hfound i rfl
      dsimp only at hentry h304 hfetch
      split at hfetch
      · cases hfetch
      · next answer hanswer =>
        split at hfetch
        · next hstatus =>
          obtain ⟨-, rfl, rfl⟩ := hfetch
          refine ⟨i, answer, hkeyed, hanswer, hstatus, ?_⟩
          have hkept := (refresh_keeps_iff used i answer now).mpr (by
            rw [hentry]
            exact h304 i answer hkeyed hanswer hstatus)
          have hbody := hkept.body
          rw [hentry] at hbody hkept
          exact ⟨⟨hbody, hkept.etag, hkept.lastModified⟩, hbody⟩
        · cases hfetch
    · split at hfetch <;> cases hfetch

/-! A page, a request for it and one for another page. -/

def pageRequest (path : HttpText) : HttpRequest :=
  ⟨.get, ['h'], '/' :: path, 0, false, []⟩

def minutePage : HttpResponse :=
  ⟨200, [⟨"Cache-Control".toList, "max-age=60".toList⟩], [], [7], 1, false, false, by decide⟩

/-- A page that must be asked for again, with a validator. -/
def taggedPage : HttpResponse :=
  ⟨200, [⟨"ETag".toList, ['x']⟩], [], [8], 1, false, false, by decide⟩

def notModified : HttpResponse :=
  ⟨304, [⟨"ETag".toList, ['y']⟩], [], [], 0, false, false, by decide⟩

theorem logged_store {resp : HttpResponse} {now : Int} {event : HttpRequest × Option StoredPage}
    (h : event ∈ logged c log (.store req resp now)) : event.1 = req ∨ event ∈ log := by
  unfold logged at h
  dsimp only at h
  split at h
  · rcases List.mem_cons.mp h with rfl | h
    · exact .inl rfl
    · exact .inr h
  · exact .inr h

/-- Two pages stored, the one served and the other revalidated. -/
theorem http_cache_right_pages :
    let c := (httpCacheInit.step (.store (pageRequest ['a']) minutePage 5)).step (.store (pageRequest ['b']) taggedPage 6)
    ∃ log, HttpCacheRun c log ∧ FetchRight c log (pageRequest ['a']) minutePage 9 (fun _ => none) ∧
      (c.httpCacheFetch (pageRequest ['a']) minutePage 9 (fun _ => none)).1 = .freshServed ∧
      FetchRight c log (pageRequest ['b']) minutePage 9 (fun _ => some notModified) ∧
      (c.httpCacheFetch (pageRequest ['b']) minutePage 9 (fun _ => some notModified)).1 = .revalidated := by
  intro c
  have hrun : HttpCacheRun c _ :=
    .step (.store (pageRequest ['b']) taggedPage 6) (fun h => h.elim)
      (.step (.store (pageRequest ['a']) minutePage 5) (fun h => h.elim) .init)
  have happart : ∀ path, path = ['a'] ∨ path = ['b'] → StoredApart (logged
      (httpCacheInit.step (.store (pageRequest ['a']) minutePage 5)) (logged httpCacheInit []
        (.store (pageRequest ['a']) minutePage 5)) (.store (pageRequest ['b']) taggedPage 6)) (pageRequest path) := by
    have hlog : ∀ event ∈ logged (httpCacheInit.step (.store (pageRequest ['a']) minutePage 5)) (logged httpCacheInit []
        (.store (pageRequest ['a']) minutePage 5)) (.store (pageRequest ['b']) taggedPage 6),
        event.1 = pageRequest ['a'] ∨ event.1 = pageRequest ['b'] := by
      intro event hmem
      rcases logged_store hmem with he | hmem
      · exact .inr he
      rcases logged_store hmem with he | hmem
      · exact .inl he
      · cases hmem
    rintro path hpath event hmem - halike
    rcases hlog event hmem with he | he <;> rcases hpath with rfl | rfl <;> rw [he] at halike ⊢
    · exact SameTarget.refl _
    · exact absurd halike (by decide +kernel)
    · exact absurd halike (by decide +kernel)
    · exact SameTarget.refl _
  refine ⟨_, hrun, http_cache_right hrun (happart _ (.inl rfl)) minutePage fun i answer _ h => (by cases h), by decide +kernel,
    http_cache_right hrun (happart _ (.inr rfl)) minutePage fun i answer hi h _ => ?_, by decide +kernel⟩
  cases h
  have hfind : c.findKey (buildKey (pageRequest ['b'])) = some ⟨1, by decide⟩ := by decide +kernel
  cases hfind.symm.trans hi
  exact ⟨fun _ => (by decide +kernel), fun hne => absurd (by decide +kernel) hne⟩

/-- A page stored for the path `/A` is served for the path `/a`, for which nothing was
stored. -/
theorem other_path_served :
    let store := HttpCacheOp.store (pageRequest ['A']) minutePage 5
    let answer := (httpCacheInit.step store).httpCacheFetch (pageRequest ['a']) minutePage 9 (fun _ => none)
    answer.1 = .freshServed ∧ answer.2.1.body = [7] ∧
      (latestPage (logged httpCacheInit [] store) (pageRequest ['a'])).isNone = true := by
  decide

end CapyOS.Proofs
