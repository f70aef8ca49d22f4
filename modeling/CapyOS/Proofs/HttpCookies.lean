import CapyOS.Net.HttpCookies
import CapyOS.Proofs.HttpCache

namespace CapyOS.Proofs
open Lib Function List
variable {events : List SetEvent} {j : HttpCookieJar} {c : HttpCookie} {ev : SetEvent}
variable {d : DeclaredCookie} {now : Int} {cap : Nat}

/-! What a Set-Cookie text declares, whatever a jar has room for. -/

structure DeclaredCookie where
  name : HttpText
  value : HttpText
  /-- The last Domain attribute that is not empty, in lower case. -/
  domain : Option HttpText
  /-- The last Path attribute that is a path. -/
  path : Option HttpText
  maxAge : Option Int
  /-- The dates of the Expires attributes. -/
  dates : List Int
  secure : Bool
  httpOnly : Bool
deriving DecidableEq

def declareAttribute (d : DeclaredCookie) (attr : HttpText × HttpText) : DeclaredCookie :=
  let (name, value) := attr
  if ciEq "Max-Age".toList name then
    if value ≠ [] then { d with maxAge := some (parseLongSigned value) } else d
  else if ciEq "Expires".toList name && !d.maxAge.isSome then
    match expiresDate value with
    | some date => { d with dates := d.dates ++ [date] }
    | none => d
  else if ciEq "Domain".toList name then
    if withoutDot value ≠ [] then { d with domain := some (lower (withoutDot value)) } else d
  else if ciEq "Path".toList name then
    if value.head? = some '/' then { d with path := some value } else d
  else if ciEq "Secure".toList name then { d with secure := true }
  else if ciEq "HttpOnly".toList name then { d with httpOnly := true }
  else d

def declared (setCookie : HttpText) : Option DeclaredCookie :=
  (cookiePair setCookie).map fun pair =>
    (cookieAttributes setCookie).foldl declareAttribute
      ⟨pair.1, pair.2, none, none, none, [], false, false⟩

namespace DeclaredCookie
variable (d : DeclaredCookie)

/-- When the cookie expires, if it does: by its Max-Age, or by its last Expires. -/
def expiry (now : Int) : Option Int :=
  match d.maxAge with
  | some v => some (maxAgeExpiry now v)
  | none => d.dates.getLast?

def pathOr (reqPath : HttpText) : HttpText := d.path.getD (pathDirectory reqPath)

def domainOr (reqHost : HttpText) : HttpText := d.domain.getD (lower reqHost)

/-- The cookie as the fields of the jar hold it. -/
def encode (reqHost reqPath : HttpText) (now : Int) : HttpCookie where
  valid := false
  name := copyRange httpCookieNameMax d.name
  value := copyRange httpCookieValueMax d.value
  domain := copyRange httpCookieDomainMax (d.domainOr reqHost)
  path := copyRange httpCookiePathMax (d.pathOr reqPath)
  expires :=
    match d.maxAge with
    | some v => maxAgeExpiry now v
    | none => ((d.dates.filter fun date => decide (date ≥ 0)).getLast?).getD 0
  hostOnly := d.domain.isNone
  secure := d.secure
  httpOnly := d.httpOnly
  lru := 0

end DeclaredCookie

theorem lower_copyRange (cap : Nat) (s : HttpText) : lower (copyRange cap s) = copyRange cap (lower s) :=
  map_take

theorem applyAttribute_encode (reqHost reqPath : HttpText) (now : Int) (d : DeclaredCookie) (attr : HttpText × HttpText) :
    applyAttribute now (d.encode reqHost reqPath now, d.maxAge.isSome) attr =
      ((declareAttribute d attr).encode reqHost reqPath now, (declareAttribute d attr).maxAge.isSome) := by
  obtain ⟨name, value⟩ := attr
  unfold applyAttribute declareAttribute
  dsimp only
  split
  · split
    · rfl
    · rfl
  · split
    · next hexpires =>
      have hnone : d.maxAge = none := by
        simp only [Bool.and_eq_true, Bool.not_eq_true', Option.isSome_eq_false_iff, Option.isNone_iff_eq_none] at hexpires
        exact hexpires.2
      cases expiresDate value with
      | none => rfl
      | some date =>
        dsimp only
        by_cases hdate : date ≥ 0
        · simp [DeclaredCookie.encode, hnone, hdate, filter_append]
          exact ⟨rfl, rfl⟩
        · simp [DeclaredCookie.encode, hnone, hdate, filter_append]
          exact ⟨rfl, rfl⟩
    · split
      · split
        · rw [lower_copyRange]
          rfl
        · rfl
      · split
        · split
          · rfl
          · rfl
        · split
          · rfl
          · split
            · rfl
            · rfl

/-- The parser keeps what the text declares, as far as the fields hold it. -/
theorem parse_eq (setCookie reqHost reqPath : HttpText) (now : Int) :
    httpCookieParseSetCookie setCookie reqHost reqPath now =
      (declared setCookie).bind fun d =>
        let c := d.encode reqHost reqPath now
        if !c.hostOnly && (c.domain.isEmpty || !httpCookieDomainMatch reqHost c.domain) then none
        else some { c with valid := true } := by
  have hfold : ∀ (attrs : List (HttpText × HttpText)) (d : DeclaredCookie),
      attrs.foldl (applyAttribute now) (d.encode reqHost reqPath now, d.maxAge.isSome) =
        ((attrs.foldl declareAttribute d).encode reqHost reqPath now,
          (attrs.foldl declareAttribute d).maxAge.isSome) := by
    intro attrs
    induction attrs with
    | nil => exact fun d => rfl
    | cons attr attrs ih =>
      intro d
      rw [foldl_cons, applyAttribute_encode, ih, foldl_cons]
  unfold httpCookieParseSetCookie declared
  cases cookiePair setCookie with
  | none => rfl
  | some pair =>
    have hstart : ({ HttpCookie.zero with
        name := copyRange httpCookieNameMax pair.1
        value := copyRange httpCookieValueMax pair.2
        domain := lower (sCopy reqHost httpCookieDomainMax)
        hostOnly := true
        path := defaultPath reqPath httpCookiePathMax } : HttpCookie) =
        DeclaredCookie.encode ⟨pair.1, pair.2, none, none, none, [], false, false⟩
          reqHost reqPath now := by
      have hdomain : lower (sCopy reqHost httpCookieDomainMax) =
          copyRange httpCookieDomainMax (lower reqHost) := lower_copyRange _ _
      rw [hdomain]
      rfl
    have hall := hfold (cookieAttributes setCookie)
      ⟨pair.1, pair.2, none, none, none, [], false, false⟩
    dsimp only [Option.map_some, Option.bind_some]
    rw [hstart]
    simp only [Option.isSome_none] at hall
    rw [hall]

/-! Sites. -/

/-- The host is the domain or below it. -/
def SiteOf (host domain : HttpText) : Prop :=
  lower host = lower domain ∨ ∃ x, lower host = x ++ '.' :: lower domain

theorem lc_lc (c : Char) : lc (lc c) = lc c := by
  by_cases h : 'A' ≤ c ∧ c ≤ 'Z'
  · have hletters : ∀ k : Fin 26, lc (lc (Char.ofNat (65 + k))) = lc (Char.ofNat (65 + k)) := by
      decide
    have hl : 65 ≤ c.toNat := h.1
    have hu : c.toNat ≤ 90 := h.2
    have hc : c = Char.ofNat (65 + (⟨c.toNat - 65, by omega⟩ : Fin 26)) := by
      rw [show 65 + ((⟨c.toNat - 65, by omega⟩ : Fin 26) : Nat) = c.toNat by
        change 65 + (c.toNat - 65) = c.toNat
        omega, Char.ofNat_toNat]
    rw [hc]
    exact hletters _
  · have hsame : lc c = c := if_neg h
    rw [hsame, hsame]

theorem lower_lower (s : HttpText) : lower (lower s) = lower s := by
  simp [lower, lc_lc]

theorem domainMatch_site {host domain : HttpText} (h : httpCookieDomainMatch host domain = true) : SiteOf host domain := by
  unfold httpCookieDomainMatch at h
  split at h
  · cases h
  · split at h
    · next heq => exact .inl ((ciEq_iff _ _).mp heq)
    · split at h
      · cases h
      · split at h
        · cases h
        · next hlen =>
          dsimp only at h
          split at h
          · cases h
          · next hdot =>
            have hsuffix := (ciEq_iff _ _).mp h
            have hdot := not_not.mp hdot
            obtain ⟨hlt, hget⟩ := List.getElem?_eq_some_iff.mp hdot
            refine .inr ⟨lower (host.take (host.length - domain.length - 1)), ?_⟩
            have hsplit := take_append_drop (host.length - domain.length - 1) host
            rw [drop_eq_getElem_cons hlt, hget,
              show host.length - domain.length - 1 + 1 = host.length - domain.length by omega]
              at hsplit
            conv_lhs => rw [← hsplit]
            simp only [lower, map_append, map_cons, hsuffix]
            rfl

/-! The jar. -/

/-- One Set-Cookie field: the request it answers, its text, and when it came. -/
structure SetEvent where
  host : HttpText
  path : HttpText
  setCookie : HttpText
  now : Int

/-- The Set-Cookie fields of the calls, oldest first. -/
def eventsOf (ops : List CookieOp) : List SetEvent :=
  ops.flatMap fun
    | .setFromResponse reqHost reqPath resp now =>
      (setCookieFields resp).map fun setCookie => ⟨reqHost, reqPath, setCookie, now⟩
    | .gc _ => []

def ExpiryFits (d : DeclaredCookie) (now : Int) : Prop :=
  match d.maxAge with
  | some v => maxAgeExpiry now v ≠ 0
  | none => ∀ date, d.dates.getLast? = some date → 0 < date

def CookieFits (ev : SetEvent) : Prop :=
  ∀ d, declared ev.setCookie = some d →
    d.name.length < httpCookieNameMax ∧ (d.domainOr ev.host).length < httpCookieDomainMax ∧
    (d.pathOr ev.path).length < httpCookiePathMax ∧ ExpiryFits d ev.now

structure CameFrom (ev : SetEvent) (d : DeclaredCookie) (c : HttpCookie) : Prop where
  declares : declared ev.setCookie = some d
  same : c = { d.encode ev.host ev.path ev.now with valid := c.valid, lru := c.lru }
  accepted : c.hostOnly = false → httpCookieDomainMatch ev.host c.domain = true

def cookieKey (c : HttpCookie) : HttpText × HttpText × HttpText := (c.name, lower c.domain, c.path)

@[simp] theorem sameIdentity_iff (a b : HttpCookie) : sameIdentity a b = true ↔ cookieKey a = cookieKey b := by
  simp [sameIdentity, cookieKey, lower, and_assoc]

def OneEach (j : HttpCookieJar) : Prop :=
  PartOf j.cookies (·.valid) cookieKey (fun _ => ()) fun _ => some ()

/-- Every cookie of the jar came with one of the events, and no two have one identity. -/
structure JarSound (events : List SetEvent) (j : HttpCookieJar) : Prop where
  sourced : ∀ i, (j.cookies i).valid = true → ∃ ev ∈ events, ∃ d, CameFrom ev d (j.cookies i)
  once : OneEach j

theorem found_cookie {i : Fin httpCookieMax} (h : j.findIdentity c = some i) :
    (j.cookies i).valid = true ∧ cookieKey (j.cookies i) = cookieKey c := by
  simpa using findSlot_some h

theorem missing_cookie (h : j.findIdentity c = none)
    (i : Fin httpCookieMax) (hi : (j.cookies i).valid = true) : cookieKey (j.cookies i) ≠ cookieKey c := by
  intro hkey
  have hmiss := findSlot_none h i
  have heq := (sameIdentity_iff (j.cookies i) c).mpr hkey
  simp [hi, heq] at hmiss

theorem storeOne_expired (h : JarSound events j)
    (hexpired : cookieExpired c now = true) (i : Fin httpCookieMax) :
    (j.storeOne c now).cookies i =
      if (j.cookies i).valid = true ∧ cookieKey (j.cookies i) = cookieKey c then
        { j.cookies i with valid := false } else j.cookies i := by
  unfold HttpCookieJar.storeOne
  rw [if_pos hexpired]
  split
  · next k hfound =>
    obtain ⟨hvalid, hkey⟩ := found_cookie hfound
    by_cases hik : i = k
    · subst hik
      simp [HttpCookieJar.setCookie, hvalid, hkey]
    · have hother : ¬((j.cookies i).valid = true ∧ cookieKey (j.cookies i) = cookieKey c) :=
        fun hi => hik (h.once.once i k hi.1 hvalid (hi.2.trans hkey.symm))
      rw [if_neg hother]
      simp [HttpCookieJar.setCookie, hik]
  · next hmissing => rw [if_neg fun hi => missing_cookie hmissing i hi.1 hi.2]

theorem JarSound.drop {j d : HttpCookieJar} (h : JarSound events j) (i : Fin httpCookieMax)
    (hcookies : d.cookies = update j.cookies i { j.cookies i with valid := false }) : JarSound events d := by
  refine ⟨fun k hk => ?_, ?_⟩
  · rw [hcookies] at hk ⊢
    by_cases hki : k = i
    · subst hki
      rw [update_self] at hk
      cases hk
    · rw [update_of_ne hki] at hk ⊢
      exact h.sourced k hk
  · unfold OneEach
    rw [hcookies]
    exact PartOf.drop h.once i rfl

theorem JarSound.put {j d : HttpCookieJar} (h : JarSound events j)
    {i : Fin httpCookieMax} (hev : ev ∈ events) {dc : DeclaredCookie} (hc : CameFrom ev dc c)
    (hother : ∀ k, k ≠ i → (j.cookies k).valid = true → cookieKey (j.cookies k) ≠ cookieKey c)
    (hcookies : d.cookies = update j.cookies i c) : JarSound events d := by
  refine ⟨fun k hk => ?_, ?_⟩
  · rw [hcookies] at hk ⊢
    by_cases hki : k = i
    · subst hki
      rw [update_self]
      exact ⟨ev, hev, dc, hc⟩
    · rw [update_of_ne hki] at hk ⊢
      exact h.sourced k hk
  · have hput := PartOf.put h.once i c hother
    unfold OneEach
    rw [hcookies]
    have hsame : update (fun _ : HttpText × HttpText × HttpText => some ())
        (cookieKey c) (some ()) = fun _ => some () := update_eq_self _ _
    rwa [hsame] at hput

theorem JarSound.storeOne (h : JarSound events j)
    (hev : ev ∈ events)
    (hc : CameFrom ev d c) (now : Int) : JarSound events (j.storeOne c now) := by
  have hc' : CameFrom ev d { c with valid := true, lru := j.clock + 1 } :=
    ⟨hc.declares, by conv_lhs => rw [hc.same], hc.accepted⟩
  unfold HttpCookieJar.storeOne
  split
  · split
    · next i _ => exact h.drop i rfl
    · exact h
  · cases hfind : j.findIdentity c with
    | some i =>
      obtain ⟨hvalid, hkey⟩ := found_cookie hfind
      exact h.put (i := i) hev hc'
        (fun k hki hk hkkey => hki (h.once.once k i hk hvalid (hkkey.trans hkey.symm))) rfl
    | none =>
      dsimp only
      unfold HttpCookieJar.allocSlot
      split
      · next i _ => exact h.put (i := i) hev hc' (fun k _ hk => missing_cookie hfind k hk) rfl
      · exact h.put hev hc' (fun k _ hk => missing_cookie hfind k hk) rfl

theorem parse_cameFrom
    (h : httpCookieParseSetCookie ev.setCookie ev.host ev.path ev.now = some c) : ∃ d, CameFrom ev d c := by
  rw [parse_eq] at h
  obtain ⟨d, hd, hc⟩ := Option.bind_eq_some_iff.mp h
  dsimp only at hc
  split at hc
  · cases hc
  · next hmatch =>
    cases hc
    refine ⟨d, hd, rfl, fun hhost => ?_⟩
    dsimp only at hhost ⊢
    simp [hhost] at hmatch
    exact hmatch.2

theorem JarSound.setOne (h : JarSound events j)
    (hev : ev ∈ events) : JarSound events (j.setOne ev.host ev.path ev.now ev.setCookie) := by
  unfold HttpCookieJar.setOne
  split
  · exact ⟨h.sourced, h.once⟩
  · next c hparse =>
    obtain ⟨d, hc⟩ := parse_cameFrom hparse
    exact h.storeOne hev hc ev.now

theorem JarSound.gc (h : JarSound events j)
    (now : Int) : JarSound events (j.httpCookieJarGc now) := by
  have hkept : ∀ i, ((j.httpCookieJarGc now).cookies i).valid = true →
      (j.httpCookieJarGc now).cookies i = j.cookies i ∧ (j.cookies i).valid = true := by
    intro i hi
    unfold HttpCookieJar.httpCookieJarGc at hi ⊢
    dsimp only at hi ⊢
    split at hi
    · cases hi
    · next hstays => rw [if_neg hstays]; exact ⟨rfl, hi⟩
  refine ⟨fun i hi => ?_, ⟨fun i _ => rfl, fun i k hi hk hkey => ?_⟩⟩
  · obtain ⟨hsame, hvalid⟩ := hkept i hi
    rw [hsame]
    exact h.sourced i hvalid
  · obtain ⟨hsame, hvalid⟩ := hkept i hi
    obtain ⟨hsame', hvalid'⟩ := hkept k hk
    rw [hsame, hsame'] at hkey
    exact h.once.once i k hvalid hvalid' hkey

theorem run_jarSound (h : JarSound events j)
    {ops : List CookieOp} (hops : ∀ ev ∈ eventsOf ops, ev ∈ events) : JarSound events (j.run ops) := by
  induction ops generalizing j with
  | nil => exact h
  | cons op ops ih =>
    have hrest : ∀ ev ∈ eventsOf ops, ev ∈ events := fun ev hev =>
      hops ev (mem_append_right _ hev)
    refine ih ?_ hrest
    cases op with
    | gc now => exact h.gc now
    | setFromResponse reqHost reqPath resp now =>
      have hfields : ∀ setCookie ∈ setCookieFields resp,
          (⟨reqHost, reqPath, setCookie, now⟩ : SetEvent) ∈ events := fun setCookie hmem =>
        hops _ (mem_append_left _ (mem_map_of_mem hmem))
      change JarSound events ((setCookieFields resp).foldl _ j)
      generalize setCookieFields resp = fields at hfields
      clear ih hops hrest
      induction fields generalizing j with
      | nil => exact h
      | cons field fields ih =>
        exact ih (h.setOne (hfields field mem_cons_self)) fun f hf =>
          hfields f (mem_cons_of_mem _ hf)

theorem init_jarSound (events : List SetEvent) : JarSound events httpCookieJarInit :=
  ⟨nofun, nofun, nofun⟩

/-! What fits is kept as declared. -/

theorem copyRange_fits {s : HttpText} (h : s.length < cap) : copyRange cap s = s :=
  take_of_length_le (by omega)

theorem encode_expires (h : ExpiryFits d now) (reqHost reqPath : HttpText) :
    (d.encode reqHost reqPath now).expires = (d.expiry now).getD 0 ∧ d.expiry now ≠ some 0 := by
  unfold DeclaredCookie.encode DeclaredCookie.expiry
  unfold ExpiryFits at h
  dsimp only
  cases hage : d.maxAge with
  | some v =>
    rw [hage] at h
    exact ⟨rfl, fun hzero => h (Option.some.inj hzero)⟩
  | none =>
    rw [hage] at h
    dsimp only at h ⊢
    rcases eq_nil_or_concat d.dates with hnil | ⟨earlier, last, hdates⟩
    · simp [hnil]
    · have hpos : 0 < last := h last (by simp [hdates])
      have hkeep : (0 : Int) ≤ last := le_of_lt hpos
      simp [hdates, filter_append, hkeep]
      omega

/-! Paths. -/

/-- The path is the directory or in it. -/
def PathWithin (path directory : HttpText) : Prop :=
  path = directory ∨
    ∃ rest, path = directory ++ rest ∧ (directory.getLast? = some '/' ∨ rest.head? = some '/')

def orRoot (path : HttpText) : HttpText := if path = [] then ['/'] else path

theorem orRoot_orRoot (path : HttpText) : orRoot (orRoot path) = orRoot path := by
  unfold orRoot
  split
  · rfl
  · rfl

theorem samePrefix_append {path directory : HttpText} (h : samePrefix path directory = true)
    (hlen : directory.length ≤ path.length) : ∃ rest, path = directory ++ rest := by
  induction directory generalizing path with
  | nil => exact ⟨path, rfl⟩
  | cons b directory ih =>
    cases path with
    | nil => cases hlen
    | cons a path =>
      simp only [samePrefix] at h
      split at h
      · cases h
      · next hab =>
        obtain ⟨rest, hrest⟩ := ih h (Nat.le_of_succ_le_succ hlen)
        rw [not_not.mp hab, hrest]
        exact ⟨rest, rfl⟩

theorem pathMatch_within {path directory : HttpText}
    (h : httpCookiePathMatch path directory = true) : PathWithin (orRoot path) (orRoot directory) := by
  unfold httpCookiePathMatch at h
  change (if !samePrefix (orRoot path) (orRoot directory) then false
    else if (orRoot path).length < (orRoot directory).length then false
    else if (orRoot path).length = (orRoot directory).length then true
    else if (orRoot directory).getLast? = some '/' then true
    else decide ((orRoot path)[(orRoot directory).length]? = some '/')) = true at h
  generalize orRoot path = path at h ⊢
  generalize orRoot directory = directory at h ⊢
  split at h
  · cases h
  · next hsame =>
    split at h
    · cases h
    · next hlen =>
      obtain ⟨rest, hrest⟩ := samePrefix_append (by simpa using hsame) (not_lt.mp hlen)
      subst hrest
      split at h
      · next heq =>
        have hnil : rest = [] := List.length_eq_zero_iff.mp (by simpa using heq)
        exact .inl (by rw [hnil, append_nil])
      · refine .inr ⟨rest, rfl, ?_⟩
        split at h
        · next hslash => exact .inl hslash
        · rw [decide_eq_true_eq, List.getElem?_append_right le_rfl, Nat.sub_self] at h
          exact .inr (by rw [List.head?_eq_getElem?, h])

/-! The header. -/

theorem writeCookies_mem {out : HttpText} {cookies : List HttpCookie}
    (h : c ∈ (writeCookies cap out cookies).1) : c ∈ cookies := by
  induction cookies generalizing out with
  | nil => exact h
  | cons d cookies ih =>
    unfold writeCookies at h
    dsimp only at h
    generalize (if out = [] then [] else [';', ' ']) = separator at h
    split at h
    · cases h
    · cases List.mem_cons.mp h with
      | inl heq => exact heq ▸ mem_cons_self
      | inr hrest => exact mem_cons_of_mem _ (ih hrest)

theorem orderByPath_mem {n : Nat} {cookies : List HttpCookie}
    (h : c ∈ orderByPath n cookies) : c ∈ cookies := by
  induction n generalizing cookies with
  | zero => exact h
  | succ n ih =>
    cases cookies with
    | nil => exact h
    | cons first rest =>
      unfold orderByPath at h
      split at h
      · cases List.mem_cons.mp h with
        | inl heq => exact heq ▸ mem_cons_self
        | inr hrest => exact mem_cons_of_mem _ (ih hrest)
      · next best _ =>
        cases List.mem_cons.mp h with
        | inl heq =>
          rw [heq, getD_eq_getElem?_getD]
          cases hget : rest[best]? with
          | none => exact mem_cons_self
          | some d => exact mem_cons_of_mem _ (mem_of_getElem? hget)
        | inr hrest =>
          cases mem_or_eq_of_mem_set (ih hrest) with
          | inl hmem => exact mem_cons_of_mem _ hmem
          | inr heq => exact heq ▸ mem_cons_self

theorem header_mem {host path : HttpText} {secure : Bool}
    (h : c ∈ (j.httpCookieJarHeader host path secure now cap).1) :
    ∃ i, c = j.cookies i ∧ cookieMatchesRequest c host (orRoot path) secure now = true := by
  have hmatching := List.mem_filter.mp (orderByPath_mem (writeCookies_mem h))
  obtain ⟨i, -, hi⟩ := List.mem_map.mp hmatching.1
  exact ⟨i, hi.symm, hmatching.2⟩

/-- What a cookie is written as. -/
def cookieText (c : HttpCookie) : HttpText := c.name ++ '=' :: c.value

def headerText : List HttpCookie → HttpText
  | [] => []
  | c :: cookies => cookieText c ++ (cookies.map fun c => [';', ' '] ++ cookieText c).flatten

theorem writeCookies_more (cap : Nat) (cookies : List HttpCookie) {out : HttpText} (hout : out ≠ []) :
    (writeCookies cap out cookies).2 =
      out ++ ((writeCookies cap out cookies).1.map fun c => [';', ' '] ++ cookieText c).flatten := by
  induction cookies generalizing out with
  | nil => exact (append_nil out).symm
  | cons c cookies ih =>
    unfold writeCookies
    simp only [if_neg hout]
    split
    · exact (append_nil out).symm
    · dsimp only
      rw [ih (by simp)]
      simp [cookieText]

theorem writeCookies_text (cap : Nat) (cookies : List HttpCookie) :
    (writeCookies cap [] cookies).2 = headerText (writeCookies cap [] cookies).1 := by
  cases cookies with
  | nil => rfl
  | cons c cookies =>
    unfold writeCookies
    simp only [if_pos]
    split
    · rfl
    · dsimp only
      rw [writeCookies_more _ _ (by simp)]
      simp [headerText, cookieText]

/-! Confinement. -/

/-- The site, path, clock and channel a declared cookie allows. -/
structure Allowed (ev : SetEvent) (d : DeclaredCookie) (host path : HttpText) (secure : Bool)
    (now : Int) : Prop where
  ownHost : d.domain = none → lower host = lower ev.host
  domain : ∀ D, d.domain = some D → SiteOf host D ∧ SiteOf ev.host D
  path : PathWithin (orRoot path) (orRoot (d.pathOr ev.path))
  fresh : ∀ e, d.expiry ev.now = some e → now < e
  secure : d.secure = true → secure = true

/-- The identity of a declared cookie. -/
def declaredKey (ev : SetEvent) (d : DeclaredCookie) : HttpText × HttpText × HttpText :=
  (d.name, lower (d.domainOr ev.host), d.pathOr ev.path)

/-- What a jar filled by the events promises, about the fields `P` holds of. -/
structure JarConfined (P : SetEvent → Prop) (events : List SetEvent) (j : HttpCookieJar) : Prop where
  text : ∀ host path secure now cap, (j.httpCookieJarHeader host path secure now cap).2 =
    headerText (j.httpCookieJarHeader host path secure now cap).1
  /-- A cookie of a header was declared in a response whose site allows the request. -/
  confined : ∀ host path secure now cap,
    ∀ c ∈ (j.httpCookieJarHeader host path secure now cap).1, ∃ ev ∈ events, ∃ d,
      declared ev.setCookie = some d ∧ cookieKey c = declaredKey ev d ∧
      c.value = copyRange httpCookieValueMax d.value ∧ Allowed ev d host path secure now
  once : ∀ i k, (j.cookies i).valid = true → (j.cookies k).valid = true →
    cookieKey (j.cookies i) = cookieKey (j.cookies k) → i = k
  /-- An accepted field that declares an expired cookie removes the one of its identity. -/
  removes : ∀ ev, P ev → ∀ d e, declared ev.setCookie = some d → d.expiry ev.now = some e →
    e ≤ ev.now → (∀ D, d.domain = some D → httpCookieDomainMatch ev.host D = true) →
    ∀ i, ((j.setOne ev.host ev.path ev.now ev.setCookie).cookies i) =
      if (j.cookies i).valid = true ∧ cookieKey (j.cookies i) = declaredKey ev d then
        { j.cookies i with valid := false } else j.cookies i

theorem allowed_of_matches
    (hfits : CookieFits ev) (hc : CameFrom ev d c) {host path : HttpText} {secure : Bool}
    (h : cookieMatchesRequest c host path secure now = true) :
    cookieKey c = declaredKey ev d ∧ Allowed ev d host path secure now := by
  obtain ⟨hname, hdomain, hpath, hexpiry⟩ := hfits d hc.declares
  obtain ⟨hexpires, hnonzero⟩ := encode_expires hexpiry ev.host ev.path
  have hcname : c.name = d.name := by
    rw [hc.same]
    exact copyRange_fits hname
  have hcdomain : c.domain = d.domainOr ev.host := by
    rw [hc.same]
    exact copyRange_fits hdomain
  have hcpath : c.path = d.pathOr ev.path := by
    rw [hc.same]
    exact copyRange_fits hpath
  have hcexpires : c.expires = (d.expiry ev.now).getD 0 := by
    rw [hc.same]
    exact hexpires
  have hchost : c.hostOnly = d.domain.isNone := by
    rw [hc.same]
    rfl
  have hcsecure : c.secure = d.secure := by
    rw [hc.same]
    rfl
  refine ⟨by rw [cookieKey, declaredKey, hcname, hcdomain, hcpath], ?_⟩
  unfold cookieMatchesRequest at h
  split at h
  · cases h
  · next hlive =>
    split at h
    · cases h
    · next hchannel =>
      have hfresh : ∀ e, d.expiry ev.now = some e → now < e := by
        intro e he
        have halive : cookieExpired c now = false := by
          simp only [Bool.or_eq_true, not_or, Bool.not_eq_true] at hlive
          exact hlive.2
        rw [he] at hcexpires hnonzero
        simp only [cookieExpired, hcexpires, Option.getD_some, decide_eq_false_iff_not, not_and, not_le] at halive
        exact halive fun hzero => hnonzero (by rw [hzero])
      have hsecure : d.secure = true → secure = true := by
        intro hd
        rw [← hcsecure] at hd
        simpa [hd] using hchannel
      cases hdecl : d.domain with
      | none =>
        rw [hdecl] at hchost
        rw [hchost] at h
        split at h
        · split at h
          · cases h
          · next hsame =>
            rw [hcpath] at h
            have heq := (ciEq_iff _ _).mp (by simpa using hsame : ciEq host c.domain = true)
            rw [hcdomain, DeclaredCookie.domainOr, hdecl] at heq
            refine ⟨fun _ => heq.trans (lower_lower ev.host), fun D hD => ?_, pathMatch_within h,
              hfresh, hsecure⟩
            rw [hdecl] at hD
            cases hD
        · next hfalse => exact absurd rfl hfalse
      | some D =>
        rw [hdecl] at hchost
        rw [hchost] at h
        split at h
        · next hfalse => cases hfalse
        · split at h
          · cases h
          · next hmatch =>
            rw [hcpath] at h
            have haccepted := hc.accepted hchost
            have hD : c.domain = D := by rw [hcdomain, DeclaredCookie.domainOr, hdecl]; rfl
            rw [hD] at hmatch haccepted
            refine ⟨fun hnone => ?_, fun D' hD' => ?_, pathMatch_within h, hfresh, hsecure⟩
            · rw [hdecl] at hnone
              cases hnone
            · rw [hdecl] at hD'
              cases hD'
              exact ⟨domainMatch_site (by simpa using hmatch), domainMatch_site haccepted⟩

theorem JarSound.jarConfined (h : JarSound events j)
    (hfits : ∀ ev ∈ events, CookieFits ev) : JarConfined CookieFits events j := by
  refine ⟨fun host path secure now cap => writeCookies_text _ _, ?_, h.once.once, ?_⟩
  · intro host path secure now cap c hmem
    obtain ⟨i, hi, hmatches⟩ := header_mem hmem
    have hvalid : (j.cookies i).valid = true := by
      rw [← hi]
      unfold cookieMatchesRequest at hmatches
      split at hmatches
      · cases hmatches
      · next hlive =>
        simp only [Bool.or_eq_true, not_or, Bool.not_eq_true, Bool.not_eq_false'] at hlive
        exact hlive.1
    obtain ⟨ev, hev, d, hc⟩ := h.sourced i hvalid
    rw [← hi] at hc
    obtain ⟨hkey, hallowed⟩ := allowed_of_matches (hfits ev hev) hc hmatches
    have hpath := hallowed.path
    rw [orRoot_orRoot] at hpath
    refine ⟨ev, hev, d, hc.declares, hkey, ?_, { hallowed with path := hpath }⟩
    rw [hc.same]
    rfl
  · intro ev hev d e hd he hexpired haccepted i
    obtain ⟨hname, hdomain, hpath, hexpiry⟩ := hev d hd
    obtain ⟨hexpires, hnonzero⟩ := encode_expires hexpiry ev.host ev.path
    rw [he] at hexpires hnonzero
    have hparse : httpCookieParseSetCookie ev.setCookie ev.host ev.path ev.now =
        some { d.encode ev.host ev.path ev.now with valid := true } := by
      rw [parse_eq, hd]
      refine if_neg ?_
      cases hdecl : d.domain with
      | none => simp [DeclaredCookie.encode, hdecl]
      | some D =>
        have hD : (d.encode ev.host ev.path ev.now).domain = D := by
          have hkeep := copyRange_fits hdomain
          rw [DeclaredCookie.domainOr, hdecl] at hkeep
          simpa [DeclaredCookie.encode, DeclaredCookie.domainOr, hdecl] using hkeep
        have hmatch := haccepted D hdecl
        have hne : D ≠ [] := by
          rintro rfl
          simp [httpCookieDomainMatch] at hmatch
        simp [hD, hmatch, hne]
    have hkey : cookieKey { d.encode ev.host ev.path ev.now with valid := true } =
        declaredKey ev d := by
      simp [cookieKey, declaredKey, DeclaredCookie.encode, copyRange_fits hname, copyRange_fits hdomain, copyRange_fits hpath]
    unfold HttpCookieJar.setOne
    rw [hparse, ← hkey]
    refine storeOne_expired h ?_ i
    simp only [cookieExpired, hexpires, Option.getD_some, decide_eq_true_eq]
    exact ⟨fun hzero => hnonzero (by rw [hzero]), hexpired⟩

/-- A Set-Cookie the jar has room for, with any Domain it names accepted and any
expiry it can tell from none, is confined to its site for as long as it declares. -/
theorem cookies_confined (ops : List CookieOp) (hfits : ∀ ev ∈ eventsOf ops, CookieFits ev) :
    JarConfined CookieFits (eventsOf ops) (httpCookieJarInit.run ops) :=
  (run_jarSound (init_jarSound _) fun _ hev => hev).jarConfined hfits

/-- A response that sets one cookie. -/
def settingCookie (setCookie : HttpText) : HttpResponse where
  statusCode := 200
  headers := [⟨"Set-Cookie".toList, setCookie⟩]
  location := []
  body := []
  contentLength := 0
  chunked := false
  truncated := false
  headers_le := Nat.le_of_ble_eq_true rfl

def cookieOnce : List CookieOp :=
  [.setFromResponse "x.com".toList "/a/b".toList
    (settingCookie "k=v; Max-Age=3600; Domain=.x.com".toList) 5]

theorem cookies_confined_once :
    JarConfined CookieFits (eventsOf cookieOnce) (httpCookieJarInit.run cookieOnce) := by
  refine cookies_confined cookieOnce fun ev hev d hd => ?_
  have hone : eventsOf cookieOnce = [⟨"x.com".toList, "/a/b".toList,
      "k=v; Max-Age=3600; Domain=.x.com".toList, 5⟩] := by
    simp [eventsOf, cookieOnce, setCookieFields, settingCookie, httpMaxHeaders]
  rw [hone] at hev
  obtain rfl := List.mem_singleton.mp hev
  have hd' : declared "k=v; Max-Age=3600; Domain=.x.com".toList =
      some ⟨['k'], ['v'], some "x.com".toList, none, some 3600, [], false, false⟩ := by
    decide +kernel
  cases hd'.symm.trans hd
  exact ⟨by decide +kernel, by decide +kernel, by decide +kernel, by
    change maxAgeExpiry 5 3600 ≠ 0
    decide⟩

/-- The usual way to delete a cookie is read as a cookie of the session. -/
theorem deleting_date_stored :
    ¬∀ ops : List CookieOp, JarConfined (fun _ => True) (eventsOf ops)
      (httpCookieJarInit.run ops) := by
  intro h
  have hremoved := (h cookieOnce).removes ⟨"x.com".toList, "/a/b".toList,
    "k=; Domain=x.com; Expires=Thu, 01 Jan 1970 00:00:00 GMT".toList, 1000⟩ trivial
    ⟨['k'], [], some "x.com".toList, none, none, [0], false, false⟩ 0 (by decide) rfl
    (by decide) (fun D hD => by cases hD; decide) ⟨0, by decide⟩
  rw [if_pos (by decide)] at hremoved
  have hvalid := congrArg HttpCookie.valid hremoved
  revert hvalid
  decide

end CapyOS.Proofs
