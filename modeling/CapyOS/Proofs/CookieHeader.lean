import CapyOS.Lib.Selection
import CapyOS.Net.HttpCookies

namespace CapyOS.Proofs
open Lib List

/-! ## The order of the cookies of a request -/

section
variable (j : HttpCookieJar) (reqHost reqPath : HttpText) (secure : Bool) (now : Int)

/-- The slots of the matching cookies, in jar order. -/
def matchingSlots : List (Fin httpCookieMax) :=
  let reqPath := if reqPath = [] then ['/'] else reqPath
  (List.finRange httpCookieMax).filter fun i => cookieMatchesRequest (j.cookies i) reqHost reqPath secure now

def slotPath (i : Fin httpCookieMax) : Nat := (j.cookies i).path.length

/-- The array `order` once it is sorted. -/
def headerSlots : List (Fin httpCookieMax) :=
  let slots := matchingSlots j reqHost reqPath secure now
  selectionSort (fun l => longestPath (l.map j.cookies)) slots.length slots

/-- Longer paths first, and jar order among equal ones. -/
def comesFirst (a b : Fin httpCookieMax) : Prop :=
  slotPath j b < slotPath j a ∨ (slotPath j a = slotPath j b ∧ a ≤ b)

instance : DecidableRel (comesFirst j) := fun a b =>
  inferInstanceAs (Decidable (slotPath j b < slotPath j a ∨ (slotPath j a = slotPath j b ∧ a ≤ b)))

instance : Std.Total (comesFirst j) where
  total a b := by
    unfold comesFirst
    omega

instance : IsTrans (Fin httpCookieMax) (comesFirst j) where
  trans a b c hab hbc := by
    unfold comesFirst at *
    omega

def promisedSlots : List (Fin httpCookieMax) :=
  (matchingSlots j reqHost reqPath secure now).insertionSort (comesFirst j)

/-- The header with the given cookies. -/
def joinedCookies (cookies : List HttpCookie) : HttpText :=
  [';', ' '].intercalate (cookies.map fun c => c.name ++ '=' :: c.value)

def Lists (cookies : List HttpCookie) (header : Nat → List HttpCookie × HttpText) : Prop :=
  ∀ cap, ∃ k ≤ cookies.length, header cap = (cookies.take k, joinedCookies (cookies.take k)) ∧
    (k < cookies.length → cap ≤ (joinedCookies (cookies.take (k + 1))).length) ∧
    (0 < k → (joinedCookies (cookies.take k)).length < cap)

end

/-! ## Selecting the longest path -/

theorem longest_fold (l : List HttpCookie) (k best idx : Nat) :
    let r := (l.zipIdx k).foldl
      (fun (best : Nat × Nat) c => if c.1.path.length > best.1 then (c.1.path.length, c.2) else best) (best, idx)
    best ≤ r.1 ∧ (∀ c ∈ l, c.path.length ≤ r.1) ∧
      ((r.2 = idx ∧ r.1 = best) ∨ ∃ (n : Nat) (c : HttpCookie), r.2 = k + n ∧ l[n]? = some c ∧ c.path.length = r.1 ∧
        best < r.1 ∧ ∀ n' < n, ∀ d, l[n']? = some d → d.path.length < r.1) := by
  induction l generalizing k best idx with
  | nil => simp
  | cons a l ih =>
    simp only [zipIdx_cons, foldl_cons]
    split
    next hlonger =>
      obtain ⟨hge, hall, hcase⟩ := ih (k + 1) a.path.length k
      refine ⟨by omega, List.forall_mem_cons.mpr ⟨hge, hall⟩, .inr ?_⟩
      rcases hcase with ⟨hidx, hbest⟩ | ⟨n, c, hidx, hc, hlen, hlt, hfirst⟩
      · exact ⟨0, a, hidx, rfl, hbest.symm, by omega, fun n' h => absurd h (Nat.not_lt_zero n')⟩
      · refine ⟨n + 1, c, by omega, hc, hlen, by omega, fun n' hn' d hd => ?_⟩
        obtain _ | n' := n'
        · obtain rfl := Option.some.inj hd
          exact hlt
        · exact hfirst n' (by omega) d hd
    next hshort =>
      obtain ⟨hge, hall, hcase⟩ := ih (k + 1) best idx
      refine ⟨hge, List.forall_mem_cons.mpr ⟨by omega, hall⟩, ?_⟩
      rcases hcase with h | ⟨n, c, hidx, hc, hlen, hlt, hfirst⟩
      · exact .inl h
      · refine .inr ⟨n + 1, c, by omega, hc, hlen, hlt, fun n' hn' d hd => ?_⟩
        obtain _ | n' := n'
        · obtain rfl := Option.some.inj hd
          omega
        · exact hfirst n' (by omega) d hd

theorem longestPath_first {α : Type} (f : α → HttpCookie) :
    PicksFirst (fun a => (f a).path.length) fun l => longestPath (l.map f) := by
  intro l hl
  obtain _ | ⟨a, l⟩ := l
  · exact absurd rfl hl
  obtain ⟨hge, hall, hcase⟩ := longest_fold ((a :: l).map f) 0 (f a).path.length 0
  change ∃ x, (a :: l)[longestPath ((a :: l).map f)]? = some x ∧ _
  rw [longestPath, map_cons, headD_cons, ← map_cons]
  rcases hcase with ⟨hidx, hbest⟩ | ⟨n, c, hidx, hc, hlen, hlt, hfirst⟩
  · refine ⟨a, by rw [hidx]; rfl, fun b hb => ?_, fun n hn => absurd (hidx ▸ hn) (Nat.not_lt_zero n)⟩
    exact Nat.le_trans (hall (f b) (mem_map_of_mem hb)) (Nat.le_of_eq hbest)
  · rw [List.getElem?_map, Option.map_eq_some_iff] at hc
    obtain ⟨x, hx, rfl⟩ := hc
    rw [Nat.zero_add] at hidx
    refine ⟨x, by rw [hidx]; exact hx, fun b hb => ?_, fun n' hn' b hb => ?_⟩
    · exact Nat.le_trans (hall (f b) (mem_map_of_mem hb)) (Nat.le_of_eq hlen.symm)
    · refine Nat.lt_of_lt_of_le (hfirst n' (hidx ▸ hn') (f b) ?_) (Nat.le_of_eq hlen.symm)
      rw [List.getElem?_map, hb]
      rfl

theorem orderByPath_map {α : Type} (f : α → HttpCookie) (n : Nat) (l : List α) :
    orderByPath n (l.map f) = (selectionSort (fun l => longestPath (l.map f)) n l).map f := by
  induction n generalizing l with
  | zero => rfl
  | succ n ih =>
    obtain _ | ⟨a, l⟩ := l
    · rfl
    rw [map_cons, orderByPath, selectionSort, ← map_cons]
    cases longestPath ((a :: l).map f) with
    | zero => simp only [ih, map_cons]
    | succ best => simp only [← map_set, ih, map_cons, getD_eq_getElem?_getD, List.getElem?_map, Option.getD_map]

/-! ## Writing the header -/

theorem joinedCookies_push (cookies : List HttpCookie) (c : HttpCookie) : joinedCookies (cookies ++ [c]) =
    joinedCookies cookies ++ ((if joinedCookies cookies = [] then [] else [';', ' ']) ++ c.name ++ '=' :: c.value) := by
  induction cookies with
  | nil => simp [joinedCookies]
  | cons d cookies ih =>
    have hne : joinedCookies (d :: cookies) ≠ [] := by
      intro h
      have := congrArg List.length h
      cases cookies <;> simp [joinedCookies, List.intercalate] at this
    rw [if_neg hne]
    obtain _ | ⟨e, cookies⟩ := cookies
    · simp [joinedCookies, List.intercalate]
    · have he : joinedCookies (e :: cookies) ≠ [] := by
        intro h
        have := congrArg List.length h
        cases cookies <;> simp [joinedCookies, List.intercalate] at this
      rw [if_neg he] at ih
      simp only [joinedCookies, List.intercalate, cons_append, map_cons, intersperse_cons_cons,
        flatten_cons, append_assoc] at ih ⊢
      rw [ih]

theorem writeCookies_lists (cap : Nat) (done cookies : List HttpCookie) :
    ∃ k ≤ cookies.length, writeCookies cap (joinedCookies done) cookies =
        (cookies.take k, joinedCookies (done ++ cookies.take k)) ∧
      (k < cookies.length → cap ≤ (joinedCookies (done ++ cookies.take (k + 1))).length) ∧
      (0 < k → (joinedCookies (done ++ cookies.take k)).length < cap) := by
  induction cookies generalizing done with
  | nil => exact ⟨0, Nat.le_refl _, by simp [writeCookies], by simp, by simp⟩
  | cons c cookies ih =>
    have hpush := joinedCookies_push done c
    rw [writeCookies]
    dsimp only
    generalize (if joinedCookies done = [] then [] else [';', ' ']) ++ c.name ++ '=' :: c.value = text at hpush ⊢
    split
    next hfull =>
      refine ⟨0, Nat.zero_le _, by simp, fun _ => ?_, by simp⟩
      rw [take_succ_cons, take_zero, hpush, length_append]
      exact hfull
    next hroom =>
      obtain ⟨k, hk, hwrite, hmore, hfit⟩ := ih (done ++ [c])
      rw [← hpush, hwrite]
      refine ⟨k + 1, Nat.succ_le_succ hk, by simp, fun h => ?_, fun _ => ?_⟩
      · have := hmore (Nat.lt_of_succ_lt_succ h)
        simpa using this
      · obtain _ | k := k
        · rw [take_succ_cons, take_zero, hpush, length_append]
          omega
        · have := hfit (Nat.succ_pos k)
          simpa using this

/-! ## What the header lists -/

variable (j : HttpCookieJar) (reqHost reqPath : HttpText) (secure : Bool) (now : Int)

theorem header_lists : Lists ((headerSlots j reqHost reqPath secure now).map j.cookies)
    (j.httpCookieJarHeader reqHost reqPath secure now) := by
  intro cap
  obtain ⟨k, hk, hwrite, hmore, hfit⟩ := writeCookies_lists cap []
    ((headerSlots j reqHost reqPath secure now).map j.cookies)
  refine ⟨k, hk, ?_, hmore, hfit⟩
  rw [nil_append] at hwrite
  rw [← hwrite]
  have hmatch : j.matching reqHost reqPath secure now = (matchingSlots j reqHost reqPath secure now).map j.cookies := by
    rw [HttpCookieJar.matching, filter_map]
    rfl
  simp only [HttpCookieJar.httpCookieJarHeader, hmatch, orderByPath_map, length_map]
  rfl

theorem matchingSlots_sorted : (matchingSlots j reqHost reqPath secure now).Pairwise (· < ·) := by
  unfold matchingSlots
  exact (pairwise_lt_finRange _).filter _

theorem idxOf_lt_iff {l : List (Fin httpCookieMax)} (hl : l.Pairwise (· < ·)) {a b : Fin httpCookieMax}
    (ha : a ∈ l) (hb : b ∈ l) : l.idxOf a < l.idxOf b ↔ a < b := by
  have hmono : ∀ {a b : Fin httpCookieMax}, a ∈ l → b ∈ l → l.idxOf a < l.idxOf b → a < b := by
    intro a b ha hb h
    have hlt := List.pairwise_iff_getElem.mp hl _ _ (idxOf_lt_length_of_mem ha)
      (idxOf_lt_length_of_mem hb) h
    simpa using hlt
  refine ⟨hmono ha hb, fun h => ?_⟩
  rcases Nat.lt_trichotomy (l.idxOf a) (l.idxOf b) with h' | h' | h'
  · exact h'
  · exact absurd ((idxOf_inj ha).mp h') (ne_of_lt h)
  · exact absurd (hmono hb ha h') (lt_asymm h)

theorem promised_before : (promisedSlots j reqHost reqPath secure now).Pairwise
    (before (matchingSlots j reqHost reqPath secure now) (slotPath j)) := by
  have hslots := matchingSlots_sorted j reqHost reqPath secure now
  have hperm := perm_insertionSort (comesFirst j) (matchingSlots j reqHost reqPath secure now)
  have hsorted := pairwise_insertionSort (comesFirst j) (matchingSlots j reqHost reqPath secure now)
  have hnodup := (hperm.nodup_iff).mpr (hslots.imp ne_of_lt)
  refine (List.pairwise_and_iff.mpr ⟨hsorted, hnodup⟩).imp_of_mem fun {a b} ha hb h => ?_
  refine h.1.imp_right fun hab => ⟨hab.1, ?_⟩
  rw [idxOf_lt_iff hslots (hperm.subset ha) (hperm.subset hb)]
  exact lt_of_le_of_ne hab.2 h.2

/-- The header lists every matching cookie once, the longer paths first, as far as the buffer
goes and no cookie in part. It keeps jar order among equal paths if and only if, of no two
cookies of equal paths, the swaps have changed the sides when the turn of the first one comes. -/
theorem header_order :
    (headerSlots j reqHost reqPath secure now).Perm (matchingSlots j reqHost reqPath secure now) ∧
    (headerSlots j reqHost reqPath secure now).Pairwise (fun a b => slotPath j b ≤ slotPath j a) ∧
    Lists ((headerSlots j reqHost reqPath secure now).map j.cookies)
      (j.httpCookieJarHeader reqHost reqPath secure now) ∧
    (headerSlots j reqHost reqPath secure now = promisedSlots j reqHost reqPath secure now ↔
      Undisturbed (matchingSlots j reqHost reqPath secure now) (promisedSlots j reqHost reqPath secure now)
        (slotPath j)) := by
  have hpick := longestPath_first j.cookies
  obtain ⟨hperm, hsorted⟩ := selectionSort_sorted hpick _ _ (Nat.le_refl
    (matchingSlots j reqHost reqPath secure now).length)
  exact ⟨hperm, hsorted, header_lists j reqHost reqPath secure now,
    selectionSort_stable hpick ((matchingSlots_sorted j reqHost reqPath secure now).imp ne_of_lt)
      (perm_insertionSort _ _) (promised_before j reqHost reqPath secure now)⟩

/-- Two cookies for "/" and then one for "/a". -/
def threeCookies : HttpCookieJar where
  cookies i := { HttpCookie.zero with
    valid := decide (i.val < 3)
    name := if i.val = 0 then ['a'] else if i.val = 1 then ['b'] else ['c']
    value := ['1']
    domain := ['h']
    path := if i.val = 2 then ['/', 'a'] else ['/']
    hostOnly := true }
  clock := 0
  setCount := 3
  deleted := 0
  rejected := 0
  evictions := 0

/-- The header of a request for "/a" lists the second of the two before the first. -/
theorem equal_paths_swapped :
    (threeCookies.httpCookieJarHeader ['h'] ['/', 'a'] false 0 64).2 = "c=1; b=1; a=1".toList ∧
    ¬Lists ((promisedSlots threeCookies ['h'] ['/', 'a'] false 0).map threeCookies.cookies)
      (threeCookies.httpCookieJarHeader ['h'] ['/', 'a'] false 0) := by
  have hheader : (threeCookies.httpCookieJarHeader ['h'] ['/', 'a'] false 0 64).2 = "c=1; b=1; a=1".toList := by
    decide +kernel
  have hpromised : promisedSlots threeCookies ['h'] ['/', 'a'] false 0 = [⟨2, by decide⟩, ⟨0, by decide⟩, ⟨1, by decide⟩] := by
    decide +kernel
  have htexts : ∀ k < 4, joinedCookies ((List.map threeCookies.cookies [⟨2, by decide⟩, ⟨0, by decide⟩, ⟨1, by decide⟩]).take k) ≠
      "c=1; b=1; a=1".toList := by
    decide +kernel
  refine ⟨hheader, fun h => ?_⟩
  obtain ⟨k, hk, hlist, -, -⟩ := h 64
  rw [hlist, hpromised] at hheader
  rw [hpromised] at hk
  exact htexts k (Nat.lt_succ_of_le hk) hheader

end CapyOS.Proofs
