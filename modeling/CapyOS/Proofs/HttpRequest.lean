import CapyOS.Net.HttpRequest

namespace CapyOS.Proofs
open Lib List Option

/-! The end of the header. -/

theorem headerEnd_bounds {l : HttpText} {n : Nat} (h : headerEnd l = some n) :
    4 ≤ n ∧ n ≤ l.length ∧ (l.take n).getLast? = some lf := by
  induction l generalizing n with
  | nil => cases h
  | cons c rest ih =>
    unfold headerEnd at h
    split at h
    · next hfour =>
      cases h
      have hlen := congrArg List.length hfour
      rw [length_take] at hlen
      refine ⟨le_rfl, ?_, by rw [hfour]; rfl⟩
      change _ = 4 at hlen
      omega
    · obtain ⟨m, hm, rfl⟩ := map_eq_some_iff.mp h
      obtain ⟨hfour, hlen, hlast⟩ := ih hm
      refine ⟨by omega, Nat.succ_le_succ hlen, ?_⟩
      rw [take_succ_cons, List.getLast?_cons, hlast]
      rfl

theorem headerEnd_append {l : HttpText} {n : Nat} (h : headerEnd l = some n) (x : HttpText) : headerEnd (l ++ x) = some n := by
  induction l generalizing n with
  | nil => cases h
  | cons c rest ih =>
    unfold headerEnd at h
    rw [cons_append]
    unfold headerEnd
    split at h
    · next hfour =>
      have hlen := congrArg List.length hfour
      rw [length_take] at hlen
      change _ = 4 at hlen
      rw [if_pos]
      · exact h
      · rw [← cons_append, take_append_of_le_length (by omega), hfour]
    · next hnot =>
      obtain ⟨m, hm, rfl⟩ := map_eq_some_iff.mp h
      obtain ⟨hfour, hlen, -⟩ := headerEnd_bounds hm
      rw [if_neg]
      · rw [ih hm]
        rfl
      · rw [← cons_append, take_append_of_le_length (by simp; omega)]
        exact hnot

/-! Chunks. -/

theorem skipExtension_append {buf : HttpText} (h : (chunkLineEnd.skipExtension buf).take 2 = crlf) (x : HttpText) :
    chunkLineEnd.skipExtension (buf ++ x) = chunkLineEnd.skipExtension buf ++ x := by
  induction buf with
  | nil => cases h
  | cons c buf ih =>
    cases buf with
    | nil => cases h
    | cons d rest =>
      simp only [cons_append] at ih ⊢
      by_cases hcrlf : c = cr ∧ d = lf
      · rw [chunkLineEnd.skipExtension, if_pos hcrlf, chunkLineEnd.skipExtension, if_pos hcrlf]
        rfl
      · rw [chunkLineEnd.skipExtension, if_neg hcrlf] at h
        rw [chunkLineEnd.skipExtension, if_neg hcrlf, chunkLineEnd.skipExtension, if_neg hcrlf]
        exact ih h

theorem take_two_append {buf : HttpText} (h : buf.take 2 = crlf) (x : HttpText) :
    (buf ++ x).take 2 = crlf ∧ (buf ++ x).drop 2 = buf.drop 2 ++ x := by
  have htwo := congrArg List.length h
  rw [length_take] at htwo
  change _ = 2 at htwo
  rw [take_append_of_le_length (by omega), drop_append_of_le_length (by omega)]
  exact ⟨h, rfl⟩

theorem chunkLineEnd_append {buf after : HttpText} (h : chunkLineEnd buf = some after) (x : HttpText) :
    chunkLineEnd (buf ++ x) = some (after ++ x) := by
  have hcut : ∀ {l : HttpText}, (if l.take 2 = crlf then some (l.drop 2) else none) = some after →
      (if (l ++ x).take 2 = crlf then some ((l ++ x).drop 2) else none) = some (after ++ x) ∧
        l.take 2 = crlf := by
    intro l hl
    split at hl
    · next hcrlf =>
      obtain ⟨htake, hdrop⟩ := take_two_append hcrlf x
      rw [if_pos htake, hdrop, Option.some.inj hl]
      exact ⟨rfl, hcrlf⟩
    · cases hl
  unfold chunkLineEnd at h ⊢
  dsimp only at h ⊢
  cases buf with
  | nil => cases h
  | cons c buf =>
    have hhead : (c :: buf ++ x).head? = (c :: buf).head? := rfl
    rw [hhead]
    by_cases hext : (c :: buf).head? = some ';'
    · rw [if_pos hext] at h ⊢
      rw [skipExtension_append (hcut h).2]
      exact (hcut h).1
    · rw [if_neg hext] at h ⊢
      exact (hcut h).1

theorem chunkSizeFrom_append {size n : Nat} {saw : Bool} {buf after : HttpText}
    (h : chunkSizeFrom size saw buf = some (n, after)) (x : HttpText) :
    chunkSizeFrom size saw (buf ++ x) = some (n, after ++ x) := by
  induction buf generalizing size saw with
  | nil => cases h
  | cons c rest ih =>
    rw [cons_append]
    unfold chunkSizeFrom at h ⊢
    cases hdigit : httpHexDigit c with
    | some hex =>
      rw [hdigit] at h
      dsimp only at h ⊢
      split at h
      · cases h
      · next hfits =>
        rw [if_neg hfits]
        exact ih h
    | none =>
      rw [hdigit] at h
      dsimp only at h ⊢
      split at h
      · next hsaw =>
        obtain ⟨end', hend, hpair⟩ := map_eq_some_iff.mp h
        cases hpair
        rw [if_pos hsaw, ← cons_append, chunkLineEnd_append hend]
        rfl
      · cases h

/-- Nothing follows the end of the response, unless chunks alone mark it, and what follows the
header does not change its status line. -/
structure EndsInTime (reply : HttpText) : Prop where
  status : ∀ n, headerEnd reply = some n → ∀ k, n ≤ k → k ≤ reply.length →
    httpParseStatusLine (cText (reply.take k)) = httpParseStatusLine (cText (reply.take n))
  last : ∀ seen, seeHeader reply = some (true, seen) →
    (seen.head.chunked = true ∧ seen.head.contentLength = 0) ∨
    ∀ k < reply.length, seen.headerLen ≤ k →
      receivedAll seen ((reply.take k).drop seen.headerLen) = false

/-- A header seen in the reply is seen in every part that holds it. -/
theorem EndsInTime.seen {reply buf more x : HttpText} (h : EndsInTime reply)
    (hbuf : buf ++ more ++ x = reply) {seen : Bool × HeaderSeen} (hseen : seeHeader buf = some seen) :
    seeHeader (buf ++ more) = some seen := by
  unfold seeHeader at hseen ⊢
  obtain ⟨n, hn, hseen⟩ := map_eq_some_iff.mp hseen
  have hlen := (headerEnd_bounds hn).2.1
  have hwhole : headerEnd reply = some n := by
    rw [← hbuf, append_assoc]
    exact headerEnd_append hn _
  have hparts : ∀ part rest : HttpText, part ++ rest = reply → n ≤ part.length →
      httpParseStatusLine (cText part) = httpParseStatusLine (cText (reply.take n)) := by
    intro part rest hpart hn'
    have hk := h.status n hwhole part.length hn' (by rw [← hpart, length_append]; omega)
    rwa [← hpart, take_left, hpart] at hk
  rw [headerEnd_append hn more, map_some, ← hseen]
  dsimp only
  rw [hparts _ x hbuf (by rw [length_append]; omega), hparts buf (more ++ x) (by rw [← append_assoc, hbuf]) hlen,
    take_append_of_le_length hlen]

section
variable (decoder : ContentDecoder)

theorem EndsInTime.kept {reply buf x : HttpText} (h : EndsInTime reply) (hbuf : buf ++ x = reply)
    (hlen : buf.length + 1 ≤ httpMaxResponseSize) {seen : Bool × HeaderSeen} (hseen : seeHeader buf = some seen) :
    seeHeader (reply.take (httpMaxResponseSize - 1)) = some seen := by
  have hkept : reply.take (httpMaxResponseSize - 1) =
      buf ++ x.take (httpMaxResponseSize - 1 - buf.length) := by
    rw [← hbuf, take_append, take_of_length_le (by omega)]
  rw [hkept]
  refine h.seen (x := x.drop (httpMaxResponseSize - 1 - buf.length)) ?_ hseen
  rw [append_assoc, take_append_drop, hbuf]

end

end CapyOS.Proofs
