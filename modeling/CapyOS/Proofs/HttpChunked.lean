import CapyOS.Lib.Blocks
import CapyOS.Net.HttpChunked
import CapyOS.Proofs.HttpRequest

namespace CapyOS.Proofs
open Lib List Option
variable {buf : HttpText}

/-! ## The walkers on the buffer and on what is left of it -/

theorem drop_two {i : Nat} (h : i + 1 < buf.length) : ∃ c d, buf[i]? = some c ∧ buf[i + 1]? = some d ∧
    buf.drop i = c :: d :: buf.drop (i + 2) := by
  refine ⟨buf[i], buf[i + 1], List.getElem?_eq_getElem _, List.getElem?_eq_getElem _, ?_⟩
  rw [drop_eq_getElem_cons (by omega), drop_eq_getElem_cons h]

theorem take_two_iff {i : Nat} (h : ¬i + 1 < buf.length) : (buf.drop i).take 2 ≠ crlf := by
  intro he
  have := congrArg List.length he
  simp only [length_take, length_drop, crlf, length_cons, length_nil] at this
  omega

theorem skipExtension_spec (n i : Nat) (hn : buf.length ≤ n + i + 1) (hi : i ≤ buf.length) :
    ∃ j, Chunked.skipExtension buf n i = some j ∧ i ≤ j ∧ j ≤ buf.length ∧
      chunkLineEnd.skipExtension (buf.drop i) = buf.drop j := by
  have hshort : ∀ i, ¬i + 1 < buf.length → chunkLineEnd.skipExtension (buf.drop i) = buf.drop i := by
    intro i hlt
    have hlen : (buf.drop i).length ≤ 1 := by rw [length_drop]; omega
    match hd : buf.drop i, hlen with
    | [], _ => rfl
    | [c], _ => rfl
  induction n generalizing i with
  | zero => exact ⟨i, by rw [Chunked.skipExtension, if_neg (by omega)], Nat.le_refl i, hi, hshort i (by omega)⟩
  | succ n ih =>
    rw [Chunked.skipExtension]
    by_cases hlt : i + 1 < buf.length
    · obtain ⟨c, d, hc, hd, hdrop⟩ := drop_two hlt
      rw [if_pos hlt, hc, hd]
      change ∃ j, (if c = cr ∧ d = lf then some i else Chunked.skipExtension buf n (i + 1)) = some j ∧ _
      rw [hdrop, chunkLineEnd.skipExtension]
      split
      · exact ⟨i, rfl, Nat.le_refl i, hi, hdrop.symm⟩
      · obtain ⟨j, hj, hij, hjl, hskip⟩ := ih (i + 1) (by omega) (by omega)
        refine ⟨j, hj, by omega, hjl, ?_⟩
        rw [← hskip, drop_eq_getElem_cons hlt]
        rw [List.getElem?_eq_getElem hlt, Option.some.injEq] at hd
        rw [hd]
    · rw [if_neg hlt]
      exact ⟨i, rfl, Nat.le_refl i, hi, hshort i hlt⟩

theorem crlf_pair {i : Nat} {c d : Char} (h : buf.drop i = c :: d :: buf.drop (i + 2)) :
    (buf.drop i).take 2 = crlf ↔ c = cr ∧ d = lf := by
  rw [h, crlf]
  simp

theorem lineEndAt_spec (i : Nat) (sawDigit : Bool) : ∃ r, Chunked.lineEndAt buf i sawDigit = some r ∧
    (∀ j, r = some j → i < j ∧ j ≤ buf.length) ∧
    (if sawDigit then (if (buf.drop i).take 2 = crlf then some ((buf.drop i).drop 2) else none) else none) =
      r.map fun j => buf.drop j := by
  rw [Chunked.lineEndAt]
  by_cases hlt : i + 1 < buf.length
  · obtain ⟨c, d, hc, hd, hdrop⟩ := drop_two hlt
    rw [if_pos hlt, hc, hd]
    simp only [crlf_pair hdrop, drop_drop]
    refine ⟨_, rfl, fun j hj => ?_, ?_⟩
    · split at hj
      · cases hj
        omega
      · cases hj
    · by_cases hcd : c = cr ∧ d = lf
      · cases sawDigit <;> simp [hcd]
      · have : ¬(c = cr ∧ d = lf ∧ sawDigit = true) := fun h => hcd ⟨h.1, h.2.1⟩
        rw [if_neg hcd, if_neg this]
        cases sawDigit <;> rfl
  · rw [if_neg hlt, if_neg (take_two_iff hlt)]
    exact ⟨none, rfl, nofun, by cases sawDigit <;> rfl⟩

theorem lineEnd_spec (n i : Nat) (sawDigit : Bool) (hn : buf.length ≤ n + i + 1) (hi : i < buf.length) :
    ∃ r, Chunked.lineEnd buf n i sawDigit = some r ∧ (∀ j, r = some j → i < j ∧ j ≤ buf.length) ∧
      (if sawDigit then chunkLineEnd (buf.drop i) else none) = r.map fun j => buf.drop j := by
  have hhead : (buf.drop i).head? = some buf[i] := by rw [drop_eq_getElem_cons hi]; rfl
  rw [Chunked.lineEnd, List.getElem?_eq_getElem hi]
  change ∃ r, (if buf[i] = ';' then (Chunked.skipExtension buf n i).bind fun i => Chunked.lineEndAt buf i sawDigit
    else Chunked.lineEndAt buf i sawDigit) = some r ∧ _
  by_cases hsemi : buf[i] = ';'
  · obtain ⟨j, hj, hij, hjl, hskip⟩ := skipExtension_spec n i hn (by omega)
    obtain ⟨r, hr, hb, heq⟩ := @lineEndAt_spec buf j sawDigit
    rw [if_pos hsemi, hj]
    refine ⟨r, hr, fun k hk => by have := hb k hk; omega, ?_⟩
    rw [← heq, ← hskip]
    simp only [chunkLineEnd, hhead, hsemi, if_true]
  · rw [if_neg hsemi]
    obtain ⟨r, hr, hb, heq⟩ := @lineEndAt_spec buf i sawDigit
    refine ⟨r, hr, hb, ?_⟩
    rw [← heq]
    simp only [chunkLineEnd, hhead, Option.some.injEq, hsemi, if_false]

theorem parseSize_spec (n i size : Nat) (sawDigit : Bool) (hn : buf.length ≤ n + i) (hi : i ≤ buf.length) :
    ∃ r, Chunked.parseSize buf n i size sawDigit = some r ∧ (∀ s j, r = some (s, j) → i < j ∧ j ≤ buf.length) ∧
      chunkSizeFrom size sawDigit (buf.drop i) = r.map fun x => (x.1, buf.drop x.2) := by
  induction n generalizing i size sawDigit with
  | zero =>
    rw [Chunked.parseSize, if_neg (by omega), drop_eq_nil_of_le (by omega)]
    exact ⟨none, rfl, (fun _ _ h => by cases h), rfl⟩
  | succ n ih =>
    rw [Chunked.parseSize]
    by_cases hlt : i < buf.length
    · rw [if_pos hlt, List.getElem?_eq_getElem hlt, drop_eq_getElem_cons hlt, chunkSizeFrom]
      dsimp only [bind_eq_bind, Option.bind_some]
      cases httpHexDigit buf[i] with
      | some hex =>
        dsimp only
        split
        · exact ⟨none, rfl, (fun _ _ h => by cases h), rfl⟩
        · obtain ⟨r, hr, hb, heq⟩ := ih (i + 1) (size * 16 + hex) true (by omega) hlt
          exact ⟨r, hr, fun s j h => by have := hb s j h; omega, heq⟩
      | none =>
        dsimp only
        obtain ⟨r, hr, hb, heq⟩ := lineEnd_spec (n + 1) i sawDigit (by omega) hlt
        rw [hr, ← drop_eq_getElem_cons hlt]
        refine ⟨_, rfl, fun s j h => ?_, ?_⟩
        · rw [map_eq_some_iff] at h
          obtain ⟨k, hk, he⟩ := h
          simp only [Prod.mk.injEq] at he
          exact he.2 ▸ hb k hk
        · cases sawDigit with
          | false =>
            simp only [Bool.false_eq_true, if_false] at heq ⊢
            rw [Option.map_map]
            cases r with
            | none => rfl
            | some j => simp at heq
          | true =>
            simp only [if_true] at heq ⊢
            rw [heq, Option.map_map, Option.map_map]
            rfl
    · rw [if_neg hlt, drop_eq_nil_of_le (by omega)]
      exact ⟨none, rfl, (fun _ _ h => by cases h), rfl⟩

theorem parse_spec {i : Nat} (hi : i ≤ buf.length) : ∃ r, Chunked.parseSize buf buf.length i 0 false = some r ∧
    (∀ s j, r = some (s, j) → i < j ∧ j ≤ buf.length) ∧ httpParseChunkSize (buf.drop i) = r.map fun x => (x.1, buf.drop x.2) :=
  parseSize_spec buf.length i 0 false (by omega) hi

theorem crlfAt_spec {pos : Nat} (h : pos + 1 < buf.length) :
    Chunked.crlfAt buf pos = some (decide ((buf.drop pos).take 2 = crlf)) := by
  obtain ⟨c, d, hc, hd, hdrop⟩ := drop_two h
  rw [Chunked.crlfAt, hc, hd]
  change (if c = cr then some (decide (d = lf)) else some false) = _
  by_cases hcr : c = cr
  · simp [crlf_pair hdrop, hcr]
  · simp [crlf_pair hdrop, hcr]

theorem complete_spec (n m pos : Nat) (hn : buf.length ≤ n + pos) (hm : buf.length < m + pos) (hpos : pos ≤ buf.length) :
    Chunked.complete buf n pos = some (chunkedCompleteFrom m (buf.drop pos)) := by
  induction n generalizing m pos with
  | zero =>
    rw [Chunked.complete, if_neg (by omega), drop_eq_nil_of_le (by omega)]
    cases m <;> rfl
  | succ n ih =>
    obtain _ | m := m
    · omega
    rw [Chunked.complete, chunkedCompleteFrom]
    by_cases hlt : pos < buf.length
    · obtain ⟨r, hr, hb, heq⟩ := @parse_spec buf pos hpos
      rw [if_pos hlt, hr, heq]
      cases r with
      | none => rfl
      | some x =>
        obtain ⟨size, p⟩ := x
        obtain ⟨hp, hpl⟩ := hb size p rfl
        change (if size = 0 then _ else _) = some (if size = 0 then _ else _)
        by_cases hz : size = 0
        · rw [if_pos hz, if_pos hz]
          by_cases hroom : p + 1 < buf.length
          · rw [if_pos hroom, crlfAt_spec hroom]
          · rw [if_neg hroom, decide_eq_false (take_two_iff hroom)]
        · rw [if_neg hz, if_neg hz]
          simp only [length_drop, drop_drop]
          by_cases hfit : buf.length - p < 2 ∨ size > buf.length - p - 2
          · rw [if_pos hfit, if_pos hfit]
          · rw [if_neg hfit, if_neg hfit, crlfAt_spec (by omega)]
            change (if decide ((buf.drop (p + size)).take 2 = crlf) = true then Chunked.complete buf n (p + size + 2)
              else some false) = _
            by_cases hc : (buf.drop (p + size)).take 2 = crlf
            · rw [if_pos (decide_eq_true hc), if_neg (not_not.mpr hc), ih m _ (by omega) (by omega) (by omega)]
            · rw [if_neg (by simpa using hc), if_pos hc]
    · rw [if_neg hlt, drop_eq_nil_of_le (by omega)]
      rfl

theorem copyWithin_spec (n : Nat) (body : HttpText) (dst src : Nat) (hd : dst ≤ src) (hs : src + n ≤ body.length) :
    Chunked.copyWithin n body dst src = some (body.take dst ++ (body.drop src).take n ++ body.drop (dst + n)) := by
  induction n generalizing body dst src with
  | zero => simp [Chunked.copyWithin]
  | succ n ih =>
    have hsrc : src < body.length := by omega
    rw [Chunked.copyWithin, List.getElem?_eq_getElem hsrc]
    change (if dst < body.length then Chunked.copyWithin n (body.set dst body[src]) (dst + 1) (src + 1) else none) = _
    rw [if_pos (by omega), ih _ _ _ (by omega) (by rw [length_set]; omega), take_set_succ _ (by omega),
      drop_set_of_lt (by omega), drop_set_of_lt (by omega), drop_eq_getElem_cons hsrc, take_succ_cons]
    simp [Nat.add_assoc, Nat.add_comm 1]

theorem decode_spec (n m : Nat) (body : HttpText) (src dst : Nat) (hn : body.length ≤ n + src)
    (hm : body.length < m + src) (hsrc : src ≤ body.length) (hdst : dst ≤ src) :
    ∃ r, Chunked.decode n body src dst = some r ∧ (r.isSome ↔ (decodeChunkedFrom m (body.drop src)).isSome) ∧
      ∀ body' len, r = some (body', len) → body'.length = body.length ∧ len ≤ body.length ∧
        ∃ out, decodeChunkedFrom m (body.drop src) = some out ∧ body'.take len = body.take dst ++ out := by
  induction n generalizing m body src dst with
  | zero =>
    rw [Chunked.decode, if_neg (by omega), drop_eq_nil_of_le (by omega)]
    exact ⟨none, rfl, by cases m <;> simp [decodeChunkedFrom, httpParseChunkSize, chunkSizeFrom], nofun⟩
  | succ n ih =>
    obtain _ | m := m
    · omega
    rw [Chunked.decode, decodeChunkedFrom]
    by_cases hlt : src < body.length
    swap
    · rw [if_neg hlt, drop_eq_nil_of_le (by omega)]
      exact ⟨none, rfl, by simp [httpParseChunkSize, chunkSizeFrom], nofun⟩
    obtain ⟨r, hr, hb, heq⟩ := @parse_spec body src hsrc
    rw [if_pos hlt, hr, heq]
    cases r with
    | none => exact ⟨none, rfl, by simp, nofun⟩
    | some x =>
      obtain ⟨size, p⟩ := x
      obtain ⟨hp, hpl⟩ := hb size p rfl
      change ∃ r, (if size = 0 then _ else _) = some r ∧ (_ ↔ (if size = 0 then _ else _ : Option HttpText).isSome) ∧
        ∀ body' len, _ → _ ∧ _ ∧ ∃ out, (if size = 0 then _ else _ : Option HttpText) = some out ∧ _
      by_cases hz : size = 0
      · simp only [hz, if_true]
        rw [if_pos (by omega)]
        refine ⟨_, rfl, by simp, fun body' len h => ?_⟩
        cases h
        exact ⟨length_set, by omega, [], rfl, by rw [take_set_of_le (Nat.le_refl _), append_nil]⟩
      · simp only [hz, if_false, length_drop, drop_drop]
        by_cases hfit : size > body.length - p
        · rw [if_pos hfit, if_pos hfit]
          exact ⟨none, rfl, by simp, nofun⟩
        · rw [if_neg hfit, if_neg hfit]
          obtain ⟨copied, hcopied⟩ : ∃ copied, copied = body.take dst ++ (body.drop p).take size ++ body.drop (dst + size) :=
            ⟨_, rfl⟩
          rw [copyWithin_spec size body dst p (by omega) (by omega), ← hcopied]
          have hfront : (body.take dst ++ (body.drop p).take size).length = dst + size := by
            rw [length_append, length_take, length_take, length_drop]
            omega
          have hlen : copied.length = body.length := by
            rw [hcopied, length_append, hfront, length_drop]
            omega
          have hbehind : ∀ k, dst + size ≤ k → copied.drop k = body.drop k := by
            intro k hk
            rw [hcopied, drop_append, drop_eq_nil_of_le (by omega), nil_append, drop_drop, hfront]
            congr 1
            omega
          have htake : copied.take (dst + size) = body.take dst ++ (body.drop p).take size := by
            rw [hcopied, take_left' hfront]
          change ∃ r, (if p + size + 1 ≥ copied.length then some none else
            (Chunked.crlfAt copied (p + size) >>= fun b => if b = true then
              Chunked.decode n copied (p + size + 2) (dst + size) else some none)) = some r ∧ _
          by_cases hroom : p + size + 1 ≥ copied.length
          · rw [if_pos hroom, if_pos (take_two_iff (by omega))]
            exact ⟨none, rfl, by simp, nofun⟩
          · rw [if_neg hroom, crlfAt_spec (by omega), hbehind _ (by omega)]
            change ∃ r, (if decide ((body.drop (p + size)).take 2 = crlf) = true then
              Chunked.decode n copied (p + size + 2) (dst + size) else some none) = some r ∧ _
            by_cases hc : (body.drop (p + size)).take 2 = crlf
            · rw [if_pos (decide_eq_true hc), if_neg (not_not.mpr hc)]
              obtain ⟨r, hr, hiff, hout⟩ := ih m copied (p + size + 2) (dst + size) (by omega) (by omega) (by omega)
                (by omega)
              rw [hbehind _ (by omega)] at hiff hout
              refine ⟨r, hr, by rw [hiff, isSome_map], fun body' len h => ?_⟩
              obtain ⟨h1, h2, out, h3, h4⟩ := hout body' len h
              exact ⟨by omega, by omega, _, by rw [h3]; rfl, by rw [h4, htake, append_assoc]⟩
            · rw [if_neg (by simpa using hc), if_pos hc]
              exact ⟨none, rfl, by simp, nofun⟩

/-! ## What is read stays read when more follows -/

def chunkedRest : Nat → HttpText → Option HttpText
  | 0, _ => none
  | n + 1, buf =>
    match httpParseChunkSize buf with
    | none => none
    | some (size, rest) =>
      if size = 0 then if rest.take 2 = crlf then some (rest.drop 2) else none
      else if rest.length < 2 ∨ size > rest.length - 2 then none
      else if (rest.drop size).take 2 ≠ crlf then none
      else chunkedRest n ((rest.drop size).drop 2)

theorem complete_eq_rest (n : Nat) (b : HttpText) : chunkedCompleteFrom n b = (chunkedRest n b).isSome := by
  induction n generalizing b with
  | zero => rfl
  | succ n ih =>
    rw [chunkedCompleteFrom, chunkedRest]
    cases httpParseChunkSize b with
    | none => rfl
    | some x =>
      dsimp only
      split
      · split <;> simp [*]
      · split
        · rfl
        · split
          · rfl
          · exact ih _

/-- One turn of `chunkedRest` that comes to an end: the last chunk, or a chunk before it. -/
theorem chunkedRest_cases {n : Nat} {b t : HttpText} (h : chunkedRest (n + 1) b = some t) :
    ∃ size rest, httpParseChunkSize b = some (size, rest) ∧ ((size = 0 ∧ rest.take 2 = crlf ∧ rest.drop 2 = t) ∨
        (size ≠ 0 ∧ size + 2 ≤ rest.length ∧ (rest.drop size).take 2 = crlf ∧
          chunkedRest n ((rest.drop size).drop 2) = some t)) := by
  rw [chunkedRest] at h
  split at h
  · cases h
  · rename_i size rest hparse
    refine ⟨size, rest, hparse, ?_⟩
    split at h
    · split at h
      · exact .inl ⟨‹_›, ‹_›, Option.some.inj h⟩
      · cases h
    · split at h
      · cases h
      · split at h
        · cases h
        · exact .inr ⟨‹_›, by omega, not_not.mp ‹_›, h⟩

theorem chunkedRest_last {n : Nat} {b rest : HttpText} (hparse : httpParseChunkSize b = some (0, rest))
    (hcrlf : rest.take 2 = crlf) : chunkedRest (n + 1) b = some (rest.drop 2) := by
  rw [chunkedRest, hparse]
  simp only [if_true, hcrlf]

theorem chunkedRest_chunk {n size : Nat} {b rest : HttpText} (hparse : httpParseChunkSize b = some (size, rest))
    (hz : size ≠ 0) (hlen : size + 2 ≤ rest.length) (hcrlf : (rest.drop size).take 2 = crlf) :
    chunkedRest (n + 1) b = chunkedRest n ((rest.drop size).drop 2) := by
  rw [chunkedRest, hparse]
  simp only [hz, if_false]
  rw [if_neg (by omega), if_neg (not_not.mpr hcrlf)]

theorem chunkedRest_append (s : HttpText) {t : HttpText} (n m : Nat) (b : HttpText) (hnm : n ≤ m)
    (h : chunkedRest n b = some t) : chunkedRest m (b ++ s) = some (t ++ s) := by
  induction n generalizing m b with
  | zero => cases h
  | succ n ih =>
    obtain _ | m := m
    · omega
    obtain ⟨size, rest, hparse, h⟩ := chunkedRest_cases h
    have hparse : httpParseChunkSize (b ++ s) = some (size, rest ++ s) := chunkSizeFrom_append hparse s
    obtain ⟨rfl, hcrlf, rfl⟩ | ⟨hz, hlen, hcrlf, h⟩ := h
    · obtain ⟨h1, h2⟩ := take_two_append hcrlf s
      rw [chunkedRest_last hparse h1, h2]
    · obtain ⟨h1, h2⟩ := take_two_append hcrlf s
      have hdrop : (rest ++ s).drop size = rest.drop size ++ s := drop_append_of_le_length (by omega)
      rw [chunkedRest_chunk hparse hz (by rw [length_append]; omega) (by rw [hdrop]; exact h1), hdrop, h2]
      exact ih m _ (by omega) h

theorem decode_of_rest (n : Nat) (b : HttpText) (h : (chunkedRest n b).isSome) : (decodeChunkedFrom n b).isSome := by
  induction n generalizing b with
  | zero => cases h
  | succ n ih =>
    obtain ⟨t, ht⟩ := isSome_iff_exists.mp h
    obtain ⟨size, rest, hparse, h⟩ := chunkedRest_cases ht
    rw [decodeChunkedFrom, hparse]
    obtain ⟨rfl, -, -⟩ | ⟨hz, hlen, hcrlf, h⟩ := h
    · rfl
    · simp only [hz, if_false]
      rw [if_neg (by omega), if_neg (not_not.mpr hcrlf), isSome_map]
      exact ih _ (isSome_iff_exists.mpr ⟨t, h⟩)

/-! ## The encoding -/

/-- The number some hexadecimal digits write, behind `v`. -/
def hexFrom (v : Nat) (digits : HttpText) : Nat := digits.foldl (fun v c => v * 16 + (httpHexDigit c).getD 0) v

/-- A size line: hexadecimal digits, and an extension or none. -/
structure SizeLine where
  digits : HttpText
  ext : HttpText
  digits_ne : digits ≠ []
  hex : ∀ c ∈ digits, (httpHexDigit c).isSome
  fits : hexFrom 0 digits < 2 ^ 64
  ext_head : ext = [] ∨ ext.head? = some ';'
  ext_line : ¬crlf <:+: ext

def SizeLine.text (l : SizeLine) : HttpText := l.digits ++ (l.ext ++ crlf)

/-- A chunk that is not empty. -/
structure DataChunk extends SizeLine where
  data : HttpText
  data_ne : data ≠ []
  size : hexFrom 0 digits = data.length

/-- The zero chunk. -/
structure LastChunk extends SizeLine where
  zero : hexFrom 0 digits = 0

def DataChunk.encode (c : DataChunk) : HttpText := c.text ++ (c.data ++ crlf)

def chunkedEncode (chunks : List DataChunk) (last : LastChunk) : HttpText :=
  chunks.flatMap DataChunk.encode ++ (last.text ++ crlf)

theorem le_hexFrom (digits : HttpText) (v : Nat) : v ≤ hexFrom v digits := by
  induction digits generalizing v with
  | nil => exact Nat.le_refl v
  | cons c digits ih =>
    have := ih (v * 16 + (httpHexDigit c).getD 0)
    rw [hexFrom, foldl_cons, ← hexFrom]
    omega

theorem chunkSizeFrom_digits (b : HttpText) : ∀ (digits : HttpText) (v : Nat) (sawDigit : Bool),
    (∀ c ∈ digits, (httpHexDigit c).isSome) → hexFrom v digits < 2 ^ 64 →
    chunkSizeFrom v sawDigit (digits ++ b) = chunkSizeFrom (hexFrom v digits) (sawDigit || !digits.isEmpty) b
  | [], v, sawDigit, _, _ => by simp [hexFrom]
  | c :: digits, v, sawDigit, hhex, hfits => by
    obtain ⟨hex, hc⟩ := isSome_iff_exists.mp (hhex c (mem_cons_self ..))
    have hstep : hexFrom v (c :: digits) = hexFrom (v * 16 + hex) digits := by
      rw [hexFrom, foldl_cons, hc]
      rfl
    rw [hstep] at hfits
    have hv : ¬v > (2 ^ 64 - 1) >>> 4 := by
      have := le_hexFrom digits (v * 16 + hex)
      rw [Nat.shiftRight_eq_div_pow]
      omega
    rw [cons_append, chunkSizeFrom, hc]
    dsimp only
    rw [if_neg hv, chunkSizeFrom_digits b digits _ _ (fun d hd => hhex d (mem_cons_of_mem _ hd)) hfits, hstep]
    simp

theorem skipExtension_ext (s : HttpText) : ∀ ext : HttpText, ¬crlf <:+: ext →
    chunkLineEnd.skipExtension (ext ++ (crlf ++ s)) = crlf ++ s
  | [], _ => rfl
  | [c], _ => by
    change (if c = cr ∧ cr = lf then _ else chunkLineEnd.skipExtension (crlf ++ s)) = _
    rw [if_neg fun h => absurd h.2 (by decide)]
    rfl
  | c :: d :: ext, h => by
    rw [cons_append, cons_append, chunkLineEnd.skipExtension, if_neg, ← cons_append]
    · exact skipExtension_ext s (d :: ext) fun hd => h (hd.trans (suffix_cons c (d :: ext)).isInfix)
    · rintro ⟨rfl, rfl⟩
      exact h (List.IsPrefix.isInfix ⟨ext, rfl⟩)

theorem chunkLineEnd_ext {ext : HttpText} (hhead : ext = [] ∨ ext.head? = some ';') (hext : ¬crlf <:+: ext) (s : HttpText) :
    chunkLineEnd (ext ++ (crlf ++ s)) = some s := by
  have hend : (if (crlf ++ s).take 2 = crlf then some ((crlf ++ s).drop 2) else none) = some s := if_pos rfl
  obtain rfl | hhead := hhead
  · exact hend
  · have : (ext ++ (crlf ++ s)).head? = some ';' := by rw [List.head?_append, hhead]; rfl
    simp only [chunkLineEnd, this, if_true]
    rw [skipExtension_ext s ext hext]
    exact hend

theorem parse_text (l : SizeLine) (s : HttpText) : httpParseChunkSize (l.text ++ s) = some (hexFrom 0 l.digits, s) := by
  have hdigits : (false || !l.digits.isEmpty) = true := by
    have := l.digits_ne
    cases hd : l.digits with
    | nil => exact absurd hd this
    | cons c digits => rfl
  rw [SizeLine.text, append_assoc, append_assoc, httpParseChunkSize,
    chunkSizeFrom_digits _ l.digits 0 false l.hex l.fits, hdigits]
  -- what follows the digits is a semicolon or a CR, neither of them a digit
  obtain ⟨c, rest, hcons, hc⟩ : ∃ c rest, l.ext ++ (crlf ++ s) = c :: rest ∧ httpHexDigit c = none := by
    cases hext : l.ext with
    | nil => exact ⟨cr, lf :: s, rfl, by decide⟩
    | cons c ext =>
      have := l.ext_head
      rw [hext, List.head?_cons, Option.some.injEq] at this
      obtain h | rfl := this
      · cases h
      · exact ⟨';', _, rfl, by decide⟩
  rw [hcons, chunkSizeFrom, hc]
  dsimp only
  rw [if_pos rfl, ← hcons, chunkLineEnd_ext l.ext_head l.ext_line]
  rfl

theorem chunk_parts (c : DataChunk) (s : HttpText) :
    httpParseChunkSize (c.encode ++ s) = some (c.data.length, c.data ++ (crlf ++ s)) ∧ c.data.length ≠ 0 ∧
      c.data.length + 2 ≤ (c.data ++ (crlf ++ s)).length ∧ (c.data ++ (crlf ++ s)).take c.data.length = c.data ∧
      (c.data ++ (crlf ++ s)).drop c.data.length = crlf ++ s := by
  refine ⟨?_, fun h => c.data_ne (List.length_eq_zero_iff.mp h), ?_, take_left, drop_left⟩
  · rw [DataChunk.encode, append_assoc, append_assoc, parse_text, c.size]
  · simp only [length_append, crlf, length_cons, length_nil]
    omega

theorem chunkedEncode_cons (c : DataChunk) (chunks : List DataChunk) (last : LastChunk) :
    chunkedEncode (c :: chunks) last = c.encode ++ chunkedEncode chunks last := by
  rw [chunkedEncode, flatMap_cons, append_assoc]
  rfl

theorem rest_encode (t : HttpText) (last : LastChunk) : ∀ (chunks : List DataChunk) (n : Nat), chunks.length < n →
    chunkedRest n (chunkedEncode chunks last ++ t) = some t
  | [], n + 1, _ => by
    have hparse := parse_text last.toSizeLine (crlf ++ t)
    rw [last.zero] at hparse
    rw [chunkedEncode, flatMap_nil, nil_append, append_assoc]
    exact chunkedRest_last hparse rfl
  | c :: chunks, n + 1, h => by
    obtain ⟨hparse, hz, hlen, -, hdrop⟩ := chunk_parts c (chunkedEncode chunks last ++ t)
    rw [chunkedEncode_cons, append_assoc, chunkedRest_chunk hparse hz hlen (by rw [hdrop]; rfl), hdrop]
    exact rest_encode t last chunks n (by simpa using h)

theorem decode_chunkedEncode (t : HttpText) (last : LastChunk) : ∀ (chunks : List DataChunk) (n : Nat), chunks.length < n →
    decodeChunkedFrom n (chunkedEncode chunks last ++ t) = some (chunks.flatMap (·.data))
  | [], n + 1, _ => by
    have hparse := parse_text last.toSizeLine (crlf ++ t)
    rw [last.zero] at hparse
    rw [chunkedEncode, flatMap_nil, nil_append, append_assoc, decodeChunkedFrom, hparse]
    rfl
  | c :: chunks, n + 1, h => by
    obtain ⟨hparse, hz, hlen, htake, hdrop⟩ := chunk_parts c (chunkedEncode chunks last ++ t)
    rw [chunkedEncode_cons, append_assoc, decodeChunkedFrom, hparse]
    simp only [hz, if_false]
    rw [if_neg (by omega), if_neg (by rw [hdrop]; exact not_not.mpr rfl), hdrop, htake]
    change (decodeChunkedFrom n (chunkedEncode chunks last ++ t)).map (c.data ++ ·) = _
    rw [decode_chunkedEncode t last chunks n (by simpa using h)]
    rfl

theorem length_encode (last : LastChunk) (chunks : List DataChunk) : chunks.length ≤ (chunkedEncode chunks last).length := by
  induction chunks with
  | nil => exact Nat.zero_le _
  | cons c chunks ih =>
    rw [chunkedEncode_cons, length_append, DataChunk.encode, length_append, length_append, length_cons, crlf, length_cons]
    omega

/-! ## The two walkers on an encoding -/

theorem complete_encode (chunks : List DataChunk) (last : LastChunk) (t : HttpText) :
    httpChunkedComplete (chunkedEncode chunks last ++ t) = true := by
  have := length_encode last chunks
  rw [httpChunkedComplete, complete_eq_rest, rest_encode t last chunks _ (by rw [length_append]; omega)]
  rfl

theorem prefix_incomplete (chunks : List DataChunk) (last : LastChunk) {p q : HttpText}
    (h : p ++ q = chunkedEncode chunks last) (hq : q ≠ []) : httpChunkedComplete p = false := by
  rw [httpChunkedComplete, complete_eq_rest, Bool.eq_false_iff]
  intro hsome
  obtain ⟨t, ht⟩ := isSome_iff_exists.mp hsome
  have hlen := length_encode last chunks
  have hpq := congrArg List.length h
  rw [length_append] at hpq
  have hwhole := chunkedRest_append q (p.length + 1) ((chunkedEncode chunks last).length + 1) p (by omega) ht
  have hrest := rest_encode [] last chunks ((chunkedEncode chunks last).length + 1) (by omega)
  rw [append_nil, ← h] at hrest
  rw [← h, hrest, Option.some.injEq] at hwhole
  exact hq (List.append_eq_nil_iff.mp hwhole.symm).2

theorem decoded_of_complete {b : HttpText} (h : httpChunkedComplete b = true) : (httpDecodeChunkedBody b).isSome := by
  rw [httpChunkedComplete, complete_eq_rest] at h
  exact decode_of_rest _ b h

theorem complete_buffer (b : HttpText) : Chunked.complete b b.length 0 = some (httpChunkedComplete b) := by
  rw [httpChunkedComplete, complete_spec b.length (b.length + 1) 0 (by omega) (by omega) (by omega), drop_zero]

theorem decode_buffer (b : HttpText) : ∃ r, Chunked.decode b.length b 0 0 = some r ∧
    (r.isSome ↔ (httpDecodeChunkedBody b).isSome) ∧ ∀ body len, r = some (body, len) →
      body.length = b.length ∧ len ≤ b.length ∧ httpDecodeChunkedBody b = some (body.take len) := by
  obtain ⟨r, hr, hiff, hout⟩ := decode_spec b.length (b.length + 1) b 0 0 (by omega) (by omega) (by omega) (by omega)
  rw [drop_zero] at hiff hout
  refine ⟨r, hr, hiff, fun body len h => ?_⟩
  obtain ⟨h1, h2, out, h3, h4⟩ := hout body len h
  rw [take_zero, nil_append] at h4
  exact ⟨h1, h2, by rw [h4]; exact h3⟩

/-- Decoding undoes the encoding, which is complete at its end and not before; on any buffer both
walkers end inside it, and what is complete decodes. -/
theorem chunked_inverts :
    (∀ (chunks : List DataChunk) (last : LastChunk),
      (∀ t, Chunked.complete (chunkedEncode chunks last ++ t) (chunkedEncode chunks last ++ t).length 0 = some true) ∧
      (∀ p q, p ++ q = chunkedEncode chunks last → q ≠ [] → Chunked.complete p p.length 0 = some false) ∧
      (∀ t, ∃ body len,
        Chunked.decode (chunkedEncode chunks last ++ t).length (chunkedEncode chunks last ++ t) 0 0 =
          some (some (body, len)) ∧ body.take len = chunks.flatMap (·.data))) ∧
    ∀ buf : HttpText, ∃ isComplete decoded, Chunked.complete buf buf.length 0 = some isComplete ∧
      Chunked.decode buf.length buf 0 0 = some decoded ∧ (isComplete = true → decoded.isSome) ∧
      ∀ body len, decoded = some (body, len) → body.length = buf.length ∧ len ≤ buf.length := by
  refine ⟨fun chunks last => ⟨fun t => ?_, fun p q h hq => ?_, fun t => ?_⟩, fun buf => ?_⟩
  · rw [complete_buffer, complete_encode]
  · rw [complete_buffer, prefix_incomplete chunks last h hq]
  · obtain ⟨r, hr, hiff, hout⟩ := decode_buffer (chunkedEncode chunks last ++ t)
    obtain ⟨⟨body, len⟩, rfl⟩ := isSome_iff_exists.mp
      (hiff.mpr (decoded_of_complete (complete_encode chunks last t)))
    refine ⟨body, len, hr, ?_⟩
    have hlen := length_encode last chunks
    have := decode_chunkedEncode t last chunks ((chunkedEncode chunks last ++ t).length + 1) (by rw [length_append]; omega)
    rw [← httpDecodeChunkedBody, (hout body len rfl).2.2, Option.some.injEq] at this
    exact this
  · obtain ⟨r, hr, hiff, hout⟩ := decode_buffer buf
    exact ⟨_, r, complete_buffer buf, hr, fun h => hiff.mpr (decoded_of_complete h),
      fun body len h => ⟨(hout body len h).1, (hout body len h).2.1⟩⟩

def zeroChunk : LastChunk := ⟨⟨['0'], [], by simp, by simp [httpHexDigit, isDigit, lc], by simp [hexFrom, httpHexDigit, isDigit, lc], .inl rfl, by decide⟩, rfl⟩

/-- A chunk of 26 bytes with an extension on its size line. -/
def letterChunk : DataChunk :=
  ⟨⟨['1', 'A'], [';', 'x'], by simp, by simp [httpHexDigit, isDigit, lc], by simp [hexFrom, httpHexDigit, isDigit, lc], .inr rfl, by decide⟩,
    replicate 26 'a', by decide, rfl⟩

example : (Chunked.decode 100 (chunkedEncode [letterChunk, letterChunk] zeroChunk) 0 0).map (·.map (·.2)) = some (some 52) := by
  decide +kernel

end CapyOS.Proofs
