import CapyOS.Kernel.Klog
import CapyOS.Lib.Ring

namespace CapyOS.Proofs
open Lib Klog List
variable {logged : List KText} {line : KText}
variable {k : Klog} {t : KlogTrace}

/-! ## Texts -/

theorem appendStr_fits {cap : Nat} {buf s : KText} (h : buf.length + s.length < cap) : klogAppendStr cap buf s = buf ++ s := by
  refine take_of_length_le ?_
  rw [length_append]
  omega

theorem appendStr_length {cap : Nat} (hcap : 0 < cap) (buf s : KText) : (klogAppendStr cap buf s).length < cap := by
  rw [klogAppendStr, length_take]
  omega

theorem line_fits {call : KlogCall} (h : call.line = some line) : line.length < klogLineMax := by
  have hcap : 0 < klogLineMax := by decide
  cases call with
  | klog tick level msg =>
    cases h
    exact appendStr_length hcap _ _
  | klogHex tick level pre value =>
    cases h
    rw [klogAppendHex]
    split <;> exact appendStr_length hcap _ _
  | klogDec tick level pre value =>
    cases h
    exact appendStr_length hcap _ _
  | flush writer => exact nomatch h

/-- The lines of a text. -/
def linesText (lines : List KText) : KText := lines.flatMap (· ++ ['\n'])

/-- The text that tells how many lines were lost, if any were. -/
def lostText (lost : Nat) : KText :=
  if lost = 0 then []
  else "[0] [WRN] klog lost ".toList ++ Nat.toDigits 10 lost ++ " entries before flush\n".toList

theorem digits_short {n : Nat} (h : n < 2 ^ 32) : (Nat.toDigits 10 n).length ≤ 10 :=
  Nat.length_toDigits_le_iff (by decide) (by decide) |>.mpr (by omega)

theorem lostLine_text {lost : Nat} (hpos : 0 < lost) (h : lost < 2 ^ 32) : lostLine lost = lostText lost := by
  have hdigits := digits_short h
  have hstart : "[0] [WRN] klog lost ".toList.length = 20 := by decide
  have hend : " entries before flush\n".toList.length = 22 := by decide
  have hcap : klogSerialBytes = 32897 := by decide
  have hfirst : klogAppendStr klogSerialBytes [] "[0] [WRN] klog lost ".toList = "[0] [WRN] klog lost ".toList := by
    rw [appendStr_fits (by rw [hstart, hcap, length_nil]; omega), nil_append]
  have hnumber : klogAppendStr klogSerialBytes "[0] [WRN] klog lost ".toList (Nat.toDigits 10 lost) =
      "[0] [WRN] klog lost ".toList ++ Nat.toDigits 10 lost :=
    appendStr_fits (by rw [hstart, hcap]; omega)
  rw [lostLine, klogAppendDec, hfirst, hnumber,
    appendStr_fits (by rw [length_append, hstart, hend, hcap]; omega), lostText, if_neg (by omega)]

theorem lostText_length {lost : Nat} (h : lost < 2 ^ 32) : (lostText lost).length ≤ 52 := by
  have hdigits := digits_short h
  have hstart : "[0] [WRN] klog lost ".toList.length = 20 := by decide
  have hend : " entries before flush\n".toList.length = 22 := by decide
  rw [lostText]
  split
  · exact Nat.zero_le _
  · simp only [length_append, hstart, hend]
    omega

/-! ## The ring -/

/-- The log and the lines that were logged so far, fewer than its counters can tell. -/
structure LogHolds (k : Klog) (logged : List KText) : Prop where
  short : ∀ line ∈ logged, line.length < klogLineMax
  total : k.total = logged.length
  head : k.head = Fin.ofNat klogRingLines logged.length
  count : k.count = min logged.length klogRingLines
  ring : ∀ i (hi : i < logged.length), logged.length ≤ i + klogRingLines → k.ring (Fin.ofNat klogRingLines i) = logged[i]
  flushed : k.flushedTotal ≤ logged.length

theorem reset_holds : LogHolds klogReset [] where
  short := fun _ h => nomatch h
  total := rfl
  head := rfl
  count := rfl
  ring := fun i hi => absurd hi (Nat.not_lt_zero i)
  flushed := Nat.le_refl 0

theorem commit_holds (h : LogHolds k logged) (hline : line.length < klogLineMax)
    (hroom : logged.length + 1 < 2 ^ 32) : LogHolds (k.commit line) (logged ++ [line]) where
  short := by
    intro l hl
    rcases mem_append.mp hl with hl | hl
    · exact h.short l hl
    · rw [mem_singleton.mp hl]
      exact hline
  total := by
    rw [Klog.commit, h.total, length_append, length_singleton, Nat.mod_eq_of_lt hroom]
  head := by
    rw [Klog.commit, h.head, length_append, length_singleton]
    apply Fin.ext
    simp [Fin.ofNat, Fin.val_add]
  count := by
    have hcount := h.count
    rw [Klog.commit, length_append, length_singleton]
    dsimp only
    split <;> omega
  ring := by
    intro i hi hnew
    rw [length_append, length_singleton] at hi hnew
    rw [Klog.commit, h.head]
    dsimp only
    by_cases hlast : i = logged.length
    · subst hlast
      rw [Function.update_self, getElem_concat_length]
      rfl
    · -- the slot of an older line that is still held is another one
      have hslot : Fin.ofNat klogRingLines i ≠ Fin.ofNat klogRingLines logged.length := by
        intro heq
        have hval := congrArg Fin.val heq
        simp only [Fin.ofNat, klogRingLines] at hval hnew
        omega
      rw [Function.update_of_ne hslot, getElem_append_left (by omega)]
      exact h.ring i (by omega) (by omega)
  flushed := by
    have hflushed := h.flushed
    rw [length_append]
    exact Nat.le_trans hflushed (Nat.le_add_right _ _)

theorem oldest_eq (h : LogHolds k logged) : k.oldestTotal = logged.length - klogRingLines := by
  have hcount := h.count
  have htotal := h.total
  rw [Klog.oldestTotal]
  split <;> omega

/-- What is serialized from a line that is still in the ring on is the lines themselves. -/
theorem serialize_range (h : LogHolds k logged) (n : Nat) {start : Nat} {buf : KText}
    (hn : start + n ≤ logged.length) (hheld : logged.length ≤ start + klogRingLines)
    (hroom : buf.length + klogLineMax * n < klogSerialBytes) : (List.range' start n).foldl
      (fun buf total => klogAppendStr klogSerialBytes
        (klogAppendStr klogSerialBytes buf (k.ring (Fin.ofNat klogRingLines total))) "\n".toList) buf =
      buf ++ linesText ((logged.drop start).take n) := by
  induction n generalizing start buf with
  | zero => simp [linesText]
  | succ n ih =>
    have hstart : start < logged.length := by omega
    have hline := h.short _ (getElem_mem hstart)
    have hnewline : "\n".toList.length = 1 := by decide
    rw [Nat.mul_add, Nat.mul_one] at hroom
    have hentry : klogAppendStr klogSerialBytes buf logged[start] = buf ++ logged[start] :=
      appendStr_fits (by omega)
    rw [range'_succ, foldl_cons, h.ring start hstart hheld, hentry,
      appendStr_fits (by simp only [length_append, hnewline]; omega),
      ih (by omega) (by omega) (by simp only [length_append, hnewline]; omega),
      drop_eq_getElem_cons hstart, take_succ_cons, linesText, linesText, flatMap_cons]
    simp

theorem serialize_holds (h : LogHolds k logged) :
    k.serialize = linesText (logged.drop (logged.length - klogRingLines)) := by
  have hcount := h.count
  have hsize : klogRingLines = 256 := rfl
  rw [Klog.serialize]
  split
  next hzero =>
    have hempty : logged = [] := eq_nil_of_length_eq_zero (by omega)
    simp [hempty, linesText]
  next =>
    have hbytes : klogSerialBytes = 32897 := by decide
    have hmax : klogLineMax = 128 := rfl
    rw [Klog.serializeRange, oldest_eq h, h.total,
      serialize_range h _ (by omega) (by omega) (by rw [length_nil, hbytes, hmax]; omega), nil_append,
      take_of_length_le (by rw [length_drop])]

/-! ## Flushes -/

/-- What one flush tells of: the lines that were overwritten before it, and those it wrote. -/
structure FlushPiece where
  lost : List KText
  kept : List KText

/-- The text of a flush: the count of the lost lines, and the others. -/
def FlushPiece.text (p : FlushPiece) : KText := lostText p.lost.length ++ linesText p.kept

/-- The lines a flush tells of. -/
def FlushPiece.lines (p : FlushPiece) : List KText := p.lost ++ p.kept

/-- Nothing is lost but what the ring no longer holds. -/
def FlushPiece.Exact (p : FlushPiece) : Prop :=
  p.kept.length ≤ klogRingLines ∧ (p.lost ≠ [] → p.kept.length = klogRingLines)

def nextPiece (logged : List KText) (flushedTotal : Nat) : FlushPiece where
  lost := (logged.take (logged.length - klogRingLines)).drop flushedTotal
  kept := logged.drop (max flushedTotal (logged.length - klogRingLines))

theorem nextPiece_lines (logged : List KText) (flushedTotal : Nat) :
    (nextPiece logged flushedTotal).lines = logged.drop flushedTotal := by
  rw [FlushPiece.lines, nextPiece]
  dsimp only
  by_cases h : flushedTotal ≤ logged.length - klogRingLines
  · rw [Nat.max_eq_right h]
    have hparts := take_append_drop (logged.length - klogRingLines) logged
    have hdrop := congrArg (List.drop flushedTotal) hparts
    rwa [drop_append_of_le_length (by rw [length_take]; omega)] at hdrop
  · rw [Nat.max_eq_left (by omega), drop_eq_nil_of_le (by rw [length_take]; omega), nil_append]

theorem nextPiece_exact {flushedTotal : Nat} : (nextPiece logged flushedTotal).Exact := by
  constructor
  · simp only [nextPiece, length_drop]
    omega
  · intro hlost
    have hpos := length_pos_iff.mpr hlost
    simp only [nextPiece, length_drop, length_take] at hpos ⊢
    omega

theorem flushText_piece (h : LogHolds k logged) (hroom : logged.length < 2 ^ 32) :
    k.flushText = (nextPiece logged k.flushedTotal).text := by
  have hflushed := h.flushed
  have hbytes : klogSerialBytes = 32897 := by decide
  have hmax : klogLineMax = 128 := rfl
  have hold := oldest_eq h
  have hlost : (if k.flushedTotal < k.oldestTotal then lostLine (k.oldestTotal - k.flushedTotal) else []) =
      lostText (nextPiece logged k.flushedTotal).lost.length := by
    have hcount : (nextPiece logged k.flushedTotal).lost.length = k.oldestTotal - k.flushedTotal := by
      simp only [nextPiece, length_drop, length_take, hold]
      omega
    rw [hcount]
    split
    · exact lostLine_text (by omega) (by omega)
    · rw [lostText, if_pos (by omega)]
  have hstart : (if k.flushedTotal < k.oldestTotal then k.oldestTotal else k.flushedTotal) =
      max k.flushedTotal (logged.length - klogRingLines) := by
    rw [hold]
    split <;> omega
  have hsize : klogRingLines = 256 := rfl
  rw [Klog.flushText, hlost, hstart, FlushPiece.text, h.total]
  have hshort := @lostText_length (nextPiece logged k.flushedTotal).lost.length (by
    simp only [nextPiece, length_drop, length_take]
    omega)
  split
  next hnew =>
    rw [Klog.serializeRange, serialize_range h _ (by omega) (by omega) (by rw [hbytes, hmax]; omega),
      take_of_length_le (by rw [length_drop])]
    rfl
  next hold =>
    have hnone : (nextPiece logged k.flushedTotal).kept = [] := drop_eq_nil_of_le (by omega)
    rw [hnone, linesText, flatMap_nil, append_nil]

/-! ## Runs -/

structure TraceHolds (t : KlogTrace) : Prop where
  log : LogHolds t.log t.logged
  pieces : ∃ pieces : List FlushPiece, t.flushed = pieces.map FlushPiece.text ∧ (∀ p ∈ pieces, p.Exact) ∧
    t.logged.take t.log.flushedTotal = pieces.flatMap FlushPiece.lines

theorem log_step {call : KlogCall} (hline : call.line = some line) :
    t.step call = { t with log := t.log.commit line, logged := t.logged ++ [line] } := by
  cases call with
  | flush writer => exact nomatch hline
  | _ => simp [KlogTrace.step, hline]

/-- A flush that succeeds takes the watermark to the end, and one that fails leaves it. -/
theorem flush_step (h : TraceHolds t) (hroom : t.logged.length < 2 ^ 32) (writer : Option Int) :
    TraceHolds (t.step (.flush writer)) ∧ (writer = some 0 → (t.step (.flush writer)).log.flushedTotal = t.logged.length) := by
  cases writer with
  | none => exact ⟨h, fun hno => nomatch hno⟩
  | some rc =>
    by_cases hzero : t.log.total = 0
    · have hstep : t.step (.flush (some rc)) = t := by simp [KlogTrace.step, Klog.flush, hzero]
      have hflushed := h.log.flushed
      have htotal := h.log.total
      rw [hstep]
      exact ⟨h, fun _ => by omega⟩
    by_cases hempty : t.log.flushText = []
    · have hstep : t.step (.flush (some rc)) = t := by simp [KlogTrace.step, Klog.flush, hzero, hempty]
      rw [hstep]
      refine ⟨h, fun _ => ?_⟩
      -- a text that is empty tells of no line
      rw [flushText_piece h.log hroom, FlushPiece.text, append_eq_nil_iff] at hempty
      have hflushed := h.log.flushed
      have hkept : (nextPiece t.logged t.log.flushedTotal).kept = [] := by
        cases hk : (nextPiece t.logged t.log.flushedTotal).kept with
        | nil => rfl
        | cons line lines =>
          rw [hk, linesText, flatMap_cons] at hempty
          simp at hempty
      have hpast := drop_eq_nil_iff.mp hkept
      rw [klogRingLines] at hpast
      have hpos : 0 < t.logged.length := by
        have htotal := h.log.total
        omega
      omega
    · by_cases hrc : rc = 0
      · subst hrc
        have hstep : t.step (.flush (some 0)) =
            { t with log := { t.log with flushedTotal := t.log.total }, flushed := t.flushed ++ [t.log.flushText] } := by
          simp [KlogTrace.step, Klog.flush, hzero, hempty]
        obtain ⟨pieces, hpieces, hexact, hlines⟩ := h.pieces
        rw [hstep]
        refine ⟨⟨?_, ?_⟩, fun _ => h.log.total⟩
        · exact ⟨h.log.short, h.log.total, h.log.head, h.log.count, h.log.ring, Nat.le_of_eq h.log.total⟩
        · refine ⟨pieces ++ [nextPiece t.logged t.log.flushedTotal], ?_, ?_, ?_⟩
          · rw [hpieces, map_append, flushText_piece h.log hroom]
            rfl
          · intro p hp
            rcases mem_append.mp hp with hp | hp
            · exact hexact p hp
            · rw [mem_singleton.mp hp]
              exact nextPiece_exact
          · have htake : t.logged.take t.log.total = t.logged := take_of_length_le (Nat.le_of_eq h.log.total.symm)
            rw [flatMap_append, ← hlines, flatMap_singleton, nextPiece_lines]
            exact htake.trans (take_append_drop _ _).symm
      · have hstep : t.step (.flush (some rc)) = t := by
          simp only [KlogTrace.step, Klog.flush, hzero, hempty, hrc, if_false]
          split
          next heq =>
            cases heq
            exact absurd rfl hrc
          next heq =>
            cases heq
            rfl
        rw [hstep]
        exact ⟨h, fun hok => absurd (Option.some.inj hok) hrc⟩

theorem step_holds (h : TraceHolds t) (call : KlogCall) (hroom : (t.step call).logged.length < 2 ^ 32) :
    TraceHolds (t.step call) := by
  cases hline : call.line with
  | some line =>
    rw [log_step hline] at hroom ⊢
    rw [length_append, length_singleton] at hroom
    refine ⟨commit_holds h.log (line_fits hline) hroom, ?_⟩
    obtain ⟨pieces, hpieces, hexact, hlines⟩ := h.pieces
    refine ⟨pieces, hpieces, hexact, ?_⟩
    rw [← hlines]
    exact take_append_of_le_length h.log.flushed
  | none =>
    cases call with
    | flush writer =>
      refine (flush_step h ?_ writer).1
      have hsame : (t.step (.flush writer)).logged = t.logged := by
        simp only [KlogTrace.step]
        split <;> rfl
      rwa [hsame] at hroom
    | _ => exact nomatch hline

theorem logged_grows (t : KlogTrace) (calls : List KlogCall) : t.logged.length ≤ (t.run calls).logged.length := by
  induction calls generalizing t with
  | nil => exact Nat.le_refl _
  | cons call calls ih =>
    refine Nat.le_trans ?_ (ih (t.step call))
    cases hline : call.line with
    | some line =>
      rw [log_step hline, length_append]
      exact Nat.le_add_right _ _
    | none =>
      cases call with
      | flush writer =>
        simp only [KlogTrace.step]
        split <;> exact Nat.le_refl _
      | _ => exact nomatch hline

theorem run_holds (h : TraceHolds t) {calls : List KlogCall} (hroom : (t.run calls).logged.length < 2 ^ 32) :
    TraceHolds (t.run calls) := by
  induction calls generalizing t with
  | nil => exact h
  | cons call calls ih =>
    have hnext := logged_grows (t.step call) calls
    exact ih (step_holds h call (Nat.lt_of_le_of_lt hnext hroom)) hroom

/-- Over every run the flushes tell of each line once and in order, as a line or in the
count of those that the ring had lost by then; with the last of them a success nothing is
left to tell. What is serialized is the last lines of the ring, none of them cut. -/
theorem flush_lossless {calls : List KlogCall} (hroom : (klogTrace calls).logged.length < 2 ^ 32) :
    (∃ (pieces : List FlushPiece) (pending : List KText),
      (klogTrace calls).flushed = pieces.map (fun p => lostText p.lost.length ++ linesText p.kept) ∧
      (klogTrace calls).logged = pieces.flatMap (fun p => p.lost ++ p.kept) ++ pending ∧
      (∀ p ∈ pieces, p.kept.length ≤ klogRingLines ∧ (p.lost ≠ [] → p.kept.length = klogRingLines)) ∧
      (∀ before, calls = before ++ [.flush (some 0)] → pending = [])) ∧
    (klogTrace calls).log.serialize =
      linesText ((klogTrace calls).logged.drop ((klogTrace calls).logged.length - klogRingLines)) ∧
    (∀ line ∈ (klogTrace calls).logged, line.length < klogLineMax) := by
  have hstart : TraceHolds ⟨klogReset, [], []⟩ := ⟨reset_holds, [], rfl, fun _ hp => (nomatch hp), rfl⟩
  have h : TraceHolds (klogTrace calls) := run_holds hstart hroom
  obtain ⟨pieces, hpieces, hexact, hlines⟩ := h.pieces
  refine ⟨⟨pieces, (klogTrace calls).logged.drop (klogTrace calls).log.flushedTotal, hpieces, ?_, hexact, ?_⟩,
    serialize_holds h.log, h.log.short⟩
  · have hsplit := take_append_drop (klogTrace calls).log.flushedTotal (klogTrace calls).logged
    rw [hlines] at hsplit
    exact hsplit.symm
  · rintro before rfl
    have hrun : klogTrace (before ++ [.flush (some 0)]) = (klogTrace before).step (.flush (some 0)) := by
      simp [klogTrace, KlogTrace.run]
    have hsame : ((klogTrace before).step (.flush (some 0))).logged = (klogTrace before).logged := by
      simp only [KlogTrace.step]
      split <;> rfl
    rw [hrun, hsame] at hroom
    have hlast := (flush_step (run_holds hstart hroom) hroom (some 0)).2 rfl
    rw [hrun, hsame]
    exact drop_eq_nil_of_le (Nat.le_of_eq hlast.symm)

theorem flush_lossless_retry : ∃ pieces : List FlushPiece,
    (klogTrace [.klog 7 1 (some "up".toList), .flush (some (-1)), .flush (some 0)]).logged =
      pieces.flatMap (fun p => p.lost ++ p.kept) := by
  have hroom : (klogTrace [.klog 7 1 (some "up".toList), .flush (some (-1)), .flush (some 0)]).logged.length <
      2 ^ 32 := by
    decide
  obtain ⟨⟨pieces, pending, -, hlogged, -, hlast⟩, -⟩ := flush_lossless hroom
  refine ⟨pieces, ?_⟩
  rw [hlogged, hlast [.klog 7 1 (some "up".toList), .flush (some (-1))] rfl, append_nil]

end CapyOS.Proofs
