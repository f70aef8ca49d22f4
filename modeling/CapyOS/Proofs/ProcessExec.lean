import CapyOS.Kernel.ProcessExec
import CapyOS.Proofs.Pmm

namespace CapyOS.Proofs
open Pmm Lib List
variable {old m m' : Pmm} {held held' out rest : List Nat} {s : FrameSpace} {page frame : Nat}

/-! ## The frames that were taken -/

/-- The allocator is what it was before, but for frames that were free and are taken now. -/
structure Accounts (old m : Pmm) (taken : List Nat) : Prop where
  start : PmmSound old
  sound : PmmSound m
  total : m.totalPages = old.totalPages
  zero : old.bitmapTest 0 = true
  nodup : taken.Nodup
  fresh : ∀ f ∈ taken, old.bitmapTest f = false
  test : ∀ q, m.bitmapTest q = (old.bitmapTest q || decide (q ∈ taken))

theorem Accounts.perm (h : Accounts old m held) (hp : held.Perm held') : Accounts old m held' where
  start := h.start
  sound := h.sound
  total := h.total
  zero := h.zero
  nodup := hp.nodup_iff.mp h.nodup
  fresh f hf := h.fresh f (hp.mem_iff.mpr hf)
  test q := by rw [h.test q, decide_eq_decide.mpr hp.mem_iff]

theorem Accounts.old_free (h : Accounts old m held) {q : Nat} (hq : m.bitmapTest q = false) :
    old.bitmapTest q = false ∧ q ∉ held := by
  rw [h.test q, Bool.or_eq_false_iff, decide_eq_false_iff_not] at hq
  exact hq

theorem Accounts.take (h : Accounts old m held) {i count : Nat} (hrun : FreeRun m i count) (hsound : PmmSound m')
    (htotal : m'.totalPages = m.totalPages)
    (htest : ∀ q, m'.bitmapTest q = (decide (q ∈ List.range' i count) || m.bitmapTest q)) :
    Accounts old m' (List.range' i count ++ held) where
  start := h.start
  sound := hsound
  total := htotal.trans h.total
  zero := h.zero
  nodup := by
    refine (nodup_range' : (List.range' i count).Nodup).append h.nodup fun f hf hin => ?_
    obtain ⟨hlo, hhi⟩ := List.mem_range'_1.mp hf
    obtain ⟨k, rfl⟩ := Nat.exists_eq_add_of_le hlo
    exact (h.old_free (hrun k (by omega))).2 hin
  fresh f hf := by
    rcases List.mem_append.mp hf with hf | hf
    · obtain ⟨hlo, hhi⟩ := List.mem_range'_1.mp hf
      obtain ⟨k, rfl⟩ := Nat.exists_eq_add_of_le hlo
      exact (h.old_free (hrun k (by omega))).1
    · exact h.fresh f hf
  test q := by
    rw [htest, h.test]
    simp only [mem_append, Bool.decide_or]
    cases old.bitmapTest q <;> cases decide (q ∈ List.range' i count) <;> simp

theorem Accounts.give (h : Accounts old m (frame :: rest)) : Accounts old (m.freeOne frame) rest where
  start := h.start
  sound := freeOne_sound h.sound
  total := freeOne_total.trans h.total
  zero := h.zero
  nodup := (List.nodup_cons.mp h.nodup).2
  fresh f hf := h.fresh f (mem_cons_of_mem frame hf)
  test q := by
    have hfree := h.fresh frame mem_cons_self
    have hnot := (List.nodup_cons.mp h.nodup).1
    have hlt : frame < m.totalPages := by
      by_contra hge
      rw [h.total, Nat.not_lt] at hge
      rw [h.start.above frame hge] at hfree
      exact nomatch hfree
    rw [freeOne_test h.sound, h.test]
    by_cases hq : q = frame
    · subst hq
      simp [hlt, hfree, hnot]
    · simp [hq]

theorem Accounts.give_all (frames : List Nat) (h : Accounts old m (frames ++ rest)) :
    Accounts old (frames.foldl freeOne m) rest := by
  induction frames generalizing m with
  | nil => exact h
  | cons frame frames ih => exact ih h.give

theorem Accounts.all_back (h : Accounts old m held) : (∀ q, m.bitmapTest q = old.bitmapTest q) ↔ held = [] := by
  constructor
  · intro hall
    refine List.eq_nil_iff_forall_not_mem.mpr fun f hf => ?_
    have htest := h.test f
    rw [hall f, h.fresh f hf] at htest
    simp [hf] at htest
  · rintro rfl q
    rw [h.test q]
    simp

/-- What `pmm_alloc_page` does. Page 0 is not free, so that 0 is no frame. -/
theorem allocFrame_cases (h : Accounts old s.pmm held) : s.allocFrame = (none, s) ∨
    ∃ frame m, s.allocFrame = (some frame, { s with pmm := m }) ∧ Accounts old m (frame :: held) := by
  rcases allocPage_cases h.sound with ⟨hnone, -⟩ | ⟨i, haddr, hrun, hsound, htotal, htest⟩
  · left
    rw [FrameSpace.allocFrame, hnone]
    rfl
  · right
    have hi : i ≠ 0 := by
      rintro rfl
      have hzero := (h.old_free (hrun 0 (by omega))).1
      rw [h.zero] at hzero
      exact nomatch hzero
    have hne : i * pmmPageSize ≠ 0 := Nat.mul_ne_zero hi (by decide)
    refine ⟨i, s.pmm.allocPage.2, ?_, h.take hrun hsound htotal fun q => ?_⟩
    · rw [FrameSpace.allocFrame]
      dsimp only
      rw [haddr, if_neg hne, Nat.mul_div_cancel i (by decide)]
    · rw [htest]
      simp

/-! ## Mapping -/

theorem makeTable_spec (shift page : Nat) (h : Accounts old s.pmm (s.tables.map Prod.snd ++ rest)) :
    Accounts old (s.makeTable shift page).2.pmm ((s.makeTable shift page).2.tables.map Prod.snd ++ rest) ∧
    (s.makeTable shift page).2.leaves = s.leaves ∧ (s.makeTable shift page).2.pml4 = s.pml4 := by
  rw [FrameSpace.makeTable]
  split
  next => exact ⟨h, rfl, rfl⟩
  next =>
    rcases allocFrame_cases h with hnone | ⟨frame, m, hsome, hacc⟩
    · rw [hnone]
      exact ⟨h, rfl, rfl⟩
    · rw [hsome]
      exact ⟨hacc, rfl, rfl⟩

/-- A page is mapped: only tables are added to what is held, and the leaf of the page is set
or nothing is. -/
theorem mapPage_spec (page frame : Nat) (h : Accounts old s.pmm (s.tables.map Prod.snd ++ rest)) :
    Accounts old (s.mapPage page frame).2.pmm ((s.mapPage page frame).2.tables.map Prod.snd ++ rest) ∧
    (s.mapPage page frame).2.pml4 = s.pml4 ∧ ((s.mapPage page frame).2.leaves = s.leaves ∧
        ((s.mapPage page frame).1 = true → s.covered (page * vmmPageSize / 2 ^ 21) = true) ∨
      (s.mapPage page frame).2.leaves = (page, frame) :: s.leaves.filter (·.1 ≠ page) ∧
        (s.mapPage page frame).1 = true ∧ s.covered (page * vmmPageSize / 2 ^ 21) = false) := by
  rw [FrameSpace.mapPage]
  split
  next hcov => exact ⟨h, rfl, .inl ⟨rfl, fun _ => hcov⟩⟩
  next hcov =>
    rw [Bool.not_eq_true] at hcov
    obtain ⟨h1, hl1, hp1⟩ := makeTable_spec 39 page h
    rcases hm1 : s.makeTable 39 page with ⟨ok1, s1⟩
    rw [hm1] at h1 hl1 hp1
    cases ok1 with
    | false => exact ⟨h1, hp1, .inl ⟨hl1, nofun⟩⟩
    | true =>
      obtain ⟨h2, hl2, hp2⟩ := makeTable_spec 30 page h1
      dsimp only
      rcases hm2 : s1.makeTable 30 page with ⟨ok2, s2⟩
      rw [hm2] at h2 hl2 hp2
      cases ok2 with
      | false => exact ⟨h2, hp2.trans hp1, .inl ⟨hl2.trans hl1, nofun⟩⟩
      | true =>
        obtain ⟨h3, hl3, hp3⟩ := makeTable_spec 21 page h2
        dsimp only
        rcases hm3 : s2.makeTable 21 page with ⟨ok3, s3⟩
        rw [hm3] at h3 hl3 hp3
        cases ok3 with
        | false => exact ⟨h3, hp3.trans (hp2.trans hp1), .inl ⟨hl3.trans (hl2.trans hl1), nofun⟩⟩
        | true =>
          refine ⟨h3, hp3.trans (hp2.trans hp1), .inr ⟨?_, rfl, hcov⟩⟩
          rw [← hl1, ← hl2, ← hl3]

def MapKept (s : FrameSpace) (page : Nat) : Prop :=
  (s.mapPage page 0).1 = true ∧ page ∉ s.leaves.map Prod.fst ∧ s.covered (page * vmmPageSize / 2 ^ 21) = false

theorem mapPage_frame (frame frame' : Nat) : (s.mapPage page frame).1 = (s.mapPage page frame').1 := by
  unfold FrameSpace.mapPage
  split
  next => rfl
  next =>
    rcases s.makeTable 39 page with ⟨_ | _, s1⟩
    · rfl
    · dsimp only
      rcases s1.makeTable 30 page with ⟨_ | _, s2⟩
      · rfl
      · dsimp only
        rcases s2.makeTable 21 page with ⟨_ | _, s3⟩ <;> rfl

/-- What the leaves of other pages and those of a page are together. -/
theorem leaves_split (l : List (Nat × Nat)) (P : Nat × Nat → Bool) :
    (l.map Prod.snd).Perm ((l.filter P).map Prod.snd ++ (l.filter fun x => !P x).map Prod.snd) := by
  rw [← map_append]
  exact (filter_append_perm P l).symm.map _

theorem map_new_frame (h : Accounts old s.pmm (frame :: (s.held ++ out))) :
    ∃ lost, Accounts old (s.mapPage page frame).2.pmm ((s.mapPage page frame).2.held ++ (lost ++ out)) ∧
      (lost = [] ↔ MapKept s page) := by
  have htables : Accounts old s.pmm
      (s.tables.map Prod.snd ++ (s.leaves.map Prod.snd ++ (s.pml4 :: frame :: out))) := by
    refine h.perm ?_
    rw [FrameSpace.held]
    grind
  obtain ⟨hacc, hpml4, hleaves⟩ := mapPage_spec page frame htables
  rw [MapKept, mapPage_frame 0 frame]
  rcases hleaves with ⟨hsame, hcov⟩ | ⟨hset, hok, hcov⟩
  · refine ⟨[frame], hacc.perm ?_, ?_⟩
    · rw [FrameSpace.held, hsame, hpml4]
      grind
    · refine iff_of_false (cons_ne_nil _ _) fun ⟨hok, _, hno⟩ => ?_
      rw [hcov hok] at hno
      exact nomatch hno
  · refine ⟨(List.filter (fun l => !decide (l.1 ≠ page)) s.leaves).map Prod.snd, hacc.perm ?_, ?_⟩
    · have hsplit := leaves_split s.leaves fun l => decide (l.1 ≠ page)
      rw [FrameSpace.held, hset, hpml4, map_cons]
      grind
    · rw [map_eq_nil_iff, filter_eq_nil_iff]
      simp only [hok, hcov, true_and, and_true, mem_map, not_exists, not_and]
      constructor
      · intro hall l hl hpage
        exact hall l hl (by simp [hpage])
      · intro hall l hl hpage
        exact hall l hl (by simpa using hpage)

/-! ## The load -/

def PagesKept (s : FrameSpace) (page : Nat) : Nat → Prop
  | 0 => True
  | n + 1 =>
    match s.allocFrame with
    | (none, _) => True
    | (some frame, s) => MapKept s page ∧ PagesKept (s.mapPage page frame).2 (page + 1) n

theorem loadPages_spec (n : Nat) (h : Accounts old s.pmm (s.held ++ out)) :
    ∃ lost, Accounts old (s.loadPages page n).2.pmm ((s.loadPages page n).2.held ++ (lost ++ out)) ∧
      (lost = [] ↔ PagesKept s page n) := by
  induction n generalizing s page out with
  | zero => exact ⟨[], h, iff_of_true rfl trivial⟩
  | succ n ih =>
    rw [FrameSpace.loadPages, PagesKept]
    rcases allocFrame_cases h with hnone | ⟨frame, m, hsome, hacc⟩
    · rw [hnone]
      exact ⟨[], h, iff_of_true rfl trivial⟩
    · rw [hsome]
      dsimp only
      obtain ⟨lost, hmap, hkept⟩ := @map_new_frame old out { s with pmm := m } page frame hacc
      obtain ⟨lost', hload, hkept'⟩ := @ih (lost ++ out) _ (page + 1) hmap
      refine ⟨lost' ++ lost, hload.perm (by grind), ?_⟩
      rw [append_eq_nil_iff, hkept, hkept', and_comm]

def HeadersKept (data : Bytes) (size : Nat) (s : FrameSpace) (i : Nat) : Nat → Prop
  | 0 => True
  | n + 1 =>
    let entryOff := i * elfPhentsize data
    if !elfPhdrEntryFits (elfPhoff data) entryOff elfPhdrSize size then True
    else
      let ph := elfPhdrAt data (elfPhoff data + entryOff)
      if ph.type ≠ ptLoad then HeadersKept data size s (i + 1) n
      else if !(elfSumNoWrap ph.vaddr ph.memsz && elfVaddrInUserRange ph.vaddr ph.memsz vmmUserTop) then True
      else
        PagesKept s ph.firstPage (ph.endPage - ph.firstPage) ∧
          match s.loadPages ph.firstPage (ph.endPage - ph.firstPage) with
          | (false, _) => True
          | (true, s) => HeadersKept data size s (i + 1) n

theorem loadHeaders_spec (data : Bytes) (size : Nat) (n brk i : Nat) (h : Accounts old s.pmm (s.held ++ out)) :
    ∃ lost, Accounts old (s.loadHeaders data size brk i n).2.pmm ((s.loadHeaders data size brk i n).2.held ++ (lost ++ out)) ∧
      (lost = [] ↔ HeadersKept data size s i n) := by
  induction n generalizing s brk i out with
  | zero => exact ⟨[], h, iff_of_true rfl trivial⟩
  | succ n ih =>
    rw [FrameSpace.loadHeaders, HeadersKept]
    dsimp only
    split
    next => exact ⟨[], h, iff_of_true rfl trivial⟩
    next =>
      split
      next => exact ih brk (i + 1) h
      next =>
        split
        next => exact ⟨[], h, iff_of_true rfl trivial⟩
        next =>
          generalize elfPhdrAt data (elfPhoff data + i * elfPhentsize data) = ph
          obtain ⟨lost, hpages, hkept⟩ := @loadPages_spec old out s ph.firstPage (ph.endPage - ph.firstPage) h
          rcases hload : s.loadPages ph.firstPage (ph.endPage - ph.firstPage) with ⟨ok, s'⟩
          rw [hload] at hpages
          cases ok with
          | false => exact ⟨lost, hpages, by rw [hkept, and_true]⟩
          | true =>
            obtain ⟨lost', hrest, hkept'⟩ := @ih (lost ++ out) s' (max brk (ph.vaddr + ph.memsz)) (i + 1) hpages
            refine ⟨lost' ++ lost, hrest.perm (by grind), ?_⟩
            rw [append_eq_nil_iff, hkept, hkept', and_comm]

def imageBrk (data : Bytes) : Nat :=
  let headers := (List.range' 0 (elfPhnum data)).map fun i =>
    elfPhdrAt data (elfPhoff data + i * elfPhentsize data)
  let brk := (headers.filter (·.type = ptLoad)).foldl (fun brk ph => max brk (ph.vaddr + ph.memsz)) 0
  (brk + vmmPageSize - 1) / vmmPageSize * vmmPageSize

theorem loadHeaders_brk (data : Bytes) (size : Nat) {n brk brk' i : Nat} (h : (s.loadHeaders data size brk i n).1 = some brk') :
    brk' = (((List.range' i n).map fun i => elfPhdrAt data (elfPhoff data + i * elfPhentsize data)).filter
      (·.type = ptLoad)).foldl (fun brk ph => max brk (ph.vaddr + ph.memsz)) brk := by
  induction n generalizing s brk i with
  | zero => exact (Option.some.inj h).symm
  | succ n ih =>
    rw [FrameSpace.loadHeaders] at h
    dsimp only at h
    rw [range'_succ, map_cons]
    split at h
    next => exact nomatch h
    next =>
      split at h
      next htype =>
        rw [filter_cons_of_neg (by simpa using htype)]
        exact ih h
      next htype =>
        rw [filter_cons_of_pos (by simpa using htype), foldl_cons]
        split at h
        next => exact nomatch h
        next =>
          split at h
          next => exact nomatch h
          next => exact ih h

theorem elfLoad_spec (data : Bytes) (size : Nat) (hvalid : elfValidate data size = true)
    (h : Accounts old s.pmm (s.held ++ out)) :
    (∃ lost, Accounts old (s.elfLoad data size).2.pmm ((s.elfLoad data size).2.held ++ (lost ++ out)) ∧
      (lost = [] ↔ HeadersKept data size s 0 (elfPhnum data))) ∧
    ∀ brk, (s.elfLoad data size).1 = some brk → brk = imageBrk data := by
  rw [FrameSpace.elfLoad, if_neg (by simp [hvalid])]
  obtain ⟨lost, hacc, hkept⟩ := loadHeaders_spec data size (elfPhnum data) 0 0 h
  have hbrk := @loadHeaders_brk s data size (elfPhnum data) 0
  rcases hload : s.loadHeaders data size 0 0 (elfPhnum data) with ⟨end?, s'⟩
  rw [hload] at hacc
  cases end? with
  | none => exact ⟨⟨lost, hacc, hkept⟩, nofun⟩
  | some brk =>
    refine ⟨⟨lost, hacc, hkept⟩, fun brk' hbrk' => ?_⟩
    rw [← Option.some.inj hbrk', imageBrk]
    rw [← @hbrk brk 0 (by rw [hload])]

/-! ## The stack -/

def onStack (l : Nat × Nat) : Bool := stackBasePage ≤ l.1 && l.1 < stackBasePage + elfUserStackEagerPages

theorem mapRange_spec (n frame : Nat) (hlo : stackBasePage ≤ page) (hhi : page + n ≤ stackBasePage + elfUserStackEagerPages)
    (h : Accounts old s.pmm (s.tables.map Prod.snd ++ rest)) :
    Accounts old (s.mapRange page frame n).2.pmm ((s.mapRange page frame n).2.tables.map Prod.snd ++ rest) ∧
    (s.mapRange page frame n).2.pml4 = s.pml4 ∧
    (s.mapRange page frame n).2.leaves.filter (fun l => !onStack l) = s.leaves.filter fun l => !onStack l := by
  induction n generalizing s page frame with
  | zero => exact ⟨h, rfl, rfl⟩
  | succ n ih =>
    obtain ⟨hacc, hpml4, hleaves⟩ := mapPage_spec page frame h
    have hkeep : (s.mapPage page frame).2.leaves.filter (fun l => !onStack l) =
        s.leaves.filter fun l => !onStack l := by
      have hpage : ∀ f, onStack (page, f) = true := by
        intro f
        simp only [onStack, Bool.and_eq_true, decide_eq_true_eq]
        omega
      rcases hleaves with ⟨hsame, -⟩ | ⟨hset, -⟩
      · rw [hsame]
      · rw [hset, filter_cons_of_neg (by simp [hpage]), filter_filter]
        refine filter_congr fun l _ => ?_
        by_cases hl : l.1 = page
        · have hon : onStack l = true := by rw [← hpage l.2, ← hl]
          simp [hon]
        · simp [hl]
    rw [FrameSpace.mapRange]
    rcases hmap : s.mapPage page frame with ⟨ok, s'⟩
    rw [hmap] at hacc hpml4 hkeep
    cases ok with
    | false => exact ⟨hacc, hpml4, hkeep⟩
    | true =>
      obtain ⟨hrest, hpml4', hkeep'⟩ := @ih s' (page + 1) (frame + 1) (by omega) (by omega) hacc
      exact ⟨hrest, hpml4'.trans hpml4, hkeep'.trans hkeep⟩

/-- No page of the image is one of the stack. -/
def StackClear (s : FrameSpace) : Prop := ∀ l ∈ s.leaves, onStack l = false

theorem stackFailed_parts (s : FrameSpace) (addr : Nat) :
    (stackFailed s addr).leaves = s.leaves.filter (fun l => !onStack l) ∧ (stackFailed s addr).tables = s.tables ∧
    (stackFailed s addr).pml4 = s.pml4 ∧
    (stackFailed s addr).pmm = (List.range' (addr / pmmPageSize) elfUserStackEagerPages).foldl freeOne s.pmm := by
  simp only [stackFailed, FrameSpace.unmapRange, onStack, freePages_eq, and_self]

theorem stackFailed_spec {addr : Nat} {s' : FrameSpace}
    (h : Accounts old s'.pmm (s'.tables.map Prod.snd ++ (List.range' (addr / pmmPageSize) elfUserStackEagerPages ++
      (s.leaves.map Prod.snd ++ (s.pml4 :: out))))) (hpml4 : s'.pml4 = s.pml4)
    (hleaves : s'.leaves.filter (fun l => !onStack l) = s.leaves.filter fun l => !onStack l) :
    ∃ lost, Accounts old (stackFailed s' addr).pmm ((stackFailed s' addr).held ++ (lost ++ out)) ∧
      (lost = [] ↔ StackClear s) := by
  obtain ⟨hleft, htables, hpml4', hpmm⟩ := stackFailed_parts s' addr
  refine ⟨(s.leaves.filter onStack).map Prod.snd, ?_, ?_⟩
  · have hsplit := leaves_split s.leaves onStack
    rw [hpmm]
    refine Accounts.give_all _ (h.perm ?_)
    rw [FrameSpace.held, hleft, hleaves, htables, hpml4', hpml4]
    grind
  · rw [map_eq_nil_iff, filter_eq_nil_iff, StackClear]
    exact forall₂_congr fun l _ => by rw [Bool.not_eq_true]

/-! ## The failed exec -/

/-- An image that is to take the place of a process: the allocator keeps page 0 and has more
pages than an eager stack, and a space has been made from free frames. -/
structure ExecAttempt where
  env : ExecEnv
  proc : ExecProcess
  pmm : Pmm
  space : FrameSpace
  left : Pmm
  created : env.create pmm = (some space, left)
  made : Accounts pmm space.pmm space.held
  large : elfUserStackEagerPages ≤ pmm.totalPages

def RestoredAfter (fuel : Nat) (p : ExecProcess) (s : FrameSpace) (data : Bytes) (size : Nat) : Prop :=
  HeadersKept data size s 0 (elfPhnum data) ∧
  ((s.elfLoad data size).1.isSome →
    p.brk = imageBrk data ∧ p.heapStart = imageBrk data ∧
    ∀ addr pmm, (s.elfLoad data size).2.pmm.allocPages fuel elfUserStackEagerPages = some (addr, pmm) → addr ≠ 0 →
      StackClear (s.elfLoad data size).2 ∧
      ((FrameSpace.mapRange { (s.elfLoad data size).2 with pmm := pmm } stackBasePage (addr / pmmPageSize)
        elfUserStackEagerPages).1 = true → p.stackTop = vmmUserStack))

theorem failed_inj {p p' : ExecProcess} {s s' : FrameSpace} (h : some (false, p, s) = some (false, p', s')) : p = p' ∧ s = s' :=
  Prod.mk.inj (Prod.mk.inj (Option.some.inj h)).2

theorem brk_same (p : ExecProcess) (brk : Nat) :
    { p with brk := brk, heapStart := brk } = p ↔ p.brk = brk ∧ p.heapStart = brk := by
  cases p
  simp [eq_comm]

theorem brk_stack_same (p : ExecProcess) (brk top : Nat) : { p with brk := brk, heapStart := brk, stackTop := top } = p ↔
      p.brk = brk ∧ p.heapStart = brk ∧ p.stackTop = top := by
  cases p
  simp [eq_comm]

theorem stack_taken {fuel addr : Nat} {pmm : Pmm} (hlarge : elfUserStackEagerPages ≤ old.totalPages)
    (h : Accounts old s.pmm (s.held ++ out)) (hstack : s.pmm.allocPages fuel elfUserStackEagerPages = some (addr, pmm)) :
    (addr = 0 → pmm = s.pmm) ∧ (addr ≠ 0 → ∃ lost, (lost = [] ↔ StackClear s) ∧ ∀ s',
      (FrameSpace.mapRange { s with pmm := pmm } stackBasePage (addr / pmmPageSize) elfUserStackEagerPages).2 = s' →
      Accounts old (stackFailed s' addr).pmm ((stackFailed s' addr).held ++ (lost ++ out))) := by
  have hpages : 0 < elfUserStackEagerPages := by decide
  rcases allocPages_cases h.sound (by decide) (by rw [h.total]; omega) hstack with
    ⟨hzero, hsame, -⟩ | ⟨i, hi, htake, -, hfree⟩
  · exact ⟨fun _ => hsame, fun hne => absurd hzero hne⟩
  · have hfirst := (h.old_free (hfree 0 hpages)).1
    refine ⟨fun hzero => ?_, fun _ => ?_⟩
    · -- page 0 is taken, so the run does not begin there
      rw [hzero] at hi
      obtain rfl : i = 0 := (Nat.mul_eq_zero.mp hi.symm).resolve_right (by decide)
      rw [h.zero] at hfirst
      exact nomatch hfirst
    · obtain ⟨hsound, htotal, htest⟩ := takePages_spec h.sound hpages hfree
      have htaken := h.take hfree hsound htotal fun q => by
        rw [htest]
        simp [mem_range'_1, Finset.mem_Ico]
      have hdiv : addr / pmmPageSize = i := by rw [hi, Nat.mul_div_cancel i (by decide)]
      have htables : Accounts old pmm (s.tables.map Prod.snd ++
          (List.range' (addr / pmmPageSize) elfUserStackEagerPages ++
            (s.leaves.map Prod.snd ++ (s.pml4 :: out)))) := by
        rw [htake, hdiv]
        refine htaken.perm ?_
        rw [FrameSpace.held]
        grind
      obtain ⟨hmap, hpml4, hleaves⟩ := @mapRange_spec old _ { s with pmm := pmm } stackBasePage
        elfUserStackEagerPages (addr / pmmPageSize) (Nat.le_refl _) (Nat.le_refl _) htables
      obtain ⟨lost, hfailed, hclear⟩ := stackFailed_spec hmap hpml4 hleaves
      exact ⟨lost, hclear, fun s' hs' => hs' ▸ hfailed⟩

theorem load_failed (fuel : Nat) (room : Bool) (p : ExecProcess) {p' : ExecProcess} {s' : FrameSpace}
    (data : Bytes) (size : Nat) (hvalid : elfValidate data size = true) (hlarge : elfUserStackEagerPages ≤ old.totalPages)
    (h : Accounts old s.pmm (s.held ++ out)) (hrun : elfLoadIntoProcess fuel room p s data size = some (false, p', s')) :
    (∃ lost, Accounts old s'.pmm (s'.held ++ (lost ++ out)) ∧ ((p' = p ∧ lost = []) ↔ RestoredAfter fuel p s data size)) ∧
    p' = { p with brk := p'.brk, heapStart := p'.heapStart, stackTop := p'.stackTop } := by
  obtain ⟨⟨lost, hload, hkept⟩, hbrk⟩ := elfLoad_spec data size hvalid h
  rw [elfLoadIntoProcess] at hrun
  rw [RestoredAfter]
  rcases hres : s.elfLoad data size with ⟨end?, s₁⟩
  rw [hres] at hload hbrk hrun
  cases end? with
  | none =>
    obtain ⟨rfl, rfl⟩ := failed_inj hrun
    exact ⟨⟨lost, hload, by simp [hkept]⟩, rfl⟩
  | some brk =>
    obtain rfl := hbrk brk rfl
    dsimp only at hrun hload ⊢
    rcases hstack : s₁.pmm.allocPages fuel elfUserStackEagerPages with _ | ⟨addr, pmm⟩
    · rw [hstack] at hrun
      exact nomatch hrun
    · rw [hstack] at hrun
      dsimp only at hrun
      obtain ⟨hzero, htaken⟩ := stack_taken hlarge hload hstack
      by_cases haddr : addr = 0
      · rw [if_pos haddr] at hrun
        obtain ⟨rfl, rfl⟩ := failed_inj hrun
        obtain rfl := hzero haddr
        refine ⟨⟨lost, hload, ?_⟩, rfl⟩
        rw [brk_same, hkept]
        simp only [Option.isSome_some, forall_const, Option.some.injEq, Prod.mk.injEq]
        constructor
        · rintro ⟨hbrks, hheaders⟩
          exact ⟨hheaders, hbrks.1, hbrks.2, fun a m hm hne => absurd (hm.1 ▸ haddr) hne⟩
        · rintro ⟨hheaders, hbrk, hheap, -⟩
          exact ⟨⟨hbrk, hheap⟩, hheaders⟩
      · rw [if_neg haddr] at hrun
        obtain ⟨lost', hclear, hfailed⟩ := htaken haddr
        have hlost : lost' ++ lost = [] ↔ HeadersKept data size s 0 (elfPhnum data) ∧ StackClear s₁ := by
          rw [append_eq_nil_iff, hkept, hclear, and_comm]
        rcases hrange : FrameSpace.mapRange { s₁ with pmm := pmm } stackBasePage (addr / pmmPageSize)
          elfUserStackEagerPages with ⟨ok, s₂⟩
        rw [hrange] at hrun
        have hacc := hfailed s₂ (by rw [hrange])
        have hperm : ((stackFailed s₂ addr).held ++ (lost' ++ (lost ++ out))).Perm
            ((stackFailed s₂ addr).held ++ ((lost' ++ lost) ++ out)) := by rw [append_assoc]
        have hafter : (∀ a m, some (addr, pmm) = some (a, m) → a ≠ 0 → StackClear s₁ ∧
            ((FrameSpace.mapRange { s₁ with pmm := m } stackBasePage (a / pmmPageSize)
              elfUserStackEagerPages).1 = true → p.stackTop = vmmUserStack)) ↔ StackClear s₁ ∧ (ok = true → p.stackTop = vmmUserStack) := by
          constructor
          · intro hall
            have hhere := hall addr pmm rfl haddr
            rwa [hrange] at hhere
          · intro hhere a m ham _
            obtain ⟨rfl, rfl⟩ := Prod.mk.inj (Option.some.inj ham)
            rwa [hrange]
        rw [hafter]
        cases ok with
        | false =>
          obtain ⟨rfl, rfl⟩ := failed_inj hrun
          refine ⟨⟨lost' ++ lost, hacc.perm hperm, ?_⟩, rfl⟩
          rw [hlost, brk_same]
          simp only [Option.isSome_some, forall_const, Bool.false_eq_true, false_implies, and_true]
          constructor
          · rintro ⟨⟨hbrk, hheap⟩, hheaders, hclear⟩
            exact ⟨hheaders, hbrk, hheap, hclear⟩
          · rintro ⟨hheaders, hbrk, hheap, hclear⟩
            exact ⟨⟨hbrk, hheap⟩, hheaders, hclear⟩
        | true =>
          dsimp only at hrun
          split at hrun
          next =>
            obtain ⟨rfl, rfl⟩ := failed_inj hrun
            refine ⟨⟨lost' ++ lost, hacc.perm hperm, ?_⟩, rfl⟩
            rw [hlost, brk_stack_same]
            simp only [Option.isSome_some, forall_const]
            constructor
            · rintro ⟨⟨hbrk, hheap, htop⟩, hheaders, hclear⟩
              exact ⟨hheaders, hbrk, hheap, hclear, htop⟩
            · rintro ⟨hheaders, hbrk, hheap, hclear, htop⟩
              exact ⟨⟨hbrk, hheap, htop⟩, hheaders, hclear⟩
          next => exact nomatch hrun

theorem swap_back {p q : ExecProcess} {as : Option Nat}
    (h : p = { q with addressSpace := as, brk := p.brk, heapStart := p.heapStart, stackTop := p.stackTop }) :
    ({ p with addressSpace := q.addressSpace } = q ↔ p = { q with addressSpace := as }) ∧
    p.mainThread = q.mainThread ∧ p.fds = q.fds ∧ p.exitCode = q.exitCode := by
  cases p
  cases q
  simp only [ExecProcess.mk.injEq, and_true, true_and] at h ⊢
  obtain ⟨rfl, rfl, rfl, rfl⟩ := h
  simp

/-- A failed exec leaves the process's space, descriptors, exit code and thread as they were.
The rest is as it was and no frame is left exactly when the image is refused before a space is
made, or the load meets `RestoredAfter`. -/
theorem exec_failed (a : ExecAttempt) (fuel : Nat) (data : Bytes) (size : Nat) {p' : ExecProcess} {pmm' : Pmm}
    (hrun : processExecReplace fuel a.env a.proc a.pmm data size = some (false, p', pmm')) :
    (p'.addressSpace = a.proc.addressSpace ∧ p'.mainThread = a.proc.mainThread ∧ p'.fds = a.proc.fds ∧
      p'.exitCode = a.proc.exitCode) ∧
    ((p' = a.proc ∧ ∀ q, pmm'.bitmapTest q = a.pmm.bitmapTest q) ↔
      (elfValidate data size = true → RestoredAfter fuel a.proc a.space data size)) := by
  rw [processExecReplace] at hrun
  by_cases hvalid : elfValidate data size = true
  · rw [if_neg (by simp [hvalid]), a.created] at hrun
    dsimp only at hrun
    have hmade : Accounts a.pmm a.space.pmm (a.space.held ++ []) := by
      rw [append_nil]
      exact a.made
    rcases hload : elfLoadIntoProcess fuel a.env.room { a.proc with addressSpace := some a.space.pml4 }
      a.space data size with _ | ⟨ok, p₁, s₁⟩
    · rw [hload] at hrun
      exact nomatch hrun
    · rw [hload] at hrun
      cases ok with
      | true => exact nomatch hrun
      | false =>
        obtain ⟨rfl, rfl⟩ := Prod.mk.inj (Prod.mk.inj (Option.some.inj hrun)).2
        obtain ⟨⟨lost, hacc, hiff⟩, hproc⟩ := load_failed fuel a.env.room _ data size hvalid a.large hmade hload
        rw [append_nil] at hacc
        have hleft : Accounts a.pmm s₁.destroy lost := hacc.give_all s₁.held
        obtain ⟨hsame, hthread, hfds, hcode⟩ := @swap_back p₁ a.proc (some a.space.pml4) hproc
        refine ⟨⟨rfl, hthread, hfds, hcode⟩, ?_⟩
        rw [hleft.all_back, hsame]
        exact hiff.trans ⟨fun h _ => h, fun h => h hvalid⟩
  · rw [if_pos (by simpa using hvalid)] at hrun
    obtain ⟨rfl, rfl⟩ := Prod.mk.inj (Prod.mk.inj (Option.some.inj hrun)).2
    exact ⟨⟨rfl, rfl, rfl, rfl⟩, iff_of_true ⟨rfl, fun _ => rfl⟩ fun h => absurd h hvalid⟩

def bareSpace (m : Pmm) : FrameSpace := ⟨m.allocPage.2, m.allocPage.1 / pmmPageSize, [], [], fun _ => false, []⟩

theorem bareSpace_made (hsound : PmmSound m) (hzero : m.bitmapTest 0 = true) (hsome : m.allocPage.1 ≠ 0) :
    Accounts m (bareSpace m).pmm (bareSpace m).held := by
  have hnone : Accounts m m [] := ⟨hsound, hsound, rfl, hzero, nodup_nil, nofun, fun q => by simp⟩
  rcases allocPage_cases hsound with ⟨hfail, -⟩ | ⟨i, haddr, hrun, hsound', htotal, htest⟩
  · rw [hfail] at hsome
    exact absurd rfl hsome
  · have htaken := hnone.take hrun hsound' htotal fun q => by rw [htest]; simp
    have hframe : m.allocPage.1 / pmmPageSize = i := by rw [haddr, Nat.mul_div_cancel i (by decide)]
    rw [FrameSpace.held, bareSpace, hframe]
    exact htaken

def smallPmm : Pmm := ⟨fun p => !(257 ≤ p && p < 271), 271, 14, 0, 257⟩

theorem smallPmm_sound : PmmSound smallPmm where
  total := by decide
  above p hp := by
    have hhigh : ¬ p < 271 := Nat.not_lt.mpr hp
    simp [Pmm.bitmapTest, smallPmm, hhigh]
  count := by decide +kernel

def smallAttempt : ExecAttempt where
  env := ⟨fun m => (some (bareSpace m), m.allocPage.2), true, id⟩
  proc := ⟨some 9, ⟨0x400000, 0x7FFFFFF00000, 0x9000, 0x9000⟩, [some 1], 0, 0x500000, 0x480000, 0x7FFFFFF00000⟩
  pmm := smallPmm
  space := bareSpace smallPmm
  left := smallPmm.allocPage.2
  created := rfl
  made := bareSpace_made smallPmm_sound (by decide) (by decide +kernel)
  large := by decide

/-- An image without segments. -/
def bareImage : Bytes := fun i =>
  match i with
  | 0 => 0x7F
  | 1 => 0x45
  | 2 => 0x4C
  | 3 => 0x46
  | 4 => 2
  | 5 => 1
  | 16 => 2
  | 18 => 62
  | _ => 0

theorem exec_failed_small : ∃ p' pmm',
    processExecReplace 600 smallAttempt.env smallAttempt.proc smallAttempt.pmm bareImage 64 =
      some (false, p', pmm') ∧
    ((p' = smallAttempt.proc ∧ ∀ q, pmm'.bitmapTest q = smallAttempt.pmm.bitmapTest q) ↔
      (elfValidate bareImage 64 = true →
        RestoredAfter 600 smallAttempt.proc smallAttempt.space bareImage 64)) := by
  have hfails : (processExecReplace 600 smallAttempt.env smallAttempt.proc smallAttempt.pmm bareImage 64).map
      (·.1) = some false := by decide +kernel
  obtain ⟨⟨_, p', pmm'⟩, hrun, rfl⟩ := Option.map_eq_some_iff.mp hfails
  exact ⟨p', pmm', hrun, (exec_failed smallAttempt 600 bareImage 64 hrun).2⟩

/-- There are no frames for the stack: the exec fails, and the process has the break and the
heap of the image. -/
theorem failed_exec_moves_break :
    (processExecReplace 600 smallAttempt.env smallAttempt.proc smallAttempt.pmm bareImage 64).map
        (fun r => (r.1, r.2.1.brk, r.2.1.heapStart)) = some (false, 0, 0) ∧
      smallAttempt.proc.brk = 0x500000 ∧ smallAttempt.proc.heapStart = 0x480000 := by
  decide +kernel

end CapyOS.Proofs
