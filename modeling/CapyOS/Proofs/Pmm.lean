import CapyOS.Memory.Pmm

namespace CapyOS.Proofs
open Pmm List Nat
variable {i count : Nat} {pmm : Pmm} {t : Pmm}

def freeSet (s : Pmm) : Finset Nat := (Finset.range s.totalPages).filter fun p => s.bitmapTest p = false

/-- The allocator between any two steps of its loops. -/
structure PmmSound (s : Pmm) : Prop where
  total : s.totalPages ≤ pmmBitmapBits
  above : ∀ p, s.totalPages ≤ p → s.bitmapTest p = true
  count : s.freeCount = (freeSet s).card

section
variable {s : Pmm} {p q : Nat}

@[simp] theorem bitmapSet_test : (s.bitmapSet p).bitmapTest q = (decide (q = p) || s.bitmapTest q) := by
  unfold Pmm.bitmapSet
  by_cases hp : p < pmmBitmapBits
  · by_cases hq : q = p
    · simp [Pmm.bitmapTest, hq, hp]
    · simp [Pmm.bitmapTest, hq, hp]
  · by_cases hq : q = p
    · simp [Pmm.bitmapTest, hq, hp]
    · simp [hq, hp]

@[simp] theorem bitmapSet_total : (s.bitmapSet p).totalPages = s.totalPages := by
  unfold Pmm.bitmapSet
  split <;> rfl

theorem bitmapClear_test (h : p < pmmBitmapBits) : (s.bitmapClear p).bitmapTest q = (!decide (q = p) && s.bitmapTest q) := by
  unfold Pmm.bitmapClear Pmm.bitmapTest
  by_cases hq : q = p
  · simp [h, hq]
  · simp [h, hq]

@[simp] theorem bitmapClear_total : (s.bitmapClear p).totalPages = s.totalPages := by
  unfold Pmm.bitmapClear
  split <;> rfl

theorem mem_freeSet : p ∈ freeSet s ↔ p < s.totalPages ∧ s.bitmapTest p = false := by
  simp [freeSet]

theorem take_sound (h : PmmSound s) (hfree : s.bitmapTest p = false)
    (htotal : t.totalPages = s.totalPages) (htest : ∀ q, t.bitmapTest q = (decide (q = p) || s.bitmapTest q))
    (hcount : t.freeCount = s.freeCount - 1) : PmmSound t where
  total := htotal ▸ h.total
  above := by
    intro q hq
    rw [htest, h.above q (htotal ▸ hq), Bool.or_true]
  count := by
    have hlt : p < s.totalPages := by
      by_contra hge
      rw [h.above p (Nat.le_of_not_lt hge)] at hfree
      exact nomatch hfree
    have hp : p ∈ freeSet s := mem_freeSet.mpr ⟨hlt, hfree⟩
    have hset : freeSet t = (freeSet s).erase p := by
      ext q
      simp [mem_freeSet, htest, htotal]
      tauto
    rw [hcount, h.count, hset, Finset.card_erase_of_mem hp]

theorem give_sound (h : PmmSound s) (hp : p < s.totalPages) (htaken : s.bitmapTest p = true)
    (htotal : t.totalPages = s.totalPages) (htest : ∀ q, t.bitmapTest q = (!decide (q = p) && s.bitmapTest q))
    (hcount : t.freeCount = s.freeCount + 1) : PmmSound t where
  total := htotal ▸ h.total
  above := by
    intro q hq
    have hne : q ≠ p := by omega
    rw [htest, h.above q (htotal ▸ hq)]
    simp [hne]
  count := by
    have hnot : p ∉ freeSet s := by
      rw [mem_freeSet, htaken]
      exact fun hmem => nomatch hmem.2
    have hset : freeSet t = insert p (freeSet s) := by
      ext q
      by_cases hq : q = p
      · simp [mem_freeSet, htest, htotal, hq, hp]
      · simp [mem_freeSet, htest, htotal, hq]
    rw [hcount, h.count, hset, Finset.card_insert_of_notMem hnot]

theorem reserveOne_test : (s.reserveOne p).bitmapTest q = (decide (q = p) || s.bitmapTest q) := by
  unfold Pmm.reserveOne
  split
  next htaken =>
    by_cases hq : q = p
    · simp [hq, htaken]
    · simp [hq]
  next => exact bitmapSet_test

@[simp] theorem reserveOne_total : (s.reserveOne p).totalPages = s.totalPages := by
  unfold Pmm.reserveOne
  split
  · rfl
  · exact bitmapSet_total

theorem reserveOne_sound (h : PmmSound s) : PmmSound (s.reserveOne p) := by
  by_cases htaken : s.bitmapTest p = true
  · rw [Pmm.reserveOne, if_pos htaken]
    exact h
  · refine take_sound h (Bool.eq_false_iff.mpr htaken) reserveOne_total (fun q => reserveOne_test) ?_
    rw [Pmm.reserveOne, if_neg htaken]
    dsimp only
    split
    · rfl
    · omega

theorem freeOne_test (h : PmmSound s) :
    (s.freeOne p).bitmapTest q = (!decide (q = p ∧ p < s.totalPages) && s.bitmapTest q) := by
  unfold Pmm.freeOne
  split
  next htaken =>
    have hbit : p < pmmBitmapBits := Nat.lt_of_lt_of_le htaken.1 h.total
    refine (@bitmapClear_test s p q hbit).trans ?_
    simp [htaken.1]
  next htaken =>
    by_cases hq : q = p ∧ p < s.totalPages
    · obtain ⟨rfl, hlt⟩ := hq
      have hfree : s.bitmapTest q = false := Bool.eq_false_iff.mpr fun ht => htaken ⟨hlt, ht⟩
      simp [hfree]
    · simp [hq]

@[simp] theorem freeOne_total : (s.freeOne p).totalPages = s.totalPages := by
  unfold Pmm.freeOne
  split
  · exact bitmapClear_total
  · rfl

theorem freeOne_sound (h : PmmSound s) : PmmSound (s.freeOne p) := by
  by_cases htaken : p < s.totalPages ∧ s.bitmapTest p = true
  · refine give_sound h htaken.1 htaken.2 freeOne_total (fun q => ?_) ?_
    · rw [freeOne_test h]
      simp [htaken.1]
    · rw [Pmm.freeOne, if_pos htaken]
  · rw [Pmm.freeOne, if_neg htaken]
    exact h

theorem releaseOne_test (h : PmmSound s) :
    (s.releaseOne p).bitmapTest q = (!decide (q = p ∧ p < s.totalPages) && s.bitmapTest q) := by
  unfold Pmm.releaseOne
  split
  next hlt =>
    have hbit : p < pmmBitmapBits := Nat.lt_of_lt_of_le hlt h.total
    refine (@bitmapClear_test s p q hbit).trans ?_
    simp [hlt]
  next hlt => simp [hlt]

@[simp] theorem releaseOne_total : (s.releaseOne p).totalPages = s.totalPages := by
  unfold Pmm.releaseOne
  split
  · exact bitmapClear_total
  · rfl

theorem releaseOne_sound (h : PmmSound s) (htaken : s.bitmapTest p = true) : PmmSound (s.releaseOne p) := by
  by_cases hlt : p < s.totalPages
  · refine give_sound h hlt htaken releaseOne_total (fun q => ?_) ?_
    · rw [releaseOne_test h]
      simp [hlt]
    · rw [Pmm.releaseOne, if_pos hlt]
  · rw [Pmm.releaseOne, if_neg hlt]
    exact h

end

section
variable {s : Pmm} {pages : List Nat}

theorem reserve_fold (h : PmmSound s) :
    PmmSound (pages.foldl reserveOne s) ∧ (pages.foldl reserveOne s).totalPages = s.totalPages ∧
    ∀ q, (pages.foldl reserveOne s).bitmapTest q = (decide (q ∈ pages) || s.bitmapTest q) := by
  induction pages generalizing s with
  | nil => exact ⟨h, rfl, by simp⟩
  | cons p pages ih =>
    obtain ⟨hsound, htotal, htest⟩ := ih (reserveOne_sound (p := p) h)
    refine ⟨hsound, by rw [foldl_cons, htotal, reserveOne_total], ?_⟩
    intro q
    rw [foldl_cons, htest, reserveOne_test]
    by_cases hq : q = p <;> simp [hq]

theorem free_fold (h : PmmSound s) : PmmSound (pages.foldl freeOne s) ∧ (pages.foldl freeOne s).totalPages = s.totalPages ∧
    ∀ q, (pages.foldl freeOne s).bitmapTest q = (!decide (q ∈ pages ∧ q < s.totalPages) && s.bitmapTest q) := by
  induction pages generalizing s with
  | nil => exact ⟨h, rfl, by simp⟩
  | cons p pages ih =>
    obtain ⟨hsound, htotal, htest⟩ := ih (freeOne_sound (p := p) h)
    refine ⟨hsound, by rw [foldl_cons, htotal, freeOne_total], ?_⟩
    intro q
    rw [foldl_cons, htest, freeOne_test h, freeOne_total]
    by_cases hq : q = p
    · subst hq
      by_cases hlt : q < s.totalPages <;> simp [hlt]
    · simp [hq]

theorem release_fold (h : PmmSound s) (hnodup : pages.Nodup) (htaken : ∀ p ∈ pages, s.bitmapTest p = true) :
    PmmSound (pages.foldl releaseOne s) ∧ (pages.foldl releaseOne s).totalPages = s.totalPages ∧
    ∀ q, (pages.foldl releaseOne s).bitmapTest q = (!decide (q ∈ pages ∧ q < s.totalPages) && s.bitmapTest q) := by
  induction pages generalizing s with
  | nil => exact ⟨h, rfl, by simp⟩
  | cons p pages ih =>
    obtain ⟨hnot, hnodup⟩ := nodup_cons.mp hnodup
    have hrest : ∀ q ∈ pages, (s.releaseOne p).bitmapTest q = true := by
      intro q hq
      have hne : q ≠ p := by
        rintro rfl
        exact hnot hq
      rw [releaseOne_test h, htaken q (mem_cons_of_mem _ hq)]
      simp [hne]
    obtain ⟨hsound, htotal, htest⟩ := ih (releaseOne_sound h (htaken p mem_cons_self)) hnodup hrest
    refine ⟨hsound, by rw [foldl_cons, htotal, releaseOne_total], ?_⟩
    intro q
    rw [foldl_cons, htest, releaseOne_test h, releaseOne_total]
    by_cases hq : q = p
    · subst hq
      by_cases hlt : q < s.totalPages <;> simp [hlt]
    · simp [hq]

end

section
variable {s : Pmm} {i j count fuel : Nat}

/-- A run of free pages. -/
def FreeRun (s : Pmm) (i count : Nat) : Prop := ∀ j < count, s.bitmapTest (i + j) = false

theorem freeRun_bound (h : PmmSound s) (hcount : 0 < count) (hrun : FreeRun s i count) : i + count ≤ s.totalPages := by
  by_contra hgt
  have hlast := hrun (count - 1) (by omega)
  rw [h.above (i + (count - 1)) (by omega)] at hlast
  exact nomatch hlast

theorem obstacle_some (hj : s.obstacle i count = some j) :
    j < count ∧ s.bitmapTest ((i + j) % 2 ^ 64) = true ∧ ∀ k < j, s.bitmapTest ((i + k) % 2 ^ 64) = false := by
  obtain ⟨htaken, hlt, hfirst⟩ := List.find?_range_eq_some.mp hj
  refine ⟨List.mem_range.mp hlt, htaken, ?_⟩
  intro k hk
  simpa using hfirst k hk

theorem obstacle_none (hj : s.obstacle i count = none) : ∀ k < count, s.bitmapTest ((i + k) % 2 ^ 64) = false := by
  intro k hk
  simpa using List.find?_range_eq_none.mp hj k hk

/-- Free pages in a row, read off with the sum in a `uint64_t`, do not reach past the pages
there are, since the first page behind them reads as taken. -/
theorem clear_bound (h : PmmSound s) (hi : i < 2 ^ 64)
    (hclear : ∀ k < j, s.bitmapTest ((i + k) % 2 ^ 64) = false) : i + j ≤ max i s.totalPages := by
  by_contra hgt
  have hk := hclear (s.totalPages - i) (by omega)
  have htotal := h.total
  have hbits : pmmBitmapBits < 2 ^ 64 := by decide
  rw [mod_eq_of_lt (by omega), h.above _ (by omega)] at hk
  exact nomatch hk

theorem obstacle_none_run (h : PmmSound s) (hi : i < 2 ^ 64) (hcount : 0 < count)
    (hj : s.obstacle i count = none) : FreeRun s i count := by
  have hbound := clear_bound h hi (obstacle_none hj)
  have htotal := h.total
  have hbits : pmmBitmapBits < 2 ^ 64 := by decide
  intro k hk
  have hclear := obstacle_none hj k hk
  rwa [mod_eq_of_lt (by omega)] at hclear

theorem obstacle_some_next (h : PmmSound s) (hlow : i + 1 < 2 ^ 64) (hj : s.obstacle i count = some j)
    (hnone : ∀ k < i, ¬ FreeRun s k count) : i + j + 1 < 2 ^ 64 ∧ ∀ k < i + j + 1, ¬ FreeRun s k count := by
  obtain ⟨hlt, htaken, hclear⟩ := obstacle_some hj
  have hbound := clear_bound h (by omega) hclear
  have htotal := h.total
  have hbits : pmmBitmapBits + 1 < 2 ^ 64 := by decide
  refine ⟨by omega, ?_⟩
  intro k hk hrun
  by_cases hki : k < i
  · exact hnone k hki hrun
  · have hfree := hrun (i + j - k) (by omega)
    rw [mod_eq_of_lt (by omega)] at htaken
    rw [show k + (i + j - k) = i + j by omega, htaken] at hfree
    exact nomatch hfree

/-- The bound of the search is right, or above all pages, unless one page more is asked
for than there are. -/
theorem searchBound_cases (h : PmmSound s) (hlt : count < 2 ^ 64) (hne : count ≠ s.totalPages + 1) :
    (count ≤ s.totalPages ∧ s.searchBound count = s.totalPages - count) ∨
    (s.totalPages < count ∧ s.searchBound count + 1 < 2 ^ 64) := by
  have hbits : s.totalPages < 2 ^ 64 := lt_of_le_of_lt h.total (by decide)
  unfold Pmm.searchBound
  by_cases hle : count ≤ s.totalPages
  · refine .inl ⟨hle, ?_⟩
    rw [Nat.sub_add_comm hle, add_mod_right, mod_eq_of_lt (lt_of_le_of_lt (sub_le _ _) hbits)]
  · have hmore := not_le.mp hle
    have hlow : s.totalPages + 2 ^ 64 - count < 2 ^ 64 :=
      Nat.sub_lt_right_of_lt_add (le_of_lt (lt_of_lt_of_le hlt (Nat.le_add_left _ _)))
        (by rw [Nat.add_comm]; exact Nat.add_lt_add_left hmore _)
    refine .inr ⟨hmore, ?_⟩
    rw [mod_eq_of_lt hlow]
    omega

theorem searchBound_lt (h : PmmSound s) (hlt : count < 2 ^ 64) (hne : count ≠ s.totalPages + 1) :
    s.searchBound count + 1 < 2 ^ 64 := by
  have htotal := h.total
  have hbits : pmmBitmapBits + 1 < 2 ^ 64 := by decide
  rcases searchBound_cases h hlt hne with ⟨-, hbound⟩ | ⟨-, hbound⟩
  · omega
  · exact hbound

theorem search_sound (h : PmmSound s) (hcount : 0 < count) (hlt : count < 2 ^ 64)
    (hne : count ≠ s.totalPages + 1) {r : Option Nat} (hnone : ∀ k < i, ¬ FreeRun s k count)
    (hr : s.search count fuel i = some r) : (r = none ∧ ∀ k, ¬ FreeRun s k count) ∨ ∃ k, r = some k ∧ FreeRun s k count := by
  induction fuel generalizing i with
  | zero => exact nomatch hr
  | succ fuel ih =>
    rw [Pmm.search] at hr
    split at hr
    next hle =>
      have hlow := searchBound_lt h hlt hne
      split at hr
      next j hj =>
        obtain ⟨hbound, hnext⟩ := obstacle_some_next h (by omega) hj hnone
        rw [mod_eq_of_lt hbound] at hr
        exact ih hnext hr
      next hj =>
        cases hr
        exact .inr ⟨i, rfl, obstacle_none_run h (by omega) hcount hj⟩
    next hgt =>
      cases hr
      refine .inl ⟨rfl, ?_⟩
      intro k hrun
      have hfits := freeRun_bound h hcount hrun
      rcases searchBound_cases h hlt hne with ⟨-, hbound⟩ | ⟨hmore, -⟩
      · exact hnone k (by omega) hrun
      · omega

theorem search_ends (h : PmmSound s) (hlt : count < 2 ^ 64) (hne : count ≠ s.totalPages + 1) :
    ∃ fuel r, s.search count fuel i = some r := by
  have hlow := searchBound_lt h hlt hne
  generalize hd : s.searchBound count + 1 - i = d
  induction d using Nat.strongRecOn generalizing i with
  | ind d ih =>
    by_cases hle : i ≤ s.searchBound count
    · cases hj : s.obstacle i count with
      | none => exact ⟨1, some i, by rw [Pmm.search, if_pos hle, hj]⟩
      | some j =>
        have hbound := clear_bound h (by omega) (obstacle_some hj).2.2
        have htotal := h.total
        have hbits : pmmBitmapBits + 1 < 2 ^ 64 := by decide
        obtain ⟨fuel, r, hr⟩ := @ih (s.searchBound count + 1 - (i + j + 1)) (by omega) (i + j + 1) rfl
        refine ⟨fuel + 1, r, ?_⟩
        rw [Pmm.search, if_pos hle, hj]
        dsimp only
        rw [mod_eq_of_lt (by omega), hr]
    · exact ⟨1, none, by rw [Pmm.search, if_neg hle]⟩

theorem search_never_ends (h : PmmSound s) (hi : i < 2 ^ 64) : s.search (s.totalPages + 1) fuel i = none := by
  have htotal := h.total
  have hbits : pmmBitmapBits + 1 < 2 ^ 64 := by decide
  have hbound : s.searchBound (s.totalPages + 1) = 2 ^ 64 - 1 := by
    unfold Pmm.searchBound
    omega
  induction fuel generalizing i with
  | zero => rfl
  | succ fuel ih =>
    rw [Pmm.search, if_pos (by omega)]
    cases hj : s.obstacle i (s.totalPages + 1) with
    | none =>
      have hrun := freeRun_bound h (by omega) (obstacle_none_run h hi (by omega) hj)
      omega
    | some j => exact ih (mod_lt _ (by decide))

theorem takePages_test (pages : List Nat) (s : Pmm) (q : Nat) :
    (pages.foldl (fun s j => s.bitmapSet (i + j)) s).bitmapTest q = (decide (∃ j ∈ pages, q = i + j) || s.bitmapTest q) ∧
    (pages.foldl (fun s j => s.bitmapSet (i + j)) s).totalPages = s.totalPages := by
  induction pages generalizing s with
  | nil => simp
  | cons p pages ih =>
    obtain ⟨htest, htotal⟩ := ih (s.bitmapSet (i + p))
    rw [foldl_cons, htest, htotal, bitmapSet_test, bitmapSet_total]
    refine ⟨?_, rfl⟩
    by_cases hq : q = i + p
    · simp [hq]
    · simp [hq]

theorem takePages_spec (h : PmmSound s) (hcount : 0 < count) (hrun : FreeRun s i count) :
    PmmSound (s.takePages i count) ∧ (s.takePages i count).totalPages = s.totalPages ∧
    ∀ q, (s.takePages i count).bitmapTest q = (decide (q ∈ Finset.Ico i (i + count)) || s.bitmapTest q) := by
  have htotal : (s.takePages i count).totalPages = s.totalPages := (takePages_test _ s 0).2
  have htest : ∀ q, (s.takePages i count).bitmapTest q =
      (decide (q ∈ Finset.Ico i (i + count)) || s.bitmapTest q) := by
    intro q
    refine ((takePages_test (range count) s q).1).trans ?_
    have hmem : (∃ j ∈ range count, q = i + j) ↔ q ∈ Finset.Ico i (i + count) := by
      simp only [mem_range, Finset.mem_Ico]
      constructor
      · rintro ⟨j, hj, rfl⟩
        omega
      · intro hq
        exact ⟨q - i, by omega, by omega⟩
    simp only [hmem]
  have hsub : Finset.Ico i (i + count) ⊆ freeSet s := by
    intro q hq
    obtain ⟨hlow, hhigh⟩ := Finset.mem_Ico.mp hq
    have hbound := freeRun_bound h hcount hrun
    have hfree := hrun (q - i) (by omega)
    rw [show i + (q - i) = q by omega] at hfree
    exact mem_freeSet.mpr ⟨by omega, hfree⟩
  refine ⟨⟨htotal ▸ h.total, ?_, ?_⟩, htotal, htest⟩
  · intro q hq
    rw [htest, h.above q (htotal ▸ hq), Bool.or_true]
  · have hset : freeSet (s.takePages i count) = freeSet s \ Finset.Ico i (i + count) := by
      ext q
      rw [Finset.mem_sdiff, mem_freeSet, mem_freeSet, htest, htotal]
      by_cases hq : q ∈ Finset.Ico i (i + count) <;> simp [hq]
    rw [hset, Finset.card_sdiff_of_subset hsub, card_Ico, Nat.add_sub_cancel_left, ← h.count]
    rfl

/-- What a call of `pmm_alloc_pages` that returns has done. -/
theorem allocPages_cases (h : PmmSound s) (hlt : count < 2 ^ 64) (hne : count ≠ s.totalPages + 1) {addr : Nat}
    (hsome : s.allocPages fuel count = some (addr, t)) : (addr = 0 ∧ t = s ∧ (0 < count → ∀ k, ¬ FreeRun s k count)) ∨
    ∃ i, addr = i * pmmPageSize ∧ t = s.takePages i count ∧ 0 < count ∧ FreeRun s i count := by
  unfold Pmm.allocPages at hsome
  split at hsome
  next hzero =>
    cases hsome
    exact .inl ⟨rfl, rfl, fun hpos => absurd hzero (Nat.ne_of_gt hpos)⟩
  next hzero =>
    have hpos := Nat.pos_of_ne_zero hzero
    obtain ⟨r, hr, hres⟩ := Option.map_eq_some_iff.mp hsome
    rcases search_sound h hpos hlt hne (fun k hk => absurd hk (Nat.not_lt_zero k)) hr with ⟨rfl, hnone⟩ | ⟨i, rfl, hrun⟩
    · cases hres
      exact .inl ⟨rfl, rfl, fun _ => hnone⟩
    · cases hres
      exact .inr ⟨i, rfl, rfl, hpos, hrun⟩

theorem allocPage_cases (h : PmmSound s) : (s.allocPage = (0, s) ∧ ∀ k, ¬ FreeRun s k 1) ∨
    ∃ i, s.allocPage.1 = i * pmmPageSize ∧ FreeRun s i 1 ∧ PmmSound s.allocPage.2 ∧ s.allocPage.2.totalPages = s.totalPages ∧
      ∀ q, s.allocPage.2.bitmapTest q = (decide (q = i) || s.bitmapTest q) := by
  unfold Pmm.allocPage
  split
  next hfind =>
    refine .inl ⟨rfl, ?_⟩
    intro k hrun
    have hbound := freeRun_bound h (by omega) hrun
    have htaken := List.find?_range_eq_none.mp hfind k (by omega)
    have hfree := hrun 0 (by omega)
    simp only [Nat.add_zero] at hfree
    simp [hfree] at htaken
  next i hfind =>
    obtain ⟨hfree, -, -⟩ := List.find?_range_eq_some.mp hfind
    have hfree : s.bitmapTest i = false := by simpa using hfree
    refine .inr ⟨i, rfl, ?_, take_sound h hfree bitmapSet_total (fun q => bitmapSet_test) rfl,
      bitmapSet_total, fun q => bitmapSet_test⟩
    intro j hj
    rw [show i + j = i by omega]
    exact hfree

end

/-- The rounding of `pmm_init` does not run past the end of a `uint64_t`, or the region
reaches up to there and its end is 0. -/
def RoundsUp (r : PmmRegion) : Prop :=
  r.type = 1 → r.base + pmmPageSize ≤ 2 ^ 64 ∨ r.base + r.length = 2 ^ 64

def UsablePage (regions : List PmmRegion) (p : Nat) : Prop :=
  ∃ r ∈ regions, r.type = 1 ∧ r.base ≤ p * pmmPageSize ∧ (p + 1) * pmmPageSize ≤ r.base + r.length

abbrev RegionsApart (regions : List PmmRegion) : Prop :=
  regions.Pairwise fun r q => ∀ a, ¬ (r.Holds a ∧ q.Holds a)

section
variable {regions : List PmmRegion} {s : Pmm} {start length p : Nat}

def usablePages (regions : List PmmRegion) : List Nat :=
  regions.flatMap fun r => if r.type ≠ 1 then [] else r.pages

theorem mem_pages {r : PmmRegion} (hround : RoundsUp r) (htype : r.type = 1) (hp : p ∈ r.pages) :
    r.base ≤ p * pmmPageSize ∧ (p + 1) * pmmPageSize ≤ r.base + r.length := by
  have hrange := List.mem_range'_1.mp hp
  have hbase := r.base_lt
  have hfits := r.fits
  have hround := hround htype
  simp only [PmmRegion.firstPage, PmmRegion.endPage, PmmRegion.limit, pmmPageSize] at *
  by_cases hend : r.base + r.length = 2 ^ 64
  · rw [hend] at hrange
    simp at hrange
    omega
  · rw [mod_eq_of_lt (show r.base + r.length < 2 ^ 64 by omega),
      mod_eq_of_lt (show r.base + 4096 - 1 < 2 ^ 64 by omega)] at hrange
    omega

theorem usablePages_usable (hround : ∀ r ∈ regions, RoundsUp r) (hp : p ∈ usablePages regions) : UsablePage regions p := by
  obtain ⟨r, hr, hmem⟩ := mem_flatMap.mp hp
  by_cases htype : r.type = 1
  · simp only [htype, ne_eq, not_true_eq_false, if_false] at hmem
    exact ⟨r, hr, htype, mem_pages (hround r hr) htype hmem⟩
  · simp [htype] at hmem

theorem usablePages_nodup (hround : ∀ r ∈ regions, RoundsUp r) (hapart : RegionsApart regions) :
    (usablePages regions).Nodup := by
  refine nodup_flatMap.mpr ⟨?_, ?_⟩
  · intro r _
    split
    · exact nodup_nil
    · exact nodup_range'
  · refine List.Pairwise.imp_of_mem ?_ hapart
    intro r q hr hq hdisjoint p hpr hpq
    by_cases htr : r.type = 1
    · by_cases htq : q.type = 1
      · simp only [htr, htq, ne_eq, not_true_eq_false, if_false] at hpr hpq
        have hinr := mem_pages (hround r hr) htr hpr
        have hinq := mem_pages (hround q hq) htq hpq
        refine hdisjoint (p * pmmPageSize) ⟨⟨hinr.1, ?_⟩, hinq.1, ?_⟩
        · simp only [pmmPageSize] at hinr ⊢
          omega
        · simp only [pmmPageSize] at hinq ⊢
          omega
      · simp [htq] at hpq
    · simp [htr] at hpr

theorem fill_eq (s : Pmm) : regions.foldl (fun s r => if r.type ≠ 1 then s else r.pages.foldl releaseOne s) s =
      (usablePages regions).foldl releaseOne s := by
  induction regions generalizing s with
  | nil => rfl
  | cons r regions ih =>
    rw [foldl_cons, ih, usablePages, usablePages, flatMap_cons, foldl_append]
    congr 1
    split <;> rfl

/-- A loop that leaves the count of pages alone in each turn leaves it alone. -/
theorem fold_total {f : Pmm → Nat → Pmm} (hf : ∀ s p, (f s p).totalPages = s.totalPages) (pages : List Nat) (s : Pmm) :
    (pages.foldl f s).totalPages = s.totalPages := by
  induction pages generalizing s with
  | nil => rfl
  | cons p pages ih => rw [foldl_cons, ih, hf]

theorem fill_total : (fill regions).totalPages =
    min (regions.foldl (fun m r => if r.limit > m then r.limit else m) 0 / pmmPageSize) pmmBitmapBits := by
  unfold Pmm.fill
  dsimp only
  rw [fill_eq, fold_total fun s p => releaseOne_total]
  dsimp only
  split <;> omega

theorem init_total (writable : Nat → Bool) : (Pmm.init writable regions).totalPages = (fill regions).totalPages := by
  have hreadonly : ∀ (s : Pmm) (i : Nat),
      (if writable (i * pmmPageSize) then s else s.reserveOne i).totalPages = s.totalPages := by
    intro s i
    split
    · rfl
    · exact reserveOne_total
  rw [Pmm.init, reserveFirmwareReadonly, fold_total hreadonly, reserveRange, fold_total fun s p => reserveOne_total,
    reserveRange, fold_total fun s p => reserveOne_total]

theorem fill_spec (hround : ∀ r ∈ regions, RoundsUp r) (hapart : RegionsApart regions) :
    PmmSound (fill regions) ∧ ∀ q, (fill regions).bitmapTest q = false → UsablePage regions q := by
  unfold Pmm.fill
  dsimp only
  rw [fill_eq]
  generalize regions.foldl (fun m r => if r.limit > m then r.limit else m) 0 = maxAddr
  have hblank : ∀ total q, Pmm.bitmapTest ⟨fun _ => true, total, 0, 0, 0⟩ q = true := by
    intro total q
    simp [Pmm.bitmapTest]
  have hstart : PmmSound ⟨fun _ => true,
      if maxAddr / pmmPageSize > pmmBitmapBits then pmmBitmapBits else maxAddr / pmmPageSize, 0, 0, 0⟩ := by
    refine ⟨?_, fun p _ => hblank _ p, ?_⟩
    · dsimp only
      split <;> omega
    · simp [freeSet, hblank]
  obtain ⟨hsound, -, htest⟩ := release_fold hstart (usablePages_nodup hround hapart) (fun p _ => hblank _ p)
  refine ⟨hsound, ?_⟩
  intro q hq
  rw [htest, hblank] at hq
  have hmem : q ∈ usablePages regions := by
    by_contra hnot
    simp [hnot] at hq
  exact usablePages_usable hround hmem

theorem window_iff {a e t q : Nat} (hq : q < t) : (a ≤ q ∧ q < a + (min e t - a)) ↔ (a ≤ q ∧ q < e) := by
  omega

theorem reserveRange_spec (h : PmmSound s) (hok : start + length + pmmPageSize ≤ 2 ^ 64 ∨ s.totalPages * pmmPageSize ≤ start) :
    PmmSound (s.reserveRange start length) ∧ (s.reserveRange start length).totalPages = s.totalPages ∧
    ∀ q, (s.reserveRange start length).bitmapTest q = (decide (q ∈ pageSpan start length) || s.bitmapTest q) := by
  obtain ⟨hsound, htotal, htest⟩ := @reserve_fold s (List.range' (start / pmmPageSize)
    (min (endPage start length) s.totalPages - start / pmmPageSize)) h
  refine ⟨hsound, htotal, ?_⟩
  intro q
  refine (htest q).trans ?_
  by_cases hq : s.totalPages ≤ q
  · rw [h.above q hq, Bool.or_true, Bool.or_true]
  · have hiff : q ∈ List.range' (start / pmmPageSize)
        (min (endPage start length) s.totalPages - start / pmmPageSize) ↔ q ∈ pageSpan start length := by
      rw [mem_range'_1, pageSpan, Finset.mem_Ico, endPage, window_iff (not_le.mp hq)]
      rcases hok with hfits | habove
      · rw [mod_eq_of_lt (lt_of_lt_of_le (Nat.sub_one_lt (by simp [pmmPageSize])) hfits)]
      · have hbefore : ¬ start / pmmPageSize ≤ q := fun hle =>
          hq (((Nat.le_div_iff_mul_le (by decide)).mpr habove).trans hle)
        simp only [hbefore, false_and]
    simp only [hiff]

theorem reserveFirmwareReadonly_spec (h : PmmSound s) (writable : Nat → Bool) : PmmSound (s.reserveFirmwareReadonly writable) ∧
    (s.reserveFirmwareReadonly writable).totalPages = s.totalPages ∧ ∀ q, (s.reserveFirmwareReadonly writable).bitmapTest q =
      (decide (q < s.totalPages ∧ writable (q * pmmPageSize) = false) || s.bitmapTest q) := by
  have heq : s.reserveFirmwareReadonly writable =
      ((range s.totalPages).filter fun i => !writable (i * pmmPageSize)).foldl reserveOne s := by
    rw [foldl_filter, Pmm.reserveFirmwareReadonly]
    congr 1
    funext t i
    cases writable (i * pmmPageSize) <;> rfl
  obtain ⟨hsound, htotal, htest⟩ :=
    @reserve_fold s ((range s.totalPages).filter fun i => !writable (i * pmmPageSize)) h
  rw [heq]
  refine ⟨hsound, htotal, ?_⟩
  intro q
  rw [htest]
  simp

end

structure PmmStateSound (regions : List PmmRegion) (s : PmmState) : Prop where
  pmm : PmmSound s.pmm
  free : ∀ p, s.pmm.bitmapTest p = false → UsablePage regions p ∧ p ∉ s.allocated ∧ p ∉ s.reserved
  usable : ∀ p ∈ s.allocated, UsablePage regions p
  zero : 0 ∈ s.reserved ∧ 0 ∉ s.allocated

section
variable {writable : Nat → Bool} {regions : List PmmRegion} {ops : List PmmOp} {s t : PmmState}

theorem start_sound (hround : ∀ r ∈ regions, RoundsUp r) (hapart : RegionsApart regions) :
    PmmStateSound regions (.start writable regions) := by
  obtain ⟨hfill, husable⟩ := fill_spec hround hapart
  obtain ⟨hfirst, htotal₁, htest₁⟩ := @reserveRange_spec _ 0 pmmPageSize hfill (.inl (by decide))
  obtain ⟨hsecond, htotal₂, htest₂⟩ :=
    @reserveRange_spec _ pmmPageSize (pmmPageSize * 256) hfirst (.inl (by decide))
  obtain ⟨hsound, htotal₃, htest₃⟩ := reserveFirmwareReadonly_spec hsecond writable
  refine ⟨hsound, ?_, fun p hp => absurd hp (Finset.notMem_empty p), by simp [PmmState.start],
    Finset.notMem_empty 0⟩
  intro p hp
  have hp : (Pmm.init writable regions).bitmapTest p = false := hp
  have htotal : (Pmm.init writable regions).totalPages = (fill regions).totalPages :=
    htotal₃.trans (htotal₂.trans htotal₁)
  rw [Pmm.init, htest₃, htest₂, htest₁] at hp
  simp only [Bool.or_eq_false_iff, decide_eq_false_iff_not] at hp
  obtain ⟨hreadonly, hsecond, hfirst, hfree⟩ := hp
  refine ⟨husable p hfree, Finset.notMem_empty p, ?_⟩
  intro hmem
  rcases Finset.mem_union.mp hmem with hlow | hro
  · simp only [pageSpan, Finset.mem_Ico, Finset.mem_range, pmmPageSize] at hsecond hfirst hlow
    omega
  · rw [Finset.mem_filter, Finset.mem_range] at hro
    exact hreadonly ⟨by rw [htotal₂, htotal₁, ← htotal]; exact hro.1, by simpa using hro.2⟩

end

def PmmOpOk (s : PmmState) : PmmOp → Prop
  | .allocPage => True
  | .allocPages count => count ≠ s.pmm.totalPages + 1
  | .reserveRange start length =>
    start + length + pmmPageSize ≤ 2 ^ 64 ∨ s.pmm.totalPages * pmmPageSize ≤ start
  | .freePage physAddr => Disjoint (pageRun physAddr 1) s.reserved
  | .freePages physAddr count => Disjoint (pageRun physAddr count) s.reserved

section
variable {writable : Nat → Bool} {regions : List PmmRegion} {ops : List PmmOp} {s t : PmmState}

/-- A page address stands for the run of pages from that page on. -/
theorem pageRun_mul (i count : Nat) : pageRun (i * pmmPageSize) count = Finset.Ico i (i + count) := by
  rw [pageRun, Nat.mul_div_cancel i (by decide)]

theorem freeRun_mem {i count p : Nat} (hrun : FreeRun s.pmm i count) (hp : p ∈ Finset.Ico i (i + count)) :
    s.pmm.bitmapTest p = false := by
  obtain ⟨hlow, hhigh⟩ := Finset.mem_Ico.mp hp
  have hfree := hrun (p - i) (by omega)
  rwa [show i + (p - i) = p by omega] at hfree

/-- Page 0 is kept, so that no run of free pages begins there. -/
theorem freeRun_pos (h : PmmStateSound regions s) (hcount : 0 < count)
    (hrun : FreeRun s.pmm i count) : i * pmmPageSize ≠ 0 := by
  intro hzero
  have hi : i = 0 := by
    simp only [pmmPageSize] at hzero
    omega
  have hfree := hrun 0 hcount
  rw [hi] at hfree
  exact (h.free 0 hfree).2.2 h.zero.1

theorem hand_out_sound (h : PmmStateSound regions s) (hrun : FreeRun s.pmm i count) (hsound : PmmSound pmm)
    (htest : ∀ q, pmm.bitmapTest q = (decide (q ∈ Finset.Ico i (i + count)) || s.pmm.bitmapTest q)) :
    PmmStateSound regions { s with pmm := pmm, allocated := s.allocated ∪ pageRun (i * pmmPageSize) count } := by
  rw [pageRun_mul]
  refine ⟨hsound, ?_, ?_, h.zero.1, ?_⟩
  · intro p hp
    dsimp only at hp
    rw [htest, Bool.or_eq_false_iff, decide_eq_false_iff_not] at hp
    obtain ⟨husable, hout, hkept⟩ := h.free p hp.2
    exact ⟨husable, fun hmem => (Finset.mem_union.mp hmem).elim hout hp.1, hkept⟩
  · intro p hp
    rcases Finset.mem_union.mp hp with hp | hp
    · exact h.usable p hp
    · exact (h.free p (freeRun_mem hrun hp)).1
  · intro hmem
    rcases Finset.mem_union.mp hmem with hp | hp
    · exact h.zero.2 hp
    · exact (h.free 0 (freeRun_mem hrun hp)).2.2 h.zero.1

/-- Taking back pages that were handed out and that nobody asked to be kept. -/
theorem take_back_sound (h : PmmStateSound regions s) {pages : Finset Nat} (hout : pages ⊆ s.allocated)
    (hkept : Disjoint pages s.reserved) (hsound : PmmSound pmm)
    (htest : ∀ q, pmm.bitmapTest q = false → s.pmm.bitmapTest q = false ∨ q ∈ pages) :
    PmmStateSound regions { s with pmm := pmm, allocated := s.allocated \ pages } := by
  refine ⟨hsound, ?_, fun p hp => h.usable p (Finset.mem_sdiff.mp hp).1, h.zero.1,
    fun hp => h.zero.2 (Finset.mem_sdiff.mp hp).1⟩
  intro p hp
  rcases htest p hp with hfree | hmem
  · obtain ⟨husable, hnot, hres⟩ := h.free p hfree
    exact ⟨husable, fun hp => hnot (Finset.mem_sdiff.mp hp).1, hres⟩
  · exact ⟨h.usable p (hout hmem), fun hp => (Finset.mem_sdiff.mp hp).2 hmem,
      fun hres => (Finset.disjoint_left.mp hkept) hmem hres⟩

theorem freePages_eq (pmm : Pmm) (physAddr count : Nat) :
    pmm.freePages physAddr count = (List.range' (physAddr / pmmPageSize) count).foldl freeOne pmm := by
  rw [Pmm.freePages, range'_eq_map_range, foldl_map]

theorem freePages_spec (h : PmmSound pmm) (physAddr count : Nat) :
    PmmSound (pmm.freePages physAddr count) ∧ ∀ q, (pmm.freePages physAddr count).bitmapTest q = false →
      pmm.bitmapTest q = false ∨ q ∈ pageRun physAddr count := by
  rw [freePages_eq]
  obtain ⟨hsound, -, htest⟩ := @free_fold pmm (List.range' (physAddr / pmmPageSize) count) h
  refine ⟨hsound, ?_⟩
  intro q hq
  rw [htest] at hq
  by_cases hmem : q ∈ pageRun physAddr count
  · exact .inr hmem
  · have hnot : q ∉ List.range' (physAddr / pmmPageSize) count := by
      rw [mem_range'_1]
      rw [pageRun, Finset.mem_Ico] at hmem
      exact hmem
    simp only [hnot, false_and, decide_false, Bool.not_false, Bool.true_and] at hq
    exact .inl hq

theorem pmm_step_sound (h : PmmStateSound regions s) {op : PmmOp} (hok : PmmOpOk s op) (step : PmmStep s op t) :
    PmmStateSound regions t := by
  cases step with
  | allocPage =>
    rcases allocPage_cases h.pmm with ⟨heq, -⟩ | ⟨i, haddr, hrun, hsound, -, htest⟩
    · rw [heq, if_pos rfl]
      exact h
    · have hpos := freeRun_pos h Nat.one_pos hrun
      rw [haddr, if_neg hpos]
      refine hand_out_sound h hrun hsound ?_
      intro q
      rw [htest]
      congr 1
      simp only [Finset.mem_Ico, decide_eq_decide]
      omega
  | allocPages hlt hsome =>
    rcases allocPages_cases h.pmm hlt hok hsome with ⟨rfl, rfl, -⟩ | ⟨i, rfl, rfl, hcount, hrun⟩
    · rw [if_pos rfl]
      exact h
    · obtain ⟨hsound, -, htest⟩ := takePages_spec h.pmm hcount hrun
      rw [if_neg (freeRun_pos h hcount hrun)]
      exact hand_out_sound h hrun hsound htest
  | reserveRange hstart hlength =>
    obtain ⟨hsound, -, htest⟩ := reserveRange_spec h.pmm hok
    refine ⟨hsound, ?_, h.usable, Finset.mem_union_left _ h.zero.1, h.zero.2⟩
    intro p hp
    dsimp only at hp
    rw [htest, Bool.or_eq_false_iff, decide_eq_false_iff_not] at hp
    obtain ⟨husable, hout, hkept⟩ := h.free p hp.2
    exact ⟨husable, hout, fun hmem => (Finset.mem_union.mp hmem).elim hkept hp.1⟩
  | freePage hout =>
    obtain ⟨hsound, htest⟩ := freePages_spec h.pmm _ 1
    exact take_back_sound h hout hok hsound htest
  | freePages hout =>
    obtain ⟨hsound, htest⟩ := freePages_spec h.pmm _ _
    exact take_back_sound h hout hok hsound htest

theorem pmm_run_sound (hround : ∀ r ∈ regions, RoundsUp r) (hapart : RegionsApart regions)
    (run : PmmRun PmmOpOk writable regions ops s) : PmmStateSound regions s := by
  induction run with
  | start => exact start_sound hround hapart
  | step run hok hstep ih => exact pmm_step_sound ih hok hstep

def HandedOut (regions : List PmmRegion) (s : PmmState) (addr count : Nat) : Prop :=
  addr % pmmPageSize = 0 ∧ ∀ p ∈ pageRun addr count,
    s.pmm.bitmapTest p = false ∧ p ∉ s.allocated ∧ p ∉ s.reserved ∧ UsablePage regions p

theorem freeRun_handed (h : PmmStateSound regions s) (hrun : FreeRun s.pmm i count) :
    HandedOut regions s (i * pmmPageSize) count := by
  refine ⟨mul_mod_left i _, ?_⟩
  intro p hp
  rw [pageRun_mul] at hp
  have hfree := freeRun_mem hrun hp
  obtain ⟨husable, hout, hkept⟩ := h.free p hfree
  exact ⟨hfree, hout, hkept, husable⟩

def AllocatesRun (regions : List PmmRegion) (s : PmmState) (count : Nat) : Prop :=
  (∃ fuel r, s.pmm.allocPages fuel count = some r) ∧
  ∀ fuel addr pmm, s.pmm.allocPages fuel count = some (addr, pmm) →
    (addr = 0 ↔ ∀ i, ¬ FreeRun s.pmm i count) ∧ (addr ≠ 0 → HandedOut regions s addr count)

theorem allocPages_promised (h : PmmStateSound regions s) {count : Nat} (hcount : 0 < count) (hlt : count < 2 ^ 64)
    (hne : count ≠ s.pmm.totalPages + 1) : AllocatesRun regions s count := by
  refine ⟨?_, ?_⟩
  · obtain ⟨fuel, r, hr⟩ := search_ends (i := 0) h.pmm hlt hne
    refine ⟨fuel, Option.get (s.pmm.allocPages fuel count) ?_, (Option.some_get _).symm⟩
    rw [Pmm.allocPages, if_neg (Nat.ne_of_gt hcount), hr]
    rfl
  · intro fuel addr pmm hsome
    rcases allocPages_cases h.pmm hlt hne hsome with ⟨rfl, -, hnone⟩ | ⟨i, rfl, -, -, hrun⟩
    · exact ⟨iff_of_true rfl (hnone hcount), fun hne => absurd rfl hne⟩
    · exact ⟨iff_of_false (freeRun_pos h hcount hrun) fun hnone => hnone i hrun, fun _ => freeRun_handed h hrun⟩

/-- The page allocator over every run whose calls it serves as they are meant. -/
theorem page_allocator (hround : ∀ r ∈ regions, RoundsUp r) (hapart : RegionsApart regions)
    (run : PmmRun PmmOpOk writable regions ops s) :
    s.pmm.freeCount = (freeSet s.pmm).card ∧ 0 ∉ s.allocated ∧
    (s.pmm.allocPage.1 = 0 ↔ ∀ i, ¬ FreeRun s.pmm i 1) ∧
    (s.pmm.allocPage.1 ≠ 0 → HandedOut regions s s.pmm.allocPage.1 1) ∧
    (∀ fuel, s.pmm.allocPages fuel 0 = some (0, s.pmm)) ∧
    ∀ count, 0 < count → count < 2 ^ 64 → PmmOpOk s (.allocPages count) → AllocatesRun regions s count := by
  have h := pmm_run_sound hround hapart run
  refine ⟨h.pmm.count, h.zero.2, ?_, ?_, fun fuel => rfl, fun count => allocPages_promised h⟩
  · rcases allocPage_cases h.pmm with ⟨heq, hnone⟩ | ⟨i, haddr, hrun, -⟩
    · exact iff_of_true (by rw [heq]) hnone
    · exact iff_of_false (haddr ▸ freeRun_pos h Nat.one_pos hrun) fun hnone => hnone i hrun
  · intro hne
    rcases allocPage_cases h.pmm with ⟨heq, -⟩ | ⟨i, haddr, hrun, -⟩
    · rw [heq] at hne
      exact absurd rfl hne
    · rw [haddr]
      exact freeRun_handed h hrun

end

/-- The first two megabytes. -/
def lowRegion : PmmRegion := ⟨0, 2 * 1024 * 1024, 1, by decide, by decide⟩

theorem lowRegion_rounds : ∀ r ∈ [lowRegion], RoundsUp r := by
  intro r hr _
  rw [mem_singleton.mp hr]
  exact .inl (by decide)

theorem lowRegion_total : (PmmState.start (fun _ => true) [lowRegion]).pmm.totalPages = 512 := by
  rw [PmmState.start, init_total, fill_total]
  decide

/-- Two pages, a page kept back, and one page more. -/
theorem page_allocator_low : ∃ s, PmmRun PmmOpOk (fun _ => true) [lowRegion]
    [.allocPages 2, .reserveRange 0x100000 0x1000, .allocPage] s ∧ s.pmm.freeCount = (freeSet s.pmm).card := by
  have hapart : RegionsApart [lowRegion] := pairwise_singleton _ _
  have hok : PmmOpOk (.start (fun _ => true) [lowRegion]) (.allocPages 2) := by
    rw [PmmOpOk, lowRegion_total]
    decide
  have hpages := page_allocator lowRegion_rounds hapart (@PmmRun.start PmmOpOk (fun _ => true) [lowRegion])
  obtain ⟨⟨fuel, ⟨addr, pmm⟩, hr⟩, -⟩ := hpages.2.2.2.2.2 2 (by decide) (by decide) hok
  have hkept := (PmmRun.step .start hok (.allocPages (by decide) hr)).step
    (show PmmOpOk _ (.reserveRange 0x100000 0x1000) from .inl (by decide)) (.reserveRange (by decide) (by decide))
  have hrun := hkept.step (show PmmOpOk _ .allocPage from trivial) (.allocPage _)
  exact ⟨_, hrun, (page_allocator lowRegion_rounds hapart hrun).1⟩

/-- Of the 512 pages of the first two megabytes, 513 are asked for. -/
theorem one_page_too_many : (PmmState.start (fun _ => true) [lowRegion]).pmm.totalPages = 512 ∧
    ¬ AllocatesRun [lowRegion] (.start (fun _ => true) [lowRegion]) 513 := by
  have hsound := @start_sound (fun _ => true) [lowRegion] lowRegion_rounds (pairwise_singleton _ _)
  refine ⟨lowRegion_total, ?_⟩
  rintro ⟨⟨fuel, r, hr⟩, -⟩
  have hnever := @search_never_ends _ 0 fuel hsound.pmm (by decide)
  rw [lowRegion_total] at hnever
  rw [Pmm.allocPages, if_neg (by decide), hnever] at hr
  exact nomatch hr

end CapyOS.Proofs
