import CapyOS.Lib.Numerals

namespace CapyOS.Lib
open List

/-! Selection sort with swaps: when it keeps the order of what it ranks alike. -/

variable {α : Type} {key : α → Nat} {pick : List α → Nat}

/-- The element that `pick` names is swapped to the front, `n` times. -/
def selectionSort (pick : List α → Nat) : Nat → List α → List α
  | 0, l => l
  | _ + 1, [] => []
  | n + 1, a :: rest =>
    match pick (a :: rest) with
    | 0 => a :: selectionSort pick n rest
    | best + 1 => rest.getD best a :: selectionSort pick n (rest.set best a)

def PicksFirst (key : α → Nat) (pick : List α → Nat) : Prop :=
  ∀ l : List α, l ≠ [] → ∃ x, l[pick l]? = some x ∧ (∀ b ∈ l, key b ≤ key x) ∧
    ∀ j < pick l, ∀ b, l[j]? = some b → key b < key x

/-- A swap with the front only moves elements. -/
theorem swap_perm {rest : List α} {a x : α} {k : Nat} (h : rest[k]? = some x) : (x :: rest.set k a).Perm (a :: rest) := by
  induction rest generalizing k with
  | nil => simp at h
  | cons b rest ih =>
    obtain _ | k := k
    · rw [List.getElem?_cons_zero, Option.some.injEq] at h
      subst h
      exact List.Perm.swap ..
    · rw [List.getElem?_cons_succ] at h
      exact (List.Perm.swap ..).trans (((ih h).cons b).trans (List.Perm.swap ..))

/-- One turn of the sort, whatever is picked. -/
theorem selectionSort_turn (hpick : PicksFirst key pick) (n : Nat) (a : α) (rest : List α) :
    ∃ (x : α) (left : List α), (a :: rest)[pick (a :: rest)]? = some x ∧
      selectionSort pick (n + 1) (a :: rest) = x :: selectionSort pick n left ∧
      (x :: left).Perm (a :: rest) ∧ (∀ b ∈ a :: rest, key b ≤ key x) ∧
      (∀ j < pick (a :: rest), ∀ b, (a :: rest)[j]? = some b → key b < key x) ∧
      ∀ (q : Nat) (b : α), left[q]? = some b → rest[q]? = some b ∨ (b = a ∧ rest[q]? = some x) := by
  obtain ⟨x, hx, hmax, hfirst⟩ := hpick (a :: rest) (by simp)
  rw [selectionSort]
  generalize pick (a :: rest) = p at *
  obtain _ | best := p
  · rw [List.getElem?_cons_zero, Option.some.injEq] at hx
    subst hx
    exact ⟨a, rest, rfl, rfl, List.Perm.refl _, hmax, hfirst, fun q b h => .inl h⟩
  · have hbest := hx
    rw [List.getElem?_cons_succ] at hbest
    refine ⟨x, rest.set best a, hx, ?_, swap_perm hbest, hmax, hfirst, fun q b h => ?_⟩
    · simp [List.getD, hbest]
    · rw [List.getElem?_set] at h
      split at h
      next hq =>
        split at h
        · subst hq
          exact .inr ⟨(Option.some.inj h).symm, hbest⟩
        · cases h
      next => exact .inl h

theorem selectionSort_sorted (hpick : PicksFirst key pick) (n : Nat) (l : List α) (h : l.length ≤ n) :
    (selectionSort pick n l).Perm l ∧ (selectionSort pick n l).Pairwise fun a b => key b ≤ key a := by
  induction n generalizing l with
  | zero =>
    rw [Nat.le_zero, length_eq_zero_iff] at h
    subst h
    exact ⟨List.Perm.refl _, List.Pairwise.nil⟩
  | succ n ih =>
    obtain _ | ⟨a, rest⟩ := l
    · exact ⟨List.Perm.refl _, List.Pairwise.nil⟩
    obtain ⟨x, left, -, hsort, hperm, hmax, -, -⟩ := selectionSort_turn hpick n a rest
    have hlen := hperm.length_eq
    obtain ⟨hp, hs⟩ := ih left (by simp only [length_cons] at hlen h; omega)
    rw [hsort]
    refine ⟨(hp.cons x).trans hperm, List.pairwise_cons.mpr ⟨fun b hb => ?_, hs⟩⟩
    exact hmax b (hperm.subset (mem_cons_of_mem _ (hp.subset hb)))

variable [DecidableEq α] (m p : List α)

/-- Where an element of `m` stands once the places before `i` are filled as in `p`: it stands
where it stood, or, if that place is filled, where the element of that place stood. -/
inductive Lands (i : Nat) : α → Nat → Prop
  | stays (a : α) (h : i ≤ m.idxOf a) : Lands i a (m.idxOf a)
  | moved (a b : α) (q : Nat) (h : m.idxOf a < i) (hb : p[m.idxOf a]? = some b) (hq : Lands i b q) :
    Lands i a q

def Undisturbed (key : α → Nat) : Prop :=
  ∀ a ∈ m, ∀ b ∈ m, key a = key b → m.idxOf a < m.idxOf b →
    ∀ q r, Lands m p (p.idxOf a) a q → Lands m p (p.idxOf a) b r → q < r

/-- By key, the largest first, and as in `m` where keys are the same. -/
def before (key : α → Nat) (a b : α) : Prop := key b < key a ∨ (key a = key b ∧ m.idxOf a < m.idxOf b)

variable {m p} {i : Nat}

theorem Lands.unique {a : α} {q r : Nat} (hq : Lands m p i a q) (hr : Lands m p i a r) : q = r := by
  induction hq with
  | stays a h =>
    cases hr with
    | stays => rfl
    | moved b r h' => omega
  | moved a b q h hb _ ih =>
    cases hr with
    | stays h' => omega
    | moved _ b' _ h' hb' hr' =>
      have he : b' = b := Option.some.inj (hb'.symm.trans hb)
      exact ih (he ▸ hr')

/-- An element that does not stand on the next place stays where it is. -/
theorem Lands.later {a : α} {q : Nat} (h : Lands m p i a q) (hq : i + 1 ≤ q) : Lands m p (i + 1) a q := by
  induction h with
  | stays a _ => exact .stays a hq
  | moved a b q h hb _ ih => exact .moved a b q (by omega) hb (ih hq)

/-- The element on the next place goes where the one of that place stood. -/
theorem Lands.swapped {a x : α} {k q : Nat} (h : Lands m p i a k) (hk : k = i) (hx : p[i]? = some x)
    (hq : Lands m p i x q) (hlt : i + 1 ≤ q) : Lands m p (i + 1) a q := by
  induction h with
  | stays a _ => exact .moved a x q (by omega) (hk ▸ hx) (hq.later hlt)
  | moved a b k h hb _ ih => exact .moved a b q (by omega) hb (ih hk)

theorem selectionSort_from (hpick : PicksFirst key pick) (hp : p.Nodup) (hperm : p.Perm m)
    (hbefore : p.Pairwise (before m key)) (n i : Nat) (l : List α) (hn : l.length ≤ n)
    (hl : l.Perm (p.drop i)) (hlands : ∀ q b, l[q]? = some b → Lands m p i b (i + q)) : selectionSort pick n l = p.drop i ↔
      ∀ a ∈ p.drop i, ∀ b ∈ m, key a = key b → m.idxOf a < m.idxOf b →
        ∀ q r, Lands m p (p.idxOf a) a q → Lands m p (p.idxOf a) b r → q < r := by
  induction n generalizing i l with
  | zero =>
    rw [Nat.le_zero, length_eq_zero_iff] at hn
    subst hn
    rw [hl.symm.eq_nil]
    simp [selectionSort]
  | succ n ih =>
    obtain _ | ⟨a, rest⟩ := l
    · rw [hl.symm.eq_nil]
      simp [selectionSort]
    obtain ⟨x, left, hx, hsort, hxl, hmax, hfirst, hleft⟩ := selectionSort_turn hpick n a rest
    have hi : i < p.length := by
      have hlen := hl.length_eq
      rw [length_drop, length_cons] at hlen
      omega
    -- `y` is the element of place `i`
    have hdrop := drop_eq_getElem_cons hi
    generalize hy : p[i] = y at hdrop
    have hyi : p[i]? = some y := by rw [List.getElem?_eq_getElem hi, hy]
    have hidx : p.idxOf y = i := by rw [← hy]; exact List.Nodup.idxOf_getElem hp i hi
    have hyl : y ∈ a :: rest := hl.symm.subset (hdrop ▸ mem_cons_self)
    have hafter : ∀ b ∈ p.drop (i + 1), before m key y b := by
      have hs := hbefore.sublist (drop_sublist i p)
      rw [hdrop] at hs
      exact (List.pairwise_cons.mp hs).1
    have hyb : ∀ b ∈ a :: rest, b = y ∨ before m key y b := by
      intro b hb
      have hmem := hl.subset hb
      rw [hdrop, mem_cons] at hmem
      exact hmem.imp_right (hafter b)
    have hxm : x ∈ a :: rest := hxl.subset mem_cons_self
    have hkey : key x = key y := by
      have h1 := hmax y hyl
      rcases hyb x hxm with rfl | h | h
      · rfl
      · omega
      · exact h.1.symm
    obtain ⟨s, hs⟩ := mem_iff_getElem?.mp hyl
    have hpicked : pick (a :: rest) ≤ s := by
      by_contra hlt
      have := hfirst s (by omega) y hs
      omega
    rw [hsort, hdrop]
    by_cases hxy : x = y
    · subst hxy
      have hnd : (a :: rest).Nodup := (hl.nodup_iff).mpr (hp.sublist (drop_sublist _ _))
      have hperm' : left.Perm (p.drop (i + 1)) := by
        have h := hxl.trans hl
        rw [hdrop] at h
        exact h.cons_inv
      have hlands' : ∀ q b, left[q]? = some b → Lands m p (i + 1) b (i + 1 + q) := by
        intro q b hq
        rcases hleft q b hq with h | ⟨rfl, h⟩
        · have := hlands (q + 1) b (by rw [List.getElem?_cons_succ]; exact h)
          exact Nat.add_right_comm i q 1 ▸ this.later (by omega)
        · have h0 := hlands 0 b rfl
          have hq' := hlands (q + 1) x (by rw [List.getElem?_cons_succ]; exact h)
          rw [show i + (q + 1) = i + 1 + q by omega] at hq'
          exact h0.swapped rfl hyi hq' (by omega)
      have hlen := hxl.length_eq
      rw [List.cons.injEq, ih (i + 1) left (by simp only [length_cons] at hlen hn; omega) hperm' hlands']
      simp only [true_and, mem_cons, forall_eq_or_imp]
      refine ⟨fun h => ⟨fun b hb hk hlt q r hq hr => ?_, h⟩, fun h => h.2⟩
      -- the first of its key was picked
      rw [hidx] at hq hr
      have hbl : b ∈ a :: rest := by
        have hbp := hperm.symm.subset hb
        have hsplit := hbefore
        rw [← take_append_drop i p, pairwise_append] at hsplit
        rw [← take_append_drop i p, mem_append] at hbp
        rcases hbp with ht | hd
        · rcases hsplit.2.2 b ht x (by rw [hdrop]; exact mem_cons_self) with h' | h'
          · omega
          · omega
        · exact hl.symm.subset hd
      obtain ⟨t, ht⟩ := mem_iff_getElem?.mp hbl
      have hqx := hq.unique (hlands _ _ hx)
      have hrb := hr.unique (hlands _ _ ht)
      have hle : pick (a :: rest) ≤ t := by
        by_contra hc
        have := hfirst t (by omega) b ht
        omega
      have hne : pick (a :: rest) ≠ t := by
        intro he
        rw [← he, hx] at ht
        obtain rfl := Option.some.inj ht
        omega
      omega
    · -- another one of the same key stands before `y`
      constructor
      · intro h
        exact absurd (List.cons.inj h).1 hxy
      · intro h
        exfalso
        have hlt : m.idxOf y < m.idxOf x := by
          rcases hyb x hxm with h' | h' | h'
          · exact absurd h' hxy
          · omega
          · exact h'.2
        have hmx : x ∈ m := hperm.subset (drop_subset i p (hl.subset hxm))
        have := h y mem_cons_self x hmx hkey.symm hlt _ _ (hidx.symm ▸ hlands _ _ hs) (hidx.symm ▸ hlands _ _ hx)
        omega

theorem selectionSort_stable (hpick : PicksFirst key pick) (hm : m.Nodup) (hperm : p.Perm m)
    (hbefore : p.Pairwise (before m key)) : selectionSort pick m.length m = p ↔ Undisturbed m p key := by
  have hp := (hperm.nodup_iff).mpr hm
  have h := selectionSort_from hpick hp hperm hbefore m.length 0 m (Nat.le_refl _) hperm.symm (by
    intro q b hq
    obtain ⟨hlt, rfl⟩ := List.getElem?_eq_some_iff.mp hq
    have hidx := List.Nodup.idxOf_getElem hm q hlt
    rw [Nat.zero_add]
    have hstay : Lands m p 0 m[q] (m.idxOf m[q]) := .stays m[q] (Nat.zero_le _)
    rwa [hidx] at hstay)
  rw [drop_zero] at h
  rw [h]
  exact forall_congr' fun a => by rw [hperm.mem_iff]

end CapyOS.Lib
