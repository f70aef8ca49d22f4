import CapyOS.Lib.Numerals

namespace CapyOS.Lib
open Function List

section
variable {K V : Type} [DecidableEq K]

/-- The contents of a store after a sequence of writes, oldest first. -/
def applyWrites (m : K → V) : List (K × V) → K → V
  | [] => m
  | w :: ws => applyWrites (update m w.1 w.2) ws

@[simp] theorem applyWrites_nil (m : K → V) : applyWrites m [] = m := rfl

theorem applyWrites_append (m : K → V) (xs ys : List (K × V)) :
    applyWrites m (xs ++ ys) = applyWrites (applyWrites m xs) ys := by
  induction xs generalizing m with
  | nil => rfl
  | cons x xs ih => exact ih _

theorem applyWrites_other {m : K → V} {ws : List (K × V)} {k : K} (h : k ∉ ws.map Prod.fst) : applyWrites m ws k = m k := by
  induction ws generalizing m with
  | nil => rfl
  | cons w ws ih =>
    simp only [map_cons, mem_cons, not_or] at h
    rw [applyWrites, ih h.2, update_of_ne h.1]

/-- A written key no longer depends on what was stored before. -/
theorem applyWrites_written {ws : List (K × V)} {k : K} (m m' : K → V)
    (h : k ∈ ws.map Prod.fst) : applyWrites m ws k = applyWrites m' ws k := by
  induction ws generalizing m m' with
  | nil => simp at h
  | cons w ws ih =>
    simp only [applyWrites]
    by_cases ht : k ∈ ws.map Prod.fst
    · exact ih _ _ ht
    · have hk : k = w.1 := by simpa [ht] using h
      rw [applyWrites_other ht, applyWrites_other ht, hk, update_self, update_self]

theorem applyWrites_congr {m m' : K → V} {k : K} (ws : List (K × V)) (h : m k = m' k) :
    applyWrites m ws k = applyWrites m' ws k := by
  by_cases hk : k ∈ ws.map Prod.fst
  · exact applyWrites_written m m' hk
  · rw [applyWrites_other hk, applyWrites_other hk, h]

/-- With distinct keys every write is the last one to its key. -/
theorem applyWrites_of_mem {m : K → V} {ws : List (K × V)} {k : K} {v : V}
    (hn : (ws.map Prod.fst).Nodup) (h : (k, v) ∈ ws) : applyWrites m ws k = v := by
  induction ws generalizing m with
  | nil => simp at h
  | cons w ws ih =>
    simp only [map_cons, nodup_cons] at hn
    rcases List.mem_cons.mp h with he | ht
    · subst he
      rw [applyWrites, applyWrites_other hn.1, update_self]
    · exact ih hn.2 ht

theorem applyWrites_mem {m : K → V} {ws : List (K × V)} {k : K} (h : k ∈ ws.map Prod.fst) : (k, applyWrites m ws k) ∈ ws := by
  induction ws generalizing m with
  | nil => simp at h
  | cons w ws ih =>
    by_cases ht : k ∈ ws.map Prod.fst
    · exact mem_cons_of_mem _ (ih ht)
    · have hk : k = w.1 := by simpa [ht] using h
      rw [applyWrites, applyWrites_other ht, hk, update_self]
      exact mem_cons_self

/-- Dropping writes to other keys does not matter for a key. -/
theorem applyWrites_filter {m : K → V} {ws : List (K × V)} {k : K} {f : K × V → Bool}
    (h : ∀ w ∈ ws, w.1 = k → f w = true) : applyWrites m (ws.filter f) k = applyWrites m ws k := by
  induction ws generalizing m with
  | nil => rfl
  | cons w ws ih =>
    have ht : ∀ m, applyWrites m (ws.filter f) k = applyWrites m ws k :=
      fun m => ih (fun x hx => h x (mem_cons_of_mem _ hx))
    rw [filter_cons, applyWrites]
    split
    · exact ht _
    · rename_i hf
      have hk : w.1 ≠ k := fun he => hf (h w mem_cons_self he)
      rw [ht]
      exact applyWrites_congr ws (by rw [update_of_ne (Ne.symm hk)])

theorem applyWrites_redo (m : K → V) (ws : List (K × V)) (n : Nat) :
    applyWrites (applyWrites m (ws.take n)) ws = applyWrites m ws := by
  funext k
  by_cases hk : k ∈ ws.map Prod.fst
  · exact applyWrites_written _ _ hk
  · have hp : k ∉ (ws.take n).map Prod.fst := by
      intro hm
      obtain ⟨w, hw, he⟩ := List.mem_map.mp hm
      exact hk (List.mem_map.mpr ⟨w, mem_of_mem_take hw, he⟩)
    rw [applyWrites_other hk, applyWrites_other hk, applyWrites_other hp]

end

variable {S A : Type}

theorem foldl_invariant {step : S → A → S} {P : S → Prop} (keep : ∀ s a, P s → P (step s a))
    (as : List A) (s : S) (h : P s) : P (as.foldl step s) := by
  induction as generalizing s with
  | nil => exact h
  | cons a as ih => exact ih _ (keep s a h)

end CapyOS.Lib
