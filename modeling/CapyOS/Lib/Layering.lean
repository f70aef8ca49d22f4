import CapyOS.Lib.Numerals

namespace CapyOS.Lib
open Function List
variable {α : Type} {r : α → α → Prop} {nodes : Finset α} {order : List (α × Nat)} {wave : Nat} {a b : α}

/-! ## What is reached -/

/-- What the members of a set reach, themselves included. -/
def closureOf (r : α → α → Prop) (S : Set α) : Set α := {b | ∃ a ∈ S, Relation.ReflTransGen r a b}

theorem isLeast_closureOf (S : Set α) : IsLeast {T : Set α | S ⊆ T ∧ ∀ a ∈ T, ∀ b, r a b → b ∈ T} (closureOf r S) := by
  refine ⟨⟨fun a ha => ⟨a, ha, .refl⟩, fun a ⟨c, hc, hpath⟩ b hab => ⟨c, hc, hpath.tail hab⟩⟩, ?_⟩
  rintro T ⟨hsub, hclosed⟩ b ⟨a, ha, hpath⟩
  induction hpath with
  | refl => exact hsub ha
  | tail _ hab ih => exact hclosed _ ih _ hab

/-- Two sets reach the same when each is reached from the other. -/
theorem closureOf_eq_iff {S T : Set α} : closureOf r S = closureOf r T ↔ S ⊆ closureOf r T ∧ T ⊆ closureOf r S := by
  constructor
  · intro h
    exact ⟨h ▸ (isLeast_closureOf S).1.1, h ▸ (isLeast_closureOf T).1.1⟩
  · rintro ⟨hST, hTS⟩
    exact Set.Subset.antisymm ((isLeast_closureOf S).2 ⟨hST, (isLeast_closureOf T).1.2⟩)
      ((isLeast_closureOf T).2 ⟨hTS, (isLeast_closureOf S).1.2⟩)

/-- A cycle is reached from here. -/
def ReachesCycle (r : α → α → Prop) (a : α) : Prop := ∃ b, Relation.ReflTransGen r a b ∧ Relation.TransGen r b b

theorem reaches_cycle {s : Finset α} (h : ∀ a ∈ s, ∃ b ∈ s, r a b) (ha : a ∈ s) : ReachesCycle r a := by
  choose! next hnext hstep using h
  have hmem : ∀ n, next^[n] a ∈ s := by
    intro n
    induction n with
    | zero => exact ha
    | succ n ih =>
      rw [iterate_succ_apply']
      exact hnext _ ih
  have hpath : ∀ m k, Relation.ReflTransGen r (next^[m] a) (next^[m + k] a) := by
    intro m k
    induction k with
    | zero => exact .refl
    | succ k ih =>
      rw [Nat.add_succ, iterate_succ_apply']
      exact ih.tail (hstep _ (hmem _))
  have hloop : ∀ m k, next^[m] a = next^[m + (k + 1)] a → ReachesCycle r a := by
    intro m k heq
    refine ⟨next^[m] a, by simpa using hpath 0 m, ?_⟩
    have hlast := hstep _ (hmem (m + k))
    rw [← iterate_succ_apply' next (m + k) a, Nat.succ_eq_add_one, Nat.add_assoc, ← heq] at hlast
    exact Relation.TransGen.tail' (hpath m k) hlast
  obtain ⟨m, n, hne, heq⟩ := Finite.exists_ne_map_eq_of_infinite fun n => (⟨next^[n] a, hmem n⟩ : s)
  have heq : next^[m] a = next^[n] a := congrArg Subtype.val heq
  rcases Nat.lt_or_gt_of_ne hne with hlt | hlt
  · obtain ⟨k, rfl⟩ := Nat.exists_eq_add_of_lt hlt
    exact hloop m k heq
  · obtain ⟨k, rfl⟩ := Nat.exists_eq_add_of_lt hlt
    exact hloop n k heq.symm

/-! ## Layers -/

/-- So many waves of nodes have been placed, each as early as what it needs allows. -/
structure Layered (nodes : Finset α) (r : α → α → Prop) (order : List (α × Nat)) (wave : Nat) : Prop where
  once : (order.map Prod.fst).Nodup
  inside : ∀ a w, (a, w) ∈ order → a ∈ nodes
  before : ∀ a w, (a, w) ∈ order → w < wave
  later : ∀ a w, (a, w) ∈ order → ∀ b, r a b → ∃ v < w, (b, v) ∈ order
  earliest : ∀ a w, (a, w + 1) ∈ order → ∃ b, r a b ∧ (b, w) ∈ order
  /-- what is left waits for the last wave or for what is left -/
  waiting : ∀ a ∈ nodes, a ∉ order.map Prod.fst → ∀ w, wave = w + 1 → ∃ b, r a b ∧ ∀ v, (b, v) ∈ order → v = w

theorem Layered.start : Layered nodes r [] 0 := by
  refine ⟨nodup_nil, ?_, ?_, ?_, ?_, fun a _ _ w hw => nomatch hw⟩ <;> exact fun _ _ h => nomatch h

theorem mem_placed : a ∈ order.map Prod.fst ↔ ∃ w, (a, w) ∈ order := by
  simp

/-- The next wave is of what needs only what is placed. -/
theorem Layered.next (h : Layered nodes r order wave) {ready : List α} (hnodup : ready.Nodup)
    (hready : ∀ a, a ∈ ready ↔ a ∈ nodes ∧ a ∉ order.map Prod.fst ∧ ∀ b, r a b → b ∈ order.map Prod.fst) :
    Layered nodes r (order ++ ready.map (·, wave)) (wave + 1) := by
  have hnew : ∀ {a w}, (a, w) ∈ order ++ ready.map (·, wave) ↔ (a, w) ∈ order ∨ a ∈ ready ∧ w = wave := by
    intro a w
    simp only [mem_append, mem_map, Prod.mk.injEq]
    constructor
    · rintro (hold | ⟨c, hc, rfl, rfl⟩)
      · exact .inl hold
      · exact .inr ⟨hc, rfl⟩
    · rintro (hold | ⟨ha, rfl⟩)
      · exact .inl hold
      · exact .inr ⟨a, ha, rfl, rfl⟩
  have hfst : (ready.map (·, wave)).map Prod.fst = ready := (map_map ..).trans (map_id ready)
  refine ⟨?_, ?_, ?_, ?_, ?_, ?_⟩
  · rw [map_append, hfst]
    exact h.once.append hnodup fun a hold hin => ((hready a).mp hin).2.1 hold
  · intro a w hin
    rcases hnew.mp hin with hold | ⟨hin, -⟩
    · exact h.inside a w hold
    · exact ((hready a).mp hin).1
  · intro a w hin
    rcases hnew.mp hin with hold | ⟨-, rfl⟩
    · exact Nat.lt_succ_of_lt (h.before a w hold)
    · exact Nat.lt_succ_self w
  · intro a w hin b hab
    rcases hnew.mp hin with hold | ⟨hr, rfl⟩
    · obtain ⟨v, hv, hb⟩ := h.later a w hold b hab
      exact ⟨v, hv, hnew.mpr (.inl hb)⟩
    · obtain ⟨v, hb⟩ := mem_placed.mp (((hready a).mp hr).2.2 b hab)
      exact ⟨v, h.before b v hb, hnew.mpr (.inl hb)⟩
  · intro a w hin
    rcases hnew.mp hin with hold | ⟨hin, hw⟩
    · obtain ⟨b, hab, hb⟩ := h.earliest a w hold
      exact ⟨b, hab, hnew.mpr (.inl hb)⟩
    · obtain ⟨hnode, hleft, hneeds⟩ := (hready a).mp hin
      obtain ⟨b, hab, hlast⟩ := h.waiting a hnode hleft w hw.symm
      obtain ⟨v, hb⟩ := mem_placed.mp (hneeds b hab)
      obtain rfl := hlast v hb
      exact ⟨b, hab, hnew.mpr (.inl hb)⟩
  · intro a hnode hleft w hw
    obtain rfl : wave = w := Nat.succ.inj hw
    rw [map_append, hfst, mem_append, not_or] at hleft
    have hunready : ¬ ∀ b, r a b → b ∈ order.map Prod.fst := fun hall =>
      hleft.2 ((hready a).mpr ⟨hnode, hleft.1, hall⟩)
    push Not at hunready
    obtain ⟨b, hab, hb⟩ := hunready
    refine ⟨b, hab, fun v hv => ?_⟩
    rcases hnew.mp hv with hold | ⟨-, hw⟩
    · exact absurd (mem_placed.mpr ⟨v, hold⟩) hb
    · exact hw

/-- What is left when nothing is ready reaches a cycle. -/
theorem Layered.stuck (hneeds : ∀ a ∈ nodes, ∀ b, r a b → b ∈ nodes)
    (hnone : ∀ a ∈ nodes, a ∉ order.map Prod.fst → ∃ b, r a b ∧ b ∉ order.map Prod.fst) (ha : a ∈ nodes)
    (hleft : a ∉ order.map Prod.fst) : ReachesCycle r a := by
  classical
  refine reaches_cycle (s := nodes.filter (· ∉ order.map Prod.fst)) (fun c hc => ?_)
    (Finset.mem_filter.mpr ⟨ha, hleft⟩)
  obtain ⟨hnode, hc⟩ := Finset.mem_filter.mp hc
  obtain ⟨b, hcb, hb⟩ := hnone c hnode hc
  exact ⟨b, Finset.mem_filter.mpr ⟨hneeds c hnode b hcb, hb⟩, hcb⟩

/-- An order of all nodes, in which what reaches no cycle stands behind what it needs, and no
later than it has to. -/
structure Schedule (nodes : Finset α) (r : α → α → Prop) (order : List (α × Nat)) : Prop where
  once : (order.map Prod.fst).Nodup
  all : ∀ a, a ∈ order.map Prod.fst ↔ a ∈ nodes
  later : ∀ a w, (a, w) ∈ order → ¬ ReachesCycle r a → ∀ b, r a b → ∃ v < w, (b, v) ∈ order
  earliest : ∀ a w, (a, w) ∈ order → ¬ ReachesCycle r a → ∀ u, (∀ b, r a b → ∀ v, (b, v) ∈ order → v < u) → w ≤ u

/-- What is left is put behind the last wave. -/
theorem Layered.finish (h : Layered nodes r order wave) {rest : List α} (hnodup : rest.Nodup)
    (hrest : ∀ a, a ∈ rest ↔ a ∈ nodes ∧ a ∉ order.map Prod.fst) (hcycle : ∀ a ∈ rest, ReachesCycle r a) :
    Schedule nodes r (order ++ rest.map (·, wave)) := by
  have hfst : (rest.map (·, wave)).map Prod.fst = rest := (map_map ..).trans (map_id rest)
  have hold : ∀ a w, (a, w) ∈ order ++ rest.map (·, wave) → ¬ ReachesCycle r a → (a, w) ∈ order := by
    intro a w hin hno
    rcases List.mem_append.mp hin with hold | hin
    · exact hold
    · obtain ⟨c, hc, heq⟩ := List.mem_map.mp hin
      obtain ⟨rfl, -⟩ := Prod.mk.inj heq
      exact absurd (hcycle c hc) hno
  refine ⟨?_, fun a => ?_, fun a w hin hno b hab => ?_, fun a w hin hno u hu => ?_⟩
  · rw [map_append, hfst]
    exact h.once.append hnodup fun a hold hin => ((hrest a).mp hin).2 hold
  · rw [map_append, hfst, mem_append, hrest]
    constructor
    · rintro (hin | hin)
      · obtain ⟨w, hw⟩ := mem_placed.mp hin
        exact h.inside a w hw
      · exact hin.1
    · intro hnode
      by_cases hin : a ∈ order.map Prod.fst
      · exact .inl hin
      · exact .inr ⟨hnode, hin⟩
  · obtain ⟨v, hv, hb⟩ := h.later a w (hold a w hin hno) b hab
    exact ⟨v, hv, List.mem_append.mpr (.inl hb)⟩
  · cases w with
    | zero => exact Nat.zero_le u
    | succ w =>
      obtain ⟨b, hab, hb⟩ := h.earliest a w (hold a _ hin hno)
      exact hu b hab w (List.mem_append.mpr (.inl hb))

end CapyOS.Lib
