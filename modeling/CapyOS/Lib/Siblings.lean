import CapyOS.Lib.Links

namespace CapyOS.Lib
open Function

/-- A tree threaded through its nodes: each has a parent, a first child and a sibling. -/
structure Siblings (N : Type) where
  parent : N → Option N
  children : N → Option N
  nextSibling : N → Option N

namespace Siblings
variable {N : Type} [DecidableEq N] (s : Siblings N)

/-- A node without parent and siblings. -/
def detach (c : N) : Siblings N :=
  { s with parent := update s.parent c none, nextSibling := update s.nextSibling c none }

def link (c q : N) : Siblings N where
  parent := update s.parent c (some q)
  nextSibling := update s.nextSibling c (s.children q)
  children := update s.children q (some c)

/-- Take `c` from under `q`, looking at no more than `n` links. -/
def unlink (n : Nat) (c q : N) : Siblings N where
  parent := update s.parent c none
  nextSibling := update (unlinkAt (s.children q) s.nextSibling c n none).2 c none
  children := update s.children q (unlinkAt (s.children q) s.nextSibling c n none).1

/-- The lists of children are `kids`, and they hold the nodes with that parent. -/
structure Holds (s : Siblings N) (kids : N → List N) : Prop where
  chain : ∀ p, Chain s.nextSibling (s.children p) (kids p)
  mem : ∀ p q, q ∈ kids p ↔ s.parent q = some p

variable {s} {kids : N → List N}

theorem Holds.nodup (h : s.Holds kids) (p : N) : (kids p).Nodup := (h.chain p).nodup

theorem Holds.length_le [Fintype N] (h : s.Holds kids) (p : N) : (kids p).length ≤ Fintype.card N :=
  (h.nodup p).length_le_card

omit [DecidableEq N] in
theorem Holds.other (h : s.Holds kids) {p q c : N} (hc : s.parent c = some q) (hp : p ≠ q) : c ∉ kids p := by
  intro hm
  rw [h.mem, hc] at hm
  exact hp (Option.some.inj hm).symm

theorem Holds.detach (h : s.Holds kids) {c : N} (hc : s.parent c = none) : (s.detach c).Holds kids := by
  have hout (p : N) : c ∉ kids p := by simp [h.mem, hc]
  constructor
  · intro p
    refine (h.chain p).congr ?_
    intro a ha
    exact update_of_ne (ne_of_mem_of_not_mem ha (hout p)) _ _
  · intro p q
    rw [h.mem]
    by_cases hq : q = c
    · subst hq
      simp [Siblings.detach, hc]
    · simp [Siblings.detach, update_of_ne hq]

theorem Holds.link (h : s.Holds kids) {c : N} (q : N) (hc : s.parent c = none) :
    (s.link c q).Holds (update kids q (c :: kids q)) := by
  have hout (p : N) : c ∉ kids p := by simp [h.mem, hc]
  have hkept (p : N) : Chain (s.link c q).nextSibling (s.children p) (kids p) :=
    (h.chain p).congr fun a ha => update_of_ne (ne_of_mem_of_not_mem ha (hout p)) _ _
  constructor
  · intro p
    by_cases hp : p = q
    · subst hp
      simp only [Siblings.link, update_self]
      refine .cons c _ ?_
      rw [update_self]
      exact hkept p
    · simp only [Siblings.link, update_of_ne hp]
      exact hkept p
  · intro p x
    simp only [Siblings.link]
    by_cases hp : p = q
    · subst hp
      rw [update_self, List.mem_cons, h.mem]
      by_cases hx : x = c
      · simp [hx]
      · simp [hx]
    · rw [update_of_ne hp, h.mem]
      by_cases hx : x = c
      · subst hx
        simp [hc, Ne.symm hp]
      · simp [hx]

theorem Holds.unlink (h : s.Holds kids) {n : Nat} {c q : N} (hc : s.parent c = some q)
    (hn : (kids q).length < n) : (s.unlink n c q).Holds (update kids q ((kids q).erase c)) := by
  obtain ⟨hchain, hframe⟩ := unlinkAt_head c (h.chain q) hn
  constructor
  · intro p
    simp only [Siblings.unlink]
    by_cases hp : p = q
    · subst hp
      simp only [update_self]
      refine hchain.congr ?_
      intro a ha
      apply update_of_ne
      rintro rfl
      exact (h.nodup p).not_mem_erase ha
    · simp only [update_of_ne hp]
      refine (h.chain p).congr ?_
      intro a ha
      rw [update_of_ne (ne_of_mem_of_not_mem ha (h.other hc hp))]
      apply hframe
      intro hq
      exact h.other ((h.mem q a).mp hq) hp ha
  · intro p x
    simp only [Siblings.unlink]
    by_cases hp : p = q
    · subst hp
      rw [update_self, (h.nodup p).mem_erase_iff, h.mem]
      by_cases hx : x = c
      · simp [hx]
      · simp [hx]
    · rw [update_of_ne hp, h.mem]
      by_cases hx : x = c
      · subst hx
        simp [hc, Ne.symm hp]
      · simp [hx]

/-- With its children detached one by one, a node has none. -/
theorem Holds.orphan (h : s.Holds kids) (p : N) {s' : Siblings N}
    (hp : ∀ q, s'.parent q = if q ∈ kids p then none else s.parent q)
    (hn : ∀ q, s'.nextSibling q = if q ∈ kids p then none else s.nextSibling q)
    (hc : s'.children = update s.children p none) : s'.Holds (update kids p []) := by
  constructor
  · intro r
    rw [hc]
    by_cases hr : r = p
    · subst hr
      simp only [update_self]
      exact .nil
    · simp only [update_of_ne hr]
      refine (h.chain r).congr ?_
      intro a ha
      rw [hn, if_neg]
      intro hm
      exact h.other ((h.mem p a).mp hm) hr ha
  · intro r x
    rw [hp]
    by_cases hr : r = p
    · subst hr
      by_cases hx : x ∈ kids r
      · simp [hx]
      · simp [hx, ← h.mem]
    · rw [update_of_ne hr, h.mem]
      by_cases hx : x ∈ kids p
      · simp [hx, (h.mem p x).mp hx, Ne.symm hr]
      · simp [hx]

end Siblings

end CapyOS.Lib
