import CapyOS.Lib.Numerals

namespace CapyOS.Lib
open Function List

section
variable {N : Type}

/-- The nodes met by following `next` from `p` until it ends. -/
inductive Chain (next : N → Option N) : Option N → List N → Prop where
  | nil : Chain next none []
  | cons (a : N) (l : List N) (tail : Chain next (next a) l) : Chain next (some a) (a :: l)

namespace Chain
variable {next : N → Option N} {p : Option N} {l : List N}

/-- A start determines the nodes that follow. -/
theorem unique {l' : List N} (h : Chain next p l) (h' : Chain next p l') : l = l' := by
  induction h generalizing l' with
  | nil => cases h'; rfl
  | cons a l tail ih =>
    cases h' with
    | cons _ l' tail' => rw [ih tail']

/-- The nodes behind a node of a chain. -/
theorem after (xs : List N) {ys : List N} {a : N} (h : Chain next p (xs ++ a :: ys)) : Chain next (next a) ys := by
  induction xs generalizing p with
  | nil => cases h with | cons _ _ tail => exact tail
  | cons x xs ih => cases h with | cons _ _ tail => exact ih tail

/-- A chain that ends meets no node twice. -/
theorem nodup (h : Chain next p l) : l.Nodup := by
  induction h with
  | nil => exact nodup_nil
  | cons a l tail ih =>
    refine List.nodup_cons.mpr ⟨fun hm => ?_, ih⟩
    -- a second visit would start the same nodes again, with fewer of them left
    obtain ⟨xs, ys, rfl⟩ := append_of_mem hm
    have hlen := congrArg List.length (tail.unique (tail.after xs))
    simp only [length_append, length_cons] at hlen
    omega

theorem congr {next' : N → Option N} (h : Chain next p l) (he : ∀ a ∈ l, next' a = next a) : Chain next' p l := by
  induction h with
  | nil => exact .nil
  | cons a l tail ih =>
    refine .cons a l ?_
    rw [he a mem_cons_self]
    exact ih (fun b hb => he b (mem_cons_of_mem _ hb))

theorem head (h : Chain next p l) : p = l.head? := by
  cases h <;> rfl

end Chain

/-- Follow `next` from `p` to the first node at which to stop, at most `n` nodes far. -/
def walk (next : N → Option N) (stop : N → Bool) : Nat → Option N → Option N
  | 0, _ => none
  | _ + 1, none => none
  | n + 1, some a => if stop a then some a else walk next stop n (next a)

/-- Far enough, a walk along a chain finds its first such node. -/
theorem Chain.walk {next : N → Option N} {p : Option N} {l : List N} (h : Chain next p l)
    (stop : N → Bool) {n : Nat} (hn : l.length ≤ n) : walk next stop n p = l.find? stop := by
  induction h generalizing n with
  | nil => cases n <;> rfl
  | cons a l tail ih =>
    cases n with
    | zero => simp at hn
    | succ n =>
      simp only [Lib.walk, List.find?_cons]
      rw [ih (by simpa using hn)]
      cases stop a <;> rfl

end

variable {N : Type} [DecidableEq N] {next : N → Option N} {p : Option N}

/-- Taking a node out behind its predecessor. -/
theorem Chain.unlink (xs : List N) {ys : List N} (q : N) {a : N} (h : Chain next p (xs ++ q :: a :: ys)) :
    Chain (update next q (next a)) p (xs ++ q :: ys) := by
  have hn := h.nodup
  induction xs generalizing p with
  | nil =>
    cases h with
    | cons _ _ tail =>
      refine .cons q ys ?_
      rw [update_self]
      refine (tail.after []).congr ?_
      intro b hb
      apply update_of_ne
      rintro rfl
      simp [hb] at hn
  | cons x xs ih =>
    cases h with
    | cons _ _ tail =>
      refine .cons x _ ?_
      rw [update_of_ne]
      · exact ih tail (List.nodup_cons.mp hn).2
      · rintro rfl
        simp at hn

/-- Adding a node behind the last one. -/
theorem Chain.snoc (xs : List N) {z a : N} (h : Chain next p (xs ++ [z])) (ha : a ∉ xs ++ [z])
    (hend : next a = none) : Chain (update next z (some a)) p (xs ++ [z, a]) := by
  have hn := h.nodup
  have hza : a ≠ z := by
    rintro rfl
    simp at ha
  induction xs generalizing p with
  | nil =>
    cases h with
    | cons _ _ tail =>
      refine .cons z _ ?_
      rw [update_self]
      refine .cons a _ ?_
      rw [update_of_ne hza, hend]
      exact .nil
  | cons x xs ih =>
    cases h with
    | cons _ _ tail =>
      refine .cons x _ ?_
      rw [update_of_ne]
      · exact ih tail (fun hm => ha (mem_cons_of_mem _ hm)) (List.nodup_cons.mp hn).2
      · rintro rfl
        simp at hn

/-- Take node `a` out of the list from `head`, going link by link: `link` is the
node whose successor is looked at next, or nothing at the head itself. -/
def unlinkAt (head : Option N) (next : N → Option N) (a : N) :
    Nat → Option N → Option N × (N → Option N)
  | 0, _ => (head, next)
  | n + 1, link =>
    match (match link with | none => head | some q => next q) with
    | none => (head, next)
    | some b =>
      if b = a then
        match link with
        | none => (next a, update next a none)
        | some q => (head, update (update next q (next a)) a none)
      else unlinkAt head next a n (some b)

theorem unlinkAt_behind {head : Option N} {next : N → Option N} {a : N} {n : Nat} (ys xs : List N)
    {q : N} (h : Chain next head (xs ++ q :: ys)) (hx : a ∉ xs) (hq : a ≠ q) (hn : ys.length < n) :
    Chain (unlinkAt head next a n (some q)).2 (unlinkAt head next a n (some q)).1 ((xs ++ q :: ys).erase a) ∧
      ∀ b, b ∉ xs ++ q :: ys → (unlinkAt head next a n (some q)).2 b = next b := by
  induction ys generalizing xs q n with
  | nil =>
    cases n with
    | zero => simp at hn
    | succ n =>
      have hnext : next q = none := (h.after xs).head
      have hmem : a ∉ xs ++ [q] := by simp [hx, hq]
      simp only [unlinkAt, hnext]
      rw [erase_of_not_mem hmem]
      exact ⟨h, fun _ _ => trivial⟩
  | cons b ys ih =>
    cases n with
    | zero => simp at hn
    | succ n =>
      have hnext : next q = some b := (h.after xs).head
      simp only [unlinkAt, hnext]
      by_cases hb : b = a
      · subst hb
        have hnd := h.nodup
        have herase : (xs ++ q :: b :: ys).erase b = xs ++ q :: ys := by
          rw [erase_append_right _ hx, erase_cons_tail (by simpa using Ne.symm hq), erase_cons_head]
        rw [if_pos rfl, herase]
        constructor
        · refine (h.unlink xs q).congr ?_
          intro x hx'
          apply update_of_ne
          rintro rfl
          simp only [mem_append, mem_cons] at hx'
          rcases hx' with hx' | rfl | hx'
          · exact hx hx'
          · exact hq rfl
          · rw [nodup_append] at hnd
            simp [hx'] at hnd
        · intro x hx'
          simp only [mem_append, mem_cons, not_or] at hx'
          simp only [update_of_ne hx'.2.2.1, update_of_ne hx'.2.1]
      · rw [if_neg hb]
        have h' : Chain next head ((xs ++ [q]) ++ b :: ys) := by simpa using h
        have hstep := ih (xs ++ [q]) h' (by simp [hx, hq]) (Ne.symm hb) (by simpa using hn)
        simpa using hstep

/-- Looking from the head far enough takes the node out if it is there. -/
theorem unlinkAt_head {head : Option N} {next : N → Option N} (a : N) {l : List N} {n : Nat}
    (h : Chain next head l) (hn : l.length < n) :
    Chain (unlinkAt head next a n none).2 (unlinkAt head next a n none).1 (l.erase a) ∧
      ∀ b, b ∉ l → (unlinkAt head next a n none).2 b = next b := by
  cases n with
  | zero => simp at hn
  | succ n =>
    cases h with
    | nil => exact ⟨.nil, fun _ _ => rfl⟩
    | cons b l tail =>
      simp only [unlinkAt]
      by_cases hb : b = a
      · subst hb
        have hnd := (Chain.cons b l tail).nodup
        rw [if_pos rfl, erase_cons_head]
        refine ⟨tail.congr ?_, ?_⟩
        · intro x hx
          apply update_of_ne
          rintro rfl
          simp [hx] at hnd
        · intro x hx
          exact update_of_ne (by rintro rfl; simp at hx) _ _
      · rw [if_neg hb]
        exact unlinkAt_behind l [] (.cons b l tail) (by simp) (Ne.symm hb)
          (by simpa using hn)

/-- A doubly linked list threaded through its nodes. -/
structure Dll (N : Type) where
  head : Option N
  tail : Option N
  next : N → Option N
  prev : N → Option N

namespace Dll

def remove (s : Dll N) (a : N) : Dll N :=
  let s := match s.prev a with
    | some p => { s with next := update s.next p (s.next a) }
    | none => { s with head := s.next a }
  let s := match s.next a with
    | some q => { s with prev := update s.prev q (s.prev a) }
    | none => { s with tail := s.prev a }
  { s with next := update s.next a none, prev := update s.prev a none }

def insertFront (s : Dll N) (a : N) : Dll N :=
  let s := { s with prev := update s.prev a none, next := update s.next a s.head }
  let s := match s.head with
    | some h => { s with prev := update s.prev h (some a) }
    | none => { s with tail := some a }
  { s with head := some a }

/-- The list holds exactly `l`, in both directions. -/
structure Holds (s : Dll N) (l : List N) : Prop where
  fwd : Chain s.next s.head l
  bwd : Chain s.prev s.tail l.reverse

theorem Holds.insertFront {s : Dll N} {l : List N} {a : N} (h : s.Holds l) (ha : a ∉ l) : (s.insertFront a).Holds (a :: l) := by
  have hfwd : Chain (update s.next a s.head) s.head l := by
    refine h.fwd.congr (fun b hb => update_of_ne ?_ _ _)
    rintro rfl
    exact ha hb
  have hbwd : Chain (update s.prev a none) s.tail l.reverse := by
    refine h.bwd.congr (fun b hb => update_of_ne ?_ _ _)
    rintro rfl
    exact ha (List.mem_reverse.mp hb)
  have hself : update s.prev a none a = none := update_self ..
  have hcons : Chain (update s.next a s.head) (some a) (a :: l) := by
    refine .cons a l ?_
    rw [update_self]
    exact hfwd
  unfold Dll.insertFront
  cases l with
  | nil =>
    have hhead : s.head = none := h.fwd.head
    simp only [hhead] at hcons ⊢
    refine ⟨hcons, .cons a [] ?_⟩
    simp only [hself]
    exact .nil
  | cons b l =>
    have hhead : s.head = some b := h.fwd.head
    simp only [hhead] at hcons ⊢
    refine ⟨hcons, ?_⟩
    have hs := Chain.snoc l.reverse (z := b) (a := a) (by simpa using hbwd)
      (by simpa [and_comm] using ha) hself
    simpa using hs

theorem Holds.remove {s : Dll N} {l : List N} {a : N} (h : s.Holds l) (ha : a ∈ l) : (s.remove a).Holds (l.erase a) := by
  obtain ⟨xs, ys, rfl⟩ := append_of_mem ha
  have hn := h.fwd.nodup
  have hx : a ∉ xs := fun hm => (List.nodup_append.mp hn).2.2 a hm a mem_cons_self rfl
  have hy : a ∉ ys := (List.nodup_cons.mp (List.nodup_append.mp hn).2.1).1
  have hrev : Chain s.prev s.tail (ys.reverse ++ a :: xs.reverse) := by simpa using h.bwd
  rw [erase_append_right _ hx, erase_cons_head]
  have hprev : s.prev a = xs.reverse.head? := (hrev.after ys.reverse).head
  have hnext : s.next a = ys.head? := (h.fwd.after xs).head
  -- what the two halves of the code leave, each in its own direction
  have hfwd : Chain (update (match s.prev a with
        | some p => update s.next p (s.next a)
        | none => s.next) a none)
      (match s.prev a with | some _ => s.head | none => s.next a) (xs ++ ys) := by
    have hsplit : Chain (match s.prev a with
        | some p => update s.next p (s.next a)
        | none => s.next)
        (match s.prev a with | some _ => s.head | none => s.next a) (xs ++ ys) := by
      cases xs using List.reverseRecOn with
      | nil =>
        rw [hprev]
        exact h.fwd.after []
      | append_singleton xs p =>
        rw [hprev, reverse_append]
        have hu := Chain.unlink xs p (by simpa using h.fwd)
        simpa using hu
    refine hsplit.congr (fun b hb => update_of_ne ?_ _ _)
    rintro rfl
    simp [hx, hy] at hb
  have hbwd : Chain (update (match s.next a with
        | some q => update s.prev q (s.prev a)
        | none => s.prev) a none)
      (match s.next a with | some _ => s.tail | none => s.prev a) (xs ++ ys).reverse := by
    have hsplit : Chain (match s.next a with
        | some q => update s.prev q (s.prev a)
        | none => s.prev)
        (match s.next a with | some _ => s.tail | none => s.prev a) (xs ++ ys).reverse := by
      cases ys with
      | nil =>
        rw [hnext]
        simpa using hrev.after []
      | cons q ys =>
        rw [hnext]
        have hu := Chain.unlink ys.reverse q (by simpa using hrev)
        simpa using hu
    refine hsplit.congr (fun b hb => update_of_ne ?_ _ _)
    rintro rfl
    simp [hx, hy] at hb
  have hna : (match s.prev a with
      | some p => { s with next := update s.next p (s.next a) }
      | none => { s with head := s.next a } : Dll N).next a = s.next a := by
    cases hp : s.prev a with
    | none => rfl
    | some p =>
      apply update_of_ne
      rintro rfl
      rw [hp] at hprev
      exact hx (List.mem_reverse.mp (mem_of_mem_head? hprev.symm))
  unfold Dll.remove
  simp only [hna]
  cases hp : s.prev a <;> cases hq : s.next a <;> simp only [hp, hq] at hfwd hbwd ⊢ <;>
    exact ⟨hfwd, hbwd⟩

end Dll

end CapyOS.Lib
