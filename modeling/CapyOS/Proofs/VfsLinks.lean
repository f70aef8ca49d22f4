import CapyOS.Proofs.VfsResolve

namespace CapyOS.Proofs
open Lib List

/-- The dentries that freeing a tree goes through. -/
def freed (dentry : Nat → Dentry) : Nat → Nat → List Nat
  | 0, _ => []
  | n + 1, d => (dentry d).children.flatMap (freed dentry n) ++ [d]

theorem freeTree_eq (n : Nat) (s : Vfs) (d : Nat) : dentryFreeTree n s d =
      { s with live := fun x => s.live x && !(freed s.dentry n d).contains x } := by
  induction n generalizing s d with
  | zero => simp [dentryFreeTree, freed]
  | succ n ih =>
    have hfold : ∀ (l : List Nat) (t : Vfs), t.dentry = s.dentry →
        l.foldl (dentryFreeTree n) t =
          { t with live := fun x => t.live x && !(l.flatMap (freed s.dentry n)).contains x } := by
      intro l
      induction l with
      | nil => simp
      | cons c l ihl =>
        intro t ht
        rw [foldl_cons, ih t c, ihl _ (by exact ht), ht]
        simp [Bool.and_assoc]
    simp only [dentryFreeTree, freed]
    rw [hfold _ s rfl]
    simp only
    congr 1
    funext x
    rw [Function.update_apply]
    split <;> simp [*]

/-- A dentry cached at or beneath another. -/
inductive Below (s : Vfs) (d : Nat) : Nat → Prop
  | self : Below s d d
  | child {p c : Nat} : Below s d p → c ∈ (s.dentry p).children → Below s d c

theorem Below.trans {s : Vfs} {a b c : Nat} (h : Below s a b) (h' : Below s b c) : Below s a c := by
  induction h' with
  | self => exact h
  | child _ hc ih => exact .child ih hc

theorem SameLinks.below {s t : Vfs} (h : SameLinks s t) {c d : Nat} (hd : Below t c d) : Below s c d := by
  induction hd with
  | self => exact .self
  | child _ hc ih =>
    rw [h.children] at hc
    exact .child ih hc

theorem freed_mem {s : Vfs} {n d x : Nat} (h : x ∈ freed s.dentry n d) :
    Below s d x ∧ (x = d ∨ ∃ q ∈ freed s.dentry n d, x ∈ (s.dentry q).children) := by
  induction n generalizing d with
  | zero => cases h
  | succ n ih =>
    have htop : d ∈ freed s.dentry (n + 1) d := by simp [freed]
    rcases List.mem_append.mp h with h | h
    · obtain ⟨c, hc, hx⟩ := List.mem_flatMap.mp h
      obtain ⟨hb, hup⟩ := ih hx
      refine ⟨Below.trans (.child .self hc) hb, .inr ?_⟩
      rcases hup with rfl | ⟨q, hq, hmem⟩
      · exact ⟨d, htop, hc⟩
      · exact ⟨q, mem_append_left _ (List.mem_flatMap.mpr ⟨c, hc, hq⟩), hmem⟩
    · rw [List.mem_singleton.mp h]
      exact ⟨.self, .inl rfl⟩

theorem eraseP_congr {α : Type} {l : List α} {p q : α → Bool} (h : ∀ x ∈ l, p x = q x) : l.eraseP p = l.eraseP q := by
  induction l with
  | nil => rfl
  | cons a l ih =>
    rw [eraseP_cons, eraseP_cons, h a mem_cons_self, ih fun x hx => h x (mem_cons_of_mem _ hx)]

section
variable {s : Vfs} {p c : Nat}

theorem DentryTree.detach (hs : DentryTree s) (hp : s.live p = true) (hc : c ∈ (s.dentry p).children) :
    dentryDetachChild s p (s.dentry c).name = (some c, s.setDentry p { s.dentry p with
      children := (s.dentry p).children.erase c }) := by
  unfold dentryDetachChild
  rw [hs.lookup hp hc]
  simp only
  rw [erase_eq_eraseP, eraseP_congr]
  intro x hx
  rw [Bool.eq_iff_iff]
  simp only [beq_iff_eq]
  constructor
  · exact fun h => (hs.names p x c hp hx hc h).symm
  · exact fun h => by rw [h]

end

theorem setDentry_dentry (s : Vfs) (d : Nat) (x : Dentry) (e : Nat) :
    (s.setDentry d x).dentry e = if e = d then x else s.dentry e := Function.update_apply ..

structure Forgets (s t : Vfs) (p c : Nat) : Prop where
  fs : t.fs = s.fs
  file : t.file = s.file
  nextFile : t.nextFile = s.nextFile
  next : t.next = s.next
  dentry : ∀ d, t.dentry d = if d = p then
    { s.dentry d with children := (s.dentry d).children.erase c } else s.dentry d
  dead : t.live c = false
  live : ∀ d, t.live d = true → s.live d = true
  below : ∀ d, s.live d = true → t.live d = false → Below s c d
  tree : DentryTree t

theorem Forgets.children {s t : Vfs} {p c : Nat} (h : Forgets s t p c) {d x : Nat}
    (hx : x ∈ (t.dentry d).children) : x ∈ (s.dentry d).children := by
  rw [h.dentry d] at hx
  split at hx
  · exact mem_of_mem_erase hx
  · exact hx

section
variable {s : Vfs} {p c : Nat}

theorem DentryTree.forget (hs : DentryTree s) (hp : s.live p = true)
    (hc : c ∈ (s.dentry p).children) : Forgets s (dentryForget s p (s.dentry c).name) p c := by
  obtain ⟨hlive, hparent⟩ := hs.child p c hp hc
  have hdentry := setDentry_dentry s p { s.dentry p with children := (s.dentry p).children.erase c }
  unfold dentryForget
  rw [hs.detach hp hc]
  simp only
  rw [freeTree_eq]
  generalize ht : s.setDentry p { s.dentry p with children := (s.dentry p).children.erase c } = t at *
  have hlives : t.live = s.live := by rw [← ht]; rfl
  have hnext : t.next = s.next := by rw [← ht]; rfl
  have hchildren : ∀ d x, x ∈ (t.dentry d).children → x ∈ (s.dentry d).children ∧ x ≠ c ∨
      x ∈ (s.dentry d).children ∧ d ≠ p := by
    intro d x hx
    rw [hdentry d] at hx
    split at hx
    · rename_i hd
      rw [hd]
      have := (hs.nodup p hp).mem_erase_iff.mp hx
      exact .inl ⟨this.2, this.1⟩
    · rename_i hd
      exact .inr ⟨hx, hd⟩
  have hsub : ∀ d x, x ∈ (t.dentry d).children → x ∈ (s.dentry d).children := by
    intro d x hx
    rcases hchildren d x hx with h | h
    · exact h.1
    · exact h.1
  -- a live parent of the removed dentry would be `p`, which has it no longer
  have hgone : ∀ d, s.live d = true → c ∉ (t.dentry d).children := by
    intro d hd hmem
    rcases hchildren d c hmem with h | h
    · exact h.2 rfl
    · have := (hs.child d c hd h.1).2
      rw [hparent] at this
      exact h.2 (Option.some.inj this).symm
  have hbelow : ∀ x, Below t c x → Below s c x ∧ s.live x = true := by
    intro x hx
    induction hx with
    | self => exact ⟨.self, hlive⟩
    | child _ hmem ih =>
      have hin := hsub _ _ hmem
      exact ⟨.child ih.1 hin, (hs.child _ _ ih.2 hin).1⟩
  have hshape : ∀ d, (t.dentry d).name = (s.dentry d).name ∧ (t.dentry d).parent = (s.dentry d).parent := by
    intro d
    rw [hdentry d]
    split
    · rename_i hd
      rw [hd]
      exact ⟨rfl, rfl⟩
    · exact ⟨rfl, rfl⟩
  have hdead : ∀ d, (t.live d && !(freed t.dentry t.next c).contains d) = true ↔
      s.live d = true ∧ d ∉ freed t.dentry t.next c := by
    intro d
    simp [hlives]
  have hc0 : c ∈ freed t.dentry t.next c := by
    have hpos : t.next ≠ 0 := by
      rw [hnext]
      exact Nat.ne_of_gt (Nat.lt_of_le_of_lt (Nat.zero_le _) (hs.bound c hlive))
    obtain ⟨n, hn⟩ := Nat.exists_eq_succ_of_ne_zero hpos
    simp [hn, freed]
  refine ⟨by rw [← ht]; rfl, by rw [← ht]; rfl, by rw [← ht]; rfl, hnext, fun d => ?_, ?_,
    fun d hd => ((hdead d).mp hd).1, fun d hd hoff => ?_, ?_⟩
  · rw [hdentry d]
    split
    · rename_i hd
      rw [hd]
    · rfl
  · rw [← Bool.not_eq_true, hdead]
    exact fun h => h.2 hc0
  · have hmem : d ∈ freed t.dentry t.next c := by
      by_contra hnot
      exact Bool.false_ne_true (hoff.symm.trans ((hdead d).mpr ⟨hd, hnot⟩))
    exact (hbelow d (freed_mem hmem).1).1
  · refine ⟨⟨(hdead 0).mpr ⟨hs.root.1, fun hmem => ?_⟩, ?_⟩, fun d hd => ?_, fun q x hq hx => ?_,
      fun q hq => ?_, fun q x x' hq hx hx' hn => ?_⟩
    · -- the root has no parent, so it is neither the removed dentry nor beneath it
      obtain ⟨-, h0 | ⟨q, hq, hmem0⟩⟩ := freed_mem hmem
      · rw [← h0, hs.root.2] at hparent
        cases hparent
      · have := (hs.child q 0 (hbelow q (freed_mem hq).1).2 (hsub q 0 hmem0)).2
        rw [hs.root.2] at this
        cases this
    · exact (hshape 0).2.trans hs.root.2
    · exact (hs.bound d ((hdead d).mp hd).1).trans_eq hnext.symm
    · obtain ⟨hql, hqf⟩ := (hdead q).mp hq
      obtain ⟨hxl, hxp⟩ := hs.child q x hql (hsub q x hx)
      refine ⟨(hdead x).mpr ⟨hxl, fun hxf => ?_⟩, (hshape x).2.trans hxp⟩
      obtain ⟨-, rfl | ⟨q', hq', hmem⟩⟩ := freed_mem hxf
      · exact hgone q hql hx
      · have := (hs.child q' x (hbelow q' (freed_mem hq').1).2 (hsub q' x hmem)).2
        rw [hxp] at this
        rw [Option.some.inj this] at hqf
        exact hqf hq'
    · rw [hdentry q]
      split
      · exact (hs.nodup p hp).erase c
      · exact hs.nodup q ((hdead q).mp hq).1
    · simp only [(hshape _).1] at hn
      exact hs.names q x x' ((hdead q).mp hq).1 (hsub q x hx) (hsub q x' hx') hn

end

structure Relinks (s t : Vfs) (p c q : Nat) (name : Name) : Prop where
  fs : t.fs = s.fs
  file : t.file = s.file
  nextFile : t.nextFile = s.nextFile
  next : t.next = s.next
  live : t.live = s.live
  inode : ∀ d, (t.dentry d).inode = (s.dentry d).inode
  refcount : ∀ d, (t.dentry d).refcount = (s.dentry d).refcount
  name : ∀ d, (t.dentry d).name = if d = c then name else (s.dentry d).name
  parent : ∀ d, (t.dentry d).parent = if d = c then some q else (s.dentry d).parent
  children : ∀ d x, s.live d = true → (x ∈ (t.dentry d).children ↔
    (d = q ∧ x = c) ∨ (x ∈ (s.dentry d).children ∧ x ≠ c))
  tree : DentryTree t

variable {s : Vfs} {p c q : Nat} {name : Name}

theorem DentryTree.move (hs : DentryTree s) (hp : s.live p = true) (hq : s.live q = true)
    (hc : c ∈ (s.dentry p).children) (hlen : name.length < vfsNameMax)
    (hnew : ∀ x ∈ (s.dentry q).children, (s.dentry x).name = name → x = c) :
    Relinks s (dentryMove s p (s.dentry c).name q name) p c q name := by
  obtain ⟨hlive, hparent⟩ := hs.child p c hp hc
  have hcopy : copyName name = name := take_of_length_le (Nat.le_sub_one_of_lt hlen)
  unfold dentryMove
  rw [hs.detach hp hc]
  simp only [dentryAttachChild, hcopy]
  -- the dentries once the child is out, once it has its new name, and once it is in
  have h1 := setDentry_dentry s p { s.dentry p with children := (s.dentry p).children.erase c }
  generalize hs1 : s.setDentry p { s.dentry p with children := (s.dentry p).children.erase c } = s1 at *
  have h2 := setDentry_dentry s1 c { s1.dentry c with name := name, parent := some q }
  generalize hs2 : s1.setDentry c { s1.dentry c with name := name, parent := some q } = s2 at *
  have h3 := setDentry_dentry s2 q { s2.dentry q with children := c :: (s2.dentry q).children }
  generalize hs3 : s2.setDentry q { s2.dentry q with children := c :: (s2.dentry q).children } = t at *
  have hkept : ∀ d, (t.dentry d).inode = (s.dentry d).inode ∧
      (t.dentry d).refcount = (s.dentry d).refcount ∧
      (t.dentry d).name = (if d = c then name else (s.dentry d).name) ∧
      (t.dentry d).parent = (if d = c then some q else (s.dentry d).parent) ∧
      (t.dentry d).children = (if d = q then [c] else []) ++
        (if d = p then (s.dentry d).children.erase c else (s.dentry d).children) := by
    intro d
    rw [h3 d, h2 d, h2 q, h1 d, h1 q, h1 c]
    by_cases hdc : d = c <;> by_cases hdq : d = q <;> by_cases hdp : d = p <;>
      simp_all
  have hchildren : ∀ d x, s.live d = true → (x ∈ (t.dentry d).children ↔
      (d = q ∧ x = c) ∨ (x ∈ (s.dentry d).children ∧ x ≠ c)) := by
    intro d x hd
    rw [(hkept d).2.2.2.2, mem_append]
    have hleft : x ∈ (if d = q then [c] else []) ↔ d = q ∧ x = c := by
      split <;> simp [*]
    have hright : x ∈ (if d = p then (s.dentry d).children.erase c else (s.dentry d).children) ↔
        x ∈ (s.dentry d).children ∧ x ≠ c := by
      split
      · rename_i hdp
        rw [hdp, (hs.nodup p hp).mem_erase_iff]
        exact And.comm
      · rename_i hdp
        refine ⟨fun h => ⟨h, ?_⟩, And.left⟩
        rintro rfl
        have := (hs.child d x hd h).2
        rw [hparent] at this
        exact hdp (Option.some.inj this).symm
    rw [hleft, hright]
  have hlives : t.live = s.live := by rw [← hs3, ← hs2, ← hs1]; rfl
  have hnext : t.next = s.next := by rw [← hs3, ← hs2, ← hs1]; rfl
  refine ⟨by rw [← hs3, ← hs2, ← hs1]; rfl, by rw [← hs3, ← hs2, ← hs1]; rfl,
    by rw [← hs3, ← hs2, ← hs1]; rfl, hnext, hlives, fun d => (hkept d).1, fun d => (hkept d).2.1,
    fun d => (hkept d).2.2.1, fun d => (hkept d).2.2.2.1, hchildren, ?_⟩
  refine ⟨⟨by rw [hlives]; exact hs.root.1, ?_⟩, fun d hd => ?_, fun d x hd hx => ?_, fun d hd => ?_,
    fun d x x' hd hx hx' hn => ?_⟩
  · rw [(hkept 0).2.2.2.1, if_neg]
    · exact hs.root.2
    · rintro rfl
      rw [hs.root.2] at hparent
      cases hparent
  · rw [hnext]
    rw [hlives] at hd
    exact hs.bound d hd
  · rw [hlives] at hd ⊢
    rw [(hkept x).2.2.2.1]
    rcases (hchildren d x hd).mp hx with ⟨rfl, rfl⟩ | ⟨hmem, hne⟩
    · exact ⟨hlive, if_pos rfl⟩
    · rw [if_neg hne]
      exact hs.child d x hd hmem
  · rw [hlives] at hd
    have hbase : (if d = p then (s.dentry d).children.erase c else (s.dentry d).children).Nodup := by
      split
      · exact (hs.nodup d hd).erase c
      · exact hs.nodup d hd
    rw [(hkept d).2.2.2.2]
    split
    · refine List.nodup_cons.mpr ⟨fun hmem => ?_, hbase⟩
      split at hmem
      · exact (hs.nodup d hd).mem_erase_iff.mp hmem |>.1 rfl
      · rename_i hdp
        have := (hs.child d c hd hmem).2
        rw [hparent] at this
        exact hdp (Option.some.inj this).symm
    · exact hbase
  · rw [hlives] at hd
    rw [(hkept x).2.2.1, (hkept x').2.2.1] at hn
    rcases (hchildren d x hd).mp hx with ⟨hdq, hxc⟩ | ⟨hmem, hne⟩ <;>
      rcases (hchildren d x' hd).mp hx' with ⟨hdq', hxc'⟩ | ⟨hmem', hne'⟩
    · rw [hxc, hxc']
    · rw [if_pos hxc, if_neg hne'] at hn
      rw [hdq] at hmem'
      exact absurd (hnew x' hmem' hn.symm) hne'
    · rw [if_neg hne, if_pos hxc'] at hn
      rw [hdq'] at hmem
      exact absurd (hnew x hmem hn) hne
    · rw [if_neg hne, if_neg hne'] at hn
      exact hs.names d x x' hd hmem hmem' hn

end CapyOS.Proofs
