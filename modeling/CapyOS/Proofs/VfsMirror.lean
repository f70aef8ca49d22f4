import CapyOS.Proofs.VfsPermissions
import CapyOS.Proofs.CapyfsRuns

namespace CapyOS.Proofs
open Lib FsM Volume Function List
variable {name : Name} {x : CapyInodeDisk}

/-- A cached inode that says what the record says. -/
structure Agrees (v : Volume) (h : VInode) : Prop extends Valid v h where
  size : h.size = (v.inode h.ino).size

/-- Every cached name is on disk, under the inode it is cached with, and every
inode is cached once. -/
structure Mirrors (v : Volume) (s : Vfs) : Prop where
  tree : DentryTree s
  root : (s.dentry 0).inode.ino = 0
  up : ∀ d, s.live d = true → d ≠ 0 → ∃ p, s.live p = true ∧ d ∈ (s.dentry p).children
  agrees : ∀ d, s.live d = true → Agrees v (s.dentry d).inode
  child : ∀ p c, s.live p = true → c ∈ (s.dentry p).children →
    ∃ j, NamesAt v (s.dentry p).inode.ino (s.dentry c).name j (s.dentry c).inode.ino
  inj : ∀ d d', s.live d = true → s.live d' = true →
    (s.dentry d).inode.ino = (s.dentry d').inode.ino → d = d'

variable {v w : Volume} {s t : Vfs}

theorem Mirrors.congr (hs : Mirrors v s) (hl : SameLinks s t)
    (hi : ∀ d, (t.dentry d).inode = (s.dentry d).inode) : Mirrors v t := by
  refine ⟨hl.tree hs.tree, ?_, ?_, ?_, ?_, ?_⟩
  all_goals simp only [hl.live, hl.children, hl.name, hi]
  · exact hs.root
  · exact hs.up
  · exact hs.agrees
  · exact hs.child
  · exact hs.inj

theorem NamesAt.congr {dir j t : Nat} (h : NamesAt v dir name j t)
    (hd : w.dirents = v.dirents) : NamesAt w dir name j t := by
  refine ⟨by rw [hd]; exact h.dirent, h.short, h.used, fun j' hj => ?_⟩
  rw [entries_congr hd, hd]
  exact h.first j' hj

theorem Mirrors.stays {p : Prop} (hs : Mirrors v s) (h : Stays p v w) : Mirrors w s := by
  refine ⟨hs.tree, hs.root, hs.up, fun d hd => ?_, fun p c hp hc => ?_, hs.inj⟩
  · have ha := hs.agrees d hd
    refine ⟨ha.toValid.stays h, ?_⟩
    rw [h.inode _ ha.live]
    exact ha.size
  · obtain ⟨j, hj⟩ := hs.child p c hp hc
    exact ⟨j, hj.congr h.dirents⟩

theorem Mirrors.uncached (hs : Mirrors v s) (hv : v.Safe) {p j i : Nat}
    (hp : s.live p = true) (hnew : dentryLookupChild s p name = none)
    (hat : NamesAt v (s.dentry p).inode.ino name j i) {d : Nat} (hd : s.live d = true) : (s.dentry d).inode.ino ≠ i := by
  intro hi
  have hd0 : d ≠ 0 := by
    rintro rfl
    rw [hs.root] at hi
    exact hat.used hi.symm
  obtain ⟨q, hq, hmem⟩ := hs.up d hd hd0
  obtain ⟨j', hat'⟩ := hs.child q d hq hmem
  rw [hi] at hat'
  have hk := hv.inodes.once (_, j) (_, j') (by rw [hat.entries]; exact hat.used)
    (by rw [hat.entries, hat'.entries])
  simp only [Prod.mk.injEq] at hk
  have hpq := hs.inj p q hp hq hk.1
  have hname : (s.dentry d).name = name := by
    have h1 := hat.dirent
    rw [hk.1, hk.2, hat'.dirent] at h1
    exact congrArg Prod.snd h1
  rw [← hpq] at hmem
  exact lookupChild_none hnew hmem hname

theorem Mirrors.cache (hs : Mirrors v s) {p j : Nat} (hp : s.live p = true)
    (hlen : name.length < vfsNameMax) (hnew : dentryLookupChild s p name = none) {inode : VInode}
    (ha : Agrees v inode) (hat : NamesAt v (s.dentry p).inode.ino name j inode.ino)
    (hfree : ∀ d, s.live d = true → (s.dentry d).inode.ino ≠ inode.ino) : Mirrors v (cacheChild s p name inode) := by
  have hpn := hs.tree.bound p hp
  have hcopy : copyName name = name := take_of_length_le (Nat.le_sub_one_of_lt hlen)
  have hlive := live_cacheChild s p name inode
  have hfresh := cache_new s name inode hpn
  have hold : ∀ d, s.live d = true → (cacheChild s p name inode).dentry d = _ := fun d hd =>
    cache_old s name inode (hs.tree.bound d hd)
  refine ⟨hs.tree.cache hp hlen hnew inode, ?_, fun d hd h0 => ?_, fun d hd => ?_,
    fun q c hq hc => ?_, fun d d' hd hd' he => ?_⟩
  · rw [hold 0 hs.tree.root.1]
    exact hs.root
  · rcases (hlive d).mp hd with rfl | hd
    · refine ⟨p, (hlive p).mpr (.inr hp), ?_⟩
      rw [cache_parent s name inode hpn]
      exact mem_cons_self
    · obtain ⟨q, hq, hmem⟩ := hs.up d hd h0
      refine ⟨q, (hlive q).mpr (.inr hq), ?_⟩
      rw [hold q hq]
      simp only
      split
      · exact mem_cons_of_mem _ hmem
      · exact hmem
  · rcases (hlive d).mp hd with rfl | hd
    · rw [hfresh]
      exact ha
    · rw [hold d hd]
      exact hs.agrees d hd
  · rcases (hlive q).mp hq with rfl | hq
    · rw [hfresh] at hc
      cases hc
    · have hcases : (q = p ∧ c = s.next) ∨ c ∈ (s.dentry q).children := by
        rw [hold q hq] at hc
        simp only at hc
        split at hc
        · rename_i hqp
          rcases mem_cons.mp hc with hc | hc
          · exact .inl ⟨hqp, hc⟩
          · exact .inr hc
        · exact .inr hc
      rw [hold q hq]
      rcases hcases with ⟨rfl, rfl⟩ | hc
      · rw [hfresh]
        exact ⟨j, by rw [hcopy]; exact hat⟩
      · rw [hold c (hs.tree.child q c hq hc).1]
        exact hs.child q c hq hc
  · rcases (hlive d).mp hd with rfl | hd <;> rcases (hlive d').mp hd' with rfl | hd'
    · rfl
    · rw [hfresh, hold d' hd'] at he
      exact absurd he.symm (hfree d' hd')
    · rw [hfresh, hold d hd] at he
      exact absurd he (hfree d hd)
    · rw [hold d hd, hold d' hd'] at he
      exact hs.inj d d' hd hd' he

theorem Named.namesAt {dir : Nat} (h : Named v dir 0 name)
    (hlen : name.length < capyfsNameMax) : ∃ j i, NamesAt v dir name j i := by
  classical
  have hex : ∃ j, v.entries (dir, j) ≠ 0 ∧ (v.dirents (dir, j)).2 = name := by
    obtain ⟨j, -, h1, h2⟩ := h
    exact ⟨j, h1, h2⟩
  obtain ⟨h1, h2⟩ := Nat.find_spec hex
  refine ⟨Nat.find hex, v.entries (dir, Nat.find hex), Prod.ext rfl h2, hlen, h1, fun j' hj hused hn => ?_⟩
  exact Nat.find_min hex hj ⟨hused, hn⟩

theorem Created.namesAt {dir c : Nat} (hc : Created v w dir c name x)
    (hz : IsCString name) {d j i : Nat} {n : Name} (h : NamesAt v d n j i) : NamesAt w d n j i := by
  obtain ⟨j0, e, hfree, -, hname, hw⟩ := hc.place
  have hne : (d, j) ≠ (dir, j0) := by
    intro he
    rw [← he, h.entries] at hfree
    exact h.used hfree
  refine ⟨by rw [hw, update_of_ne hne]; exact h.dirent, h.short, h.used, fun j' hj hused hn => ?_⟩
  unfold Volume.entries at hused
  rw [hw] at hused hn
  by_cases hk : (d, j') = (dir, j0)
  · rw [hk, update_self, hname hz] at hn
    have hd : d = dir := congrArg Prod.fst hk
    rw [hd, ← hn] at h
    exact hc.new h.named
  · rw [update_of_ne hk] at hused hn
    exact h.first j' hj hused hn

theorem Created.newName {dir c : Nat} (hv : v.Safe)
    (hc : Created v w dir c name x) (hz : IsCString name) (hlen : name.length < capyfsNameMax) :
    ∃ j, NamesAt w dir name j c := by
  obtain ⟨j0, e, -, hino, hname, hw⟩ := hc.place
  have hc0 : c ≠ 0 := by
    rintro rfl
    have := hc.free
    rw [hv.root.1] at this
    cases this
  refine ⟨j0, ?_, hlen, hc0, fun j' hj hused hn => ?_⟩
  · rw [hw, update_self, ← hino, ← hname hz]
  · have hk : (dir, j') ≠ (dir, j0) := by
      intro he
      exact Nat.ne_of_lt hj (congrArg Prod.snd he)
    unfold Volume.entries at hused
    rw [hw, update_of_ne hk] at hused hn
    exact hc.new ⟨j', Nat.zero_le _, hused, hn⟩

def resized (w : Volume) (s : Vfs) (p : Nat) : Vfs :=
  s.setInode p { (s.dentry p).inode with size := (w.inode (s.dentry p).inode.ino).size }

theorem resized_inode (w : Volume) (s : Vfs) (p d : Nat) : ((resized w s p).dentry d).inode = if d = p then
      { (s.dentry p).inode with size := (w.inode (s.dentry p).inode.ino).size } else (s.dentry d).inode := by
  unfold resized Vfs.setInode
  rw [setDentry_dentry]
  split <;> rfl

theorem SameLinks.resized (w : Volume) (s : Vfs) (p : Nat) : SameLinks s (resized w s p) :=
  .setDentry s p _ _

theorem resized_ino (w : Volume) (s : Vfs) (p d : Nat) : ((resized w s p).dentry d).inode.ino = (s.dentry d).inode.ino := by
  rw [resized_inode]
  split
  · rename_i h
    rw [h]
  · rfl

theorem Mirrors.resized_agrees (hs : Mirrors v s) {p : Nat} (hp : s.live p = true) (hvalid : ∀ h, Valid v h → Valid w h)
    (hothers : ∀ i, v.imap i = true → i ≠ (s.dentry p).inode.ino → w.inode i = v.inode i) {d : Nat}
    (hd : s.live d = true) : Agrees w ((resized w s p).dentry d).inode := by
  have ha := hs.agrees d hd
  rw [resized_inode]
  split
  · rename_i h
    subst h
    have hw := hvalid _ ha.toValid
    exact ⟨⟨hw.live, hw.mode⟩, rfl⟩
  · rename_i hne
    refine ⟨hvalid _ ha.toValid, ?_⟩
    rw [hothers _ ha.live (fun he => hne (hs.inj d p hd hp he))]
    exact ha.size

theorem Mirrors.created (hs : Mirrors v s) (hv : v.Safe) {p : Nat} (hp : s.live p = true)
    (hz : IsCString name) (hlen : name.length < vfsNameMax)
    (hnew : dentryLookupChild s p name = none) {inode : VInode}
    (hc : Created v w (s.dentry p).inode.ino inode.ino name x) (hmode : x.mode = inode.mode)
    (hsize : inode.size = x.size) : Mirrors w (cacheChild (resized w s p) p name inode) := by
  have hl := SameLinks.resized w s p
  have hfree : ∀ d, s.live d = true → (s.dentry d).inode.ino ≠ inode.ino := by
    intro d hd he
    have := (hs.agrees d hd).live
    rw [he, hc.free] at this
    cases this
  have hu : Mirrors w (resized w s p) := by
    refine ⟨hl.tree hs.tree, ?_, ?_, fun d hd => ?_, fun q c hq hmem => ?_, ?_⟩
    · rw [resized_ino]
      exact hs.root
    · simp only [hl.live, hl.children]
      exact hs.up
    · exact hs.resized_agrees hp (fun h hh => hh.created hc) hc.others ((congrFun hl.live d) ▸ hd)
    · rw [hl.live] at hq
      rw [hl.children] at hmem
      obtain ⟨j, hat⟩ := hs.child q c hq hmem
      rw [resized_ino, resized_ino, hl.name]
      exact ⟨j, hc.namesAt hz hat⟩
    · simp only [hl.live, resized_ino]
      exact hs.inj
  obtain ⟨j, hat⟩ := hc.newName hv hz hlen
  refine hu.cache ((congrFun hl.live p).trans hp) hlen (by rw [hl.lookup]; exact hnew) ⟨⟨?_, ?_⟩, ?_⟩
    (j := j) ?_ (fun d hd => ?_)
  · rw [hc.imap, update_self]
  · rw [hc.record]
    exact hmode
  · rw [hc.record]
    exact hsize
  · rw [resized_ino]
    exact hat
  · rw [resized_ino]
    exact hfree d ((congrFun hl.live d) ▸ hd)

/-- A removed inode's dentry goes, and takes no other with it. -/
theorem Mirrors.removed (hs : Mirrors v s) {p c j : Nat} (hp : s.live p = true) (hc : c ∈ (s.dentry p).children)
    (hr : Removed v w ((s.dentry p).inode.ino, j) (s.dentry c).inode.ino) (hf : Forgets s t p c) : Mirrors w t := by
  have hcl := (hs.tree.child p c hp hc).1
  have hleaf : ∀ x, x ∉ (s.dentry c).children := by
    intro x hx
    obtain ⟨j', hat⟩ := hs.child c x hcl hx
    exact hat.used (hat.entries.symm.trans (hr.empty j'))
  have hbelow : ∀ d, Below s c d → d = c := by
    intro d hd
    induction hd with
    | self => rfl
    | child _ hmem ih =>
      rw [ih] at hmem
      exact absurd hmem (hleaf _)
  have hlive : ∀ d, t.live d = true ↔ s.live d = true ∧ d ≠ c := by
    intro d
    constructor
    · intro hd
      refine ⟨hf.live d hd, ?_⟩
      rintro rfl
      rw [hf.dead] at hd
      cases hd
    · rintro ⟨hd, hne⟩
      by_contra hoff
      exact hne (hbelow d (hf.below d hd (by simpa using hoff)))
  have hdentry : ∀ d, (t.dentry d).name = (s.dentry d).name ∧ (t.dentry d).inode = (s.dentry d).inode := by
    intro d
    rw [hf.dentry d]
    split <;> exact ⟨rfl, rfl⟩
  have hdiff : ∀ d, s.live d = true → d ≠ c → (s.dentry d).inode.ino ≠ (s.dentry c).inode.ino :=
    fun d hd hne he => hne (hs.inj d c hd hcl he)
  refine ⟨hf.tree, ?_, fun d hd h0 => ?_, fun d hd => ?_, fun q x hq hx => ?_, fun d d' hd hd' he => ?_⟩
  · rw [(hdentry 0).2]
    exact hs.root
  · obtain ⟨hds, hne⟩ := (hlive d).mp hd
    obtain ⟨q, hq, hmem⟩ := hs.up d hds h0
    refine ⟨q, (hlive q).mpr ⟨hq, ?_⟩, ?_⟩
    · rintro rfl
      exact hleaf d hmem
    · rw [hf.dentry q]
      split
      · exact (mem_erase_of_ne hne).mpr hmem
      · exact hmem
  · obtain ⟨hds, hne⟩ := (hlive d).mp hd
    have ha := hs.agrees d hds
    rw [(hdentry d).2]
    refine ⟨ha.toValid.removed hr (hdiff d hds hne), ?_⟩
    rw [hr.others _ (hdiff d hds hne)]
    exact ha.size
  · obtain ⟨hqs, -⟩ := (hlive q).mp hq
    have hmem := hf.children hx
    obtain ⟨hxs, hxc⟩ := (hlive x).mp (hf.tree.child q x hq hx).1
    obtain ⟨j', hat⟩ := hs.child q x hqs hmem
    rw [(hdentry q).2, (hdentry x).2, (hdentry x).1]
    refine ⟨j', ?_, hat.short, hat.used, fun j'' hlt hused hn => ?_⟩
    · rw [hr.dirents _ ?_ (by rw [hat.entries]; exact hat.used)]
      · exact hat.dirent
      · intro hk
        have h1 := hat.entries
        rw [hk, hr.named] at h1
        exact hdiff x hxs hxc h1.symm
    · rw [hr.entries] at hused
      by_cases hk : ((s.dentry q).inode.ino, j'') = ((s.dentry p).inode.ino, j)
      · rw [hk, update_self] at hused
        exact hused rfl
      · rw [update_of_ne hk] at hused
        rw [hr.dirents _ hk hused] at hn
        exact hat.first j'' hlt hused hn
  · obtain ⟨hds, -⟩ := (hlive d).mp hd
    obtain ⟨hds', -⟩ := (hlive d').mp hd'
    rw [(hdentry d).2, (hdentry d').2] at he
    exact hs.inj d d' hds hds' he

structure MovedEntry (v w : Volume) (k : Nat × Nat) (dst : Nat) (name : Name) (j : Nat) : Prop where
  dirent : w.dirents (dst, j) = (v.entries k, name)
  others : ∀ k', k' ≠ (dst, j) → w.entries k' ≠ 0 →
    k' ≠ k ∧ w.dirents k' = v.dirents k' ∧ v.entries k' ≠ 0
  stay : ∀ k', k' ≠ k → v.entries k' ≠ 0 → k' ≠ (dst, j) ∧ w.dirents k' = v.dirents k'

theorem Moved.entry {k : Nat × Nat} {dst : Nat} {name : Name} (hm : Moved v w k dst name)
    (hz : IsCString name) (hlen : name.length < capyfsNameMax) : ∃ j, MovedEntry v w k dst name j ∧ (dst = k.1 → j = k.2) := by
  rcases hm.place with ⟨hsame, e, he, hname, hw⟩ | ⟨hne, -, j, e, e0, hfree, he, hname, he0, hw⟩
  · have hk : (dst, k.2) = k := Prod.ext hsame rfl
    have hn : e.2 = name := (hname hz).trans (take_of_length_le (Nat.le_of_lt_succ hlen))
    refine ⟨k.2, ⟨?_, fun k' hk' hused => ?_, fun k' hk' _ => ?_⟩, fun _ => rfl⟩
    · rw [hk, hw, update_self, ← he, ← hn]
    · rw [hk] at hk'
      unfold Volume.entries at hused ⊢
      rw [hw, update_of_ne hk'] at hused ⊢
      exact ⟨hk', rfl, hused⟩
    · rw [hk, hw, update_of_ne hk']
      exact ⟨hk', rfl⟩
  · have hk : (dst, j) ≠ k := fun h => hne (congrArg Prod.fst h)
    refine ⟨j, ⟨?_, fun k' hk' hused => ?_, fun k' hk' hused => ?_⟩, fun h => absurd h hne⟩
    · rw [hw, update_of_ne hk, update_self, ← he, ← hname hz]
    · have hkk : k' ≠ k := by
        rintro rfl
        unfold Volume.entries at hused
        rw [hw, update_self] at hused
        exact hused he0
      unfold Volume.entries at hused ⊢
      rw [hw, update_of_ne hkk, update_of_ne hk'] at hused ⊢
      exact ⟨hkk, rfl, hused⟩
    · have hkj : k' ≠ (dst, j) := by
        rintro rfl
        exact hused hfree
      rw [hw, update_of_ne hk', update_of_ne hkj]
      exact ⟨hkj, rfl⟩

theorem Mirrors.moved (hs : Mirrors v s) {sp c dp j : Nat} {dn : Name} (hsp : s.live sp = true)
    (hdp : s.live dp = true) (hc : c ∈ (s.dentry sp).children) (hz : IsCString dn) (hlen : dn.length < vfsNameMax)
    (hat : NamesAt v (s.dentry sp).inode.ino (s.dentry c).name j (s.dentry c).inode.ino)
    (hplace : (dentryLookupChild s dp dn = none ∧ ¬ ∃ j i, NamesAt v (s.dentry dp).inode.ino dn j i) ∨
      dentryLookupChild s dp dn = some c) (hm : Moved v w ((s.dentry sp).inode.ino, j) (s.dentry dp).inode.ino dn)
    (hr : Relinks (resized w s dp) t sp c dp dn) : Mirrors w t := by
  have hl := SameLinks.resized w s dp
  have hcl := (hs.tree.child sp c hsp hc).1
  have hlive : t.live = s.live := hr.live.trans hl.live
  have hino : ∀ d, (t.dentry d).inode.ino = (s.dentry d).inode.ino := fun d => by
    rw [hr.inode, resized_ino]
  have hname : ∀ d, (t.dentry d).name = if d = c then dn else (s.dentry d).name := fun d => by
    rw [hr.name, hl.name]
  have hchildren : ∀ d x, s.live d = true → (x ∈ (t.dentry d).children ↔
      (d = dp ∧ x = c) ∨ (x ∈ (s.dentry d).children ∧ x ≠ c)) := by
    intro d x hd
    rw [hr.children d x ((congrFun hl.live d).trans hd), hl.children]
  obtain ⟨j2, hentry, hsamej⟩ := hm.entry hz hlen
  have hk : v.entries ((s.dentry sp).inode.ino, j) = (s.dentry c).inode.ino := hat.entries
  -- a sibling at the new place would have been found
  have hsib : ∀ d x, s.live d = true → (s.dentry d).inode.ino = (s.dentry dp).inode.ino →
      x ∈ (s.dentry d).children → x ≠ c → (s.dentry x).name ≠ dn := by
    intro d x hd he hx hxc hn
    have hddp := hs.inj d dp hd hdp he
    rw [hddp] at hx
    have hfind := hs.tree.lookup hdp hx
    rw [hn] at hfind
    rcases hplace with ⟨hnone, -⟩ | hsome
    · rw [hnone] at hfind
      cases hfind
    · rw [hsome] at hfind
      exact hxc (Option.some.inj hfind).symm
  refine ⟨hr.tree, ?_, fun d hd h0 => ?_, fun d hd => ?_, fun d x hd hx => ?_, fun d d' hd hd' he => ?_⟩
  · rw [hino]
    exact hs.root
  · rw [hlive] at hd
    by_cases hdc : d = c
    · refine ⟨dp, by rw [hlive]; exact hdp, (hchildren dp d hdp).mpr (.inl ⟨rfl, hdc⟩)⟩
    · obtain ⟨q, hq, hmem⟩ := hs.up d hd h0
      exact ⟨q, by rw [hlive]; exact hq, (hchildren q d hq).mpr (.inr ⟨hmem, hdc⟩)⟩
  · rw [hlive] at hd
    rw [hr.inode]
    exact hs.resized_agrees hdp (fun h hh => hh.moved hm) (fun i _ => hm.others i) hd
  · rw [hlive] at hd
    rw [hino, hino, hname]
    rcases (hchildren d x hd).mp hx with ⟨rfl, rfl⟩ | ⟨hmem, hxc⟩
    · -- the moved name itself
      rw [if_pos rfl]
      refine ⟨j2, by rw [hentry.dirent, hk], hlen, hat.used, fun j' hlt hused hn => ?_⟩
      have hne : ((s.dentry d).inode.ino, j') ≠ ((s.dentry d).inode.ino, j2) := fun h =>
        Nat.ne_of_lt hlt (congrArg Prod.snd h)
      obtain ⟨-, hdirent, hvused⟩ := hentry.others _ hne hused
      rw [hdirent] at hn
      rcases hplace with ⟨-, hnone⟩ | hsome
      · exact hnone (Named.namesAt ⟨j', Nat.zero_le _, hvused, hn⟩ hlen)
      · obtain ⟨hcd, hcn⟩ := lookupChild_mem hsome
        have hpp : sp = d := by
          have h1 := (hs.tree.child sp x hsp hc).2
          rw [(hs.tree.child d x hd hcd).2] at h1
          exact (Option.some.inj h1).symm
        subst hpp
        rw [hsamej rfl] at hlt
        rw [← hcn] at hn
        exact hat.first j' hlt hvused hn
    · -- any other name
      rw [if_neg hxc]
      have hxl := (hs.tree.child d x hd hmem).1
      obtain ⟨jx, hatx⟩ := hs.child d x hd hmem
      have hkx : ((s.dentry d).inode.ino, jx) ≠ ((s.dentry sp).inode.ino, j) := by
        intro h
        have h1 := hatx.entries
        rw [h, hk] at h1
        exact hxc (hs.inj x c hxl hcl h1.symm)
      have hused : v.entries ((s.dentry d).inode.ino, jx) ≠ 0 := by
        rw [hatx.entries]
        exact hatx.used
      refine ⟨jx, by rw [(hentry.stay _ hkx hused).2]; exact hatx.dirent, hatx.short, hatx.used, fun j' hlt hused' hn => ?_⟩
      by_cases hplaced : ((s.dentry d).inode.ino, j') = ((s.dentry dp).inode.ino, j2)
      · rw [hplaced, hentry.dirent] at hn
        exact hsib d x hd (congrArg Prod.fst hplaced) hmem hxc hn.symm
      · obtain ⟨-, hdirent, hvused⟩ := hentry.others _ hplaced hused'
        rw [hdirent] at hn
        exact hatx.first j' hlt hvused hn
  · rw [hlive] at hd hd'
    rw [hino, hino] at he
    exact hs.inj d d' hd hd' he

end CapyOS.Proofs
