import CapyOS.Proofs.VfsCalls
import CapyOS.Proofs.CapyfsMount

namespace CapyOS.Proofs
open Lib Function List
variable {d : Nat} {t : Vfs}

structure Counted (s : VfsSession) : Prop where
  tree : DentryTree s.vfs
  file : ∀ f x, s.vfs.file f = some x → f < s.vfs.nextFile ∧ s.vfs.live x.dentry = true
  held : ∀ d ∈ s.held, s.vfs.live d = true
  count : ∀ d, s.vfs.live d = true → (s.vfs.dentry d).refcount.toNat = 1 + references s d

theorem openFiles_mem {s : Vfs} {d f : Nat} : f ∈ openFiles s d ↔ f < s.nextFile ∧ ∃ x, s.file f = some x ∧ x.dentry = d := by
  unfold openFiles
  rw [Finset.mem_filter, Finset.mem_range, Option.map_eq_some_iff]

theorem openFiles_congr {s t : Vfs} (hn : t.nextFile = s.nextFile)
    (hf : ∀ f, (t.file f).map File.dentry = (s.file f).map File.dentry) (d : Nat) : openFiles t d = openFiles s d := by
  unfold openFiles
  rw [hn]
  simp only [hf]

theorem openFiles_more {v w : Vfs} {x : File} (hn : w.nextFile = v.nextFile + 1)
    (hf : w.file = update v.file v.nextFile (some x)) (e : Nat) :
    (openFiles w e).card = (openFiles v e).card + if e = x.dentry then 1 else 0 := by
  have hold : (Finset.range v.nextFile).filter (fun f => (w.file f).map File.dentry = some e) =
      openFiles v e := by
    refine Finset.filter_congr fun f hlt => ?_
    rw [hf, update_of_ne (Nat.ne_of_lt (Finset.mem_range.mp hlt))]
  have hnew : (w.file v.nextFile).map File.dentry = some x.dentry := by
    rw [hf, update_self]
    rfl
  unfold openFiles at hold ⊢
  rw [hn, Finset.range_add_one, Finset.filter_insert, hnew, hold]
  by_cases he : e = x.dentry
  · rw [if_pos (congrArg some he.symm), if_pos he, Finset.card_insert_of_notMem]
    intro hmem
    exact Nat.lt_irrefl _ (openFiles_mem.mp hmem).1
  · rw [if_neg (fun h => he (Option.some.inj h).symm), if_neg he, Nat.add_zero]

section
variable {s : VfsSession}

theorem Counted.unused (hs : Counted s) (hd : s.vfs.live d = false) : references s d = 0 := by
  have hfiles : openFiles s.vfs d = ∅ := by
    refine Finset.eq_empty_of_forall_notMem fun f hf => ?_
    obtain ⟨-, x, hx, rfl⟩ := openFiles_mem.mp hf
    rw [(hs.file f x hx).2] at hd
    cases hd
  have hheld : s.held.count d = 0 := by
    refine count_eq_zero.mpr fun hmem => ?_
    rw [hs.held d hmem] at hd
    cases hd
  simp [references, hfiles, hheld]

theorem Counted.keep (hs : Counted s) (ht : DentryTree t) (hn : t.nextFile = s.vfs.nextFile)
    (hf : ∀ f, (t.file f).map File.dentry = (s.vfs.file f).map File.dentry)
    (hstay : ∀ d, s.vfs.live d = true → references s d ≠ 0 → t.live d = true) (hcount : ∀ d, t.live d = true →
      (s.vfs.live d = true ∧ (t.dentry d).refcount = (s.vfs.dentry d).refcount) ∨
      (s.vfs.live d = false ∧ (t.dentry d).refcount = 1)) : Counted { s with vfs := t } := by
  have hrefs : ∀ d, references { s with vfs := t } d = references s d := fun d => by
    simp only [references, openFiles_congr hn hf]
  refine ⟨ht, fun f x hx => ?_, fun d hd => ?_, fun d hd => ?_⟩
  · have hx' : (t.file f).map File.dentry = some x.dentry := by
      rw [show t.file f = some x from hx]
      rfl
    rw [hf f] at hx'
    obtain ⟨y, hy, hyx⟩ := Option.map_eq_some_iff.mp hx'
    obtain ⟨hlt, hlive⟩ := hs.file f y hy
    refine ⟨hlt.trans_eq hn.symm, ?_⟩
    rw [hyx] at hlive
    refine hstay x.dentry hlive (Nat.ne_of_gt (Nat.add_pos_left (Finset.card_pos.mpr ⟨f, ?_⟩) _))
    exact openFiles_mem.mpr ⟨hlt, y, hy, hyx⟩
  · have hpos : 0 < s.held.count d := count_pos_iff.mpr hd
    exact hstay d (hs.held d hd) (Nat.ne_of_gt (Nat.add_pos_right _ hpos))
  · rw [hrefs]
    rcases hcount d hd with ⟨hlive, he⟩ | ⟨hdead, he⟩
    · rw [he]
      exact hs.count d hlive
    · rw [he, hs.unused hdead]
      rfl

theorem Counted.grows (hs : Counted s) (h : Grows s.vfs t) : Counted { s with vfs := t } := by
  refine hs.keep h.tree h.caches.nextFile (fun f => by rw [h.caches.file]) (fun d hd _ => ?_)
    (fun d hd => ?_)
  · rw [h.caches.live d (hs.tree.bound d hd)]
    exact hd
  · rcases Nat.lt_or_ge d s.vfs.next with hlt | hge
    · rw [h.caches.live d hlt] at hd
      exact .inl ⟨hd, h.caches.refcount d hlt⟩
    · refine .inr ⟨?_, h.caches.fresh d hge (h.tree.bound d hd)⟩
      by_contra hlive
      have := hs.tree.bound d (by simpa using hlive)
      omega

theorem Counted.setFs (hs : Counted s) (fs : Fs) : Counted { s with vfs := setFs s.vfs fs } :=
  hs.keep ((SameLinks.setFs s.vfs fs).tree hs.tree) rfl (fun _ => rfl) (fun _ h _ => h)
    (fun _ h => .inl ⟨h, rfl⟩)

theorem Counted.setInode (hs : Counted s) (d : Nat) (inode : VInode) : Counted { s with vfs := s.vfs.setInode d inode } := by
  refine hs.keep ((SameLinks.setDentry s.vfs d inode _).tree hs.tree) rfl (fun _ => rfl)
    (fun _ h _ => h) (fun e he => .inl ⟨he, ?_⟩)
  unfold Vfs.setInode
  rw [setDentry_dentry]
  split
  · rename_i h
    rw [h]
  · rfl

theorem Counted.forget (hs : Counted s) {p c : Nat} (h : Forgets s.vfs t p c)
    (hfree : ∀ d, Below s.vfs c d → references s d = 0) : Counted { s with vfs := t } := by
  refine hs.keep h.tree h.nextFile (fun f => by rw [h.file]) (fun d hd hused => ?_)
    (fun d hd => .inl ⟨h.live d hd, ?_⟩)
  · by_contra hoff
    exact hused (hfree d (h.below d hd (by simpa using hoff)))
  · rw [h.dentry d]
    split <;> rfl

theorem Counted.move (hs : Counted s) {p c q : Nat} {name : Name}
    (h : Relinks s.vfs t p c q name) : Counted { s with vfs := t } := by
  refine hs.keep h.tree h.nextFile (fun f => by rw [h.file]) (fun d hd _ => ?_) (fun d hd => ?_)
  · rw [h.live]
    exact hd
  · rw [h.live] at hd
    exact .inl ⟨hd, h.refcount d⟩

theorem retain_refcount (v : Vfs) (d e : Nat) : ((v.retain d).dentry e).refcount =
      if e = d then (v.dentry e).refcount + 1 else (v.dentry e).refcount := by
  unfold Vfs.retain
  rw [setDentry_dentry]
  split
  · rename_i h
    rw [h]
  · rfl

theorem release_refcount {v : Vfs} (h : (v.dentry d).refcount ≠ 0) (e : Nat) : ((v.release d).dentry e).refcount =
      if e = d then (v.dentry e).refcount - 1 else (v.dentry e).refcount := by
  unfold Vfs.release
  rw [if_neg h, setDentry_dentry]
  split
  · rename_i h
    rw [h]
  · rfl

theorem SameLinks.retain (v : Vfs) (d : Nat) : SameLinks v (v.retain d) :=
  .setDentry v d _ _

theorem Counted.more {s' : VfsSession} (hs : Counted s) {d : Nat}
    (hlinks : SameLinks s.vfs s'.vfs)
    (hrefcount : ∀ e, (s'.vfs.dentry e).refcount =
      if e = d then (s.vfs.dentry e).refcount + 1 else (s.vfs.dentry e).refcount)
    (hrefs : ∀ e, references s' e = references s e + if e = d then 1 else 0)
    (hroom : references s d + 2 < 2 ^ 32)
    (hfile : ∀ f x, s'.vfs.file f = some x → f < s'.vfs.nextFile ∧ s'.vfs.live x.dentry = true)
    (hheld : ∀ e ∈ s'.held, s'.vfs.live e = true) : Counted s' := by
  refine ⟨hlinks.tree hs.tree, hfile, hheld, fun e he => ?_⟩
  rw [hlinks.live] at he
  have hcount := hs.count e he
  rw [hrefcount, hrefs]
  split
  · rename_i hed
    subst hed
    rw [BitVec.toNat_add, hcount, show (1 : BitVec 32).toNat = 1 from rfl, Nat.mod_eq_of_lt (by omega)]
    omega
  · exact hcount

theorem Counted.fewer {s' : VfsSession} (hs : Counted s)
    (hlinks : SameLinks s.vfs s'.vfs)
    (hrefcount : ∀ e, (s'.vfs.dentry e).refcount =
      if e = d then (s.vfs.dentry e).refcount - 1 else (s.vfs.dentry e).refcount)
    (hrefs : ∀ e, references s e = references s' e + if e = d then 1 else 0)
    (hfile : ∀ f x, s'.vfs.file f = some x → f < s'.vfs.nextFile ∧ s'.vfs.live x.dentry = true)
    (hheld : ∀ e ∈ s'.held, s'.vfs.live e = true) : Counted s' := by
  refine ⟨hlinks.tree hs.tree, hfile, hheld, fun e he => ?_⟩
  rw [hlinks.live] at he
  have hcount := hs.count e he
  have hlt := (s.vfs.dentry e).refcount.isLt
  rw [hrefs e] at hcount
  rw [hrefcount]
  split at hcount
  · rename_i hed
    rw [if_pos hed, BitVec.toNat_sub, hcount, show (1 : BitVec 32).toNat = 1 from rfl]
    omega
  · rename_i hed
    rw [if_neg hed, hcount, Nat.add_zero]

end

def Careful (m : CapySuper) (s : VfsSession) (x : VfsStep) : Prop :=
  match x.call with
  | .lookup _ | .open _ _ => ∀ d, references s d + 2 < 2 ^ 32
  | .unlink path | .rmdir path => ∀ c, ∀ t,
      vfsResolve x.heap m (s.vfs.setError .ok) path false = (some (c, []), t) →
      ∀ d, Below t c d → references s d = 0
  | .setMetadata path _ => (vfsResolve x.heap m (s.vfs.setError .ok) path false).1 = none
  | _ => True

section
variable {heap : Heap} {m : CapySuper} {s : VfsSession}

theorem lookup_counted (hs : Counted s) (hroom : ∀ d, references s d + 2 < 2 ^ 32) (path : Name) :
    Counted { s with
      vfs := (vfsLookup heap m s.vfs path).2
      held := (vfsLookup heap m s.vfs path).1.toList ++ s.held } := by
  rcases @lookup_cases heap m _ hs.tree path with ⟨t, h, hb⟩ | ⟨d, t, hf, h⟩
  · rw [h]
    exact hs.grows hb.toGrows
  · rw [h]
    have ht := hs.grows hf.toGrows
    have hlinks : SameLinks t ((t.retain d).setError .ok) :=
      (SameLinks.retain t d).trans (.setError _ _)
    have hrefs : references { s with vfs := t } d = references s d := by
      simp only [references, openFiles_congr hf.caches.nextFile (fun f => by rw [hf.caches.file])]
    refine ht.more hlinks (retain_refcount t d) (fun e => ?_) ?_ ht.file (fun e he => ?_)
    · have hfiles : openFiles ((t.retain d).setError .ok) e = openFiles t e :=
        openFiles_congr rfl (fun _ => rfl) e
      simp only [references, hfiles, Option.toList_some, singleton_append, count_cons,
        beq_iff_eq]
      split
      · rename_i hde
        rw [if_pos hde.symm]
        omega
      · rename_i hde
        rw [if_neg (Ne.symm hde)]
        omega
    · rw [hrefs]
      exact hroom d
    · rcases mem_cons.mp he with rfl | he
      · exact hf.live
      · exact ht.held e he

theorem open_counted (hs : Counted s) (hroom : ∀ d, references s d + 2 < 2 ^ 32)
    (user : Option User) (path : Name) (flags : BitVec 32) (opening : Nat → Option Opening) :
    Counted ⟨(vfsOpen heap m user s.vfs path flags).2, s.held, opening⟩ := by
  rcases @open_cases heap m _ hs.tree user path flags with ⟨t, h, hb⟩ | ⟨d, t, hf, openFlags, -, -, h⟩
  · rw [h]
    exact ⟨hb.tree, (hs.grows hb.toGrows).file, (hs.grows hb.toGrows).held, (hs.grows hb.toGrows).count⟩
  · rw [h]
    have ht := hs.grows hf.toGrows
    have hfile : ((openFile t d openFlags).setError .ok).file = _ := openFile_file t d openFlags
    have hopen := openFiles_more (v := t) (w := (openFile t d openFlags).setError .ok) rfl hfile
    have hlinks := (SameLinks.openFile t d openFlags).trans (.setError _ .ok)
    refine ht.more (d := d) hlinks ?_ (fun e => ?_) ?_ (fun f x hx => ?_) ht.held
    · exact retain_refcount ({ t.setFile t.nextFile (some ⟨d, 0, openFlags⟩) with
        nextFile := t.nextFile + 1 } : Vfs) d
    · simp only [references, hopen]
      omega
    · have hrefs : references { s with vfs := t } d = references s d := by
        simp only [references, openFiles_congr hf.caches.nextFile (fun f => by rw [hf.caches.file])]
      rw [hrefs]
      exact hroom d
    · rw [hfile] at hx
      by_cases hfn : f = t.nextFile
      · rw [hfn, update_self] at hx
        cases hx
        exact ⟨by rw [hfn]; exact Nat.lt_succ_self _, hf.live⟩
      · rw [update_of_ne hfn] at hx
        exact ⟨Nat.lt_succ_of_lt (ht.file f x hx).1, (ht.file f x hx).2⟩

theorem Counted.refcount_ne (hs : Counted s) (hd : s.vfs.live d = true) : (s.vfs.dentry d).refcount ≠ 0 := by
  intro h0
  have := hs.count d hd
  rw [h0] at this
  simp at this
  omega

theorem close_counted (hs : Counted s) (f : Nat) : Counted { s with vfs := vfsClose s.vfs f } := by
  unfold vfsClose
  cases hf : s.vfs.file f with
  | none => exact hs
  | some x =>
    simp only
    obtain ⟨hlt, hlive⟩ := hs.file f x hf
    have hrel : (s.vfs.release x.dentry).file = s.vfs.file ∧
        (s.vfs.release x.dentry).nextFile = s.vfs.nextFile := by
      unfold Vfs.release
      split <;> exact ⟨rfl, rfl⟩
    have hfile : ((s.vfs.release x.dentry).setFile f none).file =
        update s.vfs.file f none := by
      unfold Vfs.setFile
      rw [hrel.1]
    have hnext : ((s.vfs.release x.dentry).setFile f none).nextFile = s.vfs.nextFile := hrel.2
    have hopen : ∀ e, (openFiles s.vfs e).card =
        (openFiles ((s.vfs.release x.dentry).setFile f none) e).card + if e = x.dentry then 1 else 0 := by
      intro e
      have hset : openFiles ((s.vfs.release x.dentry).setFile f none) e = (openFiles s.vfs e).erase f := by
        ext g
        rw [Finset.mem_erase, openFiles_mem, openFiles_mem, hfile, hnext]
        by_cases hg : g = f
        · simp [hg]
        · simp [hg]
      rw [hset]
      split
      · rename_i he
        rw [Finset.card_erase_add_one]
        exact openFiles_mem.mpr ⟨hlt, x, hf, he.symm⟩
      · rename_i he
        rw [Finset.erase_eq_of_notMem, Nat.add_zero]
        intro hmem
        obtain ⟨-, y, hy, hye⟩ := openFiles_mem.mp hmem
        rw [hf] at hy
        cases hy
        exact he hye.symm
    have hlinks := SameLinks.release s.vfs x.dentry
    refine hs.fewer (d := x.dentry) ⟨hlinks.next, hlinks.live, hlinks.name, hlinks.parent,
      hlinks.children⟩ (release_refcount (hs.refcount_ne hlive)) (fun e => ?_) (fun g y hy => ?_)
      (fun e he => ?_)
    · simp only [references, hopen]
      omega
    · rw [hfile] at hy
      by_cases hg : g = f
      · rw [hg, update_self] at hy
        cases hy
      · rw [update_of_ne hg] at hy
        refine ⟨(hs.file g y hy).1.trans_eq hnext.symm, ?_⟩
        exact (congrFun hlinks.live y.dentry).trans (hs.file g y hy).2
    · exact (congrFun hlinks.live e).trans (hs.held e he)

theorem put_counted (hs : Counted s) (hd : d ∈ s.held) :
    Counted { s with vfs := s.vfs.release d, held := s.held.erase d } := by
  have hlive := hs.held d hd
  have hlinks := SameLinks.release s.vfs d
  have hrel : (s.vfs.release d).file = s.vfs.file ∧ (s.vfs.release d).nextFile = s.vfs.nextFile := by
    unfold Vfs.release
    split <;> exact ⟨rfl, rfl⟩
  refine hs.fewer (d := d) hlinks (release_refcount (hs.refcount_ne hlive)) (fun e => ?_)
    (fun f x hx => ?_) (fun e he => ?_)
  · have hpos : 0 < s.held.count d := count_pos_iff.mpr hd
    simp only [references, openFiles_congr hrel.2 (fun f => by rw [hrel.1])]
    rw [count_erase]
    by_cases he : e = d
    · subst he
      simp
      omega
    · simp [he, Ne.symm he]
  · simp only [hrel.1] at hx
    refine ⟨(hs.file f x hx).1.trans_eq hrel.2.symm, ?_⟩
    exact (congrFun hlinks.live x.dentry).trans (hs.file f x hx).2
  · exact (congrFun hlinks.live e).trans (hs.held e (mem_of_mem_erase he))

theorem Counted.setFile (hs : Counted s) {f : Nat} {x y : File} (hx : s.vfs.file f = some x)
    (hy : y.dentry = x.dentry) : Counted { s with vfs := s.vfs.setFile f (some y) } := by
  refine hs.keep ⟨hs.tree.root, hs.tree.bound, hs.tree.child, hs.tree.nodup, hs.tree.names⟩ rfl
    (fun g => ?_) (fun _ h _ => h) (fun _ h => .inl ⟨h, rfl⟩)
  by_cases hg : g = f
  · rw [hg, hx]
    simp [Vfs.setFile, hy]
  · simp [Vfs.setFile, hg]

theorem read_counted (hs : Counted s) (f size : Nat) : Counted { s with vfs := (vfsRead m s.vfs f size).2 } := by
  unfold vfsRead
  cases hf : s.vfs.file f with
  | none => exact hs
  | some x =>
    simp only
    generalize capyfsRead m (s.vfs.dentry x.dentry).inode x.position.toNat size s.vfs.fs = r
    cases r.1 with
    | none => exact hs.setFs r.2
    | some b => exact ((hs.setFs r.2).setInode x.dentry b.2).setFile hf rfl

theorem write_counted (hs : Counted s) (f : Nat) (src : Bytes) (size : Nat) :
    Counted { s with vfs := (vfsWrite m s.vfs f src size).2 } := by
  unfold vfsWrite
  cases hf : s.vfs.file f with
  | none => exact hs
  | some x =>
    simp only
    split
    · exact hs
    · generalize capyfsWrite m (s.vfs.dentry x.dentry).inode x.position.toNat src size s.vfs.fs = r
      cases r.1 with
      | none => exact hs.setFs r.2
      | some b => exact ((hs.setFs r.2).setInode x.dentry b.2).setFile hf rfl

theorem Counted.setError (hs : Counted s) (e : VfsError) : Counted { s with vfs := s.vfs.setError e } :=
  hs.grows (Grows.setError (.refl hs.tree) e)

theorem create_counted (hs : Counted s) (user : Option User) (path : Name) (mode : BitVec 16) (info : Option VfsMetadata) :
    Counted { s with vfs := (vfsCreate heap m user s.vfs path mode info).2 } := by
  rcases @create_cases heap m _ hs.tree user path mode info with h | ⟨p, name, t0, t, -, -, hb, hlive,
    -, hlen, hnew, -, info', ⟨-, h⟩ | ⟨inode, -, ⟨-, h⟩ | ⟨-, h⟩⟩⟩
  · exact hs.grows h.toGrows
  all_goals
    rw [h]
    have ht := (hs.grows hb.toGrows).setFs
      (capyfsCreate heap m (t.dentry p).inode name mode (some info') t.fs).2
  · exact ht.setError .io
  · exact ht.grows ((Grows.refresh (.refl ht.tree) p).setError _)
  · exact ht.grows ((cached_grows ht.tree hlive hlen hnew inode).setError _)

theorem Removes.counted {user : Option User} {path : Name} {isDir : Bool} {p c : Nat} {t r : Vfs}
    (hs : Counted s) (h : Removes heap m user s.vfs path isDir p c t r)
    (hfree : ∀ c, ∀ t, vfsResolve heap m (s.vfs.setError .ok) path false = (some (c, []), t) →
      ∀ d, Below t c d → references s d = 0) : Counted { s with vfs := r } := by
  have ht := (hs.grows h.browses.toGrows).setFs
    (capyfsRemove m (t.dentry p).inode (t.dentry c).name isDir t.fs).2
  rcases h.result with ⟨hfail, -⟩ | ⟨-, hr⟩
  · exact ht.grows (h.refused hfail)
  · rw [hr]
    have hr' := Grows.refresh (m := m) (.refl ht.tree) p
    have hall := (SameLinks.setFs t (capyfsRemove m (t.dentry p).inode (t.dentry c).name isDir
      t.fs).2).trans (SameLinks.refresh m _ p)
    refine ((ht.grows hr').forget (h.forgets _) fun d hd => ?_).setError .ok
    -- what is cached beneath the target is what was there once it had been resolved
    obtain ⟨t0, hf, hl⟩ := h.links
    have hrefs : references { s with vfs := (setFs t (capyfsRemove m (t.dentry p).inode
        (t.dentry c).name isDir t.fs).2).refresh m p } d = references s d := by
      have hc := h.browses.caches
      simp only [references, openFiles_congr (hr'.caches.nextFile.trans hc.nextFile)
        (fun f => by rw [hr'.caches.file]; exact congrArg (Option.map File.dentry) (congrFun hc.file f))]
    rw [hrefs]
    exact hfree c t0 hf.resolve d ((hl.trans hall).below hd)

theorem rename_counted (hs : Counted s) (user : Option User) (srcPath dstPath : Name) :
    Counted { s with vfs := (vfsRename heap m user s.vfs srcPath dstPath).2 } := by
  rcases @rename_cases heap m _ hs.tree user srcPath dstPath with h | ⟨sp, c, dp, dn, t, h⟩
  · exact hs.grows h.toGrows
  · have ht := hs.grows h.browses.toGrows
    rcases h.result with ⟨-, hr⟩ | ⟨-, hr⟩
    · rw [hr]
      exact (ht.setFs _).setError .io
    · rw [hr]
      generalize (capyfsRenameInode m (t.dentry sp).inode (t.dentry c).name (t.dentry dp).inode dn
        t.fs).2 = fs
      obtain ⟨hb, hl⟩ := renamed_grows (m := m) h.browses.tree fs sp dp
      exact (((ht.setFs fs).grows hb).move (h.relinks hb.tree hl)).setError .ok

theorem step_counted (hs : Counted s) (x : VfsStep) (hx : Careful m s x) : Counted (x.run m s) := by
  rcases x with ⟨heap, user, call⟩
  unfold VfsStep.run
  cases call with
  | lookup path => exact lookup_counted hs hx path
  | put d =>
    simp only
    split
    · rename_i hd
      exact put_counted hs hd
    · exact hs
  | create path mode info => exact create_counted hs user path mode info
  | «open» path flags => exact open_counted hs hx user path flags _
  | close f => exact close_counted hs f
  | read f size => exact read_counted hs f size
  | write f src size => exact write_counted hs f src size
  | listdir path cb => exact hs.grows (listdir_browses hs.tree user path cb).toGrows
  | unlink path =>
    rcases @unlink_cases heap m _ hs.tree user path with ⟨h, -⟩ | ⟨p, c, t, h, -⟩
    · exact hs.grows h.toGrows
    · exact h.counted hs hx
  | rmdir path =>
    rcases @rmdir_cases heap m _ hs.tree user path with ⟨h, -⟩ | ⟨p, c, t, h, -⟩
    · exact hs.grows h.toGrows
    · exact h.counted hs hx
  | rename srcPath dstPath => exact rename_counted hs user srcPath dstPath
  | statPath path => exact hs.grows (statPath_browses hs.tree user path).toGrows
  | setMetadata path info =>
    rcases @setMetadata_cases heap m _ hs.tree path info with h | ⟨d, t, hf, -⟩
    · exact hs.grows h.toGrows
    · have hmiss : (vfsResolve heap m (s.vfs.setError .ok) path false).1 = none := hx
      rw [hf.resolve] at hmiss
      cases hmiss

theorem start_counted (fs : Fs) (root : VInode) : Counted (startSession fs root) := by
  refine ⟨dentryTree_mount fs root, nofun, nofun, fun d _ => ?_⟩
  simp [startSession, references, openFiles, mountVfs]

theorem run_counted {fs : Fs} {root : VInode} (h : VfsReachable m (startSession fs root) (Careful m) s) : Counted s := by
  induction h with
  | start => exact start_counted fs root
  | step _ hx ih => exact step_counted ih _ hx

end

/-- In a run of careful steps every live dentry has a count of one more than its
open files and its lookups, and no open file is left without its dentry. -/
theorem careful_run_counts (m : CapySuper) (fs : Fs) (root : VInode) (s : VfsSession)
    (h : VfsReachable m (startSession fs root) (Careful m) s) :
    (∀ d, s.vfs.live d = true →
      (s.vfs.dentry d).refcount.toNat = 1 + (openFiles s.vfs d).card + s.held.count d) ∧
    ∀ f x, s.vfs.file f = some x → s.vfs.live x.dentry = true := by
  have hs := run_counted h
  refine ⟨fun d hd => ?_, fun f x hx => (hs.file f x hx).2⟩
  rw [hs.count d hd, references, Nat.add_assoc]

/-- A small volume, freshly formatted and mounted. -/
def smallSuper : CapySuper := (formatLayout (plainDevice 64) 128 0).super

/-- The inode of a new root directory. -/
def newRoot : VInode :=
  ⟨0, rootInode.mode, rootInode.size, rootInode.uid, rootInode.gid, rootInode.perm⟩

def smallSession : VfsSession := startSession ⟨(capyfsFormat (plainDevice 64) 128 0).2, 0⟩ newRoot

/-- The root looked up and opened. -/
def rootOpened : VfsSession :=
  VfsStep.run smallSuper (VfsStep.run smallSuper smallSession ⟨ampleHeap, none, .lookup [slash]⟩)
    ⟨ampleHeap, none, .open [slash] 0⟩

theorem rootOpened_counts :
    rootOpened.held = [0] ∧ (rootOpened.vfs.dentry 0).refcount = 3 ∧
      (rootOpened.vfs.dentry 0).refcount.toNat =
        1 + (openFiles rootOpened.vfs 0).card + rootOpened.held.count 0 ∧
      ∀ f x, rootOpened.vfs.file f = some x → rootOpened.vfs.live x.dentry = true := by
  have h1 : Careful smallSuper smallSession ⟨ampleHeap, none, .lookup [slash]⟩ := by
    intro d
    simp [references, openFiles, smallSession, startSession, mountVfs]
  have h2 : Careful smallSuper
      (VfsStep.run smallSuper smallSession ⟨ampleHeap, none, .lookup [slash]⟩)
      ⟨ampleHeap, none, .open [slash] 0⟩ := by
    intro d
    have hheld : (VfsStep.run smallSuper smallSession ⟨ampleHeap, none, .lookup [slash]⟩).held = [0] := rfl
    have hfiles : (VfsStep.run smallSuper smallSession
        ⟨ampleHeap, none, .lookup [slash]⟩).vfs.nextFile = 0 := rfl
    have hcount : [0].count d ≤ [0].length := count_le_length
    simp only [references, openFiles, hheld, hfiles, Finset.range_zero, Finset.filter_empty,
      Finset.card_empty, length_singleton] at hcount ⊢
    omega
  have hrun := careful_run_counts smallSuper _ _ rootOpened (.step (.step .start h1) h2)
  exact ⟨rfl, rfl, hrun.1 0 rfl, hrun.2⟩

/-- Setting the metadata of the root once leaves its dentry without a count. -/
theorem setMetadata_miscounts :
    let s := VfsStep.run smallSuper smallSession ⟨ampleHeap, none, .setMetadata [slash] ⟨0, 0, 0o755⟩⟩
    VfsReachable smallSuper smallSession (fun _ _ => True) s ∧ s.vfs.live 0 = true ∧
      (s.vfs.dentry 0).refcount.toNat ≠ 1 + (openFiles s.vfs 0).card + s.held.count 0 := by
  refine ⟨.step .start trivial, ?_, ?_⟩
  · decide
  · decide

end CapyOS.Proofs
