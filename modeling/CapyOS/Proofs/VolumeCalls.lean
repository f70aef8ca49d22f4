import CapyOS.Proofs.VolumeDirs

namespace CapyOS.Proofs
open Lib FsM Volume Function

def Freed (f g : Nat → Bool) (P : Nat → Prop) : Prop := ∀ b, b ≠ 0 → (g b = true ↔ f b = true ∧ ¬ P b)

theorem Freed.trans {f g h : Nat → Bool} {P Q R : Nat → Prop} (hp : Freed f g P) (hq : Freed g h Q)
    (hr : ∀ b, b ≠ 0 → (R b ↔ P b ∨ Q b)) : Freed f h R := by
  intro b h0
  rw [hq b h0, hp b h0, hr b h0, not_or, and_assoc]

theorem Freed.none {f : Nat → Bool} {P : Nat → Prop} (hP : ∀ b, b ≠ 0 → ¬ P b) : Freed f f P :=
  fun b h0 => ⟨fun h => ⟨h, hP b h0⟩, And.left⟩

theorem freed_drop (v : Volume) (b : Nat) : Freed v.bmap (dropBlock v b).bmap (fun c => c = b) := by
  intro c _
  simp only [dropBlock]
  by_cases hc : c = b
  · subst hc
    simp
  · simp [hc]

section
variable {m : CapySuper} {v : Volume} {x : CapyInodeDisk}

theorem freeDirect_yields (hx : ∀ i, x.direct i ≠ 0#32 → InData m (x.direct i).toNat) (l : List (Fin 12)) :
    Yields m v (freeDirect m x l) (fun r w => r = some () ∧ w.imap = v.imap ∧ w.inode = v.inode ∧
      w.data = v.data ∧ Freed v.bmap w.bmap (fun b => ∃ i ∈ l, (x.direct i).toNat = b)) := by
  induction l generalizing v with
  | nil => exact Yields.pure ⟨rfl, rfl, rfl, rfl, Freed.none (by simp)⟩
  | cons i rest ih =>
    simp only [freeDirect]
    by_cases h0 : x.direct i = 0#32
    · simp only [h0, ne_eq, not_true_eq_false, if_false]
      refine Yields.seq (Yields.pure ⟨rfl, rfl⟩) (ih.mono ?_)
      rintro r w ⟨rfl, himap, hinode, hdata, hfreed⟩
      refine ⟨rfl, himap, hinode, hdata, fun b hb => ?_⟩
      rw [hfreed b hb]
      simp [h0, Ne.symm hb]
    · simp only [ne_eq, h0, not_false_iff, if_true]
      refine (freeBlock_does (hx i h0)).seq (ih.mono ?_)
      rintro r w ⟨rfl, himap, hinode, hdata, hfreed⟩
      refine ⟨rfl, himap, hinode, hdata, (freed_drop v _).trans hfreed (fun b _ => ?_)⟩
      simp [eq_comm]

theorem freeIndirectEntries_yields {ind : Nat} (hi : InData m ind) (n k : Nat)
    (hx : ∀ j, indirectEntry (v.data ind) j ≠ 0#32 → k ≤ j → j < k + n → InData m (indirectEntry (v.data ind) j).toNat) :
    Yields m v (freeIndirectEntries m ind n k) (fun r w => r = some () ∧ w.imap = v.imap ∧
      w.inode = v.inode ∧ (∀ b, b ≠ ind → w.data b = v.data b) ∧ Freed v.bmap w.bmap (fun b => ∃ j, k ≤ j ∧ j < k + n ∧
        (indirectEntry (v.data ind) j).toNat = b)) := by
  induction n generalizing v k with
  | zero =>
    refine Yields.pure ⟨rfl, rfl, rfl, fun _ _ => rfl, Freed.none ?_⟩
    rintro b - ⟨j, hlo, hhi, -⟩
    omega
  | succ n ih =>
    simp only [freeIndirectEntries]
    refine (getBlock_does hi).seq ?_
    by_cases h0 : indirectEntry (v.data ind) k = 0#32
    · rw [if_pos h0]
      refine (ih (k + 1) (fun j hj hlo hhi => hx j hj (by omega) (by omega))).mono ?_
      rintro r w ⟨rfl, himap, hinode, hdata, hfreed⟩
      refine ⟨rfl, himap, hinode, hdata, fun b hb => ?_⟩
      rw [hfreed b hb]
      refine and_congr_right (fun _ => not_congr ⟨?_, ?_⟩)
      · rintro ⟨j, hlo, hhi, he⟩
        exact ⟨j, by omega, by omega, he⟩
      · rintro ⟨j, hlo, hhi, he⟩
        refine ⟨j, ?_, by omega, he⟩
        by_contra hjk
        have hj : j = k := by omega
        rw [hj, h0] at he
        exact hb he.symm
    · rw [if_neg h0]
      refine (freeBlock_does (hx k h0 (Nat.le_refl _) (by omega))).seq ?_
      refine (getBlock_does hi).seq ((putBlock_does hi _).seq ?_)
      -- the entry itself is cleared, those behind it are as they were
      have hrest : ∀ j, k + 1 ≤ j → indirectEntry (update v.data ind
          (Lib.store (v.data ind) (4 * k) 4 0) ind) j = indirectEntry (v.data ind) j := by
        intro j hj
        have h := indirectEntry_store (v.data ind) k 0#32 j
        rw [if_neg (by omega)] at h
        rw [update_self]
        exact h
      refine (ih (k + 1) (fun j hj hlo hhi => ?_)).mono ?_
      · have he := hrest j hlo
        simp only [Volume.store, dropBlock] at hj ⊢
        rw [he] at hj ⊢
        exact hx j hj (by omega) (by omega)
      · rintro r w ⟨rfl, himap, hinode, hdata, hfreed⟩
        refine ⟨rfl, himap, hinode, fun b hb => (hdata b hb).trans (update_of_ne hb _ _),
          (freed_drop v _).trans hfreed (fun b hb => ⟨?_, ?_⟩)⟩
        · rintro ⟨j, hlo, hhi, he⟩
          by_cases hj : j = k
          · rw [hj] at he
            exact .inl he.symm
          · refine .inr ⟨j, by omega, by omega, ?_⟩
            rw [← he]
            exact congrArg BitVec.toNat (hrest j (by omega))
        · rintro (he | ⟨j, hlo, hhi, he⟩)
          · exact ⟨k, Nat.le_refl _, by omega, he.symm⟩
          · refine ⟨j, by omega, by omega, ?_⟩
            rw [← he]
            exact congrArg BitVec.toNat (hrest j hlo).symm

theorem freeDataBlocks_yields (hx : ∀ s, v.ptr x s ≠ 0#32 → InData m (v.ptr x s).toNat) :
    Yields m v (capyfsFreeDataBlocks m x) (fun r w => ∃ y, r = some y ∧ w.imap = v.imap ∧
      w.inode = v.inode ∧ (∀ b, b ≠ x.indirect.toNat → w.data b = v.data b) ∧
      Freed v.bmap w.bmap (fun b => ∃ s, (v.ptr x s).toNat = b)) := by
  unfold capyfsFreeDataBlocks
  refine (freeDirect_yields (fun i => hx (.direct i)) _).bind ?_ (fun _ h => by cases h.1)
  rintro _ w ⟨-, himap, hinode, hdata, hdirect⟩
  by_cases h0 : x.indirect = 0#32
  · simp only [h0, ne_eq, not_true_eq_false, if_false]
    refine Yields.seq (Yields.pure ⟨rfl, rfl⟩) (Yields.pure ⟨_, rfl, himap, hinode, fun _ _ => by rw [hdata], ?_⟩)
    intro b hb
    rw [hdirect b hb]
    refine and_congr_right (fun _ => not_congr ⟨?_, ?_⟩)
    · rintro ⟨i, -, he⟩
      exact ⟨.direct i, he⟩
    · rintro ⟨s, he⟩
      cases s with
      | direct i => exact ⟨i, List.mem_finRange i, he⟩
      | indirect => simp [ptr, h0, Ne.symm hb] at he
      | entry k => simp [ptr, h0, Ne.symm hb] at he
  · have hind : InData m x.indirect.toNat := hx .indirect h0
    have hentry : ∀ k, k < entriesPerBlock → v.ptr x (.entry k) =
        indirectEntry (w.data x.indirect.toNat) k := by
      intro k hk
      rw [hdata]
      exact if_pos ⟨h0, hk⟩
    simp only [ne_eq, h0, not_false_iff, if_true]
    refine (getBlock_does hind).triedSeq ?_
    simp only [Option.isSome_some, if_true]
    refine (freeIndirectEntries_yields hind entriesPerBlock 0 (fun j hj _ hhi => ?_)).bind ?_
      (fun _ h => by cases h.1)
    · rw [← hentry j (by omega)] at hj ⊢
      exact hx _ hj
    · rintro _ w' ⟨-, himap', hinode', hdata', hentries⟩
      refine (freeBlock_does hind).seq (Yields.pure ⟨_, rfl, himap'.trans himap, hinode'.trans hinode,
        fun b hb => (hdata' b hb).trans (by rw [hdata]), ?_⟩)
      refine (hdirect.trans hentries (fun b _ => Iff.rfl)).trans (freed_drop w' _) (fun b hb => ⟨?_, ?_⟩)
      · rintro ⟨s, he⟩
        cases s with
        | direct i => exact .inl (.inl ⟨i, List.mem_finRange i, he⟩)
        | indirect => exact .inr he.symm
        | entry k =>
          by_cases hk : k < entriesPerBlock
          · rw [hentry k hk] at he
            exact .inl (.inr ⟨k, Nat.zero_le _, by omega, he⟩)
          · simp [ptr, hk, Ne.symm hb] at he
      · rintro ((⟨i, -, he⟩ | ⟨k, -, hk, he⟩) | he)
        · exact ⟨.direct i, he⟩
        · refine ⟨.entry k, ?_⟩
          rw [hentry k (by omega)]
          exact he
        · exact ⟨.indirect, he.symm⟩

end

section
variable {v w : Volume} {t : Nat}

structure Released (v w : Volume) (t : Nat) : Prop where
  imap : w.imap = update v.imap t false
  others : ∀ i, i ≠ t → w.inode i = v.inode i
  data : ∀ b, b ≠ (v.inode t).indirect.toNat → w.data b = v.data b
  bmap : Freed v.bmap w.bmap (fun b => ∃ s, (v.ptr (v.inode t) s).toNat = b)

theorem Released.live (h : Released v w t) (i : Nat) : w.imap i = true ↔ v.imap i = true ∧ i ≠ t := by
  rw [h.imap]
  by_cases hi : i = t
  · subst hi
    simp
  · simp [hi]

theorem Released.pointers (h : Released v w t) (hs : v.Sound) (ht : v.imap t = true)
    (k : Nat × Slot) : w.pointers k = if k.1 = t then 0 else v.pointers k := by
  obtain ⟨i, s⟩ := k
  unfold Volume.pointers
  by_cases hi : i = t
  · simp [hi, h.imap]
  · simp only [hi, if_false]
    by_cases hl : v.imap i = true
    · rw [if_pos ((h.live i).mpr ⟨hl, hi⟩), if_pos hl, h.others i hi]
      cases s with
      | direct l => rfl
      | indirect => rfl
      | entry k =>
        by_cases h0 : (v.inode i).indirect = 0#32
        · simp [ptr, h0]
        · have hne : (v.inode i).indirect.toNat ≠ (v.inode t).indirect.toNat := by
            intro he
            have := slot_inj hs .indirect .indirect hl ht
              (fun hz => h0 (BitVec.eq_of_toNat_eq hz)) he
            exact hi this.1
          simp only [ptr, h.data _ hne]
    · rw [if_neg (fun hw => hl ((h.live i).mp hw).1), if_neg hl]

theorem Released.isDirectory (h : Released v w t) (i : Nat) : w.IsDirectory i ↔ v.IsDirectory i ∧ i ≠ t := by
  unfold IsDirectory
  rw [h.live]
  by_cases hi : i = t
  · simp [hi]
  · rw [h.others i hi]
    simp [hi]

theorem Released.entryCount (h : Released v w t) {i : Nat} (hi : i ≠ t) : w.entryCount i = v.entryCount i := by
  unfold Volume.entryCount
  rw [h.others i hi]

theorem Released.entryBlock (h : Released v w t) (hs : v.Sound) (ht : v.imap t = true) {i : Nat}
    (hd : v.IsDirectory i) (hi : i ≠ t) (j : Nat) : w.entryBlock i j = v.entryBlock i j := by
  have hp := h.pointers hs ht (i, slotOf (j / direntsPerBlock))
  simpa [Volume.pointers, Volume.entryBlock, hi, (h.live i).mpr ⟨hd.1, hi⟩, hd.1] using hp

theorem Released.sound (h : Released v w t) (hs : v.Sound) (ht : v.imap t = true) (h0 : t ≠ 0) : w.Sound := by
  have hp := h.pointers hs ht
  refine ⟨hs.blocks.restrict (fun k hk => ?_) (fun k hk => ?_), (h.isDirectory 0).mpr ⟨hs.root, h0.symm⟩,
    fun i j hd hj => ?_⟩
  · rw [hp] at hk ⊢
    split at hk
    · exact absurd rfl hk
    · rename_i hne
      rw [if_neg hne]
  · obtain ⟨i, s⟩ := k
    rw [hp] at hk ⊢
    split at hk
    · exact absurd rfl hk
    · rename_i hne
      rw [if_neg hne]
      have hheld := hs.blocks.held (i, s) hk
      refine (h.bmap _ hk).mpr ⟨hheld, ?_⟩
      rintro ⟨s', he⟩
      -- a block of another inode is not one of the released ones
      have hkey : (v.pointers (t, s')) = (v.ptr (v.inode t) s').toNat := by
        simp [Volume.pointers, ht]
      have := hs.blocks.once (i, s) (t, s') hk (by rw [hkey, he])
      exact hne (Prod.mk.inj this).1
  · obtain ⟨hd, hi⟩ := (h.isDirectory i).mp hd
    rw [h.entryCount hi] at hj
    rw [h.entryBlock hs ht hd hi]
    exact hs.full i j hd hj

theorem Released.tight (h : Released v w t) (hs : v.Sound) (ht : v.imap t = true) (hv : v.Tight) : w.Tight := by
  intro b h0 hb
  obtain ⟨hb, hno⟩ := (h.bmap b h0).mp hb
  obtain ⟨⟨i, s⟩, rfl⟩ := hv b h0 hb
  refine ⟨(i, s), ?_⟩
  rw [h.pointers hs ht, if_neg]
  rintro rfl
  exact hno ⟨s, by simp [Volume.pointers, ht]⟩

/-- The entries of the directories that stay are as they were. -/
theorem Released.dirents (h : Released v w t) (hs : v.Sound) (ht : v.imap t = true) (h0 : t ≠ 0)
    (k : Nat × Nat) : w.dirents k = if k.1 = t then (0, []) else v.dirents k := by
  obtain ⟨i, j⟩ := k
  by_cases hi : i = t
  · rw [if_pos hi, dirents_none]
    exact fun hc => ((h.isDirectory i).mp hc.1).2 hi
  · rw [if_neg hi]
    by_cases hk : v.IsDirectory i ∧ j < v.entryCount i
    · rw [dirents_of (h.sound hs ht h0) ((h.isDirectory i).mpr ⟨hk.1, hi⟩)
        (by rw [h.entryCount hi]; exact hk.2), dirents_of hs hk.1 hk.2, h.entryBlock hs ht hk.1 hi,
        h.data _ (Ne.symm ((entryBlock_slot hs hk.1 hk.2).2 t ht))]
    · rw [dirents_none hk, dirents_none]
      rw [h.isDirectory, h.entryCount hi]
      exact fun hc => hk ⟨hc.1.1, hc.2⟩

/-- An inode that nothing names and that names nothing can be released. -/
theorem Released.entries (h : Released v w t) (hs : v.Sound) (ht : v.imap t = true) (h0 : t ≠ 0)
    (hempty : ∀ j, v.entries (t, j) = 0) : w.entries = v.entries := by
  funext k
  unfold Volume.entries
  rw [h.dirents hs ht h0]
  split
  · rename_i hk
    obtain ⟨i, j⟩ := k
    cases hk
    exact (hempty j).symm
  · rfl

theorem Released.safe (h : Released v w t) (hs : v.Safe) (ht : v.imap t = true) (h0 : t ≠ 0)
    (hempty : ∀ j, v.entries (t, j) = 0) (hfree : ∀ k, v.entries k ≠ t) : w.Safe := by
  refine ⟨h.sound hs.toSound ht h0, ?_⟩
  rw [h.entries hs.toSound ht h0 hempty]
  refine hs.inodes.mono (fun k hk => ?_)
  exact (h.live _).mpr ⟨hs.inodes.held k hk, hfree k⟩

end

variable {v w : Volume} {c : Nat}

structure Blank (x : CapyInodeDisk) : Prop where
  direct : ∀ l, x.direct l = 0#32
  indirect : x.indirect = 0#32
  size : x.size = 0#32

theorem Blank.ptr {x : CapyInodeDisk} (h : Blank x) (s : Slot) : v.ptr x s = 0#32 := by
  cases s with
  | direct l => exact h.direct l
  | indirect => exact h.indirect
  | entry k => simp [Volume.ptr, h.indirect]

structure Extends (v w : Volume) : Prop where
  live : ∀ i, v.imap i = true → w.imap i = true ∧ w.inode i = v.inode i
  blank : ∀ i, v.imap i = false → w.imap i = true → Blank (w.inode i)
  data : w.data = v.data
  bmap : w.bmap = v.bmap

theorem Extends.pointers (h : Extends v w) : w.pointers = v.pointers := by
  funext k
  obtain ⟨i, s⟩ := k
  unfold Volume.pointers
  cases hl : v.imap i with
  | true =>
    obtain ⟨hw, hinode⟩ := h.live i hl
    simp only [hw, hinode, if_true]
    cases s <;> simp [ptr, h.data]
  | false =>
    cases hw : w.imap i with
    | true => simp [(h.blank i hl hw).ptr]
    | false => rfl

theorem Extends.isDirectory (h : Extends v w) {i : Nat} (hd : v.IsDirectory i) : w.IsDirectory i := by
  obtain ⟨hw, hinode⟩ := h.live i hd.1
  refine ⟨hw, ?_⟩
  rw [hinode]
  exact hd.2

theorem Extends.entryBlock (h : Extends v w) {i : Nat} (hl : v.imap i = true) (j : Nat) :
    w.entryBlock i j = v.entryBlock i j := by
  have hp := congrFun h.pointers (i, slotOf (j / direntsPerBlock))
  simpa [Volume.pointers, Volume.entryBlock, (h.live i hl).1, hl] using hp

/-- A directory with entries is one the smaller volume has. -/
theorem Extends.old (h : Extends v w) {i j : Nat} (hd : w.IsDirectory i) (hj : j < w.entryCount i) :
    v.IsDirectory i ∧ j < v.entryCount i := by
  cases hl : v.imap i with
  | true =>
    obtain ⟨hw, hinode⟩ := h.live i hl
    unfold IsDirectory Volume.entryCount at *
    rw [hinode] at hd hj
    exact ⟨⟨hl, hd.2⟩, hj⟩
  | false =>
    unfold Volume.entryCount at hj
    rw [(h.blank i hl hd.1).size] at hj
    simp at hj

theorem Extends.sound (h : Extends v w) (hs : v.Sound) : w.Sound := by
  refine ⟨?_, h.isDirectory hs.root, fun i j hd hj => ?_⟩
  · rw [h.pointers, h.bmap]
    exact hs.blocks
  · obtain ⟨hd, hj⟩ := h.old hd hj
    rw [h.entryBlock hd.1]
    exact hs.full i j hd hj

theorem Extends.dirents (h : Extends v w) (hs : v.Sound) : w.dirents = v.dirents := by
  funext k
  obtain ⟨i, j⟩ := k
  by_cases hk : v.IsDirectory i ∧ j < v.entryCount i
  · have hj : j < w.entryCount i := by
      unfold Volume.entryCount at *
      rw [(h.live i hk.1.1).2]
      exact hk.2
    rw [dirents_of (h.sound hs) (h.isDirectory hk.1) hj, dirents_of hs hk.1 hk.2, h.entryBlock hk.1.1, h.data]
  · rw [dirents_none hk, dirents_none]
    exact fun hc => hk (h.old hc.1 hc.2)

theorem Extends.safe (h : Extends v w) (hs : v.Safe) : w.Safe := by
  refine ⟨h.sound hs.toSound, ?_⟩
  rw [entries_congr (h.dirents hs.toSound)]
  exact hs.inodes.mono (fun k hk => (h.live _ (hs.inodes.held k hk)).1)

theorem Extends.tight (h : Extends v w) (ht : v.Tight) : w.Tight := by
  unfold Tight
  rw [h.pointers, h.bmap]
  exact ht

theorem Extends.sound_back (h : Extends v w) (hs : w.Sound) (hroot : v.imap 0 = true) : v.Sound := by
  have hdir : ∀ i, v.imap i = true → w.IsDirectory i → v.IsDirectory i := by
    intro i hi hd
    refine ⟨hi, ?_⟩
    rw [← (h.live i hi).2]
    exact hd.2
  refine ⟨?_, hdir 0 hroot hs.root, fun i j hd hj => ?_⟩
  · rw [← h.pointers, ← h.bmap]
    exact hs.blocks
  · rw [← h.entryBlock hd.1]
    refine hs.full i j (h.isDirectory hd) ?_
    unfold Volume.entryCount at hj ⊢
    rw [(h.live i hd.1).2]
    exact hj

theorem extends_take (hc : v.imap c = false) {y : CapyInodeDisk} (hy : Blank y) : Extends v ((takeInode v c).put c y) := by
  have hne : ∀ i, v.imap i = true → i ≠ c := by
    rintro i hi rfl
    rw [hc] at hi
    cases hi
  refine ⟨fun i hi => ⟨?_, ?_⟩, fun i hi hw => ?_, rfl, rfl⟩
  · exact (update_of_ne (hne i hi) _ _).trans hi
  · exact update_of_ne (hne i hi) _ _
  · by_cases hic : i = c
    · subst hic
      rw [put_inode_self]
      exact hy
    · rw [show ((takeInode v c).put c y).imap i = v.imap i from update_of_ne hic _ _, hi] at hw
      cases hw

theorem extends_drop (hc : w.imap c = true) (hb : Blank (w.inode c)) : Extends (dropInode w c) w := by
  refine ⟨fun i hi => ⟨?_, rfl⟩, fun i hi hw => ?_, rfl, rfl⟩
  · by_cases hic : i = c
    · rw [hic]
      exact hc
    · rw [show (dropInode w c).imap i = w.imap i from update_of_ne hic _ _] at hi
      exact hi
  · by_cases hic : i = c
    · rw [hic]
      exact hb
    · rw [show (dropInode w c).imap i = w.imap i from update_of_ne hic _ _, hw] at hi
      cases hi

end CapyOS.Proofs
