import CapyOS.Proofs.VolumeDirs

namespace CapyOS.Proofs
open Lib FsM Volume Function List Nat
variable {h : VInode} {p : BitVec 32} {src : Bytes} {pos : Nat}

variable {m : CapySuper} {v w : Volume} {ino : Nat} {x : CapyInodeDisk} {α : Type}

theorem Yields.both {f : FsM α} {Q R : Option α → Volume → Prop} (h : Yields m v f Q)
    (h' : Yields m v f R) : Yields m v f (fun r w => Q r w ∧ R r w) :=
  fun s hc hv => ⟨(h s hc hv).1, (h s hc hv).2, (h' s hc hv).2⟩

/-- Block `l` of a file. A hole reads as zeros. -/
def fileBlock (v : Volume) (i l : Nat) : Bytes :=
  if v.pointers (i, slotOf l) = 0 then zeros else v.data (v.pointers (i, slotOf l))

def fileByte (v : Volume) (i k : Nat) : Byte :=
  fileBlock v i (k / capyfsBlockSize) (k % capyfsBlockSize)

def SameBlocks (v w : Volume) : Prop := ∀ i l, fileBlock w i l = fileBlock v i l

theorem SameBlocks.trans {u : Volume} (h : SameBlocks v w) (h' : SameBlocks w u) : SameBlocks v u :=
  fun i l => (h' i l).trans (h i l)

theorem allocPointer_full (hl : SoundLayout m) : Yields m v (allocPointer m) (fun r _ => r = some none → Full m v) := by
  unfold allocPointer
  refine (allocBlock_yields hl).tried (fun r w hq => Yields.pure (fun h => ?_))
  cases r with
  | none => exact hq.2 rfl
  | some b => cases h

theorem slotOf_indirect (l : Nat) : slotOf l ≠ .indirect := by
  unfold slotOf
  split <;> exact Slot.noConfusion

theorem same_assign {key : Nat × Slot} {q : Nat} (hk : v.pointers key = 0)
    (hp : w.pointers = update v.pointers key q) (h0 : q ≠ 0) (hzero : w.data q = zeros)
    (hdata : ∀ i l, v.pointers (i, slotOf l) ≠ 0 →
      w.data (v.pointers (i, slotOf l)) = v.data (v.pointers (i, slotOf l))) : SameBlocks v w := by
  intro i l
  unfold fileBlock
  rw [hp]
  by_cases hkey : (i, slotOf l) = key
  · rw [hkey, update_self, if_neg h0, if_pos hk, hzero]
  · rw [update_of_ne hkey]
    split
    next => rfl
    next hne => exact hdata i l hne

theorem same_direct (hs : v.Sound) (hi : v.imap ino = true) {l : Fin 12}
    (hz : (v.inode ino).direct l = 0#32) (hb : v.bmap p.toNat = false) (h0 : p.toNat ≠ 0) :
    SameBlocks v ((takeBlock v p.toNat).put ino { v.inode ino with direct := update (v.inode ino).direct l p }) := by
  have hp := pointers_direct (w := takeBlock v p.toNat) hi l p
  rw [takeBlock_pointers hs hb] at hp
  refine same_assign (by simp [pointers, ptr, hz]) hp h0 (update_self ..) (fun i k _ => ?_)
  exact update_of_ne (hs.blocks.fresh hb h0 _) _ _

theorem same_indirect (hs : v.Sound) (hi : v.imap ino = true)
    (hz : (v.inode ino).indirect = 0#32) (hb : v.bmap p.toNat = false) (h0 : p.toNat ≠ 0) :
    SameBlocks v ((takeBlock v p.toNat).put ino { v.inode ino with indirect := p }) := by
  have hp := pointers_indirect (w := takeBlock v p.toNat) hi hz (p := p) (update_self ..)
  rw [takeBlock_pointers hs hb] at hp
  refine same_assign (by simp [pointers, ptr, hz]) hp h0 (update_self ..) (fun i k _ => ?_)
  exact update_of_ne (hs.blocks.fresh hb h0 _) _ _

theorem same_entry (hs : v.Safe) (hi : v.imap ino = true) (hind : (v.inode ino).indirect ≠ 0#32)
    {k : Nat} (hk : k < entriesPerBlock) (hz : indirectEntry (v.data (v.inode ino).indirect.toNat) k = 0#32)
    (hb : v.bmap p.toNat = false) (h0 : p.toNat ≠ 0) : SameBlocks v ((takeBlock v p.toNat).store (v.inode ino).indirect.toNat
      (Lib.store ((takeBlock v p.toNat).data (v.inode ino).indirect.toNat) (4 * k) 4 p.toNat)) := by
  have hnz : (v.inode ino).indirect.toNat ≠ 0 := fun hz => hind (BitVec.eq_of_toNat_eq hz)
  have hown : v.pointers (ino, .indirect) = (v.inode ino).indirect.toNat := by
    simp [pointers, ptr, hi]
  have hfresh : ∀ key, v.pointers key ≠ p.toNat := hs.blocks.fresh hb h0
  have hpne : p.toNat ≠ (v.inode ino).indirect.toNat := by
    rw [← hown]
    exact Ne.symm (hfresh _)
  have hown' : Owned (takeBlock v p.toNat).pointers (takeBlock v p.toNat).bmap := by
    rw [takeBlock_pointers hs.toSound hb]
    refine hs.blocks.mono (fun key hne => ?_)
    exact (update_of_ne (hfresh key) _ _).trans (hs.blocks.held key hne)
  have hp := pointers_entry (w := takeBlock v p.toNat) hown' hi hind hk p
  rw [takeBlock_pointers hs.toSound hb] at hp
  refine same_assign (by simp [pointers, ptr, hz]) hp h0 ?_ (fun i l hne => ?_)
  · exact (update_of_ne hpne _ _).trans (update_self ..)
  · have hother : v.pointers (i, slotOf l) ≠ (v.inode ino).indirect.toNat := by
      intro he
      rw [← hown] at he
      exact slotOf_indirect l (Prod.mk.inj (hs.blocks.once _ _ hne he)).2
    exact (update_of_ne hother _ _).trans (update_of_ne (hfresh _) _ _)

theorem getIndirectBlock_same (hl : SoundLayout m) (hs : (v.put ino x).Safe) (hi : v.imap ino = true)
    (h0 : x.indirect ≠ 0#32) {k : Nat} (hk : k < entriesPerBlock) (dirty : Bool) :
    Yields m v (getIndirectBlock m x x.indirect k true dirty) (fun r w => ∃ db, r = some db ∧
      SameBlocks (v.put ino x) (w.put ino db.inode) ∧ (db.block = none → Full m w)) := by
  refine Yields.bounded (fun hb => ?_)
  have hind : InData m x.indirect.toNat := ptr_inData hb hs hi .indirect h0
  unfold getIndirectBlock
  refine (getBlock_does hind).triedSeq ?_
  simp only
  by_cases hz : indirectEntry (v.data x.indirect.toNat) k = 0#32
  · simp only [hz, and_true, if_true]
    refine ((allocPointer_yields hl).both (allocPointer_full hl)).bind ?_ ?_
    · rintro a w ⟨⟨p, ha, hp⟩, hfull⟩
      obtain rfl := Option.some.inj ha
      cases a with
      | none =>
        cases hp
        exact Yields.pure ⟨_, rfl, fun _ _ => rfl, fun _ => hfull rfl⟩
      | some q =>
        obtain ⟨hq, hfree, rfl⟩ := hp
        refine (getBlock_does hind).seq ((putBlock_does hind _).seq (Yields.pure ⟨_, rfl, ?_, nofun⟩))
        have hsame := same_entry (v := v.put ino x) (k := k) (p := q) hs hi
          (by rw [put_inode_self]; exact h0) hk (by rw [put_inode_self]; exact hz) hfree
          (hl.data_pos hq)
        rw [put_inode_self] at hsame
        exact hsame
    · rintro w ⟨⟨p, ha, -⟩, -⟩
      cases ha
  · rw [if_neg (fun h => hz h.1)]
    exact Yields.pure ⟨_, rfl, fun _ _ => rfl, nofun⟩

theorem getDataBlock_same (hl : SoundLayout m) (hs : (v.put ino x).Safe) (hi : v.imap ino = true) (l : Nat) :
    Yields m v (capyfsGetDataBlock m x l true) (fun r w => ∃ db, r = some db ∧ SameBlocks (v.put ino x) (w.put ino db.inode) ∧
      (db.block = none → Full m w ∨ 12 + entriesPerBlock ≤ l)) := by
  unfold capyfsGetDataBlock
  by_cases hdir : l < 12
  · rw [dif_pos hdir]
    by_cases hz : x.direct ⟨l, hdir⟩ = 0#32
    · rw [if_pos ⟨hz, rfl⟩]
      refine ((allocPointer_yields hl).both (allocPointer_full hl)).bind ?_ ?_
      · rintro a w ⟨⟨p, ha, hp⟩, hfull⟩
        obtain rfl := Option.some.inj ha
        cases a with
        | none =>
          cases hp
          exact Yields.pure ⟨_, rfl, fun _ _ => rfl, fun _ => .inl (hfull rfl)⟩
        | some q =>
          obtain ⟨hq, hfree, rfl⟩ := hp
          refine Yields.pure ⟨_, rfl, ?_, fun h => absurd h (Option.some_ne_none _)⟩
          have hsame := same_direct (v := v.put ino x) (l := ⟨l, hdir⟩) (p := q)
            hs.toSound hi (by rw [put_inode_self]; exact hz) hfree (hl.data_pos hq)
          rwa [put_inode_self, takeBlock_put] at hsame
      · rintro w ⟨⟨p, ha, -⟩, -⟩
        cases ha
    · rw [if_neg (fun h => hz h.1)]
      exact Yields.pure ⟨_, rfl, fun _ _ => rfl, fun h => absurd h (Option.some_ne_none _)⟩
  · rw [dif_neg hdir]
    split
    next hk => exact Yields.pure ⟨_, rfl, fun _ _ => rfl, fun _ => .inr (by omega)⟩
    next hk =>
      have hk : l - 12 < entriesPerBlock := Nat.lt_of_not_le hk
      by_cases hind : x.indirect = 0#32
      · rw [if_pos hind, if_neg (by simp)]
        refine ((allocPointer_yields hl).both (allocPointer_full hl)).bind ?_ ?_
        · rintro a w ⟨⟨p, ha, hp⟩, hfull⟩
          obtain rfl := Option.some.inj ha
          cases a with
          | none =>
            cases hp
            exact Yields.pure ⟨_, rfl, fun _ _ => rfl, fun _ => .inl (hfull rfl)⟩
          | some q =>
            obtain ⟨hq, hfree, rfl⟩ := hp
            have hzero : ((v.put ino x).inode ino).indirect = 0#32 := by
              rw [put_inode_self]
              exact hind
            have hg := grown_indirect (w := v.put ino x) (p := q) hs hi hzero hfree (hl.data_pos hq)
            have hsame := same_indirect (v := v.put ino x) (p := q) hs.toSound hi hzero
              hfree (hl.data_pos hq)
            rw [put_inode_self, takeBlock_put] at hg hsame
            have hq0 : q ≠ 0#32 := fun h => hl.data_pos hq (by rw [h]; rfl)
            refine (getIndirectBlock_same (x := { x with indirect := q }) hl hg.safe hi hq0 hk
              true).mono ?_
            rintro _ w ⟨db, rfl, hblocks, hlost⟩
            exact ⟨db, rfl, hsame.trans hblocks, fun hnone => .inl (hlost hnone)⟩
        · rintro w ⟨⟨p, ha, -⟩, -⟩
          cases ha
      · rw [if_neg hind]
        refine (getIndirectBlock_same hl hs hi hind hk false).mono ?_
        rintro _ w ⟨db, rfl, hblocks, hlost⟩
        exact ⟨db, rfl, hblocks, fun hnone => .inl (hlost hnone)⟩

theorem fileBlock_store (hs : v.Sound) {l p : Nat} (hp : v.pointers (ino, slotOf l) = p) (hp0 : p ≠ 0)
    (c : Bytes) (i l' : Nat) : fileBlock (v.store p c) i l' = if i = ino ∧ l' = l then c else fileBlock v i l' := by
  have hpointers : (v.store p c).pointers = v.pointers := by
    refine @pointers_data v (v.store p c) rfl rfl (fun j hj h0 => update_of_ne ?_ _ _)
    intro he
    have hind : v.pointers (j, .indirect) = (v.inode j).indirect.toNat := by
      simp [pointers, ptr, hj]
    have hsame := hs.blocks.once (j, .indirect) (ino, slotOf l) (by rw [hind]; exact h0)
      (hind.trans (he.trans hp.symm))
    exact slotOf_indirect l (Prod.mk.inj hsame).2.symm
  unfold fileBlock
  rw [hpointers]
  by_cases hsame : i = ino ∧ l' = l
  · rw [if_pos hsame, hsame.1, hsame.2, hp, if_neg hp0]
    exact update_self ..
  · rw [if_neg hsame]
    split
    next => rfl
    next hne =>
      refine update_of_ne (fun he => hsame ?_) _ _
      have hone := hs.blocks.once _ _ hne (he.trans hp.symm)
      exact ⟨(Prod.mk.inj hone).1, slotOf_inj (Prod.mk.inj hone).2⟩

theorem fileByte_store (hs : v.Sound) {l p off chunk : Nat} (hp : v.pointers (ino, slotOf l) = p)
    (hp0 : p ≠ 0) (hfit : off + chunk ≤ capyfsBlockSize) (src : Bytes) (i k : Nat) :
    fileByte (v.store p (blit (v.data p) off chunk src)) i k =
      if i = ino ∧ capyfsBlockSize * l + off ≤ k ∧ k < capyfsBlockSize * l + off + chunk then
        src (k - (capyfsBlockSize * l + off)) else fileByte v i k := by
  unfold fileByte
  rw [fileBlock_store hs hp hp0]
  have hdiv := div_add_mod k capyfsBlockSize
  have hmod := mod_lt k (show 0 < capyfsBlockSize by decide)
  by_cases hblock : i = ino ∧ k / capyfsBlockSize = l
  · obtain ⟨rfl, rfl⟩ := hblock
    rw [if_pos ⟨rfl, rfl⟩]
    unfold blit
    by_cases hin : off ≤ k % capyfsBlockSize ∧ k % capyfsBlockSize < off + chunk
    · rw [if_pos hin, if_pos ⟨rfl, by omega, by omega⟩]
      congr 1
      omega
    · rw [if_neg hin, if_neg (by omega), fileBlock, hp, if_neg hp0]
  · rw [if_neg hblock, if_neg]
    rintro ⟨hi, hlo, hhi⟩
    refine hblock ⟨hi, ?_⟩
    exact Nat.div_eq_of_lt_le (by rw [Nat.mul_comm]; omega) (by rw [Nat.mul_comm, mul_succ]; omega)

/-- The bytes that the twelve pointers and one indirect block can hold. -/
def fileLimit : Nat := (12 + entriesPerBlock) * capyfsBlockSize

theorem chunk_bounds {off size done chunk : Nat} (hoff : off < capyfsBlockSize) (hmore : done < size)
    (hchunk : min (capyfsBlockSize - off) (size - done) = chunk) :
    0 < chunk ∧ off + chunk ≤ capyfsBlockSize ∧ done + chunk ≤ size := by
  have hblock : chunk ≤ capyfsBlockSize - off := hchunk ▸ Nat.min_le_left _ _
  have hleft : chunk ≤ size - done := hchunk ▸ Nat.min_le_right _ _
  have hpos : 0 < chunk := hchunk ▸ lt_min (Nat.sub_pos_of_lt hoff) (Nat.sub_pos_of_lt hmore)
  exact ⟨hpos, (Nat.add_le_add_left hblock off).trans_eq (Nat.add_sub_cancel' (le_of_lt hoff)),
    (Nat.add_le_add_left hleft done).trans_eq (Nat.add_sub_cancel' (le_of_lt hmore))⟩

theorem fuel_left {size done chunk n : Nat} (hfuel : size ≤ done + (n + 1)) (hchunk : 0 < chunk) : size ≤ done + chunk + n := by
  omega

theorem block_end {l : Nat} (hl : l < 12 + entriesPerBlock) : capyfsBlockSize * l + capyfsBlockSize ≤ fileLimit := by
  unfold fileLimit
  rw [Nat.mul_comm, ← succ_mul]
  exact Nat.mul_le_mul_right _ hl

theorem runs_join {p : Prop} [Decidable p] {pos written chunk n k : Nat} (hn : written + chunk ≤ n) (src : Bytes) (old : Byte) :
    (if p ∧ pos + (written + chunk) ≤ k ∧ k < pos + n then src (k - pos)
      else if p ∧ pos + written ≤ k ∧ k < pos + written + chunk then src (written + (k - (pos + written))) else old) =
      if p ∧ pos + written ≤ k ∧ k < pos + n then src (k - pos) else old := by
  by_cases hp : p
  · by_cases h1 : pos + (written + chunk) ≤ k ∧ k < pos + n
    · rw [if_pos ⟨hp, h1⟩, if_pos ⟨hp, by omega, h1.2⟩]
    · rw [if_neg (fun h => h1 h.2)]
      by_cases h2 : pos + written ≤ k ∧ k < pos + written + chunk
      · rw [if_pos ⟨hp, h2⟩, if_pos ⟨hp, h2.1, by omega⟩]
        congr 1
        omega
      · rw [if_neg (fun h => h2 h.2), if_neg (by omega)]
  · rw [if_neg (fun h => hp h.1), if_neg (fun h => hp h.1), if_neg (fun h => hp h.1)]

structure LoopStores (m : CapySuper) (ino pos : Nat) (src : Bytes) (size written : Nat) (v : Volume)
    (x : CapyInodeDisk) (n : Nat) (y : CapyInodeDisk) (w : Volume) : Prop where
  progress : written ≤ n
  bounded : n ≤ size
  fits : n = 0 ∨ pos + n ≤ fileLimit
  bytes : ∀ i k, fileByte (w.put ino y) i k =
    if i = ino ∧ pos + written ≤ k ∧ k < pos + n then src (k - pos) else fileByte (v.put ino x) i k
  short : n < size → Full m w ∨ fileLimit < pos + size

theorem LoopStores.stop {pos size written : Nat} {y : CapyInodeDisk} (hw : written ≤ size)
    (hroom : written = 0 ∨ pos + written ≤ fileLimit) (hsame : SameBlocks (v.put ino x) (w.put ino y))
    (hshort : written < size → Full m w ∨ fileLimit < pos + size) : LoopStores m ino pos src size written v x written y w := by
  refine ⟨Nat.le_refl _, hw, hroom, fun i k => ?_, hshort⟩
  rw [if_neg (by omega)]
  exact congrFun (hsame i _) _

theorem writeLoop_bytes (hl : SoundLayout m) (src : Bytes) (size n : Nat) (hpos : pos < 2 ^ 32)
    {written : Nat} (dirty : Bool) (hs : (v.put ino x).Safe) (hi : v.imap ino = true)
    (hd : ¬ (v.put ino x).IsDirectory ino) (hw : written ≤ size) (hfuel : size ≤ written + n)
    (hroom : written = 0 ∨ pos + written ≤ fileLimit) :
    Yields m v (capyfsWriteLoop m pos src size n written x dirty) (fun r w => ∃ a, r = some a ∧
      LoopStores m ino pos src size written v x a.1 a.2.1 w) := by
  induction n generalizing v x written dirty with
  | zero => exact Yields.pure ⟨_, rfl, .stop hw hroom (fun _ _ => rfl)
      (fun h => absurd h (not_lt.mpr hfuel))⟩
  | succ n ih =>
    simp only [capyfsWriteLoop]
    split
    next hdone => exact Yields.pure ⟨_, rfl, .stop hw hroom (fun _ _ => rfl)
      (fun h => absurd h (not_lt.mpr hdone))⟩
    next hmore =>
      have hlimit : fileLimit < 2 ^ 32 := by decide
      have habs : u32 (pos + written) = pos + written := mod_eq_of_lt (by omega)
      rw [habs]
      generalize hblock : (pos + written) / capyfsBlockSize = l
      generalize hoff : (pos + written) % capyfsBlockSize = off
      have hdiv := div_add_mod (pos + written) capyfsBlockSize
      have hmod := mod_lt (pos + written) (show 0 < capyfsBlockSize by decide)
      rw [hblock, hoff] at hdiv
      rw [hoff] at hmod
      have hfetch := (getDataBlock_yields hl hs hi l).both (getDataBlock_same hl hs hi l)
      refine hfetch.bind ?_ ?_
      swap
      · rintro u ⟨⟨db, hdb, -⟩, -⟩
        cases hdb
      rintro db u ⟨⟨db₁, h₁, hf⟩, db₂, h₂, hsame, hlost⟩
      obtain rfl := Option.some.inj h₁
      obtain rfl := Option.some.inj h₂
      cases hblk : db.block with
      | none =>
        refine Yields.pure ⟨_, rfl, .stop hw hroom hsame (fun _ => ?_)⟩
        refine (hlost hblk).imp_right (fun hend => ?_)
        have hle : fileLimit ≤ capyfsBlockSize * l := by
          unfold fileLimit
          rw [Nat.mul_comm]
          exact Nat.mul_le_mul_left _ hend
        omega
      | some p =>
        obtain ⟨hp0, hptr⟩ := hf.block p hblk
        simp only
        rw [if_neg hp0]
        refine Yields.bounded (fun hb => ?_)
        have hiu : u.imap ino = true := by
          rw [show u.imap = v.imap from hf.grown.imap, hi]
        have hpd : InData m p.toNat := by
          rw [← hptr]
          exact ptr_inData hb hf.grown.safe hiu _ (by rw [hptr]; exact hp0)
        have hdu : ¬ (u.put ino db.inode).IsDirectory ino := by
          rw [isDirectory_congr hf.grown.imap hf.grown.modes]
          exact hd
        refine (getBlock_does hpd).triedSeq ((putBlock_does hpd _).seq ?_)
        have hg := grown_store (v := u.put ino db.inode) hf.grown.safe hiu hdu
          (b := p.toNat) (by rw [put_inode_self, ← hptr]; rfl)
        -- the block is below the limit
        have hbelow : l < 12 + entriesPerBlock := by
          by_contra hge
          have hdir : ¬ l < 12 := by omega
          have hent : ¬ l - 12 < entriesPerBlock := by omega
          rw [show slotOf l = .entry (l - 12) by simp [slotOf, hdir]] at hptr
          simp only [ptr, hent, and_false, if_false] at hptr
          exact hp0 hptr.symm
        have hend := block_end hbelow
        have hpointer : (u.put ino db.inode).pointers (ino, slotOf l) = p.toNat := by
          rw [pointers, if_pos (show (u.put ino db.inode).imap ino = true from hiu), put_inode_self]
          exact congrArg BitVec.toNat hptr
        generalize hchunk : min (capyfsBlockSize - off) (size - written) = chunk
        obtain ⟨hpositive, hinside, hwithin⟩ := chunk_bounds hmod (not_le.mp hmore) hchunk
        have hlimit' : pos + (written + chunk) ≤ fileLimit :=
          calc pos + (written + chunk)
              = capyfsBlockSize * l + (off + chunk) := by rw [← Nat.add_assoc, ← hdiv, Nat.add_assoc]
            _ ≤ capyfsBlockSize * l + capyfsBlockSize := Nat.add_le_add_left hinside _
            _ ≤ fileLimit := hend
        have hbytes := fileByte_store hf.grown.safe.toSound hpointer
          (fun h => hp0 (BitVec.eq_of_toNat_eq h)) hinside
          (fun k => src (written + k))
        refine (ih (v := u.store p.toNat _) (x := db.inode) _ (hg _).safe hiu hdu
          hwithin (fuel_left hfuel hpositive) (.inr hlimit')).mono ?_
        rintro _ w ⟨a, rfl, hst⟩
        refine ⟨a, rfl, Nat.le_trans (Nat.le_add_right _ _) hst.progress, hst.bounded, hst.fits, fun i k => ?_, hst.short⟩
        rw [hst.bytes i k]
        change (if _ then _ else fileByte ((u.put ino db.inode).store p.toNat _) i k) = _
        rw [show u.data p.toNat = (u.put ino db.inode).data p.toNat from rfl, hbytes i k, hdiv,
          show fileByte (u.put ino db.inode) i k = fileByte (v.put ino x) i k from
            congrFun (hsame i _) _]
        exact runs_join hst.progress src _

theorem same_put {y : CapyInodeDisk} (hdirect : y.direct = (v.inode ino).direct)
    (hindirect : y.indirect = (v.inode ino).indirect) : SameBlocks v (v.put ino y) := by
  intro i l
  unfold fileBlock
  rw [put_pointers hdirect hindirect]
  rfl

structure RegularFile (v : Volume) (h : VInode) : Prop where
  live : v.imap h.ino = true
  mode : (v.inode h.ino).mode = h.mode
  file : h.isDir = false
  fits : (v.inode h.ino).size.toNat ≤ fileLimit

theorem RegularFile.notDirectory (hf : RegularFile v h) : ¬ v.IsDirectory h.ino := by
  rintro ⟨-, hd⟩
  unfold CapyInodeDisk.isDir at hd
  rw [hf.mode] at hd
  exact Bool.false_ne_true (hf.file.symm.trans hd)

structure Overwrites (m : CapySuper) (v : Volume) (h : VInode) (pos : Nat) (src : Bytes)
    (size n : Nat) (w : Volume) : Prop where
  bounded : n ≤ size
  imap : w.imap = v.imap
  others : ∀ i, i ≠ h.ino → w.inode i = v.inode i
  grown : (w.inode h.ino).size.toNat = max (v.inode h.ino).size.toNat (pos + n)
  fits : (w.inode h.ino).size.toNat ≤ fileLimit
  bytes : ∀ i k, fileByte w i k =
    if i = h.ino ∧ pos ≤ k ∧ k < pos + n then src (k - pos) else fileByte v i k
  short : n < size → Full m w ∨ fileLimit < pos + size

theorem write_bytes (hl : SoundLayout m) (hs : v.Safe) (hf : RegularFile v h)
    (hpos : pos ≤ (v.inode h.ino).size.toNat) (src : Bytes) (size : Nat) : Yields m v (capyfsWrite m h pos src size)
      (fun r w => ∃ n h', r = some (n, h') ∧ Overwrites m v h pos src size n w) := by
  have hsize := (v.inode h.ino).size.isLt
  have hfits := hf.fits
  unfold capyfsWrite
  split
  next hzero =>
    refine Yields.pure ⟨_, _, rfl, Nat.zero_le _, rfl, fun _ _ => rfl, (Nat.max_eq_left hpos).symm, hfits,
      fun i k => ?_, fun h => absurd hzero (Nat.ne_of_gt h)⟩
    rw [if_neg (fun h => absurd h.2.2 (not_lt.mpr h.2.1))]
  next hmore =>
    rw [if_neg (by simp [hf.file])]
    refine Yields.bounded (fun hb => ?_)
    have hino := hb.inodes _ hf.live
    refine (readInode_does hino).seq ?_
    have hsafe : (v.put h.ino (v.inode h.ino)).Safe := by
      rw [put_self]
      exact hs
    have hdir : ¬ (v.put h.ino (v.inode h.ino)).IsDirectory h.ino := by
      rw [put_self]
      exact hf.notDirectory
    have hloop := (writeLoop_yields hl pos src size size 0 false hsafe hf.live hdir).both
      (writeLoop_bytes hl src size size (lt_of_le_of_lt hpos hsize) false hsafe hf.live hdir
        (Nat.zero_le _) (Nat.zero_add size).ge (.inl rfl))
    refine hloop.bind ?_ ?_
    swap
    · rintro w ⟨⟨a, ha, -⟩, -⟩
      cases ha
    rintro ⟨n, x, dirty⟩ w ⟨⟨a₁, h₁, hinode, hgrown, hclean⟩, a₂, h₂, hst⟩
    obtain rfl := Option.some.inj h₁
    obtain rfl := Option.some.inj h₂
    rw [put_self] at hgrown
    have hbytes := hst.bytes
    have hn := hst.bounded
    have hend : pos + n ≤ fileLimit := by
      rcases hst.fits with hnone | hroom
      · rw [show n = 0 from hnone]
        exact hpos.trans hfits
      · exact hroom
    have hlimit : fileLimit < 2 ^ 32 := by decide
    rw [put_self] at hbytes
    simp only [Nat.add_zero] at hbytes
    have hxsize : x.size = (v.inode h.ino).size := by
      have hsz := hgrown.size
      rwa [put_inode_self] at hsz
    have hfinal : u32 (pos + n) = pos + n := mod_eq_of_lt (lt_of_le_of_lt hend hlimit)
    simp only [hfinal, hxsize]
    generalize hnew : max (v.inode h.ino).size.toNat (pos + n) = newSize
    have hnew32 : (BitVec.ofNat 32 newSize).toNat = newSize := by
      rw [BitVec.toNat_ofNat]
      exact mod_eq_of_lt (hnew ▸ max_lt hsize (lt_of_le_of_lt hend hlimit))
    -- the record that is stored, whichever it is
    have hdone : ∀ y : CapyInodeDisk, y.direct = x.direct → y.indirect = x.indirect →
        y.size.toNat = newSize → Overwrites m v h pos src size n (w.put h.ino y) := by
      intro y hyd hyi hys
      have hsame : SameBlocks (w.put h.ino x) (w.put h.ino y) := by
        have hput := same_put (v := w.put h.ino x) (y := y)
          (by rw [put_inode_self, hyd]) (by rw [put_inode_self, hyi])
        rwa [put_put] at hput
      refine ⟨hn, hgrown.imap, fun i hi => ?_, ?_, ?_, fun i k => ?_, hst.short⟩
      · exact (update_of_ne hi _ _).trans (congrFun hinode i)
      · rw [put_inode_self, hys, hnew]
      · rw [put_inode_self, hys, ← hnew]
        exact max_le hfits hend
      · rw [← hbytes i k]
        exact congrFun (hsame i _) _
    split
    next =>
      refine (writeInode_does hino _).triedSeq ?_
      simp only [Option.isNone_some, Bool.false_eq_true, if_false]
      refine Yields.pure ⟨_, _, rfl, ?_⟩
      split
      next => exact hdone _ rfl rfl hnew32
      next heq => exact hdone _ rfl rfl (by rw [hxsize]; exact (not_not.mp heq).symm)
    next hquiet =>
      simp only [Bool.or_eq_true, not_or, Bool.not_eq_true, bne_eq_false_iff_eq] at hquiet
      have hx : x = v.inode h.ino := (hclean hquiet.1).2
      have hw : w.put h.ino x = w := by
        rw [show x = w.inode h.ino by rw [hinode]; exact hx, put_self]
      refine Yields.pure ⟨_, _, rfl, ?_⟩
      rw [← hw]
      exact hdone x rfl rfl (by rw [hxsize]; exact hquiet.2.symm)

theorem getDataBlock_reads (hs : v.Safe) (hi : v.imap ino = true) {l : Nat} (hl : l < 12 + entriesPerBlock) :
    Does m v (capyfsGetDataBlock m (v.inode ino) l false) ⟨some (v.ptr (v.inode ino) (slotOf l)), v.inode ino, false⟩ v := by
  refine Yields.bounded (fun hb => ?_)
  unfold capyfsGetDataBlock
  split
  next hdir =>
    rw [if_neg (by simp)]
    have hslot : slotOf l = .direct ⟨l, hdir⟩ := by simp [slotOf, hdir]
    rw [hslot]
    exact Yields.pure ⟨rfl, rfl⟩
  next hdir =>
    have hk : l - 12 < entriesPerBlock := by omega
    have hslot : slotOf l = .entry (l - 12) := by simp [slotOf, hdir]
    rw [if_neg (Nat.not_le_of_lt hk), hslot]
    split
    next hzero =>
      rw [if_pos rfl]
      exact Yields.pure ⟨by simp [ptr, hzero], rfl⟩
    next hind =>
      have hdata : InData m (v.inode ino).indirect.toNat :=
        ptr_inData hb (by rw [put_self]; exact hs) hi .indirect hind
      unfold getIndirectBlock
      refine (getBlock_does hdata).triedSeq ?_
      simp only [Bool.false_eq_true, and_false, if_false]
      exact Yields.pure ⟨by simp [ptr, hind, hk], rfl⟩

theorem range_append_map {β : Type} (f : Nat → β) (c d : Nat) :
    (List.range c).map f ++ (List.range d).map (fun j => f (c + j)) = (List.range (c + d)).map f := by
  rw [range_add, map_append, map_map]
  rfl

theorem fileByte_run {l off chunk p : Nat} (hp : capyfsBlockSize * l + off = p) (hinside : off + chunk ≤ capyfsBlockSize) :
    (List.range chunk).map (fun k => fileBlock v ino l (off + k)) =
      (List.range chunk).map (fun j => fileByte v ino (p + j)) := by
  apply map_congr_left
  intro j hj
  have hlt : off + j < capyfsBlockSize :=
    Nat.lt_of_lt_of_le (Nat.add_lt_add_left (List.mem_range.mp hj) off) hinside
  unfold fileByte
  rw [← hp, Nat.add_assoc, mul_add_mod, mod_eq_of_lt hlt, mul_add_div (by decide),
    div_eq_of_lt hlt, Nat.add_zero]

theorem readLoop_bytes (hs : v.Safe) (hi : v.imap ino = true) {pos remaining : Nat}
    (hroom : pos + remaining ≤ fileLimit) (n c : Nat) (hc : c ≤ remaining) (hfuel : remaining ≤ c + n) :
    Does m v (capyfsReadLoop m (v.inode ino) pos remaining n ((List.range c).map fun k => fileByte v ino (pos + k)))
      ((List.range remaining).map fun k => fileByte v ino (pos + k)) v := by
  induction n generalizing c with
  | zero =>
    obtain rfl := Nat.le_antisymm hc hfuel
    exact Yields.pure ⟨rfl, rfl⟩
  | succ n ih =>
    simp only [capyfsReadLoop, length_map, length_range]
    split
    next hend =>
      obtain rfl := Nat.le_antisymm hc hend
      exact Yields.pure ⟨rfl, rfl⟩
    next hmore =>
      have hlimit : fileLimit < 2 ^ 32 := by decide
      have habs : u32 (pos + c) = pos + c := mod_eq_of_lt (by omega)
      rw [habs]
      generalize hblock : (pos + c) / capyfsBlockSize = l
      generalize hoff : (pos + c) % capyfsBlockSize = off
      have hdiv := div_add_mod (pos + c) capyfsBlockSize
      have hmod := mod_lt (pos + c) (show 0 < capyfsBlockSize by decide)
      rw [hblock, hoff] at hdiv
      rw [hoff] at hmod
      have hbelow : l < 12 + entriesPerBlock := by
        rw [← hblock]
        exact Nat.div_lt_of_lt_mul (by unfold fileLimit at hroom; rw [Nat.mul_comm]; omega)
      generalize hchunk : min (capyfsBlockSize - off) (remaining - c) = chunk
      obtain ⟨hpositive, hinside, hwithin⟩ := chunk_bounds hmod (not_le.mp hmore) hchunk
      have hrun : (List.range chunk).map (fun k => fileBlock v ino l (off + k)) =
          (List.range chunk).map (fun j => fileByte v ino (pos + (c + j))) := by
        rw [fileByte_run hdiv hinside]
        simp only [Nat.add_assoc]
      have hstep := ih (c + chunk) hwithin (fuel_left hfuel hpositive)
      rw [← range_append_map, ← hrun] at hstep
      refine Yields.bounded (fun hb => (getDataBlock_reads hs hi hbelow).seq ?_)
      dsimp only
      have hpointer : v.pointers (ino, slotOf l) = (v.ptr (v.inode ino) (slotOf l)).toNat := by
        rw [pointers, if_pos hi]
      split
      next hzero =>
        have hhole : fileBlock v ino l = zeros := if_pos (by rw [hpointer, hzero]; rfl)
        have hzeros : (List.range chunk).map (fun k => fileBlock v ino l (off + k)) =
            List.replicate chunk 0 := by
          rw [hhole]
          have hconst : (List.range chunk).map (fun _ => (0 : Byte)) =
              List.replicate (List.range chunk).length 0 := map_const'
          rwa [length_range] at hconst
        rwa [hzeros] at hstep
      next hne =>
        have hdata := ptr_inData hb (x := v.inode ino) (by rw [put_self]; exact hs) hi (slotOf l) hne
        refine (getBlock_does hdata).triedSeq ?_
        have hheld : fileBlock v ino l = v.data (v.ptr (v.inode ino) (slotOf l)).toNat := by
          unfold fileBlock
          have hne' : (v.ptr (v.inode ino) (slotOf l)).toNat ≠ 0 := fun h => hne (BitVec.eq_of_toNat_eq h)
          rw [hpointer, if_neg hne']
        rwa [hheld] at hstep

/-- The bytes of a file. -/
def contents (v : Volume) (i : Nat) : List Byte :=
  (List.range (v.inode i).size.toNat).map (fileByte v i)

@[simp] theorem length_contents (v : Volume) (i : Nat) : (contents v i).length = (v.inode i).size.toNat := by
  simp [contents]

/-- `bytes` over an array from a position in it. -/
def overlay (old : List Byte) (pos : Nat) (bytes : List Byte) : List Byte :=
  old.take pos ++ bytes ++ old.drop (pos + bytes.length)

theorem getElem?_overlay {old : List Byte} (hpos : pos ≤ old.length) (bytes : List Byte)
    (k : Nat) : (overlay old pos bytes)[k]? =
      if pos ≤ k ∧ k < pos + bytes.length then bytes[k - pos]? else old[k]? := by
  have htake : (old.take pos).length = pos := by simp [hpos]
  unfold overlay
  rw [append_assoc, List.getElem?_append, htake, List.getElem?_append]
  by_cases hbefore : k < pos
  · rw [if_pos hbefore, if_neg (by omega), List.getElem?_take, if_pos hbefore]
  · rw [if_neg hbefore]
    by_cases hinside : k < pos + bytes.length
    · rw [if_pos (by omega), if_pos (by omega)]
    · rw [if_neg (by omega), if_neg (by omega), List.getElem?_drop]
      congr 1
      omega

theorem getElem?_contents (v : Volume) (i k : Nat) : (contents v i)[k]? =
    if k < (v.inode i).size.toNat then some (fileByte v i k) else none := by
  unfold contents
  rw [List.getElem?_map]
  split
  next hk => rw [List.getElem?_range hk, Option.map_some]
  next hk => rw [List.getElem?_eq_none (by simpa using hk), Option.map_none]

theorem Overwrites.contents {pos size n : Nat} {w : Volume}
    (ho : Overwrites m v h pos src size n w) (hpos : pos ≤ (v.inode h.ino).size.toNat) :
    contents w h.ino = overlay (contents v h.ino) pos (listBytes src n) := by
  have hold : pos ≤ (Proofs.contents v h.ino).length := by rwa [length_contents]
  apply ext_getElem?
  intro k
  have hbyte := ho.bytes h.ino k
  simp only [true_and] at hbyte
  rw [getElem?_overlay hold, getElem?_contents, getElem?_contents, ho.grown, hbyte, length_listBytes]
  by_cases hin : pos ≤ k ∧ k < pos + n
  · have hk : k < max (v.inode h.ino).size.toNat (pos + n) := by omega
    have hsrc : k - pos < n := by omega
    rw [if_pos hin, if_pos hin, if_pos hk]
    simp [listBytes, hsrc]
  · rw [if_neg hin, if_neg hin]
    by_cases hk : k < (v.inode h.ino).size.toNat
    · rw [if_pos hk, if_pos (by omega)]
    · rw [if_neg hk, if_neg (by omega)]

theorem Overwrites.contents_others {pos size n : Nat} {w : Volume}
    (ho : Overwrites m v h pos src size n w) {i : Nat} (hi : i ≠ h.ino) : Proofs.contents w i = Proofs.contents v i := by
  unfold Proofs.contents
  rw [ho.others i hi]
  apply map_congr_left
  intro k _
  rw [ho.bytes i k, if_neg (fun hk => hi hk.1)]

theorem read_bytes (hf : RegularFile v h) (hs : v.Safe) (pos size : Nat) :
    Yields m v (capyfsRead m h pos size) (fun r w => w = v ∧
      r.map Prod.fst = some (((contents v h.ino).drop pos).take size)) := by
  unfold capyfsRead
  split
  next hzero =>
    subst hzero
    exact Yields.pure ⟨rfl, rfl⟩
  next hmore =>
    rw [if_neg (by simp [hf.file])]
    refine Yields.bounded (fun hb => (readInode_does (hb.inodes _ hf.live)).seq ?_)
    dsimp only
    split
    next hpast =>
      refine Yields.pure ⟨rfl, ?_⟩
      rw [drop_of_length_le (by rw [length_contents]; exact hpast), take_nil]
      rfl
    next hinside =>
      have hfits := hf.fits
      have hroom : pos + min size ((v.inode h.ino).size.toNat - pos) ≤ fileLimit := by omega
      have hloop := readLoop_bytes (m := m) hs hf.live hroom
        (min size ((v.inode h.ino).size.toNat - pos)) 0 (Nat.zero_le _) (by omega)
      refine hloop.seq (Yields.pure ⟨rfl, ?_⟩)
      apply congrArg some
      apply ext_getElem
      · simp
      intro k _ _
      simp [contents]

end CapyOS.Proofs
