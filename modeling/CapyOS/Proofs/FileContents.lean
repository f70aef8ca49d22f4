import CapyOS.Proofs.VfsAgreement
import CapyOS.Proofs.VolumeContents

namespace CapyOS.Proofs
open Lib FsM Volume Function
variable {h : VInode} {k : Nat × Nat} {name : Name}

/-- No file is larger than its pointers can reach. -/
def FilesFit (v : Volume) : Prop :=
  ∀ i, v.imap i = true → ¬ v.IsDirectory i → (v.inode i).size.toNat ≤ fileLimit

section
variable {v w : Volume}

theorem FilesFit.of_kept (hf : FilesFit v) (h : ∀ i, w.imap i = true → ¬ w.IsDirectory i → (w.inode i).size.toNat ≤ fileLimit ∨
      v.imap i = true ∧ w.inode i = v.inode i) : FilesFit w := by
  intro i hi hd
  obtain hnew | ⟨hlive, hsame⟩ := h i hi hd
  · exact hnew
  · rw [hsame]
    refine hf i hlive (fun hdv => hd ⟨hi, ?_⟩)
    rw [hsame]
    exact hdv.2

theorem FilesFit.stays {p : Prop} (hf : FilesFit v) (hs : Stays p v w) : FilesFit w := by
  refine hf.of_kept (fun i hi _ => .inr ?_)
  rw [hs.imap] at hi
  exact ⟨hi, hs.inode i hi⟩

theorem FilesFit.created {dir c : Nat} {x : CapyInodeDisk} (hf : FilesFit v)
    (hs : v.Safe) (hc : Created v w dir c name x) (hx : x.size = 0#32) : FilesFit w := by
  obtain ⟨j, e, -, hnamed, -, hdirents⟩ := hc.place
  have hc0 : c ≠ 0 := by
    intro h0
    have hroot := hs.root.1
    rw [← h0, hc.free] at hroot
    cases hroot
  -- the directory has an entry now
  have hdir : w.IsDirectory dir := by
    refine (entries_dir (k := (dir, j)) ?_).1
    unfold Volume.entries
    rw [hdirents, update_self, hnamed]
    exact hc0
  refine hf.of_kept (fun i hi hd => ?_)
  by_cases hnew : i = c
  · left
    rw [hnew, hc.record, hx]
    exact Nat.zero_le _
  · right
    rw [hc.imap, update_of_ne hnew] at hi
    exact ⟨hi, hc.others i hi (fun he => hd (he ▸ hdir))⟩

theorem FilesFit.removed {t : Nat} (hf : FilesFit v) (hr : Removed v w k t) : FilesFit w := by
  refine hf.of_kept (fun i hi _ => .inr ?_)
  by_cases hgone : i = t
  · rw [hgone, hr.imap, update_self] at hi
    cases hi
  · rw [hr.imap, update_of_ne hgone] at hi
    exact ⟨hi, hr.others i hgone⟩

theorem FilesFit.moved {dst : Nat} (hf : FilesFit v)
    (hm : Moved v w k dst name) (hdst : v.IsDirectory dst) : FilesFit w := by
  refine hf.of_kept (fun i hi hd => .inr ?_)
  rw [hm.imap] at hi
  refine ⟨hi, hm.others i (fun he => hd ?_)⟩
  rw [he]
  exact (isDirectory_congr hm.imap hm.modes dst).mpr hdst

theorem FilesFit.overwrites {m : CapySuper} {pos size n : Nat} {src : Bytes}
    (hf : FilesFit v) (ho : Overwrites m v h pos src size n w) : FilesFit w := by
  refine hf.of_kept (fun i hi _ => ?_)
  rw [ho.imap] at hi
  by_cases he : i = h.ino
  · left
    rw [he]
    exact ho.fits
  · exact .inr ⟨hi, ho.others i he⟩

theorem FilesFit.regular (hf : FilesFit v) (hv : Valid v h) (hfile : h.isDir = false) : RegularFile v h := by
  refine ⟨hv.live, hv.mode, hfile, hf _ hv.live (fun hd => ?_)⟩
  rw [hv.isDirectory.mp hd] at hfile
  cases hfile

end

def InPlace (m : CapySuper) (s : Session) : FsCall → Prop
  | .write file pos _ _ => ∀ h, s.handles[file]? = some h → h.isDir = false →
    pos ≤ ((volumeOf m s.fs.dev).inode h.ino).size.toNat
  | _ => True

def RunsInPlace (m : CapySuper) : Session → List FsCall → Prop
  | _, [] => True
  | s, call :: rest => InPlace m s call ∧ RunsInPlace m (call.run ampleHeap m s) rest

section
variable {m : CapySuper} {s : Session}

theorem write_directory (hd : h.isDir = true) (pos : Nat) (src : Bytes) (size : Nat)
    (fs : Fs) : (capyfsWrite m h pos src size fs).2 = fs := by
  have hwrite : capyfsWrite m h pos src size = if size = 0 then pure (0, h) else fail := by
    unfold capyfsWrite
    rw [if_pos hd]
  rw [hwrite]
  split <;> rfl

theorem setMetadata_sizes {v : Volume} (hi : v.imap h.ino = true) (info : VfsMetadata) :
    Yields m v (capyfsSetMetadata m h info) (fun _ w => w.imap = v.imap ∧ ∀ i, (w.inode i).size = (v.inode i).size) := by
  refine Yields.bounded (fun hb => ?_)
  have hino := hb.inodes _ hi
  unfold capyfsSetMetadata
  refine (readInode_does hino).seq ((writeInode_does hino _).seq (Yields.pure ⟨rfl, fun i => ?_⟩))
  by_cases he : i = h.ino
  · rw [he, put_inode_self]
  · exact congrArg _ (update_of_ne he _ _)

theorem call_fits (hs : Serves m s) (hf : FilesFit (volumeOf m s.fs.dev)) {call : FsCall}
    (hcall : InPlace m s call) : FilesFit (volumeOf m (call.run ampleHeap m s).fs.dev) := by
  have hl := hs.carries.layout
  cases call with
  | lookup dir name =>
    simp only [FsCall.run]
    cases hd : s.handles[dir]? with
    | none => exact hf
    | some h =>
      obtain ⟨-, hsame, -⟩ := lookup_yields ampleHeap_inode hs.safe (hs.get hd) name s.fs hs.carries rfl
      simp only [hsame]
      exact hf
  | create dir name mode info =>
    simp only [FsCall.run]
    cases hd : s.handles[dir]? with
    | none => exact hf
    | some h =>
      have hv := hs.get hd
      obtain ⟨-, hpost⟩ := create_yields ampleHeap_inode hl hs.safe hv name mode info s.fs hs.carries rfl
      cases hr : (capyfsCreate ampleHeap m h name mode info s.fs).1 with
      | none =>
        rw [hr] at hpost
        exact hf.stays hpost
      | some c =>
        rw [hr] at hpost
        exact hf.created hs.safe hpost.2 rfl
  | write file pos src size =>
    simp only [FsCall.run]
    cases hd : s.handles[file]? with
    | none => exact hf
    | some h =>
      have hv := hs.get hd
      by_cases hfile : h.isDir = true
      · show FilesFit (volumeOf m (capyfsWrite m h pos src size s.fs).2.dev)
        rw [write_directory hfile]
        exact hf
      · have hfile' : h.isDir = false := by simpa using hfile
        obtain ⟨-, n, h', -, ho⟩ := write_bytes hl hs.safe (hf.regular hv hfile')
          (hcall h hd hfile') src size s.fs hs.carries rfl
        exact hf.overwrites ho
  | remove dir name isDir =>
    simp only [FsCall.run]
    cases hd : s.handles[dir]? with
    | none => exact hf
    | some h =>
      obtain ⟨-, hpost⟩ := remove_yields hs.safe (hs.get hd) name isDir s.fs hs.carries rfl
      cases hr : (capyfsRemove m h name isDir s.fs).1 with
      | none =>
        rw [hr] at hpost
        rw [hpost]
        exact hf
      | some u =>
        rw [hr] at hpost
        obtain ⟨j, t, -, hremoved, -⟩ := hpost
        exact hf.removed hremoved
  | renameInode srcDir srcName dstDir dstName =>
    simp only [FsCall.run]
    cases hsrc : s.handles[srcDir]? with
    | none => exact hf
    | some src =>
      cases hdst : s.handles[dstDir]? with
      | none => exact hf
      | some dst =>
        obtain ⟨-, hpost⟩ := renameInode_yields hl hs.safe (hs.get hsrc) (hs.get hdst)
          srcName dstName s.fs hs.carries rfl
        cases hr : (capyfsRenameInode m src srcName dst dstName s.fs).1 with
        | none =>
          rw [hr] at hpost
          exact hf.stays hpost
        | some u =>
          rw [hr] at hpost
          obtain ⟨hdst, j, t, -, hmoved⟩ := hpost
          exact hf.moved hmoved hdst
  | setMetadata inode info =>
    simp only [FsCall.run]
    cases hd : s.handles[inode]? with
    | none => exact hf
    | some h =>
      have hlive := (hs.get hd).live
      obtain ⟨-, hkeeps, -⟩ := setMetadata_yields hs.safe hlive info s.fs hs.carries rfl
      obtain ⟨-, himap, hsize⟩ := setMetadata_sizes hlive info s.fs hs.carries rfl
      intro i hi hdir
      rw [himap] at hi
      rw [hsize]
      refine hf i hi (fun hd' => hdir ⟨by rw [himap]; exact hi, ?_⟩)
      have hmode := hd'.2
      unfold CapyInodeDisk.isDir at hmode ⊢
      rw [hkeeps.mode i hi]
      exact hmode

theorem runCalls_fits (hm : DirectDirs m) (hs : Serves m s) (hf : FilesFit (volumeOf m s.fs.dev))
    {calls : List FsCall} (hcalls : RunsInPlace m s calls) : FilesFit (volumeOf m (runCalls ampleHeap m s calls).fs.dev) := by
  induction calls generalizing s with
  | nil => exact hf
  | cons call rest ih => exact ih (call_serves hm hs call) (call_fits hs hf hcalls.1) hcalls.2

/-- The contents of files as byte arrays. A write of `n` bytes puts them over the
old contents at its position and leaves every other file alone. It is short only on
a full volume or at the last block that an inode can point to. A read gives the bytes
of its range that the file has. -/
theorem file_is_byte_array {s : Fs} {h : VInode} {pos : Nat} (hc : Carries m s.dev)
    (hs : (volumeOf m s.dev).Safe) (hf : FilesFit (volumeOf m s.dev)) (hv : Valid (volumeOf m s.dev) h)
    (hfile : h.isDir = false) (hpos : pos ≤ ((volumeOf m s.dev).inode h.ino).size.toNat)
    (src : Bytes) (size : Nat) :
    let v := volumeOf m s.dev
    let t := (capyfsWrite m h pos src size s).2
    let w := volumeOf m t.dev
    (∃ n h', (capyfsWrite m h pos src size s).1 = some (n, h') ∧ n ≤ size ∧
      contents w h.ino = overlay (contents v h.ino) pos (listBytes src n) ∧
      (w.inode h.ino).size.toNat = max (v.inode h.ino).size.toNat (pos + n) ∧
      (n < size → Full m w ∨ fileLimit < pos + size)) ∧
    (∀ i, i ≠ h.ino → contents w i = contents v i) ∧
    (∀ g, Valid w g → g.isDir = false → ∀ q len, ∃ bytes,
      (capyfsRead m g q len t).1.map Prod.fst = some bytes ∧
      bytes = ((contents w g.ino).drop q).take len ∧
      bytes.length = min len ((w.inode g.ino).size.toNat - q)) ∧
    Carries m t.dev ∧ w.Safe ∧ FilesFit w := by
  intro v t w
  obtain ⟨-, n, h', hr, ho⟩ := write_bytes hc.layout hs (hf.regular hv hfile) hpos src size s hc rfl
  obtain ⟨hct, hkeeps, -⟩ := write_yields hc.layout hs hv.live hv.mode pos src size s hc rfl
  refine ⟨⟨n, h', hr, ho.bounded, ho.contents hpos, ho.grown, ho.short⟩,
    fun i hi => ho.contents_others hi, fun g hg hgfile q len => ?_, hct, hkeeps.safe, hf.overwrites ho⟩
  obtain ⟨-, -, hread⟩ := read_bytes ((hf.overwrites ho).regular hg hgfile) hkeeps.safe q len t hct rfl
  refine ⟨_, hread, rfl, ?_⟩
  rw [List.length_take, List.length_drop, length_contents]

end

/-- A small volume with a new file in its root. -/
def fileSession : Session :=
  runCalls ampleHeap smallSuper ⟨smallSession.vfs.fs, [newRoot]⟩ [.create 0 [102#8] vfsModeFile none]

theorem fileSession_serves : Serves smallSuper fileSession ∧ FilesFit (volumeOf smallSuper fileSession.fs.dev) := by
  have hdirect : DirectDirs smallSuper := by
    unfold DirectDirs
    decide
  obtain ⟨hc, hs, ht, hlive⟩ := @format_fresh (plainDevice 64) 128 0 (fun _ => ⟨rfl, rfl⟩)
    (by decide) ⟨by decide, by decide, by decide⟩
  have hroot : Valid (volumeOf smallSuper smallSession.vfs.fs.dev) newRoot :=
    ⟨hs.root.1, by decide⟩
  have hstart : Serves smallSuper ⟨smallSession.vfs.fs, [newRoot]⟩ :=
    ⟨hc, hs, ht, fun g hg => List.mem_singleton.mp hg ▸ hroot⟩
  refine ⟨runCalls_serves hdirect hstart _, runCalls_fits hdirect hstart (fun i hi hd => ?_)
    ⟨trivial, trivial⟩⟩
  rw [(hlive i).mp hi] at hd
  exact absurd hs.root hd

theorem file_is_byte_array_new : ∃ h, fileSession.handles[1]? = some h ∧
    ∃ n h', (capyfsWrite smallSuper h 0 (fun _ => 7#8) 5000 fileSession.fs).1 = some (n, h') ∧
      contents (volumeOf smallSuper (capyfsWrite smallSuper h 0 (fun _ => 7#8) 5000 fileSession.fs).2.dev)
        h.ino = overlay (contents (volumeOf smallSuper fileSession.fs.dev) h.ino) 0
          (listBytes (fun _ => 7#8) n) := by
  have hsome : (fileSession.handles[1]?).isSome = true := by decide
  obtain ⟨h, hh⟩ := Option.isSome_iff_exists.mp hsome
  have hfile : (fileSession.handles[1]?).map VInode.isDir = some false := by decide
  rw [hh] at hfile
  obtain ⟨hserves, hfits⟩ := fileSession_serves
  obtain ⟨⟨n, h', hr, -, hbytes, -⟩, -⟩ := file_is_byte_array hserves.carries hserves.safe hfits
    (hserves.get hh) (Option.some.inj hfile) (Nat.zero_le _) (fun _ => 7#8) 5000
  exact ⟨h, hh, n, h', hr, hbytes⟩

end CapyOS.Proofs
