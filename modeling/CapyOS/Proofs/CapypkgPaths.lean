import CapyOS.Proofs.CapypkgCalls
import CapyOS.Proofs.CapypkgPersist

namespace CapyOS.Proofs
open Capypkg List
variable {name : Text} {size : Nat} {c : FileOp}
variable {s s' : Capypkg} {e b : CapypkgEntry} {p q : Text}

/-! ## Paths in full -/

/-- The paths of a package fit in their buffers. -/
def Roomy (e : CapypkgEntry) : Prop :=
  e.installRoot.length + e.name.length + 5 < capypkgPathMax ∧ e.installRoot.length + 15 < capypkgPathMax

/-- The names of the files in the directory of a package. -/
inductive FileName (e : CapypkgEntry) : Text → Prop
  | payload : FileName e (e.name ++ ".bin".toList)
  | part (tens units : Fin 10) : FileName e ("payload.part".toList ++ [Nat.digitChar tens, Nat.digitChar units])
  | marker : FileName e "installed".toList

/-- The files that calls for a package name, without anything cut off their paths. -/
inductive FilePath (e : CapypkgEntry) : Text → Prop
  | database : FilePath e (capypkgDirSystem ++ '/' :: "db.idx".toList)
  | staging : FilePath e (capypkgDirUpdates ++ '/' :: (e.name ++ ".bin".toList))
  | file {name : Text} : FileName e name → FilePath e (e.installRoot ++ '/' :: name)
  | backup : FilePath e (e.installRoot ++ '/' :: (e.name ++ ".bin.previous".toList))

/-- The same with the directories. -/
inductive FullPath (e : CapypkgEntry) : Text → Prop
  | system : FullPath e capypkgDirSystem
  | var : FullPath e capypkgDirVar
  | updates : FullPath e capypkgDirUpdates
  | root : FullPath e e.installRoot
  | file {path : Text} : FilePath e path → FullPath e path

def changedFiles : FileOp → List Text
  | .write path _ => [path]
  | .remove path => [path]
  | .rename source destination => [source, destination]
  | .mkdir _ => []

theorem localAppend_fits {dst src : Text} (h : dst.length + src.length < size) :
    localAppend size dst src = dst ++ src := by
  rw [localAppend, take_of_length_le]
  rw [length_append]
  omega

theorem localCopy_fits {src : Text} (h : src.length < size) : localCopy size src = src :=
  take_of_length_le (by omega)

theorem localAppend_three {root a b c : Text} (h : root.length + a.length + b.length + c.length < size) :
    localAppend size (localAppend size (localAppend size (localCopy size root) a) b) c = root ++ (a ++ (b ++ c)) := by
  have hab : (root ++ a).length = root.length + a.length := length_append
  have habc : (root ++ a ++ b).length = root.length + a.length + b.length := by rw [length_append, hab]
  have ha : localAppend size root a = root ++ a := localAppend_fits (by omega)
  have hb : localAppend size (root ++ a) b = root ++ a ++ b := localAppend_fits (by omega)
  rw [localCopy_fits (by omega), ha, hb, localAppend_fits (by omega)]
  simp only [append_assoc]

theorem target_full (h : Roomy e) : buildPayloadTarget e = e.installRoot ++ '/' :: (e.name ++ ".bin".toList) := by
  obtain ⟨h, _⟩ := h
  have hslash : ("/".toList : Text) = ['/'] := by simp
  have hbin : (".bin".toList : Text).length = 4 := by simp
  have hone : (['/'] : Text).length = 1 := rfl
  unfold buildPayloadTarget
  dsimp only
  rw [hslash, localAppend_three (by omega)]
  rfl

theorem marker_full (h : Roomy e) : buildInstalledMarkerTarget e = e.installRoot ++ '/' :: "installed".toList := by
  obtain ⟨_, h⟩ := h
  have hname : ("/installed".toList : Text) = '/' :: "installed".toList := by simp
  have hlen : ("/installed".toList : Text).length = 10 := by simp
  unfold buildInstalledMarkerTarget
  dsimp only
  rw [localCopy_fits (by omega), localAppend_fits (by omega), hname]

theorem part_full (h : Roomy e) {part : Nat} (hp : buildPayloadPartTarget e part = some p) : ∃ tens units : Fin 10,
      p = e.installRoot ++ '/' :: ("payload.part".toList ++ [Nat.digitChar tens, Nat.digitChar units]) := by
  obtain ⟨_, h⟩ := h
  have hname : ("/payload.part".toList : Text) = '/' :: "payload.part".toList := by simp
  have hlen : ("/payload.part".toList : Text).length = 13 := by simp
  unfold buildPayloadPartTarget at hp
  split at hp
  · cases hp
  next hpart =>
    refine ⟨⟨part / 10, by omega⟩, ⟨part % 10, by omega⟩, ?_⟩
    have hp := (Option.some.inj hp).symm
    have htext : (e.installRoot ++ "/payload.part".toList).length = e.installRoot.length + 13 := by
      rw [length_append, hlen]
    have hdigits : ([Nat.digitChar (part / 10), Nat.digitChar (part % 10)] : Text).length = 2 := rfl
    have hpre : localAppend capypkgPathMax e.installRoot "/payload.part".toList = e.installRoot ++ "/payload.part".toList :=
      localAppend_fits (by omega)
    rw [localCopy_fits (by omega), hpre, localAppend_fits (by omega), hname] at hp
    rw [hp]
    simp only [append_assoc, cons_append]

theorem staging_full (h : e.name.length < capypkgNameMax) :
    buildPayloadStaging e = capypkgDirUpdates ++ '/' :: (e.name ++ ".bin".toList) := by
  have hname : e.name.length < 64 := h
  have hmax : capypkgPathMax = 128 := rfl
  have hslash : ("/".toList : Text) = ['/'] := by simp
  have hbin : (".bin".toList : Text).length = 4 := by simp
  have hdir : capypkgDirUpdates.length = 20 := by decide +kernel
  have hone : (['/'] : Text).length = 1 := rfl
  unfold buildPayloadStaging
  dsimp only
  rw [hslash, localAppend_three (by omega)]
  rfl

theorem backup_full (h : Roomy e) (hp : buildPayloadBackup (buildPayloadTarget e) = some p) :
    p = e.installRoot ++ '/' :: (e.name ++ ".bin.previous".toList) := by
  have hlen : (".previous".toList : Text).length = 9 := by simp
  have hbin : (".bin.previous".toList : Text) = ".bin".toList ++ ".previous".toList := by simp
  unfold buildPayloadBackup at hp
  split at hp
  · cases hp
  next hroom =>
    have hp := (Option.some.inj hp).symm
    rw [localCopy_fits (by omega), localAppend_fits (by omega), target_full h] at hp
    rw [hp, hbin]
    simp only [append_assoc, cons_append]

theorem callOf_changed (h : Roomy e) (hname : e.name.length < capypkgNameMax) (hc : CallOf e c) :
    ∀ p ∈ changedFiles c, FilePath e p := by
  have htarget : FilePath e (buildPayloadTarget e) := target_full h ▸ .file .payload
  have hmarker : FilePath e (buildInstalledMarkerTarget e) := marker_full h ▸ .file .marker
  have hstaging : FilePath e (buildPayloadStaging e) := staging_full hname ▸ .staging
  have hbackup {path : Text} (hp : buildPayloadBackup (buildPayloadTarget e) = some path) : FilePath e path :=
    backup_full h hp ▸ .backup
  have hone {path : Text} (hp : FilePath e path) : ∀ p ∈ [path], FilePath e p :=
    fun p hm => mem_singleton.mp hm ▸ hp
  have htwo {path path' : Text} (hp : FilePath e path) (hp' : FilePath e path') : ∀ p ∈ [path, path'], FilePath e p := by
    intro p hm
    cases List.mem_cons.mp hm with
    | inl hm => exact hm ▸ hp
    | inr hm => exact mem_singleton.mp hm ▸ hp'
  have hdb : capypkgDbFile = capypkgDirSystem ++ '/' :: "db.idx".toList := by decide +kernel
  have hdir : ∀ p ∈ ([] : List Text), FilePath e p := fun _ hm => absurd hm not_mem_nil
  cases hc with
  | system => exact hdir
  | var => exact hdir
  | updates => exact hdir
  | root => exact hdir
  | database => exact hone (hdb ▸ .database)
  | writeTarget => exact hone htarget
  | writeStaging => exact hone hstaging
  | writeMarker => exact hone hmarker
  | writePart hp =>
    obtain ⟨tens, units, hp⟩ := part_full h hp
    exact hone (hp ▸ .file (.part tens units))
  | removeTarget => exact hone htarget
  | removeStaging => exact hone hstaging
  | removeMarker => exact hone hmarker
  | removeBackup hp => exact hone (hbackup hp)
  | keep hp => exact htwo htarget (hbackup hp)
  | activate => exact htwo hstaging htarget
  | restore hp => exact htwo (hbackup hp) htarget

theorem callOf_full (h : Roomy e) (hname : e.name.length < capypkgNameMax) (hc : CallOf e c) :
    ∀ p ∈ c.paths, FullPath e p := by
  have hchanged := callOf_changed h hname hc
  cases c with
  | write path content => exact fun p hm => .file (hchanged p hm)
  | remove path => exact fun p hm => .file (hchanged p hm)
  | rename source destination => exact fun p hm => .file (hchanged p hm)
  | mkdir path =>
    intro p hm
    rw [mem_singleton.mp hm]
    cases hc with
    | system => exact .system
    | var => exact .var
    | updates => exact .updates
    | root => exact .root

/-! ## Segments -/

theorem segments_ne_nil (text : Text) : segments text ≠ [] := by
  cases text with
  | nil => exact nofun
  | cons c rest =>
    rw [segments]
    split
    · exact nofun
    · split <;> exact nofun

theorem segments_slash (a b : Text) : segments (a ++ '/' :: b) = segments a ++ segments b := by
  induction a with
  | nil => simp [segments]
  | cons c a ih =>
    rw [cons_append, segments, segments, ih]
    split
    · rfl
    · cases hs : segments a with
      | nil => exact absurd hs (segments_ne_nil a)
      | cons seg segs => rfl

theorem segments_plain {text : Text} (h : '/' ∉ text) : segments text = [text] := by
  induction text with
  | nil => rfl
  | cons c text ih =>
    simp only [mem_cons, not_or] at h
    rw [segments, if_neg (Ne.symm h.1), ih h.2]

/-- The file that a path names: the file system passes over empty segments. -/
def pathFile (path : Text) : List Text := (segments path).filter (· ≠ [])

theorem pathFile_slash (root : Text) (hne : name ≠ []) (h : '/' ∉ name) :
    pathFile (root ++ '/' :: name) = pathFile root ++ [name] := by
  rw [pathFile, segments_slash, segments_plain h, filter_append, pathFile]
  simp [hne]

theorem safe_no_slash (h : nameIsSafe name = true) : '/' ∉ name := by
  intro hm
  obtain ha | hc | hc | hc := safe_char h hm
  · exact absurd ha (by decide)
  · exact absurd hc (by decide)
  · exact absurd hc (by decide)
  · exact absurd hc (by decide)

theorem digit_char (d : Fin 10) : Nat.digitChar d ≠ '/' ∧ Nat.digitChar d ≠ 'n' ∧ Nat.digitChar d ≠ 'x' := by
  revert d
  decide

theorem fileName_plain (hn : nameIsSafe e.name = true) (h : FileName e name) : '/' ∉ name ∧ 2 < name.length := by
  cases h with
  | payload =>
    refine ⟨?_, by simp⟩
    rw [mem_append, not_or]
    exact ⟨safe_no_slash hn, by simp⟩
  | part tens units =>
    refine ⟨?_, by simp⟩
    have ht := (digit_char tens).1
    have hu := (digit_char units).1
    simp [Ne.symm ht, Ne.symm hu]
  | marker => exact ⟨by simp, by simp⟩

theorem backup_plain (hn : nameIsSafe e.name = true) : '/' ∉ e.name ++ ".bin.previous".toList := by
  rw [mem_append, not_or]
  exact ⟨safe_no_slash hn, by simp⟩

theorem fileName_last (h : FileName e name) :
    name = e.name ++ ".bin".toList ∨ name.getLast? ≠ some 'n' ∧ name.getLast? ≠ some 'x' := by
  cases h with
  | payload => exact .inl rfl
  | part tens units =>
    obtain ⟨_, hn, hx⟩ := digit_char units
    exact .inr ⟨by simp [hn], by simp [hx]⟩
  | marker => exact .inr ⟨by simp, by simp⟩

theorem bin_last (name : Text) : (name ++ ".bin".toList).getLast? = some 'n' := by
  simp

/-! ## Confinement -/

def Confined (path : Text) : Prop :=
  (pathIsUnder path capypkgDirVar = true ∨ pathIsUnder path "/opt".toList = true ∨
    pathIsUnder path capypkgDirSystem = true) ∧ pathHasDotdotSegment path = false

theorem under_slash (dir rest : Text) : pathIsUnder (dir ++ '/' :: rest) dir = true := by
  have hpre : localStartsWith (dir ++ '/' :: rest) dir = true := by
    rw [localStartsWith, isPrefixOf_iff_prefix]
    exact prefix_append _ _
  have hat : (dir ++ '/' :: rest)[dir.length]? = some '/' := by
    simp
  rw [pathIsUnder, hpre, hat]
  simp

theorem under_self (dir : Text) : pathIsUnder dir dir = true := by
  have hpre : localStartsWith dir dir = true := by
    unfold localStartsWith
    exact List.isPrefixOf_iff_prefix.mpr (prefix_refl dir)
  rw [pathIsUnder, hpre]
  simp

theorem under_cases {path dir : Text} (hne : dir ≠ []) (hlast : dir.getLast? ≠ some '/') (h : pathIsUnder path dir = true) :
    path = dir ∨ ∃ rest, path = dir ++ '/' :: rest := by
  simp only [pathIsUnder, localStartsWith, Bool.and_eq_true, isPrefixOf_iff_prefix, Bool.or_eq_true,
    decide_eq_true_eq] at h
  obtain ⟨⟨rest, rfl⟩, ((hnil | hlen) | hat) | hend⟩ := h
  · exact absurd hnil hne
  · rw [length_append] at hlen
    have hrest : rest = [] := length_eq_zero_iff.mp (by omega)
    exact .inl (by rw [hrest, append_nil])
  · cases rest with
    | nil => simp at hat
    | cons c rest =>
      have hc : c = '/' := by simpa using hat
      exact .inr ⟨rest, by rw [hc]⟩
  · exact absurd hend hlast

/-- The root of a package that was accepted is a directory of packages or goes on behind it. -/
theorem root_under (h : EntryValid e) : (e.installRoot = capypkgDirVar ∨ ∃ rest, e.installRoot = capypkgDirVar ++ '/' :: rest) ∨
    ∃ rest, e.installRoot = "/opt".toList ++ '/' :: rest := by
  have hunder := h.under
  rw [Bool.or_eq_true] at hunder
  cases hunder with
  | inl hvar => exact .inl (under_cases (by decide) (by decide) hvar)
  | inr hopt =>
    simp only [pathIsUnder, localStartsWith, Bool.and_eq_true, isPrefixOf_iff_prefix] at hopt
    obtain ⟨rest, hrest⟩ := hopt.1
    refine .inr ⟨rest, hrest.symm.trans ?_⟩
    simp

theorem dotdot_slash {root name : Text} (h : pathHasDotdotSegment root = false) (hp : '/' ∉ name) (hl : 2 < name.length) :
    pathHasDotdotSegment (root ++ '/' :: name) = false := by
  have hne : name ≠ "..".toList := by
    rintro rfl
    simp at hl
  rw [pathHasDotdotSegment, segments_slash, segments_plain hp, any_append, Bool.or_eq_false_iff]
  exact ⟨h, by simpa using hne⟩

theorem confined_root (h : EntryValid e) (hp : '/' ∉ name) (hl : 2 < name.length) :
    Confined (e.installRoot ++ '/' :: name) := by
  refine ⟨?_, dotdot_slash h.dotdot hp hl⟩
  obtain (hroot | ⟨rest, hroot⟩) | ⟨rest, hroot⟩ := root_under h
  · exact .inl (hroot ▸ under_slash _ _)
  · rw [hroot, append_assoc]
    exact .inl (under_slash _ _)
  · rw [hroot, append_assoc]
    exact .inr (.inl (under_slash _ _))

theorem fullPath_confined (h : EntryValid e) (hp : FullPath e p) : Confined p := by
  have hname := h.name
  cases hp with
  | system => exact ⟨.inr (.inr (under_self _)), by decide +kernel⟩
  | var => exact ⟨.inl (under_self _), by decide +kernel⟩
  | updates => exact ⟨.inl (by decide +kernel), by decide +kernel⟩
  | root =>
    refine ⟨?_, h.dotdot⟩
    obtain (hroot | ⟨rest, hroot⟩) | ⟨rest, hroot⟩ := root_under h
    · exact .inl (hroot ▸ under_self _)
    · exact .inl (hroot ▸ under_slash _ _)
    · exact .inr (.inl (hroot ▸ under_slash _ _))
  | file hp =>
    cases hp with
    | database => exact ⟨.inr (.inr (under_slash _ _)), by decide +kernel⟩
    | staging =>
      obtain ⟨hplain, hlen⟩ := fileName_plain hname .payload
      refine ⟨.inl ?_, dotdot_slash (by decide +kernel) hplain hlen⟩
      have hdir : capypkgDirUpdates = capypkgDirVar ++ '/' :: "updates".toList := by decide +kernel
      rw [hdir, append_assoc]
      exact under_slash _ _
    | file hf =>
      obtain ⟨hplain, hlen⟩ := fileName_plain hname hf
      exact confined_root h hplain hlen
    | backup => exact confined_root h (backup_plain hname) (by simp)

/-! ## Isolation -/

def PackageFile (b : CapypkgEntry) (q : Text) : Prop :=
  q = buildPayloadTarget b ∨ (∃ part, buildPayloadPartTarget b part = some q) ∨ q = buildInstalledMarkerTarget b

theorem packageFile_full (h : Roomy b) (hq : PackageFile b q) : ∃ name, FileName b name ∧ q = b.installRoot ++ '/' :: name := by
  obtain rfl | ⟨part, hp⟩ | rfl := hq
  · exact ⟨_, .payload, target_full h⟩
  · obtain ⟨tens, units, hp⟩ := part_full h hp
    exact ⟨_, .part tens units, hp⟩
  · exact ⟨_, .marker, marker_full h⟩

def Apart (s : Capypkg) (e : CapypkgEntry) : Prop :=
  ∀ b ∈ s.installed, b.name ≠ e.name → Roomy b ∧ pathFile b.installRoot ≠ pathFile e.installRoot

theorem changed_apart (he : EntryValid e) (hb : EntryValid b) (hroomy : Roomy b) (hne : b.name ≠ e.name)
    (hroot : pathFile b.installRoot ≠ pathFile e.installRoot) (hp : FilePath e p) (hq : PackageFile b q) :
    pathFile p ≠ pathFile q := by
  obtain ⟨y, hy, rfl⟩ := packageFile_full hroomy hq
  have hyplain := fileName_plain hb.name hy
  have hyne : y ≠ [] := by
    rintro rfl
    exact absurd hyplain.2 (by simp)
  -- two files are one only if their directories and their names are
  have hsplit {dir x : Text} (hx : x ≠ []) (hplain : '/' ∉ x)
      (heq : pathFile (dir ++ '/' :: x) = pathFile (b.installRoot ++ '/' :: y)) :
      pathFile dir = pathFile b.installRoot ∧ x = y := by
    rw [pathFile_slash dir hx hplain, pathFile_slash b.installRoot hyne hyplain.1] at heq
    obtain ⟨hdir, hname⟩ := append_inj' heq rfl
    exact ⟨hdir, singleton_injective hname⟩
  intro heq
  cases hp with
  | database =>
    have hname := (hsplit (by simp) (by simp) heq).2
    have hlast : y.getLast? = some 'x' := by
      rw [← hname]
      simp
    obtain hbin | hnot := fileName_last hy
    · rw [hbin, bin_last] at hlast
      exact absurd hlast (by decide)
    · exact hnot.2 hlast
  | staging =>
    have hplain := fileName_plain he.name FileName.payload
    have hname := (hsplit (by simp) hplain.1 heq).2
    obtain hbin | hnot := fileName_last hy
    · exact hne (append_cancel_right (hname.trans hbin)).symm
    · exact hnot.1 (hname ▸ bin_last e.name)
  | file hf =>
    have hplain := fileName_plain he.name hf
    refine hroot (hsplit ?_ hplain.1 heq).1.symm
    rintro rfl
    exact absurd hplain.2 (by simp)
  | backup => exact hroot (hsplit (by simp) (backup_plain he.name) heq).1.symm

/-- What a file call made for a package is to be, with the table as it is at that install,
update or removal: it leaves the files of every other installed package alone. -/
structure FileSafe (t : Capypkg) (e : CapypkgEntry) (c : FileOp) : Prop where
  confined : ∀ p ∈ c.paths, Confined p
  whole : ∀ p ∈ c.paths, FullPath e p
  apart : ∀ b ∈ t.installed, b.name ≠ e.name → ∀ p ∈ changedFiles c, ∀ q, PackageFile b q →
    pathFile p ≠ pathFile q

theorem callOf_safe (hstored : Stored e) (hinstalled : ∀ b ∈ s.installed, EntryValid b) (hroomy : Roomy e)
    (hapart : Apart s e) (hc : CallOf e c) : FileSafe s e c := by
  have hlen := hstored.fields.name.1
  have hfull := callOf_full hroomy hlen hc
  refine ⟨fun p hp => fullPath_confined hstored.valid (hfull p hp), hfull, fun b hb hne p hp q hq => ?_⟩
  obtain ⟨hbroomy, hroot⟩ := hapart b hb hne
  exact changed_apart hstored.valid (hinstalled b hb) hbroomy hne hroot
    (callOf_changed hroomy hlen hc p hp) hq

/-- The packages that an install comes to have whole paths, and directories apart from those of
the installed packages and from one another's. -/
structure InstallApart (s : Capypkg) (name : Text) : Prop where
  roomy : ∀ e, Wanted s name e → Roomy e
  others : ∀ e, Wanted s name e → Apart s e
  wanted : ∀ e f, Wanted s name e → Wanted s name f → f.name ≠ e.name →
    pathFile f.installRoot ≠ pathFile e.installRoot

theorem available_of_find (h : s.findAvailable name = some e) : e ∈ s.available := by
  unfold Capypkg.findAvailable at h
  split at h
  · cases h
  · exact List.mem_of_find?_eq_some h

/-- One install of a payload: it is of a package the call comes to, which by then is apart from
every other installed package, those that the call itself installed among them. -/
def InstallSafe (env : CapypkgEnv) (s : Capypkg) (name : Text) (t : Capypkg) (e : CapypkgEntry)
    (existing : Bool) : Prop :=
  Wanted s name e ∧ Calls (FileSafe t e) t (t.installPayload env dbSerialize e existing).2

theorem install_safe (hinv : PkgInv s) {env : CapypkgEnv} {calls : Nat}
    {rc : CapypkgResult} (h : Capypkg.install env dbSerialize calls s name = some (rc, s'))
    (hapart : InstallApart s name) : Installs env dbSerialize (InstallSafe env s name) s s' := by
  refine (install_calls env dbSerialize calls s name rc s' h).mono fun t e existing hbefore hw => ?_
  have hstored {f : CapypkgEntry} (hf : Wanted s name f) : Stored f :=
    hinv.available f (available_of_find hf.1)
  have hvalid : ∀ b ∈ t.installed, EntryValid b := by
    intro b hb
    obtain hb | ⟨_, _, hwb⟩ := hbefore.members hb
    · exact (hinv.installed b hb).valid
    · exact (hstored hwb).valid
  have hothers : Apart t e := by
    intro b hb hne
    obtain hb | ⟨_, _, hwb⟩ := hbefore.members hb
    · exact hapart.others e hw b hb hne
    · exact ⟨hapart.roomy b hwb, hapart.wanted e b hw hwb hne⟩
  refine ⟨hw, (installPayload_calls env dbSerialize e t existing).mono fun c hc => ?_⟩
  exact callOf_safe (hstored hw) hvalid (hapart.roomy e hw) hothers hc

/-- In every state of the package service: as long as no path of a package it works on is cut
off and no two packages share a directory, the file calls of an install, an update or a
removal stay within the directories of packages, name whole paths, and leave the files of
every other package alone that is installed when they are made. -/
theorem package_files_isolated (h : PkgRun s) (env : CapypkgEnv) (name : Text) :
    (InstallApart s name →
      (∀ calls rc s', Capypkg.install env dbSerialize calls s name = some (rc, s') →
        Installs env dbSerialize (InstallSafe env s name) s s') ∧
      ∀ calls rc s', s.update env dbSerialize calls name = some (rc, s') →
        Installs env dbSerialize (InstallSafe env s name) s s') ∧
    ((∀ e ∈ s.installed, e.name = name → Roomy e ∧ Apart s e) →
      Calls (fun c => ∃ e ∈ s.installed, e.name = name ∧ FileSafe s e c) s
        (s.remove env dbSerialize name).2) := by
  have hinv := pkgRun_inv h
  refine ⟨fun hapart => ⟨fun calls rc s' hi => install_safe hinv hi hapart, fun calls rc s' hu => ?_⟩, fun hapart => ?_⟩
  · unfold Capypkg.update at hu
    have hnone {rc' : CapypkgResult} (hu : some (rc', s) = some (rc, s')) :
        Installs env dbSerialize (InstallSafe env s name) s s' := by
      cases hu
      exact .none
    split at hu
    · exact hnone hu
    split at hu
    · exact hnone hu
    split at hu
    · exact hnone hu
    · exact install_safe hinv hu hapart
    · split at hu
      · exact hnone hu
      · exact install_safe hinv hu hapart
  · refine (remove_calls env dbSerialize s name).mono fun c hc => ?_
    obtain ⟨e, he, hname, hc⟩ := hc
    obtain ⟨hroomy, ha⟩ := hapart e he hname
    exact ⟨e, he, hname, callOf_safe (hinv.installed e he) (fun b hb => (hinv.installed b hb).valid)
      hroomy ha hc⟩

def packageText (name root deps : Text) : Text :=
  "name=".toList ++ name ++ "\nversion=1\npayload_url=https://x\npayload_sha256=".toList ++ replicate 64 '0' ++
    "\nsignature_ed25519=".toList ++ replicate 128 '0' ++ "\ninstall_root=".toList ++ root ++ deps ++ "\n".toList

def sharedText (name : Text) : Text := packageText name "/opt/x".toList []

/-- A system that has `a` installed, and `b`, which needs `c`, in its catalog. -/
def threePackages : Capypkg :=
  .init none (some (packageText "a".toList "/opt/a".toList []))
    (some (packageText "b".toList "/opt/b".toList "\ndepends=c\n---".toList ++
      packageText "c".toList "/opt/c".toList [])) fun _ => none

theorem threePackages_apart : InstallApart threePackages "b".toList := by
  have hroomy : ∀ e ∈ threePackages.available, e.installRoot.length + e.name.length + 5 < capypkgPathMax ∧
      e.installRoot.length + 15 < capypkgPathMax := by decide +kernel
  have hothers : ∀ e ∈ threePackages.available, ∀ b ∈ threePackages.installed,
      (b.installRoot.length + b.name.length + 5 < capypkgPathMax ∧
        b.installRoot.length + 15 < capypkgPathMax) ∧
      pathFile b.installRoot ≠ pathFile e.installRoot := by decide +kernel
  have hwanted : ∀ e ∈ threePackages.available, ∀ f ∈ threePackages.available, f.name ≠ e.name →
      pathFile f.installRoot ≠ pathFile e.installRoot := by decide +kernel
  exact ⟨fun e he => hroomy e (available_of_find he.1),
    fun e he b hb _ => hothers e (available_of_find he.1) b hb,
    fun e f he hf => hwanted e (available_of_find he.1) f (available_of_find hf.1)⟩

/-- `c` is installed by the same call before `b`; `a`, which was there, and `c` are left alone. -/
theorem package_files_isolated_one : ∃ s',
    (Capypkg.install (pkgEnv true []) dbSerialize 3 threePackages "b".toList).map Prod.fst = some .ok ∧
      installedNames threePackages = ["a".toList] ∧
      installedNames s' = ["a".toList, "c".toList, "b".toList] ∧
      Installs (pkgEnv true []) dbSerialize (InstallSafe (pkgEnv true []) threePackages "b".toList)
        threePackages s' := by
  have hcalls : (Capypkg.install (pkgEnv true []) dbSerialize 3 threePackages "b".toList).map
      (fun r => decide (r.1 = .ok ∧
        installedNames r.2 = ["a".toList, "c".toList, "b".toList])) = some true := by decide +kernel
  cases hi : Capypkg.install (pkgEnv true []) dbSerialize 3 threePackages "b".toList with
  | none =>
    rw [hi] at hcalls
    cases hcalls
  | some r =>
    rw [hi] at hcalls
    have hr := of_decide_eq_true (Option.some.inj hcalls)
    have h := (package_files_isolated (.init _ _ _ _) (pkgEnv true []) "b".toList).1 threePackages_apart
    exact ⟨r.2, congrArg some hr.1, by decide +kernel, hr.2, h.1 3 r.1 r.2 hi⟩

/-- The installs of two packages with the same root write the same marker. -/
theorem shared_root_overwrites :
    let s := Capypkg.init none (some (sharedText "a".toList)) (some (sharedText "b".toList)) fun _ => none
    PkgRun s ∧ ∃ a ∈ s.installed, a.name ≠ "b".toList ∧ PackageFile a "/opt/x/installed".toList ∧
      (Capypkg.install (pkgEnv true []) dbSerialize 2 s "b".toList).map
        (fun r => r.2.calls.any fun c => (changedFiles c).contains "/opt/x/installed".toList) = some true := by
  intro s
  have hinstalled : s.installed.map (fun a => (a.name, buildInstalledMarkerTarget a)) =
      [("a".toList, "/opt/x/installed".toList)] := by decide +kernel
  obtain ⟨a, ha, heq⟩ := mem_map.mp (hinstalled ▸ mem_singleton.mpr rfl :
    ("a".toList, "/opt/x/installed".toList) ∈ s.installed.map fun a => (a.name, buildInstalledMarkerTarget a))
  simp only [Prod.mk.injEq] at heq
  refine ⟨.init _ _ _ _, a, ha, ?_, .inr (.inr heq.2.symm), by decide +kernel⟩
  rw [heq.1]
  decide

end CapyOS.Proofs
