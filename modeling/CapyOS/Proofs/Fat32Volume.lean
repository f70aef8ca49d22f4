import CapyOS.Proofs.Fat32Layout

namespace CapyOS.Proofs
open Lib List
variable {path : List (List Byte)} {name p : List Byte} {es : List DirEnt} {i : Nat}
variable {r : FatRun} {p : List Byte}

/-! ### A reader of such volumes -/

/-- What the boot sector says. -/
structure FatGeometry where
  sectorsPerCluster : Nat
  reserved : Nat
  copies : Nat
  totalSectors : Nat
  fatSize : Nat
  rootCluster : Nat

namespace FatGeometry

def ofBootSector (b : Bytes) : FatGeometry :=
  ⟨load b 13 1, load b 14 2, load b 16 1, load b 32 4, load b 36 4, load b 44 4⟩

def frontSectors (g : FatGeometry) : Nat := g.reserved + g.copies * g.fatSize

def clusterCount (g : FatGeometry) : Nat := (g.totalSectors - g.frontSectors) / g.sectorsPerCluster

def bytesPerCluster (g : FatGeometry) : Nat := g.sectorsPerCluster * 512

end FatGeometry

def followChain (next : Nat → Nat) (clusterCount : Nat) : Nat → Nat → Option (List Nat)
  | 0, _ => none
  | n + 1, c =>
    if c < 2 ∨ clusterCount + 2 ≤ c then none
    else if 0x0FFFFFF8 ≤ next c then some [c]
    else (followChain next clusterCount n (next c)).map (c :: ·)

def fatDirentAt (b : Bytes) (o : Nat) : DirEnt :=
  ⟨listBytes (fun i => b (o + i)) 11, load b (o + 11) 1,
    load b (o + 20) 2 * 2 ^ 16 + load b (o + 26) 2, load b (o + 28) 4⟩

def findEntry (b : Bytes) (name : List Byte) : Nat → Nat → Option DirEnt
  | 0, _ => none
  | n + 1, o =>
    if b o = 0 then none
    else if (fatDirentAt b o).name = name then some (fatDirentAt b o)
    else findEntry b name n (o + 32)

def DirEnt.isDir (e : DirEnt) : Bool := decide (e.attr / 16 % 2 = 1)

section
variable (disk : Nat → Bytes) (partLba : Nat)

def volumeGeometry : FatGeometry := FatGeometry.ofBootSector (disk partLba)

/-- An entry of a copy of the table. -/
def fatEntry (copy c : Nat) : Nat :=
  let g := volumeGeometry disk partLba
  load (disk (partLba + g.reserved + copy * g.fatSize + c / 128)) (4 * (c % 128)) 4 % 2 ^ 28

def chainOf (c : Nat) : Option (List Nat) :=
  let g := volumeGeometry disk partLba
  followChain (fatEntry disk partLba 0) g.clusterCount g.clusterCount c

def chainByte (chain : List Nat) (i : Nat) : Byte :=
  let g := volumeGeometry disk partLba
  let c := chain.getD (i / g.bytesPerCluster) 0
  let o := i % g.bytesPerCluster
  disk (partLba + g.frontSectors + (c - 2) * g.sectorsPerCluster + o / 512) (o % 512)

/-- The entry of a name in the directory at a cluster. -/
def lookupIn (name : List Byte) (c : Nat) : Option DirEnt :=
  (chainOf disk partLba c).bind fun chain =>
    findEntry (chainByte disk partLba chain) name
      (chain.length * (volumeGeometry disk partLba).bytesPerCluster / 32) 0

def resolveDir : List (List Byte) → Nat → Option Nat
  | [], c => some c
  | name :: path, c =>
    match lookupIn disk partLba name c with
    | none => none
    | some e => if DirEnt.isDir e then resolveDir path e.cluster else none

/-- The cluster of a directory on the volume. -/
def dirOf (path : List (List Byte)) : Option Nat :=
  resolveDir disk partLba path (volumeGeometry disk partLba).rootCluster

/-- The entry of a file on the volume. -/
def fileOf (path : List (List Byte)) (name : List Byte) : Option DirEnt :=
  ((dirOf disk partLba path).bind (lookupIn disk partLba name)).filter fun e => !DirEnt.isDir e

/-- The contents of a file: the bytes of its chain, as many as its entry says. -/
def readFile (path : List (List Byte)) (name : List Byte) : Option (List Byte) :=
  (fileOf disk partLba path name).bind fun e =>
    (chainOf disk partLba e.cluster).bind fun chain =>
      if e.size ≤ chain.length * (volumeGeometry disk partLba).bytesPerCluster then
        some (listBytes (chainByte disk partLba chain) e.size)
      else none

def espStarts : List Nat :=
  ([dirOf disk partLba [], dirOf disk partLba [nameEfi], dirOf disk partLba [nameEfi, nameBoot],
    dirOf disk partLba [nameBoot]] ++
  [fileOf disk partLba [nameEfi, nameBoot] nameBootx64, fileOf disk partLba [nameBoot] nameKernel,
    fileOf disk partLba [nameBoot] nameManifest, fileOf disk partLba [nameBoot] nameBootcfg].map
      (Option.map DirEnt.cluster)).reduceOption

end

/-- A volume that holds its files, seen by the reader: a file that is empty and may
be left out is not there. -/
structure EspSound (disk : Nat → Bytes) (partLba totalSectors : Nat) (f : EspFiles) : Prop where
  total : (volumeGeometry disk partLba).totalSectors = totalSectors
  table : (volumeGeometry disk partLba).clusterCount + 2 ≤
    (volumeGeometry disk partLba).fatSize * 128
  area : (volumeGeometry disk partLba).frontSectors +
    (volumeGeometry disk partLba).clusterCount * (volumeGeometry disk partLba).sectorsPerCluster ≤
      totalSectors
  copies : ∀ copy < (volumeGeometry disk partLba).copies,
    ∀ c < (volumeGeometry disk partLba).clusterCount + 2,
      fatEntry disk partLba copy c = fatEntry disk partLba 0 c
  chains : ∃ chains : List (List Nat),
    (espStarts disk partLba).map (chainOf disk partLba) = chains.map some ∧
    chains.Pairwise List.Disjoint ∧
    ∀ chain ∈ chains, ∃ c, chain.getLast? = some c ∧ 0x0FFFFFF8 ≤ fatEntry disk partLba 0 c
  bootx64 : readFile disk partLba [nameEfi, nameBoot] nameBootx64 = some f.bootx64
  kernel : readFile disk partLba [nameBoot] nameKernel = some f.kernel
  manifest : readFile disk partLba [nameBoot] nameManifest =
    if f.manifest.length = 0 then none else some f.manifest
  bootcfg : readFile disk partLba [nameBoot] nameBootcfg =
    if f.bootcfg.length = 0 then none else some f.bootcfg

/-! ### Reading what was written -/

theorem followChain_run {next : Nat → Nat} {clusterCount n : Nat}
    (hsmall : clusterCount ≤ 0x0FFFFFF5) {start m : Nat} (hnext : ∀ i < n, next (start + i) =
      if i + 1 < n then start + i + 1 else fatEndOfChain)
    (hpos : 0 < n) (hm : n ≤ m) (hlow : 2 ≤ start) (hhigh : start + n ≤ clusterCount + 2) :
    followChain next clusterCount m start = some (List.range' start n) := by
  induction n generalizing start m with
  | zero => omega
  | succ n ih =>
    obtain ⟨m, rfl⟩ : ∃ k, m = k + 1 := ⟨m - 1, by omega⟩
    have hfirst := hnext 0 (by omega)
    rw [Nat.add_zero] at hfirst
    rw [followChain, if_neg (by omega), hfirst]
    by_cases hlast : n = 0
    · subst hlast
      rfl
    · have hmore : 0 + 1 < n + 1 := by omega
      have hlink : ¬0x0FFFFFF8 ≤ start + 1 := by omega
      rw [if_pos hmore, if_neg hlink]
      -- the rest of the chain is the run from the next cluster on
      have hrest := @ih (start + 1) m (fun i hi => by
        have hi' := hnext (i + 1) (by omega)
        rw [show start + (i + 1) = start + 1 + i by omega] at hi'
        rw [hi']
        by_cases hin : i + 1 < n
        · rw [if_pos hin, if_pos (by omega)]
        · rw [if_neg hin, if_neg (by omega)]) (by omega) (by omega) (by omega) (by omega)
      rw [hrest, range'_succ]
      rfl

structure EntryFits (e : DirEnt) : Prop where
  name : e.name.length = 11
  used : e.name.getD 0 0 ≠ 0
  attr : e.attr < 256
  cluster : e.cluster < 2 ^ 32
  size : e.size < 2 ^ 32

section
variable {e : DirEnt} {b : Bytes} {o : Nat} {gs : List (Nat × Nat)}

theorem width_fields (h : EntryFits e) : packWidth e.fields = 32 := by
  simp [DirEnt.fields, h.name]

theorem fatDirentAt_pack (h : EntryFits e) (hb : ∀ i < 32, b (o + i) = pack (e.fields ++ gs) i) : fatDirentAt b o = e := by
  have hload : ∀ k n, 11 + k + n ≤ 32 → load b (o + (11 + k)) n =
      load (pack ([(1, e.attr), (8, 0), (2, e.cluster / 2 ^ 16), (4, 0), (2, e.cluster), (4, e.size)] ++ gs)) k n := by
    intro k n hk
    have hname : packWidth (byteFields e.name) = 11 := by rw [packWidth_byteFields, h.name]
    rw [load_shift, ← load_right _ hname, ← append_assoc]
    exact load_congr fun i _ hi => hb i (by omega)
  have hattr := hload 0 1 (by omega)
  have hhigh := hload 9 2 (by omega)
  have hlow := hload 15 2 (by omega)
  have hsize := hload 17 4 (by omega)
  simp only [cons_append, load_pack_head] at hattr
  simp only [cons_append, load_pack_tail (show 1 ≤ 9 by omega),
    load_pack_tail (show 8 ≤ 9 - 1 by omega), Nat.reduceSub, load_pack_head] at hhigh
  simp only [cons_append, load_pack_tail (show 1 ≤ 15 by omega),
    load_pack_tail (show 8 ≤ 15 - 1 by omega), Nat.reduceSub, load_pack_tail (show 2 ≤ 6 by omega),
    load_pack_tail (show 4 ≤ 4 by omega), load_pack_head] at hlow
  simp only [cons_append, load_pack_tail (show 1 ≤ 17 by omega),
    load_pack_tail (show 8 ≤ 17 - 1 by omega), Nat.reduceSub, load_pack_tail (show 2 ≤ 8 by omega),
    load_pack_tail (show 4 ≤ 6 by omega), load_pack_tail (show 2 ≤ 2 by omega), load_pack_head] at hsize
  have hname : listBytes (fun i => b (o + i)) 11 = e.name := by
    apply ext_getElem
    · rw [length_listBytes, h.name]
    · intro i hi hi'
      rw [length_listBytes] at hi
      simp only [listBytes, getElem_map, getElem_range]
      rw [hb i (by omega), DirEnt.fields, append_assoc, pack_byteFields _ _ hi']
  obtain ⟨name, attr, cluster, size⟩ := e
  have ha := h.attr
  have hc := h.cluster
  have hs := h.size
  dsimp only at *
  rw [fatDirentAt, hname, show o + 11 = o + (11 + 0) by omega, hattr,
    show o + 20 = o + (11 + 9) by omega, hhigh, show o + 26 = o + (11 + 15) by omega, hlow,
    show o + 28 = o + (11 + 17) by omega, hsize]
  rw [DirEnt.mk.injEq]
  exact ⟨rfl, by omega, by omega, by omega⟩

theorem findEntry_dir (hes : ∀ e ∈ es, EntryFits e) (name : List Byte) {n : Nat}
    (hn : es.length ≤ n) (hb : ∀ i < 32 * n, b (o + i) = pack (es.flatMap DirEnt.fields) i) :
    findEntry b name n o = es.find? fun e => decide (e.name = name) := by
  induction es generalizing n o with
  | nil =>
    cases n with
    | zero => rfl
    | succ n =>
      have hend : b o = 0 := hb 0 (by omega)
      rw [findEntry, if_pos hend]
      rfl
  | cons e es ih =>
    obtain ⟨n, rfl⟩ : ∃ k, n = k + 1 := ⟨n - 1, by rw [length_cons] at hn; omega⟩
    have he := hes e mem_cons_self
    have hwidth := width_fields he
    rw [flatMap_cons] at hb
    have hat : fatDirentAt b o = e := fatDirentAt_pack he fun i hi => hb i (by omega)
    have hused : b o ≠ 0 := by
      have h0 := hb 0 (by omega)
      have hlen : 0 < e.name.length := by rw [he.name]; decide
      rw [DirEnt.fields, append_assoc, pack_byteFields _ _ hlen] at h0
      have hu := he.used
      rw [getD_eq_getElem _ _ hlen] at hu
      rw [Nat.add_zero] at h0
      rw [h0]
      exact hu
    rw [findEntry, if_neg hused, hat]
    by_cases hname : e.name = name
    · rw [if_pos hname, List.find?_cons_of_pos (by simpa using hname)]
    · rw [if_neg hname, List.find?_cons_of_neg (by simpa using hname)]
      apply ih (fun e' he' => hes e' (mem_cons_of_mem e he'))
      · rw [length_cons] at hn
        omega
      · intro i hi
        rw [Nat.add_assoc, hb (32 + i) (by omega), pack_right _ hwidth]

end

/-- A volume to be written: where it is, its plan and what goes on it. -/
structure EspVolume where
  partLba : Nat
  total : Nat
  fatSize : Nat
  clusterCount : Nat
  layout : FatLayout
  files : EspFiles

namespace EspVolume

def dataStart (v : EspVolume) : Nat := fatDataStart v.partLba v.fatSize

def dataWrites (v : EspVolume) : List SectorWrite := fatDataWrites v.layout v.files v.dataStart

def writes (v : EspVolume) : List SectorWrite :=
  fatVolumeWrites v.partLba v.total v.fatSize v.clusterCount v.layout v.files

/-- The sectors when everything is written. -/
def after (v : EspVolume) (disk : Nat → Bytes) : Nat → Bytes := sectorsAfter disk v.writes

/-- A file is among what is written, in the clusters of a run. -/
def Carries (v : EspVolume) (r : FatRun) (p : List Byte) : Prop :=
  ∀ w ∈ fat32WriteChainContig v.dataStart r (bytesOf p) p.length, w ∈ v.dataWrites

structure Planned (v : EspVolume) : Prop where
  planned : FatPlanned v.total v.fatSize v.clusterCount
  given : LayoutGiven (v.clusterCount + 2) v.files v.layout
  total : v.total < 2 ^ 32
  bootx64 : v.files.bootx64.length < 2 ^ 32
  kernel : v.files.kernel.length < 2 ^ 32
  manifest : v.files.manifest.length < 2 ^ 32
  bootcfg : v.files.bootcfg.length < 2 ^ 32

theorem carries_files (v : EspVolume) : v.Carries v.layout.bootx64 v.files.bootx64 ∧ v.Carries v.layout.kernel v.files.kernel ∧
    v.Carries v.layout.manifest v.files.manifest ∧ v.Carries v.layout.bootcfg v.files.bootcfg := by
  refine ⟨?_, ?_, ?_, ?_⟩ <;> intro w hw <;> simp [dataWrites, fatDataWrites, hw]

end EspVolume

section
variable {d : Nat → Bytes} {v : EspVolume}

theorem volumeAfter_at (h : v.Planned) {w : SectorWrite} {lba : Nat} (hw : w ∈ v.writes) (hc : w.Covers lba) : v.after d lba =
      fun i => w.data ((lba - w.lba) * 512 + i) :=
  sectorsAfter_at d (volumeWrites_placed h.planned h.given).1 hw hc

theorem geometry_after (h : v.Planned) : volumeGeometry (v.after d) v.partLba = ⟨8, 32, 2, v.total, v.fatSize, 2⟩ := by
  have htotal := h.total
  have hfits := h.planned.fits
  have hboot : v.after d v.partLba =
      fatBootSector v.total v.fatSize := by
    rw [volumeAfter_at h (w := ⟨v.partLba, 1, fatBootSector v.total v.fatSize⟩) mem_cons_self
      ⟨Nat.le_refl _, Nat.lt_succ_self _⟩]
    funext i
    simp
  have hfields : ∀ q ∈ fatBootFields v.total v.fatSize, q.2 < 256 ^ q.1 := by
    unfold fatBootFields
    repeat' refine List.forall_mem_cons.mpr ⟨?_, ?_⟩
    all_goals try exact fun q hq => absurd hq not_mem_nil
    all_goals first | exact Nat.pow_pos (by decide) | decide | (dsimp only; omega)
  have hstands := stands_pack [] hfields
  rw [nil_append, packWidth_nil] at hstands
  simp only [fatBootFields, Stands, Nat.zero_add, Nat.reduceAdd] at hstands
  obtain ⟨_, _, _, hspc, hres, hcopies, _, _, _, _, _, _, htot, hsize, _, hroot, _⟩ := hstands
  rw [volumeGeometry, hboot, FatGeometry.ofBootSector, FatGeometry.mk.injEq]
  exact ⟨hspc.symm, hres.symm, hcopies.symm, htot.symm, hsize.symm, hroot.symm⟩

theorem clusterCount_after (h : v.Planned) : FatGeometry.clusterCount ⟨8, 32, 2, v.total, v.fatSize, 2⟩ = v.clusterCount :=
  h.planned.clusters.symm

theorem fatEntry_after (h : v.Planned) {copy c : Nat} (hcopy : copy < 2) (hc : c < v.clusterCount + 2) :
    fatEntry (v.after d) v.partLba copy c = v.layout.fat.entries c % 2 ^ 28 := by
  have htable := h.planned.table
  have hw : (⟨v.partLba + 32 + copy * v.fatSize, v.fatSize,
      fatImage v.layout.fat.entries (v.clusterCount + 2)⟩ : SectorWrite) ∈ v.writes := by
    apply mem_append_left
    obtain rfl | rfl : copy = 0 ∨ copy = 1 := by omega
    · simp [fatMetaWrites, fatReservedSectors]
    · simp [fatMetaWrites, fatReservedSectors]
  have hat : v.after d (v.partLba + 32 + copy * v.fatSize + c / 128) = _ :=
    volumeAfter_at h hw ⟨by simp, by simp; omega⟩
  simp only [fatEntry, geometry_after h, hat]
  rw [← load_shift, Nat.add_sub_cancel_left, show c / 128 * 512 + 4 * (c % 128) = 4 * c by omega, fatImage]
  have hload := load_pack_array (w := 4)
    ((range (v.clusterCount + 2)).map fun i => v.layout.fat.entries i % 2 ^ 28) [] c
    (by simpa using hc)
  rw [append_nil] at hload
  rw [hload, getElem_map, getElem_range]
  omega

theorem run_bounds (h : v.Planned) (hr : r ∈ layoutRuns v.layout) (hpos : 0 < r.clusters) :
    2 ≤ r.start ∧ r.start + r.clusters ≤ v.clusterCount + 2 := by
  have hfirst := h.given.given.bounds hr (c := r.start) (mem_range'_1.mpr ⟨by omega, by omega⟩)
  have hlast := h.given.given.bounds hr (c := r.start + r.clusters - 1)
    (mem_range'_1.mpr ⟨by omega, by omega⟩)
  have hhigh := h.given.given.high
  omega

theorem chainOf_after (h : v.Planned) (hr : r ∈ layoutRuns v.layout) (hpos : 0 < r.clusters) :
    chainOf (v.after d) v.partLba r.start = some (runMembers r) := by
  have hb := run_bounds h hr hpos
  have hsmall := h.planned.small
  simp only [chainOf, geometry_after h, clusterCount_after h]
  apply followChain_run hsmall _ hpos (by omega) hb.1 hb.2
  intro i hi
  rw [fatEntry_after h (by omega) (by omega), h.given.given.linked r hr i hi]
  split
  · omega
  · rfl

theorem chainByte_run (h : v.Planned) (hi : i < r.clusters * 4096) :
    chainByte (v.after d) v.partLba (runMembers r) i = v.after d (clusterLba v.dataStart (r.start + i / 4096) + i % 4096 / 512)
        (i % 4096 % 512) := by
  have hc : (runMembers r).getD (i / 4096) 0 = r.start + i / 4096 := by
    have hlen : i / 4096 < (runMembers r).length := by
      rw [runMembers, length_range']
      omega
    rw [getD_eq_getElem _ _ hlen]
    simp [runMembers]
  simp only [chainByte, geometry_after h, FatGeometry.bytesPerCluster, FatGeometry.frontSectors,
    Nat.reduceMul, hc, clusterLba, EspVolume.dataStart, fatDataStart, fatReservedSectors, fatCopies, Nat.add_assoc]

theorem cluster_after (h : v.Planned) {c n o : Nat} {data : Bytes} (hw : fat32WriteCluster v.dataStart c data n ∈
      v.dataWrites) (ho : o < 4096) : v.after d (clusterLba v.dataStart c + o / 512) (o % 512) =
        if o < min n 4096 then data o else 0 := by
  have hcovers : (fat32WriteCluster v.dataStart c data n).Covers
      (clusterLba v.dataStart c + o / 512) := by
    show clusterLba v.dataStart c ≤ _ ∧
      _ < clusterLba v.dataStart c + 8
    omega
  rw [volumeAfter_at h (mem_append_right _ hw) hcovers]
  have hoffset : (clusterLba v.dataStart c + o / 512 -
      clusterLba v.dataStart c) * 512 + o % 512 = o := by
    rw [Nat.add_sub_cancel_left]
    omega
  show (if (clusterLba v.dataStart c + o / 512 -
      clusterLba v.dataStart c) * 512 + o % 512 < min n 4096 then
    data ((clusterLba v.dataStart c + o / 512 -
      clusterLba v.dataStart c) * 512 + o % 512) else 0) = _
  rw [hoffset]

/-- The chain of a file holds the file and zeros behind it. -/
theorem chainByte_file (h : v.Planned)
    (hw : v.Carries r p) (hi : i < r.clusters * 4096) : chainByte (v.after d) v.partLba (runMembers r) i =
      bytesOf p i := by
  have hzero : ∀ {k}, p.length ≤ k → bytesOf p k = 0 := fun hk => getD_eq_default _ _ hk
  have hmem := hw _ (mem_map_of_mem (List.mem_range.mpr (show i / 4096 < r.clusters by omega)))
  rw [chainByte_run h hi]
  dsimp only at hmem
  split at hmem
  · rename_i hoff
    simp only [fatBytesPerCluster] at hoff hmem
    rw [cluster_after h hmem (by omega), show i / 4096 * 4096 + i % 4096 = i by omega]
    split
    · rfl
    · rw [hzero (by omega)]
  · rename_i hoff
    simp only [fatBytesPerCluster] at hoff
    rw [cluster_after h hmem (by omega), hzero (by omega)]
    split <;> rfl

theorem lookupIn_after (h : v.Planned) (hr : r ∈ layoutRuns v.layout) (hone : r.clusters = 1)
    (hw : fat32WriteCluster v.dataStart r.start (dirCluster es) fatBytesPerCluster ∈ v.dataWrites)
    (hes : ∀ e ∈ es, EntryFits e) (hlen : es.length ≤ 128) (name : List Byte) : lookupIn (v.after d) v.partLba name r.start =
      es.find? fun e => decide (e.name = name) := by
  rw [lookupIn, chainOf_after h hr (by omega), Option.bind_some, runMembers, length_range', hone, geometry_after h]
  simp only [FatGeometry.bytesPerCluster, Nat.reduceMul, Nat.reduceDiv]
  apply findEntry_dir hes name hlen
  intro i hi
  have hi' : i < 4096 := hi
  have hbyte := chainByte_run (d := d) h (r := r) (i := i) (by omega)
  rw [show i / 4096 = 0 by omega, show i % 4096 = i by omega, Nat.add_zero,
    cluster_after h hw hi', fatBytesPerCluster, if_pos (by omega), runMembers, hone] at hbyte
  rw [Nat.zero_add]
  exact hbyte

end

section
variable {d : Nat → Bytes} {v : EspVolume}
  (h : v.Planned)

include h

theorem entry_fits (hr : r ∈ layoutRuns v.layout) (hpos : 0 < r.clusters)
    {name : List Byte} {attr size : Nat} (hname : name.length = 11 ∧ name.getD 0 0 ≠ 0)
    (hattr : attr < 256) (hsize : size < 2 ^ 32) : EntryFits ⟨name, attr, r.start, size⟩ := by
  have hb := run_bounds h hr hpos
  have hsmall := h.planned.small
  exact ⟨hname.1, hname.2, hattr, by dsimp only; omega, hsize⟩

theorem rootDir_lookup (name : List Byte) : lookupIn (v.after d) v.partLba name 2 =
      (fatRootDir v.layout).find? fun e => decide (e.name = name) := by
  have hefi := h.given.efi
  have hboot := h.given.bootDir
  refine lookupIn_after h (r := ⟨fatRootCluster, 1⟩) (by simp [layoutRuns]) rfl
    (by simp [EspVolume.dataWrites, fatDataWrites]) ?_ (by simp [fatRootDir]) name
  simp only [fatRootDir, forall_mem_cons, not_mem_nil, false_implies, implies_true, and_true]
  exact ⟨entry_fits h (by simp [layoutRuns]) (by omega) (by decide) (by decide) (by decide),
    entry_fits h (by simp [layoutRuns]) (by omega) (by decide) (by decide) (by decide)⟩

theorem efiDir_lookup (name : List Byte) : lookupIn (v.after d) v.partLba name v.layout.efi.start =
      (fatEfiDir v.layout).find? fun e => decide (e.name = name) := by
  have hefi := h.given.efi
  have hboot := h.given.efiBoot
  refine lookupIn_after h (by simp [layoutRuns]) hefi
    (by simp [EspVolume.dataWrites, fatDataWrites]) ?_
    (by simp [fatEfiDir]) name
  simp only [fatEfiDir, forall_mem_cons, not_mem_nil, false_implies, implies_true, and_true]
  exact ⟨entry_fits h (by simp [layoutRuns]) (by omega) (by decide) (by decide) (by decide),
    entry_fits h (r := ⟨fatRootCluster, 1⟩) (by simp [layoutRuns]) (by decide) (by decide)
      (by decide) (by decide), entry_fits h (by simp [layoutRuns]) (by omega) (by decide) (by decide) (by decide)⟩

theorem efiBootDir_lookup (name : List Byte) : lookupIn (v.after d) v.partLba name v.layout.efiBoot.start =
      (fatEfiBootDir v.layout v.files).find? fun e => decide (e.name = name) := by
  have hefi := h.given.efi
  have hboot := h.given.efiBoot
  have hfile : 0 < v.layout.bootx64.clusters := by
    rw [h.given.bootx64]
    exact clustersFor_pos _
  refine lookupIn_after h (by simp [layoutRuns]) hboot
    (by simp [EspVolume.dataWrites, fatDataWrites]) ?_
    (by simp [fatEfiBootDir]) name
  simp only [fatEfiBootDir, forall_mem_cons, not_mem_nil, false_implies, implies_true, and_true]
  exact ⟨entry_fits h (by simp [layoutRuns]) (by omega) (by decide) (by decide) (by decide),
    entry_fits h (by simp [layoutRuns]) (by omega) (by decide) (by decide) (by decide),
    entry_fits h (by simp [layoutRuns]) hfile (by decide) (by decide) h.bootx64⟩

theorem bootDir_lookup (name : List Byte) : lookupIn (v.after d) v.partLba name v.layout.bootDir.start =
      (fatBootDir v.layout v.files).find? fun e => decide (e.name = name) := by
  have hboot := h.given.bootDir
  have hkernel : 0 < v.layout.kernel.clusters := by
    rw [h.given.kernel]
    exact clustersFor_pos _
  refine lookupIn_after h (by simp [layoutRuns]) hboot
    (by simp [EspVolume.dataWrites, fatDataWrites]) ?_ ?_ name
  · intro e he
    simp only [fatBootDir, mem_append, mem_cons, not_mem_nil, or_false] at he
    rcases he with ((rfl | rfl | rfl) | he) | he
    · exact entry_fits h (by simp [layoutRuns]) (by omega) (by decide) (by decide) (by decide)
    · exact entry_fits h (r := ⟨fatRootCluster, 1⟩) (by simp [layoutRuns]) (by decide) (by decide)
        (by decide) (by decide)
    · exact entry_fits h (by simp [layoutRuns]) hkernel (by decide) (by decide) h.kernel
    -- an entry of a file that is not empty, so that its run has clusters
    · split at he
      · cases he
      · rename_i hsize
        obtain rfl := mem_singleton.mp he
        have hpos : 0 < v.layout.manifest.clusters := by
          rw [h.given.manifest, if_neg hsize]
          exact clustersFor_pos _
        exact entry_fits h (by simp [layoutRuns]) hpos (by decide) (by decide) h.manifest
    · split at he
      · cases he
      · rename_i hsize
        obtain rfl := mem_singleton.mp he
        have hpos : 0 < v.layout.bootcfg.clusters := by
          rw [h.given.bootcfg, if_neg hsize]
          exact clustersFor_pos _
        exact entry_fits h (by simp [layoutRuns]) hpos (by decide) (by decide) h.bootcfg
  · simp only [fatBootDir, length_append, length_cons, length_nil]
    split <;> split <;> simp

end

/-- No name looked for is the name of an entry in front of it. -/
theorem names_apart : nameEfi ≠ nameBoot ∧ nameDot ≠ nameBoot ∧ nameDotDot ≠ nameBoot ∧
    nameDot ≠ nameBootx64 ∧ nameDotDot ≠ nameBootx64 ∧ nameDot ≠ nameKernel ∧ nameDotDot ≠ nameKernel ∧
    nameDot ≠ nameManifest ∧ nameDotDot ≠ nameManifest ∧ nameKernel ≠ nameManifest ∧ nameBootcfg ≠ nameManifest ∧
    nameDot ≠ nameBootcfg ∧ nameDotDot ≠ nameBootcfg ∧ nameKernel ≠ nameBootcfg ∧ nameManifest ≠ nameBootcfg := by
  decide

section
variable {d : Nat → Bytes} {v : EspVolume}
  (h : v.Planned)

include h

/-! The directories and files the reader finds. -/

theorem dirOf_root : dirOf (v.after d) v.partLba [] = some 2 := by
  rw [dirOf, geometry_after h, resolveDir]

theorem dirOf_efi : dirOf (v.after d) v.partLba [nameEfi] = some v.layout.efi.start := by
  simp [dirOf, geometry_after h, resolveDir, rootDir_lookup h, fatRootDir, DirEnt.isDir]

theorem dirOf_efiBoot : dirOf (v.after d) v.partLba [nameEfi, nameBoot] = some v.layout.efiBoot.start := by
  simp [dirOf, geometry_after h, resolveDir, rootDir_lookup h, efiDir_lookup h, fatRootDir,
    fatEfiDir, names_apart, DirEnt.isDir]

theorem dirOf_boot : dirOf (v.after d) v.partLba [nameBoot] = some v.layout.bootDir.start := by
  simp [dirOf, geometry_after h, resolveDir, rootDir_lookup h, fatRootDir, names_apart, DirEnt.isDir]

theorem fileOf_bootx64 : fileOf (v.after d) v.partLba [nameEfi, nameBoot]
      nameBootx64 = some ⟨nameBootx64, 0x20, v.layout.bootx64.start, v.files.bootx64.length⟩ := by
  rw [fileOf, dirOf_efiBoot h, Option.bind_some, efiBootDir_lookup h]
  simp [fatEfiBootDir, names_apart, DirEnt.isDir]

theorem fileOf_kernel : fileOf (v.after d) v.partLba [nameBoot] nameKernel =
      some ⟨nameKernel, 0x20, v.layout.kernel.start, v.files.kernel.length⟩ := by
  rw [fileOf, dirOf_boot h, Option.bind_some, bootDir_lookup h]
  simp [fatBootDir, names_apart, DirEnt.isDir]

theorem fileOf_manifest :
    fileOf (v.after d) v.partLba [nameBoot] nameManifest =
      if v.files.manifest.length = 0 then none
      else some ⟨nameManifest, 0x20, v.layout.manifest.start, v.files.manifest.length⟩ := by
  rw [fileOf, dirOf_boot h, Option.bind_some, bootDir_lookup h, fatBootDir]
  by_cases hm : v.files.manifest.length = 0
  · rw [if_pos hm, if_pos hm]
    split <;> simp [names_apart]
  · rw [if_neg hm, if_neg hm]
    simp [names_apart, DirEnt.isDir]

theorem fileOf_bootcfg :
    fileOf (v.after d) v.partLba [nameBoot] nameBootcfg =
      if v.files.bootcfg.length = 0 then none
      else some ⟨nameBootcfg, 0x20, v.layout.bootcfg.start, v.files.bootcfg.length⟩ := by
  rw [fileOf, dirOf_boot h, Option.bind_some, bootDir_lookup h, fatBootDir]
  by_cases hb : v.files.bootcfg.length = 0
  · rw [if_pos hb, if_pos hb]
    split <;> simp [names_apart]
  · rw [if_neg hb, if_neg hb]
    split <;> simp [names_apart, DirEnt.isDir]

theorem readFile_after
    (hr : r ∈ layoutRuns v.layout) (hcount : r.clusters = clustersFor p.length)
    (hfile : fileOf (v.after d) v.partLba path name = some ⟨name, 0x20, r.start, p.length⟩) (hw : v.Carries r p) :
    readFile (v.after d) v.partLba path name = some p := by
  have hpos := clustersFor_pos p.length
  have hfit := le_clustersFor p.length
  rw [readFile, hfile, Option.bind_some, chainOf_after h hr (by omega), Option.bind_some,
    geometry_after h, runMembers, length_range', ← runMembers]
  have hbytes : FatGeometry.bytesPerCluster ⟨8, 32, 2, v.total, v.fatSize, 2⟩ = 4096 := by
    simp [FatGeometry.bytesPerCluster]
  have hroom : p.length ≤
      r.clusters * FatGeometry.bytesPerCluster ⟨8, 32, 2, v.total, v.fatSize, 2⟩ := by
    rw [hbytes, hcount]
    exact hfit
  refine (if_pos hroom).trans (congrArg some ?_)
  apply ext_getElem
  · exact length_listBytes _ _
  · intro i hi hi'
    simp only [listBytes, getElem_map, getElem_range]
    rw [chainByte_file h hw (by omega), bytesOf, getD_eq_getElem _ _ hi']

theorem readFile_optional (hr : r ∈ layoutRuns v.layout)
    (hcount : r.clusters = if p.length = 0 then 0 else clustersFor p.length) (hfile : fileOf (v.after d) v.partLba path name =
      if p.length = 0 then none else some ⟨name, 0x20, r.start, p.length⟩) (hw : v.Carries r p) :
    readFile (v.after d) v.partLba path name = if p.length = 0 then none else some p := by
  by_cases hp : p.length = 0
  · rw [if_pos hp] at hfile ⊢
    rw [readFile, hfile]
    rfl
  · rw [if_neg hp] at hcount hfile ⊢
    exact readFile_after h hr hcount hfile hw

theorem espStarts_after : espStarts (v.after d) v.partLba =
      ((layoutRuns v.layout).filter fun r => decide (0 < r.clusters)).map FatRun.start := by
  have hx := clustersFor_pos v.files.bootx64.length
  have hk := clustersFor_pos v.files.kernel.length
  have hm := clustersFor_pos v.files.manifest.length
  have hb := clustersFor_pos v.files.bootcfg.length
  simp only [espStarts, dirOf_root h, dirOf_efi h, dirOf_efiBoot h, dirOf_boot h, fileOf_bootx64 h,
    fileOf_kernel h, fileOf_manifest h, fileOf_bootcfg h, layoutRuns, filter_cons,
    filter_nil, h.given.efi, h.given.efiBoot, h.given.bootDir, h.given.bootx64, h.given.kernel,
    h.given.manifest, h.given.bootcfg, decide_eq_true hx, decide_eq_true hk]
  by_cases hman : v.files.manifest.length = 0
  · by_cases hcfg : v.files.bootcfg.length = 0
    · simp [hman, hcfg, List.reduceOption, fatRootCluster]
    · simp [hman, hcfg, hb, List.reduceOption, fatRootCluster]
  · by_cases hcfg : v.files.bootcfg.length = 0
    · simp [hman, hcfg, hm, List.reduceOption, fatRootCluster]
    · simp [hman, hcfg, hm, hb, List.reduceOption, fatRootCluster]

theorem chains_after : ∃ chains : List (List Nat), (espStarts (v.after d) v.partLba).map (chainOf (v.after d) v.partLba) =
          chains.map some ∧ chains.Pairwise List.Disjoint ∧ ∀ chain ∈ chains, ∃ c, chain.getLast? = some c ∧
        0x0FFFFFF8 ≤ fatEntry (v.after d) v.partLba 0 c := by
  refine ⟨((layoutRuns v.layout).filter fun r => decide (0 < r.clusters)).map runMembers,
    ?_, ?_, ?_⟩
  · rw [espStarts_after h, map_map, map_map]
    apply map_congr_left
    intro r hr
    obtain ⟨hr, hpos⟩ := mem_filter.mp hr
    exact chainOf_after h hr (of_decide_eq_true hpos)
  · have hnodup : ((layoutRuns v.layout).flatMap runMembers).Nodup := by
      rw [h.given.given.clusters]
      exact nodup_range'
    rw [pairwise_map]
    exact (nodup_flatMap.mp hnodup).2.filter _
  · intro chain hchain
    obtain ⟨r, hr, rfl⟩ := mem_map.mp hchain
    obtain ⟨hr, hpos⟩ := mem_filter.mp hr
    have hpos := of_decide_eq_true hpos
    have hbounds := run_bounds h hr hpos
    refine ⟨r.start + (r.clusters - 1), ?_, ?_⟩
    · rw [runMembers, List.getLast?_range', if_neg (by omega)]
      exact congrArg some (by omega)
    · rw [fatEntry_after h (by omega) (by omega), h.given.given.linked r hr (r.clusters - 1) (by omega), if_neg (by omega)]
      decide

theorem volume_sound : EspSound (v.after d) v.partLba v.total v.files := by
  have hplanned := h.planned
  have hgeometry := geometry_after (d := d) h
  have hclusters := clusterCount_after h
  constructor
  · rw [hgeometry]
  · rw [hgeometry, hclusters]
    exact hplanned.table
  · rw [hgeometry, hclusters]
    exact hplanned.fits
  · intro copy hcopy c hc
    rw [hgeometry] at hcopy hc
    rw [hclusters] at hc
    rw [fatEntry_after h hcopy hc, fatEntry_after h (by decide) hc]
  · exact chains_after h
  · exact readFile_after h (by simp [layoutRuns]) h.given.bootx64 (fileOf_bootx64 h)
      v.carries_files.1
  · exact readFile_after h (by simp [layoutRuns]) h.given.kernel (fileOf_kernel h)
      v.carries_files.2.1
  · exact readFile_optional h (by simp [layoutRuns]) h.given.manifest (fileOf_manifest h)
      v.carries_files.2.2.1
  · exact readFile_optional h (by simp [layoutRuns]) h.given.bootcfg (fileOf_bootcfg h)
      v.carries_files.2.2.2

theorem verifyChain_after (hr : r ∈ layoutRuns v.layout)
    (hp : p.length ≠ 0) (hcount : r.clusters = clustersFor p.length) (hw : v.Carries r p) : fat32VerifyChain (v.after d)
      v.dataStart r p = true := by
  have hpos := clustersFor_pos p.length
  have hlow := (run_bounds h hr (by omega)).1
  have hbytes : ∀ i < r.clusters * 4096, runBytes (v.after d) v.dataStart
        r i = bytesOf p i := by
    intro i hi
    rw [← chainByte_file (d := d) h hw hi, chainByte_run h hi, runBytes]
    have hsector : v.dataStart + (r.start - 2) * fatSectorsPerCluster + i / 512 =
        clusterLba v.dataStart (r.start + i / 4096) + i % 4096 / 512 := by
      unfold clusterLba fatSectorsPerCluster
      omega
    rw [hsector, show i % 512 = i % 4096 % 512 by omega]
  simp only [fat32VerifyChain, Bool.and_eq_true, decide_eq_true_eq, all_eq_true, mem_range, beq_iff_eq]
  exact ⟨⟨⟨hp, hlow⟩, by omega⟩, hbytes⟩

theorem verifyChain_optional (hr : r ∈ layoutRuns v.layout)
    (hcount : r.clusters = if p.length = 0 then 0 else clustersFor p.length) (hw : v.Carries r p) :
    p.length = 0 ∨ fat32VerifyChain (v.after d) v.dataStart r p = true := by
  by_cases hp : p.length = 0
  · exact .inl hp
  · rw [if_neg hp] at hcount
    exact .inr (verifyChain_after h hr hp hcount hw)

theorem volume_verified (hx : v.files.bootx64.length ≠ 0) (hk : v.files.kernel.length ≠ 0) :
    fatVerified v.layout v.files (v.after d) v.dataStart = true := by
  have hbootx64 := verifyChain_after (d := d) h (r := v.layout.bootx64)
    (by simp [layoutRuns]) hx h.given.bootx64 v.carries_files.1
  have hkernel := verifyChain_after (d := d) h (r := v.layout.kernel)
    (by simp [layoutRuns]) hk h.given.kernel v.carries_files.2.1
  have hmanifest := verifyChain_optional (d := d) h (by simp [layoutRuns]) h.given.manifest
    v.carries_files.2.2.1
  have hbootcfg := verifyChain_optional (d := d) h (by simp [layoutRuns]) h.given.bootcfg
    v.carries_files.2.2.2
  simp only [fatVerified, Bool.and_eq_true, Bool.or_eq_true, decide_eq_true_eq]
  refine ⟨⟨⟨hbootx64, hkernel⟩, hmanifest⟩, ?_⟩
  -- the last file is compared up to its end only
  refine hbootcfg.imp_right fun hchain => ?_
  have hfit : v.files.bootcfg.length ≤ v.layout.bootcfg.clusters * 4096 := by
    rw [h.given.bootcfg]
    split
    · rename_i hb
      exact Nat.le_trans (Nat.le_of_eq hb) (Nat.zero_le _)
    · exact le_clustersFor _
  simp only [fat32VerifyChain, Bool.and_eq_true, all_eq_true, mem_range] at hchain
  simp only [all_eq_true, mem_range]
  intro i hi
  apply hchain.2
  unfold fatBytesPerCluster
  omega

end

theorem volume_written {disk : Nat → Bytes}
    {lastBlock partLba totalSectors fatSize clusterCount : Nat} {f : EspFiles} {l : FatLayout}
    (hinside : 65536 ≤ totalSectors ∧ partLba + totalSectors ≤ lastBlock + 1) (htotal : totalSectors < 2 ^ 32)
    (hsizes : f.bootx64.length < 2 ^ 32 ∧ f.kernel.length < 2 ^ 32 ∧ f.manifest.length < 2 ^ 32 ∧ f.bootcfg.length < 2 ^ 32)
    (hplan : installerDiskFat32Plan totalSectors fatSectorsPerCluster fatReservedSectors fatCopies =
      some (fatSize, clusterCount)) (hmany : 65525 ≤ clusterCount)
    (hlayout : fat32Allocate (clusterCount + 2) f.bootx64.length f.kernel.length f.manifest.length f.bootcfg.length = some l)
    (hx : f.bootx64.length ≠ 0) (hk : f.kernel.length ≠ 0) : fat32WriteVolume disk lastBlock partLba totalSectors f =
      some (fatVolumeWrites partLba totalSectors fatSize clusterCount l f) := by
  have hgiven := allocate_spec (by omega) hlayout
  have h : EspVolume.Planned ⟨partLba, totalSectors, fatSize, clusterCount, l, f⟩ :=
    ⟨plan_spec hplan, hgiven, htotal, hsizes.1, hsizes.2.1, hsizes.2.2.1, hsizes.2.2.2⟩
  unfold fat32WriteVolume
  rw [if_neg (by omega), if_neg (by omega), hplan]
  dsimp only
  rw [if_neg (by omega), hlayout]
  exact if_pos (volume_verified h hx hk)

/-- A volume that is written successfully stays inside its partition and holds its
files for any reader. -/
theorem fat32_volume_sound {disk : Nat → Bytes} {lastBlock partLba totalSectors : Nat}
    {f : EspFiles} {ws : List SectorWrite}
    (hresult : fat32WriteVolume disk lastBlock partLba totalSectors f = some ws) :
    (∀ w ∈ ws, ∀ lba, w.Covers lba → partLba ≤ lba ∧ lba < partLba + totalSectors) ∧
    EspSound (sectorsAfter disk ws) partLba totalSectors f := by
  unfold fat32WriteVolume at hresult
  split at hresult
  · cases hresult
  · split at hresult
    · cases hresult
    · rename_i hsizes
      split at hresult
      · cases hresult
      · rename_i fatSize clusterCount hplan
        split at hresult
        · cases hresult
        · rename_i hmany
          split at hresult
          · cases hresult
          · rename_i l hlayout
            dsimp only at hresult
            split at hresult
            · obtain rfl := Option.some.inj hresult
              have hgiven := allocate_spec (by omega) hlayout
              have h : EspVolume.Planned ⟨partLba, totalSectors, fatSize, clusterCount, l, f⟩ := by
                refine ⟨plan_spec hplan, hgiven, ?_, ?_, ?_, ?_, ?_⟩ <;> dsimp only <;> omega
              refine ⟨?_, volume_sound h⟩
              intro w hw lba hc
              have hin : partLba ≤ w.lba ∧ w.lba + w.count ≤ partLba + totalSectors :=
                (volumeWrites_placed h.planned h.given).2 w hw
              have hlow : w.lba ≤ lba := hc.1
              have hhigh : lba < w.lba + w.count := hc.2
              omega
            · cases hresult

/-- A loader, a kernel and nothing else. -/
def smallEsp : EspFiles := ⟨[0x4D, 0x5A], [0x7F, 0x45], [], []⟩

theorem smallEsp_written : ∃ ws, fat32WriteVolume (fun _ => zeros) 700000 2048 600000 smallEsp = some ws := by
  have hplan : installerDiskFat32Plan 600000 8 32 2 = some (586, 74849) := by decide
  obtain ⟨l, hlayout⟩ := Option.isSome_iff_exists.mp
    (show (fat32Allocate 74851 2 2 0 0).isSome = true by decide)
  exact ⟨_, volume_written (by decide) (by decide) (by decide) hplan (by decide) hlayout (by decide)
    (by decide)⟩

theorem smallEsp_sound :
    ∃ ws, fat32WriteVolume (fun _ => zeros) 700000 2048 600000 smallEsp = some ws ∧
      EspSound (sectorsAfter (fun _ => zeros) ws) 2048 600000 smallEsp := by
  obtain ⟨ws, hws⟩ := smallEsp_written
  exact ⟨ws, hws, (fat32_volume_sound hws).2⟩

end CapyOS.Proofs
