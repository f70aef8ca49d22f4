import CapyOS.Boot.Fat32Writer

namespace CapyOS.Proofs
open Lib Function List

/-! ### The plan -/

/-- A plan that works out: the table has an entry for each cluster and two more, and
everything is inside the volume. -/
structure FatPlanned (totalSectors fatSize clusterCount : Nat) : Prop where
  table : clusterCount + 2 ≤ fatSize * 128
  clusters : clusterCount = (totalSectors - (32 + 2 * fatSize)) / 8
  fits : 32 + 2 * fatSize + clusterCount * 8 ≤ totalSectors
  small : clusterCount ≤ 0x0FFFFFF5

theorem planLoop_spec {total fatSize clusterCount : Nat} (n : Nat) {fatSectors : Nat}
    (h : fat32PlanLoop total 8 32 2 fatSectors n = some (fatSize, clusterCount)) : FatPlanned total fatSize clusterCount := by
  induction n generalizing fatSectors with
  | zero => cases h
  | succ n ih =>
    simp only [fat32PlanLoop] at h
    split at h
    · cases h
    · rename_i hroom
      split at h
      · cases h
      · rename_i hcount
        by_cases hfit : ((total - (32 + 2 * fatSectors)) / 8 + 2) * 4 / 512 +
            (if ((total - (32 + 2 * fatSectors)) / 8 + 2) * 4 % 512 ≠ 0 then 1 else 0) ≤ fatSectors
        · -- the table was large enough for the clusters left beside it
          rw [if_pos hfit] at h
          obtain ⟨rfl, rfl⟩ := Prod.mk.inj (Option.some.inj h)
          split at hfit <;> exact ⟨by omega, rfl, by omega, by omega⟩
        · rw [if_neg hfit] at h
          exact ih h

theorem plan_spec {total fatSize clusterCount : Nat}
    (h : installerDiskFat32Plan total fatSectorsPerCluster fatReservedSectors fatCopies =
      some (fatSize, clusterCount)) : FatPlanned total fatSize clusterCount := by
  apply @planLoop_spec _ _ _ 64 1
  simpa [installerDiskFat32Plan, fatSectorsPerCluster, fatReservedSectors, fatCopies] using h

/-! ### Allocation -/

def clustersFor (n : Nat) : Nat := max 1 ((n + 4095) / 4096)

theorem clustersFor_pos (n : Nat) : 0 < clustersFor n := by
  unfold clustersFor
  omega

theorem le_clustersFor (n : Nat) : n ≤ clustersFor n * 4096 := by
  unfold clustersFor
  omega

theorem need_eq (n : Nat) : (if n / fatBytesPerCluster + (if n % fatBytesPerCluster ≠ 0 then 1 else 0) = 0 then 1
      else n / fatBytesPerCluster + (if n % fatBytesPerCluster ≠ 0 then 1 else 0)) = clustersFor n := by
  unfold clustersFor fatBytesPerCluster
  by_cases hn : n % 4096 = 0
  · rw [if_neg (not_not_intro hn)]
    split <;> omega
  · rw [if_pos hn, if_neg (by omega)]
    omega

def runMembers (r : FatRun) : List Nat := List.range' r.start r.clusters

def RunLinked (entries : Nat → Nat) (r : FatRun) : Prop :=
  ∀ i < r.clusters, entries (r.start + i) =
    if i + 1 < r.clusters then r.start + i + 1 else fatEndOfChain

theorem RunLinked.congr {entries entries' : Nat → Nat} {r : FatRun} (h : RunLinked entries r)
    (hsame : ∀ c ∈ runMembers r, entries' c = entries c) : RunLinked entries' r := by
  intro i hi
  rw [hsame _ (List.mem_range'_1.mpr ⟨by omega, by omega⟩)]
  exact h i hi

theorem linkRun_apply (start need n i c : Nat) (entries : Nat → Nat) : fat32LinkRun start need i entries n c =
      if start + i ≤ c ∧ c < start + i + n then (if c - start + 1 < need then c + 1 else fatEndOfChain) else entries c := by
  induction n generalizing i entries with
  | zero =>
    rw [if_neg (by omega)]
    rfl
  | succ n ih =>
    rw [fat32LinkRun, ih]
    by_cases hc : c = start + i
    · subst hc
      have hout : ¬(start + (i + 1) ≤ start + i ∧ start + i < start + (i + 1) + n) := by omega
      have hin : start + i ≤ start + i ∧ start + i < start + i + (n + 1) := by omega
      rw [if_neg hout, if_pos hin, update_self, Nat.add_sub_cancel_left]
    · rw [update_of_ne hc]
      by_cases hin : start + i ≤ c ∧ c < start + i + (n + 1)
      · rw [if_pos (by omega), if_pos hin]
      · rw [if_neg (by omega), if_neg hin]

/-- What a table has given away: the runs cover the clusters in front of the next
free one, each once and in order, and each run is linked. -/
structure FatGiven (fatLen : Nat) (runs : List FatRun) (fat : Fat) : Prop where
  clusters : runs.flatMap runMembers = List.range' 2 (fat.nextFree - 2)
  linked : ∀ r ∈ runs, RunLinked fat.entries r
  low : 2 ≤ fat.nextFree
  high : fat.nextFree ≤ fatLen

section
variable {fatLen n : Nat} {runs : List FatRun} {fat fat' : Fat} {r : FatRun}

theorem FatGiven.bounds (h : FatGiven fatLen runs fat) (hr : r ∈ runs) {c : Nat}
    (hc : c ∈ runMembers r) : 2 ≤ c ∧ c < fat.nextFree := by
  have hm : c ∈ runs.flatMap runMembers := mem_flatMap.mpr ⟨r, hr, hc⟩
  rw [h.clusters, mem_range'_1] at hm
  have := h.low
  omega

/-- One allocation: the run follows what was given before. -/
theorem FatGiven.alloc (h : FatGiven fatLen runs fat) (ha : fat32AllocContig fatLen fatBytesPerCluster fat n = some (fat', r)) :
    FatGiven fatLen (runs ++ [r]) fat' ∧ r.clusters = clustersFor n := by
  have hlow := h.low
  simp only [fat32AllocContig, need_eq, Nat.max_eq_left hlow] at ha
  split at ha
  · cases ha
  · split at ha
    · cases ha
    · rename_i hfit
      obtain ⟨rfl, rfl⟩ := Prod.mk.inj (Option.some.inj ha)
      have hpos := clustersFor_pos n
      refine ⟨⟨?_, ?_, ?_, ?_⟩, rfl⟩
      · rw [flatMap_append, h.clusters, flatMap_singleton, runMembers]
        have hjoin := @range'_append_1 2 (fat.nextFree - 2) (clustersFor n)
        rw [show 2 + (fat.nextFree - 2) = fat.nextFree by omega] at hjoin
        rw [hjoin]
        have hcount : fat.nextFree - 2 + clustersFor n = fat.nextFree + clustersFor n - 2 := by
          omega
        exact congrArg (List.range' 2) hcount
      · intro q hq
        rcases List.mem_append.mp hq with hold | hnew
        · -- an older run lies in front of the clusters that were linked
          apply (h.linked q hold).congr
          intro c hc
          have := h.bounds hold hc
          show fat32LinkRun fat.nextFree (clustersFor n) 0 fat.entries (clustersFor n) c = _
          rw [linkRun_apply, if_neg (by omega)]
        · obtain rfl := mem_singleton.mp hnew
          intro i hi
          have hi' : i < clustersFor n := hi
          show fat32LinkRun fat.nextFree (clustersFor n) 0 fat.entries (clustersFor n)
            (fat.nextFree + i) = _
          rw [linkRun_apply, if_pos (by omega), Nat.add_sub_cancel_left]
      · show 2 ≤ fat.nextFree + clustersFor n
        omega
      · show fat.nextFree + clustersFor n ≤ fatLen
        omega

theorem FatGiven.allocOptional (h : FatGiven fatLen runs fat) (ha : fat32AllocOptional fatLen fat n = some (fat', r)) :
    FatGiven fatLen (runs ++ [r]) fat' ∧ r.clusters = if n = 0 then 0 else clustersFor n := by
  unfold fat32AllocOptional at ha
  split at ha
  · -- no clusters: the table is as it was, and the empty run says nothing
    rename_i hn
    obtain ⟨rfl, rfl⟩ := Prod.mk.inj (Option.some.inj ha)
    refine ⟨⟨?_, ?_, h.low, h.high⟩, by rw [if_pos hn]⟩
    · rw [flatMap_append, h.clusters, flatMap_singleton]
      simp [runMembers]
    · intro q hq
      rcases List.mem_append.mp hq with hold | hnew
      · exact h.linked q hold
      · obtain rfl := mem_singleton.mp hnew
        intro i hi
        exact absurd hi (Nat.not_lt_zero i)
  · rename_i hn
    obtain ⟨hgiven, hcount⟩ := h.alloc ha
    exact ⟨hgiven, by rw [if_neg hn, hcount]⟩

end

def layoutRuns (l : FatLayout) : List FatRun :=
  [⟨fatRootCluster, 1⟩, l.efi, l.efiBoot, l.bootDir, l.bootx64, l.kernel, l.manifest, l.bootcfg]

structure LayoutGiven (fatLen : Nat) (f : EspFiles) (l : FatLayout) : Prop where
  given : FatGiven fatLen (layoutRuns l) l.fat
  efi : l.efi.clusters = 1
  efiBoot : l.efiBoot.clusters = 1
  bootDir : l.bootDir.clusters = 1
  bootx64 : l.bootx64.clusters = clustersFor f.bootx64.length
  kernel : l.kernel.clusters = clustersFor f.kernel.length
  manifest : l.manifest.clusters =
    if f.manifest.length = 0 then 0 else clustersFor f.manifest.length
  bootcfg : l.bootcfg.clusters = if f.bootcfg.length = 0 then 0 else clustersFor f.bootcfg.length

theorem allocate_spec {fatLen : Nat} {f : EspFiles} {l : FatLayout} (hlen : 3 ≤ fatLen)
    (ha : fat32Allocate fatLen f.bootx64.length f.kernel.length f.manifest.length
      f.bootcfg.length = some l) : LayoutGiven fatLen f l := by
  have hone : clustersFor fatBytesPerCluster = 1 := rfl
  unfold fat32Allocate at ha
  simp only at ha
  split at ha
  · cases ha
  rename_i fat₁ efi h₁
  split at ha
  · cases ha
  rename_i fat₂ efiBoot h₂
  split at ha
  · cases ha
  rename_i fat₃ bootDir h₃
  split at ha
  · cases ha
  rename_i fat₄ bootx64 h₄
  split at ha
  · cases ha
  rename_i fat₅ kernel h₅
  split at ha
  · cases ha
  rename_i fat₆ manifest h₆
  split at ha
  · cases ha
  rename_i fat₇ bootcfg h₇
  obtain rfl := Option.some.inj ha
  have g₀ : FatGiven fatLen [⟨fatRootCluster, 1⟩] ⟨update (update
      (update (fun _ => 0) 0 0x0FFFFFF8) 1 fatEndOfChain) fatRootCluster fatEndOfChain,
      3⟩ := by
    refine ⟨rfl, ?_, by decide, hlen⟩
    intro r hr i hi
    obtain rfl := mem_singleton.mp hr
    obtain rfl : i = 0 := Nat.lt_one_iff.mp hi
    rfl
  obtain ⟨g₁, n₁⟩ := g₀.alloc h₁
  obtain ⟨g₂, n₂⟩ := g₁.alloc h₂
  obtain ⟨g₃, n₃⟩ := g₂.alloc h₃
  obtain ⟨g₄, n₄⟩ := g₃.alloc h₄
  obtain ⟨g₅, n₅⟩ := g₄.alloc h₅
  obtain ⟨g₆, n₆⟩ := g₅.allocOptional h₆
  obtain ⟨g₇, n₇⟩ := g₆.allocOptional h₇
  exact ⟨g₇, n₁.trans hone, n₂.trans hone, n₃.trans hone, n₄, n₅, n₆, n₇⟩

/-! ### What the writes leave -/

def WriteBefore (a b : SectorWrite) : Prop := a.lba + a.count ≤ b.lba

section
variable {ws : List SectorWrite} {w : SectorWrite} {lba : Nat} (disk : Nat → Bytes)

theorem sectorsAfter_other (h : ∀ w ∈ ws, ¬w.Covers lba) : sectorsAfter disk ws lba = disk lba := by
  induction ws generalizing disk with
  | nil => rfl
  | cons v ws ih =>
    have hv : SectorWrite.apply disk v lba = disk lba := if_neg (h v mem_cons_self)
    rw [← hv]
    exact ih (SectorWrite.apply disk v) fun w hw => h w (mem_cons_of_mem v hw)

theorem sectorsAfter_at (h : ws.Pairwise WriteBefore) (hw : w ∈ ws) (hc : w.Covers lba) :
    sectorsAfter disk ws lba = fun i => w.data ((lba - w.lba) * 512 + i) := by
  induction ws generalizing disk with
  | nil => cases hw
  | cons v ws ih =>
    obtain ⟨hfirst, hrest⟩ := pairwise_cons.mp h
    rcases List.mem_cons.mp hw with rfl | hlater
    · have hnot : ∀ u ∈ ws, ¬u.Covers lba := by
        intro u hu hcu
        have hbefore : w.lba + w.count ≤ u.lba := hfirst u hu
        have hl : u.lba ≤ lba := hcu.1
        have hh : lba < w.lba + w.count := hc.2
        omega
      have hother := sectorsAfter_other (SectorWrite.apply disk w) hnot
      have hat : SectorWrite.apply disk w lba = fun i => w.data ((lba - w.lba) * 512 + i) :=
        if_pos hc
      rw [← hat]
      exact hother
    · exact ih (SectorWrite.apply disk v) hrest hlater

end

def clusterLba (dataStartLba c : Nat) : Nat := dataStartLba + (c - 2) * 8

variable {partLba total fatSize clusterCount ds : Nat} {l : FatLayout} {f : EspFiles}

theorem chainWrites_lba (run : FatRun) (data : Bytes) (n : Nat) : (fat32WriteChainContig ds run data n).map SectorWrite.lba =
      (runMembers run).map (clusterLba ds) := by
  rw [fat32WriteChainContig, map_map, runMembers, range'_eq_map_range, map_map]
  apply map_congr_left
  intro i _
  simp only [comp]
  split <;> rfl

theorem dataWrites_lba (h : LayoutGiven (clusterCount + 2) f l) : (fatDataWrites l f ds).map SectorWrite.lba =
      ((layoutRuns l).flatMap runMembers).map (clusterLba ds) := by
  have hone : ∀ r : FatRun, r.clusters = 1 → runMembers r = [r.start] := by
    intro r hr
    rw [runMembers, hr]
    rfl
  simp only [fatDataWrites, layoutRuns, map_append, chainWrites_lba, flatMap_cons,
    flatMap_nil, hone _ h.efi, hone _ h.efiBoot, hone _ h.bootDir, hone ⟨fatRootCluster, 1⟩ rfl]
  simp [fat32WriteCluster, clusterLba, fatSectorsPerCluster]

theorem dataWrites_count {w : SectorWrite} (hw : w ∈ fatDataWrites l f ds) : w.count = 8 := by
  have hchain : ∀ {run : FatRun} {data : Bytes} {n : Nat}, w ∈ fat32WriteChainContig ds run data n → w.count = 8 := by
    intro run data n hmem
    obtain ⟨i, _, rfl⟩ := mem_map.mp hmem
    dsimp only
    split <;> rfl
  simp only [fatDataWrites, mem_append, mem_cons, not_mem_nil, or_false] at hw
  rcases hw with ((((rfl | rfl | rfl | rfl) | hw) | hw) | hw) | hw
  · rfl
  · rfl
  · rfl
  · rfl
  all_goals exact hchain hw

theorem dataWrites_placed (h : LayoutGiven (clusterCount + 2) f l) : (fatDataWrites l f ds).Pairwise WriteBefore ∧
      ∀ w ∈ fatDataWrites l f ds, ds ≤ w.lba ∧ w.lba + w.count ≤ ds + clusterCount * 8 := by
  have hlba : (fatDataWrites l f ds).map SectorWrite.lba = _ := dataWrites_lba h
  rw [h.given.clusters] at hlba
  have hhigh := h.given.high
  constructor
  · have hmembers : (List.range' 2 (l.fat.nextFree - 2)).Pairwise
        (fun a b => clusterLba ds a + 8 ≤ clusterLba ds b) := by
      apply List.Pairwise.imp_of_mem _ pairwise_lt_range'
      intro a b ha _ hlt
      have := (List.mem_range'_1.mp ha).1
      unfold clusterLba
      omega
    rw [← pairwise_map (R := fun a b => a + 8 ≤ b), ← hlba, pairwise_map] at hmembers
    apply List.Pairwise.imp_of_mem _ hmembers
    intro a b ha _ hab
    rw [WriteBefore, dataWrites_count ha]
    exact hab
  · intro w hw
    have hm : w.lba ∈ (fatDataWrites l f ds).map SectorWrite.lba := mem_map_of_mem hw
    rw [hlba] at hm
    obtain ⟨c, hc, hcw⟩ := mem_map.mp hm
    have hbounds := List.mem_range'_1.mp hc
    rw [dataWrites_count hw, ← hcw]
    unfold clusterLba
    omega

theorem volumeWrites_placed (hp : FatPlanned total fatSize clusterCount) (h : LayoutGiven (clusterCount + 2) f l) :
    (fatVolumeWrites partLba total fatSize clusterCount l f).Pairwise WriteBefore ∧
      ∀ w ∈ fatVolumeWrites partLba total fatSize clusterCount l f, partLba ≤ w.lba ∧ w.lba + w.count ≤ partLba + total := by
  obtain ⟨hpair, hin⟩ := @dataWrites_placed _ (fatDataStart partLba fatSize) l f h
  have htable := hp.table
  have hfits := hp.fits
  have hmeta : ∀ w ∈ fatMetaWrites partLba total fatSize clusterCount l,
      partLba ≤ w.lba ∧ w.lba + w.count ≤ fatDataStart partLba fatSize := by
    intro w hw
    simp only [fatMetaWrites, mem_cons, not_mem_nil, or_false] at hw
    rcases hw with rfl | rfl | rfl | rfl | rfl | rfl <;>
      simp only [fatDataStart, fatReservedSectors, fatCopies] <;> omega
  constructor
  · apply pairwise_append.mpr
    refine ⟨?_, hpair, ?_⟩
    · simp [fatMetaWrites, WriteBefore, fatReservedSectors]
      omega
    · intro a ha b hb
      exact Nat.le_trans (hmeta a ha).2 (hin b hb).1
  · intro w hw
    rcases List.mem_append.mp hw with hfront | hdata
    · have hw' := hmeta w hfront
      simp only [fatDataStart, fatReservedSectors, fatCopies] at hw'
      omega
    · have hw' := hin w hdata
      simp only [fatDataStart, fatReservedSectors, fatCopies] at hw'
      omega

end CapyOS.Proofs
