import CapyOS.Lib.Records

namespace CapyOS
open Lib Function

def fatSectorsPerCluster : Nat := 8
def fatBytesPerCluster : Nat := 4096
def fatReservedSectors : Nat := 32
def fatCopies : Nat := 2
def fatRootCluster : Nat := 2
def fatEndOfChain : Nat := 0x0FFFFFFF

/-! ### The plan -/

/-- The loop of `installer_disk_fat32_plan`. -/
def fat32PlanLoop (totalSectors sectorsPerCluster reservedSectors fatCount fatSectors : Nat) :
    Nat → Option (Nat × Nat)
  | 0 => none
  | n + 1 =>
    let metadata := reservedSectors + fatCount * fatSectors
    if metadata ≥ totalSectors then none
    else
      let clusters := (totalSectors - metadata) / sectorsPerCluster
      if clusters = 0 ∨ clusters > 0x0FFFFFF5 then none
      else
        let bytes := (clusters + 2) * 4
        let required := bytes / 512 + (if bytes % 512 ≠ 0 then 1 else 0)
        if required ≤ fatSectors then some (fatSectors, clusters)
        else fat32PlanLoop totalSectors sectorsPerCluster reservedSectors fatCount required n

/-- The sectors of a FAT and the number of clusters. -/
def installerDiskFat32Plan (totalSectors sectorsPerCluster reservedSectors fatCount : Nat) :
    Option (Nat × Nat) :=
  if sectorsPerCluster = 0 ∨ reservedSectors = 0 ∨ fatCount = 0 then none
  else fat32PlanLoop totalSectors sectorsPerCluster reservedSectors fatCount 1 64

/-! ### The table -/

/-- The table in memory and the first cluster not given away. -/
structure Fat where
  entries : Nat → Nat
  nextFree : Nat

/-- A run of clusters: the first and how many. -/
structure FatRun where
  start : Nat
  clusters : Nat

/-- The loop that links a run, from its `i`-th cluster on. -/
def fat32LinkRun (start need i : Nat) (entries : Nat → Nat) : Nat → Nat → Nat
  | 0 => entries
  | n + 1 =>
    fat32LinkRun start need (i + 1)
      (update entries (start + i)
        (if i + 1 < need then start + i + 1 else fatEndOfChain)) n

def fat32AllocContig (fatLen bytesPerCluster : Nat) (fat : Fat) (bytesNeeded : Nat) :
    Option (Fat × FatRun) :=
  if fatLen < 4 ∨ bytesPerCluster = 0 then none
  else
    let need := bytesNeeded / bytesPerCluster + (if bytesNeeded % bytesPerCluster ≠ 0 then 1 else 0)
    let need := if need = 0 then 1 else need
    let start := max fat.nextFree 2
    if start > fatLen ∨ need > fatLen - start then none
    else some (⟨fat32LinkRun start need 0 fat.entries need, start + need⟩, ⟨start, need⟩)

/-- Where everything on the volume is. -/
structure FatLayout where
  fat : Fat
  efi : FatRun
  efiBoot : FatRun
  bootDir : FatRun
  bootx64 : FatRun
  kernel : FatRun
  manifest : FatRun
  bootcfg : FatRun

/-- The clusters of a file that is there only when it is not empty. -/
def fat32AllocOptional (fatLen : Nat) (fat : Fat) (size : Nat) : Option (Fat × FatRun) :=
  if size = 0 then some (fat, ⟨0, 0⟩) else fat32AllocContig fatLen fatBytesPerCluster fat size

/-- The allocations in order: the directories, then the files. -/
def fat32Allocate (fatLen bootx64Sz kernelSz manifestSz bootcfgSz : Nat) : Option FatLayout :=
  let first : Nat → Nat := update (update (update (fun _ => 0)
    0 0x0FFFFFF8) 1 fatEndOfChain) fatRootCluster fatEndOfChain
  match fat32AllocContig fatLen fatBytesPerCluster ⟨first, 3⟩ fatBytesPerCluster with
  | none => none
  | some (fat₁, efi) =>
  match fat32AllocContig fatLen fatBytesPerCluster fat₁ fatBytesPerCluster with
  | none => none
  | some (fat₂, efiBoot) =>
  match fat32AllocContig fatLen fatBytesPerCluster fat₂ fatBytesPerCluster with
  | none => none
  | some (fat₃, bootDir) =>
  match fat32AllocContig fatLen fatBytesPerCluster fat₃ bootx64Sz with
  | none => none
  | some (fat₄, bootx64) =>
  match fat32AllocContig fatLen fatBytesPerCluster fat₄ kernelSz with
  | none => none
  | some (fat₅, kernel) =>
  match fat32AllocOptional fatLen fat₅ manifestSz with
  | none => none
  | some (fat₆, manifest) =>
  match fat32AllocOptional fatLen fat₆ bootcfgSz with
  | none => none
  | some (fat₇, bootcfg) =>
    some ⟨fat₇, efi, efiBoot, bootDir, bootx64, kernel, manifest, bootcfg⟩

/-! ### Directories -/

/-- An 8.3 entry, its name with its extension. -/
structure DirEnt where
  name : List Byte
  attr : Nat
  cluster : Nat
  size : Nat

/-- `fat32_dirent83` -/
def DirEnt.fields (e : DirEnt) : List (Nat × Nat) :=
  byteFields e.name ++
    [(1, e.attr), (8, 0), (2, e.cluster / 2 ^ 16), (4, 0), (2, e.cluster), (4, e.size)]

def dirCluster (es : List DirEnt) : Bytes := pack (es.flatMap DirEnt.fields)

/-- "EFI", "BOOT", ".", "..", "BOOTX64 EFI", "CAPYOS64BIN", "MANIFESTBIN" and "CAPYCFG BIN". -/
def nameEfi : List Byte := [0x45, 0x46, 0x49, 0x20, 0x20, 0x20, 0x20, 0x20, 0x20, 0x20, 0x20]
def nameBoot : List Byte := [0x42, 0x4F, 0x4F, 0x54, 0x20, 0x20, 0x20, 0x20, 0x20, 0x20, 0x20]
def nameDot : List Byte := [0x2E, 0x20, 0x20, 0x20, 0x20, 0x20, 0x20, 0x20, 0x20, 0x20, 0x20]
def nameDotDot : List Byte := [0x2E, 0x2E, 0x20, 0x20, 0x20, 0x20, 0x20, 0x20, 0x20, 0x20, 0x20]
def nameBootx64 : List Byte := [0x42, 0x4F, 0x4F, 0x54, 0x58, 0x36, 0x34, 0x20, 0x45, 0x46, 0x49]
def nameKernel : List Byte := [0x43, 0x41, 0x50, 0x59, 0x4F, 0x53, 0x36, 0x34, 0x42, 0x49, 0x4E]
def nameManifest : List Byte := [0x4D, 0x41, 0x4E, 0x49, 0x46, 0x45, 0x53, 0x54, 0x42, 0x49, 0x4E]
def nameBootcfg : List Byte := [0x43, 0x41, 0x50, 0x59, 0x43, 0x46, 0x47, 0x20, 0x42, 0x49, 0x4E]

/-- The payloads of a volume. -/
structure EspFiles where
  bootx64 : List Byte
  kernel : List Byte
  manifest : List Byte
  bootcfg : List Byte

section
variable (l : FatLayout) (f : EspFiles)

def fatRootDir : List DirEnt :=
  [⟨nameEfi, 0x10, l.efi.start, 0⟩, ⟨nameBoot, 0x10, l.bootDir.start, 0⟩]

def fatEfiDir : List DirEnt :=
  [⟨nameDot, 0x10, l.efi.start, 0⟩, ⟨nameDotDot, 0x10, fatRootCluster, 0⟩,
    ⟨nameBoot, 0x10, l.efiBoot.start, 0⟩]

def fatEfiBootDir : List DirEnt :=
  [⟨nameDot, 0x10, l.efiBoot.start, 0⟩, ⟨nameDotDot, 0x10, l.efi.start, 0⟩,
    ⟨nameBootx64, 0x20, l.bootx64.start, f.bootx64.length⟩]

def fatBootDir : List DirEnt :=
  [⟨nameDot, 0x10, l.bootDir.start, 0⟩, ⟨nameDotDot, 0x10, fatRootCluster, 0⟩,
    ⟨nameKernel, 0x20, l.kernel.start, f.kernel.length⟩] ++
  (if f.manifest.length = 0 then []
    else [⟨nameManifest, 0x20, l.manifest.start, f.manifest.length⟩]) ++
  (if f.bootcfg.length = 0 then []
    else [⟨nameBootcfg, 0x20, l.bootcfg.start, f.bootcfg.length⟩])

end

/-! ### Sectors -/

/-- A write of whole sectors. -/
structure SectorWrite where
  lba : Nat
  count : Nat
  data : Bytes

def SectorWrite.Covers (w : SectorWrite) (lba : Nat) : Prop := w.lba ≤ lba ∧ lba < w.lba + w.count

instance (w : SectorWrite) (lba : Nat) : Decidable (w.Covers lba) :=
  inferInstanceAs (Decidable (_ ∧ _))

def SectorWrite.apply (disk : Nat → Bytes) (w : SectorWrite) (lba : Nat) : Bytes :=
  if w.Covers lba then fun i => w.data ((lba - w.lba) * 512 + i) else disk lba

/-- The sectors after some writes on a device without errors. -/
def sectorsAfter (disk : Nat → Bytes) (ws : List SectorWrite) : Nat → Bytes :=
  ws.foldl SectorWrite.apply disk

def bytesOf (p : List Byte) : Bytes := fun i => p.getD i 0

/-- The fields of the boot sector, from the jump to the signature. -/
def fatBootFields (totalSectors fatSize : Nat) : List (Nat × Nat) :=
  [(3, 0x9058EB), (8, 0x312E344E4957534D), (2, 512), (1, fatSectorsPerCluster),
    (2, fatReservedSectors), (1, fatCopies), (4, 0), (1, 0xF8), (2, 0), (2, 63), (2, 255), (4, 0),
    (4, totalSectors), (4, fatSize), (4, 0), (4, fatRootCluster), (2, 1), (2, 6), (12, 0),
    (1, 0x80), (1, 0), (1, 0x29), (4, 0x12345678), (11, 0x2054524150535953494645),
    (8, 0x2020203233544146),
    (420, 0), (2, 0xAA55)]

def fatBootSector (totalSectors fatSize : Nat) : Bytes := pack (fatBootFields totalSectors fatSize)

def fatInfoSector : Bytes :=
  pack [(4, 0x41615252), (480, 0), (4, 0x61417272), (8, 0xFFFFFFFFFFFFFFFF), (14, 0), (2, 0xAA55)]

/-- The table as it is written: `n` entries of 28 bits. -/
def fatImage (entries : Nat → Nat) (n : Nat) : Bytes :=
  pack (((List.range n).map fun i => entries i % 2 ^ 28).map fun v => (4, v))

def fat32WriteCluster (dataStartLba cluster : Nat) (data : Bytes) (dataLen : Nat) :
    SectorWrite where
  lba := dataStartLba + (cluster - 2) * fatSectorsPerCluster
  count := fatSectorsPerCluster
  data := fun i => if i < min dataLen fatBytesPerCluster then data i else 0

def fat32WriteChainContig (dataStartLba : Nat) (run : FatRun) (data : Bytes) (dataLen : Nat) :
    List SectorWrite :=
  (List.range run.clusters).map fun i =>
    let off := i * fatBytesPerCluster
    if off < dataLen then
      fat32WriteCluster dataStartLba (run.start + i) (fun j => data (off + j))
        (min (dataLen - off) fatBytesPerCluster)
    else fat32WriteCluster dataStartLba (run.start + i) zeros 0

/-- The bytes a run of clusters holds. -/
def runBytes (disk : Nat → Bytes) (dataStartLba : Nat) (run : FatRun) (i : Nat) : Byte :=
  disk (dataStartLba + (run.start - 2) * fatSectorsPerCluster + i / 512) (i % 512)

def fat32VerifyChain (disk : Nat → Bytes) (dataStartLba : Nat) (run : FatRun) (p : List Byte) :
    Bool :=
  decide (p.length ≠ 0) && decide (2 ≤ run.start) && decide (run.clusters ≠ 0) &&
    (List.range (run.clusters * fatBytesPerCluster)).all fun i =>
      runBytes disk dataStartLba run i == bytesOf p i

section
variable (partLba totalSectors fatSize clusterCount : Nat) (l : FatLayout) (f : EspFiles)

def fatDataStart : Nat := partLba + fatReservedSectors + fatCopies * fatSize

/-- The writes in front of the data area. -/
def fatMetaWrites : List SectorWrite :=
  [⟨partLba, 1, fatBootSector totalSectors fatSize⟩, ⟨partLba + 1, 1, fatInfoSector⟩,
    ⟨partLba + 6, 1, fatBootSector totalSectors fatSize⟩, ⟨partLba + 7, 1, fatInfoSector⟩,
    ⟨partLba + fatReservedSectors, fatSize, fatImage l.fat.entries (clusterCount + 2)⟩,
    ⟨partLba + fatReservedSectors + fatSize, fatSize, fatImage l.fat.entries (clusterCount + 2)⟩]

/-- The writes of directories and files; the run of an empty file has no clusters. -/
def fatDataWrites (dataStartLba : Nat) : List SectorWrite :=
  [fat32WriteCluster dataStartLba fatRootCluster (dirCluster (fatRootDir l)) fatBytesPerCluster,
    fat32WriteCluster dataStartLba l.efi.start (dirCluster (fatEfiDir l)) fatBytesPerCluster,
    fat32WriteCluster dataStartLba l.efiBoot.start (dirCluster (fatEfiBootDir l f))
      fatBytesPerCluster,
    fat32WriteCluster dataStartLba l.bootDir.start (dirCluster (fatBootDir l f))
      fatBytesPerCluster] ++
  fat32WriteChainContig dataStartLba l.bootx64 (bytesOf f.bootx64) f.bootx64.length ++
  fat32WriteChainContig dataStartLba l.kernel (bytesOf f.kernel) f.kernel.length ++
  fat32WriteChainContig dataStartLba l.manifest (bytesOf f.manifest) f.manifest.length ++
  fat32WriteChainContig dataStartLba l.bootcfg (bytesOf f.bootcfg) f.bootcfg.length

/-- Everything that is written, in order. -/
def fatVolumeWrites : List SectorWrite :=
  fatMetaWrites partLba totalSectors fatSize clusterCount l ++
    fatDataWrites l f (fatDataStart partLba fatSize)

/-- What is read back at the end. -/
def fatVerified (disk : Nat → Bytes) (dataStartLba : Nat) : Bool :=
  fat32VerifyChain disk dataStartLba l.bootx64 f.bootx64 &&
    fat32VerifyChain disk dataStartLba l.kernel f.kernel &&
    (decide (f.manifest.length = 0) || fat32VerifyChain disk dataStartLba l.manifest f.manifest) &&
    (decide (f.bootcfg.length = 0) || (List.range f.bootcfg.length).all fun i =>
      runBytes disk dataStartLba l.bootcfg i == bytesOf f.bootcfg i)

end

/-- `fat32_write_volume` on a device with sectors of 512 bytes, without errors and with
enough memory: the writes it makes when it returns success. -/
def fat32WriteVolume (disk : Nat → Bytes) (lastBlock partLba totalSectors : Nat) (f : EspFiles) :
    Option (List SectorWrite) :=
  if totalSectors < 65536 ∨ partLba > lastBlock ∨ totalSectors - 1 > lastBlock - partLba then none
  else if totalSectors > 0xFFFFFFFF ∨ f.bootx64.length > 2 ^ 32 - 1 ∨ f.kernel.length > 2 ^ 32 - 1 ∨
      f.manifest.length > 2 ^ 32 - 1 ∨ f.bootcfg.length > 2 ^ 32 - 1 then none
  else
    match installerDiskFat32Plan totalSectors fatSectorsPerCluster fatReservedSectors fatCopies with
    | none => none
    | some (fatSize, clusterCount) =>
      if clusterCount < 65525 then none
      else
        match fat32Allocate (clusterCount + 2) f.bootx64.length f.kernel.length f.manifest.length
            f.bootcfg.length with
        | none => none
        | some l =>
          let ws := fatVolumeWrites partLba totalSectors fatSize clusterCount l f
          if fatVerified l f (sectorsAfter disk ws) (fatDataStart partLba fatSize) then some ws
          else none

end CapyOS
