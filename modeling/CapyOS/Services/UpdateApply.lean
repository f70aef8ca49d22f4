import CapyOS.Services.UpdateAgent

namespace CapyOS

def updateAgentPathMax : Nat := 96

def updateAgentSummaryMax : Nat := 80

def updateAgentStateTextMax : Nat := 256

def updateAgentRepositoryPath : Text := "/system/update/repository.ini".toList

def updateAgentStatePath : Text := "/system/update/state.ini".toList

def updateAgentDefaultManifestPath : Text := "/system/update/latest.ini".toList

def updateAgentDefaultStagedManifestPath : Text := "/system/update/staged.ini".toList

def updateAgentPayloadCachePath : Text := "/system/update/payload.bin".toList

def updateAgentRemoteManifestSuffix : Text := "/system/update/latest.ini".toList

def updateAgentDefaultSource : Text := "github:henriquefarisco/CapyOS".toList

def updateAgentGithubPrefix : Text := "github:".toList

def updateAgentErrUnsupported : Int := -60

/-- `struct update_version_key`. -/
structure UpdateVersionKey where
  major : Nat
  minor : Nat
  patch : Nat
  prereleaseRank : Nat
  prereleaseNumber : Nat
  deriving DecidableEq, Repr

/-- The loop of `read_version_number`. -/
def readVersionDigits : Nat → Text → Option (Nat × Text)
  | value, [] => some (value, [])
  | value, c :: rest =>
    if '0' ≤ c ∧ c ≤ '9' then
      let digit := c.toNat - '0'.toNat
      if (2 ^ 32 - 1 - digit) / 10 < value then none else readVersionDigits (value * 10 + digit) rest
    else some (value, c :: rest)

/-- `read_version_number`, with what follows the number. -/
def readVersionNumber : Text → Option (Nat × Text)
  | [] => none
  | c :: rest => if '0' ≤ c ∧ c ≤ '9' then readVersionDigits 0 (c :: rest) else none

def readDot : Text → Option Text
  | [] => none
  | c :: rest => if c = '.' then some rest else none

/-- `prerelease_rank`; a release has rank 4. -/
def prereleaseRank (label : Text) : Nat :=
  if label = "alpha".toList then 1 else if label = "beta".toList then 2 else if label = "rc".toList then 3 else 0

/-- The rank and the number of a prerelease, with what follows them. -/
def readPrerelease : Text → Option (Nat × Nat × Text)
  | '-' :: rest => do
    let rank := prereleaseRank (rest.takeWhile fun c => c ≠ '.' ∧ c ≠ '+')
    let rest := rest.dropWhile fun c => c ≠ '.' ∧ c ≠ '+'
    if rank = 0 then none
    else
      match rest with
      | '.' :: rest => do
        let (number, rest) ← readVersionNumber rest
        some (rank, number, rest)
      | _ => some (rank, 0, rest)
  | rest => some (4, 0, rest)

def parseUpdateVersionKey (version : Text) : Option UpdateVersionKey := do
  let p := if version.head? = some 'v' ∨ version.head? = some 'V' then version.drop 1 else version
  let (major, p) ← readVersionNumber p
  let p ← readDot p
  let (minor, p) ← readVersionNumber p
  let p ← readDot p
  let (patch, p) ← readVersionNumber p
  let (rank, number, p) ← readPrerelease p
  if p.head? = some '+' ∨ p = [] then some ⟨major, minor, patch, rank, number⟩ else none

def compareU32 (a b : Nat) : Int := if a < b then -1 else if b < a then 1 else 0

/-- The next comparison of `compare_update_versions`, made when the last was even. -/
def compareNext (cmp : Int) (a b : Nat) : Int := if cmp = 0 then compareU32 a b else cmp

/-- The comparisons of `compare_update_versions`. -/
def compareKeys (a b : UpdateVersionKey) : Int :=
  let cmp := compareU32 a.major b.major
  let cmp := compareNext cmp a.minor b.minor
  let cmp := compareNext cmp a.patch b.patch
  let cmp := compareNext cmp a.prereleaseRank b.prereleaseRank
  compareNext cmp a.prereleaseNumber b.prereleaseNumber

def compareUpdateVersions (candidate current : Text) : Option Int := do
  let a ← parseUpdateVersionKey candidate
  let b ← parseUpdateVersionKey current
  some (compareKeys a b)

/-- `update_agent_local_hex_to_bytes`. -/
def hexToBytes (hex : Text) (n : Nat) : Option (List (Fin 256)) := if hex.length = n * 2 then decodeHex n hex else none

/-- `update_agent_local_hex_equal_fixed`. -/
def hexEqualFixed (a b : Text) (n : Nat) : Bool :=
  a.length = n && b.length = n && a.map hexValue = b.map hexValue

/-- A text with two dots next to each other. -/
def hasParent : Text → Bool
  | a :: b :: rest => (a = '.' && b = '.') || hasParent (b :: rest)
  | _ => false

namespace UpdateManifestView
variable (view : UpdateManifestView)

/-- `update_agent_manifest_payload_sha256_valid`. -/
def payloadSha256Valid : Bool := hexStringValid view.payloadSha256 64

/-- `update_agent_manifest_payload_size_valid`. -/
def payloadSizeValid : Bool :=
  !view.payloadSizePresent || (0 < view.payloadSize && view.payloadSize ≤ updateAgentPayloadMaxBytes)

/-- `update_agent_manifest_payload_url_valid`. -/
def payloadUrlValid : Bool :=
  ["https://".toList, "/system/update/".toList].any (fun pre => localStartsWith view.payloadUrl pre && view.payloadUrl ≠ pre) &&
    view.payloadUrl.all (fun c => c ≠ ' ' && c ≠ '\t' && c ≠ '\r' && c ≠ '\n') && !hasParent view.payloadUrl

/-- `update_agent_manifest_compare_current`. -/
def compareCurrent (currentVersion : Text) : Option Int :=
  if view.version = [] then none else compareUpdateVersions view.version currentVersion

end UpdateManifestView

/-- `struct system_update_status`. -/
structure SystemUpdateStatus where
  configured : Bool
  catalogPresent : Bool
  updateAvailable : Bool
  stageReady : Bool
  pendingActivation : Bool
  rollbackApplied : Bool
  lastResult : Int
  channel : Text
  branch : Text
  source : Text
  manifestPath : Text
  remoteManifestUrl : Text
  stagedManifestPath : Text
  currentVersion : Text
  availableVersion : Text
  stagedVersion : Text
  payloadUrl : Text
  stagedPayloadUrl : Text
  payloadCachePath : Text
  payloadCacheSha256 : Text
  publishedAt : Text
  summary : Text
  stagedPayloadSha256 : Text
  deriving DecidableEq, Repr

/-- `struct update_state_view`. -/
structure UpdateStateView where
  pendingActivation : Bool
  stagedManifestPath : Text
  payloadCachePath : Text
  payloadCacheSha256 : Text
  deriving DecidableEq, Repr

def branchForChannel (channel : Text) : Text := if channel = "develop".toList then "develop".toList else "main".toList

def updateAgentSeedDefaults (currentVersion : Text) : SystemUpdateStatus where
  configured := true
  catalogPresent := false
  updateAvailable := false
  stageReady := false
  pendingActivation := false
  rollbackApplied := false
  lastResult := 1
  channel := "stable".toList
  branch := "main".toList
  source := updateAgentDefaultSource
  manifestPath := updateAgentDefaultManifestPath
  remoteManifestUrl := []
  stagedManifestPath := updateAgentDefaultStagedManifestPath
  currentVersion := localCopy updateAgentVersionMax currentVersion
  availableVersion := []
  stagedVersion := []
  payloadUrl := []
  stagedPayloadUrl := []
  payloadCachePath := updateAgentPayloadCachePath
  payloadCacheSha256 := []
  publishedAt := []
  summary := "catalog cache not checked".toList
  stagedPayloadSha256 := []

/-- `update_agent_state_view_reset`. -/
def UpdateStateView.initial : UpdateStateView := ⟨false, updateAgentDefaultStagedManifestPath, updateAgentPayloadCachePath, []⟩

def parseRepoLine (key value : Text) (status : SystemUpdateStatus) : SystemUpdateStatus :=
  if key = "channel".toList then
    { status with channel := localCopy updateAgentChannelMax value, branch := localCopy updateAgentBranchMax (branchForChannel value) }
  else if key = "branch".toList then { status with branch := localCopy updateAgentBranchMax value }
  else if key = "source".toList then { status with source := localCopy updateAgentSourceMax value }
  else if key = "manifest".toList then { status with manifestPath := localCopy updateAgentPathMax value }
  else if key = "remote_manifest".toList then { status with remoteManifestUrl := localCopy updateAgentRemoteMax value }
  else status

/-- `update_agent_parse_bool_value`. -/
def parseBoolValue (value : Text) : Bool := ["1", "yes", "true", "enabled", "on"].any fun on => value = on.toList

def parseStateLine (key value : Text) (view : UpdateStateView) : UpdateStateView :=
  if key = "pending_activation".toList then { view with pendingActivation := parseBoolValue value }
  else if key = "staged_manifest".toList then { view with stagedManifestPath := localCopy updateAgentPathMax value }
  else if key = "payload_cache".toList then { view with payloadCachePath := localCopy updateAgentPathMax value }
  else if key = "payload_cache_sha256".toList ∧ hexStringValid value 64 then
    { view with payloadCacheSha256 := localCopy updateAgentSha256HexMax value }
  else view

def buildRemoteManifestUrl (source channel branch : Text) : Text :=
  let append (dst src : Text) := localAppend updateAgentRemoteMax dst src
  if source = [] ∨ !localStartsWith source updateAgentGithubPrefix then []
  else if channel = "develop".toList then
    let dst := append (append (append [] "https://raw.githubusercontent.com/".toList) (source.drop 7)) "/refs/heads/".toList
    append (append dst (if branch ≠ [] then branch else branchForChannel channel)) updateAgentRemoteManifestSuffix
  else append (append (append [] "https://github.com/".toList) (source.drop 7)) "/releases/latest/download/latest.ini".toList

def legacyOfficialStableUrl (url : Text) : Bool :=
  let pre := "https://raw.githubusercontent.com/henriquefarisco/CapyOS/".toList
  let tag := "refs/tags/v".toList
  if url = "https://github.com/henriquefarisco/CapyOS/releases/latest/download/bridge.ini".toList then true
  else if !localStartsWith url pre then false
  else
    let p := url.drop pre.length
    if p = "refs/heads/main/system/update/latest.ini".toList then true
    else if !localStartsWith p tag then false
    else
      let version := (p.drop tag.length).takeWhile (· ≠ '/')
      let rest := (p.drop tag.length).dropWhile (· ≠ '/')
      version.all (fun c => c = '.' || ('0' ≤ c && c ≤ '9')) && version.count '.' = 2 && rest = updateAgentRemoteManifestSuffix

/-- The loop of `replace_repository_remote`: what is written, and whether a line was replaced. -/
def replaceRepositoryRemoteFrom (oldUrl newUrl buffer written : Text) (replaced : Bool) : Option (Text × Bool) :=
  if buffer = [] then some (written, replaced)
  else
    let key := "remote_manifest=".toList
    let legacy : Bool := firstLine buffer = key ++ oldUrl && oldUrl ≠ []
    let line := if legacy then key ++ newUrl else firstLine buffer
    let written := written ++ line ++ firstEnds buffer
    if updateAgentManifestTextMax ≤ written.length then none
    else replaceRepositoryRemoteFrom oldUrl newUrl (afterLine buffer) written (replaced || legacy)
termination_by buffer.length
decreasing_by exact afterLine_length ‹_›

/-- `replace_repository_remote`, the text when a line was replaced. -/
def replaceRepositoryRemote (buffer oldUrl newUrl : Text) : Option Text :=
  match replaceRepositoryRemoteFrom oldUrl newUrl buffer [] false with
  | some (written, true) => some written
  | _ => none

/-- What the agent calls: the file callbacks on files `φ` (a reader is given its buffer's
size), the allocation of the payload's buffer, SHA-256, Ed25519 with the release key, and the
storage runtime's staging and arming of a boot slot. -/
structure UpdateEnv (φ : Type) where
  read : φ → Text → Nat → Option Text
  write : Option (φ → Text → Text → φ)
  readBytes : φ → Text → Nat → Option Text
  alloc : Nat → Bool
  sha256 : Text → List (Fin 256)
  sha256_length : ∀ text, (sha256 text).length = 32
  ed25519Verify : List (Fin 256) → Text → Bool
  stageBootPayload : Text → Text → List (Fin 256) → Option (Nat × Nat)
  armBootSlot : Nat → Nat → Bool

structure UpdateAgent (φ : Type) where
  ready : Bool
  status : SystemUpdateStatus
  files : φ

/-- A call of `x64_storage_runtime_stage_boot_payload_sha256`. -/
structure StageCall where
  version : Text
  payload : Text
  expected : List (Fin 256)

/-- What an apply leaves: its return code, the agent and the staging calls it made. -/
structure UpdateApplyRun (φ : Type) where
  rc : Int
  agent : UpdateAgent φ
  staged : List StageCall

inductive ManifestFault where
  | versionInvalid | downgrade | payloadInvalid | payloadSizeInvalid | payloadUrlInvalid | signatureInvalid
  deriving DecidableEq, Repr

/-- What a poll found of a manifest. -/
structure ManifestCheck where
  mismatch : Bool
  fault : Option ManifestFault
  usable : Bool

namespace SystemUpdateStatus
variable (status : SystemUpdateStatus)

def concluded (result : Int) (summary : String) : SystemUpdateStatus :=
  { status with lastResult := result, summary := localCopy updateAgentSummaryMax summary.toList }

/-- A field of a manifest is there and not the repository's. -/
def mismatches (view : UpdateManifestView) : Bool :=
  (view.channel ≠ [] && view.channel ≠ status.channel) || (view.branch ≠ [] && view.branch ≠ status.branch) ||
    (view.source ≠ [] && view.source ≠ status.source)

end SystemUpdateStatus

namespace UpdateEnv
variable {φ : Type} (env : UpdateEnv φ)

/-- `update_agent_manifest_signature_ed25519_valid`. -/
def signatureValid (view : UpdateManifestView) : Bool :=
  view.signatureLineCount = 1 && view.signedText ≠ [] && hexStringValid view.signatureEd25519 128 &&
    match hexToBytes view.signatureEd25519 64 with
    | none => false
    | some signature => env.ed25519Verify signature view.signedText

/-- The checks of a manifest in a poll. The catalog's payload is looked at only when it is
newer than the system. -/
def checkManifest (status : SystemUpdateStatus) (onlyNewer : Bool) (view : UpdateManifestView) : ManifestCheck :=
  let check (fault : Option ManifestFault) (usable : Bool) : ManifestCheck := ⟨status.mismatches view, fault, usable⟩
  match view.compareCurrent status.currentVersion with
  | none => check (some .versionInvalid) false
  | some cmp =>
    if cmp < 0 then check (some .downgrade) false
    else if onlyNewer ∧ cmp ≤ 0 then check none false
    else if !view.payloadSha256Valid then check (some .payloadInvalid) false
    else if !view.payloadSizeValid then check (some .payloadSizeInvalid) false
    else if !view.payloadUrlValid then check (some .payloadUrlInvalid) false
    else if !env.signatureValid view then check (some .signatureInvalid) false
    else check none true

/-- `update_agent_read_manifest_view` of a file. -/
def readManifest (files : φ) (path : Text) : Except Int UpdateManifestView :=
  updateAgentReadManifestView (env.read files path updateAgentManifestTextMax)

/-- `update_agent_read_state_view`, when there is a state. -/
def readState (files : φ) : Option UpdateStateView :=
  match env.read files updateAgentStatePath updateAgentStateTextMax with
  | none => none
  | some buffer => if buffer = [] then none else some (updateAgentParseBuffer parseStateLine buffer .initial)

/-- `update_agent_init` without a version. -/
def initAgent (agent : UpdateAgent φ) : UpdateAgent φ :=
  if agent.ready then agent else { agent with status := updateAgentSeedDefaults "unknown".toList, ready := true }

/-- `update_agent_prepare_repository_status`. -/
def prepareRepositoryStatus (agent : UpdateAgent φ) : UpdateAgent φ :=
  let agent := initAgent agent
  let currentVersion := if agent.status.currentVersion = [] then "unknown".toList else agent.status.currentVersion
  let status := updateAgentSeedDefaults (localCopy updateAgentVersionMax currentVersion)
  let buffer := (env.read agent.files updateAgentRepositoryPath updateAgentManifestTextMax).getD []
  let status := updateAgentParseBuffer parseRepoLine buffer status
  let status :=
    if status.branch = [] then { status with branch := localCopy updateAgentBranchMax (branchForChannel status.channel) } else status
  let built := { status with remoteManifestUrl := buildRemoteManifestUrl status.source status.channel status.branch }
  let migrates := status.source = updateAgentDefaultSource ∧ status.channel ≠ "develop".toList ∧
    legacyOfficialStableUrl status.remoteManifestUrl
  let files :=
    match env.write, replaceRepositoryRemote buffer status.remoteManifestUrl built.remoteManifestUrl with
    | some write, some migrated =>
      if migrates then write agent.files updateAgentRepositoryPath (migrated.takeWhile (· ≠ '\x00')) else agent.files
    | _, _ => agent.files
  let status := if migrates then built else status
  let status :=
    if status.remoteManifestUrl = [] then
      { status with remoteManifestUrl := buildRemoteManifestUrl status.source status.channel status.branch }
    else status
  { agent with status := status, files := files }

/-- A poll's first part: what the repository and the state say. -/
def pollState (agent : UpdateAgent φ) : UpdateAgent φ :=
  let agent := env.prepareRepositoryStatus agent
  let status := { agent.status with
    catalogPresent := false, updateAvailable := false, stageReady := false, pendingActivation := false, lastResult := 0,
    availableVersion := [], stagedVersion := [], payloadUrl := [], stagedPayloadUrl := [],
    payloadCachePath := updateAgentPayloadCachePath, payloadCacheSha256 := [], stagedPayloadSha256 := [], publishedAt := [],
    stagedManifestPath := updateAgentDefaultStagedManifestPath }
  let status :=
    match env.readState agent.files with
    | none => status
    | some view => { status with
        pendingActivation := view.pendingActivation, stagedManifestPath := view.stagedManifestPath,
        payloadCachePath := view.payloadCachePath, payloadCacheSha256 := view.payloadCacheSha256 }
  { agent with status := status }

/-- What the catalog adds to the status. -/
def pollCatalog (status : SystemUpdateStatus) (manifest : Except Int UpdateManifestView) : SystemUpdateStatus :=
  match manifest with
  | .error _ => status
  | .ok view => { status with
      catalogPresent := true, availableVersion := view.version, publishedAt := view.publishedAt, payloadUrl := view.payloadUrl,
      updateAvailable := (env.checkManifest status true view).usable }

/-- What the staged manifest adds to the status. -/
def pollStaged (status : SystemUpdateStatus) (staged : Except Int UpdateManifestView) : SystemUpdateStatus :=
  match staged with
  | .error _ => status
  | .ok view => { status with
      stagedVersion := view.version, stagedPayloadSha256 := view.payloadSha256, stagedPayloadUrl := view.payloadUrl,
      stageReady := (env.checkManifest status false view).usable }

/-- A manifest whose payload is the one in the cache. -/
def cacheMatches (status : SystemUpdateStatus) : Except Int UpdateManifestView → Bool
  | .error _ => false
  | .ok view => view.payloadSha256Valid && hexEqualFixed status.payloadCacheSha256 view.payloadSha256 64

/-- The check of a manifest that may not be there. -/
def checkOf (status : SystemUpdateStatus) (onlyNewer : Bool) : Except Int UpdateManifestView → ManifestCheck
  | .error _ => ⟨false, none, false⟩
  | .ok view => env.checkManifest status onlyNewer view

def isInvalid : Except Int UpdateManifestView → Bool
  | .error rc => rc = -2
  | .ok _ => false

/-- The failures of a poll, with their codes and texts; the first that holds is reported. -/
def pollFailures (manifest staged : ManifestCheck) (manifestInvalid stagedInvalid : Bool) : List (Bool × Int × String) := [
  (manifest.mismatch, -13, "catalog cache does not match selected update repository"),
  (staged.mismatch, -14, "staged update does not match selected update repository"),
  (manifestInvalid, -2, "catalog cache invalid"),
  (stagedInvalid, -3, "staged update invalid"),
  (manifest.fault = some .versionInvalid, -22, "catalog cache version invalid"),
  (staged.fault = some .versionInvalid, -23, "staged update version invalid"),
  (manifest.fault = some .downgrade, -24, "catalog cache version is older than current system"),
  (staged.fault = some .downgrade, -25, "staged update version is older than current system"),
  (manifest.fault = some .payloadInvalid, -26, "catalog cache missing or malformed payload sha256"),
  (staged.fault = some .payloadInvalid, -27, "staged update missing or malformed payload sha256"),
  (manifest.fault = some .payloadSizeInvalid, -55, "catalog cache payload size invalid"),
  (staged.fault = some .payloadSizeInvalid, -56, "staged update payload size invalid"),
  (manifest.fault = some .payloadUrlInvalid, -37, "catalog cache missing or malformed payload url"),
  (staged.fault = some .payloadUrlInvalid, -38, "staged update missing or malformed payload url"),
  (manifest.fault = some .signatureInvalid, -28, "catalog cache missing or invalid ed25519 signature"),
  (staged.fault = some .signatureInvalid, -29, "staged update missing or invalid ed25519 signature")]

/-- The end of a poll that found no failure. -/
def pollEnd (status : SystemUpdateStatus) : Int × SystemUpdateStatus :=
  if status.pendingActivation ∧ !status.stageReady then (-4, status.concluded (-4) "activation pending without staged update")
  else if status.pendingActivation then (0, status.concluded 0 "staged update armed for activation")
  else if status.stageReady then (0, status.concluded 0 "staged update ready")
  else if !status.catalogPresent then (0, status.concluded 1 "catalog cache missing")
  else if status.updateAvailable then (0, status.concluded 0 "update available in local catalog")
  else (0, status.concluded 0 "system already matches cached catalog")

/-- A digest of the cache that neither manifest has is dropped. -/
def pollCache (status : SystemUpdateStatus) (manifest staged : Except Int UpdateManifestView) : SystemUpdateStatus :=
  if status.payloadCacheSha256 ≠ [] ∧ !cacheMatches status manifest ∧ !cacheMatches status staged then
    { status with payloadCacheSha256 := [] }
  else status

/-- The reads of a poll: the agent after them, the catalog and the staged manifest. -/
def pollRead (agent : UpdateAgent φ) : UpdateAgent φ × Except Int UpdateManifestView × Except Int UpdateManifestView :=
  let agent := env.pollState agent
  let manifest := env.readManifest agent.files agent.status.manifestPath
  let status := env.pollCatalog agent.status manifest
  let staged := env.readManifest agent.files status.stagedManifestPath
  ({ agent with status := pollCache (env.pollStaged status staged) manifest staged }, manifest, staged)

/-- `update_agent_poll`. -/
def poll (agent : UpdateAgent φ) : Int × UpdateAgent φ :=
  let (agent, manifest, staged) := env.pollRead agent
  let failures := pollFailures (env.checkOf agent.status true manifest) (env.checkOf agent.status false staged)
    (isInvalid manifest) (isInvalid staged)
  match failures.find? (·.1) with
  | some (_, rc, summary) => (rc, { agent with status := agent.status.concluded rc summary })
  | none => ((pollEnd agent.status).1, { agent with status := (pollEnd agent.status).2 })

end UpdateEnv

def updateCachePartBytes : Nat := 2 * 1024 * 1024

def updateCacheMaxParts : Nat := 4

def updateCacheDescriptorBytes : Nat := 20

/-- Twelve direct blocks and one indirect block of CAPYFS. -/
def updateCacheSingleBytes : Nat := (12 + 4096 / 4) * 4096

def updateCacheMagic : Text := "CAPYUC01".toList

/-- `load32` at an offset. -/
def loadWord (buffer : Text) (offset : Nat) : Nat :=
  let byte (i : Nat) := (buffer.getD (offset + i) '\x00').toNat
  byte 0 + byte 1 * 2 ^ 8 + byte 2 * 2 ^ 16 + byte 3 * 2 ^ 24

def partPath (part : Nat) : Text := "/system/update/payload.bin.part".toList ++ [Nat.digitChar part]

namespace UpdateEnv
variable {φ : Type} (env : UpdateEnv φ)

/-- The parts of a segmented cache from one on, with what was read before. -/
def readParts (files : φ) (total : Nat) : Nat → Nat → Text → Option Text
  | 0, _, done => some done
  | n + 1, part, done =>
    let expected := min (total - done.length) updateCachePartBytes
    match env.readBytes files (partPath part) expected with
    | none => none
    | some bytes => if bytes.length ≠ expected then none else readParts files total n (part + 1) (done ++ bytes)

/-- `update_cache_read`. -/
def cacheRead (files : φ) (path : Text) (capacity : Nat) : Option Text :=
  if path ≠ updateAgentPayloadCachePath ∨ capacity = 0 ∨ updateAgentPayloadMaxBytes < capacity then none
  else
    match env.readBytes files path capacity with
    | none => none
    | some head =>
      if head = [] ∨ capacity < head.length then none
      else if head.take updateCacheMagic.length ≠ updateCacheMagic then
        if updateCacheSingleBytes < head.length then none else some head
      else if head.length ≠ updateCacheDescriptorBytes then none
      else
        let total := loadWord head 8
        let count := loadWord head 12
        let chunk := loadWord head 16
        if total ≤ updateCacheSingleBytes ∨ capacity < total ∨ chunk ≠ updateCachePartBytes ∨ updateCacheMaxParts < count ∨
            count ≠ (total + updateCachePartBytes - 1) / updateCachePartBytes then none
        else env.readParts files total count 0 []

/-- `update_agent_payload_load_verified`. -/
def payloadLoadVerified (agent : UpdateAgent φ) (manifest : UpdateManifestView) : Option Text :=
  if !manifest.payloadSha256Valid ∨ !manifest.payloadSizeValid then none
  else
    let limit := if manifest.payloadSizePresent then manifest.payloadSize else updateAgentPayloadMaxBytes
    if limit = 0 ∨ updateAgentPayloadMaxBytes < limit ∨ !env.alloc limit then none
    else
      match env.cacheRead agent.files agent.status.payloadCachePath limit with
      | none => none
      | some payload =>
        if payload ≠ [] ∧ payload.length ≤ limit ∧ (!manifest.payloadSizePresent ∨ payload.length = manifest.payloadSize) ∧
            hexEqualFixed (digestHex (env.sha256 payload)) manifest.payloadSha256 64 then
          some payload
        else none

/-- `update_agent_apply_unsupported`. -/
def applyUnsupported (agent : UpdateAgent φ) (staged : List StageCall) (summary : String) : UpdateApplyRun φ :=
  ⟨updateAgentErrUnsupported, { agent with status := agent.status.concluded updateAgentErrUnsupported summary }, staged⟩

/-- `update_agent_commit_boot_slot`. -/
def commitBootSlot (agent : UpdateAgent φ) (manifest : UpdateManifestView) (payload : Text) : UpdateApplyRun φ :=
  match hexToBytes manifest.payloadSha256 32 with
  | none => applyUnsupported agent [] "persistent update apply unsupported; verified download only"
  | some expected =>
    if payload = [] ∨ manifest.version = [] then
      applyUnsupported agent [] "persistent update apply unsupported; verified download only"
    else
      let staged := [⟨manifest.version, payload, expected⟩]
      match env.stageBootPayload manifest.version payload expected with
      | none => applyUnsupported agent staged "persistent slot staging refused; inactive slot not written"
      | some (slot, generation) =>
        if !env.armBootSlot slot generation then applyUnsupported agent staged "inactive slot staged but boot attempt not armed"
        else
          ⟨0, { agent with status := agent.status.concluded 0 "inactive slot written and armed for one boot attempt" }, staged⟩

def refuse (agent : UpdateAgent φ) (rc : Int) (summary : String) : UpdateApplyRun φ :=
  ⟨rc, { agent with status := agent.status.concluded rc summary }, []⟩

def hexLower (c : Char) : Char := if 'A' ≤ c ∧ c ≤ 'F' then c.toLower else c

/-- `update_agent_sha256_hex_equal`. -/
def sha256HexEqual (a b : Text) : Bool := a.length = 64 && b.length = 64 && a.map hexLower = b.map hexLower

/-- `update_agent_apply_boot_slot_verified`. The digest is read after the poll: a caller may
hand over a field of the status. -/
def applyBootSlotVerified (agent : UpdateAgent φ) (actual : SystemUpdateStatus → Option Text) : UpdateApplyRun φ :=
  let (rc, agent) := env.poll agent
  if rc < 0 then ⟨rc, agent, []⟩
  else if agent.status.stagedPayloadSha256 = [] then refuse agent (-30) "staged payload sha256 missing; refusing verified apply"
  else
    let digest := (actual agent.status).getD []
    if digest = [] then refuse agent (-30) "payload sha256 declared but verifier supplied no digest"
    else if !hexStringValid digest 64 then refuse agent (-32) "payload sha256 supplied is not a 64-char hex digest"
    else if !sha256HexEqual digest agent.status.stagedPayloadSha256 then
      refuse agent (-31) "payload sha256 mismatch; refusing to apply update"
    else
      match env.readManifest agent.files agent.status.stagedManifestPath with
      | .error _ => refuse agent (-31) "payload sha256 mismatch; payload cache unreadable or altered"
      | .ok manifest =>
        match env.payloadLoadVerified agent manifest with
        | none => refuse agent (-31) "payload sha256 mismatch; payload cache unreadable or altered"
        | some payload => env.commitBootSlot agent manifest payload

/-- `update_agent_apply_cached_payload`. -/
def applyCachedPayload (agent : UpdateAgent φ) : UpdateApplyRun φ :=
  let (rc, agent) := env.poll agent
  if rc < 0 then ⟨rc, agent, []⟩
  else if agent.status.payloadCacheSha256 = [] then refuse agent (-50) "payload cache sha256 missing; refusing cached apply"
  else
    match env.readManifest agent.files agent.status.stagedManifestPath with
    | .error _ => refuse agent (-31) "payload sha256 mismatch; payload cache unreadable or altered"
    | .ok manifest =>
      match env.payloadLoadVerified agent manifest with
      | none => refuse agent (-31) "payload sha256 mismatch; payload cache unreadable or altered"
      | some _ => env.applyBootSlotVerified agent fun status => some status.payloadCacheSha256

end UpdateEnv

/-- The files of the cache, and the calls of the remover and the writer so far. -/
structure CacheStore where
  files : Text → Option Text
  calls : Nat

/-- A file of a store, if the buffer of the reader holds it. -/
def storeRead (files : Text → Option Text) (path : Text) (capacity : Nat) : Option Text :=
  (files path).filter fun content => content.length ≤ capacity

namespace CacheStore
variable (fails : Nat → Bool) (s : CacheStore)

/-- A call of the remover. It succeeds on a file that is not there, and has no effect when
it fails. -/
def remove (path : Text) : Bool × CacheStore :=
  if fails s.calls then (false, { s with calls := s.calls + 1 })
  else (true, ⟨Function.update s.files path none, s.calls + 1⟩)

/-- A call of the writer, which has no effect when it fails. -/
def write (path content : Text) : Bool × CacheStore :=
  if fails s.calls then (false, { s with calls := s.calls + 1 })
  else (true, ⟨Function.update s.files path (some content), s.calls + 1⟩)

end CacheStore

/-- `store32` -/
def storeWord (n : Nat) : Text := (List.range 4).map fun i => Char.ofNat (n / 2 ^ (8 * i) % 256)

/-- The parts from one on are removed, whatever comes of it. -/
def removeParts (fails : Nat → Bool) : Nat → Nat → Bool → CacheStore → Bool × CacheStore
  | 0, _, ok, s => (ok, s)
  | n + 1, part, ok, s =>
    let (removed, s) := s.remove fails (partPath part)
    removeParts fails n (part + 1) (ok && removed) s

/-- `update_cache_remove`, with whether it returns 0. -/
def cacheRemove (fails : Nat → Bool) (path : Text) (s : CacheStore) : Bool × CacheStore :=
  if path ≠ updateAgentPayloadCachePath then (false, s)
  else
    let (removed, s) := s.remove fails path
    removeParts fails updateCacheMaxParts 0 removed s

/-- The parts from one on are written, as far as that succeeds. -/
def writeParts (fails : Nat → Bool) (data : Text) : Nat → Nat → Nat → CacheStore → Bool × CacheStore
  | 0, _, _, s => (true, s)
  | n + 1, part, done, s =>
    let size := min (data.length - done) updateCachePartBytes
    match s.write fails (partPath part) ((data.drop done).take size) with
    | (false, s) => (false, s)
    | (true, s) => writeParts fails data n (part + 1) (done + size) s

def cachePartCount (size : Nat) : Nat := (size + updateCachePartBytes - 1) / updateCachePartBytes

def cacheDescriptor (size : Nat) : Text :=
  updateCacheMagic ++ storeWord size ++ storeWord (cachePartCount size) ++ storeWord updateCachePartBytes

/-- `update_cache_write`, with whether it returns 0. -/
def cacheWrite (fails : Nat → Bool) (path data : Text) (s : CacheStore) : Bool × CacheStore :=
  if path ≠ updateAgentPayloadCachePath ∨ data = [] ∨ updateAgentPayloadMaxBytes < data.length then (false, s)
  else
    match cacheRemove fails path s with
    | (false, s) => (false, s)
    | (true, s) =>
      if data.length ≤ updateCacheSingleBytes then s.write fails path data
      else
        match writeParts fails data (cachePartCount data.length) 0 0 s with
        | (false, s) => (false, (cacheRemove fails path s).2)
        | (true, s) =>
          match s.write fails path (cacheDescriptor data.length) with
          | (false, s) => (false, (cacheRemove fails path s).2)
          | (true, s) => (true, s)

/-- Calls of the cache from an empty store, with the payloads whose write returned 0. A call
that is cut off is one of which every call from some point on fails. -/
inductive CacheRun : CacheStore → List Text → Prop
  | start : CacheRun ⟨fun _ => none, 0⟩ []
  | write {s : CacheStore} {stored : List Text} (fails : Nat → Bool) (path data : Text) : CacheRun s stored →
      CacheRun (cacheWrite fails path data s).2
        (if (cacheWrite fails path data s).1 then stored ++ [data] else stored)
  | remove {s : CacheStore} {stored : List Text} (fails : Nat → Bool) (path : Text) : CacheRun s stored →
      CacheRun (cacheRemove fails path s).2 stored

/-- The calls of the agent over a store. -/
def storeEnv (env : UpdateEnv (Text → Option Text)) : UpdateEnv (Text → Option Text) :=
  { env with readBytes := storeRead }

end CapyOS
