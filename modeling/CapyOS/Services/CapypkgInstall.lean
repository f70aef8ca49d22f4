import CapyOS.Services.Capypkg

namespace CapyOS

def capypkgPayloadPartBytes : Nat := 256 * 1024

def buildPayloadTarget (e : CapypkgEntry) : Text :=
  let out := localCopy capypkgPathMax e.installRoot
  let out := localAppend capypkgPathMax out "/".toList
  let out := localAppend capypkgPathMax out e.name
  localAppend capypkgPathMax out ".bin".toList

def buildPayloadPartTarget (e : CapypkgEntry) (part : Nat) : Option Text :=
  if part > 99 then none
  else
    let out := localCopy capypkgPathMax e.installRoot
    let out := localAppend capypkgPathMax out "/payload.part".toList
    some (localAppend capypkgPathMax out [Nat.digitChar (part / 10), Nat.digitChar (part % 10)])

def buildInstalledMarkerTarget (e : CapypkgEntry) : Text :=
  let out := localCopy capypkgPathMax e.installRoot
  localAppend capypkgPathMax out "/installed".toList

def buildPayloadStaging (e : CapypkgEntry) : Text :=
  let out := localCopy capypkgPathMax capypkgDirUpdates
  let out := localAppend capypkgPathMax out "/".toList
  let out := localAppend capypkgPathMax out e.name
  localAppend capypkgPathMax out ".bin".toList

/-- The length counts the NUL of the suffix. -/
def buildPayloadBackup (target : Text) : Option Text :=
  if target.length + 10 > capypkgPathMax then none
  else some (localAppend capypkgPathMax (localCopy capypkgPathMax target) ".previous".toList)

/-- The text of the `installed` marker. -/
def installedMarker (e : CapypkgEntry) (payloadLen : Nat) : Text :=
  let out := localAppend 256 [] "state=installed\nname=".toList
  let out := localAppend 256 out e.name
  let out := localAppend 256 out "\nversion=".toList
  let out := localAppend 256 out e.version
  let out := localAppend 256 out "\npayload_sha256=".toList
  let out := localAppend 256 out e.payloadSha256
  let out := localAppend 256 out "\npayload_size=".toList
  let out := localAppend 256 out (Nat.toDigits 10 (payloadLen % 2 ^ 32))
  localAppend 256 out "\n".toList

/-- The canonical signed descriptor. -/
def buildSignedDescriptor (e : CapypkgEntry) : Text :=
  let size := capypkgNameMax + capypkgVersionMax + (capypkgSha256HexLen + 1) + capypkgUrlMax + 64
  let out := localAppend size [] "name=".toList
  let out := localAppend size out e.name
  let out := localAppend size out "|version=".toList
  let out := localAppend size out e.version
  let out := localAppend size out "|payload_sha256=".toList
  let out := localAppend size out e.payloadSha256
  let out := localAppend size out "|payload_url=".toList
  let out := localAppend size out e.payloadUrl
  localAppend size out "\n".toList

def hexValue (c : Char) : Option Nat :=
  if '0' ≤ c ∧ c ≤ '9' then some (c.toNat - '0'.toNat)
  else if 'a' ≤ c ∧ c ≤ 'f' then some (10 + (c.toNat - 'a'.toNat))
  else if 'A' ≤ c ∧ c ≤ 'F' then some (10 + (c.toNat - 'A'.toNat))
  else none

/-- The bytes that the first pairs of digits spell. -/
def decodeHex : Nat → Text → Option (List (Fin 256))
  | 0, _ => some []
  | n + 1, hi :: lo :: rest => do
    let h ← hexValue hi
    let l ← hexValue lo
    let bytes ← decodeHex n rest
    some (Fin.ofNat 256 (h * 16 + l) :: bytes)
  | _ + 1, _ => none

/-- `sha256_hex`. -/
def digestHex (digest : List (Fin 256)) : Text :=
  digest.flatMap fun b => [Nat.digitChar (b.val / 16), Nat.digitChar (b.val % 16)]

namespace Capypkg
variable (env : CapypkgEnv) (s : Capypkg)

def verifyPayload (e : CapypkgEntry) (payload : Text) : CapypkgResult :=
  if payload = [] then .invalidArg
  else if e.sizeBytes ≠ 0 ∧ payload.length % 2 ^ 32 ≠ e.sizeBytes then .digest
  else
    match decodeHex 32 e.payloadSha256 with
    | none => .digest
    | some expected =>
      if digestHex (env.sha256 payload) ≠ e.payloadSha256 ∧ env.sha256 payload ≠ expected then .digest else .ok

def anyRepoSigned : Bool := s.repos.any fun r => r.requireSignature

def signatureRequired (e : CapypkgEntry) : Bool :=
  if e.catalogAuthenticated then false
  else
    match s.findRepo e.sourceRepo with
    | some repo => repo.requireSignature
    | none => s.anyRepoSigned

def verifySignatureIfRequired (e : CapypkgEntry) : CapypkgResult :=
  if !s.signatureRequired e then .ok
  else if e.signatureHex = [] then .signature
  else
    match env.verifier with
    | none => .signature
    | some accepts => if accepts (buildSignedDescriptor e) e.signatureHex then .ok else .signature

def appendOrReplaceInstalled (e : CapypkgEntry) : CapypkgResult × Capypkg :=
  match s.installed.findIdx? fun i => i.name = e.name with
  | some i => (.ok, { s with installed := s.installed.set i e })
  | none =>
    if s.installed.length ≥ capypkgMaxInstalled then (.quota, s)
    else (.ok, { s with installed := s.installed ++ [e] })

/-- The parts of a payload from one on. -/
def writePayloadParts (e : CapypkgEntry) : Nat → Nat → Text → Capypkg → CapypkgResult × Capypkg
  | 0, _, _, s => (.ok, s)
  | n + 1, part, payload, s =>
    if payload = [] then (.ok, s)
    else
      match buildPayloadPartTarget e part with
      | none => (.storage, s)
      | some path =>
        match s.writeFile env path (payload.take capypkgPayloadPartBytes) with
        | (false, s) => (.storage, s)
        | (true, s) => writePayloadParts e n (part + 1) (payload.drop capypkgPayloadPartBytes) s

def writeInstalledMarker (e : CapypkgEntry) (payloadLen : Nat) : CapypkgResult × Capypkg :=
  match s.writeFile env (buildInstalledMarkerTarget e) (installedMarker e payloadLen) with
  | (true, s) => (.ok, s)
  | (false, s) => (.storage, s)

/-- A `struct capypkg_install_commit_snapshot`. -/
structure CommitSnapshot where
  count : Nat
  entry : Option (Nat × CapypkgEntry)
  markerPath : Text
  marker : Option Text

/-- The index of the installed entry with this name, and the entry. -/
def installedAt (name : Text) : Option (Nat × CapypkgEntry) :=
  match s.installed.findIdx? fun i => i.name = name with
  | none => none
  | some i => s.installed[i]?.map fun e => (i, e)

def captureSnapshot (e : CapypkgEntry) : CommitSnapshot :=
  let path := buildInstalledMarkerTarget e
  { count := s.installed.length
    entry := s.installedAt e.name
    markerPath := path
    marker :=
      if (s.installedAt e.name).isSome && env.reader then
        match s.files path with
        | some (c :: marker) => some ((c :: marker).take 256)
        | _ => none
      else none }

def rollbackInstallCommit (snapshot : CommitSnapshot) : Capypkg :=
  let installed := match snapshot.entry with
    | some (i, e) => (s.installed.set i e).take snapshot.count
    | none => s.installed.take snapshot.count
  let s := { s with installed := installed }
  match snapshot.marker with
  | some marker => (s.writeFile env snapshot.markerPath marker).2
  | none => (s.removeFile env snapshot.markerPath).2

variable (serialize : List CapypkgEntry → Text)

/-- `capypkg_db_save`, with the text of the table as `serialize` puts it. -/
def dbSave : CapypkgResult × Capypkg :=
  if !env.writer then (.notReady, s)
  else
    match (s.makeDir env capypkgDirSystem).writeFile env capypkgDbFile (serialize s.installed) with
    | (true, s) => (.ok, s)
    | (false, s) => (.storage, s)

def commitInstallMetadata (e : CapypkgEntry) (payloadLen : Nat) : CapypkgResult × Capypkg :=
  let snapshot := s.captureSnapshot env e
  match s.writeInstalledMarker env e payloadLen with
  | (.ok, s) =>
    match s.appendOrReplaceInstalled e with
    | (.ok, s) =>
      match s.dbSave env serialize with
      | (.ok, s) => (.ok, s)
      | (.notReady, s) => (.ok, s)
      | (rc, s) => (rc, ((s.rollbackInstallCommit env snapshot).dbSave env serialize).2)
    | (rc, s) => (rc, s.rollbackInstallCommit env snapshot)
  | (rc, s) => (rc, s.rollbackInstallCommit env snapshot)

def ensureInstallDirs (e : CapypkgEntry) : Capypkg :=
  (((s.makeDir env capypkgDirSystem).makeDir env capypkgDirVar).makeDir env capypkgDirUpdates).makeDir env
    e.installRoot

/-- Where the payload of an install has got to. -/
structure PayloadCommit where
  staged : Bool
  atomic : Bool
  backup : Option Text
  deriving DecidableEq, Repr

/-- Rename the staged payload to its target, with the payload before it kept as a backup. -/
def renamePayload (e : CapypkgEntry) (existing : Bool) : PayloadCommit × Capypkg :=
  let target := buildPayloadTarget e
  let staging := buildPayloadStaging e
  match buildPayloadBackup target with
  | none => (⟨true, false, none⟩, s)
  | some backup =>
    let s := (s.removeFile env backup).2
    let (kept, s) := if existing then s.renameFile env target backup else (false, s)
    match s.renameFile env staging target with
    | (true, s) => (⟨false, true, if kept then some backup else none⟩, s)
    | (false, s) => (⟨true, false, none⟩, if kept then (s.renameFile env backup target).2 else s)

/-- The payload at its target, or in parts beside it. -/
def commitPayload (e : CapypkgEntry) (existing staged : Bool) (payload : Text) :
    CapypkgResult × PayloadCommit × Capypkg :=
  let (commit, s) :=
    if staged && env.renamer then s.renamePayload env e existing else (⟨staged, false, none⟩, s)
  if commit.atomic then (.ok, commit, s)
  else
    match s.writeFile env (buildPayloadTarget e) payload with
    | (true, s) => (.ok, commit, s)
    | (false, s) =>
      let s := (s.removeFile env (buildPayloadTarget e)).2
      match writePayloadParts env e payload.length 0 payload s with
      | (rc, s) => (rc, commit, s)

/-- `capypkg_install` from where the payload is verified. -/
def activatePayload (e : CapypkgEntry) (existing staged : Bool) (payload : Text) : CapypkgResult × Capypkg :=
  match s.commitPayload env e existing staged payload with
  | (.ok, commit, s) =>
    let s := if commit.staged then (s.removeFile env (buildPayloadStaging e)).2 else s
    match s.commitInstallMetadata env serialize e payload.length with
    | (.ok, s) =>
      match commit.backup with
      | some backup => (.ok, (s.removeFile env backup).2)
      | none => (.ok, s)
    | (rc, s) =>
      let s := if commit.atomic then (s.removeFile env (buildPayloadTarget e)).2 else s
      match commit.backup with
      | some backup => (rc, (s.renameFile env backup (buildPayloadTarget e)).2)
      | none => (rc, s)
  | (rc, _, s) => (rc, s)

/-- `capypkg_install` behind the dependencies. -/
def installPayload (e : CapypkgEntry) (existing : Bool) : CapypkgResult × Capypkg :=
  let s := s.ensureInstallDirs env e
  let cap := if 0 < e.sizeBytes ∧ e.sizeBytes ≤ capypkgPayloadMax then e.sizeBytes else capypkgPayloadMax
  if !env.alloc s.calls.length then (.quota, s)
  else
    match env.bytes s.calls.length e.payloadUrl cap with
    | none => (.fetch, s)
    | some payload =>
      if payload = [] then (.fetch, s)
      else
        let (staged, s) := s.writeFile env (buildPayloadStaging e) payload
        match verifyPayload env e payload with
        | .ok =>
          match s.verifySignatureIfRequired env e with
          | .ok => s.activatePayload env serialize e existing staged payload
          | rc => (rc, s)
        | rc => (rc, s)

/-- The loop of `install_dependencies`: `install` is `capypkg_install` and `dependencies` the
call with one less to go. -/
def dependencyLoop (install : Capypkg → Text → Option (CapypkgResult × Capypkg))
    (dependencies : CapypkgEntry → Capypkg → Option (CapypkgResult × Capypkg)) :
    List Text → Capypkg → Option (CapypkgResult × Capypkg)
  | [], s => some (.ok, s)
  | dep :: deps, s =>
    if dep = [] then dependencyLoop install dependencies deps s
    else if (s.findInstalled dep).isSome then dependencyLoop install dependencies deps s
    else
      match s.findAvailable dep with
      | none => some (.dependency, s)
      | some avail =>
        match dependencies avail s with
        | none => none
        | some (.ok, s) =>
          match install s dep with
          | none => none
          | some (rc, s) =>
            if rc = .ok ∨ rc = .already then dependencyLoop install dependencies deps s else some (rc, s)
        | some (rc, s) => some (rc, s)

def installDependencies (install : Capypkg → Text → Option (CapypkgResult × Capypkg)) :
    Nat → CapypkgEntry → Capypkg → Option (CapypkgResult × Capypkg)
  | 0, _, s => some (.dependency, s)
  | budget + 1, e, s => dependencyLoop install (installDependencies install budget) e.deps s

/-- `capypkg_install`, with at most so many calls of it inside one another. -/
def install : Nat → Capypkg → Text → Option (CapypkgResult × Capypkg)
  | 0, _, _ => none
  | calls + 1, s, name =>
    if !s.initialized then some (.notReady, s)
    else if name = [] then some (.invalidArg, s)
    else
      match s.findAvailable name with
      | none => some (.notFound, s)
      | some avail =>
        if (s.findInstalled name).any fun e => e.version = avail.version then some (.already, s)
        else if !env.bytesFetcher || !env.bytesWriter then some (.notReady, s)
        else
          match installDependencies (install calls) 8 avail s with
          | none => none
          | some (.ok, s') => some (s'.installPayload env serialize avail (s.findInstalled name).isSome)
          | some (rc, s') => some (rc, s')

/-- `capypkg_remove`. -/
def remove (name : Text) : CapypkgResult × Capypkg :=
  if !s.initialized then (.notReady, s)
  else if name = [] then (.invalidArg, s)
  else
    match s.installedAt name with
    | none => (.notFound, s)
    | some (i, e) =>
      let s := (s.removeFile env (buildPayloadTarget e)).2
      let s := { s with installed := s.installed.eraseIdx i }
      match s.dbSave env serialize with
      | (.notReady, s) => (.ok, s)
      | r => r

/-- `capypkg_update`. -/
def update (calls : Nat) (name : Text) : Option (CapypkgResult × Capypkg) :=
  if !s.initialized then some (.notReady, s)
  else if name = [] then some (.invalidArg, s)
  else
    match s.findInstalled name, s.findAvailable name with
    | _, none => some (.notFound, s)
    | none, some _ => install env serialize calls s name
    | some e, some avail => if e.version = avail.version then some (.already, s) else install env serialize calls s name

end Capypkg

end CapyOS
