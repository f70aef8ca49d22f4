import CapyOS.Services.CapypkgIndex

namespace CapyOS

/-! ## The installed database -/

def capypkgDbBufferBytes : Nat := 8192

/-- The strings `\nkey=` and value. -/
def fieldPieces (key value : Text) : List Text := ['\n' :: (key ++ ['=']), value]

/-- What `append_contract_fields` appends, in order. -/
def contractPieces (e : CapypkgEntry) : List Text :=
  (if e.sizeBytes ≠ 0 then fieldPieces "payload_size".toList (Nat.toDigits 10 e.sizeBytes) else []) ++
  (if e.signatureHex ≠ [] then fieldPieces "signature_ed25519".toList e.signatureHex else []) ++
  fieldPieces "install_root".toList e.installRoot ++
  (if e.providesAbi ≠ [] then fieldPieces "provides_abi".toList e.providesAbi else []) ++
  (if e.abiVersion ≠ [] then fieldPieces "abi_version".toList e.abiVersion else []) ++
  (if e.coreAbiMin ≠ 0 then fieldPieces "core_abi_min".toList (Nat.toDigits 10 e.coreAbiMin) else []) ++
  (if e.coreAbiMax ≠ 0 then fieldPieces "core_abi_max".toList (Nat.toDigits 10 e.coreAbiMax) else []) ++
  (if e.providesAbi ≠ [] then fieldPieces "known_good".toList (Nat.toDigits 10 e.knownGood) else []) ++
  (if e.deps ≠ [] then ['\n' :: "depends=".toList] ++ e.deps.intersperse [','] else [])

/-- What `capypkg_db_serialize` appends for an entry, in order. -/
def entryPieces (e : CapypkgEntry) : List Text :=
  ["name=".toList, e.name] ++ fieldPieces "version".toList e.version ++
  fieldPieces "payload_url".toList e.payloadUrl ++ fieldPieces "payload_sha256".toList e.payloadSha256 ++
  contractPieces e ++
  (if e.sourceRepo ≠ [] then fieldPieces "repo".toList e.sourceRepo else []) ++
  (if e.summary ≠ [] then fieldPieces "summary".toList e.summary else []) ++
  ["\n---\n".toList]

/-- `capypkg_db_serialize`. -/
def dbSerialize (installed : List CapypkgEntry) : Text :=
  (installed.flatMap entryPieces).foldl (localAppend capypkgDbBufferBytes)
    (localAppend capypkgDbBufferBytes [] "# capypkg db.idx v1\n".toList)

/-- The entries that a loop over descriptors takes from a text, with room for so many. -/
def parseEntries : Nat → Nat → Text → List CapypkgEntry
  | 0, _, _ => []
  | n + 1, room, text =>
    if text = [] ∨ room = 0 then []
    else
      match manifestParseEntry text with
      | (.ok, e, rest) => e :: parseEntries n (room - 1) rest
      | (_, _, rest) => if rest.length = text.length then [] else parseEntries n room rest

/-- `capypkg_db_parse`. -/
def dbParse (text : Text) : List CapypkgEntry := parseEntries text.length capypkgMaxInstalled text

/-! ## The repositories -/

def capypkgReposFile : Text := "/system/capypkg/repos.cfg".toList

def repoBufferBytes : Nat := 1024

/-- `append_str` of `capypkg_repo.c`, in a buffer of so many bytes. -/
def appendStr (size : Nat) (buffer src : Text) : Option Text :=
  if buffer.length + src.length < size then some (buffer ++ src) else none

def flagDigit (flag : Bool) : Text := if flag then ['1'] else ['0']

def repoPieces (repo : CapypkgRepo) : List Text :=
  if repo.name = [] then []
  else
    [repo.name, ['|'], repo.indexUrl, ['|'], flagDigit repo.requireSignature, ['|'], flagDigit repo.pinned, ['\n']]

/-- `capypkg_repo_serialize`. -/
def repoSerialize (repos : List CapypkgRepo) : Option Text :=
  (("# capypkg repos.cfg v1\n".toList) :: repos.flatMap repoPieces).foldlM (appendStr repoBufferBytes) []

/-- `read_field`: the field in a buffer of `size` bytes, and the text behind its delimiter. -/
def readField (size : Nat) (delim : Char) (text : Text) : Text × Text :=
  ((text.takeWhile (· ≠ delim)).take (size - 1), (text.dropWhile (· ≠ delim)).drop 1)

def repoStringPrintable (text : Text) : Bool := text.all fun c => 0x20 ≤ c.toNat && c.toNat ≤ 0x7E

/-- A line of `repos.cfg` that is not a comment. -/
def repoLine (line : Text) : Option CapypkgRepo :=
  let (name, rest) := readField capypkgRepoNameMax '|' line
  let (url, rest) := readField capypkgUrlMax '|' rest
  let (require, rest) := readField 8 '|' rest
  let (pinned, _) := readField 8 '\n' rest
  if name = [] ∨ url = [] then none
  else if !repoStringPrintable name || !repoStringPrintable url then none
  else if !localStartsWith url "https://".toList then none
  else some ⟨name, url, pinned.head? = some '1', require.head? = some '1'⟩

def repoParseLines : Nat → Nat → Text → List CapypkgRepo
  | 0, _, _ => []
  | n + 1, room, text =>
    if text = [] ∨ room = 0 then []
    else
      let (line, rest) := takeLine text
      if line = [] ∨ line.head? = some '#' then repoParseLines n room rest
      else
        match repoLine line with
        | some repo => repo :: repoParseLines n (room - 1) rest
        | none => repoParseLines n room rest

/-- `capypkg_repo_parse`. -/
def repoParse (text : Text) : List CapypkgRepo := repoParseLines text.length capypkgMaxRepos text

def capypkgDefaultRepo : CapypkgRepo := ⟨"stable".toList, capypkgDefaultRepoUrl, true, true⟩

namespace Capypkg
variable (env : CapypkgEnv) (s : Capypkg)

def repoSave : CapypkgResult × Capypkg :=
  if !env.writer then (.notReady, s)
  else
    match repoSerialize s.repos with
    | none => (.storage, s)
    | some text =>
      match (s.makeDir env capypkgDirSystem).writeFile env capypkgReposFile text with
      | (true, s) => (.ok, s)
      | (false, s) => (.storage, s)

/-- The end of a change of the repositories. -/
def repoSaved : CapypkgResult × Capypkg :=
  match s.repoSave env with
  | (.notReady, s) => (.ok, s)
  | r => r

/-- `capypkg_repo_add`. -/
def repoAdd (name indexUrl : Text) (requireSignature : Bool) : CapypkgResult × Capypkg :=
  if name = [] ∨ indexUrl = [] then (.invalidArg, s)
  else if !localStartsWith indexUrl "https://".toList then (.denied, s)
  else if name.length ≥ capypkgRepoNameMax ∨ indexUrl.length ≥ capypkgUrlMax then (.invalidArg, s)
  else if !repoStringPrintable name || !repoStringPrintable indexUrl then (.denied, s)
  else
    match s.repos.findIdx? fun r => r.name = name with
    | some i =>
      let repos := s.repos.modify i fun r =>
        { r with indexUrl := localCopy capypkgUrlMax indexUrl, requireSignature := requireSignature }
      { s with repos := repos }.repoSaved env
    | none =>
      if s.repos.length ≥ capypkgMaxRepos then (.quota, s)
      else
        let repo := ⟨localCopy capypkgRepoNameMax name, localCopy capypkgUrlMax indexUrl, false, requireSignature⟩
        { s with repos := s.repos ++ [repo] }.repoSaved env

/-- `capypkg_repo_remove`. -/
def repoRemove (name : Text) : CapypkgResult × Capypkg :=
  if name = [] then (.invalidArg, s)
  else
    match s.repos.findIdx? fun r => r.name = name with
    | none => (.notFound, s)
    | some i =>
      if s.repos[i]?.any fun r => r.pinned then (.denied, s)
      else { s with repos := s.repos.eraseIdx i }.repoSaved env

/-- What `capypkg_repo_load` makes of the text of `repos.cfg`, if there is one. -/
def loadRepos (text : Option Text) : List CapypkgRepo :=
  match text with
  | none => [capypkgDefaultRepo]
  | some text => if repoParse text = [] then [capypkgDefaultRepo] else repoParse text

/-- The state behind `capypkg_init`, which found these texts of the repositories, of the
database and of the cached catalog. -/
def init (repos db catalog : Option Text) (files : Text → Option Text) : Capypkg where
  initialized := true
  repos := loadRepos repos
  installed := (db.map dbParse).getD []
  available := (catalog.map fun text => parseEntries text.length capypkgMaxAvailable text).getD []
  files := files
  calls := []

end Capypkg

/-- A call of the package service that comes to an end. -/
inductive PkgStep : Capypkg → Capypkg → Prop
  | repoAdd (env : CapypkgEnv) (s : Capypkg) (name indexUrl : Text) (requireSignature : Bool) :
      PkgStep s (s.repoAdd env name indexUrl requireSignature).2
  | repoRemove (env : CapypkgEnv) (s : Capypkg) (name : Text) : PkgStep s (s.repoRemove env name).2
  | fetchIndex (env : CapypkgEnv) (s : Capypkg) : PkgStep s (s.fetchIndex env).2
  | install {env : CapypkgEnv} {calls : Nat} {s s' : Capypkg} {name : Text} {rc : CapypkgResult} :
      Capypkg.install env dbSerialize calls s name = some (rc, s') → PkgStep s s'
  | update {env : CapypkgEnv} {calls : Nat} {s s' : Capypkg} {name : Text} {rc : CapypkgResult} :
      s.update env dbSerialize calls name = some (rc, s') → PkgStep s s'
  | remove (env : CapypkgEnv) (s : Capypkg) (name : Text) : PkgStep s (s.remove env dbSerialize name).2

inductive PkgRun : Capypkg → Prop
  | init (repos db catalog : Option Text) (files : Text → Option Text) : PkgRun (.init repos db catalog files)
  | step {s s' : Capypkg} : PkgRun s → PkgStep s s' → PkgRun s'

/-- `g_capypkg` with the two flags that it keeps beside its tables. -/
structure CapypkgRam where
  tables : Capypkg
  catalogFresh : Bool
  anyRepoSigned : Bool

namespace CapypkgRam
variable (env : CapypkgEnv) (s : CapypkgRam)

/-- The checks of `capypkg_fetch_index` before it clears the catalog. -/
def fetchRefused : Bool := !s.tables.initialized || s.tables.repos = [] || !env.textFetcher

/-- `capypkg_fetch_index`. -/
def fetchIndex : CapypkgResult × CapypkgRam :=
  let r := Capypkg.fetchIndex env s.tables
  let fresh := if s.fetchRefused env then s.catalogFresh else !r.2.available.isEmpty
  (r.1, { s with tables := r.2, catalogFresh := fresh })

/-- `rebuild_signed_flag`, as `capypkg_repo_add` and `capypkg_repo_remove` repeat it. -/
def rebuildSignedFlag (repos : List CapypkgRepo) : Bool := repos.any fun r => r.requireSignature

/-- The checks of `capypkg_repo_add` before it edits the table. -/
def addRefused (name indexUrl : Text) : Bool :=
  name = [] || indexUrl = [] || !localStartsWith indexUrl "https://".toList ||
    name.length ≥ capypkgRepoNameMax || indexUrl.length ≥ capypkgUrlMax ||
    !repoStringPrintable name || !repoStringPrintable indexUrl ||
    (s.tables.findRepo name).isNone && s.tables.repos.length ≥ capypkgMaxRepos

/-- `capypkg_repo_add`. The flag is made anew when an entry changes; a new entry can only
set it. -/
def repoAdd (name indexUrl : Text) (requireSignature : Bool) : CapypkgResult × CapypkgRam :=
  let r := s.tables.repoAdd env name indexUrl requireSignature
  let signed :=
    if s.addRefused name indexUrl then s.anyRepoSigned
    else if (s.tables.findRepo name).isSome then rebuildSignedFlag r.2.repos
    else s.anyRepoSigned || requireSignature
  (r.1, { s with tables := r.2, anyRepoSigned := signed })

/-- The checks of `capypkg_repo_remove` before it edits the table. -/
def removeRefused (name : Text) : Bool :=
  match s.tables.findRepo name with
  | none => true
  | some repo => repo.pinned

/-- `capypkg_repo_remove`. -/
def repoRemove (name : Text) : CapypkgResult × CapypkgRam :=
  let r := s.tables.repoRemove env name
  let signed := if s.removeRefused name then s.anyRepoSigned else rebuildSignedFlag r.2.repos
  (r.1, { s with tables := r.2, anyRepoSigned := signed })

end CapypkgRam

end CapyOS
