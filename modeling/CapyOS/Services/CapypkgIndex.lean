import CapyOS.Services.CapypkgInstall

namespace CapyOS

/-- The text up to the end of its line, and the text behind the line. -/
def takeLine (text : Text) : Text × Text :=
  (text.takeWhile (· ≠ '\n'), (text.dropWhile (· ≠ '\n')).drop 1)

def lineIsSeparator (line : Text) : Bool := line = "---".toList

def valueIsPrintableAscii (value : Text) : Bool := value.all fun c => 0x20 ≤ c.toNat && c.toNat ≤ 0x7E

/-- Copy a value into a field of `size` bytes. -/
def copyField (size : Nat) (value : Text) : Text := value.take (size - 1)

def parseUint32Digits : Nat → Text → Option Nat
  | v, [] => some v
  | v, c :: rest =>
    if '0' ≤ c ∧ c ≤ '9' then
      let digit := c.toNat - '0'.toNat
      if v > (2 ^ 32 - 1 - digit) / 10 then none else parseUint32Digits (v * 10 + digit) rest
    else none

def parseUint32 (value : Text) : Option Nat := if value = [] then none else parseUint32Digits 0 value

def isAlnum (c : Char) : Bool := ('a' ≤ c && c ≤ 'z') || ('A' ≤ c && c ≤ 'Z') || ('0' ≤ c && c ≤ '9')

def nameIsSafe (name : Text) : Bool :=
  !name.isEmpty && name.all (fun c => isAlnum c || c = '.' || c = '_' || c = '-') && !name.all (· = '.')

def trimBlanks (value : Text) : Text :=
  ((value.dropWhile fun c => c = ' ' || c = '\t').reverse.dropWhile fun c => c = ' ' || c = '\t').reverse

/-- The items between the commas of a value. -/
def commaItems : Text → List Text
  | [] => [[]]
  | c :: rest =>
    if c = ',' then [] :: commaItems rest
    else
      match commaItems rest with
      | [] => [[c]]
      | item :: items => (c :: item) :: items

def appendDependencies (e : CapypkgEntry) : List Text → CapypkgResult × CapypkgEntry
  | [] => (.ok, e)
  | item :: items =>
    let span := trimBlanks item
    if span = [] then appendDependencies e items
    else if e.deps.length ≥ capypkgMaxDeps then (.parse, e)
    else
      let dep := copyField capypkgNameMax span
      if nameIsSafe dep then appendDependencies { e with deps := e.deps ++ [dep] } items else (.denied, e)

def appendDependency (e : CapypkgEntry) (value : Text) : CapypkgResult × CapypkgEntry :=
  appendDependencies e (commaItems value)

def applyKv (e : CapypkgEntry) (key value : Text) : CapypkgResult × CapypkgEntry :=
  if !valueIsPrintableAscii value then (.denied, e)
  else if key = "name".toList then (.ok, { e with name := copyField capypkgNameMax value })
  else if key = "version".toList then (.ok, { e with version := copyField capypkgVersionMax value })
  else if key = "summary".toList then (.ok, { e with summary := copyField capypkgSummaryMax value })
  else if key = "payload_url".toList then (.ok, { e with payloadUrl := copyField capypkgUrlMax value })
  else if key = "payload_sha256".toList then
    (.ok, { e with payloadSha256 := copyField (capypkgSha256HexLen + 1) value })
  else if key = "payload_size".toList then
    match parseUint32 value with
    | none => (.parse, e)
    | some size => if size > capypkgPayloadMax then (.quota, e) else (.ok, { e with sizeBytes := size })
  else if key = "signature_ed25519".toList then
    (.ok, { e with signatureHex := copyField (capypkgSigHexLen + 1) value })
  else if key = "install_root".toList then (.ok, { e with installRoot := copyField capypkgPathMax value })
  else if key = "provides_abi".toList then (.ok, { e with providesAbi := copyField capypkgNameMax value })
  else if key = "abi_version".toList then (.ok, { e with abiVersion := copyField capypkgVersionMax value })
  else if key = "core_abi_min".toList then
    match parseUint32 value with
    | none => (.parse, e)
    | some v => (.ok, { e with coreAbiMin := v })
  else if key = "core_abi_max".toList then
    match parseUint32 value with
    | none => (.parse, e)
    | some v => (.ok, { e with coreAbiMax := v })
  else if key = "known_good".toList then
    match parseUint32 value with
    | none => (.parse, e)
    | some flag => if flag > 1 then (.parse, e) else (.ok, { e with knownGood := flag })
  else if key = "depends".toList then appendDependency e value
  else if key = "repo".toList then (.ok, { e with sourceRepo := copyField capypkgRepoNameMax value })
  else (.ok, e)

def capypkgAbiVersion : Nat := 3

def entryRuntimeCompatible (e : CapypkgEntry) : Bool :=
  !e.providesAbi.isEmpty && !e.abiVersion.isEmpty && nameIsSafe e.providesAbi && e.knownGood = 1 &&
    0 < e.coreAbiMin && e.coreAbiMin ≤ capypkgAbiVersion && capypkgAbiVersion ≤ e.coreAbiMax

/-- The pieces of a path between its slashes. -/
def segments : Text → List Text
  | [] => [[]]
  | c :: rest =>
    if c = '/' then [] :: segments rest
    else
      match segments rest with
      | [] => [[c]]
      | seg :: segs => (c :: seg) :: segs

def pathHasDotdotSegment (path : Text) : Bool := (segments path).any (· = "..".toList)

def pathIsUnder (path pre : Text) : Bool :=
  localStartsWith path pre &&
    (pre = [] || path.length = pre.length || path[pre.length]? = some '/' || pre.getLast? = some '/')

def isHexDigit (c : Char) : Bool := ('0' ≤ c && c ≤ '9') || ('a' ≤ c && c ≤ 'f') || ('A' ≤ c && c ≤ 'F')

def hexStringValid (text : Text) (n : Nat) : Bool := text.length = n && text ≠ [] && text.all isHexDigit

def validateRequiredFields (e : CapypkgEntry) : CapypkgResult × CapypkgEntry :=
  if e.name = [] ∨ e.version = [] ∨ e.payloadUrl = [] ∨ e.payloadSha256 = [] then (.parse, e)
  else if !nameIsSafe e.name then (.denied, e)
  else if !hexStringValid e.payloadSha256 capypkgSha256HexLen then (.parse, e)
  else if e.signatureHex ≠ [] ∧ !hexStringValid e.signatureHex capypkgSigHexLen then (.parse, e)
  else if !localStartsWith e.payloadUrl "https://".toList then (.denied, e)
  else
    let root :=
      if e.installRoot = [] then
        localAppend capypkgPathMax (localAppend capypkgPathMax (localCopy capypkgPathMax capypkgDirVar) "/".toList) e.name
      else e.installRoot
    let e := { e with installRoot := root }
    if root.head? ≠ some '/' then (.denied, e)
    else if pathHasDotdotSegment root then (.denied, e)
    else if !(pathIsUnder root capypkgDirVar || pathIsUnder root "/opt/".toList) then (.denied, e)
    else (.ok, e)

/-- What is left behind the next separator, within so many lines. -/
def skipToNextEntry : Nat → Text → Text
  | 0, text => text
  | n + 1, text =>
    if text = [] then []
    else if lineIsSeparator (takeLine text).1 then (takeLine text).2
    else skipToNextEntry n (takeLine text).2

/-- The loop of `capypkg_manifest_parse_entry`, over so many lines at most. -/
def parseLines : Nat → CapypkgEntry → Text → CapypkgResult × CapypkgEntry × Text
  | 0, e, text => (.ok, e, text)
  | n + 1, e, text =>
    if text = [] then (.ok, e, [])
    else
      let line := (takeLine text).1
      let rest := (takeLine text).2
      if lineIsSeparator line then (.ok, e, rest)
      else if line = [] ∨ line.head? = some '#' then parseLines n e rest
      else if '=' ∉ line then parseLines n e rest
      else
        match applyKv e (line.takeWhile (· ≠ '=')) ((line.dropWhile (· ≠ '=')).drop 1) with
        | (.ok, e) => parseLines n e rest
        | (rc, e) => (rc, e, skipToNextEntry n rest)

def emptyEntry : CapypkgEntry := ⟨[], [], [], [], [], [], [], [], [], [], [], 0, 0, 0, 0, false⟩

/-- `capypkg_manifest_parse_entry`, with the text it leaves in place of the length it took. -/
def manifestParseEntry (text : Text) : CapypkgResult × CapypkgEntry × Text :=
  match parseLines text.length emptyEntry text with
  | (.ok, e, rest) => ((validateRequiredFields e).1, (validateRequiredFields e).2, rest)
  | (rc, e, rest) => (rc, e, rest)

def capypkgDefaultRepoUrl : Text :=
  "https://github.com/henriquefarisco/CapyOS/releases/download/modules-capyos-base-v3-r2/modules-index.txt".toList

def capypkgAbiToken : Text := "capyos-base-v3".toList

def capypkgIndexFormat : Text := "capyos-modules-index-v2".toList

def capypkgIndexEpoch : Nat := 1

/-- A line that starts with a prefix, what follows the prefix in a buffer of `size` bytes, and
the text behind the line. -/
def indexLineValue (text pre : Text) (size : Nat) : Option (Text × Text) :=
  if !localStartsWith text pre then none
  else
    let rest := text.drop pre.length
    if '\n' ∉ rest then none
    else
      let value := (takeLine rest).1
      if value = [] ∨ value.length + 1 > size then none else some (value, (takeLine rest).2)

namespace Capypkg
variable (env : CapypkgEnv)

/-- `capypkg_verify_index_envelope`, with the body of an index it accepts. -/
def verifyIndexEnvelope (text : Text) : Option Text := do
  let format := "#capyos-modules-index-v2\n".toList
  if text.length ≤ format.length ∨ !localStartsWith text format then none
  else
    let (token, rest) ← indexLineValue (text.drop format.length) "#index_abi_token=".toList capypkgNameMax
    let (epoch, rest) ← indexLineValue rest "#index_epoch=".toList 16
    let (bodySha, rest) ← indexLineValue rest "#index_body_sha256=".toList (capypkgSha256HexLen + 1)
    let (signature, body) ← indexLineValue rest "#index_signature_ed25519=".toList (capypkgSigHexLen + 1)
    let accepts ← env.verifier
    if token ≠ capypkgAbiToken ∨ parseUint32 epoch ≠ some capypkgIndexEpoch ∨
        !hexStringValid bodySha capypkgSha256HexLen ∨ !hexStringValid signature capypkgSigHexLen ∨ body = [] then none
    else if digestHex (env.sha256 body) ≠ bodySha then none
    else
      let descriptor := localAppend 256 [] "format=".toList
      let descriptor := localAppend 256 descriptor capypkgIndexFormat
      let descriptor := localAppend 256 descriptor "|abi_token=".toList
      let descriptor := localAppend 256 descriptor token
      let descriptor := localAppend 256 descriptor "|epoch=".toList
      let descriptor := localAppend 256 descriptor epoch
      let descriptor := localAppend 256 descriptor "|body_sha256=".toList
      let descriptor := localAppend 256 descriptor bodySha
      let descriptor := localAppend 256 descriptor "\n".toList
      if accepts descriptor signature then some body else none

/-- The first of so many fetches of an index that brings some text. -/
def fetchText (url : Text) : Nat → Nat → Option Text
  | _, 0 => none
  | attempt, n + 1 =>
    match env.text attempt url with
    | some (c :: text) => some (c :: text)
    | _ => fetchText url (attempt + 1) n

/-- The descriptors of a catalog that come into the list of available packages, of which
there is room for `room`. -/
def takeEntries (repo : CapypkgRepo) (authenticated : Bool) : Nat → Nat → Text → CapypkgResult → List CapypkgEntry × CapypkgResult
  | 0, _, _, last => ([], last)
  | n + 1, room, text, last =>
    if text = [] ∨ room = 0 then ([], last)
    else
      match manifestParseEntry text with
      | (.ok, e, rest) =>
        let e := if e.sourceRepo = [] then { e with sourceRepo := localCopy capypkgRepoNameMax repo.name } else e
        if authenticated && !entryRuntimeCompatible e then takeEntries repo authenticated n room rest .incompatible
        else
          let e := { e with catalogAuthenticated := authenticated }
          let (es, last) := takeEntries repo authenticated n (room - 1) rest .ok
          (e :: es, last)
      | (_, _, rest) => takeEntries repo authenticated n room rest last

/-- What one repository adds to the list of available packages. -/
def fetchRepo (attempt : Nat) (repo : CapypkgRepo) (room : Nat) (last : CapypkgResult) :
    List CapypkgEntry × CapypkgResult :=
  match fetchText env repo.indexUrl attempt 4 with
  | none => ([], .fetch)
  | some text =>
    if repo.requireSignature && repo.indexUrl = capypkgDefaultRepoUrl then
      match verifyIndexEnvelope env text with
      | none => ([], .indexTrust)
      | some body => takeEntries repo true body.length room body last
    else takeEntries repo false text.length room text last

/-- The repositories from one on, and what is available so far. -/
def fetchRepos : Nat → List CapypkgRepo → List CapypkgEntry → CapypkgResult → List CapypkgEntry × CapypkgResult
  | _, [], available, last => (available, last)
  | attempt, repo :: repos, available, last =>
    let (es, last) := fetchRepo env attempt repo (capypkgMaxAvailable - available.length) last
    fetchRepos (attempt + 4) repos (available ++ es) last

/-- `capypkg_fetch_index`, but for the cached copy of the catalog that it writes. -/
def fetchIndex (s : Capypkg) : CapypkgResult × Capypkg :=
  if !s.initialized then (.notReady, s)
  else if s.repos = [] then (.noSource, s)
  else if !env.textFetcher then (.notReady, s)
  else
    match fetchRepos env 0 s.repos [] .fetch with
    | (available, last) =>
      (if available = [] then last else .ok, { s with available := available })

end Capypkg

end CapyOS
