import CapyOS.Lib.Numerals

namespace CapyOS
open Function

/-- A string without its NUL, or the bytes of a file. -/
abbrev Text := List Char

def capypkgNameMax : Nat := 64

def capypkgVersionMax : Nat := 32

def capypkgSummaryMax : Nat := 96

def capypkgUrlMax : Nat := 160

def capypkgPathMax : Nat := 128

def capypkgSha256HexLen : Nat := 64

def capypkgSigHexLen : Nat := 128

def capypkgMaxDeps : Nat := 8

def capypkgMaxInstalled : Nat := 64

def capypkgMaxAvailable : Nat := 128

def capypkgMaxRepos : Nat := 4

def capypkgPayloadMax : Nat := 8 * 1024 * 1024

def capypkgRepoNameMax : Nat := 32

def capypkgDirSystem : Text := "/system/capypkg".toList

def capypkgDirVar : Text := "/var/capypkg".toList

def capypkgDirUpdates : Text := "/var/capypkg/updates".toList

def capypkgDbFile : Text := "/system/capypkg/db.idx".toList

inductive CapypkgResult where
  | ok | invalidArg | notReady | notFound | already | noSource | fetch | parse | digest | signature | storage
  | dependency | quota | denied | indexTrust | incompatible
  deriving DecidableEq, Repr

/-- A `struct capypkg_entry`. -/
structure CapypkgEntry where
  name : Text
  version : Text
  summary : Text
  sourceRepo : Text
  payloadUrl : Text
  payloadSha256 : Text
  signatureHex : Text
  installRoot : Text
  providesAbi : Text
  abiVersion : Text
  deps : List Text
  sizeBytes : Nat
  coreAbiMin : Nat
  coreAbiMax : Nat
  knownGood : Nat
  catalogAuthenticated : Bool
  deriving DecidableEq, Repr

structure CapypkgRepo where
  name : Text
  indexUrl : Text
  pinned : Bool
  requireSignature : Bool
  deriving DecidableEq, Repr

/-- What the file callbacks are asked to do. -/
inductive FileOp where
  | write (path content : Text)
  | remove (path : Text)
  | rename (source destination : Text)
  | mkdir (path : Text)
  deriving DecidableEq, Repr

/-- The paths that a call of a callback names. -/
def FileOp.paths : FileOp → List Text
  | .write path _ => [path]
  | .remove path => [path]
  | .rename source destination => [source, destination]
  | .mkdir path => [path]

/-- `g_capypkg`, the files behind the callbacks, and the callback calls so far. -/
structure Capypkg where
  initialized : Bool
  repos : List CapypkgRepo
  installed : List CapypkgEntry
  available : List CapypkgEntry
  files : Text → Option Text
  calls : List FileOp

/-- The callbacks: which ones are bound, and how each call of them comes out. A call is told
from the others by the number of file calls before it. -/
structure CapypkgEnv where
  reader : Bool
  writer : Bool
  bytesWriter : Bool
  remover : Bool
  mkdir : Bool
  renamer : Bool
  textFetcher : Bool
  bytesFetcher : Bool
  verifier : Option (Text → Text → Bool)
  fails : Nat → Bool
  text : Nat → Text → Option Text
  bytes : Nat → Text → Nat → Option Text
  alloc : Nat → Bool
  sha256 : Text → List (Fin 256)

/-- `capypkg_local_copy` into a buffer of `size` bytes. -/
def localCopy (size : Nat) (src : Text) : Text := src.take (size - 1)

/-- `capypkg_local_append` in a buffer of `size` bytes. -/
def localAppend (size : Nat) (dst src : Text) : Text := (dst ++ src).take (size - 1)

def localStartsWith (text pre : Text) : Bool := pre.isPrefixOf text

namespace Capypkg
variable (env : CapypkgEnv) (s : Capypkg)

def findInstalled (name : Text) : Option CapypkgEntry :=
  if name = [] then none else s.installed.find? fun e => e.name = name

def findAvailable (name : Text) : Option CapypkgEntry :=
  if name = [] then none else s.available.find? fun e => e.name = name

def findRepo (name : Text) : Option CapypkgRepo :=
  if name = [] then none else s.repos.find? fun r => r.name = name

/-- The next call of a file callback fails. -/
def failing : Bool := env.fails s.calls.length

def did (op : FileOp) : Capypkg := { s with calls := s.calls ++ [op] }

/-- A call of the writer, which leaves the files alone when it fails. -/
def writeFile (path content : Text) : Bool × Capypkg :=
  if s.failing env then (false, s.did (.write path content))
  else (true, { s.did (.write path content) with files := update s.files path (some content) })

/-- A call of the remover, if there is one. -/
def removeFile (path : Text) : Bool × Capypkg :=
  if !env.remover then (false, s)
  else if s.failing env || (s.files path).isNone then (false, s.did (.remove path))
  else (true, { s.did (.remove path) with files := update s.files path none })

/-- A call of the renamer. A file renamed to itself stays. -/
def renameFile (source destination : Text) : Bool × Capypkg :=
  if s.failing env || (s.files source).isNone then (false, s.did (.rename source destination))
  else (true, { s.did (.rename source destination) with
    files := if source = destination then s.files
      else update (update s.files destination (s.files source)) source none })

/-- A call of `mkdir`, if there is one. -/
def makeDir (path : Text) : Capypkg := if env.mkdir then s.did (.mkdir path) else s

end Capypkg

end CapyOS
