import CapyOS.Lib.Numerals

namespace CapyOS

/-- The bytes of a text, or a string without its NUL. -/
abbrev IniText := List Char

def installProfileNameMax : Nat := 32

def installProfileUrlMax : Nat := 160

def installProfileInstallListMax : Nat := 384

inductive InstallProfileKind where
  | basic | full | custom
  deriving DecidableEq, Repr

inductive InstallProfileResult where
  | ok | invalidArg | parse | denied | missingField
  deriving DecidableEq, Repr

structure InstallProfile where
  kind : InstallProfileKind
  repoName : IniText
  repoUrl : IniText
  repoSigned : Bool
  installList : IniText
  valid : Bool
  deriving DecidableEq, Repr

def installProfileReset : InstallProfile := ⟨.basic, [], [], false, [], true⟩

/-- `profile_copy` into a field of `size` bytes. -/
def profileCopy (size : Nat) (src : IniText) : IniText := src.take (size - 1)

def profileValueIsPrintableAscii (value : IniText) : Bool := value.all fun c => 0x20 ≤ c.toNat && c.toNat ≤ 0x7E

def profileAllowed (c : Char) : Bool :=
  ('a' ≤ c && c ≤ 'z') || ('A' ≤ c && c ≤ 'Z') || ('0' ≤ c && c ≤ '9') || c = '.' || c = '_' || c = '-'

def profileNameAlphabetOk (value : IniText) : Bool := !value.isEmpty && value.all profileAllowed && !value.all (· = '.')

def profileParseBool (value : IniText) : Option Bool :=
  if value = ['0'] then some false else if value = ['1'] then some true else none

def profileBlank (c : Char) : Bool := c = ' ' || c = '\t'

/-- A text without the blanks at its end. -/
def profileTrim (value : IniText) : IniText := (value.reverse.dropWhile profileBlank).reverse

/-- `install_profile_install_list_next` with a buffer of `size` bytes: the next name, and the
list from behind it on. -/
def installListNext (size : Nat) (list : IniText) : Option (IniText × IniText) :=
  let rest := list.dropWhile fun c => c = ',' || profileBlank c
  if rest = [] then none
  else some (profileCopy size (profileTrim (rest.takeWhile (· ≠ ','))), rest.dropWhile (· ≠ ','))

/-- What a loop over a list of names sees, so many names at most. -/
def installListTokens (size : Nat) : Nat → IniText → List IniText
  | 0, _ => []
  | n + 1, list =>
    match installListNext size list with
    | none => []
    | some (token, rest) => token :: installListTokens size n rest

/-- The names of a list, each cut to a buffer of `size` bytes. -/
def installListNames (size : Nat) (list : IniText) : List IniText := installListTokens size list.length list

def profileHttps : IniText := "https://".toList

def profileApplyKv (p : InstallProfile) (key value : IniText) : InstallProfileResult × InstallProfile :=
  if key = "profile".toList then
    if value = "basic".toList then (.ok, { p with kind := .basic })
    else if value = "full".toList then (.ok, { p with kind := .full })
    else if value = "custom".toList then (.ok, { p with kind := .custom })
    else (.parse, p)
  else if key = "bootstrap_repo_name".toList then
    if !profileNameAlphabetOk value then (.denied, p)
    else (.ok, { p with repoName := profileCopy installProfileNameMax value })
  else if key = "bootstrap_repo_url".toList then
    if value = [] then (.parse, p)
    else
      let p := { p with repoUrl := profileCopy installProfileUrlMax value }
      if !profileHttps.isPrefixOf p.repoUrl then (.denied, p) else (.ok, p)
  else if key = "bootstrap_repo_signed".toList then
    match profileParseBool value with
    | none => (.parse, p)
    | some flag => (.ok, { p with repoSigned := flag })
  else if key = "bootstrap_install".toList then
    let p := { p with installList := profileCopy installProfileInstallListMax value }
    let tokens := installListNames installProfileNameMax p.installList
    if !tokens.all profileNameAlphabetOk then (.denied, p)
    else if tokens = [] then (.ok, { p with installList := [] })
    else (.ok, p)
  else (.ok, p)

def profileValidate (p : InstallProfile) : InstallProfileResult :=
  if p.kind = .basic then .ok
  else if p.repoName = [] ∨ p.repoUrl = [] then .missingField
  else if p.kind = .custom ∧ installListNext installProfileNameMax p.installList = none then .missingField
  else .ok

/-- What a line is to the parser. -/
inductive ProfileLine where
  | skipped
  | malformed
  | pair (key value : IniText)
  deriving DecidableEq, Repr

def profileLine (line : IniText) : ProfileLine :=
  let rest := line.dropWhile profileBlank
  if rest = [] ∨ rest.head? = some '#' then .skipped
  else if '=' ∉ rest then .malformed
  else .pair (rest.takeWhile (· ≠ '=')) (profileTrim ((rest.dropWhile (· ≠ '=')).drop 1))

def profileEol (c : Char) : Bool := c = '\n' || c = '\r'

/-- The loop of `install_profile_parse`, over so many lines at most. -/
def profileParseLines : Nat → InstallProfile → IniText → InstallProfileResult × InstallProfile
  | 0, p, _ => (.ok, p)
  | n + 1, p, text =>
    if text = [] then (.ok, p)
    else
      let line := text.takeWhile (! profileEol ·)
      let rest := (text.dropWhile (! profileEol ·)).dropWhile profileEol
      match profileLine line with
      | .skipped => profileParseLines n p rest
      | .malformed => (.parse, installProfileReset)
      | .pair key value =>
        if !profileValueIsPrintableAscii value then (.denied, installProfileReset)
        else
          match profileApplyKv p key value with
          | (.ok, p) => profileParseLines n p rest
          | (rc, _) => (rc, installProfileReset)

def installProfileParse (text : IniText) : InstallProfileResult × InstallProfile :=
  if text = [] then (.ok, installProfileReset)
  else
    match profileParseLines text.length installProfileReset text with
    | (.ok, p) =>
      match profileValidate p with
      | .ok => (.ok, { p with valid := true })
      | rc => (rc, installProfileReset)
    | r => r

/-- `profile_format_append` in a buffer of `size` bytes. -/
def profileFormatAppend (size : Nat) (buf src : IniText) : Option IniText :=
  if buf.length + src.length < size ∨ src = [] then some (buf ++ src) else none

def installProfileKindLabel : InstallProfileKind → IniText
  | .basic => "basic".toList
  | .full => "full".toList
  | .custom => "custom".toList

/-- What `install_profile_format` appends for a field that is not empty. -/
def profileFieldPieces (key value : IniText) : List IniText := if value = [] then [] else [key, value, ['\n']]

/-- What `install_profile_format` appends, in order. -/
def profilePieces (p : InstallProfile) : List IniText :=
  ["profile=".toList, installProfileKindLabel p.kind, ['\n']] ++
  profileFieldPieces "bootstrap_repo_name=".toList p.repoName ++
  profileFieldPieces "bootstrap_repo_url=".toList p.repoUrl ++
  ["bootstrap_repo_signed=".toList, if p.repoSigned then ['1'] else ['0'], ['\n']] ++
  profileFieldPieces "bootstrap_install=".toList p.installList

/-- `install_profile_format` into a buffer of `size` bytes. -/
def installProfileFormat (size : Nat) (p : InstallProfile) : InstallProfileResult × IniText :=
  if size = 0 then (.invalidArg, [])
  else if !profileValueIsPrintableAscii p.repoName || !profileValueIsPrintableAscii p.repoUrl ||
      !profileValueIsPrintableAscii p.installList then (.denied, [])
  else
    match (profilePieces p).foldlM (profileFormatAppend size) [] with
    | none => (.invalidArg, [])
    | some buf => (.ok, buf)

end CapyOS
