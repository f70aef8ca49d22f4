import CapyOS.Lib.Bytes

namespace CapyOS
open Lib

/-! `/etc/users.db`. A character is a byte. -/

abbrev DbText := List Char

def userNameMax : Nat := 32
def userHomeMax : Nat := 96
def userRoleMax : Nat := 16
def userSaltSize : Nat := 16
def userHashSize : Nat := 32
def userArgon2idTCost : Nat := 3
def userArgon2idMCost : Nat := 8192
def argon2MinTCost : Nat := 1
def argon2MinMCost : Nat := 8

inductive PasswordAlgo
  | pbkdf2Sha256 | argon2id
  deriving DecidableEq

/-- A record; its texts are what stands before their NUL. -/
structure UserDbRecord where
  username : DbText
  uid : Nat
  gid : Nat
  home : DbText
  salt : List Byte
  hash : List Byte
  role : DbText
  algoId : PasswordAlgo
  algoTCost : Nat
  algoMCost : Nat
  deriving DecidableEq

/-- What `auth_cstring_copy_n` leaves as a C string. -/
def authCstring (field : DbText) : DbText := field.takeWhile (· != Char.ofNat 0)

/-- `auth_parse_u32` from a value on. -/
def parseU32From (value : Nat) : DbText → Nat
  | [] => value
  | c :: cs =>
    if '0' ≤ c ∧ c ≤ '9' then parseU32From ((value * 10 + (c.toNat - '0'.toNat)) % 2 ^ 32) cs else value

def authParseU32 (field : DbText) : Nat := parseU32From 0 field

def hexNibble (c : Char) : Option Nat :=
  if '0' ≤ c ∧ c ≤ '9' then some (c.toNat - '0'.toNat)
  else if 'a' ≤ c ∧ c ≤ 'f' then some (10 + (c.toNat - 'a'.toNat))
  else if 'A' ≤ c ∧ c ≤ 'F' then some (10 + (c.toNat - 'A'.toNat))
  else none

/-- The loop of `auth_hex_to_bytes`. -/
def hexBytes : DbText → Option (List Byte)
  | [] => some []
  | [_] => none
  | h :: l :: rest =>
    match hexNibble h, hexNibble l, hexBytes rest with
    | some hv, some lv, some bytes => some (BitVec.ofNat 8 (16 * hv + lv) :: bytes)
    | _, _, _ => none

def authHexToBytes (hex : DbText) (len : Nat) : Option (List Byte) :=
  if hex.length = len * 2 then hexBytes hex else none

def hexDigit (v : Nat) : Char := "0123456789abcdef".toList.getD v '0'

def authBytesToHex (bytes : List Byte) : DbText :=
  bytes.flatMap fun b => [hexDigit (b.toNat / 16), hexDigit (b.toNat % 16)]

def authU32ToString (value : Nat) : DbText := Nat.toDigits 10 value

def algoToString : PasswordAlgo → DbText
  | .pbkdf2Sha256 => "pbkdf2".toList
  | .argon2id => "argon2id".toList

def algoFromString (text : DbText) : Option PasswordAlgo :=
  if text = "pbkdf2".toList then some .pbkdf2Sha256
  else if text = "argon2id".toList then some .argon2id
  else none

/-- The record of the first seven fields, hashed by PBKDF2. -/
def parseFields (name uid gid home salt hash role : DbText) : Option UserDbRecord :=
  if name.length = 0 ∨ name.length ≥ userNameMax then none
  else if home.length ≥ userHomeMax then none
  else if role.length ≥ userRoleMax then none
  else
    match authHexToBytes salt userSaltSize, authHexToBytes hash userHashSize with
    | some salt, some hash =>
      some ⟨authCstring name, authParseU32 uid, authParseU32 gid, authCstring home, salt, hash,
        authCstring role, .pbkdf2Sha256, 0, 0⟩
    | _, _ => none

/-- `userdb_parse_line`. Every refusal is the same, so the order of the checks is not kept. -/
def userdbParseLine (line : DbText) : Option UserDbRecord :=
  match line.splitOn ':' with
  | name :: uid :: gid :: home :: salt :: hash :: role :: trailer =>
    (parseFields name uid gid home salt hash role).bind fun r =>
      match trailer with
      | [] => some r
      | algo :: tCost :: mCost :: _ =>
        if tCost = [] ∨ mCost = [] then none
        else
          (algoFromString algo).bind fun algo =>
            let r := { r with
              algoId := algo
              algoTCost := authParseU32 tCost
              algoMCost := authParseU32 mCost }
            if algo = .argon2id ∧ (r.algoTCost < argon2MinTCost ∨ r.algoMCost < argon2MinMCost) then none
            else some r
      | _ => none
  | _ => none

/-- The lines `userdb_iterate` looks at. -/
def userdbLines (data : DbText) : List DbText := (data.splitOn '\n').filter (· ≠ [])

def userdbRecords (data : DbText) : List UserDbRecord := (userdbLines data).filterMap userdbParseLine

/-- `userdb_find` in a file; without one there is nobody. -/
def userdbFind (file : Option DbText) (username : DbText) : Option UserDbRecord :=
  file.bind fun data => (userdbRecords data).find? fun r => r.username = username

/-- The fields of a line. -/
def lineFields (r : UserDbRecord) : List DbText :=
  [r.username, authU32ToString r.uid, authU32ToString r.gid, r.home, authBytesToHex r.salt,
    authBytesToHex r.hash, r.role] ++
    match r.algoId with
    | .pbkdf2Sha256 => []
    | .argon2id => [algoToString .argon2id, authU32ToString r.algoTCost, authU32ToString r.algoMCost]

def lineText (r : UserDbRecord) : DbText := [':'].intercalate (lineFields r)

/-- The room of the line buffer. -/
def userdbLineCap : Nat :=
  userNameMax + userHomeMax + userRoleMax + userSaltSize * 2 + userHashSize * 2 + 128

/-- `userdb_serialize_line`, its newline included. -/
def userdbSerializeLine (r : UserDbRecord) : Option DbText :=
  let text := lineText r ++ ['\n']
  if text.length ≥ userdbLineCap then none else some text

/-- The derivation of a hash, which may fail for want of memory, and the salts drawn. -/
structure Hashing where
  derive : DbText → List Byte → PasswordAlgo → Nat → Nat → Option (List Byte)
  salt : Nat → List Byte
  derive_length : ∀ password salt algo tCost mCost hash,
    derive password salt algo tCost mCost = some hash → hash.length = userHashSize
  salt_length : ∀ n, (salt n).length = userSaltSize

/-- How the calls of a rewrite fare: the delete, the creation of a missing file, the
opening, and the write, whole or after so many bytes. -/
structure WriteFate where
  unlinks : Bool
  creates : Bool
  opens : Bool
  shortWrite : Option Nat

/-- `userdb_write_blob`: whether it succeeds, and the file it leaves. -/
def userdbWriteBlob (fate : WriteFate) (file : Option DbText) (data : DbText) : Bool × Option DbText :=
  let file := if fate.unlinks then none else file
  match (match file with
    | some old => some old
    | none => if fate.creates then some [] else none) with
  | none => (false, none)
  | some old =>
    if !fate.opens then (false, some old)
    else
      let written := min (fate.shortWrite.getD data.length) data.length
      (written == data.length, some (data.take written ++ old.drop written))

variable (hashing : Hashing)

/-- The record with the new password, hashed by Argon2id with the `n`-th salt. -/
def upgraded (password : DbText) (n : Nat) (r : UserDbRecord) : Option UserDbRecord :=
  (hashing.derive password (hashing.salt n) .argon2id userArgon2idTCost userArgon2idMCost).map
    fun hash =>
      { r with
        algoId := .argon2id
        algoTCost := userArgon2idTCost
        algoMCost := userArgon2idMCost
        salt := hashing.salt n
        hash := hash }

/-- The loop over the lines: how many records were changed, and the new text, of less
than `cap` bytes. A line that is none is left out. -/
def rebuildLines (username password : DbText) (cap : Nat) :
    Nat → DbText → List DbText → Option (Nat × DbText)
  | n, out, [] => some (n, out)
  | n, out, line :: lines =>
    match userdbParseLine line with
    | none => rebuildLines username password cap n out lines
    | some r =>
      let changed := if r.username = username then (upgraded hashing password n r).map (·, n + 1)
        else some (r, n)
      match changed with
      | none => none
      | some (r, n) =>
        match userdbSerializeLine r with
        | none => none
        | some text =>
          if out.length + text.length ≥ cap then none
          else rebuildLines username password cap n (out ++ text) lines

/-- `userdb_replace_password_hash` on a file that was read into memory or not. -/
def userdbReplacePasswordHash (reads : Bool) (fate : WriteFate) (file : Option DbText)
    (username password : DbText) : Bool × Option DbText :=
  if username = [] ∨ password = [] then (false, file)
  else
    match (if reads then file else none) with
    | none => (false, file)
    | some source =>
      match rebuildLines hashing username password (source.length + 512) 0 [] (userdbLines source) with
      | none => (false, file)
      | some (updated, out) =>
        if updated = 0 then (false, file) else userdbWriteBlob fate file out

/-- The password check of `userdb_authenticate`. -/
def userdbVerify (file : Option DbText) (username password : DbText) : Bool :=
  match userdbFind file username with
  | none => false
  | some r => hashing.derive password r.salt r.algoId r.algoTCost r.algoMCost == some r.hash

end CapyOS
