import CapyOS.Services.CapypkgIndex

namespace CapyOS

def updateAgentVersionMax : Nat := 40

def updateAgentChannelMax : Nat := 16

def updateAgentBranchMax : Nat := 16

def updateAgentSourceMax : Nat := 96

def updateAgentPublishedAtMax : Nat := 24

def updateAgentRemoteMax : Nat := 160

def updateAgentSha256HexMax : Nat := 65

def updateAgentEd25519SignatureHexMax : Nat := 129

def updateAgentManifestTextMax : Nat := 768

def updateAgentPayloadMaxBytes : Nat := 8 * 1024 * 1024

def updateAgentKeySize : Nat := 24

/-- `struct update_manifest_view`. `signedText` is as long as `signed_len`. -/
structure UpdateManifestView where
  version : Text
  channel : Text
  branch : Text
  source : Text
  publishedAt : Text
  payloadUrl : Text
  payloadSize : Nat
  payloadSizePresent : Bool
  payloadSha256 : Text
  signatureEd25519 : Text
  signedText : Text
  signatureLineCount : Nat
  deriving DecidableEq, Repr

/-- `update_agent_manifest_view_reset`. -/
def UpdateManifestView.empty : UpdateManifestView := ⟨[], [], [], [], [], [], 0, false, [], [], [], 0⟩

def parsePayloadSize (value : Text) : Option Nat :=
  match value with
  | [] => none
  | c :: _ =>
    if c < '1' ∨ '9' < c then none
    else
      match parseUint32Digits 0 value with
      | none => none
      | some size => if size = 0 ∨ updateAgentPayloadMaxBytes < size then none else some size

def parseManifestLine (key value : Text) (view : UpdateManifestView) : UpdateManifestView :=
  if key = "available_version".toList then { view with version := copyField updateAgentVersionMax value }
  else if key = "channel".toList then { view with channel := copyField updateAgentChannelMax value }
  else if key = "branch".toList then { view with branch := copyField updateAgentBranchMax value }
  else if key = "source".toList then { view with source := copyField updateAgentSourceMax value }
  else if key = "published_at".toList then { view with publishedAt := copyField updateAgentPublishedAtMax value }
  else if key = "payload_url".toList then { view with payloadUrl := copyField updateAgentRemoteMax value }
  else if key = "payload_size".toList then { view with payloadSizePresent := true, payloadSize := (parsePayloadSize value).getD 0 }
  else if key = "payload_sha256".toList then { view with payloadSha256 := copyField updateAgentSha256HexMax value }
  else if key = "signature_ed25519".toList then
    { view with signatureEd25519 := copyField updateAgentEd25519SignatureHexMax value }
  else view

/-- The key and the value that `parse_buffer_line` reads in a line; the key is read as a C
string, the value has no NUL in it once it is printable. -/
def bufferLineEntry (line : Text) : Option (Text × Text) :=
  let eq := (line.takeWhile (· ≠ '=')).length
  if eq = 0 ∨ line.length ≤ eq then none
  else
    let eq := if updateAgentKeySize ≤ eq then updateAgentKeySize - 1 else eq
    let value := (line.drop (eq + 1)).take (updateAgentRemoteMax - 1)
    if !valueIsPrintableAscii value then none else some ((line.take eq).takeWhile (· ≠ '\x00'), value)

def parseBufferLine {σ : Type} (parse : Text → Text → σ → σ) (line : Text) (target : σ) : σ :=
  match bufferLineEntry line with
  | none => target
  | some (key, value) => parse key value target

def lineEnd (c : Char) : Bool := c = '\n' || c = '\r'

/-- A line, the line ends behind it and what follows them. -/
def firstLine (buffer : Text) : Text := buffer.takeWhile fun c => !lineEnd c

def firstEnds (buffer : Text) : Text := (buffer.dropWhile fun c => !lineEnd c).takeWhile lineEnd

def afterLine (buffer : Text) : Text := (buffer.dropWhile fun c => !lineEnd c).dropWhile lineEnd

theorem firstLine_split (buffer : Text) : firstLine buffer ++ firstEnds buffer ++ afterLine buffer = buffer := by
  unfold firstLine firstEnds afterLine
  rw [List.append_assoc, List.takeWhile_append_dropWhile, List.takeWhile_append_dropWhile]

theorem chunk_ne_nil {buffer : Text} (h : buffer ≠ []) : firstLine buffer ++ firstEnds buffer ≠ [] := by
  cases buffer with
  | nil => exact absurd rfl h
  | cons c cs => cases hc : lineEnd c <;> simp [firstLine, firstEnds, hc]

theorem afterLine_length {buffer : Text} (h : buffer ≠ []) : (afterLine buffer).length < buffer.length := by
  have hsplit := congrArg List.length (firstLine_split buffer)
  have hchunk := List.length_pos_iff.mpr (chunk_ne_nil h)
  rw [List.length_append] at hsplit
  omega

def updateAgentParseBuffer {σ : Type} (parse : Text → Text → σ → σ) (buffer : Text) (target : σ) : σ :=
  if buffer = [] then target
  else
    let line := firstLine buffer
    updateAgentParseBuffer parse (afterLine buffer) (if line = [] then target else parseBufferLine parse line target)
termination_by buffer.length
decreasing_by exact afterLine_length ‹_›

def manifestLineMatchesKey : Text → Text → Bool
  | line, [] => line.head? = some '='
  | [], _ :: _ => false
  | c :: line, k :: key => c = k && manifestLineMatchesKey line key

/-- The loop of `update_agent_manifest_capture_signed_text`. -/
def captureSignedFrom (buffer signed : Text) (count : Nat) : Option (Text × Nat) :=
  if buffer = [] then some (signed, count)
  else
    let line := firstLine buffer
    let copied := line ++ firstEnds buffer
    if line ≠ [] ∧ manifestLineMatchesKey line "signature_ed25519".toList then
      captureSignedFrom (afterLine buffer) signed (if count ≠ 255 then count + 1 else count)
    else if updateAgentManifestTextMax ≤ signed.length + copied.length then none
    else captureSignedFrom (afterLine buffer) (signed ++ copied) count
termination_by buffer.length
decreasing_by all_goals exact afterLine_length ‹_›

def updateAgentManifestCaptureSignedText (buffer : Text) (view : UpdateManifestView) : Option UpdateManifestView :=
  (captureSignedFrom buffer [] 0).map fun captured =>
    { view with signedText := captured.1, signatureLineCount := captured.2 }

/-- `update_agent_read_manifest_view` on what the reader gave, with its code when it fails. -/
def updateAgentReadManifestView (buffer : Option Text) : Except Int UpdateManifestView :=
  match buffer with
  | none => .error (-1)
  | some buffer =>
    if buffer = [] then .error (-1)
    else
      match updateAgentManifestCaptureSignedText buffer .empty with
      | none => .error (-2)
      | some captured =>
        let view := updateAgentParseBuffer parseManifestLine buffer captured
        if view.version = [] then .error (-2) else .ok view

end CapyOS
