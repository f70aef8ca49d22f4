import CapyOS.Lib.Numerals

namespace CapyOS

/-- The end of a C string. -/
def nul : Char := Char.ofNat 0

/-- `enum capy_ai_risk`; `unknown` stands for any other value. -/
inductive AiRisk where
  | readOnly | writeFile | network | systemChange | unknown
  deriving DecidableEq, Repr

/-- What CapyOS reads of a `struct capy_ai_output`. The texts are arrays, with or without a
NUL in them. -/
structure CapyAiOutput where
  action : List Char
  command : List Char
  path : List Char
  content : List Char
  clarifyingQuestion : List Char
  risk : AiRisk
  needsClarification : Bool

/-- `struct capyai_perms`. -/
structure CapyaiPerms where
  allowWrite : Bool
  allowDelete : Bool
  allowSystemChange : Bool
  deriving DecidableEq, Repr

/-- `enum capyai_decision`. -/
inductive CapyaiDecision where
  | invalid | allowed | needsClarification | blockedDenylist | blockedRisk
  deriving DecidableEq, Repr

/-- `struct capyai_session`. -/
structure CapyaiSession where
  lastFile : List Char
  turns : Nat

structure CapyaiPlan where
  out : CapyAiOutput
  decision : CapyaiDecision
  reason : List Char

/-- capy-ai-core: the prediction for a model and an intent (none when it fails), what its slot
filling makes of it and the bound of its texts; and what the memory behind an array holds,
for the reads that go on to the next NUL. -/
structure CapyaiEnv where
  predict : List Char → List Char → List Char → List Char → Option CapyAiOutput
  fillSlots : List Char → CapyAiOutput → CapyAiOutput
  strMax : Nat
  blank : CapyAiOutput
  behind : List Char → List Char

inductive TargetMode where
  | none | optional | required
  deriving DecidableEq, Repr

inductive SecondaryMode where
  | none | textOptional | textRequired | pathRequired
  deriving DecidableEq, Repr

structure LegacyDispatchSpec where
  action : List Char
  command : List Char
  risk : AiRisk
  targetMode : TargetMode
  deriving DecidableEq, Repr

structure TypedDispatchSpec where
  action : List Char
  command : List Char
  risk : AiRisk
  targetMode : TargetMode
  secondaryMode : SecondaryMode
  deriving DecidableEq, Repr

def capyaiCommandMax : Nat := 256

def capyaiReasonMax : Nat := 160

def capyaiTypedSpecs : List TypedDispatchSpec := [
  ⟨"file_create".toList, "touch".toList, .writeFile, .required, .textOptional⟩,
  ⟨"file_edit_text".toList, "file-edit".toList, .writeFile, .required, .textRequired⟩,
  ⟨"file_move".toList, "move".toList, .writeFile, .required, .pathRequired⟩,
  ⟨"app_open".toList, "app-open".toList, .readOnly, .required, .none⟩,
  ⟨"app_close".toList, "app-close".toList, .systemChange, .required, .none⟩,
  ⟨"power_control".toList, "power-reboot".toList, .systemChange, .none, .none⟩,
  ⟨"power_control".toList, "power-shutdown".toList, .systemChange, .none, .none⟩,
  ⟨"power_schedule".toList, "power-schedule-reboot".toList, .systemChange, .required, .none⟩,
  ⟨"power_schedule_status".toList, "power-schedule-status".toList, .readOnly, .none, .none⟩,
  ⟨"power_schedule_cancel".toList, "power-schedule-cancel".toList, .systemChange, .none, .none⟩]

def capyaiLegacySpecs : List LegacyDispatchSpec := [
  ⟨"shell_command".toList, "list".toList, .readOnly, .optional⟩,
  ⟨"shell_command".toList, "mypath".toList, .readOnly, .none⟩,
  ⟨"shell_command".toList, "pkg-list".toList, .readOnly, .none⟩,
  ⟨"shell_command".toList, "list-users".toList, .readOnly, .none⟩,
  ⟨"shell_command".toList, "net-status".toList, .readOnly, .none⟩,
  ⟨"shell_command".toList, "net-ip".toList, .readOnly, .none⟩,
  ⟨"shell_command".toList, "mess".toList, .readOnly, .none⟩,
  ⟨"shell_command".toList, "help-any".toList, .readOnly, .none⟩,
  ⟨"shell_command".toList, "print-tasks".toList, .readOnly, .none⟩,
  ⟨"shell_command".toList, "print-mem".toList, .readOnly, .none⟩,
  ⟨"shell_command".toList, "print-file".toList, .readOnly, .required⟩,
  ⟨"file_read".toList, "print-file".toList, .readOnly, .required⟩,
  ⟨"shell_command".toList, "find".toList, .readOnly, .required⟩,
  ⟨"shell_command".toList, "hunt-dir".toList, .readOnly, .required⟩,
  ⟨"dir_find".toList, "hunt-dir".toList, .readOnly, .required⟩,
  ⟨"dir_create".toList, "mkdir".toList, .writeFile, .required⟩,
  ⟨"file_create".toList, "touch".toList, .writeFile, .required⟩,
  ⟨"file_delete".toList, "kill-file".toList, .writeFile, .required⟩,
  ⟨"dir_delete".toList, "kill-dir".toList, .writeFile, .required⟩,
  ⟨"shell_command".toList, "net-fetch".toList, .network, .required⟩,
  ⟨"shell_command".toList, "pkg-install".toList, .systemChange, .required⟩,
  ⟨"shell_command".toList, "pkg-remove".toList, .systemChange, .required⟩,
  ⟨"shell_command".toList, "shutdown-reboot".toList, .systemChange, .none⟩,
  ⟨"shell_command".toList, "shutdown-off".toList, .systemChange, .none⟩]

def capyaiBoundedEqual : List Char → List Char → Bool
  | [], _ => false
  | v :: _, [] => v = nul
  | v :: vs, l :: ls => if v = nul ∨ v ≠ l then false else capyaiBoundedEqual vs ls

/-- The loop of `capyai_bounded_text_safe` at index `i`. -/
def boundedTextSafeFrom (required : Bool) : List Char → Nat → Bool
  | [], _ => false
  | c :: cs, i =>
    if c = nul then !required || 0 < i
    else if (c.toNat < 0x20 ∧ c ≠ '\n' ∧ c ≠ '\r' ∧ c ≠ '\t') ∨ c.toNat = 0x7f then false
    else boundedTextSafeFrom required cs (i + 1)

/-- The first byte of an array, which is never empty in the source. -/
def firstChar (l : List Char) : Char := l.headD nul

def targetChar (c : Char) : Bool :=
  ('a' ≤ c ∧ c ≤ 'z') ∨ ('A' ≤ c ∧ c ≤ 'Z') ∨ ('0' ≤ c ∧ c ≤ '9') ∨ c = '_' ∨ c = '-' ∨ c = '.' ∨ c = ':'

/-- The loop of `capyai_legacy_target_safe`, with the segment read so far. -/
def targetSafeFrom : List Char → List Char → Bool
  | [], _ => false
  | c :: cs, segment =>
    if c = nul then segment ≠ ['.', '.']
    else if c = '/' then if segment = ['.', '.'] then false else targetSafeFrom cs []
    else if targetChar c then targetSafeFrom cs (segment ++ [c])
    else false

def capyaiLegacyTargetSafe (target : List Char) : Bool :=
  if firstChar target = nul ∨ firstChar target = '-' then false else targetSafeFrom target []

/-- `cap_copy` into an array. -/
def capCopy (dst src : List Char) : List Char :=
  let text := src.take (dst.length - 1)
  (text ++ nul :: dst.drop (text.length + 1)).take dst.length

namespace CapyAiOutput
variable (out : CapyAiOutput)

def isTyped : Bool := capyaiTypedSpecs.any fun spec => capyaiBoundedEqual out.action spec.action

def findTypedSpec : Option TypedDispatchSpec :=
  capyaiTypedSpecs.find? fun spec =>
    out.risk = spec.risk && capyaiBoundedEqual out.action spec.action && capyaiBoundedEqual out.command spec.command

def findLegacySpec : Option LegacyDispatchSpec :=
  capyaiLegacySpecs.find? fun spec =>
    out.risk = spec.risk && capyaiBoundedEqual out.action spec.action && capyaiBoundedEqual out.command spec.command

def hasTarget : Bool := firstChar out.path ≠ nul

/-- `capyai_legacy_dispatch_valid`. -/
def legacyDispatchValid : Bool :=
  match out.findLegacySpec with
  | none => false
  | some spec =>
    if spec.targetMode = .none then !out.hasTarget
    else if !out.hasTarget then spec.targetMode = .optional
    else capyaiLegacyTargetSafe out.path

/-- `capyai_typed_dispatch_valid`. -/
def typedDispatchValid : Bool :=
  match out.findTypedSpec with
  | none => false
  | some spec =>
    if spec.targetMode = .none ∧ out.hasTarget then false
    else if spec.targetMode = .required ∧ (!out.hasTarget ∨ !capyaiLegacyTargetSafe out.path) then false
    else if spec.targetMode = .optional ∧ out.hasTarget ∧ !capyaiLegacyTargetSafe out.path then false
    else
      match spec.secondaryMode with
      | .none => firstChar out.content = nul
      | .textOptional => boundedTextSafeFrom false out.content 0
      | .textRequired => boundedTextSafeFrom true out.content 0
      | .pathRequired => capyaiLegacyTargetSafe out.content

/-- `cap_mark_slot_clarification`. -/
def askFor (question : String) : CapyAiOutput :=
  { out with needsClarification := true, clarifyingQuestion := capCopy out.clarifyingQuestion question.toList }

end CapyAiOutput

/-- The bytes of an array up to its NUL that are copied while there is room, if they end. -/
def copyBounded : List Char → Nat → Option (List Char)
  | [], _ => none
  | c :: cs, room =>
    if c = nul then some []
    else
      match room with
      | 0 => none
      | room + 1 => (copyBounded cs room).map (c :: ·)

/-- `capyai_build_command_line`, without the final NUL. -/
def capyaiBuildCommandLine (out : CapyAiOutput) : Option (List Char) :=
  if firstChar out.command = nul then none
  else
    match copyBounded out.command (capyaiCommandMax - 1) with
    | none => none
    | some command =>
      if !out.hasTarget then some command
      else if capyaiCommandMax < command.length + 2 then none
      else (copyBounded out.path (capyaiCommandMax - 1 - (command.length + 1))).map fun path => command ++ ' ' :: path

/-- The fragments of `capyai_command_is_blocked`. -/
def blockedFragments : List String :=
  ["rm -rf", "rm -fr", "mkfs", "dd if=", "> /dev/", ":()\x7b", "fork bomb", "format-volume", "remove-item -recurse", "del /s",
    "sudo rm", "vfs_rmdir_recursive /", "capy volume wipe"]

def capIcontains (hay needle : List Char) : Bool :=
  (List.range (hay.length + 1)).any fun i => (needle.map Char.toLower).isPrefixOf ((hay.map Char.toLower).drop i)

def capyaiCommandIsBlocked (command : List Char) : Bool := blockedFragments.any fun f => capIcontains command f.toList

namespace CapyaiEnv
variable (env : CapyaiEnv)

/-- An array read as a C string. -/
def cString (array : List Char) : List Char := (array ++ env.behind array).takeWhile (· ≠ nul)

def actionIs (out : CapyAiOutput) (action : String) : Bool := env.cString out.action = action.toList

def actionWritesLastFile (out : CapyAiOutput) : Bool :=
  ["file_edit_text", "file_create", "file_move", "dir_names_to_file", "dir_count_to_file"].any (env.actionIs out)

def actionRequiresPath (out : CapyAiOutput) : Bool :=
  ["dir_create", "file_create", "file_edit_text", "file_move", "file_read", "file_delete", "dir_delete", "dir_find", "app_open",
    "app_close", "power_schedule"].any (env.actionIs out)

def actionIsDelete (out : CapyAiOutput) : Bool := env.actionIs out "file_delete" || env.actionIs out "dir_delete"

/-- The questions that missing slots raise. -/
def askForSlots (out : CapyAiOutput) : CapyAiOutput :=
  if (env.actionIs out "app_open" || env.actionIs out "app_close") && !out.hasTarget then
    out.askFor "Qual aplicativo devo abrir ou fechar?"
  else if env.actionIs out "power_schedule" && !out.hasTarget then out.askFor "Para quando devo agendar o reinicio?"
  else if env.actionRequiresPath out && !out.hasTarget then out.askFor "Qual e o arquivo, pasta ou caminho alvo?"
  else if env.actionIs out "file_edit_text" && firstChar out.content = nul then out.askFor "Qual texto devo adicionar ao arquivo?"
  else if env.actionIs out "file_move" && firstChar out.content = nul then out.askFor "Qual e o caminho de destino?"
  else out

/-- The risk switch of `capyai_plan`. -/
def riskGate (perms : CapyaiPerms) (out : CapyAiOutput) : CapyaiDecision × String :=
  match out.risk with
  | .readOnly => (.allowed, "Leitura permitida.")
  | .writeFile | .network =>
    if perms.allowWrite then (.allowed, "Escrita liberada.") else (.blockedRisk, "Requer liberar escrita (--yes / botao Escrita).")
  | .systemChange =>
    if perms.allowSystemChange then (.allowed, "Mudanca de sistema liberada.")
    else (.blockedRisk, "Requer --allow-system-change (mudanca de sistema).")
  | .unknown => (.invalid, "Risco desconhecido.")

/-- `capyai_plan` from the slots on. -/
def gate (perms : CapyaiPerms) (out : CapyAiOutput) : CapyaiPlan :=
  let plan (decision : CapyaiDecision) (reason : List Char) : CapyaiPlan := ⟨out, decision, reason.take (capyaiReasonMax - 1)⟩
  if out.needsClarification then
    plan .needsClarification
      (if firstChar out.clarifyingQuestion ≠ nul then env.cString out.clarifyingQuestion
      else "Preciso de mais detalhes para executar com seguranca.".toList)
  else if capyaiCommandIsBlocked (env.cString out.command) then
    plan .blockedDenylist "Comando bloqueado por seguranca (fragmento destrutivo).".toList
  else if env.actionIsDelete out && !perms.allowDelete then
    plan .blockedRisk "Requer permissao de deletar (--allow-delete / botao Deletar).".toList
  else plan (riskGate perms out).1 (riskGate perms out).2.toList

/-- The slots of a prediction, with what the policy makes of them. -/
def slots (intent : List Char) (session : Option CapyaiSession) (predicted : CapyAiOutput) : CapyAiOutput :=
  let out := env.fillSlots intent predicted
  let out :=
    if env.strMax ≤ intent.length ∧ out.risk ≠ .readOnly then
      out.askFor "O pedido e longo demais; envie o caminho e o conteudo em uma mensagem menor."
    else out
  let out :=
    match session with
    | some session =>
      if firstChar session.lastFile ≠ nul ∧ env.actionWritesLastFile out ∧ !out.hasTarget then
        { out with path := capCopy out.path (env.cString session.lastFile) }
      else out
    | none => out
  env.askForSlots out

/-- `capyai_plan`. The texts are C strings; no permissions are none granted. -/
def capyaiPlan (model intent platform shell : List Char) (perms : Option CapyaiPerms) (session : Option CapyaiSession) :
    CapyaiPlan :=
  match env.predict model intent platform shell with
  | none => ⟨env.blank, .invalid, "Nao consegui interpretar o pedido (modelo indisponivel ou vazio).".toList⟩
  | some predicted => env.gate (perms.getD ⟨false, false, false⟩) (env.slots intent session predicted)

/-- `capyai_action_updates_last_file`. -/
def actionUpdatesLastFile (out : CapyAiOutput) : Bool :=
  ["file_create", "file_edit_text", "file_move", "dir_names_to_file", "dir_count_to_file"].any (env.actionIs out)

end CapyaiEnv

/-- A call of one of the two callbacks. -/
inductive CapyaiCall where
  | legacy (commandLine : List Char)
  | typed (out : CapyAiOutput)

/-- `struct capyai_exec_result`. -/
structure CapyaiExecResult where
  executed : Bool
  rc : Int
  detail : List Char

/-- The callbacks that the caller gave, each with what it returns; the typed one writes a
detail, read here up to its NUL. -/
structure CapyaiCallbacks where
  dispatch : Option (List Char → Int)
  typed : Option (CapyAiOutput → Int × List Char)

/-- What a call leaves: its plan, its result, the session and the calls it made. -/
structure CapyaiRun where
  plan : CapyaiPlan
  result : CapyaiExecResult
  session : Option CapyaiSession
  calls : List CapyaiCall

/-- `capyai_session_note_file`. -/
def CapyaiSession.noteFile (session : CapyaiSession) (path : List Char) : CapyaiSession :=
  if path = [] then session else { session with lastFile := capCopy session.lastFile path }

def pathSeparator (c : Char) : Bool := c = '/' ∨ c = '\\'

/-- A path from behind its last separator on. -/
def lastComponent (path : List Char) : List Char := (path.reverse.takeWhile fun c => !pathSeparator c).reverse

def movedPrefix : List Char := "arquivo movido: ".toList

def capyaiPathMax : Nat := 192

/-- The destination of a move, with the name of the file when it is a directory. -/
def resolvedDestination (path content : List Char) : List Char :=
  let resolved := content.take (capyaiPathMax - 1)
  if '.' ∉ (lastComponent content).tail ∧ resolved ≠ [] ∧ resolved.length + 1 < capyaiPathMax then
    let resolved := if resolved.getLast?.all pathSeparator then resolved else resolved ++ ['/']
    (resolved ++ lastComponent path).take (capyaiPathMax - 1)
  else resolved

namespace CapyaiEnv
variable (env : CapyaiEnv)

/-- `capyai_last_file_result_path`. -/
def lastFileResultPath (out : CapyAiOutput) (detail : List Char) : List Char :=
  if !capyaiBoundedEqual out.action "file_move".toList then env.cString out.path
  else if movedPrefix.isPrefixOf detail ∧ detail.drop movedPrefix.length ≠ [] then detail.drop movedPrefix.length
  else resolvedDestination (env.cString out.path) (env.cString out.content)

/-- The session after a dispatch, before the turn is counted. -/
def noted (out : CapyAiOutput) (rc : Int) (file : List Char) (session : Option CapyaiSession) : Option CapyaiSession :=
  if rc = 0 ∧ env.actionUpdatesLastFile out then session.map (·.noteFile file) else session

/-- The session after one more turn. -/
def turned (session : Option CapyaiSession) : Option CapyaiSession :=
  session.map fun session => { session with turns := (session.turns + 1) % 2 ^ 32 }

/-- A negative return code is 127. -/
def returnCode (rc : Int) : Int := if rc < 0 then 127 else rc

/-- `capyai_execute_intent_internal` after the plan. -/
def executePlan (callbacks : CapyaiCallbacks) (typedEnabled : Bool) (session : Option CapyaiSession) (plan : CapyaiPlan) : CapyaiRun :=
  let refused (reason : String) : CapyaiRun :=
    ⟨{ plan with decision := .invalid, reason := reason.toList }, ⟨false, 127, []⟩, turned session, []⟩
  if plan.decision = .allowed ∧ typedEnabled ∧ plan.out.isTyped then
    match callbacks.typed with
    | some typed =>
      if plan.out.typedDispatchValid then
        let rc := returnCode (typed plan.out).1
        let detail := (typed plan.out).2
        ⟨plan, ⟨true, rc, detail⟩, turned (env.noted plan.out rc (env.lastFileResultPath plan.out detail) session),
          [.typed plan.out]⟩
      else refused "Saida tipada invalida ou ferramenta nativa indisponivel."
    | none => refused "Saida tipada invalida ou ferramenta nativa indisponivel."
  else
    match plan.decision, callbacks.dispatch with
    | .allowed, some dispatch =>
      if !plan.out.legacyDispatchValid then refused "Saida do modelo nao corresponde a uma ferramenta segura."
      else
        match capyaiBuildCommandLine plan.out with
        | none => ⟨plan, ⟨false, 127, []⟩, turned session, []⟩
        | some line =>
          let rc := returnCode (dispatch line)
          ⟨plan, ⟨true, rc, []⟩, turned (env.noted plan.out rc (env.cString plan.out.path) session), [.legacy line]⟩
    | _, _ => ⟨plan, ⟨false, 0, []⟩, turned session, []⟩

end CapyaiEnv

variable (env : CapyaiEnv) (model intent platform shell : List Char) (perms : Option CapyaiPerms)
  (session : Option CapyaiSession)

def capyaiExecuteIntent (dispatch : Option (List Char → Int)) : CapyaiRun :=
  env.executePlan ⟨dispatch, none⟩ false session (env.capyaiPlan model intent platform shell perms session)

def capyaiExecuteIntentV2 (callbacks : CapyaiCallbacks) : CapyaiRun :=
  env.executePlan callbacks true session (env.capyaiPlan model intent platform shell perms session)

end CapyOS
