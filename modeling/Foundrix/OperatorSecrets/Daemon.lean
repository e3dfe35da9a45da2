import Foundrix.OperatorSecrets.World

/-!
# operator-secretsd

The daemon of `packages/operator-secrets/src/bin/daemon.rs`, function by function, as
programs over the operations of `World`. A panic ends the process; an error is returned
with its chain of contexts joined.
-/

namespace Foundrix.OperatorSecrets

open Text Effect

/-- Why a function of the daemon did not return a value. -/
inductive Stop where
  | error (message : String)
  | panic (message : String)
deriving DecidableEq, Repr

/-- A program of the daemon. -/
abbrev Daemon (α : Type) := Prog Op Stop α

namespace Daemon

/-- `bail!`. -/
def bail {α : Type} (message : String) : Daemon α := Prog.fail (.error message)

/-- `?` on an I/O result with a context. -/
def withContext (context : String) (e : Op (Except IoError Unit)) : Daemon Unit := do
  match ← Prog.perform e with
  | .ok () => pure ()
  | .error e => bail s!"{context}: {e.text}"

end Daemon

open Daemon

/-- The command line. -/
structure Cli where
  spec : String
  socket : String
  validatorTimeoutSecs : Nat := 60
  retryIntervalSecs : Nat := 30
  edit : Bool := false

/-! ## The UI -/

namespace Ui

def mutate (f : Snapshot → Snapshot) : Daemon Unit := Prog.perform (.mutate f)

def state (phase message : String) : Daemon Unit := do
  Prog.perform (.eprintln s!"operator-secrets: {message}")
  mutate fun s => { s with phase, message }

def setSecret (name : String) (state : SecretState) (detail : String) : Daemon Unit :=
  mutate fun s => { s with secrets := setStatus name state detail s.secrets }

def blocked (blocked : Bool) : Daemon Unit := mutate fun s => { s with blocked }

/-- Wait for the answer to the prompt `id`; everything else that arrives is dropped. -/
def waitForSubmission (id : Nat) : Daemon Values :=
  Prog.iterate (fun _ : Unit => do
    match ← Prog.perform .tryRecv with
    | some (.submit promptId values) =>
      if promptId = id then pure (.inr values) else pure (.inl ())
    | some (.edit _) => pure (.inl ())
    | none =>
      Prog.perform (.sleep 100)
      pure (.inl ())) ()

/-- Wait for the secret that an edit session's operator chooses. -/
def waitForChoice : Daemon String :=
  Prog.iterate (fun _ : Unit => do
    match ← Prog.perform .tryRecv with
    | some (.edit secret) => pure (.inr secret)
    | some (.submit _ _) => pure (.inl ())
    | none =>
      Prog.perform (.sleep 100)
      pure (.inl ())) ()

/-- The form for a secret. -/
def form (spec : SecretSpec) (id : Nat) (reason : String) (known : EnvMap) : Prompt where
  id
  secret := spec.name
  description := spec.description
  reason
  fields := promptFields spec known

/-- Post a form and wait for the first complete answer; a rejected one prompts again. -/
def ask [Externals] (spec : SecretSpec) (reason : String) (known : EnvMap) : Daemon Values :=
  Prog.iterate (fun (known, reason) => do
    let id ← Prog.perform .nextPromptId
    mutate fun s => { s with prompt := some (form spec id reason known) }
    let values ← waitForSubmission id
    mutate fun s => { s with prompt := none }
    match acceptSubmission spec values with
    | .ok v => pure (.inr v)
    | .error e =>
      let reason := s!"rejected: {e}"
      state "prompt" s!"{spec.name}: submission {reason}"
      pure (.inl (shownValues spec values, reason))) (known, reason)

end Ui

/-! ## The validator -/

section Validator

variable [Externals]

def validate (spec : SecretSpec) (values : Values) (timeout : Nat) : Daemon Verdict :=
  match spec.validateCommand with
  | none => pure (presenceVerdict spec values)
  | some [] => Prog.fail (.panic "index out of bounds")
  | some (program :: args) => do
    let outcome ← Prog.perform (.runValidator (program :: args) values timeout)
    pure (verdictOf program values timeout outcome)

/-- Validate again and again until the validator can decide. -/
def validateUntilDecided (spec : SecretSpec) (values : Values) (what : String)
    (timeout retry : Nat) : Daemon Verdict :=
  Prog.iterate (fun attempt : Nat => do
    let attempt := attempt + 1
    Ui.setSecret spec.name .validating s!"validating {what}"
    let verdict ← validate spec values timeout
    if verdict.status ≠ .error then
      if attempt > 1 then
        Ui.blocked false
        pure (.inr verdict)
      else pure (.inr verdict)
    else
      Ui.setSecret spec.name .undecided s!"validator cannot decide: {verdict.message}"
      Ui.blocked true
      Ui.state "undecided" (s!"{spec.name}: validator cannot decide ({verdict.message}); " ++
        s!"nothing written, nothing discarded — retrying in {retry}s (attempt {attempt})")
      Prog.perform (.sleep (retry * 1000))
      pure (.inl attempt)) 0

end Validator

/-! ## Writing -/

structure Ids where
  uid : Nat
  gid : Nat
deriving DecidableEq, Repr

def getent (db name : String) : Daemon (Option Nat) := do
  let out ← Prog.perform (.getent db name)
  pure (out.bind fun text => lookupId text name)

/-- A name's id in the flat file, else from `getent`. -/
def resolveId (text db name : String) : Daemon (Option Nat) :=
  match lookupId text name with
  | some id => pure (some id)
  | none => getent db name

def resolveIds [Externals] (spec : SecretSpec) : Daemon Ids := do
  let passwd ← Prog.perform (.readDb "/etc/passwd")
  let group ← Prog.perform (.readDb "/etc/group")
  match ← resolveId passwd "passwd" spec.owner with
  | none => bail (s!"secret {spec.name}: unknown owner " ++ Externals.debugStr spec.owner)
  | some uid =>
    match ← resolveId group "group" spec.groupName with
    | none => bail (s!"secret {spec.name}: unknown group " ++ Externals.debugStr spec.groupName)
    | some gid => pure ⟨uid, gid⟩

/-- The temp file of a destination in the directory `dir`, for the process `pid`. -/
def tempPath (pid : Nat) (dir path : String) : String :=
  let name := (fileName path).getD "secret"
  joinPath dir s!".{name}.tmp.{pid}"

/-- A step after the temp file is complete: if it fails the temp file is removed. -/
def orCleanup (tmp context : String) (c : FileOp) : Daemon Unit := do
  match ← Prog.perform (.file c) with
  | .ok () => pure ()
  | .error e =>
    let _ ← Prog.perform (.file (.removeFile tmp))
    bail s!"{context}: {e.text}"

/-- Write the env-file: a temp file with mode 0600, then its owner, its mode and its name. -/
def writeSecret (pid : Nat) (spec : SecretSpec) (ids : Ids) (values : Values) : Daemon Unit :=
  match parent spec.path with
  | none => bail "secret path has no parent directory"
  | some dir => do
    withContext s!"creating {dir}" (.file (.createDirAll dir))
    match parseMode spec.mode with
    | none => bail "invalid mode"
    | some mode =>
      let tmp := tempPath pid dir spec.path
      let _ ← Prog.perform (.file (.removeFile tmp))
      withContext s!"creating {tmp}" (.file (.createNew tmp 0o600))
      withContext "writing secret" (.file (.writeAll tmp (encodeEnvFile values)))
      withContext "syncing secret" (.file (.syncAll tmp))
      orCleanup tmp s!"chown {tmp}" (.chown tmp ids.uid ids.gid)
      orCleanup tmp s!"chmod {tmp}" (.setPermissions tmp mode)
      orCleanup tmp s!"rename into {spec.path}" (.rename tmp spec.path)
      Prog.perform (.syncDir dir)

/-- `with_context` on what a program returns. -/
def contextOf {α : Type} (context : String) (p : Daemon α) : Daemon α := do
  match ← p.attempt with
  | .ok a => pure a
  | .error (.error e) => bail s!"{context}: {e}"
  | .error (.panic m) => Prog.fail (.panic m)

/-! ## One secret -/

section Secret

variable [Externals]

/-- Ask until an answer is accepted, then write it. -/
def promptUntilAccepted (pid : Nat) (spec : SecretSpec) (ids : Ids) (known : EnvMap)
    (reason : String) (timeout retry : Nat) : Daemon Unit :=
  Prog.iterate (fun (known, reason) => do
    Ui.setSecret spec.name .needsInput reason
    let values ← Ui.ask spec reason known
    let verdict ← validateUntilDecided spec values "entered credentials" timeout retry
    match verdict.status with
    | .valid =>
      contextOf s!"writing {spec.path}" (writeSecret pid spec ids values)
      Ui.setSecret spec.name .satisfied "accepted and written"
      Ui.state "check" s!"{spec.name}: accepted and written to {spec.path}"
      pure (.inr ())
    | .invalid =>
      let reason :=
        if verdict.message = "" then "rejected by the validator"
        else s!"rejected by the validator: {verdict.message}"
      Ui.state "prompt" s!"{spec.name}: {reason}"
      pure (.inl (shownValues spec values, reason))
    | .error => Prog.fail (.panic "validate_until_decided never returns error")) (known, reason)

/-- The stored values of the fields that are not sensitive, after a rejection. -/
def storedShown (spec : SecretSpec) (values : Values) : EnvMap :=
  EnvMap.empty.insertAll ((spec.fields.filter fun f => !f.sensitive).filterMap fun f =>
    values.find? fun kv => kv.1 == f.name)

/-- The entries of a map that may be shown. -/
def shownOf (spec : SecretSpec) (usable : EnvMap) : EnvMap :=
  fun k => if spec.shows k then usable k else none

/-- From what is stored of a secret to the satisfied state. -/
def satisfyStored (pid : Nat) (spec : SecretSpec) (ids : Ids) (timeout retry : Nat)
    (stored : Option EnvMap) : Daemon Unit :=
  match classifyStored spec stored with
  | .absent => do
    Ui.state "prompt" s!"{spec.name}: not stored yet"
    promptUntilAccepted pid spec ids EnvMap.empty "no credentials stored yet" timeout retry
  | .incomplete reason usable => do
    Ui.state "prompt" s!"{spec.name}: {reason}"
    promptUntilAccepted pid spec ids (shownOf spec usable) reason timeout retry
  | .complete values => do
    let verdict ← validateUntilDecided spec values "stored credentials" timeout retry
    match verdict.status with
    | .valid =>
      Ui.setSecret spec.name .satisfied "stored credentials valid"
      Ui.state "check" s!"{spec.name}: stored credentials valid"
    | .invalid =>
      -- the file stays untouched until a replacement is proven
      let reason :=
        if verdict.message = "" then "stored credentials were rejected"
        else s!"stored credentials were rejected: {verdict.message}"
      Ui.state "prompt" s!"{spec.name}: {reason}"
      promptUntilAccepted pid spec ids (storedShown spec values) reason timeout retry
    | .error => Prog.fail (.panic "validate_until_decided never returns error")

/-- Bring one secret to the satisfied state. -/
def satisfy (pid : Nat) (spec : SecretSpec) (ids : Ids) (timeout retry : Nat) :
    Daemon Unit := do
  Ui.setSecret spec.name .checking "reading stored file"
  Ui.state "check" s!"{spec.name}: checking stored credentials"
  match ← Prog.perform (.readToString spec.path) with
  | .ok text => satisfyStored pid spec ids timeout retry (some (parseEnvFile text))
  | .error e =>
    if e.kind = .notFound then satisfyStored pid spec ids timeout retry none
    else bail s!"reading {spec.path}: {e.text}"

/-! ## An edit session -/

/-- What an edit session says of a stored secret, without validating it. -/
def storedStatus (spec : SecretSpec) (stored : Option EnvMap) : SecretState × String :=
  match classifyStored spec stored with
  | .absent => (.needsInput, "not stored yet")
  | .incomplete reason _ => (.needsInput, reason)
  | .complete _ => (.satisfied, s!"stored in {spec.path}")

/-- `read_to_string(..).ok()`, parsed. -/
def readStored (spec : SecretSpec) : Daemon (Option EnvMap) := do
  match ← Prog.perform (.readToString spec.path) with
  | .ok text => pure (some (parseEnvFile text))
  | .error _ => pure none

def publishStored : List SecretSpec → Daemon Unit
  | [] => pure ()
  | s :: rest => do
    let stored ← readStored s
    let (state, detail) := storedStatus s stored
    Ui.setSecret s.name state detail
    publishStored rest

/-- The stored values of the fields that are not sensitive. -/
def editKnown (spec : SecretSpec) (stored : EnvMap) : EnvMap :=
  EnvMap.empty.insertAll ((spec.fields.filter fun f => !f.sensitive).filterMap fun f =>
    (stored f.name).map fun v => (f.name, v))

/-- The snapshot of a run that is over. -/
def finished (s : Snapshot) : Snapshot := { s with done := true, blocked := false, prompt := none }

def editSession (pid : Nat) (spec : Spec) (ids : List Ids) (timeout retry : Nat) :
    Daemon Unit := do
  publishStored spec.secrets
  Ui.mutate fun s => { s with choosing := true }
  Ui.state "choose" "select the secret to re-enter"
  let chosen ← Ui.waitForChoice
  Ui.mutate fun s => { s with choosing := false }
  match (spec.secrets.zip ids).find? fun x => x.1.name == chosen with
  | none => bail s!"no secret named {chosen} on this host"
  | some (secret, secretIds) =>
    let stored ← readStored secret
    Ui.state "prompt" s!"{secret.name}: re-entering"
    promptUntilAccepted pid secret secretIds (editKnown secret (stored.getD EnvMap.empty))
      "re-entering at the operator's request" timeout retry
    Ui.mutate finished
    Ui.state "done" s!"{secret.name} updated"

end Secret

/-! ## The run -/

/-- `{:04o}`. -/
def modeText (mode : Nat) : String :=
  String.ofList (List.replicate (4 - (Nat.toDigits 8 mode).length) '0' ++ Nat.toDigits 8 mode)

/-- The directories above `dir`. -/
def createAbove (dir : String) : Daemon Unit :=
  match parent dir with
  | some up => withContext s!"creating {up}" (.file (.createDirAll up))
  | none => pure ()

/-- The directory of the socket has to be the daemon's own, and closed to others. -/
def prepareSocketDir (dir : String) : Daemon Unit := do
  createAbove dir
  match ← Prog.perform (.createDir dir 0o700) with
  | .ok () => pure ()
  | .error e =>
    if e.kind ≠ .alreadyExists then bail s!"creating {dir}: {e.text}"
    else
      match ← Prog.perform (.metadata dir) with
      | .error e => bail s!"stat {dir}: {e.text}"
      | .ok info =>
        if !info.isDir then bail s!"{dir} exists and is not a directory"
        else
          let euid ← Prog.perform .geteuid
          if info.uid ≠ euid ∨ info.mode % 0o100 ≠ 0 then
            bail (s!"{dir} already exists and is not private to this daemon's owner (owned by " ++
              s!"uid {info.uid}, we are uid {euid}, mode {modeText (info.mode % 0o1000)}); " ++
              "refusing to narrow a directory this daemon does not own — point --socket at a " ++
              "dedicated directory instead")
          else pure ()

def prepareSocketParent (socket : String) : Daemon Unit :=
  match parent socket with
  | some dir => prepareSocketDir dir
  | none => pure ()

section Run

variable [Externals]

def resolveAll : List SecretSpec → Daemon (List Ids)
  | [] => pure []
  | s :: rest => do
    let ids ← resolveIds s
    let more ← resolveAll rest
    pure (ids :: more)

/-- The secrets are brought to the satisfied state one after the other. -/
def satisfyAll (pid timeout retry : Nat) : List (SecretSpec × Ids) → Daemon Unit
  | [] => pure ()
  | (s, ids) :: rest => do
    satisfy pid s ids timeout retry
    satisfyAll pid timeout retry rest

/-- The secrets as they are first published. -/
def initialStatus (s : SecretSpec) : SecretStatus := ⟨s.name, s.description, .pending, ""⟩

def run (pid : Nat) (cli : Cli) : Daemon Unit := do
  match ← Prog.perform (.readSpec cli.spec) with
  | .error e => bail s!"reading spec {cli.spec}: {e.text}"
  | .ok text =>
    match Spec.parse text with
    | .error e => bail e
    | .ok spec =>
      let ids ← resolveAll spec.secrets
      prepareSocketParent cli.socket
      Prog.perform .removeSocket
      withContext "binding control socket" .bindSocket
      withContext "restricting control socket" (.restrictSocket 0o600)
      Ui.mutate fun s => { s with secrets := spec.secrets.map initialStatus }
      let timeout := cli.validatorTimeoutSecs
      let retry := cli.retryIntervalSecs
      if cli.edit then
        match ← (editSession pid spec ids timeout retry).attempt with
        | .error (.panic m) => Prog.fail (.panic m)
        | result =>
          Prog.perform (.sleep 200)
          Prog.perform .removeSocket
          Prog.orFail result
      else
        satisfyAll pid timeout retry (spec.secrets.zip ids)
        Ui.mutate finished
        Ui.state "done" "all operator-provided secrets satisfied; boot continuing"
        Prog.perform (.sleep 200)
        Prog.perform .removeSocket

/-- The process: its exit status. -/
def main (pid : Nat) (cli : Cli) : Daemon Nat := do
  match ← (run pid cli).attempt with
  | .ok () => pure 0
  | .error (.panic m) => Prog.fail (.panic m)
  | .error (.error e) =>
    Prog.perform (.eprintln s!"operator-secrets: FAILED: {e}")
    Prog.perform (.writeState s!"FAILED: {e}")
    pure 1

end Run

/-! ## What is done before the first secret -/

/-- The operations of the daemon on its surroundings; no secret and no client is involved. -/
def Setup : {β : Type} → Op β → Prop
  | _, .mutate _ | _, .nextPromptId | _, .tryRecv | _, .runValidator _ _ _ => False
  | _, .readToString _ => False
  | _, .file c => c.touches = []
  | _, _ => True

theorem resolveId_setup (text db name : String) : (resolveId text db name).Only Setup := by
  unfold resolveId
  cases lookupId text name with
  | some id => trivial
  | none => exact Prog.only_bind (Prog.only_perform trivial) fun _ => trivial

theorem resolveIds_setup [Externals] (spec : SecretSpec) : (resolveIds spec).Only Setup := by
  refine Prog.only_bind (Prog.only_perform trivial) fun passwd =>
    Prog.only_bind (Prog.only_perform trivial) fun group =>
      Prog.only_bind (resolveId_setup _ _ _) fun uid => ?_
  cases uid with
  | none => trivial
  | some uid =>
    refine Prog.only_bind (resolveId_setup _ _ _) fun gid => ?_
    cases gid <;> trivial

theorem withContext_setup {e : Op (Except IoError Unit)} (context : String) (he : Setup e) :
    (Daemon.withContext context e).Only Setup := by
  refine Prog.only_bind (Prog.only_perform he) fun r => ?_
  cases r <;> trivial

theorem prepareSocketDir_setup (dir : String) : (prepareSocketDir dir).Only Setup := by
  refine Prog.only_bind ?_ fun _ => Prog.only_bind (Prog.only_perform (by trivial)) fun r => ?_
  · unfold createAbove
    cases parent dir with
    | none => trivial
    | some up => exact withContext_setup _ rfl
  · rcases r with e | u
    · dsimp only
      split
      · trivial
      · refine Prog.only_bind (Prog.only_perform (by trivial)) fun r => ?_
        rcases r with e | info
        · trivial
        · dsimp only
          split
          · trivial
          · refine Prog.only_bind (Prog.only_perform (by trivial)) fun euid => ?_
            split <;> trivial
    · trivial

theorem prepareSocketParent_setup (socket : String) : (prepareSocketParent socket).Only Setup := by
  unfold prepareSocketParent
  cases parent socket with
  | none => trivial
  | some dir => exact prepareSocketDir_setup dir

end Foundrix.OperatorSecrets
