import Foundrix.OperatorSecrets.Submission

/-!
# The wire protocol and the verdicts

What the daemon and its clients send each other, and how the output of a validator becomes
a verdict.
-/

namespace Foundrix.OperatorSecrets

open Text

/-! ## Snapshots and messages -/

inductive SecretState where
  | pending
  | checking
  | needsInput
  | validating
  | satisfied
  /-- The validator could not decide. -/
  | undecided
deriving DecidableEq, Repr

structure SecretStatus where
  name : String
  description : String
  state : SecretState
  detail : String
deriving DecidableEq, Repr

/-- One outstanding secret, presented as a form. -/
structure Prompt where
  id : Nat
  secret : String
  description : String
  reason : String
  fields : List PromptField
deriving DecidableEq, Repr

/-- The whole UI state; a fresh one is sent on every change. -/
structure Snapshot where
  phase : String := ""
  message : String := ""
  blocked : Bool := false
  secrets : List SecretStatus := []
  prompt : Option Prompt := none
  done : Bool := false
  choosing : Bool := false
deriving DecidableEq, Repr

inductive ClientMsg where
  /-- Answer to the prompt of this id. -/
  | submit (promptId : Nat) (values : Values)
  /-- Re-enter a stored secret. -/
  | edit (secret : String)
deriving DecidableEq, Repr

/-- The first secret of this name gets a new state and detail. -/
def setStatus (name : String) (state : SecretState) (detail : String) :
    List SecretStatus → List SecretStatus
  | [] => []
  | e :: rest =>
    if e.name == name then { e with state, detail } :: rest
    else e :: setStatus name state detail rest

/-! ## Verdicts -/

structure Verdict where
  status : ValidatorStatus
  message : String
deriving DecidableEq, Repr

namespace Verdict

def error (message : String) : Verdict := ⟨.error, message⟩

def valid : Verdict := ⟨.valid, ""⟩

def invalid (message : String) : Verdict := ⟨.invalid, message⟩

end Verdict

def parseValidatorOutput [Externals] (stdout : String) : Verdict :=
  let trimmed := trim stdout
  if trimmed = "" then .error "validator produced no output"
  else
    match Externals.responseFromStr trimmed with
    | .ok r => ⟨r.status, r.message.getD ""⟩
    | .error e => .error s!"validator output is not a verdict object: {e}"

def redactValues (text : String) (values : Values) : String :=
  values.foldl (fun out kv =>
    if kv.2.length ≥ 4 && contains out kv.2 then replace out kv.2 "«redacted»" else out) text

/-- How a child process ended. -/
inductive ExitOutcome where
  | success
  /-- It exited with another status, here in words, or by a signal. -/
  | failure (status : String)
  | waitFailed (e : String)
deriving DecidableEq, Repr

/-- What came of running a validator. -/
inductive ValidatorOutcome where
  | unserialized (e : String)
  | unspawned (e : String)
  | noStdin
  | timedOut
  /-- It ended, with these bytes on its two output pipes (decoded lossily). -/
  | answered (stdout stderr : String) (status : ExitOutcome)
deriving DecidableEq, Repr

/-- The text of stderr as a diagnostic: redacted, then cut at 400 characters. -/
def stderrDetail (stderr : String) (values : Values) : String :=
  let err := redactValues stderr values
  if err.length > 400 then String.ofList (err.toList.take 400) ++ "…" else err

/-- What `validate` makes of the outcome of the validator `program`. -/
def verdictOf [Externals] (program : String) (values : Values) (timeout : Nat) :
    ValidatorOutcome → Verdict
  | .unserialized e => .error s!"serializing validator request: {e}"
  | .unspawned e => .error s!"spawning validator {program}: {e}"
  | .noStdin => .error "validator has no stdin pipe"
  | .timedOut => .error s!"validator did not answer within {timeout}s — cannot decide"
  | .answered stdout stderr status =>
    let verdict := parseValidatorOutput (trim stdout)
    if verdict.status = .error then
      let detail := match status with
        | .success => verdict.message
        | .failure c => s!"{verdict.message} ({c})"
        | .waitFailed e => s!"{verdict.message} (wait failed: {e})"
      let err := trim stderr
      { verdict with
        message := if err = "" then detail else s!"{detail}; stderr: {stderrDetail err values}" }
    else verdict

/-- The verdict on a secret without a validator: every declared field present and not empty. -/
def presenceVerdict (s : SecretSpec) (values : Values) : Verdict :=
  match s.fields.find? fun f => !(values.find? fun kv => kv.1 == f.name).any (·.2 != "") with
  | some f => .invalid (s!"field {f.name} is missing or empty (no validator configured; all " ++
      "declared fields must be present and non-empty)")
  | none => .valid

/-! ## Owner and group -/

/-- Resolve a name in a text of the form of `/etc/passwd`; a number stands for itself. -/
def lookupId (db name : String) : Option Nat :=
  match parseUnsigned 32 name with
  | some n => some n
  | none => (lines db).findSome? fun line =>
    match split line ':' with
    | n :: _ :: id :: _ => if n = name then parseUnsigned 32 id else none
    | _ => none

/-! ## Facts about verdicts -/

/-- Values that fill the fields of a secret without a validator are proven by that alone. -/
theorem presenceVerdict_of_fills {s : SecretSpec} {m : EnvMap} {vs : Values}
    (h : Fills s.fieldNames m vs) : presenceVerdict s vs = .valid := by
  have key : s.fields.find? (fun f =>
      !(vs.find? fun kv => kv.1 == f.name).any (·.2 != "")) = none := by
    rw [List.find?_eq_none]
    intro f hf
    have hname : f.name ∈ vs.map Prod.fst := h.names ▸ List.mem_map_of_mem hf
    obtain ⟨kv, hkv, hk⟩ := List.mem_map.mp hname
    cases hfind : vs.find? fun kv => kv.1 == f.name with
    | none =>
      have := List.find?_eq_none.mp hfind kv hkv
      simp [hk] at this
    | some kv' =>
      have hc := (h.values kv' (List.mem_of_find?_eq_some hfind)).2
      have hne : kv'.2 ≠ "" := by
        intro he
        rw [he] at hc
        exact absurd hc (by decide)
      simp [hne]
  unfold presenceVerdict
  rw [key]

end Foundrix.OperatorSecrets
