import Mathlib.Logic.Function.Basic
import Foundrix.Effect.Script
import Foundrix.Machine.Trace

/-!
# The service of a generated secret

`mkSecretService` of `services/secrets.nix` for a secret without scripts of its own: the files
that a run writes, and runs that are cut anywhere, with the secret removed in between.

* `Secret`, `script`, `service`: the configuration, the script and its unit condition.
* `Done`, `Failed`, `shell`: what its commands do to the files.
* `Matches`: the variant belongs to the secret.
-/

namespace Foundrix.GeneratedSecrets

open Effect Machine

structure Secret where
  name : String
  owner : String := "root"
  group : Option String := none
  mode : String := "0400"
  persistent : Bool := true
  length : Nat := 32
  binary : Bool := false
  symbols : Bool := false
  /-- The bytes of the prefix and of the suffix. -/
  before : List UInt8 := []
  after : List UInt8 := []
  runAs : String := "root"
  runAsGroup : Option String := none
deriving DecidableEq, Repr

namespace Secret

variable (s : Secret)

def path : String := "/" ++ (if s.persistent then "var" else "run") ++ "/credentials/" ++ s.name

def variantPath : String := s.path ++ ".variant"

def pathNew : String := s.path ++ ".new"

def variantNew : String := s.variantPath ++ ".new"

def fileGroup : String := s.group.getD s.owner

def runGroup : String := s.runAsGroup.getD s.runAs

end Secret

/-- A file, with the mode as it was last given to `install` or `chmod`. -/
structure File where
  content : List UInt8
  owner : String
  group : String
  mode : String
deriving DecidableEq, Repr

abbrev Files := String → Option File

/-! ## The script -/

/-- The commands of the script. -/
inductive Cmd where
  /-- `ConditionFileNotEmpty=!path` of the unit: the file is missing or empty. -/
  | conditionEmpty (path : String)
  /-- `install -Dm600 /dev/null path`, as the user of the service. -/
  | install (path : String)
  /-- `openssl rand length > path`, or `pwgen … length 1 | tr -d '\n' > path`. -/
  | generate (binary symbols : Bool) (length : Nat) (path : String)
  /-- `[ "$(tail -c 1 path | wc -l)" = 1 ]`. -/
  | endsInNewline (path : String)
  /-- `truncate --size=-1 path`. -/
  | dropLast (path : String)
  /-- `cat before path after > target`. -/
  | concat (before : List UInt8) (path : String) (after : List UInt8) (target : String)
  | chown (owner group : String) (paths : List String)
  | chmod (mode : String) (paths : List String)
  | sync (paths : List String)
  | mv (source target : String)

/-- A command is answered by whether it succeeded. -/
inductive Op : Type → Type
  | run (c : Cmd) : Op Bool

def sh (c : Cmd) : Prog Op Unit Unit := must (.run c)

/-- The end of the secret file is cut where it is a newline. -/
def trimNewline (s : Secret) : Prog Op Unit Unit := do
  if s.binary then return ()
  else if ← .perform (.run (.endsInNewline s.pathNew)) then sh (.dropLast s.pathNew)
  else return ()

def script (s : Secret) : Prog Op Unit Unit := do
  sh (.install s.pathNew)
  sh (.install s.variantNew)
  sh (.generate s.binary s.symbols s.length s.pathNew)
  trimNewline s
  sh (.concat s.before s.pathNew s.after s.variantNew)
  sh (.chown s.owner s.fileGroup [s.pathNew, s.variantNew])
  sh (.chmod s.mode [s.pathNew, s.variantNew])
  sh (.sync [s.pathNew, s.variantNew])
  -- The secret goes last, because the unit condition checks only the secret.
  sh (.mv s.variantNew s.variantPath)
  sh (.mv s.pathNew s.path)

/-- A start of the unit: nothing is done where the secret is there. -/
def service (s : Secret) : Prog Op Unit Unit := do
  if ← .perform (.run (.conditionEmpty s.path)) then script s
  else return ()

/-! ## The files -/

/-- `fs'` differs from `fs` in nothing but the files at these paths. -/
def Touches (paths : List String) (fs fs' : Files) : Prop := ∀ q, q ∉ paths → fs' q = fs q

def Blank (path : String) (fs : Files) : Prop := ∀ f, fs path = some f → f.content = []

def EndsInNewline (path : String) (fs : Files) : Prop :=
  ∃ f, fs path = some f ∧ f.content.getLast? = some 10

/-- A change to each of the files. -/
def changeAll (change : File → File) (paths : List String) (fs : Files) : Files :=
  fun q => if q ∈ paths then (fs q).map change else fs q

/-- What a redirection leaves at its target, which it creates where it is missing. -/
def redirected (s : Secret) (fs : Files) (target : String) (content : List UInt8) : Files :=
  Function.update fs target (some (match fs target with
    | some f => { f with content }
    | none => { content, owner := s.runAs, group := s.runGroup, mode := "0644" }))

/-- What a command that succeeds does to the files. -/
def Done (s : Secret) (c : Cmd) (fs fs' : Files) : Prop :=
  match c with
  | .conditionEmpty path => Blank path fs ∧ fs' = fs
  | .install path => fs' = Function.update fs path
      (some { content := [], owner := s.runAs, group := s.runGroup, mode := "600" })
  | .generate binary _ _ path => ∃ content : List UInt8,
      (binary = false → (10 : UInt8) ∉ content) ∧ fs' = redirected s fs path content
  | .endsInNewline path => EndsInNewline path fs ∧ fs' = fs
  | .dropLast path =>
    fs' = changeAll (fun f => { f with content := f.content.dropLast }) [path] fs
  | .concat before path after target =>
    ∃ f, fs path = some f ∧ fs' = redirected s fs target (before ++ f.content ++ after)
  | .chown owner group paths => fs' = changeAll (fun f => { f with owner, group }) paths fs
  | .chmod mode paths => fs' = changeAll (fun f => { f with mode }) paths fs
  | .sync _ => fs' = fs
  | .mv source target => ∃ f, fs source = some f ∧
      fs' = Function.update (Function.update fs target (some f)) source none

/-- What a command that fails may have done: a file that it writes may be in any state. -/
def Failed (c : Cmd) (fs fs' : Files) : Prop :=
  match c with
  | .conditionEmpty path => ¬ Blank path fs ∧ fs' = fs
  | .install path => Touches [path] fs fs'
  | .generate _ _ _ path => Touches [path] fs fs'
  | .endsInNewline path => ¬ EndsInNewline path fs ∧ fs' = fs
  | .dropLast path => Touches [path] fs fs'
  | .concat _ _ _ target => Touches [target] fs fs'
  | .chown _ _ paths => Touches paths fs fs'
  | .chmod _ paths => Touches paths fs fs'
  | .sync _ => fs' = fs
  | .mv _ _ => fs' = fs

def shell (s : Secret) : Handler Op Files where
  step e fs b fs' := match e with
    | .run c => match b with
      | true => Done s c fs fs'
      | false => Failed c fs fs'

/-! ## Runs and deletions -/

inductive Act where
  /-- A start of the unit that is cut anywhere, or goes to its end. -/
  | run
  /-- The operator deletes the secret. -/
  | delete
deriving DecidableEq, Repr

def step (s : Secret) (fs : Files) (a : Act) (fs' : Files) : Prop :=
  match a with
  | .run => ∃ o, Run (shell s) (service s) fs o fs'
  | .delete => fs' = Function.update fs s.path none

/-- The file has the owner, the group and the mode that are configured. -/
structure Configured (s : Secret) (f : File) : Prop where
  owner : f.owner = s.owner
  group : f.group = s.fileGroup
  mode : f.mode = s.mode

/-- Where the secret is not empty, the variant is the secret between prefix and suffix. -/
def Matches (s : Secret) (fs : Files) : Prop :=
  ∀ f, fs s.path = some f → f.content ≠ [] → Configured s f ∧
    ∃ g, fs s.variantPath = some g ∧ g.content = s.before ++ f.content ++ s.after ∧
      Configured s g

end Foundrix.GeneratedSecrets
