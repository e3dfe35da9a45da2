import Foundrix.Effect.Prog
import Foundrix.Text.Json
import Foundrix.Text.Str

/-!
# The Stalwart client

`StalwartClient` of `services/stalwart-configure.ts`, which the configure script and the
self-service API share, and the mail server as far as the two change it. The HTTP answers
are values of any kind, as the client reads them without a check.

* `Runtime`, `truthy`, `includes`: what JavaScript does with a value of any kind.
* `Call`, `Reply`, `request`: the calls of the management API.
* `Account`, `Update.apply`: what an update does to a principal.
-/

namespace Foundrix.Stalwart

open Text Effect

/-! ## JavaScript values -/

/-- What the scripts use of the language beyond `Json` itself. -/
structure Runtime where
  toLowerCase : String → String
  /-- A text in lower case stays as it is. -/
  toLowerCase_idem : ∀ s, toLowerCase (toLowerCase s) = toLowerCase s
  /-- Whether a number as it is written has the value zero. -/
  isZero : String → Bool
  /-- A value in a template literal, `undefined` included; `none` where this throws. -/
  text : Option Json → Option String
  text_string : ∀ s, text (some (.string s)) = some s
  stringify : Json → String

/-- The runtime on texts of ASCII characters. -/
def ascii : Runtime where
  toLowerCase := toAsciiLowercase
  toLowerCase_idem := toAsciiLowercase_idem
  isZero digits := digits == "0"
  text
    | some (.string s) => some s
    | some (.number digits) => some digits
    | _ => some "[object Object]"
  text_string _ := rfl
  stringify _ := "[object Object]"

/-- What a condition makes of a value. -/
def truthy (rt : Runtime) : Option Json → Bool
  | none | some .null => false
  | some (.bool b) => b
  | some (.number digits) => !rt.isZero digits
  | some (.string s) => s != ""
  | some (.array _) | some (.object _) => true

/-- `v ?? []`. -/
def orEmpty : Option Json → Json
  | none | some .null => .array []
  | some v => v

/-- `v.includes(s)`. -/
def includes (v : Json) (s : String) : Except String Bool :=
  match v with
  | .array items => .ok (items.any fun i => i.asStr == some s)
  | .string t => .ok (contains t s)
  | _ => .error "TypeError: includes is not a function"

/-! ## Calls -/

inductive Action where
  | addItem
  | removeItem
deriving DecidableEq, Repr

inductive Field where
  | emails
  | roles
deriving DecidableEq, Repr

structure Update where
  action : Action
  field : Field
  value : String
deriving DecidableEq, Repr

/-- What is deployed. -/
inductive NewPrincipal where
  | domain (name : String)
  | individual (name : String) (emails : List String) (description : String) (roles : List String)
deriving DecidableEq, Repr

def NewPrincipal.name : NewPrincipal → String
  | domain name => name
  | individual name _ _ _ => name

inductive Algorithm where
  | ed25519
  | rsa
deriving DecidableEq, Repr

def Algorithm.lower : Algorithm → String
  | ed25519 => "ed25519"
  | rsa => "rsa"

/-- A call of the management API. -/
inductive Call where
  /-- `isReady`, which asks for the host name. -/
  | probe
  | getPrincipal (name : String)
  | deployPrincipal (principal : NewPrincipal)
  | updatePrincipal (name : String) (updates : List Update)
  | getSettings (key : String)
  /-- A value that is `undefined` is sent as `null`. -/
  | setSettings (values : List (String × Option String))
  | clearSettings (key : String)
  | reload
  | createDkim (algorithm : Algorithm) (domain selector : String)
  | getDkimPublicKey (signatureId : String)

/-- An answer: its status, its body, and what `JSON.parse` makes of the body. -/
structure Reply where
  ok : Bool
  text : String
  json : Option Json

/-- `json.data ?? json`, or the text where there is no value to read it from. -/
def Reply.data (r : Reply) : Json :=
  match r.json with
  | none | some .null => .string r.text
  | some j =>
    match j.get "data" with
    | none | some .null => j
    | some d => d

/-- The operations of a program that talks to Stalwart. `error` is what `fetch` throws. -/
class Talks (E : Type → Type) where
  call : Call → E (Except String Reply)

section Client

variable {E : Type → Type} [Talks E]

def request (c : Call) : Prog E String Reply := do
  Prog.orFail (← .perform (Talks.call c))

/-- A call that throws unless the answer is ok. -/
def demand (rt : Runtime) (c : Call) (failure : String) : Prog E String Json := do
  let r ← request c
  if !r.ok then .fail s!"Error: {failure}: {rt.stringify r.data}" else return r.data

def isReady : Prog E String Bool := do
  match ← .perform (Talks.call .probe) with
  | .ok r => return r.ok
  | .error _ => return false

/-- A principal that does not exist is answered with an `error`. -/
def getPrincipal (name : String) : Prog E String (Option Json) := do
  let r ← request (.getPrincipal name)
  if !r.ok then return none
  if (r.data.get "error").isSome then return none
  return some r.data

def deployPrincipal (rt : Runtime) (principal : NewPrincipal) : Prog E String Unit := do
  let _ ← demand rt (.deployPrincipal principal) "Failed to deploy principal"

def updatePrincipal (rt : Runtime) (name : String) (updates : List Update) :
    Prog E String Unit := do
  let _ ← demand rt (.updatePrincipal name updates) "Failed to update principal"

/-- `data.items ?? {}`. -/
def getSettings (rt : Runtime) (key : String) : Prog E String Json := do
  let data ← demand rt (.getSettings key) "Failed to list settings"
  match data.get "items" with
  | none | some .null => return .object []
  | some items => return items

def setSettings (rt : Runtime) (values : List (String × Option String)) :
    Prog E String Unit := do
  let _ ← demand rt (.setSettings values) "Failed to set settings"

def reload (rt : Runtime) : Prog E String Unit := do
  let _ ← demand rt .reload "Failed to reload config"

def createDkim (rt : Runtime) (algorithm : Algorithm) (domain selector : String) :
    Prog E String Unit := do
  let _ ← demand rt (.createDkim algorithm domain selector) "Failed to create DKIM signature"

def getDkimPublicKey (signatureId : String) : Prog E String (Option Json) := do
  let r ← request (.getDkimPublicKey signatureId)
  return if r.ok then some r.data else none

def clearSettings (rt : Runtime) (key : String) : Prog E String Unit := do
  let _ ← demand rt (.clearSettings key) "Failed to clear settings"

end Client

/-! ## The principals of the server -/

/-- A principal with what the scripts may change of it; `rest` is everything else. -/
structure Account (R : Type*) where
  emails : List String
  roles : List String
  rest : R
deriving DecidableEq

/-- A list that is a set, changed by one item. -/
def Action.apply (action : Action) (value : String) (items : List String) : List String :=
  match action with
  | .addItem => if value ∈ items then items else items ++ [value]
  | .removeItem => items.filter fun v => v != value

def Update.apply {R : Type*} (u : Update) (a : Account R) : Account R :=
  match u.field with
  | .emails => { a with emails := u.action.apply u.value a.emails }
  | .roles => { a with roles := u.action.apply u.value a.roles }

def applyAll {R : Type*} (us : List Update) (a : Account R) : Account R :=
  us.foldl (fun a u => u.apply a) a

/-- The principals by their names. -/
abbrev Accounts (R : Type*) := String → Option (Account R)

variable {R : Type*}

/-- The principals after an update; it does nothing to a name that nobody has. -/
def Accounts.updated (m : Accounts R) (name : String) (us : List Update) : Accounts R :=
  fun n => if n = name then (m n).map (applyAll us) else m n

end Foundrix.Stalwart
