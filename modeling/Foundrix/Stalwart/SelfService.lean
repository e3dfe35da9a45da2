import Foundrix.Stalwart.Client

/-!
# The self-service API of the mail server

`services/stalwart-self-service-api.ts`: the handler of a request, from the check of the
path to the answer. It holds a credential that could change every principal.

* `Spec`, `Request`, `Response`, `Op`: what the handler reads and does.
* `authorize`, `validateAddress`, `handleGet`, `handlePost`, `serve`: the handler.
-/

namespace Foundrix.Stalwart.SelfService

open Text Effect

structure Spec where
  issuer : String
  adminRole : String
  /-- Domains an address may use. -/
  addressDomains : List String

structure Request where
  method : String
  pathname : String
  /-- `searchParams.get("account")`. -/
  account : Option String := none
  authorization : Option String := none
  /-- What `req.json()` gives; `none` where the body is not JSON. -/
  body : Option Json := none

structure Response where
  status : Nat
  body : Json

/-- An answer of the identity provider; the body is `none` where it is not JSON. -/
structure HttpReply where
  ok : Bool
  status : Nat
  json : Option Json

/-- The operations of the service. -/
inductive Op : Type → Type where
  | mail (c : Call) : Op (Except String Reply)
  | discovery (url : String) : Op (Except String HttpReply)
  | userinfo (endpoint : Option Json) (authorization : String) : Op (Except String HttpReply)
  /-- The variable `userinfoEndpoint`, which the requests share. -/
  | readEndpoint : Op (Option Json)
  | writeEndpoint (endpoint : Option Json) : Op Unit
  | log (line : String) : Op Unit

instance : Talks Op where
  call := Op.mail

abbrev Service := Prog Op String

def rolesClaim : String := "urn:zitadel:iam:org:project:roles"

def errorBody (message : String) : Json := .object [("error", .string message)]

/-- `resp.json()`. -/
def readJson (r : HttpReply) : Service Json :=
  match r.json with
  | some j => return j
  | none => .fail "SyntaxError"

/-- A value in a template literal. -/
def shown (rt : Runtime) (v : Option Json) : Service String :=
  match rt.text v with
  | some s => return s
  | none => .fail "TypeError: Cannot convert object to primitive value"

def discoveryUrl (spec : Spec) : String := spec.issuer ++ "/.well-known/openid-configuration"

/-- The variable starts as `null`, and it is `undefined` after a discovery whose answer has
no endpoint. -/
def getUserinfoEndpoint (spec : Spec) : Service (Option Json) := do
  match ← .perform .readEndpoint with
  | some .null =>
    let resp ← Prog.orFail (← .perform (.discovery (discoveryUrl spec)))
    if !resp.ok then
      .fail s!"Error: OIDC discovery failed: {resp.status}"
    else
      match ← readJson resp with
      | .null => .fail "TypeError: Cannot read properties of null"
      | doc =>
        .perform (.writeEndpoint (doc.get "userinfo_endpoint"))
        return doc.get "userinfo_endpoint"
  | endpoint => return endpoint

/-- `Object.hasOwn(v, key)`: an array has its indices and its length, and so does a text,
by its UTF-16 units. -/
def hasOwn (v : Json) (key : String) : Bool :=
  let indexed (n : Nat) := key == "length" || (List.range n).any fun i => toString i == key
  match v with
  | .object entries => entries.any fun e => e.1 == key
  | .array items => indexed items.length
  | .string s => indexed ((s.toList.map fun c => if c.toNat < 0x10000 then 1 else 2).sum)
  | _ => false

/-- Whether the claims have the role: `claims?.[ROLES_CLAIM] ?? \x7b}` is asked for it. -/
def hasRole (spec : Spec) (claims : Json) : Bool :=
  match claims.get rolesClaim with
  | none | some .null => false
  | some roles => hasOwn roles spec.adminRole

/-- The login name of the acting admin, or a ready error response. -/
def authorize (spec : Spec) (req : Request) : Service (Response ⊕ Json) := do
  let auth := req.authorization.getD ""
  if !startsWith auth "Bearer " then
    return .inl ⟨401, errorBody "Missing bearer token"⟩
  let asked ← Prog.attempt do
    let endpoint ← getUserinfoEndpoint spec
    Prog.orFail (← .perform (.userinfo endpoint auth))
  match asked with
  | .error e => return .inl ⟨502, errorBody s!"Could not reach the identity provider: {e}"⟩
  | .ok resp =>
    if !resp.ok then
      return .inl ⟨401, errorBody "The identity provider rejected the token"⟩
    let claims ← readJson resp
    if !hasRole spec claims then
      return .inl ⟨403, errorBody "Admin role required"⟩
    match claims.get "preferred_username" with
    | none | some .null => return .inr (.string "unknown-admin")
    | some name => return .inr name

def isLocalChar (c : Char) : Bool :=
  c.isLower || isAsciiDigit c || ['.', '_', '%', '+', '-'].contains c

def isDomainChar (c : Char) : Bool := c.isLower || isAsciiDigit c || ['.', '-'].contains c

/-- `^([a-z0-9._%+-]*)@([a-z0-9.-]+)$` and its groups. -/
def matchAddress (address : String) : Option (String × String) :=
  match splitOnce address '@' with
  | none => none
  | some (localPart, domain) =>
    if localPart.toList.all isLocalChar && domain != "" && domain.toList.all isDomainChar then
      some (localPart, domain)
    else none

/-- An address is `local@domain` or the bare `@domain`, at a domain of this deployment. -/
def validateAddress (rt : Runtime) (spec : Spec) (raw : String) : Except String String :=
  let address := rt.toLowerCase (jsTrim raw)
  match matchAddress address with
  | none => .error s!"Not a valid address: {raw}"
  | some (_, domain) =>
    if !spec.addressDomains.contains domain then
      .error s!"{domain} is not an address domain of this deployment"
    else .ok address

def noPrincipal (account : String) : Response :=
  ⟨404, errorBody s!"No mailbox principal for {account} — it exists once the account has authenticated"⟩

/-- `\x7b name, emails }` as it is answered; a name that is `undefined` is left out. -/
def listing (name : Option Json) (emails : Json) : Response :=
  ⟨200, .object ((name.toList.map fun n => ("name", n)) ++ [("emails", emails)])⟩

def handleGet (rt : Runtime) (req : Request) : Service Response := do
  match req.account with
  | none | some "" => return ⟨400, errorBody "Missing account parameter"⟩
  | some account =>
    let principal ← getPrincipal account
    match principal with
    | some p =>
      if truthy rt (some p) then return listing (p.get "name") (orEmpty (p.get "emails"))
      else return noPrincipal account
    | none => return noPrincipal account

/-- A value on which a method of strings is called. -/
def asText (v : Option Json) (method : String) : Service String :=
  match v with
  | some (.string s) => return s
  | _ => .fail s!"TypeError: {method} is not a function"

/-- The change of a request, where the checks allow it: `none` where there is nothing to
do. -/
def changeFor (rt : Runtime) (spec : Spec) (principal : Json) (add remove : Option Json) :
    Service (Response ⊕ Option Update) := do
  let emails := orEmpty (principal.get "emails")
  match add with
  | some _ =>
    match validateAddress rt spec (← asText add "trim") with
    | .error e => return .inl ⟨400, errorBody e⟩
    | .ok address =>
      if !(← Prog.orFail (includes emails address)) then
        return .inr (some ⟨.addItem, .emails, address⟩)
      else return .inr none
  | none =>
    let address := rt.toLowerCase (jsTrim (← asText remove "trim"))
    if address == rt.toLowerCase (← asText (principal.get "name") "toLowerCase") then
      return .inl ⟨400, errorBody "The login address cannot be removed"⟩
    else if ← Prog.orFail (includes emails address) then
      return .inr (some ⟨.removeItem, .emails, address⟩)
    else return .inr none

def verb : Action → String × String
  | .addItem => ("adding", "to")
  | .removeItem => ("removing", "from")

def handlePost (rt : Runtime) (spec : Spec) (req : Request) (admin : Json) :
    Service Response := do
  match req.body with
  | none => return ⟨400, errorBody "Request body is not JSON"⟩
  | some .null => .fail "TypeError: Cannot destructure null"
  | some body =>
    let add := body.get "add"
    let remove := body.get "remove"
    if !truthy rt (body.get "account") || add.isNone == remove.isNone then
      return ⟨400, errorBody "Expected an account and exactly one of add/remove"⟩
    let account ← shown rt (body.get "account")
    let principal ← getPrincipal account
    if !truthy rt principal then return noPrincipal account
    let principal := principal.getD .null
    match ← changeFor rt spec principal add remove with
    | .inl refusal => return refusal
    | .inr change =>
      if let some u := change then
        let (doing, preposition) := verb u.action
        let admin ← shown rt (some admin)
        let name ← shown rt (principal.get "name")
        .perform (.log s!"{admin}: {doing} {u.value} {preposition} {name}")
        updatePrincipal rt name [u]
      let updated ← getPrincipal (← shown rt (principal.get "name"))
      return listing (principal.get "name") (orEmpty (updated.bind fun u => u.get "emails"))

/-- The handler of a request. What it throws is answered by the server with a 500 of its
own. -/
def serve (rt : Runtime) (spec : Spec) (req : Request) : Service Response := do
  if req.pathname != "/self-service/api/aliases" then
    return ⟨404, errorBody "Not found"⟩
  match ← authorize spec req with
  | .inl refusal => return refusal
  | .inr admin =>
    let handled ← Prog.attempt do
      if req.method == "GET" then handleGet rt req
      else if req.method == "POST" then handlePost rt spec req admin
      else return ⟨405, errorBody "Method not allowed"⟩
    match handled with
    | .ok response => return response
    | .error e =>
      .perform (.log s!"{req.method} {req.pathname}: {e}")
      return ⟨500, errorBody e⟩

end Foundrix.Stalwart.SelfService
