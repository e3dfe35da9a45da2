import Foundrix.Text.Json
import Foundrix.Text.Str

/-!
# The OIDC credential validator

`check` of `packages/oidc-credential-validator/src/main.rs`: discovery, and a probe that
makes the credentials prove themselves, at the introspection endpoint where one is
advertised and at the token endpoint otherwise. `ureq` and `serde_json` are not part of the
crate: any request may get any answer, and decoding is a parameter.

* `Servers`, `send`: the answers, and the record of what was asked.
* `introspectionRequest`, `tokenRequest`: one attempt with one auth method.
* `tryMethods`, `negotiatedMethods`, `check`: from the discovery document to the verdict.
-/

namespace Foundrix.OidcValidator

open Text

/-- What the crate calls and does not contain: `serde_json` decoding a value, and the `{:?}`
form of a string. -/
class Externals where
  jsonFromStr : String → Except String Json
  debugStr : String → String

inductive Verdict where
  | valid (message : String)
  | invalid (message : String)
  | error (message : String)
deriving DecidableEq, Repr

inductive Status where
  | valid
  | invalid
  | error
deriving DecidableEq, Repr

def Verdict.status : Verdict → Status
  | valid _ => .valid
  | invalid _ => .invalid
  | error _ => .error

/-- What `check` reads of the command line. -/
structure Args where
  issuer : String
  scope : Option String := none
  allowInsecureHttp : Bool := false
deriving DecidableEq, Repr

inductive AuthMethod where
  | basic
  | post
deriving DecidableEq, Repr

/-! ## Requests and answers -/

inductive HttpMethod where
  | get
  | post
deriving DecidableEq, Repr

structure Request where
  method : HttpMethod
  url : String
  headers : List (String × String) := []
  form : List (String × String) := []
deriving DecidableEq, Repr

structure Reply where
  status : Nat
  /-- Reading the body may fail after the status was received. -/
  body : Except String String
deriving DecidableEq, Repr

/-- A reply of any status, or the text of a transport failure. -/
abbrev Answer := Except String Reply

/-- A request that was sent and how it was answered. -/
structure Exchange where
  request : Request
  answer : Answer

/-- How a request is answered after the exchanges so far. No redirect is followed, so all
that is sent is what `check` sends. -/
abbrev Servers := List Exchange → Request → Answer

/-- Send a request and record the exchange. -/
def send (servers : Servers) (request : Request) : StateM (List Exchange) Answer :=
  fun sent =>
    let answer := servers sent request
    (answer, sent ++ [⟨request, answer⟩])

theorem bind_apply {α β : Type} (x : StateM (List Exchange) α)
    (f : α → StateM (List Exchange) β) (sent : List Exchange) :
    (x >>= f) sent = f (x sent).1 (x sent).2 := rfl

theorem send_bind {α : Type} (servers : Servers) (r : Request)
    (f : Answer → StateM (List Exchange) α) (sent : List Exchange) :
    (send servers r >>= f) sent = f (servers sent r) (sent ++ [⟨r, servers sent r⟩]) := rfl

/-- `read_to_string().unwrap_or_default()`. -/
def Reply.text (r : Reply) : String := r.body.toOption.getD ""

/-- `(200..300).contains(&status)`. -/
def success (status : Nat) : Bool := 200 ≤ status && status < 300

/-! ## Encodings -/

def hexDigit (n : Nat) : Char := "0123456789ABCDEF".toList.getD n '0'

def formUrlencodeByte (b : UInt8) : List Char :=
  let c := Char.ofNat b.toNat
  if isAsciiAlphanumeric c || c == '-' || c == '.' || c == '_' || c == '~' then [c]
  else if c == ' ' then ['+']
  else ['%', hexDigit (b.toNat / 16), hexDigit (b.toNat % 16)]

/-- `application/x-www-form-urlencoded` escaping of the UTF-8 bytes. -/
def formUrlencode (s : String) : String :=
  String.ofList ((utf8 s).flatMap formUrlencodeByte)

/-- The character for the low six bits of a number. -/
def base64Char (n : Nat) : Char :=
  "ABCDEFGHIJKLMNOPQRSTUVWXYZabcdefghijklmnopqrstuvwxyz0123456789+/".toList.getD (n &&& 63) '='

/-- Three bytes as four characters, of which those that hold no bit of the `count` bytes
that are there are `=`. -/
def base64Chunk (count : Nat) (b0 b1 b2 : UInt8) : List Char :=
  let n := b0.toNat <<< 16 ||| b1.toNat <<< 8 ||| b2.toNat
  [base64Char (n >>> 18), base64Char (n >>> 12),
    if 1 < count then base64Char (n >>> 6) else '=',
    if 2 < count then base64Char n else '=']

def base64Chars : List UInt8 → List Char
  | [] => []
  | [b0] => base64Chunk 1 b0 0 0
  | [b0, b1] => base64Chunk 2 b0 b1 0
  | b0 :: b1 :: b2 :: rest => base64Chunk 3 b0 b1 b2 ++ base64Chars rest

def base64 (input : List UInt8) : String := String.ofList (base64Chars input)

/-- The value of the `Authorization` header: both halves escaped, then the pair encoded. -/
def basicCredentials (clientId clientSecret : String) : String :=
  let creds := formUrlencode clientId ++ ":" ++ formUrlencode clientSecret
  "Basic " ++ base64 (utf8 creds)

/-! ## One attempt -/

section Attempts

variable [Externals]

/-- The string at `error` of a JSON body. -/
def errorCode (body : String) : Option String :=
  (Externals.jsonFromStr body).toOption.bind fun v => (v.get "error").bind Json.asStr

def classifyIntrospection (status : Nat) (body : String) : Verdict :=
  if success status then
    match (Externals.jsonFromStr body).toOption.bind fun v =>
        (v.get "active").bind Json.asBool with
    | some _ => .valid "introspection endpoint authenticated the client (RFC 7662 probe)"
    | none => .error (s!"introspection endpoint answered HTTP {status} without an `active` field; " ++
        "cannot decide")
  else if status ≥ 500 || status == 429 then
    .error s!"introspection endpoint returned HTTP {status}; cannot decide"
  else
    let error := errorCode body
    let described := error.getD s!"HTTP {status}"
    let rejected := Verdict.invalid
      s!"introspection endpoint rejected the credentials ({described})"
    let undecided := Verdict.error
      s!"introspection endpoint answered HTTP {status} ({described}); cannot decide"
    match error with
    | some code => if code = "invalid_client" then rejected else undecided
    | none => if status == 401 || status == 403 then rejected else undecided

/-- The codes by which a token endpoint refuses the grant and judges nothing. -/
def grantRefusals : List String :=
  ["unsupported_grant_type", "unauthorized_client", "invalid_scope", "invalid_grant",
    "invalid_request"]

/-- What `token_request` makes of a reply. -/
def classifyToken (status : Nat) (body : String) : Verdict :=
  if success status then .valid s!"token endpoint accepted the credentials (HTTP {status})"
  else if status ≥ 500 || status == 429 then
    .error s!"token endpoint returned HTTP {status}; cannot decide"
  else
    let error := errorCode body
    let described := error.getD s!"HTTP {status}"
    let rejected := Verdict.invalid s!"token endpoint rejected the credentials ({described})"
    let undecided := Verdict.error
      s!"token endpoint answered HTTP {status} ({described}); cannot decide"
    match error with
    | some code =>
      if code = "invalid_client" then rejected
      -- A refused grant does not say that the client was authenticated.
      else if grantRefusals.contains code then
        .error (s!"token endpoint refused the client_credentials grant ({described}) without " ++
          "judging the credentials — this client cannot be validated this way; enable the " ++
          "client_credentials grant for it, or use a different validator")
      else undecided
    | none => if status == 401 || status == 403 then rejected else undecided

/-- The `Accept` header, and the credentials where they go into a header. -/
def requestHeaders (clientId clientSecret : String) (method : AuthMethod) :
    List (String × String) :=
  ("Accept", "application/json") ::
    match method with
    | .basic => [("Authorization", basicCredentials clientId clientSecret)]
    | .post => []

def introspectionForm (clientId clientSecret : String) (method : AuthMethod) :
    List (String × String) :=
  ("token", "operator-secrets-liveness-probe") ::
    match method with
    | .basic => []
    | .post => [("client_id", clientId), ("client_secret", clientSecret)]

def introspectionRequest (servers : Servers) (endpoint clientId clientSecret : String)
    (method : AuthMethod) : StateM (List Exchange) Verdict := do
  match ← send servers {
      method := .post
      url := endpoint
      headers := requestHeaders clientId clientSecret method
      form := introspectionForm clientId clientSecret method } with
  | .ok reply => return classifyIntrospection reply.status reply.text
  | .error e => return .error s!"introspection request to {endpoint}: {e}"

/-- The client id is no secret, so it is always part of the form. -/
def tokenForm (args : Args) (clientId clientSecret : String) (method : AuthMethod) :
    List (String × String) :=
  ("grant_type", "client_credentials") ::
    (args.scope.toList.map fun scope => ("scope", scope)) ++ [("client_id", clientId)] ++
    match method with
    | .basic => []
    | .post => [("client_secret", clientSecret)]

def tokenRequest (servers : Servers) (args : Args) (tokenEndpoint clientId clientSecret : String)
    (method : AuthMethod) : StateM (List Exchange) Verdict := do
  match ← send servers {
      method := .post
      url := tokenEndpoint
      headers := requestHeaders clientId clientSecret method
      form := tokenForm args clientId clientSecret method } with
  | .ok reply => return classifyToken reply.status reply.text
  | .error e => return .error s!"token request to {tokenEndpoint}: {e}"

end Attempts

/-! ## Methods and endpoints -/

/-- The attempts with the methods left, after a last rejection with a message. -/
def tryFrom (req : AuthMethod → StateM (List Exchange) Verdict) (lastInvalid : Option String) :
    List AuthMethod → StateM (List Exchange) Verdict
  | [] => return .invalid (lastInvalid.getD "credentials rejected")
  | method :: methods => do
    match ← req method with
    | .invalid m => tryFrom req (some m) methods
    | other => return other

theorem tryFrom_cons (req : AuthMethod → StateM (List Exchange) Verdict) (last : Option String)
    (m : AuthMethod) (ms : List AuthMethod) (sent : List Exchange) :
    tryFrom req last (m :: ms) sent =
      match req m sent with
      | (.invalid text, sent') => tryFrom req (some text) ms sent'
      | (other, sent') => (other, sent') := by
  rw [tryFrom, bind_apply]
  obtain ⟨v, sent'⟩ := req m sent
  cases v with
  | valid text => rfl
  | invalid text => rfl
  | error text => rfl

/-- Try each method until one is decided otherwise than by a rejection. -/
def tryMethods (methods : List AuthMethod) (req : AuthMethod → StateM (List Exchange) Verdict) :
    StateM (List Exchange) Verdict :=
  tryFrom req none methods

section Check

variable [Externals]

/-- The methods among those advertised that there are. -/
def knownMethods (supported : List String) : List AuthMethod :=
  (if supported.contains "client_secret_basic" then [.basic] else []) ++
    if supported.contains "client_secret_post" then [.post] else []

/-- The methods to attempt by what is advertised under `key`: both where nothing is. -/
def negotiatedMethods (doc : Json) (key : String) : Except String (List AuthMethod) :=
  let supported := ((doc.get key).bind Json.asArray).getD [] |>.filterMap Json.asStr
  if supported = [] then .ok [.basic, .post]
  else if knownMethods supported = [] then
    let advertised := "[" ++ join ", " (supported.map Externals.debugStr) ++ "]"
    .error (s!"{key} lists none of client_secret_basic/client_secret_post " ++
      s!"(advertises {advertised})")
  else .ok (knownMethods supported)

def discoveryUrl (issuer : String) : String := issuer ++ "/.well-known/openid-configuration"

/-- The discovery document. Whatever goes wrong here, the credentials were not looked at. -/
def discover (servers : Servers) (issuer : String) :
    StateM (List Exchange) (Except String Json) := do
  let url := discoveryUrl issuer
  match ← send servers { method := .get, url } with
  | .ok reply =>
    if success reply.status then
      match reply.body with
      | .ok body =>
        match Externals.jsonFromStr body with
        | .ok v => return .ok v
        | .error e => return .error s!"{url} is not JSON: {e}"
      | .error e => return .error s!"reading {url}: {e}"
    else return .error s!"{url} returned HTTP {reply.status}"
  | .error e => return .error s!"fetching {url}: {e}"

def https (url : String) : Bool := startsWith url "https://"

/-- The refusal of a URL that is not https. -/
def refusal (what url : String) : Verdict :=
  .error (what ++ " " ++ Externals.debugStr url ++
    " is not https; refusing to send credentials in the clear")

def noEndpoint (url : String) : Verdict :=
  .error s!"{url} declares neither introspection_endpoint nor token_endpoint"

def check (servers : Servers) (args : Args) (clientId clientSecret : String) :
    StateM (List Exchange) Verdict := do
  let issuer := trimEndMatches args.issuer '/'
  if !https issuer && !args.allowInsecureHttp then return refusal "issuer" issuer
  else
    match ← discover servers issuer with
    | .error e => return .error e
    | .ok doc =>
      match (doc.get "introspection_endpoint").bind Json.asStr with
      | some endpoint =>
        if !https endpoint && !args.allowInsecureHttp then
          return refusal "introspection_endpoint" endpoint
        else
          match negotiatedMethods doc "introspection_endpoint_auth_methods_supported" with
          | .error e => return .error e
          | .ok methods =>
            tryMethods methods (introspectionRequest servers endpoint clientId clientSecret)
      | none =>
        match (doc.get "token_endpoint").bind Json.asStr with
        | none => return noEndpoint (discoveryUrl issuer)
        | some tokenEndpoint =>
          if !https tokenEndpoint && !args.allowInsecureHttp then
            return refusal "token_endpoint" tokenEndpoint
          else
            match negotiatedMethods doc "token_endpoint_auth_methods_supported" with
            | .error e => return .error e
            | .ok methods =>
              tryMethods methods (tokenRequest servers args tokenEndpoint clientId clientSecret)

end Check

end Foundrix.OidcValidator
