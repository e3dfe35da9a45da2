import Foundrix.Effect.Prog
import Foundrix.Text.Json
import Foundrix.Text.Str

/-!
# The Zitadel client

`ZitadelClient` of `services/zitadel-configure.ts`: the calls of the management and admin
API, with the values that the script sends and reads, and the file functions of Deno that
it uses. JSON is left out: an answer is the value that the client reads from the body.

* `Api`, `Answer`: the calls, and how the server may answer them.
* `Deno`, `Op`, `Script`: what the script does to its surroundings, and what may be thrown.
* `request`: which answers a call returns and which ones it throws.
-/

namespace Foundrix.ZitadelConfigure

open Text Effect

/-- `Record<string, unknown>`, the entries in their order. -/
abbrev JsObject := List (String × Json)

namespace JsObject

def get (o : JsObject) (key : String) : Option Json := o.lookup key

/-- `{ ...o, [key]: value }`. -/
def set (o : JsObject) (key : String) (value : Json) : JsObject :=
  if o.any fun e => e.1 == key then o.map fun e => if e.1 = key then (key, value) else e
  else o ++ [(key, value)]

/-- The rest of an object without some keys. -/
def without (o : JsObject) (keys : List String) : JsObject := o.filter fun e => !keys.contains e.1

/-- `o.key ?? fallback`. -/
def getOr (o : JsObject) (key : String) (fallback : Json) : Json :=
  match o.get key with
  | none | some .null => fallback
  | some v => v

/-- `(o.key ?? false) === b`. -/
def flagIs (o : JsObject) (key : String) (b : Bool) : Bool :=
  match o.getOr key (.bool false) with
  | .bool b' => b' == b
  | _ => false

end JsObject

/-! ## What the server keeps, as the client sees it -/

structure OrgDomain where
  domainName : String
  isPrimary : Bool
deriving DecidableEq, Repr

structure Org where
  id : String
  name : String
  primaryDomain : Option String := none
deriving DecidableEq, Repr

structure ZitadelUser where
  id : String
  userName : String
  /-- `human?.email?.email`. -/
  email : Option String := none
deriving DecidableEq, Repr

structure IamMember where
  userId : String
  roles : List String
deriving DecidableEq, Repr

structure Project where
  id : String
  name : String
deriving DecidableEq, Repr

structure ProjectSettings where
  name : String
  projectRoleAssertion : Bool
deriving DecidableEq, Repr

structure App where
  id : String
  /-- The client id; a SAML app has no `oidcConfig`. -/
  oidcConfig : Option String
deriving DecidableEq, Repr

/-- `undefined` where the body of the answer has no such field. -/
structure AppCredentials where
  clientId : Option String := none
  clientSecret : Option String := none
deriving DecidableEq, Repr

structure OidcConfig where
  redirectUris : List String
  postLogoutRedirectUris : Option (List String) := none
  responseTypes : List String := ["OIDC_RESPONSE_TYPE_CODE"]
  grantTypes : List String
  appType : String
  authMethodType : String
  accessTokenRoleAssertion : Option Bool := none
  idTokenRoleAssertion : Option Bool := none
  accessTokenType : String
deriving DecidableEq, Repr

structure UserGrant where
  id : String
  roleKeys : List String
deriving DecidableEq, Repr

structure Action where
  name : String
  script : String
  timeout : String
  allowedToFail : Bool
deriving DecidableEq, Repr

structure StoredAction where
  id : String
  action : Action
deriving DecidableEq, Repr

structure TriggerActions where
  triggerType : String
  actionIds : List String
deriving DecidableEq, Repr

/-- The policies that are read and replaced as whole objects. -/
inductive Policy where
  | domain
  | security
  | login
  | privacy
deriving DecidableEq, Repr

def Policy.name : Policy → String
  | domain => "domain"
  | security => "security"
  | login => "login"
  | privacy => "privacy"

/-- Whether a setting is the instance's own or that of the organisation. -/
inductive Level where
  | instance : Level
  | org : Level
deriving DecidableEq, Repr

/-! ## Calls -/

/-- How a call may be answered. -/
inductive Answer (α : Type) where
  /-- A success, and what the client reads from its body. -/
  | ok (a : α)
  /-- Any other HTTP status, with the text of the body, which is JSON where it is read. -/
  | refused (status : Nat) (text : String)
  /-- No answer that could be read; the server may have done what was asked. -/
  | failed (message : String)

/-- A call of the API and its answer. An id that came out of an answer without one is
`none`, which is `undefined`. -/
inductive Api : Type → Type where
  | listOrgDomains (orgId : Option String) : Api (Answer (List OrgDomain))
  | addOrgDomain (domain : String) (orgId : Option String) : Api (Answer Unit)
  | setPrimaryOrgDomain (domain : String) (orgId : Option String) : Api (Answer Unit)
  | createHumanUser (username displayName email password : String) : Api (Answer Unit)
  | updateUserName (userId userName : String) : Api (Answer Unit)
  | createOrg (name : String) : Api (Answer (Option String))
  | listOrgs : Api (Answer (List Org))
  | createProjectGrant (projectId : Option String) (grantedOrgId : String)
      (roleKeys : List String) : Api (Answer Unit)
  | listProjectGrants (projectId : Option String) : Api (Answer (List String))
  | getPolicy (policy : Policy) : Api (Answer (Option JsObject))
  | updatePolicy (policy : Policy) (value : JsObject) : Api (Answer Unit)
  | getInstanceFeatures : Api (Answer JsObject)
  | setInstanceFeatures (features : List (String × Bool)) : Api (Answer Unit)
  | searchIamMembers : Api (Answer (List IamMember))
  | addIamMember (userId : String) (roles : List String) : Api (Answer Unit)
  | updateIamMember (userId : String) (roles : List String) : Api (Answer Unit)
  | searchProjects (name : String) : Api (Answer (List Project))
  | createProject (name : String) : Api (Answer (Option String))
  | getProject (id : String) : Api (Answer (Option ProjectSettings))
  | updateProject (id : String) (settings : ProjectSettings) : Api (Answer Unit)
  | searchApps (projectId : Option String) (name : String) : Api (Answer (List App))
  | createOIDCApp (projectId : Option String) (name : String) (app : OidcConfig) :
      Api (Answer AppCredentials)
  | regenerateClientSecret (projectId : Option String) (appId : String) :
      Api (Answer (Option String))
  | updateOIDCAppConfig (projectId : Option String) (appId : String) (config : OidcConfig) :
      Api (Answer Unit)
  | createSAMLApp (projectId : Option String) (name metadataUrl : String) : Api (Answer Unit)
  | updateSAMLAppConfig (projectId : Option String) (appId metadataUrl : String) : Api (Answer Unit)
  | searchUsers : Api (Answer (List ZitadelUser))
  | updateUserEmail (userId email : String) : Api (Answer Unit)
  | addProjectRole (projectId : Option String) (roleKey displayName : String) : Api (Answer Unit)
  | searchProjectRoles (projectId : Option String) : Api (Answer (List String))
  | searchUserGrants (userId : String) (projectId : Option String) : Api (Answer (List UserGrant))
  | createUserGrant (userId : String) (projectId : Option String) (roleKeys : List String) :
      Api (Answer Unit)
  | updateUserGrant (userId grantId : String) (roleKeys : List String) : Api (Answer Unit)
  | updatePasswordComplexityPolicy (policy : JsObject) : Api (Answer Unit)
  | updateLabelPolicy (policy : JsObject) : Api (Answer Unit)
  | activateLabelPolicy (level : Level) : Api (Answer Unit)
  | uploadAsset (path filePath : String) : Api (Answer Unit)
  | setDefaultLanguage (language : String) : Api (Answer Unit)
  | setRestrictions (body : JsObject) : Api (Answer Unit)
  | updateOIDCSettings (settings : List (String × String)) : Api (Answer Unit)
  | updateSecretGenerator (generatorType : String) (config : JsObject) : Api (Answer Unit)
  /-- Whether the policy of the organisation is the default one. -/
  | getOrgPasswordComplexityPolicy : Api (Answer Bool)
  | addCustomPasswordComplexityPolicy (policy : JsObject) : Api (Answer Unit)
  | updateCustomPasswordComplexityPolicy (policy : JsObject) : Api (Answer Unit)
  | getOrgLabelPolicy : Api (Answer Bool)
  | addCustomLabelPolicy (policy : JsObject) : Api (Answer Unit)
  | updateCustomLabelPolicy (policy : JsObject) : Api (Answer Unit)
  | listActions : Api (Answer (List StoredAction))
  | createAction (action : Action) : Api (Answer (Option String))
  | updateAction (id : String) (action : Action) : Api (Answer Unit)
  | getFlow (flowType : String) : Api (Answer (List TriggerActions))
  | setTriggerActions (flowType triggerType : String) (actionIds : List String) : Api (Answer Unit)

/-- A value in a template literal. -/
def shown (s : Option String) : String := s.getD "undefined"

namespace Api

def projectPath (projectId : Option String) : String := "/management/v1/projects/" ++ shown projectId

def levelPath : Level → String
  | .instance => "/admin/v1/policies/"
  | .org => "/management/v1/policies/"

/-- The method and the path of a call. -/
def route : {β : Type} → Api β → String × String
  | _, listOrgDomains _ => ("POST", "/management/v1/orgs/me/domains/_search")
  | _, addOrgDomain _ _ => ("POST", "/management/v1/orgs/me/domains")
  | _, setPrimaryOrgDomain domain _ =>
    ("POST", s!"/management/v1/orgs/me/domains/{domain}/_set_primary")
  | _, createHumanUser _ _ _ _ => ("POST", "/management/v1/users/human")
  | _, updateUserName userId _ => ("PUT", s!"/v2/users/human/{userId}")
  | _, createOrg _ => ("POST", "/management/v1/orgs")
  | _, listOrgs => ("POST", "/admin/v1/orgs/_search")
  | _, createProjectGrant projectId _ _ => ("POST", projectPath projectId ++ "/grants")
  | _, listProjectGrants projectId => ("POST", projectPath projectId ++ "/grants/_search")
  | _, getPolicy policy => ("GET", "/admin/v1/policies/" ++ policy.name)
  | _, updatePolicy policy _ => ("PUT", "/admin/v1/policies/" ++ policy.name)
  | _, getInstanceFeatures => ("GET", "/v2/features/instance")
  | _, setInstanceFeatures _ => ("PUT", "/v2/features/instance")
  | _, searchIamMembers => ("POST", "/admin/v1/members/_search")
  | _, addIamMember _ _ => ("POST", "/admin/v1/members")
  | _, updateIamMember userId _ => ("PUT", s!"/admin/v1/members/{userId}")
  | _, searchProjects _ => ("POST", "/management/v1/projects/_search")
  | _, createProject _ => ("POST", "/management/v1/projects")
  | _, getProject id => ("GET", projectPath (some id))
  | _, updateProject id _ => ("PUT", projectPath (some id))
  | _, searchApps projectId _ => ("POST", projectPath projectId ++ "/apps/_search")
  | _, createOIDCApp projectId _ _ => ("POST", projectPath projectId ++ "/apps/oidc")
  | _, regenerateClientSecret projectId appId =>
    ("POST", projectPath projectId ++ s!"/apps/{appId}/oidc_config/_generate_client_secret")
  | _, updateOIDCAppConfig projectId appId _ =>
    ("PUT", projectPath projectId ++ s!"/apps/{appId}/oidc_config")
  | _, createSAMLApp projectId _ _ => ("POST", projectPath projectId ++ "/apps/saml")
  | _, updateSAMLAppConfig projectId appId _ =>
    ("PUT", projectPath projectId ++ s!"/apps/{appId}/saml_config")
  | _, searchUsers => ("POST", "/management/v1/users/_search")
  | _, updateUserEmail userId _ => ("POST", s!"/v2/users/{userId}/email")
  | _, addProjectRole projectId _ _ => ("POST", projectPath projectId ++ "/roles")
  | _, searchProjectRoles projectId => ("POST", projectPath projectId ++ "/roles/_search")
  | _, searchUserGrants _ _ => ("POST", "/management/v1/users/grants/_search")
  | _, createUserGrant userId _ _ => ("POST", s!"/management/v1/users/{userId}/grants")
  | _, updateUserGrant userId grantId _ =>
    ("PUT", s!"/management/v1/users/{userId}/grants/{grantId}")
  | _, updatePasswordComplexityPolicy _ => ("PUT", "/admin/v1/policies/password/complexity")
  | _, updateLabelPolicy _ => ("PUT", "/admin/v1/policies/label")
  | _, activateLabelPolicy level => ("POST", levelPath level ++ "label/_activate")
  | _, uploadAsset path _ => ("POST", path)
  | _, setDefaultLanguage language => ("PUT", s!"/admin/v1/languages/default/{language}")
  | _, setRestrictions _ => ("PUT", "/admin/v1/restrictions")
  | _, updateOIDCSettings _ => ("PUT", "/admin/v1/settings/oidc")
  | _, updateSecretGenerator generatorType _ =>
    ("PUT", s!"/admin/v1/secretgenerators/{generatorType}")
  | _, getOrgPasswordComplexityPolicy => ("GET", levelPath .org ++ "password/complexity")
  | _, addCustomPasswordComplexityPolicy _ => ("POST", levelPath .org ++ "password/complexity")
  | _, updateCustomPasswordComplexityPolicy _ => ("PUT", levelPath .org ++ "password/complexity")
  | _, getOrgLabelPolicy => ("GET", levelPath .org ++ "label")
  | _, addCustomLabelPolicy _ => ("POST", levelPath .org ++ "label")
  | _, updateCustomLabelPolicy _ => ("PUT", levelPath .org ++ "label")
  | _, listActions => ("POST", "/management/v1/actions/_search")
  | _, createAction _ => ("POST", "/management/v1/actions")
  | _, updateAction id _ => ("PUT", s!"/management/v1/actions/{id}")
  | _, getFlow flowType => ("GET", s!"/management/v1/flows/{flowType}")
  | _, setTriggerActions flowType triggerType _ =>
    ("POST", s!"/management/v1/flows/{flowType}/trigger/{triggerType}")

/-- What the client reads from a body that has none of the fields of an answer, as that of
an error: `undefined`, or an empty list where one is put in its place. `none` where reading
it throws. -/
def ofErrorBody : {β : Type} → Api β → Option β
  | _, listOrgDomains _ => some (.ok [])
  | _, addOrgDomain _ _ => some (.ok ())
  | _, setPrimaryOrgDomain _ _ => some (.ok ())
  | _, createHumanUser _ _ _ _ => some (.ok ())
  | _, updateUserName _ _ => some (.ok ())
  | _, createOrg _ => some (.ok none)
  | _, listOrgs => some (.ok [])
  | _, createProjectGrant _ _ _ => some (.ok ())
  | _, listProjectGrants _ => some (.ok [])
  | _, getPolicy _ => some (.ok none)
  | _, updatePolicy _ _ => some (.ok ())
  | _, getInstanceFeatures => some (.ok [])
  | _, setInstanceFeatures _ => some (.ok ())
  | _, searchIamMembers => some (.ok [])
  | _, addIamMember _ _ => some (.ok ())
  | _, updateIamMember _ _ => some (.ok ())
  | _, searchProjects _ => some (.ok [])
  | _, createProject _ => some (.ok none)
  | _, getProject _ => some (.ok none)
  | _, updateProject _ _ => some (.ok ())
  | _, searchApps _ _ => some (.ok [])
  | _, createOIDCApp _ _ _ => some (.ok {})
  | _, regenerateClientSecret _ _ => some (.ok none)
  | _, updateOIDCAppConfig _ _ _ => some (.ok ())
  | _, createSAMLApp _ _ _ => some (.ok ())
  | _, updateSAMLAppConfig _ _ _ => some (.ok ())
  | _, searchUsers => some (.ok [])
  | _, updateUserEmail _ _ => some (.ok ())
  | _, addProjectRole _ _ _ => some (.ok ())
  | _, searchProjectRoles _ => some (.ok [])
  | _, searchUserGrants _ _ => some (.ok [])
  | _, createUserGrant _ _ _ => some (.ok ())
  | _, updateUserGrant _ _ _ => some (.ok ())
  | _, updatePasswordComplexityPolicy _ => some (.ok ())
  | _, updateLabelPolicy _ => some (.ok ())
  | _, activateLabelPolicy _ => some (.ok ())
  -- Not a `request`: every answer that is not ok is thrown.
  | _, uploadAsset _ _ => none
  | _, setDefaultLanguage _ => some (.ok ())
  | _, setRestrictions _ => some (.ok ())
  | _, updateOIDCSettings _ => some (.ok ())
  | _, updateSecretGenerator _ _ => some (.ok ())
  | _, getOrgPasswordComplexityPolicy => none
  | _, addCustomPasswordComplexityPolicy _ => some (.ok ())
  | _, updateCustomPasswordComplexityPolicy _ => some (.ok ())
  | _, getOrgLabelPolicy => none
  | _, addCustomLabelPolicy _ => some (.ok ())
  | _, updateCustomLabelPolicy _ => some (.ok ())
  | _, listActions => some (.ok [])
  | _, createAction _ => some (.ok none)
  | _, updateAction _ _ => some (.ok ())
  | _, getFlow _ => some (.ok [])
  | _, setTriggerActions _ _ _ => some (.ok ())

end Api

/-- What is thrown. -/
structure Failure where
  message : String
  /-- `Deno.errors.NotFound`. -/
  notFound : Bool := false
deriving DecidableEq, Repr

/-! ## Operations -/

/-- The functions of Deno. A file that is open is named by its path. -/
inductive Deno : Type → Type where
  | mkdir (path : String) : Deno (Except Failure Unit)
  /-- `Deno.open` with `createNew`. -/
  | openNew (path : String) : Deno (Except Failure Unit)
  /-- The number of bytes that were stored. -/
  | write (path : String) (data : List UInt8) : Deno (Except Failure Nat)
  | sync (path : String) : Deno (Except Failure Unit)
  | close (path : String) : Deno (Except Failure Unit)
  | rename (src dst : String) : Deno (Except Failure Unit)
  | remove (path : String) : Deno (Except Failure Unit)
  | readTextFile (path : String) : Deno (Except Failure String)
  | writeTextFile (path text : String) : Deno (Except Failure Unit)
  | readFile (path : String) : Deno (Except Failure Unit)

/-- What the script does to its surroundings. -/
abbrev Op (β : Type) : Type := Api β ⊕ Deno β

abbrev Script := Prog Op Failure

def raise {α : Type} (message : String) : Script α := .fail { message }

/-- A function of Deno, which throws where it fails. -/
def deno {α : Type} (f : Deno (Except Failure α)) : Script α := do
  Prog.orFail (← .perform (.inr f))

/-- The body says that a precondition failed. -/
def preconditionFailed (status : Nat) (text : String) : Bool :=
  status == 400 && contains text "\"code\":9"

/-- A call. An answer by which nothing was to be done counts as a success; the client reads
from its body what it would read from that of a success. -/
def request {α : Type} (c : Api (Answer α)) : Script α := do
  match ← .perform (.inl c) with
  | .ok a => return a
  | .failed message => raise message
  | .refused status text =>
    let (method, path) := c.route
    match if preconditionFailed status text then c.ofErrorBody else none with
    | some (.ok a) => return a
    | _ => raise s!"{method} {path} → {status}: {text}"

/-- A field that is read of a value which may be `undefined`. -/
def defined {α : Type} (v : Option α) : Script α :=
  match v with
  | some a => return a
  | none => raise "Cannot read properties of undefined"

end Foundrix.ZitadelConfigure
