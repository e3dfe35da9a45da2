import Foundrix.ZitadelConfigure.Client

/-!
# Apps and their credential files

The functions of `services/zitadel-configure.ts` that write and read the credentials of OIDC
apps. Zitadel does not give a client secret out a second time, so the file of a
confidential app is the only copy.

* `writeCredentialFile`, `readStoredClientSecret`: the file.
* `convergeConfidentialApp`, `convergePublicApp`: an app and what is written for it.
-/

namespace Foundrix.ZitadelConfigure

open Text Effect

inductive AppType where
  | confidential
  | publicApp
deriving DecidableEq, Repr

inductive AccessTokenType where
  | bearer
  | jwt
deriving DecidableEq, Repr

structure AppSpec where
  type : AppType
  redirectUris : List String := []
  postLogoutRedirectUris : List String := []
  outputPath : String
  accessTokenType : AccessTokenType := .bearer
  grantTypes : List String := ["authorization-code"]
deriving DecidableEq, Repr

def zitadelAccessTokenType : AccessTokenType → String
  | .jwt => "OIDC_TOKEN_TYPE_JWT"
  | .bearer => "OIDC_TOKEN_TYPE_BEARER"

def grantTypeNames : List (String × String) :=
  [("authorization-code", "OIDC_GRANT_TYPE_AUTHORIZATION_CODE"),
    ("implicit", "OIDC_GRANT_TYPE_IMPLICIT"), ("refresh-token", "OIDC_GRANT_TYPE_REFRESH_TOKEN"),
    ("device-code", "OIDC_GRANT_TYPE_DEVICE_CODE"),
    ("token-exchange", "OIDC_GRANT_TYPE_TOKEN_EXCHANGE")]

def zitadelGrantTypes : List String → Except Failure (List String)
  | [] => .ok []
  | name :: names =>
    match grantTypeNames.lookup name with
    | none => .error { message := s!"Unknown grant type: {name}" }
    | some value => (zitadelGrantTypes names).map (value :: ·)

/-! ## The credential file -/

/-- The directory part, unless it is empty. -/
def parentDir (path : String) : Option String :=
  ((rsplitOnce path '/').map Prod.fst).filter (· ≠ "")

def ensureParentDir (path : String) : Script Unit :=
  match parentDir path with
  | none => return
  | some dir => deno (.mkdir dir)

/-- The temporary file of a process. -/
def tmpPath (pid : Nat) (path : String) : String := s!"{path}.tmp.{pid}"

/-- Write a file in one step: a temporary file with all of it is renamed into place. -/
def writeCredentialFile (pid : Nat) (path contents : String) : Script Unit := do
  ensureParentDir path
  let tmp := tmpPath pid path
  deno (.openNew tmp)
  let stored ← Prog.attempt do
    let _ ← deno (.write tmp (utf8 contents))
    deno (.sync tmp)
  deno (.close tmp)
  Prog.orFail stored
  match ← Prog.attempt (deno (.rename tmp path)) with
  | .ok () => return
  | .error e =>
    let _ ← Prog.attempt (deno (.remove tmp))
    .fail e

/-- The variables of a file, a later line winning. -/
def storedVars (text : String) : String → Option String :=
  (split text '\n').foldl (fun vars line =>
    match splitOnce line '=' with
    | some (key, value) =>
      if key = "" then vars
      else fun k => if k = jsTrim key then some (jsTrim value) else vars k
    | none => vars) fun _ => none

/-- The secret of a file that names the client id. -/
def secretFor (text clientId : String) : Option String :=
  if storedVars text "CLIENT_ID" = some clientId then
    (storedVars text "CLIENT_SECRET").filter (· ≠ "")
  else none

/-- Only a file that is not there means that nothing is stored. -/
def readStoredClientSecret (path clientId : String) : Script (Option String) := do
  match ← Prog.attempt (deno (.readTextFile path)) with
  | .ok text => return secretFor text clientId
  | .error e => if e.notFound then return none else .fail e

/-! ## Apps -/

def confidentialConfig (spec : AppSpec) (grantTypes : List String) : OidcConfig where
  redirectUris := spec.redirectUris
  grantTypes := grantTypes
  appType := "OIDC_APP_TYPE_WEB"
  authMethodType := "OIDC_AUTH_METHOD_TYPE_BASIC"
  accessTokenType := zitadelAccessTokenType spec.accessTokenType

/-- The configuration with the roles asserted in tokens. -/
def OidcConfig.withRoles (c : OidcConfig) : OidcConfig :=
  { c with accessTokenRoleAssertion := some true, idTokenRoleAssertion := some true }

/-- Replace the configuration of an app. An error whose message has `unchanged` in it says
that there was nothing to do. -/
def updateConfig (projectId : Option String) (appId unchanged : String) (spec : AppSpec)
    (config : AppSpec → List String → OidcConfig) : Script Unit := do
  let updated ← Prog.attempt do
    let grantTypes ← Prog.orFail (zitadelGrantTypes spec.grantTypes)
    request (.updateOIDCAppConfig projectId appId (config spec grantTypes).withRoles)
  match updated with
  | .ok () => return
  | .error e => if contains e.message unchanged then return else .fail e

def credentialText (clientId clientSecret : Option String) : String :=
  join "\n" [s!"CLIENT_ID={shown clientId}", s!"CLIENT_SECRET={shown clientSecret}", ""]

/-- The ids and the secret of an app that was found: the stored secret, or a new one. -/
def existingCredentials (projectId : Option String) (spec : AppSpec) (app : App) :
    Script (AppCredentials × String) := do
  let clientId ← defined app.oidcConfig
  match ← readStoredClientSecret spec.outputPath clientId with
  | some stored => return ({ clientId := some clientId, clientSecret := some stored }, app.id)
  | none =>
    let secret ← request (.regenerateClientSecret projectId app.id)
    return ({ clientId := some clientId, clientSecret := secret }, app.id)

/-- The ids and the secret of a new app; its own id is searched for. -/
def newCredentials (projectId : Option String) (appName : String) (spec : AppSpec) :
    Script (AppCredentials × String) := do
  let grantTypes ← Prog.orFail (zitadelGrantTypes spec.grantTypes)
  let creds ← request (.createOIDCApp projectId appName (confidentialConfig spec grantTypes))
  let newApps ← request (.searchApps projectId appName)
  return (creds, match newApps with
    | app :: _ => app.id
    | [] => "")

def convergeConfidentialApp (pid : Nat) (projectId : Option String) (appName : String)
    (spec : AppSpec) : Script Unit := do
  let apps ← request (.searchApps projectId appName)
  let (creds, appId) ← match apps with
    | app :: _ => existingCredentials projectId spec app
    | [] => newCredentials projectId appName spec
  if appId ≠ "" then updateConfig projectId appId "No changes" spec confidentialConfig
  writeCredentialFile pid spec.outputPath (credentialText creds.clientId creds.clientSecret)

def publicConfig (spec : AppSpec) (grantTypes : List String) : OidcConfig where
  redirectUris := spec.redirectUris
  postLogoutRedirectUris := some spec.postLogoutRedirectUris
  grantTypes := grantTypes
  appType := "OIDC_APP_TYPE_USER_AGENT"
  authMethodType := "OIDC_AUTH_METHOD_TYPE_NONE"
  accessTokenType := zitadelAccessTokenType spec.accessTokenType

/-- The client id of a public app, which is updated or created. -/
def publicClientId (projectId : Option String) (appName : String) (spec : AppSpec) :
    Script (Option String) := do
  let apps ← request (.searchApps projectId appName)
  match apps with
  | app :: _ =>
    let clientId ← defined app.oidcConfig
    updateConfig projectId app.id "already up to date" spec publicConfig
    return some clientId
  | [] =>
    let grantTypes ← Prog.orFail (zitadelGrantTypes spec.grantTypes)
    let creds ← request (.createOIDCApp projectId appName (publicConfig spec grantTypes).withRoles)
    return creds.clientId

def convergePublicApp (projectId : Option String) (appName : String) (spec : AppSpec) :
    Script Unit := do
  let clientId ← publicClientId projectId appName spec
  deno (.writeTextFile spec.outputPath (shown clientId))

end Foundrix.ZitadelConfigure
