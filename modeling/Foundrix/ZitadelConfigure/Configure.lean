import Foundrix.ZitadelConfigure.Credentials
import Foundrix.ZitadelConfigure.Orgs

/-!
# Projects, actions and the whole run

The functions of `services/zitadel-configure.ts` for projects, SAML apps and actions, and
its two tasks, `configure` and `convergeSamlApps`.
-/

namespace Foundrix.ZitadelConfigure

open Text Effect

structure ActionTrigger where
  flowType : String
  triggerType : String
deriving DecidableEq, Repr

structure ActionSpec where
  script : String
  triggers : List ActionTrigger
  timeout : String
  allowedToFail : Bool
deriving DecidableEq, Repr

structure SamlAppSpec where
  metadataUrl : String
deriving DecidableEq, Repr

/-- A record is the list of its entries, in the order of `Object.entries`. -/
structure ProjectSpec where
  apps : List (String × AppSpec) := []
  samlApps : List (String × SamlAppSpec) := []
  /-- The display name of each role. -/
  roles : List (String × String) := []
  userGrants : List (String × List String) := []
deriving DecidableEq, Repr

structure Policies where
  domainPolicy : DomainPolicy
  loginPolicy : LoginPolicy
  disallowPublicOrgRegistration : Bool
  enableImpersonation : Bool
deriving DecidableEq, Repr

/-- What the tasks read of the desired state. -/
structure DesiredState where
  adminOrg : String
  adminUsername : String
  orgDomains : List String
  users : List UserSpec := []
  policies : Policies
  privacyPolicyLink : Option String := none
  instanceSettings : Option InstanceSettings := none
  orgs : Option (List (String × OrgSettings)) := none
  projects : List (String × ProjectSpec)
  actions : List (String × ActionSpec) := []
  adminIamRoles : List String := []
deriving DecidableEq, Repr

/-! ## Projects -/

def convergeProject (name : String) : Script (Option String) := do
  let projects ← request (.searchProjects name)
  match projects with
  | found :: _ =>
    let project ← defined (← request (.getProject found.id))
    if !project.projectRoleAssertion then
      request (.updateProject found.id { name := project.name, projectRoleAssertion := true })
    return some found.id
  | [] => request (.createProject name)

/-! ## SAML apps -/

def convergeSamlApp (projectId : Option String) (appName : String) (spec : SamlAppSpec) :
    Script Unit := do
  let apps ← request (.searchApps projectId appName)
  match apps with
  | app :: _ => request (.updateSAMLAppConfig projectId app.id spec.metadataUrl)
  | [] => request (.createSAMLApp projectId appName spec.metadataUrl)

/-- The apps of one project; what failed is added to `failed`. -/
def convergeProjectSamlApps (projectName : String) (projectId : Option String)
    (failed : List String) : List (String × SamlAppSpec) → Script (List String)
  | [] => return failed
  | (appName, appSpec) :: apps => do
    match ← Prog.attempt (convergeSamlApp projectId appName appSpec) with
    | .ok () => convergeProjectSamlApps projectName projectId failed apps
    | .error _ =>
      convergeProjectSamlApps projectName projectId (failed ++ [s!"{appName} in {projectName}"])
        apps

/-- The SAML apps of all projects. A project without any is left alone. -/
def convergeAllSamlApps (failed : List String) : List (String × ProjectSpec) →
    Script (List String)
  | [] => return failed
  | (projectName, projectSpec) :: projects => do
    if projectSpec.samlApps = [] then convergeAllSamlApps failed projects
    else
      let projectId ← convergeProject projectName
      let failed ← convergeProjectSamlApps projectName projectId failed projectSpec.samlApps
      convergeAllSamlApps failed projects

def convergeSamlApps (spec : DesiredState) : Script Unit := do
  let failed ← convergeAllSamlApps [] spec.projects
  if failed = [] then return
  else
    let names := join ", " failed
    raise s!"SAML apps not converged: {names}"

/-! ## Actions -/

def flowTypeIds : List (String × String) :=
  [("externalAuthentication", "1"), ("complementToken", "2"), ("internalAuthentication", "3"),
    ("complementSAMLResponse", "4")]

def triggerTypeIds : List (String × String) :=
  [("postAuthentication", "1"), ("preCreation", "2"), ("postCreation", "3"),
    ("preUserinfoCreation", "4"), ("preAccessTokenCreation", "5"), ("preSAMLResponseCreation", "6")]

def convergeAction (existing : List StoredAction) (name : String) (spec : ActionSpec) :
    Script (Option String) := do
  let action : Action := ⟨name, spec.script, spec.timeout, spec.allowedToFail⟩
  match existing.find? fun a => a.action.name == name with
  | some found =>
    if found.action ≠ action then request (.updateAction found.id action)
    return some found.id
  | none => request (.createAction action)

/-- The ids of the actions, in their order. -/
def convergeEachAction (existing : List StoredAction) :
    List (String × ActionSpec) → Script (List (String × Option String))
  | [] => return []
  | (name, spec) :: actions => do
    let id ← convergeAction existing name spec
    return (name, id) :: (← convergeEachAction existing actions)

/-- Add an action to the trigger with a key, a new trigger at the end. -/
def addTrigger (triggers : List ((String × String) × List String)) (key : String × String)
    (id : String) : List ((String × String) × List String) :=
  if triggers.any fun t => t.1 == key then
    triggers.map fun t => if t.1 = key then (key, t.2 ++ [id]) else t
  else triggers ++ [(key, [id])]

/-- The actions of each combination of flow and trigger. -/
def groupTriggers (ids : List (String × Option String)) (actions : List (String × ActionSpec)) :
    List ((String × String) × List String) :=
  actions.foldl (fun triggers a =>
    a.2.triggers.foldl (fun triggers t =>
      addTrigger triggers
        (shown (flowTypeIds.lookup t.flowType), shown (triggerTypeIds.lookup t.triggerType))
        (shown (ids.lookup a.1).join)) triggers) []

def convergeTrigger (trigger : (String × String) × List String) : Script Unit := do
  let ((flowId, triggerId), actionIds) := trigger
  let flow ← request (.getFlow flowId)
  let existingIds := ((flow.find? fun t => t.triggerType == triggerId).map
    TriggerActions.actionIds).getD []
  if actionIds ≠ existingIds then request (.setTriggerActions flowId triggerId actionIds)
  else return

def convergeActions (actions : List (String × ActionSpec)) : Script Unit := do
  if actions = [] then return
  else
    let existing ← request .listActions
    let ids ← convergeEachAction existing actions
    forEach (groupTriggers ids actions) convergeTrigger

/-! ## The whole run -/

def convergeApp (pid : Nat) (projectId : Option String) (app : String × AppSpec) : Script Unit :=
  match app.2.type with
  | .confidential => convergeConfidentialApp pid projectId app.1 app.2
  | .publicApp => convergePublicApp projectId app.1 app.2

/-- The roles and grants of a project. -/
def convergeRoles (projectId : Option String) (grantedOrgIds : List String) (spec : ProjectSpec) :
    Script Unit := do
  forEach spec.roles fun role => convergeProjectRole projectId role.1 role.2
  forEach spec.userGrants fun grant => convergeUserGrant projectId grant.1 grant.2
  if grantedOrgIds ≠ [] then
    convergeProjectGrants projectId grantedOrgIds (spec.roles.map Prod.fst)

def convergeProjectSpec (pid : Nat) (grantedOrgIds : List String)
    (project : String × ProjectSpec) : Script Unit := do
  let projectId ← convergeProject project.1
  forEach project.2.apps (convergeApp pid projectId)
  convergeRoles projectId grantedOrgIds project.2

/-- The organisations other than that of the administrators. -/
def grantedOrgs (spec : DesiredState) (orgMap : OrgMap) : List String :=
  let allOrgIds := (spec.orgDomains.filterMap fun d => (orgMap.lookup d).join).filter (· ≠ "")
  allOrgIds.filter fun id => some id ≠ (orgMap.lookup spec.adminOrg).join

/-- What is configured before the organisations are. -/
def convergeBasics (spec : DesiredState) : Script Unit := do
  convergeDomainPolicy spec.policies.domainPolicy
  convergeLoginPolicy spec.policies.loginPolicy
  convergeSecurityPolicy spec.policies.enableImpersonation
  convergeTokenExchangeFeature spec.policies.enableImpersonation
  convergeAdminIamRoles spec.adminUsername spec.adminIamRoles
  convergeUsers spec.users spec.adminOrg
  convergeOrgDomain spec.adminOrg
  convergeUserEmails spec.adminOrg
  convergePrivacyPolicy spec.privacyPolicyLink

/-- The settings of the instance and of the organisations. -/
def convergeSettings (spec : DesiredState) : Script Unit := do
  if spec.policies.disallowPublicOrgRegistration then
    request (.setRestrictions [("disallowPublicOrgRegistration", .bool true)])
  whenSome spec.instanceSettings convergeInstance
  whenSome spec.orgs fun orgs => forEach orgs fun org => convergeOrgSettings org.2

def configure (pid : Nat) (spec : DesiredState) : Script Unit := do
  convergeBasics spec
  let orgMap ← convergeOrgs spec.orgDomains
  convergeSettings spec
  forEach spec.projects (convergeProjectSpec pid (grantedOrgs spec orgMap))
  convergeActions spec.actions

end Foundrix.ZitadelConfigure
