import Foundrix.ZitadelConfigure.Policies

/-!
# Organisations and users

The functions of `services/zitadel-configure.ts` for organisations with their domains, for
user accounts, and for the roles of a project and who holds them.

* `convergeOrgs`: an organisation for every domain.
* `convergeUsers`, `convergeUserEmails`, `convergeUserGrant`: accounts and their roles.
* `convergeProjectRole`, `convergeProjectGrants`: what a project declares and grants.
-/

namespace Foundrix.ZitadelConfigure

open Text Effect

/-! ## Organisations -/

/-- The domain of the organisation of the token. -/
def convergeOrgDomain (primaryDomain : String) : Script Unit := do
  let domains ← request (.listOrgDomains none)
  match domains.find? fun d => d.domainName == primaryDomain with
  | none =>
    request (.addOrgDomain primaryDomain none)
    request (.setPrimaryOrgDomain primaryDomain none)
  | some existing =>
    if existing.isPrimary then return
    else request (.setPrimaryOrgDomain primaryDomain none)

/-- The first owner of each domain. -/
def addOwners (owners : List (String × String)) (orgId : String) (domains : List OrgDomain) :
    List (String × String) :=
  domains.foldl (fun owners d =>
    if (owners.lookup d.domainName).isSome then owners
    else owners ++ [(d.domainName, orgId)]) owners

/-- The organisations that carry each domain, in any position. -/
def domainOwners (owners : List (String × String)) : List Org → Script (List (String × String))
  | [] => return owners
  | org :: orgs => do
    let domains ← request (.listOrgDomains (some org.id))
    domainOwners (addOwners owners org.id domains) orgs

/-- The organisation that is taken for a domain: its owner, else one that has it as primary
domain or as name. An empty id counts as none. -/
def existingOrg (owners : List (String × String)) (orgs : List Org) (domain : String) :
    Option String :=
  let found := match owners.lookup domain with
    | some id => some id
    | none =>
      (orgs.find? fun o : Org => o.primaryDomain == some domain || o.name == domain).map Org.id
  found.filter (· ≠ "")

/-- The organisation of a domain. An id that is missing from the answer is `none`. -/
abbrev OrgMap := List (String × Option String)

/-- The organisations of the domains left, after those in `orgMap`. -/
def assignOrgs (owners : List (String × String)) (orgs : List Org) (orgMap : OrgMap) :
    List String → Script OrgMap
  | [] => return orgMap
  | domain :: domains => do
    match existingOrg owners orgs domain with
    | some existingId => assignOrgs owners orgs (orgMap ++ [(domain, some existingId)]) domains
    | none =>
      let orgId ← request (.createOrg domain)
      request (.addOrgDomain domain orgId)
      request (.setPrimaryOrgDomain domain orgId)
      assignOrgs owners orgs (orgMap ++ [(domain, orgId)]) domains

/-- An organisation for each of some different domains. -/
def convergeOrgs (orgDomains : List String) : Script OrgMap := do
  let existingOrgs ← request .listOrgs
  let owners ← domainOwners [] existingOrgs
  assignOrgs owners existingOrgs [] orgDomains

/-! ## Users -/

structure UserSpec where
  username : String
  displayName : String
  passwordPath : String
deriving DecidableEq, Repr

/-- Created once and then left alone, apart from a login name that does not match. -/
def convergeUser (existing : List ZitadelUser) (adminOrg : String) (user : UserSpec) :
    Script Unit := do
  let loginName := user.username ++ "@" ++ adminOrg
  match existing.find? fun u => u.userName == user.username || u.userName == loginName with
  | some current =>
    if current.userName ≠ loginName then request (.updateUserName current.id loginName)
    else return
  | none =>
    let password ← deno (.readTextFile user.passwordPath)
    request (.createHumanUser loginName user.displayName loginName (jsTrim password))

def convergeUsers (users : List UserSpec) (adminOrg : String) : Script Unit := do
  if users = [] then return
  else
    let existing ← request .searchUsers
    forEach users (convergeUser existing adminOrg)

/-- The address that a user has at another domain, moved to `primaryDomain`. -/
def movedEmail (primaryDomain : String) (user : ZitadelUser) : Option String := do
  let (localPart, currentDomain) ← splitOnce (← user.email) '@'
  if currentDomain = primaryDomain then none else some (localPart ++ "@" ++ primaryDomain)

def convergeUserEmails (primaryDomain : String) : Script Unit := do
  let users ← request .searchUsers
  forEach users fun user =>
    match movedEmail primaryDomain user with
    | none => return
    | some newEmail => request (.updateUserEmail user.id newEmail)

/-! ## Roles -/

def convergeProjectRole (projectId : Option String) (roleKey displayName : String) :
    Script Unit := do
  let roles ← request (.searchProjectRoles projectId)
  if roles.contains roleKey then return
  else request (.addProjectRole projectId roleKey displayName)

/-- The part of a user name before the first `@`. -/
def bareName (userName : String) : String := ((split userName '@').head?).getD ""

/-- `[...new Set(roleKeys)]`. -/
def distinct (keys : List String) : List String :=
  keys.foldl (fun ks k => if ks.contains k then ks else ks ++ [k]) []

/-- The first account with the name, with or without a domain. -/
def convergeUserGrant (projectId : Option String) (userName : String) (roleKeys : List String) :
    Script Unit := do
  let users ← request .searchUsers
  match users.find? fun u => u.userName == userName || bareName u.userName == userName with
  | none => return
  | some user =>
    let grants ← request (.searchUserGrants user.id projectId)
    match grants with
    | grant :: _ =>
      if roleKeys.all fun k => grant.roleKeys.contains k then return
      else request (.updateUserGrant user.id grant.id (distinct (grant.roleKeys ++ roleKeys)))
    | [] => request (.createUserGrant user.id projectId roleKeys)

/-- A grant of the project to each organisation that has none. -/
def convergeProjectGrants (projectId : Option String) (grantedOrgIds roleKeys : List String) :
    Script Unit := do
  let existingOrgIds ← request (.listProjectGrants projectId)
  forEach grantedOrgIds fun orgId =>
    if existingOrgIds.contains orgId then return
    else request (.createProjectGrant projectId orgId roleKeys)

end Foundrix.ZitadelConfigure
