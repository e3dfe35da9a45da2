import Foundrix.Stalwart.Client

/-!
# The configure script of the mail server

`main` of `services/stalwart-configure.ts`, which runs on every deploy: it deploys the
domains and their keys, hands the catch-all of the domains to the account that is to have
it, and converges some settings. What it prints is left out.

* `DesiredState`, `Op`: what the script reads and does.
* `convergeAccount`, `removeAddresses`: the accounts.
* `convergeAdminAccount`, `convergeCatchAllAccount`, `main`: the order of the hand-over.
-/

namespace Foundrix.Stalwart.Configure

open Text Effect

structure DesiredState where
  domains : List String
  extraDomains : List String := []
  /-- `catchAllUser ?? null`. -/
  catchAllUser : Option String := none
  adminUsername : String
  publicUrl : String

/-- The operations of the script. -/
inductive Op : Type → Type where
  | mail (c : Call) : Op (Except String Reply)
  | sleep (ms : Nat) : Op Unit

instance : Talks Op where
  call := Op.mail

abbrev Script := Prog Op String

def waitForApi : Script Unit :=
  .iterate (fun _ => do
    if ← isReady then return .inr ()
    .perform (.sleep 2000)
    return .inl ()) ()

variable (rt : Runtime)

/-! ## Domains -/

def convergeDomain (domain : String) : Script Unit := deployPrincipal rt (.domain domain)

/-- Whether `Object.keys(v)` has any. -/
def hasKeys : Json → Bool
  | .object entries => !entries.isEmpty
  | .array items => !items.isEmpty
  | .string s => s != ""
  | _ => false

def convergeDkimSignature (algorithm : Algorithm) (domain selector : String) :
    Script Unit := do
  let sigId := s!"{algorithm.lower}-{domain}"
  let existing ← getSettings rt s!"signature.{sigId}"
  if hasKeys existing then return
  createDkim rt algorithm domain selector
  let _ ← getDkimPublicKey sigId

def convergeDkim (domain : String) : Script Unit := do
  convergeDkimSignature rt .rsa domain "rsa"
  convergeDkimSignature rt .ed25519 domain "ed"

/-! ## Settings -/

/-- `current[key] !== value`. -/
def settingDiffers (current : Json) (key : String) (value : Option String) : Bool :=
  match current.get key, value with
  | none, none => false
  | some (.string s), some v => s != v
  | _, _ => true

def convergeSetting (key : String) (value : Option String) : Script Unit := do
  let current ← getSettings rt key
  if settingDiffers current key value then
    clearSettings rt key
    setSettings rt [(key, value)]

def desiredArcSeal : String :=
  "['rsa-' + config_get('report.domain'), 'ed25519-' + config_get('report.domain')]"

def convergeArcSeal : Script Unit := convergeSetting rt "auth.arc.seal" (some desiredArcSeal)

def convergeSettings (domain : Option String) (publicUrl : String) : Script Unit := do
  convergeSetting rt "session.mta-sts.mode" (some "enforce")
  convergeSetting rt "report.domain" domain
  convergeSetting rt "http.url" (some publicUrl)

/-! ## Accounts -/

def defaultRole : String := "user"

/-- The items that are in a list of the server or not, as `filter` and `includes` do it. -/
def itemsIn (present : Bool) (listed : Json) : List String → Script (List String)
  | [] => return []
  | item :: items => do
    let there ← Prog.orFail (includes listed item)
    let rest ← itemsIn present listed items
    return if there == present then item :: rest else rest

/-- Creates the account if absent, otherwise adds whatever addresses it is missing. -/
def convergeAccount (name : String) (desiredEmails : List String) (description : String) :
    Script Unit := do
  match (← getPrincipal name).filter fun a => truthy rt (some a) with
  | none => deployPrincipal rt (.individual name desiredEmails description [defaultRole])
  | some account =>
    let missing ← itemsIn false (orEmpty (account.get "emails")) desiredEmails
    let updates := missing.map fun e => Update.mk .addItem .emails e
    let hasRole ← Prog.orFail (includes (orEmpty (account.get "roles")) defaultRole)
    let updates := if hasRole then updates else updates ++ [⟨.addItem, .roles, defaultRole⟩]
    if updates.isEmpty then return
    updatePrincipal rt name updates

def removeAddresses (name : String) (addresses : List String) : Script Unit := do
  match (← getPrincipal name).filter fun a => truthy rt (some a) with
  | none => return
  | some account =>
    let present ← itemsIn true (orEmpty (account.get "emails")) addresses
    if present.isEmpty then return
    updatePrincipal rt name (present.map fun a => Update.mk .removeItem .emails a)

/-- The principal of a user: the login name with the first of the domains. -/
def principalName (user : String) (domains : List String) : String :=
  user ++ "@" ++ domains.head?.getD "undefined"

def catchAll (domain : String) : String := "@" ++ domain

def adminEmails (domains : List String) (catchAllUser : Option String) : List String :=
  domains.flatMap fun domain =>
    [s!"admin@{domain}", s!"postmaster@{domain}", s!"abuse@{domain}", s!"webmaster@{domain}"] ++
      if catchAllUser.isNone then [catchAll domain] else []

/-- Hands the catch-all over rather than leaving it on both accounts. -/
def convergeAdminAccount (adminUsername : String) (domains : List String)
    (catchAllUser : Option String) : Script Unit := do
  let principal := principalName adminUsername domains
  convergeAccount rt principal (adminEmails domains catchAllUser) "System administrator"
  if catchAllUser.isSome then
    removeAddresses rt principal (domains.map catchAll)

def sinkEmails (catchAllUser : String) (domains : List String) : List String :=
  domains.flatMap fun domain => [s!"{catchAllUser}@{domain}", catchAll domain]

def convergeCatchAllAccount (catchAllUser : String) (domains : List String) : Script Unit :=
  convergeAccount rt (principalName catchAllUser domains) (sinkEmails catchAllUser domains)
    "Catch-all for mail addressed to accounts that do not exist"

/-- The sink has to hold the catch-all before it is taken off the admin account, or mail
arriving in between has nowhere to go. -/
def convergeAccounts (spec : DesiredState) : Script Unit := do
  if let some catchAllUser := spec.catchAllUser then
    convergeCatchAllAccount rt catchAllUser spec.domains
  convergeAdminAccount rt spec.adminUsername spec.domains spec.catchAllUser

def convergeDomains (domains : List String) : Script Unit :=
  domains.forM fun domain => do
    convergeDomain rt domain
    convergeDkim rt domain

def main (spec : DesiredState) : Script Unit := do
  waitForApi
  convergeDomains rt spec.domains
  convergeDomains rt spec.extraDomains
  convergeArcSeal rt
  convergeAccounts rt spec
  convergeSettings rt spec.domains.head? spec.publicUrl
  reload rt

end Foundrix.Stalwart.Configure
