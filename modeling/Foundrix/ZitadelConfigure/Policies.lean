import Foundrix.ZitadelConfigure.Client

/-!
# Policies and settings

The functions of `services/zitadel-configure.ts` that bring policies, features and the
settings of the instance and of an organisation to their desired values.
-/

namespace Foundrix.ZitadelConfigure

open Text Effect

structure DomainPolicy where
  userLoginMustBeDomain : Bool
  validateOrgDomains : Bool
deriving DecidableEq, Repr

structure LoginPolicy where
  allowRegister : Bool
  allowExternalIdp : Bool
deriving DecidableEq, Repr

structure PasswordComplexityPolicy where
  minLength : Nat
  hasUppercase : Bool
  hasLowercase : Bool
  hasNumber : Bool
  hasSymbol : Bool
deriving DecidableEq, Repr

structure LabelPolicy where
  primaryColor : String
  backgroundColor : String
  warnColor : String
  fontColor : String
  primaryColorDark : String
  backgroundColorDark : String
  warnColorDark : String
  fontColorDark : String
  hideLoginNameSuffix : Bool
  disableWatermark : Bool
  themeMode : Nat
  logoUrl : Option String := none
  logoUrlDark : Option String := none
  iconUrl : Option String := none
  iconUrlDark : Option String := none
  fontUrl : Option String := none
deriving DecidableEq, Repr

structure SecretGeneratorConfig where
  length : Nat
  expirySeconds : Nat
  includeLowerLetters : Bool
  includeUpperLetters : Bool
  includeDigits : Bool
  includeSymbols : Bool
deriving DecidableEq, Repr

structure OidcSettings where
  accessTokenLifetimeSeconds : Nat
  idTokenLifetimeSeconds : Nat
  refreshTokenExpirationSeconds : Nat
  refreshTokenIdleExpirationSeconds : Nat
deriving DecidableEq, Repr

structure Languages where
  default : Option String := none
  allowed : Option (List String) := none
deriving DecidableEq, Repr

structure InstanceSettings where
  passwordComplexity : Option PasswordComplexityPolicy := none
  branding : Option LabelPolicy := none
  languages : Option Languages := none
  oidcSettings : Option OidcSettings := none
  secretGenerators : Option (List (String × SecretGeneratorConfig)) := none
deriving DecidableEq, Repr

structure OrgSettings where
  passwordComplexity : Option PasswordComplexityPolicy := none
  branding : Option LabelPolicy := none
deriving DecidableEq, Repr

/-- A number in JSON. -/
def jsNumber (n : Nat) : Json := .number (toString n)

/-! ## Policies that are replaced as a whole -/

def convergeDomainPolicy (desired : DomainPolicy) : Script Unit := do
  let current ← defined (← request (.getPolicy .domain))
  if current.flagIs "userLoginMustBeDomain" desired.userLoginMustBeDomain &&
      current.flagIs "validateOrgDomains" desired.validateOrgDomains then return
  else
    request (.updatePolicy .domain [
      ("userLoginMustBeDomain", .bool desired.userLoginMustBeDomain),
      ("validateOrgDomains", .bool desired.validateOrgDomains)])

/-- The other fields are sent along because the update replaces the policy. -/
def convergeSecurityPolicy (enableImpersonation : Bool) : Script Unit := do
  let current := (← request (.getPolicy .security)).getD []
  if current.flagIs "enableImpersonation" enableImpersonation then return
  else
    request (.updatePolicy .security [
      ("enableIframeEmbedding", current.getOr "enableIframeEmbedding" (.bool false)),
      ("allowedOrigins", current.getOr "allowedOrigins" (.array [])),
      ("enableImpersonation", .bool enableImpersonation)])

def convergeLoginPolicy (desired : LoginPolicy) : Script Unit := do
  let current ← defined (← request (.getPolicy .login))
  if current.flagIs "allowRegister" desired.allowRegister &&
      current.flagIs "allowExternalIdp" desired.allowExternalIdp then return
  else
    let settings := current.without ["details", "isDefault"]
    request (.updatePolicy .login
      ((settings.set "allowRegister" (.bool desired.allowRegister)).set
        "allowExternalIdp" (.bool desired.allowExternalIdp)))

/-- An empty link counts as none. -/
def convergePrivacyPolicy (link : Option String) : Script Unit := do
  match link.filter (· ≠ "") with
  | none => return
  | some link =>
    let current ← defined (← request (.getPolicy .privacy))
    if (current.get "privacyLink").bind Json.asStr = some link then return
    else request (.updatePolicy .privacy (current.set "privacyLink" (.string link)))

/-! ## Features and members -/

def convergeTokenExchangeFeature (enabled : Bool) : Script Unit := do
  if !enabled then return
  else
    let current ← request .getInstanceFeatures
    match (current.get "oidcTokenExchange").bind fun feature => feature.get "enabled" with
    | some (.bool true) => return
    | _ => request (.setInstanceFeatures [("oidcTokenExchange", true)])

/-- The desired roles are added to those that the account holds. -/
def convergeAdminIamRoles (adminUsername : String) (desiredRoles : List String) :
    Script Unit := do
  if desiredRoles = [] then return
  else
    let users ← request .searchUsers
    match users.find? fun u => u.userName == adminUsername with
    | none => return
    | some admin =>
      let members ← request .searchIamMembers
      match members.find? fun m => m.userId == admin.id with
      | none => request (.addIamMember admin.id desiredRoles)
      | some existing =>
        let missing := desiredRoles.filter fun r => !existing.roles.contains r
        if missing = [] then return
        else request (.updateIamMember admin.id (existing.roles ++ missing))

/-! ## Settings of the instance and of organisations -/

def PasswordComplexityPolicy.body (p : PasswordComplexityPolicy) : JsObject :=
  [("minLength", jsNumber p.minLength), ("hasUppercase", .bool p.hasUppercase),
    ("hasLowercase", .bool p.hasLowercase), ("hasNumber", .bool p.hasNumber),
    ("hasSymbol", .bool p.hasSymbol)]

def LabelPolicy.body (p : LabelPolicy) : JsObject :=
  [("primaryColor", .string p.primaryColor), ("backgroundColor", .string p.backgroundColor),
    ("warnColor", .string p.warnColor), ("fontColor", .string p.fontColor),
    ("primaryColorDark", .string p.primaryColorDark),
    ("backgroundColorDark", .string p.backgroundColorDark),
    ("warnColorDark", .string p.warnColorDark), ("fontColorDark", .string p.fontColorDark),
    ("hideLoginNameSuffix", .bool p.hideLoginNameSuffix),
    ("disableWatermark", .bool p.disableWatermark), ("themeMode", jsNumber p.themeMode)]

def SecretGeneratorConfig.body (generatorType : String) (c : SecretGeneratorConfig) : JsObject :=
  [("generatorType", .string generatorType), ("length", jsNumber c.length),
    ("expiry", .string s!"{c.expirySeconds}s"),
    ("includeLowerLetters", .bool c.includeLowerLetters),
    ("includeUpperLetters", .bool c.includeUpperLetters),
    ("includeDigits", .bool c.includeDigits), ("includeSymbols", .bool c.includeSymbols)]

/-- Apply a step to each item in turn. -/
def forEach {α : Type} (items : List α) (step : α → Script Unit) : Script Unit :=
  match items with
  | [] => return
  | item :: rest => do
    step item
    forEach rest step

theorem forEach_eq {α : Type} (items : List α) (step : α → Script Unit) :
    forEach items step = items.forM step := by
  induction items with
  | nil => rfl
  | cons item rest ih =>
    rw [forEach, ih]
    rfl

def uploadBrandingAssets (pre : String) (desired : LabelPolicy) : Script Unit :=
  forEach [
      (desired.logoUrl, "/policy/label/logo"),
      (desired.logoUrlDark, "/policy/label/logo/dark"),
      (desired.iconUrl, "/policy/label/icon"),
      (desired.iconUrlDark, "/policy/label/icon/dark"),
      (desired.fontUrl, "/policy/label/font")] fun asset => do
    match asset.1.filter (· ≠ "") with
    | none => return
    | some filePath =>
      deno (.readFile filePath)
      request (.uploadAsset (pre ++ asset.2) filePath)

def convergeInstancePasswordComplexity (desired : PasswordComplexityPolicy) : Script Unit :=
  request (.updatePasswordComplexityPolicy desired.body)

def convergeInstanceBranding (desired : LabelPolicy) : Script Unit := do
  request (.updateLabelPolicy desired.body)
  uploadBrandingAssets "/assets/v1/instance" desired
  request (.activateLabelPolicy .instance)

def convergeInstanceLanguages (languages : Languages) : Script Unit := do
  match languages.default.filter (· ≠ "") with
  | none => pure ()
  | some language => request (.setDefaultLanguage language)
  match languages.allowed with
  | none => return
  | some allowed =>
    request (.setRestrictions [("allowedLanguages",
      .object [("list", .array (allowed.map Json.string))])])

def convergeInstanceOIDCSettings (settings : OidcSettings) : Script Unit :=
  request (.updateOIDCSettings [
    ("accessTokenLifetime", s!"{settings.accessTokenLifetimeSeconds}s"),
    ("idTokenLifetime", s!"{settings.idTokenLifetimeSeconds}s"),
    ("refreshTokenExpiration", s!"{settings.refreshTokenExpirationSeconds}s"),
    ("refreshTokenIdleExpiration", s!"{settings.refreshTokenIdleExpirationSeconds}s")])

def secretGeneratorTypes : List (String × String) :=
  [("initializationMail", "1"), ("emailVerification", "2"), ("phoneVerification", "3"),
    ("passwordReset", "4"), ("passwordlessInitialization", "5"), ("appSecret", "6"),
    ("otpSms", "7"), ("otpEmail", "8")]

def convergeInstanceSecretGenerators (generators : List (String × SecretGeneratorConfig)) :
    Script Unit :=
  forEach generators fun generator => do
    match secretGeneratorTypes.lookup generator.1 with
    | none => return
    | some typeId => request (.updateSecretGenerator typeId (generator.2.body typeId))

def convergeOrgPasswordComplexity (desired : PasswordComplexityPolicy) : Script Unit := do
  let isDefault ← request .getOrgPasswordComplexityPolicy
  if isDefault then request (.addCustomPasswordComplexityPolicy desired.body)
  else request (.updateCustomPasswordComplexityPolicy desired.body)

def convergeOrgBranding (desired : LabelPolicy) : Script Unit := do
  let isDefault ← request .getOrgLabelPolicy
  if isDefault then request (.addCustomLabelPolicy desired.body)
  else request (.updateCustomLabelPolicy desired.body)
  uploadBrandingAssets "/assets/v1/org" desired
  request (.activateLabelPolicy .org)

/-- Do something with a setting that is there. -/
def whenSome {α : Type} (setting : Option α) (step : α → Script Unit) : Script Unit :=
  match setting with
  | none => return
  | some a => step a

def convergeInstance (settings : InstanceSettings) : Script Unit := do
  whenSome settings.passwordComplexity convergeInstancePasswordComplexity
  whenSome settings.branding convergeInstanceBranding
  whenSome settings.languages convergeInstanceLanguages
  whenSome settings.oidcSettings convergeInstanceOIDCSettings
  whenSome settings.secretGenerators convergeInstanceSecretGenerators

def convergeOrgSettings (settings : OrgSettings) : Script Unit := do
  whenSome settings.passwordComplexity convergeOrgPasswordComplexity
  whenSome settings.branding convergeOrgBranding

end Foundrix.ZitadelConfigure
