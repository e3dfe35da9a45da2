import Foundrix.ZitadelConfigure.AppWorld

/-!
# Tasks that leave the apps alone

The policies, the settings, the organisations, the users, the roles and the actions: none of
their functions performs an operation that changes the apps, the projects or the files, and
only `convergeProjectGrants` changes the grants of the projects.

* `Plain`: the operations of all others.
* `only_forEach`, `only_whenSome`: the ways in which they are composed.
* `only_convergeBasics`, `only_convergeOrgs`, `only_convergeSettings`, `only_convergeRoles`,
  `only_convergeActions`: the parts of a run.
-/

namespace Foundrix.ZitadelConfigure

open Text Effect

/-- Neither the apps, the files nor the grants of the projects are changed. -/
def Plain : {β : Type} → Op β → Prop
  | _, .inl (.createProjectGrant _ _ _) => False
  | _, e => Harmless e

theorem Plain.harmless {β : Type} (e : Op β) (h : Plain e) : Harmless e := by
  rcases e with c | f
  · cases c <;> first | exact h.elim | exact h
  · exact h

section Composition

variable {P : {β : Type} → Op β → Prop} {α : Type}

theorem only_forEach {items : List α} {step : α → Script Unit}
    (h : ∀ a ∈ items, (step a).Only P) : (forEach items step).Only P := by
  induction items with
  | nil => trivial
  | cons item rest ih =>
    rw [forEach]
    refine Prog.only_bind (h item List.mem_cons_self) fun _ => ?_
    exact ih fun a ha => h a (List.mem_cons_of_mem _ ha)

theorem only_whenSome {setting : Option α} {step : α → Script Unit}
    (h : ∀ a, (step a).Only P) : (whenSome setting step).Only P := by
  cases setting with
  | none => trivial
  | some a => exact h a

theorem only_ite {c : Prop} [Decidable c] {p q : Script α} (hp : p.Only P) (hq : q.Only P) :
    (if c then p else q).Only P := by
  split
  · exact hp
  · exact hq

end Composition

/-! ## Policies and features -/

theorem only_convergeDomainPolicy (desired : DomainPolicy) :
    (convergeDomainPolicy desired).Only Plain := by
  refine Prog.only_bind (only_request trivial) fun found => ?_
  refine Prog.only_bind (only_defined found) fun current => ?_
  exact only_ite trivial (only_request trivial)

theorem only_convergeSecurityPolicy (enableImpersonation : Bool) :
    (convergeSecurityPolicy enableImpersonation).Only Plain := by
  refine Prog.only_bind (only_request trivial) fun found => ?_
  exact only_ite trivial (only_request trivial)

theorem only_convergeLoginPolicy (desired : LoginPolicy) :
    (convergeLoginPolicy desired).Only Plain := by
  refine Prog.only_bind (only_request trivial) fun found => ?_
  refine Prog.only_bind (only_defined found) fun current => ?_
  exact only_ite trivial (only_request trivial)

theorem only_convergePrivacyPolicy (link : Option String) :
    (convergePrivacyPolicy link).Only Plain := by
  unfold convergePrivacyPolicy
  cases link.filter (· ≠ "") with
  | none => trivial
  | some link =>
    refine Prog.only_bind (only_request trivial) fun found => ?_
    refine Prog.only_bind (only_defined found) fun current => ?_
    exact only_ite trivial (only_request trivial)

theorem only_convergeTokenExchangeFeature (enabled : Bool) :
    (convergeTokenExchangeFeature enabled).Only Plain := by
  refine only_ite trivial (Prog.only_bind (only_request trivial) fun current => ?_)
  split
  · trivial
  · exact only_request trivial

theorem only_convergeAdminIamRoles (adminUsername : String) (desiredRoles : List String) :
    (convergeAdminIamRoles adminUsername desiredRoles).Only Plain := by
  refine only_ite trivial (Prog.only_bind (only_request trivial) fun users => ?_)
  dsimp only
  split
  · trivial
  · refine Prog.only_bind (only_request trivial) fun members => ?_
    split
    · exact only_request trivial
    · exact only_ite trivial (only_request trivial)

/-! ## Settings -/

theorem only_uploadBrandingAssets (pre : String) (desired : LabelPolicy) :
    (uploadBrandingAssets pre desired).Only Plain := by
  refine only_forEach fun asset _ => ?_
  split
  · trivial
  · exact Prog.only_bind (only_deno trivial) fun _ => only_request trivial

theorem only_convergeInstanceBranding (desired : LabelPolicy) :
    (convergeInstanceBranding desired).Only Plain := by
  refine Prog.only_bind (only_request trivial) fun _ => ?_
  exact Prog.only_bind (only_uploadBrandingAssets _ desired) fun _ => only_request trivial

theorem only_convergeInstanceLanguages (languages : Languages) :
    (convergeInstanceLanguages languages).Only Plain := by
  unfold convergeInstanceLanguages
  cases languages.default.filter (· ≠ "") with
  | none =>
    cases languages.allowed with
    | none => trivial
    | some allowed => exact only_request trivial
  | some language =>
    refine Prog.only_bind (only_request trivial) fun _ => ?_
    cases languages.allowed with
    | none => trivial
    | some allowed => exact only_request trivial

theorem only_convergeInstanceSecretGenerators
    (generators : List (String × SecretGeneratorConfig)) :
    (convergeInstanceSecretGenerators generators).Only Plain := by
  refine only_forEach fun generator _ => ?_
  split
  · trivial
  · exact only_request trivial

theorem only_convergeInstance (settings : InstanceSettings) :
    (convergeInstance settings).Only Plain := by
  refine Prog.only_bind (only_whenSome fun _ => only_request trivial) fun _ => ?_
  refine Prog.only_bind (only_whenSome only_convergeInstanceBranding) fun _ => ?_
  refine Prog.only_bind (only_whenSome only_convergeInstanceLanguages) fun _ => ?_
  refine Prog.only_bind (only_whenSome fun _ => only_request trivial) fun _ => ?_
  exact only_whenSome only_convergeInstanceSecretGenerators

theorem only_convergeOrgPasswordComplexity (desired : PasswordComplexityPolicy) :
    (convergeOrgPasswordComplexity desired).Only Plain := by
  refine Prog.only_bind (only_request trivial) fun isDefault => ?_
  exact only_ite (only_request trivial) (only_request trivial)

theorem only_convergeOrgBranding (desired : LabelPolicy) :
    (convergeOrgBranding desired).Only Plain := by
  have hassets : (do
      uploadBrandingAssets "/assets/v1/org" desired
      request (.activateLabelPolicy .org)).Only Plain :=
    Prog.only_bind (only_uploadBrandingAssets _ desired) fun _ => only_request trivial
  refine Prog.only_bind (only_request trivial) fun isDefault => ?_
  exact only_ite (Prog.only_bind (only_request trivial) fun _ => hassets)
    (Prog.only_bind (only_request trivial) fun _ => hassets)

theorem only_convergeOrgSettings (settings : OrgSettings) :
    (convergeOrgSettings settings).Only Plain := by
  refine Prog.only_bind (only_whenSome only_convergeOrgPasswordComplexity) fun _ => ?_
  exact only_whenSome only_convergeOrgBranding

/-! ## Organisations and users -/

theorem only_convergeOrgDomain (primaryDomain : String) :
    (convergeOrgDomain primaryDomain).Only Plain := by
  refine Prog.only_bind (only_request trivial) fun domains => ?_
  split
  · exact Prog.only_bind (only_request trivial) fun _ => only_request trivial
  · exact only_ite trivial (only_request trivial)

theorem only_domainOwners (orgs : List Org) (owners : List (String × String)) :
    (domainOwners owners orgs).Only Plain := by
  induction orgs generalizing owners with
  | nil => trivial
  | cons org orgs ih => exact Prog.only_bind (only_request trivial) fun domains => ih _

theorem only_assignOrgs (owners : List (String × String)) (orgs : List Org)
    (domains : List String) (orgMap : OrgMap) :
    (assignOrgs owners orgs orgMap domains).Only Plain := by
  induction domains generalizing orgMap with
  | nil => trivial
  | cons domain domains ih =>
    rw [assignOrgs]
    split
    · exact ih _
    · refine Prog.only_bind (only_request trivial) fun orgId => ?_
      refine Prog.only_bind (only_request trivial) fun _ => ?_
      exact Prog.only_bind (only_request trivial) fun _ => ih _

theorem only_convergeOrgs (orgDomains : List String) :
    (convergeOrgs orgDomains).Only Plain := by
  refine Prog.only_bind (only_request trivial) fun orgs => ?_
  exact Prog.only_bind (only_domainOwners orgs []) fun owners => only_assignOrgs _ _ _ _

theorem only_convergeUsers (users : List UserSpec) (adminOrg : String) :
    (convergeUsers users adminOrg).Only Plain := by
  refine only_ite trivial (Prog.only_bind (only_request trivial) fun existing => ?_)
  refine only_forEach fun user _ => ?_
  unfold convergeUser
  dsimp only
  split
  · exact only_ite (only_request trivial) trivial
  · exact Prog.only_bind (only_deno trivial) fun password => only_request trivial

theorem only_convergeUserEmails (primaryDomain : String) :
    (convergeUserEmails primaryDomain).Only Plain := by
  refine Prog.only_bind (only_request trivial) fun users => only_forEach fun user _ => ?_
  split
  · trivial
  · exact only_request trivial

/-! ## Roles and actions -/

theorem only_convergeProjectRole (projectId : Option String) (roleKey displayName : String) :
    (convergeProjectRole projectId roleKey displayName).Only Plain := by
  refine Prog.only_bind (only_request trivial) fun roles => ?_
  exact only_ite trivial (only_request trivial)

theorem only_convergeUserGrant (projectId : Option String) (userName : String)
    (roleKeys : List String) : (convergeUserGrant projectId userName roleKeys).Only Plain := by
  refine Prog.only_bind (only_request trivial) fun users => ?_
  split
  · trivial
  · refine Prog.only_bind (only_request trivial) fun grants => ?_
    cases grants with
    | nil => exact only_request trivial
    | cons grant grants => exact only_ite trivial (only_request trivial)

theorem only_convergeProjectGrants (projectId : Option String)
    (grantedOrgIds roleKeys : List String) :
    (convergeProjectGrants projectId grantedOrgIds roleKeys).Only Harmless := by
  refine Prog.only_bind (only_request trivial) fun existing => ?_
  exact only_forEach fun orgId _ => only_ite trivial (only_request trivial)

theorem only_convergeTrigger (trigger : (String × String) × List String) :
    (convergeTrigger trigger).Only Plain := by
  refine Prog.only_bind (only_request trivial) fun flow => ?_
  exact only_ite (only_request trivial) trivial

theorem only_convergeEachAction (existing : List StoredAction)
    (actions : List (String × ActionSpec)) :
    (convergeEachAction existing actions).Only Plain := by
  induction actions with
  | nil => trivial
  | cons action actions ih =>
    refine Prog.only_bind ?_ fun id => Prog.only_bind ih fun ids => trivial
    unfold convergeAction
    dsimp only
    split
    · exact only_ite (Prog.only_bind (only_request trivial) fun _ => trivial) trivial
    · exact only_request trivial

/-! ## The parts of a run -/

theorem only_convergeBasics (spec : DesiredState) : (convergeBasics spec).Only Plain := by
  refine Prog.only_bind (only_convergeDomainPolicy _) fun _ => ?_
  refine Prog.only_bind (only_convergeLoginPolicy _) fun _ => ?_
  refine Prog.only_bind (only_convergeSecurityPolicy _) fun _ => ?_
  refine Prog.only_bind (only_convergeTokenExchangeFeature _) fun _ => ?_
  refine Prog.only_bind (only_convergeAdminIamRoles _ _) fun _ => ?_
  refine Prog.only_bind (only_convergeUsers _ _) fun _ => ?_
  refine Prog.only_bind (only_convergeOrgDomain _) fun _ => ?_
  refine Prog.only_bind (only_convergeUserEmails _) fun _ => ?_
  exact only_convergePrivacyPolicy _

theorem only_convergeSettings (spec : DesiredState) : (convergeSettings spec).Only Plain := by
  have hlater : (do
      whenSome spec.instanceSettings convergeInstance
      whenSome spec.orgs fun orgs => forEach orgs fun org => convergeOrgSettings org.2).Only
      Plain := by
    refine Prog.only_bind (only_whenSome only_convergeInstance) fun _ => ?_
    exact only_whenSome fun orgs => only_forEach fun org _ => only_convergeOrgSettings org.2
  exact only_ite (Prog.only_bind (only_request trivial) fun _ => hlater) hlater

theorem only_convergeRoles (projectId : Option String) (grantedOrgIds : List String)
    (spec : ProjectSpec) : (convergeRoles projectId grantedOrgIds spec).Only Harmless := by
  refine Prog.only_bind (only_forEach fun role _ => ?_) fun _ => ?_
  · exact (only_convergeProjectRole _ _ _).mono Plain.harmless
  refine Prog.only_bind (only_forEach fun grant _ => ?_) fun _ => ?_
  · exact (only_convergeUserGrant _ _ _).mono Plain.harmless
  exact only_ite (only_convergeProjectGrants _ _ _) trivial

theorem only_convergeActions (actions : List (String × ActionSpec)) :
    (convergeActions actions).Only Plain := by
  refine only_ite trivial (Prog.only_bind (only_request trivial) fun existing => ?_)
  refine Prog.only_bind (only_convergeEachAction existing actions) fun ids => ?_
  exact only_forEach fun trigger _ => only_convergeTrigger trigger

end Foundrix.ZitadelConfigure
