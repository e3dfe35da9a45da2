import Mathlib.Data.List.Nodup
import Mathlib.Logic.Function.Basic
import Foundrix.Effect.Reconcile
import Foundrix.ZitadelConfigure.Configure
import Foundrix.ZitadelConfigure.PolicyFields

/-!
# Policies, accounts and the domain of the organisation

`convergeBasics` of `services/zitadel-configure.ts`, which is run on every deploy before the
organisations are, against a Zitadel with policies, accounts and roles of its own.

* `Base`, `basics`: what Zitadel keeps, and how it answers.
* `BasicsMet`: what is asked for. `BasicsKept`: what no run takes away.
* `Converges`: what every run of one of the functions does.
* `policy_converges`, `exchange_converges`, `admin_converges`, `domain_converges`: all but the
  accounts.
-/

namespace Foundrix.ZitadelConfigure

open Text Effect

/-! ## The server -/

structure Human where
  id : String
  userName : String
  displayName : String
  email : Option String := none
  password : Option String := none
deriving DecidableEq, Repr

/-- What a search shows of an account. -/
def Human.shown (a : Human) : ZitadelUser := ⟨a.id, a.userName, a.email⟩

/-- The accounts, of which each has an id and a name of its own. -/
@[ext] structure People where
  list : List Human
  ids : (list.map Human.id).Nodup
  names : (list.map Human.userName).Nodup

structure Base where
  policies : Instance
  /-- Whether tokens may be exchanged. -/
  exchange : Bool
  people : People
  /-- The roles of the members of the instance. -/
  roles : String → Option (List String)
  /-- The domains of the organisation of the token. -/
  domains : List String
  primary : Option String
  /-- The files that hold the passwords. -/
  texts : String → Option String

/-- The accounts are now these. -/
def Peopled (l : List Human) (w w' : Base) : Prop :=
  ∃ p : People, p.list = l ∧ w' = { w with people := p }

def Human.rename (id userName : String) (a : Human) : Human :=
  if a.id = id then { a with userName } else a

def Human.mail (id email : String) (a : Human) : Human :=
  if a.id = id then { a with email := some email } else a

def Base.setRoles (w : Base) (userId : String) (roles : List String) : Base :=
  { w with roles := Function.update w.roles userId (some roles) }

def Base.exchanging (w : Base) (enabled : Bool) : Base := { w with exchange := enabled }

/-- What a search shows of a domain. -/
def Base.orgDomain (w : Base) (domain : String) : OrgDomain :=
  ⟨domain, decide (w.primary = some domain)⟩

/-- Only a domain of the organisation becomes its primary one. -/
def Primary (domain : String) (w w' : Base) : Prop :=
  domain ∈ w.domains ∧ w' = { w with primary := some domain }

/-- The answer says that tokens may be exchanged. -/
def ExchangeOn (features : JsObject) : Prop :=
  ((features.get "oidcTokenExchange").bind fun feature => feature.get "enabled") =
    some (.bool true)

def basicStep (R : Resets) : {β : Type} → Op β → Base → β → Base → Prop
  | _, .inl (.getPolicy p), w, b, w' =>
    ∃ v, policyStep R (.inl (.getPolicy p)) w.policies b v ∧ w' = { w with policies := v }
  | _, .inl (.updatePolicy p o), w, b, w' =>
    ∃ v, policyStep R (.inl (.updatePolicy p o)) w.policies b v ∧ w' = { w with policies := v }
  | _, .inl .getInstanceFeatures, w, b, w' =>
    Tells (fun o => ExchangeOn o ↔ w.exchange = true) b w w'
  | _, .inl (.setInstanceFeatures features), w, b, w' =>
    Does (fun w w' =>
      w' = w.exchanging ((features.lookup "oidcTokenExchange").getD w.exchange)) b w w'
  | _, .inl .searchUsers, w, b, w' => Tells (fun l => l.Perm (w.people.list.map Human.shown)) b w w'
  | _, .inl (.createHumanUser userName displayName email password), w, b, w' =>
    ¬ b.Precondition ∧ Changes (fun _ w' => ∃ id, Peopled
      (w.people.list ++ [⟨id, userName, displayName, some email, some password⟩]) w w') b w w'
  | _, .inl (.updateUserName id userName), w, b, w' =>
    Does (fun w => Peopled (w.people.list.map (Human.rename id userName)) w) b w w'
  | _, .inl (.updateUserEmail id email), w, b, w' =>
    Does (fun w => Peopled (w.people.list.map (Human.mail id email)) w) b w w'
  -- The answer is cut off after a hundred members.
  | _, .inl .searchIamMembers, w, b, w' =>
    Tells (fun l => ∀ m ∈ l, w.roles m.userId = some m.roles) b w w'
  | _, .inl (.addIamMember userId roles), w, b, w' =>
    ¬ b.Precondition ∧
      Changes (fun _ w' => w.roles userId = none ∧ w' = w.setRoles userId roles) b w w'
  | _, .inl (.updateIamMember userId roles), w, b, w' =>
    Does (fun w w' => w' = w.setRoles userId roles) b w w'
  | _, .inl (.listOrgDomains none), w, b, w' =>
    Tells (fun l => l.Perm (w.domains.map w.orgDomain)) b w w'
  | _, .inl (.addOrgDomain domain none), w, b, w' =>
    ¬ b.Precondition ∧ Changes (fun _ w' => domain ∉ w.domains ∧
      w' = { w with domains := w.domains ++ [domain] }) b w w'
  | _, .inl (.setPrimaryOrgDomain domain none), w, b, w' => Does (Primary domain) b w w'
  | _, .inr (.readTextFile path), w, b, w' => w' = w ∧ ∀ t, b = .ok t → w.texts path = some t
  | _, _, _, _, _ => False

/-- How Zitadel answers. -/
def basics (R : Resets) : Handler Op Base where
  step e w b w' := basicStep R e w b w'

/-! ## What is asked for -/

def UserSpec.login (u : UserSpec) (adminOrg : String) : String := u.username ++ "@" ++ adminOrg

/-- The account that is created for a user. -/
def UserSpec.human (u : UserSpec) (adminOrg id text : String) : Human :=
  ⟨id, u.login adminOrg, u.displayName, some (u.login adminOrg), some (jsTrim text)⟩

def DesiredState.desired (spec : DesiredState) : List Desired :=
  [.domain spec.policies.domainPolicy, .login spec.policies.loginPolicy,
    .security spec.policies.enableImpersonation, .privacy spec.privacyPolicyLink]

/-- No name of a user is that of another one, with or without the domain, and the administrator is
none of the users. -/
structure DesiredState.NamesApart (spec : DesiredState) : Prop where
  users : (spec.users.map UserSpec.username).Nodup
  logins : ∀ u ∈ spec.users, ∀ v ∈ spec.users, u.login spec.adminOrg ≠ v.username
  admin : ∀ u ∈ spec.users, u.login spec.adminOrg ≠ spec.adminUsername

structure BasicsMet (R : Resets) (spec : DesiredState) (w : Base) : Prop where
  policies : ∀ d ∈ spec.desired, d.Already R w.policies
  exchange : spec.policies.enableImpersonation = true → w.exchange = true
  admin : ∀ a ∈ w.people.list, a.userName = spec.adminUsername →
    ∀ r ∈ spec.adminIamRoles, ∃ l, w.roles a.id = some l ∧ r ∈ l
  users : ∀ u ∈ spec.users, ∃ a ∈ w.people.list, a.userName = u.login spec.adminOrg
  domain : spec.adminOrg ∈ w.domains ∧ w.primary = some spec.adminOrg
  emails : ∀ a ∈ w.people.list, movedEmail spec.adminOrg a.shown = none

/-- The account is still there, as it was but for a name of a user without the domain, and for an
address at another domain. -/
structure Follows (spec : DesiredState) (a a' : Human) : Prop where
  id : a'.id = a.id
  displayName : a'.displayName = a.displayName
  password : a'.password = a.password
  userName : a'.userName = a.userName ∨
    ∃ u ∈ spec.users, a.userName = u.username ∧ a'.userName = u.login spec.adminOrg
  email : a'.email = a.email ∨
    ∃ e, movedEmail spec.adminOrg a.shown = some e ∧ a'.email = some e

/-- What is as desired stays so. Every account is kept, one is created only for a user that has
none, with the password of its file, and only the roles of the administrator grow. -/
structure BasicsKept (R : Resets) (spec : DesiredState) (w w' : Base) : Prop where
  policies : ∀ d ∈ spec.desired, d.Already R w.policies → d.Already R w'.policies
  exchange : w.exchange = true → w'.exchange = true
  people : ∀ a ∈ w.people.list, ∃ a' ∈ w'.people.list, Follows spec a a'
  created : ∀ a' ∈ w'.people.list, (∃ a ∈ w.people.list, Follows spec a a') ∨
    ∃ u ∈ spec.users, (∀ a ∈ w.people.list, a.userName ≠ u.username ∧
      a.userName ≠ u.login spec.adminOrg) ∧
      ∃ id t, w.texts u.passwordPath = some t ∧ Follows spec (u.human spec.adminOrg id t) a'
  roles : ∀ id, w'.roles id = w.roles id ∨
    (∃ a ∈ w.people.list, a.id = id ∧ a.userName = spec.adminUsername) ∧
      ∃ l, w'.roles id = some l ∧
        ∀ r, r ∈ l ↔ r ∈ (w.roles id).getD [] ∨ r ∈ spec.adminIamRoles
  domains : ∀ d ∈ w.domains, d ∈ w'.domains
  newDomains : ∀ d ∈ w'.domains, d ∈ w.domains ∨ d = spec.adminOrg
  primary : w.primary = some spec.adminOrg → w'.primary = some spec.adminOrg
  texts : w'.texts = w.texts

section Runs

variable {R : Resets} {spec : DesiredState} {w w' : Base}

/-! ## What is kept -/

theorem Follows.refl (spec : DesiredState) (a : Human) : Follows spec a a :=
  ⟨rfl, rfl, rfl, Or.inl rfl, Or.inl rfl⟩

theorem movedEmail_congr {org : String} {u v : ZitadelUser} (h : u.email = v.email) :
    movedEmail org u = movedEmail org v := by
  unfold movedEmail
  rw [h]

/-- An address that was moved is not moved again. -/
theorem movedEmail_moved {org e : String} {u v : ZitadelUser} (h : movedEmail org u = some e)
    (hv : v.email = some e) : movedEmail org v = none := by
  unfold movedEmail at h ⊢
  rw [hv]
  cases hu : u.email with
  | none =>
    rw [hu] at h
    cases h
  | some email =>
    rw [hu] at h
    cases hsplit : splitOnce email '@' with
    | none =>
      simp only [Option.bind_eq_bind, Option.bind_some, hsplit, Option.bind_none] at h
      cases h
    | some parts =>
      obtain ⟨localPart, domain⟩ := parts
      simp only [Option.bind_eq_bind, Option.bind_some, hsplit] at h
      split at h
      · cases h
      obtain rfl := Option.some.inj h
      have hlocal : '@' ∉ localPart.toList := splitOnce_fst hsplit
      have hagain : splitOnce (localPart ++ "@" ++ org) '@' = some (localPart, org) :=
        splitOnce_of_notMem hlocal (by simp)
      simp only [Option.bind_eq_bind, Option.bind_some, hagain, if_pos]

theorem BasicsKept.refl (R : Resets) (spec : DesiredState) (w : Base) : BasicsKept R spec w w where
  policies _ _ h := h
  exchange h := h
  people a ha := ⟨a, ha, .refl spec a⟩
  created a ha := Or.inl ⟨a, ha, .refl spec a⟩
  roles _ := Or.inl rfl
  domains _ hd := hd
  newDomains _ hd := Or.inl hd
  primary h := h
  texts := rfl

theorem Follows.trans (hapart : spec.NamesApart) {a b c : Human} (hab : Follows spec a b)
    (hbc : Follows spec b c) : Follows spec a c := by
  refine ⟨hbc.id.trans hab.id, hbc.displayName.trans hab.displayName,
    hbc.password.trans hab.password, ?_, ?_⟩
  · rcases hab.userName with h | ⟨u, hu, hname, h⟩ <;>
      rcases hbc.userName with h' | ⟨v, hv, hname', h'⟩
    · exact Or.inl (h'.trans h)
    · exact Or.inr ⟨v, hv, h.symm.trans hname', h'⟩
    · exact Or.inr ⟨u, hu, hname, h'.trans h⟩
    · exact absurd (h.symm.trans hname') (hapart.logins u hu v hv)
  · rcases hab.email with h | ⟨e, hmoved, h⟩ <;> rcases hbc.email with h' | ⟨e', hmoved', h'⟩
    · exact Or.inl (h'.trans h)
    · exact Or.inr ⟨e', (movedEmail_congr h.symm).trans hmoved', h'⟩
    · exact Or.inr ⟨e, hmoved, h'.trans h⟩
    · rw [movedEmail_moved hmoved h] at hmoved'
      cases hmoved'

/-- An account with a name of a user follows one with such a name. -/
theorem Follows.named (hapart : spec.NamesApart) {a b : Human} (h : Follows spec a b) {u : UserSpec}
    (hu : u ∈ spec.users) (ha : a.userName = u.username ∨ a.userName = u.login spec.adminOrg) :
    b.userName = u.username ∨ b.userName = u.login spec.adminOrg := by
  rcases h.userName with hsame | ⟨v, hv, hname, hlogin⟩
  · rwa [hsame]
  · rcases ha with ha | ha
    · obtain rfl := List.inj_on_of_nodup_map hapart.users hv hu (hname.symm.trans ha)
      exact Or.inr hlogin
    · exact absurd (ha.symm.trans hname) (hapart.logins u hu v hv)

/-- Who is the administrator was so before. -/
theorem BasicsKept.admin (hapart : spec.NamesApart) (h : BasicsKept R spec w w') {a' : Human}
    (ha' : a' ∈ w'.people.list) (hname : a'.userName = spec.adminUsername) :
    ∃ a ∈ w.people.list, a.id = a'.id ∧ a.userName = spec.adminUsername := by
  have hfollows : ∀ {a}, Follows spec a a' → a.id = a'.id ∧ a.userName = spec.adminUsername := by
    intro a hf
    rcases hf.userName with hsame | ⟨u, hu, -, hlogin⟩
    · exact ⟨hf.id.symm, hsame.symm.trans hname⟩
    · exact absurd (hlogin.symm.trans hname) (hapart.admin u hu)
  rcases h.created a' ha' with ⟨a, ha, hf⟩ | ⟨u, hu, -, id, t, -, hf⟩
  · exact ⟨a, ha, hfollows hf⟩
  · exact absurd (hfollows hf).2 (hapart.admin u hu)

theorem BasicsKept.trans (hapart : spec.NamesApart) {x y z : Base} (h : BasicsKept R spec x y)
    (h' : BasicsKept R spec y z) : BasicsKept R spec x z where
  policies d hd hx := h'.policies d hd (h.policies d hd hx)
  exchange hx := h'.exchange (h.exchange hx)
  people a ha := by
    obtain ⟨b, hb, hab⟩ := h.people a ha
    obtain ⟨c, hc, hbc⟩ := h'.people b hb
    exact ⟨c, hc, hab.trans hapart hbc⟩
  created c hc := by
    rcases h'.created c hc with ⟨b, hb, hbc⟩ | ⟨u, hu, hnone, id, t, ht, hf⟩
    · rcases h.created b hb with ⟨a, ha, hab⟩ | ⟨u, hu, hnone, id, t, ht, hf⟩
      · exact Or.inl ⟨a, ha, hab.trans hapart hbc⟩
      · exact Or.inr ⟨u, hu, hnone, id, t, ht, hf.trans hapart hbc⟩
    · refine Or.inr ⟨u, hu, fun a ha => ?_, id, t, h.texts ▸ ht, hf⟩
      obtain ⟨b, hb, hab⟩ := h.people a ha
      by_contra hnamed
      rw [← not_or, not_not] at hnamed
      rcases hab.named hapart hu hnamed with hb' | hb'
      · exact (hnone b hb).1 hb'
      · exact (hnone b hb).2 hb'
  roles id := by
    rcases h'.roles id with hsame | ⟨⟨b, hb, rfl, hbname⟩, l, hl, hmem⟩
    · rw [hsame]
      exact h.roles id
    · refine Or.inr ⟨h.admin hapart hb hbname, l, hl, fun r => ?_⟩
      rw [hmem]
      rcases h.roles b.id with hsame | ⟨-, l', hl', hmem'⟩
      · rw [hsame]
      · rw [hl', Option.getD_some, hmem', or_assoc, or_self]
  domains d hd := h'.domains d (h.domains d hd)
  newDomains d hd := (h'.newDomains d hd).elim (h.newDomains d) Or.inr
  primary hx := h'.primary (h.primary hx)
  texts := h'.texts.trans h.texts

/-! ## Policies -/

/-- What every run of a program does: it keeps what is to be kept, does nothing where its goal is
reached, and reaches it where it completes. -/
def Converges (R : Resets) (spec : DesiredState) (p : Script Unit) (G : Base → Prop) : Prop :=
  ∀ w, wpOk (basics R) (fun w' => BasicsKept R spec w w' ∧ (G w → w' = w)) p (fun _ w' => G w') w

theorem converges_pure {G : Base → Prop} (hG : ∀ w, G w) : Converges R spec (.pure ()) G :=
  fun w => wpOk_pure ⟨.refl R spec w, fun _ => rfl⟩ (hG w)

theorem getPolicy_spec (p : Policy) : wpOk (basics R) (fun w' => w' = w) (request (.getPolicy p))
    (fun found _ => ∃ o, found = some o ∧ Shows w.policies R p o) w := by
  have hstep : ∀ b w', (basics R).step (.inl (.getPolicy p)) w b w' → ¬ b.Precondition ∧ w' = w ∧
      ∀ found, b = .ok found → ∃ o, found = some o ∧ Shows w.policies R p o := by
    rintro b w' ⟨v, ⟨hpre, hchanges⟩, rfl⟩
    cases b with
    | ok found =>
      obtain ⟨hshows, rfl⟩ := hchanges
      exact ⟨hpre, rfl, fun found' h => Answer.ok.inj h ▸ hshows⟩
    | refused status text =>
      rcases hchanges with rfl | ⟨-, -, rfl⟩ <;> exact ⟨hpre, rfl, fun _ h => by cases h⟩
    | failed message =>
      rcases hchanges with rfl | ⟨-, -, rfl⟩ <;> exact ⟨hpre, rfl, fun _ h => by cases h⟩
  exact request_tells hstep

theorem updatePolicy_spec (p : Policy) (o : JsObject) :
    wpOk (basics R) (fun w' => w' = w ∨ w' = { w with policies := w.policies.put p o })
      (request (.updatePolicy p o)) (fun _ w' => w' = { w with policies := w.policies.put p o })
      w := by
  have hstep : ∀ b w', (basics R).step (.inl (.updatePolicy p o)) w b w' → ¬ b.Precondition ∧
      Changes (fun _ w' => w' = { w with policies := w.policies.put p o }) b w w' := by
    rintro b w' ⟨v, ⟨hpre, hchanges⟩, rfl⟩
    refine ⟨hpre, ?_⟩
    cases b with
    | ok u =>
      obtain rfl := hchanges
      rfl
    | refused status text =>
      rcases hchanges with rfl | ⟨u, rfl⟩
      · exact Or.inl rfl
      · exact Or.inr ⟨u, rfl⟩
    | failed message =>
      rcases hchanges with rfl | ⟨u, rfl⟩
      · exact Or.inl rfl
      · exact Or.inr ⟨u, rfl⟩
  exact wp_always_mono (request_effects hstep) fun _ h => h.imp_right fun hput =>
    hput.elim fun _ h => h

/-- Whatever object shows the policy, the function sees from it whether it is as desired: with
another answer it would count as an update more or one less. -/
theorem already_iff {d : Desired} {already : JsObject → Bool} {v : Instance} {o : JsObject}
    {k : Option JsObject → Script Unit} (hd : d.converge = (request (.getPolicy d.policy)).bind k)
    (hk : ∀ o, k (some o) =
      if already o then return else request (.updatePolicy d.policy (d.body o)))
    (ho : Shows v R d.policy o) : already o = true ↔ d.Already R v := by
  have hrun : ∀ v', (∃ o, Shows v R d.policy o ∧
      v' = if already o then v else v.put d.policy (d.body o)) ↔
      (d.Already R v ∧ v' = v) ∨
        ¬ d.Already R v ∧ ∃ o, Shows v R d.policy o ∧ v' = v.put d.policy (d.body o) := by
    intro v'
    rw [← run_replace already d.body hk, ← hd]
    exact run_converge
  have hput : ∀ o', v ≠ v.put d.policy o' := fun o' h =>
    absurd (congrArg Instance.updates h) (Nat.ne_of_lt (Nat.lt_succ_self _))
  constructor
  · intro halready
    rcases (hrun v).mp ⟨o, ho, (if_pos halready).symm⟩ with h | ⟨-, o', -, h⟩
    · exact h.1
    · exact absurd h (hput _)
  · intro hdone
    by_contra halready
    rcases (hrun _).mp ⟨o, ho, (if_neg halready).symm⟩ with ⟨-, h⟩ | h
    · exact absurd h.symm (hput _)
    · exact absurd hdone h.1

theorem already_put {d d' : Desired} (hd : d ∈ spec.desired) (hd' : d' ∈ spec.desired)
    {v : Instance} {o : JsObject} (h : d'.Already R v) :
    d'.Already R (v.put d.policy (d.body o)) := by
  have hpolicy : d'.policy = d.policy → d' = d := by
    simp only [DesiredState.desired, List.mem_cons, List.not_mem_nil, or_false] at hd hd'
    rcases hd with rfl | rfl | rfl | rfl <;> rcases hd' with rfl | rfl | rfl | rfl <;>
      first | exact fun _ => rfl | exact fun hp => by cases hp
  intro e he
  by_cases hp : d'.policy = d.policy
  · obtain rfl := hpolicy hp
    rw [put_value]
    exact body_named d' o _ e he
  · have hcurrent : (v.put d.policy (d.body o)).current d'.policy = v.current d'.policy :=
      Function.update_of_ne hp _ _
    unfold Instance.value
    rw [hcurrent]
    exact h e he

theorem replace_converges {d : Desired} (hmem : d ∈ spec.desired) (already : JsObject → Bool)
    {k : Option JsObject → Script Unit} (hd : d.converge = (request (.getPolicy d.policy)).bind k)
    (hk : ∀ o, k (some o) =
      if already o then return else request (.updatePolicy d.policy (d.body o))) :
    Converges R spec d.converge fun w => d.Already R w.policies := by
  intro w
  have hkept : ∀ o, BasicsKept R spec w { w with policies := w.policies.put d.policy (d.body o) } :=
    fun _ => { BasicsKept.refl R spec w with policies := fun _ hd' => already_put hmem hd' }
  rw [hd]
  refine wpOk_seq_within (getPolicy_spec d.policy) ?_ ?_
  · rintro w' rfl
    exact ⟨.refl R spec w', fun _ => rfl⟩
  rintro found w' rfl ⟨o, rfl, ho⟩
  rw [hk]
  have hiff := already_iff hd hk ho
  by_cases halready : already o = true
  · rw [if_pos halready]
    exact wpOk_pure ⟨.refl R spec w', fun _ => rfl⟩ (hiff.mp halready)
  · rw [if_neg halready]
    have hput := updatePolicy_spec (R := R) (w := w') d.policy (d.body o)
    refine wpOk_mono (wp_always_mono hput ?_) ?_
    · rintro v (rfl | rfl)
      · exact ⟨.refl R spec v, fun _ => rfl⟩
      · exact ⟨hkept _, fun h => absurd (hiff.mpr h) halready⟩
    · rintro _ v - rfl e he
      rw [put_value]
      exact body_named d o _ e he

theorem policy_converges {d : Desired} (hmem : d ∈ spec.desired) :
    Converges R spec d.converge fun w => d.Already R w.policies := by
  cases d with
  | domain policy =>
    exact replace_converges hmem
      (fun o => o.flagIs "userLoginMustBeDomain" policy.userLoginMustBeDomain &&
        o.flagIs "validateOrgDomains" policy.validateOrgDomains) rfl fun o => rfl
  | login policy =>
    exact replace_converges hmem (fun o => o.flagIs "allowRegister" policy.allowRegister &&
      o.flagIs "allowExternalIdp" policy.allowExternalIdp) rfl fun o => rfl
  | security enable =>
    exact replace_converges hmem (fun o => o.flagIs "enableImpersonation" enable) rfl fun o => rfl
  | privacy link =>
    rcases hlink : link.filter (· ≠ "") with _ | l
    · have hprog : (Desired.privacy link).converge = .pure () := by
        simp only [Desired.converge, convergePrivacyPolicy, hlink]
        rfl
      rw [hprog]
      refine converges_pure fun w e he => ?_
      simp only [Desired.named, hlink] at he
      cases he
    · obtain ⟨rfl, -⟩ := Option.filter_eq_some_iff.mp hlink
      refine replace_converges hmem
        (fun o => decide ((o.get "privacyLink").bind Json.asStr = some l))
        (k := fun found => (defined found).bind fun current =>
          if (current.get "privacyLink").bind Json.asStr = some l then return
          else request (.updatePolicy .privacy (current.set "privacyLink" (.string l))))
        ?_ fun o => ?_
      · simp only [Desired.converge, convergePrivacyPolicy, hlink]
        rfl
      · show (if (o.get "privacyLink").bind Json.asStr = some l then _ else _) = _
        simp only [decide_eq_true_eq]
        rfl

/-! ## The feature and the roles of the administrator -/

theorem exchange_converges (enabled : Bool) :
    Converges R spec (convergeTokenExchangeFeature enabled)
      fun w => enabled = true → w.exchange = true := by
  intro w
  unfold convergeTokenExchangeFeature
  cases enabled with
  | false =>
    have hnever : ∀ w' : Base, false = true → w'.exchange = true := fun _ h => by cases h
    exact converges_pure hnever w
  | true =>
    have hread : wpOk (basics R) (fun w' => w' = w) (request .getInstanceFeatures)
        (fun features _ => ExchangeOn features ↔ w.exchange = true) w :=
      request_tells fun _ _ hs => hs
    rw [if_neg (by simp)]
    refine wpOk_seq_within hread ?_ ?_
    · rintro w' rfl
      exact ⟨.refl R spec w', fun _ => rfl⟩
    rintro current w' rfl hon
    dsimp only
    split
    · rename_i htrue
      exact wpOk_pure ⟨.refl R spec w', fun _ => rfl⟩ fun _ => hon.mp htrue
    · rename_i hfalse
      have hset : wpOk (basics R) (fun v => v = w' ∨ v = w'.exchanging true)
          (request (.setInstanceFeatures [("oidcTokenExchange", true)]))
          (fun _ v => v = w'.exchanging true) w' :=
        request_does (E := fun (w v : Base) => v = w.exchanging true) fun _ _ hs => hs
      refine wpOk_mono (wp_always_mono hset ?_) ?_
      · rintro v (rfl | rfl)
        · exact ⟨.refl R spec v, fun _ => rfl⟩
        · refine ⟨{ BasicsKept.refl R spec w' with exchange := fun _ => rfl }, fun h => ?_⟩
          exact absurd (hon.mpr (h rfl)) hfalse
      · rintro _ v - rfl _
        rfl

theorem searchUsers_spec : wpOk (basics R) (fun w' => w' = w) (request .searchUsers)
    (fun l _ => l.Perm (w.people.list.map Human.shown)) w :=
  request_tells fun _ _ hs => hs

theorem People.eq_of_id {p : People} {a b : Human} (ha : a ∈ p.list) (hb : b ∈ p.list)
    (h : a.id = b.id) : a = b := List.inj_on_of_nodup_map p.ids ha hb h

theorem People.eq_of_name {p : People} {a b : Human} (ha : a ∈ p.list) (hb : b ∈ p.list)
    (h : a.userName = b.userName) : a = b := List.inj_on_of_nodup_map p.names ha hb h

/-- The administrator holds the roles. -/
def Administers (name : String) (roles : List String) (w : Base) : Prop :=
  ∀ a ∈ w.people.list, a.userName = name → ∀ r ∈ roles, ∃ l, w.roles a.id = some l ∧ r ∈ l

/-- The roles of the one account with the name are now these. -/
theorem administers_update {a : Human} (ha : a ∈ w.people.list) {roles l : List String}
    (hroles : ∀ r ∈ roles, r ∈ l) :
    Administers a.userName roles (w.setRoles a.id l) := by
  rintro b hb hname r hr
  obtain rfl := People.eq_of_name hb ha hname
  exact ⟨l, Function.update_self _ _ _, hroles r hr⟩

theorem kept_roles {a : Human} (ha : a ∈ w.people.list) (hname : a.userName = spec.adminUsername)
    {l : List String} (hl : ∀ r, r ∈ l ↔ r ∈ (w.roles a.id).getD [] ∨ r ∈ spec.adminIamRoles) :
    BasicsKept R spec w (w.setRoles a.id l) := by
  refine { BasicsKept.refl R spec w with roles := fun id => ?_ }
  by_cases hid : id = a.id
  · subst hid
    exact Or.inr ⟨⟨a, ha, rfl, hname⟩, l, Function.update_self _ _ _, hl⟩
  · exact Or.inl (Function.update_of_ne hid _ _)

theorem admin_converges : Converges R spec (convergeAdminIamRoles spec.adminUsername
    spec.adminIamRoles) (Administers spec.adminUsername spec.adminIamRoles) := by
  intro w
  unfold convergeAdminIamRoles
  by_cases hempty : spec.adminIamRoles = []
  · rw [if_pos hempty, hempty]
    have hnone : ∀ w' : Base, Administers spec.adminUsername [] w' :=
      fun _ _ _ _ _ hr => absurd hr List.not_mem_nil
    exact converges_pure hnone w
  rw [if_neg hempty]
  have hsame : ∀ w', w' = w → BasicsKept R spec w w' ∧
      (Administers spec.adminUsername spec.adminIamRoles w → w' = w) := by
    rintro w' rfl
    exact ⟨.refl R spec w', fun _ => rfl⟩
  refine wpOk_seq_within searchUsers_spec hsame ?_
  rintro users w' rfl hperm
  cases hfind : users.find? fun u => u.userName == spec.adminUsername with
  | none =>
    refine wpOk_pure (hsame _ rfl) fun a ha hname => ?_
    have hmem : a.shown ∈ users := hperm.mem_iff.mpr (List.mem_map_of_mem ha)
    exact absurd (beq_iff_eq.mpr hname) (List.find?_eq_none.mp hfind _ hmem)
  | some admin =>
    obtain ⟨a, ha, rfl⟩ := List.mem_map.mp (hperm.mem_iff.mp (List.mem_of_find?_eq_some hfind))
    have hname : a.userName = spec.adminUsername := by
      simpa [Human.shown] using List.find?_some hfind
    have hmembers : wpOk (basics R) (fun v => v = w') (request .searchIamMembers)
        (fun l _ => ∀ m ∈ l, w'.roles m.userId = some m.roles) w' :=
      request_tells fun _ _ hs => hs
    dsimp only
    refine wpOk_seq_within hmembers hsame ?_
    rintro members w rfl hlisted
    -- the account is no member, a member with all roles, or one that lacks some
    cases hmember : members.find? fun m => m.userId == a.shown.id with
    | none =>
      have hadd : wpOk (basics R)
          (fun v => v = w ∨ ∃ _ : Unit, w.roles a.id = none ∧
            v = w.setRoles a.id spec.adminIamRoles)
          (request (.addIamMember a.id spec.adminIamRoles))
          (fun _ v => w.roles a.id = none ∧ v = w.setRoles a.id spec.adminIamRoles) w :=
        request_effects fun _ _ hs => hs
      refine wpOk_mono (wp_always_mono hadd ?_) ?_
      · rintro v (rfl | ⟨-, hnone, rfl⟩)
        · exact hsame _ rfl
        · refine ⟨kept_roles ha hname fun r => by simp [hnone], fun hall => ?_⟩
          obtain ⟨r, hr⟩ := List.exists_mem_of_ne_nil _ hempty
          obtain ⟨l, hl, -⟩ := hall a ha hname r hr
          rw [hnone] at hl
          cases hl
      · rintro _ v - ⟨-, rfl⟩
        rw [← hname]
        exact administers_update ha fun r hr => hr
    | some existing =>
      have hid : existing.userId = a.id := by
        simpa [Human.shown] using List.find?_some hmember
      have hroles : w.roles a.id = some existing.roles :=
        hid ▸ hlisted _ (List.mem_of_find?_eq_some hmember)
      by_cases hmissing : (spec.adminIamRoles.filter fun r => !existing.roles.contains r) = []
      · dsimp only
        rw [if_pos hmissing]
        refine wpOk_pure (hsame _ rfl) fun b hb hbname r hr => ?_
        obtain rfl := People.eq_of_name hb ha (hbname.trans hname.symm)
        have hin := List.filter_eq_nil_iff.mp hmissing r hr
        exact ⟨_, hroles, by simpa using hin⟩
      · dsimp only
        rw [if_neg hmissing]
        have hall : ∀ r, r ∈ existing.roles ++
            (spec.adminIamRoles.filter fun r => !existing.roles.contains r) ↔
            r ∈ (w.roles a.id).getD [] ∨ r ∈ spec.adminIamRoles := by
          intro r
          rw [hroles, Option.getD_some, List.mem_append, List.mem_filter]
          by_cases hr : r ∈ existing.roles <;> simp [hr]
        have hupdate : ∀ l, wpOk (basics R) (fun v => v = w ∨ v = w.setRoles a.id l)
            (request (.updateIamMember a.id l)) (fun _ v => v = w.setRoles a.id l) w := fun l =>
          request_does (E := fun (w v : Base) => v = w.setRoles a.id l) fun _ _ hs => hs
        refine wpOk_mono (wp_always_mono (hupdate _) ?_) ?_
        · rintro v (rfl | rfl)
          · exact hsame _ rfl
          · refine ⟨kept_roles ha hname hall, fun hdone => absurd ?_ hmissing⟩
            rw [List.filter_eq_nil_iff]
            intro r hr
            obtain ⟨l, hl, hin⟩ := hdone a ha hname r hr
            obtain rfl := Option.some.inj (hroles.symm.trans hl)
            simpa using hin
        · rintro _ v - rfl
          rw [← hname]
          exact administers_update ha fun r hr => (hall r).mpr (Or.inr hr)

/-! ## The domain of the organisation -/

theorem setPrimary_spec (domain : String) :
    wpOk (basics R) (fun v => v = w ∨ Primary domain w v)
      (request (.setPrimaryOrgDomain domain none)) (fun _ v => Primary domain w v) w :=
  request_does fun _ _ hs => hs

theorem Primary.kept (h : Primary spec.adminOrg w w') : BasicsKept R spec w w' := by
  obtain ⟨-, rfl⟩ := h
  exact { BasicsKept.refl R spec w with primary := fun _ => rfl }

/-- The domain is the primary one. -/
def HasPrimary (domain : String) (w : Base) : Prop := domain ∈ w.domains ∧ w.primary = some domain

theorem domain_converges :
    Converges R spec (convergeOrgDomain spec.adminOrg) (HasPrimary spec.adminOrg) := by
  intro w
  have hlist : wpOk (basics R) (fun w' => w' = w) (request (.listOrgDomains none))
      (fun l _ => l.Perm (w.domains.map w.orgDomain)) w :=
    request_tells fun _ _ hs => hs
  refine wpOk_seq_within hlist ?_ ?_
  · rintro w' rfl
    exact ⟨.refl R spec w', fun _ => rfl⟩
  rintro domains w' rfl hperm
  have hlisted : ∀ d ∈ w'.domains, w'.orgDomain d ∈ domains := fun d hd =>
    hperm.mem_iff.mpr (List.mem_map_of_mem hd)
  cases hfind : domains.find? fun d => d.domainName == spec.adminOrg with
  | none =>
    have hmissing : spec.adminOrg ∉ w'.domains := fun hin =>
      absurd (beq_self_eq_true spec.adminOrg) (List.find?_eq_none.mp hfind _ (hlisted _ hin))
    have hadd : wpOk (basics R)
        (fun v => v = w' ∨ ∃ _ : Unit, spec.adminOrg ∉ w'.domains ∧
          v = { w' with domains := w'.domains ++ [spec.adminOrg] })
        (request (.addOrgDomain spec.adminOrg none)) (fun _ v => spec.adminOrg ∉ w'.domains ∧
          v = { w' with domains := w'.domains ++ [spec.adminOrg] }) w' :=
      request_effects fun _ _ hs => hs
    have hkept : BasicsKept R spec w' { w' with domains := w'.domains ++ [spec.adminOrg] } :=
      { BasicsKept.refl R spec w' with
        domains := fun _ => List.mem_append_left _
        newDomains := fun _ hd => (List.mem_append.mp hd).imp_right List.mem_singleton.mp }
    refine wpOk_seq (wp_always_mono hadd ?_) ?_
    · rintro v (rfl | ⟨-, -, rfl⟩)
      · exact ⟨.refl R spec v, fun _ => rfl⟩
      · exact ⟨hkept, fun h => absurd h.1 hmissing⟩
    rintro _ v - ⟨-, rfl⟩
    refine wpOk_mono (wp_always_mono (setPrimary_spec spec.adminOrg) ?_) ?_
    · rintro v (rfl | ⟨-, rfl⟩)
      · exact ⟨hkept, fun h => absurd h.1 hmissing⟩
      · exact ⟨{ hkept with primary := fun _ => rfl }, fun h => absurd h.1 hmissing⟩
    · rintro _ v - ⟨hin, rfl⟩
      exact ⟨hin, rfl⟩
  | some existing =>
    obtain ⟨d, hd, rfl⟩ := List.mem_map.mp (hperm.mem_iff.mp (List.mem_of_find?_eq_some hfind))
    obtain rfl : d = spec.adminOrg := by simpa [Base.orgDomain] using List.find?_some hfind
    dsimp only [Base.orgDomain]
    by_cases hprimary : w'.primary = some spec.adminOrg
    · rw [if_pos (decide_eq_true hprimary)]
      exact wpOk_pure ⟨.refl R spec w', fun _ => rfl⟩ ⟨hd, hprimary⟩
    · rw [if_neg (by simpa using hprimary)]
      refine wpOk_mono (wp_always_mono (setPrimary_spec spec.adminOrg) ?_) ?_
      · rintro v (rfl | hset)
        · exact ⟨.refl R spec v, fun _ => rfl⟩
        · exact ⟨hset.kept, fun h => absurd h.2 hprimary⟩
      · rintro _ v - ⟨hin, rfl⟩
        exact ⟨hin, rfl⟩

end Runs

end Foundrix.ZitadelConfigure
